/-
# What the bus makes no difference to

The processor makes more accesses than an instruction needs. It reads addresses
that are not yet right, and writes a byte back before it writes the new one. On
plain memory none of this shows: a step leaves the registers and the memory
that are told of without any bus, in as many cycles. This holds also where an
instruction lies across its own operand, its own pointer or its own place on
the stack.

The proof goes with the instruction: first the operand bytes, then the operand,
then one lemma for each family of operations.
-/
import Nmos6502.Proofs.Documented
import Nmos6502.Proofs.Plain
import Nmos6502.Proofs.Words

namespace Nmos6502
namespace Plain

open Word

variable (s : Plain)

theorem word_lt (low high : Nat) : s.word low high < 65536 := by
  have hl := (s.byte low).isLt
  have hh := (s.byte high).isLt
  unfold word
  omega

/-! ### Finding the operand -/

def operand (mode : AddressingMode) : Operand :=
  match mode with
  | .implied => .none
  | .accumulator => .accumulator
  | .immediate => .immediate (s.byte (s.address mode))
  | .relative => .displacement (s.byte (s.address mode))
  | _ => .memory (BitVec.ofNat 16 (s.address mode))

theorem on_fetch (count : Nat) :
    (s.past count).fetch.on s.memory =
      ((s.byte (s.regs.pc.toNat + 1 + count), s.past (count + 1)), s.memory) := by
  have step : (s.past count).pc + 1 = (s.past (count + 1)).pc := by
    have hpc := s.regs.pc.isLt
    rw [show (1 : Word) = BitVec.ofNat 16 1 from rfl, add_ofNat]
    apply BitVec.eq_of_toNat_eq
    simp only [past, BitVec.toNat_ofNat]
    omega
  have after : { s.past count with pc := (s.past count).pc + 1 } = s.past (count + 1) := by
    rw [step]
    rfl
  rw [← after]
  rfl

theorem on_fetchWord :
    (s.past 0).fetchWord.on s.memory = ((BitVec.ofNat 16 s.operandWord, s.past 2), s.memory) := by
  unfold Registers.fetchWord
  simp only [Dialogue.on_bind, Dialogue.pure_eq, Dialogue.on_done, on_fetch, ofBytes_eq]
  rfl

/-- The read of the address without the index leaves no trace. -/
theorem on_zeroPageIndexed (index : Byte) :
    ((s.past 0).zeroPageIndexed index).on s.memory =
      ((s.byte (s.regs.pc.toNat + 1) + index, s.past 1), s.memory) := by
  unfold Registers.zeroPageIndexed
  simp only [Dialogue.on_bind, Dialogue.pure_eq, Dialogue.on_done, on_fetch]
  rfl

/-- The read that fixes up an indexed address leaves no trace. -/
theorem on_indexed {base : Nat} (h : base < 65536) (index : Byte) (usage : Usage) (m : Memory) :
    (indexed (BitVec.ofNat 16 base) index usage).on m =
      ((BitVec.ofNat 16 ((base + index.toNat) % 65536),
        decide (256 ≤ base % 256 + index.toNat) && usage == .read), m) := by
  have sum : BitVec.ofNat 16 base + index.setWidth 16 =
      BitVec.ofNat 16 ((base + index.toNat) % 65536) := by
    apply BitVec.eq_of_toNat_eq
    rw [toNat_add_setWidth, toNat_ofNat_lt h, toNat_ofNat_lt (Nat.mod_lt _ (by decide))]
  have crossed := samePage_add (BitVec.ofNat 16 base) index
  rw [sum, toNat_ofNat_lt h] at crossed
  unfold indexed
  dsimp only
  rw [sum, ← crossed]
  generalize Word.samePage (BitVec.ofNat 16 base) _ = same
  cases same <;> cases usage <;> rfl

theorem on_readWordOnPage {pointer : Nat} (h : pointer < 65536) :
    (Dialogue.readWordOnPage (BitVec.ofNat 16 pointer)).on s.memory =
      (BitVec.ofNat 16 (s.word pointer (pointer / 256 * 256 + (pointer + 1) % 256)), s.memory) := by
  have second : Word.ofBytes (Word.low (BitVec.ofNat 16 pointer) + 1)
      (Word.high (BitVec.ofNat 16 pointer)) =
      BitVec.ofNat 16 (pointer / 256 * 256 + (pointer + 1) % 256) := by
    have one : (1 : Byte).toNat = 1 := rfl
    rw [ofBytes_eq, Word.toNat_high, BitVec.toNat_add, Word.toNat_low, toNat_ofNat_lt h]
    congr 1
    omega
  unfold Dialogue.readWordOnPage word byte
  simp only [Dialogue.on_bind, Dialogue.on_readByte, Memory.bus_read, Dialogue.pure_eq,
    Dialogue.on_done, second, ofBytes_eq]

theorem on_readWordOnPage_zeroPage (pointer : Byte) :
    (Dialogue.readWordOnPage (zeroPage pointer)).on s.memory =
      (BitVec.ofNat 16 (s.word pointer.toNat ((pointer.toNat + 1) % 256)), s.memory) := by
  have hp := pointer.isLt
  have onZero : pointer.toNat / 256 * 256 + (pointer.toNat + 1) % 256 = (pointer.toNat + 1) % 256 := by
    omega
  rw [zeroPage_eq, on_readWordOnPage s (Nat.lt_trans hp (by decide)), onZero]

/-- The operand is found where the formula of its mode tells. -/
theorem on_locate (mode : AddressingMode) (usage : Usage) :
    ((s.past 0).locate mode usage).on s.memory =
      ({ operand := s.operand mode
         crossed := s.crosses mode && usage == .read
         regs := s.past mode.operandLength }, s.memory) := by
  have hword : s.operandWord < 65536 := s.word_lt _ _
  unfold Registers.locate
  cases mode with
  | implied | accumulator => rfl
  | immediate | relative =>
    simp only [Dialogue.on_bind, Dialogue.pure_eq, Dialogue.on_done, on_fetch]
    rfl
  | zeroPage =>
    simp only [Dialogue.on_bind, Dialogue.pure_eq, Dialogue.on_done, on_fetch, zeroPage_eq]
    rfl
  | zeroPageX | zeroPageY =>
    simp only [Dialogue.on_bind, Dialogue.pure_eq, Dialogue.on_done, on_zeroPageIndexed, zeroPage_eq,
      BitVec.toNat_add]
    rfl
  | absolute =>
    simp only [Dialogue.on_bind, Dialogue.pure_eq, Dialogue.on_done, on_fetchWord]
    rfl
  | absoluteX | absoluteY =>
    simp only [Dialogue.on_bind, Dialogue.pure_eq, Dialogue.on_done, on_fetchWord, on_indexed hword]
    rfl
  | indirect =>
    simp only [Dialogue.on_bind, Dialogue.pure_eq, Dialogue.on_done, on_fetchWord,
      on_readWordOnPage s hword]
    rfl
  | indexedIndirect =>
    simp only [Dialogue.on_bind, Dialogue.pure_eq, Dialogue.on_done, on_zeroPageIndexed,
      on_readWordOnPage_zeroPage, BitVec.toNat_add, Nat.mod_add_mod]
    rfl
  | indirectIndexed =>
    simp only [Dialogue.on_bind, Dialogue.pure_eq, Dialogue.on_done, on_fetch,
      on_readWordOnPage_zeroPage, on_indexed (s.word_lt _ _)]
    rfl

/-! ### The families of operations -/

theorem operand_of_inMemory {mode : AddressingMode} (h : mode.inMemory = true) :
    s.operand mode = .memory (BitVec.ofNat 16 (s.address mode)) := by
  cases mode with
  | implied | accumulator | immediate | relative => nomatch h
  | _ => rfl

theorem on_readOperand {mode : AddressingMode} (apply : Byte → Registers → Registers)
    (h : (Operation.read apply).takes mode = true) :
    ((s.past 0).readOperand mode apply).on s.memory =
      ((apply (s.byte (s.address mode)) (s.past mode.operandLength), (s.crosses mode).toNat),
        s.memory) := by
  have value : ∀ r : Registers,
      (r.load (s.operand mode)).on s.memory = (s.byte (s.address mode), s.memory) := by
    intro r
    rcases Operation.mode_of_read h with rfl | inMemory
    · rfl
    · rw [s.operand_of_inMemory inMemory]
      rfl
  unfold Registers.readOperand
  simp only [Dialogue.on_bind, Dialogue.pure_eq, Dialogue.on_done, on_locate, value]
  rw [show (Usage.read == Usage.read) = true from rfl, Bool.and_true]

theorem on_storeOperand {mode : AddressingMode} (h : mode.inMemory = true) (value : Byte) :
    ((s.past 0).storeOperand mode value).on s.memory =
      ((s.past mode.operandLength, 0),
        s.memory.set (BitVec.ofNat 16 (s.address mode)) value) := by
  unfold Registers.storeOperand
  simp only [Dialogue.on_bind, on_locate, s.operand_of_inMemory h]
  rfl

/-- The byte that is written back is the byte that is there. -/
theorem on_modifyOperand {mode : AddressingMode} (h : mode.inMemory = true)
    (apply : Byte → Status → Byte × Status) :
    let value := s.byte (s.address mode)
    ((s.past 0).modifyOperand mode apply).on s.memory =
      (({ s.past mode.operandLength with p := (apply value s.regs.p).2 }, 0),
        s.memory.set (BitVec.ofNat 16 (s.address mode)) (apply value s.regs.p).1) := by
  intro value
  unfold Registers.modifyOperand
  simp only [Dialogue.on_bind, on_locate, s.operand_of_inMemory h, Dialogue.on_readByte,
    Memory.bus_read, Dialogue.on_writeByte, Memory.bus_write, Memory.set_get]
  rfl

theorem on_modifyOperand_accumulator (apply : Byte → Status → Byte × Status) :
    ((s.past 0).modifyOperand .accumulator apply).on s.memory =
      (({ s.past 0 with a := (apply s.regs.a s.regs.p).1, p := (apply s.regs.a s.regs.p).2 }, 0),
        s.memory) := rfl

theorem target_eq :
    (s.past 1).pc + (s.byte (s.regs.pc.toNat + 1)).signExtend 16 = s.target := by
  unfold target
  rw [BitVec.ofInt_add]
  rfl

theorem on_branch (taken : Bool) :
    ((s.past 0).branch .relative taken).on s.memory =
      (({ s.regs with pc := if taken then s.target else (s.past 1).pc },
        if taken then if (s.past 1).pc.toNat / 256 = s.target.toNat / 256 then 1 else 2 else 0),
        s.memory) := by
  unfold Registers.branch
  simp only [Dialogue.on_bind, on_locate]
  cases taken with
  | false => rfl
  | true =>
    simp only [operand, address, AddressingMode.operandLength, target_eq, samePage_eq,
      decide_eq_true_iff, if_true]
    rfl

theorem on_jump {mode : AddressingMode} (h : mode.inMemory = true) :
    ((s.past 0).jump mode).on s.memory =
      (({ s.regs with pc := BitVec.ofNat 16 (s.address mode) }, 0), s.memory) := by
  unfold Registers.jump
  simp only [Dialogue.on_bind, on_locate, s.operand_of_inMemory h]
  rfl

/-! ### The stack -/

theorem on_push (r : Registers) (m : Memory) (value : Byte) :
    (r.push value).on m = ((push ⟨r, m⟩ value).regs, (push ⟨r, m⟩ value).memory) := by
  unfold Registers.push Registers.pushSlot push
  rw [← stackPage_eq]
  rfl

theorem on_pull (r : Registers) (m : Memory) :
    r.pull.on m = ((m.onStack r.s 1, { r with s := r.s + 1 }), m) := by
  have slot : stackPage (r.s + 1) = BitVec.ofNat 16 (256 + (r.s.toNat + 1) % 256) := by
    rw [stackPage_eq, BitVec.toNat_add]
    rfl
  unfold Registers.pull Registers.pullSlot Memory.onStack
  rw [← slot]
  rfl

theorem onStack_succ (m : Memory) (pointer : Byte) (above : Nat) :
    m.onStack (pointer + 1) above = m.onStack pointer (above + 1) := by
  have slot : ((pointer + 1).toNat + above) % 256 = (pointer.toNat + (above + 1)) % 256 := by
    have one : (1 : Byte).toNat = 1 := rfl
    rw [BitVec.toNat_add]
    omega
  unfold Memory.onStack
  rw [slot]

theorem on_pullWord (r : Registers) (m : Memory) :
    r.pullWord.on m =
      ((BitVec.ofNat 16 ((m.onStack r.s 1).toNat + 256 * (m.onStack r.s 2).toNat),
        { r with s := r.s + 2 }), m) := by
  have two : r.s + 1 + 1 = r.s + 2 := BitVec.add_assoc r.s 1 1
  unfold Registers.pullWord
  simp only [Dialogue.on_bind, on_pull, onStack_succ, ofBytes_eq, two, Dialogue.pure_eq,
    Dialogue.on_done]

/-- PC goes on the stack as a number, whether or not it has wrapped. -/
theorem on_pushPC (count : Nat) :
    let pushed := s.pushWord (s.regs.pc.toNat + 1 + count)
    (s.past count).pushPC.on s.memory =
      ({ pushed.regs with pc := (s.past count).pc }, pushed.memory) := by
  intro pushed
  -- The number may be past $FFFF; its two low bytes are those of PC all the same.
  have high : (s.past count).pc.high = BitVec.ofNat 8 ((s.regs.pc.toNat + 1 + count) / 256) := by
    apply BitVec.eq_of_toNat_eq
    rw [Word.toNat_high, past, BitVec.toNat_ofNat, BitVec.toNat_ofNat]
    omega
  have low : (s.past count).pc.low = BitVec.ofNat 8 (s.regs.pc.toNat + 1 + count) := by
    apply BitVec.eq_of_toNat_eq
    rw [Word.toNat_low, past, BitVec.toNat_ofNat, BitVec.toNat_ofNat]
    omega
  unfold Registers.pushPC
  rw [Dialogue.on_bind, on_push, on_push]
  show ((push (push ⟨s.past count, s.memory⟩ (s.past count).pc.high) (s.past count).pc.low).regs,
    (push (push ⟨s.past count, s.memory⟩ (s.past count).pc.high) (s.past count).pc.low).memory) = _
  rw [high, low]
  rfl

/-- JSR reads its last byte when PC is on the stack. -/
theorem on_call :
    (s.past 0).call.on s.memory =
      (((s.after .call .absolute).regs, 0), (s.after .call .absolute).memory) := by
  unfold Registers.call
  simp only [Dialogue.on_bind, on_fetch, on_pushPC]
  unfold Registers.fetch
  simp only [Dialogue.on_bind, Dialogue.on_readByte, Memory.bus_read, Dialogue.pure_eq,
    Dialogue.on_done, ofBytes_eq]
  rfl

theorem on_comeBack :
    (s.past 0).comeBack.on s.memory =
      (((s.after .comeBack .implied).regs, 0), (s.after .comeBack .implied).memory) := by
  have next : ∀ n, BitVec.ofNat 16 n + 1 = BitVec.ofNat 16 (n + 1) := fun n =>
    (BitVec.ofNat_add n 1).symm
  unfold Registers.comeBack
  simp only [Dialogue.on_bind, on_pullWord, Dialogue.pure_eq, Dialogue.on_done, next]
  rfl

theorem on_endInterrupt :
    (s.past 0).endInterrupt.on s.memory =
      (((s.after .endInterrupt .implied).regs, 0), (s.after .endInterrupt .implied).memory) := by
  have three : (s.past 0).s + 1 + 2 = s.regs.s + 3 := BitVec.add_assoc s.regs.s 1 2
  unfold Registers.endInterrupt
  simp only [Dialogue.on_bind, on_pull, on_pullWord, onStack_succ, three, Dialogue.pure_eq,
    Dialogue.on_done, after, DataSheet.pulled_eq]
  rfl

/-- A push changes nothing above page one. -/
theorem byte_push (value : Byte) {address : Nat} (above : 512 ≤ address) (h : address < 65536) :
    (s.push value).byte address = s.byte address := by
  refine s.get_push value fun same => ?_
  have numbers := congrArg BitVec.toNat same
  rw [slot, toNat_ofNat_lt h, toNat_ofNat_lt (by omega)] at numbers
  omega

/-- The vector is no part of the stack, so it is as it was before the pushes. -/
theorem on_breakIn :
    (s.past 0).breakIn.on s.memory =
      (((s.after .breakIn .implied).regs, 0), (s.after .breakIn .implied).memory) := by
  let pushed := (s.pushWord (s.regs.pc.toNat + 2)).push s.regs.p.pushedByBreak
  -- The processor reads the vector from the memory it has pushed to, the sheet from the one before.
  have kept : ∀ address, 512 ≤ address → address < 65536 → pushed.byte address = s.byte address := by
    intro address above h
    simp only [pushed, pushWord, byte_push _ _ above h]
  have handler : (Dialogue.readWord irqVector).on pushed.memory =
      (BitVec.ofNat 16 (s.word 0xFFFE 0xFFFF), pushed.memory) := by
    unfold word
    rw [← kept 0xFFFE (by decide) (by decide), ← kept 0xFFFF (by decide) (by decide), ← ofBytes_eq]
    rfl
  unfold Registers.breakIn Registers.enterAt
  rw [Dialogue.on_bind, on_fetch, Dialogue.on_bind, Dialogue.on_bind, on_pushPC, Dialogue.on_bind,
    on_push, Dialogue.on_bind]
  show ((({ pushed.regs with
      pc := ((Dialogue.readWord irqVector).on pushed.memory).1
      p := { pushed.regs.p with interruptDisable := true } } : Registers), 0),
    ((Dialogue.readWord irqVector).on pushed.memory).2) = _
  rw [handler]
  simp only [after, DataSheet.pushedByBreak_eq]
  rfl

/-! ### Instructions -/

theorem on_perform (i : Instruction) (takes : i.mnemonic.operation.takes i.mode = true) :
    (i.perform (s.past 0)).on s.memory =
      (((s.after i.mnemonic.operation i.mode).regs, s.extra i.mnemonic.operation i.mode),
        (s.after i.mnemonic.operation i.mode).memory) := by
  obtain ⟨opcode, m, mode⟩ := i
  dsimp only at takes ⊢
  unfold Instruction.perform
  dsimp only
  generalize m.operation = operation at takes
  cases operation with
  | read apply => exact s.on_readOperand apply takes
  | store source => exact s.on_storeOperand (Operation.inMemory_of_store takes) (source (s.past 0))
  | modify apply =>
    by_cases accumulator : mode = .accumulator
    · obtain rfl := accumulator
      exact s.on_modifyOperand_accumulator apply
    · simp only [after, if_neg accumulator]
      exact s.on_modifyOperand (Operation.inMemory_of_modify takes accumulator) apply
  | internal apply =>
    obtain rfl := eq_of_beq takes
    rfl
  | push source =>
    obtain rfl := eq_of_beq takes
    dsimp only
    rw [Dialogue.on_map, on_push]
    rfl
  | pull apply =>
    obtain rfl := eq_of_beq takes
    dsimp only
    rw [Dialogue.on_bind, on_pull]
    rfl
  | branch taken =>
    obtain rfl := eq_of_beq takes
    exact s.on_branch (taken (s.past 0).p)
  | jump => exact s.on_jump (Operation.inMemory_of_jump takes)
  | call =>
    obtain rfl := eq_of_beq takes
    exact s.on_call
  | comeBack =>
    obtain rfl := eq_of_beq takes
    exact s.on_comeBack
  | endInterrupt =>
    obtain rfl := eq_of_beq takes
    exact s.on_endInterrupt
  | breakIn =>
    obtain rfl := eq_of_beq takes
    exact s.on_breakIn
  | undocumented => exact absurd takes Bool.false_ne_true

theorem past_zero : { s.regs with pc := s.regs.pc + 1 } = s.past 0 := by
  have next : s.regs.pc + 1 = BitVec.ofNat 16 (s.regs.pc.toNat + 1) := add_ofNat s.regs.pc 1
  rw [next]
  rfl

theorem on_step {m : Mnemonic} {mode : AddressingMode} {opcode : Byte}
    (listed : (mode, opcode) ∈ DataSheet.opcodes m) (here : s.memory.get s.regs.pc = opcode) :
    s.regs.step.on s.memory =
      (({ address := s.regs.pc
          instruction := { opcode := opcode, mnemonic := m, mode := mode }
          cycles := s.cycles (DataSheet.operation m) mode },
        (s.after (DataSheet.operation m) mode).regs), (s.after (DataSheet.operation m) mode).memory) := by
  have decoded := ((DataSheet.mem_opcodes_iff m mode opcode).mp listed).1
  have takes := DataSheet.takes_of_listed listed
  have base := DataSheet.baseCycles_eq listed
  rw [DataSheet.operation_eq] at takes base ⊢
  have performed := s.on_perform { opcode := opcode, mnemonic := m, mode := mode } takes
  unfold Registers.step Registers.fetch
  simp only [Dialogue.on_bind, Dialogue.on_readByte, Memory.bus_read, Dialogue.pure_eq,
    Dialogue.on_done, here, decoded, past_zero, performed, base, cycles]

end Plain

/-- **The instruction set on plain memory.** A step at a documented opcode leaves the registers and
the memory, and takes the cycles, that the data sheet tells; it changes no byte but those the sheet
names. -/
theorem Machine.step_eq_dataSheet (m : Machine Memory) {mnemonic : Mnemonic} {mode : AddressingMode}
    {opcode : Byte} (listed : (mode, opcode) ∈ DataSheet.opcodes mnemonic)
    (here : m.bus.get m.regs.pc = opcode) :
    let before : Plain := { regs := m.regs, memory := m.bus }
    let operation := DataSheet.operation mnemonic
    let after := before.after operation mode
    m.step =
      ({ address := m.regs.pc
         instruction := { opcode := opcode, mnemonic := mnemonic, mode := mode }
         cycles := before.cycles operation mode },
       { m with regs := after.regs, bus := after.memory }) ∧
    ∀ address, address ∉ before.written operation mode →
      m.step.2.bus.get address = m.bus.get address := by
  intro before operation after
  have stepped : m.step =
      ({ address := m.regs.pc
         instruction := { opcode := opcode, mnemonic := mnemonic, mode := mode }
         cycles := before.cycles operation mode },
       { m with regs := after.regs, bus := after.memory }) := by
    unfold Machine.step Machine.converse
    rw [before.on_step listed here]
  refine ⟨stepped, fun address other => ?_⟩
  rw [stepped]
  exact before.get_after operation mode address other

/-- JSR from $01FD with S at $FF: the return address is pushed over the operand, and the high byte
that is then read is the one just pushed. -/
theorem Machine.step_eq_dataSheet_overlapping_call :
    let memory := Memory.ofFn fun address =>
      if address = 0x01FD then 0x20 else if address = 0x01FE then 0x34
      else if address = 0x01FF then 0x12 else 0
    let m : Machine Memory :=
      { settings := ⟨⟨1000000⟩, 16⟩, accepted := by decide
        regs := { Registers.powerOn with s := 0xFF, pc := 0x01FD }
        bus := memory, phase := .running, budget := 16 }
    (.absolute, 0x20) ∈ DataSheet.opcodes .jsr ∧ m.bus.get m.regs.pc = 0x20 ∧
    m.step.1.cycles = 6 ∧
    m.step.2.regs = { Registers.powerOn with s := 0xFD, pc := 0x0134 } ∧
    m.step.2.bus.get 0x01FE = 0xFF ∧ m.step.2.bus.get 0x01FF = 0x01 ∧
    m.step.2.bus.get 0x01FD = 0x20 := by
  intro memory
  have bytes : ∀ address, memory.get address =
      if address = 0x01FD then 0x20 else if address = 0x01FE then 0x34
      else if address = 0x01FF then 0x12 else 0 := Memory.get_ofFn _
  clear_value memory
  intro m
  have listed : (AddressingMode.absolute, 0x20) ∈ DataSheet.opcodes .jsr := by decide
  have here : m.bus.get m.regs.pc = 0x20 := bytes 0x01FD
  obtain ⟨step, other⟩ := Machine.step_eq_dataSheet m listed here
  have bus : m.step.2.bus = (memory.set 0x01FF 0x01).set 0x01FE 0xFF := by
    rw [step]
    simp only [DataSheet.operation, Plain.after, Plain.pushWord, Plain.push, m]
    rfl
  have regs : m.step.2.regs =
      { Registers.powerOn with
        s := 0xFD
        pc := BitVec.ofNat 16 ((memory.get 0x01FE).toNat + 256 * (m.step.2.bus.get 0x01FF).toNat) } := by
    rw [step]
    simp only [DataSheet.operation, Plain.after, Plain.pushWord, Plain.push, m]
    rfl
  have low : m.step.2.bus.get 0x01FE = 0xFF := by rw [bus, Memory.get_set_self]
  have high : m.step.2.bus.get 0x01FF = 0x01 := by
    rw [bus, Memory.get_set, Memory.get_set_self]
    rfl
  refine ⟨listed, here, ?_, ?_, low, high, ?_⟩
  · rw [step]
    rfl
  · rw [regs, high, bytes]
    rfl
  · have written : Plain.written { regs := m.regs, memory := m.bus } (DataSheet.operation .jsr)
        .absolute = [0x01FF, 0x01FE] := by
      simp only [DataSheet.operation, Plain.written, Plain.slot, m]
      rfl
    rw [written] at other
    exact (other 0x01FD (by decide)).trans here

end Nmos6502
