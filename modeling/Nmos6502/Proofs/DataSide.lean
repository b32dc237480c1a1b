/-
# What an instruction does on the bus besides being fetched

A device that reacts to being read cares for every access, whatever bytes the
bus answers. An instruction first reads its own bytes. What follows depends on
the mode and on what is done with the operand: reads of an address that is not
yet right, reads of a pointer, and then the operand's own accesses, one for a
load, one for a store, three where a byte is changed in place.

`Finds` and `DataSide` list these accesses, mode by mode and family by family,
each with the byte it carried, since a pointer is made of bytes that were read.
-/
import Nmos6502.Proofs.Documented
import Nmos6502.Proofs.Keeping
import Nmos6502.Proofs.Words
import Nmos6502.Rom

namespace Nmos6502

/-! ### The accesses -/

/-- The reads that fetch bytes of a program, from an address upward. -/
def fetches (start : Word) : List Byte → List Activity
  | [] => []
  | b :: bs => .read start b :: fetches (start + 1) bs

/-- What is seen while an index is added to the address with the bytes `l` and `h`. The address
without the carry is read if there is a carry, and always by an instruction that writes. -/
inductive FixUp (usage : Usage) (l h index : Byte) : List Activity → Prop where
  | unfixed (ignored : Byte) : 255 < l.toNat + index.toNat ∨ usage ≠ .read →
      FixUp usage l h index [.read (Word.ofBytes (l + index) h) ignored]
  | right : ¬(255 < l.toNat + index.toNat ∨ usage ≠ .read) → FixUp usage l h index []

/-- What is seen, the operand bytes having been fetched, until an operand's address is known. -/
inductive Finds (x y : Byte) (usage : Usage) :
    AddressingMode → List Byte → List Activity → Word → Prop where
  | zeroPage (n : Byte) : Finds x y usage .zeroPage [n] [] (zeroPage n)
  | zeroPageX (n ignored : Byte) :
      Finds x y usage .zeroPageX [n] [.read (zeroPage n) ignored] (zeroPage (n + x))
  | zeroPageY (n ignored : Byte) :
      Finds x y usage .zeroPageY [n] [.read (zeroPage n) ignored] (zeroPage (n + y))
  | absolute (l h : Byte) : Finds x y usage .absolute [l, h] [] (Word.ofBytes l h)
  | absoluteX {l h : Byte} {fix : List Activity} : FixUp usage l h x fix →
      Finds x y usage .absoluteX [l, h] fix (Word.ofBytes l h + x.setWidth 16)
  | absoluteY {l h : Byte} {fix : List Activity} : FixUp usage l h y fix →
      Finds x y usage .absoluteY [l, h] fix (Word.ofBytes l h + y.setWidth 16)
  | indirect (l h low high : Byte) :
      Finds x y usage .indirect [l, h]
        [.read (Word.ofBytes l h) low, .read (Word.ofBytes (l + 1) h) high] (Word.ofBytes low high)
  | indexedIndirect (n ignored low high : Byte) :
      Finds x y usage .indexedIndirect [n]
        [.read (zeroPage n) ignored, .read (zeroPage (n + x)) low,
          .read (zeroPage (n + x + 1)) high] (Word.ofBytes low high)
  | indirectIndexed {n low high : Byte} {fix : List Activity} : FixUp usage low high y fix →
      Finds x y usage .indirectIndexed [n]
        (.read (zeroPage n) low :: .read (zeroPage (n + 1)) high :: fix)
        (Word.ofBytes low high + y.setWidth 16)

/-- What is seen of an instruction when its own bytes have been fetched. -/
inductive DataSide (r : Registers) (mode : AddressingMode) (operands : List Byte) :
    Operation → List Activity → Prop where
  /-- The operand is one of the bytes that were fetched. -/
  | immediate (apply : Byte → Registers → Registers) : mode = .immediate →
      DataSide r mode operands (.read apply) []
  | read (apply : Byte → Registers → Registers) (value : Byte) {finding : List Activity}
      {address : Word} : Finds r.x r.y .read mode operands finding address →
      DataSide r mode operands (.read apply) (finding ++ [.read address value])
  | store (source : Registers → Byte) {finding : List Activity} {address : Word} :
      Finds r.x r.y .write mode operands finding address →
      DataSide r mode operands (.store source) (finding ++ [.write address (source r)])
  /-- The byte is written back before its successor is written. -/
  | modify (apply : Byte → Status → Byte × Status) (value : Byte) {finding : List Activity}
      {address : Word} : Finds r.x r.y .modify mode operands finding address →
      DataSide r mode operands (.modify apply)
        (finding ++ [.read address value, .write address value, .write address (apply value r.p).1])
  /-- A jump goes to the address and does not touch what is there. -/
  | jump {finding : List Activity} {target : Word} : Finds r.x r.y .read mode operands finding target →
      DataSide r mode operands .jump finding

def Operation.usesAddress (mode : AddressingMode) : Operation → Bool
  | .read _ | .store _ | .jump => true
  | .modify _ => mode != .accumulator
  | _ => false

/-! ### The processor makes them -/

open Dialogue

theorem indexed_fixUp (l h index : Byte) (usage : Usage) :
    (indexed (Word.ofBytes l h) index usage).Shows fun seen out =>
      FixUp usage l h index seen ∧ out.1 = Word.ofBytes l h + index.setWidth 16 := by
  have low : (Word.ofBytes l h + index.setWidth 16).low = l + index := by
    rw [Word.low_add, Word.low_ofBytes]
  have carry : (!Word.samePage (Word.ofBytes l h) (Word.ofBytes l h + index.setWidth 16)) =
      decide (255 < l.toNat + index.toNat) := by
    rw [Word.samePage_add, ← Word.toNat_low, Word.low_ofBytes]
    rfl
  have needed : (decide (255 < l.toNat + index.toNat) || usage != .read) = true ↔
      255 < l.toNat + index.toNat ∨ usage ≠ .read := by
    rw [Bool.or_eq_true, decide_eq_true_iff, bne_iff_ne]
  unfold indexed
  dsimp only
  rw [carry, low, Word.high_ofBytes]
  by_cases fix : 255 < l.toNat + index.toNat ∨ usage ≠ .read
  · rw [if_pos (needed.mpr fix)]
    exact fun ignored => ⟨.unfixed ignored fix, rfl⟩
  · rw [if_neg (mt needed.mp fix)]
    exact ⟨.right fix, rfl⟩

/-- The second byte of a pointer lies on the page of the first. -/
theorem shows_readWordOnPage {γ : Type} {post : List Activity → γ → Prop} {l h : Byte}
    {f : Word → Dialogue γ} :
    (readWordOnPage (Word.ofBytes l h) >>= f).Shows post ↔
      ∀ low high, (f (Word.ofBytes low high)).Shows fun later => post
        (.read (Word.ofBytes l h) low :: .read (Word.ofBytes (l + 1) h) high :: later) := by
  unfold readWordOnPage
  rw [Word.low_ofBytes, Word.high_ofBytes]
  exact Iff.rfl

/-- The operand's address is found by the accesses of its mode. -/
theorem Registers.locate_finds (r : Registers) (usage : Usage) {mode : AddressingMode}
    (inMemory : mode.inMemory = true) :
    (r.locate mode usage).Shows fun seen found =>
      ∃ operands finding address, operands.length = mode.operandLength ∧
        seen = fetches r.pc operands ++ finding ∧ Finds r.x r.y usage mode operands finding address ∧
        found.operand = .memory address ∧ found.regs.p = r.p := by
  unfold Registers.locate
  cases mode with
  | implied | accumulator | immediate | relative => nomatch inMemory
  | zeroPage => exact fun n => ⟨[n], [], _, rfl, rfl, .zeroPage n, rfl, rfl⟩
  | zeroPageX =>
    exact fun n ignored => ⟨[n], [.read _ ignored], _, rfl, rfl, .zeroPageX n ignored, rfl, rfl⟩
  | zeroPageY =>
    exact fun n ignored => ⟨[n], [.read _ ignored], _, rfl, rfl, .zeroPageY n ignored, rfl, rfl⟩
  | absolute => exact fun l h => ⟨[l, h], [], _, rfl, rfl, .absolute l h, rfl, rfl⟩
  | absoluteX =>
    intro l h
    refine (indexed_fixUp l h r.x usage).bind ?_
    rintro fix ⟨_, crossed⟩ ⟨fixUp, rfl⟩
    refine ⟨[l, h], fix, _, rfl, ?_, .absoluteX fixUp, rfl, rfl⟩
    rw [List.append_nil]
    rfl
  | absoluteY =>
    intro l h
    refine (indexed_fixUp l h r.y usage).bind ?_
    rintro fix ⟨_, crossed⟩ ⟨fixUp, rfl⟩
    refine ⟨[l, h], fix, _, rfl, ?_, .absoluteY fixUp, rfl, rfl⟩
    rw [List.append_nil]
    rfl
  | indirect =>
    intro l h
    refine shows_readWordOnPage.mpr fun low high => ?_
    exact ⟨[l, h], _, _, rfl, rfl, .indirect l h low high, rfl, rfl⟩
  | indexedIndirect =>
    intro n ignored
    refine shows_readWordOnPage.mpr fun low high => ?_
    exact ⟨[n], _, _, rfl, rfl, .indexedIndirect n ignored low high, rfl, rfl⟩
  | indirectIndexed =>
    intro n
    refine shows_readWordOnPage.mpr fun low high => ?_
    refine (indexed_fixUp low high r.y usage).bind ?_
    rintro fix ⟨_, crossed⟩ ⟨fixUp, rfl⟩
    refine ⟨[n], _, _, rfl, ?_, .indirectIndexed fixUp, rfl, rfl⟩
    rw [List.append_nil]
    rfl

/-! ### The families that use an address -/

/-- An instruction that is done, its opcode having been fetched: its operand bytes, and what came
after them. -/
def Instruction.Did (i : Instruction) (r : Registers) (seen : List Activity) : Prop :=
  ∃ operands data, operands.length = i.mode.operandLength ∧ seen = fetches r.pc operands ++ data ∧
    DataSide r i.mode operands i.mnemonic.operation data

theorem Instruction.perform_did (i : Instruction) (r : Registers)
    (takes : i.mnemonic.operation.takes i.mode = true)
    (uses : i.mnemonic.operation.usesAddress i.mode = true) :
    (i.perform r).Shows fun seen _ => i.Did r seen := by
  obtain ⟨opcode, m, mode⟩ := i
  dsimp only at takes uses
  unfold Instruction.perform Instruction.Did
  dsimp only
  generalize m.operation = operation at takes uses
  cases operation with
  | read apply =>
    rcases Operation.mode_of_read takes with rfl | memory
    · exact fun n => ⟨[n], [], rfl, rfl, .immediate apply rfl⟩
    · refine (r.locate_finds .read memory).bind ?_
      rintro _ ⟨operand, crossed, regs⟩ ⟨operands, finding, address, length, rfl, finds, rfl, -⟩
      intro value
      exact ⟨operands, _, length, List.append_assoc _ _ _, .read apply value finds⟩
  | store source =>
    refine (r.locate_finds .write (Operation.inMemory_of_store takes)).bind ?_
    rintro _ ⟨operand, crossed, regs⟩ ⟨operands, finding, address, length, rfl, finds, rfl, -⟩
    exact ⟨operands, _, length, List.append_assoc _ _ _, .store source finds⟩
  | modify apply =>
    have memory := Operation.inMemory_of_modify takes (bne_iff_ne.mp uses)
    refine (r.locate_finds .modify memory).bind ?_
    rintro _ ⟨operand, crossed, regs⟩ ⟨operands, finding, address, length, rfl, finds, rfl, flags⟩
    intro value
    have did := DataSide.modify apply value finds
    rw [← flags] at did
    exact ⟨operands, _, length, List.append_assoc _ _ _, did⟩
  | jump =>
    refine (r.locate_finds .read (Operation.inMemory_of_jump takes)).bind ?_
    rintro _ ⟨operand, crossed, regs⟩ ⟨operands, finding, target, length, rfl, finds, rfl, -⟩
    refine ⟨operands, _, length, ?_, .jump finds⟩
    exact List.append_nil _
  | _ => nomatch uses

theorem Mnemonic.source_pc (m : Mnemonic) {source : Registers → Byte} (h : m.operation = .store source)
    (r : Registers) (pc : Word) : source { r with pc := pc } = source r := by
  cases m with
  | sta | stx | sty =>
    cases h
    rfl
  | _ => nomatch h

/-- When the opcode has been fetched, nothing has happened to the registers that data accesses depend
on. -/
theorem DataSide.of_opened {r : Registers} {mode : AddressingMode} {operands : List Byte}
    {m : Mnemonic} {data : List Activity}
    (h : DataSide { r with pc := r.pc + 1 } mode operands m.operation data) :
    DataSide r mode operands m.operation data := by
  -- Only a store looks at the registers as a whole, and a store of the sheet does not look at PC.
  generalize same : m.operation = operation at h
  cases h with
  | immediate apply immediate => exact .immediate apply immediate
  | read apply value finds => exact .read apply value finds
  | store source finds =>
    rw [m.source_pc same]
    exact .store source finds
  | modify apply value finds => exact .modify apply value finds
  | jump finds => exact .jump finds

/-! ### Steps -/

/-- **What an instruction does on the bus besides being fetched.** At an opcode of the sheet that
works on an operand or jumps, a step reads the bytes of the instruction and then makes the accesses
of its mode and its operation, and no others, in this order, whatever the bus answers. -/
theorem Machine.step_data_side {β : Type} [Bus β] (m : Machine β) {mnemonic : Mnemonic}
    {mode : AddressingMode} {opcode : Byte} (listed : (mode, opcode) ∈ DataSheet.opcodes mnemonic)
    (here : (Bus.read m.bus m.regs.pc).1 = opcode)
    (uses : (DataSheet.operation mnemonic).usesAddress mode = true) :
    ∃ operands data, operands.length = mode.operandLength ∧
      m.seenInStep = fetches m.regs.pc (opcode :: operands) ++ data ∧
      DataSide m.regs mode operands (DataSheet.operation mnemonic) data := by
  have decoded := ((DataSheet.mem_opcodes_iff mnemonic mode opcode).mp listed).1
  have takes := DataSheet.takes_of_listed listed
  rw [DataSheet.operation_eq] at takes uses ⊢
  have did := (Instruction.perform_did ⟨opcode, mnemonic, mode⟩
    { m.regs with pc := m.regs.pc + 1 } takes uses).on (Bus.read m.bus m.regs.pc).2
  obtain ⟨operands, data, length, seen, shape⟩ := did
  refine ⟨operands, data, length, ?_, .of_opened shape⟩
  rw [m.seenInStep_eq, here, decoded, seen]
  rfl

/-- INC $FEFE,X where every byte is $FE: the address without the carry is read, and the byte is
written back before it is replaced. -/
theorem Machine.step_data_side_increment :
    let m : Machine Rom :=
      { settings := ⟨⟨1000000⟩, 16⟩, accepted := by decide
        regs := { Registers.powerOn with x := 5, pc := 0x0400 }
        bus := .uniform 0xFE, phase := .running, budget := 16 }
    (.absoluteX, 0xFE) ∈ DataSheet.opcodes .inc ∧ (Bus.read m.bus m.regs.pc).1 = 0xFE ∧
    (DataSheet.operation .inc).usesAddress .absoluteX = true ∧
    m.seenInStep =
      [.read 0x0400 0xFE, .read 0x0401 0xFE, .read 0x0402 0xFE, .read 0xFE03 0xFE,
        .read 0xFF03 0xFE, .write 0xFF03 0xFE, .write 0xFF03 0xFF] ∧
    ∃ operands data, operands.length = 2 ∧
      m.seenInStep = fetches 0x0400 (0xFE :: operands) ++ data ∧
      DataSide m.regs .absoluteX operands (DataSheet.operation .inc) data := by
  intro m
  have listed : (AddressingMode.absoluteX, 0xFE) ∈ DataSheet.opcodes .inc := by decide
  exact ⟨listed, rfl, rfl, by decide +kernel, m.step_data_side listed rfl rfl⟩

/-! ### The byte that is taken -/

/-- The byte that a step reads last. -/
def Machine.lastRead {β : Type} [Bus β] (m : Machine β) : Byte :=
  match m.seenInStep.getLast? with
  | some (.read _ value) => value
  | _ => 0

/-- An instruction that reads its operand ends by reading it, and takes that byte into the registers,
in which nothing has changed but PC. -/
theorem Registers.readOperand_takes (r : Registers) {mode : AddressingMode}
    {apply : Byte → Registers → Registers} (takes : (Operation.read apply).takes mode = true) :
    (r.readOperand mode apply).Shows fun seen out =>
      ∃ address value pc, seen.getLast? = some (.read address value) ∧
        out.1 = apply value { r with pc := pc } := by
  rcases Operation.mode_of_read takes with rfl | memory
  · exact fun value => ⟨r.pc, value, _, rfl, rfl⟩
  · refine ((r.locate_finds .read memory).and_yields (r.locate_regs mode .read)).bind ?_
    rintro seen ⟨operand, crossed, _⟩ ⟨⟨_, _, address, -, -, -, rfl, -⟩, pc, rfl⟩
    intro value
    exact ⟨address, value, pc, List.getLast?_concat, rfl⟩

theorem Instruction.perform_takes {opcode : Byte} {apply : Byte → Registers → Registers}
    (reads : (decode opcode).mnemonic.operation = .read apply) (r : Registers) :
    ((decode opcode).perform r).Shows fun seen out =>
      ∃ address value pc, seen.getLast? = some (.read address value) ∧
        out.1 = apply value { r with pc := pc } := by
  unfold perform
  rw [reads]
  exact r.readOperand_takes (DataSheet.takes_decode reads nofun)

theorem Machine.step_takes {β : Type} [Bus β] (m : Machine β) {apply : Byte → Registers → Registers}
    (reads : m.step.1.instruction.mnemonic.operation = .read apply) :
    ∃ pc, m.step.2.regs = apply m.lastRead { m.regs with pc := pc } := by
  rw [m.step_eq] at reads ⊢
  obtain ⟨address, value, pc, last, regs⟩ :=
    (Instruction.perform_takes reads { m.regs with pc := m.regs.pc + 1 }).on (Bus.read m.bus m.regs.pc).2
  have byte : m.lastRead = value := by
    unfold lastRead
    rw [m.seenInStep_eq, List.getLast?_cons, last]
    rfl
  rw [byte]
  exact ⟨pc, regs⟩

/-- What a step leaves in A and in the flags if it combines A with an operand. -/
theorem Machine.step_combines {β : Type} [Bus β] (m : Machine β) {f : Byte → Byte → Status → Byte × Status}
    (combines : m.step.1.instruction.mnemonic.operation = .read (Registers.combineA f)) :
    m.step.2.regs.a = (f m.regs.a m.lastRead m.regs.p).1 ∧
    m.step.2.regs.p = (f m.regs.a m.lastRead m.regs.p).2 := by
  obtain ⟨pc, regs⟩ := m.step_takes combines
  rw [regs]
  exact ⟨rfl, rfl⟩

end Nmos6502
