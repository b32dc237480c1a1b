/-
# ADC and SBC in decimal mode

D tells ADC and SBC how to compute. It changes neither their accesses nor their
cycles, and no register but A and the flags: a step that starts with D set and
one that starts with D clear go alongside each other (`Machine.Alongside`).

With D set SBC leaves in A what the data sheet gives for the decimal difference,
and the flags of the binary one. ADC leaves A, N, V and C as the sheet gives them
for the decimal sum, and Z from the binary sum. No operand need be packed: the
sheet is followed also where a digit is no decimal digit.
-/
import Nmos6502.Proofs.Alike
import Nmos6502.Proofs.DataSide

namespace Nmos6502

theorem Dialogue.Agree.seen {α γ β : Type} [Bus β] {S : α → γ → Prop} {d : Dialogue α}
    {e : Dialogue γ} (h : d.Agree S e) (bus : β) : d.seen bus = e.seen bus := by
  induction h generalizing bus with
  | done => rfl
  | read address _ ih => rw [seen_read, seen_read, ih]
  | write address value _ ih => rw [seen_write, seen_write, ih]

theorem DataSheet.operation_of_listed {m : Mnemonic} {mode : AddressingMode} {opcode : Byte}
    (listed : (mode, opcode) ∈ opcodes m) :
    (Instruction.decode opcode).mnemonic.operation = m.operation := by
  rw [((mem_opcodes_iff m mode opcode).mp listed).1]

theorem Arithmetic.zero_addDecimal (a v : Byte) (p : Status) :
    (addDecimal a v p).2.zero = (addBinary a v p).2.zero := by
  rw [Bool.eq_iff_iff]
  show (_ % 256 == 0) = true ↔ (BitVec.ofNat 8 _ == 0) = true
  rw [beq_iff_eq, beq_iff_eq, ← BitVec.toNat_inj, BitVec.toNat_ofNat]
  rfl

def Registers.withDecimal (r : Registers) (on : Bool) : Registers :=
  { r with p := { r.p with decimal := on } }

namespace Machine

variable {β : Type}

def withDecimal (m : Machine β) (on : Bool) : Machine β :=
  let ⟨settings, accepted, regs, bus, phase, budget⟩ := m
  ⟨settings, accepted, regs.withDecimal on, bus, phase, budget⟩

variable [Bus β]

/-- Two steps of the same instruction, with the same accesses in the same number of cycles, that leave
the same bus and the same X, Y, S and PC. -/
structure Alongside (m k : Machine β) : Prop where
  executed : m.step.1 = k.step.1
  seen : m.seenInStep = k.seenInStep
  bus : m.step.2.bus = k.step.2.bus
  x : m.step.2.regs.x = k.step.2.regs.x
  y : m.step.2.regs.y = k.step.2.regs.y
  s : m.step.2.regs.s = k.step.2.regs.s
  pc : m.step.2.regs.pc = k.step.2.regs.pc

variable (m : Machine β)

/-- With D set and with D clear an instruction that combines A with its operand does the same, but for
what it leaves in A and in the flags. -/
theorem alongside_of_combines {f : Byte → Byte → Status → Byte × Status}
    (combines : (Instruction.decode (Bus.read m.bus m.regs.pc).1).mnemonic.operation =
      .read (Registers.combineA f)) (on off : Bool) :
    (m.withDecimal on).Alongside (m.withDecimal off) := by
  let same (r q : Registers) : Prop := r.x = q.x ∧ r.y = q.y ∧ r.s = q.s ∧ r.pc = q.pc
  let i := Instruction.decode (Bus.read m.bus m.regs.pc).1
  let opened (d : Bool) : Registers := { m.regs.withDecimal d with pc := m.regs.pc + 1 }
  have agree : (i.perform (opened on)).Agree (Outcome.Related same) (i.perform (opened off)) := by
    unfold Instruction.perform
    rw [combines]
    exact (opened on).readOperand_agree (opened off).p i.mode fun _ _ => ⟨rfl, rfl, rfl, rfl⟩
  have seen := agree.seen (Bus.read m.bus m.regs.pc).2
  obtain ⟨⟨⟨x, y, s, pc⟩, cycles⟩, bus⟩ := agree.on Bus.Alike.eq (Eq.refl (Bus.read m.bus m.regs.pc).2)
  constructor
  case seen =>
    rw [seenInStep_eq, seenInStep_eq]
    exact congrArg _ seen
  all_goals rw [step_eq, step_eq]
  · exact congrArg (fun extra => Executed.mk m.regs.pc i (baseCycles _ + extra)) cycles
  · exact bus
  · exact x
  · exact y
  · exact s
  · exact pc

theorem Alongside.lastRead {m k : Machine β} (alongside : m.Alongside k) : m.lastRead = k.lastRead := by
  unfold Machine.lastRead
  rw [alongside.seen]

/-- What such an instruction leaves in A and in the flags. It reads the same operand on both sides. -/
theorem combined {f : Byte → Byte → Status → Byte × Status}
    (combines : (Instruction.decode (Bus.read m.bus m.regs.pc).1).mnemonic.operation =
      .read (Registers.combineA f)) (on : Bool) :
    let k := m.withDecimal on
    let v := (m.withDecimal true).lastRead
    k.step.2.regs.a = (f m.regs.a v k.regs.p).1 ∧ k.step.2.regs.p = (f m.regs.a v k.regs.p).2 := by
  intro k v
  have operand : v = k.lastRead := (m.alongside_of_combines combines true on).lastRead
  have here : k.step.1.instruction.mnemonic.operation = .read (Registers.combineA f) := by
    rw [k.instruction_step]
    exact combines
  rw [operand]
  exact k.step_combines here

/-- **Decimal mode.** The instruction at PC is one of the eight of SBC or of ADC, and it is executed with
D set and with D clear, on any bus and in any state besides. Both steps make the same accesses in the same
number of cycles and leave the same X, Y, S and PC. SBC leaves the same flags, but for D, and with D set
the decimal difference in A. ADC leaves the same Z, and with D set the decimal sum in A with its N, V and
C. No operand need be packed. -/
theorem step_decimal (m : Machine β) :
    let opcode := (Bus.read m.bus m.regs.pc).1
    let decimal := m.withDecimal true
    let binary := m.withDecimal false
    let p := decimal.step.2.regs.p
    let q := binary.step.2.regs.p
    (∀ mode, (mode, opcode) ∈ DataSheet.opcodes .sbc →
      decimal.Alongside binary ∧
      (p.negative = q.negative ∧ p.overflow = q.overflow ∧ p.zero = q.zero ∧ p.carry = q.carry) ∧
      decimal.step.2.regs.a =
        DataSheet.differenceDecimal m.regs.a decimal.lastRead (!m.regs.p.carry).toNat) ∧
    (∀ mode, (mode, opcode) ∈ DataSheet.opcodes .adc →
      decimal.Alongside binary ∧ p.zero = q.zero ∧
      (decimal.step.2.regs.a, p) =
        DataSheet.addDecimal m.regs.a decimal.lastRead decimal.regs.p) := by
  intro opcode decimal binary p q
  refine ⟨fun mode listed => ?_, fun mode listed => ?_⟩
  · have combines := DataSheet.operation_of_listed listed
    have alongside := m.alongside_of_combines combines true false
    obtain ⟨difference, flags⟩ : _ ∧ p = _ := m.combined combines true
    obtain ⟨-, flags'⟩ : _ ∧ q = _ := m.combined combines false
    rw [Arithmetic.subtract_of_set rfl] at difference flags
    rw [Arithmetic.subtract_of_clear rfl] at flags'
    refine ⟨alongside, ?_, ?_⟩
    · rw [flags, flags']
      exact ⟨rfl, rfl, rfl, rfl⟩
    · rw [DataSheet.differenceDecimal_eq]
      exact difference
  · have combines := DataSheet.operation_of_listed listed
    have alongside := m.alongside_of_combines combines true false
    obtain ⟨sum, flags⟩ : _ ∧ p = _ := m.combined combines true
    obtain ⟨-, flags'⟩ : _ ∧ q = _ := m.combined combines false
    rw [Arithmetic.add_of_set rfl] at sum flags
    rw [Arithmetic.add_of_clear rfl] at flags'
    refine ⟨alongside, ?_, ?_⟩
    · rw [flags, flags']
      exact Arithmetic.zero_addDecimal _ _ _
    · rw [DataSheet.addDecimal_eq]
      exact Prod.ext sum flags

/-- SBC $EDED where every byte is $ED, and ADC $6D6D where every byte is $6D, with $0F in A: no digit of
these is a decimal digit but the 0 and the 6. -/
theorem step_decimal_unpacked :
    let start (bus : Rom) : Machine Rom :=
      { settings := ⟨⟨1000000⟩, 16⟩, accepted := by decide
        regs := { Registers.powerOn with a := 0x0F, pc := 0x0400 }
        bus := bus, phase := .running, budget := 16 }
    let taking := start (.uniform 0xED)
    let adding := start (.uniform 0x6D)
    (.absolute, 0xED) ∈ DataSheet.opcodes .sbc ∧ (.absolute, 0x6D) ∈ DataSheet.opcodes .adc ∧
    (taking.withDecimal true).Alongside (taking.withDecimal false) ∧
    (taking.withDecimal true).step.2.regs.a = 0xC1 ∧
    (taking.withDecimal false).step.2.regs.a = 0x21 ∧
    (adding.withDecimal true).Alongside (adding.withDecimal false) ∧
    (adding.withDecimal true).step.2.regs.a = 0x72 ∧
    (adding.withDecimal false).step.2.regs.a = 0x7C := by
  intro start taking adding
  have sbc : (AddressingMode.absolute, 0xED) ∈ DataSheet.opcodes .sbc := by decide
  have adc : (AddressingMode.absolute, 0x6D) ∈ DataSheet.opcodes .adc := by decide
  obtain ⟨alongside, -, difference⟩ := taking.step_decimal.1 .absolute sbc
  obtain ⟨alongside', -, sum⟩ := adding.step_decimal.2 .absolute adc
  refine ⟨sbc, adc, alongside, difference.trans (by decide +kernel), by decide +kernel, alongside', ?_,
    by decide +kernel⟩
  exact (congrArg Prod.fst sum).trans (by decide +kernel)

end Machine
end Nmos6502
