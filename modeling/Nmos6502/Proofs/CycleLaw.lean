/-
# The cost of a step

A step costs the base cycles of its opcode, and beyond them what the data sheet
adds. An instruction that only reads its operand, in a mode that adds an index
to a whole address, pays a cycle if the low byte of that address plus the index
has a carry, and it makes no difference if the sum wraps past $FFFF. A branch
that is taken pays a cycle, and one more if it leads to another page than that
of the next instruction. Nothing else costs more than its base cycles.

The low byte of the address is the one that the step has read itself, after the
opcode or on page zero; the bus may answer otherwise when it is asked again.
-/
import Nmos6502.Proofs.Documented
import Nmos6502.Proofs.Seen
import Nmos6502.Proofs.Words
import Nmos6502.Rom

namespace Nmos6502

/-! ### By the data sheet -/

namespace DataSheet

/-- The cycle in which the carry of an indexed address reaches its high byte. -/
def carryCycle (low index : Byte) : Nat :=
  if 256 ≤ low.toNat + index.toNat then 1 else 0

/-- The cycles of a branch that is taken, told from the address of the next instruction. -/
def branchCycles (next : Word) (distance : Byte) : Nat :=
  if next.high = (next + distance.signExtend 16).high then 1 else 2

/-- The cycles of an instruction beyond its base cycles. The registers are those before it is fetched;
`operand` is the byte after the opcode, `pointed` the byte on page zero that it points to. -/
def extra (i : Instruction) (r : Registers) (operand pointed : Byte) : Nat :=
  match operation i.mnemonic with
  | .read _ =>
    match i.mode with
    | .absoluteX => carryCycle operand r.x
    | .absoluteY => carryCycle operand r.y
    | .indirectIndexed => carryCycle pointed r.y
    | _ => 0
  | .branch taken => if taken r.p then branchCycles (r.pc + 2) operand else 0
  | _ => 0

/-- An index that is added to an address leads to another page if the low byte has a carry. -/
theorem carryCycle_eq (low high index : Byte) :
    (!Word.samePage (Word.ofBytes low high) (Word.ofBytes low high + index.setWidth 16)).toNat =
      carryCycle low index := by
  rw [Word.samePage_add, ← Word.toNat_low, Word.low_ofBytes]
  unfold carryCycle
  by_cases carry : 256 ≤ low.toNat + index.toNat
  · rw [decide_eq_true carry, if_pos carry]
    rfl
  · rw [decide_eq_false carry, if_neg carry]
    rfl

theorem mode_of_branch {opcode : Byte} {taken : Status → Bool}
    (branch : (Instruction.decode opcode).mnemonic.operation = .branch taken) :
    (Instruction.decode opcode).mode = .relative :=
  eq_of_beq (takes_decode branch nofun)

end DataSheet

open DataSheet

/-! ### By the processor -/

variable {β : Type} [Bus β]

/-- An operand that is read costs a cycle more if an index has led to another page. -/
theorem on_indexed_crossed (base : Word) (index : Byte) (bus : β) :
    ((indexed base index .read).on bus).1.2 = !Word.samePage base (base + index.setWidth 16) := by
  unfold indexed
  dsimp only
  generalize Word.samePage base (base + index.setWidth 16) = same
  cases same with
  | true => rfl
  | false => rfl

namespace Registers

theorem on_readOperand_extra (r : Registers) (mode : AddressingMode)
    (apply : Byte → Registers → Registers) (bus : β) :
    ((r.readOperand mode apply).on bus).1.2 = ((r.locate mode .read).on bus).1.crossed.toNat := by
  unfold readOperand
  simp only [Dialogue.on_bind, Dialogue.pure_eq, Dialogue.on_done]

theorem extra_of_read (r : Registers) (mode : AddressingMode) (apply : Byte → Registers → Registers)
    (bus : β) :
    let operand := Bus.read bus r.pc
    let pointed := Bus.read operand.2 (zeroPage operand.1)
    ((r.readOperand mode apply).on bus).1.2 =
      match mode with
      | .absoluteX => carryCycle operand.1 r.x
      | .absoluteY => carryCycle operand.1 r.y
      | .indirectIndexed => carryCycle pointed.1 r.y
      | _ => 0 := by
  intro operand pointed
  have most := (r.readOperand_extra mode apply).on bus
  cases mode with
  | absoluteX | absoluteY | indirectIndexed =>
    rw [on_readOperand_extra]
    unfold locate
    simp only [Dialogue.on_bind, Dialogue.pure_eq, Dialogue.on_done, on_indexed_crossed]
    exact carryCycle_eq _ _ _
  | _ => exact Nat.le_zero.mp most

theorem extra_of_branch (r : Registers) (taken : Bool) (bus : β) :
    ((r.branch .relative taken).on bus).1.2 =
      if taken then branchCycles (r.pc + 1) (Bus.read bus r.pc).1 else 0 := by
  cases taken with
  | false => rfl
  | true =>
    show (if Word.samePage (r.pc + 1) (r.pc + 1 + (Bus.read bus r.pc).1.signExtend 16) then 1 else 2) =
      branchCycles (r.pc + 1) (Bus.read bus r.pc).1
    unfold branchCycles Word.samePage
    simp only [beq_iff_eq]

end Registers

/-- What an instruction costs, its opcode having been fetched. -/
theorem Instruction.extra_perform (opcode : Byte) (r : Registers) (bus : β) :
    let operand := Bus.read bus (r.pc + 1)
    let pointed := Bus.read operand.2 (zeroPage operand.1)
    (((decode opcode).perform { r with pc := r.pc + 1 }).on bus).1.2 =
      extra (decode opcode) r operand.1 pointed.1 := by
  intro operand pointed
  have most := ((decode opcode).perform_extra { r with pc := r.pc + 1 }).on bus
  unfold mostExtra at most
  unfold extra
  rw [DataSheet.operation_eq]
  -- In the other families the bound on what an instruction may cost is already none.
  cases family : (decode opcode).mnemonic.operation with
  | read apply =>
    unfold perform
    rw [family]
    exact Registers.extra_of_read { r with pc := r.pc + 1 } _ apply bus
  | branch taken =>
    unfold perform
    rw [family, mode_of_branch family]
    have next : r.pc + 1 + 1 = r.pc + 2 := BitVec.add_assoc r.pc 1 1
    have cost := Registers.extra_of_branch { r with pc := r.pc + 1 } (taken r.p) bus
    rw [next] at cost
    exact cost
  | store | modify | internal | push | pull | jump | call | comeBack | endInterrupt | breakIn
  | undocumented =>
    rw [family] at most
    exact Nat.le_zero.mp most

/-- **The cost of a step**, from any registers on any bus, whatever the opcode. It is the base cycles of
the opcode and what the data sheet adds: 1 for an operand that is read in one of the modes `$nnnn,X`,
`$nnnn,Y` and `($nn),Y`, if the low byte of the address that was read plus the index is 256 or more; 1 for
a branch that is taken within the page of the next instruction and 2 for one that leaves it; and nothing
for stores, read-modify-write instructions, all other modes, branches that are not taken and undocumented
opcodes. So a step takes from 2 to 8 cycles. -/
theorem Machine.step_cost (m : Machine β) :
    let opcode := Bus.read m.bus m.regs.pc
    let operand := Bus.read opcode.2 (m.regs.pc + 1)
    let pointed := Bus.read operand.2 (zeroPage operand.1)
    m.step.1.cycles =
      baseCycles opcode.1 + extra (Instruction.decode opcode.1) m.regs operand.1 pointed.1 ∧
    2 ≤ m.step.1.cycles ∧ m.step.1.cycles ≤ 8 := by
  intro opcode operand pointed
  refine ⟨?_, m.two_le_cycles_step, m.cycles_step_le⟩
  have cost := Instruction.extra_perform opcode.1 m.regs opcode.2
  rw [m.step_eq]
  exact congrArg (baseCycles opcode.1 + ·) cost

/-- LDA $FFFF,X with X = 1 wraps to $0000 and pays for it; an undocumented opcode in the same mode does
not, and neither does a store. -/
example :
    let cycles (opcode : Byte) : Nat :=
      (Machine.step
        { settings := ⟨⟨1000000⟩, 1⟩, accepted := by decide
          regs := { Registers.powerOn with x := 1 }
          bus := Rom.mk fun address => if address = 0 then opcode else 0xFF
          phase := .running, budget := 1 }).1.cycles
    cycles 0xBD = baseCycles 0xBD + 1 ∧ cycles 0x1C = baseCycles 0x1C ∧ cycles 0x9D = baseCycles 0x9D := by
  decide +kernel

end Nmos6502
