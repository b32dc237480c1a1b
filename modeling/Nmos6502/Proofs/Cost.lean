/-
# What an instruction may cost

Beyond the base cycles of its opcode an instruction pays for a page crossing,
if it reads an operand that is indexed by a whole byte, and for a branch that
is taken. The opcodes with such an extra have base cycles to spare, so no
instruction takes more than eight cycles, on any bus and in any state.
-/
import Nmos6502.Machine
import Nmos6502.Proofs.Yields

namespace Nmos6502

/-- The mode adds an index to an address and may arrive on another page. -/
def AddressingMode.crosses : AddressingMode → Bool
  | .absoluteX | .absoluteY | .indirectIndexed => true
  | _ => false

/-- The most cycles an instruction takes beyond its base cycles. -/
def Instruction.mostExtra (i : Instruction) : Nat :=
  match i.mnemonic.operation with
  | .read _ => i.mode.crosses.toNat
  | .branch _ => 2
  | _ => 0

open Dialogue

/-- Only the modes that add an index to an address cross pages. -/
theorem Registers.locate_crossed (r : Registers) (mode : AddressingMode) (usage : Usage) :
    (r.locate mode usage).Yields fun found => found.crossed.toNat ≤ mode.crosses.toNat := by
  unfold Registers.locate
  cases mode with
  | implied | accumulator => exact Nat.le_refl 0
  | immediate | zeroPage | zeroPageX | zeroPageY | absolute | relative =>
    refine .bind_of_forall (fun _ => ?_) _
    exact Nat.le_refl 0
  | absoluteX | absoluteY =>
    refine .bind_of_forall (fun _ => .bind_of_forall (fun _ => ?_) _) _
    exact Bool.toNat_le _
  | indirect | indexedIndirect =>
    refine .bind_of_forall (fun _ => .bind_of_forall (fun _ => ?_) _) _
    exact Nat.le_refl 0
  | indirectIndexed =>
    refine .bind_of_forall (fun _ => .bind_of_forall (fun _ => .bind_of_forall (fun _ => ?_) _) _) _
    exact Bool.toNat_le _

theorem Registers.readOperand_extra (r : Registers) (mode : AddressingMode)
    (apply : Byte → Registers → Registers) :
    (r.readOperand mode apply).Yields fun out => out.2 ≤ mode.crosses.toNat := by
  unfold Registers.readOperand
  rw [yields_bind]
  refine (r.locate_crossed mode .read).mono fun found crossed => ?_
  refine .bind_of_forall (fun _ => ?_) _
  exact crossed

theorem Registers.branch_extra (r : Registers) (mode : AddressingMode) (taken : Bool) :
    (r.branch mode taken).Yields fun out => out.2 ≤ 2 := by
  unfold Registers.branch
  refine .bind_of_forall (fun found => ?_) _
  cases found.operand with
  | displacement distance =>
    cases taken with
    | false => exact Nat.zero_le 2
    | true =>
      show (if _ then 1 else 2) ≤ 2
      split <;> decide
  | _ => exact Nat.zero_le 2

/-! Stores, read-modify-write instructions and jumps have their cycles in the base cycles. -/

theorem Registers.storeOperand_extra (r : Registers) (mode : AddressingMode) (value : Byte) :
    (r.storeOperand mode value).Yields fun out => out.2 = 0 := by
  unfold Registers.storeOperand
  refine .bind_of_forall (fun found => ?_) _
  cases found.operand with
  | _ => rfl

theorem Registers.modifyOperand_extra (r : Registers) (mode : AddressingMode)
    (apply : Byte → Status → Byte × Status) :
    (r.modifyOperand mode apply).Yields fun out => out.2 = 0 := by
  unfold Registers.modifyOperand
  refine .bind_of_forall (fun found => ?_) _
  cases found.operand with
  | memory address => exact fun _ => rfl
  | _ => rfl

theorem Registers.jump_extra (r : Registers) (mode : AddressingMode) :
    (r.jump mode).Yields fun out => out.2 = 0 := by
  unfold Registers.jump
  refine .bind_of_forall (fun found => ?_) _
  cases found.operand with
  | _ => rfl

theorem Instruction.perform_extra (i : Instruction) (r : Registers) :
    (i.perform r).Yields fun out => out.2 ≤ i.mostExtra := by
  unfold Instruction.perform Instruction.mostExtra
  cases i.mnemonic.operation with
  | read apply => exact r.readOperand_extra i.mode apply
  | branch taken => exact r.branch_extra i.mode (taken r.p)
  | store source => exact (r.storeOperand_extra i.mode (source r)).mono fun _ h => Nat.le_of_eq h
  | modify apply => exact (r.modifyOperand_extra i.mode apply).mono fun _ h => Nat.le_of_eq h
  | jump => exact (r.jump_extra i.mode).mono fun _ h => Nat.le_of_eq h
  | internal apply => exact Nat.le_refl 0
  | push source | undocumented =>
    rw [yields_map]
    exact .of_forall (fun _ => Nat.le_refl 0) _
  | pull apply =>
    refine .bind_of_forall (fun _ => ?_) _
    exact Nat.le_refl 0
  | call =>
    unfold Registers.call
    refine .bind_of_forall (fun _ => .bind_of_forall (fun _ => .bind_of_forall (fun _ => ?_) _) _) _
    exact Nat.le_refl 0
  | comeBack =>
    unfold Registers.comeBack
    refine .bind_of_forall (fun _ => ?_) _
    exact Nat.le_refl 0
  | endInterrupt =>
    unfold Registers.endInterrupt
    refine .bind_of_forall (fun _ => .bind_of_forall (fun _ => ?_) _) _
    exact Nat.le_refl 0
  | breakIn =>
    unfold Registers.breakIn
    refine .bind_of_forall (fun _ => .bind_of_forall (fun _ => ?_) _) _
    exact Nat.le_refl 0

/-- The opcodes with an extra have base cycles to spare. -/
theorem baseCycles_add_mostExtra_le (opcode : Byte) :
    baseCycles opcode + (Instruction.decode opcode).mostExtra ≤ 8 := by
  revert opcode
  decide

theorem Registers.cycles_step_le (r : Registers) : r.step.Yields fun out => out.1.cycles ≤ 8 := by
  unfold Registers.step
  refine .bind_of_forall (fun fetched => ?_) _
  rw [yields_bind]
  refine (Instruction.perform_extra _ _).mono fun out extra => ?_
  have most := baseCycles_add_mostExtra_le fetched.1
  show baseCycles fetched.1 + out.2 ≤ 8
  omega

/-- **No instruction takes more than eight cycles**, on any bus. -/
theorem Machine.cycles_step_le {β : Type} [Bus β] (m : Machine β) : m.step.1.cycles ≤ 8 :=
  m.regs.cycles_step_le.on m.bus

end Nmos6502
