/-
# What instructions leave of the flags

An instruction changes flags in one place: the function that makes its
operation what it is. All that goes on around it, finding the operand, reading
and writing, pushing and pulling, leaves the flags alone. So a property of the
flags that this function keeps is kept by the instruction, on every bus
(`Operation.Keeps`, `Machine.keeps_step`). The exceptions are RTI, which takes
the flags from the stack, and BRK, which sets I as every entry into a handler
does.

A property that all operations keep lasts: no entry and no run takes it away
either (`Run.keeps_follow`).
-/
import Nmos6502.Proofs.Agreement
import Nmos6502.Proofs.Course
import Nmos6502.Proofs.Seen

namespace Nmos6502

/-- The function that makes an operation what it is leaves flags with a property if it finds such. -/
def Operation.Keeps (K : Status → Prop) : Operation → Prop
  | .read apply | .pull apply => ∀ v r, K r.p → K (apply v r).p
  | .modify apply => ∀ v p, K p → K (apply v p).2
  | .internal apply => ∀ r, K r.p → K (apply r).p
  | .endInterrupt => ∀ v, K (Status.pulled v)
  | .breakIn => ∀ p, K p → K { p with interruptDisable := true }
  | _ => True

/-! ### Instructions and entries -/

section

variable {K : Status → Prop}

theorem Instruction.keeps_perform {i : Instruction} (keeps : i.mnemonic.operation.Keeps K)
    {r : Registers} (before : K r.p) : (i.perform r).Yields fun out => K out.1.p := by
  -- The instruction agrees with itself, in results with the property.
  have relates : i.mnemonic.operation.Relates (fun after _ => K after.p) r r.p := by
    generalize i.mnemonic.operation = operation at keeps
    cases operation with
    | read apply => exact fun v pc => keeps v { r with pc := pc } before
    | modify apply => exact ⟨fun _ => rfl, fun v _ _ => keeps v r.p before⟩
    | internal apply => exact keeps r before
    | pull apply => exact fun v s => keeps v { r with s := s } before
    | endInterrupt => exact fun v _ _ => keeps v
    | breakIn => exact ⟨rfl, fun _ _ => keeps r.p before⟩
    | store | push | branch => exact rfl
    | jump | call | comeBack | undocumented => exact trivial
  have itself := i.perform_agree r r.p (fun _ _ => before) relates
  exact itself.yields fun _ _ related => related.1

variable {β : Type} [Bus β]

namespace Machine

variable {m : Machine β}

/-- An instruction keeps what its operation keeps. -/
theorem keeps_step (keeps : m.step.1.instruction.mnemonic.operation.Keeps K) (before : K m.regs.p) :
    K m.step.2.regs.p := by
  rw [m.step_eq] at keeps ⊢
  have performed := Instruction.keeps_perform keeps (r := { m.regs with pc := m.regs.pc + 1 }) before
  exact performed.on (Bus.read m.bus m.regs.pc).2

/-- An entry sets I and leaves the other flags as they are. -/
theorem flags_enter (m : Machine β) (kind : Interrupt) :
    (m.enter kind).regs.p = { m.regs.p with interruptDisable := true } := by
  have entered : (m.regs.enter kind).Yields fun after =>
      after.p = { m.regs.p with interruptDisable := true } := fun _ _ => rfl
  rw [m.enter_eq]
  exact entered.on m.bus

theorem flags_reset (m : Machine β) : m.reset.regs.p = Status.powerOn := by
  have entered : Registers.reset.Yields fun after => after.p = Status.powerOn := fun _ _ => rfl
  have flags := entered.on m.bus
  unfold reset converse
  rw [Dialogue.on_map]
  exact flags

end Machine

/-! ### What lasts -/

variable (lasts : ∀ mnemonic : Mnemonic, mnemonic.operation.Keeps K)
include lasts

theorem Machine.keeps_enter {m : Machine β} (before : K m.regs.p) (kind : Interrupt) :
    K (m.enter kind).regs.p := by
  rw [m.flags_enter kind]
  exact lasts .brk m.regs.p before

namespace Run

theorem keeps_turn {r : Run β} (before : K r.machine.regs.p) : K r.turn.machine.regs.p := by
  have woken : K r.wake.machine.regs.p := by
    unfold wake
    split
    · exact Machine.keeps_enter lasts (m := r.settle.machine) before .nmi
    · exact before
  rw [r.turn_eq]
  exact Machine.keeps_step (lasts _) woken

theorem keeps_resume (note : Answer → β → β) {r : Run β} (before : K r.machine.regs.p)
    (answer : Answer) : K (r.resume note answer).machine.regs.p := by
  rw [resume_eq]
  apply serve_induction (P := fun q : Run β => K q.machine.regs.p)
  · exact before
  · exact fun kind => Machine.keeps_enter lasts (m := (r.refresh note answer).machine) before kind
  · exact before

/-- What all operations keep is there whenever the host of a run is asked. -/
theorem keeps_invariant (note : Answer → β → β) :
    Invariant note (fun r => K r.machine.regs.p) fun r => K r.machine.regs.p :=
  .of_kept (fun _ before => keeps_turn lasts before) fun _ answer _ before =>
    keeps_resume lasts note before answer

theorem keeps_follow (note : Answer → β → β) (answers : List Answer) {r : Run β}
    (before : K r.machine.regs.p) : K (r.follow note answers).1.machine.regs.p := by
  obtain ⟨p, still, eq⟩ := (keeps_invariant lasts note).follow answers before
  rw [eq]
  exact still

end Run
end
end Nmos6502
