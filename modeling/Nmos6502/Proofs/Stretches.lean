/-
# How long the host waits

Whatever the period, the host is asked after an instruction and not after too
many: at most half a period, rounded up, as every instruction takes two cycles
or more, and one if the budget is spent before the first. The budget never
exceeds the period and never leaves its range at the bottom, so a short period
or many runs that overshoot do no harm.

Twice the instructions since the last question and the budget left make a
period at most. This is kept by every turn that leaves budget and restored at
every question (`Run.Metered`); an entry into a handler only takes from the
budget.
-/
import Nmos6502.Proofs.Budget

namespace Nmos6502

/-- The most instructions that are executed without asking the host. -/
def longestStretch (period : Nat) : Nat :=
  max 1 ((period + 1) / 2)

/-! ### Stretches of a journal -/

namespace Journal

/-- The instructions executed since the host was asked last. The journal is told newest first. -/
def sincePoll : List Event → Nat
  | [] => 0
  | .polled _ :: _ => 0
  | .executed _ :: earlier => sincePoll earlier + 1
  | _ :: earlier => sincePoll earlier

/-- Before every question an instruction has been executed since the one before, and no more than so
many. The journal is told newest first. -/
def Stretched (most : Nat) (events : List Event) : Prop :=
  ∀ answer earlier, .polled answer :: earlier <:+ events →
    1 ≤ sincePoll earlier ∧ sincePoll earlier ≤ most

variable {most : Nat} {events : List Event}

theorem stretched_nil : Stretched most [] := by
  intro answer earlier suffix
  nomatch List.suffix_nil.mp suffix

theorem Stretched.note (h : Stretched most events) {e : Event} (notAsked : e.answer? = none) :
    Stretched most (e :: events) := by
  intro answer earlier suffix
  refine h answer earlier (suffix_of_suffix_cons suffix ?_)
  rintro rfl
  nomatch notAsked

theorem Stretched.polled (h : Stretched most events) (executed : 1 ≤ sincePoll events)
    (few : sincePoll events ≤ most) (answer : Answer) : Stretched most (.polled answer :: events) := by
  intro answer' earlier suffix
  rcases List.suffix_cons_iff.mp suffix with same | suffix
  · obtain ⟨-, rfl⟩ := List.cons.inj same
    exact ⟨executed, few⟩
  · exact h answer' earlier suffix

end Journal

/-! ### The range of the budget -/

/-- The budget is no more than a period, and no less than the least. -/
structure Machine.Within {β : Type} (m : Machine β) : Prop where
  low : leastBudget ≤ m.budget
  high : m.budget ≤ m.settings.period

/-! ### Along a run -/

namespace Run

open Journal (sincePoll Stretched)

variable {β : Type} {n : Nat} {r : Run β}

/-- At the head of a turn, with a period of `n`. Each instruction since the last question has taken
two cycles of the budget, and only the first of them can have begun without any. -/
structure Metered (n : Nat) (r : Run β) : Prop where
  period : r.machine.settings.period = n
  low : leastBudget ≤ r.machine.budget
  pace : 2 * (sincePoll r.journal : Int) + r.machine.budget ≤ n
  left : 0 < r.machine.budget ∨ sincePoll r.journal = 0
  stretched : Stretched (longestStretch n) r.journal

/-- When the host is asked, with a period of `n`. -/
structure Exhausted (n : Nat) (r : Run β) : Prop where
  period : r.machine.settings.period = n
  low : leastBudget ≤ r.machine.budget
  spent : r.machine.budget ≤ 0
  executed : 1 ≤ sincePoll r.journal
  few : sincePoll r.journal ≤ longestStretch n
  stretched : Stretched (longestStretch n) r.journal

theorem metered_begin {m : Machine β} (within : m.Within) : Metered m.settings.period (begin m) := by
  have none : sincePoll (begin m).journal = 0 := rfl
  have high := within.high
  refine ⟨congrArg Settings.period (settings_begin m), ?_, ?_, Or.inr none, Journal.stretched_nil⟩
  · rw [budget_begin]
    exact within.low
  · rw [budget_begin, none]
    omega

variable [Bus β]

theorem budget_enter_le_of_low (low : leastBudget ≤ r.machine.budget) (kind : Interrupt) :
    (r.enter kind).machine.budget ≤ r.machine.budget := by
  have taken : r.machine.budget - interruptCycles ≤ r.machine.budget := by
    unfold interruptCycles
    omega
  exact Int.max_le.mpr ⟨low, taken⟩

/-- To serve an NMI that waits takes from the budget and is no instruction. -/
theorem Metered.wake (h : Metered n r) :
    r.wake.machine.settings.period = n ∧ r.wake.machine.budget ≤ r.machine.budget ∧
    sincePoll r.wake.journal = sincePoll r.journal ∧
    Stretched (longestStretch n) r.wake.journal := by
  unfold Run.wake
  split
  · have less := budget_enter_le_of_low (r := r.settle) h.low .nmi
    exact ⟨h.period, less, rfl, h.stretched.note rfl⟩
  · exact ⟨h.period, Int.le_refl _, rfl, h.stretched⟩

theorem sincePoll_turn (r : Run β) : sincePoll r.turn.journal = sincePoll r.journal + 1 := by
  have woken : sincePoll r.wake.journal = sincePoll r.journal := by
    unfold Run.wake
    split
    · rfl
    · rfl
  rw [turn_eq, journal_execute, ← woken]
  rfl

/-- An instruction that leaves budget has taken two cycles of it. One that leaves none came after so
many others that had taken two each, or was the first. -/
theorem Metered.turn (h : Metered n r) :
    (0 < r.turn.machine.budget → Metered n r.turn) ∧
    (r.turn.machine.budget ≤ 0 → Exhausted n r.turn) := by
  obtain ⟨period, less, -, stretched⟩ := h.wake
  -- The first instruction of a stretch may find any budget, each further one what two cycles for each of those
  -- before it have left of a period; so there are at most half as many of them as cycles in a period.
  have pace := h.pace
  have since := r.sincePoll_turn
  have low : leastBudget ≤ r.turn.machine.budget := by
    rw [turn_eq]
    exact Int.le_max_left _ _
  have turned : Stretched (longestStretch n) r.turn.journal := by
    rw [turn_eq]
    exact stretched.note rfl
  have period' : r.turn.machine.settings.period = n := by
    rw [turn_eq]
    exact period
  refine ⟨fun more => ⟨period', low, ?_, Or.inl more, turned⟩, fun spent => ⟨period', low, spent, ?_, ?_, turned⟩⟩
  · have two := r.wake.machine.two_le_cycles_step
    have taken : r.turn.machine.budget = r.wake.machine.budget - r.wake.machine.step.1.cycles := by
      rw [turn_eq] at more ⊢
      exact Machine.budget_spend _ _ more
    omega
  · omega
  · unfold longestStretch
    rcases h.left with left | first
    · omega
    · omega

/-- A new period brings a budget that was spent to a period at most, and an entry takes from it. -/
theorem Exhausted.resume (h : Exhausted n r) (note : Answer → β → β) (answer : Answer) :
    Metered n (r.resume note answer) := by
  have low := h.low
  have spent := h.spent
  have asked : Stretched (longestStretch n) (r.refresh note answer).journal :=
    h.stretched.polled h.executed h.few answer
  have none : sincePoll (r.refresh note answer).journal = 0 := rfl
  have budget : (r.refresh note answer).machine.budget = r.machine.budget + n := by
    rw [budget_refresh note answer spent, h.period]
  rw [resume_eq]
  apply serve_induction
  · exact ⟨h.period, by omega, by omega, Or.inr none, asked⟩
  · intro kind
    have least : leastBudget ≤ ((r.refresh note answer).enter kind).machine.budget :=
      Int.le_max_left _ _
    have less := budget_enter_le_of_low (r := r.refresh note answer) (by omega) kind
    have none' : sincePoll ((r.refresh note answer).enter kind).journal = 0 := rfl
    exact ⟨h.period, least, by omega, Or.inr none', asked.note rfl⟩
  · have none' : sincePoll (r.refresh note answer).drop.journal = 0 := rfl
    have same : (r.refresh note answer).drop.machine.budget = (r.refresh note answer).machine.budget := rfl
    exact ⟨h.period, by omega, by omega, Or.inr none', asked.note rfl⟩

theorem metered_invariant (n : Nat) (note : Answer → β → β) :
    Invariant note (Metered (β := β) n) (Exhausted (β := β) n) where
  turn _ h := h.turn
  resume _ answer _ h := h.resume note answer

end Run
end Nmos6502
