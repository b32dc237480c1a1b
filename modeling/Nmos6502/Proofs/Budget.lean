/-
# The budget of a run

Every cycle of a run is taken off the budget once, when it is spent, and every
question that does not stop the run adds a period. So the budget can be
reckoned from where the run began, the cycles it has counted and the questions
in its journal (`Run.Balanced`), as long as the reckoning stays above the least
budget. A period is only added to a budget that is spent, so the greatest
budget is never in the way.
-/
import Nmos6502.Proofs.Course

namespace Nmos6502

/-! ### A full budget -/

namespace Machine

variable {β : Type}

theorem budget_make {settings : Settings} {bus : β} {m : Machine β} (made : make settings bus = .ok m) :
    m.budget = m.settings.period := by
  obtain ⟨_, rfl⟩ := of_make made
  rfl

theorem budget_reset [Bus β] (m : Machine β) : m.reset.budget = m.reset.settings.period := rfl

end Machine

namespace Run

variable {β : Type}

/-! ### The cycles counted -/

/-- The cycles counted are those of the journal. -/
def Tallied (r : Run β) : Prop :=
  r.cycles.count = Journal.cycles r.journal

theorem tallied_begin (m : Machine β) : (begin m).Tallied := rfl

/-- An event without cycles leaves the tally as it is. -/
theorem Tallied.note {r q : Run β} (h : r.Tallied) {e : Event} (free : e.cycles = 0)
    (same : q.cycles = r.cycles) (noted : q.journal = e :: r.journal) : q.Tallied := by
  unfold Tallied at h ⊢
  rw [same, noted, Journal.cycles, free, Nat.zero_add, h]

section

variable [Bus β]

theorem Tallied.execute {r : Run β} (h : r.Tallied) : r.execute.Tallied := by
  unfold Tallied at h ⊢
  rw [cycles_execute, journal_execute, Journal.cycles, h, Nat.add_comm]
  rfl

theorem Tallied.enter {r : Run β} (h : r.Tallied) (kind : Interrupt) : (r.enter kind).Tallied := by
  unfold Tallied at h ⊢
  rw [cycles_enter, journal_enter, Journal.cycles, h, Nat.add_comm]
  rfl

theorem Tallied.turn {r : Run β} (h : r.Tallied) : r.turn.Tallied := by
  rw [turn_eq]
  unfold wake
  split
  · exact Tallied.execute (Tallied.enter (r := r.settle) h .nmi)
  · exact h.execute

theorem Tallied.resume {r : Run β} (h : r.Tallied) (note : Answer → β → β) (answer : Answer) :
    (r.resume note answer).Tallied := by
  have fresh : (r.refresh note answer).Tallied := h.note (e := .polled answer) rfl rfl rfl
  rw [resume_eq]
  apply serve_induction
  · exact fresh
  · exact fresh.enter
  · exact fresh.note (e := .dropped (r.refresh note answer).machine.regs.pc) rfl rfl rfl

theorem tallied_invariant (note : Answer → β → β) :
    Invariant note (Tallied (β := β)) (Tallied (β := β)) :=
  .of_kept (fun _ h => h.turn) fun _ answer _ h => h.resume note answer

/-- A run counts the cycles of every instruction it executes and every entry it makes. -/
theorem tallied_follow (note : Answer → β → β) (answers : List Answer) {r : Run β} (h : r.Tallied) :
    (r.follow note answers).1.Tallied := by
  obtain ⟨p, tallied, eq⟩ := (tallied_invariant note).follow answers h
  rw [eq]
  have heard : (p.hear note .stop).Tallied := tallied.note (e := .polled .stop) rfl rfl rfl
  exact heard.note (e := .stopped p.machine.regs.pc p.cycles) rfl rfl rfl

end

/-! ### The budget left -/

/-- The budget is what the run began with, less the cycles counted, and a period for each question
that did not stop it. -/
def Balanced (start : Int) (r : Run β) : Prop :=
  r.machine.budget = start - r.cycles.count + r.machine.settings.period * Journal.refills r.journal

theorem balanced_begin (m : Machine β) : (begin m).Balanced m.budget := by
  unfold Balanced
  rw [budget_begin]
  show m.budget = m.budget - ((0 : Nat) : Int) + _ * ((0 : Nat) : Int)
  omega

variable {start : Int} {r : Run β}

/-- A period is added to a budget that is spent, and it is added whole. -/
theorem budget_refresh (note : Answer → β → β) (answer : Answer) (spent : r.machine.budget ≤ 0) :
    (r.refresh note answer).machine.budget = r.machine.budget + r.machine.settings.period := by
  have short : r.machine.settings.period ≤ longestPeriod := r.machine.accepted.2.2
  have fits : r.machine.budget + r.machine.settings.period ≤ greatestBudget := by
    unfold longestPeriod at short
    unfold greatestBudget
    omega
  exact Int.min_eq_right fits

theorem refills_refresh (note : Answer → β → β) {answer : Answer} (goes : answer ≠ .stop) :
    Journal.refills (r.refresh note answer).journal = Journal.refills r.journal + 1 := by
  show Journal.refills (.polled answer :: r.journal) = _
  rw [Journal.refills_cons, Nat.add_comm]
  cases answer with
  | stop => exact absurd rfl goes
  | proceed | irq | nmi => rfl

theorem Balanced.refresh (h : r.Balanced start) (note : Answer → β → β) {answer : Answer}
    (goes : answer ≠ .stop) (spent : r.machine.budget ≤ 0) : (r.refresh note answer).Balanced start := by
  have period : (r.refresh note answer).machine.settings = r.machine.settings := rfl
  have cycles : (r.refresh note answer).cycles = r.cycles := rfl
  unfold Balanced at h ⊢
  rw [budget_refresh note answer spent, h, refills_refresh note goes, period, cycles, Int.natCast_add, Int.mul_add]
  omega

theorem Balanced.drop (h : r.Balanced start) : r.drop.Balanced start := by
  have refills : Journal.refills r.drop.journal = Journal.refills r.journal :=
    Journal.refills_cons_none rfl _
  unfold Balanced at h ⊢
  rw [refills]
  exact h

theorem Balanced.close (h : r.Balanced start) (note : Answer → β → β) : (r.close note).Balanced start := by
  have refills : Journal.refills (r.close note).journal = Journal.refills r.journal := by
    show Journal.refills (.stopped r.machine.regs.pc r.cycles :: .polled .stop :: r.journal) = _
    rw [Journal.refills_cons_none rfl, Journal.refills_cons]
    exact Nat.zero_add _
  unfold Balanced at h ⊢
  rw [refills]
  exact h

theorem Balanced.le_budget (h : r.Balanced start) : start - r.cycles.count ≤ r.machine.budget := by
  have added : (0 : Int) ≤ r.machine.settings.period * Journal.refills r.journal :=
    Int.mul_nonneg (Int.natCast_nonneg _) (Int.natCast_nonneg _)
  unfold Balanced at h
  omega

variable [Bus β]

theorem Balanced.execute (h : r.Balanced start)
    (room : leastBudget ≤ r.machine.budget - r.machine.step.1.cycles) : r.execute.Balanced start := by
  have spent : r.execute.machine.budget = r.machine.budget - r.machine.step.1.cycles :=
    Int.max_eq_right room
  have refills : Journal.refills r.execute.journal = Journal.refills r.journal :=
    Journal.refills_cons_none rfl _
  have period : r.execute.machine.settings = r.machine.settings := rfl
  unfold Balanced at h ⊢
  rw [spent, refills, period, cycles_execute, h]
  omega

theorem Balanced.enter (h : r.Balanced start) (kind : Interrupt)
    (room : leastBudget ≤ r.machine.budget - interruptCycles) : (r.enter kind).Balanced start := by
  have spent : (r.enter kind).machine.budget = r.machine.budget - interruptCycles :=
    Int.max_eq_right room
  have refills : Journal.refills (r.enter kind).journal = Journal.refills r.journal :=
    Journal.refills_cons_none rfl _
  have period : (r.enter kind).machine.settings = r.machine.settings := rfl
  unfold Balanced at h ⊢
  rw [spent, refills, period, cycles_enter, h]
  omega

/-! ### While there is room -/

/-- The budget is balanced if what the run began with, less the cycles counted, is no less than the
least budget. -/
def Accounted (start : Int) (r : Run β) : Prop :=
  leastBudget ≤ start - r.cycles.count → r.Balanced start

theorem Accounted.execute (h : r.Accounted start) : r.execute.Accounted start := by
  intro room
  rw [cycles_execute] at room
  have balanced := h (by omega)
  have := balanced.le_budget
  exact balanced.execute (by omega)

theorem Accounted.enter (h : r.Accounted start) (kind : Interrupt) : (r.enter kind).Accounted start := by
  intro room
  rw [cycles_enter] at room
  have balanced := h (by omega)
  have := balanced.le_budget
  exact balanced.enter kind (by omega)

theorem Accounted.turn (h : r.Accounted start) : r.turn.Accounted start := by
  rw [turn_eq]
  unfold wake
  split
  · exact Accounted.execute (Accounted.enter (r := r.settle) h .nmi)
  · exact h.execute

theorem Accounted.resume (h : r.Accounted start) (spent : r.machine.budget ≤ 0)
    (note : Answer → β → β) {answer : Answer} (goes : answer ≠ .stop) :
    (r.resume note answer).Accounted start := by
  have fresh : (r.refresh note answer).Accounted start := fun room => (h room).refresh note goes spent
  rw [resume_eq]
  apply serve_induction
  · exact fresh
  · exact fresh.enter
  · exact fun room => (fresh room).drop

theorem accounted_invariant (start : Int) (note : Answer → β → β) :
    Invariant note (Accounted (β := β) start) fun r => r.Accounted start ∧ r.machine.budget ≤ 0 where
  turn _ h := ⟨fun _ => h.turn, fun spent => ⟨h.turn, spent⟩⟩
  resume _ _ goes h := h.1.resume h.2 note goes

/-- While there is room below, the budget at the end of a run is balanced. -/
theorem accounted_follow (note : Answer → β → β) (answers : List Answer) (h : r.Accounted start) :
    (r.follow note answers).1.Accounted start := by
  obtain ⟨p, ⟨accounted, -⟩, eq⟩ := (accounted_invariant start note).follow answers h
  rw [eq]
  exact fun room => (accounted room).close note

end Run
end Nmos6502
