/-
# Questions keep their pace

With a period of at least fifteen cycles the host is asked once a period and
the questions do not drift: the `k`-th comes at the first end of an instruction
at which the run has taken `k` periods, and at most seven cycles late, however
many interrupts were served on the way.

An instruction takes at most eight cycles, so a budget that is not spent before
it is at most seven below zero after it. A new period of fifteen covers these
seven and the seven of an interrupt entry, and leaves one cycle: the entry
alone never spends the budget, and so the next question, too, comes after an
instruction. With fourteen this fails.
-/
import Nmos6502.Proofs.Budget
import Nmos6502.Proofs.Cost
import Nmos6502.Rom

namespace Nmos6502

/-- The cycles that had gone by at the end of each instruction, newest first. -/
def Journal.totals : List Event → List Nat
  | [] => []
  | .executed what :: earlier => Journal.cycles (.executed what :: earlier) :: totals earlier
  | _ :: earlier => totals earlier

namespace Run

variable {β : Type}

/-- What holds all along a run that began with a full budget of `n` cycles. -/
structure Kept (n : Nat) (r : Run β) : Prop where
  period : r.machine.settings.period = n
  tallied : r.Tallied
  balanced : r.Balanced n

/-- At the head of a turn: there is budget left, enough to serve an NMI that waits, and no
instruction so far ended with the period over. -/
structure Paced (n : Nat) (r : Run β) : Prop extends Kept n r where
  left : 1 ≤ r.machine.budget
  roomToWake : r.machine.phase = .pending .nmi → 8 ≤ r.machine.budget
  early : ∀ total ∈ Journal.totals r.journal, total < (Journal.refills r.journal + 1) * n

/-- When the host is asked: the budget was spent by the last instruction and no earlier one, and is
overshot by seven cycles at most. -/
structure Prompt (n : Nat) (r : Run β) : Prop extends Kept n r where
  low : -7 ≤ r.machine.budget
  spent : r.machine.budget ≤ 0
  first : ∃ what before, r.journal = .executed what :: before ∧
    ∀ total ∈ Journal.totals before, total < (Journal.refills r.journal + 1) * n

theorem Kept.cycles_eq {n : Nat} {r : Run β} (h : Kept n r) :
    (r.cycles.count : Int) = ((Journal.refills r.journal + 1) * n : Nat) - r.machine.budget := by
  have balanced := h.balanced
  unfold Balanced at balanced
  rw [h.period, Int.mul_comm] at balanced
  rw [Nat.add_mul, Nat.one_mul]
  omega

/-- When the host is asked, the run has taken its periods and at most seven cycles more. -/
theorem Prompt.cycles_le {n : Nat} {r : Run β} (h : Prompt n r) :
    (Journal.refills r.journal + 1) * n ≤ r.cycles.count ∧
    r.cycles.count ≤ (Journal.refills r.journal + 1) * n + 7 := by
  have cycles := h.cycles_eq
  have low := h.low
  have spent := h.spent
  omega

theorem paced_begin (m : Machine β) (long : 15 ≤ m.settings.period)
    (full : m.budget = m.settings.period) : Paced m.settings.period (begin m) := by
  have balanced := balanced_begin m
  rw [full] at balanced
  refine ⟨⟨congrArg Settings.period (settings_begin m), tallied_begin m, balanced⟩, ?_, fun _ => ?_, nofun⟩
  · rw [budget_begin]
    omega
  · rw [budget_begin]
    omega

variable [Bus β] {n : Nat} {r : Run β}

/-! ### A turn -/

/-- Serving an NMI that waits does not spend the budget. -/
theorem Paced.wake (h : Paced n r) :
    Kept n r.wake ∧ 1 ≤ r.wake.machine.budget ∧
    Journal.refills r.wake.journal = Journal.refills r.journal ∧
    Journal.totals r.wake.journal = Journal.totals r.journal := by
  unfold Run.wake
  split
  · next pending =>
    have enough := h.roomToWake pending
    have room : leastBudget ≤ r.machine.budget - interruptCycles := by
      unfold leastBudget interruptCycles
      omega
    have budget : (r.settle.enter .nmi).machine.budget = r.machine.budget - interruptCycles :=
      Int.max_eq_right room
    refine ⟨⟨h.period, Tallied.enter (r := r.settle) h.tallied .nmi,
      Balanced.enter (r := r.settle) h.balanced .nmi room⟩, ?_, Journal.refills_cons_none rfl _, rfl⟩
    rw [budget]
    unfold interruptCycles
    omega
  · exact ⟨h.toKept, h.left, rfl, rfl⟩

/-- A turn takes at most eight cycles off a budget that was not spent. -/
theorem Paced.turn (h : Paced n r) :
    (0 < r.turn.machine.budget → Paced n r.turn) ∧ (r.turn.machine.budget ≤ 0 → Prompt n r.turn) := by
  obtain ⟨kept, left, refills, totals⟩ := h.wake
  -- There was a cycle left and an instruction takes eight at most, so the overshoot is seven at most.
  have cost := r.wake.machine.cycles_step_le
  have room : leastBudget ≤ r.wake.machine.budget - r.wake.machine.step.1.cycles := by
    unfold leastBudget
    omega
  have budget : r.turn.machine.budget = r.wake.machine.budget - r.wake.machine.step.1.cycles := by
    rw [turn_eq]
    exact Int.max_eq_right room
  have turned : Kept n r.turn := by
    rw [turn_eq]
    exact ⟨kept.period, kept.tallied.execute, kept.balanced.execute room⟩
  have journal : r.turn.journal = .executed r.wake.machine.step.1 :: r.wake.journal := by
    rw [turn_eq, journal_execute]
  have same : Journal.refills r.turn.journal = Journal.refills r.journal := by
    rw [journal, Journal.refills_cons_none rfl, refills]
  have before : ∀ total ∈ Journal.totals r.wake.journal,
      total < (Journal.refills r.turn.journal + 1) * n := by
    rw [same, totals]
    exact h.early
  refine ⟨fun more => ?_, fun spent => ?_⟩
  · have awake : r.turn.machine.phase ≠ .pending .nmi := r.phase_turn ▸ r.phase_wake
    refine { turned with left := more, roomToWake := fun pending => absurd pending awake, early := ?_ }
    intro total member
    rw [journal] at member
    rcases List.mem_cons.mp member with rfl | member
    · have cycles := turned.cycles_eq
      have tallied := turned.tallied
      unfold Tallied at tallied
      rw [← journal, ← tallied]
      omega
    · exact before total member
  · have low : -7 ≤ r.turn.machine.budget := by omega
    exact { turned with low := low, spent := spent, first := ⟨_, _, journal, before⟩ }

/-! ### A question -/

/-- A new period of at least fifteen cycles covers what was overshot and an entry. -/
theorem Prompt.resume (h : Prompt n r) (long : 15 ≤ n) (note : Answer → β → β) {answer : Answer}
    (goes : answer ≠ .stop) : Paced n (r.resume note answer) := by
  have low := h.low
  have spent := h.spent
  have budget : (r.refresh note answer).machine.budget = r.machine.budget + n := by
    rw [budget_refresh note answer spent, h.period]
  have room : leastBudget ≤ (r.refresh note answer).machine.budget - interruptCycles := by
    unfold leastBudget interruptCycles
    omega
  have fresh : Kept n (r.refresh note answer) :=
    ⟨h.period, h.tallied.note (e := .polled answer) rfl rfl rfl, h.balanced.refresh note goes spent⟩
  -- the instruction that spent the budget is in time for this question, and one period early for the next
  have early : ∀ total ∈ Journal.totals (r.refresh note answer).journal,
      total < (Journal.refills (r.refresh note answer).journal + 1) * n := by
    intro total member
    obtain ⟨what, before, journal, earlier⟩ := h.first
    have cycles := h.cycles_le
    have tallied := h.tallied
    unfold Tallied at tallied
    rw [journal] at tallied
    have more : (Journal.refills (r.refresh note answer).journal + 1) * n =
        (Journal.refills r.journal + 1) * n + n := by
      rw [refills_refresh note goes, Nat.add_mul (Journal.refills r.journal + 1), Nat.one_mul]
    change total ∈ Journal.totals r.journal at member
    rw [journal] at member
    rw [more]
    rcases List.mem_cons.mp member with rfl | member
    · omega
    · have := earlier total member
      omega
  rw [resume_eq]
  apply serve_induction
  · exact { fresh with left := by omega, roomToWake := nofun, early := early }
  · intro kind
    have entered : ((r.refresh note answer).enter kind).machine.budget =
        (r.refresh note answer).machine.budget - interruptCycles := Int.max_eq_right room
    refine ⟨⟨h.period, fresh.tallied.enter kind, fresh.balanced.enter kind room⟩, ?_, nofun, ?_⟩
    · rw [entered]
      unfold interruptCycles
      omega
    · rw [journal_enter, Journal.refills_cons_none rfl]
      exact early
  · refine ⟨⟨h.period, fresh.tallied.note (e := .dropped _) rfl rfl rfl, fresh.balanced.drop⟩, ?_, nofun, ?_⟩
    · show 1 ≤ (r.refresh note answer).machine.budget
      omega
    · show ∀ total ∈ Journal.totals (r.refresh note answer).journal,
        total < (Journal.refills (.dropped _ :: (r.refresh note answer).journal) + 1) * n
      rw [Journal.refills_cons_none rfl]
      exact early

theorem paced_invariant (long : 15 ≤ n) (note : Answer → β → β) :
    Invariant note (Paced (β := β) n) (Prompt (β := β) n) where
  turn _ h := h.turn
  resume _ _ goes h := h.resume long note goes

end Run

/-- **Polling does not drift.** A machine with a full budget of at least fifteen cycles runs, with a
request waiting or without. Then the `k`-th time the host is asked (counting from 0) an instruction
has just ended, the first that ends with `k + 1` periods over; the run has taken these periods and
at most seven cycles more, entries included; and the budget is between -7 and 0. -/
theorem Machine.polls_keep_pace {β : Type} [Bus β] (note : Answer → β → β) (m : Machine β)
    (answers : List Answer) (long : 15 ≤ m.settings.period) (full : m.budget = m.settings.period) :
    let asked := (Run.begin m).asked note answers
    let journal := (m.runNoting note answers).1.journal
    asked.length = (Journal.answers journal).length ∧
    ∀ k p, asked[k]? = some p →
      (.polled (answers.getD k .stop) :: p.journal <:+ journal ∧ (Journal.answers p.journal).length = k) ∧
      (∃ what before, p.journal = .executed what :: before ∧
        ∀ total ∈ Journal.totals before, total < (k + 1) * m.settings.period) ∧
      p.cycles.count = Journal.cycles p.journal ∧
      (k + 1) * m.settings.period ≤ p.cycles.count ∧
      p.cycles.count ≤ (k + 1) * m.settings.period + 7 ∧
      -7 ≤ p.machine.budget ∧ p.machine.budget ≤ 0 := by
  intro asked journal
  have count := Run.length_asked note answers (Run.begin m)
  refine ⟨by rw [Nat.add_comm] at count; exact count.symm, fun k p member => ?_⟩
  obtain ⟨answered, refills, suffix⟩ := Run.journal_asked note answers _ k p member
  have prompt := (Run.paced_invariant long note).asked answers (Run.paced_begin m long full) p
    (List.mem_of_getElem? member)
  have index : Journal.refills p.journal = k := by
    rw [refills]
    exact Nat.zero_add k
  obtain ⟨least, most⟩ := prompt.cycles_le
  have first := prompt.first
  rw [index] at least most first
  exact ⟨⟨suffix, by rw [answered]; exact Nat.zero_add k⟩, first, prompt.tallied, least, most,
    prompt.low, prompt.spent⟩

/-- The second question with a period of sixteen, instructions of eight cycles and an NMI at each
question comes seven cycles late. -/
theorem Machine.polls_keep_pace_at_sixteen :
    let m : Machine Rom :=
      { settings := ⟨⟨1000000⟩, 16⟩, accepted := by decide, regs := .powerOn
        bus := .uniform 0x03, phase := .running, budget := 16 }
    let asked := (Run.begin m).asked (fun _ bus => bus) [.nmi, .nmi]
    15 ≤ m.settings.period ∧ m.budget = m.settings.period ∧
    ∃ p, asked[1]? = some p ∧ p.cycles.count = 39 ∧
      (1 + 1) * 16 ≤ p.cycles.count ∧ p.cycles.count ≤ (1 + 1) * 16 + 7 ∧
      -7 ≤ p.machine.budget ∧ p.machine.budget ≤ 0 := by
  intro m asked
  have long : 15 ≤ m.settings.period := by decide
  have full : m.budget = m.settings.period := rfl
  have more : 1 < asked.length := by decide +kernel
  have here : asked[1]? = some asked[1] := List.getElem?_eq_getElem more
  obtain ⟨-, -, -, pace⟩ := (polls_keep_pace (fun _ bus => bus) m [.nmi, .nmi] long full).2 1 _ here
  have late : asked[1]?.map (fun p => p.cycles.count) = some 39 := by decide +kernel
  rw [here] at late
  exact ⟨long, full, asked[1], here, Option.some.inj late, pace⟩

/-- Fourteen cycles are too few: here the seventh question is eight cycles late. -/
example :
    let m : Machine Rom :=
      { settings := ⟨⟨1000000⟩, 14⟩, accepted := by decide, regs := .powerOn
        bus := .uniform 0x03, phase := .running, budget := 14 }
    (((Run.begin m).asked (fun _ bus => bus) (.replicate 6 .nmi)).map fun p => p.machine.budget) =
      [-2, -3, -4, -5, -6, -7, -8] := by
  decide +kernel

end Nmos6502
