/-
# No cycle is lost

A session is driven by commands, in any order: registers are set, the machine
is stepped past its scheduler, requests are put down, and the machine is run
again and again. Over all of it the cycles of the runs are conserved. A run
returns the cycles of the instructions it executed and seven for each handler
it entered, and the budget is a period, less what all runs returned, plus a
period for each question the host did not answer with stop.

The budget is kept in the signed 32-bit range, so this holds as long as the
runs since construction or reset took less than 2147483648 cycles together.
-/
import Nmos6502.Proofs.Budget
import Nmos6502.Proofs.History
import Nmos6502.Rom

namespace Nmos6502

namespace Session

variable {β : Type} [Bus β] [Backed β]

/-! ### One command -/

theorem ran_run (s : Session β) : (s.perform .run).1.ran =
    cyclesOf (Journal.instructions (s.perform .run).1.events) +
      7 * (Journal.entries (s.perform .run).1.events).length := by
  obtain ⟨reply, events, -, -⟩ := s.perform_run
  have tallied := Run.tallied_follow (Traced.notePoll s.note) s.answers (Run.tallied_begin s.machine)
  unfold Report.ran
  rw [reply, events]
  simp only [Journal.instructions, Journal.entries, List.filterMap_reverse, List.length_reverse,
    cyclesOf_reverse]
  exact tallied.trans (Journal.cycles_eq _)

theorem budget_perform (s : Session β) {command : Command} (notReset : command ≠ .reset)
    (room : leastBudget ≤ s.machine.budget - (s.perform command).1.ran) :
    (s.perform command).2.machine.settings = s.machine.settings ∧
    (s.perform command).2.machine.budget = s.machine.budget - (s.perform command).1.ran +
      s.machine.settings.period * (s.perform command).1.refills := by
  by_cases isRun : command = .run
  · subst isRun
    obtain ⟨reply, events, machine, -⟩ := s.perform_run
    have settings := Run.settings_follow (Traced.notePoll s.note) s.answers (Run.begin s.machine)
    have same : (Run.begin s.machine).machine.settings = s.machine.settings := by
      unfold Run.begin
      split <;> rfl
    have accounted := Run.accounted_follow (Traced.notePoll s.note) s.answers
      (fun _ => Run.balanced_begin s.machine)
    have ran : (s.perform .run).1.ran =
        (s.machine.runNoting (Traced.notePoll s.note) s.answers).1.cycles.count := rfl
    have refills : (s.perform .run).1.refills =
        Journal.refills (s.machine.runNoting (Traced.notePoll s.note) s.answers).1.journal := by
      unfold Report.refills
      rw [events, Journal.refills_reverse]
    have balanced := accounted (ran ▸ room)
    unfold Run.Balanced at balanced
    rw [settings, same] at balanced
    refine ⟨?_, ?_⟩
    · rw [machine]
      exact settings.trans same
    · rw [machine, ran, refills]
      exact balanced
  · obtain ⟨budget, settings, notRun, refills⟩ := s.perform_aside isRun notReset
    have ran : (s.perform command).1.ran = 0 := by
      unfold Report.ran
      split
      · next total reply => exact absurd reply (notRun total)
      · rfl
    refine ⟨settings, ?_⟩
    rw [budget, ran, refills]
    show _ = _ - ((0 : Nat) : Int) + _ * ((0 : Nat) : Int)
    omega

/-! ### All commands -/

/-- The budget after any commands, when the cycles taken before leave room for theirs. -/
theorem budget_performAll (commands : List Command) : ∀ (s : Session β) (before : Nat),
    .reset ∉ commands → 1 - (before : Int) ≤ s.machine.budget →
    before + Report.ranAll (s.performAll commands).1 < 2147483648 →
    (s.performAll commands).2.machine.budget = s.machine.budget -
      Report.ranAll (s.performAll commands).1 +
      s.machine.settings.period * Report.refillsAll (s.performAll commands).1 := by
  induction commands with
  | nil =>
    intro s before _ _ _
    show s.machine.budget = _ - ((0 : Nat) : Int) + _ * ((0 : Nat) : Int)
    omega
  | cons command rest ih =>
    intro s before noReset low few
    rw [List.mem_cons, not_or] at noReset
    -- the cycles of this command move from those to come to those taken before
    have few' : before + ((s.perform command).1.ran +
        Report.ranAll ((s.perform command).2.performAll rest).1) < 2147483648 := few
    have room : leastBudget ≤ s.machine.budget - (s.perform command).1.ran := by
      unfold leastBudget
      omega
    obtain ⟨settings, budget⟩ := s.budget_perform (Ne.symm noReset.1) room
    have added : (0 : Int) ≤ s.machine.settings.period * (s.perform command).1.refills :=
      Int.mul_nonneg (Int.natCast_nonneg _) (Int.natCast_nonneg _)
    have after := ih (s.perform command).2 (before + (s.perform command).1.ran) noReset.2
      (by omega) (by omega)
    rw [settings, budget] at after
    show ((s.perform command).2.performAll rest).2.machine.budget = s.machine.budget -
      (((s.perform command).1.ran + Report.ranAll ((s.perform command).2.performAll rest).1 : Nat) : Int) +
      s.machine.settings.period *
        (((s.perform command).1.refills + Report.refillsAll ((s.perform command).2.performAll rest).1 : Nat) : Int)
    rw [after, Int.natCast_add, Int.natCast_add, Int.mul_add]
    omega

theorem ran_performAll (commands : List Command) : ∀ s : Session β,
    ∀ report ∈ (s.performAll commands).1, ∀ total, report.reply = .ran total →
      total.count = cyclesOf (Journal.instructions report.events) +
        7 * (Journal.entries report.events).length := by
  induction commands with
  | nil => exact fun _ _ h => nomatch h
  | cons command rest ih =>
    intro s report member total reply
    rcases List.mem_cons.mp member with rfl | member
    · obtain rfl := s.eq_run_of_reply reply
      rw [← Report.ran_of_reply reply]
      exact s.ran_run
    · exact ih _ report member total reply

/-- **Cycles are conserved.** The commands are any but a reset, given to a session whose machine has the
budget that construction and reset leave, and its runs take less than 2147483648 cycles; what bus and host do
to each other makes no difference. Then each run returns the cycles of the instructions it executed and 7 for
each handler it entered, and the budget left is the period, less what all runs returned, plus the period for
each question the host answered with anything but stop. -/
theorem cycles_conserved (s : Session β) (commands : List Command)
    (full : s.machine.budget = s.machine.settings.period) (noReset : .reset ∉ commands)
    (few : Report.ranAll (s.performAll commands).1 < 2147483648) :
    (∀ report ∈ (s.performAll commands).1, ∀ total, report.reply = .ran total →
      total.count = cyclesOf (Journal.instructions report.events) +
        7 * (Journal.entries report.events).length) ∧
    (s.performAll commands).2.machine.budget = s.machine.settings.period -
      Report.ranAll (s.performAll commands).1 +
      s.machine.settings.period * Report.refillsAll (s.performAll commands).1 := by
  refine ⟨ran_performAll commands s, ?_⟩
  have positive : 0 < s.machine.settings.period := s.machine.accepted.2.1
  have after := budget_performAll commands s 0 noReset (by omega) (by omega)
  rw [full] at after
  exact after

/-- Two runs after a reset, with an NMI put down before the first and an IRQ before the second, and
two steps between them. -/
theorem cycles_conserved_two_runs :
    let m : Machine (Traced Rom) :=
      { settings := ⟨⟨1000000⟩, 10⟩, accepted := by decide, regs := .powerOn
        bus := .fresh (.uniform 0xEA), phase := .halted, budget := -3 }
    let s : Session Rom := { machine := m.reset, answers := [.proceed, .irq, .stop, .irq, .nmi], polls := 0 }
    let commands : List Command :=
      [.request .nmi, .run, .step 2, .assign (.p 0), .request .irq, .run]
    s.machine.budget = s.machine.settings.period ∧ .reset ∉ commands ∧
    Report.ranAll (s.performAll commands).1 = 51 ∧ Report.refillsAll (s.performAll commands).1 = 4 ∧
    (s.performAll commands).2.machine.budget = 10 - 51 + 10 * 4 := by
  intro m s commands
  have ran : Report.ranAll (s.performAll commands).1 = 51 := by decide +kernel
  have refills : Report.refillsAll (s.performAll commands).1 = 4 := by decide +kernel
  have full : s.machine.budget = s.machine.settings.period := m.budget_reset
  have noReset : .reset ∉ commands := by decide
  obtain ⟨-, budget⟩ := cycles_conserved s commands full noReset (by rw [ran]; decide)
  rw [ran, refills] at budget
  exact ⟨full, noReset, ran, refills, budget⟩

end Session
end Nmos6502
