/-
# A run ends when its host says stop

A run with a host that never falls silent is a loop that may go on for ever
(`Loop.round`). If the host says stop at some question, the loop is over after
so many rounds, at the first of these questions; it has taken the answers up to
there and no more, and it has made of the machine what the run with just these
answers makes of it.

The budget is no measure of this loop, since it is filled again at every
question. What bounds the rounds is that a stretch between two questions is
short (`Run.Metered`) and that every question uses up an answer: the induction
is on the place of the answer that stops the run, and within a stretch on the
budget.

This holds of every machine that can be made and driven from outside
(`Machine.Reachable`): what was done to it has left its budget in range.
-/
import Mathlib.Data.Nat.Find
import Nmos6502.Proofs.History
import Nmos6502.Proofs.Loop
import Nmos6502.Proofs.Stretches
import Nmos6502.Rom

namespace Nmos6502

/-! ### Machines that can be reached -/

namespace Machine

variable {β : Type}

theorem within_of_full {m : Machine β} (full : m.budget = m.settings.period) : m.Within := by
  have low : leastBudget ≤ 0 := by decide
  exact ⟨by omega, by omega⟩

theorem Within.request {m : Machine β} (h : m.Within) (kind : Interrupt) : (m.request kind).Within := by
  obtain ⟨_, eq⟩ := m.request_eq kind
  rw [eq]
  exact ⟨h.low, h.high⟩

variable [Bus β]

/-- A run that ends leaves the budget in range, and spent. -/
theorem Within.run {m : Machine β} (h : m.Within) (note : Answer → β → β) (answers : List Answer) :
    (m.runNoting note answers).1.machine.Within := by
  obtain ⟨p, due, eq⟩ := (Run.metered_invariant _ note).follow answers (Run.metered_begin h)
  have low := due.low
  have spent := due.spent
  show ((Run.begin m).follow note answers).1.machine.Within
  rw [eq]
  refine ⟨low, ?_⟩
  show p.machine.budget ≤ p.machine.settings.period
  omega

/-- A machine that has been made and then driven from outside, in any way. Its owner may put what he
likes in the registers and on the bus, but cannot touch the scheduler. -/
inductive Reachable : Machine β → Prop
  | make {settings : Settings} {bus : β} {m : Machine β} (made : Machine.make settings bus = .ok m) :
    Reachable m
  | reset {m : Machine β} : Reachable m → Reachable m.reset
  | request {m : Machine β} (kind : Interrupt) : Reachable m → Reachable (m.request kind)
  | step {m : Machine β} : Reachable m → Reachable m.step.2
  | run {m : Machine β} (note : Answer → β → β) (answers : List Answer) :
    Reachable m → Reachable (m.runNoting note answers).1.machine
  | touch {m : Machine β} (regs : Registers) (bus : β) :
    Reachable m → Reachable { m with regs := regs, bus := bus }

/-- The budget of a machine that can be reached is no more than a period. -/
theorem Reachable.within {m : Machine β} (h : m.Reachable) : m.Within := by
  induction h with
  | make made => exact within_of_full (budget_make made)
  | reset _ _ => exact within_of_full rfl
  | request kind _ ih => exact ih.request kind
  | step _ ih => exact ⟨ih.low, ih.high⟩
  | run note answers _ ih => exact ih.run note answers
  | touch regs bus _ ih => exact ⟨ih.low, ih.high⟩

end Machine

namespace Session

variable {β : Type} [Bus β] [Backed β]

theorem reachable_perform (s : Session β) (h : s.machine.Reachable) (command : Command) :
    (s.perform command).2.machine.Reachable :=
  s.machine_perform h h.reset (fun kind => h.request kind) (fun _ before => before.step)
    (h.run (Traced.notePoll s.note) s.answers) (fun what _ => h.touch (s.machine.regs.assign what) s.machine.bus)
    (fun mask on _ => h.touch { s.machine.regs with p := s.machine.regs.p.setTo mask on } s.machine.bus)
    fun bus => h.touch s.machine.regs bus

theorem reachable_performAll (commands : List Command) (s : Session β) (h : s.machine.Reachable) :
    (s.performAll commands).2.machine.Reachable :=
  machine_performAll commands (fun s command _ before => s.reachable_perform before command) s h

end Session

/-! ### Up to a question -/

/-- As many rounds as instructions lead to the next question. -/
theorem Loop.rounds_untilPoll {β : Type} [Bus β] (note : Answer → β → β) (r : Run β)
    (host : Stream' Answer) :
    ∃ count, Journal.sincePoll r.untilPoll.journal = Journal.sincePoll r.journal + count ∧
      rounds note count (.going r host) = ask note r.untilPoll host := by
  fun_induction Run.untilPoll r with
  | case1 r turned left ih =>
    obtain ⟨count, since, reached⟩ := ih
    have one : Journal.sincePoll turned.journal = Journal.sincePoll r.journal + 1 := r.sincePoll_turn
    refine ⟨count + 1, by omega, ?_⟩
    rw [rounds, round, if_pos left]
    exact reached
  | case2 r turned spent =>
    refine ⟨1, r.sincePoll_turn, ?_⟩
    rw [rounds, round, if_neg spent]
    rfl

/-! ### The first stop -/

namespace Run

open Journal (sincePoll Stretched)

variable {β : Type} [Bus β]

/-- How a run with a period of `n` ends: its host says stop at the `k`-th question from here, counted
from 0, and at none before, and so it is over after some rounds, as the run with just these answers
is. -/
structure Ends (n : Nat) (note : Answer → β → β) (r : Run β) (host : Stream' Answer) (k : Nat)
    (last : Run β) : Prop where
  rounds : ∃ count, count + sincePoll r.journal ≤ (k + 1) * longestStretch n ∧
    Loop.rounds note count (.going r host) = .ended last (host.drop (k + 1))
  follows : ∀ more, r.follow note (host.take (k + 1) ++ more) = (last, more)
  answers : Journal.answers last.journal = (host.take (k + 1)).reverse ++ Journal.answers r.journal

variable {n : Nat} (note : Answer → β → β) {r : Run β} {host : Stream' Answer}

theorem ends_here (due : Exhausted n r.untilPoll) (stops : host.head = .stop) :
    Ends n note r host 0 (r.untilPoll.close note) := by
  obtain ⟨count, since, reached⟩ := Loop.rounds_untilPoll note r host
  have few := due.few
  have first : host.take 1 = [.stop] := congrArg (fun answer => [answer]) stops
  refine ⟨⟨count, by omega, ?_⟩, fun more => ?_, ?_⟩
  · rw [reached, Loop.ask_of_stop note r.untilPoll stops]
    rfl
  · rw [first]
    rfl
  · rw [first, ← r.answers_untilPoll]
    rfl

/-- A run that goes on at the next question ends as it ends from there. -/
theorem Ends.later {k : Nat} {last : Run β} (due : Exhausted n r.untilPoll) (goes : host.head ≠ .stop)
    (h : Ends n note (r.untilPoll.resume note host.head) host.tail k last) :
    Ends n note r host (k + 1) last := by
  obtain ⟨here, since, reached⟩ := Loop.rounds_untilPoll note r host
  obtain ⟨⟨count, bound, ended⟩, follows, answers⟩ := h
  have few := due.few
  have first : host.take (k + 1 + 1) = host.head :: host.tail.take (k + 1) := rfl
  refine ⟨⟨here + count, ?_, ?_⟩, fun more => ?_, ?_⟩
  · rw [Nat.add_mul (k + 1), Nat.one_mul]
    omega
  · rw [Loop.rounds_add, reached, Loop.ask_of_go note r.untilPoll goes, ended]
    rfl
  · rw [first, List.cons_append, follow_cons note goes]
    exact follows more
  · rw [answers, answers_resume, r.answers_untilPoll, first, List.reverse_cons, List.append_assoc]
    rfl

/-- A run ends at the first question at which its host says stop. -/
theorem ends_of_stop (k : Nat) : ∀ (r : Run β) (host : Stream' Answer), Metered n r →
    host.get k = .stop → (∀ j < k, host.get j ≠ .stop) → ∃ last, Ends n note r host k last := by
  induction k with
  | zero =>
    intro r host metered stops _
    exact ⟨_, ends_here note ((metered_invariant n note).untilPoll metered) stops⟩
  | succ k ih =>
    intro r host metered stops first
    have due := (metered_invariant n note).untilPoll metered
    have goes : host.head ≠ .stop := first 0 (Nat.succ_pos k)
    obtain ⟨last, ends⟩ := ih _ host.tail (due.resume note host.head) stops
      fun j before => first (j + 1) (Nat.succ_lt_succ before)
    exact ⟨last, ends.later note due goes⟩

end Run

/-- **A run ends when its host says stop.** The machine can be reached from outside. Then its budget
is no more than its period and no less than the least. If its host, whose answers never run out, says
stop at some question, the run is over after a bounded number of rounds. It has asked as far as the
first stop and no further, and is the run that the list of these answers makes. Before each of its
questions it has executed at least one instruction since the question before, and at most half a
period of them, rounded up, or one. It leaves the machine halted and the budget spent. -/
theorem Machine.run_ends {β : Type} [Bus β] {m : Machine β} (reachable : m.Reachable) :
    (leastBudget ≤ m.budget ∧ m.budget ≤ m.settings.period) ∧
    ∀ (note : Answer → β → β) (host : Stream' Answer), (∃ k, host.get k = .stop) →
      ∃ k count last,
        (host.get k = .stop ∧ ∀ j < k, host.get j ≠ .stop) ∧
        Loop.rounds note count (.going (.begin m) host) = .ended last (host.drop (k + 1)) ∧
        count ≤ (k + 1) * max 1 ((m.settings.period + 1) / 2) ∧
        (∀ more, m.runNoting note (host.take (k + 1) ++ more) = (last, more)) ∧
        Journal.answers last.journal.reverse = host.take (k + 1) ∧
        (∀ answer earlier, .polled answer :: earlier <:+ last.journal →
          1 ≤ Journal.sincePoll earlier ∧
          Journal.sincePoll earlier ≤ max 1 ((m.settings.period + 1) / 2)) ∧
        last.machine.phase = .halted ∧ last.machine.budget ≤ 0 := by
  refine ⟨⟨reachable.within.low, reachable.within.high⟩, fun note host stops => ?_⟩
  have metered := Run.metered_begin reachable.within
  have here := Nat.find_spec stops
  have first : ∀ j < Nat.find stops, host.get j ≠ .stop := fun j before => Nat.find_min stops before
  obtain ⟨last, ⟨count, bound, ended⟩, follows, answers⟩ :=
    Run.ends_of_stop note (Nat.find stops) _ host metered here first
  have alone : ((Run.begin m).follow note (host.take (Nat.find stops + 1))).1 = last := by
    have eq := follows []
    rw [List.append_nil] at eq
    rw [eq]
  obtain ⟨p, due, closed⟩ := (Run.metered_invariant _ note).follow (host.take (Nat.find stops + 1)) metered
  rw [alone] at closed
  refine ⟨Nat.find stops, count, last, ⟨here, first⟩, ended, bound, follows, ?_, ?_, ?_, ?_⟩
  · have told : Journal.answers last.journal.reverse = (Journal.answers last.journal).reverse :=
      List.filterMap_reverse
    have none : Journal.answers (Run.begin m).journal = [] := rfl
    rw [told, answers, none, List.append_nil, List.reverse_reverse]
  · have stretched : Journal.Stretched (longestStretch m.settings.period) (p.close note).journal :=
      (due.stretched.polled due.executed due.few .stop).note rfl
    rw [closed]
    exact stretched
  · rw [closed]
    rfl
  · rw [closed]
    exact due.spent

/-- With a period of three cycles an entry alone spends the budget. A machine that has been interrupted
and stopped again and again with so short a period is far below zero; its next run, too, ends. -/
theorem Machine.run_ends_short_period :
    let start : Machine Rom :=
      { settings := ⟨⟨1000000⟩, 3⟩, accepted := by decide, regs := .powerOn
        bus := .uniform 0x58, phase := .running, budget := 3 }
    let note : Answer → Rom → Rom := fun _ bus => bus
    let m := ((start.request .nmi).runNoting note [.irq, .nmi, .irq, .stop]).1.machine
    let host : Stream' Answer := fun k => if k = 2 then .stop else .irq
    m.Reachable ∧ m.budget = -24 ∧ host.get 2 = .stop ∧
    ∃ count last, Loop.rounds note count (.going (.begin m) host) = .ended last (host.drop 3) ∧
      count ≤ 3 * 2 ∧ Journal.answers last.journal.reverse = [.irq, .irq, .stop] ∧
      last.machine.phase = .halted ∧ last.machine.budget ≤ 0 := by
  intro start note m host
  have made : Machine.make ⟨⟨1000000⟩, 3⟩ (Rom.uniform 0x58) = .ok start := rfl
  have reachable : m.Reachable := ((Reachable.make made).request .nmi).run note [.irq, .nmi, .irq, .stop]
  have low : m.budget = -24 := by decide +kernel
  have period : m.settings.period = 3 := by decide +kernel
  have stops : ∃ k, host.get k = .stop := ⟨2, rfl⟩
  obtain ⟨k, count, last, ⟨here, -⟩, ended, bound, -, answers, -, halted, spent⟩ :=
    (run_ends reachable).2 note host stops
  rw [period] at bound
  obtain rfl : k = 2 := by
    by_contra other
    have goes : host.get k = .irq := if_neg other
    rw [goes] at here
    nomatch here
  exact ⟨reachable, low, rfl, count, last, ended, bound, answers, halted, spent⟩

end Nmos6502
