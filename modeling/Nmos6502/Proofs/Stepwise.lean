/-
# Running is stepping

With no request waiting and a host that only says go on or stop, and leaves the
bus alone, the scheduler does nothing to the program. However many runs the host
makes of it, they execute the instructions that stepping executes, leave the
same registers, the same bus and the same accesses on it, and return the cycles
of the steps. The period, the budget and the questions do not come into it.

A run and a walk go side by side: a turn of the run is a step of the walk, and
a question is none (`Run.Stepped`). Steps do not depend on the scheduler and
leave it alone, so the walk may start on a machine with any settings, phase and
budget.
-/
import Nmos6502.Proofs.Alike
import Nmos6502.Proofs.Course
import Nmos6502.Proofs.History
import Nmos6502.Rom

namespace Nmos6502

/-! ### Walks -/

namespace Walk

variable {β : Type} [Bus β]

theorem times_add (n : Nat) : ∀ (k : Nat) (w : Walk β), times n (times k w) = times (k + n) w
  | 0, w => by rw [Nat.zero_add, times]
  | k + 1, w => by
    rw [Nat.succ_add, times, times]
    exact times_add n k w.next

/-- What was stepped before makes no difference to later steps, which come on top of it. -/
theorem times_eq : ∀ (n : Nat) (w : Walk β),
    times n w =
      { machine := (times n (begin w.machine)).machine
        taken := (times n (begin w.machine)).taken ++ w.taken }
  | 0, _ => rfl
  | n + 1, w => by
    have one : w.next.taken = (begin w.machine).next.taken ++ w.taken := rfl
    rw [times, times, times_eq n w.next, times_eq n (begin w.machine).next, one, ← List.append_assoc]
    rfl

theorem machine_times_succ (n : Nat) (m : Machine β) :
    ((begin m).times (n + 1)).machine = ((begin m.step.2).times n).machine := by
  rw [times, times_eq]
  rfl

theorem steps_times_succ (n : Nat) (m : Machine β) :
    ((begin m).times (n + 1)).steps = ⟨m.step.1, m.step.2.regs⟩ :: ((begin m.step.2).times n).steps := by
  rw [times, times_eq, steps, List.reverse_append]
  rfl

theorem steps_times_concat (n : Nat) (m : Machine β) :
    let last := ((begin m).times n).machine.step
    ((begin m).times (n + 1)).steps = ((begin m).times n).steps ++ [⟨last.1, last.2.regs⟩] := by
  rw [← times_add 1 n]
  exact List.reverse_cons

theorem cycles_times_succ (n : Nat) (m : Machine β) :
    ((begin m).times (n + 1)).cycles = m.step.1.cycles + ((begin m.step.2).times n).cycles := by
  have later : ∀ (taken : List Step) (cycles : Nat),
      taken.foldr (fun s rest => s.executed.cycles + rest) cycles =
        cycles + taken.foldr (fun s rest => s.executed.cycles + rest) 0 := by
    intro taken cycles
    induction taken with
    | nil => rfl
    | cons s rest ih =>
      rw [List.foldr_cons, List.foldr_cons, ih]
      omega
  rw [times, times_eq, cycles, List.foldr_append, later]
  rfl

theorem length_taken_times : ∀ (n : Nat) (w : Walk β), (times n w).taken.length = w.taken.length + n
  | 0, _ => rfl
  | n + 1, w => by
    have ih := length_taken_times n w.next
    have one : w.next.taken.length = w.taken.length + 1 := rfl
    rw [times, ih, one]
    omega

theorem length_steps_times (n : Nat) (m : Machine β) : ((begin m).times n).steps.length = n := by
  rw [steps, List.length_reverse, length_taken_times]
  exact Nat.zero_add n

theorem questions_times : ∀ (n : Nat) (w : Walk (Traced β)),
    (times n w).machine.bus.questions = w.machine.bus.questions
  | 0, _ => rfl
  | n + 1, w => (questions_times n w.next).trans (Traced.questions_on _ _)

end Walk

/-! ### One run -/

namespace Run

variable {β γ : Type} {R : β → γ → Prop}

/-- A run that began beside one walk stands beside another: with no request waiting, on machines that
are alike, and with the steps between the two walks behind it. -/
structure Stepped (R : β → γ → Prop) (start : Walk γ) (r : Run β) (w : Walk γ) : Prop where
  idle : r.machine.phase.request? = none
  machine : Machine.Alike R r.machine w.machine
  executed : w.taken.map Step.executed = Journal.instructions r.journal ++ start.taken.map Step.executed
  cycles : w.cycles = r.cycles.count + start.cycles

theorem stepped_begin {m : Machine β} {w : Walk γ} (idle : m.phase.request? = none)
    (h : Machine.Alike R m w.machine) : Stepped R w (begin m) w := by
  refine ⟨(request?_begin m).trans idle, ⟨?_, ?_⟩, rfl, (Nat.zero_add _).symm⟩
  · rw [regs_begin]
    exact h.regs
  · rw [bus_begin]
    exact h.bus

namespace Stepped

variable {start w : Walk γ} {r : Run β} {note : Answer → β → β}

theorem close (noted : ∀ answer b c, R b c → R (note answer b) c) (h : Stepped R start r w) :
    Stepped R start (r.close note) w := by
  refine ⟨rfl, ⟨h.machine.regs, noted .stop _ _ h.machine.bus⟩, ?_, h.cycles⟩
  show _ = Journal.instructions (.stopped _ _ :: .polled .stop :: r.journal) ++ _
  rw [Journal.instructions_cons, Journal.instructions_cons]
  exact h.executed

variable [Bus β]

theorem proceed (noted : ∀ answer b c, R b c → R (note answer b) c) (h : Stepped R start r w) :
    Stepped R start (r.resume note .proceed) w := by
  have none : Interrupt.stronger r.machine.phase.request? Answer.proceed.interrupt? = none := by
    rw [h.idle]
    rfl
  rw [resume_eq, none]
  refine ⟨rfl, ⟨h.machine.regs, noted .proceed _ _ h.machine.bus⟩, ?_, h.cycles⟩
  show _ = Journal.instructions (.polled .proceed :: r.journal) ++ _
  rw [Journal.instructions_cons]
  exact h.executed

variable [Bus γ]

/-- A turn is a step. -/
theorem turn (alike : Bus.Alike R) (h : Stepped R start r w) : Stepped R start r.turn w.next := by
  have calm : r.machine.phase ≠ .pending .nmi := by
    intro waits
    have nmi := h.idle.symm.trans (Phase.request?_eq_some_iff.mpr waits)
    nomatch nmi
  obtain ⟨same, machine⟩ := h.machine.step alike
  rw [turn_eq, wake_of_phase r calm]
  refine ⟨h.idle, ⟨machine.regs, machine.bus⟩, ?_, ?_⟩
  · rw [journal_execute, Journal.instructions_cons]
    show w.machine.step.1 :: w.taken.map Step.executed = r.machine.step.1 :: (_ ++ _)
    rw [same, h.executed]
    rfl
  · have walked : w.next.cycles = w.machine.step.1.cycles + w.cycles := rfl
    have cycles := h.cycles
    rw [walked, cycles_execute, same]
    omega

theorem untilPoll (alike : Bus.Alike R) (h : Stepped R start r w) :
    ∃ n, Stepped R start r.untilPoll (w.times n) := by
  apply untilPoll_induction (P := fun q : Run β => ∃ n, Stepped R start q (w.times n))
  · exact ⟨1, h.turn alike⟩
  · rintro q - ⟨n, stepped⟩
    refine ⟨n + 1, ?_⟩
    have next := stepped.turn alike
    rw [← Walk.times_add 1 n w]
    exact next

theorem follow (alike : Bus.Alike R) (noted : ∀ answer b c, R b c → R (note answer b) c)
    (answers : List Answer) : ∀ r : Run β, (∀ answer ∈ answers, answer = .proceed ∨ answer = .stop) →
    ∀ w, Stepped R start r w → ∃ n, Stepped R start (r.follow note answers).1 (w.times n) := by
  apply course_induction note
    (P := fun answers r => (∀ answer ∈ answers, answer = .proceed ∨ answer = .stop) →
      ∀ w, Stepped R start r w → ∃ n, Stepped R start (r.follow note answers).1 (w.times n))
  · intro answers r stops calm w h
    obtain ⟨n, stepped⟩ := h.untilPoll alike
    rw [follow_of_stop note stops]
    exact ⟨n, stepped.close noted⟩
  · intro answer rest r goes ih calm w h
    obtain rfl : answer = .proceed := (calm answer List.mem_cons_self).resolve_right goes
    obtain ⟨k, stepped⟩ := h.untilPoll alike
    obtain ⟨n, done⟩ := ih (fun answer member => calm answer (List.mem_cons_of_mem _ member)) _
      (stepped.proceed noted)
    refine ⟨k + n, ?_⟩
    rw [follow_cons note goes, ← Walk.times_add n k w]
    exact done

end Stepped

theorem mem_of_mem_rest [Bus β] (note : Answer → β → β) (answers : List Answer) (r : Run β) :
    ∀ answer ∈ (r.follow note answers).2, answer ∈ answers := by
  intro answer member
  rw [rest_follow] at member
  exact (unasked_suffix answers).mem member

end Run

/-! ### One run after the other -/

namespace Session

variable {β : Type} [Bus β] [Backed β]

open Traced (SameAccesses)

/-- A session in which nothing interrupts the program: no request waits, and the host will only say
go on or stop and leaves the bus alone. -/
structure Undisturbed (s : Session β) : Prop where
  idle : s.machine.phase.request? = none
  calm : ∀ answer ∈ s.answers, answer = .proceed ∨ answer = .stop
  aloof : ∀ answer bus, s.note answer bus = bus

/-- A run beside a walk goes on for so many steps: they execute what the run tells and take the
cycles it returns. -/
theorem stepped_run {s : Session β} (quiet : Undisturbed s) {w : Walk (Traced β)}
    (h : Machine.Alike SameAccesses s.machine w.machine) :
    Undisturbed (s.perform .run).2 ∧
    ∃ n, Machine.Alike SameAccesses (s.perform .run).2.machine (w.times n).machine ∧
      (w.times n).steps.map Step.executed =
        w.steps.map Step.executed ++ Journal.instructions (s.perform .run).1.events ∧
      (w.times n).cycles = w.cycles + (s.perform .run).1.ran := by
  obtain ⟨reply, events, machine, answers⟩ := s.perform_run
  obtain ⟨n, stepped⟩ := Run.Stepped.follow Traced.alike_sameAccesses
    (fun answer _ _ same => same.notePoll (quiet.aloof answer)) s.answers (Run.begin s.machine) quiet.calm w
    (Run.stepped_begin quiet.idle h)
  refine ⟨⟨?_, ?_, quiet.aloof⟩, n, ?_, ?_, ?_⟩
  · rw [machine]
    exact stepped.idle
  · rw [answers]
    exact fun answer member => quiet.calm answer (Run.mem_of_mem_rest _ s.answers _ answer member)
  · rw [machine]
    exact stepped.machine
  · have told : Journal.instructions (s.perform .run).1.events =
        (Journal.instructions (s.machine.runNoting (Traced.notePoll s.note) s.answers).1.journal).reverse := by
      rw [events]
      exact List.filterMap_reverse
    rw [told, Walk.steps, Walk.steps, List.map_reverse, List.map_reverse, stepped.executed,
      List.reverse_append]
    rfl
  · rw [Report.ran_of_reply reply, stepped.cycles, Nat.add_comm]
    rfl

/-- What several reports tell of instructions, in order of time. -/
def executedIn (reports : List Report) : List Executed :=
  reports.flatMap fun report => Journal.instructions report.events

/-- Several runs, too, are so many steps. -/
theorem stepped_runs : ∀ (runs : Nat) {s : Session β} {w : Walk (Traced β)}, Undisturbed s →
    Machine.Alike SameAccesses s.machine w.machine →
    ∃ n, Machine.Alike SameAccesses (s.performAll (.replicate runs .run)).2.machine (w.times n).machine ∧
      (w.times n).steps.map Step.executed =
        w.steps.map Step.executed ++ executedIn (s.performAll (.replicate runs .run)).1 ∧
      (w.times n).cycles = w.cycles + Report.ranAll (s.performAll (.replicate runs .run)).1
  | 0, _, w, _, h => ⟨0, h, (List.append_nil _).symm, rfl⟩
  | runs + 1, s, w, quiet, h => by
    obtain ⟨quieter, k, between, executed, cycles⟩ := stepped_run quiet h
    obtain ⟨n, after, executed', cycles'⟩ := stepped_runs runs quieter between
    refine ⟨k + n, ?_, ?_, ?_⟩
    · rw [← Walk.times_add n k w]
      exact after
    · rw [← Walk.times_add n k w, executed', executed, List.append_assoc]
      rfl
    · rw [← Walk.times_add n k w, cycles', cycles, Nat.add_assoc]
      rfl

structure SameScheduler (s s' : Session β) : Prop where
  settings : s'.machine.settings = s.machine.settings
  phase : s'.machine.phase = s.machine.phase
  budget : s'.machine.budget = s.machine.budget
  answers : s'.answers = s.answers
  polls : s'.polls = s.polls
  questions : s'.machine.bus.questions = s.machine.bus.questions
  note : s'.note = s.note

theorem sameScheduler_step (t : Session β) (count : Nat) :
    SameScheduler t (t.perform (.step count)).2 where
  settings := Walk.settings_times count (Walk.begin t.machine)
  phase := Walk.phase_times count (Walk.begin t.machine)
  budget := Walk.budget_times count (Walk.begin t.machine)
  answers := rfl
  polls := rfl
  questions := Walk.questions_times count (Walk.begin t.machine)
  note := rfl

/-- **Running is stepping.** A session in which nothing interrupts the program makes several runs.
Another session, with the same registers and the same accesses behind it on the same bus, makes as
many steps as the runs executed instructions; its settings, phase, budget and host may be any. Then
both executed the same instructions, took the same cycles for them, and come to the same registers,
the same bus and the same accesses; and the scheduler of the second is as it was. -/
theorem runs_refine_steps (s t : Session β) (quiet : Undisturbed s)
    (same : Machine.Alike SameAccesses s.machine t.machine) (runs : Nat) :
    let reports := (s.performAll (.replicate runs .run)).1
    let ran := (s.performAll (.replicate runs .run)).2
    let report := (t.perform (.step (executedIn reports).length)).1
    let stepped := (t.perform (.step (executedIn reports).length)).2
    (∃ steps, report.reply = .stepped steps (Report.ranAll reports) ∧
      steps.map Step.executed = executedIn reports) ∧
    ran.machine.regs = stepped.machine.regs ∧
    ran.machine.bus.bus = stepped.machine.bus.bus ∧
    ran.machine.bus.accesses = stepped.machine.bus.accesses ∧
    SameScheduler t stepped := by
  intro reports ran report stepped
  obtain ⟨n, after, executed, cycles⟩ := stepped_runs runs (w := Walk.begin t.machine) quiet same
  have none : (Walk.begin t.machine).steps.map Step.executed = [] := rfl
  have zero : (Walk.begin t.machine).cycles = 0 := rfl
  rw [none, List.nil_append] at executed
  rw [zero, Nat.zero_add] at cycles
  have count : (executedIn reports).length = n := by
    rw [← executed, List.length_map, Walk.steps, List.length_reverse, Walk.length_taken_times]
    exact Nat.zero_add n
  have walked : stepped.machine = ((Walk.begin t.machine).times n).machine := by rw [← count]; rfl
  have reply : report.reply =
      .stepped ((Walk.begin t.machine).times n).steps ((Walk.begin t.machine).times n).cycles := by
    rw [← count]
    rfl
  refine ⟨⟨_, ?_, executed⟩, ?_, ?_, ?_, t.sameScheduler_step _⟩
  · rw [reply, cycles]
  · rw [walked]
    exact after.regs
  · rw [walked]
    exact after.bus.bus
  · rw [walked]
    exact after.bus.accesses

/-- Three runs push A seventeen times, and so do steps of a machine with another period that waits to
serve an NMI. -/
theorem runs_refine_steps_push :
    let m : Machine (Traced Rom) :=
      { settings := ⟨⟨1000000⟩, 16⟩, accepted := by decide, regs := .powerOn
        bus := .fresh (.uniform 0x48), phase := .halted, budget := 16 }
    let k : Machine (Traced Rom) :=
      { settings := ⟨⟨2000000⟩, 1000⟩, accepted := by decide, regs := .powerOn
        bus := .fresh (.uniform 0x48), phase := .pending .nmi, budget := -5 }
    let s : Session Rom := { machine := m, answers := [.proceed, .stop, .proceed], polls := 0 }
    let t : Session Rom := { machine := k, answers := [.irq], polls := 4 }
    let reports := (s.performAll (.replicate 3 .run)).1
    let ran := (s.performAll (.replicate 3 .run)).2
    let stepped := (t.perform (.step 17)).2
    Undisturbed s ∧ Machine.Alike SameAccesses s.machine t.machine ∧
    (executedIn reports).length = 17 ∧ Report.ranAll reports = 51 ∧
    (∃ steps, (t.perform (.step 17)).1.reply = .stepped steps 51 ∧
      steps.map Step.executed = executedIn reports) ∧
    ran.machine.regs = stepped.machine.regs ∧
    ran.machine.bus.bus = stepped.machine.bus.bus ∧
    ran.machine.bus.accesses = stepped.machine.bus.accesses ∧
    SameScheduler t stepped := by
  intro m k s t reports ran stepped
  have quiet : Undisturbed s := ⟨rfl, by decide, fun _ _ => rfl⟩
  have same : Machine.Alike SameAccesses s.machine t.machine := ⟨rfl, SameAccesses.refl _⟩
  have count : (executedIn reports).length = 17 := by decide +kernel
  have cycles : Report.ranAll reports = 51 := by decide +kernel
  have refines := runs_refine_steps s t quiet same 3
  dsimp only at refines
  rw [show Report.ranAll (s.performAll (.replicate 3 .run)).1 = 51 from cycles,
    show (executedIn (s.performAll (.replicate 3 .run)).1).length = 17 from count] at refines
  exact ⟨quiet, same, count, cycles, refines⟩

end Session
end Nmos6502
