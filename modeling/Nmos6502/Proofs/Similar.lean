/-
# Runs side by side, in part out of sight

A view shows a part of a register file and hides the rest. The processor is
faithful to a view if it goes by nothing that is hidden: registers that look
the same make it hold dialogues that agree, and look the same afterwards
(`Registers.Faithful`). To check that is a matter of one instruction.

Then nothing hidden comes to light in the long run either. Two machines that
look the same and have the same scheduler, on buses that answer alike, are
driven by the same commands and get the same answers from their hosts. Whether
a run takes another turn, is asked, or serves a request depends on phase,
budget and I only, so the two take the same course, however long it is: they
tell the same as far as the view shows it, see the same accesses, and look the
same at the end (`Session.Similar.performAll`).

Key definitions: `Registers.Faithful`, `Report.under`, `Machine.Similar`,
`Run.Similar`, `Session.Similar`.
Key theorems: `Run.Similar.untilPoll`, `Run.Similar.follow`,
`Session.Similar.performAll`.
-/
import Nmos6502.Proofs.Alike
import Nmos6502.Proofs.Course
import Nmos6502.Proofs.History

namespace Nmos6502

/-! ### Views -/

/-- What is hidden from the view has no part in what the processor does. -/
structure Registers.Faithful (view : Registers → Registers) : Prop where
  pc : ∀ {r q : Registers}, view r = view q → r.pc = q.pc
  masked : ∀ {r q : Registers}, view r = view q → r.p.interruptDisable = q.p.interruptDisable
  step : ∀ {r q : Registers}, view r = view q →
    r.step.Agree (fun out out' => out.1 = out'.1 ∧ view out.2 = view out'.2) q.step
  enter : ∀ {r q : Registers} (kind : Interrupt), view r = view q →
    (r.enter kind).Agree (fun after after' => view after = view after') (q.enter kind)
  assign : ∀ {r q : Registers} (what : Assignment), view r = view q →
    view (r.assign what) = view (q.assign what)
  setFlags : ∀ {r q : Registers} (mask : Byte) (on : Bool), view r = view q →
    view { r with p := r.p.setTo mask on } = view { q with p := q.p.setTo mask on }

def Step.under (view : Registers → Registers) (s : Step) : Step :=
  { s with regs := view s.regs }

def Reply.under (view : Registers → Registers) : Reply → Reply
  | .nothing => .nothing
  | .stepped steps cycles => .stepped (steps.map (Step.under view)) cycles
  | .trapped found steps cycles => .trapped found (steps.map (Step.under view)) cycles
  | .ran cycles => .ran cycles
  | .byte value => .byte value

/-- A report as it looks. -/
def Report.under (view : Registers → Registers) (report : Report) : Report :=
  { report with reply := report.reply.under view }

variable {β γ : Type} {view : Registers → Registers} {R : β → γ → Prop}

/-! ### Machines -/

/-- Registers that look the same, buses in a relation, and the same scheduler. -/
structure Machine.Similar (view : Registers → Registers) (R : β → γ → Prop) (m : Machine β)
    (k : Machine γ) : Prop where
  regs : view m.regs = view k.regs
  bus : R m.bus k.bus
  settings : m.settings = k.settings
  phase : m.phase = k.phase
  budget : m.budget = k.budget

namespace Machine.Similar

variable {m : Machine β} {k : Machine γ}

theorem withPhase (h : Machine.Similar view R m k) (phase : Phase) :
    Machine.Similar view R { m with phase := phase } { k with phase := phase } :=
  ⟨h.regs, h.bus, h.settings, rfl, h.budget⟩

theorem withRegs (h : Machine.Similar view R m k) {r q : Registers} (regs : view r = view q) :
    Machine.Similar view R { m with regs := r } { k with regs := q } :=
  ⟨regs, h.bus, h.settings, h.phase, h.budget⟩

theorem withBus (h : Machine.Similar view R m k) {b : β} {c : γ} (bus : R b c) :
    Machine.Similar view R { m with bus := b } { k with bus := c } :=
  ⟨h.regs, bus, h.settings, h.phase, h.budget⟩

theorem spend (h : Machine.Similar view R m k) (cycles : Nat) :
    Machine.Similar view R (m.spend cycles) (k.spend cycles) :=
  ⟨h.regs, h.bus, h.settings, h.phase,
    congrArg (fun budget => max leastBudget (budget - cycles)) h.budget⟩

theorem replenish (h : Machine.Similar view R m k) :
    Machine.Similar view R m.replenish k.replenish := by
  refine ⟨h.regs, h.bus, h.settings, h.phase, ?_⟩
  show min greatestBudget (m.budget + m.settings.period) = min greatestBudget (k.budget + k.settings.period)
  rw [h.budget, h.settings]

theorem request (h : Machine.Similar view R m k) (kind : Interrupt) :
    Machine.Similar view R (m.request kind) (k.request kind) := by
  unfold Machine.request
  rw [← h.phase]
  split
  · exact h.withPhase _
  · exact h

variable [Bus β] [Bus γ]

theorem converse (alike : Bus.Alike R) (h : Machine.Similar view R m k) {α : Type}
    (talk : Registers → Dialogue (α × Registers))
    (agree : (talk m.regs).Agree (fun out out' => out.1 = out'.1 ∧ view out.2 = view out'.2) (talk k.regs)) :
    (m.converse talk).1 = (k.converse talk).1 ∧
    Machine.Similar view R (m.converse talk).2 (k.converse talk).2 := by
  obtain ⟨⟨result, regs⟩, bus⟩ := agree.on alike h.bus
  exact ⟨result, regs, bus, h.settings, h.phase, h.budget⟩

theorem step (faithful : Registers.Faithful view) (alike : Bus.Alike R)
    (h : Machine.Similar view R m k) : m.step.1 = k.step.1 ∧ Machine.Similar view R m.step.2 k.step.2 :=
  h.converse alike Registers.step (faithful.step h.regs)

theorem enter (faithful : Registers.Faithful view) (alike : Bus.Alike R)
    (h : Machine.Similar view R m k) (kind : Interrupt) :
    Machine.Similar view R (m.enter kind) (k.enter kind) :=
  (h.converse alike (fun r => ((), ·) <$> r.enter kind)
    ((faithful.enter kind h.regs).map fun _ _ same => ⟨rfl, same⟩)).2

theorem reset (alike : Bus.Alike R) (h : Machine.Similar view R m k) :
    Machine.Similar view R m.reset k.reset := by
  obtain ⟨-, after⟩ := h.converse alike (fun _ => ((), ·) <$> Registers.reset)
    (.refl (fun _ => ⟨rfl, rfl⟩) _)
  exact ⟨after.regs, after.bus, h.settings, rfl, congrArg (fun s => (s.period : Int)) h.settings⟩

end Machine.Similar

/-! ### Runs -/

/-- Runs that have come equally far on machines that are similar. -/
structure Run.Similar (view : Registers → Registers) (R : β → γ → Prop) (r : Run β) (q : Run γ) :
    Prop where
  machine : Machine.Similar view R r.machine q.machine
  cycles : r.cycles = q.cycles
  journal : r.journal = q.journal

theorem Machine.Similar.begin {m : Machine β} {k : Machine γ} (h : Machine.Similar view R m k) :
    Run.Similar view R (Run.begin m) (Run.begin k) := by
  refine ⟨?_, rfl, rfl⟩
  unfold Run.begin Machine.isHalted
  rw [← h.phase]
  split
  · exact h.withPhase .running
  · exact h

namespace Run.Similar

variable {r : Run β} {q : Run γ}

theorem settle (h : Run.Similar view R r q) : Run.Similar view R r.settle q.settle :=
  ⟨h.machine.withPhase .running, h.cycles, h.journal⟩

theorem hear {note : Answer → β → β} {note' : Answer → γ → γ}
    (noted : ∀ answer b c, R b c → R (note answer b) (note' answer c)) (h : Run.Similar view R r q)
    (answer : Answer) : Run.Similar view R (r.hear note answer) (q.hear note' answer) :=
  ⟨h.machine.withBus (noted answer _ _ h.machine.bus), h.cycles, congrArg (Event.polled answer :: ·) h.journal⟩

section

variable (faithful : Registers.Faithful view)
include faithful

theorem drop (h : Run.Similar view R r q) : Run.Similar view R r.drop q.drop := by
  refine ⟨h.machine, h.cycles, ?_⟩
  show .dropped r.machine.regs.pc :: r.journal = .dropped q.machine.regs.pc :: q.journal
  rw [faithful.pc h.machine.regs, h.journal]

theorem stop (h : Run.Similar view R r q) : Run.Similar view R r.stop q.stop := by
  refine ⟨h.machine.withPhase .halted, h.cycles, ?_⟩
  show .stopped r.machine.regs.pc r.cycles :: r.journal = .stopped q.machine.regs.pc q.cycles :: q.journal
  rw [faithful.pc h.machine.regs, h.cycles, h.journal]

variable [Bus β] [Bus γ] (alike : Bus.Alike R)
include alike

theorem execute (h : Run.Similar view R r q) : Run.Similar view R r.execute q.execute := by
  obtain ⟨executed, machine⟩ := h.machine.step faithful alike
  refine ⟨?_, ?_, ?_⟩
  · rw [machine_execute, machine_execute, executed]
    exact machine.spend _
  · show r.cycles + ⟨r.machine.step.1.cycles⟩ = q.cycles + ⟨q.machine.step.1.cycles⟩
    rw [executed, h.cycles]
  · rw [journal_execute, journal_execute, executed, h.journal]

theorem enter (h : Run.Similar view R r q) (kind : Interrupt) :
    Run.Similar view R (r.enter kind) (q.enter kind) := by
  have machine := h.machine.enter faithful alike kind
  refine ⟨machine.spend interruptCycles, congrArg (· + ⟨interruptCycles⟩) h.cycles, ?_⟩
  rw [journal_enter, journal_enter, faithful.pc h.machine.regs, faithful.pc machine.regs, h.journal]

theorem turn (h : Run.Similar view R r q) : Run.Similar view R r.turn q.turn := by
  unfold Run.turn
  rw [← h.machine.phase]
  split
  · exact (h.settle.enter faithful alike .nmi).execute faithful alike
  · exact h.execute faithful alike

/-- Both runs take as many turns before the host is asked. -/
theorem untilPoll (h : Run.Similar view R r q) : Run.Similar view R r.untilPoll q.untilPoll := by
  fun_induction Run.untilPoll r generalizing q
  case case1 r turned left ih =>
    have turn : Run.Similar view R turned q.turn := h.turn faithful alike
    have left' : 0 < q.turn.machine.budget := turn.machine.budget ▸ left
    rw [q.untilPoll_eq, if_pos left']
    exact ih turn
  case case2 r turned spent =>
    have turn : Run.Similar view R turned q.turn := h.turn faithful alike
    have spent' : ¬ 0 < q.turn.machine.budget := turn.machine.budget ▸ spent
    rw [q.untilPoll_eq, if_neg spent']
    exact turn

theorem serve (h : Run.Similar view R r q) (request : Option Interrupt) :
    Run.Similar view R (r.serve request) (q.serve request) := by
  unfold Run.serve
  split
  · exact h
  · exact h.enter faithful alike .nmi
  · rw [← faithful.masked h.machine.regs]
    split
    · exact h.drop faithful
    · exact h.enter faithful alike .irq

variable {note : Answer → β → β} {note' : Answer → γ → γ}
  (noted : ∀ answer b c, R b c → R (note answer b) (note' answer c))
include noted

theorem resume (h : Run.Similar view R r q) (answer : Answer) :
    Run.Similar view R (r.resume note answer) (q.resume note' answer) := by
  have heard := h.hear noted answer
  have fresh : Run.Similar view R (r.refresh note answer) (q.refresh note' answer) :=
    ⟨heard.machine.replenish.withPhase .running, heard.cycles, heard.journal⟩
  rw [resume_eq, resume_eq, ← h.machine.phase]
  exact fresh.serve faithful alike _

/-- Runs that are similar take the same course to the end, and leave the same answers. -/
theorem follow (answers : List Answer) : ∀ {r : Run β} {q : Run γ}, Run.Similar view R r q →
    Run.Similar view R (r.follow note answers).1 (q.follow note' answers).1 ∧
    (r.follow note answers).2 = (q.follow note' answers).2 := by
  intro r q h
  refine ⟨?_, (rest_follow note answers r).trans (rest_follow note' answers q).symm⟩
  revert q
  apply course_induction note
    (P := fun answers r => ∀ {q : Run γ}, Run.Similar view R r q →
      Run.Similar view R (r.follow note answers).1 (q.follow note' answers).1)
  · intro answers r stops q h
    rw [follow_of_stop note stops, follow_of_stop note' stops]
    exact ((h.untilPoll faithful alike).hear noted .stop).stop faithful
  · intro answer rest r goes ih q h
    rw [follow_cons note goes, follow_cons note' goes]
    exact ih ((h.untilPoll faithful alike).resume faithful alike noted answer)

end

end Run.Similar

/-! ### Walks -/

structure Walk.Similar (view : Registers → Registers) (R : β → γ → Prop) (w : Walk β) (v : Walk γ) :
    Prop where
  machine : Machine.Similar view R w.machine v.machine
  taken : w.taken.map (Step.under view) = v.taken.map (Step.under view)

namespace Walk.Similar

variable {w : Walk β} {v : Walk γ}

theorem steps (h : Walk.Similar view R w v) :
    w.steps.map (Step.under view) = v.steps.map (Step.under view) := by
  unfold Walk.steps
  rw [List.map_reverse, List.map_reverse, h.taken]

/-- No view hides what was executed. -/
theorem cycles (h : Walk.Similar view R w v) : w.cycles = v.cycles := by
  have shown (taken : List Step) : taken.foldr (fun s rest => s.executed.cycles + rest) 0 =
      (taken.map (Step.under view)).foldr (fun s rest => s.executed.cycles + rest) 0 := by
    rw [List.foldr_map]
    rfl
  unfold Walk.cycles
  rw [shown w.taken, shown v.taken, h.taken]

theorem events (h : Walk.Similar view R w v) : w.events = v.events := by
  have shown (steps : List Step) : steps.map (fun s => Event.executed s.executed) =
      (steps.map (Step.under view)).map fun s => Event.executed s.executed := by
    rw [List.map_map]
    rfl
  unfold Walk.events
  rw [shown w.steps, shown v.steps, h.steps]

variable [Bus β] [Bus γ] (faithful : Registers.Faithful view) (alike : Bus.Alike R)
include faithful alike

theorem next (h : Walk.Similar view R w v) : Walk.Similar view R w.next v.next := by
  obtain ⟨executed, machine⟩ := h.machine.step faithful alike
  refine ⟨machine, ?_⟩
  show (⟨w.machine.step.1, view w.machine.step.2.regs⟩ : Step) :: w.taken.map (Step.under view) =
    ⟨v.machine.step.1, view v.machine.step.2.regs⟩ :: v.taken.map (Step.under view)
  rw [executed, machine.regs, h.taken]

theorem times (n : Nat) : ∀ {w : Walk β} {v : Walk γ}, Walk.Similar view R w v →
    Walk.Similar view R (w.times n) (v.times n) := by
  induction n with
  | zero => exact fun h => h
  | succ n ih => exact fun h => ih (h.next faithful alike)

theorem untilTrapped (limit : Nat) : ∀ {w : Walk β} {v : Walk γ}, Walk.Similar view R w v →
    (Walk.untilTrapped limit w).1 = (Walk.untilTrapped limit v).1 ∧
    Walk.Similar view R (Walk.untilTrapped limit w).2 (Walk.untilTrapped limit v).2 := by
  induction limit with
  | zero => exact fun h => ⟨rfl, h⟩
  | succ limit ih =>
    intro w v h
    have next := h.next faithful alike
    unfold Walk.untilTrapped
    simp only [faithful.pc h.machine.regs, faithful.pc next.machine.regs]
    split
    · exact ⟨rfl, next⟩
    · exact ih next

end Walk.Similar

/-! ### Sessions -/

/-- Sessions with machines that are similar, the same record of accesses, and hosts that give the same answers
and do to related buses what leaves them related. -/
structure Session.Similar (view : Registers → Registers) (R : β → γ → Prop) (s : Session β)
    (t : Session γ) : Prop where
  machine : Machine.Similar view (Traced.Beside R) s.machine t.machine
  answers : s.answers = t.answers
  polls : s.polls = t.polls
  note : ∀ answer b c, R b c → R (s.note answer b) (t.note answer c)

namespace Session.Similar

variable [Bus β] [Backed β] [Bus γ] [Backed γ] (faithful : Registers.Faithful view)
  (alike : Bus.Alike R)
include faithful alike

variable {s : Session β} {t : Session γ}

theorem run (h : Session.Similar view R s t) :
    (s.perform .run).1 = (t.perform .run).1 ∧
    Session.Similar view R (s.perform .run).2 (t.perform .run).2 := by
  obtain ⟨m, answers, polls, note⟩ := s
  obtain ⟨k, answers', polls', note'⟩ := t
  obtain rfl : answers = answers' := h.answers
  obtain rfl : polls = polls' := h.polls
  obtain ⟨ran, rest⟩ :=
    Run.Similar.follow faithful alike.beside (Traced.Beside.notePoll h.note) answers h.machine.begin
  refine ⟨?_, ran.machine, rest, ?_, h.note⟩
  · show Report.mk (.ran (m.runNoting _ answers).1.cycles) (m.runNoting _ answers).1.journal.reverse =
      Report.mk (.ran (k.runNoting _ answers).1.cycles) (k.runNoting _ answers).1.journal.reverse
    unfold Machine.runNoting
    rw [ran.cycles, ran.journal]
  · show polls + List.countP _ (m.runNoting _ answers).1.journal =
      polls + List.countP _ (k.runNoting _ answers).1.journal
    unfold Machine.runNoting
    rw [ran.journal]

/-- A command has the same effect on both sides, if it loads no memory behind the buses that would make
a difference to them. -/
theorem perform (h : Session.Similar view R s t) (command : Command)
    (loads : ∀ address bytes, command = .load address bytes →
      ∀ b c, R b c → R (Backed.load b address bytes) (Backed.load c address bytes)) :
    (s.perform command).1.under view = (t.perform command).1.under view ∧
    Session.Similar view R (s.perform command).2 (t.perform command).2 := by
  have start : Walk.Similar view (Traced.Beside R) (Walk.begin s.machine) (Walk.begin t.machine) :=
    ⟨h.machine, rfl⟩
  cases command with
  | run =>
    obtain ⟨report, after⟩ := h.run faithful alike
    exact ⟨congrArg (Report.under view) report, after⟩
  | reset =>
    have machine := h.machine.reset alike.beside
    exact ⟨congrArg (fun entry => Report.mk .nothing [.reset entry]) (faithful.pc machine.regs),
      machine, h.answers, h.polls, h.note⟩
  | request kind => exact ⟨rfl, h.machine.request kind, h.answers, h.polls, h.note⟩
  | step count =>
    have walk := start.times faithful alike.beside count
    refine ⟨?_, walk.machine, h.answers, h.polls, h.note⟩
    show Report.mk (.stepped (List.map _ _) _) (Walk.events _) =
      Report.mk (.stepped (List.map _ _) _) (Walk.events _)
    rw [walk.steps, walk.cycles, walk.events]
  | stepUntilTrapped limit =>
    obtain ⟨found, walk⟩ := start.untilTrapped faithful alike.beside limit
    refine ⟨?_, walk.machine, h.answers, h.polls, h.note⟩
    show Report.mk (.trapped _ (List.map _ _) _) (Walk.events _) =
      Report.mk (.trapped _ (List.map _ _) _) (Walk.events _)
    rw [found, walk.steps, walk.cycles, walk.events]
  | assign what =>
    exact ⟨rfl, h.machine.withRegs (faithful.assign what h.machine.regs), h.answers, h.polls, h.note⟩
  | setFlags mask on =>
    exact ⟨rfl, h.machine.withRegs (faithful.setFlags mask on h.machine.regs), h.answers, h.polls, h.note⟩
  | readBus address =>
    have byte := alike.beside.byte _ _ address h.machine.bus
    have bus := alike.beside.read _ _ address h.machine.bus
    exact ⟨congrArg (fun value => Report.quiet (.byte value)) byte, h.machine.withBus bus, h.answers, h.polls, h.note⟩
  | writeBus address value =>
    have bus := alike.beside.write _ _ address value h.machine.bus
    exact ⟨rfl, h.machine.withBus bus, h.answers, h.polls, h.note⟩
  | load address bytes =>
    have bus := loads address bytes rfl _ _ h.machine.bus.bus
    exact ⟨rfl, h.machine.withBus ⟨bus, h.machine.bus.record⟩, h.answers, h.polls, h.note⟩
  | prepare more => exact ⟨rfl, h.machine, congrArg (· ++ more) h.answers, h.polls, h.note⟩

/-- Any commands have the same effect on both sides. -/
theorem performAll (commands : List Command) :
    ∀ {s : Session β} {t : Session γ}, Session.Similar view R s t →
      (∀ address bytes, .load address bytes ∈ commands →
        ∀ b c, R b c → R (Backed.load b address bytes) (Backed.load c address bytes)) →
      (s.performAll commands).1.map (Report.under view) = (t.performAll commands).1.map (Report.under view) ∧
      Session.Similar view R (s.performAll commands).2 (t.performAll commands).2 := by
  induction commands with
  | nil => exact fun h _ => ⟨rfl, h⟩
  | cons command rest ih =>
    intro s t h loads
    obtain ⟨report, next⟩ := h.perform faithful alike command fun address bytes here =>
      loads address bytes (here ▸ List.mem_cons_self)
    obtain ⟨reports, last⟩ := ih next fun address bytes member =>
      loads address bytes (List.mem_cons_of_mem command member)
    exact ⟨List.cons_eq_cons.mpr ⟨report, reports⟩, last⟩

end Session.Similar
end Nmos6502
