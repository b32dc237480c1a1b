/-
# When a machine is halted

A machine is halted when its host has stopped a run, until it runs again or is
reset. But a phase has room for one thing only: a request that is put down on a
halted machine takes the place of the halt, and from then on nothing tells that
the machine has been stopped. So of a machine's history the last run, reset or
request decides (`Session.phase_performAll`); steps, and all that is done to
registers and bus, do not count (`Session.phase_perform`).
-/
import Nmos6502.Proofs.Course
import Nmos6502.Proofs.History
import Nmos6502.Rom

namespace Nmos6502

/-! ### Commands for the scheduler -/

namespace Command

def schedules : Command → Bool
  | .run | .reset | .request _ => true
  | .step _ | .stepUntilTrapped _ | .assign _ | .setFlags _ _ | .readBus _ | .writeBus _ _ | .load _ _
  | .prepare _ => false

def restarts : Command → Bool
  | .run | .reset => true
  | .request _ | .step _ | .stepUntilTrapped _ | .assign _ | .setFlags _ _ | .readBus _ | .writeBus _ _
  | .load _ _ | .prepare _ => false

theorem schedules_of_restarts {command : Command} (h : command.restarts = true) :
    command.schedules = true := by
  cases command with
  | run | reset => rfl
  | request | step | stepUntilTrapped | assign | setFlags | readBus | writeBus | load | prepare => nomatch h

/-- The last run or reset is found among the commands for the scheduler. -/
theorem filter_restarts (commands : List Command) :
    (commands.filter schedules).filter restarts = commands.filter restarts := by
  rw [List.filter_filter]
  refine List.filter_congr fun command _ => ?_
  cases h : command.restarts with
  | false => rfl
  | true => exact schedules_of_restarts h

theorem last_restarts {commands : List Command} {command : Command}
    (last : (commands.filter schedules).getLast? = some command) (h : command.restarts = true) :
    (commands.filter restarts).getLast? = some command := by
  obtain ⟨earlier, split⟩ := List.getLast?_eq_some_iff.mp last
  rw [← filter_restarts, split, List.filter_append, List.filter_cons_of_pos h]
  exact List.getLast?_concat

/-- If the last run or reset is a run and no request has come after it, the run is the last command for the
scheduler. -/
theorem last_of_restarts {commands : List Command}
    (run : (commands.filter restarts).getLast? = some .run)
    (kept : ∀ kind, (commands.filter schedules).getLast? ≠ some (.request kind)) :
    (commands.filter schedules).getLast? = some .run := by
  cases last : (commands.filter schedules).getLast? with
  | none =>
    rw [← filter_restarts, List.getLast?_eq_none_iff.mp last] at run
    nomatch run
  | some command =>
    have schedules : command.schedules = true :=
      (List.mem_filter.mp (List.mem_of_getLast? last)).2
    cases command with
    | run => rfl
    | reset => nomatch (last_restarts last rfl).symm.trans run
    | request kind => exact absurd last (kept kind)
    | step | stepUntilTrapped | assign | setFlags | readBus | writeBus | load | prepare => nomatch schedules

end Command

/-- The phase in which a machine is left when this was the last command for its scheduler, if there was
one. -/
def Phase.Left : Option Command → Phase → Prop
  | some .run, phase => phase = .halted
  | some (.request _), phase => ∃ waiting, phase = .pending waiting
  | _, phase => phase = .running

theorem Phase.Left.halted_iff {last : Option Command} {phase : Phase} (left : Left last phase) :
    (phase == .halted) = true ↔ last = some .run := by
  rw [beq_iff_eq]
  cases last with
  | none =>
    cases left
    exact ⟨nofun, nofun⟩
  | some command =>
    cases command with
    | run => exact ⟨fun _ => rfl, fun _ => left⟩
    | request kind =>
      obtain ⟨_, rfl⟩ := left
      exact ⟨nofun, nofun⟩
    | reset | step | stepUntilTrapped | assign | setFlags | readBus | writeBus | load | prepare =>
      cases left
      exact ⟨nofun, nofun⟩

/-! ### Histories -/

namespace Session

variable {β : Type} [Bus β] [Backed β]

/-- Only a run, a reset and a request change the phase. -/
theorem phase_perform (s : Session β) {command : Command} (aside : command.schedules = false) :
    (s.perform command).2.machine.phase = s.machine.phase := by
  cases command with
  | run | reset | request => nomatch aside
  | step count => exact Walk.phase_times count (Walk.begin s.machine)
  | stepUntilTrapped limit =>
    obtain ⟨n, machine⟩ := s.machine_stepUntilTrapped limit
    rw [machine]
    exact Walk.phase_times n (Walk.begin s.machine)
  | assign | setFlags | readBus | writeBus | load | prepare => rfl

/-- A run ends because its host has said stop, and leaves the machine halted. -/
theorem perform_run_stops (s : Session β) :
    let after := (s.perform .run).2.machine
    after.phase = .halted ∧
    ∃ earlier total, (s.perform .run).1.reply = .ran total ∧
      (s.perform .run).1.events = earlier ++ [.polled .stop, .stopped after.regs.pc total] := by
  intro after
  obtain ⟨p, -, eq⟩ := Run.follow_eq_close (Traced.notePoll s.note) s.answers (Run.begin s.machine)
  have closed : (s.machine.runNoting (Traced.notePoll s.note) s.answers).1 =
      p.close (Traced.notePoll s.note) := eq
  obtain ⟨reply, events, machine, -⟩ := s.perform_run
  rw [closed] at reply events machine
  have told : (p.close (Traced.notePoll s.note)).journal.reverse =
      p.journal.reverse ++ [.polled .stop, .stopped p.machine.regs.pc p.cycles] := by
    show (_ :: _ :: p.journal).reverse = _
    rw [List.reverse_cons, List.reverse_cons, List.append_assoc]
    rfl
  refine ⟨?_, p.journal.reverse, p.cycles, reply, ?_⟩
  · rw [show after = _ from machine]
    rfl
  · rw [events, told, show after = _ from machine]
    rfl

theorem phase_performAll {settings : Settings} {bus : Traced β} {s : Session β}
    (made : Machine.make settings bus = .ok s.machine) (commands : List Command) :
    Phase.Left (commands.filter Command.schedules).getLast? (s.performAll commands).2.machine.phase := by
  have start : s.machine.phase = .running := by
    obtain ⟨_, eq⟩ := Machine.of_make made
    rw [eq]
  have decided := machine_performAll_last (β := β) Command.schedules
    (P := fun last m => Phase.Left last m.phase) ?_ ?_ commands none s start
  · rw [Option.or_none] at decided
    exact decided
  · intro s command schedules
    cases command with
    | run => exact s.perform_run_stops.1
    | reset => exact rfl
    | request kind =>
      obtain ⟨waiting, eq⟩ := s.machine.request_eq kind
      exact ⟨waiting, congrArg Machine.phase eq⟩
    | step | stepUntilTrapped | assign | setFlags | readBus | writeBus | load | prepare => nomatch schedules
  · intro s command last aside left
    rw [s.phase_perform aside]
    exact left

/-- **When a machine is halted.** A machine has been made and then driven from outside by any commands. It is
halted exactly if the last run, reset or request among them is a run. So whether the last run or reset is
a run can be told from it unless a request has been put down since: then that request, or a stronger one it
has met, waits, and the machine is no longer halted. No other command makes a difference, and every run
ends because its host has said stop, and halted. -/
theorem halted_by_history {settings : Settings} {bus : Traced β} {s : Session β}
    (made : Machine.make settings bus = .ok s.machine) (commands : List Command) :
    let after := (s.performAll commands).2
    let last := (commands.filter Command.schedules).getLast?
    let restarted := (commands.filter Command.restarts).getLast?
    ((restarted = some .run → ∀ kind, last ≠ some (.request kind)) →
      (after.machine.isHalted = true ↔ restarted = some .run)) ∧
    (after.machine.isHalted = true ↔ last = some .run) ∧
    (∀ kind, last = some (.request kind) → ∃ waiting, after.machine.phase = .pending waiting) ∧
    (∀ command : Command, command.schedules = false →
      (after.perform command).2.machine.isHalted = after.machine.isHalted) ∧
    let next := (after.perform .run).2.machine
    next.isHalted = true ∧
    ∃ earlier total, (after.perform .run).1.reply = .ran total ∧
      (after.perform .run).1.events = earlier ++ [.polled .stop, .stopped next.regs.pc total] := by
  intro after last restarted
  have left : Phase.Left last after.machine.phase := phase_performAll made commands
  obtain ⟨halted, told⟩ := after.perform_run_stops
  refine ⟨fun kept => ⟨fun isHalted => ?_, fun run => ?_⟩, left.halted_iff, fun kind is => ?_,
    fun command aside => ?_, beq_iff_eq.mpr halted, told⟩
  · exact Command.last_restarts (left.halted_iff.mp isHalted) rfl
  · exact left.halted_iff.mpr (Command.last_of_restarts run (kept run))
  · rw [is] at left
    exact left
  · exact congrArg (· == Phase.halted) (after.phase_perform aside)

/-- Runs, a request on the halted machine, a run that serves it, and much else that does not count. -/
theorem halted_by_history_serves :
    let s : Session Rom :=
      { machine :=
          { settings := ⟨⟨1000000⟩, 4⟩, accepted := by decide, regs := .powerOn
            bus := .fresh (.uniform 0xEA), phase := .running, budget := 4 }
        answers := [.proceed, .stop, .irq]
        polls := 0 }
    let commands : List Command :=
      [.step 1, .run, .request .nmi, .reset, .request .irq, .run, .assign (.pc 0x0200), .step 3,
        .setFlags 0xFF true]
    Machine.make ⟨⟨1000000⟩, 4⟩ (Traced.fresh (Rom.uniform 0xEA)) = .ok s.machine ∧
    (commands.filter Command.restarts).getLast? = some .run ∧
    (∀ kind, (commands.filter Command.schedules).getLast? ≠ some (.request kind)) ∧
    (s.performAll commands).2.machine.isHalted = true := by
  intro s commands
  have made : Machine.make ⟨⟨1000000⟩, 4⟩ (Traced.fresh (Rom.uniform 0xEA)) = .ok s.machine := rfl
  have run : (commands.filter Command.restarts).getLast? = some .run := by decide
  have last : (commands.filter Command.schedules).getLast? = some .run := by decide
  have kept : ∀ kind, (commands.filter Command.schedules).getLast? ≠ some (.request kind) := by
    rw [last]
    exact fun _ => nofun
  exact ⟨made, run, kept, ((halted_by_history made commands).1 fun _ => kept).mpr run⟩

/-- The host has stopped the run, the machine has not run since, and yet it is not halted: an IRQ has been
requested. -/
theorem request_hides_halt :
    let s : Session Rom :=
      { machine :=
          { settings := ⟨⟨1000000⟩, 4⟩, accepted := by decide, regs := .powerOn
            bus := .fresh (.uniform 0xEA), phase := .running, budget := 4 }
        answers := [.stop]
        polls := 0 }
    let commands : List Command := [.run, .request .irq]
    Machine.make ⟨⟨1000000⟩, 4⟩ (Traced.fresh (Rom.uniform 0xEA)) = .ok s.machine ∧
    (commands.filter Command.restarts).getLast? = some .run ∧
    (s.performAll [.run]).2.machine.isHalted = true ∧
    (s.performAll commands).2.machine.isHalted = false ∧
    ¬ ((s.performAll commands).2.machine.isHalted = true ↔
      (commands.filter Command.restarts).getLast? = some .run) := by
  intro s commands
  have run : (commands.filter Command.restarts).getLast? = some .run := by decide
  have hidden : (s.performAll commands).2.machine.isHalted = false := by decide +kernel
  refine ⟨rfl, run, by decide +kernel, hidden, fun told => ?_⟩
  have halted := told.mpr run
  rw [hidden] at halted
  nomatch halted

end Session
end Nmos6502
