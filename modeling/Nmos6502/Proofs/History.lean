/-
# Histories of commands

A session is driven by one command after another. Here is what each command
does to the scheduler of its machine: a run uses up answers and budget, a reset
starts afresh, and every other command leaves the budget and the settings as
they are, asks the host nothing and returns no cycles (`Session.Aside`).
-/
import Nmos6502.Proofs.Account
import Nmos6502.Session

namespace Nmos6502

/-! ### Stepping leaves the scheduler alone -/

namespace Walk

variable {β : Type}

theorem refills_events (w : Walk β) : Journal.refills w.events = 0 := by
  unfold events
  induction w.steps with
  | nil => rfl
  | cons step rest ih =>
    rw [List.map_cons, Journal.refills_cons_none rfl]
    exact ih

variable [Bus β]

theorem budget_times : ∀ (n : Nat) (w : Walk β), (times n w).machine.budget = w.machine.budget
  | 0, _ => rfl
  | n + 1, w => (budget_times n w.next).trans rfl

theorem settings_times : ∀ (n : Nat) (w : Walk β), (times n w).machine.settings = w.machine.settings
  | 0, _ => rfl
  | n + 1, w => (settings_times n w.next).trans rfl

theorem phase_times : ∀ (n : Nat) (w : Walk β), (times n w).machine.phase = w.machine.phase
  | 0, _ => rfl
  | n + 1, w => (phase_times n w.next).trans rfl

/-- Stepping until the program traps itself is stepping some number of times. -/
theorem untilTrapped_eq_times : ∀ (limit : Nat) (w : Walk β), ∃ n, (untilTrapped limit w).2 = times n w
  | 0, _ => ⟨0, rfl⟩
  | limit + 1, w => by
    unfold untilTrapped
    simp only
    split
    · exact ⟨1, rfl⟩
    · obtain ⟨n, eq⟩ := untilTrapped_eq_times limit w.next
      exact ⟨n + 1, eq⟩

end Walk

/-! ### Reports -/

namespace Report

/-- The cycles a run returned. Other commands return none. -/
def ran (report : Report) : Nat :=
  match report.reply with
  | .ran total => total.count
  | _ => 0

theorem ran_of_reply {report : Report} {total : Cycles} (h : report.reply = .ran total) :
    report.ran = total.count := by
  unfold ran
  rw [h]

def refills (report : Report) : Nat :=
  Journal.refills report.events

def ranAll : List Report → Nat
  | [] => 0
  | report :: rest => report.ran + ranAll rest

def refillsAll : List Report → Nat
  | [] => 0
  | report :: rest => report.refills + refillsAll rest

end Report

namespace Session

variable {β : Type} [Bus β] [Backed β]

/-- Do what several commands say, one after the other. -/
def performAll : List Command → Session β → List Report × Session β
  | [], s => ([], s)
  | command :: rest, s =>
    let (report, s) := s.perform command
    let (reports, s) := performAll rest s
    (report :: reports, s)

/-! ### One command -/

theorem perform_run (s : Session β) :
    (s.perform .run).1.reply = .ran (s.machine.runNoting (Traced.notePoll s.note) s.answers).1.cycles ∧
    (s.perform .run).1.events = (s.machine.runNoting (Traced.notePoll s.note) s.answers).1.journal.reverse ∧
    (s.perform .run).2.machine = (s.machine.runNoting (Traced.notePoll s.note) s.answers).1.machine ∧
    (s.perform .run).2.answers = (s.machine.runNoting (Traced.notePoll s.note) s.answers).2 :=
  ⟨rfl, rfl, rfl, rfl⟩

theorem machine_stepUntilTrapped (s : Session β) (limit : Nat) :
    ∃ n, (s.perform (.stepUntilTrapped limit)).2.machine = ((Walk.begin s.machine).times n).machine := by
  obtain ⟨n, eq⟩ := Walk.untilTrapped_eq_times limit (Walk.begin s.machine)
  exact ⟨n, congrArg Walk.machine eq⟩

/-- What a command that is neither a run nor a reset leaves alone. -/
structure Aside (s s' : Session β) (report : Report) : Prop where
  budget : s'.machine.budget = s.machine.budget
  settings : s'.machine.settings = s.machine.settings
  notRun : ∀ total, report.reply ≠ .ran total
  refills : report.refills = 0

theorem perform_aside (s : Session β) {command : Command} (notRun : command ≠ .run)
    (notReset : command ≠ .reset) : Aside s (s.perform command).2 (s.perform command).1 := by
  cases command with
  | run => exact absurd rfl notRun
  | reset => exact absurd rfl notReset
  | step count =>
    exact ⟨Walk.budget_times count _, Walk.settings_times count _, fun _ => nofun, Walk.refills_events _⟩
  | stepUntilTrapped limit =>
    obtain ⟨n, machine⟩ := s.machine_stepUntilTrapped limit
    refine ⟨?_, ?_, fun _ => nofun, Walk.refills_events _⟩
    · rw [machine, Walk.budget_times]
      rfl
    · rw [machine, Walk.settings_times]
      rfl
  | request kind =>
    obtain ⟨_, eq⟩ := s.machine.request_eq kind
    have machine : (s.perform (.request kind)).2.machine = _ := eq
    refine ⟨?_, ?_, fun _ => nofun, rfl⟩
    · rw [machine]
    · rw [machine]
  | assign what => exact ⟨rfl, rfl, fun _ => nofun, rfl⟩
  | setFlags mask on => exact ⟨rfl, rfl, fun _ => nofun, rfl⟩
  | readBus address => exact ⟨rfl, rfl, fun _ => nofun, rfl⟩
  | writeBus address value => exact ⟨rfl, rfl, fun _ => nofun, rfl⟩
  | load address bytes => exact ⟨rfl, rfl, fun _ => nofun, rfl⟩
  | prepare more => exact ⟨rfl, rfl, fun _ => nofun, rfl⟩

/-- What a command does to a machine: it resets it, puts a request down, steps it, runs it, sets its
registers, or touches its bus. -/
theorem machine_perform {P : Machine (Traced β) → Prop} (s : Session β) {command : Command}
    (before : P s.machine) (reset : P s.machine.reset) (request : ∀ kind, P (s.machine.request kind))
    (step : ∀ m, P m → P m.step.2)
    (run : P (s.machine.runNoting (Traced.notePoll s.note) s.answers).1.machine)
    (assign : ∀ what, command = .assign what → P { s.machine with regs := s.machine.regs.assign what })
    (setFlags : ∀ mask on, command = .setFlags mask on →
      P { s.machine with regs := { s.machine.regs with p := s.machine.regs.p.setTo mask on } })
    (touch : ∀ bus, P { s.machine with bus := bus }) : P (s.perform command).2.machine := by
  have times (n : Nat) : ∀ w : Walk (Traced β), P w.machine → P (w.times n).machine := by
    induction n with
    | zero => exact fun _ h => h
    | succ n ih => exact fun w h => ih w.next (step w.machine h)
  cases command with
  | reset => exact reset
  | request kind => exact request kind
  | step count => exact times count (Walk.begin s.machine) before
  | stepUntilTrapped limit =>
    obtain ⟨n, machine⟩ := s.machine_stepUntilTrapped limit
    rw [machine]
    exact times n (Walk.begin s.machine) before
  | run => exact run
  | assign what => exact assign what rfl
  | setFlags mask on => exact setFlags mask on rfl
  | readBus address => exact touch (Bus.read s.machine.bus address).2
  | writeBus address value => exact touch (Bus.write s.machine.bus address value)
  | load address bytes => exact touch ⟨Backed.load s.machine.bus.bus address bytes, s.machine.bus.record⟩
  | prepare more => exact before

/-- What every one of some commands keeps, all of them keep. -/
theorem machine_performAll {P : Machine (Traced β) → Prop} (commands : List Command)
    (kept : ∀ s : Session β, ∀ command ∈ commands, P s.machine → P (s.perform command).2.machine) :
    ∀ s : Session β, P s.machine → P (s.performAll commands).2.machine := by
  induction commands with
  | nil => exact fun _ h => h
  | cons command rest ih =>
    intro s h
    exact ih (fun q later member => kept q later (List.mem_cons_of_mem command member)) _
      (kept s command List.mem_cons_self h)

/-- Some commands decide: what each makes of the machine does not depend on what was before. The others
keep what the last of these has made of it. -/
theorem machine_performAll_last (decides : Command → Bool)
    {P : Option Command → Machine (Traced β) → Prop}
    (decided : ∀ (s : Session β) (command : Command), decides command = true →
      P (some command) (s.perform command).2.machine)
    (kept : ∀ (s : Session β) (command : Command) (last : Option Command), decides command = false →
      P last s.machine → P last (s.perform command).2.machine) (commands : List Command) :
    ∀ (last : Option Command) (s : Session β), P last s.machine →
      P ((commands.filter decides).getLast?.or last) (s.performAll commands).2.machine := by
  induction commands with
  | nil => exact fun _ _ h => h
  | cons command rest ih =>
    intro last s h
    cases deciding : decides command with
    | false =>
      rw [List.filter_cons_of_neg (Bool.eq_false_iff.mp deciding)]
      exact ih last (s.perform command).2 (kept s command last deciding h)
    | true =>
      rw [List.filter_cons_of_pos deciding, List.getLast?_cons, Option.some_or, ← Option.or_some]
      exact ih (some command) (s.perform command).2 (decided s command deciding)

/-- Only a run returns cycles of a run. -/
theorem eq_run_of_reply (s : Session β) {command : Command} {total : Cycles}
    (reply : (s.perform command).1.reply = .ran total) : command = .run := by
  by_cases isRun : command = .run
  · exact isRun
  · by_cases isReset : command = .reset
    · subst isReset
      nomatch reply
    · exact absurd reply ((s.perform_aside isRun isReset).notRun total)

end Session
end Nmos6502
