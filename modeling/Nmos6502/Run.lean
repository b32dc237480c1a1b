/-
# Running until the host says stop

A run executes instructions and takes each off the budget. When the budget is
spent the host is asked. Its answer and the request that waits meet, and the
winner decides: an NMI enters its handler, an IRQ enters its handler if I is
clear and is dropped if it is set, and without either the program goes on.
Before it goes on a period is added to the budget, so what was overshot is
carried over. An answer to stop ends the run at once; nothing is added, and a
request that waits is forgotten.

An NMI that was requested before the run is served before the next
instruction; a requested IRQ waits for the host to be asked.

The host is the list of its answers; a host with no answer left says stop. The
stretch between two questions ends because every instruction takes cycles off
the budget.

Key definitions: `Run`, `Run.turn`, `Run.untilPoll`, `Run.hear`, `Run.follow`,
`Machine.run`, `Machine.runNoting`.
Key theorems: `Run.budget_turn_lt`, `Run.untilPoll_eq`.
-/
import Nmos6502.Journal
import Nmos6502.Machine

namespace Nmos6502

/-- A run as far as it has come: the machine, the cycles so far, and what happened, newest
first. -/
structure Run (β : Type) where
  machine : Machine β
  cycles : Cycles
  journal : List Event

namespace Run

variable {β : Type}

/-- A run that begins. A halted machine runs again. -/
def begin (m : Machine β) : Run β where
  machine := if m.isHalted then { m with phase := .running } else m
  cycles := Cycles.zero
  journal := []

variable [Bus β]

/-! ### Between two questions -/

def execute (r : Run β) : Run β :=
  let ⟨m, total, journal⟩ := r
  let (what, m) := m.step
  { machine := m.spend what.cycles
    cycles := total + ⟨what.cycles⟩
    journal := .executed what :: journal }

def enter (kind : Interrupt) (r : Run β) : Run β :=
  let ⟨m, total, journal⟩ := r
  let returnTo := m.regs.pc
  let m := m.enter kind
  { machine := m.spend interruptCycles
    cycles := total + ⟨interruptCycles⟩
    journal := .entered kind returnTo m.regs.pc :: journal }

/-- Go on running with no request waiting. -/
def settle (r : Run β) : Run β :=
  { r with machine.phase := .running }

/-- Serve a waiting NMI, then execute an instruction. -/
def turn (r : Run β) : Run β :=
  if r.machine.phase = .pending .nmi then (r.settle.enter .nmi).execute else r.execute

theorem budget_execute_lt (r : Run β) (h : 0 < r.execute.machine.budget) :
    r.execute.machine.budget < r.machine.budget := by
  have two := r.machine.two_le_cycles_step
  have := r.machine.step.2.budget_spend r.machine.step.1.cycles h
  simp only [Machine.budget_step] at this
  show (r.machine.step.2.spend r.machine.step.1.cycles).budget < _
  omega

theorem budget_enter_le (kind : Interrupt) (r : Run β) (h : 0 < (r.enter kind).machine.budget) :
    (r.enter kind).machine.budget ≤ r.machine.budget := by
  have := (r.machine.enter kind).budget_spend interruptCycles h
  simp only [Machine.budget_enter] at this
  show ((r.machine.enter kind).spend interruptCycles).budget ≤ _
  omega

/-- A turn that leaves budget has spent some. -/
theorem budget_turn_lt (r : Run β) (h : 0 < r.turn.machine.budget) :
    r.turn.machine.budget < r.machine.budget := by
  unfold turn at h ⊢
  split at h
  · next pending =>
    rw [if_pos pending]
    have spent := (r.settle.enter .nmi).budget_execute_lt h
    have entered := budget_enter_le .nmi r.settle (Int.lt_trans h spent)
    exact Int.lt_of_lt_of_le spent entered
  · next other =>
    rw [if_neg other]
    exact r.budget_execute_lt h

/-- Take turns until the budget is spent. -/
def untilPoll (r : Run β) : Run β :=
  let next := r.turn
  if 0 < next.machine.budget then untilPoll next else next
termination_by r.machine.budget.toNat
decreasing_by
  have left : 0 < r.turn.machine.budget := ‹_›
  have spent := r.budget_turn_lt left
  omega

theorem untilPoll_eq (r : Run β) :
    r.untilPoll = if 0 < r.turn.machine.budget then r.turn.untilPoll else r.turn := by
  rw [untilPoll]

/-! ### The host -/

/-- Ask the host. The bus may take note of the answer. -/
def hear (note : Answer → β → β) (answer : Answer) (r : Run β) : Run β :=
  let ⟨m, total, journal⟩ := r
  { machine := { m with bus := note answer m.bus }
    cycles := total
    journal := .polled answer :: journal }

def drop (r : Run β) : Run β :=
  { r with journal := .dropped r.machine.regs.pc :: r.journal }

def serve (request : Option Interrupt) (r : Run β) : Run β :=
  match request with
  | none => r
  | some .nmi => r.enter .nmi
  | some .irq => if r.machine.regs.p.interruptDisable then r.drop else r.enter .irq

/-- Go on after an answer that does not stop the run: a new period, and the winner of the answer
and the request that waits. -/
def goOn (answer : Answer) (r : Run β) : Run β :=
  let request := Interrupt.stronger r.machine.phase.request? answer.interrupt?
  let r : Run β := { r with machine := r.machine.replenish }
  r.settle.serve request

def stop (r : Run β) : Run β :=
  let ⟨m, total, journal⟩ := r
  { machine := { m with phase := .halted }
    cycles := total
    journal := .stopped m.regs.pc total :: journal }

/-- Follow the host's answers to the end of the run. Gives the answers that were not asked for. -/
def follow (note : Answer → β → β) : List Answer → Run β → Run β × List Answer
  | [], r => ((r.untilPoll.hear note .stop).stop, [])
  | .stop :: rest, r => ((r.untilPoll.hear note .stop).stop, rest)
  | answer :: rest, r => follow note rest ((r.untilPoll.hear note answer).goOn answer)

end Run

namespace Machine

variable {β : Type} [Bus β]

/-- Run until the host says stop, on a bus that takes note of the answers. -/
def runNoting (note : Answer → β → β) (m : Machine β) (answers : List Answer) :
    Run β × List Answer :=
  (Run.begin m).follow note answers

def run (m : Machine β) (answers : List Answer) : Run β × List Answer :=
  m.runNoting (fun _ bus => bus) answers

end Machine
end Nmos6502
