/-
# Stepping through a program

Debuggers and test programs step a machine without its scheduler: a number of
instructions, or until the program traps itself in an instruction that jumps to
itself.
-/
import Nmos6502.Journal
import Nmos6502.Machine

namespace Nmos6502

structure Step where
  executed : Executed
  regs : Registers
  deriving DecidableEq, Repr

/-- A machine that has been stepped, and the steps, newest first. -/
structure Walk (β : Type) where
  machine : Machine β
  taken : List Step

namespace Walk

variable {β : Type}

def begin (m : Machine β) : Walk β where
  machine := m
  taken := []

def steps (w : Walk β) : List Step :=
  w.taken.reverse

def cycles (w : Walk β) : Nat :=
  w.taken.foldr (fun s rest => s.executed.cycles + rest) 0

def events (w : Walk β) : List Event :=
  w.steps.map fun s => .executed s.executed

variable [Bus β]

def next (w : Walk β) : Walk β :=
  let ⟨m, taken⟩ := w
  let (executed, m) := m.step
  { machine := m, taken := { executed := executed, regs := m.regs } :: taken }

def times : Nat → Walk β → Walk β
  | 0, w => w
  | n + 1, w => times n w.next

/-- Step until an instruction leaves PC where it was, at most so many times. Tells whether one did. -/
def untilTrapped : Nat → Walk β → Bool × Walk β
  | 0, w => (false, w)
  | n + 1, w =>
    let before := w.machine.regs.pc
    let w := w.next
    if w.machine.regs.pc = before then (true, w) else untilTrapped n w

end Walk
end Nmos6502
