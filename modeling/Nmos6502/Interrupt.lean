/-
# Interrupt requests and the host's answers

Two lines ask the processor for service: IRQ, which waits while I is set, and
NMI, which does not. When requests meet, the NMI wins, and a request is never
forgotten for having met another. The host of a running machine is asked from
time to time and gives an `Answer`.
-/
import Nmos6502.Word

namespace Nmos6502

/-- A line that interrupts the processor. -/
inductive Interrupt where
  /-- Maskable: waits while I is set. -/
  | irq
  /-- Not maskable: always served. -/
  | nmi
  deriving DecidableEq, Repr

/-- Where the handler of an NMI is found. -/
def nmiVector : Word := 0xFFFA

/-- Where the program starts after a reset. -/
def resetVector : Word := 0xFFFC

/-- Where the handler of IRQ and BRK is found. -/
def irqVector : Word := 0xFFFE

namespace Interrupt

/-- The address at which the handler's address is stored. -/
def vector : Interrupt → Word
  | .irq => irqVector
  | .nmi => nmiVector

def text : Interrupt → String
  | .irq => "Irq"
  | .nmi => "Nmi"

/-- The request that remains when two meet: an NMI if there is one, else an IRQ if there is one. -/
def stronger : Option Interrupt → Option Interrupt → Option Interrupt
  | some .nmi, _ => some .nmi
  | _, some .nmi => some .nmi
  | some .irq, _ => some .irq
  | none, incoming => incoming

theorem stronger_comm (i j : Option Interrupt) : stronger i j = stronger j i := by
  rcases i with _ | _ | _ <;> rcases j with _ | _ | _ <;> rfl

theorem stronger_assoc (i j k : Option Interrupt) : stronger (stronger i j) k = stronger i (stronger j k) := by
  rcases i with _ | _ | _ <;> rcases j with _ | _ | _ <;> rcases k with _ | _ | _ <;> rfl

theorem stronger_eq_none_iff (i j : Option Interrupt) : stronger i j = none ↔ i = none ∧ j = none := by
  rcases i with _ | _ | _ <;> rcases j with _ | _ | _ <;> simp [stronger]

end Interrupt

/-- What the host answers when it is asked. -/
inductive Answer where
  /-- Keep running. -/
  | proceed
  /-- Raise an IRQ now. -/
  | irq
  /-- Raise an NMI now. -/
  | nmi
  /-- Stop. -/
  | stop
  deriving DecidableEq, Repr

def Answer.interrupt? : Answer → Option Interrupt
  | .irq => some .irq
  | .nmi => some .nmi
  | .proceed | .stop => none

/-- Whether a machine runs, has a request waiting, or has been stopped by its host. -/
inductive Phase where
  | running
  | pending (kind : Interrupt)
  | halted
  deriving DecidableEq, Repr

namespace Phase

def request? : Phase → Option Interrupt
  | .pending kind => some kind
  | .running | .halted => none

theorem request?_eq_some_iff {phase : Phase} {kind : Interrupt} :
    phase.request? = some kind ↔ phase = .pending kind := by
  cases phase <;> simp [request?]

def text : Phase → String
  | .running => "running"
  | .pending .irq => "irq pending"
  | .pending .nmi => "nmi pending"
  | .halted => "halted"

end Phase
end Nmos6502
