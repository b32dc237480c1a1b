/-
# A bus that keeps a record

`Traced β` is the bus `β` with a record of what was seen on it: every access
with the byte it carried, and every time the host was asked.
-/
import Nmos6502.Bus
import Nmos6502.Interrupt

namespace Nmos6502

/-- Something seen on a bus: an access, or that the host was asked meanwhile. -/
inductive Activity where
  | read (address : Word) (value : Byte)
  | write (address : Word) (value : Byte)
  | polled (answer : Answer)
  deriving DecidableEq, Repr

/-- A bus with a record of what was seen on it, newest first. -/
structure Traced (β : Type) where
  bus : β
  record : List Activity

namespace Traced

variable {β : Type}

def fresh (bus : β) : Traced β where
  bus := bus
  record := []

/-- The bus takes note of an answer in its own way, and it is put down that the host was asked. What the host
does to memory that it shares with the bus is no access. -/
def notePoll (note : Answer → β → β) (answer : Answer) (t : Traced β) : Traced β where
  bus := note answer t.bus
  record := .polled answer :: t.record

instance [Bus β] : Bus (Traced β) where
  read t address :=
    let ⟨bus, record⟩ := t
    let (value, bus) := Bus.read bus address
    (value, { bus := bus, record := .read address value :: record })
  write t address value :=
    let ⟨bus, record⟩ := t
    { bus := Bus.write bus address value, record := .write address value :: record }

/-- The record in order of time, and the bus with an empty record. -/
def collect (t : Traced β) : List Activity × Traced β :=
  (t.record.reverse, fresh t.bus)

end Traced
end Nmos6502
