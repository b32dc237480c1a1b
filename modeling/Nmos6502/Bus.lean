/-
# The bus

The processor owns no memory. All it touches lies behind a bus, which answers a
read with a byte and takes a written byte, and may change with either. A bus is
a state and two pure functions on it, so any memory map, with devices that
react to being read, is a bus.

Two buses are built from other things: a bus on loan (`Lent`), and a pair of
functions over a state they share (`Callbacks`).
-/
import Nmos6502.Word

namespace Nmos6502

/-- What a processor needs of the world: an answer to every read, and an effect of every write.
Both give the bus as it is afterwards. -/
class Bus (β : Type) where
  read : β → Word → Byte × β
  write : β → Word → Byte → β

/-! ### A bus on loan -/

/-- A bus lent to a machine. The machine drives it, and its owner finds in `owned` what the
machine has made of it. -/
structure Lent (β : Type) where
  owned : β

instance {β : Type} [Bus β] : Bus (Lent β) where
  read bus address :=
    let (value, owned) := Bus.read bus.owned address
    (value, { owned := owned })
  write bus address value := { owned := Bus.write bus.owned address value }

/-! ### Two functions as a bus -/

/-- A bus given by what a read and a write do to a state they share. -/
structure Callbacks (σ : Type) where
  onRead : σ → Word → Byte × σ
  onWrite : σ → Word → Byte → σ
  state : σ

instance {σ : Type} : Bus (Callbacks σ) where
  read bus address :=
    let ⟨onRead, onWrite, state⟩ := bus
    let (value, state) := onRead state address
    (value, { onRead := onRead, onWrite := onWrite, state := state })
  write bus address value :=
    let ⟨onRead, onWrite, state⟩ := bus
    { onRead := onRead, onWrite := onWrite, state := onWrite state address value }

def Callbacks.over {β : Type} [Bus β] (bus : β) : Callbacks β where
  onRead := Bus.read
  onWrite := Bus.write
  state := bus

end Nmos6502
