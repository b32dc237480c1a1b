/-
# A board: memory with devices

Devices answer to ranges of addresses on the bus and change what an access does
there: a small RAM that appears many times, counters that count how often they
are read, latches that clear when read, and ROM.
-/
import Nmos6502.Memory

namespace Nmos6502

/-- What a device does to the accesses in its range. -/
inductive DeviceKind where
  /-- The first 2 KiB of memory repeat throughout the range. -/
  | repeated
  /-- A read gives the byte and then counts it up. -/
  | counter
  /-- A read gives the byte and then clears it. -/
  | clear
  /-- A write has no effect. -/
  | rom
  deriving DecidableEq, Repr

/-- A device and the range it answers to, both ends included. -/
structure Device where
  kind : DeviceKind
  first : Word
  last : Word
  deriving DecidableEq, Repr

structure Board where
  memory : Memory
  devices : List Device

namespace Board

def has (b : Board) (kind : DeviceKind) (address : Word) : Bool :=
  b.devices.any fun d => d.kind == kind && d.first ≤ address && address ≤ d.last

/-- The memory cell that an address on the bus reaches. -/
def cell (b : Board) (address : Word) : Word :=
  if b.has .repeated address then address &&& 0x07FF else address

/-- The byte a counter or latch leaves behind when `value` has been read; a latch has the last
word. -/
def afterRead (b : Board) (address : Word) (value : Byte) : Byte :=
  if b.has .clear address then 0
  else if b.has .counter address then value + 1
  else value

/-- Devices with a range answer to addresses on the bus; the byte they act on is in the cell the
address reaches. -/
instance : Bus Board where
  read b address :=
    let cell := b.cell address
    let value := b.memory.get cell
    let left := b.afterRead address value
    (value, if left = value then b else { b with memory := b.memory.set cell left })
  write b address value :=
    if b.has .rom address then b
    else { b with memory := b.memory.set (b.cell address) value }

end Board

/-! ### The memory behind a bus -/

/-- A bus that is backed by a memory, which can be looked at and loaded without an access. -/
class Backed (β : Type) where
  memory : β → Memory
  load : β → Word → List Byte → β

instance : Backed Memory where
  memory := id
  load := Memory.load

instance : Backed Board where
  memory b := b.memory
  load b address bs := { b with memory := b.memory.load address bs }

instance {β : Type} [Backed β] : Backed (Lent β) where
  memory bus := Backed.memory bus.owned
  load bus address bs := { owned := Backed.load bus.owned address bs }

instance {σ : Type} [Backed σ] : Backed (Callbacks σ) where
  memory bus := Backed.memory bus.state
  load bus address bs := { bus with state := Backed.load bus.state address bs }

end Nmos6502
