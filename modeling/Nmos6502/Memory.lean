/-
# Memory

A memory is a byte for each of the 65536 addresses, and as a bus it is plain
RAM: a read changes nothing, a write changes one byte. A block of bytes is
loaded upward from an address and wraps past $FFFF.
-/
import Nmos6502.Bus

namespace Nmos6502

/-- A byte for each address. -/
structure Memory where
  cells : Vector Byte 65536

namespace Memory

def get (m : Memory) (address : Word) : Byte :=
  m.cells[address.toNat]

def set (m : Memory) (address : Word) (value : Byte) : Memory :=
  { m with cells := m.cells.set address.toNat value }

def blank : Memory where
  cells := Vector.replicate 65536 0

def ofFn (f : Word → Byte) : Memory where
  cells := Vector.ofFn fun i => f (BitVec.ofFin i)

/-- Memory filled with a pattern: each byte is a combination of the halves of its address. -/
def pattern (lowFactor highFactor offset : Byte) : Memory :=
  ofFn fun address =>
    BitVec.ofNat 8 (address.low.toNat * lowFactor.toNat + address.high.toNat * highFactor.toNat +
      offset.toNat)

/-- Load bytes upward from an address, wrapping past the top. -/
def load (m : Memory) (address : Word) : List Byte → Memory
  | [] => m
  | b :: bs => (m.set address b).load (address + 1) bs

/-- The bytes from an address upward, wrapping past the top. -/
def bytes (m : Memory) (address : Word) : Nat → List Byte
  | 0 => []
  | n + 1 => m.get address :: m.bytes (address + 1) n

instance : Bus Memory where
  read m address := (m.get address, m)
  write := set

@[simp] theorem bus_read (m : Memory) (address : Word) :
    Bus.read m address = (m.get address, m) := rfl

@[simp] theorem bus_write (m : Memory) (address : Word) (value : Byte) :
    Bus.write m address value = m.set address value := rfl

/-! ### What each address holds -/

theorem ext_get {m n : Memory} (h : ∀ address, m.get address = n.get address) : m = n := by
  obtain ⟨cs⟩ := m
  obtain ⟨ds⟩ := n
  congr 1
  apply Vector.ext
  intro i hi
  exact h (BitVec.ofNatLT i hi)

theorem get_set (m : Memory) (address other : Word) (value : Byte) :
    (m.set address value).get other = if other = address then value else m.get other := by
  simp only [get, set, Vector.getElem_set]
  by_cases h : other = address
  · simp [h]
  · have : address.toNat ≠ other.toNat := fun e => h (BitVec.eq_of_toNat_eq e.symm)
    simp [h, this]

@[simp] theorem get_set_self (m : Memory) (address : Word) (value : Byte) :
    (m.set address value).get address = value := by
  simp [get_set]

@[simp] theorem get_blank (address : Word) : blank.get address = 0 := by
  simp [get, blank]

@[simp] theorem get_ofFn (f : Word → Byte) (address : Word) : (ofFn f).get address = f address := by
  simp [get, ofFn, Vector.getElem_ofFn]

/-- To write back what is there changes nothing. -/
theorem set_get (m : Memory) (address : Word) : m.set address (m.get address) = m := by
  apply ext_get
  intro other
  rw [get_set]
  split
  · next h => rw [h]
  · rfl

/-! ### Comparing two memories -/

/-- A run of consecutive addresses, by its first address and the bytes it holds. -/
abbrev Block := Nat × List Byte

/-- Put a byte in front of the blocks above it; it joins the first block if that starts at the next
address. -/
def Block.prepend (address : Nat) (value : Byte) : List Block → List Block
  | (start, bs) :: rest =>
    if start = address + 1 then (address, value :: bs) :: rest
    else (address, [value]) :: (start, bs) :: rest
  | [] => [(address, [value])]

/-- Where two memories differ, what the second holds: the longest blocks of consecutive addresses,
in ascending order. A block does not wrap past the top. -/
def changes (before after : Memory) : List Block :=
  Nat.foldRev 65536
    (fun address h above =>
      let w : Word := BitVec.ofNatLT address h
      if before.get w = after.get w then above
      else Block.prepend address (after.get w) above)
    []

end Memory
end Nmos6502
