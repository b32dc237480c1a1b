/-
# The register file

A, X and Y hold bytes, S the next free place on the stack page, PC the address
of the next byte of the program, P the status flags. A push writes where S
points and steps S down; a pull steps S up and reads where it then points. S is
a byte, so the stack wraps on its own page.
-/
import Nmos6502.Status

namespace Nmos6502

structure Registers where
  a : Byte
  x : Byte
  y : Byte
  s : Byte
  pc : Word
  p : Status
  deriving DecidableEq, Repr

namespace Registers

/-- The registers at power-on. S is $FD because reset runs three pushes from $00 without writing. -/
def powerOn : Registers where
  a := 0
  x := 0
  y := 0
  s := 0xFD
  pc := 0
  p := Status.powerOn

/-- The address a push writes, and the registers after it. -/
def pushSlot (r : Registers) : Word × Registers :=
  (stackPage r.s, { r with s := r.s - 1 })

/-- The address a pull reads, and the registers after it. -/
def pullSlot (r : Registers) : Word × Registers :=
  (stackPage (r.s + 1), { r with s := r.s + 1 })

/-- A pull right after a push reads the slot that was written. -/
theorem pullSlot_pushSlot (r : Registers) : r.pushSlot.2.pullSlot = (r.pushSlot.1, r) := by
  simp only [pushSlot, pullSlot, BitVec.sub_add_cancel]

theorem pushSlot_pullSlot (r : Registers) : r.pullSlot.2.pushSlot = (r.pullSlot.1, r) := by
  simp only [pushSlot, pullSlot, BitVec.add_sub_cancel]

end Registers
end Nmos6502
