/-
# The status register

P holds the flags N V R B D I Z C, from bit 7 down to bit 0. Two of its bits
are no state of the chip: R reads as one, and B exists only in a pushed copy of
P, set by BRK and PHP and clear when an interrupt pushes it. The register is
kept as eight named flags; `Status.toByte` and `Status.ofByte` are its byte
view, and they undo each other.
-/
import Nmos6502.Word

namespace Nmos6502

/-- A bit of the status register. -/
inductive Flag where
  | carry
  | zero
  | interruptDisable
  | decimal
  | breakMark
  | reserved
  | overflow
  | negative
  deriving DecidableEq, Repr

def Flag.mask : Flag → Byte
  | .carry => 0x01
  | .zero => 0x02
  | .interruptDisable => 0x04
  | .decimal => 0x08
  | .breakMark => 0x10
  | .reserved => 0x20
  | .overflow => 0x40
  | .negative => 0x80

/-- The status register, flag by flag. -/
structure Status where
  carry : Bool
  zero : Bool
  interruptDisable : Bool
  decimal : Bool
  breakMark : Bool
  reserved : Bool
  overflow : Bool
  negative : Bool
  deriving DecidableEq, Repr

namespace Status

/-! ### The byte view -/

def toByte (s : Status) : Byte :=
  BitVec.ofBoolListLE
    [s.carry, s.zero, s.interruptDisable, s.decimal, s.breakMark, s.reserved, s.overflow, s.negative]

/-- The register whose byte view is `b`. -/
def ofByte (b : Byte) : Status where
  carry := b.getLsbD 0
  zero := b.getLsbD 1
  interruptDisable := b.getLsbD 2
  decimal := b.getLsbD 3
  breakMark := b.getLsbD 4
  reserved := b.getLsbD 5
  overflow := b.getLsbD 6
  negative := b.getLsbD 7

@[simp] theorem ofByte_toByte (s : Status) : ofByte s.toByte = s := by
  simp only [ofByte, toByte, BitVec.getLsbD_ofBoolListLE]
  rfl

@[simp] theorem toByte_ofByte (b : Byte) : (ofByte b).toByte = b := by
  revert b
  decide

/-! ### Values -/

/-- The register after power-on and reset: I and R. -/
def powerOn : Status :=
  { ofByte 0 with interruptDisable := true, reserved := true }

/-- The register loaded from outside: R is forced on. -/
def loaded (b : Byte) : Status :=
  { ofByte b with reserved := true }

/-- The register pulled from the stack by PLP and RTI: R is forced on, and B does not exist in the
register. -/
def pulled (b : Byte) : Status :=
  { ofByte b with reserved := true, breakMark := false }

/-- The byte seen from outside: R reads as one. -/
def visible (s : Status) : Byte :=
  { s with reserved := true }.toByte

/-- The byte that BRK and PHP push: B is set. -/
def pushedByBreak (s : Status) : Byte :=
  { s with reserved := true, breakMark := true }.toByte

/-- The byte that an IRQ or NMI pushes: B is clear. -/
def pushedByInterrupt (s : Status) : Byte :=
  { s with reserved := true, breakMark := false }.toByte

/-! ### Flags by name and by mask -/

def get (s : Status) : Flag → Bool
  | .carry => s.carry
  | .zero => s.zero
  | .interruptDisable => s.interruptDisable
  | .decimal => s.decimal
  | .breakMark => s.breakMark
  | .reserved => s.reserved
  | .overflow => s.overflow
  | .negative => s.negative

def any (s : Status) (mask : Byte) : Bool :=
  s.toByte &&& mask != 0

theorem any_mask (s : Status) (f : Flag) : s.any f.mask = s.get f := by
  obtain ⟨c, z, i, d, b, r, v, n⟩ := s
  revert c z i d b r v n
  cases f <;> decide

def all (s : Status) (mask : Byte) : Bool :=
  s.toByte &&& mask == mask

def set (s : Status) (mask : Byte) : Status :=
  ofByte (s.toByte ||| mask)

def clear (s : Status) (mask : Byte) : Status :=
  ofByte (s.toByte &&& ~~~mask)

def setTo (s : Status) (mask : Byte) (on : Bool) : Status :=
  if on then s.set mask else s.clear mask

theorem getLsbD_toByte (s : Status) (i : Nat) :
    s.toByte.getLsbD i =
      [s.carry, s.zero, s.interruptDisable, s.decimal, s.breakMark, s.reserved, s.overflow, s.negative].getD
        i false := by
  unfold toByte
  rw [BitVec.getLsbD_ofBoolListLE]

/-- A mask sets each flag by itself. -/
theorem set_eq (s : Status) (mask : Byte) :
    s.set mask =
      { carry := s.carry || mask.getLsbD 0
        zero := s.zero || mask.getLsbD 1
        interruptDisable := s.interruptDisable || mask.getLsbD 2
        decimal := s.decimal || mask.getLsbD 3
        breakMark := s.breakMark || mask.getLsbD 4
        reserved := s.reserved || mask.getLsbD 5
        overflow := s.overflow || mask.getLsbD 6
        negative := s.negative || mask.getLsbD 7 } := by
  unfold set ofByte
  simp only [BitVec.getLsbD_or, getLsbD_toByte]
  rfl

theorem clear_eq (s : Status) (mask : Byte) :
    s.clear mask =
      { carry := s.carry && !mask.getLsbD 0
        zero := s.zero && !mask.getLsbD 1
        interruptDisable := s.interruptDisable && !mask.getLsbD 2
        decimal := s.decimal && !mask.getLsbD 3
        breakMark := s.breakMark && !mask.getLsbD 4
        reserved := s.reserved && !mask.getLsbD 5
        overflow := s.overflow && !mask.getLsbD 6
        negative := s.negative && !mask.getLsbD 7 } := by
  unfold clear ofByte
  simp only [BitVec.getLsbD_and, BitVec.getLsbD_not, getLsbD_toByte]
  rfl

/-! ### Results -/

/-- N and Z as a result byte leaves them. -/
def withResult (s : Status) (result : Byte) : Status :=
  { s with zero := result == 0, negative := result.msb }

/-- The bits of P that a result byte sets: Z for zero, N from $80 up. -/
def resultBits (result : Byte) : Byte :=
  ((ofByte 0).withResult result).toByte

end Status
end Nmos6502
