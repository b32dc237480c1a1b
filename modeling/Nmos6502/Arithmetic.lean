/-
# Arithmetic on bytes and flags

What the processor computes, apart from where the operands come from and where
the result goes: sums and differences with carry, comparisons, shifts and
rotates, steps up and down, and the bit test. Each function takes the operands
and the flags and gives the result and the flags after it.

With D set, ADC and SBC work on packed decimal digits as the NMOS part does it.
ADC takes N and V from the sum before the high digit is adjusted, and Z from
the binary sum. SBC takes every flag from the binary difference, and only the
value written to A is adjusted.
-/
import Nmos6502.Status

namespace Nmos6502
namespace Arithmetic

/-! ### Addition -/

def addBinary (a v : Byte) (p : Status) : Byte × Status :=
  let sum := a.toNat + v.toNat + p.carry.toNat
  let result := BitVec.ofNat 8 sum
  (result,
    { p.withResult result with
      carry := decide (sum ≥ 256)
      overflow := a.msb == v.msb && result.msb != a.msb })

/-- Decimal sum of two bytes and the carry, digit by digit. A digit sum from ten up is moved past
the six unused digit values; the flags N and V see the high digit before that. -/
def addDecimal (a v : Byte) (p : Status) : Byte × Status :=
  let lowSum := a.toNat % 16 + v.toNat % 16 + p.carry.toNat
  let low := if lowSum ≥ 10 then lowSum + 6 else lowSum
  let highSum := a.toNat / 16 + v.toNat / 16 + (if low ≥ 16 then 1 else 0)
  let high := if highSum ≥ 10 then highSum + 6 else highSum
  let sign := highSum / 8 % 2 == 1
  (BitVec.ofNat 8 (high * 16 + low % 16),
    { p with
      zero := (a.toNat + v.toNat + p.carry.toNat) % 256 == 0
      negative := sign
      overflow := a.msb == v.msb && sign != a.msb
      carry := decide (high ≥ 16) })

/-- ADC. -/
def add (a v : Byte) (p : Status) : Byte × Status :=
  if p.decimal then addDecimal a v p else addBinary a v p

theorem add_of_set {p : Status} (set : p.decimal = true) (a v : Byte) :
    add a v p = addDecimal a v p :=
  if_pos set

theorem add_of_clear {p : Status} (clear : p.decimal = false) (a v : Byte) :
    add a v p = addBinary a v p :=
  if_neg (Bool.eq_false_iff.mp clear)

/-! ### Subtraction -/

/-- Binary difference of two bytes and the borrow, which is the carry inverted. -/
def subtractBinary (a v : Byte) (p : Status) : Byte × Status :=
  let borrow := (!p.carry).toNat
  let result := a - v - BitVec.ofNat 8 borrow
  (result,
    { p.withResult result with
      carry := decide (v.toNat + borrow ≤ a.toNat)
      overflow := a.msb != v.msb && result.msb != a.msb })

/-- Decimal difference of two bytes and the borrow, digit by digit. A negative digit is moved past
the six unused digit values and borrows from the next. -/
def differenceDecimal (a v : Byte) (borrow : Nat) : Byte :=
  let lowDiff : Int := (a.toNat % 16 : Nat) - (v.toNat % 16 : Nat) - borrow
  let low := if lowDiff < 0 then (lowDiff - 6) % 16 - 16 else lowDiff
  let highDiff : Int := (a.toNat / 16 : Nat) - (v.toNat / 16 : Nat) - (if low < 0 then 1 else 0)
  let high := if highDiff < 0 then (highDiff - 6) % 16 else highDiff
  BitVec.ofInt 8 (high * 16 + low % 16)

/-- SBC. -/
def subtract (a v : Byte) (p : Status) : Byte × Status :=
  let (result, q) := subtractBinary a v p
  (if p.decimal then differenceDecimal a v (!p.carry).toNat else result, q)

theorem subtract_of_set {p : Status} (set : p.decimal = true) (a v : Byte) :
    subtract a v p = (differenceDecimal a v (!p.carry).toNat, (subtractBinary a v p).2) :=
  congrArg (·, (subtractBinary a v p).2) (if_pos set)

theorem subtract_of_clear {p : Status} (clear : p.decimal = false) (a v : Byte) :
    subtract a v p = subtractBinary a v p :=
  congrArg (·, (subtractBinary a v p).2) (if_neg (Bool.eq_false_iff.mp clear))

/-! ### Comparison and bit test -/

/-- CMP, CPX and CPY: the flags of the difference, with no borrow and nothing stored. -/
def compare (register v : Byte) (p : Status) : Status :=
  { p.withResult (register - v) with carry := decide (v ≤ register) }

/-- BIT: Z from the common bits, N and V copied from bits 7 and 6 of the operand. -/
def bitTest (a v : Byte) (p : Status) : Status :=
  { p with
    zero := a &&& v == 0
    negative := v.msb
    overflow := v.getLsbD 6 }

/-! ### Shifts and rotates -/

/-- The byte moved one place up, with a bit entering at the bottom. -/
def moveUp (v : Byte) (bitIn : Bool) : Byte :=
  BitVec.ofNat 8 (2 * v.toNat + bitIn.toNat)

/-- The byte moved one place down, with a bit entering at the top. -/
def moveDown (v : Byte) (bitIn : Bool) : Byte :=
  BitVec.ofNat 8 (v.toNat / 2 + 128 * bitIn.toNat)

/-- Move up: the bit that leaves at the top becomes the carry. -/
def up (bitIn : Bool) (v : Byte) (p : Status) : Byte × Status :=
  (moveUp v bitIn, { p.withResult (moveUp v bitIn) with carry := v.msb })

/-- Move down: the bit that leaves at the bottom becomes the carry. -/
def down (bitIn : Bool) (v : Byte) (p : Status) : Byte × Status :=
  (moveDown v bitIn, { p.withResult (moveDown v bitIn) with carry := v.getLsbD 0 })

def shiftLeft (v : Byte) (p : Status) : Byte × Status :=
  up false v p

def shiftRight (v : Byte) (p : Status) : Byte × Status :=
  down false v p

/-- ROL: the old carry enters. -/
def rotateLeft (v : Byte) (p : Status) : Byte × Status :=
  up p.carry v p

/-- ROR: the old carry enters. -/
def rotateRight (v : Byte) (p : Status) : Byte × Status :=
  down p.carry v p

/-! ### Steps -/

def increment (v : Byte) (p : Status) : Byte × Status :=
  (v + 1, p.withResult (v + 1))

def decrement (v : Byte) (p : Status) : Byte × Status :=
  (v - 1, p.withResult (v - 1))

end Arithmetic
end Nmos6502
