/-
# Clocks and counts of cycles

The processor counts cycles; a clock turns counts into time. A clock of
frequency zero has no time, and neither has a frame at a rate of zero: asking
for either is a division by zero.
-/
namespace Nmos6502

/-- A count of clock cycles. It has no greatest: where a count kept in 64 bits would wrap is not modelled. -/
structure Cycles where
  count : Nat
  deriving DecidableEq, Repr

namespace Cycles

def zero : Cycles := ⟨0⟩

instance : Add Cycles where
  add s t := ⟨s.count + t.count⟩

def order (s t : Cycles) : Ordering :=
  compare s.count t.count

def text (t : Cycles) : String :=
  toString t.count ++ " cycles"

end Cycles

/-- A clock, by its frequency in hertz. -/
structure Clock where
  frequency : Nat
  deriving DecidableEq, Repr

inductive ClockError where
  | divisionByZero
  deriving DecidableEq, Repr

def ClockError.message : ClockError → String
  | .divisionByZero => "attempt to divide by zero"

namespace Clock

/-- The longest time that is told apart, in microseconds. -/
def longestMicros : Nat := 18446744073709551615

/-- The whole cycles in a frame, at a rate at which there are frames. -/
def frame (c : Clock) (framesPerSecond : Nat) (_ : framesPerSecond ≠ 0) : Cycles :=
  ⟨c.frequency / framesPerSecond⟩

/-- The whole cycles in a frame, at any rate. -/
def cyclesPerFrame (c : Clock) (framesPerSecond : Nat) : Except ClockError Cycles :=
  if none : framesPerSecond = 0 then .error .divisionByZero
  else .ok (c.frame framesPerSecond none)

/-- The whole microseconds that a count of cycles takes, cut off at the longest. -/
def micros (c : Clock) (t : Cycles) : Except ClockError Nat :=
  if c.frequency = 0 then .error .divisionByZero
  else .ok (min (t.count * 1000000 / c.frequency) longestMicros)

end Clock
end Nmos6502
