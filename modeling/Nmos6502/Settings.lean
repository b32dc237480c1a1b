/-
# Settings of a machine

A machine is given a clock, which it only tells to others, and the number of
cycles it runs between two questions to its host. The period has to be a
positive number that a signed 32-bit budget can hold.
-/
import Nmos6502.Clock

namespace Nmos6502

structure Settings where
  clock : Clock
  period : Nat
  deriving DecidableEq, Repr

inductive SettingsError where
  | zeroClock
  | zeroPeriod
  | periodTooLarge (period : Nat)
  deriving DecidableEq, Repr

def longestPeriod : Nat := 2147483647

/-- The longest period that settings made from a frame rate name. -/
def longestFrame : Nat := 4294967295

def SettingsError.message : SettingsError → String
  | .zeroClock => "clock frequency must be non-zero"
  | .zeroPeriod => "interrupt check period must be at least one cycle"
  | .periodTooLarge period =>
    "interrupt check period of " ++ toString period ++ " cycles exceeds " ++
      toString longestPeriod ++ " cycles"

namespace Settings

def usualFrequency : Nat := 1000000

def usualPeriod : Nat := 20000

def usual : Settings where
  clock := ⟨usualFrequency⟩
  period := usualPeriod

/-- Ask the host once a frame. At a frame rate of zero nothing is divided and the period is zero, which is
refused. -/
def perFrame (frequency framesPerSecond : Nat) : Settings where
  clock := ⟨frequency⟩
  period :=
    if none : framesPerSecond = 0 then 0
    else min (Clock.frame ⟨frequency⟩ framesPerSecond none).count longestFrame

/-- What a machine relies on. -/
def Accepted (s : Settings) : Prop :=
  0 < s.clock.frequency ∧ 0 < s.period ∧ s.period ≤ longestPeriod

instance (s : Settings) : Decidable s.Accepted :=
  inferInstanceAs (Decidable (0 < s.clock.frequency ∧ 0 < s.period ∧ s.period ≤ longestPeriod))

/-- Refuse settings a machine cannot rely on: the clock is looked at first, then the period from
below, then from above. -/
def check (s : Settings) : Except SettingsError Unit :=
  if s.clock.frequency = 0 then .error .zeroClock
  else if s.period = 0 then .error .zeroPeriod
  else if longestPeriod < s.period then .error (.periodTooLarge s.period)
  else .ok ()

theorem check_eq_ok_iff (s : Settings) : s.check = .ok () ↔ s.Accepted := by
  unfold check Accepted
  repeat' split
  all_goals simp
  all_goals omega

theorem check_eq_zeroClock_iff (s : Settings) : s.check = .error .zeroClock ↔ s.clock.frequency = 0 := by
  unfold check
  repeat' split
  all_goals simp
  all_goals omega

theorem check_eq_zeroPeriod_iff (s : Settings) :
    s.check = .error .zeroPeriod ↔ s.clock.frequency ≠ 0 ∧ s.period = 0 := by
  unfold check
  repeat' split
  all_goals simp
  all_goals omega

theorem check_eq_periodTooLarge_iff (s : Settings) (told : Nat) :
    s.check = .error (.periodTooLarge told) ↔
      s.clock.frequency ≠ 0 ∧ longestPeriod < s.period ∧ told = s.period := by
  unfold check longestPeriod
  repeat' split
  all_goals simp
  all_goals omega

theorem Accepted.of_check {s : Settings} (h : s.check = .ok ()) : s.Accepted :=
  s.check_eq_ok_iff.mp h

end Settings
end Nmos6502
