/-
# A host that is asked once a frame

The period of a machine may be given as a frame rate. It is then the number of
whole cycles in a frame, and the machine is made exactly if that number can
serve as a budget: the clock runs, there are frames, and a frame has at least
one cycle and no more than the longest period.
Rounding to whole cycles, and then to whole microseconds, never makes a frame
longer than its share of a second (`Clock.rate_mul_frame_le`).

Frequencies, rates and counts come in 64 bits, a period has 32 and a budget 32
with a sign. What does not fit is cut off at the greatest number that does, and
the product of a count and a million is made in 128 bits. Reckoned like that
nothing ever wraps, so the numbers with so many bits are those the settings and
the clock speak of (`Settings.toNat_period32`, `Clock.micros_eq_micros64`).
-/
import Nmos6502.Machine

namespace Nmos6502

/-! ### Numbers with so many bits -/

/-- A number in `v` bits, or the greatest one in `v` bits if it is greater. -/
def cutOff (v : Nat) {w : Nat} (x : BitVec w) : BitVec v :=
  if x.toNat ≤ (BitVec.allOnes v).toNat then x.setWidth v else BitVec.allOnes v

theorem toNat_cutOff (v : Nat) {w : Nat} (x : BitVec w) :
    (cutOff v x).toNat = min x.toNat (BitVec.allOnes v).toNat := by
  unfold cutOff
  by_cases fits : x.toNat ≤ (BitVec.allOnes v).toNat
  · rw [if_pos fits, Nat.min_eq_left fits, BitVec.toNat_setWidth]
    exact Nat.mod_eq_of_lt (Nat.lt_of_le_of_lt fits (BitVec.allOnes v).isLt)
  · rw [if_neg fits, Nat.min_eq_right (Nat.le_of_not_le fits)]

/-- The cycles between two questions at a frame rate, in 32 bits. There are none at a rate of zero. -/
def Settings.period32 (frequency rate : BitVec 64) : BitVec 32 :=
  if rate = 0 then 0 else cutOff 32 (frequency / rate)

/-- A period as a budget, in 32 bits the first of which is the sign. -/
def Settings.budget32 (period : BitVec 32) : BitVec 32 :=
  (cutOff 31 period).setWidth 32

/-- The whole microseconds that a count of cycles takes, in 64 bits. -/
def Clock.micros64 (frequency count : BitVec 64) : BitVec 64 :=
  cutOff 64 (count.setWidth 128 * 1000000#128 / frequency.setWidth 128)

/-! ### Time -/

namespace Clock

theorem micros_of_pos {c : Clock} (runs : 0 < c.frequency) (t : Cycles) :
    c.micros t = .ok (min (t.count * 1000000 / c.frequency) longestMicros) :=
  if_neg (Nat.ne_of_gt runs)

theorem toNat_million_mul (count : BitVec 64) :
    (count.setWidth 128 * 1000000#128).toNat = count.toNat * 1000000 := by
  have small := count.isLt
  rw [BitVec.toNat_mul, BitVec.toNat_setWidth, BitVec.toNat_ofNat]
  omega

theorem micros_eq_micros64 {frequency : BitVec 64} (runs : 0 < frequency.toNat) (count : BitVec 64) :
    micros ⟨frequency.toNat⟩ ⟨count.toNat⟩ = .ok (micros64 frequency count).toNat := by
  have same : (frequency.setWidth 128).toNat = frequency.toNat := by
    rw [BitVec.toNat_setWidth]
    exact Nat.mod_eq_of_lt (Nat.lt_trans frequency.isLt (by decide))
  have longest : (BitVec.allOnes 64).toNat = longestMicros := by decide
  rw [micros_of_pos runs, micros64, toNat_cutOff, BitVec.toNat_udiv, toNat_million_mul, same, longest]

/-- The frames of a second, each taken as its whole microseconds, are no more than a second. -/
theorem rate_mul_frame_le (frequency rate : Nat) :
    rate * (frequency / rate * 1000000 / frequency) ≤ 1000000 := by
  rcases Nat.eq_zero_or_pos frequency with rfl | runs
  · rw [Nat.div_zero, Nat.mul_zero]
    exact Nat.zero_le 1000000
  · have cycles : rate * (frequency / rate) ≤ frequency := Nat.mul_div_le frequency rate
    calc rate * (frequency / rate * 1000000 / frequency)
        ≤ rate * (frequency / rate * 1000000) / frequency := Nat.mul_div_le_mul_div_assoc _ _ _
      _ = rate * (frequency / rate) * 1000000 / frequency := by rw [Nat.mul_assoc]
      _ ≤ frequency * 1000000 / frequency := Nat.div_le_div_right (Nat.mul_le_mul_right 1000000 cycles)
      _ = 1000000 := Nat.mul_div_cancel_left 1000000 runs

end Clock

/-! ### Settings -/

namespace Settings

/-- A period is a frame in whole cycles, cut off at the longest. -/
theorem period_perFrame (frequency rate : Nat) :
    (perFrame frequency rate).period = min (frequency / rate) longestFrame := by
  unfold perFrame
  by_cases none : rate = 0
  · rw [dif_pos none, none, Nat.div_zero, Nat.zero_min]
  · rw [dif_neg none]
    rfl

theorem toNat_period32 (frequency rate : BitVec 64) :
    (period32 frequency rate).toNat = (perFrame frequency.toNat rate.toNat).period := by
  have longest : (BitVec.allOnes 32).toNat = longestFrame := by decide
  rw [period_perFrame]
  unfold period32
  by_cases none : rate = 0
  · rw [if_pos none, none]
    show 0 = min (frequency.toNat / 0) longestFrame
    rw [Nat.div_zero, Nat.zero_min]
  · rw [if_neg none, toNat_cutOff, BitVec.toNat_udiv, longest]

theorem toInt_budget32 {period : BitVec 32} (short : period.toNat ≤ longestPeriod) :
    (budget32 period).toInt = period.toNat := by
  have longest : (BitVec.allOnes 31).toNat = longestPeriod := by decide
  have width : longestPeriod < 2147483648 := by decide
  have same : (budget32 period).toNat = period.toNat := by
    rw [budget32, BitVec.toNat_setWidth, toNat_cutOff, longest, Nat.min_eq_left short]
    exact Nat.mod_eq_of_lt period.isLt
  rw [BitVec.toInt_eq_toNat_of_lt (by omega), same]

theorem period_perFrame_eq_zero_iff (frequency rate : Nat) :
    (perFrame frequency rate).period = 0 ↔ rate = 0 ∨ frequency < rate := by
  have order : 0 < longestFrame := by decide
  rw [period_perFrame, ← Nat.div_eq_zero_iff]
  omega

end Settings

/-! ### Machines -/

/-- **A machine that is asked once a frame.** For every clock frequency and frame rate of 64 bits there is a
period, the whole cycles of a frame cut off at 32 bits; a frame is reckoned at a rate above zero only. A
machine is made of it exactly if the clock runs, there are frames, and a frame has at least one cycle and at
most the longest period. Then the budget is the whole cycles of a frame, which fit a budget's 32 bits, and all
the frames of a second together take no longer than a second. Otherwise the clock is refused first, then a
frame with no cycle, and last one with too many, which is told cut off at 32 bits. The time that a count of
cycles takes is exact up to the longest time of 64 bits: the product in it never wraps. -/
theorem Machine.made_per_frame {β : Type} (frequency rate : BitVec 64) (bus : β) :
    (Settings.perFrame frequency.toNat rate.toNat).period = (Settings.period32 frequency rate).toNat ∧
    let settings := Settings.perFrame frequency.toNat rate.toNat
    let frame := frequency.toNat / rate.toNat
    let made := Machine.make settings bus
    ((∀ some : rate.toNat ≠ 0,
        settings.period = min (settings.clock.frame rate.toNat some).count 4294967295 ∧
        Clock.cyclesPerFrame settings.clock rate.toNat = .ok ⟨frame⟩) ∧
      (rate.toNat = 0 → settings.period = 0)) ∧
    ((∃ m, made = .ok m) ↔ 0 < frequency.toNat ∧ 0 < rate.toNat ∧ 1 ≤ frame ∧ frame ≤ 2147483647) ∧
    (∀ m, made = .ok m →
      m.settings.period = frame ∧ m.budget = frame ∧
      (Settings.budget32 (Settings.period32 frequency rate)).toInt = m.budget ∧
      ∃ time, m.settings.clock.micros ⟨m.settings.period⟩ = .ok time ∧ rate.toNat * time ≤ 1000000) ∧
    (made = .error .zeroClock ↔ frequency.toNat = 0) ∧
    (made = .error .zeroPeriod ↔
      frequency.toNat ≠ 0 ∧ (rate.toNat = 0 ∨ frequency.toNat < rate.toNat)) ∧
    (∀ told, made = .error (.periodTooLarge told) ↔
      frequency.toNat ≠ 0 ∧ ¬ (rate.toNat = 0 ∨ frequency.toNat < rate.toNat) ∧ 2147483647 < frame ∧
      told = min frame 4294967295) ∧
    ∀ count : BitVec 64,
      (count.setWidth 128 * 1000000#128).toNat = count.toNat * 1000000 ∧
      (0 < frequency.toNat →
        settings.clock.micros ⟨count.toNat⟩ = .ok (Clock.micros64 frequency count).toNat ∧
        (Clock.micros64 frequency count).toNat =
          min (count.toNat * 1000000 / frequency.toNat) 18446744073709551615) := by
  have words := Settings.toNat_period32 frequency rate
  refine ⟨words.symm, ?_⟩
  intro settings frame made
  have count : settings.period = min frame longestFrame := Settings.period_perFrame _ _
  have empty := Settings.period_perFrame_eq_zero_iff frequency.toNat rate.toNat
  have longest : longestPeriod = 2147483647 := rfl
  have greatest : longestFrame = 4294967295 := rfl
  have refused (e : SettingsError) : made = .error e ↔ settings.check = .error e := Machine.make_eq_error_iff
  refine ⟨⟨fun some => ⟨count, dif_neg some⟩, fun none => empty.mpr (Or.inl none)⟩, ?_, fun m ok => ?_,
    ?_, ?_, fun told => ?_, fun ticks => ⟨Clock.toNat_million_mul ticks, fun runs => ?_⟩⟩
  · rw [Machine.exists_make_iff]
    show 0 < frequency.toNat ∧ 0 < settings.period ∧ settings.period ≤ longestPeriod ↔ _
    -- Below, a frame without a cycle is a rate of zero or above the frequency; above, the cut at 32 bits lies
    -- beyond the longest period.
    have some : 0 < settings.period ↔ ¬ (rate.toNat = 0 ∨ frequency.toNat < rate.toNat) := by
      rw [← empty]
      exact Nat.pos_iff_ne_zero
    omega
  · obtain ⟨⟨runs, -, short⟩, rfl⟩ := Machine.of_make ok
    have whole : settings.period = frame := by omega
    refine ⟨whole, congrArg Nat.cast whole, ?_, ?_⟩
    · rw [Settings.toInt_budget32 (words ▸ short), words]
    · refine ⟨_, Clock.micros_of_pos runs _, ?_⟩
      show rate.toNat * min (settings.period * 1000000 / frequency.toNat) Clock.longestMicros ≤ 1000000
      rw [whole]
      exact Nat.le_trans (Nat.mul_le_mul_left _ (Nat.min_le_left _ _)) (Clock.rate_mul_frame_le _ _)
  · rw [refused, settings.check_eq_zeroClock_iff]
    exact Iff.rfl
  · rw [refused, settings.check_eq_zeroPeriod_iff, empty]
    exact Iff.rfl
  · rw [refused, settings.check_eq_periodTooLarge_iff, ← empty]
    show frequency.toNat ≠ 0 ∧ longestPeriod < settings.period ∧ told = settings.period ↔
      frequency.toNat ≠ 0 ∧ ¬ settings.period = 0 ∧ _
    omega
  · have reckoned := Clock.micros_eq_micros64 runs ticks
    exact ⟨reckoned, Except.ok.inj (reckoned.symm.trans (Clock.micros_of_pos runs _))⟩

end Nmos6502
