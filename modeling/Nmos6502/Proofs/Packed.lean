/-
# Packed decimal numbers

With D set a byte is a place for two decimal digits, and ADC and SBC add and
subtract such bytes: a digit sum from ten up leaves ten less and carries, a
negative digit difference borrows ten. So of two bytes whose digits are decimal
nothing is lost, if the carry weighs a hundred (`Arithmetic.addDecimal_total`,
`Arithmetic.differenceDecimal_total`), and the result has decimal digits again.
The borrow of SBC is told by the binary difference; packed bytes are ordered as
the numbers they stand for, so it is the decimal borrow as well.

A chain of such links computes in base 100 as a chain of binary ones does in
base 256 (`conserve`). Packed numbers of one length that stand for the same
number are the same bytes, so what was added can be taken away again.
-/
import Nmos6502.Proofs.Multibyte

namespace Nmos6502

/-! ### Packed bytes -/

namespace Byte

def IsPacked (b : Byte) : Prop :=
  (highDigit b : Nat) ≤ 9 ∧ (lowDigit b : Nat) ≤ 9

instance (b : Byte) : Decidable (IsPacked b) :=
  inferInstanceAs (Decidable (_ ∧ _))

def decimalValue (b : Byte) : Nat :=
  10 * highDigit b + lowDigit b

theorem decimalValue_lt {b : Byte} (packed : IsPacked b) : decimalValue b < 100 := by
  obtain ⟨high, low⟩ := packed
  unfold decimalValue
  omega

theorem toNat_eq_digits (b : Byte) : b.toNat = 16 * highDigit b + lowDigit b :=
  (Nat.div_add_mod b.toNat 16).symm

/-- A packed byte is known by its number. -/
theorem decimalValue_inj {b c : Byte} (hb : IsPacked b) (hc : IsPacked c)
    (same : decimalValue b = decimalValue c) : b = c := by
  obtain ⟨-, bLow⟩ := hb
  obtain ⟨-, cLow⟩ := hc
  have bDigits := toNat_eq_digits b
  have cDigits := toNat_eq_digits c
  unfold decimalValue at same
  apply BitVec.eq_of_toNat_eq
  omega

theorem digits_ofNat (high low : Nat) :
    (highDigit (BitVec.ofNat 8 (high * 16 + low % 16)) : Nat) = high % 16 ∧
    (lowDigit (BitVec.ofNat 8 (high * 16 + low % 16)) : Nat) = low % 16 := by
  simp only [highDigit, lowDigit, BitVec.toNat_ofNat]
  omega

theorem digits_ofInt (high low : Int) :
    ((highDigit (BitVec.ofInt 8 (high * 16 + low % 16)) : Nat) : Int) = high % 16 ∧
    ((lowDigit (BitVec.ofInt 8 (high * 16 + low % 16)) : Nat) : Int) = low % 16 := by
  have number := DataSheet.toNat_ofInt (high * 16 + low % 16)
  simp only [highDigit, lowDigit]
  omega

end Byte

namespace Arithmetic

open Byte

/-! ### Sums -/

/-- A digit sum that is moved past the unused digit values leaves ten less and carries. -/
theorem digit_sum (sum : Nat) (small : sum ≤ 19) :
    let moved := if sum ≥ 10 then sum + 6 else sum
    moved % 16 ≤ 9 ∧ moved % 16 + 10 * (if moved ≥ 16 then 1 else 0) = sum := by
  intro moved
  by_cases ten : sum ≥ 10
  · simp only [moved, if_pos ten]
    split <;> omega
  · simp only [moved, if_neg ten]
    split <;> omega

/-- Nothing of a decimal sum is lost: what does not fit in two digits is in C. -/
theorem addDecimal_total {a v : Byte} (ha : IsPacked a) (hv : IsPacked v) (p : Status) :
    IsPacked (addDecimal a v p).1 ∧
    decimalValue (addDecimal a v p).1 + 100 * (addDecimal a v p).2.carry.toNat =
      decimalValue a + decimalValue v + p.carry.toNat := by
  obtain ⟨aHigh, aLow⟩ := ha
  obtain ⟨vHigh, vLow⟩ := hv
  have hc := p.carry.toNat_le
  generalize lowSum : (lowDigit a + lowDigit v + p.carry.toNat : Nat) = s
  generalize lowMoved : (if s ≥ 10 then s + 6 else s) = low
  generalize highSum : (highDigit a + highDigit v + if low ≥ 16 then 1 else 0 : Nat) = t
  generalize highMoved : (if t ≥ 10 then t + 6 else t) = high
  have result : (addDecimal a v p).1 = BitVec.ofNat 8 (high * 16 + low % 16) := by
    subst lowSum lowMoved highSum highMoved
    rfl
  have carry : (addDecimal a v p).2.carry = decide (high ≥ 16) := by
    subst lowSum lowMoved highSum highMoved
    rfl
  have carried : (decide (high ≥ 16)).toNat = if high ≥ 16 then 1 else 0 :=
    apply_ite Bool.toNat _ true false
  have between : (if low ≥ 16 then 1 else 0) ≤ 1 := by split <;> omega
  obtain ⟨lowPacked, lowTotal⟩ := digit_sum s (by omega)
  obtain ⟨highPacked, highTotal⟩ := digit_sum t (by omega)
  rw [lowMoved] at lowPacked lowTotal
  rw [highMoved] at highPacked highTotal
  obtain ⟨highResult, lowResult⟩ := digits_ofNat high low
  rw [result, carry, carried]
  unfold IsPacked decimalValue
  rw [highResult, lowResult]
  refine ⟨⟨highPacked, lowPacked⟩, ?_⟩
  omega

/-! ### Differences -/

/-- A negative digit difference borrows ten. -/
theorem digit_difference (diff : Int) (least : -10 ≤ diff) (most : diff ≤ 9) :
    let moved := if diff < 0 then (diff - 6) % 16 else diff
    moved % 16 ≤ 9 ∧ moved % 16 - 10 * (if diff < 0 then 1 else 0) = diff := by
  intro moved
  by_cases negative : diff < 0
  · simp only [moved, if_pos negative]
    omega
  · simp only [moved, if_neg negative]
    omega

/-- Both digits are moved alike; sixteen is taken off a low digit that borrows only to mark it as
negative. -/
theorem differenceDecimal_digits (a v : Byte) (borrow : Nat) :
    let low : Int := (lowDigit a : Nat) - (lowDigit v : Nat) - borrow
    let high : Int := (highDigit a : Nat) - (highDigit v : Nat) - if low < 0 then 1 else 0
    differenceDecimal a v borrow =
      BitVec.ofInt 8 ((if high < 0 then (high - 6) % 16 else high) * 16 +
        (if low < 0 then (low - 6) % 16 else low) % 16) := by
  intro low high
  have marked : (if low < 0 then (low - 6) % 16 - 16 else low) % 16 =
      (if low < 0 then (low - 6) % 16 else low) % 16 := by
    split <;> omega
  have negative : low < 0 ↔ (if low < 0 then (low - 6) % 16 - 16 else low) < 0 := by
    split <;> omega
  have borrowed := if_congr negative (Eq.refl (1 : Int)) (Eq.refl 0)
  simp only [high]
  rw [← marked, borrowed]
  rfl

/-- Nor of a decimal difference, for which a hundred is borrowed if the byte is the smaller one. -/
theorem differenceDecimal_total {a v : Byte} (ha : IsPacked a) (hv : IsPacked v) {borrow : Nat}
    (bit : borrow ≤ 1) :
    IsPacked (differenceDecimal a v borrow) ∧
    (decimalValue (differenceDecimal a v borrow) : Int) -
        100 * (if a.toNat < v.toNat + borrow then 1 else 0) =
      decimalValue a - decimalValue v - borrow := by
  obtain ⟨aHigh, aLow⟩ := ha
  obtain ⟨vHigh, vLow⟩ := hv
  have aDigits := toNat_eq_digits a
  have vDigits := toNat_eq_digits v
  generalize lowDiff : ((lowDigit a : Nat) - (lowDigit v : Nat) - borrow : Int) = s
  generalize lowMoved : (if s < 0 then (s - 6) % 16 else s) = low
  generalize highDiff : ((highDigit a : Nat) - (highDigit v : Nat) - if s < 0 then 1 else 0 : Int) = t
  generalize highMoved : (if t < 0 then (t - 6) % 16 else t) = high
  have result : differenceDecimal a v borrow = BitVec.ofInt 8 (high * 16 + low % 16) := by
    subst lowDiff lowMoved highDiff highMoved
    exact differenceDecimal_digits a v borrow
  have between : 0 ≤ (if s < 0 then 1 else 0 : Int) ∧ (if s < 0 then 1 else 0 : Int) ≤ 1 := by
    split <;> omega
  obtain ⟨lowPacked, lowTotal⟩ := digit_difference s (by omega) (by omega)
  obtain ⟨highPacked, highTotal⟩ := digit_difference t (by omega) (by omega)
  rw [lowMoved] at lowPacked lowTotal
  rw [highMoved] at highPacked highTotal
  obtain ⟨highResult, lowResult⟩ := digits_ofInt high low
  -- A packed byte is smaller than another if its number is.
  have smaller : a.toNat < v.toNat + borrow ↔ t < 0 := by
    subst lowDiff highDiff
    split <;> omega
  rw [result]
  simp only [smaller]
  unfold IsPacked decimalValue
  refine ⟨⟨?_, ?_⟩, ?_⟩
  · omega
  · omega
  · push_cast
    omega

end Arithmetic

/-! ### Packed numbers -/

namespace Bytes

/-- The number that packed bytes stand for, the lowest first. -/
def decimalValue (bs : List Byte) : Nat :=
  Nat.ofDigits 100 (bs.map Byte.decimalValue)

section

variable {bs cs : List Byte}

theorem decimalDigits_lt (packed : ∀ b ∈ bs, Byte.IsPacked b) :
    ∀ digit ∈ bs.map Byte.decimalValue, digit < 100 := by
  intro digit member
  obtain ⟨b, listed, rfl⟩ := List.mem_map.mp member
  exact Byte.decimalValue_lt (packed b listed)

theorem decimalValue_lt (packed : ∀ b ∈ bs, Byte.IsPacked b) : decimalValue bs < 100 ^ bs.length := by
  have small := Nat.ofDigits_lt_base_pow_length (by decide : 1 < 100) (decimalDigits_lt packed)
  rwa [List.length_map] at small

theorem decimalValue_inj (hb : ∀ b ∈ bs, Byte.IsPacked b) (hc : ∀ c ∈ cs, Byte.IsPacked c)
    (length : bs.length = cs.length) (same : decimalValue bs = decimalValue cs) : bs = cs := by
  have lengths : (bs.map Byte.decimalValue).length = (cs.map Byte.decimalValue).length := by
    rw [List.length_map, List.length_map, length]
  have digits := Nat.ofDigits_inj_of_len_eq (by decide : 1 < 100) lengths (decimalDigits_lt hb)
    (decimalDigits_lt hc) same
  refine List.ext_getElem length fun i left right => ?_
  refine Byte.decimalValue_inj (hb _ (List.getElem_mem left)) (hc _ (List.getElem_mem right)) ?_
  have digit := List.getElem_of_eq digits (by rwa [List.length_map])
  rwa [List.getElem_map, List.getElem_map] at digit

end
end Bytes

/-! ### The links -/

namespace Machine

open Bytes

variable {β : Type} [Bus β]

/-- The step adds a packed byte to A, or takes it from A, and C carries on; `sign` and `idle` as for
binary numbers. -/
structure AccumulatesPacked (sign idle : Int) (m : Machine β) : Prop where
  packed : Byte.IsPacked m.step.2.regs.a
  total : (Byte.decimalValue m.step.2.regs.a : Int) + 100 * (m.step.2.regs.p.carry.toNat - idle) =
    Byte.decimalValue m.regs.a + sign * Byte.decimalValue m.lastRead + (m.regs.p.carry.toNat - idle)

section

variable {m : Machine β} (decimal : m.regs.p.decimal = true) (ha : Byte.IsPacked m.regs.a)
  (hv : Byte.IsPacked m.lastRead)
include decimal ha hv

theorem accumulatesPacked_of_adc (adc : m.step.1.instruction.mnemonic = .adc) :
    m.AccumulatesPacked 1 0 := by
  have combines : m.step.1.instruction.mnemonic.operation =
      .read (Registers.combineA Arithmetic.add) := by
    rw [adc]
    rfl
  obtain ⟨a, p⟩ := m.step_combines combines
  obtain ⟨packed, total⟩ := Arithmetic.addDecimal_total ha hv m.regs.p
  rw [← Arithmetic.add_of_set decimal] at packed total
  constructor
  · rw [a]
    exact packed
  · rw [a, p]
    omega

theorem accumulatesPacked_of_sbc (sbc : m.step.1.instruction.mnemonic = .sbc) :
    m.AccumulatesPacked (-1) 1 := by
  have combines : m.step.1.instruction.mnemonic.operation =
      .read (Registers.combineA Arithmetic.subtract) := by
    rw [sbc]
    rfl
  obtain ⟨a, p⟩ := m.step_combines combines
  rw [Arithmetic.subtract_of_set decimal] at a p
  dsimp only at a p
  obtain ⟨packed, total⟩ := Arithmetic.differenceDecimal_total ha hv (Bool.toNat_le (!m.regs.p.carry))
  have carry : ((Arithmetic.subtractBinary m.regs.a m.lastRead m.regs.p).2.carry.toNat : Int) =
      1 - if m.regs.a.toNat < m.lastRead.toNat + (!m.regs.p.carry).toNat then 1 else 0 := by
    show ((decide (m.lastRead.toNat + (!m.regs.p.carry).toNat ≤ m.regs.a.toNat)).toNat : Int) = _
    by_cases borrows : m.regs.a.toNat < m.lastRead.toNat + (!m.regs.p.carry).toNat
    · rw [decide_eq_false (Nat.not_le_of_lt borrows), if_pos borrows]
      rfl
    · rw [decide_eq_true (Nat.le_of_not_lt borrows), if_neg borrows]
      rfl
  have borrow : ((!m.regs.p.carry).toNat : Int) = 1 - m.regs.p.carry.toNat := by
    cases m.regs.p.carry <;> rfl
  constructor
  · rw [a]
    exact packed
  · rw [a, p]
    omega

end

/-! ### The chain -/

/-- A chain of steps of one instruction with D set, each from a machine in which C and D are as the
step before has left them, and with packed bytes in A and at the operand. -/
structure PackedChain (mnemonic : Mnemonic) {links : List (Machine β)} (nonempty : links ≠ []) : Prop where
  decimal : (links.head nonempty).regs.p.decimal = true
  chained : links.IsChain fun m k =>
    k.regs.p.carry = m.step.2.regs.p.carry ∧ k.regs.p.decimal = m.step.2.regs.p.decimal
  same : ∀ m ∈ links, m.step.1.instruction.mnemonic = mnemonic
  packed : ∀ m ∈ links, Byte.IsPacked m.regs.a ∧ Byte.IsPacked m.lastRead

/-- What such a chain does, in one number for the results and the carry. -/
theorem accumulatesPacked_chain {sign idle : Int} {links : List (Machine β)} (nonempty : links ≠ [])
    (chained : links.IsChain fun m k => k.regs.p.carry = m.step.2.regs.p.carry)
    (all : ∀ m ∈ links, m.AccumulatesPacked sign idle) :
    let zs := links.map fun m => m.step.2.regs.a
    (∀ z ∈ zs, Byte.IsPacked z) ∧
    (decimalValue zs : Int) +
        (100 ^ links.length : Nat) * ((links.getLast nonempty).step.2.regs.p.carry.toNat - idle) =
      decimalValue (links.map fun m => m.regs.a) + sign * decimalValue (links.map lastRead) +
        ((links.head nonempty).regs.p.carry.toNat - idle) := by
  intro zs
  have joined : links.IsChain fun m k =>
      (k.regs.p.carry.toNat : Int) - idle = (m.step.2.regs.p.carry.toNat : Int) - idle :=
    chained.imp fun m k same => by rw [same]
  have total := conserve nonempty joined fun m member => (all m member).total
  refine ⟨fun z member => ?_, ?_⟩
  · obtain ⟨m, listed, rfl⟩ := List.mem_map.mp member
    exact (all m listed).packed
  · unfold decimalValue
    rw [List.map_map, List.map_map, List.map_map]
    exact total

section

variable {links : List (Machine β)} {nonempty : links ≠ []}

theorem PackedChain.sum (chain : PackedChain .adc nonempty) :
    let zs := links.map fun m => m.step.2.regs.a
    let total := decimalValue (links.map fun m => m.regs.a) + decimalValue (links.map lastRead) +
      (links.head nonempty).regs.p.carry.toNat
    (∀ z ∈ zs, Byte.IsPacked z) ∧ decimalValue zs = total % 100 ^ links.length ∧
    ((links.getLast nonempty).step.2.regs.p.carry = true ↔ 100 ^ links.length ≤ total) := by
  intro zs total
  obtain ⟨decimal, chained, adc, packed⟩ := chain
  have decimals := decimal_chain nonempty (chained.imp fun _ _ kept => kept.2) fun m member =>
    .inl (adc m member)
  obtain ⟨results, conserved⟩ := accumulatesPacked_chain nonempty (chained.imp fun _ _ kept => kept.1)
    fun m member => accumulatesPacked_of_adc ((decimals m member).trans decimal) (packed m member).1
      (packed m member).2 (adc m member)
  rw [one_mul, sub_zero, sub_zero] at conserved
  have small := decimalValue_lt results
  rw [List.length_map] at small
  exact ⟨results, sum_of_total small (by exact_mod_cast conserved)⟩

theorem PackedChain.difference (chain : PackedChain .sbc nonempty) :
    let zs := links.map fun m => m.step.2.regs.a
    let x := decimalValue (links.map fun m => m.regs.a)
    let y := decimalValue (links.map lastRead)
    let carry := (links.head nonempty).regs.p.carry
    (∀ z ∈ zs, Byte.IsPacked z) ∧
    (decimalValue zs : Int) = ((x : Int) - y - (1 - carry.toNat)) % (100 ^ links.length : Nat) ∧
    ((links.getLast nonempty).step.2.regs.p.carry = true ↔ y + (1 - carry.toNat) ≤ x) := by
  intro zs x y carry
  obtain ⟨decimal, chained, sbc, packed⟩ := chain
  have decimals := decimal_chain nonempty (chained.imp fun _ _ kept => kept.2) fun m member =>
    .inr (sbc m member)
  obtain ⟨results, conserved⟩ := accumulatesPacked_chain nonempty (chained.imp fun _ _ kept => kept.1)
    fun m member => accumulatesPacked_of_sbc ((decimals m member).trans decimal) (packed m member).1
      (packed m member).2 (sbc m member)
  have small := decimalValue_lt results
  rw [List.length_map] at small
  have borrowed : (x : Int) + -1 * y + (carry.toNat - 1) = x - y - (1 - carry.toNat) := by ring
  obtain ⟨difference, carried⟩ := difference_of_total small (conserved.trans borrowed)
  refine ⟨results, difference, carried.trans ?_⟩
  have bit := carry.toNat_le
  omega

end

/-- **Packed decimal numbers of several bytes.** The links are steps of ADC alone or of SBC alone, in any
of their modes and on any bus, D being set at the first; between two links A is loaded with the next byte
of the first number, and anything else may happen that leaves C and D alone. The byte of the second number
is the one the link reads last. If all these bytes are packed, so are the results. They stand for the sum
of both numbers and the carry before the first link, or for their difference less the borrow, modulo 100
to the number of bytes; C is set if the sum does not fit, and if nothing has to be borrowed. So a number
that has been added with C clear can be taken from the sum again with C set. -/
theorem long_decimal_arithmetic {links : List (Machine β)} (nonempty : links ≠ []) :
    let n := links.length
    let xs := links.map fun m => m.regs.a
    let ys := links.map lastRead
    let zs := links.map fun m => m.step.2.regs.a
    let carry := (links.head nonempty).regs.p.carry
    let after := (links.getLast nonempty).step.2.regs
    (PackedChain .adc nonempty →
      (∀ z ∈ zs, Byte.IsPacked z) ∧
      decimalValue zs = (decimalValue xs + decimalValue ys + carry.toNat) % 100 ^ n ∧
      (after.p.carry = true ↔ 100 ^ n ≤ decimalValue xs + decimalValue ys + carry.toNat)) ∧
    (PackedChain .sbc nonempty →
      (∀ z ∈ zs, Byte.IsPacked z) ∧
      (decimalValue zs : Int) =
        ((decimalValue xs : Int) - decimalValue ys - (1 - carry.toNat)) % (100 ^ n : Nat) ∧
      (after.p.carry = true ↔ decimalValue ys + (1 - carry.toNat) ≤ decimalValue xs)) ∧
    (PackedChain .adc nonempty → carry = false →
      ∀ {back : List (Machine β)} (more : back ≠ []), PackedChain .sbc more →
        (back.head more).regs.p.carry = true → (back.map fun m => m.regs.a) = zs →
        back.map lastRead = ys → (back.map fun m => m.step.2.regs.a) = xs) := by
  intro n xs ys zs carry after
  refine ⟨PackedChain.sum, PackedChain.difference, ?_⟩
  intro chain clear back more undone set first second
  have sum : decimalValue zs = (decimalValue xs + decimalValue ys + carry.toNat) % 100 ^ n := chain.sum.2.1
  obtain ⟨results, difference, -⟩ := undone.difference
  have length : back.length = n := by
    have same := congrArg List.length first
    rwa [List.length_map, List.length_map] at same
  have packed : ∀ x ∈ xs, Byte.IsPacked x := by
    intro x member
    obtain ⟨m, listed, rfl⟩ := List.mem_map.mp member
    exact (chain.packed m listed).1
  have small : decimalValue xs < 100 ^ n := by
    have lt := decimalValue_lt packed
    rwa [List.length_map] at lt
  refine decimalValue_inj results packed (by rw [List.length_map, List.length_map, length]) ?_
  rw [first, second, set, length] at difference
  have total : (decimalValue zs : Int) = ((decimalValue xs : Int) + decimalValue ys) % (100 ^ n : Nat) := by
    rw [clear, Bool.toNat_false, Nat.add_zero] at sum
    exact_mod_cast sum
  have residue : (decimalValue (back.map fun m => m.step.2.regs.a) : Int) = decimalValue xs := by
    calc (decimalValue (back.map fun m => m.step.2.regs.a) : Int)
        = (decimalValue zs - decimalValue ys) % (100 ^ n : Nat) := by
          rw [difference, Bool.toNat_true, Nat.cast_one, sub_self, sub_zero]
      _ = (decimalValue xs + decimalValue ys - decimalValue ys) % (100 ^ n : Nat) := by
          rw [total, Int.emod_sub_emod]
      _ = decimalValue xs := by
          rw [add_sub_cancel_right]
          exact Int.emod_eq_of_lt (Int.natCast_nonneg _) (by exact_mod_cast small)
  exact_mod_cast residue

/-- One program adds 5001 to 4999, byte by byte, and another takes 5001 from what is left of the sum: a
carry from digit to digit and out of the top, and a borrow that gives 4999 back. -/
theorem long_decimal_arithmetic_program :
    let stage (carry : Bool) (program : List Byte) (steps : Nat) : Machine Rom :=
      ((Walk.begin
        { settings := ⟨⟨1000000⟩, 16⟩, accepted := by decide
          regs := { Registers.powerOn with p := { Status.powerOn with decimal := true, carry := carry } }
          bus := ⟨fun address => program.getD address.toNat 0xEA⟩
          phase := .running, budget := 16 }).times steps).machine
    let adding := stage false [0xA9, 0x99, 0x69, 0x01, 0xA9, 0x49, 0x69, 0x50]
    let taking := stage true [0xA9, 0x00, 0xE9, 0x01, 0xA9, 0x00, 0xE9, 0x50]
    let result (links : List (Machine Rom)) : List Byte := links.map fun m => m.step.2.regs.a
    PackedChain .adc (List.cons_ne_nil (adding 1) [adding 3]) ∧
    decimalValue (result [adding 1, adding 3]) = (4999 + 5001) % 100 ^ 2 ∧
    (adding 3).step.2.regs.p.carry = true ∧
    PackedChain .sbc (List.cons_ne_nil (taking 1) [taking 3]) ∧
    (decimalValue (result [taking 1, taking 3]) : Int) = (0 - 5001) % (100 ^ 2 : Nat) ∧
    (taking 3).step.2.regs.p.carry = false ∧
    result [taking 1, taking 3] = [0x99, 0x49] := by
  intro stage adding taking result
  have added : PackedChain .adc (List.cons_ne_nil (adding 1) [adding 3]) := by
    constructor
    · decide +kernel
    · exact List.isChain_pair.mpr (by decide +kernel)
    · rw [List.forall_mem_cons, List.forall_mem_singleton]
      decide +kernel
    · rw [List.forall_mem_cons, List.forall_mem_singleton]
      decide +kernel
  have taken : PackedChain .sbc (List.cons_ne_nil (taking 1) [taking 3]) := by
    constructor
    · decide +kernel
    · exact List.isChain_pair.mpr (by decide +kernel)
    · rw [List.forall_mem_cons, List.forall_mem_singleton]
      decide +kernel
    · rw [List.forall_mem_cons, List.forall_mem_singleton]
      decide +kernel
  obtain ⟨sum, -, back⟩ := long_decimal_arithmetic (List.cons_ne_nil (adding 1) [adding 3])
  obtain ⟨-, difference, -⟩ := long_decimal_arithmetic (List.cons_ne_nil (taking 1) [taking 3])
  obtain ⟨-, total, carry⟩ := sum added
  obtain ⟨-, rest, borrow⟩ := difference taken
  refine ⟨added, total.trans (by decide +kernel), carry.mpr (by decide +kernel), taken,
    rest.trans (by decide +kernel), ?_, ?_⟩
  · exact Bool.eq_false_iff.mpr (mt borrow.mp (by decide +kernel))
  · have undone := back added (by decide +kernel) (List.cons_ne_nil (taking 1) [taking 3]) taken
      (by decide +kernel) (by decide +kernel) (by decide +kernel)
    exact undone.trans (by decide +kernel)

end Machine
end Nmos6502
