/-
# Numbers of several bytes

A number that is too long for a byte is added byte by byte from the lowest up,
each ADC taking in the carry that the one before has left, and subtracted in
the same way by SBC. What goes on in between is left open, as long as it leaves
C and D alone: loads and stores, steps of a pointer, changes of the bus.

The links of such a chain fit together because at each of them what is in the
result and in the carry is what was in the operands and in the carry before, the
carry weighing as much as a whole byte is worth. So it is for the chain
(`Nat.ofDigits` of the results, `conserve`), by induction on its links; a borrow
is a carry below zero. The signed value of a long number is decided by its top
byte, and so is the overflow, by the last link alone (`outOfRange_chain`).
-/
import Mathlib.Data.List.Chain
import Mathlib.Data.Nat.Digits.Defs
import Mathlib.Tactic.Ring
import Nmos6502.Proofs.DataSide
import Nmos6502.Stepping

namespace Nmos6502

/-! ### Chains of digits -/

section

variable {ι : Type} {a v result : ι → Nat} {carryIn carryOut : ι → Int} {base : Nat} {sign : Int}

/-- If no link of a chain loses anything, the chain does not. The sign is 1 for a sum and -1 for a
difference; a borrow is a negative carry. -/
theorem conserve : ∀ {links : List ι} (nonempty : links ≠ []),
    links.IsChain (fun l k => carryIn k = carryOut l) →
    (∀ l ∈ links, (result l : Int) + base * carryOut l = a l + sign * v l + carryIn l) →
    ((Nat.ofDigits base (links.map result) : Nat) : Int) +
        (base ^ links.length : Nat) * carryOut (links.getLast nonempty) =
      (Nat.ofDigits base (links.map a) : Nat) + sign * (Nat.ofDigits base (links.map v) : Nat) +
        carryIn (links.head nonempty)
  | [l], _, _, keeps => by
    have here := keeps l List.mem_cons_self
    simp only [List.map_cons, List.map_nil, Nat.ofDigits_singleton, List.length_singleton, pow_one,
      List.getLast_singleton, List.head_cons]
    exact here
  | l :: k :: rest, _, chained, keeps => by
    obtain ⟨joined, later⟩ := List.isChain_cons_cons.mp chained
    have here := keeps l List.mem_cons_self
    have above := conserve (List.cons_ne_nil k rest) later fun j member =>
      keeps j (List.mem_cons_of_mem l member)
    rw [List.head_cons, joined] at above
    rw [List.getLast_cons (List.cons_ne_nil k rest), List.head_cons, List.map_cons (f := result),
      List.map_cons (f := a), List.map_cons (f := v), Nat.ofDigits_cons, Nat.ofDigits_cons, Nat.ofDigits_cons,
      List.length_cons, pow_succ]
    generalize Nat.ofDigits base ((k :: rest).map result) = Z at above ⊢
    generalize Nat.ofDigits base ((k :: rest).map a) = X at above ⊢
    generalize Nat.ofDigits base ((k :: rest).map v) = Y at above ⊢
    generalize base ^ (k :: rest).length = span at above ⊢
    generalize carryOut ((k :: rest).getLast _) = last at above ⊢
    calc ((result l + base * Z : Nat) : Int) + (span * base : Nat) * last
        = result l + base * (Z + span * last) := by push_cast; ring
      _ = result l + base * (X + sign * Y + carryOut l) := by rw [above]
      _ = result l + base * carryOut l + base * (X + sign * Y) := by ring
      _ = a l + sign * v l + carryIn l + base * (X + sign * Y) := by rw [here]
      _ = (a l + base * X : Nat) + sign * (v l + base * Y : Nat) + carryIn l := by push_cast; ring

end

theorem sum_of_total {span z total : Nat} {carry : Bool} (small : z < span)
    (conserved : z + span * carry.toNat = total) :
    z = total % span ∧ (carry = true ↔ span ≤ total) := by
  cases carry with
  | false =>
    rw [Bool.toNat_false, Nat.mul_zero, Nat.add_zero] at conserved
    subst conserved
    exact ⟨(Nat.mod_eq_of_lt small).symm, by simp [small]⟩
  | true =>
    rw [Bool.toNat_true, Nat.mul_one] at conserved
    subst conserved
    exact ⟨by rw [Nat.add_mod_right, Nat.mod_eq_of_lt small], by simp⟩

theorem difference_of_total {span z : Nat} {total : Int} {carry : Bool} (small : z < span)
    (conserved : (z : Int) + span * (carry.toNat - 1) = total) :
    (z : Int) = total % span ∧ (carry = true ↔ 0 ≤ total) := by
  cases carry with
  | true =>
    rw [Bool.toNat_true, Nat.cast_one, sub_self, mul_zero, add_zero] at conserved
    subst conserved
    exact ⟨(Int.emod_eq_of_lt (by omega) (by omega)).symm, by simp⟩
  | false =>
    have under : total + span = z := by
      rw [← conserved, Bool.toNat_false]
      ring
    refine ⟨?_, by simp; omega⟩
    rw [← Int.add_emod_right total span, under, Int.emod_eq_of_lt (by omega) (by omega)]

namespace Bytes

/-- The number that bytes stand for, the lowest first. -/
def value (bs : List Byte) : Nat :=
  Nat.ofDigits 256 (bs.map BitVec.toNat)

/-- The number in two's complement: from the half up it stands for itself less 256 to the number of
bytes. -/
def signedValue (bs : List Byte) : Int :=
  if 2 * value bs < 256 ^ bs.length then value bs else value bs - (256 ^ bs.length : Nat)

/-- There is no such number of `n` bytes in two's complement. -/
def OutOfRange (n : Nat) (s : Int) : Prop :=
  2 * s < -(256 ^ n : Nat) ∨ ((256 ^ n : Nat) : Int) ≤ 2 * s

instance (n : Nat) (s : Int) : Decidable (OutOfRange n s) :=
  inferInstanceAs (Decidable (_ ∨ _))

theorem value_cons (b : Byte) (bs : List Byte) : value (b :: bs) = b.toNat + 256 * value bs :=
  Nat.ofDigits_cons

theorem value_lt (bs : List Byte) : value bs < 256 ^ bs.length := by
  have digits : ∀ x ∈ bs.map BitVec.toNat, x < 256 := by
    intro x member
    obtain ⟨b, -, rfl⟩ := List.mem_map.mp member
    exact b.isLt
  have small := Nat.ofDigits_lt_base_pow_length (by decide : 1 < 256) digits
  rwa [List.length_map] at small

theorem signedValue_singleton (b : Byte) : signedValue [b] = b.toInt := by
  have single : value [b] = b.toNat := Nat.ofDigits_singleton
  unfold signedValue
  rw [single, DataSheet.toInt_eq, List.length_singleton, pow_one]
  split <;> split <;> omega

theorem even_span (n : Nat) : ∃ half, 256 ^ (n + 1) = 2 * half :=
  ⟨128 * 256 ^ n, by rw [pow_succ]; ring⟩

/-- A lower byte adds to the signed value as to the other. -/
theorem signedValue_cons (b : Byte) {bs : List Byte} (nonempty : bs ≠ []) :
    signedValue (b :: bs) = b.toNat + 256 * signedValue bs := by
  obtain ⟨n, length⟩ := Nat.exists_eq_succ_of_ne_zero (mt List.eq_nil_of_length_eq_zero nonempty)
  obtain ⟨half, even⟩ := even_span n
  have small := b.isLt
  unfold signedValue
  rw [value_cons, List.length_cons, pow_succ, length, even]
  split <;> split <;> omega

/-- A lower byte does not bring a number into range or out of it. -/
theorem outOfRange_cons (b : Byte) (n : Nat) (s : Int) :
    OutOfRange (n + 2) (b.toNat + 256 * s) ↔ OutOfRange (n + 1) s := by
  obtain ⟨half, even⟩ := even_span n
  have small := b.isLt
  unfold OutOfRange
  rw [pow_succ 256 (n + 1), even]
  omega

theorem outOfRange_one (s : Int) : OutOfRange 1 s ↔ DataSheet.outOfRange s = true := by
  unfold OutOfRange DataSheet.outOfRange
  rw [decide_eq_true_iff, pow_one]
  omega

section

variable {ι : Type} {a v result : ι → Byte} {carryIn carryOut : ι → Int} {sign : Int}

/-- Whether a long sum or difference is out of range is decided by its last link. -/
theorem outOfRange_chain : ∀ {links : List ι} (nonempty : links ≠ []),
    links.IsChain (fun l k => carryIn k = carryOut l) →
    (∀ l ∈ links, ((result l).toNat : Int) + 256 * carryOut l =
      (a l).toNat + sign * (v l).toNat + carryIn l) →
    (OutOfRange links.length (signedValue (links.map a) + sign * signedValue (links.map v) +
        carryIn (links.head nonempty)) ↔
      OutOfRange 1 ((a (links.getLast nonempty)).toInt + sign * (v (links.getLast nonempty)).toInt +
        carryIn (links.getLast nonempty)))
  | [l], _, _, _ => by
    rw [List.map_singleton, List.map_singleton, signedValue_singleton, signedValue_singleton]
    rfl
  | l :: k :: rest, _, chained, keeps => by
    obtain ⟨joined, later⟩ := List.isChain_cons_cons.mp chained
    have here := keeps l List.mem_cons_self
    have above := outOfRange_chain (List.cons_ne_nil k rest) later fun j member =>
      keeps j (List.mem_cons_of_mem l member)
    have sum : signedValue ((l :: k :: rest).map a) + sign * signedValue ((l :: k :: rest).map v) +
        carryIn l = (result l).toNat + 256 * (signedValue ((k :: rest).map a) + sign * signedValue ((k :: rest).map v) +
          carryIn k) := by
      rw [List.map_cons (f := a), List.map_cons (f := v), signedValue_cons _ (by simp),
        signedValue_cons _ (by simp), joined]
      generalize signedValue ((k :: rest).map a) = X
      generalize signedValue ((k :: rest).map v) = Y
      calc (a l).toNat + 256 * X + sign * ((v l).toNat + 256 * Y) + carryIn l
          = (a l).toNat + sign * (v l).toNat + carryIn l + 256 * (X + sign * Y) := by ring
        _ = (result l).toNat + 256 * carryOut l + 256 * (X + sign * Y) := by rw [here]
        _ = (result l).toNat + 256 * (X + sign * Y + carryOut l) := by ring
    rw [List.getLast_cons (List.cons_ne_nil k rest), ← above, List.head_cons, List.head_cons, sum]
    exact outOfRange_cons (result l) rest.length _

end

end Bytes

/-! ### One byte -/

namespace DataSheet

/-- Nothing of a binary sum is lost: what does not fit in the byte is in C. -/
theorem addBinary_total (a v : Byte) (p : Status) :
    (addBinary a v p).1.toNat + 256 * (addBinary a v p).2.carry.toNat =
      a.toNat + v.toNat + p.carry.toNat := by
  have ha := a.isLt
  have hv := v.isLt
  have hc := p.carry.toNat_le
  show (BitVec.ofNat 8 (a.toNat + v.toNat + p.carry.toNat)).toNat +
    256 * (decide (256 ≤ a.toNat + v.toNat + p.carry.toNat)).toNat = _
  rw [BitVec.toNat_ofNat]
  by_cases carry : 256 ≤ a.toNat + v.toNat + p.carry.toNat
  · rw [decide_eq_true carry, Bool.toNat_true]
    omega
  · rw [decide_eq_false carry, Bool.toNat_false]
    omega

/-- Nor of a binary difference, in which C is clear if a byte had to be borrowed. -/
theorem subtract_total (a v : Byte) {p : Status} (binary : p.decimal = false) :
    ((subtract a v p).1.toNat : Int) + 256 * ((subtract a v p).2.carry.toNat - 1) =
      a.toNat - v.toNat + (p.carry.toNat - 1) := by
  have ha := a.isLt
  have hv := v.isLt
  have hb : ((!p.carry).toNat : Int) = 1 - p.carry.toNat := by
    cases p.carry <;> rfl
  have result : ((subtract a v p).1.toNat : Int) = ((a.toNat : Int) - v.toNat - (!p.carry).toNat) % 256 := by
    unfold subtract
    rw [binary]
    exact toNat_ofInt _
  have hc := (!p.carry).toNat_le
  rw [result]
  show _ + 256 * (((decide (0 ≤ (a.toNat : Int) - v.toNat - (!p.carry).toNat)).toNat : Int) - 1) = _
  by_cases carry : 0 ≤ (a.toNat : Int) - v.toNat - (!p.carry).toNat
  · rw [decide_eq_true carry, Bool.toNat_true]
    omega
  · rw [decide_eq_false carry, Bool.toNat_false]
    omega

end DataSheet

/-! ### The links -/

namespace Machine

open Bytes

variable {β : Type} [Bus β]

/-- The step adds a byte to A, or takes it from A, and C carries on. `sign` is 1 for a sum and -1 for a
difference, and `idle` is C when it carries nothing: clear for a sum, set for a difference. -/
structure Accumulates (sign idle : Int) (m : Machine β) : Prop where
  total : (m.step.2.regs.a.toNat : Int) + 256 * (m.step.2.regs.p.carry.toNat - idle) =
    m.regs.a.toNat + sign * m.lastRead.toNat + (m.regs.p.carry.toNat - idle)
  overflow : m.step.2.regs.p.overflow = true ↔
    OutOfRange 1 (m.regs.a.toInt + sign * m.lastRead.toInt + (m.regs.p.carry.toNat - idle))
  negative : m.step.2.regs.p.negative = m.step.2.regs.a.msb
  zero : m.step.2.regs.p.zero = (m.step.2.regs.a == 0)

theorem accumulates_of_adc {m : Machine β} (adc : m.step.1.instruction.mnemonic = .adc)
    (binary : m.regs.p.decimal = false) : m.Accumulates 1 0 := by
  have reads : m.step.1.instruction.mnemonic.operation =
      .read fun v r => { r with a := (DataSheet.add r.a v r.p).1, p := (DataSheet.add r.a v r.p).2 } := by
    rw [adc, ← DataSheet.operation_eq]
    rfl
  obtain ⟨pc, regs⟩ := m.step_takes reads
  have sum : DataSheet.add m.regs.a m.lastRead m.regs.p = DataSheet.addBinary m.regs.a m.lastRead m.regs.p := by
    unfold DataSheet.add
    rw [binary]
    rfl
  simp only [sum] at regs
  have total := DataSheet.addBinary_total m.regs.a m.lastRead m.regs.p
  have flags := DataSheet.nz_eq (DataSheet.addBinary m.regs.a m.lastRead m.regs.p).1 m.regs.p
  constructor
  · rw [regs]
    dsimp only
    omega
  · rw [regs, outOfRange_one, one_mul, sub_zero]
    exact Iff.rfl
  · rw [regs]
    exact congrArg Status.negative flags
  · rw [regs]
    exact congrArg Status.zero flags

theorem accumulates_of_sbc {m : Machine β} (sbc : m.step.1.instruction.mnemonic = .sbc)
    (binary : m.regs.p.decimal = false) : m.Accumulates (-1) 1 := by
  have reads : m.step.1.instruction.mnemonic.operation =
      .read fun v r =>
        { r with a := (DataSheet.subtract r.a v r.p).1, p := (DataSheet.subtract r.a v r.p).2 } := by
    rw [sbc, ← DataSheet.operation_eq]
    rfl
  obtain ⟨pc, regs⟩ := m.step_takes reads
  have total := DataSheet.subtract_total m.regs.a m.lastRead binary
  have flags := DataSheet.nz_eq (DataSheet.subtract m.regs.a m.lastRead m.regs.p).1 m.regs.p
  have result : (DataSheet.subtract m.regs.a m.lastRead m.regs.p).1 =
      BitVec.ofInt 8 (m.regs.a.toNat - m.lastRead.toNat - (!m.regs.p.carry).toNat) := by
    unfold DataSheet.subtract
    rw [binary]
    rfl
  have borrow : m.regs.a.toInt + -1 * m.lastRead.toInt + (m.regs.p.carry.toNat - 1) =
      m.regs.a.toInt - m.lastRead.toInt - (!m.regs.p.carry).toNat := by
    cases m.regs.p.carry with
    | false => simp only [Bool.toNat_false, Bool.not_false, Bool.toNat_true]; omega
    | true => simp only [Bool.toNat_false, Bool.not_true, Bool.toNat_true]; omega
  constructor
  · rw [regs]
    dsimp only
    omega
  · rw [regs, borrow, outOfRange_one]
    exact Iff.rfl
  · rw [regs]
    rw [result] at flags ⊢
    exact congrArg Status.negative flags
  · rw [regs]
    rw [result] at flags ⊢
    exact congrArg Status.zero flags

theorem decimal_step {m : Machine β}
    (link : m.step.1.instruction.mnemonic = .adc ∨ m.step.1.instruction.mnemonic = .sbc) :
    m.step.2.regs.p.decimal = m.regs.p.decimal := by
  refine keeps_step (K := fun p => p.decimal = m.regs.p.decimal) ?_ rfl
  rcases link with adc | sbc
  · rw [adc]
    intro v r same
    show (Arithmetic.add r.a v r.p).2.decimal = _
    unfold Arithmetic.add
    split
    · exact same
    · exact same
  · rw [sbc]
    exact fun _ _ same => same

/-! ### The chain -/

/-- What a chain of links does, in one number for the results and the carry. -/
theorem accumulates_chain {sign idle : Int} {links : List (Machine β)} (nonempty : links ≠ [])
    (chained : links.IsChain fun m k => k.regs.p.carry = m.step.2.regs.p.carry)
    (all : ∀ m ∈ links, m.Accumulates sign idle) :
    let xs := links.map fun m => m.regs.a
    let ys := links.map lastRead
    let zs := links.map fun m => m.step.2.regs.a
    let carried := ((links.head nonempty).regs.p.carry.toNat : Int) - idle
    let after := (links.getLast nonempty).step.2.regs
    (value zs : Int) + (256 ^ links.length : Nat) * (after.p.carry.toNat - idle) =
      value xs + sign * value ys + carried ∧
    (after.p.overflow = true ↔
      OutOfRange links.length (signedValue xs + sign * signedValue ys + carried)) ∧
    after.p.negative = after.a.msb ∧ after.p.zero = (after.a == 0) := by
  intro xs ys zs carried after
  have joined : links.IsChain fun m k =>
      (k.regs.p.carry.toNat : Int) - idle = (m.step.2.regs.p.carry.toNat : Int) - idle :=
    chained.imp fun m k same => by rw [same]
  have last := all _ (links.getLast_mem nonempty)
  have total := conserve nonempty joined fun m member => (all m member).total
  have overflow := outOfRange_chain nonempty joined fun m member => (all m member).total
  refine ⟨?_, last.overflow.trans overflow.symm, last.negative, last.zero⟩
  show ((Nat.ofDigits 256 (zs.map BitVec.toNat) : Nat) : Int) + _ =
    (Nat.ofDigits 256 (xs.map BitVec.toNat) : Nat) + sign * (Nat.ofDigits 256 (ys.map BitVec.toNat) : Nat) + _
  rw [List.map_map, List.map_map, List.map_map]
  exact total

theorem decimal_chain {links : List (Machine β)} (nonempty : links ≠ [])
    (kept : links.IsChain fun m k => k.regs.p.decimal = m.step.2.regs.p.decimal)
    (all : ∀ m ∈ links, m.step.1.instruction.mnemonic = .adc ∨ m.step.1.instruction.mnemonic = .sbc) :
    ∀ m ∈ links, m.regs.p.decimal = (links.head nonempty).regs.p.decimal := by
  induction links with
  | nil => exact absurd rfl nonempty
  | cons m rest ih =>
    intro j member
    rcases List.mem_cons.mp member with rfl | member
    · rfl
    · obtain ⟨same, later⟩ := List.isChain_cons.mp kept
      have more : rest ≠ [] := List.ne_nil_of_mem member
      have next : (rest.head more).regs.p.decimal = m.step.2.regs.p.decimal :=
        same _ (List.head_mem_head? more)
      have still := ih more later (fun i above => all i (List.mem_cons_of_mem m above)) j member
      exact still.trans (next.trans (decimal_step (all m List.mem_cons_self)))

/-- D is clear at every link if it is at the first. -/
theorem binary_chain {links : List (Machine β)} (nonempty : links ≠ [])
    (clear : (links.head nonempty).regs.p.decimal = false)
    (kept : links.IsChain fun m k => k.regs.p.decimal = m.step.2.regs.p.decimal)
    (all : ∀ m ∈ links, m.step.1.instruction.mnemonic = .adc ∨ m.step.1.instruction.mnemonic = .sbc) :
    ∀ m ∈ links, m.regs.p.decimal = false :=
  fun m member => (decimal_chain nonempty kept all m member).trans clear

/-- **Numbers of several bytes.** The links are steps of ADC alone or of SBC alone, in any of their modes
and on any bus, each from a machine in which C and D are as the link before has left them; D is clear at
the first. Between two links A is loaded with the next byte of the first number, and anything else may
happen that leaves C and D alone. The byte of the second number is the one the link reads last. Then the
bytes left in A make the sum of both numbers and the carry before the first link, or their difference less
the borrow, modulo 256 to the number of bytes. C is set if the sum does not fit, and if nothing has to be
borrowed; V is set if the signed sum or difference is out of range; N is the top bit of the highest byte,
and Z tells whether that byte is zero. -/
theorem long_arithmetic {links : List (Machine β)} (nonempty : links ≠ [])
    (clear : (links.head nonempty).regs.p.decimal = false)
    (chained : links.IsChain fun m k =>
      k.regs.p.carry = m.step.2.regs.p.carry ∧ k.regs.p.decimal = m.step.2.regs.p.decimal) :
    let n := links.length
    let xs := links.map fun m => m.regs.a
    let ys := links.map lastRead
    let zs := links.map fun m => m.step.2.regs.a
    let carry := (links.head nonempty).regs.p.carry
    let after := (links.getLast nonempty).step.2.regs
    ((∀ m ∈ links, m.step.1.instruction.mnemonic = .adc) →
      value zs = (value xs + value ys + carry.toNat) % 256 ^ n ∧
      (after.p.carry = true ↔ 256 ^ n ≤ value xs + value ys + carry.toNat) ∧
      (after.p.overflow = true ↔ OutOfRange n (signedValue xs + signedValue ys + carry.toNat)) ∧
      after.p.negative = after.a.msb ∧ after.p.zero = (after.a == 0)) ∧
    ((∀ m ∈ links, m.step.1.instruction.mnemonic = .sbc) →
      (value zs : Int) = ((value xs : Int) - value ys - (1 - carry.toNat)) % (256 ^ n : Nat) ∧
      (after.p.carry = true ↔ value ys + (1 - carry.toNat) ≤ value xs) ∧
      (after.p.overflow = true ↔ OutOfRange n (signedValue xs - signedValue ys - (1 - carry.toNat))) ∧
      after.p.negative = after.a.msb ∧ after.p.zero = (after.a == 0)) := by
  intro n xs ys zs carry after
  have small : value zs < 256 ^ n := by
    have lt := value_lt zs
    rwa [List.length_map] at lt
  have carries := chained.imp fun m k same => same.1
  have decimals := chained.imp fun m k same => same.2
  constructor
  · intro adc
    have binary := binary_chain nonempty clear decimals fun m member => .inl (adc m member)
    obtain ⟨total, overflow, flags⟩ := accumulates_chain nonempty carries fun m member =>
      accumulates_of_adc (adc m member) (binary m member)
    rw [one_mul, sub_zero, sub_zero] at total
    rw [one_mul, sub_zero] at overflow
    have conserved : value zs + 256 ^ n * after.p.carry.toNat = value xs + value ys + carry.toNat := by
      exact_mod_cast total
    obtain ⟨sum, carried⟩ := sum_of_total small conserved
    exact ⟨sum, carried, overflow, flags⟩
  · intro sbc
    have binary := binary_chain nonempty clear decimals fun m member => .inr (sbc m member)
    obtain ⟨total, overflow, flags⟩ := accumulates_chain nonempty carries fun m member =>
      accumulates_of_sbc (sbc m member) (binary m member)
    have borrowed (x y : Int) : x + -1 * y + (carry.toNat - 1) = x - y - (1 - carry.toNat) := by ring
    rw [borrowed] at total overflow
    obtain ⟨difference, carried⟩ := difference_of_total small total
    refine ⟨difference, carried.trans ?_, overflow, flags⟩
    have small := carry.toNat_le
    show 0 ≤ (value xs : Int) - value ys - (1 - carry.toNat) ↔ value ys + (1 - carry.toNat) ≤ value xs
    omega

/-- One program adds $0001 to $7FFF, and another takes $0000 and a borrow from $8000, byte by byte: the
signed sum is out of range, and so is the signed difference. -/
theorem long_arithmetic_program :
    let stage (program : List Byte) (steps : Nat) : Machine Rom :=
      ((Walk.begin
        { settings := ⟨⟨1000000⟩, 16⟩, accepted := by decide, regs := .powerOn
          bus := ⟨fun address => program.getD address.toNat 0xEA⟩
          phase := .running, budget := 16 }).times steps).machine
    let adding := stage [0xA9, 0xFF, 0x69, 0x01, 0xA9, 0x7F, 0x69, 0x00]
    let taking := stage [0xA9, 0x00, 0xE9, 0x00, 0xA9, 0x80, 0xE9, 0x00]
    let kept (m k : Machine Rom) : Prop :=
      k.regs.p.carry = m.step.2.regs.p.carry ∧ k.regs.p.decimal = m.step.2.regs.p.decimal
    let result (links : List (Machine Rom)) : Nat := value (links.map fun m => m.step.2.regs.a)
    ((adding 1).regs.p.decimal = false ∧ [adding 1, adding 3].IsChain kept ∧
      result [adding 1, adding 3] = (0x7FFF + 0x0001) % 256 ^ 2 ∧
      (adding 3).step.2.regs.p.overflow = true ∧ (adding 3).step.2.regs.p.negative = true) ∧
    ((taking 1).regs.p.decimal = false ∧ [taking 1, taking 3].IsChain kept ∧
      (result [taking 1, taking 3] : Int) = (0x8000 - 0x0000 - 1) % (256 ^ 2 : Nat) ∧
      (taking 3).step.2.regs.p.carry = true ∧ (taking 3).step.2.regs.p.overflow = true) := by
  intro stage adding taking kept result
  have added : [adding 1, adding 3].IsChain kept :=
    List.isChain_pair.mpr ⟨by decide +kernel, by decide +kernel⟩
  have taken : [taking 1, taking 3].IsChain kept :=
    List.isChain_pair.mpr ⟨by decide +kernel, by decide +kernel⟩
  have adc : ∀ m ∈ [adding 1, adding 3], m.step.1.instruction.mnemonic = .adc := by
    rw [List.forall_mem_cons, List.forall_mem_singleton]
    exact ⟨by decide +kernel, by decide +kernel⟩
  have sbc : ∀ m ∈ [taking 1, taking 3], m.step.1.instruction.mnemonic = .sbc := by
    rw [List.forall_mem_cons, List.forall_mem_singleton]
    exact ⟨by decide +kernel, by decide +kernel⟩
  obtain ⟨sum, -, overflow, negative, -⟩ :=
    (long_arithmetic (List.cons_ne_nil (adding 1) [adding 3]) (by decide +kernel) added).1 adc
  obtain ⟨difference, carry, overflow', -⟩ :=
    (long_arithmetic (List.cons_ne_nil (taking 1) [taking 3]) (by decide +kernel) taken).2 sbc
  refine ⟨⟨by decide +kernel, added, ?_, ?_, ?_⟩, by decide +kernel, taken, ?_, ?_, ?_⟩
  · exact sum.trans (by decide +kernel)
  · exact overflow.mpr (by decide +kernel)
  · have top : (adding 3).step.2.regs.a.msb = true := by decide +kernel
    exact Eq.trans negative top
  · exact difference.trans (by decide +kernel)
  · exact carry.mpr (by decide +kernel)
  · exact overflow'.mpr (by decide +kernel)

end Machine
end Nmos6502
