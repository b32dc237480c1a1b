/-
# Words as numbers

Addresses are put together from bytes and move by offsets that are bytes. Told
in numbers, the word of two bytes is their weighted sum, an offset is added
modulo 65536, and another page is reached if the low byte of that sum has a
carry. To move on by one place and then by `n` is to move on by `n + 1`, upward
through memory and downward on the stack.
-/
import Nmos6502.Word

namespace Nmos6502

/-! ### Place by place -/

theorem add_one_add_ofNat {width : Nat} (place : BitVec width) (n : Nat) :
    place + 1 + BitVec.ofNat width n = place + BitVec.ofNat width (n + 1) := by
  rw [BitVec.add_assoc, BitVec.add_comm 1, BitVec.ofNat_add]
  rfl

theorem sub_ofNat_sub_one (place : Byte) (n : Nat) :
    place - BitVec.ofNat 8 n - 1 = place - BitVec.ofNat 8 (n + 1) := by
  rw [BitVec.ofNat_add]
  bv_omega

theorem sub_one_sub_ofNat (place : Byte) (n : Nat) :
    place - 1 - BitVec.ofNat 8 n = place - BitVec.ofNat 8 (n + 1) := by
  rw [← sub_ofNat_sub_one]
  bv_omega

/-! ### Words and numbers -/

namespace Word

theorem ofBytes_eq (l h : Byte) : ofBytes l h = BitVec.ofNat 16 (l.toNat + 256 * h.toNat) := by
  apply BitVec.eq_of_toNat_eq
  rw [toNat_ofBytes, BitVec.toNat_ofNat]
  omega

theorem zeroPage_eq (b : Byte) : zeroPage b = BitVec.ofNat 16 b.toNat := by
  unfold zeroPage
  rw [ofBytes_eq]
  rfl

theorem stackPage_eq (b : Byte) : stackPage b = BitVec.ofNat 16 (256 + b.toNat) := by
  unfold stackPage
  rw [ofBytes_eq, Nat.add_comm]
  rfl

theorem toNat_ofNat_lt {n : Nat} (h : n < 65536) : (BitVec.ofNat 16 n).toNat = n := by
  rw [BitVec.toNat_ofNat]
  exact Nat.mod_eq_of_lt h

theorem add_ofNat (w : Word) (n : Nat) : w + BitVec.ofNat 16 n = BitVec.ofNat 16 (w.toNat + n) := by
  apply BitVec.eq_of_toNat_eq
  rw [BitVec.toNat_add, BitVec.toNat_ofNat, BitVec.toNat_ofNat, Nat.add_mod_mod]

theorem toNat_add_setWidth (w : Word) (index : Byte) :
    (w + index.setWidth 16).toNat = (w.toNat + index.toNat) % 65536 := by
  have hi := index.isLt
  rw [BitVec.toNat_add, BitVec.toNat_setWidth]
  omega

theorem low_add (w : Word) (index : Byte) : (w + index.setWidth 16).low = w.low + index := by
  apply BitVec.eq_of_toNat_eq
  rw [toNat_low, toNat_add_setWidth, BitVec.toNat_add, toNat_low]
  omega

/-- An index leads to another page if the low byte of the sum has a carry. -/
theorem samePage_add (w : Word) (index : Byte) :
    (!samePage w (w + index.setWidth 16)) = decide (256 ≤ w.toNat % 256 + index.toNat) := by
  have hw := w.isLt
  have hi := index.isLt
  rw [Bool.eq_iff_iff, samePage]
  simp only [Bool.not_eq_true', beq_eq_false_iff_ne, ne_eq, decide_eq_true_iff, ← BitVec.toNat_inj,
    toNat_high, toNat_add_setWidth]
  omega

theorem samePage_eq (v w : Word) : samePage v w = decide (v.toNat / 256 = w.toNat / 256) := by
  rw [Bool.eq_iff_iff, decide_eq_true_iff]
  unfold samePage
  rw [beq_iff_eq, ← BitVec.toNat_inj]
  rfl

end Word
end Nmos6502
