/-
# The processor computes what the data sheet says

The data sheet tells of sums and differences as numbers, and of overflow as a
signed number that is out of range; the processor works with bytes, carries and
top bits. Each of its functions gives the sheet's result and flags for all
operands, in decimal mode too, so every mnemonic stands for the operation that
the sheet lists.
-/
import Nmos6502.Proofs.DataSheet

namespace Nmos6502
namespace DataSheet

/-! ### Bytes as numbers -/

theorem msb_eq (b : Byte) : b.msb = decide (128 ≤ b.toNat) :=
  BitVec.msb_eq_decide b

theorem toInt_eq (b : Byte) : b.toInt = if 128 ≤ b.toNat then (b.toNat : Int) - 256 else b.toNat := by
  have := b.isLt
  rw [BitVec.toInt_eq_toNat_cond]
  split <;> split <;> omega

theorem toNat_and_F0 (b : Byte) : (b &&& 0xF0).toNat = b.toNat / 16 * 16 := by
  revert b
  decide

theorem toNat_ofInt (n : Int) : ((BitVec.ofInt 8 n).toNat : Int) = n % 256 := by
  rw [BitVec.toNat_ofInt]
  omega

theorem ofInt_congr {n k : Int} (h : n % 256 = k % 256) : BitVec.ofInt 8 n = BitVec.ofInt 8 k := by
  apply BitVec.eq_of_toNat_eq
  have hn := toNat_ofInt n
  have hk := toNat_ofInt k
  omega

theorem nz_eq (result : Byte) (p : Status) : nz result p = p.withResult result := by
  have zero : decide (result.toNat = 0) = (result == 0) := by
    rw [Bool.eq_iff_iff, decide_eq_true_iff, beq_iff_eq]
    exact ⟨fun h => BitVec.eq_of_toNat_eq h, fun h => h ▸ rfl⟩
  unfold nz Status.withResult
  rw [zero, msb_eq]

/-! ### Addition -/

/-- A signed sum is out of range if both numbers have one sign and the result has the other. -/
theorem overflow_sum {a v result : Byte} {carry : Nat} (hc : carry ≤ 1)
    (h : result.toNat = (a.toNat + v.toNat + carry) % 256) :
    outOfRange (a.toInt + v.toInt + carry) = (a.msb == v.msb && result.msb != a.msb) := by
  have ha := a.isLt
  have hv := v.isLt
  rw [Bool.eq_iff_iff]
  simp only [outOfRange, msb_eq, toInt_eq, h, decide_eq_true_iff, Bool.and_eq_true, beq_iff_eq,
    bne_iff_ne, decide_eq_decide, ne_eq]
  split <;> split <;> omega

theorem addBinary_eq (a v : Byte) (p : Status) : addBinary a v p = Arithmetic.addBinary a v p := by
  unfold addBinary Arithmetic.addBinary
  simp only [nz_eq]
  rw [overflow_sum p.carry.toNat_le (BitVec.toNat_ofNat _ _)]

/-- The carry of the low digits may be kept in their sum, as 16, or go to the high digits, as 1. -/
theorem decimal_sum (a v lowSum : Nat) (h : lowSum < 32) :
    let low := if 10 ≤ lowSum then (lowSum + 6) % 16 + 16 else lowSum
    let moved := if lowSum ≥ 10 then lowSum + 6 else lowSum
    a / 16 * 16 + v / 16 * 16 + low =
      (a / 16 + v / 16 + if moved ≥ 16 then 1 else 0) * 16 + moved % 16 := by
  intro low moved
  by_cases ten : 10 ≤ lowSum
  · simp only [low, moved, ge_iff_le, if_pos ten]
    split <;> omega
  · simp only [low, moved, ge_iff_le, if_neg ten]
    split <;> omega

theorem addDecimal_eq (a v : Byte) (p : Status) : addDecimal a v p = Arithmetic.addDecimal a v p := by
  have ha := a.isLt
  have hv := v.isLt
  have hc := p.carry.toNat_le
  have sum := decimal_sum a.toNat v.toNat (a.toNat % 16 + v.toNat % 16 + p.carry.toNat) (by omega)
  have small : (if 10 ≤ a.toNat % 16 + v.toNat % 16 + p.carry.toNat then
      (a.toNat % 16 + v.toNat % 16 + p.carry.toNat + 6) % 16 + 16
      else a.toNat % 16 + v.toNat % 16 + p.carry.toNat) < 32 := by
    split <;> omega
  unfold addDecimal Arithmetic.addDecimal
  simp only [toNat_and_F0, toInt_eq, msb_eq] at sum ⊢
  -- from here on the digits are numbers; what is known of them is `sum` and `small`
  generalize a.toNat % 16 + v.toNat % 16 + p.carry.toNat = lowSum at *
  generalize (if 10 ≤ lowSum then (lowSum + 6) % 16 + 16 else lowSum) = low at *
  generalize (if lowSum ≥ 10 then lowSum + 6 else lowSum) = moved at *
  generalize (a.toNat / 16 + v.toNat / 16 + if moved ≥ 16 then 1 else 0) = high at *
  have result : (if 160 ≤ high * 16 + moved % 16 then high * 16 + moved % 16 + 96
      else high * 16 + moved % 16) = (if high ≥ 10 then high + 6 else high) * 16 + moved % 16 := by
    split <;> split <;> omega
  have carry : decide (256 ≤ (if high ≥ 10 then high + 6 else high) * 16 + moved % 16) =
      decide ((if high ≥ 10 then high + 6 else high) ≥ 16) := by
    rw [decide_eq_decide]
    omega
  have negative : decide (128 ≤ (high * 16 + moved % 16) % 256) = (high / 8 % 2 == 1) := by
    rw [Bool.eq_iff_iff, decide_eq_true_iff, beq_iff_eq]
    omega
  have zero : decide ((a.toNat + v.toNat + p.carry.toNat) % 256 = 0) =
      ((a.toNat + v.toNat + p.carry.toNat) % 256 == 0) := by
    rw [Bool.eq_iff_iff, decide_eq_true_iff, beq_iff_eq]
  rw [sum, result, carry, negative, zero]
  congr 2
  rw [← negative, Bool.eq_iff_iff]
  simp only [outOfRange, decide_eq_true_iff, Bool.and_eq_true, beq_iff_eq, bne_iff_ne,
    decide_eq_decide, ne_eq]
  split <;> split <;> omega

theorem add_eq (a v : Byte) (p : Status) : add a v p = Arithmetic.add a v p := by
  unfold add Arithmetic.add
  rw [addBinary_eq, addDecimal_eq]

/-! ### Subtraction -/

/-- A signed difference is out of range if the numbers have two signs and the result has the second. -/
theorem overflow_difference {a v result : Byte} {borrow : Nat} (hb : borrow ≤ 1)
    (h : (result.toNat : Int) = ((a.toNat : Int) - v.toNat - borrow) % 256) :
    outOfRange (a.toInt - v.toInt - borrow) = (a.msb != v.msb && result.msb != a.msb) := by
  have ha := a.isLt
  have hv := v.isLt
  have hr := result.isLt
  rw [Bool.eq_iff_iff]
  simp only [outOfRange, msb_eq, toInt_eq, decide_eq_true_iff, Bool.and_eq_true, bne_iff_ne,
    decide_eq_decide, ne_eq]
  split <;> split <;> omega

theorem ofInt_difference (a v : Byte) (borrow : Nat) :
    BitVec.ofInt 8 ((a.toNat : Int) - v.toNat - borrow) = a - v - BitVec.ofNat 8 borrow := by
  apply BitVec.eq_of_toNat_eq
  have result := toNat_ofInt ((a.toNat : Int) - v.toNat - borrow)
  have ha := a.isLt
  have hv := v.isLt
  rw [BitVec.toNat_sub, BitVec.toNat_sub, BitVec.toNat_ofNat]
  omega

theorem differenceDecimal_eq (a v : Byte) (borrow : Nat) :
    differenceDecimal a v borrow = Arithmetic.differenceDecimal a v borrow := by
  have ha := a.isLt
  have hv := v.isLt
  unfold differenceDecimal Arithmetic.differenceDecimal
  simp only [toNat_and_F0]
  apply ofInt_congr
  generalize digits : (a.toNat % 16 : Nat) - (v.toNat % 16 : Nat) - (borrow : Int) = lowDiff
  by_cases borrows : lowDiff < 0
  · simp only [if_pos borrows]
    split <;> split <;> omega
  · simp only [if_neg borrows]
    split <;> split <;> omega

theorem subtract_eq (a v : Byte) (p : Status) : subtract a v p = Arithmetic.subtract a v p := by
  have carry : decide ((0 : Int) ≤ a.toNat - v.toNat - (!p.carry).toNat) =
      decide (v.toNat + (!p.carry).toNat ≤ a.toNat) := by
    rw [decide_eq_decide]
    omega
  have overflow := overflow_difference (Bool.toNat_le (!p.carry))
    (toNat_ofInt ((a.toNat : Int) - v.toNat - (!p.carry).toNat))
  unfold subtract Arithmetic.subtract Arithmetic.subtractBinary
  simp only [nz_eq, differenceDecimal_eq, carry, overflow, ofInt_difference]

/-! ### Comparison, bit test, shifts -/

theorem compare_eq (register v : Byte) (p : Status) :
    compare register v p = Arithmetic.compare register v p := by
  unfold compare Arithmetic.compare
  rw [nz_eq]
  rfl

theorem bitTest_eq (a v : Byte) (p : Status) : bitTest a v p = Arithmetic.bitTest a v p := by
  have overflow : decide (64 ≤ v.toNat % 128) = v.getLsbD 6 := by
    revert v
    decide
  have zero : decide (a &&& v = 0) = (a &&& v == 0) := by
    rw [Bool.eq_iff_iff, decide_eq_true_iff, beq_iff_eq]
  unfold bitTest Arithmetic.bitTest
  rw [overflow, zero, msb_eq]

theorem up_eq (bitIn : Bool) (v : Byte) (p : Status) : up bitIn v p = Arithmetic.up bitIn v p := by
  have result : (v <<< 1 ||| if bitIn then 0x01 else 0x00) = Arithmetic.moveUp v bitIn := by
    revert v bitIn
    decide
  unfold up Arithmetic.up
  simp only [nz_eq, result, msb_eq]

theorem down_eq (bitIn : Bool) (v : Byte) (p : Status) :
    down bitIn v p = Arithmetic.down bitIn v p := by
  have result : (v >>> 1 ||| if bitIn then 0x80 else 0x00) = Arithmetic.moveDown v bitIn := by
    revert v bitIn
    decide
  have carry : decide (v.toNat % 2 = 1) = v.getLsbD 0 := by
    clear result
    revert v
    decide
  unfold down Arithmetic.down
  simp only [nz_eq, result, carry]

/-! ### Operations -/

theorem toA_eq : toA = Registers.loadA := by
  funext v r
  unfold toA Registers.loadA
  rw [nz_eq]

theorem toX_eq : toX = Registers.loadX := by
  funext v r
  unfold toX Registers.loadX
  rw [nz_eq]

theorem toY_eq : toY = Registers.loadY := by
  funext v r
  unfold toY Registers.loadY
  rw [nz_eq]

theorem pushedByBreak_eq (p : Status) : p.toByte ||| 0x30 = p.pushedByBreak := by
  obtain ⟨c, z, i, d, b, r, v, n⟩ := p
  revert c z i d b r v n
  decide

theorem pulled_eq (v : Byte) : Status.ofByte (v &&& 0xEF ||| 0x20) = Status.pulled v := by
  revert v
  decide

/-- **Every mnemonic stands for the operation that the sheet lists.** -/
theorem operation_eq (m : Mnemonic) : operation m = m.operation := by
  cases m with
  | lda | ldx | ldy | and | ora | eor | pla =>
    simp only [operation, Mnemonic.operation, toA_eq, toX_eq, toY_eq]
  | inx | iny | dex | dey | tax | tay | txa | tya | tsx =>
    simp only [operation, Mnemonic.operation, toA_eq, toX_eq, toY_eq]
  | adc | sbc | cmp | cpx | cpy | bit =>
    simp only [operation, Mnemonic.operation, add_eq, subtract_eq, compare_eq, bitTest_eq]
    rfl
  | asl | lsr | rol | ror =>
    simp only [operation, Mnemonic.operation]
    congr 1
    funext v p
    simp only [up_eq, down_eq]
    rfl
  | inc | dec =>
    simp only [operation, Mnemonic.operation, nz_eq]
    rfl
  | php => simp only [operation, Mnemonic.operation, pushedByBreak_eq]
  | plp => simp only [operation, Mnemonic.operation, pulled_eq]
  | bpl | bmi | bvc | bvs | bcc | bcs | bne | beq =>
    simp only [operation, Mnemonic.operation, Bool.decide_eq_false, Bool.decide_eq_true]
  | sta | stx | sty | pha => rfl
  | txs | clc | sec | cli | sei | cld | sed | clv | nop => rfl
  | jmp | jsr | rts | rti | brk | illegal => rfl

/-- In the matrix a documented operation stands only with the modes it takes. -/
theorem takes_decode {opcode : Byte} {operation : Operation}
    (stands : (Instruction.decode opcode).mnemonic.operation = operation)
    (documented : operation ≠ .undocumented) : operation.takes (Instruction.decode opcode).mode = true := by
  have decoded : Instruction.decode opcode =
      { opcode := opcode, mnemonic := (Instruction.decode opcode).mnemonic
        mode := (Instruction.decode opcode).mode } := rfl
  have listed := (mem_opcodes_iff _ _ opcode).mpr ⟨decoded, fun illegal => ?_⟩
  · rw [← stands, ← operation_eq]
    exact takes_of_listed listed
  · rw [illegal] at stands
    exact documented stands.symm

end DataSheet
end Nmos6502
