/-
# Long shifts and rotates

A number of several bytes is moved by one place byte by byte. What leaves a byte
is in C, and the next byte takes it in: upward from the lowest byte, by ASL and
then ROL, and downward from the highest, by LSR and then ROR.

A number of `n` bytes and the carry are a ring of `8 n + 1` bits. A byte that is
rotated gives on what it held and what came in, and so does a whole pass: the
bits afterwards are the bits before, each one place further (`bits_rollUp`,
`bits_rollDown`). What a pass does to the number, that two passes undo one
another, and that `8 n + 1` of them bring every bit home, is read off this.

Bytes and carry move alike whether the shifts are taken as functions of bytes
and flags (`Shift.work_run`) or as instructions on bytes in memory, with others
between them (`Machine.Shifting.run`).

Key definitions: `Shift`, `Shift.pass`, `Shift.work`, `Bytes.bits`,
`Machine.Shifting`, `LongShifts`.
Key theorems: `Bytes.bits_rollUp`, `Bytes.bits_rollDown`, `Bytes.ring_timesUp`,
`Shift.run_up`, `Shift.run_down`, `Machine.Shifting.run`, `Shift.long_shifts`.
-/
import Mathlib.Data.List.Rotate
import Nmos6502.Proofs.Multibyte
import Nmos6502.Proofs.OnPlain

namespace Nmos6502

/-! ### Bits of a number -/

/-- The bits of a byte, the lowest first. -/
def Byte.bits (v : Byte) : List Bool :=
  List.ofFn fun i : Fin 8 => v.getLsbD i

theorem Byte.length_bits (v : Byte) : (Byte.bits v).length = 8 :=
  List.length_ofFn

theorem Byte.ofDigits_bits : ∀ v : Byte, Nat.ofDigits 2 ((Byte.bits v).map Bool.toNat) = v.toNat := by
  decide +kernel

/-- Moved up, a byte takes a bit in at the bottom and gives one out at the top. -/
theorem Byte.bits_moveUp (v : Byte) (c : Bool) :
    Byte.bits (Arithmetic.moveUp v c) ++ [v.msb] = c :: Byte.bits v := by
  have moved : Arithmetic.moveUp v c = v <<< 1 ||| if c then 0x01 else 0x00 :=
    (congrArg Prod.fst (DataSheet.up_eq c v (Status.ofByte 0))).symm
  rw [moved, BitVec.msb_eq_getLsbD_last]
  cases c <;> simp [Byte.bits, List.ofFn_succ]

theorem Byte.bits_moveDown (v : Byte) (c : Bool) :
    v.getLsbD 0 :: Byte.bits (Arithmetic.moveDown v c) = Byte.bits v ++ [c] := by
  have moved : Arithmetic.moveDown v c = v >>> 1 ||| if c then 0x80 else 0x00 :=
    (congrArg Prod.fst (DataSheet.down_eq c v (Status.ofByte 0))).symm
  rw [moved]
  cases c <;> simp [Byte.bits, List.ofFn_succ]

namespace Bytes

open Arithmetic

def bits (bs : List Byte) : List Bool :=
  bs.flatMap Byte.bits

theorem bits_cons (v : Byte) (bs : List Byte) : bits (v :: bs) = Byte.bits v ++ bits bs :=
  List.flatMap_cons

theorem length_bits : ∀ bs : List Byte, (bits bs).length = 8 * bs.length
  | [] => rfl
  | v :: bs => by
    rw [bits_cons, List.length_append, Byte.length_bits, length_bits bs, List.length_cons, Nat.mul_succ,
      Nat.add_comm]

theorem ofDigits_bits : ∀ bs : List Byte, Nat.ofDigits 2 ((bits bs).map Bool.toNat) = value bs
  | [] => rfl
  | v :: bs => by
    have span : 2 ^ 8 = 256 := rfl
    rw [bits_cons, List.map_append, Nat.ofDigits_append, List.length_map, Byte.length_bits, span,
      Byte.ofDigits_bits, ofDigits_bits bs, value_cons]

theorem eq_of_bits {bs cs : List Byte} (length : bs.length = cs.length) (same : bits bs = bits cs) :
    bs = cs := by
  have values : value bs = value cs := by
    rw [← ofDigits_bits, ← ofDigits_bits, same]
  have digits : ∀ (ds : List Byte), ∀ d ∈ ds.map BitVec.toNat, d < 256 := by
    intro ds d member
    obtain ⟨v, -, rfl⟩ := List.mem_map.mp member
    exact v.isLt
  refine List.map_injective_iff.mpr (fun v w => BitVec.eq_of_toNat_eq) ?_
  refine Nat.ofDigits_inj_of_len_eq (by decide : 1 < 256) ?_ (digits bs) (digits cs) values
  rw [List.length_map, List.length_map, length]

/-! ### A pass over several bytes -/

/-- The bytes moved up from the lowest, each with the bit that left the one below, and what leaves the
highest. -/
def rollUp : List Byte → Bool → List Byte × Bool
  | [], c => ([], c)
  | v :: bs, c => (moveUp v c :: (rollUp bs v.msb).1, (rollUp bs v.msb).2)

/-- The bytes moved down from the highest, each with the bit that left the one above, and what leaves the
lowest. -/
def rollDown : List Byte → Bool → List Byte × Bool
  | [], c => ([], c)
  | v :: bs, c => (moveDown v (rollDown bs c).2 :: (rollDown bs c).1, v.getLsbD 0)

theorem length_rollUp : ∀ (bs : List Byte) (c : Bool), (rollUp bs c).1.length = bs.length
  | [], _ => rfl
  | v :: bs, _ => congrArg (· + 1) (length_rollUp bs v.msb)

theorem length_rollDown : ∀ (bs : List Byte) (c : Bool), (rollDown bs c).1.length = bs.length
  | [], _ => rfl
  | _ :: bs, c => congrArg (· + 1) (length_rollDown bs c)

/-- No bit is lost upward. -/
theorem bits_rollUp : ∀ (bs : List Byte) (c : Bool),
    bits (rollUp bs c).1 ++ [(rollUp bs c).2] = c :: bits bs
  | [], _ => rfl
  | v :: bs, c => by
    calc bits (rollUp (v :: bs) c).1 ++ [(rollUp (v :: bs) c).2]
        = Byte.bits (moveUp v c) ++ (bits (rollUp bs v.msb).1 ++ [(rollUp bs v.msb).2]) :=
          List.append_assoc _ _ _
      _ = Byte.bits (moveUp v c) ++ [v.msb] ++ bits bs := by
          rw [bits_rollUp bs v.msb, List.append_cons]
      _ = c :: bits (v :: bs) := by
          rw [Byte.bits_moveUp]
          rfl

theorem bits_rollDown : ∀ (bs : List Byte) (c : Bool),
    (rollDown bs c).2 :: bits (rollDown bs c).1 = bits bs ++ [c]
  | [], _ => rfl
  | v :: bs, c => by
    calc (rollDown (v :: bs) c).2 :: bits (rollDown (v :: bs) c).1
        = v.getLsbD 0 :: Byte.bits (moveDown v (rollDown bs c).2) ++ bits (rollDown bs c).1 := rfl
      _ = Byte.bits v ++ ((rollDown bs c).2 :: bits (rollDown bs c).1) := by
          rw [Byte.bits_moveDown, List.append_assoc]
          rfl
      _ = bits (v :: bs) ++ [c] := by
          rw [bits_rollDown bs c, bits_cons, List.append_assoc]

/-- A pass down undoes a pass up. -/
theorem rollDown_rollUp (bs : List Byte) (c : Bool) : rollDown (rollUp bs c).1 (rollUp bs c).2 = (bs, c) := by
  have back := bits_rollDown (rollUp bs c).1 (rollUp bs c).2
  rw [bits_rollUp] at back
  obtain ⟨carry, same⟩ := List.cons.inj back
  refine Prod.ext (eq_of_bits ?_ same) carry
  rw [length_rollDown, length_rollUp]

theorem rollUp_rollDown (bs : List Byte) (c : Bool) :
    rollUp (rollDown bs c).1 (rollDown bs c).2 = (bs, c) := by
  have back := bits_rollUp (rollDown bs c).1 (rollDown bs c).2
  rw [bits_rollDown] at back
  obtain ⟨same, carry⟩ := List.append_inj' back rfl
  refine Prod.ext (eq_of_bits ?_ same) (List.cons.inj carry).1
  rw [length_rollUp, length_rollDown]

/-- If the bits of a number with one on top are those of another with one below, the first is twice the
second, the bit on top weighing as much as a further byte. -/
theorem value_of_bits {bs cs : List Byte} {top low : Bool} (turned : bits bs ++ [top] = low :: bits cs) :
    value bs + 256 ^ bs.length * top.toNat = 2 * value cs + low.toNat := by
  have digits := congrArg (fun l => Nat.ofDigits 2 (l.map Bool.toNat)) turned
  have span : 2 ^ (8 * bs.length) = 256 ^ bs.length := pow_mul 2 8 bs.length
  rw [List.map_append, Nat.ofDigits_append, List.length_map, length_bits, span, ofDigits_bits,
    List.map_singleton, Nat.ofDigits_singleton, List.map_cons, Nat.ofDigits_cons, ofDigits_bits] at digits
  rw [digits, Nat.add_comm]

theorem testBit_top {x k : Nat} (fits : x < 2 ^ (k + 1)) : x.testBit k = true ↔ 2 ^ (k + 1) ≤ 2 * x := by
  have some := Nat.two_pow_pos k
  rw [pow_succ] at fits ⊢
  rw [Nat.testBit_eq_decide_div_mod_eq, decide_eq_true_iff]
  generalize 2 ^ k = half at fits some ⊢
  have bit : x / half < 2 := Nat.div_lt_of_lt_mul fits
  have set := Nat.one_le_div_iff (a := x) some
  generalize x / half = quotient at bit set ⊢
  omega

/-- A pass up with a zero doubles the number, as far as it fits, and its top bit leaves. -/
theorem value_rollUp {bs : List Byte} (nonempty : bs ≠ []) :
    value (rollUp bs false).1 = 2 * value bs % 256 ^ bs.length ∧
    (rollUp bs false).2 = (value bs).testBit (8 * bs.length - 1) := by
  have total := value_of_bits (bits_rollUp bs false)
  rw [length_rollUp, Bool.toNat_false, Nat.add_zero] at total
  have small := value_lt (rollUp bs false).1
  rw [length_rollUp] at small
  obtain ⟨sum, carry⟩ := sum_of_total small total
  have positive := List.length_pos_iff.mpr nonempty
  have span : 256 ^ bs.length = 2 ^ (8 * bs.length - 1 + 1) := by
    rw [Nat.sub_add_cancel (by omega)]
    exact (pow_mul 2 8 bs.length).symm
  have fits := value_lt bs
  rw [span] at fits carry
  exact ⟨sum, Bool.eq_iff_iff.mpr (carry.trans (testBit_top fits).symm)⟩

theorem value_rollDown (bs : List Byte) :
    value (rollDown bs false).1 = value bs / 2 ∧ (rollDown bs false).2 = (value bs).testBit 0 := by
  have total := value_of_bits (bits_rollDown bs false).symm
  rw [Bool.toNat_false, Nat.mul_zero, Nat.add_zero] at total
  rw [total, Nat.testBit_zero]
  generalize (rollDown bs false).2 = out
  cases out with
  | false => exact ⟨by rw [Bool.toNat_false]; omega, by rw [Bool.toNat_false]; simp⟩
  | true => exact ⟨by rw [Bool.toNat_true]; omega, by rw [Bool.toNat_true]; simp⟩

/-! ### The ring -/

/-- The bits of several bytes with the carry on top. -/
def ring (s : List Byte × Bool) : List Bool :=
  bits s.1 ++ [s.2]

theorem eq_of_ring {s t : List Byte × Bool} (length : s.1.length = t.1.length) (same : ring s = ring t) :
    s = t := by
  obtain ⟨bytes, carry⟩ := List.append_inj' same rfl
  exact Prod.ext (eq_of_bits length bytes) (List.cons.inj carry).1

def timesUp : Nat → List Byte × Bool → List Byte × Bool
  | 0, s => s
  | k + 1, s => timesUp k (rollUp s.1 s.2)

theorem length_timesUp : ∀ (k : Nat) (s : List Byte × Bool), (timesUp k s).1.length = s.1.length
  | 0, _ => rfl
  | k + 1, s => by
    rw [timesUp, length_timesUp k, length_rollUp]

/-- Each pass turns the ring by one place. -/
theorem ring_timesUp : ∀ (k : Nat) (s : List Byte × Bool), (ring (timesUp k s)).rotate k = ring s
  | 0, s => List.rotate_zero _
  | k + 1, s => by
    have turned : (ring (rollUp s.1 s.2)).rotate 1 = ring s := by
      unfold ring
      rw [bits_rollUp, List.rotate_cons_succ, List.rotate_zero]
    rw [timesUp, ← List.rotate_rotate, ring_timesUp k, turned]

/-- After as many passes as there are bits, each is where it was. -/
theorem timesUp_ring (bs : List Byte) (c : Bool) : timesUp (8 * bs.length + 1) (bs, c) = (bs, c) := by
  have turned := ring_timesUp (8 * bs.length + 1) (bs, c)
  have places := length_timesUp (8 * bs.length + 1) (bs, c)
  generalize timesUp (8 * bs.length + 1) (bs, c) = after at turned places ⊢
  have whole : (ring after).length = 8 * bs.length + 1 := by
    rw [ring, List.length_append, length_bits, places]
    rfl
  rw [← whole, List.rotate_length] at turned
  exact eq_of_ring places turned

end Bytes

/-! ### The instructions -/

inductive Shift where
  | asl
  | lsr
  | rol
  | ror

namespace Shift

def apply : Shift → Byte → Status → Byte × Status
  | .asl => Arithmetic.shiftLeft
  | .lsr => Arithmetic.shiftRight
  | .rol => Arithmetic.rotateLeft
  | .ror => Arithmetic.rotateRight

def mnemonic : Shift → Mnemonic
  | .asl => .asl
  | .lsr => .lsr
  | .rol => .rol
  | .ror => .ror

/-- What a shift does to the byte and the carry. -/
def move : Shift → Byte → Bool → Byte × Bool
  | .asl, v, _ => (Arithmetic.moveUp v false, v.msb)
  | .lsr, v, _ => (Arithmetic.moveDown v false, v.getLsbD 0)
  | .rol, v, c => (Arithmetic.moveUp v c, v.msb)
  | .ror, v, c => (Arithmetic.moveDown v c, v.getLsbD 0)

theorem operation_mnemonic (s : Shift) : s.mnemonic.operation = .modify s.apply := by
  cases s <;> rfl

theorem apply_eq_move (s : Shift) (v : Byte) (p : Status) :
    ((s.apply v p).1, (s.apply v p).2.carry) = s.move v p.carry := by
  cases s <;> rfl

end Shift

structure Status.SameModes (p q : Status) : Prop where
  overflow : q.overflow = p.overflow
  decimal : q.decimal = p.decimal
  interruptDisable : q.interruptDisable = p.interruptDisable

theorem Status.SameModes.trans {p q r : Status} (h : p.SameModes q) (k : q.SameModes r) : p.SameModes r :=
  ⟨k.overflow.trans h.overflow, k.decimal.trans h.decimal, k.interruptDisable.trans h.interruptDisable⟩

theorem Shift.sameModes_apply (s : Shift) (v : Byte) (p : Status) : p.SameModes (s.apply v p).2 := by
  cases s <;> exact ⟨rfl, rfl, rfl⟩

/-! ### Several of them -/

namespace Shift

open Bytes

section

variable {ι : Type} [DecidableEq ι]

/-- One instruction for the first of several bytes and another for those after it. -/
def pass (first later : Shift) : List ι → List (Shift × ι)
  | [] => []
  | place :: places => (first, place) :: places.map fun next => (later, next)

/-- What shifts do, one after the other, to bytes in their places and the carry. -/
def run : List (Shift × ι) → (ι → Byte) → Bool → (ι → Byte) × Bool
  | [], cells, c => (cells, c)
  | (s, place) :: todo, cells, c =>
    run todo (Function.update cells place (s.move (cells place) c).1) (s.move (cells place) c).2

/-- And what they do as functions to the bytes and the flags. -/
def work : List (Shift × ι) → (ι → Byte) × Status → (ι → Byte) × Status
  | [], state => state
  | (s, place) :: todo, (cells, p) =>
    work todo (Function.update cells place (s.apply (cells place) p).1, (s.apply (cells place) p).2)

theorem run_append : ∀ (todo later : List (Shift × ι)) (cells : ι → Byte) (c : Bool),
    run (todo ++ later) cells c = run later (run todo cells c).1 (run todo cells c).2
  | [], _, _, _ => rfl
  | _ :: todo, later, _, _ => run_append todo later _ _

/-- Of the flags nothing but C decides what happens, and V, D and I are left alone. -/
theorem work_run : ∀ (todo : List (Shift × ι)) (state : (ι → Byte) × Status),
    ((work todo state).1, (work todo state).2.carry) = run todo state.1 state.2.carry ∧
    state.2.SameModes (work todo state).2
  | [], _ => ⟨rfl, rfl, rfl, rfl⟩
  | (s, place) :: todo, (cells, p) => by
    obtain ⟨same, modes⟩ := work_run todo
      (Function.update cells place (s.apply (cells place) p).1, (s.apply (cells place) p).2)
    refine ⟨?_, (s.sameModes_apply (cells place) p).trans modes⟩
    rw [run, ← s.apply_eq_move]
    exact same

/-! ### A pass moves the number -/

theorem map_update {place : ι} {places : List ι} (fresh : place ∉ places) (cells : ι → Byte) (v : Byte) :
    places.map (Function.update cells place v) = places.map cells :=
  List.map_congr_left fun _ member => Function.update_of_ne (ne_of_mem_of_not_mem member fresh) _ _

theorem run_up : ∀ {places : List ι}, places.Nodup → ∀ (cells : ι → Byte) (c : Bool),
    let after := run (places.map fun place => (rol, place)) cells c
    (places.map after.1, after.2) = rollUp (places.map cells) c ∧
    ∀ other, other ∉ places → after.1 other = cells other
  | [], _, _, _ => ⟨rfl, fun _ _ => rfl⟩
  | place :: places, nodup, cells, c => by
    obtain ⟨fresh, nodup⟩ := List.nodup_cons.mp nodup
    intro after
    obtain ⟨moved, kept⟩ := run_up nodup (Function.update cells place (Arithmetic.moveUp (cells place) c))
      (cells place).msb
    have here : after.1 place = Arithmetic.moveUp (cells place) c :=
      (kept place fresh).trans (Function.update_self _ _ _)
    rw [map_update fresh] at moved
    refine ⟨?_, fun other elsewhere => ?_⟩
    · rw [List.map_cons, List.map_cons, here, rollUp, ← moved]
      rfl
    · obtain ⟨notHere, later⟩ := not_or.mp (mt List.mem_cons.mpr elsewhere)
      exact (kept other later).trans (Function.update_of_ne notHere _ _)

theorem run_down : ∀ {places : List ι}, places.Nodup → ∀ (cells : ι → Byte) (c : Bool),
    let after := run (places.reverse.map fun place => (ror, place)) cells c
    (places.map after.1, after.2) = rollDown (places.map cells) c ∧
    ∀ other, other ∉ places → after.1 other = cells other
  | [], _, _, _ => ⟨rfl, fun _ _ => rfl⟩
  | place :: places, nodup, cells, c => by
    obtain ⟨fresh, nodup⟩ := List.nodup_cons.mp nodup
    obtain ⟨moved, kept⟩ := run_down nodup cells c
    -- The lowest byte comes last.
    rw [List.reverse_cons, List.map_append, List.map_singleton, run_append, run, run]
    generalize run (places.reverse.map fun place => (ror, place)) cells c = above at moved kept
    rw [kept place fresh]
    dsimp only
    refine ⟨?_, fun other elsewhere => ?_⟩
    · rw [List.map_cons, List.map_cons, map_update fresh, Function.update_self, rollDown, ← moved]
      rfl
    · obtain ⟨notHere, later⟩ := not_or.mp (mt List.mem_cons.mpr elsewhere)
      exact (Function.update_of_ne notHere _ _).trans (kept other later)

omit [DecidableEq ι] in
theorem pass_self (s : Shift) : ∀ places : List ι, pass s s places = places.map fun place => (s, place)
  | [] => rfl
  | _ :: _ => rfl

/-- To begin with ASL is to begin with ROL and C clear, and so for LSR and ROR. -/
theorem run_pass {first later : Shift} (clear : ∀ v c, first.move v c = later.move v false)
    {places : List ι} (nonempty : places ≠ []) (cells : ι → Byte) (c : Bool) :
    run (pass first later places) cells c = run (pass later later places) cells false := by
  cases places with
  | nil => exact absurd rfl nonempty
  | cons place places => rw [pass, pass, run, run, clear]

theorem run_timesUp {places : List ι} (nodup : places.Nodup) : ∀ (k : Nat) (cells : ι → Byte) (c : Bool),
    let after := run (List.replicate k (pass rol rol places)).flatten cells c
    (places.map after.1, after.2) = timesUp k (places.map cells, c)
  | 0, _, _ => rfl
  | k + 1, cells, c => by
    have one := (run_up nodup cells c).1
    have later := run_timesUp nodup k (run (pass rol rol places) cells c).1
      (run (pass rol rol places) cells c).2
    rw [pass_self] at later ⊢
    rw [List.replicate_succ, List.flatten_cons, run_append, timesUp, ← one]
    exact later

end

end Shift

/-! ### The laws -/

open Shift Bytes in
/-- What is true of shifts of a number that lies byte by byte, the lowest first, in certain places of a
system: `cells` and `flags` read the bytes and the flags off a state, and `runs` is which state is reached
from which by shifts of bytes in these places. -/
structure LongShifts {σ ι : Type} (places : List ι) (cells : σ → ι → Byte) (flags : σ → Status)
    (runs : List (Shift × ι) → σ → σ → Prop) : Prop where
  /-- ASL and then ROL double the number, as far as it fits, and C is the bit that was on top. -/
  doubled {s t : σ} : runs (pass asl rol places) s t →
    value (places.map (cells t)) = 2 * value (places.map (cells s)) % 256 ^ places.length ∧
    (flags t).carry = (value (places.map (cells s))).testBit (8 * places.length - 1)
  /-- LSR and then ROR halve it, and C is the bit that was lowest. -/
  halved {s t : σ} : runs (pass lsr ror places.reverse) s t →
    value (places.map (cells t)) = value (places.map (cells s)) / 2 ∧
    (flags t).carry = (value (places.map (cells s))).testBit 0
  /-- ROR undoes ROL. -/
  upDown {s t : σ} : runs (pass rol rol places ++ pass ror ror places.reverse) s t →
    places.map (cells t) = places.map (cells s) ∧ (flags t).carry = (flags s).carry
  /-- ROL undoes ROR. -/
  downUp {s t : σ} : runs (pass ror ror places.reverse ++ pass rol rol places) s t →
    places.map (cells t) = places.map (cells s) ∧ (flags t).carry = (flags s).carry
  /-- ROL brings all bits once around, C among them. -/
  around {s t : σ} : runs (List.replicate (8 * places.length + 1) (pass rol rol places)).flatten s t →
    places.map (cells t) = places.map (cells s) ∧ (flags t).carry = (flags s).carry
  /-- No shift does anything to V, D and I. -/
  modes {todo : List (Shift × ι)} {s t : σ} : runs todo s t → (flags s).SameModes (flags t)

open Shift Bytes in
/-- The laws hold wherever bytes and carry move as `Shift.run` says. -/
theorem LongShifts.of_run {σ ι : Type} [DecidableEq ι] {places : List ι} {cells : σ → ι → Byte}
    {flags : σ → Status} {runs : List (Shift × ι) → σ → σ → Prop} (nodup : places.Nodup)
    (nonempty : places ≠ [])
    (moves : ∀ {todo s t}, runs todo s t →
      (places.map (cells t), (flags t).carry) =
        (places.map (run todo (cells s) (flags s).carry).1, (run todo (cells s) (flags s).carry).2))
    (modes : ∀ {todo s t}, runs todo s t → (flags s).SameModes (flags t)) :
    LongShifts places cells flags runs where
  doubled {s t} done := by
    have moved := moves done
    rw [run_pass (fun _ _ => rfl) nonempty, pass_self, (run_up nodup _ _).1] at moved
    obtain ⟨bytes, carry⟩ := Prod.ext_iff.mp moved
    have number := value_rollUp (mt List.map_eq_nil_iff.mp nonempty : places.map (cells s) ≠ [])
    rw [← bytes, ← carry, List.length_map] at number
    exact number
  halved {s t} done := by
    have moved := moves done
    have some := mt List.reverse_eq_nil_iff.mp nonempty
    rw [run_pass (fun _ _ => rfl) some, pass_self, (run_down nodup _ _).1] at moved
    obtain ⟨bytes, carry⟩ := Prod.ext_iff.mp moved
    have number := value_rollDown (places.map (cells s))
    rw [← bytes, ← carry] at number
    exact number
  upDown {s t} done := by
    have moved := moves done
    obtain ⟨bytes, carry⟩ := Prod.ext_iff.mp (run_up nodup (cells s) (flags s).carry).1
    dsimp only at bytes carry
    rw [run_append, pass_self, pass_self, (run_down nodup _ _).1, bytes, carry, rollDown_rollUp] at moved
    exact Prod.ext_iff.mp moved
  downUp {s t} done := by
    have moved := moves done
    obtain ⟨bytes, carry⟩ := Prod.ext_iff.mp (run_down nodup (cells s) (flags s).carry).1
    dsimp only at bytes carry
    rw [run_append, pass_self, pass_self, (run_up nodup _ _).1, bytes, carry, rollUp_rollDown] at moved
    exact Prod.ext_iff.mp moved
  around {s t} done := by
    have moved := moves done
    have length : places.length = (places.map (cells s)).length := (List.length_map _).symm
    rw [run_timesUp nodup, length, timesUp_ring] at moved
    exact Prod.ext_iff.mp moved
  modes := modes

/-! ### On plain memory -/

namespace Machine

/-- The next instruction shifts the byte at an address. -/
structure ShiftsAt (m : Machine Memory) (s : Shift) (place : Word) : Prop where
  mnemonic : m.step.1.instruction.mnemonic = s.mnemonic
  inMemory : m.step.1.instruction.mode ≠ .accumulator
  address : BitVec.ofNat 16 (Plain.address ⟨m.regs, m.bus⟩ m.step.1.instruction.mode) = place

/-- It replaces this byte and the flags, and PC goes on. -/
theorem step_shiftsAt {m : Machine Memory} {s : Shift} {place : Word} (shifts : m.ShiftsAt s place) :
    m.step.2.bus = m.bus.set place (s.apply (m.bus.get place) m.regs.p).1 ∧
    m.step.2.regs = { m.regs with
      pc := BitVec.ofNat 16 (m.regs.pc.toNat + 1 + m.step.1.instruction.mode.operandLength)
      p := (s.apply (m.bus.get place) m.regs.p).2 } := by
  obtain ⟨does, inMemory, address⟩ := shifts
  have documented : s.mnemonic ≠ .illegal := by cases s <;> nofun
  have decoded : Instruction.decode (m.bus.get m.regs.pc) = m.step.1.instruction := m.instruction_step.symm
  generalize m.step.1.instruction = i at does inMemory address decoded
  have listed : (i.mode, m.bus.get m.regs.pc) ∈ DataSheet.opcodes s.mnemonic := by
    refine (DataSheet.mem_opcodes_iff _ _ _).mpr ⟨?_, documented⟩
    rw [decoded, ← does, ← decoded]
    rfl
  have stepped := Plain.on_step ⟨m.regs, m.bus⟩ listed rfl
  have operation : DataSheet.operation s.mnemonic = .modify s.apply := by
    rw [DataSheet.operation_eq]
    exact s.operation_mnemonic
  show (m.regs.step.on m.bus).2 = _ ∧ (m.regs.step.on m.bus).1.2 = _
  rw [stepped, operation, ← address]
  simp only [Plain.after, if_neg inMemory]
  exact ⟨rfl, rfl⟩

/-- The next instruction leaves certain bytes alone, and C, V, D and I. -/
structure LeavesAlone (m : Machine Memory) (places : List Word) : Prop where
  bytes : ∀ place ∈ places, m.step.2.bus.get place = m.bus.get place
  carry : m.step.2.regs.p.carry = m.regs.p.carry
  modes : m.regs.p.SameModes m.step.2.regs.p

theorem step_inx {m : Machine Memory} (inx : m.step.1.instruction.mnemonic = .inx) :
    m.step.2.bus = m.bus ∧ m.step.2.regs = { m.regs with
      x := m.regs.x + 1
      pc := m.regs.pc + 1
      p := m.regs.p.withResult (m.regs.x + 1) } := by
  rw [m.step_eq] at inx ⊢
  unfold Instruction.perform
  rw [inx]
  exact ⟨rfl, rfl⟩

theorem LeavesAlone.of_inx {m : Machine Memory} (inx : m.step.1.instruction.mnemonic = .inx)
    (places : List Word) : m.LeavesAlone places := by
  obtain ⟨bus, regs⟩ := step_inx inx
  refine ⟨fun place _ => by rw [bus], ?_, ?_⟩
  · rw [regs]
    rfl
  · rw [regs]
    exact ⟨rfl, rfl, rfl⟩

/-- Steps that do so many shifts, in this order, of the bytes at certain addresses. There may be other
instructions before, between and after them. -/
inductive Shifting (places : List Word) :
    List (Shift × Word) → Machine Memory → Machine Memory → Prop where
  | done (m : Machine Memory) : Shifting places [] m m
  | shift {s : Shift} {place : Word} {todo : List (Shift × Word)} {m last : Machine Memory} :
      place ∈ places → m.ShiftsAt s place → Shifting places todo m.step.2 last →
      Shifting places ((s, place) :: todo) m last
  | aside {todo : List (Shift × Word)} {m last : Machine Memory} :
      m.LeavesAlone places → Shifting places todo m.step.2 last → Shifting places todo m last

/-- They do to these bytes and to C what the shifts do by themselves. -/
theorem Shifting.run {places : List Word} {todo : List (Shift × Word)} {m last : Machine Memory}
    (shifting : Shifting places todo m last) : ∀ cells : Word → Byte,
    (∀ place ∈ places, m.bus.get place = cells place) →
    (∀ place ∈ places, last.bus.get place = (Shift.run todo cells m.regs.p.carry).1 place) ∧
    last.regs.p.carry = (Shift.run todo cells m.regs.p.carry).2 ∧
    m.regs.p.SameModes last.regs.p := by
  induction shifting with
  | done m => exact fun _ same => ⟨same, rfl, rfl, rfl, rfl⟩
  | @shift s place todo m last member shifts _ ih =>
    intro cells same
    obtain ⟨bus, regs⟩ := step_shiftsAt shifts
    have flags := congrArg Registers.p regs
    have moved := s.apply_eq_move (m.bus.get place) m.regs.p
    rw [same place member] at bus flags moved
    obtain ⟨byte, carry⟩ := Prod.ext_iff.mp moved
    have after : ∀ other ∈ places, m.step.2.bus.get other =
        Function.update cells place (s.move (cells place) m.regs.p.carry).1 other := by
      intro other tracked
      rw [bus, Memory.get_set, Function.update_apply, same other tracked]
      exact congrArg (fun v => if other = place then v else cells other) byte
    obtain ⟨bytes, c, modes⟩ := ih _ after
    rw [flags] at bytes c modes
    dsimp only at carry
    rw [carry] at bytes c
    exact ⟨bytes, c, (s.sameModes_apply _ _).trans modes⟩
  | aside alone _ ih =>
    intro cells same
    obtain ⟨bytes, c, modes⟩ :=
      ih cells fun place member => (alone.bytes place member).trans (same place member)
    rw [alone.carry] at bytes c
    exact ⟨bytes, c, alone.modes.trans modes⟩

end Machine

/-- **Long shifts and rotates.** The laws hold of any number of distinct bytes, at least one, and both of
the functions of the arithmetic and of the instructions on plain memory, whatever the flags are at first. -/
theorem Shift.long_shifts :
    (∀ {ι : Type} [DecidableEq ι] (places : List ι), places.Nodup → places ≠ [] →
      LongShifts places (fun s : (ι → Byte) × Status => s.1) (fun s => s.2)
        (fun todo s t => Shift.work todo s = t)) ∧
    ∀ places : List Word, places.Nodup → places ≠ [] →
      LongShifts places (fun m : Machine Memory => m.bus.get) (fun m => m.regs.p)
        (Machine.Shifting places) := by
  refine ⟨?_, ?_⟩
  · intro ι _ places nodup nonempty
    refine .of_run nodup nonempty ?_ ?_
    · rintro todo s _ rfl
      obtain ⟨cells, carry⟩ := Prod.ext_iff.mp (Shift.work_run todo s).1
      exact Prod.ext (congrArg places.map cells) carry
    · rintro todo s _ rfl
      exact (Shift.work_run todo s).2
  · intro places nodup nonempty
    refine .of_run nodup nonempty ?_ ?_
    · intro todo m last shifting
      obtain ⟨bytes, carry, -⟩ := shifting.run m.bus.get fun _ _ => rfl
      exact Prod.ext (List.map_congr_left bytes) carry
    · intro todo m last shifting
      exact (shifting.run m.bus.get fun _ _ => rfl).2.2

/-- ASL $10,X, then INX, then ROL $10,X, from $0200 with X clear. -/
theorem Machine.shifting_indexed {m : Machine Memory} (pc : m.regs.pc = 0x0200) (x : m.regs.x = 0)
    (asl : m.bus.get 0x0200 = 0x16) (low : m.bus.get 0x0201 = 0x10) (inx : m.bus.get 0x0202 = 0xE8)
    (rol : m.bus.get 0x0203 = 0x36) (high : m.bus.get 0x0204 = 0x10) :
    Shifting [0x0010, 0x0011] (Shift.pass .asl .rol [0x0010, 0x0011]) m m.step.2.step.2.step.2 := by
  have does : m.step.1.instruction = Instruction.decode 0x16 := by
    rw [m.instruction_step, Memory.bus_read, pc, asl]
  have first : m.ShiftsAt .asl 0x0010 := by
    refine ⟨by rw [does]; rfl, by rw [does]; decide, ?_⟩
    rw [does, show (Instruction.decode 0x16).mode = .zeroPageX from rfl]
    simp only [Plain.address, Plain.operandByte, Plain.byte]
    rw [pc, x, show BitVec.ofNat 16 ((0x0200 : Word).toNat + 1) = 0x0201 by decide, low]
    decide
  obtain ⟨bus₁, regs₁⟩ := step_shiftsAt first
  have pc₁ : m.step.2.regs.pc = 0x0202 := by
    rw [regs₁, does]
    dsimp only
    rw [pc]
    decide
  have x₁ : m.step.2.regs.x = 0 := by
    rw [regs₁]
    exact x
  have kept₁ : ∀ address, address ≠ 0x0010 → m.step.2.bus.get address = m.bus.get address := by
    intro address other
    rw [bus₁, Memory.get_set, if_neg other]
  have second : m.step.2.step.1.instruction.mnemonic = .inx := by
    rw [m.step.2.instruction_step, Memory.bus_read, pc₁, kept₁ _ (by decide), inx]
    show (Instruction.decode 0xE8).mnemonic = .inx
    decide
  obtain ⟨bus₂, regs₂⟩ := step_inx second
  have pc₂ : m.step.2.step.2.regs.pc = 0x0203 := by
    rw [regs₂]
    dsimp only
    rw [pc₁]
    decide
  have x₂ : m.step.2.step.2.regs.x = 1 := by
    rw [regs₂]
    dsimp only
    rw [x₁]
    decide
  have does₂ : m.step.2.step.2.step.1.instruction = Instruction.decode 0x36 := by
    rw [m.step.2.step.2.instruction_step, Memory.bus_read, pc₂, bus₂, kept₁ _ (by decide), rol]
  have third : m.step.2.step.2.ShiftsAt .rol 0x0011 := by
    refine ⟨by rw [does₂]; rfl, by rw [does₂]; decide, ?_⟩
    rw [does₂, show (Instruction.decode 0x36).mode = .zeroPageX from rfl]
    simp only [Plain.address, Plain.operandByte, Plain.byte]
    rw [pc₂, x₂, bus₂, show BitVec.ofNat 16 ((0x0203 : Word).toNat + 1) = 0x0204 by decide,
      kept₁ _ (by decide), high]
    decide
  exact .shift (by decide) first (.aside (.of_inx second _) (.shift (by decide) third (.done _)))

/-- LSR and ROR as functions on $80C3, and a program that shifts it in memory. -/
theorem Shift.long_shifts_two_bytes :
    let cells : Fin 2 → Byte := fun i => if i = 0 then 0xC3 else 0x80
    let after := Shift.work (Shift.pass .lsr .ror [1, 0]) (cells, Registers.powerOn.p)
    let memory := Memory.ofFn fun address =>
      if address = 0x0200 then 0x16 else if address = 0x0202 then 0xE8 else if address = 0x0203 then 0x36
      else if address = 0x0201 ∨ address = 0x0204 then 0x10
      else if address = 0x0010 then 0xC3 else if address = 0x0011 then 0x80 else 0x00
    let m : Machine Memory :=
      { settings := ⟨⟨1000000⟩, 16⟩, accepted := by decide
        regs := { Registers.powerOn with x := 0, pc := 0x0200 }
        bus := memory, phase := .running, budget := 16 }
    let places : List Word := [0x0010, 0x0011]
    let last := m.step.2.step.2.step.2
    places.Nodup ∧ places ≠ [] ∧ Machine.Shifting places (Shift.pass .asl .rol places) m last ∧
    Bytes.value (places.map m.bus.get) = 0x80C3 ∧ Bytes.value (places.map last.bus.get) = 0x0186 ∧
    last.regs.p.carry = true ∧
    Bytes.value ([0, 1].map cells) = 0x80C3 ∧ Bytes.value ([0, 1].map after.1) = 0x4061 ∧
    after.2.carry = true := by
  intro cells after memory
  have bytes : ∀ address, memory.get address =
      if address = 0x0200 then 0x16 else if address = 0x0202 then 0xE8 else if address = 0x0203 then 0x36
      else if address = 0x0201 ∨ address = 0x0204 then 0x10
      else if address = 0x0010 then 0xC3 else if address = 0x0011 then 0x80 else 0x00 := Memory.get_ofFn _
  clear_value memory
  intro m places last
  have shifting : Machine.Shifting places (Shift.pass .asl .rol places) m last :=
    Machine.shifting_indexed rfl rfl (bytes 0x0200) (bytes 0x0201) (bytes 0x0202) (bytes 0x0203)
      (bytes 0x0204)
  have number : Bytes.value (places.map m.bus.get) = 0x80C3 := by
    show Bytes.value (places.map memory.get) = 0x80C3
    rw [List.map_cons, List.map_singleton, bytes, bytes]
    decide
  clear_value last m
  -- Both machines are variables from here on, so that nothing is computed again.
  obtain ⟨before, rfl⟩ : ∃ before, before = m := ⟨m, rfl⟩
  obtain ⟨behind, rfl⟩ : ∃ behind, behind = last := ⟨last, rfl⟩
  obtain ⟨functions, instructions⟩ := Shift.long_shifts
  obtain ⟨doubled, carry⟩ := (instructions places (by decide) (by decide)).doubled shifting
  obtain ⟨halved, low⟩ := (functions ([0, 1] : List (Fin 2)) (by decide) (by decide)).halved
    (s := (cells, Registers.powerOn.p)) rfl
  rw [number] at doubled carry
  exact ⟨by decide, by decide, shifting, number, doubled.trans (by decide), carry.trans (by decide),
    by decide, halved.trans (by decide), low.trans (by decide)⟩

end Nmos6502
