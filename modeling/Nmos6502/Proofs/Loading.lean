/-
# Loading a block into memory

A block of bytes is loaded upward from an address, one byte after the other, and
wraps past $FFFF. A block that is longer than the memory goes round and writes
over its own beginning. So an address holds the last byte of the block that
landed there, and what it held before if none did.

Two facts carry all this. A block may be cut in two and loaded in two parts
(`Memory.load_append`), and an address that no byte lands on keeps what it holds
(`Memory.get_load_of_notMem`). Cut a block behind the byte that is the last to
land on an address: this byte is written, and nothing of the rest lands there.
-/
import Nmos6502.Memory
import Nmos6502.Proofs.Words

namespace Nmos6502
namespace Memory

variable {start address : Word} {n index : Nat}

/-! ### Where the bytes land -/

/-- The addresses that a block of so many bytes takes, from the first of them upward. -/
def span : Word → Nat → List Word
  | _, 0 => []
  | start, n + 1 => start :: span (start + 1) n

theorem length_span (start : Word) (n : Nat) : (span start n).length = n := by
  induction n generalizing start with
  | zero => rfl
  | succ n ih => rw [span, List.length_cons, ih]

theorem mem_span : address ∈ span start n ↔ ∃ index < n, (start.toNat + index) % 65536 = address.toNat := by
  induction n generalizing start with
  | zero => simp [span]
  | succ n ih =>
    have next : (start + 1).toNat = (start.toNat + 1) % 65536 := BitVec.toNat_add start 1
    rw [span, List.mem_cons, ih, next]
    constructor
    · rintro (rfl | ⟨index, inside, lands⟩)
      · exact ⟨0, n.succ_pos, Nat.mod_eq_of_lt address.isLt⟩
      · exact ⟨index + 1, Nat.succ_lt_succ inside, by omega⟩
    · rintro ⟨index, inside, lands⟩
      rcases Nat.eq_zero_or_pos index with rfl | later
      · exact .inl (BitVec.eq_of_toNat_eq (by omega))
      · exact .inr ⟨index - 1, by omega, by omega⟩

/-- A block comes back to where it began only when it has gone round the whole memory. -/
theorem start_notMem_span (fits : n < 65536) : start ∉ span (start + 1) n := by
  intro again
  obtain ⟨index, inside, lands⟩ := mem_span.mp again
  have next : (start + 1).toNat = (start.toNat + 1) % 65536 := BitVec.toNat_add start 1
  have small := start.isLt
  omega

theorem nodup_span (start : Word) (fits : n ≤ 65536) : (span start n).Nodup := by
  induction n generalizing start with
  | zero => exact List.nodup_nil
  | succ n ih =>
    have rest := ih (start + 1) (Nat.le_of_succ_le fits)
    exact List.nodup_cons.mpr ⟨start_notMem_span fits, rest⟩

theorem mem_span_of_le (start address : Word) (long : 65536 ≤ n) : address ∈ span start n := by
  have small := start.isLt
  have below := address.isLt
  refine mem_span.mpr ⟨(address.toNat + 65536 - start.toNat) % 65536, by omega, by omega⟩

/-- Of so many bytes the one at an index lands on an address, and none after it does. -/
structure LandsLast (start : Word) (n : Nat) (address : Word) (index : Nat) : Prop where
  inside : index < n
  lands : (start.toNat + index) % 65536 = address.toNat
  last : ∀ later, index < later → later < n → (start.toNat + later) % 65536 ≠ address.toNat

/-! ### What a block leaves -/

theorem load_append (m : Memory) (start : Word) (first second : List Byte) :
    m.load start (first ++ second) =
      (m.load start first).load (start + BitVec.ofNat 16 first.length) second := by
  induction first generalizing m start with
  | nil => simp [load]
  | cons b first ih =>
    rw [List.cons_append, load, load, ih, List.length_cons, add_one_add_ofNat]

/-- Where no byte lands nothing changes. -/
theorem get_load_of_notMem (m : Memory) {block : List Byte} (spared : address ∉ span start block.length) :
    (m.load start block).get address = m.get address := by
  induction block generalizing m start with
  | nil => rfl
  | cons b block ih =>
    obtain ⟨other, later⟩ := not_or.mp (mt List.mem_cons.mpr spared)
    rw [load, ih _ later, get_set, if_neg other]

/-- Where a byte lands it makes no difference what was there. -/
theorem get_load_of_mem (m other : Memory) {block : List Byte} (reached : address ∈ span start block.length) :
    (m.load start block).get address = (other.load start block).get address := by
  induction block generalizing m other start with
  | nil => nomatch reached
  | cons b block ih =>
    rw [load, load]
    by_cases again : address ∈ span (start + 1) block.length
    · exact ih _ _ again
    · obtain rfl : address = start := (List.mem_cons.mp reached).resolve_right again
      rw [get_load_of_notMem _ again, get_load_of_notMem _ again, get_set_self, get_set_self]

/-- The last byte to land stays: what comes after it does not reach the address. -/
theorem LandsLast.get_load (m : Memory) {block : List Byte} (h : LandsLast start block.length address index) :
    block[index]? = some ((m.load start block).get address) := by
  have place : start + BitVec.ofNat 16 index = address := by
    rw [Word.add_ofNat]
    exact BitVec.eq_of_toNat_eq ((BitVec.toNat_ofNat _ _).trans h.lands)
  have front : (block.take index).length = index := List.length_take_of_le (Nat.le_of_lt h.inside)
  have rest : address ∉ span (address + 1) (block.drop (index + 1)).length := by
    intro again
    obtain ⟨more, inside, lands⟩ := mem_span.mp again
    have next : (address + 1).toNat = (address.toNat + 1) % 65536 := BitVec.toNat_add address 1
    rw [List.length_drop] at inside
    have before := h.lands
    exact h.last (index + 1 + more) (by omega) (by omega) (by omega)
  obtain ⟨b, found⟩ : ∃ b, block[index]? = some b := ⟨_, List.getElem?_eq_getElem h.inside⟩
  -- What is in front of the index is overwritten there, and what is behind it does not come back.
  have cut : block = block.take index ++ b :: block.drop (index + 1) := by
    obtain ⟨_, rfl⟩ := List.getElem?_eq_some_iff.mp found
    rw [← List.drop_eq_getElem_cons h.inside, List.take_append_drop]
  calc block[index]? = some b := found
    _ = some (((m.load start (block.take index)).set address b).get address) := by rw [get_set_self]
    _ = some ((((m.load start (block.take index)).set address b).load (address + 1)
          (block.drop (index + 1))).get address) := by rw [get_load_of_notMem _ rest]
    _ = some ((m.load start (block.take index ++ b :: block.drop (index + 1))).get address) := by
        rw [load_append, front, place, load]
    _ = some ((m.load start block).get address) := by rw [← cut]

/-- A block that does not go round is found again where it was loaded. -/
theorem bytes_load (m : Memory) (start : Word) {block : List Byte} (fits : block.length ≤ 65536) :
    (m.load start block).bytes start block.length = block := by
  induction block generalizing m start with
  | nil => rfl
  | cons b block ih =>
    have first : (m.load start (b :: block)).get start = b := by
      rw [load, get_load_of_notMem _ (start_notMem_span fits), get_set_self]
    rw [List.length_cons, bytes, first, load, ih _ _ (Nat.le_of_succ_le fits)]

theorem load_load_of_subset (m : Memory) {start' : Word} {block covered : List Byte}
    (covers : ∀ address, address ∈ span start covered.length → address ∈ span start' block.length) :
    (m.load start covered).load start' block = m.load start' block := by
  apply ext_get
  intro address
  by_cases reached : address ∈ span start' block.length
  · exact get_load_of_mem _ _ reached
  · have outside : address ∉ span start covered.length := mt (covers address) reached
    rw [get_load_of_notMem _ reached, get_load_of_notMem _ reached, get_load_of_notMem _ outside]

/-- Blocks that share no address may be loaded in either order. -/
theorem load_comm (m : Memory) {start' : Word} {block other : List Byte}
    (apart : ∀ address, address ∈ span start block.length → address ∉ span start' other.length) :
    (m.load start block).load start' other = (m.load start' other).load start block := by
  apply ext_get
  intro address
  by_cases reached : address ∈ span start block.length
  · rw [get_load_of_notMem _ (apart address reached)]
    exact get_load_of_mem _ _ reached
  · rw [get_load_of_notMem _ reached]
    by_cases elsewhere : address ∈ span start' other.length
    · exact get_load_of_mem _ _ elsewhere
    · rw [get_load_of_notMem _ elsewhere, get_load_of_notMem _ elsewhere, get_load_of_notMem _ reached]

/-- An address is written, so that what it held before makes no difference, exactly if a byte lands there. -/
theorem mem_span_iff (m : Memory) (block : List Byte) :
    address ∈ span start block.length ↔
      ∀ other : Memory, (other.load start block).get address = (m.load start block).get address := by
  refine ⟨fun reached other => get_load_of_mem other m reached, fun same => ?_⟩
  refine Classical.byContradiction fun spared => ?_
  have changed := same (m.set address (m.get address + 1))
  rw [get_load_of_notMem _ spared, get_load_of_notMem _ spared, get_set_self] at changed
  exact absurd changed (by bv_omega)

/-- **The last byte to land on an address stays.** An address holds the byte of the block that is the last
to land on it, and what it held before if none does. A block that fits the memory writes as many addresses
as it has bytes, and is found there again; one that goes round leaves nothing of what comes a whole memory
before its end. A block may be loaded in two parts, and blocks that share no address in either order. -/
theorem last_landed_stays (m : Memory) (start : Word) (block : List Byte) :
    (∀ address index, LandsLast start block.length address index →
      block[index]? = some ((m.load start block).get address)) ∧
    (∀ address : Word, (∀ index < block.length, (start.toNat + index) % 65536 ≠ address.toNat) →
      (m.load start block).get address = m.get address) ∧
    (block.length ≤ 65536 →
      (m.load start block).bytes start block.length = block ∧
      ∃ written : List Word, written.Nodup ∧ written.length = block.length ∧
        ∀ address, address ∈ written ↔
          ∀ other : Memory, (other.load start block).get address = (m.load start block).get address) ∧
    (∀ first second, block = first ++ second →
      m.load start block = (m.load start first).load (start + BitVec.ofNat 16 first.length) second ∧
      (65536 ≤ second.length → m.load start block = m.load (start + BitVec.ofNat 16 first.length) second)) ∧
    ∀ (start' : Word) (other : List Byte),
      (∀ index < block.length, ∀ index' < other.length,
        (start.toNat + index) % 65536 ≠ (start'.toNat + index') % 65536) →
      (m.load start block).load start' other = (m.load start' other).load start block := by
  refine ⟨fun _ _ h => h.get_load m, fun address spared => ?_, fun fits => ?_, fun first second cut => ?_,
    fun start' other apart => ?_⟩
  · refine get_load_of_notMem m fun reached => ?_
    obtain ⟨index, inside, lands⟩ := mem_span.mp reached
    exact spared index inside lands
  · exact ⟨bytes_load m start fits, span start block.length, nodup_span start fits, length_span _ _,
      fun _ => mem_span_iff m block⟩
  · subst cut
    rw [load_append]
    exact ⟨rfl, fun long => load_load_of_subset m fun address _ => mem_span_of_le _ address long⟩
  · refine load_comm m fun address reached again => ?_
    obtain ⟨index, inside, lands⟩ := mem_span.mp reached
    obtain ⟨index', inside', lands'⟩ := mem_span.mp again
    exact apart index inside index' inside' (lands.trans lands'.symm)

/-- Past the top of memory, and round it: a block with one byte more than there are addresses ends where it
began. -/
theorem last_landed_stays_round :
    let short : List Byte := [0x11, 0x22, 0x33]
    let long : List Byte := 0x11 :: (List.replicate 65535 0x00 ++ [0x22])
    short.length ≤ 65536 ∧ (blank.load 0xFFFE short).bytes 0xFFFE short.length = short ∧
      LandsLast 0xFFFE long.length 0xFFFE 65536 ∧ (blank.load 0xFFFE long).get 0xFFFE = 0x22 := by
  intro short long
  have fits : short.length ≤ 65536 := by decide
  have length : long.length = 65537 := by
    rw [List.length_cons, List.length_append, List.length_replicate, List.length_singleton]
  have ends : long[65536]? = some 0x22 := by
    rw [List.getElem?_cons_succ, List.getElem?_append_right (Nat.le_of_eq List.length_replicate),
      List.length_replicate]
    rfl
  have last : LandsLast 0xFFFE long.length 0xFFFE 65536 :=
    { inside := by omega
      lands := rfl
      last := fun later after before => by omega }
  obtain ⟨-, -, again, -⟩ := last_landed_stays blank 0xFFFE short
  obtain ⟨stays, -⟩ := last_landed_stays blank 0xFFFE long
  have held := stays 0xFFFE 65536 last
  rw [ends] at held
  exact ⟨fits, (again fits).1, last, (Option.some.inj held).symm⟩

end Memory
end Nmos6502
