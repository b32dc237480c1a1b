/-
# A bus whose page one is RAM

A stack needs memory behind page one: what a write puts there is read back
until another write to page one overwrites it, and no read changes it. Elsewhere
the bus may be anything: it may react to page one being used, and a write to
another page may reach page one, as in memory that is mirrored. `Bus.StackIsRam`
says so of a bus and of all it can become by being used.
-/
import Nmos6502.Machine
import Nmos6502.Memory
import Nmos6502.Proofs.Words

namespace Nmos6502

theorem stackPage_inj {i j : Byte} : stackPage i = stackPage j ↔ i = j := by
  refine ⟨fun h => ?_, fun h => by rw [h]⟩
  have low := congrArg Word.low h
  rwa [stackPage, stackPage, Word.low_ofBytes, Word.low_ofBytes] at low

theorem stackPage_bounds (offset : Byte) :
    0x0100 ≤ (stackPage offset).toNat ∧ (stackPage offset).toNat ≤ 0x01FF := by
  have place : (stackPage offset).toNat = 256 + offset.toNat := Word.toNat_ofBytes offset 1
  omega

/-- The places that so many pushes write to, the first of them at `top`. -/
def stackPlaces : Byte → Nat → List Word
  | _, 0 => []
  | top, n + 1 => stackPage top :: stackPlaces (top - 1) n

theorem exists_of_mem_stackPlaces {place : Word} : ∀ {n : Nat} {top : Byte},
    place ∈ stackPlaces top n → ∃ below < n, place = stackPage (top - BitVec.ofNat 8 below)
  | 0, _, member => nomatch member
  | n + 1, top, member => by
    rcases List.mem_cons.mp member with rfl | later
    · exact ⟨0, n.succ_pos, congrArg stackPage (BitVec.sub_zero top).symm⟩
    · obtain ⟨below, less, rfl⟩ := exists_of_mem_stackPlaces later
      exact ⟨below + 1, Nat.succ_lt_succ less, congrArg stackPage (sub_one_sub_ofNat top below)⟩

theorem mem_stackPlaces {n below : Nat} (less : below < n) (top : Byte) :
    stackPage (top - BitVec.ofNat 8 below) ∈ stackPlaces top n := by
  induction n generalizing top below with
  | zero => nomatch less
  | succ n ih =>
    cases below with
    | zero => exact List.mem_cons.mpr (.inl (congrArg stackPage (BitVec.sub_zero top)))
    | succ below =>
      rw [← sub_one_sub_ofNat]
      exact List.mem_cons_of_mem _ (ih (Nat.lt_of_succ_lt_succ less) (top - 1))

/-- The stack comes back to a place only when it has gone once around its page. -/
theorem notMem_stackPlaces {top : Byte} {n gap : Nat} (above : 0 < gap) (fits : gap + n ≤ 256) :
    stackPage top ∉ stackPlaces (top - BitVec.ofNat 8 gap) n := by
  intro member
  obtain ⟨below, less, same⟩ := exists_of_mem_stackPlaces member
  have offset := stackPage_inj.mp same
  bv_omega

namespace Bus

variable {β : Type} [Bus β] {bus later : β}

/-- The byte that is read at a place on page one. -/
def stackByte (bus : β) (offset : Byte) : Byte :=
  (Bus.read bus (stackPage offset)).1

/-- What a bus can become by being used. -/
inductive Leads (bus : β) : β → Prop where
  | here : Leads bus bus
  | read (address : Word) {later : β} : Leads bus later → Leads bus (Bus.read later address).2
  | write (address : Word) (value : Byte) {later : β} : Leads bus later →
      Leads bus (Bus.write later address value)

theorem Leads.trans {last : β} (first : Leads bus later) (second : Leads later last) :
    Leads bus last := by
  induction second with
  | here => exact first
  | read address _ ih => exact ih.read address
  | write address value _ ih => exact ih.write address value

/-- However the bus is used, a read changes no byte of page one, and a write to a place on page one changes the
byte there and no other on the page. What a write elsewhere does to page one is left open: the page may have
a mirror. -/
structure StackIsRam (bus : β) : Prop where
  read : ∀ later, Leads bus later → ∀ address offset,
    stackByte (Bus.read later address).2 offset = stackByte later offset
  write : ∀ later, Leads bus later → ∀ place value offset,
    stackByte (Bus.write later (stackPage place) value) offset =
      if offset = place then value else stackByte later offset

namespace StackIsRam

theorem of_leads (ram : StackIsRam bus) (leads : Leads bus later) : StackIsRam later where
  read last second := ram.read last (leads.trans second)
  write last second := ram.write last (leads.trans second)

theorem stackByte_read (ram : StackIsRam bus) (address : Word) (offset : Byte) :
    stackByte (Bus.read bus address).2 offset = stackByte bus offset :=
  ram.read bus .here address offset

theorem stackByte_write (ram : StackIsRam bus) (place value offset : Byte) :
    stackByte (Bus.write bus (stackPage place) value) offset =
      if offset = place then value else stackByte bus offset :=
  ram.write bus .here place value offset

end StackIsRam
end Bus

theorem Dialogue.leads_on {α β : Type} [Bus β] (d : Dialogue α) (bus : β) :
    Bus.Leads bus (d.on bus).2 := by
  induction d generalizing bus with
  | done result => exact .here
  | read address next ih => exact (Bus.Leads.here.read address).trans (ih _ _)
  | write address value next ih => exact (Bus.Leads.here.write address value).trans (ih _)

/-- Plain memory is RAM on page one as everywhere. -/
theorem Memory.stackIsRam (m : Memory) : Bus.StackIsRam m where
  read _ _ _ _ := rfl
  write later _ place value offset := by
    have placed := later.get_set (stackPage place) (stackPage offset) value
    simp only [stackPage_inj] at placed
    exact placed

end Nmos6502
