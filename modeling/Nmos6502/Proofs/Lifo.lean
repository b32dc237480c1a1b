/-
# The stack is a list of up to 256 bytes

What is pushed and pulled goes through page one, a byte at a time, and S is a
byte that wraps. From any S that is a stack like one on paper, as long as there
are no more than 256 bytes on it: a pull gives the byte that was pushed last and
has not been pulled, and only as many places of page one are used as bytes were
on the stack at a time, from the one S pointed to downward.

The stack on paper is a list (`StackUse.onList`). The bytes of the list are found
on page one from S upward (`Bus.Holds`), and a push leaves them there: it comes
back to the place of one of them only when the page is full. With one byte more
the first of them is lost, and the last one is found in its place.

All this needs of the bus is that page one keeps bytes while nothing but page one
is used (`Bus.KeepsStack`). Where the rest of the memory lies, whether page one
appears elsewhere too, and what other devices do makes no difference.
-/
import Nmos6502.Board
import Nmos6502.Proofs.PageOne
import Nmos6502.Proofs.Seen

namespace Nmos6502

/-! ### Pushes and pulls -/

inductive StackUse where
  | push (value : Byte)
  | pull
  deriving DecidableEq, Repr

namespace StackUse

def pushes : List StackUse → Nat
  | [] => 0
  | .push _ :: uses => pushes uses + 1
  | .pull :: uses => pushes uses

def pulls : List StackUse → Nat
  | [] => 0
  | .push _ :: uses => pulls uses
  | .pull :: uses => pulls uses + 1

/-- On a stack with `depth` bytes: at each point no more has been pulled than there was and has been
pushed, and there are no more than `room` bytes. -/
def Fits (depth room : Nat) (uses : List StackUse) : Prop :=
  ∀ n ≤ uses.length, pulls (uses.take n) ≤ depth + pushes (uses.take n) ∧
    depth + pushes (uses.take n) ≤ room + pulls (uses.take n)

/-- What happens to a list of bytes that may grow without bound, the newest first: the bytes that are
pulled in turn and what is left, if there is a byte for every pull. -/
def onList : List StackUse → List Byte → Option (List Byte × List Byte)
  | [], held => some ([], held)
  | .push value :: uses, held => onList uses (value :: held)
  | .pull :: uses, value :: held => (onList uses held).map (Prod.map (value :: ·) id)
  | .pull :: _, [] => none

variable {depth room : Nat} {uses : List StackUse} {value : Byte}

theorem Fits.depth_le (fits : Fits depth room uses) : depth ≤ room :=
  (fits 0 (Nat.zero_le _)).2

theorem Fits.of_push (fits : Fits depth room (.push value :: uses)) : Fits (depth + 1) room uses := by
  intro n inside
  have later := fits (n + 1) (Nat.succ_le_succ inside)
  simp only [List.take_succ_cons, pushes, pulls] at later
  omega

theorem Fits.of_pull (fits : Fits depth room (.pull :: uses)) :
    ∃ less, depth = less + 1 ∧ Fits less room uses := by
  have first := fits 1 (Nat.succ_le_succ (Nat.zero_le _))
  simp only [List.take_succ_cons, List.take_zero, pushes, pulls] at first
  refine ⟨depth - 1, by omega, fun n inside => ?_⟩
  have later := fits (n + 1) (Nat.succ_le_succ inside)
  simp only [List.take_succ_cons, pushes, pulls] at later
  omega

theorem Fits.take (fits : Fits depth room uses) (n : Nat) : Fits depth room (uses.take n) := by
  intro k inside
  rw [List.length_take] at inside
  rw [List.take_take, Nat.min_eq_left (Nat.le_trans inside (Nat.min_le_left _ _))]
  exact fits k (Nat.le_trans inside (Nat.min_le_right _ _))

theorem onList_pushes (values held : List Byte) (uses : List StackUse) :
    onList (values.map .push ++ uses) held = onList uses (values.reverse ++ held) := by
  induction values generalizing held with
  | nil => rfl
  | cons value values ih =>
    rw [List.map_cons, List.cons_append, onList, ih, List.reverse_cons, List.append_assoc, List.singleton_append]

theorem onList_pulls (held : List Byte) : onList (List.replicate held.length .pull) held = some (held, []) := by
  induction held with
  | nil => rfl
  | cons value held ih =>
    rw [List.length_cons, List.replicate_succ, onList, ih]
    rfl

end StackUse

/-- Use the stack so: the bytes that are pulled, in turn. -/
def Registers.useStack (r : Registers) : List StackUse → Dialogue (List Byte × Registers)
  | [] => return ([], r)
  | .push value :: uses => do
    let r ← r.push value
    r.useStack uses
  | .pull :: uses => do
    let (value, r) ← r.pull
    let (pulled, r) ← r.useStack uses
    return (value :: pulled, r)

/-! ### Places and S -/

def Activity.Touches (places : List Word) : Activity → Prop
  | .read address _ | .write address _ => address ∈ places
  | .polled _ => False

namespace Registers

open StackUse

/-- On every bus S is as far down as there are bytes on the stack, and as many places are used as there
were bytes on it at a time. -/
theorem useStack_shows {top : Byte} {room : Nat} : ∀ (uses : List StackUse) {depth : Nat} {r : Registers},
    r.s = top - BitVec.ofNat 8 depth → Fits depth room uses →
    (r.useStack uses).Shows fun seen result =>
      (∀ activity ∈ seen, activity.Touches (stackPlaces top room)) ∧
      result.2 = { r with s := top - BitVec.ofNat 8 (depth + pushes uses - pulls uses) }
  | [], depth, r, pointer, _ => by
    refine ⟨nofun, ?_⟩
    show r = { r with s := top - BitVec.ofNat 8 depth }
    rw [← pointer]
  | .push value :: uses, depth, r, pointer, fits => by
    have next : r.s - 1 = top - BitVec.ofNat 8 (depth + 1) := by
      rw [pointer, sub_ofNat_sub_one]
    have slot : stackPage r.s ∈ stackPlaces top room := by
      rw [pointer]
      exact mem_stackPlaces fits.of_push.depth_le top
    have count : depth + 1 + pushes uses - pulls uses = depth + (pushes uses + 1) - pulls uses := by omega
    refine (useStack_shows (r := { r with s := r.s - 1 }) uses next fits.of_push).mono ?_
    rintro seen result ⟨within, left⟩
    exact ⟨List.forall_mem_cons.mpr ⟨slot, within⟩, by rw [left, count, pushes, pulls]⟩
  | .pull :: uses, depth, r, pointer, fits => by
    obtain ⟨less, rfl, later⟩ := fits.of_pull
    have next : r.s + 1 = top - BitVec.ofNat 8 less := by
      rw [pointer, ← sub_ofNat_sub_one, BitVec.sub_add_cancel]
    have slot : stackPage (r.s + 1) ∈ stackPlaces top room := by
      rw [next]
      exact mem_stackPlaces fits.depth_le top
    have count : less + pushes uses - pulls uses = less + 1 + pushes uses - (pulls uses + 1) := by omega
    intro value
    refine (useStack_shows (r := { r with s := r.s + 1 }) uses next later).bind ?_
    rintro seen result ⟨within, left⟩
    refine ⟨List.forall_mem_cons.mpr ⟨slot, ?_⟩, ?_⟩
    · rw [List.append_nil]
      exact within
    · rw [left, count, pushes, pulls]

end Registers

/-! ### A bus that keeps the stack -/

namespace Bus

variable {β : Type} [Bus β] {bus later : β}

/-- What a bus can become when nothing but page one is used. -/
inductive StackLeads (bus : β) : β → Prop where
  | here : StackLeads bus bus
  | read (place : Byte) {later : β} : StackLeads bus later →
      StackLeads bus (Bus.read later (stackPage place)).2
  | write (place value : Byte) {later : β} : StackLeads bus later →
      StackLeads bus (Bus.write later (stackPage place) value)

theorem StackLeads.trans {last : β} (first : StackLeads bus later) (second : StackLeads later last) :
    StackLeads bus last := by
  induction second with
  | here => exact first
  | read place _ ih => exact ih.read place
  | write place value _ ih => exact ih.write place value

theorem StackLeads.leads (h : StackLeads bus later) : Leads bus later := by
  induction h with
  | here => exact .here
  | read place _ ih => exact ih.read (stackPage place)
  | write place value _ ih => exact ih.write (stackPage place) value

/-- As long as nothing but page one is used, a read there changes no byte of page one, and a write changes
the byte at its place and no other. -/
structure KeepsStack (bus : β) : Prop where
  read : ∀ later, StackLeads bus later → ∀ place offset,
    stackByte (Bus.read later (stackPage place)).2 offset = stackByte later offset
  write : ∀ later, StackLeads bus later → ∀ place value offset,
    stackByte (Bus.write later (stackPage place) value) offset =
      if offset = place then value else stackByte later offset

/-- A bus whose page one is RAM however the bus is used keeps the stack. -/
theorem StackIsRam.keepsStack (ram : StackIsRam bus) : KeepsStack bus where
  read later leads place := ram.read later leads.leads (stackPage place)
  write _ leads := (ram.of_leads leads.leads).stackByte_write

theorem KeepsStack.of_leads (keeps : KeepsStack bus) (leads : StackLeads bus later) : KeepsStack later where
  read last second := keeps.read last (leads.trans second)
  write last second := keeps.write last (leads.trans second)

/-- However page one is used, what happens at some places of it leaves the byte at an address alone. -/
def Spares (bus : β) (places : List Word) (address : Word) : Prop :=
  ∀ later, StackLeads bus later → ∀ place, stackPage place ∈ places →
    (Bus.read (Bus.read later (stackPage place)).2 address).1 = (Bus.read later address).1 ∧
    ∀ value, (Bus.read (Bus.write later (stackPage place) value) address).1 = (Bus.read later address).1

theorem Spares.of_leads {places : List Word} {address : Word} (spares : Spares bus places address)
    (leads : StackLeads bus later) : Spares later places address :=
  fun last second => spares last (leads.trans second)

/-- What happens at some places of page one leaves the others alone. -/
theorem KeepsStack.spares (keeps : KeepsStack bus) {places : List Word} {offset : Byte}
    (other : stackPage offset ∉ places) : Spares bus places (stackPage offset) := by
  intro later leads place inside
  have apart : offset ≠ place := fun same => other (same ▸ inside)
  exact ⟨keeps.read later leads place offset, fun value =>
    (keeps.write later leads place value offset).trans (if_neg apart)⟩

end Bus

/-- A dialogue that touches nothing but some places of page one changes nothing that they spare. -/
theorem Dialogue.read_of_spares {α β : Type} [Bus β] {d : Dialogue α} {top : Byte} {room : Nat}
    {address : Word} {bus : β} (within : ∀ activity ∈ d.seen bus, activity.Touches (stackPlaces top room))
    (spares : Bus.Spares bus (stackPlaces top room) address) :
    (Bus.read (d.on bus).2 address).1 = (Bus.read bus address).1 := by
  induction d generalizing bus with
  | done result => rfl
  | read place next ih =>
    rw [seen_read] at within
    obtain ⟨inside, rest⟩ := List.forall_mem_cons.mp within
    obtain ⟨below, -, rfl⟩ := exists_of_mem_stackPlaces inside
    rw [on_read, ih _ rest (spares.of_leads (.read _ .here))]
    exact (spares bus .here _ inside).1
  | write place value next ih =>
    rw [seen_write] at within
    obtain ⟨inside, rest⟩ := List.forall_mem_cons.mp within
    obtain ⟨below, -, rfl⟩ := exists_of_mem_stackPlaces inside
    rw [on_write, ih rest (spares.of_leads (.write _ value .here))]
    exact (spares bus .here _ inside).2 value

/-! ### Memory that appears many times -/

namespace Board

/-- No device answers to page one, but for memory that appears many times. -/
def OffStack (b : Board) : Prop :=
  ∀ d ∈ b.devices, d.kind = .repeated ∨ d.last < 0x0100 ∨ 0x01FF < d.first

variable {b : Board}

theorem cell_stackPage (b : Board) (offset : Byte) : b.cell (stackPage offset) = stackPage offset := by
  have low : stackPage offset &&& 0x07FF = stackPage offset := by
    revert offset
    decide
  unfold cell
  split
  · exact low
  · rfl

theorem has_stackPage (off : b.OffStack) (kind : DeviceKind) (other : kind ≠ .repeated) (place : Byte) :
    b.has kind (stackPage place) = false := by
  obtain ⟨above, below⟩ := stackPage_bounds place
  refine List.any_eq_false.mpr fun d member answers => ?_
  simp only [Bool.and_eq_true, beq_iff_eq, decide_eq_true_eq, BitVec.le_def] at answers
  obtain ⟨⟨same, first⟩, last⟩ := answers
  rcases off d member with repeats | before | after
  · exact other (same.symm.trans repeats)
  · have bound : d.last.toNat < 0x0100 := before
    omega
  · have bound : 0x01FF < d.first.toNat := after
    omega

theorem read_stackPage (off : b.OffStack) (place : Byte) :
    Bus.read b (stackPage place) = (b.memory.get (stackPage place), b) := by
  have left (value : Byte) : b.afterRead (stackPage place) value = value := by
    rw [afterRead, has_stackPage off .clear nofun, has_stackPage off .counter nofun]
    rfl
  show (b.memory.get (b.cell (stackPage place)), _) = _
  rw [cell_stackPage, left, if_pos rfl]

theorem write_stackPage (off : b.OffStack) (place value : Byte) :
    Bus.write b (stackPage place) value = ⟨b.memory.set (stackPage place) value, b.devices⟩ := by
  show (if b.has .rom (stackPage place) = true then b else _) = _
  rw [has_stackPage off .rom nofun, cell_stackPage]
  rfl

/-- A board keeps the stack also where its first bytes, page one among them, appear many times. -/
theorem keepsStack (off : b.OffStack) : Bus.KeepsStack b := by
  have stays {later : Board} (leads : Bus.StackLeads b later) : later.OffStack := by
    induction leads with
    | here => exact off
    | read place _ ih =>
      rw [read_stackPage ih]
      exact ih
    | write place value _ ih =>
      rw [write_stackPage ih]
      exact ih
  refine ⟨fun later leads place offset => ?_, fun later leads place value offset => ?_⟩
  · rw [read_stackPage (stays leads)]
  · have after := stays (leads.write place value)
    rw [write_stackPage (stays leads)] at after ⊢
    rw [Bus.stackByte, Bus.stackByte, read_stackPage after, read_stackPage (stays leads), Memory.get_set]
    simp only [stackPage_inj]

end Board

/-! ### The bytes on the stack -/

namespace Bus

variable {β : Type} [Bus β] {bus later : β} {pointer : Byte}

/-- The bytes of a list lie on page one, the newest just above where S points. -/
def Holds (bus : β) : Byte → List Byte → Prop
  | _, [] => True
  | pointer, value :: below => stackByte bus (pointer + 1) = value ∧ Holds bus (pointer + 1) below

theorem Holds.of_same {held : List Byte} (holds : Holds bus pointer held)
    (same : ∀ above < held.length, stackByte later (pointer + 1 + BitVec.ofNat 8 above) =
      stackByte bus (pointer + 1 + BitVec.ofNat 8 above)) : Holds later pointer held := by
  induction held generalizing pointer with
  | nil => trivial
  | cons value held ih =>
    have newest := same 0 held.length.succ_pos
    rw [BitVec.add_zero] at newest
    refine ⟨newest.trans holds.1, ih holds.2 fun above inside => ?_⟩
    rw [add_one_add_ofNat]
    exact same (above + 1) (Nat.succ_lt_succ inside)

theorem holds_append {first second : List Byte} : Holds bus pointer (first ++ second) ↔
    Holds bus pointer first ∧ Holds bus (pointer + BitVec.ofNat 8 first.length) second := by
  induction first generalizing pointer with
  | nil => simp [Holds]
  | cons value first ih =>
    rw [List.cons_append, Holds, Holds, ih, List.length_cons, add_one_add_ofNat, and_assoc]

end Bus

namespace Registers

open StackUse Bus

variable {β : Type} [Bus β] {top : Byte} {held : List Byte} {r : Registers} {bus : β}

/-- Registers and bus stand for a list of bytes, on a stack that began at `top`. -/
structure Represents (top : Byte) (held : List Byte) (r : Registers) (bus : β) : Prop where
  keeps : KeepsStack bus
  pointer : r.s = top - BitVec.ofNat 8 held.length
  holds : Holds bus r.s held

theorem represents_nil (keeps : KeepsStack bus) (r : Registers) : Represents r.s [] r bus :=
  ⟨keeps, (BitVec.sub_zero r.s).symm, trivial⟩

/-- A push puts a byte on the list, if the page is not full. -/
theorem Represents.push (h : Represents top held r bus) (small : held.length < 256) (value : Byte) :
    Represents top (value :: held) { r with s := r.s - 1 } (Bus.write bus (stackPage r.s) value) := by
  obtain ⟨keeps, pointer, holds⟩ := h
  have written := keeps.write bus .here r.s value
  have above : r.s - 1 + 1 = r.s := BitVec.sub_add_cancel _ _
  refine ⟨keeps.of_leads (.write r.s value .here), ?_, ?_, ?_⟩
  · show r.s - 1 = _
    rw [pointer, List.length_cons, sub_ofNat_sub_one]
  · rw [above, written, if_pos rfl]
  · -- The write comes back to a byte of the list only after 256 of them.
    rw [above]
    refine holds.of_same fun i inside => ?_
    have other : r.s + 1 + BitVec.ofNat 8 i ≠ r.s := by bv_omega
    rw [written, if_neg other]

/-- A pull reads the newest byte of the list and takes it off. -/
theorem Represents.pull {value : Byte} (h : Represents top (value :: held) r bus) :
    (Bus.read bus (stackPage (r.s + 1))).1 = value ∧
      Represents top held { r with s := r.s + 1 } (Bus.read bus (stackPage (r.s + 1))).2 := by
  obtain ⟨keeps, pointer, newest, holds⟩ := h
  refine ⟨newest, keeps.of_leads (.read (r.s + 1) .here), ?_, ?_⟩
  · show r.s + 1 = _
    rw [pointer, List.length_cons, ← sub_ofNat_sub_one, BitVec.sub_add_cancel]
  · exact holds.of_same fun _ _ => keeps.read bus .here (r.s + 1) _

theorem on_useStack_push (r : Registers) (value : Byte) (uses : List StackUse) (bus : β) :
    (r.useStack (.push value :: uses)).on bus =
      (({ r with s := r.s - 1 } : Registers).useStack uses).on (Bus.write bus (stackPage r.s) value) := rfl

theorem on_useStack_pull (r : Registers) (uses : List StackUse) (bus : β) :
    (r.useStack (.pull :: uses)).on bus =
      let pulled := Bus.read bus (stackPage (r.s + 1))
      let rest := (({ r with s := r.s + 1 } : Registers).useStack uses).on pulled.2
      ((pulled.1 :: rest.1.1, rest.1.2), rest.2) := by
  simp only [useStack, Registers.pull, pullSlot, Dialogue.on_bind, Dialogue.on_readByte, Dialogue.pure_eq,
    Dialogue.on_done]

theorem on_useStack_append (first second : List StackUse) (r : Registers) (bus : β) :
    (r.useStack (first ++ second)).on bus =
      let begun := (r.useStack first).on bus
      let ended := (begun.1.2.useStack second).on begun.2
      ((begun.1.1 ++ ended.1.1, ended.1.2), ended.2) := by
  induction first generalizing r bus with
  | nil => rfl
  | cons use first ih =>
    cases use with
    | push value => rw [List.cons_append, on_useStack_push, on_useStack_push, ih]
    | pull =>
      rw [List.cons_append, on_useStack_pull, on_useStack_pull]
      dsimp only
      rw [ih]
      rfl

/-- As long as all fits, the stack does what the list does. -/
theorem Represents.run {room : Nat} (small : room ≤ 256) : ∀ (uses : List StackUse) {held : List Byte}
    {r : Registers} {bus : β}, Represents top held r bus → Fits held.length room uses →
    ∃ left, onList uses held = some (((r.useStack uses).on bus).1.1, left) ∧
      Represents top left ((r.useStack uses).on bus).1.2 ((r.useStack uses).on bus).2
  | [], held, r, bus, h, _ => ⟨held, rfl, h⟩
  | .push value :: uses, held, r, bus, h, fits => by
    have next := h.push (Nat.lt_of_lt_of_le fits.of_push.depth_le small) value
    exact next.run small uses fits.of_push
  | .pull :: uses, held, r, bus, h, fits => by
    obtain ⟨less, count, later⟩ := fits.of_pull
    obtain ⟨value, held, rfl⟩ := List.exists_cons_of_length_eq_add_one count
    obtain rfl := Nat.succ.inj count
    obtain ⟨newest, next⟩ := h.pull
    obtain ⟨left, pulled, represents⟩ := next.run small uses later
    rw [on_useStack_pull]
    refine ⟨left, ?_, represents⟩
    rw [onList, pulled, ← newest]
    rfl

/-! ### One byte too many -/

theorem Represents.pushes : ∀ (values : List Byte) {held : List Byte} {r : Registers} {bus : β},
    Represents top held r bus → held.length + values.length ≤ 256 →
    ((r.useStack (values.map .push)).on bus).1.1 = [] ∧
      Represents top (values.reverse ++ held) ((r.useStack (values.map .push)).on bus).1.2
        ((r.useStack (values.map .push)).on bus).2
  | [], _, _, _, h, _ => ⟨rfl, h⟩
  | value :: values, held, r, bus, h, small => by
    rw [List.length_cons] at small
    have next := h.push (by omega) value
    rw [List.reverse_cons, List.append_assoc, List.singleton_append]
    exact next.pushes values (by rw [List.length_cons]; omega)

theorem Represents.pulls {held : List Byte} {r : Registers} {bus : β} (h : Represents top held r bus) :
    ((r.useStack (List.replicate held.length .pull)).on bus).1.1 = held := by
  induction held generalizing r bus with
  | nil => rfl
  | cons value held ih =>
    obtain ⟨newest, next⟩ := h.pull
    rw [List.length_cons, List.replicate_succ, on_useStack_pull]
    exact congr (congrArg List.cons newest) (ih next)

/-- Below the last byte of a full page the newest is found once more. -/
theorem Represents.round {value : Byte} (h : Represents top (value :: held) r bus) (full : held.length = 255) :
    Represents (top + 1) (value :: held ++ [value]) r bus := by
  have whole : BitVec.ofNat 8 (value :: held).length = 0#8 := by
    rw [List.length_cons, full]
    rfl
  refine ⟨h.keeps, ?_, holds_append.mpr ⟨h.holds, ?_, trivial⟩⟩
  · rw [h.pointer, whole, List.length_append, List.length_singleton, BitVec.ofNat_add, whole]
    bv_omega
  · rw [whole, BitVec.add_zero]
    exact h.holds.1

/-- The 257th byte takes the place of the first. -/
theorem on_useStack_of_full (keeps : KeepsStack bus) (r : Registers) (first last : Byte) {between : List Byte}
    (full : between.length = 255) :
    ((r.useStack ((first :: between ++ [last]).map .push ++ List.replicate 257 .pull)).on bus).1.1 =
      last :: between.reverse ++ [last] := by
  -- Forget the first byte: the 256 after it fill the page from the place below.
  have start := represents_nil (keeps.of_leads (.write r.s first .here)) { r with s := r.s - 1 }
  obtain ⟨nothing, pushed⟩ := start.pushes (between ++ [last]) (by simp [full])
  have order : (between ++ [last]).reverse ++ [] = last :: between.reverse := by simp
  rw [order] at pushed
  have pulled := (pushed.round (by rw [List.length_reverse, full])).pulls
  have count : (last :: between.reverse ++ [last]).length = 257 := by simp [full]
  rw [count] at pulled
  rw [List.cons_append, List.map_cons, List.cons_append, on_useStack_push, on_useStack_append]
  dsimp only
  rw [nothing, pulled]
  rfl

/-- **The stack is a list of up to 256 bytes.** From any S, and on every bus that keeps the stack, the bytes
that are pulled are those that an unbounded list gives, as long as nothing is pulled that was not pushed and
no more than `room` bytes, at most 256, are on the stack at a time. All accesses are to as many places of page
one, from S downward; after each use S is as far down as there are bytes on the stack; and no other byte of
page one changes, nor any elsewhere that these places leave alone. With 257 bytes pushed the last is pulled
where the list gives the first. -/
theorem stack_is_list (r : Registers) (keeps : KeepsStack bus) {room : Nat} (small : room ≤ 256)
    {uses : List StackUse} (fits : Fits 0 room uses) :
    (∃ left, onList uses [] = some (((r.useStack uses).on bus).1.1, left)) ∧
    (∀ activity ∈ (r.useStack uses).seen bus, activity.Touches (stackPlaces r.s room)) ∧
    (∀ place ∈ stackPlaces r.s room, 0x0100 ≤ place.toNat ∧ place.toNat ≤ 0x01FF) ∧
    (∀ n ≤ uses.length, ((r.useStack (uses.take n)).on bus).1.2 =
      { r with s := r.s - BitVec.ofNat 8 (StackUse.pushes (uses.take n) - StackUse.pulls (uses.take n)) }) ∧
    (∀ offset, stackPage offset ∉ stackPlaces r.s room →
      stackByte ((r.useStack uses).on bus).2 offset = stackByte bus offset) ∧
    (∀ address, Spares bus (stackPlaces r.s room) address →
      (Bus.read ((r.useStack uses).on bus).2 address).1 = (Bus.read bus address).1) ∧
    ∀ (first last : Byte) (between : List Byte), between.length = 255 →
      let overfull := (first :: between ++ [last]).map .push ++ List.replicate 257 .pull
      onList overfull [] = some (last :: between.reverse ++ [first], []) ∧
      ((r.useStack overfull).on bus).1.1 = last :: between.reverse ++ [last] := by
  have start : r.s = r.s - BitVec.ofNat 8 0 := (BitVec.sub_zero r.s).symm
  obtain ⟨left, pulled, -⟩ := (represents_nil keeps r).run small uses fits
  obtain ⟨within, -⟩ := (useStack_shows uses start fits).on bus
  refine ⟨⟨left, pulled⟩, within, fun place inside => ?_, fun n _ => ?_, fun offset other => ?_,
    fun address spares => Dialogue.read_of_spares within spares, fun first last between full => ⟨?_, ?_⟩⟩
  · obtain ⟨below, -, rfl⟩ := exists_of_mem_stackPlaces inside
    exact stackPage_bounds _
  · obtain ⟨-, left⟩ := (useStack_shows (uses.take n) start (fits.take n)).on bus
    rw [left, Nat.zero_add]
  · exact Dialogue.read_of_spares within (keeps.spares other)
  · have order : (first :: between ++ [last]).reverse ++ [] = last :: between.reverse ++ [first] := by simp
    have count : (last :: between.reverse ++ [first]).length = 257 := by simp [full]
    rw [onList_pushes, order, ← count, onList_pulls]
  · exact on_useStack_of_full keeps r first last full

/-- On a board whose first 2 KiB appear four times, with S at $01: the third byte is pushed past the bottom
of the page, and the fourth takes its place. -/
theorem stack_is_list_wrapped :
    let board : Board :=
      ⟨.blank, [⟨.repeated, 0x0000, 0x1FFF⟩, ⟨.counter, 0x4000, 0x4001⟩, ⟨.rom, 0x8000, 0xFFFF⟩]⟩
    let r : Registers := { powerOn with s := 0x01 }
    let uses : List StackUse := [.push 0x11, .push 0x22, .push 0x33, .pull, .push 0x44, .pull, .pull, .pull]
    KeepsStack board ∧ 3 ≤ 256 ∧ Fits 0 3 uses ∧
      ((r.useStack uses).on board).1.1 = [0x33, 0x44, 0x22, 0x11] ∧
      stackPlaces r.s 3 = [0x0101, 0x0100, 0x01FF] ∧
      ((r.useStack (uses.take 3)).on board).1.2 = { r with s := 0xFE } ∧
      stackByte ((r.useStack uses).on board).2 0xFE = stackByte board 0xFE := by
  intro board r uses
  have keeps : KeepsStack board := Board.keepsStack (by unfold Board.OffStack; decide)
  have fits : Fits 0 3 uses := by unfold Fits; decide
  have list : onList uses [] = some ([0x33, 0x44, 0x22, 0x11], []) := rfl
  have places : stackPlaces r.s 3 = [0x0101, 0x0100, 0x01FF] := by decide
  obtain ⟨⟨left, pulled⟩, -, -, pointer, kept, -⟩ := r.stack_is_list keeps (by decide : 3 ≤ 256) fits
  rw [list] at pulled
  refine ⟨keeps, by decide, fits, (Prod.mk.inj (Option.some.inj pulled)).1.symm, places,
    pointer 3 (by decide), kept 0xFE ?_⟩
  rw [places]
  decide

end Registers
end Nmos6502
