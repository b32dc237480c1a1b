/-
# Buses that answer alike

Two buses, perhaps of different kinds, are alike as long as they answer every
access with the same byte and are alike again afterwards (`Bus.Alike`). A
processor cannot tell them apart: a dialogue held with either gives the same
result (`Dialogue.on_alike`), and machines with the same registers on buses
that are alike take the same steps, whatever their schedulers are about
(`Walk.Alike.times`).

Buses with a record come by the same record if they are alike
(`Traced.Beside`). A bus with a record is alike to the same bus with another
record, if the accesses recorded are the same: what the host was asked meanwhile
makes no difference (`Traced.SameAccesses`).
-/
import Nmos6502.Proofs.Agreement
import Nmos6502.Stepping
import Nmos6502.Trace

namespace Nmos6502

/-- A relation of buses that answer alike and stay so. -/
structure Bus.Alike {β γ : Type} [Bus β] [Bus γ] (R : β → γ → Prop) : Prop where
  byte : ∀ b c address, R b c → (Bus.read b address).1 = (Bus.read c address).1
  read : ∀ b c address, R b c → R (Bus.read b address).2 (Bus.read c address).2
  write : ∀ b c address value, R b c → R (Bus.write b address value) (Bus.write c address value)

theorem Bus.Alike.eq {β : Type} [Bus β] : Bus.Alike (Eq : β → β → Prop) where
  byte b c address same := by rw [same]
  read b c address same := by rw [same]
  write b c address value same := by rw [same]

section

variable {β γ : Type} [Bus β] [Bus γ] {R : β → γ → Prop}

/-- Dialogues that agree have related results on buses that are alike, and leave these so. -/
theorem Dialogue.Agree.on {α δ : Type} {S : α → δ → Prop} (alike : Bus.Alike R) {d : Dialogue α}
    {e : Dialogue δ} (h : d.Agree S e) {b : β} {c : γ} (related : R b c) :
    S (d.on b).1 (e.on c).1 ∧ R (d.on b).2 (e.on c).2 := by
  induction h generalizing b c with
  | done result => exact ⟨result, related⟩
  | read address _ ih =>
    rw [on_read, on_read, alike.byte b c address related]
    exact ih _ (alike.read b c address related)
  | write address value _ ih =>
    rw [on_write, on_write]
    exact ih (alike.write b c address value related)

/-- A dialogue has the same result on buses that are alike. -/
theorem Dialogue.on_alike {α : Type} (alike : Bus.Alike R) (d : Dialogue α) {b : β} {c : γ} (h : R b c) :
    (d.on b).1 = (d.on c).1 ∧ R (d.on b).2 (d.on c).2 :=
  (Agree.refl (S := Eq) (fun _ => rfl) d).on alike h

/-! ### Machines -/

/-- The same registers, and buses that are alike. The schedulers may differ. -/
structure Machine.Alike (R : β → γ → Prop) (m : Machine β) (k : Machine γ) : Prop where
  regs : m.regs = k.regs
  bus : R m.bus k.bus

namespace Machine.Alike

variable {m : Machine β} {k : Machine γ}

theorem converse (alike : Bus.Alike R) (h : Machine.Alike R m k) {α : Type}
    (talk : Registers → Dialogue (α × Registers)) :
    (m.converse talk).1 = (k.converse talk).1 ∧
    Machine.Alike R (m.converse talk).2 (k.converse talk).2 := by
  obtain ⟨result, bus⟩ := (talk k.regs).on_alike alike h.bus
  rw [← h.regs] at result bus
  have talks : talk k.regs = talk m.regs := by rw [h.regs]
  unfold Machine.converse
  rw [talks]
  refine ⟨?_, ?_, bus⟩
  · show ((talk m.regs).on m.bus).1.1 = ((talk m.regs).on k.bus).1.1
    rw [result]
  · show ((talk m.regs).on m.bus).1.2 = ((talk m.regs).on k.bus).1.2
    rw [result]

theorem step (alike : Bus.Alike R) (h : Machine.Alike R m k) :
    m.step.1 = k.step.1 ∧ Machine.Alike R m.step.2 k.step.2 :=
  h.converse alike Registers.step

end Machine.Alike

/-! ### Walks -/

/-- The same steps taken, to machines that are alike. -/
structure Walk.Alike (R : β → γ → Prop) (w : Walk β) (v : Walk γ) : Prop where
  machine : Machine.Alike R w.machine v.machine
  taken : w.taken = v.taken

namespace Walk.Alike

variable {w : Walk β} {v : Walk γ}

theorem next (alike : Bus.Alike R) (h : Walk.Alike R w v) : Walk.Alike R w.next v.next := by
  obtain ⟨executed, machine⟩ := h.machine.step alike
  refine ⟨machine, ?_⟩
  show (⟨w.machine.step.1, w.machine.step.2.regs⟩ : Step) :: w.taken =
    ⟨v.machine.step.1, v.machine.step.2.regs⟩ :: v.taken
  rw [executed, machine.regs, h.taken]

theorem times (alike : Bus.Alike R) (n : Nat) : ∀ {w : Walk β} {v : Walk γ}, Walk.Alike R w v →
    Walk.Alike R (w.times n) (v.times n) := by
  induction n with
  | zero => exact fun h => h
  | succ n ih => exact fun h => ih (h.next alike)

end Walk.Alike
end

/-! ### Records -/

section

variable {β γ : Type} {R : β → γ → Prop}

/-- Buses in a relation, with the same record. -/
structure Traced.Beside (R : β → γ → Prop) (t : Traced β) (u : Traced γ) : Prop where
  bus : R t.bus u.bus
  record : t.record = u.record

/-- Buses that answer alike come by the same record. -/
theorem Bus.Alike.beside [Bus β] [Bus γ] (alike : Bus.Alike R) : Bus.Alike (Traced.Beside R) where
  byte t u address h := alike.byte t.bus u.bus address h.bus
  read t u address h := by
    refine ⟨alike.read _ _ address h.bus, ?_⟩
    show .read address (Bus.read t.bus address).1 :: t.record = .read address (Bus.read u.bus address).1 :: u.record
    rw [alike.byte _ _ address h.bus, h.record]
  write t u address value h :=
    ⟨alike.write _ _ address value h.bus, congrArg (Activity.write address value :: ·) h.record⟩

theorem Traced.Beside.notePoll {note : Answer → β → β} {note' : Answer → γ → γ}
    (noted : ∀ answer b c, R b c → R (note answer b) (note' answer c)) (answer : Answer) (t : Traced β)
    (u : Traced γ) (h : Traced.Beside R t u) :
    Traced.Beside R (Traced.notePoll note answer t) (Traced.notePoll note' answer u) :=
  ⟨noted answer _ _ h.bus, congrArg (Activity.polled answer :: ·) h.record⟩

end

namespace Traced

variable {β : Type}

/-- The accesses recorded, newest first. -/
def accesses (t : Traced β) : List Activity :=
  t.record.filter fun seen => !(seen matches .polled _)

/-- What the host was asked meanwhile, newest first. -/
def questions (t : Traced β) : List Activity :=
  t.record.filter fun seen => seen matches .polled _

/-- The same bus, and the same accesses on it. -/
structure SameAccesses (t u : Traced β) : Prop where
  bus : t.bus = u.bus
  accesses : t.accesses = u.accesses

theorem SameAccesses.refl (t : Traced β) : SameAccesses t t :=
  ⟨rfl, rfl⟩

/-- What the host was asked is no access. -/
theorem SameAccesses.notePoll {note : Answer → β → β} {answer : Answer} (aloof : ∀ bus, note answer bus = bus)
    {t u : Traced β} (h : SameAccesses t u) : SameAccesses (notePoll note answer t) u :=
  ⟨(aloof t.bus).trans h.bus, h.accesses⟩

variable [Bus β]

theorem accesses_read (t : Traced β) (address : Word) :
    (Bus.read t address).2.accesses = .read address (Bus.read t.bus address).1 :: t.accesses := rfl

theorem accesses_write (t : Traced β) (address : Word) (value : Byte) :
    (Bus.write t address value).accesses = .write address value :: t.accesses := rfl

theorem alike_sameAccesses : Bus.Alike (SameAccesses (β := β)) where
  byte t u address h := by
    show (Bus.read t.bus address).1 = (Bus.read u.bus address).1
    rw [h.bus]
  read t u address h := by
    refine ⟨?_, ?_⟩
    · show (Bus.read t.bus address).2 = (Bus.read u.bus address).2
      rw [h.bus]
    · rw [accesses_read, accesses_read, h.bus, h.accesses]
  write t u address value h := by
    refine ⟨?_, ?_⟩
    · show Bus.write t.bus address value = Bus.write u.bus address value
      rw [h.bus]
    · rw [accesses_write, accesses_write, h.accesses]

theorem questions_on {α : Type} (d : Dialogue α) (t : Traced β) :
    (d.on t).2.questions = t.questions := by
  induction d generalizing t with
  | done result => rfl
  | read address next ih => exact ih _ _
  | write address value next ih => exact ih _

end Traced
end Nmos6502
