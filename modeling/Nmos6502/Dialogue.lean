/-
# Dialogues with a bus

What the processor does is a dialogue with its bus: it reads and goes on in a
way that depends on the byte it got, or it writes and goes on, until it is done
with a result. A dialogue names no bus; `Dialogue.on` holds it with one. So
everything the processor does is known before any bus is chosen, and that the
choice of a bus matters only through its answers is one induction over
dialogues, not a matter of reading the processor.
-/
import Nmos6502.Bus

namespace Nmos6502

/-- A computation that reads and writes on a bus and ends with a result. -/
inductive Dialogue (α : Type) where
  | done (result : α)
  | read (address : Word) (next : Byte → Dialogue α)
  | write (address : Word) (value : Byte) (next : Dialogue α)

namespace Dialogue

variable {α γ δ : Type}

/-! ### Sequencing -/

/-- One dialogue, then another that depends on its result. -/
def andThen : Dialogue α → (α → Dialogue γ) → Dialogue γ
  | .done result, f => f result
  | .read address next, f => .read address fun value => (next value).andThen f
  | .write address value next, f => .write address value (next.andThen f)

instance : Monad Dialogue where
  pure := .done
  bind := andThen

@[simp] theorem pure_eq (result : α) : (pure result : Dialogue α) = .done result := rfl

@[simp] theorem done_bind (result : α) (f : α → Dialogue γ) :
    (Dialogue.done result >>= f) = f result := rfl

@[simp] theorem read_bind (address : Word) (next : Byte → Dialogue α) (f : α → Dialogue γ) :
    (Dialogue.read address next >>= f) = .read address fun value => next value >>= f := rfl

@[simp] theorem write_bind (address : Word) (value : Byte) (next : Dialogue α)
    (f : α → Dialogue γ) :
    (Dialogue.write address value next >>= f) = .write address value (next >>= f) := rfl

theorem bind_done (d : Dialogue α) : (d >>= .done) = d := by
  induction d with
  | done result => rfl
  | read address next ih => simp [ih]
  | write address value next ih => simp [ih]

theorem bind_bind (d : Dialogue α) (f : α → Dialogue γ) (g : γ → Dialogue δ) :
    (d >>= f >>= g) = d >>= fun result => f result >>= g := by
  induction d with
  | done result => rfl
  | read address next ih => simp [ih]
  | write address value next ih => simp [ih]

instance : LawfulMonad Dialogue :=
  LawfulMonad.mk' Dialogue bind_done (fun _ _ => rfl) bind_bind

@[simp] theorem map_done (f : α → γ) (result : α) :
    (f <$> Dialogue.done result) = .done (f result) := rfl

@[simp] theorem map_read (f : α → γ) (address : Word) (next : Byte → Dialogue α) :
    (f <$> Dialogue.read address next) = .read address fun value => f <$> next value := rfl

@[simp] theorem map_write (f : α → γ) (address : Word) (value : Byte) (next : Dialogue α) :
    (f <$> Dialogue.write address value next) = .write address value (f <$> next) := rfl

/-! ### Single accesses -/

def readByte (address : Word) : Dialogue Byte :=
  .read address .done

def writeByte (address : Word) (value : Byte) : Dialogue Unit :=
  .write address value (.done ())

/-! ### Holding a dialogue -/

/-- Hold a dialogue with a bus: the result, and the bus afterwards. -/
def on {β : Type} [Bus β] : Dialogue α → β → α × β
  | .done result, bus => (result, bus)
  | .read address next, bus =>
    let (value, bus) := Bus.read bus address
    (next value).on bus
  | .write address value next, bus => next.on (Bus.write bus address value)

variable {β : Type} [Bus β]

@[simp] theorem on_done (result : α) (bus : β) : (Dialogue.done result).on bus = (result, bus) := rfl

@[simp] theorem on_read (address : Word) (next : Byte → Dialogue α) (bus : β) :
    (Dialogue.read address next).on bus =
      (next (Bus.read bus address).1).on (Bus.read bus address).2 := rfl

@[simp] theorem on_write (address : Word) (value : Byte) (next : Dialogue α) (bus : β) :
    (Dialogue.write address value next).on bus = next.on (Bus.write bus address value) := rfl

@[simp] theorem on_readByte (address : Word) (bus : β) :
    (readByte address).on bus = Bus.read bus address := rfl

@[simp] theorem on_writeByte (address : Word) (value : Byte) (bus : β) :
    (writeByte address value).on bus = ((), Bus.write bus address value) := rfl

@[simp] theorem on_bind (d : Dialogue α) (f : α → Dialogue γ) (bus : β) :
    (d >>= f).on bus = (f (d.on bus).1).on (d.on bus).2 := by
  induction d generalizing bus with
  | done result => rfl
  | read address next ih => simp [ih]
  | write address value next ih => simp [ih]

@[simp] theorem on_map (f : α → γ) (d : Dialogue α) (bus : β) :
    (f <$> d).on bus = (f (d.on bus).1, (d.on bus).2) := by
  induction d generalizing bus with
  | done result => rfl
  | read address next ih => simp [ih]
  | write address value next ih => simp [ih]

end Dialogue
end Nmos6502
