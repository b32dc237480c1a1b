/-
# What a dialogue yields

A dialogue ends in a result that depends on the bytes it has read.
`Dialogue.Yields` says that the result has a property whatever these bytes are,
so what is proved with it holds on every bus (`Dialogue.Yields.on`).
-/
import Nmos6502.Dialogue

namespace Nmos6502
namespace Dialogue

variable {α γ : Type}

/-- Whatever is read, the result has a property. -/
def Yields (post : α → Prop) : Dialogue α → Prop
  | .done result => post result
  | .read _ next => ∀ value, (next value).Yields post
  | .write _ _ next => next.Yields post

theorem yields_bind {post : γ → Prop} (d : Dialogue α) (f : α → Dialogue γ) :
    (d >>= f).Yields post ↔ d.Yields fun result => (f result).Yields post := by
  induction d with
  | done result => exact Iff.rfl
  | read address next ih => exact forall_congr' ih
  | write address value next ih => exact ih

theorem yields_map {post : γ → Prop} (f : α → γ) (d : Dialogue α) :
    (f <$> d).Yields post ↔ d.Yields fun result => post (f result) := by
  induction d with
  | done result => exact Iff.rfl
  | read address next ih => exact forall_congr' ih
  | write address value next ih => exact ih

theorem Yields.of_forall {post : α → Prop} (h : ∀ result, post result) (d : Dialogue α) :
    d.Yields post := by
  induction d with
  | done result => exact h result
  | read address next ih => exact ih
  | write address value next ih => exact ih

theorem Yields.mono {post weaker : α → Prop} {d : Dialogue α} (h : d.Yields post)
    (weaken : ∀ result, post result → weaker result) : d.Yields weaker := by
  induction d with
  | done result => exact weaken result h
  | read address next ih => exact fun value => ih value (h value)
  | write address value next ih => exact ih h

theorem Yields.bind_of_forall {post : γ → Prop} {f : α → Dialogue γ}
    (h : ∀ result, (f result).Yields post) (d : Dialogue α) : (d >>= f).Yields post :=
  (yields_bind d f).mpr (.of_forall h d)

theorem Yields.on {β : Type} [Bus β] {post : α → Prop} {d : Dialogue α} (h : d.Yields post)
    (bus : β) : post (d.on bus).1 := by
  induction d generalizing bus with
  | done result => exact h
  | read address next ih => exact ih _ (h _) _
  | write address value next ih => exact ih h _

end Dialogue
end Nmos6502
