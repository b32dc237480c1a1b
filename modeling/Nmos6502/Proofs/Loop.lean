/-
# A host that never falls silent

A host may have answers for ever, and a run with such a host may never end. It
is a loop that goes round and round: a turn and, if that has spent the budget, a
question, which ends the loop if the answer is to stop.

What is carried along a run (`Run.Invariant`) is carried along a loop, round by
round, whether it ends or not (`Run.Invariant.rounds`).
-/
import Mathlib.Data.Stream.Init
import Nmos6502.Proofs.Course

namespace Nmos6502

/-- A run with a host that never falls silent, on its way or ended, and the answers to come. -/
inductive Loop (β : Type) where
  | going (run : Run β) (host : Stream' Answer)
  | ended (run : Run β) (host : Stream' Answer)

namespace Loop

variable {β : Type}

def run : Loop β → Run β
  | going r _ => r
  | ended r _ => r

/-- What a loop carries along: a run on its way is ready for a turn, and one that has ended was stopped
when it was due to be asked. -/
def Carries (note : Answer → β → β) (Ready Due : Run β → Prop) : Loop β → Prop
  | going r _ => Ready r
  | ended r _ => ∃ p, Due p ∧ r = p.close note

variable [Bus β]

def ask (note : Answer → β → β) (r : Run β) (host : Stream' Answer) : Loop β :=
  if host.head = .stop then ended (r.close note) host.tail
  else going (r.resume note host.head) host.tail

/-- A turn, and a question if that has spent the budget. -/
def round (note : Answer → β → β) : Loop β → Loop β
  | going r host => if 0 < r.turn.machine.budget then going r.turn host else ask note r.turn host
  | ended r host => ended r host

def rounds (note : Answer → β → β) : Nat → Loop β → Loop β
  | 0, loop => loop
  | n + 1, loop => rounds note n (loop.round note)

variable (note : Answer → β → β)

theorem rounds_add (k : Nat) : ∀ (n : Nat) (loop : Loop β),
    rounds note (n + k) loop = rounds note k (rounds note n loop)
  | 0, loop => by rw [Nat.zero_add, rounds]
  | n + 1, loop => by
    rw [Nat.succ_add, rounds, rounds]
    exact rounds_add k n (loop.round note)

theorem ask_of_stop (r : Run β) {host : Stream' Answer} (stops : host.head = .stop) :
    ask note r host = ended (r.close note) host.tail :=
  if_pos stops

theorem ask_of_go (r : Run β) {host : Stream' Answer} (goes : host.head ≠ .stop) :
    ask note r host = going (r.resume note host.head) host.tail :=
  if_neg goes

end Loop

namespace Run.Invariant

variable {β : Type} [Bus β] {note : Answer → β → β} {Ready Due : Run β → Prop}

/-- A round ends ready, or with a run that was due. -/
theorem round (inv : Invariant note Ready Due) {loop : Loop β} (h : loop.Carries note Ready Due) :
    (loop.round note).Carries note Ready Due := by
  cases loop with
  | ended r host => exact h
  | going r host =>
    obtain ⟨ready, due⟩ := inv.turn r h
    by_cases left : 0 < r.turn.machine.budget
    · rw [Loop.round, if_pos left]
      exact ready left
    · rw [Loop.round, if_neg left]
      have asked := due (Int.not_lt.mp left)
      by_cases stops : host.head = .stop
      · rw [Loop.ask_of_stop note _ stops]
        exact ⟨r.turn, asked, rfl⟩
      · rw [Loop.ask_of_go note _ stops]
        exact inv.resume _ _ stops asked

theorem rounds (inv : Invariant note Ready Due) (n : Nat) : ∀ loop : Loop β,
    loop.Carries note Ready Due → (Loop.rounds note n loop).Carries note Ready Due := by
  induction n with
  | zero => exact fun _ h => h
  | succ n ih => exact fun loop h => ih (loop.round note) (inv.round h)

end Run.Invariant
end Nmos6502
