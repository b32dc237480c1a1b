/-
# What a journal adds up to

A journal tells which instructions were executed, which handlers were entered
and what the host answered. From it the cycles can be reckoned again: those of
each instruction and seven for each entry. This is the account that the cycle
counts of a run are compared with, and it does not look at a budget.

A journal is kept newest first while a machine runs and read in order of time
afterwards; the account is the same both ways.
-/
import Nmos6502.Journal

namespace Nmos6502

/-- The cycles of some instructions, all together. -/
def cyclesOf : List Executed → Nat
  | [] => 0
  | what :: rest => what.cycles + cyclesOf rest

theorem cyclesOf_append : ∀ whats more : List Executed,
    cyclesOf (whats ++ more) = cyclesOf whats + cyclesOf more
  | [], more => by rw [List.nil_append, cyclesOf, Nat.zero_add]
  | what :: whats, more => by
    have ih := cyclesOf_append whats more
    simp only [List.cons_append, cyclesOf]
    omega

theorem cyclesOf_reverse (whats : List Executed) : cyclesOf whats.reverse = cyclesOf whats := by
  induction whats with
  | nil => rfl
  | cons what rest ih =>
    rw [List.reverse_cons, cyclesOf_append, ih]
    simp only [cyclesOf]
    omega

namespace Event

def instruction? : Event → Option Executed
  | .executed what => some what
  | _ => none

def entered? : Event → Option Interrupt
  | .entered kind _ _ => some kind
  | _ => none

def answer? : Event → Option Answer
  | .polled answer => some answer
  | _ => none

def cycles : Event → Nat
  | .executed what => what.cycles
  | .entered _ _ _ => interruptCycles
  | _ => 0

end Event

namespace Journal

def instructions (events : List Event) : List Executed :=
  events.filterMap Event.instruction?

def entries (events : List Event) : List Interrupt :=
  events.filterMap Event.entered?

def answers (events : List Event) : List Answer :=
  events.filterMap Event.answer?

/-- How often the host answered and did not say stop. Each time a period is added to the budget. -/
def refills (events : List Event) : Nat :=
  (answers events).countP (· != .stop)

def cycles : List Event → Nat
  | [] => 0
  | e :: rest => e.cycles + cycles rest

/-! ### Event by event -/

/-- What is read off the first event comes before what is read off the others. -/
theorem filterMap_cons_toList {σ α : Type} (f : σ → Option α) (e : σ) (events : List σ) :
    (e :: events).filterMap f = (f e).toList ++ events.filterMap f := by
  cases h : f e with
  | none => rw [List.filterMap_cons_none h, Option.toList_none, List.nil_append]
  | some a => rw [List.filterMap_cons_some h, Option.toList_some, List.singleton_append]

theorem instructions_cons (e : Event) (events : List Event) :
    instructions (e :: events) = e.instruction?.toList ++ instructions events :=
  filterMap_cons_toList Event.instruction? e events

theorem entries_cons (e : Event) (events : List Event) :
    entries (e :: events) = e.entered?.toList ++ entries events :=
  filterMap_cons_toList Event.entered? e events

theorem answers_cons (e : Event) (events : List Event) :
    answers (e :: events) = e.answer?.toList ++ answers events :=
  filterMap_cons_toList Event.answer? e events

theorem refills_cons (e : Event) (events : List Event) :
    refills (e :: events) = e.answer?.toList.countP (· != .stop) + refills events := by
  unfold refills
  rw [answers_cons, List.countP_append]

theorem refills_cons_none {e : Event} (h : e.answer? = none) (events : List Event) :
    refills (e :: events) = refills events := by
  rw [refills_cons, h, Option.toList_none, List.countP_nil, Nat.zero_add]

theorem refills_reverse (events : List Event) : refills events.reverse = refills events := by
  unfold refills answers
  rw [List.filterMap_reverse, List.countP_reverse]

/-- What had been told by the time of an event is told also when one of another kind has come after
it. -/
theorem suffix_of_suffix_cons {e other : Event} {earlier events : List Event}
    (h : e :: earlier <:+ other :: events) (ne : e ≠ other) : e :: earlier <:+ events := by
  rcases List.suffix_cons_iff.mp h with same | suffix
  · exact absurd (List.cons.inj same).1 ne
  · exact suffix

/-- Each event has its cycles from an instruction or from an entry. -/
theorem cycles_eq : ∀ events : List Event,
    cycles events = cyclesOf (instructions events) + 7 * (entries events).length
  | [] => rfl
  | e :: rest => by
    have ih := cycles_eq rest
    rw [instructions_cons, entries_cons, cyclesOf_append, List.length_append, cycles, ih]
    cases e <;>
      simp only [Event.cycles, Event.instruction?, Event.entered?, Option.toList_some, Option.toList_none,
        cyclesOf, List.length_cons, List.length_nil, interruptCycles] <;>
      omega

end Journal
end Nmos6502
