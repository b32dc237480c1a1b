/-
# Handlers do not pile up

However short the period is and whatever the host answers, the program gets its
turn: between any two entries into handlers an instruction is executed. And an
IRQ is let in again only by the program, since a handler starts with I set and
an entry for an IRQ needs it clear: between an entry of either kind and a later
one for an IRQ the program has executed CLI, PLP or RTI.

Both are one statement about a journal, that something has been executed since
the last entry (`Journal.Since`), for two kinds of instructions. A run carries
it along together with the I flag (`Run.Unnested`), also a run that never ends
because its host never says stop (`Run.apart_rounds`).
-/
import Nmos6502.Proofs.Loop
import Nmos6502.Proofs.Masking
import Nmos6502.Rom

namespace Nmos6502

/-! ### Since the last entry -/

namespace Journal

/-- An instruction with the property has been executed since the last entry, or there was no entry.
The journal is told newest first. -/
def Since (P : Executed → Prop) : List Event → Prop
  | [] => True
  | .executed what :: earlier => P what ∨ Since P earlier
  | .entered _ _ _ :: _ => False
  | _ :: earlier => Since P earlier

def Unmasks (what : Executed) : Prop :=
  what.instruction.mnemonic ∈ Mnemonic.unmasking

/-- Before every entry an instruction has been executed since the one before, and before an entry for
an IRQ one that may clear I. The journal is told newest first. -/
def Apart : List Event → Prop
  | [] => True
  | .entered kind _ _ :: earlier =>
    (Since (fun _ => True) earlier ∧ (kind = .irq → Since Unmasks earlier)) ∧ Apart earlier
  | _ :: earlier => Apart earlier

theorem Apart.earlier {e : Event} {earlier : List Event} (h : Apart (e :: earlier)) : Apart earlier := by
  cases e with
  | entered kind v w => exact h.2
  | executed | dropped | polled | stopped | reset => exact h

theorem Apart.of_append {later earlier : List Event} (h : Apart (later ++ earlier)) : Apart earlier := by
  induction later with
  | nil => exact h
  | cons e later ih => exact ih h.earlier

/-- What has been executed since the last entry comes after any entry. -/
theorem Since.executed_between {P : Executed → Prop} {kind : Interrupt} {v w : Word}
    {between earlier : List Event} (h : Since P (between ++ .entered kind v w :: earlier)) :
    ∃ what ∈ instructions between, P what := by
  induction between with
  | nil => exact h.elim
  | cons e between ih =>
    rw [instructions_cons]
    cases e with
    | executed what =>
      rcases h with here | before
      · exact ⟨what, List.mem_cons_self, here⟩
      · obtain ⟨other, member, holds⟩ := ih before
        exact ⟨other, List.mem_cons_of_mem what member, holds⟩
    | entered kind v w => exact h.elim
    | dropped | polled | stopped | reset => exact ih h

end Journal

/-! ### Along a run -/

namespace Run

open Journal (Since Apart Unmasks)

variable {β : Type}

/-- What holds all along a run: its entries are apart, and I is set unless the program may have cleared
it since the last of them. -/
structure Unnested (r : Run β) : Prop where
  apart : Apart r.journal
  masked : r.machine.regs.p.interruptDisable = true ∨ Since Unmasks r.journal

/-- At the head of a turn: an NMI waits only if no handler has been entered yet. -/
structure Rested (r : Run β) : Prop extends Unnested r where
  fresh : r.machine.phase = .pending .nmi → r.journal = []

theorem rested_begin (m : Machine β) : (begin m).Rested :=
  ⟨⟨trivial, Or.inr trivial⟩, fun _ => rfl⟩

theorem Unnested.apart_close {r : Run β} (h : r.Unnested) (note : Answer → β → β) :
    Apart (r.close note).journal :=
  h.apart

/-- What is told besides instructions and entries makes no difference. -/
theorem Unnested.note {r q : Run β} (h : r.Unnested) {e : Event} (notExecuted : e.instruction? = none)
    (notEntered : e.entered? = none) (noted : q.journal = e :: r.journal)
    (same : q.machine.regs = r.machine.regs) : q.Unnested := by
  obtain ⟨apart, masked⟩ := h
  rw [← same] at masked
  refine ⟨?_, ?_⟩
  · rw [noted]
    cases e with
    | entered kind v w => nomatch notEntered
    | executed | dropped | polled | stopped | reset => exact apart
  · rw [noted]
    cases e with
    | entered kind v w => nomatch notEntered
    | executed what => nomatch notExecuted
    | dropped | polled | stopped | reset => exact masked

variable [Bus β] {r : Run β}

/-- An instruction that cannot clear I leaves it set. -/
theorem Unnested.execute (h : r.Unnested) :
    r.execute.Unnested ∧ Since (fun _ => True) r.execute.journal := by
  refine ⟨⟨h.apart, ?_⟩, Or.inl trivial⟩
  rw [journal_execute]
  by_cases unmasks : Unmasks r.machine.step.1
  · exact Or.inr (Or.inl unmasks)
  · rcases h.masked with masked | since
    · exact Or.inl (Machine.masked_step masked unmasks)
    · exact Or.inr (Or.inr since)

/-- A handler that is entered when it may be starts with I set. -/
theorem Unnested.enter (h : r.Unnested) {kind : Interrupt} (rested : Since (fun _ => True) r.journal)
    (allowed : kind = .irq → r.machine.regs.p.interruptDisable = false) : (r.enter kind).Unnested := by
  refine ⟨⟨⟨rested, fun irq => ?_⟩, h.apart⟩, Or.inl (r.machine.masked_enter kind)⟩
  rcases h.masked with masked | since
  · have clear := allowed irq
    rw [masked] at clear
    nomatch clear
  · exact since

theorem Rested.wake (h : r.Rested) : r.wake.Unnested := by
  unfold Run.wake
  split
  · next pending =>
    have settled : r.settle.Unnested := ⟨h.apart, h.masked⟩
    refine settled.enter ?_ nofun
    show Since _ r.journal
    rw [h.fresh pending]
    trivial
  · exact h.toUnnested

theorem Rested.turn (h : r.Rested) :
    r.turn.Rested ∧ Since (fun _ => True) r.turn.journal := by
  obtain ⟨unnested, executed⟩ := h.wake.execute
  have awake : r.turn.machine.phase ≠ .pending .nmi := r.phase_turn ▸ r.phase_wake
  rw [← turn_eq] at unnested executed
  exact ⟨⟨unnested, fun pending => absurd pending awake⟩, executed⟩

/-- After a question no NMI waits, and an IRQ is served only if I is clear. -/
theorem Unnested.resume (h : r.Unnested) (executed : Since (fun _ => True) r.journal)
    (note : Answer → β → β) (answer : Answer) : (r.resume note answer).Rested := by
  have fresh : (r.refresh note answer).Unnested := h.note (e := .polled answer) rfl rfl rfl rfl
  rw [resume_eq]
  apply serve_cases
  · exact ⟨fresh, nofun⟩
  · exact ⟨fresh.enter executed nofun, nofun⟩
  · exact fun clear => ⟨fresh.enter executed fun _ => clear, nofun⟩
  · exact fun _ => ⟨fresh.note (e := .dropped _) rfl rfl rfl rfl, nofun⟩

theorem unnested_invariant (note : Answer → β → β) :
    Invariant note (Rested (β := β)) fun r => r.Unnested ∧ Since (fun _ => True) r.journal where
  turn r h := by
    obtain ⟨rested, executed⟩ := h.turn
    exact ⟨fun _ => rested, fun _ => ⟨rested.toUnnested, executed⟩⟩
  resume r answer _ h := h.1.resume h.2 note answer

theorem apart_run (note : Answer → β → β) (m : Machine β) (answers : List Answer) :
    Apart (m.runNoting note answers).1.journal := by
  obtain ⟨p, ⟨unnested, -⟩, eq⟩ := (unnested_invariant note).follow answers (rested_begin m)
  show Apart ((begin m).follow note answers).1.journal
  rw [eq]
  exact unnested.apart_close note

/-- The entries of a run are apart while it goes on. -/
theorem apart_rounds (note : Answer → β → β) (m : Machine β) (host : Stream' Answer) (n : Nat) :
    Apart (Loop.rounds note n (.going (begin m) host)).run.journal := by
  have carried := (unnested_invariant note).rounds n (.going (begin m) host) (rested_begin m)
  cases h : Loop.rounds note n (.going (begin m) host) with
  | going r host =>
    rw [h] at carried
    exact carried.apart
  | ended r host =>
    rw [h] at carried
    obtain ⟨p, ⟨unnested, -⟩, rfl⟩ := carried
    exact unnested.apart_close note

end Run

/-- **Handlers do not pile up.** Of any two entries in a run, told in order of time with what happened
in between, at least one instruction is executed between them; and if the second is for an IRQ, one
that is CLI, PLP or RTI. The run may have ended, or be one that goes on for so many rounds with a host
that perhaps never says stop. -/
theorem Machine.entries_apart {β : Type} [Bus β] (note : Answer → β → β) (m : Machine β)
    {journal : List Event}
    (run : (∃ answers, journal = (m.runNoting note answers).1.journal) ∨
      ∃ host n, journal = (Loop.rounds note n (.going (.begin m) host)).run.journal)
    {before between after : List Event} {first second : Interrupt} {v w v' w' : Word}
    (told : journal.reverse =
      before ++ .entered first v w :: (between ++ .entered second v' w' :: after)) :
    Journal.instructions between ≠ [] ∧
    (second = .irq → ∃ what ∈ Journal.instructions between,
      what.instruction.mnemonic ∈ [Mnemonic.cli, .plp, .rti]) := by
  have apart : Journal.Apart journal := by
    rcases run with ⟨answers, rfl⟩ | ⟨host, n, rfl⟩
    · exact Run.apart_run note m answers
    · exact Run.apart_rounds note m host n
  have newestFirst : journal =
      after.reverse ++ .entered second v' w' ::
        (between.reverse ++ .entered first v w :: before.reverse) := by
    rw [← List.reverse_reverse journal, told]
    simp
  rw [newestFirst] at apart
  obtain ⟨⟨some, unmasks⟩, -⟩ := apart.of_append
  have reversed : Journal.instructions between.reverse = (Journal.instructions between).reverse :=
    List.filterMap_reverse
  refine ⟨fun none => ?_, fun irq => ?_⟩
  · obtain ⟨what, member, -⟩ := some.executed_between
    rw [reversed, none] at member
    nomatch member
  · obtain ⟨what, member, allowed⟩ := (unmasks irq).executed_between
    rw [reversed, List.mem_reverse] at member
    exact ⟨what, member, allowed⟩

/-- A program of CLI alone is interrupted after every instruction when the period is one cycle and
the host raises an IRQ at every question. -/
theorem Machine.entries_apart_shortest_period :
    let m : Machine Rom :=
      { settings := ⟨⟨1000000⟩, 1⟩, accepted := by decide, regs := .powerOn
        bus := .uniform 0x58, phase := .running, budget := 1 }
    let note : Answer → Rom → Rom := fun _ bus => bus
    let journal := (Loop.rounds note 3 (.going (.begin m) fun _ => .irq)).run.journal
    ∃ before between after,
      journal.reverse =
        before ++ .entered .irq 0x0001 0x5858 :: (between ++ .entered .irq 0x5859 0x5858 :: after) ∧
      (Journal.instructions between).map (fun what => what.instruction.mnemonic) = [.cli] ∧
      ∃ what ∈ Journal.instructions between,
        what.instruction.mnemonic ∈ [Mnemonic.cli, .plp, .rti] := by
  intro m note journal
  let events := journal.reverse
  have told : events =
      events.take 2 ++ .entered .irq 0x0001 0x5858 ::
        ((events.drop 3).take 2 ++ .entered .irq 0x5859 0x5858 :: events.drop 6) := by
    decide +kernel
  have between : (Journal.instructions ((events.drop 3).take 2)).map
      (fun what => what.instruction.mnemonic) = [.cli] := by decide +kernel
  have run : ∃ host n, journal = (Loop.rounds note n (.going (.begin m) host)).run.journal :=
    ⟨fun _ => .irq, 3, rfl⟩
  exact ⟨_, _, _, told, between, (entries_apart note m (Or.inr run) told).2 rfl⟩

end Nmos6502
