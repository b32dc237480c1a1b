/-
# An IRQ that waits for the first question

An IRQ put down before a run is looked at when the host is asked first. If I is
clear and the run goes on, a handler is entered there: the IRQ's, or that of an
NMI the host asks for. If I is set the IRQ is dropped, and the journal says so;
a drop in the journal always means that I was set (`Run.masked_of_dropped`).

If the host says stop at that question, nothing is looked at. The machine is
halted, and the IRQ is gone, with no entry and no word in the journal. So an
IRQ that waits while I is clear is served in a run exactly if the host does not
stop the run at its first question (`Machine.waiting_irq_served_iff`).
-/
import Nmos6502.Proofs.Requests
import Nmos6502.Rom

namespace Nmos6502

namespace Journal

variable {e other : Event} {earlier events : List Event}

theorem eq_of_suffix_cons {later : List Event} (h : e :: earlier <:+ events)
    (h' : other :: later <:+ events) (same : earlier.length = later.length) :
    e = other ∧ earlier = later := by
  have lengths : (e :: earlier).length = (other :: later).length := by
    rw [List.length_cons, List.length_cons, same]
  have shorter := List.suffix_of_suffix_length_le h h' (Nat.le_of_eq lengths)
  exact List.cons.inj (shorter.eq_of_length lengths)

end Journal

namespace Run

variable {β : Type}

/-- A handler is entered right after the host has been asked at `p`. -/
def EnteredAt (journal : List Event) (p : Run β) (kind : Interrupt) : Prop :=
  ∃ answer v w, .entered kind v w :: .polled answer :: p.journal <:+ journal

/-- Whether a handler is entered can be told from the event that comes next. -/
theorem enteredAt_iff {journal : List Event} {p : Run β} {e : Event} {answer : Answer}
    (next : e :: .polled answer :: p.journal <:+ journal) (kind : Interrupt) :
    EnteredAt journal p kind ↔ e.entered? = some kind := by
  constructor
  · rintro ⟨answer', v, w, entered⟩
    obtain ⟨rfl, -⟩ := Journal.eq_of_suffix_cons next entered rfl
    rfl
  · intro entered
    cases e with
    | entered kind' v w =>
      obtain rfl : kind' = kind := Option.some.inj entered
      exact ⟨answer, v, w, next⟩
    | executed | dropped | polled | stopped | reset => nomatch entered

variable [Bus β]

/-! ### Drops -/

section

variable {w : Word} {earlier : List Event}

theorem dropped_turn {r : Run β} (h : .dropped w :: earlier <:+ r.turn.journal) :
    .dropped w :: earlier <:+ r.journal := by
  rw [turn_eq, journal_execute] at h
  have woken := Journal.suffix_of_suffix_cons h nofun
  unfold wake at woken
  split at woken
  · exact Journal.suffix_of_suffix_cons woken nofun
  · exact woken

theorem dropped_untilPoll {r : Run β} (h : .dropped w :: earlier <:+ r.untilPoll.journal) :
    .dropped w :: earlier <:+ r.journal := by
  revert h
  apply untilPoll_induction
    (P := fun q : Run β => .dropped w :: earlier <:+ q.journal → .dropped w :: earlier <:+ r.journal)
  · exact dropped_turn
  · exact fun q _ before h => before (dropped_turn h)

theorem dropped_resume {note : Answer → β → β} {r : Run β} {answer : Answer}
    (h : .dropped w :: earlier <:+ (r.resume note answer).journal) :
    .dropped w :: earlier <:+ r.journal ∨
    (earlier = .polled answer :: r.journal ∧ r.machine.regs.p.interruptDisable = true) := by
  have asked : .dropped w :: earlier <:+ (r.refresh note answer).journal →
      .dropped w :: earlier <:+ r.journal := fun h => Journal.suffix_of_suffix_cons h nofun
  revert h
  rw [resume_eq]
  apply serve_cases (P := fun q : Run β => .dropped w :: earlier <:+ q.journal →
    .dropped w :: earlier <:+ r.journal ∨
    (earlier = .polled answer :: r.journal ∧ r.machine.regs.p.interruptDisable = true))
  · exact fun h => Or.inl (asked h)
  · exact fun h => Or.inl (asked (Journal.suffix_of_suffix_cons h nofun))
  · exact fun _ h => Or.inl (asked (Journal.suffix_of_suffix_cons h nofun))
  · intro masked h
    rcases List.suffix_cons_iff.mp h with same | before
    · exact Or.inr ⟨(List.cons.inj same).2, masked⟩
    · exact Or.inl (asked before)

/-- Whenever a run drops an IRQ, the host has just been asked and I is set. -/
theorem masked_of_dropped (note : Answer → β → β) (answers : List Answer) :
    ∀ r : Run β, .dropped w :: earlier <:+ (r.follow note answers).1.journal →
      .dropped w :: earlier <:+ r.journal ∨
      ∃ p ∈ r.asked note answers, ∃ answer,
        earlier = .polled answer :: p.journal ∧ p.machine.regs.p.interruptDisable = true := by
  apply course_induction note
    (P := fun answers r => .dropped w :: earlier <:+ (r.follow note answers).1.journal →
      .dropped w :: earlier <:+ r.journal ∨
      ∃ p ∈ r.asked note answers, ∃ answer,
        earlier = .polled answer :: p.journal ∧ p.machine.regs.p.interruptDisable = true)
  · intro answers r stops h
    rw [follow_of_stop note stops] at h
    have asked := Journal.suffix_of_suffix_cons (Journal.suffix_of_suffix_cons h nofun) nofun
    exact Or.inl (dropped_untilPoll asked)
  · intro answer rest r goes ih h
    rw [follow_cons note goes] at h
    rw [asked_cons note goes]
    rcases ih h with resumed | ⟨p, member, found⟩
    · rcases dropped_resume resumed with before | found
      · exact Or.inl (dropped_untilPoll before)
      · exact Or.inr ⟨r.untilPoll, List.mem_cons_self, answer, found⟩
    · exact Or.inr ⟨p, List.mem_cons_of_mem _ member, found⟩

end

/-! ### The first question -/

/-- What comes next when the host has been asked first and an IRQ waits, with I clear. -/
theorem next_at_first_question (note : Answer → β → β) (answers : List Answer) {r : Run β}
    (waits : r.machine.phase = .pending .irq)
    (clear : r.untilPoll.machine.regs.p.interruptDisable = false) :
    ∃ e, e :: .polled (answers.headD .stop) :: r.untilPoll.journal <:+ (r.follow note answers).1.journal ∧
      e.entered? = (answers.headD .stop).entered? true false := by
  by_cases stops : answers.headD .stop = .stop
  · rw [follow_of_stop note stops, stops]
    exact ⟨.stopped r.untilPoll.machine.regs.pc r.untilPoll.cycles, List.suffix_refl _, rfl⟩
  · cases answers with
    | nil => exact absurd rfl stops
    | cons answer rest =>
      have goes : answer ≠ .stop := stops
      have calm : r.machine.phase ≠ .pending .nmi := by
        rw [waits]
        decide
      have still := (r.journal_untilPoll calm).2
      obtain ⟨-, reaction, journal, reacts⟩ := r.untilPoll.journal_resume note goes (still ▸ calm)
      have irq : (r.untilPoll.machine.phase.request? == some .irq) = true := by
        rw [still, waits]
        rfl
      rw [irq, clear] at reacts
      have later := suffix_follow note rest (r.untilPoll.resume note answer)
      rw [journal] at later
      rw [follow_cons note goes]
      cases answer with
      | stop => exact absurd rfl goes
      | proceed | irq | nmi =>
        obtain ⟨v, w, rfl⟩ := reacts
        exact ⟨.entered _ v w, later, rfl⟩

end Run

/-- **An IRQ that waits while I is clear is served unless the host stops the run.** An IRQ waits when
the run begins, and I is clear when the host is asked first. Then its handler, or in its place that of
an NMI, is entered right there, or it still waits when the run is over, exactly if the answer is not to
stop: with that answer nothing more is told than that the run stopped, and nothing waits. Whenever an
IRQ is dropped in the run, I is set. -/
theorem Machine.waiting_irq_served_iff {β : Type} [Bus β] (note : Answer → β → β) (m : Machine β)
    (answers : List Answer) (waits : m.phase.request? = some .irq) :
    let run := (m.runNoting note answers).1
    let first := (Run.begin m).untilPoll
    let answer := answers.headD .stop
    (.polled answer :: first.journal <:+ run.journal ∧ Journal.answers first.journal = []) ∧
    (first.machine.regs.p.interruptDisable = false →
      ((Run.EnteredAt run.journal first .irq ∨ Run.EnteredAt run.journal first .nmi ∨
        run.machine.phase.request? = some .irq) ↔ answer ≠ .stop) ∧
      (Run.EnteredAt run.journal first .irq ↔ answer = .proceed ∨ answer = .irq) ∧
      (Run.EnteredAt run.journal first .nmi ↔ answer = .nmi)) ∧
    (answer = .stop →
      run.journal = .stopped first.machine.regs.pc first.cycles :: .polled .stop :: first.journal ∧
      run.machine.phase = .halted) ∧
    ∀ w earlier, .dropped w :: earlier <:+ run.journal →
      ∃ p ∈ (Run.begin m).asked note answers, ∃ answer,
        earlier = .polled answer :: p.journal ∧ p.machine.regs.p.interruptDisable = true := by
  intro run first answer
  have pending : (Run.begin m).machine.phase = .pending .irq := by
    rw [← Phase.request?_eq_some_iff, Run.request?_begin, waits]
  have halted : run.machine.phase = .halted := Run.phase_follow note answers (Run.begin m)
  refine ⟨⟨?_, (Run.begin m).answers_untilPoll⟩, fun clear => ?_, fun stops => ?_, fun w earlier h => ?_⟩
  · have member := Run.first_asked note answers (Run.begin m)
    have head : answers.getD 0 .stop = answer := by cases answers <;> rfl
    rw [← head]
    exact (Run.journal_asked note answers _ 0 first member).2.2
  · obtain ⟨e, next, entered⟩ : ∃ e, e :: .polled answer :: first.journal <:+ run.journal ∧
        e.entered? = answer.entered? true false :=
      Run.next_at_first_question note answers pending clear
    rw [Run.enteredAt_iff next, Run.enteredAt_iff next, entered, halted]
    cases answer <;> decide
  · show ((Run.begin m).follow note answers).1.journal = _ ∧ ((Run.begin m).follow note answers).1.machine.phase = _
    rw [Run.follow_of_stop note stops]
    exact ⟨rfl, rfl⟩
  · rcases Run.masked_of_dropped note answers (Run.begin m) h with before | found
    · nomatch List.suffix_nil.mp before
    · exact found

/-- The host answers the first question with an NMI, and that is served in place of the IRQ. -/
theorem Machine.waiting_irq_served_by_nmi :
    let m : Machine Rom :=
      { settings := ⟨⟨1000000⟩, 2⟩, accepted := by decide
        regs := { Registers.powerOn with p := Status.loaded 0 }
        bus := .uniform 0xEA, phase := .pending .irq, budget := 2 }
    let run := (m.runNoting (fun _ bus => bus) [.nmi]).1
    let first := (Run.begin m).untilPoll
    m.phase.request? = some .irq ∧ first.machine.regs.p.interruptDisable = false ∧
    Run.EnteredAt run.journal first .nmi ∧ ¬ Run.EnteredAt run.journal first .irq := by
  intro m run first
  have waits : m.phase.request? = some .irq := rfl
  have clear : first.machine.regs.p.interruptDisable = false := by decide +kernel
  obtain ⟨-, irq, nmi⟩ := (waiting_irq_served_iff (fun _ bus => bus) m [.nmi] waits).2.1 clear
  refine ⟨waits, clear, nmi.mpr rfl, fun entered => ?_⟩
  rcases irq.mp entered with other | other
  · nomatch other
  · nomatch other

/-- The host answers the first question with stop, and the IRQ is lost although I is clear: it is not
served, it does not wait any longer, no drop is told, and the next run, too, enters no handler. -/
theorem Machine.waiting_irq_lost_at_stop :
    let m : Machine Rom :=
      { settings := ⟨⟨1000000⟩, 2⟩, accepted := by decide
        regs := { Registers.powerOn with p := Status.loaded 0 }
        bus := .uniform 0xEA, phase := .pending .irq, budget := 2 }
    let run := (m.runNoting (fun _ bus => bus) [.stop]).1
    let first := (Run.begin m).untilPoll
    let next := (run.machine.runNoting (fun _ bus => bus) [.proceed, .stop]).1
    m.phase.request? = some .irq ∧ first.machine.regs.p.interruptDisable = false ∧
    ¬ (Run.EnteredAt run.journal first .irq ∨ Run.EnteredAt run.journal first .nmi ∨
      run.machine.phase.request? = some .irq) ∧
    (run.journal.countP fun e => e matches .dropped _) = 0 ∧
    Journal.entries next.journal = [] := by
  intro m run first next
  have clear : first.machine.regs.p.interruptDisable = false := by decide +kernel
  obtain ⟨e, asked, entered⟩ : ∃ e, e :: .polled .stop :: first.journal <:+ run.journal ∧
      e.entered? = none :=
    Run.next_at_first_question (fun _ bus => bus) [.stop] rfl clear
  have notEntered : ∀ kind, ¬ Run.EnteredAt run.journal first kind := by
    intro kind h
    rw [Run.enteredAt_iff asked, entered] at h
    nomatch h
  have halted : run.machine.phase = .halted := rfl
  refine ⟨rfl, clear, ?_, by decide +kernel, by decide +kernel⟩
  rintro (irq | nmi | waits)
  · exact notEntered .irq irq
  · exact notEntered .nmi nmi
  · rw [halted] at waits
    nomatch waits

end Nmos6502
