/-
# The course of a run

A run goes from turn to turn until its budget is spent, and from question to
question until the host says stop. What holds of every run is proved along that
course: a property of the run at the head of a turn, one of the run when the
host is asked, and the two steps that lead from one to the other
(`Run.Invariant`).

`Run.asked` lists the run as it stands each time the host is asked. The last of
these is the run that is stopped (`Run.follow_eq_close`), and each has the
journal of the run up to that question (`Run.journal_asked`).

Key definitions: `Run.wake`, `Run.resume`, `Run.close`, `Run.asked`,
`Run.unasked`, `Run.Invariant`.
Key theorems: `Run.course_induction`, `Run.untilPoll_induction`,
`Run.serve_cases`, `Run.serve_induction`, `Run.follow_eq_close`, `Run.journal_asked`,
`Run.Invariant.asked`, `Run.Invariant.follow`.
-/
import Nmos6502.Proofs.Account
import Nmos6502.Run

namespace Nmos6502
namespace Run

variable {β : Type}

/-! ### A run that begins -/

theorem settings_begin (m : Machine β) : (begin m).machine.settings = m.settings := by
  unfold begin
  split
  · rfl
  · rfl

theorem regs_begin (m : Machine β) : (begin m).machine.regs = m.regs := by
  unfold begin
  split
  · rfl
  · rfl

theorem bus_begin (m : Machine β) : (begin m).machine.bus = m.bus := by
  unfold begin
  split
  · rfl
  · rfl

theorem budget_begin (m : Machine β) : (begin m).machine.budget = m.budget := by
  unfold begin
  split
  · rfl
  · rfl

theorem request?_begin (m : Machine β) : (begin m).machine.phase.request? = m.phase.request? := by
  unfold begin
  split
  · next halted =>
    rw [eq_of_beq halted]
    rfl
  · rfl

/-! ### The steps of a run, field by field -/

section

variable [Bus β] (r : Run β)

@[simp] theorem machine_execute :
    r.execute.machine = r.machine.step.2.spend r.machine.step.1.cycles := rfl

@[simp] theorem cycles_execute :
    r.execute.cycles.count = r.cycles.count + r.machine.step.1.cycles := rfl

@[simp] theorem journal_execute : r.execute.journal = .executed r.machine.step.1 :: r.journal := rfl

@[simp] theorem machine_enter (kind : Interrupt) :
    (r.enter kind).machine = (r.machine.enter kind).spend interruptCycles := rfl

@[simp] theorem cycles_enter (kind : Interrupt) :
    (r.enter kind).cycles.count = r.cycles.count + interruptCycles := rfl

@[simp] theorem journal_enter (kind : Interrupt) :
    (r.enter kind).journal =
      .entered kind r.machine.regs.pc (r.machine.enter kind).regs.pc :: r.journal := rfl

/-- Serve an NMI that waits. -/
def wake : Run β :=
  if r.machine.phase = .pending .nmi then r.settle.enter .nmi else r

/-- A turn serves an NMI that waits and executes an instruction. -/
theorem turn_eq : r.turn = r.wake.execute := by
  unfold turn wake
  split
  · rfl
  · rfl

theorem wake_of_phase (h : r.machine.phase ≠ .pending .nmi) : r.wake = r :=
  if_neg h

theorem phase_wake : r.wake.machine.phase ≠ .pending .nmi := by
  unfold wake
  split
  · show Phase.running ≠ _
    decide
  · next other => exact other

theorem phase_turn : r.turn.machine.phase = r.wake.machine.phase := by
  rw [turn_eq]
  rfl

/-! ### From question to question -/

/-- Hear an answer that does not stop the run, and go on. -/
def resume (note : Answer → β → β) (answer : Answer) : Run β :=
  (r.hear note answer).goOn answer

/-- Hear the answer to stop, and stop. -/
def close (note : Answer → β → β) : Run β :=
  (r.hear note .stop).stop

/-- A run that has heard an answer, with a new period and no request waiting. -/
def refresh (note : Answer → β → β) (answer : Answer) : Run β :=
  { r.hear note answer with machine := (r.hear note answer).machine.replenish }.settle

theorem resume_eq (note : Answer → β → β) (answer : Answer) :
    r.resume note answer =
      (r.refresh note answer).serve
        (Interrupt.stronger r.machine.phase.request? answer.interrupt?) := rfl

end

variable [Bus β]

/-- The run as it stands each time the host is asked. -/
def asked (note : Answer → β → β) : List Answer → Run β → List (Run β)
  | [], r => [r.untilPoll]
  | .stop :: _, r => [r.untilPoll]
  | answer :: rest, r => r.untilPoll :: asked note rest (r.untilPoll.resume note answer)

variable (note : Answer → β → β)

theorem asked_cons {answer : Answer} (goes : answer ≠ .stop) (rest : List Answer) (r : Run β) :
    asked note (answer :: rest) r = r.untilPoll :: asked note rest (r.untilPoll.resume note answer) := by
  cases answer with
  | stop => exact absurd rfl goes
  | proceed | irq | nmi => rfl

theorem follow_cons {answer : Answer} (goes : answer ≠ .stop) (rest : List Answer) (r : Run β) :
    follow note (answer :: rest) r = follow note rest (r.untilPoll.resume note answer) := by
  cases answer with
  | stop => exact absurd rfl goes
  | proceed | irq | nmi => rfl

theorem asked_of_stop {answers : List Answer} (h : answers.headD .stop = .stop) (r : Run β) :
    asked note answers r = [r.untilPoll] := by
  cases answers with
  | nil => rfl
  | cons answer rest =>
    obtain rfl : answer = .stop := h
    rfl

theorem follow_of_stop {answers : List Answer} (h : answers.headD .stop = .stop) (r : Run β) :
    (follow note answers r).1 = r.untilPoll.close note := by
  cases answers with
  | nil => rfl
  | cons answer rest =>
    obtain rfl : answer = .stop := h
    rfl

theorem first_asked : ∀ (answers : List Answer) (r : Run β),
    (asked note answers r)[0]? = some r.untilPoll
  | [], _ => rfl
  | .stop :: _, _ => rfl
  | .proceed :: _, _ => rfl
  | .irq :: _, _ => rfl
  | .nmi :: _, _ => rfl

/-- The answers that are left when the run has been told to stop. -/
def unasked : List Answer → List Answer
  | [] => []
  | .stop :: rest => rest
  | _ :: rest => unasked rest

theorem rest_follow : ∀ (answers : List Answer) (r : Run β), (follow note answers r).2 = unasked answers
  | [], _ => rfl
  | .stop :: _, _ => rfl
  | .proceed :: rest, _ => rest_follow rest _
  | .irq :: rest, _ => rest_follow rest _
  | .nmi :: rest, _ => rest_follow rest _

/-- They are the last of the answers there were. -/
theorem unasked_suffix (answers : List Answer) : unasked answers <:+ answers := by
  induction answers with
  | nil => exact List.suffix_refl []
  | cons answer rest ih =>
    cases answer with
    | stop => exact List.suffix_cons Answer.stop rest
    | proceed | irq | nmi => exact List.IsSuffix.trans ih (List.suffix_cons _ rest)

/-- Induction along the questions: at the next one the run stops, or it goes on with the others. -/
theorem course_induction {P : List Answer → Run β → Prop}
    (stops : ∀ (answers : List Answer) (r : Run β), answers.headD .stop = .stop → P answers r)
    (goes : ∀ (answer : Answer) (rest : List Answer) (r : Run β), answer ≠ .stop →
      P rest (r.untilPoll.resume note answer) → P (answer :: rest) r)
    (answers : List Answer) : ∀ r : Run β, P answers r := by
  induction answers with
  | nil => exact fun r => stops [] r rfl
  | cons answer rest ih =>
    intro r
    by_cases h : answer = .stop
    · exact stops _ r h
    · exact goes answer rest r h (ih _)

/-! ### What a run carries along -/

/-- What holds after the first turn and is kept by every turn taken with budget left holds when the
budget is spent. -/
theorem untilPoll_induction {P : Run β → Prop} (r : Run β) (first : P r.turn)
    (next : ∀ q : Run β, 0 < q.machine.budget → P q → P q.turn) : P r.untilPoll := by
  fun_induction untilPoll r with
  | case1 r turned left ih => exact ih (next _ left first)
  | case2 r turned spent => exact first

/-- What becomes of a request at a question: an NMI is served, an IRQ is served if I is clear and
dropped if it is set. -/
theorem serve_cases {P : Run β → Prop} (request : Option Interrupt) (r : Run β) (none : P r)
    (nmi : P (r.enter .nmi)) (irq : r.machine.regs.p.interruptDisable = false → P (r.enter .irq))
    (dropped : r.machine.regs.p.interruptDisable = true → P r.drop) : P (r.serve request) := by
  unfold serve
  split
  · exact none
  · exact nmi
  · by_cases masked : r.machine.regs.p.interruptDisable = true
    · rw [if_pos masked]
      exact dropped masked
    · rw [if_neg masked]
      exact irq (Bool.eq_false_iff.mpr masked)

theorem serve_induction {P : Run β → Prop} (request : Option Interrupt) (r : Run β) (none : P r)
    (entered : ∀ kind, P (r.enter kind)) (dropped : P r.drop) : P (r.serve request) :=
  serve_cases request r none (entered .nmi) (fun _ => entered .irq) fun _ => dropped

/-- What a run carries along: `Ready` at the head of a turn, `Due` when the host is asked. -/
structure Invariant (note : Answer → β → β) (Ready Due : Run β → Prop) : Prop where
  turn : ∀ r : Run β, Ready r →
    (0 < r.turn.machine.budget → Ready r.turn) ∧ (r.turn.machine.budget ≤ 0 → Due r.turn)
  resume : ∀ (r : Run β) (answer : Answer), answer ≠ .stop → Due r → Ready (r.resume note answer)

namespace Invariant

variable {note : Answer → β → β} {Ready Due : Run β → Prop}

/-- What every turn and every answer keep, whatever the budget. -/
theorem of_kept {P : Run β → Prop} (turn : ∀ r : Run β, P r → P r.turn)
    (resume : ∀ (r : Run β) (answer : Answer), answer ≠ .stop → P r → P (r.resume note answer)) :
    Invariant note P P where
  turn r h := ⟨fun _ => turn r h, fun _ => turn r h⟩
  resume := resume

theorem untilPoll (inv : Invariant note Ready Due) {r : Run β} (h : Ready r) : Due r.untilPoll := by
  fun_induction Run.untilPoll r with
  | case1 r turned left ih => exact ih ((inv.turn r h).1 left)
  | case2 r turned spent => exact (inv.turn r h).2 (Int.not_lt.mp spent)

/-- Whenever the host is asked, the run is as it is due. -/
theorem asked (inv : Invariant note Ready Due) (answers : List Answer) {r : Run β} (h : Ready r) :
    ∀ p ∈ r.asked note answers, Due p := by
  revert h
  apply course_induction note (P := fun answers r => Ready r → ∀ p ∈ r.asked note answers, Due p)
  · intro answers r stops ready p hp
    rw [asked_of_stop note stops, List.mem_singleton] at hp
    rw [hp]
    exact inv.untilPoll ready
  · intro answer rest r goes ih ready p hp
    rw [asked_cons note goes, List.mem_cons] at hp
    rcases hp with rfl | hp
    · exact inv.untilPoll ready
    · exact ih (inv.resume _ answer goes (inv.untilPoll ready)) p hp

end Invariant

/-- A run ends by stopping as it stands when the host was asked last. -/
theorem follow_eq_close (answers : List Answer) (r : Run β) :
    ∃ p, (r.asked note answers).getLast? = some p ∧ (r.follow note answers).1 = p.close note := by
  apply course_induction note
    (P := fun answers r => ∃ p, (r.asked note answers).getLast? = some p ∧
      (r.follow note answers).1 = p.close note)
  · intro answers r stops
    rw [asked_of_stop note stops, follow_of_stop note stops]
    exact ⟨r.untilPoll, rfl, rfl⟩
  · intro answer rest r goes ih
    obtain ⟨p, last, eq⟩ := ih
    rw [asked_cons note goes, follow_cons note goes, List.getLast?_cons, last]
    exact ⟨p, rfl, eq⟩

theorem phase_follow (answers : List Answer) (r : Run β) :
    (r.follow note answers).1.machine.phase = .halted := by
  obtain ⟨p, -, eq⟩ := follow_eq_close note answers r
  rw [eq]
  rfl

theorem Invariant.follow {note : Answer → β → β} {Ready Due : Run β → Prop}
    (inv : Invariant note Ready Due) (answers : List Answer) {r : Run β} (h : Ready r) :
    ∃ p, Due p ∧ (r.follow note answers).1 = p.close note := by
  obtain ⟨p, last, eq⟩ := follow_eq_close note answers r
  exact ⟨p, inv.asked answers h p (List.mem_of_getLast? last), eq⟩

/-! ### What no run changes -/

theorem settings_turn (r : Run β) : r.turn.machine.settings = r.machine.settings := by
  rw [turn_eq]
  unfold wake
  split
  · rfl
  · rfl

theorem settings_resume (r : Run β) (answer : Answer) :
    (r.resume note answer).machine.settings = r.machine.settings := by
  rw [resume_eq]
  apply serve_induction (P := fun q : Run β => q.machine.settings = r.machine.settings)
  · rfl
  · exact fun _ => rfl
  · rfl

theorem settings_follow (answers : List Answer) (r : Run β) :
    (r.follow note answers).1.machine.settings = r.machine.settings := by
  have inv : Invariant note (fun q : Run β => q.machine.settings = r.machine.settings)
      (fun q : Run β => q.machine.settings = r.machine.settings) :=
    .of_kept (fun q h => (settings_turn q).trans h) fun q answer _ h => (settings_resume note q answer).trans h
  obtain ⟨p, same, eq⟩ := inv.follow answers rfl
  rw [eq]
  exact same

/-! ### The journal -/

theorem answers_turn (r : Run β) : Journal.answers r.turn.journal = Journal.answers r.journal := by
  rw [turn_eq]
  unfold wake
  split
  · rfl
  · rfl

theorem answers_untilPoll (r : Run β) :
    Journal.answers r.untilPoll.journal = Journal.answers r.journal := by
  apply untilPoll_induction (P := fun q : Run β => Journal.answers q.journal = Journal.answers r.journal)
  · exact r.answers_turn
  · exact fun q _ same => q.answers_turn.trans same

theorem answers_resume (r : Run β) (answer : Answer) :
    Journal.answers (r.resume note answer).journal = answer :: Journal.answers r.journal := by
  rw [resume_eq]
  apply serve_induction
    (P := fun q : Run β => Journal.answers q.journal = answer :: Journal.answers r.journal)
  · rfl
  · exact fun _ => rfl
  · rfl

/-- What was in the journal stays in it. -/
theorem suffix_turn (r : Run β) : r.journal <:+ r.turn.journal := by
  rw [turn_eq]
  unfold wake
  split
  · exact (List.suffix_cons _ r.journal).trans (List.suffix_cons _ _)
  · exact List.suffix_cons _ r.journal

theorem suffix_resume (r : Run β) (answer : Answer) :
    .polled answer :: r.journal <:+ (r.resume note answer).journal := by
  rw [resume_eq]
  apply serve_induction (P := fun q : Run β => .polled answer :: r.journal <:+ q.journal)
  · exact List.suffix_refl _
  · exact fun _ => List.suffix_cons _ _
  · exact List.suffix_cons _ _

theorem suffix_follow (answers : List Answer) (r : Run β) :
    r.journal <:+ (r.follow note answers).1.journal := by
  have inv : Invariant note (fun q : Run β => r.journal <:+ q.journal)
      (fun q : Run β => r.journal <:+ q.journal) :=
    .of_kept (fun q h => h.trans q.suffix_turn) fun q answer _ h =>
      h.trans ((List.suffix_cons _ q.journal).trans (suffix_resume note q answer))
  obtain ⟨p, earlier, eq⟩ := inv.follow answers (List.suffix_refl _)
  rw [eq]
  exact earlier.trans ((List.suffix_cons _ p.journal).trans (List.suffix_cons _ _))

/-- The run that is asked the `k`-th question has the journal of the run up to there: `k` answers,
and the next is the `k`-th. -/
theorem journal_asked (answers : List Answer) (r : Run β) :
    ∀ (k : Nat) (p : Run β), (r.asked note answers)[k]? = some p →
      (Journal.answers p.journal).length = (Journal.answers r.journal).length + k ∧
      Journal.refills p.journal = Journal.refills r.journal + k ∧
      .polled (answers.getD k .stop) :: p.journal <:+ (r.follow note answers).1.journal := by
  apply course_induction note
    (P := fun answers r => ∀ (k : Nat) (p : Run β), (r.asked note answers)[k]? = some p →
      (Journal.answers p.journal).length = (Journal.answers r.journal).length + k ∧
      Journal.refills p.journal = Journal.refills r.journal + k ∧
      .polled (answers.getD k .stop) :: p.journal <:+ (r.follow note answers).1.journal)
  -- The question at the end of this stretch is number 0; the others are asked of the run that goes on.
  · intro answers r stops k p asked
    rw [asked_of_stop note stops] at asked
    cases k with
    | succ k => nomatch asked
    | zero =>
      obtain rfl := Option.some.inj asked
      have answer : answers.getD 0 .stop = .stop := by
        rw [← stops]
        cases answers <;> rfl
      unfold Journal.refills
      rw [answers_untilPoll, follow_of_stop note stops, answer]
      exact ⟨rfl, rfl, List.suffix_cons _ _⟩
  · intro answer rest r goes ih k p asked
    rw [asked_cons note goes] at asked
    rw [follow_cons note goes]
    cases k with
    | zero =>
      obtain rfl := Option.some.inj asked
      unfold Journal.refills
      rw [answers_untilPoll]
      exact ⟨rfl, rfl, (suffix_resume note _ answer).trans (suffix_follow note rest _)⟩
    | succ k =>
      obtain ⟨count, refills, suffix⟩ := ih k p asked
      have one : Journal.refills (r.untilPoll.resume note answer).journal =
          Journal.refills r.journal + 1 := by
        unfold Journal.refills
        rw [answers_resume, answers_untilPoll, List.countP_cons_of_pos (by simp [goes])]
      rw [answers_resume, answers_untilPoll, List.length_cons] at count
      rw [one] at refills
      exact ⟨by omega, by omega, suffix⟩

/-- The host is asked as often as the journal says. -/
theorem length_asked (answers : List Answer) (r : Run β) :
    (Journal.answers (r.follow note answers).1.journal).length =
      (Journal.answers r.journal).length + (r.asked note answers).length := by
  apply course_induction note
    (P := fun answers r => (Journal.answers (r.follow note answers).1.journal).length =
      (Journal.answers r.journal).length + (r.asked note answers).length)
  · intro answers r stops
    rw [asked_of_stop note stops, follow_of_stop note stops]
    show (.stop :: Journal.answers r.untilPoll.journal).length = _
    rw [answers_untilPoll, List.length_cons, List.length_singleton]
  · intro answer rest r goes ih
    rw [asked_cons note goes, follow_cons note goes, ih, answers_resume, answers_untilPoll,
      List.length_cons, List.length_cons]
    omega

end Run
end Nmos6502
