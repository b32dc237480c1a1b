/-
# What becomes of a request

Requests are put down while the machine does not run. Of all that wait only
the strongest is left when it runs again, and it is served once: an NMI before
the first instruction, an IRQ at the first question, unless I is set there or
the host asks for an NMI. After that the host's answers alone decide
(`Answer.entered?`). So the handlers a run enters, and where, can be told from
what was put down, what the host answers and the I flag at each question
(`Machine.entries_of_requests`).
-/
import Nmos6502.Proofs.Course

namespace Nmos6502

/-! ### What is to be entered -/

/-- The handler to be entered at a question. An NMI is always served. An IRQ that the host raises, or
that waits, is served if I is clear. -/
def Answer.entered? (waiting masked : Bool) : Answer → Option Interrupt
  | .stop => none
  | .nmi => some .nmi
  | .irq => if masked then none else some .irq
  | .proceed => if waiting && !masked then some .irq else none

/-- The handler to be entered for the request that remains at a question. -/
def Interrupt.served? (masked : Bool) : Option Interrupt → Option Interrupt
  | some .irq => if masked then none else some .irq
  | some .nmi => some .nmi
  | none => none

theorem Answer.entered?_eq (answer : Answer) {waiting : Option Interrupt} {masked : Bool}
    (goes : answer ≠ .stop) (calm : waiting ≠ some .nmi) :
    answer.entered? (waiting == some .irq) masked =
      Interrupt.served? masked (Interrupt.stronger waiting answer.interrupt?) := by
  cases answer with
  | stop => exact absurd rfl goes
  | nmi => rcases waiting with _ | _ | _ <;> rfl
  | irq =>
    rcases waiting with _ | _ | _
    · rfl
    · rfl
    · exact absurd rfl calm
  | proceed =>
    rcases waiting with _ | _ | _
    · rfl
    · cases masked <;> rfl
    · exact absurd rfl calm

/-- The handlers to be entered at one question after the other, by the answers and the I flags there.
A request that waits is looked at once. A host with no answer left says stop. -/
def entriesDue : Bool → List Answer → List Bool → List (List Interrupt)
  | _, _, [] => []
  | waiting, answers, masked :: masks =>
    ((answers.headD .stop).entered? waiting masked).toList :: entriesDue false answers.tail masks

namespace Journal

/-- The handlers entered, in order of time: those before the first question, those between the first
and the second, and so on. -/
def entriesByPoll : List Event → List (List Interrupt)
  | [] => [[]]
  | .polled _ :: later => [] :: entriesByPoll later
  | .entered kind _ _ :: later => (entriesByPoll later).modifyHead (kind :: ·)
  | _ :: later => entriesByPoll later

/-- Every entry is the first event or comes directly after a question. The journal is told newest
first. -/
def EntriesPrompt : List Event → Prop
  | [] => True
  | .entered _ _ _ :: earlier =>
    (earlier = [] ∨ ∃ answer before, earlier = .polled answer :: before) ∧ EntriesPrompt earlier
  | _ :: earlier => EntriesPrompt earlier

theorem entriesByPoll_executed (later : List Event) : ∀ whats : List Executed,
    entriesByPoll (whats.map .executed ++ later) = entriesByPoll later
  | [] => rfl
  | _ :: whats => entriesByPoll_executed later whats

theorem entriesByPoll_eq_cons (events : List Event) :
    ∃ first rest, entriesByPoll events = first :: rest := by
  induction events with
  | nil => exact ⟨[], [], rfl⟩
  | cons e later ih =>
    obtain ⟨first, rest, eq⟩ := ih
    cases e with
    | polled answer => exact ⟨[], _, rfl⟩
    | entered kind v w =>
      refine ⟨kind :: first, rest, ?_⟩
      rw [entriesByPoll, eq, List.modifyHead_cons]
    | executed | dropped | stopped | reset => exact ⟨first, rest, eq⟩

theorem flatten_entriesByPoll (events : List Event) : (entriesByPoll events).flatten = entries events := by
  induction events with
  | nil => rfl
  | cons e later ih =>
    rw [entries_cons, ← ih]
    cases e with
    | polled answer => exact List.flatten_cons
    | entered kind v w =>
      obtain ⟨first, rest, eq⟩ := entriesByPoll_eq_cons later
      rw [entriesByPoll, eq, List.modifyHead_cons]
      rfl
    | executed | dropped | stopped | reset => rfl

end Journal

/-! ### What waits when a run begins -/

namespace Machine

variable {β : Type}

theorem request?_request (m : Machine β) (kind : Interrupt) :
    (m.request kind).phase.request? = Interrupt.stronger m.phase.request? (some kind) := by
  unfold request
  cases h : Interrupt.stronger m.phase.request? (some kind) with
  | some winner => rfl
  | none => exact absurd ((Interrupt.stronger_eq_none_iff _ _).mp h).2 nofun

theorem foldl_request_eq (kinds : List Interrupt) : ∀ m : Machine β,
    ∃ phase, kinds.foldl request m = { m with phase := phase } := by
  induction kinds with
  | nil => exact fun m => ⟨m.phase, rfl⟩
  | cons kind rest ih =>
    intro m
    obtain ⟨waiting, first⟩ := m.request_eq kind
    obtain ⟨phase, others⟩ := ih (m.request kind)
    refine ⟨phase, ?_⟩
    rw [List.foldl_cons, others, first]

/-- Of all requests put down, an NMI waits if there is one, else an IRQ if there is one. -/
theorem request?_foldl (kinds : List Interrupt) : ∀ m : Machine β,
    (kinds.foldl request m).phase.request? =
      if .nmi ∈ m.phase.request?.toList ++ kinds then some .nmi
      else if .irq ∈ m.phase.request?.toList ++ kinds then some .irq
      else none := by
  induction kinds with
  | nil =>
    intro m
    rw [List.foldl_nil, List.append_nil]
    rcases m.phase.request? with _ | _ | _ <;> rfl
  | cons kind rest ih =>
    intro m
    rw [List.foldl_cons, ih, request?_request]
    rcases m.phase.request? with _ | _ | _ <;> cases kind <;>
      simp [Interrupt.stronger]

variable [Bus β]

/-- The handler of an interrupt as an entry finds it: PC and P are pushed, and then the vector is read. -/
def handler (m : Machine β) (kind : Interrupt) : Word :=
  let pushed := Bus.write (Bus.write (Bus.write m.bus (stackPage m.regs.s) m.regs.pc.high)
    (stackPage (m.regs.s - 1)) m.regs.pc.low) (stackPage (m.regs.s - 2)) m.regs.p.pushedByInterrupt
  let low := Bus.read pushed kind.vector
  let high := Bus.read low.2 (kind.vector + 1)
  Word.ofBytes low.1 high.1

theorem pc_enter (m : Machine β) (kind : Interrupt) : (m.enter kind).regs.pc = m.handler kind := by
  have two : m.regs.s - 1 - 1 = m.regs.s - 2 := by bv_omega
  unfold handler
  rw [← two]
  rfl

end Machine

/-! ### Up to a question -/

namespace Run

variable {β : Type} [Bus β]

/-- When no NMI waits, only instructions are executed up to the next question. -/
theorem journal_untilPoll (r : Run β) (calm : r.machine.phase ≠ .pending .nmi) :
    (∃ whats : List Executed, r.untilPoll.journal = whats.map Event.executed ++ r.journal) ∧
    r.untilPoll.machine.phase = r.machine.phase := by
  have step : ∀ q : Run β, q.machine.phase ≠ .pending .nmi →
      q.turn.journal = .executed q.machine.step.1 :: q.journal ∧ q.turn.machine.phase = q.machine.phase := by
    intro q calm
    rw [turn_eq, q.wake_of_phase calm]
    exact ⟨rfl, rfl⟩
  apply untilPoll_induction
    (P := fun q : Run β => (∃ whats : List Executed, q.journal = whats.map Event.executed ++ r.journal) ∧
      q.machine.phase = r.machine.phase)
  · obtain ⟨journal, phase⟩ := step r calm
    exact ⟨⟨[r.machine.step.1], journal⟩, phase⟩
  · rintro q - ⟨⟨whats, earlier⟩, same⟩
    obtain ⟨journal, phase⟩ := step q (same ▸ calm)
    refine ⟨⟨q.machine.step.1 :: whats, ?_⟩, phase.trans same⟩
    rw [journal, earlier]
    rfl

/-- To serve an NMI that waits is part of the first turn. -/
theorem untilPoll_wake (r : Run β) : r.wake.untilPoll = r.untilPoll := by
  have turn : r.wake.turn = r.turn := by
    rw [turn_eq, turn_eq, r.wake.wake_of_phase r.phase_wake]
  rw [r.wake.untilPoll_eq, r.untilPoll_eq, turn]

/-- What is asked of a run, and where it ends, depends on how it stands at the next question only. -/
theorem course_congr (note : Answer → β → β) (answers : List Answer) {r q : Run β}
    (same : r.untilPoll = q.untilPoll) :
    r.asked note answers = q.asked note answers ∧
    (r.follow note answers).1 = (q.follow note answers).1 := by
  by_cases stops : answers.headD .stop = .stop
  · rw [asked_of_stop note stops, asked_of_stop note stops, follow_of_stop note stops,
      follow_of_stop note stops, same]
    exact ⟨rfl, rfl⟩
  · cases answers with
    | nil => exact absurd rfl stops
    | cons answer rest =>
      have goes : answer ≠ .stop := stops
      rw [asked_cons note goes, asked_cons note goes, follow_cons note goes, follow_cons note goes, same]
      exact ⟨rfl, rfl⟩

/-! ### At a question -/

/-- What the journal says when `kind?` is entered: the entry, or nothing but a request dropped. -/
def Reaction (kind? : Option Interrupt) (reaction : List Event) : Prop :=
  match kind? with
  | some kind => ∃ v w, reaction = [.entered kind v w]
  | none => reaction = [] ∨ ∃ w, reaction = [.dropped w]

theorem journal_serve (request : Option Interrupt) (q : Run β) :
    (q.serve request).machine.phase = q.machine.phase ∧
    ∃ reaction, (q.serve request).journal = reaction ++ q.journal ∧
      Reaction (Interrupt.served? q.machine.regs.p.interruptDisable request) reaction := by
  unfold serve
  split
  · exact ⟨rfl, [], rfl, Or.inl rfl⟩
  · exact ⟨rfl, [.entered .nmi _ _], rfl, _, _, rfl⟩
  · split
    · next masked =>
      refine ⟨rfl, [.dropped _], rfl, ?_⟩
      rw [Interrupt.served?, if_pos masked]
      exact Or.inr ⟨_, rfl⟩
    · next clear =>
      refine ⟨rfl, [.entered .irq _ _], rfl, ?_⟩
      rw [Interrupt.served?, if_neg clear]
      exact ⟨_, _, rfl⟩

theorem journal_resume (note : Answer → β → β) (p : Run β) {answer : Answer} (goes : answer ≠ .stop)
    (calm : p.machine.phase ≠ .pending .nmi) :
    (p.resume note answer).machine.phase = .running ∧
    ∃ reaction, (p.resume note answer).journal = reaction ++ .polled answer :: p.journal ∧
      Reaction (answer.entered? (p.machine.phase.request? == some .irq) p.machine.regs.p.interruptDisable)
        reaction := by
  have waits : p.machine.phase.request? ≠ some .nmi := fun h => calm (Phase.request?_eq_some_iff.mp h)
  obtain ⟨phase, reaction, journal, served⟩ :=
    journal_serve (Interrupt.stronger p.machine.phase.request? answer.interrupt?) (p.refresh note answer)
  refine ⟨phase, reaction, journal, ?_⟩
  rw [answer.entered?_eq goes waits]
  exact served

theorem Reaction.entriesByPoll {kind? : Option Interrupt} {reaction : List Event}
    (h : Reaction kind? reaction) {later : List Event} {rest : List (List Interrupt)}
    (eq : Journal.entriesByPoll later = [] :: rest) :
    Journal.entriesByPoll (reaction.reverse ++ later) = kind?.toList :: rest := by
  cases kind? with
  | some kind =>
    obtain ⟨v, w, rfl⟩ := h
    show (Journal.entriesByPoll later).modifyHead (kind :: ·) = _
    rw [eq]
    rfl
  | none =>
    rcases h with rfl | ⟨w, rfl⟩
    · exact eq
    · exact eq

theorem Reaction.entriesPrompt {kind? : Option Interrupt} {reaction : List Event}
    (h : Reaction kind? reaction) {answer : Answer} {earlier : List Event}
    (prompt : Journal.EntriesPrompt earlier) :
    Journal.EntriesPrompt (reaction ++ .polled answer :: earlier) := by
  cases kind? with
  | some kind =>
    obtain ⟨v, w, rfl⟩ := h
    exact ⟨Or.inr ⟨answer, earlier, rfl⟩, prompt⟩
  | none =>
    rcases h with rfl | ⟨w, rfl⟩
    · exact prompt
    · exact prompt

/-! ### The whole run -/

def masks (note : Answer → β → β) (answers : List Answer) (r : Run β) : List Bool :=
  (r.asked note answers).map fun p => p.machine.regs.p.interruptDisable

/-- The handlers a run enters, once no NMI waits. -/
theorem entries_follow (note : Answer → β → β) (answers : List Answer) (r : Run β) :
    r.machine.phase ≠ .pending .nmi →
    ∃ later, (r.follow note answers).1.journal.reverse = r.journal.reverse ++ later ∧
      Journal.entriesByPoll later =
        [] :: entriesDue (r.machine.phase.request? == some .irq) answers (r.masks note answers) := by
  apply course_induction note
    (P := fun answers r => r.machine.phase ≠ .pending .nmi →
      ∃ later, (r.follow note answers).1.journal.reverse = r.journal.reverse ++ later ∧
        Journal.entriesByPoll later =
          [] :: entriesDue (r.machine.phase.request? == some .irq) answers (r.masks note answers))
  · intro answers r stops calm
    obtain ⟨⟨whats, journal⟩, -⟩ := r.journal_untilPoll calm
    refine ⟨whats.reverse.map .executed ++
      [.polled .stop, .stopped r.untilPoll.machine.regs.pc r.untilPoll.cycles], ?_, ?_⟩
    · rw [follow_of_stop note stops]
      show (.stopped _ _ :: .polled .stop :: r.untilPoll.journal).reverse = _
      rw [journal, List.map_reverse]
      simp only [List.reverse_cons, List.reverse_append, List.append_assoc, List.cons_append,
        List.nil_append]
    · rw [Journal.entriesByPoll_executed, masks, asked_of_stop note stops]
      show _ = [] :: ((answers.headD .stop).entered? _ _).toList :: _
      rw [stops]
      rfl
  · intro answer rest r goes ih calm
    obtain ⟨⟨whats, journal⟩, phase⟩ := r.journal_untilPoll calm
    obtain ⟨running, reaction, asked, reacts⟩ :=
      r.untilPoll.journal_resume note goes (phase ▸ calm)
    have calm' : (r.untilPoll.resume note answer).machine.phase ≠ .pending .nmi := by
      rw [running]
      decide
    obtain ⟨later, journal', entries⟩ := ih calm'
    rw [running] at entries
    refine ⟨whats.reverse.map .executed ++ .polled answer :: (reaction.reverse ++ later), ?_, ?_⟩
    · rw [follow_cons note goes, journal', asked, journal, List.map_reverse]
      simp only [List.reverse_cons, List.reverse_append, List.append_assoc, List.cons_append,
        List.nil_append]
    -- what is entered at this question opens the stretch that ends with the next one
    · have due := reacts.entriesByPoll entries
      rw [phase] at due
      have masks_cons : r.masks note (answer :: rest) =
          r.untilPoll.machine.regs.p.interruptDisable ::
            (r.untilPoll.resume note answer).masks note rest := by
        rw [masks, asked_cons note goes]
        rfl
      rw [Journal.entriesByPoll_executed, Journal.entriesByPoll, due, masks_cons]
      rfl

theorem prompt_invariant (note : Answer → β → β) :
    Invariant note
      (fun r : Run β => Journal.EntriesPrompt r.journal ∧ r.machine.phase ≠ .pending .nmi)
      (fun r : Run β => Journal.EntriesPrompt r.journal ∧ r.machine.phase ≠ .pending .nmi) := by
  apply Invariant.of_kept
  · rintro r ⟨prompt, calm⟩
    rw [turn_eq, r.wake_of_phase calm]
    exact ⟨prompt, calm⟩
  · rintro r answer goes ⟨prompt, calm⟩
    obtain ⟨running, reaction, journal, reacts⟩ := r.journal_resume note goes calm
    rw [journal, running]
    exact ⟨reacts.entriesPrompt prompt, by decide⟩

/-- Every entry of a run is made at once: before its first instruction or right after a question. -/
theorem prompt_follow (note : Answer → β → β) (answers : List Answer) {r : Run β}
    (prompt : Journal.EntriesPrompt r.journal) (calm : r.machine.phase ≠ .pending .nmi) :
    Journal.EntriesPrompt (r.follow note answers).1.journal := by
  obtain ⟨p, ⟨before, -⟩, eq⟩ := (prompt_invariant note).follow answers ⟨prompt, calm⟩
  rw [eq]
  exact before

theorem wake_begin_of_nmi {m : Machine β} (nmi : m.phase.request? = some .nmi) :
    (begin m).wake.machine.phase = .running ∧
    (begin m).wake.journal = [.entered .nmi m.regs.pc (m.handler .nmi)] := by
  have waits : (begin m).machine.phase = .pending .nmi := by
    rw [← Phase.request?_eq_some_iff, request?_begin, nmi]
  have same : (begin m).settle.machine.handler .nmi = m.handler .nmi := by
    show (begin m).machine.handler .nmi = _
    unfold Machine.handler
    rw [regs_begin, bus_begin]
  unfold wake
  rw [if_pos waits]
  refine ⟨rfl, ?_⟩
  rw [journal_enter, Machine.pc_enter, same, ← regs_begin m]
  rfl

theorem wake_begin_of_not_nmi {m : Machine β} (calm : m.phase.request? ≠ some .nmi) :
    (begin m).wake = begin m := by
  apply wake_of_phase
  intro waits
  rw [← Phase.request?_eq_some_iff, request?_begin] at waits
  exact calm waits

/-- The handlers a run enters, by the request that waits when it begins. -/
theorem entries_begin (note : Answer → β → β) (answers : List Answer) (m : Machine β) :
    let run := (m.runNoting note answers).1
    let due := entriesDue (m.phase.request? == some .irq) answers ((begin m).masks note answers)
    Journal.EntriesPrompt run.journal ∧
    (m.phase.request? = some .nmi →
      Journal.entriesByPoll run.journal.reverse = [.nmi] :: due ∧
      ∃ later, run.journal.reverse = .entered .nmi m.regs.pc (m.handler .nmi) :: later) ∧
    (m.phase.request? ≠ some .nmi → Journal.entriesByPoll run.journal.reverse = [] :: due) := by
  intro run due
  -- an NMI that waits is served within the first turn, so the run is taken up right after that
  obtain ⟨sameAsked, sameEnd⟩ := course_congr note answers (begin m).untilPoll_wake
  have masks_wake : (begin m).wake.masks note answers = (begin m).masks note answers := by
    rw [masks, sameAsked]
    rfl
  have run_wake : ((begin m).wake.follow note answers).1 = run := by
    rw [sameEnd]
    rfl
  obtain ⟨later, told, entries⟩ := entries_follow note answers (begin m).wake (begin m).phase_wake
  have prompt : Journal.EntriesPrompt (begin m).wake.journal → Journal.EntriesPrompt run.journal := by
    rw [← run_wake]
    exact fun before => prompt_follow note answers before (begin m).phase_wake
  rw [run_wake] at told
  rw [masks_wake] at entries
  by_cases nmi : m.phase.request? = some .nmi
  · obtain ⟨running, woken⟩ := wake_begin_of_nmi nmi
    rw [woken] at prompt told
    rw [running] at entries
    refine ⟨prompt ⟨Or.inl rfl, trivial⟩, fun _ => ⟨?_, later, told⟩, fun calm => absurd nmi calm⟩
    rw [told]
    show (Journal.entriesByPoll later).modifyHead (.nmi :: ·) = [.nmi] :: entriesDue _ _ _
    rw [entries, nmi]
    rfl
  · rw [wake_begin_of_not_nmi nmi] at prompt told entries
    refine ⟨prompt trivial, fun isNmi => absurd isNmi nmi, fun _ => ?_⟩
    rw [request?_begin] at entries
    rw [told]
    exact entries

end Run

/-- **The fate of recorded requests.** Requests are put down in any order on a machine in any state, and it
runs. If an NMI is among those that wait, its handler, the word at the NMI's vector, is entered before the
first instruction and nothing more comes of them. If only IRQs wait, they are looked at when the host is asked
first and never again. The rest is the host's doing: the handlers entered before the first question and at
each question, and their number, follow from the requests, the answers and the I flag at each question, and
every entry is made at once. -/
theorem Machine.entries_of_requests {β : Type} [Bus β] (note : Answer → β → β) (m : Machine β)
    (kinds : List Interrupt) (answers : List Answer) :
    let recorded := m.phase.request?.toList ++ kinds
    let start := kinds.foldl Machine.request m
    let run := (start.runNoting note answers).1
    let asked := (Run.begin start).asked note answers
    let first : List Interrupt := if .nmi ∈ recorded then [.nmi] else []
    let due := entriesDue (decide (.irq ∈ recorded ∧ .nmi ∉ recorded)) answers
      (asked.map fun p => p.machine.regs.p.interruptDisable)
    Journal.entriesByPoll run.journal.reverse = first :: due ∧
    Journal.entries run.journal.reverse = first ++ due.flatten ∧
    Journal.EntriesPrompt run.journal ∧
    (.nmi ∈ recorded →
      (m.enter .nmi).regs.pc = m.handler .nmi ∧
      ∃ later, run.journal.reverse = .entered .nmi m.regs.pc (m.handler .nmi) :: later) ∧
    asked.length = (Journal.answers run.journal).length ∧
    ∀ k p, asked[k]? = some p →
      .polled (answers.getD k .stop) :: p.journal <:+ run.journal ∧ (Journal.answers p.journal).length = k := by
  intro recorded start run asked first due
  obtain ⟨prompt, atOnce, later⟩ := Run.entries_begin note answers start
  have waits := m.request?_foldl kinds
  -- Requests change the phase alone, so the NMI finds the registers and the bus of `m`.
  obtain ⟨phase, same⟩ : ∃ phase, start = { m with phase := phase } := m.foldl_request_eq kinds
  have byPoll : Journal.entriesByPoll run.journal.reverse = first :: due := by
    by_cases nmi : .nmi ∈ recorded
    · rw [if_pos nmi] at waits
      have notIrq : (start.phase.request? == some .irq) = decide (.irq ∈ recorded ∧ .nmi ∉ recorded) := by
        rw [waits, decide_eq_false fun h => h.2 nmi]
        rfl
      rw [show first = [.nmi] from if_pos nmi, (atOnce waits).1, notIrq]
      rfl
    · rw [if_neg nmi] at waits
      have isIrq : (start.phase.request? == some .irq) = decide (.irq ∈ recorded ∧ .nmi ∉ recorded) := by
        by_cases irq : .irq ∈ recorded
        · rw [waits, if_pos irq, decide_eq_true ⟨irq, nmi⟩]
          rfl
        · rw [waits, if_neg irq, decide_eq_false fun h => irq h.1]
          rfl
      have calm : start.phase.request? ≠ some .nmi := by
        rw [waits]
        split <;> nofun
      rw [show first = [] from if_neg nmi, later calm, isIrq]
      rfl
  refine ⟨byPoll, ?_, prompt, ?_, ?_, fun k p member => ?_⟩
  · rw [← Journal.flatten_entriesByPoll, byPoll, List.flatten_cons]
  · intro nmi
    rw [if_pos nmi] at waits
    obtain ⟨-, later, told⟩ := atOnce waits
    refine ⟨m.pc_enter .nmi, later, told.trans ?_⟩
    rw [same]
    rfl
  · have count := Run.length_asked note answers (Run.begin start)
    rw [Nat.add_comm] at count
    exact count.symm
  · obtain ⟨answered, -, suffix⟩ := Run.journal_asked note answers _ k p member
    exact ⟨suffix, answered.trans (Nat.zero_add k)⟩

end Nmos6502
