/-
# The log of a run

A run is a chain of moments: an instruction is executed, a handler is entered,
the host is asked. Each happens to the machine that the one before it has left
(`Chronicle`), and from the machine it happens to it can be told what is logged
of it (`Moment.record?`): an undocumented opcode and the address it was fetched
from, an entry with the return address that went on the stack, an IRQ that is
dropped because I is set. The log of a run has these records in this order, one
more if the run is stopped, and no other.

A run is carried along with its chain (`Run.Told`), so this holds of a run
that never ends, too, as far as it has come.
-/
import Nmos6502.Proofs.Loop
import Nmos6502.Proofs.Return
import Nmos6502.Proofs.Undocumented

namespace Nmos6502

/-! ### Records -/

namespace LogRecord

def undocumented (opcode : Byte) (address : Word) : LogRecord where
  level := .trace
  message := "illegal opcode " ++ Hex.byte opcode ++ " at " ++ Hex.word address ++ " treated as NOP"

def entered (kind : Interrupt) (returnTo handler : Word) : LogRecord where
  level := .trace
  message := kind.text ++ " taken at " ++ Hex.word returnTo ++ ", handler " ++ Hex.word handler

def dropped (address : Word) : LogRecord where
  level := .trace
  message := "IRQ dropped at " ++ Hex.word address ++ ": I set"

def stopped (address : Word) (total : Cycles) : LogRecord where
  level := .debug
  message := "run stopped at " ++ Hex.word address ++ " after " ++ total.text

end LogRecord

def Journal.log (events : List Event) : List LogRecord :=
  events.filterMap Event.record?

theorem Journal.log_append (earlier later : List Event) : log (earlier ++ later) = log earlier ++ log later :=
  List.filterMap_append

/-! ### Moments -/

/-- The request that wins at a question. None does if the answer is to stop. -/
def Answer.winner? (waiting : Option Interrupt) : Answer → Option Interrupt
  | .stop => none
  | answer => Interrupt.stronger waiting answer.interrupt?

/-- An IRQ wins at the question, and I is set. -/
def Machine.Drops {β : Type} (m : Machine β) (answer : Answer) : Prop :=
  answer.winner? m.phase.request? = some .irq ∧ m.regs.p.interruptDisable = true

instance {β : Type} (m : Machine β) (answer : Answer) : Decidable (m.Drops answer) :=
  inferInstanceAs (Decidable (_ ∧ _))

/-- Something that happens in a run, and the machine it happens to. -/
inductive Moment (β : Type) where
  | instruction (m : Machine β)
  | entry (kind : Interrupt) (m : Machine β)
  | question (answer : Answer) (m : Machine β)

namespace Moment

variable {β : Type}

def before : Moment β → Machine β
  | instruction m | entry _ m | question _ m => m

variable [Bus β]

/-- The machine as it is afterwards. Only a stop adds no period and leaves it halted. -/
def after (note : Answer → β → β) : Moment β → Machine β
  | instruction m => m.step.2.spend m.step.1.cycles
  | entry kind m => (({ m with phase := .running } : Machine β).enter kind).spend interruptCycles
  | question .stop m => { m with bus := note .stop m.bus, phase := .halted }
  | question answer m => { m.replenish with bus := note answer m.bus, phase := .running }

def events : Moment β → List Event
  | instruction m => [.executed m.step.1]
  | entry kind m => [.entered kind m.regs.pc (m.enter kind).regs.pc]
  | question answer m => .polled answer :: if m.Drops answer then [.dropped m.regs.pc] else []

/-- What is logged of it. An instruction is known by the byte that is fetched at PC, and an entry by
the first two bytes it writes, high byte first, and by where it leaves PC. -/
def record? : Moment β → Option LogRecord
  | instruction m =>
    let opcode := (Bus.read m.bus m.regs.pc).1
    if DataSheet.Undocumented opcode then some (.undocumented opcode m.regs.pc) else none
  | entry kind m =>
    match Activity.writes (m.seenInEntry kind) with
    | (_, high) :: (_, low) :: _ =>
      some (.entered kind (Word.ofBytes low high) (m.enter kind).regs.pc)
    | _ => none
  | question answer m => if m.Drops answer then some (.dropped m.regs.pc) else none

theorem log_instruction (m : Machine β) :
    Journal.log (instruction m).events = (instruction m).record?.toList := by
  have opcode : m.step.1.instruction.opcode = (Bus.read m.bus m.regs.pc).1 := by
    rw [m.instruction_step]
    rfl
  have documented : m.step.1.instruction.isDocumented = true ↔
      ¬ DataSheet.Undocumented (Bus.read m.bus m.regs.pc).1 := by
    rw [DataSheet.undocumented_iff, m.instruction_step]
    exact bne_iff_ne
  show Journal.log [.executed m.step.1] = (if _ then some _ else none : Option LogRecord).toList
  by_cases undocumented : DataSheet.Undocumented (Bus.read m.bus m.regs.pc).1
  · have record : (Event.executed m.step.1).record? =
        some (.undocumented m.step.1.instruction.opcode m.step.1.address) :=
      if_neg fun listed => documented.mp listed undocumented
    rw [if_pos undocumented, ← opcode, ← m.address_step]
    exact List.filterMap_cons_some record
  · have record : (Event.executed m.step.1).record? = none := if_pos (documented.mpr undocumented)
    rw [if_neg undocumented]
    exact List.filterMap_cons_none record

theorem record?_entry (kind : Interrupt) (m : Machine β) :
    (entry kind m).record? = some (.entered kind m.regs.pc (m.enter kind).regs.pc) := by
  have writes := (m.regs.enterAt_writes kind.vector m.regs.p.pushedByInterrupt).on m.bus
  rw [record?, show Activity.writes (m.seenInEntry kind) = _ from writes]
  dsimp only
  rw [Word.ofBytes_low_high]

theorem log_events : ∀ moment : Moment β, Journal.log moment.events = moment.record?.toList
  | instruction m => log_instruction m
  | entry kind m => by
    rw [record?_entry]
    rfl
  | question answer m => by
    rw [events, record?]
    split
    · rfl
    · rfl

theorem log_flatMap (moments : List (Moment β)) :
    Journal.log (moments.flatMap events) = moments.filterMap record? := by
  induction moments with
  | nil => rfl
  | cons moment rest ih =>
    rw [List.flatMap_cons, Journal.log_append, log_events, ih, Journal.filterMap_cons_toList]

end Moment

/-- From one machine to another there are these moments, each at the machine that the one before it has
left. -/
inductive Chronicle {β : Type} [Bus β] (note : Answer → β → β) (start : Machine β) :
    List (Moment β) → Machine β → Prop where
  | begin : Chronicle note start [] start
  | next {moments : List (Moment β)} (moment : Moment β) :
    Chronicle note start moments moment.before →
    Chronicle note start (moments ++ [moment]) (moment.after note)

namespace Run

variable {β : Type} [Bus β] {note : Answer → β → β} {start : Machine β} {r : Run β}

/-- The journal of a run tells the moments that have led to its machine. -/
def Told (note : Answer → β → β) (start : Machine β) (r : Run β) : Prop :=
  ∃ moments, Chronicle note start moments r.machine ∧ r.journal.reverse = moments.flatMap Moment.events

theorem Told.next (h : Told note start r) {q : Run β} (moment : Moment β)
    (before : moment.before = r.machine) (after : q.machine = moment.after note)
    (journal : q.journal = moment.events.reverse ++ r.journal) : Told note start q := by
  obtain ⟨moments, chain, told⟩ := h
  refine ⟨moments ++ [moment], ?_, ?_⟩
  · rw [after]
    exact .next moment (before ▸ chain)
  · rw [journal, List.reverse_append, List.reverse_reverse, told, List.flatMap_append,
      List.flatMap_singleton]

theorem Told.execute (h : Told note start r) : Told note start r.execute :=
  h.next (.instruction r.machine) rfl rfl rfl

theorem Told.enter (h : Told note start r) (kind : Interrupt) : Told note start (r.settle.enter kind) :=
  h.next (.entry kind r.machine) rfl rfl rfl

theorem Told.turn (h : Told note start r) : Told note start r.turn := by
  rw [turn_eq]
  apply Told.execute
  unfold wake
  split
  · exact h.enter .nmi
  · exact h

/-- A question and its drop are told together. -/
theorem Told.refresh (h : Told note start r) {answer : Answer} (goes : answer ≠ .stop) :
    Told note start (if r.machine.Drops answer then (r.refresh note answer).drop
      else r.refresh note answer) := by
  have after : (r.refresh note answer).machine = (Moment.question answer r.machine).after note := by
    cases answer with
    | stop => exact absurd rfl goes
    | proceed | irq | nmi => rfl
  by_cases drops : r.machine.Drops answer
  · rw [if_pos drops]
    refine h.next (.question answer r.machine) rfl after ?_
    rw [Moment.events, if_pos drops]
    rfl
  · rw [if_neg drops]
    refine h.next (.question answer r.machine) rfl after ?_
    rw [Moment.events, if_neg drops]
    rfl

theorem Told.resume (h : Told note start r) {answer : Answer} (goes : answer ≠ .stop) :
    Told note start (r.resume note answer) := by
  have asked := h.refresh goes
  have wins : answer.winner? r.machine.phase.request? =
      Interrupt.stronger r.machine.phase.request? answer.interrupt? := by
    cases answer with
    | stop => exact absurd rfl goes
    | proceed | irq | nmi => rfl
  rw [resume_eq, ← wins]
  match winner : answer.winner? r.machine.phase.request? with
  | none =>
    have kept : ¬ r.machine.Drops answer := fun drops => nomatch winner.symm.trans drops.1
    rw [if_neg kept] at asked
    exact asked
  | some .nmi =>
    have kept : ¬ r.machine.Drops answer := fun drops => nomatch winner.symm.trans drops.1
    rw [if_neg kept] at asked
    exact asked.enter .nmi
  | some .irq =>
    -- The machine has the I flag it had when the host was asked.
    have same : (r.refresh note answer).machine.regs = r.machine.regs := rfl
    unfold serve
    rw [same]
    by_cases masked : r.machine.regs.p.interruptDisable = true
    · rw [if_pos ⟨winner, masked⟩] at asked
      rw [if_pos masked]
      exact asked
    · have kept : ¬ r.machine.Drops answer := fun drops => masked drops.2
      rw [if_neg kept] at asked
      rw [if_neg masked]
      exact asked.enter .irq

/-- Every run keeps to its chain of moments. -/
theorem told_invariant (note : Answer → β → β) (start : Machine β) :
    Invariant note (Told note start) (Told note start) :=
  .of_kept (fun _ h => h.turn) fun _ _ goes h => h.resume goes

theorem told_begin (note : Answer → β → β) (m : Machine β) : Told note (begin m).machine (begin m) :=
  ⟨[], .begin, rfl⟩

/-- The last moment of a run is the question at which it is stopped. -/
theorem Told.close (h : Told note start r) :
    ∃ moments, Chronicle note start moments (r.close note).machine ∧
      (r.close note).journal.reverse = moments.flatMap Moment.events ++
        [.stopped (r.close note).machine.regs.pc (r.close note).cycles] := by
  have asked : Told note start { r.close note with journal := .polled .stop :: r.journal } :=
    h.next (.question .stop r.machine) rfl rfl rfl
  obtain ⟨moments, chain, told⟩ := asked
  refine ⟨moments, chain, ?_⟩
  rw [← told]
  exact List.reverse_cons

end Run

namespace Machine

variable {β : Type} [Bus β]

/-- An undocumented instruction has been fetched from where PC was, which is its length before where PC is
afterwards. -/
theorem fetched_undocumented (m : Machine β)
    (undocumented : DataSheet.Undocumented (Bus.read m.bus m.regs.pc).1) :
    let opcode := (Bus.read m.bus m.regs.pc).1
    let length := (Instruction.decode opcode).length
    (∃ operands, operands.length + 1 = length ∧ m.seenInStep = fetches m.regs.pc (opcode :: operands)) ∧
    m.step.2.regs.pc - BitVec.ofNat 16 length = m.regs.pc := by
  intro opcode length
  obtain ⟨after, fetched, -, -⟩ := m.step_undocumented rfl undocumented
  refine ⟨fetched, ?_⟩
  rw [after]
  exact BitVec.add_sub_cancel m.regs.pc _

/-- **The log tells the run.** Whatever bus, program and host a machine has, and whatever request waits,
its run is a chain of moments that leads from the machine as it begins to the machine as it is left. The
journal is that of these moments. The log has a record for each undocumented opcode, with the address it
was fetched from; for each entry, with the word of the first two bytes it writes, and with the handler; for
each question at which an IRQ wins and I is set; and last a record of the stop with the cycles of the run.
It has no other. A run that its host does not stop has the log of its moments so far.

An undocumented instruction may lie across the top of memory; the address it was fetched from is still its
length before where it leaves PC. The bytes an entry writes first are those of PC, both on the stack. -/
theorem log_tells_run (note : Answer → β → β) (m : Machine β) :
    (∀ answers : List Answer,
      let run := (m.runNoting note answers).1
      ∃ moments, Chronicle note (Run.begin m).machine moments run.machine ∧
        run.journal.reverse = moments.flatMap Moment.events ++ [.stopped run.machine.regs.pc run.cycles] ∧
        Journal.log run.journal.reverse =
          moments.filterMap Moment.record? ++ [.stopped run.machine.regs.pc run.cycles]) ∧
    (∀ (host : Stream' Answer) (n : Nat) (r : Run β) (rest : Stream' Answer),
      Loop.rounds note n (.going (.begin m) host) = .going r rest →
      ∃ moments, Chronicle note (Run.begin m).machine moments r.machine ∧
        r.journal.reverse = moments.flatMap Moment.events ∧
        Journal.log r.journal.reverse = moments.filterMap Moment.record?) ∧
    (∀ q : Machine β, DataSheet.Undocumented (Bus.read q.bus q.regs.pc).1 →
      let opcode := (Bus.read q.bus q.regs.pc).1
      let length := (Instruction.decode opcode).length
      (∃ operands, operands.length + 1 = length ∧
        q.seenInStep = fetches q.regs.pc (opcode :: operands)) ∧
      q.step.2.regs.pc - BitVec.ofNat 16 length = q.regs.pc) ∧
    ∀ (q : Machine β) (kind : Interrupt), ∃ flags, Activity.writes (q.seenInEntry kind) =
      [(stackPage q.regs.s, q.regs.pc.high), (stackPage (q.regs.s - 1), q.regs.pc.low),
        (stackPage (q.regs.s - 2), flags)] := by
  have told := Run.told_begin note m
  have inv := Run.told_invariant note (Run.begin m).machine
  refine ⟨fun answers => ?_, fun host n r rest going => ?_, fun q => q.fetched_undocumented,
    fun q kind => ⟨_, (q.regs.enterAt_writes kind.vector _).on q.bus⟩⟩
  · intro run
    obtain ⟨p, due, eq⟩ := inv.follow answers told
    obtain ⟨moments, chain, journal⟩ := due.close
    rw [← eq] at chain journal
    refine ⟨moments, chain, journal, ?_⟩
    rw [show run.journal.reverse = _ from journal, Journal.log_append, Moment.log_flatMap]
    rfl
  · have carried := inv.rounds n (.going (.begin m) host) told
    rw [going] at carried
    obtain ⟨moments, chain, journal⟩ := carried
    refine ⟨moments, chain, journal, ?_⟩
    rw [journal, Moment.log_flatMap]

/-- An undocumented opcode in the last byte of memory, with its operand in the first; then an IRQ that is
dropped, and an NMI. -/
theorem log_tells_run_across_top :
    let rom : Rom := ⟨fun address =>
      if address = 0xFFFF then 0x80 else if address = 0xFFFA then 0x34 else if address = 0xFFFB then 0x12
      else 0xEA⟩
    let m : Machine Rom :=
      { settings := ⟨⟨1000000⟩, 2⟩, accepted := by decide
        regs := { Registers.powerOn with pc := 0xFFFF, s := 0x00 }
        bus := rom, phase := .running, budget := 2 }
    let note : Answer → Rom → Rom := fun _ bus => bus
    let run := (m.runNoting note [.irq, .nmi, .stop]).1
    DataSheet.Undocumented (Bus.read m.bus m.regs.pc).1 ∧ m.step.2.regs.pc - 2 = 0xFFFF ∧
    ∃ moments, Chronicle note m moments run.machine ∧
      moments.filterMap Moment.record? ++ [.stopped run.machine.regs.pc run.cycles] =
        [⟨.trace, "illegal opcode $80 at $FFFF treated as NOP"⟩,
          ⟨.trace, "IRQ dropped at $0001: I set"⟩,
          ⟨.trace, "Nmi taken at $0002, handler $1234"⟩,
          ⟨.debug, "run stopped at $1235 after 13 cycles"⟩] := by
  intro rom m note run
  have undocumented : DataSheet.Undocumented (Bus.read m.bus m.regs.pc).1 := by decide +kernel
  obtain ⟨runs, -, instructions, -⟩ := log_tells_run note m
  obtain ⟨moments, chain, -, log⟩ := runs [.irq, .nmi, .stop]
  have two : BitVec.ofNat 16 (Instruction.decode (Bus.read m.bus m.regs.pc).1).length = 2 := by decide +kernel
  refine ⟨undocumented, ?_, moments, chain, log.symm.trans (by decide +kernel)⟩
  rw [← two]
  exact (instructions m undocumented).2

end Machine
end Nmos6502
