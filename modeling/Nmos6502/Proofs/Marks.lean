/-
# The two bits of P that are no state

B and R have a place in the byte view of P, but the chip has no storage for
them. Here they are kept like the other flags, and yet no program can tell
(`Session.marks_hidden`): no operation looks at them, every pushed status has R
set and B set or clear by who pushes it, and PLP and RTI take neither from the
stack. So registers that differ in B and R alone take the same course with the
same accesses, cycles and questions, and keep differing in B and R alone.

Nor do they wander: unless P itself is set from outside, R is set and B is clear
at all times, whatever is pulled from the stack (`Machine.flags_regular`).
-/
import Nmos6502.Inspect
import Nmos6502.Proofs.Keeping
import Nmos6502.Proofs.Similar
import Nmos6502.Rom

namespace Nmos6502

/-! ### Flags without B and R -/

namespace Status

def marked (p : Status) (breakMark reserved : Bool) : Status :=
  { p with breakMark := breakMark, reserved := reserved }

/-- The flags that are state. -/
def unmarked (p : Status) : Status :=
  p.marked false false

theorem eq_marked {p q : Status} (same : p.unmarked = q.unmarked) : ∃ b c, q = p.marked b c := by
  obtain ⟨c, z, i, d, _, _, v, n⟩ := p
  obtain ⟨c', z', i', d', mark, reserved, v', n'⟩ := q
  obtain ⟨rfl, rfl, rfl, rfl, -, -, rfl, rfl⟩ := Status.mk.inj same
  exact ⟨mark, reserved, rfl⟩

/-- To set and clear flags by a mask is a matter of each flag alone. -/
theorem unmarked_setTo (p : Status) (breakMark reserved : Bool) (mask : Byte) (on : Bool) :
    ((p.marked breakMark reserved).setTo mask on).unmarked = (p.setTo mask on).unmarked := by
  unfold setTo
  rw [set_eq, set_eq, clear_eq, clear_eq]
  cases on with
  | true => rfl
  | false => rfl

end Status

namespace Registers

def marked (r : Registers) (breakMark reserved : Bool) : Registers :=
  { r with p := r.p.marked breakMark reserved }

def unmarked (r : Registers) : Registers :=
  { r with p := r.p.unmarked }

theorem eq_marked {r q : Registers} (same : r.unmarked = q.unmarked) : ∃ b c, q = r.marked b c := by
  obtain ⟨a, x, y, s, pc, p⟩ := r
  obtain ⟨a', x', y', s', pc', p'⟩ := q
  obtain ⟨rfl, rfl, rfl, rfl, rfl, flags⟩ := Registers.mk.inj same
  obtain ⟨b, c, rfl⟩ := Status.eq_marked flags
  exact ⟨b, c, rfl⟩

end Registers

/-! ### No operation looks at them -/

/-- The function that makes an operation what it is does the same whatever B and R are. -/
def Operation.Blind : Operation → Prop
  | .read apply | .pull apply => ∀ v r b c, (apply v (r.marked b c)).unmarked = (apply v r).unmarked
  | .store source | .push source => ∀ r b c, source (r.marked b c) = source r
  | .modify apply => ∀ v p b c, (apply v (p.marked b c)).1 = (apply v p).1 ∧
    (apply v (p.marked b c)).2.unmarked = (apply v p).2.unmarked
  | .internal apply => ∀ r b c, (apply (r.marked b c)).unmarked = (apply r).unmarked
  | .branch taken => ∀ p b c, taken (p.marked b c) = taken p
  | _ => True

theorem Arithmetic.add_marked (a v : Byte) (p : Status) (b c : Bool) :
    (add a v (p.marked b c)).1 = (add a v p).1 ∧
    (add a v (p.marked b c)).2.unmarked = (add a v p).2.unmarked := by
  have decimal : (p.marked b c).decimal = p.decimal := rfl
  unfold add
  rw [decimal]
  split
  · exact ⟨rfl, rfl⟩
  · exact ⟨rfl, rfl⟩

theorem Mnemonic.blind (m : Mnemonic) : m.operation.Blind := by
  cases m with
  | adc =>
    intro v r b c
    obtain ⟨result, flags⟩ := Arithmetic.add_marked r.a v r.p b c
    show Registers.mk (Arithmetic.add r.a v (r.p.marked b c)).1 r.x r.y r.s r.pc
      (Arithmetic.add r.a v (r.p.marked b c)).2.unmarked = .mk _ r.x r.y r.s r.pc _
    rw [result, flags]
    rfl
  | lda | ldx | ldy | sbc | and | ora | eor | cmp | cpx | cpy | bit | pla | plp => exact fun _ _ _ _ => rfl
  | asl | lsr | rol | ror | inc | dec => exact fun _ _ _ _ => ⟨rfl, rfl⟩
  | inx | iny | dex | dey | tax | tay | txa | tya | tsx | txs | clc | sec | cli | sei | cld | sed | clv
  | nop | sta | stx | sty | pha | php | bpl | bmi | bvc | bvs | bcc | bcs | bne | beq =>
    exact fun _ _ _ => rfl
  | jmp | jsr | rts | rti | brk | illegal => exact trivial

namespace Registers

open Dialogue

variable (r : Registers) (b c : Bool)

/-- An instruction does the same with other marks, and leaves registers that differ in the marks. -/
theorem perform_marked (i : Instruction) :
    (i.perform r).Agree (Outcome.Related fun after after' => after.unmarked = after'.unmarked)
      (i.perform (r.marked b c)) := by
  have blind := i.mnemonic.blind
  refine i.perform_agree r (r.p.marked b c) (fun _ _ => rfl) ?_
  generalize i.mnemonic.operation = operation at blind
  cases operation with
  | read apply => exact fun v pc => (blind v { r with pc := pc } b c).symm
  | modify apply =>
    refine ⟨fun v => (blind v r.p b c).1.symm, fun v a pc => ?_⟩
    exact congrArg (Registers.mk a r.x r.y r.s pc) (blind v r.p b c).2.symm
  | internal apply => exact (blind r b c).symm
  | pull apply => exact fun v s => (blind v { r with s := s } b c).symm
  | store source | push source => exact blind r b c
  | branch taken => exact blind r.p b c
  | endInterrupt => exact fun _ _ _ => rfl
  | breakIn => exact ⟨rfl, fun _ _ => rfl⟩
  | jump | call | comeBack | undocumented => exact trivial

theorem enter_marked (kind : Interrupt) :
    (r.enter kind).Agree (fun after after' => after.unmarked = after'.unmarked) ((r.marked b c).enter kind) :=
  r.enterAt_agree (r.p.marked b c) kind.vector rfl fun _ _ => rfl

/-- The processor goes by the flags that are state. -/
theorem faithful_unmarked : Faithful unmarked where
  pc {r q} same := show r.unmarked.pc = q.unmarked.pc from congrArg pc same
  masked {r q} same := show r.unmarked.p.interruptDisable = q.unmarked.p.interruptDisable by rw [same]
  step {r q} same := by
    obtain ⟨b, c, rfl⟩ := eq_marked same
    exact step_agree (r := r) (q := r.marked b c) rfl fun opcode =>
      perform_marked { r with pc := r.pc + 1 } b c (Instruction.decode opcode)
  enter {r q} kind same := by
    obtain ⟨b, c, rfl⟩ := eq_marked same
    exact r.enter_marked b c kind
  assign {r q} what same := by
    obtain ⟨b, c, rfl⟩ := eq_marked same
    cases what with
    | _ => rfl
  setFlags {r q} mask on same := by
    obtain ⟨b, c, rfl⟩ := eq_marked same
    exact congrArg (Registers.mk r.a r.x r.y r.s r.pc) (Status.unmarked_setTo r.p b c mask on).symm

end Registers

/-! ### Sessions -/

/-- The session without B and R. -/
def Session.unmarked {β : Type} (s : Session β) : Session β :=
  let ⟨⟨settings, accepted, regs, bus, phase, budget⟩, answers, polls, note⟩ := s
  { machine := ⟨settings, accepted, regs.unmarked, bus, phase, budget⟩
    answers := answers
    polls := polls
    note := note }

/-- Sessions that look the same without B and R are the same without them. -/
theorem Session.similar_unmarked_iff {β : Type} (s t : Session β) :
    Session.Similar Registers.unmarked Eq s t ↔ s.unmarked = t.unmarked := by
  obtain ⟨⟨settings, accepted, regs, ⟨bus, record⟩, phase, budget⟩, answers, polls, note⟩ := s
  obtain ⟨⟨settings', accepted', regs', ⟨bus', record'⟩, phase', budget'⟩, answers', polls', note'⟩ := t
  constructor
  · rintro ⟨⟨regs, ⟨bus, record⟩, settings, phase, budget⟩, answers, polls, noted⟩
    have note : note = note' := funext fun answer => funext fun b => noted answer b b rfl
    simp only at *
    subst bus record settings phase budget answers polls note
    unfold Session.unmarked
    simp only [regs]
  · intro same
    simp only [unmarked, Session.mk.injEq, Machine.mk.injEq, Traced.mk.injEq] at same
    obtain ⟨⟨settings, regs, ⟨bus, record⟩, phase, budget⟩, answers, polls, rfl⟩ := same
    exact ⟨⟨regs, ⟨bus, record⟩, settings, phase, budget⟩, answers, polls, fun answer b c same => same ▸ rfl⟩

/-- **B and R are no state.** Two sessions, on any bus, have the same registers but for the bits B and R of P,
and the same settings, phase, budget, bus, record of accesses and host, which may do anything to the bus when
it is asked. They are given the same commands, steps and runs of any length among them. Then they report the
same cycles, instructions, events and registers, these but for B and R, and in the end they are again the same
but for B and R: the same bytes were read and written at the same addresses, among them every status that was
pushed, and the host was asked at the same points. -/
theorem Session.marks_hidden {β : Type} [Bus β] [Backed β] {s t : Session β}
    (same : s.unmarked = t.unmarked) (commands : List Command) :
    let left := s.performAll commands
    let right := t.performAll commands
    left.1.map (Report.under Registers.unmarked) = right.1.map (Report.under Registers.unmarked) ∧
    left.2.machine.bus.record = right.2.machine.bus.record ∧
    left.2.unmarked = right.2.unmarked := by
  intro left right
  have similar := (s.similar_unmarked_iff t).mpr same
  obtain ⟨reports, after⟩ := similar.performAll Registers.faithful_unmarked Bus.Alike.eq commands
    fun address bytes _ b c same => same ▸ rfl
  exact ⟨reports, after.machine.bus.record, (left.2.similar_unmarked_iff right.2).mp after⟩

/-- One machine has B and R set and the other has them clear. Both push the status with B and R set,
time and again, and with B clear when they are interrupted. -/
theorem Session.marks_hidden_php :
    let session (flags : Byte) : Session Rom :=
      { machine :=
          { settings := ⟨⟨1000000⟩, 7⟩, accepted := by decide
            regs := { Registers.powerOn with p := .ofByte flags }
            bus := .fresh (.uniform 0x08), phase := .running, budget := 7 }
        answers := [.proceed, .irq, .nmi, .stop]
        polls := 0 }
    let s := session 0xC1
    let t := session 0xF1
    let commands : List Command := [.step 2, .run, .request .nmi, .run]
    s.machine.regs.p ≠ t.machine.regs.p ∧ s.unmarked = t.unmarked ∧
    (s.performAll commands).2.machine.bus.record = (t.performAll commands).2.machine.bus.record ∧
    (s.performAll commands).2.unmarked = (t.performAll commands).2.unmarked ∧
    Activity.write 0x01FD 0xF1 ∈ (s.performAll commands).2.machine.bus.record ∧
    Activity.write 0x01F4 0xE1 ∈ (s.performAll commands).2.machine.bus.record := by
  intro session s t commands
  have same : s.unmarked = t.unmarked := rfl
  obtain ⟨-, accesses, after⟩ := marks_hidden same commands
  exact ⟨by decide, same, accesses, after, by decide +kernel, by decide +kernel⟩

/-! ### B clear, R set -/

structure Status.Regular (p : Status) : Prop where
  breakMark : p.breakMark = false
  reserved : p.reserved = true

namespace Status.Regular

variable {p : Status}

theorem toByte (h : p.Regular) : p.toByte &&& 0x30 = 0x20 := by
  obtain ⟨c, z, i, d, b, r, v, n⟩ := p
  obtain ⟨rfl, rfl⟩ := h
  revert c z i d v n
  decide

theorem visible (h : p.Regular) : p.visible = p.toByte := by
  obtain ⟨c, z, i, d, b, r, v, n⟩ := p
  obtain ⟨rfl, rfl⟩ := h
  rfl

end Status.Regular

theorem Arithmetic.marks_add (a v : Byte) (p : Status) :
    (add a v p).2.breakMark = p.breakMark ∧ (add a v p).2.reserved = p.reserved := by
  unfold add
  split
  · exact ⟨rfl, rfl⟩
  · exact ⟨rfl, rfl⟩

/-- All operations keep what depends on B and R alone and holds of a status that is pulled. -/
theorem Mnemonic.keepsMarks {K : Status → Prop}
    (marks : ∀ p q : Status, q.breakMark = p.breakMark → q.reserved = p.reserved → K p → K q)
    (pulled : ∀ v, K (Status.pulled v)) (m : Mnemonic) : m.operation.Keeps K := by
  cases m with
  | adc => exact fun v r => marks _ _ (Arithmetic.marks_add r.a v r.p).1 (Arithmetic.marks_add r.a v r.p).2
  | lda | ldx | ldy | sbc | and | ora | eor | cmp | cpx | cpy | bit | pla =>
    exact fun _ _ => marks _ _ rfl rfl
  | asl | lsr | rol | ror | inc | dec => exact fun _ _ => marks _ _ rfl rfl
  | inx | iny | dex | dey | tax | tay | txa | tya | tsx | txs | clc | sec | cli | sei | cld | sed | clv | nop
  | brk => exact fun _ => marks _ _ rfl rfl
  | plp => exact fun v _ _ => pulled v
  | rti => exact pulled
  | sta | stx | sty | pha | php | bpl | bmi | bvc | bvs | bcc | bcs | bne | beq | jmp | jsr | rts
  | illegal => exact trivial

theorem Mnemonic.keepsRegular (m : Mnemonic) : m.operation.Keeps Status.Regular :=
  m.keepsMarks
    (fun _ _ breakMark reserved h => ⟨breakMark.trans h.breakMark, reserved.trans h.reserved⟩)
    fun _ => ⟨rfl, rfl⟩

def Assignment.sparesFlags : Assignment → Bool
  | .p _ | .exactP _ => false
  | .a _ | .x _ | .y _ | .s _ | .pc _ => true

namespace Machine

variable {β : Type}

variable [Bus β]

/-- A machine that has been made and then driven from outside in any way that does not set P. Between
two instructions its bus may change by itself. -/
inductive Driven : Machine β → Prop
  | make {settings : Settings} {bus : β} {m : Machine β} (made : Machine.make settings bus = .ok m) :
    Driven m
  | reset {m : Machine β} : Driven m → Driven m.reset
  | request {m : Machine β} (kind : Interrupt) : Driven m → Driven (m.request kind)
  | step {m : Machine β} : Driven m → Driven m.step.2
  | run {m : Machine β} (note : Answer → β → β) (answers : List Answer) :
    Driven m → Driven (m.runNoting note answers).1.machine
  | assign {m : Machine β} {what : Assignment} (spares : what.sparesFlags = true) :
    Driven m → Driven { m with regs := m.regs.assign what }
  | rewire {m : Machine β} (bus : β) : Driven m → Driven { m with bus := bus }

theorem Driven.regular {m : Machine β} (h : m.Driven) : m.regs.p.Regular := by
  induction h with
  | make made =>
    obtain ⟨_, rfl⟩ := of_make made
    exact ⟨rfl, rfl⟩
  | @reset m _ _ =>
    rw [m.flags_reset]
    exact ⟨rfl, rfl⟩
  | @request m kind _ ih =>
    rw [m.regs_request]
    exact ih
  | @step m _ ih => exact keeps_step (Mnemonic.keepsRegular _) ih
  | @run m note answers _ ih =>
    refine Run.keeps_follow Mnemonic.keepsRegular note answers ?_
    rw [Run.regs_begin]
    exact ih
  | @assign m what spares _ ih =>
    cases what with
    | p | exactP => exact absurd spares Bool.false_ne_true
    | a | x | y | s | pc => exact ih
  | rewire bus _ ih => exact ih

/-- **B is clear and R is set.** A machine has been made and then driven from outside in any way that
does not set P, on a bus that may answer any byte when a status is pulled. Then bits 4 and 5 of P are 0
and 1, and the status that is seen from outside is P itself; and so they are whenever the host of a run
is asked. -/
theorem flags_regular {m : Machine β} (driven : m.Driven) :
    (m.regs.p.toByte &&& 0x30 = 0x20 ∧ m.status = m.regs.p.toByte) ∧
    ∀ (note : Answer → β → β) (answers : List Answer), ∀ r ∈ (Run.begin m).asked note answers,
      r.machine.regs.p.toByte &&& 0x30 = 0x20 ∧ r.machine.status = r.machine.regs.p.toByte := by
  refine ⟨⟨driven.regular.toByte, driven.regular.visible⟩, fun note answers r asked => ?_⟩
  have ready : (Run.begin m).machine.regs.p.Regular := by
    rw [Run.regs_begin]
    exact driven.regular
  have regular := (Run.keeps_invariant Mnemonic.keepsRegular note).asked answers ready r asked
  exact ⟨regular.toByte, regular.visible⟩

/-- A program of PLP alone pulls $1F, with B set and R clear, again and again. -/
theorem flags_regular_plp :
    let rom : Rom := ⟨fun address => if address.high = 1 then 0x1F else 0x28⟩
    let start : Machine Rom :=
      { settings := ⟨⟨1000000⟩, 9⟩, accepted := by decide, regs := .powerOn
        bus := rom, phase := .running, budget := 9 }
    let note : Answer → Rom → Rom := fun _ bus => bus
    let m := ({ start.reset with regs := start.reset.regs.assign (.s 0x40) }.runNoting note
      [.irq, .nmi, .stop]).1.machine
    m.Driven ∧ (Bus.read m.bus 0x0140).1 = 0x1F ∧ m.regs.p.toByte = 0x2F ∧
    m.regs.p.toByte &&& 0x30 = 0x20 ∧ m.status = m.regs.p.toByte := by
  intro rom start note m
  have made : Machine.make ⟨⟨1000000⟩, 9⟩ rom = .ok start := rfl
  have reset : start.reset.Driven := .reset (.make made)
  have assigned : Machine.Driven { start.reset with regs := start.reset.regs.assign (.s 0x40) } :=
    reset.assign rfl
  have driven : m.Driven := assigned.run note [.irq, .nmi, .stop]
  obtain ⟨⟨marks, seen⟩, -⟩ := flags_regular driven
  exact ⟨driven, by decide +kernel, by decide +kernel, marks, seen⟩

end Machine

/-! ### Commands that leave P alone -/

def Command.sparesFlags : Command → Bool
  | .assign what => what.sparesFlags
  | .setFlags _ _ => false
  | .reset | .request _ | .step _ | .stepUntilTrapped _ | .run | .readBus _ | .writeBus _ _ | .load _ _
  | .prepare _ => true

namespace Session

variable {β : Type} [Bus β] [Backed β]

theorem driven_perform (s : Session β) {command : Command} (spares : command.sparesFlags = true)
    (h : s.machine.Driven) : (s.perform command).2.machine.Driven := by
  refine s.machine_perform h h.reset (fun kind => h.request kind) (fun _ before => before.step)
    (h.run (Traced.notePoll s.note) s.answers) ?_ ?_ fun bus => h.rewire bus
  · rintro what rfl
    exact h.assign spares
  · rintro mask on rfl
    exact absurd spares Bool.false_ne_true

/-- Sessions drive their machines: B stays clear and R set in a session whose commands do not set P. -/
theorem driven_performAll (commands : List Command) (spare : ∀ command ∈ commands, command.sparesFlags = true)
    (s : Session β) (h : s.machine.Driven) : (s.performAll commands).2.machine.Driven :=
  machine_performAll commands (fun s command member => s.driven_perform (spare command member)) s h

end Session
end Nmos6502
