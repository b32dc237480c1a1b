/-
# RTI undoes the entry into a handler

A handler is entered by an interrupt or by BRK: PC and P go on the stack, and S
has moved down by three. Whatever the handler does then, steps of its own and
entries into other handlers, if S is where the entry left it and the three bytes
are what they were, RTI puts S, P and PC back. BRK leaves two marks: it returns to
two bytes past its opcode, and the pushed P has B set, which RTI does not take
into the register.

S is a byte, so all this holds where the stack wraps on its page.
-/
import Nmos6502.Proofs.PageOne
import Nmos6502.Proofs.Seen

namespace Nmos6502

/-! ### What lies on the stack -/

namespace Bus

variable {β : Type} [Bus β]

/-- What an entry leaves on the stack, from the place where S was: PC, high byte first, and P. -/
structure HoldsReturn (bus : β) (top : Byte) (returnTo : Word) (flags : Byte) : Prop where
  high : stackByte bus top = returnTo.high
  low : stackByte bus (top - 1) = returnTo.low
  flags : stackByte bus (top - 2) = flags

variable {bus : β} {top : Byte} {returnTo : Word} {flags : Byte}

theorem holdsReturn_push (ram : StackIsRam bus) (top : Byte) (returnTo : Word) (flags : Byte) :
    HoldsReturn
      (Bus.write
        (Bus.write (Bus.write bus (stackPage top) returnTo.high) (stackPage (top - 1)) returnTo.low)
        (stackPage (top - 2)) flags) top returnTo flags := by
  have ram₁ := ram.of_leads (.write (stackPage top) returnTo.high .here)
  have ram₂ := ram₁.of_leads (.write (stackPage (top - 1)) returnTo.low .here)
  -- The three places differ also where the stack wraps.
  have first : top ≠ top - 1 := by bv_omega
  have second : top ≠ top - 2 := by bv_omega
  have third : top - 1 ≠ top - 2 := by bv_omega
  refine ⟨?_, ?_, ?_⟩
  · rw [ram₂.stackByte_write, if_neg second, ram₁.stackByte_write, if_neg first,
      ram.stackByte_write, if_pos rfl]
  · rw [ram₂.stackByte_write, if_neg third, ram₁.stackByte_write, if_pos rfl]
  · rw [ram₂.stackByte_write, if_pos rfl]

theorem HoldsReturn.read (h : HoldsReturn bus top returnTo flags) (ram : StackIsRam bus)
    (address : Word) : HoldsReturn (Bus.read bus address).2 top returnTo flags where
  high := (ram.stackByte_read address top).trans h.high
  low := (ram.stackByte_read address (top - 1)).trans h.low
  flags := (ram.stackByte_read address (top - 2)).trans h.flags

theorem HoldsReturn.of_untouched {later : β} (h : HoldsReturn bus top returnTo flags)
    (untouched : ∀ below ∈ [0, 1, 2], stackByte later (top - below) = stackByte bus (top - below)) :
    HoldsReturn later top returnTo flags where
  high := by
    have same := untouched 0 (by decide)
    rw [show top - 0 = top from BitVec.sub_zero top] at same
    exact same.trans h.high
  low := (untouched 1 (by decide)).trans h.low
  flags := (untouched 2 (by decide)).trans h.flags

end Bus

/-! ### Entering and leaving -/

namespace Registers

variable {β : Type} [Bus β] {bus : β}

/-- The entry into a handler leaves the return on the stack. -/
theorem on_enterAt (ram : Bus.StackIsRam bus) (r : Registers) (vector : Word) (flags : Byte) :
    Bus.HoldsReturn ((r.enterAt vector flags).on bus).2 r.s r.pc flags ∧
      ((r.enterAt vector flags).on bus).1.s = r.s - 3 := by
  have two : r.s - 1 - 1 = r.s - 2 := by bv_omega
  have three : r.s - 1 - 1 - 1 = r.s - 3 := by bv_omega
  have pushed := Bus.holdsReturn_push ram r.s r.pc flags
  have ram₁ := ram.of_leads (.write (stackPage r.s) r.pc.high .here)
  have ram₂ := ram₁.of_leads (.write (stackPage (r.s - 1)) r.pc.low .here)
  have ram₃ := ram₂.of_leads (.write (stackPage (r.s - 2)) flags .here)
  have ram₄ := ram₃.of_leads (.read vector .here)
  rw [← two] at pushed ram₃ ram₄
  exact ⟨(pushed.read ram₃ vector).read ram₄ (vector + 1), three⟩

/-- RTI takes it from there. -/
theorem on_endInterrupt (ram : Bus.StackIsRam bus) {r : Registers} {top : Byte} {returnTo : Word}
    {flags : Byte} (holds : Bus.HoldsReturn bus top returnTo flags) (pointer : r.s = top - 3) :
    (r.endInterrupt.on bus).1 =
      .plain { r with s := top, pc := returnTo, p := Status.pulled flags } := by
  have first : r.s + 1 = top - 2 := by bv_omega
  have second : top - 2 + 1 = top - 1 := by bv_omega
  have third : top - 1 + 1 = top := by bv_omega
  have ram₁ := ram.of_leads (.read (stackPage (top - 2)) .here)
  have holds₁ := holds.read ram (stackPage (top - 2))
  have holds₂ := holds₁.read ram₁ (stackPage (top - 1))
  have pulled : (Bus.read bus (stackPage (top - 2))).1 = flags := holds.flags
  have word := congr (congrArg Word.ofBytes holds₁.low) holds₂.high
  rw [Word.ofBytes_low_high, Bus.stackByte, Bus.stackByte] at word
  unfold endInterrupt pullWord pull pullSlot
  simp only [Dialogue.on_bind, Dialogue.on_readByte, Dialogue.pure_eq, Dialogue.on_done, first,
    second, third, pulled, word]

end Registers

/-! ### Handlers -/

def Activity.writes : List Activity → List (Word × Byte)
  | [] => []
  | .write address value :: later => (address, value) :: writes later
  | .read _ _ :: later | .polled _ :: later => writes later

/-- The writes of an entry are three pushes. -/
theorem Registers.enterAt_writes (r : Registers) (vector : Word) (flags : Byte) :
    (r.enterAt vector flags).Shows fun seen _ =>
      Activity.writes seen =
        [(stackPage r.s, r.pc.high), (stackPage (r.s - 1), r.pc.low), (stackPage (r.s - 2), flags)] := by
  have two : r.s - 2 = r.s - 1 - 1 := by bv_omega
  rw [two]
  exact fun _ _ => rfl

/-- BRK reads the byte after its opcode and enters the handler of IRQ. -/
theorem Instruction.perform_brk {i : Instruction} (brk : i.mnemonic = .brk) (r : Registers) :
    i.perform r =
      .read r.pc fun _ =>
        ({ r with pc := r.pc + 1 }).enterAt irqVector r.p.pushedByBreak >>= fun r =>
          .done (Outcome.plain r) := by
  unfold perform
  rw [brk]
  rfl

theorem Instruction.perform_rti {i : Instruction} (rti : i.mnemonic = .rti) (r : Registers) :
    i.perform r = r.endInterrupt := by
  unfold perform
  rw [rti]
  rfl

def Status.pushed (p : Status) (mark : Bool) : Byte :=
  { p with reserved := true, breakMark := mark }.toByte

/-- RTI takes back what was pushed, but for B and the reserved bit. -/
theorem Status.pulled_pushed (p : Status) (mark : Bool) :
    Status.pulled (p.pushed mark) = { p with reserved := true, breakMark := false } := by
  unfold pulled pushed
  rw [ofByte_toByte]

namespace Machine

variable {β : Type} [Bus β]

/-- A later machine: steps, and entries into other handlers, have been made. The scheduler may have
done its part in between, which does not touch registers and bus. -/
inductive Reaches (m : Machine β) : Machine β → Prop where
  | here : Reaches m m
  | step {later : Machine β} : Reaches m later → Reaches m later.step.2
  | enter {later : Machine β} (kind : Interrupt) : Reaches m later → Reaches m (later.enter kind)
  | scheduled {later last : Machine β} : Reaches m later → last.regs = later.regs →
      last.bus = later.bus → Reaches m last

theorem leads_step (m : Machine β) : Bus.Leads m.bus m.step.2.bus :=
  m.regs.step.leads_on m.bus

theorem leads_enter (m : Machine β) (kind : Interrupt) : Bus.Leads m.bus (m.enter kind).bus := by
  rw [enter_eq]
  exact (m.regs.enter kind).leads_on m.bus

theorem Reaches.leads {m later : Machine β} (reaches : m.Reaches later) : Bus.Leads m.bus later.bus := by
  induction reaches with
  | here => exact .here
  | step _ ih => exact ih.trans (leads_step _)
  | enter kind _ ih => exact ih.trans (leads_enter _ kind)
  | scheduled _ _ bus ih =>
    rw [bus]
    exact ih

/-- The entry into a handler, with what is seen of it, the address that RTI is to go to, and whether
the pushed P has B set. -/
inductive Entrance (m : Machine β) : Machine β → List Activity → Word → Bool → Prop where
  | interrupt (kind : Interrupt) :
      Entrance m (m.enter kind) (m.seenInEntry kind) m.regs.pc false
  | brk : m.step.1.instruction.mnemonic = .brk →
      Entrance m m.step.2 m.seenInStep (m.regs.pc + 2) true

theorem Entrance.leads {m entered : Machine β} {seen : List Activity} {returnTo : Word} {mark : Bool}
    (entrance : Entrance m entered seen returnTo mark) : Bus.Leads m.bus entered.bus := by
  cases entrance with
  | interrupt kind => exact m.leads_enter kind
  | brk _ => exact m.leads_step

/-- An entry pushes PC and P, and leaves them on the stack. -/
theorem Entrance.pushes {m entered : Machine β} {seen : List Activity} {returnTo : Word} {mark : Bool}
    (entrance : Entrance m entered seen returnTo mark) (ram : Bus.StackIsRam m.bus) :
    Activity.writes seen =
      [(stackPage m.regs.s, returnTo.high), (stackPage (m.regs.s - 1), returnTo.low),
        (stackPage (m.regs.s - 2), m.regs.p.pushed mark)] ∧
    Bus.HoldsReturn entered.bus m.regs.s returnTo (m.regs.p.pushed mark) ∧
    entered.regs.s = m.regs.s - 3 := by
  cases entrance with
  | interrupt kind =>
    rw [m.enter_eq]
    exact ⟨(m.regs.enterAt_writes kind.vector _).on m.bus, m.regs.on_enterAt ram kind.vector _⟩
  | brk brk =>
    rw [m.step_eq] at brk ⊢
    rw [m.seenInStep_eq, Instruction.perform_brk brk]
    have ram₁ := ram.of_leads (.read m.regs.pc .here)
    have ram₂ := ram₁.of_leads (.read (m.regs.pc + 1) .here)
    -- The entry happens with PC past the byte after the opcode.
    let r : Registers := { m.regs with pc := m.regs.pc + 1 + 1 }
    have writes := (r.enterAt_writes irqVector r.p.pushedByBreak).on
      (Bus.read (Bus.read m.bus m.regs.pc).2 (m.regs.pc + 1)).2
    have held := r.on_enterAt ram₂ irqVector r.p.pushedByBreak
    have next : m.regs.pc + 2 = r.pc := (BitVec.add_assoc m.regs.pc 1 1).symm
    rw [Dialogue.seen_read, Dialogue.seen_bind, Dialogue.seen_done, List.append_nil, Dialogue.on_read,
      Dialogue.on_bind, Dialogue.on_done, next]
    exact ⟨writes, held⟩

/-- **RTI undoes the entry into a handler.** An entry pushes the address that RTI is to go to, and P
with R set and B set only by BRK, all on page one, wherever S is. If later S and these three bytes are
as the entry left them, a step that executes RTI brings back S, PC, and P with R set and B clear. -/
theorem rti_undoes_entrance (m : Machine β) (ram : Bus.StackIsRam m.bus) {entered : Machine β}
    {seen : List Activity} {returnTo : Word} {mark : Bool}
    (entrance : Entrance m entered seen returnTo mark) :
    let flags : Status := { m.regs.p with reserved := true, breakMark := mark }
    Activity.writes seen =
      [(stackPage m.regs.s, returnTo.high), (stackPage (m.regs.s - 1), returnTo.low),
        (stackPage (m.regs.s - 2), flags.toByte)] ∧
    (∀ pushed ∈ Activity.writes seen, 0x0100 ≤ pushed.1.toNat ∧ pushed.1.toNat ≤ 0x01FF) ∧
    Bus.stackByte entered.bus (m.regs.s - 2) = flags.toByte ∧
    ∀ later, entered.Reaches later → later.regs.s = entered.regs.s →
      (∀ below ∈ [0, 1, 2], Bus.stackByte later.bus (m.regs.s - below) =
        Bus.stackByte entered.bus (m.regs.s - below)) →
      later.step.1.instruction.mnemonic = .rti →
      later.step.2.regs.s = m.regs.s ∧
      later.step.2.regs.p = { m.regs.p with reserved := true, breakMark := false } ∧
      later.step.2.regs.pc = returnTo := by
  intro flags
  obtain ⟨writes, holds, pointer⟩ := entrance.pushes ram
  refine ⟨writes, ?_, holds.flags, ?_⟩
  · rw [writes]
    intro pushed member
    simp only [List.mem_cons, List.not_mem_nil, or_false] at member
    rcases member with rfl | rfl | rfl
    · exact stackPage_bounds _
    · exact stackPage_bounds _
    · exact stackPage_bounds _
  · intro later reaches samePointer untouched rti
    have ram₁ := ram.of_leads (entrance.leads.trans reaches.leads)
    have ram₂ := ram₁.of_leads (.read later.regs.pc .here)
    have holds₁ := holds.of_untouched untouched
    have holds₂ := holds₁.read ram₁ later.regs.pc
    let r : Registers := { later.regs with pc := later.regs.pc + 1 }
    have back := Registers.on_endInterrupt ram₂ holds₂ (show r.s = _ from samePointer.trans pointer)
    rw [Status.pulled_pushed] at back
    rw [later.step_eq] at rti ⊢
    rw [Instruction.perform_rti rti, back]
    exact ⟨rfl, rfl, rfl⟩

/-- BRK in the last byte of memory, with S at $01: PC wraps, the stack wraps, and RTI comes back. -/
theorem rti_undoes_entrance_wrapped :
    let memory := Memory.ofFn fun address =>
      if address = 0xFFFE then 0x80 else if address = 0x0080 then 0x40 else 0x00
    let m : Machine Memory :=
      { settings := ⟨⟨1000000⟩, 16⟩, accepted := by decide
        regs := { Registers.powerOn with s := 0x01, pc := 0xFFFF, p := .ofByte 0xD3 }
        bus := memory, phase := .running, budget := 16 }
    m.step.1.instruction.mnemonic = .brk ∧
    Activity.writes m.seenInStep = [(0x0101, 0x00), (0x0100, 0x01), (0x01FF, 0xF3)] ∧
    m.step.2.regs.pc = 0x0080 ∧
    m.step.2.step.1.instruction.mnemonic = .rti ∧
    m.step.2.step.2.regs.s = 0x01 ∧
    m.step.2.step.2.regs.p = .ofByte 0xE3 ∧
    m.step.2.step.2.regs.pc = 0x0001 := by
  intro memory
  have bytes : ∀ address, memory.get address =
      if address = 0xFFFE then 0x80 else if address = 0x0080 then 0x40 else 0x00 := Memory.get_ofFn _
  clear_value memory
  intro m
  have opcode : (Bus.read m.bus m.regs.pc).1 = 0x00 := bytes 0xFFFF
  have brk : m.step.1.instruction.mnemonic = .brk := by
    rw [m.step_eq, opcode]
    rfl
  have bus : m.step.2.bus = ((memory.set 0x0101 0x00).set 0x0100 0x01).set 0x01FF 0xF3 := by
    rw [m.step_eq, opcode, Instruction.perform_brk rfl]
    simp only [Dialogue.on_read, Dialogue.on_bind, Registers.enterAt, Registers.pushPC,
      Registers.push, Registers.pushSlot, Dialogue.pure_eq, Dialogue.on_done, Dialogue.on_writeByte, m]
    rfl
  have handler : m.step.2.regs.pc = 0x0080 := by
    have vector : m.step.2.regs.pc =
        Word.ofBytes (m.step.2.bus.get irqVector) (m.step.2.bus.get (irqVector + 1)) := by
      rw [m.step_eq, opcode, Instruction.perform_brk rfl]
      rfl
    rw [vector, bus]
    simp only [Memory.get_set, bytes]
    rfl
  have rti : m.step.2.step.1.instruction.mnemonic = .rti := by
    rw [m.step.2.step_eq, handler, bus]
    simp only [Memory.bus_read, Memory.get_set, bytes]
    rfl
  obtain ⟨writes, -, -, undone⟩ := m.rti_undoes_entrance m.bus.stackIsRam (.brk brk)
  obtain ⟨s, p, pc⟩ := undone m.step.2 .here rfl (fun _ _ => rfl) rti
  have next : m.regs.pc + 2 = 0x0001 := by
    show (0xFFFF + 2 : Word) = 0x0001
    decide
  exact ⟨brk, writes.trans (by simp only [m]; decide), handler, rti, s, p, pc.trans next⟩

end Machine
end Nmos6502
