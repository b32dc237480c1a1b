/-
# Only the bus contract counts

A machine knows its bus by the answers it gets. Two machines with the same
registers and the same scheduler, on buses that answer alike, are driven by the
same commands and get the same answers from their hosts: then they report the
same, see the same accesses, end with the same registers and scheduler, and
their buses are alike still. The buses may be of different kinds, and a read may
change them. So may the host, when it is asked, if it shares memory with the
bus: what the two hosts do then has to keep the buses alike, too.

That two such runs take the same course, however long it is, is the case of runs
side by side in which nothing is hidden (`Session.Similar.performAll`).

A bus on loan and a pair of functions over it are alike to the bus itself
(`Lent.alike_owned`, `Callbacks.alike_over`), so its owner finds the memory that
a machine would have left that had owned it.
-/
import Nmos6502.Proofs.Similar

namespace Nmos6502

variable {β γ : Type} {R : β → γ → Prop}

/-! ### Machines and sessions that are matched -/

/-- Machines that are alike, with the same scheduler. -/
structure Machine.Matched (R : β → γ → Prop) (m : Machine β) (k : Machine γ) : Prop
    extends Machine.Alike R m k where
  settings : m.settings = k.settings
  phase : m.phase = k.phase
  budget : m.budget = k.budget

/-- Sessions with machines that are matched, and hosts that give the same answers and do to related buses what
leaves them related. -/
structure Session.Matched (R : β → γ → Prop) (s : Session β) (t : Session γ) : Prop where
  machine : Machine.Matched (Traced.Beside R) s.machine t.machine
  answers : s.answers = t.answers
  polls : s.polls = t.polls
  note : ∀ answer b c, R b c → R (s.note answer b) (t.note answer c)

/-! The same registers are registers that look the same when nothing is hidden. -/

theorem Registers.faithful_id : Registers.Faithful id where
  pc h := congrArg Registers.pc h
  masked h := congrArg (fun r : Registers => r.p.interruptDisable) h
  step h := by
    obtain rfl : _ = _ := h
    exact .refl (fun _ => ⟨rfl, rfl⟩) _
  enter kind h := by
    obtain rfl : _ = _ := h
    exact .refl (fun _ => rfl) _
  assign what h := congrArg (fun r : Registers => r.assign what) h
  setFlags mask on h := congrArg (fun r : Registers => { r with p := r.p.setTo mask on }) h

theorem Report.under_id : Report.under id = id := by
  funext report
  obtain ⟨reply, events⟩ := report
  cases reply with
  | stepped steps cycles => exact congrArg (fun steps => Report.mk (.stepped steps cycles) events) (List.map_id steps)
  | trapped found steps cycles =>
    exact congrArg (fun steps => Report.mk (.trapped found steps cycles) events) (List.map_id steps)
  | nothing | ran | byte => rfl

namespace Session.Matched

variable {s : Session β} {t : Session γ}

theorem similar (h : Session.Matched R s t) : Session.Similar id R s t :=
  ⟨⟨h.machine.regs, h.machine.bus, h.machine.settings, h.machine.phase, h.machine.budget⟩,
    h.answers, h.polls, h.note⟩

theorem of_similar (h : Session.Similar id R s t) : Session.Matched R s t :=
  ⟨⟨⟨h.machine.regs, h.machine.bus⟩, h.machine.settings, h.machine.phase, h.machine.budget⟩,
    h.answers, h.polls, h.note⟩

variable [Bus β] [Backed β] [Bus γ] [Backed γ]

theorem performAll (alike : Bus.Alike R) (commands : List Command) (h : Session.Matched R s t)
    (loads : ∀ address bytes, .load address bytes ∈ commands →
      ∀ b c, R b c → R (Backed.load b address bytes) (Backed.load c address bytes)) :
    (s.performAll commands).1 = (t.performAll commands).1 ∧
    Session.Matched R (s.performAll commands).2 (t.performAll commands).2 := by
  obtain ⟨reports, after⟩ := h.similar.performAll Registers.faithful_id alike commands loads
  rw [Report.under_id, List.map_id, List.map_id] at reports
  exact ⟨reports, of_similar after⟩

end Session.Matched

/-! ### A bus on loan, and functions over a bus -/

/-- What a host does to the bus that its machine has on loan. -/
def Lent.modify (change : β → β) (lent : Lent β) : Lent β where
  owned := change lent.owned

/-- What a host does to the state that two functions share. -/
def Callbacks.modify (change : β → β) (callbacks : Callbacks β) : Callbacks β :=
  { callbacks with state := change callbacks.state }

/-- The same session on a bus made from its own, where its host does to that bus what it would do to its own. -/
def Session.mapBus (make : β → γ) (modify : (β → β) → γ → γ) (s : Session β) : Session γ :=
  let ⟨⟨settings, accepted, regs, ⟨bus, record⟩, phase, budget⟩, answers, polls, note⟩ := s
  { machine := ⟨settings, accepted, regs, ⟨make bus, record⟩, phase, budget⟩
    answers := answers
    polls := polls
    note := fun answer => modify (note answer) }

theorem Session.matched_mapBus (s : Session β) (make : β → γ) (modify : (β → β) → γ → γ)
    (related : ∀ b, R b (make b)) (modified : ∀ change b c, R b c → R (change b) (modify change c)) :
    Session.Matched R s (s.mapBus make modify) :=
  ⟨⟨⟨rfl, related _, rfl⟩, rfl, rfl, rfl⟩, rfl, rfl, fun answer => modified (s.note answer)⟩

/-- A bus on loan is driven as its owner would be. -/
theorem Lent.alike_owned [Bus β] : Bus.Alike fun (b : β) (lent : Lent β) => lent.owned = b where
  byte b lent address h := by
    subst h
    rfl
  read b lent address h := by
    subst h
    rfl
  write b lent address value h := by
    subst h
    rfl

theorem Callbacks.alike_over [Bus β] :
    Bus.Alike fun (b : β) (callbacks : Callbacks β) => callbacks = Callbacks.over b where
  byte b callbacks address h := by
    subst h
    rfl
  read b callbacks address h := by
    subst h
    rfl
  write b callbacks address value h := by
    subst h
    rfl

/-- **Only the bus contract counts.** Buses, perhaps of different kinds, are in a relation under which they
answer alike. Two sessions on them, with the same registers, settings, phase, budget and answers and the same
record of accesses, are given the same commands; what their hosts do to the buses when they are asked, and
memory loaded behind the buses, if any, keeps them in the relation. Then they report the same (steps, cycles,
bytes and all that happened), and end with the same registers, settings, phase, budget, answers, number of
questions and record, and on buses in the relation. So do a session on a bus, one on that bus on loan, and one
on the functions that read and write it: the owner finds the bus in the state in which the first session left
its own, and so do the functions. -/
theorem Session.bus_contract {β γ : Type} [Bus β] [Backed β] [Bus γ] [Backed γ] {R : β → γ → Prop}
    (alike : Bus.Alike R) {s : Session β} {t : Session γ} (h : Session.Matched R s t)
    (commands : List Command)
    (loads : ∀ address bytes, .load address bytes ∈ commands →
      ∀ b c, R b c → R (Backed.load b address bytes) (Backed.load c address bytes)) :
    let own := s.performAll commands
    let other := t.performAll commands
    let lent := (s.mapBus Lent.mk Lent.modify).performAll commands
    let called := (s.mapBus Callbacks.over Callbacks.modify).performAll commands
    (own.1 = other.1 ∧ Session.Matched R own.2 other.2) ∧
    (own.1 = lent.1 ∧ Session.Matched (fun b lent => lent.owned = b) own.2 lent.2) ∧
    (own.1 = called.1 ∧ Session.Matched (fun b callbacks => callbacks = Callbacks.over b) own.2 called.2) := by
  intro own other lent called
  have onLoan : Session.Matched (fun b (lent : Lent β) => lent.owned = b) s (s.mapBus Lent.mk Lent.modify) :=
    s.matched_mapBus Lent.mk Lent.modify (fun _ => rfl) fun change _ _ same => congrArg change same
  have onCallbacks : Session.Matched (fun b (callbacks : Callbacks β) => callbacks = Callbacks.over b) s
      (s.mapBus Callbacks.over Callbacks.modify) :=
    s.matched_mapBus Callbacks.over Callbacks.modify (fun _ => rfl) fun change _ _ same =>
      congrArg (Callbacks.modify change) same
  refine ⟨h.performAll alike commands loads,
    onLoan.performAll Lent.alike_owned commands fun address bytes _ b lent same => ?_,
    onCallbacks.performAll Callbacks.alike_over commands fun address bytes _ b callbacks same => ?_⟩
  · subst same
    rfl
  · subst same
    rfl

/-! ### A board with its devices in another order -/

namespace Board

def reverse (b : Board) : Board :=
  { b with devices := b.devices.reverse }

variable (b : Board)

theorem has_reverse (kind : DeviceKind) (address : Word) : b.reverse.has kind address = b.has kind address :=
  List.any_reverse

theorem cell_reverse (address : Word) : b.reverse.cell address = b.cell address := by
  unfold cell
  rw [has_reverse]

theorem afterRead_reverse (address : Word) (value : Byte) :
    b.reverse.afterRead address value = b.afterRead address value := by
  unfold afterRead
  rw [has_reverse, has_reverse]

theorem read_reverse (address : Word) :
    Bus.read b.reverse address = ((Bus.read b address).1, (Bus.read b address).2.reverse) := by
  have memory : b.reverse.memory = b.memory := rfl
  unfold Bus.read instBus
  simp only [memory, afterRead_reverse, cell_reverse]
  by_cases unchanged : b.afterRead address (b.memory.get (b.cell address)) = b.memory.get (b.cell address)
  · rw [if_pos unchanged, if_pos unchanged]
  · rw [if_neg unchanged, if_neg unchanged]
    rfl

theorem write_reverse (address : Word) (value : Byte) :
    Bus.write b.reverse address value = (Bus.write b address value).reverse := by
  unfold Bus.write instBus
  simp only [has_reverse, cell_reverse]
  by_cases rom : b.has .rom address = true
  · rw [if_pos rom, if_pos rom]
  · rw [if_neg rom, if_neg rom]
    rfl

/-- The order in which the devices of a board are named makes no difference. -/
theorem alike_reverse : Bus.Alike fun (b c : Board) => c = b.reverse where
  byte b c address h := by
    rw [h, read_reverse]
  read b c address h := by
    rw [h, read_reverse]
  write b c address value h := by
    rw [h, write_reverse]

end Board

/-- A counter, a latch that overlaps it, and ROM, named in this order and in the other. The host shares the
memory and leaves a byte in the latch whenever it is asked. -/
theorem Session.bus_contract_devices_reversed :
    let counter : Device := ⟨.counter, 0x0010, 0x001F⟩
    let latch : Device := ⟨.clear, 0x0018, 0x0020⟩
    let rom : Device := ⟨.rom, 0xFF00, 0xFFFF⟩
    let session (devices : List Device) : Session Board :=
      { machine :=
          { settings := ⟨⟨1000000⟩, 16⟩, accepted := by decide, regs := .powerOn
            bus := .fresh ⟨.blank, devices⟩, phase := .running, budget := 16 }
        answers := [.proceed, .nmi, .stop, .irq]
        polls := 0
        note := fun _ board => Bus.write board 0x0018 0x01 }
    let R (b c : Board) : Prop := c = b.reverse
    let s := session [counter, latch, rom]
    let t := session [rom, latch, counter]
    let commands : List Command :=
      [.request .irq, .step 3, .run, .load 0x0010 [0xE6, 0x18], .reset, .request .nmi, .run]
    Session.Matched R s t ∧
    (∀ address bytes, .load address bytes ∈ commands →
      ∀ b c, R b c → R (Backed.load b address bytes) (Backed.load c address bytes)) ∧
    (s.performAll commands).1 = (t.performAll commands).1 ∧
    Session.Matched R (s.performAll commands).2 (t.performAll commands).2 ∧
    (s.performAll commands).1 = ((s.mapBus Lent.mk Lent.modify).performAll commands).1 ∧
    ((s.mapBus Lent.mk Lent.modify).performAll commands).2.machine.bus.bus.owned =
      (s.performAll commands).2.machine.bus.bus := by
  intro counter latch rom session R s t commands
  have noted : ∀ answer b c, R b c → R (s.note answer b) (t.note answer c) := fun answer b c reversed =>
    Board.alike_reverse.write b c 0x0018 0x01 reversed
  have matched : Session.Matched R s t := ⟨⟨⟨rfl, rfl, rfl⟩, rfl, rfl, rfl⟩, rfl, rfl, noted⟩
  have loads : ∀ address bytes, .load address bytes ∈ commands →
      ∀ b c, R b c → R (Backed.load b address bytes) (Backed.load c address bytes) := by
    intro address bytes _ b c reversed
    rw [show c = b.reverse from reversed]
    rfl
  obtain ⟨⟨reports, after⟩, ⟨lent, owner⟩, -⟩ := bus_contract Board.alike_reverse matched commands loads
  exact ⟨matched, loads, reports, after, lent, owner.machine.bus.bus⟩

end Nmos6502
