/-
# Undocumented opcodes

An opcode that the data sheet does not list is stepped over: its bytes are
fetched, as many as its column has on the chip, and nothing else happens. This
holds on any bus and in any state of the machine, and the cycles are those of
the table, whatever the operand bytes are.

So a stretch of memory with nothing but such instructions, laid end to end, is
stepped over as a whole. The induction is on the stretch: the next instruction
begins where PC is after the one before, also past the top of memory.
-/
import Nmos6502.Proofs.Effect
import Nmos6502.Proofs.Stepwise

namespace Nmos6502

/-! ### The opcodes -/

/-- The sheet has no mnemonic for the opcode. -/
def DataSheet.Undocumented (opcode : Byte) : Prop :=
  ∀ mnemonic mode, (mode, opcode) ∉ opcodes mnemonic

theorem DataSheet.undocumented_iff {opcode : Byte} :
    Undocumented opcode ↔ (Instruction.decode opcode).mnemonic = .illegal := by
  constructor
  · intro undocumented
    refine Classical.byContradiction fun documented => ?_
    exact undocumented _ _ ((mem_opcodes_iff _ _ opcode).mpr ⟨rfl, documented⟩)
  · intro illegal mnemonic mode listed
    obtain ⟨decoded, documented⟩ := (mem_opcodes_iff mnemonic mode opcode).mp listed
    rw [decoded] at illegal
    exact documented illegal

instance : DecidablePred DataSheet.Undocumented :=
  fun _ => decidable_of_iff _ DataSheet.undocumented_iff.symm

example : (List.range 256).countP (fun n => DataSheet.Undocumented (BitVec.ofNat 8 n)) = 105 := by
  decide +kernel

/-! ### One of them -/

namespace Machine

/-- To step over an undocumented instruction moves PC past it and does nothing else to the machine, apart
from what its bus does when the bytes are fetched. -/
theorem step_undocumented {β : Type} [Bus β] (m : Machine β) {opcode : Byte}
    (fetched : (Bus.read m.bus m.regs.pc).1 = opcode) (undocumented : DataSheet.Undocumented opcode) :
    let length := (Instruction.decode opcode).length
    m.step.2 = { m with
      regs := { m.regs with pc := m.regs.pc + BitVec.ofNat 16 length }
      bus := m.step.2.bus } ∧
    (∃ operands, operands.length + 1 = length ∧ m.seenInStep = fetches m.regs.pc (opcode :: operands)) ∧
    m.step.1.instruction = Instruction.decode opcode ∧
    m.step.1.cycles = baseCycles opcode := by
  intro length
  have decoded : m.step.1.instruction = Instruction.decode opcode := by
    rw [m.instruction_step, fetched]
  have does : (Instruction.decode opcode).mnemonic.operation = .undocumented := by
    rw [DataSheet.undocumented_iff.mp undocumented]
    rfl
  obtain ⟨operands, data, count, seen, effect⟩ := m.step_effect
  rw [decoded, does] at count seen effect
  have bytes : operands.length + 1 = length := by
    rw [count]
    exact Nat.add_comm _ 1
  generalize left : m.step.2.regs = after at effect
  cases effect
  refine ⟨?_, ⟨operands, bytes, ?_⟩, decoded, ?_⟩
  · rw [m.step_eq] at left ⊢
    dsimp only at left ⊢
    rw [left, Registers.past_eq, bytes]
  · rw [seen]
    exact List.append_nil _
  · have extra := ((Instruction.decode opcode).perform_extra { m.regs with pc := m.regs.pc + 1 }).on
      (Bus.read m.bus m.regs.pc).2
    rw [Instruction.mostExtra, does] at extra
    rw [m.step_eq]
    dsimp only
    rw [fetched, Nat.le_zero.mp extra, Nat.add_zero]

end Machine

/-! ### Many of them -/

/-- Undocumented instructions with these opcodes lie end to end from an address upward. -/
def Memory.LaidOut (memory : Memory) : Word → List Byte → Prop
  | _, [] => True
  | start, opcode :: rest =>
    memory.get start = opcode ∧ DataSheet.Undocumented opcode ∧
      memory.LaidOut (start + BitVec.ofNat 16 (Instruction.decode opcode).length) rest

def Instruction.totalLength (opcodes : List Byte) : Nat :=
  opcodes.foldr (fun opcode rest => (decode opcode).length + rest) 0

def totalCycles (opcodes : List Byte) : Nat :=
  opcodes.foldr (fun opcode rest => baseCycles opcode + rest) 0

namespace Machine

theorem replay_fetches (memory : Memory) : ∀ (start : Word) (bytes : List Byte),
    Dialogue.replay memory (fetches start bytes) = memory
  | _, [] => rfl
  | start, _ :: bytes => replay_fetches memory (start + 1) bytes

theorem step_laidOut {m : Machine Memory} {opcode : Byte} {rest : List Byte}
    (laid : m.bus.LaidOut m.regs.pc (opcode :: rest)) :
    m.step.2 = { m with
      regs := { m.regs with pc := m.regs.pc + BitVec.ofNat 16 (Instruction.decode opcode).length } } := by
  obtain ⟨after, ⟨operands, -, seen⟩, -⟩ := m.step_undocumented laid.1 laid.2.1
  have bus : m.step.2.bus = m.bus := by
    refine (Dialogue.on_memory m.regs.step m.bus).trans ?_
    rw [show m.regs.step.seen m.bus = _ from seen, replay_fetches]
  rw [bus] at after
  exact after

theorem walk_laidOut : ∀ (opcodes : List Byte) (m : Machine Memory), m.bus.LaidOut m.regs.pc opcodes →
    let walk := (Walk.begin m).times opcodes.length
    walk.machine = { m with
      regs := { m.regs with pc := m.regs.pc + BitVec.ofNat 16 (Instruction.totalLength opcodes) } } ∧
    walk.steps.map (fun s => s.executed.instruction) = opcodes.map Instruction.decode ∧
    walk.cycles = totalCycles opcodes
  | [], m, _ => by
    refine ⟨?_, rfl, rfl⟩
    show m = { m with regs := { m.regs with pc := m.regs.pc + 0#16 } }
    rw [BitVec.add_zero]
  | opcode :: rest, m, laid => by
    have one := step_laidOut laid
    obtain ⟨-, -, does, cycles⟩ := m.step_undocumented laid.1 laid.2.1
    obtain ⟨machine, steps, total⟩ := walk_laidOut rest m.step.2 (by
      rw [one]
      exact laid.2.2)
    refine ⟨?_, ?_, ?_⟩
    · rw [List.length_cons, Walk.machine_times_succ, machine, one, BitVec.add_assoc, ← BitVec.ofNat_add]
      rfl
    · rw [List.length_cons, Walk.steps_times_succ, List.map_cons, List.map_cons, steps]
      exact congrArg (· :: _) does
    · rw [List.length_cons, Walk.cycles_times_succ, total, cycles]
      rfl

/-- **Undocumented opcodes do nothing.** On any bus, whatever the registers, the phase and the budget, a
step over one leaves all registers and flags alone but PC, which goes past the instruction; it fetches the
bytes of the instruction and makes no other access; and it takes the cycles of the table. So on plain memory
any number of such instructions, laid end to end, are stepped over with nothing changed but PC, in the
cycles they have in the table. -/
theorem undocumented_spare_all :
    (∀ {β : Type} [Bus β] (m : Machine β), DataSheet.Undocumented (Bus.read m.bus m.regs.pc).1 →
      let opcode := (Bus.read m.bus m.regs.pc).1
      let length := (Instruction.decode opcode).length
      m.step.2 = { m with
        regs := { m.regs with pc := m.regs.pc + BitVec.ofNat 16 length }
        bus := m.step.2.bus } ∧
      (∃ operands, operands.length + 1 = length ∧
        m.seenInStep = fetches m.regs.pc (opcode :: operands)) ∧
      m.step.1.cycles = baseCycles opcode) ∧
    ∀ (m : Machine Memory) (opcodes : List Byte), m.bus.LaidOut m.regs.pc opcodes →
      let walk := (Walk.begin m).times opcodes.length
      walk.machine = { m with
        regs := { m.regs with pc := m.regs.pc + BitVec.ofNat 16 (Instruction.totalLength opcodes) } } ∧
      walk.cycles = totalCycles opcodes := by
  refine ⟨?_, ?_⟩
  · intro β _ m undocumented
    obtain ⟨after, seen, -, cycles⟩ := m.step_undocumented rfl undocumented
    exact ⟨after, seen, cycles⟩
  · intro m opcodes laid
    obtain ⟨machine, -, cycles⟩ := walk_laidOut opcodes m laid
    exact ⟨machine, cycles⟩

/-- Three of them across the top of memory: opcode $1F has its high operand byte at $0000, $02 is a byte
long, and $80 has an operand byte. -/
theorem undocumented_spare_all_across_top :
    let memory := Memory.ofFn fun address =>
      if address = 0xFFFE then 0x1F else if address = 0x0001 then 0x02
      else if address = 0x0002 then 0x80 else 0xFF
    let m : Machine Memory :=
      { settings := ⟨⟨1000000⟩, 16⟩, accepted := by decide
        regs := { Registers.powerOn with x := 0xFF, pc := 0xFFFE }
        bus := memory, phase := .pending .irq, budget := -3 }
    let opcodes := [0x1F, 0x02, 0x80]
    DataSheet.Undocumented (Bus.read m.bus m.regs.pc).1 ∧ m.bus.LaidOut m.regs.pc opcodes ∧
    m.step.2.regs = { m.regs with pc := 0x0001 } ∧ m.step.1.cycles = 7 ∧
    ((Walk.begin m).times 3).machine = { m with regs := { m.regs with pc := 0x0004 } } ∧
    ((Walk.begin m).times 3).cycles = 11 := by
  intro memory
  have bytes : ∀ address, memory.get address =
      if address = 0xFFFE then 0x1F else if address = 0x0001 then 0x02
      else if address = 0x0002 then 0x80 else 0xFF := Memory.get_ofFn _
  clear_value memory
  intro m opcodes
  have first : (Bus.read m.bus m.regs.pc).1 = 0x1F := bytes 0xFFFE
  have second : (0xFFFE : Word) + BitVec.ofNat 16 (Instruction.decode 0x1F).length = 0x0001 := by decide
  have third : (0x0001 : Word) + BitVec.ofNat 16 (Instruction.decode 0x02).length = 0x0002 := by decide
  have behind : (0xFFFE : Word) + BitVec.ofNat 16 (Instruction.totalLength opcodes) = 0x0004 := by decide
  have laid : memory.LaidOut 0xFFFE opcodes := by
    refine ⟨bytes 0xFFFE, by decide, ?_⟩
    rw [second]
    refine ⟨bytes 0x0001, by decide, ?_⟩
    rw [third]
    exact ⟨bytes 0x0002, by decide, trivial⟩
  have undocumented : DataSheet.Undocumented (Bus.read m.bus m.regs.pc).1 := by
    rw [first]
    decide
  obtain ⟨one, many⟩ := undocumented_spare_all
  obtain ⟨after, -, cycles⟩ := one m undocumented
  obtain ⟨machine, total⟩ := many m opcodes laid
  rw [first] at after cycles
  refine ⟨undocumented, laid, ?_, cycles, ?_, total⟩
  · rw [after]
    exact congrArg (fun pc => { m.regs with pc := pc }) second
  · refine machine.trans ?_
    exact congrArg (fun pc => { m with regs := { m.regs with pc := pc } }) behind

end Machine
end Nmos6502
