/-
# Accesses and cycles

On the chip every cycle is an access. The processor makes those accesses that
the operand needs and those that fix up its address, so most instructions show
as many accesses as they take cycles. What is missing elsewhere is told by
`Operation.idle`: the cycle in which a one-byte instruction reads past itself,
those in which the stack pointer moves, and the extra cycles of a branch.

The cycles come from a table, the accesses from the way an operand is found and
used; the data sheet's rule for cycles (`Operation.cycles`) stands between them.
-/
import Nmos6502.Proofs.Documented
import Nmos6502.Proofs.Seen
import Nmos6502.Rom
import Nmos6502.Run

namespace Nmos6502

open Dialogue

/-- The cycles in which nothing is seen on the bus, for an operation in a mode. Those of a branch
depend on the flags, and on the pages of the next instruction and of the one it leads to. -/
def Operation.idle (mode : AddressingMode) (p : Status) (next target : Word) : Operation → Nat
  | .read _ | .store _ | .jump | .breakIn => 0
  | .modify _ => if mode = .accumulator then 1 else 0
  | .internal _ | .push _ | .call => 1
  | .pull _ | .endInterrupt => 2
  | .comeBack => 3
  | .branch taken => if taken p then if Word.samePage next target then 1 else 2 else 0
  | .undocumented => 0

/-! ### Finding the operand -/

/-- The access that fixes up an address costs an instruction that only reads a cycle of its own. -/
theorem indexed_length (base : Word) (index : Byte) (usage : Usage) :
    (indexed base index usage).Shows fun seen out =>
      seen.length = if usage = .read then out.2.toNat else 1 := by
  unfold indexed
  dsimp only
  generalize Word.samePage base (base + index.setWidth 16) = same
  cases same with
  | true =>
    cases usage with
    | read => rfl
    | write | modify => exact fun _ => rfl
  | false =>
    cases usage with
    | read | write | modify => exact fun _ => rfl

theorem Registers.locate_length (r : Registers) (usage : Usage) {mode : AddressingMode}
    (inMemory : mode.inMemory = true) :
    (r.locate mode usage).Shows fun seen found =>
      (∃ address, found.operand = .memory address) ∧
      seen.length + 1 =
        mode.addressCycles + if usage = .read then found.crossed.toNat else mode.crosses.toNat := by
  have fixed : (if usage = .read then false.toNat else false.toNat) = 0 := ite_self _
  unfold Registers.locate
  cases mode with
  | implied | accumulator | immediate | relative => nomatch inMemory
  | zeroPage => exact fun _ => ⟨⟨_, rfl⟩, congrArg (2 + ·) fixed.symm⟩
  | zeroPageX | zeroPageY => exact fun _ _ => ⟨⟨_, rfl⟩, congrArg (3 + ·) fixed.symm⟩
  | absolute => exact fun _ _ => ⟨⟨_, rfl⟩, congrArg (3 + ·) fixed.symm⟩
  | absoluteX | absoluteY =>
    intro _ _
    refine (indexed_length _ _ usage).bind ?_
    rintro fix ⟨address, crossed⟩ length
    refine ⟨⟨_, rfl⟩, ?_⟩
    show (fix ++ []).length + 3 = 3 + if usage = .read then crossed.toNat else 1
    rw [List.append_nil, length, Nat.add_comm]
  | indirect => exact fun _ _ _ _ => ⟨⟨_, rfl⟩, congrArg (5 + ·) fixed.symm⟩
  | indexedIndirect => exact fun _ _ _ _ => ⟨⟨_, rfl⟩, congrArg (5 + ·) fixed.symm⟩
  | indirectIndexed =>
    intro _ _ _
    refine (indexed_length _ _ usage).bind ?_
    rintro fix ⟨address, crossed⟩ length
    refine ⟨⟨_, rfl⟩, ?_⟩
    show (fix ++ []).length + 4 = 4 + if usage = .read then crossed.toNat else 1
    rw [List.append_nil, length, Nat.add_comm]

/-! ### Instructions -/

/-- With the opcode, an instruction shows an access in each of its cycles but the idle ones. -/
theorem Instruction.perform_length (i : Instruction) (r : Registers)
    (takes : i.mnemonic.operation.takes i.mode = true) :
    (i.perform r).Shows fun seen out =>
      1 + seen.length + i.mnemonic.operation.idle i.mode r.p (r.pc + 1) out.1.pc =
        i.mnemonic.operation.cycles i.mode + out.2 := by
  obtain ⟨opcode, m, mode⟩ := i
  dsimp only at takes
  unfold Instruction.perform
  dsimp only
  generalize m.operation = operation at takes
  cases operation with
  | read apply =>
    rcases Operation.mode_of_read takes with rfl | memory
    · exact fun _ => rfl
    · refine (r.locate_length .read memory).bind ?_
      rintro seen ⟨operand, crossed, regs⟩ ⟨⟨address, rfl⟩, length⟩
      intro value
      have count : seen.length + 1 = mode.addressCycles + crossed.toNat := length
      show 1 + (seen ++ [Activity.read address value]).length + 0 = mode.addressCycles + 1 + crossed.toNat
      rw [List.length_append, List.length_singleton]
      omega
  | store source =>
    refine (r.locate_length .write (Operation.inMemory_of_store takes)).bind ?_
    rintro seen ⟨operand, crossed, regs⟩ ⟨⟨address, rfl⟩, length⟩
    have count : seen.length + 1 = mode.addressCycles + mode.crosses.toNat := length
    show 1 + (seen ++ [Activity.write address (source r)]).length + 0 =
      mode.addressCycles + mode.crosses.toNat + 1 + 0
    rw [List.length_append, List.length_singleton]
    omega
  | modify apply =>
    by_cases accumulator : mode = .accumulator
    · obtain rfl := accumulator
      rfl
    · have memory := Operation.inMemory_of_modify takes accumulator
      refine (r.locate_length .modify memory).bind ?_
      rintro seen ⟨operand, crossed, regs⟩ ⟨⟨address, rfl⟩, length⟩
      intro value
      have count : seen.length + 1 = mode.addressCycles + mode.crosses.toNat := length
      show 1 + (seen ++ [Activity.read address value, .write address value, .write address _]).length +
        Operation.idle mode r.p (r.pc + 1) regs.pc (.modify apply) =
          Operation.cycles mode (.modify apply) + 0
      simp only [Operation.idle, Operation.cycles, if_neg accumulator, List.length_append,
        List.length_cons, List.length_nil]
      omega
  | internal apply =>
    rfl
  | push source => rfl
  | pull apply => exact fun _ => rfl
  | branch taken =>
    obtain rfl := eq_of_beq takes
    -- The idle cycles depend on whether the branch is taken, so that is settled first.
    simp only [Operation.idle]
    generalize taken r.p = jumps
    intro distance
    cases jumps with
    | false => rfl
    | true => rfl
  | jump =>
    rcases (Bool.or_eq_true _ _).mp takes with absolute | indirect
    · obtain rfl := eq_of_beq absolute
      exact fun _ _ => rfl
    · obtain rfl := eq_of_beq indirect
      exact fun _ _ _ _ => rfl
  | call => exact fun _ _ => rfl
  | comeBack => exact fun _ _ => rfl
  | endInterrupt => exact fun _ _ _ => rfl
  | breakIn => exact fun _ _ _ => rfl
  | undocumented => nomatch takes

/-! ### Undocumented opcodes and interrupts -/

theorem Registers.skip_length : ∀ (count : Nat) (r : Registers),
    (skip count r).Shows fun seen _ => seen.length = count
  | 0, _ => rfl
  | n + 1, r => by
    intro _
    refine (skip_length n { r with pc := r.pc + 1 }).mono fun seen _ length => ?_
    exact congrArg (· + 1) length

theorem Instruction.perform_length_illegal {i : Instruction} (illegal : i.mnemonic = .illegal)
    (r : Registers) : (i.perform r).Shows fun seen _ => seen.length = i.mode.operandLength := by
  unfold Instruction.perform
  rw [illegal]
  exact (shows_map _ _).mpr (Registers.skip_length i.mode.operandLength r)

/-- An instruction takes no fewer cycles than it has bytes. -/
theorem length_le_baseCycles (opcode : Byte) :
    (Instruction.decode opcode).length ≤ baseCycles opcode := by
  revert opcode
  decide

theorem Registers.enter_length (r : Registers) (kind : Interrupt) :
    (r.enter kind).Shows fun seen _ => seen.length = 5 :=
  fun _ _ => rfl

/-! ### Machines -/

variable {β : Type} [Bus β]

/-- **Accesses and cycles.** A step never shows more accesses than it takes cycles. A documented
instruction shows one in each cycle but the idle ones. To enter the handler of an interrupt shows
five accesses and takes seven cycles. -/
theorem Machine.seenInStep_length (m : Machine β) :
    let i := m.step.1.instruction
    let idle := (DataSheet.operation i.mnemonic).idle i.mode m.regs.p (m.regs.pc + 2) m.step.2.regs.pc
    m.seenInStep.length ≤ m.step.1.cycles ∧
    (i.isDocumented = true → m.seenInStep.length + idle = m.step.1.cycles) ∧
    ∀ kind cycles journal, let r : Run β := { machine := m, cycles := cycles, journal := journal }
      (r.machine.seenInEntry kind).length = 5 ∧ (r.enter kind).cycles.count = cycles.count + 7 := by
  have entry : ∀ kind cycles journal,
      let r : Run β := { machine := m, cycles := cycles, journal := journal }
      (r.machine.seenInEntry kind).length = 5 ∧ (r.enter kind).cycles.count = cycles.count + 7 :=
    fun kind cycles journal => ⟨(m.regs.enter_length kind).on m.bus, rfl⟩
  rw [m.step_eq, m.seenInStep_eq]
  generalize Bus.read m.bus m.regs.pc = fetched
  dsimp only
  generalize decoded : Instruction.decode fetched.1 = i
  generalize opened : ({ m.regs with pc := m.regs.pc + 1 } : Registers) = r
  rw [List.length_cons]
  by_cases illegal : i.mnemonic = .illegal
  · have count : ((i.perform r).seen fetched.2).length = i.mode.operandLength :=
      (Instruction.perform_length_illegal illegal r).on fetched.2
    have bytes : 1 + i.mode.operandLength ≤ baseCycles fetched.1 := by
      rw [← decoded]
      exact length_le_baseCycles fetched.1
    refine ⟨by omega, fun documented => ?_, entry⟩
    rw [Instruction.isDocumented, illegal] at documented
    nomatch documented
  · have listed : (i.mode, fetched.1) ∈ DataSheet.opcodes i.mnemonic := by
      subst decoded
      exact (DataSheet.mem_opcodes_iff _ _ fetched.1).mpr ⟨rfl, illegal⟩
    have takes := DataSheet.takes_of_listed listed
    have base := DataSheet.baseCycles_eq listed
    rw [DataSheet.operation_eq] at takes base ⊢
    have next : m.regs.pc + 2 = r.pc + 1 := by
      subst opened
      exact (BitVec.add_assoc m.regs.pc 1 1).symm
    have flags : m.regs.p = r.p := by rw [← opened]
    rw [next, flags, base]
    have count := (i.perform_length r takes).on fetched.2
    exact ⟨by omega, fun _ => by omega, entry⟩

/-- BNE is taken from $0412 to another page: four cycles, two of them idle. -/
theorem Machine.seenInStep_length_branch :
    let m : Machine Rom :=
      { settings := ⟨⟨1000000⟩, 16⟩, accepted := by decide
        regs := { Registers.powerOn with pc := 0x0410 }
        bus := .uniform 0xD0, phase := .running, budget := 16 }
    let i := m.step.1.instruction
    let idle := (DataSheet.operation i.mnemonic).idle i.mode m.regs.p (m.regs.pc + 2) m.step.2.regs.pc
    i.isDocumented = true ∧ m.step.2.regs.pc = 0x03E2 ∧ idle = 2 ∧ m.step.1.cycles = 4 ∧
    m.seenInStep.length + idle = m.step.1.cycles := by
  intro m i idle
  have documented : i.isDocumented = true := by decide +kernel
  obtain ⟨-, count, -⟩ := m.seenInStep_length
  exact ⟨documented, by decide +kernel, by decide +kernel, by decide +kernel, count documented⟩

end Nmos6502
