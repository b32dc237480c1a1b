/-
# What an instruction does, whole

`Effect` tells of each family of operations all that a step does on any bus:
the operand bytes it fetches, its accesses besides, and the registers it
leaves. What the bus answers is free; everything else is told by the registers
before and by the bytes that were read. The other bytes of an instruction
follow its opcode at once, but for JSR, which fetches the last of them when it
has pushed (`Operation.inOrder`).

`Machine.step_effect` says that every step is such, documented or not. What
instructions leave alone (`Operation.Spares`), and where they lead, is read off
the rules and needs no second look at the processor.
-/
import Nmos6502.Proofs.DataSide

namespace Nmos6502

def Registers.past : Nat → Registers → Registers
  | 0, r => r
  | n + 1, r => past n { r with pc := r.pc + 1 }

theorem Registers.past_eq : ∀ (n : Nat) (r : Registers),
    r.past n = { r with pc := r.pc + BitVec.ofNat 16 n }
  | 0, r => by
    show r = { r with pc := r.pc + 0#16 }
    rw [BitVec.add_zero]
  | n + 1, r => by
    rw [past, past_eq n, add_one_add_ofNat]

/-! ### Rules -/

/-- The number of bytes an instruction fetches after its opcode. BRK has no operand and fetches one
all the same. -/
def Operation.operandCount (mode : AddressingMode) : Operation → Nat
  | .breakIn => 1
  | _ => mode.operandLength

/-- The bytes of an instruction are fetched before it makes its other accesses. JSR alone fetches its
last byte when it is done with the others. -/
def Operation.inOrder (start : Word) (bytes : List Byte) (data : List Activity) :
    Operation → List Activity
  | .call => fetches start (bytes.take 2) ++ data ++ fetches (start + 2) (bytes.drop 2)
  | _ => fetches start bytes ++ data

/-- An instruction with its opcode where PC points to, its operand bytes, its accesses besides, and the
registers afterwards. -/
inductive Effect (r : Registers) (mode : AddressingMode) (operands : List Byte) :
    Operation → List Activity → Registers → Prop where
  /-- The operand is the byte after the opcode. -/
  | immediate (apply : Byte → Registers → Registers) (value : Byte) :
      mode = .immediate → operands = [value] →
      Effect r mode operands (.read apply) [] (apply value (r.past 2))
  | read (apply : Byte → Registers → Registers) (value : Byte) {finding : List Activity}
      {address : Word} : Finds r.x r.y .read mode operands finding address →
      Effect r mode operands (.read apply) (finding ++ [.read address value])
        (apply value (r.past (operands.length + 1)))
  | store (source : Registers → Byte) {finding : List Activity} {address : Word} :
      Finds r.x r.y .write mode operands finding address →
      Effect r mode operands (.store source) (finding ++ [.write address (source (r.past 1))])
        (r.past (operands.length + 1))
  /-- A is the operand. -/
  | accumulator (apply : Byte → Status → Byte × Status) : mode = .accumulator → operands = [] →
      Effect r mode operands (.modify apply) []
        { r.past 1 with a := (apply r.a r.p).1, p := (apply r.a r.p).2 }
  | modify (apply : Byte → Status → Byte × Status) (value : Byte) {finding : List Activity}
      {address : Word} : mode ≠ .accumulator → Finds r.x r.y .modify mode operands finding address →
      Effect r mode operands (.modify apply)
        (finding ++ [.read address value, .write address value, .write address (apply value r.p).1])
        { r.past (operands.length + 1) with p := (apply value r.p).2 }
  | internal (apply : Registers → Registers) : operands = [] →
      Effect r mode operands (.internal apply) [] (apply (r.past 1))
  | push (source : Registers → Byte) : operands = [] →
      Effect r mode operands (.push source) [.write (stackPage r.s) (source (r.past 1))]
        { r.past 1 with s := r.s - 1 }
  | pull (apply : Byte → Registers → Registers) (value : Byte) : operands = [] →
      Effect r mode operands (.pull apply) [.read (stackPage (r.s + 1)) value]
        (apply value { r.past 1 with s := r.s + 1 })
  | taken {taken : Status → Bool} (distance : Byte) : taken r.p = true → operands = [distance] →
      Effect r mode operands (.branch taken) []
        { r with pc := (r.past 2).pc + distance.signExtend 16 }
  | notTaken {taken : Status → Bool} (distance : Byte) : taken r.p = false → operands = [distance] →
      Effect r mode operands (.branch taken) [] (r.past 2)
  | jump {finding : List Activity} {target : Word} :
      Finds r.x r.y .read mode operands finding target →
      Effect r mode operands .jump finding { r.past (operands.length + 1) with pc := target }
  /-- What is pushed is the address of the byte that is still to be fetched. -/
  | call (low high : Byte) : operands = [low, high] →
      Effect r mode operands .call
        [.write (stackPage r.s) (r.past 2).pc.high, .write (stackPage (r.s - 1)) (r.past 2).pc.low]
        { r with s := r.s - 1 - 1, pc := Word.ofBytes low high }
  | comeBack (low high : Byte) : operands = [] →
      Effect r mode operands .comeBack
        [.read (stackPage (r.s + 1)) low, .read (stackPage (r.s + 1 + 1)) high]
        { r with s := r.s + 1 + 1, pc := Word.ofBytes low high + 1 }
  | endInterrupt (flags low high : Byte) : operands = [] →
      Effect r mode operands .endInterrupt
        [.read (stackPage (r.s + 1)) flags, .read (stackPage (r.s + 1 + 1)) low,
          .read (stackPage (r.s + 1 + 1 + 1)) high]
        { r with s := r.s + 1 + 1 + 1, pc := Word.ofBytes low high, p := Status.pulled flags }
  /-- The byte after the opcode is fetched and not used. -/
  | breakIn (signature low high : Byte) : operands = [signature] →
      Effect r mode operands .breakIn
        [.write (stackPage r.s) (r.past 2).pc.high, .write (stackPage (r.s - 1)) (r.past 2).pc.low,
          .write (stackPage (r.s - 1 - 1)) r.p.pushedByBreak, .read irqVector low,
          .read (irqVector + 1) high]
        { r with
          s := r.s - 1 - 1 - 1
          pc := Word.ofBytes low high
          p := { r.p with interruptDisable := true } }
  | undocumented : Effect r mode operands .undocumented [] (r.past (operands.length + 1))

/-! ### The processor keeps to them -/

open Dialogue

theorem Registers.locate_past (r : Registers) (mode : AddressingMode) (usage : Usage) :
    (r.locate mode usage).Yields fun found => found.regs = r.past mode.operandLength := by
  unfold locate
  cases mode with
  | implied | accumulator => rfl
  | immediate | zeroPage | relative => exact fun _ => rfl
  | zeroPageX | zeroPageY | absolute => exact fun _ _ => rfl
  | indirect | indexedIndirect => exact fun _ _ _ _ => rfl
  | absoluteX =>
    intro _ _
    refine Yields.bind_of_forall (fun _ => ?_) (indexed _ r.x usage)
    exact rfl
  | absoluteY =>
    intro _ _
    refine Yields.bind_of_forall (fun _ => ?_) (indexed _ r.y usage)
    exact rfl
  | indirectIndexed =>
    intro _ _ _
    refine Yields.bind_of_forall (fun _ => ?_) (indexed _ r.y usage)
    exact rfl

/-- Where the operand of a mode lies in memory, its address is found by the accesses of the mode, and PC is past
its bytes then. -/
theorem Registers.locate_found (r : Registers) (usage : Usage) {mode : AddressingMode}
    (inMemory : mode.inMemory = true) :
    (r.locate mode usage).Shows fun seen found =>
      (∃ operands finding address, operands.length = mode.operandLength ∧
        seen = fetches r.pc operands ++ finding ∧ Finds r.x r.y usage mode operands finding address ∧
        found.operand = .memory address ∧ found.regs.p = r.p) ∧
      found.regs = r.past mode.operandLength :=
  (r.locate_finds usage inMemory).and_yields (r.locate_past mode usage)

theorem Registers.skip_fetches : ∀ (n : Nat) (r : Registers),
    (skip n r).Shows fun seen after =>
      ∃ bytes, bytes.length = n ∧ seen = fetches r.pc bytes ∧ after = r.past n
  | 0, r => ⟨[], rfl, rfl, rfl⟩
  | n + 1, r => by
    intro value
    refine (skip_fetches n { r with pc := r.pc + 1 }).mono ?_
    rintro _ _ ⟨bytes, length, rfl, rfl⟩
    exact ⟨value :: bytes, congrArg (· + 1) length, rfl, rfl⟩

/-- An instruction, its opcode having been fetched, does what the rules say. -/
theorem Instruction.perform_effect (i : Instruction) (r : Registers)
    (takes : i.mnemonic.operation ≠ .undocumented → i.mnemonic.operation.takes i.mode = true) :
    (i.perform (r.past 1)).Shows fun seen out =>
      ∃ operands data, operands.length = i.mnemonic.operation.operandCount i.mode ∧
        .read r.pc i.opcode :: seen =
          i.mnemonic.operation.inOrder r.pc (i.opcode :: operands) data ∧
        Effect r i.mode operands i.mnemonic.operation data out.1 := by
  have second : r.pc + 1 + 1 = r.pc + 2 := BitVec.add_assoc r.pc 1 1
  obtain ⟨opcode, m, mode⟩ := i
  dsimp only at takes
  unfold Instruction.perform
  dsimp only
  generalize m.operation = operation at takes
  -- Where the operand lies in memory PC is past its bytes when the address is known; what the operation then
  -- does on the bus is of its own family.
  cases operation with
  | read apply =>
    rcases Operation.mode_of_read (takes nofun) with rfl | memory
    · exact fun value => ⟨[value], [], rfl, rfl, .immediate apply value rfl rfl⟩
    · refine ((r.past 1).locate_found .read memory).bind ?_
      rintro _ ⟨_, crossed, _⟩ ⟨⟨operands, finding, address, length, rfl, finds, rfl, -⟩, rfl⟩
      intro value
      rw [← length]
      exact ⟨operands, _, length, congrArg _ (List.append_assoc _ _ _), .read apply value finds⟩
  | store source =>
    refine ((r.past 1).locate_found .write (Operation.inMemory_of_store (takes nofun))).bind ?_
    rintro _ ⟨_, crossed, _⟩ ⟨⟨operands, finding, address, length, rfl, finds, rfl, -⟩, rfl⟩
    rw [← length]
    exact ⟨operands, _, length, congrArg _ (List.append_assoc _ _ _), .store source finds⟩
  | modify apply =>
    by_cases accumulator : mode = .accumulator
    · obtain rfl := accumulator
      exact ⟨[], [], rfl, rfl, .accumulator apply rfl rfl⟩
    · have memory := Operation.inMemory_of_modify (takes nofun) accumulator
      refine ((r.past 1).locate_found .modify memory).bind ?_
      rintro _ ⟨_, crossed, _⟩ ⟨⟨operands, finding, address, length, rfl, finds, rfl, flags⟩, rfl⟩
      intro value
      rw [← length] at flags ⊢
      have same : (Registers.past operands.length (r.past 1)).p = r.p := flags
      have effect := Effect.modify (r := r) apply value accumulator finds
      rw [← same] at effect
      exact ⟨operands, _, length, congrArg _ (List.append_assoc _ _ _), effect⟩
  | internal apply =>
    obtain rfl := eq_of_beq (takes nofun)
    exact ⟨[], [], rfl, rfl, .internal apply rfl⟩
  | push source =>
    obtain rfl := eq_of_beq (takes nofun)
    exact ⟨[], [_], rfl, rfl, .push source rfl⟩
  | pull apply =>
    obtain rfl := eq_of_beq (takes nofun)
    exact fun value => ⟨[], [_], rfl, rfl, .pull apply value rfl⟩
  | branch taken =>
    obtain rfl := eq_of_beq (takes nofun)
    show ((r.past 1).branch .relative (taken (r.past 1).p)).Shows _
    generalize jumps : taken (r.past 1).p = on
    cases on with
    | true => exact fun distance => ⟨[distance], [], rfl, rfl, .taken distance jumps rfl⟩
    | false => exact fun distance => ⟨[distance], [], rfl, rfl, .notTaken distance jumps rfl⟩
  | jump =>
    refine ((r.past 1).locate_found .read (Operation.inMemory_of_jump (takes nofun))).bind ?_
    rintro _ ⟨_, crossed, _⟩ ⟨⟨operands, finding, target, length, rfl, finds, rfl, -⟩, rfl⟩
    rw [← length]
    exact ⟨operands, _, length, congrArg _ (List.append_nil _), .jump finds⟩
  | call =>
    obtain rfl := eq_of_beq (takes nofun)
    intro low high
    refine ⟨[low, high], [_, _], rfl, ?_, .call low high rfl⟩
    rw [Operation.inOrder, ← second]
    rfl
  | comeBack =>
    obtain rfl := eq_of_beq (takes nofun)
    exact fun low high => ⟨[], [_, _], rfl, rfl, .comeBack low high rfl⟩
  | endInterrupt =>
    obtain rfl := eq_of_beq (takes nofun)
    exact fun flags low high => ⟨[], [_, _, _], rfl, rfl, .endInterrupt flags low high rfl⟩
  | breakIn =>
    obtain rfl := eq_of_beq (takes nofun)
    intro signature low high
    exact ⟨[signature], [_, _, _, _, _], rfl, rfl, .breakIn signature low high rfl⟩
  | undocumented =>
    refine (shows_map _ _).mpr (((r.past 1).skip_fetches mode.operandLength).mono ?_)
    rintro _ _ ⟨operands, length, rfl, rfl⟩
    rw [← length]
    exact ⟨operands, [], length, congrArg _ (List.append_nil _).symm, .undocumented⟩

/-! ### Steps -/

/-- **What a step does, whole.** It fetches the bytes of its instruction, makes the other accesses of
its operation, and leaves the registers the operation leaves, and this for every opcode. -/
theorem Machine.step_effect {β : Type} [Bus β] (m : Machine β) :
    let i := m.step.1.instruction
    ∃ operands data, operands.length = i.mnemonic.operation.operandCount i.mode ∧
      m.seenInStep = i.mnemonic.operation.inOrder m.regs.pc (i.opcode :: operands) data ∧
      Effect m.regs i.mode operands i.mnemonic.operation data m.step.2.regs := by
  intro i
  have decoded : i = Instruction.decode (Bus.read m.bus m.regs.pc).1 := m.instruction_step
  have takes : i.mnemonic.operation ≠ .undocumented → i.mnemonic.operation.takes i.mode = true := by
    rw [decoded]
    exact DataSheet.takes_decode rfl
  have performed := (i.perform_effect m.regs takes).on (Bus.read m.bus m.regs.pc).2
  rw [m.seenInStep_eq, m.step_eq]
  rw [decoded] at performed ⊢
  exact performed

/-! ### What is left alone -/

section

variable {γ : Type} (view : Registers → γ)

/-- An operation does to no register file what could be seen in a view of it, apart from moving PC
past the instruction. -/
def Operation.Spares (mode : AddressingMode) : Operation → Prop
  | .read apply => ∀ v r, view (apply v r) = view r
  | .modify _ => mode = .accumulator → ∀ r a, view { r with a := a } = view r
  | .internal apply => ∀ r, view (apply r) = view r
  | .push _ => ∀ r s, view { r with s := s } = view r
  | .pull apply => ∀ v r s, view (apply v { r with s := s }) = view r
  | .branch _ | .jump => ∀ r pc, view { r with pc := pc } = view r
  | .call | .comeBack | .endInterrupt | .breakIn =>
    ∀ r s pc, view { r with s := s, pc := pc } = view r
  | .store _ | .undocumented => True

variable {view} {r after : Registers} {mode : AddressingMode} {operands : List Byte}
  {operation : Operation} {data : List Activity}

/-- What an operation spares is as before, PC being past the instruction. The flags must not be in the
view. -/
theorem Effect.spares (effect : Effect r mode operands operation data after)
    (flags : ∀ r p, view { r with p := p } = view r) (spares : operation.Spares view mode) :
    view after = view (r.past (operands.length + 1)) := by
  -- Wherever PC does not end up there, the view has no part of it.
  have elsewhere (blind : ∀ pc, view { r with pc := pc } = view r) :
      view r = view (r.past (operands.length + 1)) := by
    rw [Registers.past_eq]
    exact (blind _).symm
  cases effect with
  | immediate apply value _ one =>
    rw [one]
    exact spares value _
  | read apply value => exact spares value _
  | store | undocumented => rfl
  | accumulator apply accumulator none =>
    rw [none]
    exact (flags { r.past 1 with a := (apply r.a r.p).1 } _).trans (spares accumulator _ _)
  | modify => exact flags _ _
  | internal apply none =>
    rw [none]
    exact spares _
  | push source none =>
    rw [none]
    exact spares _ _
  | pull apply value none =>
    rw [none]
    exact spares value _ _
  | taken => exact (spares r _).trans (elsewhere (spares r))
  | notTaken distance _ one =>
    rw [one]
    rfl
  | jump => exact spares _ _
  | call | comeBack => exact (spares r _ _).trans (elsewhere (spares r r.s))
  | endInterrupt flags' low high =>
    exact (flags { r with s := r.s + 1 + 1 + 1, pc := Word.ofBytes low high } _).trans
      ((spares r _ _).trans (elsewhere (spares r r.s)))
  | breakIn signature low high =>
    exact (flags { r with s := r.s - 1 - 1 - 1, pc := Word.ofBytes low high } _).trans
      ((spares r _ _).trans (elsewhere (spares r r.s)))

end

end Nmos6502
