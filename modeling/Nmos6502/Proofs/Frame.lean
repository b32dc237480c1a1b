/-
# What an instruction may change

The data sheet says of each flag which instructions affect it, and what is not
listed is left alone, whatever the operand and wherever it lies. The same goes
for A, X, Y and S. `Flag.writers` and `Register.writers` are these lists, and
`Machine.step_frame` holds every step to them.

N and Z tell of a result. In most instructions it is the byte that a register
ends up with; an instruction that changes memory leaves its result at the
operand's address, with its last write; a comparison leaves it nowhere, so it
has to be computed again (`ResultPlace`). BIT, PLP and RTI take N and Z from
somewhere else. In decimal mode the two flags of ADC and SBC do not tell of
what A ends up with.
-/
import Nmos6502.Proofs.Effect

namespace Nmos6502

/-! ### Flags -/

/-- The instructions that may change a flag. -/
def Flag.writers : Flag → List Mnemonic
  | .carry => [.adc, .sbc, .cmp, .cpx, .cpy, .asl, .lsr, .rol, .ror, .clc, .sec, .plp, .rti]
  | .overflow => [.adc, .sbc, .bit, .clv, .plp, .rti]
  | .interruptDisable => [.cli, .sei, .brk, .plp, .rti]
  | .decimal => [.cld, .sed, .plp, .rti]
  | .breakMark | .reserved => [.plp, .rti]
  | .negative | .zero =>
    [.lda, .ldx, .ldy, .adc, .sbc, .and, .ora, .eor, .bit, .cmp, .cpx, .cpy, .asl, .lsr, .rol, .ror,
      .inc, .dec, .inx, .iny, .dex, .dey, .tax, .tay, .txa, .tya, .tsx, .pla, .plp, .rti]

theorem Arithmetic.get_add {flag : Flag} (other : Mnemonic.adc ∉ flag.writers) (a v : Byte)
    (p : Status) : (add a v p).2.get flag = p.get flag := by
  unfold add
  cases flag with
  | carry | zero | overflow | negative => exact absurd (by decide) other
  | interruptDisable | decimal | breakMark | reserved =>
    split
    · rfl
    · rfl

/-- Operations keep the flags in whose lists they are not. -/
theorem Mnemonic.keepsFlag {m : Mnemonic} {flag : Flag} (other : m ∉ flag.writers) (on : Bool) :
    m.operation.Keeps fun p => p.get flag = on := by
  cases m with
  | lda | ldx | ldy | and | ora | eor | pla =>
    cases flag with
    | zero | negative => exact absurd (by decide) other
    | _ => exact fun _ _ kept => kept
  | adc => exact fun v r kept => (Arithmetic.get_add other r.a v r.p).trans kept
  | sbc =>
    cases flag with
    | carry | zero | overflow | negative => exact absurd (by decide) other
    | _ => exact fun _ _ kept => kept
  | cmp | cpx | cpy =>
    cases flag with
    | carry | zero | negative => exact absurd (by decide) other
    | _ => exact fun _ _ kept => kept
  | bit =>
    cases flag with
    | zero | overflow | negative => exact absurd (by decide) other
    | _ => exact fun _ _ kept => kept
  | asl | lsr | rol | ror =>
    cases flag with
    | carry | zero | negative => exact absurd (by decide) other
    | _ => exact fun _ _ kept => kept
  | inc | dec =>
    cases flag with
    | zero | negative => exact absurd (by decide) other
    | _ => exact fun _ _ kept => kept
  | inx | iny | dex | dey | tax | tay | txa | tya | tsx =>
    cases flag with
    | zero | negative => exact absurd (by decide) other
    | _ => exact fun _ kept => kept
  | clc | sec =>
    cases flag with
    | carry => exact absurd (by decide) other
    | _ => exact fun _ kept => kept
  | cli | sei | brk =>
    cases flag with
    | interruptDisable => exact absurd (by decide) other
    | _ => exact fun _ kept => kept
  | cld | sed =>
    cases flag with
    | decimal => exact absurd (by decide) other
    | _ => exact fun _ kept => kept
  | clv =>
    cases flag with
    | overflow => exact absurd (by decide) other
    | _ => exact fun _ kept => kept
  | plp | rti => cases flag <;> exact absurd (by decide) other
  | txs | nop => exact fun _ kept => kept
  | sta | stx | sty | pha | php | bpl | bmi | bvc | bvs | bcc | bcs | bne | beq | jmp | jsr | rts
  | illegal => exact trivial

/-! ### Registers -/

inductive Register where
  | a
  | x
  | y
  | s
  deriving DecidableEq, Repr

def Registers.get (r : Registers) : Register → Byte
  | .a => r.a
  | .x => r.x
  | .y => r.y
  | .s => r.s

/-- The instructions that may change a register, but for those that have A as their operand. -/
def Register.writers : Register → List Mnemonic
  | .a => [.lda, .adc, .sbc, .and, .ora, .eor, .txa, .tya, .pla]
  | .x => [.ldx, .inx, .dex, .tax, .tsx]
  | .y => [.ldy, .iny, .dey, .tay]
  | .s => [.txs, .pha, .php, .pla, .plp, .jsr, .rts, .rti, .brk]

def Mnemonic.shifts : List Mnemonic :=
  [.asl, .lsr, .rol, .ror]

/-- Only they have A as an operand to be changed. -/
theorem Instruction.shifts_of_accumulator (opcode : Byte) :
    (decode opcode).mode = .accumulator → (decode opcode).mnemonic ∈ Mnemonic.shifts := by
  revert opcode
  decide

/-- Operations spare the registers in whose lists they are not. -/
theorem Mnemonic.sparesRegister {m : Mnemonic} {mode : AddressingMode} {register : Register}
    (other : m ∉ register.writers) (memory : register = .a → mode ≠ .accumulator) :
    m.operation.Spares (·.get register) mode := by
  cases m with
  | lda | adc | sbc | and | ora | eor =>
    cases register with
    | a => exact absurd (by decide) other
    | x | y | s => exact fun _ _ => rfl
  | ldx =>
    cases register with
    | x => exact absurd (by decide) other
    | a | y | s => exact fun _ _ => rfl
  | ldy =>
    cases register with
    | y => exact absurd (by decide) other
    | a | x | s => exact fun _ _ => rfl
  | cmp | cpx | cpy | bit => cases register <;> exact fun _ _ => rfl
  | asl | lsr | rol | ror | inc | dec =>
    intro accumulator
    cases register with
    | a => exact absurd accumulator (memory rfl)
    | x | y | s => exact fun _ _ => rfl
  | txa | tya =>
    cases register with
    | a => exact absurd (by decide) other
    | x | y | s => exact fun _ => rfl
  | inx | dex | tax | tsx =>
    cases register with
    | x => exact absurd (by decide) other
    | a | y | s => exact fun _ => rfl
  | iny | dey | tay =>
    cases register with
    | y => exact absurd (by decide) other
    | a | x | s => exact fun _ => rfl
  | txs =>
    cases register with
    | s => exact absurd (by decide) other
    | a | x | y => exact fun _ => rfl
  | clc | sec | cli | sei | cld | sed | clv | nop => cases register <;> exact fun _ => rfl
  | pha | php =>
    cases register with
    | s => exact absurd (by decide) other
    | a | x | y => exact fun _ _ => rfl
  | pla =>
    cases register with
    | a | s => exact absurd (by decide) other
    | x | y => exact fun _ _ _ => rfl
  | plp | jsr | rts | rti | brk =>
    cases register with
    | s => exact absurd (by decide) other
    | a | x | y => exact fun _ _ _ => rfl
  | bpl | bmi | bvc | bvs | bcc | bcs | bne | beq | jmp => cases register <;> exact fun _ _ => rfl
  | sta | stx | sty | illegal => exact trivial

/-! ### N and Z -/

/-- The flags tell of a result: Z if it is zero, N if it is $80 or more. -/
def Status.Tells (p : Status) (result : Byte) : Prop :=
  (p.zero = true ↔ result = 0) ∧ (p.negative = true ↔ 128 ≤ result.toNat)

theorem Status.tells_withResult (p : Status) (result : Byte) : (p.withResult result).Tells result := by
  constructor
  · exact beq_iff_eq
  · show result.msb = true ↔ _
    rw [BitVec.msb_eq_decide, decide_eq_true_iff]

/-- Where the result is that N and Z tell of. -/
inductive ResultPlace where
  /-- In a register. -/
  | register (register : Register)
  /-- At the operand's address, where it is written last. -/
  | memory
  /-- Nowhere: it is what remains of a register if the operand is taken off. -/
  | difference (register : Register)
  deriving DecidableEq, Repr

def AddressingMode.resultPlace (mode : AddressingMode) : ResultPlace :=
  if mode = .accumulator then .register .a else .memory

/-- Where an instruction that sets N and Z has its result. -/
def Mnemonic.resultPlace? (mode : AddressingMode) : Mnemonic → Option ResultPlace
  | .lda | .adc | .sbc | .and | .ora | .eor | .txa | .tya | .pla => some (.register .a)
  | .ldx | .inx | .dex | .tax | .tsx => some (.register .x)
  | .ldy | .iny | .dey | .tay => some (.register .y)
  | .asl | .lsr | .rol | .ror | .inc | .dec => some mode.resultPlace
  | .cmp => some (.difference .a)
  | .cpx => some (.difference .x)
  | .cpy => some (.difference .y)
  | _ => none

/-- N and Z, as an operation leaves them, tell of the byte that it leaves at a place. -/
def Operation.Tells (mode : AddressingMode) (flags : Status) : Operation → ResultPlace → Prop
  | .read apply, .register register =>
    ∀ v r, r.p = flags → (apply v r).p.Tells ((apply v r).get register)
  | .read apply, .difference register => ∀ v r, (apply v r).p.Tells (r.get register - v)
  | .modify apply, place => place = mode.resultPlace ∧ ∀ v p, (apply v p).2.Tells (apply v p).1
  | .internal apply, .register register => ∀ r, (apply r).p.Tells ((apply r).get register)
  | .pull apply, .register register => ∀ v r, (apply v r).p.Tells ((apply v r).get register)
  | _, _ => False

theorem Mnemonic.tells {m : Mnemonic} {mode : AddressingMode} {flags : Status} {place : ResultPlace}
    (has : m.resultPlace? mode = some place) (binary : m = .adc ∨ m = .sbc → flags.decimal = false) :
    m.operation.Tells mode flags place := by
  cases m with
  | lda | ldx | ldy | and | ora | eor =>
    cases has
    exact fun _ r _ => r.p.tells_withResult _
  | adc =>
    cases has
    rintro v r rfl
    show (Arithmetic.add r.a v r.p).2.Tells (Arithmetic.add r.a v r.p).1
    rw [Arithmetic.add_of_clear (binary (.inl rfl))]
    exact r.p.tells_withResult _
  | sbc =>
    cases has
    rintro v r rfl
    show (Arithmetic.subtract r.a v r.p).2.Tells (Arithmetic.subtract r.a v r.p).1
    rw [Arithmetic.subtract_of_clear (binary (.inr rfl))]
    exact r.p.tells_withResult _
  | cmp | cpx | cpy =>
    cases has
    exact fun _ r => r.p.tells_withResult _
  | asl | lsr | rol | ror | inc | dec =>
    cases has
    exact ⟨rfl, fun _ p => p.tells_withResult _⟩
  | inx | iny | dex | dey | tax | tay | txa | tya | tsx =>
    cases has
    exact fun r => r.p.tells_withResult _
  | pla =>
    cases has
    exact fun _ r => r.p.tells_withResult _
  | _ => nomatch has

/-- Whatever has N and Z in its list has a result, but for the three that take them from elsewhere. -/
theorem Mnemonic.exists_resultPlace {m : Mnemonic} (writes : m ∈ Flag.zero.writers)
    (result : m ∉ [.bit, .plp, .rti]) (mode : AddressingMode) :
    ∃ place, m.resultPlace? mode = some place := by
  cases m with
  | bit | plp | rti => exact absurd (by decide) result
  | bcc | bcs | beq | bmi | bne | bpl | bvc | bvs | brk | clc | cld | cli | clv | jmp | jsr | nop | pha
  | php | rts | sec | sed | sei | sta | stx | sty | txs | illegal => exact absurd writes (by decide)
  | _ => exact ⟨_, rfl⟩

/-! ### Steps -/

namespace Machine

variable {β : Type} [Bus β] (m : Machine β)

/-- A step keeps the flags that its instruction is not listed for. -/
theorem flag_step {flag : Flag} (other : m.step.1.instruction.mnemonic ∉ flag.writers) :
    m.step.2.regs.p.get flag = m.regs.p.get flag :=
  keeps_step (Mnemonic.keepsFlag other (m.regs.p.get flag)) rfl

theorem register_step {register : Register}
    (other : m.step.1.instruction.mnemonic ∉ register.writers)
    (memory : register = .a → m.step.1.instruction.mode ≠ .accumulator) :
    m.step.2.regs.get register = m.regs.get register := by
  obtain ⟨operands, data, -, -, effect⟩ := m.step_effect
  have spared := effect.spares (fun _ _ => by cases register <;> rfl)
    (Mnemonic.sparesRegister other memory)
  rw [Registers.past_eq] at spared
  refine spared.trans ?_
  cases register <;> rfl

/-- The byte that a step leaves at a place. -/
def ResultAt (m : Machine β) : ResultPlace → Byte → Prop
  | .register register, result => result = m.step.2.regs.get register
  | .memory, result =>
    ∃ operands finding address value,
      Finds m.regs.x m.regs.y .modify m.step.1.instruction.mode operands finding address ∧
      m.seenInStep = fetches m.regs.pc (m.step.1.instruction.opcode :: operands) ++
        (finding ++ [.read address value, .write address value, .write address result])
  | .difference register, result => result = m.regs.get register - m.lastRead

theorem step_tells {place : ResultPlace}
    (tells : m.step.1.instruction.mnemonic.operation.Tells m.step.1.instruction.mode m.regs.p place) :
    ∃ result, m.ResultAt place result ∧ m.step.2.regs.p.Tells result := by
  obtain ⟨operands, data, -, seen, effect⟩ := m.step_effect
  generalize stands : m.step.1.instruction.mnemonic.operation = operation at *
  cases operation with
  | read apply =>
    obtain ⟨pc, taken⟩ := m.step_takes stands
    cases place with
    | register register =>
      refine ⟨_, rfl, ?_⟩
      rw [taken]
      exact tells _ _ rfl
    | difference register =>
      refine ⟨_, rfl, ?_⟩
      rw [taken]
      have told := tells m.lastRead { m.regs with pc := pc }
      cases register <;> exact told
    | memory => exact tells.elim
  | modify apply =>
    obtain ⟨rfl, told⟩ := tells
    unfold AddressingMode.resultPlace
    by_cases accumulator : m.step.1.instruction.mode = .accumulator
    · rw [if_pos accumulator]
      refine ⟨_, rfl, ?_⟩
      generalize m.step.2.regs = after at effect ⊢
      cases effect with
      | accumulator => exact told m.regs.a m.regs.p
      | modify _ _ other => exact absurd accumulator other
    · rw [if_neg accumulator]
      generalize m.step.2.regs = after at effect ⊢
      cases effect with
      | accumulator _ same => exact absurd same accumulator
      | modify _ value _ finds =>
        exact ⟨_, ⟨operands, _, _, value, finds, seen⟩, told value m.regs.p⟩
  | internal apply =>
    cases place with
    | register register =>
      refine ⟨_, rfl, ?_⟩
      generalize m.step.2.regs = after at effect ⊢
      cases effect with
      | internal => exact tells _
    | memory | difference => exact tells.elim
  | pull apply =>
    cases place with
    | register register =>
      refine ⟨_, rfl, ?_⟩
      generalize m.step.2.regs = after at effect ⊢
      cases effect with
      | pull _ value => exact tells value _
    | memory | difference => exact tells.elim
  | _ => cases place <;> exact tells.elim

/-- **What a step may change.** A flag changes only in an instruction of its list, and so do A, X, Y and
S, A also where it is the operand of a shift or rotate. Where N and Z are set, they tell of the result of
the instruction, but for BIT, PLP and RTI and for ADC and SBC in decimal mode. This holds on every bus,
and undocumented instructions are in no list. -/
theorem step_frame (m : Machine β) :
    let i := Instruction.decode (Bus.read m.bus m.regs.pc).1
    let before := m.regs
    let after := m.step.2.regs
    (∀ flag, after.p.get flag ≠ before.p.get flag → i.mnemonic ∈ flag.writers) ∧
    (∀ register, after.get register ≠ before.get register → i.mnemonic ∈ register.writers ∨
      register = .a ∧ i.mnemonic ∈ Mnemonic.shifts ∧ i.mode = .accumulator) ∧
    (i.mnemonic ∈ Flag.zero.writers → i.mnemonic ∉ [.bit, .plp, .rti] →
      (i.mnemonic = .adc ∨ i.mnemonic = .sbc → before.p.decimal = false) →
      ∃ place result, i.mnemonic.resultPlace? i.mode = some place ∧ m.ResultAt place result ∧
        after.p.Tells result) := by
  intro i before after
  have shifts : i.mode = .accumulator → i.mnemonic ∈ Mnemonic.shifts :=
    Instruction.shifts_of_accumulator _
  have same : i = m.step.1.instruction := m.instruction_step.symm
  rw [same] at shifts ⊢
  refine ⟨fun flag changed => ?_, fun register changed => ?_, fun writes result binary => ?_⟩
  · exact Decidable.byContradiction fun other => changed (m.flag_step other)
  · refine Decidable.byContradiction fun other => ?_
    obtain ⟨unlisted, operand⟩ := not_or.mp other
    exact changed (m.register_step unlisted fun a accumulator =>
      operand ⟨a, shifts accumulator, accumulator⟩)
  · obtain ⟨place, has⟩ := Mnemonic.exists_resultPlace writes result m.step.1.instruction.mode
    obtain ⟨byte, here, told⟩ := m.step_tells (Mnemonic.tells has binary)
    exact ⟨place, byte, has, here, told⟩

end Machine
end Nmos6502
