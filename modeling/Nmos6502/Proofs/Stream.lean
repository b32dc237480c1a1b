/-
# The bytes of a program

A step takes the bytes of its instruction from PC on, each once, and goes on
right after them, unless it is its purpose to go on elsewhere. This is so for
all 256 opcodes: the undocumented ones step over as many bytes as the matrix
gives them. BRK alone takes a byte that is no operand.

Where a step leads can be told by the bytes it read (`LeadsTo`). A branch looks at
the one flag its mnemonic names (`Mnemonic.condition?`). What else goes
elsewhere takes PC from two bytes, low byte first: JMP and JSR from their
operand or from where it points to, RTS and RTI from the stack, BRK from the
vector. Addresses are words, so all this goes round from $FFFF to $0000.
-/
import Nmos6502.Proofs.Effect

namespace Nmos6502

/-- The flag a branch looks at, and the value at which it is taken. -/
def Mnemonic.condition? : Mnemonic → Option (Flag × Bool)
  | .bpl => some (.negative, false)
  | .bmi => some (.negative, true)
  | .bvc => some (.overflow, false)
  | .bvs => some (.overflow, true)
  | .bcc => some (.carry, false)
  | .bcs => some (.carry, true)
  | .bne => some (.zero, false)
  | .beq => some (.zero, true)
  | _ => none

def Mnemonic.jumping : List Mnemonic :=
  [.jmp, .jsr, .rts, .rti, .brk]

/-- Where PC is after an instruction, by its operand bytes and its other accesses. -/
inductive LeadsTo (r : Registers) (mode : AddressingMode) (operands : List Byte) :
    Mnemonic → List Activity → Word → Prop where
  | onward {m : Mnemonic} (data : List Activity) : m ∉ Mnemonic.jumping → m.condition? = none →
      LeadsTo r mode operands m data (r.pc + BitVec.ofNat 16 (operands.length + 1))
  | notTaken {m : Mnemonic} {flag : Flag} {on : Bool} : m.condition? = some (flag, on) →
      r.p.get flag ≠ on → LeadsTo r mode operands m [] (r.pc + BitVec.ofNat 16 (operands.length + 1))
  | taken {m : Mnemonic} {flag : Flag} {on : Bool} (distance : Byte) :
      m.condition? = some (flag, on) → r.p.get flag = on → operands = [distance] →
      LeadsTo r mode operands m [] (BitVec.ofInt 16 (r.pc.toNat + 2 + distance.toInt))
  | jump (low high : Byte) : mode = .absolute → operands = [low, high] →
      LeadsTo r mode operands .jmp [] (Word.ofBytes low high)
  /-- The second byte is read on the page of the first. -/
  | jumpIndirect (l h low high : Byte) : mode = .indirect → operands = [l, h] →
      LeadsTo r mode operands .jmp
        [.read (Word.ofBytes l h) low, .read (Word.ofBytes (l + 1) h) high] (Word.ofBytes low high)
  | call (low high : Byte) (pushed : List Activity) : operands = [low, high] →
      LeadsTo r mode operands .jsr pushed (Word.ofBytes low high)
  | comeBack (low high : Byte) :
      LeadsTo r mode operands .rts
        [.read (stackPage (r.s + 1)) low, .read (stackPage (r.s + 1 + 1)) high]
        (Word.ofBytes low high + 1)
  | endInterrupt (flags low high : Byte) :
      LeadsTo r mode operands .rti
        [.read (stackPage (r.s + 1)) flags, .read (stackPage (r.s + 1 + 1)) low,
          .read (stackPage (r.s + 1 + 1 + 1)) high] (Word.ofBytes low high)
  | breakIn (low high : Byte) (pushed : List Activity) :
      LeadsTo r mode operands .brk (pushed ++ [.read 0xFFFE low, .read 0xFFFF high])
        (Word.ofBytes low high)

/-! ### The operations -/

theorem Mnemonic.operandCount_eq (m : Mnemonic) (mode : AddressingMode) :
    m.operation.operandCount mode = if m = .brk then 1 else mode.operandLength := by
  cases m <;> rfl

theorem Mnemonic.operation_of_condition {m : Mnemonic} {flag : Flag} {on : Bool}
    (condition : m.condition? = some (flag, on)) :
    m.operation = .branch fun p => p.get flag == on := by
  cases m with
  | bpl | bvc | bcc | bne =>
    cases condition
    exact congrArg Operation.branch (funext fun _ => (beq_false _).symm)
  | bmi | bvs | bcs | beq =>
    cases condition
    exact congrArg Operation.branch (funext fun _ => (beq_true _).symm)
  | _ => nomatch condition

theorem Mnemonic.sparesPC {m : Mnemonic} (steady : m ∉ jumping) (unconditional : m.condition? = none)
    (mode : AddressingMode) : m.operation.Spares Registers.pc mode := by
  cases m with
  | jmp | jsr | rts | rti | brk => exact absurd (by decide) steady
  | bpl | bmi | bvc | bvs | bcc | bcs | bne | beq => nomatch unconditional
  | lda | ldx | ldy | adc | sbc | and | ora | eor | cmp | cpx | cpy | bit => exact fun _ _ => rfl
  | asl | lsr | rol | ror | inc | dec => exact fun _ _ _ => rfl
  | inx | iny | dex | dey | tax | tay | txa | tya | tsx | txs | clc | sec | cli | sei | cld | sed | clv
  | nop => exact fun _ => rfl
  | pha | php => exact fun _ _ => rfl
  | pla | plp => exact fun _ _ _ => rfl
  | sta | stx | sty | illegal => exact trivial

/-- What an instruction does tells where it leads. -/
theorem Effect.leadsTo {r after : Registers} {mode : AddressingMode} {operands : List Byte}
    {m : Mnemonic} {data : List Activity} (effect : Effect r mode operands m.operation data after)
    (takes : m.operation ≠ .undocumented → m.operation.takes mode = true) :
    LeadsTo r mode operands m data after.pc := by
  -- Those that put what they read into PC differ in what that is. Of the others only a branch that is taken
  -- does more to PC than step over the instruction.
  by_cases jumps : m ∈ Mnemonic.jumping
  · cases m with
    | jmp =>
      rcases (Bool.or_eq_true _ _).mp (takes nofun) with absolute | indirect
      · obtain rfl := eq_of_beq absolute
        cases effect with
        | jump finds =>
          cases finds with
          | absolute low high => exact .jump low high rfl rfl
      · obtain rfl := eq_of_beq indirect
        cases effect with
        | jump finds =>
          cases finds with
          | indirect l h low high => exact .jumpIndirect l h low high rfl rfl
    | jsr =>
      cases effect with
      | call low high two => exact .call low high _ two
    | rts =>
      cases effect with
      | comeBack low high => exact .comeBack low high
    | rti =>
      cases effect with
      | endInterrupt flags low high => exact .endInterrupt flags low high
    | brk =>
      cases effect with
      | breakIn signature low high => exact .breakIn low high [_, _, _]
    | _ => exact absurd jumps (by decide)
  · cases condition : m.condition? with
    | none =>
      have spared := effect.spares (fun _ _ => rfl) (Mnemonic.sparesPC jumps condition mode)
      rw [spared, Registers.past_eq]
      exact .onward data jumps condition
    | some named =>
      obtain ⟨flag, on⟩ := named
      rw [Mnemonic.operation_of_condition condition] at effect
      cases effect with
      | taken distance holds one =>
        have target : r.pc + 1 + 1 + distance.signExtend 16 =
            BitVec.ofInt 16 (r.pc.toNat + 2 + distance.toInt) := by
          have behind : r.pc + 1 + 1 = BitVec.ofNat 16 (r.pc.toNat + 2) := by
            rw [BitVec.add_assoc, ← Word.add_ofNat]
            rfl
          rw [BitVec.ofInt_add, behind]
          rfl
        show LeadsTo r mode operands m [] (r.pc + 1 + 1 + distance.signExtend 16)
        rw [target]
        exact .taken distance condition (eq_of_beq holds) one
      | notTaken distance fails one =>
        have onward : LeadsTo r mode operands m [] (r.pc + BitVec.ofNat 16 (operands.length + 1)) :=
          .notTaken condition (ne_of_beq_false fails)
        rw [one] at onward ⊢
        rw [Registers.past_eq]
        exact onward

namespace Machine

variable {β : Type} [Bus β]

/-- **The instruction stream.** At every opcode, documented or not, a step fetches the bytes of the
instruction from PC on, in ascending order and each once, two of them for BRK; its other accesses are
those of its operation. It leaves PC after these bytes, or where a jump, a return, BRK or a branch that is
taken leads. -/
theorem step_stream (m : Machine β) :
    let i := Instruction.decode (Bus.read m.bus m.regs.pc).1
    ∃ operands data,
      1 + operands.length = (if i.mnemonic = .brk then 2 else i.length) ∧
      m.seenInStep = i.mnemonic.operation.inOrder m.regs.pc (i.opcode :: operands) data ∧
      Effect m.regs i.mode operands i.mnemonic.operation data m.step.2.regs ∧
      LeadsTo m.regs i.mode operands i.mnemonic data m.step.2.regs.pc := by
  intro i
  obtain ⟨operands, data, length, seen, effect⟩ := m.step_effect
  rw [m.instruction_step] at length seen effect
  refine ⟨operands, data, ?_, seen, effect, effect.leadsTo (DataSheet.takes_decode rfl)⟩
  rw [length, Mnemonic.operandCount_eq]
  split
  · rfl
  · rfl

/-- JSR $2021 across the end of the memory. -/
example :
    let m : Machine Rom :=
      { settings := ⟨⟨1000000⟩, 16⟩, accepted := by decide
        regs := { Registers.powerOn with pc := 0xFFFE }
        bus := ⟨fun address => if address = 0xFFFF then 0x21 else 0x20⟩
        phase := .running, budget := 16 }
    m.seenInStep =
      [.read 0xFFFE 0x20, .read 0xFFFF 0x21, .write 0x01FD 0x00, .write 0x01FC 0x00,
        .read 0x0000 0x20] ∧
    m.step.2.regs.pc = 0x2021 := by
  decide +kernel

end Machine
end Nmos6502
