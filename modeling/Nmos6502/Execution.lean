/-
# Executing an instruction

A step fetches an opcode, decodes it, finds the operand and does the operation,
all in one dialogue with the bus. It costs the base cycles of the opcode and
what page crossings and taken branches add. The entry into an interrupt handler
and the reset are dialogues too.
-/
import Nmos6502.Interrupt
import Nmos6502.Opcode
import Nmos6502.Operand
import Nmos6502.Operation

namespace Nmos6502

/-! ### The families of operations -/

/-- Registers after part of a step, and the cycles that part costs beyond the base cycles. -/
abbrev Outcome := Registers × Nat

namespace Outcome

def plain (r : Registers) : Outcome := (r, 0)

end Outcome

namespace Registers

/-- Read the operand and take it into the registers. -/
def readOperand (r : Registers) (mode : AddressingMode) (apply : Byte → Registers → Registers) :
    Dialogue Outcome := do
  let found ← r.locate mode .read
  let value ← found.regs.load found.operand
  return (apply value found.regs, found.crossed.toNat)

def storeOperand (r : Registers) (mode : AddressingMode) (value : Byte) : Dialogue Outcome := do
  let found ← r.locate mode .write
  match found.operand with
  | .memory address => do
    Dialogue.writeByte address value
    return .plain found.regs
  | _ => return .plain found.regs

/-- Replace the operand. In memory the old value is written back before the new one. -/
def modifyOperand (r : Registers) (mode : AddressingMode)
    (apply : Byte → Status → Byte × Status) : Dialogue Outcome := do
  let found ← r.locate mode .modify
  let r := found.regs
  match found.operand with
  | .accumulator =>
    let (result, p) := apply r.a r.p
    return .plain { r with a := result, p := p }
  | .memory address => do
    let value ← Dialogue.readByte address
    Dialogue.writeByte address value
    let (result, p) := apply value r.p
    Dialogue.writeByte address result
    return .plain { r with p := p }
  | _ => return .plain r

/-- Jump a signed distance from the next instruction, if `taken`. A taken branch costs a cycle, and
one more if it leads to another page. -/
def branch (r : Registers) (mode : AddressingMode) (taken : Bool) : Dialogue Outcome := do
  let found ← r.locate mode .read
  let r := found.regs
  match found.operand with
  | .displacement distance =>
    if taken then
      let target := r.pc + distance.signExtend 16
      return ({ r with pc := target }, if Word.samePage r.pc target then 1 else 2)
    else
      return .plain r
  | _ => return .plain r

def jump (r : Registers) (mode : AddressingMode) : Dialogue Outcome := do
  let found ← r.locate mode .read
  match found.operand with
  | .memory target => return .plain { found.regs with pc := target }
  | _ => return .plain found.regs

/-- JSR. PC is pushed between the two operand bytes, so what is pushed is the address of the last
byte of the instruction. -/
def call (r : Registers) : Dialogue Outcome := do
  let (low, r) ← r.fetch
  let r ← r.pushPC
  let (high, r) ← r.fetch
  return .plain { r with pc := Word.ofBytes low high }

/-- RTS. PC is one past the address that was pushed. -/
def comeBack (r : Registers) : Dialogue Outcome := do
  let (address, r) ← r.pullWord
  return .plain { r with pc := address + 1 }

def endInterrupt (r : Registers) : Dialogue Outcome := do
  let (flags, r) ← r.pull
  let (address, r) ← { r with p := Status.pulled flags }.pullWord
  return .plain { r with pc := address }

/-- Push PC and a status byte, set I, and go on at the address stored at a vector. -/
def enterAt (r : Registers) (vector : Word) (flags : Byte) : Dialogue Registers := do
  let r ← r.pushPC
  let r ← r.push flags
  let handler ← Dialogue.readWord vector
  return { r with pc := handler, p.interruptDisable := true }

/-- BRK. The byte after the opcode is fetched and ignored. -/
def breakIn (r : Registers) : Dialogue Outcome := do
  let (_, r) ← r.fetch
  let r ← r.enterAt irqVector r.p.pushedByBreak
  return .plain r

end Registers

/-! ### Instructions -/

/-- Do what an instruction says, its opcode having been fetched. -/
def Instruction.perform (i : Instruction) (r : Registers) : Dialogue Outcome :=
  match i.mnemonic.operation with
  | .read apply => r.readOperand i.mode apply
  | .store source => r.storeOperand i.mode (source r)
  | .modify apply => r.modifyOperand i.mode apply
  | .internal apply => return .plain (apply r)
  | .push source => Outcome.plain <$> r.push (source r)
  | .pull apply => do
    let (value, r) ← r.pull
    return .plain (apply value r)
  | .branch taken => r.branch i.mode (taken r.p)
  | .jump => r.jump i.mode
  | .call => r.call
  | .comeBack => r.comeBack
  | .endInterrupt => r.endInterrupt
  | .breakIn => r.breakIn
  | .undocumented => Outcome.plain <$> Registers.skip i.mode.operandLength r

/-- An instruction that has been executed, with the address of its opcode and what it cost. The address is PC
as it is before the opcode is fetched. The log names an undocumented instruction by PC afterwards less its
length, which is the same address (`Machine.fetched_undocumented`). -/
structure Executed where
  address : Word
  instruction : Instruction
  cycles : Nat
  deriving DecidableEq, Repr

namespace Registers

def step (r : Registers) : Dialogue (Executed × Registers) := do
  let address := r.pc
  let (opcode, r) ← r.fetch
  let instruction := Instruction.decode opcode
  let (r, extra) ← instruction.perform r
  return ({ address := address, instruction := instruction, cycles := baseCycles opcode + extra }, r)

theorem two_le_cycles_step {β : Type} [Bus β] (r : Registers) (bus : β) :
    2 ≤ (r.step.on bus).1.1.cycles := by
  simp only [step, fetch, Dialogue.on_bind, Dialogue.pure_eq, Dialogue.on_done]
  exact Nat.le_add_right_of_le (two_le_baseCycles _)

/-! ### Interrupts and reset -/

def enter (r : Registers) (kind : Interrupt) : Dialogue Registers :=
  r.enterAt kind.vector r.p.pushedByInterrupt

/-- The registers after a reset: as at power-on, PC from the reset vector. -/
def reset : Dialogue Registers := do
  let entry ← Dialogue.readWord resetVector
  return { powerOn with pc := entry }

end Registers
end Nmos6502
