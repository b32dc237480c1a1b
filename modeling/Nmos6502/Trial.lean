/-
# Trials of one instruction

To survey an instruction over many operand values, it is executed again and
again on one machine: the instruction is written at $0200, the operand value is
written after the opcode or, if the mode is not immediate, at $0010, and A, X
and Y are set to one value. Memory and the stack pointer are left as they come
from one trial to the next.
-/
import Nmos6502.Machine
import Nmos6502.Memory
import Nmos6502.Opcode

namespace Nmos6502

/-- The instruction on trial, and P as it is set before each trial. -/
structure Trial where
  opcode : Byte
  flags : Byte
  deriving DecidableEq, Repr

/-- What a trial leaves. -/
structure TrialResult where
  regs : Registers
  /-- The byte at $0010. -/
  cell : Byte
  deriving DecidableEq, Repr

namespace Trial

/-- Where the instruction is written. -/
def origin : Word := 0x0200

def place : Byte := 0x10

def isImmediate (t : Trial) : Bool :=
  (Instruction.decode t.opcode).mode == .immediate

/-- One trial, with A, X and Y set to `start`. -/
def execute (t : Trial) (start operand : Byte) : StateM (Machine Memory) TrialResult := fun m =>
  let ⟨settings, accepted, regs, memory, phase, budget⟩ := m
  let program := [t.opcode, if t.isImmediate then operand else place, 0]
  let memory := (memory.load origin program).set (zeroPage place) operand
  let regs :=
    { regs with a := start, x := start, y := start, p := Status.loaded t.flags, pc := origin }
  let m := (Machine.mk settings accepted regs memory phase budget).step.2
  ({ regs := m.regs, cell := m.bus.get (zeroPage place) }, m)

/-- A row of trials for each start value, one trial for each operand value in it. -/
def survey (t : Trial) (starts operands : List Byte) : StateM (Machine Memory) (List (List TrialResult)) :=
  starts.mapM fun start => operands.mapM fun operand => t.execute start operand

/-- The survey on a machine at power-on with blank memory. -/
def surveyFresh (t : Trial) (starts operands : List Byte) :
    Except SettingsError (List (List TrialResult)) := do
  let m ← Machine.make Settings.usual Memory.blank
  return (t.survey starts operands m).1

end Trial
end Nmos6502
