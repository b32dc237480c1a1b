/-
# Operations

A mnemonic stands for what is done with an operand, the registers and the
stack. Most operations differ only in a function on bytes and flags; how they
use the bus depends on the family alone. So an operation is a family with, in
most families, the function that makes the difference.
-/
import Nmos6502.Arithmetic
import Nmos6502.Instruction
import Nmos6502.Registers

namespace Nmos6502

/-- What an instruction does, by the way it uses the bus. -/
inductive Operation where
  /-- Read the operand and take it into the registers. -/
  | read (apply : Byte → Registers → Registers)
  /-- Write a register to the operand's place. -/
  | store (source : Registers → Byte)
  /-- Replace the operand, in memory or in A, by a function of it. -/
  | modify (apply : Byte → Status → Byte × Status)
  /-- Change registers only. -/
  | internal (apply : Registers → Registers)
  /-- Push a byte. -/
  | push (source : Registers → Byte)
  /-- Pull a byte and take it into the registers. -/
  | pull (apply : Byte → Registers → Registers)
  /-- Jump a distance if the flags say so. -/
  | branch (taken : Status → Bool)
  /-- Jump. -/
  | jump
  /-- Jump, and push where to come back to. -/
  | call
  /-- Go back to after a call. -/
  | comeBack
  /-- Go back to where an interrupt came. -/
  | endInterrupt
  /-- Enter the IRQ handler as if interrupted. -/
  | breakIn
  /-- Step over the operand bytes. -/
  | undocumented

namespace Registers

/-! ### Results into registers -/

def loadA (v : Byte) (r : Registers) : Registers :=
  { r with a := v, p := r.p.withResult v }

def loadX (v : Byte) (r : Registers) : Registers :=
  { r with x := v, p := r.p.withResult v }

def loadY (v : Byte) (r : Registers) : Registers :=
  { r with y := v, p := r.p.withResult v }

/-- A takes the result of a function of itself, a byte and the flags. -/
def combineA (f : Byte → Byte → Status → Byte × Status) (v : Byte) (r : Registers) : Registers :=
  let (result, p) := f r.a v r.p
  { r with a := result, p := p }

def compareWith (register : Registers → Byte) (v : Byte) (r : Registers) : Registers :=
  { r with p := Arithmetic.compare (register r) v r.p }

/-- The flags test a byte against A. -/
def testBits (v : Byte) (r : Registers) : Registers :=
  { r with p := Arithmetic.bitTest r.a v r.p }

end Registers

def Mnemonic.operation : Mnemonic → Operation
  | .lda => .read Registers.loadA
  | .ldx => .read Registers.loadX
  | .ldy => .read Registers.loadY
  | .adc => .read (Registers.combineA Arithmetic.add)
  | .sbc => .read (Registers.combineA Arithmetic.subtract)
  | .and => .read fun v r => r.loadA (r.a &&& v)
  | .ora => .read fun v r => r.loadA (r.a ||| v)
  | .eor => .read fun v r => r.loadA (r.a ^^^ v)
  | .cmp => .read (Registers.compareWith Registers.a)
  | .cpx => .read (Registers.compareWith Registers.x)
  | .cpy => .read (Registers.compareWith Registers.y)
  | .bit => .read Registers.testBits
  | .sta => .store Registers.a
  | .stx => .store Registers.x
  | .sty => .store Registers.y
  | .asl => .modify Arithmetic.shiftLeft
  | .lsr => .modify Arithmetic.shiftRight
  | .rol => .modify Arithmetic.rotateLeft
  | .ror => .modify Arithmetic.rotateRight
  | .inc => .modify Arithmetic.increment
  | .dec => .modify Arithmetic.decrement
  | .inx => .internal fun r => r.loadX (r.x + 1)
  | .iny => .internal fun r => r.loadY (r.y + 1)
  | .dex => .internal fun r => r.loadX (r.x - 1)
  | .dey => .internal fun r => r.loadY (r.y - 1)
  | .tax => .internal fun r => r.loadX r.a
  | .tay => .internal fun r => r.loadY r.a
  | .txa => .internal fun r => r.loadA r.x
  | .tya => .internal fun r => r.loadA r.y
  | .tsx => .internal fun r => r.loadX r.s
  | .txs => .internal fun r => { r with s := r.x }
  | .clc => .internal fun r => { r with p.carry := false }
  | .sec => .internal fun r => { r with p.carry := true }
  | .cli => .internal fun r => { r with p.interruptDisable := false }
  | .sei => .internal fun r => { r with p.interruptDisable := true }
  | .cld => .internal fun r => { r with p.decimal := false }
  | .sed => .internal fun r => { r with p.decimal := true }
  | .clv => .internal fun r => { r with p.overflow := false }
  | .nop => .internal id
  | .pha => .push Registers.a
  | .php => .push fun r => r.p.pushedByBreak
  | .pla => .pull Registers.loadA
  | .plp => .pull fun v r => { r with p := Status.pulled v }
  | .bpl => .branch fun p => !p.negative
  | .bmi => .branch fun p => p.negative
  | .bvc => .branch fun p => !p.overflow
  | .bvs => .branch fun p => p.overflow
  | .bcc => .branch fun p => !p.carry
  | .bcs => .branch fun p => p.carry
  | .bne => .branch fun p => !p.zero
  | .beq => .branch fun p => p.zero
  | .jmp => .jump
  | .jsr => .call
  | .rts => .comeBack
  | .rti => .endInterrupt
  | .brk => .breakIn
  | .illegal => .undocumented

/-- The operation only reads its operand. Only such an instruction saves the cycle that fixes up an
indexed address when there is no carry. -/
def Mnemonic.readsOperand (m : Mnemonic) : Bool :=
  match m.operation with
  | .read _ => true
  | _ => false

end Nmos6502
