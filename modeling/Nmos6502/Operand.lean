/-
# Finding the operand

After the opcode the processor fetches operand bytes, forms an address, and on
the way makes accesses that it does not need: while it adds an index it reads
an address that is not yet right. Those accesses are real, and a device that
reacts to being read reacts to them.

* `$nn,X`, `$nn,Y` and `($nn,X)` read the address on page zero before the index
  is added.
* `$nnnn,X`, `$nnnn,Y` and `($nn),Y` read the address before the carry has
  reached the high byte. An instruction that only reads its operand does so only
  if there is a carry; one that writes does so always.
-/
import Nmos6502.Dialogue
import Nmos6502.Instruction
import Nmos6502.Registers

namespace Nmos6502

/-! ### The program and the stack -/

namespace Registers

/-- Read the byte at PC and step PC past it. -/
def fetch (r : Registers) : Dialogue (Byte × Registers) := do
  let value ← Dialogue.readByte r.pc
  return (value, { r with pc := r.pc + 1 })

/-- Fetch a word, low byte first. -/
def fetchWord (r : Registers) : Dialogue (Word × Registers) := do
  let (low, r) ← r.fetch
  let (high, r) ← r.fetch
  return (Word.ofBytes low high, r)

def skip : Nat → Registers → Dialogue Registers
  | 0, r => return r
  | n + 1, r => do
    let (_, r) ← r.fetch
    skip n r

def push (r : Registers) (value : Byte) : Dialogue Registers := do
  let (slot, r) := r.pushSlot
  Dialogue.writeByte slot value
  return r

/-- Push PC, high byte first. -/
def pushPC (r : Registers) : Dialogue Registers := do
  let r ← r.push r.pc.high
  r.push r.pc.low

def pull (r : Registers) : Dialogue (Byte × Registers) := do
  let (slot, r) := r.pullSlot
  let value ← Dialogue.readByte slot
  return (value, r)

/-- Pull a word, low byte first. -/
def pullWord (r : Registers) : Dialogue (Word × Registers) := do
  let (low, r) ← r.pull
  let (high, r) ← r.pull
  return (Word.ofBytes low high, r)

end Registers

/-! ### Stored addresses -/

/-- The word stored at an address, low byte first. -/
def Dialogue.readWord (address : Word) : Dialogue Word := do
  let low ← Dialogue.readByte address
  let high ← Dialogue.readByte (address + 1)
  return Word.ofBytes low high

/-- The word stored at an address, its high byte taken from the same page: the byte after the last
of a page is the first of that page. -/
def Dialogue.readWordOnPage (address : Word) : Dialogue Word := do
  let low ← Dialogue.readByte address
  let high ← Dialogue.readByte (Word.ofBytes (address.low + 1) address.high)
  return Word.ofBytes low high

/-! ### Operands -/

/-- What an instruction does with its operand. -/
inductive Usage where
  | read
  | write
  | modify
  deriving DecidableEq, Repr

inductive Operand where
  | none
  | accumulator
  | immediate (value : Byte)
  | memory (address : Word)
  | displacement (value : Byte)
  deriving DecidableEq, Repr

/-- An operand that has been found. `crossed` tells that an operand which is only read lies on
another page than the address it was indexed from, which costs a cycle. -/
structure Located where
  operand : Operand
  crossed : Bool
  regs : Registers

namespace Registers

/-- The place on page zero that is `index` from the next byte of the program; the place without the
index is read meanwhile. -/
def zeroPageIndexed (r : Registers) (index : Byte) : Dialogue (Byte × Registers) := do
  let (offset, r) ← r.fetch
  let _ ← Dialogue.readByte (zeroPage offset)
  return (offset + index, r)

end Registers

/-- The address `index` from `base`, and whether that cost a cycle beyond the base cycles. The
address without the carry into the high byte is read meanwhile, unless it is the right one and the
instruction only reads. -/
def indexed (base : Word) (index : Byte) (usage : Usage) : Dialogue (Word × Bool) :=
  let address := base + index.setWidth 16
  let crossed := !Word.samePage base address
  if crossed || usage != .read then do
    let _ ← Dialogue.readByte (Word.ofBytes address.low base.high)
    return (address, crossed && usage == .read)
  else
    return (address, false)

/-- Find the operand of an instruction in the given mode. -/
def Registers.locate (mode : AddressingMode) (usage : Usage) (r : Registers) : Dialogue Located :=
  match mode with
  | .implied => return { operand := .none, crossed := false, regs := r }
  | .accumulator => return { operand := .accumulator, crossed := false, regs := r }
  | .immediate => do
    let (value, r) ← r.fetch
    return { operand := .immediate value, crossed := false, regs := r }
  | .zeroPage => do
    let (offset, r) ← r.fetch
    return { operand := .memory (zeroPage offset), crossed := false, regs := r }
  | .zeroPageX => do
    let (offset, r) ← r.zeroPageIndexed r.x
    return { operand := .memory (zeroPage offset), crossed := false, regs := r }
  | .zeroPageY => do
    let (offset, r) ← r.zeroPageIndexed r.y
    return { operand := .memory (zeroPage offset), crossed := false, regs := r }
  | .absolute => do
    let (address, r) ← r.fetchWord
    return { operand := .memory address, crossed := false, regs := r }
  | .absoluteX => do
    let (base, r) ← r.fetchWord
    let (address, crossed) ← indexed base r.x usage
    return { operand := .memory address, crossed := crossed, regs := r }
  | .absoluteY => do
    let (base, r) ← r.fetchWord
    let (address, crossed) ← indexed base r.y usage
    return { operand := .memory address, crossed := crossed, regs := r }
  | .indirect => do
    let (pointer, r) ← r.fetchWord
    let address ← Dialogue.readWordOnPage pointer
    return { operand := .memory address, crossed := false, regs := r }
  | .indexedIndirect => do
    let (pointer, r) ← r.zeroPageIndexed r.x
    let address ← Dialogue.readWordOnPage (zeroPage pointer)
    return { operand := .memory address, crossed := false, regs := r }
  | .indirectIndexed => do
    let (pointer, r) ← r.fetch
    let base ← Dialogue.readWordOnPage (zeroPage pointer)
    let (address, crossed) ← indexed base r.y usage
    return { operand := .memory address, crossed := crossed, regs := r }
  | .relative => do
    let (value, r) ← r.fetch
    return { operand := .displacement value, crossed := false, regs := r }

/-- The value of an operand that an instruction reads. -/
def Registers.load (r : Registers) : Operand → Dialogue Byte
  | .immediate value => return value
  | .memory address => Dialogue.readByte address
  | .accumulator => return r.a
  | .none | .displacement _ => return 0

end Nmos6502
