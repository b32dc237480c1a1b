/-
# Looking at a machine

Debuggers and tests ask a machine for quantities by path, such as `pc`,
`flags.z` or `state`. A query changes nothing and touches no bus. Some
quantities have a second, shorter or longer, path.
-/
import Nmos6502.Hex
import Nmos6502.Machine

namespace Nmos6502

/-- What a query can answer. -/
inductive Reading where
  | truth (b : Bool)
  | byte (b : Byte)
  | word (w : Word)
  | integer (n : Int)
  | text (s : String)
  deriving DecidableEq, Repr

/-- The value as it is written: bytes and words in hexadecimal. -/
def Reading.render : Reading → String
  | .truth true => "true"
  | .truth false => "false"
  | .byte b => Hex.byte b
  | .word w => Hex.word w
  | .integer n => toString n
  | .text s => s

inductive Quantity where
  | pc
  | a
  | x
  | y
  | s
  | p
  | carry
  | zero
  | interruptDisable
  | decimal
  | breakMark
  | overflow
  | negative
  | cyclesLeft
  | halted
  | phase
  deriving DecidableEq, Repr

namespace Quantity

/-- All quantities, in the order in which they are listed. -/
def all : List Quantity :=
  [.pc, .a, .x, .y, .s, .p, .carry, .zero, .interruptDisable, .decimal, .breakMark, .overflow,
    .negative, .cyclesLeft, .halted, .phase]

def path : Quantity → String
  | .pc => "pc"
  | .a => "a"
  | .x => "x"
  | .y => "y"
  | .s => "s"
  | .p => "p"
  | .carry => "flags.c"
  | .zero => "flags.z"
  | .interruptDisable => "flags.i"
  | .decimal => "flags.d"
  | .breakMark => "flags.b"
  | .overflow => "flags.v"
  | .negative => "flags.n"
  | .cyclesLeft => "cycles_left"
  | .halted => "halted"
  | .phase => "state"

def ofPath? : String → Option Quantity
  | "pc" => some .pc
  | "a" => some .a
  | "x" => some .x
  | "y" => some .y
  | "s" | "sp" => some .s
  | "p" | "status" => some .p
  | "flags.c" | "c" => some .carry
  | "flags.z" | "z" => some .zero
  | "flags.i" | "i" => some .interruptDisable
  | "flags.d" | "d" => some .decimal
  | "flags.b" | "b" => some .breakMark
  | "flags.v" | "v" => some .overflow
  | "flags.n" | "n" => some .negative
  | "cycles_left" => some .cyclesLeft
  | "halted" => some .halted
  | "state" => some .phase
  | _ => none

theorem ofPath?_path (q : Quantity) : ofPath? q.path = some q := by
  cases q <;> rfl

end Quantity

namespace Machine

variable {β : Type}

/-- P as seen from outside: R reads as one. -/
def status (m : Machine β) : Byte :=
  m.regs.p.visible

/-- Every bit of a mask is set in P. -/
def flagsSet (m : Machine β) (mask : Byte) : Bool :=
  m.regs.p.all mask

/-- The value of a quantity. The flags are those of the register itself. -/
def observe (m : Machine β) : Quantity → Reading
  | .pc => .word m.regs.pc
  | .a => .byte m.regs.a
  | .x => .byte m.regs.x
  | .y => .byte m.regs.y
  | .s => .byte m.regs.s
  | .p => .byte m.status
  | .carry => .truth m.regs.p.carry
  | .zero => .truth m.regs.p.zero
  | .interruptDisable => .truth m.regs.p.interruptDisable
  | .decimal => .truth m.regs.p.decimal
  | .breakMark => .truth m.regs.p.breakMark
  | .overflow => .truth m.regs.p.overflow
  | .negative => .truth m.regs.p.negative
  | .cyclesLeft => .integer m.budget
  | .halted => .truth m.isHalted
  | .phase => .text m.phase.text

def query (m : Machine β) (path : String) : Option Reading :=
  (Quantity.ofPath? path).map m.observe

end Machine
end Nmos6502
