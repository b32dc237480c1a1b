/-
# The instruction set by the data sheet

A data sheet tells of each mnemonic what it does, under which opcodes it is
found and how many cycles it takes. It tells this in numbers: a sum is too
large for a byte, a signed sum is outside -128 to 127, a mode needs so many
accesses before the operand is reached. This module writes the sheet down by
itself and shows that the processor keeps to its opcodes and cycles.

The decimal mode is told as it is known of the NMOS part: the low digits are
combined first, and their sum, moved past the six unused digit values, is added
to the high digits.
-/
import Nmos6502.Operation
import Nmos6502.Proofs.Cost

namespace Nmos6502
namespace DataSheet

/-! ### Flags and sums -/

/-- N and Z as a result byte leaves them. -/
def nz (result : Byte) (p : Status) : Status :=
  { p with negative := decide (128 ≤ result.toNat), zero := decide (result.toNat = 0) }

/-- The number is none that a byte stands for in two's complement. -/
def outOfRange (n : Int) : Bool :=
  decide (n < -128 ∨ 127 < n)

def addBinary (a v : Byte) (p : Status) : Byte × Status :=
  let sum := a.toNat + v.toNat + p.carry.toNat
  let result := BitVec.ofNat 8 sum
  (result,
    { nz result p with
      carry := decide (256 ≤ sum)
      overflow := outOfRange (a.toInt + v.toInt + p.carry.toNat) })

/-- ADC with D set. The carry of the low digits is in `low` as 16. N and V see the sum before the
high digit is adjusted, Z sees the binary sum. -/
def addDecimal (a v : Byte) (p : Status) : Byte × Status :=
  let lowSum := a.toNat % 16 + v.toNat % 16 + p.carry.toNat
  let low := if 10 ≤ lowSum then (lowSum + 6) % 16 + 16 else lowSum
  let sum := (a &&& 0xF0).toNat + (v &&& 0xF0).toNat + low
  let result := if 160 ≤ sum then sum + 96 else sum
  (BitVec.ofNat 8 result,
    { p with
      zero := decide ((a.toNat + v.toNat + p.carry.toNat) % 256 = 0)
      negative := decide (128 ≤ sum % 256)
      overflow := outOfRange ((a &&& 0xF0).toInt + (v &&& 0xF0).toInt + low)
      carry := decide (256 ≤ result) })

def add (a v : Byte) (p : Status) : Byte × Status :=
  if p.decimal then addDecimal a v p else addBinary a v p

/-- What SBC leaves in A with D set. -/
def differenceDecimal (a v : Byte) (borrow : Nat) : Byte :=
  let lowDiff : Int := (a.toNat % 16 : Nat) - (v.toNat % 16 : Nat) - borrow
  let low := if lowDiff < 0 then (lowDiff - 6) % 16 - 16 else lowDiff
  let diff : Int := (a &&& 0xF0).toNat - (v &&& 0xF0).toNat + low
  BitVec.ofInt 8 (if diff < 0 then diff - 96 else diff)

/-- SBC. The flags are those of the binary difference. -/
def subtract (a v : Byte) (p : Status) : Byte × Status :=
  let borrow := (!p.carry).toNat
  let diff : Int := a.toNat - v.toNat - borrow
  let result := BitVec.ofInt 8 diff
  (if p.decimal then differenceDecimal a v borrow else result,
    { nz result p with
      carry := decide (0 ≤ diff)
      overflow := outOfRange (a.toInt - v.toInt - borrow) })

def compare (register v : Byte) (p : Status) : Status :=
  { nz (register - v) p with carry := decide (v.toNat ≤ register.toNat) }

def bitTest (a v : Byte) (p : Status) : Status :=
  { p with
    zero := decide (a &&& v = 0)
    negative := decide (128 ≤ v.toNat)
    overflow := decide (64 ≤ v.toNat % 128) }

/-- ASL and ROL: the byte one place up, with a bit entering at the bottom. -/
def up (bitIn : Bool) (v : Byte) (p : Status) : Byte × Status :=
  let result := v <<< 1 ||| if bitIn then 0x01 else 0x00
  (result, { nz result p with carry := decide (128 ≤ v.toNat) })

/-- LSR and ROR: the byte one place down, with a bit entering at the top. -/
def down (bitIn : Bool) (v : Byte) (p : Status) : Byte × Status :=
  let result := v >>> 1 ||| if bitIn then 0x80 else 0x00
  (result, { nz result p with carry := decide (v.toNat % 2 = 1) })

/-! ### What each mnemonic does -/

def toA (v : Byte) (r : Registers) : Registers :=
  { r with a := v, p := nz v r.p }

def toX (v : Byte) (r : Registers) : Registers :=
  { r with x := v, p := nz v r.p }

def toY (v : Byte) (r : Registers) : Registers :=
  { r with y := v, p := nz v r.p }

/-- What a mnemonic stands for. -/
def operation : Mnemonic → Operation
  | .lda => .read toA
  | .ldx => .read toX
  | .ldy => .read toY
  | .and => .read fun v r => toA (r.a &&& v) r
  | .ora => .read fun v r => toA (r.a ||| v) r
  | .eor => .read fun v r => toA (r.a ^^^ v) r
  | .adc => .read fun v r => { r with a := (add r.a v r.p).1, p := (add r.a v r.p).2 }
  | .sbc => .read fun v r => { r with a := (subtract r.a v r.p).1, p := (subtract r.a v r.p).2 }
  | .cmp => .read fun v r => { r with p := compare r.a v r.p }
  | .cpx => .read fun v r => { r with p := compare r.x v r.p }
  | .cpy => .read fun v r => { r with p := compare r.y v r.p }
  | .bit => .read fun v r => { r with p := bitTest r.a v r.p }
  | .sta => .store fun r => r.a
  | .stx => .store fun r => r.x
  | .sty => .store fun r => r.y
  | .asl => .modify (up false)
  | .lsr => .modify (down false)
  | .rol => .modify fun v p => up p.carry v p
  | .ror => .modify fun v p => down p.carry v p
  | .inc => .modify fun v p => (v + 1, nz (v + 1) p)
  | .dec => .modify fun v p => (v - 1, nz (v - 1) p)
  | .inx => .internal fun r => toX (r.x + 1) r
  | .iny => .internal fun r => toY (r.y + 1) r
  | .dex => .internal fun r => toX (r.x - 1) r
  | .dey => .internal fun r => toY (r.y - 1) r
  | .tax => .internal fun r => toX r.a r
  | .tay => .internal fun r => toY r.a r
  | .txa => .internal fun r => toA r.x r
  | .tya => .internal fun r => toA r.y r
  | .tsx => .internal fun r => toX r.s r
  | .txs => .internal fun r => { r with s := r.x }
  | .clc => .internal fun r => { r with p.carry := false }
  | .sec => .internal fun r => { r with p.carry := true }
  | .cli => .internal fun r => { r with p.interruptDisable := false }
  | .sei => .internal fun r => { r with p.interruptDisable := true }
  | .cld => .internal fun r => { r with p.decimal := false }
  | .sed => .internal fun r => { r with p.decimal := true }
  | .clv => .internal fun r => { r with p.overflow := false }
  | .nop => .internal fun r => r
  | .pha => .push fun r => r.a
  | .php => .push fun r => r.p.toByte ||| 0x30
  | .pla => .pull toA
  | .plp => .pull fun v r => { r with p := Status.ofByte (v &&& 0xEF ||| 0x20) }
  | .bpl => .branch fun p => p.negative = false
  | .bmi => .branch fun p => p.negative = true
  | .bvc => .branch fun p => p.overflow = false
  | .bvs => .branch fun p => p.overflow = true
  | .bcc => .branch fun p => p.carry = false
  | .bcs => .branch fun p => p.carry = true
  | .bne => .branch fun p => p.zero = false
  | .beq => .branch fun p => p.zero = true
  | .jmp => .jump
  | .jsr => .call
  | .rts => .comeBack
  | .rti => .endInterrupt
  | .brk => .breakIn
  | .illegal => .undocumented

/-! ### Opcodes -/

/-- The eight opcodes of an operation on A and an operand. -/
def withA (first : Byte) : List (AddressingMode × Byte) :=
  [(.indexedIndirect, first), (.zeroPage, first + 0x04), (.immediate, first + 0x08),
   (.absolute, first + 0x0C), (.indirectIndexed, first + 0x10), (.zeroPageX, first + 0x14),
   (.absoluteY, first + 0x18), (.absoluteX, first + 0x1C)]

/-- The four opcodes of an operation in memory. -/
def inMemory (first : Byte) : List (AddressingMode × Byte) :=
  [(.zeroPage, first), (.absolute, first + 0x08), (.zeroPageX, first + 0x10),
   (.absoluteX, first + 0x18)]

/-- The five opcodes of a shift or rotate. -/
def shifts (first : Byte) : List (AddressingMode × Byte) :=
  (.accumulator, first + 0x04) :: inMemory first

/-- The opcodes of a mnemonic, each with its mode. -/
def opcodes : Mnemonic → List (AddressingMode × Byte)
  | .ora => withA 0x01
  | .and => withA 0x21
  | .eor => withA 0x41
  | .adc => withA 0x61
  | .sta => (withA 0x81).filter fun entry => entry.1 != .immediate
  | .lda => withA 0xA1
  | .cmp => withA 0xC1
  | .sbc => withA 0xE1
  | .asl => shifts 0x06
  | .rol => shifts 0x26
  | .lsr => shifts 0x46
  | .ror => shifts 0x66
  | .dec => inMemory 0xC6
  | .inc => inMemory 0xE6
  | .ldy => (.immediate, 0xA0) :: inMemory 0xA4
  | .ldx =>
    [(.immediate, 0xA2), (.zeroPage, 0xA6), (.absolute, 0xAE), (.zeroPageY, 0xB6), (.absoluteY, 0xBE)]
  | .stx => [(.zeroPage, 0x86), (.absolute, 0x8E), (.zeroPageY, 0x96)]
  | .sty => [(.zeroPage, 0x84), (.absolute, 0x8C), (.zeroPageX, 0x94)]
  | .cpx => [(.immediate, 0xE0), (.zeroPage, 0xE4), (.absolute, 0xEC)]
  | .cpy => [(.immediate, 0xC0), (.zeroPage, 0xC4), (.absolute, 0xCC)]
  | .bit => [(.zeroPage, 0x24), (.absolute, 0x2C)]
  | .bpl => [(.relative, 0x10)]
  | .bmi => [(.relative, 0x30)]
  | .bvc => [(.relative, 0x50)]
  | .bvs => [(.relative, 0x70)]
  | .bcc => [(.relative, 0x90)]
  | .bcs => [(.relative, 0xB0)]
  | .bne => [(.relative, 0xD0)]
  | .beq => [(.relative, 0xF0)]
  | .brk => [(.implied, 0x00)]
  | .jsr => [(.absolute, 0x20)]
  | .rti => [(.implied, 0x40)]
  | .rts => [(.implied, 0x60)]
  | .jmp => [(.absolute, 0x4C), (.indirect, 0x6C)]
  | .php => [(.implied, 0x08)]
  | .plp => [(.implied, 0x28)]
  | .pha => [(.implied, 0x48)]
  | .pla => [(.implied, 0x68)]
  | .clc => [(.implied, 0x18)]
  | .sec => [(.implied, 0x38)]
  | .cli => [(.implied, 0x58)]
  | .sei => [(.implied, 0x78)]
  | .clv => [(.implied, 0xB8)]
  | .cld => [(.implied, 0xD8)]
  | .sed => [(.implied, 0xF8)]
  | .dey => [(.implied, 0x88)]
  | .tay => [(.implied, 0xA8)]
  | .iny => [(.implied, 0xC8)]
  | .inx => [(.implied, 0xE8)]
  | .txa => [(.implied, 0x8A)]
  | .tya => [(.implied, 0x98)]
  | .txs => [(.implied, 0x9A)]
  | .tax => [(.implied, 0xAA)]
  | .tsx => [(.implied, 0xBA)]
  | .dex => [(.implied, 0xCA)]
  | .nop => [(.implied, 0xEA)]
  | .illegal => []

/-- The matrix has an opcode where the sheet lists it, and no documented opcode besides. -/
theorem mem_opcodes_iff (m : Mnemonic) (mode : AddressingMode) (opcode : Byte) :
    (mode, opcode) ∈ opcodes m ↔
      Instruction.decode opcode = { opcode := opcode, mnemonic := m, mode := mode } ∧ m ≠ .illegal := by
  constructor
  · have listed : ∀ entry ∈ opcodes m,
        Instruction.decode entry.2 = { opcode := entry.2, mnemonic := m, mode := entry.1 } ∧
          m ≠ .illegal := by
      cases m <;> decide
    exact listed (mode, opcode)
  · rintro ⟨decoded, documented⟩
    have found : ∀ b, (Instruction.decode b).mnemonic ≠ .illegal →
        ((Instruction.decode b).mode, b) ∈ opcodes (Instruction.decode b).mnemonic := by
      decide
    have here := found opcode
    rw [decoded] at here
    exact here documented

end DataSheet

/-! ### Cycles -/

/-- The cycles up to the operand: one for each byte of the instruction, for the address before an
index is added on page zero, and for each byte of a pointer. -/
def AddressingMode.addressCycles : AddressingMode → Nat
  | .implied | .accumulator | .immediate | .relative => 1
  | .zeroPage => 2
  | .zeroPageX | .zeroPageY | .absolute | .absoluteX | .absoluteY => 3
  | .indirectIndexed => 4
  | .indirect | .indexedIndirect => 5

/-- The cycles of an operation in a mode, if no page is crossed and no branch taken. Only an operation
that reads its operand saves the cycle in which an indexed address is fixed up. -/
def Operation.cycles (mode : AddressingMode) : Operation → Nat
  | .read _ => mode.addressCycles + 1
  | .store _ => mode.addressCycles + mode.crosses.toNat + 1
  | .modify _ => if mode = .accumulator then 2 else mode.addressCycles + mode.crosses.toNat + 3
  | .internal _ | .branch _ | .undocumented => 2
  | .push _ => 3
  | .pull _ => 4
  | .jump => mode.addressCycles
  | .call | .comeBack | .endInterrupt => 6
  | .breakIn => 7

def AddressingMode.inMemory : AddressingMode → Bool
  | .implied | .accumulator | .immediate | .relative => false
  | _ => true

/-- The operation is found with operands of a mode. -/
def Operation.takes (mode : AddressingMode) : Operation → Bool
  | .read _ => mode == .immediate || mode.inMemory && mode != .indirect
  | .store _ => mode.inMemory && mode != .indirect
  | .modify _ => mode == .accumulator || mode.inMemory && mode != .indirect
  | .internal _ | .push _ | .pull _ | .comeBack | .endInterrupt | .breakIn => mode == .implied
  | .branch _ => mode == .relative
  | .jump => mode == .absolute || mode == .indirect
  | .call => mode == .absolute
  | .undocumented => false

/-! ### The modes of an operation -/

theorem Operation.mode_of_read {apply : Byte → Registers → Registers} {mode : AddressingMode}
    (takes : (Operation.read apply).takes mode = true) : mode = .immediate ∨ mode.inMemory = true := by
  rcases (Bool.or_eq_true _ _).mp takes with immediate | memory
  · exact .inl (eq_of_beq immediate)
  · exact .inr (Bool.and_eq_true_iff.mp memory).1

theorem Operation.inMemory_of_store {source : Registers → Byte} {mode : AddressingMode}
    (takes : (Operation.store source).takes mode = true) : mode.inMemory = true :=
  (Bool.and_eq_true_iff.mp takes).1

theorem Operation.inMemory_of_modify {apply : Byte → Status → Byte × Status} {mode : AddressingMode}
    (takes : (Operation.modify apply).takes mode = true) (other : mode ≠ .accumulator) :
    mode.inMemory = true := by
  rcases (Bool.or_eq_true _ _).mp takes with accumulator | memory
  · exact absurd (eq_of_beq accumulator) other
  · exact (Bool.and_eq_true_iff.mp memory).1

theorem Operation.inMemory_of_jump {mode : AddressingMode} (takes : Operation.jump.takes mode = true) :
    mode.inMemory = true := by
  rcases (Bool.or_eq_true _ _).mp takes with absolute | indirect
  · rw [eq_of_beq absolute]
    rfl
  · rw [eq_of_beq indirect]
    rfl

namespace DataSheet

theorem takes_of_listed {m : Mnemonic} {mode : AddressingMode} {opcode : Byte}
    (listed : (mode, opcode) ∈ opcodes m) : (operation m).takes mode = true := by
  have all : ∀ entry ∈ opcodes m, (operation m).takes entry.1 = true := by
    cases m <;> decide
  exact all (mode, opcode) listed

theorem baseCycles_eq {m : Mnemonic} {mode : AddressingMode} {opcode : Byte}
    (listed : (mode, opcode) ∈ opcodes m) : baseCycles opcode = (operation m).cycles mode := by
  have all : ∀ entry ∈ opcodes m, baseCycles entry.2 = (operation m).cycles entry.1 := by
    cases m <;> decide
  exact all (mode, opcode) listed

end DataSheet
end Nmos6502
