/-
# Instructions

An opcode stands for an operation, named by its mnemonic, and an addressing
mode, which says how many operand bytes follow and how they lead to the
operand. Of the 256 opcodes 151 are documented; the others share the mnemonic
`illegal` and keep the operand shape that their column has on the chip.
-/
import Nmos6502.Word

namespace Nmos6502

/-- How the bytes after the opcode lead to the operand. -/
inductive AddressingMode where
  /-- There is no operand. -/
  | implied
  /-- The operand is A. -/
  | accumulator
  /-- The operand is the byte after the opcode: `#$nn`. -/
  | immediate
  /-- An address on page zero: `$nn`. -/
  | zeroPage
  /-- Indexed by X, wrapping on page zero: `$nn,X`. -/
  | zeroPageX
  /-- Indexed by Y, wrapping on page zero: `$nn,Y`. -/
  | zeroPageY
  /-- A whole address: `$nnnn`. -/
  | absolute
  /-- Indexed by X: `$nnnn,X`. -/
  | absoluteX
  /-- Indexed by Y: `$nnnn,Y`. -/
  | absoluteY
  /-- The address stored at an address, for jumps: `($nnnn)`. -/
  | indirect
  /-- The address stored on page zero at an indexed place: `($nn,X)`. -/
  | indexedIndirect
  /-- The address stored on page zero, then indexed: `($nn),Y`. -/
  | indirectIndexed
  /-- A signed distance from the next instruction, for branches. -/
  | relative
  deriving DecidableEq, Repr

def AddressingMode.operandLength : AddressingMode → Nat
  | .implied | .accumulator => 0
  | .immediate | .zeroPage | .zeroPageX | .zeroPageY | .indexedIndirect | .indirectIndexed
  | .relative => 1
  | .absolute | .absoluteX | .absoluteY | .indirect => 2

/-- The operations of the documented instruction set, and `illegal` for every other opcode. -/
inductive Mnemonic where
  | adc | and | asl | bcc | bcs | beq | bit | bmi | bne | bpl | brk | bvc | bvs | clc
  | cld | cli | clv | cmp | cpx | cpy | dec | dex | dey | eor | inc | inx | iny | jmp
  | jsr | lda | ldx | ldy | lsr | nop | ora | pha | php | pla | plp | rol | ror | rti
  | rts | sbc | sec | sed | sei | sta | stx | sty | tax | tay | tsx | txa | txs | tya
  | illegal
  deriving DecidableEq, Repr

/-- The mnemonic as it is written: three capitals, or `???`. -/
def Mnemonic.text : Mnemonic → String
  | .adc => "ADC" | .and => "AND" | .asl => "ASL" | .bcc => "BCC" | .bcs => "BCS"
  | .beq => "BEQ" | .bit => "BIT" | .bmi => "BMI" | .bne => "BNE" | .bpl => "BPL"
  | .brk => "BRK" | .bvc => "BVC" | .bvs => "BVS" | .clc => "CLC" | .cld => "CLD"
  | .cli => "CLI" | .clv => "CLV" | .cmp => "CMP" | .cpx => "CPX" | .cpy => "CPY"
  | .dec => "DEC" | .dex => "DEX" | .dey => "DEY" | .eor => "EOR" | .inc => "INC"
  | .inx => "INX" | .iny => "INY" | .jmp => "JMP" | .jsr => "JSR" | .lda => "LDA"
  | .ldx => "LDX" | .ldy => "LDY" | .lsr => "LSR" | .nop => "NOP" | .ora => "ORA"
  | .pha => "PHA" | .php => "PHP" | .pla => "PLA" | .plp => "PLP" | .rol => "ROL"
  | .ror => "ROR" | .rti => "RTI" | .rts => "RTS" | .sbc => "SBC" | .sec => "SEC"
  | .sed => "SED" | .sei => "SEI" | .sta => "STA" | .stx => "STX" | .sty => "STY"
  | .tax => "TAX" | .tay => "TAY" | .tsx => "TSX" | .txa => "TXA" | .txs => "TXS"
  | .tya => "TYA" | .illegal => "???"

/-- A decoded opcode. -/
structure Instruction where
  opcode : Byte
  mnemonic : Mnemonic
  mode : AddressingMode
  deriving DecidableEq, Repr

namespace Instruction

/-- The length in bytes, opcode included. -/
def length (i : Instruction) : Nat :=
  1 + i.mode.operandLength

def isDocumented (i : Instruction) : Bool :=
  i.mnemonic != .illegal

end Instruction
end Nmos6502
