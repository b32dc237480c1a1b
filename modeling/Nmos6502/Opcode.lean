/-
# The opcode matrix

The 256 opcodes laid out as on the chip: sixteen rows by high digit, sixteen
columns by low digit. One matrix gives operation and addressing mode, the other
the cycles an instruction takes before page crossings and taken branches are
added. Stores and read-modify-write instructions always spend the cycle in
which an indexed address is fixed up, so their entries include it.

Undocumented opcodes are `illegal` with the addressing mode that their column
implies, so that it is known how many operand bytes to step over.
-/
import Nmos6502.Instruction

namespace Nmos6502

/-! ### Operation and mode -/

namespace Opcode

/-- A cell of the matrix. The functions below fill one in, each with its own mode, so that the matrix
reads as it is printed in a data sheet. -/
abbrev Cell := Mnemonic × AddressingMode

def imp (m : Mnemonic) : Cell := (m, .implied)
def acc (m : Mnemonic) : Cell := (m, .accumulator)
def imm (m : Mnemonic) : Cell := (m, .immediate)
def zp (m : Mnemonic) : Cell := (m, .zeroPage)
def zpX (m : Mnemonic) : Cell := (m, .zeroPageX)
def zpY (m : Mnemonic) : Cell := (m, .zeroPageY)
def abs (m : Mnemonic) : Cell := (m, .absolute)
def absX (m : Mnemonic) : Cell := (m, .absoluteX)
def absY (m : Mnemonic) : Cell := (m, .absoluteY)
def ind (m : Mnemonic) : Cell := (m, .indirect)
def indX (m : Mnemonic) : Cell := (m, .indexedIndirect)
def indY (m : Mnemonic) : Cell := (m, .indirectIndexed)
def rel (m : Mnemonic) : Cell := (m, .relative)

/-- The operation and mode of each opcode, row by row. -/
def matrix : Vector (Vector Cell 16) 16 :=
  #v[
    #v[imp .brk, indX .ora, imp .illegal, indX .illegal, zp .illegal, zp .ora, zp .asl, zp .illegal,
       imp .php, imm .ora, acc .asl, imm .illegal, abs .illegal, abs .ora, abs .asl, abs .illegal],
    #v[rel .bpl, indY .ora, imp .illegal, indY .illegal, zpX .illegal, zpX .ora, zpX .asl, zpX .illegal,
       imp .clc, absY .ora, imp .illegal, absY .illegal, absX .illegal, absX .ora, absX .asl, absX .illegal],
    #v[abs .jsr, indX .and, imp .illegal, indX .illegal, zp .bit, zp .and, zp .rol, zp .illegal,
       imp .plp, imm .and, acc .rol, imm .illegal, abs .bit, abs .and, abs .rol, abs .illegal],
    #v[rel .bmi, indY .and, imp .illegal, indY .illegal, zpX .illegal, zpX .and, zpX .rol, zpX .illegal,
       imp .sec, absY .and, imp .illegal, absY .illegal, absX .illegal, absX .and, absX .rol, absX .illegal],
    #v[imp .rti, indX .eor, imp .illegal, indX .illegal, zp .illegal, zp .eor, zp .lsr, zp .illegal,
       imp .pha, imm .eor, acc .lsr, imm .illegal, abs .jmp, abs .eor, abs .lsr, abs .illegal],
    #v[rel .bvc, indY .eor, imp .illegal, indY .illegal, zpX .illegal, zpX .eor, zpX .lsr, zpX .illegal,
       imp .cli, absY .eor, imp .illegal, absY .illegal, absX .illegal, absX .eor, absX .lsr, absX .illegal],
    #v[imp .rts, indX .adc, imp .illegal, indX .illegal, zp .illegal, zp .adc, zp .ror, zp .illegal,
       imp .pla, imm .adc, acc .ror, imm .illegal, ind .jmp, abs .adc, abs .ror, abs .illegal],
    #v[rel .bvs, indY .adc, imp .illegal, indY .illegal, zpX .illegal, zpX .adc, zpX .ror, zpX .illegal,
       imp .sei, absY .adc, imp .illegal, absY .illegal, absX .illegal, absX .adc, absX .ror, absX .illegal],
    #v[imm .illegal, indX .sta, imm .illegal, indX .illegal, zp .sty, zp .sta, zp .stx, zp .illegal,
       imp .dey, imm .illegal, imp .txa, imm .illegal, abs .sty, abs .sta, abs .stx, abs .illegal],
    #v[rel .bcc, indY .sta, imp .illegal, indY .illegal, zpX .sty, zpX .sta, zpY .stx, zpY .illegal,
       imp .tya, absY .sta, imp .txs, absY .illegal, absX .illegal, absX .sta, absY .illegal, absY .illegal],
    #v[imm .ldy, indX .lda, imm .ldx, indX .illegal, zp .ldy, zp .lda, zp .ldx, zp .illegal,
       imp .tay, imm .lda, imp .tax, imm .illegal, abs .ldy, abs .lda, abs .ldx, abs .illegal],
    #v[rel .bcs, indY .lda, imp .illegal, indY .illegal, zpX .ldy, zpX .lda, zpY .ldx, zpY .illegal,
       imp .clv, absY .lda, imp .tsx, absY .illegal, absX .ldy, absX .lda, absY .ldx, absY .illegal],
    #v[imm .cpy, indX .cmp, imm .illegal, indX .illegal, zp .cpy, zp .cmp, zp .dec, zp .illegal,
       imp .iny, imm .cmp, imp .dex, imm .illegal, abs .cpy, abs .cmp, abs .dec, abs .illegal],
    #v[rel .bne, indY .cmp, imp .illegal, indY .illegal, zpX .illegal, zpX .cmp, zpX .dec, zpX .illegal,
       imp .cld, absY .cmp, imp .illegal, absY .illegal, absX .illegal, absX .cmp, absX .dec, absX .illegal],
    #v[imm .cpx, indX .sbc, imm .illegal, indX .illegal, zp .cpx, zp .sbc, zp .inc, zp .illegal,
       imp .inx, imm .sbc, imp .nop, imm .illegal, abs .cpx, abs .sbc, abs .inc, abs .illegal],
    #v[rel .beq, indY .sbc, imp .illegal, indY .illegal, zpX .illegal, zpX .sbc, zpX .inc, zpX .illegal,
       imp .sed, absY .sbc, imp .illegal, absY .illegal, absX .illegal, absX .sbc, absX .inc, absX .illegal]]

/-- The base cycles of each opcode, row by row. -/
def cycleMatrix : Vector (Vector Nat 16) 16 :=
  #v[
    #v[7, 6, 2, 8, 3, 3, 5, 5, 3, 2, 2, 2, 4, 4, 6, 6],
    #v[2, 5, 2, 8, 4, 4, 6, 6, 2, 4, 2, 7, 4, 4, 7, 7],
    #v[6, 6, 2, 8, 3, 3, 5, 5, 4, 2, 2, 2, 4, 4, 6, 6],
    #v[2, 5, 2, 8, 4, 4, 6, 6, 2, 4, 2, 7, 4, 4, 7, 7],
    #v[6, 6, 2, 8, 3, 3, 5, 5, 3, 2, 2, 2, 3, 4, 6, 6],
    #v[2, 5, 2, 8, 4, 4, 6, 6, 2, 4, 2, 7, 4, 4, 7, 7],
    #v[6, 6, 2, 8, 3, 3, 5, 5, 4, 2, 2, 2, 5, 4, 6, 6],
    #v[2, 5, 2, 8, 4, 4, 6, 6, 2, 4, 2, 7, 4, 4, 7, 7],
    #v[2, 6, 2, 6, 3, 3, 3, 3, 2, 2, 2, 2, 4, 4, 4, 4],
    #v[2, 6, 2, 6, 4, 4, 4, 4, 2, 5, 2, 5, 5, 5, 5, 5],
    #v[2, 6, 2, 6, 3, 3, 3, 3, 2, 2, 2, 2, 4, 4, 4, 4],
    #v[2, 5, 2, 5, 4, 4, 4, 4, 2, 4, 2, 4, 4, 4, 4, 4],
    #v[2, 6, 2, 8, 3, 3, 5, 5, 2, 2, 2, 2, 4, 4, 6, 6],
    #v[2, 5, 2, 8, 4, 4, 6, 6, 2, 4, 2, 7, 4, 4, 7, 7],
    #v[2, 6, 2, 8, 3, 3, 5, 5, 2, 2, 2, 2, 4, 4, 6, 6],
    #v[2, 5, 2, 8, 4, 4, 6, 6, 2, 4, 2, 7, 4, 4, 7, 7]]

/-- The entry of an opcode in a matrix: its high digit is the row, its low digit the column. -/
def entry {α : Type} (table : Vector (Vector α 16) 16) (opcode : Byte) : α :=
  (table.get (Byte.highDigit opcode)).get (Byte.lowDigit opcode)

end Opcode

def Instruction.decode (opcode : Byte) : Instruction :=
  let cell := Opcode.entry Opcode.matrix opcode
  { opcode := opcode, mnemonic := cell.1, mode := cell.2 }

example : ((List.range 256).filter fun n =>
    (Instruction.decode (BitVec.ofNat 8 n)).isDocumented).length = 151 := by decide +kernel

/-! ### Cycles -/

/-- The cycles of an opcode, page crossings and taken branches aside. -/
def baseCycles (opcode : Byte) : Nat :=
  Opcode.entry Opcode.cycleMatrix opcode

def Instruction.baseCycles (i : Instruction) : Nat :=
  Nmos6502.baseCycles i.opcode

def interruptCycles : Nat := 7

theorem two_le_baseCycles (opcode : Byte) : 2 ≤ baseCycles opcode := by
  revert opcode
  decide

theorem baseCycles_le_eight (opcode : Byte) : baseCycles opcode ≤ 8 := by
  revert opcode
  decide

end Nmos6502
