/-
# Who may clear I

While I is set no IRQ is served, and a handler starts with I set. The program
can end that with three instructions: CLI clears the flag, PLP and RTI take it
from the stack. Every other instruction, BRK and the undocumented ones among
them, leaves a set I set, on every bus: this is a look at what each operation
does to the flags (`Mnemonic.keepsMask`), and the rest is common to all
properties that operations keep.
-/
import Nmos6502.Proofs.Keeping

namespace Nmos6502

/-- The instructions that may clear I. -/
def Mnemonic.unmasking : List Mnemonic :=
  [.cli, .plp, .rti]

theorem Arithmetic.interruptDisable_add (a v : Byte) (p : Status) :
    (add a v p).2.interruptDisable = p.interruptDisable := by
  unfold add
  split
  · rfl
  · rfl

/-- All operations but the three leave a set I set. -/
theorem Mnemonic.keepsMask {m : Mnemonic} (other : m ∉ unmasking) :
    m.operation.Keeps fun p => p.interruptDisable = true := by
  cases m with
  | cli | plp | rti => exact absurd (by decide) other
  | adc =>
    intro v r masked
    exact (Arithmetic.interruptDisable_add r.a v r.p).trans masked
  | sei => exact fun _ _ => rfl
  | lda | ldx | ldy | sbc | and | ora | eor | cmp | cpx | cpy | bit | pla =>
    exact fun _ _ masked => masked
  | asl | lsr | rol | ror | inc | dec => exact fun _ _ masked => masked
  | inx | iny | dex | dey | tax | tay | txa | tya | tsx | txs | clc | sec | cld | sed | clv | nop =>
    exact fun _ masked => masked
  | brk => exact fun _ _ => rfl
  | sta | stx | sty | pha | php | bpl | bmi | bvc | bvs | bcc | bcs | bne | beq | jmp | jsr | rts
  | illegal => exact trivial

namespace Machine

variable {β : Type} [Bus β] {m : Machine β}

/-- Only CLI, PLP and RTI clear I. -/
theorem masked_step (masked : m.regs.p.interruptDisable = true)
    (other : m.step.1.instruction.mnemonic ∉ Mnemonic.unmasking) :
    m.step.2.regs.p.interruptDisable = true :=
  keeps_step (K := fun p => p.interruptDisable = true) (Mnemonic.keepsMask other) masked

theorem masked_enter (m : Machine β) (kind : Interrupt) :
    (m.enter kind).regs.p.interruptDisable = true := by
  rw [m.flags_enter kind]

end Machine
end Nmos6502
