/-
# Dialogues that agree

Two dialogues agree if they make the same accesses, with the same bytes written,
whatever is read, and end in results that are in a relation
(`Dialogue.Agree`). Nobody who watches the bus can tell which of the two is
held with it, and on buses that answer alike the two leave buses that do
(`Dialogue.Agree.on`, in the module on such buses).

To find an operand is a dialogue in which A and the flags have no part: register
files that differ in them alone find the same operand (`Registers.locate_agree`),
and what is then read can be taken into either (`Registers.readOperand_agree`).
What is written, and where a branch leads, depends on the flags only as far as
the operation says so. So an instruction agrees on register files that differ in
the flags alone if its operation relates them (`Operation.Relates`,
`Instruction.perform_agree`).
-/
import Nmos6502.Execution
import Nmos6502.Proofs.Yields

namespace Nmos6502
namespace Dialogue

variable {α γ δ ε : Type}

/-- The same accesses, whatever is read, and results in a relation. -/
inductive Agree (S : α → γ → Prop) : Dialogue α → Dialogue γ → Prop
  | done {a : α} {c : γ} : S a c → Agree S (.done a) (.done c)
  | read (address : Word) {next : Byte → Dialogue α} {next' : Byte → Dialogue γ} :
    (∀ value, Agree S (next value) (next' value)) → Agree S (.read address next) (.read address next')
  | write (address : Word) (value : Byte) {next : Dialogue α} {next' : Dialogue γ} :
    Agree S next next' → Agree S (.write address value next) (.write address value next')

namespace Agree

variable {S : α → γ → Prop} {T : δ → ε → Prop} {d : Dialogue α} {e : Dialogue γ}

theorem refl {S : α → α → Prop} (same : ∀ a, S a a) (d : Dialogue α) : d.Agree S d := by
  induction d with
  | done result => exact .done (same result)
  | read address next ih => exact .read address ih
  | write address value next ih => exact .write address value ih

theorem mono {weaker : α → γ → Prop} (h : d.Agree S e) (weaken : ∀ a c, S a c → weaker a c) :
    d.Agree weaker e := by
  induction h with
  | done related => exact .done (weaken _ _ related)
  | read address _ ih => exact .read address ih
  | write address value _ ih => exact .write address value ih

theorem bind (h : d.Agree S e) {f : α → Dialogue δ} {g : γ → Dialogue ε}
    (next : ∀ a c, S a c → (f a).Agree T (g c)) : (d >>= f).Agree T (e >>= g) := by
  induction h with
  | done related => exact next _ _ related
  | read address _ ih => exact .read address ih
  | write address value _ ih => exact .write address value ih

theorem yields (h : d.Agree S e) {post : α → Prop} (follows : ∀ a c, S a c → post a) : d.Yields post := by
  induction h with
  | done related => exact follows _ _ related
  | read address _ ih => exact ih
  | write address value _ ih => exact ih

/-- What the result has in any case it has together with its relation to the other. -/
theorem and_yields {also : α → Prop} (h : d.Agree S e) (yields : d.Yields also) :
    d.Agree (fun a c => S a c ∧ also a) e := by
  induction h with
  | done related => exact .done ⟨related, yields⟩
  | read address _ ih => exact .read address fun value => ih value (yields value)
  | write address value _ ih => exact .write address value (ih yields)

theorem map (h : d.Agree S e) {f : α → δ} {g : γ → ε} (related : ∀ a c, S a c → T (f a) (g c)) :
    (f <$> d).Agree T (g <$> e) := by
  induction h with
  | done same => exact .done (related _ _ same)
  | read address _ ih => exact .read address ih
  | write address value _ ih => exact .write address value ih

end Agree
end Dialogue

/-! ### A and the flags have no part in finding an operand -/

/-- Registers in a relation, and the same cycles. -/
def Outcome.Related (S : Registers → Registers → Prop) (out out' : Outcome) : Prop :=
  S out.1 out'.1 ∧ out.2 = out'.2

namespace Registers

open Dialogue

/-- Register files with flags and an A of their own find the same operand, and PC moves in both alike. -/
theorem locate_agree (r : Registers) (a : Byte) (p : Status) (mode : AddressingMode) (usage : Usage) :
    (r.locate mode usage).Agree
      (fun found found' => found.operand = found'.operand ∧ found.crossed = found'.crossed ∧
        ∃ pc, found.regs = { r with pc := pc } ∧ found'.regs = { r with a := a, pc := pc, p := p })
      ({ r with a := a, p := p }.locate mode usage) := by
  -- After the operand bytes, an index is added in the same way on both sides.
  have index (base : Word) (index : Byte) (pc : Word) :
      (indexed base index usage >>= fun out => Dialogue.done
        { operand := .memory out.1, crossed := out.2, regs := { r with pc := pc } : Located }).Agree
      (fun found found' => found.operand = found'.operand ∧ found.crossed = found'.crossed ∧
        ∃ pc, found.regs = { r with pc := pc } ∧ found'.regs = { r with a := a, pc := pc, p := p })
      (indexed base index usage >>= fun out => Dialogue.done
        { operand := .memory out.1, crossed := out.2, regs := { r with a := a, pc := pc, p := p } : Located }) := by
    refine (Agree.refl (fun _ => rfl) (indexed base index usage)).bind ?_
    rintro out _ rfl
    exact .done ⟨rfl, rfl, pc, rfl, rfl⟩
  unfold locate
  cases mode with
  | implied | accumulator => exact .done ⟨rfl, rfl, r.pc, rfl, rfl⟩
  | immediate | zeroPage | relative => exact .read _ fun _ => .done ⟨rfl, rfl, _, rfl, rfl⟩
  | zeroPageX | zeroPageY | absolute =>
    exact .read _ fun _ => .read _ fun _ => .done ⟨rfl, rfl, _, rfl, rfl⟩
  | indirect | indexedIndirect =>
    exact .read _ fun _ => .read _ fun _ => .read _ fun _ => .read _ fun _ => .done ⟨rfl, rfl, _, rfl, rfl⟩
  | absoluteX => exact .read _ fun l => .read _ fun h => index (Word.ofBytes l h) r.x _
  | absoluteY => exact .read _ fun l => .read _ fun h => index (Word.ofBytes l h) r.y _
  | indirectIndexed =>
    exact .read _ fun _ => .read _ fun l => .read _ fun h => index (Word.ofBytes l h) r.y _

theorem skip_agree (p : Status) : ∀ (n : Nat) (r : Registers),
    (skip n r).Agree
      (fun after after' => ∃ pc, after = { r with pc := pc } ∧ after' = { r with pc := pc, p := p })
      (skip n { r with p := p })
  | 0, r => .done ⟨r.pc, rfl, rfl⟩
  | n + 1, r => by
    refine .read _ fun _ => (skip_agree p n { r with pc := r.pc + 1 }).mono ?_
    rintro after after' ⟨pc, rfl, rfl⟩
    exact ⟨pc, rfl, rfl⟩

/-- To find an operand moves PC and changes no other register. -/
theorem locate_regs (r : Registers) (mode : AddressingMode) (usage : Usage) :
    (r.locate mode usage).Yields fun found => ∃ pc, found.regs = { r with pc := pc } := by
  refine (r.locate_agree r.a r.p mode usage).yields ?_
  rintro found found' ⟨-, -, pc, same, -⟩
  exact ⟨pc, same⟩

section

variable {S : Registers → Registers → Prop} (r : Registers) (p : Status) (mode : AddressingMode)

/-- To read an operand and take it into the registers, on both sides in ways of their own. -/
theorem readOperand_agree {apply apply' : Byte → Registers → Registers}
    (related : ∀ v pc, S (apply v { r with pc := pc }) (apply' v { r with pc := pc, p := p })) :
    (r.readOperand mode apply).Agree (Outcome.Related S) ({ r with p := p }.readOperand mode apply') := by
  unfold readOperand
  refine (r.locate_agree r.a p mode .read).bind ?_
  rintro ⟨operand, crossed, _⟩ ⟨_, _, _⟩ ⟨rfl, rfl, pc, rfl, rfl⟩
  refine Agree.bind (S := Eq) ?_ ?_
  · -- The operand is read as it is on the other side: A is the same in both.
    cases operand with
    | memory address => exact .read _ fun _ => .done rfl
    | none | accumulator | immediate | displacement => exact .done rfl
  · rintro v _ rfl
    exact .done ⟨related v pc, rfl⟩

variable (kept : ∀ pc, S { r with pc := pc } { r with pc := pc, p := p })
include kept

theorem storeOperand_agree (value : Byte) :
    (r.storeOperand mode value).Agree (Outcome.Related S) ({ r with p := p }.storeOperand mode value) := by
  unfold storeOperand
  refine (r.locate_agree r.a p mode .write).bind ?_
  rintro ⟨operand, crossed, _⟩ ⟨_, _, _⟩ ⟨rfl, rfl, pc, rfl, rfl⟩
  cases operand with
  | memory address => exact .write _ _ (.done ⟨kept pc, rfl⟩)
  | none | accumulator | immediate | displacement => exact .done ⟨kept pc, rfl⟩

theorem modifyOperand_agree {apply : Byte → Status → Byte × Status}
    (written : ∀ v, (apply v r.p).1 = (apply v p).1)
    (related : ∀ v a pc, S { r with a := a, pc := pc, p := (apply v r.p).2 }
      { r with a := a, pc := pc, p := (apply v p).2 }) :
    (r.modifyOperand mode apply).Agree (Outcome.Related S) ({ r with p := p }.modifyOperand mode apply) := by
  unfold modifyOperand
  refine (r.locate_agree r.a p mode .modify).bind ?_
  rintro ⟨operand, crossed, _⟩ ⟨_, _, _⟩ ⟨rfl, rfl, pc, rfl, rfl⟩
  cases operand with
  | memory address =>
    refine .read _ fun v => .write _ _ ?_
    have result : (Dialogue.write address (apply v r.p).1
        (.done (Outcome.plain { r with pc := pc, p := (apply v r.p).2 }))).Agree (Outcome.Related S)
        (.write address (apply v p).1 (.done (Outcome.plain { r with pc := pc, p := (apply v p).2 }))) := by
      rw [written v]
      exact .write _ _ (.done ⟨related v r.a pc, rfl⟩)
    exact result
  | accumulator =>
    refine .done ⟨?_, rfl⟩
    have after := related r.a (apply r.a r.p).1 pc
    rw [written r.a] at after ⊢
    exact after
  | none | immediate | displacement => exact .done ⟨kept pc, rfl⟩

theorem branch_agree (taken : Bool) :
    (r.branch mode taken).Agree (Outcome.Related S) ({ r with p := p }.branch mode taken) := by
  unfold branch
  refine (r.locate_agree r.a p mode .read).bind ?_
  rintro ⟨operand, crossed, _⟩ ⟨_, _, _⟩ ⟨rfl, rfl, pc, rfl, rfl⟩
  cases operand with
  | displacement distance =>
    cases taken with
    | false => exact .done ⟨kept pc, rfl⟩
    | true => exact .done ⟨kept _, rfl⟩
  | none | accumulator | immediate | memory => exact .done ⟨kept pc, rfl⟩

theorem jump_agree : (r.jump mode).Agree (Outcome.Related S) ({ r with p := p }.jump mode) := by
  unfold jump
  refine (r.locate_agree r.a p mode .read).bind ?_
  rintro ⟨operand, crossed, _⟩ ⟨_, _, _⟩ ⟨rfl, rfl, pc, rfl, rfl⟩
  cases operand with
  | memory target => exact .done ⟨kept target, rfl⟩
  | none | accumulator | immediate | displacement => exact .done ⟨kept pc, rfl⟩

end

/-- An entry pushes the status it is given, and sets I on both sides. -/
theorem enterAt_agree {S : Registers → Registers → Prop} (r : Registers) (p : Status) (vector : Word)
    {flags flags' : Byte} (pushed : flags' = flags)
    (related : ∀ s pc, S { r with s := s, pc := pc, p := { r.p with interruptDisable := true } }
      { r with s := s, pc := pc, p := { p with interruptDisable := true } }) :
    (r.enterAt vector flags).Agree S ({ r with p := p }.enterAt vector flags') := by
  subst pushed
  exact .write _ _ (.write _ _ (.write _ _ (.read _ fun _ => .read _ fun _ => .done (related _ _))))

end Registers

/-! ### Instructions -/

/-- What must be known of an operation for it to lead from registers `r`, and from the same registers
with flags `p`, to registers in a relation: the same bytes are written and the same branches taken. -/
def Operation.Relates (S : Registers → Registers → Prop) (r : Registers) (p : Status) :
    Operation → Prop
  | .read apply => ∀ v pc, S (apply v { r with pc := pc }) (apply v { r with pc := pc, p := p })
  | .store source | .push source => source { r with p := p } = source r
  | .modify apply => (∀ v, (apply v r.p).1 = (apply v p).1) ∧
    ∀ v a pc, S { r with a := a, pc := pc, p := (apply v r.p).2 }
      { r with a := a, pc := pc, p := (apply v p).2 }
  | .internal apply => S (apply r) (apply { r with p := p })
  | .pull apply => ∀ v s, S (apply v { r with s := s }) (apply v { r with s := s, p := p })
  | .branch taken => taken p = taken r.p
  | .endInterrupt => ∀ v s pc, S { r with s := s, pc := pc, p := Status.pulled v }
    { r with s := s, pc := pc, p := Status.pulled v }
  | .breakIn => p.pushedByBreak = r.p.pushedByBreak ∧
    ∀ s pc, S { r with s := s, pc := pc, p := { r.p with interruptDisable := true } }
      { r with s := s, pc := pc, p := { p with interruptDisable := true } }
  | .jump | .call | .comeBack | .undocumented => True

/-- An instruction makes the same accesses from register files with flags of their own if its operation
relates them, and if registers that differ in those flags alone are in the relation. -/
theorem Instruction.perform_agree {S : Registers → Registers → Prop} (i : Instruction) (r : Registers)
    (p : Status) (kept : ∀ s pc, S { r with s := s, pc := pc } { r with s := s, pc := pc, p := p })
    (relates : i.mnemonic.operation.Relates S r p) :
    (i.perform r).Agree (Outcome.Related S) (i.perform { r with p := p }) := by
  unfold perform
  generalize i.mnemonic.operation = operation at relates
  cases operation with
  | read apply => exact r.readOperand_agree p i.mode relates
  | store source =>
    rw [Operation.Relates] at relates
    simp only [relates]
    exact r.storeOperand_agree p i.mode (kept r.s) (source r)
  | modify apply => exact r.modifyOperand_agree p i.mode (kept r.s) relates.1 relates.2
  | internal apply => exact .done ⟨relates, rfl⟩
  | push source =>
    rw [Operation.Relates] at relates
    simp only [relates]
    exact .write _ _ (.done ⟨kept _ _, rfl⟩)
  | pull apply => exact .read _ fun v => .done ⟨relates v _, rfl⟩
  | branch taken =>
    rw [Operation.Relates] at relates
    simp only [relates]
    exact r.branch_agree p i.mode (kept r.s) (taken r.p)
  | jump => exact r.jump_agree p i.mode (kept r.s)
  | call => exact .read _ fun _ => .write _ _ (.write _ _ (.read _ fun _ => .done ⟨kept _ _, rfl⟩))
  | comeBack => exact .read _ fun _ => .read _ fun _ => .done ⟨kept _ _, rfl⟩
  | endInterrupt => exact .read _ fun v => .read _ fun _ => .read _ fun _ => .done ⟨relates v _ _, rfl⟩
  | breakIn =>
    have entered := { r with pc := r.pc + 1 }.enterAt_agree p irqVector relates.1 relates.2
    exact .read _ fun _ => entered.bind fun _ _ related => .done ⟨related, rfl⟩
  | undocumented =>
    refine (Registers.skip_agree p i.mode.operandLength r).map ?_
    rintro after after' ⟨pc, rfl, rfl⟩
    exact ⟨kept r.s pc, rfl⟩

namespace Registers

theorem step_agree {S : Registers → Registers → Prop} {r q : Registers} (pc : r.pc = q.pc)
    (performed : ∀ opcode, ((Instruction.decode opcode).perform { r with pc := r.pc + 1 }).Agree
      (Outcome.Related S) ((Instruction.decode opcode).perform { q with pc := q.pc + 1 })) :
    r.step.Agree (fun out out' => out.1 = out'.1 ∧ S out.2 out'.2) q.step := by
  unfold step fetch
  rw [← pc] at performed ⊢
  refine .read _ fun opcode => (performed opcode).bind ?_
  rintro ⟨after, extra⟩ ⟨after', _⟩ ⟨related, rfl⟩
  exact .done ⟨rfl, related⟩

end Registers
end Nmos6502
