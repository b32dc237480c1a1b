/-
# Comparing is subtracting

CMP is an SBC that keeps nothing but C, Z and N of the difference. In the same
mode, from the same registers with C set, and given the same bytes by their
buses, the two make the same accesses in the same number of cycles, and leave
these flags and all registers but A alike, in decimal mode too. CPX and CPY are
CMP with X or Y in the place of A.

What the buses are does not matter, only what they answer. The two programs
differ in their first byte, the opcode, so the buses do; after it they need to
give the same bytes as far as both steps go on reading (`Machine.SameAnswers`).
That both read equally often, and at the same addresses, is part of what is
shown: dialogues that agree and are given the same answers come to related
results (`Dialogue.Agree.on_answers`).
-/
import Nmos6502.Proofs.DecimalMode

namespace Nmos6502

/-! ### Being given the same bytes -/

def answers : List Activity → List Byte
  | [] => []
  | .read _ value :: later => value :: answers later
  | _ :: later => answers later

/-- Neither was given another byte than the other, as far as both were given any. -/
def Consistent (bytes bytes' : List Byte) : Prop :=
  bytes <+: bytes' ∨ bytes' <+: bytes

instance (bytes bytes' : List Byte) : Decidable (Consistent bytes bytes') :=
  inferInstanceAs (Decidable (_ ∨ _))

theorem consistent_cons {v w : Byte} {bytes bytes' : List Byte} :
    Consistent (v :: bytes) (w :: bytes') ↔ v = w ∧ Consistent bytes bytes' := by
  unfold Consistent
  rw [List.cons_prefix_cons, List.cons_prefix_cons, eq_comm (a := w), ← and_or_left]

/-- Dialogues that agree and are given the same bytes have related results and show the same. -/
theorem Dialogue.Agree.on_answers {α δ β γ : Type} [Bus β] [Bus γ] {S : α → δ → Prop} {d : Dialogue α}
    {e : Dialogue δ} (h : d.Agree S e) {b : β} {c : γ}
    (consistent : Consistent (answers (d.seen b)) (answers (e.seen c))) :
    S (d.on b).1 (e.on c).1 ∧ d.seen b = e.seen c := by
  induction h generalizing b c with
  | done related => exact ⟨related, rfl⟩
  | @read address next next' _ ih =>
    rw [seen_read, seen_read] at consistent ⊢
    obtain ⟨same, later⟩ := consistent_cons.mp consistent
    rw [same] at later ⊢
    obtain ⟨related, seen⟩ := ih _ later
    rw [on_read, on_read, same, seen]
    exact ⟨related, rfl⟩
  | write address value _ ih =>
    rw [seen_write, seen_write] at consistent ⊢
    obtain ⟨related, seen⟩ := ih consistent
    exact ⟨related, congrArg _ seen⟩

/-- Two steps are given the same bytes after the opcode, as far as both go on reading. -/
def Machine.SameAnswers {β γ : Type} [Bus β] [Bus γ] (m : Machine β) (k : Machine γ) : Prop :=
  Consistent (answers m.seenInStep).tail (answers k.seenInStep).tail

/-! ### Reading an operand in the same mode -/

namespace Registers

open Dialogue

theorem locate_operand (r : Registers) {mode : AddressingMode} (other : mode ≠ .accumulator)
    (usage : Usage) : (r.locate mode usage).Yields fun found => found.operand ≠ .accumulator := by
  unfold locate
  cases mode with
  | accumulator => exact absurd rfl other
  | implied => exact Operand.noConfusion
  | immediate | zeroPage | zeroPageX | zeroPageY | absolute | relative =>
    refine .bind_of_forall (fun _ => ?_) _
    exact Operand.noConfusion
  | absoluteX | absoluteY | indirect | indexedIndirect =>
    refine .bind_of_forall (fun _ => .bind_of_forall (fun _ => ?_) _) _
    exact Operand.noConfusion
  | indirectIndexed =>
    refine .bind_of_forall (fun _ => .bind_of_forall (fun _ => .bind_of_forall (fun _ => ?_) _) _) _
    exact Operand.noConfusion

/-- Two instructions that read an operand, from registers that differ at most in A, take the same byte into
them. -/
theorem readOperand_beside (r : Registers) (a : Byte) {mode : AddressingMode} (other : mode ≠ .accumulator)
    (apply apply' : Byte → Registers → Registers) :
    (r.readOperand mode apply).Agree
      (fun out out' => out.2 = out'.2 ∧ ∃ v pc, out.1 = apply v { r with pc := pc } ∧
        out'.1 = apply' v { r with a := a, pc := pc })
      ({ r with a := a }.readOperand mode apply') := by
  unfold readOperand
  refine ((r.locate_agree a r.p mode .read).and_yields (r.locate_operand other .read)).bind ?_
  rintro ⟨operand, crossed, _⟩ ⟨_, _, _⟩ ⟨⟨rfl, rfl, pc, rfl, rfl⟩, notA⟩
  cases operand with
  | memory address => exact .read _ fun v => .done ⟨rfl, v, pc, rfl, rfl⟩
  | none | immediate | displacement => exact .done ⟨rfl, _, pc, rfl, rfl⟩
  | accumulator => exact absurd rfl notA

end Registers

theorem Instruction.perform_reading {mnemonic : Mnemonic} {mode : AddressingMode} {opcode : Byte}
    {apply : Byte → Registers → Registers} (listed : (mode, opcode) ∈ DataSheet.opcodes mnemonic)
    (reads : mnemonic.operation = .read apply) (r : Registers) :
    (decode opcode).perform r = r.readOperand mode apply := by
  rw [((DataSheet.mem_opcodes_iff mnemonic mode opcode).mp listed).1]
  unfold perform
  rw [reads]

theorem DataSheet.baseCycles_reading {mnemonic : Mnemonic} {mode : AddressingMode} {opcode : Byte}
    {apply : Byte → Registers → Registers} (listed : (mode, opcode) ∈ DataSheet.opcodes mnemonic)
    (reads : mnemonic.operation = .read apply) : baseCycles opcode = mode.addressCycles + 1 := by
  rw [baseCycles_eq listed, operation_eq, reads]
  rfl

namespace Machine

variable {β γ : Type} [Bus β] [Bus γ]

/-- Two steps that read an operand in the same mode, from registers that differ at most in A, and are given
the same bytes. -/
theorem steps_reading {m : Machine β} {k : Machine γ} {mode : AddressingMode}
    {mnemonic mnemonic' : Mnemonic} {apply apply' : Byte → Registers → Registers}
    (reads : mnemonic.operation = .read apply)
    (reads' : mnemonic'.operation = .read apply')
    (listed : (mode, (Bus.read m.bus m.regs.pc).1) ∈ DataSheet.opcodes mnemonic)
    (listed' : (mode, (Bus.read k.bus k.regs.pc).1) ∈ DataSheet.opcodes mnemonic')
    {a : Byte} (regs : k.regs = { m.regs with a := a }) (answered : m.SameAnswers k) :
    m.step.1.cycles = k.step.1.cycles ∧
    (∃ data, m.seenInStep = .read m.regs.pc (Bus.read m.bus m.regs.pc).1 :: data ∧
      k.seenInStep = .read m.regs.pc (Bus.read k.bus k.regs.pc).1 :: data) ∧
    ∃ v pc, m.step.2.regs = apply v { m.regs with pc := pc } ∧
      k.step.2.regs = apply' v { k.regs with pc := pc } := by
  have takes := DataSheet.takes_of_listed listed
  have other : mode ≠ .accumulator := by
    rintro rfl
    rw [DataSheet.operation_eq, reads] at takes
    nomatch takes
  have opened : { k.regs with pc := k.regs.pc + 1 } = { m.regs with a := a, pc := m.regs.pc + 1 } := by
    rw [regs]
  have performed := Instruction.perform_reading listed reads { m.regs with pc := m.regs.pc + 1 }
  have performed' := Instruction.perform_reading listed' reads' { k.regs with pc := k.regs.pc + 1 }
  rw [opened] at performed'
  -- Behind the opcode the two hold dialogues that agree but for A, so all depends on the bytes they are given.
  have agree := { m.regs with pc := m.regs.pc + 1 }.readOperand_beside a other apply apply'
  have seen := m.seenInStep_eq
  have seen' := k.seenInStep_eq
  rw [performed] at seen
  rw [opened, performed'] at seen'
  unfold SameAnswers at answered
  rw [seen, seen'] at answered
  obtain ⟨⟨cycles, v, pc, after, after'⟩, same⟩ := agree.on_answers answered
  have here : k.regs.pc = m.regs.pc := by rw [regs]
  refine ⟨?_, ⟨_, seen, ?_⟩, v, pc, ?_, ?_⟩
  · rw [m.step_eq, k.step_eq]
    dsimp only
    rw [opened, performed, performed', cycles, DataSheet.baseCycles_reading listed reads,
      DataSheet.baseCycles_reading listed' reads']
  · rw [seen', same, here]
  · rw [m.step_eq]
    dsimp only
    rw [performed]
    exact after
  · rw [k.step_eq]
    dsimp only
    rw [opened, performed']
    refine after'.trans ?_
    rw [regs]

end Machine

/-! ### The flags -/

namespace Arithmetic

theorem compare_subtract (a v : Byte) {p : Status} (set : p.carry = true) :
    (compare a v p).carry = (subtract a v p).2.carry ∧ (compare a v p).zero = (subtract a v p).2.zero ∧
    (compare a v p).negative = (subtract a v p).2.negative := by
  have difference : a - v - BitVec.ofNat 8 (!p.carry).toNat = a - v := by
    rw [set]
    exact BitVec.sub_zero _
  have flags : (subtract a v p).2 = { p.withResult (a - v) with
      carry := decide (v.toNat + (!p.carry).toNat ≤ a.toNat)
      overflow := a.msb != v.msb && (a - v).msb != a.msb } := by
    rw [← difference]
    rfl
  rw [flags, set]
  exact ⟨rfl, rfl, rfl⟩

theorem carry_compare (register v : Byte) (p : Status) :
    (compare register v p).carry = decide (v.toNat ≤ register.toNat) := rfl

theorem zero_compare (register v : Byte) (p : Status) :
    (compare register v p).zero = decide (register = v) := by
  rw [Bool.eq_iff_iff, decide_eq_true_iff]
  refine beq_iff_eq.trans ⟨fun none => ?_, fun same => ?_⟩
  · bv_omega
  · rw [same]
    exact BitVec.sub_self v

end Arithmetic

/-! ### Steps -/

namespace Machine

/-- **Comparing is subtracting.** CMP and SBC in the same mode, from the same registers with C set and with
D set or clear, and given the same bytes: the two steps leave C, Z and N, and PC, X, Y and S alike, take
the same cycles and make the same accesses; CMP leaves A and V alone. From any registers CMP sets C if A is
not less than the byte it reads last, and Z if it is equal; and CPX and CPY leave the flags that CMP leaves
with X, or Y, in A. -/
theorem compare_agrees_with_subtract {β γ : Type} [Bus β] [Bus γ] (m : Machine β) (k : Machine γ)
    (mode : AddressingMode) :
    let opcode := (Bus.read m.bus m.regs.pc).1
    let opcode' := (Bus.read k.bus k.regs.pc).1
    let after := m.step.2.regs
    let after' := k.step.2.regs
    ((mode, opcode) ∈ DataSheet.opcodes .cmp → (mode, opcode') ∈ DataSheet.opcodes .sbc →
      k.regs = m.regs → m.regs.p.carry = true → m.SameAnswers k →
      (after.p.carry = after'.p.carry ∧ after.p.zero = after'.p.zero ∧
        after.p.negative = after'.p.negative) ∧
      (after.pc = after'.pc ∧ after.x = after'.x ∧ after.y = after'.y ∧ after.s = after'.s) ∧
      m.step.1.cycles = k.step.1.cycles ∧
      (∃ data, m.seenInStep = .read m.regs.pc opcode :: data ∧
        k.seenInStep = .read m.regs.pc opcode' :: data) ∧
      after.a = m.regs.a ∧ after.p.overflow = m.regs.p.overflow) ∧
    ((mode, opcode) ∈ DataSheet.opcodes .cmp →
      after.p.carry = decide (m.lastRead.toNat ≤ m.regs.a.toNat) ∧
      after.p.zero = decide (m.regs.a = m.lastRead)) ∧
    ((mode, opcode) ∈ DataSheet.opcodes .cpx → (mode, opcode') ∈ DataSheet.opcodes .cmp →
      k.regs = { m.regs with a := m.regs.x } → m.SameAnswers k → after.p = after'.p) ∧
    ((mode, opcode) ∈ DataSheet.opcodes .cpy → (mode, opcode') ∈ DataSheet.opcodes .cmp →
      k.regs = { m.regs with a := m.regs.y } → m.SameAnswers k → after.p = after'.p) := by
  intro opcode opcode' after after'
  refine ⟨?_, ?_, ?_, ?_⟩
  · intro cmp sbc regs set answered
    obtain ⟨cycles, seen, v, pc, here, there⟩ :=
      steps_reading rfl rfl cmp sbc (a := m.regs.a) regs answered
    obtain ⟨carry, zero, negative⟩ := Arithmetic.compare_subtract m.regs.a v set
    rw [regs] at there
    simp only [after, after', here, there]
    exact ⟨⟨carry, zero, negative⟩, ⟨rfl, rfl, rfl, rfl⟩, cycles, seen, rfl, rfl⟩
  · intro cmp
    have reads : m.step.1.instruction.mnemonic.operation = .read (Registers.compareWith Registers.a) := by
      rw [m.instruction_step]
      exact DataSheet.operation_of_listed cmp
    obtain ⟨pc, here⟩ := m.step_takes reads
    simp only [after, here]
    exact ⟨Arithmetic.carry_compare _ _ _, Arithmetic.zero_compare _ _ _⟩
  · intro cpx cmp regs answered
    obtain ⟨-, -, v, pc, here, there⟩ := steps_reading rfl rfl cpx cmp regs answered
    rw [regs] at there
    simp only [after, after', here, there]
    rfl
  · intro cpy cmp regs answered
    obtain ⟨-, -, v, pc, here, there⟩ := steps_reading rfl rfl cpy cmp regs answered
    rw [regs] at there
    simp only [after, after', here, there]
    rfl

/-- With $90 in A and $4242 holding $42, in decimal mode: CMP, SBC, CPX and CPY of $4242, each behind its
own opcode. -/
theorem compare_agrees_with_subtract_absolute :
    let start (opcode a : Byte) : Machine Rom :=
      { settings := ⟨⟨1000000⟩, 16⟩, accepted := by decide
        regs := { Registers.powerOn with
          a := a, x := 0x42, y := 0x41, pc := 0x0400
          p := { Registers.powerOn.p with carry := true, decimal := true } }
        bus := ⟨fun address => if address = 0x0400 then opcode else 0x42⟩
        phase := .running, budget := 16 }
    let cmp := start 0xCD 0x90
    let sbc := start 0xED 0x90
    (.absolute, 0xCD) ∈ DataSheet.opcodes .cmp ∧ (.absolute, 0xED) ∈ DataSheet.opcodes .sbc ∧
    (.absolute, 0xEC) ∈ DataSheet.opcodes .cpx ∧ (.absolute, 0xCC) ∈ DataSheet.opcodes .cpy ∧
    cmp.SameAnswers sbc ∧ (start 0xEC 0x90).SameAnswers (start 0xCD 0x42) ∧
    (start 0xCC 0x90).SameAnswers (start 0xCD 0x41) ∧
    cmp.step.2.regs.p.carry = sbc.step.2.regs.p.carry ∧ cmp.step.1.cycles = sbc.step.1.cycles ∧
    cmp.step.2.regs.a = 0x90 ∧ sbc.step.2.regs.a = 0x48 ∧ cmp.step.2.regs.p.carry = true ∧
    (start 0xEC 0x90).step.2.regs.p = (start 0xCD 0x42).step.2.regs.p ∧
    (start 0xCC 0x90).step.2.regs.p = (start 0xCD 0x41).step.2.regs.p := by
  intro start cmp sbc
  have listed : (AddressingMode.absolute, 0xCD) ∈ DataSheet.opcodes .cmp := by decide
  have listed' : (AddressingMode.absolute, 0xED) ∈ DataSheet.opcodes .sbc := by decide
  have listedX : (AddressingMode.absolute, 0xEC) ∈ DataSheet.opcodes .cpx := by decide
  have listedY : (AddressingMode.absolute, 0xCC) ∈ DataSheet.opcodes .cpy := by decide
  have same : cmp.SameAnswers sbc := by
    unfold SameAnswers
    decide +kernel
  have sameX : (start 0xEC 0x90).SameAnswers (start 0xCD 0x42) := by
    unfold SameAnswers
    decide +kernel
  have sameY : (start 0xCC 0x90).SameAnswers (start 0xCD 0x41) := by
    unfold SameAnswers
    decide +kernel
  obtain ⟨subtracts, compares, -⟩ := cmp.compare_agrees_with_subtract sbc .absolute
  obtain ⟨-, -, withX, -⟩ := (start 0xEC 0x90).compare_agrees_with_subtract (start 0xCD 0x42) .absolute
  obtain ⟨-, -, -, withY⟩ := (start 0xCC 0x90).compare_agrees_with_subtract (start 0xCD 0x41) .absolute
  obtain ⟨⟨carry, -, -⟩, -, cycles, -, a, -⟩ := subtracts listed listed' rfl rfl same
  obtain ⟨set, -⟩ := compares listed
  exact ⟨listed, listed', listedX, listedY, same, sameX, sameY, carry, cycles, a, by decide +kernel,
    set.trans (by decide +kernel), withX listedX listed rfl sameX, withY listedY listed rfl sameY⟩

end Machine
end Nmos6502
