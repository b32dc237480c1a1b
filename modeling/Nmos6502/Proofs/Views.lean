/-
# Two views of P

P is seen from outside in two ways: as a byte, in which R reads as one whatever
the register holds, and flag by flag, where a mask is laid on the register
itself. The views agree on every mask that leaves R out, and on the others as
long as R is set in the register.

R is set from power-on, and nothing the machine does by itself clears it. Only
its owner can, with a mask that holds R or by setting P bit for bit; so R is set
unless the last command that sets or clears it has cleared it
(`Session.reserved_performAll`). After such a clearing the byte shows R and the
mask does not find it, until something sets R again.
-/
import Nmos6502.Proofs.History
import Nmos6502.Proofs.Marks

namespace Nmos6502

/-! ### A mask and the byte -/

namespace Status

theorem visible_eq (p : Status) : p.visible = p.toByte ||| Flag.reserved.mask := by
  have marked : p.set Flag.reserved.mask = { p with reserved := true } := by
    rw [set_eq]
    simp [Flag.mask]
  rw [visible, ← marked, set, toByte_ofByte]

theorem and_eq_mask_iff {b mask : Byte} :
    b &&& mask = mask ↔ ∀ i, mask.getLsbD i = true → b.getLsbD i = true := by
  constructor
  · intro held i marked
    rw [← held, BitVec.getLsbD_and] at marked
    exact (Bool.and_eq_true_iff.mp marked).1
  · intro covers
    apply BitVec.eq_of_getLsbD_eq
    intro i _
    rw [BitVec.getLsbD_and]
    cases marked : mask.getLsbD i with
    | false => exact Bool.and_false _
    | true => rw [covers i marked, Bool.true_and]

/-- The register holds a mask if the byte seen from outside does, and R too if the mask asks for it. -/
theorem all_iff (p : Status) (mask : Byte) :
    p.all mask = true ↔ p.visible &&& mask = mask ∧ (mask.getLsbD 5 = true → p.reserved = true) := by
  have bit (i : Nat) : p.visible.getLsbD i = (p.toByte.getLsbD i || Flag.reserved.mask.getLsbD i) := by
    rw [visible_eq, BitVec.getLsbD_or]
  have reserved : p.toByte.getLsbD 5 = p.reserved := getLsbD_toByte p 5
  rw [all, beq_iff_eq, and_eq_mask_iff, and_eq_mask_iff]
  constructor
  · intro held
    refine ⟨fun i marked => ?_, fun marked => reserved ▸ held 5 marked⟩
    rw [bit, held i marked, Bool.true_or]
  · rintro ⟨seen, marks⟩ i marked
    by_cases five : i = 5
    · subst five
      exact reserved.trans (marks marked)
    · have other : Flag.reserved.mask.getLsbD i = false := by
        have single : Flag.reserved.mask = BitVec.twoPow 8 5 := rfl
        rw [single, BitVec.getLsbD_twoPow, decide_eq_false (Ne.symm five), Bool.and_false]
      have shown := seen i marked
      rw [bit, other, Bool.or_false] at shown
      exact shown

theorem visible_reserved (p : Status) : p.visible &&& Flag.reserved.mask = Flag.reserved.mask := by
  rw [and_eq_mask_iff]
  intro i marked
  rw [visible_eq, BitVec.getLsbD_or, marked, Bool.or_true]

theorem visible_bit (p : Status) {f : Flag} (named : f ≠ .reserved) :
    (p.visible &&& f.mask != 0) = p.get f := by
  have shown := any_mask { p with reserved := true } f
  cases f with
  | reserved => exact absurd rfl named
  | carry | zero | interruptDisable | decimal | breakMark | overflow | negative => exact shown

end Status

/-! ### Queries -/

def Quantity.flag? : Quantity → Option Flag
  | .carry => some .carry
  | .zero => some .zero
  | .interruptDisable => some .interruptDisable
  | .decimal => some .decimal
  | .breakMark => some .breakMark
  | .overflow => some .overflow
  | .negative => some .negative
  | .pc | .a | .x | .y | .s | .p | .cyclesLeft | .halted | .phase => none

theorem Machine.observe_flag {β : Type} (m : Machine β) {q : Quantity} {f : Flag} (flag : q.flag? = some f) :
    m.observe q = .truth (m.status &&& f.mask != 0) := by
  cases q with
  | carry | zero | interruptDisable | decimal | breakMark | overflow | negative =>
    injection flag with eq
    subst eq
    rw [status, Status.visible_bit _ (by decide)]
    rfl
  | pc | a | x | y | s | p | cyclesLeft | halted | phase => nomatch flag

example :
    ["flags.c", "flags.z", "flags.i", "flags.d", "flags.b", "flags.v", "flags.n"].map
        (fun path => (Quantity.ofPath? path).bind Quantity.flag?) =
      [some .carry, some .zero, some .interruptDisable, some .decimal, some .breakMark, some .overflow,
        some .negative] := by
  decide

/-! ### What becomes of R -/

/-- The command sets R in the register, or clears it. -/
def Command.touchesReserved : Command → Bool
  | .reset | .assign (.p _) | .assign (.exactP _) => true
  | .setFlags mask _ => mask.getLsbD 5
  | .assign (.a _) | .assign (.x _) | .assign (.y _) | .assign (.s _) | .assign (.pc _) | .request _
  | .step _ | .stepUntilTrapped _ | .run | .readBus _ | .writeBus _ _ | .load _ _ | .prepare _ => false

/-- The command clears R in the register. -/
def Command.clearsReserved : Command → Bool
  | .assign (.exactP value) => !value.getLsbD 5
  | .setFlags mask on => mask.getLsbD 5 && !on
  | _ => false

theorem Status.reserved_setTo (p : Status) (mask : Byte) (on : Bool) :
    (p.setTo mask on).reserved = if mask.getLsbD 5 then on else p.reserved := by
  unfold setTo
  cases on with
  | true =>
    rw [if_pos rfl, set_eq]
    cases mask.getLsbD 5 <;> simp
  | false =>
    rw [if_neg Bool.false_ne_true, clear_eq]
    cases mask.getLsbD 5 <;> simp

theorem Mnemonic.keepsReserved (m : Mnemonic) : m.operation.Keeps fun p => p.reserved = true :=
  m.keepsMarks (fun _ _ _ same h => same.trans h) fun _ => rfl

namespace Session

variable {β : Type} [Bus β] [Backed β]

/-- A command that sets R, or clears it, leaves it set unless it clears it. -/
theorem reserved_of_touches (s : Session β) {command : Command} (touches : command.touchesReserved = true)
    (spares : command.clearsReserved = false) : (s.perform command).2.machine.regs.p.reserved = true := by
  cases command with
  | reset =>
    show s.machine.reset.regs.p.reserved = true
    rw [s.machine.flags_reset]
    rfl
  | assign what =>
    cases what with
    | p value => exact rfl
    | exactP value =>
      show value.getLsbD 5 = true
      simpa [Command.clearsReserved] using spares
    | a | x | y | s | pc => nomatch touches
  | setFlags mask on =>
    have marked : mask.getLsbD 5 = true := touches
    have raised : on = true := by simpa [Command.clearsReserved, marked] using spares
    show (s.machine.regs.p.setTo mask on).reserved = true
    rw [Status.reserved_setTo, if_pos marked, raised]
  | request | step | stepUntilTrapped | run | readBus | writeBus | load | prepare => nomatch touches

theorem reserved_perform (s : Session β) {command : Command} (spares : command.touchesReserved = false)
    (before : s.machine.regs.p.reserved = true) : (s.perform command).2.machine.regs.p.reserved = true := by
  apply s.machine_perform (P := fun m => m.regs.p.reserved = true) before
  · rw [s.machine.flags_reset]
    rfl
  · intro kind
    rw [Machine.regs_request]
    exact before
  · exact fun m h => Machine.keeps_step (K := fun p => p.reserved = true) (Mnemonic.keepsReserved _) h
  · refine Run.keeps_follow (K := fun p => p.reserved = true) Mnemonic.keepsReserved _ _ ?_
    rw [Run.regs_begin]
    exact before
  · rintro what rfl
    cases what with
    | p | exactP => nomatch spares
    | a | x | y | s | pc => exact before
  · rintro mask on rfl
    have unmarked : mask.getLsbD 5 = false := spares
    show (s.machine.regs.p.setTo mask on).reserved = true
    rw [Status.reserved_setTo, unmarked]
    exact before
  · exact fun _ => before

/-- R is set unless the last command that has set or cleared it has cleared it. -/
theorem reserved_performAll {settings : Settings} {bus : Traced β} {s : Session β}
    (made : Machine.make settings bus = .ok s.machine) (commands : List Command)
    (spared : ∀ last, (commands.filter Command.touchesReserved).getLast? = some last →
      last.clearsReserved = false) : (s.performAll commands).2.machine.regs.p.reserved = true := by
  have start : s.machine.regs.p.reserved = true := by
    obtain ⟨_, eq⟩ := Machine.of_make made
    rw [eq]
    rfl
  have decided := machine_performAll_last (β := β) Command.touchesReserved
    (P := fun last m => (∀ c, last = some c → c.clearsReserved = false) → m.regs.p.reserved = true)
    (fun s command touches spared => s.reserved_of_touches touches (spared command rfl))
    (fun s command last untouched before spared => s.reserved_perform untouched (before spared))
    commands none s fun _ => start
  rw [Option.or_none] at decided
  exact decided spared

theorem reserved_of_clears (s : Session β) {command : Command} (clears : command.clearsReserved = true) :
    (s.perform command).2.machine.regs.p.reserved = false := by
  cases command with
  | assign what =>
    cases what with
    | exactP value =>
      show value.getLsbD 5 = false
      simpa [Command.clearsReserved] using clears
    | a | x | y | s | pc | p => nomatch clears
  | setFlags mask on =>
    obtain ⟨marked, lowered⟩ : mask.getLsbD 5 = true ∧ on = false := by
      simpa [Command.clearsReserved] using clears
    show (s.machine.regs.p.setTo mask on).reserved = false
    rw [Status.reserved_setTo, if_pos marked, lowered]
  | reset | request | step | stepUntilTrapped | run | readBus | writeBus | load | prepare => nomatch clears

/-- **Two views of P.** A machine has been made and then driven from outside by any commands. A mask finds its
bits in P exactly if the status has them, with one exception: a mask that asks for R looks into the register, and
the status shows R in any case. So the two views agree on all masks unless the last command that set or
cleared R has cleared it; after a command that clears R, the mask of R alone does not find it. The queries for
the status give the status, and those for single flags its bits. -/
theorem views_of_flags {settings : Settings} {bus : Traced β} {s : Session β}
    (made : Machine.make settings bus = .ok s.machine) (commands : List Command) :
    let m := (s.performAll commands).2.machine
    ((∀ last, (commands.filter Command.touchesReserved).getLast? = some last → last.clearsReserved = false) →
      ∀ mask, m.flagsSet mask = true ↔ m.status &&& mask = mask) ∧
    (∀ mask, m.flagsSet mask = true ↔
      m.status &&& mask = mask ∧ (mask.getLsbD 5 = true → m.regs.p.reserved = true)) ∧
    (∀ command : Command, command.clearsReserved = true →
      let cleared := ((s.performAll commands).2.perform command).2.machine
      cleared.flagsSet Flag.reserved.mask = false ∧ cleared.status &&& Flag.reserved.mask = Flag.reserved.mask) ∧
    m.status &&& Flag.reserved.mask = Flag.reserved.mask ∧
    m.query "p" = some (.byte m.status) ∧ m.query "status" = some (.byte m.status) ∧
    ∀ path flag, (Quantity.ofPath? path).bind Quantity.flag? = some flag →
      m.query path = some (.truth (m.status &&& flag.mask != 0)) := by
  intro m
  refine ⟨fun spared mask => ?_, m.regs.p.all_iff, fun command clears => ⟨?_, ?_⟩, ?_, rfl, rfl, ?_⟩
  · have reserved : m.regs.p.reserved = true := reserved_performAll made commands spared
    exact (m.regs.p.all_iff mask).trans (and_iff_left fun _ => reserved)
  · have clear := reserved_of_clears (s.performAll commands).2 clears
    refine Bool.eq_false_iff.mpr fun found => ?_
    have set := ((Status.all_iff _ _).mp found).2 rfl
    rw [clear] at set
    nomatch set
  · exact Status.visible_reserved _
  · exact Status.visible_reserved _
  · intro path flag leads
    obtain ⟨q, found, named⟩ := Option.bind_eq_some_iff.mp leads
    rw [Machine.query, found, Option.map_some, m.observe_flag named]

/-- R is cleared, everything pushed and pulled and run, and at last a mask sets R again, with N and C. -/
theorem views_of_flags_set_again :
    let s : Session Rom :=
      { machine :=
          { settings := ⟨⟨1000000⟩, 16⟩, accepted := by decide, regs := .powerOn
            bus := .fresh (.uniform 0x08), phase := .running, budget := 16 }
        answers := [.irq, .nmi, .stop]
        polls := 0 }
    let commands : List Command :=
      [.assign (.exactP 0x42), .step 2, .setFlags 0xA1 true, .request .nmi, .run, .assign (.a 0x80)]
    let m := (s.performAll commands).2.machine
    Machine.make ⟨⟨1000000⟩, 16⟩ (Traced.fresh (Rom.uniform 0x08)) = .ok s.machine ∧
    (commands.filter Command.touchesReserved).getLast? = some (.setFlags 0xA1 true) ∧
    (∀ mask, m.flagsSet mask = true ↔ m.status &&& mask = mask) ∧ m.flagsSet 0x20 = true ∧
    m.status = 0xE7 ∧ m.query "flags.n" = some (.truth true) := by
  intro s commands m
  have made : Machine.make ⟨⟨1000000⟩, 16⟩ (Traced.fresh (Rom.uniform 0x08)) = .ok s.machine := rfl
  have last : (commands.filter Command.touchesReserved).getLast? = some (.setFlags 0xA1 true) := by decide
  obtain ⟨agree, -, -, shows, -, -, named⟩ := views_of_flags made commands
  have all := agree fun command is => by
    rw [last] at is
    injection is with eq
    rw [← eq]
    rfl
  have status : m.status = 0xE7 := by decide +kernel
  refine ⟨made, last, all, (all 0x20).mpr shows, status, (named "flags.n" .negative rfl).trans ?_⟩
  rw [status]
  rfl

/-- After a mask has cleared R, the status still shows it, and the mask does not find it. -/
theorem reserved_hidden_from_mask :
    let s : Session Rom :=
      { machine :=
          { settings := ⟨⟨1000000⟩, 16⟩, accepted := by decide, regs := .powerOn
            bus := .fresh (.uniform 0xEA), phase := .running, budget := 16 }
        answers := []
        polls := 0 }
    let m := (s.performAll [.setFlags 0x20 false]).2.machine
    Machine.make ⟨⟨1000000⟩, 16⟩ (Traced.fresh (Rom.uniform 0xEA)) = .ok s.machine ∧
    m.status &&& 0x20 = 0x20 ∧ m.flagsSet 0x20 = false ∧
    ¬ ∀ mask, (m.flagsSet mask = true ↔ m.status &&& mask = mask) := by
  intro s m
  have shown : m.status &&& 0x20 = 0x20 := by decide
  have missed : m.flagsSet 0x20 = false := by decide
  refine ⟨rfl, shown, missed, fun agree => ?_⟩
  have found := (agree 0x20).mpr shown
  rw [missed] at found
  nomatch found

end Session
end Nmos6502
