/-
# Nested calls

JSR pushes the address of its last byte, and RTS goes on one byte after the
address it pulls, so a call comes back to the instruction behind it. Calls that
are nested come back in turn, the innermost first, and S is then where it was
before the first of them. Nothing but S, PC and the stack has been touched.

The induction is on the depth. An outer call leaves its two bytes above all the
places that the calls inside it push to, as long as the stack has not gone once
around its page; so they are found unchanged by the outer return. This holds
for each of the 256 positions of S, and 128 calls fit. The bytes of a JSR may
lie where it pushes: what it jumps to changes, what it comes back to does not.
-/
import Nmos6502.Proofs.PageOne
import Nmos6502.Proofs.Seen
import Nmos6502.Proofs.Stepwise

namespace Nmos6502

namespace Machine

/-! ### One call and one return -/

/-- JSR pushes the address of its last byte and jumps. The high byte of the target is read when all is
pushed. -/
theorem step_call {m : Machine Memory} (jsr : m.step.1.instruction.mnemonic = .jsr) :
    m.step.2.bus = (m.bus.set (stackPage m.regs.s) (m.regs.pc + 2).high).set
      (stackPage (m.regs.s - 1)) (m.regs.pc + 2).low ∧
    m.step.2.regs = { m.regs with
      s := m.regs.s - 1 - 1
      pc := Word.ofBytes (m.bus.get (m.regs.pc + 1)) (m.step.2.bus.get (m.regs.pc + 2)) } := by
  have last : m.regs.pc + 1 + 1 = m.regs.pc + 2 := BitVec.add_assoc m.regs.pc 1 1
  rw [m.step_eq] at jsr ⊢
  unfold Instruction.perform
  rw [jsr, ← last]
  exact ⟨rfl, rfl⟩

theorem step_comeBack {m : Machine Memory} (rts : m.step.1.instruction.mnemonic = .rts) :
    m.step.2.bus = m.bus ∧
    m.step.2.regs = { m.regs with
      s := m.regs.s + 1 + 1
      pc := Word.ofBytes (m.bus.get (stackPage (m.regs.s + 1)))
        (m.bus.get (stackPage (m.regs.s + 1 + 1))) + 1 } := by
  rw [m.step_eq] at rts ⊢
  unfold Instruction.perform
  rw [rts]
  exact ⟨rfl, rfl⟩

/-! ### Calls inside calls -/

/-- So many calls, each inside the one before, and their returns, with the addresses of the calls, from the
outermost, and where the returns lead, from the innermost. -/
inductive Unwinds : Nat → Machine Memory → List Word → List Word → Machine Memory → Prop where
  | flat (m : Machine Memory) : Unwinds 0 m [] [] m
  | nest {n : Nat} {m last : Machine Memory} {calls returns : List Word} :
      m.step.1.instruction.mnemonic = .jsr → Unwinds n m.step.2 calls returns last →
      last.step.1.instruction.mnemonic = .rts →
      Unwinds (n + 1) m (m.regs.pc :: calls) (returns ++ [last.step.2.regs.pc]) last.step.2

theorem Unwinds.undone {n : Nat} {m last : Machine Memory} {calls returns : List Word}
    (unwinds : Unwinds n m calls returns last) (fits : n ≤ 128) :
    returns = (calls.map (· + 3)).reverse ∧
    (∃ pc, last.regs = { m.regs with pc := pc }) ∧
    ∀ address, address ∉ stackPlaces m.regs.s (2 * n) → last.bus.get address = m.bus.get address := by
  induction unwinds with
  | flat m => exact ⟨rfl, ⟨m.regs.pc, rfl⟩, fun _ _ => rfl⟩
  | @nest n m last calls returns jsr _ rts ih =>
    obtain ⟨behind, ⟨inner, regs⟩, kept⟩ := ih (by omega)
    obtain ⟨pushed, called⟩ := step_call jsr
    obtain ⟨bus, back⟩ := step_comeBack rts
    have two : m.regs.s - 1 - 1 = m.regs.s - BitVec.ofNat 8 2 := by bv_omega
    have one : m.regs.s - 1 - 1 = m.regs.s - 1 - BitVec.ofNat 8 1 := by bv_omega
    rw [called] at regs kept
    rw [pushed] at kept
    -- The two bytes that were pushed lie above the places of the calls inside.
    have high : last.bus.get (stackPage m.regs.s) = (m.regs.pc + 2).high := by
      have other : stackPage m.regs.s ≠ stackPage (m.regs.s - 1) := fun same => by
        have offset := stackPage_inj.mp same
        bv_omega
      have fresh : stackPage m.regs.s ∉ stackPlaces (m.regs.s - 1 - 1) (2 * n) := by
        rw [two]
        exact notMem_stackPlaces (by decide) (by omega)
      rw [kept _ fresh, Memory.get_set, if_neg other, Memory.get_set_self]
    have low : last.bus.get (stackPage (m.regs.s - 1)) = (m.regs.pc + 2).low := by
      have fresh : stackPage (m.regs.s - 1) ∉ stackPlaces (m.regs.s - 1 - 1) (2 * n) := by
        rw [one]
        exact notMem_stackPlaces (by decide) (by omega)
      rw [kept _ fresh, Memory.get_set_self]
    have first : last.regs.s + 1 = m.regs.s - 1 := by
      rw [regs]
      exact BitVec.sub_add_cancel _ _
    have second : m.regs.s - 1 + 1 = m.regs.s := BitVec.sub_add_cancel _ _
    have next : m.regs.pc + 2 + 1 = m.regs.pc + 3 := BitVec.add_assoc m.regs.pc 2 1
    rw [first, second, low, high, Word.ofBytes_low_high, next] at back
    refine ⟨?_, ⟨m.regs.pc + 3, ?_⟩, ?_⟩
    · rw [back, behind, List.map_cons, List.reverse_cons]
    · rw [back, regs]
    · intro address other
      obtain ⟨notHigh, notLow, elsewhere⟩ :
          address ≠ stackPage m.regs.s ∧ address ≠ stackPage (m.regs.s - 1) ∧
            address ∉ stackPlaces (m.regs.s - 1 - 1) (2 * n) := by
        simpa only [Nat.mul_succ, stackPlaces, List.mem_cons, not_or] using other
      rw [bus, kept address elsewhere, Memory.get_set, if_neg notLow, Memory.get_set, if_neg notHigh]

theorem unwinds_of_steps : ∀ (n : Nat) (m : Machine Memory) (calls returns : List Step),
    ((Walk.begin m).times (n + n)).steps = calls ++ returns → calls.length = n → returns.length = n →
    (∀ s ∈ calls, s.executed.instruction.mnemonic = .jsr) →
    (∀ s ∈ returns, s.executed.instruction.mnemonic = .rts) →
    Unwinds n m (calls.map fun s => s.executed.address) (returns.map fun s => s.regs.pc)
      ((Walk.begin m).times (n + n)).machine
  | 0, m, calls, returns, _, noCall, noReturn, _, _ => by
    obtain rfl := List.eq_nil_of_length_eq_zero noCall
    obtain rfl := List.eq_nil_of_length_eq_zero noReturn
    exact .flat m
  | n + 1, m, calls, returns, walked, someCall, someReturn, called, returned => by
    have count : n + 1 + (n + 1) = n + n + 1 + 1 := by omega
    obtain ⟨call, inner, rfl⟩ := List.exists_cons_of_length_eq_add_one someCall
    rcases List.eq_nil_or_concat returns with rfl | ⟨before, last, rfl⟩
    · nomatch someReturn
    rw [List.concat_eq_append] at walked someReturn returned ⊢
    have whole := Walk.steps_times_succ (n + n + 1) m
    rw [← count, walked, Walk.steps_times_concat, List.cons_append, ← List.append_assoc] at whole
    obtain ⟨rfl, rest⟩ := List.cons.inj whole
    obtain ⟨between, same⟩ := List.append_inj' rest rfl
    obtain rfl := (List.cons.inj same).1
    rw [List.length_append] at someReturn
    -- Between the first step, which calls, and the last, which returns, there is one nesting less.
    have unwinds := unwinds_of_steps n m.step.2 inner before between.symm (Nat.succ.inj someCall)
      (Nat.succ.inj someReturn) (fun s member => called s (List.mem_cons_of_mem _ member))
      fun s member => returned s (List.mem_append_left _ member)
    have jsr := called _ List.mem_cons_self
    have rts := returned _ (List.mem_append_right _ List.mem_cons_self)
    have last : ((Walk.begin m).times (n + n + 1 + 1)).machine =
        ((Walk.begin m.step.2).times (n + n)).machine.step.2 := by
      rw [Walk.machine_times_succ, ← Walk.times_add 1]
      rfl
    rw [count, last, List.map_cons, List.map_append, List.map_singleton, address_step]
    exact .nest jsr unwinds rts

/-- **Nested calls unwind.** From any state on plain memory `n` steps are calls and the next `n` are
returns, where `n` is at most 128. Then the returns lead in turn three bytes past the calls, from the last
call to the first; all registers but PC are as before the first call; and no byte has changed but at the
`2 n` places on page one from the one S pointed to downward. -/
theorem calls_unwind (m : Machine Memory) {n : Nat} (fits : n ≤ 128) {calls returns : List Step}
    (walked : ((Walk.begin m).times (n + n)).steps = calls ++ returns) (deep : calls.length = n)
    (called : ∀ s ∈ calls, s.executed.instruction.mnemonic = .jsr)
    (returned : ∀ s ∈ returns, s.executed.instruction.mnemonic = .rts) :
    let after := ((Walk.begin m).times (n + n)).machine
    returns.map (fun s => s.regs.pc) = (calls.map fun s => s.executed.address + 3).reverse ∧
    after.regs = { m.regs with pc := after.regs.pc } ∧
    ∀ address, address ∉ stackPlaces m.regs.s (2 * n) → after.bus.get address = m.bus.get address := by
  intro after
  have back : returns.length = n := by
    have steps := congrArg List.length walked
    rw [Walk.length_steps_times, List.length_append] at steps
    omega
  obtain ⟨behind, ⟨pc, regs⟩, kept⟩ :=
    (unwinds_of_steps n m calls returns walked deep back called returned).undone fits
  rw [List.map_map] at behind
  refine ⟨behind, ?_, kept⟩
  show after.regs = _
  rw [show after.regs = { m.regs with pc := pc } from regs]

/-- JSR from $01FD with S at $00: the stack wraps, and the high byte of the target is the low byte of the
address that has just been pushed. A second JSR pushes over the first. -/
theorem calls_unwind_wrapped :
    let memory := Memory.ofFn fun address =>
      if address = 0x01FD ∨ address = 0xFF34 then 0x20 else if address = 0x01FE then 0x34
      else if address = 0x0300 ∨ address = 0xFF37 then 0x60 else if address = 0xFF36 then 0x03 else 0x00
    let m : Machine Memory :=
      { settings := ⟨⟨1000000⟩, 16⟩, accepted := by decide
        regs := { Registers.powerOn with s := 0x00, pc := 0x01FD }
        bus := memory, phase := .running, budget := 16 }
    let walk := (Walk.begin m).times (2 + 2)
    ∃ calls returns : List Step, walk.steps = calls ++ returns ∧
      calls.map (fun s => s.executed.instruction.mnemonic) = [.jsr, .jsr] ∧
      returns.map (fun s => s.executed.instruction.mnemonic) = [.rts, .rts] ∧
      calls.map (fun s => s.executed.address) = [0x01FD, 0xFF34] ∧
      returns.map (fun s => s.regs.pc) = [0xFF37, 0x0200] ∧
      walk.machine.regs = { m.regs with pc := walk.machine.regs.pc } ∧
      walk.machine.bus.get 0x01FC = m.bus.get 0x01FC := by
  intro memory
  have bytes : ∀ address, memory.get address =
      if address = 0x01FD ∨ address = 0xFF34 then 0x20 else if address = 0x01FE then 0x34
      else if address = 0x0300 ∨ address = 0xFF37 then 0x60 else if address = 0xFF36 then 0x03 else 0x00 :=
    Memory.get_ofFn _
  clear_value memory
  intro m walk
  have jsr₁ : m.step.1.instruction.mnemonic = .jsr := by
    rw [instruction_step]
    simp only [m, Memory.bus_read, bytes]
    rfl
  obtain ⟨bus₁, regs₁⟩ := step_call jsr₁
  have here₁ : m.step.2.regs = { Registers.powerOn with s := 0xFE, pc := 0xFF34 } := by
    rw [regs₁, bus₁]
    simp only [m, Memory.get_set, bytes]
    rfl
  have jsr₂ : m.step.2.step.1.instruction.mnemonic = .jsr := by
    rw [instruction_step, here₁, bus₁]
    simp only [m, Memory.bus_read, Memory.get_set, bytes]
    rfl
  obtain ⟨bus₂, regs₂⟩ := step_call jsr₂
  have here₂ : m.step.2.step.2.regs = { Registers.powerOn with s := 0xFC, pc := 0x0300 } := by
    rw [regs₂, bus₂, here₁, bus₁]
    simp only [m, Memory.get_set, bytes]
    rfl
  have rts₁ : m.step.2.step.2.step.1.instruction.mnemonic = .rts := by
    rw [instruction_step, here₂, bus₂, here₁, bus₁]
    simp only [m, Memory.bus_read, Memory.get_set, bytes]
    rfl
  obtain ⟨bus₃, regs₃⟩ := step_comeBack rts₁
  have here₃ : m.step.2.step.2.step.2.regs = { Registers.powerOn with s := 0xFE, pc := 0xFF37 } := by
    have low : m.step.2.step.2.bus.get 0x01FD = 0x36 := by
      rw [bus₂, here₁]
      simp only [Memory.get_set]
      rfl
    have high : m.step.2.step.2.bus.get 0x01FE = 0xFF := by
      rw [bus₂, here₁]
      simp only [Memory.get_set]
      rfl
    rw [regs₃, here₂]
    show ({ Registers.powerOn with
        s := 0xFE
        pc := Word.ofBytes (m.step.2.step.2.bus.get 0x01FD)
          (m.step.2.step.2.bus.get 0x01FE) + 1 } : Registers) = _
    rw [low, high]
    decide
  have rts₂ : m.step.2.step.2.step.2.step.1.instruction.mnemonic = .rts := by
    rw [instruction_step, here₃, bus₃, bus₂, here₁, bus₁]
    simp only [m, Memory.bus_read, Memory.get_set, bytes]
    rfl
  -- Each step is a variable from here on, so that nothing is computed again.
  have taken {e : Executed} (r : Registers) {mnemonic : Mnemonic} {address : Word}
      (does : e.instruction.mnemonic = mnemonic) (here : e.address = address) :
      ∃ s : Step, s = ⟨e, r⟩ ∧ s.executed.instruction.mnemonic = mnemonic ∧ s.executed.address = address :=
    ⟨_, rfl, does, here⟩
  obtain ⟨s₁, step₁, does₁, at₁⟩ := taken m.step.2.regs jsr₁ m.address_step
  obtain ⟨s₂, step₂, does₂, at₂⟩ := taken m.step.2.step.2.regs jsr₂ m.step.2.address_step
  obtain ⟨s₃, step₃, does₃, -⟩ := taken m.step.2.step.2.step.2.regs rts₁ rfl
  obtain ⟨s₄, step₄, does₄, -⟩ := taken m.step.2.step.2.step.2.step.2.regs rts₂ rfl
  have walked : walk.steps = [s₁, s₂] ++ [s₃, s₄] := by
    show ((Walk.begin m).times (3 + 1)).steps = _
    rw [Walk.steps_times_succ 3, Walk.steps_times_succ 2, Walk.steps_times_succ 1, Walk.steps_times_succ 0,
      ← step₁, ← step₂, ← step₃, ← step₄]
    rfl
  have called : ∀ s ∈ [s₁, s₂], s.executed.instruction.mnemonic = .jsr := by
    rw [List.forall_mem_cons, List.forall_mem_singleton]
    exact ⟨does₁, does₂⟩
  have returned : ∀ s ∈ [s₃, s₄], s.executed.instruction.mnemonic = .rts := by
    rw [List.forall_mem_cons, List.forall_mem_singleton]
    exact ⟨does₃, does₄⟩
  obtain ⟨back, regs, kept⟩ := m.calls_unwind (by decide : 2 ≤ 128) walked rfl called returned
  have places : [s₁, s₂].map (fun s => s.executed.address) = [0x01FD, 0xFF34] := by
    rw [List.map_cons, List.map_singleton, at₁, at₂, here₁]
  refine ⟨[s₁, s₂], [s₃, s₄], walked, ?_, ?_, places, back.trans ?_, regs, kept 0x01FC ?_⟩
  · rw [List.map_cons, List.map_singleton, does₁, does₂]
  · rw [List.map_cons, List.map_singleton, does₃, does₄]
  · have behind := congrArg (fun places => (places.map (· + 3)).reverse) places
    rw [List.map_map] at behind
    exact behind.trans (by decide)
  · show 0x01FC ∉ stackPlaces 0x00 4
    decide

end Machine
end Nmos6502
