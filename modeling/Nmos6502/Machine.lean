/-
# The machine

A machine is the registers and a bus, the settings it was made with, the phase
its scheduler is in, and the budget: the cycles left until its host is asked
again. The budget goes below zero when the last instruction overshoots it, and
stops at the ends of the signed 32-bit range.

A step works outside the scheduler: it leaves phase and budget as they are.

Key definitions: `Machine`, `Machine.make`, `Machine.step`, `Machine.request`,
`Machine.reset`, `Machine.spend`, `Machine.replenish`.
Key theorems: `Machine.of_make`, `Machine.make_eq_error_iff`, `Machine.exists_make_iff`,
`Machine.request_eq`, `Machine.budget_spend`, `Machine.two_le_cycles_step`.
-/
import Nmos6502.Execution
import Nmos6502.Settings

namespace Nmos6502

/-- A processor with its bus and its scheduler. -/
structure Machine (β : Type) where
  settings : Settings
  accepted : settings.Accepted
  regs : Registers
  bus : β
  phase : Phase
  budget : Int

def leastBudget : Int := -2147483648

def greatestBudget : Int := 2147483647

namespace Machine

variable {β : Type}

/-- A machine at power-on, or why its settings are refused. -/
def make (settings : Settings) (bus : β) : Except SettingsError (Machine β) :=
  match h : settings.check with
  | .error e => .error e
  | .ok () => .ok
    { settings := settings
      accepted := Settings.Accepted.of_check h
      regs := Registers.powerOn
      bus := bus
      phase := .running
      budget := settings.period }

/-- What is made is a machine at power-on with a full budget. -/
theorem of_make {settings : Settings} {bus : β} {m : Machine β} (made : make settings bus = .ok m) :
    ∃ accepted, m = ⟨settings, accepted, .powerOn, bus, .running, settings.period⟩ := by
  unfold make at made
  split at made
  · cases made
  · injection made with eq
    exact ⟨_, eq.symm⟩

theorem make_eq_error_iff {settings : Settings} {bus : β} {e : SettingsError} :
    make settings bus = .error e ↔ settings.check = .error e := by
  unfold make
  split
  · next e' refused => rw [refused, Except.error.injEq, Except.error.injEq]
  · next fine => exact ⟨nofun, fun refused => nomatch fine.symm.trans refused⟩

theorem exists_make_iff {settings : Settings} {bus : β} :
    (∃ m, make settings bus = .ok m) ↔ settings.Accepted := by
  rw [← settings.check_eq_ok_iff]
  unfold make
  split
  · next e refused =>
    rw [refused]
    exact ⟨fun ⟨_, made⟩ => (nomatch made), fun accepted => (nomatch accepted)⟩
  · next fine => exact ⟨fun _ => fine, fun _ => ⟨_, rfl⟩⟩

/-- The host stopped the machine, and nothing has been asked of it since. -/
def isHalted (m : Machine β) : Bool :=
  m.phase == .halted

/-- Put down a request. It meets the one that waits, if one does. -/
def request (m : Machine β) (kind : Interrupt) : Machine β :=
  match Interrupt.stronger m.phase.request? (some kind) with
  | some winner => { m with phase := .pending winner }
  | none => m

/-- A request changes the phase and nothing else: it waits, or a stronger one that it has met does. -/
theorem request_eq (m : Machine β) (kind : Interrupt) :
    ∃ waiting, m.request kind = { m with phase := .pending waiting } := by
  unfold request
  split
  · next waiting _ => exact ⟨waiting, rfl⟩
  · next none => nomatch ((Interrupt.stronger_eq_none_iff _ _).mp none).2

theorem regs_request (m : Machine β) (kind : Interrupt) : (m.request kind).regs = m.regs := by
  obtain ⟨_, eq⟩ := m.request_eq kind
  rw [eq]

/-! ### The budget -/

def spend (m : Machine β) (cycles : Nat) : Machine β :=
  { m with budget := max leastBudget (m.budget - cycles) }

def replenish (m : Machine β) : Machine β :=
  { m with budget := min greatestBudget (m.budget + m.settings.period) }

theorem budget_spend (m : Machine β) (cycles : Nat) (h : 0 < (m.spend cycles).budget) :
    (m.spend cycles).budget = m.budget - cycles := by
  have : leastBudget < 0 := by decide
  simp only [spend] at *
  omega

/-! ### Dialogues -/

variable [Bus β]

/-- Let the processor hold a dialogue that leaves new registers. -/
def converse {α : Type} (m : Machine β) (talk : Registers → Dialogue (α × Registers)) :
    α × Machine β :=
  let ((result, regs), bus) := (talk m.regs).on m.bus
  (result, { m with regs := regs, bus := bus })

def step (m : Machine β) : Executed × Machine β :=
  m.converse Registers.step

def enter (m : Machine β) (kind : Interrupt) : Machine β :=
  (m.converse fun r => ((), ·) <$> r.enter kind).2

/-- Reset: registers as at power-on, PC from the reset vector, no request, a full budget. -/
def reset (m : Machine β) : Machine β :=
  let m := (m.converse fun _ => ((), ·) <$> Registers.reset).2
  { m with phase := .running, budget := m.settings.period }

@[simp] theorem budget_converse {α : Type} (m : Machine β)
    (talk : Registers → Dialogue (α × Registers)) : (m.converse talk).2.budget = m.budget := rfl

@[simp] theorem budget_step (m : Machine β) : m.step.2.budget = m.budget := rfl

@[simp] theorem phase_step (m : Machine β) : m.step.2.phase = m.phase := rfl

@[simp] theorem settings_step (m : Machine β) : m.step.2.settings = m.settings := rfl

@[simp] theorem budget_enter (m : Machine β) (kind : Interrupt) :
    (m.enter kind).budget = m.budget := rfl

@[simp] theorem phase_enter (m : Machine β) (kind : Interrupt) :
    (m.enter kind).phase = m.phase := rfl

@[simp] theorem settings_enter (m : Machine β) (kind : Interrupt) :
    (m.enter kind).settings = m.settings := rfl

theorem two_le_cycles_step (m : Machine β) : 2 ≤ m.step.1.cycles :=
  m.regs.two_le_cycles_step m.bus

end Machine
end Nmos6502
