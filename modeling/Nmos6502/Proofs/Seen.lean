/-
# What is seen on a bus

A dialogue held with a bus shows on it as a list of accesses, each with the
byte it carried (`Dialogue.seen`). A bus that already has a record adds them to
it (`Dialogue.on_traced`).

Which bytes are read depends on the bus. `Dialogue.Shows` says that the
accesses and the result have a property together whatever is read, so what is
proved with it holds on every bus (`Dialogue.Shows.on`).

Key definitions: `Dialogue.seen`, `Dialogue.Shows`, `Machine.seenInStep`,
`Machine.seenInEntry`.
Key theorems: `Dialogue.on_traced`, `Dialogue.on_memory`, `Dialogue.Shows.bind`,
`Dialogue.Shows.on`, `Machine.step_traced`.
-/
import Nmos6502.Machine
import Nmos6502.Memory
import Nmos6502.Proofs.Yields
import Nmos6502.Trace

namespace Nmos6502
namespace Dialogue

variable {α γ β : Type}

/-! ### On one bus -/

section

variable [Bus β]

/-- What is seen on a bus while a dialogue is held with it, in order of time. -/
def seen (d : Dialogue α) (bus : β) : List Activity :=
  (d.on (Traced.fresh bus)).2.collect.1

theorem on_read_traced (address : Word) (next : Byte → Dialogue α) (bus : β) (record : List Activity) :
    (Dialogue.read address next).on (Traced.mk bus record) =
      (next (Bus.read bus address).1).on
        (Traced.mk (Bus.read bus address).2 (.read address (Bus.read bus address).1 :: record)) := rfl

theorem on_write_traced (address : Word) (value : Byte) (next : Dialogue α) (bus : β)
    (record : List Activity) :
    (Dialogue.write address value next).on (Traced.mk bus record) =
      next.on (Traced.mk (Bus.write bus address value) (.write address value :: record)) := rfl

/-- A dialogue leaves what it shows in front of the record it finds. -/
theorem on_traced_append (d : Dialogue α) (bus : β) (record : List Activity) :
    d.on (Traced.mk bus record) =
      ((d.on bus).1, Traced.mk (d.on bus).2 ((d.on (Traced.mk bus [])).2.record ++ record)) := by
  induction d generalizing bus record with
  | done result => rfl
  | read address next ih =>
    rw [on_read_traced, on_read_traced, ih, ih _ _ [_], on_read]
    simp only [List.append_assoc, List.singleton_append]
  | write address value next ih =>
    rw [on_write_traced, on_write_traced, ih, ih _ [_], on_write]
    simp only [List.append_assoc, List.singleton_append]

/-- A bus with a record answers as it does without, and what is seen comes on top of the record. -/
theorem on_traced (d : Dialogue α) (t : Traced β) :
    d.on t = ((d.on t.bus).1,
      { bus := (d.on t.bus).2, record := (d.seen t.bus).reverse ++ t.record }) := by
  unfold seen Traced.collect
  rw [List.reverse_reverse]
  exact on_traced_append d t.bus t.record

@[simp] theorem seen_done (result : α) (bus : β) : (Dialogue.done result).seen bus = [] := rfl

theorem seen_read (address : Word) (next : Byte → Dialogue α) (bus : β) :
    (Dialogue.read address next).seen bus =
      .read address (Bus.read bus address).1 ::
        (next (Bus.read bus address).1).seen (Bus.read bus address).2 := by
  simp only [seen, Traced.collect, Traced.fresh]
  rw [on_read_traced, on_traced_append, List.reverse_append]
  rfl

theorem seen_write (address : Word) (value : Byte) (next : Dialogue α) (bus : β) :
    (Dialogue.write address value next).seen bus =
      .write address value :: next.seen (Bus.write bus address value) := by
  simp only [seen, Traced.collect, Traced.fresh]
  rw [on_write_traced, on_traced_append, List.reverse_append]
  rfl

theorem seen_bind (d : Dialogue α) (f : α → Dialogue γ) (bus : β) :
    (d >>= f).seen bus = d.seen bus ++ (f (d.on bus).1).seen (d.on bus).2 := by
  induction d generalizing bus with
  | done result => rfl
  | read address next ih =>
    rw [read_bind, seen_read, seen_read, ih, on_read, List.cons_append]
  | write address value next ih =>
    rw [write_bind, seen_write, seen_write, ih, on_write, List.cons_append]

end

/-- Plain memory when all writes of a record have been made. -/
def replay : Memory → List Activity → Memory
  | memory, .write address value :: later => replay (memory.set address value) later
  | memory, _ :: later => replay memory later
  | memory, [] => memory

/-- What is seen of a dialogue is all that it does to a memory. -/
theorem on_memory (d : Dialogue α) (memory : Memory) : (d.on memory).2 = replay memory (d.seen memory) := by
  induction d generalizing memory with
  | done result => rfl
  | read address next ih =>
    rw [seen_read, on_read, ih]
    rfl
  | write address value next ih =>
    rw [seen_write, on_write, ih]
    rfl

/-! ### On every bus -/

/-- Whatever is read, the accesses and the result have a property together. -/
def Shows : Dialogue α → (List Activity → α → Prop) → Prop
  | .done result, post => post [] result
  | .read address next, post =>
    ∀ value, (next value).Shows fun later => post (.read address value :: later)
  | .write address value next, post => next.Shows fun later => post (.write address value :: later)

variable {post : List Activity → α → Prop}

theorem shows_bind {post : List Activity → γ → Prop} (d : Dialogue α) (f : α → Dialogue γ) :
    (d >>= f).Shows post ↔
      d.Shows fun first result => (f result).Shows fun second => post (first ++ second) := by
  induction d generalizing post with
  | done result => exact Iff.rfl
  | read address next ih => exact forall_congr' fun value => ih value
  | write address value next ih => exact ih

theorem shows_map {post : List Activity → γ → Prop} (f : α → γ) (d : Dialogue α) :
    (f <$> d).Shows post ↔ d.Shows fun seen result => post seen (f result) := by
  induction d generalizing post with
  | done result => exact Iff.rfl
  | read address next ih => exact forall_congr' fun value => ih value
  | write address value next ih => exact ih

theorem Shows.mono {weaker : List Activity → α → Prop} {d : Dialogue α} (h : d.Shows post)
    (weaken : ∀ seen result, post seen result → weaker seen result) : d.Shows weaker := by
  induction d generalizing post weaker with
  | done result => exact weaken [] result h
  | read address next ih =>
    exact fun value => ih value (h value) fun later => weaken (.read address value :: later)
  | write address value next ih => exact ih h fun later => weaken (.write address value :: later)

theorem Shows.and_yields {also : α → Prop} {d : Dialogue α} (h : d.Shows post) (yields : d.Yields also) :
    d.Shows fun seen result => post seen result ∧ also result := by
  induction d generalizing post with
  | done result => exact ⟨h, yields⟩
  | read address next ih => exact fun value => ih value (h value) (yields value)
  | write address value next ih => exact ih h yields

/-- What a first dialogue shows is all a second one has to go by. -/
theorem Shows.bind {first : List Activity → α → Prop} {post : List Activity → γ → Prop}
    {d : Dialogue α} {f : α → Dialogue γ} (h : d.Shows first)
    (next : ∀ seen result, first seen result → (f result).Shows fun later => post (seen ++ later)) :
    (d >>= f).Shows post :=
  (shows_bind d f).mpr (h.mono next)

theorem Shows.on [Bus β] {d : Dialogue α} (h : d.Shows post) (bus : β) :
    post (d.seen bus) (d.on bus).1 := by
  induction d generalizing post bus with
  | done result => exact h
  | read address next ih =>
    rw [seen_read]
    exact ih _ (h _) _
  | write address value next ih =>
    rw [seen_write]
    exact ih h _

end Dialogue

/-! ### A machine on its bus -/

namespace Machine

variable {β : Type} [Bus β]

/-- What is seen on the bus while an instruction is executed. -/
def seenInStep (m : Machine β) : List Activity :=
  m.regs.step.seen m.bus

def seenInEntry (m : Machine β) (kind : Interrupt) : List Activity :=
  (m.regs.enter kind).seen m.bus

/-- The opcode is fetched, and then the instruction does its work. -/
theorem step_eq (m : Machine β) :
    let fetched := Bus.read m.bus m.regs.pc
    let i := Instruction.decode fetched.1
    let performed := (i.perform { m.regs with pc := m.regs.pc + 1 }).on fetched.2
    m.step =
      ({ address := m.regs.pc
         instruction := i
         cycles := baseCycles fetched.1 + performed.1.2 },
       { m with regs := performed.1.1, bus := performed.2 }) := by
  unfold step converse Registers.step Registers.fetch
  simp only [Dialogue.on_bind, Dialogue.on_readByte, Dialogue.pure_eq, Dialogue.on_done]

theorem instruction_step (m : Machine β) :
    m.step.1.instruction = Instruction.decode (Bus.read m.bus m.regs.pc).1 := by
  rw [m.step_eq]

theorem address_step (m : Machine β) : m.step.1.address = m.regs.pc := by
  rw [m.step_eq]

theorem enter_eq (m : Machine β) (kind : Interrupt) :
    m.enter kind =
      { m with
        regs := ((m.regs.enter kind).on m.bus).1
        bus := ((m.regs.enter kind).on m.bus).2 } := by
  unfold enter converse
  rw [Dialogue.on_map]

/-- What is seen of a step: the opcode, and then what its instruction shows. -/
theorem seenInStep_eq (m : Machine β) :
    m.seenInStep =
      .read m.regs.pc (Bus.read m.bus m.regs.pc).1 ::
        ((Instruction.decode (Bus.read m.bus m.regs.pc).1).perform
          { m.regs with pc := m.regs.pc + 1 }).seen (Bus.read m.bus m.regs.pc).2 := by
  unfold seenInStep Registers.step
  rw [Dialogue.seen_bind, Dialogue.seen_bind]
  exact congrArg _ (List.append_nil _)

/-- A machine whose bus keeps a record does what it does without, and the record has what is seen. -/
theorem step_traced (m : Machine β) (record : List Activity) :
    ({ m with bus := { bus := m.bus, record := record } } : Machine (Traced β)).step =
      (m.step.1,
        { m.step.2 with
          bus := { bus := m.step.2.bus, record := m.seenInStep.reverse ++ record } }) := by
  unfold step converse
  rw [Dialogue.on_traced]
  rfl

end Machine
end Nmos6502
