/-
# The instruction set on plain memory

On a memory that only stores bytes, what an instruction does can be told
without a bus: where the operand is, as a formula in the registers and the
bytes of the program, what becomes of the registers, which bytes change, how
many cycles it takes. This module tells it so, in numbers, and with no access
that the result does not need.

Sums on page zero and places on the stack are taken modulo 256, addresses
modulo 65536. JSR alone depends on the order in which it goes about its work:
it pushes before it has read its last byte.

Key definitions: `Plain`, `Plain.address`, `Plain.after`, `Plain.written`,
`Plain.cycles`.
Key theorems: `Plain.get_after`.
-/
import Nmos6502.Memory
import Nmos6502.Proofs.DataSheet

namespace Nmos6502

/-- The byte on page one that lies so many places above the place S points to. -/
def Memory.onStack (m : Memory) (pointer : Byte) (above : Nat) : Byte :=
  m.get (BitVec.ofNat 16 (256 + (pointer.toNat + above) % 256))

/-- Registers and a memory, and nothing else. -/
structure Plain where
  regs : Registers
  memory : Memory

namespace Plain

variable (s : Plain)

/-! ### Where the operand is -/

def byte (address : Nat) : Byte :=
  s.memory.get (BitVec.ofNat 16 address)

/-- The number stored at two addresses. -/
def word (low high : Nat) : Nat :=
  (s.byte low).toNat + 256 * (s.byte high).toNat

def operandByte : Nat :=
  (s.byte (s.regs.pc.toNat + 1)).toNat

def operandWord : Nat :=
  s.word (s.regs.pc.toNat + 1) (s.regs.pc.toNat + 2)

/-- The address to which an index is added. -/
def base : AddressingMode → Nat
  | .absoluteX | .absoluteY => s.operandWord
  | .indirectIndexed => s.word s.operandByte ((s.operandByte + 1) % 256)
  | _ => 0

/-- The index that is added to an address. -/
def index : AddressingMode → Nat
  | .absoluteX => s.regs.x.toNat
  | .absoluteY | .indirectIndexed => s.regs.y.toNat
  | _ => 0

/-- The address of the operand. What a mode without an address has here does not matter. -/
def address (mode : AddressingMode) : Nat :=
  match mode with
  | .implied | .accumulator => 0
  | .immediate | .relative => s.regs.pc.toNat + 1
  | .zeroPage => s.operandByte
  | .zeroPageX => (s.operandByte + s.regs.x.toNat) % 256
  | .zeroPageY => (s.operandByte + s.regs.y.toNat) % 256
  | .absolute => s.operandWord
  | .absoluteX | .absoluteY | .indirectIndexed => (s.base mode + s.index mode) % 65536
  | .indirect =>
    s.word s.operandWord (s.operandWord / 256 * 256 + (s.operandWord + 1) % 256)
  | .indexedIndirect =>
    s.word ((s.operandByte + s.regs.x.toNat) % 256) ((s.operandByte + s.regs.x.toNat + 1) % 256)

def crosses (mode : AddressingMode) : Bool :=
  256 ≤ s.base mode % 256 + s.index mode

/-! ### What becomes of registers and memory -/

/-- The registers when the opcode and so many operand bytes have been read. -/
def past (count : Nat) : Registers :=
  { s.regs with pc := BitVec.ofNat 16 (s.regs.pc.toNat + 1 + count) }

def target : Word :=
  BitVec.ofInt 16 (s.regs.pc.toNat + 2 + (s.byte (s.regs.pc.toNat + 1)).toInt)

def push (value : Byte) : Plain where
  regs := { s.regs with s := s.regs.s - 1 }
  memory := s.memory.set (BitVec.ofNat 16 (256 + s.regs.s.toNat)) value

/-- The place on page one that lies so many places below the place S points to. -/
def slot (below : Nat) : Word :=
  BitVec.ofNat 16 (256 + (s.regs.s.toNat + 256 - below) % 256)

def pushWord (value : Nat) : Plain :=
  (s.push (BitVec.ofNat 8 (value / 256))).push (BitVec.ofNat 8 value)

def after (operation : Operation) (mode : AddressingMode) : Plain :=
  let r := s.past mode.operandLength
  let place := BitVec.ofNat 16 (s.address mode)
  let value := s.byte (s.address mode)
  match operation with
  | .read apply => { s with regs := apply value r }
  | .store source => { regs := r, memory := s.memory.set place (source (s.past 0)) }
  | .modify apply =>
    if mode = .accumulator then
      { s with regs := { r with a := (apply r.a r.p).1, p := (apply r.a r.p).2 } }
    else
      { regs := { r with p := (apply value r.p).2 }
        memory := s.memory.set place (apply value r.p).1 }
  | .internal apply => { s with regs := apply r }
  | .push source => Plain.push ⟨r, s.memory⟩ (source r)
  | .pull apply => { s with regs := apply (s.memory.onStack s.regs.s 1) { r with s := r.s + 1 } }
  | .branch taken => { s with regs.pc := if taken r.p then s.target else r.pc }
  | .jump => { s with regs.pc := place }
  | .call =>
    let pushed := s.pushWord (s.regs.pc.toNat + 2)
    let high := pushed.byte (s.regs.pc.toNat + 2)
    { pushed with regs.pc := BitVec.ofNat 16 (s.operandByte + 256 * high.toNat) }
  | .comeBack =>
    let back := (s.memory.onStack s.regs.s 1).toNat + 256 * (s.memory.onStack s.regs.s 2).toNat
    { s with regs := { r with s := r.s + 2, pc := BitVec.ofNat 16 (back + 1) } }
  | .endInterrupt =>
    let back := (s.memory.onStack s.regs.s 2).toNat + 256 * (s.memory.onStack s.regs.s 3).toNat
    let p := Status.ofByte (s.memory.onStack s.regs.s 1 &&& 0xEF ||| 0x20)
    { s with regs := { r with s := r.s + 3, p := p, pc := BitVec.ofNat 16 back } }
  | .breakIn =>
    let pushed := (s.pushWord (s.regs.pc.toNat + 2)).push (s.regs.p.toByte ||| 0x30)
    let handler := BitVec.ofNat 16 (s.word 0xFFFE 0xFFFF)
    { pushed with regs.pc := handler, regs.p.interruptDisable := true }
  | .undocumented => { s with regs := r }

/-- The addresses whose bytes an instruction may change. -/
def written (operation : Operation) (mode : AddressingMode) : List Word :=
  let place := BitVec.ofNat 16 (s.address mode)
  match operation with
  | .store _ => [place]
  | .modify _ => if mode = .accumulator then [] else [place]
  | .push _ => [s.slot 0]
  | .call => [s.slot 0, s.slot 1]
  | .breakIn => [s.slot 0, s.slot 1, s.slot 2]
  | _ => []

/-- The cycles beyond those of the operation and its mode: one if an operand that is read lies on
another page than its base, one for a branch that is taken, two if it leads to another page. -/
def extra (operation : Operation) (mode : AddressingMode) : Nat :=
  match operation with
  | .read _ => (s.crosses mode).toNat
  | .branch taken =>
    if taken s.regs.p then
      if (s.past mode.operandLength).pc.toNat / 256 = s.target.toNat / 256 then 1 else 2
    else 0
  | _ => 0

def cycles (operation : Operation) (mode : AddressingMode) : Nat :=
  operation.cycles mode + s.extra operation mode

/-! ### What an instruction leaves alone -/

theorem get_push (value : Byte) {address : Word} (other : address ≠ s.slot 0) :
    (s.push value).memory.get address = s.memory.get address := by
  have here : BitVec.ofNat 16 (256 + s.regs.s.toNat) = s.slot 0 := by
    have hs := s.regs.s.isLt
    unfold slot
    congr 2
    omega
  unfold push
  rw [here, Memory.get_set, if_neg other]

/-- What lies below S lies one place higher after a push. -/
theorem slot_push (value : Byte) (below : Nat) (h : below < 256) :
    (s.push value).slot below = s.slot (below + 1) := by
  have down : ((s.regs.s - 1).toNat + 256 - below) % 256 = (s.regs.s.toNat + 256 - (below + 1)) % 256 := by
    have one : (1 : Byte).toNat = 1 := rfl
    have hs := s.regs.s.isLt
    rw [BitVec.toNat_sub]
    omega
  unfold slot push
  rw [down]

theorem get_pushWord (value : Nat) {address : Word} (high : address ≠ s.slot 0)
    (low : address ≠ s.slot 1) : (s.pushWord value).memory.get address = s.memory.get address := by
  have second : address ≠ (s.push (BitVec.ofNat 8 (value / 256))).slot 0 := by
    rw [slot_push s _ 0 (by decide)]
    exact low
  unfold pushWord
  rw [get_push _ _ second, get_push _ _ high]

/-- An instruction changes no other byte than it is said to. -/
theorem get_after (operation : Operation) (mode : AddressingMode) (address : Word)
    (other : address ∉ s.written operation mode) :
    (s.after operation mode).memory.get address = s.memory.get address := by
  cases operation with
  | read | internal | pull | branch | jump | comeBack | endInterrupt | undocumented => rfl
  | store source =>
    have elsewhere := (not_congr List.mem_singleton).mp other
    exact (s.memory.get_set _ _ _).trans (if_neg elsewhere)
  | modify apply =>
    by_cases accumulator : mode = .accumulator
    · simp only [after, if_pos accumulator]
    · simp only [written, if_neg accumulator] at other
      have elsewhere := (not_congr List.mem_singleton).mp other
      simp only [after, if_neg accumulator, Memory.get_set, if_neg elsewhere]
  | push source => exact get_push _ _ ((not_congr List.mem_singleton).mp other)
  | call =>
    simp only [written, List.mem_cons, List.not_mem_nil, or_false, not_or] at other
    exact s.get_pushWord _ other.1 other.2
  | breakIn =>
    simp only [written, List.mem_cons, List.not_mem_nil, or_false, not_or] at other
    obtain ⟨high, low, flags⟩ := other
    have third : address ≠ (s.pushWord (s.regs.pc.toNat + 2)).slot 0 := by
      unfold pushWord
      rw [slot_push _ _ 0 (by decide), slot_push _ _ 1 (by decide)]
      exact flags
    exact (get_push _ _ third).trans (s.get_pushWord _ high low)

end Plain
end Nmos6502
