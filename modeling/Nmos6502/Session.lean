/-
# Sessions with a machine

A session is a machine, the answers its host has ready, what the host does to
memory that it shares with the bus when it is asked, and the number of times it
was. It is driven by commands, which are all that can be done to a machine from
outside. Each command gives a reply and tells what happened, and the bus keeps a
record of the accesses.
-/
import Nmos6502.Board
import Nmos6502.Run
import Nmos6502.Stepping
import Nmos6502.Trace

namespace Nmos6502

inductive Assignment where
  | a (value : Byte)
  | x (value : Byte)
  | y (value : Byte)
  | s (value : Byte)
  | pc (value : Word)
  /-- P, with R forced on. -/
  | p (value : Byte)
  /-- P, bit for bit. -/
  | exactP (value : Byte)
  deriving DecidableEq, Repr

def Registers.assign (r : Registers) : Assignment → Registers
  | .a value => { r with a := value }
  | .x value => { r with x := value }
  | .y value => { r with y := value }
  | .s value => { r with s := value }
  | .pc value => { r with pc := value }
  | .p value => { r with p := Status.loaded value }
  | .exactP value => { r with p := Status.ofByte value }

/-- Something done to a machine. -/
inductive Command where
  | reset
  | request (kind : Interrupt)
  /-- Step so many times. -/
  | step (count : Nat)
  /-- Step until the program traps itself, at most so many times. -/
  | stepUntilTrapped (limit : Nat)
  /-- Run until the host says stop. -/
  | run
  | assign (what : Assignment)
  | setFlags (mask : Byte) (on : Bool)
  | readBus (address : Word)
  | writeBus (address : Word) (value : Byte)
  /-- Load bytes into the memory behind the bus, without an access. -/
  | load (address : Word) (bytes : List Byte)
  /-- Give the host more answers. -/
  | prepare (answers : List Answer)
  deriving DecidableEq, Repr

inductive Reply where
  | nothing
  | stepped (steps : List Step) (cycles : Nat)
  | trapped (found : Bool) (steps : List Step) (cycles : Nat)
  | ran (cycles : Cycles)
  | byte (value : Byte)
  deriving DecidableEq, Repr

/-- A machine on a bus that keeps a record, and its host. The host may share memory with the bus: `note` says
what it does there when it gives an answer. -/
structure Session (β : Type) where
  machine : Machine (Traced β)
  answers : List Answer
  polls : Nat
  note : Answer → β → β := fun _ bus => bus

structure Report where
  reply : Reply
  events : List Event
  deriving DecidableEq, Repr

def Report.quiet (reply : Reply) : Report where
  reply := reply
  events := []

namespace Session

variable {β : Type} [Bus β] [Backed β]

/-- Do what a command says. -/
def perform (s : Session β) (command : Command) : Report × Session β :=
  let ⟨m, answers, polls, note⟩ := s
  match command with
  | .reset =>
    let m := m.reset
    ({ reply := .nothing, events := [.reset m.regs.pc] }, ⟨m, answers, polls, note⟩)
  | .request kind => (.quiet .nothing, ⟨m.request kind, answers, polls, note⟩)
  | .step count =>
    let w := (Walk.begin m).times count
    ({ reply := .stepped w.steps w.cycles, events := w.events }, ⟨w.machine, answers, polls, note⟩)
  | .stepUntilTrapped limit =>
    let (found, w) := (Walk.begin m).untilTrapped limit
    ({ reply := .trapped found w.steps w.cycles, events := w.events }, ⟨w.machine, answers, polls, note⟩)
  | .run =>
    let (r, rest) := m.runNoting (Traced.notePoll note) answers
    let asked := r.journal.countP fun e => e matches .polled _
    ({ reply := .ran r.cycles, events := r.journal.reverse }, ⟨r.machine, rest, polls + asked, note⟩)
  | .assign what => (.quiet .nothing, ⟨{ m with regs := m.regs.assign what }, answers, polls, note⟩)
  | .setFlags mask on =>
    (.quiet .nothing, ⟨{ m with regs.p := m.regs.p.setTo mask on }, answers, polls, note⟩)
  | .readBus address =>
    let (value, bus) := Bus.read m.bus address
    (.quiet (.byte value), ⟨{ m with bus := bus }, answers, polls, note⟩)
  | .writeBus address value =>
    (.quiet .nothing, ⟨{ m with bus := Bus.write m.bus address value }, answers, polls, note⟩)
  | .load address bytes =>
    let ⟨bus, record⟩ := m.bus
    let bus : Traced β := ⟨Backed.load bus address bytes, record⟩
    (.quiet .nothing, ⟨{ m with bus := bus }, answers, polls, note⟩)
  | .prepare more => (.quiet .nothing, ⟨m, answers ++ more, polls, note⟩)

/-- What was seen on the bus since the last time it was collected. -/
def collect (s : Session β) : List Activity × Session β :=
  let (seen, bus) := s.machine.bus.collect
  (seen, { s with machine.bus := bus })

end Session
end Nmos6502
