/-
# Events and log records

What a machine does is told as a list of events: instructions executed,
handlers entered, requests dropped, questions to the host, stops and resets.
A log is drawn from the events: some of them have a record, with a level and a
message.
-/
import Nmos6502.Clock
import Nmos6502.Execution
import Nmos6502.Hex

namespace Nmos6502

/-- Something a machine did. -/
inductive Event where
  | executed (what : Executed)
  | entered (kind : Interrupt) (returnTo handler : Word)
  /-- A poll found an IRQ and I set. -/
  | dropped (address : Word)
  | polled (answer : Answer)
  /-- A run ended, with the cycles it took. -/
  | stopped (address : Word) (total : Cycles)
  | reset (entry : Word)
  deriving DecidableEq, Repr

/-- How much detail a log record belongs to. -/
inductive LogLevel where
  | debug
  | trace
  deriving DecidableEq, Repr

def LogLevel.text : LogLevel → String
  | .debug => "DEBUG"
  | .trace => "TRACE"

/-- A message with its level. -/
structure LogRecord where
  level : LogLevel
  message : String
  deriving DecidableEq, Repr

def LogRecord.text (record : LogRecord) : String :=
  record.level.text ++ " " ++ record.message

/-- The record of an event, if it has one. Of the instructions only the undocumented have one; a
question to the host has none. -/
def Event.record? : Event → Option LogRecord
  | .executed what =>
    if what.instruction.isDocumented then none
    else some
      { level := .trace
        message := "illegal opcode " ++ Hex.byte what.instruction.opcode ++ " at " ++
          Hex.word what.address ++ " treated as NOP" }
  | .entered kind returnTo handler => some
      { level := .trace
        message := kind.text ++ " taken at " ++ Hex.word returnTo ++ ", handler " ++
          Hex.word handler }
  | .dropped address => some
      { level := .trace
        message := "IRQ dropped at " ++ Hex.word address ++ ": I set" }
  | .polled _ => none
  | .stopped address total => some
      { level := .debug
        message := "run stopped at " ++ Hex.word address ++ " after " ++ total.text }
  | .reset entry => some
      { level := .debug
        message := "reset, PC=" ++ Hex.word entry }

end Nmos6502
