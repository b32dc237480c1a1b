/-
# Hexadecimal text

Bytes and words are written with a dollar sign and upper-case digits, two for
a byte and four for a word, leading zeros kept.
-/
import Nmos6502.Word

namespace Nmos6502
namespace Hex

def digits : Vector Char 16 :=
  #v['0', '1', '2', '3', '4', '5', '6', '7', '8', '9', 'A', 'B', 'C', 'D', 'E', 'F']

def pair (b : Byte) : List Char :=
  [digits.get (Byte.highDigit b), digits.get (Byte.lowDigit b)]

/-- A byte: `$` and two digits. -/
def byte (b : Byte) : String :=
  String.ofList ('$' :: pair b)

/-- A word: `$` and four digits. -/
def word (w : Word) : String :=
  String.ofList ('$' :: (pair w.high ++ pair w.low))

example : byte 0x0A = "$0A" ∧ word 0xC00F = "$C00F" := by decide

end Hex
end Nmos6502
