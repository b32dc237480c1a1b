/-
# Read-only memory

A bus that answers from a table and takes no writes. A program in it runs
without a whole memory behind it.
-/
import Nmos6502.Board

namespace Nmos6502

/-- What is read at each address. -/
structure Rom where
  byte : Word → Byte

namespace Rom

instance : Bus Rom where
  read rom address := (rom.byte address, rom)
  write rom _ _ := rom

instance : Backed Rom where
  memory rom := Memory.ofFn rom.byte
  load rom address bytes := { byte := ((Memory.ofFn rom.byte).load address bytes).get }

/-- One byte at every address. -/
def uniform (value : Byte) : Rom where
  byte _ := value

end Rom
end Nmos6502
