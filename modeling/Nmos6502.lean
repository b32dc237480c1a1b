/-
# An interpreter for the NMOS 6502

The documented instruction set with its cycle counts and the accesses the chip
makes on its bus, interrupts, and a scheduler that asks its host what to do
every so many cycles.
-/
import Nmos6502.Inspect
import Nmos6502.Proofs.BusContract
import Nmos6502.Proofs.Calls
import Nmos6502.Proofs.Chronicle
import Nmos6502.Proofs.Comparison
import Nmos6502.Proofs.Conservation
import Nmos6502.Proofs.CycleLaw
import Nmos6502.Proofs.DecimalMode
import Nmos6502.Proofs.Ending
import Nmos6502.Proofs.Frame
import Nmos6502.Proofs.FrameRate
import Nmos6502.Proofs.Halting
import Nmos6502.Proofs.Lifo
import Nmos6502.Proofs.Loading
import Nmos6502.Proofs.Marks
import Nmos6502.Proofs.Multibyte
import Nmos6502.Proofs.Nesting
import Nmos6502.Proofs.Occupancy
import Nmos6502.Proofs.OnPlain
import Nmos6502.Proofs.Pace
import Nmos6502.Proofs.Packed
import Nmos6502.Proofs.Requests
import Nmos6502.Proofs.Return
import Nmos6502.Proofs.Shifts
import Nmos6502.Proofs.Stepwise
import Nmos6502.Proofs.Stream
import Nmos6502.Proofs.Undocumented
import Nmos6502.Proofs.Views
import Nmos6502.Proofs.Waiting
import Nmos6502.Session
import Nmos6502.Trial
