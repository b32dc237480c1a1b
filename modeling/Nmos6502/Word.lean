/-
# Bytes, words and pages

The processor computes on bytes and addresses memory with 16-bit words. A word
is a low byte and a high byte; the high byte names one of the 256 pages, the
low byte a place on it. Every address the processor forms is put together from
two bytes by `Word.ofBytes`, so what wraps (the offset on a page, or the whole
word) can be read off the place where it is formed.
-/
namespace Nmos6502

/-- What one bus access carries, and what A, X, Y and the stack pointer hold. -/
abbrev Byte := BitVec 8

/-- An address, and what the program counter holds. -/
abbrev Word := BitVec 16

namespace Byte

def highDigit (b : Byte) : Fin 16 :=
  ⟨b.toNat / 16, by omega⟩

def lowDigit (b : Byte) : Fin 16 :=
  ⟨b.toNat % 16, by omega⟩

end Byte

namespace Word

def ofBytes (low high : Byte) : Word :=
  BitVec.ofNatLT (high.toNat * 256 + low.toNat) (by omega)

/-- The low byte: the place on the page. -/
def low (w : Word) : Byte :=
  BitVec.ofNatLT (w.toNat % 256) (by omega)

/-- The high byte: the number of the page. -/
def high (w : Word) : Byte :=
  BitVec.ofNatLT (w.toNat / 256) (by omega)

def samePage (v w : Word) : Bool :=
  v.high == w.high

theorem toNat_ofBytes (l h : Byte) : (ofBytes l h).toNat = h.toNat * 256 + l.toNat := rfl

theorem toNat_low (w : Word) : w.low.toNat = w.toNat % 256 := rfl

theorem toNat_high (w : Word) : w.high.toNat = w.toNat / 256 := rfl

@[simp] theorem low_ofBytes (l h : Byte) : (ofBytes l h).low = l := by
  apply BitVec.eq_of_toNat_eq
  rw [toNat_low, toNat_ofBytes]
  omega

@[simp] theorem high_ofBytes (l h : Byte) : (ofBytes l h).high = h := by
  apply BitVec.eq_of_toNat_eq
  rw [toNat_high, toNat_ofBytes]
  omega

@[simp] theorem ofBytes_low_high (w : Word) : ofBytes w.low w.high = w := by
  apply BitVec.eq_of_toNat_eq
  rw [toNat_ofBytes, toNat_low, toNat_high]
  omega

end Word

def zeroPage (offset : Byte) : Word :=
  Word.ofBytes offset 0

/-- An address on page one, where the stack lives. -/
def stackPage (offset : Byte) : Word :=
  Word.ofBytes offset 1

end Nmos6502
