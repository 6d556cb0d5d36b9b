import Mathlib.Data.BitVec

/-!
# ASCII characters as bytes

What the C library says of characters: white space, and the digits of hexadecimal numbers.
-/

namespace Ascii

def chars (cs : List Char) : List (BitVec 8) := cs.map fun c ↦ BitVec.ofNat 8 c.toNat

def newline : BitVec 8 := 0x0a
def plus : BitVec 8 := 0x2b
def minus : BitVec 8 := 0x2d
def zero : BitVec 8 := 0x30
def colon : BitVec 8 := 0x3a
def equals : BitVec 8 := 0x3d

def isSpace (c : BitVec 8) : Bool := c = 0x20 ∨ 0x09 ≤ c ∧ c ≤ 0x0d

def isX (c : BitVec 8) : Bool := c = 0x78 ∨ c = 0x58

def hexDigit (c : BitVec 8) : Option ℕ :=
  if 0x30 ≤ c.toNat ∧ c.toNat ≤ 0x39 then some (c.toNat - 0x30)
  else if 0x41 ≤ c.toNat ∧ c.toNat ≤ 0x46 then some (c.toNat - 0x37)
  else if 0x61 ≤ c.toNat ∧ c.toNat ≤ 0x66 then some (c.toNat - 0x57)
  else none

theorem hexDigit_first {c : BitVec 8} {v : ℕ} (h : hexDigit c = some v) :
    isSpace c = false ∧ ¬(c = plus ∨ c = minus) ∧ v < 16 := by
  unfold hexDigit at h
  simp only [isSpace, plus, minus, BitVec.le_def, BitVec.toNat_eq, decide_eq_false_iff_not]
  split_ifs at h <;> obtain rfl := Option.some.inj h <;> simp <;> omega

end Ascii
