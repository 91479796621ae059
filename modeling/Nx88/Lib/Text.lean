import Mathlib.Data.List.Defs
/-!
# Text as bytes

ASCII texts, and the functions of the C library on them, in the C locale.
-/

namespace Nx88.Lib.Text

def ascii (s : String) : List (BitVec 8) := s.toList.map fun c => BitVec.ofNat 8 c.toNat

def decimal (n : Nat) : List (BitVec 8) :=
  (Nat.toDigits 10 n).map fun c => BitVec.ofNat 8 c.toNat

def tolower (c : BitVec 8) : BitVec 8 := if 0x41 ≤ c ∧ c ≤ 0x5A then c + 0x20 else c

def isdigit (c : BitVec 8) : Bool := 0x30 ≤ c ∧ c ≤ 0x39

def strstr (hay needle : List (BitVec 8)) : Bool := hay.tails.any needle.isPrefixOf

end Nx88.Lib.Text
