import Nx88.Devices
/-!
# Arithmetic of the execution core

The condition word of `cmp`, branch conditions, the bit-field operations, and
floating point.  The host's floating-point unit is a parameter: only the
register traffic of the FPU instructions is modelled.
-/

namespace Nx88

/-- What the emulator takes from the machine it runs on: double arithmetic on
bit patterns, and the indeterminate contents of a fresh transfer buffer. -/
structure Host where
  ofSingle : U32 → U64
  toSingle : U64 → U32
  add : U64 → U64 → U64
  sub : U64 → U64 → U64
  mul : U64 → U64 → U64
  div : U64 → U64 → U64
  sqrt : U64 → U64
  ofInt : U32 → U64
  lrint : U64 → U32
  trunc : U64 → U32
  lt : U64 → U64 → Bool
  eq : U64 → U64 → Bool
  tmp : Nat → U8

def C_EQ : Nat := 2
def C_NE : Nat := 3
def C_GT : Nat := 4
def C_LE : Nat := 5
def C_LT : Nat := 6
def C_GE : Nat := 7
def C_HI : Nat := 8
def C_LS : Nat := 9
def C_LO : Nat := 10
def C_HS : Nat := 11

/-- Bit `n` of a condition word when `p` holds. -/
def condBit (p : Bool) (n : Nat) : U32 := if p then 1 <<< n else 0

def doCmp (a b : U32) : U32 :=
  (1 <<< 1) ||| (if a = b then 1 <<< C_EQ else 1 <<< C_NE) ||| condBit (b.slt a) C_GT |||
    condBit (a.sle b) C_LE ||| condBit (a.slt b) C_LT ||| condBit (b.sle a) C_GE |||
    condBit (b < a) C_HI ||| condBit (a ≤ b) C_LS ||| condBit (a < b) C_LO |||
    condBit (b ≤ a) C_HS

def condTrue (m5 a : U32) : Bool :=
  match m5.toNat with
  | 0x01 => (0#32).slt a
  | 0x02 => a = 0
  | 0x03 => (0#32).sle a
  | 0x0C => a.slt 0
  | 0x0D => a ≠ 0
  | 0x0E => a.sle 0
  | _ => false

def fieldMask (width : U32) : U32 :=
  let w := if width ≠ 0 then width else 32
  if 32 ≤ w then 0xFFFFFFFF else (1 <<< w.toNat) - 1

/-- The value a bit-field operation computes, or `none` for a sub-opcode that
names no operation and leaves the destination alone. -/
def bitfieldValue (sub a width offset : U32) : Option U32 :=
  let w := if width ≠ 0 then width else 32
  let m := fieldMask width
  match sub.toNat with
  | 0x26 => some ((a >>> offset.toNat) &&& m)
  | 0x24 =>
    let v := (a >>> offset.toNat) &&& m
    some (if w < 32 ∧ v &&& (1 <<< (w.toNat - 1)) ≠ 0 then v ||| ~~~m else v)
  | 0x28 => some ((a &&& m) <<< offset.toNat)
  | 0x20 => some (a &&& ~~~(m <<< offset.toNat))
  | 0x22 => some (a ||| (m <<< offset.toNat))
  | 0x2A =>
    let o := offset &&& 31
    some (if o ≠ 0 then (a >>> o.toNat) ||| (a <<< (32 - o.toNat)) else a)
  | _ => none

namespace Machine

def bitfield (m : Machine) (sub D a width offset : U32) : Machine :=
  match bitfieldValue sub a width offset with
  | some v => m.wr D v
  | none => m

def fpRead (m : Machine) (h : Host) (reg prec : U32) : U64 :=
  if prec = 0 then h.ofSingle (m.rd reg)
  else ((m.rd reg).setWidth 64 <<< 32) ||| (m.rd (reg + 1)).setWidth 64

def fpWrite (m : Machine) (h : Host) (reg prec : U32) (v : U64) : Machine :=
  if prec = 0 then m.wr reg (h.toSingle v)
  else (m.wr reg ((v >>> 32).setWidth 32)).wr (reg + 1) (v.setWidth 32)

/-- The condition word of `fcmp`: the integer condition bits, with bit 0 for
unordered operands and bit 1 for comparable ones. -/
def fcmpWord (h : Host) (x y : U64) : U32 :=
  if ¬(h.lt x y ∨ h.lt y x ∨ h.eq x y) then 1 <<< 0
  else
    (1 <<< 1) ||| (if h.eq x y then 1 <<< C_EQ else 1 <<< C_NE) ||| condBit (h.lt y x) C_GT |||
      condBit (h.lt x y || h.eq x y) C_LE ||| condBit (h.lt x y) C_LT |||
      condBit (h.lt y x || h.eq x y) C_GE

end Machine

end Nx88
