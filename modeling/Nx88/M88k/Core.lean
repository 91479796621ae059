import Mathlib.Data.Nat.Bitwise
import Nx88.Lib.Paged
import Nx88.M88k.Decode
/-!
# The reference core

`CPU` and `Memory` of the tool set: the execution core written over the tables
of the reference decoder, one mnemonic at a time, in integers that have no
width.  A register is cut to 32 bits when it is written; the program counter
never is.
-/

namespace Nx88.M88k

open Lib

def PAGE : Nat := 4096

def MASK32 : Nat := 0xFFFFFFFF

/-! ## Memory -/

/-- Sparse paged memory; a page never touched holds zeros. -/
structure Memory where
  pages : Nat → Nat → U8

namespace Memory

def read (m : Memory) (addr n : Nat) : List U8 := Paged.read PAGE m.pages n addr n

def write (m : Memory) (addr : Nat) (data : List U8) : Memory :=
  ⟨Paged.write PAGE m.pages data.length addr data⟩

end Memory

def unpack (bs : List U8) : Nat := bs.foldl (fun v b => v * 256 + b.toNat) 0

def pack (n v : Nat) : List U8 :=
  (List.range n).map fun i => BitVec.ofNat 8 (v >>> (8 * (n - 1 - i)))

namespace Memory

def r32 (m : Memory) (a : Nat) : Nat := unpack (m.read a 4)

def w32 (m : Memory) (a v : Nat) : Memory := m.write a (pack 4 (v &&& MASK32))

end Memory

/-! ## Mnemonics -/

namespace Mnemonic

/-- `MEM_OPS`: the memory instructions with the scale of an indexed address. -/
def memOps : Mnemonic → Option Nat
  | ld => some 4
  | ldB | ldBu => some 1
  | ldH | ldHu => some 2
  | ldD => some 8
  | st => some 4
  | stB => some 1
  | stH => some 2
  | stD => some 8
  | lda => some 4
  | ldaB => some 1
  | ldaH => some 2
  | ldaD => some 8
  | xmem => some 4
  | xmemBu => some 1
  | _ => none

def delayed : Mnemonic → Bool
  | brN | bsrN | bb0N | bb1N | bcndN | jmpN | jsrN => true
  | _ => false

/-- The mnemonic starts with `f`, `int`, `nint` or `trnc`. -/
def floating : Mnemonic → Bool
  | fldcr | fstcr | fxcr | fmul | flt | fadd | fsub | fcmp | int | nint | trnc | fdiv | fsqrt
  | ff1 | ff0 => true
  | _ => false

end Mnemonic

/-! ## Registers -/

/-- What stops an instruction: the core's own trap, or a register number past
the register file. -/
inductive Raise where
  | trap (vector : Int) (pc : Nat)
  | indexError
deriving DecidableEq

/-- `set` cuts a register to 32 bits, and control registers are copied from
registers, so both kinds hold words. -/
structure Core where
  mem : Memory
  r : Fin 32 → U32
  cr : Fin 64 → U32
  pc : Nat
  /-- delay-slot branch target -/
  pending : Option Nat
  count : Nat

def s32 (v : Nat) : Int :=
  let v := v &&& MASK32
  if v &&& 0x80000000 ≠ 0 then (v : Int) - (1 <<< 32 : Nat) else v

def compare (a b : Nat) : Nat :=
  let sa := s32 a
  let sb := s32 b
  let flag (p : Bool) (n : Nat) : Nat := if p then 1 <<< n else 0
  (1 <<< 1) ||| (if a = b then 1 <<< C_EQ else 1 <<< C_NE) ||| flag (sa > sb) C_GT |||
    flag (sa ≤ sb) C_LE ||| flag (sa < sb) C_LT ||| flag (sa ≥ sb) C_GE |||
    flag (a > b) C_HI ||| flag (a ≤ b) C_LS ||| flag (a < b) C_LO ||| flag (a ≥ b) C_HS

def cond (m5 a : Nat) : Bool :=
  let sa := s32 a
  match m5 with
  | 0x01 => sa > 0
  | 0x02 => sa = 0
  | 0x03 => sa ≥ 0
  | 0x0C => sa < 0
  | 0x0D => sa ≠ 0
  | 0x0E => sa ≤ 0
  | _ => false

/-- The value a bit-field instruction computes, before it is cut to 32 bits. -/
def field (mn : Mnemonic) (a width offset : Nat) : Option Int :=
  let w := if width = 0 then 32 else width
  let m := if w < 32 then (1 <<< w) - 1 else MASK32
  match mn with
  | .extu => some ((a >>> offset) &&& m : Nat)
  | .ext =>
    let v := (a >>> offset) &&& m
    some (if w < 32 ∧ v &&& (1 <<< (w - 1)) ≠ 0 then (v : Int) - (1 <<< w : Nat) else v)
  | .mak => some ((a &&& m) <<< offset : Nat)
  | .clr => some (a.ldiff ((m <<< offset) &&& MASK32) : Nat)
  | .set => some (a ||| ((m <<< offset) &&& MASK32) : Nat)
  | .rot =>
    let o := offset &&& 31
    some (((a >>> o) ||| (a <<< (32 - o))) &&& MASK32 : Nat)
  | _ => none

namespace Core

def get (c : Core) (n : Nat) : Nat := if n = 0 then 0 else (c.r (Fin.ofNat 32 n)).toNat

def set (c : Core) (n : Nat) (v : Int) : Core :=
  if n = 0 then c
  else { c with r := Function.update c.r (Fin.ofNat 32 n) (BitVec.ofInt 32 v) }

def setCr (c : Core) (n : Nat) (v : Nat) : Core :=
  { c with cr := Function.update c.cr (Fin.ofNat 64 n) (BitVec.ofNat 32 v) }

/-! ## Execution -/

/-- Double-word forms name the register after `D`, which the last one lacks. -/
def memop (c : Core) (mn : Mnemonic) (D ea : Nat) : Except Raise Core :=
  let m := c.mem
  match mn with
  | .ld => .ok (c.set D (m.r32 ea))
  | .ldB =>
    let v := unpack (m.read ea 1)
    .ok (c.set D (if v &&& 0x80 ≠ 0 then (v : Int) - 256 else v))
  | .ldBu => .ok (c.set D (unpack (m.read ea 1)))
  | .ldH =>
    let v := unpack (m.read ea 2)
    .ok (c.set D (if v &&& 0x8000 ≠ 0 then (v : Int) - 65536 else v))
  | .ldHu => .ok (c.set D (unpack (m.read ea 2)))
  | .ldD =>
    if D + 1 < 32 then .ok ((c.set D (m.r32 ea)).set (D + 1) (m.r32 (ea + 4)))
    else .error .indexError
  | .st => .ok { c with mem := m.w32 ea (c.get D) }
  | .stB => .ok { c with mem := m.write ea (pack 1 (c.get D &&& 0xFF)) }
  | .stH => .ok { c with mem := m.write ea (pack 2 (c.get D &&& 0xFFFF)) }
  | .stD =>
    if D + 1 < 32 then
      .ok { c with mem := (m.w32 ea (c.get D)).w32 (ea + 4) (c.get (D + 1)) }
    else .error .indexError
  | .lda | .ldaB | .ldaH | .ldaD => .ok (c.set D ea)
  | .xmem =>
    let old := m.r32 ea
    .ok ({ c with mem := m.w32 ea (c.get D) }.set D old)
  | .xmemBu =>
    let old := unpack (m.read ea 1)
    .ok ({ c with mem := m.write ea (pack 1 (c.get D &&& 0xFF)) }.set D old)
  | _ => .ok c

def bitfield (c : Core) (mn : Mnemonic) (D a width offset : Nat) : Core :=
  match field mn a width offset with
  | some v => c.set D v
  | none => c

/-- Logical and arithmetic instructions on `a` and `b`: the value for the
destination, or the trap of a division by zero.  Only `and` minds the form. -/
def alu (c : Core) (mn : Mnemonic) (imm : Bool) (a b : Nat) : Except Raise Int :=
  match mn with
  | .or => .ok (a ||| b : Nat)
  | .orU => .ok (a ||| (b <<< 16) : Nat)
  | .orC => .ok (a ||| MASK32.ldiff b : Nat)
  | .and => .ok (if imm then a &&& (0xFFFF0000 ||| b) else a &&& b : Nat)
  | .andU => .ok (a &&& (0x0000FFFF ||| (b <<< 16)) : Nat)
  | .andC => .ok (a &&& MASK32.ldiff b : Nat)
  | .xor => .ok (a ^^^ b : Nat)
  | .xorU => .ok (a ^^^ (b <<< 16) : Nat)
  | .xorC => .ok (a ^^^ MASK32.ldiff b : Nat)
  | .mask => .ok (a &&& b : Nat)
  | .maskU => .ok (a &&& (b <<< 16) : Nat)
  | .addu => .ok (a + b : Nat)
  | .subu => .ok ((a : Int) - b)
  | .add => .ok (s32 a + s32 b)
  | .sub => .ok (s32 a - s32 b)
  | .mul => .ok ((a * b) &&& MASK32 : Nat)
  | .divu => if b = 0 then .error (.trap 6 c.pc) else .ok (a / b : Nat)
  | .div =>
    if b = 0 then .error (.trap 6 c.pc)
    else
      let q : Int := ((s32 a).natAbs / (s32 b).natAbs : Nat)
      .ok (if decide (s32 a < 0) ≠ decide (s32 b < 0) then -q else q)
  | _ => .ok (compare a b : Nat)

/-- Control transfer, traps and control registers.  The second component is
`branch_to`. -/
def control (c : Core) (ins : Insn) (w : U32) : Except Raise (Core × Option Nat) :=
  let D := (Machine.fieldD w).toNat
  let a := c.get (Machine.fieldS1 w).toNat
  let nextPc := c.pc + 4
  let target := ins.target.map BitVec.toNat
  let vector : Int := (w &&& 0x1FF).toNat
  let crn := ((w >>> 5) &&& 0x3F).toNat
  let jump := (c.get (Machine.fieldS2 w).toNat).ldiff 3
  match ins.mn with
  | .br | .brN => .ok (c, target)
  | .bsr => .ok (c.set 1 nextPc, target)
  | .bsrN => .ok (c.set 1 (nextPc + 4 : Nat), target)
  | .bb0 | .bb0N => .ok (c, if (a >>> D) &&& 1 = 0 then target else none)
  | .bb1 | .bb1N => .ok (c, if (a >>> D) &&& 1 ≠ 0 then target else none)
  | .bcnd | .bcndN => .ok (c, if cond D a then target else none)
  | .jmp | .jmpN => .ok (c, some jump)
  | .jsr => .ok (c.set 1 nextPc, some jump)
  | .jsrN => .ok (c.set 1 (nextPc + 4 : Nat), some jump)
  | .tb0 => if (a >>> D) &&& 1 = 0 then .error (.trap vector c.pc) else .ok (c, none)
  | .tb1 => if (a >>> D) &&& 1 ≠ 0 then .error (.trap vector c.pc) else .ok (c, none)
  | .tcnd => if cond D a then .error (.trap vector c.pc) else .ok (c, none)
  | .ldcr => .ok (c.set D (c.cr (Fin.ofNat 64 crn)).toNat, none)
  | .stcr => .ok (c.setCr crn a, none)
  | .xcr => .ok ((c.setCr crn a).set D (c.cr (Fin.ofNat 64 crn)).toNat, none)
  | .rte => .error (.trap (-2) c.pc)
  | mn => if mn.floating then .error (.trap (-3) c.pc) else .error (.trap (-4) c.pc)

/-- The address of a memory instruction: immediate displacement or indexed. -/
def effective (c : Core) (w : U32) (scale : Nat) : Nat :=
  let a := c.get (Machine.fieldS1 w).toNat
  let s2 := c.get (Machine.fieldS2 w).toNat
  if ((w >>> 26) &&& 0x3F).toNat < 0x10 then (a + (Machine.fieldImm w).toNat) &&& MASK32
  else
    let idx := if (Machine.fieldVar w).toNat &&& 0x10 ≠ 0 then (s2 * scale) &&& MASK32 else s2
    (a + idx) &&& MASK32

/-- The second operand of the logical and arithmetic instructions. -/
def operand (c : Core) (w : U32) : Nat :=
  if ((w >>> 26) &&& 0x3F).toNat < 0x20 then (Machine.fieldImm w).toNat
  else c.get (Machine.fieldS2 w).toNat

def execute (c : Core) (ins : Insn) (w : U32) : Except Raise (Core × Option Nat) :=
  let op := ((w >>> 26) &&& 0x3F).toNat
  let D := (Machine.fieldD w).toNat
  let mn := ins.mn
  let a := c.get (Machine.fieldS1 w).toNat
  match mn.memOps with
  | some scale => (c.memop mn D (c.effective w scale)).map fun c => (c, none)
  | none =>
    match mn with
    | .or | .orU | .orC | .and | .andU | .andC | .xor | .xorU | .xorC | .mask | .maskU
    | .addu | .subu | .add | .sub | .mul | .divu | .div | .cmp =>
      (c.alu mn (op < 0x20) a (c.operand w)).map fun v => (c.set D v, none)
    | .clr | .set | .ext | .extu | .mak | .rot =>
      let s2 := c.get (Machine.fieldS2 w).toNat
      if op = 0x3C then
        .ok (c.bitfield mn D a (((w >>> 5) &&& 0x1F).toNat) ((w &&& 0x1F).toNat), none)
      else .ok (c.bitfield mn D a ((s2 >>> 5) &&& 0x1F) (s2 &&& 0x1F), none)
    | _ => c.control ins w

/-- Delay slots are explicit: a latched target wins over `branch_to`. -/
def sequence (c : Core) (pc : Nat) (delayed : Bool) (branchTo : Option Nat) : Core :=
  match c.pending with
  | some target => { c with pending := none, pc := target }
  | none =>
    match branchTo with
    | some target =>
      if delayed then { c with pending := some target, pc := pc + 4 }
      else { c with pc := target }
    | none => { c with pc := pc + 4 }

def word (c : Core) : U32 := BitVec.ofNat 32 (c.mem.r32 c.pc)

def step (c : Core) : Except Raise Core :=
  let w := c.word
  match decode w (BitVec.ofNat 32 c.pc) with
  | none => .error (.trap (-1) c.pc)
  | some ins => do
    let (c', branchTo) ← c.execute ins w
    return ({ c' with count := c'.count + 1 }).sequence c.pc ins.mn.delayed branchTo

/-- The loop of `run`, for `n` turns: the exception that ends it leaves through. -/
def run (c : Core) : Nat → Except Raise Core
  | 0 => .ok c
  | n + 1 => do (← c.step).run n

end Core

end Nx88.M88k
