import Nx88.Cpu.Exception
/-!
# Executing one instruction

Fetch, decode and execute, then the sequencing of explicit delay slots.  The
decoder of the source is its dispatch on opcode ranges, kept here range by
range.
-/

namespace Nx88

/-- How an executed instruction continues. -/
inductive Flow where
  | next
  | jump (target : U32) (delayed : Bool)
  | trap (vector : U32)
deriving DecidableEq

/-- Unimplemented instruction: an emulator gap, not a real trap. -/
def badinsn : Flow := .trap (-1)

def divzero : Flow := .trap 6

namespace Machine

def fieldD (w : U32) : U32 := (w >>> 21) &&& 31
def fieldS1 (w : U32) : U32 := (w >>> 16) &&& 31
def fieldS2 (w : U32) : U32 := w &&& 31
def fieldImm (w : U32) : U32 := w &&& 0xFFFF
def fieldSub (w : U32) : U32 := (w >>> 10) &&& 63
def fieldVar (w : U32) : U32 := (w >>> 5) &&& 31

def execImm (m : Machine) (op D a b : U32) : Machine × Flow :=
  match op.toNat with
  | 0x10 => (m.wr D (a &&& (0xFFFF0000 ||| b)), .next)
  | 0x11 => (m.wr D (a &&& (0x0000FFFF ||| (b <<< 16))), .next)
  | 0x12 => (m.wr D (a &&& b), .next)
  | 0x13 => (m.wr D (a &&& (b <<< 16)), .next)
  | 0x14 => (m.wr D (a ^^^ b), .next)
  | 0x15 => (m.wr D (a ^^^ (b <<< 16)), .next)
  | 0x16 => (m.wr D (a ||| b), .next)
  | 0x17 => (m.wr D (a ||| (b <<< 16)), .next)
  | 0x18 => (m.wr D (a + b), .next)
  | 0x19 => (m.wr D (a - b), .next)
  | 0x1A => if b = 0 then (m, divzero) else (m.wr D (a / b), .next)
  | 0x1B => (m.wr D (a * b), .next)
  | 0x1C => (m.wr D (a + b), .next)
  | 0x1D => (m.wr D (a - b), .next)
  | 0x1E => if b = 0 then (m, divzero) else (m.wr D (a.sdiv b), .next)
  | 0x1F => (m.wr D (doCmp a b), .next)
  | _ => (m, .next)

/-- Control registers.  The FPU control forms are taken as the plain ones. -/
def execCr (m : Machine) (w D a : U32) : Machine × Flow :=
  let sub := (w >>> 11) &&& 31
  let cr : Fin 64 := Fin.ofNat 64 ((w >>> 5) &&& 63).toNat
  match sub.toNat with
  | 0x08 | 0x09 => (m.wr D (m.cpu.cr cr), .next)
  | 0x10 | 0x11 => ({ m with cpu := m.cpu.setCr cr a }, .next)
  | 0x18 | 0x19 =>
    let o := m.cpu.cr cr
    (({ m with cpu := m.cpu.setCr cr a } : Machine).wr D o, .next)
  | _ => (m, badinsn)

def execFpu (m : Machine) (h : Host) (w D S1 : U32) : Machine × Flow :=
  let td := (w >>> 5) &&& 3
  let t2 := (w >>> 7) &&& 3
  let t1 := (w >>> 9) &&& 3
  let S2 := fieldS2 w
  let x := m.fpRead h S1 t1
  let y := m.fpRead h S2 t2
  match ((w >>> 11) &&& 0x1F).toNat with
  | 0x05 => (m.fpWrite h D td (h.add x y), .next)
  | 0x06 => (m.fpWrite h D td (h.sub x y), .next)
  | 0x00 => (m.fpWrite h D td (h.mul x y), .next)
  | 0x0E => (m.fpWrite h D td (h.div x y), .next)
  | 0x0F => (m.fpWrite h D td (h.sqrt y), .next)
  | 0x04 => (m.fpWrite h D td (h.ofInt (m.rd S2)), .next)
  | 0x09 => (m.wr D (h.lrint y), .next)
  | 0x0A => (m.wr D (h.lrint y), .next)
  | 0x0B => (m.wr D (h.trunc y), .next)
  | 0x07 => (m.wr D (fcmpWord h x y), .next)
  | _ => (m, badinsn)

/-- `bsr` and `jsr` leave the address after the branch, or after its delay slot. -/
def link (m : Machine) (pc : U32) (delayed : Bool) : Machine :=
  m.wr 1 (if delayed then pc + 8 else pc + 4)

/-- `br` and `bsr`, 26-bit displacement. -/
def execBr (m : Machine) (w pc op : U32) : Machine × Flow :=
  let off := (w <<< 6).sshiftRight 6
  let delayed := op &&& 1 = 1
  (if 0x32 ≤ op then m.link pc delayed else m, .jump (pc + (off <<< 2)) delayed)

/-- Target of a branch with a 16-bit displacement. -/
def branch16 (pc imm : U32) : U32 := pc + ((imm.setWidth 16).signExtend 32 <<< 2)

def execBb (m : Machine) (pc op D a imm : U32) : Machine × Flow :=
  let bit := (a >>> D.toNat) &&& 1
  let want : U32 := if 0x36 ≤ op then 1 else 0
  (m, if bit = want then .jump (branch16 pc imm) (op &&& 1 = 1) else .next)

def execBcnd (m : Machine) (pc op D a imm : U32) : Machine × Flow :=
  (m, if condTrue D a then .jump (branch16 pc imm) (op = 0x3B) else .next)

/-- Immediate bit fields, and the traps that share their opcode. -/
def exec3C (m : Machine) (w D a : U32) : Machine × Flow :=
  let sub := fieldSub w
  if sub = 0x34 ∨ sub = 0x36 ∨ sub = 0x3A then
    let fire : Bool :=
      if sub = 0x34 then (a >>> D.toNat) &&& 1 = 0
      else if sub = 0x36 then (a >>> D.toNat) &&& 1 = 1
      else condTrue D a
    (m, if fire then .trap (w &&& 0x1FF) else .next)
  else (m.bitfield sub D a ((w >>> 5) &&& 31) (w &&& 31), .next)

def execTri (m : Machine) (sub D a b : U32) : Machine × Flow :=
  match sub.toNat with
  | 0x10 => (m.wr D (a &&& b), .next)
  | 0x11 => (m.wr D (a &&& ~~~b), .next)
  | 0x14 => (m.wr D (a ^^^ b), .next)
  | 0x15 => (m.wr D (a ^^^ ~~~b), .next)
  | 0x16 => (m.wr D (a ||| b), .next)
  | 0x17 => (m.wr D (a ||| ~~~b), .next)
  | 0x18 => (m.wr D (a + b), .next)
  | 0x19 => (m.wr D (a - b), .next)
  | 0x1A => if b = 0 then (m, divzero) else (m.wr D (a / b), .next)
  | 0x1B => (m.wr D (a * b), .next)
  | 0x1C => (m.wr D (a + b), .next)
  | 0x1D => (m.wr D (a - b), .next)
  | 0x1E => if b = 0 then (m, divzero) else (m.wr D (a.sdiv b), .next)
  | 0x1F => (m.wr D (doCmp a b), .next)
  | _ => (m, badinsn)

/-- Number of the highest set bit, 32 for none. -/
def highestBit (b : U32) : U32 := if b = 0 then 32 else BitVec.ofNat 32 (Nat.log2 b.toNat)

/-- Resume address of `rte`: the first valid one of SXIP, SNIP and SFIP. -/
def rteTarget (m : Machine) : U32 :=
  let r := if m.cpu.cr 4 &&& 2 ≠ 0 then m.cpu.cr 4
    else if m.cpu.cr 5 &&& 2 ≠ 0 then m.cpu.cr 5 else m.cpu.cr 6
  r &&& ~~~3

def execRte (m : Machine) : Machine × Flow :=
  let m : Machine := { m with cpu := m.cpu.setCr 1 (m.cpu.cr 2) }
  (m, .jump m.rteTarget false)

def exec3D (m : Machine) (w pc D a : U32) : Machine × Flow :=
  let sub := fieldSub w
  let b := m.rd (fieldS2 w)
  if sub < 0x10 then
    let idx := if fieldVar w &&& 0x10 ≠ 0 then b * memopScale sub else b
    (m.memop sub D (a + idx), .next)
  else if sub < 0x20 then m.execTri sub D a b
  else if 0x20 ≤ sub ∧ sub ≤ 0x2A then (m.bitfield sub D a ((b >>> 5) &&& 31) (b &&& 31), .next)
  else if sub = 0x3A then (m.wr D (highestBit b), .next)
  else if sub = 0x3B then (m.wr D (highestBit (~~~b)), .next)
  else if 0x30 ≤ sub ∧ sub ≤ 0x33 then
    let delayed := sub &&& 1 = 1
    (if 0x32 ≤ sub then m.link pc delayed else m, .jump (b &&& ~~~3) delayed)
  else if sub = 0x3F then m.execRte
  else (m, badinsn)

def execute (m : Machine) (h : Host) (w pc : U32) : Machine × Flow :=
  let op := w >>> 26
  let D := fieldD w
  let S1 := fieldS1 w
  let imm := fieldImm w
  let a := m.rd S1
  if op < 0x10 then (m.memop op D (a + imm), .next)
  else if op < 0x20 then m.execImm op D a imm
  else if op = 0x20 then m.execCr w D a
  else if op = 0x21 then m.execFpu h w D S1
  else if 0x30 ≤ op ∧ op ≤ 0x33 then m.execBr w pc op
  else if 0x34 ≤ op ∧ op ≤ 0x37 then m.execBb pc op D a imm
  else if op = 0x3A ∨ op = 0x3B then m.execBcnd pc op D a imm
  else if op = 0x3C then m.exec3C w D a
  else if op = 0x3D then m.exec3D w pc D a
  else (m, badinsn)

/-- Where control goes next.  A latched delay-slot target wins over whatever
the instruction in the slot asked for. -/
def sequence (m : Machine) (pc : U32) (flow : Flow) : Machine :=
  if m.cpu.hasPending then
    { m with cpu := { m.cpu with hasPending := false, pc := m.cpu.pending } }
  else
    match flow with
    | .jump target true =>
      { m with cpu := { m.cpu with pending := target, hasPending := true, pc := pc + 4 } }
    | .jump target false => m.setPc target
    | _ => m.setPc (pc + 4)

def tick (m : Machine) : Machine := { m with cpu := { m.cpu with count := m.cpu.count + 1 } }

/-- What `step` does with an executed instruction: a trap is reported with the
pc left alone, a pending user fault aborts the instruction, anything else moves
on.  The flag says that the step trapped. -/
def finish (m : Machine) (pc : U32) (flow : Flow) : Machine × Bool :=
  match flow with
  | .trap vector => ({ m with trapTaken := true, trapVector := vector, trapPc := pc }, true)
  | _ => if m.ufault.pending then (m, false) else (m.sequence pc flow, false)

/-- The part of `step` behind the intercepts: one instruction of the guest. -/
def exec (m : Machine) (h : Host) : Machine × Bool :=
  let pc := m.cpu.pc
  let (pa, m) := m.translate pc true
  let w := m.mem.r32 pa
  if m.ufault.pending then (m, false)
  else
    let (m, flow) := m.tick.execute h w pc
    m.finish pc flow

end Machine

end Nx88
