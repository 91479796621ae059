import Nx88.Mmu
/-!
# Devices and the load/store dispatch

The memory-mapped registers that answer word accesses, the TCS mailbox, the
diagnostic ring, and `memop`: one translated access of any width.
-/

namespace Nx88

open Lib.Words

/-- The CMMUs this node has: one for code, one for data. -/
def cmmuPresent : List U32 := [0xFFF7F000, 0xFFF7E000]

/-- Access width by sub-opcode, and the scale of an indexed address. -/
def memopScale (sub : U32) : U32 :=
  [1, 4, 2, 1, 8, 4, 2, 1, 8, 4, 2, 1, 8, 4, 2, 1].getD sub.toNat 0

/-- `0x08`-`0x0B` are the stores, `0x00` and `0x01` the exchanges. -/
def isStore (sub : U32) : Bool := (0x08 ≤ sub ∧ sub ≤ 0x0B) ∨ sub ≤ 0x01

def sext16 (v : U16) : U32 := v.signExtend 32

def sext8 (v : U8) : U32 := v.signExtend 32

def cmmuBaseOf (a : U32) : Option U32 :=
  cmmuPresent.find? (fun b => b ≤ a ∧ a < b + 0x1000)

def isCmmuId (a : U32) : Bool := cmmuPresent.contains a

def cmmuIdFor (a : U32) : U32 := (((a >>> 12) &&& 0xFF) <<< 24) ||| 0x00A00000

def cmramR32 (pages : U32 → U32 → U8) (sel : U32) : U32 :=
  let p := pages ((sel >>> 12) &&& 0xFFFFF)
  let o := sel &&& 4092
  be32 (p o) (p (o + 1)) (p (o + 2)) (p (o + 3))

def cmramW32 (pages : U32 → U32 → U8) (sel v : U32) : U32 → U32 → U8 :=
  let i := (sel >>> 12) &&& 0xFFFFF
  let o := sel &&& 4092
  Function.update pages i
    (Function.update (Function.update (Function.update (Function.update (pages i)
      o (byteOf v 0)) (o + 1) (byteOf v 1)) (o + 2) (byteOf v 2)) (o + 3) (byteOf v 3))

/-- Drain the diagnostic ring: the bytes taken and the final consumer index.
The index cycles through 128 values, so a producer index not met after one
cycle is never met and the loop does not end. -/
def hpsDrain (m : Mem) (prod : U8) : Nat → U8 → Option (List U8 × U8)
  | 0, cons => if cons = prod then some ([], cons) else none
  | fuel + 1, cons =>
    if cons = prod then some ([], cons)
    else
      match hpsDrain m prod fuel ((cons + 1) &&& 0x7F) with
      | some (taken, last) => some (m.r8 (HPS_RING_BUF + cons.setWidth 32) :: taken, last)
      | none => none

namespace Machine

/-- The free-running counter. -/
def timerNow (m : Machine) : U32 :=
  if m.cfg.tickDiv ≠ 0 then (m.cpu.count / m.cfg.tickDiv.setWidth 64).setWidth 32
  else (m.cpu.count * m.cfg.tickScale.setWidth 64).setWidth 32

def devRead32 (m : Machine) (a : U32) : U32 :=
  if m.cfg.sysmode then
    if a = TIMER_ADDR then m.timerNow
    else if isCmmuId a then cmmuIdFor a
    else if a = CMRAM_DATA then cmramR32 m.dev.cmramPages (m.dev.cmramSel &&& ~~~3)
    else if a = IRQ_SOURCE_REG then m.dev.irqSource
    else if a = 0xE07EA008 ∨ a = 0xE07EA010 ∨ a = 0xE07EA028 then 0
    else m.mem.r32 a
  else m.mem.r32 a

def tcsPoke (m : Machine) (a : U32) : Machine :=
  if a ≠ m.dev.tcsMboxPa then m
  else if m.mem.r8 m.dev.tcsMboxPa = 0 then m
  else m.setMem ((m.mem.w8 m.dev.tcsMboxPa 0).w8 (m.dev.tcsMboxPa + 5) 1)

/-- What a word written to a CMMU register does once it is stored. -/
def cmmuWrite (m : Machine) (a v : U32) : Machine :=
  match cmmuBaseOf a with
  | some base =>
    if a - base = CMMU_SCR then m.cmmuCommand base v
    else if a - base = CMMU_SAPR ∨ a - base = CMMU_UAPR then m.tlbFlush
    else m
  | none => m

def devWrite32 (m : Machine) (a v : U32) : Machine :=
  if m.cfg.sysmode then
    if a = CMRAM_SELECT then { m with dev := { m.dev with cmramSel := v } }
    else if a = CMRAM_DATA then
      { m with
        dev := { m.dev with
          cmramPages := cmramW32 m.dev.cmramPages (m.dev.cmramSel &&& ~~~3) v } }
    else if a = IRQ_SOURCE_REG then { m with dev := { m.dev with irqSource := v } }
    else
      let m := if a = TIMER_CMP_REG
        then { m with dev := { m.dev with clockDeadline := v, clockArmed := true } } else m
      let m := if a = TIMER_ENA_REG
        then { m with dev := { m.dev with clockEnabled := v ≠ 0 } } else m
      let m := m.setMem (m.mem.w32 a v)
      (m.tcsPoke a).cmmuWrite a v
  else m.setMem (m.mem.w32 a v)

/-- The part of `memop` that moves the data of a plain access at the physical
address `ea`. -/
def memTransfer (m : Machine) (sub D ea : U32) : Machine :=
  match sub.toNat with
  | 0x05 => m.wr D (m.devRead32 ea)
  | 0x07 => m.wr D (sext8 (m.mem.r8 ea))
  | 0x03 => m.wr D ((m.mem.r8 ea).setWidth 32)
  | 0x06 => m.wr D (sext16 (m.mem.r16 ea))
  | 0x02 => m.wr D ((m.mem.r16 ea).setWidth 32)
  | 0x04 =>
    let m := m.wr D (m.devRead32 ea)
    m.wr (D + 1) (m.devRead32 (ea + 4))
  | 0x09 => m.devWrite32 ea (m.rd D)
  | 0x0B => (m.setMem (m.mem.w8 ea ((m.rd D).setWidth 8))).tcsPoke ea
  | 0x0A => m.setMem (m.mem.w16 ea ((m.rd D).setWidth 16))
  | 0x08 =>
    let m := m.devWrite32 ea (m.rd D)
    m.devWrite32 (ea + 4) (m.rd (D + 1))
  | 0x01 =>
    let old := m.mem.r32 ea
    (m.setMem (m.mem.w32 ea (m.rd D))).wr D old
  | 0x00 =>
    let old := m.mem.r8 ea
    (m.setMem (m.mem.w8 ea ((m.rd D).setWidth 8))).wr D (old.setWidth 32)
  | _ => m

def shaCommand (m : Machine) (ea : U32) (v : U16) : Machine :=
  let m :=
    if v = 0x1000 then { m with dev := { m.dev with shaStatus := 1 } }
    else if v = 0 then { m with dev := { m.dev with shaStatus := 2 } }
    else if v = 1 then
      m.setMem (m.mem.w16 (SHA_BASE + 0x73C) (m.cfg.shaDoneStatus.setWidth 16))
    else m
  m.setMem (m.mem.w16 ea v)

/-- A sub-word or word read of the free-running counter, if `sub` is one. -/
def timerRead (m : Machine) (sub D ea : U32) : Option Machine :=
  let t := m.timerNow
  let off := ea &&& 3
  let half : U16 := (t >>> (if off < 2 then 16 else 0)).setWidth 16
  let byte : U8 := (t >>> (24 - off.toNat * 8)).setWidth 8
  match sub.toNat with
  | 0x05 => some (m.wr D t)
  | 0x02 => some (m.wr D (half.setWidth 32))
  | 0x06 => some (m.wr D (sext16 half))
  | 0x03 => some (m.wr D (byte.setWidth 32))
  | 0x07 => some (m.wr D (sext8 byte))
  | _ => none

/-- The access of `memop` at a translated address: device registers that answer
by width first, then the plain transfer. -/
def memAccess (m : Machine) (sub D ea : U32) : Machine :=
  if m.cfg.sysmode ∧ ea = SHA_CMD ∧ sub = 0x0A then m.shaCommand ea ((m.rd D).setWidth 16)
  else if m.cfg.sysmode ∧ ea = SHA_STATUS ∧ (sub = 0x02 ∨ sub = 0x06) then
    m.wr D (if sub = 0x06 then sext16 m.dev.shaStatus else m.dev.shaStatus.setWidth 32)
  else if m.cfg.sysmode ∧ (ea = SHA_BASE + 0x08 ∨ ea = SHA_BASE + 0x10) ∧
      (sub = 0x02 ∨ sub = 0x06) then
    m.wr D ((m.mem.r16 ea).setWidth 32 &&& ~~~1)
  else if m.cfg.sysmode ∧ ea = HPS_RING_CONS ∧ (sub = 0x03 ∨ sub = 0x07) then
    match hpsDrain m.mem (m.mem.r8 HPS_RING_PROD) 129 (m.mem.r8 HPS_RING_CONS) with
    | some (_, cons) =>
      (m.setMem (m.mem.w8 HPS_RING_CONS cons)).wr D
        (if sub = 0x07 then sext8 cons else cons.setWidth 32)
    | none => { m with hung := true }
  else
    match (if m.cfg.sysmode ∧ ea &&& ~~~3 = TIMER_ADDR then m.timerRead sub D ea else none) with
    | some m' => m'
    | none => m.memTransfer sub D ea

/-- One load, store, exchange or address computation at effective address `ea`.
`lda` computes an address only; everything else translates first, and a fault
leaves memory and registers untouched. -/
def memop (m : Machine) (sub D ea : U32) : Machine :=
  if 0x0C ≤ sub ∧ sub ≤ 0x0F then m.wr D ea
  else
    let (pa, m) := (m.setXlatWrite (isStore sub)).translate ea false
    let m := m.setXlatWrite false
    if m.ufault.pending then
      { m with ufault := { m.ufault with write := isStore sub, width := memopScale sub } }
    else m.memAccess sub D pa

end Machine

end Nx88
