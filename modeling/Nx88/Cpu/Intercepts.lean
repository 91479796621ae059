import Nx88.Cpu.Exec
import Nx88.Image
/-!
# Kernel intercepts and interrupts

What `step` does before it fetches: at fixed kernel addresses it stands in for
hardware this machine does not have, then it offers the pending interrupts.  A
stage either ends the step (`error`, with the machine it leaves) or lets it go
on.
-/

namespace Nx88

open Lib.Words

namespace Machine

/-! ## Access through kernel addresses -/

/-- `mem_r32(translate(va, 0))`. -/
def kread (m : Machine) (va : U32) : U32 × Machine :=
  let (pa, m) := m.translate va false
  (m.mem.r32 pa, m)

/-- `mem_w32(translate(va, 0), v)`. -/
def kwrite (m : Machine) (va v : U32) : Machine :=
  let (pa, m) := m.translate va false
  m.setMem (m.mem.w32 pa v)

/-- Release the lock in `r4`, as the sleep stood in for would; only a
kernel-space address can be one. -/
def releaseLock (m : Machine) : Machine :=
  if 0xC0000000 ≤ m.rd 4 ∧ m.rd 4 < 0xE0000000 then m.kwrite (m.rd 4) 0 else m

/-- Return from the routine at hand to `target` with result 0. -/
def returnZero (m : Machine) (target : U32) : Machine := (m.setPc target).wr 2 0

/-! ## The SHA and its disk -/

def SDBLK : Nat := 512

def BUFSIZE : Nat := 0x10000

/-- `mem_w8(dma + i, buf[i])` for every byte. -/
def dmaOut (m : Machine) (dma : U32) (buf : List U8) : Machine := m.setMem (m.mem.load dma buf)

def inquiryData : List U8 :=
  [0x00, 0x00, 0x02, 0x02, 0x1F, 0x00, 0x00, 0x00] ++
    [0x42, 0x42, 0x4E, 0x20, 0x20, 0x20, 0x20, 0x20] ++
    [0x45, 0x4D, 0x55, 0x4C, 0x41, 0x54, 0x45, 0x44, 0x20, 0x44, 0x49, 0x53, 0x4B, 0x20, 0x20,
      0x20] ++
    [0x30, 0x30, 0x30, 0x31]

/-- `fread` into a buffer of `n` zeros. -/
def readPadded (img : Option Image) (off n : Nat) : List U8 :=
  match img with
  | some f => f.read off n ++ List.replicate (n - (f.read off n).length) 0
  | none => List.replicate n 0

/-- `last` block and block size, big-endian. -/
def capacityData (img : Option Image) : List U8 :=
  let sz := match img with
    | some f => f.size
    | none => 0
  let last : U32 := if sz ≠ 0 then BitVec.ofNat 32 (sz / SDBLK) - 1 else 0x3FFFF
  [byteOf last 0, byteOf last 1, byteOf last 2, byteOf last 3, 0, 0, 2, 0]

/-- The command of `sha_sdcomplete`: operation, block number, length. -/
structure SdCommand where
  op : U32
  lba : U32
  dma : U32
  xfer : U32

def sdPerform (m : Machine) (c : SdCommand) : Machine :=
  let xfer := min c.xfer.toNat BUFSIZE
  match c.op.toNat with
  | 0x12 => m.dmaOut c.dma (inquiryData.take (min 36 xfer))
  | 0x08 | 0x28 =>
    if c.dma = 0 then m
    else m.dmaOut c.dma (readPadded m.dev.diskImg (c.lba.toNat * SDBLK) xfer)
  | 0x0A | 0x2A =>
    match m.dev.diskImg with
    | some f =>
      if c.dma = 0 then m
      else
        { m with
          dev := { m.dev with
            diskImg := some (f.write (c.lba.toNat * SDBLK) (m.mem.bytes c.dma xfer)) } }
    | none => m
  | 0x25 => if c.dma = 0 then m else m.dmaOut c.dma (capacityData m.dev.diskImg)
  | _ => m

/-- Stand in for the completion of the command block at `cmd`. -/
def shaSdcomplete (m : Machine) (cmd : U32) : Machine :=
  let (target, m) := m.kread (cmd + 0x44)
  let (dma, m) := m.kread (cmd + 0x10)
  let (cdbw, m) := m.kread (cmd + 0x70)
  let (xfer, m) := m.kread (cmd + 0x90)
  let op := cdbw >>> 24
  if target ≠ 0 then m
  else
    let (cdbw2, m) := m.kread (cmd + 0x74)
    -- the six-byte commands carry a 21-bit block number, the ten-byte ones 32 bits
    let lba := if op = 0x08 ∨ op = 0x0A then cdbw &&& 0x1FFFFF
      else (cdbw <<< 16) ||| (cdbw2 >>> 16)
    m.sdPerform ⟨op, lba, dma, xfer⟩

/-- Mark the command in `r27` complete: clear its error and outstanding flags. -/
def shaComplete (m : Machine) : Machine :=
  let desc := m.rd 27
  if 0xC0000000 ≤ desc then
    let (pa, m) := m.translate (desc + 4) false
    m.setMem (m.mem.w32 pa (m.mem.r32 pa &&& ~~~m.cfg.shaDescClear))
  else m

/-! ## Block buffers -/

/-- What the strategy and biowait intercepts read from a buffer header. -/
structure Buf where
  flags : U32
  bcount : U32
  addr : U32
  blkno : U32
  vp : U32

def readBuf (m : Machine) (buf : U32) : Buf × Machine :=
  let (flags, m) := m.kread buf
  let (bcount, m) := m.kread (buf + 0x14)
  let (addr, m) := m.kread (buf + 0x3C)
  let (blkno, m) := m.kread (buf + 0x40)
  let (vp, m) := m.kread (buf + 0x50)
  (⟨flags, bcount, addr, blkno, vp⟩, m)

def storeWords (m : Machine) (addr : U32) (tmp : Nat → U8) (k : Nat) : Nat → Machine
  | 0 => m
  | n + 1 =>
    (m.kwrite (addr + BitVec.ofNat 32 (4 * k))
      (be32 (tmp (4 * k)) (tmp (4 * k + 1)) (tmp (4 * k + 2)) (tmp (4 * k + 3)))).storeWords addr
        tmp (k + 1) n

def loadWords (m : Machine) (addr : U32) (k : Nat) : Nat → List U8 × Machine
  | 0 => ([], m)
  | n + 1 =>
    let (w, m) := m.kread (addr + BitVec.ofNat 32 (4 * k))
    let (rest, m) := m.loadWords addr (k + 1) n
    ([byteOf w 0, byteOf w 1, byteOf w 2, byteOf w 3] ++ rest, m)

/-- The transfer buffer after `fread` and the zero fill: image bytes, zeros up
to `bcount`, and whatever the stack held behind. -/
def transferBuf (h : Host) (f : Image) (off bcount : Nat) (i : Nat) : U8 :=
  if i < bcount then (f.read off bcount).getD i 0 else h.tmp i

/-- The first device seen is the root. -/
def noteRoot (m : Machine) (vp : U32) : Machine :=
  if m.dev.rootDevVp = 0 then { m with dev := { m.dev with rootDevVp := vp } } else m

def transferFile (m : Machine) (h : Host) (b : Buf) (isRoot : Bool) (f : Image) : Machine :=
  if 0xC0000000 ≤ b.addr ∧ b.bcount ≠ 0 ∧ b.bcount ≤ 0x10000 then
    let n := b.bcount.toNat
    let off := b.blkno.toNat * 512
    if b.flags &&& 1 ≠ 0 then m.storeWords b.addr (transferBuf h f off n) 0 ((n + 3) / 4)
    else if isRoot then m
    else
      let (bytes, m) := m.loadWords b.addr 0 ((n + 3) / 4)
      { m with
        dev := { m.dev with diskImg := some (f.write off (bytes.take n)), diskWrote := true } }
  else m

/-- The transfer of a buffer: the root device is the read-only image, any other
the SCSI disk. -/
def transfer (m : Machine) (h : Host) (b : Buf) : Machine :=
  let m := m.noteRoot b.vp
  let isRoot := b.vp == m.dev.rootDevVp
  match (if isRoot then m.dev.rootImg else m.dev.diskImg) with
  | none => m
  | some f => m.transferFile h b isRoot f

/-! ## Intercepts, in the order of the source -/

/-- The kernel's own replay of an aborted data access is skipped. -/
def replaySkip (m : Machine) (pc : U32) : Except Machine Machine :=
  if m.cfg.procexp ∧ m.cfg.sysmode ∧ pc = 0xC00AAA44 then .error (m.returnZero (m.rd 1)) else .ok m

def shaSleep (m : Machine) (pc : U32) : Except Machine Machine :=
  if m.cfg.shaSync ∧ m.cfg.sysmode ∧ pc = TSLEEP_ENTRY ∧ SHA_O_LO ≤ m.rd 1 ∧ m.rd 1 < SHA_O_HI then
    let m := m.shaComplete.releaseLock
    .error (m.returnZero (m.rd 1))
  else .ok m

/-- The wait of `_sdcommand_nowait`. -/
def shaSwitch (m : Machine) (pc : U32) : Except Machine Machine :=
  if m.cfg.shaSync ∧ m.cfg.sysmode ∧ pc = 0xC0055CC0 ∧ m.rd 1 = 0xC00BE6F0 then
    .error ((m.shaSdcomplete (m.rd 27)).setPc 0xC00BE6F0)
  else .ok m

/-- The poll of a command block's completion flag. -/
def shaPoll (m : Machine) (pc : U32) : Except Machine Machine :=
  if m.cfg.shaSync ∧ m.cfg.sysmode ∧ pc = 0xC00BC148 then
    let (pa, m) := m.translate (m.rd 27 + 0x68) false
    if m.mem.r32 pa &&& 1 = 0 then
      let m := m.shaSdcomplete (m.rd 27)
      .ok (m.setMem (m.mem.w32 pa (m.mem.r32 pa ||| 1)))
    else .ok m
  else .ok m

def tlbShootdown (m : Machine) (pc : U32) : Except Machine Machine :=
  if m.cfg.sysmode ∧ pc = 0xC00A79E4 then
    let (pa, m) := m.translate (m.rd 8) false
    if m.mem.r32 pa < m.rd 27 then .ok (m.setMem (m.mem.w32 pa (m.rd 27))) else .ok m
  else .ok m

/-- The scatter-gather wait of `_copy_out_buffer`. -/
def shaSegment (m : Machine) (pc : U32) : Except Machine Machine :=
  if m.cfg.shaSync ∧ m.cfg.sysmode ∧ pc = TSLEEP_ENTRY ∧ m.rd 1 = 0xC00BE520 then
    let m := m.shaSdcomplete (m.rd 27)
    let (pa, m) := m.translate (m.rd 27 + 0x24) false
    let m := (m.setMem (m.mem.w16 pa 0)).releaseLock
    .error (m.returnZero (m.rd 1))
  else .ok m

def vmeWindows (m : Machine) (pc : U32) : Except Machine Machine :=
  if m.cfg.sysmode ∧ pc = 0xC00ADCE0 then
    let (pa, m) := m.translate (m.rd 24) false
    if m.mem.r32 pa &&& 0x1FF = 0x1FF then .ok (m.setMem (m.mem.w32 pa 0)) else .ok m
  else .ok m

def shaSlot (m : Machine) (pc : U32) : Except Machine Machine :=
  if m.cfg.shaSync ∧ m.cfg.sysmode ∧ pc = 0xC00BD498 then
    let (pa, m) := m.translate (m.rd 1) false
    let v := m.mem.r16 pa
    if v &&& 1 ≠ 0 then .ok (m.setMem (m.mem.w16 pa (v &&& ~~~1))) else .ok m
  else .ok m

/-- Standing in for the interrupt that `getblk` sleeps for: release the lock the
sleep would have dropped, and let `biodone` return where the sleep would have. -/
def getblkWake (m : Machine) (pc : U32) : Machine :=
  if pc ≠ SDSTRATEGY then m.releaseLock.wr 1 GETBLK_WAIT else m

def strategy (m : Machine) (h : Host) (pc : U32) : Except Machine Machine :=
  if m.cfg.biowaitSync ∧ m.cfg.sysmode ∧
      (pc = SDSTRATEGY ∨ pc = TSLEEP_ENTRY ∧ m.rd 1 = GETBLK_WAIT) ∧ 0xC0000000 ≤ m.rd 2 then
    let (b, m) := m.readBuf (m.rd 2)
    let m := m.transfer h b
    .error ((m.getblkWake pc).setPc BIODONE)
  else .ok m

def completeBuffer (m : Machine) (h : Host) (buf : U32) : Machine :=
  let (b, m) := m.readBuf buf
  let m := m.transfer h b
  let (pa, m) := m.translate buf false
  m.setMem (m.mem.w32 pa (m.mem.r32 pa ||| 2))

def biowait (m : Machine) (h : Host) (pc : U32) : Except Machine Machine :=
  if m.cfg.biowaitSync ∧ m.cfg.sysmode ∧ pc = TSLEEP_ENTRY ∧ m.rd 1 = 0xC00740E8 then
    let m := if 0xC0000000 ≤ m.rd 2 then m.completeBuffer h (m.rd 2) else m
    let m := m.releaseLock
    .error (m.returnZero (m.rd 1))
  else .ok m

/-- Cross-node clock synchronisation is skipped. -/
def synchrtc (m : Machine) (pc : U32) : Except Machine Machine :=
  if m.cfg.skipSynchrtc ∧ m.cfg.sysmode ∧ pc = 0xC009BA14 then .error (m.returnZero (m.rd 1))
  else .ok m

def intercepts (m : Machine) (h : Host) (pc : U32) : Except Machine Machine := do
  let m ← m.replaySkip pc
  let m ← m.shaSleep pc
  let m ← m.shaSwitch pc
  let m ← m.shaPoll pc
  let m ← m.tlbShootdown pc
  let m ← m.shaSegment pc
  let m ← m.vmeWindows pc
  let m ← m.shaSlot pc
  let m ← m.strategy h pc
  let m ← m.biowait h pc
  m.synchrtc pc

/-! ## Interrupts -/

/-- The gates that both interrupts share: enabled, between instructions, not
behind a fault, not inside a kernel call. -/
def interruptible (m : Machine) : Bool :=
  m.cfg.clockIrq ∧ m.cfg.sysmode ∧ ¬m.cpu.hasPending ∧ m.cpu.cr 1 &&& 2 = 0 ∧
    0xC0000000 ≤ m.cpu.cr 7 ∧ ¬m.ufault.pending ∧ ¬m.dev.inKcall

/-- Deliver a software interrupt whose source is above the current level. -/
def softint (m : Machine) : Except Machine Machine :=
  if m.interruptible ∧ m.mem.r32 IRQ_MASK_REG &&& IRQ_SOFTINT ≠ 0 then
    let (spl, m) := m.kread SPL_LEVEL
    let (pend, m) := m.kread SOFTINT_PENDING
    let opened : U32 := if 31 ≤ spl then 0 else ~~~(((2 : U32) <<< spl.toNat) - 1)
    if pend &&& opened ≠ 0 ∧ spl ≠ 0x1F ∧ m.dev.nextSoftint ≤ m.cpu.count then
      let m : Machine :=
        { m with
          dev := { m.dev with
            nextSoftint := m.cpu.count + m.cfg.softintPeriod, irqSource := IRQ_SOFTINT } }
      .error (m.deliverException 1)
    else .ok m
  else .ok m

/-- The comparator of the hardclock: armed and reached, as a signed difference. -/
def clockDue (m : Machine) : Bool :=
  if m.cfg.tickDiv ≠ 0 then
    m.dev.clockArmed ∧ (0#32).sle (m.timerNow - m.dev.clockDeadline)
  else m.dev.nextClock ≤ m.cpu.count

def hardclock (m : Machine) : Except Machine Machine :=
  if m.interruptible ∧ m.clockDue ∧ m.mem.r32 IRQ_MASK_REG &&& IRQ_HARDCLOCK ≠ 0 then
    let m : Machine :=
      { m with
        dev := { m.dev with
          nextClock := m.cpu.count + m.cfg.clockPeriod, clockArmed := false } }
    let (pend, m) := m.kread SOFTINT_PENDING
    let m : Machine :=
      { m with
        dev := { m.dev with
          irqSource := if pend ≠ 0 then IRQ_HARDCLOCK ||| IRQ_SOFTINT else IRQ_HARDCLOCK } }
    .error (m.deliverException 1)
  else .ok m

/-! ## Snoops -/

def forceSig (m : Machine) (pc : U32) : Machine :=
  if m.cfg.sysmode ∧ m.cfg.forceSigPc ≠ 0 ∧ pc = m.cfg.forceSigPc then
    { m with cpu := m.cpu.setWord 2 m.cfg.forceSigVal }
  else m

/-- Device pages that the kernel maps, and the address of the TCS mailbox. -/
def snoopMaps (m : Machine) (pc : U32) : Machine :=
  let m : Machine :=
    if m.mem.realmm ∧ pc = PMAP_MAP_FN ∧ 0xE0000000 ≤ m.rd 4 then
      { m with devmap := devmapAdd m.devmap (m.rd 3) (m.rd 4) }
    else m
  if m.mem.realmm ∧ pc = 0xC00A0E80 then
    let (pa, m) := m.translate (m.rd 7) false
    { m with dev := { m.dev with tcsMboxPa := pa } }
  else m

def hooks (m : Machine) (h : Host) : Except Machine Machine := do
  let pc := m.cpu.pc
  let m ← m.intercepts h pc
  let m ← m.softint
  let m ← m.hardclock
  return (m.forceSig pc).snoopMaps pc

def step (m : Machine) (h : Host) : Machine × Bool :=
  match m.hooks h with
  | .error m => (m, false)
  | .ok m => m.exec h

end Machine

end Nx88
