import Mathlib.Data.Fintype.Basic
import Mathlib.Tactic.Ring
import Nx88.Lib.SlotTable
import Nx88.Lib.Words
/-!
# The state of the emulated machine

The record mirrors the globals of the emulator: the CPU, the paged physical
memory, the two translation caches, the fault record that `translate` leaves
for `run_sys`, the device registers, and the descriptor tables.  Counters and
texts that only diagnostics read are not part of it.
-/

namespace Nx88

abbrev U8 := BitVec 8
abbrev U16 := BitVec 16
abbrev U32 := BitVec 32
abbrev U64 := BitVec 64

/-- There are thirty-two general registers. -/
instance instNeZeroThirtyTwo : NeZero (32 : Nat) := ⟨by decide⟩

/-- There are sixty-four control registers, and as many descriptors. -/
instance instNeZeroSixtyFour : NeZero (64 : Nat) := ⟨by decide⟩

/-! ## Constants of `nx88.h` -/

def IRQ_MASK_REG : U32 := 0xE0780014
def SOFTINT_PENDING : U32 := 0xC00140CC
def IRQ_HARDCLOCK : U32 := 0x40
def IRQ_SOFTINT : U32 := 0x20
def HPS_RING_CONS : U32 := 0xFE001802
def HPS_RING_PROD : U32 := 0xFE001803
def HPS_RING_BUF : U32 := 0xFE001818
def IRQ_SOURCE_REG : U32 := 0xE0780018
def SPL_LEVEL : U32 := 0xC0014064
def SHA_BASE : U32 := 0xFC008800
def SHA_STATUS : U32 := 0xFC008800
def SHA_CMD : U32 := 0xFC008802
def VV_WINDOW : U32 := 0xF9000000
def VV_STRIDE : U32 := 0x2000
def VV_TEMPLATE : U32 := 0xC0014000
def TIMER_ADDR : U32 := 0xE07E8018
def TIMER_CMP_REG : U32 := 0xE07E0004
def TIMER_ENA_REG : U32 := 0xE07E0000
def SDSTRATEGY : U32 := 0xC00BAFE4
def BIODONE : U32 := 0xC0074138
def GETBLK_WAIT : U32 := 0xC007350C
def CMRAM_SELECT : U32 := 0xE07EA00C
def CMRAM_DATA : U32 := 0xE07EB000
def CMMU_SCR : U32 := 0x004
def CMMU_SSR : U32 := 0x008
def CMMU_SAR : U32 := 0x00C
def CMMU_PFSR : U32 := 0x108
def CMMU_PFAR : U32 := 0x10C
def CMMU_SAPR : U32 := 0x200
def CMMU_UAPR : U32 := 0x204
def CODE_SEGTAB : U32 := 0xE0790000
def DATA_SEGTAB : U32 := 0x803F0000
def KOFF : U32 := 0xC0000000
def UAREA_LO : U32 := 0xFBFFC000
def UAREA_HI : U32 := 0xFC000000
def TCS_MBOX : U32 := 0xFE001800
def PMAP_MAP_FN : U32 := 0xC00A6B44
def TLB_SIZE : U32 := 0x1000
def SHA_O_LO : U32 := 0xC00BC000
def SHA_O_HI : U32 := 0xC00BE100
def TSLEEP_ENTRY : U32 := 0xC0054A64
def G_CURPROC_G : U32 := 0xC0014044
def PTE_WP : U32 := 0x4

/-! ## CPU -/

structure Cpu where
  r : Fin 32 → U32
  cr : Fin 64 → U32
  pc : U32
  /-- delay-slot branch target -/
  pending : U32
  hasPending : Bool
  count : U64

namespace Cpu

/-- Word `n` of the register file.  In the C structure `cr` follows `r`, so an
index past the last register names a control register; only `D + 1 = 32` of a
double-word access gets there. -/
def word (c : Cpu) (n : Nat) : U32 :=
  if h : n < 32 then c.r ⟨n, h⟩
  else if h : n - 32 < 64 then c.cr ⟨n - 32, h⟩ else 0

def setWord (c : Cpu) (n : Nat) (v : U32) : Cpu :=
  if h : n < 32 then { c with r := Function.update c.r ⟨n, h⟩ v }
  else if h : n - 32 < 64 then { c with cr := Function.update c.cr ⟨n - 32, h⟩ v } else c

/-- `RD`: register 0 reads as zero. -/
def rd (c : Cpu) (n : U32) : U32 := if n = 0 then 0 else c.word n.toNat

/-- `WR`: register 0 is not written. -/
def wr (c : Cpu) (n v : U32) : Cpu := if n = 0 then c else c.setWord n.toNat v

def setCr (c : Cpu) (n : Fin 64) (v : U32) : Cpu := { c with cr := Function.update c.cr n v }

end Cpu

/-! ## Physical memory -/

/-- Paged RAM.  `realmm` stands with the pages because it decides how
`page_of` folds an address onto them. -/
structure Mem where
  realmm : Bool
  /-- page number, then offset in the page; a page never touched reads as zero -/
  pages : U32 → U32 → U8

/-! ## Address translation -/

structure TlbEnt where
  tag : U32
  pa : U32
deriving DecidableEq

/-- One page of device space.  `devmap_add` stores page addresses only. -/
structure DevMap where
  va : U32
  pa : U32
  aligned : Lib.Words.pageAddr pa = pa
deriving DecidableEq

/-- The six fields a recorded user fault consists of. -/
structure UFault where
  pending : Bool
  va : U32
  pc : U32
  code : Bool
  write : Bool
  width : U32
deriving DecidableEq

/-! ## Descriptor routing -/

/-- The descriptor flags of one process: which descriptors reach the host
console, which the raw disk, which belong to the kernel, and the byte offset
into the disk image of each. -/
structure FdVals where
  con : Fin 64 → Bool
  dsk : Fin 64 → Bool
  krn : Fin 64 → Bool
  doff : Fin 64 → U32
deriving DecidableEq

def FDSETS : Nat := 24

abbrev FdSet := Lib.SlotTable.Slot Int FdVals

structure FdState where
  /-- `fd_console`, `fd_disk`, `fd_kernel` and `disk_off`, the working copy -/
  cur : FdVals
  fdsets : Fin FDSETS → FdSet
  fdcur : Int
  watchPc : U32
  watchPair : Bool
  watchCon : Bool
  watchDisk : Bool

/-! ## Configuration, devices, console -/

/-- Flags fixed by the command line and by `run_sys` before the first step. -/
structure Config where
  sysmode : Bool
  translateOn : Bool
  procexp : Bool
  kdataVa : U32
  kdataOff : U32
  tickScale : U32
  tickDiv : U32
  clockIrq : Bool
  clockPeriod : U64
  softintPeriod : U64
  shaSync : Bool
  biowaitSync : Bool
  skipSynchrtc : Bool
  shaDoneStatus : U32
  shaDescClear : U32
  forceSigPc : U32
  forceSigVal : U32
  consoleIo : Bool
  hostfileSize : U32
  hostfileVsize : U32

/-- The contents of an open host file. -/
structure Image where
  size : Nat
  /-- the bytes below `size`; the others mean nothing -/
  byte : Nat → U8

structure Devices where
  irqSource : U32
  shaStatus : U16
  cmramSel : U32
  cmramPages : U32 → U32 → U8
  tcsMboxPa : U32
  clockDeadline : U32
  clockArmed : Bool
  clockEnabled : Bool
  nextClock : U64
  nextSoftint : U64
  inKcall : Bool
  rootDevVp : U32
  /-- contents of the read-only root image and of the SCSI disk, when open -/
  rootImg : Option Image
  diskImg : Option Image
  hostfileImg : Option Image
  diskWrote : Bool
  fdHost : Fin 64 → Bool
  hostOff : Fin 64 → U32

/-- The bytes on one input wire: what has arrived and has not been taken, and
what each later moment brings.  The wire ends after the last batch. -/
structure Wire where
  queue : List U8
  later : List (List U8)

/-- The interactive console: transport, input buffers and terminal modes. -/
structure Console where
  useSock : Bool
  /-- a client is attached to the socket -/
  attached : Bool
  eof : Bool
  pushback : Option U8
  sock : Wire
  line : List U8
  linePos : Nat
  stdBuf : List U8
  stdPos : Nat
  stdin : Wire
  /-- bytes handed to the socket, to stdout and to stderr, oldest first -/
  sent : List U8
  out : List U8
  err : List U8
  ttySg : List U8
  ttyTc : List U8
  ttyLtc : List U8
  ttyLmode : U32
  /-- the mode mirrored onto the host terminal, when stdin is a terminal -/
  hostIsTty : Bool
  hostRaw : Bool
  outBytes : U32
  inBytes : U32

structure Machine where
  cpu : Cpu
  mem : Mem
  cfg : Config
  /-- `tlb[code][idx]` -/
  tlb : Bool → U32 → TlbEnt
  devmap : List DevMap
  ktabBias : U32
  ufault : UFault
  xlatWrite : Bool
  /-- the static `cached` of `scratch_base` -/
  scratchCached : U32
  trapTaken : Bool
  trapVector : U32
  trapPc : U32
  dev : Devices
  con : Console
  fd : FdState
  /-- the emulator is inside a loop that never ends -/
  hung : Bool

namespace Machine

def rd (m : Machine) (n : U32) : U32 := m.cpu.rd n

def wr (m : Machine) (n v : U32) : Machine := { m with cpu := m.cpu.wr n v }

def setPc (m : Machine) (pc : U32) : Machine := { m with cpu := { m.cpu with pc := pc } }

/-- `xlat_write`, set by the caller of `translate` around a store. -/
def setXlatWrite (m : Machine) (write : Bool) : Machine := { m with xlatWrite := write }

@[simp] theorem setXlatWrite_mem (m : Machine) (write : Bool) :
    (m.setXlatWrite write).mem = m.mem := rfl

def setMem (m : Machine) (mem : Mem) : Machine := { m with mem := mem }

end Machine

end Nx88
