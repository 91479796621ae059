import Nx88.Console.Input
import Nx88.Fd.Sets
import Nx88.Proc.Hostfile
/-!
# System calls that the emulator answers

`console_syscall` and `disk_syscall`: the descriptors of the host's terminal and of
the raw disk.  The flag of a result says that the call has been dealt with, and with
it unset the kernel gets the call.
-/

namespace Nx88

open Lib.Words Console

namespace Machine

/-- After this many turns the loop of `ubuf_fault` is back at the page it began with. -/
def UBUF_TURNS : Nat := 2 ^ 20 + 1

/-- `if (ubuf_fault(..)) return 1`, then the rest of the call. -/
def pinned (m : Machine) (va len : U32) (forwrite : Bool) (tpc : U32)
    (rest : Machine → Bool × Machine) : Bool × Machine :=
  match m.ubufFault UBUF_TURNS va len forwrite tpc with
  | none => (true, { m with hung := true })
  | some (true, m) => (true, m)
  | some (false, m) => rest m

def storeUser (m : Machine) (va : U32) (bytes : List U8) : Nat × Machine :=
  m.uwriteMem va (fun i => bytes.getD i 0) bytes.length

/-! ## The console -/

def consoleRead (net : Net) (m : Machine) (tpc : U32) : Bool × Machine :=
  let a1 := m.rd 3
  let n := if 4096 < m.rd 4 then 4096 else m.rd 4
  if ¬m.fdIsConsole (m.rd 2) then (false, m)
  else
    m.pinned a1 n true tpc fun m =>
      let (bytes, con) :=
        if n = 0 then ([], m.con)
        else if m.con.ttyIsRaw then m.con.conReadRaw net n.toNat
        else m.con.conReadLine net n.toNat
      let (got, m) := (m.setCon con).storeUser a1 bytes
      let got := BitVec.ofNat 32 got
      (true, (m.setCon { m.con with inBytes := m.con.inBytes + got }).served got tpc)

def ttyGet (m : Machine) (len tpc : U32) (answer : Console → List U8 × Console) : Bool × Machine :=
  let a2 := m.rd 4
  m.pinned a2 len true tpc fun m =>
    let (bytes, con) := answer m.con
    (true, ((m.setCon con).storeUser a2 bytes).2.served 0 tpc)

def ttySet (m : Machine) (len tpc : U32) (take : Console → List U8 → Console) : Bool × Machine :=
  let a2 := m.rd 4
  m.pinned a2 len false tpc fun m =>
    let (bytes, m) := m.loads a2 len.toNat
    (true, (m.setCon (take m.con bytes)).served 0 tpc)

def wordBytes (v : U32) : List U8 := [byteOf v 0, byteOf v 1, byteOf v 2, byteOf v 3]

/-- The 4.3BSD sgtty ioctls; any other succeeds without an effect. -/
def consoleIoctl (net : Net) (m : Machine) (tpc : U32) : Bool × Machine :=
  if ¬m.fdIsConsole (m.rd 2) then (false, m)
  else
    match (m.rd 3).toNat with
    | 0x40067408 => m.ttyGet 6 tpc fun c => (c.ttySg, c)
    | 0x80067409 | 0x8006740A =>
      m.ttySet 6 tpc fun c bytes =>
        let c := { c with ttySg := bytes }
        c.hostTtyMode c.ttyIsRaw
    | 0x40067412 => m.ttyGet 6 tpc fun c => (c.ttyTc, c)
    | 0x80067411 => m.ttySet 6 tpc fun c bytes => { c with ttyTc := bytes }
    | 0x40067474 => m.ttyGet 6 tpc fun c => (c.ttyLtc, c)
    | 0x80067475 => m.ttySet 6 tpc fun c bytes => { c with ttyLtc := bytes }
    | 0x4004747C => m.ttyGet 4 tpc fun c => (wordBytes c.ttyLmode, c)
    | 0x8004747D =>
      m.ttySet 4 tpc fun c bytes =>
        { c with ttyLmode := bytes.foldl (fun mode b => (mode <<< 8) ||| b.setWidth 32) 0 }
    | 0x40087468 => m.ttyGet 8 tpc fun c => ([0, 24, 0, 80, 0, 0, 0, 0], c)
    | 0x4004667F =>
      m.ttyGet 4 tpc fun c =>
        let (avail, c) := c.conInputAvail net
        (wordBytes (BitVec.ofNat 32 avail), c)
    | _ => (true, m.served 0 tpc)

def consoleSyscall (net : Net) (m : Machine) (sysno tpc : U32) : Bool × Machine :=
  if sysno = 4 then
    match m.consoleWrite net UBUF_TURNS tpc with
    | none => (true, { m with hung := true })
    | some .declined => (false, m)
    | some (.retry m) => (true, m)
    | some (.done _ m) => (true, m)
  else if sysno = 3 then m.consoleRead net tpc
  else if sysno = 54 then m.consoleIoctl net tpc
  else (false, m)

/-! ## The raw disk -/

def setDiskOff (m : Machine) (fd off : U32) : Machine :=
  { m with fd := { m.fd with cur := { m.fd.cur with doff := FdVals.setOff m.fd.cur.doff fd off } } }

/-- A transfer of `n` bytes from the disk at `off` to the user's buffer. -/
def diskIn (m : Machine) (f : Image) (off : Nat) (va n : U32) : Machine :=
  (m.storeUser va (readPadded (some f) off n.toNat)).2

/-- A transfer of `n` bytes from the user's buffer to the disk at `off`. -/
def diskOut (m : Machine) (f : Image) (off : Nat) (va n : U32) : Machine :=
  let (bytes, m) := m.loads va n.toNat
  { m with dev := { m.dev with diskImg := some (f.write off bytes) } }

def diskLseek (m : Machine) (f : Image) (tpc : U32) : Machine :=
  let a0 := m.rd 2
  let a1 := m.rd 3
  let off := FdVals.off m.fd.cur.doff a0
  let off :=
    if m.rd 4 = 0 then a1
    else if m.rd 4 = 1 then off + a1
    else if m.rd 4 = 2 then BitVec.ofNat 32 f.size + a1
    else off
  (m.setDiskOff a0 off).served off tpc

/-- `read` and `write`: at the descriptor's offset, which moves on. -/
def diskTransfer (m : Machine) (f : Image) (isRead : Bool) (tpc : U32) : Bool × Machine :=
  let a0 := m.rd 2
  let a1 := m.rd 3
  let a2 := m.rd 4
  m.pinned a1 a2 isRead tpc fun m =>
    let off := FdVals.off m.fd.cur.doff a0
    let m := if isRead then m.diskIn f off.toNat a1 a2 else m.diskOut f off.toNat a1 a2
    (true, (m.setDiskOff a0 (off + a2)).served a2 tpc)

/-- The block ioctl of `newfs`, with its request in user space. -/
def diskIoctl (m : Machine) (f : Image) (tpc : U32) : Bool × Machine :=
  if m.rd 3 ≠ 0xC014000D then (false, m)
  else
    let a2 := m.rd 4
    let (blk, m) := m.kread a2
    let (cnt, m) := m.kread (a2 + 0x08)
    let (flag, m) := m.kread (a2 + 0x0C)
    let (buf, m) := m.kread (a2 + 0x10)
    let n := cnt * 512
    let isRead : Bool := flag &&& 0x01000000 ≠ 0
    m.pinned buf n isRead tpc fun m =>
      let off := blk.toNat * 512
      let m := if isRead then m.diskIn f off buf n else m.diskOut f off buf n
      (true, m.served 0 tpc)

def diskSyscall (m : Machine) (sysno tpc : U32) : Bool × Machine :=
  match m.dev.diskImg with
  | none => (false, m)
  | some f =>
    if ¬FdVals.flag m.fd.cur.dsk (m.rd 2) then (false, m)
    else if sysno = 19 then (true, m.diskLseek f tpc)
    else if sysno = 3 then m.diskTransfer f true tpc
    else if sysno = 4 then m.diskTransfer f false tpc
    else if sysno = 54 then m.diskIoctl f tpc
    else (false, m)

def hostSyscall (m : Machine) (sysno tpc : U32) : Bool × Machine :=
  match m.hostfileSyscall UBUF_TURNS sysno tpc with
  | none => (true, { m with hung := true })
  | some (.declined m) => (false, m)
  | some (.retry m) => (true, m)
  | some (.done _ m) => (true, m)

end Machine

end Nx88
