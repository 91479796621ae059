import Nx88.Console.Write
import Nx88.Loader.Aout
import Nx88.Observe.Program
/-!
# The first process

`proc_experiment` creates a process with the kernel's own functions, fills its address
space and has the kernel switch to it; the run queue and the process table are read
and changed on the way.
-/

namespace Nx88.Observe

open Lib Lib.Words Lib.Text

/-! ## The host's side of a run -/

/-- What stays the same during a run of `run_sys`. -/
structure Env where
  host : Host
  net : Console.Net
  limit : U64
  interactive : Bool
  vmexp : Bool
  procexec : Bool
  runInit : Bool
  /-- whether the kernel's log is coloured -/
  color : Bool
  /-- `uprog_path`, and the strings of `uargv` and `uenvp`, without their NULs -/
  uprogPath : Option (List U8)
  uargv : List (List U8)
  uenvp : List (List U8)
  /-- `aout_load` -/
  aoutLoad : List U8 → Option AOut

/-! ## Kernel structures -/

def P_SIZE : U32 := 512
def P_STAT : U32 := 0x40
def P_PID : U32 := 0x4C
def P_NODE : U32 := 0x7C
def P_UMAP : U32 := 0xD4
def P_CTX : U32 := 0xC8
def G_ALLPROC : U32 := 0xC1015648
def G_PROCBASE : U32 := 0xC1015758
def G_NPROC : U32 := 0xC1014B80
def G_PROCPERND : U32 := 0xC10157E0
def G_NNODES : U32 := 0xC1014D40
def G_NEXTPID : U32 := 0xC1015A68
def G_PROCINUSE : U32 := 0xC1006B20
def G_CURPROC : U32 := 0xFBFFE0F0
def F_NEWPROC : U32 := 0xC004E3B0
def PROCEXP_TRAMP : U32 := 0xC0F00000
def PROCEXP_IDLE : U32 := 0xC0F00020
def HDR_PAGE : U32 := 8192

def runqRemove (h : Host) (p : U32) : Prog Unit := do
  if p = 0 then return
  else
    let queue ← kr32 (p + 0x80)
    if queue = 0 then return
    else
      let _ ← kcall h ⟨0xC0018514, p, 0, 0, 0, 0⟩
      kw32 p 0
      kw32 (p + 4) 0

def runqAdd (h : Host) (p : U32) : Prog Unit := do
  if p = 0 then return
  else
    let queue ← kr32 (p + 0x80)
    if queue ≠ 0 then return
    else
      let stat ← kr32 (p + P_STAT)
      if stat ≠ 3 then return
      else
        let _ ← kcall h ⟨0xC00559C8, p, 0, 0, 0, 0⟩

def realPid : Prog Int := do
  let m ← machine
  if m.cfg.procexp then
    let cp ← kr32 G_CURPROC_G
    if cp = 0 then return 0
    else
      let w ← kr32 (cp + P_PID)
      return (w >>> 16).toNat
  else return 0

def realPpid : Prog Int := do
  let m ← machine
  if ¬m.cfg.procexp then return 0
  else
    let cp ← kr32 G_CURPROC_G
    if cp = 0 then return 0
    else
      let pp ← kr32 (cp + 0x18)
      if pp = 0 then return 0
      else
        let w ← kr32 (pp + P_PID)
        return (w >>> 16).toNat

/-- `real_pid` as an argument of a line. -/
def pidWord (procexp : Bool) : Query U32 U32 U32 :=
  if procexp then
    .ask G_CURPROC_G fun cp => if cp = 0 then .ret 0 else .ask (cp + P_PID) fun w => .ret (w >>> 16)
  else .ret 0

def pidLine (tag : String) (m : Machine) (vals : List U32) : Look := fun o t =>
  t.dbg o tag ((pidWord m.cfg.procexp).bind fun pid => .ret (pid :: vals)) m.cpu.count

def setCurproc (p ctx : U32) : Prog Unit := do
  kw32 G_CURPROC_G p
  let m ← machine
  let upage ← if m.cfg.kdataOff ≠ 0 then kr32 (ctx + 0x98) else pure 0
  if upage ≠ 0 then onMachine fun m => m.setMem (m.mem.w32 (upage + (G_CURPROC &&& 0xFFF)) p)
  else kw32 G_CURPROC p

/-- `dump_words` -/
def dumpWords (tag : String) (base : U32) (n : Nat) (count : U64) : Look :=
  Look.dump tag [base] ((List.range n).map fun i => base + BitVec.ofNat 32 (4 * i)) count

/-! ## The address space of the process -/

/-- `kwalk`: through the process's table, at the address the hardware would use or else at
the one where the kernel has built it. -/
def kwalk (pmap va : U32) : Prog (Option U32) := do
  let stva ← kr32 pmap
  let stpa ← kr32 (pmap + 4)
  let m ← machine
  match m.mem.mmuWalk m.ktabBias (stpa ||| 1) va with
  | some (pa, _) => return some pa
  | none =>
    let bias := stva - stpa
    let sd ← kr32 (stva + ((va >>> 22) &&& 0x3FF) * 4)
    if sd &&& 1 = 0 then return none
    else
      let pd ← kr32 ((sd &&& 0x3FFFF000) + bias + ((va >>> 12) &&& 0x3FF) * 4)
      if pd &&& 1 = 0 then return none
      else return some (pageAddr pd ||| offsetOf va)

def uput8 (pmap va : U32) (v : U8) : Prog Unit := do
  match ← kwalk pmap va with
  | some pa => onMachine fun m => m.setMem (m.mem.w8 pa v)
  | none => return

def uputBytes (pmap va : U32) : List U8 → Prog Unit
  | [] => return
  | b :: bs => do
    uput8 pmap va b
    uputBytes pmap (va + 1) bs

def uput32 (pmap va v : U32) : Prog Unit :=
  uputBytes pmap va [byteOf v 0, byteOf v 1, byteOf v 2, byteOf v 3]

def uputWords (pmap va : U32) : List U32 → Prog Unit
  | [] => return
  | w :: ws => do
    uput32 pmap va w
    uputWords pmap (va + 4) ws

/-- Strings below `sp`, the first one on top; the new `sp` and their addresses. -/
def uputStrings (pmap sp : U32) : List (List U8) → Prog (U32 × List U32)
  | [] => return (sp, [])
  | s :: rest => do
    let sp := sp - BitVec.ofNat 32 (s.length + 1)
    uputBytes pmap sp (s ++ [0])
    let (low, ptrs) ← uputStrings pmap sp rest
    return (low, sp :: ptrs)

/-- Have the kernel allocate and wire a range; the flag says that it did. -/
def wireRange (h : Host) (map slot lo hi : U32) : Prog Bool := do
  kw32 slot lo
  let e ← kcall h ⟨0xC008EB6C, map, slot, hi - lo, 0x90, 0xFFFFFFFF⟩
  let w ← kcall h ⟨0xC0092350, map, lo, hi, 1, 0⟩
  let m ← machine
  look (Look.line "range" [lo, hi, e, w] m.cpu.count)
  return e = 0 ∧ w = 0

/-- Where the segments of a hand-loaded image are, in the file and in memory. -/
structure ImageLayout where
  txtaddr : U32
  txtoff : U32
  dataddr : U32
  datoff : U32
  imgHi : U32

def imageLayout (a : AOut) : ImageLayout :=
  let std : Bool := (a.magic >>> 16) &&& 0xFF ≠ 0
  let txtoff := if std then 0 else HDR_PAGE
  let txtaddr := if std then HDR_PAGE else 0
  let dataddr := txtaddr + ((a.text + 4095) &&& ~~~4095)
  ⟨txtaddr, txtoff, dataddr, txtoff + a.text, (dataddr + a.data + a.bss + 0x1FFF) &&& ~~~0x1FFF⟩

def imageByte (a : AOut) (l : ImageLayout) (o : U32) : U8 :=
  if l.txtaddr ≤ o ∧ o < l.txtaddr + a.text then a.img.byte (l.txtoff + (o - l.txtaddr)).toNat
  else if l.dataddr ≤ o ∧ o < l.dataddr + a.data then a.img.byte (l.datoff + (o - l.dataddr)).toNat
  else 0

/-- Copy the image into the frames that the kernel chose; how many pages have none. -/
def loadPages (pmap : U32) (a : AOut) (l : ImageLayout) (i : Nat) : Nat → Prog Nat
  | 0 => return 0
  | n + 1 => do
    let va := BitVec.ofNat 32 (4096 * i)
    match ← kwalk pmap va with
    | none => do
      let missing ← loadPages pmap a l (i + 1) n
      return missing + 1
    | some pa => do
      onMachine fun m => m.setMem (m.mem.load pa
        ((List.range 4096).map fun k => imageByte a l (va + BitVec.ofNat 32 k)))
      loadPages pmap a l (i + 1) n

/-- Three times `open("/dev/null", 2, 0)`, with the error return led back. -/
def bootWords (unull : U32) : List U32 :=
  [0x5C400000 ||| (unull >>> 16), 0x58420000 ||| (unull &&& 0xFFFF), 0x58600002, 0x58800000,
    0x59200005, 0xF000D080, 0xC0000001]

/-- `execve(path, argv, envp)`, then a spin for either return. -/
def stubWords (upath uargvp uenvpp : U32) : List U32 :=
  [0x5C400000 ||| (upath >>> 16), 0x58420000 ||| (upath &&& 0xFFFF),
    0x5C600000 ||| (uargvp >>> 16), 0x58630000 ||| (uargvp &&& 0xFFFF),
    0x5C800000 ||| (uenvpp >>> 16), 0x58840000 ||| (uenvpp &&& 0xFFFF),
    0x5920003B, 0xF000D080, 0xC0000000, 0xC0000000]

/-! ## `proc_experiment` -/

/-- The first of the clusters 2 and 3 that the table has, or 0. -/
def findCluster (ctab : U32) : Prog U32 := do
  if ctab = 0 then return 0
  else
    let two ← kr32 (ctab + 2 * 0xB0 + 0x14)
    if two = 2 then return 2
    else
      let three ← kr32 (ctab + 3 * 0xB0 + 0x14)
      return if three = 3 then 3 else 0

/-- The segment table and APR of the new process beside those of its context.  The
comparison is the last argument; the APR is compared only where the tables are the same. -/
def pmapLine (pmap ctx : U32) (count : U64) : Look := fun o t =>
  t.dbg o "pmap" ((wordsAt [pmap, ctx + 0xA0]).bind fun tables =>
    (if tables.getD 0 0 = tables.getD 1 0 then wordsAt [pmap + 4, ctx + 0xA4] else .ret []).bind
      fun aprs => (argsAt [pmap, ctx + 0xA0, pmap + 4, ctx + 0xA4]).bind fun ws =>
        .ret (ws ++ tables ++ aprs)) count

/-- Strings, argument block and stub: the stack pointer, for `entry` to start with. -/
def fillSpace (env : Env) (pmap ubase stkHi : U32) (gpath : List U8) : Prog U32 := do
  let av := if env.uargv = [] then [ascii "prog"] else env.uargv
  let (sp, argps) ← uputStrings pmap stkHi av
  let (sp, envps) ← uputStrings pmap sp env.uenvp
  let upath := sp - BitVec.ofNat 32 (gpath.length + 1)
  uputBytes pmap upath (gpath ++ [0])
  let unull := upath - 10
  uputBytes pmap unull (ascii "/dev/null" ++ [0])
  let argc := if env.procexec then [] else [BitVec.ofNat 32 av.length]
  let table := argc ++ argps ++ [0] ++ envps ++ [0]
  let sp := (unull - BitVec.ofNat 32 (4 * table.length)) &&& ~~~7
  uputWords pmap sp table
  let uargvp := sp + BitVec.ofNat 32 (4 * argc.length)
  let uenvpp := uargvp + BitVec.ofNat 32 (4 * (argps.length + 1))
  if env.procexec then
    let boot := bootWords unull
    uputWords pmap ubase (boot ++ boot ++ boot ++ stubWords upath uargvp uenvpp)
  return sp

def clearRunq (h : Host) (base p cur idle : U32) (i : Nat) : Nat → Prog Unit
  | 0 => return
  | n + 1 => do
    let q := base + BitVec.ofNat 32 i * P_SIZE
    if q = p ∨ q = cur ∨ q = idle then clearRunq h base p cur idle (i + 1) n
    else
      let stat ← kr32 (q + P_STAT)
      if stat = 3 then runqRemove h q
      clearRunq h base p cur idle (i + 1) n

/-- Have the kernel switch to the process: trampoline, contexts, run queue. -/
def startProcess (env : Env) (p ctx cur entry sp : U32) : Prog Bool := do
  let tpa ← act fun m => m.translate PROCEXP_TRAMP false
  let m ← machine
  if m.mem.r32 tpa ≠ 0 ∨ m.mem.r32 (tpa + 4) ≠ 0 then return false
  else
    onMachine fun m => m.setMem (((((m.mem.w32 tpa 0x584F0000).w32 (tpa + 4) 0x58700000).w32
      (tpa + 8) 0x58800000).w32 (tpa + 12)
        (0xC0000000 ||| (((0xC0016E30 - (PROCEXP_TRAMP + 12)) >>> 2) &&& 0x03FFFFFF))).w32
          (tpa + 0x20) 0xC0000000)
    let pctx ← kr32 (cur + P_CTX)
    let _ ← kcall env.host ⟨0xC00173EC, pctx, 0, 0, 0, 0⟩
    kw32 (pctx + 0x80) PROCEXP_IDLE
    kw32 (ctx + 0x3C) entry
    kw32 (ctx + 0x40) sp
    kw32 (ctx + 0x80) PROCEXP_TRAMP
    runqRemove env.host p
    let base ← kr32 G_PROCBASE
    let np ← if env.runInit then pure 0 else kr32 G_NPROC
    let node ← kr32 0xC0014008
    let idle ← kr32 (0xC1015D18 + node * 4)
    if base ≠ 0 then clearRunq env.host base p cur idle 0 np.toNat
    runqAdd env.host cur
    setCurproc p ctx
    Observed.modify fun s => { s with deliverTraps := true }
    onMachine fun m => (m.wr 2 ctx).setPc 0xC0017498
    let m ← machine
    look (Look.words "load_context" [ctx, entry, sp] [p + P_PID] m.cpu.count)
    if env.interactive then
      onMachine fun m => m.setCon (m.con.conWrite env.net
        (ascii "\nnX on the TC2000: starting /bin/sh...\n\n") false).2
    return true

def runProcess (env : Env) (p ctx cur map pmap : U32) : Prog Bool := do
  let st ← kr32 pmap
  let stpa ← act fun m => m.translate st false
  let apr ← kr32 (pmap + 4)
  onMachine fun m => { m with ktabBias := stpa - apr }
  let m ← machine
  look (Look.words "bias" [stpa - apr] [pmap, pmap + 4] m.cpu.count)
  let path := env.uprogPath.getD (ascii "/bin/sh")
  let image := if env.procexec then none else env.aoutLoad path
  if ¬env.procexec ∧ image = none then return false
  else
    let ubase : U32 := if env.procexec then 0x20000000 else 0
    let stkLo : U32 := if env.procexec then ubase + 0x2000 else 0x7FFF0000 - 0x10000
    let stkHi : U32 := if env.procexec then ubase + 0x4000 else 0x7FFF0000
    let imgHi := (image.map fun a => (imageLayout a).imgHi).getD 0x2000
    if ¬(← wireRange env.host map (p + 0xE0) ubase (ubase + imgHi)) then return false
    else if ¬(← wireRange env.host map (p + 0xE0) stkLo stkHi) then return false
    else
      let missing ←
        match image with
        | none => pure 0
        | some a => loadPages pmap a (imageLayout a) 0 ((imgHi.toNat + 4095) / 4096)
      if missing ≠ 0 then return false
      else
        let sp ← fillSpace env pmap ubase stkHi (path.take 1023)
        startProcess env p ctx cur ((image.map AOut.entry).getD ubase) sp

/-- `proc_experiment`; the flag says that there is a process to run. -/
def procExperiment (env : Env) : Prog Bool := do
  let base ← kr32 G_PROCBASE
  let cur ← kr32 G_CURPROC
  let m ← machine
  look (Look.words "procs" [base, cur]
    [G_NPROC, G_PROCPERND, G_NNODES, G_PROCINUSE, G_NEXTPID, cur + P_PID] m.cpu.count)
  let head ← kr32 G_ALLPROC
  let ctab ← kr32 0xC1016D58
  let clu ← findCluster ctab
  let rc ← kcall env.host ⟨F_NEWPROC, 0, 0, 0, 0, 0⟩
  let p ← kr32 G_ALLPROC
  look (Look.line "newproc" [ctab, clu, rc, head, p] m.cpu.count)
  if rc ≠ 0 ∨ p = head then return false
  else
    if clu ≠ 0 then kw32 (p + 0x90) clu
    let _ ← kr32 (p + P_PID)
    Observed.modify fun s => { s with procexpProc := p }
    let ctx ← kr32 (p + P_CTX)
    look (Look.words "proc" [p] [p + P_PID, p + P_STAT, p + P_NODE, p + P_UMAP] m.cpu.count)
    look (Look.words "context" [ctx] [ctx + 0x80, ctx + 0x7C, ctx + 0x98, ctx + 0xA0] m.cpu.count)
    look (dumpWords "proc" p 64 m.cpu.count)
    look (dumpWords "context" ctx 60 m.cpu.count)
    let map ← kr32 (p + P_UMAP)
    let pmap ← kcall env.host ⟨0xC008F55C, map, 0, 0, 0, 0⟩
    look (Look.words "vm_map" [map, pmap] [map + 0x50] m.cpu.count)
    look (dumpWords "vm_map" map 24 m.cpu.count)
    let none : Bool := pmap < 0xC0000000 ∨ pmap = 0xFFFFFFFF
    look (Look.only (fun _ _ => !none)
      (Look.both (dumpWords "pmap" pmap 24 m.cpu.count) (pmapLine pmap ctx m.cpu.count)))
    let umap ← kr32 (cur + P_UMAP)
    let pmap0 ← kr32 (umap + 0x50)
    look (Look.words "proc0" [pmap0] [cur + P_UMAP, pmap0 + 4] m.cpu.count)
    if none then return false
    else runProcess env p ctx cur map pmap

def vmExperiment (env : Env) : Prog Unit := do
  let pmap ← kcall env.host ⟨0xC0094058, 0, 0, 0, 0, 0⟩
  let m ← machine
  look (Look.line "pmap_create" [pmap] m.cpu.count)
  if pmap < 0xC0000000 ∨ pmap = 0xFFFFFFFF then return
  else
    look (dumpWords "pmap" pmap 24 m.cpu.count)
    let map ← kcall env.host ⟨0xC004F9BC, pmap, 0, 0x80000000, 1, 0⟩
    look (Look.line "vm_map_create" [map] m.cpu.count)

end Nx88.Observe
