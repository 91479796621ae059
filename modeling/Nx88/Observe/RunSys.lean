import Nx88.Cpu.Exception
import Nx88.Observe.FirstProcess
import Nx88.Proc.Service
/-!
# Observers and the run

The loop of `run_sys` with every place at which a diagnostic looks on.  A run in which
whatever is read at these places is read without a change goes as it goes with all
diagnostics off.
-/

namespace Nx88.Observe

open Lib Lib.Words Lib.Text

/-! ## What is looked at -/

namespace Look

def PCH_N : Nat := 65536

def KERN_PUTCHAR : U32 := 0xC005B218

def turnHead (pc : U32) : Look := note fun o t =>
  let t := { t with pchist := (pc :: t.pchist).take PCH_N }
  if ¬o.profile then t
  else if 0xC0010000 ≤ pc ∧ (pc - 0xC0010000) / 32 < 0x8000 then
    let i := (pc - 0xC0010000) / 32
    { t with profHist := Function.update t.profHist i (t.profHist i + 1) }
  else { t with profOther := t.profOther + 1 }

def pcRing (count : U64) : Look := only (fun o _ => o.dumpPchist) fun o t =>
  line "pchist" t.pchist count o t

def derail (c : Cpu) : Look := fun o t =>
  (line "derail" [c.pc, t.lastKpc, t.lastSleepChan, t.lastSleepFrom] c.count o t).bind
    (pcRing c.count o)

def bootComplete (color : Bool) (c : Cpu) : Look :=
  both (only (fun o _ => o.kmsgs) (note fun _ t => { t with kmsg := kmsgFlush color t.kmsg }))
    (line "boot-complete" [] c.count)

/-- The rows of `proc_table_dump` from entry `i` on, `rows` of them at most. -/
def tableRows (o : Options) (pb : U32) (count : U64) (i : Nat) (rows : Nat) (t : Trace) :
    Nat → Query U32 U32 Trace
  | 0 => .ret t
  | n + 1 =>
    if rows = 0 then .ret t
    else
      let q := pb + BitVec.ofNat 32 i * P_SIZE
      .ask (q + 0x40) fun st =>
        if st = 0 then tableRows o pb count (i + 1) rows t n
        else
          (words "proc" [q, st]
            [q + 0x4C, q + 0x44, q, q + 4, q + 0x80, q + 0x18, q + 0x90] count o t).bind fun t =>
            tableRows o pb count (i + 1) (rows - 1) t n

def procTableDump (count : U64) : Look := only (fun o _ => o.verboseSys) fun o t =>
  .ask G_PROCBASE fun pb => .ask G_NPROC fun np =>
    if pb = 0 then .ret t else tableRows o pb count 0 16 t np.toNat

def panicked (message : List U8) (c : Cpu) : Look := fun o t =>
  (line "PANIC" (message.map (BitVec.setWidth 32) ++ [c.rd 1, t.lastSleepChan, t.lastSleepFrom])
    c.count o t).bind (pcRing c.count o)

def lockSpin (c : Cpu) : Look := fun o t =>
  if t.spinSeen then .ret t
  else
    both (pcRing c.count) (line "lockspin" [c.rd 2, c.rd 1, c.rd 26, c.rd 25, c.rd 27] c.count) o
      { t with spinSeen := true }

/-- What is noted of every turn that goes on, and the kernel's `putchar`. -/
def turnBody (color : Bool) (c : Cpu) : Look :=
  both (note fun _ t =>
    if c.pc = 0xC0054A64 then { t with lastSleepChan := c.rd 2, lastSleepFrom := c.rd 1 } else t) <|
  both (only (fun _ _ => c.pc == 0xC0018170 || c.pc == 0xC00A7C78) (lockSpin c)) <|
  both (only (fun _ t => t.tracePcUntil != 0 && c.count < t.tracePcUntil)
    (line "pctrace" [c.pc] c.count)) <|
  both (note fun _ t => { t with lastKpc := c.pc })
    (only (fun o _ => o.kmsgs && c.pc == KERN_PUTCHAR)
      (note fun _ t =>
        { t with kmsg := kmsgPutchar color t.kmsg ((c.rd 2).setWidth 8) (c.rd 3) }))

/-- A page fault that goes to the kernel; the first ones are shown, with the pid. -/
def hwfault (interactive : Bool) (m : Machine) : Look :=
  only (fun _ _ => !interactive) fun o t =>
    let t' := { t with ufaults := t.ufaults + 1 }
    if t.ufaults < if o.verboseSys then 100000 else 12 then
      pidLine "hwfault" m [m.ufault.va, m.ufault.pc, m.cpu.cr 1] o t'
    else .ret t'

def trap (m : Machine) : Look := only (fun o _ => o.traceTraps)
  (pidLine "trap" m [m.trapVector, m.trapPc, m.rd 9, m.rd 2, m.rd 3, m.rd 4])

def openPath (m : Machine) (path : List U8) : Look := only (fun o _ => o.verboseSys)
  (pidLine "open" m (path.map (BitVec.setWidth 32)))

def execLine (m : Machine) : Look := only (fun o _ => o.verboseSys) (pidLine "exec" m [])

def delivered (count : U64) : Look := note fun o t =>
  if o.traceTraps then { t with tracePcUntil := count + o.traceLen } else t

def ending (limit : U64) (c : Cpu) : Look :=
  both (only (fun _ _ => limit ≤ c.count) (both (procTableDump c.count) (pcRing c.count))) <|
  both (only (fun o _ => o.profile) fun o t =>
    line "profile" [] t.profOther o t) <|
  both (only (fun o _ => o.vmprobe) fun o t =>
    t.dbg o "vmprobe" (.ret VM_PROBES) c.count) <|
  both (only (fun o _ => o.ctxtrace) fun o t =>
    line "ctx" (t.kctx.map KCtx.ctx) c.count o t)
    (line "stopped" [c.pc] c.count)

end Look

/-! ## The loop -/

/-- Whether a process of ours is alive: `procexp_proc` is among the ancestors of `q`. -/
def descends (root : U32) (q : U32) : Nat → Prog Bool
  | 0 => return q = root
  | hops + 1 => do
    if q = 0 ∨ q = root then return q = root
    else
      let parent ← kr32 (q + 0x18)
      descends root parent hops

def anyAlive (root pb : U32) (i : Nat) : Nat → Prog Bool
  | 0 => return false
  | n + 1 => do
    let q := pb + BitVec.ofNat 32 i * 512
    let st ← kr32 (q + P_STAT)
    if st = 0 ∨ st = 5 then anyAlive root pb (i + 1) n
    else if ← descends root q 32 then return true
    else anyAlive root pb (i + 1) n

/-- Queue `proc0` at the worst priority and give the kernel's scheduler a turn. -/
def yieldIdle (h : Host) : Prog Unit := do
  let p0 ← kr32 G_CURPROC_G
  if p0 ≠ 0 then
    onMachine fun m =>
      let (pa, m) := m.translate (p0 + 0x84) false
      m.setMem (m.mem.w8 pa 127)
    onMachine fun m =>
      let (pa, m) := m.translate (p0 + 0x85) false
      m.setMem (m.mem.w8 pa 127)
  runqAdd h p0
  onMachine fun m => ((m.wr 1 PROCEXP_IDLE).wr 2 0xFFFFFFFF).setPc 0xC0055CC0

/-- The idle sentinel; the flag says that the run goes on. -/
def idleHook (env : Env) : Prog Bool := do
  let pb ← kr32 G_PROCBASE
  let np ← kr32 G_NPROC
  let s ← Observed.state
  let alive ← if pb ≠ 0 then anyAlive s.procexpProc pb 0 np.toNat else pure false
  let m ← machine
  let spins := if m.cpu.count - s.lastCount < 2000 then s.idleSpins + 1 else 0
  if alive then
    Observed.modify fun s => { s with lastCount := m.cpu.count, idleSpins := spins }
  if alive ∧ spins < 2 then
    yieldIdle env.host
    return true
  else
    look (Look.line "halt" [] m.cpu.count)
    look (Look.procTableDump m.cpu.count)
    return false

def userCall (m : Machine) : Bool := m.trapVector = 128 ∧ m.cpu.cr 1 &&& 0x80000000 = 0

/-- What `run_sys` does about a system call before the kernel gets it; the flag says that
the emulator has answered it. -/
def userTrap (env : Env) : Prog Bool := do
  let m ← machine
  let sysno := m.rd 9
  let tpc := m.trapPc
  if ← act fun m => m.consoleSyscall env.net sysno tpc then return true
  else if ← act fun m => m.diskSyscall sysno tpc then return true
  else if ← act fun m => m.hostSyscall sysno tpc then return true
  else
    let path ←
      if sysno = 5 ∨ sysno = 8 then do
        let path ← act fun m => m.ureadStr (m.rd 2) 64
        look (Look.openPath m path)
        pure path
      else pure []
    let m ← machine
    if sysno = 59 then
      Observed.look (.execPath (m.rd 2))
      look (Look.execLine m)
    onMachine fun m =>
      { m with fd := m.fd.fdTrap sysno (m.rd 2) (m.rd 3) tpc (strstr path (ascii "sd0")) }
    return false

/-- A trap; the flag says that the run goes on. -/
def trapped (env : Env) : Prog Bool := do
  let s ← Observed.state
  if s.deliverTraps ∧ s.m.trapVector ≠ -1 ∧ 0xC0000000 ≤ s.m.cpu.cr 7 then
    let user := userCall s.m
    if user then
      let pid ← realPid
      let ppid ← realPpid
      onMachine fun m => { m with fd := m.fd.fdSwitch m.cfg.procexp pid ppid }
    if user ∧ (s.m.rd 9 = 34 ∨ s.m.rd 9 = 159) then
      Observed.modify fun s => { s with fsSynced := true }
    let m ← machine
    look (Look.trap m)
    let answered ← if user then userTrap env else pure false
    if ¬answered then
      onMachine fun m => m.deliverTrap m.trapVector m.trapPc
      let m ← machine
      look (Look.delivered m.cpu.count)
    onMachine fun m => { m with trapTaken := false }
    return true
  else
    look (Look.line "trap" [s.m.trapVector, s.m.trapPc] s.m.cpu.count)
    return false

def turnStep (env : Env) : Prog Bool := do
  onMachine fun m =>
    { m with fd := m.fd.fdReturn m.cpu.pc (m.cpu.cr 1 &&& 0x80000000 = 0) (m.rd 2) (m.rd 3) }
  let m ← machine
  if m.ufault.pending then
    onMachine fun m => m.setPending false
    look (Look.hwfault env.interactive m)
    onMachine fun m =>
      let u := m.ufault
      m.deliverFault (if u.code then 2 else 3) m.cpu.pc u.va u.code u.write u.width
    return true
  else if ← step env.host then trapped env
  else return true

def turn (env : Env) : Prog Bool := do
  let m ← machine
  let pc := m.cpu.pc
  if env.limit ≤ m.cpu.count then return false
  else
    look (Look.turnHead pc)
    if m.mem.realmm ∧ pc < 0xC0000000 ∧ m.cpu.cr 1 &&& 0x80000000 ≠ 0 then
      look (Look.derail m.cpu)
      return false
    else if pc = 0xC0054720 ∧ m.rd 1 = 0xC004859C ∧ m.rd 2 = 0xC0047F88 then
      look (Look.bootComplete env.color m.cpu)
      if m.cfg.procexp then procExperiment env
      else
        if env.vmexp then vmExperiment env
        return false
    else if m.cfg.procexp ∧ pc = PROCEXP_IDLE then idleHook env
    else if pc = 0xC00A24F4 ∨ pc = 0xC00A24B8 then
      look (Look.both (Look.line "halt" [pc] m.cpu.count) (Look.pcRing m.cpu.count))
      return false
    else
      if pc = 0xC005AFE0 then
        let message ← act fun m => m.ureadStr (m.rd 2) 160
        look (Look.panicked message m.cpu)
      look (Look.turnBody env.color m.cpu)
      turnStep env

/-- `n` turns of the loop, or what follows it when it has ended before. -/
def runSys (env : Env) (n : Nat) : Prog Unit := do
  if ← Observed.loop (turn env) n then
    let m ← machine
    look (Look.ending env.limit m.cpu)

end Nx88.Observe
