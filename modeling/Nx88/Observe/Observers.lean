import Nx88.Console.Kmsg
import Nx88.Lib.Observed
import Nx88.Lib.Query
import Nx88.Memory.Watch
/-!
# Observers

What the diagnostic options do at the places where they look on: which words of guest
memory they read, through `translate` as the guest does, what they keep and what they
print.
-/

namespace Nx88.Observe

open Lib Lib.Words

/-! ## Options and what is kept -/

structure Options where
  debug : Bool
  verboseSys : Bool
  vmprobe : Bool
  ctxtrace : Bool
  scsiTrace : Bool
  traceTraps : Bool
  profile : Bool
  dumpPchist : Bool
  kmsgs : Bool
  stwatchPc : U32
  regfindVal : U32
  watchPc : U32
  wmemLo : U32
  wmemHi : U32
  wmemMax : U64
  pwatch : Pwatch
  wtraceN : U64
  traceLen : U64

/-- One printed line: what kind, and the numbers in it. -/
structure Line where
  tag : String
  vals : List Nat

/-- A context that `load_context` has been seen with. -/
structure KCtx where
  ctx : U32
  first : U64
  n : U64
  caller : U32

/-- What the observers keep for themselves. -/
structure Trace where
  /-- count and first time of each probed address -/
  vmprobes : U32 → U64 × U64
  vmfaultLogged : Nat
  kctx : List KCtx
  stwatchActive : Bool
  stwatchDone : Bool
  stwatchRet : U32
  regfindN : Nat
  wmemN : U64
  pwatchN : Nat
  scsiTraceN : Nat
  wtraceAt : U64
  wtraceLeft : U64
  tracePcUntil : U64
  profHist : U32 → U64
  profOther : U64
  /-- the latest program counters, the last one first -/
  pchist : List U32
  lastKpc : U32
  lastSleepChan : U32
  lastSleepFrom : U32
  spinSeen : Bool
  ufaults : Nat
  kmsg : KmsgState
  out : List Line

/-- An observer at one place: it asks for words at virtual addresses and changes what
it keeps. -/
abbrev Look := Options → Trace → Query U32 U32 Trace

def wordsAt : List U32 → Query U32 U32 (List U32)
  | [] => .ret []
  | va :: vas => .ask va fun w => (wordsAt vas).bind fun ws => .ret (w :: ws)

/-- The words at these addresses as arguments of one call: the language leaves the order
of their evaluation open, and the compiler takes the last one first. -/
def argsAt (vas : List U32) : Query U32 U32 (List U32) :=
  (wordsAt vas.reverse).bind fun ws => .ret ws.reverse

namespace Trace

def print (t : Trace) (tag : String) (vals : List Nat) : Trace := { t with out := t.out ++ [⟨tag, vals⟩] }

/-- `dbg`: without `debug` its arguments are not even evaluated. -/
def dbg (t : Trace) (o : Options) (tag : String) (args : Query U32 U32 (List U32)) (count : U64) :
    Query U32 U32 Trace :=
  if o.debug then args.bind fun vals => .ret (t.print tag (vals.map BitVec.toNat ++ [count.toNat]))
  else .ret t

end Trace

namespace Look

def line (tag : String) (vals : List U32) (count : U64) : Look := fun o t =>
  t.dbg o tag (.ret vals) count

def words (tag : String) (vals vas : List U32) (count : U64) : Look := fun o t =>
  t.dbg o tag ((argsAt vas).bind fun ws => .ret (vals ++ ws)) count

def dump (tag : String) (vals vas : List U32) (count : U64) : Look := fun o t =>
  t.dbg o tag ((wordsAt vas).bind fun ws => .ret (vals ++ ws)) count

def note (f : Options → Trace → Trace) : Look := fun o t => .ret (f o t)

def only (on : Options → Trace → Bool) (f : Look) : Look := fun o t =>
  if on o t then f o t else .ret t

def both (f g : Look) : Look := fun o t => (f o t).bind (g o)

/-! ## In `step` -/

/-- The addresses of `vmprobes`. -/
def VM_PROBES : List U32 :=
  [0xC0016000, 0xC0016180, 0xC0016190, 0xC0017788, 0xC008B35C, 0xC0090B2C, 0xC0091224, 0xC008B5E8,
    0xC004F9BC, 0xC0094984, 0xC00A6AB0, 0xC0094058, 0xC0096610, 0xC00978FC, 0xC0017138, 0xC00170F0,
    0xC004D188, 0xC0057474, 0xC0057520, 0xC005E5E4, 0xC0078460, 0xC005E9B8, 0xC0016E30]

def vmProbeTick (c : Cpu) : Look := fun o t =>
  if VM_PROBES.contains c.pc then
    let (n, first) := t.vmprobes c.pc
    let t := { t with
      vmprobes :=
        Function.update t.vmprobes c.pc (n + 1, if n = 0 then c.count else first) }
    if c.pc = 0xC008B35C ∧ t.vmfaultLogged < 12 then
      line "vmflt" [c.rd 2, c.rd 3, c.rd 4, c.cr 1, c.rd 1] c.count o
        { t with vmfaultLogged := t.vmfaultLogged + 1 }
    else .ret t
  else .ret t

def KCTX_MAX : Nat := 512

/-- A context that is new is noted, and a line shows words of it. -/
def ctxTick (c : Cpu) : Look := fun o t =>
  let ctx := c.rd 2
  if t.kctx.any (fun k => k.ctx == ctx) then
    .ret { t with kctx := t.kctx.map fun k => if k.ctx = ctx then { k with n := k.n + 1 } else k }
  else if KCTX_MAX ≤ t.kctx.length then .ret t
  else
    words "ctx" [ctx, c.rd 1] [ctx + 0x80, ctx + 0x7C, ctx + 0x98, ctx + 0xA0] c.count o
      { t with kctx := t.kctx ++ [⟨ctx, c.count, 1, c.rd 1⟩] }

def stwatchTick (c : Cpu) : Look := fun o t =>
  if ¬t.stwatchDone ∧ ¬t.stwatchActive ∧ c.pc = o.stwatchPc then
    line "stw" [c.pc, c.rd 2, c.rd 3, c.rd 4, c.rd 5, c.rd 1] c.count o
      { t with stwatchActive := true, stwatchRet := c.rd 1 }
  else if t.stwatchActive ∧ c.pc = t.stwatchRet then
    line "stw" [c.rd 2] c.count o { t with stwatchActive := false, stwatchDone := true }
  else .ret t

def regfindTick (c : Cpu) : Look := fun o t =>
  match ((List.range 32).drop 2).find? (fun r => c.word r == o.regfindVal) with
  | none => .ret t
  | some r =>
    let t' := { t with regfindN := t.regfindN + 1 }
    if t.regfindN < 60 then line "rfind" [BitVec.ofNat 32 r, c.pc, c.rd 1] c.count o t' else .ret t'

def stepHead (c : Cpu) : Look :=
  both (only (fun o _ => o.vmprobe) (vmProbeTick c)) <|
    both (only (fun o _ => o.ctxtrace && c.pc == 0xC0017498) (ctxTick c)) <|
      both (only (fun o _ => o.stwatchPc != 0) (stwatchTick c))
        (only (fun o _ => o.regfindVal != 0) (regfindTick c))

/-- The command word behind the first is read whenever the option is set. -/
def sdCommand (cmd target op dma xfer : U32) (count : U64) : Look :=
  only (fun o _ => o.scsiTrace) fun o t =>
    .ask (cmd + 0x74) fun w => line "sdcmd" [target, op, w, dma, xfer] count o t

def dpram (m : Mem) : List U32 :=
  (List.range 24).map fun i => (m.r16 (0xFC008890 + BitVec.ofNat 32 (2 * i))).setWidth 32

def shaDone (m : Mem) (c : Cpu) : Look :=
  let desc := c.rd 27
  only (fun o _ => o.scsiTrace) <|
    both (line "sha" [c.rd 1, desc, c.rd 4, c.rd 2] c.count) <|
      both (only (fun _ _ => 0xC0000000 ≤ desc)
        (dump "iopb" [desc] ((List.range 16).map fun i => desc + BitVec.ofNat 32 (4 * i)) c.count))
        (line "dpram" (dpram m) c.count)

/-- The pipeline state at the `rte` of a switch to user mode; all of it is at hand. -/
def loadContextRte (m : Mem) (ktabBias : U32) (c : Cpu) : Look :=
  let cuapr := m.r32 (cmmuBase true + CMMU_UAPR)
  let pa := ((m.mmuWalk ktabBias cuapr 0x1000).map Prod.fst).getD 0
  only (fun o _ => o.traceTraps) (line "ldctx-rte"
    [c.cr 1, c.cr 2, c.cr 4, c.cr 5, c.cr 6, cuapr, m.r32 (cmmuBase false + CMMU_UAPR), pa,
      if pa = 0 then 0 else m.r32 pa] c.count)

def mountroot (c : Cpu) : Look :=
  only (fun o _ => o.scsiTrace && c.pc == 0xC0071DBC)
    (words "mountroot" [c.rd 9] [0xC1015A48, 0xC009EB40] c.count)

def watch (c : Cpu) : Look := fun o t =>
  let t :=
    if t.wtraceAt ≠ 0 ∧ t.wtraceAt ≤ c.count then { t with wtraceLeft := o.wtraceN, wtraceAt := 0 }
    else t
  (if t.wtraceLeft ≠ 0 then
    line "wt" [c.pc] c.count o { t with wtraceLeft := t.wtraceLeft - 1 }
  else .ret t).bind fun t =>
    if o.watchPc ≠ 0 ∧ c.pc = o.watchPc then
      line "watch"
        (c.pc :: [1, 2, 3, 4, 5, 6, 7, 8, 9, 17, 18, 19, 21, 22, 23, 24, 25, 26, 27].map c.rd) c.count
        o (if o.wtraceN ≠ 0 ∧ t.wtraceLeft = 0 then { t with wtraceLeft := o.wtraceN } else t)
    else .ret t

/-- `--wmem` and `--stwatch`, before the data address `va` is translated. -/
def wmemTick (c : Cpu) (sub D va : U32) : Look :=
  only (fun o t =>
    (o.wmemHi != 0 || t.stwatchActive) && (t.stwatchActive || o.wmemLo ≤ va && va < o.wmemHi) &&
      isStore sub) fun o t =>
    let t' := { t with wmemN := t.wmemN + 1 }
    if o.wmemMax ≤ t.wmemN then .ret t'
    else line "wmem" [va, va - o.wmemLo, c.rd D, c.pc, c.rd 1, c.rd 31] c.count o t'

/-- An access to the VME controller at the physical address `pa`. -/
def vmeAccess (c : Cpu) (sub D pa : U32) : Look :=
  only (fun o t =>
    o.scsiTrace && 0xFC000000 ≤ pa && pa < 0xFC010000 && t.scsiTraceN < 100000) fun o t =>
    line "scsi" [pa, sub, if 0x08 ≤ sub ∧ sub ≤ 0x0B then c.rd D else 0, c.pc] c.count o
      { t with scsiTraceN := t.scsiTraceN + 1 }

/-- `pwatch_hit` for each watched byte of these stores. -/
def pwatchHits (c : Cpu) (stores : List MemWrite) : Look := note fun o t =>
  (stores.flatMap (MemWrite.reported o.pwatch)).foldl (fun t hit =>
    let t' := { t with pwatchN := t.pwatchN + 1 }
    if t.pwatchN < 40 ∧ o.debug then
      t'.print "pwatch" [hit.1.toNat, hit.2.toNat, c.pc.toNat, (c.rd 1).toNat, (c.rd 31).toNat,
        c.count.toNat]
    else t') t

end Look

end Nx88.Observe
