import Nx88.Clock.Run
import Nx88.Observe.Observers
import Nx88.Proc.Copy
/-!
# The observed machine

`step` and `kcall` with the places at which the observers look on.  Without them the
step is the machine's own.
-/

namespace Nx88.Observe

open Lib

/-! ## Looking at the machine -/

def wordAt (m : Machine) (va : U32) : U32 := m.mem.r32 (m.translate va false).1

/-- The answer to a query whose words are read through `translate`. -/
def peek {α : Type} : Query U32 U32 α → Machine → α × Machine
  | .ret value, m => (value, m)
  | .ask va next, m => peek (next (m.kread va).1) (m.kread va).2

/-- Translating the address changes nothing. -/
def Quiet (m : Machine) (va : U32) : Prop := (m.translate va false).2 = m

theorem peek_of_quiet {α : Type} {q : Query U32 U32 α} {m : Machine}
    (h : ∀ va ∈ q.asked (wordAt m), Quiet m va) : peek q m = (q.answer (wordAt m), m) := by
  induction q with
  | ret value => rfl
  | ask va next ih =>
      have hquiet : (m.translate va false).2 = m := h va (List.mem_cons_self ..)
      have hword : (m.kread va).1 = wordAt m va := by
        change (m.translate va false).2.mem.r32 (m.translate va false).1 = _
        rw [hquiet]
        rfl
      rw [peek, hword, show (m.kread va).2 = m from hquiet]
      exact ih _ fun va' hva => h va' (List.mem_cons_of_mem _ hva)

/-! ## State, places and programs -/

/-- The machine and what `run_sys` and the first process's set-up remember. -/
structure Sys where
  m : Machine
  deliverTraps : Bool
  fsSynced : Bool
  procexpProc : U32
  /-- `last_count` and `idle_spins` of the idle hook -/
  lastCount : U64
  idleSpins : Nat

inductive Place where
  | look (f : Look)
  /-- the path of an `execve`, which `-v` reads with `uread_str` -/
  | execPath (va : U32)

def observe (o : Options) : Place → Sys → Trace → Sys × Trace
  | .look f, s, t =>
    let (t, m) := peek (f o t) s.m
    ({ s with m := m }, t)
  | .execPath va, s, t =>
    (if o.verboseSys then { s with m := (s.m.ureadStr va 128).2 } else s, t)

/-- Whatever is read at the place is read without a change. -/
def Undisturbed (o : Options) : Place → Sys → Trace → Prop
  | .look f, s, t => ∀ va ∈ (f o t).asked (wordAt s.m), Quiet s.m va
  | .execPath va, s, _ => o.verboseSys = true → (s.m.ureadStr va 128).2 = s.m

theorem observe_of_undisturbed {o : Options} (place : Place) (s : Sys) (t : Trace)
    (h : Undisturbed o place s t) : (observe o place s t).1 = s := by
  cases place with
  | look f =>
      change ({ s with m := (peek (f o t) s.m).2 } : Sys) = s
      rw [peek_of_quiet h]
  | execPath va =>
      change (if o.verboseSys then { s with m := (s.m.ureadStr va 128).2 } else s) = s
      split
      · rename_i hon
        rw [h hon]
      · rfl

abbrev Prog := Observed Sys Place

def act {α : Type} (f : Machine → α × Machine) : Prog α :=
  Observed.act fun s => ((f s.m).1, { s with m := (f s.m).2 })

def onMachine (f : Machine → Machine) : Prog Unit := act fun m => ((), f m)

def machine : Prog Machine := act fun m => (m, m)

def look (f : Look) : Prog Unit := Observed.look (.look f)

/-- `mem_r32(translate(va, 0))` -/
def kr32 (va : U32) : Prog U32 := act fun m => m.kread va

/-- `mem_w32(translate(va, 0), v)` -/
def kw32 (va v : U32) : Prog Unit := onMachine fun m => m.kwrite va v

/-! ## The step -/

/-- Whether a stage ended the step, and the machine it left. -/
def ended : Except Machine Machine → Bool × Machine
  | .error m => (true, m)
  | .ok m => (false, m)

def stage (f : Machine → Except Machine Machine) : Prog Bool := act fun m => ended (f m)

/-- Stages in order, up to the first that ends the step. -/
def untilEnded : List (Prog Bool) → Prog Bool
  | [] => return false
  | p :: ps => do
    if ← p then return true
    else untilEnded ps

def shaSdcomplete (cmd : U32) : Prog Unit := do
  let target ← kr32 (cmd + 0x44)
  let dma ← kr32 (cmd + 0x10)
  let cdbw ← kr32 (cmd + 0x70)
  let xfer ← kr32 (cmd + 0x90)
  let op := cdbw >>> 24
  let m ← machine
  look (Look.sdCommand cmd target op dma xfer m.cpu.count)
  if target ≠ 0 then return
  else
    let cdbw2 ← kr32 (cmd + 0x74)
    let lba := if op = 0x08 ∨ op = 0x0A then cdbw &&& 0x1FFFFF
      else (cdbw <<< 16) ||| (cdbw2 >>> 16)
    onMachine fun m => m.sdPerform ⟨op, lba, dma, xfer⟩

def shaComplete : Prog Unit := do
  onMachine Machine.shaComplete
  let m ← machine
  look (Look.shaDone m.mem m.cpu)

def shaSleep (pc : U32) : Prog Bool := do
  let m ← machine
  if m.cfg.shaSync ∧ m.cfg.sysmode ∧ pc = TSLEEP_ENTRY ∧ SHA_O_LO ≤ m.rd 1 ∧ m.rd 1 < SHA_O_HI then
    shaComplete
    onMachine fun m => m.releaseLock.returnZero (m.releaseLock.rd 1)
    return true
  else return false

def shaSwitch (pc : U32) : Prog Bool := do
  let m ← machine
  if m.cfg.shaSync ∧ m.cfg.sysmode ∧ pc = 0xC0055CC0 ∧ m.rd 1 = 0xC00BE6F0 then
    shaSdcomplete (m.rd 27)
    onMachine fun m => m.setPc 0xC00BE6F0
    return true
  else return false

def shaPoll (pc : U32) : Prog Bool := do
  let m ← machine
  if m.cfg.shaSync ∧ m.cfg.sysmode ∧ pc = 0xC00BC148 then
    let pa ← act fun m => m.translate (m.rd 27 + 0x68) false
    let m ← machine
    if m.mem.r32 pa &&& 1 = 0 then
      shaSdcomplete (m.rd 27)
      onMachine fun m => m.setMem (m.mem.w32 pa (m.mem.r32 pa ||| 1))
    return false
  else return false

def shaSegment (pc : U32) : Prog Bool := do
  let m ← machine
  if m.cfg.shaSync ∧ m.cfg.sysmode ∧ pc = TSLEEP_ENTRY ∧ m.rd 1 = 0xC00BE520 then
    shaSdcomplete (m.rd 27)
    let pa ← act fun m => m.translate (m.rd 27 + 0x24) false
    onMachine fun m => (m.setMem (m.mem.w16 pa 0)).releaseLock
    onMachine fun m => m.returnZero (m.rd 1)
    return true
  else return false

def bufLine (tag : String) (b : Machine.Buf) (buf : U32) (c : Cpu) : Look :=
  Look.only (fun o _ => o.scsiTrace)
    (Look.line tag [buf, b.flags, b.blkno, b.bcount, b.addr, b.vp] c.count)

def strategy (h : Host) (pc : U32) : Prog Bool := do
  let m ← machine
  if m.cfg.biowaitSync ∧ m.cfg.sysmode ∧
      (pc = SDSTRATEGY ∨ pc = TSLEEP_ENTRY ∧ m.rd 1 = GETBLK_WAIT) ∧ 0xC0000000 ≤ m.rd 2 then
    let b ← act fun k => k.readBuf (m.rd 2)
    onMachine fun k => k.transfer h b
    look (bufLine "strategy" b (m.rd 2) m.cpu)
    onMachine fun k => (k.getblkWake pc).setPc BIODONE
    return true
  else return false

def completeBuffer (h : Host) (buf : U32) : Prog Unit := do
  let b ← act fun m => m.readBuf buf
  onMachine fun m => m.transfer h b
  let m ← machine
  look (bufLine "bio" b buf m.cpu)
  onMachine fun m =>
    let (pa, m) := m.translate buf false
    m.setMem (m.mem.w32 pa (m.mem.r32 pa ||| 2))
  look (bufLine "biodone" b buf m.cpu)

def biowait (h : Host) (pc : U32) : Prog Bool := do
  let m ← machine
  if m.cfg.biowaitSync ∧ m.cfg.sysmode ∧ pc = TSLEEP_ENTRY ∧ m.rd 1 = 0xC00740E8 then
    if 0xC0000000 ≤ m.rd 2 then completeBuffer h (m.rd 2)
    onMachine fun m => m.releaseLock.returnZero (m.releaseLock.rd 1)
    return true
  else return false

def intercepts (h : Host) (pc : U32) : Prog Bool :=
  untilEnded
    [stage fun m => m.replaySkip pc, shaSleep pc, shaSwitch pc, shaPoll pc,
      stage fun m => m.tlbShootdown pc, shaSegment pc, stage fun m => m.vmeWindows pc,
      stage fun m => m.shaSlot pc, strategy h pc, biowait h pc, stage fun m => m.synchrtc pc]

/-- What the observers see of the data access that the machine is about to make. -/
def accessLooks (m : Machine) : Look :=
  if m.fetch.2.ufault.pending then Look.note fun _ t => t
  else
    match m.fetch.2.memForm m.fetch.1 with
    | none => Look.note fun _ t => t
    | some (sub, ea) =>
      Look.both (Look.wmemTick m.cpu sub (Machine.fieldD m.fetch.1) ea)
        (match m.execAccess with
        | none => Look.note fun _ t => t
        | some a =>
          Look.both (Look.vmeAccess m.cpu a.sub a.D a.pa)
            (Look.pwatchHits m.cpu (a.m.storeWrites a.sub a.D a.pa)))

def step (h : Host) : Prog Bool := do
  let m ← machine
  let pc := m.cpu.pc
  look (Look.stepHead m.cpu)
  if ← intercepts h pc then return false
  else
    let m ← machine
    look (Look.only (fun _ _ => m.cfg.sysmode && pc == 0xC00175C0 && m.cpu.cr 2 &&& 0x80000000 == 0)
      (Look.loadContextRte m.mem m.ktabBias m.cpu))
    if ← untilEnded [stage Machine.softint, stage Machine.hardclock] then return false
    else
      onMachine fun m => (m.forceSig pc).snoopMaps pc
      let m ← machine
      look (Look.only (fun _ _ => m.cfg.sysmode) (Look.mountroot m.cpu))
      look (Look.watch m.cpu)
      look (accessLooks m)
      act fun m => (m.exec h).swap

/-! ## The kernel call -/

def kcallLoop (h : Host) : Nat → Prog Bool
  | 0 => return false
  | n + 1 => do
    let m ← machine
    if m.cpu.pc = Machine.KCALL_RET then return false
    else if ← step h then return true
    else kcallLoop h n

def kcall (h : Host) (c : Machine.Call) : Prog U32 := do
  let saved ← machine
  onMachine fun m => m.enterKcall c
  let trapped ← kcallLoop h Machine.KCALL_STEPS
  let m ← machine
  let returned : Bool := m.cpu.pc = Machine.KCALL_RET
  onMachine fun m => m.leaveKcall saved.cpu saved.dev.inKcall
  look (Look.line "kcall" [c.fn, m.rd 2, m.cpu.pc, if trapped then 1 else 0] saved.cpu.count)
  return if returned then m.rd 2 else 0xFFFFFFFF

/-! ## Without observers -/

/-- On its own, the program does `f` to the machine. -/
def Does {α : Type} (p : Prog α) (f : Machine → α × Machine) : Prop :=
  ∀ s, p.plain s = ((f s.m).1, { s with m := (f s.m).2 })

section

variable {α β : Type} {p : Prog α} {f f' : Machine → α × Machine}

theorem Does.congr (h : Does p f) (hf : ∀ m, f m = f' m) : Does p f' := fun s => by
  rw [h s, hf]

theorem does_act (f : Machine → α × Machine) : Does (act f) f := fun _ => rfl

theorem does_onMachine (f : Machine → Machine) : Does (onMachine f) fun m => ((), f m) :=
  fun _ => rfl

theorem does_pure (a : α) : Does (pure a) fun m => (a, m) := fun _ => rfl

theorem Does.bind {q : α → Prog β} {g : α → Machine → β × Machine} (hp : Does p f)
    (hq : ∀ a, Does (q a) (g a)) : Does (p >>= q) fun m => g (f m).1 (f m).2 := fun s => by
  rw [show (p >>= q).plain s = (q (p.plain s).1).plain (p.plain s).2 from
    Observed.plain_bind p q s, hp s, hq]

theorem Does.look {q : Prog β} {g : Machine → β × Machine} (look : Look) (hq : Does q g) :
    Does (Observe.look look >>= fun _ => q) g := fun s => hq s

theorem Does.machine {q : Machine → Prog β} {g : Machine → Machine → β × Machine}
    (hq : ∀ m, Does (q m) (g m)) : Does (Observe.machine >>= q) fun m => g m m :=
  (does_act _).bind hq

theorem Does.ite {c : Prop} [Decidable c] {q : Prog α} {g : Machine → α × Machine}
    (hp : Does p f) (hq : Does q g) :
    Does (if c then p else q) fun m => if c then f m else g m := by
  split
  · exact hp
  · exact hq

end

theorem shaSdcomplete_does (cmd : U32) :
    Does (shaSdcomplete cmd) fun m => ((), m.shaSdcomplete cmd) := by
  refine Does.congr ((does_act _).bind fun target => (does_act _).bind fun dma =>
    (does_act _).bind fun cdbw => (does_act _).bind fun xfer => Does.machine fun m =>
      Does.look _ ((does_pure _).ite ((does_act _).bind fun cdbw2 => does_onMachine _))) fun m => ?_
  rw [Machine.shaSdcomplete]
  dsimp only
  split
  · rfl
  · rfl

theorem shaComplete_does : Does shaComplete fun m => ((), m.shaComplete) :=
  (does_onMachine _).bind fun _ => Does.machine fun _ => Does.look _ (does_pure ())

theorem stage_does (f : Machine → Except Machine Machine) : Does (stage f) fun m => ended (f m) :=
  does_act _

theorem shaSleep_does (pc : U32) : Does (shaSleep pc) fun m => ended (m.shaSleep pc) := by
  refine Does.congr (Does.machine fun m => (shaComplete_does.bind fun _ =>
    (does_onMachine _).bind fun _ => does_pure true).ite (does_pure false)) fun m => ?_
  rw [Machine.shaSleep]
  split
  · rfl
  · rfl

theorem shaSwitch_does (pc : U32) : Does (shaSwitch pc) fun m => ended (m.shaSwitch pc) := by
  refine Does.congr (Does.machine fun m => ((shaSdcomplete_does _).bind fun _ =>
    (does_onMachine _).bind fun _ => does_pure true).ite (does_pure false)) fun m => ?_
  rw [Machine.shaSwitch]
  split
  · rfl
  · rfl

theorem shaPoll_does (pc : U32) : Does (shaPoll pc) fun m => ended (m.shaPoll pc) := by
  refine Does.congr (Does.machine fun m => ((does_act _).bind fun pa => Does.machine fun m =>
    ((shaSdcomplete_does _).bind fun _ => (does_onMachine _).bind fun _ => does_pure false).ite
      (does_pure false)).ite (does_pure false)) fun m => ?_
  rw [Machine.shaPoll]
  split
  · dsimp only
    split
    · rfl
    · rfl
  · rfl

theorem shaSegment_does (pc : U32) : Does (shaSegment pc) fun m => ended (m.shaSegment pc) := by
  refine Does.congr (Does.machine fun m => ((shaSdcomplete_does _).bind fun _ =>
    (does_act _).bind fun pa => (does_onMachine _).bind fun _ => (does_onMachine _).bind fun _ =>
      does_pure true).ite (does_pure false)) fun m => ?_
  rw [Machine.shaSegment]
  split
  · rfl
  · rfl

theorem strategy_does (h : Host) (pc : U32) :
    Does (strategy h pc) fun m => ended (m.strategy h pc) := by
  refine Does.congr (Does.machine fun m => ((does_act _).bind fun _ => (does_onMachine _).bind fun _ =>
    Does.look _ ((does_onMachine _).bind fun _ => does_pure true)).ite (does_pure false)) fun m => ?_
  rw [Machine.strategy]
  split
  · rfl
  · rfl

theorem completeBuffer_does (h : Host) (buf : U32) :
    Does (completeBuffer h buf) fun m => ((), m.completeBuffer h buf) :=
  (does_act _).bind fun _ => (does_onMachine _).bind fun _ => Does.machine fun _ =>
    Does.look _ ((does_onMachine _).bind fun _ => Does.look _ (does_pure ()))

theorem biowait_does (h : Host) (pc : U32) :
    Does (biowait h pc) fun m => ended (m.biowait h pc) := by
  have hreturn : Does (do
      onMachine fun m => m.releaseLock.returnZero (m.releaseLock.rd 1)
      return true) fun m => (true, m.releaseLock.returnZero (m.releaseLock.rd 1)) :=
    (does_onMachine _).bind fun _ => does_pure true
  refine Does.congr (Does.machine fun m =>
    (((completeBuffer_does h _).bind fun _ => hreturn).ite hreturn).ite (does_pure false)) fun m => ?_
  rw [Machine.biowait]
  split
  · dsimp only
    split
    · rfl
    · rfl
  · rfl

def chain : List (Machine → Except Machine Machine) → Machine → Except Machine Machine
  | [], m => .ok m
  | f :: fs, m => f m >>= chain fs

theorem untilEnded_does {ps : List (Prog Bool)} {fs : List (Machine → Except Machine Machine)}
    (h : List.Forall₂ (fun p f => Does p fun m => ended (f m)) ps fs) :
    Does (untilEnded ps) fun m => ended (chain fs m) := by
  induction h with
  | nil => exact does_pure false
  | @cons p f ps fs hp _ ih =>
      refine Does.congr (hp.bind fun b => (does_pure true).ite ih) fun m => ?_
      rw [chain]
      cases f m with
      | error k => rfl
      | ok k => rfl

theorem chain_singleton (f : Machine → Except Machine Machine) : chain [f] = f := by
  funext m
  rw [chain]
  cases f m with
  | error k => rfl
  | ok k => rfl

theorem chain_cons (f g : Machine → Except Machine Machine)
    (fs : List (Machine → Except Machine Machine)) :
    chain (f :: g :: fs) = fun m => f m >>= chain (g :: fs) := rfl

theorem intercepts_does (h : Host) (pc : U32) :
    Does (intercepts h pc) fun m => ended (m.intercepts h pc) := by
  refine Does.congr (untilEnded_does (.cons (stage_does fun m => m.replaySkip pc) <|
    .cons (shaSleep_does pc) <| .cons (shaSwitch_does pc) <| .cons (shaPoll_does pc) <|
    .cons (stage_does fun m => m.tlbShootdown pc) <| .cons (shaSegment_does pc) <|
    .cons (stage_does fun m => m.vmeWindows pc) <| .cons (stage_does fun m => m.shaSlot pc) <|
    .cons (strategy_does h pc) <| .cons (biowait_does h pc) <|
    .cons (stage_does fun m => m.synchrtc pc) .nil)) fun m => congrArg ended ?_
  simp only [chain_cons, chain_singleton]
  rw [Machine.intercepts]

theorem hooks_chain (m : Machine) (h : Host) : m.hooks h =
    match m.intercepts h m.cpu.pc with
    | .error k => .error k
    | .ok k =>
      match chain [Machine.softint, Machine.hardclock] k with
      | .error k => .error k
      | .ok k => .ok ((k.forceSig m.cpu.pc).snoopMaps m.cpu.pc) := by
  rw [chain_cons, chain_singleton, Machine.hooks]
  cases m.intercepts h m.cpu.pc with
  | error k => rfl
  | ok k =>
      change (k.softint >>= fun m' => m'.hardclock >>= fun k => _) = _
      dsimp only
      cases k.softint with
      | error k => rfl
      | ok k =>
          change (k.hardclock >>= fun k => _) = match k.hardclock with
            | .error k => _
            | .ok k => _
          cases k.hardclock with
          | error k => rfl
          | ok k => rfl

theorem step_does (h : Host) : Does (step h) fun m => (m.step h).swap := by
  have hinterrupts := untilEnded_does (.cons (stage_does Machine.softint) <|
    .cons (stage_does Machine.hardclock) .nil)
  refine Does.congr (Does.machine fun m => Does.look _ <| (intercepts_does h m.cpu.pc).bind fun _ =>
    (does_pure false).ite <| Does.machine fun k => Does.look _ <| hinterrupts.bind fun _ =>
      (does_pure false).ite <| (does_onMachine _).bind fun _ => Does.machine fun k => Does.look _ <|
        Does.look _ <| Does.look _ <| does_act _) fun m => ?_
  rw [Machine.step, hooks_chain]
  cases m.intercepts h m.cpu.pc with
  | error k => rfl
  | ok k =>
      rw [show ended (Except.ok k) = (false, k) from rfl]
      dsimp only
      cases chain [Machine.softint, Machine.hardclock] k with
      | error k => rfl
      | ok k => rfl

theorem kcallLoop_does (h : Host) (n : Nat) :
    ∃ f, Does (kcallLoop h n) f ∧ ∀ m, (f m).2 = m.kcallLoop h n := by
  induction n with
  | zero => exact ⟨_, does_pure false, fun _ => rfl⟩
  | succ n ih =>
      obtain ⟨f, hdoes, hf⟩ := ih
      refine ⟨_, Does.machine fun m => (does_pure false).ite <|
        (step_does h).bind fun _ => (does_pure true).ite hdoes, fun m => ?_⟩
      rw [Machine.kcallLoop]
      split
      · rfl
      · dsimp only [Prod.swap]
        split
        · rfl
        · exact hf _

theorem kcall_does (h : Host) (c : Machine.Call) : Does (kcall h c) fun m => m.kcall h c := by
  obtain ⟨f, hdoes, hf⟩ := kcallLoop_does h Machine.KCALL_STEPS
  refine Does.congr (Does.machine fun saved => (does_onMachine _).bind fun _ => hdoes.bind fun _ =>
    Does.machine fun m => (does_onMachine _).bind fun _ => Does.look _ (does_pure _)) fun m => ?_
  rw [Machine.kcall]
  simp only [hf, decide_eq_true_eq]

end Nx88.Observe
