import Nx88.Cpu.Abort
import Nx88.Mmu.Steady
import Nx88.Observe.RunSys
/-!
# Unnoticed observers

A run in which every word that a diagnostic reads is found without a change of the
machine goes as it goes with all diagnostics off.  The words are read through
`translate`, so a page that is not mapped is recorded as a fault of the guest.
-/

namespace Nx88.Observe

open Lib Machine

/-! ## Addresses that are read without a change -/

theorem quiet_of_off {m : Machine} (hoff : m.cfg.translateOn = false) (va : U32) : Quiet m va := by
  rw [Quiet, Machine.translate, if_pos (Bool.eq_false_iff.1 hoff)]

/-- A word in user space, of a page that is cached. -/
def Cached (m : Machine) (va : U32) : Prop :=
  m.xlatWrite = false ∧ ¬0xC0000000 ≤ va ∧ m.Hit va false

instance (m : Machine) (va : U32) : Decidable (Cached m va) :=
  inferInstanceAs (Decidable (_ ∧ _ ∧ (m.tlb false (tlbIndex va)).tag = tlbTag va))

theorem tlbFill_ne {m : Machine} {va pa : U32} (miss : ¬m.Hit va false) :
    m.tlbFill false va pa ≠ m := fun h => miss (h ▸ hit_tlbFill false va pa)

/-- A user address is read without a change when it is not translated, its page is
cached, or it has none and the fault has no place to be recorded in. -/
theorem quiet_user_iff {m : Machine} {va : U32} (hwrite : m.xlatWrite = false)
    (hva : ¬0xC0000000 ≤ va) :
    Quiet m va ↔ m.Direct ∨ m.Hit va false ∨
      m.walked va false = none ∧ (m.cfg.procexp = true → m.ufault.pending = true) := by
  have hload := translate_loads hwrite hva
  rw [Quiet]
  generalize m.translate va false = r at hload
  cases hload with
  | direct h => exact iff_of_true rfl (.inl h)
  | hit h hit => exact iff_of_true rfl (.inr (.inl hit))
  | fill h miss hr =>
      refine iff_of_false (tlbFill_ne miss) ?_
      rintro (hdirect | hit | ⟨hnone, -⟩)
      · exact h hdirect
      · exact miss hit
      · exact nomatch hr.symm.trans hnone
  | none h miss hnone =>
      by_cases hfault : m.cfg.procexp = true ∧ ¬m.ufault.pending = true
      · rw [if_pos hfault]
        refine iff_of_false (fun hsame => hfault.2 ?_) ?_
        · exact (congrArg (fun k : Machine => k.ufault.pending) hsame).symm
        · rintro (hdirect | hit | ⟨-, hpending⟩)
          · exact h hdirect
          · exact miss hit
          · exact hfault.2 (hpending hfault.1)
      · rw [if_neg hfault]
        exact iff_of_true rfl (.inr (.inr ⟨hnone, fun hproc =>
          Decidable.not_not.1 fun hclear => hfault ⟨hproc, hclear⟩⟩))

theorem Cached.quiet {m : Machine} {va : U32} (h : Cached m va) : Quiet m va :=
  (quiet_user_iff h.1 h.2.1).2 (.inr (.inl h.2.2))

/-! ## Two runs -/

/-- What of the state is the guest's: registers, memory, the recorded fault, the devices
with their images, timers and interrupts, and the console. -/
structure SameForGuest (s s' : Sys) : Prop where
  cpu : s.m.cpu = s'.m.cpu
  mem : s.m.mem = s'.m.mem
  ufault : s.m.ufault = s'.m.ufault
  dev : s.m.dev = s'.m.dev
  con : s.m.con = s'.m.con

def final (env : Env) (o : Options) (n : Nat) (s : Sys) (t : Trace) : Sys :=
  ((runSys env n).run (observe o) s t).2.1

/-- At every place that the run reaches, whatever is read is read without a change. -/
def QuietRun (env : Env) (o : Options) (n : Nat) (s : Sys) (t : Trace) : Prop :=
  (runSys env n).Along (Undisturbed o) (observe o) s t

def cachedOnly (o : Options) : Place → Sys → Trace → Bool
  | .look f, s, t => ((f o t).asked (wordAt s.m)).all fun va => decide (Cached s.m va)
  | .execPath _, _, _ => !o.verboseSys

theorem undisturbed_of_cachedOnly {o : Options} (place : Place) (s : Sys) (t : Trace)
    (h : cachedOnly o place s t = true) : Undisturbed o place s t := by
  cases place with
  | look f => exact fun va hva => (of_decide_eq_true (List.all_eq_true.1 h va hva)).quiet
  | execPath va => exact fun hon => absurd h (by simp [cachedOnly, hon])

/-- Where a run that checks this on its way says so, whatever is read is read without a
change. -/
theorem quietRun_of_checking {env : Env} {o : Options} {n : Nat} {s : Sys} {t : Trace}
    (h : ((runSys env n).run (Observed.checking (cachedOnly o) (observe o)) s (t, true)).2.2.2 = true) :
    QuietRun env o n s t :=
  (Observed.along_of_checking h).2.mono undisturbed_of_cachedOnly

theorem final_of_quietRun {env : Env} {o : Options} {n : Nat} {s : Sys} {t : Trace}
    (h : QuietRun env o n s t) : final env o n s t = ((runSys env n).plain s).2 :=
  congrArg Prod.snd (Observed.run_of_along observe_of_undisturbed h)

/-- Two settings of the options under which whatever is read is read without a change
leave the machine in one state, whatever the observers have kept. -/
theorem diagnostics_only_observe {env : Env} {o o' : Options} {n : Nat} {s : Sys} {t t' : Trace}
    (h : QuietRun env o n s t) (h' : QuietRun env o' n s t') :
    SameForGuest (final env o n s t) (final env o' n s t') := by
  have hsame : final env o n s t = final env o' n s t' := calc
    final env o n s t = ((runSys env n).plain s).2 := final_of_quietRun h
    _ = final env o' n s t' := (final_of_quietRun h').symm
  rw [hsame]
  exact ⟨rfl, rfl, rfl, rfl, rfl⟩

/-! ## All off, and a context that is watched -/

def Options.off : Options where
  debug := false
  verboseSys := false
  vmprobe := false
  ctxtrace := false
  scsiTrace := false
  traceTraps := false
  profile := false
  dumpPchist := false
  kmsgs := false
  stwatchPc := 0
  regfindVal := 0
  watchPc := 0
  wmemLo := 0
  wmemHi := 0
  wmemMax := 400
  pwatch := ⟨0, 0⟩
  wtraceN := 0
  traceLen := 0

def Trace.initial : Trace where
  vmprobes := fun _ => (0, 0)
  vmfaultLogged := 0
  kctx := []
  stwatchActive := false
  stwatchDone := false
  stwatchRet := 0
  regfindN := 0
  wmemN := 0
  pwatchN := 0
  scsiTraceN := 0
  wtraceAt := 0
  wtraceLeft := 0
  tracePcUntil := 0
  profHist := fun _ => 0
  profOther := 0
  pchist := []
  lastKpc := 0
  lastSleepChan := 0
  lastSleepFrom := 0
  spinSeen := false
  ufaults := 0
  kmsg := KmsgState.initial
  out := []

def Env.plain (limit : U64) : Env where
  host := Host.blank
  net := ⟨false, fun _ _ => 0⟩
  limit := limit
  interactive := false
  vmexp := false
  procexec := true
  runInit := false
  color := false
  uprogPath := none
  uargv := []
  uenvp := []
  aoutLoad := fun _ => none

def Sys.start (m : Machine) : Sys := ⟨m, false, false, 0, 0, 0⟩

def Options.watching : Options :=
  { Options.off with debug := true, ctxtrace := true, vmprobe := true, traceTraps := true, profile := true }

/-- The kernel at the entry of `load_context`, which is a branch to itself, with a context at
address 0, in a page that is cached. -/
def loadingCached : Sys :=
  .start ((Machine.reaching 0xC0017498 0x00017498 0xC0000000).tlbFill false 0 0x5000)

/-- Two instructions, until the budget is used up; the context is shown at the first. -/
theorem diagnostics_over_cached :
    SameForGuest (final (.plain 2) .watching 3 loadingCached .initial)
        (final (.plain 2) .off 3 loadingCached .initial) ∧
      (final (.plain 2) .watching 3 loadingCached .initial).m.cpu.count = 2 ∧
      (((runSys (.plain 2) 3).run (observe .watching) loadingCached .initial).2.2.out.map
        Line.tag) = ["ctx", "profile", "vmprobe", "ctx", "stopped"] :=
  ⟨diagnostics_only_observe (quietRun_of_checking (by decide +kernel))
    (quietRun_of_checking (by decide +kernel)), by decide +kernel, by decide +kernel⟩

/-- The kernel at the entry of `load_context`, with a context at address 0, which no page
is mapped at. -/
def loading : Sys := .start (Machine.reaching 0xC0017498 0x00017498 0x58000000)

/-- `--ctxtrace` reads the context through `translate`: the kernel gets a page fault in the
place of its instruction. -/
theorem ctxtrace_faults :
    ¬∀ env o o' n s t t', SameForGuest (final env o n s t) (final env o' n s t') := by
  intro h
  have hfault := (h (.plain 1000) { Options.off with debug := true, ctxtrace := true } .off 1
    loading .initial .initial).ufault
  exact absurd (congrArg UFault.pending hfault) (by decide +kernel)

end Nx88.Observe
