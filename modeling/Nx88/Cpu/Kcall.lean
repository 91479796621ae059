import Nx88.Clock.Run
import Nx88.Cpu.Abort
/-!
# Kernel calls from outside

A kernel call saves the CPU and the call flag and puts them back however it
ends.  The fault record it does not save: what a step of the call records is
there when the call is over.
-/

namespace Nx88

open Lib.Words

namespace Machine

variable {m k : Machine} {h : Host} {va : U32} {code : Bool}

/-! ## The fault record -/

/-- The fault record is as it was, or was clear and now holds a fault. -/
def Recorded (m k : Machine) : Prop :=
  k.ufault = m.ufault ∨ m.ufault.pending = false ∧ k.ufault.pending = true

theorem Recorded.refl (m : Machine) : Recorded m m := .inl rfl

theorem Recorded.trans {m' : Machine} (h : Recorded m k) (h' : Recorded k m') : Recorded m m' := by
  rcases h with hkept | ⟨hclear, hraised⟩
  · rw [Recorded, ← hkept]
    exact h'
  · rcases h' with hkept' | ⟨hclear', -⟩
    · exact .inr ⟨hclear, hkept' ▸ hraised⟩
    · exact nomatch hraised.symm.trans hclear'

theorem Recorded.kept (h : Recorded m k) (hpending : m.ufault.pending = true) : k.ufault = m.ufault :=
  h.resolve_right fun hraised => nomatch hpending.symm.trans hraised.1

theorem Recorded.kept_iff (h : Recorded m k) (hclear : m.ufault.pending = false) :
    k.ufault = m.ufault ↔ k.ufault.pending = false := by
  refine ⟨fun hkept => hkept ▸ hclear, fun hk => h.resolve_right fun hraised => ?_⟩
  exact nomatch hk.symm.trans hraised.2

theorem translate_recorded (m : Machine) (va : U32) (code : Bool) :
    Recorded m (m.translate va code).2 := by
  rcases translate_faultOf m va code with hkept | ⟨hclear, hmiss | ⟨-, hprotect⟩⟩
  · exact .inl hkept
  · exact .inr ⟨hclear, congrArg UFault.pending hmiss⟩
  · exact .inr ⟨hclear, congrArg UFault.pending hprotect⟩

theorem wr_ufault (m : Machine) (n v : U32) : (m.wr n v).ufault = m.ufault := by
  obtain ⟨r, cr, heq⟩ := wr_regsOnly m n v
  rw [heq]

theorem recorded_stage : Stage Recorded where
  refl := Recorded.refl
  trans := Recorded.trans
  wr m n v := .inl (wr_ufault m n v)
  setPc _ _ := .inl rfl
  setMem _ := .inl rfl
  setDisk _ _ _ _ := .inl rfl
  translate := translate_recorded

/-! ## A translation that faults -/

/-- Whether the page of a user address is write-protected, if there is one: the
cache answers first, then the tables. -/
def protection (m : Machine) (va : U32) (code : Bool) : Option Bool :=
  if m.Hit va code then some ((m.tlb code (tlbIndex va)).pa &&& 1 ≠ 0)
  else
    (m.mem.walkFb m.ktabBias m.devmap (m.apr code m.aprOffset) va code).map fun r =>
      r.2 &&& PTE_WP ≠ 0

/-- A process's access to `va` finds no page, or is a store to a protected one. -/
structure Misses (m : Machine) (va : U32) (code : Bool) : Prop where
  process : m.cfg.procexp = true
  translated : m.cfg.translateOn = true
  user : ¬(m.mem.realmm = true ∧ 0xC0000000 ≤ va)
  enabled : ¬m.apr code m.aprOffset &&& 1 = 0
  page : m.protection va code = none ∨ m.xlatWrite = true ∧ m.protection va code = some true

theorem guardWrite_pending_iff (m : Machine) (va : U32) (wp : Bool) (pa : U32)
    (hclear : m.ufault.pending = false) : (m.guardWrite va wp pa).2.ufault.pending = true ↔
      m.cfg.procexp = true ∧ m.xlatWrite = true ∧ wp = true := by
  have houtcome := congrArg Prod.snd (guardWrite_outcome m va wp pa)
  by_cases hguard : wp = true ∧ m.cfg.procexp = true ∧ m.xlatWrite = true ∧ ¬m.ufault.pending = true
  · rw [if_pos hguard] at houtcome
    exact iff_of_true (congrArg UFault.pending houtcome) ⟨hguard.2.1, hguard.2.2.1, hguard.1⟩
  · rw [if_neg hguard] at houtcome
    refine iff_of_false (fun hp => ?_) fun hp => hguard ⟨hp.2.2, hp.1, hp.2.1, ?_⟩
    · exact nomatch hclear.symm.trans ((congrArg UFault.pending houtcome).symm.trans hp)
    · exact Bool.eq_false_iff.1 hclear

/-- A translation with no fault pending records one where it misses, and only there. -/
theorem translate_pending_iff (hclear : m.ufault.pending = false) :
    (m.translate va code).2.ufault.pending = true ↔ m.Misses va code := by
  have hstays : ¬m.ufault.pending = true := Bool.eq_false_iff.1 hclear
  by_cases hon : m.cfg.translateOn = true
  swap
  · rw [translate, if_pos hon]
    exact iff_of_false hstays fun hmiss => hon hmiss.translated
  by_cases hkernel : m.mem.realmm = true ∧ 0xC0000000 ≤ va
  · rw [translate_kernel_ufault code (fun _ => hkernel.1) hkernel.2]
    exact iff_of_false hstays fun hmiss => hmiss.user hkernel
  rw [translate, if_neg (not_not.2 hon), if_neg hkernel, translateUser]
  by_cases henabled : m.apr code m.aprOffset &&& 1 = 0
  · rw [if_pos henabled]
    exact iff_of_false hstays fun hmiss => hmiss.enabled henabled
  rw [if_neg henabled]
  dsimp only
  have hmisses : m.Misses va code ↔ m.cfg.procexp = true ∧
      (m.protection va code = none ∨ m.xlatWrite = true ∧ m.protection va code = some true) :=
    ⟨fun hmiss => ⟨hmiss.process, hmiss.page⟩, fun hmiss => ⟨hmiss.1, hon, hkernel, henabled, hmiss.2⟩⟩
  rw [hmisses, protection]
  by_cases hit : m.Hit va code
  · rw [if_pos (show (m.tlb code (tlbIndex va)).tag = tlbTag va from hit), if_pos hit,
      guardWrite_pending_iff m va _ _ hclear, Option.some_inj, or_iff_right (fun h => nomatch h)]
  · rw [if_neg (show ¬(m.tlb code (tlbIndex va)).tag = tlbTag va from hit), if_neg hit]
    cases hwalk : m.mem.walkFb m.ktabBias m.devmap (m.apr code m.aprOffset) va code with
    | some r =>
      rw [missUser_some hwalk, guardWrite_pending_iff (m.tlbFill code va _) va _ _ hclear,
        Option.map_some, Option.some_inj, or_iff_right (fun h => nomatch h)]
      rfl
    | none =>
      rw [missUser_none hwalk]
      by_cases hproc : m.cfg.procexp = true
      · rw [if_pos ⟨hproc, hstays⟩]
        exact iff_of_true rfl ⟨hproc, .inl rfl⟩
      · rw [if_neg fun hguard => hproc hguard.1]
        exact iff_of_false hstays fun hmiss => hproc hmiss.1

/-! ## One step -/

theorem Recorded.takeInterrupt (h : Recorded m k) (d : Devices) :
    Recorded m (k.takeInterrupt d) := by
  rwa [Recorded, takeInterrupt_ufault]

theorem splLooked_recorded (m : Machine) : Recorded m m.splLooked :=
  (recorded_stage.kread m SPL_LEVEL).trans (recorded_stage.kread _ SOFTINT_PENDING)

theorem snoops_recorded (m : Machine) (pc : U32) : Recorded m ((m.forceSig pc).snoopMaps pc) := by
  have hforce : Recorded m (m.forceSig pc) := by
    unfold forceSig
    split
    · exact .inl rfl
    · exact Recorded.refl m
  have hmap : Recorded (m.forceSig pc) ((m.forceSig pc).snoopMapFn pc) := by
    unfold snoopMapFn
    split
    · exact .inl rfl
    · exact Recorded.refl _
  rw [snoopMaps_eq]
  split
  · exact (hforce.trans hmap).trans (translate_recorded _ _ false)
  · exact hforce.trans hmap

theorem softint_recorded (m : Machine) : Recorded m (stageResult m.softint) := by
  cases hsoft : m.softint with
  | ok k =>
    rcases softint_ok hsoft with rfl | rfl
    · exact Recorded.refl k
    · exact splLooked_recorded m
  | error k =>
    rw [(softint_error hsoft).2]
    exact (splLooked_recorded m).takeInterrupt _

theorem hardclock_recorded (m : Machine) : Recorded m (stageResult m.hardclock) := by
  cases hhard : m.hardclock with
  | ok k =>
    rw [hardclock_ok hhard]
    exact Recorded.refl m
  | error k =>
    rw [(hardclock_error hhard).2.2]
    exact (recorded_stage.kread m.clockTaken SOFTINT_PENDING).takeInterrupt _

theorem hooks_recorded (m : Machine) (h : Host) : Recorded m (stageResult (m.hooks h)) := by
  unfold hooks
  refine recorded_stage.bind (recorded_stage.intercepts m h m.cpu.pc) fun k => ?_
  refine recorded_stage.bind (softint_recorded k) fun k => ?_
  exact recorded_stage.bind (hardclock_recorded k) fun k => snoops_recorded k m.cpu.pc

theorem memLooked_pending_iff {sub ea : U32} (hclear : m.ufault.pending = false) :
    (m.memLooked sub ea).ufault.pending = true ↔ (m.setXlatWrite (isStore sub)).Misses ea false :=
  translate_pending_iff (m := m.setXlatWrite (isStore sub)) hclear

theorem memop_ufault (sub D ea : U32) (hclear : m.ufault.pending = false) :
    Recorded m (m.memop sub D ea) ∧ ((m.memop sub D ea).ufault.pending = true ↔
      ¬(0x0C ≤ sub ∧ sub ≤ 0x0F) ∧ (m.setXlatWrite (isStore sub)).Misses ea false) := by
  have hstays : ¬m.ufault.pending = true := Bool.eq_false_iff.1 hclear
  by_cases hlda : 0x0C ≤ sub ∧ sub ≤ 0x0F
  · obtain ⟨r, cr, heq⟩ := wr_regsOnly m D ea
    rw [memop_lda D ea hlda, heq]
    exact ⟨.inl rfl, iff_of_false hstays fun hmiss => hmiss.1 hlda⟩
  rw [← memLooked_pending_iff hclear, and_iff_right hlda]
  cases hlook : (m.memLooked sub ea).ufault.pending with
  | true =>
    rw [memop_abort D ea hlda hlook]
    exact ⟨.inr ⟨hclear, hlook⟩, iff_of_true hlook rfl⟩
  | false =>
    have hkept : (m.memLooked sub ea).ufault = m.ufault :=
      ((translate_recorded (m.setXlatWrite (isStore sub)) ea false).kept_iff hclear).2 hlook
    obtain ⟨c, p, d, g, t, heq, -⟩ := memAccess_accessed (m.memLooked sub ea) sub D
      (m.memAddr sub ea)
    rw [memop_done D ea hlda hlook, heq]
    exact ⟨.inl hkept, iff_of_false (Bool.eq_false_iff.1 hlook) Bool.false_ne_true⟩

/-- The instruction at the program counter misses with its data access. -/
def AccessMisses (m : Machine) : Prop :=
  ∃ sub ea, m.fetch.2.tick.memForm m.fetch.1 = some (sub, ea) ∧ ¬(0x0C ≤ sub ∧ sub ≤ 0x0F) ∧
    (m.fetch.2.tick.setXlatWrite (isStore sub)).Misses ea false

theorem execute_ufault {w : U32} (h : Host) (pc : U32) (hclear : m.ufault.pending = false) :
    Recorded m (m.execute h w pc).1 ∧ ((m.execute h w pc).1.ufault.pending = true ↔
      ∃ sub ea, m.memForm w = some (sub, ea) ∧ ¬(0x0C ≤ sub ∧ sub ≤ 0x0F) ∧
        (m.setXlatWrite (isStore sub)).Misses ea false) := by
  cases hform : m.memForm w with
  | none =>
    obtain ⟨⟨r, cr, heq⟩, -⟩ := execute_plain h pc hform
    rw [heq]
    refine ⟨.inl rfl, iff_of_false (Bool.eq_false_iff.1 hclear) ?_⟩
    rintro ⟨sub, ea, hnone, -⟩
    exact nomatch hnone
  | some form =>
    obtain ⟨sub, ea⟩ := form
    obtain ⟨hrecorded, hpending⟩ := memop_ufault sub (fieldD w) ea hclear
    rw [execute_mem hform]
    refine ⟨hrecorded, hpending.trans ⟨fun hmiss => ⟨sub, ea, rfl, hmiss⟩, ?_⟩⟩
    rintro ⟨sub', ea', hsame, hmiss⟩
    obtain ⟨rfl, rfl⟩ := Prod.mk.inj (Option.some.inj hsame)
    exact hmiss

theorem exec_recorded (m : Machine) (h : Host) : Recorded m (m.exec h).1 := by
  have hfetch : Recorded m m.fetch.2 := translate_recorded m _ _
  rw [exec_eq]
  split
  · exact hfetch
  · next hclear =>
    have hexecute := (execute_ufault (m := m.fetch.2.tick) (w := m.fetch.1) h m.cpu.pc
      (Bool.eq_false_iff.2 hclear)).1
    refine hfetch.trans ?_
    rw [Recorded, finish_ufault]
    exact hexecute

theorem exec_pending_iff (hclear : m.ufault.pending = false) :
    (m.exec h).1.ufault.pending = true ↔ m.Misses m.cpu.pc true ∨ m.AccessMisses := by
  have hfetch : m.fetch.2.ufault.pending = true ↔ m.Misses m.cpu.pc true :=
    translate_pending_iff hclear
  rw [exec_eq]
  by_cases hmiss : m.fetch.2.ufault.pending = true
  · rw [if_pos hmiss]
    exact iff_of_true hmiss (.inl (hfetch.1 hmiss))
  · rw [if_neg hmiss, finish_ufault, or_iff_right (mt hfetch.2 hmiss)]
    exact (execute_ufault (m := m.fetch.2.tick) h m.cpu.pc (Bool.eq_false_iff.2 hmiss)).2

/-- The step finds the pages it touches: those an intercept looks at, the one it
fetches from, and the one its instruction loads from or stores to. -/
def Served (m : Machine) (h : Host) : Prop :=
  (stageResult (m.hooks h)).ufault.pending = false ∧
    ∀ k, m.hooks h = .ok k → ¬k.Misses k.cpu.pc true ∧ ¬k.AccessMisses

theorem step_recorded (m : Machine) (h : Host) : Recorded m (m.step h).1 := by
  have hhooks := hooks_recorded m h
  unfold step
  cases hk : m.hooks h with
  | error k =>
    rw [hk] at hhooks
    exact hhooks
  | ok k =>
    rw [hk] at hhooks
    exact hhooks.trans (exec_recorded k h)

/-- A step records a fault exactly where a page it touches is not there for it. -/
theorem step_served_iff (m : Machine) (h : Host) :
    (m.step h).1.ufault.pending = false ↔ m.Served h := by
  unfold step Served
  cases hk : m.hooks h with
  | error k => exact (and_iff_left fun k' hk' => nomatch hk').symm
  | ok k =>
    have hrecorded := exec_recorded k h
    rw [stageResult]
    dsimp only
    cases hpending : k.ufault.pending with
    | true =>
      rw [hrecorded.kept hpending, hpending]
      exact (and_iff_left_of_imp fun hno => nomatch hno).symm
    | false =>
      have hpages : (∀ k', Except.ok k = Except.ok (ε := Machine) k' →
          ¬k'.Misses k'.cpu.pc true ∧ ¬k'.AccessMisses) ↔
          ¬(k.Misses k.cpu.pc true ∨ k.AccessMisses) := by
        rw [not_or]
        refine ⟨fun hall => hall k rfl, fun hboth k' hk' => ?_⟩
        obtain rfl := Except.ok.inj hk'
        exact hboth
      rw [hpages, ← exec_pending_iff hpending, Bool.not_eq_true]
      exact (and_iff_right rfl).symm

/-! ## The call -/

theorem kcallLoop_recorded (m : Machine) (h : Host) (n : Nat) : Recorded m (m.kcallLoop h n) := by
  induction n generalizing m with
  | zero => exact Recorded.refl m
  | succ n ih =>
    rw [kcallLoop]
    dsimp only
    split
    · exact Recorded.refl m
    split
    · exact step_recorded m h
    · exact (step_recorded m h).trans (ih _)

/-- Every step of the loop finds the pages it touches. -/
def Resident (m : Machine) (h : Host) : Nat → Prop
  | 0 => True
  | n + 1 => m.cpu.pc = KCALL_RET ∨
    m.Served h ∧ ((m.step h).2 = true ∨ (m.step h).1.Resident h n)

theorem kcallLoop_resident {n : Nat} (hclear : m.ufault.pending = false) :
    (m.kcallLoop h n).ufault = m.ufault ↔ m.Resident h n := by
  induction n generalizing m with
  | zero => exact iff_of_true rfl trivial
  | succ n ih =>
    rw [Resident, kcallLoop]
    dsimp only
    by_cases hret : m.cpu.pc = KCALL_RET
    · rw [if_pos hret]
      exact iff_of_true rfl (.inl hret)
    have hstep := step_recorded m h
    rw [if_neg hret, or_iff_right hret, ← step_served_iff, ← hstep.kept_iff hclear]
    by_cases hkept : (m.step h).1.ufault = m.ufault
    · rw [and_iff_right hkept]
      split
      · next htrap => exact iff_of_true hkept (.inl htrap)
      · next htrap =>
        rw [or_iff_right htrap, ← ih (by rw [hkept]; exact hclear), hkept]
    · have hraised : (m.step h).1.ufault.pending = true := (hstep.resolve_left hkept).2
      refine iff_of_false ?_ fun hboth => hkept hboth.1
      split
      · exact hkept
      · rw [(kcallLoop_recorded _ h n).kept hraised]
        exact hkept

theorem kcallLoop_raised {n : Nat} (hn : n ≠ 0) (hpc : ¬m.cpu.pc = KCALL_RET)
    (hgoes : ¬(m.step h).2 = true) (hraised : (m.step h).1.ufault.pending = true) :
    (m.kcallLoop h n).ufault = (m.step h).1.ufault := by
  obtain ⟨n, rfl⟩ := Nat.exists_eq_succ_of_ne_zero hn
  rw [kcallLoop, if_neg hpc]
  dsimp only
  rw [if_neg hgoes]
  exact (kcallLoop_recorded _ h n).kept hraised

/-- The machine as far as the interrupted program knows it. -/
structure PutBack (m k : Machine) : Prop where
  cpu : k.cpu = m.cpu
  inKcall : k.dev.inKcall = m.dev.inKcall
  ufault : k.ufault = m.ufault

theorem enterKcall_ufault (m : Machine) (c : Call) : (m.enterKcall c).ufault = m.ufault := by
  unfold enterKcall
  dsimp only
  rw [wr_ufault, wr_ufault, wr_ufault, wr_ufault, wr_ufault, wr_ufault]

theorem putBack_leaveKcall (m done : Machine) :
    PutBack m (done.leaveKcall m.cpu m.dev.inKcall) ↔ done.ufault = m.ufault :=
  ⟨fun hr => hr.ufault, fun hkept => ⟨rfl, rfl, hkept⟩⟩

theorem kcall_eq (m : Machine) (h : Host) (c : Call) :
    (m.kcall h c).2 =
      ((m.enterKcall c).kcallLoop h KCALL_STEPS).leaveKcall m.cpu m.dev.inKcall := by
  unfold kcall
  dsimp only

/-- The CPU and the flag are restored whatever the function does; the fault record
is where a fault was pending already, or every step of the call finds the pages it
touches. -/
theorem kcall_restores_iff (m : Machine) (h : Host) (c : Call) :
    (m.kcall h c).2.cpu = m.cpu ∧ (m.kcall h c).2.dev.inKcall = m.dev.inKcall ∧
      (PutBack m (m.kcall h c).2 ↔
        m.ufault.pending = true ∨ (m.enterKcall c).Resident h KCALL_STEPS) := by
  have henter := enterKcall_ufault m c
  rw [kcall_eq, putBack_leaveKcall]
  generalize KCALL_STEPS = n
  refine ⟨rfl, rfl, ?_⟩
  cases hpending : m.ufault.pending with
  | true =>
    refine iff_of_true ?_ (.inl rfl)
    exact ((kcallLoop_recorded _ h n).kept (by rw [henter]; exact hpending)).trans henter
  | false =>
    rw [or_iff_right Bool.false_ne_true, ← kcallLoop_resident (by rw [henter]; exact hpending),
      henter]

/-- A function whose first instruction, `ld r3,r2,0`, loads from its argument. -/
def loader : Machine :=
  { Machine.fresh with
    mem := unmappedMem 0x1000 0x14620000
    cpu := { Cpu.blank with cr := Function.update (fun _ => 0) 1 0x80000000 } }

/-- The load from a page that is not there is pending when the call is over. -/
theorem loader_left_pending :
    ¬PutBack loader (loader.kcall Host.blank ⟨0xC0001000, 0x1000, 0, 0, 0, 0⟩).2 := by
  rw [kcall_eq, putBack_leaveKcall]
  have hpc : ¬(loader.enterKcall ⟨0xC0001000, 0x1000, 0, 0, 0, 0⟩).cpu.pc = KCALL_RET := by
    decide +kernel
  have hgoes :
      ¬((loader.enterKcall ⟨0xC0001000, 0x1000, 0, 0, 0, 0⟩).step Host.blank).2 = true := by
    decide +kernel
  have hraised : ((loader.enterKcall ⟨0xC0001000, 0x1000, 0, 0, 0, 0⟩).step
      Host.blank).1.ufault = ⟨true, 0x1000, 0xC0001000, false, false, 4⟩ := by
    decide +kernel
  have hn : KCALL_STEPS ≠ 0 := by decide
  rw [kcallLoop_raised hn hpc hgoes (congrArg UFault.pending hraised), hraised]
  exact fun hkept => nomatch congrArg UFault.pending hkept

end Machine

end Nx88
