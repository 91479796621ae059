import Nx88.Cpu.Serviced
/-!
# One step, seen from its data access

A step either stops before its fetch or runs one instruction, and an instruction
makes at most one data access.  Everything a step does to devices it does
through that access or through a delivered interrupt.
-/

namespace Nx88

open Lib.Words

namespace Machine

/-! ## What stands still -/

/-- Configuration, instruction count, clock comparator and kernel-call flag. -/
structure SameClock (m m' : Machine) : Prop where
  cfg : m'.cfg = m.cfg
  count : m'.cpu.count = m.cpu.count
  armed : m'.dev.clockArmed = m.dev.clockArmed
  deadline : m'.dev.clockDeadline = m.dev.clockDeadline
  inKcall : m'.dev.inKcall = m.dev.inKcall

theorem SameClock.refl (m : Machine) : SameClock m m := ⟨rfl, rfl, rfl, rfl, rfl⟩

theorem SameClock.trans {m m' m'' : Machine} (h₁ : SameClock m m') (h₂ : SameClock m' m'') :
    SameClock m m'' :=
  ⟨h₂.cfg.trans h₁.cfg, h₂.count.trans h₁.count, h₂.armed.trans h₁.armed,
    h₂.deadline.trans h₁.deadline, h₂.inKcall.trans h₁.inKcall⟩

theorem SameClock.timerNow {m m' : Machine} (h : SameClock m m') : m'.timerNow = m.timerNow := by
  unfold Machine.timerNow
  rw [h.cfg, h.count]

theorem Serviced.sameClock {m m' : Machine} (h : Serviced m m') : SameClock m m' := by
  obtain ⟨r, cr, pc, p, t, u, s, vp, img, wrote, rfl⟩ := h
  exact ⟨rfl, rfl, rfl, rfl, rfl⟩

theorem Peeked.sameClock {m m' : Machine} (h : Peeked m m') : SameClock m m' :=
  h.serviced.sameClock

theorem RegsOnly.sameClock {m m' : Machine} (h : RegsOnly m m') : SameClock m m' :=
  h.serviced.sameClock

theorem setXlatWrite_sameClock (m : Machine) (write : Bool) :
    SameClock m (m.setXlatWrite write) := ⟨rfl, rfl, rfl, rfl, rfl⟩

theorem withUfault_sameClock (m : Machine) (u : UFault) : SameClock m { m with ufault := u } :=
  ⟨rfl, rfl, rfl, rfl, rfl⟩

theorem memLooked_sameClock (m : Machine) (sub ea : U32) : SameClock m (m.memLooked sub ea) :=
  ((setXlatWrite_sameClock m _).trans (translate_peeked _ _ _).sameClock).trans
    (setXlatWrite_sameClock _ _)

theorem sequence_sameClock (m : Machine) (pc : U32) (flow : Flow) :
    SameClock m (m.sequence pc flow) := by
  unfold sequence
  split
  · exact ⟨rfl, rfl, rfl, rfl, rfl⟩
  split
  · exact ⟨rfl, rfl, rfl, rfl, rfl⟩
  · exact ⟨rfl, rfl, rfl, rfl, rfl⟩
  · exact ⟨rfl, rfl, rfl, rfl, rfl⟩

theorem finish_sameClock (m : Machine) (pc : U32) (flow : Flow) :
    SameClock m (m.finish pc flow).1 := by
  unfold finish
  split
  · exact ⟨rfl, rfl, rfl, rfl, rfl⟩
  split
  · exact SameClock.refl m
  · exact sequence_sameClock m pc flow

theorem forceSig_sameClock (m : Machine) (pc : U32) : SameClock m (m.forceSig pc) := by
  unfold forceSig
  split
  · obtain ⟨r, cr, heq⟩ := setWord_fields m.cpu 2 m.cfg.forceSigVal
    rw [heq]
    exact ⟨rfl, rfl, rfl, rfl, rfl⟩
  · exact SameClock.refl m

def snoopMapFn (m : Machine) (pc : U32) : Machine :=
  if m.mem.realmm ∧ pc = PMAP_MAP_FN ∧ 0xE0000000 ≤ m.rd 4 then
    { m with devmap := devmapAdd m.devmap (m.rd 3) (m.rd 4) }
  else m

theorem snoopMapFn_sameClock (m : Machine) (pc : U32) : SameClock m (m.snoopMapFn pc) := by
  unfold snoopMapFn
  split
  · exact ⟨rfl, rfl, rfl, rfl, rfl⟩
  · exact SameClock.refl m

theorem snoopMaps_eq (m : Machine) (pc : U32) :
    m.snoopMaps pc =
      if (m.snoopMapFn pc).mem.realmm ∧ pc = 0xC00A0E80 then
        { ((m.snoopMapFn pc).translate ((m.snoopMapFn pc).rd 7) false).2 with
          dev := { ((m.snoopMapFn pc).translate ((m.snoopMapFn pc).rd 7) false).2.dev with
            tcsMboxPa := ((m.snoopMapFn pc).translate ((m.snoopMapFn pc).rd 7) false).1 } }
      else m.snoopMapFn pc := rfl

theorem snoopMaps_sameClock (m : Machine) (pc : U32) : SameClock m (m.snoopMaps pc) := by
  rw [snoopMaps_eq]
  refine (snoopMapFn_sameClock m pc).trans ?_
  generalize m.snoopMapFn pc = k
  split
  · have hpeek := (translate_peeked k (k.rd 7) false).sameClock
    exact ⟨hpeek.cfg, hpeek.count, hpeek.armed, hpeek.deadline, hpeek.inKcall⟩
  · exact SameClock.refl k

/-! ## The data access of an instruction -/

theorem cmmuWrite_cpu (m : Machine) (a v : U32) : (m.cmmuWrite a v).cpu = m.cpu := by
  have hcommand : ∀ base cmd, (m.cmmuCommand base cmd).cpu = m.cpu := by
    intro base cmd
    unfold cmmuCommand
    simp only
    split
    · rfl
    split
    · rfl
    · rfl
  unfold cmmuWrite
  split
  · split
    · exact hcommand _ _
    split
    · rfl
    · rfl
  · rfl

theorem tcsPoke_cpu (m : Machine) (a : U32) : (m.tcsPoke a).cpu = m.cpu := by
  unfold tcsPoke
  split
  · rfl
  split
  · rfl
  · rfl

theorem devWrite32_cpu (m : Machine) (a v : U32) : (m.devWrite32 a v).cpu = m.cpu := by
  unfold devWrite32
  split
  · split
    · rfl
    split
    · rfl
    split
    · rfl
    · simp only
      rw [cmmuWrite_cpu, tcsPoke_cpu]
      split
      · split
        · rfl
        · rfl
      · split
        · rfl
        · rfl
  · rfl

/-- One translated access: the machine it happens on, the sub-opcode, the
register and the physical address. -/
structure Access where
  m : Machine
  sub : U32
  D : U32
  pa : U32

/-- The access of a memory form at `ea`, unless it only computes an address or
faults. -/
def memopAccess (m : Machine) (sub D ea : U32) : Option Access :=
  if 0x0C ≤ sub ∧ sub ≤ 0x0F then none
  else if (m.memLooked sub ea).ufault.pending then none
  else some ⟨m.memLooked sub ea, sub, D, m.memAddr sub ea⟩

def execAccess (m : Machine) : Option Access :=
  if m.fetch.2.ufault.pending then none
  else
    match m.fetch.2.tick.memForm m.fetch.1 with
    | some (sub, ea) => m.fetch.2.tick.memopAccess sub (fieldD m.fetch.1) ea
    | none => none

def stepAccess (m : Machine) (h : Host) : Option Access :=
  match m.hooks h with
  | .error _ => none
  | .ok k => k.execAccess

theorem memop_of_access {m : Machine} {sub D ea : U32} {a : Access}
    (h : m.memopAccess sub D ea = some a) :
    m.memop sub D ea = a.m.memAccess a.sub a.D a.pa ∧ SameClock m a.m := by
  unfold memopAccess at h
  split at h
  · cases h
  rename_i hlda
  split at h
  · cases h
  rename_i hfault
  cases h
  exact ⟨memop_done D ea hlda (Bool.eq_false_iff.2 hfault), memLooked_sameClock m sub ea⟩

theorem memop_of_no_access {m : Machine} {sub D ea : U32}
    (h : m.memopAccess sub D ea = none) : SameClock m (m.memop sub D ea) := by
  unfold memopAccess at h
  split at h
  · rename_i hlda
    rw [memop_lda D ea hlda]
    exact (wr_regsOnly m D ea).sameClock
  rename_i hlda
  split at h
  · rename_i hfault
    rw [memop_abort D ea hlda hfault]
    exact (memLooked_sameClock m sub ea).trans (withUfault_sameClock _ _)
  · cases h

theorem tick_cfg (m : Machine) : m.tick.cfg = m.cfg := rfl

theorem exec_of_access {m : Machine} {a : Access} (ha : m.execAccess = some a) :
    SameClock m.fetch.2.tick a.m ∧
      ∀ h, SameClock (a.m.memAccess a.sub a.D a.pa) (m.exec h).1 := by
  unfold execAccess at ha
  split at ha
  · cases ha
  rename_i hfetch
  cases hform : m.fetch.2.tick.memForm m.fetch.1 with
  | none =>
    rw [hform] at ha
    cases ha
  | some form =>
    obtain ⟨sub, ea⟩ := form
    rw [hform] at ha
    obtain ⟨hmemop, hclock⟩ := memop_of_access ha
    refine ⟨hclock, fun h => ?_⟩
    rw [exec_eq, if_neg hfetch, execute_mem hform, hmemop]
    exact finish_sameClock _ _ _

theorem exec_of_no_access {m : Machine} {h : Host} (ha : m.execAccess = none) :
    SameClock m (m.exec h).1 ∨ SameClock m.fetch.2.tick (m.exec h).1 := by
  unfold execAccess at ha
  rw [exec_eq]
  split at ha
  · rename_i hfetch
    rw [if_pos hfetch]
    exact .inl (fetch_peeked m).sameClock
  rename_i hfetch
  right
  rw [if_neg hfetch]
  cases hform : m.fetch.2.tick.memForm m.fetch.1 with
  | none =>
    exact (execute_plain h m.cpu.pc hform).1.sameClock.trans (finish_sameClock _ _ _)
  | some form =>
    obtain ⟨sub, ea⟩ := form
    rw [hform] at ha
    rw [execute_mem hform]
    exact (memop_of_no_access ha).trans (finish_sameClock _ _ _)

/-! ## The step -/

def takesHardclock (m : Machine) (h : Host) : Bool :=
  match m.intercepts h m.cpu.pc with
  | .error _ => false
  | .ok k₁ =>
    match k₁.softint with
    | .error _ => false
    | .ok k₂ =>
      match k₂.hardclock with
      | .error _ => true
      | .ok _ => false

/-- How a step goes, as far as the clock is concerned. -/
inductive StepCase (m : Machine) (h : Host) : Prop where
  | stopped (clock : SameClock m (m.step h).1) (access : m.stepAccess h = none)
      (untaken : m.takesHardclock h = false)
  | hardclock (k : Machine) (clock : SameClock m k) (gate : k.interruptible = true)
      (due : k.clockDue = true) (cfg : (m.step h).1.cfg = m.cfg)
      (count : (m.step h).1.cpu.count = m.cpu.count)
      (armed : (m.step h).1.dev.clockArmed = false)
      (deadline : (m.step h).1.dev.clockDeadline = m.dev.clockDeadline)
      (access : m.stepAccess h = none) (taken : m.takesHardclock h = true)
  | executed (k : Machine) (clock : SameClock m k) (access : m.stepAccess h = k.execAccess)
      (run : (m.step h).1 = (k.exec h).1) (untaken : m.takesHardclock h = false)

theorem softint_sameClock {m k : Machine} (h : m.softint = .error k) : SameClock m k := by
  have hpeek := (splLooked_peeked m).sameClock
  rw [(softint_error h).2]
  refine ⟨?_, ?_, ?_, ?_, ?_⟩
  · rw [takeInterrupt_cfg]
    exact hpeek.cfg
  · rw [takeInterrupt_count]
    exact hpeek.count
  · rw [takeInterrupt_dev]
  · rw [takeInterrupt_dev]
  · rw [takeInterrupt_dev]

theorem step_case (m : Machine) (h : Host) : StepCase m h := by
  have hstep : m.step h =
      match m.hooks h with
      | .error k => (k, false)
      | .ok k => k.exec h := rfl
  have haccess : m.stepAccess h =
      match m.hooks h with
      | .error _ => none
      | .ok k => k.execAccess := rfl
  have htakes : m.takesHardclock h =
      match m.intercepts h m.cpu.pc with
      | .error _ => false
      | .ok k₁ =>
        match k₁.softint with
        | .error _ => false
        | .ok k₂ =>
          match k₂.hardclock with
          | .error _ => true
          | .ok _ => false := rfl
  rw [hooks_eq] at hstep haccess
  cases hint : m.intercepts h m.cpu.pc with
  | error k =>
    simp only [hint] at hstep haccess htakes
    refine .stopped ?_ haccess htakes
    rw [hstep]
    exact (intercepts_error hint).sameClock
  | ok k₁ =>
    have hclock₁ := (intercepts_ok hint).sameClock
    simp only [hint] at hstep haccess htakes
    cases hsoft : k₁.softint with
    | error k =>
      simp only [hsoft] at hstep haccess htakes
      refine .stopped ?_ haccess htakes
      rw [hstep]
      exact hclock₁.trans (softint_sameClock hsoft)
    | ok k₂ =>
      have hclock₂ := hclock₁.trans (softint_ok_peeked hsoft).sameClock
      simp only [hsoft] at hstep haccess htakes
      cases hhard : k₂.hardclock with
      | error k =>
        simp only [hhard] at hstep haccess htakes
        obtain ⟨hgate, hdue, hk⟩ := hardclock_error hhard
        have hpeek := (kread_peeked k₂.clockTaken SOFTINT_PENDING).sameClock
        refine .hardclock k₂ hclock₂ hgate hdue ?_ ?_ ?_ ?_ haccess htakes
        · rw [hstep, hk, takeInterrupt_cfg]
          exact hpeek.cfg.trans hclock₂.cfg
        · rw [hstep, hk, takeInterrupt_count]
          exact hpeek.count.trans hclock₂.count
        · rw [hstep, hk, takeInterrupt_dev]
          rfl
        · rw [hstep, hk, takeInterrupt_dev]
          exact hclock₂.deadline
      | ok k₃ =>
        simp only [hhard] at hstep haccess htakes
        cases hardclock_ok hhard
        exact .executed _ ((hclock₂.trans (forceSig_sameClock k₂ _)).trans
          (snoopMaps_sameClock _ _)) haccess (congrArg Prod.fst hstep) htakes

/-! ## The write flag between steps -/

theorem Serviced.xlatWrite {m m' : Machine} (h : Serviced m m') : m'.xlatWrite = m.xlatWrite := by
  obtain ⟨r, cr, pc, p, t, u, s, vp, img, wrote, rfl⟩ := h
  rfl

theorem finish_xlatWrite (m : Machine) (pc : U32) (flow : Flow) :
    (m.finish pc flow).1.xlatWrite = m.xlatWrite := by
  unfold finish
  split
  · rfl
  split
  · rfl
  · unfold sequence
    split
    · rfl
    split <;> rfl

theorem exec_xlatWrite {m : Machine} (h : Host) (hxlat : m.xlatWrite = false) :
    (m.exec h).1.xlatWrite = false := by
  rw [exec_eq]
  have hfetch : m.fetch.2.xlatWrite = false := (fetch_peeked m).xlatWrite.trans hxlat
  split
  · exact hfetch
  rw [finish_xlatWrite]
  cases hform : m.fetch.2.tick.memForm m.fetch.1 with
  | none => exact (execute_plain h m.cpu.pc hform).1.serviced.xlatWrite.trans hfetch
  | some form =>
    obtain ⟨sub, ea⟩ := form
    rw [execute_mem hform]
    exact memop_xlatWrite _ _ _ _ hfetch

/-- `memop` clears the flag behind itself, so every step starts without it. -/
theorem step_xlatWrite {m : Machine} (h : Host) (hxlat : m.xlatWrite = false) :
    (m.step h).1.xlatWrite = false := by
  unfold step
  rw [hooks_eq]
  cases hint : m.intercepts h m.cpu.pc with
  | error k => exact (intercepts_error hint).xlatWrite.trans hxlat
  | ok k₁ =>
    have hxlat₁ := (intercepts_ok hint).xlatWrite.trans hxlat
    cases hsoft : k₁.softint with
    | error k =>
      simp only [hsoft]
      rw [(softint_error hsoft).2, takeInterrupt_xlatWrite]
      exact (splLooked_peeked k₁).xlatWrite.trans hxlat₁
    | ok k₂ =>
      have hxlat₂ := (softint_ok_peeked hsoft).xlatWrite.trans hxlat₁
      cases hhard : k₂.hardclock with
      | error k =>
        simp only [hsoft, hhard]
        rw [(hardclock_error hhard).2.2, takeInterrupt_xlatWrite]
        exact (kread_peeked k₂.clockTaken SOFTINT_PENDING).xlatWrite.trans hxlat₂
      | ok k₃ =>
        simp only [hsoft, hhard]
        cases hardclock_ok hhard
        refine exec_xlatWrite h ?_
        rw [snoopMaps_eq]
        have hforced : (k₂.forceSig m.cpu.pc).xlatWrite = false := by
          unfold forceSig
          split <;> exact hxlat₂
        have hnoted : ((k₂.forceSig m.cpu.pc).snoopMapFn m.cpu.pc).xlatWrite = false := by
          unfold snoopMapFn
          split <;> exact hforced
        split
        · exact (translate_peeked _ _ _).xlatWrite.trans hnoted
        · exact hnoted

end Machine

end Nx88
