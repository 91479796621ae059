import Nx88.Clock.Run
import Nx88.Reset
/-!
# The hardclock comparator

A word stored to the compare register arms the comparator, a delivered hardclock
disarms it, and it is due once the counter, as a signed difference, has reached
what was stored.  So a programmed deadline gives at most one interrupt, and none
before its time.
-/

namespace Nx88

open Lib.Runs

namespace Machine

/-! ## Stores to the compare register -/

def Access.wordStores (a : Access) : List (U32 × U32) :=
  match a.sub.toNat with
  | 0x09 => [(a.pa, a.m.rd a.D)]
  | 0x08 => [(a.pa, a.m.rd a.D), (a.pa + 4, a.m.rd (a.D + 1))]
  | _ => []

def Access.compareWrites (a : Access) : List U32 :=
  (a.wordStores.filter fun w => w.1 = TIMER_CMP_REG).map Prod.snd

def compareWrites (m : Machine) (h : Host) : List U32 :=
  match m.stepAccess h with
  | some a => a.compareWrites
  | none => []

/-! ## What an access does to the comparator -/

theorem setMem_sameClock (m : Machine) (mem : Mem) : SameClock m (m.setMem mem) :=
  ⟨rfl, rfl, rfl, rfl, rfl⟩

theorem wr_sameClock (m : Machine) (n v : U32) : SameClock m (m.wr n v) :=
  (wr_regsOnly m n v).sameClock

theorem tcsPoke_sameClock (m : Machine) (a : U32) : SameClock m (m.tcsPoke a) := by
  unfold tcsPoke
  split
  · exact SameClock.refl m
  split
  · exact SameClock.refl m
  · exact setMem_sameClock m _

theorem cmmuCommand_sameClock (m : Machine) (base cmd : U32) :
    SameClock m (m.cmmuCommand base cmd) := by
  unfold cmmuCommand
  simp only
  split
  · exact ⟨rfl, rfl, rfl, rfl, rfl⟩
  split
  · exact setMem_sameClock m _
  · exact setMem_sameClock m _

theorem cmmuWrite_sameClock (m : Machine) (a v : U32) : SameClock m (m.cmmuWrite a v) := by
  unfold cmmuWrite
  split
  · split
    · exact cmmuCommand_sameClock m _ _
    split
    · exact ⟨rfl, rfl, rfl, rfl, rfl⟩
    · exact SameClock.refl m
  · exact SameClock.refl m

def programmed (m : Machine) : Option U32 → Machine
  | none => m
  | some v => { m with dev := { m.dev with clockDeadline := v, clockArmed := true } }

def deadlineOf (m : Machine) (a v : U32) : Option U32 :=
  if m.cfg.sysmode ∧ a = TIMER_CMP_REG then some v else none

theorem devWrite32_clock (m : Machine) (a v : U32) :
    SameClock (m.programmed (m.deadlineOf a v)) (m.devWrite32 a v) := by
  unfold devWrite32 deadlineOf
  by_cases hsys : m.cfg.sysmode = true
  · rw [if_pos hsys]
    by_cases hcmp : a = TIMER_CMP_REG
    · rw [if_pos ⟨hsys, hcmp⟩, if_neg (by rw [hcmp]; decide), if_neg (by rw [hcmp]; decide),
        if_neg (by rw [hcmp]; decide)]
      simp only
      rw [if_pos hcmp, if_neg (by rw [hcmp]; decide)]
      exact ((setMem_sameClock _ _).trans (tcsPoke_sameClock _ a)).trans (cmmuWrite_sameClock _ a v)
    · rw [if_neg (fun hc => hcmp hc.2)]
      split
      · exact ⟨rfl, rfl, rfl, rfl, rfl⟩
      split
      · exact ⟨rfl, rfl, rfl, rfl, rfl⟩
      split
      · exact ⟨rfl, rfl, rfl, rfl, rfl⟩
      · have hena : SameClock m (if a = TIMER_ENA_REG
            then { m with dev := { m.dev with clockEnabled := v ≠ 0 } } else m) := by
          split
          · exact ⟨rfl, rfl, rfl, rfl, rfl⟩
          · exact SameClock.refl m
        simp only
        exact ((hena.trans (setMem_sameClock _ _)).trans (tcsPoke_sameClock _ a)).trans
          (cmmuWrite_sameClock _ a v)
  · rw [if_neg hsys, if_neg (fun hc => hsys hc.1)]
    exact setMem_sameClock m _

theorem timerRead_sameClock {m m' : Machine} {sub D ea : U32}
    (h : m.timerRead sub D ea = some m') : SameClock m m' := by
  unfold timerRead at h
  simp only at h
  split at h
  case h_6 => cases h
  all_goals
    rw [← Option.some.inj h]
    exact wr_sameClock m _ _

theorem shaCommand_sameClock (m : Machine) (ea : U32) (v : U16) :
    SameClock m (m.shaCommand ea v) := by
  unfold shaCommand
  refine SameClock.trans ?_ (setMem_sameClock _ _)
  split
  · exact ⟨rfl, rfl, rfl, rfl, rfl⟩
  split
  · exact ⟨rfl, rfl, rfl, rfl, rfl⟩
  split
  · exact setMem_sameClock m _
  · exact SameClock.refl m

theorem memAccess_sameClock {m : Machine} {sub : U32} (D ea : U32) (hst : sub ≠ 0x09)
    (hstd : sub ≠ 0x08) : SameClock m (m.memAccess sub D ea) := by
  unfold memAccess
  split
  · exact shaCommand_sameClock m _ _
  split
  · exact wr_sameClock m _ _
  split
  · exact wr_sameClock m _ _
  split
  · split
    · exact (setMem_sameClock m _).trans (wr_sameClock _ _ _)
    · exact ⟨rfl, rfl, rfl, rfl, rfl⟩
  split
  · rename_i htimer
    split at htimer
    · exact timerRead_sameClock htimer
    · cases htimer
  · unfold memTransfer
    split
    case h_7 heq => exact absurd (BitVec.eq_of_toNat_eq heq) hst
    case h_10 heq => exact absurd (BitVec.eq_of_toNat_eq heq) hstd
    case h_6 => exact (wr_sameClock m _ _).trans (wr_sameClock _ _ _)
    case h_8 => exact (setMem_sameClock m _).trans (tcsPoke_sameClock _ _)
    case h_9 => exact setMem_sameClock m _
    case h_11 => exact (setMem_sameClock m _).trans (wr_sameClock _ _ _)
    case h_12 => exact (setMem_sameClock m _).trans (wr_sameClock _ _ _)
    case h_13 => exact SameClock.refl m
    all_goals exact wr_sameClock m _ _

def Access.deadline (a : Access) : Option U32 :=
  if a.m.cfg.sysmode then a.compareWrites.getLast? else none

theorem deadline_stw {a : Access} (h : a.sub = 0x09) :
    a.deadline = a.m.deadlineOf a.pa (a.m.rd a.D) := by
  unfold Access.deadline Access.compareWrites Access.wordStores deadlineOf
  rw [h]
  by_cases hsys : a.m.cfg.sysmode = true
  · by_cases hcmp : a.pa = TIMER_CMP_REG
    · simp [hsys, hcmp]
    · simp [hsys, hcmp]
  · simp [hsys]

theorem deadline_std {a : Access} (h : a.sub = 0x08) :
    a.deadline =
      (a.m.deadlineOf (a.pa + 4) (a.m.rd (a.D + 1))).or (a.m.deadlineOf a.pa (a.m.rd a.D)) := by
  unfold Access.deadline Access.compareWrites Access.wordStores deadlineOf
  rw [h]
  by_cases hsys : a.m.cfg.sysmode = true
  · by_cases hlow : a.pa = TIMER_CMP_REG
    · simp [hsys, hlow]
    · simp [hsys, hlow]
  · simp [hsys]

theorem programmed_programmed (m : Machine) (x y : Option U32) :
    SameClock (m.programmed (y.or x)) ((m.programmed x).programmed y) := by
  cases x with
  | none => cases y <;> exact ⟨rfl, rfl, rfl, rfl, rfl⟩
  | some v => cases y <;> exact ⟨rfl, rfl, rfl, rfl, rfl⟩

theorem SameClock.programmed {m m' : Machine} (h : SameClock m m') (x : Option U32) :
    SameClock (m.programmed x) (m'.programmed x) := by
  cases x with
  | none => exact h
  | some v => exact ⟨h.cfg, h.count, rfl, rfl, h.inKcall⟩

theorem programmed_cfg (m : Machine) (x : Option U32) : (m.programmed x).cfg = m.cfg := by
  cases x <;> rfl

theorem memAccess_clock (a : Access) :
    SameClock (a.m.programmed a.deadline) (a.m.memAccess a.sub a.D a.pa) := by
  by_cases hst : a.sub = 0x09
  · rw [deadline_stw hst, hst, memAccess_stw]
    exact devWrite32_clock a.m a.pa _
  by_cases hstd : a.sub = 0x08
  · rw [deadline_std hstd, hstd, memAccess_std]
    have hfirst := devWrite32_clock a.m a.pa (a.m.rd a.D)
    have hsecond := devWrite32_clock (a.m.devWrite32 a.pa (a.m.rd a.D)) (a.pa + 4)
      ((a.m.devWrite32 a.pa (a.m.rd a.D)).rd (a.D + 1))
    have hword : (a.m.devWrite32 a.pa (a.m.rd a.D)).rd (a.D + 1) = a.m.rd (a.D + 1) :=
      congrArg (fun c : Cpu => c.rd (a.D + 1)) (devWrite32_cpu a.m a.pa _)
    have hcfg : ∀ x v, (a.m.devWrite32 a.pa (a.m.rd a.D)).deadlineOf x v = a.m.deadlineOf x v := by
      intro x v
      unfold deadlineOf
      rw [hfirst.cfg, programmed_cfg]
    rw [hcfg, hword] at hsecond
    rw [hword]
    exact ((programmed_programmed _ _ _).trans (hfirst.programmed _)).trans hsecond
  · have hnone : a.deadline = none := by
      have hstores : a.wordStores = [] := by
        unfold Access.wordStores
        split
        · rename_i heq
          exact absurd (BitVec.eq_of_toNat_eq heq) hst
        · rename_i heq
          exact absurd (BitVec.eq_of_toNat_eq heq) hstd
        · rfl
      unfold Access.deadline Access.compareWrites
      rw [hstores]
      exact ite_self _
    rw [hnone]
    exact memAccess_sameClock _ _ hst hstd

/-! ## What a step does to the comparator -/

/-- The deadline that a step leaves: its last word for the compare register. -/
def newDeadline (m : Machine) (h : Host) : Option U32 :=
  if m.cfg.sysmode then (m.compareWrites h).getLast? else none

theorem exec_comparator (m : Machine) (h : Host) :
    (m.exec h).1.cfg = m.cfg ∧
      (m.exec h).1.dev.clockArmed = (m.programmed (m.execAccess.bind Access.deadline)).dev.clockArmed ∧
      (m.exec h).1.dev.clockDeadline =
        (m.programmed (m.execAccess.bind Access.deadline)).dev.clockDeadline := by
  have hfetch := (fetch_peeked m).sameClock
  cases ha : m.execAccess with
  | none =>
    rcases exec_of_no_access (h := h) ha with hclock | hclock
    · exact ⟨hclock.cfg, hclock.armed, hclock.deadline⟩
    · exact ⟨hclock.cfg.trans hfetch.cfg, hclock.armed.trans hfetch.armed,
        hclock.deadline.trans hfetch.deadline⟩
  | some a =>
    obtain ⟨hbefore, hafter⟩ := exec_of_access ha
    have hclock := (memAccess_clock a).trans (hafter h)
    rw [Option.bind_some]
    refine ⟨?_, ?_, ?_⟩
    · rw [hclock.cfg, programmed_cfg, hbefore.cfg]
      exact hfetch.cfg
    · rw [hclock.armed]
      cases a.deadline with
      | none => exact hbefore.armed.trans hfetch.armed
      | some v => rfl
    · rw [hclock.deadline]
      cases a.deadline with
      | none => exact hbefore.deadline.trans hfetch.deadline
      | some v => rfl

theorem execAccess_cfg {m : Machine} {a : Access} (ha : m.execAccess = some a) :
    a.m.cfg = m.cfg :=
  (exec_of_access ha).1.cfg.trans (fetch_peeked m).cfg

theorem newDeadline_eq {m k : Machine} {h : Host} (hcfg : k.cfg = m.cfg)
    (haccess : m.stepAccess h = k.execAccess) :
    m.newDeadline h = k.execAccess.bind Access.deadline := by
  unfold newDeadline compareWrites
  rw [haccess]
  cases ha : k.execAccess with
  | none => exact ite_self _
  | some a =>
    rw [Option.bind_some]
    unfold Access.deadline
    rw [execAccess_cfg ha, hcfg]

theorem compareWrites_none {m : Machine} {h : Host} (haccess : m.stepAccess h = none) :
    m.compareWrites h = [] := by
  unfold compareWrites
  rw [haccess]

/-- What a step does to the comparator: a delivery disarms it, a word for the
compare register arms it, and anything else leaves it alone. -/
theorem step_comparator (m : Machine) (h : Host) :
    (m.step h).1.cfg = m.cfg ∧
      (m.step h).1.dev.clockArmed =
        (!m.takesHardclock h && (m.programmed (m.newDeadline h)).dev.clockArmed) ∧
      (m.step h).1.dev.clockDeadline = (m.programmed (m.newDeadline h)).dev.clockDeadline ∧
      (m.takesHardclock h = true → m.compareWrites h = []) := by
  have hnone : m.stepAccess h = none → m.newDeadline h = none := by
    intro haccess
    unfold newDeadline
    rw [compareWrites_none haccess]
    exact ite_self _
  cases step_case m h with
  | stopped clock access untaken =>
    rw [hnone access, untaken]
    exact ⟨clock.cfg, clock.armed, clock.deadline, fun _ => compareWrites_none access⟩
  | hardclock k clock gate due cfg count armed deadline access taken =>
    rw [hnone access, taken]
    exact ⟨cfg, armed, deadline, fun _ => compareWrites_none access⟩
  | executed k clock access run untaken =>
    obtain ⟨hcfg, harmed, hdeadline⟩ := exec_comparator k h
    rw [newDeadline_eq clock.cfg access, untaken, run]
    refine ⟨hcfg.trans clock.cfg, ?_, ?_, fun htaken => absurd htaken (by decide)⟩
    · rw [harmed]
      exact (clock.programmed _).armed
    · rw [hdeadline]
      exact (clock.programmed _).deadline

/-- A delivered hardclock was armed, and the counter had reached its deadline. -/
theorem takesHardclock_due {m : Machine} {h : Host} (hdiv : m.cfg.tickDiv ≠ 0)
    (htakes : m.takesHardclock h = true) :
    m.cfg.sysmode = true ∧ m.dev.clockArmed = true ∧
      (0#32).sle (m.timerNow - m.dev.clockDeadline) = true := by
  cases step_case m h with
  | stopped clock access untaken => exact absurd (untaken.symm.trans htakes) (by decide)
  | executed k clock access run untaken => exact absurd (untaken.symm.trans htakes) (by decide)
  | hardclock k clock gate due cfg count armed deadline access taken =>
    have hsys : k.cfg.sysmode = true := by
      unfold interruptible at gate
      exact (of_decide_eq_true gate).2.1
    unfold clockDue at due
    rw [clock.cfg, if_pos hdiv, clock.armed, clock.timerNow, clock.deadline] at due
    have hdue := of_decide_eq_true due
    exact ⟨by rw [← clock.cfg]; exact hsys, hdue.1, hdue.2⟩

end Machine

/-! ## Runs -/

namespace Turn

/-- A hardclock delivered by a turn. -/
def deliveries : Turn → Session → List Unit
  | step h, s => if s.m.takesHardclock h then [()] else []
  | _, _ => []

def compareWrites : Turn → Session → List U32
  | step h, s => s.m.compareWrites h
  | _, _ => []

variable {t : Turn} {s : Session}

theorem run_cfg (hok : t.Ok s) : (t.run s).m.cfg = s.m.cfg := by
  cases t with
  | step h => exact (Machine.step_comparator s.m h).1
  | enter c => exact (enterKcall_comparator s.m c).1
  | leave =>
    obtain ⟨m, saved⟩ := s
    cases saved with
    | nil => rfl
    | cons c rest => rfl
  | host k => exact hok.cfg

theorem run_comparator (hok : t.Ok s) (hstep : ∀ h, t ≠ step h) :
    (t.run s).m.dev.clockArmed = s.m.dev.clockArmed ∧
      (t.run s).m.dev.clockDeadline = s.m.dev.clockDeadline := by
  cases t with
  | step h => exact absurd rfl (hstep h)
  | enter c => exact (enterKcall_comparator s.m c).2.2
  | leave =>
    obtain ⟨m, saved⟩ := s
    cases saved with
    | nil => exact ⟨rfl, rfl⟩
    | cons c rest => exact ⟨rfl, rfl⟩
  | host k => exact ⟨hok.armed, hok.deadline⟩

/-- Without a word for the compare register the deadline stands, and the
comparator is not armed. -/
theorem run_silent (hok : t.Ok s) (hsilent : t.compareWrites s = []) :
    (t.run s).m.dev.clockDeadline = s.m.dev.clockDeadline ∧
      ((t.run s).m.dev.clockArmed = true → s.m.dev.clockArmed = true) := by
  by_cases hstep : ∃ h, t = step h
  · obtain ⟨h, rfl⟩ := hstep
    obtain ⟨-, harmed, hdeadline, -⟩ := Machine.step_comparator s.m h
    have hnone : s.m.newDeadline h = none := by
      unfold Machine.newDeadline
      rw [show s.m.compareWrites h = [] from hsilent]
      exact ite_self _
    rw [hnone] at harmed hdeadline
    refine ⟨hdeadline, fun hset => ?_⟩
    rw [show ((step h).run s).m.dev.clockArmed = _ from harmed, Bool.and_eq_true] at hset
    exact hset.2
  · obtain ⟨harmed, hdeadline⟩ := run_comparator hok fun h heq => hstep ⟨h, heq⟩
    exact ⟨hdeadline, fun hset => harmed ▸ hset⟩

end Turn

namespace Session

/-- The latch of the comparator, as a number. -/
def latch (s : Session) : Nat := s.m.dev.clockArmed.toNat

/-- A delivery uses up the latch, which only a word for the register renews. -/
theorem turn_latch {t : Turn} {s : Session} (hok : t.Ok s) (hdiv : s.m.cfg.tickDiv ≠ 0) :
    (t.deliveries s).length + (t.run s).latch ≤ (t.compareWrites s).length + s.latch := by
  by_cases hstep : ∃ h, t = .step h
  · obtain ⟨h, rfl⟩ := hstep
    cases htakes : s.m.takesHardclock h with
    | true =>
      obtain ⟨-, harmed, -, -⟩ := Machine.step_comparator s.m h
      obtain ⟨-, hset, -⟩ := Machine.takesHardclock_due hdiv htakes
      rw [htakes] at harmed
      have hdelivered : (Turn.step h).deliveries s = [()] := if_pos htakes
      have hafter : ((Turn.step h).run s).latch = 0 := congrArg Bool.toNat harmed
      have hbefore : s.latch = 1 := congrArg Bool.toNat hset
      rw [hdelivered, hafter, hbefore]
      simp
    | false =>
      have hdelivered : (Turn.step h).deliveries s = [] := if_neg (by rw [htakes]; decide)
      rw [hdelivered]
      cases hwrites : (Turn.step h).compareWrites s with
      | nil =>
        have hkept := (Turn.run_silent hok hwrites).2
        unfold latch
        cases hset : ((Turn.step h).run s).m.dev.clockArmed with
        | true =>
          rw [hkept hset]
          simp
        | false => simp
      | cons v vs =>
        have hle := Bool.toNat_le ((Turn.step h).run s).m.dev.clockArmed
        unfold latch
        simp only [List.length_nil, List.length_cons]
        omega
  · have hkept := (Turn.run_comparator hok fun h heq => hstep ⟨h, heq⟩).1
    have hdelivered : t.deliveries s = [] := by
      cases t with
      | step h => exact absurd ⟨h, rfl⟩ hstep
      | enter c => rfl
      | leave => rfl
      | host k => rfl
    rw [hdelivered]
    unfold latch
    rw [hkept]
    simp

theorem run_latch {s : Session} {ts : List Turn} (hok : Along Turn.run Turn.Ok s ts)
    (hdiv : s.m.cfg.tickDiv ≠ 0) :
    (trace Turn.run Turn.deliveries s ts).length + (after Turn.run s ts).latch ≤
      (trace Turn.run Turn.compareWrites s ts).length + s.latch := by
  induction ts generalizing s with
  | nil => exact le_refl _
  | cons t ts ih =>
    have hturn := turn_latch hok.1 hdiv
    have hrest := ih hok.2 (by rw [Turn.run_cfg hok.1]; exact hdiv)
    simp only [trace_cons, after_cons, List.length_append]
    omega

/-- Between two deliveries there is a word for the compare register. -/
def DeliveriesApart (s : Session) (ts : List Turn) : Prop :=
  ∀ pre mid post h h', ts = pre ++ .step h :: (mid ++ .step h' :: post) →
    (after Turn.run s pre).m.takesHardclock h = true →
    (after Turn.run s (pre ++ .step h :: mid)).m.takesHardclock h' = true →
    trace Turn.run Turn.compareWrites (after Turn.run s (pre ++ [.step h])) mid ≠ []

/-- If the last word for the compare register was `t + d`, stored when the
counter read `t`, no hardclock is delivered before the counter has advanced by
`d`. -/
def NeverEarly (s : Session) (ts : List Turn) : Prop :=
  ∀ pre mid post h h' d, ts = pre ++ .step h :: (mid ++ .step h' :: post) →
    ((after Turn.run s pre).m.compareWrites h).getLast? =
      some ((after Turn.run s (pre ++ [.step h])).m.timerNow + d) →
    0 < d.toNat → d.toNat < 2 ^ 31 →
    trace Turn.run Turn.compareWrites (after Turn.run s (pre ++ [.step h])) mid = [] →
    ((after Turn.run s (pre ++ .step h :: mid)).m.timerNow -
      (after Turn.run s (pre ++ [.step h])).m.timerNow).toNat < d.toNat →
    (after Turn.run s (pre ++ .step h :: mid)).m.takesHardclock h' = false

/-- With no word for the compare register a run keeps the deadline, and arms
nothing. -/
theorem run_silent {s : Session} {ts : List Turn} (hok : Along Turn.run Turn.Ok s ts)
    (hsilent : trace Turn.run Turn.compareWrites s ts = []) :
    (after Turn.run s ts).m.dev.clockDeadline = s.m.dev.clockDeadline ∧
      ((after Turn.run s ts).m.dev.clockArmed = true → s.m.dev.clockArmed = true) := by
  refine hok.invariant_of_silent
    (fun k => k.m.dev.clockDeadline = s.m.dev.clockDeadline ∧
      (k.m.dev.clockArmed = true → s.m.dev.clockArmed = true)) hsilent ?_ ⟨rfl, id⟩
  intro t k hk hok hturn
  obtain ⟨hdeadline, harmed⟩ := Turn.run_silent hok hturn
  exact ⟨hdeadline.trans hk.1, fun hset => hk.2 (harmed hset)⟩

theorem run_cfg {s : Session} {ts : List Turn} (hok : Along Turn.run Turn.Ok s ts) :
    (after Turn.run s ts).m.cfg = s.m.cfg := by
  refine hok.invariant (fun k => k.m.cfg = s.m.cfg) ?_ rfl
  intro t k hk hok
  exact (Turn.run_cfg hok).trans hk

theorem deliveriesApart {s : Session} {ts : List Turn} (hok : Along Turn.run Turn.Ok s ts)
    (hdiv : s.m.cfg.tickDiv ≠ 0) : s.DeliveriesApart ts := by
  rintro pre mid post h h' rfl hfirst hsecond hsilent
  obtain ⟨hpre, hrest⟩ := along_append hok
  obtain ⟨hmid, -⟩ := along_append hrest.2
  have hafter : after Turn.run s (pre ++ .step h :: mid) =
      after Turn.run ((Turn.step h).run (after Turn.run s pre)) mid := by
    rw [after_append, after_cons]
  have hstart : after Turn.run s (pre ++ [.step h]) =
      (Turn.step h).run (after Turn.run s pre) := by
    rw [after_append]
    rfl
  rw [hstart] at hsilent
  -- the first delivery has used up the latch, and nothing renews it
  obtain ⟨-, harmed, -, -⟩ := Machine.step_comparator (after Turn.run s pre).m h
  rw [hfirst, Bool.not_true, Bool.false_and] at harmed
  have hcfg : (after Turn.run s (pre ++ .step h :: mid)).m.cfg = s.m.cfg := by
    rw [hafter, run_cfg hmid, Turn.run_cfg hrest.1, run_cfg hpre]
  obtain ⟨-, hset, -⟩ := Machine.takesHardclock_due (by rw [hcfg]; exact hdiv) hsecond
  rw [hafter] at hset
  have hbefore := (run_silent hmid hsilent).2 hset
  exact absurd (hbefore.symm.trans harmed) (by decide)

/-- A counter that has advanced by less than `d` has not reached the deadline. -/
theorem not_reached {now t d : U32} (hd : d.toNat < 2 ^ 31) (hlt : (now - t).toNat < d.toNat) :
    (0#32).sle (now - (t + d)) = false := by
  have hsub : now - (t + d) = now - t - d := by bv_omega
  rw [hsub]
  generalize now - t = x at hlt
  rw [Bool.eq_false_iff]
  intro hle
  rw [BitVec.sle_iff_toInt_le, BitVec.toInt_eq_toNat_cond, BitVec.toInt_eq_toNat_cond] at hle
  rw [BitVec.toNat_sub] at hle
  simp only [BitVec.toNat_ofNat] at hle
  omega

theorem neverEarly {s : Session} {ts : List Turn} (hok : Along Turn.run Turn.Ok s ts)
    (hdiv : s.m.cfg.tickDiv ≠ 0) : s.NeverEarly ts := by
  rintro pre mid post h h' d rfl hwrite hpos hd hsilent hlt
  obtain ⟨hpre, hrest⟩ := along_append hok
  obtain ⟨hmid, -⟩ := along_append hrest.2
  have hafter : after Turn.run s (pre ++ .step h :: mid) =
      after Turn.run ((Turn.step h).run (after Turn.run s pre)) mid := by
    rw [after_append, after_cons]
  have hstart : after Turn.run s (pre ++ [.step h]) =
      (Turn.step h).run (after Turn.run s pre) := by
    rw [after_append]
    rfl
  rw [hstart] at hwrite hsilent hlt
  rw [hafter] at hlt ⊢
  rw [Bool.eq_false_iff]
  intro htakes
  have hcfg := run_cfg hmid
  have hcfg' := Turn.run_cfg hrest.1
  obtain ⟨hsys, -, hdue⟩ := Machine.takesHardclock_due
    (by rw [hcfg, hcfg', run_cfg hpre]; exact hdiv) htakes
  rw [hcfg, hcfg'] at hsys
  -- the deadline is still the one that the step stored
  obtain ⟨-, -, hdeadline, -⟩ := Machine.step_comparator (after Turn.run s pre).m h
  have hprogrammed : (after Turn.run s pre).m.newDeadline h =
      some (((Turn.step h).run (after Turn.run s pre)).m.timerNow + d) := by
    unfold Machine.newDeadline
    rw [if_pos hsys]
    exact hwrite
  rw [hprogrammed] at hdeadline
  have hstands := (run_silent hmid hsilent).1.trans hdeadline
  rw [hstands] at hdue
  exact absurd (hdue.symm.trans (not_reached hd hlt)) (by decide)

end Session

/-- One programmed deadline gives at most one hardclock, and none early. -/
theorem hardclock_per_deadline {s : Session} {ts : List Turn}
    (hok : Along Turn.run Turn.Ok s ts) (hdiv : s.m.cfg.tickDiv ≠ 0) :
    (trace Turn.run Turn.deliveries s ts).length ≤
        (trace Turn.run Turn.compareWrites s ts).length + 1 ∧
      s.DeliveriesApart ts ∧ s.NeverEarly ts := by
  refine ⟨?_, Session.deliveriesApart hok hdiv, Session.neverEarly hok hdiv⟩
  have hlatch := Session.run_latch hok hdiv
  have hone : s.latch ≤ 1 := Bool.toNat_le _
  omega

/-- The comparator due at once, and `st r2,r8,0` to the compare register in the
interrupt vector. -/
def ticking : Machine :=
  { Machine.initial { Config.initial with sysmode := true, clockIrq := true, tickDiv := 1 } false
      (Console.initial false false ⟨[], []⟩ ⟨[], []⟩) with
    mem := ((Mem.blank false).w32 IRQ_MASK_REG IRQ_HARDCLOCK).w32 0xC0000008 0x24480000
    cpu := { Cpu.blank with
      pc := 0x1000
      r := Function.update (Function.update (fun _ => 0) 8 TIMER_CMP_REG) 2 5
      cr := Function.update (fun _ => 0) 7 0xC0000000 } }

theorem ticking_hardclock :
    trace Turn.run Turn.deliveries ⟨ticking, []⟩ (steps Host.blank 3) = [()] ∧
      trace Turn.run Turn.compareWrites ⟨ticking, []⟩ (steps Host.blank 3) = [5] ∧
      Session.DeliveriesApart ⟨ticking, []⟩ (steps Host.blank 3) ∧
      Session.NeverEarly ⟨ticking, []⟩ (steps Host.blank 3) :=
  ⟨by decide +kernel, by decide +kernel,
    (hardclock_per_deadline
      (show Along Turn.run Turn.Ok ⟨ticking, []⟩ (steps Host.blank 3) from
        ⟨trivial, trivial, trivial, trivial⟩) (by decide)).2⟩

end Nx88
