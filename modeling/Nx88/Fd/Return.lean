import Nx88.Fd.Routing
/-!
# Recording returned descriptors

Between the trap of an `open`, `creat`, `dup`, `dup2` or `pipe` and its return
to user mode other processes may trap, sleep and make calls of their own.  The
ideal keeps one set of flags for each process and the kind of every call in
flight; the emulator has one watch set and one working copy.
-/

namespace Nx88

open Lib

namespace FdState

/-! ## Calls in flight -/

/-- A descriptor-returning call, with the kind of descriptor it is to return. -/
structure Call where
  pid : Int
  tpc : U32
  /-- `pipe` returns two descriptors -/
  pair : Bool
  con : Bool
  disk : Bool
  /-- `dup2` takes over the offset of its source; the others start at 0 -/
  keepOff : Bool
deriving DecidableEq

/-- The call that process `pid`, owning the flags `v`, makes at its trap. -/
def callOf (v : FdVals) (pid : Int) (r9 r2 tpc : U32) (sd0 : Bool) : Call where
  pid := pid
  tpc := tpc
  pair := r9 = 42
  con := (r9 = 41 ∨ r9 = 90) ∧ FdVals.flag v.con r2
  disk := ((r9 = 5 ∨ r9 = 8) ∧ sd0) ∨ ((r9 = 41 ∨ r9 = 90) ∧ FdVals.flag v.dsk r2)
  keepOff := r9 = 90

/-- The flags after the kernel has returned descriptor `k`, and for a pair `k'`:
the kernel owns it, and it is of the kind of the call. -/
def record (v : FdVals) (c : Call) (k k' : U32) : FdVals :=
  let v := { v with
    krn := FdVals.setFlag v.krn k true
    con := FdVals.setFlag v.con k c.con
    dsk := FdVals.setFlag v.dsk k c.disk
    doff := if c.disk ∧ ¬c.keepOff then FdVals.setOff v.doff k 0 else v.doff }
  if c.pair then
    { v with
      krn := FdVals.setFlag v.krn k' true
      con := FdVals.setFlag v.con k' false
      dsk := FdVals.setFlag v.dsk k' false }
  else v

/-- What the trap of a call that goes on to the kernel does to the caller's own
flags. -/
def ownChange (v : FdVals) (r9 r2 r3 : U32) : FdVals :=
  let v := if r9 = 6 ∧ r2 < 64 then v.close r2 else v
  if r9 = 90 then v.dup2 r2 r3 else v

/-! ## Runs -/

inductive Event where
  /-- a system call that goes on to the kernel -/
  | trap (pid ppid : Int) (r9 r2 r3 tpc : U32) (sd0 : Bool)
  /-- a system call that the emulator services, which may move disk offsets -/
  | serviced (pid ppid : Int) (doff : Fin 64 → U32)
  /-- the kernel returns from a call: user code resumes behind its trap -/
  | returned (c : Call) (k k' : U32)
  /-- any other iteration of `run_sys` -/
  | elsewhere (pc : U32) (user : Bool) (r2 r3 : U32)

/-- The emulator's state, with the sets and the calls that it ought to know. -/
structure Run where
  st : FdState
  sets : Left
  calls : List Call

/-- The set of a process when it traps.  A process whose parent has never
trapped starts from what it is given. -/
def Run.own (s : Run) (pid ppid : Int) : FdVals :=
  (expected s.sets pid ppid).getD (s.st.fdSwitch true pid ppid).cur

def Run.step (s : Run) : Event → Run
  | .trap pid ppid r9 r2 r3 tpc sd0 =>
    let v := s.own pid ppid
    { st := (s.st.fdSwitch true pid ppid).fdTrap r9 r2 r3 tpc sd0
      sets := Function.update s.sets pid (some (ownChange v r9 r2 r3))
      calls := if returnsFd r9 then callOf v pid r9 r2 tpc sd0 :: s.calls else s.calls }
  | .serviced pid ppid doff =>
    let st := s.st.fdSwitch true pid ppid
    { s with
      st := { st with cur := { st.cur with doff := doff } }
      sets := Function.update s.sets pid (some { s.own pid ppid with doff := doff }) }
  | .returned c k k' =>
    { st := s.st.fdReturn (c.tpc + 8) true k k'
      sets := Function.update s.sets c.pid ((s.sets c.pid).map (record · c k k'))
      calls := s.calls.erase c }
  | .elsewhere pc user r2 r3 => { s with st := s.st.fdReturn pc user r2 r3 }

def Run.run (s : Run) (es : List Event) : Run := es.foldl Run.step s

def Run.boot : Run := ⟨FdState.initial, fun _ => none, []⟩

/-- The set that the emulator holds for a process: the working copy for the
process of the latest trap, its slot for any other. -/
def setOf (st : FdState) (pid : Int) : Option FdVals :=
  if pid = st.fdcur then some st.cur else SlotTable.get st.fdsets pid

/-- Every process that has trapped has exactly the set that its own calls gave
it. -/
def Run.Faithful (s : Run) : Prop := ∀ pid v, s.sets pid = some v → s.st.setOf pid = some v

/-! ## Events that can happen, and the condition -/

/-- Processes have positive pids, the kernel returns only from calls in flight,
and descriptor numbers are below 64. -/
def Run.Possible (s : Run) : Event → Prop
  | .trap pid _ _ _ _ _ _ => 0 < pid
  | .serviced pid _ _ => 0 < pid
  | .returned c k k' => c ∈ s.calls ∧ k < 64 ∧ (c.pair → k' < 64)
  | .elsewhere _ _ _ _ => True

/-- The watch set is the one that the trap of call `c` leaves. -/
def Watches (st : FdState) (c : Call) : Prop :=
  st.watchPc = c.tpc ∧ st.watchPair = c.pair ∧ st.watchCon = (c.con && !c.keepOff) ∧
    st.watchDisk = (c.disk && !c.keepOff)

/-- Descriptor `k` carries no flag from an earlier use; the target of a `dup2`
has had its flags since the trap. -/
def CleanFor (v : FdVals) (c : Call) (k : U32) : Prop :=
  if c.keepOff then FdVals.flag v.con k = c.con ∧ FdVals.flag v.dsk k = c.disk
  else (FdVals.flag v.con k → c.con) ∧ (FdVals.flag v.dsk k → c.disk)

/-- When the kernel returns from call `c`: the working copy is still its
caller's, the watch set is still its own, and the numbers are clean. -/
def ReturnOk (st : FdState) (c : Call) (k k' : U32) : Prop :=
  st.fdcur = c.pid ∧ Watches st c ∧ c.tpc ≠ 0 ∧ CleanFor st.cur c k ∧
    (c.pair → k ≠ k' ∧ FdVals.flag st.cur.con k' = false ∧ FdVals.flag st.cur.dsk k' = false)

/-- Traps meet the condition of the switch, returns that of the watch, and no
other user code passes behind the watched trap. -/
def Run.StepOk (s : Run) : Event → Prop
  | .trap pid ppid _ _ _ _ _ => SwitchOk s.st s.sets pid ppid
  | .serviced pid ppid _ => SwitchOk s.st s.sets pid ppid
  | .returned c k k' => ReturnOk s.st c k k'
  | .elsewhere pc user _ _ => ¬(s.st.watchPc ≠ 0 ∧ pc = s.st.watchPc + 8 ∧ user)

def Run.RunOk (s : Run) : List Event → Prop
  | [] => True
  | e :: es => s.Possible e ∧ s.StepOk e ∧ (s.step e).RunOk es

/-! ## Flags -/

theorem setFlag_self {f : Fin 64 → Bool} {k : U32} {b : Bool} (h : FdVals.flag f k = b)
    (hk : k < 64) : FdVals.setFlag f k b = f := by
  have hlt : k.toNat < 64 := hk
  rw [FdVals.flag, dif_pos hlt] at h
  rw [FdVals.setFlag, dif_pos hlt, ← h]
  exact Function.update_eq_self _ _

theorem flag_setFlag_of_ne {f : Fin 64 → Bool} {k k' : U32} {b : Bool} (h : k ≠ k') :
    FdVals.flag (FdVals.setFlag f k b) k' = FdVals.flag f k' := by
  unfold FdVals.flag FdVals.setFlag
  split
  · split
    · rw [Function.update_of_ne]
      intro heq
      exact h (BitVec.eq_of_toNat_eq (Fin.ext_iff.1 heq).symm)
    · rfl
  · rfl

theorem returned_eq {v : FdVals} {c : Call} {k : U32} (hk : k < 64) (hclean : CleanFor v c k) :
    v.returned k (c.con && !c.keepOff) (c.disk && !c.keepOff) =
      { v with
        krn := FdVals.setFlag v.krn k true
        con := FdVals.setFlag v.con k c.con
        dsk := FdVals.setFlag v.dsk k c.disk
        doff := if c.disk ∧ ¬c.keepOff then FdVals.setOff v.doff k 0 else v.doff } := by
  unfold CleanFor at hclean
  unfold FdVals.returned
  cases hkeep : c.keepOff with
  | true =>
    simp only [hkeep, if_true] at hclean
    simp [setFlag_self hclean.1 hk, setFlag_self hclean.2 hk]
  | false =>
    simp only [hkeep, Bool.false_eq_true, if_false] at hclean
    have hcon : c.con = false → FdVals.setFlag v.con k false = v.con := fun h =>
      setFlag_self (by simpa [h] using hclean.1) hk
    have hdsk : c.disk = false → FdVals.setFlag v.dsk k false = v.dsk := fun h =>
      setFlag_self (by simpa [h] using hclean.2) hk
    cases hc : c.con <;> cases hd : c.disk <;> simp [hc, hd, hcon, hdsk]

theorem returned_second_eq {v : FdVals} {k' : U32} (hk : k' < 64)
    (hcon : FdVals.flag v.con k' = false) (hdsk : FdVals.flag v.dsk k' = false) :
    v.returned k' false false =
      { v with
        krn := FdVals.setFlag v.krn k' true
        con := FdVals.setFlag v.con k' false
        dsk := FdVals.setFlag v.dsk k' false } := by
  unfold FdVals.returned
  simp [setFlag_self hcon hk, setFlag_self hdsk hk]

theorem fdReturn_watched {st : FdState} {c : Call} {k k' : U32} (hok : ReturnOk st c k k')
    (hk : k < 64) (hk' : c.pair → k' < 64) :
    (st.fdReturn (c.tpc + 8) true k k').cur = record st.cur c k k' ∧
      (st.fdReturn (c.tpc + 8) true k k').fdsets = st.fdsets ∧
      (st.fdReturn (c.tpc + 8) true k k').fdcur = st.fdcur := by
  obtain ⟨-, ⟨hpc, hpair, hcon, hdisk⟩, htpc, hclean, hsecond⟩ := hok
  unfold fdReturn
  rw [if_pos ⟨hpc ▸ htpc, by rw [hpc], rfl⟩, hpair, hcon, hdisk]
  refine ⟨?_, rfl, rfl⟩
  simp only [if_pos hk, returned_eq hk hclean]
  unfold record
  cases hp : c.pair with
  | false => simp
  | true =>
    obtain ⟨hne, hc', hd'⟩ := hsecond hp
    rw [if_pos ⟨rfl, hk' hp, hk⟩, if_pos rfl]
    exact returned_second_eq (hk' hp) ((flag_setFlag_of_ne hne).trans hc')
      ((flag_setFlag_of_ne hne).trans hd')

/-! ## The invariant -/

theorem Inv.congr {st st' : FdState} {left : Left} (h : Inv st left) (hcur : st'.cur = st.cur)
    (hsets : st'.fdsets = st.fdsets) (hfdcur : st'.fdcur = st.fdcur) : Inv st' left := by
  obtain ⟨h1, h2, h3, h4, h5⟩ := h
  constructor
  · exact h1
  · rwa [hcur, hsets, hfdcur]
  · rwa [hsets, hfdcur]
  · rwa [hsets]
  · rwa [hsets]

/-- The sets are right and the calls in flight belong to processes. -/
structure Run.Inv (s : Run) : Prop where
  sets : FdState.Inv s.st s.sets
  calls : ∀ c ∈ s.calls, 0 < c.pid

theorem Run.Inv.boot : Run.boot.Inv := ⟨inv_initial, by simp [Run.boot]⟩

theorem Run.Inv.faithful {s : Run} (h : s.Inv) : s.Faithful := by
  intro pid v hv
  unfold setOf
  by_cases hcur : pid = s.st.fdcur
  · rw [if_pos hcur, ← (h.sets.current (hcur ▸ h.sets.positive pid v hv)).1, ← hcur, hv]
  · rw [if_neg hcur]
    exact h.sets.seen pid v hv hcur

theorem fdTrap_eq (st : FdState) (r9 r2 r3 tpc : U32) (sd0 : Bool) :
    (st.fdTrap r9 r2 r3 tpc sd0).cur = ownChange st.cur r9 r2 r3 ∧
      (st.fdTrap r9 r2 r3 tpc sd0).fdsets = st.fdsets ∧
      (st.fdTrap r9 r2 r3 tpc sd0).fdcur = st.fdcur := by
  unfold fdTrap ownChange armWatch
  split <;> split <;> split <;> exact ⟨rfl, rfl, rfl⟩

theorem Run.Inv.own {s : Run} {pid ppid : Int} (h : s.Inv) (hpid : 0 < pid)
    (hok : SwitchOk s.st s.sets pid ppid) :
    s.own pid ppid = (s.st.fdSwitch true pid ppid).cur := by
  unfold Run.own
  cases hexp : expected s.sets pid ppid with
  | none => rfl
  | some v => exact ((h.sets.switch hpid hok s.st.cur).1 v hexp).symm

theorem Run.Inv.step {s : Run} {e : Event} (h : s.Inv) (hpossible : s.Possible e)
    (hok : s.StepOk e) : (s.step e).Inv := by
  cases e with
  | trap pid ppid r9 r2 r3 tpc sd0 =>
    obtain ⟨hcur, hsets, hfdcur⟩ := fdTrap_eq (s.st.fdSwitch true pid ppid) r9 r2 r3 tpc sd0
    constructor
    · simp only [Run.step, h.own hpossible hok]
      refine (h.sets.switch hpossible hok _).2.congr ?_ hsets hfdcur
      exact hcur
    · intro c hc
      simp only [Run.step] at hc
      split at hc
      · rcases List.mem_cons.1 hc with rfl | hc
        · exact hpossible
        · exact h.calls c hc
      · exact h.calls c hc
  | serviced pid ppid doff =>
    constructor
    · simp only [Run.step, h.own hpossible hok]
      exact (h.sets.switch hpossible hok _).2
    · exact h.calls
  | returned c k k' =>
    obtain ⟨hmem, hk, hk'⟩ := hpossible
    obtain ⟨hcur, hsets, hfdcur⟩ := fdReturn_watched hok hk hk'
    have hpid : c.pid = s.st.fdcur := hok.1.symm
    have hpos : 0 < c.pid := h.calls c hmem
    have hown : s.sets c.pid = some s.st.cur := hpid ▸ (h.sets.current (hpid ▸ hpos)).1
    constructor
    · have hset := (h.sets.switch_current 0 hpos hpid (record s.st.cur c k k')).2
      simp only [Run.step, hown, Option.map_some]
      have hswitch : s.st.fdSwitch true c.pid 0 = s.st := by
        unfold fdSwitch
        rw [if_pos (.inr (.inr hpid))]
      rw [hswitch] at hset
      exact hset.congr hcur hsets hfdcur
    · intro d hd
      exact h.calls d (List.mem_of_mem_erase hd)
  | elsewhere pc user r2 r3 =>
    have hst : s.st.fdReturn pc user r2 r3 = s.st := by
      unfold fdReturn
      rw [if_neg hok]
    exact ⟨by simpa only [Run.step, hst] using h.sets, h.calls⟩

theorem Run.Inv.run {s : Run} {es : List Event} (h : s.Inv) (hok : s.RunOk es) :
    (s.run es).Inv := by
  induction es generalizing s with
  | nil => exact h
  | cons e es ih => exact ih (h.step hok.1 hok.2.1) hok.2.2

/-- In every run from boot whose events meet the condition, the emulator's sets
stay those that each process's own calls gave it. -/
theorem faithful_of_runOk (es : List Event) (hok : Run.boot.RunOk es) :
    (Run.boot.run es).Faithful :=
  (Run.Inv.boot.run hok).faithful

/-! ## When the watch survives -/

/-- Nothing that disturbs a call of `pid` that trapped at `tpc`. -/
def Event.Quiet (pid : Int) (tpc : U32) : Event → Prop
  | .trap p _ r9 _ _ _ _ => p = pid ∧ returnsFd r9 = false
  | .serviced p _ _ => p = pid
  | .returned _ _ _ => False
  | .elsewhere pc user _ _ => ¬(pc = tpc + 8 ∧ user)

theorem fdSwitch_current (st : FdState) (ppid : Int) :
    st.fdSwitch true st.fdcur ppid = st := by
  unfold fdSwitch
  rw [if_pos (.inr (.inr rfl))]

theorem watches_fdTrap_iff (st : FdState) (r9 r2 r3 tpc : U32) (sd0 : Bool) (c : Call) :
    Watches (st.fdTrap r9 r2 r3 tpc sd0) c ↔ Watches (st.armWatch r9 r2 tpc sd0) c := by
  simp only [fdTrap]
  split <;> split <;> exact Iff.rfl

theorem watches_step {s : Run} {c : Call} {e : Event} (hcur : s.st.fdcur = c.pid)
    (hw : Watches s.st c) (hquiet : e.Quiet c.pid c.tpc) :
    (s.step e).st.fdcur = c.pid ∧ Watches (s.step e).st c := by
  cases e with
  | trap pid ppid r9 r2 r3 tpc sd0 =>
    obtain ⟨rfl, hr9⟩ := hquiet
    have hst : (s.step (.trap c.pid ppid r9 r2 r3 tpc sd0)).st =
        s.st.fdTrap r9 r2 r3 tpc sd0 := by
      simp only [Run.step, ← hcur, fdSwitch_current]
    rw [hst, (fdTrap_eq s.st r9 r2 r3 tpc sd0).2.2]
    refine ⟨hcur, (watches_fdTrap_iff _ _ _ _ _ _ _).2 ?_⟩
    unfold armWatch
    rwa [hr9]
  | serviced pid ppid doff =>
    have hpid : pid = s.st.fdcur := Eq.trans hquiet hcur.symm
    subst hpid
    simp only [Run.step, fdSwitch_current]
    exact ⟨hcur, hw⟩
  | returned d k k' => exact absurd hquiet id
  | elsewhere pc user r2 r3 =>
    have hst : s.st.fdReturn pc user r2 r3 = s.st := by
      unfold fdReturn
      rw [if_neg]
      rintro ⟨-, hpc, huser⟩
      exact hquiet ⟨by rw [hpc, hw.1], huser⟩
    simp only [Run.step, hst]
    exact ⟨hcur, hw⟩

/-- As long as no other process traps, the caller makes no further call of the
kind and no user code passes behind the trap, the watch stands for the call. -/
theorem watches_of_quiet {s : Run} {c : Call} {es : List Event} (hcur : s.st.fdcur = c.pid)
    (hw : Watches s.st c) (hquiet : ∀ e ∈ es, e.Quiet c.pid c.tpc) :
    (s.run es).st.fdcur = c.pid ∧ Watches (s.run es).st c := by
  induction es generalizing s with
  | nil => exact ⟨hcur, hw⟩
  | cons e es ih =>
    obtain ⟨hcur', hw'⟩ := watches_step hcur hw (hquiet e (by simp))
    exact ih hcur' hw' (fun e' he' => hquiet e' (by simp [he']))

theorem watches_fdTrap {st : FdState} {r9 r2 r3 tpc : U32} {sd0 : Bool}
    (hr9 : returnsFd r9 = true) :
    Watches (st.fdTrap r9 r2 r3 tpc sd0) (callOf st.cur st.fdcur r9 r2 tpc sd0) := by
  rw [watches_fdTrap_iff]
  unfold armWatch
  rw [hr9]
  refine ⟨rfl, rfl, ?_, ?_⟩
  · rw [Bool.eq_iff_iff]
    simp only [callOf, if_true]
    grind
  · rw [Bool.eq_iff_iff]
    simp only [callOf, if_true]
    grind

/-! ## Two processes -/

def openRun : List Event :=
  [.trap 4 1 5 0 0 0x2000 false, .elsewhere 0x3000 true 0 0,
    .returned (callOf FdVals.initial 4 5 0 0x2000 false) 3 0]

theorem faithful_openRun : (Run.boot.run openRun).Faithful := by
  refine faithful_of_runOk openRun
    ⟨(by decide : (0 : Int) < 4), ?_, trivial, ?_, ?_, ?_, trivial⟩
  · unfold Run.StepOk
    decide +kernel
  · unfold Run.StepOk
    decide +kernel
  · unfold Run.Possible
    decide +kernel
  · refine ⟨by decide +kernel, ⟨by decide +kernel, by decide +kernel, by decide +kernel,
      by decide +kernel⟩, by decide, ?_, fun h => absurd h (by decide)⟩
    unfold CleanFor
    decide +kernel

def disturbedRun : List Event :=
  [.trap 4 1 5 0 0 0x2000 false, .trap 5 4 20 0 0 0x4000 false,
    .returned (callOf FdVals.initial 4 5 0 0x2000 false) 3 0]

/-- The descriptor is recorded in the child's set and missing from the shell's. -/
theorem not_faithful_disturbedRun :
    callOf FdVals.initial 4 5 0 0x2000 false ∈ (Run.boot.run (disturbedRun.take 2)).calls ∧
      ((Run.boot.run disturbedRun).st.setOf 4).map (fun v => v.krn 3) = some false ∧
      ((Run.boot.run disturbedRun).st.setOf 5).map (fun v => v.krn 3) = some true ∧
      ¬(Run.boot.run disturbedRun).Faithful := by
  refine ⟨by decide +kernel, by decide +kernel, by decide +kernel, fun hfaithful => ?_⟩
  have hset : ((Run.boot.run disturbedRun).sets 4).map (fun v => v.krn 3) = some true := by
    decide +kernel
  have hview : ((Run.boot.run disturbedRun).st.setOf 4).map (fun v => v.krn 3) = some false := by
    decide +kernel
  cases hv : (Run.boot.run disturbedRun).sets 4 with
  | none =>
    rw [hv] at hset
    cases hset
  | some v =>
    rw [hfaithful 4 v hv] at hview
    rw [hv] at hset
    rw [hset] at hview
    cases hview

end FdState

end Nx88
