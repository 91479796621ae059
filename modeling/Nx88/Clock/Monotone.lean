import Nx88.Clock.Hardclock
/-!
# Reads of the free-running counter

The counter is the instruction count over the divisor, and the count is part of
the CPU state that a kernel call copies back.  A run of steps reads the counter
in order; a run with kernel calls does so when no call reads it beyond the
values it was entered at.
-/

namespace Nx88

open Lib.Runs

namespace Machine

/-! ## The counter and its reads -/

/-- The free-running counter before it is cut to its 32 bits. -/
def counter (m : Machine) : Nat := m.cpu.count.toNat / m.cfg.tickDiv.toNat

theorem timerNow_eq {m : Machine} (hdiv : m.cfg.tickDiv ≠ 0) :
    m.timerNow = BitVec.ofNat 32 m.counter := by
  unfold timerNow counter
  rw [if_pos hdiv]
  apply BitVec.eq_of_toNat_eq
  have hwide : (m.cfg.tickDiv.setWidth 64).toNat = m.cfg.tickDiv.toNat := by
    rw [BitVec.toNat_setWidth]
    exact Nat.mod_eq_of_lt (lt_of_lt_of_le m.cfg.tickDiv.isLt (by decide))
  rw [BitVec.toNat_setWidth, BitVec.toNat_udiv, hwide, BitVec.toNat_ofNat]

theorem SameClock.counter {m m' : Machine} (h : SameClock m m') : m'.counter = m.counter := by
  unfold Machine.counter
  rw [h.count, h.cfg]

/-- A guest read of the counter: its width, the byte it starts at, the register
it fills, the value found there afterwards, and the counter it was made at. -/
structure TimerRead where
  sub : U32
  off : U32
  reg : U32
  value : U32
  counter : Nat

/-- What a load of the counter register returns of the word `t`. -/
def timerPart (sub off t : U32) : U32 :=
  let half : U16 := (t >>> (if off < 2 then 16 else 0)).setWidth 16
  let byte : U8 := (t >>> (24 - off.toNat * 8)).setWidth 8
  match sub.toNat with
  | 0x02 => half.setWidth 32
  | 0x06 => sext16 half
  | 0x03 => byte.setWidth 32
  | 0x07 => sext8 byte
  | _ => t

/-- The value read is the part of the 32-bit counter that was asked for; what is
loaded into `r0` is dropped. -/
def TimerRead.Returned (r : TimerRead) : Prop :=
  r.reg ≠ 0 → r.value = timerPart r.sub r.off (BitVec.ofNat 32 r.counter)

def timerLoads : List U32 := [0x05, 0x02, 0x06, 0x03, 0x07]

/-- The counter reads among an access: a word, halfword or byte of it, or either
word of a double. -/
def Access.timerReads (a : Access) : List TimerRead :=
  if ¬a.m.cfg.sysmode then []
  else if a.sub ∈ timerLoads ∧ a.pa &&& ~~~3 = TIMER_ADDR then
    [⟨a.sub, a.pa &&& 3, a.D, (a.m.memAccess a.sub a.D a.pa).rd a.D, a.m.counter⟩]
  else if a.sub = 0x04 ∧ a.pa = TIMER_ADDR then
    [⟨0x05, 0, a.D, (a.m.memAccess a.sub a.D a.pa).rd a.D, a.m.counter⟩]
  else if a.sub = 0x04 ∧ a.pa + 4 = TIMER_ADDR then
    [⟨0x05, 0, a.D + 1, (a.m.memAccess a.sub a.D a.pa).rd (a.D + 1), a.m.counter⟩]
  else []

def timerReads (m : Machine) (h : Host) : List TimerRead :=
  match m.stepAccess h with
  | some a => a.timerReads
  | none => []

/-! ## What a read returns -/

theorem timerRead_eq (m : Machine) {sub : U32} (D ea : U32) (hsub : sub ∈ timerLoads) :
    m.timerRead sub D ea = some (m.wr D (timerPart sub (ea &&& 3) m.timerNow)) := by
  simp only [timerLoads, List.mem_cons, List.not_mem_nil, or_false] at hsub
  rcases hsub with rfl | rfl | rfl | rfl | rfl
  all_goals rfl

theorem memAccess_timer {m : Machine} {sub ea : U32} (D : U32) (hsys : m.cfg.sysmode = true)
    (hsub : sub ∈ timerLoads) (haddr : ea &&& ~~~3 = TIMER_ADDR) :
    m.memAccess sub D ea = m.wr D (timerPart sub (ea &&& 3) m.timerNow) := by
  have hother : ∀ x : U32, x &&& ~~~3 ≠ TIMER_ADDR → ea ≠ x := by
    intro x hx heq
    exact hx (heq ▸ haddr)
  unfold memAccess
  rw [if_neg (fun h => hother SHA_CMD (by decide) h.2.1),
    if_neg (fun h => hother SHA_STATUS (by decide) h.2.1),
    if_neg (fun h => h.2.1.elim (hother _ (by decide)) (hother _ (by decide))),
    if_neg (fun h => hother HPS_RING_CONS (by decide) h.2.1), if_pos ⟨hsys, haddr⟩,
    timerRead_eq m D ea hsub]

/-- A double load has no device arm of its own: it reads two words. -/
theorem memAccess_ldd (m : Machine) (D ea : U32) :
    m.memAccess 0x04 D ea =
      (m.wr D (m.devRead32 ea)).wr (D + 1) ((m.wr D (m.devRead32 ea)).devRead32 (ea + 4)) := by
  unfold memAccess
  rw [if_neg (fun h => absurd h.2.2 (by decide)), if_neg (fun h => absurd h.2.2 (by decide)),
    if_neg (fun h => absurd h.2.2 (by decide)), if_neg (fun h => absurd h.2.2 (by decide))]
  have hnone : (if m.cfg.sysmode ∧ ea &&& ~~~3 = TIMER_ADDR then m.timerRead 0x04 D ea
      else none) = none := ite_self _
  rw [hnone]
  rfl

theorem devRead32_timer {m : Machine} (hsys : m.cfg.sysmode = true) :
    m.devRead32 TIMER_ADDR = m.timerNow := by
  unfold devRead32
  rw [if_pos hsys, if_pos rfl]

theorem Access.timerReads_returned {a : Access} (hdiv : a.m.cfg.tickDiv ≠ 0)
    (hD : a.D.toNat < 32) : ∀ r ∈ a.timerReads, r.counter = a.m.counter ∧ r.Returned := by
  have hlow : a.D.toNat < 96 := by omega
  have hhigh : (a.D + 1).toNat < 96 := by bv_omega
  intro r hr
  unfold Access.timerReads at hr
  split at hr
  · exact absurd hr List.not_mem_nil
  rename_i hsys
  simp only [Bool.not_eq_true, Bool.not_eq_false] at hsys
  split at hr
  · rename_i hload
    rw [List.mem_singleton.1 hr, memAccess_timer a.D hsys hload.1 hload.2]
    refine ⟨rfl, fun hreg => ?_⟩
    exact (rd_wr _ hreg hlow _).trans (congrArg _ (timerNow_eq hdiv))
  split at hr
  · rename_i hload
    rw [List.mem_singleton.1 hr, hload.1, hload.2, memAccess_ldd]
    refine ⟨rfl, fun hreg => ?_⟩
    have hne : a.D ≠ a.D + 1 := by bv_omega
    rw [rd_wr_of_ne _ hne, devRead32_timer hsys, timerNow_eq hdiv]
    exact rd_wr _ hreg hlow _
  split at hr
  · rename_i hload
    have hclock := wr_sameClock a.m a.D (a.m.devRead32 a.pa)
    rw [List.mem_singleton.1 hr, hload.1, memAccess_ldd, hload.2]
    refine ⟨rfl, fun hreg => ?_⟩
    rw [devRead32_timer (hclock.cfg ▸ hsys), hclock.timerNow, timerNow_eq hdiv]
    exact rd_wr _ hreg hhigh _
  · exact absurd hr List.not_mem_nil

theorem Access.timerReads_length (a : Access) : a.timerReads.length ≤ 1 := by
  unfold Access.timerReads
  split
  · exact Nat.zero_le 1
  split
  · exact le_refl 1
  split
  · exact le_refl 1
  split
  · exact le_refl 1
  · exact Nat.zero_le 1

theorem memopAccess_reg {m : Machine} {sub D ea : U32} {a : Access}
    (h : m.memopAccess sub D ea = some a) : a.D = D := by
  unfold memopAccess at h
  split at h
  · cases h
  split at h
  · cases h
  · cases h
    rfl

theorem execAccess_reg {m : Machine} {a : Access} (h : m.execAccess = some a) :
    a.D.toNat < 32 := by
  unfold execAccess at h
  split at h
  · cases h
  cases hform : m.fetch.2.tick.memForm m.fetch.1 with
  | none =>
    rw [hform] at h
    cases h
  | some form =>
    rw [hform] at h
    rw [memopAccess_reg h]
    unfold fieldD
    rw [BitVec.toNat_and]
    exact lt_of_le_of_lt Nat.and_le_right (by decide)

/-! ## The counter over a step -/

/-- The count has room for one more instruction. -/
def CountFits (m : Machine) : Prop := m.cpu.count.toNat + 1 < 2 ^ 64

instance (m : Machine) : Decidable m.CountFits := inferInstanceAs (Decidable (_ < _))

theorem tick_counter_le {m : Machine} (hfits : m.CountFits) : m.counter ≤ m.tick.counter := by
  have hcount : m.tick.cpu.count.toNat = m.cpu.count.toNat + 1 := by
    show (m.cpu.count + 1).toNat = _
    unfold CountFits at hfits
    rw [BitVec.toNat_add]
    exact Nat.mod_eq_of_lt hfits
  unfold counter
  rw [hcount, tick_cfg]
  exact Nat.div_le_div_right (by omega)

theorem step_counter {m : Machine} {h : Host} (hfits : m.CountFits)
    (hdiv : m.cfg.tickDiv ≠ 0) :
    m.counter ≤ (m.step h).1.counter ∧ (m.timerReads h).length ≤ 1 ∧
      ∀ r ∈ m.timerReads h, r.counter = (m.step h).1.counter ∧ r.Returned := by
  have hnone : m.stepAccess h = none → m.timerReads h = [] := by
    intro haccess
    unfold timerReads
    rw [haccess]
  cases step_case m h with
  | stopped clock access untaken =>
    rw [hnone access]
    exact ⟨le_of_eq clock.counter.symm, Nat.zero_le 1, fun r hr => absurd hr List.not_mem_nil⟩
  | hardclock k clock gate due cfg count armed deadline access taken =>
    rw [hnone access]
    refine ⟨?_, Nat.zero_le 1, fun r hr => absurd hr List.not_mem_nil⟩
    unfold counter
    rw [cfg, count]
  | executed k clock access run untaken =>
    have hfetch := (fetch_peeked k).sameClock
    have hfits' : k.fetch.2.CountFits := by
      unfold CountFits
      rw [hfetch.count, clock.count]
      exact hfits
    have hticked : m.counter ≤ k.fetch.2.tick.counter :=
      le_trans (le_of_eq (hfetch.counter.trans clock.counter).symm) (tick_counter_le hfits')
    rw [run]
    cases ha : k.execAccess with
    | none =>
      rw [hnone (access.trans ha)]
      refine ⟨?_, Nat.zero_le 1, fun r hr => absurd hr List.not_mem_nil⟩
      rcases exec_of_no_access (h := h) ha with hclock | hclock
      · exact le_of_eq (hclock.counter.trans clock.counter).symm
      · exact hticked.trans (le_of_eq hclock.counter.symm)
    | some a =>
      obtain ⟨hbefore, hafter⟩ := exec_of_access ha
      have hreads : m.timerReads h = a.timerReads := by
        unfold timerReads
        rw [access, ha]
      have hdiv' : a.m.cfg.tickDiv ≠ 0 := by
        rw [execAccess_cfg ha, clock.cfg]
        exact hdiv
      have hprogrammed : (a.m.programmed a.deadline).counter = a.m.counter := by
        cases a.deadline <;> rfl
      have hend : (k.exec h).1.counter = a.m.counter :=
        ((memAccess_clock a).trans (hafter h)).counter.trans hprogrammed
      rw [hreads, hend]
      refine ⟨hticked.trans (le_of_eq hbefore.counter.symm), a.timerReads_length, ?_⟩
      exact Access.timerReads_returned hdiv' (execAccess_reg ha)

end Machine

/-! ## The counter over a run -/

namespace Turn

def timerReads : Turn → Session → List Machine.TimerRead
  | step h, s => s.m.timerReads h
  | _, _ => []

/-- No instruction overflows the count, and none that reads the counter inside a
kernel call does so beyond where the call was entered. -/
def Timely : Turn → Session → Prop
  | step h, s =>
    s.m.CountFits ∧
      ∀ r ∈ s.m.timerReads h, ∀ c ∈ s.saved,
        r.counter ≤ c.1.count.toNat / s.m.cfg.tickDiv.toNat
  | _, _ => True

instance (t : Turn) (s : Session) : Decidable (t.Timely s) :=
  match t with
  | step h =>
    inferInstanceAs (Decidable (s.m.CountFits ∧
      ∀ r ∈ s.m.timerReads h, ∀ c ∈ s.saved,
        r.counter ≤ c.1.count.toNat / s.m.cfg.tickDiv.toNat))
  | enter _ => .isTrue trivial
  | leave => .isTrue trivial
  | host _ => .isTrue trivial

end Turn

namespace Session

/-- The counter has reached `floor`, here and in every saved CPU state. -/
structure Reached (s : Session) (floor : Nat) : Prop where
  now : floor ≤ s.m.counter
  saved : ∀ c ∈ s.saved, floor ≤ c.1.count.toNat / s.m.cfg.tickDiv.toNat

theorem turn_reached {s : Session} {t : Turn} {floor : Nat} (hok : t.Ok s) (htimely : t.Timely s)
    (hdiv : s.m.cfg.tickDiv ≠ 0) (hreached : s.Reached floor) :
    (t.timerReads s).length ≤ 1 ∧ (t.run s).Reached floor ∧
      ∀ r ∈ t.timerReads s, floor ≤ r.counter ∧ r.Returned ∧ (t.run s).Reached r.counter := by
  have hcfg := Turn.run_cfg hok
  cases t with
  | step h =>
    obtain ⟨hfits, hread⟩ := htimely
    obtain ⟨hle, hlength, hreads⟩ := Machine.step_counter (h := h) hfits hdiv
    refine ⟨hlength, ⟨hreached.now.trans hle, ?_⟩, ?_⟩
    · rw [hcfg]
      exact hreached.saved
    · intro r hr
      obtain ⟨hat, hreturned⟩ := hreads r hr
      refine ⟨(hreached.now.trans hle).trans (le_of_eq hat.symm), hreturned, le_of_eq hat, ?_⟩
      rw [hcfg]
      exact hread r hr
  | enter c =>
    refine ⟨Nat.zero_le 1, ⟨?_, ?_⟩, fun r hr => absurd hr List.not_mem_nil⟩
    · show floor ≤ (s.m.enterKcall c).counter
      obtain ⟨hcfg', hcount, -⟩ := enterKcall_comparator s.m c
      unfold Machine.counter
      rw [hcfg', hcount]
      exact hreached.now
    · rw [hcfg]
      intro d hd
      rcases List.mem_cons.1 hd with rfl | hd
      · exact hreached.now
      · exact hreached.saved d hd
  | leave =>
    obtain ⟨m, saved⟩ := s
    cases saved with
    | nil => exact ⟨Nat.zero_le 1, hreached, fun r hr => absurd hr List.not_mem_nil⟩
    | cons c rest =>
      refine ⟨Nat.zero_le 1, ⟨?_, ?_⟩, fun r hr => absurd hr List.not_mem_nil⟩
      · exact hreached.saved c List.mem_cons_self
      · intro d hd
        exact hreached.saved d (List.mem_cons_of_mem c hd)
  | host k =>
    refine ⟨Nat.zero_le 1, ⟨?_, ?_⟩, fun r hr => absurd hr List.not_mem_nil⟩
    · exact hreached.now.trans (le_of_eq hok.counter.symm)
    · rw [hcfg]
      exact hreached.saved

/-- From a floor that is reached everywhere, the reads of a run never decrease
and never fall below the floor. -/
theorem run_reads {s : Session} {ts : List Turn} {floor : Nat} (hok : Along Turn.run Turn.Ok s ts)
    (htimely : Along Turn.run Turn.Timely s ts) (hdiv : s.m.cfg.tickDiv ≠ 0)
    (hreached : s.Reached floor) :
    (trace Turn.run Turn.timerReads s ts).Pairwise (fun r r' => r.counter ≤ r'.counter) ∧
      ∀ r ∈ trace Turn.run Turn.timerReads s ts, floor ≤ r.counter ∧ r.Returned := by
  induction ts generalizing s floor with
  | nil => exact ⟨List.Pairwise.nil, fun r hr => absurd hr List.not_mem_nil⟩
  | cons t ts ih =>
    obtain ⟨hlength, hrun, hreads⟩ := turn_reached hok.1 htimely.1 hdiv hreached
    have hdiv' : (t.run s).m.cfg.tickDiv ≠ 0 := by
      rw [Turn.run_cfg hok.1]
      exact hdiv
    rw [trace_cons]
    cases hhead : t.timerReads s with
    | nil => exact ih hok.2 htimely.2 hdiv' hrun
    | cons r rest =>
      -- at most one read a turn: what follows starts from its counter as the floor
      have hrest : rest = [] := by
        rw [hhead, List.length_cons] at hlength
        exact List.eq_nil_of_length_eq_zero (by omega)
      rw [hrest]
      obtain ⟨hfloor, hreturned, hat⟩ := hreads r (by rw [hhead]; exact List.mem_cons_self)
      obtain ⟨hpairs, hbound⟩ := ih hok.2 htimely.2 hdiv' hat
      refine ⟨List.pairwise_cons.2 ⟨fun r' hr' => (hbound r' hr').1, hpairs⟩, ?_⟩
      intro r' hr'
      rcases List.mem_cons.1 hr' with rfl | hr'
      · exact ⟨hfloor, hreturned⟩
      · obtain ⟨hle, hreturned'⟩ := hbound r' hr'
        exact ⟨hfloor.trans hle, hreturned'⟩

end Session

/-- The reads of a run return parts of counter values that never decrease. -/
theorem timer_never_backwards {s : Session} {ts : List Turn} (hok : Along Turn.run Turn.Ok s ts)
    (htimely : Along Turn.run Turn.Timely s ts) (hdiv : s.m.cfg.tickDiv ≠ 0) :
    (trace Turn.run Turn.timerReads s ts).Pairwise (fun r r' => r.counter ≤ r'.counter) ∧
      ∀ r ∈ trace Turn.run Turn.timerReads s ts, r.Returned := by
  obtain ⟨hpairs, hreads⟩ := Session.run_reads hok htimely hdiv
    ⟨Nat.zero_le _, fun c _ => Nat.zero_le _⟩
  exact ⟨hpairs, fun r hr => (hreads r hr).2⟩

/-! ## A kernel call that sets the clock back -/

/-- A call of the three instructions `or r2,r2,0`, `ld r3,r4,0` and `jmp r1`, with
the counter register as an argument. -/
def pollCall : Machine.Call := ⟨0x2000, 0, 0, TIMER_ADDR, 0, 0⟩

/-- A machine that is to load the counter register once itself, with `div`
instructions to a microsecond. -/
def polling (div : U32) : Machine :=
  { Machine.initial { Config.initial with sysmode := true, tickDiv := div } false
      (Console.initial false false ⟨[], []⟩ ⟨[], []⟩) with
    mem := ((((Mem.blank false).w32 0x1000 0x14640000).w32 0x2000 0x58420000).w32 0x2004
      0x14640000).w32 0x2008 0xF400C001
    cpu := { Cpu.blank with
      pc := 0x1000
      r := Function.update (fun _ => 0) 4 TIMER_ADDR } }

def pollRun : List Turn :=
  .enter pollCall :: (steps Host.blank 3 ++ [.leave]) ++ [.step Host.blank]

/-- A call within one microsecond. -/
theorem polling_forwards :
    (trace Turn.run Turn.timerReads ⟨polling 4, []⟩ pollRun).map (·.value) = [0, 0] ∧
      (trace Turn.run Turn.timerReads ⟨polling 4, []⟩ pollRun).Pairwise
        (fun r r' => r.counter ≤ r'.counter) ∧
      ∀ r ∈ trace Turn.run Turn.timerReads ⟨polling 4, []⟩ pollRun, r.Returned :=
  ⟨by decide +kernel,
    timer_never_backwards
      (show Along Turn.run Turn.Ok ⟨polling 4, []⟩ pollRun from
        ⟨trivial, trivial, trivial, trivial, trivial, trivial, trivial⟩) (by decide +kernel)
      (by decide)⟩

/-- The call reads the counter at 2, and the next instruction reads it at 1. -/
theorem polling_backwards :
    after Turn.run ⟨polling 1, []⟩ (.enter pollCall :: (steps Host.blank 3 ++ [.leave])) =
        ⟨((polling 1).kcall Host.blank pollCall).2, []⟩ ∧
      Along Turn.run Turn.Ok ⟨polling 1, []⟩ pollRun ∧ (polling 1).cfg.tickDiv ≠ 0 ∧
      (trace Turn.run Turn.timerReads ⟨polling 1, []⟩ pollRun).map (·.value) = [2, 1] ∧
      ¬(trace Turn.run Turn.timerReads ⟨polling 1, []⟩ pollRun).Pairwise
        (fun r r' => r.counter ≤ r'.counter) := by
  refine ⟨kcall_of_steps (by decide) (by decide +kernel) (by decide +kernel),
    ⟨trivial, trivial, trivial, trivial, trivial, trivial, trivial⟩, by decide,
    by decide +kernel, ?_⟩
  have hcounters :
      (trace Turn.run Turn.timerReads ⟨polling 1, []⟩ pollRun).map (·.counter) = [2, 1] := by
    decide +kernel
  intro hpairs
  rw [← List.pairwise_map, hcounters] at hpairs
  exact absurd hpairs (by decide)

end Nx88
