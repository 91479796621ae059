import Nx88.User.Syscall
/-!
# The file table of the user-mode runner

Whole runs of system calls: `open` hands out descriptors by a counter that only
grows, and nothing looks whether the table has a place for it.
-/

namespace Nx88

open Lib.Loops

variable {F : Type}

/-! ## Calls and runs -/

/-- A system call of the process: its registers and memory at the trap, and what the
host answers.  The call is one that returns. -/
structure Call (F : Type) where
  io : Stdio F
  cpu : Cpu
  mem : Mem
  names : cpu.Names

namespace Call

def target (c : Call F) : Cpu := (iterate Cpu.indirTurn 6 c.cpu).get (Cpu.iterate_of_names c.names)

def enter (c : Call F) (u : UserState F) : UserState F := { u with cpu := c.cpu, mem := c.mem }

theorem doSyscall_enter (c : Call F) (u : UserState F) :
    doSyscall c.io 6 (c.enter u) =
      some ({ u with cpu := c.target, mem := c.mem, sysErr := 0 }.service c.io) := by
  rw [doSyscall_eq]
  change (iterate Cpu.indirTurn 6 c.cpu).map _ = _
  rw [← Option.some_get (Cpu.iterate_of_names c.names)]
  rfl

def run (c : Call F) (u : UserState F) : Except FdFault (UserState F) :=
  (doSyscall c.io 6 (c.enter u)).get (by rw [doSyscall_enter]; rfl)

theorem run_eq (c : Call F) (u : UserState F) :
    c.run u = { u with cpu := c.target, mem := c.mem, sysErr := 0 }.service c.io := by
  unfold run
  rw [Option.get_of_eq_some _ (c.doSyscall_enter u)]

/-- It is an `open`. -/
def isOpen (c : Call F) : Prop := c.target.rd 9 = 5

instance (c : Call F) : Decidable c.isOpen := inferInstanceAs (Decidable (_ = _))

def opened (c : Call F) : Option F :=
  if c.isOpen then c.io.fopen (c.mem.cstr (c.target.rd 2) 511) else none

def closed (c : Call F) : Option U32 := if c.target.rd 9 = 6 then some (c.target.rd 2) else none

end Call

def runCalls : List (Call F) → UserState F → Except FdFault (UserState F)
  | [], u => .ok u
  | c :: cs, u =>
    match c.run u with
    | .ok u => runCalls cs u
    | .error e => .error e

def filesOpened (calls : List (Call F)) : Nat := (calls.filterMap Call.opened).length

/-! ## One call -/

namespace UserState

variable {u : UserState F} {io : Stdio F}

theorem service_open (hnumber : u.cpu.rd 9 = 5) :
    u.service io = (u.sysOpen io (u.cpu.rd 2)).map answer := by
  unfold service answered
  rw [hnumber, if_neg (by decide)]
  rfl

theorem service_close (hnumber : u.cpu.rd 9 = 6) :
    u.service io = .ok (answer (u.sysClose (u.cpu.rd 2))) := by
  unfold service answered
  rw [hnumber, if_neg (by decide)]
  rfl

/-- The table and its counter are as they were. -/
def SameTable (u u' : UserState F) : Prop := u'.fds = u.fds ∧ u'.nextFd = u.nextFd

theorem fputs_sameTable (u : UserState F) (fd : U32) (bs : List U8) :
    SameTable u (u.fputs fd bs) := by
  unfold fputs
  split
  · exact ⟨rfl, rfl⟩
  · exact ⟨rfl, rfl⟩

theorem sysRead_sameTable (io : Stdio F) (u : UserState F) (a0 a1 a2 : U32) :
    SameTable u (u.sysRead io a0 a1 a2).2 := by
  unfold sysRead
  split
  · exact ⟨rfl, rfl⟩
  · exact ⟨rfl, rfl⟩

theorem sysLseek_sameTable (io : Stdio F) (u : UserState F) (a0 a1 a3 : U32) :
    SameTable u (u.sysLseek io a0 a1 a3).2 := by
  unfold sysLseek
  split
  · exact ⟨rfl, rfl⟩
  · exact ⟨rfl, rfl⟩

theorem SameTable.refl (u : UserState F) : SameTable u u := ⟨rfl, rfl⟩

theorem setMem_sameTable (u : UserState F) (mem : Mem) : SameTable u (u.setMem mem) := ⟨rfl, rfl⟩

theorem answered_other (hopen : u.cpu.rd 9 ≠ 5) (hclose : u.cpu.rd 9 ≠ 6) :
    ∃ r, u.answered io = .ok r ∧ SameTable u r.2 := by
  have hfive : (u.cpu.rd 9).toNat ≠ 5 := fun h => hopen (BitVec.eq_of_toNat_eq h)
  have hsix : (u.cpu.rd 9).toNat ≠ 6 := fun h => hclose (BitVec.eq_of_toNat_eq h)
  unfold answered
  dsimp only
  generalize (u.cpu.rd 9).toNat = number at hfive hsix
  split
  · exact ⟨_, rfl, sysRead_sameTable io u _ _ _⟩
  · exact ⟨_, rfl, fputs_sameTable u _ _⟩
  · exact absurd rfl hfive
  · exact absurd rfl hsix
  · exact ⟨_, rfl, sysLseek_sameTable io u _ _ _⟩
  · exact ⟨_, rfl, SameTable.refl u⟩
  · exact ⟨_, rfl, SameTable.refl u⟩
  · exact ⟨_, rfl, SameTable.refl u⟩
  · exact ⟨_, rfl, setMem_sameTable u _⟩
  · exact ⟨_, rfl, setMem_sameTable u _⟩
  · exact ⟨_, rfl, fputs_sameTable u _ _⟩
  · exact ⟨_, rfl, setMem_sameTable u _⟩
  · exact ⟨_, rfl, setMem_sameTable u _⟩
  · exact ⟨_, rfl, setMem_sameTable u _⟩
  · exact ⟨_, rfl, setMem_sameTable u _⟩
  · exact ⟨_, rfl, setMem_sameTable u _⟩
  · exact ⟨_, rfl, setMem_sameTable u _⟩
  · exact ⟨_, rfl, SameTable.refl u⟩

theorem service_other (hopen : u.cpu.rd 9 ≠ 5) (hclose : u.cpu.rd 9 ≠ 6) :
    ∃ u', u.service io = .ok u' ∧ SameTable u u' := by
  unfold service
  by_cases hexit : u.cpu.rd 9 = 1
  · rw [if_pos hexit]
    exact ⟨_, rfl, rfl, rfl⟩
  · rw [if_neg hexit]
    obtain ⟨r, hr, hfds, hnext⟩ := answered_other hopen hclose
    rw [hr]
    exact ⟨answer r, rfl, hfds, hnext⟩

end UserState

namespace Call

variable {c : Call F} {u : UserState F}

theorem run_open (h : c.isOpen) (u : UserState F) :
    c.run u = (({ u with cpu := c.target, mem := c.mem, sysErr := 0 } : UserState F).sysOpen c.io
      (c.target.rd 2)).map UserState.answer := by
  rw [run_eq]
  exact UserState.service_open h

theorem run_opened {f : F} (h : c.opened = some f) (hroom : u.nextFd < 64) :
    ∃ u', c.run u = .ok u' ∧ u'.fds = Function.update u.fds ⟨u.nextFd, hroom⟩ (some f) ∧
      u'.nextFd = u.nextFd + 1 ∧ u'.cpu.rd 2 = BitVec.ofNat 32 u.nextFd := by
  unfold opened at h
  split at h
  · next hopen =>
      rw [run_open hopen, UserState.sysOpen, h]
      dsimp only
      rw [dif_pos hroom]
      exact ⟨_, rfl, rfl, rfl, Cpu.rd_wr _ (by decide) (by decide) _⟩
  · cases h

theorem run_opened_full {f : F} (h : c.opened = some f) (hfull : ¬u.nextFd < 64) :
    c.run u = .error (.outside u.nextFd) := by
  unfold opened at h
  split at h
  · next hopen =>
      rw [run_open hopen, UserState.sysOpen, h]
      dsimp only
      rw [dif_neg hfull]
      rfl
  · cases h

theorem run_not_opened (h : c.opened = none) (u : UserState F) :
    ∃ u', c.run u = .ok u' ∧ u'.nextFd = u.nextFd ∧ (c.isOpen → u'.sysErr ≠ 0) ∧
      ∀ fd : Fin 64, c.closed ≠ some (BitVec.ofNat 32 fd) → u'.fds fd = u.fds fd := by
  by_cases hopen : c.isOpen
  · rw [opened, if_pos hopen] at h
    rw [run_open hopen, UserState.sysOpen, h]
    exact ⟨_, rfl, rfl, fun _ => (by decide : (2 : U32) ≠ 0), fun _ _ => rfl⟩
  · by_cases hclose : c.target.rd 9 = 6
    · rw [run_eq, UserState.service_close hclose, closed, if_pos hclose]
      refine ⟨_, rfl, ?_, fun h => absurd h hopen, fun fd hfd => ?_⟩
      · unfold UserState.sysClose
        split <;> rfl
      · unfold UserState.sysClose
        split
        · next hlt =>
            have hne : fd ≠ ⟨(c.target.rd 2).toNat, hlt⟩ := by
              rintro rfl
              exact hfd (by simp)
            exact Function.update_of_ne hne _ _
        · rfl
    · rw [run_eq]
      obtain ⟨u', hu', hfds, hnext⟩ : ∃ u',
          ({ u with cpu := c.target, mem := c.mem, sysErr := 0 } : UserState F).service c.io =
            .ok u' ∧ UserState.SameTable _ u' := UserState.service_other hopen hclose
      exact ⟨u', hu', hnext, fun h => absurd h hopen, fun fd _ => congrFun hfds fd⟩

end Call

/-! ## Runs of calls -/

theorem filesOpened_cons_some {c : Call F} {f : F} (h : c.opened = some f) (cs : List (Call F)) :
    filesOpened (c :: cs) = filesOpened cs + 1 := by
  rw [filesOpened, List.filterMap_cons_some h]
  rfl

theorem filesOpened_cons_none {c : Call F} (h : c.opened = none) (cs : List (Call F)) :
    filesOpened (c :: cs) = filesOpened cs := by
  rw [filesOpened, List.filterMap_cons_none h]
  rfl

theorem runCalls_cons_ok {c : Call F} {u u' : UserState F} (h : c.run u = .ok u')
    (cs : List (Call F)) : runCalls (c :: cs) u = runCalls cs u' := by
  rw [runCalls, h]

theorem runCalls_ok {calls : List (Call F)} {u : UserState F}
    (h : u.nextFd + filesOpened calls ≤ 64) : ∃ u', runCalls calls u = .ok u' := by
  induction calls generalizing u with
  | nil => exact ⟨u, rfl⟩
  | cons c cs ih =>
      cases hopened : c.opened with
      | some f =>
          rw [filesOpened_cons_some hopened] at h
          obtain ⟨u', hu', -, hnext, -⟩ := Call.run_opened (u := u) hopened (by omega)
          rw [runCalls_cons_ok hu']
          exact ih (by omega)
      | none =>
          rw [filesOpened_cons_none hopened] at h
          obtain ⟨u', hu', hnext, -⟩ := Call.run_not_opened hopened u
          rw [runCalls_cons_ok hu']
          exact ih (by omega)

theorem nextFd_runCalls {calls : List (Call F)} {u u' : UserState F}
    (h : runCalls calls u = .ok u') (hu : u.nextFd ≤ 64) :
    u'.nextFd = u.nextFd + filesOpened calls ∧ u'.nextFd ≤ 64 := by
  induction calls generalizing u with
  | nil =>
      obtain rfl := Except.ok.inj h
      exact ⟨rfl, hu⟩
  | cons c cs ih =>
      cases hopened : c.opened with
      | some f =>
          by_cases hroom : u.nextFd < 64
          · obtain ⟨u₁, hu₁, -, hnext, -⟩ := Call.run_opened hopened hroom
            rw [runCalls_cons_ok hu₁] at h
            obtain ⟨hcount, hle⟩ := ih h (by omega)
            rw [filesOpened_cons_some hopened]
            exact ⟨by omega, hle⟩
          · rw [runCalls, Call.run_opened_full hopened hroom] at h
            cases h
      | none =>
          obtain ⟨u₁, hu₁, hnext, -⟩ := Call.run_not_opened hopened u
          rw [runCalls_cons_ok hu₁] at h
          obtain ⟨hcount, hle⟩ := ih h (by omega)
          rw [filesOpened_cons_none hopened]
          exact ⟨by omega, hle⟩

theorem fds_runCalls {calls : List (Call F)} {u u' : UserState F} {fd : Fin 64}
    (h : runCalls calls u = .ok u') (hfd : fd.val < u.nextFd)
    (hopen : ∀ c ∈ calls, c.closed ≠ some (BitVec.ofNat 32 fd)) : u'.fds fd = u.fds fd := by
  induction calls generalizing u with
  | nil =>
      obtain rfl := Except.ok.inj h
      rfl
  | cons c cs ih =>
      have hrest : ∀ c' ∈ cs, c'.closed ≠ some (BitVec.ofNat 32 fd) :=
        fun c' hc' => hopen c' (List.mem_cons_of_mem c hc')
      cases hopened : c.opened with
      | some f =>
          by_cases hroom : u.nextFd < 64
          · obtain ⟨u₁, hu₁, hfds, hnext, -⟩ := Call.run_opened hopened hroom
            rw [runCalls_cons_ok hu₁] at h
            have hne : fd ≠ ⟨u.nextFd, hroom⟩ := by
              rintro rfl
              exact Nat.lt_irrefl _ hfd
            rw [ih h (by omega) hrest, hfds, Function.update_of_ne hne]
          · rw [runCalls, Call.run_opened_full hopened hroom] at h
            cases h
      | none =>
          obtain ⟨u₁, hu₁, hnext, -, hkept⟩ := Call.run_not_opened hopened u
          rw [runCalls_cons_ok hu₁] at h
          rw [ih h (by omega) hrest]
          exact hkept fd (hopen c List.mem_cons_self)

/-! ## The table over a run -/

/-- The calls index the table inside, every `open` fails with an error or gives a
descriptor for its file, and a descriptor stands for its file until it is closed. -/
structure TableKept (calls : List (Call F)) (u₀ : UserState F) : Prop where
  inside : ∃ u, runCalls calls u₀ = .ok u
  answered : ∀ pre c, pre ++ [c] <+: calls → c.isOpen → ∀ u u', runCalls pre u₀ = .ok u →
    c.run u = .ok u' → u'.sysErr ≠ 0 ∨ ∃ f, c.opened = some f ∧ u'.file (u'.cpu.rd 2) = some f
  refers : ∀ pre c mid, pre ++ c :: mid <+: calls → ∀ u u' u'' f, runCalls pre u₀ = .ok u →
    c.run u = .ok u' → runCalls mid u' = .ok u'' → c.opened = some f →
    (∀ c' ∈ mid, c'.closed ≠ some (u'.cpu.rd 2)) → u''.file (u'.cpu.rd 2) = some f

theorem UserState.file_ofNat (u : UserState F) (fd : Fin 64) :
    u.file (BitVec.ofNat 32 fd) = u.fds fd := by
  have hval : (BitVec.ofNat 32 fd.val).toNat = fd.val := by
    rw [BitVec.toNat_ofNat]
    omega
  unfold UserState.file
  rw [dif_pos (by omega)]
  exact congrArg u.fds (Fin.ext hval)

theorem refers_of_runs {c : Call F} {mid : List (Call F)} {u u' u'' : UserState F} {f : F}
    (hu : u.nextFd < 64) (hrun : c.run u = .ok u') (hmid : runCalls mid u' = .ok u'')
    (hopened : c.opened = some f) (hopen : ∀ c' ∈ mid, c'.closed ≠ some (u'.cpu.rd 2)) :
    u''.file (u'.cpu.rd 2) = some f := by
  obtain ⟨u₁, hu₁, hfds, hnext, hret⟩ := Call.run_opened hopened hu
  obtain rfl := Except.ok.inj (hu₁.symm.trans hrun)
  have hfd : u₁.cpu.rd 2 = BitVec.ofNat 32 (⟨u.nextFd, hu⟩ : Fin 64) := hret
  rw [hfd] at hopen ⊢
  rw [UserState.file_ofNat, fds_runCalls hmid (by rw [hnext]; exact Nat.lt_succ_self _) hopen, hfds,
    Function.update_self]

theorem nextFd_lt_of_run {c : Call F} {u u' : UserState F} {f : F} (hopened : c.opened = some f)
    (hrun : c.run u = .ok u') : u.nextFd < 64 := by
  by_contra hfull
  rw [Call.run_opened_full hopened hfull] at hrun
  cases hrun

theorem answered_of_run {c : Call F} {u u' : UserState F} (hopen : c.isOpen)
    (hrun : c.run u = .ok u') :
    u'.sysErr ≠ 0 ∨ ∃ f, c.opened = some f ∧ u'.file (u'.cpu.rd 2) = some f := by
  cases hopened : c.opened with
  | some f =>
      have hu := nextFd_lt_of_run hopened hrun
      exact .inr ⟨f, rfl, refers_of_runs hu hrun rfl hopened fun c' hc' => absurd hc' List.not_mem_nil⟩
  | none =>
      obtain ⟨u₁, hu₁, -, herr, -⟩ := Call.run_not_opened hopened u
      obtain rfl := Except.ok.inj (hu₁.symm.trans hrun)
      exact .inl (herr hopen)

/-- The table is kept exactly in the runs that open no more than 61 files. -/
theorem tableKept_iff (calls : List (Call F)) (cpu : Cpu) (mem : Mem) :
    TableKept calls (.initial cpu mem) ↔ filesOpened calls ≤ 61 := by
  constructor
  · intro h
    obtain ⟨u, hu⟩ := h.inside
    obtain ⟨hcount, hle⟩ := nextFd_runCalls hu (show 3 ≤ 64 by decide)
    have hstart : (UserState.initial (F := F) cpu mem).nextFd = 3 := rfl
    omega
  · intro h
    constructor
    · apply runCalls_ok
      show 3 + filesOpened calls ≤ 64
      omega
    · intro pre c _ hopen u u' _ hrun
      exact answered_of_run hopen hrun
    · intro pre c mid _ u u' u'' f _ hrun hmid hopened hopen
      exact refers_of_runs (nextFd_lt_of_run hopened hrun) hrun hmid hopened hopen

def Stdio.full : Stdio Unit := ⟨fun _ => some (), fun _ _ => [], fun _ _ _ => 0, 0⟩

def openCall : Call Unit where
  io := Stdio.full
  cpu := Cpu.blank.wr 9 5
  mem := Mem.blank false
  names := by decide

/-- The 62nd file goes behind the table. -/
theorem openCalls_outside :
    ¬TableKept (List.replicate 62 openCall) (.initial Cpu.blank (Mem.blank false)) := by
  intro h
  have hopened : openCall.opened = some () := by decide
  obtain ⟨u, hu⟩ := h.inside
  obtain ⟨hcount, hle⟩ := nextFd_runCalls hu (show 3 ≤ 64 by decide)
  have hfiles : filesOpened (List.replicate 62 openCall) = 62 := by
    rw [filesOpened, List.filterMap_replicate_of_some hopened, List.length_replicate]
  have hstart : (UserState.initial (F := Unit) Cpu.blank (Mem.blank false)).nextFd = 3 := rfl
  omega

end Nx88
