import Nx88.Cpu.Spec
import Nx88.Lib.Loops
import Nx88.Mmu.Tables
import Nx88.Reset
/-!
# System calls of the user-mode runner

`do_syscall` on trap 128.  What the host answers comes with the call: `F` stands
for the `FILE *` that `fopen` hands out.  An index outside of `fds` ends a call in a
fault; how deep system call 0 nests is limited by a fuel.
-/

namespace Nx88

open Lib.Loops

/-- What the host's files and clock answer during a call. -/
structure Stdio (F : Type) where
  fopen : List U8 → Option F
  /-- the bytes that `fread` finds, of so many asked for -/
  fread : F → Nat → List U8
  /-- what `ftell` says after `fseek` -/
  fseek : F → U32 → U32 → U32
  time : U32

/-- The process, the runner's file table and what went to the host. -/
structure UserState (F : Type) where
  cpu : Cpu
  mem : Mem
  fds : Fin 64 → Option F
  nextFd : Nat
  sysErr : U32
  exited : Int
  out : List U8
  err : List U8

/-- A store to `fds[i]` with `i` outside of the table. -/
inductive FdFault where
  | outside (i : Nat)
deriving DecidableEq

/-- `mem_cstr` into a buffer of `n + 1` bytes: the characters before the NUL. -/
def Mem.cstr (m : Mem) (a : U32) : Nat → List U8
  | 0 => []
  | n + 1 =>
    let c := m.r8 a
    if c = 0 then [] else c :: m.cstr (a + 1) n

namespace UserState

variable {F : Type}

def setMem (u : UserState F) (mem : Mem) : UserState F := { u with mem := mem }

/-- `(a0 < 64) ? fds[a0] : NULL` -/
def file (u : UserState F) (fd : U32) : Option F :=
  if h : fd.toNat < 64 then u.fds ⟨fd.toNat, h⟩ else none

def fputs (u : UserState F) (fd : U32) (bs : List U8) : UserState F :=
  if fd = 1 then { u with out := u.out ++ bs } else { u with err := u.err ++ bs }

/-! ## The calls -/

def sysRead (io : Stdio F) (u : UserState F) (a0 a1 a2 : U32) : U32 × UserState F :=
  match u.file a0 with
  | none => (0, u)
  | some f =>
    let k := min a2.toNat 65536
    let buf := (io.fread f k).take k
    (BitVec.ofNat 32 buf.length, u.setMem (u.mem.load a1 buf))

def sysWrite (u : UserState F) (a0 a1 a2 : U32) : U32 × UserState F :=
  (a2, u.fputs a0 (u.mem.bytes a1 a2.toNat))

def sysOpen (io : Stdio F) (u : UserState F) (a0 : U32) : Except FdFault (U32 × UserState F) :=
  match io.fopen (u.mem.cstr a0 511) with
  | none => .ok (0, { u with sysErr := 2 })
  | some f =>
    if h : u.nextFd < 64 then
      .ok (BitVec.ofNat 32 u.nextFd,
        { u with
          fds := Function.update u.fds ⟨u.nextFd, h⟩ (some f)
          nextFd := u.nextFd + 1 })
    else .error (.outside u.nextFd)

def sysClose (u : UserState F) (a0 : U32) : U32 × UserState F :=
  if h : a0.toNat < 64 then (0, { u with fds := Function.update u.fds ⟨a0.toNat, h⟩ none })
  else (0, u)

def sysLseek (io : Stdio F) (u : UserState F) (a0 a1 a3 : U32) : U32 × UserState F :=
  match u.file a0 with
  | none => (0, u)
  | some f => (io.fseek f a1 a3, u)

def gettimeofday (io : Stdio F) (u : UserState F) (a0 a1 : U32) : U32 × UserState F :=
  let mem := (u.mem.w32 a0 io.time).w32 (a0 + 4) 0
  (0, u.setMem (if a1 ≠ 0 then (mem.w32 a1 0).w32 (a1 + 4) 0 else mem))

def sysWritev (u : UserState F) (a0 a1 a2 : U32) : U32 × UserState F :=
  let iov := (List.range a2.toNat).map fun i =>
    (u.mem.r32 (a1 + 8 * BitVec.ofNat 32 i), u.mem.r32 (a1 + 8 * BitVec.ofNat 32 i + 4))
  ((iov.map Prod.snd).foldl (· + ·) 0, u.fputs a0 (iov.flatMap fun v => u.mem.bytes v.1 v.2.toNat))

/-- The calls that answer in `r2`.  Those that are not listed do nothing and return 0:
`obreak`, `getuid`, `getgid`, `sync`, `ioctl`, the signal calls and what is not
implemented. -/
def answered (io : Stdio F) (u : UserState F) : Except FdFault (U32 × UserState F) :=
  let a0 := u.cpu.rd 2
  let a1 := u.cpu.rd 3
  let a2 := u.cpu.rd 4
  let a3 := u.cpu.rd 5
  match (u.cpu.rd 9).toNat with
  | 3 => .ok (u.sysRead io a0 a1 a2)
  | 4 => .ok (u.sysWrite a0 a1 a2)
  | 5 => u.sysOpen io a0
  | 6 => .ok (u.sysClose a0)
  | 19 => .ok (u.sysLseek io a0 a1 a3)
  | 20 | 39 => .ok (4242, u)
  | 64 => .ok (4096, u)
  | 115 | 116 => .ok (u.gettimeofday io a0 a1)
  | 121 => .ok (u.sysWritev a0 a1 a2)
  | 38 | 139 | 62 | 187 | 188 | 189 => .ok (0, u.setMem (u.mem.zero a1 64))
  | _ => .ok (0, u)

/-- `WR(2, sys_err ? (u32)sys_err : ret)` -/
def answer (r : U32 × UserState F) : UserState F :=
  { r.2 with cpu := r.2.cpu.wr 2 (if r.2.sysErr ≠ 0 then r.2.sysErr else r.1) }

/-- Every call but `indir`.  `exit` leaves the registers alone. -/
def service (io : Stdio F) (u : UserState F) : Except FdFault (UserState F) :=
  if u.cpu.rd 9 = 1 then .ok { u with exited := (u.cpu.rd 2).toInt }
  else (u.answered io).map answer

end UserState

/-- `indir`: the number and the arguments move up by one register. -/
def Cpu.indir (c : Cpu) : Cpu :=
  let c := c.wr 9 (c.rd 2)
  let c := c.wr 2 (c.rd 3)
  let c := c.wr 3 (c.rd 4)
  let c := c.wr 4 (c.rd 5)
  c.wr 5 (c.rd 6)

/-- `do_syscall`, if `indir` calls it less than `n` times more. -/
def doSyscall {F : Type} (io : Stdio F) : Nat → UserState F → Option (Except FdFault (UserState F))
  | 0, _ => none
  | n + 1, u =>
    let u : UserState F := { u with sysErr := 0 }
    if u.cpu.rd 9 = 0 then doSyscall io n { u with cpu := u.cpu.indir } else some (u.service io)

/-! ## Nested calls -/

namespace Cpu

/-- The registers that `indir` passes on, in their order. -/
def argReg : Nat → U32
  | 0 => 9
  | k + 1 => BitVec.ofNat 32 (min (k + 2) 6)

def arg (c : Cpu) (k : Nat) : U32 := c.rd (argReg k)

/-- Some register names a call. -/
def Names (c : Cpu) : Prop := ∃ k < 6, c.arg k ≠ 0

instance (c : Cpu) : Decidable c.Names := inferInstanceAs (Decidable (∃ k < 6, _))

theorem argReg_last {k : Nat} (h : 5 ≤ k) : argReg k = 6 := by
  obtain ⟨k, rfl⟩ := Nat.exists_eq_add_of_le' h
  rw [argReg, Nat.min_eq_right (by omega)]
  rfl

/-- `indir` moves every argument up; the last one stays as well. -/
theorem arg_indir (c : Cpu) (k : Nat) : c.indir.arg k = c.arg (k + 1) := by
  unfold arg indir
  match k with
  | 0 => simp (disch := decide) only [show argReg 0 = 9 from rfl, show argReg 1 = 2 from rfl,
      rd_wr, rd_wr_of_ne]
  | 1 => simp (disch := decide) only [show argReg 1 = 2 from rfl, show argReg 2 = 3 from rfl,
      rd_wr, rd_wr_of_ne]
  | 2 => simp (disch := decide) only [show argReg 2 = 3 from rfl, show argReg 3 = 4 from rfl,
      rd_wr, rd_wr_of_ne]
  | 3 => simp (disch := decide) only [show argReg 3 = 4 from rfl, show argReg 4 = 5 from rfl,
      rd_wr, rd_wr_of_ne]
  | 4 => simp (disch := decide) only [show argReg 4 = 5 from rfl, show argReg 5 = 6 from rfl,
      rd_wr, rd_wr_of_ne]
  | k + 5 =>
      rw [argReg_last (by omega), argReg_last (by omega)]
      simp (disch := decide) only [rd_wr_of_ne]

def indirTurn (c : Cpu) : Lib.Loops.Turn Cpu Cpu := if c.rd 9 = 0 then .next c.indir else .done c

theorem indirTurn_of_zero {c : Cpu} (h : c.rd 9 = 0) : indirTurn c = .next c.indir := if_pos h

theorem indirTurn_of_ne {c : Cpu} (h : c.rd 9 ≠ 0) : indirTurn c = .done c := if_neg h

theorem iterate_of_arg {c : Cpu} {k : Nat} (h : c.arg k ≠ 0) :
    (iterate indirTurn (k + 1) c).isSome := by
  induction k generalizing c with
  | zero =>
      rw [iterate_of_done (indirTurn_of_ne h)]
      rfl
  | succ k ih =>
      by_cases hzero : c.rd 9 = 0
      · rw [iterate_of_next (indirTurn_of_zero hzero)]
        exact ih (by rwa [arg_indir])
      · rw [iterate_of_done (indirTurn_of_ne hzero)]
        rfl

theorem not_names_indir {c : Cpu} (h : ¬c.Names) : c.rd 9 = 0 ∧ ¬c.indir.Names := by
  have hzero : ∀ k < 6, c.arg k = 0 := fun k hk => not_not.1 fun hne => h ⟨k, hk, hne⟩
  refine ⟨hzero 0 (by omega), ?_⟩
  rintro ⟨k, hk, hne⟩
  apply hne
  rw [arg_indir]
  by_cases hlast : k + 1 < 6
  · exact hzero (k + 1) hlast
  · have hfive : c.arg 5 = 0 := hzero 5 (by omega)
    rw [arg, argReg_last (by omega)] at hfive ⊢
    exact hfive

theorem iterate_of_not_names {c : Cpu} (h : ¬c.Names) (n : Nat) : iterate indirTurn n c = none := by
  induction n generalizing c with
  | zero => rfl
  | succ n ih =>
      obtain ⟨hzero, hnext⟩ := not_names_indir h
      rw [iterate_of_next (indirTurn_of_zero hzero)]
      exact ih hnext

theorem iterate_of_names {c : Cpu} (h : c.Names) : (iterate indirTurn 6 c).isSome := by
  obtain ⟨k, hk, hne⟩ := h
  obtain ⟨r, hr⟩ := Option.isSome_iff_exists.1 (iterate_of_arg hne)
  rw [iterate_mono hk hr]
  rfl

end Cpu

variable {F : Type}

theorem doSyscall_eq (io : Stdio F) (n : Nat) (u : UserState F) :
    doSyscall io n u =
      (iterate Cpu.indirTurn n u.cpu).map fun cpu => { u with cpu := cpu, sysErr := 0 }.service io := by
  induction n generalizing u with
  | zero => rfl
  | succ n ih =>
      rw [doSyscall]
      dsimp only
      by_cases hzero : u.cpu.rd 9 = 0
      · rw [if_pos hzero, iterate_of_next (Cpu.indirTurn_of_zero hzero)]
        exact ih _
      · rw [if_neg hzero, iterate_of_done (Cpu.indirTurn_of_ne hzero)]
        rfl

/-- A system call returns exactly when one of the registers that `indir` looks at
names a call. -/
theorem doSyscall_returns_iff (io : Stdio F) (u : UserState F) :
    (∃ n r, doSyscall io n u = some r) ↔ u.cpu.Names := by
  constructor
  · rintro ⟨n, r, h⟩
    by_contra hnames
    rw [doSyscall_eq, Cpu.iterate_of_not_names hnames] at h
    cases h
  · intro hnames
    obtain ⟨cpu, hcpu⟩ := Option.isSome_iff_exists.1 (Cpu.iterate_of_names hnames)
    refine ⟨6, { u with cpu := cpu, sysErr := 0 }.service io, ?_⟩
    rw [doSyscall_eq, hcpu]
    rfl

def UserState.initial (cpu : Cpu) (mem : Mem) : UserState F where
  cpu := cpu
  mem := mem
  fds _ := none
  nextFd := 3
  sysErr := 0
  exited := -1
  out := []
  err := []

def Stdio.blank : Stdio Unit := ⟨fun _ => none, fun _ _ => [], fun _ _ _ => 0, 0⟩

/-- A trap as the very first instruction: only the stack pointer is not zero. -/
theorem firstTrap_never_returns :
    ¬∃ n r, doSyscall Stdio.blank n
      (.initial (Cpu.blank.wr 31 0x7FFEFFF0) (Mem.blank false)) = some r := by
  rintro ⟨n, r, h⟩
  rw [doSyscall_eq, Cpu.iterate_of_not_names (by decide)] at h
  cases h

end Nx88
