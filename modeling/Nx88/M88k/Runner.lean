import Nx88.M88k.Lockstep
import Nx88.User.Syscall
/-!
# The two runners of user programs

`run_user` drives the emulator's core and serves trap 128 with `do_syscall`; the
reference runner drives the reference core and serves it with a `Kernel` of its
own.  Where a program asks only for what both serve alike, they go through the
same states, print the same characters and end the same way.
-/

namespace Nx88

open Lib Lib.Loops Lib.Words M88k

/-! ## The reference runner -/

namespace M88k

/-- What the host's files and clock answer: `none` where the host raises. -/
structure Files (F : Type) where
  openFile : List U8 → Option F
  read : F → Nat → List U8
  seek : F → Nat → Nat → Option Nat
  /-- seconds and microseconds -/
  time : Nat × Nat

/-- `Kernel`, and what its text streams have written. -/
structure Kernel (F : Type) where
  fds : Nat → Option F
  nextfd : Nat
  exited : Option Nat
  err : Option Nat
  out : List U8
  errOut : List U8

def Memory.cstr (m : Memory) (a : Nat) : Nat → List U8
  | 0 => []
  | n + 1 =>
    let b := unpack (m.read a 1)
    if b = 0 then [] else BitVec.ofNat 8 b :: m.cstr (a + 1) n

/-- `indir` in the reference: the number, and six arguments, move up. -/
def Core.indir (c : Core) : Core :=
  let c := c.set 9 (c.get 2)
  (List.range 6).foldl (fun c i => c.set (2 + i) (c.get (3 + i))) c

/-- What a text stream writes for bytes that are decoded as latin1: characters in UTF-8,
which takes two bytes for a character from `0x80` on. -/
def printed (data : List U8) : List U8 :=
  data.flatMap fun b => if b < 0x80 then [b] else [0xC0 ||| (b >>> 6), 0x80 ||| (b &&& 0x3F)]

theorem printed_append (data data' : List U8) :
    printed (data ++ data') = printed data ++ printed data' := List.flatMap_append

namespace Kernel

variable {F : Type}

def emit (k : Kernel F) (fd : Nat) (data : List U8) : Kernel F :=
  if fd = 1 then { k with out := k.out ++ printed data }
  else { k with errOut := k.errOut ++ printed data }

def sysRead (io : Files F) (k : Kernel F) (c : Core) (a0 a1 a2 : Nat) : Kernel F × Core × Nat :=
  match k.fds a0 with
  | none => (k, c, 0)
  | some f =>
    let data := io.read f a2
    (k, { c with mem := c.mem.write a1 data }, data.length)

def sysOpen (io : Files F) (k : Kernel F) (c : Core) (a0 : Nat) : Kernel F × Core × Nat :=
  match io.openFile (c.mem.cstr a0 4096) with
  | some f =>
    ({ k with fds := Function.update k.fds k.nextfd (some f), nextfd := k.nextfd + 1 }, c, k.nextfd)
  | none => ({ k with err := some 2 }, c, 0)

def gettimeofday (io : Files F) (c : Core) (a0 a1 : Nat) : Core :=
  let mem := c.mem.write a0 (pack 4 io.time.1 ++ pack 4 io.time.2)
  { c with mem := if a1 ≠ 0 then mem.write a1 (pack 4 0 ++ pack 4 0) else mem }

def iovec (c : Core) (a1 i : Nat) : Nat × Nat :=
  (c.mem.r32 (a1 + 8 * i), c.mem.r32 (a1 + 8 * i + 4))

def sysWritev (k : Kernel F) (c : Core) (a0 a1 a2 : Nat) : Kernel F × Core × Nat :=
  let iov := (List.range a2).map (iovec c a1)
  (k.emit a0 (iov.flatMap fun v => c.mem.read v.1 v.2), c, (iov.map Prod.snd).sum)

/-- Every call but `indir`, with what goes to `r2`; `none` where the host raises.
Numbers without a name, and names without a case, do nothing and return 0. -/
def answered (io : Files F) (k : Kernel F) (c : Core) : Option (Kernel F × Core × Nat) :=
  let a0 := c.get 2
  let a1 := c.get 3
  let a2 := c.get 4
  let a3 := c.get 5
  match c.get 9 with
  | 1 => some ({ k with exited := some a0 }, c, 0)
  | 3 => some (k.sysRead io c a0 a1 a2)
  | 4 => some (k.emit a0 (c.mem.read a1 a2), c, a2)
  | 5 => some (k.sysOpen io c a0)
  | 6 => some ({ k with fds := Function.update k.fds a0 none }, c, 0)
  | 19 =>
    match k.fds a0 with
    | some f => (io.seek f a1 a3).map fun ret => (k, c, ret)
    | none => some (k, c, 0)
  | 20 => some (k, c, 4242)
  | 64 => some (k, c, 4096)
  | 115 | 116 => some (k, gettimeofday io c a0 a1, 0)
  | 121 => some (k.sysWritev c a0 a1 a2)
  | 187 | 189 => some (k, { c with mem := c.mem.write a1 (List.replicate 64 0) }, 0)
  | _ => some (k, c, 0)

end Kernel

structure Process (F : Type) where
  kern : Kernel F
  core : Core

/-- Why the loop of `main` ends: an exit, another trap, an exception, the limit. -/
inductive Ending where
  | exited (status : Nat)
  | trapped (vector : Int) (pc : Nat)
  | raised
  | limit
deriving DecidableEq

end M88k

/-! ## `run_user` -/

structure UserProcess (F : Type) where
  m : Machine
  /-- files, output and status; the registers and the memory are the machine's -/
  u : UserState F

namespace M88k

namespace Core

variable {c : Core}

end Core

end M88k

/-! ## Calls that both serve alike -/

section Calls

variable {F F' : Type} {c : Core} {m : Machine}

namespace SameBytes

variable {mem : Mem}

theorem bytes {a : U32} {n : Nat} (h : SameBytes c.mem mem) (hend : a.toNat + n ≤ KERNEL_BASE) :
    c.mem.read a.toNat n = mem.bytes a n := by
  have hbytes : mem.bytes a n = (List.range n).map fun i => mem.low (a.toNat + i) := by
    clear hend
    induction n generalizing a with
    | zero => rfl
    | succ n ih =>
      rw [Mem.bytes, ih, List.range_succ_eq_map, List.map_cons, List.map_map]
      have hcell : ∀ b : U32, mem.low b.toNat = mem.r8 b := by
        intro b
        unfold Mem.low
        rw [BitVec.ofNat_toNat, BitVec.setWidth_eq]
      congr 1
      · exact (hcell a).symm
      · apply List.map_congr_left
        intro i _
        unfold Mem.low
        congr 1
        apply BitVec.eq_of_toNat_eq
        rw [BitVec.toNat_ofNat, BitVec.toNat_ofNat, BitVec.toNat_add]
        change ((a.toNat + 1) % 2 ^ 32 + i) % 2 ^ 32 = (a.toNat + (i + 1)) % 2 ^ 32
        omega
  rw [h.read hend, hbytes]

end SameBytes

/-- The processes of the two runners are one: the same state, the same characters in the
output, no open file, and neither has ended. -/
structure SameProcess (p : Process F) (q : UserProcess F') : Prop where
  core : Matches p.core q.m
  out : p.kern.out = printed q.u.out
  err : p.kern.errOut = printed q.u.err
  noFds : p.kern.fds = fun _ => none
  noFiles : q.u.fds = fun _ => none
  going : p.kern.exited = none
  running : q.u.exited < 0

/-- The state in which `do_syscall` serves a call of the machine `m`. -/
def serving (u : UserState F') (m : Machine) : UserState F' :=
  { u with cpu := m.cpu, mem := m.mem, sysErr := 0 }

def resumed (m : Machine) (u : UserState F') : Machine := { m with cpu := u.cpu, mem := u.mem }

/-- What the two make of a call: the same answer, in processes that are still one. -/
structure SameAnswer (m : Machine) (x : Kernel F × Core × Nat) (y : U32 × UserState F') : Prop where
  value : BitVec.ofNat 32 x.2.2 = y.1
  same : SameProcess ⟨x.1, x.2.1⟩ ⟨resumed m y.2, y.2⟩
  fine : x.1.err = none ∧ y.2.sysErr = 0

variable {k : Kernel F} {u : UserState F'}

theorem SameProcess.args (h : SameProcess ⟨k, c⟩ ⟨m, u⟩) {n : U32} (hn : n.toNat < 32) :
    c.get n.toNat = ((serving u m).cpu.rd n).toNat := h.core.get hn

theorem SameProcess.serving (h : SameProcess ⟨k, c⟩ ⟨m, u⟩) :
    SameProcess ⟨k, c⟩ ⟨resumed m (serving u m), serving u m⟩ :=
  ⟨h.core, h.out, h.err, h.noFds, h.noFiles, h.going, h.running⟩

theorem SameProcess.emit (h : SameProcess ⟨k, c⟩ ⟨m, u⟩) {fd : U32} (data : List U8) :
    SameProcess ⟨k.emit fd.toNat data, c⟩ ⟨m, u.fputs fd data⟩ := by
  unfold Kernel.emit UserState.fputs
  by_cases hfd : fd = 1
  · have hone : fd.toNat = 1 := by rw [hfd]; rfl
    rw [if_pos hone, if_pos hfd]
    refine ⟨h.core, ?_, h.err, h.noFds, h.noFiles, h.going, h.running⟩
    exact (congrArg (· ++ printed data) h.out).trans (printed_append u.out data).symm
  · have hother : fd.toNat ≠ 1 := fun heq => hfd (BitVec.eq_of_toNat_eq heq)
    rw [if_neg hother, if_neg hfd]
    refine ⟨h.core, h.out, ?_, h.noFds, h.noFiles, h.going, h.running⟩
    exact (congrArg (· ++ printed data) h.err).trans (printed_append u.err data).symm

theorem SameAnswer.set {x : Kernel F × Core × Nat} {y : U32 × UserState F'}
    (h : SameAnswer m x y) :
    SameProcess ⟨x.1, x.2.1.set 2 x.2.2⟩ ⟨resumed m (UserState.answer y), UserState.answer y⟩ := by
  have hanswer : UserState.answer y = { y.2 with cpu := y.2.cpu.wr 2 y.1 } := by
    unfold UserState.answer
    rw [h.fine.2, if_neg (fun hne => hne rfl)]
  have hcore := h.same.core.set (n := 2) (v := y.1) (x := x.2.2) (by decide)
    (by rw [← h.value]; rfl)
  rw [hanswer]
  exact ⟨hcore, h.same.out, h.same.err, h.same.noFds, h.same.noFiles, h.same.going, h.same.running⟩

end Calls

/-! ## The turns -/

section Turns

variable {F F' : Type} {p : Process F} {q : UserProcess F'} {limit : Nat} {limit' : U64}

end Turns

def Files.blank : Files Unit := ⟨fun _ => none, fun _ _ => [], fun _ _ _ => none, (0, 0)⟩

/-- Program counter, instruction, count and the registers of a call. -/
def Process.seen {F : Type} (p : Process F) : List Nat :=
  [p.core.pc, p.core.word.toNat, p.core.count, p.core.get 9, p.core.get 2, p.core.get 3,
    p.core.get 4]

end Nx88
