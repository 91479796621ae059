import Nx88.Cpu.Step
import Nx88.Lib.Runs
/-!
# Kernel calls and runs

The emulator calls kernel functions by stepping the machine from a copied CPU
state until a sentinel return address is reached.  A run is any interleaving of
steps, entries to and returns from such calls, and work of the host that leaves
the clock alone.
-/

namespace Nx88

open Lib.Runs

namespace Machine

/-! ## The kernel call -/

def KCALL_RET : U32 := 0x00DEAD00

def KCALL_STEPS : Nat := 30000000

/-- Function and arguments of a kernel call. -/
structure Call where
  fn : U32
  a2 : U32
  a3 : U32
  a4 : U32
  a5 : U32
  a6 : U32

/-- Arguments in place, the sentinel as return address, no interrupts. -/
def enterKcall (m : Machine) (c : Call) : Machine :=
  let m : Machine := { m with dev := { m.dev with inKcall := true } }
  let m := (((((m.wr 1 KCALL_RET).wr 2 c.a2).wr 3 c.a3).wr 4 c.a4).wr 5 c.a5).wr 6 c.a6
  { m with cpu := { m.cpu with pc := c.fn, hasPending := false } }

/-- The CPU and the kernel-call flag as they were saved. -/
def leaveKcall (m : Machine) (cpu : Cpu) (inKcall : Bool) : Machine :=
  { m with cpu := cpu, dev := { m.dev with inKcall := inKcall } }

/-- Step until the function returns to the sentinel or traps, or the guard runs
out. -/
def kcallLoop (m : Machine) (h : Host) : Nat → Machine
  | 0 => m
  | n + 1 =>
    if m.cpu.pc = KCALL_RET then m
    else
      let (m, trapped) := m.step h
      if trapped then m else m.kcallLoop h n

def kcall (m : Machine) (h : Host) (c : Call) : U32 × Machine :=
  let done := (m.enterKcall c).kcallLoop h KCALL_STEPS
  let ret := if done.cpu.pc = KCALL_RET then done.rd 2 else 0xFFFFFFFF
  (ret, done.leaveKcall m.cpu m.dev.inKcall)

end Machine

/-! ## Runs -/

/-- The machine, and what the kernel calls under way have saved. -/
structure Session where
  m : Machine
  saved : List (Cpu × Bool)

inductive Turn where
  | step (h : Host)
  | enter (c : Machine.Call)
  | leave
  /-- the host code between steps leaves the machine `k` -/
  | host (k : Machine)

namespace Turn

def run : Turn → Session → Session
  | step h, s => { s with m := (s.m.step h).1 }
  | enter c, s => ⟨s.m.enterKcall c, (s.m.cpu, s.m.dev.inKcall) :: s.saved⟩
  | leave, s =>
    match s.saved with
    | [] => s
    | (cpu, inKcall) :: rest => ⟨s.m.leaveKcall cpu inKcall, rest⟩
  | host k, s => { s with m := k }

/-- Host code never assigns the instruction count or the comparator. -/
def Ok : Turn → Session → Prop
  | host k, s => Machine.SameClock s.m k
  | _, _ => True

end Turn

def steps (h : Host) (n : Nat) : List Turn := List.replicate n (Turn.step h)

theorem kcallLoop_steps (h : Host) (n : Nat) (s : Session) :
    ∃ k ≤ n, after Turn.run s (steps h k) = ⟨s.m.kcallLoop h n, s.saved⟩ := by
  induction n generalizing s with
  | zero => exact ⟨0, le_refl 0, rfl⟩
  | succ n ih =>
    unfold Machine.kcallLoop
    split
    · exact ⟨0, Nat.zero_le _, rfl⟩
    · simp only
      split
      · exact ⟨1, by omega, rfl⟩
      · obtain ⟨k, hk, hafter⟩ := ih ((Turn.step h).run s)
        exact ⟨k + 1, by omega, hafter⟩

/-- A kernel call is a run: its entry, its steps, its return. -/
theorem kcall_run (s : Session) (h : Host) (c : Machine.Call) :
    ∃ k ≤ Machine.KCALL_STEPS,
      after Turn.run s (.enter c :: (steps h k ++ [.leave])) = ⟨(s.m.kcall h c).2, s.saved⟩ := by
  obtain ⟨k, hk, hafter⟩ := kcallLoop_steps h Machine.KCALL_STEPS ((Turn.enter c).run s)
  refine ⟨k, hk, ?_⟩
  rw [after_cons, after_append, hafter]
  rfl

/-- Still inside the called function, and not trapped. -/
def Machine.InCall (m : Machine) (h : Host) : Prop :=
  m.cpu.pc ≠ Machine.KCALL_RET ∧ (m.step h).2 = false

instance (m : Machine) (h : Host) : Decidable (m.InCall h) := inferInstanceAs (Decidable (_ ∧ _))

theorem kcallLoop_of_steps {h : Host} {s : Session} {n : Nat} (k : Nat)
    (hrunning : ∀ i < n, (after Turn.run s (steps h i)).m.InCall h) :
    s.m.kcallLoop h (n + k) = (after Turn.run s (steps h n)).m.kcallLoop h k := by
  induction n generalizing s with
  | zero => rw [Nat.zero_add]; rfl
  | succ n ih =>
    obtain ⟨hpc, htrapped⟩ : s.m.InCall h := hrunning 0 (Nat.zero_lt_succ n)
    have hrest : ∀ i < n, (after Turn.run ((Turn.step h).run s) (steps h i)).m.InCall h :=
      fun i hi => hrunning (i + 1) (Nat.succ_lt_succ hi)
    have hnext : s.m.kcallLoop h (n + k + 1) = (s.m.step h).1.kcallLoop h (n + k) := by
      rw [Machine.kcallLoop, if_neg hpc]
      simp only
      rw [if_neg (by rw [htrapped]; decide)]
    rw [Nat.add_right_comm, hnext]
    exact ih (s := (Turn.step h).run s) hrest

theorem steps_saved (h : Host) (n : Nat) (s : Session) :
    (after Turn.run s (steps h n)).saved = s.saved := by
  induction n generalizing s with
  | zero => rfl
  | succ n ih => exact ih ((Turn.step h).run s)

/-- A call that returns after `n` steps is the run of its entry, those steps and
its return. -/
theorem kcall_of_steps {h : Host} {s : Session} {c : Machine.Call} {n : Nat}
    (hn : n ≤ Machine.KCALL_STEPS)
    (hrunning : ∀ i < n, (after Turn.run ((Turn.enter c).run s) (steps h i)).m.InCall h)
    (hreturned :
      (after Turn.run ((Turn.enter c).run s) (steps h n)).m.cpu.pc = Machine.KCALL_RET) :
    after Turn.run s (.enter c :: (steps h n ++ [.leave])) = ⟨(s.m.kcall h c).2, s.saved⟩ := by
  have hloop : (s.m.enterKcall c).kcallLoop h Machine.KCALL_STEPS =
      (after Turn.run ((Turn.enter c).run s) (steps h n)).m := by
    obtain ⟨k, hk⟩ := Nat.exists_eq_add_of_le hn
    rw [hk]
    refine (kcallLoop_of_steps (s := (Turn.enter c).run s) k hrunning).trans ?_
    cases k with
    | zero => rfl
    | succ k => rw [Machine.kcallLoop, if_pos hreturned]
  have hend : after Turn.run ((Turn.enter c).run s) (steps h n) =
      ⟨(s.m.enterKcall c).kcallLoop h Machine.KCALL_STEPS,
        (s.m.cpu, s.m.dev.inKcall) :: s.saved⟩ := by
    rw [hloop]
    exact congrArg (Session.mk _) (steps_saved h n ((Turn.enter c).run s))
  rw [after_cons, after_append, hend]
  rfl

/-! ## What the turns of the host leave alone -/

theorem enterKcall_comparator (m : Machine) (c : Machine.Call) :
    (m.enterKcall c).cfg = m.cfg ∧ (m.enterKcall c).cpu.count = m.cpu.count ∧
      (m.enterKcall c).dev.clockArmed = m.dev.clockArmed ∧
      (m.enterKcall c).dev.clockDeadline = m.dev.clockDeadline := by
  have hargs : ∀ k : Machine, Machine.SameClock k
      ((((((k.wr 1 Machine.KCALL_RET).wr 2 c.a2).wr 3 c.a3).wr 4 c.a4).wr 5 c.a5).wr 6 c.a6) := by
    intro k
    exact (((((Machine.wr_serviced k _ _).trans (Machine.wr_serviced _ _ _)).trans
      (Machine.wr_serviced _ _ _)).trans (Machine.wr_serviced _ _ _)).trans
      (Machine.wr_serviced _ _ _)).trans (Machine.wr_serviced _ _ _) |>.sameClock
  have hclock := hargs { m with dev := { m.dev with inKcall := true } }
  exact ⟨hclock.cfg, hclock.count, hclock.armed, hclock.deadline⟩

end Nx88
