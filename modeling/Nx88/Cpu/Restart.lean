import Nx88.Cpu.Undefined
import Nx88.Cpu.Interrupts
import Nx88.Proc.Buffers
/-!
# Faults restart, traps return

What `run_sys` does with an aborted instruction and with a trap: it delivers the
exception and lets the guest's handler run.  A handler that puts the registers
back comes back to the aborted instruction, as if it had not been tried; a trap
handler comes back behind the trap.
-/

namespace Nx88

open Lib.Words Lib.Runs

namespace Machine

/-! ## Delivery -/

/-- `run_sys` on a trap that it leaves to the kernel. -/
def takeTrap (m : Machine) : Machine :=
  { m.deliverTrap m.trapVector m.trapPc with trapTaken := false }

/-- The shadow registers from which an `rte` returns to `target`. -/
structure Ready (k : Machine) (psr target : U32) : Prop where
  epsr : k.cpu.cr 2 = psr
  sxip : k.cpu.cr 4 &&& 2 = 0
  snip : k.cpu.cr 5 = target ||| 2

theorem takeTrap_ready {m : Machine} (hpc : Aligned m.trapPc) :
    m.takeTrap.Ready (m.cpu.cr 1) (m.trapPc + 4) :=
  ⟨rfl, (resume_target hpc).1, rfl⟩

theorem step_resumes {k : Machine} {h : Host} {psr target : U32} (hret : k.Returns h)
    (hready : k.Ready psr target) (htarget : Aligned target) :
    (k.step h).1.cpu.r = k.cpu.r ∧ (k.step h).1.cpu.cr 1 = psr ∧ (k.step h).1.cpu.pc = target ∧
      (k.step h).1.cpu.hasPending = false ∧ (k.step h).1.mem = k.mem ∧
      (k.step h).1.ufault.pending = false := by
  obtain ⟨hr, hpsr, hpc, hslot, hmem, hclear⟩ := step_returns hret
  obtain ⟨-, hvalid, hback⟩ := resume_target htarget
  refine ⟨hr, hpsr.trans hready.epsr, ?_, hslot, hmem, hclear⟩
  rw [hpc]
  unfold rteTarget
  simp only
  rw [if_neg (fun hne => hne hready.sxip), hready.snip, if_pos hvalid]
  exact hback

theorem Restored.ready {d k : Machine} {psr target : U32} (h : d.Restored k)
    (hd : d.Ready psr target) : k.Ready psr target :=
  ⟨h.epsr.trans hd.epsr, by rw [h.sxip]; exact hd.sxip, h.snip.trans hd.snip⟩

/-! ## A program and its handler -/

/-- A kernel with the word `w` at the program counter, whose handlers for a data fault
and for trap 128 are one `rte` each. -/
def handled (w : U32) : Machine :=
  { reaching 0xC0001000 0x1000 w with
    mem := ((unmappedMem 0x1000 w).w32 0x18 0xF400FC00).w32 0x400 0xF400FC00
    cpu := { (reaching 0xC0001000 0x1000 w).cpu with
      cr := Function.update (Function.update (fun _ => 0) 1 0x80000000) 7 0xC0000000 } }

theorem handled_quiet {m : Machine} (hforce : m.cfg.forceSigPc = 0)
    (hpc : m.cpu.pc = 0xC0001000 ∨ m.cpu.pc = 0xC0000018 ∨ m.cpu.pc = 0xC0000400) :
    m.Quiet Host.blank := by
  rcases hpc with hpc | hpc | hpc
  · exact quiet_elsewhere _ (by rw [hpc]; decide) hforce (by rw [hpc]; decide) (by rw [hpc]; decide)
  · exact quiet_elsewhere _ (by rw [hpc]; decide) hforce (by rw [hpc]; decide) (by rw [hpc]; decide)
  · exact quiet_elsewhere _ (by rw [hpc]; decide) hforce (by rw [hpc]; decide) (by rw [hpc]; decide)

/-! ## A fault restarts the instruction -/

section Restart

variable {m : Machine} {h : Host} (hquiet : m.Quiet h)
  (hreal : m.cfg.translateOn = true → m.mem.realmm = true) (hxlat : m.xlatWrite = false)
  (hclear : m.ufault.pending = false) (hwords : m.OnWords)
  (hfault : (m.step h).1.ufault.pending = true)

include hquiet hreal hxlat hclear hwords hfault

end Restart

theorem finish_traps {m : Machine} {pc : U32} {flow : Flow} (htrap : (m.finish pc flow).2 = true) :
    ∃ vector, flow = .trap vector := by
  unfold finish at htrap
  split at htrap
  · exact ⟨_, rfl⟩
  · split at htrap
    · exact absurd htrap Bool.false_ne_true
    · exact absurd htrap Bool.false_ne_true

/-- What a trap leaves: the report, and the program as it was. -/
theorem step_trapped {m : Machine} {h : Host} (hquiet : m.Quiet h)
    (htrap : (m.step h).2 = true) : (m.step h).1.trapPc = m.cpu.pc ∧ Untouched m (m.step h).1 := by
  unfold step at htrap ⊢
  cases hhooks : m.hooks h with
  | error k =>
    rw [hhooks] at htrap
    exact absurd htrap Bool.false_ne_true
  | ok k =>
    rw [hhooks] at htrap
    have hpeek := (hooks_ok hquiet hhooks).2.2
    have hexec : (k.exec h).2 = true := htrap
    show (k.exec h).1.trapPc = m.cpu.pc ∧ Untouched m (k.exec h).1
    rw [exec_eq] at hexec ⊢
    cases hfetch : k.fetch.2.ufault.pending with
    | true =>
      rw [hfetch, if_pos rfl] at hexec
      exact absurd hexec Bool.false_ne_true
    | false =>
      rw [hfetch, if_neg Bool.false_ne_true] at hexec
      rw [if_neg Bool.false_ne_true]
      obtain ⟨vector, hflow⟩ := finish_traps hexec
      have hsame : (k.fetch.2.tick.execute h k.fetch.1 k.cpu.pc).1 = k.fetch.2.tick := by
        cases hform : k.fetch.2.tick.memForm k.fetch.1 with
        | none => exact (execute_plain h k.cpu.pc hform).2 vector hflow
        | some access =>
          obtain ⟨sub, ea⟩ := access
          rw [execute_mem hform] at hflow
          cases hflow
      rw [hflow, hsame, ← hpeek.cpu]
      refine ⟨rfl, ?_⟩
      exact ((hpeek.untouched.trans (fetch_peeked k).untouched).trans (tick_untouched _)).trans
        (report_untouched _ _ _)

theorem snip_advance {a : U32} (h : Aligned a) : (a ||| 2) + 4 = (a + 4) ||| 2 := by
  have hor : ∀ b : U32, Aligned b → b ||| 2 = b + 2 := by
    intro b hb
    exact (BitVec.add_eq_or_of_and_eq_zero _ _ (resume_target hb).1).symm
  rw [hor a h, hor (a + 4) (h.add (by decide)), BitVec.add_assoc, BitVec.add_assoc]
  rfl

/-- A handler comes back to the instruction behind the trap, or to the one behind
that if it has moved the saved resume point on by an instruction, with the
program's PSR and with the registers that it leaves. -/
theorem trap_returns {m : Machine} {h : Host} (hquiet : m.Quiet h) (hwords : m.OnWords)
    (htrap : (m.step h).2 = true) {k : Machine} {h' : Host} (hret : k.Returns h')
    (hepsr : k.cpu.cr 2 = (m.step h).1.takeTrap.cpu.cr 2)
    (hsxip : k.cpu.cr 4 = (m.step h).1.takeTrap.cpu.cr 4) (success : Bool)
    (hsnip : k.cpu.cr 5 = (m.step h).1.takeTrap.cpu.cr 5 + if success then 4 else 0) :
    (k.step h').1.cpu.pc = m.cpu.pc + (if success then 8 else 4) ∧
      (k.step h').1.cpu.cr 1 = m.cpu.cr 1 ∧ (k.step h').1.cpu.r = k.cpu.r ∧
      (k.step h').1.cpu.hasPending = false := by
  obtain ⟨hpc, huntouched⟩ := step_trapped hquiet htrap
  have haligned : Aligned (m.step h).1.trapPc := by
    rw [hpc]
    exact hwords.pc
  have hsaved := takeTrap_ready haligned
  have hnext : Aligned ((m.step h).1.trapPc + 4) := haligned.add (by decide)
  have hready : k.Ready ((m.step h).1.cpu.cr 1)
      ((m.step h).1.trapPc + 4 + if success then 4 else 0) := by
    refine ⟨hepsr.trans hsaved.epsr, by rw [hsxip]; exact hsaved.sxip, ?_⟩
    rw [hsnip, hsaved.snip]
    cases success with
    | true => exact snip_advance hnext
    | false => exact (BitVec.add_zero _).trans (congrArg (· ||| 2) (BitVec.add_zero _).symm)
  have htarget : Aligned ((m.step h).1.trapPc + 4 + if success then 4 else 0) := by
    cases success with
    | true => exact hnext.add (by decide)
    | false => exact hnext.add (by decide)
  obtain ⟨hr, hpsr, hgone, hslot, -, -⟩ := step_resumes hret hready htarget
  refine ⟨?_, by rw [hpsr, huntouched.cr], hr, hslot⟩
  rw [hgone, hpc, BitVec.add_assoc]
  cases success <;> rfl

/-- `tb0 0,r0,128` -/
theorem handled_returns :
    ((((handled 0xF000D080).step Host.blank).1.takeTrap).step Host.blank).1.cpu.pc =
      0xC0001000 + 4 := by
  have hquiet : ((handled 0xF000D080).step Host.blank).1.takeTrap.Quiet Host.blank :=
    handled_quiet (by decide +kernel) (.inr (.inr (by decide +kernel)))
  refine (trap_returns (handled_quiet rfl (.inl rfl)) ⟨by decide, by decide⟩ (by decide +kernel)
    ⟨hquiet, by decide +kernel, _, hooks_gated hquiet (by decide +kernel), by decide +kernel, ?_⟩
    rfl rfl false (by decide +kernel)).1
  exact ⟨by decide +kernel, by decide +kernel⟩

end Machine

end Nx88
