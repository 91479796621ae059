import Nx88.Cpu.Alike
import Nx88.Lib.Runs
import Nx88.Reset
/-!
# Interrupts are transparent

An interrupt is delivered between two instructions, and saves what its return
needs: the PSR, and the program counter in a pipeline register whose valid bit
shares the low bits of the address.  On word boundaries an `rte` comes back to
exactly the interrupted instruction.
-/

namespace Nx88

open Lib.Runs

namespace Machine

/-! ## Delivery -/

def interrupt (m : Machine) : Option Machine :=
  match m.softint with
  | .error k => some k
  | .ok k₁ =>
    match k₁.hardclock with
    | .error k => some k
    | .ok _ => none

/-- The state an interrupt may be taken in. -/
structure Gated (m : Machine) : Prop where
  between : m.cpu.hasPending = false
  noFault : m.ufault.pending = false
  outside : m.dev.inKcall = false
  enabled : m.cpu.cr 1 &&& 2 = 0

theorem gated_of_interruptible {m : Machine} (h : m.interruptible = true) : m.Gated := by
  unfold interruptible at h
  obtain ⟨-, -, hslot, hmask, -, hfault, hcall⟩ := of_decide_eq_true h
  exact ⟨Bool.eq_false_iff.2 hslot, Bool.eq_false_iff.2 hfault, Bool.eq_false_iff.2 hcall, hmask⟩

theorem deliverException_cpu {m m' : Machine} (vector : U32) (h : m'.cpu = m.cpu) :
    (m'.deliverException vector).cpu = (m.deliverException vector).cpu := by
  unfold deliverException
  simp only [h]

/-- What a delivered interrupt has done: entered the exception state, and nothing
else that the interrupted program could see. -/
structure Delivered (m k : Machine) : Prop where
  gated : m.Gated
  cpu : k.cpu = (m.deliverException 1).cpu
  mem : k.mem = m.mem

theorem softint_delivered {m k : Machine} (h : m.softint = .error k) : m.Delivered k := by
  obtain ⟨hgate, rfl⟩ := softint_error h
  have hpeek := splLooked_peeked m
  refine ⟨gated_of_interruptible hgate, ?_, ?_⟩
  · rw [takeInterrupt_cpu]
    exact deliverException_cpu 1 hpeek.cpu
  · rw [takeInterrupt_mem]
    exact hpeek.mem

/-- A softint that is not taken has looked at the level, if that, behind its gates. -/
theorem softint_gated {m m' : Machine} (h : m.softint = .ok m') (hm' : m'.Gated) : m.Gated := by
  rw [softint_eq] at h
  split at h
  · rename_i hgate
    exact gated_of_interruptible hgate.1
  · cases h
    exact hm'

theorem interrupt_delivered {m k : Machine} (h : m.interrupt = some k) : m.Delivered k := by
  unfold interrupt at h
  cases hsoft : m.softint with
  | error k' =>
    simp only [hsoft] at h
    cases h
    exact softint_delivered hsoft
  | ok k₁ =>
    simp only [hsoft] at h
    cases hhard : k₁.hardclock with
    | ok k₂ =>
      simp only [hhard] at h
      cases h
    | error k₂ =>
      simp only [hhard] at h
      cases h
      obtain ⟨hgate, -, rfl⟩ := hardclock_error hhard
      have hpeek := softint_ok_peeked hsoft
      have hread := kread_peeked k₁.clockTaken SOFTINT_PENDING
      refine ⟨softint_gated hsoft (gated_of_interruptible hgate), ?_, ?_⟩
      · rw [takeInterrupt_cpu]
        exact deliverException_cpu 1 (hread.cpu.trans hpeek.cpu)
      · rw [takeInterrupt_mem]
        exact hread.mem.trans hpeek.mem

theorem step_of_interrupt {m k : Machine} {h : Host} (hno : m.intercepts h m.cpu.pc = .ok m)
    (hk : m.interrupt = some k) : m.step h = (k, false) := by
  unfold step
  rw [hooks_eq, hno]
  unfold interrupt at hk
  cases hsoft : m.softint with
  | error k' =>
    simp only [hsoft] at hk ⊢
    cases hk
    rfl
  | ok k₁ =>
    simp only [hsoft] at hk ⊢
    cases hhard : k₁.hardclock with
    | ok k₂ =>
      simp only [hhard] at hk
      cases hk
    | error k₂ =>
      simp only [hhard] at hk ⊢
      cases hk
      rfl

/-! ## Alignment along a run -/

/-- No intercept acts on the step, and the vector base is on a word boundary. -/
structure Undisturbed (h : Host) (m : Machine) : Prop where
  intercepts : m.intercepts h m.cpu.pc = .ok m
  vbr : Aligned (m.cpu.cr 7)

theorem forceSig_sameFlow (m : Machine) (pc : U32) : SameFlow m (m.forceSig pc) := by
  unfold forceSig
  split
  · obtain ⟨r, cr, heq⟩ := setWord_fields m.cpu 2 m.cfg.forceSigVal
    rw [heq]
    exact ⟨rfl, rfl, rfl⟩
  · exact ⟨rfl, rfl, rfl⟩

theorem snoopMaps_cpu (m : Machine) (pc : U32) : (m.snoopMaps pc).cpu = m.cpu := by
  have hnoted : (m.snoopMapFn pc).cpu = m.cpu := by
    unfold snoopMapFn
    split <;> rfl
  rw [snoopMaps_eq]
  split
  · exact (translate_peeked (m.snoopMapFn pc) _ false).cpu.trans hnoted
  · exact hnoted

theorem step_onWords {m : Machine} {h : Host} (hstep : Undisturbed h m) (hm : m.OnWords) :
    (m.step h).1.OnWords := by
  cases hint : m.interrupt with
  | some k =>
    rw [step_of_interrupt hstep.intercepts hint]
    exact (sameFlow_of_cpu (interrupt_delivered hint).cpu).onWords
      (deliverException_onWords 1 hm hstep.vbr)
  | none =>
    unfold interrupt at hint
    unfold step
    rw [hooks_eq, hstep.intercepts]
    cases hsoft : m.softint with
    | error k =>
      simp only [hsoft] at hint
      cases hint
    | ok k₁ =>
      simp only [hsoft] at hint ⊢
      cases hhard : k₁.hardclock with
      | error k =>
        simp only [hhard] at hint
        cases hint
      | ok k₂ =>
        simp only
        cases hardclock_ok hhard
        apply exec_onWords
        exact (((sameFlow_of_cpu (softint_ok_peeked hsoft).cpu).trans
          (forceSig_sameFlow k₁ _)).trans (sameFlow_of_cpu (snoopMaps_cpu _ _))).onWords hm

def stepTo (h : Host) (m : Machine) : Machine := (m.step h).1

theorem run_onWords {m : Machine} {hs : List Host} (hrun : Along stepTo Undisturbed m hs)
    (hm : m.OnWords) : (after stepTo m hs).OnWords :=
  hrun.invariant OnWords (fun _ _ hk hstep => step_onWords hstep hk) hm

/-! ## The return -/

/-- What a handler puts back before it returns. -/
structure Restored (k k' : Machine) : Prop where
  r : ∀ n : Fin 32, n ≠ 0 → k'.cpu.r n = k.cpu.r n
  epsr : k'.cpu.cr 2 = k.cpu.cr 2
  sxip : k'.cpu.cr 4 = k.cpu.cr 4
  snip : k'.cpu.cr 5 = k.cpu.cr 5
  sfip : k'.cpu.cr 6 = k.cpu.cr 6

/-- An exception return. -/
def IsRte (w : U32) : Prop := w >>> 26 = 0x3D ∧ fieldSub w = 0x3F

/-- The next step executes an `rte` that is not in a delay slot. -/
structure Returns (k : Machine) (h : Host) : Prop where
  quiet : k.Quiet h
  between : k.cpu.hasPending = false
  fetched : ∃ j, k.hooks h = .ok j ∧ j.fetch.2.ufault.pending = false ∧ IsRte j.fetch.1

theorem execute_rte {m : Machine} {w : U32} (h : Host) (pc : U32) (hw : IsRte w) :
    m.execute h w pc = m.execRte := by
  rw [execute_triadic h pc hw.1]
  unfold exec3D
  simp only
  rw [hw.2, if_neg (by decide), if_neg (by decide), if_neg (by decide), if_neg (by decide),
    if_neg (by decide), if_neg (by decide), if_pos rfl]

theorem step_returns {k : Machine} {h : Host} (hret : k.Returns h) :
    (k.step h).1.cpu.r = k.cpu.r ∧ (k.step h).1.cpu.cr 1 = k.cpu.cr 2 ∧
      (k.step h).1.cpu.pc = k.rteTarget ∧ (k.step h).1.cpu.hasPending = false ∧
      (k.step h).1.mem = k.mem ∧ (k.step h).1.ufault.pending = false := by
  obtain ⟨j, hhooks, hclear, hrte⟩ := hret.fetched
  have hpeek := ((hooks_ok hret.quiet hhooks).2.2).trans (fetch_peeked j)
  have hcpu : j.fetch.2.cpu = k.cpu := hpeek.cpu
  have hstep : (k.step h).1 =
      (j.fetch.2.tick.execRte.1).sequence j.cpu.pc j.fetch.2.tick.execRte.2 := by
    unfold step
    rw [hhooks]
    show (j.exec h).1 = _
    have hjump : j.fetch.2.tick.execRte.2 = .jump j.fetch.2.tick.execRte.1.rteTarget false := rfl
    have hfinish : j.fetch.2.tick.execRte.1.finish j.cpu.pc j.fetch.2.tick.execRte.2 =
        (j.fetch.2.tick.execRte.1.sequence j.cpu.pc j.fetch.2.tick.execRte.2, false) := by
      refine finish_done _ (fun v hflow => ?_) hclear
      rw [hjump] at hflow
      cases hflow
    rw [exec_eq, if_neg (by rw [hclear]; decide), execute_rte h _ hrte]
    exact congrArg Prod.fst hfinish
  have hslot : j.fetch.2.tick.execRte.1.cpu.hasPending = false := by
    show j.fetch.2.cpu.hasPending = false
    rw [hcpu]
    exact hret.between
  have hgone : (k.step h).1 = (j.fetch.2.tick.execRte.1).setPc j.fetch.2.tick.execRte.1.rteTarget := by
    rw [hstep]
    unfold sequence
    rw [if_neg (by rw [hslot]; decide)]
    rfl
  rw [hgone]
  refine ⟨?_, ?_, ?_, hslot, hpeek.mem, hclear⟩
  · show j.fetch.2.cpu.r = k.cpu.r
    rw [hcpu]
  · show j.fetch.2.cpu.cr 2 = k.cpu.cr 2
    rw [hcpu]
  · show rteTarget { j.fetch.2.tick with
        cpu := j.fetch.2.tick.cpu.setCr 1 (j.fetch.2.tick.cpu.cr 2) } = k.rteTarget
    unfold rteTarget
    show (let r := if j.fetch.2.cpu.cr 4 &&& 2 ≠ 0 then j.fetch.2.cpu.cr 4
        else if j.fetch.2.cpu.cr 5 &&& 2 ≠ 0 then j.fetch.2.cpu.cr 5 else j.fetch.2.cpu.cr 6
      r &&& ~~~3) = _
    rw [hcpu]

theorem resume_target {pc : U32} (hpc : Aligned pc) :
    pc &&& 2 = 0 ∧ (pc ||| 2) &&& 2 ≠ 0 ∧ (pc ||| 2) &&& ~~~3 = pc := by
  have hlow : pc &&& 2 = 0 := by
    rw [show (2 : U32) = 3 &&& 2 by decide, ← BitVec.and_assoc, show pc &&& 3 = 0#32 from hpc]
    exact BitVec.zero_and
  have hpage : pc &&& ~~~3 = pc := (Lib.Words.and_not_eq_iff pc 3).2 hpc
  refine ⟨hlow, ?_, ?_⟩
  · rw [BitVec.and_comm, BitVec.and_or_distrib_left, BitVec.and_comm 2 pc, hlow]
    decide
  · rw [BitVec.and_comm, BitVec.and_or_distrib_left, BitVec.and_comm _ pc, hpage,
      show (~~~3 : U32) &&& 2 = 0#32 by decide]
    exact BitVec.or_zero

/-- A handler that puts back what it was given returns to the interrupted
program as it was. -/
theorem return_context {m k k' : Machine} {h : Host} (hk : m.Delivered k) (hm : m.OnWords)
    (hrestored : k.Restored k') (hret : k'.Returns h) : SameContext m (k'.step h).1 := by
  obtain ⟨hr, hpsr, hpc, hslot, -, -⟩ := step_returns hret
  obtain ⟨hlow, hvalid, htarget⟩ := resume_target hm.pc
  have hcr : ∀ n, k.cpu.cr n = (m.deliverException 1).cpu.cr n := fun n => by rw [hk.cpu]
  have hregs : k.cpu.r = m.cpu.r := by
    rw [hk.cpu]
    rfl
  refine ⟨?_, ?_, ?_, hslot.trans hk.gated.between.symm⟩
  · intro n hn
    unfold rd Cpu.rd
    by_cases hzero : n = 0
    · rw [if_pos hzero, if_pos hzero]
    rw [if_neg hzero, if_neg hzero]
    have hfin : (⟨n.toNat, hn⟩ : Fin 32) ≠ 0 := by
      intro heq
      exact hzero (BitVec.eq_of_toNat_eq (congrArg (fun i : Fin 32 => i.val) heq))
    unfold Cpu.word
    rw [dif_pos hn, dif_pos hn, hr, hrestored.r _ hfin, hregs]
  · rw [hpsr, hrestored.epsr, hcr 2]
    rfl
  · have h4 : k'.cpu.cr 4 = m.cpu.pc := (hrestored.sxip.trans (hcr 4)).trans rfl
    have h5 : k'.cpu.cr 5 = m.cpu.pc ||| 2 := (hrestored.snip.trans (hcr 5)).trans rfl
    rw [hpc]
    unfold rteTarget
    simp only
    rw [h4, h5, if_neg (fun hne => hne hlow), if_pos hvalid]
    exact htarget

/-! ## The rest of the program -/

/-- Instruction by instruction, two machines execute what they have to answer
alike; before each, either may look at the interrupt level as a step does. -/
inductive Lockstep (P : U32 → Prop) : Machine → Machine → Machine → Machine → Prop where
  | done (m m' : Machine) : Lockstep P m m' m m'
  | next {m m' k k' n n' : Machine} (h : Host) (looked : Peeked m k) (looked' : Peeked m' k')
      (clear : k.ufault.pending = false) (clear' : k'.ufault.pending = false)
      (step : SameStep P k k') (rest : Lockstep P (k.exec h).1 (k'.exec h).1 n n') :
      Lockstep P m m' n n'

theorem Lockstep.alike {P : U32 → Prop} {m m' n n' : Machine} (hrun : Lockstep P m m' n n')
    (h : Alike P m m') : Alike P n n' := by
  induction hrun with
  | done m m' => exact h
  | next host looked looked' clear clear' step rest ih =>
    have hlooked := h.transport looked.cpu looked'.cpu looked.mem looked'.mem clear clear'
    exact ih (hlooked.exec host step).1

/-- After the return the program runs on as it would have without the interrupt. -/
theorem return_alike {P : U32 → Prop} {m k k' : Machine} {h : Host} (hk : m.Delivered k)
    (hm : m.OnWords) (hrestored : k.Restored k') (hret : k'.Returns h)
    (hmem : Mem.Agree P m.mem k'.mem) : Alike P m (k'.step h).1 := by
  obtain ⟨-, -, -, -, hkept, hclear⟩ := step_returns hret
  refine ⟨return_context hk hm hrestored hret, ?_, ?_, hk.gated.noFault, hclear⟩
  · intro hslot
    exact absurd (hslot.symm.trans hk.gated.between) (by decide)
  · rw [hkept]
    exact hmem

/-- Along a run in which no intercept acts and the vector base stays on a word
boundary, control stays on word boundaries; an interrupt is taken only between
instructions, with no fault pending, outside kernel calls and unmasked; and a
handler that puts back the registers, the saved PSR, the saved pipeline and the
program's memory comes back to the program as it was, which then runs on alike. -/
theorem interrupts_transparent {m : Machine} {hs : List Host}
    (hrun : Along stepTo Undisturbed m hs) (hm : m.OnWords) :
    (after stepTo m hs).OnWords ∧
      ∀ h k, (after stepTo m hs).intercepts h (after stepTo m hs).cpu.pc =
          .ok (after stepTo m hs) →
        (after stepTo m hs).interrupt = some k →
        (after stepTo m hs).step h = (k, false) ∧ (after stepTo m hs).Gated ∧
          ∀ k' h', k.Restored k' → k'.Returns h' →
            SameContext (after stepTo m hs) (k'.step h').1 ∧
              ∀ P n n', Mem.Agree P (after stepTo m hs).mem k'.mem →
                Lockstep P (after stepTo m hs) (k'.step h').1 n n' → Alike P n n' := by
  have hwords := run_onWords hrun hm
  generalize after stepTo m hs = s at hwords ⊢
  refine ⟨hwords, fun h k hno hint => ?_⟩
  have hk := interrupt_delivered hint
  refine ⟨step_of_interrupt hno hint, hk.gated, fun k' h' hrestored hret => ?_⟩
  exact ⟨return_context hk hwords hrestored hret, fun P n n' hmem hlock =>
    hlock.alike (return_alike hk hwords hrestored hret hmem)⟩

/-- A kernel with the hardclock due at `deadline`, the word `w` at the program
counter, and a handler of two words. -/
def preempted (w first second : U32) (deadline : U32) : Machine :=
  { Machine.initial { Config.initial with sysmode := true, clockIrq := true, tickDiv := 1 } false
      (Console.initial false false ⟨[], []⟩ ⟨[], []⟩) with
    mem := ((((Mem.blank false).w32 IRQ_MASK_REG IRQ_HARDCLOCK).w32 0x1000 w).w32 0xC0000008
      first).w32 0xC000000C second
    cpu := { Cpu.blank with
      pc := 0x1000
      r := Function.update (fun _ => 0) 2 0xC0000001
      cr := Function.update (fun _ => 0) 7 0xC0000000 }
    dev := { Devices.initial with clockDeadline := deadline } }

theorem preempted_quiet {m : Machine} (h : Host) (hforce : m.cfg.forceSigPc = 0)
    (hpc : m.cpu.pc = 0x1000 ∨ m.cpu.pc = 0xC0000008) : m.Quiet h := by
  rcases hpc with hpc | hpc
  · exact quiet_elsewhere h (by rw [hpc]; decide) hforce (by rw [hpc]; decide) (by rw [hpc]; decide)
  · exact quiet_elsewhere h (by rw [hpc]; decide) hforce (by rw [hpc]; decide) (by rw [hpc]; decide)

/-- A handler that is one `rte`. -/
theorem preempted_rte :
    SameContext (preempted 0x804040A0 0xF400FC00 0 0)
      (((preempted 0x804040A0 0xF400FC00 0 0).step Host.blank).1.step Host.blank).1 := by
  have hsome : (preempted 0x804040A0 0xF400FC00 0 0).interrupt.isSome = true := by decide +kernel
  obtain ⟨k, hk⟩ := Option.isSome_iff_exists.1 hsome
  have hrun : Along stepTo Undisturbed (preempted 0x804040A0 0xF400FC00 0 0) [] := trivial
  obtain ⟨-, htransparent⟩ := interrupts_transparent hrun ⟨by decide, by decide⟩
  obtain ⟨hstep, -, hreturn⟩ := htransparent Host.blank k
    (preempted_quiet _ rfl (.inl rfl)).intercepts hk
  rw [after_nil] at hstep hreturn
  have hfirst : k = ((preempted 0x804040A0 0xF400FC00 0 0).step Host.blank).1 := by rw [hstep]
  rw [hfirst] at hreturn
  have hquiet : ((preempted 0x804040A0 0xF400FC00 0 0).step Host.blank).1.Quiet Host.blank :=
    preempted_quiet _ (by decide +kernel) (.inr (by decide +kernel))
  refine (hreturn _ Host.blank ⟨fun _ _ => rfl, rfl, rfl, rfl, rfl⟩
    ⟨hquiet, by decide +kernel, _, hooks_gated hquiet (by decide +kernel), by decide +kernel, ?_⟩).1
  exact ⟨by decide +kernel, by decide +kernel⟩

/-- A program moves the vector base off its word boundary; a handler ends in an
`rte` in a delay slot; a program reads the register that delivery wrote. -/
theorem preempted_visible :
    ((preempted 0x800280E0 0 0 1).OnWords ∧ Aligned ((preempted 0x800280E0 0 0 1).cpu.cr 7) ∧
        Along stepTo (fun h m => m.intercepts h m.cpu.pc = .ok m) (preempted 0x800280E0 0 0 1)
          [Host.blank, Host.blank] ∧
        ¬(after stepTo (preempted 0x800280E0 0 0 1) [Host.blank, Host.blank]).OnWords) ∧
      ((preempted 0 0xC4000010 0xF400FC00 0).interrupt.isSome = true ∧
        ((preempted 0 0xC4000010 0xF400FC00 0).step Host.blank).1.Restored
          (after stepTo (preempted 0 0xC4000010 0xF400FC00 0) [Host.blank, Host.blank]) ∧
        IsRte (after stepTo (preempted 0 0xC4000010 0xF400FC00 0)
          [Host.blank, Host.blank]).fetch.1 ∧
        (after stepTo (preempted 0 0xC4000010 0xF400FC00 0)
          [Host.blank, Host.blank, Host.blank]).cpu.pc = 0xC0000048) ∧
      ((preempted 0x804040A0 0xF400FC00 0 0).interrupt.isSome = true ∧
        (after stepTo (preempted 0x804040A0 0xF400FC00 0 0)
          [Host.blank, Host.blank, Host.blank]).rd 2 = 0x1002 ∧
        ((preempted 0x804040A0 0xF400FC00 0 0).exec Host.blank).1.rd 2 = 0) := by
  refine ⟨⟨⟨by decide, by decide⟩, by decide, ⟨?_, ?_, trivial⟩, ?_⟩,
    ⟨by decide +kernel, ⟨?_, ?_, ?_, ?_, ?_⟩, ?_, by decide +kernel⟩, by decide +kernel,
    by decide +kernel, by decide +kernel⟩
  · exact (preempted_quiet _ rfl (.inl rfl)).intercepts
  · exact intercepts_elsewhere _ _ (by decide +kernel)
  · intro hwords
    exact absurd hwords.pc (by decide +kernel)
  · decide +kernel
  · decide +kernel
  · decide +kernel
  · decide +kernel
  · decide +kernel
  · exact ⟨by decide +kernel, by decide +kernel⟩

end Machine

end Nx88
