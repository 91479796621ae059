import Nx88.Cpu.Intercepts
import Nx88.Mmu.Faults
import Nx88.Tlb.Access
/-!
# What one instruction does

Said once for the whole instruction set: a memory form is one `memop` at its
effective address; everything else changes registers and control registers
only, and a trap changes nothing.  Below that, what a step does before its
fetch when no intercept acts and no interrupt is taken.
-/

namespace Nx88

open Lib.Words

namespace Cpu

theorem word_setWord (c : Cpu) {n : Nat} (hn : n < 96) (v : U32) : (c.setWord n v).word n = v := by
  unfold setWord word
  by_cases h : n < 32
  · simp only [dif_pos h, Function.update_self]
  · have hcr : n - 32 < 64 := by omega
    simp only [dif_neg h, dif_pos hcr, Function.update_self]

theorem word_setWord_of_ne (c : Cpu) {n k : Nat} (hne : k ≠ n) (v : U32) :
    (c.setWord n v).word k = c.word k := by
  unfold setWord word
  by_cases hn : n < 32
  · by_cases hk : k < 32
    · have hfin : (⟨k, hk⟩ : Fin 32) ≠ ⟨n, hn⟩ := fun h => hne (congrArg Fin.val h)
      simp only [dif_pos hn, dif_pos hk, Function.update_of_ne hfin]
    · simp only [dif_pos hn, dif_neg hk]
  · by_cases hncr : n - 32 < 64
    · by_cases hk : k < 32
      · simp only [dif_neg hn, dif_pos hncr, dif_pos hk]
      · by_cases hkcr : k - 32 < 64
        · have hfin : (⟨k - 32, hkcr⟩ : Fin 64) ≠ ⟨n - 32, hncr⟩ := by
            intro h
            have hval := congrArg Fin.val h
            simp only at hval
            omega
          simp only [dif_neg hn, dif_pos hncr, dif_neg hk, dif_pos hkcr,
            Function.update_of_ne hfin]
        · simp only [dif_neg hn, dif_pos hncr, dif_neg hk, dif_neg hkcr]
    · simp only [dif_neg hn, dif_neg hncr]

theorem rd_wr (c : Cpu) {n : U32} (hzero : n ≠ 0) (hn : n.toNat < 96) (v : U32) :
    (c.wr n v).rd n = v := by
  unfold wr rd
  rw [if_neg hzero, if_neg hzero]
  exact word_setWord c hn v

theorem rd_wr_of_ne (c : Cpu) {n k : U32} (hne : k ≠ n) (v : U32) :
    (c.wr n v).rd k = c.rd k := by
  unfold wr rd
  by_cases hk : k = 0
  · rw [if_pos hk, if_pos hk]
  rw [if_neg hk, if_neg hk]
  by_cases hn : n = 0
  · rw [if_pos hn]
  · rw [if_neg hn]
    exact word_setWord_of_ne c (fun h => hne (BitVec.eq_of_toNat_eq h)) v

end Cpu

namespace Machine

theorem rd_wr (m : Machine) {n : U32} (hzero : n ≠ 0) (hn : n.toNat < 96) (v : U32) :
    (m.wr n v).rd n = v := Cpu.rd_wr m.cpu hzero hn v

theorem rd_wr_of_ne (m : Machine) {n k : U32} (hne : k ≠ n) (v : U32) :
    (m.wr n v).rd k = m.rd k := Cpu.rd_wr_of_ne m.cpu hne v

/-! ## Registers only -/

/-- Nothing but general and control registers has changed. -/
def RegsOnly (m m' : Machine) : Prop :=
  ∃ r cr, m' = { m with cpu := { m.cpu with r := r, cr := cr } }

theorem RegsOnly.refl (m : Machine) : RegsOnly m m := ⟨m.cpu.r, m.cpu.cr, rfl⟩

theorem RegsOnly.trans {m m' m'' : Machine} (h₁ : RegsOnly m m') (h₂ : RegsOnly m' m'') :
    RegsOnly m m'' := by
  obtain ⟨r₁, cr₁, rfl⟩ := h₁
  obtain ⟨r₂, cr₂, rfl⟩ := h₂
  exact ⟨r₂, cr₂, rfl⟩

theorem setWord_fields (c : Cpu) (n : Nat) (v : U32) :
    ∃ r cr, c.setWord n v = { c with r := r, cr := cr } := by
  unfold Cpu.setWord
  split
  · exact ⟨_, c.cr, rfl⟩
  split
  · exact ⟨c.r, _, rfl⟩
  · exact ⟨c.r, c.cr, rfl⟩

theorem wr_regsOnly (m : Machine) (n v : U32) : RegsOnly m (m.wr n v) := by
  unfold wr Cpu.wr
  split
  · exact RegsOnly.refl m
  · obtain ⟨r, cr, heq⟩ := setWord_fields m.cpu n.toNat v
    exact ⟨r, cr, by rw [heq]⟩

theorem setCr_regsOnly (m : Machine) (n : Fin 64) (v : U32) :
    RegsOnly m { m with cpu := m.cpu.setCr n v } :=
  ⟨m.cpu.r, _, rfl⟩

theorem bitfield_regsOnly (m : Machine) (sub D a width offset : U32) :
    RegsOnly m (m.bitfield sub D a width offset) := by
  unfold bitfield
  split
  · exact wr_regsOnly m _ _
  · exact RegsOnly.refl m

theorem fpWrite_regsOnly (m : Machine) (h : Host) (reg prec : U32) (v : U64) :
    RegsOnly m (m.fpWrite h reg prec v) := by
  unfold fpWrite
  split
  · exact wr_regsOnly m _ _
  · exact (wr_regsOnly m _ _).trans (wr_regsOnly _ _ _)

theorem link_regsOnly (m : Machine) (pc : U32) (delayed : Bool) :
    RegsOnly m (m.link pc delayed) := wr_regsOnly m _ _

/-! ## The instruction set -/

/-- Sub-opcode and effective address of a load, store, exchange or address
computation, in the immediate or in the triadic form. -/
def memForm (m : Machine) (w : U32) : Option (U32 × U32) :=
  let op := w >>> 26
  let a := m.rd (fieldS1 w)
  let sub := fieldSub w
  if op < 0x10 then some (op, a + fieldImm w)
  else if op = 0x3D ∧ sub < 0x10 then
    let b := m.rd (fieldS2 w)
    some (sub, a + if fieldVar w &&& 0x10 ≠ 0 then b * memopScale sub else b)
  else none

/-- What an instruction outside the memory forms may do: registers only, and
not even those when it traps. -/
def Plain (m : Machine) (x : Machine × Flow) : Prop :=
  RegsOnly m x.1 ∧ ∀ vector, x.2 = .trap vector → x.1 = m

theorem plain_next {m m' : Machine} (h : RegsOnly m m') : Plain m (m', .next) :=
  ⟨h, fun _ htrap => (nomatch htrap)⟩

theorem plain_jump {m m' : Machine} (h : RegsOnly m m') (target : U32) (delayed : Bool) :
    Plain m (m', .jump target delayed) :=
  ⟨h, fun _ htrap => (nomatch htrap)⟩

theorem plain_self (m : Machine) (flow : Flow) : Plain m (m, flow) :=
  ⟨RegsOnly.refl m, fun _ _ => rfl⟩

theorem execImm_plain (m : Machine) (op D a b : U32) : Plain m (m.execImm op D a b) := by
  unfold execImm
  split
  case h_11 => split <;> first | exact plain_self m _ | exact plain_next (wr_regsOnly m _ _)
  case h_15 => split <;> first | exact plain_self m _ | exact plain_next (wr_regsOnly m _ _)
  case h_17 => exact plain_self m _
  all_goals exact plain_next (wr_regsOnly m _ _)

theorem execCr_plain (m : Machine) (w D a : U32) : Plain m (m.execCr w D a) := by
  unfold execCr
  simp only
  split
  · exact plain_next (wr_regsOnly m _ _)
  · exact plain_next (wr_regsOnly m _ _)
  · exact plain_next (setCr_regsOnly m _ _)
  · exact plain_next (setCr_regsOnly m _ _)
  · exact plain_next ((setCr_regsOnly m _ _).trans (wr_regsOnly _ _ _))
  · exact plain_next ((setCr_regsOnly m _ _).trans (wr_regsOnly _ _ _))
  · exact plain_self m _

theorem execFpu_plain (m : Machine) (h : Host) (w D S1 : U32) :
    Plain m (m.execFpu h w D S1) := by
  unfold execFpu
  simp only
  split
  case h_7 => exact plain_next (wr_regsOnly m _ _)
  case h_8 => exact plain_next (wr_regsOnly m _ _)
  case h_9 => exact plain_next (wr_regsOnly m _ _)
  case h_10 => exact plain_next (wr_regsOnly m _ _)
  case h_11 => exact plain_self m _
  all_goals exact plain_next (fpWrite_regsOnly m h _ _ _)

theorem execBr_plain (m : Machine) (w pc op : U32) : Plain m (m.execBr w pc op) := by
  unfold execBr
  simp only
  split
  · exact plain_jump (link_regsOnly m _ _) _ _
  · exact plain_jump (RegsOnly.refl m) _ _

theorem exec3C_plain (m : Machine) (w D a : U32) : Plain m (m.exec3C w D a) := by
  unfold exec3C
  simp only
  split
  · exact plain_self m _
  · exact plain_next (bitfield_regsOnly m _ _ _ _ _)

theorem execTri_plain (m : Machine) (sub D a b : U32) : Plain m (m.execTri sub D a b) := by
  unfold execTri
  split
  case h_9 => split <;> first | exact plain_self m _ | exact plain_next (wr_regsOnly m _ _)
  case h_13 => split <;> first | exact plain_self m _ | exact plain_next (wr_regsOnly m _ _)
  case h_15 => exact plain_self m _
  all_goals exact plain_next (wr_regsOnly m _ _)

theorem execRte_plain (m : Machine) : Plain m m.execRte :=
  plain_jump (setCr_regsOnly m _ _) _ _

theorem exec3D_plain {m : Machine} {w : U32} (pc D a : U32) (hsub : ¬fieldSub w < 0x10) :
    Plain m (m.exec3D w pc D a) := by
  unfold exec3D
  simp only
  rw [if_neg hsub]
  split
  · exact execTri_plain m _ _ _ _
  split
  · exact plain_next (bitfield_regsOnly m _ _ _ _ _)
  split
  · exact plain_next (wr_regsOnly m _ _)
  split
  · exact plain_next (wr_regsOnly m _ _)
  split
  · split
    · exact plain_jump (link_regsOnly m _ _) _ _
    · exact plain_jump (RegsOnly.refl m) _ _
  split
  · exact execRte_plain m
  · exact plain_self m _

/-! ## The three opcodes with a second dispatch -/

theorem execute_immediate {m : Machine} {w : U32} (h : Host) (pc : U32)
    (hlow : (0x10 : U32) ≤ w >>> 26) (hhigh : w >>> 26 < (0x20 : U32)) :
    m.execute h w pc =
      m.execImm (w >>> 26) (fieldD w) (m.rd (fieldS1 w)) (fieldImm w) := by
  unfold execute
  simp only
  rw [if_neg (BitVec.not_lt.2 hlow), if_pos hhigh]

theorem execute_field {m : Machine} {w : U32} (h : Host) (pc : U32) (hop : w >>> 26 = 0x3C) :
    m.execute h w pc = m.exec3C w (fieldD w) (m.rd (fieldS1 w)) := by
  unfold execute
  simp only
  rw [hop, if_neg (by decide), if_neg (by decide), if_neg (by decide), if_neg (by decide),
    if_neg (by decide), if_neg (by decide), if_neg (by decide), if_pos rfl]

theorem execute_triadic {m : Machine} {w : U32} (h : Host) (pc : U32) (hop : w >>> 26 = 0x3D) :
    m.execute h w pc = m.exec3D w pc (fieldD w) (m.rd (fieldS1 w)) := by
  unfold execute
  simp only
  rw [hop, if_neg (by decide), if_neg (by decide), if_neg (by decide), if_neg (by decide),
    if_neg (by decide), if_neg (by decide), if_neg (by decide), if_neg (by decide), if_pos rfl]

/-! ## Memory forms and the others -/

theorem execute_mem {m : Machine} {h : Host} {w pc sub ea : U32}
    (hform : m.memForm w = some (sub, ea)) :
    m.execute h w pc = (m.memop sub (fieldD w) ea, .next) := by
  unfold memForm at hform
  simp only at hform
  split at hform
  · rename_i hop
    cases hform
    unfold execute
    simp only
    rw [if_pos hop]
  · rename_i hop
    split at hform
    · rename_i htri
      cases hform
      rw [execute_triadic h pc htri.1]
      unfold exec3D
      simp only
      rw [if_pos htri.2]
    · cases hform

theorem execute_plain {m : Machine} {w : U32} (h : Host) (pc : U32)
    (hform : m.memForm w = none) : Plain m (m.execute h w pc) := by
  unfold memForm at hform
  simp only at hform
  unfold execute
  simp only
  split at hform
  · cases hform
  rename_i hop
  split at hform
  · cases hform
  rename_i htri
  rw [if_neg hop]
  split
  · exact execImm_plain m _ _ _ _
  split
  · exact execCr_plain m _ _ _
  split
  · exact execFpu_plain m h _ _ _
  split
  · exact execBr_plain m _ _ _
  split
  · exact plain_self m _
  split
  · exact plain_self m _
  split
  · exact exec3C_plain m _ _ _
  split
  · rename_i h3D
    exact exec3D_plain pc _ _ (fun hsub => htri ⟨h3D, hsub⟩)
  · exact plain_self m _

/-! ## The data access -/

/-- The machine on which a data access is carried out, or on which it faulted. -/
def memLooked (m : Machine) (sub ea : U32) : Machine :=
  ((m.setXlatWrite (isStore sub)).translate ea false).2.setXlatWrite false

def accessRecord (m : Machine) (sub ea : U32) : UFault :=
  ⟨true, ea, m.cpu.pc, false, isStore sub, memopScale sub⟩

def memAddr (m : Machine) (sub ea : U32) : U32 :=
  ((m.setXlatWrite (isStore sub)).translate ea false).1

def memAborted (m : Machine) (sub ea : U32) : Machine :=
  { m.memLooked sub ea with
    ufault := { (m.memLooked sub ea).ufault with write := isStore sub, width := memopScale sub } }

theorem memop_eq (m : Machine) (sub D ea : U32) :
    m.memop sub D ea =
      if 0x0C ≤ sub ∧ sub ≤ 0x0F then m.wr D ea
      else if (m.memLooked sub ea).ufault.pending = true then m.memAborted sub ea
      else (m.memLooked sub ea).memAccess sub D (m.memAddr sub ea) := rfl

theorem memop_lda {m : Machine} {sub : U32} (D ea : U32) (hsub : 0x0C ≤ sub ∧ sub ≤ 0x0F) :
    m.memop sub D ea = m.wr D ea := by
  rw [memop_eq, if_pos hsub]

theorem memop_abort {m : Machine} {sub : U32} (D ea : U32) (hsub : ¬(0x0C ≤ sub ∧ sub ≤ 0x0F))
    (hfault : (m.memLooked sub ea).ufault.pending = true) :
    m.memop sub D ea = m.memAborted sub ea := by
  rw [memop_eq, if_neg hsub, if_pos hfault]

theorem memop_done {m : Machine} {sub : U32} (D ea : U32) (hsub : ¬(0x0C ≤ sub ∧ sub ≤ 0x0F))
    (hfault : (m.memLooked sub ea).ufault.pending = false) :
    m.memop sub D ea = (m.memLooked sub ea).memAccess sub D (m.memAddr sub ea) := by
  rw [memop_eq, if_neg hsub, if_neg (by rw [hfault]; decide)]

theorem memAborted_ufault {m : Machine} {sub ea : U32} (hclear : m.ufault.pending = false)
    (hfault : (m.memLooked sub ea).ufault.pending = true) :
    (m.memAborted sub ea).ufault = m.accessRecord sub ea := by
  have hrecord := translate_faultOf (m.setXlatWrite (isStore sub)) ea false
  have hlookup : (m.memLooked sub ea).ufault =
      ((m.setXlatWrite (isStore sub)).translate ea false).2.ufault := rfl
  unfold memAborted
  simp only
  rw [hlookup] at hfault ⊢
  rcases hrecord with hkept | ⟨-, hmiss | ⟨-, hprotect⟩⟩
  · rw [hkept] at hfault
    exact absurd (hfault.symm.trans hclear) (by decide)
  · rw [hmiss]
    rfl
  · rw [hprotect]
    rfl

/-- An access looked up: no trace but those of a translation. -/
theorem memLooked_peeked {m : Machine} (sub ea : U32) (hxlat : m.xlatWrite = false) :
    Peeked m (m.memLooked sub ea) := by
  obtain ⟨t, u, s, heq⟩ := translate_peeked (m.setXlatWrite (isStore sub)) ea false
  refine ⟨t, u, s, ?_⟩
  unfold memLooked
  rw [heq, ← hxlat]
  rfl

theorem memop_xlatWrite (m : Machine) (sub D ea : U32) (hxlat : m.xlatWrite = false) :
    (m.memop sub D ea).xlatWrite = false := by
  rw [memop_eq]
  split
  · exact hxlat
  split
  · rfl
  · obtain ⟨c, p, d, g, t, heq, -⟩ :=
      memAccess_accessed (m.memLooked sub ea) sub D (m.memAddr sub ea)
    rw [heq]
    rfl

/-! ## Before the fetch -/

/-- No intercept acts on this step and no snoop notes anything. -/
structure Quiet (m : Machine) (h : Host) : Prop where
  intercepts : m.intercepts h m.cpu.pc = .ok m
  forceSig : ¬(m.cfg.sysmode ∧ m.cfg.forceSigPc ≠ 0 ∧ m.cpu.pc = m.cfg.forceSigPc)
  mapFn : ¬(m.mem.realmm ∧ m.cpu.pc = PMAP_MAP_FN ∧ 0xE0000000 ≤ m.rd 4)
  mailbox : ¬(m.mem.realmm ∧ m.cpu.pc = 0xC00A0E80)

def interceptPcs : List U32 :=
  [0xC00AAA44, TSLEEP_ENTRY, 0xC0055CC0, 0xC00BC148, 0xC00A79E4, 0xC00ADCE0, 0xC00BD498,
    SDSTRATEGY, 0xC009BA14]

theorem intercepts_elsewhere (m : Machine) (h : Host) {pc : U32} (hpc : pc ∉ interceptPcs) :
    m.intercepts h pc = .ok m := by
  simp only [interceptPcs, List.mem_cons, List.not_mem_nil, or_false, not_or] at hpc
  obtain ⟨hreplay, hsleep, hswitch, hpoll, hshoot, hvme, hslot, hstrategy, hrtc⟩ := hpc
  have h₁ : m.replaySkip pc = .ok m := if_neg fun hc => hreplay hc.2.2
  have h₂ : m.shaSleep pc = .ok m := if_neg fun hc => hsleep hc.2.2.1
  have h₃ : m.shaSwitch pc = .ok m := if_neg fun hc => hswitch hc.2.2.1
  have h₄ : m.shaPoll pc = .ok m := if_neg fun hc => hpoll hc.2.2
  have h₅ : m.tlbShootdown pc = .ok m := if_neg fun hc => hshoot hc.2
  have h₆ : m.shaSegment pc = .ok m := if_neg fun hc => hsleep hc.2.2.1
  have h₇ : m.vmeWindows pc = .ok m := if_neg fun hc => hvme hc.2
  have h₈ : m.shaSlot pc = .ok m := if_neg fun hc => hslot hc.2.2
  have h₉ : m.strategy h pc = .ok m :=
    if_neg fun hc => hc.2.2.1.elim hstrategy fun hwait => hsleep hwait.1
  have h₁₀ : m.biowait h pc = .ok m := if_neg fun hc => hsleep hc.2.2.1
  have h₁₁ : m.synchrtc pc = .ok m := if_neg fun hc => hrtc hc.2.2
  unfold intercepts
  simp only [h₁, h₂, h₃, h₄, h₅, h₆, h₇, h₈, h₉, h₁₀, h₁₁, bind, Except.bind]

theorem quiet_elsewhere {m : Machine} (h : Host) (hpc : m.cpu.pc ∉ interceptPcs)
    (hforce : m.cfg.forceSigPc = 0) (hmap : m.cpu.pc ≠ PMAP_MAP_FN)
    (hbox : m.cpu.pc ≠ 0xC00A0E80) : m.Quiet h :=
  ⟨intercepts_elsewhere m h hpc, fun hc => hc.2.1 hforce, fun hc => hmap hc.2.1,
    fun hc => hbox hc.2⟩

theorem kread_peeked (m : Machine) (va : U32) : Peeked m (m.kread va).2 :=
  translate_peeked m va false

theorem eq_of_ite_ok {c : Prop} [Decidable c] {a b x : Machine}
    (h : (if c then .error a else .ok b : Except Machine Machine) = .ok x) : x = b := by
  split at h
  · cases h
  · cases h
    rfl

/-- The machine after the two kernel globals of the software interrupt are read. -/
def splLooked (m : Machine) : Machine := ((m.kread SPL_LEVEL).2.kread SOFTINT_PENDING).2

/-- Is a software interrupt above the current level, and its rate limit past? -/
def softintDue (m : Machine) : Prop :=
  let spl := (m.kread SPL_LEVEL).1
  let pend := ((m.kread SPL_LEVEL).2.kread SOFTINT_PENDING).1
  let opened : U32 := if 31 ≤ spl then 0 else ~~~(((2 : U32) <<< spl.toNat) - 1)
  pend &&& opened ≠ 0 ∧ spl ≠ 0x1F ∧ m.splLooked.dev.nextSoftint ≤ m.splLooked.cpu.count

instance (m : Machine) : Decidable m.softintDue := by
  unfold softintDue
  infer_instance

theorem softint_eq (m : Machine) :
    m.softint =
      if m.interruptible ∧ m.mem.r32 IRQ_MASK_REG &&& IRQ_SOFTINT ≠ 0 then
        if m.softintDue then
          .error (({ m.splLooked with
            dev := { m.splLooked.dev with
              nextSoftint := m.splLooked.cpu.count + m.splLooked.cfg.softintPeriod,
              irqSource := IRQ_SOFTINT } } : Machine).deliverException 1)
        else .ok m.splLooked
      else .ok m := rfl

theorem splLooked_peeked (m : Machine) : Peeked m m.splLooked :=
  (kread_peeked m SPL_LEVEL).trans (kread_peeked _ SOFTINT_PENDING)

/-- Without a software interrupt the two global reads are all that happened. -/
theorem softint_ok {m m' : Machine} (h : m.softint = .ok m') :
    m' = m ∨ m' = m.splLooked := by
  rw [softint_eq] at h
  split at h
  · exact .inr (eq_of_ite_ok h)
  · cases h
    exact .inl rfl

theorem softint_ok_peeked {m m' : Machine} (h : m.softint = .ok m') : Peeked m m' := by
  rcases softint_ok h with rfl | rfl
  · exact Peeked.refl m'
  · exact splLooked_peeked m

theorem eq_of_ite_error {c : Prop} [Decidable c] {a b x : Machine}
    (h : (if c then .error a else .ok b : Except Machine Machine) = .error x) : c ∧ x = a := by
  split at h
  · cases h
    exact ⟨‹c›, rfl⟩
  · cases h

def takeInterrupt (m : Machine) (d : Devices) : Machine :=
  ({ m with dev := d } : Machine).deliverException 1

@[simp] theorem takeInterrupt_ufault (m : Machine) (d : Devices) :
    (m.takeInterrupt d).ufault = m.ufault := rfl

@[simp] theorem takeInterrupt_cfg (m : Machine) (d : Devices) :
    (m.takeInterrupt d).cfg = m.cfg := rfl

@[simp] theorem takeInterrupt_dev (m : Machine) (d : Devices) :
    (m.takeInterrupt d).dev = d := rfl

@[simp] theorem takeInterrupt_count (m : Machine) (d : Devices) :
    (m.takeInterrupt d).cpu.count = m.cpu.count := rfl

@[simp] theorem takeInterrupt_xlatWrite (m : Machine) (d : Devices) :
    (m.takeInterrupt d).xlatWrite = m.xlatWrite := rfl

@[simp] theorem takeInterrupt_mem (m : Machine) (d : Devices) :
    (m.takeInterrupt d).mem = m.mem := rfl

@[simp] theorem takeInterrupt_cpu (m : Machine) (d : Devices) :
    (m.takeInterrupt d).cpu = (m.deliverException 1).cpu := rfl

theorem softint_error {m m' : Machine} (h : m.softint = .error m') :
    m.interruptible = true ∧
      m' = m.splLooked.takeInterrupt
        { m.dev with
          nextSoftint := m.cpu.count + m.cfg.softintPeriod, irqSource := IRQ_SOFTINT } := by
  rw [softint_eq] at h
  split at h
  · rename_i hgate
    have hlooked := (eq_of_ite_error h).2
    obtain ⟨t, u, s, heq⟩ := splLooked_peeked m
    rw [heq] at hlooked ⊢
    exact ⟨hgate.1, hlooked⟩
  · cases h

def clockTaken (m : Machine) : Machine :=
  { m with
    dev := { m.dev with
      nextClock := m.cpu.count + m.cfg.clockPeriod, clockArmed := false } }

def clockSource (pend : U32) : U32 :=
  if pend ≠ 0 then IRQ_HARDCLOCK ||| IRQ_SOFTINT else IRQ_HARDCLOCK

theorem hardclock_eq (m : Machine) :
    m.hardclock =
      if m.interruptible ∧ m.clockDue ∧ m.mem.r32 IRQ_MASK_REG &&& IRQ_HARDCLOCK ≠ 0 then
        .error (({ (m.clockTaken.kread SOFTINT_PENDING).2 with
          dev := { (m.clockTaken.kread SOFTINT_PENDING).2.dev with
            irqSource := clockSource (m.clockTaken.kread SOFTINT_PENDING).1 } } :
          Machine).deliverException 1)
      else .ok m := rfl

theorem hardclock_ok {m m' : Machine} (h : m.hardclock = .ok m') : m' = m := by
  unfold hardclock at h
  exact eq_of_ite_ok h

/-- A hardclock that is taken: the comparator was due, and its latch is cleared. -/
theorem hardclock_error {m m' : Machine} (h : m.hardclock = .error m') :
    m.interruptible = true ∧ m.clockDue = true ∧
      m' = (m.clockTaken.kread SOFTINT_PENDING).2.takeInterrupt
        { m.clockTaken.dev with
          irqSource := clockSource (m.clockTaken.kread SOFTINT_PENDING).1 } := by
  rw [hardclock_eq] at h
  obtain ⟨hgate, heq⟩ := eq_of_ite_error h
  have hpeek := kread_peeked m.clockTaken SOFTINT_PENDING
  generalize m.clockTaken.kread SOFTINT_PENDING = x at heq hpeek ⊢
  obtain ⟨t, u, s, hx⟩ := hpeek
  rw [hx] at heq ⊢
  exact ⟨hgate.1, hgate.2.1, heq⟩

theorem hooks_eq (m : Machine) (h : Host) :
    m.hooks h =
      match m.intercepts h m.cpu.pc with
      | .error k => .error k
      | .ok m₁ =>
        match m₁.softint with
        | .error k => .error k
        | .ok m₂ =>
          match m₂.hardclock with
          | .error k => .error k
          | .ok m₃ => .ok ((m₃.forceSig m.cpu.pc).snoopMaps m.cpu.pc) := by
  unfold hooks
  simp only
  cases m.intercepts h m.cpu.pc with
  | error k => rfl
  | ok m₁ =>
    simp only [bind, Except.bind]
    cases m₁.softint with
    | error k => rfl
    | ok m₂ =>
      simp only
      cases m₂.hardclock with
      | error k => rfl
      | ok m₃ => rfl

theorem snoopMaps_none {m : Machine} {pc : U32}
    (hmap : ¬(m.mem.realmm ∧ pc = PMAP_MAP_FN ∧ 0xE0000000 ≤ m.rd 4))
    (hbox : ¬(m.mem.realmm ∧ pc = 0xC00A0E80)) : m.snoopMaps pc = m := by
  unfold snoopMaps
  simp only
  rw [if_neg hmap, if_neg hbox]

theorem snoops_quiet {m m' : Machine} {h : Host} (hquiet : m.Quiet h) (hpeek : Peeked m m') :
    (m'.forceSig m.cpu.pc).snoopMaps m.cpu.pc = m' := by
  obtain ⟨t, u, s, rfl⟩ := hpeek
  unfold forceSig
  rw [if_neg hquiet.forceSig]
  exact snoopMaps_none hquiet.mapFn hquiet.mailbox

/-- A quiet step that reaches its fetch has looked at kernel globals at most. -/
theorem hooks_ok {m m' : Machine} {h : Host} (hquiet : m.Quiet h) (hok : m.hooks h = .ok m') :
    m.softint = .ok m' ∧ m'.hardclock = .ok m' ∧ Peeked m m' := by
  rw [hooks_eq, hquiet.intercepts] at hok
  simp only at hok
  cases hsoft : m.softint with
  | error k =>
    rw [hsoft] at hok
    cases hok
  | ok m₂ =>
    have hpeek := softint_ok_peeked hsoft
    rw [hsoft] at hok
    simp only at hok
    cases hhard : m₂.hardclock with
    | error k =>
      rw [hhard] at hok
      cases hok
    | ok m₃ =>
      rw [hhard] at hok
      cases hardclock_ok hhard
      simp only [snoops_quiet hquiet hpeek, Except.ok.injEq] at hok
      subst hok
      exact ⟨rfl, hhard, hpeek⟩

theorem hooks_gated {m : Machine} {h : Host} (hquiet : m.Quiet h)
    (hgate : ¬m.interruptible = true) : m.hooks h = .ok m := by
  have hsoft : m.softint = .ok m := if_neg fun hc => hgate hc.1
  have hhard : m.hardclock = .ok m := if_neg fun hc => hgate hc.1
  rw [hooks_eq, hquiet.intercepts]
  simp only [hsoft, hhard, snoops_quiet hquiet (Peeked.refl m)]

theorem hooks_noClock {m : Machine} {h : Host} (hquiet : m.Quiet h)
    (hclock : m.cfg.clockIrq = false) : m.hooks h = .ok m := by
  apply hooks_gated hquiet
  unfold interruptible
  rw [hclock]
  simp

theorem Peeked.memForm {m m' : Machine} (h : Peeked m m') (w : U32) :
    m'.memForm w = m.memForm w := by
  obtain ⟨t, u, s, rfl⟩ := h
  rfl

/-- The instruction word at the program counter. -/
def fetch (m : Machine) : U32 × Machine :=
  let (pa, m') := m.translate m.cpu.pc true
  (m'.mem.r32 pa, m')

theorem exec_eq (m : Machine) (h : Host) :
    m.exec h =
      if m.fetch.2.ufault.pending = true then (m.fetch.2, false)
      else
        (m.fetch.2.tick.execute h m.fetch.1 m.cpu.pc).1.finish m.cpu.pc
          (m.fetch.2.tick.execute h m.fetch.1 m.cpu.pc).2 := rfl

theorem fetch_peeked (m : Machine) : Peeked m m.fetch.2 := translate_peeked m _ _

@[simp] theorem sequence_ufault (m : Machine) (pc : U32) (flow : Flow) :
    (m.sequence pc flow).ufault = m.ufault := by
  unfold sequence
  split
  · rfl
  split <;> rfl

theorem finish_done {m : Machine} {flow : Flow} (pc : U32) (hflow : ∀ v, flow ≠ .trap v)
    (hclear : m.ufault.pending = false) : m.finish pc flow = (m.sequence pc flow, false) := by
  cases flow with
  | trap v => exact absurd rfl (hflow v)
  | next => exact if_neg (by rw [hclear]; decide)
  | jump target delayed => exact if_neg (by rw [hclear]; decide)

@[simp] theorem finish_ufault (m : Machine) (pc : U32) (flow : Flow) :
    (m.finish pc flow).1.ufault = m.ufault := by
  unfold finish
  split
  · rfl
  split
  · rfl
  · exact sequence_ufault m pc flow

end Machine

end Nx88
