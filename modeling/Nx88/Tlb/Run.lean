import Nx88.Tlb.Access
/-!
# Runs over the cache

A run interleaves translations with stores, mode changes and everything else
that happens to the machine.  Beside the machine the run records, for every
entry, the machine it was filled on; the invariant says that an entry holds what
a lookup gave then, and that nothing but descriptors has changed since.
-/

namespace Nx88

open Lib.Words

/-- One thing that happens to the machine. -/
inductive Op where
  /-- `translate`, with `xlat_write` as its caller sets it -/
  | translate (va : U32) (code write : Bool)
  /-- a load, store, exchange or register access at a physical address -/
  | access (sub D pa : U32)
  /-- a byte stored by the emulator itself -/
  | poke (a : U32) (v : U8)
  /-- registers, program counter and mode -/
  | setCpu (c : Cpu)
  /-- the fault record, cleared or refined by its reader -/
  | setFault (u : UFault)
  | reportTrap (vector pc : U32)
  | mapDevice (va pa : U32)
  | rebias (b : U32)

namespace Op

def run : Op → Machine → Machine
  | translate va code write, m =>
    ((m.setXlatWrite write).translate va code).2.setXlatWrite false
  | access sub D pa, m => m.memAccess sub D pa
  | poke a v, m => m.setMem (m.mem.w8 a v)
  | setCpu c, m => { m with cpu := c }
  | setFault u, m => { m with ufault := u }
  | reportTrap vector pc, m => { m with trapTaken := true, trapVector := vector, trapPc := pc }
  | mapDevice va pa, m => { m with devmap := devmapAdd m.devmap va pa }
  | rebias b, m => { m with ktabBias := b }

def outcome : Op → Machine → List (U32 × UFault)
  | translate va code write, m =>
    let x := (m.setXlatWrite write).translate va code
    [(x.1, x.2.ufault)]
  | _, _ => []

/-- The same step with the cache emptied before a translation. -/
def emptied : Op → Machine → Machine
  | translate _ _ _, m => m.tlbFlush
  | _, m => m

def IsTranslate : Op → Prop
  | translate _ _ _ => True
  | _ => False

/-- A word or double-word store, wherever it goes. -/
def IsWordStore (op : Op) : Prop := ∃ D pa, op = access 0x09 D pa ∨ op = access 0x08 D pa

/-- A word or double-word store one of whose words is the one at `a`. -/
def StoresTo (a : U32) (op : Op) : Prop :=
  ∃ D, op = access 0x09 D a ∨ op = access 0x08 D a ∨ op = access 0x08 D (a - 4)

end Op

def outcomes : List Op → Machine → List (U32 × UFault)
  | [], _ => []
  | op :: ops, m => op.outcome m ++ outcomes ops (op.run m)

/-- What they return when the cache is emptied before each. -/
def outcomesEmptied : List Op → Machine → List (U32 × UFault)
  | [], _ => []
  | op :: ops, m =>
    op.outcome (op.emptied m) ++ outcomesEmptied ops (op.run (op.emptied m))

/-! ## Runs with the origin of each entry -/

structure Traced where
  m : Machine
  /-- the machine on which each entry was last written -/
  filled : Bool → U32 → Machine

namespace Traced

def step (t : Traced) (op : Op) : Traced where
  m := op.run t.m
  filled code i := if (op.run t.m).tlb code i = t.m.tlb code i then t.filled code i else t.m

/-- The machine on which the entry for `va` was filled. -/
def origin (t : Traced) (va : U32) (code : Bool) : Machine :=
  t.filled code (Machine.tlbIndex va)

theorem origin_step_of_eq {t : Traced} {op : Op} {va : U32} {code : Bool}
    (h : (op.run t.m).tlb code (Machine.tlbIndex va) =
      t.m.tlb code (Machine.tlbIndex va)) :
    (t.step op).origin va code = t.origin va code := if_pos h

theorem origin_step_of_ne {t : Traced} {op : Op} {va : U32} {code : Bool}
    (h : (op.run t.m).tlb code (Machine.tlbIndex va) ≠
      t.m.tlb code (Machine.tlbIndex va)) :
    (t.step op).origin va code = t.m := if_neg h

/-- If the translation of `va` is cached, every descriptor word consulted in
forming it holds what it held then. -/
def Unchanged (t : Traced) (va : U32) (code : Bool) : Prop :=
  t.m.Hit va code →
    ∀ a ∈ (t.origin va code).consulted va code, t.m.mem.r32 a = (t.origin va code).mem.r32 a

/-- The addresses a translation of `va` looks up, with their sides: besides its
own, that of the kernel global which holds the base of the scratch window. -/
def LooksUp (t : Traced) (va : U32) (code : Bool) (vb : U32) (code' : Bool) : Prop :=
  (vb = va ∧ code' = code) ∨
    (0xE0000000 ≤ va ∧ t.m.ReadsScratch ∧ vb = 0xC0014058 ∧ code' = false)

/-- What a step must respect: area pointers change only as `apr` allows, a
cached translation is used only while its descriptors stand, and what else a
lookup depends on stays. -/
structure StepOk (apr : U32 → Op → Prop) (t : Traced) (op : Op) : Prop where
  aprs : ∀ a, Machine.IsApr a → (op.run t.m).mem.r32 a ≠ t.m.mem.r32 a → apr a op
  words : ∀ va code write, op = .translate va code write →
    ∀ vb code', t.LooksUp va code vb code' → t.Unchanged vb code'
  bias : (op.run t.m).ktabBias = t.m.ktabBias
  devmap : ∀ va < (0xC0000000 : U32),
    devmapLookup (op.run t.m).devmap va = devmapLookup t.m.devmap va

/-- A condition on every step of a run. -/
def RunOk (ok : Traced → Op → Prop) : List Op → Traced → Prop
  | [], _ => True
  | op :: ops, t => ok t op ∧ RunOk ok ops (t.step op)

/-! ## The invariant -/

/-- The entry for `va` holds what a lookup gave when it was filled, and what a
lookup depends on besides descriptors has not changed since. -/
structure EntryOk (t : Traced) (va : U32) (code : Bool) : Prop where
  word : ((t.origin va code).walked va code).map (Machine.cacheWord va) =
    some (t.m.tlb code (Machine.tlbIndex va)).pa
  realmm : (t.origin va code).mem.realmm = t.m.mem.realmm
  bias : (t.origin va code).ktabBias = t.m.ktabBias
  devmap : ∀ vb < (0xC0000000 : U32),
    devmapLookup (t.origin va code).devmap vb = devmapLookup t.m.devmap vb
  aprs : ∀ a, Machine.IsApr a → (t.origin va code).mem.r32 a = t.m.mem.r32 a

structure Coherent (t : Traced) : Prop where
  realmm : t.m.mem.realmm = true
  sysmode : t.m.cfg.sysmode = true
  entry : ∀ va code, t.m.Hit va code → t.EntryOk va code

theorem coherent_of_empty {t : Traced} (hreal : t.m.mem.realmm = true)
    (hsys : t.m.cfg.sysmode = true) (hempty : t.m.tlb = fun _ _ => ⟨0, 0⟩) : t.Coherent := by
  refine ⟨hreal, hsys, fun va code hit => ?_⟩
  unfold Machine.Hit at hit
  rw [hempty] at hit
  exact absurd hit (tlbTag_ne_zero va)

end Traced

/-! ## What one operation does -/

namespace Op

theorem run_translated {m : Machine} (hreal : m.mem.realmm = true) (va : U32)
    (code write : Bool) : ∃ t u s,
      (translate va code write).run m =
        { m with tlb := t, ufault := u, scratchCached := s, xlatWrite := false } ∧
      ∀ c i, t c i = m.tlb c i ∨
        ∃ vb, i = Machine.tlbIndex vb ∧ (t c i).tag = Machine.tlbTag vb ∧
          (m.walked vb c).map (Machine.cacheWord vb) = some (t c i).pa := by
  obtain ⟨t, u, s, heq, hfill⟩ := @Machine.translate_translated
    (m.setXlatWrite write) va code hreal
  refine ⟨t, u, s, ?_, fun c i => (hfill c i).imp_right ?_⟩
  · rw [run, heq]
    rfl
  · rintro ⟨vb, -, hrest⟩
    exact ⟨vb, hrest⟩

theorem run_translate_mem {m : Machine} (hreal : m.mem.realmm = true) (va : U32)
    (code write : Bool) : ((translate va code write).run m).mem = m.mem := by
  obtain ⟨t, u, s, hrun, -⟩ := run_translated hreal va code write
  rw [hrun]

theorem run_other {op : Op} (h : ¬op.IsTranslate) (m : Machine) :
    (op.run m).mem.realmm = m.mem.realmm ∧ (op.run m).cfg = m.cfg ∧
      ((op.run m).tlb = m.tlb ∨ (op.run m).tlb = fun _ _ => ⟨0, 0⟩) := by
  cases op with
  | translate va code write => exact absurd trivial h
  | access sub D pa =>
    obtain ⟨c, p, d, g, t, heq, ht⟩ := Machine.memAccess_accessed m sub D pa
    rw [run, heq]
    exact ⟨rfl, rfl, ht⟩
  | poke a v => exact ⟨rfl, rfl, .inl rfl⟩
  | setCpu c => exact ⟨rfl, rfl, .inl rfl⟩
  | setFault u => exact ⟨rfl, rfl, .inl rfl⟩
  | reportTrap vector pc => exact ⟨rfl, rfl, .inl rfl⟩
  | mapDevice va pa => exact ⟨rfl, rfl, .inl rfl⟩
  | rebias b => exact ⟨rfl, rfl, .inl rfl⟩

theorem run_tlbFlush {op : Op} (h : ¬op.IsTranslate) (m : Machine) :
    (op.run m).tlbFlush = op.run m.tlbFlush := by
  cases op with
  | translate va code write => exact absurd trivial h
  | access sub D pa => exact Machine.memAccess_tlbFlush m sub D pa
  | poke a v => rfl
  | setCpu c => rfl
  | setFault u => rfl
  | reportTrap vector pc => rfl
  | mapDevice va pa => rfl
  | rebias b => rfl

theorem run_storesTo {op : Op} {a : U32} {m : Machine} (hsys : m.cfg.sysmode = true)
    (ha : Machine.IsApr a) (h : op.StoresTo a) : (op.run m).tlb = fun _ _ => ⟨0, 0⟩ := by
  have hkeep : ∀ {k : Machine} {b v : U32}, k.tlb = (fun _ _ => ⟨0, 0⟩) →
      (k.devWrite32 b v).tlb = fun _ _ => ⟨0, 0⟩ := by
    intro k b v hk
    obtain ⟨c, p, d, g, t, heq, ht⟩ := Machine.devWrite32_accessed k b v
    rw [heq]
    rcases ht with ht | ht
    · exact ht.trans hk
    · exact ht
  obtain ⟨D, rfl | rfl | rfl⟩ := h
  · rw [run, Machine.memAccess_stw]
    exact Machine.devWrite32_apr _ hsys ha
  · rw [run, Machine.memAccess_std]
    exact hkeep (Machine.devWrite32_apr _ hsys ha)
  · rw [run, Machine.memAccess_std, BitVec.sub_add_cancel]
    obtain ⟨c, p, d, g, t, heq, -⟩ := Machine.devWrite32_accessed m (a - 4) (m.rd D)
    refine Machine.devWrite32_apr _ ?_ ha
    rw [heq]
    exact hsys

end Op

/-! ## Keeping the invariant -/

namespace Traced

theorem EntryOk.keep {t : Traced} {op : Op} {va : U32} {code : Bool} (h : t.EntryOk va code)
    (hentry : (op.run t.m).tlb code (Machine.tlbIndex va) =
      t.m.tlb code (Machine.tlbIndex va))
    (hreal : (op.run t.m).mem.realmm = t.m.mem.realmm)
    (hbias : (op.run t.m).ktabBias = t.m.ktabBias)
    (hdev : ∀ vb < (0xC0000000 : U32),
      devmapLookup (op.run t.m).devmap vb = devmapLookup t.m.devmap vb)
    (haprs : ∀ a, Machine.IsApr a → (op.run t.m).mem.r32 a = t.m.mem.r32 a) :
    (t.step op).EntryOk va code := by
  have horigin := origin_step_of_eq hentry
  have htlb : (t.step op).m.tlb code (Machine.tlbIndex va) =
      t.m.tlb code (Machine.tlbIndex va) := hentry
  refine ⟨?_, ?_, ?_, fun vb hvb => ?_, fun a ha => ?_⟩
  · rw [horigin, htlb]
    exact h.word
  · rw [horigin, h.realmm]
    exact hreal.symm
  · rw [horigin, h.bias]
    exact hbias.symm
  · rw [horigin, h.devmap vb hvb]
    exact (hdev vb hvb).symm
  · rw [horigin, h.aprs a ha]
    exact (haprs a ha).symm

theorem coherent_translate {t : Traced} (h : t.Coherent) (va : U32) (code write : Bool) :
    (t.step (.translate va code write)).Coherent := by
  obtain ⟨tlb, u, s, hrun, hfill⟩ := Op.run_translated h.realmm va code write
  have hm : (t.step (.translate va code write)).m =
      { t.m with tlb := tlb, ufault := u, scratchCached := s, xlatWrite := false } := hrun
  refine ⟨by rw [hm]; exact h.realmm, by rw [hm]; exact h.sysmode, fun vb c hit => ?_⟩
  unfold Machine.Hit at hit
  rw [hm] at hit
  by_cases hkept : tlb c (Machine.tlbIndex vb) = t.m.tlb c (Machine.tlbIndex vb)
  · refine (h.entry vb c ?_).keep ?_ ?_ ?_ ?_ ?_
    · unfold Machine.Hit
      rw [← hkept]
      exact hit
    · rw [hrun]
      exact hkept
    · rw [hrun]
    · rw [hrun]
    · intro v _
      rw [hrun]
    · intro a _
      rw [hrun]
  · -- the entry was written by this translation, so it was filled on `t.m`
    obtain hsame | ⟨vw, -, htag, hword⟩ := hfill c (Machine.tlbIndex vb)
    · exact absurd hsame hkept
    have horigin : (t.step (.translate va code write)).origin vb c = t.m := by
      apply origin_step_of_ne
      rw [hrun]
      exact hkept
    have hpage := Machine.tlbTag_inj (hit.symm.trans htag)
    refine ⟨?_, ?_, ?_, ?_, ?_⟩
    · rw [horigin, hm, Machine.walked_cacheWord t.m c hpage]
      exact hword
    · rw [horigin, hm]
    · rw [horigin, hm]
    · intro v _
      rw [horigin, hm]
    · intro a _
      rw [horigin, hm]

theorem coherent_step {t : Traced} {op : Op} (h : t.Coherent) (hok : t.StepOk Op.StoresTo op) :
    (t.step op).Coherent := by
  by_cases htrans : op.IsTranslate
  · cases op with
    | translate va code write => exact coherent_translate h va code write
    | access sub D pa => exact absurd htrans id
    | poke a v => exact absurd htrans id
    | setCpu c => exact absurd htrans id
    | setFault u => exact absurd htrans id
    | reportTrap vector pc => exact absurd htrans id
    | mapDevice va pa => exact absurd htrans id
    | rebias b => exact absurd htrans id
  · obtain ⟨hreal, hcfg, hkept | hempty⟩ := Op.run_other htrans t.m
    · refine ⟨hreal.trans h.realmm, ?_, fun va code hit => ?_⟩
      · show (op.run t.m).cfg.sysmode = true
        rw [hcfg]
        exact h.sysmode
      · unfold Machine.Hit at hit
        have hhit : t.m.Hit va code := by
          unfold Machine.Hit
          rw [← hkept]
          exact hit
        refine (h.entry va code hhit).keep (by rw [hkept]) hreal hok.bias hok.devmap ?_
        intro a ha
        by_contra hchanged
        -- a changed area pointer was stored to, and the cache is empty
        have hflushed := Op.run_storesTo h.sysmode ha (hok.aprs a ha hchanged)
        rw [show (t.step op).m.tlb = _ from hflushed] at hit
        exact tlbTag_ne_zero va hit
    · refine coherent_of_empty (hreal.trans h.realmm) ?_ hempty
      show (op.run t.m).cfg.sysmode = true
      rw [hcfg]
      exact h.sysmode

/-! ## Steps that respect the conditions -/

theorem stepOk_translate {t : Traced} {apr : U32 → Op → Prop} {va : U32} {code write : Bool}
    (hreal : t.m.mem.realmm = true)
    (hwords : ∀ vb code', t.LooksUp va code vb code' → t.Unchanged vb code') :
    t.StepOk apr (.translate va code write) := by
  obtain ⟨tlb, u, s, hrun, -⟩ := Op.run_translated hreal va code write
  refine ⟨fun a _ hchanged => ?_, fun v c w heq => ?_, ?_, fun v _ => ?_⟩
  · rw [hrun] at hchanged
    exact absurd rfl hchanged
  · cases heq
    exact hwords
  · rw [hrun]
  · rw [hrun]

theorem stepOk_access {t : Traced} {apr : U32 → Op → Prop} {sub D pa : U32}
    (haprs : ∀ a, Machine.IsApr a → (t.m.memAccess sub D pa).mem.r32 a ≠ t.m.mem.r32 a →
      apr a (.access sub D pa)) : t.StepOk apr (.access sub D pa) := by
  obtain ⟨c, p, d, g, tlb, heq, -⟩ := Machine.memAccess_accessed t.m sub D pa
  refine ⟨haprs, fun v c w h => (nomatch h), ?_, fun v _ => ?_⟩
  · rw [Op.run, heq]
  · rw [Op.run, heq]

theorem stepOk_setCpu {t : Traced} {apr : U32 → Op → Prop} (c : Cpu) :
    t.StepOk apr (.setCpu c) :=
  ⟨fun _ _ h => absurd rfl h, fun _ _ _ h => (nomatch h), rfl, fun _ _ => rfl⟩

/-! ## Using the invariant -/

/-- An entry in order whose descriptors stand, and that was looked up through
the area pointer of this access, holds what a lookup would give now. -/
theorem EntryOk.fresh {t : Traced} {va : U32} {code : Bool}
    (h : t.m.Hit va code → t.EntryOk va code) (hwords : t.Unchanged va code)
    (hapr : t.m.Hit va code → t.m.aprFor va code = (t.origin va code).aprFor va code) :
    t.m.Fresh va code := by
  intro hit
  have hentry := h hit
  have htables : Machine.SameTables (t.origin va code) t.m va code := by
    refine ⟨hapr hit, hentry.realmm.symm, hentry.bias.symm, fun hlow => ?_⟩
    exact (hentry.devmap va (BitVec.not_le.1 hlow)).symm
  rw [Machine.walked_congr htables (hwords hit)]
  exact hentry.word

/-- Kernel addresses are always looked up through the supervisor's pointer. -/
theorem EntryOk.aprFor_kernel {t : Traced} {va : U32} {code : Bool} (h : t.EntryOk va code)
    (hva : 0xC0000000 ≤ va) : t.m.aprFor va code = (t.origin va code).aprFor va code := by
  unfold Machine.aprFor
  rw [if_pos hva, if_pos hva]
  exact (h.aprs (cmmuBase code + CMMU_SAPR) ⟨code, .inl rfl⟩).symm

/-- The area pointers have not moved since the entry was filled. -/
theorem EntryOk.apr_eq {t : Traced} {va : U32} {code : Bool} (h : t.EntryOk va code)
    (code' : Bool) : t.m.apr code' CMMU_SAPR = (t.origin va code).apr code' CMMU_SAPR ∧
      t.m.apr code' CMMU_UAPR = (t.origin va code).apr code' CMMU_UAPR :=
  ⟨(h.aprs (cmmuBase code' + CMMU_SAPR) ⟨code', .inl rfl⟩).symm,
    (h.aprs (cmmuBase code' + CMMU_UAPR) ⟨code', .inr rfl⟩).symm⟩

end Traced

end Nx88
