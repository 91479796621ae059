import Nx88.Fd.Sets
import Nx88.Reset
/-!
# Descriptor routing as a map from processes to flags

What `fdSwitch` is for: each process finds at its next trap the flags it left at
its previous one, and a new process starts from its parent's.  The fixed table
and the test for a blank set keep this promise under a condition on each switch.
-/

namespace Nx88

open Lib

namespace FdState

/-! ## The promise -/

/-- One trap: the process and its parent, and the flags it leaves behind. -/
structure Trap where
  pid : Int
  ppid : Int
  left : FdVals

abbrev Left := Int → Option FdVals

/-- What the process is to find: its own flags, or its parent's the first time. -/
def expected (left : Left) (pid ppid : Int) : Option FdVals :=
  match left pid with
  | some v => some v
  | none => left ppid

def trap (st : FdState) (t : Trap) : FdState :=
  { st.fdSwitch true t.pid t.ppid with cur := t.left }

/-- Every trap of the run finds what it is to find. -/
def Routed (st : FdState) (left : Left) : List Trap → Prop
  | [] => True
  | t :: ts =>
    (∀ v ∈ expected left t.pid t.ppid, (st.fdSwitch true t.pid t.ppid).cur = v) ∧
      Routed (st.trap t) (Function.update left t.pid (some t.left)) ts

instance Routed.instDecidable (st : FdState) (left : Left) :
    (ts : List Trap) → Decidable (Routed st left ts)
  | [] => inferInstanceAs (Decidable True)
  | t :: ts =>
    have := Routed.instDecidable (st.trap t) (Function.update left t.pid (some t.left)) ts
    inferInstanceAs (Decidable (_ ∧ _))

/-! ## The condition -/

/-- A slot for the process is there or free. -/
def HasRoom (st : FdState) (pid : Int) : Prop :=
  (∃ i, (st.fdsets i).used ∧ (st.fdsets i).key = pid) ∨ ∃ i, (st.fdsets i).used = false

/-- The switch does not meet a full table, and a process whose own flags are
blank (or, the first time, whose parent's are) finds the live flags equal to
those it is to find. -/
def SwitchOk (st : FdState) (left : Left) (pid ppid : Int) : Prop :=
  pid = st.fdcur ∨
    (st.HasRoom pid ∧
      (∀ v ∈ left pid, v.isBlank → st.cur = v ∧ ∀ w ∈ left ppid, w.isBlank) ∧
      (left pid = none → ∀ w ∈ left ppid, w.isBlank → st.cur = w))

/-- Every switch of the run meets the condition. -/
def SwitchesOk (st : FdState) (left : Left) : List Trap → Prop
  | [] => True
  | t :: ts =>
    SwitchOk st left t.pid t.ppid ∧
      SwitchesOk (st.trap t) (Function.update left t.pid (some t.left)) ts

instance (st : FdState) (pid : Int) : Decidable (st.HasRoom pid) :=
  inferInstanceAs (Decidable (_ ∨ _))

instance (st : FdState) (left : Left) (pid ppid : Int) : Decidable (SwitchOk st left pid ppid) :=
  inferInstanceAs (Decidable (_ ∨ (_ ∧ _ ∧ _)))

instance SwitchesOk.instDecidable (st : FdState) (left : Left) :
    (ts : List Trap) → Decidable (SwitchesOk st left ts)
  | [] => inferInstanceAs (Decidable True)
  | t :: ts =>
    have := SwitchesOk.instDecidable (st.trap t) (Function.update left t.pid (some t.left)) ts
    inferInstanceAs (Decidable (_ ∧ _))

/-! ## The table as a map -/

/-- The table holds the flags of every process seen, and nothing but blank sets
for the others. -/
structure Saved (st : FdState) (left : Left) : Prop where
  seen : ∀ q v, left q = some v → SlotTable.get st.fdsets q = some v
  unseen : ∀ q v, left q = none → SlotTable.get st.fdsets q = some v → v.isBlank
  unusedBlank : ∀ i, (st.fdsets i).used = false → (st.fdsets i).val.isBlank

/-- The invariant between traps: the current process's flags are in the working
copy, everyone else's in the table. -/
structure Inv (st : FdState) (left : Left) : Prop where
  positive : ∀ q v, left q = some v → 0 < q
  current : 0 < st.fdcur → left st.fdcur = some st.cur ∧ (SlotTable.find st.fdsets st.fdcur).isSome
  seen : ∀ q v, left q = some v → q ≠ st.fdcur → SlotTable.get st.fdsets q = some v
  unseen : ∀ q v, left q = none → SlotTable.get st.fdsets q = some v → v.isBlank
  unusedBlank : ∀ i, (st.fdsets i).used = false → (st.fdsets i).val.isBlank

theorem inv_initial : Inv FdState.initial (fun _ => none) where
  positive := by simp
  current := by simp [FdState.initial]
  seen := by simp
  unseen := by
    intro q v _ h
    unfold SlotTable.get at h
    cases hfind : SlotTable.find FdState.initial.fdsets q with
    | none => simp [hfind] at h
    | some i => exact absurd (SlotTable.find_some hfind).1 (by simp [FdState.initial, FdSet.blank])
  unusedBlank := fun _ _ => rfl

theorem saved_put {st : FdState} {pid : Int} {i : Fin FDSETS} (left : Left) {left' : Left}
    (h : ∀ q v, q ≠ pid → left q = some v → SlotTable.get st.fdsets q = some v)
    (hunseen : ∀ q v, left q = none → SlotTable.get st.fdsets q = some v → v.isBlank)
    (hunused : ∀ i, (st.fdsets i).used = false → (st.fdsets i).val.isBlank)
    (hfind : SlotTable.find st.fdsets pid = some i)
    (hleft : left' = Function.update left pid (some st.cur)) : Saved (st.fdSave i) left' := by
  subst hleft
  refine ⟨fun q v hq => ?_, fun q v hq hget => ?_, fun j hj => ?_⟩
  · by_cases hqp : q = pid
    · subst hqp
      rw [Function.update_self] at hq
      rw [← hq]
      exact SlotTable.get_put_self hfind _
    · rw [Function.update_of_ne hqp] at hq
      exact (SlotTable.get_put_of_ne hfind hqp _).trans (h q v hqp hq)
  · have hqp : q ≠ pid := by
      rintro rfl
      simp at hq
    rw [Function.update_of_ne hqp] at hq
    exact hunseen q v hq ((SlotTable.get_put_of_ne hfind hqp _).symm.trans hget)
  · have hji : j ≠ i := by
      rintro rfl
      rw [fdSave, SlotTable.put_used, (SlotTable.find_some hfind).1] at hj
      cases hj
    simp only [fdSave, SlotTable.put, Function.update_of_ne hji] at hj ⊢
    exact hunused j hj

theorem Inv.saveCurrent {st : FdState} {left : Left} (h : Inv st left) :
    Saved st.saveCurrent left := by
  unfold FdState.saveCurrent
  by_cases hcur : 0 < st.fdcur
  · obtain ⟨hleft, hslot⟩ := h.current hcur
    obtain ⟨i, hfind⟩ := Option.isSome_iff_exists.1 hslot
    simp only [if_pos hcur, fdslot, SlotTable.claim_of_find hfind]
    refine saved_put left ?_ h.unseen h.unusedBlank hfind ?_
    · exact fun q v hne hq => h.seen q v hq hne
    · rw [← hleft, Function.update_eq_self]
  · rw [if_neg hcur]
    refine ⟨fun q v hq => h.seen q v hq ?_, h.unseen, h.unusedBlank⟩
    rintro rfl
    exact hcur (h.positive _ _ hq)

@[simp] theorem saveCurrent_cur (st : FdState) : st.saveCurrent.cur = st.cur := by
  unfold saveCurrent fdslot
  split
  · rcases SlotTable.claim st.fdsets st.fdcur with ⟨_ | o, fdsets⟩ <;> rfl
  · rfl

theorem Saved.fdslot {st st' : FdState} {left : Left} {pid : Int} {r : Option (Fin FDSETS)}
    (h : Saved st left) (heq : st.fdslot pid = (r, st')) : Saved st' left := by
  simp only [FdState.fdslot, Prod.mk.injEq] at heq
  obtain ⟨hr, rfl⟩ := heq
  have hclaim : SlotTable.claim st.fdsets pid = (r, (SlotTable.claim st.fdsets pid).2) :=
    Prod.ext hr rfl
  generalize (SlotTable.claim st.fdsets pid).2 = sets at hclaim ⊢
  rcases SlotTable.claim_cases hclaim with ⟨i, -, -, rfl⟩ | ⟨i, hnone, hfree, -, rfl⟩ |
    ⟨-, -, -, rfl⟩
  · exact h
  · have hget : SlotTable.get (Function.update st.fdsets i
        { st.fdsets i with key := pid, used := true }) pid = some (st.fdsets i).val := by
      unfold SlotTable.get
      rw [SlotTable.find_update_self hnone]
      simp
    have hnoget : SlotTable.get st.fdsets pid = none := by
      unfold SlotTable.get
      rw [hnone]
      rfl
    refine ⟨fun q v hq => ?_, fun q v hq hv => ?_, fun j hj => ?_⟩
    · have hqp : q ≠ pid := by
        rintro rfl
        rw [h.seen q v hq] at hnoget
        cases hnoget
      exact (SlotTable.get_claim_of_ne hclaim hqp).trans (h.seen q v hq)
    · by_cases hqp : q = pid
      · subst hqp
        rw [hget] at hv
        cases hv
        exact h.unusedBlank i hfree
      · exact h.unseen q v hq ((SlotTable.get_claim_of_ne hclaim hqp).symm.trans hv)
    · by_cases hji : j = i
      · subst hji
        simp at hj
      · simp only [Function.update_of_ne hji] at hj ⊢
        exact h.unusedBlank j hj
  · exact h

theorem fdslot_cur {st st' : FdState} {pid : Int} {r : Option (Fin FDSETS)}
    (heq : st.fdslot pid = (r, st')) : st'.cur = st.cur := by
  simp only [fdslot, Prod.mk.injEq] at heq
  rw [← heq.2]

theorem find_fdslot {st st' : FdState} {pid : Int} {i : Fin FDSETS}
    (heq : st.fdslot pid = (some i, st')) : SlotTable.find st'.fdsets pid = some i := by
  simp only [fdslot, Prod.mk.injEq] at heq
  obtain ⟨hr, rfl⟩ := heq
  exact SlotTable.find_claim_self (Prod.ext hr rfl)

theorem find_fdslot_of_find {st st' : FdState} {pid q : Int} {r : Option (Fin FDSETS)}
    {i : Fin FDSETS} (heq : st.fdslot pid = (r, st')) (hfind : SlotTable.find st.fdsets q = some i) :
    SlotTable.find st'.fdsets q = some i := by
  simp only [fdslot, Prod.mk.injEq] at heq
  obtain ⟨hr, rfl⟩ := heq
  exact SlotTable.find_claim_of_isSome (Prod.ext hr rfl) hfind

/-! ## Inheriting -/

theorem get_of_find {st : FdState} {q : Int} {i : Fin FDSETS}
    (h : SlotTable.find st.fdsets q = some i) :
    SlotTable.get st.fdsets q = some (st.fdsets i).val := by
  unfold SlotTable.get
  rw [h]
  rfl

/-- Inheriting keeps the table, and loads the parent's flags when they are known
and not blank; otherwise the live ones stay. -/
theorem Saved.inherit {st : FdState} {left : Left} (h : Saved st left) (ppid : Int)
    (hpos : ∀ q v, left q = some v → 0 < q) :
    Saved (st.inherit ppid) left ∧
      (∀ q i, SlotTable.find st.fdsets q = some i →
        SlotTable.find (st.inherit ppid).fdsets q = some i) ∧
      (∀ w, left ppid = some w → ¬w.isBlank → (st.inherit ppid).cur = w) ∧
      ((∀ w, left ppid = some w → w.isBlank) → (st.inherit ppid).cur = st.cur) := by
  unfold FdState.inherit
  by_cases hp : 0 < ppid
  · rw [if_pos hp]
    rcases hslot : st.fdslot ppid with ⟨_ | p, st'⟩
    · have hsaved := h.fdslot hslot
      refine ⟨hsaved, fun q i hq => find_fdslot_of_find hslot hq, fun w hw _ => ?_,
        fun _ => fdslot_cur hslot⟩
      simp only [FdState.fdslot, Prod.mk.injEq] at hslot
      rcases SlotTable.claim_cases (Prod.ext hslot.1 rfl) with
        ⟨i, -, hr, -⟩ | ⟨i, -, -, hr, -⟩ | ⟨hnone, -, -, -⟩
      · cases hr
      · cases hr
      · have hget := h.seen ppid w hw
        simp [SlotTable.get, hnone] at hget
    · have hsaved := h.fdslot hslot
      have hget := get_of_find (find_fdslot hslot)
      by_cases hblank : (st'.fdsets p).val.isBlank = true
      · simp only [if_pos hblank]
        refine ⟨hsaved, fun q i hq => find_fdslot_of_find hslot hq, fun w hw hnb => ?_,
          fun _ => fdslot_cur hslot⟩
        rw [hsaved.seen ppid w hw] at hget
        cases hget
        exact absurd hblank hnb
      · simp only [if_neg hblank]
        have hkeep : ∀ q i, SlotTable.find st.fdsets q = some i →
            SlotTable.find st'.fdsets q = some i :=
          fun q i hq => find_fdslot_of_find hslot hq
        refine ⟨⟨hsaved.seen, hsaved.unseen, hsaved.unusedBlank⟩, hkeep, fun w hw _ => ?_,
          fun hall => ?_⟩
        · rw [hsaved.seen ppid w hw] at hget
          cases hget
          rfl
        · cases hleft : left ppid with
          | none => exact absurd (hsaved.unseen ppid _ hleft hget) hblank
          | some w =>
            rw [hsaved.seen ppid w hleft] at hget
            cases hget
            exact absurd (hall _ hleft) hblank
  · rw [if_neg hp]
    refine ⟨h, fun _ _ hq => hq, fun w hw _ => absurd (hpos _ _ hw) hp, fun _ => rfl⟩

/-! ## One switch -/

theorem Inv.find_saveCurrent {st : FdState} {left : Left} (h : Inv st left) (q : Int) :
    SlotTable.find st.saveCurrent.fdsets q = SlotTable.find st.fdsets q ∧
      ∀ i, (st.saveCurrent.fdsets i).used = (st.fdsets i).used := by
  unfold FdState.saveCurrent
  by_cases hcur : 0 < st.fdcur
  · obtain ⟨i, hfind⟩ := Option.isSome_iff_exists.1 (h.current hcur).2
    simp only [if_pos hcur, fdslot, SlotTable.claim_of_find hfind, fdSave]
    exact ⟨SlotTable.find_put _ _ _ _, fun j => SlotTable.put_used _ _ j _⟩
  · rw [if_neg hcur]
    exact ⟨rfl, fun _ => rfl⟩

theorem Inv.fdslot_isSome {st : FdState} {left : Left} (h : Inv st left) {pid : Int}
    (hroom : st.HasRoom pid) : ∃ n st', st.saveCurrent.fdslot pid = (some n, st') := by
  rcases hslot : st.saveCurrent.fdslot pid with ⟨_ | n, st'⟩
  · simp only [FdState.fdslot, Prod.mk.injEq] at hslot
    rcases SlotTable.claim_cases (Prod.ext hslot.1 rfl) with
      ⟨i, -, hr, -⟩ | ⟨i, -, -, hr, -⟩ | ⟨hnone, hall, -, -⟩
    · cases hr
    · cases hr
    · obtain ⟨hfind, hused⟩ := h.find_saveCurrent pid
      rw [hfind] at hnone
      rcases hroom with ⟨i, hu, hk⟩ | ⟨i, hu⟩
      · exact absurd hk (SlotTable.find_none hnone i hu)
      · rw [← hused i, hall i] at hu
        cases hu
  · exact ⟨n, st', rfl⟩

theorem Inv.switch_current {st : FdState} {left : Left} {pid : Int} (h : Inv st left)
    (ppid : Int) (hpid : 0 < pid) (hcur : pid = st.fdcur) (live : FdVals) :
    (∀ v, expected left pid ppid = some v → (st.fdSwitch true pid ppid).cur = v) ∧
      Inv { st.fdSwitch true pid ppid with cur := live } (Function.update left pid (some live)) := by
  obtain ⟨hleft, hslot⟩ := h.current (hcur ▸ hpid)
  have hswitch : st.fdSwitch true pid ppid = st := by
    unfold fdSwitch
    rw [if_pos (.inr (.inr hcur))]
  refine ⟨fun v hv => ?_, ⟨fun q v hq => ?_, fun _ => ?_, fun q v hq hne => ?_,
    fun q v hq hv => ?_, ?_⟩⟩
  · rw [hswitch]
    rw [expected, hcur, hleft] at hv
    exact Option.some.inj hv
  · by_cases hqp : q = pid
    · exact hqp ▸ hpid
    · rw [Function.update_of_ne hqp] at hq
      exact h.positive q v hq
  · rw [hswitch]
    refine ⟨?_, hslot⟩
    rw [hcur]
    simp
  · rw [hswitch] at hne ⊢
    have hqp : q ≠ pid := fun hqp => hne (hqp.trans hcur)
    rw [Function.update_of_ne hqp] at hq
    exact h.seen q v hq hne
  · have hqp : q ≠ pid := by
      rintro rfl
      simp at hq
    rw [Function.update_of_ne hqp] at hq
    rw [hswitch] at hv
    exact h.unseen q v hq hv
  · rw [hswitch]
    exact h.unusedBlank

/-- After a switch to another process the table is right for everyone else. -/
theorem inv_of_saved {st : FdState} {left : Left} {pid : Int} {live : FdVals} {n : Fin FDSETS}
    (hpositive : ∀ q v, left q = some v → 0 < q) (hpid : 0 < pid)
    (hcur : st.fdcur = pid) (hlive : st.cur = live)
    (hfind : SlotTable.find st.fdsets pid = some n)
    (hseen : ∀ q v, q ≠ pid → left q = some v → SlotTable.get st.fdsets q = some v)
    (hunseen : ∀ q v, q ≠ pid → left q = none → SlotTable.get st.fdsets q = some v → v.isBlank)
    (hunused : ∀ i, (st.fdsets i).used = false → (st.fdsets i).val.isBlank) :
    Inv st (Function.update left pid (some live)) := by
  refine ⟨fun q v hq => ?_, fun _ => ?_, fun q v hq hne => ?_, fun q v hq hv => ?_, hunused⟩
  · by_cases hqp : q = pid
    · exact hqp ▸ hpid
    · rw [Function.update_of_ne hqp] at hq
      exact hpositive q v hq
  · rw [hcur, hlive, hfind]
    simp
  · rw [hcur] at hne
    rw [Function.update_of_ne hne] at hq
    exact hseen q v hne hq
  · have hqp : q ≠ pid := by
      rintro rfl
      simp at hq
    rw [Function.update_of_ne hqp] at hq
    exact hunseen q v hqp hq hv

theorem Inv.switch_other {st : FdState} {left : Left} {pid ppid : Int} (h : Inv st left)
    (hpid : 0 < pid) (hcur : pid ≠ st.fdcur) (hroom : st.HasRoom pid)
    (hown : ∀ v ∈ left pid, v.isBlank → st.cur = v ∧ ∀ w ∈ left ppid, w.isBlank)
    (hfirst : left pid = none → ∀ w ∈ left ppid, w.isBlank → st.cur = w) (live : FdVals) :
    (∀ v, expected left pid ppid = some v → (st.fdSwitch true pid ppid).cur = v) ∧
      Inv { st.fdSwitch true pid ppid with cur := live } (Function.update left pid (some live)) := by
  obtain ⟨n, s, hslot⟩ := h.fdslot_isSome hroom
  have hsaved : Saved s left := h.saveCurrent.fdslot hslot
  have hfind := find_fdslot hslot
  have hget := get_of_find hfind
  have hlive : s.cur = st.cur := (fdslot_cur hslot).trans (saveCurrent_cur st)
  have hswitch : st.fdSwitch true pid ppid =
      { (if (s.fdsets n).val.isBlank then (s.inherit ppid).fdSave n else s).fdLoad n with
        fdcur := pid } := by
    unfold fdSwitch
    rw [if_neg (by simp [hcur, not_le.2 hpid]), hslot]
  by_cases hblank : (s.fdsets n).val.isBlank = true
  · -- seeded again: the flags come from the parent, or stay the live ones
    obtain ⟨hinh, hkeep, hload, hstay⟩ := hsaved.inherit ppid h.positive
    have hput := saved_put left (fun q v _ hq => hinh.seen q v hq) hinh.unseen
      hinh.unusedBlank (hkeep _ _ hfind) rfl
    have hload' : (((s.inherit ppid).fdSave n).fdsets n).val = (s.inherit ppid).cur := by
      simp [fdSave, SlotTable.put]
    rw [if_pos hblank] at hswitch
    refine ⟨fun v hv => ?_, ?_⟩
    · rw [hswitch]
      show (((s.inherit ppid).fdSave n).fdsets n).val = v
      rw [hload']
      cases hleft : left pid with
      | some u =>
        rw [hsaved.seen _ _ hleft] at hget
        have hu : u = (s.fdsets n).val := Option.some.inj hget
        simp only [expected, hleft, Option.some.injEq] at hv
        obtain ⟨hcu, hall⟩ := hown u hleft (hu ▸ hblank)
        rw [hstay hall, hlive, hcu, hv]
      | none =>
        simp only [expected, hleft] at hv
        by_cases hvb : v.isBlank = true
        · rw [hstay, hlive, hfirst hleft v hv hvb]
          intro w hw
          rw [hv] at hw
          exact Option.some.inj hw ▸ hvb
        · exact hload v hv hvb
    · rw [hswitch]
      refine inv_of_saved (n := n) h.positive hpid rfl rfl ?_ (fun q v hne hq => ?_)
        (fun q v hne hq hv => ?_) hput.unusedBlank
      · exact (SlotTable.find_put _ _ _ _).trans (hkeep _ _ hfind)
      · exact hput.seen q v (by rwa [Function.update_of_ne hne])
      · exact hput.unseen q v (by rwa [Function.update_of_ne hne]) hv
  · rw [if_neg hblank] at hswitch
    refine ⟨fun v hv => ?_, ?_⟩
    · rw [hswitch]
      show (s.fdsets n).val = v
      cases hleft : left pid with
      | some u =>
        rw [hsaved.seen _ _ hleft] at hget
        simp only [expected, hleft] at hv
        exact Option.some.inj (hget.symm.trans hv)
      | none => exact absurd (hsaved.unseen _ _ hleft hget) hblank
    · rw [hswitch]
      exact inv_of_saved (n := n) h.positive hpid rfl rfl hfind (fun q v _ hq => hsaved.seen q v hq)
        (fun q v _ hq hv => hsaved.unseen q v hq hv) hsaved.unusedBlank

theorem Inv.switch {st : FdState} {left : Left} {pid ppid : Int} (h : Inv st left) (hpid : 0 < pid)
    (hok : SwitchOk st left pid ppid)
    (live : FdVals) :
    (∀ v, expected left pid ppid = some v → (st.fdSwitch true pid ppid).cur = v) ∧
      Inv { st.fdSwitch true pid ppid with cur := live } (Function.update left pid (some live)) := by
  by_cases hcur : pid = st.fdcur
  · exact h.switch_current ppid hpid hcur live
  · rcases hok with heq | ⟨hroom, hown, hfirst⟩
    · exact absurd heq hcur
    · exact h.switch_other hpid hcur hroom hown hfirst live

/-! ## Whole runs -/

theorem Inv.routed {st : FdState} {left : Left} {ts : List Trap} (h : Inv st left)
    (hpid : ∀ t ∈ ts, 0 < t.pid) (hok : SwitchesOk st left ts) : Routed st left ts := by
  induction ts generalizing st left with
  | nil => trivial
  | cons t ts ih =>
    obtain ⟨hfinds, hinv⟩ := h.switch (hpid t (by simp)) hok.1 t.left
    exact ⟨hfinds, ih hinv (fun u hu => hpid u (by simp [hu])) hok.2⟩

/-- From boot, every run whose switches meet the condition is routed. -/
theorem routed_of_switchesOk (ts : List Trap) (hpid : ∀ t ∈ ts, 0 < t.pid)
    (hok : SwitchesOk FdState.initial (fun _ => none) ts) :
    Routed FdState.initial (fun _ => none) ts :=
  inv_initial.routed hpid hok

def closedVals : FdVals := ⟨fun _ => false, fun _ => false, fun _ => false, fun _ => 0⟩

/-- A shell, its child, the shell again, and the child with one descriptor
closed. -/
def shellRun : List Trap :=
  [⟨4, 1, FdVals.initial⟩, ⟨5, 4, FdVals.initial.close 1⟩, ⟨4, 1, FdVals.initial⟩,
    ⟨5, 4, FdVals.initial.close 1⟩]

theorem routed_shellRun : Routed FdState.initial (fun _ => none) shellRun :=
  routed_of_switchesOk shellRun (by decide) (by decide +kernel)

/-- The child closes everything, and finds its parent's descriptors afterwards. -/
def closingRun : List Trap :=
  [⟨4, 1, FdVals.initial⟩, ⟨5, 4, closedVals⟩, ⟨4, 1, FdVals.initial⟩, ⟨5, 4, closedVals⟩]

/-- Process 26 and its parent, after 24 others have taken every slot. -/
def crowdedRun : List Trap :=
  (List.range 24).map (fun k => ⟨(k : Int) + 2, 1, FdVals.initial⟩) ++
    [⟨26, 2, FdVals.initial.close 1⟩, ⟨2, 1, FdVals.initial⟩, ⟨26, 2, FdVals.initial.close 1⟩]

theorem not_routed_closingRun_crowdedRun :
    ¬Routed FdState.initial (fun _ => none) closingRun ∧
      ¬Routed FdState.initial (fun _ => none) crowdedRun := by
  decide +kernel

end FdState

end Nx88
