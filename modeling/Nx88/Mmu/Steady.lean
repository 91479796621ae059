import Nx88.Mmu.Pages
import Nx88.Tlb.Lookup
/-!
# Steady pages

Loads from user pages that do not share cache entries leave each other alone: a
page keeps the place it has, however many of the others are looked at first.
-/

namespace Nx88

open Lib.Words

namespace Machine

variable {m k : Machine} {a b : U32}

/-- User addresses are used as they are. -/
def Direct (m : Machine) : Prop :=
  ¬m.cfg.translateOn = true ∨ m.apr false m.aprOffset &&& 1 = 0

/-- The address that a user page without a descriptor has where that is no fault. -/
def unmappedPlace (m : Machine) (a : U32) : U32 :=
  if m.mem.realmm then cphys m.mem.realmm a else a

theorem guardWrite_read (k : Machine) (a : U32) (wp : Bool) (pa : U32)
    (h : k.xlatWrite = false) : k.guardWrite a wp pa = (pa, k) := by
  rw [guardWrite_eq, if_neg]
  rintro ⟨-, -, hx, -⟩
  exact nomatch h.symm.trans hx

/-! ## One load -/

/-- What a load from a user address does. -/
inductive Loads (m : Machine) (a : U32) : U32 × Machine → Prop where
  | direct (h : m.Direct) : Loads m a (a, m)
  | hit (h : ¬m.Direct) (hit : m.Hit a false) :
    Loads m a (pageAddr (m.tlb false (tlbIndex a)).pa ||| offsetOf a, m)
  | fill (h : ¬m.Direct) (miss : ¬m.Hit a false) {r : U32 × U32}
    (hr : m.walked a false = some r) : Loads m a (r.1, m.tlbFill false a (cacheWord a r))
  | none (h : ¬m.Direct) (miss : ¬m.Hit a false) (hnone : m.walked a false = none) :
    Loads m a (if m.cfg.procexp = true ∧ ¬m.ufault.pending = true
      then (0, { m with ufault := m.missRecord a false }) else (m.unmappedPlace a, m))

theorem translate_loads (hwrite : m.xlatWrite = false) (ha : ¬0xC0000000 ≤ a) :
    Loads m a (m.translate a false) := by
  by_cases hon : m.cfg.translateOn = true
  swap
  · rw [translate, if_pos hon]
    exact .direct (.inl hon)
  rw [translate, if_neg (not_not.2 hon), if_neg (fun h => ha h.2), translateUser]
  by_cases hoff : m.apr false m.aprOffset &&& 1 = 0
  · rw [if_pos hoff]
    exact .direct (.inr hoff)
  have hmapped : ¬m.Direct := not_or.2 ⟨not_not.2 hon, hoff⟩
  rw [if_neg hoff]
  dsimp only
  by_cases hit : m.Hit a false
  · rw [if_pos (show (m.tlb false (tlbIndex a)).tag = tlbTag a from hit),
      guardWrite_read _ _ _ _ hwrite]
    exact .hit hmapped hit
  rw [if_neg (show ¬(m.tlb false (tlbIndex a)).tag = tlbTag a from hit)]
  have hwalked := walked_user (m := m) false ha
  cases hwalk : m.mem.walkFb m.ktabBias m.devmap (m.apr false m.aprOffset) a false with
  | some r =>
    rw [missUser_some hwalk, guardWrite_read (m.tlbFill false a _) a _ _ hwrite, ← cacheWord_user ha]
    exact .fill hmapped hit (hwalked.trans hwalk)
  | none =>
    rw [missUser_none hwalk]
    exact .none hmapped hit (hwalked.trans hwalk)

/-- The tables have nothing for the user address `a`, nor has the cache. -/
structure Unmapped (m : Machine) (a : U32) : Prop where
  process : m.cfg.procexp = true
  user : ¬0xC0000000 ≤ a
  translated : ¬m.Direct
  notCached : ¬m.Hit a false
  walk : m.walked a false = none

/-- A load with no fault pending faults at the addresses that are not mapped. -/
theorem Loads.pending_iff {r : U32 × Machine} (h : Loads m a r) (ha : ¬0xC0000000 ≤ a)
    (hclear : m.ufault.pending = false) : r.2.ufault.pending = true ↔ m.Unmapped a := by
  have hstays : ¬m.ufault.pending = true := Bool.eq_false_iff.1 hclear
  cases h with
  | direct h => exact iff_of_false hstays fun hun => hun.translated h
  | hit h hit => exact iff_of_false hstays fun hun => hun.notCached hit
  | fill h miss hr => exact iff_of_false hstays fun hun => nomatch hr.symm.trans hun.walk
  | none h miss hnone =>
    by_cases hproc : m.cfg.procexp = true
    · rw [if_pos ⟨hproc, hstays⟩]
      exact iff_of_true rfl ⟨hproc, ha, h, miss, hnone⟩
    · rw [if_neg fun h => hproc h.1]
      exact iff_of_false hstays fun hun => hproc hun.process

/-! ## Other pages -/

/-- The entry for `a` is as it was, or was filled because there was none. -/
def Keeps (m k : Machine) (a : U32) : Prop :=
  k.tlb false (tlbIndex a) = m.tlb false (tlbIndex a) ∨
    ¬m.Hit a false ∧ k.Hit a false ∧
      (m.walked a false).map (cacheWord a) = some (k.tlb false (tlbIndex a)).pa

theorem Keeps.refl (m : Machine) (a : U32) : Keeps m m a := .inl rfl

/-- `a` and `b` share a page or have entries of their own. -/
def Apart (a b : U32) : Prop := pageAddr a = pageAddr b ∨ tlbIndex a ≠ tlbIndex b

theorem toNat_tlbIndex (a : U32) : (tlbIndex a).toNat = a.toNat / 4096 % 4096 := by
  have hand : a.toNat / 4096 &&& 4095 = a.toNat / 4096 % 4096 :=
    Nat.and_two_pow_sub_one_eq_mod (a.toNat / 4096) 12
  rw [tlbIndex, BitVec.toNat_and, toNat_shift12]
  exact hand

theorem apart_of_near (hnear : a.toNat < b.toNat + 0xFFF000) (hnear' : b.toNat < a.toNat + 0xFFF000) :
    Apart a b := by
  refine or_iff_not_imp_left.2 fun hpage hindex => hpage ?_
  have hnat := congrArg BitVec.toNat hindex
  rw [toNat_tlbIndex, toNat_tlbIndex] at hnat
  apply BitVec.eq_of_toNat_eq
  rw [toNat_pageAddr, toNat_pageAddr]
  omega

theorem hit_congr (h : pageAddr a = pageAddr b) (code : Bool) :
    m.Hit a code ↔ m.Hit b code := by
  obtain ⟨hentry, htag⟩ := hit_page m code h
  rw [Hit, Hit, hentry, htag]

theorem Peeked.walked_eq (h : Peeked m k) (a : U32) (code : Bool) :
    k.walked a code = m.walked a code := by
  obtain ⟨t, u, s, rfl⟩ := h
  rfl

theorem tlbFill_tlb (code : Bool) (va pa i : U32) :
    (m.tlbFill code va pa).tlb code i =
      if i = tlbIndex va then ⟨tlbTag va, pa⟩ else m.tlb code i := by
  change Function.update m.tlb code (Function.update (m.tlb code) (tlbIndex va) _) code i = _
  rw [Function.update_self, Function.update_apply]

theorem hit_tlbFill (code : Bool) (va pa : U32) : (m.tlbFill code va pa).Hit va code := by
  rw [Hit, tlbFill_tlb, if_pos rfl]

theorem tlbIndex_page (h : pageAddr a = pageAddr b) : tlbIndex a = tlbIndex b := by
  obtain ⟨h12, -⟩ := shift_of_page h
  rw [tlbIndex, tlbIndex, h12]

variable {r : U32 × Machine}

theorem Keeps.load (hkeeps : Keeps m k a) (hpeeked : Peeked m k) (hload : Loads k b r)
    (hapart : Apart a b) : Keeps m r.2 a := by
  cases hload with
  | direct | hit => exact hkeeps
  | none =>
    split
    · exact hkeeps
    · exact hkeeps
  | fill h miss hr =>
    rename_i w
    by_cases hpage : pageAddr a = pageAddr b
    · have hmiss : ¬k.Hit a false := mt (hit_congr hpage false).1 miss
      rcases hkeeps with hkept | ⟨-, hit, -⟩
      swap
      · exact absurd hit hmiss
      have hindex := tlbIndex_page hpage
      refine .inr ⟨fun hit => hmiss ?_, ?_, ?_⟩
      · rw [Hit, hkept]
        exact hit
      · exact (hit_congr hpage false).2 (hit_tlbFill false b _)
      · rw [hindex, tlbFill_tlb, if_pos rfl, walked_cacheWord m false hpage, ← hpeeked.walked_eq,
          hr]
        rfl
    · have hindex := hapart.resolve_left hpage
      have hsame : (k.tlbFill false b (cacheWord b w)).tlb false (tlbIndex a) =
          k.tlb false (tlbIndex a) := by
        rw [tlbFill_tlb, if_neg hindex]
      refine hkeeps.imp hsame.trans fun ⟨hmiss, hit, hword⟩ => ⟨hmiss, ?_, hsame ▸ hword⟩
      rw [Hit, hsame]
      exact hit

theorem Peeked.direct_iff (h : Peeked m k) : k.Direct ↔ m.Direct := by
  obtain ⟨t, u, s, rfl⟩ := h
  exact Iff.rfl

theorem Keeps.unmapped (hkeeps : Keeps m k a) (hpeeked : Peeked m k) (h : k.Unmapped a) :
    m.Unmapped a := by
  refine ⟨?_, h.user, mt hpeeked.direct_iff.2 h.translated, fun hit => h.notCached ?_,
    (hpeeked.walked_eq a false).symm.trans h.walk⟩
  · obtain ⟨t, u, s, rfl⟩ := hpeeked
    exact h.process
  · rcases hkeeps with hsame | ⟨hmiss, -, -⟩
    · rw [Hit, hsame]
      exact hit
    · exact absurd hit hmiss

theorem Peeked.unmappedPlace_eq (h : Peeked m k) (a : U32) :
    k.unmappedPlace a = m.unmappedPlace a := by
  obtain ⟨t, u, s, rfl⟩ := h
  rfl

theorem place_of_cacheWord {w : U32 × U32} (ha : ¬0xC0000000 ≤ a)
    (hw : m.walked a false = some w) : pageAddr (cacheWord a w) ||| offsetOf a = w.1 := by
  rw [pageAddr_cacheWord ha]
  exact walked_offset hw

theorem Keeps.place {r₀ : U32 × Machine} (hkeeps : Keeps m k a) (hpeeked : Peeked m k)
    (ha : ¬0xC0000000 ≤ a) (hload₀ : Loads m a r₀) (hload : Loads k a r)
    (hresident : ¬m.Unmapped a) : r.1 = r₀.1 := by
  have hdirect := hpeeked.direct_iff
  have hwalked := hpeeked.walked_eq a false
  have hkept : ∀ {w}, k.Hit a false → ¬m.Hit a false → m.walked a false = some w →
      (k.tlb false (tlbIndex a)).pa = cacheWord a w := by
    intro w hit hmiss hw
    rcases hkeeps with hsame | ⟨-, -, hword⟩
    · rw [Hit, hsame] at hit
      exact absurd hit hmiss
    · rw [hw] at hword
      exact (Option.some.inj hword).symm
  cases hload₀ with
  | direct h =>
    cases hload with
    | direct => rfl
    | hit h' | fill h' | none h' => exact absurd (hdirect.2 h) h'
  | hit h hit =>
    have hsame : k.tlb false (tlbIndex a) = m.tlb false (tlbIndex a) :=
      hkeeps.resolve_right fun hfilled => hfilled.1 hit
    have hit' : k.Hit a false := by
      rw [Hit, hsame]
      exact hit
    cases hload with
    | direct h' => exact absurd (hdirect.1 h') h
    | hit => rw [hsame]
    | fill _ miss | none _ miss => exact absurd hit' miss
  | fill h miss hw =>
    cases hload with
    | direct h' => exact absurd (hdirect.1 h') h
    | hit _ hit =>
      rw [hkept hit miss hw]
      exact place_of_cacheWord ha hw
    | fill _ _ hw' =>
      rw [Option.some.inj (hw.symm.trans (hwalked.symm.trans hw'))]
    | none _ _ hnone => exact nomatch hw.symm.trans (hwalked.symm.trans hnone)
  | none h miss hnone =>
    have hproc : ¬m.cfg.procexp = true := fun hproc =>
      hresident ⟨hproc, ha, h, miss, hnone⟩
    have hproc' : ¬k.cfg.procexp = true := by
      obtain ⟨t, u, s, rfl⟩ := hpeeked
      exact hproc
    rw [if_neg fun h => hproc h.1]
    cases hload with
    | direct h' => exact absurd (hdirect.1 h') h
    | hit _ hit =>
      rcases hkeeps with hsame | ⟨-, -, hword⟩
      · rw [Hit, hsame] at hit
        exact absurd hit miss
      · rw [hnone] at hword
        exact nomatch hword
    | fill _ _ hw => exact nomatch hnone.symm.trans (hwalked.symm.trans hw)
    | none =>
      rw [if_neg fun h => hproc' h.1]
      exact hpeeked.unmappedPlace_eq a

end Machine

end Nx88
