import Nx88.Proc.Buffers
/-!
# Copies from and to user space

`uread_str` and `uwrite_mem`: byte loops that translate every address, stop at
the first byte that is not resident and put the fault record back.
-/

namespace Nx88

namespace Machine

/-- The translation of one byte of a copy, with no fault pending. -/
def copyTranslate (m : Machine) (a : U32) : U32 × Machine :=
  (m.setPending false).translate a false

/-- `if (ufault_pending || !pa) break`. -/
def copyStops (r : U32 × Machine) : Bool := r.2.ufault.pending || r.1 = 0

/-- The loop of `uread_str` from byte `i`, with room for `n` more. -/
def ureadLoop (m : Machine) (va : U32) (i : Nat) : Nat → List U8 × Machine
  | 0 => ([], m)
  | n + 1 =>
    let r := m.copyTranslate (byteAddr va i)
    if copyStops r then ([], r.2)
    else
      let c := r.2.mem.r8 r.1
      if c = 0 then ([], r.2)
      else
        let rest := r.2.ureadLoop va (i + 1) n
        (c :: rest.1, rest.2)

/-- `uread_str` into a buffer of `n` bytes: the characters before the NUL. -/
def ureadStr (m : Machine) (va : U32) (n : Nat) : List U8 × Machine :=
  let r := m.ureadLoop va 0 (n - 1)
  (r.1, { r.2 with ufault := m.ufault })

/-- The loop of `uwrite_mem` from byte `i`, with `n` more to go. -/
def uwriteLoop (m : Machine) (va : U32) (src : Nat → U8) (i : Nat) : Nat → Nat × Machine
  | 0 => (i, m)
  | n + 1 =>
    let r := m.copyTranslate (byteAddr va i)
    if copyStops r then (i, r.2)
    else (r.2.setMem (r.2.mem.w8 r.1 (src i))).uwriteLoop va src (i + 1) n

/-- `uwrite_mem`: how many bytes were transferred, and the machine. -/
def uwriteMem (m : Machine) (va : U32) (src : Nat → U8) (n : Nat) : Nat × Machine :=
  let r := m.uwriteLoop va src 0 n
  (r.1, { r.2 with ufault := m.ufault })

/-! ## What a copy leaves alone -/

/-- The configuration and the devices are as they were. -/
structure Copied (m k : Machine) : Prop where
  cfg : k.cfg = m.cfg
  dev : k.dev = m.dev

theorem Copied.refl (m : Machine) : Copied m m := ⟨rfl, rfl⟩

theorem Copied.trans {m k l : Machine} (h₁ : Copied m k) (h₂ : Copied k l) : Copied m l :=
  ⟨h₂.cfg.trans h₁.cfg, h₂.dev.trans h₁.dev⟩

theorem Peeked.copied {m k : Machine} (h : Peeked m k) : Copied m k := by
  obtain ⟨t, u, s, rfl⟩ := h
  exact ⟨rfl, rfl⟩

theorem copyTranslate_peeked (m : Machine) (a : U32) : Peeked m (m.copyTranslate a).2 :=
  (peeked_ufault m _).trans (translate_peeked _ a false)

theorem copyTranslate_copied (m : Machine) (a : U32) : Copied m (m.copyTranslate a).2 :=
  (m.copyTranslate_peeked a).copied

theorem ureadLoop_copied (m : Machine) (va : U32) (i n : Nat) :
    Copied m (m.ureadLoop va i n).2 := by
  induction n generalizing m i with
  | zero => exact Copied.refl m
  | succ n ih =>
    have hfirst := m.copyTranslate_copied (byteAddr va i)
    rw [ureadLoop]
    split
    · exact hfirst
    · dsimp only
      split
      · exact hfirst
      · exact hfirst.trans (ih _ _)

theorem ureadStr_copied (m : Machine) (va : U32) (n : Nat) : Copied m (m.ureadStr va n).2 := by
  have hloop := m.ureadLoop_copied va 0 (n - 1)
  exact ⟨hloop.cfg, hloop.dev⟩

theorem uwriteLoop_copied (m : Machine) (va : U32) (src : Nat → U8) (i n : Nat) :
    Copied m (m.uwriteLoop va src i n).2 := by
  induction n generalizing m i with
  | zero => exact Copied.refl m
  | succ n ih =>
    have hfirst := m.copyTranslate_copied (byteAddr va i)
    rw [uwriteLoop]
    split
    · exact hfirst
    · have hstore : ∀ mem, Copied (m.copyTranslate (byteAddr va i)).2
          ((m.copyTranslate (byteAddr va i)).2.setMem mem) := fun _ => ⟨rfl, rfl⟩
      exact (hfirst.trans (hstore _)).trans (ih _ _)

theorem uwriteMem_copied (m : Machine) (va : U32) (src : Nat → U8) (n : Nat) :
    Copied m (m.uwriteMem va src n).2 := by
  have hloop := m.uwriteLoop_copied va src 0 n
  exact ⟨hloop.cfg, hloop.dev⟩

theorem ubufFault_copied {m m' : Machine} {turns : Nat} {va len tpc : U32}
    {forwrite refused : Bool} (h : ubufFault turns m va len forwrite tpc = some (refused, m')) :
    Copied m m' := by
  by_cases hlen : len = 0
  · rw [ubufFault, if_pos hlen] at h
    obtain rfl : m = m' := congrArg Prod.snd (Option.some.inj h)
    exact Copied.refl m
  · rcases ubufFault_returns m va forwrite tpc hlen with ⟨n, -, hrun⟩ | ⟨n, i, -, -, -, hrun⟩
    · obtain rfl := (Prod.mk.inj (ubufFault_unique h hrun)).2
      exact ((m.swept_peeked va _).trans (peeked_ufault _ _)).copied
    · obtain rfl := (Prod.mk.inj (ubufFault_unique h hrun)).2
      have hpeeked := (m.pageOutcome_peeked va i).copied
      exact ⟨hpeeked.cfg, hpeeked.dev⟩

/-! ## How far a store gets -/

def stores (m : Machine) (va : U32) (src : Nat → U8) : Nat → Machine
  | 0 => m
  | i + 1 =>
    let r := (m.stores va src i).copyTranslate (byteAddr va i)
    r.2.setMem (r.2.mem.w8 r.1 (src i))

/-- Byte `i` of the buffer is resident when its turn comes. -/
def ByteThere (m : Machine) (va : U32) (src : Nat → U8) (i : Nat) : Prop :=
  copyStops ((m.stores va src i).copyTranslate (byteAddr va i)) = false

instance (m : Machine) (va : U32) (src : Nat → U8) (i : Nat) : Decidable (m.ByteThere va src i) :=
  inferInstanceAs (Decidable (_ = false))

theorem stores_congr {m : Machine} {va : U32} {src src' : Nat → U8} {i : Nat}
    (h : ∀ j < i, src j = src' j) : m.stores va src i = m.stores va src' i := by
  induction i with
  | zero => rfl
  | succ i ih =>
    rw [stores, stores, ih fun j hj => h j (Nat.lt_succ_of_lt hj), h i (Nat.lt_succ_self i)]

theorem byteThere_congr {m : Machine} {va : U32} {src src' : Nat → U8} {i : Nat}
    (h : ∀ j < i, src j = src' j) : m.ByteThere va src i ↔ m.ByteThere va src' i := by
  rw [ByteThere, ByteThere, stores_congr h]

theorem uwriteLoop_spec (m : Machine) (va : U32) (src : Nat → U8) (i n : Nat) :
    let r := (m.stores va src i).uwriteLoop va src i n
    (i ≤ r.1 ∧ r.1 ≤ i + n) ∧ (∀ j, i ≤ j → j < r.1 → m.ByteThere va src j) ∧
      (r.1 < i + n → ¬m.ByteThere va src r.1) ∧ r.2.mem = (m.stores va src r.1).mem := by
  induction n generalizing i with
  | zero =>
    exact ⟨⟨Nat.le_refl i, Nat.le_refl i⟩, fun j hle hlt => absurd hlt (Nat.not_lt.2 hle),
      fun hlt => absurd hlt (Nat.lt_irrefl i), rfl⟩
  | succ n ih =>
    rw [uwriteLoop]
    cases hstop : copyStops ((m.stores va src i).copyTranslate (byteAddr va i)) with
    | true =>
      rw [if_pos rfl]
      refine ⟨⟨Nat.le_refl i, Nat.le_add_right i _⟩, fun j hle hlt => ?_, fun _ hthere => ?_, ?_⟩
      · exact absurd hlt (Nat.not_lt.2 hle)
      · exact Bool.noConfusion (hstop.symm.trans hthere)
      · exact (copyTranslate_peeked _ _).mem
    | false =>
      rw [if_neg Bool.false_ne_true]
      obtain ⟨⟨hge, hle⟩, hthere, hend, hmem⟩ := ih (i + 1)
      have hshift : i + 1 + n = i + (n + 1) := by omega
      rw [hshift] at hle hend
      refine ⟨⟨Nat.le_of_succ_le hge, hle⟩, fun j hij hj => ?_, hend, hmem⟩
      rcases Nat.eq_or_lt_of_le hij with rfl | hlt
      · exact hstop
      · exact hthere j hlt hj

/-- `uwrite_mem` transfers every byte exactly when each is resident at its turn. -/
theorem uwriteMem_count (m : Machine) (va : U32) (src : Nat → U8) (n : Nat) :
    (m.uwriteMem va src n).1 ≤ n ∧
      ((m.uwriteMem va src n).1 = n ↔ ∀ i < n, m.ByteThere va src i) := by
  obtain ⟨⟨-, hle⟩, hthere, hend, -⟩ := m.uwriteLoop_spec va src 0 n
  rw [Nat.zero_add] at hle hend
  refine ⟨hle, fun hall i hi => ?_, fun hall => ?_⟩
  · exact hthere i (Nat.zero_le i) (Nat.lt_of_lt_of_eq hi hall.symm)
  · by_contra hne
    have hlt : (m.uwriteMem va src n).1 < n := Nat.lt_of_le_of_ne hle hne
    exact hend hlt (hall _ hlt)

end Machine

end Nx88
