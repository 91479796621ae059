import Nx88.Cpu.Spec
import Nx88.Lib.Ring
/-!
# Draining the diagnostic ring

The byte load of the consumer index plays the front end: it takes bytes out of
the ring until the consumer index meets the producer index.  The kernel keeps
both indices below 128; a guest that stores anything else there can make the
two never meet, and then the emulator itself does not come back.
-/

namespace Nx88

open Lib.Ring

/-! ## The queue behind the two indices -/

def hpsQueued (cons prod : U8) : Nat := (prod - cons).toNat % 128

def hpsNext (cons : U8) : U8 := (cons + 1) &&& 0x7F

namespace Mem

/-- The byte the loop reads at index `i`. -/
def hpsCell (m : Mem) (i : Nat) : U8 := m.r8 (HPS_RING_BUF + BitVec.ofNat 32 i)

def hpsRing (m : Mem) (cons prod : U8) : List U8 :=
  window 128 m.hpsCell cons (hpsQueued cons prod)

end Mem

variable {m : Mem} {cons prod : U8}

theorem toNat_hpsNext (cons : U8) : (hpsNext cons).toNat = (cons.toNat + 1) % 128 := by
  unfold hpsNext
  rw [BitVec.toNat_and, BitVec.toNat_add]
  change ((cons.toNat + 1) % 256) &&& 127 = _
  rw [Nat.and_two_pow_sub_one_eq_mod _ 7]
  omega

theorem hpsNext_lt (cons : U8) : (hpsNext cons).toNat < 128 := by
  rw [toNat_hpsNext]
  exact Nat.mod_lt _ (by decide)

theorem hpsQueued_eq (cons prod : U8) :
    hpsQueued cons prod = (prod.toNat + 256 - cons.toNat) % 128 := by
  unfold hpsQueued
  rw [BitVec.toNat_sub]
  omega

theorem hpsQueued_next (hne : cons.toNat % 128 ≠ prod.toNat % 128) :
    hpsQueued cons prod = hpsQueued (hpsNext cons) prod + 1 := by
  rw [hpsQueued_eq, hpsQueued_eq, toNat_hpsNext]
  omega

theorem hpsRing_self (m : Mem) (cons : U8) : m.hpsRing cons cons = [] := by
  have hempty : hpsQueued cons cons = 0 := by
    rw [hpsQueued_eq]
    omega
  rw [Mem.hpsRing, hempty, window_zero]

/-- The ring is addressed modulo its size, so the wrap of the index is free. -/
theorem window_hpsNext (buf : Nat → U8) (cons : U8) (n : Nat) :
    window 128 buf (cons + 1) n = window 128 buf (hpsNext cons) n := by
  unfold window
  apply List.map_congr_left
  intro i _
  rw [slot_add (by decide), slot_add (by decide), toNat_hpsNext, BitVec.toNat_add]
  change buf (((cons.toNat + 1) % 256 + i) % 128) = _
  refine congrArg buf ?_
  omega

theorem hpsRing_next (m : Mem) (hne : cons.toNat % 128 ≠ prod.toNat % 128) :
    m.hpsRing cons prod =
      m.hpsCell (cons.toNat % 128) :: m.hpsRing (hpsNext cons) prod := by
  unfold Mem.hpsRing
  rw [hpsQueued_next hne, window_succ, window_hpsNext]
  rfl

/-! ## The loop -/

theorem hpsDrain_of_eq (m : Mem) (fuel : Nat) (prod : U8) :
    hpsDrain m prod fuel prod = some ([], prod) := by
  cases fuel <;> simp [hpsDrain]

theorem hpsDrain_succ (m : Mem) (fuel : Nat) (hne : cons ≠ prod) :
    hpsDrain m prod (fuel + 1) cons =
      (hpsDrain m prod fuel (hpsNext cons)).map
        fun r => (m.hpsCell cons.toNat :: r.1, r.2) := by
  have hcell : m.hpsCell cons.toNat = m.r8 (HPS_RING_BUF + cons.setWidth 32) := by
    unfold Mem.hpsCell
    rw [BitVec.ofNat_toNat]
  rw [hpsDrain, if_neg hne, hcell]
  unfold hpsNext
  cases hpsDrain m prod fuel ((cons + 1) &&& 0x7F) <;> rfl

theorem hpsDrain_mono {fuel k : Nat} {r : List U8 × U8}
    (h : hpsDrain m prod fuel cons = some r) (hk : fuel ≤ k) :
    hpsDrain m prod k cons = some r := by
  induction fuel generalizing cons k r with
  | zero =>
      by_cases heq : cons = prod
      · subst heq
        rw [hpsDrain_of_eq] at h
        rw [hpsDrain_of_eq, h]
      · rw [hpsDrain, if_neg heq] at h
        exact absurd h (by simp)
  | succ fuel ih =>
      by_cases heq : cons = prod
      · subst heq
        rw [hpsDrain_of_eq] at h
        rw [hpsDrain_of_eq, h]
      · obtain ⟨k, rfl⟩ : ∃ j, k = j + 1 := ⟨k - 1, by omega⟩
        rw [hpsDrain_succ m fuel heq] at h
        obtain ⟨rest, hrest, rfl⟩ := Option.map_eq_some_iff.1 h
        rw [hpsDrain_succ m k heq, ih hrest (by omega)]
        rfl

/-- A producer index that no ring position has is met only where the loop
starts. -/
theorem hpsDrain_beyond (hprod : 128 ≤ prod.toNat) (hne : cons ≠ prod) (fuel : Nat) :
    hpsDrain m prod fuel cons = none := by
  induction fuel generalizing cons with
  | zero => rw [hpsDrain, if_neg hne]
  | succ fuel ih =>
      have hnext : hpsNext cons ≠ prod := by
        intro h
        have hlt := hpsNext_lt cons
        rw [h] at hlt
        omega
      rw [hpsDrain_succ m fuel hne, ih hnext]
      rfl

/-- Between ring positions the loop takes the queue and meets the producer; the
measure is what is still queued. -/
theorem hpsDrain_ring {fuel : Nat} (hcons : cons.toNat < 128) (hprod : prod.toNat < 128)
    (hfuel : hpsQueued cons prod ≤ fuel) :
    hpsDrain m prod fuel cons = some (m.hpsRing cons prod, prod) := by
  induction fuel generalizing cons with
  | zero =>
      have heq : cons = prod := by
        rw [hpsQueued_eq] at hfuel
        apply BitVec.eq_of_toNat_eq
        omega
      rw [heq, hpsDrain_of_eq, hpsRing_self]
  | succ fuel ih =>
      by_cases heq : cons = prod
      · rw [heq, hpsDrain_of_eq, hpsRing_self]
      · have hmod : cons.toNat % 128 ≠ prod.toNat % 128 := by
          rw [← BitVec.toNat_inj] at heq
          omega
        have hless := hpsQueued_next hmod
        rw [hpsDrain_succ m fuel heq, ih (hpsNext_lt cons) (by omega), hpsRing_next m hmod,
          Nat.mod_eq_of_lt hcons]
        rfl

theorem hpsDrain_behind {fuel : Nat} (hcons : 128 ≤ cons.toNat) (hprod : prod.toNat < 128)
    (hfuel : hpsQueued (hpsNext cons) prod ≤ fuel) :
    hpsDrain m prod (fuel + 1) cons =
      some (m.hpsCell cons.toNat :: m.hpsRing (hpsNext cons) prod, prod) := by
  have hne : cons ≠ prod := by
    rw [Ne, ← BitVec.toNat_inj]
    omega
  rw [hpsDrain_succ m fuel hne, hpsDrain_ring (hpsNext_lt cons) hprod hfuel]
  rfl

/-! ## When the loop ends with the queue taken -/

/-- The indices from which the loop takes out exactly what is queued: equal
ones; ring positions; and a consumer behind the ring whose first byte happens
to be the one it would have found at its position in the ring. -/
def Mem.Drainable (m : Mem) (cons prod : U8) : Prop :=
  cons = prod ∨ prod.toNat < 128 ∧ (cons.toNat < 128 ∨
    cons.toNat % 128 ≠ prod.toNat ∧ m.hpsCell cons.toNat = m.hpsCell (cons.toNat % 128))

theorem hpsQueued_lt (cons prod : U8) : hpsQueued cons prod < 128 := Nat.mod_lt _ (by decide)

theorem hpsDrain_iff (m : Mem) (cons prod : U8) :
    hpsDrain m prod 129 cons = some (m.hpsRing cons prod, prod) ↔ m.Drainable cons prod := by
  have hroom := hpsQueued_lt cons prod
  have hnext := hpsQueued_lt (hpsNext cons) prod
  unfold Mem.Drainable
  by_cases heq : cons = prod
  · subst heq
    rw [hpsDrain_of_eq, hpsRing_self]
    exact ⟨fun _ => .inl rfl, fun _ => rfl⟩
  rw [or_iff_right heq]
  by_cases hprod : prod.toNat < 128
  · rw [and_iff_right hprod]
    by_cases hcons : cons.toNat < 128
    · rw [hpsDrain_ring hcons hprod (by omega)]
      exact ⟨fun _ => .inl hcons, fun _ => rfl⟩
    · rw [or_iff_right hcons, hpsDrain_behind (by omega) hprod (by omega), Option.some.injEq,
        Prod.mk.injEq, and_iff_left rfl]
      by_cases hmod : cons.toNat % 128 = prod.toNat
      · have hempty : hpsQueued cons prod = 0 := by
          rw [hpsQueued_eq]
          omega
        rw [Mem.hpsRing, Mem.hpsRing, hempty, window_zero]
        exact ⟨fun h => (nomatch h), fun h => absurd hmod h.1⟩
      · have hring : m.hpsRing cons prod = _ := hpsRing_next m (by omega)
        rw [hring, List.cons.injEq, and_iff_left rfl]
        exact ⟨fun h => ⟨hmod, h⟩, fun h => h.2⟩
  · rw [hpsDrain_beyond (by omega) heq]
    exact ⟨fun h => (nomatch h), fun h => absurd h.1 hprod⟩

/-! ## The load -/

namespace Machine

/-- What the byte load that took `m` to `m'` did with the ring: its loop ended
with the queue in hand, the emulator came back, and the consumer index met the
producer index. -/
structure TookQueue (m m' : Machine) : Prop where
  ends : ∃ fuel, hpsDrain m.mem (m.mem.r8 HPS_RING_PROD) fuel (m.mem.r8 HPS_RING_CONS) =
    some (m.mem.hpsRing (m.mem.r8 HPS_RING_CONS) (m.mem.r8 HPS_RING_PROD),
      m.mem.r8 HPS_RING_PROD)
  returns : m'.hung = false
  consumer : m'.mem.r8 HPS_RING_CONS = m.mem.r8 HPS_RING_PROD

/-- When the loop ends, the load stores its last index and answers with it. -/
theorem memAccess_drained {m : Machine} {sub : U32} (D : U32) {taken : List U8} {cons : U8}
    (hsys : m.cfg.sysmode = true) (hsub : sub = 0x03 ∨ sub = 0x07)
    (hdrain : hpsDrain m.mem (m.mem.r8 HPS_RING_PROD) 129 (m.mem.r8 HPS_RING_CONS) =
      some (taken, cons)) :
    m.memAccess sub D HPS_RING_CONS =
      (m.setMem (m.mem.w8 HPS_RING_CONS cons)).wr D
        (if sub = 0x07 then sext8 cons else cons.setWidth 32) := by
  unfold memAccess
  rw [if_neg (fun h => absurd h.2.1 (by decide)), if_neg (fun h => absurd h.2.1 (by decide)),
    if_neg (fun h => absurd h.2.1 (by decide)), if_pos ⟨hsys, rfl, hsub⟩, hdrain]

theorem memAccess_hangs {m : Machine} {sub : U32} (D : U32)
    (hsys : m.cfg.sysmode = true) (hsub : sub = 0x03 ∨ sub = 0x07)
    (hdrain : hpsDrain m.mem (m.mem.r8 HPS_RING_PROD) 129 (m.mem.r8 HPS_RING_CONS) = none) :
    m.memAccess sub D HPS_RING_CONS = { m with hung := true } := by
  unfold memAccess
  rw [if_neg (fun h => absurd h.2.1 (by decide)), if_neg (fun h => absurd h.2.1 (by decide)),
    if_neg (fun h => absurd h.2.1 (by decide)), if_pos ⟨hsys, rfl, hsub⟩, hdrain]

theorem memAccess_tookQueue {m : Machine} {sub : U32} (D : U32) (hsys : m.cfg.sysmode = true)
    (hrunning : m.hung = false) (hsub : sub = 0x03 ∨ sub = 0x07) :
    TookQueue m (m.memAccess sub D HPS_RING_CONS) ↔
      m.mem.Drainable (m.mem.r8 HPS_RING_CONS) (m.mem.r8 HPS_RING_PROD) := by
  rw [← hpsDrain_iff]
  constructor
  · intro h
    obtain ⟨fuel, hends⟩ := h.ends
    cases hdrain : hpsDrain m.mem (m.mem.r8 HPS_RING_PROD) 129 (m.mem.r8 HPS_RING_CONS) with
    | none =>
        have hreturns := h.returns
        rw [memAccess_hangs D hsys hsub hdrain] at hreturns
        exact absurd hreturns (by simp)
    | some r =>
        have hlong := hpsDrain_mono hdrain (Nat.le_add_left 129 fuel)
        rw [hpsDrain_mono hends (Nat.le_add_right fuel 129)] at hlong
        exact hlong.symm
  · intro hdrain
    have hload := memAccess_drained D hsys hsub hdrain
    refine ⟨⟨129, hdrain⟩, ?_, ?_⟩
    · rw [hload]
      exact hrunning
    · rw [hload]
      exact Mem.r8_w8_self _ _ _

/-- A byte load that reaches the consumer index takes the queue and comes back
exactly when the two indices are drainable. -/
theorem ring_load_iff_drainable (m : Machine) (sub D ea : U32) (hsys : m.cfg.sysmode = true)
    (hrunning : m.hung = false) (hsub : sub = 0x03 ∨ sub = 0x07)
    (hclear : (m.memLooked sub ea).ufault.pending = false)
    (haddr : m.memAddr sub ea = HPS_RING_CONS) :
    TookQueue m (m.memop sub D ea) ↔
      m.mem.Drainable (m.mem.r8 HPS_RING_CONS) (m.mem.r8 HPS_RING_PROD) := by
  have hlda : ¬(0x0C ≤ sub ∧ sub ≤ 0x0F) := by
    rcases hsub with rfl | rfl <;> decide
  have hpeek := translate_peeked (m.setXlatWrite (isStore sub)) ea false
  have hmem : (m.memLooked sub ea).mem = m.mem := hpeek.mem
  have hcfg : (m.memLooked sub ea).cfg.sysmode = true := by
    rw [show (m.memLooked sub ea).cfg = m.cfg from hpeek.cfg]
    exact hsys
  have hhung : (m.memLooked sub ea).hung = false := by
    obtain ⟨t, u, s, heq⟩ := hpeek
    unfold memLooked
    rw [heq]
    exact hrunning
  have hiff := memAccess_tookQueue D hcfg hhung hsub
  rw [hmem] at hiff
  rw [memop_done _ _ hlda hclear, haddr, ← hiff]
  exact ⟨fun h => ⟨by rw [hmem]; exact h.ends, h.returns, by rw [hmem]; exact h.consumer⟩,
    fun h => ⟨by rw [← hmem]; exact h.ends, h.returns, by rw [← hmem]; exact h.consumer⟩⟩

def producedTo (prod : U8) : Machine :=
  { Machine.fresh with mem := (Mem.blank true).w8 HPS_RING_PROD prod }

theorem ring_load_of_three :
    ∃ m : Machine, m.cfg.sysmode = true ∧ m.hung = false ∧
      (m.memLooked 0x03 HPS_RING_CONS).ufault.pending = false ∧
      m.memAddr 0x03 HPS_RING_CONS = HPS_RING_CONS ∧
      TookQueue m (m.memop 0x03 2 HPS_RING_CONS) := by
  have hclear : ((producedTo 3).memLooked 0x03 HPS_RING_CONS).ufault.pending = false := by decide
  have haddr : (producedTo 3).memAddr 0x03 HPS_RING_CONS = HPS_RING_CONS := by decide
  refine ⟨producedTo 3, rfl, rfl, hclear, haddr, ?_⟩
  exact (ring_load_iff_drainable (producedTo 3) 0x03 2 HPS_RING_CONS rfl rfl (.inl rfl) hclear
    haddr).2 (.inr ⟨by decide, .inl (by decide)⟩)

/-- A guest that stores 128 as producer index hangs the emulator with its next
look at the consumer index. -/
theorem ring_load_hangs :
    ¬∀ (m : Machine) (sub D ea : U32), m.cfg.sysmode = true → m.hung = false →
      (sub = 0x03 ∨ sub = 0x07) → (m.memLooked sub ea).ufault.pending = false →
      m.memAddr sub ea = HPS_RING_CONS → TookQueue m (m.memop sub D ea) := by
  intro hall
  have htook := hall (producedTo 0x80) 0x03 2 HPS_RING_CONS rfl rfl (.inl rfl) (by decide)
    (by decide)
  obtain ⟨fuel, hends⟩ := htook.ends
  rw [hpsDrain_beyond (by decide) (by decide)] at hends
  exact (nomatch hends)

end Machine

end Nx88
