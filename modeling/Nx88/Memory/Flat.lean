import Nx88.Memory.Bytes
/-!
# Memory below the fold

No address below `2 ^ 31` is folded, so the bytes there are one array indexed
by naturals: a store of consecutive bytes or words changes the places it names
and keeps the others.
-/

namespace Nx88

open Lib.Words

theorem toNat_ofNat_low {n : Nat} (h : n < 2 ^ 31) : (BitVec.ofNat 32 n).toNat = n := by
  rw [BitVec.toNat_ofNat]
  omega

theorem cphys_low (realmm : Bool) {n : Nat} (h : n < 2 ^ 31) :
    cphys realmm (BitVec.ofNat 32 n) = BitVec.ofNat 32 n := by
  apply BitVec.eq_of_toNat_eq
  rw [toNat_cphys, toNat_ofNat_low h, if_neg (by omega), if_neg (by omega)]

theorem ofNat_low_inj {a b : Nat} (ha : a < 2 ^ 31) (hb : b < 2 ^ 31)
    (h : BitVec.ofNat 32 a = BitVec.ofNat 32 b) : a = b := by
  have heq := congrArg BitVec.toNat h
  rwa [toNat_ofNat_low ha, toNat_ofNat_low hb] at heq

theorem byteAddr_ofNat (n i : Nat) :
    byteAddr (BitVec.ofNat 32 n) i = BitVec.ofNat 32 (n + i) := by
  rw [byteAddr, BitVec.ofNat_add]

namespace Mem

def low (m : Mem) (n : Nat) : U8 := m.r8 (BitVec.ofNat 32 n)

theorem low_w8 (m : Mem) {a n : Nat} (v : U8) (ha : a < 2 ^ 31) (hn : n < 2 ^ 31) :
    (m.w8 (BitVec.ofNat 32 a) v).low n = if n = a then v else m.low n := by
  unfold low
  rw [r8_w8, cphys_low _ ha, cphys_low _ hn]
  by_cases hna : n = a
  · rw [if_pos hna, if_pos (by rw [hna])]
  · rw [if_neg hna, if_neg fun h => hna (ofNat_low_inj hn ha h)]

/-! ## Consecutive bytes -/

theorem low_load_of_outside {m : Mem} {a n : Nat} {bs : List U8}
    (ha : a + bs.length ≤ 2 ^ 31) (hn : n < 2 ^ 31) (h : n < a ∨ a + bs.length ≤ n) :
    (m.load (BitVec.ofNat 32 a) bs).low n = m.low n := by
  induction bs generalizing m a with
  | nil => rfl
  | cons b bs ih =>
    rw [List.length_cons] at ha h
    have hnext : BitVec.ofNat 32 a + 1 = BitVec.ofNat 32 (a + 1) :=
      (BitVec.ofNat_add a 1).symm
    rw [load, hnext, ih (by omega) (by omega), low_w8 m b (by omega) hn, if_neg (by omega)]

theorem low_load {m : Mem} {a i : Nat} {bs : List U8} (ha : a + bs.length ≤ 2 ^ 31)
    (hi : i < bs.length) : (m.load (BitVec.ofNat 32 a) bs).low (a + i) = bs[i] := by
  induction bs generalizing m a i with
  | nil => exact absurd hi (Nat.not_lt_zero i)
  | cons b bs ih =>
    rw [List.length_cons] at ha hi
    have hnext : BitVec.ofNat 32 a + 1 = BitVec.ofNat 32 (a + 1) :=
      (BitVec.ofNat_add a 1).symm
    rw [load, hnext]
    cases i with
    | zero =>
      rw [low_load_of_outside (by omega) (by omega) (by omega),
        low_w8 m b (by omega) (by omega), if_pos (by omega)]
      rfl
    | succ i =>
      have hshift : a + (i + 1) = a + 1 + i := by omega
      rw [hshift, ih (by omega) (by omega)]
      rfl

/-! ## Consecutive words -/

theorem r32_low (m : Mem) (n : Nat) :
    m.r32 (BitVec.ofNat 32 n) = be32 (m.low n) (m.low (n + 1)) (m.low (n + 2)) (m.low (n + 3)) := by
  rw [r32_eq]
  unfold low
  rw [BitVec.ofNat_add, BitVec.ofNat_add, BitVec.ofNat_add]
  rfl

theorem r32_congr_low {m m' : Mem} {n : Nat} (h : ∀ k < 4, m'.low (n + k) = m.low (n + k)) :
    m'.r32 (BitVec.ofNat 32 n) = m.r32 (BitVec.ofNat 32 n) := by
  have h0 : m'.low n = m.low n := h 0 (by omega)
  rw [r32_low, r32_low, h0, h 1 (by omega), h 2 (by omega), h 3 (by omega)]

theorem low_w32_of_outside {m : Mem} {a n : Nat} {v : U32} (ha : a + 4 ≤ 2 ^ 31)
    (hn : n < 2 ^ 31) (h : n < a ∨ a + 4 ≤ n) : (m.w32 (BitVec.ofNat 32 a) v).low n = m.low n := by
  rw [w32_eq_load]
  exact low_load_of_outside ha hn h

def storeWords (m : Mem) (a : U32) : List U32 → Mem
  | [] => m
  | w :: ws => (m.w32 a w).storeWords (a + 4) ws

theorem storeWords_append (m : Mem) (a : U32) (ws : List U32) (w : U32) :
    m.storeWords a (ws ++ [w]) = (m.storeWords a ws).w32 (a + BitVec.ofNat 32 (4 * ws.length)) w := by
  induction ws generalizing m a with
  | nil =>
    change m.w32 a w = m.w32 (a + 0#32) w
    rw [BitVec.add_zero]
  | cons x ws ih =>
    have hend : a + 4 + BitVec.ofNat 32 (4 * ws.length) =
        a + BitVec.ofNat 32 (4 * (ws.length + 1)) := by
      rw [BitVec.add_assoc, Nat.mul_add, Nat.add_comm (4 * ws.length), BitVec.ofNat_add]
      rfl
    rw [List.cons_append, storeWords, ih, hend]
    rfl

theorem low_storeWords_of_outside {m : Mem} {a n : Nat} {ws : List U32}
    (ha : a + 4 * ws.length ≤ 2 ^ 31) (hn : n < 2 ^ 31) (h : n < a ∨ a + 4 * ws.length ≤ n) :
    (m.storeWords (BitVec.ofNat 32 a) ws).low n = m.low n := by
  induction ws generalizing m a with
  | nil => rfl
  | cons w ws ih =>
    rw [List.length_cons] at ha h
    have hnext : BitVec.ofNat 32 a + 4 = BitVec.ofNat 32 (a + 4) :=
      (BitVec.ofNat_add a 4).symm
    rw [storeWords, hnext, ih (by omega) (by omega),
      low_w32_of_outside (by omega) hn (by omega)]

theorem r32_storeWords {m : Mem} {a i : Nat} {ws : List U32}
    (ha : a + 4 * ws.length ≤ 2 ^ 31) (hi : i < ws.length) :
    (m.storeWords (BitVec.ofNat 32 a) ws).r32 (BitVec.ofNat 32 (a + 4 * i)) = ws[i] := by
  induction ws generalizing m a i with
  | nil => exact absurd hi (Nat.not_lt_zero i)
  | cons w ws ih =>
    rw [List.length_cons] at ha hi
    have hnext : BitVec.ofNat 32 a + 4 = BitVec.ofNat 32 (a + 4) :=
      (BitVec.ofNat_add a 4).symm
    rw [storeWords, hnext]
    cases i with
    | zero =>
      have hkept : ∀ k < 4,
          ((m.w32 (BitVec.ofNat 32 a) w).storeWords (BitVec.ofNat 32 (a + 4)) ws).low (a + k) =
            (m.w32 (BitVec.ofNat 32 a) w).low (a + k) := by
        intro k hk
        exact low_storeWords_of_outside (by omega) (by omega) (by omega)
      exact (r32_congr_low hkept).trans (r32_w32_self m _ w)
    | succ i =>
      have hshift : a + 4 * (i + 1) = a + 4 + 4 * i := by omega
      rw [hshift, ih (by omega) (by omega)]
      rfl

end Mem

end Nx88
