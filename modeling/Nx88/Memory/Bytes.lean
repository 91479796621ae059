import Nx88.Memory
/-!
# Physical memory as one byte array

Every accessor acts on the array of bytes behind the folded addresses: a store
of consecutive bytes changes the bytes whose folded addresses it names, and a
read of any width is the big-endian reading of single bytes.
-/

namespace Nx88

open Lib.Words

/-! ## Consecutive bytes -/

/-- Byte `i` from `a`, with the address arithmetic of the machine. -/
def byteAddr (a : U32) (i : Nat) : U32 := a + BitVec.ofNat 32 i

theorem toNat_byteAddr (a : U32) (i : Nat) :
    (byteAddr a i).toNat = (a.toNat + i) % 2 ^ 32 := by
  unfold byteAddr
  rw [BitVec.toNat_add, BitVec.toNat_ofNat]
  omega

theorem byteAddr_zero (a : U32) : byteAddr a 0 = a := by
  apply BitVec.eq_of_toNat_eq
  rw [toNat_byteAddr]
  have hlt := a.isLt
  omega

theorem byteAddr_succ (a : U32) (i : Nat) : byteAddr (a + 1) i = byteAddr a (i + 1) := by
  apply BitVec.eq_of_toNat_eq
  rw [toNat_byteAddr, toNat_byteAddr, BitVec.toNat_add]
  have hone : (1 : U32).toNat = 1 := rfl
  omega

theorem byteAddr_add (a : U32) (i j : Nat) : byteAddr (byteAddr a i) j = byteAddr a (i + j) := by
  apply BitVec.eq_of_toNat_eq
  rw [toNat_byteAddr, toNat_byteAddr, toNat_byteAddr]
  omega

theorem cphys_byteAddr_ne (realmm : Bool) (a : U32) {i j : Nat} (hij : i < j)
    (hj : j - i < 4096) : cphys realmm (byteAddr a i) ≠ cphys realmm (byteAddr a j) := by
  apply cphys_ne_of_mod
  rw [toNat_byteAddr, toNat_byteAddr]
  omega

namespace Mem

/-- `m'` is `m` with the bytes `bs` stored from `a` on. -/
structure Stored (m : Mem) (a : U32) (bs : List U8) (m' : Mem) : Prop where
  written : ∀ i (h : i < bs.length) b,
    cphys m.realmm b = cphys m.realmm (byteAddr a i) → m'.r8 b = bs[i]
  kept : ∀ b, (∀ i < bs.length, cphys m.realmm b ≠ cphys m.realmm (byteAddr a i)) →
    m'.r8 b = m.r8 b

@[simp] theorem load_realmm (m : Mem) (a : U32) (bs : List U8) :
    (m.load a bs).realmm = m.realmm := by
  induction bs generalizing m a with
  | nil => rfl
  | cons b bs ih => exact ih (m.w8 a b) (a + 1)

theorem r8_load_of_outside {m : Mem} {a b : U32} {bs : List U8}
    (h : ∀ i < bs.length, cphys m.realmm b ≠ cphys m.realmm (byteAddr a i)) :
    (m.load a bs).r8 b = m.r8 b := by
  induction bs generalizing m a with
  | nil => rfl
  | cons c bs ih =>
    have hfirst := h 0 (by simp)
    rw [byteAddr_zero] at hfirst
    have hrest : ∀ i < bs.length,
        cphys (m.w8 a c).realmm b ≠ cphys (m.w8 a c).realmm (byteAddr (a + 1) i) := by
      intro i hi
      rw [byteAddr_succ]
      exact h (i + 1) (by simpa using hi)
    rw [load, ih hrest, r8_w8_of_ne hfirst]

theorem stored_load (m : Mem) (a : U32) {bs : List U8} (hlen : bs.length ≤ 4096) :
    Stored m a bs (m.load a bs) := by
  refine ⟨?_, fun b hb => r8_load_of_outside hb⟩
  induction bs generalizing m a with
  | nil => exact fun i h => absurd h (Nat.not_lt_zero i)
  | cons c bs ih =>
    rw [List.length_cons] at hlen
    intro i hi b hb
    cases i with
    | zero =>
      rw [byteAddr_zero] at hb
      have hlater : ∀ j < bs.length,
          cphys (m.w8 a c).realmm b ≠ cphys (m.w8 a c).realmm (byteAddr (a + 1) j) := by
        intro j hj
        rw [w8_realmm, hb, byteAddr_succ]
        have hne := cphys_byteAddr_ne m.realmm a (Nat.succ_pos j) (by omega)
        rwa [byteAddr_zero] at hne
      rw [load, r8_load_of_outside hlater, r8_w8, if_pos hb]
      rfl
    | succ i =>
      rw [← byteAddr_succ] at hb
      exact ih (m.w8 a c) (a + 1) (by omega) i (by simpa using hi) b hb

/-! ## The accessors -/

theorem w8_eq_load (m : Mem) (a : U32) (v : U8) : m.w8 a v = m.load a [v] := rfl

theorem w16_eq_load (m : Mem) (a : U32) (v : U16) :
    m.w16 a v = m.load a [(v >>> 8).setWidth 8, v.setWidth 8] := rfl

theorem w32_eq_load (m : Mem) (a v : U32) :
    m.w32 a v = m.load a [byteOf v 0, byteOf v 1, byteOf v 2, byteOf v 3] := by
  have h2 : a + 1 + 1 = a + 2 := by rw [BitVec.add_assoc]; rfl
  have h3 : a + 2 + 1 = a + 3 := by rw [BitVec.add_assoc]; rfl
  rw [w32_eq, load, load, load, load, load, h2, h3]

end Mem

theorem cphys_idem (realmm : Bool) (a : U32) :
    cphys realmm (cphys realmm a) = cphys realmm a := by
  have hlt := a.isLt
  apply BitVec.eq_of_toNat_eq
  rw [toNat_cphys, toNat_cphys]
  cases realmm <;> simp <;> split_ifs <;> omega

theorem cphys_offset (realmm : Bool) (a : U32) :
    cphys realmm a &&& 0xFFF = a &&& 0xFFF := by
  apply BitVec.eq_of_toNat_eq
  rw [show (0xFFF : U32) = 4095 from rfl, toNat_and_4095, toNat_and_4095]
  exact cphys_mod realmm a

/-- Memory is one array of bytes behind folded addresses: stores of every width
change the bytes they name and no others, reads of every width spell them out,
whether or not they cross a page. -/
theorem memory_is_byte_array (m : Mem) (a : U32) (v8 : U8) (v16 : U16) (v32 : U32) :
    Mem.Stored m a [v8] (m.w8 a v8) ∧
      Mem.Stored m a [(v16 >>> 8).setWidth 8, v16.setWidth 8] (m.w16 a v16) ∧
      Mem.Stored m a [byteOf v32 0, byteOf v32 1, byteOf v32 2, byteOf v32 3] (m.w32 a v32) ∧
      m.r16 a = (m.r8 a).setWidth 16 <<< 8 ||| (m.r8 (a + 1)).setWidth 16 ∧
      m.r32 a = be32 (m.r8 a) (m.r8 (a + 1)) (m.r8 (a + 2)) (m.r8 (a + 3)) ∧
      cphys m.realmm (cphys m.realmm a) = cphys m.realmm a ∧
      cphys m.realmm a &&& 0xFFF = a &&& 0xFFF := by
  refine ⟨?_, ?_, ?_, rfl, m.r32_eq a, cphys_idem _ a, cphys_offset _ a⟩
  · rw [Mem.w8_eq_load]
    exact Mem.stored_load m a (by simp)
  · rw [Mem.w16_eq_load]
    exact Mem.stored_load m a (by simp)
  · rw [Mem.w32_eq_load]
    exact Mem.stored_load m a (by simp)

end Nx88
