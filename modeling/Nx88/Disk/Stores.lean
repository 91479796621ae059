import Nx88.Cpu.Intercepts
import Nx88.Lib.Scatter
import Nx88.Memory.Bytes
import Nx88.Mmu.Faults
/-!
# The stores and loads of a transfer

A transfer through kernel addresses moves words, each through the translation of
its first byte; a transfer through a physical address moves bytes.  Both put
their bytes into the cells of memory one after another.
-/

namespace Nx88

open Lib.Words Lib.Scatter

/-! ## Consecutive bytes -/

namespace Mem

theorem load_append (m : Mem) (a : U32) (bs : List U8) (b : U8) :
    m.load a (bs ++ [b]) = (m.load a bs).w8 (byteAddr a bs.length) b := by
  induction bs generalizing m a with
  | nil => rw [List.nil_append, load, load, load, List.length_nil, byteAddr_zero]
  | cons c bs ih => rw [List.cons_append, load, ih, load, List.length_cons, byteAddr_succ]

theorem put_r8 (m : Mem) (a : U32) (v : U8) :
    put (cphys m.realmm) m.r8 a v = (m.w8 a v).r8 :=
  funext fun b => (m.r8_w8 a b v).symm

theorem load_scatter (m : Mem) (a : U32) (val : Nat → U8) (n : Nat) :
    (m.load a ((List.range n).map val)).r8 =
      scatter (cphys m.realmm) m.r8 (byteAddr a) val n := by
  induction n with
  | zero => rfl
  | succ n ih =>
    rw [List.range_succ, List.map_append, List.map_singleton, load_append, scatter, ← ih,
      List.length_map, List.length_range, ← put_r8, load_realmm]

theorem bytes_eq (m : Mem) (a : U32) (n : Nat) :
    m.bytes a n = (List.range n).map fun i => m.r8 (byteAddr a i) := by
  induction n generalizing a with
  | zero => rfl
  | succ n ih =>
    rw [bytes, ih, List.range_succ_eq_map, List.map_cons, byteAddr_zero, List.map_map]
    refine congrArg (m.r8 a :: ·) (List.map_congr_left fun i _ => ?_)
    rw [Function.comp_apply, byteAddr_succ]

theorem byteOf_r32 (m : Mem) (a : U32) :
    [byteOf (m.r32 a) 0, byteOf (m.r32 a) 1, byteOf (m.r32 a) 2, byteOf (m.r32 a) 3] =
      (List.range 4).map fun i => m.r8 (byteAddr a i) := by
  rw [r32_eq, byteOf_be32_zero, byteOf_be32_one, byteOf_be32_two, byteOf_be32_three]
  simp only [List.range_succ_eq_map, List.range_zero, List.map_cons, List.map_nil, byteAddr_zero]
  rfl

theorem w32_scatter (m : Mem) (a : U32) (val : Nat → U8) :
    (m.w32 a (be32 (val 0) (val 1) (val 2) (val 3))).r8 =
      scatter (cphys m.realmm) m.r8 (byteAddr a) val 4 := by
  rw [← load_scatter, w32_eq_load, byteOf_be32_zero, byteOf_be32_one, byteOf_be32_two,
    byteOf_be32_three]
  rfl

end Mem

/-! ## A mapped buffer -/

section Buffers

variable (phys : U32 → U32) (addr : U32)

def bytePlace (i : Nat) : U32 := phys (byteAddr addr i)

/-- Where byte `i` is put and taken: in its word, from the place of the word's
first byte on. -/
def wordPlace (i : Nat) : U32 := byteAddr (phys (byteAddr addr (4 * (i / 4)))) (i % 4)

end Buffers

def wordsOf (n : Nat) : Nat := (n + 3) / 4

/-- A byte that the transfer of `n` bytes may store. -/
def InWords (realmm : Bool) (phys : U32 → U32) (addr : U32) (n : Nat) (b : U32) : Prop :=
  ∃ i < 4 * wordsOf n, cphys realmm b = cphys realmm (wordPlace phys addr i)

namespace Machine

/-- What may happen to the machine while the bytes in `P` are stored. -/
inductive Moved (P : U32 → Prop) (m : Machine) : Machine → Prop where
  | refl : Moved P m m
  | translate {k : Machine} (va : U32) : Moved P m k → Moved P m (k.translate va false).2
  | store {k : Machine} (mem : Mem) (hreal : mem.realmm = k.mem.realmm)
      (hkept : ∀ b, ¬P b → mem.r8 b = k.mem.r8 b) : Moved P m k → Moved P m (k.setMem mem)
  | device {k : Machine} (d : Devices) : Moved P m k → Moved P m { k with dev := d }

theorem Moved.trans {P : U32 → Prop} {m k l : Machine} (h₁ : Moved P m k) (h₂ : Moved P k l) :
    Moved P m l := by
  induction h₂ with
  | refl => exact h₁
  | translate va _ ih => exact .translate va ih
  | store mem hreal hkept _ ih => exact .store mem hreal hkept ih
  | device d _ ih => exact .device d ih

/-- The buffer of `n` bytes at `addr` is mapped: its addresses have the places
`phys`, and keep them while it is transferred. -/
def Mapped (m : Machine) (addr : U32) (n : Nat) (phys : U32 → U32) : Prop :=
  ∀ k, Moved (InWords m.mem.realmm phys addr n) m k →
    ∀ i < n, (k.translate (byteAddr addr i) false).1 = phys (byteAddr addr i)

theorem Mapped.moved {m k : Machine} {addr : U32} {n : Nat} {phys : U32 → U32}
    (h : m.Mapped addr n phys) (hreal : k.mem.realmm = m.mem.realmm)
    (hk : Moved (InWords m.mem.realmm phys addr n) m k) : k.Mapped addr n phys := by
  intro l hl i hi
  rw [hreal] at hl
  exact h l (hk.trans hl) i hi

@[simp] theorem translate_mem (m : Machine) (va : U32) (code : Bool) :
    (m.translate va code).2.mem = m.mem := by
  obtain ⟨t, u, s, heq⟩ := translate_peeked m va code
  rw [heq]

@[simp] theorem translate_dev (m : Machine) (va : U32) (code : Bool) :
    (m.translate va code).2.dev = m.dev := by
  obtain ⟨t, u, s, heq⟩ := translate_peeked m va code
  rw [heq]

/-! ## The words of a transfer -/

theorem kwrite_eq (m : Machine) (va v : U32) :
    m.kwrite va v = (m.translate va false).2.setMem (m.mem.w32 (m.translate va false).1 v) := by
  rw [kwrite]
  simp only [translate_mem]

theorem kread_eq (m : Machine) (va : U32) :
    m.kread va = (m.mem.r32 (m.translate va false).1, (m.translate va false).2) := by
  rw [kread]
  simp only [translate_mem]

theorem storeWords_succ (m : Machine) (addr : U32) (tmp : Nat → U8) (k n : Nat) :
    m.storeWords addr tmp k (n + 1) =
      (m.storeWords addr tmp k n).kwrite (byteAddr addr (4 * (k + n)))
        (be32 (tmp (4 * (k + n))) (tmp (4 * (k + n) + 1)) (tmp (4 * (k + n) + 2))
          (tmp (4 * (k + n) + 3))) := by
  induction n generalizing m k with
  | zero => rfl
  | succ n ih =>
    rw [storeWords, ih, show k + 1 + n = k + (n + 1) by omega]
    rfl

theorem wordPlace_word (phys : U32 → U32) (addr : U32) (k : Nat) {j : Nat} (hj : j < 4) :
    wordPlace phys addr (4 * k + j) = byteAddr (phys (byteAddr addr (4 * k))) j := by
  rw [wordPlace, show (4 * k + j) / 4 = k by omega, show (4 * k + j) % 4 = j by omega]

theorem storeWords_spec {m : Machine} {addr : U32} {n : Nat} {phys : U32 → U32}
    (hmap : m.Mapped addr n phys) (tmp : Nat → U8) {k : Nat} (hk : k ≤ wordsOf n) :
    Moved (InWords m.mem.realmm phys addr n) m (m.storeWords addr tmp 0 k) ∧
      (m.storeWords addr tmp 0 k).dev = m.dev ∧
      (m.storeWords addr tmp 0 k).mem.realmm = m.mem.realmm ∧
      (m.storeWords addr tmp 0 k).mem.r8 =
        scatter (cphys m.mem.realmm) m.mem.r8 (wordPlace phys addr) tmp (4 * k) := by
  induction k with
  | zero => exact ⟨.refl, rfl, rfl, rfl⟩
  | succ k ih =>
    obtain ⟨hmoved, hdev, hreal, hr8⟩ := ih (by omega)
    have hin : 4 * k < n := by
      unfold wordsOf at hk
      omega
    rw [storeWords_succ, Nat.zero_add, kwrite_eq]
    generalize m.storeWords addr tmp 0 k = l at hmoved hdev hreal hr8
    have hpa : (l.translate (byteAddr addr (4 * k)) false).1 = phys (byteAddr addr (4 * k)) :=
      hmap l hmoved _ hin
    rw [hpa]
    have hword : (l.mem.w32 (phys (byteAddr addr (4 * k)))
        (be32 (tmp (4 * k)) (tmp (4 * k + 1)) (tmp (4 * k + 2)) (tmp (4 * k + 3)))).r8 =
          scatter (cphys m.mem.realmm) l.mem.r8 (fun i => wordPlace phys addr (4 * k + i))
            (fun i => tmp (4 * k + i)) 4 := by
      rw [← hreal]
      refine (Mem.w32_scatter l.mem _ fun i => tmp (4 * k + i)).trans ?_
      simp only [scatter, wordPlace_word phys addr k (show 0 < 4 by omega),
        wordPlace_word phys addr k (show 1 < 4 by omega),
        wordPlace_word phys addr k (show 2 < 4 by omega),
        wordPlace_word phys addr k (show 3 < 4 by omega)]
    refine ⟨?_, ?_, ?_, ?_⟩
    · refine .store _ ?_ (fun b hb => ?_) (.translate _ hmoved)
      · rw [Mem.w32_realmm, translate_mem]
      · rw [translate_mem, hword]
        refine scatter_of_outside fun i hi hkey => hb ⟨4 * k + i, by omega, hkey⟩
    · exact (translate_dev l _ _).trans hdev
    · exact (Mem.w32_realmm _ _ _).trans hreal
    · rw [show 4 * (k + 1) = 4 * k + 4 by omega, scatter_add, ← hr8]
      exact hword

theorem loadWords_spec {m : Machine} {addr : U32} {n : Nat} {phys : U32 → U32}
    (hmap : m.Mapped addr n phys) {l : Machine} {k j : Nat} (hk : k + j ≤ wordsOf n)
    (hmoved : Moved (InWords m.mem.realmm phys addr n) m l) (hmem : l.mem = m.mem) :
    (l.loadWords addr k j).1 =
        (List.range (4 * j)).map (fun i => m.mem.r8 (wordPlace phys addr (4 * k + i))) ∧
      (l.loadWords addr k j).2.mem = m.mem ∧ (l.loadWords addr k j).2.dev = l.dev := by
  induction j generalizing l k with
  | zero => exact ⟨rfl, hmem, rfl⟩
  | succ j ih =>
    have hin : 4 * k < n := by
      unfold wordsOf at hk
      omega
    have hpa : (l.translate (byteAddr addr (4 * k)) false).1 = phys (byteAddr addr (4 * k)) :=
      hmap l hmoved _ hin
    have hread : l.kread (addr + BitVec.ofNat 32 (4 * k)) =
        (m.mem.r32 (phys (byteAddr addr (4 * k))),
          (l.translate (byteAddr addr (4 * k)) false).2) := by
      rw [kread_eq, hmem, ← hpa]
      rfl
    obtain ⟨hbytes, hmem', hdev⟩ := ih (l := (l.translate (byteAddr addr (4 * k)) false).2)
      (k := k + 1) (by omega) (.translate _ hmoved) ((translate_mem l _ _).trans hmem)
    rw [loadWords, hread]
    refine ⟨?_, hmem', hdev.trans (translate_dev l _ _)⟩
    simp only [hbytes, Mem.byteOf_r32]
    rw [show 4 * (j + 1) = 4 + 4 * j by omega, List.range_add, List.map_append, List.map_map]
    congr 1
    · refine List.map_congr_left fun i hi => ?_
      rw [wordPlace_word phys addr k (List.mem_range.1 hi)]
    · refine List.map_congr_left fun i _ => ?_
      rw [Function.comp_apply, show 4 * (k + 1) + i = 4 * k + (4 + i) by omega]

end Machine

end Nx88
