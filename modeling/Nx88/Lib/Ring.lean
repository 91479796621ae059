import Mathlib.Data.List.Basic
import Mathlib.Data.Nat.ModEq
import Mathlib.Logic.Function.Basic
/-!
# Circular buffers

A buffer of `cap` cells addressed by free-running counters of `w` bits, where
`cap` divides `2 ^ w`.  The queue is the window of cells from the read counter
on; it never matters that the counters wrap.
-/

namespace Nx88.Lib.Ring

variable {α : Type} {w : Nat} (cap : Nat)

def slot (c : BitVec w) : Nat := c.toNat % cap

def window (buf : Nat → α) (r : BitVec w) (n : Nat) : List α :=
  (List.range n).map fun i => buf (slot cap (r + BitVec.ofNat w i))

variable {cap} {buf : Nat → α} {r : BitVec w} {n : Nat}

@[simp] theorem length_window : (window cap buf r n).length = n := by
  rw [window, List.length_map, List.length_range]

@[simp] theorem window_zero : window cap buf r 0 = [] := rfl

theorem slot_add (hcap : cap ∣ 2 ^ w) (r : BitVec w) (i : Nat) :
    slot cap (r + BitVec.ofNat w i) = (r.toNat + i) % cap := by
  rw [slot, BitVec.toNat_add, BitVec.toNat_ofNat, Nat.add_mod_mod, Nat.mod_mod_of_dvd _ hcap]

theorem slot_ne (hcap : cap ∣ 2 ^ w) {i j : Nat} (hij : i < j) (hj : j < cap) :
    slot cap (r + BitVec.ofNat w i) ≠ slot cap (r + BitVec.ofNat w j) := by
  rw [slot_add hcap, slot_add hcap]
  intro h
  have hdvd : cap ∣ r.toNat + j - (r.toNat + i) :=
    (Nat.modEq_iff_dvd' (by omega)).1 h
  have hle := Nat.le_of_dvd (by omega) hdvd
  omega

theorem window_put (hcap : cap ∣ 2 ^ w) (hn : n < cap) (v : α) :
    window cap (Function.update buf (slot cap (r + BitVec.ofNat w n)) v) r (n + 1) =
      window cap buf r n ++ [v] := by
  rw [window, List.range_succ, List.map_append, List.map_singleton, Function.update_self]
  refine congrArg (· ++ [v]) ?_
  apply List.map_congr_left
  intro i hi
  exact Function.update_of_ne (slot_ne hcap (List.mem_range.1 hi) hn) v buf

theorem window_succ : window cap buf r (n + 1) =
    buf (slot cap r) :: window cap buf (r + 1) n := by
  rw [window, List.range_succ_eq_map, List.map_cons, List.map_map]
  refine List.cons_eq_cons.2 ⟨by rw [BitVec.add_zero], ?_⟩
  apply List.map_congr_left
  intro i _
  change buf (slot cap (r + BitVec.ofNat w (i + 1))) = _
  rw [Nat.add_comm, BitVec.ofNat_add, ← BitVec.add_assoc]
  rfl

end Nx88.Lib.Ring
