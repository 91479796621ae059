import Mathlib.Data.Finset.Card
/-!
# Keyed lists of bounded length

A list holds one entry for each key it knows.  Adding an entry replaces the one
with its key, or appends it if there is room; otherwise nothing happens.  After
any run of additions the list is the map of the latest entries, unless it has
been offered more keys than it has room for.
-/

namespace Nx88.Lib.KeyedList

variable {E K : Type} [DecidableEq K] (key : E → K) (cap : Nat)

def add (t : List E) (e : E) : List E :=
  match t.findIdx? (fun d => key d == key e) with
  | some i => t.set i e
  | none => if t.length < cap then t ++ [e] else t

def lookup (t : List E) (k : K) : Option E := t.find? (fun d => key d == k)

def run (es : List E) : List E := es.foldl (add key cap) []

/-- The latest entry with a key. -/
def latest (es : List E) (k : K) : Option E := lookup key es.reverse k

def keys (es : List E) : Finset K := (es.map key).toFinset

variable {key cap} {t es : List E} {e : E}

theorem lookup_isSome_iff {k : K} : (lookup key t k).isSome ↔ k ∈ t.map key := by
  rw [lookup, List.find?_isSome, List.mem_map]
  exact exists_congr fun d => and_congr_right fun _ => beq_iff_eq

theorem lookup_eq_none_iff {k : K} : lookup key t k = none ↔ k ∉ t.map key := by
  rw [← lookup_isSome_iff, Option.not_isSome_iff_eq_none]

/-! ## One addition -/

theorem lookup_set {i : Nat} (hi : t.findIdx? (fun d => key d == key e) = some i) (k : K) :
    lookup key (t.set i e) k = if k = key e then some e else lookup key t k := by
  unfold lookup
  induction t generalizing i with
  | nil => cases hi
  | cons d t ih =>
      rw [List.findIdx?_cons] at hi
      by_cases hd : key d = key e
      · rw [if_pos (beq_iff_eq.2 hd)] at hi
        obtain rfl := Option.some.inj hi
        rw [List.set_cons_zero, List.find?_cons, List.find?_cons, hd]
        by_cases hk : k = key e
        · rw [if_pos hk, hk, beq_self_eq_true]
        · rw [if_neg hk, beq_false_of_ne (Ne.symm hk)]
      · rw [if_neg (by rwa [beq_iff_eq])] at hi
        obtain ⟨j, hj, rfl⟩ := Option.map_eq_some_iff.1 hi
        rw [List.set_cons_succ, List.find?_cons, List.find?_cons, ih hj]
        by_cases hk : k = key e
        · rw [if_pos hk, if_pos hk, hk, beq_false_of_ne hd]
        · rw [if_neg hk, if_neg hk]

theorem lookup_append_singleton (he : key e ∉ t.map key) (k : K) :
    lookup key (t ++ [e]) k = if k = key e then some e else lookup key t k := by
  unfold lookup
  rw [List.find?_append]
  by_cases hk : k = key e
  · have hnone : lookup key t k = none := lookup_eq_none_iff.2 (hk ▸ he)
    rw [lookup] at hnone
    rw [if_pos hk, hnone, hk, List.find?_singleton, beq_self_eq_true]
    rfl
  · rw [if_neg hk, List.find?_singleton, beq_false_of_ne (Ne.symm hk)]
    exact Option.or_none

theorem key_not_mem_of_findIdx? (hi : t.findIdx? (fun d => key d == key e) = none) :
    key e ∉ t.map key := by
  intro hmem
  obtain ⟨d, hd, hkey⟩ := List.mem_map.1 hmem
  have hnot := List.findIdx?_eq_none_iff.1 hi d hd
  rw [hkey, beq_self_eq_true] at hnot
  cases hnot

theorem lookup_add (hroom : key e ∈ t.map key ∨ t.length < cap) (k : K) :
    lookup key (add key cap t e) k = if k = key e then some e else lookup key t k := by
  unfold add
  cases hi : t.findIdx? (fun d => key d == key e) with
  | some i => exact lookup_set hi k
  | none =>
      have hnew := key_not_mem_of_findIdx? hi
      dsimp only
      rw [if_pos (hroom.resolve_left hnew)]
      exact lookup_append_singleton hnew k

theorem map_key_set {i : Nat} (hi : t.findIdx? (fun d => key d == key e) = some i) :
    (t.set i e).map key = t.map key := by
  obtain ⟨hlt, hkey, -⟩ := List.findIdx?_eq_some_iff_getElem.1 hi
  have hlt' : i < (t.map key).length := by rwa [List.length_map]
  have hsame : key e = (t.map key)[i] := by
    rw [List.getElem_map]
    exact (beq_iff_eq.1 hkey).symm
  rw [List.map_set, hsame, List.set_getElem_self]

variable (key cap) in
theorem map_key_add (t : List E) (e : E) :
    (add key cap t e).map key = t.map key ∨
      key e ∉ t.map key ∧ t.length < cap ∧ (add key cap t e).map key = t.map key ++ [key e] := by
  unfold add
  cases hi : t.findIdx? (fun d => key d == key e) with
  | some i => exact .inl (map_key_set hi)
  | none =>
      dsimp only
      by_cases hlt : t.length < cap
      · rw [if_pos hlt, List.map_append]
        exact .inr ⟨key_not_mem_of_findIdx? hi, hlt, rfl⟩
      · rw [if_neg hlt]
        exact .inl rfl

/-! ## Runs -/

theorem run_append (es : List E) (e : E) :
    run key cap (es ++ [e]) = add key cap (run key cap es) e := by
  rw [run, List.foldl_append]
  rfl

theorem keys_append (es : List E) (e : E) : keys key (es ++ [e]) = insert (key e) (keys key es) := by
  ext k
  simp [keys]

variable (key cap) in
/-- What every run keeps: no key stands twice, there is room for what stands, and
only keys that were offered stand. -/
structure Kept (es t : List E) : Prop where
  nodup : (t.map key).Nodup
  length : t.length ≤ cap
  offered : ∀ k ∈ t.map key, k ∈ keys key es

theorem kept_run (es : List E) : Kept key cap es (run key cap es) := by
  induction es using List.reverseRecOn with
  | nil => exact ⟨List.nodup_nil, Nat.zero_le _, fun _ hk => absurd hk List.not_mem_nil⟩
  | append_singleton es e ih =>
      have hlength : ∀ l : List E, l.length = (l.map key).length := fun _ => (List.length_map key).symm
      rw [run_append]
      rcases map_key_add key cap (run key cap es) e with hsame | ⟨hnew, hroom, hadded⟩
      · constructor
        · rw [hsame]
          exact ih.nodup
        · rw [hlength, hsame, ← hlength]
          exact ih.length
        · intro k hk
          rw [hsame] at hk
          rw [keys_append]
          exact Finset.mem_insert_of_mem (ih.offered k hk)
      · constructor
        · rw [hadded]
          exact List.nodup_append.2 ⟨ih.nodup, List.nodup_singleton _, by
            intro a ha b hb heq
            rw [List.mem_singleton.1 hb] at heq
            exact hnew (heq ▸ ha)⟩
        · rw [hlength, hadded, List.length_append, ← hlength]
          exact hroom
        · intro k hk
          rw [hadded] at hk
          rw [keys_append]
          rcases List.mem_append.1 hk with hk | hk
          · exact Finset.mem_insert_of_mem (ih.offered k hk)
          · rw [List.mem_singleton.1 hk]
            exact Finset.mem_insert_self _ _

theorem Kept.card_le {k : K} (h : Kept key cap es t) (hk : k ∉ t.map key) :
    t.length + 1 ≤ (insert k (keys key es)).card := by
  have hsub : insert k (t.map key).toFinset ⊆ insert k (keys key es) := by
    apply Finset.insert_subset_insert
    intro a ha
    exact h.offered a (List.mem_toFinset.1 ha)
  calc t.length + 1
      = (t.map key).toFinset.card + 1 := by
        rw [List.toFinset_card_of_nodup h.nodup, List.length_map]
    _ = (insert k (t.map key).toFinset).card := by
        rw [Finset.card_insert_of_notMem (by rwa [List.mem_toFinset])]
    _ ≤ (insert k (keys key es)).card := Finset.card_le_card hsub

theorem lookup_run (h : (keys key es).card ≤ cap) (k : K) :
    lookup key (run key cap es) k = latest key es k := by
  induction es using List.reverseRecOn with
  | nil => rfl
  | append_singleton es e ih =>
      rw [keys_append] at h
      have hbefore := ih (le_trans (Finset.card_le_card (Finset.subset_insert _ _)) h)
      have hroom : key e ∈ (run key cap es).map key ∨ (run key cap es).length < cap := by
        by_cases he : key e ∈ (run key cap es).map key
        · exact .inl he
        · exact .inr (le_trans ((kept_run es).card_le he) h)
      have hlatest : latest key (es ++ [e]) k =
          if k = key e then some e else latest key es k := by
        rw [latest, List.reverse_append, List.reverse_singleton, List.singleton_append, lookup,
          List.find?_cons]
        by_cases hk : k = key e
        · rw [if_pos hk, hk, beq_self_eq_true]
        · rw [if_neg hk, beq_false_of_ne (Ne.symm hk)]
          rfl
      rw [run_append, lookup_add hroom, hbefore, hlatest]

theorem card_keys_le (h : ∀ e ∈ es, key e ∈ (run key cap es).map key) :
    (keys key es).card ≤ cap := by
  have hsub : keys key es ⊆ ((run key cap es).map key).toFinset := by
    intro k hk
    obtain ⟨e, he, rfl⟩ := List.mem_map.1 (List.mem_toFinset.1 hk)
    exact List.mem_toFinset.2 (h e he)
  calc (keys key es).card
      ≤ ((run key cap es).map key).toFinset.card := Finset.card_le_card hsub
    _ ≤ ((run key cap es).map key).length := List.toFinset_card_le _
    _ = (run key cap es).length := List.length_map key
    _ ≤ cap := (kept_run es).length

theorem latest_isSome (he : e ∈ es) : (latest key es (key e)).isSome := by
  rw [latest, lookup_isSome_iff, List.map_reverse]
  exact List.mem_reverse.2 (List.mem_map_of_mem he)

end Nx88.Lib.KeyedList
