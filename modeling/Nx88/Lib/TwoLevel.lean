import Mathlib.Data.Set.Insert
import Mathlib.Logic.Function.Basic
/-!
# Two-level tables

Frames of cells in one store.  A cell of a root links to a leaf frame, a cell of
the leaf holds a value, and an insertion takes a fresh frame where the root does
not link to a leaf yet.  While no two cells of roots link to one leaf, and no leaf
is a root, the store is a map for every root.
-/

namespace Nx88.Lib.TwoLevel

variable {F I C V : Type}

/-- How a cell reads as a link, and how as a value. -/
structure Reading (F C V : Type) where
  blank : C
  link : C → Option F
  value : C → Option V
  link_blank : link blank = none
  value_blank : value blank = none

variable (R : Reading F C V) {s : F → I → C}

def lookup (s : F → I → C) (root : F) (i j : I) : Option V :=
  (R.link (s root i)).bind fun leaf => R.value (s leaf j)

/-- Leaves are used frames, of one root's cell each, and no roots. -/
structure Separate (roots used : Set F) (s : F → I → C) : Prop where
  apart : ∀ r ∈ roots, r ∉ used
  leaf : ∀ r ∈ roots, ∀ i p, R.link (s r i) = some p → p ∈ used
  inj : ∀ r ∈ roots, ∀ r' ∈ roots, ∀ i i' p,
    R.link (s r i) = some p → R.link (s r' i') = some p → r = r' ∧ i = i'

variable [DecidableEq F] [DecidableEq I]

def put (s : F → I → C) (f : F) (i : I) (c : C) : F → I → C :=
  Function.update s f (Function.update (s f) i c)

def clear (s : F → I → C) (f : F) : F → I → C := Function.update s f fun _ => R.blank

/-- Store the cell `c` under `i` and `j`.  The frame `fresh`, which `linked` links
to, becomes the leaf where there is none. -/
def insert (s : F → I → C) (root : F) (i j : I) (fresh : F) (linked c : C) : F → I → C :=
  match R.link (s root i) with
  | some leaf => put s leaf j c
  | none => put (put (clear R s fresh) root i linked) fresh j c

/-! ## One cell -/

theorem put_apply (f g : F) (i j : I) (c : C) :
    put s f i c g j = if g = f ∧ j = i then c else s g j := by
  by_cases hframe : g = f
  · subst hframe
    rw [put, Function.update_self, Function.update_apply]
    by_cases hcell : j = i
    · rw [if_pos hcell, if_pos ⟨rfl, hcell⟩]
    · rw [if_neg hcell, if_neg fun h => hcell h.2]
  · rw [put, Function.update_of_ne hframe, if_neg fun h => hframe h.1]

theorem put_of_ne {f g : F} (h : g ≠ f) (i j : I) (c : C) : put s f i c g j = s g j := by
  rw [put_apply, if_neg fun hc => h hc.1]

omit [DecidableEq I] in
theorem clear_apply (f g : F) (j : I) :
    clear R s f g j = if g = f then R.blank else s g j := by
  rw [clear, Function.update_apply]
  split
  · rfl
  · rfl

section Insert

variable {roots used : Set F} {root fresh : F} {linked c : C} {R}

theorem insert_linked {leaf : F} {i j : I} (h : R.link (s root i) = some leaf) :
    insert R s root i j fresh linked c = put s leaf j c := by
  rw [insert, h]

theorem insert_fresh {i j : I} (h : R.link (s root i) = none) :
    insert R s root i j fresh linked c = put (put (clear R s fresh) root i linked) fresh j c := by
  rw [insert, h]

theorem insert_fresh_root {i j : I} (h : R.link (s root i) = none) (hfresh : fresh ∉ roots)
    {r : F} (hr : r ∈ roots) (i' : I) :
    insert R s root i j fresh linked c r i' = if r = root ∧ i' = i then linked else s r i' := by
  have hne : r ≠ fresh := fun heq => hfresh (heq ▸ hr)
  rw [insert_fresh h, put_of_ne hne, put_apply, clear_apply, if_neg hne]

theorem insert_linked_root {leaf : F} {i j : I} (hs : Separate R roots used s)
    (hroot : root ∈ roots) (h : R.link (s root i) = some leaf) {r : F} (hr : r ∈ roots) (i' : I) :
    insert R s root i j fresh linked c r i' = s r i' := by
  have hne : r ≠ leaf := fun heq => hs.apart r hr (heq ▸ hs.leaf root hroot i leaf h)
  rw [insert_linked h, put_of_ne hne]

/-! ## The leaves stay separate -/

theorem Separate.of_linked {leaf : F} {i j : I} (hs : Separate R roots used s) (hroot : root ∈ roots)
    (h : R.link (s root i) = some leaf) :
    Separate R roots used (insert R s root i j fresh linked c) := by
  have hsame : ∀ r ∈ roots, ∀ i', insert R s root i j fresh linked c r i' = s r i' :=
    fun r hr i' => insert_linked_root hs hroot h hr i'
  refine ⟨hs.apart, fun r hr i' p hp => ?_, fun r hr r' hr' i' i'' p hp hp' => ?_⟩
  · rw [hsame r hr] at hp
    exact hs.leaf r hr i' p hp
  · rw [hsame r hr] at hp
    rw [hsame r' hr'] at hp'
    exact hs.inj r hr r' hr' i' i'' p hp hp'

theorem Separate.of_fresh {i j : I} (hs : Separate R roots used s)
    (h : R.link (s root i) = none) (hlinked : R.link linked = some fresh) (hfresh : fresh ∉ roots)
    (hunused : fresh ∉ used) :
    Separate R roots (Insert.insert fresh used) (insert R s root i j fresh linked c) := by
  have hcell : ∀ r ∈ roots, ∀ i' p,
      R.link (insert R s root i j fresh linked c r i') = some p →
        (r = root ∧ i' = i) ∧ p = fresh ∨ p ≠ fresh ∧ R.link (s r i') = some p := by
    intro r hr i' p hp
    rw [insert_fresh_root h hfresh hr] at hp
    by_cases hhere : r = root ∧ i' = i
    · rw [if_pos hhere, hlinked] at hp
      exact .inl ⟨hhere, (Option.some.inj hp).symm⟩
    · rw [if_neg hhere] at hp
      exact .inr ⟨fun heq => hunused (heq ▸ hs.leaf r hr i' p hp), hp⟩
  refine ⟨fun r hr hused => ?_, fun r hr i' p hp => ?_, fun r hr r' hr' i' i'' p hp hp' => ?_⟩
  · rcases hused with heq | hused
    · exact hfresh (heq ▸ hr)
    · exact hs.apart r hr hused
  · rcases hcell r hr i' p hp with ⟨-, rfl⟩ | ⟨-, hold⟩
    · exact Set.mem_insert p used
    · exact Set.mem_insert_of_mem fresh (hs.leaf r hr i' p hold)
  · rcases hcell r hr i' p hp with ⟨hhere, hnew⟩ | ⟨hne, hold⟩
    · rcases hcell r' hr' i'' p hp' with ⟨hhere', -⟩ | ⟨hne, -⟩
      · exact ⟨hhere.1.trans hhere'.1.symm, hhere.2.trans hhere'.2.symm⟩
      · exact absurd hnew hne
    · rcases hcell r' hr' i'' p hp' with ⟨-, hnew⟩ | ⟨-, hold'⟩
      · exact absurd hnew hne
      · exact hs.inj r hr r' hr' i' i'' p hold hold'

/-! ## The map -/

/-- An insertion is the value found where it was inserted, and nowhere else. -/
theorem lookup_insert {i j : I} (hs : Separate R roots used s) (hroot : root ∈ roots)
    (hlinked : R.link linked = some fresh)
    (hfree : R.link (s root i) = none → fresh ∉ roots ∧ fresh ∉ used)
    {r : F} (hr : r ∈ roots) (i' j' : I) :
    lookup R (insert R s root i j fresh linked c) r i' j' =
      if r = root ∧ i' = i ∧ j' = j then R.value c else lookup R s r i' j' := by
  cases h : R.link (s root i) with
  | some leaf =>
    rw [lookup, lookup, insert_linked_root hs hroot h hr, insert_linked h]
    by_cases hhere : r = root ∧ i' = i
    · obtain ⟨rfl, rfl⟩ := hhere
      rw [h, Option.bind_some, Option.bind_some, put_apply]
      by_cases hcell : j' = j
      · rw [if_pos ⟨rfl, hcell⟩, if_pos ⟨rfl, rfl, hcell⟩]
      · rw [if_neg fun hc => hcell hc.2, if_neg fun hc => hcell hc.2.2]
    · rw [if_neg fun hc => hhere ⟨hc.1, hc.2.1⟩]
      refine Option.bind_congr fun p hp => ?_
      have hne : p ≠ leaf := fun heq => hhere (hs.inj r hr root hroot i' i p hp (heq ▸ h))
      rw [put_of_ne hne]
  | none =>
    obtain ⟨hfresh, hunused⟩ := hfree h
    rw [lookup, insert_fresh_root h hfresh hr, insert_fresh h]
    by_cases hhere : r = root ∧ i' = i
    · obtain ⟨rfl, rfl⟩ := hhere
      rw [if_pos ⟨rfl, rfl⟩, hlinked, Option.bind_some, put_apply]
      by_cases hcell : j' = j
      · rw [if_pos ⟨rfl, hcell⟩, if_pos ⟨rfl, rfl, hcell⟩]
      · have hne : fresh ≠ r := fun heq => hfresh (heq ▸ hroot)
        rw [if_neg fun hc => hcell hc.2, if_neg fun hc => hcell hc.2.2, put_of_ne hne, clear_apply,
          if_pos rfl, R.value_blank, lookup, h]
        rfl
    · rw [if_neg hhere, if_neg fun hc => hhere ⟨hc.1, hc.2.1⟩, lookup]
      refine Option.bind_congr fun p hp => ?_
      have hused : p ∈ used := hs.leaf r hr i' p hp
      have hne : p ≠ fresh := fun heq => hunused (heq ▸ hused)
      have hroot' : p ≠ root := fun heq => hs.apart root hroot (heq ▸ hused)
      rw [put_of_ne hne, put_of_ne hroot', clear_apply, if_neg hne]

end Insert

end Nx88.Lib.TwoLevel
