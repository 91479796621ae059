import Nx88.Mmu
import Nx88.Lib.KeyedList
/-!
# The device map

`devmap_add` and `devmap_lookup` over whole runs of the kernel's mapper: what the
table remembers, and when it drops a page.
-/

namespace Nx88

open Lib Lib.Words

/-- One call `devmap_add(va, pa)`. -/
structure DevCall where
  va : U32
  pa : U32

def DevCall.entry (c : DevCall) : DevMap := ⟨pageAddr c.va, pageAddr c.pa, pageAddr_pageAddr c.pa⟩

def devmapAfter (calls : List DevCall) : List DevMap :=
  calls.foldl (fun devmap c => devmapAdd devmap c.va c.pa) []

def devPages (calls : List DevCall) : Finset U32 := (calls.map fun c => pageAddr c.va).toFinset

/-- The page of the latest `pa` added for the page of `va`, 0 if there is none. -/
def latestPage (calls : List DevCall) (va : U32) : U32 :=
  match calls.reverse.find? (fun c => pageAddr c.va == pageAddr va) with
  | some c => pageAddr c.pa
  | none => 0

/-- Every lookup answers with the latest mapping, and no page has two entries. -/
structure Remembers (calls : List DevCall) : Prop where
  lookup : ∀ va, devmapLookup (devmapAfter calls) va = latestPage calls va
  single : ((devmapAfter calls).map DevMap.va).Nodup

/-! ## The table as a keyed list -/

theorem modify_eq_set {t : List DevMap} {i : Nat} {f : DevMap → DevMap} {e : DevMap}
    (h : ∀ d, t[i]? = some d → f d = e) : t.modify i f = t.set i e := by
  apply List.ext_getElem?
  intro j
  rw [List.getElem?_modify, List.getElem?_set]
  by_cases hij : i = j
  · subst hij
    rw [if_pos rfl]
    cases hd : t[i]? with
    | none => rw [if_neg (by simpa using hd)]; rfl
    | some d =>
        rw [if_pos (List.getElem?_eq_some_iff.1 hd).1]
        simp only [if_true, Option.map_eq_map, Option.map_some, h d hd]
  · rw [if_neg hij]
    simp [hij]

theorem devmapAdd_eq (devmap : List DevMap) (c : DevCall) :
    devmapAdd devmap c.va c.pa = KeyedList.add DevMap.va 512 devmap c.entry := by
  unfold devmapAdd KeyedList.add
  cases hi : devmap.findIdx? (fun d => d.va == pageAddr c.va) with
  | none =>
      simp only [hi, DevCall.entry]
  | some i =>
      have hset : devmap.modify i (fun d => ⟨d.va, pageAddr c.pa, pageAddr_pageAddr c.pa⟩) =
          devmap.set i c.entry := by
        apply modify_eq_set
        intro d hd
        obtain ⟨hlt, hva, -⟩ := List.findIdx?_eq_some_iff_getElem.1 hi
        obtain ⟨-, rfl⟩ := List.getElem?_eq_some_iff.1 hd
        rw [DevCall.entry, ← beq_iff_eq.1 hva]
      simp only [hi, hset, DevCall.entry]

theorem devmapAfter_eq (calls : List DevCall) :
    devmapAfter calls = KeyedList.run DevMap.va 512 (calls.map DevCall.entry) := by
  unfold devmapAfter KeyedList.run
  rw [List.foldl_map]
  simp only [devmapAdd_eq]

theorem devmapLookup_eq (devmap : List DevMap) (va : U32) :
    devmapLookup devmap va =
      (KeyedList.lookup DevMap.va devmap (pageAddr va)).elim 0 DevMap.pa := by
  unfold devmapLookup KeyedList.lookup
  cases devmap.find? (fun d => d.va == pageAddr va) <;> rfl

theorem latestPage_eq (calls : List DevCall) (va : U32) :
    latestPage calls va =
      (KeyedList.latest DevMap.va (calls.map DevCall.entry) (pageAddr va)).elim 0 DevMap.pa := by
  unfold latestPage KeyedList.latest KeyedList.lookup
  rw [← List.map_reverse, List.find?_map]
  change _ = ((calls.reverse.find? (fun c => pageAddr c.va == pageAddr va)).map _).elim 0 _
  cases calls.reverse.find? (fun c => pageAddr c.va == pageAddr va) <;> rfl

theorem devPages_eq (calls : List DevCall) :
    devPages calls = KeyedList.keys DevMap.va (calls.map DevCall.entry) := by
  rw [devPages, KeyedList.keys, List.map_map]
  rfl

/-! ## What it remembers -/

theorem remembers_of_card_le {calls : List DevCall} (h : (devPages calls).card ≤ 512) :
    Remembers calls := by
  rw [devPages_eq] at h
  constructor
  · intro va
    rw [devmapLookup_eq, latestPage_eq, devmapAfter_eq, KeyedList.lookup_run h]
  · rw [devmapAfter_eq]
    exact (KeyedList.kept_run _).nodup

theorem pageAddr_ne_zero_of_device {pa : U32} (h : 0xE0000000 ≤ pa) : pageAddr pa ≠ 0 := by
  intro hzero
  have hnat := congrArg BitVec.toNat hzero
  rw [toNat_pageAddr] at hnat
  rw [BitVec.le_def] at h
  simp only [BitVec.reduceToNat] at h hnat
  omega

theorem card_le_of_remembers {calls : List DevCall} (hdev : ∀ c ∈ calls, 0xE0000000 ≤ c.pa)
    (h : Remembers calls) : (devPages calls).card ≤ 512 := by
  rw [devPages_eq]
  apply KeyedList.card_keys_le
  intro e he
  obtain ⟨c, hc, rfl⟩ := List.mem_map.1 he
  have hlookup := h.lookup c.va
  rw [devmapLookup_eq, latestPage_eq, devmapAfter_eq] at hlookup
  have hlatest : (KeyedList.latest DevMap.va (calls.map DevCall.entry) (pageAddr c.va)).isSome :=
    KeyedList.latest_isSome he
  obtain ⟨d, hd⟩ := Option.isSome_iff_exists.1 hlatest
  rw [← KeyedList.lookup_isSome_iff]
  cases hfound : KeyedList.lookup DevMap.va
      (KeyedList.run DevMap.va 512 (calls.map DevCall.entry)) c.entry.va with
  | some _ => rfl
  | none =>
      have hpage : d.pa ≠ 0 := by
        have hmem : d ∈ (calls.map DevCall.entry).reverse := List.mem_of_find?_eq_some hd
        obtain ⟨c', hc', rfl⟩ := List.mem_map.1 (List.mem_reverse.1 hmem)
        exact pageAddr_ne_zero_of_device (hdev c' hc')
      have hfound' : KeyedList.lookup DevMap.va
          (KeyedList.run DevMap.va 512 (calls.map DevCall.entry)) (pageAddr c.va) = none := hfound
      rw [hfound', hd] at hlookup
      exact absurd hlookup.symm hpage

/-- The device map remembers every mapping exactly when no more than 512 pages
are mapped. -/
theorem devmap_remembers_iff (calls : List DevCall) (hdev : ∀ c ∈ calls, 0xE0000000 ≤ c.pa) :
    Remembers calls ↔ (devPages calls).card ≤ 512 :=
  ⟨card_le_of_remembers hdev, remembers_of_card_le⟩

/-- Two pages, one of them mapped twice. -/
theorem devmap_remembers_two :
    Remembers [⟨0xC0200000, 0xE0780000⟩, ⟨0xC0201000, 0xE0781000⟩, ⟨0xC0200000, 0xE0782000⟩] :=
  (devmap_remembers_iff _ (by decide)).2 (by decide)

def manyPages (n : Nat) : List DevCall :=
  (List.range n).map fun i => ⟨BitVec.ofNat 32 (0xC0000000 + i * 4096), 0xE0780000⟩

theorem card_manyPages {n : Nat} (h : n ≤ 2 ^ 18) : (devPages (manyPages n)).card = n := by
  rw [devPages, manyPages, List.map_map, List.toFinset_card_of_nodup, List.length_map,
    List.length_range]
  apply List.Nodup.map_on _ List.nodup_range
  intro i hi j hj heq
  have hi := List.mem_range.1 hi
  have hj := List.mem_range.1 hj
  have hnat := congrArg BitVec.toNat heq
  simp only [Function.comp_apply, toNat_pageAddr, BitVec.toNat_ofNat] at hnat
  omega

/-- The 513th page is dropped. -/
theorem manyPages_forgotten :
    (∀ c ∈ manyPages 513, 0xE0000000 ≤ c.pa) ∧ ¬Remembers (manyPages 513) := by
  have hdev : ∀ c ∈ manyPages 513, 0xE0000000 ≤ c.pa := by
    intro c hc
    obtain ⟨i, -, rfl⟩ := List.mem_map.1 hc
    exact (by decide : (0xE0000000 : U32) ≤ 0xE0780000)
  refine ⟨hdev, fun h => ?_⟩
  have hcard := card_le_of_remembers hdev h
  rw [card_manyPages (by decide)] at hcard
  omega

end Nx88
