import Nx88.Ffs.Checked
import Nx88.Ffs.Correct
/-!
# When the FFS reader is safe

The scan of a directory follows the record lengths it finds there, and a file is
filled block by block.  The first stays inside the directory if the records it
comes to do, and the second fills the file if its blocks can be counted.
-/

namespace Nx88.Ffs.Checked

open Lib.Loops

/-! ## Directories -/

theorem finite_u32 : Finite U32 :=
  Finite.of_injective BitVec.toFin fun _ _ h => BitVec.eq_of_toFin_eq h

namespace Loaded

variable {d : Loaded} {comp : List U8} {off : U32}

/-- The number of the record at `off`, the number of bytes to the next one and the
length of its name. -/
def fields (d : Loaded) (off : U32) : Nat × Nat × Nat :=
  (be32 [d.byte off.toNat, d.byte (off.toNat + 1), d.byte (off.toNat + 2),
      d.byte (off.toNat + 3)],
    be16 [d.byte (off + 4).toNat, d.byte (off + 5).toNat],
    be16 [d.byte (off + 6).toNat, d.byte (off + 7).toNat])

/-- The name of the record at `off` is compared with the one looked for. -/
def Compared (d : Loaded) (comp : List U8) (off : U32) : Prop :=
  (d.fields off).2.1 ≠ 0 ∧ (d.fields off).1 ≠ 0 ∧ (d.fields off).2.2 = comp.length

instance : Decidable (d.Compared comp off) := by unfold Compared; infer_instance

/-- The bytes at `i` are the name looked for. -/
def Spells (d : Loaded) (i : Nat) (comp : List U8) : Prop :=
  ∀ j < comp.length, comp[j]? = some (d.byte (i + j))

instance (i : Nat) : Decidable (d.Spells i comp) := by unfold Spells; infer_instance

def seek (d : Loaded) (comp : List U8) (off : U32) : Turn U32 Nat :=
  if (off + 8).toNat ≤ d.len ∧ (d.fields off).2.1 ≠ 0 then
    if d.Compared comp off ∧ d.Spells (off.toNat + 8) comp then .done (d.fields off).1
    else .next (off + BitVec.ofNat 32 (d.fields off).2.1)
  else .done 0

/-- The record at `off` lies inside the directory, with its name if that is
looked at. -/
structure Inside (d : Loaded) (comp : List U8) (off : U32) : Prop where
  header : off.toNat + 8 ≤ d.len
  name : d.Compared comp off → off.toNat + 8 + comp.length ≤ d.len

/-- Every record the search for a name comes to lies inside the directory, and it
comes to none twice. -/
structure Searchable (d : Loaded) (comp : List U8) : Prop where
  inside : ∀ k off, reach (d.seek comp) 0 k = some off → (off + 8).toNat ≤ d.len →
    d.Inside comp off
  once : ∀ i j off, reach (d.seek comp) 0 i = some off → reach (d.seek comp) 0 j = some off →
    i = j

theorem peek_of_lt {i : Nat} (h : i < d.len) : d.peek i = .ok (d.byte i) := if_pos h

theorem peek_of_le {i : Nat} (h : d.len ≤ i) : d.peek i = .error (.outside i) :=
  if_neg (Nat.not_lt.2 h)

theorem record_of_inside (h : off.toNat + 8 ≤ d.len) (hlen : d.len < 2 ^ 32) :
    d.record off = .ok (d.fields off) := by
  have hadd : ∀ k : U32, k.toNat < 8 → (off + k).toNat < d.len := by
    intro k hk
    rw [BitVec.toNat_add]
    omega
  rw [record, fields]
  rw [peek_of_lt (by omega), peek_of_lt (by omega), peek_of_lt (by omega), peek_of_lt (by omega),
    peek_of_lt (hadd 4 (by decide)), peek_of_lt (hadd 5 (by decide)),
    peek_of_lt (hadd 6 (by decide)), peek_of_lt (hadd 7 (by decide))]
  rfl

theorem error_of_bind {α : Type} {i : Nat} {f : U8 → Except Fault α}
    (h : d.len ≤ i ∨ ∃ e, f (d.byte i) = .error e) : ∃ e, (d.peek i >>= f) = .error e := by
  by_cases hi : i < d.len
  · obtain ⟨e, he⟩ := h.resolve_left (Nat.not_le.2 hi)
    exact ⟨e, by rw [peek_of_lt hi]; exact he⟩
  · exact ⟨_, by rw [peek_of_le (Nat.not_lt.1 hi)]; rfl⟩

theorem record_of_outside (h : d.len < off.toNat + 8) (hlen : d.len < 2 ^ 32) : ∃ e, d.record off = .error e := by
  have hadd : ∀ k : U32, (off + k).toNat = (off.toNat + k.toNat) % 2 ^ 32 :=
    fun k => BitVec.toNat_add off k
  have h4 : (off + 4).toNat = (off.toNat + 4) % 2 ^ 32 := hadd 4
  have h5 : (off + 5).toNat = (off.toNat + 5) % 2 ^ 32 := hadd 5
  have h6 : (off + 6).toNat = (off.toNat + 6) % 2 ^ 32 := hadd 6
  have h7 : (off + 7).toNat = (off.toNat + 7) % 2 ^ 32 := hadd 7
  have h8 : (off + 8).toNat = (off.toNat + 8) % 2 ^ 32 := hadd 8
  have hoff := off.isLt
  -- the last address of all is among them, and no length reaches it
  have hmissing : d.len ≤ off.toNat ∨ d.len ≤ off.toNat + 1 ∨ d.len ≤ off.toNat + 2 ∨
      d.len ≤ off.toNat + 3 ∨ d.len ≤ (off + 4).toNat ∨ d.len ≤ (off + 5).toNat ∨
      d.len ≤ (off + 6).toNat ∨ d.len ≤ (off + 7).toNat := by omega
  exact error_of_bind (hmissing.imp_right fun h => error_of_bind (h.imp_right fun h =>
    error_of_bind (h.imp_right fun h => error_of_bind (h.imp_right fun h =>
    error_of_bind (h.imp_right fun h => error_of_bind (h.imp_right fun h =>
    error_of_bind (h.imp_right fun h => error_of_bind (.inl h))))))))

theorem memcmp_of_inside {i : Nat} (h : i + comp.length ≤ d.len) :
    d.memcmp i comp = .ok (decide (d.Spells i comp)) := by
  induction comp generalizing i with
  | nil =>
    have hnil : d.Spells i [] := fun j hj => absurd hj (Nat.not_lt_zero j)
    rw [memcmp, decide_eq_true hnil]
    rfl
  | cons c comp ih =>
    rw [List.length_cons] at h
    rw [memcmp, peek_of_lt (by omega), ih (by omega)]
    change Except.ok (d.byte i = c && decide (d.Spells (i + 1) comp) : Bool) = _
    refine congrArg Except.ok ?_
    rw [Bool.eq_iff_iff, Bool.and_eq_true, decide_eq_true_iff, decide_eq_true_iff,
      decide_eq_true_iff]
    constructor
    · rintro ⟨hb, hrest⟩ j hj
      cases j with
      | zero => exact congrArg some hb.symm
      | succ j =>
        have hj' := hrest j (by rw [List.length_cons] at hj; omega)
        rw [Nat.add_right_comm, Nat.add_assoc] at hj'
        exact hj'
    · intro hall
      refine ⟨(Option.some.inj (hall 0 (Nat.succ_pos _))).symm, fun j hj => ?_⟩
      have hj' := hall (j + 1) (by rw [List.length_cons]; omega)
      rw [Nat.add_right_comm, Nat.add_assoc]
      exact hj'

theorem memcmp_of_outside {i : Nat} (hi : i ≤ d.len) (h : d.len < i + comp.length) :
    ∃ e, d.memcmp i comp = .error e := by
  induction comp generalizing i with
  | nil => exact absurd h (Nat.not_lt.2 hi)
  | cons c comp ih =>
    rw [List.length_cons] at h
    rw [memcmp]
    refine error_of_bind ?_
    rcases Nat.eq_or_lt_of_le hi with heq | hlt
    · exact .inl heq.ge
    · right
      obtain ⟨e, he⟩ := ih hlt (by omega)
      exact ⟨e, by rw [he]; rfl⟩

theorem look_of_inside (hlen : d.len < 2 ^ 32)
    (h : (off + 8).toNat ≤ d.len → d.Inside comp off) :
    d.look comp off = (d.seek comp off).map .ok := by
  rw [look, seek]
  by_cases hin : (off + 8).toNat ≤ d.len
  · obtain ⟨hheader, hname⟩ := h hin
    rw [if_pos hin, record_of_inside hheader hlen]
    dsimp only
    by_cases hreclen : (d.fields off).2.1 = 0
    · rw [if_pos hreclen, if_neg fun h => h.2 hreclen]
      rfl
    · have hgo : (off + 8).toNat ≤ d.len ∧ (d.fields off).2.1 ≠ 0 := ⟨hin, hreclen⟩
      rw [if_neg hreclen, if_pos hgo]
      by_cases hcmp : (d.fields off).1 ≠ 0 ∧ (d.fields off).2.2 = comp.length
      · have hcompared : d.Compared comp off := ⟨hreclen, hcmp⟩
        rw [if_pos hcmp, memcmp_of_inside (hname hcompared)]
        by_cases hspells : d.Spells (off.toNat + 8) comp
        · have hfound : d.Compared comp off ∧ d.Spells (off.toNat + 8) comp := ⟨hcompared, hspells⟩
          rw [if_pos hfound, decide_eq_true hspells]
          rfl
        · rw [if_neg fun h => hspells h.2, decide_eq_false hspells]
          rfl
      · rw [if_neg hcmp, if_neg fun h => hcmp h.1.2]
        rfl
  · rw [if_neg hin, if_neg fun h => hin h.1]
    rfl

theorem look_of_outside (hlen : d.len < 2 ^ 32) (hin : (off + 8).toNat ≤ d.len)
    (h : ¬d.Inside comp off) : ∃ e, d.look comp off = .done (.error e) := by
  rw [look, if_pos hin]
  by_cases hheader : off.toNat + 8 ≤ d.len
  · have hname : d.Compared comp off ∧ d.len < off.toNat + 8 + comp.length := by
      by_contra hc
      exact h ⟨hheader, fun hcmp => Nat.not_lt.1 fun hlt => hc ⟨hcmp, hlt⟩⟩
    obtain ⟨⟨hreclen, hcmp⟩, hlt⟩ := hname
    obtain ⟨e, he⟩ := memcmp_of_outside hheader hlt
    rw [record_of_inside hheader hlen]
    dsimp only
    rw [if_neg hreclen, if_pos hcmp, he]
    exact ⟨e, rfl⟩
  · obtain ⟨e, he⟩ := record_of_outside (Nat.not_le.1 hheader) hlen
    rw [he]
    exact ⟨e, rfl⟩

theorem iterate_look (hlen : d.len < 2 ^ 32) (h : d.Searchable comp) (n : Nat) :
    iterate (d.look comp) n 0 = (iterate (d.seek comp) n 0).map .ok :=
  iterate_congr Except.ok (fun k off hk => look_of_inside hlen (h.inside k off hk)) n

variable (comp) in
theorem search_iff (hlen : d.len < 2 ^ 32) :
    (∃ n r, iterate (d.look comp) n 0 = some (.ok r)) ↔ d.Searchable comp := by
  have hfinite := finite_u32
  constructor
  · rintro ⟨n, r, hn⟩
    -- a record outside would have ended the scan with a fault
    have hinside : ∀ k off, reach (d.look comp) 0 k = some off → (off + 8).toNat ≤ d.len →
        d.Inside comp off := by
      intro k off hk hin
      by_contra hout
      obtain ⟨e, he⟩ := look_of_outside hlen hin hout
      obtain ⟨m, hm⟩ := iterate_eq_some_iff.2 ⟨k, off, hk, he⟩
      exact nomatch iterate_unique hn hm
    have hreach : ∀ k, reach (d.look comp) 0 k = reach (d.seek comp) 0 k := by
      intro k
      induction k with
      | zero => rfl
      | succ k ih =>
        rw [reach_succ, reach_succ, ← ih]
        cases hk : reach (d.look comp) 0 k with
        | none => rfl
        | some off =>
          rw [Option.bind_some, Option.bind_some, look_of_inside hlen (hinside k off hk)]
          cases d.seek comp off <;> rfl
    refine ⟨fun k off hk => hinside k off ((hreach k).trans hk), fun i j off hi hj => ?_⟩
    exact terminates_iff.1 ⟨n, .ok r, hn⟩ i j off ((hreach i).trans hi) ((hreach j).trans hj)
  · intro h
    obtain ⟨n, r, hn⟩ := terminates_iff.2 h.once
    exact ⟨n, r, by rw [iterate_look hlen h, hn, Option.map_some]⟩

end Loaded

/-! ## Files -/

/-- What `ffs_init` lets through. -/
structure Sound (sb : FfsSb) : Prop where
  fsize : sb.fsize ≠ 0
  bsize : sb.bsize ≠ 0
  ipg : sb.ipg ≠ 0
  inopb : sb.inopb ≠ 0
  nindir : sb.nindir ≠ 0
  word : sb.bsize < 2 ^ 32

variable {img : Image} {malloc : Malloc} {sb : FfsSb}

theorem div_of_ne {a b : Nat} (h : b ≠ 0) : div a b = .ok (a / b) := if_neg h

theorem mod_of_ne {a b : Nat} (h : b ≠ 0) : mod a b = .ok (a % b) := if_neg h

theorem dinodeByte_eq (h : Sound sb) (ino : Nat) :
    dinodeByte sb ino = .ok (Ffs.dinodeByte sb ino) := by
  rw [dinodeByte, div_of_ne h.ipg, mod_of_ne h.ipg]
  change (do
    let block ← div (ino % sb.ipg) sb.inopb
    _) = _
  rw [div_of_ne h.inopb, mod_of_ne h.inopb]
  rfl

theorem bmap_eq (h : Sound sb) (db ib : Nat → Nat) (bn : Nat) :
    bmap img sb db ib bn = .ok (Ffs.bmap img sb db ib bn) := by
  rw [bmap, Ffs.bmap]
  by_cases hdirect : bn < 12
  · rw [if_pos hdirect, if_pos hdirect]
    rfl
  · rw [if_neg hdirect, if_neg hdirect]
    by_cases hsingle : bn - 12 < sb.nindir
    · rw [if_pos hsingle, if_pos hsingle]
      rfl
    · rw [if_neg hsingle, if_neg hsingle, div_of_ne h.nindir, mod_of_ne h.nindir]
      by_cases hdouble : bn - 12 - sb.nindir < u32 (sb.nindir * sb.nindir)
      · rw [if_pos hdouble, if_pos hdouble]
        rfl
      · rw [if_neg hdouble, if_neg hdouble]
        rfl

/-- How many bytes the copy loop takes for block `k`. -/
def blockBytes (sb : FfsSb) (size k : Nat) : Nat :=
  if u32 ((k + 1) * sb.bsize) ≤ size then sb.bsize
  else u32 (size + 2 ^ 32 - u32 (k * sb.bsize))

def blockData (img : Image) (sb : FfsSb) (db ib : Nat → Nat) (size k : Nat) : List U8 :=
  let fa := Ffs.bmap img sb db ib k
  if fa ≠ 0 then dread img (blockbyte sb fa) (blockBytes sb size k)
  else List.replicate (blockBytes sb size k) 0

theorem length_blockData (db ib : Nat → Nat) (size k : Nat) :
    (blockData img sb db ib size k).length = blockBytes sb size k := by
  rw [blockData]
  split
  · rw [dread, List.length_append, List.length_replicate, Image.length_read]
    omega
  · exact List.length_replicate

theorem copyBlock_eq (h : Sound sb) (db ib : Nat → Nat) (size : Nat) (cells : Cells) (k : Nat) :
    copyBlock img sb db ib size cells k =
      .ok (cells.fill (u32 (k * sb.bsize)) (blockData img sb db ib size k)) := by
  rw [copyBlock, bmap_eq h]
  rfl

def filled (img : Image) (sb : FfsSb) (db ib : Nat → Nat) (size n : Nat) : Cells :=
  (List.range n).foldl
    (fun cells k => Cells.fill cells (u32 (k * sb.bsize)) (blockData img sb db ib size k))
    (fun _ => none)

theorem copyBlocks_eq (h : Sound sb) (db ib : Nat → Nat) (size n : Nat) :
    (List.range n).foldlM (copyBlock img sb db ib size) (fun _ => none) =
      .ok (filled img sb db ib size n) := by
  induction n with
  | zero => rfl
  | succ n ih =>
    rw [filled, List.range_succ, List.foldlM_append, ih, List.foldl_append]
    exact (bind_pure _).trans (copyBlock_eq h db ib size _ n)

def blocks (sb : FfsSb) (size : Nat) : Nat := u32 (size + sb.bsize - 1) / sb.bsize

theorem be32_lt (p : List U8) : be32 p < 2 ^ 32 := by
  have hbyte : ∀ i, byteAt p i < 2 ^ 8 := fun i => (p.getD i 0).isLt
  have h0 := hbyte 0
  have h1 := hbyte 1
  have h2 := hbyte 2
  have h3 := hbyte 3
  rw [be32]
  omega

theorem ok_bind {α β : Type} (a : α) (f : α → Except Fault β) : (Except.ok a >>= f) = f a := rfl

variable (img malloc) in
theorem readIno_ok (h : Sound sb) (ino : Nat) : ∃ r, readIno img malloc sb ino = .ok r ∧
    ∀ d, r = some d →
      d.len < 2 ^ 32 ∧ ∃ db ib, d.cells = filled img sb db ib d.len (blocks sb d.len) := by
  rw [readIno, dinodeByte_eq h, ok_bind]
  generalize dread img (Ffs.dinodeByte sb ino) FFS_DINODE_SIZE = din
  rw [loadDinode]
  cases malloc (if be32 (din.drop 0x0C) ≠ 0 then be32 (din.drop 0x0C) else 1) with
  | none => exact ⟨none, rfl, fun d hd => nomatch hd⟩
  | some fresh =>
    simp only [div_of_ne h.bsize, ok_bind, copyBlocks_eq h]
    refine ⟨_, rfl, fun d hd => ?_⟩
    obtain rfl := Option.some.inj hd
    exact ⟨be32_lt _, _, _, rfl⟩

theorem filled_succ (db ib : Nat → Nat) (size n : Nat) :
    filled img sb db ib size (n + 1) =
      (filled img sb db ib size n).fill (u32 (n * sb.bsize)) (blockData img sb db ib size n) := by
  rw [filled, List.range_succ, List.foldl_append]
  rfl

theorem Cells.fill_ne_none {cells : Cells} {off i : Nat} {src : List U8} :
    cells.fill off src i ≠ none ↔ (off ≤ i ∧ i < off + src.length) ∨ cells i ≠ none := by
  rw [Cells.fill]
  split
  · next hin =>
    have hlt : i - off < src.length := by omega
    rw [List.getElem?_eq_getElem hlt]
    exact ⟨fun _ => .inl hin, fun _ => nofun⟩
  · next hout => exact ⟨.inr, fun h => h.resolve_left hout⟩

/-- The blocks cover the file if and only if their number does not wrap. -/
theorem filled_iff (h : Sound sb) (db ib : Nat → Nat) {size : Nat} (hsize : size < 2 ^ 32) :
    (∀ i < size, filled img sb db ib size (blocks sb size) i ≠ none) ↔
      size + sb.bsize ≤ 2 ^ 32 := by
  have hword := h.word
  have hpos : 0 < sb.bsize := Nat.pos_of_ne_zero h.bsize
  constructor
  · intro hall
    by_contra hwrap
    have hnone : blocks sb size = 0 := by
      rw [blocks, u32, Nat.div_eq_zero_iff]
      omega
    rw [hnone] at hall
    exact hall 0 (by omega) rfl
  · intro hfit
    have hcount : blocks sb size = (size + sb.bsize - 1) / sb.bsize := by
      rw [blocks, u32, Nat.mod_eq_of_lt (by omega)]
    have hupper : blocks sb size * sb.bsize ≤ size + sb.bsize - 1 := by
      rw [hcount]
      exact Nat.div_mul_le_self _ _
    have hlower : size ≤ blocks sb size * sb.bsize := by
      rw [hcount]
      have hlt := Nat.lt_div_mul_add hpos (a := size + sb.bsize - 1)
      omega
    have hprefix : ∀ n ≤ blocks sb size, ∀ i < size, i < n * sb.bsize →
        filled img sb db ib size n i ≠ none := by
      intro n
      induction n with
      | zero =>
        intro _ i _ hi
        rw [Nat.zero_mul] at hi
        exact absurd hi (Nat.not_lt_zero i)
      | succ n ih =>
        intro hn i hi hin
        have hend : (n + 1) * sb.bsize ≤ size + sb.bsize - 1 :=
          (Nat.mul_le_mul_right sb.bsize hn).trans hupper
        rw [Nat.add_mul, Nat.one_mul] at hend hin
        have hstart : u32 (n * sb.bsize) = n * sb.bsize := Nat.mod_eq_of_lt (by omega)
        rw [filled_succ, Cells.fill_ne_none, length_blockData, hstart]
        by_cases hbefore : i < n * sb.bsize
        · exact .inr (ih (by omega) i hi hbefore)
        · left
          have hbytes : size ≤ n * sb.bsize + blockBytes sb size n ∨
              blockBytes sb size n = sb.bsize := by
            rw [blockBytes, hstart, Nat.add_mul, Nat.one_mul]
            split
            · exact .inr rfl
            · left
              rw [u32]
              omega
          omega
    exact fun i hi => hprefix _ (Nat.le_refl _) i hi (by omega)

/-! ## Paths -/

/-- Inode `ino` loads as `d`. -/
def Loads (img : Image) (malloc : Malloc) (sb : FfsSb) (ino : Nat) (d : Loaded) : Prop :=
  readIno img malloc sb ino = .ok (some d)

/-- The search of directory `d` for a name ends at a record with this number. -/
def Finds (d : Loaded) (comp : List U8) (child : Nat) : Prop :=
  child ≠ 0 ∧ ∃ n, iterate (d.seek comp) n 0 = some child

/-- Some components of a path, looked up from inode `ino`, lead to inode `ino'`
with the rest of the path left. -/
inductive Leads (img : Image) (malloc : Malloc) (sb : FfsSb) :
    List U8 → Nat → List U8 → Nat → Prop where
  | here (path : List U8) (ino : Nat) : Leads img malloc sb path ino path ino
  | into {path comp rest path' : List U8} {ino child ino' : Nat} {d : Loaded}
      (hname : nextName path = some (comp, rest)) (hload : Loads img malloc sb ino d)
      (hdir : d.isDir) (hfind : Finds d comp child)
      (hrest : Leads img malloc sb rest child path' ino') : Leads img malloc sb path ino path' ino'

/-- Every directory that a path goes through can be searched for the component
that comes next. -/
def PathOk (img : Image) (malloc : Malloc) (sb : FfsSb) (path : List U8) (ino : Nat) : Prop :=
  ∀ p comp rest i d, Leads img malloc sb path ino p i → nextName p = some (comp, rest) →
    Loads img malloc sb i d → d.isDir → d.Searchable comp

theorem length_nextName {path comp rest : List U8} (h : nextName path = some (comp, rest)) :
    rest.length < path.length := by
  have hdrop := (List.dropWhile_sublist (· = SLASH) (l := path)).length_le
  rw [nextName] at h
  dsimp only at h
  split at h
  · exact nomatch h
  · next hne =>
    obtain ⟨rfl, rfl⟩ := Prod.mk.inj (Option.some.inj h)
    generalize hp : path.dropWhile (· = SLASH) = p at *
    -- the first byte after the slashes belongs to the component
    cases p with
    | nil => exact absurd rfl hne
    | cons a p =>
      have hhead : a ≠ SLASH := by
        have hnot := List.head?_dropWhile_not (· = SLASH) path
        rw [hp] at hnot
        exact of_decide_eq_false hnot
      rw [List.length_drop, List.takeWhile_cons_of_pos (by simpa using hhead), List.length_take,
        List.length_cons]
      rw [List.length_cons] at hdrop ⊢
      omega

/-- One component is resolved without a fault if and only if its directory can be
searched for it. -/
theorem nameiStep_iff (h : Sound sb) (ino : Nat) (comp : List U8) :
    (∃ n r, nameiStep n img malloc sb ino comp = some (.ok r)) ↔
      ∀ d, Loads img malloc sb ino d → d.isDir → d.Searchable comp := by
  obtain ⟨r, hr, hlen⟩ := readIno_ok img malloc h ino
  cases r with
  | none =>
    refine ⟨fun _ d hd => (nomatch hr.symm.trans hd), fun _ => ⟨0, none, ?_⟩⟩
    rw [nameiStep, hr]
  | some dir =>
    have hload : ∀ d, Loads img malloc sb ino d → d = dir := fun d hd =>
      Option.some.inj (Except.ok.inj (hd.symm.trans hr))
    by_cases hdir : dir.isDir
    · have hsearch := Loaded.search_iff comp (hlen dir rfl).1
      have hstep : ∀ n, nameiStep n img malloc sb ino comp =
          (iterate (dir.look comp) n 0).map fun found =>
            found.map fun ino => if ino = 0 then none else some ino := by
        intro n
        rw [nameiStep, hr]
        exact if_pos hdir
      constructor
      · rintro ⟨n, r, hn⟩ d hd -
        rw [hload d hd]
        refine hsearch.1 ?_
        rw [hstep, Option.map_eq_some_iff] at hn
        obtain ⟨found, hfound, hmap⟩ := hn
        cases found with
        | error e => exact nomatch hmap
        | ok f => exact ⟨n, f, hfound⟩
      · intro hall
        obtain ⟨n, f, hn⟩ := hsearch.2 (hall dir hr hdir)
        exact ⟨n, _, by rw [hstep, hn]; rfl⟩
    · refine ⟨fun _ d hd hd' => absurd (hload d hd ▸ hd') hdir, fun _ => ⟨0, none, ?_⟩⟩
      rw [nameiStep, hr]
      exact if_neg hdir

theorem nameiStep_mono {m n : Nat} (hle : m ≤ n) {ino : Nat} {comp : List U8}
    {o : Except Fault (Option Nat)} (h : nameiStep m img malloc sb ino comp = some o) :
    nameiStep n img malloc sb ino comp = some o := by
  rw [nameiStep] at h ⊢
  cases hr : readIno img malloc sb ino with
  | error e => rwa [hr] at h
  | ok r =>
    rw [hr] at h
    cases r with
    | none => exact h
    | some dir =>
      dsimp only at h ⊢
      split at h
      · next hdir =>
        obtain ⟨found, hfound, hmap⟩ := Option.map_eq_some_iff.1 h
        rw [if_pos hdir, iterate_mono hle hfound, Option.map_some, hmap]
      · next hdir => rwa [if_neg hdir]

theorem nameiStep_found (h : Sound sb) {ino found : Nat} {comp : List U8} :
    (∃ n, nameiStep n img malloc sb ino comp = some (.ok (some found))) ↔
      ∃ d, Loads img malloc sb ino d ∧ d.isDir ∧ d.Searchable comp ∧ Finds d comp found := by
  constructor
  · rintro ⟨n, hn⟩
    have hsearch := (nameiStep_iff h ino comp).1 ⟨n, _, hn⟩
    obtain ⟨r, hr, hlen⟩ := readIno_ok img malloc h ino
    rw [nameiStep, hr] at hn
    cases r with
    | none => exact nomatch hn
    | some d =>
      dsimp only at hn
      split at hn
      · next hdir =>
        have hd := hsearch d hr hdir
        rw [Loaded.iterate_look (hlen d rfl).1 hd, Option.map_map, Option.map_eq_some_iff] at hn
        obtain ⟨f, hf, hmap⟩ := hn
        change Except.ok (if f = 0 then none else some f) = _ at hmap
        by_cases hzero : f = 0
        · rw [if_pos hzero] at hmap
          exact nomatch hmap
        · rw [if_neg hzero] at hmap
          obtain rfl := Option.some.inj (Except.ok.inj hmap)
          exact ⟨d, hr, hdir, hd, hzero, n, hf⟩
      · exact nomatch hn
  · rintro ⟨d, hload, hdir, hd, hzero, n, hf⟩
    obtain ⟨r, hr, hlen⟩ := readIno_ok img malloc h ino
    obtain rfl : r = some d := Except.ok.inj (hr.symm.trans hload)
    refine ⟨n, ?_⟩
    rw [nameiStep, hr]
    dsimp only
    rw [if_pos hdir, Loaded.iterate_look (hlen d rfl).1 hd, hf, Option.map_some, Option.map_some]
    change some (Except.ok (if found = 0 then none else some found)) = _
    rw [if_neg hzero]

variable {path comp rest : List U8} {ino : Nat}

theorem namei_of_none (n fuel : Nat) (hname : nextName path = none) :
    namei n img malloc sb (fuel + 1) path ino = some (.ok (some ino)) := by
  rw [namei, hname]

variable (img malloc sb rest) in
def nameiNext (n fuel : Nat) : Option (Except Fault (Option Nat)) → Option (Except Fault (Option Nat))
  | some (.ok (some found)) => namei n img malloc sb fuel rest found
  | ended => ended

theorem namei_of_some (n fuel : Nat) (hname : nextName path = some (comp, rest)) :
    namei n img malloc sb (fuel + 1) path ino =
      nameiNext img malloc sb rest n fuel (nameiStep n img malloc sb ino comp) := by
  rw [namei, hname]
  dsimp only
  generalize nameiStep n img malloc sb ino comp = step
  rcases step with _ | (e | (_ | found))
  · rfl
  · rfl
  · rfl
  · rfl

theorem namei_mono {m n : Nat} (hle : m ≤ n) {fuel : Nat} {o : Except Fault (Option Nat)}
    (h : namei m img malloc sb fuel path ino = some o) :
    namei n img malloc sb fuel path ino = some o := by
  induction fuel generalizing path ino with
  | zero => exact nomatch h
  | succ fuel ih =>
    cases hname : nextName path with
    | none =>
      rw [namei_of_none _ _ hname] at h
      rw [namei_of_none _ _ hname, h]
    | some next =>
      obtain ⟨comp, rest⟩ := next
      rw [namei_of_some _ _ hname] at h ⊢
      cases hstep : nameiStep m img malloc sb ino comp with
      | none =>
        rw [hstep] at h
        exact nomatch h
      | some o' =>
        rw [nameiStep_mono hle hstep]
        rw [hstep] at h
        match o', h with
        | .error e, h => exact h
        | .ok none, h => exact h
        | .ok (some found), h => exact ih h

/-- A path can be followed if its first component can be looked for and the rest
can be followed from where that leads. -/
theorem pathOk_iff (hname : nextName path = some (comp, rest)) :
    PathOk img malloc sb path ino ↔
      (∀ d, Loads img malloc sb ino d → d.isDir → d.Searchable comp) ∧
      ∀ d child, Loads img malloc sb ino d → d.isDir → Finds d comp child →
        PathOk img malloc sb rest child := by
  constructor
  · intro h
    refine ⟨fun d => h path comp rest ino d (.here path ino) hname,
      fun d child hload hdir hfind p comp' rest' i d' hleads => ?_⟩
    exact h p comp' rest' i d' (.into hname hload hdir hfind hleads)
  · rintro ⟨hfirst, hrest⟩ p comp' rest' i d hleads hname' hload hdir
    cases hleads with
    | here =>
      obtain ⟨rfl, rfl⟩ := Prod.mk.inj (Option.some.inj (hname.symm.trans hname'))
      exact hfirst d hload hdir
    | into hn hl hd hf hr =>
      obtain ⟨rfl, rfl⟩ := Prod.mk.inj (Option.some.inj (hname.symm.trans hn))
      exact hrest _ _ hl hd hf p comp' rest' i d hr hname' hload hdir

variable (img malloc ino) in
theorem namei_iff (h : Sound sb) {fuel : Nat} (hfuel : path.length < fuel) :
    (∃ n r, namei n img malloc sb fuel path ino = some (.ok r)) ↔
      PathOk img malloc sb path ino := by
  induction fuel generalizing path ino with
  | zero => exact absurd hfuel (Nat.not_lt_zero _)
  | succ fuel ih =>
    cases hname : nextName path with
    | none =>
      refine ⟨fun _ p comp rest i d hleads hn => ?_,
        fun _ => ⟨0, some ino, namei_of_none _ _ hname⟩⟩
      cases hleads with
      | here => exact nomatch hname.symm.trans hn
      | into hn' => exact nomatch hname.symm.trans hn'
    | some next =>
      obtain ⟨comp, rest⟩ := next
      have hshorter := length_nextName hname
      have hrest : ∀ child, (∃ n r, namei n img malloc sb fuel rest child = some (.ok r)) ↔
          PathOk img malloc sb rest child := fun child => ih child (by omega)
      rw [pathOk_iff hname, ← nameiStep_iff h]
      constructor
      · rintro ⟨n, r, hn⟩
        rw [namei_of_some _ _ hname] at hn
        have hstep : ∃ r', nameiStep n img malloc sb ino comp = some (.ok r') := by
          rcases hs : nameiStep n img malloc sb ino comp with _ | (e | r')
          · rw [hs] at hn
            exact nomatch hn
          · rw [hs] at hn
            exact nomatch hn
          · exact ⟨r', rfl⟩
        obtain ⟨r', hr'⟩ := hstep
        refine ⟨⟨n, r', hr'⟩, fun d child hload hdir hfind => (hrest child).1 ?_⟩
        have hsearch := (nameiStep_iff h ino comp).1 ⟨n, r', hr'⟩ d hload hdir
        obtain ⟨m, hm⟩ := (nameiStep_found h).2 ⟨d, hload, hdir, hsearch, hfind⟩
        have hsame : r' = some child := by
          have h1 := nameiStep_mono (Nat.le_max_left m n) hm
          have h2 := nameiStep_mono (Nat.le_max_right m n) hr'
          exact Except.ok.inj (Option.some.inj (h2.symm.trans h1))
        rw [hr', hsame] at hn
        exact ⟨n, r, hn⟩
      · rintro ⟨⟨n, r, hn⟩, hthen⟩
        cases r with
        | none =>
          refine ⟨n, none, ?_⟩
          rw [namei_of_some _ _ hname, hn]
          rfl
        | some child =>
          obtain ⟨d, hload, hdir, -, hfind⟩ := (nameiStep_found h).1 ⟨n, hn⟩
          obtain ⟨m, r, hm⟩ := (hrest child).2 (hthen d child hload hdir hfind)
          refine ⟨max n m, r, ?_⟩
          rw [namei_of_some _ _ hname, nameiStep_mono (Nat.le_max_left n m) hn]
          exact namei_mono (Nat.le_max_right n m) hm

theorem namei_found (h : Sound sb) {fuel target : Nat} (hfuel : path.length < fuel)
    (hok : PathOk img malloc sb path ino) :
    (∃ n, namei n img malloc sb fuel path ino = some (.ok (some target))) ↔
      ∃ p, Leads img malloc sb path ino p target ∧ nextName p = none := by
  induction fuel generalizing path ino with
  | zero => exact absurd hfuel (Nat.not_lt_zero _)
  | succ fuel ih =>
    cases hname : nextName path with
    | none =>
      constructor
      · rintro ⟨n, hn⟩
        rw [namei_of_none _ _ hname] at hn
        obtain rfl := Option.some.inj (Except.ok.inj (Option.some.inj hn))
        exact ⟨path, .here path ino, hname⟩
      · rintro ⟨p, hleads, -⟩
        cases hleads with
        | here => exact ⟨0, namei_of_none _ _ hname⟩
        | into hn' => exact nomatch hname.symm.trans hn'
    | some next =>
      obtain ⟨comp, rest⟩ := next
      have hshorter := length_nextName hname
      obtain ⟨hsearch, hthen⟩ := (pathOk_iff hname).1 hok
      constructor
      · rintro ⟨n, hn⟩
        rw [namei_of_some _ _ hname] at hn
        rcases hs : nameiStep n img malloc sb ino comp with _ | (e | (_ | child))
        all_goals rw [hs] at hn
        · exact nomatch hn
        · exact nomatch hn
        · exact nomatch hn
        · obtain ⟨d, hload, hdir, -, hfind⟩ := (nameiStep_found h).1 ⟨n, hs⟩
          obtain ⟨p, hleads, hend⟩ :=
            (ih (by omega) (hthen d child hload hdir hfind)).1 ⟨n, hn⟩
          exact ⟨p, .into hname hload hdir hfind hleads, hend⟩
      · rintro ⟨p, hleads, hend⟩
        cases hleads with
        | here => exact nomatch hend.symm.trans hname
        | into hn' hload hdir hfind hleads =>
          obtain ⟨rfl, rfl⟩ := Prod.mk.inj (Option.some.inj (hname.symm.trans hn'))
          obtain ⟨n, hn⟩ := (nameiStep_found h).2
            ⟨_, hload, hdir, hsearch _ hload hdir, hfind⟩
          obtain ⟨m, hm⟩ := (ih (by omega) (hthen _ _ hload hdir hfind)).2 ⟨p, hleads, hend⟩
          refine ⟨max n m, ?_⟩
          rw [namei_of_some _ _ hname, nameiStep_mono (Nat.le_max_left n m) hn]
          exact namei_mono (Nat.le_max_right n m) hm

/-! ## Whole calls -/

/-- A superblock that counts as parsed has passed. -/
def SoundState (st : FfsState) : Prop := st.sb.ok = true → Sound st.sb

theorem dread32_lt (img : Image) (off : Nat) : dread32 img off < 2 ^ 32 := by
  rw [dread32]
  split
  · decide
  · exact be32_lt _

theorem ffsInit_sound {sb' : FfsSb} (h : sb.ok = true → Sound sb)
    (hinit : ffsInit img sb = (sb', true)) : Sound sb' := by
  rw [ffsInit] at hinit
  split at hinit
  · next hok =>
    obtain ⟨rfl, -⟩ := Prod.mk.inj hinit
    exact h hok
  · split at hinit
    · cases hinit
    · dsimp only at hinit
      split at hinit
      · cases hinit
      · next hne =>
        obtain ⟨rfl, -⟩ := Prod.mk.inj hinit
        simp only [not_or] at hne
        obtain ⟨hfsize, hbsize, hipg, hinopb, hnindir⟩ := hne
        constructor
        all_goals dsimp only
        · exact hfsize
        · exact hbsize
        · exact hipg
        · exact hinopb
        · exact hnindir
        · exact dread32_lt img (FFS_SBOFF + 0x30)

theorem ffsOpen_sound (files : Nat → Image) {st : FfsState} (h : SoundState st) (f : Nat) :
    SoundState (ffsOpen files st f).1 ∧
      ((ffsOpen files st f).2 = true → Sound (ffsOpen files st f).1.sb) := by
  rw [ffsOpen]
  generalize hcurrent : (if st.fp = some f then st
    else { fp := some f, sb := { st.sb with ok := false } }) = current
  have hsound : SoundState current := by
    rw [← hcurrent]
    split
    · exact h
    · exact fun hok => nomatch hok
  rcases hinit : ffsInit (files f) current.sb with ⟨sb', ok⟩
  cases ok with
  | true => exact ⟨fun _ => ffsInit_sound hsound hinit, fun _ => ffsInit_sound hsound hinit⟩
  | false =>
    have hbad := ffsInit_false hinit
    exact ⟨fun hok => (nomatch hbad.symm.trans hok), nofun⟩

theorem stateAfter_sound (calls : List Call) : SoundState (stateAfter calls) := by
  induction calls using List.reverseRecOn with
  | nil => exact fun hok => absurd (show false = true from hok) Bool.false_ne_true
  | append_singleton calls c ih =>
    rw [stateAfter, List.foldl_append]
    change SoundState (c.run (stateAfter calls))
    rw [Call.run]
    split
    · exact ih
    · exact (ffsOpen_sound _ ih _).1

/-- The path can be followed, and the regular file it leads to ends a block short
of 4 GiB. -/
structure Readable (img : Image) (malloc : Malloc) (sb : FfsSb) (path : List U8) : Prop where
  lookup : PathOk img malloc sb path FFS_ROOTINO
  size : ∀ p ino d, Leads img malloc sb path FFS_ROOTINO p ino → nextName p = none →
    Loads img malloc sb ino d → d.isRegular → d.len + sb.bsize ≤ 2 ^ 32

variable (malloc) in
theorem ffsReadFile_open {files : Nat → Image} {st : FfsState} {f : Nat} (n : Nat)
    (path : List U8) (hopen : (ffsOpen files st f).2 = true) :
    (ffsReadFile n files malloc st (some f) path).2 =
      match namei n (files f) malloc (ffsOpen files st f).1.sb (path.length + 1) path
          FFS_ROOTINO with
      | some (.ok (some ino)) =>
        match readIno (files f) malloc (ffsOpen files st f).1.sb ino with
        | .error e => some (.error e)
        | .ok none => some (.ok none)
        | .ok (some file) => some (.ok (if file.isRegular then some file else none))
      | some (.ok none) => some (.ok none)
      | some (.error e) => some (.error e)
      | none => none := by
  rw [ffsReadFile]
  rcases hf : ffsOpen files st f with ⟨st', ok⟩
  rw [hf] at hopen
  obtain rfl : ok = true := hopen
  rfl

theorem safe_open_iff {files : Nat → Image} {st : FfsState} {f : Nat} (hst : SoundState st)
    (hopen : (ffsOpen files st f).2 = true) (path : List U8) :
    Safe files malloc st (some f) path ↔
      Readable (files f) malloc (ffsOpen files st f).1.sb path := by
  have hsound := (ffsOpen_sound files hst f).2 hopen
  have hnamei := fun n => ffsReadFile_open malloc n path hopen
  generalize (ffsOpen files st f).1.sb = sb at hsound hnamei ⊢
  generalize files f = img at hnamei ⊢
  have hpath := namei_iff img malloc FFS_ROOTINO hsound
    (Nat.lt_succ_self path.length)
  constructor
  · rintro ⟨n, r, hn, hfilled⟩
    rw [hnamei] at hn
    have hresolved : ∃ r', namei n img malloc sb (path.length + 1) path FFS_ROOTINO =
        some (.ok r') := by
      rcases hs : namei n img malloc sb (path.length + 1) path FFS_ROOTINO with _ | (e | r')
      · rw [hs] at hn
        exact nomatch hn
      · rw [hs] at hn
        exact nomatch hn
      · exact ⟨r', rfl⟩
    obtain ⟨r', hr'⟩ := hresolved
    have hok := hpath.1 ⟨n, r', hr'⟩
    refine ⟨hok, fun p ino d hleads hend hload hregular => ?_⟩
    obtain ⟨m, hm⟩ := (namei_found hsound (Nat.lt_succ_self _) hok).2 ⟨p, hleads, hend⟩
    have hsame : r' = some ino := by
      have h1 := namei_mono (Nat.le_max_left m n) hm
      have h2 := namei_mono (Nat.le_max_right m n) hr'
      exact Except.ok.inj (Option.some.inj (h2.symm.trans h1))
    have hread : readIno img malloc sb ino = .ok (some d) := hload
    rw [hr', hsame] at hn
    dsimp only at hn
    rw [hread] at hn
    dsimp only at hn
    rw [if_pos hregular] at hn
    obtain rfl := Except.ok.inj (Option.some.inj hn)
    obtain ⟨r, hr, hcells⟩ := readIno_ok img malloc hsound ino
    obtain rfl : r = some d := Except.ok.inj (hr.symm.trans hload)
    obtain ⟨hlen, db, ib, hd⟩ := hcells d rfl
    have hall := hfilled d rfl
    rw [hd] at hall
    exact (filled_iff hsound db ib hlen).1 hall
  · rintro ⟨hok, hsize⟩
    obtain ⟨n, r, hn⟩ := hpath.2 hok
    cases r with
    | none => exact ⟨n, none, by rw [hnamei, hn], fun file hfile => nomatch hfile⟩
    | some ino =>
      obtain ⟨p, hleads, hend⟩ := (namei_found hsound (Nat.lt_succ_self _) hok).1 ⟨n, hn⟩
      obtain ⟨r, hr, hcells⟩ := readIno_ok img malloc hsound ino
      cases r with
      | none => exact ⟨n, none, by rw [hnamei, hn]; dsimp only; rw [hr],
          fun file hfile => nomatch hfile⟩
      | some d =>
        refine ⟨n, if d.isRegular then some d else none,
          by rw [hnamei, hn]; dsimp only; rw [hr], fun file hfile => ?_⟩
        split at hfile
        · next hregular =>
          obtain rfl := Option.some.inj hfile
          obtain ⟨hlen, db, ib, hd⟩ := hcells d rfl
          rw [hd]
          exact (filled_iff hsound db ib hlen).2 (hsize p ino d hleads hend hr hregular)
        · exact nomatch hfile

/-- After any calls before, and whatever `malloc` hands out, a call on any image is
safe if and only if, unless the superblock is refused, its path can be followed
and its file can be counted in blocks. -/
theorem ffsReadFile_safe_iff (calls : List Call) (files : Nat → Image) (malloc : Malloc)
    (fp : Option Nat) (path : List U8) :
    Safe files malloc (stateAfter calls) fp path ↔
      ∀ f, fp = some f → (ffsOpen files (stateAfter calls) f).2 = true →
        Readable (files f) malloc (ffsOpen files (stateAfter calls) f).1.sb path := by
  have hst := stateAfter_sound calls
  cases fp with
  | none =>
    refine ⟨fun _ f hf => (nomatch hf), fun _ => ⟨0, none, rfl, fun file hfile => (nomatch hfile)⟩⟩
  | some f =>
    cases hopen : (ffsOpen files (stateAfter calls) f).2 with
    | true =>
      rw [safe_open_iff hst hopen]
      constructor
      · intro h f' hf' _
        obtain rfl := Option.some.inj hf'
        exact h
      · intro h
        exact h f rfl hopen
    | false =>
      constructor
      · intro _ f' hf' hopen'
        obtain rfl := Option.some.inj hf'
        exact nomatch hopen.symm.trans hopen'
      · intro _
        refine ⟨0, none, ?_, fun file hfile => nomatch hfile⟩
        rw [ffsReadFile]
        rcases hf : ffsOpen files (stateAfter calls) f with ⟨st', ok⟩
        rw [hf] at hopen
        obtain rfl : ok = false := hopen
        rfl

theorem not_safe_of_error {files : Nat → Image} {st : FfsState} {f n : Nat} {path : List U8}
    {e : Fault} (hopen : (ffsOpen files st f).2 = true)
    (hfault : namei n (files f) malloc (ffsOpen files st f).1.sb (path.length + 1) path
      FFS_ROOTINO = some (.error e)) : ¬Safe files malloc st (some f) path := by
  rintro ⟨m, r, hm, -⟩
  rw [ffsReadFile_open malloc m path hopen] at hm
  rcases hs : namei m (files f) malloc (ffsOpen files st f).1.sb (path.length + 1) path
    FFS_ROOTINO with _ | (e' | r')
  · rw [hs] at hm
    exact nomatch hm
  · rw [hs] at hm
    exact nomatch hm
  · have h1 := namei_mono (Nat.le_max_left m n) hs
    have h2 := namei_mono (Nat.le_max_right m n) hfault
    exact nomatch h1.symm.trans h2

/-! ## A directory that ends within a name -/

/-- The root directory of `smallImage` cut off two bytes into the name `vmunix`. -/
def cutImage : Image := smallImage.write (16384 + 2 * 128 + 8) (Format.enc 8 22)

theorem ffsReadFile_cutImage :
    ¬Safe (fun _ => cutImage) (fun _ => some fun _ => 0) (stateAfter []) (some 0)
      (SLASH :: vmunix) := by
  have hopen : (ffsOpen (fun _ => cutImage) (stateAfter []) 0).2 = true := by decide +kernel
  have hfault : namei 2 cutImage (fun _ => some fun _ => 0)
      (ffsOpen (fun _ => cutImage) (stateAfter []) 0).1.sb ((SLASH :: vmunix).length + 1)
      (SLASH :: vmunix) FFS_ROOTINO = some (.error (.outside 22)) := by
    decide +kernel
  exact not_safe_of_error hopen hfault

end Nx88.Ffs.Checked
