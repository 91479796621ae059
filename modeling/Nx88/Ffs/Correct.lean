import Mathlib.Data.List.TakeWhile
import Nx88.Ffs.Blocks
/-!
# The reader returns the file

The directory scan against the chain of records, the path loop against the walk
from the root, and `ffsReadFile` as a whole.
-/

namespace Nx88.Ffs

open Format

/-! ## The directory scan -/

@[simp] theorem length_enc (k n : Nat) : (enc k n).length = k := by
  induction k generalizing n with
  | zero => rfl
  | succ k ih => simp [enc, ih]

theorem be32_enc {n : Nat} (h : n < 2 ^ 32) (l : List U8) : be32 (enc 4 n ++ l) = n := by
  simp only [enc, List.nil_append, List.cons_append, be32, byteAt, List.getD_cons_zero,
    List.getD_cons_succ, BitVec.toNat_ofNat]
  omega

theorem be16_enc {n : Nat} (h : n < 2 ^ 16) (l : List U8) : be16 (enc 2 n ++ l) = n := by
  simp only [enc, List.nil_append, List.cons_append, be16, byteAt, List.getD_cons_zero,
    List.getD_cons_succ, BitVec.toNat_ofNat]
  omega

theorem take_append_eq_iff {name comp l : List U8} (h : name.length = comp.length) :
    (name ++ l).take comp.length = comp ↔ name = comp := by
  rw [← h, List.take_left]

theorem drop_append_add (pre l : List U8) (k : Nat) : (pre ++ l).drop (pre.length + k) = l.drop k := by
  rw [List.drop_append, List.drop_eq_nil_of_le (by omega), List.nil_append,
    Nat.add_sub_cancel_left]

theorem scanDir_records {rest : List U8} {es : List (Nat × List U8)} (comp : List U8)
    (hrec : Records rest es) (pre : List U8) {fuel : Nat} (hfuel : rest.length < fuel)
    (hsmall : pre.length + rest.length + 8 < 2 ^ 32) :
    scanDir (pre ++ rest) (pre.length + rest.length) comp fuel pre.length =
      some ((lookup es comp).getD 0) := by
  induction hrec generalizing pre fuel with
  | nil =>
    obtain ⟨n, rfl⟩ := Nat.exists_eq_succ_of_ne_zero (Nat.ne_of_gt (Nat.zero_lt_of_lt hfuel))
    unfold scanDir
    rw [u32_of_lt (by simp at hsmall; omega), if_neg (by simp)]
    rfl
  | @cons ino name pad rest es hino hlen hrest ih =>
    obtain ⟨n, rfl⟩ := Nat.exists_eq_succ_of_ne_zero (Nat.ne_of_gt (Nat.zero_lt_of_lt hfuel))
    have hassoc : enc 4 ino ++ enc 2 (8 + name.length + pad.length) ++ enc 2 name.length ++ name ++
        pad ++ rest = enc 4 ino ++ (enc 2 (8 + name.length + pad.length) ++
          (enc 2 name.length ++ (name ++ (pad ++ rest)))) := by
      simp only [List.append_assoc]
    have htotal : (enc 4 ino ++ enc 2 (8 + name.length + pad.length) ++ enc 2 name.length ++ name ++
        pad ++ rest).length = 8 + name.length + pad.length + rest.length := by
      simp only [List.length_append, length_enc]
    rw [htotal] at hfuel hsmall ⊢
    unfold scanDir
    rw [u32_of_lt (by omega), if_pos (by omega)]
    -- the four fields of the record
    have hdrop0 := drop_append_add pre (enc 4 ino ++ enc 2 (8 + name.length + pad.length) ++
      enc 2 name.length ++ name ++ pad ++ rest) 0
    rw [Nat.add_zero, List.drop_zero] at hdrop0
    have hdino : be32 ((pre ++ (enc 4 ino ++ enc 2 (8 + name.length + pad.length) ++
        enc 2 name.length ++ name ++ pad ++ rest)).drop pre.length) = ino := by
      rw [hdrop0, hassoc, be32_enc hino]
    have hreclen : be16 ((pre ++ (enc 4 ino ++ enc 2 (8 + name.length + pad.length) ++
        enc 2 name.length ++ name ++ pad ++ rest)).drop (pre.length + 4)) =
        8 + name.length + pad.length := by
      rw [drop_append_add, hassoc, List.drop_left' (length_enc 4 ino), be16_enc hlen]
    have hnamlen : be16 ((pre ++ (enc 4 ino ++ enc 2 (8 + name.length + pad.length) ++
        enc 2 name.length ++ name ++ pad ++ rest)).drop (pre.length + 6)) = name.length := by
      rw [drop_append_add, hassoc, show 6 = 4 + 2 from rfl, ← List.drop_drop,
        List.drop_left' (length_enc 4 ino), List.drop_left' (length_enc 2 _), be16_enc (by omega)]
    have hname : (pre ++ (enc 4 ino ++ enc 2 (8 + name.length + pad.length) ++
        enc 2 name.length ++ name ++ pad ++ rest)).drop (pre.length + 8) =
        name ++ (pad ++ rest) := by
      rw [drop_append_add, hassoc, show 8 = 4 + (2 + 2) from rfl, ← List.drop_drop,
        ← List.drop_drop, List.drop_left' (length_enc 4 ino), List.drop_left' (length_enc 2 _),
        List.drop_left' (length_enc 2 _)]
    simp only [hdino, hreclen, hnamlen, hname]
    rw [if_neg (by omega)]
    by_cases hmatch : ino ≠ 0 ∧ name = comp
    · obtain ⟨h0, rfl⟩ := hmatch
      rw [if_pos ⟨h0, rfl, (take_append_eq_iff rfl).2 rfl⟩]
      simp [lookup, h0]
    · rw [if_neg]
      · have hnext : pre.length + (8 + name.length + pad.length) =
            (pre ++ (enc 4 ino ++ enc 2 (8 + name.length + pad.length) ++ enc 2 name.length ++
              name ++ pad)).length := by
          simp only [List.length_append, length_enc]
        have hih := ih (pre ++ (enc 4 ino ++ enc 2 (8 + name.length + pad.length) ++
          enc 2 name.length ++ name ++ pad)) (show _ < n by omega) (by rw [← hnext]; omega)
        rw [u32_of_lt (by omega), hnext]
        rw [← hnext, ← List.append_assoc, ← Nat.add_assoc, ← Nat.add_assoc] at hih ⊢
        simp only [← List.append_assoc, ← Nat.add_assoc] at hih ⊢
        rw [hih]
        have hlook : lookup ((ino, name) :: es) comp = lookup es comp := by
          unfold lookup
          rw [List.find?_cons_of_neg (by simpa using hmatch)]
        rw [hlook]
      · rintro ⟨h0, hl, ht⟩
        exact hmatch ⟨h0, (take_append_eq_iff hl).1 ht⟩

theorem lookup_ne_zero {es : List (Nat × List U8)} {name : List U8} {ino : Nat}
    (h : lookup es name = some ino) : ino ≠ 0 ∧ (ino, name) ∈ es := by
  unfold lookup at h
  obtain ⟨e, he, rfl⟩ := Option.map_eq_some_iff.1 h
  have hp := List.find?_some he
  simp only [decide_eq_true_eq] at hp
  refine ⟨hp.1, ?_⟩
  have hmem := List.mem_of_find?_eq_some he
  rwa [← hp.2]

/-! ## Paths -/

theorem components_slash (p : List U8) : components (Format.SLASH :: p) = components p := by
  unfold components
  rw [List.splitOn_cons_eq_if_modifyHead, if_pos (by simp)]
  simp

theorem components_dropWhile (p : List U8) :
    components (p.dropWhile (· = Format.SLASH)) = components p := by
  induction p with
  | nil => rfl
  | cons c p ih =>
    by_cases hc : c = Format.SLASH
    · rw [List.dropWhile_cons_of_pos (by simpa using hc), ih, hc, components_slash]
    · rw [List.dropWhile_cons_of_neg (by simpa using hc)]

theorem components_nil : components [] = [] := by
  simp [components]

theorem components_name {p : List U8} (hp : p ≠ []) (hhead : p.head? ≠ some Format.SLASH) :
    components p = p.takeWhile (· ≠ Format.SLASH) ::
      components (p.drop (p.takeWhile (· ≠ Format.SLASH)).length) := by
  have hsplit := List.takeWhile_append_dropWhile (p := (· ≠ Format.SLASH)) (l := p)
  have hnot : Format.SLASH ∉ p.takeWhile (· ≠ Format.SLASH) := by
    intro hmem
    simpa using List.mem_takeWhile_imp hmem
  have hne : p.takeWhile (· ≠ Format.SLASH) ≠ [] := by
    cases p with
    | nil => exact absurd rfl hp
    | cons c p =>
      have hc : c ≠ Format.SLASH := by simpa using hhead
      rw [List.takeWhile_cons_of_pos (by simpa using hc)]
      exact List.cons_ne_nil _ _
  have hdrop : p.drop (p.takeWhile (· ≠ Format.SLASH)).length = p.dropWhile (· ≠ Format.SLASH) := by
    conv_lhs => rw [← hsplit]
    rw [List.takeWhile_append_dropWhile]
    nth_rewrite 2 [← hsplit]
    exact List.drop_left
  rw [hdrop]
  cases hrest : p.dropWhile (· ≠ Format.SLASH) with
  | nil =>
    rw [hrest, List.append_nil] at hsplit
    rw [components_nil]
    have hone : components (p.takeWhile (· ≠ Format.SLASH)) =
        [p.takeWhile (· ≠ Format.SLASH)] := by
      unfold components
      rw [List.splitOn_eq_singleton hnot, List.filter_cons_of_pos (p := fun x => decide (x ≠ [])) (decide_eq_true hne),
        List.filter_nil]
    rwa [hsplit] at hone ⊢
  | cons c q =>
    have hc : c = Format.SLASH := by
      have hhd := List.head?_dropWhile_not (p := (· ≠ Format.SLASH)) p
      rw [hrest] at hhd
      simpa using hhd
    subst hc
    rw [components_slash]
    have hcons : components (p.takeWhile (· ≠ Format.SLASH) ++ Format.SLASH :: q) =
        p.takeWhile (· ≠ Format.SLASH) :: components q := by
      unfold components
      rw [List.splitOn_append_cons_self_of_not_mem hnot,
        List.filter_cons_of_pos (p := fun x => decide (x ≠ [])) (decide_eq_true hne)]
    rwa [← hrest, hsplit] at hcons

/-! ## Modes -/

theorem mode_and_eq_iff {m : Nat} (h : m < 2 ^ 16) (c : Nat) :
    m &&& 0xF000 = c * 2 ^ 12 ↔ m / 4096 = c := by
  have hand : m &&& 0xF000 = m / 2 ^ 12 * 2 ^ 12 := by
    apply Nat.eq_of_testBit_eq
    intro i
    rw [Nat.testBit_and, show (0xF000 : Nat) = 15 * 2 ^ 12 by norm_num, Nat.testBit_mul_two_pow,
      Nat.testBit_mul_two_pow, Nat.testBit_div_two_pow]
    by_cases hi : 12 ≤ i
    · by_cases h4 : i - 12 < 4
      · have hbit : Nat.testBit 15 (i - 12) = true := by
          rw [show (15 : Nat) = 2 ^ 4 - 1 by norm_num, Nat.testBit_two_pow_sub_one]
          simpa using h4
        simp [hi, hbit]
      · have hbit : m.testBit i = false :=
          Nat.testBit_lt_two_pow (lt_of_lt_of_le h (Nat.pow_le_pow_right (by omega) (by omega)))
        simp [hi, hbit]
    · simp [hi]
  rw [hand]
  omega

theorem mode_lt (f : Image) (ino : Nat) : mode f ino < 2 ^ 16 := num_lt f _ 2

theorem dirMode_iff (f : Image) (ino : Nat) : mode f ino &&& 0xF000 = 0x4000 ↔ IsDir f ino :=
  mode_and_eq_iff (mode_lt f ino) 4

theorem regularMode_iff (f : Image) (ino : Nat) :
    mode f ino &&& 0xF000 = 0x8000 ↔ IsRegular f ino :=
  mode_and_eq_iff (mode_lt f ino) 8

/-! ## The walk -/

theorem records_ino_lt {l name : List U8} {es : List (Nat × List U8)} {ino : Nat}
    (h : Records l es) (hmem : (ino, name) ∈ es) : ino < 2 ^ 32 := by
  induction h with
  | nil => cases hmem
  | cons hino _ _ ih =>
    rcases List.mem_cons.1 hmem with heq | hmem
    · cases heq
      exact hino
    · exact ih hmem

theorem Format.Reachable.lt {f : Image} {ino : Nat} (h : Reachable f ino) : ino < 2 ^ 32 := by
  cases h with
  | root => decide
  | child _ _ hrecords hmem _ => exact records_ino_lt hrecords hmem

/-- Scanning a directory of a well-formed image, whatever chain it is read as. -/
theorem scanDir_dir {f : Image} {d : Nat} {es : List (Nat × List U8)} (h : SuperOk f)
    (hfile : FileOk f d) (hrecords : Records (contents f d) es) (comp : List U8) :
    scanDir (contents f d) (size f d) comp (size f d + 1) 0 = some ((lookup es comp).getD 0) := by
  have hlen : (contents f d).length = size f d := by simp [contents]
  have hb := h.block
  have hbound := hfile.bounded
  have hscan := scanDir_records comp hrecords [] (show _ < size f d + 1 by omega) (by
    simp only [List.length_nil]
    omega)
  simpa [hlen] using hscan

theorem nameiStep_correct {f : Image} (fresh : Nat → U8) (hwf : WellFormed f) {ino : Nat}
    (hino : Reachable f ino) (name : List U8) :
    ∃ r, nameiStep f fresh (sbOf f) ino name = some r ∧
      ∀ next, r = some next ↔
        IsDir f ino ∧ ∃ es, Records (contents f ino) es ∧ lookup es name = some next := by
  have hin := hwf.inside ino hino
  by_cases hdir : IsDir f ino
  · have hfile := hwf.file ino hino (.inl hdir)
    have hscan : ∀ es, Records (contents f ino) es →
        nameiStep f fresh (sbOf f) ino name = some (lookup es name) := by
      intro es hrecords
      unfold nameiStep
      rw [readIno_eq hwf.super fresh hino.lt hin hfile]
      simp only [(dirMode_iff f ino).2 hdir, ne_eq, not_true_eq_false, if_false]
      rw [scanDir_dir hwf.super hfile hrecords, Option.map_some]
      cases hlook : lookup es name with
      | none => rfl
      | some next => rw [Option.getD_some, if_neg (lookup_ne_zero hlook).1]
    obtain ⟨es, hrecords⟩ := hwf.dir ino hino hdir
    refine ⟨lookup es name, hscan es hrecords, fun next => ⟨fun h => ⟨hdir, es, hrecords, h⟩, ?_⟩⟩
    -- any other reading of the directory finds the same entry
    rintro ⟨-, es', hes', hlook⟩
    have hsame := hscan es' hes'
    rw [hscan es hrecords] at hsame
    rwa [Option.some.inj hsame]
  · refine ⟨none, ?_, fun next => ⟨fun h => (nomatch h), fun h => absurd h.1 hdir⟩⟩
    unfold nameiStep
    simp only [mode_readIno hwf.super fresh hino.lt hin]
    rw [if_pos (fun h => hdir ((dirMode_iff f ino).1 h))]

theorem namei_correct {f : Image} (fresh : Nat → U8) (hwf : WellFormed f) {fuel ino : Nat}
    {path : List U8} (hfuel : path.length < fuel) (hino : Reachable f ino)
    (hcomp : ∀ c ∈ components path, c.length ≤ 255) :
    ∃ r, namei f fresh (sbOf f) fuel path ino = some r ∧
      (∀ target, r = some target ↔ Names f ino (components path) target) ∧
      (∀ target, r = some target → Reachable f target) := by
  induction fuel generalizing ino path with
  | zero => omega
  | succ fuel ih =>
    have hslash : (SLASH : U8) = Format.SLASH := rfl
    have hple : (path.dropWhile (· = Format.SLASH)).length ≤ path.length :=
      (List.dropWhile_sublist _).length_le
    rw [← components_dropWhile] at hcomp ⊢
    unfold namei
    simp only [hslash]
    generalize hp : path.dropWhile (fun x => decide (x = Format.SLASH)) = p at hcomp hple ⊢
    by_cases hnil : p = []
    · subst hnil
      rw [components_nil]
      refine ⟨some ino, by simp, fun target => ⟨fun h => ?_, fun h => ?_⟩, fun target h => ?_⟩
      · cases h
        exact Names.here ino
      · cases h
        rfl
      · cases h
        exact hino
    · have hhead : p.head? ≠ some Format.SLASH := by
        intro hh
        have hnot := List.head?_dropWhile_not (p := fun x => decide (x = Format.SLASH)) path
        rw [hp, hh] at hnot
        simp at hnot
      have hne : p.takeWhile (fun x => decide (x ≠ Format.SLASH)) ≠ [] := by
        cases p with
        | nil => exact absurd rfl hnil
        | cons c p =>
          rw [List.takeWhile_cons_of_pos (by simpa using hhead)]
          exact List.cons_ne_nil _ _
      rw [components_name hnil hhead] at hcomp ⊢
      generalize p.takeWhile (fun x => decide (x ≠ Format.SLASH)) = name at hcomp hne ⊢
      have hlen : name.length ≤ 255 := hcomp name (by simp)
      have hdrop : (p.drop name.length).length < fuel := by
        have hname := List.length_pos_iff.2 hne
        have hpath := List.length_pos_iff.2 hnil
        rw [List.length_drop]
        omega
      simp only [if_neg hnil, List.take_of_length_le hlen]
      obtain ⟨r, hr, hfound⟩ := nameiStep_correct fresh hwf hino name
      rw [hr]
      cases r with
      | none =>
        refine ⟨none, rfl, fun target => ⟨fun h => (nomatch h), fun h => ?_⟩,
          fun target h => (nomatch h)⟩
        cases h with
        | step hdir hrecords hlookup _ => cases (hfound _).2 ⟨hdir, _, hrecords, hlookup⟩
      | some next =>
        obtain ⟨hdir, es, hrecords, hlookup⟩ := (hfound next).1 rfl
        obtain ⟨h0, hmem⟩ := lookup_ne_zero hlookup
        have hnext : Reachable f next := Reachable.child hino hdir hrecords hmem h0
        obtain ⟨r, hr', hiff, hreach⟩ := ih hdrop hnext (fun c hc => hcomp c (by simp [hc]))
        refine ⟨r, hr', fun target => ?_, hreach⟩
        rw [hiff]
        constructor
        · exact fun h => Names.step hdir hrecords hlookup h
        · intro h
          cases h with
          | step hdir' hrecords' hlookup' hrest =>
            cases (hfound _).2 ⟨hdir', _, hrecords', hlookup'⟩
            exact hrest

/-! ## The whole call -/

/-- The cached superblock, if any, is the one of the image it was parsed from. -/
def FfsState.Coherent (files : Nat → Image) (st : FfsState) : Prop :=
  st.sb.ok = true → ∃ f sb, st.fp = some f ∧ sb.ok = false ∧ ffsInit (files f) sb = (st.sb, true)

theorem coherent_initial (files : Nat → Image) : FfsState.initial.Coherent files := by
  intro h
  cases h

theorem ffsInit_of_ok {f : Image} {sb : FfsSb} (h : sb.ok = true) : ffsInit f sb = (sb, true) := by
  simp [ffsInit, h]

theorem ffsInit_false {f : Image} {sb sb' : FfsSb} (h : ffsInit f sb = (sb', false)) :
    sb'.ok = false := by
  unfold ffsInit at h
  split at h
  · cases h
  · rename_i hok
    split at h
    · cases h
      simpa using hok
    · simp only at h
      split at h
      · cases h
        rfl
      · cases h

def startState (st : FfsState) (f : Nat) : FfsState :=
  if st.fp = some f then st else { fp := some f, sb := { st.sb with ok := false } }

theorem startState_fp (st : FfsState) (f : Nat) : (startState st f).fp = some f := by
  unfold startState
  split <;> trivial

theorem FfsState.Coherent.start {files : Nat → Image} {st : FfsState} (h : st.Coherent files)
    (f : Nat) : (startState st f).Coherent files := by
  unfold startState
  split
  · exact h
  · intro hok
    cases hok

theorem ffsReadFile_state (files : Nat → Image) (fresh : Nat → U8) (st : FfsState) (f : Nat)
    (path : List U8) :
    (ffsReadFile files fresh st (some f) path).1 =
      { fp := some f, sb := (ffsInit (files f) (startState st f).sb).1 } := by
  have hfp := startState_fp st f
  unfold startState at hfp ⊢
  unfold ffsReadFile
  simp only
  rcases hinit : ffsInit (files f)
    (if st.fp = some f then st else { fp := some f, sb := { st.sb with ok := false } }).sb with
    ⟨sb, _ | _⟩ <;> simp only [hfp]

theorem FfsState.Coherent.ffsReadFile {files : Nat → Image} {st : FfsState}
    (h : st.Coherent files) (fresh : Nat → U8) (fp : Option Nat) (path : List U8) :
    (Ffs.ffsReadFile files fresh st fp path).1.Coherent files := by
  cases fp with
  | none => exact h
  | some f =>
    rw [ffsReadFile_state]
    have hstart := h.start f
    have hfp := startState_fp st f
    generalize startState st f = s at hstart hfp ⊢
    rcases hinit : ffsInit (files f) s.sb with ⟨sb, _ | _⟩
    · intro hok
      rw [ffsInit_false hinit] at hok
      cases hok
    · intro _
      cases hsb : s.sb.ok with
      | false => exact ⟨f, s.sb, rfl, hsb, hinit⟩
      | true =>
        rw [ffsInit_of_ok hsb] at hinit
        obtain ⟨g, sb', hg, hsb', hparse⟩ := hstart hsb
        rw [hfp] at hg
        cases hg
        cases hinit
        exact ⟨f, sb', rfl, hsb', hparse⟩

/-- Whatever has been read before, a well-formed image is read with its own
geometry. -/
theorem ffsInit_wellFormed {files : Nat → Image} {st : FfsState} {f : Nat}
    (hst : st.Coherent files) (hwf : WellFormed (files f)) :
    ffsInit (files f) (startState st f).sb = (sbOf (files f), true) := by
  have hstart := hst.start f
  have hfp := startState_fp st f
  generalize startState st f = s at hstart hfp ⊢
  cases hsb : s.sb.ok with
  | false => exact ffsInit_fresh hwf.super hsb
  | true =>
    obtain ⟨g, sb', hg, hsb', hparse⟩ := hstart hsb
    rw [hfp] at hg
    cases hg
    rw [ffsInit_fresh hwf.super hsb'] at hparse
    rw [ffsInit_of_ok hsb, hparse]

def stateAfter (files : Nat → Image) (fresh : Nat → U8) (calls : List (Option Nat × List U8)) :
    FfsState :=
  calls.foldl (fun st c => (ffsReadFile files fresh st c.1 c.2).1) FfsState.initial

theorem coherent_stateAfter (files : Nat → Image) (fresh : Nat → U8)
    (calls : List (Option Nat × List U8)) : (stateAfter files fresh calls).Coherent files := by
  have hfold : ∀ st : FfsState, st.Coherent files → (calls.foldl
      (fun st c => (ffsReadFile files fresh st c.1 c.2).1) st).Coherent files := by
    induction calls with
    | nil => exact fun st h => h
    | cons c calls ih => exact fun st h => ih _ (h.ffsReadFile fresh c.1 c.2)
  exact hfold _ (coherent_initial files)

/-- On a well-formed image, after any earlier calls, a read ends, and it returns
bytes exactly when the components lead from the root to a regular file: that
file's contents and its size. -/
theorem ffsReadFile_correct {files : Nat → Image} {f : Nat} {path : List U8} (fresh : Nat → U8)
    (calls : List (Option Nat × List U8)) (hwf : WellFormed (files f))
    (hcomp : ∀ c ∈ components path, c.length ≤ 255) :
    ∃ r, (ffsReadFile files fresh (stateAfter files fresh calls) (some f) path).2 = some r ∧
      ∀ buf len, r = some (buf, len) ↔
        ∃ ino, Names (files f) ROOT (components path) ino ∧ IsRegular (files f) ino ∧
          buf = contents (files f) ino ∧ len = size (files f) ino := by
  have hinit := ffsInit_wellFormed (coherent_stateAfter files fresh calls) hwf
  obtain ⟨r, hr, hiff, hreach⟩ := namei_correct fresh hwf (Nat.lt_succ_self path.length)
    Reachable.root hcomp
  unfold startState at hinit
  unfold ffsReadFile
  simp only [hinit]
  rw [show FFS_ROOTINO = ROOT from rfl, show path.length + 1 = path.length.succ from rfl, hr]
  cases r with
  | none =>
    refine ⟨none, rfl, fun buf len => ⟨fun h => (nomatch h), ?_⟩⟩
    rintro ⟨ino, hnames, -⟩
    cases (hiff ino).2 hnames
  | some ino =>
    have hino := hreach ino rfl
    have hin := hwf.inside ino hino
    have hunique : ∀ target, Names (files f) ROOT (components path) target → target = ino :=
      fun target h => (Option.some.inj ((hiff target).2 h)).symm
    by_cases hreg : IsRegular (files f) ino
    · have hread := readIno_eq hwf.super fresh hino.lt hin (hwf.file ino hino (.inr hreg))
      simp only [hread, (regularMode_iff (files f) ino).2 hreg, ne_eq, not_true_eq_false, if_false]
      refine ⟨_, rfl, fun buf len => ⟨fun h => ?_, ?_⟩⟩
      · cases h
        exact ⟨ino, (hiff ino).1 rfl, hreg, rfl, rfl⟩
      · rintro ⟨target, hnames, -, rfl, rfl⟩
        rw [hunique target hnames]
    · have hmode := mode_readIno hwf.super fresh hino.lt hin
      simp only [hmode]
      rw [if_pos (fun h => hreg ((regularMode_iff (files f) ino).1 h))]
      refine ⟨none, rfl, fun buf len => ⟨fun h => (nomatch h), ?_⟩⟩
      rintro ⟨target, hnames, hreg', -⟩
      rw [hunique target hnames] at hreg'
      exact absurd hreg' hreg

/-! ## A small image -/

theorem records_uncons {l : List U8} {es : List (Nat × List U8)} (h : Records l es) :
    (l = [] ∧ es = []) ∨ (l ≠ [] ∧ ∃ tail, es = (be32 l, (l.drop 8).take (be16 (l.drop 6))) :: tail ∧
      Records (l.drop (be16 (l.drop 4))) tail) := by
  cases h with
  | nil => exact .inl ⟨rfl, rfl⟩
  | @cons ino name pad rest tail hino hlen hrest =>
    have hne : enc 4 ino ++ enc 2 (8 + name.length + pad.length) ++ enc 2 name.length ++ name ++
        pad ++ rest ≠ [] := by
      apply List.ne_nil_of_length_pos
      simp only [List.length_append, length_enc]
      omega
    refine .inr ⟨hne, tail, ?_, ?_⟩
    · simp only [List.append_assoc]
      rw [be32_enc hino, show 6 = 4 + 2 from rfl, ← List.drop_drop,
        List.drop_left' (length_enc 4 ino), List.drop_left' (length_enc 2 _),
        be16_enc (by omega), show 8 = 4 + (2 + 2) from rfl, ← List.drop_drop, ← List.drop_drop,
        List.drop_left' (length_enc 4 ino), List.drop_left' (length_enc 2 _),
        List.drop_left' (length_enc 2 _), List.take_left]
    · have hreclen : be16 ((enc 4 ino ++ enc 2 (8 + name.length + pad.length) ++
          enc 2 name.length ++ name ++ pad ++ rest).drop 4) = 8 + name.length + pad.length := by
        simp only [List.append_assoc]
        rw [List.drop_left' (length_enc 4 ino), be16_enc hlen]
      rw [hreclen, List.drop_left' (by simp only [List.length_append, length_enc])]
      exact hrest

/-- Blocks of four 1 KiB fragments and one group, with the root directory and a
file `vmunix` of two bytes. -/
def smallImage : Image :=
  [(8192 + 0x10, enc 4 16), (8192 + 0x30, enc 4 4096), (8192 + 0x34, enc 4 1024),
    (8192 + 0x38, enc 4 4), (8192 + 0x74, enc 4 1024), (8192 + 0x78, enc 4 32),
    (8192 + 0xB8, enc 4 32), (8192 + 0xBC, enc 4 64), (8192 + 0x55C, enc 4 0x011954),
    (16384 + 2 * 128, enc 2 0x41ED), (16384 + 2 * 128 + 8, enc 8 28),
    (16384 + 2 * 128 + 0x28, enc 4 20), (16384 + 3 * 128, enc 2 0x81ED),
    (16384 + 3 * 128 + 8, enc 8 2), (16384 + 3 * 128 + 0x28, enc 4 21),
    (20480, enc 4 2 ++ enc 2 12 ++ enc 2 1 ++ [0x2E, 0, 0, 0]),
    (20492, enc 4 3 ++ enc 2 16 ++ enc 2 6 ++ [0x76, 0x6D, 0x75, 0x6E, 0x69, 0x78, 0, 0]),
    (21504, [0x6E, 0x58])].foldl (fun f p => f.write p.1 p.2) ⟨24576, fun _ => 0⟩

def vmunix : List U8 := [0x76, 0x6D, 0x75, 0x6E, 0x69, 0x78]

def smallDirectory : List U8 :=
  enc 4 2 ++ enc 2 (8 + [(0x2E : U8)].length + [(0 : U8), 0, 0].length) ++
      enc 2 [(0x2E : U8)].length ++ [0x2E] ++ [0, 0, 0] ++
    (enc 4 3 ++ enc 2 (8 + vmunix.length + [(0 : U8), 0].length) ++ enc 2 vmunix.length ++
      vmunix ++ [0, 0] ++ [])

theorem smallImage_root : contents smallImage 2 = smallDirectory := by
  decide +kernel

theorem smallImage_records :
    Records (contents smallImage 2) [(2, [0x2E]), (3, vmunix)] := by
  rw [smallImage_root]
  exact @Records.cons 2 [0x2E] [0, 0, 0] _ _ (by decide) (by decide)
    (@Records.cons 3 vmunix [0, 0] [] [] (by decide) (by decide) Records.nil)

theorem smallImage_records_unique {es : List (Nat × List U8)}
    (h : Records (contents smallImage 2) es) : es = [(2, [0x2E]), (3, vmunix)] := by
  rw [smallImage_root] at h
  obtain ⟨h0, -⟩ | ⟨-, t₁, e₁, h₁⟩ := records_uncons h
  · exact absurd h0 (by decide +kernel)
  obtain ⟨h0, -⟩ | ⟨-, t₂, e₂, h₂⟩ := records_uncons h₁
  · exact absurd h0 (by decide +kernel)
  obtain ⟨-, e₃⟩ | ⟨h0, -⟩ := records_uncons h₂
  · rw [e₁, e₂, e₃]
    decide +kernel
  · exact absurd (by decide +kernel) h0

theorem smallImage_reachable {ino : Nat} (h : Reachable smallImage ino) : ino = 2 ∨ ino = 3 := by
  induction h with
  | root => exact .inl rfl
  | child _ hdir hrecords hmem _ ih =>
    rcases ih with rfl | rfl
    · rw [smallImage_records_unique hrecords] at hmem
      simp only [List.mem_cons, Prod.mk.injEq, List.not_mem_nil, or_false] at hmem
      exact hmem.imp And.left And.left
    · unfold IsDir at hdir
      exact absurd hdir (by decide +kernel)

theorem fileOk_of_size_le {f : Image} {ino : Nat} (h : SuperOk f)
    (hbound : size f ino + (geometry f).bsize < 2 ^ 32) (hsize : size f ino ≤ (geometry f).bsize)
    (hin : blockOf f ino 0 * (geometry f).fsize + size f ino ≤ f.size) : FileOk f ino := by
  have hb := h.block
  have hdiv : ∀ i < size f ino, i / (geometry f).bsize = 0 ∧ i % (geometry f).bsize = i :=
    fun i hi => ⟨Nat.div_eq_of_lt (by omega), Nat.mod_eq_of_lt (by omega)⟩
  refine ⟨hbound, fun i hi => ?_, fun i hi _ => ?_⟩
  · rw [(hdiv i hi).1, treeOf_direct (by omega)]
    trivial
  · rw [(hdiv i hi).1, (hdiv i hi).2]
    omega

theorem smallImage_super : SuperOk smallImage where
  small := by decide +kernel
  present := by decide +kernel
  magic := by decide +kernel
  block := by decide +kernel
  frags := by decide +kernel
  pointers := by decide +kernel
  inodes := by decide +kernel
  group := by decide +kernel

theorem smallImage_wellFormed : WellFormed smallImage where
  super := smallImage_super
  inside := by
    intro ino h
    rcases smallImage_reachable h with rfl | rfl <;> decide +kernel
  file := by
    intro ino h _
    rcases smallImage_reachable h with rfl | rfl <;>
      exact fileOk_of_size_le smallImage_super (by decide +kernel) (by decide +kernel)
        (by decide +kernel)
  dir := by
    intro d h hdir
    rcases smallImage_reachable h with rfl | rfl
    · exact ⟨_, smallImage_records⟩
    · unfold IsDir at hdir
      exact absurd hdir (by decide +kernel)

theorem ffsReadFile_smallImage :
    ∃ r, (ffsReadFile (fun _ => smallImage) (fun _ => 0) FfsState.initial (some 0)
      (SLASH :: vmunix)).2 = some r ∧
      ∀ buf len, r = some (buf, len) ↔
        ∃ ino, Names smallImage ROOT (components (SLASH :: vmunix)) ino ∧ IsRegular smallImage ino ∧
          buf = contents smallImage ino ∧ len = size smallImage ino :=
  @ffsReadFile_correct (fun _ => smallImage) 0 _ (fun _ => 0) []
    smallImage_wellFormed (by decide)

end Nx88.Ffs
