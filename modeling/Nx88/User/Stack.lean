import Nx88.Memory.Flat
import Nx88.Reset
/-!
# The initial user stack

`build_stack` of the user-mode runner, next to the reference loader's.  Both push
the argument strings down from `STACK_TOP` and put a table of words below them;
the runner's table ends with the NULL after the argument pointers, and whether
an empty environment follows is left to the alignment padding.
-/

namespace Nx88

open Lib.Words

def STACK_TOP : U32 := 0x7FFF0000

/-- The bytes of a string before its NUL. -/
structure CString where
  chars : List U8
  noNul : 0 ∉ chars

namespace CString

def stored (s : CString) : List U8 := s.chars ++ [0]

def size (s : CString) : Nat := s.chars.length + 1

@[simp] theorem length_stored (s : CString) : s.stored.length = s.size := by
  rw [stored, List.length_append]
  rfl

end CString

/-! ## The two loaders -/

def pushStrings (m : Mem) (sp : U32) : List CString → Mem × U32 × List U32
  | [] => (m, sp, [])
  | s :: ss =>
    let l := s.chars.length + 1
    let sp := sp - BitVec.ofNat 32 l
    let r := pushStrings (m.load sp s.stored) sp ss
    (r.1, r.2.1, sp :: r.2.2)

def buildStack (m : Mem) (argv : List CString) : Mem × U32 :=
  let argc := argv.length
  let r := pushStrings m STACK_TOP argv
  let m := r.1
  let ptr := r.2.2
  let sp := r.2.1 &&& ~~~(7 : U32)
  let nwords := 1 + argc + 1
  let sp := sp - BitVec.ofNat 32 (4 * nwords)
  let sp := sp &&& ~~~(7 : U32)
  let m := m.w32 sp (BitVec.ofNat 32 argc)
  let m := m.storeWords (sp + 4) ptr
  (m.w32 (sp + 4 + BitVec.ofNat 32 (4 * argc)) 0, sp)

def referenceBuildStack (m : Mem) (argv envp : List CString) : Mem × U32 :=
  let r := pushStrings m STACK_TOP (argv ++ envp)
  let ptrs := r.2.2
  let sp := r.2.1 &&& ~~~(7 : U32)
  let nargv := argv.length
  let words := BitVec.ofNat 32 nargv :: ptrs.take nargv ++ [0] ++ ptrs.drop nargv ++ [0]
  let sp := sp - BitVec.ofNat 32 (4 * words.length)
  let sp := sp &&& ~~~(7 : U32)
  (r.1.storeWords sp words, sp)

/-! ## The layout -/

/-- `b` is one of the `n` bytes from `a` on. -/
def Covers (a : U32) (n : Nat) (b : U32) : Prop := ∃ k < n, b = byteAddr a k

def BlocksApart (a : U32) (n : Nat) (a' : U32) (n' : Nat) : Prop :=
  ∀ b, Covers a n b → ¬ Covers a' n' b

/-- A NUL-terminated copy of `s` lies at `p`. -/
def StringAt (m : Mem) (p : U32) (s : CString) : Prop :=
  ∀ i (h : i < s.stored.length), m.r8 (byteAddr p i) = s.stored[i]

def argvWord (m : Mem) (sp : U32) (i : Nat) : U32 := m.r32 (byteAddr sp (4 + 4 * i))

/-- The initial stack of a process with arguments `argv` and no environment:
the count, the pointers to the strings, NULL, NULL. -/
structure InitialStack (m : Mem) (sp : U32) (argv : List CString) : Prop where
  count : m.r32 sp = BitVec.ofNat 32 argv.length
  args : ∀ i (h : i < argv.length), StringAt m (argvWord m sp i) argv[i]
  endArgs : argvWord m sp argv.length = 0
  endEnv : argvWord m sp (argv.length + 1) = 0
  aligned : sp.toNat % 8 = 0
  tableApart : ∀ i (h : i < argv.length),
    BlocksApart sp (4 * (argv.length + 3)) (argvWord m sp i) argv[i].size
  stringsApart : ∀ i j (hi : i < argv.length) (hj : j < argv.length), i ≠ j →
    BlocksApart (argvWord m sp i) argv[i].size (argvWord m sp j) argv[j].size

/-! ## Pushing the strings -/

def stringBytes (argv : List CString) : Nat := (argv.map CString.size).sum

def stringPlace : Nat → List CString → Nat → Nat
  | top, [], _ => top
  | top, s :: _, 0 => top - s.size
  | top, s :: ss, i + 1 => stringPlace (top - s.size) ss i

@[simp] theorem stringBytes_cons (s : CString) (ss : List CString) :
    stringBytes (s :: ss) = s.size + stringBytes ss := rfl

theorem stringPlace_bounds {top i : Nat} {argv : List CString} (hfit : stringBytes argv ≤ top)
    (hi : i < argv.length) :
    top - stringBytes argv ≤ stringPlace top argv i ∧
      stringPlace top argv i + argv[i].size ≤ top := by
  induction argv generalizing top i with
  | nil => exact absurd hi (Nat.not_lt_zero i)
  | cons s ss ih =>
    rw [stringBytes_cons] at hfit ⊢
    cases i with
    | zero =>
      change top - _ ≤ top - s.size ∧ top - s.size + s.size ≤ top
      omega
    | succ i =>
      have hi' : i < ss.length := Nat.lt_of_succ_lt_succ hi
      have hrest : top - s.size - stringBytes ss ≤ stringPlace (top - s.size) ss i ∧
          stringPlace (top - s.size) ss i + ss[i].size ≤ top - s.size := ih (by omega) hi'
      change top - _ ≤ stringPlace (top - s.size) ss i ∧
        stringPlace (top - s.size) ss i + ss[i].size ≤ top
      omega

theorem stringPlace_below {top i j : Nat} {argv : List CString} (hfit : stringBytes argv ≤ top)
    (hij : i < j) (hj : j < argv.length) :
    stringPlace top argv j + argv[j].size ≤ stringPlace top argv i := by
  induction argv generalizing top i j with
  | nil => exact absurd hj (Nat.not_lt_zero j)
  | cons s ss ih =>
    rw [stringBytes_cons] at hfit
    have hj' : j - 1 < ss.length := by
      rw [List.length_cons] at hj
      omega
    obtain ⟨j, rfl⟩ : ∃ k, j = k + 1 := ⟨j - 1, by omega⟩
    rw [Nat.add_sub_cancel] at hj'
    change stringPlace (top - s.size) ss j + ss[j].size ≤ stringPlace top (s :: ss) i
    cases i with
    | zero => exact (stringPlace_bounds (by omega) hj').2
    | succ i => exact ih (by omega) (by omega) hj'

theorem stringPlace_last {top : Nat} {argv : List CString} (hfit : stringBytes argv ≤ top)
    (hne : 0 < argv.length) :
    stringPlace top argv (argv.length - 1) = top - stringBytes argv := by
  induction argv generalizing top with
  | nil => exact absurd hne (Nat.lt_irrefl 0)
  | cons s ss ih =>
    rw [stringBytes_cons] at hfit ⊢
    cases ss with
    | nil => rfl
    | cons s' ss =>
      have hrest : stringPlace (top - s.size) (s' :: ss) (ss.length + 1 - 1) =
          top - s.size - stringBytes (s' :: ss) := ih (by omega) (Nat.succ_pos _)
      change stringPlace (top - s.size) (s' :: ss) (ss.length + 1 - 1) = _
      rw [hrest]
      omega

/-- What the first loop leaves: `f` is memory read at naturals. -/
structure Pushed (f : Nat → U8) (top : Nat) (argv : List CString) (ptrs : List U32) : Prop where
  length : ptrs.length = argv.length
  place : ∀ i (h : i < ptrs.length), ptrs[i] = BitVec.ofNat 32 (stringPlace top argv i)
  held : ∀ i (h : i < argv.length) k (hk : k < argv[i].stored.length),
    f (stringPlace top argv i + k) = argv[i].stored[k]

theorem Pushed.congr {f g : Nat → U8} {top : Nat} {argv : List CString} {ptrs : List U32}
    (h : Pushed f top argv ptrs) (hfit : stringBytes argv ≤ top)
    (hfg : ∀ n, top - stringBytes argv ≤ n → n < top → g n = f n) : Pushed g top argv ptrs := by
  refine ⟨h.length, h.place, fun i hi k hk => ?_⟩
  have hbounds := stringPlace_bounds hfit hi
  rw [CString.length_stored] at hk
  rw [hfg _ (by omega) (by omega)]
  exact h.held i hi k (by rwa [CString.length_stored])

theorem pushStrings_spec (m : Mem) (top : Nat) {argv : List CString}
    (htop : top < 2 ^ 31) (hfit : stringBytes argv ≤ top) :
    (pushStrings m (BitVec.ofNat 32 top) argv).2.1 = BitVec.ofNat 32 (top - stringBytes argv) ∧
      Pushed (pushStrings m (BitVec.ofNat 32 top) argv).1.low top argv
        (pushStrings m (BitVec.ofNat 32 top) argv).2.2 ∧
      ∀ n < 2 ^ 31, n < top - stringBytes argv ∨ top ≤ n →
        (pushStrings m (BitVec.ofNat 32 top) argv).1.low n = m.low n := by
  induction argv generalizing m top with
  | nil =>
    refine ⟨rfl, ⟨rfl, fun i h => ?_, fun i h => ?_⟩, fun n _ _ => rfl⟩
    · exact absurd h (Nat.not_lt_zero i)
    · exact absurd h (Nat.not_lt_zero i)
  | cons s ss ih =>
    rw [stringBytes_cons] at hfit ⊢
    have hsp : BitVec.ofNat 32 top - BitVec.ofNat 32 s.size = BitVec.ofNat 32 (top - s.size) := by
      apply BitVec.eq_of_toNat_eq
      rw [BitVec.toNat_sub, toNat_ofNat_low htop, toNat_ofNat_low (by omega),
        toNat_ofNat_low (by omega)]
      omega
    have hstep : pushStrings m (BitVec.ofNat 32 top) (s :: ss) =
        let r := pushStrings (m.load (BitVec.ofNat 32 (top - s.size)) s.stored)
          (BitVec.ofNat 32 (top - s.size)) ss
        (r.1, r.2.1, BitVec.ofNat 32 (top - s.size) :: r.2.2) := by
      rw [← hsp]
      rfl
    have hsize := s.length_stored
    obtain ⟨hend, hpushed, hkept⟩ :=
      ih (m.load (BitVec.ofNat 32 (top - s.size)) s.stored) (top - s.size) (by omega)
        (by omega)
    rw [hstep]
    refine ⟨?_, ⟨?_, ?_, ?_⟩, ?_⟩
    · rw [← Nat.sub_sub]
      exact hend
    · exact congrArg Nat.succ hpushed.length
    · intro i h
      cases i with
      | zero => rfl
      | succ i => exact hpushed.place i (by simpa using h)
    · intro i hi k hk
      cases i with
      | zero =>
        -- the strings after this one lie below it
        have hk' : k < s.stored.length := hk
        change Mem.low _ (top - s.size + k) = s.stored[k]
        rw [hkept _ (by omega) (by omega)]
        exact Mem.low_load (by omega) hk'
      | succ i => exact hpushed.held i (by simpa using hi) k hk
    · intro n hn hout
      rw [hkept n hn (by omega), Mem.low_load_of_outside (by omega) hn (by omega)]

/-! ## The table below them -/

theorem toNat_and_not_seven (a : U32) : (a &&& ~~~(7 : U32)).toNat = a.toNat / 8 * 8 := by
  have hshift : a &&& ~~~(7 : U32) = (a >>> 3) <<< 3 := by
    ext i hi
    interval_cases i <;> simp
  rw [hshift]
  simp only [BitVec.toNat_shiftLeft, BitVec.toNat_ushiftRight, Nat.shiftLeft_eq,
    Nat.shiftRight_eq_div_pow]
  omega

theorem and_not_seven_ofNat {n : Nat} (hn : n < 2 ^ 31) :
    BitVec.ofNat 32 n &&& ~~~(7 : U32) = BitVec.ofNat 32 (n / 8 * 8) := by
  apply BitVec.eq_of_toNat_eq
  rw [toNat_and_not_seven, toNat_ofNat_low hn, toNat_ofNat_low (by omega)]

theorem covers_ofNat {a n : Nat} {b : U32} :
    Covers (BitVec.ofNat 32 a) n b ↔ ∃ k, a ≤ k ∧ k < a + n ∧ b = BitVec.ofNat 32 k := by
  constructor
  · rintro ⟨k, hk, rfl⟩
    exact ⟨a + k, by omega, by omega, byteAddr_ofNat a k⟩
  · rintro ⟨k, hle, hlt, rfl⟩
    refine ⟨k - a, by omega, ?_⟩
    rw [byteAddr_ofNat, Nat.add_sub_cancel' hle]

theorem blocksApart_iff {a n a' n' : Nat} (ha : a + n ≤ 2 ^ 31) (ha' : a' + n' ≤ 2 ^ 31)
    (hn : 0 < n) (hn' : 0 < n') :
    BlocksApart (BitVec.ofNat 32 a) n (BitVec.ofNat 32 a') n' ↔ a + n ≤ a' ∨ a' + n' ≤ a := by
  unfold BlocksApart
  constructor
  · intro h
    by_contra hnot
    -- the higher of the two starts lies in both
    have hcommon := h (BitVec.ofNat 32 (max a a')) (covers_ofNat.2 ⟨max a a', by omega, by omega, rfl⟩)
    exact hcommon (covers_ofNat.2 ⟨max a a', by omega, by omega, rfl⟩)
  · intro h b hb hb'
    obtain ⟨k, hlo, hhi, rfl⟩ := covers_ofNat.1 hb
    obtain ⟨k', hlo', hhi', heq⟩ := covers_ofNat.1 hb'
    have hkk := ofNat_low_inj (by omega) (by omega) heq
    omega

/-- The words both loaders store first. -/
def tableWords (argv : List CString) (ptrs : List U32) : List U32 :=
  BitVec.ofNat 32 argv.length :: ptrs ++ [0]

theorem argvWord_ofNat (m : Mem) (s i : Nat) :
    argvWord m (BitVec.ofNat 32 s) i = m.r32 (BitVec.ofNat 32 (s + 4 * (i + 1))) := by
  have hoff : s + (4 + 4 * i) = s + 4 * (i + 1) := by omega
  rw [argvWord, byteAddr_ofNat, hoff]

section Table

variable {m : Mem} {s top : Nat} {argv : List CString} {ptrs : List U32}

theorem argvWord_of_lt (hlen : ptrs.length = argv.length)
    (hwords : ∀ i (h : i < (tableWords argv ptrs).length),
      m.r32 (BitVec.ofNat 32 (s + 4 * i)) = (tableWords argv ptrs)[i])
    {i : Nat} (hi : i < ptrs.length) : argvWord m (BitVec.ofNat 32 s) i = ptrs[i] := by
  have hin : i + 1 < (tableWords argv ptrs).length := by
    simp only [tableWords, List.length_append, List.length_cons, List.length_nil]
    omega
  rw [argvWord_ofNat, hwords (i + 1) hin]
  exact List.getElem_append_left hi

theorem argvWord_end (hlen : ptrs.length = argv.length)
    (hwords : ∀ i (h : i < (tableWords argv ptrs).length),
      m.r32 (BitVec.ofNat 32 (s + 4 * i)) = (tableWords argv ptrs)[i]) :
    argvWord m (BitVec.ofNat 32 s) argv.length = 0 := by
  have hin : argv.length + 1 < (tableWords argv ptrs).length := by
    simp only [tableWords, List.length_append, List.length_cons, List.length_nil]
    omega
  rw [argvWord_ofNat, hwords (argv.length + 1) hin]
  exact List.getElem_concat_length (by rw [List.length_cons, hlen]) _

/-- With the strings pushed and the table below them, all that remains is the
word after the table. -/
theorem initialStack_iff (htop : top < 2 ^ 31) (hfit : stringBytes argv ≤ top)
    (hpos : 0 < argv.length) (hs : s % 8 = 0) (hbase : s ≤ top - stringBytes argv) (hroom : s + 4 * (argv.length + 3) ≤ 2 ^ 31)
    (hpushed : Pushed m.low top argv ptrs)
    (hwords : ∀ i (h : i < (tableWords argv ptrs).length),
      m.r32 (BitVec.ofNat 32 (s + 4 * i)) = (tableWords argv ptrs)[i]) :
    InitialStack m (BitVec.ofNat 32 s) argv ↔
      s + 4 * (argv.length + 3) ≤ top - stringBytes argv ∧
        m.r32 (BitVec.ofNat 32 (s + 4 * (argv.length + 2))) = 0 := by
  have hptr : ∀ i (h : i < argv.length), argvWord m (BitVec.ofNat 32 s) i =
      BitVec.ofNat 32 (stringPlace top argv i) := by
    intro i hi
    have hi' : i < ptrs.length := by rwa [hpushed.length]
    rw [argvWord_of_lt hpushed.length hwords hi', hpushed.place i hi']
  have henv : argvWord m (BitVec.ofNat 32 s) (argv.length + 1) =
      m.r32 (BitVec.ofNat 32 (s + 4 * (argv.length + 2))) := argvWord_ofNat m s _
  have hlow : (BitVec.ofNat 32 s).toNat = s := toNat_ofNat_low (by omega)
  have hsize : ∀ t : CString, 0 < t.size := fun t => Nat.succ_pos _
  constructor
  · intro h
    refine ⟨?_, henv ▸ h.endEnv⟩
    -- the last string is the lowest, and the table lies below it
    have hlast : argv.length - 1 < argv.length := by omega
    have happart := h.tableApart _ hlast
    have hbounds := stringPlace_bounds hfit hlast
    rw [hptr _ hlast, blocksApart_iff hroom (by omega) (by omega) (hsize _),
      stringPlace_last hfit hpos] at happart
    rw [stringPlace_last hfit hpos] at hbounds
    have hlastSize := hsize argv[argv.length - 1]
    omega
  · rintro ⟨hbelow, hzero⟩
    refine ⟨?_, ?_, argvWord_end hpushed.length hwords, henv.trans hzero, ?_, ?_, ?_⟩
    · exact hwords 0 (by simp [tableWords])
    · intro i hi k hk
      have hbounds := stringPlace_bounds hfit hi
      rw [hptr i hi, byteAddr_ofNat]
      exact hpushed.held i hi k hk
    · rw [hlow]
      exact hs
    · intro i hi
      have hbounds := stringPlace_bounds hfit hi
      rw [hptr i hi, blocksApart_iff hroom (by omega) (by omega) (hsize _)]
      omega
    · intro i j hi hj hij
      have hbi := stringPlace_bounds hfit hi
      have hbj := stringPlace_bounds hfit hj
      rw [hptr i hi, hptr j hj, blocksApart_iff (by omega) (by omega) (hsize _) (hsize _)]
      rcases Nat.lt_or_gt_of_ne hij with hlt | hgt
      · exact .inr (stringPlace_below hfit hlt hj)
      · exact .inl (stringPlace_below hfit hgt hi)

end Table

/-! ## The two loaders compared -/

/-- The strings with the count, the pointers and both NULLs fit below
`STACK_TOP`, and `ptr` has room for the pointers. -/
structure StackFits (argv : List CString) : Prop where
  some : 1 ≤ argv.length
  slots : argv.length ≤ 63
  strings : stringBytes argv ≤ 0x7FFF0000
  table : 4 * (argv.length + 3) ≤ (0x7FFF0000 - stringBytes argv) / 8 * 8

/-- The 8-aligned address under the strings. -/
def stringBase (argv : List CString) : Nat := (0x7FFF0000 - stringBytes argv) / 8 * 8

def tableBase (argv : List CString) : Nat :=
  (stringBase argv - 4 * (argv.length + 2)) / 8 * 8

/-- The word that follows the table. -/
def envWord (argv : List CString) : Nat :=
  if argv.length % 2 = 1 then stringBase argv - 4 else stringBase argv

theorem alignedBelow {argv : List CString} (h : StackFits argv) {n : Nat}
    (hn : 4 * n ≤ stringBase argv) :
    (BitVec.ofNat 32 (0x7FFF0000 - stringBytes argv) &&& ~~~(7 : U32)) - BitVec.ofNat 32 (4 * n) &&&
        ~~~(7 : U32) = BitVec.ofNat 32 ((stringBase argv - 4 * n) / 8 * 8) := by
  have hstrings := h.strings
  have hbase : stringBase argv < 2 ^ 31 := by
    unfold stringBase
    omega
  have hround : BitVec.ofNat 32 (0x7FFF0000 - stringBytes argv) &&& ~~~(7 : U32) =
      BitVec.ofNat 32 (stringBase argv) := and_not_seven_ofNat (by omega)
  have hsub : BitVec.ofNat 32 (stringBase argv) - BitVec.ofNat 32 (4 * n) =
      BitVec.ofNat 32 (stringBase argv - 4 * n) := by
    apply BitVec.eq_of_toNat_eq
    rw [BitVec.toNat_sub, toNat_ofNat_low hbase, toNat_ofNat_low (by omega),
      toNat_ofNat_low (by omega)]
    omega
  rw [hround, hsub, and_not_seven_ofNat (by omega)]

theorem buildStack_eq (m : Mem) {argv : List CString} (h : StackFits argv) :
    let r := pushStrings m (BitVec.ofNat 32 0x7FFF0000) argv
    buildStack m argv =
      (r.1.storeWords (BitVec.ofNat 32 (tableBase argv)) (tableWords argv r.2.2),
        BitVec.ofNat 32 (tableBase argv)) := by
  intro r
  have hstrings := h.strings
  have htable := h.table
  obtain ⟨hend, hpushed, -⟩ := pushStrings_spec m 0x7FFF0000 (by omega) hstrings
  have hle : 4 * (argv.length + 2) ≤ stringBase argv := by
    unfold stringBase
    omega
  have hcount : 1 + argv.length + 1 = argv.length + 2 := by omega
  have hsp : (r.2.1 &&& ~~~(7 : U32)) - BitVec.ofNat 32 (4 * (1 + argv.length + 1)) &&&
      ~~~(7 : U32) = BitVec.ofNat 32 (tableBase argv) := by
    rw [hend, hcount]
    exact alignedBelow h hle
  have hwords : r.1.storeWords (BitVec.ofNat 32 (tableBase argv)) (tableWords argv r.2.2) =
      ((r.1.w32 (BitVec.ofNat 32 (tableBase argv)) (BitVec.ofNat 32 argv.length)).storeWords
        (BitVec.ofNat 32 (tableBase argv) + 4) r.2.2).w32
        (BitVec.ofNat 32 (tableBase argv) + 4 + BitVec.ofNat 32 (4 * argv.length)) 0 := by
    rw [tableWords, List.cons_append, Mem.storeWords, Mem.storeWords_append, hpushed.length]
  rw [hwords, ← hsp]
  rfl

/-- What follows the table of `build_stack` is zero and free of string bytes. -/
def EnvClear (m : Mem) (argv : List CString) : Prop :=
  (argv.length % 2 = 1 ∨ 1 ≤ stringBytes argv % 8 ∧ stringBytes argv % 8 ≤ 4) ∧
    m.r32 (BitVec.ofNat 32 (envWord argv)) = 0

theorem tableBase_facts {argv : List CString} (h : StackFits argv) :
    tableBase argv % 8 = 0 ∧
      tableBase argv + 4 * (argv.length + 2) = envWord argv ∧
      envWord argv ≤ stringBase argv ∧
      stringBase argv ≤ 0x7FFF0000 - stringBytes argv := by
  have htable := h.table
  unfold envWord tableBase stringBase
  split <;> omega

/-- The word after the table lies below the strings exactly for these sizes. -/
theorem envWord_below_iff {argv : List CString} (h : StackFits argv) :
    envWord argv + 4 ≤ 0x7FFF0000 - stringBytes argv ↔
      argv.length % 2 = 1 ∨ 1 ≤ stringBytes argv % 8 ∧ stringBytes argv % 8 ≤ 4 := by
  have hstrings := h.strings
  have htable := h.table
  unfold envWord stringBase
  split <;> omega

/-- The strings and the words of a table below them, after both are stored. -/
theorem stored_table (m : Mem) {argv : List CString} {s : Nat} (h : StackFits argv)
    (ws : List U32) (hws : s + 4 * ws.length ≤ 0x7FFF0000 - stringBytes argv) :
    let r := pushStrings m (BitVec.ofNat 32 0x7FFF0000) argv
    let m' := r.1.storeWords (BitVec.ofNat 32 s) ws
    Pushed m'.low 0x7FFF0000 argv r.2.2 ∧
      (∀ i (hi : i < ws.length), m'.r32 (BitVec.ofNat 32 (s + 4 * i)) = ws[i]) ∧
      ∀ n, s + 4 * ws.length ≤ n → n < 0x7FFF0000 - stringBytes argv → m'.low n = m.low n := by
  intro r m'
  obtain ⟨-, hpushed, hkept⟩ := pushStrings_spec m 0x7FFF0000 (by omega) h.strings
  refine ⟨hpushed.congr h.strings fun n hlo hhi => ?_, fun i hi => ?_, fun n hlo hhi => ?_⟩
  · exact Mem.low_storeWords_of_outside (by omega) (by omega) (by omega)
  · exact Mem.r32_storeWords (by omega) hi
  · exact (Mem.low_storeWords_of_outside (by omega) (by omega) (by omega)).trans
      (hkept n (by omega) (by omega))

/-- `build_stack` writes no NULL for the environment: the stack it leaves is
well formed exactly when padding follows the argument pointers and held zero
before. -/
theorem buildStack_initial_iff (m : Mem) (argv : List CString) (h : StackFits argv) :
    InitialStack (buildStack m argv).1 (buildStack m argv).2 argv ↔ EnvClear m argv := by
  obtain ⟨haligned, hend, henv, hbase⟩ := tableBase_facts h
  have htable := h.table
  have hlen : (tableWords argv
      (pushStrings m (BitVec.ofNat 32 0x7FFF0000) argv).2.2).length = argv.length + 2 := by
    obtain ⟨-, hpushed, -⟩ := pushStrings_spec m 0x7FFF0000 (by omega) h.strings
    rw [tableWords, List.length_append, List.length_cons, hpushed.length]
    rfl
  obtain ⟨hpushed, hwords, hkept⟩ := stored_table m h (s := tableBase argv)
    (tableWords argv (pushStrings m (BitVec.ofNat 32 0x7FFF0000) argv).2.2) (by omega)
  rw [hlen] at hkept
  rw [buildStack_eq m h, initialStack_iff (by omega) h.strings h.some haligned (by omega)
    (by omega) hpushed hwords, EnvClear, ← envWord_below_iff h, hend]
  have hnext : tableBase argv + 4 * (argv.length + 3) = envWord argv + 4 := by omega
  rw [hnext]
  apply and_congr_right
  intro hbelow
  have hsame : ∀ k < 4, _ = m.low (envWord argv + k) :=
    fun k hk => hkept (envWord argv + k) (by omega) (by omega)
  rw [Mem.r32_congr_low hsame]

/-- The reference loader's stack is well formed whatever memory held. -/
theorem referenceBuildStack_initial (m : Mem) (argv : List CString) (h : StackFits argv) :
    InitialStack (referenceBuildStack m argv []).1 (referenceBuildStack m argv []).2 argv := by
  have htable := h.table
  have hbase : stringBase argv ≤ 0x7FFF0000 - stringBytes argv := Nat.div_mul_le_self _ _
  have hle : 4 * (argv.length + 3) ≤ stringBase argv := htable
  obtain ⟨hend, hpushed, -⟩ := pushStrings_spec m 0x7FFF0000 (by omega) h.strings
  let r := pushStrings m (BitVec.ofNat 32 0x7FFF0000) argv
  let s := (stringBase argv - 4 * (argv.length + 3)) / 8 * 8
  have htake : r.2.2.take argv.length = r.2.2 := List.take_of_length_le hpushed.length.le
  have hdrop : r.2.2.drop argv.length = [] := List.drop_of_length_le hpushed.length.le
  have hwordsEq : BitVec.ofNat 32 argv.length :: r.2.2.take argv.length ++ [0] ++
      r.2.2.drop argv.length ++ [0] = tableWords argv r.2.2 ++ [0] := by
    rw [htake, hdrop, List.append_nil]
    rfl
  have hlen : (tableWords argv r.2.2).length = argv.length + 2 := by
    rw [tableWords, List.length_append, List.length_cons, hpushed.length]
    rfl
  have hlen' : (tableWords argv r.2.2 ++ [0]).length = argv.length + 3 := by
    rw [List.length_append, hlen]
    rfl
  have heq : referenceBuildStack m argv [] =
      (r.1.storeWords (BitVec.ofNat 32 s) (tableWords argv r.2.2 ++ [0]), BitVec.ofNat 32 s) := by
    have hrun : pushStrings m STACK_TOP (argv ++ []) = r := by
      rw [List.append_nil]
      rfl
    have hsp : r.2.1 = BitVec.ofNat 32 (0x7FFF0000 - stringBytes argv) := hend
    unfold referenceBuildStack
    simp only [hrun]
    rw [hwordsEq, hlen', hsp, alignedBelow h hle]
  obtain ⟨hpushed', hwords, -⟩ := stored_table m h (s := s) (tableWords argv r.2.2 ++ [0])
    (by omega)
  have hwords' : ∀ i (hi : i < (tableWords argv r.2.2).length),
      (r.1.storeWords (BitVec.ofNat 32 s) (tableWords argv r.2.2 ++ [0])).r32
        (BitVec.ofNat 32 (s + 4 * i)) = (tableWords argv r.2.2)[i] := by
    intro i hi
    rw [hwords i (by omega)]
    exact List.getElem_append_left hi
  rw [heq, initialStack_iff (by omega) h.strings h.some (by omega) (by omega) (by omega) hpushed'
    hwords']
  refine ⟨by omega, ?_⟩
  rw [hwords (argv.length + 2) (by omega)]
  exact List.getElem_concat_length hlen.symm _

def lsArgs : List CString := [⟨[0x6C, 0x73], by decide⟩, ⟨[0x2D, 0x6C], by decide⟩]

/-- `ls -l`: the word after the table begins with padding and ends in `-l`. -/
theorem buildStack_ls_no_env : StackFits lsArgs ∧
    ¬ InitialStack (buildStack (Mem.blank false) lsArgs).1 (buildStack (Mem.blank false) lsArgs).2 lsArgs := by
  refine ⟨⟨by decide, by decide, by decide, by decide⟩, fun h => ?_⟩
  have hword : argvWord (buildStack (Mem.blank false) lsArgs).1 (buildStack (Mem.blank false) lsArgs).2 3 =
      0x2D6C := by decide +kernel
  have hzero : argvWord (buildStack (Mem.blank false) lsArgs).1 (buildStack (Mem.blank false) lsArgs).2 3 = 0 :=
    h.endEnv
  rw [hword] at hzero
  exact absurd hzero (by decide)

def lsRootArgs : List CString :=
  [⟨[0x6C, 0x73], by decide⟩, ⟨[0x2D, 0x6C], by decide⟩, ⟨[0x2F], by decide⟩]

theorem lsRootArgs_clear : EnvClear (Mem.blank false) lsRootArgs :=
  ⟨.inl (by decide), by decide +kernel⟩

/-- `ls -l /`: three arguments, and the padding is the environment's NULL. -/
theorem buildStack_initial_ls : InitialStack (buildStack (Mem.blank false) lsRootArgs).1
    (buildStack (Mem.blank false) lsRootArgs).2 lsRootArgs :=
  (buildStack_initial_iff (Mem.blank false) lsRootArgs
    ⟨by decide, by decide, by decide, by decide⟩).2 lsRootArgs_clear

end Nx88
