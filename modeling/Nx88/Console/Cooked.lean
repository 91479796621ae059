import Nx88.Console.Client
import Nx88.Lib.Records
/-!
# Cooked lines

A line editor over the bytes as they come, one state and one byte at a time, and
the cooked reader against it: however the guest cuts its reads, they return the
editor's lines.
-/

namespace Nx88.Console

open Lib.Records

def EOT : U8 := 4
def BS : U8 := 8
def DEL : U8 := 127

/-! ## The editor -/

/-- A line in the making; `cr` while the byte behind a CR may still belong to it. -/
structure Editor where
  line : List U8
  cr : Bool
deriving DecidableEq, Repr

namespace Editor

def blank : Editor := ⟨[], false⟩

/-- The line keeps its first 4100 bytes. -/
def add (line : List U8) (b : U8) : List U8 :=
  if line.length < 4100 then line ++ [b] else line

def step (e : Editor) (b : U8) : Editor × Option (List U8) :=
  if e.cr = true ∧ (b = LF ∨ b = 0) then (⟨e.line, false⟩, none)
  else if b = CR then (⟨[], true⟩, some (add e.line LF))
  else if b = LF then (blank, some (add e.line LF))
  else if b = EOT then (blank, some e.line)
  else if b = DEL ∨ b = BS then (⟨e.line.dropLast, false⟩, none)
  else if b = 0 then (⟨e.line, false⟩, none)
  else (⟨add e.line b, false⟩, none)

/-- The lines of a stream; the end of input ends one that was begun. -/
def lines (e : Editor) : List U8 → List (List U8)
  | [] => if e.line = [] then [] else [e.line]
  | b :: stream => (e.step b).2.toList ++ (e.step b).1.lines stream

theorem step_empty_iff (e : Editor) (b : U8) :
    (e.step b).2 = some [] ↔ b = EOT ∧ e.line = [] := by
  have hadd : add e.line LF ≠ [] := by
    rw [add]
    split
    · exact List.append_ne_nil_of_right_ne_nil _ (List.cons_ne_nil _ _)
    · next h =>
      rintro hnil
      rw [hnil] at h
      exact h (by decide)
  have hend : ∀ {x : U8}, b = x → x ≠ EOT → b ≠ EOT := fun hb hx => hb ▸ hx
  rw [step]
  split
  · next h =>
    refine iff_of_false (fun hnone => nomatch hnone) fun heot => ?_
    rcases h.2 with hb | hb
    · exact hend hb (by decide) heot.1
    · exact hend hb (by decide) heot.1
  split
  · next hb => exact iff_of_false (fun h => hadd (Option.some.inj h)) fun h => hend hb (by decide) h.1
  split
  · next hb => exact iff_of_false (fun h => hadd (Option.some.inj h)) fun h => hend hb (by decide) h.1
  split
  · next hb => exact ⟨fun h => ⟨hb, Option.some.inj h⟩, fun h => congrArg some h.2⟩
  · next hb =>
    refine iff_of_false (fun h => ?_) fun h => hb h.1
    split at h
    · exact nomatch h
    · split at h
      · exact nomatch h
      · exact nomatch h

theorem lines_pair {b : U8} (stream : List U8) (hb : b = LF ∨ b = 0) :
    (⟨[], true⟩ : Editor).lines (b :: stream) = blank.lines stream := by
  rw [lines, step, if_pos ⟨rfl, hb⟩]
  rfl

theorem step_free (line : List U8) (b : U8) : (⟨line, false⟩ : Editor).step b =
    if b = CR then (⟨[], true⟩, some (add line LF))
    else if b = LF then (blank, some (add line LF))
    else if b = EOT then (blank, some line)
    else if b = DEL ∨ b = BS then (⟨line.dropLast, false⟩, none)
    else if b = 0 then (⟨line, false⟩, none)
    else (⟨add line b, false⟩, none) :=
  if_neg fun h => nomatch h.1

theorem lines_unpaired {b : U8} (stream : List U8) (hb : ¬(b = LF ∨ b = 0)) :
    (⟨[], true⟩ : Editor).lines (b :: stream) = blank.lines (b :: stream) := by
  have hstep : (⟨[], true⟩ : Editor).step b = blank.step b :=
    (if_neg fun h => hb h.2).trans (step_free [] b).symm
  rw [lines, lines, hstep]

end Editor

namespace Con

/-- The lines still to be read: what is left of the one that is buffered, and those
of the bytes to come. -/
def todo (c : Con) : List (List U8) :=
  (if c.line = [] then [] else [c.line]) ++ Editor.blank.lines c.held

def sockReads (c : Con) : List Nat → List (List U8)
  | [] => []
  | max :: sizes => (c.conSockRead max).dst :: (c.conSockRead max).con.sockReads sizes

variable {c : Con}

theorem conRecvRaw_line (c : Con) : c.conRecvRaw.2.line = c.line := by
  unfold conRecvRaw
  split
  · rfl
  · split
    · rfl
    · rfl

theorem conInByte_plain {b : U8} {rest : List U8} (hb : b ≠ IAC) (h : c.held = b :: rest) :
    ∃ d, c.conInByte = (some b, d) ∧ d.held = rest ∧ d.pushback = none ∧ d.line = c.line := by
  obtain ⟨d, hd, hrest⟩ := conRecvRaw_cons h
  refine ⟨d, ?_, hrest, conRecvRaw_pushback hd, ?_⟩
  · rw [conInByte, inByteLoop, hd]
    simp only [hb, ne_eq, not_false_eq_true, if_true]
  · rw [← conRecvRaw_line c, hd]

theorem conInByte_nil (h : c.held = []) :
    ∃ d, c.conInByte = (none, d) ∧ d.held = [] ∧ d.line = c.line := by
  obtain ⟨d, hd, hrest⟩ := conRecvRaw_nil h
  refine ⟨d, ?_, hrest, ?_⟩
  · rw [conInByte, inByteLoop, hd]
  · rw [← conRecvRaw_line c, hd]

/-- The byte read past a CR is put back unless it belongs to it. -/
theorem absorb_lines (hff : IAC ∉ c.held) :
    Editor.blank.lines c.absorb.held = (⟨[], true⟩ : Editor).lines c.held ∧
      IAC ∉ c.absorb.held ∧ c.absorb.line = c.line := by
  cases hheld : c.held with
  | nil =>
    obtain ⟨d, hd, hnil, hline⟩ := conInByte_nil hheld
    rw [absorb, hd]
    dsimp only
    rw [hnil]
    exact ⟨rfl, List.not_mem_nil, hline⟩
  | cons b rest =>
    rw [hheld] at hff
    obtain ⟨d, hd, hrest, hpush, hline⟩ := conInByte_plain (List.ne_of_not_mem_cons hff).symm hheld
    rw [absorb, hd]
    dsimp only
    split
    · next hb =>
      have hback : held { d with pushback := some b } = b :: rest := by
        rw [← hrest, held, held, hpush]
        rfl
      rw [hback, Editor.lines_unpaired rest (not_or.2 hb)]
      exact ⟨rfl, hff, hline⟩
    · next hb =>
      rw [hrest, Editor.lines_pair rest (by simpa only [not_and_or, not_not] using hb)]
      exact ⟨rfl, fun h => hff (List.mem_cons_of_mem b h), hline⟩

/-- Cooking a line takes the next one of the editor's, unless there is none. -/
theorem cookLoop_lines (dst : List U8) {n : Nat} (hn : c.held.length < n) (hff : IAC ∉ c.held) :
    IAC ∉ (c.cookLoop CON_LINE dst n).con.held ∧
      (c.cookLoop CON_LINE dst n).con.line = c.line ∧
      ((⟨dst, false⟩ : Editor).lines c.held = (c.cookLoop CON_LINE dst n).dst ::
          Editor.blank.lines (c.cookLoop CON_LINE dst n).con.held ∨
        (⟨dst, false⟩ : Editor).lines c.held = [] ∧ (c.cookLoop CON_LINE dst n).dst = [] ∧
          (c.cookLoop CON_LINE dst n).con.held = []) := by
  induction n generalizing c dst with
  | zero => exact absurd hn (Nat.not_lt_zero _)
  | succ n ih =>
    rw [cookLoop]
    cases hheld : c.held with
    | nil =>
      obtain ⟨d, hd, hnil, hline⟩ := conInByte_nil hheld
      rw [hd]
      dsimp only
      rw [hnil, Editor.lines]
      refine ⟨List.not_mem_nil, hline, ?_⟩
      split
      · next hempty => exact .inr ⟨rfl, hempty, rfl⟩
      · exact .inl rfl
    | cons b rest =>
      rw [hheld] at hff hn
      obtain ⟨d, hd, hrest, -, hline⟩ :=
        conInByte_plain (List.ne_of_not_mem_cons hff).symm hheld
      have hff' : IAC ∉ d.held := by
        rw [hrest]
        exact fun h => hff (List.mem_cons_of_mem b h)
      rw [hd, Editor.lines, Editor.step_free]
      dsimp only
      by_cases hcr : b = CR
      · rw [if_pos (.inl hcr), if_pos hcr, if_pos hcr]
        obtain ⟨hlines, habsorbed, hline'⟩ := absorb_lines hff'
        rw [hrest] at hlines
        exact ⟨habsorbed, hline'.trans hline, .inl (congrArg (_ :: ·) hlines.symm)⟩
      rw [if_neg hcr, if_neg hcr]
      by_cases hlf : b = LF
      · rw [if_pos (.inr hlf), if_pos hlf]
        exact ⟨hff', hline, .inl (by rw [hrest]; rfl)⟩
      rw [if_neg (not_or.2 ⟨hcr, hlf⟩), if_neg hlf]
      by_cases heot : b = EOT
      · rw [if_pos (show b = 4 from heot), if_pos heot]
        exact ⟨hff', hline, .inl (by rw [hrest]; rfl)⟩
      rw [if_neg (show ¬b = 4 from heot), if_neg heot]
      -- the byte edits the line, and the loop goes on
      have hedit : (if b = DEL ∨ b = BS then ((⟨dst.dropLast, false⟩ : Editor), (none : Option (List U8)))
          else if b = 0 then (⟨dst, false⟩, none) else (⟨Editor.add dst b, false⟩, none)) =
            (⟨if b = 0 then dst else if b = 0x7F ∨ b = 0x08 then dst.dropLast
              else if dst.length < CON_LINE then dst ++ [b] else dst, false⟩, none) := by
        by_cases hdel : b = DEL ∨ b = BS
        · have hnul : ¬b = 0 := by
            rintro rfl
            exact absurd hdel (by decide)
          rw [if_pos hdel, if_neg hnul, if_pos (show b = 0x7F ∨ b = 0x08 from hdel)]
        · rw [if_neg hdel, if_neg (show ¬(b = 0x7F ∨ b = 0x08) from hdel)]
          split
          · rfl
          · rfl
      rw [hedit]
      dsimp only
      rw [← hline, ← hrest]
      rw [List.length_cons, ← hrest] at hn
      exact ih _ (by omega) hff'

theorem leftover (line : List U8) (max : Nat) (lines : List (List U8)) :
    (if line.drop max = [] then [] else [line.drop max]) ++ lines =
      if line.length ≤ max then lines else line.drop max :: lines := by
  by_cases h : line.length ≤ max
  · rw [if_pos h, if_pos (List.drop_eq_nil_iff.2 h), List.nil_append]
  · rw [if_neg h, if_neg (mt List.drop_eq_nil_iff.1 h), List.singleton_append]

theorem conSockRead_serve (max : Nat) (hff : IAC ∉ c.held) :
    (c.conSockRead max).dst = (serve c.todo max).1 ∧
      (c.conSockRead max).con.todo = (serve c.todo max).2 ∧
      IAC ∉ (c.conSockRead max).con.held := by
  by_cases hline : c.line = []
  · obtain ⟨hff', -, hlines⟩ := cookLoop_lines [] (Nat.lt_succ_self _) hff
    change IAC ∉ (c.conCookLine CON_LINE).con.held at hff'
    rw [conSockRead_fresh max hline, todo, todo, if_pos hline, List.nil_append]
    rcases hlines with hnext | ⟨hnone, hdst, hheld⟩
    · rw [show Editor.blank.lines c.held = _ from hnext, serve]
      exact ⟨rfl, leftover _ max _, hff'⟩
    · rw [show Editor.blank.lines c.held = _ from hnone]
      refine ⟨?_, ?_, hff'⟩
      · dsimp only
        rw [show (c.conCookLine CON_LINE).dst = [] from hdst]
        exact List.take_nil
      · dsimp only
        rw [show (c.conCookLine CON_LINE).dst = [] from hdst, List.drop_nil, if_pos rfl]
        change Editor.blank.lines (c.conCookLine CON_LINE).con.held = []
        rw [show (c.conCookLine CON_LINE).con.held = [] from hheld]
        rfl
  · rw [conSockRead_left max hline, todo, if_neg hline, List.singleton_append, serve]
    exact ⟨rfl, leftover c.line max _, hff⟩

theorem sockReads_returns (sizes : List Nat) (hff : IAC ∉ c.held) :
    c.sockReads sizes = returns c.todo sizes := by
  induction sizes generalizing c with
  | nil => rfl
  | cons max sizes ih =>
    obtain ⟨hdst, htodo, hff'⟩ := conSockRead_serve max hff
    rw [sockReads, returns, hdst, ih hff', htodo]

/-- A console whose client sends `stream` and hangs up, its bytes arriving when
they do. -/
def listening (stream : List U8) (arrived : Nat) (arrivals : List Nat) : Con :=
  ⟨none, stream, arrived, arrivals, false, []⟩

/-- Reads of a stream without 0xFF return the editor's lines: in order, with
nothing lost or repeated, and all of them when there are reads enough; each read
a piece of one line, and nothing only where the input has ended or the next line
is empty, which it is only where ^D ended an empty line. -/
theorem sockReads_lines {stream : List U8} (hff : IAC ∉ stream) (arrived : Nat)
    (arrivals : List Nat) {sizes : List Nat} (hsizes : ∀ max ∈ sizes, 1 ≤ max) :
    ((listening stream arrived arrivals).sockReads sizes).flatten ++
        (left (Editor.blank.lines stream) sizes).flatten =
          (Editor.blank.lines stream).flatten ∧
      (weight (Editor.blank.lines stream) ≤ sizes.length →
        ((listening stream arrived arrivals).sockReads sizes).flatten =
          (Editor.blank.lines stream).flatten) ∧
      (∀ p ∈ (listening stream arrived arrivals).sockReads sizes,
        p = [] ∨ ∃ line ∈ Editor.blank.lines stream, p <:+: line) ∧
      (∀ k, ((listening stream arrived arrivals).sockReads sizes)[k]? = some [] →
        left (Editor.blank.lines stream) (sizes.take k) = [] ∨
          (left (Editor.blank.lines stream) (sizes.take k)).head? = some []) ∧
      ∀ (e : Editor) (b : U8), (e.step b).2 = some [] ↔ b = EOT ∧ e.line = [] := by
  have hreads : (listening stream arrived arrivals).sockReads sizes =
      returns (Editor.blank.lines stream) sizes := sockReads_returns sizes hff
  have hflatten := returns_flatten (Editor.blank.lines stream) sizes
  rw [hreads]
  refine ⟨hflatten, fun henough => ?_, fun p hp => returns_piece hp, fun k hk => ?_,
    Editor.step_empty_iff⟩
  · rw [left_eq_nil hsizes henough] at hflatten
    exact (List.append_nil _).symm.trans hflatten
  · rw [returns_getElem?, Option.map_eq_some_iff] at hk
    obtain ⟨max, hmax, hnil⟩ := hk
    exact (serve_eq_nil (hsizes max (List.mem_of_getElem? hmax))).1 hnil

/-- A line mistyped and a CR NUL behind it, read in pairs. -/
theorem sockReads_mistyped : ((listening [0x6C, 0x78, 0x7F, 0x73, 13, 0, 4, 0x61] 0 []).sockReads
    [2, 2, 2, 2, 2, 2, 2]).flatten = [0x6C, 0x73, 10, 0x61] :=
  (sockReads_lines (by decide) 0 [] (by decide)).2.1 (by decide)

end Con

end Nx88.Console
