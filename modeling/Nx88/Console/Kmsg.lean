import Nx88.Machine
import Nx88.Lib.Text
import Mathlib.Data.List.Flatten
/-!
# The kernel's own messages

`kmsg.c`: the characters the kernel's `putchar` gets are assembled into lines,
those for the console and those for the log apart.  A log line is dropped when
it is the line the console showed last, and only that one line is remembered.
-/

namespace Nx88

open Lib.Text

def KMSG_MAX : Nat := 512

/-! ## Colour -/

/-- Case-insensitive substring search. -/
def hasCi (hay needle : List U8) : Bool := strstr (hay.map tolower) (needle.map tolower)

/-- Which lines get which colour: the first match wins. -/
def kmsgSgr (s : List U8) : Option (List U8) :=
  if strstr s (ascii "TC2000") then some (ascii "1;97")
  else if hasCi s (ascii "panic") ∨ hasCi s (ascii "warning") ∨ hasCi s (ascii "error") ∨
      hasCi s (ascii "failed") then some (ascii "1;33")
  else if s[0]? = some 0x3C ∧ (s[1]?.any isdigit) ∧ s[2]? = some 0x3E then some (ascii "2")
  else none

/-- What is written for the line `s`. -/
def kmsgText (color : Bool) (s : List U8) : List U8 :=
  match (if color then kmsgSgr s else none) with
  | some sgr =>
    0x1B :: ascii "[" ++ sgr ++ ascii "m[nx] " ++ s ++ 0x1B :: ascii "[0m" ++ [0x0A]
  | none => ascii "[nx] " ++ s ++ [0x0A]

/-! ## Line assembly -/

structure KmsgState where
  /-- `kmsg_cons` and `kmsg_log` up to their lengths; neither ever holds a NUL -/
  buf : Bool → List U8
  last : List U8
  /-- what has gone to `stdout` -/
  out : List U8

namespace KmsgState

def initial : KmsgState := ⟨fun _ => [], [], []⟩

def setBuf (k : KmsgState) (isLog : Bool) (b : List U8) : KmsgState :=
  { k with buf := Function.update k.buf isLog b }

end KmsgState

def kmsgLine (color : Bool) (k : KmsgState) (s : List U8) (isLog : Bool) : KmsgState :=
  if isLog ∧ s = k.last then k
  else
    { k with
      out := k.out ++ kmsgText color s
      last := if isLog then k.last else s.take (KMSG_MAX - 1) }

def kmsgPutchar (color : Bool) (k : KmsgState) (c : U8) (flags : U32) : KmsgState :=
  let isLog : Bool := flags &&& 1 = 0
  let buf := k.buf isLog
  if c = 0x0A ∨ KMSG_MAX - 1 ≤ buf.length then
    let k := if buf ≠ [] then kmsgLine color k buf isLog else k
    k.setBuf isLog (if c ≠ 0x0A ∧ c ≠ 0 then [c] else [])
  else if c = 0x0D ∨ c = 0 then k
  else k.setBuf isLog (buf ++ [c])

def kmsgFlush (color : Bool) (k : KmsgState) : KmsgState :=
  let flushOne (k : KmsgState) (isLog : Bool) : KmsgState :=
    if k.buf isLog ≠ [] then (kmsgLine color k (k.buf isLog) isLog).setBuf isLog [] else k
  flushOne (flushOne k false) true

/-! ## Messages -/

/-- One line of a message, without its newline. -/
structure KLine where
  chars : List U8
  nonempty : chars ≠ []
  short : chars.length < 511
  plain : ∀ c ∈ chars, c ≠ 0x0A ∧ c ≠ 0x0D ∧ c ≠ 0

/-- `printf` gives its message to both streams, `log` to the second only. -/
inductive KMessage where
  | printf (lines : List KLine)
  | log (lines : List KLine)

namespace KMessage

def lines : KMessage → List KLine
  | printf ls => ls
  | log ls => ls

end KMessage

def lineChars (ls : List KLine) : List U8 := ls.flatMap fun l => l.chars ++ [0x0A]

def putchars (color : Bool) (k : KmsgState) (flags : U32) (cs : List U8) : KmsgState :=
  cs.foldl (fun k c => kmsgPutchar color k c flags) k

def sendMessage (color : Bool) (k : KmsgState) : KMessage → KmsgState
  | .printf ls => putchars color (putchars color k 1 (lineChars ls)) 4 (lineChars ls)
  | .log ls => putchars color k 4 (lineChars ls)

def sendMessages (color : Bool) (k : KmsgState) (ms : List KMessage) : KmsgState :=
  ms.foldl (sendMessage color) k

def linesText (color : Bool) (ls : List KLine) : List U8 :=
  ls.flatMap fun l => kmsgText color l.chars

/-! ## One line -/

/-- Both assemblers are between lines. -/
def KmsgState.Idle (k : KmsgState) : Prop := ∀ isLog, k.buf isLog = []

theorem kmsgFlush_of_idle (color : Bool) {k : KmsgState} (h : k.Idle) : kmsgFlush color k = k := by
  unfold kmsgFlush
  simp only [h false, h true, ne_eq, not_true_eq_false, if_false]

theorem setBuf_of_idle {k : KmsgState} (h : k.Idle) (isLog : Bool) (b : List U8) :
    (k.setBuf isLog b).setBuf isLog [] = k := by
  have hbuf : Function.update (Function.update k.buf isLog b) isLog [] = k.buf := by
    rw [Function.update_idem, ← h isLog, Function.update_eq_self]
  unfold KmsgState.setBuf
  rw [hbuf]

theorem kmsgLine_setBuf (color : Bool) (k : KmsgState) (s b : List U8) (isLog : Bool) :
    kmsgLine color (k.setBuf isLog b) s isLog = (kmsgLine color k s isLog).setBuf isLog b := by
  unfold kmsgLine
  change (if isLog = true ∧ s = k.last then _ else _) = _
  split
  · rfl
  · rfl

theorem kmsgLine_idle (color : Bool) {k : KmsgState} (s : List U8) (isLog : Bool) (h : k.Idle) :
    (kmsgLine color k s isLog).Idle := by
  unfold kmsgLine
  split
  · exact h
  · exact h

def streamFlags (isLog : Bool) : U32 := if isLog then 4 else 1

theorem isLog_streamFlags (isLog : Bool) : (decide (streamFlags isLog &&& 1 = 0)) = isLog := by
  cases isLog <;> rfl

theorem putchars_plain (color : Bool) (k : KmsgState) (isLog : Bool) {cs : List U8}
    (hplain : ∀ c ∈ cs, c ≠ 0x0A ∧ c ≠ 0x0D ∧ c ≠ 0)
    (hshort : (k.buf isLog).length + cs.length < 512) :
    putchars color k (streamFlags isLog) cs = k.setBuf isLog (k.buf isLog ++ cs) := by
  induction cs generalizing k with
  | nil =>
    rw [List.append_nil, KmsgState.setBuf, Function.update_eq_self]
    rfl
  | cons c cs ih =>
    obtain ⟨hlf, hcr, hnul⟩ := hplain c List.mem_cons_self
    rw [List.length_cons] at hshort
    have hroom : ¬(c = 0x0A ∨ KMSG_MAX - 1 ≤ (k.buf isLog).length) := by
      rintro (h | h)
      · exact hlf h
      · change 511 ≤ _ at h
        omega
    have hstep : kmsgPutchar color k c (streamFlags isLog) =
        k.setBuf isLog (k.buf isLog ++ [c]) := by
      unfold kmsgPutchar
      simp only [isLog_streamFlags]
      rw [if_neg hroom, if_neg (by rintro (h | h); exacts [hcr h, hnul h])]
    have hbuf : (k.setBuf isLog (k.buf isLog ++ [c])).buf isLog = k.buf isLog ++ [c] :=
      Function.update_self ..
    change putchars color (kmsgPutchar color k c (streamFlags isLog)) _ cs = _
    rw [hstep, ih _ (fun d hd => hplain d (List.mem_cons_of_mem c hd)), hbuf, List.append_assoc]
    · unfold KmsgState.setBuf
      rw [Function.update_idem]
      rfl
    · rw [hbuf, List.length_append, List.length_singleton]
      omega

theorem putchars_line (color : Bool) {k : KmsgState} (isLog : Bool) (l : KLine) (h : k.Idle) :
    putchars color k (streamFlags isLog) (l.chars ++ [0x0A]) = kmsgLine color k l.chars isLog := by
  have hempty := h isLog
  have hlen := l.short
  have hplain := putchars_plain color k isLog l.plain (by rw [hempty, List.length_nil]; omega)
  rw [hempty, List.nil_append] at hplain
  have happ : putchars color k (streamFlags isLog) (l.chars ++ [0x0A]) =
      kmsgPutchar color (k.setBuf isLog l.chars) 0x0A (streamFlags isLog) := by
    unfold putchars at hplain ⊢
    rw [List.foldl_append, hplain]
    rfl
  have hbuf : (k.setBuf isLog l.chars).buf isLog = l.chars := Function.update_self ..
  rw [happ]
  unfold kmsgPutchar
  simp only [isLog_streamFlags, hbuf, true_or, if_true, ne_eq, l.nonempty, not_false_eq_true,
    not_true_eq_false, false_and, if_false]
  rw [kmsgLine_setBuf]
  exact setBuf_of_idle (kmsgLine_idle color _ _ h) _ _

/-! ## One message -/

def lastShown (last : List U8) (ls : List KLine) : List U8 :=
  (ls.getLast?.map KLine.chars).getD last

theorem lastShown_cons (last : List U8) (l : KLine) (ls : List KLine) :
    lastShown last (l :: ls) = lastShown l.chars ls := by
  cases ls with
  | nil => rfl
  | cons l' ls =>
    unfold lastShown
    rw [List.getLast?_cons_cons]
    rfl

/-- The lines that the log stream still shows after `last`. -/
def unseen (last : List U8) (ls : List KLine) : List KLine :=
  ls.filter fun l => decide (l.chars ≠ last)

theorem kmsgLine_console (color : Bool) (k : KmsgState) (l : KLine) :
    kmsgLine color k l.chars false =
      { k with out := k.out ++ kmsgText color l.chars, last := l.chars } := by
  have hlen := l.short
  have htake : l.chars.take (KMSG_MAX - 1) = l.chars := by
    apply List.take_of_length_le
    change l.chars.length ≤ 511
    omega
  unfold kmsgLine
  rw [if_neg (by simp), htake]
  rfl

theorem kmsgLine_log (color : Bool) (k : KmsgState) (l : KLine) :
    kmsgLine color k l.chars true =
      { k with out := k.out ++ linesText color (unseen k.last [l]) } := by
  unfold kmsgLine unseen linesText
  by_cases hseen : l.chars = k.last
  · rw [if_pos ⟨rfl, hseen⟩, List.filter_cons_of_neg (by simpa using hseen)]
    simp
  · rw [if_neg (fun h => hseen h.2), List.filter_cons_of_pos (by simpa using hseen)]
    simp

theorem putchars_append (color : Bool) (k : KmsgState) (flags : U32) (cs ds : List U8) :
    putchars color k flags (cs ++ ds) = putchars color (putchars color k flags cs) flags ds :=
  List.foldl_append

theorem putchars_console (color : Bool) {k : KmsgState} (ls : List KLine) (h : k.Idle) :
    putchars color k 1 (lineChars ls) =
      { k with out := k.out ++ linesText color ls, last := lastShown k.last ls } := by
  induction ls generalizing k with
  | nil => simp [putchars, lineChars, linesText, lastShown]
  | cons l ls ih =>
    have hline : putchars color k 1 (l.chars ++ [0x0A]) = kmsgLine color k l.chars false :=
      putchars_line color false l h
    have hidle := kmsgLine_idle color l.chars false h
    rw [kmsgLine_console] at hline hidle
    change putchars color k 1 (l.chars ++ [0x0A] ++ lineChars ls) = _
    rw [putchars_append, hline, ih hidle, lastShown_cons]
    simp [linesText]

theorem putchars_log (color : Bool) {k : KmsgState} (ls : List KLine) (h : k.Idle) :
    putchars color k 4 (lineChars ls) =
      { k with out := k.out ++ linesText color (unseen k.last ls) } := by
  induction ls generalizing k with
  | nil => simp [putchars, lineChars, linesText, unseen]
  | cons l ls ih =>
    have hline : putchars color k 4 (l.chars ++ [0x0A]) = kmsgLine color k l.chars true :=
      putchars_line color true l h
    have hidle := kmsgLine_idle color l.chars true h
    have hsplit : unseen k.last (l :: ls) = unseen k.last [l] ++ unseen k.last ls := by
      unfold unseen
      rw [← List.filter_append]
      rfl
    rw [kmsgLine_log] at hline hidle
    change putchars color k 4 (l.chars ++ [0x0A] ++ lineChars ls) = _
    rw [putchars_append, hline, ih hidle, hsplit]
    simp [linesText]

/-- The remembered line after a message. -/
def lastAfter (last : List U8) : KMessage → List U8
  | .printf ls => lastShown last ls
  | .log _ => last

/-- What a message shows. -/
def shownFor (last : List U8) : KMessage → List KLine
  | .printf ls => ls ++ unseen (lastShown last ls) ls
  | .log ls => unseen last ls

theorem sendMessage_eq (color : Bool) {k : KmsgState} (m : KMessage) (h : k.Idle) :
    sendMessage color k m =
      { k with
        out := k.out ++ linesText color (shownFor k.last m)
        last := lastAfter k.last m } := by
  cases m with
  | printf ls =>
    have hconsole := putchars_console color ls h
    have hidle : (putchars color k 1 (lineChars ls)).Idle := by
      rw [hconsole]
      exact h
    rw [sendMessage, putchars_log color ls hidle, hconsole]
    simp [linesText, shownFor, lastAfter]
  | log ls => exact putchars_log color ls h

/-! ## Exactly once -/

theorem kmsgText_ne_nil (color : Bool) (s : List U8) : kmsgText color s ≠ [] := by
  unfold kmsgText
  split
  · simp
  · simp

theorem linesText_eq_nil {color : Bool} {ls : List KLine} :
    linesText color ls = [] ↔ ls = [] := by
  cases ls with
  | nil => simp [linesText]
  | cons l ls => simp [linesText, kmsgText_ne_nil]

theorem length_unseen_le (color : Bool) (last : List U8) (ls : List KLine) :
    (linesText color (unseen last ls)).length ≤ (linesText color ls).length := by
  apply List.Sublist.length_le
  exact (List.filter_sublist (p := fun l : KLine => decide (l.chars ≠ last)) (l := ls)).flatMap _

theorem linesText_unseen_eq_iff {color : Bool} {last : List U8} {ls : List KLine} :
    linesText color (unseen last ls) = linesText color ls ↔ ∀ l ∈ ls, l.chars ≠ last := by
  constructor
  · intro h
    induction ls with
    | nil => exact fun l hl => absurd hl List.not_mem_nil
    | cons l ls ih =>
      by_cases hseen : l.chars = last
      · have hdrop : unseen last (l :: ls) = unseen last ls :=
          List.filter_cons_of_neg (by simpa using hseen)
        have hle := length_unseen_le color last ls
        have hpos := List.length_pos_iff.2 (kmsgText_ne_nil color l.chars)
        have hlen := congrArg List.length h
        rw [hdrop] at hlen
        change _ = (kmsgText color l.chars ++ linesText color ls).length at hlen
        rw [List.length_append] at hlen
        omega
      · have hkeep : unseen last (l :: ls) = l :: unseen last ls :=
          List.filter_cons_of_pos (by simpa using hseen)
        rw [hkeep] at h
        have hrest : linesText color (unseen last ls) = linesText color ls :=
          List.append_cancel_left h
        rw [List.forall_mem_cons]
        exact ⟨hseen, ih hrest⟩
  · intro h
    have hall : unseen last ls = ls :=
      List.filter_eq_self.2 fun l hl => decide_eq_true (h l hl)
    rw [hall]

/-- Every line of a `printf` message is the remembered one by the time its log
copy comes; a `log` message has no line that is. -/
def OnceAfter (last : List U8) : KMessage → Prop
  | .printf ls => ∀ l ∈ ls, l.chars = lastShown last ls
  | .log ls => ∀ l ∈ ls, l.chars ≠ last

theorem shownFor_eq_iff (color : Bool) {last : List U8} {m : KMessage} :
    linesText color (shownFor last m) = linesText color m.lines ↔ OnceAfter last m := by
  cases m with
  | printf ls =>
    have hsplit : linesText color (shownFor last (.printf ls)) =
        linesText color ls ++ linesText color (unseen (lastShown last ls) ls) :=
      List.flatMap_append
    change _ = linesText color ls ↔ _
    rw [hsplit, List.append_right_eq_self, linesText_eq_nil]
    unfold unseen OnceAfter
    rw [List.filter_eq_nil_iff]
    simp
  | log ls => exact linesText_unseen_eq_iff

/-- No message of the sequence is repeated or dropped, from `last` on. -/
def AllOnce (last : List U8) : List KMessage → Prop
  | [] => True
  | m :: ms => OnceAfter last m ∧ AllOnce (lastAfter last m) ms

theorem sendMessages_once_iff (color : Bool) {k : KmsgState} (ms : List KMessage) (h : k.Idle) :
    (∀ n, (sendMessages color k (ms.take n)).out =
        k.out ++ linesText color ((ms.take n).flatMap KMessage.lines)) ↔ AllOnce k.last ms := by
  induction ms generalizing k with
  | nil => simp [sendMessages, linesText, AllOnce]
  | cons m ms ih =>
    have hidle : (sendMessage color k m).Idle := by
      rw [sendMessage_eq color m h]
      exact h
    have hout : (sendMessage color k m).out = k.out ++ linesText color (shownFor k.last m) := by
      rw [sendMessage_eq color m h]
    have hlast : (sendMessage color k m).last = lastAfter k.last m := by
      rw [sendMessage_eq color m h]
    have hrest := ih hidle
    rw [hlast] at hrest
    have hlines : ∀ n, linesText color (((m :: ms).take (n + 1)).flatMap KMessage.lines) =
        linesText color m.lines ++ linesText color ((ms.take n).flatMap KMessage.lines) := by
      intro n
      rw [List.take_succ_cons, List.flatMap_cons]
      exact List.flatMap_append
    rw [AllOnce, ← hrest, ← shownFor_eq_iff color, hout]
    constructor
    · intro hall
      have hfirst : linesText color (shownFor k.last m) = linesText color m.lines := by
        have hone := hall 1
        rw [hlines 0] at hone
        change (sendMessage color k m).out = _ at hone
        rw [hout] at hone
        simpa [linesText] using List.append_cancel_left hone
      refine ⟨hfirst, fun n => ?_⟩
      have hn := hall (n + 1)
      rw [hlines n] at hn
      rw [hfirst, List.append_assoc]
      exact hn
    · rintro ⟨hfirst, hlater⟩ n
      cases n with
      | zero => simp [sendMessages, linesText]
      | succ n =>
        rw [hlines n, ← List.append_assoc, ← hfirst]
        exact hlater n

/-- The kernel's messages are shown exactly once, at every point of the sequence
and nothing left over, exactly when the lines of each `printf` message are all
one text and no line of a `log` message is the line the console showed last. -/
theorem kmsg_shown_once_iff (color : Bool) (ms : List KMessage) :
    (∀ n, (kmsgFlush color (sendMessages color KmsgState.initial (ms.take n))).out =
        linesText color ((ms.take n).flatMap KMessage.lines)) ↔ AllOnce [] ms := by
  have hidle : ∀ (k : KmsgState) (ms : List KMessage), k.Idle → (sendMessages color k ms).Idle := by
    intro k ms h
    induction ms generalizing k with
    | nil => exact h
    | cons m ms ih =>
      apply ih
      rw [sendMessage_eq color m h]
      exact h
  have hinit : KmsgState.initial.Idle := fun _ => rfl
  have hflush : ∀ n, kmsgFlush color (sendMessages color KmsgState.initial (ms.take n)) =
      sendMessages color KmsgState.initial (ms.take n) :=
    fun n => kmsgFlush_of_idle color (hidle _ _ hinit)
  simp only [hflush]
  exact sendMessages_once_iff color ms hinit

def twoLines : KMessage :=
  .printf [⟨[0x61], by decide, by decide, by decide⟩, ⟨[0x62], by decide, by decide, by decide⟩]

theorem twoLines_shown_twice :
    (kmsgFlush false (sendMessages false KmsgState.initial [twoLines])).out ≠
      linesText false ([twoLines].flatMap KMessage.lines) := by
  decide +kernel

end Nx88
