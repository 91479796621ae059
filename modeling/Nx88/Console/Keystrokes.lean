import Nx88.Console.Client
import Nx88.Lib.Runs
/-!
# Keystrokes through the console

What the cooked and the raw reader take of what a client sends, however the
bytes arrive.
-/

namespace Nx88.Console

open Lib.Runs

/-! ## Runs of the readers -/

/-- The console, and what the client has sent of which nothing was taken. -/
structure Session where
  con : Con
  sent : List Sent

inductive Turn where
  /-- `con_cook_line` takes a byte -/
  | cook
  /-- `con_in_key` takes a byte -/
  | key
  /-- a look at the socket, of the raw reader or of FIONREAD -/
  | look
  /-- `con_line` filled and drained -/
  | line (bytes : List U8)
  /-- a send that fails sets `con_eof` -/
  | unsent

/-- One pass of `con_cook_line`, as far as its input goes. -/
def Con.cookByte (c : Con) : Option U8 × Con :=
  match c.conInByte with
  | (none, c) => (none, c)
  | (some b, c) => (some b, if b = CR then c.absorb else c)

namespace Turn

def take : Turn → Con → Option U8 × Con
  | cook, c => c.cookByte
  | key, c => c.conInKey
  | look, c => (none, c.conInputReady.2)
  | line bytes, c => (none, { c with line := bytes })
  | unsent, c => (none, { c with eof := true })

def takes : Turn → Bool
  | cook | key => true
  | _ => false

def run (t : Turn) (s : Session) : Session :=
  ⟨(t.take s.con).2,
    if t.takes then ((next s.sent).map Prod.snd).getD [] else s.sent⟩

def taken (t : Turn) (s : Session) : List U8 := (t.take s.con).1.toList

end Turn

def taken (s : Session) (ts : List Turn) : List U8 := trace Turn.run Turn.taken s ts

def Con.fresh (sent : List Sent) (arrivals : List Nat) : Con :=
  ⟨none, encodeAll sent, 0, arrivals, false, []⟩

def Con.readyBehind (c : Con) : Bool := c.conInByte.2.conInputReady.1

/-- Where a keystroke is taken whole: a bare CR is not read past onto a 0xFF,
and the pair of a CR is there when it is looked for. -/
def Turn.Whole (t : Turn) (s : Session) : Prop :=
  match t, next s.sent with
  | .cook, some (.ret .bare, rest) => (keystrokes rest).head? ≠ some IAC
  | .key, some (.ret .bare, rest) =>
    (keystrokes rest).head? = some IAC → s.con.readyBehind = false
  | .key, some (.ret _, _) => s.con.readyBehind = true
  | _, _ => True

instance (t : Turn) (s : Session) : Decidable (t.Whole s) := by
  unfold Turn.Whole
  split
  all_goals infer_instance

/-! ## Runs -/

/-- What the console holds is what the client sent of what was not taken, up to
commands already read past. -/
def Session.Boundary (s : Session) : Prop :=
  ∃ sent, s.con.held = encodeAll sent ∧ next sent = next s.sent

theorem fresh_boundary (sent : List Sent) (arrivals : List Nat) :
    Session.Boundary ⟨.fresh sent arrivals, sent⟩ := ⟨sent, rfl, rfl⟩

theorem take_next {t : Turn} {s : Session} (hs : Sound s.sent) (hb : s.Boundary)
    (hwhole : t.Whole s) (ht : t.takes = true) :
    t.taken s = (keystrokes s.sent).take 1 ∧
      keystrokes (t.run s).sent = (keystrokes s.sent).drop 1 ∧
      Sound (t.run s).sent ∧ (t.run s).Boundary := by
  obtain ⟨sent, hheld, hsame⟩ := hb
  unfold Session.Boundary Turn.taken Turn.run
  rw [ht, if_pos rfl]
  cases hnext : next s.sent with
  | none =>
    rw [hnext] at hsame
    obtain ⟨d, hd, hdheld⟩ := Con.conInByte_end hheld hsame
    rw [keystrokes_of_next_none hnext]
    have htake : t.take s.con = (none, d) := by
      cases t with
      | cook => simp only [Turn.take, Con.cookByte, hd]
      | key => simp only [Turn.take, Con.conInKey, hd]
      | look | line | unsent => cases ht
    rw [htake]
    exact ⟨rfl, rfl, trivial, [], hdheld, rfl⟩
  | some found =>
    obtain ⟨n, rest⟩ := found
    rw [hnext] at hsame
    obtain ⟨k, hk, hkeys⟩ := next_key hnext
    obtain ⟨d, hd, hdheld⟩ := Con.conInByte_next hheld hsame hk
    have hsound := sound_of_next hs hnext
    rw [hkeys]
    suffices hdone : ∃ e, t.take s.con = (some k, e) ∧
        ∃ sent, e.held = encodeAll sent ∧ next sent = next rest by
      obtain ⟨e, htake, hrest⟩ := hdone
      rw [htake]
      exact ⟨rfl, rfl, hsound.2, hrest⟩
    unfold Turn.Whole at hwhole
    rw [hnext] at hwhole
    cases n with
    | option | sub | command => cases hk
    | key k' hcr =>
      cases hk
      refine ⟨d, ?_, rest, hdheld, rfl⟩
      cases t with
      | cook => simp only [Turn.take, Con.cookByte, hd, hcr, if_false]
      | key => simp only [Turn.take, Con.conInKey, hd, hcr, if_false]
      | look | line | unsent => cases ht
    | ret ending =>
      cases hk
      cases t with
      | look | line | unsent => cases ht
      | cook =>
        refine ⟨d.absorb, by simp only [Turn.take, Con.cookByte, hd, if_true], ?_⟩
        refine Con.absorb_ending hdheld hsound fun hbare => ?_
        subst hbare
        exact hwhole
      | key =>
        have hready : s.con.readyBehind = d.conInputReady.1 := by rw [Con.readyBehind, hd]
        rw [hready] at hwhole
        have hheld' : d.conInputReady.2.held = (Sent.ret ending).tail ++ encodeAll rest := by
          rw [Con.conInputReady_held, hdheld]
        simp only [Turn.take, Con.conInKey, hd, if_true]
        cases hr : d.conInputReady.1 with
        | true =>
          refine ⟨_, rfl, Con.absorb_ending hheld' hsound fun hbare => ?_⟩
          subst hbare
          exact fun hff => absurd (hwhole hff) (by rw [hr]; decide)
        | false =>
          -- nothing is looked past: the CR stands alone
          rw [hr] at hwhole
          cases ending with
          | nul => cases hwhole
          | lf => cases hwhole
          | bare => exact ⟨_, rfl, rest, hheld', rfl⟩

theorem other_keeps {t : Turn} {s : Session} (hb : s.Boundary) (ht : t.takes = false) :
    t.taken s = [] ∧ (t.run s).sent = s.sent ∧ (t.run s).Boundary := by
  have hsent : (t.run s).sent = s.sent := by rw [Turn.run, ht]; rfl
  have hheld : (t.run s).con.held = s.con.held := by
    cases t with
    | cook | key => cases ht
    | look => exact Con.conInputReady_held s.con
    | line | unsent => rfl
  refine ⟨?_, hsent, ?_⟩
  · cases t with
    | cook | key => cases ht
    | look | line | unsent => rfl
  · obtain ⟨sent, h, hsame⟩ := hb
    exact ⟨sent, hheld.trans h, hsame.trans (by rw [hsent])⟩

theorem taken_of_boundary {s : Session} {ts : List Turn} (hs : Sound s.sent) (hb : s.Boundary)
    (h : Along Turn.run Turn.Whole s ts) :
    taken s ts = (keystrokes s.sent).take (ts.countP Turn.takes) := by
  induction ts generalizing s with
  | nil => rfl
  | cons t ts ih =>
    obtain ⟨hwhole, hts⟩ := h
    rw [taken, trace_cons]
    cases ht : t.takes with
    | true =>
      obtain ⟨htaken, hkeys, hsound, hb'⟩ := take_next hs hb hwhole ht
      rw [List.countP_cons_of_pos ht, htaken]
      have hrest := ih hsound hb' hts
      rw [hkeys] at hrest
      rw [show trace Turn.run Turn.taken (t.run s) ts = _ from hrest]
      cases keystrokes s.sent with
      | nil => simp
      | cons k ks => simp
    | false =>
      obtain ⟨htaken, hsent, hb'⟩ := other_keeps hb ht
      rw [List.countP_cons_of_neg (by simp [ht]), htaken]
      have hrest := ih (by rw [hsent]; exact hs) hb' hts
      rw [hsent] at hrest
      exact hrest

/-! ## The reads of the guest -/

/-- A read of the console, or a poll. -/
inductive Read where
  /-- `con_sock_read` -/
  | cooked (max : Nat)
  /-- `con_read_raw` -/
  | raw (max : Nat)
  | poll

namespace Read

def take : Read → Con → List U8 × Con
  | cooked max, c => ((c.conSockRead max).taken, (c.conSockRead max).con)
  | raw max, c => c.conReadRaw max
  | poll, c => ([], c.conInputReady.2)

end Read

theorem taken_cons (s : Session) (t : Turn) (ts : List Turn) :
    taken s (t :: ts) = (t.take s.con).1.toList ++ taken (t.run s) ts := rfl

theorem cookLoop_run (s : Session) (cap : Nat) (dst : List U8) (n : Nat) :
    ∃ k, taken s (List.replicate k .cook) = (s.con.cookLoop cap dst n).taken ∧
      (after Turn.run s (List.replicate k .cook)).con = (s.con.cookLoop cap dst n).con := by
  induction n generalizing s dst with
  | zero => exact ⟨0, rfl, rfl⟩
  | succ n ih =>
    unfold Con.cookLoop
    cases hin : s.con.conInByte with
    | mk o d =>
      have htake : Turn.cook.take s.con = (o, if o = some CR then d.absorb else d) := by
        simp only [Turn.take, Con.cookByte, hin]
        cases o with
        | none => rfl
        | some b => simp only [Option.some.injEq]
      cases o with
      | none =>
        refine ⟨1, ?_, ?_⟩
        · rw [List.replicate_one, taken_cons, htake]
          rfl
        · exact congrArg Prod.snd htake
      | some b =>
        dsimp only
        split
        · refine ⟨1, ?_, ?_⟩
          · rw [List.replicate_one, taken_cons, htake]
            rfl
          · refine (congrArg Prod.snd htake).trans ?_
            simp only [Option.some.injEq]
        · rename_i hend
          have hcr : ¬ b = CR := fun h => hend (.inl h)
          have hcon : (Turn.cook.run s).con = d := by
            refine (congrArg Prod.snd htake).trans ?_
            simp only [Option.some.injEq, hcr, if_false]
          split
          · refine ⟨1, ?_, hcon⟩
            rw [List.replicate_one, taken_cons, htake]
            rfl
          · obtain ⟨k, htaken, hafter⟩ := ih (Turn.cook.run s)
              (if b = 0 then dst
                else if b = 0x7F ∨ b = 0x08 then dst.dropLast
                else if dst.length < cap then dst ++ [b] else dst)
            rw [hcon] at htaken hafter
            refine ⟨k + 1, ?_, ?_⟩
            · rw [List.replicate_succ, taken_cons, htaken, htake]
              rfl
            · rw [List.replicate_succ, after_cons, hafter]

theorem readRawLoop_run (s : Session) (n : Nat) :
    ∃ ts, taken s ts = (s.con.readRawLoop n).1 ∧
      (after Turn.run s ts).con = (s.con.readRawLoop n).2 := by
  induction n generalizing s with
  | zero => exact ⟨[], rfl, rfl⟩
  | succ n ih =>
    unfold Con.readRawLoop
    cases hlook : s.con.conInputReady with
    | mk ready d =>
      have hd : (Turn.look.run s).con = d := congrArg Prod.snd hlook
      cases ready with
      | false => exact ⟨[.look], rfl, hd⟩
      | true =>
        dsimp only
        cases hkey : d.conInKey with
        | mk o e =>
          have htake : Turn.key.take (Turn.look.run s).con = (o, e) := by rw [hd]; exact hkey
          have he : (Turn.key.run (Turn.look.run s)).con = e := congrArg Prod.snd htake
          cases o with
          | none =>
            refine ⟨[.look, .key], ?_, he⟩
            rw [taken_cons, taken_cons, htake]
            rfl
          | some b =>
            obtain ⟨ts, htaken, hafter⟩ := ih (Turn.key.run (Turn.look.run s))
            rw [he] at htaken hafter
            refine ⟨.look :: .key :: ts, ?_, hafter⟩
            rw [taken_cons, taken_cons, htaken, htake]
            rfl

theorem read_run (r : Read) (s : Session) :
    ∃ ts, taken s ts = (r.take s.con).1 ∧ (after Turn.run s ts).con = (r.take s.con).2 := by
  cases r with
  | poll => exact ⟨[.look], rfl, rfl⟩
  | cooked max =>
    by_cases hline : s.con.line = []
    · obtain ⟨k, htaken, hafter⟩ :=
        cookLoop_run s Con.CON_LINE [] (s.con.held.length + 1)
      refine ⟨List.replicate k .cook ++
        [.line ((s.con.conCookLine Con.CON_LINE).dst.drop max)], ?_, ?_⟩
      · rw [Read.take, Con.conSockRead_fresh max hline, taken, trace_append]
        exact (List.append_nil _).trans htaken
      · rw [Read.take, Con.conSockRead_fresh max hline, after_append, after_cons, after_nil, Turn.run,
          Turn.take, hafter]
        rfl
    · refine ⟨[.line (s.con.line.drop max)], ?_, ?_⟩
      · rw [Read.take, Con.conSockRead_left max hline]
        rfl
      · rw [Read.take, Con.conSockRead_left max hline]
        rfl
  | raw max =>
    unfold Read.take Con.conReadRaw
    cases max with
    | zero => exact ⟨[], rfl, rfl⟩
    | succ n =>
      dsimp only
      cases hkey : s.con.conInKey with
      | mk o e =>
        have he : (Turn.key.run s).con = e := congrArg Prod.snd hkey
        cases o with
        | none =>
          refine ⟨[.key], ?_, he⟩
          rw [taken_cons, show Turn.key.take s.con = (none, e) from hkey]
          rfl
        | some b =>
          obtain ⟨ts, htaken, hafter⟩ := readRawLoop_run (Turn.key.run s) n
          rw [he] at htaken hafter
          refine ⟨.key :: ts, ?_, hafter⟩
          rw [taken_cons, htaken, show Turn.key.take s.con = (some b, e) from hkey]
          rfl

def takeAll (c : Con) : List Read → List U8 × Con
  | [] => ([], c)
  | r :: rs =>
    let (bytes, c) := r.take c
    let (more, c) := takeAll c rs
    (bytes ++ more, c)

theorem reads_run (rs : List Read) (s : Session) :
    ∃ ts, taken s ts = (takeAll s.con rs).1 ∧
      (after Turn.run s ts).con = (takeAll s.con rs).2 := by
  induction rs generalizing s with
  | nil => exact ⟨[], rfl, rfl⟩
  | cons r rs ih =>
    obtain ⟨ts, htaken, hafter⟩ := read_run r s
    obtain ⟨us, htaken', hafter'⟩ := ih (after Turn.run s ts)
    rw [hafter] at htaken' hafter'
    refine ⟨ts ++ us, ?_, ?_⟩
    · rw [taken, trace_append]
      exact congrArg₂ (· ++ ·) htaken htaken'
    · rw [after_append]
      exact hafter'

/-! ## Keystroke for keystroke -/

/-- Whatever the keystrokes, their encoding, the commands among them and the
timing: while keystrokes are taken whole, the readers take the keystrokes in
order, one for each byte they take. -/
theorem keystrokes_taken (sent : List Sent) (hs : Sound sent) (arrivals : List Nat)
    (ts : List Turn) (h : Along Turn.run Turn.Whole ⟨.fresh sent arrivals, sent⟩ ts) :
    taken ⟨.fresh sent arrivals, sent⟩ ts = (keystrokes sent).take (ts.countP Turn.takes) :=
  taken_of_boundary hs (fresh_boundary sent arrivals) h

/-- Keys of every kind with commands among them, for both readers. -/
def session : List Sent :=
  [.key 0x6C (by decide), .command 241 (by decide), .ret .bare, .option .do_ 255,
    .key 0x78 (by decide), .key 255 (by decide), .sub [255, 240], .ret .nul, .key 0 (by decide)]

theorem session_taken :
    Sound session ∧
      taken ⟨.fresh session [9, 9], session⟩ [.cook, .cook, .cook, .key, .key, .key] =
        [0x6C, 13, 0x78, 255, 13, 0] := by
  refine ⟨by decide, ?_⟩
  exact (keystrokes_taken session (by decide) [9, 9]
    [.cook, .cook, .cook, .key, .key, .key] (by decide)).trans (by decide)

def barePast255 : List Sent :=
  [.ret .bare, .key 255 (by decide), .key 0x78 (by decide), .key 0x79 (by decide)]

def crNul : List Sent := [.ret .nul, .key 0x78 (by decide)]

/-- The cooked reader takes the 0xFF put back for a command; the raw reader, the
NUL of a pair that arrives late for a keystroke. -/
theorem keystrokes_mistaken :
    (Sound barePast255 ∧ keystrokes barePast255 = [13, 255, 0x78, 0x79] ∧
        (takeAll (.fresh barePast255 []) [.cooked 80, .cooked 80]).1 = [13, 0x79]) ∧
      (Sound crNul ∧ keystrokes crNul = [13, 0x78] ∧
        (takeAll (.fresh crNul []) [.raw 1, .raw 1, .raw 1]).1 = [13, 0, 0x78]) ∧
      ¬ (∀ sent arrivals n, Sound sent →
        taken ⟨.fresh sent arrivals, sent⟩ (List.replicate n .cook) =
          (keystrokes sent).take n) ∧
      ¬ (∀ sent arrivals n, Sound sent →
        taken ⟨.fresh sent arrivals, sent⟩ (List.replicate n .key) =
          (keystrokes sent).take n) := by
  have hbare : Sound barePast255 := by decide
  have hpair : Sound crNul := by decide
  refine ⟨⟨hbare, by decide, by decide⟩, ⟨hpair, by decide, by decide⟩, fun h => ?_, fun h => ?_⟩
  · exact absurd (h barePast255 [] 2 hbare) (by decide)
  · exact absurd (h crNul [] 2 hpair) (by decide)

end Nx88.Console
