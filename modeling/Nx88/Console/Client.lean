import Nx88.Console.Telnet
/-!
# The telnet client

What a client sends for a list of keystrokes, with telnet commands among them,
and the telnet parser over it.
-/

namespace Nx88.Console

/-! ## The client -/

/-- How the client ends a line. -/
inductive Ending where
  | nul
  | lf
  /-- nothing behind the CR -/
  | bare
deriving Repr, DecidableEq

inductive Verb where
  | will
  | wont
  | do_
  | dont
deriving Repr, DecidableEq

def Verb.code : Verb → U8
  | will => 251
  | wont => 252
  | do_ => 253
  | dont => 254

/-- What a client sends: a keystroke, or a telnet command. -/
inductive Sent where
  | key (k : U8) (h : k ≠ CR)
  | ret (ending : Ending)
  | option (verb : Verb) (opt : U8)
  | sub (content : List U8)
  | command (cmd : U8) (h : cmd < SB)
deriving DecidableEq

/-- A byte of data: IAC is doubled. -/
def escape (b : U8) : List U8 := if b = IAC then [IAC, IAC] else [b]

namespace Sent

/-- The keystroke sent, if it is one. -/
def key? : Sent → Option U8
  | key k _ => some k
  | ret _ => some CR
  | _ => none

def tail : Sent → List U8
  | ret .nul => [0]
  | ret .lf => [LF]
  | _ => []

def encode : Sent → List U8
  | key k _ => escape k
  | ret .nul => [CR, 0]
  | ret .lf => [CR, LF]
  | ret .bare => [CR]
  | option verb opt => [IAC, verb.code, opt]
  | sub content => [IAC, SB] ++ content.flatMap escape ++ [IAC, SE]
  | command cmd _ => [IAC, cmd]

end Sent

def encodeAll (sent : List Sent) : List U8 := sent.flatMap Sent.encode

def keystrokes (sent : List Sent) : List U8 := sent.filterMap Sent.key?

/-- A CR goes bare only before a keystroke that is neither NUL nor LF. -/
def Sound : List Sent → Prop
  | [] => True
  | s :: rest =>
    (s = .ret .bare →
      (keystrokes rest).head? ≠ some 0 ∧ (keystrokes rest).head? ≠ some LF) ∧ Sound rest

instance Sound.decidable : (sent : List Sent) → Decidable (Sound sent)
  | [] => .isTrue trivial
  | _ :: rest => @instDecidableAnd _ _ _ (Sound.decidable rest)

def next : List Sent → Option (Sent × List Sent)
  | [] => none
  | s :: rest =>
    match s.key? with
    | some _ => some (s, rest)
    | none => next rest

/-! ## What the client sends -/

theorem encodeAll_cons (s : Sent) (sent : List Sent) :
    encodeAll (s :: sent) = s.encode ++ encodeAll sent := rfl

theorem encode_of_key {s : Sent} {k : U8} (hk : s.key? = some k) :
    s.encode = escape k ++ s.tail := by
  cases s with
  | key k' h => cases hk; exact (List.append_nil _).symm
  | ret ending => cases hk; cases ending <;> rfl
  | option | sub | command => cases hk

theorem next_key {sent rest : List Sent} {s : Sent} (h : next sent = some (s, rest)) :
    ∃ k, s.key? = some k ∧ keystrokes sent = k :: keystrokes rest := by
  induction sent with
  | nil => cases h
  | cons s' sent ih =>
    unfold next at h
    cases hk : s'.key? with
    | some k =>
      rw [hk] at h
      cases h
      exact ⟨k, hk, List.filterMap_cons_some hk⟩
    | none =>
      rw [hk] at h
      obtain ⟨k, hs, hrest⟩ := ih h
      exact ⟨k, hs, (List.filterMap_cons_none hk).trans hrest⟩

theorem keystrokes_of_next_none {sent : List Sent} (h : next sent = none) :
    keystrokes sent = [] := by
  induction sent with
  | nil => rfl
  | cons s sent ih =>
    unfold next at h
    cases hk : s.key? with
    | some k => rw [hk] at h; cases h
    | none =>
      rw [hk] at h
      exact (List.filterMap_cons_none hk).trans (ih h)

theorem sound_of_next {sent rest : List Sent} {s : Sent} (hs : Sound sent)
    (h : next sent = some (s, rest)) : Sound (s :: rest) := by
  induction sent with
  | nil => cases h
  | cons s' sent ih =>
    unfold next at h
    cases hk : s'.key? with
    | some k => rw [hk] at h; cases h; exact hs
    | none => rw [hk] at h; exact ih hs.2 h

theorem next_cons {s : Sent} {k : U8} (hk : s.key? = some k) (rest : List Sent) :
    next (s :: rest) = some (s, rest) := by
  rw [next, hk]

/-! ## The byte source and the telnet parser -/

namespace Con

theorem conRecvRaw_cons {c : Con} {b : U8} {rest : List U8} (h : c.held = b :: rest) :
    ∃ d, c.conRecvRaw = (some b, d) ∧ d.held = rest := by
  unfold held at h
  unfold conRecvRaw
  cases hp : c.pushback with
  | some b' =>
    rw [hp] at h
    obtain ⟨rfl, hwire⟩ := List.cons.inj h
    exact ⟨_, rfl, hwire⟩
  | none =>
    rw [hp] at h
    rw [show c.wire = b :: rest from h]
    exact ⟨_, rfl, by simp [held]⟩

theorem conRecvRaw_nil {c : Con} (h : c.held = []) :
    ∃ d, c.conRecvRaw = (none, d) ∧ d.held = [] := by
  obtain ⟨hp, hw⟩ := List.append_eq_nil_iff.1 h
  have hpush : c.pushback = none := by
    cases hc : c.pushback with
    | none => rfl
    | some b => rw [hc] at hp; cases hp
  unfold conRecvRaw
  rw [hpush, hw]
  exact ⟨_, rfl, rfl⟩

theorem conRecvRaw_pushback {c d : Con} {b : Option U8} (h : c.conRecvRaw = (b, d)) :
    d.pushback = none := by
  unfold conRecvRaw at h
  split at h
  · obtain ⟨-, rfl⟩ := Prod.mk.inj h
    rfl
  · rename_i hp
    split at h
    all_goals
      obtain ⟨-, rfl⟩ := Prod.mk.inj h
      exact hp

theorem conRecvRaw_two {c : Con} {a b : U8} {rest : List U8} (h : c.held = a :: b :: rest) :
    ∃ c₁ c₂, c.conRecvRaw = (some a, c₁) ∧ c₁.conRecvRaw = (some b, c₂) ∧ c₂.held = rest := by
  obtain ⟨c₁, h₁, hheld₁⟩ := conRecvRaw_cons h
  obtain ⟨c₂, h₂, hheld₂⟩ := conRecvRaw_cons hheld₁
  exact ⟨c₁, c₂, h₁, h₂, hheld₂⟩

/-- A subnegotiation is skipped whatever bytes it carries. -/
theorem skipSub_content {c : Con} {n : Nat} (content rest : List U8)
    (h : c.held = content.flatMap escape ++ [IAC, SE] ++ rest) (hn : c.held.length < n) :
    ∃ d, c.skipSub n = (true, d) ∧ d.held = rest := by
  induction content generalizing c n with
  | nil =>
    obtain ⟨n, rfl⟩ : ∃ m, n = m + 1 := ⟨n - 1, by omega⟩
    obtain ⟨c₁, c₂, h₁, h₂, hheld⟩ := conRecvRaw_two h
    refine ⟨c₂, ?_, hheld⟩
    simp only [skipSub, h₁, h₂, if_true]
  | cons b content ih =>
    obtain ⟨n, rfl⟩ : ∃ m, n = m + 1 := ⟨n - 1, by omega⟩
    by_cases hb : b = IAC
    · have hdata : c.held = IAC :: IAC :: (content.flatMap escape ++ [IAC, SE] ++ rest) := by
        rw [h, List.flatMap_cons, escape, if_pos hb]
        rfl
      rw [hdata, List.length_cons, List.length_cons] at hn
      obtain ⟨c₁, c₂, h₁, h₂, hheld⟩ := conRecvRaw_two hdata
      obtain ⟨d, hd, hrest⟩ := ih (n := n) hheld (by rw [hheld]; omega)
      refine ⟨d, ?_, hrest⟩
      rw [skipSub, h₁]
      simp only [h₂, if_true, show ¬ IAC = SE by decide, if_false]
      exact hd
    · have hdata : c.held = b :: (content.flatMap escape ++ [IAC, SE] ++ rest) := by
        rw [h, List.flatMap_cons, escape, if_neg hb]
        rfl
      rw [hdata, List.length_cons] at hn
      obtain ⟨c₁, h₁, hheld⟩ := conRecvRaw_cons hdata
      obtain ⟨d, hd, hrest⟩ := ih (n := n) hheld (by rw [hheld]; omega)
      refine ⟨d, ?_, hrest⟩
      rw [skipSub, h₁]
      simp only [hb, if_false]
      exact hd

theorem inByteLoop_command {c : Con} {s : Sent} {rest : List U8} {n : Nat}
    (hs : s.key? = none) (h : c.held = s.encode ++ rest) (hn : c.held.length < n) :
    ∃ (d : Con) (m : Nat), c.inByteLoop n = d.inByteLoop m ∧ d.held = rest ∧ rest.length < m := by
  obtain ⟨n, rfl⟩ : ∃ m, n = m + 1 := ⟨n - 1, by omega⟩
  rw [h, List.length_append] at hn
  cases s with
  | key | ret => cases hs
  | option verb opt =>
    obtain ⟨c₁, c₂, h₁, h₂, hheld₂⟩ := conRecvRaw_two h
    obtain ⟨c₃, h₃, hheld₃⟩ := conRecvRaw_cons hheld₂
    refine ⟨c₃, n, ?_, hheld₃, ?_⟩
    · rw [inByteLoop, h₁]
      cases verb
      all_goals simp [h₂, h₃, Verb.code, IAC]
    · simp only [Sent.encode, List.length_cons, List.length_nil] at hn
      omega
  | sub content =>
    have hdata : c.held = IAC :: SB :: (content.flatMap escape ++ [IAC, SE] ++ rest) := by
      rw [h, Sent.encode]
      simp only [List.append_assoc, List.cons_append, List.nil_append]
    obtain ⟨c₁, c₂, h₁, h₂, hheld₂⟩ := conRecvRaw_two hdata
    simp only [Sent.encode, List.length_append, List.length_cons, List.length_nil] at hn
    have hlen : c₂.held.length < n := by
      rw [hheld₂]
      simp only [List.length_append, List.length_cons, List.length_nil]
      omega
    obtain ⟨d, hd, hrest⟩ := skipSub_content content rest hheld₂ hlen
    refine ⟨d, n, ?_, hrest, by omega⟩
    rw [inByteLoop, h₁]
    simp [h₂, hd, IAC, SB]
  | command cmd hcmd =>
    obtain ⟨c₁, c₂, h₁, h₂, hheld₂⟩ := conRecvRaw_two h
    refine ⟨c₂, n, ?_, hheld₂, ?_⟩
    · have hlt : cmd.toNat < 250 := hcmd
      have hiac : ¬ cmd = IAC := by rintro rfl; exact absurd hlt (by decide)
      have hsb : ¬ cmd = SB := by rintro rfl; exact absurd hlt (by decide)
      have hverb : ¬ (251 ≤ cmd ∧ cmd ≤ 254) := by
        rintro ⟨hle, -⟩
        have hge : 251 ≤ cmd.toNat := hle
        omega
      rw [inByteLoop, h₁]
      simp only [h₂, hiac, hsb, hverb, ne_eq, not_true_eq_false, if_false]
    · simp only [Sent.encode, List.length_cons, List.length_nil] at hn
      omega

theorem inByteLoop_plain {c : Con} {b : U8} {rest : List U8} (n : Nat) (hb : b ≠ IAC)
    (h : c.held = b :: rest) : ∃ d, c.inByteLoop (n + 1) = (some b, d) ∧ d.held = rest := by
  obtain ⟨d, hd, hrest⟩ := conRecvRaw_cons h
  refine ⟨d, ?_, hrest⟩
  rw [inByteLoop, hd]
  simp only [hb, ne_eq, not_false_eq_true, if_true]

theorem inByteLoop_escape {c : Con} {k : U8} {rest : List U8} (n : Nat)
    (h : c.held = escape k ++ rest) : ∃ d, c.inByteLoop (n + 1) = (some k, d) ∧ d.held = rest := by
  by_cases hk : k = IAC
  · subst hk
    obtain ⟨c₁, c₂, h₁, h₂, hheld⟩ := conRecvRaw_two h
    refine ⟨c₂, ?_, hheld⟩
    rw [inByteLoop, h₁]
    simp [h₂]
  · rw [escape, if_neg hk] at h
    exact inByteLoop_plain n hk h

theorem inByteLoop_next {c : Con} {sent rest : List Sent} {s : Sent} {k : U8} {n : Nat}
    (h : c.held = encodeAll sent) (hn : c.held.length < n)
    (hnext : next sent = some (s, rest)) (hk : s.key? = some k) :
    ∃ d, c.inByteLoop n = (some k, d) ∧ d.held = s.tail ++ encodeAll rest := by
  induction sent generalizing c n with
  | nil => cases hnext
  | cons s' sent ih =>
    rw [encodeAll_cons] at h
    unfold next at hnext
    cases hk' : s'.key? with
    | some k' =>
      rw [hk'] at hnext
      cases hnext
      rw [encode_of_key hk, List.append_assoc] at h
      obtain ⟨n, rfl⟩ : ∃ m, n = m + 1 := ⟨n - 1, by omega⟩
      exact inByteLoop_escape n h
    | none =>
      rw [hk'] at hnext
      obtain ⟨c₁, m, h₁, hheld₁, hm⟩ := inByteLoop_command hk' h hn
      rw [h₁]
      exact ih hheld₁ (by rw [hheld₁]; exact hm) hnext

theorem inByteLoop_end {c : Con} {sent : List Sent} {n : Nat}
    (h : c.held = encodeAll sent) (hn : c.held.length < n) (hnext : next sent = none) :
    ∃ d, c.inByteLoop n = (none, d) ∧ d.held = [] := by
  induction sent generalizing c n with
  | nil =>
    obtain ⟨n, rfl⟩ : ∃ m, n = m + 1 := ⟨n - 1, by omega⟩
    obtain ⟨d, hd, hrest⟩ := conRecvRaw_nil h
    refine ⟨d, ?_, hrest⟩
    rw [inByteLoop, hd]
  | cons s sent ih =>
    rw [encodeAll_cons] at h
    unfold next at hnext
    cases hk : s.key? with
    | some k => rw [hk] at hnext; cases hnext
    | none =>
      rw [hk] at hnext
      obtain ⟨c₁, m, h₁, hheld₁, hm⟩ := inByteLoop_command hk h hn
      rw [h₁]
      exact ih hheld₁ (by rw [hheld₁]; exact hm) hnext

theorem conInByte_next {c : Con} {sent rest : List Sent} {s : Sent} {k : U8}
    (h : c.held = encodeAll sent) (hnext : next sent = some (s, rest)) (hk : s.key? = some k) :
    ∃ d, c.conInByte = (some k, d) ∧ d.held = s.tail ++ encodeAll rest :=
  inByteLoop_next h (Nat.lt_succ_self _) hnext hk

theorem conInByte_end {c : Con} {sent : List Sent} (h : c.held = encodeAll sent)
    (hnext : next sent = none) : ∃ d, c.conInByte = (none, d) ∧ d.held = [] :=
  inByteLoop_end h (Nat.lt_succ_self _) hnext

theorem skipSub_pushback {c d : Con} {n : Nat} {b : Bool} (hc : c.pushback = none)
    (h : c.skipSub n = (b, d)) : d.pushback = none := by
  induction n generalizing c with
  | zero => cases h; exact hc
  | succ n ih =>
    unfold skipSub at h
    cases h₁ : c.conRecvRaw with
    | mk o₁ c₁ =>
      have hc₁ := conRecvRaw_pushback h₁
      cases h₂ : c₁.conRecvRaw with
      | mk o₂ c₂ =>
        have hc₂ := conRecvRaw_pushback h₂
        rw [h₁] at h
        cases o₁ with
        | none => cases h; exact hc₁
        | some e =>
          dsimp only at h
          split at h
          · rw [h₂] at h
            cases o₂ with
            | none => cases h; exact hc₂
            | some e' =>
              dsimp only at h
              split at h
              · cases h; exact hc₂
              · exact ih hc₂ h
          · exact ih hc₁ h

theorem inByteLoop_pushback {c d : Con} {n : Nat} {b : Option U8}
    (hc : c.pushback = none ∨ 0 < n) (h : c.inByteLoop n = (b, d)) : d.pushback = none := by
  induction n generalizing c with
  | zero =>
    cases h
    exact hc.resolve_right (lt_irrefl 0)
  | succ n ih =>
    unfold inByteLoop at h
    cases h₁ : c.conRecvRaw with
    | mk o₁ c₁ =>
      have hc₁ := conRecvRaw_pushback h₁
      cases h₂ : c₁.conRecvRaw with
      | mk o₂ c₂ =>
        have hc₂ := conRecvRaw_pushback h₂
        rw [h₁] at h
        cases o₁ with
        | none => cases h; exact hc₁
        | some e =>
          dsimp only at h
          split at h
          · cases h; exact hc₁
          · rw [h₂] at h
            cases o₂ with
            | none => cases h; exact hc₂
            | some e' =>
              dsimp only at h
              split at h
              · cases h; exact hc₂
              · split at h
                · exact ih (.inl (conRecvRaw_pushback (Prod.eta c₂.conRecvRaw).symm)) h
                · split at h
                  · cases h₃ : c₂.skipSub n with
                    | mk o₃ c₃ =>
                      have hc₃ := skipSub_pushback hc₂ h₃
                      rw [h₃] at h
                      cases o₃ with
                      | false => cases h; exact hc₃
                      | true => exact ih (.inl hc₃) h
                  · exact ih (.inl hc₂) h

theorem conRecvRaw_length {c d : Con} {o : Option U8} (h : c.conRecvRaw = (o, d)) :
    c.held.length = d.held.length + o.toList.length := by
  cases hc : c.held with
  | nil =>
    obtain ⟨d', hd, hrest⟩ := conRecvRaw_nil hc
    obtain ⟨rfl, rfl⟩ := Prod.mk.inj (h.symm.trans hd)
    rw [hrest]
    rfl
  | cons b rest =>
    obtain ⟨d', hd, hrest⟩ := conRecvRaw_cons hc
    obtain ⟨rfl, rfl⟩ := Prod.mk.inj (h.symm.trans hd)
    rw [hrest]
    rfl

theorem skipSub_length (c : Con) (n : Nat) : (c.skipSub n).2.held.length ≤ c.held.length := by
  induction n generalizing c with
  | zero => exact le_refl _
  | succ n ih =>
    unfold skipSub
    cases h₁ : c.conRecvRaw with
    | mk o₁ c₁ =>
      have hlen₁ := conRecvRaw_length h₁
      cases h₂ : c₁.conRecvRaw with
      | mk o₂ c₂ =>
        have hlen₂ := conRecvRaw_length h₂
        have hc₁ := ih c₁
        have hc₂ := ih c₂
        cases o₁ with
        | none => dsimp only; omega
        | some d =>
          dsimp only
          split
          · rw [h₂]
            cases o₂ with
            | none => dsimp only; omega
            | some e =>
              dsimp only
              split
              · dsimp only; omega
              · omega
          · omega

theorem inByteLoop_length {c d : Con} {b : U8} {n : Nat} (h : c.inByteLoop n = (some b, d)) :
    d.held.length < c.held.length := by
  induction n generalizing c with
  | zero => cases h
  | succ n ih =>
    unfold inByteLoop at h
    cases h₁ : c.conRecvRaw with
    | mk o₁ c₁ =>
      have hlen₁ := conRecvRaw_length h₁
      cases h₂ : c₁.conRecvRaw with
      | mk o₂ c₂ =>
        have hlen₂ := conRecvRaw_length h₂
        have hlen₃ := conRecvRaw_length (Prod.eta c₂.conRecvRaw).symm
        have hsub := skipSub_length c₂ n
        rw [h₁] at h
        cases o₁ with
        | none => cases h
        | some e =>
          simp only [Option.toList_some, List.length_singleton] at hlen₁
          dsimp only at h
          split at h
          · cases h; omega
          · rw [h₂] at h
            cases o₂ with
            | none => cases h
            | some e' =>
              dsimp only at h
              split at h
              · cases h; omega
              · split at h
                · have := ih h; omega
                · split at h
                  · cases h₃ : c₂.skipSub n with
                    | mk o₃ c₃ =>
                      rw [h₃] at h hsub
                      cases o₃ with
                      | false => cases h
                      | true =>
                        have := ih h
                        dsimp only at hsub
                        omega
                  · have := ih h; omega

theorem cookLoop_enough {c : Con} {n m : Nat} (cap : Nat) (dst : List U8)
    (hn : c.held.length < n) (hm : c.held.length < m) :
    c.cookLoop cap dst n = c.cookLoop cap dst m := by
  induction n generalizing c m dst with
  | zero => omega
  | succ n ih =>
    obtain ⟨m, rfl⟩ : ∃ k, m = k + 1 := ⟨m - 1, by omega⟩
    unfold cookLoop
    cases hin : c.conInByte with
    | mk o d =>
      cases o with
      | none => rfl
      | some b =>
        have hlen : d.held.length < c.held.length := inByteLoop_length hin
        dsimp only
        rw [ih (m := m) _ (by omega) (by omega)]

@[simp] theorem conInputReady_held (c : Con) : c.conInputReady.2.held = c.held := by
  unfold conInputReady conInputAvail
  dsimp only
  split
  all_goals rfl

/-! ## A buffered line -/

theorem conSockRead_fresh {c : Con} (max : Nat) (h : c.line = []) :
    c.conSockRead max =
      ⟨(c.conCookLine CON_LINE).dst.take max, (c.conCookLine CON_LINE).taken,
        { (c.conCookLine CON_LINE).con with
          line := (c.conCookLine CON_LINE).dst.drop max }⟩ := by
  rw [conSockRead, h]

theorem conSockRead_left {c : Con} (max : Nat) (h : c.line ≠ []) :
    c.conSockRead max = ⟨c.line.take max, [], { c with line := c.line.drop max }⟩ := by
  unfold conSockRead
  split
  · contradiction
  · rfl

/-! ## Past a CR -/

theorem absorb_pair {c : Con} {b : U8} {rest : List U8} (h : c.held = b :: rest)
    (hb : b = 0 ∨ b = LF) : c.absorb.held = rest := by
  have hiac : b ≠ IAC := by rcases hb with rfl | rfl <;> decide
  obtain ⟨d, hd, hrest⟩ := inByteLoop_plain c.held.length hiac h
  have hkeep : ¬ (b ≠ LF ∧ b ≠ 0) := by
    rintro ⟨hlf, hnul⟩
    exact hb.elim hnul hlf
  rw [absorb, show c.conInByte = (some b, d) from hd]
  simp only [hkeep, if_false]
  exact hrest

theorem absorb_next {c : Con} {sent rest : List Sent} {s : Sent} {k : U8}
    (h : c.held = encodeAll sent) (hnext : next sent = some (s, rest)) (hk : s.key? = some k)
    (hnul : k ≠ 0) (hlf : k ≠ LF) : c.absorb.held = k :: (s.tail ++ encodeAll rest) := by
  obtain ⟨d, hd, hrest⟩ := conInByte_next h hnext hk
  rw [absorb, hd]
  simp only [ne_eq, hlf, hnul, not_false_eq_true, and_self, if_true]
  have hd' : d.pushback = none := inByteLoop_pushback (.inr (Nat.succ_pos _)) hd
  rw [← hrest, held, held, hd']
  rfl

theorem absorb_end {c : Con} {sent : List Sent} (h : c.held = encodeAll sent)
    (hnext : next sent = none) : c.absorb.held = [] := by
  obtain ⟨d, hd, hrest⟩ := conInByte_end h hnext
  rw [absorb, hd]
  exact hrest

/-- Reading on past a RETURN leaves the keystrokes behind it, unless a bare CR
is read past onto a 0xFF. -/
theorem absorb_ending {c : Con} {ending : Ending} {rest : List Sent}
    (h : c.held = (Sent.ret ending).tail ++ encodeAll rest) (hs : Sound (.ret ending :: rest))
    (hff : ending = .bare → (keystrokes rest).head? ≠ some IAC) :
    ∃ sent, c.absorb.held = encodeAll sent ∧ next sent = next rest := by
  cases ending with
  | nul => exact ⟨rest, absorb_pair h (.inl rfl), rfl⟩
  | lf => exact ⟨rest, absorb_pair h (.inr rfl), rfl⟩
  | bare =>
    cases hnext : next rest with
    | none => exact ⟨[], absorb_end h hnext, rfl⟩
    | some found =>
      obtain ⟨s, rest'⟩ := found
      obtain ⟨k, hk, hkeys⟩ := next_key hnext
      obtain ⟨hnul, hlf⟩ := hs.1 rfl
      have hiac := hff rfl
      rw [hkeys] at hnul hlf hiac
      have hk0 : k ≠ 0 := fun h => hnul (by rw [h]; rfl)
      have hklf : k ≠ LF := fun h => hlf (by rw [h]; rfl)
      have hkff : k ≠ IAC := fun h => hiac (by rw [h]; rfl)
      refine ⟨s :: rest', ?_, next_cons hk rest'⟩
      rw [absorb_next h hnext hk hk0 hklf, encodeAll_cons, encode_of_key hk, escape, if_neg hkff,
        List.append_assoc]
      rfl

end Con

end Nx88.Console
