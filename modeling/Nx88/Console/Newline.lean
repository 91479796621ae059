import Nx88.Console.Write
import Nx88.Reset
/-!
# Newline expansion

`con_sock_write` with its buffer as an array of 2048 bytes: no store is outside of
it, and what is handed to `con_send_raw` depends on the bytes written alone, not on
how they were cut up.
-/

namespace Nx88.Console

/-! ## The buffer -/

/-- `buf` and its fill level `j`. -/
structure SockBuf where
  buf : Vector U8 2048
  j : Nat

namespace SockBuf

/-- `buf[j++] = b`, if `j` is an index of the buffer. -/
def push (s : SockBuf) (b : U8) : Option SockBuf :=
  if h : s.j < 2048 then some ⟨s.buf.set s.j b h, s.j + 1⟩ else none

def filled (s : SockBuf) : List U8 := s.buf.toList.take s.j

def pushByte (s : SockBuf) (b : U8) : Option SockBuf :=
  if b = LF then (s.push CR).bind fun s => s.push LF else s.push b

/-- The rest of the loop and the last flush: what is handed to `con_send_raw`. -/
def writeLoop (s : SockBuf) : List U8 → Option (List (List U8))
  | [] => some (if s.j = 0 then [] else [s.filled])
  | b :: p =>
    match s.pushByte b with
    | none => none
    | some s =>
      if 2048 - 2 ≤ s.j then (writeLoop { s with j := 0 } p).map fun more => s.filled :: more
      else writeLoop s p

end SockBuf

/-- `con_sock_write` on a stack that holds `fresh`; `none` is a store outside of the
buffer. -/
def sockWrite (fresh : Vector U8 2048) (p : List U8) : Option (List (List U8)) :=
  SockBuf.writeLoop ⟨fresh, 0⟩ p

/-! ## Stores -/

namespace SockBuf

variable {s s' : SockBuf} {b : U8}

theorem length_filled (h : s.j ≤ 2048) : s.filled.length = s.j := by
  rw [filled, List.length_take, Vector.length_toList]
  exact Nat.min_eq_left h

theorem push_of_lt (h : s.j < 2048) :
    ∃ s', s.push b = some s' ∧ s'.j = s.j + 1 ∧ s'.filled = s.filled ++ [b] := by
  refine ⟨_, dif_pos h, rfl, ?_⟩
  have hlength : s.j < s.buf.toList.length := by rwa [Vector.length_toList]
  rw [filled, filled, Vector.toList_set, List.take_succ_eq_append_getElem, List.take_set_of_le,
    List.getElem_set_self]
  · exact Nat.le_refl s.j
  · rwa [List.length_set]

theorem pushByte_of_room (h : s.j + 2 ≤ 2048) :
    ∃ s', s.pushByte b = some s' ∧ s'.j ≤ 2048 ∧
      s'.filled = if b = LF then s.filled ++ [CR, LF] else s.filled ++ [b] := by
  unfold pushByte
  by_cases hlf : b = LF
  · obtain ⟨s₁, hs₁, hj₁, hfilled₁⟩ := push_of_lt (s := s) (b := CR) (by omega)
    obtain ⟨s₂, hs₂, hj₂, hfilled₂⟩ := push_of_lt (s := s₁) (b := LF) (by omega)
    refine ⟨s₂, ?_, by omega, ?_⟩
    · rw [if_pos hlf, hs₁]
      exact hs₂
    · rw [if_pos hlf, hfilled₂, hfilled₁, List.append_assoc]
      rfl
  · obtain ⟨s₁, hs₁, hj₁, hfilled₁⟩ := push_of_lt (s := s) (b := b) (by omega)
    refine ⟨s₁, ?_, by omega, ?_⟩
    · rw [if_neg hlf, hs₁]
    · rw [if_neg hlf, hfilled₁]

theorem filled_empty (s : SockBuf) : filled { s with j := 0 } = [] := List.take_zero

theorem filled_eq_nil_iff (h : s.j ≤ 2048) : s.filled = [] ↔ s.j = 0 := by
  rw [← List.length_eq_zero_iff, length_filled h]

/-- Every turn finds room for two bytes, and the loop on the array hands on what the
loop on lists does. -/
theorem writeLoop_eq (hroom : s.j + 2 < 2048) (p : List U8) :
    s.writeLoop p = some (sockBuffers s.filled p) := by
  induction p generalizing s with
  | nil =>
      rw [writeLoop, sockBuffers]
      by_cases hj : s.j = 0
      · rw [if_pos hj, if_pos ((filled_eq_nil_iff (by omega)).2 hj)]
      · rw [if_neg hj, if_neg (mt (filled_eq_nil_iff (by omega)).1 hj)]
  | cons b p ih =>
      obtain ⟨s', hs', hle, hfilled⟩ := pushByte_of_room (s := s) (b := b) (by omega)
      rw [writeLoop, hs', sockBuffers, ← hfilled, length_filled hle]
      dsimp only
      by_cases hfull : 2048 - 2 ≤ s'.j
      · have hempty : (⟨s'.buf, 0⟩ : SockBuf).j + 2 < 2048 := by
          show 0 + 2 < 2048
          decide
        rw [if_pos hfull, if_pos hfull, ih hempty, filled_empty]
        rfl
      · rw [if_neg hfull, if_neg hfull, ih (by omega)]

end SockBuf

theorem sockWrite_eq (fresh : Vector U8 2048) (p : List U8) :
    sockWrite fresh p = some (sockBuffers [] p) := by
  have hroom : (⟨fresh, 0⟩ : SockBuf).j + 2 < 2048 := by
    show 0 + 2 < 2048
    decide
  rw [sockWrite, SockBuf.writeLoop_eq hroom]
  rfl

/-! ## On the wire -/

/-- A connection that takes a stream: what it takes of two buffers does not depend on
whether they are sent as one. -/
def Net.Stream (net : Net) : Prop :=
  ∀ sent p q : List U8, min (net.took sent (p ++ q)) (p ++ q).length =
    if net.took sent p < p.length then net.took sent p
    else p.length + min (net.took (sent ++ p) q) q.length

theorem conSendRaw_open {net : Net} {c : Console} (hopen : ¬(¬c.attached ∨ c.eof)) (p : List U8) :
    conSendRaw net c p =
      { c with
        sent := c.sent ++ p.take (min (net.took c.sent p) p.length)
        eof := decide (min (net.took c.sent p) p.length < p.length) } := if_neg hopen

theorem conSendRaw_closed {net : Net} {c : Console} (hclosed : ¬c.attached ∨ c.eof)
    (p : List U8) : conSendRaw net c p = c := if_pos hclosed

theorem conSendRaw_nil (net : Net) (c : Console) : conSendRaw net c [] = c := by
  by_cases hclosed : ¬c.attached ∨ c.eof
  · exact conSendRaw_closed hclosed []
  · have heof : c.eof = false := by simpa using (not_or.1 hclosed).2
    rw [conSendRaw_open hclosed]
    simp [← heof]

theorem conSendRaw_append {net : Net} (h : net.Stream) (c : Console) (p q : List U8) :
    conSendRaw net (conSendRaw net c p) q = conSendRaw net c (p ++ q) := by
  by_cases hclosed : ¬c.attached ∨ c.eof
  · rw [conSendRaw_closed hclosed, conSendRaw_closed hclosed, conSendRaw_closed hclosed]
  · have hstream := h c.sent p q
    rw [conSendRaw_open hclosed, conSendRaw_open hclosed, hstream]
    by_cases hshort : net.took c.sent p < p.length
    · -- the connection breaks inside of `p`
      have hmin : min (net.took c.sent p) p.length = net.took c.sent p :=
        Nat.min_eq_left hshort.le
      have hlen : net.took c.sent p < (p ++ q).length := by
        rw [List.length_append]
        omega
      rw [if_pos hshort, hmin, List.take_append_of_le_length hshort.le, decide_eq_true hshort,
        decide_eq_true hlen]
      exact conSendRaw_closed (.inr rfl) q
    · have hmin : min (net.took c.sent p) p.length = p.length := Nat.min_eq_right (by omega)
      rw [if_neg hshort, hmin, List.take_length, decide_eq_false (Nat.lt_irrefl _),
        List.take_append, List.take_of_length_le (Nat.le_add_right _ _), Nat.add_sub_cancel_left,
        List.length_append]
      have hopen : ¬(¬({ c with sent := c.sent ++ p, eof := false } : Console).attached ∨
          ({ c with sent := c.sent ++ p, eof := false } : Console).eof) := by
        intro hor
        exact hclosed (.inl (hor.resolve_right Bool.false_ne_true))
      rw [conSendRaw_open hopen]
      simp only [Console.mk.injEq, List.append_assoc, true_and]
      simp

theorem foldl_conSendRaw {net : Net} (h : net.Stream) (c : Console) (buffers : List (List U8)) :
    buffers.foldl (conSendRaw net) c = conSendRaw net c buffers.flatten := by
  induction buffers generalizing c with
  | nil => exact (conSendRaw_nil net c).symm
  | cons b buffers ih => rw [List.foldl_cons, ih, conSendRaw_append h, List.flatten_cons]

theorem conSockWrite_eq {net : Net} (h : net.Stream) (c : Console) (p : List U8) :
    conSockWrite net c p = conSendRaw net c (expand p) := by
  rw [conSockWrite, foldl_conSendRaw h, flatten_sockBuffers, List.nil_append]

/-- `con_sock_write` stays in its buffer, hands on the expansion, and hands on and
sends the same bytes for two strings as for both in one. -/
theorem sockWrite_expands (p q : List U8) (f g h : Vector U8 2048) :
    ∃ ps qs both, sockWrite f p = some ps ∧ sockWrite g q = some qs ∧
      sockWrite h (p ++ q) = some both ∧ ps.flatten = expand p ∧
      (ps ++ qs).flatten = both.flatten ∧
      ∀ net : Net, net.Stream → ∀ c,
        conSockWrite net (conSockWrite net c p) q = conSockWrite net c (p ++ q) := by
  refine ⟨sockBuffers [] p, sockBuffers [] q, sockBuffers [] (p ++ q), sockWrite_eq f p,
    sockWrite_eq g q, sockWrite_eq h (p ++ q), flatten_sockBuffers [] p, ?_, ?_⟩
  · calc (sockBuffers [] p ++ sockBuffers [] q).flatten
        = expand p ++ expand q := by
          rw [List.flatten_append, flatten_sockBuffers, flatten_sockBuffers]
          rfl
      _ = expand (p ++ q) := (expand_append p q).symm
      _ = (sockBuffers [] (p ++ q)).flatten := (flatten_sockBuffers [] (p ++ q)).symm
  · intro net hstream c
    rw [conSockWrite_eq hstream, conSockWrite_eq hstream, conSockWrite_eq hstream,
      conSendRaw_append hstream, expand_append]

def breaksAfter (n : Nat) : Net := ⟨true, fun sent _ => n - sent.length⟩

theorem breaksAfter_stream (n : Nat) : (breaksAfter n).Stream := by
  intro sent p q
  simp only [breaksAfter, List.length_append]
  split <;> omega

def client : Console := { Console.initial true false ⟨[], []⟩ ⟨[], []⟩ with attached := true }

/-- A line of one LF and one of 2047 bytes, on a connection that breaks in between. -/
theorem sockWrite_expands_breaks :
    conSockWrite (breaksAfter 1000) (conSockWrite (breaksAfter 1000) client [LF])
        (List.replicate 2047 0x41) =
      conSockWrite (breaksAfter 1000) client ([LF] ++ List.replicate 2047 0x41) := by
  obtain ⟨ps, qs, both, -, -, -, -, -, hsent⟩ := sockWrite_expands [LF] (List.replicate 2047 0x41)
    (Vector.replicate 2048 0) (Vector.replicate 2048 0) (Vector.replicate 2048 0)
  exact hsent (breaksAfter 1000) (breaksAfter_stream 1000) client

end Nx88.Console
