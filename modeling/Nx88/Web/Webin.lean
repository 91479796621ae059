import Nx88.Lib.Ring
import Nx88.Web.Worker
/-!
# The keystroke ring

`console.c` keeps the typed bytes of a tab in an array of `WEBIN_CAP` cells with
two counters of 32 bits that run freely.  It behaves as the list of `Ring`, for
every order of the calls made on it and however often the counters wrap.
-/

namespace Nx88.Web

open Lib.Ring Lib.Runs

structure Webin where
  webin : Nat → U8
  webinR : U32
  webinW : U32
  webinEof : Bool

/-- A call on the ring.  `getc` is one look of `web_getc`, which after a nap
looks again. -/
inductive Call where
  | push (p : List U8)
  | eof
  | getc
  | avail

namespace Webin

def init : Webin := ⟨fun _ => 0, 0, 0, false⟩

/-- `webin[c & (WEBIN_CAP - 1)]`. -/
def index (c : U32) : Nat := (c &&& BitVec.ofNat 32 (WEBIN_CAP - 1)).toNat

def webAvail (s : Webin) : U32 := s.webinW - s.webinR

/-- The body of the loop of `nx_web_push`. -/
def push (s : Webin) (b : U8) : Webin :=
  if s.webinW - s.webinR < BitVec.ofNat 32 WEBIN_CAP then
    { s with webin := Function.update s.webin (index s.webinW) b, webinW := s.webinW + 1 }
  else s

def nxWebPush (s : Webin) (p : List U8) : Webin := p.foldl push s

def nxWebEof (s : Webin) : Webin := { s with webinEof := true }

def webGetc (s : Webin) : Ring.Getc × Webin :=
  if s.webinR = s.webinW then
    if s.webinEof then (.eof, s) else (.nap, s)
  else (.byte (s.webin (index s.webinR)), { s with webinR := s.webinR + 1 })

def stored (s : Webin) : List U8 → List U8
  | [] => []
  | b :: p =>
    (if s.webinW - s.webinR < BitVec.ofNat 32 WEBIN_CAP then [b] else []) ++ (s.push b).stored p

def queue (s : Webin) : List U8 := window WEBIN_CAP s.webin s.webinR s.webAvail.toNat

end Webin

namespace Call

def run : Call → Webin → Webin
  | push p, s => s.nxWebPush p
  | eof, s => s.nxWebEof
  | getc, s => s.webGetc.2
  | avail, s => s

/-- What a call of `nx_web_push` stores. -/
def accepts : Call → Webin → List U8
  | push p, s => s.stored p
  | _, _ => []

/-- What `web_getc` returns, when it returns a byte. -/
def returns : Call → Webin → List U8
  | getc, s =>
    match s.webGetc.1 with
    | .byte b => [b]
    | _ => []
  | _, _ => []

end Call

def accepted (cs : List Call) : List U8 := trace Call.run Call.accepts .init cs

def returned (cs : List Call) : List U8 := trace Call.run Call.returns .init cs

/-- What makes the ring, in the state `s` after the calls `cs`, a bounded queue. -/
structure BoundedFifo (cs : List Call) (s : Webin) : Prop where
  bounded : s.queue.length ≤ WEBIN_CAP
  /-- each byte accepted is returned once, in order, or still queued -/
  order : accepted cs = returned cs ++ s.queue
  /-- bytes that find no room are dropped, and the queued ones stay -/
  full : ∀ p, (s.nxWebPush p).queue = s.queue ++ p.take (WEBIN_CAP - s.queue.length) ∧
    s.stored p = p.take (WEBIN_CAP - s.queue.length)
  next : ∀ b, s.webGetc.1 = .byte b ↔ s.queue.head? = some b
  avail : s.webAvail.toNat = s.queue.length
  eof : s.webGetc.1 = .eof → returned cs = accepted cs ∧ s.webinEof = true

/-! ## The ring as a list -/

namespace Webin

def toRing (s : Webin) : Ring := ⟨s.queue, s.webinEof⟩

variable {s : Webin}

theorem index_eq (c : U32) : index c = slot WEBIN_CAP c := by
  rw [index, BitVec.toNat_and, slot]
  exact Nat.and_two_pow_sub_one_eq_mod c.toNat 13

theorem cap_dvd : WEBIN_CAP ∣ 2 ^ 32 := by decide

@[simp] theorem length_queue : s.queue.length = s.webAvail.toNat := length_window

theorem room_iff : s.webinW - s.webinR < BitVec.ofNat 32 WEBIN_CAP ↔
    s.queue.length < WEBIN_CAP := by
  rw [length_queue, BitVec.lt_def]
  rfl

theorem writer_eq : s.webinW = s.webinR + BitVec.ofNat 32 s.webAvail.toNat := by
  rw [BitVec.ofNat_toNat, BitVec.setWidth_eq, webAvail, BitVec.add_comm, BitVec.sub_add_cancel]

theorem queue_push (b : U8) :
    (s.push b).queue = if s.queue.length < WEBIN_CAP then s.queue ++ [b] else s.queue := by
  by_cases hroom : s.queue.length < WEBIN_CAP
  · rw [if_pos hroom, push, if_pos (room_iff.2 hroom)]
    have havail : s.webinW + 1 - s.webinR = s.webAvail + 1 := by
      rw [webAvail, BitVec.add_sub_comm]
    have hlt : s.webAvail.toNat < WEBIN_CAP := by rwa [length_queue] at hroom
    have hnat : (s.webAvail + 1).toNat = s.webAvail.toNat + 1 := by
      rw [WEBIN_CAP] at hlt
      bv_omega
    change window WEBIN_CAP (Function.update s.webin (index s.webinW) b) s.webinR
      (s.webinW + 1 - s.webinR).toNat = _
    rw [havail, hnat, index_eq]
    nth_rewrite 1 [writer_eq]
    exact window_put cap_dvd hlt b
  · rw [if_neg hroom, push, if_neg (mt room_iff.1 hroom)]

theorem push_webinEof (b : U8) : (s.push b).webinEof = s.webinEof := by
  rw [push]
  split <;> rfl

theorem toRing_push (b : U8) : (s.push b).toRing = s.toRing.push b := by
  rw [toRing, queue_push, push_webinEof, Ring.push]
  change _ = if s.queue.length < WEBIN_CAP then _ else _
  split <;> rfl

theorem toRing_nxWebPush (p : List U8) : (s.nxWebPush p).toRing = s.toRing.nxWebPush p := by
  induction p generalizing s with
  | nil => rfl
  | cons b p ih =>
    change ((s.push b).nxWebPush p).toRing = (s.toRing.push b).nxWebPush p
    rw [ih, toRing_push]

theorem queue_eq_nil_iff : s.queue = [] ↔ s.webinR = s.webinW := by
  rw [← List.length_eq_zero_iff, length_queue, webAvail]
  constructor
  · intro h
    bv_omega
  · intro h
    rw [h, BitVec.sub_self]
    rfl

theorem queue_of_ne (h : s.webinR ≠ s.webinW) :
    s.queue = s.webin (index s.webinR) :: ({ s with webinR := s.webinR + 1 } : Webin).queue := by
  have hnat : s.webAvail.toNat = (s.webinW - (s.webinR + 1)).toNat + 1 := by
    rw [webAvail]
    bv_omega
  rw [queue, hnat, window_succ, index_eq]
  rfl

theorem toRing_webGetc :
    s.webGetc.1 = s.toRing.webGetc.1 ∧ s.webGetc.2.toRing = s.toRing.webGetc.2 := by
  by_cases h : s.webinR = s.webinW
  · have hnil : s.toRing = ⟨[], s.webinEof⟩ := by rw [toRing, queue_eq_nil_iff.2 h]
    rw [webGetc, if_pos h, hnil, Ring.webGetc]
    dsimp only
    split
    · exact ⟨rfl, hnil⟩
    · exact ⟨rfl, hnil⟩
  · have hcons : s.toRing = ⟨s.webin (index s.webinR) ::
        ({ s with webinR := s.webinR + 1 } : Webin).queue, s.webinEof⟩ := by
      rw [toRing, queue_of_ne h]
    rw [webGetc, if_neg h, hcons]
    exact ⟨rfl, rfl⟩

end Webin

/-! ## The list as a bounded queue -/

namespace Ring

variable {r : Ring}

theorem nxWebPush_webin (p : List U8) :
    (r.nxWebPush p).webin = r.webin ++ p.take (WEBIN_CAP - r.webin.length) := by
  induction p generalizing r with
  | nil => rw [List.take_nil, List.append_nil]; rfl
  | cons b p ih =>
    change ((r.push b).nxWebPush p).webin = _
    rw [ih, push]
    by_cases hroom : r.webin.length < WEBIN_CAP
    · rw [if_pos hroom, List.length_append, List.length_singleton, List.append_assoc,
        show WEBIN_CAP - r.webin.length = WEBIN_CAP - (r.webin.length + 1) + 1 by omega,
        List.take_succ_cons, List.singleton_append]
    · rw [if_neg hroom, show WEBIN_CAP - r.webin.length = 0 by omega, List.take_zero,
        List.take_zero]

end Ring

/-! ## Runs of the ring -/

namespace Webin

variable {s : Webin}

theorem queue_nxWebPush (p : List U8) :
    (s.nxWebPush p).queue = s.queue ++ p.take (WEBIN_CAP - s.queue.length) := by
  have hring := congrArg Ring.webin (toRing_nxWebPush (s := s) p)
  rwa [Ring.nxWebPush_webin] at hring

theorem queue_append_stored (p : List U8) : (s.nxWebPush p).queue = s.queue ++ s.stored p := by
  induction p generalizing s with
  | nil => rw [stored, List.append_nil]; rfl
  | cons b p ih =>
    change ((s.push b).nxWebPush p).queue = _
    rw [ih, stored, queue_push, ← List.append_assoc]
    refine congrArg (· ++ _) ?_
    by_cases hroom : s.queue.length < WEBIN_CAP
    · rw [if_pos hroom, if_pos (room_iff.2 hroom)]
    · rw [if_neg hroom, if_neg (mt room_iff.1 hroom), List.append_nil]

theorem stored_eq (p : List U8) : s.stored p = p.take (WEBIN_CAP - s.queue.length) := by
  refine List.append_cancel_left (?_ : s.queue ++ _ = s.queue ++ _)
  rw [← queue_append_stored, queue_nxWebPush]

theorem webGetc_queue :
    s.queue = Call.getc.returns s ++ s.webGetc.2.queue ∧
      ∀ b, s.webGetc.1 = .byte b ↔ s.queue.head? = some b := by
  obtain ⟨hlook, hrest⟩ := toRing_webGetc (s := s)
  have hqueue : s.webGetc.2.queue = s.toRing.webGetc.2.webin := congrArg Ring.webin hrest
  rw [Call.returns, hqueue, hlook]
  cases h : s.queue with
  | nil =>
    have hnil : s.toRing = ⟨[], s.webinEof⟩ := by rw [toRing, h]
    rw [hnil, Ring.webGetc]
    cases s.webinEof with
    | true => exact ⟨rfl, fun b => ⟨nofun, nofun⟩⟩
    | false => exact ⟨rfl, fun b => ⟨nofun, nofun⟩⟩
  | cons a rest =>
    have hcons : s.toRing = ⟨a :: rest, s.webinEof⟩ := by rw [toRing, h]
    rw [hcons, Ring.webGetc]
    refine ⟨rfl, fun b => ?_⟩
    rw [List.head?_cons, Ring.Getc.byte.injEq, Option.some.injEq]

theorem webGetc_eof (h : s.webGetc.1 = .eof) : s.queue = [] ∧ s.webinEof = true := by
  rw [webGetc] at h
  split at h
  · next heq =>
    split at h
    · next heof => exact ⟨queue_eq_nil_iff.2 heq, heof⟩
    · exact nomatch h
  · exact nomatch h

/-- What is queued and what a call returns is what was queued and what it accepts. -/
theorem queue_run (c : Call) :
    s.queue ++ c.accepts s = c.returns s ++ (c.run s).queue := by
  cases c with
  | push p => exact (queue_append_stored p).symm
  | eof => exact List.append_nil s.queue
  | getc => exact (List.append_nil s.queue).trans webGetc_queue.1
  | avail => exact List.append_nil s.queue

theorem fits_run (c : Call) (h : s.queue.length ≤ WEBIN_CAP) :
    (c.run s).queue.length ≤ WEBIN_CAP := by
  cases c with
  | push p =>
    change (s.nxWebPush p).queue.length ≤ WEBIN_CAP
    rw [queue_nxWebPush, List.length_append, List.length_take]
    omega
  | eof => exact h
  | getc =>
    have hqueue := congrArg List.length (webGetc_queue (s := s)).1
    rw [List.length_append] at hqueue
    change s.webGetc.2.queue.length ≤ WEBIN_CAP
    omega
  | avail => exact h

end Webin

theorem conserved (s : Webin) (cs : List Call) :
    s.queue ++ trace Call.run Call.accepts s cs =
      trace Call.run Call.returns s cs ++ (after Call.run s cs).queue := by
  induction cs generalizing s with
  | nil => exact List.append_nil s.queue
  | cons c cs ih =>
    calc s.queue ++ (c.accepts s ++ trace Call.run Call.accepts (c.run s) cs)
      _ = c.returns s ++ ((c.run s).queue ++ trace Call.run Call.accepts (c.run s) cs) := by
        rw [← List.append_assoc, Webin.queue_run, List.append_assoc]
      _ = c.returns s ++ (trace Call.run Call.returns (c.run s) cs ++
          (after Call.run (c.run s) cs).queue) := by rw [ih]
      _ = trace Call.run Call.returns s (c :: cs) ++ (after Call.run s (c :: cs)).queue := by
        rw [trace_cons, after_cons, List.append_assoc]

/-- Whatever calls are made on the ring, in whatever order, it is a bounded queue. -/
theorem ring_boundedFifo (cs : List Call) : BoundedFifo cs (after Call.run .init cs) := by
  have hbounded : (after Call.run .init cs).queue.length ≤ WEBIN_CAP := by
    have hinit : Webin.init.queue.length ≤ WEBIN_CAP := Nat.zero_le _
    induction cs using List.reverseRecOn with
    | nil => exact hinit
    | append_singleton cs c ih =>
      rw [after_append]
      exact Webin.fits_run c ih
  have horder : accepted cs = returned cs ++ (after Call.run .init cs).queue :=
    conserved .init cs
  refine ⟨hbounded, horder, fun p => ⟨Webin.queue_nxWebPush p, Webin.stored_eq p⟩,
    Webin.webGetc_queue.2, Webin.length_queue.symm, fun heof => ?_⟩
  obtain ⟨hempty, hflag⟩ := Webin.webGetc_eof heof
  rw [hempty, List.append_nil] at horder
  exact ⟨horder.symm, hflag⟩

end Nx88.Web
