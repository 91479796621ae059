import Mathlib.Data.List.Flatten
import Nx88.Memory.Ram
/-!
# Physical watchpoints

`--pwatch` names a range of physical addresses, and `pwatch_hit` reports the
writes into it.  The test sits in the byte accessor; the word accessor goes
around it whenever the word lies in one page.
-/

namespace Nx88

open Lib.Words

/-! ## The watched accessors -/

/-- `pwatch_lo` and `pwatch_hi`; an upper end of 0 turns the watch off. -/
structure Pwatch where
  lo : U32
  hi : U32

/-- `--pwatch=lo:len`, or four bytes without a length. -/
def Pwatch.ofArg (lo : U32) (len : Option U32) : Pwatch := ⟨lo, lo + len.getD 4⟩

/-- Physical memory and the calls of `pwatch_hit`, oldest first. -/
structure Watched where
  mem : Mem
  hits : List (U32 × U8)

namespace Pwatch

/-- The test of `mem_w8`. -/
def watches (p : Pwatch) (a : U32) : Bool := p.hi ≠ 0 ∧ p.lo ≤ a ∧ a < p.hi

def memW8 (p : Pwatch) (s : Watched) (a : U32) (v : U8) : Watched :=
  ⟨s.mem.w8 a v, if p.watches a then s.hits ++ [(a, v)] else s.hits⟩

def memW16 (p : Pwatch) (s : Watched) (a : U32) (v : U16) : Watched :=
  p.memW8 (p.memW8 s a ((v >>> 8).setWidth 8)) (a + 1) (v.setWidth 8)

def memW32 (p : Pwatch) (s : Watched) (a v : U32) : Watched :=
  if (a &&& 4095) ≤ 4092 then
    let o := a &&& 4095
    { s with
      mem := (((s.mem.poke a o (byteOf v 0)).poke a (o + 1) (byteOf v 1)).poke a (o + 2)
        (byteOf v 2)).poke a (o + 3) (byteOf v 3) }
  else
    p.memW8 (p.memW8 (p.memW8 (p.memW8 s a (byteOf v 0)) (a + 1) (byteOf v 1)) (a + 2)
      (byteOf v 2)) (a + 3) (byteOf v 3)

end Pwatch

/-- One write to physical memory. -/
inductive MemWrite where
  | byte (a : U32) (v : U8)
  | half (a : U32) (v : U16)
  | word (a v : U32)
deriving DecidableEq

namespace MemWrite

def bytes : MemWrite → List (U32 × U8)
  | byte a v => [(a, v)]
  | half a v => [(a, (v >>> 8).setWidth 8), (a + 1, v.setWidth 8)]
  | word a v => [(a, byteOf v 0), (a + 1, byteOf v 1), (a + 2, byteOf v 2), (a + 3, byteOf v 3)]

def InPage : MemWrite → Prop
  | word a _ => (a &&& 4095) ≤ 4092
  | _ => False

instance : DecidablePred InPage
  | byte _ _ => inferInstanceAs (Decidable False)
  | half _ _ => inferInstanceAs (Decidable False)
  | word a _ => inferInstanceAs (Decidable ((a &&& 4095) ≤ 4092))

def apply (p : Pwatch) (s : Watched) : MemWrite → Watched
  | byte a v => p.memW8 s a v
  | half a v => p.memW16 s a v
  | word a v => p.memW32 s a v

def store (m : Mem) : MemWrite → Mem
  | byte a v => m.w8 a v
  | half a v => m.w16 a v
  | word a v => m.w32 a v

/-! ## What is stored and what is reported -/

variable (p : Pwatch) (s : Watched)

theorem apply_mem (w : MemWrite) : (w.apply p s).mem = w.store s.mem := by
  cases w with
  | byte a v => rfl
  | half a v => rfl
  | word a v =>
      change (p.memW32 s a v).mem = s.mem.w32 a v
      unfold Pwatch.memW32 Mem.w32
      split <;> rfl

theorem memW8_hits (a : U32) (v : U8) :
    (p.memW8 s a v).hits = s.hits ++ [(a, v)].filter fun b => p.watches b.1 := by
  unfold Pwatch.memW8
  cases hwatch : p.watches a with
  | false => simp [hwatch]
  | true => simp [hwatch]

/-- What a write reports: the watched ones of its bytes, unless it is a word in
one page. -/
def reported (w : MemWrite) : List (U32 × U8) :=
  if w.InPage then [] else w.bytes.filter fun b => p.watches b.1

theorem apply_hits (w : MemWrite) : (w.apply p s).hits = s.hits ++ w.reported p := by
  cases w with
  | byte a v => exact memW8_hits p s a v
  | half a v =>
      change (p.memW8 (p.memW8 s _ _) _ _).hits = _
      unfold reported
      rw [if_neg (show ¬InPage (half a v) from fun h => h), memW8_hits, memW8_hits,
        List.append_assoc, ← List.filter_append]
      rfl
  | word a v =>
      change (p.memW32 s a v).hits = _
      unfold reported Pwatch.memW32
      by_cases hpage : (a &&& 4095) ≤ 4092
      · rw [if_pos hpage, if_pos (show InPage (word a v) from hpage), List.append_nil]
      · rw [if_neg hpage, if_neg (show ¬InPage (word a v) from hpage), memW8_hits, memW8_hits,
          memW8_hits, memW8_hits]
        simp only [List.append_assoc, ← List.filter_append]
        rfl

def run (ws : List MemWrite) : Watched := ws.foldl (apply p) s

theorem run_hits (ws : List MemWrite) :
    (run p s ws).hits = s.hits ++ ws.flatMap (reported p) := by
  induction ws generalizing s with
  | nil => rw [List.flatMap_nil, List.append_nil]; rfl
  | cons w ws ih =>
      change (run p (w.apply p s) ws).hits = _
      rw [ih, apply_hits, List.flatMap_cons, List.append_assoc]

theorem run_mem (ws : List MemWrite) : (run p s ws).mem = ws.foldl store s.mem := by
  induction ws generalizing s with
  | nil => rfl
  | cons w ws ih =>
      change (run p (w.apply p s) ws).mem = _
      rw [ih, apply_mem]
      rfl

end MemWrite

/-! ## The callers -/

/-- A block copy is a run of byte writes. -/
def loadWrites (a : U32) : List U8 → List MemWrite
  | [] => []
  | b :: bs => .byte a b :: loadWrites (a + 1) bs

theorem load_eq_writes (m : Mem) (a : U32) (bs : List U8) :
    m.load a bs = (loadWrites a bs).foldl MemWrite.store m := by
  induction bs generalizing m a with
  | nil => rfl
  | cons b bs ih => exact ih (m.w8 a b) (a + 1)

namespace Machine

def storeWrites (m : Machine) (sub D ea : U32) : List MemWrite :=
  match sub.toNat with
  | 0x09 | 0x01 => [.word ea (m.rd D)]
  | 0x0B | 0x00 => [.byte ea ((m.rd D).setWidth 8)]
  | 0x0A => [.half ea ((m.rd D).setWidth 16)]
  | 0x08 => [.word ea (m.rd D), .word (ea + 4) (m.rd (D + 1))]
  | _ => []

theorem memTransfer_writes {m : Machine} {sub D ea : U32} (hea : m.OnRam ea)
    (hnext : m.OnRam (ea + 4)) :
    (m.memTransfer sub D ea).mem = (m.storeWrites sub D ea).foldl MemWrite.store m.mem := by
  unfold memTransfer storeWrites
  split
  case h_1 heq | h_2 heq | h_3 heq | h_4 heq | h_5 heq | h_6 heq =>
    rw [heq]
    rfl
  case h_7 heq =>
    rw [heq, devWrite32_ram _ hea]
    rfl
  case h_8 heq =>
    have hpoke : ∀ mem, (m.setMem mem).tcsPoke ea = m.setMem mem :=
      fun mem => tcsPoke_ram hea.mailbox
    rw [heq, hpoke]
    rfl
  case h_9 heq =>
    rw [heq]
    rfl
  case h_10 heq =>
    have hram : (m.setMem (m.mem.w32 ea (m.rd D))).OnRam (ea + 4) := ⟨hnext.below, hnext.mailbox⟩
    rw [heq, devWrite32_ram _ hea]
    simp only
    rw [devWrite32_ram _ hram]
    rfl
  case h_11 heq | h_12 heq =>
    rw [heq]
    rfl
  case h_13 =>
    split <;> first | contradiction | rfl

end Machine

/-! ## The range that was asked for -/

/-- The address lies in the `len` bytes from `lo` on. -/
def InRange (lo len a : U32) : Prop := lo.toNat ≤ a.toNat ∧ a.toNat < lo.toNat + len.toNat

instance (lo len a : U32) : Decidable (InRange lo len a) := by
  unfold InRange
  infer_instance

/-- The upper end is a 32-bit sum; a range that reaches the end of the address
space turns the watch off. -/
theorem watches_ofArg (lo a : U32) (len : Option U32) :
    (Pwatch.ofArg lo len).watches a = true ↔
      lo.toNat + (len.getD 4).toNat < 2 ^ 32 ∧ InRange lo (len.getD 4) a := by
  unfold Pwatch.watches Pwatch.ofArg InRange
  generalize len.getD 4 = n
  have hlo := lo.isLt
  have hn := n.isLt
  have ha := a.isLt
  simp only [decide_eq_true_eq, BitVec.le_def, BitVec.lt_def, Ne, ← BitVec.toNat_inj,
    BitVec.toNat_add]
  change ¬(lo.toNat + n.toNat) % 2 ^ 32 = 0 ∧ _ ↔ _
  omega

/-- What `pwatch_hit` is for: the bytes of the write in the range. -/
def MemWrite.due (lo len : U32) (w : MemWrite) : List (U32 × U8) :=
  w.bytes.filter fun b => InRange lo len b.1

/-- A write whose report is not lost: none of its bytes is in the range, or it
takes the byte path and the range ends below the end of the address space. -/
def MemWrite.Seen (lo len : U32) (w : MemWrite) : Prop :=
  (∀ b ∈ w.bytes, ¬InRange lo len b.1) ∨ ¬w.InPage ∧ lo.toNat + len.toNat < 2 ^ 32

variable {lo : U32} {len : Option U32}

theorem MemWrite.due_eq_nil_iff (lo len : U32) (w : MemWrite) :
    w.due lo len = [] ↔ ∀ b ∈ w.bytes, ¬InRange lo len b.1 := by
  unfold MemWrite.due
  rw [List.filter_eq_nil_iff]
  simp only [decide_eq_true_eq]

theorem MemWrite.reported_of_room (w : MemWrite) (hpage : ¬w.InPage)
    (hroom : lo.toNat + (len.getD 4).toNat < 2 ^ 32) :
    w.reported (Pwatch.ofArg lo len) = w.due lo (len.getD 4) := by
  unfold MemWrite.reported MemWrite.due
  rw [if_neg hpage]
  apply List.filter_congr
  intro b _
  rw [Bool.eq_iff_iff, watches_ofArg, and_iff_right hroom, decide_eq_true_eq]

theorem MemWrite.reported_lost (w : MemWrite)
    (hlost : w.InPage ∨ ¬lo.toNat + (len.getD 4).toNat < 2 ^ 32) :
    w.reported (Pwatch.ofArg lo len) = [] := by
  unfold MemWrite.reported
  split
  · rfl
  · rename_i hpage
    rw [List.filter_eq_nil_iff]
    intro b _ hwatch
    exact hlost.elim hpage fun hroom => hroom ((watches_ofArg lo b.1 len).1 hwatch).1

/-- A write reports a part of what is due, and all of it exactly when it is seen. -/
theorem MemWrite.reported_eq_due_iff (w : MemWrite) :
    w.reported (Pwatch.ofArg lo len) = w.due lo (len.getD 4) ↔ w.Seen lo (len.getD 4) := by
  unfold MemWrite.Seen
  rw [← MemWrite.due_eq_nil_iff]
  by_cases hlost : w.InPage ∨ ¬lo.toNat + (len.getD 4).toNat < 2 ^ 32
  · rw [w.reported_lost hlost, or_iff_left (by tauto)]
    exact eq_comm
  · have hseen : ¬w.InPage ∧ lo.toNat + (len.getD 4).toNat < 2 ^ 32 := by
      rwa [not_or, not_not] at hlost
    rw [w.reported_of_room hseen.1 hseen.2]
    exact ⟨fun _ => .inr hseen, fun _ => rfl⟩

theorem MemWrite.reported_sublist (w : MemWrite) :
    (w.reported (Pwatch.ofArg lo len)).Sublist (w.due lo (len.getD 4)) := by
  by_cases hlost : w.InPage ∨ ¬lo.toNat + (len.getD 4).toNat < 2 ^ 32
  · rw [w.reported_lost hlost]
    exact List.nil_sublist _
  · rw [not_or, not_not] at hlost
    rw [w.reported_of_room hlost.1 hlost.2]

theorem flatMap_eq_iff_of_sublist {α β : Type} {f g : α → List β} {l : List α}
    (h : ∀ x, (f x).Sublist (g x)) : l.flatMap f = l.flatMap g ↔ ∀ x ∈ l, f x = g x := by
  constructor
  · induction l with
    | nil => exact fun _ x hx => (nomatch hx)
    | cons y l ih =>
        intro heq
        rw [List.flatMap_cons, List.flatMap_cons] at heq
        have hrest := (List.Sublist.flatMap_right l fun x _ => h x).length_le
        have hlen := congrArg List.length heq
        rw [List.length_append, List.length_append] at hlen
        have hy : f y = g y := (h y).eq_of_length_le (by omega)
        rw [hy] at heq
        exact List.forall_mem_cons.2 ⟨hy, ih (List.append_cancel_left heq)⟩
  · intro heq
    exact List.flatMap_congr heq

/-- The watch reports every byte written into its range, once and with its
value, and nothing else, exactly when every write of the run is seen. -/
theorem watch_reports_iff (lo : U32) (len : Option U32) (m : Mem) (ws : List MemWrite) :
    (MemWrite.run (Pwatch.ofArg lo len) ⟨m, []⟩ ws).hits =
        (ws.flatMap MemWrite.bytes).filter (fun b => InRange lo (len.getD 4) b.1) ↔
      ∀ w ∈ ws, w.Seen lo (len.getD 4) := by
  have hdue : (ws.flatMap MemWrite.bytes).filter (fun b => InRange lo (len.getD 4) b.1) =
      ws.flatMap (MemWrite.due lo (len.getD 4)) := List.filter_flatMap ..
  rw [MemWrite.run_hits, List.nil_append, hdue,
    flatMap_eq_iff_of_sublist fun w => w.reported_sublist]
  simp only [MemWrite.reported_eq_due_iff]

/-- A word stored into the watched word is not reported. -/
theorem watch_misses_word : ¬∀ (lo : U32) (len : Option U32) (m : Mem) (ws : List MemWrite),
    (MemWrite.run (Pwatch.ofArg lo len) ⟨m, []⟩ ws).hits =
      (ws.flatMap MemWrite.bytes).filter fun b => InRange lo (len.getD 4) b.1 := by
  intro hall
  have hhits := hall 0x1000 none ⟨false, fun _ _ => 0⟩ [.word 0x1000 0x11223344]
  exact absurd hhits (by decide)

end Nx88
