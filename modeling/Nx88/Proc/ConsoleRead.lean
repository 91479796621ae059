import Nx88.Memory.Straddle
import Nx88.Proc.Service
import Nx88.Proc.UserCopy
/-!
# Reads from the console

`read` on a descriptor of the console takes input only behind the check of the buffer,
and what it takes arrives there: the pages that the check has found stay where they are
unless the bytes stored overwrite the area pointer that leads to them.
-/

namespace Nx88

open Lib.Words Console

/-! ## How much is taken -/

namespace Console

theorem length_readRawLoop (net : Net) (c : Console) (n : Nat) :
    (c.readRawLoop net n).1.length ≤ n := by
  induction n generalizing c with
  | zero => exact Nat.le_refl 0
  | succ n ih =>
      rw [readRawLoop]
      dsimp only
      split
      · exact Nat.zero_le _
      · split
        · exact Nat.zero_le _
        · exact Nat.succ_le_succ (ih _)

theorem length_conReadRaw (net : Net) (c : Console) (n : Nat) :
    (c.conReadRaw net n).1.length ≤ n := by
  cases n with
  | zero => exact Nat.le_refl 0
  | succ n =>
      rw [conReadRaw]
      dsimp only
      split
      · exact Nat.zero_le _
      · exact Nat.succ_le_succ (length_readRawLoop net _ n)

theorem length_stdLine (c : Console) (n : Nat) : (c.stdLine n).1.length ≤ n := by
  induction n generalizing c with
  | zero => exact Nat.le_refl 0
  | succ n ih =>
      rw [stdLine]
      split
      · exact Nat.zero_le _
      · split
        · exact Nat.succ_le_succ (Nat.zero_le n)
        · exact Nat.succ_le_succ (ih _)

theorem length_conReadLine (net : Net) (c : Console) (n : Nat) :
    (c.conReadLine net n).1.length ≤ n := by
  unfold conReadLine
  dsimp only
  split
  · unfold conSockRead Con.conSockRead
    dsimp only
    split
    · exact List.length_take_le ..
    · exact List.length_take_le ..
  · exact length_stdLine _ n

/-- What a `read` of `n` bytes takes: a key and what else is there, or a line. -/
def conTake (net : Net) (c : Console) (n : U32) : List U8 × Console :=
  if n = 0 then ([], c)
  else if c.ttyIsRaw then c.conReadRaw net n.toNat
  else c.conReadLine net n.toNat

theorem length_conTake (net : Net) (c : Console) (n : U32) :
    (c.conTake net n).1.length ≤ n.toNat := by
  unfold conTake
  split
  · exact Nat.zero_le _
  · split
    · exact length_conReadRaw net c _
    · exact length_conReadLine net c _

end Console

namespace Machine

/-! ## What a read may do -/

/-- How many bytes a `read` asks for. -/
def readLen (m : Machine) : U32 := if 4096 < m.rd 4 then 4096 else m.rd 4

def bufPlace (m : Machine) (va : U32) (i : Nat) : U32 := (m.copyTranslate (byteAddr va i)).1

/-- Nothing is taken, and the call runs again when the pending fault is dealt with. -/
structure ReadRetried (m : Machine) (tpc : U32) (k : Machine) : Prop where
  con : k.con = m.con
  mem : k.mem = m.mem
  pending : k.ufault.pending = true
  cpu : k.cpu = { m.cpu with pc := tpc }

/-- What is taken from the console is in the buffer, in order, and `r2` has the count. -/
structure ReadTaken (net : Net) (m : Machine) (tpc : U32) (k : Machine) : Prop where
  count : (k.rd 2).toNat = (m.con.conTake net m.readLen).1.length
  con : k.con =
    { (m.con.conTake net m.readLen).2 with
      inBytes := (m.con.conTake net m.readLen).2.inBytes + k.rd 2 }
  inOrder : ∀ i < (k.rd 2).toNat,
    k.mem.r8 (m.bufPlace (m.rd 3) i) = (m.con.conTake net m.readLen).1.getD i 0
  rest : ∀ b, (∀ i < (k.rd 2).toNat,
    cphys m.mem.realmm b ≠ cphys m.mem.realmm (m.bufPlace (m.rd 3) i)) → k.mem.r8 b = m.mem.r8 b
  ufault : k.ufault = m.ufault
  pc : k.cpu.pc = tpc + 8

/-- A read loses nothing. -/
def ReadKeepsInput (net : Net) (m : Machine) (tpc : U32) : Prop :=
  m.ReadRetried tpc (m.consoleRead net tpc).2 ∨ m.ReadTaken net tpc (m.consoleRead net tpc).2

/-- The bytes of a buffer have places of their own, none of them the address 0, and each
is still there when its turn to be stored comes in `k`. -/
structure Storable (m k : Machine) (va : U32) (src : Nat → U8) (n : Nat) : Prop where
  frame : ∀ i < n, m.bufPlace va i ≠ 0
  own : ∀ i < n, ∀ j < n, i ≠ j →
    cphys m.mem.realmm (m.bufPlace va i) ≠ cphys m.mem.realmm (m.bufPlace va j)
  place : ∀ i < n, k.storePlace va src i = m.bufPlace va i
  faults : ∀ i < n, (k.stores va src i).Faults (byteAddr va i) ↔ m.Faults (byteAddr va i)

/-- The machine when a read begins to store what it has taken. -/
def readStart (net : Net) (m : Machine) : Machine :=
  (m.checked (m.rd 3) m.readLen).setCon (m.con.conTake net m.readLen).2

/-- What is taken can be stored. -/
def ReadStorable (net : Net) (m : Machine) : Prop :=
  m.Storable (m.readStart net) (m.rd 3) (fun i => (m.con.conTake net m.readLen).1.getD i 0)
    (m.con.conTake net m.readLen).1.length

variable {m k : Machine} {va len tpc : U32} {forwrite : Bool} {net : Net}

theorem toNat_readLen_le (m : Machine) : m.readLen.toNat ≤ 4096 := by
  rw [readLen]
  split
  · exact Nat.le_refl 4096
  · next h => exact Nat.not_lt.1 fun hlt => h (BitVec.lt_def.2 hlt)

/-! ## The check -/

/-- The loop of the check ends in time: all pages looked at are there, or it gives up at
the first that is not. -/
theorem ubufFault_in_time (m : Machine) (va len : U32) (forwrite : Bool) (tpc : U32) :
    ((len ≠ 0 → ∀ j < pagesLooked va len, ¬m.Stops va j) ∧
      ubufFault UBUF_TURNS m va len forwrite tpc = some (false, m.checked va len)) ∨
    ∃ i < pagesLooked va len, ubufFault UBUF_TURNS m va len forwrite tpc =
      some (true, m.refusal va forwrite tpc i) := by
  by_cases hlen : len = 0
  · refine .inl ⟨fun hne => absurd hlen hne, ?_⟩
    rw [ubufFault, checked, if_pos hlen, if_pos hlen]
  · have hmore : ∀ {r}, ubufFault (2 ^ 20) m va len forwrite tpc = some r →
        ubufFault UBUF_TURNS m va len forwrite tpc = some r := by
      intro r hrun
      rw [ubufFault, if_neg hlen] at hrun ⊢
      exact Lib.Loops.iterate_mono (Nat.le_succ _) hrun
    rw [checked, if_neg hlen]
    rcases ubufFault_within m va forwrite tpc hlen with ⟨hgo, hrun⟩ | ⟨i, hi, -, -, hrun⟩
    · exact .inl ⟨fun _ => hgo, hmore hrun⟩
    · exact .inr ⟨i, hi, hmore hrun⟩

theorem checked_peeked (m : Machine) (va len : U32) : Peeked m (m.checked va len) := by
  rw [checked]
  split
  · exact Peeked.refl m
  · exact (m.swept_peeked va _).trans (peeked_ufault _ _)

theorem checked_approved {va len : U32} (hspan : bufSpan va len < 2 ^ 20)
    (hgo : len ≠ 0 → ∀ j < pagesLooked va len, ¬m.Stops va j) :
    m.Approved va len (m.checked va len) := by
  by_cases hlen : len = 0
  · rw [checked, if_pos hlen]
    subst hlen
    exact ⟨fun i hi => absurd hi (Nat.not_lt_zero i),
      fun _ _ j hj => absurd hj (Nat.not_lt_zero j), rfl, rfl, rfl⟩
  · rw [checked, if_neg hlen]
    refine (approved_iff (hgo hlen)).2 ⟨fun i hi hmissing => ⟨i, ?_, hmissing⟩,
      fun i hi _ hzero => hgo hlen i hi (.inr hzero)⟩
    rw [pagesLooked, Nat.mod_eq_of_lt hspan]
    exact Nat.lt_of_lt_of_le hi (Nat.min_le_left _ _)

theorem readLen_span (m : Machine) (va : U32) : bufSpan va m.readLen < 2 ^ 20 := by
  have hlen := m.toNat_readLen_le
  rw [bufSpan]
  split
  · decide
  · omega

/-! ## The read -/

theorem Peeked.con (h : Peeked m k) : k.con = m.con := by
  obtain ⟨t, u, s, rfl⟩ := h
  rfl

theorem Peeked.of_setPending {pending : Bool} (h : Peeked m k) : Peeked (m.setPending pending) k := by
  obtain ⟨t, u, s, rfl⟩ := h
  exact ⟨t, u, s, rfl⟩

variable {rest : Machine → Bool × Machine}

theorem pinned_refused (h : ubufFault UBUF_TURNS m va len forwrite tpc = some (true, k)) :
    m.pinned va len forwrite tpc rest = (true, k) := by
  rw [pinned, h]

theorem pinned_approved (h : ubufFault UBUF_TURNS m va len forwrite tpc = some (false, k)) :
    m.pinned va len forwrite tpc rest = rest k := by
  rw [pinned, h]

theorem consoleRead_refused (hcon : m.fdIsConsole (m.rd 2) = true) {i : Nat}
    (h : ubufFault UBUF_TURNS m (m.rd 3) m.readLen true tpc =
      some (true, m.refusal (m.rd 3) true tpc i)) :
    m.ReadRetried tpc (m.consoleRead net tpc).2 := by
  have hread : m.consoleRead net tpc = (true, m.refusal (m.rd 3) true tpc i) := by
    rw [consoleRead]
    dsimp only
    rw [if_neg (not_not.2 hcon)]
    exact pinned_refused h
  have hpeeked := m.pageOutcome_peeked (m.rd 3) i
  rw [hread]
  constructor
  · exact hpeeked.con
  · exact hpeeked.mem
  · rfl
  · rw [← hpeeked.cpu]
    rfl

theorem consoleRead_approved (hcon : m.fdIsConsole (m.rd 2) = true)
    (h : ubufFault UBUF_TURNS m (m.rd 3) m.readLen true tpc =
      some (false, m.checked (m.rd 3) m.readLen)) :
    m.consoleRead net tpc =
      (let r := (m.readStart net).storeUser (m.rd 3) (m.con.conTake net m.readLen).1
       let got := BitVec.ofNat 32 r.1
       (true, (r.2.setCon { r.2.con with inBytes := r.2.con.inBytes + got }).served got tpc)) := by
  have hconsole := (m.checked_peeked (m.rd 3) m.readLen).con
  rw [consoleRead]
  dsimp only
  rw [if_neg (not_not.2 hcon), show (if 4096 < m.rd 4 then 4096 else m.rd 4) = m.readLen from rfl,
    pinned_approved h, hconsole]
  rfl

/-! ## What is taken arrives -/

theorem uwriteLoop_con (m : Machine) (va : U32) (src : Nat → U8) (i n : Nat) :
    (m.uwriteLoop va src i n).2.con = m.con := by
  induction n generalizing m i with
  | zero => rfl
  | succ n ih =>
      rw [uwriteLoop]
      split
      · exact (copyTranslate_peeked _ _).con
      · exact (ih _ _).trans (copyTranslate_peeked _ _).con

theorem uwriteMem_con (m : Machine) (va : U32) (src : Nat → U8) (n : Nat) :
    (m.uwriteMem va src n).2.con = m.con := m.uwriteLoop_con va src 0 n

theorem readStart_con (net : Net) (m : Machine) :
    (m.readStart net).con = (m.con.conTake net m.readLen).2 := rfl

theorem readStart_mem (net : Net) (m : Machine) :
    (m.readStart net).mem = (m.checked (m.rd 3) m.readLen).mem := rfl

theorem readStart_ufault (net : Net) (m : Machine) :
    (m.readStart net).ufault = (m.checked (m.rd 3) m.readLen).ufault := rfl

/-- A byte that was resident before the read, and still is where it was, is stored. -/
theorem Storable.there {src : Nat → U8} {n : Nat} (h : m.Storable k va src n) {i : Nat}
    (hi : i < n) (hresident : ¬m.Faults (byteAddr va i)) : k.ByteThere va src i := by
  have hclear : ¬(k.stores va src i).Faults (byteAddr va i) := mt (h.faults i hi).1 hresident
  have hplace : k.storePlace va src i ≠ 0 := (h.place i hi).trans_ne (h.frame i hi)
  rw [ByteThere, copyStops, Bool.or_eq_false_iff]
  exact ⟨Bool.eq_false_iff.2 hclear, decide_eq_false hplace⟩

theorem Storable.stored {src : Nat → U8} {n : Nat} (h : m.Storable k va src n)
    (hreal : k.mem.realmm = m.mem.realmm) (hresident : ∀ i < n, ¬m.Faults (byteAddr va i)) :
    (k.uwriteMem va src n).1 = n ∧
      (∀ i < n, (k.uwriteMem va src n).2.mem.r8 (m.bufPlace va i) = src i) ∧
      ∀ b, (∀ i < n, cphys m.mem.realmm b ≠ cphys m.mem.realmm (m.bufPlace va i)) →
        (k.uwriteMem va src n).2.mem.r8 b = k.mem.r8 b := by
  have hcount : (k.uwriteMem va src n).1 = n :=
    (k.uwriteMem_count va src n).2.2 fun i hi => h.there hi (hresident i hi)
  have hwritten := k.uwriteMem_written va src n
  have hstored := hwritten.stored
  have hrest := hwritten.rest
  rw [hcount, hreal] at hstored hrest
  refine ⟨hcount, fun i hi => ?_, fun b hb => hrest b fun i hi => ?_⟩
  · have hlast : ∀ j < n, i < j → cphys m.mem.realmm (k.storePlace va src i) ≠
        cphys m.mem.realmm (k.storePlace va src j) := by
      intro j hj hlt
      rw [h.place i hi, h.place j hj]
      exact h.own i hi j hj (Nat.ne_of_lt hlt)
    rw [← h.place i hi]
    exact hstored i hi hlast
  · rw [h.place i hi]
    exact hb i hi

theorem readTaken_of_storable (hreal : m.mem.realmm = true) (hwrite : m.xlatWrite = false)
    (hcon : m.fdIsConsole (m.rd 2) = true)
    (hgo : m.readLen ≠ 0 → ∀ j < pagesLooked (m.rd 3) m.readLen, ¬m.Stops (m.rd 3) j)
    (h : ubufFault UBUF_TURNS m (m.rd 3) m.readLen true tpc =
      some (false, m.checked (m.rd 3) m.readLen))
    (hstore : m.ReadStorable net) : m.ReadTaken net tpc (m.consoleRead net tpc).2 := by
  have happroved := checked_approved (m.readLen_span (m.rd 3)) hgo
  have hlen : (m.con.conTake net m.readLen).1.length ≤ m.readLen.toNat :=
    m.con.length_conTake net m.readLen
  have hbound := m.toNat_readLen_le
  have hmem : (m.readStart net).mem = m.mem := (readStart_mem net m).trans happroved.mem
  obtain ⟨hcount, hinOrder, hrest⟩ := hstore.stored (congrArg Mem.realmm hmem) fun i hi =>
    happroved.now hreal hwrite i (Nat.lt_of_lt_of_le hi hlen)
  have hconsole : ((m.readStart net).uwriteMem (m.rd 3)
      (fun i => (m.con.conTake net m.readLen).1.getD i 0) (m.con.conTake net m.readLen).1.length).2.con =
        (m.con.conTake net m.readLen).2 := (uwriteMem_con _ _ _ _).trans (readStart_con net m)
  have hufault : ((m.readStart net).uwriteMem (m.rd 3)
      (fun i => (m.con.conTake net m.readLen).1.getD i 0)
        (m.con.conTake net m.readLen).1.length).2.ufault = m.ufault :=
    (uwriteMem_written _ _ _ _).ufault.trans ((readStart_ufault net m).trans happroved.ufault)
  have hret : (BitVec.ofNat 32 (m.con.conTake net m.readLen).1.length).toNat =
      (m.con.conTake net m.readLen).1.length := by
    rw [BitVec.toNat_ofNat]
    exact Nat.mod_eq_of_lt (by omega)
  rw [hmem] at hrest
  rw [consoleRead_approved hcon h, storeUser]
  generalize (m.readStart net).uwriteMem (m.rd 3)
    (fun i => (m.con.conTake net m.readLen).1.getD i 0) (m.con.conTake net m.readLen).1.length = r
    at hcount hinOrder hrest hconsole hufault ⊢
  have hr2 : ∀ ret : U32, ((r.2.setCon { r.2.con with inBytes := r.2.con.inBytes + ret }).served ret
      tpc).rd 2 = ret := fun ret => Machine.rd_wr _ (by decide) (by decide) ret
  dsimp only
  rw [hcount]
  constructor
  · rw [hr2]
    exact hret
  · rw [hr2]
    rw [← hconsole]
    rfl
  · rw [hr2, hret]
    exact hinOrder
  · rw [hr2, hret]
    exact hrest
  · exact hufault
  · rfl

/-! ## Buffers of a process -/

/-- The user address `a` needs no table any more. -/
def Pinned (m : Machine) (a : U32) : Prop := m.Direct ∨ m.Hit a false

/-- A buffer in the user space of a process, no byte of which lies in the area pointer. -/
structure ClearOfPointer (m : Machine) (va len : U32) : Prop where
  process : m.cfg.procexp = true
  user : va.toNat + len.toNat ≤ 0xC0000000
  clear : ∀ i < len.toNat, ∀ j < 4, cphys m.mem.realmm (m.bufPlace va i) ≠
    cphys m.mem.realmm (byteAddr (cmmuBase false + m.aprOffset) j)

variable {a b : U32} {r : U32 × Machine}

theorem pinned_congr (h : pageAddr a = pageAddr b) : m.Pinned a ↔ m.Pinned b :=
  or_congr_right (hit_congr h false)

theorem Loads.pinned (h : Loads m a r) (hproc : m.cfg.procexp = true)
    (hstart : m.ufault.pending = false) (hclear : ¬r.2.ufault.pending = true) : r.2.Pinned a := by
  cases h with
  | direct h => exact .inl h
  | hit _ hit => exact .inr hit
  | fill _ _ _ => exact .inr (hit_tlbFill false a _)
  | none _ _ _ =>
      have hfault : m.cfg.procexp = true ∧ ¬m.ufault.pending = true :=
        ⟨hproc, Bool.eq_false_iff.1 hstart⟩
      rw [if_pos hfault] at hclear
      exact absurd rfl hclear

theorem Loads.pinned_of_apart (h : Loads m b r) (hapart : Apart a b) (hpinned : m.Pinned a) :
    r.2.Pinned a := by
  cases h with
  | direct | hit => exact hpinned
  | none =>
      split
      · exact hpinned
      · exact hpinned
  | fill _ _ _ =>
      refine hpinned.imp id fun hit => ?_
      rcases hapart with hpage | hindex
      · exact (hit_congr hpage false).2 (hit_tlbFill false b _)
      · rw [Hit, tlbFill_tlb, if_neg hindex]
        exact hit

theorem Loads.of_pinned (h : Loads m a r) (hpinned : m.Pinned a) : r.2 = m := by
  cases h with
  | direct | hit => rfl
  | fill hmapped miss | none hmapped miss => exact absurd hpinned (not_or.2 ⟨hmapped, miss⟩)

/-- `s` finds the pages that `k` has pinned where `k` does. -/
structure StillPinned (k s : Machine) : Prop where
  tlb : s.tlb = k.tlb
  cfg : s.cfg = k.cfg
  cpu : s.cpu = k.cpu
  xlatWrite : s.xlatWrite = k.xlatWrite
  realmm : s.mem.realmm = k.mem.realmm
  pointer : s.mem.r32 (cmmuBase false + k.aprOffset) = k.mem.r32 (cmmuBase false + k.aprOffset)

variable {s : Machine}

theorem stillPinned_setCon (k : Machine) (pending : Bool) (con : Console) :
    StillPinned k ((k.setPending pending).setCon con) :=
  ⟨rfl, rfl, rfl, rfl, rfl, rfl⟩

theorem StillPinned.aprOffset (h : StillPinned k s) : s.aprOffset = k.aprOffset := by
  rw [Machine.aprOffset, Machine.aprOffset, h.cpu]

theorem StillPinned.direct_iff (h : StillPinned k s) : s.Direct ↔ k.Direct := by
  rw [Direct, Direct, h.cfg, h.aprOffset, apr, apr, h.pointer]

theorem StillPinned.hit_iff (h : StillPinned k s) : s.Hit a false ↔ k.Hit a false := by
  rw [Hit, Hit, h.tlb]

theorem StillPinned.pinned (h : StillPinned k s) (hpinned : k.Pinned a) : s.Pinned a :=
  hpinned.imp h.direct_iff.2 h.hit_iff.2

theorem StillPinned.place {r' : U32 × Machine} (h : StillPinned k s) (hpinned : k.Pinned a)
    (hload : Loads k a r) (hload' : Loads s a r') : r'.1 = r.1 := by
  have hmiss : ∀ {x : Prop}, ¬k.Direct → ¬k.Hit a false → x := fun hmapped miss =>
    absurd hpinned (not_or.2 ⟨hmapped, miss⟩)
  cases hload with
  | direct hdirect =>
      cases hload' with
      | direct => rfl
      | hit hmapped | fill hmapped | none hmapped => exact absurd (h.direct_iff.2 hdirect) hmapped
  | hit hmapped hit =>
      cases hload' with
      | direct hdirect => exact absurd (h.direct_iff.1 hdirect) hmapped
      | hit => rw [h.tlb]
      | fill _ miss | none _ miss => exact absurd (h.hit_iff.2 hit) miss
  | fill hmapped miss | none hmapped miss => exact hmiss hmapped miss

theorem StillPinned.copy (h : StillPinned k s) (hwrite : k.xlatWrite = false)
    (ha : ¬0xC0000000 ≤ a) (hpinned : k.Pinned a) :
    (s.copyTranslate a).1 = (k.copyTranslate a).1 ∧ (s.copyTranslate a).2 = s.setPending false := by
  have hload : Loads (k.setPending false) a (k.copyTranslate a) := translate_loads hwrite ha
  have hload' : Loads (s.setPending false) a (s.copyTranslate a) :=
    translate_loads (h.xlatWrite.trans hwrite) ha
  have hstill : StillPinned (k.setPending false) (s.setPending false) :=
    ⟨h.tlb, h.cfg, h.cpu, h.xlatWrite, h.realmm, h.pointer⟩
  exact ⟨hstill.place hpinned hload hload', hload'.of_pinned (hstill.pinned hpinned)⟩

theorem StillPinned.store (h : StillPinned k s) {pa : U32} (v : U8)
    (hclear : ∀ j < 4, cphys k.mem.realmm pa ≠
      cphys k.mem.realmm (byteAddr (cmmuBase false + k.aprOffset) j)) :
    StillPinned k ((s.setPending false).setMem ((s.setPending false).mem.w8 pa v)) where
  tlb := h.tlb
  cfg := h.cfg
  cpu := h.cpu
  xlatWrite := h.xlatWrite
  realmm := h.realmm
  pointer := by
    refine Eq.trans (Mem.r32_congr fun j hj => ?_) h.pointer
    change (s.mem.w8 pa v).r8 _ = _
    rw [Mem.r8_w8, h.realmm, if_neg fun heq => hclear j hj heq.symm]

theorem StillPinned.stores (h : StillPinned k s) (hwrite : k.xlatWrite = false) {src : Nat → U8}
    {i : Nat} (huser : ∀ j < i, ¬0xC0000000 ≤ byteAddr va j)
    (hpinned : ∀ j < i, k.Pinned (byteAddr va j))
    (hclear : ∀ j < i, ∀ d < 4, cphys k.mem.realmm (k.copyTranslate (byteAddr va j)).1 ≠
      cphys k.mem.realmm (byteAddr (cmmuBase false + k.aprOffset) d)) :
    StillPinned k (s.stores va src i) := by
  induction i with
  | zero => exact h
  | succ i ih =>
      have hlast := Nat.lt_succ_self i
      have hstill : StillPinned k (s.stores va src i) := ih
        (fun j hj => huser j (Nat.lt_succ_of_lt hj)) (fun j hj => hpinned j (Nat.lt_succ_of_lt hj))
        fun j hj => hclear j (Nat.lt_succ_of_lt hj)
      obtain ⟨hplace, hstate⟩ := hstill.copy hwrite (huser i hlast) (hpinned i hlast)
      rw [Machine.stores, hplace, hstate]
      exact hstill.store (src i) (hclear i hlast)

theorem page_of_user_byte (va : U32) {i : Nat} (hi : i < len.toNat) :
    ∃ j < bufSpan va len, pageAddr (byteAddr va i) = pageAddr (bufPage va j) := by
  obtain ⟨hpage, hsame⟩ := page_of_byte va hi
  exact ⟨_, Nat.lt_of_lt_of_le hpage (Nat.min_le_left _ _), hsame⟩

theorem swept_loads (m : Machine) (va : U32) (hwrite : m.xlatWrite = false) {a : U32}
    (ha : ¬0xC0000000 ≤ a) (i : Nat) : Loads ((m.swept va i).setPending false) a
      (((m.swept va i).setPending false).translate a false) :=
  translate_loads ((m.swept_peeked va i).xlatWrite.trans hwrite) ha

section User

variable (hwrite : m.xlatWrite = false) (hlen : len.toNat ≤ 4096)
  (huser : va.toNat + len.toNat ≤ 0xC0000000)

include huser

theorem toNat_bufPage_user {i : Nat} (hi : i < bufSpan va len) :
    (bufPage va i).toNat = va.toNat / 4096 * 4096 + 4096 * i ∧
      (bufPage va i).toNat < va.toNat + len.toNat := by
  have hva := va.isLt
  rw [toNat_bufPage]
  rw [bufSpan] at hi
  split at hi
  · exact absurd hi (Nat.not_lt_zero i)
  · next hlen =>
      have hpos : len.toNat ≠ 0 := fun h0 => hlen (BitVec.eq_of_toNat_eq h0)
      omega

theorem bufPage_user {i : Nat} (hi : i < bufSpan va len) : ¬0xC0000000 ≤ bufPage va i := by
  have hpage := toNat_bufPage_user huser hi
  intro hle
  rw [BitVec.le_def] at hle
  change 0xC0000000 ≤ _ at hle
  omega

theorem byteAddr_user {i : Nat} (hi : i < len.toNat) : ¬0xC0000000 ≤ byteAddr va i := by
  intro hle
  rw [BitVec.le_def, toNat_byteAddr] at hle
  change 0xC0000000 ≤ _ at hle
  omega

include hlen in
theorem apart_pages {i j : Nat} (hi : i < bufSpan va len)
    (hj : j < bufSpan va len) : Apart (bufPage va i) (bufPage va j) := by
  have hpage := toNat_bufPage_user huser hi
  have hpage' := toNat_bufPage_user huser hj
  refine apart_of_near ?_ ?_
  · omega
  · omega

include hwrite hlen

theorem pinned_swept (hproc : m.cfg.procexp = true) {i j : Nat}
    (hi : i ≤ bufSpan va len) (hj : j < i) (hgo : ∀ j < i, ¬m.Missing va j) :
    (m.swept va i).Pinned (bufPage va j) := by
  induction i with
  | zero => exact absurd hj (Nat.not_lt_zero j)
  | succ i ih =>
      have hload := m.swept_loads va hwrite (bufPage_user huser hi) i
      rcases Nat.lt_succ_iff_lt_or_eq.1 hj with hlt | rfl
      · have hbefore : (m.swept va i).Pinned (bufPage va j) :=
          ih (Nat.le_of_succ_le hi) hlt fun j hj => hgo j (Nat.lt_succ_of_lt hj)
        exact hload.pinned_of_apart (apart_pages hlen huser (Nat.lt_trans hlt hi) hi) hbefore
      · refine hload.pinned ?_ rfl (hgo j (Nat.lt_succ_self j))
        exact (congrArg Config.procexp (m.swept_peeked va j).cfg).trans hproc

/-- The pages before one of the buffer leave the entries for its bytes alone. -/
theorem byte_keeps {i j : Nat} (hi : i < len.toNat)
    (hj : j ≤ bufSpan va len) : Keeps m (m.swept va j) (byteAddr va i) := by
  refine swept_keeps hwrite fun j' hj' => ?_
  have hpage := toNat_bufPage_user huser (Nat.lt_of_lt_of_le hj' hj)
  refine ⟨bufPage_user huser (Nat.lt_of_lt_of_le hj' hj), apart_of_near ?_ ?_⟩
  · rw [toNat_byteAddr]
    omega
  · rw [toNat_byteAddr]
    omega

theorem bufPlace_eq {i j : Nat} (hi : i < len.toNat)
    (hj : j < bufSpan va len) (hpage : pageAddr (byteAddr va i) = pageAddr (bufPage va j))
    (hthere : ¬m.Missing va j) (hresident : ¬m.Faults (byteAddr va i)) :
    m.bufPlace va i = pageAddr (m.pageOutcome va j).1 ||| offsetOf (byteAddr va i) := by
  have ha := byteAddr_user huser hi
  have hcarried : Carried (byteAddr va i) (m.pageOutcome va j)
      (((m.swept va j).setPending false).translate (byteAddr va i) false) :=
    translate_carried hpage.symm fun h => bufPage_user huser hj h.2
  have hplace := congrArg Prod.fst (hcarried.place (Bool.eq_false_iff.2 hthere))
  have hload₀ : Loads (m.setPending false) (byteAddr va i) (m.copyTranslate (byteAddr va i)) :=
    translate_loads hwrite ha
  have hkeeps : Keeps (m.setPending false) ((m.swept va j).setPending false) (byteAddr va i) :=
    byte_keeps hwrite hlen huser hi (Nat.le_of_lt hj)
  have hpeeked : Peeked (m.setPending false) ((m.swept va j).setPending false) :=
    ((m.swept_peeked va j).trans (peeked_ufault _ _)).of_setPending
  exact (hkeeps.place hpeeked ha hload₀ (m.swept_loads va hwrite ha j)
    (mt (hload₀.pending_iff ha rfl).2 hresident)).symm.trans hplace

end User

theorem toNat_cphys_mod (realmm : Bool) (a : U32) :
    (cphys realmm a).toNat % 4096 = a.toNat % 4096 := by
  rw [cphys_page realmm (rfl : pageAddr a = pageAddr a), toNat_pageAddr_or]
  omega

/-- The check finds the pages of a process's buffer at frames other than frame 0. -/
theorem bufPlace_ne_zero {i j : Nat} (huser : ¬0xC0000000 ≤ bufPage va j)
    (hstop : ¬m.Stops va j)
    (hplace : m.bufPlace va i = pageAddr (m.pageOutcome va j).1 ||| offsetOf (byteAddr va i)) :
    m.bufPlace va i ≠ 0 := by
  have hclear : (m.pageOutcome va j).2.ufault.pending = false :=
    Bool.eq_false_iff.2 fun hmissing => hstop (.inl hmissing)
  have hself : Carried (bufPage va j) (m.pageOutcome va j) (m.pageOutcome va j) :=
    translate_carried rfl fun h => huser h.2
  have hframe := congrArg BitVec.toNat (congrArg Prod.fst (hself.place hclear))
  have haligned : (bufPage va j).toNat % 4096 = 0 := by
    rw [toNat_bufPage]
    omega
  have hne : (m.pageOutcome va j).1.toNat ≠ 0 := fun h0 =>
    hstop ((stops_iff m va j).2 (.inr (BitVec.eq_of_toNat_eq h0)))
  rw [toNat_pageAddr_or] at hframe
  rw [hplace, Ne, ← BitVec.toNat_inj, toNat_pageAddr_or]
  change ¬_ = 0
  omega

theorem ClearOfPointer.storable (h : m.ClearOfPointer va len) (hwrite : m.xlatWrite = false)
    (hlen : len.toNat ≤ 4096) (hgo : ∀ j < bufSpan va len, ¬m.Stops va j)
    (hresident : ∀ i < len.toNat, ¬m.Faults (byteAddr va i))
    (hk : StillPinned (m.swept va (bufSpan va len)) k) {src : Nat → U8} {n : Nat}
    (hn : n ≤ len.toNat) : m.Storable k va src n := by
  have hmissing : ∀ j < bufSpan va len, ¬m.Missing va j := fun j hj hgone => hgo j hj (.inl hgone)
  have hpeeked := m.swept_peeked va (bufSpan va len)
  have hwrite' : (m.swept va (bufSpan va len)).xlatWrite = false := hpeeked.xlatWrite.trans hwrite
  have huser : ∀ i < n, ¬0xC0000000 ≤ byteAddr va i := fun i hi =>
    byteAddr_user h.user (Nat.lt_of_lt_of_le hi hn)
  have hpage : ∀ i < n, ∃ j < bufSpan va len,
      ¬0xC0000000 ≤ bufPage va j ∧ pageAddr (byteAddr va i) = pageAddr (bufPage va j) ∧
      m.bufPlace va i = pageAddr (m.pageOutcome va j).1 ||| offsetOf (byteAddr va i) := by
    intro i hi
    have hi' := Nat.lt_of_lt_of_le hi hn
    obtain ⟨j, hj, hsame⟩ := page_of_user_byte va hi'
    exact ⟨j, hj, bufPage_user h.user hj, hsame,
      bufPlace_eq hwrite hlen h.user hi' hj hsame (hmissing j hj) (hresident i hi')⟩
  have hpinned : ∀ i < n, (m.swept va (bufSpan va len)).Pinned (byteAddr va i) := by
    intro i hi
    obtain ⟨j, hj, -, hsame, -⟩ := hpage i hi
    exact (pinned_congr hsame).2
      (pinned_swept hwrite hlen h.user h.process (Nat.le_refl _) hj hmissing)
  have hplace : ∀ i < n,
      ((m.swept va (bufSpan va len)).copyTranslate (byteAddr va i)).1 = m.bufPlace va i := by
    intro i hi
    have hi' := Nat.lt_of_lt_of_le hi hn
    have hload₀ : Loads (m.setPending false) (byteAddr va i) (m.copyTranslate (byteAddr va i)) :=
      translate_loads hwrite (huser i hi)
    have hkeeps : Keeps (m.setPending false) ((m.swept va (bufSpan va len)).setPending false)
        (byteAddr va i) := byte_keeps hwrite hlen h.user hi' (Nat.le_refl _)
    exact hkeeps.place (hpeeked.trans (peeked_ufault _ _)).of_setPending (huser i hi) hload₀
      (m.swept_loads va hwrite (huser i hi) _)
      (mt (hload₀.pending_iff (huser i hi) rfl).2 (hresident i hi'))
  have hoffset : (m.swept va (bufSpan va len)).aprOffset = m.aprOffset := by
    rw [aprOffset, aprOffset, hpeeked.cpu]
  have hstores : ∀ i < n, StillPinned (m.swept va (bufSpan va len)) (k.stores va src i) := by
    intro i hi
    refine hk.stores hwrite' (fun j hj => huser j (Nat.lt_trans hj hi))
      (fun j hj => hpinned j (Nat.lt_trans hj hi)) fun j hj d hd => ?_
    have hj' := Nat.lt_trans hj hi
    rw [hplace j hj', hpeeked.mem, hoffset]
    exact h.clear j (Nat.lt_of_lt_of_le hj' hn) d hd
  have hcopy := fun i hi => (hstores i hi).copy hwrite' (huser i hi) (hpinned i hi)
  constructor
  · intro i hi
    obtain ⟨j, hj, hjuser, -, hframe⟩ := hpage i hi
    exact bufPlace_ne_zero hjuser (hgo j hj) hframe
  · intro i hi j hj hne heq
    obtain ⟨p, -, -, -, hi'⟩ := hpage i hi
    obtain ⟨q, -, -, -, hj'⟩ := hpage j hj
    have hmod := congrArg (fun a : U32 => a.toNat % 4096) heq
    simp only [toNat_cphys_mod, hi', hj', toNat_pageAddr_or, toNat_byteAddr] at hmod
    omega
  · exact fun i hi => (hcopy i hi).1.trans (hplace i hi)
  · intro i hi
    refine iff_of_false (fun hfaults => ?_) (hresident i (Nat.lt_of_lt_of_le hi hn))
    rw [Faults, show ((k.stores va src i).setPending false).translate (byteAddr va i) false =
      (k.stores va src i).copyTranslate (byteAddr va i) from rfl, (hcopy i hi).2] at hfaults
    exact Bool.false_ne_true hfaults

/-! ## The read as a whole -/

/-- A read loses nothing, if what it takes can be stored: for instance into the user space
of a process, clear of the area pointer. -/
theorem consoleRead_keepsInput (hreal : m.mem.realmm = true) (hwrite : m.xlatWrite = false)
    (hcon : m.fdIsConsole (m.rd 2) = true)
    (hbuf : m.ClearOfPointer (m.rd 3) m.readLen ∨ m.ReadStorable net) :
    m.ReadKeepsInput net tpc := by
  rcases m.ubufFault_in_time (m.rd 3) m.readLen true tpc with ⟨hgo, h⟩ | ⟨i, -, h⟩
  · refine .inr (readTaken_of_storable hreal hwrite hcon hgo h ?_)
    refine hbuf.elim (fun hclear => ?_) id
    have hspan := m.readLen_span (m.rd 3)
    have hlooked : pagesLooked (m.rd 3) m.readLen = bufSpan (m.rd 3) m.readLen :=
      Nat.mod_eq_of_lt hspan
    by_cases hlen : m.readLen = 0
    · have hnone : (m.con.conTake net m.readLen).1.length = 0 := by
        rw [hlen]
        rfl
      rw [ReadStorable, hnone]
      constructor
      all_goals exact fun i hi => absurd hi (Nat.not_lt_zero i)
    · rw [hlooked] at hgo
      refine hclear.storable hwrite m.toNat_readLen_le (hgo hlen)
        ((checked_approved hspan (hlooked ▸ hgo)).now hreal hwrite) ?_
        (m.con.length_conTake net m.readLen)
      rw [readStart, checked, if_neg hlen, hlooked]
      exact stillPinned_setCon _ _ _
  · exact .inl (consoleRead_refused hcon h)

def typing (mem : Mem) (a1 : U32) (input : List U8) : Machine :=
  { Machine.fresh with
    mem := mem
    cpu := { Cpu.blank with r := fun n => if n = 3 then a1 else if n = 4 then 16 else 0 }
    con := Console.initial false false ⟨[], []⟩ ⟨input, []⟩ }

def onePage : Mem :=
  (((Mem.blank true).w32 (0xFFF7E000 + CMMU_UAPR) 0x00120001).w32 0x00120000 0x00121001).w32
    0x00121004 0x00500001

/-- A line of three characters. -/
theorem typing_keepsInput :
    (typing onePage 0x1200 [0x6C, 0x73, 0x0A]).ReadKeepsInput ⟨false, fun _ _ => 0⟩ 0x2000 :=
  consoleRead_keepsInput rfl rfl rfl (.inl ⟨rfl, by decide, by decide +kernel⟩)

/-! ## A buffer in the area pointer -/

/-- Every word a descriptor of the page that the data CMMU has its registers in. -/
def allRegisters : Mem := ⟨true, fun _ o => byteOf 0xFFF7E001 (o.toNat % 4)⟩

theorem allRegisters_r32 {a : U32} (h : a.toNat % 4 = 0) : allRegisters.r32 a = 0xFFF7E001 := by
  have hbyte : ∀ i < 4, allRegisters.r8 (byteAddr a i) = byteOf 0xFFF7E001 i := by
    intro i hi
    have hoffset : (byteAddr a i &&& 4095).toNat % 4 = i := by
      rw [BitVec.toNat_and, toNat_byteAddr]
      change ((a.toNat + i) % 2 ^ 32 &&& 2 ^ 12 - 1) % 4 = i
      rw [Nat.and_two_pow_sub_one_eq_mod]
      omega
    exact congrArg (byteOf 0xFFF7E001) hoffset
  have h0 := hbyte 0 (by decide)
  have h1 : allRegisters.r8 (a + 1) = byteOf 0xFFF7E001 1 := hbyte 1 (by decide)
  have h2 : allRegisters.r8 (a + 2) = byteOf 0xFFF7E001 2 := hbyte 2 (by decide)
  have h3 : allRegisters.r8 (a + 3) = byteOf 0xFFF7E001 3 := hbyte 3 (by decide)
  rw [byteAddr_zero] at h0
  rw [Mem.r32_eq, h0, h1, h2, h3]
  exact be32_byteOf _

theorem allRegisters_walk (a : U32) :
    allRegisters.mmuWalk 0 0xFFF7E001 a =
      some (pageAddr 0xFFF7E001 ||| offsetOf a, 0xFFF7E001) := by
  have hbiased : decide ((0 : U32) ≠ 0 ∧ a < 0xC0000000) = false := decide_eq_false fun h => h.1 rfl
  have htab : ∀ i : U32, allRegisters.tabR32 0 (0xFFF7E000 + i * 4) false = 0xFFF7E001 := by
    intro i
    rw [Mem.tabR32, allRegisters_r32]
    · exact if_neg fun h => Bool.noConfusion h.2
    · rw [BitVec.toNat_add, BitVec.toNat_mul]
      change (4294434816 + i.toNat * 4 % 2 ^ 32) % 2 ^ 32 % 4 = 0
      omega
  have hpage : pageAddr 0xFFF7E001 = 0xFFF7E000 := by decide
  have hvalid : ¬(0xFFF7E001 : U32) &&& 1 = 0 := by decide
  unfold Mem.mmuWalk
  simp only [hbiased, hpage, htab, if_neg hvalid]
  exact if_neg (by decide)

/-- The fifth of six keys is not where the check has found its byte: the first four have
switched translation off. -/
theorem typing_scattersInput :
    (typing allRegisters 0x1204 [0x62, 0x62, 0x62, 0x62, 0x62, 0x0A]).cfg.procexp = true ∧
      NoFrameZero (typing allRegisters 0x1204 [0x62, 0x62, 0x62, 0x62, 0x62, 0x0A]) ∧
      ¬(typing allRegisters 0x1204 [0x62, 0x62, 0x62, 0x62, 0x62, 0x0A]).ReadKeepsInput
        ⟨false, fun _ _ => 0⟩ 0x2000 := by
  refine ⟨rfl, ?_, ?_⟩
  · exact noFrameZero_of_walk rfl rfl rfl (allRegisters_r32 (by decide)) (by decide) fun a =>
      ⟨0xFFF7E001, by decide, allRegisters_walk a⟩
  · rintro (hretried | htaken)
    · exact absurd hretried.pending (by decide +kernel)
    · exact absurd (htaken.inOrder 4 (by decide +kernel)) (by decide +kernel)

end Machine

end Nx88
