import Mathlib.Order.Bounds.Basic
import Nx88.Disk.Stores
import Nx88.Mmu.Tables
import Nx88.Proc.Copy
/-!
# What the user copies transfer

`uread_str` into its buffer and `uwrite_mem`, byte by byte: each byte is translated
when its turn comes, and the copy ends at the first that is not resident then.
-/

namespace Nx88

open Lib.Words Lib.Scatter

namespace Machine

/-! ## Reading into a buffer -/

/-- The loop of `uread_str` from byte `i`, with room for `n` more. -/
def ureadBufLoop (m : Machine) (va : U32) (buf : Nat → U8) (i : Nat) :
    Nat → Nat × (Nat → U8) × Machine
  | 0 => (i, buf, m)
  | n + 1 =>
    let r := m.copyTranslate (byteAddr va i)
    if copyStops r then (i, buf, r.2)
    else
      let buf := Function.update buf i (r.2.mem.r8 r.1)
      if buf i = 0 then (i, buf, r.2) else r.2.ureadBufLoop va buf (i + 1) n

/-- `uread_str` into a buffer of `n` bytes that holds `buf`. -/
def ureadInto (m : Machine) (va : U32) (buf : Nat → U8) (n : Nat) : Nat × (Nat → U8) × Machine :=
  let r := m.ureadBufLoop va buf 0 (n - 1)
  (r.1, Function.update r.2.1 r.1 0, { r.2.2 with ufault := m.ufault })

/-! ## The bytes at their turns -/

def looked (m : Machine) (va : U32) : Nat → Machine
  | 0 => m
  | i + 1 => ((m.looked va i).copyTranslate (byteAddr va i)).2

/-- What translating byte `i` gives, after the bytes before it. -/
def readPlace (m : Machine) (va : U32) (i : Nat) : U32 × Machine :=
  (m.looked va i).copyTranslate (byteAddr va i)

def charAt (m : Machine) (va : U32) (i : Nat) : U8 := m.mem.r8 (m.readPlace va i).1

/-- Byte `i` is resident when its turn comes, and no NUL. -/
def CharThere (m : Machine) (va : U32) (i : Nat) : Prop :=
  copyStops (m.readPlace va i) = false ∧ m.charAt va i ≠ 0

/-- Where byte `i` of a store goes. -/
def storePlace (m : Machine) (va : U32) (src : Nat → U8) (i : Nat) : U32 :=
  ((m.stores va src i).copyTranslate (byteAddr va i)).1

/-- The address `a` translates now, to an address that is not 0. -/
def Translates (m : Machine) (a : U32) : Prop := copyStops (m.copyTranslate a) = false

instance (m : Machine) (a : U32) : Decidable (m.Translates a) :=
  inferInstanceAs (Decidable (_ = false))

variable {m : Machine} {va : U32}

theorem looked_peeked (m : Machine) (va : U32) (i : Nat) : Peeked m (m.looked va i) := by
  induction i with
  | zero => exact Peeked.refl m
  | succ i ih => exact ih.trans (copyTranslate_peeked _ _)

theorem readPlace_peeked (m : Machine) (va : U32) (i : Nat) : Peeked m (m.readPlace va i).2 :=
  m.looked_peeked va (i + 1)

/-! ## How far a read gets -/

/-- The loop from byte `i` on reads up to the first byte that is no character. -/
structure ReadOn (m : Machine) (va : U32) (buf : Nat → U8) (i n : Nat)
    (r : Nat × (Nat → U8) × Machine) : Prop where
  start : i ≤ r.1
  room : r.1 ≤ i + n
  chars : ∀ j, i ≤ j → j < r.1 → m.CharThere va j ∧ r.2.1 j = m.charAt va j
  stop : r.1 < i + n → ¬m.CharThere va r.1
  kept : ∀ j, j < i ∨ r.1 < j → r.2.1 j = buf j
  peeked : Peeked m r.2.2

theorem ReadOn.here {buf buf' : Nat → U8} {i n : Nat} {k : Machine} (hpeeked : Peeked m k)
    (hstop : 0 < n → ¬m.CharThere va i) (hbuf : ∀ j, j ≠ i → buf' j = buf j) :
    ReadOn m va buf i n (i, buf', k) where
  start := Nat.le_refl i
  room := Nat.le_add_right i n
  chars j hle hlt := absurd hlt (Nat.not_lt.2 hle)
  stop hlt := hstop (Nat.pos_of_lt_add_right hlt)
  kept j hj := hbuf j (by omega)
  peeked := hpeeked

theorem ureadBufLoop_readOn (m : Machine) (va : U32) (buf : Nat → U8) (i n : Nat) :
    ReadOn m va buf i n ((m.looked va i).ureadBufLoop va buf i n) := by
  induction n generalizing buf i with
  | zero => exact .here (m.looked_peeked va i) (fun h => absurd h (Nat.lt_irrefl 0)) fun _ _ => rfl
  | succ n ih =>
      have hpeeked := m.readPlace_peeked va i
      have hchar : (m.readPlace va i).2.mem.r8 (m.readPlace va i).1 = m.charAt va i := by
        rw [hpeeked.mem]
        rfl
      rw [ureadBufLoop]
      simp only [Function.update_self]
      rw [show (m.looked va i).copyTranslate (byteAddr va i) = m.readPlace va i from rfl, hchar]
      by_cases hstop : copyStops (m.readPlace va i) = true
      · rw [if_pos hstop]
        exact .here hpeeked (fun _ h => Bool.noConfusion (hstop.symm.trans h.1)) fun _ _ => rfl
      · rw [if_neg hstop]
        by_cases hnul : m.charAt va i = 0
        · rw [if_pos hnul]
          exact .here hpeeked (fun _ h => h.2 hnul) fun j hj => Function.update_of_ne hj _ _
        · rw [if_neg hnul, show (m.readPlace va i).2 = m.looked va (i + 1) from rfl]
          have hrest := ih (Function.update buf i (m.charAt va i)) (i + 1)
          have hroom : i + 1 + n = i + (n + 1) := by omega
          refine ⟨Nat.le_of_succ_le hrest.start, hroom ▸ hrest.room, fun j hle hlt => ?_,
            fun hlt => hrest.stop (hroom ▸ hlt), fun j hj => ?_, hrest.peeked⟩
          · rcases Nat.eq_or_lt_of_le hle with rfl | hgt
            · refine ⟨⟨Bool.eq_false_iff.2 hstop, hnul⟩, ?_⟩
              exact (hrest.kept i (.inl (Nat.lt_succ_self i))).trans (Function.update_self ..)
            · exact hrest.chars j hgt hlt
          · have hstart := hrest.start
            rw [hrest.kept j (by omega)]
            exact Function.update_of_ne (by omega) _ _

/-! ## The two copies -/

/-- What `uread_str` leaves: the characters up to the first byte that is no
character, or all that there is room for, and a NUL. -/
structure UserRead (m : Machine) (va : U32) (buf : Nat → U8) (n : Nat)
    (r : Nat × (Nat → U8) × Machine) : Prop where
  count : IsGreatest {k | k ≤ n - 1 ∧ ∀ i < k, m.CharThere va i} r.1
  chars : ∀ i < r.1, r.2.1 i = m.charAt va i
  nul : r.2.1 r.1 = 0
  rest : ∀ i, r.1 < i → r.2.1 i = buf i
  ufault : r.2.2.ufault = m.ufault
  cpu : r.2.2.cpu = m.cpu
  mem : r.2.2.mem = m.mem

/-- What `uwrite_mem` leaves: the bytes up to the first that is not resident, each at
the address that it translated to; the last one put into a place stays. -/
structure UserWritten (m : Machine) (va : U32) (src : Nat → U8) (n : Nat)
    (r : Nat × Machine) : Prop where
  count : IsGreatest {k | k ≤ n ∧ ∀ i < k, m.ByteThere va src i} r.1
  stored : ∀ i < r.1, (∀ j < r.1, i < j → cphys m.mem.realmm (m.storePlace va src i) ≠
    cphys m.mem.realmm (m.storePlace va src j)) → r.2.mem.r8 (m.storePlace va src i) = src i
  rest : ∀ b, (∀ i < r.1, cphys m.mem.realmm b ≠ cphys m.mem.realmm (m.storePlace va src i)) →
    r.2.mem.r8 b = m.mem.r8 b
  ufault : r.2.ufault = m.ufault
  cpu : r.2.cpu = m.cpu

theorem isGreatest_of_stop {P : Nat → Prop} {n k : Nat} (hle : k ≤ n) (hbefore : ∀ i < k, P i)
    (hstop : k < n → ¬P k) : IsGreatest {k | k ≤ n ∧ ∀ i < k, P i} k := by
  refine ⟨⟨hle, hbefore⟩, ?_⟩
  rintro k' ⟨hle', hall⟩
  by_contra hlt
  exact hstop (by omega) (hall k (by omega))

theorem ureadInto_read (m : Machine) (va : U32) (buf : Nat → U8) (n : Nat) :
    UserRead m va buf n (m.ureadInto va buf n) := by
  have hloop : ReadOn m va buf 0 (n - 1) (m.ureadBufLoop va buf 0 (n - 1)) :=
    m.ureadBufLoop_readOn va buf 0 (n - 1)
  have hroom := hloop.room
  have hstop := hloop.stop
  rw [Nat.zero_add] at hroom hstop
  unfold ureadInto
  exact {
    count := isGreatest_of_stop hroom (fun i hi => (hloop.chars i (Nat.zero_le i) hi).1) hstop
    chars := fun i hi =>
      (Function.update_of_ne (Nat.ne_of_lt hi) _ _).trans (hloop.chars i (Nat.zero_le i) hi).2
    nul := Function.update_self ..
    rest := fun i hi => (Function.update_of_ne (Nat.ne_of_gt hi) _ _).trans (hloop.kept i (.inr hi))
    ufault := rfl
    cpu := hloop.peeked.cpu
    mem := hloop.peeked.mem }

theorem stores_realmm (m : Machine) (va : U32) (src : Nat → U8) (i : Nat) :
    (m.stores va src i).mem.realmm = m.mem.realmm := by
  induction i with
  | zero => rfl
  | succ i ih =>
      calc (m.stores va src (i + 1)).mem.realmm
          = ((m.stores va src i).copyTranslate (byteAddr va i)).2.mem.realmm := rfl
        _ = (m.stores va src i).mem.realmm := by rw [(copyTranslate_peeked _ _).mem]
        _ = m.mem.realmm := ih

theorem r8_stores (m : Machine) (va : U32) (src : Nat → U8) (k : Nat) :
    (m.stores va src k).mem.r8 =
      scatter (cphys m.mem.realmm) m.mem.r8 (m.storePlace va src) src k := by
  induction k with
  | zero => rfl
  | succ k ih =>
      rw [scatter, ← ih, ← m.stores_realmm va src k, Mem.put_r8]
      change ((copyTranslate _ _).2.mem.w8 _ _).r8 = _
      rw [(copyTranslate_peeked _ _).mem]
      rfl

theorem uwriteLoop_cpu (m : Machine) (va : U32) (src : Nat → U8) (i n : Nat) :
    (m.uwriteLoop va src i n).2.cpu = m.cpu := by
  induction n generalizing m i with
  | zero => rfl
  | succ n ih =>
      rw [uwriteLoop]
      split
      · exact (copyTranslate_peeked _ _).cpu
      · exact (ih _ _).trans (copyTranslate_peeked _ _).cpu

theorem uwriteMem_written (m : Machine) (va : U32) (src : Nat → U8) (n : Nat) :
    UserWritten m va src n (m.uwriteMem va src n) := by
  obtain ⟨⟨-, hle⟩, hthere, hstop, hmem⟩ := m.uwriteLoop_spec va src 0 n
  rw [Nat.zero_add] at hle hstop
  have hr8 : (m.uwriteMem va src n).2.mem.r8 = scatter (cphys m.mem.realmm) m.mem.r8
      (m.storePlace va src) src (m.uwriteMem va src n).1 := by
    rw [← r8_stores]
    exact congrArg Mem.r8 hmem
  constructor
  · exact isGreatest_of_stop hle (fun i hi => hthere i (Nat.zero_le i) hi) hstop
  · intro i hi hlast
    rw [hr8]
    rcases scatter_cases (cphys m.mem.realmm) m.mem.r8 (m.storePlace va src) src
      (m.uwriteMem va src n).1 (m.storePlace va src i) with ⟨-, hout⟩ | ⟨j, hj, hkey, hval, hlater⟩
    · exact absurd rfl (hout i hi)
    · rcases Nat.lt_trichotomy i j with hlt | rfl | hgt
      · exact absurd hkey (hlast j hj hlt)
      · exact hval
      · exact absurd rfl (hlater i hi hgt)
  · intro b hout
    rw [hr8]
    exact scatter_of_outside hout
  · rfl
  · exact m.uwriteLoop_cpu va src 0 n

/-- Where the stores of the call leave the translations of later bytes alone, the bytes
that are transferred are those that were resident before it. -/
theorem uwriteMem_resident {m : Machine} {va : U32} {src : Nat → U8} {n : Nat}
    (h : ∀ i < n, m.ByteThere va src i ↔ m.Translates (byteAddr va i)) :
    IsGreatest {k | k ≤ n ∧ ∀ i < k, m.Translates (byteAddr va i)} (m.uwriteMem va src n).1 := by
  have hsame : {k | k ≤ n ∧ ∀ i < k, m.Translates (byteAddr va i)} =
      {k | k ≤ n ∧ ∀ i < k, m.ByteThere va src i} := by
    ext k
    refine and_congr_right fun hk => forall_congr' fun i => imp_congr_right fun hi => ?_
    exact (h i (Nat.lt_of_lt_of_le hi hk)).symm
  rw [hsame]
  exact (m.uwriteMem_written va src n).count

/-- The user copies leave the fault record and the CPU alone and transfer what is
resident, byte by byte. -/
theorem userCopies_exact (m : Machine) (va : U32) (src buf : Nat → U8) (n : Nat) :
    UserWritten m va src n (m.uwriteMem va src n) ∧ UserRead m va buf n (m.ureadInto va buf n) ∧
      ((∀ i < n, m.ByteThere va src i ↔ m.Translates (byteAddr va i)) →
        IsGreatest {k | k ≤ n ∧ ∀ i < k, m.Translates (byteAddr va i)} (m.uwriteMem va src n).1) :=
  ⟨m.uwriteMem_written va src n, m.ureadInto_read va buf n, uwriteMem_resident⟩

/-! ## A copy that unmaps its own buffer -/

/-- No user address is resident in frame 0. -/
def NoFrameZero (m : Machine) : Prop :=
  ∀ a, ¬0xC0000000 ≤ a → ¬m.Faults a → 4096 ≤ (m.copyTranslate a).1.toNat

theorem noFrameZero_of_walk {m : Machine} {pointer : U32} (hon : m.cfg.translateOn = true)
    (hempty : m.tlb = fun _ _ => ⟨0, 0⟩) (hwrite : m.xlatWrite = false)
    (hapr : m.apr false m.aprOffset = pointer) (hvalid : ¬pointer &&& 1 = 0)
    (hwalk : ∀ a, ∃ pd : U32, 4096 ≤ (pageAddr pd).toNat ∧
      m.mem.mmuWalk m.ktabBias pointer a = some (pageAddr pd ||| offsetOf a, pd)) :
    NoFrameZero m := by
  intro a ha _
  obtain ⟨pd, hframe, hpd⟩ := hwalk a
  have hwalked : (m.setPending false).walked a false = some (pageAddr pd ||| offsetOf a, pd) := by
    rw [walked_user false ha, show (m.setPending false).apr false (m.setPending false).aprOffset =
      pointer from hapr]
    exact Mem.walkFb_of_walk hpd
  have hload : Loads (m.setPending false) a (m.copyTranslate a) := translate_loads hwrite ha
  generalize m.copyTranslate a = copied at hload ⊢
  cases hload with
  | direct h =>
    rcases h with hoff | hoff
    · exact absurd hon hoff
    · exact absurd ((congrArg (· &&& 1) hapr).symm.trans hoff) hvalid
  | hit _ h =>
    rw [Hit, show (m.setPending false).tlb = fun _ _ => ⟨0, 0⟩ from hempty] at h
    exact absurd h (tlbTag_ne_zero a)
  | fill _ _ hr =>
    obtain rfl := Option.some.inj (hr.symm.trans hwalked)
    calc 4096 ≤ (pageAddr pd).toNat := hframe
      _ = pd.toNat / 4096 * 4096 := toNat_pageAddr pd
      _ ≤ pd.toNat / 4096 * 4096 + a.toNat % 4096 := Nat.le_add_right ..
      _ = (pageAddr pd ||| offsetOf a).toNat := (toNat_pageAddr_or pd a).symm
  | none _ _ h => exact absurd (hwalked.symm.trans h) (Option.some_ne_none _)

/-- One page table, for all segments; its page `0x3FD` is the table itself. -/
def selfTables : Mem :=
  Mem.w32 ⟨true, fun p o =>
    if p = 0x120 then byteOf 0x00121001 (o.toNat % 4)
    else if p = 0x121 then
      byteOf (if o >>> 2 = 0x3FD then 0x00121001 else 0x00500001 + (o >>> 2) * 0x1000) (o.toNat % 4)
    else 0⟩ (0xFFF7E000 + CMMU_UAPR) 0x00120001

def selfMapped : Machine := { Machine.fresh with mem := selfTables }

theorem selfTables_segment : ∀ i < 1024,
    selfTables.r32 (0x00120000 + BitVec.ofNat 32 i * 4) = 0x00121001 := by
  decide +kernel

theorem selfTables_page : ∀ i < 1024,
    selfTables.r32 (0x00121000 + BitVec.ofNat 32 i * 4) &&& 1 ≠ 0 ∧
      4096 ≤ (pageAddr (selfTables.r32 (0x00121000 + BitVec.ofNat 32 i * 4))).toNat := by
  decide +kernel

theorem selfTables_walk (a : U32) : ∃ pd : U32, 4096 ≤ (pageAddr pd).toNat ∧
    selfTables.mmuWalk 0 0x00120001 a = some (pageAddr pd ||| offsetOf a, pd) := by
  have hindex : ∀ k, (a >>> k &&& 0x3FF : U32).toNat < 1024 := fun k => by
    rw [toNat_index]
    exact Nat.mod_lt _ (by decide)
  have hseg := selfTables_segment _ (hindex 22)
  have hpage := selfTables_page _ (hindex 12)
  rw [BitVec.ofNat_toNat, BitVec.setWidth_eq] at hseg hpage
  refine ⟨_, hpage.2, ?_⟩
  have hbiased : decide ((0 : U32) ≠ 0 ∧ a < 0xC0000000) = false := decide_eq_false fun h => h.1 rfl
  have htab : ∀ pa, selfTables.tabR32 0 pa false = selfTables.r32 pa := fun pa => by
    rw [Mem.tabR32]
    exact if_neg fun h => Bool.noConfusion h.2
  unfold Mem.mmuWalk
  simp only [hbiased, htab]
  rw [show pageAddr 0x00120001 = 0x00120000 by decide, if_neg (by decide), hseg, if_neg (by decide),
    show pageAddr 0x00121001 = 0x00121000 by decide, if_neg hpage.1]

/-- Four bytes over the end of a page, away from the table. -/
theorem selfMapped_copies : (selfMapped.uwriteMem 0x00400FFE (BitVec.ofNat 8) 4).1 = 4 ∧
    IsGreatest {k | k ≤ 4 ∧ ∀ i < k, selfMapped.Translates (byteAddr 0x00400FFE i)}
      (selfMapped.uwriteMem 0x00400FFE (BitVec.ofNat 8) 4).1 :=
  ⟨by decide +kernel, (userCopies_exact selfMapped 0x00400FFE (BitVec.ofNat 8) (fun _ => 0) 4).2.2
    (by decide +kernel)⟩

theorem selfMapped_noFrameZero : NoFrameZero selfMapped :=
  noFrameZero_of_walk rfl rfl rfl (by decide +kernel) (by decide) selfTables_walk

/-- A store of nine bytes over the table: all of them translate before it, but
the ninth lies in the page whose descriptor the first eight clear.  And the first kernel
address translates without a fault, to the address 0 that ends a copy. -/
theorem selfMapped_stops_early :
    selfMapped.cfg.procexp = true ∧ NoFrameZero selfMapped ∧
      ¬IsGreatest {k | k ≤ 9 ∧ ∀ i < k, ¬selfMapped.Faults (byteAddr 0x003FDFF8 i)}
        (selfMapped.uwriteMem 0x003FDFF8 (fun _ => 0) 9).1 ∧
      ¬IsGreatest {k | k ≤ 1 ∧ ∀ i < k, ¬selfMapped.Faults (byteAddr 0xC0000000 i)}
        (selfMapped.uwriteMem 0xC0000000 (fun _ => 0) 1).1 := by
  refine ⟨rfl, selfMapped_noFrameZero, fun h => ?_, fun h => ?_⟩
  · have hcount : (selfMapped.uwriteMem 0x003FDFF8 (fun _ => 0) 9).1 = 8 := by decide +kernel
    have hmapped : ∀ i < 9, ¬selfMapped.Faults (byteAddr 0x003FDFF8 i) := by decide +kernel
    rw [hcount] at h
    exact absurd (h.2 ⟨Nat.le_refl 9, hmapped⟩) (by decide)
  · have hcount : (selfMapped.uwriteMem 0xC0000000 (fun _ => 0) 1).1 = 0 := by decide +kernel
    have hmapped : ∀ i < 1, ¬selfMapped.Faults (byteAddr 0xC0000000 i) := by decide +kernel
    rw [hcount] at h
    exact absurd (h.2 ⟨Nat.le_refl 1, hmapped⟩) (by decide)

end Machine

end Nx88
