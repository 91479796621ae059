import Nx88.Lib.Loops
import Nx88.Mmu.Steady
/-!
# User buffers

`ubuf_fault` makes the pages of a user's buffer resident before the emulator
touches it.  The loop runs over page addresses modulo 2^32 and stops at the page
behind the last one.
-/

namespace Nx88

open Lib.Words Lib.Loops

namespace Machine

/-- `ufault_pending = save`. -/
def setPending (m : Machine) (pending : Bool) : Machine :=
  { m with ufault := { m.ufault with pending := pending } }

/-- The body of the loop of `ubuf_fault`, at page `p`. -/
def ubufTurn (save : Bool) (va len : U32) (forwrite : Bool) (tpc : U32) (s : U32 × Machine) :
    Turn (U32 × Machine) (Bool × Machine) :=
  let (p, m) := s
  if p = pageAddr (va + len - 1) + 0x1000 then .done (false, m.setPending save)
  else
    let (pa, m) := (m.setPending false).translate p false
    if m.ufault.pending ∨ pa = 0 then
      -- the syscall runs again after the fault
      .done (true, { m with ufault := ⟨true, p, tpc, false, forwrite, 4⟩
                            cpu := { m.cpu with pc := tpc } })
    else .next (p + 0x1000, m)

/-- `ubuf_fault`, if it returns within `n` turns: `true` when the caller must give
up and retry. -/
def ubufFault (n : Nat) (m : Machine) (va len : U32) (forwrite : Bool) (tpc : U32) :
    Option (Bool × Machine) :=
  if len = 0 then some (false, m)
  else iterate (ubufTurn m.ufault.pending va len forwrite tpc) n (pageAddr va, m)

/-! ## The pages of a buffer -/

/-- The number of pages that a buffer runs over.  The longest come back to the
page they started in. -/
def bufSpan (va len : U32) : Nat :=
  if len = 0 then 0 else (va.toNat % 4096 + len.toNat - 1) / 4096 + 1

def bufPages (va len : U32) : Nat := min (bufSpan va len) (2 ^ 20)

def bufPage (va : U32) (i : Nat) : U32 := pageAddr va + BitVec.ofNat 32 (4096 * i)

def swept (m : Machine) (va : U32) : Nat → Machine
  | 0 => m
  | i + 1 => (((m.swept va i).setPending false).translate (bufPage va i) false).2

/-- What translating page `i` gives, after the pages before it. -/
def pageOutcome (m : Machine) (va : U32) (i : Nat) : U32 × Machine :=
  ((m.swept va i).setPending false).translate (bufPage va i) false

/-- Page `i` is not resident. -/
def Missing (m : Machine) (va : U32) (i : Nat) : Prop :=
  (m.pageOutcome va i).2.ufault.pending = true

instance (m : Machine) (va : U32) (i : Nat) : Decidable (m.Missing va i) :=
  inferInstanceAs (Decidable (_ = true))

/-- Page `i` is resident, in physical frame 0. -/
def InFrameZero (m : Machine) (va : U32) (i : Nat) : Prop :=
  ¬m.Missing va i ∧ (m.pageOutcome va i).1 = 0

/-- The address `a` faults when it is translated now. -/
def Faults (m : Machine) (a : U32) : Prop :=
  ((m.setPending false).translate a false).2.ufault.pending = true

instance (m : Machine) (a : U32) : Decidable (m.Faults a) :=
  inferInstanceAs (Decidable (_ = true))

/-- `m'` is `m` after an approval: every byte of the buffer is resident and the
fault record is as it was. -/
structure Approved (m : Machine) (va len : U32) (m' : Machine) : Prop where
  resident : ∀ i < bufPages va len, ¬m.Missing va i
  now : m.mem.realmm = true → m.xlatWrite = false →
    ∀ j < len.toNat, ¬m.Faults (byteAddr va j)
  ufault : m'.ufault = m.ufault
  cpu : m'.cpu = m.cpu
  mem : m'.mem = m.mem

/-- `m'` is `m` after a refusal: one fault is pending, at the first page that is
missing, and the syscall will run again. -/
structure Refused (m : Machine) (va len : U32) (forwrite : Bool) (tpc : U32) (m' : Machine) :
    Prop where
  first : ∃ i < bufPages va len, m.Missing va i ∧ (∀ j < i, ¬m.Missing va j) ∧
    m'.ufault = ⟨true, bufPage va i, tpc, false, forwrite, 4⟩
  cpu : m'.cpu = { m.cpu with pc := tpc }
  mem : m'.mem = m.mem

/-- `ubuf_fault` returns, and approves or refuses as it should. -/
def BufferChecked (m : Machine) (va len : U32) (forwrite : Bool) (tpc : U32) : Prop :=
  ∃ n refused m', ubufFault n m va len forwrite tpc = some (refused, m') ∧
    if refused then m.Refused va len forwrite tpc m' else m.Approved va len m'

/-- How many pages the loop looks at: it takes a buffer of 2^20 pages for empty. -/
def pagesLooked (va len : U32) : Nat := bufSpan va len % 2 ^ 20

/-- If a page of the buffer is missing, one of those looked at is, and none of
these before it is in frame 0. -/
structure LookedAt (m : Machine) (va len : U32) : Prop where
  missing : ∀ i < bufPages va len, m.Missing va i → ∃ j < pagesLooked va len, m.Missing va j
  backed : ∀ i < pagesLooked va len, (∀ j < i, ¬m.Missing va j) → ¬m.InFrameZero va i

/-! ## The loop -/

variable {m : Machine} {va len : U32} {forwrite : Bool} {tpc : U32}

theorem toNat_bufPage (va : U32) (i : Nat) :
    (bufPage va i).toNat = (va.toNat / 4096 * 4096 + 4096 * i) % 2 ^ 32 := by
  rw [bufPage, BitVec.toNat_add, toNat_pageAddr, BitVec.toNat_ofNat]
  omega

theorem bufPage_zero (va : U32) : bufPage va 0 = pageAddr va := by
  apply BitVec.eq_of_toNat_eq
  have hlt := va.isLt
  rw [toNat_bufPage, toNat_pageAddr]
  omega

theorem bufPage_succ (va : U32) (i : Nat) : bufPage va i + 0x1000 = bufPage va (i + 1) := by
  apply BitVec.eq_of_toNat_eq
  rw [BitVec.toNat_add, toNat_bufPage, toNat_bufPage]
  change (_ + 4096) % 2 ^ 32 = _
  omega

/-- The end test holds at the pages that are a multiple of 2^20 pages away. -/
theorem end_iff (hlen : len ≠ 0) (i : Nat) :
    bufPage va i = pageAddr (va + len - 1) + 0x1000 ↔ i % 2 ^ 20 = bufSpan va len % 2 ^ 20 := by
  have hva := va.isLt
  have hlt := len.isLt
  have hpos : 0 < len.toNat := by
    rcases Nat.eq_zero_or_pos len.toNat with h0 | hpos
    · exact absurd (BitVec.eq_of_toNat_eq h0) hlen
    · exact hpos
  have hlast : (va + len - 1).toNat = (va.toNat + len.toNat - 1) % 2 ^ 32 := by
    rw [BitVec.toNat_sub, BitVec.toNat_add]
    change (2 ^ 32 - 1 + (va.toNat + len.toNat) % 2 ^ 32) % 2 ^ 32 = _
    omega
  rw [← BitVec.toNat_inj, toNat_bufPage, BitVec.toNat_add, toNat_pageAddr, hlast, bufSpan,
    if_neg hlen]
  change _ = (_ + 4096) % 2 ^ 32 ↔ _
  omega

theorem swept_peeked (m : Machine) (va : U32) (i : Nat) : Peeked m (m.swept va i) := by
  induction i with
  | zero => exact Peeked.refl m
  | succ i ih => exact (ih.trans (peeked_ufault _ _)).trans (translate_peeked _ _ false)

theorem pageOutcome_peeked (m : Machine) (va : U32) (i : Nat) :
    Peeked m (m.pageOutcome va i).2 := m.swept_peeked va (i + 1)

theorem swept_ufault (i : Nat) (h : ∀ j < i, ¬m.Missing va j) (save : Bool) :
    ((m.swept va i).setPending save).ufault = (m.setPending save).ufault := by
  induction i with
  | zero => rfl
  | succ i ih =>
    have hresident := h i (Nat.lt_succ_self i)
    rcases translate_faultOf ((m.swept va i).setPending false) (bufPage va i) false with
      hkept | ⟨-, hmiss | ⟨-, hprotect⟩⟩
    · change ({ (m.swept va (i + 1)).ufault with pending := save } : UFault) = _
      rw [swept, hkept]
      exact ih fun j hj => h j (Nat.lt_succ_of_lt hj)
    · exact absurd (congrArg UFault.pending hmiss) hresident
    · exact absurd (congrArg UFault.pending hprotect) hresident

/-- The machine that a refusal at page `i` leaves. -/
def refusal (m : Machine) (va : U32) (forwrite : Bool) (tpc : U32) (i : Nat) : Machine :=
  { (m.pageOutcome va i).2 with
    ufault := ⟨true, bufPage va i, tpc, false, forwrite, 4⟩
    cpu := { (m.pageOutcome va i).2.cpu with pc := tpc } }

/-- The loop stops at page `i`. -/
def Stops (m : Machine) (va : U32) (i : Nat) : Prop := m.Missing va i ∨ m.InFrameZero va i

theorem stops_iff (m : Machine) (va : U32) (i : Nat) :
    m.Stops va i ↔
      (m.pageOutcome va i).2.ufault.pending = true ∨ (m.pageOutcome va i).1 = 0 := by
  by_cases hmissing : (m.pageOutcome va i).2.ufault.pending = true
  · exact iff_of_true (.inl hmissing) (.inl hmissing)
  · refine ⟨fun h => h.elim .inl fun h0 => .inr h0.2, fun h => ?_⟩
    exact .inr ⟨hmissing, h.resolve_left hmissing⟩

section Loop

variable {save : Bool} (hlen : len ≠ 0)

include hlen

theorem turn_end (k : Machine) :
    ubufTurn save va len forwrite tpc (bufPage va (pagesLooked va len), k) =
      .done (false, k.setPending save) := by
  have hend : bufPage va (pagesLooked va len) = pageAddr (va + len - 1) + 0x1000 :=
    (end_iff hlen _).2 (Nat.mod_mod _ _)
  exact if_pos hend

variable (m forwrite tpc save) in
theorem turn_page {i : Nat} (hi : i < pagesLooked va len) :
    ubufTurn save va len forwrite tpc (bufPage va i, m.swept va i) =
      if (m.pageOutcome va i).2.ufault.pending = true ∨ (m.pageOutcome va i).1 = 0 then
        .done (true, m.refusal va forwrite tpc i)
      else .next (bufPage va (i + 1), m.swept va (i + 1)) := by
  have hne : ¬bufPage va i = pageAddr (va + len - 1) + 0x1000 := by
    intro heq
    have hmod := (end_iff hlen i).1 heq
    rw [pagesLooked] at hi
    omega
  rw [ubufTurn]
  dsimp only
  rw [if_neg hne, bufPage_succ]
  rfl

theorem run_through {i d : Nat} (hd : i + d = pagesLooked va len)
    (hgo : ∀ j < pagesLooked va len, ¬m.Stops va j) :
    iterate (ubufTurn save va len forwrite tpc) (d + 1) (bufPage va i, m.swept va i) =
      some (false, (m.swept va (pagesLooked va len)).setPending save) := by
  induction d generalizing i with
  | zero =>
    obtain rfl : i = pagesLooked va len := hd
    exact iterate_of_done (turn_end hlen _) 0
  | succ d ih =>
    have hi : i < pagesLooked va len := by omega
    have hnext := turn_page m forwrite tpc save hlen hi
    rw [if_neg (mt (stops_iff m va i).2 (hgo i hi))] at hnext
    rw [iterate_of_next hnext]
    exact ih (by omega)

theorem run_until {i d last : Nat} (hd : i + d = last) (hlast : last < pagesLooked va len)
    (hgo : ∀ j < last, ¬m.Stops va j) (hstop : m.Stops va last) :
    iterate (ubufTurn save va len forwrite tpc) (d + 1) (bufPage va i, m.swept va i) =
      some (true, m.refusal va forwrite tpc last) := by
  induction d generalizing i with
  | zero =>
    obtain rfl : i = last := hd
    have hturn := turn_page m forwrite tpc save hlen hlast
    rw [if_pos ((stops_iff m va i).1 hstop)] at hturn
    exact iterate_of_done hturn 0
  | succ d ih =>
    have hi : i < last := by omega
    have hnext := turn_page m forwrite tpc save hlen (hi.trans hlast)
    rw [if_neg (mt (stops_iff m va i).2 (hgo i hi))] at hnext
    rw [iterate_of_next hnext]
    exact ih (by omega)

end Loop

/-! ## Missing pages and missing bytes -/

/-- Translating another address does not bring in a page that is not there. -/
theorem unmapped_after (hreal : m.mem.realmm = true) {a : U32} (b : U32)
    (h : m.Unmapped a) :
    ((m.setPending false).translate b false).2.Unmapped a := by
  have htranslated : Translated [b, 0xC0014058] (m.setPending false)
      ((m.setPending false).translate b false).2 := translate_translated hreal
  have hwalked := htranslated.walked_eq a false
  obtain ⟨t, u, s, heq, hfill⟩ := htranslated
  rw [heq] at hwalked ⊢
  refine ⟨h.process, h.user, h.translated, fun hit => ?_, hwalked.trans h.walk⟩
  rcases hfill false (tlbIndex a) with hkept | ⟨v, -, -, htag, hentry⟩
  · refine h.notCached ?_
    change (t false (tlbIndex a)).tag = tlbTag a at hit
    rw [hkept] at hit
    exact hit
  · -- the entry was filled from the page's own descriptor, and there is none
    have hpage := tlbTag_inj (htag.symm.trans hit)
    have hnone : (m.walked v false).map (cacheWord v) = none := by
      rw [walked_cacheWord m false hpage, h.walk]
      rfl
    exact nomatch hnone.symm.trans hentry

theorem unmapped_swept (hreal : m.mem.realmm = true) {a : U32} (h : m.Unmapped a)
    (i : Nat) : (m.swept va i).Unmapped a := by
  induction i with
  | zero => exact h
  | succ i ih =>
    obtain ⟨t, u, s, heq⟩ := m.swept_peeked va i
    refine unmapped_after ?_ _ ih
    rw [heq]
    exact hreal

section Bytes

variable (hreal : m.mem.realmm = true) (hwrite : m.xlatWrite = false)

include hreal hwrite

theorem faults_iff (a : U32) : m.Faults a ↔ m.Unmapped a := by
  by_cases ha : 0xC0000000 ≤ a
  · refine iff_of_false (fun h => ?_) fun h => h.user ha
    have hkept : ((m.setPending false).translate a false).2.ufault = (m.setPending false).ufault :=
      translate_kernel_ufault false (fun _ => hreal) ha
    exact nomatch (congrArg UFault.pending hkept).symm.trans h
  · have hload : Loads (m.setPending false) a _ := translate_loads hwrite ha
    rw [Faults, hload.pending_iff ha rfl]
    exact ⟨fun h => ⟨h.process, h.user, h.translated, h.notCached, h.walk⟩,
      fun h => ⟨h.process, h.user, h.translated, h.notCached, h.walk⟩⟩

theorem missing_of_faults {a : U32} {i : Nat} (hpage : pageAddr a = pageAddr (bufPage va i))
    (h : m.Faults a) : m.Missing va i := by
  obtain ⟨t, u, s, heq⟩ := m.swept_peeked va i
  have hswept : (m.swept va i).Faults a := by
    refine (faults_iff ?_ ?_ a).2 (unmapped_swept hreal ((faults_iff hreal hwrite a).1 h) i)
    · rw [heq]
      exact hreal
    · rw [heq]
      exact hwrite
  exact (translate_faults_page hpage).trans hswept

end Bytes

variable (va) in
theorem page_of_byte {j : Nat} (hj : j < len.toNat) :
    (va.toNat % 4096 + j) / 4096 % 2 ^ 20 < bufPages va len ∧
      pageAddr (byteAddr va j) =
        pageAddr (bufPage va ((va.toNat % 4096 + j) / 4096 % 2 ^ 20)) := by
  have hva := va.isLt
  have hlen : len ≠ 0 := by
    rintro rfl
    exact absurd hj (Nat.not_lt_zero j)
  constructor
  · rw [bufPages, bufSpan, if_neg hlen]
    omega
  · apply BitVec.eq_of_toNat_eq
    rw [toNat_pageAddr, toNat_pageAddr, toNat_bufPage, toNat_byteAddr]
    omega

theorem bufPage_inj {i j : Nat} (hi : i < 2 ^ 20) (hj : j < 2 ^ 20)
    (h : bufPage va i = bufPage va j) : i = j := by
  have hva := va.isLt
  have hnat := congrArg BitVec.toNat h
  rw [toNat_bufPage, toNat_bufPage] at hnat
  omega

theorem pagesLooked_le (va len : U32) : pagesLooked va len ≤ bufPages va len := by
  rw [pagesLooked, bufPages]
  omega

/-! ## What the check is worth -/

theorem ubufFault_unique {n n' : Nat} {r r' : Bool × Machine}
    (h : ubufFault n m va len forwrite tpc = some r)
    (h' : ubufFault n' m va len forwrite tpc = some r') : r = r' := by
  rw [ubufFault] at h h'
  split at h
  · rw [if_pos ‹_›] at h'
    exact Option.some.inj (h.symm.trans h')
  · rw [if_neg ‹_›] at h'
    exact iterate_unique h h'

variable (m va forwrite tpc) in
/-- The loop runs to its end, or stops at the first page that is not there. -/
theorem ubufFault_within (hlen : len ≠ 0) :
    ((∀ j < pagesLooked va len, ¬m.Stops va j) ∧
      ubufFault (2 ^ 20) m va len forwrite tpc =
        some (false, (m.swept va (pagesLooked va len)).setPending m.ufault.pending)) ∨
    ∃ i < pagesLooked va len, m.Stops va i ∧ (∀ j < i, ¬m.Stops va j) ∧
      ubufFault (2 ^ 20) m va len forwrite tpc = some (true, m.refusal va forwrite tpc i) := by
  have hfirst : (pageAddr va, m) = (bufPage va 0, m.swept va 0) := by rw [bufPage_zero]; rfl
  have hturns : pagesLooked va len < 2 ^ 20 := Nat.mod_lt _ (by decide)
  simp only [ubufFault, if_neg hlen, hfirst]
  by_cases hall : ∀ j < pagesLooked va len, ¬m.Stops va j
  · exact .inl ⟨hall, iterate_mono hturns (run_through hlen (Nat.zero_add _) hall)⟩
  · have hex : ∃ i, i < pagesLooked va len ∧ m.Stops va i := by
      simpa only [not_forall, not_not, exists_prop] using hall
    classical
    obtain ⟨hlast, hstop⟩ := Nat.find_spec hex
    have hbefore : ∀ j < Nat.find hex, ¬m.Stops va j := fun j hj hstops =>
      Nat.find_min hex hj ⟨hj.trans hlast, hstops⟩
    exact .inr ⟨_, hlast, hstop, hbefore, iterate_mono (Nat.lt_trans hlast hturns)
      (run_until hlen (Nat.zero_add _) hlast hbefore hstop)⟩

variable (m va forwrite tpc) in
theorem ubufFault_returns (hlen : len ≠ 0) :
    (∃ n, (∀ j < pagesLooked va len, ¬m.Stops va j) ∧
      ubufFault n m va len forwrite tpc =
        some (false, (m.swept va (pagesLooked va len)).setPending m.ufault.pending)) ∨
    ∃ n, ∃ i < pagesLooked va len, m.Stops va i ∧ (∀ j < i, ¬m.Stops va j) ∧
      ubufFault n m va len forwrite tpc = some (true, m.refusal va forwrite tpc i) :=
  (ubufFault_within m va forwrite tpc hlen).imp (fun h => ⟨_, h⟩) fun h => ⟨_, h⟩

theorem approved_iff (hgo : ∀ j < pagesLooked va len, ¬m.Stops va j) :
    m.Approved va len ((m.swept va (pagesLooked va len)).setPending m.ufault.pending) ↔
      m.LookedAt va len := by
  have hresident : ∀ j < pagesLooked va len, ¬m.Missing va j := fun j hj hmissing =>
    hgo j hj (.inl hmissing)
  have hpeeked := m.swept_peeked va (pagesLooked va len)
  constructor
  · rintro ⟨hall, -, -, -, -⟩
    exact ⟨fun i hi hmissing => absurd hmissing (hall i hi),
      fun i hi _ hzero => hgo i hi (.inr hzero)⟩
  · rintro ⟨hmissing, -⟩
    have hall : ∀ i < bufPages va len, ¬m.Missing va i := by
      intro i hi hgone
      obtain ⟨j, hj, hgone'⟩ := hmissing i hi hgone
      exact hresident j hj hgone'
    refine ⟨hall, fun hreal hwrite j hj hfaults => ?_, swept_ufault _ hresident _, hpeeked.cpu,
      hpeeked.mem⟩
    obtain ⟨hpage, hsame⟩ := page_of_byte va hj
    exact hall _ hpage (missing_of_faults hreal hwrite hsame hfaults)

variable (forwrite tpc) in
theorem refused_iff {i : Nat} (hi : i < pagesLooked va len) (hstop : m.Stops va i)
    (hgo : ∀ j < i, ¬m.Stops va j) :
    m.Refused va len forwrite tpc (m.refusal va forwrite tpc i) ↔ m.LookedAt va len := by
  have hpages := pagesLooked_le va len
  have hbound : bufPages va len ≤ 2 ^ 20 := Nat.min_le_right _ _
  have hbefore : ∀ j < i, ¬m.Missing va j := fun j hj hmissing => hgo j hj (.inl hmissing)
  have hpeeked := m.pageOutcome_peeked va i
  rcases hstop with hmissing | hzero
  · refine iff_of_true ⟨⟨i, by omega, hmissing, hbefore, rfl⟩, ?_, hpeeked.mem⟩
      ⟨fun _ _ _ => ⟨i, hi, hmissing⟩, fun j hj hclear hzero => ?_⟩
    · rw [← hpeeked.cpu]
      rfl
    · rcases Nat.lt_trichotomy j i with hlt | rfl | hgt
      · exact hgo j hlt (.inr hzero)
      · exact hzero.1 hmissing
      · exact hclear i hgt hmissing
  · refine iff_of_false ?_ fun h => h.backed i hi hbefore hzero
    rintro ⟨⟨k, hk, hmissing, -, hrecord⟩, -, -⟩
    obtain rfl : i = k :=
      bufPage_inj (by omega) (by omega) (congrArg UFault.va hrecord)
    exact hzero.1 hmissing

/-- `ubuf_fault` approves the buffers that are resident and refuses the others,
if and only if it looks at a page that is missing when there is one, and finds
none in frame 0 before it. -/
theorem ubufFault_checked_iff (m : Machine) (va len : U32) (forwrite : Bool) (tpc : U32) :
    m.BufferChecked va len forwrite tpc ↔ m.LookedAt va len := by
  by_cases hlen : len = 0
  · subst hlen
    refine iff_of_true ⟨0, false, m, rfl, ?_⟩ ⟨?_, ?_⟩
    · exact ⟨fun i hi => absurd hi (Nat.not_lt_zero i),
        fun _ _ j hj => absurd hj (Nat.not_lt_zero j), rfl, rfl, rfl⟩
    · exact fun i hi => absurd hi (Nat.not_lt_zero i)
    · exact fun i hi => absurd hi (Nat.not_lt_zero i)
  · rcases ubufFault_returns m va forwrite tpc hlen with
      ⟨n, hgo, hrun⟩ | ⟨n, i, hi, hstop, hgo, hrun⟩
    · rw [← approved_iff hgo]
      constructor
      · rintro ⟨n', refused, m', hrun', hright⟩
        obtain ⟨rfl, rfl⟩ := Prod.mk.inj (ubufFault_unique hrun hrun')
        exact hright
      · exact fun hright => ⟨n, false, _, hrun, hright⟩
    · rw [← refused_iff forwrite tpc hi hstop hgo]
      constructor
      · rintro ⟨n', refused, m', hrun', hright⟩
        obtain ⟨rfl, rfl⟩ := Prod.mk.inj (ubufFault_unique hrun hrun')
        exact hright
      · exact fun hright => ⟨n, true, _, hrun, hright⟩

theorem ubufFault_approved {n : Nat} {m' : Machine} (hspan : bufSpan va len < 2 ^ 20)
    (h : ubufFault n m va len forwrite tpc = some (false, m')) :
    m' = (m.swept va (bufSpan va len)).setPending m.ufault.pending ∧ m.Approved va len m' := by
  have hlooked : pagesLooked va len = bufSpan va len := Nat.mod_eq_of_lt hspan
  by_cases hlen : len = 0
  · subst hlen
    obtain rfl : m = m' := congrArg Prod.snd (Option.some.inj h)
    exact ⟨rfl, fun i hi => absurd hi (Nat.not_lt_zero i),
      fun _ _ j hj => absurd hj (Nat.not_lt_zero j), rfl, rfl, rfl⟩
  · rcases ubufFault_returns m va forwrite tpc hlen with
      ⟨n', hgo, hrun⟩ | ⟨n', i, -, -, -, hrun⟩
    · have hm' := (Prod.mk.inj (ubufFault_unique h hrun)).2
      have hpages : ∀ i < bufPages va len, m.Missing va i →
          ∃ j < pagesLooked va len, m.Missing va j := by
        intro i hi hmissing
        refine ⟨i, ?_, hmissing⟩
        rw [bufPages] at hi
        omega
      have hlookedAt : m.LookedAt va len := ⟨hpages, fun i hi _ hzero => hgo i hi (.inr hzero)⟩
      rw [hm']
      exact ⟨by rw [hlooked], (approved_iff hgo).2 hlookedAt⟩
    · exact nomatch (Prod.mk.inj (ubufFault_unique h hrun)).1

theorem swept_keeps (hwrite : m.xlatWrite = false) {a : U32} {i : Nat}
    (hpages : ∀ j < i, ¬0xC0000000 ≤ bufPage va j ∧ Apart a (bufPage va j)) :
    Keeps m (m.swept va i) a := by
  induction i with
  | zero => exact Keeps.refl m a
  | succ i ih =>
    obtain ⟨huser, hapart⟩ := hpages i (Nat.lt_succ_self i)
    have hpeeked : Peeked m ((m.swept va i).setPending false) :=
      (m.swept_peeked va i).trans (peeked_ufault _ _)
    have hkeeps : Keeps m ((m.swept va i).setPending false) a :=
      ih fun j hj => hpages j (Nat.lt_succ_of_lt hj)
    refine hkeeps.load hpeeked (translate_loads ?_ huser) hapart
    obtain ⟨t, u, s, heq⟩ := m.swept_peeked va i
    rw [heq]
    exact hwrite

/-- A buffer of user pages that the tables map, none of them to frame 0, is
approved. -/
theorem ubufFault_of_mapped (hwrite : m.xlatWrite = false) (hspan : bufSpan va len < 4095)
    (hpages : ∀ i < bufSpan va len, ¬0xC0000000 ≤ bufPage va i ∧
      (m.walked (bufPage va i) false).isSome = true ∧ (m.translate (bufPage va i) false).1 ≠ 0) :
    ∃ n k, ubufFault n m va len forwrite tpc = some (false, k) := by
  have hlooked : pagesLooked va len = bufSpan va len := Nat.mod_eq_of_lt (by omega)
  by_cases hlen : len = 0
  · exact ⟨0, m, by rw [ubufFault, if_pos hlen]⟩
  rcases ubufFault_returns m va forwrite tpc hlen with ⟨n, -, hrun⟩ | ⟨-, i, hi, hstop, -, -⟩
  · exact ⟨n, _, hrun⟩
  · rw [hlooked] at hi
    obtain ⟨huser, hmapped, hframe⟩ := hpages i hi
    have hpeeked : Peeked m ((m.swept va i).setPending false) :=
      (m.swept_peeked va i).trans (peeked_ufault _ _)
    have hkeeps : Keeps m ((m.swept va i).setPending false) (bufPage va i) := by
      have hfirst := (hpages 0 (by omega)).1
      rw [BitVec.le_def, toNat_bufPage] at hfirst
      change ¬0xC0000000 ≤ _ at hfirst
      refine swept_keeps hwrite fun j hj => ⟨(hpages j (by omega)).1, apart_of_near ?_ ?_⟩
      · rw [toNat_bufPage, toNat_bufPage]
        omega
      · rw [toNat_bufPage, toNat_bufPage]
        omega
    have hload : Loads ((m.swept va i).setPending false) (bufPage va i) _ := translate_loads (by
      obtain ⟨t, u, s, heq⟩ := m.swept_peeked va i
      rw [heq]
      exact hwrite) huser
    have hresident : ¬m.Unmapped (bufPage va i) := by
      intro hun
      rw [hun.walk] at hmapped
      exact nomatch hmapped
    rcases hstop with hmissing | ⟨-, hzero⟩
    · exact absurd (hkeeps.unmapped hpeeked ((hload.pending_iff huser rfl).1 hmissing)) hresident
    · have hplace := hkeeps.place hpeeked huser (translate_loads hwrite huser) hload hresident
      exact absurd (hplace.symm.trans hzero) hframe

/-! ## A buffer nobody looks at -/

def unmapped : Machine :=
  { Machine.fresh with mem := (Mem.blank true).w32 (0xFFF7E000 + CMMU_UAPR) 0x00120001 }

/-- 2^20 pages: the end test holds at the first, and the buffer is approved. -/
theorem unmapped_approved :
    ubufFault 1 unmapped 0x1000 0xFFFFF001 false 0x2000 = some (false, unmapped) ∧
      unmapped.Missing 0x1000 0 ∧ unmapped.Faults 0x1000 ∧
      ¬unmapped.BufferChecked 0x1000 0xFFFFF001 false 0x2000 := by
  have hrun : ubufFault 1 unmapped 0x1000 0xFFFFF001 false 0x2000 = some (false, unmapped) := rfl
  have hmissing : unmapped.Missing 0x1000 0 := by decide +kernel
  refine ⟨hrun, hmissing, by decide +kernel, ?_⟩
  rintro ⟨n, refused, m', hrun', hright⟩
  obtain ⟨rfl, rfl⟩ := Prod.mk.inj (ubufFault_unique hrun hrun')
  exact hright.resident 0 (by decide) hmissing

end Machine

end Nx88
