import Mathlib.Tactic.IntervalCases
import Nx88.Cpu.Spec
import Nx88.Memory.Ram
import Nx88.Mmu.Pages
/-!
# Accesses across pages

`memop` translates the first byte of an access and counts on from there in
physical memory.  Where each byte belongs is up to its own address: the two
agree within a page, and beyond it where the next page lies behind the first.
-/

namespace Nx88

open Lib.Words

namespace Mem

theorem load_add (m : Mem) (a : U32) (bs cs : List U8) :
    m.load a (bs ++ cs) = (m.load a bs).load (byteAddr a bs.length) cs := by
  induction bs generalizing m a with
  | nil => rw [List.nil_append, load, List.length_nil, byteAddr_zero]
  | cons b bs ih => rw [List.cons_append, load, load, ih, List.length_cons, byteAddr_succ]

variable {m m' : Mem} {a : U32}

theorem r16_congr (h : ∀ i < 2, m'.r8 (byteAddr a i) = m.r8 (byteAddr a i)) :
    m'.r16 a = m.r16 a := by
  have h0 := h 0 (by omega)
  have h1 : m'.r8 (a + 1) = m.r8 (a + 1) := h 1 (by omega)
  rw [byteAddr_zero] at h0
  rw [r16, r16, h0, h1]

theorem r32_congr (h : ∀ i < 4, m'.r8 (byteAddr a i) = m.r8 (byteAddr a i)) :
    m'.r32 a = m.r32 a := by
  have h0 := h 0 (by omega)
  have h1 : m'.r8 (a + 1) = m.r8 (a + 1) := h 1 (by omega)
  have h2 : m'.r8 (a + 2) = m.r8 (a + 2) := h 2 (by omega)
  have h3 : m'.r8 (a + 3) = m.r8 (a + 3) := h 3 (by omega)
  rw [byteAddr_zero] at h0
  rw [r32_eq, r32_eq, h0, h1, h2, h3]

end Mem

namespace Machine

/-! ## What an access reads and writes -/

def memopBytes (sub : U32) : Nat := (memopScale sub).toNat

def storeData (m : Machine) (sub D : U32) : List U8 :=
  let word := fun v : U32 => [byteOf v 0, byteOf v 1, byteOf v 2, byteOf v 3]
  let half : U16 := (m.rd D).setWidth 16
  match sub.toNat with
  | 0x00 => [(m.rd D).setWidth 8]
  | 0x01 => word (m.rd D)
  | 0x08 => word (m.rd D) ++ word (m.rd (D + 1))
  | 0x09 => word (m.rd D)
  | 0x0A => [(half >>> 8).setWidth 8, half.setWidth 8]
  | 0x0B => [(m.rd D).setWidth 8]
  | _ => []

/-- An access of memory at the physical addresses from `pa` on: its data are
stored there and nowhere else, and what it loads depends on no other byte. -/
structure AccessesAt (m m' : Machine) (sub D pa : U32) : Prop where
  stored : m'.mem = m.mem.load pa (m.storeData sub D)
  loaded : ∀ mem : Mem, mem.realmm = m.mem.realmm →
    (∀ i < memopBytes sub, mem.r8 (byteAddr pa i) = m.mem.r8 (byteAddr pa i)) →
      ((m.setMem mem).memAccess sub D pa).cpu = m'.cpu

theorem sub_cases {P : U32 → Prop} {sub : U32} (h : sub < 0x0C)
    (hall : ∀ n < 12, P (BitVec.ofNat 32 n)) : P sub := by
  have hlt : sub.toNat < 12 := by
    rw [BitVec.lt_def] at h
    exact h
  have heq : sub = BitVec.ofNat 32 sub.toNat := by rw [BitVec.ofNat_toNat, BitVec.setWidth_eq]
  rw [heq]
  exact hall _ hlt

/-- The registers after an access has loaded what the bytes of `mem` spell. -/
def loadInto (c : Cpu) (mem : Mem) (sub D pa : U32) : Cpu :=
  match sub.toNat with
  | 0x00 => c.wr D ((mem.r8 pa).setWidth 32)
  | 0x01 => c.wr D (mem.r32 pa)
  | 0x02 => c.wr D ((mem.r16 pa).setWidth 32)
  | 0x03 => c.wr D ((mem.r8 pa).setWidth 32)
  | 0x04 => (c.wr D (mem.r32 pa)).wr (D + 1) (mem.r32 (pa + 4))
  | 0x05 => c.wr D (mem.r32 pa)
  | 0x06 => c.wr D (sext16 (mem.r16 pa))
  | 0x07 => c.wr D (sext8 (mem.r8 pa))
  | _ => c

theorem memTransfer_ram (m : Machine) {sub : U32} (hsub : sub < 0x0C) (D pa : U32)
    (hram : ∀ i < memopBytes sub, m.OnRam (byteAddr pa i)) :
    (m.memTransfer sub D pa).mem = m.mem.load pa (m.storeData sub D) ∧
      (m.memTransfer sub D pa).cpu = loadInto m.cpu m.mem sub D pa := by
  revert hram
  refine sub_cases (P := fun sub => (∀ i < memopBytes sub, m.OnRam (byteAddr pa i)) →
    (m.memTransfer sub D pa).mem = m.mem.load pa (m.storeData sub D) ∧
      (m.memTransfer sub D pa).cpu = loadInto m.cpu m.mem sub D pa) hsub fun n hn hram => ?_
  have hfirst : m.OnRam pa := by
    have h0 := hram 0
    rw [byteAddr_zero] at h0
    refine h0 ?_
    interval_cases n <;> decide
  have hread := devRead32_ram (m := m) hfirst.below
  have hwrite := fun v => devWrite32_ram v hfirst
  interval_cases n
  · exact ⟨rfl, rfl⟩
  · exact ⟨Mem.w32_eq_load _ _ _, rfl⟩
  · exact ⟨rfl, rfl⟩
  · exact ⟨rfl, rfl⟩
  · have hnext : m.OnRam (pa + 4) := hram 4 (by decide)
    have hread' : ∀ v, (m.wr D v).devRead32 (pa + 4) = m.mem.r32 (pa + 4) :=
      fun v => devRead32_ram (m := m.wr D v) hnext.below
    change ((m.wr D (m.devRead32 pa)).wr (D + 1)
      ((m.wr D (m.devRead32 pa)).devRead32 (pa + 4))).mem = m.mem ∧
      ((m.wr D (m.devRead32 pa)).wr (D + 1)
        ((m.wr D (m.devRead32 pa)).devRead32 (pa + 4))).cpu = _
    rw [hread', hread]
    exact ⟨rfl, rfl⟩
  · change (m.wr D (m.devRead32 pa)).mem = m.mem ∧ (m.wr D (m.devRead32 pa)).cpu = _
    rw [hread]
    exact ⟨rfl, rfl⟩
  · exact ⟨rfl, rfl⟩
  · exact ⟨rfl, rfl⟩
  · have hnext : (m.setMem (m.mem.w32 pa (m.rd D))).OnRam (pa + 4) := by
      obtain ⟨hbelow, hmailbox⟩ := hram 4 (by decide)
      exact ⟨hbelow, hmailbox⟩
    have hload : m.mem.load pa (m.storeData 8 D) =
        (m.mem.w32 pa (m.rd D)).w32 (pa + 4) (m.rd (D + 1)) := by
      rw [Mem.w32_eq_load, Mem.w32_eq_load]
      exact Mem.load_add _ _ _ _
    change ((m.devWrite32 pa (m.rd D)).devWrite32 (pa + 4)
        ((m.devWrite32 pa (m.rd D)).rd (D + 1))).mem = m.mem.load pa (m.storeData 8 D) ∧
      ((m.devWrite32 pa (m.rd D)).devWrite32 (pa + 4)
        ((m.devWrite32 pa (m.rd D)).rd (D + 1))).cpu = m.cpu
    rw [hwrite, devWrite32_ram _ hnext, hload]
    exact ⟨rfl, rfl⟩
  · change (m.devWrite32 pa (m.rd D)).mem = _ ∧ (m.devWrite32 pa (m.rd D)).cpu = m.cpu
    rw [hwrite]
    exact ⟨Mem.w32_eq_load _ _ _, rfl⟩
  · exact ⟨rfl, rfl⟩
  · have hpoke : (m.setMem (m.mem.w8 pa ((m.rd D).setWidth 8))).tcsPoke pa =
        m.setMem (m.mem.w8 pa ((m.rd D).setWidth 8)) := tcsPoke_ram hfirst.mailbox
    change ((m.setMem (m.mem.w8 pa ((m.rd D).setWidth 8))).tcsPoke pa).mem = _ ∧
      ((m.setMem (m.mem.w8 pa ((m.rd D).setWidth 8))).tcsPoke pa).cpu = m.cpu
    rw [hpoke]
    exact ⟨rfl, rfl⟩

theorem loadInto_congr (c : Cpu) {mem mem' : Mem} {sub : U32} (hsub : sub < 0x0C) (D pa : U32)
    (h : ∀ i < memopBytes sub, mem.r8 (byteAddr pa i) = mem'.r8 (byteAddr pa i)) :
    loadInto c mem sub D pa = loadInto c mem' sub D pa := by
  revert h
  refine sub_cases (P := fun sub => (∀ i < memopBytes sub,
    mem.r8 (byteAddr pa i) = mem'.r8 (byteAddr pa i)) →
      loadInto c mem sub D pa = loadInto c mem' sub D pa) hsub fun n hn h => ?_
  have h8 : mem.r8 pa = mem'.r8 pa := by
    have h0 := h 0
    rw [byteAddr_zero] at h0
    refine h0 ?_
    interval_cases n <;> decide
  have h16 : 2 ≤ memopBytes (BitVec.ofNat 32 n) → mem.r16 pa = mem'.r16 pa :=
    fun hle => Mem.r16_congr fun i hi => h i (lt_of_lt_of_le hi hle)
  have h32 : 4 ≤ memopBytes (BitVec.ofNat 32 n) → mem.r32 pa = mem'.r32 pa :=
    fun hle => Mem.r32_congr fun i hi => h i (lt_of_lt_of_le hi hle)
  have h64 : 8 ≤ memopBytes (BitVec.ofNat 32 n) → mem.r32 (pa + 4) = mem'.r32 (pa + 4) := by
    intro hle
    refine Mem.r32_congr fun i hi => ?_
    have hi' := h (4 + i) (by omega)
    rw [← byteAddr_add] at hi'
    exact hi'
  interval_cases n
  · change c.wr D ((mem.r8 pa).setWidth 32) = c.wr D ((mem'.r8 pa).setWidth 32)
    rw [h8]
  · change c.wr D (mem.r32 pa) = c.wr D (mem'.r32 pa)
    rw [h32 (by decide)]
  · change c.wr D ((mem.r16 pa).setWidth 32) = c.wr D ((mem'.r16 pa).setWidth 32)
    rw [h16 (by decide)]
  · change c.wr D ((mem.r8 pa).setWidth 32) = c.wr D ((mem'.r8 pa).setWidth 32)
    rw [h8]
  · change (c.wr D (mem.r32 pa)).wr (D + 1) (mem.r32 (pa + 4)) =
      (c.wr D (mem'.r32 pa)).wr (D + 1) (mem'.r32 (pa + 4))
    rw [h32 (by decide), h64 (by decide)]
  · change c.wr D (mem.r32 pa) = c.wr D (mem'.r32 pa)
    rw [h32 (by decide)]
  · change c.wr D (sext16 (mem.r16 pa)) = c.wr D (sext16 (mem'.r16 pa))
    rw [h16 (by decide)]
  · change c.wr D (sext8 (mem.r8 pa)) = c.wr D (sext8 (mem'.r8 pa))
    rw [h8]
  all_goals exact Eq.refl c

theorem memAccess_accessesAt (m : Machine) {sub : U32} (hsub : sub < 0x0C) (D pa : U32)
    (hbytes : 0 < memopBytes sub) (hram : ∀ i < memopBytes sub, m.OnRam (byteAddr pa i)) :
    AccessesAt m (m.memAccess sub D pa) sub D pa := by
  have hbelow : pa < 0xE0000000 := by
    have h0 := hram 0 hbytes
    rw [byteAddr_zero] at h0
    exact h0.below
  obtain ⟨hmem, hcpu⟩ := memTransfer_ram m hsub D pa hram
  rw [memAccess_ram m sub D hbelow]
  refine ⟨hmem, fun mem _ hsame => ?_⟩
  have hram' : ∀ i < memopBytes sub, (m.setMem mem).OnRam (byteAddr pa i) :=
    fun i hi => ⟨(hram i hi).below, (hram i hi).mailbox⟩
  rw [memAccess_ram _ sub D hbelow, (memTransfer_ram _ hsub D pa hram').2, hcpu]
  exact loadInto_congr m.cpu hsub D pa hsame

/-! ## Where each byte belongs -/

/-- The place of byte `i` of an access at `ea`, by the translation of its own
address; none if that faults. -/
def ownPlace (m : Machine) (sub ea : U32) (i : Nat) : Option U32 :=
  if (m.memLooked sub (byteAddr ea i)).ufault.pending then none
  else some (cphys m.mem.realmm (m.memAddr sub (byteAddr ea i)))

/-- The place that the access uses for byte `i`. -/
def usedPlace (m : Machine) (sub ea : U32) (i : Nat) : U32 :=
  cphys m.mem.realmm (byteAddr (m.memAddr sub ea) i)

/-- If the access completes, the places it uses are those its addresses name. -/
def Confined (m : Machine) (sub D ea : U32) : Prop :=
  (m.memop sub D ea).ufault.pending = false →
    ∀ i < memopBytes sub, m.ownPlace sub ea i = some (m.usedPlace sub ea i)

def nextPage (ea : U32) : U32 := pageAddr ea + 0x1000

/-- The next page translates for this kind of access, and lies behind the first. -/
def NextFollows (m : Machine) (sub ea : U32) : Prop :=
  (m.memLooked sub (nextPage ea)).ufault.pending = false ∧
    cphys m.mem.realmm (m.memAddr sub (nextPage ea)) =
      cphys m.mem.realmm (nextPage (m.memAddr sub ea))

/-- The bytes beyond the first page are where they should be.  The kernel's
first page behind the last of user space is looked at byte by byte: the linear
map need not keep pages together. -/
def CrossesWell (m : Machine) (sub ea : U32) : Prop :=
  if m.mem.realmm = true ∧ 0xC0000000 ≤ nextPage ea then
    ∀ i < memopBytes sub, 4096 ≤ ea.toNat % 4096 + i →
      m.ownPlace sub ea i = some (m.usedPlace sub ea i)
  else m.NextFollows sub ea

variable {m : Machine} {sub D ea : U32}

theorem memop_completes (hsub : sub < 0x0C) :
    (m.memop sub D ea).ufault.pending = false ↔ (m.memLooked sub ea).ufault.pending = false := by
  have hlda : ¬(0x0C ≤ sub ∧ sub ≤ 0x0F) := fun h => absurd h.1 (BitVec.not_le.2 hsub)
  cases hlook : (m.memLooked sub ea).ufault.pending with
  | true =>
    rw [memop_abort D ea hlda hlook]
    exact iff_of_false (by rw [show (m.memAborted sub ea).ufault.pending =
      (m.memLooked sub ea).ufault.pending from rfl, hlook]; decide) (by decide)
  | false =>
    rw [memop_done D ea hlda hlook]
    obtain ⟨c, p, d, g, t, heq, -⟩ := memAccess_accessed (m.memLooked sub ea) sub D
      (m.memAddr sub ea)
    rw [heq]
    exact iff_of_true hlook rfl

variable (sub) in
theorem memAddr_page {va vb : U32} (h : pageAddr va = pageAddr vb)
    (huser : ¬(m.mem.realmm = true ∧ 0xC0000000 ≤ va))
    (hclear : (m.memLooked sub va).ufault.pending = false) :
    (m.memLooked sub vb).ufault.pending = false ∧
      m.memAddr sub vb = pageAddr (m.memAddr sub va) ||| offsetOf vb := by
  have hcarried : Carried vb ((m.setXlatWrite (isStore sub)).translate va false)
      ((m.setXlatWrite (isStore sub)).translate vb false) := translate_carried h huser
  obtain ⟨hfaults, hplace⟩ := hcarried
  exact ⟨hfaults.trans hclear, congrArg Prod.fst (hplace hclear)⟩

theorem toNat_nextPage (ea : U32) :
    (nextPage ea).toNat = (ea.toNat / 4096 * 4096 + 4096) % 2 ^ 32 := by
  rw [nextPage, BitVec.toNat_add, toNat_pageAddr]
  rfl

theorem pageAddr_nextPage (ea : U32) : pageAddr (nextPage ea) = nextPage ea := by
  apply BitVec.eq_of_toNat_eq
  rw [toNat_pageAddr, toNat_nextPage]
  omega

theorem pageAddr_byteAddr {a : U32} {i : Nat} (hi : i < 4096)
    (hcross : 4096 ≤ a.toNat % 4096 + i) : pageAddr (byteAddr a i) = nextPage a := by
  have hlt := a.isLt
  apply BitVec.eq_of_toNat_eq
  rw [toNat_pageAddr, toNat_nextPage, toNat_byteAddr]
  omega

theorem ownPlace_same_page (hea : ea < 0xC0000000)
    (hclear : (m.memLooked sub ea).ufault.pending = false) {i : Nat}
    (hin : ea.toNat % 4096 + i < 4096) :
    m.ownPlace sub ea i = some (m.usedPlace sub ea i) := by
  have huser : ¬(m.mem.realmm = true ∧ 0xC0000000 ≤ ea) := fun h => BitVec.not_le.2 hea h.2
  have hpage : pageAddr ea = pageAddr (byteAddr ea i) := by
    have hlt := ea.isLt
    apply BitVec.eq_of_toNat_eq
    rw [toNat_pageAddr, toNat_pageAddr, toNat_byteAddr]
    omega
  obtain ⟨-, hself⟩ := memAddr_page sub rfl huser hclear
  obtain ⟨hclear', hplace⟩ := memAddr_page sub hpage huser hclear
  have hsame : m.memAddr sub (byteAddr ea i) = byteAddr (m.memAddr sub ea) i := by
    have hlt := ea.isLt
    have hlt' := (m.memAddr sub ea).isLt
    have hoff := congrArg BitVec.toNat hself
    apply BitVec.eq_of_toNat_eq
    rw [toNat_pageAddr_or] at hoff
    rw [hplace, toNat_pageAddr_or, toNat_byteAddr, toNat_byteAddr]
    omega
  rw [ownPlace, if_neg (by rw [hclear']; decide), hsame]
  rfl

/-- The bytes in the next page are where they should be if and only if that page
follows. -/
theorem ownPlace_next_page (hea : ea < 0xC0000000)
    (hclear : (m.memLooked sub ea).ufault.pending = false)
    (hnext : ¬(m.mem.realmm = true ∧ 0xC0000000 ≤ nextPage ea))
    (hbytes : memopBytes sub < 4096) (hcross : 4096 < ea.toNat % 4096 + memopBytes sub) :
    (∀ i < memopBytes sub, 4096 ≤ ea.toNat % 4096 + i →
      m.ownPlace sub ea i = some (m.usedPlace sub ea i)) ↔ m.NextFollows sub ea := by
  have huser : ¬(m.mem.realmm = true ∧ 0xC0000000 ≤ ea) := fun h => BitVec.not_le.2 hea h.2
  obtain ⟨-, hself⟩ := memAddr_page sub rfl huser hclear
  have hoff : (m.memAddr sub ea).toNat % 4096 = ea.toNat % 4096 := by
    have hnat := congrArg BitVec.toNat hself
    rw [toNat_pageAddr_or] at hnat
    omega
  constructor
  · intro hall
    -- the first byte beyond the page
    have hfirst := hall (4096 - ea.toNat % 4096) (by omega) (by omega)
    have hva : byteAddr ea (4096 - ea.toNat % 4096) = nextPage ea := by
      have hlt := ea.isLt
      apply BitVec.eq_of_toNat_eq
      rw [toNat_byteAddr, toNat_nextPage]
      omega
    have hpa : byteAddr (m.memAddr sub ea) (4096 - ea.toNat % 4096) =
        nextPage (m.memAddr sub ea) := by
      have hlt := (m.memAddr sub ea).isLt
      apply BitVec.eq_of_toNat_eq
      rw [toNat_byteAddr, toNat_nextPage]
      omega
    rw [ownPlace, usedPlace, hva, hpa] at hfirst
    split at hfirst
    · exact nomatch hfirst
    · next hok => exact ⟨Bool.eq_false_iff.2 hok, Option.some.inj hfirst⟩
  · rintro ⟨hok, hframe⟩ i hi hin
    have hpage := pageAddr_byteAddr (a := ea) (by omega) hin
    have hpage' := pageAddr_byteAddr (a := m.memAddr sub ea) (i := i) (by omega) (by omega)
    have hsame : pageAddr (nextPage ea) = pageAddr (byteAddr ea i) :=
      (pageAddr_nextPage ea).trans hpage.symm
    obtain ⟨hok', hplace⟩ := memAddr_page sub hsame hnext hok
    rw [ownPlace, if_neg (by rw [hok']; decide), usedPlace]
    have hown : cphys m.mem.realmm (m.memAddr sub (byteAddr ea i)) =
        pageAddr (cphys m.mem.realmm (m.memAddr sub (nextPage ea))) |||
          offsetOf (byteAddr ea i) := by
      rw [hplace]
      refine (cphys_page m.mem.realmm (pageAddr_pageAddr_or _ _).symm).trans ?_
      rw [offsetOf_pageAddr_or]
    have hused : cphys m.mem.realmm (byteAddr (m.memAddr sub ea) i) =
        pageAddr (cphys m.mem.realmm (nextPage (m.memAddr sub ea))) |||
          offsetOf (byteAddr (m.memAddr sub ea) i) :=
      cphys_page m.mem.realmm ((pageAddr_nextPage _).trans hpage'.symm)
    have hoffset : offsetOf (byteAddr (m.memAddr sub ea) i) = offsetOf (byteAddr ea i) := by
      apply BitVec.eq_of_toNat_eq
      rw [toNat_offsetOf, toNat_offsetOf, toNat_byteAddr, toNat_byteAddr]
      omega
    rw [hown, hused, hframe, hoffset]

theorem memopBytes_le (sub : U32) (hsub : sub < 0x0C) : 1 ≤ memopBytes sub ∧ memopBytes sub ≤ 8 := by
  refine sub_cases (P := fun sub => 1 ≤ memopBytes sub ∧ memopBytes sub ≤ 8) hsub fun n hn => ?_
  interval_cases n <;> decide

/-- An access of user space moves the bytes at the physical addresses from the
first byte's on, and these are the bytes its own addresses name if and only if it
faults, or stays within one page, or the next page is there and follows. -/
theorem memop_confined_iff (m : Machine) {sub : U32} (D : U32) {ea : U32} (hsub : sub < 0x0C)
    (hea : ea < 0xC0000000) :
    ((m.memop sub D ea).ufault.pending = false →
      (∀ i < memopBytes sub, (m.memLooked sub ea).OnRam (byteAddr (m.memAddr sub ea) i)) →
        AccessesAt (m.memLooked sub ea) (m.memop sub D ea) sub D (m.memAddr sub ea)) ∧
    (m.Confined sub D ea ↔
      (m.memop sub D ea).ufault.pending = true ∨ ea.toNat % 4096 + memopBytes sub ≤ 4096 ∨
        m.CrossesWell sub ea) := by
  have hlda : ¬(0x0C ≤ sub ∧ sub ≤ 0x0F) := fun h => absurd h.1 (BitVec.not_le.2 hsub)
  obtain ⟨hpos, hle⟩ := memopBytes_le sub hsub
  constructor
  · intro hdone hram
    rw [memop_done D ea hlda ((memop_completes hsub).1 hdone)]
    exact memAccess_accessesAt _ hsub D _ hpos hram
  · cases hpending : (m.memop sub D ea).ufault.pending with
    | true => exact iff_of_true (fun hdone => nomatch hpending.symm.trans hdone) (.inl rfl)
    | false =>
      have hclear := (memop_completes hsub).1 hpending
      have hconfined : m.Confined sub D ea ↔
          ∀ i < memopBytes sub, m.ownPlace sub ea i = some (m.usedPlace sub ea i) :=
        ⟨fun h => h hpending, fun h _ => h⟩
      rw [hconfined]
      by_cases hpage : ea.toNat % 4096 + memopBytes sub ≤ 4096
      · exact iff_of_true (fun i hi => ownPlace_same_page hea hclear (by omega))
          (.inr (.inl hpage))
      · have hbeyond : (∀ i < memopBytes sub, m.ownPlace sub ea i = some (m.usedPlace sub ea i)) ↔
            ∀ i < memopBytes sub, 4096 ≤ ea.toNat % 4096 + i →
              m.ownPlace sub ea i = some (m.usedPlace sub ea i) := by
          refine ⟨fun h i hi _ => h i hi, fun h i hi => ?_⟩
          by_cases hin : ea.toNat % 4096 + i < 4096
          · exact ownPlace_same_page hea hclear hin
          · exact h i hi (Nat.not_lt.1 hin)
        have hcross : m.CrossesWell sub ea ↔
            ∀ i < memopBytes sub, 4096 ≤ ea.toNat % 4096 + i →
              m.ownPlace sub ea i = some (m.usedPlace sub ea i) := by
          rw [CrossesWell]
          split
          · exact Iff.rfl
          · next hnext =>
            exact (ownPlace_next_page hea hclear hnext (by omega) (by omega)).symm
        rw [hbeyond, hcross]
        simp only [Bool.false_eq_true, hpage, false_or]

/-! ## A page with no neighbour -/

/-- A user process with the page at `0x1000` in frame `0x00500000` and the page
at `0x2000` as `desc` says; two registers hold ones. -/
def straddling (desc : U32) : Machine :=
  let mem := (Mem.blank true).w32 (0xFFF7E000 + CMMU_UAPR) 0x00120001
  let mem := mem.w32 0x00120000 0x00121001
  let mem := mem.w32 (0x00121000 + 4) 0x00500001
  { Machine.fresh with
    mem := mem.w32 (0x00121000 + 8) desc
    cpu := { Cpu.blank with r := fun _ => 0xFFFFFFFF } }

theorem straddling_follows : (straddling 0x00501001).CrossesWell 0x09 0x1FFE := by
  rw [CrossesWell, if_neg (by decide +kernel)]
  exact ⟨by decide +kernel, by decide +kernel⟩

/-- A word store across two adjacent frames. -/
theorem straddling_confined : (straddling 0x00501001).Confined 0x09 2 0x1FFE :=
  (memop_confined_iff (straddling 0x00501001) 2 (by decide) (by decide)).2.2
    (.inr (.inr straddling_follows))

/-- The same with nothing mapped at `0x2000`: the store completes, into a frame
that no address of the process names. -/
theorem straddling_not_confined :
    ((straddling 0).memop 0x09 2 0x1FFE).ufault.pending = false ∧
      ((straddling 0).memLooked 0x09 0x2000).ufault.pending = true ∧
      ((straddling 0).memop 0x09 2 0x1FFE).mem.r8 0x00501001 = 0xFF ∧
      ¬(straddling 0).Confined 0x09 2 0x1FFE := by
  have hdone : ((straddling 0).memop 0x09 2 0x1FFE).ufault.pending = false := by decide +kernel
  refine ⟨hdone, by decide +kernel, by decide +kernel, fun hconf => ?_⟩
  exact absurd (hconf hdone 2 (by decide)) (by decide +kernel)

end Machine

end Nx88
