import Nx88.Cpu.Alike
import Nx88.Cpu.Step
import Nx88.Memory.Straddle
/-!
# Write protection

A process stores only into frames that its own data table maps without
protection.  As long as the descriptors of that table lie elsewhere, they stand
as they were, so this holds for any number of its instructions, with everything
that the cache keeps on the way.
-/

namespace Nx88

open Lib Lib.Words

/-! ## Frames -/

def frameOf (realmm : Bool) (pa : U32) : U32 := cphys realmm pa >>> 12

theorem frameOf_byteAddr (realmm : Bool) {pa : U32} {i : Nat} (h : pa.toNat % 4096 + i < 4096) :
    frameOf realmm (byteAddr pa i) = frameOf realmm pa := by
  have hlt := pa.isLt
  have hpage : pageAddr pa = pageAddr (byteAddr pa i) := by
    apply BitVec.eq_of_toNat_eq
    rw [toNat_pageAddr, toNat_pageAddr, toNat_byteAddr]
    omega
  unfold frameOf
  rw [Machine.cphys_page realmm hpage]
  exact (pageAddr_eq_iff _ _).1 (pageAddr_pageAddr_or _ _)

namespace Mem

theorem r8_load_of_frame {m : Mem} {pa b : U32} {bs : List U8}
    (hpage : pa.toNat % 4096 + bs.length ≤ 4096)
    (hframe : frameOf m.realmm b ≠ frameOf m.realmm pa) : (m.load pa bs).r8 b = m.r8 b := by
  refine r8_load_of_outside fun i hi heq => hframe ?_
  have hsame : frameOf m.realmm (byteAddr pa i) = frameOf m.realmm pa :=
    frameOf_byteAddr m.realmm (by omega)
  rw [← hsame]
  unfold frameOf
  rw [heq]

end Mem

namespace Machine

theorem storeData_length_le (m : Machine) {sub : U32} (hsub : sub < 0x0C) (D : U32) :
    (m.storeData sub D).length ≤ memopBytes sub := by
  refine sub_cases (P := fun sub => (m.storeData sub D).length ≤ memopBytes sub) hsub
    fun n hn => ?_
  interval_cases n <;> exact Nat.le_of_ble_eq_true rfl

theorem storeData_load (m : Machine) {sub : U32} (hsub : sub < 0x0C)
    (hload : isStore sub = false) (D : U32) : m.storeData sub D = [] := by
  revert hload
  refine sub_cases (P := fun sub => isStore sub = false → m.storeData sub D = []) hsub
    fun n hn => ?_
  interval_cases n <;> first | exact fun _ => rfl | exact fun h => absurd h (by decide)

theorem load_apr {m : Mem} {pa a : U32} {bs : List U8} (ha : IsApr a)
    (hram : ∀ i < bs.length, byteAddr pa i < 0xE0000000) : (m.load pa bs).r32 a = m.r32 a := by
  have hcases : 0xFFF7E200 ≤ a.toNat ∧ a.toNat + 3 < 2 ^ 32 := by
    obtain ⟨code, rfl | rfl⟩ := ha <;> cases code <;> decide
  have hbyte : ∀ k : U32, k.toNat ≤ 3 → (m.load pa bs).r8 (a + k) = m.r8 (a + k) := by
    intro k hk
    refine Mem.r8_load_of_outside fun i hi heq => ?_
    have hlow := hram i hi
    rw [BitVec.lt_def] at hlow
    have hnat := congrArg BitVec.toNat heq
    have hsum : (a + k).toNat = a.toNat + k.toNat := by
      rw [BitVec.toNat_add]
      omega
    rw [toNat_cphys, toNat_cphys, hsum] at hnat
    simp only [BitVec.ofNat_eq_ofNat, BitVec.toNat_ofNat, Nat.reduceMod, Nat.reducePow] at hlow
    cases m.realmm <;> simp at hnat <;> split_ifs at hnat <;> omega
  have h0 := hbyte 0 (by decide)
  rw [BitVec.ofNat_eq_ofNat, BitVec.add_zero] at h0
  rw [Mem.r32_eq, Mem.r32_eq, h0, hbyte 1 (by decide), hbyte 2 (by decide), hbyte 3 (by decide)]

/-! ## What a process may write -/

/-- The frames that the data table of the process maps unprotected. -/
def Writable (m : Machine) (f : U32) : Prop :=
  ∃ va < (0xC0000000 : U32), ∃ pa pd, m.walked va false = some (pa, pd) ∧ pd &&& PTE_WP = 0 ∧
    frameOf m.mem.realmm pa = f

/-- PSR bit 31 is clear. -/
def InUser (m : Machine) : Prop := m.cpu.cr 1 &&& 0x80000000 = 0

/-- A process whose descriptors lie outside the frames it may write, and whose
pages are plain memory. -/
structure Fenced (m : Machine) : Prop where
  realmm : m.mem.realmm = true
  procexp : m.cfg.procexp = true
  translateOn : m.cfg.translateOn = true
  user : m.InUser
  enabled : m.apr false CMMU_UAPR &&& 1 ≠ 0
  notWriting : m.xlatWrite = false
  fresh : ∀ va < (0xC0000000 : U32), m.Fresh va false
  ram : ∀ va < (0xC0000000 : U32), ∀ pa pd, m.walked va false = some (pa, pd) → m.OnRam pa
  tables : ∀ va < (0xC0000000 : U32), ∀ a ∈ m.consulted va false, ∀ i < 4,
    ¬m.Writable (frameOf true (byteAddr a i))

def stepForm (m : Machine) (h : Host) : Option (U32 × U32) :=
  match m.hooks h with
  | .error _ => none
  | .ok k => k.fetch.2.tick.memForm k.fetch.1

/-- A step of the process: in user mode, in user space, and with an access, if
any, within one page of user space. -/
structure UserStep (m : Machine) (h : Host) : Prop where
  user : m.InUser
  pc : m.cpu.pc < 0xC0000000
  access : ∀ sub ea, m.stepForm h = some (sub, ea) → sub < 0x0C →
    ea < 0xC0000000 ∧ ea.toNat % 4096 + memopBytes sub ≤ 4096

/-- Any number of steps of the process. -/
inductive UserRun (m : Machine) : Machine → Prop
  | refl : UserRun m m
  | step {k : Machine} {h : Host} (run : UserRun m k) (ok : k.UserStep h) :
      UserRun m (k.step h).1

/-! ## The invariant -/

/-- What stays as it was in `m`, and what the cache may hold. -/
structure Within (m k : Machine) : Prop where
  kept : ∀ b, ¬m.Writable (frameOf true b) → k.mem.r8 b = m.mem.r8 b
  apr : k.apr false CMMU_UAPR = m.apr false CMMU_UAPR
  realmm : k.mem.realmm = m.mem.realmm
  cfg : k.cfg = m.cfg
  bias : k.ktabBias = m.ktabBias
  devmap : k.devmap = m.devmap
  mailbox : k.dev.tcsMboxPa = m.dev.tcsMboxPa
  notWriting : k.xlatWrite = false
  entries : ∀ va < (0xC0000000 : U32), k.Hit va false →
    (m.walked va false).map (cacheWord va) = some (k.tlb false (tlbIndex va)).pa

theorem aprOffset_user {m : Machine} (h : m.InUser) : m.aprOffset = CMMU_UAPR := by
  unfold aprOffset
  rw [show m.cpu.cr 1 &&& 0x80000000 = 0 from h]
  rfl

section

variable {m k : Machine}

theorem Fenced.within (h : m.Fenced) : Within m m :=
  ⟨fun _ _ => rfl, rfl, rfl, rfl, rfl, rfl, rfl, h.notWriting, h.fresh⟩

/-- The descriptors stand, so the table says what it said. -/
theorem Within.walked_eq (hfenced : m.Fenced) (h : Within m k) (huser : k.InUser) {va : U32}
    (hva : va < 0xC0000000) : k.walked va false = m.walked va false := by
  have hlow : ¬0xC0000000 ≤ va := BitVec.not_le.2 hva
  refine walked_congr ⟨?_, h.realmm, h.bias, fun _ => by rw [h.devmap]⟩ fun a ha => ?_
  · unfold aprFor
    rw [if_neg hlow, if_neg hlow, aprOffset_user huser, aprOffset_user hfenced.user, h.apr]
  · exact Mem.r32_congr fun i hi => h.kept _ (hfenced.tables va hva a ha i hi)

/-- Registers, program counter, traps, faults and the rest of the devices are
of no account. -/
theorem Within.of_eq {k' : Machine} (h : Within m k) (hmem : k'.mem = k.mem)
    (htlb : k'.tlb = k.tlb) (hcfg : k'.cfg = k.cfg) (hbias : k'.ktabBias = k.ktabBias)
    (hdev : k'.devmap = k.devmap) (hbox : k'.dev.tcsMboxPa = k.dev.tcsMboxPa)
    (hwrite : k'.xlatWrite = k.xlatWrite) : Within m k' where
  kept b hb := by
    rw [hmem]
    exact h.kept b hb
  apr := by
    rw [← h.apr]
    unfold Machine.apr
    rw [hmem]
  realmm := by rw [hmem, h.realmm]
  cfg := hcfg.trans h.cfg
  bias := hbias.trans h.bias
  devmap := hdev.trans h.devmap
  mailbox := hbox.trans h.mailbox
  notWriting := hwrite.trans h.notWriting
  entries va hva hit := by
    unfold Hit at hit
    rw [htlb] at hit ⊢
    exact h.entries va hva hit

theorem Within.translated {k' : Machine} {vas : List U32} (hfenced : m.Fenced) (h : Within m k)
    (huser : k.InUser) (htrans : Translated vas k k') : Within m k' := by
  obtain ⟨t, u, s, rfl, hfill⟩ := htrans
  refine { h with entries := fun va hva hit => ?_ }
  rcases hfill false (tlbIndex va) with hkept | ⟨vb, -, -, htag, hword⟩
  · have hhit : k.Hit va false := (congrArg TlbEnt.tag hkept).symm.trans hit
    exact (h.entries va hva hhit).trans (congrArg (fun e => some (TlbEnt.pa e)) hkept.symm)
  · have hpage : pageAddr va = pageAddr vb := tlbTag_inj (hit.symm.trans htag)
    rw [← h.walked_eq hfenced huser hva, walked_cacheWord k false hpage]
    exact hword

theorem Within.translate (hfenced : m.Fenced) (h : Within m k) (huser : k.InUser) (va : U32)
    (code : Bool) : Within m (k.translate va code).2 :=
  h.translated hfenced huser (translate_translated (h.realmm.trans hfenced.realmm))

/-! ## The access -/

theorem guardWrite_clear {va pa : U32} {wp : Bool} (hproc : k.cfg.procexp = true)
    (hclear : (k.guardWrite va wp pa).2.ufault.pending = false) :
    (k.guardWrite va wp pa).1 = pa ∧ (k.xlatWrite = true → wp = false) := by
  rw [guardWrite_eq] at hclear ⊢
  split at hclear
  · exact absurd hclear (Ne.symm Bool.false_ne_true)
  · next hopen =>
    rw [if_neg hopen]
    refine ⟨rfl, fun hstore => Bool.eq_false_iff.2 fun hwp => hopen ?_⟩
    exact ⟨hwp, hproc, hstore, Bool.eq_false_iff.1 hclear⟩

/-- An access of user space that completes goes where the table says, and a
store only to a page that is not protected. -/
theorem memLooked_user {sub ea : U32} (hproc : k.cfg.procexp = true)
    (hon : k.cfg.translateOn = true) (henabled : k.apr false k.aprOffset &&& 1 ≠ 0)
    (hea : ea < 0xC0000000) (hfresh : k.Fresh ea false)
    (hclear : (k.memLooked sub ea).ufault.pending = false) :
    ∃ pd, k.walked ea false = some (k.memAddr sub ea, pd) ∧
      (isStore sub = true → pd &&& PTE_WP = 0) := by
  have hlow : ¬0xC0000000 ≤ ea := BitVec.not_le.2 hea
  have htranslate : (k.setXlatWrite (isStore sub)).translate ea false =
      (k.setXlatWrite (isStore sub)).translateUser ea false := by
    unfold Machine.translate
    rw [if_neg fun hc => hc hon, if_neg fun hc => hlow hc.2]
  obtain ⟨haddr, hstate⟩ :=
    translateUser_sameOutcome (m := k.setXlatWrite (isStore sub)) hlow hfresh
  have hfault := congrArg Machine.ufault hstate
  simp only [tlbFlush_ufault] at hfault
  have hclear' : ((k.setXlatWrite (isStore sub)).translateUser ea false).2.ufault.pending =
      false := by
    rw [← htranslate]
    exact hclear
  have haddr' : k.memAddr sub ea =
      ((k.setXlatWrite (isStore sub)).translateUser ea false).1 := by
    unfold memAddr
    rw [htranslate]
  rw [haddr', haddr]
  rw [hfault] at hclear'
  have hmiss := not_hit_tlbFlush (k.setXlatWrite (isStore sub)) ea false
  unfold Hit at hmiss
  unfold translateUser at hclear' ⊢
  rw [show (k.setXlatWrite (isStore sub)).tlbFlush.apr false
    (k.setXlatWrite (isStore sub)).tlbFlush.aprOffset = k.apr false k.aprOffset from rfl,
    if_neg henabled] at hclear' ⊢
  simp only [if_neg hmiss] at hclear' ⊢
  rw [walked_user false hlow]
  cases hwalk : k.mem.walkFb k.ktabBias k.devmap (k.apr false k.aprOffset) ea false with
  | none =>
    rw [missUser_none (m := (k.setXlatWrite (isStore sub)).tlbFlush) hwalk] at hclear'
    split at hclear'
    · exact absurd hclear' (Ne.symm Bool.false_ne_true)
    · next hquiet => exact absurd ⟨hproc, Bool.eq_false_iff.1 hclear'⟩ hquiet
  | some r =>
    rw [missUser_some (m := (k.setXlatWrite (isStore sub)).tlbFlush) hwalk] at hclear' ⊢
    obtain ⟨hplace, hopen⟩ := guardWrite_clear
      (k := (k.setXlatWrite (isStore sub)).tlbFlush.tlbFill false ea _) hproc hclear'
    rw [hplace]
    exact ⟨r.2, rfl, fun hstore => not_not.1 (of_decide_eq_false (hopen hstore))⟩

theorem walked_mod {ea pa pd : U32} (h : k.walked ea false = some (pa, pd)) :
    pa.toNat % 4096 = ea.toNat % 4096 := by
  have hoff : pageAddr pa ||| offsetOf ea = pa := walked_offset h
  have hnat := congrArg BitVec.toNat hoff
  rw [toNat_pageAddr_or] at hnat
  omega

theorem walked_byteAddr {ea pa pd : U32} {i : Nat} (hin : ea.toNat % 4096 + i < 4096)
    (h : k.walked ea false = some (pa, pd)) :
    k.walked (byteAddr ea i) false = some (byteAddr pa i, pd) := by
  have hlt := ea.isLt
  have hlt' := pa.isLt
  have hpage : pageAddr (byteAddr ea i) = pageAddr ea := by
    apply BitVec.eq_of_toNat_eq
    rw [toNat_pageAddr, toNat_pageAddr, toNat_byteAddr]
    omega
  have hoff := walked_mod h
  have hplace : pageAddr pa ||| offsetOf (byteAddr ea i) = byteAddr pa i := by
    apply BitVec.eq_of_toNat_eq
    rw [toNat_pageAddr_or, toNat_byteAddr, toNat_byteAddr]
    omega
  rw [walked_rebase k false hpage, h, Option.map_some, rebase, hplace]

theorem byteAddr_lt_kernel {ea : U32} {i : Nat} (hea : ea < 0xC0000000)
    (hin : ea.toNat % 4096 + i < 4096) : byteAddr ea i < 0xC0000000 := by
  rw [BitVec.lt_def, toNat_byteAddr]
  rw [BitVec.lt_def] at hea
  simp only [BitVec.ofNat_eq_ofNat, BitVec.toNat_ofNat, Nat.reduceMod, Nat.reducePow] at hea ⊢
  omega

theorem memLooked_translated {sub ea : U32} (hreal : k.mem.realmm = true)
    (hxlat : k.xlatWrite = false) : Translated [ea, 0xC0014058] k (k.memLooked sub ea) := by
  have hlook : Translated [ea, 0xC0014058] (k.setXlatWrite (isStore sub))
      ((k.setXlatWrite (isStore sub)).translate ea false).2 := translate_translated hreal
  obtain ⟨t, u, s, heq, hfill⟩ := hlook
  refine ⟨t, u, s, ?_, hfill⟩
  unfold memLooked
  rw [heq, ← hxlat]
  rfl

theorem memTransfer_dev (k : Machine) {sub : U32} (hsub : sub < 0x0C) (D pa : U32)
    (hram : ∀ i < memopBytes sub, k.OnRam (byteAddr pa i)) :
    (k.memTransfer sub D pa).dev = k.dev := by
  revert hram
  refine sub_cases (P := fun sub => (∀ i < memopBytes sub, k.OnRam (byteAddr pa i)) →
    (k.memTransfer sub D pa).dev = k.dev) hsub fun n hn hram => ?_
  have hfirst : k.OnRam pa := by
    have h0 := hram 0
    rw [byteAddr_zero] at h0
    refine h0 ?_
    interval_cases n <;> decide
  have hwrite := fun v => devWrite32_ram v hfirst
  interval_cases n
  case «8» =>
    have hnext : (k.setMem (k.mem.w32 pa (k.rd D))).OnRam (pa + 4) := by
      obtain ⟨hbelow, hmailbox⟩ := hram 4 (by decide)
      exact ⟨hbelow, hmailbox⟩
    change ((k.devWrite32 pa (k.rd D)).devWrite32 (pa + 4)
      ((k.devWrite32 pa (k.rd D)).rd (D + 1))).dev = k.dev
    rw [hwrite, devWrite32_ram _ hnext]
    rfl
  case «9» =>
    change (k.devWrite32 pa (k.rd D)).dev = k.dev
    rw [hwrite]
    rfl
  case «11» =>
    have hpoke : (k.setMem (k.mem.w8 pa ((k.rd D).setWidth 8))).tcsPoke pa =
        k.setMem (k.mem.w8 pa ((k.rd D).setWidth 8)) := tcsPoke_ram hfirst.mailbox
    change ((k.setMem (k.mem.w8 pa ((k.rd D).setWidth 8))).tcsPoke pa).dev = k.dev
    rw [hpoke]
    rfl
  all_goals rfl

theorem Within.memAccess {sub D pa pd ea : U32} (hfenced : m.Fenced) (h : Within m k)
    (hsub : sub < 0x0C) (hea : ea < 0xC0000000) (hin : ea.toNat % 4096 + memopBytes sub ≤ 4096)
    (hwalk : m.walked ea false = some (pa, pd)) (hopen : isStore sub = true → pd &&& PTE_WP = 0) :
    Within m (k.memAccess sub D pa) := by
  have hram : ∀ i < memopBytes sub, k.OnRam (byteAddr pa i) := by
    intro i hi
    have hi' : ea.toNat % 4096 + i < 4096 := by omega
    obtain ⟨hbelow, hbox⟩ := hfenced.ram _ (byteAddr_lt_kernel hea hi') _ _
      (walked_byteAddr hi' hwalk)
    exact ⟨hbelow, by rw [h.mailbox]; exact hbox⟩
  obtain ⟨hpos, -⟩ := memopBytes_le sub hsub
  have hbelow : pa < 0xE0000000 := by
    have h0 := hram 0 hpos
    rw [byteAddr_zero] at h0
    exact h0.below
  have hlen := k.storeData_length_le hsub D
  have hmem : (k.memAccess sub D pa).mem = k.mem.load pa (k.storeData sub D) := by
    rw [memAccess_ram k sub D hbelow]
    exact (memTransfer_ram k hsub D pa hram).1
  have hdev : (k.memAccess sub D pa).dev = k.dev := by
    rw [memAccess_ram k sub D hbelow]
    exact memTransfer_dev k hsub D pa hram
  have hreal : k.mem.realmm = true := h.realmm.trans hfenced.realmm
  have hpage := walked_mod hwalk
  obtain ⟨c, p, d, g, t, heq, ht⟩ := memAccess_accessed k sub D pa
  refine ⟨fun b hb => ?_, ?_, ?_, ?_, ?_, ?_, ?_, ?_, fun va hva hit => ?_⟩
  · rw [hmem]
    by_cases hstore : isStore sub = true
    · rw [Mem.r8_load_of_frame (by omega), h.kept b hb]
      intro hframe
      refine hb ⟨ea, hea, pa, pd, hwalk, hopen hstore, ?_⟩
      rw [hreal] at hframe
      rw [hfenced.realmm, hframe]
    · rw [storeData_load k hsub (Bool.eq_false_iff.2 hstore)]
      exact h.kept b hb
  · rw [← h.apr]
    unfold Machine.apr
    rw [hmem]
    exact load_apr ⟨false, .inr rfl⟩ fun i hi => (hram i (by omega)).below
  · rw [heq]
    exact h.realmm
  · rw [heq]
    exact h.cfg
  · rw [heq]
    exact h.bias
  · rw [heq]
    exact h.devmap
  · rw [hdev]
    exact h.mailbox
  · rw [heq]
    exact h.notWriting
  · unfold Hit at hit
    rw [heq] at hit ⊢
    rcases ht with rfl | rfl
    · exact h.entries va hva hit
    · exact absurd hit (tlbTag_ne_zero va)

theorem Within.memop {sub D ea : U32} (hfenced : m.Fenced) (h : Within m k) (huser : k.InUser)
    (hform : sub < 0x10)
    (haccess : sub < 0x0C → ea < 0xC0000000 ∧ ea.toNat % 4096 + memopBytes sub ≤ 4096) :
    Within m (k.memop sub D ea) := by
  by_cases hlda : 0x0C ≤ sub ∧ sub ≤ 0x0F
  · rw [memop_lda D ea hlda]
    exact h.of_eq rfl rfl rfl rfl rfl rfl rfl
  have hsub : sub < 0x0C := by
    rw [BitVec.lt_def] at hform ⊢
    simp only [BitVec.le_def, BitVec.ofNat_eq_ofNat, BitVec.toNat_ofNat, Nat.reduceMod,
      Nat.reducePow] at hlda hform ⊢
    omega
  obtain ⟨hea, hin⟩ := haccess hsub
  have hreal : k.mem.realmm = true := h.realmm.trans hfenced.realmm
  have hlooked : Within m (k.memLooked sub ea) :=
    h.translated hfenced huser (memLooked_translated hreal h.notWriting)
  cases hpending : (k.memLooked sub ea).ufault.pending with
  | true =>
    rw [memop_abort D ea hlda hpending]
    exact hlooked.of_eq rfl rfl rfl rfl rfl rfl rfl
  | false =>
    rw [memop_done D ea hlda hpending]
    have hfresh : k.Fresh ea false := by
      intro hit
      rw [h.walked_eq hfenced huser hea]
      exact h.entries ea hea hit
    have henabled : k.apr false k.aprOffset &&& 1 ≠ 0 := by
      rw [aprOffset_user huser, h.apr]
      exact hfenced.enabled
    obtain ⟨pd, hwalk, hopen⟩ := memLooked_user (by rw [h.cfg]; exact hfenced.procexp)
      (by rw [h.cfg]; exact hfenced.translateOn) henabled hea hfresh hpending
    rw [h.walked_eq hfenced huser hea] at hwalk
    exact hlooked.memAccess hfenced hsub hea hin hwalk hopen

/-! ## The step -/

theorem Within.finish (h : Within m k) (pc : U32) (flow : Flow) :
    Within m (k.finish pc flow).1 := by
  unfold Machine.finish
  split
  · exact h.of_eq rfl rfl rfl rfl rfl rfl rfl
  split
  · exact h
  · unfold sequence
    split
    · exact h.of_eq rfl rfl rfl rfl rfl rfl rfl
    split <;> exact h.of_eq rfl rfl rfl rfl rfl rfl rfl

theorem Within.regsOnly {k' : Machine} (h : Within m k) (hregs : RegsOnly k k') :
    Within m k' := by
  obtain ⟨r, cr, rfl⟩ := hregs
  exact h.of_eq rfl rfl rfl rfl rfl rfl rfl

theorem Within.exec (hfenced : m.Fenced) (h : Within m k) (huser : k.InUser) (host : Host)
    (haccess : ∀ sub ea, k.fetch.2.tick.memForm k.fetch.1 = some (sub, ea) → sub < 0x0C →
      ea < 0xC0000000 ∧ ea.toNat % 4096 + memopBytes sub ≤ 4096) :
    Within m (k.exec host).1 := by
  have hfetch : Within m k.fetch.2 := h.translate hfenced huser k.cpu.pc true
  rw [exec_eq]
  split
  · exact hfetch
  have htick : Within m k.fetch.2.tick := hfetch.of_eq rfl rfl rfl rfl rfl rfl rfl
  have huser' : k.fetch.2.tick.InUser := by
    have hcpu := (fetch_peeked k).cpu
    change k.fetch.2.cpu.cr 1 &&& 0x80000000 = 0
    rw [hcpu]
    exact huser
  refine Within.finish ?_ _ _
  cases hform : k.fetch.2.tick.memForm k.fetch.1 with
  | none => exact htick.regsOnly (execute_plain host k.cpu.pc hform).1
  | some form =>
    obtain ⟨sub, ea⟩ := form
    rw [execute_mem hform]
    exact htick.memop hfenced huser' (memForm_sub hform) (haccess sub ea hform)

theorem Within.splLooked (hfenced : m.Fenced) (h : Within m k) (huser : k.InUser) :
    Within m k.splLooked := by
  have hfirst : Within m (k.kread SPL_LEVEL).2 := h.translate hfenced huser SPL_LEVEL false
  refine hfirst.translate hfenced ?_ SOFTINT_PENDING false
  unfold InUser
  rw [(kread_peeked k SPL_LEVEL).cpu]
  exact huser

theorem forceSig_user (huser : k.InUser) (pc : U32) : (k.forceSig pc).InUser := by
  unfold forceSig
  split
  · exact huser
  · exact huser

theorem Within.forceSig (h : Within m k) (pc : U32) : Within m (k.forceSig pc) := by
  unfold Machine.forceSig
  split
  · exact h.of_eq rfl rfl rfl rfl rfl rfl rfl
  · exact h

theorem Within.takeInterrupt (h : Within m k) {d : Devices}
    (hbox : d.tcsMboxPa = k.dev.tcsMboxPa) : Within m (k.takeInterrupt d) :=
  h.of_eq rfl rfl rfl rfl rfl hbox rfl

theorem intercepts_user (k : Machine) (host : Host) {pc : U32} (hpc : pc < 0xC0000000) :
    k.intercepts host pc = .ok k ∧ ∀ k' : Machine, k'.snoopMaps pc = k' := by
  have hne : ∀ a : U32, 0xC0000000 ≤ a → pc ≠ a := by
    rintro a ha rfl
    exact absurd ha (BitVec.not_le.2 hpc)
  constructor
  · refine intercepts_elsewhere k host fun hmem => ?_
    simp only [interceptPcs, List.mem_cons, List.not_mem_nil, or_false] at hmem
    rcases hmem with h | h | h | h | h | h | h | h | h <;> exact hne _ (by decide) h
  · exact fun k' => snoopMaps_none (fun hc => hne _ (by decide) hc.2.1)
      (fun hc => hne _ (by decide) hc.2)

theorem Within.step {host : Host} (hfenced : m.Fenced) (h : Within m k)
    (hok : k.UserStep host) : Within m (k.step host).1 := by
  obtain ⟨hint, hsnoop⟩ := intercepts_user k host hok.pc
  have haccess := hok.access
  have hstep : k.step host =
      match k.hooks host with
      | .error k' => (k', false)
      | .ok k' => k'.exec host := rfl
  unfold stepForm at haccess
  rw [hooks_eq, hint] at hstep haccess
  rw [hstep]
  cases hsoft : k.softint with
  | error k' =>
    simp only [hsoft]
    rw [(softint_error hsoft).2]
    have hlooked := h.splLooked hfenced hok.user
    refine hlooked.takeInterrupt ?_
    rw [(splLooked_peeked k).dev]
  | ok k₂ =>
    have hspl : Within m k₂ ∧ k₂.InUser := by
      rcases softint_ok hsoft with rfl | rfl
      · exact ⟨h, hok.user⟩
      · refine ⟨h.splLooked hfenced hok.user, ?_⟩
        unfold InUser
        rw [(splLooked_peeked k).cpu]
        exact hok.user
    obtain ⟨hwithin, huser⟩ := hspl
    simp only [hsoft] at haccess ⊢
    cases hhard : k₂.hardclock with
    | error k' =>
      simp only
      rw [(hardclock_error hhard).2.2]
      have htaken : Within m k₂.clockTaken := hwithin.of_eq rfl rfl rfl rfl rfl rfl rfl
      have hread : Within m (k₂.clockTaken.kread SOFTINT_PENDING).2 :=
        htaken.translate hfenced huser SOFTINT_PENDING false
      refine hread.takeInterrupt ?_
      rw [(kread_peeked _ _).dev]
    | ok k₃ =>
      cases hardclock_ok hhard
      simp only [hhard, hsnoop] at haccess ⊢
      exact (hwithin.forceSig k.cpu.pc).exec hfenced (forceSig_user huser _) host haccess

theorem UserRun.within (hfenced : m.Fenced) (hrun : UserRun m k) : Within m k := by
  induction hrun with
  | refl => exact hfenced.within
  | step run ok ih => exact ih.step hfenced ok

/-- A store to a protected page ends in a write fault, whatever the cache holds. -/
theorem Within.protected {sub D ea pa pd : U32} (hfenced : m.Fenced) (h : Within m k)
    (huser : k.InUser) (hclear : k.ufault.pending = false) (hsub : sub < 0x0C)
    (hstore : isStore sub = true) (hea : ea < 0xC0000000)
    (hwalk : m.walked ea false = some (pa, pd)) (hwp : pd &&& PTE_WP ≠ 0) :
    (k.memop sub D ea).mem = k.mem ∧ (k.memop sub D ea).cpu = k.cpu ∧
      (k.memop sub D ea).ufault = k.accessRecord sub ea := by
  have hlda : ¬(0x0C ≤ sub ∧ sub ≤ 0x0F) := fun hc => absurd hc.1 (BitVec.not_le.2 hsub)
  have hpeek := memLooked_peeked sub ea h.notWriting
  have hfresh : k.Fresh ea false := by
    intro hit
    rw [h.walked_eq hfenced huser hea]
    exact h.entries ea hea hit
  have henabled : k.apr false k.aprOffset &&& 1 ≠ 0 := by
    rw [aprOffset_user huser, h.apr]
    exact hfenced.enabled
  cases hpending : (k.memLooked sub ea).ufault.pending with
  | false =>
    obtain ⟨pd', hwalk', hopen⟩ := memLooked_user (by rw [h.cfg]; exact hfenced.procexp)
      (by rw [h.cfg]; exact hfenced.translateOn) henabled hea hfresh hpending
    rw [h.walked_eq hfenced huser hea, hwalk] at hwalk'
    cases hwalk'
    exact absurd (hopen hstore) hwp
  | true =>
    rw [memop_abort D ea hlda hpending]
    exact ⟨hpeek.mem, hpeek.cpu, memAborted_ufault hclear hpending⟩

end

/-- For any number of instructions of a process, with the interrupts taken among
them: memory changes in the frames that its data table maps unprotected and
nowhere else, the table says what it said, and a store to a protected page ends
in a write fault that changes nothing. -/
theorem user_run_protected {m k : Machine} (hfenced : m.Fenced) (hrun : UserRun m k) :
    (∀ b, k.mem.r8 b ≠ m.mem.r8 b → m.Writable (frameOf true b)) ∧
    (k.InUser → ∀ va < (0xC0000000 : U32), k.walked va false = m.walked va false) ∧
    (k.InUser → k.ufault.pending = false → ∀ sub < (0x0C : U32), isStore sub = true → ∀ D,
      ∀ ea < (0xC0000000 : U32), ∀ pa pd, m.walked ea false = some (pa, pd) →
        pd &&& PTE_WP ≠ 0 → (k.memop sub D ea).mem = k.mem ∧ (k.memop sub D ea).cpu = k.cpu ∧
          (k.memop sub D ea).ufault = k.accessRecord sub ea) := by
  have hwithin := hrun.within hfenced
  refine ⟨fun b hb => ?_, fun huser va hva => hwithin.walked_eq hfenced huser hva, ?_⟩
  · by_contra hframe
    exact hb (hwithin.kept b hframe)
  · intro huser hclear sub hsub hstore D ea hea pa pd hwalk hwp
    exact hwithin.protected hfenced huser hclear hsub hstore hea hwalk hwp

/-! ## A process with one open and one protected frame -/

/-- Two frames behind every user address: odd pages are frame `0x500`, which
stands open, and even pages are frame `0x501`, which holds the program and is
protected. -/
def fencedMem : Mem where
  realmm := true
  pages page off :=
    let word (v : U32) : U8 := byteOf v (off.toNat % 4)
    let odd : Bool := off.toNat / 4 % 2 = 1
    if page = 0xFFF7E ∨ page = 0xFFF7F then if off.toNat / 4 = 0x81 then word 0x00120001 else 0
    else if page = 0x120 then word 0x00121001
    else if page = 0x121 then word (if odd then 0x00500001 else 0x00501005)
    else if page = 0x501 then word (if odd then 0x24402000 else 0x24401000)
    else 0

theorem frameOf_low (realmm : Bool) {a : U32} {p k : Nat} (ha : a.toNat = p * 4096 + k)
    (hk : k < 4096) (hp : p < 0x80000) : frameOf realmm a = BitVec.ofNat 32 p := by
  apply BitVec.eq_of_toNat_eq
  rw [frameOf, toNat_shift12, toNat_cphys, if_neg (by omega), if_neg (by omega),
    BitVec.toNat_ofNat]
  omega

theorem r8_table {a : U32} {p k : Nat} (ha : a.toNat = p * 4096 + k) (hk : k < 4096)
    (hp : p < 0x80000) :
    fencedMem.r8 a = fencedMem.pages (BitVec.ofNat 32 p) (BitVec.ofNat 32 k) := by
  have hoff : a &&& 4095 = BitVec.ofNat 32 k := by
    apply BitVec.eq_of_toNat_eq
    refine (toNat_offsetOf a).trans ?_
    rw [BitVec.toNat_ofNat]
    omega
  rw [Mem.r8, Mem.pageOf, hoff, ← frameOf_low fencedMem.realmm ha hk hp]
  rfl

theorem r32_table {a v : U32} {p i : Nat} (ha : a.toNat = p * 4096 + 4 * i) (hi : i < 1024)
    (hp : p < 0x80000)
    (hword : ∀ j < 4,
      fencedMem.pages (BitVec.ofNat 32 p) (BitVec.ofNat 32 (4 * i + j)) = byteOf v j) :
    fencedMem.r32 a = v := by
  have hbyte : ∀ j < 4, ∀ b : U32, b = a + BitVec.ofNat 32 j → fencedMem.r8 b = byteOf v j := by
    rintro j hj b rfl
    rw [← hword j hj]
    refine r8_table ?_ (by omega) hp
    rw [BitVec.toNat_add, BitVec.toNat_ofNat]
    omega
  rw [Mem.r32_eq, hbyte 0 (by omega) a (BitVec.add_zero a).symm, hbyte 1 (by omega) (a + 1) rfl,
    hbyte 2 (by omega) (a + 2) rfl, hbyte 3 (by omega) (a + 3) rfl, be32_byteOf]

theorem fencedMem_segment {a : U32} {i : Nat} (ha : a.toNat = 0x120 * 4096 + 4 * i)
    (hi : i < 1024) : fencedMem.r32 a = 0x00121001 := by
  refine r32_table ha hi (by decide) fun j hj => ?_
  change byteOf _ ((BitVec.ofNat 32 (4 * i + j)).toNat % 4) = _
  rw [BitVec.toNat_ofNat]
  congr 1
  omega

theorem fencedMem_page {a : U32} {i : Nat} (ha : a.toNat = 0x121 * 4096 + 4 * i)
    (hi : i < 1024) : fencedMem.r32 a = if i % 2 = 1 then 0x00500001 else 0x00501005 := by
  refine r32_table ha hi (by decide) fun j hj => ?_
  change byteOf (if (decide ((BitVec.ofNat 32 (4 * i + j)).toNat / 4 % 2 = 1)) = true then _ else _)
    ((BitVec.ofNat 32 (4 * i + j)).toNat % 4) = _
  rw [BitVec.toNat_ofNat]
  have h1 : (4 * i + j) % 2 ^ 32 % 4 = j := by omega
  have h2 : (4 * i + j) % 2 ^ 32 / 4 % 2 = i % 2 := by omega
  rw [h1, h2]
  simp only [decide_eq_true_eq]


def fencedProcess : Machine :=
  { Machine.fresh with
    mem := fencedMem
    cpu := { Cpu.blank with r := fun _ => 0xFFFFFFFF, pc := 0x2000 } }

theorem toNat_entry {base : U32} {p : Nat} (va : U32) (n : Nat) (hbase : base.toNat = p * 4096)
    (hp : p < 0x80000) :
    (base + ((va >>> n) &&& 0x3FF) * 4).toNat = p * 4096 + 4 * (va.toNat / 2 ^ n % 1024) := by
  have hindex : ((va >>> n) &&& 0x3FF).toNat = va.toNat / 2 ^ n % 1024 := by
    rw [BitVec.toNat_and, BitVec.toNat_ushiftRight, Nat.shiftRight_eq_div_pow]
    exact Nat.and_two_pow_sub_one_eq_mod _ 10
  rw [BitVec.toNat_add, BitVec.toNat_mul, hindex, hbase]
  change (p * 4096 + va.toNat / 2 ^ n % 1024 * 4 % 2 ^ 32) % 2 ^ 32 = _
  omega

def fencedEntry (va : U32) : U32 :=
  if va.toNat / 2 ^ 12 % 1024 % 2 = 1 then 0x00500001 else 0x00501005

theorem asked_walkQuery {mem : Mem} {apr va sdesc pdesc : U32} (hbase : pageAddr apr ≠ 0)
    (hseg : mem.r32 (pageAddr apr + ((va >>> 22) &&& 0x3FF) * 4) = sdesc) (hs : sdesc &&& 1 ≠ 0)
    (hpage : mem.r32 (pageAddr sdesc + ((va >>> 12) &&& 0x3FF) * 4) = pdesc)
    (hp : pdesc &&& 1 ≠ 0) :
    (walkQuery 0 apr va).asked mem.r32 = [pageAddr apr + ((va >>> 22) &&& 0x3FF) * 4,
      pageAddr sdesc + ((va >>> 12) &&& 0x3FF) * 4] ∧
    (walkQuery 0 apr va).answer mem.r32 = some (pageAddr pdesc ||| offsetOf va, pdesc) := by
  have hone : ∀ pa, descriptorQuery 0 pa (decide ((0 : U32) ≠ 0 ∧ va < 0xC0000000)) =
      .ask pa .ret := by
    intro pa
    unfold descriptorQuery
    simp
  unfold walkQuery
  simp only [if_neg hbase, hone, Query.bind, Query.asked, Query.answer, hseg, if_neg hs, hpage,
    if_neg hp]
  exact ⟨trivial, trivial⟩

theorem fencedProcess_walk {va : U32} (hva : va < 0xC0000000) :
    fencedProcess.walked va false =
        some (pageAddr (fencedEntry va) ||| offsetOf va, fencedEntry va) ∧
      fencedProcess.consulted va false =
        [(0x120000 : U32) + ((va >>> 22) &&& 0x3FF) * 4,
          (0x121000 : U32) + ((va >>> 12) &&& 0x3FF) * 4] := by
  have hsegAddr : ((0x120000 : U32) + ((va >>> 22) &&& 0x3FF) * 4).toNat =
      0x120 * 4096 + 4 * (va.toNat / 2 ^ 22 % 1024) := toNat_entry va 22 rfl (by decide)
  have hpageAddr : ((0x121000 : U32) + ((va >>> 12) &&& 0x3FF) * 4).toNat =
      0x121 * 4096 + 4 * (va.toNat / 2 ^ 12 % 1024) := toNat_entry va 12 rfl (by decide)
  have hseg := fencedMem_segment hsegAddr (by omega)
  have hpage := fencedMem_page hpageAddr (by omega)
  have hvalid : fencedEntry va &&& 1 ≠ 0 := by
    unfold fencedEntry
    split <;> decide
  have hapr : fencedProcess.aprFor va false = 0x00120001 := by
    unfold aprFor
    rw [if_neg (BitVec.not_le.2 hva)]
    decide +kernel
  have hsegtab : pageAddr 0x00120001 = (0x120000 : U32) := by decide
  have hpgtab : pageAddr 0x00121001 = (0x121000 : U32) := by decide
  rw [← hsegtab] at hseg
  rw [← hpgtab] at hpage
  obtain ⟨hasked, hanswer⟩ := asked_walkQuery (by decide) hseg (by decide) hpage hvalid
  rw [hsegtab, hpgtab] at hasked
  rw [← answer_walkedQuery]
  unfold consulted walkedQuery
  rw [if_neg (BitVec.not_le.2 hva), hapr]
  unfold walkFbQuery
  rw [Query.asked_bind, Query.answer_bind]
  rw [show fencedProcess.mem.r32 = fencedMem.r32 from rfl,
    show fencedProcess.ktabBias = 0 from rfl, hasked, hanswer]
  exact ⟨rfl, rfl⟩

theorem fencedProcess_writable {f : U32} (h : fencedProcess.Writable f) : f = 0x500 := by
  obtain ⟨va, hva, pa, pd, hwalk, hopen, rfl⟩ := h
  rw [(fencedProcess_walk hva).1] at hwalk
  cases hwalk
  have hlt := va.isLt
  have hodd : fencedEntry va = 0x00500001 := by
    unfold fencedEntry at hopen ⊢
    split at hopen
    · next h => rw [if_pos h]
    · exact absurd hopen (by decide)
  rw [hodd]
  refine frameOf_low true (p := 0x500) (k := va.toNat % 4096) ?_ (by omega) (by decide)
  rw [toNat_pageAddr_or]
  rfl

theorem fencedProcess_fenced : fencedProcess.Fenced where
  realmm := rfl
  procexp := rfl
  translateOn := rfl
  user := rfl
  enabled := by decide +kernel
  notWriting := rfl
  fresh va _ hit := absurd hit (tlbTag_ne_zero va)
  ram va hva pa pd hwalk := by
    rw [(fencedProcess_walk hva).1] at hwalk
    cases hwalk
    have hlow : (pageAddr (fencedEntry va) ||| offsetOf va).toNat < 0x502 * 4096 := by
      have hlt := va.isLt
      rw [toNat_pageAddr_or]
      unfold fencedEntry
      split
      · change 0x00500001 / 4096 * 4096 + va.toNat % 4096 < 0x502 * 4096
        omega
      · change 0x00501005 / 4096 * 4096 + va.toNat % 4096 < 0x502 * 4096
        omega
    have hbelow : pageAddr (fencedEntry va) ||| offsetOf va < (0xE0000000 : U32) := by
      rw [BitVec.lt_def]
      exact lt_trans hlow (by decide)
    exact ⟨hbelow, ne_of_below hbelow (by decide)⟩
  tables va hva a ha i hi hwrite := by
    have hframe := fencedProcess_writable hwrite
    rw [(fencedProcess_walk hva).2] at ha
    have hplace : ∃ p : Nat, (p = 0x120 ∨ p = 0x121) ∧ ∃ j < 1024, a.toNat = p * 4096 + 4 * j := by
      rcases List.mem_cons.1 ha with rfl | ha
      · exact ⟨0x120, .inl rfl, _, by omega, toNat_entry va 22 rfl (by decide)⟩
      · obtain rfl := List.mem_singleton.1 ha
        exact ⟨0x121, .inr rfl, _, by omega, toNat_entry va 12 rfl (by decide)⟩
    obtain ⟨p, hp, j, hj, hnat⟩ := hplace
    rw [frameOf_low true (p := p) (k := 4 * j + i) (by rw [toNat_byteAddr]; omega) (by omega)
      (by omega)] at hframe
    rcases hp with rfl | rfl
    · exact absurd hframe (by decide)
    · exact absurd hframe (by decide)

/-- The process stores into the open page, and then to the protected one. -/
theorem fencedProcess_protected :
    (fencedProcess.step Host.blank).1.mem.r8 0x00500000 = 0xFF ∧
      (∀ b, (fencedProcess.step Host.blank).1.mem.r8 b ≠ fencedProcess.mem.r8 b →
        fencedProcess.Writable (frameOf true b)) ∧
      ((fencedProcess.step Host.blank).1.memop 0x09 2 0x2000).ufault =
        ⟨true, 0x2000, 0x2004, false, true, 4⟩ := by
  have hform : fencedProcess.stepForm Host.blank = some (0x09, 0x1000) := by decide +kernel
  have hok : fencedProcess.UserStep Host.blank := by
    refine ⟨rfl, by decide, fun sub ea h _ => ?_⟩
    rw [hform] at h
    cases h
    exact ⟨by decide, by decide⟩
  obtain ⟨hkept, -, hstore⟩ := user_run_protected fencedProcess_fenced (.step .refl hok)
  refine ⟨by decide +kernel, hkept, ?_⟩
  have huser : (fencedProcess.step Host.blank).1.cpu.cr 1 &&& 0x80000000 = 0 := by
    decide +kernel
  refine (hstore huser (by decide +kernel) 0x09 (by decide) rfl 2 0x2000 (by decide)
    0x00501000 0x00501005 ?_ (by decide)).2.2.trans (by decide +kernel)
  exact (fencedProcess_walk (by decide)).1

end Machine

end Nx88
