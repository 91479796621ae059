import Nx88.M88k.Values
import Nx88.Memory.Flat
/-!
# Matching states of the two cores

The emulator's core without a kernel behind it, as the user-mode runner drives
it, next to the reference core: which states match, and how a register or a
run of bytes is written on both sides.
-/

namespace Nx88

open Lib Lib.Words M88k

/-! ## Memory below kernel space -/

def KERNEL_BASE : Nat := 0xC0000000

theorem cphys_user {n : Nat} (h : n < KERNEL_BASE) :
    cphys false (BitVec.ofNat 32 n) = BitVec.ofNat 32 n := by
  unfold KERNEL_BASE at h
  have hnat : (BitVec.ofNat 32 n).toNat = n := by
    rw [BitVec.toNat_ofNat]
    omega
  apply BitVec.eq_of_toNat_eq
  rw [toNat_cphys, hnat, if_neg (by simp), if_neg (by omega)]

namespace Mem

theorem low_w8_user {m : Mem} (hreal : m.realmm = false) {a n : Nat} (v : U8)
    (ha : a < KERNEL_BASE) (hn : n < KERNEL_BASE) :
    (m.w8 (BitVec.ofNat 32 a) v).low n = if n = a then v else m.low n := by
  unfold low
  rw [r8_w8, hreal, cphys_user ha, cphys_user hn]
  by_cases hna : n = a
  · rw [if_pos hna, if_pos (by rw [hna])]
  · rw [if_neg hna, if_neg]
    intro h
    have heq := congrArg BitVec.toNat h
    unfold KERNEL_BASE at ha hn
    rw [BitVec.toNat_ofNat, BitVec.toNat_ofNat] at heq
    omega

theorem low_load_user {m : Mem} (hreal : m.realmm = false) {a n : Nat} {bs : List U8}
    (ha : a + bs.length ≤ KERNEL_BASE) (hn : n < KERNEL_BASE) :
    (m.load (BitVec.ofNat 32 a) bs).low n = Paged.splice m.low a bs n := by
  induction bs generalizing m a with
  | nil => exact (congrFun (Paged.splice_nil m.low a) n).symm
  | cons b bs ih =>
    rw [List.length_cons] at ha
    have hnext : BitVec.ofNat 32 a + 1 = BitVec.ofNat 32 (a + 1) :=
      (BitVec.ofNat_add a 1).symm
    have hsplit := congrFun (Paged.splice_append m.low a [b] bs) n
    have hone : Paged.splice m.low a [b] n = (m.w8 (BitVec.ofNat 32 a) b).low n := by
      rw [low_w8_user hreal b (by omega) hn]
      by_cases hna : n = a
      · rw [if_pos hna, hna]
        exact Paged.splice_at (k := 0) a (by simp)
      · rw [if_neg hna]
        rcases Nat.lt_or_gt_of_ne hna with hlt | hgt
        · exact Paged.splice_below _ hlt
        · exact Paged.splice_beyond (show a + [b].length ≤ n from hgt)
    rw [load, hnext, ih (m := m.w8 (BitVec.ofNat 32 a) b) hreal (by omega)]
    rw [List.singleton_append] at hsplit
    rw [← hsplit]
    unfold Paged.splice at hone ⊢
    rw [hone]
    rfl

end Mem

/-- The two memories hold the same bytes below kernel space. -/
def SameBytes (c : Memory) (m : Mem) : Prop :=
  ∀ a < KERNEL_BASE, Paged.cell PAGE c.pages a = m.low a

namespace SameBytes

variable {c : Memory} {m : Mem}

theorem read (h : SameBytes c m) {a n : Nat} (hend : a + n ≤ KERNEL_BASE) :
    c.read a n = (List.range n).map (fun i => m.low (a + i)) := by
  rw [Memory.read, Paged.read_eq (by decide) c.pages a (Nat.le_refl n)]
  apply List.map_congr_left
  intro i hi
  have hi := List.mem_range.1 hi
  exact h (a + i) (by omega)

theorem r32 (h : SameBytes c m) {a : U32} (hend : a.toNat + 4 ≤ KERNEL_BASE) :
    c.r32 a.toNat = (m.r32 a).toNat := by
  have hword := m.r32_low a.toNat
  rw [BitVec.ofNat_toNat, BitVec.setWidth_eq] at hword
  rw [Memory.r32, h.read hend, hword, ← unpack_four]
  rfl

theorem r16 (h : SameBytes c m) {a : U32} (hend : a.toNat + 2 ≤ KERNEL_BASE) :
    unpack (c.read a.toNat 2) = (m.r16 a).toNat := by
  have hhalf : m.r16 a =
      ((m.low a.toNat).setWidth 16 <<< 8) ||| (m.low (a.toNat + 1)).setWidth 16 := by
    unfold Mem.r16 Mem.low
    rw [BitVec.ofNat_add, BitVec.ofNat_toNat, BitVec.setWidth_eq]
    rfl
  rw [h.read hend, hhalf, ← unpack_two]
  rfl

theorem r8 (h : SameBytes c m) {a : U32} (hend : a.toNat + 1 ≤ KERNEL_BASE) :
    unpack (c.read a.toNat 1) = (m.r8 a).toNat := by
  have hbyte : m.low a.toNat = m.r8 a := by
    unfold Mem.low
    rw [BitVec.ofNat_toNat, BitVec.setWidth_eq]
  rw [h.read hend, ← hbyte, ← unpack_one]
  rfl

theorem load (h : SameBytes c m) (hreal : m.realmm = false) {a : U32} {bs : List U8}
    (hend : a.toNat + bs.length ≤ KERNEL_BASE) :
    SameBytes (c.write a.toNat bs) (m.load a bs) := by
  intro n hn
  have hstored := Mem.low_load_user hreal hend hn
  rw [BitVec.ofNat_toNat, BitVec.setWidth_eq] at hstored
  rw [hstored, Memory.write, Paged.cell_write (by decide) c.pages a.toNat (Nat.le_refl _)]
  unfold Paged.splice
  rw [h n hn]

end SameBytes

/-! ## The mode of the user-mode runner -/

namespace Machine

/-- No kernel, no translation, and the mailbox that `tcs_poke` watches where it
starts. -/
structure Bare (m : Machine) : Prop where
  sysmode : m.cfg.sysmode = false
  translateOn : m.cfg.translateOn = false
  realmm : m.mem.realmm = false
  mailbox : m.dev.tcsMboxPa = TCS_MBOX
  clear : m.ufault.pending = false

theorem Bare.wr {m : Machine} (h : m.Bare) (n v : U32) : (m.wr n v).Bare :=
  ⟨h.sysmode, h.translateOn, h.realmm, h.mailbox, h.clear⟩

theorem Bare.setMem {m : Machine} (h : m.Bare) {mem : Mem} (hreal : mem.realmm = m.mem.realmm) :
    (m.setMem mem).Bare :=
  ⟨h.sysmode, h.translateOn, hreal.trans h.realmm, h.mailbox, h.clear⟩

theorem Bare.withCpu {m : Machine} (h : m.Bare) (cpu : Cpu) : ({ m with cpu := cpu }).Bare :=
  ⟨h.sysmode, h.translateOn, h.realmm, h.mailbox, h.clear⟩

theorem Bare.setXlatWrite {m : Machine} (h : m.Bare) (write : Bool) :
    (m.setXlatWrite write).Bare :=
  ⟨h.sysmode, h.translateOn, h.realmm, h.mailbox, h.clear⟩

theorem Bare.translate {m : Machine} (h : m.Bare) (va : U32) (code : Bool) :
    m.translate va code = (va, m) := by
  unfold Machine.translate
  rw [if_pos (by rw [h.translateOn]; decide)]

theorem Bare.hooks {m : Machine} (hm : m.Bare) (h : Host) (hpc : m.cpu.pc.toNat < KERNEL_BASE) :
    m.hooks h = .ok m := by
  have hlow : ¬0xC0000000 ≤ m.cpu.pc := fun hle => absurd hpc (Nat.not_lt.2 hle)
  have hquiet : m.Quiet h := by
    refine ⟨intercepts_elsewhere m h ?_, ?_, ?_, ?_⟩
    · intro hmem
      have hhigh : ∀ a ∈ interceptPcs, 0xC0000000 ≤ a := by
        simp [interceptPcs, TSLEEP_ENTRY, SDSTRATEGY]
      exact hlow (hhigh _ hmem)
    · rw [hm.sysmode]
      simp
    · rw [hm.realmm]
      simp
    · rw [hm.realmm]
      simp
  apply hooks_gated hquiet
  unfold interruptible
  rw [hm.sysmode]
  simp

end Machine

/-! ## Matching states -/

/-- The state of the reference core and that of the emulator are one. -/
structure Matches (c : Core) (m : Machine) : Prop where
  bare : m.Bare
  r : c.r = m.cpu.r
  cr : c.cr = m.cpu.cr
  pc : c.pc = m.cpu.pc.toNat
  pending : c.pending = if m.cpu.hasPending then some m.cpu.pending.toNat else none
  mem : SameBytes c.mem m.mem

theorem fin_toNat {n : U32} (hn : n.toNat < 32) : Fin.ofNat 32 n.toNat = ⟨n.toNat, hn⟩ :=
  Fin.ext (Nat.mod_eq_of_lt hn)

namespace Matches

variable {c : Core} {m : Machine}

theorem get (h : Matches c m) {n : U32} (hn : n.toNat < 32) :
    c.get n.toNat = (m.rd n).toNat := by
  unfold Core.get Machine.rd Cpu.rd Cpu.word
  by_cases hzero : n = 0
  · rw [if_pos (by rw [hzero]; rfl), if_pos hzero]
    rfl
  · have hnat : n.toNat ≠ 0 := fun hz => hzero (BitVec.eq_of_toNat_eq hz)
    rw [if_neg hnat, if_neg hzero, dif_pos hn, h.r]
    rw [fin_toNat hn]

theorem set (h : Matches c m) {n v : U32} {x : Int} (hn : n.toNat < 32)
    (hx : BitVec.ofInt 32 x = v) : Matches (c.set n.toNat x) (m.wr n v) := by
  unfold Core.set Machine.wr Cpu.wr Cpu.setWord
  by_cases hzero : n = 0
  · rw [if_pos (by rw [hzero]; rfl), if_pos hzero]
    exact ⟨h.bare.withCpu _, h.r, h.cr, h.pc, h.pending, h.mem⟩
  · have hnat : n.toNat ≠ 0 := fun hz => hzero (BitVec.eq_of_toNat_eq hz)
    have hfin : Fin.ofNat 32 n.toNat = ⟨n.toNat, hn⟩ := fin_toNat hn
    rw [if_neg hnat, if_neg hzero, dif_pos hn, hfin, h.r, hx]
    exact ⟨h.bare.withCpu _, rfl, h.cr, h.pc, h.pending, h.mem⟩

theorem setCr (h : Matches c m) (n : Nat) (v : U32) :
    Matches (c.setCr n v.toNat) { m with cpu := m.cpu.setCr (Fin.ofNat 64 n) v } := by
  refine ⟨h.bare.withCpu _, h.r, ?_, h.pc, h.pending, h.mem⟩
  unfold Core.setCr Cpu.setCr
  rw [h.cr, BitVec.ofNat_toNat, BitVec.setWidth_eq]

theorem load (h : Matches c m) {a : U32} {bs : List U8}
    (hend : a.toNat + bs.length ≤ KERNEL_BASE) :
    Matches { c with mem := c.mem.write a.toNat bs } (m.setMem (m.mem.load a bs)) :=
  ⟨h.bare.setMem (Mem.load_realmm m.mem a bs), h.r, h.cr, h.pc, h.pending,
    h.mem.load h.bare.realmm hend⟩

end Matches

end Nx88
