import Nx88.M88k.Effects
/-!
# The two cores in lockstep

A load, store or exchange below kernel space has the same effect on matching
states, too.  So a run of instructions that both cores implement keeps the
states matching, and the cores trap together.
-/

namespace Nx88

open Lib Lib.Words M88k Machine

/-! ## What an access needs -/

namespace M88k

def Mnemonic.addressOnly : Mnemonic → Bool
  | lda | ldaB | ldaH | ldaD => true
  | _ => false

/-- The double-word forms name the register after `D`, too. -/
def Mnemonic.pair : Mnemonic → Bool
  | ldD | stD => true
  | _ => false

/-- A data access stays below kernel space and within the register file. -/
structure Mnemonic.Within (mn : Mnemonic) (scale D ea : Nat) : Prop where
  space : mn.addressOnly = false → ea + scale ≤ KERNEL_BASE
  file : mn.pair = true → D + 1 < 32

end M88k

section Access

variable {c : Core} {m : Machine}

namespace Machine

theorem Bare.memop (hm : m.Bare) (sub D ea : U32) :
    m.memop sub D ea =
      if 0x0C ≤ sub ∧ sub ≤ 0x0F then m.wr D ea
      else (m.setXlatWrite false).memTransfer sub D ea := by
  have htranslate : (m.setXlatWrite (isStore sub)).translate ea false =
      (ea, m.setXlatWrite (isStore sub)) := (hm.setXlatWrite _).translate ea false
  have hlooked : m.memLooked sub ea = m.setXlatWrite false := by
    rw [memLooked, htranslate]
    rfl
  have haddr : m.memAddr sub ea = ea := by rw [memAddr, htranslate]
  have haccess : (m.setXlatWrite false).memAccess sub D ea =
      (m.setXlatWrite false).memTransfer sub D ea := by
    have hsys : ¬(m.setXlatWrite false).cfg.sysmode = true := by
      rw [show (m.setXlatWrite false).cfg = m.cfg from rfl, hm.sysmode]
      decide
    unfold memAccess
    rw [if_neg (fun h => hsys h.1), if_neg (fun h => hsys h.1), if_neg (fun h => hsys h.1),
      if_neg (fun h => hsys h.1), if_neg (fun h => hsys h.1)]
  rw [memop_eq, hlooked, haddr, haccess]
  split
  · rfl
  · exact if_neg (by rw [show (m.setXlatWrite false).ufault = m.ufault from rfl, hm.clear]; decide)

theorem Bare.devRead32 (hm : m.Bare) (a : U32) : m.devRead32 a = m.mem.r32 a :=
  if_neg (by rw [hm.sysmode]; decide)

theorem Bare.devWrite32 (hm : m.Bare) (a v : U32) : m.devWrite32 a v = m.setMem (m.mem.w32 a v) :=
  if_neg (by rw [hm.sysmode]; decide)

theorem Bare.tcsPoke (hm : m.Bare) {a : U32} (ha : a.toNat < KERNEL_BASE) : m.tcsPoke a = m := by
  refine if_pos fun heq => ?_
  rw [heq, hm.mailbox] at ha
  exact absurd ha (by decide)

end Machine

namespace Matches

theorem setXlatWrite (hm : Matches c m) (write : Bool) : Matches c (m.setXlatWrite write) :=
  ⟨hm.bare.setXlatWrite write, hm.r, hm.cr, hm.pc, hm.pending, hm.mem⟩

theorem w32 (hm : Matches c m) {ea : U32} (v : U32) (hend : ea.toNat + 4 ≤ KERNEL_BASE) :
    Matches { c with mem := c.mem.w32 ea.toNat v.toNat } (m.setMem (m.mem.w32 ea v)) := by
  have hstored := hm.load (show ea.toNat + [byteOf v 0, byteOf v 1, byteOf v 2, byteOf v 3].length ≤
    KERNEL_BASE from hend)
  rw [← Mem.w32_eq_load, ← pack_four] at hstored
  exact hstored

theorem w16 (hm : Matches c m) {ea : U32} (v : U32) (hend : ea.toNat + 2 ≤ KERNEL_BASE) :
    Matches { c with mem := c.mem.write ea.toNat (pack 2 (v.toNat &&& 0xFFFF)) }
      (m.setMem (m.mem.w16 ea (v.setWidth 16))) := by
  rw [pack_two, Mem.w16_eq_load]
  exact hm.load hend

theorem w8 (hm : Matches c m) {ea : U32} (v : U32) (hend : ea.toNat + 1 ≤ KERNEL_BASE) :
    Matches { c with mem := c.mem.write ea.toNat (pack 1 (v.toNat &&& 0xFF)) }
      (m.setMem (m.mem.w8 ea (v.setWidth 8))) := by
  rw [pack_one, Mem.w8_eq_load]
  exact hm.load hend

end Matches

theorem toNat_add_four {ea : U32} (hend : ea.toNat + 8 ≤ KERNEL_BASE) :
    (ea + 4).toNat = ea.toNat + 4 := by
  unfold KERNEL_BASE at hend
  rw [BitVec.toNat_add]
  exact Nat.mod_eq_of_lt (by simp; omega)

theorem toNat_succ {D : U32} (h : D.toNat + 1 < 32) : (D + 1).toNat = D.toNat + 1 := by
  rw [BitVec.toNat_add]
  exact Nat.mod_eq_of_lt (by simp; omega)

theorem ofInt_narrow {k : Nat} (b : BitVec k) :
    BitVec.ofInt 32 (b.toNat : Int) = b.setWidth 32 := by
  rw [BitVec.ofInt_natCast, BitVec.ofNat_toNat]

theorem memop_same (hm : Matches c m) {sub D ea : U32} {mn : Mnemonic} {scale : Nat}
    (hsub : (sub.toNat, mn) ∈ LOAD_STORE) (hD : D.toNat < 32) (hscale : mn.memOps = some scale)
    (hin : mn.Within scale D.toNat ea.toNat) :
    ∃ c', c.memop mn D.toNat ea.toNat = .ok c' ∧ Matches c' (m.memop sub D ea) := by
  have hof : sub = BitVec.ofNat 32 sub.toNat := by rw [BitVec.ofNat_toNat, BitVec.setWidth_eq]
  have hx : Matches c (m.setXlatWrite false) := hm.setXlatWrite false
  obtain ⟨hspace, hfile⟩ := hin
  rw [hm.bare.memop]
  simp only [LOAD_STORE, List.mem_cons, Prod.mk.injEq, List.not_mem_nil, or_false] at hsub
  rcases hsub with h | h | h | h | h | h | h | h | h | h | h | h | h | h | h | h
  all_goals
    obtain ⟨hsub, rfl⟩ := h
    rw [hsub] at hof
    rw [hof]
    cases hscale
  · have hend := hspace rfl
    refine ⟨_, rfl, ?_⟩
    rw [if_neg (by decide), hx.get hD, hx.mem.r8 hend]
    exact (hx.w8 _ hend).set hD (ofInt_narrow _)
  · have hend := hspace rfl
    refine ⟨_, rfl, ?_⟩
    rw [if_neg (by decide), hx.get hD, hx.mem.r32 hend]
    exact (hx.w32 _ hend).set hD (ofInt_toNat _)
  · have hend := hspace rfl
    refine ⟨_, rfl, ?_⟩
    rw [if_neg (by decide), hx.mem.r16 hend]
    exact hx.set hD (ofInt_narrow _)
  · have hend := hspace rfl
    refine ⟨_, rfl, ?_⟩
    rw [if_neg (by decide), hx.mem.r8 hend]
    exact hx.set hD (ofInt_narrow _)
  · have hend := hspace rfl
    have hnext := toNat_add_four hend
    have hDnext := toNat_succ (hfile rfl)
    refine ⟨_, if_pos (hfile rfl), ?_⟩
    rw [if_neg (by decide), hx.mem.r32 (by omega), ← hnext, hx.mem.r32 (by omega), ← hDnext]
    have hfirst := hx.set hD (ofInt_toNat ((m.setXlatWrite false).mem.r32 ea))
    have hboth := hfirst.set (n := D + 1) (by rw [hDnext]; exact hfile rfl)
      (ofInt_toNat ((m.setXlatWrite false).mem.r32 (ea + 4)))
    unfold memTransfer
    simp only
    rw [hx.bare.devRead32, hfirst.bare.devRead32]
    exact hboth
  · have hend := hspace rfl
    refine ⟨_, rfl, ?_⟩
    rw [if_neg (by decide), hx.mem.r32 hend]
    unfold memTransfer
    simp only
    rw [hx.bare.devRead32]
    exact hx.set hD (ofInt_toNat _)
  · have hend := hspace rfl
    refine ⟨_, rfl, ?_⟩
    have hload : ¬((0x0C : U32) ≤ BitVec.ofNat 32 6 ∧ BitVec.ofNat 32 6 ≤ 0x0F) := by decide
    rw [if_neg hload, hx.mem.r16 hend]
    exact hx.set hD (ofInt_signed (k := 15) _)
  · have hend := hspace rfl
    refine ⟨_, rfl, ?_⟩
    have hload : ¬((0x0C : U32) ≤ BitVec.ofNat 32 7 ∧ BitVec.ofNat 32 7 ≤ 0x0F) := by decide
    rw [if_neg hload, hx.mem.r8 hend]
    exact hx.set hD (ofInt_signed (k := 7) _)
  · have hend := hspace rfl
    have hnext := toNat_add_four hend
    have hDnext := toNat_succ (hfile rfl)
    have hDlt : (D + 1).toNat < 32 := by
      rw [hDnext]
      exact hfile rfl
    refine ⟨_, if_pos (hfile rfl), ?_⟩
    rw [if_neg (by decide), ← hnext, ← hDnext, hx.get hD, hx.get hDlt]
    have hfirst := hx.w32 ((m.setXlatWrite false).rd D) (show ea.toNat + 4 ≤ KERNEL_BASE by omega)
    have hboth := hfirst.w32 ((m.setXlatWrite false).rd (D + 1))
      (show (ea + 4).toNat + 4 ≤ KERNEL_BASE by omega)
    unfold memTransfer
    simp only
    rw [hx.bare.devWrite32, hfirst.bare.devWrite32]
    exact hboth
  · have hend := hspace rfl
    refine ⟨_, rfl, ?_⟩
    rw [if_neg (by decide), hx.get hD]
    unfold memTransfer
    simp only
    rw [hx.bare.devWrite32]
    exact hx.w32 _ hend
  · have hend := hspace rfl
    refine ⟨_, rfl, ?_⟩
    rw [if_neg (by decide), hx.get hD]
    exact hx.w16 _ hend
  · have hend := hspace rfl
    refine ⟨_, rfl, ?_⟩
    have hstored := hx.w8 ((m.setXlatWrite false).rd D) hend
    rw [if_neg (by decide), hx.get hD]
    unfold memTransfer
    simp only
    rw [hstored.bare.tcsPoke (show ea.toNat < KERNEL_BASE from by omega)]
    exact hstored
  all_goals
    refine ⟨_, rfl, ?_⟩
    rw [if_pos (by decide)]
    exact hm.set hD (ofInt_toNat _)

theorem cut_address (a b : U32) : (a.toNat + b.toNat) &&& MASK32 = (a + b).toNat := by
  rw [and_MASK32, BitVec.toNat_add]

theorem toNat_memopScale {sub : U32} {mn : Mnemonic} {scale : Nat}
    (hsub : (sub.toNat, mn) ∈ LOAD_STORE) (hscale : mn.memOps = some scale) :
    (memopScale sub).toNat = scale := by
  unfold memopScale
  simp only [LOAD_STORE, List.mem_cons, Prod.mk.injEq, List.not_mem_nil, or_false] at hsub
  rcases hsub with h | h | h | h | h | h | h | h | h | h | h | h | h | h | h | h
  all_goals
    obtain ⟨hsub, rfl⟩ := h
    rw [hsub]
    exact Option.some.inj hscale

theorem loadStore_lt {k : Nat} {mn : Mnemonic} (h : (k, mn) ∈ LOAD_STORE) : k < 0x10 := by
  simp only [LOAD_STORE, List.mem_cons, Prod.mk.injEq, List.not_mem_nil, or_false] at h
  omega

theorem effective_immediate (hm : Matches c m) {w : U32} (scale : Nat)
    (hop : (w >>> 26).toNat < 0x10) :
    c.effective w scale = (m.rd (fieldS1 w) + fieldImm w).toNat := by
  unfold Core.effective
  simp only
  rw [opcode_and, if_pos hop, hm.get (fieldS1_lt w), cut_address]

theorem effective_indexed (hm : Matches c m) {w : U32} {scale : Nat} (hop : w >>> 26 = 0x3D)
    (hscale : (memopScale (fieldSub w)).toNat = scale) :
    c.effective w scale =
      (m.rd (fieldS1 w) + if fieldVar w &&& 0x10 ≠ 0 then
        m.rd (fieldS2 w) * memopScale (fieldSub w) else m.rd (fieldS2 w)).toNat := by
  have hvar : (fieldVar w).toNat &&& 0x10 ≠ 0 ↔ fieldVar w &&& 0x10 ≠ 0 := by
    rw [ne_eq, ne_eq, ← BitVec.toNat_inj, BitVec.toNat_and]
    rfl
  have hform : ¬((w >>> 26) &&& 0x3F).toNat < 0x10 := by
    rw [hop]
    decide
  unfold Core.effective
  simp only
  rw [if_neg hform, hm.get (fieldS1_lt w), hm.get (fieldS2_lt w)]
  by_cases hscaled : fieldVar w &&& 0x10 ≠ 0
  · rw [if_pos (hvar.2 hscaled), if_pos hscaled, ← hscale, ← cut_address, and_MASK32 (_ * _),
      BitVec.toNat_mul]
  · rw [if_neg (mt hvar.1 hscaled), if_neg hscaled, cut_address]

theorem execute_memory_core (c : Core) {mn : Mnemonic} {scale : Nat}
    (hscale : mn.memOps = some scale) (pc w : U32) :
    c.execute ⟨pc, w, mn, none⟩ w =
      (c.memop mn (fieldD w).toNat (c.effective w scale)).map fun c => (c, none) := by
  unfold Core.execute
  simp only
  rw [hscale]

theorem memory_same (hm : Matches c m) {w : U32} {mn : Mnemonic} (h : Host) {scale : Nat}
    (hform : ((w >>> 26).toNat, mn) ∈ LOAD_STORE ∨
      w >>> 26 = 0x3D ∧ ((fieldSub w).toNat, mn) ∈ LOAD_STORE)
    (hscale : mn.memOps = some scale)
    (hin : mn.Within scale (fieldD w).toNat (c.effective w scale)) :
    SameEffect m mn.delayed (c.execute ⟨m.cpu.pc, w, mn, none⟩ w) (m.execute h w m.cpu.pc) := by
  obtain ⟨sub, ea, hmem, hsub, hea⟩ : ∃ sub ea, m.memForm w = some (sub, ea) ∧
      (sub.toNat, mn) ∈ LOAD_STORE ∧ c.effective w scale = ea.toNat := by
    unfold memForm
    simp only
    rcases hform with hop | ⟨hop, hsub⟩
    · have hlt := loadStore_lt hop
      rw [if_pos (by bv_omega)]
      exact ⟨_, _, rfl, hop, effective_immediate hm scale hlt⟩
    · have hlt := loadStore_lt hsub
      rw [hop, if_neg (by decide), if_pos ⟨rfl, by bv_omega⟩]
      exact ⟨_, _, rfl, hsub, effective_indexed hm hop (toNat_memopScale hsub hscale)⟩
  rw [hea] at hin
  obtain ⟨c', hc', hsame⟩ := memop_same hm hsub (fieldD_lt w) hscale hin
  rw [execute_memory_core c hscale, execute_mem hmem, hea, hc']
  exact .next hsame

end Access

/-! ## What both cores implement -/

namespace M88k

/-- The reference core has no floating-point unit, and neither core takes `tbnd`
or `rte` the way the other does. -/
def Mnemonic.common (mn : Mnemonic) : Bool := !mn.floating && mn ≠ .tbnd && mn ≠ .rte

/-- The instruction at the program counter lies below kernel space with its data,
and both cores implement it. -/
structure Covered (c : Core) (ins : Insn) : Prop where
  fetch : c.pc + 4 ≤ KERNEL_BASE
  decoded : decode c.word (BitVec.ofNat 32 c.pc) = some ins
  common : ins.mn.common = true
  access : ∀ scale, ins.mn.memOps = some scale →
    ins.mn.Within scale (fieldD c.word).toNat (c.effective c.word scale)
  /-- C leaves the one quotient open that no word holds -/
  quotient : ins.mn = .div →
    ¬(c.get (fieldS1 c.word).toNat = 0x80000000 ∧ c.operand c.word = 0xFFFFFFFF)

end M88k

section Steps

variable {c : Core} {m : Machine}

theorem memOps_loadStore {k : Nat} {mn : Mnemonic} (h : (k, mn) ∈ LOAD_STORE) :
    ∃ scale, mn.memOps = some scale := by
  simp only [LOAD_STORE, List.mem_cons, Prod.mk.injEq, List.not_mem_nil, or_false] at h
  rcases h with h | h | h | h | h | h | h | h | h | h | h | h | h | h | h | h
  all_goals
    obtain ⟨-, rfl⟩ := h
    exact ⟨_, rfl⟩

theorem not_common_float {k : Nat} {mn : Mnemonic} (h : (k, mn) ∈ FPU) : mn.common = false := by
  simp only [FPU, List.mem_cons, Prod.mk.injEq, List.not_mem_nil, or_false] at h
  rcases h with h | h | h | h | h | h | h | h | h | h
  all_goals
    obtain ⟨-, rfl⟩ := h
    rfl

theorem not_common_rest {k : Nat} {mn : Mnemonic} (h : (k, mn) ∈ TRI_REST) :
    mn.common = false := by
  simp only [TRI_REST, List.mem_cons, Prod.mk.injEq, List.not_mem_nil, or_false] at h
  rcases h with h | h | h | h
  all_goals
    obtain ⟨-, rfl⟩ := h
    rfl

theorem execute_same (hm : Matches c m) {ins : Insn} (hc : Covered c ins) (h : Host) :
    SameEffect m ins.mn.delayed (c.execute ins c.word) (m.execute h c.word m.cpu.pc) := by
  have hpc : BitVec.ofNat 32 c.pc = m.cpu.pc := by
    rw [hm.pc, BitVec.ofNat_toNat, BitVec.setWidth_eq]
  have hcommon := hc.common
  have haccess := hc.access
  have hdecoded := hc.decoded
  rw [hpc] at hdecoded
  cases decoded_of_decode hdecoded with
  | memory op =>
    obtain ⟨scale, hscale⟩ := memOps_loadStore op
    exact memory_same hm h (.inl op) hscale (haccess scale hscale)
  | immediate op => exact immediate_same hm h op
  | control op sub =>
    refine control_same hm h op sub ?_
    unfold Mnemonic.common at hcommon
    simp only [Bool.and_eq_true, Bool.not_eq_true'] at hcommon
    exact hcommon.1.1
  | float sub => exact absurd ((not_common_float sub).symm.trans hcommon) Bool.false_ne_true
  | jump op => exact execBr_same hm h op
  | bit op => exact execBb_same hm h op
  | condition op => exact execBcnd_same hm h op
  | trap op sub => exact trap3C_same hm h op sub
  | field op sub => exact field3C_same hm h op sub
  | triadic op sub =>
    rcases triadic_groups sub with hmem | halu | hfield | hjump | hrest
    · obtain ⟨scale, hscale⟩ := memOps_loadStore hmem
      exact memory_same hm h (.inr ⟨op, hmem⟩) hscale (haccess scale hscale)
    · exact triadic_same hm h op halu
    · exact fieldTri_same hm h op hfield
    · exact jump_same hm h op hjump
    · exact absurd ((not_common_rest hrest).symm.trans hcommon) Bool.false_ne_true

/-! ## One step -/

/-- Where one step of the reference core and one of the emulator lead: on to
matching states, or into the same trap with the states still matching. -/
inductive Together (c : Core) : Except Raise Core → Machine × Bool → Prop where
  | on {c' : Core} {m' : Machine} (same : Matches c' m') : Together c (.ok c') (m', false)
  | trapped {m' : Machine} (vector : Int) (pc : Nat) (same : Matches c m')
    (taken : m'.trapTaken = true) (at_vector : m'.trapVector = BitVec.ofInt 32 vector)
    (at_pc : m'.trapPc.toNat = pc) : Together c (.error (.trap vector pc)) (m', true)

theorem Matches.tick (hm : Matches c m) : Matches c m.tick :=
  ⟨hm.bare.withCpu _, hm.r, hm.cr, hm.pc, hm.pending, hm.mem⟩

/-- Sequencing: a latched target wins on both sides. -/
theorem sequence_same {c' : Core} {m' : Machine} (hm : Matches c' m') {pc : U32}
    (hpc : pc.toNat + 4 ≤ KERNEL_BASE) {delayed : Bool} {branchTo : Option Nat} {flow : Flow}
    (hflow : branchTo = none ∧ flow = .next ∨
      ∃ target : U32, branchTo = some target.toNat ∧ flow = .jump target delayed) :
    Matches (c'.sequence pc.toNat delayed branchTo) (m'.sequence pc flow) := by
  have hnext : (pc + 4).toNat = pc.toNat + 4 := by
    unfold KERNEL_BASE at hpc
    rw [BitVec.toNat_add]
    exact Nat.mod_eq_of_lt (by simp; omega)
  have hpending := hm.pending
  unfold Core.sequence Machine.sequence
  cases hslot : m'.cpu.hasPending with
  | true =>
    rw [hslot, if_pos rfl] at hpending
    rw [hpending]
    exact ⟨hm.bare.withCpu _, hm.r, hm.cr, rfl, rfl, hm.mem⟩
  | false =>
    rw [hslot, if_neg Bool.false_ne_true] at hpending
    have hstill : none = if m'.cpu.hasPending then some m'.cpu.pending.toNat else none := by
      rw [hslot]
      rfl
    rw [hpending]
    obtain ⟨rfl, rfl⟩ | ⟨target, rfl, rfl⟩ := hflow
    · exact ⟨hm.bare.withCpu _, hm.r, hm.cr, hnext.symm, hstill, hm.mem⟩
    · cases delayed with
      | true => exact ⟨hm.bare.withCpu _, hm.r, hm.cr, hnext.symm, rfl, hm.mem⟩
      | false => exact ⟨hm.bare.withCpu _, hm.r, hm.cr, rfl, hstill, hm.mem⟩

theorem Machine.Bare.step {m : Machine} (hm : m.Bare) (h : Host)
    (hpc : m.cpu.pc.toNat < KERNEL_BASE) :
    m.step h =
      (m.tick.execute h (m.mem.r32 m.cpu.pc) m.cpu.pc).1.finish m.cpu.pc
        (m.tick.execute h (m.mem.r32 m.cpu.pc) m.cpu.pc).2 := by
  have hfetch : m.fetch = (m.mem.r32 m.cpu.pc, m) := by rw [fetch, hm.translate]
  unfold Machine.step
  rw [hm.hooks h hpc]
  simp only
  rw [exec_eq, hfetch, if_neg (by rw [hm.clear]; decide)]

theorem M88k.Core.step_of_decode {c : Core} {ins : Insn}
    (hdecoded : decode c.word (BitVec.ofNat 32 c.pc) = some ins) :
    c.step = (c.execute ins c.word).bind fun r =>
      .ok (({ r.1 with count := r.1.count + 1 } : Core).sequence c.pc ins.mn.delayed r.2) := by
  unfold Core.step
  simp only
  rw [hdecoded]
  rfl

theorem step_together (hm : Matches c m) {ins : Insn} (hc : Covered c ins) (h : Host) :
    Together c c.step (m.step h) := by
  have hspace := hc.fetch
  have hword : c.word = m.mem.r32 m.cpu.pc := by
    rw [hm.pc] at hspace
    rw [Core.word, hm.pc, hm.mem.r32 hspace, BitVec.ofNat_toNat, BitVec.setWidth_eq]
  have heffect := execute_same hm.tick hc h
  have hmachine := hm.bare.step h (by rw [← hm.pc]; omega)
  rw [Core.step_of_decode hc.decoded, hmachine, ← hword, hm.pc]
  rw [hm.pc] at hspace
  have hcounted : ∀ {c' : Core} {m' : Machine}, Matches c' m' →
      Matches { c' with count := c'.count + 1 } m' :=
    fun hm' => ⟨hm'.bare, hm'.r, hm'.cr, hm'.pc, hm'.pending, hm'.mem⟩
  change SameEffect m.tick ins.mn.delayed (c.execute ins c.word)
    (m.tick.execute h c.word m.cpu.pc) at heffect
  generalize c.execute ins c.word = x at heffect
  generalize m.tick.execute h c.word m.cpu.pc = y at heffect
  cases heffect with
  | next hsame =>
    rw [finish_done _ (fun v => by simp) hsame.bare.clear]
    exact .on (sequence_same (hcounted hsame) hspace (.inl ⟨rfl, rfl⟩))
  | jump hsame target =>
    rw [finish_done _ (fun v => by simp) hsame.bare.clear]
    exact .on (sequence_same (hcounted hsame) hspace (.inr ⟨target, rfl, rfl⟩))
  | trap vector pc hpc =>
    have hbare := hm.bare
    refine .trapped vector pc ?_ rfl rfl hpc.symm
    exact ⟨⟨hbare.sysmode, hbare.translateOn, hbare.realmm, hbare.mailbox, hbare.clear⟩,
      hm.r, hm.cr, hm.pc, hm.pending, hm.mem⟩

/-! ## A whole run -/

namespace Machine

/-- The loop of `run_user` for `n` turns, up to the first trap. -/
def runToTrap (h : Host) : Nat → Machine → Machine × Bool
  | 0, m => (m, false)
  | n + 1, m => if (m.step h).2 then m.step h else runToTrap h n (m.step h).1

end Machine

/-- Where runs of the two cores lead: both through all their turns to matching
states, or both into the same trap after some `k` of them. -/
inductive RunTogether (c : Core) (n : Nat) : Except Raise Core → Machine × Bool → Prop where
  | on {c' : Core} {m' : Machine} (same : Matches c' m') : RunTogether c n (.ok c') (m', false)
  | trapped {c' : Core} {m' : Machine} (k : Nat) (early : k < n) (reached : c.run k = .ok c')
    (vector : Int) (pc : Nat) (same : Matches c' m') (taken : m'.trapTaken = true)
    (at_vector : m'.trapVector = BitVec.ofInt 32 vector) (at_pc : m'.trapPc.toNat = pc) :
    RunTogether c n (.error (.trap vector pc)) (m', true)

/-- As long as every instruction the reference core comes to is one that both
implement, the two cores run in lockstep. -/
theorem run_together (h : Host) (n : Nat) {c : Core} {m : Machine} (hm : Matches c m)
    (hc : ∀ k < n, ∀ c', c.run k = .ok c' → ∃ ins, Covered c' ins) :
    RunTogether c n (c.run n) (m.runToTrap h n) := by
  induction n generalizing c m with
  | zero => exact .on hm
  | succ n ih =>
    obtain ⟨ins, hfirst⟩ := hc 0 (Nat.succ_pos n) c rfl
    have hstep := step_together hm hfirst h
    have hrun : ∀ k, c.run (k + 1) = c.step.bind fun c' => c'.run k := fun k => rfl
    rw [hrun, runToTrap]
    generalize hx : c.step = x at hstep
    generalize m.step h = y at hstep
    cases hstep with
    | trapped vector pc same taken at_vector at_pc =>
      exact .trapped 0 (Nat.succ_pos n) rfl vector pc same taken at_vector at_pc
    | on same =>
      rename_i c' m'
      have hrest : RunTogether c' n (c'.run n) (m'.runToTrap h n) := by
        refine ih same fun k hk c'' hreach => hc (k + 1) (Nat.succ_lt_succ hk) c'' ?_
        rw [hrun, hx]
        exact hreach
      rw [if_neg Bool.false_ne_true]
      change RunTogether c (n + 1) (c'.run n) (m'.runToTrap h n)
      generalize c'.run n = u at hrest
      generalize m'.runToTrap h n = v at hrest
      cases hrest with
      | on same => exact .on same
      | trapped k early reached vector pc same taken at_vector at_pc =>
        refine .trapped (k + 1) (Nat.succ_lt_succ early) ?_ vector pc same taken at_vector at_pc
        rw [hrun, hx]
        exact reached

/-! ## Where runs start -/

def M88k.Core.start (pc : Nat) : Core := ⟨⟨fun _ _ => 0⟩, fun _ => 0, fun _ => 0, pc, none, 0⟩

def Machine.userStart (con : Console) (pc : U32) : Machine :=
  (Machine.initial Config.initial false con).setPc pc

theorem matches_start (con : Console) (pc : U32) :
    Matches (Core.start pc.toNat) (Machine.userStart con pc) :=
  ⟨⟨rfl, rfl, rfl, rfl, rfl⟩, rfl, rfl, rfl, rfl, fun _ _ => rfl⟩

end Steps

/-- `or r2, r0, 0x1234`, `st r2, r0, 0x100`, `tb0 0, r0, 128`. -/
def storeAndTrap : List U8 :=
  [0x58, 0x40, 0x12, 0x34, 0x24, 0x40, 0x01, 0x00, 0xF0, 0x00, 0xD0, 0x80]

theorem run_together_storeAndTrap :
    let c : Core := { Core.start 0 with mem := (Core.start 0).mem.write 0 storeAndTrap }
    let m := Machine.userStart (Console.initial false false ⟨[], []⟩ ⟨[], []⟩) 0
    RunTogether c 3 (c.run 3) ((m.setMem (m.mem.load 0 storeAndTrap)).runToTrap Host.blank 3) := by
  intro c m
  have hend : (0 : U32).toNat + storeAndTrap.length ≤ KERNEL_BASE := by decide
  have hstart : Matches c (m.setMem (m.mem.load 0 storeAndTrap)) := (matches_start _ 0).load hend
  let c₁ : Core := { c.set 2 0x1234 with pc := 4, count := 1 }
  let c₂ : Core := { c₁ with mem := c.mem.w32 0x100 0x1234, pc := 8, count := 2 }
  have d₀ : decode c.word (BitVec.ofNat 32 c.pc) = some ⟨0, 0x58401234, .or, none⟩ := by decide
  have d₁ : decode c₁.word (BitVec.ofNat 32 c₁.pc) = some ⟨4, 0x24400100, .st, none⟩ := by decide
  have d₂ : decode c₂.word (BitVec.ofNat 32 c₂.pc) = some ⟨8, 0xF000D080, .tb0, none⟩ := by decide
  have w₀ : c.word = 0x58401234 := by decide
  have w₁ : c₁.word = 0x24400100 := by decide
  have s₀ : c.step = .ok c₁ := by
    have hor : c.get 0 ||| c.operand 0x58401234 = 0x1234 := by decide
    rw [Core.step_of_decode d₀, w₀, execute_alu_core c (k := 0x16) (by simp [ALU_IMM])]
    change Except.ok (({ c.set 2 (c.get 0 ||| c.operand 0x58401234 : Nat) with
      count := 1 } : Core).sequence 0 false none) = _
    rw [hor]
    rfl
  have s₁ : c₁.step = .ok c₂ := by
    have hvalue : c₁.get 2 = 0x1234 := by decide
    have hea : c₁.effective 0x24400100 4 = 0x100 := by decide
    rw [Core.step_of_decode d₁, w₁, execute_memory_core c₁ rfl, hea]
    change Except.ok (({ c₁ with
      mem := c.mem.w32 0x100 (c₁.get 2), count := 2 } : Core).sequence 4 false none) = _
    rw [hvalue]
    rfl
  refine run_together Host.blank 3 hstart fun k hk c' hreach => ?_
  obtain rfl | rfl | rfl : k = 0 ∨ k = 1 ∨ k = 2 := by omega
  · cases hreach
    refine ⟨_, by decide, d₀, rfl, fun _ hmem => ?_, fun hdiv => ?_⟩
    · cases hmem
    · cases hdiv
  · have hrun : c.run 1 = .ok c₁ := by
      change c.step.bind (fun c => c.run 0) = _
      rw [s₀]
      rfl
    cases hrun.symm.trans hreach
    refine ⟨_, by decide, d₁, rfl, fun _ hmem => ?_, fun hdiv => ?_⟩
    · cases hmem
      exact ⟨fun _ => by decide, fun hpair => absurd hpair (by decide)⟩
    · cases hdiv
  · have hrun : c.run 2 = .ok c₂ := by
      change c.step.bind (fun c => c.step.bind (fun c => c.run 0)) = _
      rw [s₀]
      change c₁.step.bind (fun c => c.run 0) = _
      rw [s₁]
      rfl
    cases hrun.symm.trans hreach
    refine ⟨_, by decide, d₂, rfl, fun _ hmem => ?_, fun hdiv => ?_⟩
    · cases hmem
    · cases hdiv

end Nx88
