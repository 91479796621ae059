import Nx88.Cpu.Aligned
import Nx88.Memory.Bytes
import Nx88.Memory.Ram
/-!
# Machines that a program cannot tell apart

A program that owns some bytes of physical memory sees its registers, its PSR,
its place in the code and those bytes.  Two machines that agree on these execute
its next instruction alike, as long as the instruction asks nothing else: no
other control register, no device, and an address that is mapped alike in both.
-/

namespace Nx88

open Lib.Words

/-! ## Memory that agrees on some bytes -/

namespace Mem

/-- The same bytes behind the folded addresses in `P`. -/
structure Agree (P : U32 → Prop) (m m' : Mem) : Prop where
  realmm : m'.realmm = m.realmm
  bytes : ∀ a, P (cphys m.realmm a) → m'.r8 a = m.r8 a

variable {P : U32 → Prop} {m m' : Mem}

/-- The `n` bytes from `a` on are in `P`. -/
def Owns (m : Mem) (P : U32 → Prop) (a : U32) (n : Nat) : Prop :=
  ∀ i < n, P (cphys m.realmm (byteAddr a i))

theorem Owns.byte {a : U32} {n : Nat} (h : m.Owns P a n) (i : Nat) (hi : i < n) :
    P (cphys m.realmm (byteAddr a i)) := h i hi

theorem Owns.mono {a : U32} {n k : Nat} (h : m.Owns P a n) (hk : k ≤ n) : m.Owns P a k :=
  fun i hi => h i (lt_of_lt_of_le hi hk)

theorem Owns.drop {a : U32} {n : Nat} (h : m.Owns P a (n + 4)) : m.Owns P (a + 4) n := by
  intro i hi
  have hshift : byteAddr (a + 4) i = byteAddr a (i + 4) := by
    apply BitVec.eq_of_toNat_eq
    rw [toNat_byteAddr, toNat_byteAddr, BitVec.toNat_add]
    show (((a.toNat + 4) % 2 ^ 32) + i) % 2 ^ 32 = (a.toNat + (i + 4)) % 2 ^ 32
    omega
  rw [hshift]
  exact h (i + 4) (by omega)

theorem Agree.r8 (h : Agree P m m') {a : U32} (ha : m.Owns P a 1) : m'.r8 a = m.r8 a := by
  have hbyte := ha.byte 0 (by decide)
  rw [byteAddr_zero] at hbyte
  exact h.bytes a hbyte

theorem Agree.r16 (h : Agree P m m') {a : U32} (ha : m.Owns P a 2) : m'.r16 a = m.r16 a := by
  have hnext : m'.r8 (a + 1) = m.r8 (a + 1) := h.bytes _ (ha.byte 1 (by decide))
  unfold Mem.r16
  rw [h.r8 (ha.mono (by decide)), hnext]

theorem Agree.r32 (h : Agree P m m') {a : U32} (ha : m.Owns P a 4) : m'.r32 a = m.r32 a := by
  have h1 : m'.r8 (a + 1) = m.r8 (a + 1) := h.bytes _ (ha.byte 1 (by decide))
  have h2 : m'.r8 (a + 2) = m.r8 (a + 2) := h.bytes _ (ha.byte 2 (by decide))
  have h3 : m'.r8 (a + 3) = m.r8 (a + 3) := h.bytes _ (ha.byte 3 (by decide))
  rw [Mem.r32_eq, Mem.r32_eq, h.r8 (ha.mono (by decide)), h1, h2, h3]

theorem Agree.load (h : Agree P m m') (a : U32) {bs : List U8} (hlen : bs.length ≤ 4096) :
    Agree P (m.load a bs) (m'.load a bs) := by
  have hstored := stored_load m a hlen
  have hstored' := stored_load m' a hlen
  refine ⟨by rw [load_realmm, load_realmm, h.realmm], fun b hb => ?_⟩
  rw [load_realmm] at hb
  by_cases hin : ∃ i, ∃ _ : i < bs.length, cphys m.realmm b = cphys m.realmm (byteAddr a i)
  · obtain ⟨i, hi, heq⟩ := hin
    rw [hstored.written i hi b heq]
    exact hstored'.written i hi b (by rw [h.realmm]; exact heq)
  · have hout : ∀ i < bs.length, cphys m.realmm b ≠ cphys m.realmm (byteAddr a i) :=
      fun i hi heq => hin ⟨i, hi, heq⟩
    rw [hstored.kept b hout, hstored'.kept b (by rw [h.realmm]; exact hout)]
    exact h.bytes b hb

theorem Agree.w8 (h : Agree P m m') (a : U32) (v : U8) : Agree P (m.w8 a v) (m'.w8 a v) := by
  rw [w8_eq_load, w8_eq_load]
  exact h.load a (by simp)

theorem Agree.w16 (h : Agree P m m') (a : U32) (v : U16) :
    Agree P (m.w16 a v) (m'.w16 a v) := by
  rw [w16_eq_load, w16_eq_load]
  exact h.load a (by simp)

theorem Agree.w32 (h : Agree P m m') (a v : U32) : Agree P (m.w32 a v) (m'.w32 a v) := by
  rw [w32_eq_load, w32_eq_load]
  exact h.load a (by simp)

end Mem

namespace Machine

/-! ## The relation -/

/-- The CPU state of a program. -/
structure SameContext (m m' : Machine) : Prop where
  r : ∀ n : U32, n.toNat < 32 → m'.rd n = m.rd n
  psr : m'.cpu.cr 1 = m.cpu.cr 1
  pc : m'.cpu.pc = m.cpu.pc
  hasPending : m'.cpu.hasPending = m.cpu.hasPending

/-- Two machines alike to a program that owns the bytes `P`, with no fault
pending in either. -/
structure Alike (P : U32 → Prop) (m m' : Machine) : Prop where
  context : SameContext m m'
  pending : m.cpu.hasPending = true → m'.cpu.pending = m.cpu.pending
  mem : Mem.Agree P m.mem m'.mem
  clear : m.ufault.pending = false
  clear' : m'.ufault.pending = false

variable {P : U32 → Prop} {m m' : Machine}

theorem Alike.transport {n n' : Machine} (h : Alike P m m') (hcpu : n.cpu = m.cpu)
    (hcpu' : n'.cpu = m'.cpu) (hmem : n.mem = m.mem) (hmem' : n'.mem = m'.mem)
    (hclear : n.ufault.pending = false) (hclear' : n'.ufault.pending = false) :
    Alike P n n' := by
  have hrd : ∀ k, n.rd k = m.rd k := fun k => congrArg (fun c : Cpu => c.rd k) hcpu
  have hrd' : ∀ k, n'.rd k = m'.rd k := fun k => congrArg (fun c : Cpu => c.rd k) hcpu'
  refine ⟨⟨?_, ?_, ?_, ?_⟩, ?_, ?_, hclear, hclear'⟩
  · intro k hk
    rw [hrd, hrd']
    exact h.context.r k hk
  · rw [hcpu, hcpu']
    exact h.context.psr
  · rw [hcpu, hcpu']
    exact h.context.pc
  · rw [hcpu, hcpu']
    exact h.context.hasPending
  · rw [hcpu, hcpu']
    exact h.pending
  · rw [hmem, hmem']
    exact h.mem

theorem Alike.tick (h : Alike P m m') : Alike P m.tick m'.tick :=
  ⟨⟨h.context.r, h.context.psr, h.context.pc, h.context.hasPending⟩, h.pending, h.mem, h.clear,
    h.clear'⟩

theorem wr_zero (m : Machine) (v : U32) : m.wr 0 v = m := rfl

theorem wr_cr (m : Machine) {n : U32} (hn : n.toNat < 32) (v : U32) :
    (m.wr n v).cpu.cr = m.cpu.cr := by
  unfold wr Cpu.wr Cpu.setWord
  rw [dif_pos hn]
  split <;> rfl

theorem Alike.wr (h : Alike P m m') {n : U32} (hn : n.toNat < 32) (v : U32) :
    Alike P (m.wr n v) (m'.wr n v) := by
  have hflow := wr_sameFlow m n v
  have hflow' := wr_sameFlow m' n v
  by_cases hzero : n = 0
  · rw [hzero, wr_zero, wr_zero]
    exact h
  refine ⟨⟨?_, ?_, ?_, ?_⟩, ?_, h.mem, h.clear, h.clear'⟩
  · intro k hk
    by_cases hkn : k = n
    · rw [hkn, rd_wr m hzero (by omega), rd_wr m' hzero (by omega)]
    · rw [rd_wr_of_ne m hkn, rd_wr_of_ne m' hkn]
      exact h.context.r k hk
  · rw [wr_cr m hn, wr_cr m' hn]
    exact h.context.psr
  · rw [hflow.pc, hflow'.pc]
    exact h.context.pc
  · rw [hflow.hasPending, hflow'.hasPending]
    exact h.context.hasPending
  · rw [hflow.hasPending, hflow.pending, hflow'.pending]
    exact h.pending

theorem Alike.setMem (h : Alike P m m') {mem mem' : Mem} (hmem : Mem.Agree P mem mem') :
    Alike P (m.setMem mem) (m'.setMem mem') :=
  ⟨⟨h.context.r, h.context.psr, h.context.pc, h.context.hasPending⟩, h.pending, hmem, h.clear,
    h.clear'⟩

/-! ## Instructions outside the memory forms -/

/-- The two results of one computation are alike, and continue alike. -/
def AlikeFlow (P : U32 → Prop) (x x' : Machine × Flow) : Prop := Alike P x.1 x'.1 ∧ x'.2 = x.2

theorem fieldD_lt (w : U32) : (fieldD w).toNat < 32 := by
  unfold fieldD
  rw [BitVec.toNat_and]
  exact lt_of_le_of_lt Nat.and_le_right (by decide)

theorem fieldS1_lt (w : U32) : (fieldS1 w).toNat < 32 := by
  unfold fieldS1
  rw [BitVec.toNat_and]
  exact lt_of_le_of_lt Nat.and_le_right (by decide)

theorem fieldS2_lt (w : U32) : (fieldS2 w).toNat < 32 := by
  unfold fieldS2
  rw [BitVec.toNat_and]
  exact lt_of_le_of_lt Nat.and_le_right (by decide)

theorem Alike.next (h : Alike P m m') {D : U32} (hD : D.toNat < 32) (v : U32) :
    AlikeFlow P (m.wr D v, .next) (m'.wr D v, .next) := ⟨h.wr hD v, rfl⟩

theorem Alike.execImm (h : Alike P m m') (op : U32) {D : U32} (hD : D.toNat < 32) (a b : U32) :
    AlikeFlow P (m.execImm op D a b) (m'.execImm op D a b) := by
  unfold Machine.execImm
  split
  case h_11 | h_15 =>
    split
    · exact ⟨h, rfl⟩
    · exact h.next hD _
  case h_17 => exact ⟨h, rfl⟩
  all_goals exact h.next hD _

theorem Alike.execTri (h : Alike P m m') (sub : U32) {D : U32} (hD : D.toNat < 32) (a b : U32) :
    AlikeFlow P (m.execTri sub D a b) (m'.execTri sub D a b) := by
  unfold Machine.execTri
  split
  case h_9 | h_13 =>
    split
    · exact ⟨h, rfl⟩
    · exact h.next hD _
  case h_15 => exact ⟨h, rfl⟩
  all_goals exact h.next hD _

theorem Alike.bitfield (h : Alike P m m') (sub : U32) {D : U32} (hD : D.toNat < 32)
    (a width offset : U32) :
    Alike P (m.bitfield sub D a width offset) (m'.bitfield sub D a width offset) := by
  unfold Machine.bitfield
  split
  · exact h.wr hD _
  · exact h

theorem toNat_succ {n : U32} (hn : n.toNat < 31) : (n + 1).toNat < 32 := by bv_omega

/-- A register, or a pair of them, as an operand of this precision. -/
def fpRefs (reg prec : U32) : List U32 := if prec = 0 then [reg] else [reg, reg + 1]

def fpuRefs (w : U32) : List U32 :=
  let td := (w >>> 5) &&& 3
  let t2 := (w >>> 7) &&& 3
  let t1 := (w >>> 9) &&& 3
  match ((w >>> 11) &&& 0x1F).toNat with
  | 0x05 | 0x06 | 0x00 | 0x0E =>
    fpRefs (fieldS1 w) t1 ++ fpRefs (fieldS2 w) t2 ++ fpRefs (fieldD w) td
  | 0x0F => fpRefs (fieldS2 w) t2 ++ fpRefs (fieldD w) td
  | 0x04 => fieldS2 w :: fpRefs (fieldD w) td
  | 0x09 | 0x0A | 0x0B => fpRefs (fieldS2 w) t2 ++ [fieldD w]
  | 0x07 => fpRefs (fieldS1 w) t1 ++ fpRefs (fieldS2 w) t2 ++ [fieldD w]
  | _ => []

theorem Alike.fpRead (h : Alike P m m') (host : Host) {reg prec : U32}
    (hrefs : ∀ k ∈ fpRefs reg prec, k.toNat < 32) :
    m'.fpRead host reg prec = m.fpRead host reg prec := by
  unfold fpRefs at hrefs
  unfold Machine.fpRead
  split at hrefs
  · rename_i hsingle
    rw [if_pos hsingle, if_pos hsingle, h.context.r reg (hrefs reg (by simp))]
  · rename_i hdouble
    rw [if_neg hdouble, if_neg hdouble, h.context.r reg (hrefs reg (by simp)),
      h.context.r (reg + 1) (hrefs (reg + 1) (by simp))]

theorem Alike.fpWrite (h : Alike P m m') (host : Host) {reg prec : U32}
    (hrefs : ∀ k ∈ fpRefs reg prec, k.toNat < 32) (v : U64) :
    Alike P (m.fpWrite host reg prec v) (m'.fpWrite host reg prec v) := by
  unfold fpRefs at hrefs
  unfold Machine.fpWrite
  split at hrefs
  · rename_i hsingle
    rw [if_pos hsingle, if_pos hsingle]
    exact h.wr (hrefs reg (by simp)) _
  · rename_i hdouble
    rw [if_neg hdouble, if_neg hdouble]
    exact (h.wr (hrefs reg (by simp)) _).wr (hrefs (reg + 1) (by simp)) _

/-- A floating-point instruction whose pairs all end at `r31` at the latest. -/
theorem Alike.execFpu (h : Alike P m m') (host : Host) {w : U32}
    (hrefs : ∀ k ∈ fpuRefs w, k.toNat < 32) :
    AlikeFlow P (m.execFpu host w (fieldD w) (fieldS1 w))
      (m'.execFpu host w (fieldD w) (fieldS1 w)) := by
  unfold fpuRefs at hrefs
  unfold Machine.execFpu
  simp only at hrefs ⊢
  split
  case h_1 heq | h_2 heq | h_3 heq | h_4 heq =>
    simp only [heq, List.mem_append] at hrefs
    rw [h.fpRead host fun k hk => hrefs k (.inl (.inl hk)),
      h.fpRead host fun k hk => hrefs k (.inl (.inr hk))]
    exact ⟨h.fpWrite host (fun k hk => hrefs k (.inr hk)) _, rfl⟩
  case h_5 heq =>
    simp only [heq, List.mem_append] at hrefs
    rw [h.fpRead host fun k hk => hrefs k (.inl hk)]
    exact ⟨h.fpWrite host (fun k hk => hrefs k (.inr hk)) _, rfl⟩
  case h_6 heq =>
    simp only [heq, List.mem_cons] at hrefs
    rw [h.context.r _ (hrefs _ (.inl rfl))]
    exact ⟨h.fpWrite host (fun k hk => hrefs k (.inr hk)) _, rfl⟩
  case h_7 heq | h_8 heq | h_9 heq =>
    simp only [heq, List.mem_append, List.mem_singleton] at hrefs
    rw [h.fpRead host fun k hk => hrefs k (.inl hk)]
    exact h.next (fieldD_lt w) _
  case h_10 heq =>
    simp only [heq, List.mem_append, List.mem_singleton] at hrefs
    rw [h.fpRead host fun k hk => hrefs k (.inl (.inl hk)),
      h.fpRead host fun k hk => hrefs k (.inl (.inr hk))]
    exact h.next (fieldD_lt w) _
  case h_11 => exact ⟨h, rfl⟩

/-! ## The PSR as a control register -/

/-- The sub-opcodes of `ldcr`, `stcr` and `xcr`, and of the FPU forms beside each. -/
def controlSubs : List Nat := [0x08, 0x09, 0x10, 0x11, 0x18, 0x19]

/-- The control register that a word of opcode `0x20` names. -/
def fieldCr (w : U32) : Fin 64 := Fin.ofNat 64 ((w >>> 5) &&& 63).toNat

theorem rd_setCr (m : Machine) (i : Fin 64) (v : U32) {n : U32} (hn : n.toNat < 32) :
    ({ m with cpu := m.cpu.setCr i v } : Machine).rd n = m.rd n := by
  unfold rd Cpu.rd Cpu.word
  rw [dif_pos hn, dif_pos hn]
  rfl

theorem Alike.setPsr (h : Alike P m m') (v : U32) :
    Alike P { m with cpu := m.cpu.setCr 1 v } { m' with cpu := m'.cpu.setCr 1 v } := by
  have hset : ∀ c : Cpu, (c.setCr 1 v).cr 1 = v := fun c => by
    simp [Cpu.setCr]
  refine ⟨⟨fun n hn => ?_, (hset m'.cpu).trans (hset m.cpu).symm, h.context.pc,
    h.context.hasPending⟩, h.pending, h.mem, h.clear, h.clear'⟩
  rw [rd_setCr m 1 v hn, rd_setCr m' 1 v hn]
  exact h.context.r n hn

theorem Alike.execCr (h : Alike P m m') {w D : U32} (hD : D.toNat < 32) (a : U32)
    (hpsr : ((w >>> 11) &&& 31).toNat ∈ controlSubs → fieldCr w = 1) :
    AlikeFlow P (m.execCr w D a) (m'.execCr w D a) := by
  have hcr : ∀ {sub : Nat}, ((w >>> 11) &&& 31).toNat = sub → sub ∈ controlSubs →
      Fin.ofNat 64 ((w >>> 5) &&& 63).toNat = 1 := fun heq hsub => hpsr (heq ▸ hsub)
  unfold Machine.execCr
  simp only
  split
  case h_1 heq | h_2 heq =>
    rw [hcr heq (by decide), h.context.psr]
    exact h.next hD _
  case h_3 heq | h_4 heq =>
    rw [hcr heq (by decide)]
    exact ⟨h.setPsr a, rfl⟩
  case h_5 heq | h_6 heq =>
    rw [hcr heq (by decide), h.context.psr]
    exact (h.setPsr a).next hD _
  case h_7 => exact ⟨h, rfl⟩

theorem Alike.link (h : Alike P m m') (pc : U32) (delayed : Bool) :
    Alike P (m.link pc delayed) (m'.link pc delayed) := h.wr (by decide) _

theorem Alike.execBr (h : Alike P m m') (w pc op : U32) :
    AlikeFlow P (m.execBr w pc op) (m'.execBr w pc op) := by
  refine ⟨?_, rfl⟩
  unfold Machine.execBr
  simp only
  split
  · exact h.link pc _
  · exact h

theorem Alike.exec3C (h : Alike P m m') {w D : U32} (hD : D.toNat < 32) (a : U32) :
    AlikeFlow P (m.exec3C w D a) (m'.exec3C w D a) := by
  unfold Machine.exec3C
  simp only
  split
  · exact ⟨h, rfl⟩
  · exact ⟨h.bitfield _ hD _ _ _, rfl⟩

/-- A register jump, or an operation of the triadic form outside memory and
return. -/
theorem Alike.exec3D (h : Alike P m m') {w D : U32} (pc : U32) (hD : D.toNat < 32) (a : U32)
    (hmem : ¬fieldSub w < 0x10) (hrte : fieldSub w ≠ 0x3F) :
    AlikeFlow P (m.exec3D w pc D a) (m'.exec3D w pc D a) := by
  unfold Machine.exec3D
  simp only
  rw [if_neg hmem, if_neg hmem, h.context.r (fieldS2 w) (fieldS2_lt w)]
  split
  · exact h.execTri _ hD _ _
  split
  · exact ⟨h.bitfield _ hD _ _ _, rfl⟩
  split
  · exact h.next hD _
  split
  · exact h.next hD _
  split
  · refine ⟨?_, rfl⟩
    show Alike P (if _ then _ else _) (if _ then _ else _)
    split
    · exact h.link pc _
    · exact h
  · exact ⟨h, rfl⟩

def doubles : List U32 := [0x04, 0x08]

/-- A word that works on `r0` to `r31`, the PSR and memory alone: no other control
register, no exception return, and no register pair that starts at `r31`. -/
structure Ordinary (w : U32) : Prop where
  control : w >>> 26 = 0x20 → ((w >>> 11) &&& 31).toNat ∈ controlSubs → fieldCr w = 1
  rte : ¬(w >>> 26 = 0x3D ∧ fieldSub w = 0x3F)
  fpu : w >>> 26 = 0x21 → ∀ k ∈ fpuRefs w, k.toNat < 32
  double : w >>> 26 ∈ doubles ∨ (w >>> 26 = 0x3D ∧ fieldSub w ∈ doubles) →
    (fieldD w).toNat < 31

theorem Ordinary.pair {w sub ea : U32} (hw : Ordinary w) (hform : m.memForm w = some (sub, ea))
    (hsub : sub ∈ doubles) : (fieldD w).toNat < 31 := by
  unfold memForm at hform
  simp only at hform
  split at hform
  · cases hform
    exact hw.double (.inl hsub)
  split at hform
  · rename_i htri
    cases hform
    exact hw.double (.inr ⟨htri.1, hsub⟩)
  · cases hform

theorem Alike.memForm (h : Alike P m m') (w : U32) : m'.memForm w = m.memForm w := by
  unfold Machine.memForm
  rw [h.context.r _ (fieldS1_lt w), h.context.r _ (fieldS2_lt w)]

theorem Alike.execute_plain (h : Alike P m m') (host : Host) {w : U32} (pc : U32)
    (hw : Ordinary w) (hform : m.memForm w = none) :
    AlikeFlow P (m.execute host w pc) (m'.execute host w pc) := by
  unfold Machine.memForm at hform
  simp only at hform
  unfold Machine.execute
  simp only
  rw [h.context.r _ (fieldS1_lt w)]
  split at hform
  · cases hform
  rename_i hop
  split at hform
  · cases hform
  rename_i htri
  rw [if_neg hop, if_neg hop]
  split
  · exact h.execImm _ (fieldD_lt w) _ _
  split
  · rename_i hcontrol
    exact h.execCr (fieldD_lt w) _ (hw.control hcontrol)
  split
  · rename_i hfpu
    exact h.execFpu host (hw.fpu hfpu)
  split
  · exact h.execBr w pc _
  split
  · exact ⟨h, rfl⟩
  split
  · exact ⟨h, rfl⟩
  split
  · exact h.exec3C (fieldD_lt w) _
  split
  · rename_i h3D
    exact h.exec3D pc (fieldD_lt w) _ (fun hsub => htri ⟨h3D, hsub⟩) (fun hsub => hw.rte ⟨h3D, hsub⟩)
  · exact ⟨h, rfl⟩

/-! ## Memory forms -/

/-- The bytes of an access, all of them the program's and none a device's. -/
structure Private (P : U32 → Prop) (m : Machine) (sub pa : U32) : Prop where
  owns : m.mem.Owns P pa (memopScale sub).toNat
  ram : ∀ i < (memopScale sub).toNat, m.OnRam (byteAddr pa i)

theorem Private.first {sub pa : U32} (h : Private P m sub pa) (hsub : sub < 0x0C) :
    m.OnRam pa := by
  have hpos : 0 < (memopScale sub).toNat := by
    rw [BitVec.lt_def] at hsub
    have hscale : ∀ k < 12, 0 < (memopScale (BitVec.ofNat 32 k)).toNat := by decide
    have hself := hscale sub.toNat hsub
    rwa [BitVec.ofNat_toNat, BitVec.setWidth_eq] at hself
  have hfirst := h.ram 0 hpos
  rwa [byteAddr_zero] at hfirst

theorem Alike.memTransfer (h : Alike P m m') {sub D pa : U32} (hsub : sub < 0x0C)
    (hD : D.toNat < 32) (hpair : sub ∈ doubles → D.toNat < 31)
    (hown : Private P m sub pa) (hown' : Private P m' sub pa) :
    Alike P (m.memTransfer sub D pa) (m'.memTransfer sub D pa) := by
  have hlow := (hown.first hsub).below
  have hvalue := h.context.r D hD
  unfold Machine.memTransfer
  split
  case h_1 heq =>
    obtain rfl : sub = 0x05 := BitVec.eq_of_toNat_eq heq
    rw [devRead32_ram hlow, devRead32_ram hlow, h.mem.r32 hown.owns]
    exact h.wr hD _
  case h_2 heq =>
    obtain rfl : sub = 0x07 := BitVec.eq_of_toNat_eq heq
    rw [h.mem.r8 hown.owns]
    exact h.wr hD _
  case h_3 heq =>
    obtain rfl : sub = 0x03 := BitVec.eq_of_toNat_eq heq
    rw [h.mem.r8 hown.owns]
    exact h.wr hD _
  case h_4 heq =>
    obtain rfl : sub = 0x06 := BitVec.eq_of_toNat_eq heq
    rw [h.mem.r16 hown.owns]
    exact h.wr hD _
  case h_5 heq =>
    obtain rfl : sub = 0x02 := BitVec.eq_of_toNat_eq heq
    rw [h.mem.r16 hown.owns]
    exact h.wr hD _
  case h_6 heq =>
    obtain rfl : sub = 0x04 := BitVec.eq_of_toNat_eq heq
    have hhigh : pa + 4 < 0xE0000000 := (hown.ram 4 (by decide)).below
    have howns : m.mem.Owns P pa (4 + 4) := hown.owns
    rw [devRead32_ram hlow, devRead32_ram hlow, h.mem.r32 (howns.mono (by decide))]
    simp only
    rw [devRead32_ram hhigh, devRead32_ram hhigh]
    have hnext : (m'.wr D (m.mem.r32 pa)).mem.r32 (pa + 4) = m.mem.r32 (pa + 4) :=
      h.mem.r32 howns.drop
    rw [hnext]
    exact (h.wr hD _).wr (toNat_succ (hpair (by decide))) _
  case h_7 heq =>
    rw [devWrite32_ram _ (hown.first hsub), devWrite32_ram _ (hown'.first hsub), hvalue]
    exact h.setMem (h.mem.w32 _ _)
  case h_8 heq =>
    have hstored := h.setMem (h.mem.w8 pa ((m.rd D).setWidth 8))
    have hpoke : ∀ mem, (m.setMem mem).tcsPoke pa = m.setMem mem :=
      fun mem => tcsPoke_ram (hown.first hsub).mailbox
    have hpoke' : ∀ mem, (m'.setMem mem).tcsPoke pa = m'.setMem mem :=
      fun mem => tcsPoke_ram (hown'.first hsub).mailbox
    rw [hpoke, hpoke', hvalue]
    exact hstored
  case h_9 heq =>
    rw [hvalue]
    exact h.setMem (h.mem.w16 _ _)
  case h_10 heq =>
    obtain rfl : sub = 0x08 := BitVec.eq_of_toNat_eq heq
    have hnext : m'.rd (D + 1) = m.rd (D + 1) :=
      h.context.r _ (toNat_succ (hpair (by decide)))
    have hlast := hown.ram 4 (by decide)
    have hlast' := hown'.ram 4 (by decide)
    have hram : (m.setMem (m.mem.w32 pa (m.rd D))).OnRam (pa + 4) := ⟨hlast.below, hlast.mailbox⟩
    have hram' : (m'.setMem (m'.mem.w32 pa (m.rd D))).OnRam (pa + 4) :=
      ⟨hlast'.below, hlast'.mailbox⟩
    rw [devWrite32_ram _ (hown.first hsub), devWrite32_ram _ (hown'.first hsub), hvalue]
    simp only
    rw [devWrite32_ram _ hram, devWrite32_ram _ hram']
    show Alike P ((m.setMem _).setMem (Mem.w32 _ _ (m.rd (D + 1))))
      ((m'.setMem _).setMem (Mem.w32 _ _ (m'.rd (D + 1))))
    rw [hnext]
    have hstored := h.setMem (h.mem.w32 pa (m.rd D))
    exact hstored.setMem (hstored.mem.w32 _ _)
  case h_11 heq =>
    obtain rfl : sub = 0x01 := BitVec.eq_of_toNat_eq heq
    simp only
    rw [hvalue, h.mem.r32 hown.owns]
    exact (h.setMem (h.mem.w32 _ _)).wr hD _
  case h_12 heq =>
    obtain rfl : sub = 0x00 := BitVec.eq_of_toNat_eq heq
    simp only
    rw [hvalue, h.mem.r8 hown.owns]
    exact (h.setMem (h.mem.w8 _ _)).wr hD _
  case h_13 => exact h

/-- The same access, mapped alike, on both sides. -/
structure SameAccess (P : U32 → Prop) (m m' : Machine) (sub ea : U32) : Prop where
  clear : (m.memLooked sub ea).ufault.pending = false
  clear' : (m'.memLooked sub ea).ufault.pending = false
  addr : m'.memAddr sub ea = m.memAddr sub ea
  own : Private P m sub (m.memAddr sub ea)
  own' : Private P m' sub (m.memAddr sub ea)

theorem memLooked_private {sub ea pa : U32} (h : Private P m sub pa) :
    Private P (m.memLooked sub ea) sub pa := by
  have hpeek : Peeked (m.setXlatWrite (isStore sub))
    ((m.setXlatWrite (isStore sub)).translate ea false).2 := translate_peeked _ _ _
  have hmem : (m.memLooked sub ea).mem = m.mem := hpeek.mem
  have hdev : (m.memLooked sub ea).dev = m.dev := hpeek.dev
  refine ⟨?_, fun i hi => ⟨(h.ram i hi).below, ?_⟩⟩
  · rw [hmem]
    exact h.owns
  · rw [hdev]
    exact (h.ram i hi).mailbox

theorem Alike.memop (h : Alike P m m') {sub D ea : U32} (hsub : sub < 0x10) (hD : D.toNat < 32)
    (hpair : sub ∈ doubles → D.toNat < 31)
    (haccess : ¬(0x0C ≤ sub ∧ sub ≤ 0x0F) → SameAccess P m m' sub ea) :
    Alike P (m.memop sub D ea) (m'.memop sub D ea) := by
  by_cases hlda : 0x0C ≤ sub ∧ sub ≤ 0x0F
  · rw [memop_lda D ea hlda, memop_lda D ea hlda]
    exact h.wr hD ea
  obtain ⟨hclear, hclear', haddr, hown, hown'⟩ := haccess hlda
  have hlow : sub < 0x0C := by
    have hlt : sub.toNat < 16 := hsub
    show sub.toNat < 12
    by_contra hge
    exact hlda ⟨show 12 ≤ sub.toNat by omega, show sub.toNat ≤ 15 by omega⟩
  have hram := (hown.first hlow).below
  rw [memop_done D ea hlda hclear, memop_done D ea hlda hclear', haddr,
    memAccess_ram _ sub D hram, memAccess_ram _ sub D hram]
  have hlooked : Alike P (m.memLooked sub ea) (m'.memLooked sub ea) :=
    h.transport (memLooked_cpu m sub ea) (memLooked_cpu m' sub ea)
      (translate_peeked (m.setXlatWrite (isStore sub)) ea false).mem
      (translate_peeked (m'.setXlatWrite (isStore sub)) ea false).mem hclear hclear'
  exact hlooked.memTransfer hlow hD hpair (memLooked_private hown) (memLooked_private hown')

/-! ## One instruction -/

theorem memForm_sub {w sub ea : U32} (hform : m.memForm w = some (sub, ea)) : sub < 0x10 := by
  unfold memForm at hform
  simp only at hform
  split at hform
  · rename_i hop
    cases hform
    exact hop
  split at hform
  · rename_i htri
    cases hform
    exact htri.2
  · cases hform

theorem Alike.sequence (h : Alike P m m') (pc : U32) (flow : Flow) :
    Alike P (m.sequence pc flow) (m'.sequence pc flow) := by
  unfold Machine.sequence
  cases hslot : m.cpu.hasPending with
  | true =>
    rw [if_pos rfl, if_pos (h.context.hasPending.trans hslot)]
    exact ⟨⟨h.context.r, h.context.psr, h.pending hslot, rfl⟩, fun hcontra => (nomatch hcontra),
      h.mem, h.clear, h.clear'⟩
  | false =>
    have hslot' : ¬m'.cpu.hasPending = true := by
      rw [h.context.hasPending, hslot]
      decide
    rw [if_neg (by decide), if_neg hslot']
    have hkeep : ∀ target, Alike P (m.setPc target) (m'.setPc target) := fun target =>
      ⟨⟨h.context.r, h.context.psr, rfl, h.context.hasPending⟩, h.pending, h.mem, h.clear,
        h.clear'⟩
    split
    · exact ⟨⟨h.context.r, h.context.psr, rfl, rfl⟩, fun _ => rfl, h.mem, h.clear, h.clear'⟩
    · exact hkeep _
    · exact hkeep _

theorem Alike.finish (h : Alike P m m') (pc : U32) (flow : Flow) :
    Alike P (m.finish pc flow).1 (m'.finish pc flow).1 ∧
      (m'.finish pc flow).2 = (m.finish pc flow).2 := by
  unfold Machine.finish
  split
  · exact ⟨⟨⟨h.context.r, h.context.psr, h.context.pc, h.context.hasPending⟩, h.pending, h.mem,
      h.clear, h.clear'⟩, rfl⟩
  · rw [if_neg (by rw [h.clear]; decide), if_neg (by rw [h.clear']; decide)]
    exact ⟨h.sequence pc flow, rfl⟩

/-- What two machines have to answer alike for an instruction: the word, from
the program's own bytes, and its access. -/
structure SameStep (P : U32 → Prop) (m m' : Machine) : Prop where
  clear : m.fetch.2.ufault.pending = false
  clear' : m'.fetch.2.ufault.pending = false
  addr : (m'.translate m.cpu.pc true).1 = (m.translate m.cpu.pc true).1
  own : m.mem.Owns P (m.translate m.cpu.pc true).1 4
  ordinary : Ordinary m.fetch.1
  access : ∀ sub ea, m.fetch.2.tick.memForm m.fetch.1 = some (sub, ea) →
    ¬(0x0C ≤ sub ∧ sub ≤ 0x0F) → SameAccess P m.fetch.2.tick m'.fetch.2.tick sub ea

theorem fetch_word (m : Machine) : m.fetch.1 = m.mem.r32 (m.translate m.cpu.pc true).1 :=
  congrArg (fun mem : Mem => mem.r32 _) (fetch_peeked m).mem

theorem Alike.exec (h : Alike P m m') (host : Host) (hstep : SameStep P m m') :
    Alike P (m.exec host).1 (m'.exec host).1 ∧ (m'.exec host).2 = (m.exec host).2 := by
  have hword : m'.fetch.1 = m.fetch.1 := by
    rw [fetch_word, fetch_word, h.context.pc, hstep.addr]
    exact h.mem.r32 hstep.own
  have hfetched : Alike P m.fetch.2.tick m'.fetch.2.tick :=
    (h.transport (fetch_peeked m).cpu (fetch_peeked m').cpu (fetch_peeked m).mem
      (fetch_peeked m').mem hstep.clear hstep.clear').tick
  rw [exec_eq, exec_eq, if_neg (by rw [hstep.clear]; decide),
    if_neg (by rw [hstep.clear']; decide), hword, h.context.pc]
  suffices hexec : AlikeFlow P (m.fetch.2.tick.execute host m.fetch.1 m.cpu.pc)
      (m'.fetch.2.tick.execute host m.fetch.1 m.cpu.pc) by
    rw [hexec.2]
    exact hexec.1.finish _ _
  cases hform : m.fetch.2.tick.memForm m.fetch.1 with
  | none => exact hfetched.execute_plain host m.cpu.pc hstep.ordinary hform
  | some form =>
    obtain ⟨sub, ea⟩ := form
    rw [execute_mem hform, execute_mem ((hfetched.memForm m.fetch.1).trans hform)]
    exact ⟨hfetched.memop (memForm_sub hform) (fieldD_lt _)
      (fun hsub => hstep.ordinary.pair hform hsub) (hstep.access sub ea hform), rfl⟩

end Machine

end Nx88
