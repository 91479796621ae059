import Nx88.Cpu.Alike
import Nx88.Mmu.Regs
/-!
# Which registers an instruction touches

The register numbers that an instruction passes to `RD` and `WR`, and the one
way past the end of the register file: the second register of a pair that
starts at `r31` is word 32, which is control register 0.
-/

namespace Nx88

namespace Machine

/-! ## The register numbers -/

def memopRefs (m : Machine) (sub D ea : U32) : List U32 :=
  if 0x0C ≤ sub ∧ sub ≤ 0x0F then [D]
  else if (m.memLooked sub ea).ufault.pending then []
  else if sub = 0x04 ∨ sub = 0x08 then [D, D + 1]
  else [D]

/-- `bsr` and `jsr` leave their return address in `r1`. -/
def linkRefs (links : Bool) : List U32 := if links then [1] else []

def triadicRefs (m : Machine) (w : U32) : List U32 :=
  let sub := fieldSub w
  let b := m.rd (fieldS2 w)
  if sub < 0x10 then
    let idx := if fieldVar w &&& 0x10 ≠ 0 then b * memopScale sub else b
    m.memopRefs sub (fieldD w) (m.rd (fieldS1 w) + idx)
  else if sub < 0x20 then [fieldD w]
  else if 0x20 ≤ sub ∧ sub ≤ 0x2A then [fieldD w]
  else if sub = 0x3A then [fieldD w]
  else if sub = 0x3B then [fieldD w]
  else if 0x30 ≤ sub ∧ sub ≤ 0x33 then linkRefs (0x32 ≤ sub)
  else []

def regRefs (m : Machine) (w : U32) : List U32 :=
  let op := w >>> 26
  fieldS1 w ::
    if op < 0x10 then m.memopRefs op (fieldD w) (m.rd (fieldS1 w) + fieldImm w)
    else if op < 0x20 then [fieldD w]
    else if op = 0x20 then [fieldD w]
    else if op = 0x21 then fpuRefs w
    else if 0x30 ≤ op ∧ op ≤ 0x33 then linkRefs (0x32 ≤ op)
    else if op = 0x3C then [fieldD w]
    else if op = 0x3D then fieldS2 w :: m.triadicRefs w
    else []

/-! ## Two machines apart in one word of the register file -/

abbrev setReg (m : Machine) (n : Nat) (v : U32) : Machine := m.setCpu (m.cpu.setWord n v)

theorem setWord_sameMode (c : Cpu) {n : Nat} (hn : n < 33) (v : U32) :
    SameMode c (c.setWord n v) := by
  unfold Cpu.setWord
  split
  · exact ⟨rfl, rfl, rfl⟩
  split
  · rename_i hlow hhigh
    refine ⟨Function.update_of_ne (fun h => ?_) _ _, rfl, rfl⟩
    have hval := congrArg Fin.val h
    simp only at hval
    omega
  · exact ⟨rfl, rfl, rfl⟩

theorem setWord_comm (c : Cpu) {n k : Nat} (hne : k ≠ n) (v x : U32) :
    (c.setWord n v).setWord k x = (c.setWord k x).setWord n v := by
  unfold Cpu.setWord
  by_cases hn : n < 32
  · by_cases hk : k < 32
    · simp only [dif_pos hn, dif_pos hk]
      rw [Function.update_comm (fun h => hne (congrArg Fin.val h).symm)]
    · simp only [dif_pos hn, dif_neg hk]
      split <;> rfl
  · by_cases hk : k < 32
    · simp only [dif_neg hn, dif_pos hk]
      split <;> rfl
    · simp only [dif_neg hn, dif_neg hk]
      by_cases hn' : n - 32 < 64
      · by_cases hk' : k - 32 < 64
        · simp only [dif_pos hn', dif_pos hk']
          rw [Function.update_comm (fun h => hne (by have := congrArg Fin.val h; simp at this; omega))]
        · simp only [dif_pos hn', dif_neg hk']
      · simp only [dif_neg hn']

/-- The second machine is the first with another value in word `n`; the control
registers above the first are those of `cr`. -/
structure WordApart (n : Nat) (v : U32) (cr : Fin 64 → U32) (m m' : Machine) : Prop where
  apart : m' = m.setReg n v
  kept : ∀ i, i ≠ 0 → m.cpu.cr i = cr i

variable {n : Nat} {v : U32} {cr : Fin 64 → U32} {m m' : Machine}

theorem WordApart.rd (h : WordApart n v cr m m') {k : U32} (hk : k.toNat ≠ n) : m'.rd k = m.rd k := by
  rw [h.apart]
  unfold Machine.rd Cpu.rd
  dsimp only
  split
  · rfl
  · exact Cpu.word_setWord_of_ne _ hk v

/-- `WR` to another word; a word above the registers is at most control register 0. -/
theorem WordApart.wr (h : WordApart n v cr m m') {k : U32} (hk : k.toNat ≠ n) (hlast : k.toNat ≤ 32)
    (x : U32) : WordApart n v cr (m.wr k x) (m'.wr k x) := by
  constructor
  · rw [h.apart]
    unfold Machine.wr Cpu.wr
    dsimp only
    split
    · rfl
    · rw [setWord_comm _ hk]
  · intro i hi
    rw [← h.kept i hi]
    unfold Machine.wr Cpu.wr Cpu.setWord
    dsimp only
    split
    · rfl
    split
    · rfl
    split
    · refine Function.update_of_ne (fun heq => hi ?_) _ _
      apply Fin.ext
      rw [heq]
      change k.toNat - 32 = 0
      omega
    · rfl

theorem WordApart.lift (h : WordApart n v cr m m') {f : Machine → Machine}
    (hf : f (m.setReg n v) = (f m).setCpu (m.cpu.setWord n v)) (hcpu : (f m).cpu = m.cpu) :
    WordApart n v cr (f m) (f m') :=
  ⟨by rw [h.apart, hf, ← hcpu], by rw [hcpu]; exact h.kept⟩

theorem WordApart.mem (h : WordApart n v cr m m') : m'.mem = m.mem := by rw [h.apart]

theorem WordApart.cfg (h : WordApart n v cr m m') : m'.cfg = m.cfg := by rw [h.apart]

theorem WordApart.dev (h : WordApart n v cr m m') : m'.dev = m.dev := by rw [h.apart]

theorem WordApart.setMem (h : WordApart n v cr m m') (mem : Mem) :
    WordApart n v cr (m.setMem mem) (m'.setMem mem) :=
  h.lift (f := fun m => m.setMem mem) rfl rfl

theorem WordApart.setXlatWrite (h : WordApart n v cr m m') (write : Bool) :
    WordApart n v cr (m.setXlatWrite write) (m'.setXlatWrite write) :=
  h.lift (f := fun m => m.setXlatWrite write) rfl rfl

theorem WordApart.devWrite32 (h : WordApart n v cr m m') (a x : U32) :
    WordApart n v cr (m.devWrite32 a x) (m'.devWrite32 a x) :=
  h.lift (f := fun m => m.devWrite32 a x) (devWrite32_setCpu a x) (devWrite32_cpu m a x)

theorem WordApart.tcsPoke (h : WordApart n v cr m m') (a : U32) :
    WordApart n v cr (m.tcsPoke a) (m'.tcsPoke a) :=
  h.lift (f := fun m => m.tcsPoke a) (tcsPoke_setCpu a) (tcsPoke_cpu m a)

theorem WordApart.shaCommand (h : WordApart n v cr m m') (ea : U32) (x : U16) :
    WordApart n v cr (m.shaCommand ea x) (m'.shaCommand ea x) :=
  h.lift (f := fun m => m.shaCommand ea x) (shaCommand_setCpu ea x) (shaCommand_cpu m ea x)

/-! ## The data access -/

variable (hn : n < 33)
include hn

theorem WordApart.timerNow (h : WordApart n v cr m m') : m'.timerNow = m.timerNow := by
  rw [h.apart]
  exact timerNow_setCpu (setWord_sameMode _ hn v)

theorem WordApart.devRead32 (h : WordApart n v cr m m') (a : U32) : m'.devRead32 a = m.devRead32 a := by
  rw [h.apart]
  exact devRead32_setCpu (setWord_sameMode _ hn v) a

theorem WordApart.translate (h : WordApart n v cr m m') (va : U32) (code : Bool) :
    (m'.translate va code).1 = (m.translate va code).1 ∧
      WordApart n v cr (m.translate va code).2 (m'.translate va code).2 := by
  have hswap := translate_setCpu (setWord_sameMode m.cpu hn v) va code
  have hcpu : (m.translate va code).2.cpu = m.cpu := (translate_peeked m va code).cpu
  rw [h.apart, hswap]
  exact ⟨rfl, by rw [← hcpu]; rfl, by rw [hcpu]; exact h.kept⟩

theorem WordApart.memTransfer (h : WordApart n v cr m m') {sub D : U32} (hD : D.toNat < 32)
    (hDn : D.toNat ≠ n) (hpair : sub = 0x04 ∨ sub = 0x08 → (D + 1).toNat ≠ n) (ea : U32) :
    WordApart n v cr (m.memTransfer sub D ea) (m'.memTransfer sub D ea) := by
  have hlast : D.toNat ≤ 32 := Nat.le_of_lt hD
  have hnext : (D + 1).toNat ≤ 32 := by bv_omega
  unfold Machine.memTransfer
  split
  case h_1 =>
    rw [h.devRead32 hn]
    exact h.wr hDn hlast _
  case h_2 | h_3 | h_4 | h_5 =>
    rw [h.mem]
    exact h.wr hDn hlast _
  case h_6 heq =>
    have hfirst := h.wr hDn hlast (m.devRead32 ea)
    rw [h.devRead32 hn]
    simp only
    rw [hfirst.devRead32 hn]
    exact hfirst.wr (hpair (.inl (BitVec.eq_of_toNat_eq heq))) hnext _
  case h_7 =>
    rw [h.rd hDn]
    exact h.devWrite32 ea _
  case h_8 =>
    rw [h.rd hDn, h.mem]
    exact (h.setMem _).tcsPoke ea
  case h_9 =>
    rw [h.rd hDn, h.mem]
    exact h.setMem _
  case h_10 heq =>
    have hfirst := h.devWrite32 ea (m.rd D)
    rw [h.rd hDn]
    simp only
    rw [hfirst.rd (hpair (.inr (BitVec.eq_of_toNat_eq heq)))]
    exact hfirst.devWrite32 (ea + 4) _
  case h_11 | h_12 =>
    simp only
    rw [h.rd hDn, h.mem]
    exact (h.setMem _).wr hDn hlast _
  case h_13 => exact h

theorem WordApart.timerRead (h : WordApart n v cr m m') {D : U32} (hD : D.toNat < 32)
    (hDn : D.toNat ≠ n) (sub ea : U32) :
    (m.timerRead sub D ea = none ∧ m'.timerRead sub D ea = none) ∨
      ∃ k k', m.timerRead sub D ea = some k ∧ m'.timerRead sub D ea = some k' ∧
        WordApart n v cr k k' := by
  unfold Machine.timerRead
  simp only [h.timerNow hn]
  split
  case h_6 => exact .inl ⟨rfl, rfl⟩
  all_goals exact .inr ⟨_, _, rfl, rfl, h.wr hDn (Nat.le_of_lt hD) _⟩

theorem WordApart.memAccess (h : WordApart n v cr m m') {sub D : U32} (hD : D.toNat < 32)
    (hDn : D.toNat ≠ n) (hpair : sub = 0x04 ∨ sub = 0x08 → (D + 1).toNat ≠ n) (ea : U32) :
    WordApart n v cr (m.memAccess sub D ea) (m'.memAccess sub D ea) := by
  have hlast : D.toNat ≤ 32 := Nat.le_of_lt hD
  unfold Machine.memAccess
  rw [h.cfg, h.mem, h.dev, h.rd hDn]
  split
  · exact h.shaCommand ea _
  split
  · exact h.wr hDn hlast _
  split
  · exact h.wr hDn hlast _
  split
  · split
    · exact (h.setMem _).wr hDn hlast _
    · exact ⟨by rw [h.apart], h.kept⟩
  have hplain := h.memTransfer hn hD hDn hpair ea
  by_cases hcounter : m.cfg.sysmode = true ∧ ea &&& ~~~3 = TIMER_ADDR
  · rw [if_pos hcounter, if_pos hcounter]
    obtain ⟨hnone, hnone'⟩ | ⟨k, k', hk, hk', hread⟩ := h.timerRead hn hD hDn sub ea
    · rw [hnone, hnone']
      exact hplain
    · rw [hk, hk']
      exact hread
  · rw [if_neg hcounter, if_neg hcounter]
    exact hplain

theorem WordApart.memLooked (h : WordApart n v cr m m') (sub ea : U32) :
    m'.memAddr sub ea = m.memAddr sub ea ∧
      WordApart n v cr (m.memLooked sub ea) (m'.memLooked sub ea) := by
  have htranslate := (h.setXlatWrite (isStore sub)).translate hn ea false
  exact ⟨htranslate.1, htranslate.2.setXlatWrite false⟩

theorem WordApart.memop (h : WordApart n v cr m m') {sub D ea : U32} (hD : D.toNat < 32)
    (hrefs : ∀ k ∈ m.memopRefs sub D ea, k.toNat ≠ n) :
    WordApart n v cr (m.memop sub D ea) (m'.memop sub D ea) := by
  obtain ⟨haddr, hlooked⟩ := h.memLooked hn sub ea
  have hufault : (m'.memLooked sub ea).ufault = (m.memLooked sub ea).ufault := by
    rw [hlooked.apart]
  unfold memopRefs at hrefs
  rw [memop_eq, memop_eq, haddr, hufault]
  split at hrefs
  · rename_i hlda
    rw [if_pos hlda, if_pos hlda]
    exact h.wr (hrefs D (by simp)) (Nat.le_of_lt hD) _
  rename_i hlda
  rw [if_neg hlda, if_neg hlda]
  split at hrefs
  · rename_i hfault
    rw [if_pos hfault, if_pos hfault]
    unfold memAborted
    rw [hufault]
    exact hlooked.lift (f := fun k => { k with ufault := { (m.memLooked sub ea).ufault with
      write := isStore sub, width := memopScale sub } }) rfl rfl
  rename_i hclear
  rw [if_neg hclear, if_neg hclear]
  split at hrefs
  · exact hlooked.memAccess hn hD (hrefs D (by simp)) (fun _ => hrefs (D + 1) (by simp)) _
  · rename_i hsingle
    exact hlooked.memAccess hn hD (hrefs D (by simp)) (fun hsub => absurd hsub hsingle) _

/-! ## The other instructions -/

omit hn

/-- The two results of one computation are still apart, and continue alike. -/
def WordApartFlow (n : Nat) (v : U32) (cr : Fin 64 → U32) (x x' : Machine × Flow) : Prop :=
  WordApart n v cr x.1 x'.1 ∧ x'.2 = x.2

theorem WordApart.next (h : WordApart n v cr m m') {D : U32} (hD : D.toNat < 32) (hDn : D.toNat ≠ n)
    (x : U32) : WordApartFlow n v cr (m.wr D x, .next) (m'.wr D x, .next) :=
  ⟨h.wr hDn (Nat.le_of_lt hD) x, rfl⟩

theorem WordApart.execImm (h : WordApart n v cr m m') (op : U32) {D : U32} (hD : D.toNat < 32)
    (hDn : D.toNat ≠ n) (a b : U32) :
    WordApartFlow n v cr (m.execImm op D a b) (m'.execImm op D a b) := by
  unfold Machine.execImm
  split
  case h_11 | h_15 =>
    split
    · exact ⟨h, rfl⟩
    · exact h.next hD hDn _
  case h_17 => exact ⟨h, rfl⟩
  all_goals exact h.next hD hDn _

theorem WordApart.execTri (h : WordApart n v cr m m') (sub : U32) {D : U32} (hD : D.toNat < 32)
    (hDn : D.toNat ≠ n) (a b : U32) :
    WordApartFlow n v cr (m.execTri sub D a b) (m'.execTri sub D a b) := by
  unfold Machine.execTri
  split
  case h_9 | h_13 =>
    split
    · exact ⟨h, rfl⟩
    · exact h.next hD hDn _
  case h_15 => exact ⟨h, rfl⟩
  all_goals exact h.next hD hDn _

theorem WordApart.bitfield (h : WordApart n v cr m m') (sub : U32) {D : U32} (hD : D.toNat < 32)
    (hDn : D.toNat ≠ n) (a width offset : U32) :
    WordApart n v cr (m.bitfield sub D a width offset) (m'.bitfield sub D a width offset) := by
  unfold Machine.bitfield
  split
  · exact h.wr hDn (Nat.le_of_lt hD) _
  · exact h

theorem WordApart.fpRead (h : WordApart n v cr m m') (host : Host) {reg prec : U32}
    (hrefs : ∀ k ∈ fpRefs reg prec, k.toNat ≠ n) :
    m'.fpRead host reg prec = m.fpRead host reg prec := by
  unfold fpRefs at hrefs
  unfold Machine.fpRead
  split at hrefs
  · rename_i hsingle
    rw [if_pos hsingle, if_pos hsingle, h.rd (hrefs reg (by simp))]
  · rename_i hdouble
    rw [if_neg hdouble, if_neg hdouble, h.rd (hrefs reg (by simp)),
      h.rd (hrefs (reg + 1) (by simp))]

theorem WordApart.fpWrite (h : WordApart n v cr m m') (host : Host) {reg prec : U32}
    (hreg : reg.toNat < 32) (hrefs : ∀ k ∈ fpRefs reg prec, k.toNat ≠ n) (x : U64) :
    WordApart n v cr (m.fpWrite host reg prec x) (m'.fpWrite host reg prec x) := by
  unfold fpRefs at hrefs
  unfold Machine.fpWrite
  split at hrefs
  · rename_i hsingle
    rw [if_pos hsingle, if_pos hsingle]
    exact h.wr (hrefs reg (by simp)) (Nat.le_of_lt hreg) _
  · rename_i hdouble
    rw [if_neg hdouble, if_neg hdouble]
    exact (h.wr (hrefs reg (by simp)) (Nat.le_of_lt hreg) _).wr (hrefs (reg + 1) (by simp))
      (by bv_omega) _

/-- The operands of a floating-point instruction, each read as its precision says. -/
theorem WordApart.execFpu (h : WordApart n v cr m m') (host : Host) {w : U32}
    (hrefs : ∀ k ∈ fpuRefs w, k.toNat ≠ n) :
    WordApartFlow n v cr (m.execFpu host w (fieldD w) (fieldS1 w))
      (m'.execFpu host w (fieldD w) (fieldS1 w)) := by
  have hD := fieldD_lt w
  have hlast : (fieldD w).toNat ≤ 32 := Nat.le_of_lt hD
  unfold fpuRefs at hrefs
  unfold Machine.execFpu
  simp only at hrefs ⊢
  split
  case h_1 heq | h_2 heq | h_3 heq | h_4 heq =>
    simp only [heq, List.mem_append] at hrefs
    rw [h.fpRead host fun k hk => hrefs k (.inl (.inl hk)),
      h.fpRead host fun k hk => hrefs k (.inl (.inr hk))]
    exact ⟨h.fpWrite host hD (fun k hk => hrefs k (.inr hk)) _, rfl⟩
  case h_5 heq =>
    simp only [heq, List.mem_append] at hrefs
    rw [h.fpRead host fun k hk => hrefs k (.inl hk)]
    exact ⟨h.fpWrite host hD (fun k hk => hrefs k (.inr hk)) _, rfl⟩
  case h_6 heq =>
    simp only [heq, List.mem_cons] at hrefs
    rw [h.rd (hrefs _ (.inl rfl))]
    exact ⟨h.fpWrite host hD (fun k hk => hrefs k (.inr hk)) _, rfl⟩
  case h_7 heq | h_8 heq | h_9 heq =>
    simp only [heq, List.mem_append, List.mem_singleton] at hrefs
    rw [h.fpRead host fun k hk => hrefs k (.inl hk)]
    exact ⟨h.wr (hrefs _ (.inr rfl)) hlast _, rfl⟩
  case h_10 heq =>
    simp only [heq, List.mem_append, List.mem_singleton] at hrefs
    rw [h.fpRead host fun k hk => hrefs k (.inl (.inl hk)),
      h.fpRead host fun k hk => hrefs k (.inl (.inr hk))]
    exact ⟨h.wr (hrefs _ (.inr rfl)) hlast _, rfl⟩
  case h_11 => exact ⟨h, rfl⟩

theorem WordApart.linked (h : WordApart n v cr m m') {links : Prop} [Decidable links]
    (hrefs : ∀ k ∈ linkRefs (decide links), k.toNat ≠ n) (pc : U32) (delayed : Bool) :
    WordApart n v cr (if links then m.link pc delayed else m)
      (if links then m'.link pc delayed else m') := by
  split
  · rename_i hlinks
    exact h.wr (hrefs 1 (by simp [linkRefs, hlinks])) (by decide) _
  · exact h

theorem WordApart.exec3C (h : WordApart n v cr m m') {w D : U32} (hD : D.toNat < 32)
    (hDn : D.toNat ≠ n) (a : U32) : WordApartFlow n v cr (m.exec3C w D a) (m'.exec3C w D a) := by
  unfold Machine.exec3C
  simp only
  split
  · exact ⟨h, rfl⟩
  · exact ⟨h.bitfield _ hD hDn _ _ _, rfl⟩

theorem WordApart.exec3D (hn : n < 33) (h : WordApart n v cr m m') {w : U32} (pc a : U32)
    (ha : a = m.rd (fieldS1 w)) (hrte : fieldSub w ≠ 0x3F) (hS2 : (fieldS2 w).toNat ≠ n)
    (hrefs : ∀ k ∈ m.triadicRefs w, k.toNat ≠ n) :
    WordApartFlow n v cr (m.exec3D w pc (fieldD w) a) (m'.exec3D w pc (fieldD w) a) := by
  have hD := fieldD_lt w
  unfold triadicRefs at hrefs
  unfold Machine.exec3D
  simp only at hrefs ⊢
  rw [h.rd hS2]
  split at hrefs
  · rename_i hsub
    rw [if_pos hsub, if_pos hsub, ha]
    exact ⟨h.memop hn hD hrefs, rfl⟩
  rename_i hmem
  rw [if_neg hmem, if_neg hmem]
  split at hrefs
  · rename_i hsub
    rw [if_pos hsub, if_pos hsub]
    exact h.execTri _ hD (hrefs _ (by simp)) _ _
  rename_i htri
  rw [if_neg htri, if_neg htri]
  split at hrefs
  · rename_i hsub
    rw [if_pos hsub, if_pos hsub]
    exact ⟨h.bitfield _ hD (hrefs _ (by simp)) _ _ _, rfl⟩
  rename_i hfield
  rw [if_neg hfield, if_neg hfield]
  split at hrefs
  · rename_i hsub
    rw [if_pos hsub, if_pos hsub]
    exact h.next hD (hrefs _ (by simp)) _
  rename_i hff1
  rw [if_neg hff1, if_neg hff1]
  split at hrefs
  · rename_i hsub
    rw [if_pos hsub, if_pos hsub]
    exact h.next hD (hrefs _ (by simp)) _
  rename_i hff0
  rw [if_neg hff0, if_neg hff0]
  split at hrefs
  · rename_i hsub
    rw [if_pos hsub, if_pos hsub]
    exact ⟨h.linked hrefs _ _, rfl⟩
  · rename_i hsub
    rw [if_neg hsub, if_neg hsub, if_neg hrte, if_neg hrte]
    exact ⟨h, rfl⟩

theorem WordApart.execute (hn : n < 33) (h : WordApart n v cr m m') (host : Host) {w : U32} (pc : U32)
    (hcontrol : w >>> 26 ≠ 0x20) (hrte : ¬(w >>> 26 = 0x3D ∧ fieldSub w = 0x3F))
    (hrefs : ∀ k ∈ m.regRefs w, k.toNat ≠ n) :
    WordApartFlow n v cr (m.execute host w pc) (m'.execute host w pc) := by
  have hD := fieldD_lt w
  have hS1 : m'.rd (fieldS1 w) = m.rd (fieldS1 w) := h.rd (hrefs _ List.mem_cons_self)
  replace hrefs := fun k hk => hrefs k (List.mem_cons_of_mem _ hk)
  unfold Machine.execute
  simp only at hrefs ⊢
  rw [hS1]
  split at hrefs
  · rename_i hop
    rw [if_pos hop, if_pos hop]
    exact ⟨h.memop hn hD hrefs, rfl⟩
  rename_i hmem
  rw [if_neg hmem, if_neg hmem]
  split at hrefs
  · rename_i hop
    rw [if_pos hop, if_pos hop]
    exact h.execImm _ hD (hrefs _ (by simp)) _ _
  rename_i himm
  rw [if_neg himm, if_neg himm, if_neg hcontrol, if_neg hcontrol]
  split at hrefs
  · rename_i hop
    rw [if_pos hop, if_pos hop]
    exact h.execFpu host hrefs
  rename_i hfpu
  rw [if_neg hfpu, if_neg hfpu]
  split at hrefs
  · rename_i hop
    rw [if_pos hop, if_pos hop]
    exact ⟨h.linked hrefs _ _, rfl⟩
  rename_i hbr
  rw [if_neg hbr, if_neg hbr]
  split
  · exact ⟨h, rfl⟩
  split
  · exact ⟨h, rfl⟩
  split at hrefs
  · rename_i hop
    rw [if_pos hop, if_pos hop]
    exact h.exec3C hD (hrefs _ (by simp)) _
  rename_i hfield
  rw [if_neg hfield, if_neg hfield]
  split at hrefs
  · rename_i hop
    rw [if_pos hop, if_pos hop]
    exact h.exec3D hn pc _ rfl (fun hsub => hrte ⟨hop, hsub⟩) (hrefs _ List.mem_cons_self)
      fun k hk => hrefs k (List.mem_cons_of_mem _ hk)
  · rename_i hop
    rw [if_neg hop, if_neg hop]
    exact ⟨h, rfl⟩

/-! ## Past the last register -/

/-- A double-precision operand that starts at `r31`. -/
def PairAtLast (reg prec : U32) : Prop := prec ≠ 0 ∧ reg = 31

instance (reg prec : U32) : Decidable (PairAtLast reg prec) := by
  unfold PairAtLast
  infer_instance

/-- The floating-point operations by the operands they use. -/
def usesS1 : List Nat := [0x05, 0x06, 0x00, 0x0E, 0x07]
def usesS2 : List Nat := [0x05, 0x06, 0x00, 0x0E, 0x0F, 0x09, 0x0A, 0x0B, 0x07]
def writesPair : List Nat := [0x05, 0x06, 0x00, 0x0E, 0x0F, 0x04]

def fieldFop (w : U32) : Nat := ((w >>> 11) &&& 0x1F).toNat

/-- A floating-point instruction with a register pair that starts at `r31`. -/
def FpuPastLast (w : U32) : Prop :=
  w >>> 26 = 0x21 ∧
    (fieldFop w ∈ usesS1 ∧ PairAtLast (fieldS1 w) ((w >>> 9) &&& 3) ∨
      fieldFop w ∈ usesS2 ∧ PairAtLast (fieldS2 w) ((w >>> 7) &&& 3) ∨
      fieldFop w ∈ writesPair ∧ PairAtLast (fieldD w) ((w >>> 5) &&& 3))

instance (w : U32) : Decidable (FpuPastLast w) := by
  unfold FpuPastLast
  infer_instance

/-- A double-word load or store of the pair that starts at `r31`, unless its
address faults. -/
def DoublePastLast (m : Machine) (w : U32) : Prop :=
  ∃ sub ea, m.memForm w = some (sub, ea) ∧ (sub = 0x04 ∨ sub = 0x08) ∧ fieldD w = 31 ∧
    (m.memLooked sub ea).ufault.pending = false

theorem pair_lt_iff {reg : U32} (hreg : reg.toNat < 32) :
    (∀ k ∈ [reg, reg + 1], k.toNat < 32) ↔ reg ≠ 31 := by
  rw [List.forall_mem_cons, List.forall_mem_singleton, and_iff_right hreg]
  bv_omega

theorem single_lt {reg : U32} (hreg : reg.toNat < 32) : ∀ k ∈ [reg], k.toNat < 32 :=
  List.forall_mem_singleton.2 hreg

theorem fpRefs_lt_iff {reg : U32} (hreg : reg.toNat < 32) (prec : U32) :
    (∀ k ∈ fpRefs reg prec, k.toNat < 32) ↔ ¬PairAtLast reg prec := by
  unfold fpRefs PairAtLast
  split
  · rename_i hsingle
    exact ⟨fun _ hpair => hpair.1 hsingle, fun _ => single_lt hreg⟩
  · rename_i hdouble
    rw [pair_lt_iff hreg, and_iff_right hdouble]

theorem memopRefs_lt_iff (m : Machine) {sub D : U32} (hD : D.toNat < 32) (ea : U32) :
    (∀ k ∈ m.memopRefs sub D ea, k.toNat < 32) ↔
      ¬((sub = 0x04 ∨ sub = 0x08) ∧ D = 31 ∧ (m.memLooked sub ea).ufault.pending = false) := by
  unfold memopRefs
  split
  · rename_i hlda
    refine ⟨?_, fun _ => single_lt hD⟩
    rintro - ⟨rfl | rfl, -⟩
    · exact absurd hlda (by decide)
    · exact absurd hlda (by decide)
  split
  · rename_i hfault
    exact ⟨fun _ h => absurd (hfault.symm.trans h.2.2) (by decide), fun _ k hk => (nomatch hk)⟩
  rename_i hclear
  split
  · rename_i hsub
    rw [pair_lt_iff hD, and_iff_right hsub, and_iff_left (Bool.eq_false_iff.2 hclear)]
  · rename_i hsub
    exact ⟨fun _ h => hsub h.1, fun _ => single_lt hD⟩

theorem fpuRefs_lt_iff (w : U32) :
    (∀ k ∈ fpuRefs w, k.toNat < 32) ↔
      ¬(fieldFop w ∈ usesS1 ∧ PairAtLast (fieldS1 w) ((w >>> 9) &&& 3) ∨
        fieldFop w ∈ usesS2 ∧ PairAtLast (fieldS2 w) ((w >>> 7) &&& 3) ∨
        fieldFop w ∈ writesPair ∧ PairAtLast (fieldD w) ((w >>> 5) &&& 3)) := by
  have h₁ := fpRefs_lt_iff (fieldS1_lt w) ((w >>> 9) &&& 3)
  have h₂ := fpRefs_lt_iff (fieldS2_lt w) ((w >>> 7) &&& 3)
  have hd := fpRefs_lt_iff (fieldD_lt w) ((w >>> 5) &&& 3)
  have hD : (fieldD w).toNat < 32 := fieldD_lt w
  have hS2 : (fieldS2 w).toNat < 32 := fieldS2_lt w
  have hsingle := single_lt (fieldD_lt w)
  unfold fpuRefs fieldFop
  simp only
  split
  case h_1 heq | h_2 heq | h_3 heq | h_4 heq =>
    rw [heq, List.forall_mem_append, List.forall_mem_append, h₁, h₂, hd, and_assoc, ← not_or,
      ← not_or]
    simp [usesS1, usesS2, writesPair]
  case h_5 heq =>
    rw [heq, List.forall_mem_append, h₂, hd]
    simp [usesS1, usesS2, writesPair]
  case h_6 heq =>
    rw [heq, List.forall_mem_cons, and_iff_right hS2, hd]
    simp [usesS1, usesS2, writesPair]
  case h_7 heq | h_8 heq | h_9 heq =>
    rw [heq, List.forall_mem_append, h₂, and_iff_left hsingle]
    simp [usesS1, usesS2, writesPair]
  case h_10 heq =>
    rw [heq, List.forall_mem_append, List.forall_mem_append, h₁, h₂, and_iff_left hsingle]
    simp [usesS1, usesS2, writesPair]
  case h_11 h₅ h₆ h₀ hE hF h₄ h₉ hA hB h₇ =>
    have hnone : ((w >>> 11) &&& 0x1F).toNat ∉ usesS1 ∧ ((w >>> 11) &&& 0x1F).toNat ∉ usesS2 ∧
        ((w >>> 11) &&& 0x1F).toNat ∉ writesPair := by
      generalize ((w >>> 11) &&& 0x1F).toNat = fop at *
      simp only [usesS1, usesS2, writesPair, List.mem_cons, List.not_mem_nil, or_false, not_or]
      exact ⟨⟨h₅, h₆, h₀, hE, h₇⟩, ⟨h₅, h₆, h₀, hE, hF, h₉, hA, hB, h₇⟩, h₅, h₆, h₀, hE, hF, h₄⟩
    refine ⟨fun _ => ?_, fun _ k hk => (nomatch hk)⟩
    rintro (huse | huse | huse)
    · exact hnone.1 huse.1
    · exact hnone.2.1 huse.1
    · exact hnone.2.2 huse.1

theorem linkRefs_lt (links : Bool) : ∀ k ∈ linkRefs links, k.toNat < 32 := by
  unfold linkRefs
  split
  · exact single_lt (by decide)
  · exact fun k hk => (nomatch hk)

theorem regRefs_mem {m : Machine} {w sub ea : U32} (hform : m.memForm w = some (sub, ea)) :
    w >>> 26 ≠ 0x21 ∧ ((∀ k ∈ m.regRefs w, k.toNat < 32) ↔
      ∀ k ∈ m.memopRefs sub (fieldD w) ea, k.toNat < 32) := by
  unfold memForm at hform
  simp only at hform
  unfold regRefs
  simp only
  rw [List.forall_mem_cons, and_iff_right (fieldS1_lt w)]
  split at hform
  · rename_i hop
    cases hform
    rw [if_pos hop]
    exact ⟨fun heq => absurd (heq ▸ hop) (by decide), Iff.rfl⟩
  split at hform
  · rename_i htri
    cases hform
    rw [htri.1, if_neg (by decide), if_neg (by decide), if_neg (by decide), if_neg (by decide),
      if_neg (by decide), if_neg (by decide), if_pos rfl, List.forall_mem_cons,
      and_iff_right (fieldS2_lt w)]
    refine ⟨by decide, ?_⟩
    unfold triadicRefs
    simp only
    rw [if_pos htri.2]
  · cases hform

/-- Outside the memory forms and floating point the numbers are fields of the word. -/
theorem regRefs_plain {m : Machine} {w : U32} (hform : m.memForm w = none)
    (hfpu : w >>> 26 ≠ 0x21) : ∀ k ∈ m.regRefs w, k.toNat < 32 := by
  have hD := single_lt (fieldD_lt w)
  have hnil : ∀ k ∈ ([] : List U32), k.toNat < 32 := fun k hk => (nomatch hk)
  unfold memForm at hform
  simp only at hform
  unfold regRefs
  simp only
  refine List.forall_mem_cons.2 ⟨fieldS1_lt w, ?_⟩
  split at hform
  · cases hform
  rename_i hop
  split at hform
  · cases hform
  rename_i htri
  rw [if_neg hop]
  split
  · exact hD
  split
  · exact hD
  split
  · exact linkRefs_lt _
  split
  · exact hD
  split
  · rename_i h3D
    refine List.forall_mem_cons.2 ⟨fieldS2_lt w, ?_⟩
    unfold triadicRefs
    simp only
    rw [if_neg fun hsub => htri ⟨h3D, hsub⟩]
    split
    · exact hD
    split
    · exact hD
    split
    · exact hD
    split
    · exact hD
    split
    · exact linkRefs_lt _
    · exact hnil
  · exact hnil

/-- Only a register pair that starts at `r31` leads past the last register. -/
theorem regRefs_lt_iff (m : Machine) (w : U32) :
    (∀ k ∈ m.regRefs w, k.toNat < 32) ↔ ¬(m.DoublePastLast w ∨ FpuPastLast w) := by
  cases hform : m.memForm w with
  | some form =>
      obtain ⟨sub, ea⟩ := form
      obtain ⟨hop, hrefs⟩ := regRefs_mem hform
      rw [hrefs, memopRefs_lt_iff m (fieldD_lt w), not_iff_not]
      constructor
      · exact fun h => .inl ⟨sub, ea, hform, h⟩
      · rintro (⟨sub', ea', hform', h⟩ | hfpu)
        · cases hform.symm.trans hform'
          exact h
        · exact absurd hfpu.1 hop
  | none =>
      have hmem : ¬m.DoublePastLast w := by
        rintro ⟨sub, ea, hsome, -⟩
        exact absurd (hform.symm.trans hsome) (by simp)
      rw [or_iff_right hmem]
      by_cases hfpu : w >>> 26 = 0x21
      · have hrefs : (∀ k ∈ m.regRefs w, k.toNat < 32) ↔ ∀ k ∈ fpuRefs w, k.toNat < 32 := by
          unfold regRefs
          simp only
          rw [List.forall_mem_cons, and_iff_right (fieldS1_lt w), hfpu, if_neg (by decide),
            if_neg (by decide), if_neg (by decide), if_pos rfl]
        rw [hrefs, fpuRefs_lt_iff]
        unfold FpuPastLast
        rw [and_iff_right hfpu]
      · exact ⟨fun _ h => hfpu h.1, fun _ => regRefs_plain hform hfpu⟩

/-! ## What an instruction may look at -/

/-- Executing the word reads and changes no control register: it leaves them as
they are, and control register 0, the one next to the registers, plays no part
in what it does. -/
structure SparesControl (m : Machine) (h : Host) (w pc : U32) : Prop where
  kept : (m.execute h w pc).1.cpu.cr = m.cpu.cr
  unread : ∀ v, ({ m with cpu := m.cpu.setCr 0 v } : Machine).execute h w pc =
    ({ (m.execute h w pc).1 with cpu := (m.execute h w pc).1.cpu.setCr 0 v },
      (m.execute h w pc).2)

/-- Every register number is in range, and therefore no instruction but the
ones meant for it gets at a control register. -/
structure InRange (m : Machine) (h : Host) (w pc : U32) : Prop where
  below : ∀ k ∈ m.regRefs w, k.toNat < 32
  spares : w >>> 26 ≠ 0x20 → ¬(w >>> 26 = 0x3D ∧ fieldSub w = 0x3F) → m.SparesControl h w pc

theorem sparesControl_of_refs {m : Machine} {w : U32} (h : Host) (pc : U32)
    (hrefs : ∀ k ∈ m.regRefs w, k.toNat < 32) (hcontrol : w >>> 26 ≠ 0x20)
    (hrte : ¬(w >>> 26 = 0x3D ∧ fieldSub w = 0x3F)) : m.SparesControl h w pc := by
  have hne : ∀ k ∈ m.regRefs w, k.toNat ≠ 32 := fun k hk => Nat.ne_of_lt (hrefs k hk)
  have hset : ∀ (c : Cpu) v, c.setWord 32 v = c.setCr 0 v := fun _ _ => rfl
  have hread : ∀ (c : Cpu) v, (c.setWord 32 v).cr 0 = v := by
    intro c v
    rw [hset]
    exact Function.update_self 0 v c.cr
  have hrun : ∀ v, WordApartFlow 32 v m.cpu.cr (m.execute h w pc)
      ((m.setReg 32 v).execute h w pc) := fun v =>
    WordApart.execute (by decide) ⟨rfl, fun _ _ => rfl⟩ h pc hcontrol hrte hne
  constructor
  · funext i
    by_cases hi : i = 0
    · -- with its own value put back, control register 0 is what the run leaves in it
      have hsame : m.setReg 32 (m.cpu.cr 0) = m := by
        change ({ m with cpu := { m.cpu with cr := Function.update m.cpu.cr 0 (m.cpu.cr 0) } } :
          Machine) = m
        rw [Function.update_eq_self]
      have hfirst := (hrun (m.cpu.cr 0)).1.apart
      rw [hsame] at hfirst
      have hcr := congrArg (fun k : Machine => k.cpu.cr 0) hfirst
      rw [hi]
      exact hcr.trans (hread (m.execute h w pc).1.cpu _)
    · exact (hrun 0).1.kept i hi
  · intro v
    exact Prod.ext (hrun v).1.apart (hrun v).2

/-- Register numbers stay in range exactly when the instruction has no register
pair that starts at `r31`. -/
theorem inRange_iff (m : Machine) (h : Host) (w pc : U32) :
    m.InRange h w pc ↔ ¬(m.DoublePastLast w ∨ FpuPastLast w) := by
  rw [← regRefs_lt_iff]
  exact ⟨fun hin => hin.below, fun hrefs => ⟨hrefs, sparesControl_of_refs h pc hrefs⟩⟩

/-- `fadd.ddd r2,r31,r4` takes the low half of its first operand from control
register 0. -/
theorem fadd_past_last : ¬∀ (m : Machine) (h : Host) (w pc : U32), m.InRange h w pc := by
  intro hall
  have hin := hall Machine.fresh Host.blank 0x845F2AA4 0
  have hmem : (32 : U32) ∈ Machine.fresh.regRefs 0x845F2AA4 := by decide
  exact absurd (hin.below 32 hmem) (by decide)

end Machine

end Nx88
