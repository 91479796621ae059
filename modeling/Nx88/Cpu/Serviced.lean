import Nx88.Cpu.Spec
/-!
# What an intercept leaves alone

The intercepts are made of translations, stores, jumps and writes to registers
and the disk, so what holds across each of these holds across them.  They never
rewrite the delay slot, the instruction count, the clock comparator or the
configuration.
-/

namespace Nx88

open Lib.Words

namespace Machine

/-- Everything but registers, program counter, memory contents, the disk and
what translations keep is as it was. -/
def Serviced (m m' : Machine) : Prop :=
  ∃ r cr pc p t u s vp img wrote, m' =
    { m with
      cpu := { m.cpu with r := r, cr := cr, pc := pc }
      mem := ⟨m.mem.realmm, p⟩
      tlb := t
      ufault := u
      scratchCached := s
      dev := { m.dev with rootDevVp := vp, diskImg := img, diskWrote := wrote } }

theorem Serviced.refl (m : Machine) : Serviced m m :=
  ⟨m.cpu.r, m.cpu.cr, m.cpu.pc, m.mem.pages, m.tlb, m.ufault, m.scratchCached, m.dev.rootDevVp,
    m.dev.diskImg, m.dev.diskWrote, rfl⟩

theorem Serviced.trans {m m' m'' : Machine} (h₁ : Serviced m m') (h₂ : Serviced m' m'') :
    Serviced m m'' := by
  obtain ⟨r₁, cr₁, pc₁, p₁, t₁, u₁, s₁, vp₁, img₁, wrote₁, rfl⟩ := h₁
  obtain ⟨r₂, cr₂, pc₂, p₂, t₂, u₂, s₂, vp₂, img₂, wrote₂, rfl⟩ := h₂
  exact ⟨r₂, cr₂, pc₂, p₂, t₂, u₂, s₂, vp₂, img₂, wrote₂, rfl⟩

theorem Peeked.serviced {m m' : Machine} (h : Peeked m m') : Serviced m m' := by
  obtain ⟨t, u, s, rfl⟩ := h
  exact ⟨m.cpu.r, m.cpu.cr, m.cpu.pc, m.mem.pages, t, u, s, m.dev.rootDevVp, m.dev.diskImg,
    m.dev.diskWrote, rfl⟩

theorem RegsOnly.serviced {m m' : Machine} (h : RegsOnly m m') : Serviced m m' := by
  obtain ⟨r, cr, rfl⟩ := h
  exact ⟨r, cr, m.cpu.pc, m.mem.pages, m.tlb, m.ufault, m.scratchCached, m.dev.rootDevVp,
    m.dev.diskImg, m.dev.diskWrote, rfl⟩

theorem setPc_serviced (m : Machine) (pc : U32) : Serviced m (m.setPc pc) :=
  ⟨m.cpu.r, m.cpu.cr, pc, m.mem.pages, m.tlb, m.ufault, m.scratchCached, m.dev.rootDevVp,
    m.dev.diskImg, m.dev.diskWrote, rfl⟩

theorem setMem_serviced {m : Machine} {mem : Mem} (h : mem.realmm = m.mem.realmm) :
    Serviced m (m.setMem mem) := by
  refine ⟨m.cpu.r, m.cpu.cr, m.cpu.pc, mem.pages, m.tlb, m.ufault, m.scratchCached,
    m.dev.rootDevVp, m.dev.diskImg, m.dev.diskWrote, ?_⟩
  rw [← h]
  rfl

theorem setDisk_serviced (m : Machine) (vp : U32) (img : Option Image) (wrote : Bool) :
    Serviced m { m with
      dev := { m.dev with rootDevVp := vp, diskImg := img, diskWrote := wrote } } :=
  ⟨m.cpu.r, m.cpu.cr, m.cpu.pc, m.mem.pages, m.tlb, m.ufault, m.scratchCached, vp, img, wrote, rfl⟩

theorem load_realmm (mem : Mem) (a : U32) (bs : List U8) : (mem.load a bs).realmm = mem.realmm := by
  induction bs generalizing mem a with
  | nil => rfl
  | cons b bs ih => exact ih (mem.w8 a b) (a + 1)

/-! ## What the intercepts are made of -/

/-- The machine a stage leaves, whether it ends the step or not. -/
def stageResult : Except Machine Machine → Machine
  | .error m => m
  | .ok m => m

/-- A preorder that holds across everything the intercepts are made of. -/
structure Stage (R : Machine → Machine → Prop) : Prop where
  refl (m : Machine) : R m m
  trans {m m' m'' : Machine} : R m m' → R m' m'' → R m m''
  wr (m : Machine) (n v : U32) : R m (m.wr n v)
  setPc (m : Machine) (pc : U32) : R m (m.setPc pc)
  setMem {m : Machine} {mem : Mem} (h : mem.realmm = m.mem.realmm) : R m (m.setMem mem)
  setDisk (m : Machine) (vp : U32) (img : Option Image) (wrote : Bool) :
    R m { m with dev := { m.dev with rootDevVp := vp, diskImg := img, diskWrote := wrote } }
  translate (m : Machine) (va : U32) (code : Bool) : R m (m.translate va code).2

namespace Stage

variable {R : Machine → Machine → Prop}

theorem kread (hR : Stage R) (m : Machine) (va : U32) : R m (m.kread va).2 :=
  hR.translate m va false

theorem kwrite (hR : Stage R) (m : Machine) (va v : U32) : R m (m.kwrite va v) :=
  hR.trans (hR.translate m va false) (hR.setMem (Mem.w32_realmm _ _ _))

theorem releaseLock (hR : Stage R) (m : Machine) : R m m.releaseLock := by
  unfold Machine.releaseLock
  split
  · exact hR.kwrite m _ _
  · exact hR.refl m

theorem returnZero (hR : Stage R) (m : Machine) (target : U32) : R m (m.returnZero target) :=
  hR.trans (hR.setPc m target) (hR.wr _ _ _)

theorem dmaOut (hR : Stage R) (m : Machine) (dma : U32) (buf : List U8) :
    R m (m.dmaOut dma buf) :=
  hR.setMem (load_realmm m.mem dma buf)

/-! ## The disks -/

theorem sdPerform (hR : Stage R) (m : Machine) (c : SdCommand) : R m (m.sdPerform c) := by
  unfold Machine.sdPerform
  simp only
  split
  · exact hR.dmaOut m _ _
  · split
    · exact hR.refl m
    · exact hR.dmaOut m _ _
  · split
    · exact hR.refl m
    · exact hR.dmaOut m _ _
  · split
    · split
      · exact hR.refl m
      · exact hR.setDisk m m.dev.rootDevVp _ m.dev.diskWrote
    · exact hR.refl m
  · split
    · split
      · exact hR.refl m
      · exact hR.setDisk m m.dev.rootDevVp _ m.dev.diskWrote
    · exact hR.refl m
  · split
    · exact hR.refl m
    · exact hR.dmaOut m _ _
  · exact hR.refl m

theorem shaSdcomplete (hR : Stage R) (m : Machine) (cmd : U32) : R m (m.shaSdcomplete cmd) := by
  have hreads := hR.trans (hR.trans (hR.trans (hR.kread m (cmd + 0x44)) (hR.kread _ (cmd + 0x10)))
    (hR.kread _ (cmd + 0x70))) (hR.kread _ (cmd + 0x90))
  unfold Machine.shaSdcomplete
  simp only
  split
  · exact hreads
  · exact hR.trans (hR.trans hreads (hR.kread _ _)) (hR.sdPerform _ _)

theorem shaComplete (hR : Stage R) (m : Machine) : R m m.shaComplete := by
  unfold Machine.shaComplete
  simp only
  split
  · exact hR.trans (hR.translate m _ _) (hR.setMem (Mem.w32_realmm _ _ _))
  · exact hR.refl m

theorem readBuf (hR : Stage R) (m : Machine) (buf : U32) : R m (m.readBuf buf).2 :=
  hR.trans (hR.trans (hR.trans (hR.trans (hR.kread m buf) (hR.kread _ _)) (hR.kread _ _))
    (hR.kread _ _)) (hR.kread _ _)

theorem storeWords (hR : Stage R) (addr : U32) (tmp : Nat → U8) (m : Machine) (k n : Nat) :
    R m (m.storeWords addr tmp k n) := by
  induction n generalizing m k with
  | zero => exact hR.refl m
  | succ n ih => exact hR.trans (hR.kwrite m _ _) (ih _ (k + 1))

theorem loadWords (hR : Stage R) (addr : U32) (m : Machine) (k n : Nat) :
    R m (m.loadWords addr k n).2 := by
  induction n generalizing m k with
  | zero => exact hR.refl m
  | succ n ih => exact hR.trans (hR.kread m _) (ih _ (k + 1))

theorem noteRoot (hR : Stage R) (m : Machine) (vp : U32) : R m (m.noteRoot vp) := by
  unfold Machine.noteRoot
  split
  · exact hR.setDisk m vp m.dev.diskImg m.dev.diskWrote
  · exact hR.refl m

theorem transferFile (hR : Stage R) (m : Machine) (h : Host) (b : Buf) (isRoot : Bool)
    (f : Image) : R m (m.transferFile h b isRoot f) := by
  unfold Machine.transferFile
  simp only
  split
  · split
    · exact hR.storeWords _ _ _ _ _
    split
    · exact hR.refl m
    · exact hR.trans (hR.loadWords _ m _ _) (hR.setDisk _ _ _ true)
  · exact hR.refl m

theorem transfer (hR : Stage R) (m : Machine) (h : Host) (b : Buf) : R m (m.transfer h b) := by
  have hroot := hR.noteRoot m b.vp
  unfold Machine.transfer
  simp only
  split
  · exact hroot
  · exact hR.trans hroot (hR.transferFile _ _ _ _ _)

/-! ## The stages -/

theorem bind (hR : Stage R) {m : Machine} {x : Except Machine Machine}
    {f : Machine → Except Machine Machine} (hx : R m (stageResult x))
    (hf : ∀ k, R k (stageResult (f k))) : R m (stageResult (x >>= f)) := by
  cases x with
  | error k => exact hx
  | ok k => exact hR.trans hx (hf k)

theorem replaySkip (hR : Stage R) (m : Machine) (pc : U32) :
    R m (stageResult (m.replaySkip pc)) := by
  unfold Machine.replaySkip
  split
  · exact hR.returnZero m _
  · exact hR.refl m

theorem shaSleep (hR : Stage R) (m : Machine) (pc : U32) :
    R m (stageResult (m.shaSleep pc)) := by
  unfold Machine.shaSleep
  split
  · exact hR.trans (hR.trans (hR.shaComplete m) (hR.releaseLock _)) (hR.returnZero _ _)
  · exact hR.refl m

theorem shaSwitch (hR : Stage R) (m : Machine) (pc : U32) :
    R m (stageResult (m.shaSwitch pc)) := by
  unfold Machine.shaSwitch
  split
  · exact hR.trans (hR.shaSdcomplete m _) (hR.setPc _ _)
  · exact hR.refl m

theorem shaPoll (hR : Stage R) (m : Machine) (pc : U32) :
    R m (stageResult (m.shaPoll pc)) := by
  unfold Machine.shaPoll
  split
  · simp only
    split
    · exact hR.trans (hR.trans (hR.translate m _ _) (hR.shaSdcomplete _ _))
        (hR.setMem (Mem.w32_realmm _ _ _))
    · exact hR.translate m _ _
  · exact hR.refl m

theorem tlbShootdown (hR : Stage R) (m : Machine) (pc : U32) :
    R m (stageResult (m.tlbShootdown pc)) := by
  unfold Machine.tlbShootdown
  split
  · simp only
    split
    · exact hR.trans (hR.translate m _ _) (hR.setMem (Mem.w32_realmm _ _ _))
    · exact hR.translate m _ _
  · exact hR.refl m

theorem shaSegment (hR : Stage R) (m : Machine) (pc : U32) :
    R m (stageResult (m.shaSegment pc)) := by
  unfold Machine.shaSegment
  split
  · exact hR.trans (hR.trans (hR.trans (hR.trans (hR.shaSdcomplete m _) (hR.translate _ _ _))
      (hR.setMem (Mem.w16_realmm _ _ _))) (hR.releaseLock _)) (hR.returnZero _ _)
  · exact hR.refl m

theorem vmeWindows (hR : Stage R) (m : Machine) (pc : U32) :
    R m (stageResult (m.vmeWindows pc)) := by
  unfold Machine.vmeWindows
  split
  · simp only
    split
    · exact hR.trans (hR.translate m _ _) (hR.setMem (Mem.w32_realmm _ _ _))
    · exact hR.translate m _ _
  · exact hR.refl m

theorem shaSlot (hR : Stage R) (m : Machine) (pc : U32) :
    R m (stageResult (m.shaSlot pc)) := by
  unfold Machine.shaSlot
  split
  · simp only
    split
    · exact hR.trans (hR.translate m _ _) (hR.setMem (Mem.w16_realmm _ _ _))
    · exact hR.translate m _ _
  · exact hR.refl m

theorem getblkWake (hR : Stage R) (m : Machine) (pc : U32) : R m (m.getblkWake pc) := by
  unfold Machine.getblkWake
  split
  · exact hR.trans (hR.releaseLock m) (hR.wr _ _ _)
  · exact hR.refl m

theorem strategy (hR : Stage R) (m : Machine) (h : Host) (pc : U32) :
    R m (stageResult (m.strategy h pc)) := by
  unfold Machine.strategy
  split
  · exact hR.trans (hR.trans (hR.trans (hR.readBuf m (m.rd 2)) (hR.transfer _ h _))
      (hR.getblkWake _ pc)) (hR.setPc _ _)
  · exact hR.refl m

theorem completeBuffer (hR : Stage R) (m : Machine) (h : Host) (buf : U32) :
    R m (m.completeBuffer h buf) :=
  hR.trans (hR.trans (hR.trans (hR.readBuf m buf) (hR.transfer _ _ _)) (hR.translate _ _ _))
    (hR.setMem (Mem.w32_realmm _ _ _))

theorem biowait (hR : Stage R) (m : Machine) (h : Host) (pc : U32) :
    R m (stageResult (m.biowait h pc)) := by
  unfold Machine.biowait
  split
  · refine hR.trans (hR.trans ?_ (hR.releaseLock _)) (hR.returnZero _ _)
    split
    · exact hR.completeBuffer m h _
    · exact hR.refl m
  · exact hR.refl m

theorem synchrtc (hR : Stage R) (m : Machine) (pc : U32) :
    R m (stageResult (m.synchrtc pc)) := by
  unfold Machine.synchrtc
  split
  · exact hR.returnZero m _
  · exact hR.refl m

theorem intercepts (hR : Stage R) (m : Machine) (h : Host) (pc : U32) :
    R m (stageResult (m.intercepts h pc)) := by
  unfold Machine.intercepts
  refine hR.bind (hR.replaySkip m pc) fun m => ?_
  refine hR.bind (hR.shaSleep m pc) fun m => ?_
  refine hR.bind (hR.shaSwitch m pc) fun m => ?_
  refine hR.bind (hR.shaPoll m pc) fun m => ?_
  refine hR.bind (hR.tlbShootdown m pc) fun m => ?_
  refine hR.bind (hR.shaSegment m pc) fun m => ?_
  refine hR.bind (hR.vmeWindows m pc) fun m => ?_
  refine hR.bind (hR.shaSlot m pc) fun m => ?_
  refine hR.bind (hR.strategy m h pc) fun m => ?_
  refine hR.bind (hR.biowait m h pc) fun m => ?_
  exact hR.synchrtc m pc

end Stage

/-! ## What stands -/

theorem wr_serviced (m : Machine) (n v : U32) : Serviced m (m.wr n v) :=
  (wr_regsOnly m n v).serviced

theorem serviced_stage : Stage Serviced :=
  ⟨Serviced.refl, Serviced.trans, wr_serviced, setPc_serviced, setMem_serviced, setDisk_serviced,
    fun m va code => (translate_peeked m va code).serviced⟩

/-- Whatever the intercepts do at `pc`, the clock and the delay slot stand. -/
theorem intercepts_serviced (m : Machine) (h : Host) (pc : U32) :
    Serviced m (stageResult (m.intercepts h pc)) := serviced_stage.intercepts m h pc

theorem intercepts_ok {m k : Machine} {h : Host} {pc : U32} (hk : m.intercepts h pc = .ok k) :
    Serviced m k := by
  have hserviced := intercepts_serviced m h pc
  rw [hk] at hserviced
  exact hserviced

theorem intercepts_error {m k : Machine} {h : Host} {pc : U32}
    (hk : m.intercepts h pc = .error k) : Serviced m k := by
  have hserviced := intercepts_serviced m h pc
  rw [hk] at hserviced
  exact hserviced

end Machine

end Nx88
