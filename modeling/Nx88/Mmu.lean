import Nx88.Memory
/-!
# Address translation

The MC88200 table walk, the device map, the walk with its fallbacks, the CMMU
command port, the translation caches and `translate` itself.
-/

namespace Nx88

open Lib.Words

/-! ## Table walks -/

/-- A descriptor word.  The kernel names its tables physically but may have
built them elsewhere; an invalid descriptor is looked up a second time at the
biased address. -/
def Mem.tabR32 (m : Mem) (ktabBias pa : U32) (biased : Bool) : U32 :=
  let v := m.r32 pa
  if v &&& 1 = 0 ∧ biased then
    let alt := m.r32 ((pa &&& 0x3FFFFFFF) + ktabBias)
    if alt &&& 1 ≠ 0 then alt else v
  else v

/-- Two-level walk: area pointer, segment table, page table.  Returns the
physical address and the page descriptor. -/
def Mem.mmuWalk (m : Mem) (ktabBias apr vaddr : U32) : Option (U32 × U32) :=
  let segtab := pageAddr apr
  if segtab = 0 then none
  else
    let biased := decide (ktabBias ≠ 0 ∧ vaddr < 0xC0000000)
    let sdesc := m.tabR32 ktabBias (segtab + ((vaddr >>> 22) &&& 0x3FF) * 4) biased
    if sdesc &&& 1 = 0 then none
    else
      let pgtab := pageAddr sdesc
      let pdesc := m.tabR32 ktabBias (pgtab + ((vaddr >>> 12) &&& 0x3FF) * 4) biased
      if pdesc &&& 1 = 0 then none
      else some (pageAddr pdesc ||| offsetOf vaddr, pdesc)

def devmapAdd (devmap : List DevMap) (va pa : U32) : List DevMap :=
  let va := pageAddr va
  match devmap.findIdx? (fun d => d.va == va) with
  | some i => devmap.modify i (fun d => ⟨d.va, pageAddr pa, pageAddr_pageAddr pa⟩)
  | none =>
    if devmap.length < 512 then devmap ++ [⟨va, pageAddr pa, pageAddr_pageAddr pa⟩] else devmap

def devmapLookup (devmap : List DevMap) (va : U32) : U32 :=
  match devmap.find? (fun d => d.va == pageAddr va) with
  | some d => d.pa
  | none => 0

/-- Walk the kernel's active table, then under `realmm` the device map, the
synthetic direct-map table and, for device space, identity.  The fallbacks that
have no descriptor leave the caller's initial descriptor 0. -/
def Mem.walkFb (m : Mem) (ktabBias : U32) (devmap : List DevMap) (apr vaddr : U32)
    (code : Bool) : Option (U32 × U32) :=
  match m.mmuWalk ktabBias apr vaddr with
  | some r => some r
  | none =>
    if m.realmm then
      let dp := devmapLookup devmap vaddr
      if devmap ≠ [] ∧ dp ≠ 0 then some (dp ||| offsetOf vaddr, 0)
      else
        let syn := if code then CODE_SEGTAB else DATA_SEGTAB
        match m.mmuWalk ktabBias (syn ||| 1) vaddr with
        | some r => some r
        | none => if 0xE0000000 ≤ vaddr then some (vaddr, 0) else none
    else none

/-- Base of the register window of the code or the data CMMU. -/
def cmmuBase (code : Bool) : U32 := if code then 0xFFF7F000 else 0xFFF7E000

/-- Physical address bits 28-23, from which the kernel reads a page's node. -/
def NODE_BITS : U32 := 0x1F800000

namespace Machine

def tlbFlush (m : Machine) : Machine := { m with tlb := fun _ _ => ⟨0, 0⟩ }

def cmmuCommand (m : Machine) (base cmd : U32) : Machine :=
  if cmd ≠ 0x20 ∧ cmd ≠ 0x24 then m.tlbFlush
  else
    let vaddr := m.mem.r32 (base + CMMU_SAR)
    let apr := m.mem.r32 (base + if cmd = 0x24 then CMMU_SAPR else CMMU_UAPR)
    let isCode := base == 0xFFF7F000
    match m.mem.walkFb m.ktabBias m.devmap apr vaddr isCode with
    | some (phys, _) =>
      -- node 0 is forced for kernel-space probes
      let phys := if 0xC0000000 ≤ vaddr ∧ vaddr < 0xE0000000 then phys &&& ~~~NODE_BITS
        else phys
      m.setMem ((m.mem.w32 (base + CMMU_SSR) 1).w32 (base + CMMU_SAR) phys)
    | none => m.setMem ((m.mem.w32 (base + CMMU_SSR) 0).w32 (base + CMMU_PFAR) vaddr)

/-! ## Translation -/

/-- A store to a write-protected page: `some` machine with the fault recorded,
or `none` when no fault is due. -/
def cowFault (m : Machine) (va : U32) : Option Machine :=
  if ¬m.cfg.procexp ∨ ¬m.xlatWrite ∨ m.ufault.pending then none
  else some { m with ufault := ⟨true, va, m.cpu.pc, false, true, 4⟩ }

/-- The address `pa`, unless its page is write-protected and a fault is due. -/
def guardWrite (m : Machine) (va : U32) (wp : Bool) (pa : U32) : U32 × Machine :=
  match (if wp then m.cowFault va else none) with
  | some m' => (0, m')
  | none => (pa, m)

def tlbIndex (va : U32) : U32 := (va >>> 12) &&& (TLB_SIZE - 1)

def tlbTag (va : U32) : U32 := (va >>> 12) ||| 0x80000000

def tlbFill (m : Machine) (code : Bool) (va pa : U32) : Machine :=
  { m with
    tlb := Function.update m.tlb code
      (Function.update (m.tlb code) (tlbIndex va) ⟨tlbTag va, pa⟩) }

/-- The SAPR or UAPR of one side. -/
def apr (m : Machine) (code : Bool) (off : U32) : U32 := m.mem.r32 (cmmuBase code + off)

def walkEnabled (m : Machine) (apr va : U32) : Option (U32 × U32) :=
  if apr &&& 1 = 0 then none else m.mem.mmuWalk m.ktabBias apr va

/-- A kernel address through the cache and the kernel's own table; `fallback`
answers for what the table does not cover. -/
def cachedTable (m : Machine) (va fallback : U32) (code : Bool) : U32 × Machine :=
  let e := m.tlb code (tlbIndex va)
  if e.tag = tlbTag va then (e.pa ||| offsetOf va, m)
  else
    match m.walkEnabled (m.apr code CMMU_SAPR) va with
    | none => (fallback, m)
    | some (pa, _) => (pa, m.tlbFill code va (pageAddr pa))

/-- The part of `translate` for kernel space below `0xE0000000`: device map,
then the kernel's own table, then the linear map. -/
def translateKernel (m : Machine) (va : U32) (code : Bool) : U32 × Machine :=
  let dp := devmapLookup m.devmap (pageAddr va)
  if dp ≠ 0 then (dp ||| offsetOf va, m)
  else if m.cfg.kdataOff ≠ 0 then
    m.cachedTable va (if m.cfg.kdataVa ≤ va then va - m.cfg.kdataOff else va - KOFF) code
  else (va - KOFF, m)

def noteScratch (m : Machine) (v : U32) : Machine :=
  if 0xE0000000 ≤ v then { m with scratchCached := pageAddr v } else m

/-- The kernel's physical-copy window.  Its base is read once from a kernel
global; the read goes through `translate`, which for that address is
`translateKernel`. -/
def scratchBase (m : Machine) : U32 × Machine :=
  if m.scratchCached = 0 ∧ m.cfg.kdataOff ≠ 0 ∧ m.cfg.translateOn then
    let (pa, m) := m.translateKernel 0xC0014058 false
    let m := m.noteScratch (m.mem.r32 pa)
    (m.scratchCached, m)
  else (m.scratchCached, m)

/-- The part of `translate` for device space: identity except in the scratch
window, which the kernel's own table maps. -/
def translateDevice (m : Machine) (va : U32) (code : Bool) : U32 × Machine :=
  let (sb, m) := m.scratchBase
  if sb = 0 ∨ va < sb ∨ sb + 0x2000 ≤ va then (va, m) else m.cachedTable va va code

/-- Which area pointer a user-space access goes through: PSR bit 31 selects the
supervisor's. -/
def aprOffset (m : Machine) : U32 :=
  if m.cpu.cr 1 &&& 0x80000000 ≠ 0 then CMMU_SAPR else CMMU_UAPR

/-- A user address that the cache does not hold: walk, then keep the page with
its write-protect bit in bit 0, or record the fault of a process. -/
def missUser (m : Machine) (apr va : U32) (code : Bool) : U32 × Machine :=
  match m.mem.walkFb m.ktabBias m.devmap apr va code with
  | none =>
    if m.cfg.procexp ∧ ¬m.ufault.pending then
      (0, { m with ufault := ⟨true, va, m.cpu.pc, code, false, 4⟩ })
    else (if m.mem.realmm then cphys m.mem.realmm va else va, m)
  | some (pa, pd) =>
    let wp : Bool := pd &&& PTE_WP ≠ 0
    (m.tlbFill code va (pageAddr pa ||| if wp then 1 else 0)).guardWrite va wp pa

def translateUser (m : Machine) (va : U32) (code : Bool) : U32 × Machine :=
  let apr := m.apr code m.aprOffset
  if apr &&& 1 = 0 then (va, m)
  else
    let e := m.tlb code (tlbIndex va)
    if e.tag = tlbTag va then
      m.guardWrite va (e.pa &&& 1 ≠ 0) (pageAddr e.pa ||| offsetOf va)
    else m.missUser apr va code

def translate (m : Machine) (va : U32) (code : Bool) : U32 × Machine :=
  if ¬m.cfg.translateOn then (va, m)
  else if m.mem.realmm ∧ 0xC0000000 ≤ va then
    -- the u-area window is per process: it follows the table, uncached
    if m.cfg.procexp ∧ m.cfg.kdataOff ≠ 0 ∧ UAREA_LO ≤ va ∧ va < UAREA_HI then
      match m.walkEnabled (m.apr code CMMU_SAPR) va with
      | none => (va, m)
      | some (pa, _) => (pa, m)
    else if 0xE0000000 ≤ va then m.translateDevice va code
    else m.translateKernel va code
  else m.translateUser va code

/-! ## What a flush leaves alone -/

@[simp] theorem tlbFlush_tlb (m : Machine) (code : Bool) (i : U32) :
    m.tlbFlush.tlb code i = ⟨0, 0⟩ := rfl

@[simp] theorem tlbFlush_mem (m : Machine) : m.tlbFlush.mem = m.mem := rfl

@[simp] theorem tlbFlush_cfg (m : Machine) : m.tlbFlush.cfg = m.cfg := rfl

@[simp] theorem tlbFlush_devmap (m : Machine) : m.tlbFlush.devmap = m.devmap := rfl

@[simp] theorem tlbFlush_ktabBias (m : Machine) : m.tlbFlush.ktabBias = m.ktabBias := rfl

@[simp] theorem tlbFlush_apr (m : Machine) (code : Bool) (off : U32) :
    m.tlbFlush.apr code off = m.apr code off := rfl

@[simp] theorem tlbFlush_walkEnabled (m : Machine) (apr va : U32) :
    m.tlbFlush.walkEnabled apr va = m.walkEnabled apr va := rfl

end Machine

theorem tlbTag_ne_zero (va : U32) : (0 : U32) ≠ Machine.tlbTag va := by
  unfold Machine.tlbTag
  intro h
  have hbit := congrArg (fun x : U32 => x.getLsbD 31) h
  simp at hbit

end Nx88
