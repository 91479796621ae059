import Nx88.Cpu.Alu
/-!
# Exception delivery

Interrupts, synchronous traps and access faults: save the PSR and the resume
point in the shadow registers, enter supervisor mode with interrupts disabled,
and vector through the VBR.
-/

namespace Nx88

namespace Machine

/-- PSR in the exception state: supervisor, interrupts disabled, shadow frozen. -/
def EXC_PSR : U32 := 0x80000003

def deliverException (m : Machine) (vector : U32) : Machine :=
  let c := m.cpu.setCr 2 (m.cpu.cr 1)
  let c := ((c.setCr 8 0).setCr 11 0).setCr 14 0
  let c := c.setCr 4 c.pc
  let c := c.setCr 5 (c.pc ||| 2)
  let c := c.setCr 6 ((c.pc + 4) ||| 2)
  let c := c.setCr 1 (c.cr 1 ||| EXC_PSR)
  { m with cpu := { c with pc := c.cr 7 + vector * 8 } }

/-- The resume point of a trap is the instruction after it. -/
def deliverTrap (m : Machine) (vector tpc : U32) : Machine :=
  let c := m.cpu.setCr 2 (m.cpu.cr 1)
  let c := c.setCr 4 tpc
  let c := c.setCr 5 ((tpc + 4) ||| 2)
  let c := c.setCr 6 ((tpc + 8) ||| 2)
  let c := c.setCr 1 (c.cr 1 ||| EXC_PSR)
  { m with cpu := { c with pc := c.cr 7 + vector * 8, hasPending := false } }

/-- The byte-enable field of the data-transaction register. -/
def byteEnable (va width : U32) : U32 :=
  if width = 1 then 0x20 >>> (va &&& 3).toNat
  else if width = 2 then (if va &&& 2 ≠ 0 then 0x0C else 0x30)
  else 0x3C

/-- The resume point of an access fault is the faulting instruction itself, so
that the return executes it again. -/
def deliverFault (m : Machine) (vector pc va : U32) (code write : Bool) (width : U32) :
    Machine :=
  let base := cmmuBase code
  let m := m.setMem ((m.mem.w32 (base + CMMU_PFAR) va).w32 (base + CMMU_PFSR) 0x00050000)
  let c := ((m.cpu.setCr 8 0).setCr 11 0).setCr 14 0
  let c :=
    if code then c
    else
      ((c.setCr 8 (1 ||| (if write then 2 else 0) ||| byteEnable va width)).setCr 9 0).setCr 10 va
  let c := c.setCr 2 (c.cr 1)
  let c := c.setCr 4 pc
  let c := c.setCr 5 (pc ||| 2)
  let c := c.setCr 6 ((pc + 4) ||| 2)
  let c := c.setCr 1 (c.cr 1 ||| EXC_PSR)
  { m with cpu := { c with pc := c.cr 7 + vector * 8, hasPending := false } }

end Machine

end Nx88
