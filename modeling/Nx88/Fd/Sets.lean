import Nx88.Machine
/-!
# Per-process descriptor flags

The flags that say which descriptor numbers the emulator answers for.  The
working copy belongs to the current process; `fdSwitch` saves and restores it
around a change of process, and the watch set remembers the one call whose
result is still to be recorded.
-/

namespace Nx88

open Lib

namespace FdVals

/-- The test by which a set counts as never filled in. -/
def isBlank (v : FdVals) : Bool := !v.con 0 && !v.con 1 && !v.con 2 && !v.krn 0

/-- `f[n] = b` for a descriptor number below 64. -/
def setFlag (f : Fin 64 → Bool) (n : U32) (b : Bool) : Fin 64 → Bool :=
  if h : n.toNat < 64 then Function.update f ⟨n.toNat, h⟩ b else f

def setOff (f : Fin 64 → U32) (n off : U32) : Fin 64 → U32 :=
  if h : n.toNat < 64 then Function.update f ⟨n.toNat, h⟩ off else f

/-- `f[n]`, where a number of 64 or more counts as unset. -/
def flag (f : Fin 64 → Bool) (n : U32) : Bool := if h : n.toNat < 64 then f ⟨n.toNat, h⟩ else false

def off (f : Fin 64 → U32) (n : U32) : U32 := if h : n.toNat < 64 then f ⟨n.toNat, h⟩ else 0

/-- `close`: the number belongs to nobody. -/
def close (v : FdVals) (n : U32) : FdVals :=
  { v with con := setFlag v.con n false, dsk := setFlag v.dsk n false, krn := setFlag v.krn n false }

/-- `dup2`: the target takes over the kind of the source. -/
def dup2 (v : FdVals) (src dst : U32) : FdVals :=
  if src < 64 ∧ dst < 64 then
    { v with
      con := setFlag v.con dst (flag v.con src)
      dsk := setFlag v.dsk dst (flag v.dsk src)
      doff := setOff v.doff dst (off v.doff src) }
  else v

def returned (v : FdVals) (n : U32) (con disk : Bool) : FdVals :=
  { v with
    krn := setFlag v.krn n true
    con := if con then setFlag v.con n true else v.con
    dsk := if disk then setFlag v.dsk n true else v.dsk
    doff := if disk then setOff v.doff n 0 else v.doff }

end FdVals

namespace FdState

def fdslot (st : FdState) (pid : Int) : Option (Fin FDSETS) × FdState :=
  let (slot, fdsets) := SlotTable.claim st.fdsets pid
  (slot, { st with fdsets := fdsets })

def fdSave (st : FdState) (i : Fin FDSETS) : FdState :=
  { st with fdsets := SlotTable.put st.fdsets i st.cur }

def fdLoad (st : FdState) (i : Fin FDSETS) : FdState := { st with cur := (st.fdsets i).val }

def saveCurrent (st : FdState) : FdState :=
  if 0 < st.fdcur then
    match st.fdslot st.fdcur with
    | (some o, st) => st.fdSave o
    | (none, st) => st
  else st

/-- Load the parent's set, when there is one and it is filled in. -/
def inherit (st : FdState) (ppid : Int) : FdState :=
  if 0 < ppid then
    match st.fdslot ppid with
    | (some p, st) => if (st.fdsets p).val.isBlank then st else st.fdLoad p
    | (none, st) => st
  else st

def fdSwitch (st : FdState) (procexp : Bool) (pid ppid : Int) : FdState :=
  if ¬procexp ∨ pid ≤ 0 ∨ pid = st.fdcur then st
  else
    match st.saveCurrent.fdslot pid with
    -- table full: keep the globals
    | (none, st) => { st with fdcur := pid }
    | (some n, st) =>
      -- first sight: inherit from the parent, or from whatever is live now
      let st := if (st.fdsets n).val.isBlank then (st.inherit ppid).fdSave n else st
      { st.fdLoad n with fdcur := pid }

/-! ## The fd-return hook of `run_sys` -/

/-- At the top of every iteration: when user code resumes behind the watched
trap, `r2` and, for `pipe`, `r3` are descriptors the kernel has just returned. -/
def fdReturn (st : FdState) (pc : U32) (user : Bool) (r2 r3 : U32) : FdState :=
  if st.watchPc ≠ 0 ∧ pc = st.watchPc + 8 ∧ user then
    let cur := if r2 < 64 then st.cur.returned r2 st.watchCon st.watchDisk else st.cur
    let cur := if st.watchPair ∧ r3 < 64 ∧ r2 < 64 then cur.returned r3 false false else cur
    { st with cur := cur, watchPc := 0, watchPair := false, watchCon := false, watchDisk := false }
  else st

/-- Whether system call `r9` returns a descriptor: `open`, `creat`, `dup`,
`dup2` and `pipe`. -/
def returnsFd (r9 : U32) : Bool := r9 = 5 ∨ r9 = 8 ∨ r9 = 41 ∨ r9 = 90 ∨ r9 = 42

/-- Watch for the return of the call trapping at `tpc`.  `sd0` says whether the
path argument names the raw disk. -/
def armWatch (st : FdState) (r9 r2 tpc : U32) (sd0 : Bool) : FdState :=
  if returnsFd r9 then
    { st with
      watchPc := tpc
      watchPair := r9 = 42
      watchCon := r9 = 41 ∧ FdVals.flag st.cur.con r2
      watchDisk := ((r9 = 5 ∨ r9 = 8) ∧ sd0) ∨ (r9 = 41 ∧ FdVals.flag st.cur.dsk r2) }
  else st

/-- What a system call that goes on to the kernel does to the descriptor flags
at its trap. -/
def fdTrap (st : FdState) (r9 r2 r3 tpc : U32) (sd0 : Bool) : FdState :=
  let st := st.armWatch r9 r2 tpc sd0
  let st := if r9 = 6 ∧ r2 < 64 then { st with cur := st.cur.close r2 } else st
  if r9 = 90 then { st with cur := st.cur.dup2 r2 r3 } else st

end FdState

end Nx88
