import Nx88.Cpu.Exec
/-!
# The state before the first instruction

The initial values of `globals.c` and `console.c`, with the configuration as a
parameter, and the configuration `sys` mode runs a real process under.
-/

namespace Nx88

/-- A host whose arithmetic gives zero and whose buffers hold zeros. -/
def Host.blank : Host where
  ofSingle _ := 0
  toSingle _ := 0
  add _ _ := 0
  sub _ _ := 0
  mul _ _ := 0
  div _ _ := 0
  sqrt _ := 0
  ofInt _ := 0
  lrint _ := 0
  trunc _ := 0
  lt _ _ := false
  eq _ _ := true
  tmp _ := 0

def Cpu.blank : Cpu := ⟨fun _ => 0, fun _ => 0, 0, 0, false, 0⟩

def Mem.blank (realmm : Bool) : Mem := ⟨realmm, fun _ _ => 0⟩

def FdVals.initial : FdVals := ⟨fun n => n < 3, fun _ => false, fun _ => false, fun _ => 0⟩

def FdSet.blank : FdSet :=
  ⟨0, false, ⟨fun _ => false, fun _ => false, fun _ => false, fun _ => 0⟩⟩

def FdState.initial : FdState :=
  ⟨FdVals.initial, fun _ => FdSet.blank, -1, 0, false, false, false⟩

def UFault.none : UFault := ⟨false, 0, 0, false, false, 0⟩

def Config.initial : Config where
  sysmode := false
  translateOn := false
  procexp := false
  kdataVa := 0
  kdataOff := 0
  tickScale := 2000
  tickDiv := 0
  clockIrq := false
  clockPeriod := 100000
  softintPeriod := 0
  shaSync := true
  biowaitSync := true
  skipSynchrtc := true
  shaDoneStatus := 0x20
  shaDescClear := 0x04
  forceSigPc := 0
  forceSigVal := 0
  consoleIo := true
  hostfileSize := 0
  hostfileVsize := 0

/-- A real process in `sys` mode: translation, access faults, and the kernel's
data segment loaded `kdataOff` below its link address. -/
def Config.process (kdataOff : U32) : Config :=
  { Config.initial with
    sysmode := true
    translateOn := true
    procexp := true
    kdataVa := 0xC1000000
    kdataOff := kdataOff }

def Devices.initial : Devices where
  irqSource := 0
  shaStatus := 0
  cmramSel := 0
  cmramPages := fun _ _ => 0
  tcsMboxPa := TCS_MBOX
  clockDeadline := 0
  clockArmed := true
  clockEnabled := false
  nextClock := 0
  nextSoftint := 0
  inKcall := false
  rootDevVp := 0
  rootImg := none
  diskImg := none
  hostfileImg := none
  diskWrote := false
  fdHost := fun _ => false
  hostOff := fun _ => 0

/-- 9600 baud, DEL and ^U, echo and carriage-return mapping. -/
def Console.initial (useSock hostIsTty : Bool) (sock stdin : Wire) : Console where
  useSock := useSock
  attached := false
  eof := false
  pushback := none
  sock := sock
  line := []
  linePos := 0
  stdBuf := []
  stdPos := 0
  stdin := stdin
  sent := []
  out := []
  err := []
  ttySg := [13, 13, 0x7F, 0x15, 0x00, 0x18]
  ttyTc := [0x03, 0x1C, 0x11, 0x13, 0x04, 0xFF]
  ttyLtc := [0x1A, 0x19, 0x12, 0x0F, 0x17, 0x16]
  ttyLmode := 0
  hostIsTty := hostIsTty
  hostRaw := false
  outBytes := 0
  inBytes := 0

def Machine.initial (cfg : Config) (realmm : Bool) (con : Console) : Machine where
  cpu := Cpu.blank
  mem := Mem.blank realmm
  cfg := cfg
  tlb := fun _ _ => ⟨0, 0⟩
  devmap := []
  ktabBias := 0
  ufault := UFault.none
  xlatWrite := false
  scratchCached := 0
  trapTaken := false
  trapVector := 0
  trapPc := 0
  dev := Devices.initial
  con := con
  fd := FdState.initial
  hung := false

def Machine.fresh : Machine :=
  Machine.initial (Config.process 0xC0EF0000) true (Console.initial false false ⟨[], []⟩ ⟨[], []⟩)

end Nx88
