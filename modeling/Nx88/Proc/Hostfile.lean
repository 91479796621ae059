import Nx88.Cpu.Spec
import Nx88.Disk.Transfer
import Nx88.Lib.Text
import Nx88.Proc.UserCopy
/-!
# The host file

`hostfile_syscall` serves `open`, `read`, `lseek` and `close` of `/hosttar` from
a file of the host, which reads as if zeros followed it up to a larger size.
-/

namespace Nx88

open Lib.Text

/-! ## The padded file -/

/-- `hostfile_vsize` as `main` computes it. -/
def hostVsize (size : U32) : U32 := (size + 10239) / 10240 * 10240 + (4 <<< 20)

def paddedSize (size : Nat) : Nat := (size + 10239) / 10240 * 10240 + 4 * 2 ^ 20

theorem toNat_hostVsize {size : Nat} (h : size ≤ 2 ^ 31) :
    (hostVsize (BitVec.ofNat 32 size)).toNat = paddedSize size := by
  unfold hostVsize paddedSize
  rw [BitVec.toNat_add, BitVec.toNat_mul, BitVec.toNat_udiv, BitVec.toNat_add, BitVec.toNat_ofNat]
  change (((size % 2 ^ 32 + 10239) % 2 ^ 32 / 10240) * 10240 % 2 ^ 32 + 4194304) % 2 ^ 32 = _
  omega

def Image.padded (f : Image) (off k : Nat) : List U8 := (List.range k).map fun i => f.byteAt (off + i)

@[simp] theorem Image.length_padded (f : Image) (off k : Nat) : (f.padded off k).length = k := by
  simp [Image.padded]

theorem Image.padded_append (f : Image) (off j k : Nat) :
    f.padded off j ++ f.padded (off + j) k = f.padded off (j + k) := by
  unfold Image.padded
  rw [List.range_add, List.map_append, List.map_map]
  congr 1
  apply List.map_congr_left
  intro i _
  rw [Function.comp_apply, Nat.add_assoc]

theorem Image.padded_prefix (f : Image) (off : Nat) {j k : Nat} (h : j ≤ k) :
    f.padded off j <+: f.padded off k := by
  obtain ⟨d, rfl⟩ := Nat.exists_eq_add_of_le h
  exact ⟨f.padded (off + j) d, f.padded_append off j d⟩

namespace Machine

def openHostfile (m : Machine) (f : Image) : Machine :=
  let size := BitVec.ofNat 32 f.size
  { m with
    cfg := { m.cfg with hostfileSize := size, hostfileVsize := hostVsize size }
    dev := { m.dev with hostfileImg := some f } }

end Machine

/-! ## `hostfile_syscall` -/

/-- A call that has been served; a read with the machine before it, the bytes it
stored in user space in order, and the machine after it. -/
inductive HostEvent where
  | opened (fd : Fin 64)
  | read (fd : Fin 64) (before : Machine) (stored : List U8) (after : Machine)
  | sought (fd : Fin 64)
  | closed (fd : Fin 64)

/-- What becomes of a call: left to the kernel, to run again after a fault, or served. -/
inductive HostCall where
  | declined (m : Machine)
  | retry (m : Machine)
  | done (ev : HostEvent) (m : Machine)

/-- The request, cut at the end of the padded file. -/
def hostWant (vsize off n : U32) : U32 := if vsize < off + n then vsize - off else n

/-- The zero-filled buffer, with what `fread` puts into it. -/
def hostTmp (f : Image) (size off want : U32) : Nat → U8 :=
  if off < size then
    let rn := if off + want ≤ size then want else size - off
    let got := f.read off.toNat rn.toNat
    fun i => got.getD i 0
  else fun _ => 0

namespace Machine

/-- `a0 < 64 && fd_host[a0]`. -/
def hostFd (m : Machine) (a0 : U32) : Option (Fin 64) :=
  if h : a0.toNat < 64 then
    if m.dev.fdHost ⟨a0.toNat, h⟩ then some ⟨a0.toNat, h⟩ else none
  else none

def setFdHost (m : Machine) (fd : Fin 64) (host : Bool) : Machine :=
  { m with dev := { m.dev with fdHost := Function.update m.dev.fdHost fd host } }

def setHostOff (m : Machine) (fd : Fin 64) (off : U32) : Machine :=
  { m with dev := { m.dev with hostOff := Function.update m.dev.hostOff fd off } }

def served (m : Machine) (ret tpc : U32) : Machine := (m.wr 2 ret).setPc (tpc + 8)

def hostOpen (m : Machine) (tpc : U32) : HostCall :=
  let (p, m) := m.ureadStr (m.rd 2) 128
  if p ≠ ascii "/hosttar" then .declined m
  else
    match (List.finRange 64).find? (fun i => 40 ≤ i.val ∧ ¬m.dev.fdHost i) with
    | none => .declined m
    | some fd =>
      .done (.opened fd)
        (((m.setFdHost fd true).setHostOff fd 0).served (BitVec.ofNat 32 fd.val) tpc)

def hostRead (turns : Nat) (f : Image) (m : Machine) (tpc : U32) : Option HostCall :=
  match m.hostFd (m.rd 2) with
  | none => some (.declined m)
  | some fd =>
    let off := m.dev.hostOff fd
    if m.cfg.hostfileVsize ≤ off then
      let m' := m.served 0 tpc
      some (.done (.read fd m [] m') m')
    else
      let want := hostWant m.cfg.hostfileVsize off (m.rd 4)
      match m.ubufFault turns (m.rd 3) want true tpc with
      | none => none
      | some (true, k) => some (.retry k)
      | some (false, k) =>
        let tmp := hostTmp f m.cfg.hostfileSize off want
        let (got, k) := k.uwriteMem (m.rd 3) tmp want.toNat
        let m' := (k.setHostOff fd (k.dev.hostOff fd + want)).served want tpc
        some (.done (.read fd m ((List.range got).map tmp) m') m')

def hostLseek (m : Machine) (tpc : U32) : HostCall :=
  match m.hostFd (m.rd 2) with
  | none => .declined m
  | some fd =>
    let off := m.dev.hostOff fd
    let off :=
      if m.rd 4 = 0 then m.rd 3
      else if m.rd 4 = 1 then off + m.rd 3
      else if m.rd 4 = 2 then m.cfg.hostfileVsize + m.rd 3
      else off
    .done (.sought fd) ((m.setHostOff fd off).served off tpc)

def hostClose (m : Machine) (tpc : U32) : HostCall :=
  match m.hostFd (m.rd 2) with
  | none => .declined m
  | some fd => .done (.closed fd) (((m.setFdHost fd false).setHostOff fd 0).served 0 tpc)

/-- `hostfile_syscall`, if the loop of `ubuf_fault` ends within `turns` turns. -/
def hostfileSyscall (turns : Nat) (m : Machine) (sysno tpc : U32) : Option HostCall :=
  match m.dev.hostfileImg with
  | none => some (.declined m)
  | some f =>
    if sysno = 5 then some (m.hostOpen tpc)
    else if sysno = 3 then m.hostRead turns f tpc
    else if sysno = 19 then some (m.hostLseek tpc)
    else if sysno = 6 then some (m.hostClose tpc)
    else some (.declined m)

/-! ## Runs -/

/-- The open archive, its sizes and the descriptors are as they were. -/
structure SameHost (m k : Machine) : Prop where
  img : k.dev.hostfileImg = m.dev.hostfileImg
  fdHost : k.dev.fdHost = m.dev.fdHost
  hostOff : k.dev.hostOff = m.dev.hostOff
  size : k.cfg.hostfileSize = m.cfg.hostfileSize
  vsize : k.cfg.hostfileVsize = m.cfg.hostfileVsize

/-- Runs from `m₀`: calls in any order with any arguments, and between them
whatever the guest and the emulator do that is not one of these calls. -/
inductive HostRun (m₀ : Machine) : List HostEvent → Machine → Prop where
  | start : HostRun m₀ [] m₀
  | between {es m m'} (h : HostRun m₀ es m) (hsame : SameHost m m') : HostRun m₀ es m'
  | declined {es m m' turns sysno tpc} (h : HostRun m₀ es m)
      (hcall : m.hostfileSyscall turns sysno tpc = some (.declined m')) : HostRun m₀ es m'
  | retry {es m m' turns sysno tpc} (h : HostRun m₀ es m)
      (hcall : m.hostfileSyscall turns sysno tpc = some (.retry m')) : HostRun m₀ es m'
  | done {es m ev m' turns sysno tpc} (h : HostRun m₀ es m)
      (hcall : m.hostfileSyscall turns sysno tpc = some (.done ev m')) : HostRun m₀ (es ++ [ev]) m'

def checked (m : Machine) (va len : U32) : Machine :=
  if len = 0 then m else (m.swept va (pagesLooked va len)).setPending m.ufault.pending

/-- Memory has the bytes in the buffer at `va`: each where its address translates when its
turn comes, unless a later one goes to the same place.  The rest is as it was. -/
structure Buffered (m : Machine) (va : U32) (bytes : List U8) (mem : Mem) : Prop where
  there : ∀ i < bytes.length, m.ByteThere va (bytes.getD · 0) i
  stored : ∀ i < bytes.length,
    (∀ j < bytes.length, i < j → cphys m.mem.realmm (m.storePlace va (bytes.getD · 0) i) ≠
      cphys m.mem.realmm (m.storePlace va (bytes.getD · 0) j)) →
    mem.r8 (m.storePlace va (bytes.getD · 0) i) = bytes.getD i 0
  rest : ∀ b, (∀ i < bytes.length, cphys m.mem.realmm b ≠
    cphys m.mem.realmm (m.storePlace va (bytes.getD · 0) i)) → mem.r8 b = m.mem.r8 b

end Machine

namespace HostEvent

def fd : HostEvent → Fin 64
  | opened fd => fd
  | read fd _ _ _ => fd
  | sought fd => fd
  | closed fd => fd

/-- A read returns what the padded file has from the offset on, as much as was
asked for; these bytes are in memory, in the buffer, and the offset follows. -/
def Exact (f : Image) : HostEvent → Prop
  | read fd before stored after =>
    let off := (before.dev.hostOff fd).toNat
    let k := min (before.rd 4).toNat (paddedSize f.size - off)
    (after.rd 2).toNat = k ∧ stored = f.padded off k ∧
      (before.checked (before.rd 3) (BitVec.ofNat 32 k)).Buffered (before.rd 3) stored after.mem ∧
        (after.dev.hostOff fd).toNat = off + k
  | _ => True

/-- The offset and the length of a read stay below `2 ^ 32`, and its buffer stays
resident while it is filled. -/
def Fits (f : Image) : HostEvent → Prop
  | read fd before _ _ =>
    let off := (before.dev.hostOff fd).toNat
    let k := min (before.rd 4).toNat (paddedSize f.size - off)
    paddedSize f.size ≤ off ∨
      off + (before.rd 4).toNat < 2 ^ 32 ∧
        ∀ i < k, (before.checked (before.rd 3) (BitVec.ofNat 32 k)).ByteThere (before.rd 3)
          (fun i => f.byteAt (off + i)) i
  | _ => True

/-- What has been read from `fd` since it was opened, as long as only reads
followed, after one more call. -/
def streamStep (fd : Fin 64) (s : Option (List U8)) : HostEvent → Option (List U8)
  | opened d => if d = fd then some [] else s
  | read d _ stored _ => if d = fd then s.map (· ++ stored) else s
  | sought d => if d = fd then none else s
  | closed d => if d = fd then none else s

def streamed (fd : Fin 64) (es : List HostEvent) : Option (List U8) :=
  es.foldl (streamStep fd) none

end HostEvent

/-! ## The sums -/

theorem toNat_hostWant {vsize off n : U32} (hoff : off < vsize)
    (hsum : off.toNat + n.toNat < 2 ^ 32) :
    (hostWant vsize off n).toNat = min n.toNat (vsize.toNat - off.toNat) := by
  have hv := vsize.isLt
  rw [BitVec.lt_def] at hoff
  unfold hostWant
  split
  · rename_i hpast
    rw [BitVec.lt_def, BitVec.toNat_add] at hpast
    rw [BitVec.toNat_sub]
    omega
  · rename_i hwithin
    rw [BitVec.lt_def, BitVec.toNat_add] at hwithin
    omega

/-- From `2 ^ 32` on the sum has wrapped to below the offset, and nothing is cut. -/
theorem hostWant_of_wrap {vsize off n : U32} (hoff : off < vsize)
    (hsum : 2 ^ 32 ≤ off.toNat + n.toNat) : hostWant vsize off n = n := by
  have hn := n.isLt
  have ho := off.isLt
  rw [BitVec.lt_def] at hoff
  apply if_neg
  rw [BitVec.lt_def, BitVec.toNat_add]
  omega

theorem hostTmp_eq {f : Image} {off want : U32} (hsize : f.size ≤ 2 ^ 31)
    (hsum : off.toNat + want.toNat < 2 ^ 32) {i : Nat} (hi : i < want.toNat) :
    hostTmp f (BitVec.ofNat 32 f.size) off want i = f.byteAt (off.toNat + i) := by
  have hnat : (BitVec.ofNat 32 f.size).toNat = f.size := by
    rw [BitVec.toNat_ofNat]
    omega
  unfold hostTmp
  split
  · rename_i hin
    rw [BitVec.lt_def, hnat] at hin
    dsimp only
    split
    · exact Image.getD_read f hi
    · rename_i hcut
      rw [BitVec.le_def, BitVec.toNat_add, hnat] at hcut
      have hrest : (BitVec.ofNat 32 f.size - off).toNat = f.size - off.toNat := by
        rw [BitVec.toNat_sub, hnat]
        omega
      rw [hrest]
      by_cases hreal : i < f.size - off.toNat
      · exact Image.getD_read f hreal
      · rw [List.getD_eq_default _ _ (by rw [Image.length_read]; omega), Image.byteAt,
          if_neg (by omega)]
  · rename_i hpast
    rw [BitVec.lt_def, hnat] at hpast
    rw [Image.byteAt, if_neg (by omega)]

namespace Machine

/-! ## One call -/

/-- The archive `f` is open and the sizes are its own. -/
structure HostFile (m : Machine) (f : Image) : Prop where
  img : m.dev.hostfileImg = some f
  size : m.cfg.hostfileSize = BitVec.ofNat 32 f.size
  vsize : m.cfg.hostfileVsize = hostVsize (BitVec.ofNat 32 f.size)

theorem openHostfile_hostFile (m : Machine) (f : Image) : (m.openHostfile f).HostFile f :=
  ⟨rfl, rfl, rfl⟩

theorem SameHost.hostFile {m k : Machine} {f : Image} (h : SameHost m k) (hf : m.HostFile f) :
    k.HostFile f :=
  ⟨h.img.trans hf.img, h.size.trans hf.size, h.vsize.trans hf.vsize⟩

theorem Copied.sameHost {m k : Machine} (h : Copied m k) : SameHost m k := by
  refine ⟨?_, ?_, ?_, ?_, ?_⟩
  · rw [h.dev]
  · rw [h.dev]
  · rw [h.dev]
  · rw [h.cfg]
  · rw [h.cfg]

theorem rd_served (m : Machine) (ret tpc : U32) : (m.served ret tpc).rd 2 = ret :=
  rd_wr m (by decide) (by decide) ret

theorem buffered_nil {m : Machine} (va : U32) {mem : Mem} (h : mem = m.mem) :
    m.Buffered va [] mem :=
  ⟨fun i hi => absurd hi (Nat.not_lt_zero i), fun i hi => absurd hi (Nat.not_lt_zero i),
    fun _ _ => congrFun (congrArg Mem.r8 h) _⟩

theorem uwriteMem_buffered (m : Machine) (va : U32) (src : Nat → U8) (n : Nat) :
    m.Buffered va ((List.range (m.uwriteMem va src n).1).map src) (m.uwriteMem va src n).2.mem := by
  have hwritten := m.uwriteMem_written va src n
  generalize m.uwriteMem va src n = r at hwritten ⊢
  obtain ⟨got, k⟩ := r
  have hlen : ((List.range got).map src).length = got := by
    rw [List.length_map, List.length_range]
  have hbytes : ∀ i < got, ((List.range got).map src).getD i 0 = src i := by
    intro i hi
    rw [List.getD_eq_getElem _ _ (by rw [hlen]; exact hi), List.getElem_map, List.getElem_range]
  have hplace : ∀ i < got, m.storePlace va (((List.range got).map src).getD · 0) i =
      m.storePlace va src i := by
    intro i hi
    rw [storePlace, storePlace, stores_congr fun j hj => hbytes j (hj.trans hi)]
  refine ⟨?_, ?_, ?_⟩
  · intro i hi
    rw [hlen] at hi
    exact (byteThere_congr fun j hj => hbytes j (hj.trans hi)).2 (hwritten.count.1.2 i hi)
  · intro i hi hlast
    rw [hlen] at hi hlast
    rw [hplace i hi, hbytes i hi]
    refine hwritten.stored i hi fun j hj hij => ?_
    have hne := hlast j hj hij
    rwa [hplace i hi, hplace j hj] at hne
  · intro b hout
    rw [hlen] at hout
    refine hwritten.rest b fun i hi => ?_
    have hne := hout i hi
    rwa [hplace i hi] at hne

/-- What a served read has done. -/
structure HostReadDone (f : Image) (m : Machine) (fd : Fin 64) (stored : List U8) (m' : Machine) :
    Prop where
  cfg : m'.cfg = m.cfg
  img : m'.dev.hostfileImg = m.dev.hostfileImg
  others : ∀ d, d ≠ fd → m'.dev.hostOff d = m.dev.hostOff d
  eof : m.cfg.hostfileVsize ≤ m.dev.hostOff fd →
    stored = [] ∧ m'.rd 2 = 0 ∧ m'.mem = m.mem ∧ m'.dev.hostOff fd = m.dev.hostOff fd
  data : ¬m.cfg.hostfileVsize ≤ m.dev.hostOff fd →
    let off := m.dev.hostOff fd
    let want := hostWant m.cfg.hostfileVsize off (m.rd 4)
    let tmp := hostTmp f m.cfg.hostfileSize off want
    stored = (List.range ((m.checked (m.rd 3) want).uwriteMem (m.rd 3) tmp want.toNat).1).map tmp ∧
      m'.rd 2 = want ∧ (m.checked (m.rd 3) want).Buffered (m.rd 3) stored m'.mem ∧
        m'.dev.hostOff fd = off + want

theorem ubufFault_checked {m k : Machine} {turns : Nat} {va len tpc : U32} {forwrite : Bool}
    (h : ubufFault turns m va len forwrite tpc = some (false, k)) : k = m.checked va len := by
  unfold checked
  by_cases hlen : len = 0
  · subst hlen
    obtain rfl : m = k := congrArg Prod.snd (Option.some.inj h)
    rfl
  · rw [if_neg hlen]
    rcases ubufFault_returns m va forwrite tpc hlen with ⟨n, -, hrun⟩ | ⟨n, i, -, -, -, hrun⟩
    · exact (Prod.mk.inj (ubufFault_unique h hrun)).2
    · exact nomatch (Prod.mk.inj (ubufFault_unique h hrun)).1

theorem hostRead_done {turns : Nat} {f : Image} {m m' : Machine} {tpc : U32} {ev : HostEvent}
    (h : m.hostRead turns f tpc = some (.done ev m')) :
    ∃ fd stored, ev = .read fd m stored m' ∧ m.HostReadDone f fd stored m' := by
  unfold hostRead at h
  split at h
  · exact nomatch h
  rename_i fd hfd
  dsimp only at h
  split at h
  · rename_i heof
    simp only [Option.some.injEq, HostCall.done.injEq] at h
    obtain ⟨rfl, rfl⟩ := h
    exact ⟨fd, [], rfl, rfl, rfl, fun d _ => rfl, fun _ => ⟨rfl, rd_served m 0 tpc, rfl, rfl⟩,
      fun hdata => absurd heof hdata⟩
  · rename_i hdata
    split at h
    · exact nomatch h
    · exact nomatch h
    · rename_i k hfault
      simp only [Option.some.injEq, HostCall.done.injEq] at h
      obtain ⟨rfl, rfl⟩ := h
      have hcopied := (ubufFault_copied hfault).trans
        (k.uwriteMem_copied (m.rd 3)
          (hostTmp f m.cfg.hostfileSize (m.dev.hostOff fd)
            (hostWant m.cfg.hostfileVsize (m.dev.hostOff fd) (m.rd 4)))
          (hostWant m.cfg.hostfileVsize (m.dev.hostOff fd) (m.rd 4)).toNat)
      refine ⟨fd, _, rfl, hcopied.cfg, ?_, fun d hd => ?_, fun heof => absurd heof hdata,
        fun _ => ⟨?_, rd_served _ _ tpc, ?_, ?_⟩⟩
      · have himg := congrArg Devices.hostfileImg hcopied.dev
        exact himg
      · refine (Function.update_of_ne hd _ _).trans ?_
        rw [hcopied.dev]
      · rw [ubufFault_checked hfault]
      · rw [← ubufFault_checked hfault]
        exact uwriteMem_buffered k (m.rd 3) _ _
      · refine (Function.update_self ..).trans ?_
        rw [hcopied.dev]

theorem stored_eq_iff {k : Machine} {va : U32} {tmp src : Nat → U8} {n : Nat}
    (hfill : ∀ i < n, tmp i = src i) :
    (List.range (k.uwriteMem va tmp n).1).map tmp = (List.range n).map src ↔
      ∀ i < n, k.ByteThere va src i := by
  obtain ⟨-, hcount⟩ := k.uwriteMem_count va tmp n
  have hthere : (∀ i < n, k.ByteThere va tmp i) ↔ ∀ i < n, k.ByteThere va src i := by
    refine forall_congr' fun i => imp_congr_right fun hi => ?_
    exact byteThere_congr fun j hj => hfill j (hj.trans hi)
  rw [← hthere, ← hcount]
  constructor
  · intro h
    have hlen := congrArg List.length h
    rwa [List.length_map, List.length_map, List.length_range, List.length_range] at hlen
  · intro h
    rw [h]
    apply List.map_congr_left
    intro i hi
    exact hfill i (List.mem_range.1 hi)

theorem hostRead_exact_iff {f : Image} {m m' : Machine} {fd : Fin 64} {stored : List U8}
    (hsize : f.size ≤ 2 ^ 31) (hf : m.HostFile f) (h : m.HostReadDone f fd stored m') :
    (HostEvent.read fd m stored m').Exact f ↔ (HostEvent.read fd m stored m').Fits f := by
  have hv : m.cfg.hostfileVsize.toNat = paddedSize f.size := by
    rw [hf.vsize, toNat_hostVsize hsize]
  have hn := (m.rd 4).isLt
  have hvlt := m.cfg.hostfileVsize.isLt
  rw [hv] at hvlt
  unfold HostEvent.Exact HostEvent.Fits
  dsimp only
  by_cases heof : m.cfg.hostfileVsize ≤ m.dev.hostOff fd
  · obtain ⟨rfl, hret, hmem, hoff⟩ := h.eof heof
    rw [BitVec.le_def, hv] at heof
    have hk : min (m.rd 4).toNat (paddedSize f.size - (m.dev.hostOff fd).toNat) = 0 := by omega
    rw [hk, hret, hoff]
    exact iff_of_true ⟨rfl, rfl, buffered_nil _ hmem, rfl⟩ (.inl heof)
  · obtain ⟨hstored, hret, hbuffered, hoff⟩ := h.data heof
    have hlt : m.dev.hostOff fd < m.cfg.hostfileVsize := by
      rw [BitVec.lt_def]
      rw [BitVec.le_def] at heof
      omega
    have hlt' : (m.dev.hostOff fd).toNat < paddedSize f.size := by
      rw [← hv]
      exact hlt
    rw [hret, hoff]
    by_cases hsum : (m.dev.hostOff fd).toNat + (m.rd 4).toNat < 2 ^ 32
    · -- no sum wraps: the count and the offset are right, and the data as far as the store gets
      have hwant := toNat_hostWant hlt hsum
      rw [hv] at hwant
      rw [hstored] at hbuffered
      rw [hstored, ← hwant, BitVec.ofNat_toNat, BitVec.setWidth_eq]
      generalize hostWant m.cfg.hostfileVsize (m.dev.hostOff fd) (m.rd 4) = want at hwant hbuffered ⊢
      have hnext : (m.dev.hostOff fd + want).toNat = (m.dev.hostOff fd).toNat + want.toNat := by
        rw [BitVec.toNat_add]
        omega
      have hfill : ∀ i < want.toNat, hostTmp f m.cfg.hostfileSize (m.dev.hostOff fd) want i =
          f.byteAt ((m.dev.hostOff fd).toNat + i) := by
        intro i hi
        rw [hf.size]
        exact hostTmp_eq hsize (by omega) hi
      rw [Image.padded, stored_eq_iff hfill]
      constructor
      · exact fun hexact => .inr ⟨hsum, hexact.2.1⟩
      · rintro (hpast | ⟨-, hthere⟩)
        · omega
        · exact ⟨rfl, hthere, hbuffered, hnext⟩
    · -- the wrapped sum is below the size, and the whole request is reported
      have hwant : hostWant m.cfg.hostfileVsize (m.dev.hostOff fd) (m.rd 4) = m.rd 4 :=
        hostWant_of_wrap hlt (by omega)
      rw [hwant]
      refine iff_of_false (fun hexact => ?_) fun hfits => ?_
      · have hcount := hexact.1
        omega
      · rcases hfits with hpast | ⟨hbelow, -⟩
        · omega
        · exact hsum hbelow

/-! ## Any call -/

theorem SameHost.refl (m : Machine) : SameHost m m := ⟨rfl, rfl, rfl, rfl, rfl⟩

/-- A call that is not served leaves the open archive and the descriptors alone. -/
def KeptBy (m : Machine) (call : HostCall) : Prop :=
  ∀ k, call = .declined k ∨ call = .retry k → SameHost m k

theorem keptBy_declined {m k : Machine} (h : SameHost m k) : m.KeptBy (.declined k) := by
  rintro k' (heq | heq)
  · cases heq
    exact h
  · exact nomatch heq

theorem keptBy_retry {m k : Machine} (h : SameHost m k) : m.KeptBy (.retry k) := by
  rintro k' (heq | heq)
  · exact nomatch heq
  · cases heq
    exact h

theorem keptBy_done (m : Machine) (ev : HostEvent) (k : Machine) : m.KeptBy (.done ev k) := by
  rintro k' (heq | heq)
  · exact nomatch heq
  · exact nomatch heq

theorem hostOpen_kept (m : Machine) (tpc : U32) : m.KeptBy (m.hostOpen tpc) := by
  have hread := (m.ureadStr_copied (m.rd 2) 128).sameHost
  unfold hostOpen
  dsimp only
  split
  · exact keptBy_declined hread
  · split
    · exact keptBy_declined hread
    · exact keptBy_done m _ _

theorem hostRead_kept {turns : Nat} {f : Image} {m : Machine} {tpc : U32} {call : HostCall}
    (h : m.hostRead turns f tpc = some call) : m.KeptBy call := by
  unfold hostRead at h
  split at h
  · cases h
    exact keptBy_declined (SameHost.refl m)
  · dsimp only at h
    split at h
    · cases h
      exact keptBy_done m _ _
    · split at h
      · exact nomatch h
      · rename_i k hfault
        cases h
        exact keptBy_retry (ubufFault_copied hfault).sameHost
      · cases h
        exact keptBy_done m _ _

theorem hostLseek_kept (m : Machine) (tpc : U32) : m.KeptBy (m.hostLseek tpc) := by
  unfold hostLseek
  split
  · exact keptBy_declined (SameHost.refl m)
  · exact keptBy_done m _ _

theorem hostClose_kept (m : Machine) (tpc : U32) : m.KeptBy (m.hostClose tpc) := by
  unfold hostClose
  split
  · exact keptBy_declined (SameHost.refl m)
  · exact keptBy_done m _ _

theorem hostfileSyscall_kept {turns : Nat} {m : Machine} {sysno tpc : U32} {call : HostCall}
    (h : m.hostfileSyscall turns sysno tpc = some call) : m.KeptBy call := by
  unfold hostfileSyscall at h
  split at h
  · cases h
    exact keptBy_declined (SameHost.refl m)
  · split at h
    · cases h
      exact m.hostOpen_kept tpc
    split at h
    · exact hostRead_kept h
    split at h
    · cases h
      exact m.hostLseek_kept tpc
    split at h
    · cases h
      exact m.hostClose_kept tpc
    · cases h
      exact keptBy_declined (SameHost.refl m)

/-- What a served call leaves of the archive and of the descriptors. -/
structure HostServed (f : Image) (m : Machine) (ev : HostEvent) (m' : Machine) : Prop where
  file : m'.HostFile f
  others : ∀ d, d ≠ ev.fd → m'.dev.hostOff d = m.dev.hostOff d
  opened : ∀ fd, ev = .opened fd → m'.dev.hostOff fd = 0
  read : ∀ fd before stored after, ev = .read fd before stored after →
    before = m ∧ after = m' ∧ m.HostReadDone f fd stored m'

section HostServed

variable {f : Image} {m m' : Machine} {tpc : U32} {ev : HostEvent} (hf : m.HostFile f)
include hf

theorem hostOpen_served (h : m.hostOpen tpc = .done ev m') : HostServed f m ev m' := by
  have hread := m.ureadStr_copied (m.rd 2) 128
  have hfile := hread.sameHost.hostFile hf
  unfold hostOpen at h
  dsimp only at h
  split at h
  · exact nomatch h
  split at h
  · exact nomatch h
  rename_i fd _
  cases h
  refine ⟨⟨hfile.img, hfile.size, hfile.vsize⟩, fun d hd => ?_, fun fd' heq => ?_,
    fun _ _ _ _ heq => (nomatch heq)⟩
  · refine (Function.update_of_ne hd _ _).trans ?_
    exact congrFun (congrArg Devices.hostOff hread.dev) d
  · cases heq
    exact Function.update_self ..

theorem hostRead_served {turns : Nat} (h : m.hostRead turns f tpc = some (.done ev m')) :
    HostServed f m ev m' := by
  obtain ⟨fd, stored, rfl, hdone⟩ := hostRead_done h
  refine ⟨⟨hdone.img.trans hf.img, ?_, ?_⟩, hdone.others, fun _ heq => (nomatch heq), ?_⟩
  · rw [hdone.cfg]
    exact hf.size
  · rw [hdone.cfg]
    exact hf.vsize
  · rintro fd' before stored' after heq
    cases heq
    exact ⟨rfl, rfl, hdone⟩

theorem hostLseek_served (h : m.hostLseek tpc = .done ev m') : HostServed f m ev m' := by
  unfold hostLseek at h
  split at h
  · exact nomatch h
  · cases h
    exact ⟨⟨hf.img, hf.size, hf.vsize⟩, fun d hd => Function.update_of_ne hd _ _,
      fun _ heq => (nomatch heq), fun _ _ _ _ heq => (nomatch heq)⟩

theorem hostClose_served (h : m.hostClose tpc = .done ev m') : HostServed f m ev m' := by
  unfold hostClose at h
  split at h
  · exact nomatch h
  · cases h
    exact ⟨⟨hf.img, hf.size, hf.vsize⟩, fun d hd => Function.update_of_ne hd _ _,
      fun _ heq => (nomatch heq), fun _ _ _ _ heq => (nomatch heq)⟩

theorem hostfileSyscall_served {turns : Nat} {sysno : U32}
    (h : m.hostfileSyscall turns sysno tpc = some (.done ev m')) : HostServed f m ev m' := by
  unfold hostfileSyscall at h
  rw [hf.img] at h
  dsimp only at h
  split at h
  · exact hostOpen_served hf (Option.some.inj h)
  split at h
  · exact hostRead_served hf h
  split at h
  · exact hostLseek_served hf (Option.some.inj h)
  split at h
  · exact hostClose_served hf (Option.some.inj h)
  · exact nomatch h

end HostServed

/-! ## Runs of calls -/

/-- Along a run the archive stays what it is, and a served read is exact or not
by what it fits. -/
theorem HostRun.reads {f : Image} (hsize : f.size ≤ 2 ^ 31) {m₀ m : Machine} {es : List HostEvent}
    (hf : m₀.HostFile f) (h : HostRun m₀ es m) :
    m.HostFile f ∧ ∀ e ∈ es, e.Exact f ↔ e.Fits f := by
  induction h with
  | start => exact ⟨hf, fun e he => absurd he List.not_mem_nil⟩
  | between _ hsame ih => exact ⟨hsame.hostFile ih.1, ih.2⟩
  | declined _ hcall ih =>
    exact ⟨(hostfileSyscall_kept hcall _ (.inl rfl)).hostFile ih.1, ih.2⟩
  | retry _ hcall ih =>
    exact ⟨(hostfileSyscall_kept hcall _ (.inr rfl)).hostFile ih.1, ih.2⟩
  | @done es m ev m' turns sysno tpc _ hcall ih =>
    have hserved := hostfileSyscall_served ih.1 hcall
    refine ⟨hserved.file, fun e he => ?_⟩
    rcases List.mem_append.1 he with hold | hnew
    · exact ih.2 e hold
    · obtain rfl : e = ev := List.mem_singleton.1 hnew
      cases e with
      | read fd before stored after =>
        obtain ⟨rfl, rfl, hdone⟩ := hserved.read fd before stored after rfl
        exact hostRead_exact_iff hsize ih.1 hdone
      | opened fd => exact Iff.rfl
      | sought fd => exact Iff.rfl
      | closed fd => exact Iff.rfl

/-- What has come from a descriptor since it was opened ends at its offset. -/
def StreamedTo (f : Image) (es : List HostEvent) (m : Machine) : Prop :=
  ∀ fd bs, HostEvent.streamed fd es = some bs →
    (m.dev.hostOff fd).toNat = bs.length ∧ bs = f.padded 0 bs.length ∧
      bs.length ≤ paddedSize f.size

theorem streamed_concat (fd : Fin 64) (es : List HostEvent) (ev : HostEvent) :
    HostEvent.streamed fd (es ++ [ev]) =
      HostEvent.streamStep fd (HostEvent.streamed fd es) ev := List.foldl_append

theorem StreamedTo.kept {f : Image} {es : List HostEvent} {m k : Machine}
    (h : StreamedTo f es m) (hsame : SameHost m k) : StreamedTo f es k := by
  intro fd bs hbs
  rw [hsame.hostOff]
  exact h fd bs hbs

theorem streamStep_other {fd : Fin 64} {ev : HostEvent} (h : fd ≠ ev.fd)
    (s : Option (List U8)) : HostEvent.streamStep fd s ev = s := by
  cases ev with
  | opened d => exact if_neg (Ne.symm h)
  | read d before stored after => exact if_neg (Ne.symm h)
  | sought d => exact if_neg (Ne.symm h)
  | closed d => exact if_neg (Ne.symm h)

theorem StreamedTo.served {f : Image} {es : List HostEvent} {m m' : Machine} {ev : HostEvent}
    (h : StreamedTo f es m) (hserved : HostServed f m ev m') (hexact : ev.Exact f) :
    StreamedTo f (es ++ [ev]) m' := by
  intro fd bs hbs
  rw [streamed_concat] at hbs
  by_cases hfd : fd = ev.fd
  · subst hfd
    cases ev with
    | opened d =>
      obtain rfl : [] = bs := Option.some.inj ((if_pos rfl).symm.trans hbs)
      have hzero := congrArg BitVec.toNat (hserved.opened d rfl)
      exact ⟨hzero, rfl, Nat.zero_le _⟩
    | read d before stored after =>
      obtain ⟨rfl, rfl, -⟩ := hserved.read d before stored after rfl
      have hmap : (HostEvent.streamed d es).map (· ++ stored) = some bs :=
        (if_pos rfl).symm.trans hbs
      obtain ⟨old, hold, rfl⟩ := Option.map_eq_some_iff.1 hmap
      obtain ⟨hoff, hprefix, hle⟩ := h d old hold
      obtain ⟨-, hstored, -, hnext⟩ := hexact
      rw [hoff] at hstored hnext
      have hlen : stored.length =
          min (before.rd 4).toNat (paddedSize f.size - old.length) := by
        rw [hstored, Image.length_padded]
      refine ⟨?_, ?_, ?_⟩
      · rw [List.length_append, hlen]
        exact hnext
      · have happ := f.padded_append 0 old.length stored.length
        rw [Nat.zero_add, ← hprefix] at happ
        rw [List.length_append, ← happ]
        congr 1
        rw [hlen]
        exact hstored
      · rw [List.length_append, hlen]
        omega
    | sought d => exact nomatch (if_pos rfl).symm.trans hbs
    | closed d => exact nomatch (if_pos rfl).symm.trans hbs
  · rw [streamStep_other hfd] at hbs
    rw [hserved.others fd hfd]
    exact h fd bs hbs

theorem HostRun.streamed {f : Image} {m₀ m : Machine} {es : List HostEvent}
    (hf : m₀.HostFile f) (h : HostRun m₀ es m) (hexact : ∀ e ∈ es, e.Exact f) :
    m.HostFile f ∧ StreamedTo f es m := by
  induction h with
  | start => exact ⟨hf, fun fd bs hbs => nomatch hbs⟩
  | between _ hsame ih =>
    obtain ⟨hfile, hstream⟩ := ih hexact
    exact ⟨hsame.hostFile hfile, hstream.kept hsame⟩
  | declined _ hcall ih =>
    obtain ⟨hfile, hstream⟩ := ih hexact
    have hsame := hostfileSyscall_kept hcall _ (.inl rfl)
    exact ⟨hsame.hostFile hfile, hstream.kept hsame⟩
  | retry _ hcall ih =>
    obtain ⟨hfile, hstream⟩ := ih hexact
    have hsame := hostfileSyscall_kept hcall _ (.inr rfl)
    exact ⟨hsame.hostFile hfile, hstream.kept hsame⟩
  | @done es m ev m' turns sysno tpc _ hcall ih =>
    obtain ⟨hfile, hstream⟩ := ih fun e he => hexact e (List.mem_append_left _ he)
    have hserved := hostfileSyscall_served hfile hcall
    exact ⟨hserved.file, hstream.served hserved (hexact ev (by simp))⟩

/-- Reads of the host file are reads of the padded file, in every run of calls,
exactly as far as offset and length stay below `2 ^ 32` or the offset is past
the end, and the buffer stays resident while it is filled; and then what is read
in turn from an opened descriptor is a prefix of the padded file. -/
theorem hostfile_reads_iff (f : Image) (hsize : f.size ≤ 2 ^ 31) (m₀ m : Machine)
    (es : List HostEvent) (h : HostRun (m₀.openHostfile f) es m) :
    (∀ e ∈ es, e.Exact f ↔ e.Fits f) ∧
      ((∀ e ∈ es, e.Fits f) → ∀ fd bs, HostEvent.streamed fd es = some bs →
        bs <+: f.padded 0 (paddedSize f.size)) := by
  have hfile := m₀.openHostfile_hostFile f
  have hreads := (h.reads hsize hfile).2
  refine ⟨hreads, fun hfits fd bs hbs => ?_⟩
  have hexact : ∀ e ∈ es, e.Exact f := fun e he => (hreads e he).2 (hfits e he)
  obtain ⟨-, hpadded, hle⟩ := (h.streamed hfile hexact).2 fd bs hbs
  rw [hpadded]
  exact f.padded_prefix 0 hle

/-! ## A request that wraps -/

theorem hostRead_of_approved {turns : Nat} {f : Image} {m k : Machine} {tpc : U32} {fd : Fin 64}
    (hfd : m.hostFd (m.rd 2) = some fd) (hdata : ¬m.cfg.hostfileVsize ≤ m.dev.hostOff fd)
    (hfault : m.ubufFault turns (m.rd 3)
      (hostWant m.cfg.hostfileVsize (m.dev.hostOff fd) (m.rd 4)) true tpc = some (false, k)) :
    ∃ stored m', m.hostRead turns f tpc = some (.done (.read fd m stored m') m') := by
  unfold hostRead
  rw [hfd]
  dsimp only
  rw [if_neg hdata, hfault]
  exact ⟨_, _, rfl⟩

def hostReader (mem : Mem) (off a1 a2 : U32) : Machine :=
  { Machine.fresh with
    mem := mem
    cpu := { Cpu.blank with
      r := fun n => if n = 2 then 40 else if n = 3 then a1 else if n = 4 then a2 else 0 }
    dev := { Devices.initial with
      fdHost := fun fd => fd = 40
      hostOff := fun fd => if fd = 40 then off else 0 } }

def twoBytes : Image := ⟨2, fun i => if i = 0 then 0x41 else 0x42⟩

theorem hostReader_seeks (mem : Mem) (off a1 a2 : U32) : ∃ ev,
    HostRun ((hostReader mem 0 off 0).openHostfile twoBytes) [ev]
      ((hostReader mem off a1 a2).openHostfile twoBytes) := by
  have hcall : ((hostReader mem 0 off 0).openHostfile twoBytes).hostfileSyscall 0 19 0x2000 =
      some (.done (.sought 40)
        ((((hostReader mem 0 off 0).openHostfile twoBytes).setHostOff 40 off).served off 0x2000)) :=
    rfl
  refine ⟨_, .between (.done .start hcall) ⟨rfl, rfl, ?_, rfl, rfl⟩⟩
  funext fd
  change (if fd = 40 then off else 0) =
    Function.update (fun d : Fin 64 => if d = 40 then (0 : U32) else 0) 40 off fd
  by_cases h : fd = 40
  · rw [if_pos h, h, Function.update_self]
  · rw [if_neg h, Function.update_of_ne h, if_neg h]

def wrapReader : Machine := (hostReader unmapped.mem 1 0x1000 0xFFFFFFFF).openHostfile twoBytes

/-- A request of 2^32 - 1 bytes there: all of it is reported, and the descriptor
moves back. -/
theorem hostfile_read_wraps : ∃ ev fd stored m',
    HostRun ((hostReader unmapped.mem 0 1 0).openHostfile twoBytes)
      [ev, .read fd wrapReader stored m'] m' ∧
      m'.rd 2 = 0xFFFFFFFF ∧ m'.dev.hostOff 40 = 0 ∧
      ¬(HostEvent.read fd wrapReader stored m').Exact twoBytes := by
  obtain ⟨ev, hrun⟩ := hostReader_seeks unmapped.mem 1 0x1000 0xFFFFFFFF
  have hdata : ¬wrapReader.cfg.hostfileVsize ≤ wrapReader.dev.hostOff 40 := by decide
  have hwant : hostWant wrapReader.cfg.hostfileVsize (wrapReader.dev.hostOff 40)
      (wrapReader.rd 4) = 0xFFFFFFFF := by decide
  have hfault : wrapReader.ubufFault 1 (wrapReader.rd 3)
      (hostWant wrapReader.cfg.hostfileVsize (wrapReader.dev.hostOff 40) (wrapReader.rd 4)) true
      0x2000 = some (false, wrapReader) := rfl
  obtain ⟨stored, m', hread⟩ := hostRead_of_approved (f := twoBytes) rfl hdata hfault
  obtain ⟨fd, stored', heq, hdone⟩ := hostRead_done hread
  cases heq
  obtain ⟨-, hret, -, hoff⟩ := hdone.data hdata
  rw [hwant] at hret hoff
  have hcall : wrapReader.hostfileSyscall 1 3 0x2000 =
      some (.done (.read 40 wrapReader stored m') m') := hread
  refine ⟨ev, 40, stored, m', .done hrun hcall, hret, hoff, fun hexact => ?_⟩
  have hcount := hexact.1
  rw [hret] at hcount
  exact absurd hcount (by decide)

def fourReader : Machine := (hostReader (Mem.blank true) 1 0xC0001000 4).openHostfile twoBytes

/-- The second byte, and three of the padding, in the buffer. -/
theorem hostfile_read_four : ∃ ev stored m',
    HostRun ((hostReader (Mem.blank true) 0 1 0).openHostfile twoBytes)
      [ev, .read 40 fourReader stored m'] m' ∧ stored = [0x42, 0, 0, 0] ∧
      (∀ i < 4, m'.mem.r8 (0x1000 + BitVec.ofNat 32 i) = stored.getD i 0) := by
  obtain ⟨ev, hrun⟩ := hostReader_seeks (Mem.blank true) 1 0xC0001000 4
  have hdata : ¬fourReader.cfg.hostfileVsize ≤ fourReader.dev.hostOff 40 := by decide
  have hfault : ∃ k, fourReader.ubufFault 2 (fourReader.rd 3)
      (hostWant fourReader.cfg.hostfileVsize (fourReader.dev.hostOff 40) (fourReader.rd 4)) true
      0x2000 = some (false, k) := ⟨_, rfl⟩
  obtain ⟨k, hfault⟩ := hfault
  obtain ⟨stored, m', hread⟩ := hostRead_of_approved (f := twoBytes) rfl hdata hfault
  have hcall : fourReader.hostfileSyscall 2 3 0x2000 =
      some (.done (.read 40 fourReader stored m') m') := hread
  have hserved := HostRun.done hrun hcall
  have hfits : (HostEvent.read 40 fourReader stored m').Fits twoBytes :=
    .inr ⟨by decide, by decide +kernel⟩
  have hexact := ((hostfile_reads_iff twoBytes (by decide) _ _ _ hserved).1 _ (by simp)).2 hfits
  obtain ⟨-, hstored, hbuffered, -⟩ := hexact
  obtain rfl : stored = [0x42, 0, 0, 0] := hstored.trans (by decide)
  have hbuffer : (fourReader.checked 0xC0001000 4).Buffered 0xC0001000 [0x42, 0, 0, 0] m'.mem :=
    hbuffered
  have hplace : ∀ i < 4, (fourReader.checked 0xC0001000 4).storePlace 0xC0001000
      ([0x42, 0, 0, 0].getD · 0) i = 0x1000 + BitVec.ofNat 32 i := by decide +kernel
  have hapart : ∀ i < 4, ∀ j < 4, i < j → cphys (fourReader.checked 0xC0001000 4).mem.realmm
      (0x1000 + BitVec.ofNat 32 i) ≠ cphys (fourReader.checked 0xC0001000 4).mem.realmm
        (0x1000 + BitVec.ofNat 32 j) := by decide +kernel
  refine ⟨ev, _, m', hserved, rfl, fun i hi => ?_⟩
  rw [← hplace i hi]
  refine hbuffer.stored i hi fun j hj hij => ?_
  rw [hplace i hi, hplace j hj]
  exact hapart i hi j hj hij

end Machine

end Nx88