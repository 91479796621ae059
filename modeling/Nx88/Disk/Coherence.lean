import Nx88.Cpu.Step
import Nx88.Disk.Complete
import Nx88.Lib.Store
import Nx88.Proc.ConsoleRead
/-!
# One disk behind three doors

The block buffers of the kernel, the commands of the SHA and the calls of the raw
device share one image.  Whatever order the requests come in, what is read
through one of them is what was last written through any of them, and the tape
gives what it gave.
-/

namespace Nx88

open Lib.Store Lib.Words

namespace Machine

/-! ## Requests of the raw device -/

/-- A transfer between the user's buffer and the disk. -/
structure RawRequest where
  isRead : Bool
  off : Nat
  va : U32
  n : U32

/-- What `disk_syscall` is asked to transfer, and the machine that has found it
out.  The block ioctl has its request in the user's memory. -/
def rawRequest (m : Machine) (sysno : U32) : Option (RawRequest × Machine) :=
  let off := (FdVals.off m.fd.cur.doff (m.rd 2)).toNat
  if ¬FdVals.flag m.fd.cur.dsk (m.rd 2) then none
  else if sysno = 3 then some (⟨true, off, m.rd 3, m.rd 4⟩, m)
  else if sysno = 4 then some (⟨false, off, m.rd 3, m.rd 4⟩, m)
  else if sysno = 54 ∧ m.rd 3 = 0xC014000D then
    let (blk, k) := m.kread (m.rd 4)
    let (cnt, k) := k.kread (m.rd 4 + 0x08)
    let (flag, k) := k.kread (m.rd 4 + 0x0C)
    let (buf, k) := k.kread (m.rd 4 + 0x10)
    some (⟨flag &&& 0x01000000 ≠ 0, blk.toNat * 512, buf, cnt * 512⟩, k)
  else none

/-- A buffer of a process that is there, and for a read one whose bytes can be
stored one after another. -/
structure RawOk (k : Machine) (r : RawRequest) (tpc : U32) : Prop where
  real : k.mem.realmm = true
  clear : k.xlatWrite = false
  size : r.n.toNat ≤ 2 ^ 20
  user : r.va.toNat + r.n.toNat ≤ 0xC0000000
  approved : (k.ubufFault UBUF_TURNS r.va r.n r.isRead tpc).map Prod.fst = some false
  storable : r.isRead = true → k.Storable (k.checked r.va r.n) r.va
    (fun i => (readPadded k.dev.diskImg r.off r.n.toNat).getD i 0) r.n.toNat

/-! ## Runs -/

/-- Whatever else the machine does leaves both images alone. -/
structure SameImages (m k : Machine) : Prop where
  root : k.dev.rootImg = m.dev.rootImg
  disk : k.dev.diskImg = m.dev.diskImg

def bytesAt (m : Machine) (place : Nat → U32) (n : Nat) : List U8 :=
  (List.range n).map fun i => m.mem.r8 (place i)

/-- What the guest has got from a buffer's request, or given to it.  What it gives
to the tape goes nowhere. -/
def bufMoved (m m' : Machine) (b : Buf) (phys : U32 → U32) : List (Bool × Transfer U8) :=
  let off := b.blkno.toNat * 512
  let place := bytePlace phys b.addr
  if isRead b then [(m.isRoot b, ⟨false, off, m'.bytesAt place b.bcount.toNat⟩)]
  else if m.isRoot b then []
  else [(false, ⟨true, off, m.bytesAt place b.bcount.toNat⟩)]

/-- What the guest has got from a command of the SHA, or given to it. -/
def sdMoved (m m' : Machine) (c : SdCommand) : Bool × Transfer U8 :=
  let write : Bool := c.op = 0x0A ∨ c.op = 0x2A
  (false, ⟨write, c.lba.toNat * SDBLK,
    (if write then m else m').bytesAt (byteAddr c.dma) c.xfer.toNat⟩)

/-- What the guest has got from a call of the raw device, or given to it. -/
def rawMoved (k m' : Machine) (r : RawRequest) : Bool × Transfer U8 :=
  (false, ⟨!r.isRead, r.off,
    if r.isRead then m'.bytesAt (k.bufPlace r.va) r.n.toNat else k.userBuffer r.va r.n.toNat⟩)

/-- Runs from `m₀`: requests of every kind in any order, and between them whatever
leaves the images alone.  The log has what the guest found in its memory after
each read and what it had there before each write; `true` stands for the tape. -/
inductive DiskRun (m₀ : Machine) : List (Bool × Transfer U8) → Machine → Prop where
  | start : DiskRun m₀ [] m₀
  | other {log : List (Bool × Transfer U8)} {m k : Machine} (hrun : DiskRun m₀ log m)
    (hsame : SameImages m k) : DiskRun m₀ log k
  | buffer {log : List (Bool × Transfer U8)} {m : Machine} (hrun : DiskRun m₀ log m) (h : Host)
    (b : Buf) (phys : U32 → U32) (hmap : m.Mapped b.addr b.bcount.toNat phys)
    (hok : BufOk m b phys) :
    DiskRun m₀ (log ++ bufMoved m (m.transfer h b) b phys) (m.transfer h b)
  | command {log : List (Bool × Transfer U8)} {m : Machine} (hrun : DiskRun m₀ log m)
    (c : SdCommand) (hc : c.isRead ∨ c.isWrite) (hok : SdOk m c) :
    DiskRun m₀ (log ++ [sdMoved m (m.sdPerform c) c]) (m.sdPerform c)
  | call {log : List (Bool × Transfer U8)} {m : Machine} (hrun : DiskRun m₀ log m)
    (sysno tpc : U32) (r : RawRequest) (k : Machine) (hopen : m.dev.diskImg ≠ none)
    (hreq : m.rawRequest sysno = some (r, k)) (hok : k.RawOk r tpc) :
    DiskRun m₀ (log ++ [rawMoved k (m.diskSyscall sysno tpc).2 r]) (m.diskSyscall sysno tpc).2

def transfersOf (root : Bool) (log : List (Bool × Transfer U8)) : List (Transfer U8) :=
  (log.filter fun e => e.1 == root).map Prod.snd

/-- What a run has read and written. -/
structure DiskCoherent (m₀ : Machine) (log : List (Bool × Transfer U8)) (m : Machine) : Prop where
  tape : m.dev.rootImg = m₀.dev.rootImg
  tapeReads : ∀ e ∈ transfersOf true log, e.wrote = false ∧ e.Finds (content m₀.dev.rootImg)
  disk : content m.dev.diskImg = after (content m₀.dev.diskImg) (transfersOf false log)
  diskReads : Coherent (content m₀.dev.diskImg) (transfersOf false log)

/-! ## One entry of the log -/

section

variable {m₀ m k : Machine} {log : List (Bool × Transfer U8)} {t : Transfer U8}

theorem transfersOf_append (root : Bool) (log log' : List (Bool × Transfer U8)) :
    transfersOf root (log ++ log') = transfersOf root log ++ transfersOf root log' := by
  rw [transfersOf, List.filter_append, List.map_append]
  rfl

theorem DiskCoherent.other (h : DiskCoherent m₀ log m) (hsame : SameImages m k) :
    DiskCoherent m₀ log k :=
  ⟨hsame.root.trans h.tape, h.tapeReads, (congrArg content hsame.disk).trans h.disk, h.diskReads⟩

theorem DiskCoherent.readTape (h : DiskCoherent m₀ log m) (hsame : SameImages m k)
    (hread : t.wrote = false) (hfinds : t.Finds (content m.dev.rootImg)) :
    DiskCoherent m₀ (log ++ [(true, t)]) k := by
  have htape : transfersOf true (log ++ [(true, t)]) = transfersOf true log ++ [t] :=
    transfersOf_append true log _
  have hdisk : transfersOf false (log ++ [(true, t)]) = transfersOf false log :=
    (transfersOf_append false log _).trans (List.append_nil _)
  have hkept := h.other hsame
  refine ⟨hkept.tape, fun e he => ?_, by rw [hdisk]; exact hkept.disk,
    by rw [hdisk]; exact h.diskReads⟩
  rw [htape] at he
  rcases List.mem_append.1 he with hbefore | hlast
  · exact h.tapeReads e hbefore
  · obtain rfl := List.mem_singleton.1 hlast
    rw [h.tape] at hfinds
    exact ⟨hread, hfinds⟩

theorem DiskCoherent.moveDisk (h : DiskCoherent m₀ log m) (hroot : k.dev.rootImg = m.dev.rootImg)
    (hdisk : content k.dev.diskImg = t.apply (content m.dev.diskImg))
    (hfinds : t.Finds (content m.dev.diskImg)) : DiskCoherent m₀ (log ++ [(false, t)]) k := by
  have htape : transfersOf true (log ++ [(false, t)]) = transfersOf true log :=
    (transfersOf_append true log _).trans (List.append_nil _)
  have hlog : transfersOf false (log ++ [(false, t)]) = transfersOf false log ++ [t] :=
    transfersOf_append false log _
  refine ⟨hroot.trans h.tape, by rw [htape]; exact h.tapeReads, ?_, ?_⟩
  · rw [hlog, after_append, ← h.disk]
    exact hdisk
  · rw [hlog]
    refine (coherent_concat _ _ _).2 ⟨h.diskReads, ?_⟩
    rw [← h.disk]
    exact hfinds

theorem DiskCoherent.readDisk (h : DiskCoherent m₀ log m) (hsame : SameImages m k)
    (hread : t.wrote = false) (hfinds : t.Finds (content m.dev.diskImg)) :
    DiskCoherent m₀ (log ++ [(false, t)]) k := by
  refine h.moveDisk hsame.root ?_ hfinds
  rw [t.apply_read _ hread]
  exact congrArg content hsame.disk

end

/-! ## Requests performed -/

theorem exists_reimage (m : Machine) : ∃ f g, m.reimage f g = m := by
  have hmap : ∀ img : Option Image, ∃ f, img.map (fun _ => f) = img := by
    intro img
    cases img with
    | none => exact ⟨⟨0, fun _ => 0⟩, rfl⟩
    | some f => exact ⟨f, rfl⟩
  obtain ⟨f, hf⟩ := hmap m.dev.rootImg
  obtain ⟨g, hg⟩ := hmap m.dev.diskImg
  refine ⟨f, g, ?_⟩
  unfold reimage
  rw [hf, hg]

section

variable {img : Option Image} {off n : Nat} {dest src : Nat → U32} {m m' : Machine}

theorem ReadDone.finds (h : ReadDone img off n dest m m') :
    (⟨false, off, m'.bytesAt dest n⟩ : Transfer U8).Finds (content img) := by
  intro _ x v hv
  unfold bytesAt at hv
  rw [Transfer.at?_range] at hv
  split at hv
  · next hx =>
    have hdata := h.back.data (x - off) (by omega)
    rw [Nat.add_sub_cancel' hx.1] at hdata
    exact (Option.some.inj hv).symm.trans hdata
  · cases hv

theorem WriteDone.applied (h : WriteDone off n src m m') :
    content m'.dev.diskImg =
      (⟨true, off, m.bytesAt src n⟩ : Transfer U8).apply (content m.dev.diskImg) := by
  funext x
  unfold bytesAt
  rw [Transfer.apply, if_pos rfl, Transfer.at?_range]
  split
  · next hx =>
    have hdata := (h.data (x - off) (by omega)).2
    rw [Nat.add_sub_cancel' hx.1] at hdata
    exact hdata
  · next hx => exact h.rest x (by omega)

theorem finds_wrote {t : Transfer U8} (h : t.wrote = true) (s : Nat → U8) : t.Finds s :=
  fun hread => absurd (hread.symm.trans h) Bool.false_ne_true

end

variable {m₀ m k : Machine} {log : List (Bool × Transfer U8)}

theorem DiskCoherent.buffer (hrun : DiskCoherent m₀ log m) (h : Host) {b : Buf} {phys : U32 → U32}
    (hmap : m.Mapped b.addr b.bcount.toNat phys) (hok : BufOk m b phys) :
    DiskCoherent m₀ (log ++ bufMoved m (m.transfer h b) b phys) (m.transfer h b) := by
  obtain ⟨f, g, himages⟩ := exists_reimage m
  have hdone := (bufDone_iff hmap).2 hok f g h
  rw [himages] at hdone
  unfold BufDone device at hdone
  unfold bufMoved
  dsimp only
  by_cases hread : isRead b
  · rw [if_pos hread] at hdone ⊢
    have hsame : SameImages m (m.transfer h b) := ⟨hdone.root, hdone.disk⟩
    cases hroot : m.isRoot b with
    | true =>
      rw [hroot, if_pos rfl] at hdone
      exact hrun.readTape hsame rfl hdone.finds
    | false =>
      rw [hroot, if_neg Bool.false_ne_true] at hdone
      exact hrun.readDisk hsame rfl hdone.finds
  · rw [if_neg hread] at hdone ⊢
    by_cases hroot : m.isRoot b = true
    · rw [if_pos hroot] at hdone ⊢
      rw [List.append_nil]
      exact hrun.other ⟨hdone.root, hdone.disk⟩
    · rw [if_neg hroot] at hdone ⊢
      exact hrun.moveDisk hdone.root hdone.applied (finds_wrote rfl _)

theorem DiskCoherent.command (hrun : DiskCoherent m₀ log m) {c : SdCommand}
    (hc : c.isRead ∨ c.isWrite) (hok : SdOk m c) :
    DiskCoherent m₀ (log ++ [sdMoved m (m.sdPerform c) c]) (m.sdPerform c) := by
  obtain ⟨f, g, himages⟩ := exists_reimage m
  have hdone := (sdDone_iff hc).2 hok f g
  rw [himages] at hdone
  unfold sdMoved
  dsimp only
  by_cases hwrite : c.op = 0x0A ∨ c.op = 0x2A
  · have hwritten := hdone.2 hwrite
    rw [if_pos (decide_eq_true hwrite), decide_eq_true hwrite]
    exact hrun.moveDisk hwritten.root hwritten.applied (finds_wrote rfl _)
  · have hread := hdone.1 (hc.resolve_right hwrite)
    rw [if_neg (fun h => hwrite (of_decide_eq_true h)), decide_eq_false hwrite]
    exact hrun.readDisk ⟨hread.root, hread.disk⟩ rfl hread.finds

/-! ## The raw device -/

theorem rawRequest_peeked {sysno : U32} {r : RawRequest} (h : m.rawRequest sysno = some (r, k)) :
    Peeked m k := by
  unfold rawRequest at h
  dsimp only at h
  split at h
  · cases h
  split at h
  · cases h
    exact Peeked.refl m
  split at h
  · cases h
    exact Peeked.refl m
  split at h
  · cases h
    exact (((kread_peeked _ _).trans (kread_peeked _ _)).trans (kread_peeked _ _)).trans
      (kread_peeked _ _)
  · cases h

theorem approved_checked {va len tpc : U32} {forwrite : Bool}
    (h : (m.ubufFault UBUF_TURNS va len forwrite tpc).map Prod.fst = some false) :
    (len ≠ 0 → ∀ j < pagesLooked va len, ¬m.Stops va j) ∧
      m.ubufFault UBUF_TURNS va len forwrite tpc = some (false, m.checked va len) := by
  rcases m.ubufFault_in_time va len forwrite tpc with happroved | ⟨i, -, hrefused⟩
  · exact happroved
  · rw [hrefused] at h
    cases h

def rawDone (l : Machine) (f : Image) (r : RawRequest) : Machine :=
  if r.isRead then l.diskIn f r.off r.va r.n else l.diskOut f r.off r.va r.n

theorem diskTransfer_approved {l : Machine} (f : Image) {isRead : Bool} {tpc : U32}
    (hfd : l.fd = m.fd)
    (h : m.ubufFault UBUF_TURNS (m.rd 3) (m.rd 4) isRead tpc = some (false, l)) :
    ∃ done, done =
        l.rawDone f ⟨isRead, (FdVals.off m.fd.cur.doff (m.rd 2)).toNat, m.rd 3, m.rd 4⟩ ∧
      (m.diskTransfer f isRead tpc).2.dev = done.dev ∧
      (m.diskTransfer f isRead tpc).2.mem = done.mem := by
  unfold diskTransfer
  dsimp only
  rw [pinned_approved h, hfd]
  exact ⟨_, rfl, rfl, rfl⟩

theorem diskSyscall_approved {sysno tpc : U32} {r : RawRequest} {f : Image}
    (hopen : m.dev.diskImg = some f) (hreq : m.rawRequest sysno = some (r, k))
    (happroved : k.ubufFault UBUF_TURNS r.va r.n r.isRead tpc = some (false, k.checked r.va r.n)) :
    ∃ done, done = (k.checked r.va r.n).rawDone f r ∧
      (m.diskSyscall sysno tpc).2.dev = done.dev ∧ (m.diskSyscall sysno tpc).2.mem = done.mem := by
  have hfd : (k.checked r.va r.n).fd = k.fd := by
    obtain ⟨t, u, s, heq⟩ := k.checked_peeked r.va r.n
    rw [heq]
  generalize k.checked r.va r.n = l at happroved hfd
  unfold rawRequest at hreq
  dsimp only at hreq
  unfold diskSyscall
  rw [hopen]
  dsimp only
  split at hreq
  · cases hreq
  next hflag =>
  rw [if_neg hflag]
  split at hreq
  · next hread =>
    have hseek : ¬sysno = 19 := by
      rw [hread]
      decide
    cases hreq
    rw [if_neg hseek, if_pos hread]
    exact diskTransfer_approved f hfd happroved
  next hnotRead =>
  split at hreq
  · next hwrite =>
    have hseek : ¬sysno = 19 := by
      rw [hwrite]
      decide
    cases hreq
    rw [if_neg hseek, if_neg hnotRead, if_pos hwrite]
    exact diskTransfer_approved f hfd happroved
  next hnotWrite =>
  split at hreq
  · next hioctl =>
    have hseek : ¬sysno = 19 := by
      rw [hioctl.1]
      decide
    cases hreq
    rw [if_neg hseek, if_neg hnotRead, if_neg hnotWrite, if_pos hioctl.1]
    unfold diskIoctl
    dsimp only at happroved ⊢
    rw [if_neg (not_not.2 hioctl.2), pinned_approved happroved]
    exact ⟨_, rfl, rfl, rfl⟩
  · cases hreq

theorem content_written_at (f : Image) (off : Nat) (bs : List U8) :
    content (some (f.write off bs)) = (⟨true, off, bs⟩ : Transfer U8).apply (content (some f)) := by
  funext x
  rw [content_write, Transfer.apply, if_pos rfl, Transfer.at?]
  dsimp only
  by_cases hlo : off ≤ x
  · rw [if_pos hlo]
    by_cases hhi : x - off < bs.length
    · rw [if_pos ⟨hlo, by omega⟩, List.getD_eq_getElem?_getD, List.getElem?_eq_getElem hhi]
      rfl
    · rw [if_neg (by omega), List.getElem?_eq_none (by omega), Option.getD_none]
  · rw [if_neg (fun h => hlo h.1), if_neg hlo, Option.getD_none]

theorem loads_peeked (m : Machine) (va : U32) (n : Nat) : Peeked m (m.loads va n).2 := by
  induction n generalizing m va with
  | zero => exact Peeked.refl m
  | succ n ih => exact (translate_peeked m va false).trans (ih _ _)

theorem diskOut_rootImg (m : Machine) (f : Image) (off : Nat) (va n : U32) :
    (m.diskOut f off va n).dev.rootImg = m.dev.rootImg := by
  change (m.loads va n.toNat).2.dev.rootImg = _
  rw [(loads_peeked m va n.toNat).copied.dev]

theorem DiskCoherent.call (hrun : DiskCoherent m₀ log m) {sysno tpc : U32} {r : RawRequest}
    (hopen : m.dev.diskImg ≠ none) (hreq : m.rawRequest sysno = some (r, k))
    (hok : k.RawOk r tpc) :
    DiskCoherent m₀ (log ++ [rawMoved k (m.diskSyscall sysno tpc).2 r])
      (m.diskSyscall sysno tpc).2 := by
  obtain ⟨f, hf⟩ := Option.ne_none_iff_exists'.1 hopen
  obtain ⟨hgo, happroved⟩ := approved_checked hok.approved
  obtain ⟨done, hdone, hdev, hmem⟩ := diskSyscall_approved hf hreq happroved
  have hsize := hok.size
  have huser := hok.user
  have hdevk : k.dev = m.dev := (rawRequest_peeked hreq).copied.dev
  have hchecked := (k.checked_peeked r.va r.n).copied.dev
  have hcontent : content m.dev.diskImg = content (some f) := congrArg content hf
  have hspan : bufSpan r.va r.n < 2 ^ 20 := by
    rw [bufSpan]
    split
    · decide
    · omega
  unfold rawMoved
  cases hread : r.isRead with
  | true =>
    rw [rawDone, hread, if_pos rfl] at hdone
    have hnow := (checked_approved hspan hgo).now hok.real hok.clear
    obtain ⟨-, hdata, -⟩ := (hok.storable hread).stored
      (congrArg Mem.realmm (k.checked_peeked r.va r.n).mem) hnow
    have hin : done = ((k.checked r.va r.n).uwriteMem r.va
        (fun i => (readPadded k.dev.diskImg r.off r.n.toNat).getD i 0) r.n.toNat).2 := by
      have hlen : (readPadded (some f) r.off r.n.toNat).length = r.n.toNat := by
        rw [readPadded_eq, List.length_map, List.length_range]
      rw [hdone, diskIn, storeUser, hlen, hdevk, hf]
    have hsame : (m.diskSyscall sysno tpc).2.dev = m.dev := by
      rw [hdev, hin, (uwriteMem_copied _ _ _ _).dev, hchecked, hdevk]
    refine hrun.readDisk ⟨congrArg Devices.rootImg hsame, congrArg Devices.diskImg hsame⟩ rfl ?_
    intro _ x v hv
    rw [if_pos rfl, bytesAt, Transfer.at?_range] at hv
    split at hv
    · next hx =>
      have hi : x - r.off < r.n.toNat := by omega
      rw [← Option.some.inj hv, hmem, hin, hdata _ hi, hdevk, readPadded_eq,
        List.getD_eq_getElem?_getD, List.getElem?_map, List.getElem?_range hi, Option.map_some,
        Option.getD_some, Nat.add_sub_cancel' hx.1]
    · cases hv
  | false =>
    rw [rawDone, hread, if_neg Bool.false_ne_true] at hdone
    have hbytes := loads_approved hok.real hok.clear hsize huser happroved
    have hdisk : (m.diskSyscall sysno tpc).2.dev.diskImg =
        some (f.write r.off (k.userBuffer r.va r.n.toNat)) := by
      rw [hdev, hdone, ← hbytes]
      rfl
    have hroot : (m.diskSyscall sysno tpc).2.dev.rootImg = m.dev.rootImg := by
      rw [hdev, hdone, diskOut_rootImg, hchecked, hdevk]
    refine hrun.moveDisk hroot ?_ (finds_wrote rfl _)
    rw [hdisk, hcontent, content_written_at]
    rfl

/-! ## What leaves the images alone -/

theorem SameImages.trans {l : Machine} (h₁ : SameImages m k) (h₂ : SameImages k l) :
    SameImages m l := ⟨h₂.root.trans h₁.root, h₂.disk.trans h₁.disk⟩

theorem sameImages_of_dev (h : k.dev = m.dev) : SameImages m k :=
  ⟨congrArg Devices.rootImg h, congrArg Devices.diskImg h⟩

theorem RegsOnly.sameImages (h : RegsOnly m k) : SameImages m k := by
  obtain ⟨r, cr, rfl⟩ := h
  exact ⟨rfl, rfl⟩

theorem tcsPoke_dev (m : Machine) (a : U32) : (m.tcsPoke a).dev = m.dev := by
  unfold tcsPoke
  split
  · rfl
  split
  · rfl
  · rfl

theorem cmmuWrite_dev (m : Machine) (a v : U32) : (m.cmmuWrite a v).dev = m.dev := by
  have hcommand : ∀ base cmd, (m.cmmuCommand base cmd).dev = m.dev := by
    intro base cmd
    unfold cmmuCommand
    simp only
    split
    · rfl
    split
    · rfl
    · rfl
  unfold cmmuWrite
  split
  · split
    · exact hcommand _ _
    split
    · rfl
    · rfl
  · rfl

theorem devWrite32_sameImages (m : Machine) (a v : U32) : SameImages m (m.devWrite32 a v) := by
  unfold devWrite32
  split
  · split
    · exact ⟨rfl, rfl⟩
    split
    · exact ⟨rfl, rfl⟩
    split
    · exact ⟨rfl, rfl⟩
    · constructor
      all_goals
        simp only
        rw [cmmuWrite_dev, tcsPoke_dev]
        split
        · split
          · rfl
          · rfl
        · split
          · rfl
          · rfl
  · exact ⟨rfl, rfl⟩

theorem setMem_sameImages (m : Machine) (mem : Mem) : SameImages m (m.setMem mem) := ⟨rfl, rfl⟩

theorem memTransfer_sameImages (m : Machine) (sub D ea : U32) :
    SameImages m (m.memTransfer sub D ea) := by
  have hwr : ∀ (k : Machine) (n v : U32), SameImages k (k.wr n v) :=
    fun k n v => (wr_regsOnly k n v).sameImages
  unfold memTransfer
  split
  case h_6 => exact (hwr _ _ _).trans (hwr _ _ _)
  case h_7 => exact devWrite32_sameImages m _ _
  case h_8 => exact sameImages_of_dev (tcsPoke_dev _ _)
  case h_9 => exact ⟨rfl, rfl⟩
  case h_10 => exact (devWrite32_sameImages m _ _).trans (devWrite32_sameImages _ _ _)
  case h_11 => exact (setMem_sameImages m _).trans (hwr _ _ _)
  case h_12 => exact (setMem_sameImages m _).trans (hwr _ _ _)
  case h_13 => exact ⟨rfl, rfl⟩
  all_goals exact hwr m _ _

theorem shaCommand_sameImages (m : Machine) (ea : U32) (v : U16) :
    SameImages m (m.shaCommand ea v) := by
  unfold shaCommand
  dsimp only
  split
  · exact ⟨rfl, rfl⟩
  split
  · exact ⟨rfl, rfl⟩
  split
  · exact ⟨rfl, rfl⟩
  · exact ⟨rfl, rfl⟩

theorem memAccess_sameImages (m : Machine) (sub D ea : U32) :
    SameImages m (m.memAccess sub D ea) := by
  have hwr : ∀ (k : Machine) (n v : U32), SameImages k (k.wr n v) :=
    fun k n v => (wr_regsOnly k n v).sameImages
  unfold memAccess
  split
  · exact shaCommand_sameImages m _ _
  split
  · exact hwr m _ _
  split
  · exact hwr m _ _
  split
  · split
    · exact (setMem_sameImages m _).trans (hwr _ _ _)
    · exact ⟨rfl, rfl⟩
  split
  · next htimer =>
    split at htimer
    · unfold timerRead at htimer
      dsimp only at htimer
      split at htimer
      case h_6 => cases htimer
      all_goals
        rw [← Option.some.inj htimer]
        exact hwr m _ _
    · cases htimer
  · exact memTransfer_sameImages m _ _ _

theorem memop_sameImages (m : Machine) (sub D ea : U32) : SameImages m (m.memop sub D ea) := by
  have hlooked : SameImages m (m.memLooked sub ea) :=
    sameImages_of_dev (translate_dev (m.setXlatWrite (isStore sub)) ea false)
  rw [memop_eq]
  split
  · exact (wr_regsOnly m _ _).sameImages
  split
  · exact hlooked.trans ⟨rfl, rfl⟩
  · exact hlooked.trans (memAccess_sameImages _ _ _ _)

theorem finish_dev (m : Machine) (pc : U32) (flow : Flow) : (m.finish pc flow).1.dev = m.dev := by
  unfold finish sequence
  split
  · rfl
  split
  · rfl
  split
  · rfl
  split
  · rfl
  · rfl
  · rfl

theorem exec_sameImages (m : Machine) (h : Host) : SameImages m (m.exec h).1 := by
  have hfetch : SameImages m m.fetch.2 := sameImages_of_dev (translate_dev m _ _)
  rw [exec_eq]
  split
  · exact hfetch
  refine (hfetch.trans ?_).trans (sameImages_of_dev (finish_dev _ _ _))
  have htick : SameImages m.fetch.2 m.fetch.2.tick := ⟨rfl, rfl⟩
  refine htick.trans ?_
  cases hform : m.fetch.2.tick.memForm m.fetch.1 with
  | none => exact (execute_plain h _ hform).1.sameImages
  | some form =>
    rw [execute_mem hform]
    exact memop_sameImages _ _ _ _

theorem step_sameImages {h : Host} (hpass : m.intercepts h m.cpu.pc = .ok k) :
    SameImages k (m.step h).1 := by
  unfold step
  rw [hooks_eq, hpass]
  dsimp only
  cases hsoft : k.softint with
  | error l =>
    dsimp only
    rw [(softint_error hsoft).2]
    constructor
    all_goals rw [takeInterrupt_dev]
  | ok k₂ =>
    have hdev₂ := (softint_ok_peeked hsoft).copied.dev
    dsimp only
    cases hhard : k₂.hardclock with
    | error l =>
      dsimp only
      rw [(hardclock_error hhard).2.2]
      constructor
      all_goals
        rw [takeInterrupt_dev, ← hdev₂]
        rfl
    | ok k₃ =>
      cases hardclock_ok hhard
      dsimp only
      refine SameImages.trans (k := (k₂.forceSig m.cpu.pc).snoopMaps m.cpu.pc) ?_
        (exec_sameImages _ h)
      have hforced : SameImages k₂ (k₂.forceSig m.cpu.pc) := by
        unfold forceSig
        split
        · exact ⟨rfl, rfl⟩
        · exact ⟨rfl, rfl⟩
      refine ((sameImages_of_dev hdev₂).trans hforced).trans ?_
      rw [snoopMaps_eq]
      have hnoted : SameImages (k₂.forceSig m.cpu.pc)
          ((k₂.forceSig m.cpu.pc).snoopMapFn m.cpu.pc) := by
        unfold snoopMapFn
        split
        · exact ⟨rfl, rfl⟩
        · exact ⟨rfl, rfl⟩
      refine hnoted.trans ?_
      generalize (k₂.forceSig m.cpu.pc).snoopMapFn m.cpu.pc = l
      split
      · have hlooked : SameImages l (l.translate (l.rd 7) false).2 :=
          sameImages_of_dev (translate_dev l (l.rd 7) false)
        exact ⟨hlooked.root, hlooked.disk⟩
      · exact ⟨rfl, rfl⟩

/-! ## Whole runs -/

theorem DiskRun.step {log : List (Bool × Transfer U8)} (hrun : DiskRun m₀ log m) {h : Host}
    (hpass : m.intercepts h m.cpu.pc = .ok m) : DiskRun m₀ log (m.step h).1 :=
  hrun.other (step_sameImages hpass)

theorem DiskRun.coherent {log : List (Bool × Transfer U8)} (hrun : DiskRun m₀ log m) :
    DiskCoherent m₀ log m := by
  induction hrun with
  | start => exact ⟨rfl, fun e he => absurd he List.not_mem_nil, rfl, trivial⟩
  | other _ hsame ih => exact ih.other hsame
  | buffer _ h b phys hmap hok ih => exact ih.buffer h hmap hok
  | command _ c hc hok ih => exact ih.command hc hok
  | call _ sysno tpc r k hopen hreq hok ih => exact ih.call hopen hreq hok

theorem Serviced.realmm {m k : Machine} (h : Serviced m k) : k.mem.realmm = m.mem.realmm := by
  obtain ⟨r, cr, pc, p, t, u, s, vp, img, wrote, rfl⟩ := h
  rfl

end Machine

end Nx88
