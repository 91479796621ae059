import Nx88.Console.Telnet
import Nx88.Cpu.Spec
import Nx88.Proc.Buffers
/-!
# Console writes

`write` on a console descriptor: the user's bytes go out in chunks, on the socket
with each LF expanded to CR LF.
-/

namespace Nx88

open Lib.Words Console

namespace Console

/-- The host's end of the socket: whether a client comes when one is waited for,
and how many bytes of a buffer are taken, after those sent so far, before a send
fails. -/
structure Net where
  accepts : Bool
  took : List U8 → List U8 → Nat

def conSendRaw (net : Net) (c : Console) (p : List U8) : Console :=
  if ¬c.attached ∨ c.eof then c
  else
    let k := min (net.took c.sent p) p.length
    { c with sent := c.sent ++ p.take k, eof := decide (k < p.length) }

def nego : List U8 := [255, 251, 1, 255, 251, 3, 255, 253, 3]

def conEnsureClient (net : Net) (c : Console) : Console :=
  if ¬c.useSock ∨ c.attached ∨ c.eof then c
  else if net.accepts then conSendRaw net { c with attached := true } nego
  else { c with eof := true }

/-- The buffers that `con_sock_write` hands to `con_send_raw`, the first of them
begun with `buf`. -/
def sockBuffers (buf : List U8) : List U8 → List (List U8)
  | [] => if buf = [] then [] else [buf]
  | b :: p =>
    let buf := if b = LF then buf ++ [CR, LF] else buf ++ [b]
    if 2048 - 2 ≤ buf.length then buf :: sockBuffers [] p else sockBuffers buf p

def conSockWrite (net : Net) (c : Console) (p : List U8) : Console :=
  (sockBuffers [] p).foldl (conSendRaw net) c

def conWrite (net : Net) (c : Console) (p : List U8) (isErr : Bool) :
    List (List U8) × Console :=
  let c := c.conEnsureClient net
  if c.useSock then (sockBuffers [] p, c.conSockWrite net p)
  else ([], if isErr then { c with err := c.err ++ p } else { c with out := c.out ++ p })

end Console

namespace Machine

def setCon (m : Machine) (con : Console) : Machine := { m with con := con }

def fdIsConsole (m : Machine) (fd : U32) : Bool :=
  m.cfg.consoleIo && if h : fd.toNat < 64 then m.fd.cur.con ⟨fd.toNat, h⟩ else false

/-- The loop `tmp[i] = mem_r8(translate(va + i, 0))`. -/
def loads (m : Machine) (va : U32) : Nat → List U8 × Machine
  | 0 => ([], m)
  | n + 1 =>
    let (pa, m') := m.translate va false
    let (bs, m'') := m'.loads (va + 1) n
    (m'.mem.r8 pa :: bs, m'')

/-- The loop over the chunks, `left` bytes from `va` on.  Every turn writes a byte
at least, so there are no more turns than bytes.  No translation looks at the
console, which is passed on beside the machine. -/
def writeChunks (net : Net) (m : Machine) (con : Console) (va : U32) (isErr : Bool) :
    Nat → Nat → List (List U8) × Machine × Console
  | 0, _ => ([], m, con)
  | turns + 1, left =>
    if left = 0 then ([], m, con)
    else
      let chunk := min left 4096
      let (tmp, m) := m.loads va chunk
      let (handed, con) := con.conWrite net tmp isErr
      let (more, m, con) :=
        m.writeChunks net con (byteAddr va chunk) isErr turns (left - chunk)
      (handed ++ more, m, con)

/-- What becomes of a write: not the console's, to run again after a fault, or
completed, with the buffers that went to `con_send_raw`. -/
inductive Written where
  | declined
  | retry (m : Machine)
  | done (handed : List (List U8)) (m : Machine)

def WRITE_CAP : U32 := 0x100000

def writeTotal (n : U32) : U32 := if n < WRITE_CAP then n else WRITE_CAP

/-- `console_syscall`, case 4, if the loop of `ubuf_fault` ends within `n` turns. -/
def consoleWrite (net : Net) (n : Nat) (m : Machine) (tpc : U32) : Option Written :=
  let a0 := m.rd 2
  let a1 := m.rd 3
  let a2 := m.rd 4
  if ¬m.fdIsConsole a0 then some .declined
  else
    let total := writeTotal a2
    match m.ubufFault n a1 total false tpc with
    | none => none
    | some (true, m) => some (.retry m)
    | some (false, m) =>
      let (handed, m, con) := m.writeChunks net m.con a1 (a0 = 2) total.toNat total.toNat
      let m := m.setCon { con with outBytes := con.outBytes + a2 }
      some (.done handed ((m.wr 2 a2).setPc (tpc + 8)))

end Machine

/-! ## The expansion -/

def Console.expand (p : List U8) : List U8 := p.flatMap fun b => if b = LF then [CR, LF] else [b]

namespace Console

theorem expand_append (p q : List U8) : expand (p ++ q) = expand p ++ expand q :=
  List.flatMap_append

theorem expand_ne_nil {p : List U8} (h : p ≠ []) : expand p ≠ [] := by
  obtain ⟨b, q, rfl⟩ := List.exists_cons_of_ne_nil h
  rw [expand, List.flatMap_cons]
  split
  · exact List.cons_ne_nil _ _
  · exact List.cons_ne_nil _ _

theorem expand_append_ne (p : List U8) {q : List U8} (h : q ≠ []) :
    expand p ≠ expand (p ++ q) := by
  rw [expand_append]
  exact fun heq => expand_ne_nil h (List.self_eq_append_right.1 heq)

theorem flatten_sockBuffers (buf p : List U8) :
    (sockBuffers buf p).flatten = buf ++ expand p := by
  induction p generalizing buf with
  | nil =>
    rw [sockBuffers, expand, List.flatMap_nil, List.append_nil]
    split
    · next h => rw [h, List.flatten_nil]
    · rw [List.flatten_singleton]
  | cons b p ih =>
    have hbuf : (if b = LF then buf ++ [CR, LF] else buf ++ [b]) = buf ++ expand [b] := by
      rw [expand, List.flatMap_singleton]
      split <;> rfl
    have hcons : expand (b :: p) = expand [b] ++ expand p := expand_append [b] p
    rw [sockBuffers, hbuf, hcons, ← List.append_assoc]
    split
    · rw [List.flatten_cons, ih, List.nil_append]
    · rw [ih]

theorem sockBuffers_fit {buf p s : List U8} (hbuf : buf.length < 2046)
    (hs : s ∈ sockBuffers buf p) : 0 < s.length ∧ s.length < 2048 := by
  induction p generalizing buf with
  | nil =>
    rw [sockBuffers] at hs
    split at hs
    · exact absurd hs List.not_mem_nil
    · next h =>
      rw [List.mem_singleton.1 hs]
      exact ⟨List.length_pos_iff.2 h, by omega⟩
  | cons b p ih =>
    rw [sockBuffers] at hs
    have hlen : (if b = LF then buf ++ [CR, LF] else buf ++ [b]).length ≤ buf.length + 2 := by
      split <;> simp
    generalize (if b = LF then buf ++ [CR, LF] else buf ++ [b]) = buf' at hs hlen
    split at hs
    · next hfull =>
      rcases List.mem_cons.1 hs with rfl | hrest
      · omega
      · exact ih (by decide) hrest
    · next hroom => exact ih (by omega) hs

theorem conSendRaw_client (net : Net) (c : Console) (p : List U8) :
    (conSendRaw net c p).useSock = c.useSock ∧ (conSendRaw net c p).attached = c.attached := by
  rw [conSendRaw]
  split
  · exact ⟨rfl, rfl⟩
  · exact ⟨rfl, rfl⟩

theorem conSockWrite_client (net : Net) (c : Console) (p : List U8) :
    (conSockWrite net c p).useSock = c.useSock ∧
      (conSockWrite net c p).attached = c.attached := by
  rw [conSockWrite]
  generalize sockBuffers [] p = buffers
  induction buffers generalizing c with
  | nil => exact ⟨rfl, rfl⟩
  | cons b bs ih =>
    obtain ⟨hsock, hattached⟩ := conSendRaw_client net c b
    obtain ⟨hsock', hattached'⟩ := ih (conSendRaw net c b)
    exact ⟨hsock'.trans hsock, hattached'.trans hattached⟩

/-- The socket is there and the client is attached. -/
def Online (c : Console) : Prop := c.useSock = true ∧ c.attached = true

theorem Online.conWrite {c : Console} (h : c.Online) (net : Net) (p : List U8) (isErr : Bool) :
    (c.conWrite net p isErr).1 = sockBuffers [] p ∧ (c.conWrite net p isErr).2.Online := by
  have hthere : c.conEnsureClient net = c := by
    rw [conEnsureClient, if_pos (.inr (.inl h.2))]
  obtain ⟨hsock, hattached⟩ := conSockWrite_client net c p
  rw [Console.conWrite, hthere, if_pos h.1]
  exact ⟨rfl, hsock.trans h.1, hattached.trans h.2⟩

end Console

namespace Machine

/-! ## The loads -/

variable {m k : Machine} {va : U32}

theorem loads_add (m : Machine) (va : U32) (i j : Nat) :
    (m.loads va (i + j)).1 = (m.loads va i).1 ++ ((m.loads va i).2.loads (byteAddr va i) j).1 := by
  induction i generalizing m va with
  | zero => rw [Nat.zero_add, loads, byteAddr_zero, List.nil_append]
  | succ i ih =>
    rw [Nat.add_right_comm, loads, loads]
    dsimp only
    rw [ih, byteAddr_succ, List.cons_append]

theorem length_loads (m : Machine) (va : U32) (n : Nat) : (m.loads va n).1.length = n := by
  induction n generalizing m va with
  | zero => rfl
  | succ n ih =>
    rw [loads]
    dsimp only
    rw [List.length_cons, ih]

/-- Loads of resident user pages take the bytes at the places these pages have,
whatever has been looked at in between. -/
theorem loads_user {k : Machine} {n : Nat} (hpeeked : Peeked m k) (hwrite : m.xlatWrite = false)
    (hrange : va.toNat + n ≤ 0xC0000000) (hn : n < 0xFFF000)
    (hkeeps : ∀ i < n, Keeps m k (byteAddr va i))
    (hresident : ∀ i < n, ¬m.Unmapped (byteAddr va i)) :
    (k.loads va n).1 =
      (List.range n).map fun i => m.mem.r8 (m.translate (byteAddr va i) false).1 := by
  induction n generalizing k va with
  | zero => rfl
  | succ n ih =>
    have huser : ∀ i < n + 1, ¬0xC0000000 ≤ byteAddr va i := by
      intro i hi hle
      rw [BitVec.le_def, toNat_byteAddr] at hle
      change 0xC0000000 ≤ _ at hle
      omega
    have hwrite' : k.xlatWrite = false := by
      obtain ⟨t, u, s, rfl⟩ := hpeeked
      exact hwrite
    have hva : ¬0xC0000000 ≤ va := by
      rw [← byteAddr_zero va]
      exact huser 0 (Nat.succ_pos n)
    have hkeeps₀ := hkeeps 0 (Nat.succ_pos n)
    have hresident₀ := hresident 0 (Nat.succ_pos n)
    rw [byteAddr_zero] at hkeeps₀ hresident₀
    have hload : Loads k va (k.translate va false) := translate_loads hwrite' hva
    have hplace := hkeeps₀.place hpeeked hva (translate_loads hwrite hva) hload hresident₀
    have hpeeked' := hpeeked.trans (translate_peeked k va false)
    have hnext : (va + 1).toNat = va.toNat + 1 := by
      rw [BitVec.toNat_add]
      change (va.toNat + 1) % 2 ^ 32 = _
      omega
    have hrest : ((k.translate va false).2.loads (va + 1) n).1 =
        (List.range n).map fun i => m.mem.r8 (m.translate (byteAddr (va + 1) i) false).1 := by
      refine ih hpeeked' (by omega) (by omega) (fun i hi => ?_) fun i hi => ?_
      · rw [byteAddr_succ]
        refine (hkeeps (i + 1) (by omega)).load hpeeked hload (apart_of_near ?_ ?_)
        · rw [toNat_byteAddr]
          omega
        · rw [toNat_byteAddr]
          omega
      · rw [byteAddr_succ]
        exact hresident (i + 1) (by omega)
    rw [loads, List.range_succ_eq_map, List.map_cons, List.map_map, byteAddr_zero, ← hplace]
    dsimp only
    rw [hrest, hpeeked'.mem]
    refine congrArg (_ :: ·) (List.map_congr_left fun i _ => ?_)
    rw [Function.comp_apply, byteAddr_succ]

theorem writeChunks_flatten (net : Net) {con : Console} (hcon : con.Online) (m : Machine) (va : U32)
    (isErr : Bool) {turns left : Nat} (hturns : left ≤ turns) :
    (m.writeChunks net con va isErr turns left).1.flatten = expand (m.loads va left).1 := by
  induction turns generalizing m con va left with
  | zero =>
    obtain rfl : left = 0 := Nat.le_zero.1 hturns
    rfl
  | succ turns ih =>
    rw [writeChunks]
    split
    · next h =>
      rw [h]
      rfl
    · next h =>
      obtain ⟨hbuffers, hcon'⟩ := hcon.conWrite net (m.loads va (min left 4096)).1 isErr
      have hsplit := loads_add m va (min left 4096) (left - min left 4096)
      rw [Nat.add_sub_cancel' (Nat.min_le_left left 4096)] at hsplit
      dsimp only
      rw [List.flatten_append, hbuffers, flatten_sockBuffers, List.nil_append,
        ih hcon' _ _ (by omega), hsplit, expand_append]

/-! ## What a write reports -/

def userBuffer (m : Machine) (va : U32) (n : Nat) : List U8 :=
  (List.range n).map fun i => m.mem.r8 (m.translate (byteAddr va i) false).1

theorem toNat_writeTotal (n : U32) : (writeTotal n).toNat = min n.toNat (2 ^ 20) := by
  have hcap : WRITE_CAP.toNat = 2 ^ 20 := rfl
  rw [writeTotal]
  split
  · next h =>
    rw [BitVec.lt_def, hcap] at h
    omega
  · next h =>
    rw [BitVec.lt_def, hcap] at h
    omega

theorem loads_approved {n : Nat} {len tpc : U32} {forwrite : Bool} {k : Machine}
    (hreal : m.mem.realmm = true) (hwrite : m.xlatWrite = false) (hlen : len.toNat ≤ 2 ^ 20)
    (hrange : va.toNat + len.toNat ≤ 0xC0000000)
    (h : ubufFault n m va len forwrite tpc = some (false, k)) :
    (k.loads va len.toNat).1 = m.userBuffer va len.toNat := by
  have hspan : bufSpan va len < 2 ^ 20 := by
    rw [bufSpan]
    split
    · omega
    · omega
  obtain ⟨hk, happroved⟩ := ubufFault_approved hspan h
  have hpeeked : Peeked m k := by
    rw [hk]
    exact (m.swept_peeked va _).trans (peeked_ufault _ _)
  refine loads_user hpeeked hwrite hrange (by omega) (fun i hi => ?_) fun i hi hun => ?_
  · have hva := va.isLt
    rw [hk]
    refine swept_keeps hwrite fun j hj => ?_
    have hpage : (bufPage va j).toNat = va.toNat / 4096 * 4096 + 4096 * j ∧
        (bufPage va j).toNat < va.toNat + len.toNat := by
      rw [toNat_bufPage]
      rw [bufSpan] at hj
      split at hj
      · exact absurd hj (Nat.not_lt_zero j)
      · omega
    refine ⟨fun hle => ?_, apart_of_near ?_ ?_⟩
    · rw [BitVec.le_def] at hle
      change 0xC0000000 ≤ _ at hle
      omega
    · rw [toNat_byteAddr]
      omega
    · rw [toNat_byteAddr]
      omega
  · exact happroved.now hreal hwrite i hi ((faults_iff hreal hwrite _).2 hun)

theorem userBuffer_add (m : Machine) (va : U32) (i j : Nat) :
    m.userBuffer va (i + j) = m.userBuffer va i ++
      (List.range j).map fun d => m.mem.r8 (m.translate (byteAddr va (i + d)) false).1 := by
  rw [userBuffer, List.range_add, List.map_append, List.map_map]
  rfl

theorem swept_of_approved {n : Nat} {len tpc : U32} {forwrite : Bool}
    (hlen : len.toNat ≤ 2 ^ 20) (h : ubufFault n m va len forwrite tpc = some (false, k)) :
    Peeked m k := by
  have hspan : bufSpan va len < 2 ^ 20 := by
    rw [bufSpan]
    split
    · omega
    · omega
  rw [(ubufFault_approved hspan h).1]
  exact (m.swept_peeked va _).trans (peeked_ufault _ _)

/-- A completed write returns the length it was given, and hands on what it has
loaded of the buffer. -/
theorem consoleWrite_done {net : Net} {n : Nat} {tpc : U32} {handed : List (List U8)}
    {m' : Machine} (hcon : m.con.Online)
    (h : m.consoleWrite net n tpc = some (.done handed m')) :
    m'.rd 2 = m.rd 4 ∧
      ∃ k, m.ubufFault n (m.rd 3) (writeTotal (m.rd 4)) false tpc = some (false, k) ∧
        handed.flatten = expand (k.loads (m.rd 3) (writeTotal (m.rd 4)).toNat).1 := by
  rw [consoleWrite] at h
  dsimp only at h
  split at h
  · exact nomatch h
  · split at h
    · exact nomatch h
    · exact nomatch h
    · next k hfault =>
      have hdone := Written.done.inj (Option.some.inj h)
      have hk : k.con = m.con := by
        have hcap : (writeTotal (m.rd 4)).toNat ≤ 2 ^ 20 := by
          rw [toNat_writeTotal]
          exact Nat.min_le_right _ _
        obtain ⟨t, u, s, rfl⟩ := swept_of_approved hcap hfault
        rfl
      refine ⟨?_, k, hfault, ?_⟩
      · rw [← hdone.2]
        exact rd_wr _ (by decide) (by decide) _
      · rw [← hdone.1]
        exact writeChunks_flatten net (by rw [hk]; exact hcon) k _ _ (le_refl _)

theorem consoleWrite_of_approved (net : Net) {n : Nat} {tpc : U32}
    (hfd : m.fdIsConsole (m.rd 2) = true)
    (h : m.ubufFault n (m.rd 3) (writeTotal (m.rd 4)) false tpc = some (false, k)) :
    ∃ handed m', m.consoleWrite net n tpc = some (.done handed m') := by
  rw [consoleWrite]
  dsimp only
  rw [if_neg (not_not.2 hfd), h]
  exact ⟨_, _, rfl⟩

/-- The first bytes of a buffer are what a call reports if and only if they are
all of it. -/
theorem expand_eq_iff (f : Nat → List U8) (hf : ∀ i j, ∃ rest, rest.length = j ∧
    f (i + j) = f i ++ rest) (n : U32) :
    expand (f (writeTotal n).toNat) = expand (f n.toNat) ↔ n ≤ WRITE_CAP := by
  have hcap : WRITE_CAP.toNat = 2 ^ 20 := rfl
  rw [toNat_writeTotal, BitVec.le_def, hcap]
  constructor
  · intro heq
    by_contra hlong
    obtain ⟨rest, hlen, hrest⟩ := hf (2 ^ 20) (n.toNat - 2 ^ 20)
    rw [Nat.add_sub_cancel' (by omega)] at hrest
    rw [Nat.min_eq_right (by omega), hrest] at heq
    refine expand_append_ne _ (List.ne_nil_of_length_pos ?_) heq
    omega
  · intro hle
    rw [Nat.min_eq_left hle]

theorem userBuffer_eq_iff (m : Machine) (va n : U32) :
    expand (m.userBuffer va (writeTotal n).toNat) = expand (m.userBuffer va n.toNat) ↔
      n ≤ WRITE_CAP := by
  refine expand_eq_iff (m.userBuffer va) (fun i j => ⟨_, ?_, m.userBuffer_add va i j⟩) n
  rw [List.length_map, List.length_range]

/-- What a completed write hands to `con_send_raw` is the buffer it reports,
expanded, if and only if it was asked for no more than one call writes.  The
buffer is what loads find in it once it is resident; below kernel space that is
what lay in it before. -/
theorem consoleWrite_reports_iff {net : Net} {n : Nat} {tpc : U32} {handed : List (List U8)}
    {m' : Machine} (hcon : m.con.Online)
    (h : m.consoleWrite net n tpc = some (.done handed m')) :
    m'.rd 2 = m.rd 4 ∧
      (∃ k, m.ubufFault n (m.rd 3) (writeTotal (m.rd 4)) false tpc = some (false, k) ∧
        (handed.flatten = expand (k.loads (m.rd 3) (m'.rd 2).toNat).1 ↔ m.rd 4 ≤ WRITE_CAP)) ∧
      (m.mem.realmm = true → m.xlatWrite = false →
        (m.rd 3).toNat + (writeTotal (m.rd 4)).toNat ≤ 0xC0000000 →
        (handed.flatten = expand (m.userBuffer (m.rd 3) (m'.rd 2).toNat) ↔
          m.rd 4 ≤ WRITE_CAP)) := by
  obtain ⟨hret, k, hfault, hhanded⟩ := consoleWrite_done hcon h
  rw [hret, hhanded]
  refine ⟨rfl, ⟨k, hfault, ?_⟩, fun hreal hwrite hrange => ?_⟩
  · exact expand_eq_iff (fun i => (k.loads (m.rd 3) i).1)
      (fun i j => ⟨_, length_loads _ _ _, loads_add k (m.rd 3) i j⟩) (m.rd 4)
  · have hcap : (writeTotal (m.rd 4)).toNat ≤ 2 ^ 20 := by
      rw [toNat_writeTotal]
      exact Nat.min_le_right _ _
    rw [loads_approved hreal hwrite hcap hrange hfault]
    exact userBuffer_eq_iff m (m.rd 3) (m.rd 4)

/-! ## A write beyond the cap -/

/-- Tables that map the user pages from `0` on to the frames from `0x00500000` on;
every byte there is the low byte of its address. -/
def mirrored : Mem :=
  Mem.w32 ⟨true, fun p o =>
    if p = 0x120 then byteOf 0x00121001 (o.toNat % 4)
    else if p = 0x121 then byteOf (0x00500001 + (o >>> 2) * 0x1000) (o.toNat % 4)
    else o.setWidth 8⟩ (0xFFF7E000 + CMMU_UAPR) 0x00120001

/-- A user process about to write `len` bytes at `0x1000` to its console. -/
def writer (len : U32) : Machine :=
  { Machine.fresh with
    mem := mirrored
    cpu := { Cpu.blank with
      r := fun n => if n = 2 then 1 else if n = 3 then 0x1000 else if n = 4 then len else 0 }
    con := { Console.initial true false ⟨[], []⟩ ⟨[], []⟩ with attached := true } }

def taker : Net := ⟨true, fun _ p => p.length⟩

def Written.isDone : Written → Bool
  | .done _ _ => true
  | _ => false

theorem exists_done {w : Option Written} (h : w.map Written.isDone = some true) :
    ∃ handed m', w = some (.done handed m') := by
  rcases w with _ | (_ | _ | ⟨handed, m'⟩)
  · exact nomatch h
  · exact nomatch h
  · exact nomatch h
  · exact ⟨handed, m', rfl⟩

theorem writer_short : ((writer 12).consoleWrite taker 2 0x2000).map Written.isDone = some true := by
  decide +kernel

/-- Twelve bytes, an LF among them. -/
theorem writer_reports : ∃ handed m',
    (writer 12).consoleWrite taker 2 0x2000 = some (.done handed m') ∧
      handed.flatten = [0, 1, 2, 3, 4, 5, 6, 7, 8, 9, 13, 10, 11] := by
  obtain ⟨handed, m', h⟩ := exists_done writer_short
  obtain ⟨hret, -, huser⟩ := consoleWrite_reports_iff ⟨rfl, rfl⟩ h
  refine ⟨handed, m', h, ?_⟩
  rw [(huser rfl rfl (by decide)).2 (by decide), hret]
  decide +kernel

theorem writer_mapped : ∀ i < bufSpan 0x1000 (writeTotal 0x100001),
    ¬0xC0000000 ≤ bufPage 0x1000 i ∧
      ((writer 0x100001).walked (bufPage 0x1000 i) false).isSome = true ∧
        ((writer 0x100001).translate (bufPage 0x1000 i) false).1 ≠ 0 := by
  decide +kernel

/-- One byte more than the cap: the count says that it was sent. -/
theorem writer_overlong : ∃ n handed m',
    (writer 0x100001).consoleWrite taker n 0x2000 = some (.done handed m') ∧
      m'.rd 2 = 0x100001 ∧
      handed.flatten = expand ((writer 0x100001).userBuffer 0x1000 0x100000) ∧
      handed.flatten ≠ expand ((writer 0x100001).userBuffer 0x1000 (m'.rd 2).toNat) := by
  have happroved : ∃ n k, ubufFault n (writer 0x100001) 0x1000 (writeTotal 0x100001) false 0x2000 =
      some (false, k) := ubufFault_of_mapped rfl (by decide) writer_mapped
  obtain ⟨n, k, hfault⟩ := happroved
  obtain ⟨handed, m', h⟩ := consoleWrite_of_approved taker rfl hfault
  obtain ⟨hret, k', hfault', hhanded⟩ := consoleWrite_done ⟨rfl, rfl⟩ h
  have hsent := hhanded.trans
    (congrArg expand (loads_approved rfl rfl (by decide) (by decide) hfault'))
  refine ⟨n, handed, m', h, hret, hsent, ?_⟩
  rw [hsent, hret]
  exact mt (userBuffer_eq_iff (writer 0x100001) 0x1000 0x100001).1 (by decide)

end Machine

end Nx88
