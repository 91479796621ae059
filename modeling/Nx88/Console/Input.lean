import Nx88.Console.Write
/-!
# Console input

`con_input_avail`, `con_read_raw` and `con_read_line` on the machine's console.  The
socket side is the reader of the telnet wire, with the echo that it sends; the stdio
side has a buffer of its own.
-/

namespace Nx88

open Console

/-! ## Wires -/

namespace Wire

def look (w : Wire) : Wire := ⟨w.queue ++ w.later.headD [], w.later.tail⟩

def waitFor (queue : List U8) : List (List U8) → Wire
  | [] => ⟨queue, []⟩
  | b :: later => if queue = [] then waitFor b later else ⟨queue, b :: later⟩

def wait (w : Wire) : Wire := waitFor w.queue w.later

/-- The bytes as batches of the given lengths; what is left over comes last. -/
def batches (bytes : List U8) : List Nat → List (List U8)
  | [] => if bytes = [] then [] else [bytes]
  | n :: ns => bytes.take n :: batches (bytes.drop n) ns

end Wire

namespace Console

/-! ## The socket -/

/-- The telnet reader's view of the console.  A receive without a client fails. -/
def reader (c : Console) : Con where
  pushback := c.pushback
  wire := if c.attached then c.sock.queue ++ c.sock.later.flatten else []
  arrived := if c.attached then c.sock.queue.length else 0
  arrivals := if c.attached then c.sock.later.map List.length else []
  eof := c.eof
  line := c.line.drop c.linePos

def withReader (c : Console) (k : Con) : Console :=
  { c with
    pushback := k.pushback
    eof := k.eof
    line := k.line
    linePos := 0
    sock :=
      if c.attached then ⟨k.wire.take k.arrived, Wire.batches (k.wire.drop k.arrived) k.arrivals⟩
      else c.sock }

/-- What `con_cook_line` sends back while it takes these bytes, with `n` bytes of the
line so far: the line end, the rubout, or the character. -/
def echo (cap : Nat) (n : Nat) : List U8 → List (List U8)
  | [] => []
  | b :: rest =>
    if b = CR ∨ b = LF then [[CR, LF]]
    else if b = 4 then []
    else if b = 0 then echo cap n rest
    else if b = 0x7F ∨ b = 0x08 then
      if 0 < n then [0x08, 0x20, 0x08] :: echo cap (n - 1) rest else echo cap n rest
    else if n < cap then
      if 0x20 ≤ b ∨ b = 0x09 then [b] :: echo cap (n + 1) rest else echo cap (n + 1) rest
    else echo cap n rest

def conSockRead (net : Net) (c : Console) (max : Nat) : List U8 × Console :=
  let read := c.reader.conSockRead max
  let sent := (echo Con.CON_LINE 0 read.taken).foldl (conSendRaw net) c
  (read.dst, { sent.withReader read.con with eof := sent.eof || read.con.eof })

/-! ## Both transports -/

/-- `con_std_getc`: the buffer is filled by one `read` of up to 512 bytes. -/
def conStdGetc (c : Console) : Option U8 × Console :=
  match c.stdBuf.drop c.stdPos with
  | b :: _ => (some b, { c with stdPos := c.stdPos + 1 })
  | [] =>
    let w := c.stdin.wait
    match w.queue.take 512 with
    | [] => (none, { c with stdBuf := [], stdPos := 0, stdin := w })
    | b :: rest =>
      (some b, { c with stdBuf := b :: rest, stdPos := 1, stdin := ⟨w.queue.drop 512, w.later⟩ })

def conInputAvail (net : Net) (c : Console) : Nat × Console :=
  let n := c.pushback.toList.length + (c.line.length - c.linePos)
  if c.eof then (if n = 0 then 1 else n, c)
  else if c.useSock then
    let c := c.conEnsureClient net
    if ¬c.attached then (n, c)
    else (n + c.sock.look.queue.length, { c with sock := c.sock.look })
  else
    (n + (c.stdBuf.length - c.stdPos) + c.stdin.look.queue.length, { c with stdin := c.stdin.look })

def conInKey (c : Console) : Option U8 × Console :=
  if c.useSock then
    let (b, k) := c.reader.conInKey
    (b, c.withReader k)
  else c.conStdGetc

/-- The drain of `con_read_raw`: keys while some are ready. -/
def readRawLoop (net : Net) (c : Console) : Nat → List U8 × Console
  | 0 => ([], c)
  | n + 1 =>
    let (avail, c) := c.conInputAvail net
    if avail = 0 then ([], c)
    else
      match c.conInKey with
      | (none, c) => ([], c)
      | (some b, c) =>
        let (more, c) := c.readRawLoop net n
        (b :: more, c)

def conReadRaw (net : Net) (c : Console) (max : Nat) : List U8 × Console :=
  let c := c.conEnsureClient net
  match max with
  | 0 => ([], c)
  | n + 1 =>
    match c.conInKey with
    | (none, c) => ([], c)
    | (some b, c) =>
      let (more, c) := c.readRawLoop net n
      (b :: more, c)

/-- The stdio loop of `con_read_line`: the host's terminal has cooked the line. -/
def stdLine (c : Console) : Nat → List U8 × Console
  | 0 => ([], c)
  | n + 1 =>
    match c.conStdGetc with
    | (none, c) => ([], c)
    | (some b, c) =>
      if b = LF then ([b], c)
      else
        let (more, c) := c.stdLine n
        (b :: more, c)

def conReadLine (net : Net) (c : Console) (max : Nat) : List U8 × Console :=
  let c := c.conEnsureClient net
  if c.useSock then c.conSockRead net max else c.stdLine max

/-! ## Terminal modes -/

def ttyIsRaw (c : Console) : Bool := c.ttySg.getD 5 0 &&& 0x22 ≠ 0

def hostTtyMode (c : Console) (raw : Bool) : Console :=
  if c.useSock ∨ ¬c.hostIsTty then c else { c with hostRaw := raw }

end Console

end Nx88
