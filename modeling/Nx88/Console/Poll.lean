import Nx88.Console.Telnet
/-!
# Polling for input

`con_input_avail`, which answers FIONREAD, and the raw reader, at one moment: what
has arrived has arrived, and a receive that finds nothing would have to wait.
-/

namespace Nx88.Console

/-- What the console is attached to: a telnet client, the page's ring, or stdin. -/
inductive Transport where
  | socket
  | ring
  | stdio
deriving DecidableEq, Repr

/-- The console's input at one moment. -/
structure Moment where
  transport : Transport
  /-- a client is attached to the socket -/
  attached : Bool
  /-- how an accept would end now; none while no client has come -/
  knock : Option Bool
  /-- `con_eof` -/
  eof : Bool
  /-- `con_pushback`; none is -1 -/
  pushback : Option U8
  /-- `con_line` from `con_line_pos` on -/
  line : List U8
  /-- the bytes that have arrived: in the socket, in the ring, or in the buffer of
  stdin and behind it -/
  queue : List U8
  /-- the other side has closed: nothing will come after these -/
  closed : Bool
deriving DecidableEq, Repr

namespace Moment

/-! ## The code -/

def conEnsureClient (m : Moment) : Option Moment :=
  if m.transport ≠ .socket ∨ m.attached ∨ m.eof then some m
  else m.knock.map fun comes => if comes then { m with attached := true } else { m with eof := true }

/-- `con_recv_raw`; none where it would wait.  A receive without a socket fails. -/
def conRecvRaw (m : Moment) : Option (Option U8 × Moment) :=
  match m.pushback with
  | some b => some (some b, { m with pushback := none })
  | none =>
    if m.transport = .socket ∧ ¬m.attached then some (none, { m with eof := true })
    else
      match m.queue with
      | b :: rest => some (some b, { m with queue := rest })
      | [] => if m.closed then some (none, { m with eof := true }) else none

/-- The loop over a subnegotiation; false when the client hangs up in it. -/
def skipSub (m : Moment) : Nat → Option (Bool × Moment)
  | 0 => none
  | n + 1 =>
    m.conRecvRaw.bind fun (d, m) =>
      match d with
      | none => some (false, m)
      | some d =>
        if d = IAC then
          m.conRecvRaw.bind fun (e, m) =>
            match e with
            | none => some (false, m)
            | some e => if e = SE then some (true, m) else m.skipSub n
        else m.skipSub n

def inByteLoop (m : Moment) : Nat → Option (Option U8 × Moment)
  | 0 => none
  | n + 1 =>
    m.conRecvRaw.bind fun (b, m) =>
      match b with
      | none => some (none, m)
      | some b =>
        if b ≠ IAC then some (some b, m)
        else
          m.conRecvRaw.bind fun (d, m) =>
            match d with
            | none => some (none, m)
            | some d =>
              if d = IAC then some (some IAC, m)
              else if 251 ≤ d ∧ d ≤ 254 then m.conRecvRaw.bind fun (_, m) => m.inByteLoop n
              else if d = SB then
                (m.skipSub n).bind fun (ended, m) =>
                  if ended then m.inByteLoop n else some (none, m)
              else m.inByteLoop n

def held (m : Moment) : List U8 := m.pushback.toList ++ m.queue

/-- `con_in_byte`; on the page's wire there is no telnet.  Every pass but the last
receives a byte, so there are no more passes than bytes and one. -/
def conInByte (m : Moment) : Option (Option U8 × Moment) :=
  if m.transport = .ring then m.conRecvRaw else m.inByteLoop (m.held.length + 2)

/-- `con_input_avail`; none while it waits for a client. -/
def conInputAvail (m : Moment) : Option (Nat × Moment) :=
  let n := m.pushback.toList.length + m.line.length
  if m.eof then some (if n = 0 then 1 else n, m)
  else
    match m.transport with
    | .ring =>
      let n := n + m.queue.length
      some (if n = 0 ∧ m.closed then 1 else n, m)
    | .stdio => some (n + m.queue.length, m)
    | .socket =>
      m.conEnsureClient.map fun m => (if m.attached then n + m.queue.length else n, m)

def conInputReady (m : Moment) : Option (Bool × Moment) :=
  m.conInputAvail.map fun (n, m) => (n ≠ 0, m)

def conStdGetc (m : Moment) : Option (Option U8 × Moment) :=
  match m.queue with
  | b :: rest => some (some b, { m with queue := rest })
  | [] => if m.closed then some (none, m) else none

/-- Read on past a CR: a paired LF or NUL is dropped, another byte put back. -/
def absorb (m : Moment) : Option Moment :=
  m.conInByte.map fun (nx, m) =>
    match nx with
    | some nx => if nx ≠ LF ∧ nx ≠ 0 then { m with pushback := some nx } else m
    | none => m

def conInKey (m : Moment) : Option (Option U8 × Moment) :=
  (if m.transport = .stdio then m.conStdGetc else m.conInByte).bind fun (b, m) =>
    match b with
    | none => some (none, m)
    | some b =>
      if b = CR ∧ m.transport ≠ .stdio then
        m.conInputReady.bind fun (ready, m) =>
          if ready then m.absorb.map fun m => (some b, m) else some (some b, m)
      else some (some b, m)

/-- The drain of `con_read_raw`: keys while some are ready. -/
def readRawLoop (m : Moment) : Nat → Option (List U8 × Moment)
  | 0 => some ([], m)
  | n + 1 =>
    m.conInputReady.bind fun (ready, m) =>
      if ready then
        m.conInKey.bind fun (c, m) =>
          match c with
          | none => some ([], m)
          | some c => (m.readRawLoop n).map fun (more, m) => (c :: more, m)
      else some ([], m)

def conReadRaw (m : Moment) (max : Nat) : Option (List U8 × Moment) :=
  m.conEnsureClient.bind fun m =>
    match max with
    | 0 => some ([], m)
    | n + 1 =>
      m.conInKey.bind fun (b, m) =>
        match b with
        | none => some ([], m)
        | some b => (m.readRawLoop n).map fun (more, m) => (b :: more, m)

/-- `con_input_avail` says that there is something to read. -/
def Reports (m : Moment) : Prop := ∃ n m', m.conInputAvail = some (n, m') ∧ n ≠ 0

/-- A raw read of up to `max` bytes returns without waiting. -/
def ReadsAtOnce (m : Moment) (max : Nat) : Prop := (m.conReadRaw max).isSome = true

/-- What is reported can be read, and what can be read is reported. -/
def Truthful (m : Moment) : Prop :=
  ∀ max, 1 ≤ max → (m.Reports → m.ReadsAtOnce max) ∧ (m.ReadsAtOnce max → m.Reports)

end Moment

/-! ## Where the bytes that have arrived end -/

/-- Where a reader of telnet is: behind a keystroke, behind a command, or in one. -/
inductive Phase where
  | key
  | command
  | iac
  | option
  | sub
  | subIac
deriving DecidableEq, Repr

/-- `cr` while the byte behind a CR may still belong to it. -/
structure Scan where
  cr : Bool
  phase : Phase
deriving DecidableEq, Repr

namespace Scan

/-- A keystroke's byte.  Behind a CR it is put back unless it belongs to it, and
a 0xFF that was put back reads as the start of a command. -/
def data (cr : Bool) (b : U8) : Scan :=
  if cr = true ∧ (b = LF ∨ b = 0) then ⟨false, .key⟩
  else if cr = true ∧ b = IAC then ⟨false, .iac⟩
  else ⟨b = CR, .key⟩

def step (s : Scan) (b : U8) : Scan :=
  match s.phase with
  | .key | .command => if b = IAC then ⟨s.cr, .iac⟩ else data s.cr b
  | .iac =>
    if b = IAC then data s.cr IAC
    else if 251 ≤ b ∧ b ≤ 254 then ⟨s.cr, .option⟩
    else if b = SB then ⟨s.cr, .sub⟩
    else ⟨s.cr, .command⟩
  | .option => ⟨s.cr, .command⟩
  | .sub => ⟨s.cr, if b = IAC then .subIac else .sub⟩
  | .subIac => ⟨s.cr, if b = SE then .command else .sub⟩

def run (s : Scan) (bytes : List U8) : Scan := bytes.foldl step s

end Scan

/-- The bytes end with a keystroke: no telnet command is behind the last one. -/
def EndsWithKey (bytes : List U8) : Prop := (Scan.run ⟨false, .key⟩ bytes).phase = .key

instance (bytes : List U8) : Decidable (EndsWithKey bytes) :=
  inferInstanceAs (Decidable (_ = _))

namespace Moment

/-- Something is counted. -/
def Counted (m : Moment) : Prop := m.pushback ≠ none ∨ m.line ≠ [] ∨ m.queue ≠ []

/-- A socket whose client is there, or comes when it is waited for. -/
def SettledClient (m : Moment) : Prop :=
  if m.closed then m.eof = true ∨ m.Counted
  else m.eof = false ∧ m.line = [] ∧ EndsWithKey m.held

/-- Where polling tells the truth.  The other side has closed, and something is
counted, or it has not, and only the bytes are counted that a raw read takes, which
end with a keystroke. -/
def Settled (m : Moment) : Prop :=
  match m.transport with
  | .socket =>
    if m.attached then m.SettledClient
    else if m.eof then True
    else
      match m.knock with
      | none => True
      | some true => m.SettledClient
      | some false => m.pushback ≠ none ∨ m.line ≠ []
  | .ring => m.closed = true ∨ m.eof = false ∧ m.line = []
  | .stdio =>
    if m.closed then m.eof = true ∨ m.Counted
    else m.eof = false ∧ m.pushback = none ∧ m.line = []

end Moment

end Nx88.Console
