import Nx88.Memory
/-!
# Console input over telnet

The socket console: the byte source with its one-byte pushback, the telnet
parser over it, and the cooked and the raw reader over that.  Bytes arrive as
the network brings them; a receive waits for one, a look at the socket does not.
-/

namespace Nx88.Console

def CR : U8 := 13
def LF : U8 := 10
def IAC : U8 := 255
def SB : U8 := 250
def SE : U8 := 240

/-- The socket console and what is on its way to it. -/
structure Con where
  /-- `con_pushback`; none is -1 -/
  pushback : Option U8
  /-- what the client sends and the console has not received; then it hangs up -/
  wire : List U8
  /-- how many of these the socket holds -/
  arrived : Nat
  /-- how many arrive before each look at the socket -/
  arrivals : List Nat
  /-- `con_eof` -/
  eof : Bool
  /-- `con_line` from `con_line_pos` on -/
  line : List U8
deriving Repr, DecidableEq

namespace Con

def conRecvRaw (c : Con) : Option U8 × Con :=
  match c.pushback with
  | some b => (some b, { c with pushback := none })
  | none =>
    match c.wire with
    | [] => (none, { c with eof := true })
    | b :: rest => (some b, { c with wire := rest, arrived := c.arrived - 1 })

/-- The loop over a subnegotiation; false when the client hangs up in it. -/
def skipSub (c : Con) : Nat → Bool × Con
  | 0 => (false, c)
  | n + 1 =>
    match c.conRecvRaw with
    | (none, c) => (false, c)
    | (some d, c) =>
      if d = IAC then
        match c.conRecvRaw with
        | (none, c) => (false, c)
        | (some e, c) => if e = SE then (true, c) else c.skipSub n
      else c.skipSub n

def inByteLoop (c : Con) : Nat → Option U8 × Con
  | 0 => (none, c)
  | n + 1 =>
    match c.conRecvRaw with
    | (none, c) => (none, c)
    | (some b, c) =>
      if b ≠ IAC then (some b, c)
      else
        match c.conRecvRaw with
        | (none, c) => (none, c)
        | (some d, c) =>
          if d = IAC then (some IAC, c)
          else if 251 ≤ d ∧ d ≤ 254 then c.conRecvRaw.2.inByteLoop n
          else if d = SB then
            match c.skipSub n with
            | (false, c) => (none, c)
            | (true, c) => c.inByteLoop n
          else c.inByteLoop n

def held (c : Con) : List U8 := c.pushback.toList ++ c.wire

/-- One input byte with telnet sequences consumed.  Every pass receives a byte,
so there are no more passes than bytes. -/
def conInByte (c : Con) : Option U8 × Con := c.inByteLoop (c.held.length + 1)

/-- Read on past a CR: a paired LF or NUL is dropped, another byte put back. -/
def absorb (c : Con) : Con :=
  match c.conInByte with
  | (some nx, c) => if nx ≠ LF ∧ nx ≠ 0 then { c with pushback := some nx } else c
  | (none, c) => c

def look (c : Con) : Con :=
  { c with
    arrived := min c.wire.length (c.arrived + c.arrivals.headD 0)
    arrivals := c.arrivals.tail }

def conInputAvail (c : Con) : Nat × Con :=
  let n := c.pushback.toList.length + c.line.length
  if c.eof then (if n = 0 then 1 else n, c)
  else (n + c.look.arrived, c.look)

def conInputReady (c : Con) : Bool × Con :=
  let (n, c) := c.conInputAvail
  (n != 0, c)

/-! ## The cooked reader -/

/-- What `con_cook_line` leaves: the line, the bytes it took as input, and the
console. -/
structure Cooked where
  dst : List U8
  taken : List U8
  con : Con

def cookLoop (c : Con) (cap : Nat) (dst : List U8) : Nat → Cooked
  | 0 => ⟨dst, [], c⟩
  | n + 1 =>
    match c.conInByte with
    | (none, c) => ⟨dst, [], c⟩
    | (some b, c) =>
      if b = CR ∨ b = LF then
        let c := if b = CR then c.absorb else c
        ⟨if dst.length < cap then dst ++ [LF] else dst, [b], c⟩
      else if b = 4 then ⟨dst, [b], c⟩
      else
        let dst :=
          if b = 0 then dst
          else if b = 0x7F ∨ b = 0x08 then dst.dropLast
          else if dst.length < cap then dst ++ [b] else dst
        let more := c.cookLoop cap dst n
        { more with taken := b :: more.taken }

def conCookLine (c : Con) (cap : Nat) : Cooked := c.cookLoop cap [] (c.held.length + 1)

def CON_LINE : Nat := 4100

def conSockRead (c : Con) (max : Nat) : Cooked :=
  match c.line with
  | [] =>
    let cooked := c.conCookLine CON_LINE
    ⟨cooked.dst.take max, cooked.taken, { cooked.con with line := cooked.dst.drop max }⟩
  | line => ⟨line.take max, [], { c with line := line.drop max }⟩

/-! ## The raw reader -/

def conInKey (c : Con) : Option U8 × Con :=
  match c.conInByte with
  | (none, c) => (none, c)
  | (some b, c) =>
    if b = CR then
      let (ready, c) := c.conInputReady
      (some b, if ready then c.absorb else c)
    else (some b, c)

/-- The drain of `con_read_raw`: keys while some are ready. -/
def readRawLoop (c : Con) : Nat → List U8 × Con
  | 0 => ([], c)
  | n + 1 =>
    match c.conInputReady with
    | (false, c) => ([], c)
    | (true, c) =>
      match c.conInKey with
      | (none, c) => ([], c)
      | (some b, c) =>
        let (more, c) := c.readRawLoop n
        (b :: more, c)

def conReadRaw (c : Con) (max : Nat) : List U8 × Con :=
  match max with
  | 0 => ([], c)
  | n + 1 =>
    match c.conInKey with
    | (none, c) => ([], c)
    | (some b, c) =>
      let (more, c) := c.readRawLoop n
      (b :: more, c)

end Con

end Nx88.Console
