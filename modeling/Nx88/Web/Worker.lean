import Nx88.Memory
import Nx88.Lib.Runs
/-!
# The browser worker

In a tab the emulator runs in a worker: a start-up chain of awaits, and a
message handler that may run in any of them.  A turn is one stretch of code
between two awaits, or one message handled.
-/

namespace Nx88.Web

open Lib.Runs

/-! ## The ring behind the console -/

def WEBIN_CAP : Nat := 8192

/-- `webin[webin_r .. webin_w]` and the end-of-input flag. -/
structure Ring where
  webin : List U8
  webinEof : Bool
deriving Repr, DecidableEq

namespace Ring

def push (r : Ring) (b : U8) : Ring :=
  if r.webin.length < WEBIN_CAP then { r with webin := r.webin ++ [b] } else r

def nxWebPush (r : Ring) (p : List U8) : Ring := p.foldl push r

def nxWebEof (r : Ring) : Ring := { r with webinEof := true }

/-- What one look of `web_getc` finds. -/
inductive Getc where
  | byte (b : U8)
  | eof
  /-- nothing yet: a nap, during which the worker handles messages -/
  | nap
deriving Repr, DecidableEq

def webGetc (r : Ring) : Getc × Ring :=
  match r.webin with
  | b :: rest => (.byte b, { r with webin := rest })
  | [] => if r.webinEof then (.eof, r) else (.nap, r)

end Ring

/-! ## The worker -/

inductive Phase where
  | idle
  /-- `start` awaits `createNx88` -/
  | loading
  /-- `start` awaits the fetch of this many more images -/
  | staging (files : Nat)
  /-- `start` awaits `nx_web_run` -/
  | running
  | exited
  | failed
deriving Repr, DecidableEq

/-- What the page's start message says about the images. -/
structure StartMsg where
  preloaded : Bool
  files : Nat
deriving Repr, DecidableEq

structure Worker where
  phase : Phase
  msg : StartMsg
  /-- `Module` is set -/
  Module : Bool
  pendingInput : List (List U8)
  ring : Ring
deriving Repr, DecidableEq

/-- A call across the module's boundary. -/
inductive Ccall where
  | nxWebPush (bytes : List U8)
  | nxWebEof
deriving Repr, DecidableEq

inductive Turn where
  | start (msg : StartMsg)
  | input (data : List U8)
  | eof
  /-- `createNx88` resolves -/
  | created
  /-- the fetch of one image resolves -/
  | fetched
  /-- `createNx88` or a fetch rejects -/
  | rejected
  /-- the machine looks for a typed byte -/
  | getc
  /-- `nx_web_run` settles -/
  | settled
deriving Repr, DecidableEq

namespace Worker

def init : Worker :=
  ⟨.idle, ⟨false, 0⟩, false, [], ⟨[], false⟩⟩

def ccall (w : Worker) : Ccall → Worker
  | .nxWebPush bytes => { w with ring := w.ring.nxWebPush bytes }
  | .nxWebEof => { w with ring := w.ring.nxWebEof }

def pushInput (w : Worker) (bytes : List U8) : Worker × List Ccall :=
  if w.Module = false then ({ w with pendingInput := w.pendingInput ++ [bytes] }, [])
  else (w.ccall (.nxWebPush bytes), [.nxWebPush bytes])

/-- `for (const b of pendingInput) pushInput(b);` -/
def pushAll (w : Worker) : List (List U8) → Worker × List Ccall
  | [] => (w, [])
  | b :: rest =>
    let (w, calls) := w.pushInput b
    let (w, more) := w.pushAll rest
    (w, calls ++ more)

/-- The end of `start`: drain the pending list and run. -/
def drain (w : Worker) : Worker × List Ccall :=
  let (w, calls) := w.pushAll w.pendingInput
  ({ w with pendingInput := [], phase := .running }, calls)

def turn (w : Worker) : Turn → Worker × List Ccall
  | .start msg => ({ w with phase := .loading, msg := msg }, [])
  | .input data => w.pushInput data
  | .eof => if w.Module then (w.ccall .nxWebEof, [.nxWebEof]) else (w, [])
  | .created =>
    let w := { w with Module := true }
    -- with nothing to fetch there is no further await
    if w.msg.preloaded ∨ w.msg.files = 0 then w.drain
    else ({ w with phase := .staging w.msg.files }, [])
  | .fetched =>
    match w.phase with
    | .staging (n + 2) => ({ w with phase := .staging (n + 1) }, [])
    | _ => w.drain
  | .rejected => ({ w with phase := .failed }, [])
  | .getc => ({ w with ring := w.ring.webGetc.2 }, [])
  | .settled => ({ w with phase := .exited }, [])

end Worker

/-! ## Runs -/

namespace Turn

def run (t : Turn) (w : Worker) : Worker := (w.turn t).1

def calls (t : Turn) (w : Worker) : List Ccall := (w.turn t).2

/-- When a turn can come: messages at any time, the others when awaited.  The
page posts one start message to a worker. -/
def Enabled : Turn → Worker → Prop
  | start _, w => w.phase = .idle
  | created, w => w.phase = .loading
  | fetched, w => ∃ n, w.phase = .staging (n + 1)
  | rejected, w => w.phase = .loading ∨ ∃ n, w.phase = .staging (n + 1)
  | getc, w => w.phase = .running
  | settled, w => w.phase = .running
  | _, _ => True

def bytes : Turn → List U8
  | input data => data
  | _ => []

def eofs : Turn → List Unit
  | eof => [()]
  | _ => []

end Turn

/-- A run of a fresh worker. -/
abbrev Run (ts : List Turn) : Prop := Along Turn.run Turn.Enabled .init ts

def Worker.Begun (w : Worker) : Prop := w.phase = .running ∨ w.phase = .exited

instance : DecidablePred Worker.Begun := fun w => by unfold Worker.Begun; infer_instance

def Ccall.bytes : Ccall → List U8
  | nxWebPush bytes => bytes
  | nxWebEof => []

def Ccall.eofs : Ccall → List Unit
  | nxWebPush _ => []
  | nxWebEof => [()]

def posted (ts : List Turn) : List U8 := ts.flatMap Turn.bytes

def pushed (w : Worker) (ts : List Turn) : List U8 :=
  trace Turn.run (fun t w => (t.calls w).flatMap Ccall.bytes) w ts

def eofCalls (w : Worker) (ts : List Turn) : Nat :=
  (trace Turn.run (fun t w => (t.calls w).flatMap Ccall.eofs) w ts).length

/-- Every byte posted was pushed, in order and once; every eof reached the
module, and the machine was told of the end only after all input posted before. -/
structure Delivered (ts : List Turn) : Prop where
  bytes : pushed .init ts = posted ts
  eofs : eofCalls .init ts = (ts.flatMap Turn.eofs).length
  after : ∀ us vs, ts = us ++ .getc :: vs →
    (after Turn.run .init us).ring.webGetc.1 = .eof → pushed .init us = posted us

end Nx88.Web
