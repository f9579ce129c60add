import Hypersync.Lib.Machine
import Hypersync.Protocol.Frames

/-!
# The cache tap of a transparent bootstrap

`splice_bootstrap_capture` relays an upstream's bootstrap to the node frame by
frame and keeps a copy of what it relays, until the copy is installed as the
cache, grows too large or takes too long.  The copy task is a machine whose events
are the outcomes of its awaits: a read gives some of the bytes the upstream still
has to send, or fails, or times out; a write to the node succeeds, or fails after
some of its bytes; and the clock is read.  The rate of a window is compared in
floating point, so `slower bytes nanos limit` is a parameter.
-/

namespace Hypersync.Gateway

open Protocol

/-! ## 1. The copy task -/

def MAX_ABCI_STATE_FRAME : Nat := 1500000000

def MAX_BOOTSTRAP_CAPTURE_BYTES : Nat := 9000000000

def MAX_TAP_CAPTURE : Nat := 1800000000000

/-- The relay buffer. -/
def RELAY_BUF : Nat := 1048576

/-- Where the task is: at the top of its loop, in one of the three ways to read a header, in a
    write to the node, in the payload loop, or behind a whole frame. -/
inductive TapPc where
  | top
  | header (got : List UInt8)
  | headerOrTimeout (got : List UInt8)
  | finishHeader (got : List UInt8)
  | writeHeader (h : Header) (pre : List UInt8)
  | writePayloadPrefix (h : Header) (pre : List UInt8)
  | chunkTop (h : Header) (remaining : Nat)
  | readChunk (h : Header) (remaining : Nat)
  | writeChunk (h : Header) (remaining : Nat) (chunk : List UInt8)
  | frameDone (h : Header)
  | ended
deriving DecidableEq, Repr

/-- A blob handed to `install_bootstrap_cache`, with the frames counted and what the node had
    been sent by then. -/
structure Installed where
  blob : List UInt8
  frames : Nat
  relayed : List UInt8
deriving DecidableEq, Repr

/-- The task's variables; `rest` are the bytes the upstream still has to send, `node` those
    written to the node. -/
structure Tap where
  pc : TapPc := .top
  first : Option (Header × List UInt8) := none
  rest : List UInt8
  node : List UInt8 := []
  delivered : Nat := 0
  upstreamEnded : Bool := false
  blob : List UInt8 := []
  frames : Nat := 0
  capture : Bool := true
  capturePermit : Bool := true
  captureDeadline : Nat
  win : Nat
  winBytes : Nat := 0
  slow : Nat := 0
  installs : List Installed := []

inductive TapEvent where
  | now (t : Nat)
  | read (n : Nat)
  | timeout
  | fail
  | wrote
  | writeFailed (n : Nat)
  | window (elapsedAt restartAt : Nat)
deriving DecidableEq, Repr

namespace Tap

def start (firstHdr : Header) (firstPayloadPrefix upstream : List UInt8) (at_ : Nat) : Tap where
  first := some (firstHdr, firstPayloadPrefix)
  rest := upstream
  captureDeadline := at_ + MAX_TAP_CAPTURE
  win := at_

/-! ## 2. Between two awaits -/

/-- `break` or `return`. -/
def stop (s : Tap) : Tap := { s with pc := .ended }

def upstreamGone (s : Tap) : Tap := { s with pc := .ended, upstreamEnded := true }

/-- `install_bootstrap_cache(std::mem::take(&mut blob), ..)` -/
def install (s : Tap) : Tap :=
  { s with blob := [], installs := s.installs ++ [⟨s.blob, s.frames, s.node⟩] }

def dropCapture (s : Tap) : Tap := { s with blob := [], capture := false }

/-- `drop_slow_capture!` -/
def dropSlowCapture (now : Nat) (s : Tap) : Tap :=
  if s.capture ∧ s.captureDeadline ≤ now then { s.dropCapture with capturePermit := false } else s

def complete (s : Tap) : Bool := s.capture && completeBootstrapAtFrameBoundary s.blob.length s.frames

/-- A write of `bytes` to the node succeeded. -/
def relay (s : Tap) (bytes : List UInt8) : Tap :=
  { s with
    node := s.node ++ bytes
    delivered := s.delivered + bytes.length
    blob := if s.capture then s.blob ++ bytes else s.blob }

/-- A write of `bytes` to the node failed after `n` of them. -/
def relayFailed (s : Tap) (bytes : List UInt8) (n : Nat) : Tap :=
  { s with node := s.node ++ bytes.take n }.stop

/-- The header is there: its length is checked, and whether the frame still fits the capture. -/
def onHeader (s : Tap) (h : Header) (pre : List UInt8) : Tap :=
  if MAX_ABCI_STATE_FRAME < h.len then s.upstreamGone
  else
    let s :=
      if s.capture ∧ MAX_BOOTSTRAP_CAPTURE_BYTES < s.blob.length + 5 + h.len then s.dropCapture else s
    { s with pc := .writeHeader h pre }

/-- `while remaining > 0`. -/
def payloadLoop (s : Tap) (h : Header) (remaining : Nat) : Tap :=
  { s with pc := if remaining = 0 then .frameDone h else .chunkTop h remaining }

/-- The header was written. -/
def onHeaderWritten (s : Tap) (h : Header) (pre : List UInt8) : Tap :=
  if pre = [] then s.payloadLoop h h.len
  else if h.len < pre.length then s.upstreamGone
  else { s with pc := .writePayloadPrefix h pre }

/-- The top of the loop: the first header is at hand, or one is read. -/
def onTop (s : Tap) (now : Nat) : Tap :=
  let s := s.dropSlowCapture now
  let s := if s.capture then s else { s with capturePermit := false }
  match s.first with
  | some (h, pre) => { s with first := none }.onHeader h pre
  | none => { s with pc := if s.complete then .headerOrTimeout [] else .header [] }

variable (slower : Nat → Nat → Nat → Bool)

/-- Behind a whole frame: the size of the capture, and whether the bulk transfer has ended. -/
def onFrameDone (s : Tap) (h : Header) (elapsedAt restartAt : Nat) : Tap :=
  let s := { s with frames := s.frames + 1, pc := .top }
  if s.capture then
    if MAX_BOOTSTRAP_CAPTURE_BYTES < s.blob.length then s.dropCapture
    else
      let s := { s with winBytes := s.winBytes + 5 + h.len }
      let elapsed := elapsedAt - s.win
      if 1500000000 ≤ elapsed then
        let s :=
          if 1500000000 < s.blob.length ∧ slower s.winBytes elapsed 400000 then
            let s := { s with slow := s.slow + 1 }
            if 8 ≤ s.slow ∧ completeBootstrapAtFrameBoundary s.blob.length s.frames then
              { s.install with capture := false }
            else s
          else { s with slow := 0 }
        { s with win := restartAt, winBytes := 0 }
      else s
  else s

/-- A read of `n` bytes into room for `room`. -/
def read? (s : Tap) (n room : Nat) : Option (List UInt8 × Tap) :=
  if 0 < n ∧ n ≤ room ∧ n ≤ s.rest.length then some (s.rest.take n, { s with rest := s.rest.drop n })
  else none

/-- More bytes of a header; with five of them it is complete. -/
def readHeader (s : Tap) (pc : List UInt8 → TapPc) (got : List UInt8) (n : Nat) : Option Tap :=
  (s.read? n (5 - got.length)).map fun (bytes, s) =>
    match Header.ofBytes (got ++ bytes) with
    | some h => s.onHeader h []
    | none => { s with pc := pc (got ++ bytes) }

/-! ## 3. Steps -/

def step (s : Tap) (e : TapEvent) : Option Tap :=
  match s.pc, e with
  | .top, .now t => some (s.onTop t)
  -- `ur.read_exact(&mut hdr)` under the idle limit
  | .header got, .read n => s.readHeader .header got n
  | .header _, .timeout | .header _, .fail =>
    some (if s.complete then s.install.upstreamGone else s.upstreamGone)
  -- `read_header_or_timeout`
  | .headerOrTimeout got, .read n => s.readHeader .headerOrTimeout got n
  | .headerOrTimeout got, .timeout => some { s.install with capture := false, pc := .finishHeader got }
  | .headerOrTimeout _, .fail => some s.install.upstreamGone
  -- `finish_header_after_partial`
  | .finishHeader got, .read n => s.readHeader .finishHeader got n
  | .finishHeader _, .timeout | .finishHeader _, .fail => some s.upstreamGone
  | .writeHeader h pre, .wrote => some ((s.relay h.bytes).onHeaderWritten h pre)
  | .writeHeader h _, .writeFailed n => some (s.relayFailed h.bytes n)
  | .writePayloadPrefix h pre, .wrote => some ((s.relay pre).payloadLoop h (h.len - pre.length))
  | .writePayloadPrefix _ pre, .writeFailed n => some (s.relayFailed pre n)
  | .chunkTop h remaining, .now t => some { s.dropSlowCapture t with pc := .readChunk h remaining }
  | .readChunk h remaining, .read n =>
    (s.read? n (min remaining RELAY_BUF)).map fun (bytes, s) => { s with pc := .writeChunk h remaining bytes }
  | .readChunk _ _, .timeout | .readChunk _ _, .fail => some s.upstreamGone
  | .writeChunk h remaining chunk, .wrote => some ((s.relay chunk).payloadLoop h (remaining - chunk.length))
  | .writeChunk _ _ chunk, .writeFailed n => some (s.relayFailed chunk n)
  | .frameDone h, .window elapsedAt restartAt => some (s.onFrameDone slower h elapsedAt restartAt)
  | _, _ => none

end Tap

end Hypersync.Gateway
