import Hypersync.Gateway.Tap
import Hypersync.Lib.KeyMap

/-!
# The bootstrap cache: fetching, installing, persisting, loading

`fetch_bootstrap` captures a whole bootstrap from a state server.  What a capture
leaves is installed in memory if it ends in the live block stream, and written to
disk beside a temporary file; at the next start it is loaded if it is young enough
and passes the checks again.  As in the tap, the fetch is a machine over the
outcomes of its awaits, and `slower bytes nanos limit` stands for the
floating-point comparison of a rate.
-/

namespace Hypersync.Gateway

open Protocol

/-! ## 1. Fetching -/

/-- Why a fetch failed; the number is the length of the frame at hand. -/
inductive FetchReason where
  | connect
  | greet
  | headerFailed
  | headerTimeout
  | notServing (len : Nat)
  | frameTooLarge (len : Nat)
  | captureTooLargeWithNext (len : Nat)
  | tooSlowEarly (len off : Nat)
  | largeFrameFailed (len off : Nat)
  | smallFrameFailed (len : Nat)
  | captureTooLarge
  | tooSlowAfterState
  | bulkEndedEarly
deriving DecidableEq, Repr

/-- `bootstrap_capture_err`: the reason with the bytes and frames captured. -/
structure CaptureError where
  reason : FetchReason
  bytes : Nat
  frames : Nat
deriving DecidableEq, Repr

inductive FetchPc where
  | connect
  | greet
  | header (got : List UInt8)
  | payload (h : Header) (got : List UInt8) (since : Nat)
  | frameDone (h : Header) (payload : List UInt8)
  | returned (result : Except CaptureError (List UInt8))

structure Fetch where
  pc : FetchPc := .connect
  rest : List UInt8
  blob : List UInt8 := []
  first : Bool := true
  t0 : Nat := 0
  win : Nat := 0
  winBytes : Nat := 0
  slow : Nat := 0
  frames : Nat := 0

/-- The outcome of an await; a read carries the clock right after it, and the end of a frame
    the three readings made there. -/
inductive FetchEvent where
  | done (now : Nat)
  | read (n now : Nat)
  | timeout
  | fail
  | window (sinceStart elapsedAt restartAt : Nat)
deriving DecidableEq, Repr

namespace Fetch

def LARGE_FRAME : Nat := 50000000

def MIN_BOOTSTRAP_RATE_BYTES_PER_SEC : Nat := 5000000

def ok (s : Fetch) : Fetch := { s with pc := .returned (.ok s.blob) }

def err (s : Fetch) (reason : FetchReason) : Fetch :=
  { s with pc := .returned (.error ⟨reason, s.blob.length, s.frames⟩) }

/-- The checks on a header before its payload is read. -/
def onHeader (s : Fetch) (h : Header) (now : Nat) : Fetch :=
  if s.first ∧ h.len ≤ 4000000 then s.err (.notServing h.len)
  else
    let s := { s with first := false }
    if MAX_ABCI_STATE_FRAME < h.len then s.err (.frameTooLarge h.len)
    else if MAX_BOOTSTRAP_CAPTURE_BYTES < s.blob.length + 5 + h.len then
      s.err (.captureTooLargeWithNext h.len)
    else { s with pc := if h.len = 0 then .frameDone h [] else .payload h [] now }

variable (slower : Nat → Nat → Nat → Bool)

/-- More of a payload; a large one is given up when it comes too slowly. -/
def onPayload (s : Fetch) (h : Header) (got : List UInt8) (since now : Nat) : Fetch :=
  if LARGE_FRAME < h.len ∧ 4000000000 < now - since ∧
      slower got.length (now - since) MIN_BOOTSTRAP_RATE_BYTES_PER_SEC then
    s.err (.tooSlowEarly h.len got.length)
  else { s with pc := if got.length = h.len then .frameDone h got else .payload h got since }

/-- The rate of a window, once it is over. -/
def onWindow (s : Fetch) (elapsedAt restartAt : Nat) : Fetch :=
  let elapsed := elapsedAt - s.win
  let restart (s : Fetch) : Fetch := { s with win := restartAt, winBytes := 0, pc := .header [] }
  if 1500000000 ≤ elapsed then
    if 1500000000 < s.blob.length ∧ slower s.winBytes elapsed 400000 then
      let s := { s with slow := s.slow + 1 }
      if 8 ≤ s.slow then
        if completeBootstrapAtFrameBoundary s.blob.length s.frames then s.ok else s.err .bulkEndedEarly
      else restart s
    else restart { s with slow := 0 }
  else { s with pc := .header [] }

/-- A whole frame was read. -/
def onFrameDone (s : Fetch) (h : Header) (payload : List UInt8) (sinceStart elapsedAt restartAt : Nat) :
    Fetch :=
  let s := { s with blob := s.blob ++ (h.bytes ++ payload), frames := s.frames + 1 }
  if MAX_BOOTSTRAP_CAPTURE_BYTES < s.blob.length then s.err .captureTooLarge
  else
    let s := { s with winBytes := s.winBytes + 5 + h.len }
    if 900000000 ≤ s.blob.length ∧ s.blob.length < 970000000 ∧
        slower s.blob.length (sinceStart - s.t0) MIN_BOOTSTRAP_RATE_BYTES_PER_SEC then
      s.err .tooSlowAfterState
    else s.onWindow slower elapsedAt restartAt

def read? (s : Fetch) (n room : Nat) : Option (List UInt8 × Fetch) :=
  if 0 < n ∧ n ≤ room ∧ n ≤ s.rest.length then some (s.rest.take n, { s with rest := s.rest.drop n })
  else none

def step (s : Fetch) (e : FetchEvent) : Option Fetch :=
  match s.pc, e with
  | .connect, .done _ => some { s with pc := .greet }
  | .connect, .fail => some (s.err .connect)
  | .greet, .done now => some { s with pc := .header [], t0 := now, win := now }
  | .greet, .fail => some (s.err .greet)
  | .header got, .read n now =>
    (s.read? n (5 - got.length)).map fun (bytes, s) =>
      match Header.ofBytes (got ++ bytes) with
      | some h => s.onHeader h now
      | none => { s with pc := .header (got ++ bytes) }
  | .header _, .fail =>
    some (if completeBootstrapAtFrameBoundary s.blob.length s.frames then s.ok else s.err .headerFailed)
  | .header _, .timeout =>
    some (if completeBootstrapAtFrameBoundary s.blob.length s.frames then s.ok else s.err .headerTimeout)
  | .payload h got since, .read n now =>
    (s.read? n (h.len - got.length)).map fun (bytes, s) => s.onPayload slower h (got ++ bytes) since now
  | .payload h got _, .fail | .payload h got _, .timeout =>
    some (s.err (if LARGE_FRAME < h.len then .largeFrameFailed h.len got.length else .smallFrameFailed h.len))
  | .frameDone h payload, .window sinceStart elapsedAt restartAt =>
    some (s.onFrameDone slower h payload sinceStart elapsedAt restartAt)
  | _, _ => none

end Fetch

/-! ## 2. Installing, persisting, loading -/

section

variable (lz4 : Lz4.Decoder)

def hasLiveTail (blob : List UInt8) : Bool := (maxBlockRoundInFrames lz4 blob).isSome

/-- The shared cache a capture writes into. -/
structure CacheSink where
  bootBlob : Option (List UInt8) := none
  bootBlobCachedAt : Nat := 0
  diskCachePath : Option String := none

/-- Install a captured blob; what is returned is to be persisted. -/
def installBootstrapCache (blob : List UInt8) (now : Nat) (sink : CacheSink) :
    CacheSink × Option (String × List UInt8) :=
  if hasLiveTail lz4 blob then
    ({ sink with bootBlob := some blob, bootBlobCachedAt := now }, sink.diskCachePath.map (·, blob))
  else (sink, none)

/-- A file with its modification time in seconds since the epoch, if there is one. -/
structure CacheFile where
  bytes : List UInt8
  modified : Option Nat

/-- What may go wrong in `persist_bootstrap_cache`; a failed write leaves `n` bytes. -/
inductive PersistFault where
  | createDir
  | create
  | write (n : Nat)
  | rename

/-- Write `tmp` at `modified`, then rename it to `path`. -/
def persistBootstrapCache (path tmp : String) (blob : List UInt8) (modified : Option Nat)
    (fault : Option PersistFault) (disk : KeyMap String CacheFile) : Except PersistFault Unit × KeyMap String CacheFile :=
  match fault with
  | none => (.ok (), (disk.erase tmp).insert path ⟨blob, modified⟩)
  | some .createDir => (.error .createDir, disk)
  | some .create => (.error .create, disk)
  | some (.write n) => (.error (.write n), disk.erase tmp)
  | some .rename => (.error .rename, disk.insert tmp ⟨blob, modified⟩)

def MAX_BOOTSTRAP_CACHE_AGE_SECS : Nat := 480

def isBootstrapCacheFresh (now cachedAt : Nat) : Bool :=
  cachedAt ≠ 0 ∧ now - cachedAt ≤ MAX_BOOTSTRAP_CACHE_AGE_SECS

/-- `load_bootstrap_cache`; a file that is not there is no error. -/
def loadBootstrapCache (path : String) (now : Nat) (disk : KeyMap String CacheFile) :
    Except String (Option (List UInt8 × Nat)) :=
  match disk.lookup path with
  | none => .ok none
  | some file =>
    let cachedAt := file.modified.getD 0
    if ¬ isBootstrapCacheFresh now cachedAt then
      .error ("disk cache too old: " ++ toString (now - cachedAt) ++ "s")
    else if file.bytes.length < MIN_COMPLETE_BOOTSTRAP_BYTES then
      .error ("disk cache too small: " ++ toString file.bytes.length ++ " bytes")
    else
      match completeFrameCount file.bytes with
      | none => .error ("disk cache has incomplete frame boundary: " ++ toString file.bytes.length ++ " bytes")
      | some frames =>
        if ¬ completeBootstrapAtFrameBoundary file.bytes.length frames then
          .error ("disk cache incomplete: " ++ toString file.bytes.length ++ " bytes, " ++
            toString frames ++ " frames")
        else if ¬ hasLiveTail lz4 file.bytes then
          .error ("disk cache has no live-block tail (cut off mid-bulk): " ++
            toString file.bytes.length ++ " bytes")
        else .ok (some (file.bytes, cachedAt))

end

end Hypersync.Gateway
