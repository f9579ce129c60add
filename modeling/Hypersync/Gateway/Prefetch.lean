import Hypersync.Gateway.Node
import Hypersync.Lib.Machine
import Hypersync.Lib.Word

/-!
# Prefetching a node's next client-block range

Once a range is answered, the next one is fetched in the background and kept in a
slot of the node's state, to be served when the node asks for it.  A batch fetched
under one session must not be served into another: each prefetch carries the pin
generation it was started under, and a new pin bumps the generation and empties
the slot.

The calls run concurrently.  A step of the machine is one access to shared state:
a load or bump of the generation, an operation on the slot, an operation on the
active pin.  The slot has a lock; whoever holds it across several accesses is a
part of the state (`installing`), and so is the holder of the lock of the active
pin (`lazyCall`), so that two holders cannot be written down.
-/

namespace Hypersync.Gateway

/-! ## 1. Ranges -/

/-- A range query is a type-0 frame of 11 bytes: a zero tag and two prefixed rounds. -/
def clientBlockRange : List UInt8 → Option (UInt32 × UInt32)
  | [0, 0, 0, 11, 0, 0, 0xfc, s0, s1, s2, s3, 0xfc, e0, e1, e2, e3] =>
    some (Word.ofLe s0 s1 s2 s3, Word.ofLe e0 e1 e2 e3)
  | _ => none

def clientBlockRangeRequest (start end_ : UInt32) : List UInt8 :=
  [0, 0, 0, 11, 0, 0, 0xfc] ++ Word.toLe start ++ [0xfc] ++ Word.toLe end_

def PREFETCH_MAX_AGE : Nat := 20000000000

def PREFETCH_TIP_MARGIN : UInt32 := 300

def PREFETCH_MAX_WIDTH : UInt32 := 1000

def CLIENT_BLOCK_FETCH_DEADLINE : Nat := 15000000000

/-- The range to prefetch after `[start, end_]` was answered, if the node is still behind
    enough. -/
def nextPrefetchRange (start end_ freshest : UInt32) : Option (UInt32 × UInt32) := do
  let width ← Word.checkedAdd (← Word.checkedSub end_ start) 1
  if PREFETCH_MAX_WIDTH < width then none
  else
    let nextStart ← Word.checkedAdd end_ 1
    let nextEnd ← Word.checkedAdd end_ width
    let room ← Word.checkedSub freshest nextEnd
    if PREFETCH_TIP_MARGIN ≤ room then some (nextStart, nextEnd) else none

/-! ## 2. The calls -/

/-- One node's prefetched range; `req` is what its task asks upstream with. -/
structure Prefetch where
  id : Nat
  start : UInt32
  end_ : UInt32
  generation : Nat
  at_ : Nat
  req : List UInt8
deriving DecidableEq, Repr

def Prefetch.serves (p : Prefetch) (start end_ : UInt32) (generation now : Nat) : Bool :=
  p.start = start ∧ p.end_ = end_ ∧ p.generation = generation ∧ now - p.at_ ≤ PREFETCH_MAX_AGE

/-- The answered range a prefetch follows, and the freshest round then. -/
structure Origin where
  start : UInt32
  end_ : UInt32
  freshest : UInt32
deriving DecidableEq, Repr

/-- `start_prefetch`, up to the slot's lock. -/
inductive StartCall where
  | begun (start end_ : UInt32) (origin : Origin)
  | read (start end_ : UInt32) (generation : Nat) (origin : Origin)
  | built (p : Prefetch)
deriving DecidableEq, Repr

/-- `start_prefetch`, holding the slot's lock: not yet, or already, past its re-check. -/
structure Install where
  p : Prefetch
  rechecked : Bool
deriving DecidableEq, Repr

/-- A call of `pin_active`, or of `pin_lazy_active` once it found nothing pinned. -/
inductive PinCall where
  | called (ip : String)
  | bumped (peer : ActivePeer)
  | emptied (peer : ActivePeer)
deriving DecidableEq, Repr

/-- A request that took a prefetch out of the slot, at `takenAt`. -/
structure Request where
  start : UInt32
  end_ : UInt32
  p : Prefetch
  takenAt : Nat
deriving DecidableEq, Repr

inductive RequestCall where
  | taken (r : Request)
  | awaiting (r : Request) (since : Nat)
  | joined (r : Request) (frame : List UInt8)
deriving DecidableEq, Repr

/-- A batch served from a prefetch, and the generation when it was accepted. -/
structure Answer where
  request : Request
  frame : List UInt8
  generation : Nat
deriving DecidableEq, Repr

structure PrefetchNode where
  pins : Pins := {}
  slot : Option Prefetch := none
  clock : Nat := 0
  nextPrefetchId : Nat := 0
  starts : List StartCall := []
  installing : Option Install := none
  pinCalls : List PinCall := []
  lazyCall : Option PinCall := none
  requests : List RequestCall := []
  /-- For statements only: every prefetch built, every pin that has emptied the slot, every
      pin call's result, every batch served. -/
  started : List (Prefetch × Origin) := []
  emptied : List Nat := []
  returned : List ActivePeer := []
  answers : List Answer := []

/-! ## 3. Steps -/

inductive PinEvent where
  | call (ip : String)
  | bump (k : Nat)
  | empty (k : Nat)
  | set (k : Nat)
  | lazy (ip : String) (blacklisted : String → Bool)
  | lazyBump
  | lazyEmpty
  | lazySet
  | unpin (peer : ActivePeer)
  | unpinBlacklisted (blacklisted : String → Bool)

inductive StartEvent where
  | start (origin : Origin)
  | read (k : Nat)
  | build (k : Nat)
  | lock (k : Nat)
  | recheck
  | install
  | expire (id : Nat)

inductive RequestEvent where
  | take (start end_ : UInt32)
  | judge (k : Nat)
  | poll (k : Nat)
  | join (k : Nat) (result : Option (List UInt8))
  | accept (k : Nat)

inductive PrefetchEvent where
  | pin (e : PinEvent)
  | start (e : StartEvent)
  | request (e : RequestEvent)
  | advance (t : Nat)

namespace PrefetchNode

/-- `pin_active`, `pin_lazy_active` and the unpins. -/
def pinStep (w : PrefetchNode) : PinEvent → Option PrefetchNode
  | .call ip => some { w with pinCalls := w.pinCalls ++ [.called ip] }
  | .bump k =>
    match w.pinCalls[k]? with
    | some (.called ip) =>
      let (epoch, pins) := w.pins.takeEpoch
      some { w with pins := pins, pinCalls := w.pinCalls.set k (.bumped ⟨ip, epoch⟩) }
    | _ => none
  | .empty k =>
    match w.pinCalls[k]?, w.installing with
    | some (.bumped peer), none =>
      some { w with
        slot := none
        pinCalls := w.pinCalls.set k (.emptied peer)
        emptied := w.emptied ++ [peer.epoch] }
    | _, _ => none
  | .set k =>
    match w.pinCalls[k]?, w.lazyCall with
    | some (.emptied peer), none =>
      some { w with
        pins := w.pins.setActive peer
        pinCalls := w.pinCalls.eraseIdx k
        returned := w.returned ++ [peer] }
    | _, _ => none
  | .lazy ip blacklisted =>
    match w.lazyCall with
    | some _ => none
    | none =>
      let pins := w.pins.unpinBlacklisted blacklisted
      match pins.active with
      | some peer => some { w with pins := pins, returned := w.returned ++ [peer] }
      | none => some { w with pins := pins, lazyCall := some (.called ip) }
  | .lazyBump =>
    match w.lazyCall with
    | some (.called ip) =>
      let (epoch, pins) := w.pins.takeEpoch
      some { w with pins := pins, lazyCall := some (.bumped ⟨ip, epoch⟩) }
    | _ => none
  | .lazyEmpty =>
    match w.lazyCall, w.installing with
    | some (.bumped peer), none =>
      some { w with slot := none, lazyCall := some (.emptied peer), emptied := w.emptied ++ [peer.epoch] }
    | _, _ => none
  | .lazySet =>
    match w.lazyCall with
    | some (.emptied peer) =>
      some { w with
        pins := { w.pins with active := some peer, lazyActive := true }
        lazyCall := none
        returned := w.returned ++ [peer] }
    | _ => none
  | .unpin peer =>
    if w.lazyCall = none then some { w with pins := w.pins.clearActiveIfCurrent peer } else none
  | .unpinBlacklisted blacklisted =>
    if w.lazyCall = none then some { w with pins := w.pins.unpinBlacklisted blacklisted } else none

/-- `start_prefetch`, once one of the gateway's prefetch permits was free, and
    `expire_prefetch`. -/
def startStep (w : PrefetchNode) : StartEvent → Option PrefetchNode
  | .start origin =>
    (nextPrefetchRange origin.start origin.end_ origin.freshest).map fun range =>
      { w with starts := w.starts ++ [.begun range.1 range.2 origin] }
  | .read k =>
    match w.starts[k]? with
    | some (.begun start end_ origin) =>
      some { w with starts := w.starts.set k (.read start end_ w.pins.pinGeneration origin) }
    | _ => none
  | .build k =>
    match w.starts[k]? with
    | some (.read start end_ generation origin) =>
      let p : Prefetch :=
        ⟨w.nextPrefetchId, start, end_, generation, w.clock, clientBlockRangeRequest start end_⟩
      some { w with
        nextPrefetchId := w.nextPrefetchId + 1
        starts := w.starts.set k (.built p)
        started := w.started ++ [(p, origin)] }
    | _ => none
  | .lock k =>
    match w.starts[k]?, w.installing with
    | some (.built p), none =>
      some { w with starts := w.starts.eraseIdx k, installing := some ⟨p, false⟩ }
    | _, _ => none
  | .recheck =>
    match w.installing with
    | some ⟨p, false⟩ =>
      if w.pins.pinGeneration ≠ p.generation then some { w with installing := none }
      else some { w with installing := some ⟨p, true⟩ }
    | _ => none
  | .install =>
    match w.installing with
    | some ⟨p, true⟩ => some { w with slot := some p, installing := none }
    | _ => none
  | .expire id =>
    match w.installing with
    | some _ => none
    | none => some (if w.slot.any fun p => p.id = id then { w with slot := none } else w)

/-- `take_prefetch` and `await_prefetch` of a request. -/
def requestStep (w : PrefetchNode) : RequestEvent → Option PrefetchNode
  | .take start end_ =>
    match w.installing, w.slot with
    | none, some p =>
      some { w with slot := none, requests := w.requests ++ [.taken ⟨start, end_, p, w.clock⟩] }
    | _, _ => none
  | .judge k =>
    match w.requests[k]? with
    | some (.taken r) =>
      some { w with
        requests :=
          if r.p.serves r.start r.end_ w.pins.pinGeneration w.clock then
            w.requests.set k (.awaiting r w.clock)
          else w.requests.eraseIdx k }
    | _ => none
  | .poll k =>
    match w.requests[k]? with
    | some (.awaiting r since) =>
      some (if w.pins.pinGeneration ≠ r.p.generation ∨ since + CLIENT_BLOCK_FETCH_DEADLINE ≤ w.clock then
          { w with requests := w.requests.eraseIdx k }
        else w)
    | _ => none
  | .join k result =>
    match w.requests[k]? with
    | some (.awaiting r _) =>
      some { w with
        requests :=
          match result with
          | some frame =>
            if frame[4]? = some 1 then w.requests.set k (.joined r frame) else w.requests.eraseIdx k
          | none => w.requests.eraseIdx k }
    | _ => none
  | .accept k =>
    match w.requests[k]? with
    | some (.joined r frame) =>
      let generation := w.pins.pinGeneration
      some { w with
        requests := w.requests.eraseIdx k
        answers :=
          if generation ≠ r.p.generation then w.answers else w.answers ++ [⟨r, frame, generation⟩] }
    | _ => none

def step (w : PrefetchNode) : PrefetchEvent → Option PrefetchNode
  | .pin e => w.pinStep e
  | .start e => w.startStep e
  | .request e => w.requestStep e
  | .advance t => some { w with clock := w.clock + t }

end PrefetchNode

end Hypersync.Gateway
