import Hypersync.Gateway.Node
import Hypersync.Lib.Lz4
import Hypersync.Lib.Word

/-!
# Answers to client-block (4002) requests

The gateway forwards a node's range request to an upstream and tells a batch of
blocks from the refusals a peer can send: the ASCII reasons, searched for anywhere
in the payload, and two short structured forms.  The network (dials, timeouts, the
response budget) answers through `FetchIo`.

A batch is an LZ4 block behind its size (`IsBatch`).  The structured refusals
cannot be one, but the ASCII reasons are ordinary bytes:
`batch_is_forwarded_iff_no_phrase` says exactly which batches are forwarded.
-/

namespace Hypersync.Gateway

/-! ## 1. Telling refusals apart -/

def ascii (text : List Char) : List UInt8 := text.map fun c => UInt8.ofNat c.toNat

/-- `payload.windows(phrase.len()).any(|w| w == phrase)` -/
def hasPhrase (phrase payload : List UInt8) : Bool :=
  (List.range (payload.length + 1 - phrase.length)).any fun i =>
    (payload.drop i).take phrase.length = phrase

def PEER_ONLY : List UInt8 :=
  ascii ['P', 'e', 'e', 'r', '-', 'o', 'n', 'l', 'y', ' ', 'r', 'e', 'q', 'u', 'e', 's', 't']

def NO_CLIENT_BLOCKS : List UInt8 :=
  ascii ['n', 'o', ' ', 'c', 'l', 'i', 'e', 'n', 't', ' ', 'b', 'l', 'o', 'c', 'k', 's', ' ',
    't', 'o', ' ', 's', 'e', 'r', 'v', 'e']

def ROUND_TOO_LARGE : List UInt8 :=
  ascii ['c', 'l', 'i', 'e', 'n', 't', ' ', 'b', 'l', 'o', 'c', 'k', ' ', 'r', 'o', 'u', 'n', 'd',
    ' ', 't', 'o', 'o', ' ', 'l', 'a', 'r', 'g', 'e']

def ROUND_TOO_SMALL : List UInt8 :=
  ascii ['c', 'l', 'i', 'e', 'n', 't', ' ', 'b', 'l', 'o', 'c', 'k', ' ', 'r', 'o', 'u', 'n', 'd',
    ' ', 't', 'o', 'o', ' ', 's', 'm', 'a', 'l', 'l']

def STRUCTURED_PEER_ONLY : List UInt8 := [0x00, 0x01, 0x00]

def responseIsPeerOnly (payload : List UInt8) : Bool :=
  payload = STRUCTURED_PEER_ONLY ∨ hasPhrase PEER_ONLY payload

def responseHasNoClientBlocks (payload : List UInt8) : Bool := hasPhrase NO_CLIENT_BLOCKS payload

def responseHasClientBlockRoundTooLarge (payload : List UInt8) : Bool :=
  hasPhrase ROUND_TOO_LARGE payload

def responseIsStructuredRoundTooLarge (payload : List UInt8) : Bool :=
  payload.length = 13 ∧ payload.take 4 = [0x00, 0x01, 0x06, 0xfc] ∧ payload.getD 8 0 = 0xfc

def responseHasClientBlockRoundTooSmall (payload : List UInt8) : Bool :=
  hasPhrase ROUND_TOO_SMALL payload

/-! ## 2. One upstream attempt -/

inductive ClientBlockUpstreamResponse where
  | frames (frame : List UInt8)
  | peerOnly
  | rangeTooSmall (frame : List UInt8)
  | terminalError (frame : List UInt8)
deriving DecidableEq, Repr

inductive FetchError where
  | prewarm
  | connect
  | write
  | header
  | oversized
  | budgetExhausted
  | budgetClosed
  | payload
deriving DecidableEq, Repr

inductive Budget where
  | granted
  | exhausted
  | closed
deriving DecidableEq, Repr

/-- How each network operation of an attempt ends. -/
structure FetchIo where
  prewarmOk : Bool := true
  connectOk : Bool := true
  writeOk : List UInt8 → Bool := fun _ => true
  headerOk : Bool := true
  budget : Nat → Budget := fun _ => .granted
  payloadOk : Bool := true

def MAX_CLIENT_BLOCK_RESPONSE : Nat := 64000000

/-- The classification of a frame that was read whole. -/
def classifyResponse (frame : List UInt8) : ClientBlockUpstreamResponse :=
  let rp := frame.drop 5
  if responseIsPeerOnly rp then .peerOnly
  else if responseHasNoClientBlocks rp ∨ responseHasClientBlockRoundTooLarge rp ∨
      responseIsStructuredRoundTooLarge rp then .terminalError frame
  else if responseHasClientBlockRoundTooSmall rp then .rangeTooSmall frame
  else .frames frame

/-- One attempt: `answer` are the bytes the upstream sends back. -/
def fetchClientBlocksFromPeer (io : FetchIo) (req : List UInt8) (prewarmLive : Bool)
    (answer : List UInt8) : Except FetchError ClientBlockUpstreamResponse :=
  if prewarmLive ∧ !io.prewarmOk then .error .prewarm
  else if !io.connectOk then .error .connect
  else if !io.writeOk req then .error .write
  else
    match answer with
    | b0 :: b1 :: b2 :: b3 :: typ :: rest =>
      if !io.headerOk then .error .header
      else
        let rl := (Word.ofBe b0 b1 b2 b3).toNat
        if MAX_CLIENT_BLOCK_RESPONSE < rl then .error .oversized
        else
          match io.budget (5 + rl) with
          | .exhausted => .error .budgetExhausted
          | .closed => .error .budgetClosed
          | .granted =>
            if !io.payloadOk ∨ rest.length < rl then .error .payload
            else .ok (classifyResponse (b0 :: b1 :: b2 :: b3 :: typ :: rest.take rl))
    | _ => .error .header

/-! ## 3. Recording a result of the race -/

/-- What a race has seen so far; a failure keeps the peer and what became of it. -/
inductive Failure where
  | staleEpoch (peer : ActivePeer)
  | terminal (ip : String)
  | peerOnlyUnpinned (peer : ActivePeer)
  | peerOnly (ip : String)
  | rangeTooSmall (ip : String)
  | failed (ip : String) (e : FetchError)
deriving DecidableEq, Repr

structure Race where
  failures : List Failure := []
  terminal : Option (List UInt8) := none
  tooSmall : Option (List UInt8) := none
deriving DecidableEq, Repr

def Race.fail (race : Race) (f : Failure) : Race := { race with failures := race.failures ++ [f] }

/-- The outcome of an attempt whose pin is still current, or that had none. -/
def recordResult (node : Pins) (tag : Option ActivePeer) (ip : String) (race : Race) :
    Except FetchError ClientBlockUpstreamResponse → Option (List UInt8) × Pins × Race
  | .ok (.frames frame) => (some frame, node, race)
  | .ok (.terminalError frame) =>
    (none, node, { race with terminal := race.terminal.or (some frame) }.fail (.terminal ip))
  | .ok .peerOnly =>
    -- the pinned peer refuses client-block requests: it is unpinned
    match tag with
    | some peer => (none, node.clearActiveIfCurrent peer, race.fail (.peerOnlyUnpinned peer))
    | none => (none, node, race.fail (.peerOnly ip))
  | .ok (.rangeTooSmall frame) =>
    (none, node, { race with tooSmall := race.tooSmall.or (some frame) }.fail (.rangeTooSmall ip))
  | .error e => (none, node, race.fail (.failed ip e))

/-- `note_client_block_result`: the frame when this attempt wins, the pins and the race. -/
def noteClientBlockResult (node : Pins) (tag : Option ActivePeer) (ip : String)
    (result : Except FetchError ClientBlockUpstreamResponse) (race : Race) :
    Option (List UInt8) × Pins × Race :=
  match tag with
  | some peer =>
    if !node.activeIsCurrent peer then (none, node, race.fail (.staleEpoch peer))
    else recordResult node tag ip race result
  | none => recordResult node tag ip race result

/-! ## 4. Batches -/

/-- A type-1 frame within the size limit whose payload is a size and an LZ4 block
    of that size. -/
def IsBatch (frame : List UInt8) : Prop :=
  ∃ b0 b1 b2 b3 s0 s1 s2 s3 block dec,
    frame = b0 :: b1 :: b2 :: b3 :: 1 :: s0 :: s1 :: s2 :: s3 :: block ∧
    (Word.ofBe b0 b1 b2 b3).toNat = block.length + 4 ∧
    block.length + 4 ≤ MAX_CLIENT_BLOCK_RESPONSE ∧
    Lz4.decode block = some dec ∧ dec.length = (Word.ofLe s0 s1 s2 s3).toNat

/-- The upstream's answer arrives: no dial, write, read or budget request fails. -/
structure FetchIo.Delivers (io : FetchIo) (req frame : List UInt8) : Prop where
  prewarm : io.prewarmOk = true
  connect : io.connectOk = true
  write : io.writeOk req = true
  header : io.headerOk = true
  budget : io.budget frame.length = .granted
  payload : io.payloadOk = true

/-- The reasons that make an answer a refusal wherever they occur in it. -/
def PHRASES : List (List UInt8) := [PEER_ONLY, NO_CLIENT_BLOCKS, ROUND_TOO_LARGE, ROUND_TOO_SMALL]

theorem hasPhrase_iff {phrase payload : List UInt8} :
    hasPhrase phrase payload = true ↔ phrase <:+: payload := by
  simp only [hasPhrase, List.any_eq_true, List.mem_range, decide_eq_true_eq]
  constructor
  · rintro ⟨i, -, hi⟩
    refine ⟨payload.take i, (payload.drop i).drop phrase.length, ?_⟩
    have hrest := List.take_append_drop phrase.length (payload.drop i)
    rw [hi] at hrest
    rw [List.append_assoc, hrest, List.take_append_drop]
  · rintro ⟨front, back, rfl⟩
    refine ⟨front.length, ?_, ?_⟩
    · simp only [List.length_append]
      omega
    · rw [List.append_assoc, List.drop_left, List.take_left]

/-- The structured refusals are too short for the size they would declare. -/
theorem not_structured_of_batch {s0 s1 s2 s3 : UInt8} {block dec : List UInt8}
    (hdec : Lz4.decode block = some dec) (hsize : dec.length = (Word.ofLe s0 s1 s2 s3).toNat) :
    s0 :: s1 :: s2 :: s3 :: block ≠ STRUCTURED_PEER_ONLY ∧
      responseIsStructuredRoundTooLarge (s0 :: s1 :: s2 :: s3 :: block) = false := by
  constructor
  · intro h
    have := congrArg List.length h
    simp only [List.length_cons, STRUCTURED_PEER_ONLY, List.length_nil] at this
    omega
  · apply decide_eq_false
    rintro ⟨hlen, hhead, -⟩
    simp only [List.take_succ_cons, List.take_zero, List.cons.injEq, and_true] at hhead
    obtain ⟨rfl, rfl, rfl, rfl⟩ := hhead
    -- nine bytes expand to at most 2295, and the prefix declares more than four billion
    have hle := Lz4.decode_length_le hdec
    have hdeclared : (Word.ofLe 0x00 0x01 0x06 0xfc).toNat = 4228251904 := by decide
    simp only [List.length_cons] at hlen
    omega

/-- A batch is classified as one exactly when none of the reasons occurs in it. -/
theorem classifyResponse_batch {frame : List UInt8} (h : IsBatch frame) :
    classifyResponse frame = .frames frame ↔ ∀ phrase ∈ PHRASES, ¬ phrase <:+: frame.drop 5 := by
  obtain ⟨b0, b1, b2, b3, s0, s1, s2, s3, block, dec, rfl, -, -, hdec, hsize⟩ := h
  obtain ⟨hpeer, hlarge⟩ := not_structured_of_batch hdec hsize
  have hdrop : (b0 :: b1 :: b2 :: b3 :: 1 :: s0 :: s1 :: s2 :: s3 :: block).drop 5 =
      s0 :: s1 :: s2 :: s3 :: block := rfl
  simp only [classifyResponse, hdrop, responseIsPeerOnly, hpeer, false_or, decide_eq_true_eq,
    responseHasNoClientBlocks, responseHasClientBlockRoundTooLarge, hlarge, or_false,
    responseHasClientBlockRoundTooSmall, hasPhrase_iff, PHRASES, Bool.false_eq_true,
    List.forall_mem_cons, List.not_mem_nil, false_imp_iff, implies_true, and_true]
  split
  · rename_i hp
    simp [hp]
  split
  · rename_i hp ht
    rcases ht with ht | ht <;> simp [ht]
  split
  · rename_i hp ht hs
    simp [hs]
  · rename_i hp ht hs
    rw [not_or] at ht
    simp [hp, ht.1, ht.2, hs]

theorem fetch_of_delivers {io : FetchIo} {req frame : List UInt8} (hio : io.Delivers req frame)
    (hbatch : IsBatch frame) (prewarmLive : Bool) (extra : List UInt8) :
    fetchClientBlocksFromPeer io req prewarmLive (frame ++ extra) = .ok (classifyResponse frame) := by
  obtain ⟨b0, b1, b2, b3, s0, s1, s2, s3, block, dec, rfl, hlen, hmax, -, -⟩ := hbatch
  have hbudget := hio.budget
  simp only [List.length_cons] at hbudget
  simp only [List.cons_append, fetchClientBlocksFromPeer, hio.prewarm, hio.connect, hio.write,
    hio.header, hio.payload, hlen, Bool.not_true, Bool.false_eq_true, and_false, if_false,
    false_or, if_neg (not_lt.mpr hmax)]
  rw [show 5 + (block.length + 4) = block.length + 1 + 1 + 1 + 1 + 1 + 1 + 1 + 1 + 1 by omega, hbudget]
  simp only [List.length_cons, List.length_append, List.take_succ_cons, List.take_left]
  rw [if_neg (by omega)]

/-- The attempt returns the received bytes as a batch, and recording it forwards
    them and leaves the pins alone. -/
def BatchForwarded (io : FetchIo) (req : List UInt8) (prewarmLive : Bool) (frame extra : List UInt8) :
    Prop :=
  fetchClientBlocksFromPeer io req prewarmLive (frame ++ extra) = .ok (.frames frame) ∧
  ∀ node tag ip race, (∀ peer, tag = some peer → node.activeIsCurrent peer = true) →
    noteClientBlockResult node tag ip
      (fetchClientBlocksFromPeer io req prewarmLive (frame ++ extra)) race = (some frame, node, race)

theorem note_frames (node : Pins) (tag : Option ActivePeer) (ip : String) (frame : List UInt8)
    (race : Race) (htag : ∀ peer, tag = some peer → node.activeIsCurrent peer = true) :
    noteClientBlockResult node tag ip (.ok (.frames frame)) race = (some frame, node, race) := by
  rcases tag with _ | peer
  · rfl
  · simp only [noteClientBlockResult, htag peer rfl, Bool.not_true, Bool.false_eq_true, if_false,
      recordResult]

/-- **Which batches are forwarded.**  A batch that arrives is taken for a batch,
    forwarded as received and costs the active peer nothing, exactly when its payload
    contains none of the reasons. -/
theorem batch_is_forwarded_iff_no_phrase (io : FetchIo) (req : List UInt8) (prewarmLive : Bool)
    (frame extra : List UInt8) (hbatch : IsBatch frame) (hio : io.Delivers req frame) :
    BatchForwarded io req prewarmLive frame extra ↔
      ∀ phrase ∈ PHRASES, ¬ phrase <:+: frame.drop 5 := by
  rw [← classifyResponse_batch hbatch, BatchForwarded, fetch_of_delivers hio hbatch]
  constructor
  · rintro ⟨h, -⟩
    exact Except.ok.inj h
  · intro h
    rw [h]
    exact ⟨rfl, fun node tag ip race htag => note_frames node tag ip frame race htag⟩

/-- A batch of 17 bytes, stored as literals, that spell the refusal. -/
def phraseBatch : List UInt8 := [0, 0, 0, 23, 1, 17, 0, 0, 0, 0xf0, 2] ++ PEER_ONLY

/-- The same batch with one letter changed. -/
def plainBatch : List UInt8 := [0, 0, 0, 23, 1, 17, 0, 0, 0, 0xf0, 2] ++ PEER_ONLY.set 0 0

theorem isBatch_phraseBatch : IsBatch phraseBatch :=
  ⟨0, 0, 0, 23, 17, 0, 0, 0, [0xf0, 2] ++ PEER_ONLY, PEER_ONLY, rfl, by decide, by decide, by decide,
    by decide⟩

theorem isBatch_plainBatch : IsBatch plainBatch :=
  ⟨0, 0, 0, 23, 17, 0, 0, 0, [0xf0, 2] ++ PEER_ONLY.set 0 0, PEER_ONLY.set 0 0, rfl, by decide,
    by decide, by decide, by decide⟩

theorem batch_is_forwarded_plainBatch : BatchForwarded {} [] false plainBatch [] := by
  refine (batch_is_forwarded_iff_no_phrase {} [] false plainBatch [] isBatch_plainBatch
    ⟨rfl, rfl, rfl, rfl, rfl, rfl⟩).mpr ?_
  intro phrase hphrase
  rw [← hasPhrase_iff]
  revert phrase
  decide

/-- **A batch taken for a refusal.**  A real batch whose content spells `Peer-only
    request` is dropped, and the active peer that served it is unpinned. -/
theorem batch_with_phrase_is_refused :
    IsBatch phraseBatch ∧
    fetchClientBlocksFromPeer {} [] false phraseBatch = .ok .peerOnly ∧
    (noteClientBlockResult { active := some ⟨"192.0.2.1", 1⟩ } (some ⟨"192.0.2.1", 1⟩) "192.0.2.1"
      (fetchClientBlocksFromPeer {} [] false phraseBatch) {}).1 = none ∧
    (noteClientBlockResult { active := some ⟨"192.0.2.1", 1⟩ } (some ⟨"192.0.2.1", 1⟩) "192.0.2.1"
      (fetchClientBlocksFromPeer {} [] false phraseBatch) {}).2.1.active = none ∧
    ¬ BatchForwarded {} [] false phraseBatch [] := by
  have hfetch : fetchClientBlocksFromPeer {} [] false phraseBatch = .ok .peerOnly := by decide
  refine ⟨isBatch_phraseBatch, hfetch, ?_, ?_, ?_⟩
  · rw [hfetch]
    decide
  · rw [hfetch]
    decide
  · rintro ⟨h, -⟩
    rw [List.append_nil, hfetch] at h
    cases h

end Hypersync.Gateway
