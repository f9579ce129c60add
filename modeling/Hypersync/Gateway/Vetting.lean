import Hypersync.Gateway.BootstrapCache
import Hypersync.Gateway.ClientBlocks
import Hypersync.Push.Live

/-!
# Vetting a live peer, and the session it starts

Selection dials a peer, greets it and reads its stream until the first block it
can use.  That block and the frames without a round before it are handed to the
push session, which passes them through gates of its own before it reads on.

The two sets of gates are written apart.  Selection bounds the first round from
above by the network tip, the session by the round it starts from: `0`, or the
floor of the cache that was just replayed.  `vetted_frames_pass_iff` says when a
vetted peer also passes the session.
-/

namespace Hypersync.Gateway

open Hypersync.Protocol Hypersync.Push

/-! ## 1. Reading from a peer -/

/-- The kinds of an i/o error that are told apart. -/
inductive IoFault where
  | timedOut
  | failed
deriving DecidableEq, Repr

inductive VetError where
  | io (fault : IoFault)
  | frameTooLarge
  | peerFull
  | noLiveBlock
  | lagged (round netTip lag : UInt32)
  | behindFreshest (round floor : UInt32)
deriving DecidableEq, Repr

/-- The text of the error; an i/o error has its own from the system. -/
def VetError.text : VetError → String
  | .io .timedOut => "deadline has elapsed"
  | .io .failed => ""
  | .frameTooLarge => "live frame too large"
  | .peerFull => "peer full"
  | .noLiveBlock => "no live block before deadline"
  | .lagged round netTip lag => s!"live block lagged round={round} net_tip={netTip} lag={lag} max_lag=1500"
  | .behindFreshest round floor => s!"live block behind the freshest stream round={round} floor={floor}"

/-- How the reads of one frame end, and what is found when its block is judged. -/
structure VetEnv where
  -- `remaining.is_zero()`
  expired : Bool := false
  header : Option IoFault := none
  payload : Option IoFault := none
  selectFloor : UInt32 := 0

/-- One frame off the stream, and the bytes behind it. -/
def readLiveFrameWithTimeout (env : VetEnv) (maxLen : Nat) :
    List UInt8 → Except VetError (List UInt8 × List UInt8)
  | b0 :: b1 :: b2 :: b3 :: typ :: rest =>
    match env.header with
    | some fault => .error (.io fault)
    | none =>
      let len := (Word.ofBe b0 b1 b2 b3).toNat
      if maxLen < len then .error .frameTooLarge
      else
        match env.payload with
        | some fault => .error (.io fault)
        | none =>
          if rest.length < len then .error (.io .failed)
          else .ok (b0 :: b1 :: b2 :: b3 :: typ :: rest.take len, rest.drop len)
  | _ => .error (.io (env.header.getD .failed))

def PEER_FULL : List UInt8 := ascii ['P', 'e', 'e', 'r', ' ', 'f', 'u', 'l', 'l']

def responseIsPeerFull : List UInt8 → Bool
  | [0, 0, 0, 1, 0, status] => status = 4
  | payload => hasPhrase PEER_FULL payload

/-! ## 2. Vetting -/

def VET_KEEP_MAX_FRAMES : Nat := 64

def VET_KEEP_MAX_BYTES : Nat := 8000000

def VET_MAX_ROUNDS_ABOVE_TIP : UInt32 := 2 * MAX_ACTIVE_ROUND_JUMP

def firstRoundFarAboveTip (round netTip : UInt32) : Bool :=
  netTip ≠ 0 ∧ Word.satAdd netTip VET_MAX_ROUNDS_ABOVE_TIP < round

/-- A vetted peer; `stream` are the bytes it sends behind the vetted block, and
    `prioSession` the priority slot taken for it. -/
structure LivePeerSession where
  ip : String
  stream : List UInt8
  greeting : List UInt8
  prefetchedFrames : List (List UInt8)
  firstRound : UInt32
  prioSession : Option Nat := none
deriving DecidableEq, Repr

/-- How the network operations of an attempt end. -/
structure VetIo where
  connect : Option IoFault := none
  write : List UInt8 → Option IoFault := fun _ => none
  greeting : VetEnv := {}
  frames : Nat → VetEnv := fun _ => {}

section
variable (lz4 : Lz4.Decoder)

/-- The loop over the frames the peer sends: what is left of the stream, the frames
    for the session, and the round of the last of them.  Every turn takes at least a
    header, so the length of the input is enough fuel; `i` numbers the frames. -/
def vetLoop (minRoundExclusive netTip : UInt32) (envs : Nat → VetEnv) :
    Nat → Nat → List (List UInt8) → Nat → List UInt8 →
      Except VetError (List UInt8 × List (List UInt8) × UInt32)
  | 0, _, _, _, _ => .error (.io .failed)
  | fuel + 1, i, kept, keptBytes, input =>
    let env := envs i
    if env.expired then .error .noLiveBlock
    else
      match readLiveFrameWithTimeout env MAX_LIVE_FRAME input with
      | .error e => .error e
      | .ok (frame, rest) =>
        match roundOf lz4 frame with
        | none =>
          if kept.length < VET_KEEP_MAX_FRAMES ∧ keptBytes + frame.length ≤ VET_KEEP_MAX_BYTES then
            vetLoop minRoundExclusive netTip envs fuel (i + 1) (kept ++ [frame]) (keptBytes + frame.length) rest
          else vetLoop minRoundExclusive netTip envs fuel (i + 1) kept keptBytes rest
        | some round =>
          if !isPlausibleMainnetRound round netTip ∨ round ≤ minRoundExclusive ∨
              firstRoundFarAboveTip round netTip then
            vetLoop minRoundExclusive netTip envs fuel (i + 1) kept keptBytes rest
          else
            match roundLagFromTip round netTip ACTIVE_ROUND_MAX_LAG with
            | some lag => .error (.lagged round netTip lag)
            | none =>
              if round < env.selectFloor then .error (.behindFreshest round env.selectFloor)
              else .ok (rest, kept ++ [frame], round)

/-- `connect_and_greet_4001`: the greeting, and the bytes behind it. -/
def connectAndGreet4001 (io : VetIo) (greet input : List UInt8) : Except VetError (List UInt8 × List UInt8) :=
  match io.connect with
  | some fault => .error (.io fault)
  | none =>
    match io.write greet with
    | some fault => .error (.io fault)
    | none =>
      match readLiveFrameWithTimeout io.greeting 1000 input with
      | .error e => .error e
      | .ok (greeting, rest) =>
        if responseIsPeerFull greeting then .error .peerFull else .ok (greeting, rest)

/-- `input` are the bytes the peer sends before it closes. -/
def openLivePeerSessionWithGreet (io : VetIo) (ip : String) (greet : List UInt8)
    (minRoundExclusive netTip : UInt32) (input : List UInt8) : Except VetError LivePeerSession :=
  match connectAndGreet4001 io greet input with
  | .error e => .error e
  | .ok (greeting, rest) =>
    match vetLoop lz4 minRoundExclusive netTip io.frames (rest.length + 1) 0 [] 0 rest with
    | .error e => .error e
    | .ok (stream, frames, round) => .ok ⟨ip, stream, greeting, frames, round, none⟩

end

/-! ## 3. Where the session starts -/

def boundedCacheFloor (cacheFloor netTip : UInt32) : UInt32 :=
  if netTip ≠ 0 ∧ Word.satAdd netTip ACTIVE_ROUND_MAX_LAG < cacheFloor then 0 else cacheFloor

/-- The floor `replay_cache_then_live` gives both selection and the session, from the
    blob it has replayed. -/
def replayedFloor (lz4 : Lz4.Decoder) (blob : List UInt8) (netTip : UInt32) : UInt32 :=
  boundedCacheFloor ((maxBlockRoundInFrames lz4 blob).getD 0) netTip

/-! ## 4. What vetting hands over -/

section
variable {lz4 : Lz4.Decoder}

/-- A whole frame without a round. -/
def PlainFrame (lz4 : Lz4.Decoder) (frame : List UInt8) : Prop :=
  WellFormed frame ∧ roundOf lz4 frame = none

/-- A whole frame with a round that passed the checks both sides make. -/
structure VettedBlock (lz4 : Lz4.Decoder) (netTip : UInt32) (frame : List UInt8)
    (round : UInt32) : Prop where
  whole : WellFormed frame
  round_eq : roundOf lz4 frame = some round
  credible : isPlausibleMainnetRound round netTip = true
  near_tip : roundLagFromTip round netTip ACTIVE_ROUND_MAX_LAG = none

theorem wellFormed_of_read {env : VetEnv} {maxLen : Nat} {input frame rest : List UInt8}
    (h : readLiveFrameWithTimeout env maxLen input = .ok (frame, rest)) : WellFormed frame := by
  unfold readLiveFrameWithTimeout at h
  split at h
  · rename_i b0 b1 b2 b3 typ tail
    split at h
    · cases h
    simp only at h
    split at h
    · cases h
    split at h
    · cases h
    split at h
    · cases h
    · rename_i hlen
      simp only [Except.ok.injEq, Prod.mk.injEq] at h
      obtain ⟨rfl, -⟩ := h
      rw [WellFormed, List.length_take, Nat.min_eq_left (not_lt.mp hlen)]
  · cases h

/-- Vetting hands over frames without a round, and behind them the block it vetted. -/
theorem vetLoop_spec {minRoundExclusive netTip : UInt32} {envs : Nat → VetEnv} {fuel : Nat} :
    ∀ {i keptBytes : Nat} {kept frames : List (List UInt8)} {input stream : List UInt8} {round : UInt32},
    (∀ f ∈ kept, PlainFrame lz4 f) →
    vetLoop lz4 minRoundExclusive netTip envs fuel i kept keptBytes input = .ok (stream, frames, round) →
    ∃ plain block, frames = plain ++ [block] ∧ (∀ f ∈ plain, PlainFrame lz4 f) ∧
      VettedBlock lz4 netTip block round := by
  induction fuel with
  | zero =>
    intro i keptBytes kept frames input stream round _ h
    cases h
  | succ fuel ih =>
    intro i keptBytes kept frames input stream round hkept h
    rw [vetLoop] at h
    split at h
    · cases h
    split at h
    · cases h
    rename_i frame rest hread
    have hwhole := wellFormed_of_read hread
    split at h
    · rename_i hnone
      split at h
      · -- kept for the session
        apply ih _ h
        intro f hf
        rcases List.mem_append.mp hf with hf | hf
        · exact hkept f hf
        · rw [List.mem_singleton.mp hf]
          exact ⟨hwhole, hnone⟩
      · exact ih hkept h
    · rename_i r hround
      split at h
      · exact ih hkept h
      rename_i hchecks
      split at h
      · cases h
      rename_i hlag
      split at h
      · cases h
      · simp only [Except.ok.injEq, Prod.mk.injEq] at h
        obtain ⟨-, rfl, rfl⟩ := h
        refine ⟨kept, frame, rfl, hkept, hwhole, hround, ?_, hlag⟩
        by_contra hnot
        apply hchecks
        left
        rw [Bool.not_eq_true']
        exact Bool.eq_false_iff.mpr hnot

theorem openLivePeerSession_spec {io : VetIo} {ip : String} {greet input : List UInt8}
    {minRoundExclusive netTip : UInt32} {live : LivePeerSession}
    (h : openLivePeerSessionWithGreet lz4 io ip greet minRoundExclusive netTip input = .ok live) :
    ∃ plain block, live.prefetchedFrames = plain ++ [block] ∧ (∀ f ∈ plain, PlainFrame lz4 f) ∧
      VettedBlock lz4 netTip block live.firstRound := by
  unfold openLivePeerSessionWithGreet at h
  split at h
  · cases h
  split at h <;> cases h
  rename_i hloop
  apply vetLoop_spec _ hloop
  intro f hf
  cases hf

/-! ## 5. The session on those frames -/

theorem send_of_ok {env : FrameEnv} (hsend : env.sendOk = true) (closed : Cause) (out : Session × Verdict) :
    send env closed out = .ok out := by
  unfold send
  rw [if_neg]
  rintro ⟨-, hnot⟩
  rw [hsend] at hnot
  cases hnot

theorem processLiveFrame_plain {s : Session} {env : FrameEnv} {frame : List UInt8}
    (hplain : PlainFrame lz4 frame) (hsend : env.sendOk = true) :
    ∃ v, processLiveFrame lz4 s env frame = .ok (s, v) := by
  obtain ⟨hwhole, hround⟩ := hplain
  unfold WellFormed at hwhole
  split at hwhole
  · rename_i b0 b1 b2 b3 typ payload
    unfold processLiveFrame
    simp only [hwhole, ne_eq, not_true_eq_false, if_false]
    by_cases htyp : typ = 1
    · rw [roundOf, if_pos htyp] at hround
      rw [if_neg (not_not.mpr htyp), hround]
      exact ⟨_, send_of_ok hsend _ _⟩
    · rw [if_pos htyp]
      exact ⟨_, send_of_ok hsend _ _⟩
  · cases hwhole

/-- Behind the tip-lag check a round is forwarded or dropped, never an error. -/
theorem passRound_of_no_lag {s : Session} {env : FrameEnv} {round : UInt32}
    (hlag : roundLagFromTip round env.netTip ACTIVE_ROUND_MAX_LAG = none) :
    ∃ out, passRound s env round = .ok out := by
  unfold passRound
  rw [hlag]
  by_cases hfloor : round ≤ env.liveFloor
  · exact ⟨_, if_pos hfloor⟩
  · exact ⟨_, if_neg hfloor⟩

/-- The vetted block passes exactly when it is no jump from the session's baseline. -/
theorem processLiveFrame_vettedBlock {s : Session} {env : FrameEnv} {frame : List UInt8} {round : UInt32}
    (hblock : VettedBlock lz4 env.netTip frame round) (hsend : env.sendOk = true) :
    (∃ out, processLiveFrame lz4 s env frame = .ok out) ↔
      s.activeRound = 0 ∨ round ≤ Word.satAdd s.activeRound MAX_ACTIVE_ROUND_JUMP := by
  obtain ⟨hwhole, hround, hcredible, hlag⟩ := hblock
  unfold WellFormed at hwhole
  split at hwhole
  · rename_i b0 b1 b2 b3 typ payload
    unfold roundOf at hround
    simp only at hround
    split at hround
    · rename_i htyp
      unfold processLiveFrame
      simp only [hwhole, htyp, hround, hcredible, ne_eq, not_true_eq_false, if_false, Bool.not_true,
        Bool.false_eq_true]
      by_cases hjump : s.activeRound = 0 ∨ round ≤ Word.satAdd s.activeRound MAX_ACTIVE_ROUND_JUMP
      · refine iff_of_true ?_ hjump
        rw [if_neg (fun hno => hjump.elim hno.1 (not_le.mpr hno.2))]
        obtain ⟨out, hpass⟩ := passRound_of_no_lag (s := { s with activeRound := max s.activeRound round }) hlag
        rw [hpass]
        exact ⟨out, send_of_ok hsend _ out⟩
      · refine iff_of_false ?_ hjump
        obtain ⟨hne, hlt⟩ := not_or.mp hjump
        rw [if_pos ⟨hne, not_le.mp hlt⟩]
        rintro ⟨out, hout⟩
        cases hout
    · cases hround
  · cases hwhole

/-- The frames without a round leave the session as it was. -/
theorem prefetched_plain {envs : Nat → FrameEnv} (hsend : ∀ i, (envs i).sendOk = true) (s : Session)
    (frames : List (List UInt8)) : ∀ (plain : List (List UInt8)) (i : Nat), (∀ f ∈ plain, PlainFrame lz4 f) →
    (prefetched lz4 envs i s (plain ++ frames)).2 = (prefetched lz4 envs (i + plain.length) s frames).2 := by
  intro plain
  induction plain with
  | nil =>
    intro i _
    rfl
  | cons f plain ih =>
    intro i hplain
    obtain ⟨v, hv⟩ := processLiveFrame_plain (s := s) (hplain f List.mem_cons_self) (hsend i)
    rw [List.cons_append, prefetched, hv, List.length_cons, Nat.add_comm plain.length, ← Nat.add_assoc]
    exact ih (i + 1) (fun g hg => hplain g (List.mem_cons_of_mem f hg))

end

/-- **Vetting against the session.**  A peer that passed vetting passes the session's
    gates on all the frames it was vetted by, if and only if the session starts from
    no round at all or from one at most `MAX_ACTIVE_ROUND_JUMP` below the vetted block. -/
theorem vetted_frames_pass_iff (lz4 : Lz4.Decoder) (io : VetIo) (ip : String)
    (greet input : List UInt8) (minRoundExclusive netTip : UInt32) (live : LivePeerSession)
    (hopen : openLivePeerSessionWithGreet lz4 io ip greet minRoundExclusive netTip input = .ok live)
    (envs : Nat → FrameEnv) (htip : ∀ i, (envs i).netTip = netTip) (hsend : ∀ i, (envs i).sendOk = true) :
    (∃ s, (prefetched lz4 envs 0 (Session.start minRoundExclusive) live.prefetchedFrames).2 = .ok s) ↔
      minRoundExclusive = 0 ∨ live.firstRound ≤ Word.satAdd minRoundExclusive MAX_ACTIVE_ROUND_JUMP := by
  obtain ⟨plain, block, hframes, hplain, hblock⟩ := openLivePeerSession_spec hopen
  rw [hframes, prefetched_plain hsend _ _ _ _ hplain]
  rw [← htip (0 + plain.length)] at hblock
  have hiff := processLiveFrame_vettedBlock (s := Session.start minRoundExclusive) hblock (hsend _)
  refine Iff.trans ?_ hiff
  rw [prefetched]
  constructor
  · rintro ⟨s, hs⟩
    rcases hout : processLiveFrame lz4 (Session.start minRoundExclusive) (envs (0 + plain.length)) block with c | out
    · rw [hout] at hs
      cases hs
    · exact ⟨out, rfl⟩
  · rintro ⟨⟨s, v⟩, hout⟩
    rw [hout]
    exact ⟨s, rfl⟩

/-- A block of round 1,000,020,001, as one run of literals. -/
def farBlock : List UInt8 :=
  [0, 0, 0, 29, 1, 23, 0, 0, 0, 0xf0, 8, 0xfc, 0x21, 0x18, 0x9b, 0x3b, 0xfc, 0x20, 0x18, 0x9b, 0x3b,
    0xfc, 0x1f, 0x18, 0x9b, 0x3b, 0, 0, 0, 0, 0, 0, 0, 0]

/-- A peer that greets, sends a control frame and then that block. -/
def farStream : List UInt8 := [0, 0, 0, 1, 0, 3] ++ [0, 0, 0, 1, 0, 7] ++ farBlock

/-- A replayed blob that ends with four blocks of round 1,000,000,000. -/
def oldBlob : List UInt8 :=
  (List.replicate 4 [0, 0, 0, 29, 1, 23, 0, 0, 0, 0xf0, 8, 0xfc, 0x00, 0xca, 0x9a, 0x3b, 0xfc, 0xff, 0xc9, 0x9a,
    0x3b, 0xfc, 0xfe, 0xc9, 0x9a, 0x3b, 0, 0, 0, 0, 0, 0, 0, 0]).flatten

def farSession : LivePeerSession :=
  ⟨"192.0.2.7", [], [0, 0, 0, 1, 0, 3], [[0, 0, 0, 1, 0, 7], farBlock], 1000020001, none⟩

set_option maxRecDepth 20000 in
theorem blockRound_farBlock : blockRound decompressSizePrepended (farBlock.drop 5) = some 1000020001 := by
  decide

set_option maxRecDepth 20000 in
theorem replayedFloor_oldBlob : replayedFloor decompressSizePrepended oldBlob 1000020001 = 1000000000 := by
  decide

set_option maxRecDepth 20000 in
theorem open_farStream {m : UInt32} (hm : m = 1000000000 ∨ m = 1000000001) :
    openLivePeerSessionWithGreet decompressSizePrepended {} "192.0.2.7" [0, 0, 0, 0, 0, 0, 0, 0] m 1000020001
      farStream = .ok farSession := by
  rcases hm with rfl | rfl
  · decide
  · decide

theorem vetted_frames_pass_farStream :
    openLivePeerSessionWithGreet decompressSizePrepended {} "192.0.2.7" [0, 0, 0, 0, 0, 0, 0, 0] 1000000001
        1000020001 farStream = .ok farSession ∧
      ∃ s, (prefetched decompressSizePrepended (fun _ => { netTip := 1000020001, liveFloor := 1000000001 }) 0
        (Session.start 1000000001) farSession.prefetchedFrames).2 = .ok s := by
  have hopen := open_farStream (Or.inr rfl)
  refine ⟨hopen, ?_⟩
  rw [vetted_frames_pass_iff _ _ _ _ _ _ _ _ hopen _ (fun _ => rfl) (fun _ => rfl)]
  right
  decide

/-- Selection, given the floor of the replayed cache, takes a peer whose first block
    is 20,001 rounds above it; the session started from that floor refuses the block. -/
theorem vetted_block_refused_as_jump :
    replayedFloor decompressSizePrepended oldBlob 1000020001 = 1000000000 ∧
    openLivePeerSessionWithGreet decompressSizePrepended {} "192.0.2.7" [0, 0, 0, 0, 0, 0, 0, 0] 1000000000
        1000020001 farStream = .ok farSession ∧
      (prefetched decompressSizePrepended (fun _ => { netTip := 1000020001, liveFloor := 1000000000 }) 0
        (Session.start 1000000000) farSession.prefetchedFrames).2 = .error (.jump 1000020001 1000000000) := by
  refine ⟨replayedFloor_oldBlob, open_farStream (Or.inl rfl), ?_⟩
  have hcontrol : processLiveFrame decompressSizePrepended (Session.start 1000000000)
      { netTip := 1000020001, liveFloor := 1000000000 } [0, 0, 0, 1, 0, 7] =
        .ok (Session.start 1000000000, .forwarded .control) := rfl
  have hblock : processLiveFrame decompressSizePrepended (Session.start 1000000000)
      { netTip := 1000020001, liveFloor := 1000000000 } farBlock = .error (.jump 1000020001 1000000000) := by
    have hround := blockRound_farBlock
    simp only [farBlock, List.drop_succ_cons, List.drop_zero] at hround
    simp only [processLiveFrame, farBlock, hround]
    rfl
  simp only [farSession, prefetched, hcontrol, hblock]

end Hypersync.Gateway
