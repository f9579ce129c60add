import Hypersync.Protocol.BlockRound
import Hypersync.Protocol.Rounds
import Hypersync.Push.Progress

/-!
# What a push session sends its node

A session first passes the frames that selection prefetched through
`process_live_frame`, then reads the active peer's byte stream frame by frame in
`pump_merge`.  Both put block frames through the same gates; everything else is
forwarded as it is.

Shared values (the network tip, the node's floor, the freshest round, the state
of the node's queue), the clock and the outcome of the network operations are
read from a `FrameEnv`, a new one for every frame, about which nothing is assumed.
The session is described by the list of frames it processed without ending, each
with its verdict (`Entry`), and by why it ended (`Cause`).
-/

namespace Hypersync.Push

open Hypersync.Protocol

/-! ## 1. Verdicts -/

inductive FrameKindSeen where
  | control
  | block
  | dataNoRound
deriving DecidableEq, Repr

inductive Drop where
  | floor
  | dup
deriving DecidableEq, Repr

inductive Verdict where
  | forwarded (kind : FrameKindSeen)
  | dropped (why : Drop)
deriving DecidableEq, Repr

def Verdict.queued : Verdict → Bool
  | .forwarded _ => true
  | .dropped _ => false

inductive Cause where
  | shortPrefetched
  | missizedPrefetched
  | prefetchedWriterClosed
  | stalled (lastRound : UInt32)
  | idleTimeout
  | idleTimeoutPayload
  | readFailed
  | oversized
  | implausibleRound (rnd : UInt32)
  | jump (rnd prev : UInt32)
  | lagsFreshest (behind : UInt32)
  | tipLag (rnd netTip lag : UInt32)
  | writerClosed
deriving DecidableEq, Repr

/-- The text of the error; the reader's own errors have theirs from the system, and
    a pump whose writer is gone ends without one. -/
def Cause.text : Cause → String
  | .shortPrefetched => "short prefetched frame"
  | .missizedPrefetched => "mis-sized prefetched frame"
  | .prefetchedWriterClosed => "node writer closed"
  | .stalled lastRound => s!"no block progress for 30s (last round {lastRound})"
  | .idleTimeout => "idle timeout"
  | .idleTimeoutPayload => "idle timeout (payload)"
  | .readFailed => "early eof"
  | .oversized => "oversized frame from active peer"
  | .implausibleRound rnd => s!"implausible active block round {rnd}"
  | .jump rnd prev => s!"active block round jump round={rnd} prev={prev} max_jump=20000"
  | .lagsFreshest behind => s!"active peer lags the freshest stream by {behind} rounds"
  | .tipLag rnd netTip lag =>
    s!"active block round lagged round={rnd} net_tip={netTip} lag={lag} max_lag=1500"
  | .writerClosed => ""

/-! ## 2. The session's state and what it reads -/

structure Session where
  gate : RoundForwardGate
  activeRound : UInt32

/-- The gate and the round baseline a session starts from. -/
def Session.start (initialLastForwarded : UInt32) : Session where
  gate := RoundForwardGate.withLastForwarded 16384 initialLastForwarded
  activeRound := initialLastForwarded

structure LagGuard where
  lagRounds : UInt32
  grace : Nat

/-- What the shared state, the clock and the network answer while one frame is
    processed. -/
structure FrameEnv where
  netTip : UInt32
  liveFloor : UInt32
  freshest : Option UInt32 := none
  backedUpBefore : Bool := false
  backedUp : Bool := false
  holdAt : Nat := 0
  stallAt : Nat := 0
  roundAt : Nat := 0
  lagAt : Nat := 0
  headerTimeout : Bool := false
  payloadTimeout : Bool := false
  sendOk : Bool := true

structure Entry where
  frame : List UInt8
  env : FrameEnv
  verdict : Verdict

/-! ## 3. The gates -/

/-- Both paths from the tip-lag check on. -/
def passRound (s : Session) (env : FrameEnv) (rnd : UInt32) : Except Cause (Session × Verdict) :=
  match roundLagFromTip rnd env.netTip ACTIVE_ROUND_MAX_LAG with
  | some lag => .error (.tipLag rnd env.netTip lag)
  | none =>
    if rnd ≤ env.liveFloor then .ok (s, .dropped .floor)
    else
      let (forward, gate) := s.gate.shouldForward rnd true
      .ok ({ s with gate := gate }, if forward then .forwarded .block else .dropped .dup)

/-- `tx.send(frame)`: a forwarded frame needs the writer. -/
def send (env : FrameEnv) (closed : Cause) (out : Session × Verdict) :
    Except Cause (Session × Verdict) :=
  if out.2.queued ∧ !env.sendOk then .error closed else .ok out

section
variable (lz4 : Lz4.Decoder)

def processLiveFrame (s : Session) (env : FrameEnv) (frame : List UInt8) :
    Except Cause (Session × Verdict) :=
  match frame with
  | b0 :: b1 :: b2 :: b3 :: typ :: payload =>
    if (Word.ofBe b0 b1 b2 b3).toNat ≠ payload.length then .error .missizedPrefetched
    else if typ ≠ 1 then send env .prefetchedWriterClosed (s, .forwarded .control)
    else
      match blockRound lz4 payload with
      | none => send env .prefetchedWriterClosed (s, .forwarded .dataNoRound)
      | some rnd =>
        if !isPlausibleMainnetRound rnd env.netTip then .error (.implausibleRound rnd)
        else if s.activeRound ≠ 0 ∧ Word.satAdd s.activeRound MAX_ACTIVE_ROUND_JUMP < rnd then
          .error (.jump rnd s.activeRound)
        else
          match passRound { s with activeRound := max s.activeRound rnd } env rnd with
          | .error c => .error c
          | .ok out => send env .prefetchedWriterClosed out
  | _ => .error .shortPrefetched

/-- The body of `pump_merge`'s loop behind the read. -/
def pumpFrame (guard : Option LagGuard) (p : BlockProgress) (s : Session) (env : FrameEnv)
    (typ : UInt8) (payload : List UInt8) : Except Cause (BlockProgress × Session × Verdict) :=
  let sendWith (p : BlockProgress) (out : Session × Verdict) :=
    match send env .writerClosed out with
    | .error c => .error c
    | .ok out => .ok (p, out)
  if typ ≠ 1 then sendWith p (s, .forwarded .control)
  else
    match blockRound lz4 payload with
    | none => sendWith p (s, .forwarded .dataNoRound)
    | some rnd =>
      if !isPlausibleMainnetRound rnd env.netTip then .error (.implausibleRound rnd)
      else
        match p.onRound rnd env.roundAt with
        | none => .error (.jump rnd p.lastRound)
        | some p =>
          let (p, behind) :=
            match guard with
            | none => (p, none)
            | some g => p.lagging env.freshest g.lagRounds g.grace env.backedUp env.lagAt
          match behind with
          | some behind => .error (.lagsFreshest behind)
          | none =>
            match passRound { s with activeRound := max s.activeRound rnd } env rnd with
            | .error c => .error c
            | .ok out => sendWith p out

/-- Read one frame off the stream: its header, its payload and the bytes behind it. -/
def readFrame (env : FrameEnv) : List UInt8 →
    Except Cause (List UInt8 × UInt8 × List UInt8 × List UInt8)
  | b0 :: b1 :: b2 :: b3 :: typ :: rest =>
    if env.headerTimeout then .error .idleTimeout
    else
      let len := (Word.ofBe b0 b1 b2 b3).toNat
      if MAX_LIVE_FRAME < len then .error .oversized
      else if env.payloadTimeout then .error .idleTimeoutPayload
      else if rest.length < len then .error .readFailed
      else .ok ([b0, b1, b2, b3, typ], typ, rest.take len, rest.drop len)
  | _ => if env.headerTimeout then .error .idleTimeout else .error .readFailed

/-- The loop of `pump_merge` on the bytes the peer sends before it closes.  Every
    turn takes at least a header, so the length of the input is enough fuel; `i`
    numbers the frames. -/
def pumpMerge (guard : Option LagGuard) (envs : Nat → FrameEnv) :
    Nat → Nat → BlockProgress → Session → List UInt8 → List Entry × Cause
  | 0, _, _, _, _ => ([], .readFailed)
  | fuel + 1, i, p, s, input =>
    let env := envs i
    let p := if env.backedUpBefore then p.hold env.holdAt else p
    if p.stalled env.stallAt then ([], .stalled p.lastRound)
    else
      match readFrame env input with
      | .error c => ([], c)
      | .ok (hdr, typ, payload, rest) =>
        match pumpFrame lz4 guard p s env typ payload with
        | .error c => ([], c)
        | .ok (p, s, verdict) =>
          let (entries, c) := pumpMerge guard envs fuel (i + 1) p s rest
          (⟨hdr ++ payload, env, verdict⟩ :: entries, c)

/-- The loop of `serve_push` over the prefetched frames. -/
def prefetched (envs : Nat → FrameEnv) :
    Nat → Session → List (List UInt8) → List Entry × Except Cause Session
  | _, s, [] => ([], .ok s)
  | i, s, frame :: frames =>
    match processLiveFrame lz4 s (envs i) frame with
    | .error c => ([], .error c)
    | .ok (s, verdict) =>
      let (entries, out) := prefetched envs (i + 1) s frames
      (⟨frame, envs i, verdict⟩ :: entries, out)

/-- `serve_push` from its first prefetched frame on. -/
def servePush (guard : Option LagGuard) (envs : Nat → FrameEnv) (startAt : Nat)
    (initialLastForwarded : UInt32) (prefetchedFrames : List (List UInt8)) (live : List UInt8) :
    List Entry × Cause :=
  match prefetched lz4 envs 0 (Session.start initialLastForwarded) prefetchedFrames with
  | (entries, .error c) => (entries, c)
  | (entries, .ok s) =>
    let (entries', c) := pumpMerge lz4 guard envs (live.length + 1) entries.length
      (BlockProgress.new s.activeRound startAt) s live
    (entries ++ entries', c)

/-! ## 4. What a verdict has to be -/

/-- The round of a block frame: type 1 with a decodable round. -/
def roundOf (frame : List UInt8) : Option UInt32 :=
  match frame with
  | _ :: _ :: _ :: _ :: typ :: payload => if typ = 1 then blockRound lz4 payload else none
  | _ => none

/-- The verdict on `e` when `last` is the highest round sent so far. -/
def Judged (last : UInt32) (e : Entry) : Prop :=
  (roundOf lz4 e.frame = none → e.verdict.queued = true) ∧
  ∀ r, roundOf lz4 e.frame = some r → (e.verdict.queued = true ↔ e.env.liveFloor < r ∧ last < r)

/-- The highest round sent, after `e`. -/
def sentAfter (last : UInt32) (e : Entry) : UInt32 :=
  match e.verdict.queued, roundOf lz4 e.frame with
  | true, some r => max last r
  | _, _ => last

/-- Every verdict of a session is right, in turn; `i` numbers the frames. -/
def AllJudged (envs : Nat → FrameEnv) : Nat → UInt32 → List Entry → Prop
  | _, _, [] => True
  | i, last, e :: entries =>
    e.env = envs i ∧ Judged lz4 last e ∧ AllJudged envs (i + 1) (sentAfter lz4 last e) entries

end

/-! ## 5. One frame -/

theorem send_eq_ok {env : FrameEnv} {closed : Cause} {out out' : Session × Verdict}
    (h : send env closed out = .ok out') : out' = out := by
  unfold send at h
  split at h
  · cases h
  · exact (Except.ok.inj h).symm

/-- The gates of a plausible round: forwarded exactly above the floor and above the
    last forwarded round. -/
theorem passRound_spec {s s' : Session} {env : FrameEnv} {rnd : UInt32} {v : Verdict}
    (hgate : s.gate.GateInv) (hpos : 0 < rnd) (h : passRound s env rnd = .ok (s', v)) :
    s'.gate.GateInv ∧
    (v.queued = true ↔ env.liveFloor < rnd ∧ s.gate.lastForwarded < rnd) ∧
    s'.gate.lastForwarded = if v.queued then max s.gate.lastForwarded rnd else s.gate.lastForwarded := by
  unfold passRound at h
  split at h
  · cases h
  split at h
  · rename_i hfloor
    simp only [Except.ok.injEq, Prod.mk.injEq] at h
    obtain ⟨rfl, rfl⟩ := h
    refine ⟨hgate, ?_, rfl⟩
    constructor
    · intro hq
      cases hq
    · rintro ⟨hlt, -⟩
      exact absurd hfloor (not_le.mpr hlt)
  · rename_i hfloor
    obtain ⟨hforward, hlast, hinv⟩ := RoundForwardGate.shouldForward_active hgate hpos
    simp only [Except.ok.injEq, Prod.mk.injEq] at h
    obtain ⟨rfl, rfl⟩ := h
    refine ⟨hinv, ?_, ?_⟩
    · by_cases hlt : s.gate.lastForwarded < rnd
      · simp [hforward, hlt, Verdict.queued, not_le.mp hfloor]
      · simp [hforward, hlt, Verdict.queued]
    · by_cases hlt : s.gate.lastForwarded < rnd
      · simp [hforward, hlt, Verdict.queued, hlast]
      · simp [hforward, hlt, Verdict.queued, hlast, not_lt.mp hlt]

section
variable {lz4 : Lz4.Decoder}

/-- The state a session is in when the highest round it sent is `last`. -/
def At (last : UInt32) (s : Session) : Prop := s.gate.GateInv ∧ s.gate.lastForwarded = last

/-- A frame without a round is forwarded, and leaves the gate alone. -/
theorem judged_of_no_round {last : UInt32} {s : Session} {frame : List UInt8} {env : FrameEnv}
    {kind : FrameKindSeen} (hat : At last s) (hround : roundOf lz4 frame = none) :
    Judged lz4 last ⟨frame, env, .forwarded kind⟩ ∧
      At (sentAfter lz4 last ⟨frame, env, .forwarded kind⟩) s := by
  refine ⟨⟨fun _ => rfl, ?_⟩, ?_⟩
  · intro r hr
    rw [hround] at hr
    cases hr
  · simp only [sentAfter, hround, Verdict.queued]
    exact hat

/-- A frame with a plausible round that passed the gates. -/
theorem judged_of_round {last rnd : UInt32} {s s' : Session} {frame : List UInt8} {env : FrameEnv}
    {v : Verdict} (hat : At last s) (hround : roundOf lz4 frame = some rnd) (hpos : 0 < rnd)
    (hpass : passRound s env rnd = .ok (s', v)) :
    Judged lz4 last ⟨frame, env, v⟩ ∧ At (sentAfter lz4 last ⟨frame, env, v⟩) s' := by
  obtain ⟨hinv, hqueued, hlast⟩ := passRound_spec hat.1 hpos hpass
  rw [hat.2] at hqueued hlast
  refine ⟨⟨?_, ?_⟩, hinv, ?_⟩
  · intro hnone
    rw [hround] at hnone
    cases hnone
  · intro r hr
    rw [hround, Option.some.injEq] at hr
    rw [← hr]
    exact hqueued
  · rw [hlast]
    simp only [sentAfter, hround]
    cases v.queued <;> rfl

theorem processLiveFrame_judged {last : UInt32} {s s' : Session} {env : FrameEnv} {frame : List UInt8}
    {v : Verdict} (hat : At last s) (h : processLiveFrame lz4 s env frame = .ok (s', v)) :
    Judged lz4 last ⟨frame, env, v⟩ ∧ At (sentAfter lz4 last ⟨frame, env, v⟩) s' := by
  unfold processLiveFrame at h
  split at h
  · rename_i b0 b1 b2 b3 typ payload
    split at h
    · cases h
    split at h
    · -- a control frame
      rename_i htyp
      cases send_eq_ok h
      exact judged_of_no_round hat (if_neg htyp)
    rename_i htyp
    have hround : roundOf lz4 (b0 :: b1 :: b2 :: b3 :: typ :: payload) = blockRound lz4 payload :=
      if_pos (not_not.mp htyp)
    split at h
    · rename_i hnone
      cases send_eq_ok h
      exact judged_of_no_round hat (hround.trans hnone)
    rename_i rnd hsome
    split at h
    · cases h
    rename_i hok
    split at h
    · cases h
    split at h
    · cases h
    · rename_i out hpass
      cases send_eq_ok h
      refine judged_of_round (s := { s with activeRound := max s.activeRound rnd }) hat
        (hround.trans hsome) (round_pos_of_check hok) hpass
  · cases h

theorem pumpFrame_judged {guard : Option LagGuard} {last : UInt32} {p p' : BlockProgress}
    {s s' : Session} {env : FrameEnv} {typ : UInt8} {payload : List UInt8} {v : Verdict}
    (b0 b1 b2 b3 : UInt8) (hat : At last s) (h : pumpFrame lz4 guard p s env typ payload = .ok (p', s', v)) :
    Judged lz4 last ⟨[b0, b1, b2, b3, typ] ++ payload, env, v⟩ ∧
      At (sentAfter lz4 last ⟨[b0, b1, b2, b3, typ] ++ payload, env, v⟩) s' := by
  -- what is sent is what was judged
  have hsend : ∀ {q : BlockProgress} {out : Session × Verdict},
      (match send env .writerClosed out with
        | .error c => .error c
        | .ok out => .ok (q, out)) = Except.ok (p', s', v) → out = (s', v) := by
    intro q out hq
    split at hq
    · cases hq
    · rename_i out' hout
      have := send_eq_ok hout
      simp only [Except.ok.injEq, Prod.mk.injEq] at hq
      obtain ⟨-, rfl⟩ := hq
      exact this.symm
  simp only [pumpFrame] at h
  split at h
  · rename_i htyp
    cases hsend h
    exact judged_of_no_round hat (if_neg htyp)
  rename_i htyp
  have hround : roundOf lz4 ([b0, b1, b2, b3, typ] ++ payload) = blockRound lz4 payload :=
    if_pos (not_not.mp htyp)
  split at h
  · rename_i hnone
    cases hsend h
    exact judged_of_no_round hat (hround.trans hnone)
  rename_i rnd hsome
  split at h
  · cases h
  rename_i hok
  split at h
  · cases h
  split at h
  · cases h
  split at h
  · cases h
  · rename_i out hpass
    cases hsend h
    refine judged_of_round (s := { s with activeRound := max s.activeRound rnd }) hat
      (hround.trans hsome) (round_pos_of_check hok) hpass

/-! ## 6. Whole sessions -/

/-- A frame whose header gives the length of its payload. -/
def WellFormed : List UInt8 → Prop
  | b0 :: b1 :: b2 :: b3 :: _ :: payload => (Word.ofBe b0 b1 b2 b3).toNat = payload.length
  | _ => False

/-- Reading a stream that starts with a well-formed frame gives that frame, unless a timer
    fires or the frame is too large. -/
theorem readFrame_append (env : FrameEnv) {f : List UInt8} (hf : WellFormed f) (rest : List UInt8) :
    (∃ b0 b1 b2 b3 typ payload, f = b0 :: b1 :: b2 :: b3 :: typ :: payload ∧
      readFrame env (f ++ rest) = .ok ([b0, b1, b2, b3, typ], typ, payload, rest)) ∨
    ∃ c, readFrame env (f ++ rest) = .error c ∧
      (c = .idleTimeout ∨ c = .idleTimeoutPayload ∨ c = .oversized ∧ MAX_LIVE_FRAME + 5 < f.length) := by
  rcases f with _ | ⟨b0, _ | ⟨b1, _ | ⟨b2, _ | ⟨b3, _ | ⟨typ, payload⟩⟩⟩⟩⟩
  · cases hf
  · cases hf
  · cases hf
  · cases hf
  · cases hf
  have hlen : (Word.ofBe b0 b1 b2 b3).toNat = payload.length := hf
  simp only [List.cons_append, readFrame, hlen]
  by_cases hheader : env.headerTimeout = true
  · exact Or.inr ⟨.idleTimeout, if_pos hheader, Or.inl rfl⟩
  rw [if_neg hheader]
  by_cases hbig : MAX_LIVE_FRAME < payload.length
  · exact Or.inr ⟨.oversized, if_pos hbig, Or.inr (Or.inr ⟨rfl, Nat.add_lt_add_right hbig 5⟩)⟩
  rw [if_neg hbig]
  by_cases hidle : env.payloadTimeout = true
  · exact Or.inr ⟨.idleTimeoutPayload, if_pos hidle, Or.inr (Or.inl rfl)⟩
  rw [if_neg hidle, if_neg (by simp), List.take_left, List.drop_left]
  exact Or.inl ⟨b0, b1, b2, b3, typ, payload, rfl, rfl⟩

theorem readFrame_nil (env : FrameEnv) : ∃ c, readFrame env [] = .error c := by
  by_cases hheader : env.headerTimeout = true
  · exact ⟨.idleTimeout, if_pos hheader⟩
  · exact ⟨.readFailed, if_neg hheader⟩

theorem passRound_error {s : Session} {env : FrameEnv} {rnd : UInt32} {c : Cause}
    (h : passRound s env rnd = .error c) : c ≠ .readFailed := by
  unfold passRound at h
  split at h
  · cases h
    simp
  split at h
  · cases h
  · cases h

theorem send_error {env : FrameEnv} {closed c : Cause} {out : Session × Verdict}
    (h : send env closed out = .error c) : c = closed := by
  unfold send at h
  split at h
  · exact (Except.error.inj h).symm
  · cases h

/-- The gates never report the end of the stream. -/
theorem processLiveFrame_error {s : Session} {env : FrameEnv} {frame : List UInt8} {c : Cause}
    (h : processLiveFrame lz4 s env frame = .error c) : c ≠ .readFailed := by
  unfold processLiveFrame at h
  split at h
  · split at h
    · cases h
      simp
    split at h
    · rw [send_error h]
      simp
    split at h
    · rw [send_error h]
      simp
    split at h
    · cases h
      simp
    split at h
    · cases h
      simp
    split at h
    · rename_i hpass
      cases h
      exact passRound_error hpass
    · rw [send_error h]
      simp
  · cases h
    simp

theorem pumpFrame_error {guard : Option LagGuard} {p : BlockProgress} {s : Session} {env : FrameEnv}
    {typ : UInt8} {payload : List UInt8} {c : Cause}
    (h : pumpFrame lz4 guard p s env typ payload = .error c) : c ≠ .readFailed := by
  have hsend : ∀ {q : BlockProgress} {out : Session × Verdict},
      (match send env .writerClosed out with
        | .error c => Except.error c
        | .ok out => .ok (q, out)) = .error c → c ≠ .readFailed := by
    intro q out hq
    split at hq <;> cases hq
    rename_i hout
    rw [send_error hout]
    simp
  simp only [pumpFrame] at h
  split at h
  · exact hsend h
  split at h
  · exact hsend h
  split at h
  · cases h
    simp
  split at h
  · cases h
    simp
  split at h
  · cases h
    simp
  split at h
  · rename_i hpass
    cases h
    exact passRound_error hpass
  · exact hsend h

variable (lz4) in
theorem prefetched_spec (envs : Nat → FrameEnv) : ∀ (frames : List (List UInt8)) (i : Nat)
    (last : UInt32) (s : Session), At last s →
    let out := prefetched lz4 envs i s frames
    out.1.map Entry.frame <+: frames ∧ AllJudged lz4 envs i last out.1 ∧
    (∀ c, out.2 = .error c → c ≠ .readFailed) ∧
    ∀ s', out.2 = .ok s' → out.1.map Entry.frame = frames ∧
      At (out.1.foldl (sentAfter lz4) last) s' := by
  intro frames
  induction frames with
  | nil =>
    intro i last s hat
    refine ⟨List.prefix_refl _, trivial, ?_, ?_⟩
    · intro c hc
      cases hc
    · intro s' hs'
      cases hs'
      exact ⟨rfl, hat⟩
  | cons frame frames ih =>
    intro i last s hat
    simp only [prefetched]
    rcases hone : processLiveFrame lz4 s (envs i) frame with c | ⟨s₁, v⟩
    · refine ⟨List.nil_prefix, trivial, ?_, ?_⟩
      · intro c' hc'
        cases hc'
        exact processLiveFrame_error hone
      · intro s' hs'
        cases hs'
    · obtain ⟨hjudged, hat₁⟩ := processLiveFrame_judged hat hone
      obtain ⟨hpre, hall, herr, hok⟩ := ih (i + 1) _ s₁ hat₁
      refine ⟨?_, ⟨rfl, hjudged, hall⟩, herr, ?_⟩
      · exact (List.prefix_cons_inj frame).mpr hpre
      · intro s' hs'
        obtain ⟨hframes, hat'⟩ := hok s' hs'
        exact ⟨congrArg (frame :: ·) hframes, hat'⟩

variable (lz4) in
theorem pumpMerge_spec (guard : Option LagGuard) (envs : Nat → FrameEnv) {fuel : Nat} :
    ∀ {live : List (List UInt8)} {i : Nat} {last : UInt32} {p : BlockProgress} {s : Session},
    (∀ f ∈ live, WellFormed f) → live.flatten.length < fuel → At last s →
    let out := pumpMerge lz4 guard envs fuel i p s live.flatten
    out.1.map Entry.frame <+: live ∧ AllJudged lz4 envs i last out.1 ∧
    (out.2 = .readFailed → out.1.map Entry.frame = live) := by
  induction fuel with
  | zero =>
    intro live i last p s _ hfuel _
    omega
  | succ fuel ih =>
    intro live i last p s hlive hfuel hat
    -- a session that ends here has processed none of the frames left
    have hend : ∀ c : Cause, (c = .readFailed → live = []) →
        (([] : List Entry).map Entry.frame <+: live ∧ AllJudged lz4 envs i last [] ∧
          (c = .readFailed → ([] : List Entry).map Entry.frame = live)) := by
      intro c hc
      exact ⟨List.nil_prefix, trivial, fun h => (hc h).symm⟩
    simp only [pumpMerge]
    generalize (if (envs i).backedUpBefore = true then p.hold (envs i).holdAt else p) = q
    by_cases hstalled : q.stalled (envs i).stallAt = true
    · rw [if_pos hstalled]
      exact hend _ (fun h => by cases h)
    rw [if_neg hstalled]
    rcases live with _ | ⟨f, live⟩
    · -- the peer closed the stream at a frame boundary
      obtain ⟨c, hread⟩ := readFrame_nil (envs i)
      simp only [List.flatten_nil, hread]
      exact hend c (fun _ => rfl)
    rw [List.flatten_cons]
    rcases readFrame_append (envs i) (hlive f (by simp)) live.flatten with hframe | hfail
    · obtain ⟨b0, b1, b2, b3, typ, payload, rfl, hread⟩ := hframe
      simp only [hread]
      rcases hone : pumpFrame lz4 guard q s (envs i) typ payload with c | ⟨q', s', v⟩
      · exact hend c (fun h => absurd h (pumpFrame_error hone))
      · obtain ⟨hjudged, hat'⟩ := pumpFrame_judged b0 b1 b2 b3 hat hone
        have hfuel' : live.flatten.length < fuel := by
          simp only [List.flatten_cons, List.length_append, List.length_cons] at hfuel
          omega
        obtain ⟨hpre, hall, hdone⟩ := ih (i := i + 1) (p := q')
          (fun g hg => hlive g (List.mem_cons_of_mem _ hg)) hfuel' hat'
        refine ⟨(List.prefix_cons_inj _).mpr hpre, ⟨rfl, hjudged, hall⟩, ?_⟩
        intro h
        exact congrArg (_ :: ·) (hdone h)
    · obtain ⟨c, hread, hc⟩ := hfail
      simp only [hread]
      apply hend c
      rintro rfl
      simp at hc

theorem AllJudged.append {envs : Nat → FrameEnv} : ∀ {es fs : List Entry} {i : Nat} {last : UInt32},
    AllJudged lz4 envs i last es →
    AllJudged lz4 envs (i + es.length) (es.foldl (sentAfter lz4) last) fs →
    AllJudged lz4 envs i last (es ++ fs) := by
  intro es
  induction es with
  | nil =>
    intro fs i last _ hfs
    exact hfs
  | cons e es ih =>
    intro fs i last hes hfs
    refine ⟨hes.1, hes.2.1, ih hes.2.2 ?_⟩
    rw [List.length_cons, Nat.add_comm es.length, ← Nat.add_assoc] at hfs
    exact hfs

variable (lz4) in
theorem servePush_spec (guard : Option LagGuard) (envs : Nat → FrameEnv) (startAt : Nat)
    (initial : UInt32) (frames live : List (List UInt8)) (hlive : ∀ f ∈ live, WellFormed f) :
    let out := servePush lz4 guard envs startAt initial frames live.flatten
    out.1.map Entry.frame <+: frames ++ live ∧ AllJudged lz4 envs 0 initial out.1 ∧
    (out.2 = .readFailed → out.1.map Entry.frame = frames ++ live) := by
  have hat : At initial (Session.start initial) :=
    ⟨RoundForwardGate.gateInv_withLastForwarded 16384 initial, rfl⟩
  obtain ⟨hpre, hall, herr, hok⟩ := prefetched_spec lz4 envs frames 0 initial _ hat
  simp only [servePush]
  rcases hrun : prefetched lz4 envs 0 (Session.start initial) frames with ⟨es, c | s⟩
  · rw [hrun] at hpre hall herr
    exact ⟨hpre.trans (List.prefix_append _ _), hall, fun h => absurd h (herr c rfl)⟩
  · rw [hrun] at hall hok
    obtain ⟨hframes, hat'⟩ := hok s rfl
    obtain ⟨hpre', hall', hdone⟩ := pumpMerge_spec lz4 guard envs (i := es.length)
      (p := BlockProgress.new s.activeRound startAt) hlive (Nat.lt_succ_self _) hat'
    refine ⟨?_, hall.append (by rwa [Nat.zero_add]), ?_⟩
    · rw [List.map_append, hframes]
      exact (List.prefix_append_right_inj _).mpr hpre'
    · intro h
      rw [List.map_append, hframes, hdone h]

/-! ## 7. The session as a whole -/

end

section
variable (lz4 : Lz4.Decoder)

/-- The frames queued to the node, in order. -/
def queuedFrames (entries : List Entry) : List (List UInt8) :=
  (entries.filter fun e => e.verdict.queued).map Entry.frame

/-- The block rounds among them. -/
def queuedRounds (entries : List Entry) : List UInt32 := (queuedFrames entries).filterMap (roundOf lz4)

end

section
variable {lz4 : Lz4.Decoder}

/-- The running maximum of the gate is the highest of the rounds queued so far. -/
theorem foldl_sentAfter_lt (r : UInt32) : ∀ (entries : List Entry) (last : UInt32),
    entries.foldl (sentAfter lz4) last < r ↔ ∀ q ∈ last :: queuedRounds lz4 entries, q < r := by
  intro entries
  induction entries with
  | nil =>
    intro last
    simp [queuedRounds, queuedFrames]
  | cons e entries ih =>
    intro last
    rw [List.foldl_cons, ih]
    simp only [queuedRounds, queuedFrames, List.filter_cons, List.forall_mem_cons, sentAfter]
    cases hq : e.verdict.queued
    · simp
    · cases hr : roundOf lz4 e.frame
      · simp [hr]
      · simp [hr, and_assoc]

theorem AllJudged.split {envs : Nat → FrameEnv} {e : Entry} {fs : List Entry} :
    ∀ {es : List Entry} {i : Nat} {last : UInt32}, AllJudged lz4 envs i last (es ++ e :: fs) →
      e.env = envs (i + es.length) ∧ Judged lz4 (es.foldl (sentAfter lz4) last) e := by
  intro es
  induction es with
  | nil =>
    intro i last h
    exact ⟨h.1, h.2.1⟩
  | cons x es ih =>
    intro i last h
    obtain ⟨henv, hjudged⟩ := ih h.2.2
    rw [Nat.add_assoc, Nat.add_comm 1] at henv
    exact ⟨henv, hjudged⟩

end

/-- **What a push session sends its node.**  The queued frames are a subsequence of
    the frames the active peer sent.  Every frame up to the one that ends the session
    is queued when it has no block round, and a block is queued exactly when its
    round is above the node's floor at that moment and above every round sent so
    far. -/
theorem push_session_queues_exactly (lz4 : Lz4.Decoder)
    (guard : Option LagGuard) (envs : Nat → FrameEnv) (startAt : Nat) (initial : UInt32)
    (frames live : List (List UInt8)) (hlive : ∀ f ∈ live, WellFormed f) :
    let out := servePush lz4 guard envs startAt initial frames live.flatten
    out.1.map Entry.frame <+: frames ++ live ∧
    (out.2 = .readFailed → out.1.map Entry.frame = frames ++ live) ∧
    (queuedFrames out.1).Sublist (frames ++ live) ∧
    ∀ before e after, out.1 = before ++ e :: after →
      (roundOf lz4 e.frame = none → e.verdict.queued = true) ∧
      ∀ r, roundOf lz4 e.frame = some r →
        (e.verdict.queued = true ↔
          (envs before.length).liveFloor < r ∧ ∀ q ∈ initial :: queuedRounds lz4 before, q < r) := by
  obtain ⟨hpre, hall, hdone⟩ := servePush_spec lz4 guard envs startAt initial frames live hlive
  refine ⟨hpre, hdone, ?_, ?_⟩
  · exact ((List.filter_sublist).map Entry.frame).trans hpre.sublist
  · intro before e after hsplit
    rw [hsplit] at hall
    obtain ⟨henv, hnone, hsome⟩ := hall.split
    rw [Nat.zero_add] at henv
    refine ⟨hnone, ?_⟩
    intro r hr
    rw [hsome r hr, henv, foldl_sentAfter_lt]

/-- A control frame, a block under the floor and one above it. -/
def firstFrames : List (List UInt8) := [[0, 0, 0, 1, 0, 7], blockFrame 1000000040, blockFrame 1000000100]

/-- The last of those again, the next block, a data frame without a round, and two blocks
    around the floor that a replay has raised by then. -/
def laterFrames : List (List UInt8) :=
  [blockFrame 1000000100, blockFrame 1000000101, [0, 0, 0, 0, 1], blockFrame 1000000150, blockFrame 1000000201]

def raisedFloor (i : Nat) : FrameEnv where
  netTip := 1000000400
  liveFloor := if i < 6 then 1000000050 else 1000000200

theorem wellFormed_laterFrames : ∀ f ∈ laterFrames, WellFormed f := by
  intro f hf
  simp only [laterFrames, List.mem_cons, List.not_mem_nil, or_false] at hf
  rcases hf with rfl | rfl | rfl | rfl | rfl
  · rfl
  · rfl
  · rfl
  · rfl
  · rfl

theorem push_session_queues_exactly_raisedFloor :
    let out := servePush decompressSizePrepended none raisedFloor 0 1000000000 firstFrames laterFrames.flatten
    out.1.map Entry.verdict =
      [.forwarded .control, .dropped .floor, .forwarded .block, .dropped .dup, .forwarded .block,
        .forwarded .dataNoRound, .dropped .floor, .forwarded .block] ∧
    out.1.map Entry.frame = firstFrames ++ laterFrames ∧
    (queuedFrames out.1).Sublist (firstFrames ++ laterFrames) ∧
    ∀ before e after, out.1 = before ++ e :: after → roundOf decompressSizePrepended e.frame = some 1000000100 →
      (e.verdict.queued = true ↔ (raisedFloor before.length).liveFloor < 1000000100 ∧
        ∀ q ∈ 1000000000 :: queuedRounds decompressSizePrepended before, q < 1000000100) := by
  have hend : (servePush decompressSizePrepended none raisedFloor 0 1000000000 firstFrames laterFrames.flatten).2 =
      .readFailed := by
    decide +kernel
  obtain ⟨-, hall, hqueued, hjudged⟩ := push_session_queues_exactly decompressSizePrepended none raisedFloor 0
    1000000000 firstFrames laterFrames wellFormed_laterFrames
  refine ⟨by decide +kernel, hall hend, hqueued, ?_⟩
  intro before e after hsplit hround
  exact (hjudged before e after hsplit).2 _ hround

end Hypersync.Push
