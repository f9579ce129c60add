import Hypersync.Push.Live

/-!
# One sequence of gates

The gates a frame goes through are written twice: in `process_live_frame` for the
frames selection prefetched, and in `pump_merge`, which keeps the round baseline of
the jump guard in a `BlockProgress` of its own.  Here they are stated once, without
timers, queue or byte stream (`gateFrame`, `Gated`).  Both loops run exactly that
sequence, so it does not matter where a session hands over from one to the other.
-/

namespace Hypersync.Push

open Hypersync.Protocol

/-- The session did not end on a frame: a timer fired or the node's writer was gone. -/
def Cause.disturbed : Cause → Bool
  | .stalled _ | .idleTimeout | .idleTimeoutPayload | .prefetchedWriterClosed | .writerClosed => true
  | _ => false

/-- The shared values a session reads, and nothing else happening. -/
def FrameEnv.calm (netTip liveFloor : UInt32) : FrameEnv where
  netTip := netTip
  liveFloor := liveFloor

def FrameEnv.Reads (netTip liveFloor : UInt32) (env : FrameEnv) : Prop :=
  env.netTip = netTip ∧ env.liveFloor = liveFloor

/-- What became of a frame. -/
def Entry.seen (e : Entry) : List UInt8 × Verdict := (e.frame, e.verdict)

/-! ## 1. The gates, stated once -/

section
variable (lz4 : Lz4.Decoder) (netTip liveFloor : UInt32)

def gateFrame (s : Session) (frame : List UInt8) : Except Cause (Session × Verdict) :=
  match frame with
  | _ :: _ :: _ :: _ :: typ :: payload =>
    if typ ≠ 1 then .ok (s, .forwarded .control)
    else
      match blockRound lz4 payload with
      | none => .ok (s, .forwarded .dataNoRound)
      | some rnd =>
        if !isPlausibleMainnetRound rnd netTip then .error (.implausibleRound rnd)
        else if s.activeRound ≠ 0 ∧ Word.satAdd s.activeRound MAX_ACTIVE_ROUND_JUMP < rnd then
          .error (.jump rnd s.activeRound)
        else passRound { s with activeRound := max s.activeRound rnd } (.calm netTip liveFloor) rnd
  | _ => .error .shortPrefetched

/-- The frames in turn, what became of each, and how it ended. -/
inductive Gated : Session → List (List UInt8) → List (List UInt8 × Verdict) → Except Cause Session → Prop
  | done (s : Session) : Gated s [] [] (.ok s)
  | stops {s : Session} {f : List UInt8} {fs : List (List UInt8)} {c : Cause}
      (h : gateFrame lz4 netTip liveFloor s f = .error c) : Gated s (f :: fs) [] (.error c)
  | passes {s s' : Session} {f : List UInt8} {fs : List (List UInt8)} {v : Verdict}
      {seen : List (List UInt8 × Verdict)} {out : Except Cause Session}
      (h : gateFrame lz4 netTip liveFloor s f = .ok (s', v)) (rest : Gated s' fs seen out) :
      Gated s (f :: fs) ((f, v) :: seen) out

end

section
variable {lz4 : Lz4.Decoder} {netTip liveFloor : UInt32}

namespace Gated

variable {s s' : Session} {fs gs : List (List UInt8)} {seen seen' : List (List UInt8 × Verdict)}
  {out out' : Except Cause Session} {c : Cause}

theorem unique (h : Gated lz4 netTip liveFloor s fs seen out) (h' : Gated lz4 netTip liveFloor s fs seen' out') :
    seen = seen' ∧ out = out' := by
  induction h generalizing seen' with
  | done s =>
    cases h'
    exact ⟨rfl, rfl⟩
  | stops h =>
    cases h' with
    | stops h' =>
      rw [h] at h'
      cases h'
      exact ⟨rfl, rfl⟩
    | passes h' =>
      rw [h] at h'
      cases h'
  | passes h _ ih =>
    cases h' with
    | stops h' =>
      rw [h] at h'
      cases h'
    | passes h' rest =>
      rw [h] at h'
      cases h'
      obtain ⟨rfl, rfl⟩ := ih rest
      exact ⟨rfl, rfl⟩

/-- The second part goes on in the state the first left. -/
theorem append (h : Gated lz4 netTip liveFloor s fs seen (.ok s'))
    (h' : Gated lz4 netTip liveFloor s' gs seen' out) : Gated lz4 netTip liveFloor s (fs ++ gs) (seen ++ seen') out := by
  generalize hok : Except.ok s' = first at h
  induction h with
  | done s =>
    cases hok
    exact h'
  | stops => cases hok
  | passes h _ ih => exact passes h (ih hok)

/-- What stops the first part stops the whole. -/
theorem append_of_error (h : Gated lz4 netTip liveFloor s fs seen (.error c)) (gs : List (List UInt8)) :
    Gated lz4 netTip liveFloor s (fs ++ gs) seen (.error c) := by
  generalize herror : Except.error c = first at h
  induction h with
  | done => cases herror
  | stops h => exact stops h
  | passes h _ ih => exact passes h (ih herror)

end Gated

/-! ## 2. Both paths go through them -/

theorem send_cases (env : FrameEnv) (closed : Cause) (out : Session × Verdict) :
    send env closed out = .ok out ∨ send env closed out = .error closed := by
  unfold send
  split
  · exact Or.inr rfl
  · exact Or.inl rfl

theorem passRound_eq_calm {env : FrameEnv} (henv : env.Reads netTip liveFloor) (s : Session) (rnd : UInt32) :
    passRound s env rnd = passRound s (.calm netTip liveFloor) rnd := by
  obtain ⟨rfl, rfl⟩ := henv
  rfl

theorem passRound_activeRound {s s' : Session} {env : FrameEnv} {rnd : UInt32} {v : Verdict}
    (h : passRound s env rnd = .ok (s', v)) : s'.activeRound = s.activeRound := by
  unfold passRound at h
  split at h
  · cases h
  split at h
  · cases h
    rfl
  · cases h
    rfl

variable (lz4) in
theorem processLiveFrame_eq {env : FrameEnv} {f : List UInt8} (henv : env.Reads netTip liveFloor)
    (hf : WellFormed f) (s : Session) :
    processLiveFrame lz4 s env f = gateFrame lz4 netTip liveFloor s f ∨
      processLiveFrame lz4 s env f = .error .prefetchedWriterClosed := by
  rcases f with _ | ⟨b0, _ | ⟨b1, _ | ⟨b2, _ | ⟨b3, _ | ⟨typ, payload⟩⟩⟩⟩⟩
  · cases hf
  · cases hf
  · cases hf
  · cases hf
  · cases hf
  have hlen : (Word.ofBe b0 b1 b2 b3).toNat = payload.length := hf
  simp only [processLiveFrame, gateFrame, hlen, ne_eq, not_true_eq_false, if_false, henv.1]
  split
  · exact send_cases ..
  cases blockRound lz4 payload with
  | none => exact send_cases ..
  | some rnd =>
    simp only [passRound_eq_calm henv]
    split
    · exact Or.inl rfl
    split
    · exact Or.inl rfl
    cases passRound { s with activeRound := max s.activeRound rnd } (.calm netTip liveFloor) rnd with
    | error c => exact Or.inl rfl
    | ok out => exact send_cases ..

/-- The jump guard of `BlockProgress`, in the words of the other one. -/
theorem onRound_eq (p : BlockProgress) (rnd : UInt32) (now : Nat) :
    (p.lastRound ≠ 0 ∧ Word.satAdd p.lastRound MAX_ACTIVE_ROUND_JUMP < rnd) ∧ p.onRound rnd now = none ∨
    ¬ (p.lastRound ≠ 0 ∧ Word.satAdd p.lastRound MAX_ACTIVE_ROUND_JUMP < rnd) ∧
      ∃ p', p.onRound rnd now = some p' ∧ p'.lastRound = max p.lastRound rnd := by
  by_cases hjump : p.lastRound ≠ 0 ∧ Word.satAdd p.lastRound MAX_ACTIVE_ROUND_JUMP < rnd
  · exact Or.inl ⟨hjump, if_pos hjump⟩
  · refine Or.inr ⟨hjump, ?_⟩
    rw [BlockProgress.onRound, if_neg hjump]
    by_cases hrise : p.lastRound < rnd
    · exact ⟨_, if_pos hrise, (max_eq_right hrise.le).symm⟩
    · exact ⟨_, if_neg hrise, (max_eq_left (not_lt.mp hrise)).symm⟩

variable (lz4) in
/-- The pump's body runs the gates as well, and keeps its baseline on the session's. -/
theorem pumpFrame_eq {env : FrameEnv} (henv : env.Reads netTip liveFloor) (b0 b1 b2 b3 typ : UInt8)
    (payload : List UInt8) {p : BlockProgress} {s : Session} (hlink : p.lastRound = s.activeRound) :
    pumpFrame lz4 none p s env typ payload = .error .writerClosed ∨
    (∃ c, gateFrame lz4 netTip liveFloor s (b0 :: b1 :: b2 :: b3 :: typ :: payload) = .error c ∧
      pumpFrame lz4 none p s env typ payload = .error c) ∨
    ∃ p' s' v, gateFrame lz4 netTip liveFloor s (b0 :: b1 :: b2 :: b3 :: typ :: payload) = .ok (s', v) ∧
      pumpFrame lz4 none p s env typ payload = .ok (p', s', v) ∧ p'.lastRound = s'.activeRound := by
  simp only [pumpFrame, gateFrame, henv.1]
  split
  · rcases send_cases env .writerClosed (s, .forwarded .control) with hsend | hsend
    · exact Or.inr (Or.inr ⟨p, s, _, rfl, by rw [hsend], hlink⟩)
    · exact Or.inl (by rw [hsend])
  cases blockRound lz4 payload with
  | none =>
    rcases send_cases env .writerClosed (s, .forwarded .dataNoRound) with hsend | hsend
    · exact Or.inr (Or.inr ⟨p, s, _, rfl, by simp only [hsend], hlink⟩)
    · exact Or.inl (by simp only [hsend])
  | some rnd =>
    simp only [passRound_eq_calm henv, ← hlink]
    split
    · exact Or.inr (Or.inl ⟨_, rfl, rfl⟩)
    rcases onRound_eq p rnd env.roundAt with ⟨hjump, hround⟩ | ⟨hjump, p', hround, hlast⟩
    · rw [if_pos hjump, hround]
      exact Or.inr (Or.inl ⟨_, rfl, rfl⟩)
    rw [if_neg hjump, hround]
    cases hpass : passRound { s with activeRound := max p.lastRound rnd } (.calm netTip liveFloor) rnd with
    | error c => exact Or.inr (Or.inl ⟨c, rfl, rfl⟩)
    | ok out =>
      obtain ⟨s', v⟩ := out
      rcases send_cases env .writerClosed (s', v) with hsend | hsend
      · refine Or.inr (Or.inr ⟨p', s', v, rfl, ?_, hlast.trans (passRound_activeRound hpass).symm⟩)
        simp only [hsend]
      · exact Or.inl (by simp only [hsend])

/-! ## 3. Both loops -/

/-- The cause a session ends with: that of the frame it stopped on, or the end of the stream. -/
def ended : Except Cause Session → Cause
  | .error c => c
  | .ok _ => .readFailed

variable (lz4) in
theorem prefetched_gated {envs : Nat → FrameEnv} (henvs : ∀ i, (envs i).Reads netTip liveFloor) :
    ∀ (frames : List (List UInt8)) (i : Nat) (s : Session), (∀ f ∈ frames, WellFormed f) →
      (∀ c, (prefetched lz4 envs i s frames).2 = .error c → c.disturbed = false) →
      Gated lz4 netTip liveFloor s frames ((prefetched lz4 envs i s frames).1.map Entry.seen)
        (prefetched lz4 envs i s frames).2 := by
  intro frames
  induction frames with
  | nil =>
    intro i s _ _
    exact Gated.done s
  | cons f frames ih =>
    intro i s hframes hcalm
    have heq := processLiveFrame_eq lz4 (henvs i) (hframes f List.mem_cons_self) s
    simp only [prefetched] at hcalm ⊢
    cases hone : processLiveFrame lz4 s (envs i) f with
    | error c =>
      rw [hone] at heq hcalm
      rcases heq with heq | heq
      · exact Gated.stops heq.symm
      · cases heq
        cases hcalm _ rfl
    | ok out =>
      obtain ⟨s', v⟩ := out
      rw [hone] at heq hcalm
      rcases heq with heq | heq
      · exact Gated.passes heq.symm (ih _ s' (fun g hg => hframes g (List.mem_cons_of_mem _ hg)) hcalm)
      · cases heq

theorem pumpMerge_gated {envs : Nat → FrameEnv} (henvs : ∀ i, (envs i).Reads netTip liveFloor) {fuel : Nat} :
    ∀ {live : List (List UInt8)} {i : Nat} {p : BlockProgress} {s : Session},
      (∀ f ∈ live, WellFormed f ∧ f.length ≤ MAX_LIVE_FRAME + 5) → live.flatten.length < fuel →
      p.lastRound = s.activeRound → (pumpMerge lz4 none envs fuel i p s live.flatten).2.disturbed = false →
      ∃ out, Gated lz4 netTip liveFloor s live
          ((pumpMerge lz4 none envs fuel i p s live.flatten).1.map Entry.seen) out ∧
        ended out = (pumpMerge lz4 none envs fuel i p s live.flatten).2 := by
  induction fuel with
  | zero =>
    intro live i p s _ hfuel
    exact absurd hfuel (Nat.not_lt_zero _)
  | succ fuel ih =>
    intro live i p s hlive hfuel hlink hcalm
    simp only [pumpMerge] at hcalm ⊢
    have hheld : (if (envs i).backedUpBefore = true then p.hold (envs i).holdAt else p).lastRound = s.activeRound := by
      split
      · exact hlink
      · exact hlink
    generalize (if (envs i).backedUpBefore = true then p.hold (envs i).holdAt else p) = q at hcalm hheld ⊢
    by_cases hstalled : q.stalled (envs i).stallAt = true
    · rw [if_pos hstalled] at hcalm
      cases hcalm
    rw [if_neg hstalled] at hcalm ⊢
    rcases live with _ | ⟨f, live⟩
    · -- the peer closed the stream
      refine ⟨.ok s, ?_⟩
      rw [List.flatten_nil] at hcalm ⊢
      by_cases hheader : (envs i).headerTimeout = true
      · simp only [readFrame, if_pos hheader] at hcalm
        cases hcalm
      · simp only [readFrame, if_neg hheader]
        exact ⟨Gated.done s, rfl⟩
    obtain ⟨hf, hsize⟩ := hlive f List.mem_cons_self
    rw [List.flatten_cons] at hcalm ⊢
    rcases readFrame_append (envs i) hf live.flatten with
      ⟨b0, b1, b2, b3, typ, payload, rfl, hread⟩ | ⟨c, hread, hc⟩
    · simp only [hread] at hcalm ⊢
      rcases pumpFrame_eq lz4 (henvs i) b0 b1 b2 b3 typ payload hheld with
        hpump | ⟨c, hgate, hpump⟩ | ⟨q', s', v, hgate, hpump, hlink'⟩
      · rw [hpump] at hcalm
        cases hcalm
      · rw [hpump]
        exact ⟨.error c, Gated.stops hgate, rfl⟩
      · rw [hpump] at hcalm ⊢
        have hfuel' : live.flatten.length < fuel := by
          simp only [List.flatten_cons, List.length_append, List.length_cons] at hfuel
          omega
        obtain ⟨out, hrest, hend⟩ := ih (fun g hg => hlive g (List.mem_cons_of_mem _ hg)) hfuel' hlink' hcalm
        exact ⟨out, Gated.passes hgate hrest, hend⟩
    · simp only [hread] at hcalm
      rcases hc with rfl | rfl | ⟨-, hbig⟩
      · cases hcalm
      · cases hcalm
      · exact absurd hsize (not_le.mpr hbig)

/-! ## 4. Whole sessions -/

variable (lz4) in
/-- A session that nothing disturbs runs the gates over all its frames, prefetched or not. -/
theorem servePush_gated {envs : Nat → FrameEnv} (henvs : ∀ i, (envs i).Reads netTip liveFloor) (startAt : Nat)
    (initial : UInt32) (pre live : List (List UInt8))
    (hframes : ∀ f ∈ pre ++ live, WellFormed f ∧ f.length ≤ MAX_LIVE_FRAME + 5)
    (hcalm : (servePush lz4 none envs startAt initial pre live.flatten).2.disturbed = false) :
    ∃ out, Gated lz4 netTip liveFloor (Session.start initial) (pre ++ live)
        ((servePush lz4 none envs startAt initial pre live.flatten).1.map Entry.seen) out ∧
      ended out = (servePush lz4 none envs startAt initial pre live.flatten).2 := by
  have hpre := prefetched_gated lz4 henvs pre 0 (Session.start initial) fun f hf =>
    (hframes f (List.mem_append_left _ hf)).1
  simp only [servePush] at hcalm ⊢
  rcases hrun : prefetched lz4 envs 0 (Session.start initial) pre with ⟨es, c | s⟩
  · rw [hrun] at hpre hcalm
    have hgated := hpre (by
      intro c' hc'
      cases hc'
      exact hcalm)
    exact ⟨.error c, hgated.append_of_error live, rfl⟩
  · rw [hrun] at hpre hcalm
    have hgated := hpre (by
      intro c hc
      cases hc)
    obtain ⟨out, hlive, hend⟩ := pumpMerge_gated henvs
      (fun f hf => hframes f (List.mem_append_right _ hf)) (Nat.lt_succ_self _) rfl hcalm
    refine ⟨out, ?_, hend⟩
    rw [List.map_append]
    exact hgated.append hlive

end

/-- **Prefetched and live frames go through the same gates.**  Two sessions over the same
    frames, with the same tip, floor and start, one of which has the first part of them
    prefetched: they queue and drop the same frames for the same reasons, and stop on the
    same one with the same cause. -/
theorem servePush_split (lz4 : Lz4.Decoder) (netTip liveFloor initial : UInt32)
    (pre live : List (List UInt8)) (hframes : ∀ f ∈ pre ++ live, WellFormed f ∧ f.length ≤ MAX_LIVE_FRAME + 5)
    (envs envs' : Nat → FrameEnv) (henvs : ∀ i, (envs i).Reads netTip liveFloor)
    (henvs' : ∀ i, (envs' i).Reads netTip liveFloor) (startAt startAt' : Nat)
    (hcalm : (servePush lz4 none envs startAt initial pre live.flatten).2.disturbed = false)
    (hcalm' : (servePush lz4 none envs' startAt' initial [] (pre ++ live).flatten).2.disturbed = false) :
    (servePush lz4 none envs startAt initial pre live.flatten).1.map Entry.seen =
      (servePush lz4 none envs' startAt' initial [] (pre ++ live).flatten).1.map Entry.seen ∧
    (servePush lz4 none envs startAt initial pre live.flatten).2 =
      (servePush lz4 none envs' startAt' initial [] (pre ++ live).flatten).2 := by
  obtain ⟨out, hgated, hend⟩ := servePush_gated lz4 henvs startAt initial pre live hframes hcalm
  obtain ⟨out', hgated', hend'⟩ := servePush_gated lz4 henvs' startAt' initial [] (pre ++ live) hframes hcalm'
  obtain ⟨hseen, rfl⟩ := hgated.unique hgated'
  exact ⟨hseen, hend.symm.trans hend'⟩

/-- A stand-in for the decompression: bytes 0 and 2 of the payload pick the round. -/
def toyDecoder (payload : List UInt8) : Option (List UInt8) :=
  let low := payload.getD 0 0
  let high := 0x2b + payload.getD 2 0
  some [0xfc, low, 0x26, high, 0x59, 0xfc, low - 1, 0x26, high, 0x59, 0xfc, low - 2, 0x26, high, 0x59]

/-- A control frame, a block of round 1496000008 and one of round 1496065544. -/
def mixedFrames : List (List UInt8) :=
  [[0, 0, 0, 1, 0, 7], [0, 0, 0, 4, 1, 8, 0, 0, 0], [0, 0, 0, 4, 1, 8, 0, 1, 0]]

/-- The baseline of the jump is a prefetched block that the floor dropped. -/
theorem servePush_split_mixedFrames :
    (servePush toyDecoder none (fun _ => .calm 1496000000 1496000100) 0 0
      (mixedFrames.take 2) (mixedFrames.drop 2).flatten).2 = .jump 1496065544 1496000008 ∧
    (servePush toyDecoder none (fun _ => .calm 1496000000 1496000100) 9 0 [] mixedFrames.flatten).2 =
      .jump 1496065544 1496000008 := by
  have hsplit : (servePush toyDecoder none (fun _ => .calm 1496000000 1496000100) 0 0
      (mixedFrames.take 2) (mixedFrames.drop 2).flatten).2 = .jump 1496065544 1496000008 := by
    decide
  have hframes : ∀ f ∈ mixedFrames.take 2 ++ mixedFrames.drop 2, WellFormed f ∧ f.length ≤ MAX_LIVE_FRAME + 5 := by
    intro f hf
    rw [List.take_append_drop] at hf
    simp only [mixedFrames, List.mem_cons, List.not_mem_nil, or_false] at hf
    rcases hf with rfl | rfl | rfl
    · exact ⟨rfl, by decide⟩
    · exact ⟨rfl, by decide⟩
    · exact ⟨rfl, by decide⟩
  have hsame := servePush_split toyDecoder 1496000000 1496000100 0 (mixedFrames.take 2) (mixedFrames.drop 2) hframes
    (fun _ => .calm 1496000000 1496000100) (fun _ => .calm 1496000000 1496000100) (fun _ => ⟨rfl, rfl⟩)
    (fun _ => ⟨rfl, rfl⟩) 0 9 (by decide) (by decide)
  exact ⟨hsplit, hsame.2.symm.trans hsplit⟩

end Hypersync.Push
