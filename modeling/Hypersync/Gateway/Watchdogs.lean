import Hypersync.Gateway.CatchUp
import Hypersync.Gateway.ExclusiveTier
import Hypersync.Lib.Indexed
import Hypersync.Lib.Throttle

/-!
# Ending a node's session so that it reconnects

Without hot standbys two futures watch a push session.  `wait_priority_return` ends a
session on a pool peer once a priority peer serves again, `wait_catchup_stuck` any
session whose node's catch-up sits still.  Each sleeps, checks, and may claim the one
attempt the node has every `retry`; the stamps belong to the node, so all its sessions,
overlapping or one after the other, share them.

The machine has the sessions of one node, its batches of client blocks, and the tier
with everybody else who uses it.  Time passes at the awaits only: not between the claim
of an attempt and its first probe.
-/

namespace Hypersync.Gateway

/-! ## 1. The checks -/

structure RepinTiming where
  minSession : Nat
  catchupQuiet : Nat
  catchupMax : Nat
  checkEvery : Nat
  retry : Nat

def REPIN : RepinTiming where
  minSession := 60000000000
  catchupQuiet := CATCHUP_RUN_GAP
  catchupMax := 180000000000
  checkEvery := 15000000000
  retry := 300000000000

/-- `claim_every`: the answer, and the stamp after it. -/
def claimEvery (last : Option Nat) (now every : Nat) : Bool × Option Nat :=
  if Throttle.tooSoon every last now then (false, last) else (true, some now)

def clientBlocksRunSince (run : Option ClientBlockRun) (now quiet : Nat) : Option Nat :=
  (run.filter fun r => now - r.last < quiet).map ClientBlockRun.since

/-- `caught_up` of `wait_priority_return`. -/
def caughtUp (run : Option ClientBlockRun) (now watchStart : Nat) : Bool :=
  match clientBlocksRunSince run now REPIN.catchupQuiet with
  | none => true
  | some since => REPIN.catchupMax ≤ now - max since watchStart

/-- The greeting for live blocks, without the state. -/
def GREET_FALSE : List UInt8 := [0, 0, 0, 3, 0, 0, 0, 0]

/-! ## 2. The sessions of a node -/

/-- What a watcher of the session `id` claimed, and when: `watchStart` is when it began to
    watch, `batches` are those answered up to then. -/
structure Claim where
  id : Nat
  at_ : Nat
  watchStart : Nat
  batches : List Batch
deriving DecidableEq, Repr

/-- Where `wait_priority_return` is; `watchStart` is set after the first sleep. -/
inductive ReturnPc where
  -- the session is on a priority peer, or over
  | off
  | sleeping (due : Nat) (watchStart : Option Nat)
  -- in the loop over the candidates, not at an await
  | attempting (rest : List String) (probed : Bool) (claim : Claim)
  | probing (ip : String) (slot : Nat) (rest : List String) (claim : Claim)
deriving DecidableEq, Repr

namespace ReturnPc

def isAttempting : ReturnPc → Bool
  | .attempting _ _ _ => true
  | _ => false

/-- An attempt was claimed and nothing probed in it yet. -/
def isUnspent : ReturnPc → Bool
  | .attempting _ probed _ => !probed
  | _ => false

/-- The slot that goes when the future is dropped. -/
def slot : ReturnPc → Option Nat
  | .probing _ slot _ _ => some slot
  | _ => none

end ReturnPc

inductive WatchedEnd where
  | returning (at_ : Nat) (ip : String) (claim : Claim)
  | stuck (at_ : Nat) (behind : Option UInt32) (claim : Claim)
  | other
deriving DecidableEq, Repr

/-- A session: its peer, its two watchers, and how it ended. -/
structure WatchedSession where
  peer : String
  started : Nat
  ret : ReturnPc
  stuckDue : Nat
  stuckWatchStart : Option Nat := none
  ended : Option WatchedEnd := none
deriving DecidableEq, Repr

structure Watched where
  clock : Nat := 0
  tier : Sessions
  black : Blacklist
  sessions : List WatchedSession := []
  run : Option ClientBlockRun := none
  lastRepinAttempt : Option Nat := none
  lastCatchupCut : Option Nat := none
  /-- Every batch so far; and, latest first, the attempts that were claimed and not given
      back, and the claims to end a session for the catch-up. -/
  batches : List Batch := []
  attempts : List Claim := []
  cuts : List Claim := []

inductive WatchedEvent where
  | advance (now : Nat)
  | opened (peer : String)
  | closed (id : Nat)
  | batch (behind : Option UInt32) (width : UInt32)
  | reload (black : Blacklist)
  | other (e : TierEvent)
  | checkReturn (id : Nat)
  | nextProbe (id : Nat)
  | exhausted (id : Nat)
  | probed (id : Nat) (io : VetIo) (netTip : UInt32) (input : List UInt8)
  | checkStuck (id : Nat)

namespace WatchedSession

variable (x : WatchedSession)

/-- `serve_push_repinned`, as far as its watchers go. -/
def new (tier : PriorityTier) (peer : String) (now : Nat) : WatchedSession where
  peer := peer
  started := now
  ret := if !tier.peers.isEmpty ∧ !tier.contains peer then .sleeping (now + REPIN.minSession) none else .off
  stuckDue := now + REPIN.minSession

/-- Both futures are dropped with the session. -/
def finish (e : WatchedEnd) : WatchedSession := { x with ret := .off, ended := some e }

end WatchedSession

namespace Watched

variable (me : Nat) (s : Watched)

/-- A claim made now. -/
def claimNow (id watchStart : Nat) : Claim := ⟨id, s.clock, watchStart, s.batches⟩

def setSession (id : Nat) (x : WatchedSession) : Watched := { s with sessions := s.sessions.set id x }

/-- The session ends, and the slot of a probe in flight with it. -/
def finishSession (id : Nat) (x : WatchedSession) (e : WatchedEnd) : Watched :=
  { s.setSession id (x.finish e) with tier := s.tier.dropSlot me x.ret.slot }

/-- A turn of the loop of `wait_priority_return`, up to its first await or the start of
    its probes. -/
def checkReturn (id : Nat) (x : WatchedSession) (watchStart : Nat) : Watched :=
  let candidates := if caughtUp s.run s.clock watchStart then s.tier.tier.candidatesAt s.black s.clock else []
  let claimed := claimEvery s.lastRepinAttempt s.clock REPIN.retry
  if !candidates.isEmpty ∧ claimed.1 then
    { s.setSession id { x with ret := .attempting candidates false (s.claimNow id watchStart) } with
      lastRepinAttempt := claimed.2
      attempts := s.claimNow id watchStart :: s.attempts }
  else s.setSession id { x with ret := .sleeping (s.clock + REPIN.checkEvery) (some watchStart) }

/-- The next candidate: `live_attempt` takes its slot, or ends at once without one. -/
def nextProbe (id : Nat) (x : WatchedSession) (ip : String) (rest : List String) (probed : Bool) (claim : Claim) :
    Watched :=
  match s.tier.tier.tryAcquire ip with
  | none => s.setSession id { x with ret := .attempting rest probed claim }
  | some (tier, i) =>
    { s.setSession id { x with ret := .probing ip i rest claim } with
      tier := { s.tier with tier := tier, guards := ⟨i, me⟩ :: s.tier.guards } }

/-- No candidate is left; an attempt without a probe is given back. -/
def exhausted (id : Nat) (x : WatchedSession) (probed : Bool) (claim : Claim) : Watched :=
  let asleep := s.setSession id { x with ret := .sleeping (s.clock + REPIN.checkEvery) (some claim.watchStart) }
  if probed then asleep else { asleep with lastRepinAttempt := none, attempts := s.attempts.tail }

/-- The probe has come back: the session ends, or the peer is cooled down and the next one
    is tried. -/
def probed (id : Nat) (x : WatchedSession) (ip : String) (slot : Nat) (rest : List String) (claim : Claim) :
    Except VetError LivePeerSession → Watched
  | .ok _ => s.finishSession me id x (.returning s.clock ip claim)
  | .error e =>
    { s.setSession id { x with ret := .attempting rest true claim } with
      tier := (s.tier.dropSlot me (some slot)).mark ⟨ip, (AttemptError.vet e).timedOut, s.clock⟩ }

/-- A turn of the loop of `wait_catchup_stuck`. -/
def checkStuck (id : Nat) (x : WatchedSession) (watchStart : Nat) : Watched :=
  let asleep := s.setSession id
    { x with stuckDue := s.clock + REPIN.checkEvery, stuckWatchStart := some watchStart }
  match clientBlocksStalled s.run s.clock REPIN.catchupQuiet REPIN.catchupMax with
  | some (true, behind) =>
    let claimed := claimEvery s.lastCatchupCut s.clock REPIN.retry
    if REPIN.catchupMax ≤ s.clock - watchStart ∧ claimed.1 then
      { s.finishSession me id x (.stuck s.clock behind (s.claimNow id watchStart)) with
        lastCatchupCut := claimed.2
        cuts := s.claimNow id watchStart :: s.cuts }
    else asleep
  | _ => asleep

/-- A session that is still running. -/
def running (id : Nat) : Option WatchedSession := s.sessions[id]?.filter fun x => x.ended.isNone

def step (me : Nat) (lz4 : Lz4.Decoder) (s : Watched) : WatchedEvent → Option Watched
  | .advance now =>
    if s.clock ≤ now ∧ s.sessions.all fun x => !x.ret.isAttempting then some { s with clock := now } else none
  | .opened peer => some { s with sessions := s.sessions ++ [WatchedSession.new s.tier.tier peer s.clock] }
  | .closed id => (s.running id).map fun x => s.finishSession me id x .other
  | .batch behind width =>
    some { s with
      run := markClientBlocksResponse s.run ⟨s.clock, behind, width⟩
      batches := s.batches ++ [⟨s.clock, behind, width⟩] }
  | .reload black => some { s with black := black }
  | .other e =>
    if e.avoids me then (s.tier.step e).map fun tier => { s with tier := tier } else none
  | .checkReturn id =>
    (s.running id).bind fun x =>
      match x.ret with
      | .sleeping due watchStart => if due ≤ s.clock then some (s.checkReturn id x (watchStart.getD s.clock)) else none
      | _ => none
  | .nextProbe id =>
    (s.running id).bind fun x =>
      match x.ret with
      | .attempting (ip :: rest) probed claim => some (s.nextProbe me id x ip rest probed claim)
      | _ => none
  | .exhausted id =>
    (s.running id).bind fun x =>
      match x.ret with
      | .attempting [] probed claim => some (s.exhausted id x probed claim)
      | _ => none
  | .probed id io netTip input =>
    (s.running id).bind fun x =>
      match x.ret with
      | .probing ip slot rest claim =>
        some (s.probed me id x ip slot rest claim
          (openLivePeerSessionWithGreet lz4 io ip GREET_FALSE 0 netTip input))
      | _ => none
  | .checkStuck id =>
    (s.running id).bind fun x =>
      if x.stuckDue ≤ s.clock then some (s.checkStuck me id x (x.stuckWatchStart.getD s.clock)) else none

/-! ## 3. What a step does -/

variable {s} {t : Watched} {e : WatchedEvent} {me} {lz4 : Lz4.Decoder}

theorem running_eq_some {id : Nat} {x : WatchedSession} (h : s.running id = some x) :
    s.sessions[id]? = some x ∧ x.ended = none := by
  obtain ⟨hx, hended⟩ := Option.filter_eq_some_iff.mp h
  exact ⟨hx, Option.isNone_iff_eq_none.mp hended⟩

/-- What a step does, and when it can be taken. -/
inductive Stepped (me : Nat) (s : Watched) : Watched → Prop
  | advance now (hle : s.clock ≤ now) (hawait : ∀ x ∈ s.sessions, x.ret.isAttempting = false) :
      Stepped me s { s with clock := now }
  | opened peer : Stepped me s { s with sessions := s.sessions ++ [WatchedSession.new s.tier.tier peer s.clock] }
  | closed id x (hx : s.running id = some x) : Stepped me s (s.finishSession me id x .other)
  | batch behind width :
      Stepped me s
        { s with
          run := markClientBlocksResponse s.run ⟨s.clock, behind, width⟩
          batches := s.batches ++ [⟨s.clock, behind, width⟩] }
  | reload black : Stepped me s { s with black := black }
  | other e tier (havoids : e.avoids me = true) (htier : s.tier.step e = some tier) :
      Stepped me s { s with tier := tier }
  | claimed id x due watchStart candidates (hx : s.running id = some x) (hret : x.ret = .sleeping due watchStart)
      (hdue : due ≤ s.clock) (hmem : ∀ ip ∈ candidates, ip ∈ s.tier.tier.peers)
      (hcaught : caughtUp s.run s.clock (watchStart.getD s.clock) = true)
      (hfree : Throttle.tooSoon REPIN.retry s.lastRepinAttempt s.clock = false) :
      Stepped me s
        { s.setSession id
            { x with ret := .attempting candidates false (s.claimNow id (watchStart.getD s.clock)) } with
          lastRepinAttempt := some s.clock
          attempts := s.claimNow id (watchStart.getD s.clock) :: s.attempts }
  | slept id x due watchStart (hx : s.running id = some x) (hret : x.ret = .sleeping due watchStart)
      (hdue : due ≤ s.clock) :
      Stepped me s
        (s.setSession id { x with ret := .sleeping (s.clock + REPIN.checkEvery) (some (watchStart.getD s.clock)) })
  | full id x ip rest probed claim (hx : s.running id = some x)
      (hret : x.ret = .attempting (ip :: rest) probed claim) :
      Stepped me s (s.setSession id { x with ret := .attempting rest probed claim })
  | probing id x ip rest probed claim tier i (hx : s.running id = some x)
      (hret : x.ret = .attempting (ip :: rest) probed claim) (hacquire : s.tier.tier.tryAcquire ip = some (tier, i)) :
      Stepped me s
        { s.setSession id { x with ret := .probing ip i rest claim } with
          tier := { s.tier with tier := tier, guards := ⟨i, me⟩ :: s.tier.guards } }
  | exhausted id x claim (hx : s.running id = some x) (hret : x.ret = .attempting [] true claim) :
      Stepped me s
        (s.setSession id { x with ret := .sleeping (s.clock + REPIN.checkEvery) (some claim.watchStart) })
  | givenBack id x claim (hx : s.running id = some x) (hret : x.ret = .attempting [] false claim) :
      Stepped me s
        { s.setSession id { x with ret := .sleeping (s.clock + REPIN.checkEvery) (some claim.watchStart) } with
          lastRepinAttempt := none
          attempts := s.attempts.tail }
  | returned id x ip slot rest claim (hx : s.running id = some x) (hret : x.ret = .probing ip slot rest claim) :
      Stepped me s (s.finishSession me id x (.returning s.clock ip claim))
  | failed id x ip slot rest claim timedOut (hx : s.running id = some x)
      (hret : x.ret = .probing ip slot rest claim) :
      Stepped me s
        { s.setSession id { x with ret := .attempting rest true claim } with
          tier := (s.tier.dropSlot me (some slot)).mark ⟨ip, timedOut, s.clock⟩ }
  | cut id x behind (hx : s.running id = some x) (hdue : x.stuckDue ≤ s.clock)
      (hstalled : clientBlocksStalled s.run s.clock REPIN.catchupQuiet REPIN.catchupMax = some (true, behind))
      (hlong : REPIN.catchupMax ≤ s.clock - x.stuckWatchStart.getD s.clock)
      (hfree : Throttle.tooSoon REPIN.retry s.lastCatchupCut s.clock = false) :
      Stepped me s
        { s.finishSession me id x (.stuck s.clock behind (s.claimNow id (x.stuckWatchStart.getD s.clock))) with
          lastCatchupCut := some s.clock
          cuts := s.claimNow id (x.stuckWatchStart.getD s.clock) :: s.cuts }
  | watched id x (hx : s.running id = some x) (hdue : x.stuckDue ≤ s.clock) :
      Stepped me s
        (s.setSession id
          { x with stuckDue := s.clock + REPIN.checkEvery, stuckWatchStart := some (x.stuckWatchStart.getD s.clock) })

/-- A check for the priority tier claims an attempt, or goes back to sleep. -/
theorem stepped_checkReturn {id due : Nat} {x : WatchedSession} {watchStart : Option Nat} (hx : s.running id = some x)
    (hret : x.ret = .sleeping due watchStart) (hdue : due ≤ s.clock) :
    Stepped me s (s.checkReturn id x (watchStart.getD s.clock)) := by
  unfold checkReturn claimEvery
  cases hcaught : caughtUp s.run s.clock (watchStart.getD s.clock) with
  | false => exact .slept id x due watchStart hx hret hdue
  | true =>
    cases hsoon : Throttle.tooSoon REPIN.retry s.lastRepinAttempt s.clock with
    | true =>
      simp only [if_true, Bool.false_eq_true, and_false, if_false]
      exact .slept id x due watchStart hx hret hdue
    | false =>
      simp only [if_true, Bool.false_eq_true, if_false, and_true]
      split
      · refine .claimed id x due watchStart _ hx hret hdue (fun ip hip => ?_) hcaught hsoon
        obtain ⟨k, hk, -⟩ := PriorityTier.mem_candidatesAt.mp hip
        exact List.mem_of_getElem? hk
      · exact .slept id x due watchStart hx hret hdue

/-- A check of the catch-up ends the session, or goes on watching. -/
theorem stepped_checkStuck {id : Nat} {x : WatchedSession} (hx : s.running id = some x) (hdue : x.stuckDue ≤ s.clock) :
    Stepped me s (s.checkStuck me id x (x.stuckWatchStart.getD s.clock)) := by
  unfold checkStuck claimEvery
  split
  · rename_i behind hstalled
    cases hsoon : Throttle.tooSoon REPIN.retry s.lastCatchupCut s.clock with
    | true =>
      simp only [if_true, Bool.false_eq_true, and_false, if_false]
      exact .watched id x hx hdue
    | false =>
      simp only [Bool.false_eq_true, if_false, and_true]
      split
      · rename_i hlong
        exact .cut id x behind hx hdue hstalled hlong hsoon
      · exact .watched id x hx hdue
  · exact .watched id x hx hdue

theorem step_eq_some (h : step me lz4 s e = some t) : Stepped me s t := by
  cases e with
  | advance now =>
    obtain ⟨hok, ⟨⟩⟩ := Option.ite_none_right_eq_some.mp h
    refine .advance now hok.1 fun x hx => ?_
    have hall := List.all_eq_true.mp hok.2 x hx
    simpa using hall
  | opened peer =>
    cases h
    exact .opened peer
  | closed id =>
    obtain ⟨x, hx, rfl⟩ := Option.map_eq_some_iff.mp h
    exact .closed id x hx
  | batch behind width =>
    cases h
    exact .batch behind width
  | reload black =>
    cases h
    exact .reload black
  | other e =>
    obtain ⟨havoids, h⟩ := Option.ite_none_right_eq_some.mp h
    obtain ⟨tier, htier, rfl⟩ := Option.map_eq_some_iff.mp h
    exact .other e tier havoids htier
  | checkReturn id =>
    obtain ⟨x, hx, h⟩ := Option.bind_eq_some_iff.mp h
    split at h
    · rename_i hret
      obtain ⟨hdue, ⟨⟩⟩ := Option.ite_none_right_eq_some.mp h
      exact stepped_checkReturn hx hret hdue
    · cases h
  | nextProbe id =>
    obtain ⟨x, hx, h⟩ := Option.bind_eq_some_iff.mp h
    split at h <;> cases h
    rename_i ip rest probed claim hret
    unfold nextProbe
    split
    · exact .full id x ip rest probed claim hx hret
    · rename_i tier i hacquire
      exact .probing id x ip rest probed claim tier i hx hret hacquire
  | exhausted id =>
    obtain ⟨x, hx, h⟩ := Option.bind_eq_some_iff.mp h
    split at h <;> cases h
    rename_i probed claim hret
    cases probed with
    | true => exact .exhausted id x claim hx hret
    | false => exact .givenBack id x claim hx hret
  | probed id io netTip input =>
    obtain ⟨x, hx, h⟩ := Option.bind_eq_some_iff.mp h
    split at h <;> cases h
    rename_i ip slot rest claim hret
    unfold probed
    split
    · exact .returned id x ip slot rest claim hx hret
    · exact .failed id x ip slot rest claim _ hx hret
  | checkStuck id =>
    obtain ⟨x, hx, h⟩ := Option.bind_eq_some_iff.mp h
    obtain ⟨hdue, ⟨⟩⟩ := Option.ite_none_right_eq_some.mp h
    exact stepped_checkStuck hx hdue

/-- The run is that of the batches so far. -/
structure Noted (s : Watched) : Prop where
  run_eq : s.run = noted s.batches
  past : ∀ b ∈ s.batches, b.at_ ≤ s.clock

theorem Noted.step (h : s.Noted) (hs : step me lz4 s e = some t) : t.Noted := by
  cases step_eq_some hs with
  | advance now hle hawait => exact ⟨h.run_eq, fun b hb => Nat.le_trans (h.past b hb) hle⟩
  | batch behind width =>
    refine ⟨by rw [noted_concat, ← h.run_eq], fun b hb => ?_⟩
    rcases List.mem_append.mp hb with hb | hb
    · exact h.past b hb
    · rw [List.mem_singleton.mp hb]
  | _ => exact ⟨h.run_eq, h.past⟩

/-- The batches of a claim are those answered up to its instant. -/
structure Answered (s : Watched) (c : Claim) : Prop where
  watchStart_le : c.watchStart ≤ c.at_
  at_le : c.at_ ≤ s.clock
  upTo : ∃ later, s.batches = c.batches ++ later ∧ (∀ b ∈ c.batches, b.at_ ≤ c.at_) ∧ ∀ b ∈ later, c.at_ ≤ b.at_

theorem Answered.mono {c : Claim} (h : s.Answered c) (hclock : s.clock ≤ t.clock) (hbatches : t.batches = s.batches) :
    t.Answered c :=
  ⟨h.watchStart_le, Nat.le_trans h.at_le hclock, hbatches ▸ h.upTo⟩

theorem Answered.batch {c : Claim} (h : s.Answered c) (behind : Option UInt32) (width : UInt32)
    (run : Option ClientBlockRun) :
    Answered { s with run := run, batches := s.batches ++ [⟨s.clock, behind, width⟩] } c := by
  obtain ⟨later, heq, hbefore, hlater⟩ := h.upTo
  refine { h with upTo := ⟨later ++ [⟨s.clock, behind, width⟩], ?_, hbefore, fun b hb => ?_⟩ }
  · simp only [heq, List.append_assoc]
  · rcases List.mem_append.mp hb with hb | hb
    · exact hlater b hb
    · rw [List.mem_singleton.mp hb]
      exact h.at_le

theorem Noted.answered {id watchStart : Nat} (h : s.Noted) (hwatch : watchStart ≤ s.clock) :
    s.Answered (s.claimNow id watchStart) :=
  ⟨hwatch, Nat.le_refl _, [], (List.append_nil _).symm, h.past, fun _ hb => absurd hb List.not_mem_nil⟩

/-! ## 4. The catch-up -/

/-- What the watch of the catch-up knows of a session. -/
structure CutOk (s : Watched) (id : Nat) (x : WatchedSession) : Prop where
  watched : x.started + REPIN.minSession ≤ x.stuckWatchStart.getD x.stuckDue
  cut : ∀ at_ behind claim, x.ended = some (.stuck at_ behind claim) →
    claim ∈ s.cuts ∧ claim.id = id ∧ claim.at_ = at_ ∧ x.started + REPIN.minSession + REPIN.catchupMax ≤ at_ ∧
      clientBlocksStalled (noted claim.batches) at_ REPIN.catchupQuiet REPIN.catchupMax = some (true, behind)

structure CutsInv (s : Watched) : Prop where
  sessions : Indexed.All s.CutOk s.sessions
  claims : ∀ c ∈ s.cuts, s.Answered c
  spaced : Throttle.Spaced REPIN.retry (s.cuts.map Claim.at_)
  guarded : Throttle.Guarded REPIN.retry s.clock s.lastCatchupCut (s.cuts.map Claim.at_)

theorem CutOk.mono {id : Nat} {x : WatchedSession} (h : s.CutOk id x) (hcuts : ∀ c ∈ s.cuts, c ∈ t.cuts) :
    t.CutOk id x := by
  refine ⟨h.watched, fun at_ behind claim hended => ?_⟩
  obtain ⟨hmem, hrest⟩ := h.cut at_ behind claim hended
  exact ⟨hcuts _ hmem, hrest⟩

/-- All that is of concern here but the sessions. -/
def KeepsCuts (s t : Watched) : Prop :=
  t.clock = s.clock ∧ t.batches = s.batches ∧ t.cuts = s.cuts ∧ t.lastCatchupCut = s.lastCatchupCut

theorem CutsInv.keep (h : s.CutsInv) (hkept : s.KeepsCuts t) (hsessions : Indexed.All s.CutOk t.sessions) :
    t.CutsInv := by
  obtain ⟨hclock, hbatches, hcuts, hlast⟩ := hkept
  refine ⟨fun j y hy => (hsessions hy).mono fun _ hc => hcuts ▸ hc, ?_, by rw [hcuts]; exact h.spaced, ?_⟩
  · rw [hcuts]
    exact fun c hc => (h.claims c hc).mono (Nat.le_of_eq hclock.symm) hbatches
  · rw [hclock, hlast, hcuts]
    exact h.guarded

section Moves

variable {id : Nat} {x x' : WatchedSession} {ret : ReturnPc}

/-- A step of one session that is not cut. -/
theorem CutsInv.move (h : s.CutsInv) (hx : s.running id = some x) (hkept : s.KeepsCuts t)
    (hset : t.sessions = s.sessions.set id x') (hstarted : x'.started = x.started)
    (hwatched : x.stuckWatchStart.getD x.stuckDue ≤ x'.stuckWatchStart.getD x'.stuckDue)
    (hended : ∀ at_ behind claim, x'.ended ≠ some (.stuck at_ behind claim)) : t.CutsInv := by
  refine h.keep hkept (hset ▸ Indexed.all_set (fun j y _ hy => h.sessions hy) ?_)
  refine ⟨?_, fun at_ behind claim hstuck => absurd hstuck (hended at_ behind claim)⟩
  rw [hstarted]
  exact Nat.le_trans (h.sessions (running_eq_some hx).1).watched hwatched

theorem ne_stuck_of_none (h : x.ended = none) (at_ : Nat) (behind : Option UInt32) (claim : Claim) :
    x.ended ≠ some (.stuck at_ behind claim) := by
  rw [h]
  exact fun hsome => by cases hsome

/-- The watch of the priority tier is of no concern here. -/
theorem CutsInv.go (h : s.CutsInv) (hx : s.running id = some x) (hkept : s.KeepsCuts t)
    (hset : t.sessions = s.sessions.set id { x with ret := ret }) : t.CutsInv :=
  h.move hx hkept hset rfl (Nat.le_refl _) (ne_stuck_of_none (running_eq_some hx).2)

theorem CutsInv.step (h : s.CutsInv) (hn : s.Noted) (hs : step me lz4 s e = some t) : t.CutsInv := by
  have hsame : s.KeepsCuts s := ⟨rfl, rfl, rfl, rfl⟩
  have hwatch {x : WatchedSession} (hdue : x.stuckDue ≤ s.clock) :
      x.stuckWatchStart.getD x.stuckDue ≤ x.stuckWatchStart.getD s.clock := by
    cases x.stuckWatchStart with
    | none => exact hdue
    | some ws => exact Nat.le_refl _
  cases step_eq_some hs with
  | advance now hle hawait =>
    exact ⟨fun _ _ hy => (h.sessions hy).mono fun _ hc => hc, fun c hc => (h.claims c hc).mono hle rfl, h.spaced,
      h.guarded.mono hle⟩
  | opened peer =>
    refine h.keep hsame (Indexed.All.snoc (fun _ _ hy => h.sessions hy) ⟨?_, fun _ _ _ hended => by cases hended⟩)
    simp only [WatchedSession.new, Option.getD_none, Nat.le_refl]
  | closed id x hx => exact h.move hx hsame rfl rfl (Nat.le_refl _) fun _ _ _ he => by cases he
  | batch behind width =>
    exact ⟨fun _ _ hy => (h.sessions hy).mono fun _ hc => hc, fun c hc => (h.claims c hc).batch behind width _,
      h.spaced, h.guarded⟩
  | reload black => exact h.keep hsame h.sessions
  | other e tier havoids htier => exact h.keep hsame h.sessions
  | claimed id x due watchStart candidates hx => exact h.go hx hsame rfl
  | slept id x due watchStart hx => exact h.go hx hsame rfl
  | full id x ip rest probed claim hx => exact h.go hx hsame rfl
  | probing id x ip rest probed claim tier i hx => exact h.go hx hsame rfl
  | exhausted id x claim hx => exact h.go hx hsame rfl
  | givenBack id x claim hx => exact h.go hx hsame rfl
  | returned id x ip slot rest claim hx => exact h.move hx hsame rfl rfl (Nat.le_refl _) fun _ _ _ he => by cases he
  | failed id x ip slot rest claim timedOut hx => exact h.go hx hsame rfl
  | cut id x behind hx hdue hstalled hlong hfree =>
    have hok := h.sessions (running_eq_some hx).1
    have hstarted := Nat.le_trans hok.watched (hwatch hdue)
    have hpos : 0 < REPIN.catchupMax := by decide
    have hapart : ∀ u ∈ s.cuts.map Claim.at_, u + REPIN.retry ≤ s.clock := h.guarded.apart hfree
    refine ⟨?_, fun c hc => ?_, h.spaced.use hapart, Throttle.guarded_use hapart⟩
    · refine Indexed.all_set (fun j y _ hy => (h.sessions hy).mono fun _ hc => List.mem_cons_of_mem _ hc) ?_
      refine ⟨hok.watched, fun at_ behind' claim hended => ?_⟩
      obtain ⟨rfl, rfl, rfl⟩ := WatchedEnd.stuck.inj (Option.some.inj hended)
      refine ⟨List.mem_cons_self, rfl, rfl, ?_, hn.run_eq ▸ hstalled⟩
      simp only [WatchedSession.finish]
      omega
    · rcases List.mem_cons.mp hc with rfl | hc
      · exact (hn.answered (by omega)).mono (Nat.le_refl _) rfl
      · exact (h.claims c hc).mono (Nat.le_refl _) rfl
  | watched id x hx hdue =>
    exact h.move hx hsame rfl rfl (hwatch hdue) (ne_stuck_of_none (running_eq_some hx).2)

end Moves

/-! ## 5. The way back to the priority tier -/

/-- The claim is the last one made, at this instant. -/
def Latest (s : Watched) (claim : Claim) : Prop :=
  s.lastRepinAttempt = some s.clock ∧ claim.at_ = s.clock ∧ ∃ before, s.attempts = claim :: before

/-- What is known where the future stands. -/
def Stage (s : Watched) (id started : Nat) : ReturnPc → Prop
  | .off => True
  | .sleeping due watchStart => started + REPIN.minSession ≤ watchStart.getD due ∧ watchStart.getD 0 ≤ s.clock
  | .attempting rest probed claim =>
    started + REPIN.minSession ≤ claim.watchStart ∧ (∀ ip ∈ rest, ip ∈ s.tier.tier.peers) ∧
      (claim ∈ s.attempts ∧ claim.id = id) ∧ (probed = false → s.Latest claim)
  | .probing ip _ rest claim =>
    started + REPIN.minSession ≤ claim.watchStart ∧ (∀ ip' ∈ ip :: rest, ip' ∈ s.tier.tier.peers) ∧
      claim ∈ s.attempts ∧ claim.id = id

structure ReturnOk (s : Watched) (id : Nat) (x : WatchedSession) : Prop where
  onPool : x.ret ≠ .off → x.peer ∉ s.tier.tier.peers
  stage : s.Stage id x.started x.ret
  returned : ∀ at_ ip claim, x.ended = some (.returning at_ ip claim) →
    x.peer ∉ s.tier.tier.peers ∧ ip ∈ s.tier.tier.peers ∧
      claim ∈ s.attempts ∧ claim.id = id ∧ x.started + REPIN.minSession ≤ claim.watchStart ∧ claim.at_ ≤ at_

structure ReturnsInv (s : Watched) : Prop where
  sessions : Indexed.All s.ReturnOk s.sessions
  attempts : ∀ a ∈ s.attempts, s.Answered a ∧ caughtUp (noted a.batches) a.at_ a.watchStart = true
  spaced : Throttle.Spaced REPIN.retry (s.attempts.map Claim.at_)
  guarded : Throttle.Guarded REPIN.retry s.clock s.lastRepinAttempt (s.attempts.map Claim.at_)

/-- What is known of a session depends on its own attempts only. -/
theorem ReturnOk.mono {id : Nat} {x : WatchedSession} (h : s.ReturnOk id x)
    (hpeers : t.tier.tier.peers = s.tier.tier.peers) (hclock : s.clock ≤ t.clock)
    (hattempts : ∀ a ∈ s.attempts, a.id = id → a ∈ t.attempts)
    (hlatest : ∀ claim, x.ret.isUnspent = true → claim.id = id → s.Latest claim → t.Latest claim) :
    t.ReturnOk id x := by
  refine ⟨by rw [hpeers]; exact h.onPool, ?_, ?_⟩
  · have hstage := h.stage
    cases hret : x.ret with
    | off => trivial
    | sleeping due watchStart =>
      rw [hret] at hstage
      exact ⟨hstage.1, Nat.le_trans hstage.2 hclock⟩
    | attempting rest probed claim =>
      rw [hret] at hstage hlatest
      obtain ⟨hstarted, hrest, ⟨hclaim, hid⟩, hunspent⟩ := hstage
      refine ⟨hstarted, by rw [hpeers]; exact hrest, ⟨hattempts _ hclaim hid, hid⟩,
        fun hp => hlatest claim ?_ hid (hunspent hp)⟩
      rw [ReturnPc.isUnspent, hp]
      rfl
    | probing ip slot rest claim =>
      rw [hret] at hstage
      obtain ⟨hstarted, hrest, hclaim, hid⟩ := hstage
      exact ⟨hstarted, by rw [hpeers]; exact hrest, hattempts _ hclaim hid, hid⟩
  · intro at_ ip claim hended
    obtain ⟨hpeer, hip, hclaim, hid, hrest⟩ := h.returned at_ ip claim hended
    rw [hpeers]
    exact ⟨hpeer, hip, hattempts _ hclaim hid, hid, hrest⟩

/-- A step of one session that claims nothing and gives nothing back. -/
theorem ReturnsInv.setSession {id : Nat} {x' : WatchedSession} {tier : Sessions} (h : s.ReturnsInv)
    (hlater : s.tier.Later tier) (hok : s.ReturnOk id x') :
    ReturnsInv { s.setSession id x' with tier := tier } := by
  have hmono {j : Nat} {y : WatchedSession} (hy : s.ReturnOk j y) :
      ReturnOk { s.setSession id x' with tier := tier } j y :=
    hy.mono hlater.peers_eq (Nat.le_refl _) (fun _ ha _ => ha) fun _ _ _ hlatest => hlatest
  refine ⟨?_, fun a ha => (h.attempts a ha).imp_left fun hc => hc.mono (Nat.le_refl _) rfl, h.spaced, h.guarded⟩
  exact Indexed.all_set (fun _ _ _ hy => hmono (h.sessions hy)) (hmono hok)

/-- The blacklist, the cuts and what others do with the tier are of no concern here. -/
theorem ReturnsInv.frame (h : s.ReturnsInv) (hclock : t.clock = s.clock)
    (hbatches : t.batches = s.batches) (hsessions : t.sessions = s.sessions)
    (hpeers : t.tier.tier.peers = s.tier.tier.peers) (hattempts : t.attempts = s.attempts)
    (hlast : t.lastRepinAttempt = s.lastRepinAttempt) : t.ReturnsInv := by
  refine ⟨?_, ?_, by rw [hattempts]; exact h.spaced, ?_⟩
  · rw [hsessions]
    refine fun j _ hy => (h.sessions hy).mono hpeers (Nat.le_of_eq hclock.symm) (fun _ ha _ => hattempts ▸ ha) ?_
    intro claim _ _ hl
    rw [Latest, hlast, hclock, hattempts]
    exact hl
  · rw [hattempts]
    exact fun a ha => (h.attempts a ha).imp_left fun hc => hc.mono (Nat.le_of_eq hclock.symm) hbatches
  · rw [hclock, hlast, hattempts]
    exact h.guarded

/-- Ending a session for any other reason. -/
theorem ReturnOk.finish {id : Nat} {x : WatchedSession} {r : WatchedEnd}
    (hr : ∀ at_ ip claim, r ≠ .returning at_ ip claim) : s.ReturnOk id (x.finish r) :=
  ⟨fun hoff => absurd rfl hoff, trivial, fun at_ ip claim hended => absurd (Option.some.inj hended) (hr at_ ip claim)⟩

section Moves

variable {id : Nat} {x : WatchedSession} {ret ret' : ReturnPc}

theorem ReturnsInv.stage (h : s.ReturnsInv) (hx : s.running id = some x) (hret : x.ret = ret) :
    s.Stage id x.started ret :=
  hret ▸ (h.sessions (running_eq_some hx).1).stage

/-- Another stage of a session on a pool peer that goes on. -/
theorem ReturnOk.go (h : s.ReturnOk id x) (hended : x.ended = none) (hret : x.ret = ret) (hon : ret ≠ .off)
    (hpeers : t.tier.tier.peers = s.tier.tier.peers) (hstage : t.Stage id x.started ret') :
    t.ReturnOk id { x with ret := ret' } := by
  refine ⟨fun _ => hpeers ▸ h.onPool (hret ▸ hon), hstage, fun at_ ip claim hsome => ?_⟩
  have hsome : x.ended = some (.returning at_ ip claim) := hsome
  rw [hended] at hsome
  cases hsome

theorem ReturnsInv.go {tier : Sessions} (h : s.ReturnsInv) (hx : s.running id = some x) (hret : x.ret = ret)
    (hon : ret ≠ .off) (hlater : s.tier.Later tier) (hstage : s.Stage id x.started ret') :
    ReturnsInv { s.setSession id { x with ret := ret' } with tier := tier } := by
  obtain ⟨hget, hended⟩ := running_eq_some hx
  exact h.setSession hlater ((h.sessions hget).go hended hret hon rfl hstage)

theorem ReturnsInv.claim {candidates : List String} {watchStart : Nat} (h : s.ReturnsInv) (hn : s.Noted)
    (hx : s.running id = some x) (hret : x.ret = ret) (hon : ret ≠ .off)
    (hstarted : x.started + REPIN.minSession ≤ watchStart) (hwatch : watchStart ≤ s.clock)
    (hmem : ∀ ip ∈ candidates, ip ∈ s.tier.tier.peers) (hcaught : caughtUp s.run s.clock watchStart = true)
    (hfree : Throttle.tooSoon REPIN.retry s.lastRepinAttempt s.clock = false) :
    ReturnsInv { s.setSession id { x with ret := .attempting candidates false (s.claimNow id watchStart) } with
      lastRepinAttempt := some s.clock
      attempts := s.claimNow id watchStart :: s.attempts } := by
  have hapart := h.guarded.apart hfree
  obtain ⟨hget, hended⟩ := running_eq_some hx
  refine ⟨Indexed.all_set (fun j y hj hy => ?_) ?_, fun a ha => ?_, h.spaced.use hapart, Throttle.guarded_use hapart⟩
  · refine (h.sessions hy).mono rfl (Nat.le_refl _) (fun a ha _ => List.mem_cons_of_mem _ ha) ?_
    -- an attempt claimed at this instant would have refused this one
    rintro - - - ⟨hlast, -⟩
    rw [hlast, Throttle.tooSoon_self (by decide)] at hfree
    cases hfree
  · exact (h.sessions hget).go hended hret hon rfl
      ⟨hstarted, hmem, ⟨List.mem_cons_self, rfl⟩, fun _ => ⟨rfl, rfl, _, rfl⟩⟩
  · rcases List.mem_cons.mp ha with rfl | ha
    · exact ⟨(hn.answered hwatch).mono (Nat.le_refl _) rfl, hn.run_eq ▸ hcaught⟩
    · exact (h.attempts a ha).imp_left fun hc => hc.mono (Nat.le_refl _) rfl

theorem ReturnsInv.giveBack {due : Nat} {claim : Claim} (h : s.ReturnsInv) (hx : s.running id = some x)
    (hret : x.ret = ret) (hon : ret ≠ .off) (hid : claim.id = id) (hlatest : s.Latest claim)
    (hstarted : x.started + REPIN.minSession ≤ claim.watchStart) (hwatch : claim.watchStart ≤ s.clock) :
    ReturnsInv { s.setSession id { x with ret := .sleeping due (some claim.watchStart) } with
      lastRepinAttempt := none
      attempts := s.attempts.tail } := by
  obtain ⟨-, hat, before, heq⟩ := hlatest
  obtain ⟨hget, hended⟩ := running_eq_some hx
  have htail : s.attempts.tail = before := by rw [heq, List.tail_cons]
  have hsub : ∀ b ∈ before, b ∈ s.attempts := fun b hb => heq ▸ List.mem_cons_of_mem claim hb
  have hspaced := h.spaced
  rw [heq, List.map_cons, Throttle.Spaced, List.pairwise_cons, hat] at hspaced
  rw [htail]
  refine ⟨Indexed.all_set (fun j y hj hy => ?_) ?_, fun b hb => (h.attempts b (hsub b hb)).imp_left fun hc =>
    hc.mono (Nat.le_refl _) rfl, hspaced.2, Throttle.guarded_none hspaced.1⟩
  · refine (h.sessions hy).mono rfl (Nat.le_refl _) ?_ ?_
    · intro b hb hbid
      rw [heq] at hb
      rcases List.mem_cons.mp hb with rfl | hb
      · exact absurd (hbid.symm.trans hid) hj
      · exact hb
    · -- only one session can hold the last claim
      rintro b - hbid ⟨-, -, before', heq'⟩
      rw [heq] at heq'
      rw [← (List.cons.inj heq').1, hid] at hbid
      exact absurd hbid.symm hj
  · exact (h.sessions hget).go hended hret hon rfl ⟨hstarted, hwatch⟩

end Moves

/-- Time only passes while nobody is between a claim and a probe. -/
theorem ReturnsInv.advance {now : Nat} (h : s.ReturnsInv) (hle : s.clock ≤ now)
    (hawait : ∀ x ∈ s.sessions, x.ret.isAttempting = false) : ReturnsInv { s with clock := now } := by
  refine ⟨fun j y hy => ?_, fun a ha => (h.attempts a ha).imp_left fun hc => hc.mono hle rfl, h.spaced,
    h.guarded.mono hle⟩
  refine (h.sessions hy).mono rfl hle (fun _ ha _ => ha) fun claim hunspent _ _ => ?_
  have hno := hawait y (List.mem_of_getElem? hy)
  cases hret : y.ret with
  | attempting rest probed claim' =>
    rw [hret] at hno
    cases hno
  | _ =>
    rw [hret] at hunspent
    cases hunspent

/-- A session on a pool peer starts with a sleep, one on a priority peer without the watch. -/
theorem ReturnsInv.opened (h : s.ReturnsInv) (peer : String) :
    ReturnsInv { s with sessions := s.sessions ++ [.new s.tier.tier peer s.clock] } := by
  refine ⟨?_, fun a ha => (h.attempts a ha).imp_left fun hc => hc.mono (Nat.le_refl _) rfl, h.spaced, h.guarded⟩
  refine Indexed.All.snoc (fun _ _ hy => (h.sessions hy).mono rfl (Nat.le_refl _) (fun _ ha _ => ha)
    fun _ _ _ hl => hl) ⟨?_, ?_, fun _ _ _ hended => by cases hended⟩
  · intro hon hmem
    simp only [WatchedSession.new] at hon
    split at hon
    · rename_i hpool
      have hcontains : s.tier.tier.contains peer = true := PriorityTier.contains_iff.mpr hmem
      rw [hcontains] at hpool
      exact absurd hpool.2 (by decide)
    · exact hon rfl
  · simp only [WatchedSession.new]
    split
    · simp only [Stage, Option.getD_none, Nat.le_refl, Nat.zero_le, and_self]
    · trivial

theorem ReturnsInv.step (h : s.ReturnsInv) (hn : s.Noted) (hs : step me lz4 s e = some t) : t.ReturnsInv := by
  -- when a watch that sleeps wakes up, it has begun, not before `min_session`
  have hbegun {id due : Nat} {x : WatchedSession} {watchStart : Option Nat}
      (hstage : s.Stage id x.started (.sleeping due watchStart)) (hdue : due ≤ s.clock) :
      x.started + REPIN.minSession ≤ watchStart.getD s.clock ∧ watchStart.getD s.clock ≤ s.clock := by
    cases watchStart with
    | none => exact ⟨Nat.le_trans hstage.1 hdue, Nat.le_refl _⟩
    | some w => exact hstage
  have hwatch {claim : Claim} (hclaim : claim ∈ s.attempts) : claim.watchStart ≤ s.clock :=
    Nat.le_trans (h.attempts claim hclaim).1.watchStart_le (h.attempts claim hclaim).1.at_le
  cases step_eq_some hs with
  | advance now hle hawait => exact h.advance hle hawait
  | opened peer => exact h.opened peer
  | closed id x hx =>
    exact h.setSession (Sessions.later_dropSlot _ _ _) (ReturnOk.finish fun _ _ _ hr => by cases hr)
  | batch behind width =>
    exact ⟨fun _ _ hy => (h.sessions hy).mono rfl (Nat.le_refl _) (fun _ ha _ => ha) fun _ _ _ hl => hl,
      fun a ha => (h.attempts a ha).imp_left fun hc => hc.batch behind width _, h.spaced, h.guarded⟩
  | reload black => exact h.frame rfl rfl rfl rfl rfl rfl
  | other e tier havoids htier => exact h.frame rfl rfl rfl (Sessions.later_step htier).peers_eq rfl rfl
  | claimed id x due watchStart candidates hx hret hdue hmem hcaught hfree =>
    obtain ⟨hstarted, hle⟩ := hbegun (h.stage hx hret) hdue
    exact h.claim hn hx hret ReturnPc.noConfusion hstarted hle hmem hcaught hfree
  | slept id x due watchStart hx hret hdue =>
    exact h.go hx hret ReturnPc.noConfusion (Sessions.Later.refl _) (hbegun (h.stage hx hret) hdue)
  | full id x ip rest probed claim hx hret =>
    obtain ⟨hstarted, hmem, hclaim, hunspent⟩ := h.stage hx hret
    exact h.go hx hret ReturnPc.noConfusion (Sessions.Later.refl _)
      ⟨hstarted, fun ip' hip' => hmem ip' (List.mem_cons_of_mem _ hip'), hclaim, hunspent⟩
  | probing id x ip rest probed claim tier i hx hret hacquire =>
    obtain ⟨hstarted, hmem, hclaim, -⟩ := h.stage hx hret
    obtain ⟨-, -, rfl⟩ := PriorityTier.tryAcquire_eq_some hacquire
    exact h.go hx hret ReturnPc.noConfusion (Sessions.later_setSessions _ _ _ _) ⟨hstarted, hmem, hclaim⟩
  | exhausted id x claim hx hret =>
    obtain ⟨hstarted, -, ⟨hclaim, -⟩, -⟩ := h.stage hx hret
    exact h.go hx hret ReturnPc.noConfusion (Sessions.Later.refl _) ⟨hstarted, hwatch hclaim⟩
  | givenBack id x claim hx hret =>
    obtain ⟨hstarted, -, ⟨hclaim, hid⟩, hunspent⟩ := h.stage hx hret
    exact h.giveBack hx hret ReturnPc.noConfusion hid (hunspent rfl) hstarted (hwatch hclaim)
  | returned id x ip slot rest claim hx hret =>
    obtain ⟨hstarted, hmem, hclaim, hid⟩ := h.stage hx hret
    have hpool := (h.sessions (running_eq_some hx).1).onPool (hret ▸ ReturnPc.noConfusion)
    refine h.setSession (Sessions.later_dropSlot _ _ _) ⟨fun hoff => absurd rfl hoff, trivial, ?_⟩
    intro at_ ip' claim' hr
    obtain ⟨rfl, rfl, rfl⟩ := WatchedEnd.returning.inj (Option.some.inj hr)
    exact ⟨hpool, hmem ip List.mem_cons_self, hclaim, hid, hstarted, (h.attempts claim hclaim).1.at_le⟩
  | failed id x ip slot rest claim timedOut hx hret =>
    obtain ⟨hstarted, hmem, hclaim⟩ := h.stage hx hret
    exact h.go hx hret ReturnPc.noConfusion ((Sessions.later_dropSlot _ _ _).trans (Sessions.later_mark _ _))
      ⟨hstarted, fun ip' hip' => hmem ip' (List.mem_cons_of_mem _ hip'), hclaim, fun hp => by cases hp⟩
  | cut id x behind hx hdue hstalled hlong hfree =>
    have hfinish (claim : Claim) : s.ReturnOk id (x.finish (.stuck s.clock behind claim)) :=
      ReturnOk.finish fun _ _ _ hr => by cases hr
    exact (h.setSession (Sessions.later_dropSlot s.tier me x.ret.slot) (hfinish _)).frame rfl rfl rfl rfl rfl rfl
  | watched id x hx hdue =>
    exact h.setSession (Sessions.Later.refl _) { h.sessions (running_eq_some hx).1 with }

/-! ## 6. The slots of the probes -/

/-- The sessions that probe the peer at `i`. -/
def probesOf (s : Watched) (i : Nat) : Nat := s.sessions.countP fun x => x.ret.slot = some i

/-- The slots taken for probes are those of the probes in flight. -/
def SlotsInv (me : Nat) (s : Watched) : Prop := ∀ i, Select.heldSlots me s.tier i = s.probesOf i

theorem SlotsInv.setSession {id : Nat} {x x' : WatchedSession} {tier : Sessions} (h : s.SlotsInv me)
    (hx : s.sessions[id]? = some x)
    (htier : ∀ i, Select.heldSlots me tier i + (if x.ret.slot = some i then 1 else 0) =
      Select.heldSlots me s.tier i + if x'.ret.slot = some i then 1 else 0) :
    SlotsInv me { s.setSession id x' with tier := tier } := by
  intro i
  have hcount := Indexed.countP_set_add (b := x') (fun x : WatchedSession => x.ret.slot = some i) hx
  simp only [decide_eq_true_eq] at hcount
  have hi := h i
  have ht := htier i
  simp only [probesOf, Watched.setSession] at hi ⊢
  omega

/-- The slot of a probe in flight is taken. -/
theorem SlotsInv.held {id k : Nat} {x : WatchedSession} (h : s.SlotsInv me) (hx : s.sessions[id]? = some x)
    (hslot : x.ret.slot = some k) : 0 < Select.heldSlots me s.tier k := by
  rw [h k]
  exact List.countP_pos_iff.mpr ⟨x, List.mem_of_getElem? hx, decide_eq_true hslot⟩

theorem SlotsInv.finish {id : Nat} {x : WatchedSession} (h : s.SlotsInv me) (hx : s.sessions[id]? = some x)
    (r : WatchedEnd) : SlotsInv me (s.finishSession me id x r) := by
  refine h.setSession hx fun i => ?_
  rw [Select.heldSlots_dropSlot (fun k hk => h.held hx hk) i]
  rfl

/-- A step that neither takes nor drops a slot. -/
theorem SlotsInv.same {id : Nat} {x : WatchedSession} (h : s.SlotsInv me) (hx : s.running id = some x)
    (x' : WatchedSession) (hslot : x'.ret.slot = x.ret.slot) : SlotsInv me (s.setSession id x') :=
  h.setSession (running_eq_some hx).1 fun _ => by rw [hslot]

theorem SlotsInv.step (h : s.SlotsInv me) (hs : step me lz4 s e = some t) : t.SlotsInv me := by
  cases step_eq_some hs with
  | advance now hle hawait => exact h
  | opened peer =>
    intro i
    have hnone : (WatchedSession.new s.tier.tier peer s.clock).ret.slot = none := by
      simp only [WatchedSession.new]
      split
      · rfl
      · rfl
    rw [probesOf, List.countP_append, List.countP_singleton, hnone]
    exact h i
  | closed id x hx => exact h.finish (running_eq_some hx).1 _
  | batch behind width => exact h
  | reload black => exact h
  | other e tier havoids htier => exact fun i => (Select.heldSlots_other havoids htier i).trans (h i)
  | claimed id x due watchStart candidates hx hret =>
    exact h.same hx { x with ret := .attempting candidates false _ } (by rw [hret]; rfl)
  | slept id x due watchStart hx hret => exact h.same hx _ (by rw [hret]; rfl)
  | full id x ip rest probed claim hx hret => exact h.same hx _ (by rw [hret]; rfl)
  | probing id x ip rest probed claim tier i hx hret hacquire =>
    refine h.setSession (running_eq_some hx).1 fun k => ?_
    rw [hret, Select.heldSlots, List.countP_cons, Select.heldSlots]
    simp only [decide_eq_true_eq, PrioritySession.mk.injEq, and_true, ReturnPc.slot, Option.some.injEq, reduceCtorEq,
      if_false, Nat.add_zero]
  | exhausted id x claim hx hret => exact h.same hx _ (by rw [hret]; rfl)
  | givenBack id x claim hx hret =>
    exact h.same hx { x with ret := .sleeping _ _ } (by rw [hret]; rfl)
  | returned id x ip slot rest claim hx hret => exact h.finish (running_eq_some hx).1 _
  | failed id x ip slot rest claim timedOut hx hret =>
    obtain ⟨hget, -⟩ := running_eq_some hx
    have hslot : x.ret.slot = some slot := by rw [hret]; rfl
    refine h.setSession hget fun k => ?_
    rw [hslot, ← Nat.add_zero (Select.heldSlots me s.tier k)]
    rw [Select.heldSlots_dropSlot (fun i hi => h.held hget (hslot.trans hi)) k]
    rfl
  | cut id x behind hx hdue hstalled hlong hfree => exact h.finish (running_eq_some hx).1 _
  | watched id x hx hdue => exact h.same hx _ rfl

/-! ## 7. Every run -/

theorem noted_start (tier : Sessions) (black : Blacklist) : Noted { tier := tier, black := black } :=
  ⟨rfl, fun _ hb => absurd hb List.not_mem_nil⟩

theorem cutsInv_of_run {ok : Watched → WatchedEvent → Prop} {es : List WatchedEvent} {tier : Sessions}
    {black : Blacklist} (hrun : Machine.Run (step me lz4) ok { tier := tier, black := black } es t) : t.CutsInv :=
  (hrun.invariant (I := fun u => u.Noted ∧ u.CutsInv)
    ⟨noted_start tier black, Indexed.all_nil _, fun _ hc => absurd hc List.not_mem_nil, List.Pairwise.nil,
      Throttle.guarded_nil _ _ _⟩ fun _ _ _ h _ hs => ⟨h.1.step hs, h.2.step h.1 hs⟩).2

theorem returnsInv_of_run {ok : Watched → WatchedEvent → Prop} {es : List WatchedEvent} {tier : Sessions}
    {black : Blacklist} (hrun : Machine.Run (step me lz4) ok { tier := tier, black := black } es t) : t.ReturnsInv :=
  (hrun.invariant (I := fun u => u.Noted ∧ u.ReturnsInv)
    ⟨noted_start tier black, Indexed.all_nil _, fun _ ha => absurd ha List.not_mem_nil, List.Pairwise.nil,
      Throttle.guarded_nil _ _ _⟩ fun _ _ _ h _ hs => ⟨h.1.step hs, h.2.step h.1 hs⟩).2

end Watched

/-- **Sessions ended for a stuck catch-up.**  Whatever sessions a node has, one after the other or
    at once: a session ended for the catch-up is at least `min_session` plus `catchup_max` old, the
    batches answered up to then are found to sit still, and two such ends are at least `retry`
    apart. -/
theorem catchup_cuts_over_runs {ok : Watched → WatchedEvent → Prop} {es : List WatchedEvent} {tier : Sessions}
    {black : Blacklist} {me : Nat} {lz4 : Lz4.Decoder} {t : Watched}
    (hrun : Machine.Run (Watched.step me lz4) ok { tier := tier, black := black } es t) :
    (∀ (id : Nat) (x : WatchedSession) (at_ : Nat) (behind : Option UInt32) (claim : Claim), t.sessions[id]? = some x →
      x.ended = some (.stuck at_ behind claim) →
      (claim ∈ t.cuts ∧ claim.id = id ∧ claim.at_ = at_) ∧
      x.started + REPIN.minSession + REPIN.catchupMax ≤ at_ ∧
      (∃ later, t.batches = claim.batches ++ later ∧ (∀ b ∈ claim.batches, b.at_ ≤ at_) ∧ ∀ b ∈ later, at_ ≤ b.at_) ∧
      clientBlocksStalled (noted claim.batches) at_ REPIN.catchupQuiet REPIN.catchupMax = some (true, behind)) ∧
    t.cuts.Pairwise (fun later earlier => earlier.at_ + REPIN.retry ≤ later.at_) := by
  have hinv := Watched.cutsInv_of_run hrun
  refine ⟨?_, List.pairwise_map.mp hinv.spaced⟩
  intro id x at_ behind claim hx hended
  obtain ⟨hcut, hid, rfl, hold, hstalled⟩ := (hinv.sessions hx).cut at_ behind claim hended
  exact ⟨⟨hcut, hid, rfl⟩, hold, (hinv.claims claim hcut).upTo, hstalled⟩

/-- A session whose node holds its distance, a batch every 40 s. -/
def stuckEvents : List WatchedEvent :=
  [.opened "198.51.100.1", .advance 20000000000, .batch (some 900) 27, .advance 60000000000, .checkStuck 0,
    .batch (some 912) 25, .advance 100000000000, .batch (some 905) 31, .advance 140000000000, .batch (some 899) 22,
    .advance 180000000000, .batch (some 908) 27, .advance 220000000000, .batch (some 903) 26, .advance 240000000000,
    .checkStuck 0]

theorem catchup_cuts_over_runs_stuckEvents :
    ∃ t : Watched, ∃ x : WatchedSession, ∃ claim : Claim, t.sessions = [x] ∧
      x.ended = some (.stuck 240000000000 (some 903) claim) ∧ claim.batches.length = 6 ∧ claim ∈ t.cuts ∧
      x.started + REPIN.minSession + REPIN.catchupMax ≤ 240000000000 := by
  have hexec : (Machine.exec (Watched.step 0 fun _ => none) (fun _ _ => True)
      { tier := Sessions.start [] 0 0 false, black := {} } stuckEvents).map Watched.sessions =
      some [⟨"198.51.100.1", 0, .off, 75000000000, some 60000000000, some (.stuck 240000000000 (some 903)
        ⟨0, 240000000000, 60000000000, [⟨20000000000, some 900, 27⟩, ⟨60000000000, some 912, 25⟩,
          ⟨100000000000, some 905, 31⟩, ⟨140000000000, some 899, 22⟩, ⟨180000000000, some 908, 27⟩,
          ⟨220000000000, some 903, 26⟩]⟩)⟩] := by
    decide +kernel
  obtain ⟨t, ht, hsessions⟩ := Option.map_eq_some_iff.mp hexec
  have hget := congrArg (fun l : List WatchedSession => l[0]?) hsessions
  obtain ⟨⟨hcut, -⟩, hold, -⟩ := (catchup_cuts_over_runs (Machine.Run.of_exec ht)).1 0 _ _ _ _ hget rfl
  exact ⟨t, _, _, hsessions, rfl, rfl, hcut, hold⟩

/-- **Sessions ended to return to the priority tier.**  The attempts of a node are at least `retry`
    apart over all its sessions, and at each of them the node had stopped catching up, or its
    catch-up had run for `catchup_max`.  Every probe in flight, and every session that was ended
    because a priority peer serves, is of an attempt of its session; that session was on a pool peer
    and at least `min_session` old when it claimed that very attempt.  The slots held for probes are
    exactly those of the probes in flight. -/
theorem priority_returns_over_runs {ok : Watched → WatchedEvent → Prop} {es : List WatchedEvent} {tier : Sessions}
    {black : Blacklist} {me : Nat} {lz4 : Lz4.Decoder} {t : Watched}
    (hnone : ∀ i, Select.heldSlots me tier i = 0)
    (hrun : Machine.Run (Watched.step me lz4) ok { tier := tier, black := black } es t) :
    t.attempts.Pairwise (fun later earlier => earlier.at_ + REPIN.retry ≤ later.at_) ∧
    (∀ a ∈ t.attempts,
      (∃ later, t.batches = a.batches ++ later ∧ (∀ b ∈ a.batches, b.at_ ≤ a.at_) ∧ ∀ b ∈ later, a.at_ ≤ b.at_) ∧
      caughtUp (noted a.batches) a.at_ a.watchStart = true) ∧
    (∀ (id : Nat) (x : WatchedSession) ip slot rest claim, t.sessions[id]? = some x →
      x.ret = .probing ip slot rest claim →
      ip ∈ t.tier.tier.peers ∧ x.peer ∉ t.tier.tier.peers ∧
      claim ∈ t.attempts ∧ claim.id = id ∧ x.started + REPIN.minSession ≤ claim.at_) ∧
    (∀ (id : Nat) (x : WatchedSession) (at_ : Nat) (ip : String) (claim : Claim), t.sessions[id]? = some x →
      x.ended = some (.returning at_ ip claim) →
      ip ∈ t.tier.tier.peers ∧ x.peer ∉ t.tier.tier.peers ∧
      claim ∈ t.attempts ∧ claim.id = id ∧ x.started + REPIN.minSession ≤ claim.at_ ∧ claim.at_ ≤ at_) ∧
    (∀ i, Select.heldSlots me t.tier i = t.probesOf i) := by
  have hinv := Watched.returnsInv_of_run hrun
  refine ⟨List.pairwise_map.mp hinv.spaced, ?_, ?_, ?_, ?_⟩
  · exact fun a ha => (hinv.attempts a ha).imp_left fun hanswered => hanswered.upTo
  · intro id x ip slot rest claim hx hret
    have hok := hinv.sessions hx
    have hstage := hok.stage
    rw [hret] at hstage
    obtain ⟨hstarted, hmem, hclaim, hid⟩ := hstage
    exact ⟨hmem ip List.mem_cons_self, hok.onPool (by rw [hret]; exact fun hoff => by cases hoff), hclaim, hid,
      Nat.le_trans hstarted (hinv.attempts claim hclaim).1.watchStart_le⟩
  · intro id x at_ ip claim hx hended
    obtain ⟨hpeer, hip, hclaim, hid, hstarted, hle⟩ := (hinv.sessions hx).returned at_ ip claim hended
    exact ⟨hip, hpeer, hclaim, hid, Nat.le_trans hstarted (hinv.attempts claim hclaim).1.watchStart_le, hle⟩
  · exact hrun.invariant (I := Watched.SlotsInv me) (fun i => hnone i) fun _ _ _ h _ hs => h.step hs

/-- A pool session that finds the one priority peer serving after a minute. -/
def returnEvents : List WatchedEvent :=
  [.opened "198.51.100.1", .advance 60000000000, .checkReturn 0, .nextProbe 0, .advance 61000000000,
    .probed 0 {} 1000020001 farStream]

theorem priority_returns_over_runs_returnEvents :
    ∃ t : Watched, ∃ x : WatchedSession, ∃ claim : Claim, t.sessions = [x] ∧
      x.ended = some (.returning 61000000000 "192.0.2.7" claim) ∧ claim.at_ = 60000000000 ∧ claim ∈ t.attempts ∧
      x.started + REPIN.minSession ≤ claim.at_ ∧ ∀ i, Select.heldSlots 0 t.tier i = t.probesOf i := by
  have hexec : (Machine.exec (Watched.step 0 Protocol.decompressSizePrepended) (fun _ _ => True)
      { tier := Sessions.start ["192.0.2.7"] 1 0 false, black := {} } returnEvents).map Watched.sessions =
      some [⟨"198.51.100.1", 0, .off, 60000000000, none,
        some (.returning 61000000000 "192.0.2.7" ⟨0, 60000000000, 60000000000, []⟩)⟩] := by
    decide +kernel
  obtain ⟨t, ht, hsessions⟩ := Option.map_eq_some_iff.mp hexec
  have hget := congrArg (fun l : List WatchedSession => l[0]?) hsessions
  obtain ⟨-, -, -, hreturned, hslots⟩ := priority_returns_over_runs (fun _ => rfl) (Machine.Run.of_exec ht)
  obtain ⟨-, -, hclaim, -, hstarted, -⟩ := hreturned 0 _ _ _ _ hget rfl
  exact ⟨t, _, _, hsessions, rfl, rfl, hclaim, hstarted, hslots⟩

end Hypersync.Gateway
