import Hypersync.Gateway.Vetting
import Hypersync.Priority

/-!
# Choosing the live peer of a node

`select_live_peer` races the usable priority peers at once.  The pool joins the race,
a few peers at a time, when the stage budget of the tier has run out or every
priority attempt has failed; an exclusive tier has no stage budget.  Attempts are
tasks of their own: they take their priority slot when they are first polled and
release it when they fail or are dropped.

The machine has one event for everything that can happen while the selection waits:
an attempt goes on, an attempt is joined, the timer fires, other tasks use the tier.
Time passes only while the selection waits, and no further than to its timer.
After it has returned, the attempts left in the set are dropped one by one.
-/

namespace Hypersync.Gateway

/-! ## 1. Attempts -/

def LIVE_SELECT_WAIT : Nat := 3500000000

def LIVE_SELECT_MAX_PARALLEL : Nat := 4

/-- What an attempt fails with: its slot was refused, or the peer did not pass. -/
inductive AttemptError where
  | capReached
  | vet (e : VetError)
deriving DecidableEq, Repr

def PRIORITY_CAP_REACHED : String := "priority session cap reached"

def AttemptError.text : AttemptError → String
  | .capReached => PRIORITY_CAP_REACHED
  | .vet e => e.text

/-- `e.kind() == ErrorKind::TimedOut` -/
def AttemptError.timedOut : AttemptError → Bool
  | .vet (.io .timedOut) => true
  | _ => false

/-- A `live_attempt` task: not polled yet, dialing with its slot, or over. -/
inductive AttemptState where
  | spawned
  | dialing (slot : Option Nat)
  | done (result : Except AttemptError LivePeerSession)
  | panicked
deriving DecidableEq

structure Attempt where
  ip : String
  isPriority : Bool
  state : AttemptState
deriving DecidableEq

/-- The slot that goes when the task is dropped. -/
def Attempt.slot (a : Attempt) : Option Nat :=
  match a.state with
  | .dialing slot => slot
  | .done (.ok live) => live.prioSession
  | _ => none

/-! ## 2. The selection -/

/-- The arguments; `me` tells this selection from the other tasks that use the tier. -/
structure SelectArgs where
  me : Nat
  peers : List String
  start : Nat
  greet : List UInt8
  minRoundExclusive : UInt32
  netTip : UInt32

inductive SelectPc where
  | waiting (wakeAt : Nat) (poolOpen : Bool)
  | returned (session : Option (Bool × LivePeerSession))

/-- `failed` records the priority attempts joined with an error. -/
structure Select where
  sessions : Sessions
  clock : Nat
  started : Nat
  prio : List String
  poolOpens : Nat
  set : List Attempt
  prioInFlight : Nat
  poolInFlight : Nat := 0
  launched : Nat := 0
  prioPending : List String
  pc : SelectPc := .waiting 0 false
  failed : List (String × AttemptError) := []

/-- Events name the attempt they are about by its value: equal attempts are
    interchangeable. -/
inductive SelectEvent where
  | advance (now : Nat)
  | poll (a : Attempt)
  | vet (a : Attempt) (io : VetIo) (input : List UInt8)
  | panic (a : Attempt)
  | join (a : Attempt)
  | timer
  | other (e : TierEvent)
  | reap (a : Attempt)

def SelectEvent.panics : SelectEvent → Bool
  | .panic _ => true
  | _ => false

namespace Select

def deadline (s : Select) : Nat := s.started + LIVE_SELECT_WAIT

/-- The `while` over the free pool slots. -/
def launchPool (args : SelectArgs) : Nat → Select → Select
  | 0, s => s
  | slots + 1, s =>
    if s.launched < args.peers.length ∧ 0 < s.deadline - s.clock then
      launchPool args slots
        { s with
          set := ⟨args.peers.getD ((args.start + s.launched) % args.peers.length) "", false, .spawned⟩ :: s.set
          launched := s.launched + 1
          poolInFlight := s.poolInFlight + 1 }
    else s

/-- Past the loop: whoever is still pending is marked as hung. -/
def giveUp (s : Select) : Select :=
  { s with
    sessions := s.prioPending.foldl (fun ss ip => ss.mark ⟨ip, true, s.clock⟩) s.sessions
    pc := .returned none }

/-- The second half of a turn, up to its await: over, or asleep until the deadline or
    until the pool opens. -/
def await (s : Select) (poolOpen : Bool) : Select :=
  let remaining := s.deadline - s.clock
  if s.set.isEmpty ∨ remaining = 0 then s.giveUp
  else
    let wake := if poolOpen then remaining else min (s.poolOpens - s.clock) remaining
    { s with pc := .waiting (s.clock + wake) poolOpen }

/-- One turn of the loop. -/
def turn (args : SelectArgs) (s : Select) : Select :=
  if s.poolOpens ≤ s.clock ∨ s.prioInFlight = 0 then
    (s.launchPool args (LIVE_SELECT_MAX_PARALLEL - s.poolInFlight)).await true
  else s.await false

/-- `select_live_peer` up to its first await. -/
def begin (args : SelectArgs) (black : Blacklist) (sessions : Sessions) (started : Nat) : Select :=
  let tier := sessions.tier
  let prio := tier.candidatesAt black started
  let s : Select :=
    { sessions := sessions
      clock := started
      started := started
      prio := prio
      poolOpens :=
        if prio.isEmpty then started
        else if tier.exclusive then started + LIVE_SELECT_WAIT
        else started + tier.stage
      set := prio.map fun ip => ⟨ip, true, .spawned⟩
      prioInFlight := prio.length
      prioPending := prio }
  if args.peers.isEmpty ∧ prio.isEmpty then { s with pc := .returned none } else s.turn args

/-! ## 3. What can happen -/

/-- `a` goes on, in another state. -/
def proceed (s : Select) (a : Attempt) (state : AttemptState) : Select :=
  { s with set := Bag.replace s.set a { a with state := state } }

/-- The first poll of `a`: a priority attempt takes its slot, or fails without one. -/
def poll (me : Nat) (s : Select) (a : Attempt) : Select :=
  if a.isPriority then
    match s.sessions.tier.tryAcquire a.ip with
    | some (tier, i) =>
      { s.proceed a (.dialing (some i)) with
        sessions := { s.sessions with tier := tier, guards := ⟨i, me⟩ :: s.sessions.guards } }
    | none => s.proceed a (.done (.error .capReached))
  else s.proceed a (.dialing none)

/-- The rest of `live_attempt`: the slot goes into the session, or is released. -/
def finish (me : Nat) (s : Select) (a : Attempt) (slot : Option Nat) :
    Except VetError LivePeerSession → Select
  | .ok live => s.proceed a (.done (.ok { live with prioSession := slot }))
  | .error e =>
    { s.proceed a (.done (.error (.vet e))) with sessions := s.sessions.dropSlot me slot }

/-- A joined priority attempt that failed: cooled down unless its peer was full. -/
def markAttempt (s : Select) (ip : String) (e : AttemptError) : Sessions :=
  if e.timedOut then s.sessions.mark ⟨ip, true, s.clock⟩
  else if e ≠ .capReached then s.sessions.mark ⟨ip, false, s.clock⟩
  else s.sessions

/-- `Ok(Some(Ok((ip, is_priority, Err(e)))))` -/
def joinFailed (s : Select) (a : Attempt) (e : AttemptError) : Select :=
  if a.isPriority then
    { s with
      set := s.set.erase a
      prioInFlight := s.prioInFlight - 1
      prioPending := s.prioPending.filter (· ≠ a.ip)
      sessions := s.markAttempt a.ip e
      failed := s.failed ++ [(a.ip, e)] }
  else { s with set := s.set.erase a, poolInFlight := s.poolInFlight - 1 }

def step (lz4 : Lz4.Decoder) (args : SelectArgs) (s : Select) : SelectEvent → Option Select
  | .advance now =>
    match s.pc with
    | .waiting wakeAt _ => if s.clock ≤ now ∧ now ≤ wakeAt then some { s with clock := now } else none
    | .returned _ => none
  | .poll a => if a ∈ s.set ∧ a.state = .spawned then some (s.poll args.me a) else none
  | .vet a io input =>
    match a.state with
    | .dialing slot =>
      if a ∈ s.set then
        some (s.finish args.me a slot (openLivePeerSessionWithGreet lz4 io a.ip args.greet
          args.minRoundExclusive args.netTip input))
      else none
    | _ => none
  | .panic a =>
    match a.state with
    | .dialing slot =>
      if a ∈ s.set then
        some { s.proceed a .panicked with sessions := s.sessions.dropSlot args.me slot }
      else none
    | _ => none
  | .join a =>
    if a ∈ s.set then
      match s.pc, a.state with
      | .waiting _ _, .done (.ok live) =>
        some { s with set := s.set.erase a, pc := .returned (some (a.isPriority, live)) }
      | .waiting _ _, .done (.error e) => some ((s.joinFailed a e).turn args)
      | .waiting _ _, .panicked => some ({ s with set := s.set.erase a }.turn args)
      | _, _ => none
    else none
  | .timer =>
    match s.pc with
    | .waiting wakeAt poolOpen =>
      if wakeAt ≤ s.clock then some (if poolOpen then s.giveUp else s.turn args) else none
    | .returned _ => none
  | .other e =>
    if e.avoids args.me then
      match s.sessions.step e with
      | some sessions => some { s with sessions := sessions }
      | none => none
    else none
  | .reap a =>
    match s.pc with
    | .returned _ =>
      if a ∈ s.set then
        some { s with set := s.set.erase a, sessions := s.sessions.dropSlot args.me a.slot }
      else none
    | .waiting _ _ => none

end Select

end Hypersync.Gateway
