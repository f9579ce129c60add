import Hypersync.Gateway.ClientBlocks
import Hypersync.Priority

/-!
# The race for a client-block (4002) request

`fetch_client_blocks_raced` asks the pinned active peer alone first, or a remembered
one in its place; then the priority peers, and the pool.  On an exclusive tier the
pool waits for the priority round, and a pool active is deferred with it.

The request is a machine: `go` is the next step of its own task between two awaits,
`join` and `timer` are the two ways an await ends.  The node's pins, the blacklist,
the round-robin counter and the clock are shared and may be anything at the next
step (`world`), and other tasks use the tier (`other`).
-/

namespace Hypersync.Gateway

/-! ## 1. Attempts and candidates -/

def ACTIVE_4002_PIN_WAIT : Nat := 1500000000

def ACTIVE_4002_GRACE : Nat := 2000000000

def PRIORITY_4002_ROUND : Nat := 6000000000

/-- An attempt: under way with its slot, or over. -/
inductive AskState where
  | asking (slot : Option Nat)
  | done (result : Except FetchError ClientBlockUpstreamResponse)
  | panicked
deriving DecidableEq

structure Ask where
  tag : Option ActivePeer
  ip : String
  prewarm : Bool
  state : AskState
deriving DecidableEq

def Ask.slot (a : Ask) : Option Nat :=
  match a.state with
  | .asking slot => slot
  | _ => none

/-- The loop of `client_block_peer_candidates` from the `k`-th pool peer on; whatever
    it has `seen` is in `out`. -/
def poolCandidates (peers : List String) (start limit : Nat) : List Nat → List String → List String
  | [], out => out
  | k :: ks, out =>
    if limit ≤ out.length then out
    else
      let ip := peers.getD ((start + k) % peers.length) ""
      poolCandidates peers start limit ks (if ip ∈ out then out else out ++ [ip])

/-- The candidates, and the counter behind them. -/
def clientBlockPeerCandidates (head peers : List String) (rr limit : Nat) : List String × Nat :=
  if limit = 0 then ([], rr)
  else if peers.isEmpty then (head.take limit, rr)
  else (poolCandidates peers rr limit (List.range peers.length) (head.take limit), rr + max limit 1)

/-- `active_answers_first` -/
def activeAnswersFirst (tier : PriorityTier) (black : Blacklist) (now : Nat) (ip : String) : Bool :=
  tier.contains ip || tier.poolAllowed black now

/-! ## 2. The request -/

structure RaceArgs where
  me : Nat
  peers : List String
  req : List UInt8

inductive RacePc where
  | begin
  -- waiting for a pin, up to the instant given
  | pinning (remembered : Option String) (limit : Nat)
  | pinned (remembered : Option String) (pin : Option ActivePeer)
  | first (remembered : Option String) (active : Option ActivePeer)
  -- the first attempt alone, up to the instant given
  | grace (limit : Nat)
  | hedge
  | roundTop (round : List String)
  | launching (round : List String)
  | racing
  | returned (result : Except (List Failure) (List UInt8))

/-- `asked` lists the peers the request was sent to, `joined` the results in the order
    they were joined, with whether the attempt was untagged or its pin still current. -/
structure ClientRace where
  -- shared
  clock : Nat
  black : Blacklist
  sessions : Sessions
  node : Pins
  rr : Nat
  -- the request's own
  started : Nat := 0
  firstIp : Option String := none
  deferred : Option ActivePeer := none
  deferredPin : Option ActivePeer := none
  set : List Ask := []
  race : Race := {}
  poolHedged : Bool := false
  prioPending : List String := []
  roundDeadline : Option Nat := none
  pc : RacePc := .begin
  asked : List String := []
  joined : List (Bool × Except FetchError ClientBlockUpstreamResponse) := []

inductive RaceEvent where
  | world (now : Nat) (black : Blacklist) (node : Pins) (rr : Nat)
  | other (e : TierEvent)
  | answer (a : Ask) (io : FetchIo) (bytes : List UInt8)
  | panic (a : Ask)
  | go
  | join (a : Ask)
  | timer
  | reap (a : Ask)

namespace ClientRace

/-- `attempts.spawn(..)` -/
def spawn (s : ClientRace) (tag : Option ActivePeer) (ip : String) (prewarm : Bool) (slot : Option Nat) :
    ClientRace :=
  { s with set := ⟨tag, ip, prewarm, .asking slot⟩ :: s.set, asked := s.asked ++ [ip] }

/-- `prewarm_slot`: a priority peer is used only with a free slot. -/
def prewarmSlot (me : Nat) (ss : Sessions) (ip : String) : Option (Sessions × Option Nat) :=
  if ss.tier.contains ip then
    match ss.tier.tryAcquire ip with
    | some (tier, i) => some ({ ss with tier := tier, guards := ⟨i, me⟩ :: ss.guards }, some i)
    | none => none
  else some (ss, none)

/-- A remembered peer stands in for a missing pin; a pool peer only while the pool may
    serve the node. -/
def remembered (s : ClientRace) : Option String :=
  (s.node.rpcPeer.filter fun ip => !s.black.contains ip).filter fun ip =>
    s.sessions.tier.contains ip || s.sessions.tier.poolAllowed s.black s.clock

/-- Stage 1: whom to ask alone. -/
def askFirst (args : RaceArgs) (s : ClientRace) (remembered : Option String) :
    Option ActivePeer → ClientRace
  | some peer =>
    { s.spawn (some peer) peer.ip false none with
      firstIp := some peer.ip
      pc := .grace (s.clock + ACTIVE_4002_GRACE) }
  | none =>
    match remembered with
    | none => { s with pc := .hedge }
    | some ip =>
      match prewarmSlot args.me s.sessions ip with
      | none => { s with pc := .hedge }
      | some (sessions, slot) =>
        { s.spawn none ip true slot with
          sessions := sessions
          firstIp := some ip
          pc := .grace (s.clock + ACTIVE_4002_GRACE) }

/-- Stage 2: on an exclusive tier the priority peers alone. -/
def openRound (args : RaceArgs) (s : ClientRace) : ClientRace :=
  let prio := s.sessions.tier.candidatesAt s.black s.clock
  if s.sessions.tier.exclusive ∧ prio ≠ [] then
    { s with pc := .roundTop (clientBlockPeerCandidates prio [] s.rr prio.length).1 }
  else
    let next := clientBlockPeerCandidates prio args.peers s.rr 8
    { s with rr := next.2, poolHedged := true, pc := .roundTop next.1 }

/-- The deferred pool active answers next to the pool. -/
def askDeferred (s : ClientRace) (round : List String) : ClientRace :=
  match s.poolHedged, s.deferred with
  | true, some peer =>
    { s.spawn (some peer) peer.ip false none with
      deferred := none
      prioPending := []
      pc := .launching round }
  | _, _ => { s with prioPending := [], pc := .launching round }

/-- One peer of the round. -/
def launch (args : RaceArgs) (s : ClientRace) (ip : String) (rest : List String) : ClientRace :=
  if s.firstIp = some ip ∨ s.deferredPin.any (fun peer => peer.ip = ip) then { s with pc := .launching rest }
  else
    match prewarmSlot args.me s.sessions ip with
    | none => { s with pc := .launching rest }
    | some (sessions, slot) =>
      { s.spawn none ip true slot with
        sessions := sessions
        prioPending := if s.poolHedged then s.prioPending else s.prioPending ++ [ip]
        pc := .launching rest }

/-- Behind both rounds: a terminal frame, else a range-too-small frame, else the failures. -/
def lastResort (race : Race) : Except (List Failure) (List UInt8) :=
  match race.terminal, race.tooSmall with
  | some frame, _ => .ok frame
  | none, some frame => .ok frame
  | none, none => .error race.failures

/-- A round is over: the pool has its turn, or the request its answer. -/
def roundOver (args : RaceArgs) (s : ClientRace) : ClientRace :=
  if s.poolHedged ∨ s.race.terminal.isSome ∨ s.race.tooSmall.isSome ∨
      (args.peers.isEmpty ∧ s.deferred.isNone) then
    { s with pc := .returned (lastResort s.race) }
  else
    let next := clientBlockPeerCandidates [] args.peers s.rr 8
    { s with rr := next.2, poolHedged := true, pc := .roundTop next.1 }

/-- The next step of the request's own task. -/
def go (args : RaceArgs) (s : ClientRace) : Option ClientRace :=
  match s.pc with
  | .begin =>
    some { s with started := s.clock, pc := .pinning s.remembered (s.clock + ACTIVE_4002_PIN_WAIT) }
  | .pinning remembered limit =>
    let seen := s.node.activeSessionSnapshot s.black.contains
    if remembered.isSome ∨ seen.1.isSome ∨ limit ≤ s.clock then
      some { s with node := seen.2, pc := .pinned remembered seen.1 }
    else some { s with node := seen.2 }
  | .pinned remembered none => some { s with pc := .first remembered none }
  | .pinned remembered (some peer) =>
    if activeAnswersFirst s.sessions.tier s.black s.clock peer.ip then
      some { s with pc := .first remembered (some peer) }
    else some { s with deferred := some peer, deferredPin := some peer, pc := .first remembered none }
  | .first remembered active => some (s.askFirst args remembered active)
  | .hedge => some (s.openRound args)
  | .roundTop round => some (s.askDeferred round)
  | .launching (ip :: rest) => some (s.launch args ip rest)
  | .launching [] =>
    some { s with
      roundDeadline := if s.poolHedged then none else some (s.started + PRIORITY_4002_ROUND)
      pc := .racing }
  | .racing => if s.set = [] then some (s.roundOver args) else none
  | .grace _ => none
  | .returned _ => none

/-! ## 3. Joining -/

/-- Untagged, or tagged with the pin that is still current. -/
def Ask.counts (node : Pins) (a : Ask) : Bool :=
  match a.tag with
  | some peer => node.activeIsCurrent peer
  | none => true

/-- The winner of a hedge is remembered. -/
def remember (s : ClientRace) (a : Ask) : Pins :=
  match a.tag, s.deferredPin with
  | some _, _ => s.node
  | none, some pin =>
    if s.sessions.tier.contains a.ip ∧ s.node.activeIsCurrent pin then { s.node with rpcPeer := some a.ip } else s.node
  | none, none =>
    let seen := s.node.activeSessionSnapshot s.black.contains
    if seen.1.isNone then { seen.2 with rpcPeer := some a.ip } else seen.2

/-- The request with a result of `a` noted. -/
def note (s : ClientRace) (a : Ask) (result : Except FetchError ClientBlockUpstreamResponse) : ClientRace :=
  let noted := noteClientBlockResult s.node a.tag a.ip result s.race
  { s with
    set := s.set.erase a
    node := noted.2.1
    race := noted.2.2
    prioPending := s.prioPending.filter (· ≠ a.ip)
    joined := s.joined ++ [(Ask.counts s.node a, result)] }

/-- A result of the first attempt, within its grace. -/
def joinFirst (s : ClientRace) (a : Ask) (result : Except FetchError ClientBlockUpstreamResponse) : ClientRace :=
  match (noteClientBlockResult s.node a.tag a.ip result s.race).1 with
  | some frame => { s.note a result with pc := .returned (.ok frame) }
  | none => { s.note a result with pc := .hedge }

/-- A result in a round. -/
def joinHedged (s : ClientRace) (a : Ask) (result : Except FetchError ClientBlockUpstreamResponse) : ClientRace :=
  match (noteClientBlockResult s.node a.tag a.ip result s.race).1 with
  | some frame => { s.note a result with node := (s.note a result).remember a, pc := .returned (.ok frame) }
  | none => s.note a result

/-- What `join_next` gives, in stage 1 and in a round. -/
def joinAsk (s : ClientRace) (a : Ask) : Option ClientRace :=
  match s.pc, a.state with
  | .grace _, .done result => some (s.joinFirst a result)
  | .grace _, .panicked => some { s with set := s.set.erase a, pc := .hedge }
  | .racing, .done result => some (s.joinHedged a result)
  | .racing, .panicked => some { s with set := s.set.erase a }
  | _, _ => none

/-- A timed wait is over: the grace of the first attempt, or the priority round. -/
def expire (args : RaceArgs) (s : ClientRace) : Option ClientRace :=
  match s.pc with
  | .grace limit => if limit ≤ s.clock then some { s with pc := .hedge } else none
  | .racing =>
    match s.roundDeadline with
    | some limit =>
      if limit ≤ s.clock then
        some ({ s with
          sessions := s.prioPending.foldl (fun ss ip => ss.mark ⟨ip, false, s.clock⟩) s.sessions }.roundOver args)
      else none
    | none => none
  | _ => none

/-- `a` is over, and its slot with it. -/
def settle (me : Nat) (s : ClientRace) (a : Ask) (state : AskState) : ClientRace :=
  { s with
    set := Bag.replace s.set a { a with state := state }
    sessions := s.sessions.dropSlot me a.slot }

def step (args : RaceArgs) (s : ClientRace) : RaceEvent → Option ClientRace
  | .world now black node rr =>
    if s.clock ≤ now then some { s with clock := now, black := black, node := node, rr := rr } else none
  | .other e =>
    if e.avoids args.me then
      match s.sessions.step e with
      | some sessions => some { s with sessions := sessions }
      | none => none
    else none
  | .answer a io bytes =>
    if a ∈ s.set then
      match a.state with
      | .asking _ => some (s.settle args.me a (.done (fetchClientBlocksFromPeer io args.req a.prewarm bytes)))
      | _ => none
    else none
  | .panic a =>
    if a ∈ s.set then
      match a.state with
      | .asking _ => some (s.settle args.me a .panicked)
      | _ => none
    else none
  | .go => s.go args
  | .join a => if a ∈ s.set then s.joinAsk a else none
  | .timer => s.expire args
  | .reap a =>
    match s.pc with
    | .returned _ =>
      if a ∈ s.set then
        some { s with set := s.set.erase a, sessions := s.sessions.dropSlot args.me a.slot }
      else none
    | _ => none

end ClientRace

end Hypersync.Gateway
