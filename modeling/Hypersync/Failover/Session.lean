import Hypersync.Blacklist
import Hypersync.Failover.Core
import Hypersync.Push.Live

/-!
# The event loop of a hot-standby session

`serve_failover` owns the decision core, the connected upstreams (`lives`) and a
handful of timers, and handles one event at a time: a frame of an upstream, a
closed stream, a standby that connected (or a round of dials that failed), bytes
of the node, a tick.  A handler either returns the session or ends it with a
reason.

What the environment answers (the clock, the network tip, the node's floor, the
candidate lists, whether the node's writer is alive) comes with each event, in an
`Env`.
-/

namespace Hypersync.Failover

open Hypersync.Protocol (isPlausibleMainnetRound roundLagFromTip ACTIVE_ROUND_MAX_LAG)
open Hypersync.Push (BlockProgress)

/-! ## 1. The session's state -/

def ACTIVE_DEAD_GRACE : Nat := 3000000000

def BAD_PEER_COOLDOWN : Nat := 120000000000

def STANDBY_RETRY : Nat := 2000000000

def STANDBY_RACE : Nat := 4

def SLOW_PEER_COOLDOWN : Nat := 1800000000000

/-- The configuration of failover and of the priority tier. -/
structure Config where
  stall : Nat
  lag : Nat
  minDwell : Nat
  standbys : Nat
  rotateSlower : Nat
  rotateEvery : Nat
  priorityContains : String → Bool
  tierPrio : String → Bool

/-- What the session reads while it handles one event. -/
structure Env where
  now : Nat
  netTip : UInt32 := 0
  liveFloor : UInt32 := 0
  sendOk : Bool := true
  writeOk : Bool := true
  pool : List String := []
  candidates : List String := []
  poolAllowed : Bool := true

/-- A connected upstream; `prio` when it holds a priority slot as a standby. -/
structure Live where
  prio : Bool
deriving DecidableEq, Repr

structure Session where
  core : Core
  lives : KeyMap Nat Live
  cooldown : KeyMap String Nat
  connecting : Bool
  nextConnect : Nat
  activeDead : Option (Nat × String)
  switches : Nat
  progress : BlockProgress
  lastRotate : Nat
  rot : Nat
  nextId : Nat
  /-- `none` is the initial `u64::MAX`, which no version equals. -/
  blacklistSeen : Option Nat
  sent : List (List UInt8)
  repins : List String

namespace Session

def new (cfg : Config) (activeIp : String) (initialLastForwarded : UInt32) (now : Nat) : Session where
  core :=
    let core := Core.new 0 activeIp initialLastForwarded cfg.stall cfg.lag cfg.minDwell
    if cfg.priorityContains activeIp then core.markPreferred 0 else core
  lives := AList.singleton 0 ⟨false⟩
  cooldown := ∅
  connecting := false
  nextConnect := now
  activeDead := none
  switches := 0
  progress := BlockProgress.new initialLastForwarded now
  lastRotate := now
  rot := 0
  nextId := 1
  blacklistSeen := none
  sent := []
  repins := []

/-- `queue_frame(&tx, &budget, frame)` -/
def queue (s : Session) (env : Env) (frames : List (List UInt8)) : Except String Session :=
  if env.sendOk then .ok { s with sent := s.sent ++ frames } else .error "node writer closed"

def markDead (s : Session) (now : Nat) (why : String) : Session :=
  { s with activeDead := s.activeDead.or (some (now, why)) }

/-- Take an upstream out of the core and the connections; `cool` is how long its
    address is not dialed again. -/
def discard (s : Session) (id : Nat) (cool : Option Nat) : Session :=
  { s with
    core := (s.core.remove id).2
    lives := s.lives.erase id
    cooldown :=
      match s.core.ipOf id, cool with
      | some ip, some t => s.cooldown.insert ip t
      | _, _ => s.cooldown }

def discardAll (s : Session) (ids : List Nat) (cool : Option Nat) : Session :=
  ids.foldl (fun s id => s.discard id cool) s

/-! ## 2. Frames -/

/-- The macro `forward_active_block!`. -/
def forwardActiveBlock (s : Session) (env : Env) (frame : List UInt8) (round : UInt32) (hash : UInt64)
    (at_ : Nat) : Except String Session :=
  if env.liveFloor < round then
    let (core, fwd, bad) := s.core.onActiveBlock round hash at_
    let s := { s with core := core }.discardAll (bad.map Prod.fst) (some (env.now + BAD_PEER_COOLDOWN))
    if fwd then s.queue env [frame] else .ok s
  else .ok s

/-- One prefetched frame, before the loop starts. -/
def prefetchedFrame (s : Session) (env : Env) (frame : List UInt8)
    (block : Option (UInt32 × UInt32 × UInt64)) : Except String Session :=
  match block with
  | some (r, _, h) =>
    if !isPlausibleMainnetRound r env.netTip then .error s!"implausible prefetched round {r}"
    else
      match s.progress.onRound r env.now with
      | none => .error ("prefetched " ++ (Push.Cause.jump r s.progress.lastRound).text)
      | some progress =>
        let s := { s with progress := progress }
        if env.liveFloor < r then
          let (core, fwd, _) := s.core.onActiveBlock r h env.now
          if fwd then { s with core := core }.queue env [frame] else .ok { s with core := core }
        else .ok s
  | none => s.queue env [frame]

/-- The session as the loop finds it: set up, and through its prefetched frames, each
    with what it is classified as. -/
def start (cfg : Config) (activeIp : String) (initialLastForwarded : UInt32) (now : Nat)
    (prefetched : List (Env × List UInt8 × Option (UInt32 × UInt32 × UInt64))) : Except String Session :=
  prefetched.foldlM (fun s f => s.prefetchedFrame f.1 f.2.1 f.2.2) (new cfg activeIp initialLastForwarded now)

/-- `Event::Frame` of an upstream that is still connected, for a block. -/
def onBlock (s : Session) (env : Env) (id : Nat) (frame : List UInt8) (r p : UInt32) (h : UInt64)
    (at_ : Nat) : Except String Session :=
  let lagged := roundLagFromTip r env.netTip ACTIVE_ROUND_MAX_LAG
  if !isPlausibleMainnetRound r env.netTip ∨ lagged.isSome then
    let tip := env.netTip
    let why :=
      match lagged with
      | some l => s!"round {r} lags tip {tip} by {l}"
      | none => s!"implausible round {r}"
    if id = s.core.active then .ok (s.markDead env.now why)
    else if (s.core.ipOf id).isSome then .ok (s.discard id (some (env.now + BAD_PEER_COOLDOWN)))
    else .ok s
  else if id = s.core.active then
    if s.activeDead.isNone then
      match s.progress.onRound r at_ with
      | some progress => { s with progress := progress }.forwardActiveBlock env frame r h at_
      | none => .ok (s.markDead env.now (Push.Cause.jump r s.progress.lastRound).text)
    else .ok s
  else
    match s.core.onStandbyBlock id r p h at_ frame with
    | (core, .mismatch _) =>
      .ok ({ s with core := core }.discard id (some (env.now + BAD_PEER_COOLDOWN)))
    | (core, .ok) => .ok { s with core := core }

/-- `Event::Frame`; frames of an upstream that was dropped are ignored. -/
def onFrame (s : Session) (env : Env) (id : Nat) (frame : List UInt8)
    (block : Option (UInt32 × UInt32 × UInt64)) (at_ : Nat) : Except String Session :=
  if id ∉ s.lives then .ok s
  else
    match block with
    | some (r, p, h) => s.onBlock env id frame r p h at_
    | none => if id = s.core.active ∧ s.activeDead.isNone then s.queue env [frame] else .ok s

/-! ## 3. Connections -/

/-- `Event::Closed` -/
def onClosed (s : Session) (env : Env) (id : Nat) (reason : String) : Session :=
  if id = s.core.active then s.markDead env.now reason
  else s.discard id (some (env.now + STANDBY_RETRY * 5))

/-- `Event::Connected` -/
def onConnected (cfg : Config) (s : Session) (ip : String) (prio : Bool) : Session :=
  let core := s.core.addStandby s.nextId ip
  { s with
    connecting := false
    nextId := s.nextId + 1
    lives := s.lives.insert s.nextId ⟨prio⟩
    core := if cfg.priorityContains ip then core.markPreferred s.nextId else core }

/-- `Event::ConnectFailed` -/
def onConnectFailed (s : Session) (env : Env) : Session :=
  { s with connecting := false, nextConnect := env.now + STANDBY_RETRY }

/-- `Event::NodeBytes` -/
def onNodeBytes (s : Session) (env : Env) : Session :=
  if s.core.active ∈ s.lives ∧ !env.writeOk then s.markDead env.now "active write failed" else s

/-! ## 4. The tick -/

/-- The stall check of the active. -/
def tickStalled (s : Session) (env : Env) : Session :=
  let round := s.progress.lastRound
  if s.activeDead.isNone ∧ s.progress.stalled env.now then
    s.markDead env.now s!"no block above round {round} for 30s"
  else s

/-- The ids of connected standbys on the list. -/
def banned (s : Session) (blacklist : Blacklist) : List Nat :=
  s.lives.keys.filter fun id => id ≠ s.core.active && (s.core.ipOf id).any blacklist.contains

/-- A listed active is to be handed over like a dead one; listed standbys go now. -/
def recheck (s : Session) (env : Env) (blacklist : Blacklist) : Session :=
  let ids := s.banned blacklist
  let s :=
    if (s.core.ipOf s.core.active).any blacklist.contains then
      s.markDead env.now "active peer blacklisted"
    else s
  s.discardAll ids none

/-- The re-check is made only when the list changed since the last one. -/
def tickBlacklist (s : Session) (env : Env) (blacklist : Blacklist) : Session :=
  if some blacklist.version ≠ s.blacklistSeen then
    { s with blacklistSeen := some blacklist.version }.recheck env blacklist
  else s

/-- The switch, if the core names a standby and can make it. -/
def tickSwitch (s : Session) (env : Env) : Except String Session :=
  match s.core.pickSwitch env.now s.activeDead.isSome with
  | none => .ok s
  | some (id, _) =>
    let old := s.core.active
    let oldIp := (s.core.ipOf old).getD "?"
    match s.core.switchTo id env.now with
    | none => .ok s
    | some (core, frames, bad) =>
      match { s with core := core }.queue env frames with
      | .error reason => .error reason
      | .ok s =>
        let s := { s with
          activeDead := none
          switches := s.switches + 1
          progress := BlockProgress.new core.lastForwarded env.now
          lives := KeyMap.modify id (fun _ => ⟨false⟩) s.lives
          repins := s.repins ++ [(core.ipOf id).getD "?"] }
        let s := s.discard old none
        let s := { s with cooldown := s.cooldown.insert oldIp (env.now + BAD_PEER_COOLDOWN) }
        .ok (s.discardAll (bad.map Prod.fst) (some (env.now + BAD_PEER_COOLDOWN)))

/-- A dead active that no standby could replace ends the session. -/
def tickGrace (s : Session) (env : Env) : Except String Session :=
  match s.activeDead with
  | some (t, reason) =>
    if ACTIVE_DEAD_GRACE ≤ env.now - t then
      .error ("active failed and no standby could continue the chain: " ++ reason)
    else .ok s
  | none => .ok s

/-- Now and then the slowest standby is swapped out. -/
def tickRotate (cfg : Config) (s : Session) (env : Env) : Session :=
  if 0 < cfg.rotateSlower ∧ !s.connecting ∧ s.activeDead.isNone ∧
      cfg.standbys ≤ s.core.standbyCount ∧ cfg.rotateEvery ≤ env.now - s.lastRotate then
    let s := { s with lastRotate := env.now }
    match s.core.slowestStandby (asMillis cfg.rotateSlower) cfg.tierPrio with
    | some (id, _) => s.discard id (some (env.now + SLOW_PEER_COOLDOWN))
    | none => s
  else s

/-- The candidates for a free standby slot, in the order they are dialed. -/
def standbyCandidates (s : Session) (env : Env) (cooldown : KeyMap String Nat) : List String :=
  let inUse := s.lives.keys.filterMap s.core.ipOf
  let pool :=
    if env.pool ≠ [] ∧ env.poolAllowed then
      (List.range env.pool.length).map fun i => env.pool.getD ((s.rot + i) % env.pool.length) ""
    else []
  ((env.candidates ++ pool).filter fun ip => ip ∉ inUse ∧ ip ∉ cooldown).foldl
    (fun seen ip => if ip ∈ seen then seen else seen ++ [ip]) []

/-- Keep the standby set full: the session, and the candidates of a new dial task. -/
def tickRefill (cfg : Config) (s : Session) (env : Env) : Session × Option (List String) :=
  if !s.connecting ∧ s.core.standbyCount < cfg.standbys ∧ s.nextConnect ≤ env.now then
    let cooldown := KeyMap.retain (fun _ until_ => env.now < until_) s.cooldown
    let cands := (s.standbyCandidates env cooldown).take (STANDBY_RACE * 3)
    let s := { s with cooldown := cooldown, rot := s.rot + 1 }
    if cands = [] then ({ s with nextConnect := env.now + STANDBY_RETRY }, none)
    else ({ s with connecting := true }, some cands)
  else (s, none)

def onTick (cfg : Config) (s : Session) (env : Env) (blacklist : Blacklist) :
    Except String (Session × Option (List String)) :=
  match ((s.tickStalled env).tickBlacklist env blacklist).tickSwitch env with
  | .error reason => .error reason
  | .ok s =>
    match s.tickGrace env with
    | .error reason => .error reason
    | .ok s => .ok ((s.tickRotate cfg env).tickRefill cfg env)

end Session

end Hypersync.Failover
