import Hypersync.Lib.KeyMap
import Hypersync.Lib.OrdMap
import Hypersync.Lib.Word
import Mathlib.Data.List.Sort

/-!
# The decision core of hot-standby failover

The core follows one *active* upstream, whose blocks go to the node, and any
number of *standbys*, whose blocks are compared with what was forwarded or, when
they are ahead of the node, buffered.  A switch replays a standby's buffered
chain from the node's last block on.

Instants and durations are nanoseconds; `ups` is the hash map of upstreams, its
list order the iteration order.  Every `while` loop takes as fuel the size of the
map it shrinks.
-/

namespace Hypersync.Failover

/-! ## 1. Upstreams -/

def MIN_VERIFIED : Nat := 3

def MAX_MISMATCHES : Nat := 3

def LEAD_WINDOW : Nat := 40

def LEAD_MIN_SAMPLES : Nat := 20

def FORWARDED_KEEP : Nat := 1024

def AHEAD_KEEP : Nat := 512

def AHEAD_BYTES : Nat := 32 <<< 20

def I64_MIN : Int := -9223372036854775808

/-- `Duration::as_millis`. -/
def asMillis (ns : Nat) : Int := (ns / 1000000 : Nat)

inductive SwitchReason where
  | stall
  | lag
  | activeDead
  | preferred
deriving DecidableEq, Repr

structure Ahead where
  parent : UInt32
  hash : UInt64
  at_ : Nat
  frame : List UInt8
deriving DecidableEq, Repr

structure Upstream where
  ip : String
  verified : Nat := 0
  mismatches : Nat := 0
  ahead : OrdMap UInt32 Ahead := OrdMap.empty
  aheadBytes : Nat := 0
  droppedMax : UInt32 := 0
  leads : List Int := []
  lastRx : Option Nat := none
  preferred : Bool := false

namespace Upstream

def pushLead (u : Upstream) (ms : Int) : Upstream :=
  { u with leads := (if u.leads.length = LEAD_WINDOW then u.leads.tail else u.leads) ++ [ms] }

/-- One comparison with the forwarded block; true once the standby has disagreed
    `MAX_MISMATCHES` times in a row. -/
def compared (u : Upstream) (matched : Bool) (leadMs : Int) : Upstream × Bool :=
  if matched then
    (pushLead { u with verified := u.verified + 1, mismatches := 0 } leadMs, false)
  else
    ({ u with verified := 0, mismatches := u.mismatches + 1 },
      decide (MAX_MISMATCHES ≤ u.mismatches + 1))

/-- The trimming loop of `insert_ahead`: the highest rounds go first. -/
def trimHigh : Nat → Upstream → Upstream
  | 0, u => u
  | fuel + 1, u =>
    if AHEAD_KEEP < u.ahead.size ∨ AHEAD_BYTES < u.aheadBytes then
      match u.ahead.last? with
      | none => u
      | some (r, a) =>
        trimHigh fuel { u with
          ahead := u.ahead.popLast
          aheadBytes := u.aheadBytes - a.frame.length
          droppedMax := max u.droppedMax r }
    else u

def insertAhead (u : Upstream) (round : UInt32) (a : Ahead) : Upstream :=
  let bytes := u.aheadBytes + a.frame.length
  let ahead := u.ahead.insert round a
  trimHigh ahead.size { u with
    ahead := ahead
    aheadBytes :=
      match u.ahead.get? round with
      | some old => bytes - old.frame.length
      | none => bytes }

def takeAhead (u : Upstream) (round : UInt32) : Option (Ahead × Upstream) :=
  match u.ahead.get? round with
  | none => none
  | some a =>
    some (a, { u with ahead := u.ahead.erase round, aheadBytes := u.aheadBytes - a.frame.length })

/-- The loop of `trim_ahead`: discard the blocks at or below `floor`. -/
def trimLow (floor : UInt32) : Nat → Upstream → Upstream
  | 0, u => u
  | fuel + 1, u =>
    match u.ahead.first? with
    | none => u
    | some (r, a) =>
      if r ≤ floor then
        trimLow floor fuel { u with
          ahead := u.ahead.popFirst, aheadBytes := u.aheadBytes - a.frame.length }
      else u

def trimAhead (u : Upstream) (floor : UInt32) : Upstream := trimLow floor u.ahead.size u

def medianLead (u : Upstream) : Option Int :=
  if u.leads.length < LEAD_MIN_SAMPLES then none
  else (u.leads.insertionSort (· ≤ ·))[u.leads.length / 2]?

def canContinue (u : Upstream) (from_ : UInt32) : Bool := decide (u.droppedMax ≤ from_)

/-- The loop of `chain_len` over the buffered blocks above `cur`. -/
def chainLoop : List (UInt32 × Ahead) → UInt32 → Nat → Option Nat → Nat × Option Nat
  | [], _, n, firstAt => (n, firstAt)
  | (r, a) :: rest, cur, n, firstAt =>
    if a.parent ≠ cur then (n, firstAt)
    else chainLoop rest r (n + 1) (if firstAt.isNone then some a.at_ else firstAt)

def chainLen (u : Upstream) (from_ : UInt32) : Nat × Option Nat :=
  if !u.canContinue from_ then (0, none)
  else chainLoop (u.ahead.rangeFrom (Word.satAdd from_ 1)) from_ 0 none

/-- The loop of `switch_to` that takes the chain out of the buffer. -/
def takeChain : Nat → UInt32 → Upstream → List (UInt32 × Ahead) × Upstream
  | 0, _, u => ([], u)
  | fuel + 1, cur, u =>
    match (u.ahead.rangeFrom (Word.satAdd cur 1)).head? with
    | none => ([], u)
    | some (r, a) =>
      if a.parent ≠ cur then ([], u)
      else
        match u.takeAhead r with
        | none => ([], u)
        | some (a, u) =>
          let (chain, u) := takeChain fuel r u
          ((r, a) :: chain, u)

end Upstream

/-! ## 2. The core -/

inductive StandbyVerdict where
  | ok
  | mismatch (round : UInt32)
deriving DecidableEq, Repr

structure Core where
  lastForwarded : UInt32
  forwarded : OrdMap UInt32 (UInt64 × Nat)
  active : Nat
  ups : KeyMap Nat Upstream
  lastSwitch : Option Nat
  stall : Nat
  lag : Nat
  minDwell : Nat

namespace Core

def new (active : Nat) (activeIp : String) (lastForwarded : UInt32) (stall lag minDwell : Nat) : Core where
  lastForwarded := lastForwarded
  forwarded := OrdMap.empty
  active := active
  ups := AList.singleton active { ip := activeIp }
  lastSwitch := none
  stall := stall
  lag := lag
  minDwell := minDwell

def addStandby (c : Core) (id : Nat) (ip : String) : Core :=
  { c with ups := c.ups.insert id { ip := ip } }

def markPreferred (c : Core) (id : Nat) : Core :=
  { c with ups := KeyMap.modify id (fun u => { u with preferred := true }) c.ups }

def remove (c : Core) (id : Nat) : Option String × Core :=
  ((c.ups.lookup id).map Upstream.ip, { c with ups := c.ups.erase id })

/-- `while forwarded.len() > FORWARDED_KEEP { forwarded.pop_first(); }` -/
def keepForwarded : Nat → OrdMap UInt32 (UInt64 × Nat) → OrdMap UInt32 (UInt64 × Nat)
  | 0, m => m
  | fuel + 1, m => if FORWARDED_KEEP < m.size then keepForwarded fuel m.popFirst else m

def recordForwarded (c : Core) (round : UInt32) (hash : UInt64) (at_ : Nat) : Core :=
  let forwarded := c.forwarded.insert round (hash, at_)
  { c with lastForwarded := round, forwarded := keepForwarded forwarded.size forwarded }

/-- The loop body of `settle_standbys` for a standby. -/
def settleOne (floor round : UInt32) (hash : UInt64) (at_ : Nat) (u : Upstream) : Upstream × Bool :=
  match u.takeAhead round with
  | some (a, u) =>
    let (u, bad) := u.compared (a.hash == hash) (asMillis (at_ - a.at_))
    (u.trimAhead floor, bad)
  | none => (u.trimAhead floor, false)

def settleStandbys (c : Core) (round : UInt32) (hash : UInt64) (at_ : Nat) :
    Core × List (Nat × UInt32) :=
  ({ c with
      ups := KeyMap.mapVals
        (fun id u =>
          if id = c.active then u else (settleOne c.lastForwarded round hash at_ u).1) c.ups },
    (KeyMap.toList c.ups).filterMap fun e =>
      if e.1 = c.active then none
      else if (settleOne c.lastForwarded round hash at_ e.2).2 then some (e.1, round) else none)

/-- A block from the active upstream: whether to forward it, and the standbys that
    turned out to disagree with it. -/
def onActiveBlock (c : Core) (round : UInt32) (hash : UInt64) (at_ : Nat) :
    Core × Bool × List (Nat × UInt32) :=
  let c := { c with ups := KeyMap.modify c.active (fun u => { u with lastRx := some at_ }) c.ups }
  if c.lastForwarded ≠ 0 ∧ round ≤ c.lastForwarded then (c, false, [])
  else
    let (c, bad) := (c.recordForwarded round hash at_).settleStandbys round hash at_
    (c, true, bad)

/-- The effect of a standby's block on that standby. -/
def standbyBlock (last : UInt32) (fwd : Option (UInt64 × Nat)) (round parent : UInt32)
    (hash : UInt64) (at_ : Nat) (frame : List UInt8) (u : Upstream) : Upstream × StandbyVerdict :=
  let u := { u with lastRx := some at_ }
  if round ≤ last then
    match fwd with
    | some (h, fat) =>
      let (u, bad) := u.compared (h == hash) (-(asMillis (at_ - fat)))
      (u, if bad then .mismatch round else .ok)
    | none => (u, .ok)
  else (u.insertAhead round ⟨parent, hash, at_, frame⟩, .ok)

def onStandbyBlock (c : Core) (id : Nat) (round parent : UInt32) (hash : UInt64) (at_ : Nat)
    (frame : List UInt8) : Core × StandbyVerdict :=
  match c.ups.lookup id with
  | none => (c, .ok)
  | some u =>
    let (u, verdict) :=
      standbyBlock c.lastForwarded (c.forwarded.get? round) round parent hash at_ frame u
    ({ c with ups := KeyMap.modify id (fun _ => u) c.ups }, verdict)

/-- `for (r, a) in chain` of `switch_to`: record and settle each replayed block. -/
def replay : List (UInt32 × Ahead) → Core → Core × List (Nat × UInt32)
  | [], c => (c, [])
  | (r, a) :: chain, c =>
    let (c, bad) := (c.recordForwarded r a.hash a.at_).settleStandbys r a.hash a.at_
    let (c, bads) := replay chain c
    (c, bad ++ bads)

def clearLeads (c : Core) : Core :=
  { c with ups := KeyMap.mapVals (fun _ u => { u with leads := [] }) c.ups }

/-- Make `id` the active upstream: the core afterwards, the frames to send the node
    and the standbys found disagreeing; `none` when `id` cannot continue the chain. -/
def switchTo (c : Core) (id now : Nat) : Option (Core × List (List UInt8) × List (Nat × UInt32)) :=
  match c.ups.lookup id with
  | none => none
  | some u =>
    if !u.canContinue c.lastForwarded then none
    else
      match u.takeChain u.ahead.size c.lastForwarded with
      | ([], _) => none
      | (chain, u) =>
        let (c, bad) := replay chain
          { c with ups := KeyMap.modify id (fun _ => u) c.ups, active := id, lastSwitch := some now }
        some (c.clearLeads, chain.map fun p => p.2.frame, bad)

/-! ## 3. Choosing a standby -/

/-- The running bests of `pick_switch`. -/
structure Picks where
  stallBest : Option (Nat × Int × Nat × Nat) := none
  lagBest : Option (Nat × Int) := none
  preferredBest : Option (Nat × Int) := none

def dwellOk (c : Core) (now : Nat) : Bool :=
  match c.lastSwitch with
  | none => true
  | some t => decide (c.minDwell ≤ now - t)

def activePreferred (c : Core) : Bool :=
  match c.ups.lookup c.active with
  | some u => u.preferred
  | none => false

/-- `(lead, n, Reverse(first_at)) > (bl, bn, Reverse(bat))` -/
def stallBetter (lead : Int) (n firstAt : Nat) : Option (Nat × Int × Nat × Nat) → Bool
  | none => true
  | some (_, bl, bn, bat) =>
    decide (bl < lead ∨ lead = bl ∧ (bn < n ∨ n = bn ∧ firstAt < bat))

/-- `best.is_none_or(|(_, b)| lead > b)` -/
def leadBetter (lead : Int) : Option (Nat × Int) → Bool
  | none => true
  | some (_, best) => decide (best < lead)

/-- The loop body of `pick_switch`. -/
def pickStep (c : Core) (now : Nat) (activeDead : Bool) (p : Picks) (e : Nat × Upstream) : Picks :=
  let (id, u) := e
  if id = c.active ∨ u.verified < MIN_VERIFIED then p
  else
    match u.chainLen c.lastForwarded with
    | (_, none) => p
    | (n, some firstAt) =>
      let lead := u.medianLead.getD I64_MIN
      let p :=
        if activeDead ∨ c.stall ≤ now - firstAt then
          if stallBetter lead n firstAt p.stallBest then
            { p with stallBest := some (id, lead, n, firstAt) }
          else p
        else p
      let p :=
        if c.dwellOk now ∧ u.preferred ∧ !c.activePreferred then
          if leadBetter lead p.preferredBest then { p with preferredBest := some (id, lead) } else p
        else p
      if c.dwellOk now ∧ (u.preferred ∨ !c.activePreferred) then
        match u.medianLead with
        | some m =>
          if asMillis c.lag ≤ m ∧ leadBetter m p.lagBest then { p with lagBest := some (id, m) } else p
        | none => p
      else p

def pickSwitch (c : Core) (now : Nat) (activeDead : Bool) : Option (Nat × SwitchReason) :=
  if c.lastForwarded = 0 then none
  else
    let p := (KeyMap.toList c.ups).foldl (c.pickStep now activeDead) {}
    match p.stallBest, p.preferredBest, p.lagBest with
    | some (id, _), _, _ => some (id, if activeDead then .activeDead else .stall)
    | none, some (id, _), _ => some (id, .preferred)
    | none, none, some (id, _) => some (id, .lag)
    | none, none, none => none

/-- The standby trailing the active the most, if by more than `slowerMs`; of equal
    ones the first in iteration order. -/
def slowestStandby (c : Core) (slowerMs : Int) (exempt : String → Bool) : Option (Nat × Int) :=
  ((KeyMap.toList c.ups).filterMap fun e =>
      if e.1 ≠ c.active ∧ !exempt e.2.ip then
        match e.2.medianLead with
        | some m => if m < -slowerMs then some (e.1, m) else none
        | none => none
      else none).foldl
    (fun best e =>
      match best with
      | none => some e
      | some b => if e.2 < b.2 then some e else some b) none

def ipOf (c : Core) (id : Nat) : Option String := (c.ups.lookup id).map Upstream.ip

def standbyCount (c : Core) : Nat := c.ups.keys.length - 1

end Core

end Hypersync.Failover
