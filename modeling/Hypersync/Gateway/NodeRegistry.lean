import Hypersync.Lib.Bag
import Hypersync.Lib.KeyMap
import Hypersync.Lib.Machine
import Mathlib.Data.List.Sort

/-!
# The registry of node states

`NodeRegistry` maps a node's address to its state, and hands out with the state a
guard that counts the connection as open.  A new address makes room first: nodes
without an open connection go when they were idle for too long, and the ones seen
longest ago go while the registry is full.

`get_or_insert` holds the registry's lock throughout, but guards are dropped outside
of it: a drop stamps the node and then takes the connection off its count, and either
may fall between two reads of a scan.  So a call for a new address is a sequence of
reads, two for each entry, and an insertion.  `calm` says that no drop has fallen
into the scan; the call is then atomic.

Addresses are of any ordered type; a state is named by a number, as an `Arc` is by its
pointer.
-/

namespace Hypersync.Gateway

/-! ## 1. Eviction -/

def NODE_STATE_CAP : Nat := 256

def NODE_STATE_TTL_SECS : Nat := 3600

section Eviction

variable {κ : Type} [LinearOrder κ]

/-- `a.1.cmp(&b.1).then_with(|| a.0.cmp(&b.0))` -/
def SeenLe (a b : κ × Nat) : Prop := a.2 < b.2 ∨ a.2 = b.2 ∧ a.1 ≤ b.1

instance decidableSeenLe (a b : κ × Nat) : Decidable (SeenLe a b) := inferInstanceAs (Decidable (_ ∨ _))

/-- The entries without an open connection that were idle for longer than `ttl`. -/
def staleKeys (entries : List (κ × Nat × Bool)) (now ttl : Nat) : List κ :=
  (entries.filter fun e => !e.2.2 && decide (ttl < now - e.2.1)).map Prod.fst

def evictable (entries : List (κ × Nat × Bool)) (now ttl : Nat) : List (κ × Nat) :=
  (entries.filter fun e => !e.2.2 && decide (now - e.2.1 ≤ ttl)).map fun e => (e.1, e.2.1)

def nodeStateEvictKeys (entries : List (κ × Nat × Bool)) (now cap ttl : Nat) : List κ :=
  let evict := staleKeys entries now ttl
  let evictable := evictable entries now ttl
  let kept := entries.length - evict.length
  if cap < kept + 1 then
    let excess := min (kept + 1 - cap) evictable.length
    evict ++ ((evictable.insertionSort SeenLe).take excess).map Prod.fst
  else evict

end Eviction

/-! ## 2. The registry -/

structure NodeState (κ : Type) where
  ip : κ
  lastSeenSecs : Nat
  openConns : Nat
deriving DecidableEq

/-- A live `NodeConnGuard`; `stamped` once its drop has begun. -/
structure NodeConnGuard where
  node : Nat
  stamped : Bool
deriving DecidableEq

/-- An entry as a scan reads it. -/
structure Reading (κ : Type) where
  ip : κ
  node : Nat
  seen : Nat
  held : Bool

def Reading.entry {κ : Type} (x : Reading κ) : κ × Nat × Bool := (x.ip, x.seen, x.held)

/-- A call for a new address, under way. -/
structure Scan (κ : Type) where
  ip : κ
  now : Nat
  read : List (Reading κ)
  -- `last_seen` of the next entry, once it is read
  seen : Option Nat
  todo : List (κ × Nat)
  calm : Bool

structure NodeRegistry (κ : Type) where
  nodes : KeyMap κ Nat := ∅
  states : KeyMap Nat (NodeState κ) := ∅
  nextNode : Nat := 0
  guards : List NodeConnGuard := []
  scan : Option (Scan κ) := none

/-- `order` is the iteration order of the map. -/
inductive RegistryEvent (κ : Type) where
  | getOrInsert (ip : κ) (now : Nat) (order : List (κ × Nat))
  | read
  | insert
  | stamp (g : NodeConnGuard) (now : Nat)
  | release (g : NodeConnGuard)

namespace NodeRegistry

variable {κ : Type} [LinearOrder κ]

def lastSeen (r : NodeRegistry κ) (id : Nat) : Nat := ((r.states.lookup id).map NodeState.lastSeenSecs).getD 0

def held (r : NodeRegistry κ) (id : Nat) : Bool := decide (0 < ((r.states.lookup id).map NodeState.openConns).getD 0)

/-- A known address: the call is done at once. -/
def reuse (r : NodeRegistry κ) (id now : Nat) : NodeRegistry κ :=
  { r with
    states := KeyMap.modify id (fun st => { st with lastSeenSecs := now, openConns := st.openConns + 1 }) r.states
    guards := ⟨id, false⟩ :: r.guards }

/-- The next read of a scan. -/
def readNext (r : NodeRegistry κ) (sc : Scan κ) : Option (Scan κ) :=
  match sc.todo, sc.seen with
  | [], _ => none
  | (_, id) :: _, none => some { sc with seen := some (r.lastSeen id) }
  | (ip, id) :: todo, some seen =>
    some { sc with read := sc.read ++ [⟨ip, id, seen, r.held id⟩], seen := none, todo := todo }

def evictions (sc : Scan κ) : List κ :=
  nodeStateEvictKeys (sc.read.map Reading.entry) sc.now NODE_STATE_CAP NODE_STATE_TTL_SECS

/-- The end of a call for a new address. -/
def insertNew (r : NodeRegistry κ) (sc : Scan κ) : NodeRegistry κ where
  nodes := (KeyMap.eraseAll (evictions sc) r.nodes).insert sc.ip r.nextNode
  states := r.states.insert r.nextNode ⟨sc.ip, sc.now, 1⟩
  nextNode := r.nextNode + 1
  guards := ⟨r.nextNode, false⟩ :: r.guards
  scan := none

/-- A drop falls into a scan that is under way. -/
def disturb (r : NodeRegistry κ) : Option (Scan κ) := r.scan.map fun sc => { sc with calm := false }

def step (r : NodeRegistry κ) : RegistryEvent κ → Option (NodeRegistry κ)
  | .getOrInsert ip now order =>
    match r.scan, r.nodes.lookup ip with
    | some _, _ => none
    | none, some id => some (r.reuse id now)
    | none, none =>
      if order.Perm (KeyMap.toList r.nodes) then some { r with scan := some ⟨ip, now, [], none, order, true⟩ } else none
  | .read =>
    match r.scan with
    | some sc => (r.readNext sc).map fun sc => { r with scan := some sc }
    | none => none
  | .insert =>
    match r.scan with
    | some sc => if sc.todo = [] then some (r.insertNew sc) else none
    | none => none
  | .stamp g now =>
    if g ∈ r.guards ∧ g.stamped = false then
      some { r with
        states := KeyMap.modify g.node (fun st => { st with lastSeenSecs := now }) r.states
        guards := Bag.replace r.guards g { g with stamped := true }
        scan := r.disturb }
    else none
  | .release g =>
    if g ∈ r.guards ∧ g.stamped = true then
      some { r with
        states := KeyMap.modify g.node (fun st => { st with openConns := st.openConns - 1 }) r.states
        guards := r.guards.erase g
        scan := r.disturb }
    else none

/-- Some connection of the node is open. -/
def IsOpen (r : NodeRegistry κ) (id : Nat) : Prop := ∃ g ∈ r.guards, g.node = id

end NodeRegistry

end Hypersync.Gateway
