import Hypersync.Failover.Session
import Hypersync.Lib.Machine

/-!
# The session among the tasks it runs with

The event loop of `serve_failover` does not run alone.  The blacklist is reloaded
at any time, and a dial task of `connect_standby` works through its candidates at
its own pace: for each it asks the blacklist, connects, and waits for the
greeting.  What a task reports waits in the event channel until the loop gets to
it.  A step of the machine is one event of one of these parties, so a run is an
arbitrary interleaving of them.
-/

namespace Hypersync.Failover

/-! ## 1. Dial tasks -/

/-- How far one attempt of a dial task is: `blacklist::connect` not entered yet, past
    its check, connected. -/
inductive Phase where
  | spawned
  | allowed
  | open_
deriving DecidableEq, Repr

structure Attempt where
  ip : String
  prio : Bool
  phase : Phase
deriving DecidableEq, Repr

/-- A dial task: the candidates of later batches, and the attempts of the current one. -/
structure Dial where
  waiting : List String
  racing : List Attempt
deriving DecidableEq, Repr

/-- What a dial task sends to the event loop. -/
inductive Notice where
  | connected (ip : String) (prio : Bool)
  | connectFailed
deriving DecidableEq, Repr

/-- `standby_slot`: `free` says whether a priority peer has a slot left. -/
def standbySlot (cfg : Config) (free : String → Bool) (ip : String) : Option Bool :=
  if cfg.priorityContains ip then (if free ip then some true else none) else some false

namespace Dial

/-- The next batch, once no attempt of the last one is left. -/
def launch (cfg : Config) (free : String → Bool) (d : Dial) : Option Dial :=
  if d.racing = [] ∧ d.waiting ≠ [] then
    some {
      waiting := d.waiting.drop STANDBY_RACE
      racing := (d.waiting.take STANDBY_RACE).filterMap fun ip =>
        (standbySlot cfg free ip).map fun prio => ⟨ip, prio, .spawned⟩ }
  else none

/-- The check of `blacklist::connect`: a listed address is not dialed. -/
def check (blacklist : Blacklist) (i : Nat) (d : Dial) : Option Dial :=
  match d.racing[i]? with
  | some ⟨ip, prio, .spawned⟩ =>
    some { d with
      racing :=
        if blacklist.contains (ip ++ ":4001") then d.racing.eraseIdx i
        else d.racing.set i ⟨ip, prio, .allowed⟩ }
  | _ => none

/-- `TcpStream::connect` succeeds. -/
def connect (i : Nat) (d : Dial) : Option Dial :=
  match d.racing[i]? with
  | some ⟨ip, prio, .allowed⟩ => some { d with racing := d.racing.set i ⟨ip, prio, .open_⟩ }
  | _ => none

/-- An attempt ends without a stream: refused, reset, timed out, another greeting. -/
def fail (i : Nat) (d : Dial) : Option Dial :=
  if i < d.racing.length then some { d with racing := d.racing.eraseIdx i } else none

/-- What the task reports when attempt `i` reads the accepting greeting: the others are
    aborted and the task is done. -/
def greeted (i : Nat) (d : Dial) : Option Notice :=
  match d.racing[i]? with
  | some ⟨ip, prio, .open_⟩ => some (.connected ip prio)
  | _ => none

/-- What the task reports when no candidate is left. -/
def exhausted (d : Dial) : Option Notice :=
  if d.racing = [] ∧ d.waiting = [] then some .connectFailed else none

end Dial

/-! ## 2. The machine -/

structure World where
  session : Session
  /-- The exit reason, once the loop was left. -/
  ended : Option String := none
  blacklist : Blacklist
  dials : List Dial := []
  inbox : List Notice := []

inductive World.Event where
  | frame (id : Nat) (frame : List UInt8) (block : Option (UInt32 × UInt32 × UInt64)) (at_ : Nat) (env : Env)
  | closed (id : Nat) (reason : String) (env : Env)
  | notice (env : Env)
  | nodeBytes (env : Env)
  | nodeClosed (reason : String)
  | writerJoined (reason : String)
  | tick (env : Env)
  | reload (ips : List Ipv4Addr)
  | dialLaunch (k : Nat) (free : String → Bool)
  | dialCheck (k i : Nat)
  | dialConnect (k i : Nat)
  | dialFail (k i : Nat)
  | dialGreeted (k i : Nat)
  | dialExhausted (k : Nat)

namespace World

/-- The loop goes on with `s`, or breaks; then the connections are dropped. -/
def proceed (w : World) : Except String Session → World
  | .ok s => { w with session := s }
  | .error reason => { w with session := { w.session with lives := ∅ }, ended := some reason }

/-- One iteration of the event loop. -/
def loopStep (cfg : Config) (w : World) : Event → Option World
  | .frame id frame block at_ env => some (w.proceed (w.session.onFrame env id frame block at_))
  | .closed id reason env => some (w.proceed (.ok (w.session.onClosed env id reason)))
  | .notice env =>
    match w.inbox with
    | [] => none
    | .connected ip prio :: inbox =>
      some ({ w with inbox := inbox }.proceed (.ok (w.session.onConnected cfg ip prio)))
    | .connectFailed :: inbox =>
      some ({ w with inbox := inbox }.proceed (.ok (w.session.onConnectFailed env)))
  | .nodeBytes env => some (w.proceed (.ok (w.session.onNodeBytes env)))
  | .nodeClosed reason => some (w.proceed (.error reason))
  | .writerJoined reason => some (w.proceed (.error reason))
  | .tick env =>
    match w.session.onTick cfg env w.blacklist with
    | .error reason => some (w.proceed (.error reason))
    | .ok (s, none) => some (w.proceed (.ok s))
    | .ok (s, some cands) => some { w.proceed (.ok s) with dials := w.dials ++ [⟨cands, []⟩] }
  | _ => none

/-- Dial task `k` moves on by `f`. -/
def dialStep (w : World) (k : Nat) (f : Dial → Option Dial) : Option World :=
  (w.dials[k]?.bind f).map fun d => { w with dials := w.dials.set k d }

/-- Dial task `k` reports and is gone. -/
def dialEnd (w : World) (k : Nat) (f : Dial → Option Notice) : Option World :=
  (w.dials[k]?.bind f).map fun n => { w with dials := w.dials.eraseIdx k, inbox := w.inbox ++ [n] }

/-- One event.  The loop takes none once it was left; the tasks and the blacklist are
    not bound to it. -/
def step (cfg : Config) (w : World) : Event → Option World
  | .reload ips => some { w with blacklist := w.blacklist.reload ips }
  | .dialLaunch k free => w.dialStep k (Dial.launch cfg free)
  | .dialCheck k i => w.dialStep k (Dial.check w.blacklist i)
  | .dialConnect k i => w.dialStep k (Dial.connect i)
  | .dialFail k i => w.dialStep k (Dial.fail i)
  | .dialGreeted k i => w.dialEnd k (Dial.greeted i)
  | .dialExhausted k => w.dialEnd k Dial.exhausted
  | e => if w.ended = none then w.loopStep cfg e else none

/-! ## 3. What a step can be -/

/-- **Inversion of a step.**  Either the event loop handled an event, or the list was
    reloaded, or a dial task moved, which touches neither session nor list. -/
theorem step_cases {cfg : Config} {w w' : World} {e : Event} (h : w.step cfg e = some w') :
    (w.ended = none ∧ w.loopStep cfg e = some w') ∨
    (∃ ips, e = .reload ips ∧ w' = { w with blacklist := w.blacklist.reload ips }) ∨
    (w'.session = w.session ∧ w'.blacklist = w.blacklist ∧ w'.ended = w.ended ∧
      ∀ env, e ≠ .notice env ∧ e ≠ .tick env) := by
  have hdial : ∀ {k : Nat} {f : Dial → Option Dial}, w.dialStep k f = some w' →
      w'.session = w.session ∧ w'.blacklist = w.blacklist ∧ w'.ended = w.ended := by
    intro k f h
    obtain ⟨d, -, rfl⟩ := Option.map_eq_some_iff.mp h
    exact ⟨rfl, rfl, rfl⟩
  have hend : ∀ {k : Nat} {f : Dial → Option Notice}, w.dialEnd k f = some w' →
      w'.session = w.session ∧ w'.blacklist = w.blacklist ∧ w'.ended = w.ended := by
    intro k f h
    obtain ⟨n, -, rfl⟩ := Option.map_eq_some_iff.mp h
    exact ⟨rfl, rfl, rfl⟩
  cases e with
  | reload ips => exact Or.inr (Or.inl ⟨ips, rfl, (Option.some.inj h).symm⟩)
  | dialLaunch | dialCheck | dialConnect | dialFail =>
    obtain ⟨hs, hb, he⟩ := hdial h
    exact Or.inr (Or.inr ⟨hs, hb, he, fun _ => ⟨nofun, nofun⟩⟩)
  | dialGreeted | dialExhausted =>
    obtain ⟨hs, hb, he⟩ := hend h
    exact Or.inr (Or.inr ⟨hs, hb, he, fun _ => ⟨nofun, nofun⟩⟩)
  | frame | closed | notice | nodeBytes | nodeClosed | writerJoined | tick =>
    simp only [step] at h
    by_cases hended : w.ended = none
    · rw [if_pos hended] at h
      exact Or.inl ⟨hended, h⟩
    · rw [if_neg hended] at h
      cases h

end World

end Hypersync.Failover
