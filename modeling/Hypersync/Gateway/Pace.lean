import Hypersync.Gateway.BootstrapSweep
import Hypersync.Gateway.Faults
import Hypersync.Gateway.Watchdogs
import Hypersync.Push.Freshest
import Hypersync.Push.Guards
import Mathlib.Data.Finset.Basic
import Mathlib.Data.List.Perm.Basic

/-!
# Pace references

Some live streams are read only to know how far the network is: each follows a peer of
the pool and offers its rounds to `FreshestRound`, which counts what two peers agree on.
`run_pace_reference` claims a peer, follows it until `follow_pace` gives up, releases it
and goes on to the next.

The references share the set of claimed peers and a cooldown of their own.  A peer that
stalled or misbehaved is avoided for a minute; one that only lagged is not, since the
round it lagged may itself be wrong.

Time does not pass the deadline of a read that is awaited: its timer ends it there.
-/

namespace Hypersync.Gateway

open Protocol Push

/-! ## 1. Following one peer -/

def PACE_IDLE : Nat := 10000000000

def PACE_RETRY : Nat := 2000000000

def PACE_COOLDOWN : Nat := 60000000000

def PACE_FIRST_BLOCK : Nat := 30000000000

def PACE_REFERENCES : Nat := 2

/-- The sleep when no peer is free. -/
def PACE_NO_PEER : Nat := 10000000000

/-- Why `follow_pace` returned. -/
inductive PaceCause where
  | connect (e : VetError)
  | noRound
  | stalled (lastRound : UInt32)
  | read (e : VetError)
  | implausibleRound (round : UInt32)
  | jump (round prev : UInt32)
  | lags (behind : UInt32)
deriving DecidableEq

/-- `PaceEnd::reason` -/
def PaceCause.reason : PaceCause → String
  | .connect e => s!"connect: {e.text}"
  | .noRound => "no block round within 30s"
  | .stalled lastRound => s!"no block above round {lastRound}"
  | .read e => s!"read: {e.text}"
  | .implausibleRound round => s!"implausible round {round}"
  | .jump round prev => (Cause.jump round prev).text
  | .lags behind => s!"lags the freshest stream by {behind} rounds"

/-- `PaceEnd::cool` -/
def PaceCause.cool : PaceCause → Bool
  | .lags _ => false
  | _ => true

/-- The locals of `follow_pace`; `turn` is the `now` of the loop's current turn.  The header of a
    frame and its payload are awaited for `PACE_IDLE` each, now until `due`. -/
structure Following where
  ip : String
  feed : Nat
  started : Nat
  turn : Nat
  headed : Bool
  due : Nat
  progress : BlockProgress
deriving DecidableEq

/-- An operation on the table of streams. -/
def tell (g : Gauge) (e : Gauge.Event) : Gauge := (g.step e).getD g

namespace Following

/-- The top of the loop. -/
def nextTurn (f : Following) (progress : BlockProgress) (now : Nat) : Except PaceCause Following :=
  if progress.lastRound = 0 ∧ PACE_FIRST_BLOCK < now - f.started then .error .noRound
  else if progress.stalled now then .error (.stalled progress.lastRound)
  else .ok { f with turn := now, headed := false, due := now + PACE_IDLE, progress := progress }

/-- The header is there. -/
def onHeader (f : Following) (now : Nat) : Following := { f with headed := true, due := now + PACE_IDLE }

variable (lz4 : Lz4.Decoder)

/-- The round of a frame, if it is a block. -/
def roundIn (frame : List UInt8) : Option UInt32 := if frame.length ≤ 5 then none else Push.roundOf lz4 frame

/-- The rest of the loop's body, up to its next turn.  The gates are timed by the turn the frame
    was awaited in, the table by the instant of the call. -/
def onRead (g : Gauge) (f : Following) (result : Except VetError (List UInt8)) (now : Nat) :
    Gauge × Except PaceCause Following :=
  match result with
  | .error e => (g, .error (.read e))
  | .ok frame =>
    match roundIn lz4 frame with
    | none => (g, f.nextTurn f.progress now)
    | some round =>
      if !isPlausibleMainnetRound round g.freshest.netTip then (g, .error (.implausibleRound round))
      else
        match f.progress.onRound round f.turn with
        | none => (g, .error (.jump round f.progress.lastRound))
        | some progress =>
          let g := tell g (.offer f.feed round now)
          let judged := progress.lagging (g.freshest.get now) g.freshest.lagRounds g.freshest.grace false f.turn
          match judged.2 with
          | some behind => (g, .error (.lags behind))
          | none => (g, f.nextTurn judged.1 now)

end Following

/-! ## 2. The references -/

inductive PacePc where
  | picking
  | sleeping (wake : Nat)
  | dialing (ip : String)
  | following (f : Following)
  -- `follow_pace` has returned
  | ended (ip : String) (cause : PaceCause)
  -- out of `in_use`, not yet in `cooled`: another reference may claim the peer here
  | released (ip : String) (cause : PaceCause)
deriving DecidableEq

structure PaceRef where
  next : Nat
  pc : PacePc
deriving DecidableEq

namespace PaceRef

/-- The peer the reference has claimed. -/
def held (r : PaceRef) : Option String :=
  match r.pc with
  | .dialing ip => some ip
  | .following f => some f.ip
  | .ended ip _ => some ip
  | _ => none

def feed (r : PaceRef) : Option Nat :=
  match r.pc with
  | .following f => some f.feed
  | _ => none

/-- When the read it awaits is given up. -/
def due (r : PaceRef) : Option Nat :=
  match r.pc with
  | .following f => some f.due
  | _ => none

end PaceRef

inductive PaceNote where
  | claim (ip : String) (at_ : Nat)
  | cool (ip : String) (cause : PaceCause) (at_ : Nat)

/-- `log` records, for statements only, the claims and the cooldowns, the latest first. -/
structure Pace where
  clock : Nat
  pool : List String
  gauge : Gauge
  inUse : Finset String := ∅
  cooled : PeerCooldown := ∅
  refs : List PaceRef
  log : List PaceNote := []

inductive PaceEvent where
  | tick (d : Nat)
  | pool (peers : List String)
  -- other streams of the gateway, and the network tip
  | gauge (e : Gauge.Event)
  | wake (i : Nat)
  -- with the instant that was read before the locks
  | pick (i seen : Nat)
  | greeted (i : Nat) (io : VetIo) (input : List UInt8)
  | header (i : Nat)
  | read (i : Nat) (result : Except VetError (List UInt8))
  | release (i : Nat)
  | settle (i : Nat)

/-- The operation is made with one of these handles. -/
def usesHandle (ids : List Nat) : Gauge.Event → Bool
  | .offer id _ _ => decide (id ∈ ids)
  | .drop id => decide (id ∈ ids)
  | _ => false

namespace Pace

def start (count : Nat) (clock : Nat) (pool : List String) (gauge : Gauge) : Pace where
  clock := clock
  pool := pool
  gauge := gauge
  refs := (List.range count).map fun i => ⟨i, .picking⟩

/-- Who may be claimed: of the pool, neither claimed nor cooling down. -/
def free (s : Pace) (cooled : PeerCooldown) : List String :=
  s.pool.filter fun ip => !decide (ip ∈ s.inUse) && (cooled.lookup ip).isNone

/-- The pick, under both locks. -/
def pick (s : Pace) (i next seen : Nat) : Pace :=
  let cooled := s.cooled.prune seen
  let peers := s.free cooled
  match peers[next % peers.length]? with
  | none => { s with cooled := cooled, refs := s.refs.set i ⟨next, .sleeping (s.clock + PACE_NO_PEER)⟩ }
  | some ip => { s with
      cooled := cooled
      inUse := insert ip s.inUse
      refs := s.refs.set i ⟨usizeAdd next 1, .dialing ip⟩
      log := .claim ip s.clock :: s.log }

/-- The loop goes on, or ends with the handle dropped. -/
def followed (s : Pace) (i next : Nat) (ip : String) (feed : Nat) (out : Gauge × Except PaceCause Following) : Pace :=
  match out.2 with
  | .ok f => { s with gauge := out.1, refs := s.refs.set i ⟨next, .following f⟩ }
  | .error cause => { s with gauge := tell out.1 (.drop feed), refs := s.refs.set i ⟨next, .ended ip cause⟩ }

/-- The locals of a loop that begins. -/
def beginning (s : Pace) (ip : String) : Following where
  ip := ip
  feed := s.gauge.freshest.nextId
  started := s.clock
  turn := s.clock
  headed := false
  due := s.clock + PACE_IDLE
  progress := BlockProgress.new 0 s.clock

def greeted (s : Pace) (i next : Nat) (ip : String) (io : VetIo) (input : List UInt8) : Pace :=
  match connectAndGreet4001 io GREET_FALSE input with
  | .error e => { s with refs := s.refs.set i ⟨next, .ended ip (.connect e)⟩ }
  | .ok _ =>
    let f := s.beginning ip
    s.followed i next ip f.feed (tell s.gauge (.feed ip), f.nextTurn f.progress s.clock)

def settle (s : Pace) (i next : Nat) (ip : String) (cause : PaceCause) : Pace :=
  let s := { s with refs := s.refs.set i ⟨next, .sleeping (s.clock + PACE_RETRY)⟩ }
  if cause.cool then
    { s with cooled := s.cooled.insert ip (s.clock + PACE_COOLDOWN), log := .cool ip cause s.clock :: s.log }
  else s

def step (lz4 : Lz4.Decoder) (s : Pace) : PaceEvent → Option Pace
  | .tick d =>
    if ∀ limit ∈ s.refs.filterMap PaceRef.due, s.clock + d ≤ limit then some { s with clock := s.clock + d } else none
  | .pool peers => some { s with pool := peers }
  | .gauge e =>
    if usesHandle (s.refs.filterMap PaceRef.feed) e then none else some { s with gauge := tell s.gauge e }
  | .wake i =>
    match s.refs[i]? with
    | some ⟨next, .sleeping limit⟩ =>
      if limit ≤ s.clock then some { s with refs := s.refs.set i ⟨next, .picking⟩ } else none
    | _ => none
  | .pick i seen =>
    match s.refs[i]? with
    | some ⟨next, .picking⟩ => if seen ≤ s.clock then some (s.pick i next seen) else none
    | _ => none
  | .greeted i io input =>
    match s.refs[i]? with
    | some ⟨next, .dialing ip⟩ => some (s.greeted i next ip io input)
    | _ => none
  | .header i =>
    match s.refs[i]? with
    | some ⟨next, .following f⟩ =>
      if f.headed then none else some { s with refs := s.refs.set i ⟨next, .following (f.onHeader s.clock)⟩ }
    | _ => none
  | .read i result =>
    match s.refs[i]? with
    | some ⟨next, .following f⟩ =>
      -- a read may fail at any time
      if result.isOk && !f.headed then none
      else some (s.followed i next f.ip f.feed (f.onRead lz4 s.gauge result s.clock))
    | _ => none
  | .release i =>
    match s.refs[i]? with
    | some ⟨next, .ended ip cause⟩ =>
      some { s with inUse := s.inUse.erase ip, refs := s.refs.set i ⟨next, .released ip cause⟩ }
    | _ => none
  | .settle i =>
    match s.refs[i]? with
    | some ⟨next, .released ip cause⟩ => some (s.settle i next ip cause)
    | _ => none

/-! ## 3. What a step does -/

variable {lz4 : Lz4.Decoder} {s t : Pace} {e : PaceEvent}

inductive Stepped (lz4 : Lz4.Decoder) (s : Pace) : PaceEvent → Pace → Prop
  | tick (d : Nat) (hdue : ∀ limit ∈ s.refs.filterMap PaceRef.due, s.clock + d ≤ limit) :
      Stepped lz4 s (.tick d) { s with clock := s.clock + d }
  | pool (peers : List String) : Stepped lz4 s (.pool peers) { s with pool := peers }
  | gauge (e : Gauge.Event) (hother : usesHandle (s.refs.filterMap PaceRef.feed) e = false) :
      Stepped lz4 s (.gauge e) { s with gauge := tell s.gauge e }
  | wake (i next limit : Nat) (hi : s.refs[i]? = some ⟨next, .sleeping limit⟩) :
      Stepped lz4 s (.wake i) { s with refs := s.refs.set i ⟨next, .picking⟩ }
  | pick (i next seen : Nat) (hi : s.refs[i]? = some ⟨next, .picking⟩) (hseen : seen ≤ s.clock) :
      Stepped lz4 s (.pick i seen) (s.pick i next seen)
  | greeted (i next : Nat) (ip : String) (io : VetIo) (input : List UInt8)
      (hi : s.refs[i]? = some ⟨next, .dialing ip⟩) : Stepped lz4 s (.greeted i io input) (s.greeted i next ip io input)
  | header (i next : Nat) (f : Following) (hi : s.refs[i]? = some ⟨next, .following f⟩) (hheaded : f.headed = false) :
      Stepped lz4 s (.header i) { s with refs := s.refs.set i ⟨next, .following (f.onHeader s.clock)⟩ }
  | read (i next : Nat) (f : Following) (result : Except VetError (List UInt8))
      (hi : s.refs[i]? = some ⟨next, .following f⟩) :
      Stepped lz4 s (.read i result) (s.followed i next f.ip f.feed (f.onRead lz4 s.gauge result s.clock))
  | release (i next : Nat) (ip : String) (cause : PaceCause) (hi : s.refs[i]? = some ⟨next, .ended ip cause⟩) :
      Stepped lz4 s (.release i)
        { s with inUse := s.inUse.erase ip, refs := s.refs.set i ⟨next, .released ip cause⟩ }
  | settle (i next : Nat) (ip : String) (cause : PaceCause) (hi : s.refs[i]? = some ⟨next, .released ip cause⟩) :
      Stepped lz4 s (.settle i) (s.settle i next ip cause)

theorem step_eq_some (h : step lz4 s e = some t) : Stepped lz4 s e t := by
  cases e with
  | tick d =>
    obtain ⟨hdue, ⟨⟩⟩ := Option.ite_none_right_eq_some.mp h
    exact .tick d hdue
  | pool peers => exact Option.some.inj h ▸ .pool peers
  | gauge e =>
    obtain ⟨hother, ⟨⟩⟩ := Option.ite_none_left_eq_some.mp h
    exact .gauge e (Bool.not_eq_true _ ▸ hother)
  | wake i =>
    simp only [step] at h
    split at h
    · rename_i next limit hi
      obtain ⟨-, ⟨⟩⟩ := Option.ite_none_right_eq_some.mp h
      exact .wake i next limit hi
    · cases h
  | pick i seen =>
    simp only [step] at h
    split at h
    · rename_i next hi
      obtain ⟨hseen, ⟨⟩⟩ := Option.ite_none_right_eq_some.mp h
      exact .pick i next seen hi hseen
    · cases h
  | greeted i io input =>
    simp only [step] at h
    split at h
    · rename_i next ip hi
      exact Option.some.inj h ▸ .greeted i next ip io input hi
    · cases h
  | header i =>
    simp only [step] at h
    split at h
    · rename_i next f hi
      obtain ⟨hheaded, ⟨⟩⟩ := Option.ite_none_left_eq_some.mp h
      exact .header i next f hi (Bool.eq_false_iff.mpr hheaded)
    · cases h
  | read i result =>
    simp only [step] at h
    split at h
    · rename_i next f hi
      obtain ⟨-, ⟨⟩⟩ := Option.ite_none_left_eq_some.mp h
      exact .read i next f result hi
    · cases h
  | release i =>
    simp only [step] at h
    split at h
    · rename_i next ip cause hi
      exact Option.some.inj h ▸ .release i next ip cause hi
    · cases h
  | settle i =>
    simp only [step] at h
    split at h
    · rename_i next ip cause hi
      exact Option.some.inj h ▸ .settle i next ip cause hi
    · cases h

end Pace

/-! ## 4. The loop and its handle -/

namespace Following

/-- The stream showed a round in time, and its rounds keep rising. -/
structure Paced (f : Following) : Prop where
  first : f.progress.lastRound = 0 → f.turn - f.started ≤ PACE_FIRST_BLOCK
  rising : f.progress.lastRound ≠ 0 → f.turn - f.progress.at_ ≤ ACTIVE_BLOCK_STALL

/-- How long after its turn began the reference waits at most. -/
def wait (f : Following) : Nat := if f.headed then 2 * PACE_IDLE else PACE_IDLE

structure Waits (f : Following) (clock : Nat) : Prop where
  early : clock ≤ f.due
  due_le : f.due ≤ f.turn + f.wait

/-- A turn later: the same peer, over the same handle. -/
structure GoesOn (f f' : Following) (now : Nat) : Prop where
  ip : f'.ip = f.ip
  feed : f'.feed = f.feed
  paced : f'.Paced
  waits : f'.Waits now

variable {lz4 : Lz4.Decoder} {f f' : Following} {g : Gauge} {now : Nat}
  {result : Except VetError (List UInt8)}

theorem Waits.onHeader (h : f.Waits now) (hheaded : f.headed = false) : (f.onHeader now).Waits now := by
  have hle := Nat.le_trans h.early h.due_le
  rw [wait, hheaded, if_neg Bool.false_ne_true] at hle
  refine ⟨Nat.le_add_right _ _, ?_⟩
  rw [wait, Following.onHeader, if_pos rfl, Nat.two_mul, ← Nat.add_assoc]
  exact Nat.add_le_add_right hle PACE_IDLE

theorem Waits.clock_le (h : f.Waits now) : now ≤ f.turn + 2 * PACE_IDLE := by
  have hle := Nat.le_trans h.early h.due_le
  unfold wait at hle
  split at hle <;> omega

theorem goesOn_nextTurn {progress : BlockProgress} (h : f.nextTurn progress now = .ok f') : f.GoesOn f' now := by
  unfold nextTurn at h
  split at h
  · cases h
  rename_i hfirst
  split at h
  · cases h
  rename_i hstalled
  cases h
  refine ⟨rfl, rfl, ⟨fun hzero => ?_, fun hround => ?_⟩, ⟨Nat.le_add_right _ _, Nat.le_refl _⟩⟩
  · by_contra hlate
    exact hfirst ⟨hzero, Nat.not_le.mp hlate⟩
  · by_contra hlate
    apply hstalled
    simp only [BlockProgress.stalled, decide_eq_true_eq]
    exact ⟨hround, Nat.not_le.mp hlate⟩

theorem goesOn_onRead (h : (f.onRead lz4 g result now).2 = .ok f') : f.GoesOn f' now := by
  unfold onRead at h
  split at h
  · cases h
  split at h
  · exact goesOn_nextTurn h
  split at h
  · cases h
  split at h
  · cases h
  simp only at h
  split at h
  · cases h
  · exact goesOn_nextTurn h

/-- All a turn does to the table is one offer. -/
theorem gauge_onRead (lz4 : Lz4.Decoder) (g : Gauge) (f : Following)
    (result : Except VetError (List UInt8)) (now : Nat) :
    (f.onRead lz4 g result now).1 = g ∨ ∃ round, (f.onRead lz4 g result now).1 = tell g (.offer f.feed round now) := by
  unfold onRead
  split
  · exact Or.inl rfl
  split
  · exact Or.inl rfl
  rename_i round _
  split
  · exact Or.inl rfl
  split
  · exact Or.inl rfl
  refine Or.inr ⟨round, ?_⟩
  simp only
  split <;> rfl

end Following

section Handles

variable {g : Gauge} {id : Nat} {peer : String} {e : Gauge.Event}

/-- The handle `id` is in use, for a stream of `peer`. -/
def Handle (g : Gauge) (id : Nat) (peer : String) : Prop := ∃ feed, g.feeds.lookup id = some feed ∧ feed.peer = peer

theorem inv_tell (h : g.Inv) (e : Gauge.Event) : (tell g e).Inv := by
  unfold tell
  cases hs : g.step e with
  | none => exact h
  | some g' => exact h.step hs

theorem Handle.peer_eq {peer' : String} (h : Handle g id peer) (h' : Handle g id peer') : peer = peer' := by
  obtain ⟨feed, hfeed, rfl⟩ := h
  obtain ⟨feed', hfeed', rfl⟩ := h'
  rw [Option.some.inj (hfeed.symm.trans hfeed')]

theorem Handle.lt_nextId (h : Handle g id peer) (hinv : g.Inv) : id < g.freshest.nextId := by
  obtain ⟨feed, hfeed, -⟩ := h
  exact hinv.below id feed hfeed

theorem handle_feed (g : Gauge) (peer : String) : Handle (tell g (.feed peer)) g.freshest.nextId peer :=
  ⟨_, AList.lookup_insert _, rfl⟩

/-- Only its own drop ends a handle. -/
theorem Handle.tell (h : Handle g id peer) (hinv : g.Inv) (hkeep : e ≠ .drop id) : Handle (tell g e) id peer := by
  have hlt := h.lt_nextId hinv
  obtain ⟨feed, hfeed, rfl⟩ := h
  cases e with
  | feed peer => exact ⟨feed, (AList.lookup_insert_ne (Nat.ne_of_lt hlt)).trans hfeed, rfl⟩
  | offer j round now =>
    simp only [Gateway.tell, Gauge.step]
    split
    · exact ⟨feed, hfeed, rfl⟩
    · by_cases hj : id = j
      · subst hj
        refine ⟨{ feed with own := max feed.own round }, ?_, rfl⟩
        simp only [Option.getD_some, KeyMap.lookup_modify_self, hfeed, Option.map_some]
      · exact ⟨feed, (KeyMap.lookup_modify_ne hj _ _).trans hfeed, rfl⟩
  | drop j =>
    have hne : id ≠ j := fun hj => hkeep (hj ▸ rfl)
    simp only [Gateway.tell, Gauge.step]
    split
    · exact ⟨feed, (AList.lookup_erase_ne hne).trans hfeed, rfl⟩
    · exact ⟨feed, hfeed, rfl⟩
  | setTip tip => exact ⟨feed, hfeed, rfl⟩

variable (lz4 : Lz4.Decoder) (f : Following) (result : Except VetError (List UInt8)) (now : Nat)

theorem inv_onRead (hinv : g.Inv) : (f.onRead lz4 g result now).1.Inv := by
  rcases Following.gauge_onRead lz4 g f result now with heq | ⟨round, heq⟩
  · rwa [heq]
  · rw [heq]
    exact inv_tell hinv _

theorem Handle.onRead (h : Handle g id peer) (hinv : g.Inv) : Handle (f.onRead lz4 g result now).1 id peer := by
  rcases Following.gauge_onRead lz4 g f result now with heq | ⟨round, heq⟩
  · rwa [heq]
  · rw [heq]
    exact h.tell hinv fun heq => by cases heq

end Handles

/-! ## 5. Claims -/

namespace Pace

variable {lz4 : Lz4.Decoder} {s t : Pace} {e : PaceEvent} {i next : Nat} {r r' : PaceRef}
  {ip : String}

/-- No peer is claimed twice, and `in_use` is the set of the claimed ones. -/
structure Claimed (s : Pace) : Prop where
  nodup : (s.refs.filterMap PaceRef.held).Nodup
  inUse : ∀ ip, ip ∈ s.inUse ↔ ip ∈ s.refs.filterMap PaceRef.held

/-- What the other references hold. -/
def others (s : Pace) (i : Nat) : List String := (s.refs.eraseIdx i).filterMap PaceRef.held

theorem held_perm (hi : s.refs[i]? = some r) :
    (s.refs.filterMap PaceRef.held).Perm (r.held.toList ++ s.others i) := Indexed.filterMap_perm _ hi

theorem held_set_perm (hi : s.refs[i]? = some r) (hrefs : t.refs = s.refs.set i r') :
    (t.refs.filterMap PaceRef.held).Perm (r'.held.toList ++ s.others i) := by
  have hlt := (List.getElem?_eq_some_iff.mp hi).1
  have hget : t.refs[i]? = some r' := by rw [hrefs, List.getElem?_set_self hlt]
  have hothers : t.others i = s.others i := by rw [others, hrefs, List.eraseIdx_set_eq, others]
  exact hothers ▸ held_perm hget

theorem Claimed.keep (h : s.Claimed) (hi : s.refs[i]? = some r) (hrefs : t.refs = s.refs.set i r')
    (hinUse : t.inUse = s.inUse) (hheld : r'.held = r.held) : t.Claimed := by
  have hperm : (t.refs.filterMap PaceRef.held).Perm (s.refs.filterMap PaceRef.held) :=
    (held_set_perm hi hrefs).trans (hheld ▸ (held_perm hi).symm)
  constructor
  · exact hperm.nodup_iff.mpr h.nodup
  · intro ip
    rw [hinUse, h.inUse ip, hperm.mem_iff]

theorem Claimed.claim (h : s.Claimed) (hi : s.refs[i]? = some r) (hrefs : t.refs = s.refs.set i r')
    (hinUse : t.inUse = insert ip s.inUse) (hip : ip ∉ s.inUse) (hheld : r.held = none) (hnew : r'.held = some ip) :
    t.Claimed := by
  have hold : (s.refs.filterMap PaceRef.held).Perm (s.others i) := by simpa [hheld] using held_perm hi
  have hperm : (t.refs.filterMap PaceRef.held).Perm (ip :: s.others i) := by simpa [hnew] using held_set_perm hi hrefs
  constructor
  · rw [hperm.nodup_iff, List.nodup_cons, ← hold.mem_iff, ← h.inUse]
    exact ⟨hip, hold.nodup_iff.mp h.nodup⟩
  · intro ip'
    rw [hinUse, Finset.mem_insert, h.inUse, hperm.mem_iff, List.mem_cons, hold.mem_iff]

theorem Claimed.nodup_others (h : s.Claimed) (hi : s.refs[i]? = some r) (hheld : r.held = some ip) :
    (ip :: s.others i).Nodup := by
  have hold : (s.refs.filterMap PaceRef.held).Perm (ip :: s.others i) := by simpa [hheld] using held_perm hi
  exact hold.nodup_iff.mp h.nodup

theorem Claimed.release (h : s.Claimed) (hi : s.refs[i]? = some r) (hrefs : t.refs = s.refs.set i r')
    (hinUse : t.inUse = s.inUse.erase ip) (hheld : r.held = some ip) (hnew : r'.held = none) : t.Claimed := by
  have hold : (s.refs.filterMap PaceRef.held).Perm (ip :: s.others i) := by simpa [hheld] using held_perm hi
  have hperm : (t.refs.filterMap PaceRef.held).Perm (s.others i) := by simpa [hnew] using held_set_perm hi hrefs
  obtain ⟨hnotMem, hnodup⟩ := List.nodup_cons.mp (h.nodup_others hi hheld)
  constructor
  · exact hperm.nodup_iff.mpr hnodup
  · intro ip'
    rw [hinUse, Finset.mem_erase, h.inUse, hperm.mem_iff, hold.mem_iff, List.mem_cons]
    constructor
    · rintro ⟨hne, heq | hmem⟩
      · exact absurd heq hne
      · exact hmem
    · exact fun hmem => ⟨fun heq => hnotMem (heq ▸ hmem), Or.inr hmem⟩

/-- Two references are never on one peer. -/
theorem Claimed.index_eq (h : s.Claimed) {j : Nat} (hi : s.refs[i]? = some r) (hj : s.refs[j]? = some r')
    (hheld : r.held = some ip) (hheld' : r'.held = some ip) : i = j := by
  by_contra hne
  have hmem : r' ∈ s.refs.eraseIdx i := List.mem_eraseIdx_iff_getElem?.mpr ⟨j, fun heq => hne heq.symm, hj⟩
  exact (List.nodup_cons.mp (h.nodup_others hi hheld)).1 (List.mem_filterMap.mpr ⟨r', hmem, hheld'⟩)

theorem Claimed.followed (h : s.Claimed) {feed : Nat} {out : Gauge × Except PaceCause Following}
    (hi : s.refs[i]? = some r) (hheld : r.held = some ip) (hout : ∀ f, out.2 = .ok f → f.ip = ip) :
    (s.followed i next ip feed out).Claimed := by
  unfold Pace.followed
  split
  · rename_i f hf
    refine h.keep hi rfl rfl ?_
    rw [hheld, ← hout f hf]
    rfl
  · exact h.keep hi rfl rfl hheld.symm

theorem notMem_inUse_of_free {cooled : PeerCooldown} (h : ip ∈ s.free cooled) :
    ip ∉ s.inUse ∧ cooled.lookup ip = none := by
  have hfree := (List.mem_filter.mp h).2
  simpa using hfree

theorem Claimed.step (h : s.Claimed) (hs : step lz4 s e = some t) : t.Claimed := by
  cases step_eq_some hs with
  | tick d hdue => exact ⟨h.nodup, h.inUse⟩
  | pool peers => exact ⟨h.nodup, h.inUse⟩
  | gauge e hother => exact ⟨h.nodup, h.inUse⟩
  | wake i next limit hi => exact h.keep hi rfl rfl rfl
  | pick i next seen hi hseen =>
    unfold Pace.pick
    simp only
    split
    · exact h.keep hi rfl rfl rfl
    · rename_i ip hip
      exact h.claim hi rfl rfl (notMem_inUse_of_free (List.mem_of_getElem? hip)).1 rfl rfl
  | greeted i next ip io input hi =>
    unfold Pace.greeted
    split
    · exact h.keep hi rfl rfl rfl
    · exact h.followed hi rfl fun f hf => (Following.goesOn_nextTurn hf).ip
  | header i next f hi hheaded => exact h.keep hi rfl rfl rfl
  | read i next f result hi => exact h.followed hi rfl fun f' hf' => (Following.goesOn_onRead hf').ip
  | release i next ip cause hi => exact h.release hi rfl rfl rfl rfl
  | settle i next ip cause hi =>
    unfold Pace.settle
    simp only
    split <;> exact h.keep hi rfl rfl rfl

/-! ## 6. Streams -/

/-- A reference that follows a peer has a handle for it, and the peer keeps the pace. -/
def Streaming (g : Gauge) (clock : Nat) (r : PaceRef) : Prop :=
  ∀ f, r.pc = .following f → Handle g f.feed f.ip ∧ f.Paced ∧ f.Waits clock

structure Streams (s : Pace) : Prop where
  gauge : s.gauge.Inv
  streaming : Indexed.All (fun _ r => Streaming s.gauge s.clock r) s.refs

/-- The reference at `i` is not following; the table is as it was. -/
theorem Streams.idle (h : s.Streams) (hrefs : t.refs = s.refs.set i r') (hgauge : t.gauge = s.gauge)
    (hclock : t.clock = s.clock) (hidle : r'.feed = none) : t.Streams := by
  refine ⟨hgauge ▸ h.gauge, ?_⟩
  rw [hrefs, hgauge, hclock]
  refine Indexed.all_set (fun j a _ ha => h.streaming ha) fun f hf => ?_
  rw [PaceRef.feed, hf] at hidle
  cases hidle

/-- No other reference has the handle of the one at `i`. -/
theorem Streams.feed_ne (h : s.Streams) (hc : s.Claimed) {j : Nat} {f f' : Following} (hj : j ≠ i)
    (hi : s.refs[i]? = some r) (hr : r.pc = .following f) (hj' : s.refs[j]? = some r') (hr' : r'.pc = .following f') :
    f'.feed ≠ f.feed := by
  intro heq
  have hpeer := (heq ▸ (h.streaming hj' f' hr').1).peer_eq (h.streaming hi f hr).1
  have hheld : r.held = some f.ip := by rw [PaceRef.held, hr]
  have hheld' : r'.held = some f.ip := by rw [PaceRef.held, hr', ← hpeer]
  exact hj (hc.index_eq hj' hi hheld' hheld)

theorem Streams.followed (h : s.Streams) {feed : Nat} {out : Gauge × Except PaceCause Following} (hgauge : out.1.Inv)
    (hothers : ∀ ⦃j : Nat⦄ ⦃a : PaceRef⦄, j ≠ i → s.refs[j]? = some a → ∀ f, a.pc = .following f →
      Handle out.1 f.feed f.ip ∧ f.feed ≠ feed)
    (hmine : ∀ f, out.2 = .ok f → Handle out.1 f.feed f.ip ∧ f.Paced ∧ f.Waits s.clock) :
    (s.followed i next ip feed out).Streams := by
  unfold Pace.followed
  split
  · rename_i f hf
    refine ⟨hgauge, Indexed.all_set (fun j a hj ha f' hf' => ?_) fun f' hf' => ?_⟩
    · exact ⟨(hothers hj ha f' hf').1, (h.streaming ha f' hf').2⟩
    · exact PacePc.following.inj hf' ▸ hmine f hf
  · refine ⟨inv_tell hgauge _, Indexed.all_set (fun j a hj ha f' hf' => ?_) fun f' hf' => by cases hf'⟩
    obtain ⟨hhandle, hne⟩ := hothers hj ha f' hf'
    refine ⟨hhandle.tell hgauge ?_, (h.streaming ha f' hf').2⟩
    simpa using fun heq => hne heq.symm

theorem Streams.step (h : s.Streams) (hc : s.Claimed) (hs : step lz4 s e = some t) : t.Streams := by
  cases step_eq_some hs with
  | tick d hdue =>
    refine ⟨h.gauge, fun j a ha f hf => ?_⟩
    obtain ⟨hhandle, hpaced, hwaits⟩ := h.streaming ha f hf
    have hlimit := hdue f.due (List.mem_filterMap.mpr ⟨a, List.mem_of_getElem? ha, by rw [PaceRef.due, hf]⟩)
    exact ⟨hhandle, hpaced, hlimit, hwaits.due_le⟩
  | pool peers => exact ⟨h.gauge, h.streaming⟩
  | gauge e hother =>
    refine ⟨inv_tell h.gauge e, fun j a ha f hf => ?_⟩
    obtain ⟨hhandle, hpaced⟩ := h.streaming ha f hf
    refine ⟨hhandle.tell h.gauge ?_, hpaced⟩
    rintro rfl
    have hmem : f.feed ∈ s.refs.filterMap PaceRef.feed :=
      List.mem_filterMap.mpr ⟨a, List.mem_of_getElem? ha, by rw [PaceRef.feed, hf]⟩
    simp [usesHandle, hmem] at hother
  | wake i next limit hi => exact h.idle rfl rfl rfl rfl
  | pick i next seen hi hseen =>
    unfold Pace.pick
    simp only
    split <;> exact h.idle rfl rfl rfl rfl
  | greeted i next ip io input hi =>
    unfold Pace.greeted
    split
    · exact h.idle rfl rfl rfl rfl
    · refine h.followed (inv_tell h.gauge (.feed ip)) ?_ ?_
      · intro j a hj ha f hf
        obtain ⟨hhandle, -⟩ := h.streaming ha f hf
        exact ⟨hhandle.tell h.gauge (fun heq => by cases heq), Nat.ne_of_lt (hhandle.lt_nextId h.gauge)⟩
      · intro f hf
        have hon := Following.goesOn_nextTurn hf
        exact ⟨hon.ip ▸ hon.feed ▸ handle_feed s.gauge ip, hon.paced, hon.waits⟩
  | header i next f hi hheaded =>
    refine ⟨h.gauge, Indexed.all_set (fun j a _ ha => h.streaming ha) fun f' hf' => ?_⟩
    obtain ⟨hhandle, hpaced, hwaits⟩ := h.streaming hi f rfl
    obtain rfl := PacePc.following.inj hf'
    exact ⟨hhandle, ⟨hpaced.first, hpaced.rising⟩, hwaits.onHeader hheaded⟩
  | read i next f result hi =>
    refine h.followed (inv_onRead lz4 f result s.clock h.gauge) ?_ ?_
    · intro j a hj ha f' hf'
      exact ⟨(h.streaming ha f' hf').1.onRead lz4 f result s.clock h.gauge, h.feed_ne hc hj hi rfl ha hf'⟩
    · intro f' hf'
      have hon := Following.goesOn_onRead hf'
      refine ⟨?_, hon.paced, hon.waits⟩
      rw [hon.ip, hon.feed]
      exact (h.streaming hi f rfl).1.onRead lz4 f result s.clock h.gauge
  | release i next ip cause hi => exact h.idle rfl rfl rfl rfl
  | settle i next ip cause hi =>
    unfold Pace.settle
    simp only
    split <;> exact h.idle rfl rfl rfl rfl

/-! ## 7. The cooldown -/

end Pace

/-- A claim that follows a cooldown of the same peer comes after its end. -/
def PaceNote.Spaced : PaceNote → PaceNote → Prop
  | .claim ip at_, .cool ip' _ cooledAt => ip = ip' → cooledAt + PACE_COOLDOWN ≤ at_
  | _, _ => True

namespace Pace

variable {lz4 : Lz4.Decoder} {s t : Pace} {e : PaceEvent} {ip : String}

/-- A cooldown that has not run out is in the table, whatever was forgotten. -/
structure Logged (s : Pace) : Prop where
  kept : ∀ ip cause at_, .cool ip cause at_ ∈ s.log → s.clock < at_ + PACE_COOLDOWN →
    ∃ limit, s.cooled.lookup ip = some limit ∧ at_ + PACE_COOLDOWN ≤ limit
  past : ∀ ip cause at_, .cool ip cause at_ ∈ s.log → at_ ≤ s.clock
  faults : ∀ ip cause at_, .cool ip cause at_ ∈ s.log → cause.cool = true
  spaced : s.log.Pairwise PaceNote.Spaced

theorem Logged.keep (h : s.Logged) (hclock : s.clock ≤ t.clock) (hcooled : t.cooled = s.cooled) (hlog : t.log = s.log) :
    t.Logged := by
  constructor
  · intro ip cause at_ hmem hlate
    rw [hcooled]
    exact h.kept ip cause at_ (hlog ▸ hmem) (Nat.lt_of_le_of_lt hclock hlate)
  · exact fun ip cause at_ hmem => (h.past ip cause at_ (hlog ▸ hmem)).trans hclock
  · exact fun ip cause at_ hmem => h.faults ip cause at_ (hlog ▸ hmem)
  · exact hlog ▸ h.spaced

/-- What is pruned has run out. -/
theorem Logged.kept_prune (h : s.Logged) {cause : PaceCause} {at_ seen : Nat} (hseen : seen ≤ s.clock)
    (hmem : .cool ip cause at_ ∈ s.log) (hlate : s.clock < at_ + PACE_COOLDOWN) :
    ∃ limit, (s.cooled.prune seen).lookup ip = some limit ∧ at_ + PACE_COOLDOWN ≤ limit := by
  obtain ⟨limit, hlimit, hle⟩ := h.kept ip cause at_ hmem hlate
  exact ⟨limit, Faults.lookup_prune_eq_some.mpr ⟨hlimit, by omega⟩, hle⟩

theorem Logged.pick (h : s.Logged) (i next : Nat) {seen : Nat} (hseen : seen ≤ s.clock) :
    (s.pick i next seen).Logged := by
  unfold Pace.pick
  simp only
  split
  · exact { h with kept := fun ip cause at_ hmem hlate => h.kept_prune hseen hmem hlate }
  · rename_i ip hip
    have hold : ∀ {ip' cause at_}, .cool ip' cause at_ ∈ PaceNote.claim ip s.clock :: s.log →
      .cool ip' cause at_ ∈ s.log := by
      intro ip' cause at_ hmem
      simpa using hmem
    refine ⟨fun ip cause at_ hmem hlate => h.kept_prune hseen (hold hmem) hlate, fun ip cause at_ hmem =>
      h.past ip cause at_ (hold hmem), fun ip cause at_ hmem => h.faults ip cause at_ (hold hmem), ?_⟩
    refine List.pairwise_cons.mpr ⟨fun note hnote => ?_, h.spaced⟩
    cases note with
    | claim ip' at_ => trivial
    | cool ip' cause at_ =>
      rintro rfl
      -- else the peer would still be in the table
      by_contra hlate
      obtain ⟨limit, hlimit, -⟩ := h.kept_prune hseen hnote (Nat.not_le.mp hlate)
      rw [(notMem_inUse_of_free (List.mem_of_getElem? hip)).2] at hlimit
      cases hlimit

theorem Logged.settle (h : s.Logged) (i next : Nat) (ip : String) (cause : PaceCause) :
    (s.settle i next ip cause).Logged := by
  unfold Pace.settle
  simp only
  split
  · rename_i hcool
    constructor
    · intro ip' cause' at_ hmem hlate
      by_cases hip : ip' = ip
      · subst hip
        refine ⟨_, AList.lookup_insert _, Nat.add_le_add_right ?_ _⟩
        rcases List.mem_cons.mp hmem with hnew | hold
        · cases hnew
          exact Nat.le_refl _
        · exact h.past ip' cause' at_ hold
      · rcases List.mem_cons.mp hmem with hnew | hold
        · cases hnew
          exact absurd rfl hip
        · obtain ⟨limit, hlimit, hle⟩ := h.kept ip' cause' at_ hold hlate
          exact ⟨limit, (AList.lookup_insert_ne hip).trans hlimit, hle⟩
    · intro ip' cause' at_ hmem
      rcases List.mem_cons.mp hmem with hnew | hold
      · cases hnew
        exact Nat.le_refl _
      · exact h.past ip' cause' at_ hold
    · intro ip' cause' at_ hmem
      rcases List.mem_cons.mp hmem with hnew | hold
      · cases hnew
        exact hcool
      · exact h.faults ip' cause' at_ hold
    · exact List.pairwise_cons.mpr ⟨fun note _ => trivial, h.spaced⟩
  · exact h.keep (Nat.le_refl _) rfl rfl

theorem Logged.followed (h : s.Logged) (i next feed : Nat) (ip : String) (out : Gauge × Except PaceCause Following) :
    (s.followed i next ip feed out).Logged := by
  unfold Pace.followed
  split <;> exact h.keep (Nat.le_refl _) rfl rfl

theorem Logged.step (h : s.Logged) (hs : step lz4 s e = some t) : t.Logged := by
  cases step_eq_some hs with
  | tick d hdue => exact h.keep (Nat.le_add_right _ _) rfl rfl
  | pool peers => exact h.keep (Nat.le_refl _) rfl rfl
  | gauge e hother => exact h.keep (Nat.le_refl _) rfl rfl
  | wake i next limit hi => exact h.keep (Nat.le_refl _) rfl rfl
  | pick i next seen hi hseen => exact h.pick i next hseen
  | greeted i next ip io input hi =>
    unfold Pace.greeted
    split
    · exact h.keep (Nat.le_refl _) rfl rfl
    · exact h.followed i next _ ip _
  | header i next f hi hheaded => exact h.keep (Nat.le_refl _) rfl rfl
  | read i next f result hi => exact h.followed i next _ _ _
  | release i next ip cause hi => exact h.keep (Nat.le_refl _) rfl rfl
  | settle i next ip cause hi => exact h.settle i next ip cause

/-! ## 8. Every run -/

structure Inv (s : Pace) : Prop where
  claimed : s.Claimed
  streams : s.Streams
  logged : s.Logged

theorem held_start (count clock : Nat) (pool : List String) (gauge : Gauge) :
    (start count clock pool gauge).refs.filterMap PaceRef.held = [] := by
  simp [start, List.filterMap_map, Function.comp_def, PaceRef.held]

theorem inv_start (count clock : Nat) (pool : List String) {gauge : Gauge} (hgauge : gauge.Inv) :
    (start count clock pool gauge).Inv := by
  have hempty : ∀ note : PaceNote, note ∉ (start count clock pool gauge).log := fun note => List.not_mem_nil
  refine ⟨⟨?_, ?_⟩, ⟨hgauge, ?_⟩, ⟨fun _ _ _ hmem => absurd hmem (hempty _), fun _ _ _ hmem => absurd hmem (hempty _),
    fun _ _ _ hmem => absurd hmem (hempty _), List.Pairwise.nil⟩⟩
  · rw [held_start]
    exact List.nodup_nil
  · intro ip
    rw [held_start]
    simp [start]
  · intro i r hr f hf
    obtain ⟨k, -, rfl⟩ := List.mem_map.mp (List.mem_of_getElem? hr)
    cases hf

theorem Inv.step (h : s.Inv) (hs : step lz4 s e = some t) : t.Inv :=
  ⟨h.claimed.step hs, h.streams.step h.claimed hs, h.logged.step hs⟩

theorem inv_of_run {ok : Pace → PaceEvent → Prop} {es : List PaceEvent} {count clock : Nat} {pool : List String}
    {gauge : Gauge} (hgauge : gauge.Inv) (hrun : Machine.Run (step lz4) ok (start count clock pool gauge) es t) :
    t.Inv :=
  hrun.invariant (inv_start count clock pool hgauge) fun _ _ _ h _ hs => h.step hs

end Pace

/-- **Pace references.**  For any number of references, whatever the pool, the other streams and the
    peers do: two references are never on one peer, and `in_use` is exactly the set of the peers they
    are on; once a cooldown was entered for a peer, nobody claims it before the cooldown is over, and
    none is entered for a lag; and a peer that is followed without a round, or without a higher one, is
    so for no longer than `PACE_FIRST_BLOCK`, or `ACTIVE_BLOCK_STALL`, and the read of one more frame. -/
theorem pace_references_over_runs {lz4 : Lz4.Decoder} {count clock : Nat} {pool : List String}
    {gauge : Gauge} {ok : Pace → PaceEvent → Prop} {es : List PaceEvent} {t : Pace} (hgauge : gauge.Inv)
    (hrun : Machine.Run (Pace.step lz4) ok (Pace.start count clock pool gauge) es t) :
    (∀ (i j : Nat) (a b : PaceRef) (ip : String), t.refs[i]? = some a → t.refs[j]? = some b →
      a.held = some ip → b.held = some ip → i = j) ∧
    (∀ ip, ip ∈ t.inUse ↔ ∃ r ∈ t.refs, r.held = some ip) ∧
    t.log.Pairwise PaceNote.Spaced ∧
    (∀ ip cause at_, .cool ip cause at_ ∈ t.log → ∀ behind, cause ≠ .lags behind) ∧
    ∀ r ∈ t.refs, ∀ f, r.pc = .following f →
      (f.progress.lastRound = 0 → t.clock ≤ f.started + PACE_FIRST_BLOCK + 2 * PACE_IDLE) ∧
      (f.progress.lastRound ≠ 0 → t.clock ≤ f.progress.at_ + ACTIVE_BLOCK_STALL + 2 * PACE_IDLE) := by
  have hinv := Pace.inv_of_run hgauge hrun
  refine ⟨?_, ?_, hinv.logged.spaced, ?_, ?_⟩
  · intro i j a b ip hi hj ha hb
    exact hinv.claimed.index_eq hi hj ha hb
  · intro ip
    rw [hinv.claimed.inUse, List.mem_filterMap]
  · rintro ip cause at_ hmem behind rfl
    exact absurd (hinv.logged.faults ip _ at_ hmem) Bool.false_ne_true
  · intro r hr f hf
    obtain ⟨i, hi⟩ := List.mem_iff_getElem?.mp hr
    obtain ⟨-, hpaced, hwaits⟩ := hinv.streams.streaming hi f hf
    have hclock := hwaits.clock_le
    constructor
    · intro hzero
      have := hpaced.first hzero
      omega
    · intro hround
      have := hpaced.rising hround
      omega

/-- A peer that cannot be reached, and one that greets. -/
def paceEvents : List PaceEvent :=
  [.pick 0 0, .pick 1 0, .greeted 0 { connect := some .failed } [], .greeted 1 {} [0, 0, 0, 1, 0, 3], .release 0,
    .settle 0, .tick PACE_RETRY, .wake 0, .pick 0 0, .tick 7000000000, .header 1, .tick PACE_IDLE]

theorem pace_references_over_runs_refused :
    ∃ t : Pace, t.refs.map PaceRef.held = [none, some "198.51.100.2"] ∧ t.log.Pairwise PaceNote.Spaced ∧
      (∀ ip, ip ∈ t.inUse ↔ ∃ r ∈ t.refs, r.held = some ip) ∧
      ∀ r ∈ t.refs, ∀ f, r.pc = .following f → f.progress.lastRound = 0 →
        t.clock ≤ f.started + PACE_FIRST_BLOCK + 2 * PACE_IDLE := by
  have hexec : (Machine.exec (Pace.step fun _ => none) (fun _ _ => True)
      (Pace.start PACE_REFERENCES 0 ["198.51.100.1", "198.51.100.2"] (Gauge.new 100 5000000000 30000000000 0))
      paceEvents).map (fun t => t.refs.map PaceRef.held) = some [none, some "198.51.100.2"] := by
    decide +kernel
  obtain ⟨t, ht, hheld⟩ := Option.map_eq_some_iff.mp hexec
  obtain ⟨-, hinUse, hspaced, -, hbound⟩ :=
    pace_references_over_runs (Gauge.Inv.init 100 5000000000 30000000000 0) (Machine.Run.of_exec ht)
  exact ⟨t, hheld, hspaced, hinUse, fun r hr f hf => (hbound r hr f hf).1⟩

/-- A state of a run of `count` references. -/
def Pace.Reached (lz4 : Lz4.Decoder) (count clock : Nat) (pool : List String) (gauge : Gauge)
    (t : Pace) : Prop :=
  ∃ es, Machine.Run (Pace.step lz4) (fun _ _ => True) (Pace.start count clock pool gauge) es t

/-- Two references follow streams that count at `now`; `round` is the lower of their rounds. -/
def Pace.SetAt (t : Pace) (now : Nat) (round : UInt32) : Prop :=
  ∃ (i j : Nat) (a b : PaceRef) (f f' : Following) (d d' : Stream), i ≠ j ∧
    (t.refs[i]? = some a ∧ a.pc = .following f) ∧ (t.refs[j]? = some b ∧ b.pc = .following f') ∧
    (t.gauge.freshest.streams.lookup f.feed = some d ∧ t.gauge.freshest.Counts t.gauge.freshest.stale now d) ∧
    (t.gauge.freshest.streams.lookup f'.feed = some d' ∧ t.gauge.freshest.Counts t.gauge.freshest.stale now d') ∧
    round = min d.round d'.round

theorem Pace.SetAt.exists_get {t : Pace} {now : Nat} {round : UInt32} (h : t.SetAt now round) (hinv : t.Inv)
    (htip : t.gauge.freshest.netTip ≠ 0) : ∃ g, t.gauge.freshest.get now = some g ∧ round ≤ g := by
  obtain ⟨i, j, a, b, f, f', d, d', hij, ⟨ha, hf⟩, ⟨hb, hf'⟩, ⟨hd, hcounts⟩, ⟨hd', hcounts'⟩, rfl⟩ := h
  have hpeer : ∀ {id : Nat} {e : Stream} {ip : String}, t.gauge.freshest.streams.lookup id = some e →
      Handle t.gauge id ip → e.peer = ip := by
    intro id e ip he hhandle
    exact Handle.peer_eq (hinv.streams.gauge.feed id e he) hhandle
  have hpeerd := hpeer hd (hinv.streams.streaming ha f hf).1
  have hpeerd' := hpeer hd' (hinv.streams.streaming hb f' hf').1
  have hne : d.peer ≠ d'.peer := by
    intro heq
    have hheld : a.held = some f.ip := by rw [PaceRef.held, hf]
    have hheld' : b.held = some f.ip := by rw [PaceRef.held, hf', ← hpeerd, heq, hpeerd']
    exact hij (hinv.claimed.index_eq ha hb hheld hheld')
  exact FreshestRound.exists_getWithin htip hd hd' hne hcounts hcounts'
    (min_le_left d.round d'.round) (min_le_right d.round d'.round)

/-- **Two references set the pace.**  In every run, as soon as the streams of two references count, the
    gateway's freshest round is no lower than the lower of the two.  And a session is flagged, with its
    distance from the freshest round, at the last of its lag checks, if every check from one on that was
    made the grace period before found two such references ahead of it by more than it may trail, and
    its node not backed up. -/
theorem pace_references_set_the_pace (lz4 : Lz4.Decoder) (count clock : Nat) (pool : List String)
    {gauge : Gauge} (hgauge : gauge.Inv) :
    (∀ t now round, Pace.Reached lz4 count clock pool gauge t → t.gauge.freshest.netTip ≠ 0 → t.SetAt now round →
      ∃ g, t.gauge.freshest.get now = some g ∧ round ≤ g) ∧
    ∀ (first : UInt32) (start : Nat) (calls : List ProgressCall) (last : Check) (pre : List Check) (c : Check)
      (post : List Check), last.own = ProgressCall.highest first calls →
      (calls.map ProgressCall.now ++ [last.now]).Pairwise (· ≤ ·) →
      ProgressCall.checks first calls ++ [last] = pre ++ c :: post → c.now + gauge.freshest.grace ≤ last.now →
      (∀ check ∈ c :: post, check.own ≠ 0 ∧ check.backedUp = false ∧
        ∃ t round, Pace.Reached lz4 count clock pool gauge t ∧ t.gauge.freshest.netTip ≠ 0 ∧ t.SetAt check.now round ∧
          check.freshest = t.gauge.freshest.get check.now ∧
          check.own.toNat + gauge.freshest.lagRounds.toNat < round.toNat) →
      ((calls.foldl (BlockProgress.call gauge.freshest.lagRounds gauge.freshest.grace)
          (BlockProgress.new first start)).lagging
        last.freshest gauge.freshest.lagRounds gauge.freshest.grace last.backedUp last.now).2 =
        some (BlockProgress.behindOf last.freshest last.own) := by
  have hset : ∀ t now round, Pace.Reached lz4 count clock pool gauge t → t.gauge.freshest.netTip ≠ 0 → t.SetAt now round →
      ∃ g, t.gauge.freshest.get now = some g ∧ round ≤ g := by
    rintro t now round ⟨es, hrun⟩ htip h
    exact h.exists_get (Pace.inv_of_run hgauge hrun) htip
  refine ⟨hset, ?_⟩
  intro first start calls last pre c post hown hmono hsplit hgrace htrailing
  rw [lagging_flags_iff hown (upTo_of_calls hmono), hsplit]
  refine ⟨Check.toNat_behindOf last, c :: post, c, ⟨List.suffix_append _ _, ?_⟩, rfl, hgrace⟩
  intro check hcheck
  obtain ⟨hround, hdrained, t, round, hreached, htip, hsetAt, hread, hbehind⟩ := htrailing check hcheck
  obtain ⟨g, hg, hle⟩ := hset t check.now round hreached htip hsetAt
  refine Check.trails_iff.mpr ⟨hround, hdrained, g, hread.trans hg, ?_⟩
  exact Nat.lt_of_lt_of_le hbehind (UInt32.le_iff_toNat_le.mp hle)

/-- Two pool peers that send the same block. -/
def pacedEvents : List PaceEvent :=
  [.pick 0 0, .pick 1 0, .greeted 0 {} [0, 0, 0, 1, 0, 3], .greeted 1 {} [0, 0, 0, 1, 0, 3],
    .header 0, .read 0 (.ok farBlock), .header 1, .read 1 (.ok farBlock)]

/-- A session 101 rounds behind that block. -/
def trailingCalls : List ProgressCall := [.onRound 1000019900 0, .lagging (some 1000020001) false 0]

theorem pace_references_set_the_pace_pacedEvents :
    ((trailingCalls.foldl (BlockProgress.call 100 5000000000) (BlockProgress.new 0 0)).lagging
      (some 1000020001) 100 5000000000 false 5000000000).2 = some 101 := by
  have hexec : (Machine.exec (Pace.step decompressSizePrepended) (fun _ _ => True)
      (Pace.start PACE_REFERENCES 0 ["198.51.100.1", "198.51.100.2"] (Gauge.new 100 5000000000 30000000000 1000020001))
      pacedEvents).map (fun t => ((t.refs, t.gauge.freshest.netTip, t.gauge.freshest.stale),
        (t.gauge.freshest.streams.lookup 0, t.gauge.freshest.streams.lookup 1),
        t.gauge.freshest.get 0, t.gauge.freshest.get 5000000000)) =
      some (([⟨1, .following ⟨"198.51.100.1", 0, 0, 0, false, PACE_IDLE, ⟨1000020001, 0, none⟩⟩⟩,
        ⟨2, .following ⟨"198.51.100.2", 1, 0, 0, false, PACE_IDLE, ⟨1000020001, 0, none⟩⟩⟩], 1000020001, 30000000000),
        (some ⟨"198.51.100.1", 1000020001, 0⟩, some ⟨"198.51.100.2", 1000020001, 0⟩),
        some 1000020001, some 1000020001) := by
    decide +kernel
  obtain ⟨t, ht, hout⟩ := Option.map_eq_some_iff.mp hexec
  simp only [Prod.mk.injEq] at hout
  obtain ⟨⟨hrefs, htip, hstale⟩, ⟨hd, hd'⟩, hget, hlater⟩ := hout
  have hreached : Pace.Reached decompressSizePrepended PACE_REFERENCES 0 ["198.51.100.1", "198.51.100.2"]
      (Gauge.new 100 5000000000 30000000000 1000020001) t := ⟨pacedEvents, Machine.Run.of_exec ht⟩
  have hpos : t.gauge.freshest.netTip ≠ 0 := by
    rw [htip]
    decide
  have hsetAt : ∀ now, now ≤ 5000000000 → t.SetAt now 1000020001 := by
    intro now hnow
    have hcounts : ∀ peer, t.gauge.freshest.Counts t.gauge.freshest.stale now ⟨peer, 1000020001, 0⟩ := by
      intro peer
      constructor
      · rw [hstale]
        show now ≤ 30000000000
        omega
      · rw [htip]
        exact (by decide : (1000020001 : UInt32) ≤ Word.satAdd 1000020001 FRESHEST_TIP_SLACK)
    have hrefAt := fun i : Nat => congrArg (fun l : List PaceRef => l[i]?) hrefs
    exact ⟨0, 1, _, _, _, _, _, _, Nat.zero_ne_one, ⟨hrefAt 0, rfl⟩, ⟨hrefAt 1, rfl⟩, ⟨hd, hcounts _⟩,
      ⟨hd', hcounts _⟩, rfl⟩
  refine (pace_references_set_the_pace decompressSizePrepended PACE_REFERENCES 0 ["198.51.100.1", "198.51.100.2"]
    (Gauge.Inv.init 100 5000000000 30000000000 1000020001)).2 0 0 trailingCalls
    ⟨1000019900, some 1000020001, false, 5000000000⟩ [] ⟨1000019900, some 1000020001, false, 0⟩
    [⟨1000019900, some 1000020001, false, 5000000000⟩] (by decide) (by decide) rfl (by decide) fun check hcheck => ?_
  rcases List.mem_cons.mp hcheck with rfl | hcheck
  · exact ⟨by decide, rfl, t, _, hreached, hpos, hsetAt 0 (Nat.zero_le _), hget.symm, by decide⟩
  · obtain rfl := List.mem_singleton.mp hcheck
    exact ⟨by decide, rfl, t, _, hreached, hpos, hsetAt 5000000000 (by omega), hlater.symm, by decide⟩

end Hypersync.Gateway
