import Mathlib.Logic.Basic

/-!
# A node's active pin

`NodeState` remembers which upstream peer serves a node.  A pin is *real* when a
4001 session made it and *lazy* when a dial of another port did; every pin carries
the value of a counter that never repeats.  This is the part of the state that
pins, unpins and the client-block race read and write, each operation as the
critical section under the `active` lock; the slot of the prefetched range is in
`Prefetch`.
-/

namespace Hypersync.Gateway

structure ActivePeer where
  ip : String
  epoch : Nat
deriving DecidableEq, Repr

structure Pins where
  active : Option ActivePeer := none
  nextActiveEpoch : Nat := 0
  lazyActive : Bool := false
  rpcPeer : Option String := none
deriving DecidableEq, Repr

namespace Pins

/-- `next_active_epoch.fetch_add(1) + 1`: the epoch of the next pin. -/
def takeEpoch (n : Pins) : Nat × Pins :=
  (n.nextActiveEpoch + 1, { n with nextActiveEpoch := n.nextActiveEpoch + 1 })

/-- The critical section of `pin_active`. -/
def setActive (n : Pins) (peer : ActivePeer) : Pins :=
  { n with active := some peer, lazyActive := false, rpcPeer := none }

def pinActive (n : Pins) (ip : String) : ActivePeer × Pins :=
  let (epoch, n) := n.takeEpoch
  let peer : ActivePeer := ⟨ip, epoch⟩
  (peer, n.setActive peer)

def pinGeneration (n : Pins) : Nat := n.nextActiveEpoch

/-- Drop a pin on a blacklisted peer. -/
def unpinBlacklisted (blacklisted : String → Bool) (n : Pins) : Pins :=
  match n.active with
  | some peer => if blacklisted peer.ip then { n with active := none } else n
  | none => n

/-- A dial of another port pins only when nothing is pinned. -/
def pinLazyActive (blacklisted : String → Bool) (n : Pins) (ip : String) : ActivePeer × Pins :=
  let n := n.unpinBlacklisted blacklisted
  match n.active with
  | some peer => (peer, n)
  | none =>
    let (epoch, n) := n.takeEpoch
    (⟨ip, epoch⟩, { n with active := some ⟨ip, epoch⟩, lazyActive := true })

def activeSessionSnapshot (blacklisted : String → Bool) (n : Pins) : Option ActivePeer × Pins :=
  let n := n.unpinBlacklisted blacklisted
  (if n.lazyActive then none else n.active, n)

def activeIsCurrent (n : Pins) (peer : ActivePeer) : Bool := n.active = some peer

def clearActiveIfCurrent (n : Pins) (peer : ActivePeer) : Pins :=
  if n.active = some peer then { n with active := none } else n

def hasActiveSession (blacklisted : String → Bool) (n : Pins) : Bool × Pins :=
  let n := n.unpinBlacklisted blacklisted
  (n.active.isSome && !n.lazyActive, n)

/-! ## Unpinning only takes away -/

/-- From `n` to `n'` nothing happened but that the active pin may be gone. -/
structure Unpinned (n n' : Pins) : Prop where
  active : ∀ peer, n'.active = some peer → n.active = some peer
  nextActiveEpoch : n'.nextActiveEpoch = n.nextActiveEpoch
  lazyActive : n'.lazyActive = n.lazyActive

theorem Unpinned.refl (n : Pins) : Unpinned n n := ⟨fun _ h => h, rfl, rfl⟩

theorem Unpinned.none (n : Pins) : Unpinned n { n with active := none } := ⟨nofun, rfl, rfl⟩

theorem unpinned_unpinBlacklisted (blacklisted : String → Bool) (n : Pins) :
    n.Unpinned (n.unpinBlacklisted blacklisted) := by
  unfold unpinBlacklisted
  split
  · split
    · exact .none n
    · exact .refl n
  · exact .refl n

theorem unpinned_clearActiveIfCurrent (n : Pins) (old : ActivePeer) :
    n.Unpinned (n.clearActiveIfCurrent old) := by
  unfold clearActiveIfCurrent
  split
  · exact .none n
  · exact .refl n

/-- A lazy pin is made when nothing, or only a blacklisted peer, is pinned. -/
theorem pinLazyActive_cases (blacklisted : String → Bool) (n : Pins) (ip : String) :
    (∃ peer, n.pinLazyActive blacklisted ip = (peer, n.unpinBlacklisted blacklisted)) ∨
      n.pinLazyActive blacklisted ip = (⟨ip, n.nextActiveEpoch + 1⟩, { n.unpinBlacklisted blacklisted with
        active := some ⟨ip, n.nextActiveEpoch + 1⟩
        nextActiveEpoch := n.nextActiveEpoch + 1
        lazyActive := true }) := by
  cases hactive : (n.unpinBlacklisted blacklisted).active with
  | some peer => exact Or.inl ⟨peer, by simp only [pinLazyActive, hactive]⟩
  | none =>
    right
    simp only [pinLazyActive, hactive, takeEpoch, (unpinned_unpinBlacklisted blacklisted n).nextActiveEpoch]

/-- What is cleared is the pin named; any other stays. -/
theorem active_clear_iff {n : Pins} {old peer : ActivePeer} :
    (n.clearActiveIfCurrent old).active = some peer ↔ n.active = some peer ∧ peer ≠ old := by
  unfold clearActiveIfCurrent
  split
  · rename_i hold
    rw [hold]
    constructor
    · nofun
    · rintro ⟨heq, hne⟩
      exact absurd (Option.some.inj heq).symm hne
  · rename_i hother
    constructor
    · intro h
      refine ⟨h, ?_⟩
      rintro rfl
      exact hother h
    · exact And.left

end Pins

end Hypersync.Gateway
