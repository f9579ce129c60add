import Hypersync.Lib.Pump

/-!
# The transparent relay of a node and its upstream

`splice_with_idle` runs two copy loops: a task of its own copies from the upstream to
the node, and the relay itself copies from the node to the upstream, until one of the
loops has ended or the upstream's address is blacklisted.  Then the task is aborted,
which it only notices at its next await, and the relay reports what it carried and
which side ended it.

The machine takes the steps of the two loops in any order.  Both sides get a front of
what the other sent, the report is never ahead of what the node has, and the side that
is blamed has really ended something.
-/

namespace Hypersync.Push

/-! ## 1. The relay -/

/-- `vec![0u8; 256 * 1024]` of the copy task. -/
def TO_NODE_BUF : Nat := 262144

/-- `vec![0u8; 65536]` of `copy_node_to_upstream`. -/
def TO_PEER_BUF : Nat := 65536

structure Relayed where
  toNode : Nat
  toPeer : Nat
  upstreamEnded : Bool
deriving DecidableEq, Repr

/-- The branches of the `select!`. -/
inductive RelayBranch where
  | nodeToUpstream
  | copyTask
  | blacklisted
deriving DecidableEq, Repr

/-- `down` is the copy task, `up` the copy from the node to the upstream; `listed` says that
    `wait_blacklisted` has seen the upstream's address on the list. -/
structure Relay where
  down : Pump.State UInt8 := {}
  up : Pump.State UInt8 := {}
  listed : Bool := false
  branch : Option RelayBranch := none
  relayed : Option Relayed := none

inductive RelayEvent where
  | down (e : Pump.Event UInt8)
  | up (e : Pump.Event UInt8)
  | blacklist
  | select (b : RelayBranch)
  | load

namespace Relay

/-- `(copied, upstream_ended)` of the copy from the node. -/
def copyNodeToUpstream (up : Pump.State UInt8) : Nat × Bool := (up.copied, up.ended == some .sink)

/-- The pair a branch gives. -/
def outcome (s : Relay) : RelayBranch → Nat × Bool
  | .nodeToUpstream => copyNodeToUpstream s.up
  -- `r.unwrap_or(false)`
  | .copyTask => (0, s.down.ended == some .source)
  | .blacklisted => (0, true)

/-- A branch can be taken once its future is done. -/
def ready (s : Relay) : RelayBranch → Bool
  | .nodeToUpstream => s.up.ended.isSome
  | .copyTask => s.down.ended.isSome
  | .blacklisted => s.listed

def step (s : Relay) : RelayEvent → Option Relay
  -- also once a branch is taken: an abort is noticed at an await
  | .down e => (Pump.step TO_NODE_BUF s.down e).map fun down => { s with down := down }
  -- not a task of its own: it cannot die and leave the relay behind
  | .up .died => none
  | .up e =>
    if s.branch.isNone then (Pump.step TO_PEER_BUF s.up e).map fun up => { s with up := up } else none
  | .blacklist => some { s with listed := true }
  | .select b => if s.branch.isNone ∧ s.ready b then some { s with branch := some b } else none
  | .load =>
    match s.branch, s.relayed with
    | some b, none => some { s with relayed := some ⟨s.down.copied, (s.outcome b).1, (s.outcome b).2⟩ }
    | _, _ => none

variable {s t : Relay} {e : RelayEvent}

/-- What a step does, and when it can be taken. -/
inductive Stepped (s : Relay) : RelayEvent → Relay → Prop
  | down (e : Pump.Event UInt8) (d : Pump.State UInt8) (h : Pump.step TO_NODE_BUF s.down e = some d) :
      Stepped s (.down e) { s with down := d }
  | up (e : Pump.Event UInt8) (u : Pump.State UInt8) (hbranch : s.branch = none) (hdied : e ≠ .died)
      (h : Pump.step TO_PEER_BUF s.up e = some u) : Stepped s (.up e) { s with up := u }
  | blacklist : Stepped s .blacklist { s with listed := true }
  | select (b : RelayBranch) (hbranch : s.branch = none) (hready : s.ready b = true) :
      Stepped s (.select b) { s with branch := some b }
  | load (b : RelayBranch) (hbranch : s.branch = some b) (hnone : s.relayed = none) :
      Stepped s .load { s with relayed := some ⟨s.down.copied, (s.outcome b).1, (s.outcome b).2⟩ }

theorem step_eq_some (h : s.step e = some t) : Stepped s e t := by
  cases e with
  | down e =>
    obtain ⟨d, hd, rfl⟩ := Option.map_eq_some_iff.mp h
    exact .down e d hd
  | up e =>
    by_cases hdied : e = .died
    · rw [hdied] at h
      cases h
    · have hup : (if s.branch.isNone then
          (Pump.step TO_PEER_BUF s.up e).map fun up => { s with up := up } else none) = some t := by
        cases e <;> first | exact h | exact absurd rfl hdied
      split at hup
      · rename_i hbranch
        obtain ⟨u, hu, rfl⟩ := Option.map_eq_some_iff.mp hup
        exact .up e u (Option.isNone_iff_eq_none.mp hbranch) hdied hu
      · cases hup
  | blacklist =>
    cases h
    exact .blacklist
  | select b =>
    simp only [step] at h
    split at h <;> cases h
    rename_i hready
    exact .select b (Option.isNone_iff_eq_none.mp hready.1) hready.2
  | load =>
    simp only [step] at h
    split at h <;> cases h
    rename_i b hbranch hnone
    exact .load b hbranch hnone

/-! ## 2. Every run -/

structure Inv (s : Relay) : Prop where
  down : Pump.Inv TO_NODE_BUF s.down
  up : Pump.Inv TO_PEER_BUF s.up
  alive : s.up.ended ≠ some .nobody
  taken : ∀ b, s.branch = some b → s.ready b = true
  told : ∀ r, s.relayed = some r → ∃ b, s.branch = some b ∧ (r.toPeer, r.upstreamEnded) = s.outcome b ∧
    r.toNode ≤ s.down.copied ∧ (b = .copyTask → r.toNode = s.down.copied)

theorem inv_start : Inv {} where
  down := Pump.inv_start
  up := Pump.inv_start
  alive h := by cases h
  taken _ h := by cases h
  told _ h := by cases h

theorem Inv.step (h : s.Inv) (hs : s.step e = some t) : t.Inv := by
  cases step_eq_some hs with
  | down e d hd =>
    -- once the task has ended, it takes no step
    have hrunning : s.down.ended = none := by
      cases hended : s.down.ended with
      | none => rfl
      | some who =>
        rw [Pump.step_of_ended hended] at hd
        cases hd
    have hnot : s.branch ≠ some .copyTask := by
      intro hbranch
      have hready := h.taken _ hbranch
      rw [ready, hrunning] at hready
      cases hready
    refine ⟨h.down.step hd, h.up, h.alive, ?_, ?_⟩
    · intro b hb
      cases b with
      | nodeToUpstream => exact h.taken _ hb
      | copyTask => exact absurd hb hnot
      | blacklisted => exact h.taken _ hb
    · intro r hr
      obtain ⟨b, hb, hpair, hle, -⟩ := h.told r hr
      refine ⟨b, hb, ?_, Nat.le_trans hle (Pump.copied_le_of_step hd), fun htask => absurd (htask ▸ hb) hnot⟩
      cases b with
      | nodeToUpstream => exact hpair
      | copyTask => exact absurd hb hnot
      | blacklisted => exact hpair
  | up e u hbranch hdied hu =>
    refine ⟨h.down, h.up.step hu, ?_, ?_, ?_⟩
    · intro hnobody
      exact hdied (Pump.died_of_step hu hnobody)
    · intro b hb
      rw [hbranch] at hb
      cases hb
    · intro r hr
      obtain ⟨b, hb, -⟩ := h.told r hr
      rw [hbranch] at hb
      cases hb
  | blacklist =>
    refine { h with taken := ?_ }
    intro b hb
    cases b with
    | nodeToUpstream => exact h.taken _ hb
    | copyTask => exact h.taken _ hb
    | blacklisted => rfl
  | select b hbranch hready =>
    refine ⟨h.down, h.up, h.alive, ?_, ?_⟩
    · intro b' hb
      cases hb
      exact hready
    · intro r hr
      obtain ⟨b', hb, -⟩ := h.told r hr
      rw [hbranch] at hb
      cases hb
  | load b hbranch hnone =>
    refine { h with told := ?_ }
    intro r hr
    cases hr
    exact ⟨b, hbranch, rfl, Nat.le_refl _, fun _ => rfl⟩

/-- The upstream is blamed for an end of its own making, and so is the node. -/
theorem Inv.blamed {b : RelayBranch} (h : s.Inv) (hb : s.branch = some b) :
    ((s.outcome b).2 = true → s.down.ended = some .source ∨ s.up.ended = some .sink ∨ s.listed = true) ∧
      ((s.outcome b).2 = false →
        s.up.ended = some .source ∨ s.down.ended = some .sink ∨ s.down.ended = some .nobody) := by
  have hready := h.taken b hb
  cases b with
  | nodeToUpstream =>
    obtain ⟨who, hwho⟩ := Option.isSome_iff_exists.mp hready
    simp only [outcome, copyNodeToUpstream, hwho]
    cases who with
    | source => exact ⟨fun hsink => (by cases hsink), fun _ => Or.inl rfl⟩
    | sink => exact ⟨fun _ => Or.inr (Or.inl rfl), fun hsink => (by cases hsink)⟩
    | nobody => exact absurd hwho h.alive
  | copyTask =>
    obtain ⟨who, hwho⟩ := Option.isSome_iff_exists.mp hready
    simp only [outcome, hwho]
    cases who with
    | source => exact ⟨fun _ => Or.inl rfl, fun hsource => (by cases hsource)⟩
    | sink => exact ⟨fun hsource => (by cases hsource), fun _ => Or.inr (Or.inl rfl)⟩
    | nobody => exact ⟨fun hsource => (by cases hsource), fun _ => Or.inr (Or.inr rfl)⟩
  | blacklisted => exact ⟨fun _ => Or.inr (Or.inr hready), fun hfalse => (by cases hfalse)⟩

end Relay

/-- **What a relay carries and reports**, whatever the order of its steps.  Each side has a
    front of what the other sent.  The report is not ahead of what the node has, and is
    exact where the upstream closed after all of it was taken; the bytes for the upstream
    are only counted where that direction ended first.  An upstream that is blamed has ended
    something or was blacklisted; where none is, the node has ended something or the copy
    task has died. -/
theorem splice_over_runs {es : List RelayEvent} {s : Relay}
    (hrun : Machine.Run Relay.step (fun _ _ => True) {} es s) :
    s.down.given.IsPrefix s.down.taken ∧ s.up.given.IsPrefix s.up.taken ∧
      s.down.taken.length ≤ s.down.copied + TO_NODE_BUF ∧
      ∀ r, s.relayed = some r →
        r.toNode ≤ s.down.given.length ∧ r.toPeer ≤ s.up.given.length ∧
        (s.branch = some .copyTask → s.down.ended = some .source →
          r.toNode = s.down.taken.length ∧ r.upstreamEnded = true) ∧
        (s.branch = some .nodeToUpstream → s.up.ended = some .source →
          r.toPeer = s.up.taken.length ∧ r.upstreamEnded = false) ∧
        (r.upstreamEnded = true →
          s.down.ended = some .source ∨ s.up.ended = some .sink ∨ s.listed = true) ∧
        (r.upstreamEnded = false →
          s.up.ended = some .source ∨ s.down.ended = some .sink ∨ s.down.ended = some .nobody) := by
  have hinv : s.Inv := hrun.invariant Relay.inv_start fun _ _ _ h _ hs => h.step hs
  refine ⟨hinv.down.isPrefix, hinv.up.isPrefix, hinv.down.le_copied, ?_⟩
  intro r hr
  obtain ⟨b, hb, hpair, hle, htask⟩ := hinv.told r hr
  obtain ⟨hpeer, hended⟩ := Prod.mk.inj hpair
  obtain ⟨hupstream, hnode⟩ := hinv.blamed hb
  refine ⟨Nat.le_trans hle hinv.down.copied_le, ?_, ?_, ?_, ?_, ?_⟩
  · rw [hpeer]
    cases b with
    | nodeToUpstream => exact hinv.up.copied_le
    | copyTask => exact Nat.zero_le _
    | blacklisted => exact Nat.zero_le _
  · intro hcopy hsource
    obtain rfl := Option.some.inj (hb.symm.trans hcopy)
    obtain ⟨hgiven, hcopied⟩ := hinv.down.exact hsource
    refine ⟨by rw [htask rfl, hcopied, hgiven], ?_⟩
    simp only [hended, hsource, beq_self_eq_true]
  · intro hcopy hsource
    obtain rfl := Option.some.inj (hb.symm.trans hcopy)
    obtain ⟨hgiven, hcopied⟩ := hinv.up.exact hsource
    refine ⟨by simp only [hpeer, Relay.copyNodeToUpstream, hcopied, hgiven], ?_⟩
    simp only [hended, Relay.copyNodeToUpstream, hsource]
    rfl
  · rw [hended]
    exact hupstream
  · rw [hended]
    exact hnode

/-- The upstream sends three bytes and closes; the node has sent one. -/
def shortRelay : List RelayEvent :=
  [.down (.read [1, 2, 3]), .up (.read [9]), .down (.wrote 2), .up (.wrote 1), .down (.wrote 1), .down .counted,
    .down .sourceEnded, .select .copyTask, .load]

theorem splice_over_runs_shortRelay :
    ∃ s, Machine.Run Relay.step (fun _ _ => True) {} shortRelay s ∧ s.relayed = some ⟨3, 0, true⟩ ∧
      s.down.given.IsPrefix [1, 2, 3] := by
  let s : Relay :=
    { down := ⟨.ended .source, [1, 2, 3], [1, 2, 3], 3⟩
      up := ⟨.counting [9], [9], [9], 0⟩
      branch := some .copyTask
      relayed := some ⟨3, 0, true⟩ }
  have hrun : Machine.Run Relay.step (fun _ _ => True) {} shortRelay s := Machine.Run.of_exec rfl
  exact ⟨s, hrun, rfl, (splice_over_runs hrun).1⟩

end Hypersync.Push
