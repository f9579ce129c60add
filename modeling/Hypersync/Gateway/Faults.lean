import Hypersync.Lib.KeyMap
import Hypersync.Priority
import Hypersync.Push.ExitReason
import Hypersync.Push.Relay

/-!
# Peers that are left alone after a fault

When a session ends, its text decides whether the upstream is left alone for a while: a
priority peer by the tier's cooldown, a peer of the pool by a table of its own.  The
table forgets an entry as soon as it has run out, whoever looks at it, and a list of
peers that are all cooling down is used as it is.

Against the history of all sessions nothing of that shows: at every instant, the peers
of the pool that may be used are those that did not fail within the last thirty
seconds, and a session that its node ended, or nobody, is no fault.
-/

namespace Hypersync.Gateway

open Push

/-! ## 1. The table -/

def SESSION_FAULT_COOLDOWN : Nat := 30000000000

/-- `PeerCooldown` -/
abbrev PeerCooldown := KeyMap String Nat

namespace PeerCooldown

/-- `m.retain(|_, until| *until > now)` -/
def prune (m : PeerCooldown) (now : Nat) : PeerCooldown := KeyMap.retain (fun _ limit => decide (now < limit)) m

def mark (m : PeerCooldown) (ip : String) (now : Nat) : PeerCooldown :=
  (m.prune now).insert ip (now + SESSION_FAULT_COOLDOWN)

/-- `m.get(ip).is_none_or(|until| *until <= now)` -/
def rested (m : PeerCooldown) (now : Nat) (ip : String) : Bool :=
  match m.lookup ip with
  | none => true
  | some limit => decide (limit ≤ now)

/-- The peers to use, and the table as it is left behind. -/
def usable (m : PeerCooldown) (peers : List String) (now : Nat) : List String × PeerCooldown :=
  let m := m.prune now
  if m.entries.isEmpty then (peers, m)
  else
    let out := peers.filter (m.rested now)
    (if out.isEmpty then peers else out, m)

end PeerCooldown

/-! ## 2. The sessions -/

/-- `faults` lists every fault of a peer of the pool, with its instant. -/
structure Faults where
  clock : Nat
  tier : Sessions
  cooldown : PeerCooldown := ∅
  faults : List (String × Nat) := []

inductive FaultEvent where
  | tick (d : Nat)
  -- a push session on a peer ended with this text
  | pushEnded (ip reason : String)
  -- a transparent relay ended
  | relayed (ip : String) (r : Relayed)
  -- a connection asks for the peers it may use
  | usable (peers : List String)
  | tier (e : TierEvent)

/-- The event ends a session on `ip` with a fault of the upstream. -/
def FaultEvent.blames (ip : String) : FaultEvent → Prop
  | .pushEnded ip' reason => ip' = ip ∧ pushExitIsUpstreamFault reason = true
  | .relayed ip' r => ip' = ip ∧ r.upstreamEnded = true
  | _ => False

namespace Faults

def coolDown (s : Faults) (ip : String) : Faults :=
  if s.tier.tier.contains ip then { s with tier := s.tier.mark ⟨ip, false, s.clock⟩ }
  else { s with cooldown := s.cooldown.mark ip s.clock, faults := (ip, s.clock) :: s.faults }

def coolDownOnFault (s : Faults) (ip reason : String) : Faults :=
  if pushExitIsUpstreamFault reason then s.coolDown ip else s

def step (s : Faults) : FaultEvent → Option Faults
  | .tick d => some { s with clock := s.clock + d }
  | .pushEnded ip reason => some (s.coolDownOnFault ip reason)
  | .relayed ip r => some (if r.upstreamEnded then s.coolDown ip else s)
  | .usable peers => some { s with cooldown := (s.cooldown.usable peers s.clock).2 }
  | .tier e => (s.tier.step e).map fun tier => { s with tier := tier }

/-- `ip` failed within the last thirty seconds. -/
def failedLately (s : Faults) (ip : String) : Bool :=
  s.faults.any fun f => f.1 == ip && decide (s.clock < f.2 + SESSION_FAULT_COOLDOWN)

variable {s t : Faults} {e : FaultEvent} {ip : String} {now : Nat}

/-- What a step does: time passes, a session ends with a fault or without one, the table
    forgets what has run out, or the tier takes a step. -/
inductive Stepped (s : Faults) (e : FaultEvent) : Faults → Prop
  | tick (d : Nat) : Stepped s e { s with clock := s.clock + d }
  | fault (ip : String) (hblames : e.blames ip) : Stepped s e (s.coolDown ip)
  | ended : Stepped s e s
  | pruned : Stepped s e { s with cooldown := s.cooldown.prune s.clock }
  | tier (te : TierEvent) (tier : Sessions) (htier : s.tier.step te = some tier) : Stepped s e { s with tier := tier }

theorem step_eq_some (hs : s.step e = some t) : Stepped s e t := by
  cases e with
  | tick d =>
    cases hs
    exact .tick d
  | pushEnded ip reason =>
    cases hs
    unfold coolDownOnFault
    split
    · rename_i hfault
      exact .fault ip ⟨rfl, hfault⟩
    · exact .ended
  | relayed ip r =>
    cases hs
    split
    · rename_i hended
      exact .fault ip ⟨rfl, hended⟩
    · exact .ended
  | usable peers =>
    cases hs
    unfold PeerCooldown.usable
    simp only
    split <;> exact .pruned
  | tier te =>
    obtain ⟨tier, htier, rfl⟩ := Option.map_eq_some_iff.mp hs
    exact .tier te tier htier

/-! ## 3. The table against the history -/

/-- An entry is the last fault of its peer, and no fault that still counts is missing. -/
structure Inv (s : Faults) : Prop where
  known : ∀ ip limit, s.cooldown.lookup ip = some limit → ∃ at_, (ip, at_) ∈ s.faults ∧ limit = at_ + SESSION_FAULT_COOLDOWN
  kept : ∀ ip at_, (ip, at_) ∈ s.faults → s.clock < at_ + SESSION_FAULT_COOLDOWN →
    ∃ limit, s.cooldown.lookup ip = some limit ∧ at_ + SESSION_FAULT_COOLDOWN ≤ limit
  past : ∀ ip at_, (ip, at_) ∈ s.faults → at_ ≤ s.clock

theorem lookup_prune_eq_some {m : PeerCooldown} {limit : Nat} :
    (m.prune now).lookup ip = some limit ↔ m.lookup ip = some limit ∧ now < limit := by
  rw [PeerCooldown.prune, KeyMap.lookup_retain, Option.filter_eq_some_iff, decide_eq_true_iff]

/-- What has run out does not count, so that it may be forgotten. -/
theorem Inv.prune (h : s.Inv) : ({ s with cooldown := s.cooldown.prune s.clock } : Faults).Inv where
  known ip limit hlimit := h.known ip limit (lookup_prune_eq_some.mp hlimit).1
  kept ip at_ hfault hlate := by
    obtain ⟨limit, hlimit, hle⟩ := h.kept ip at_ hfault hlate
    exact ⟨limit, lookup_prune_eq_some.mpr ⟨hlimit, Nat.lt_of_lt_of_le hlate hle⟩, hle⟩
  past := h.past

theorem Inv.mark (h : s.Inv) (ip : String) :
    ({ s with cooldown := s.cooldown.mark ip s.clock, faults := (ip, s.clock) :: s.faults } : Faults).Inv where
  known ip' limit hlimit := by
    rcases KeyMap.lookup_insert_inv hlimit with ⟨rfl, rfl⟩ | ⟨hne, hold⟩
    · exact ⟨s.clock, List.mem_cons_self, rfl⟩
    · obtain ⟨at_, hfault, heq⟩ := h.prune.known ip' limit hold
      exact ⟨at_, List.mem_cons_of_mem _ hfault, heq⟩
  kept ip' at_ hfault hlate := by
    by_cases heq : ip' = ip
    · subst heq
      refine ⟨_, AList.lookup_insert _, Nat.add_le_add_right ?_ _⟩
      rcases List.mem_cons.mp hfault with hnew | hold
      · rw [(Prod.mk.inj hnew).2]
      · exact h.past ip' at_ hold
    · rcases List.mem_cons.mp hfault with hnew | hold
      · exact absurd (Prod.mk.inj hnew).1 heq
      · obtain ⟨limit, hlimit, hle⟩ := h.prune.kept ip' at_ hold hlate
        exact ⟨limit, (AList.lookup_insert_ne heq).trans hlimit, hle⟩
  past ip' at_ hfault := by
    rcases List.mem_cons.mp hfault with hnew | hold
    · rw [(Prod.mk.inj hnew).2]
    · exact h.past ip' at_ hold

theorem Inv.coolDown (h : s.Inv) (ip : String) : (s.coolDown ip).Inv := by
  unfold Faults.coolDown
  split
  · exact { h with }
  · exact h.mark ip

theorem Inv.step (h : s.Inv) (hs : s.step e = some t) : t.Inv := by
  cases step_eq_some hs with
  | tick d =>
    refine ⟨h.known, ?_, ?_⟩
    · intro ip at_ hfault hlate
      exact h.kept ip at_ hfault (Nat.lt_of_le_of_lt (Nat.le_add_right _ _) hlate)
    · intro ip at_ hfault
      exact Nat.le_add_right_of_le (h.past ip at_ hfault)
  | fault ip hblames => exact h.coolDown ip
  | ended => exact h
  | pruned => exact h.prune
  | tier te tier htier => exact { h with }

/-- A peer cools down in the table exactly if it failed lately. -/
theorem Inv.lookup_prune (h : s.Inv) (ip : String) :
    ((s.cooldown.prune s.clock).lookup ip).isSome = s.failedLately ip := by
  rw [Bool.eq_iff_iff, Option.isSome_iff_exists, failedLately, List.any_eq_true]
  constructor
  · rintro ⟨limit, hlimit⟩
    obtain ⟨hlimit, hlate⟩ := lookup_prune_eq_some.mp hlimit
    obtain ⟨at_, hfault, rfl⟩ := h.known ip limit hlimit
    exact ⟨_, hfault, Bool.and_eq_true_iff.mpr ⟨beq_self_eq_true _, decide_eq_true hlate⟩⟩
  · rintro ⟨⟨ip', at_⟩, hfault, hboth⟩
    obtain ⟨hip, hlate⟩ := Bool.and_eq_true_iff.mp hboth
    obtain rfl := beq_iff_eq.mp hip
    obtain ⟨limit, hlimit, -⟩ := h.prune.kept ip' at_ hfault (of_decide_eq_true hlate)
    exact ⟨limit, hlimit⟩

/-- The peers that did not fail lately, or all of them if there are none. -/
def notFailed (s : Faults) (peers : List String) : List String :=
  let rest := peers.filter fun ip => !s.failedLately ip
  if rest.isEmpty then peers else rest

theorem Inv.usable_eq (h : s.Inv) (peers : List String) : (s.cooldown.usable peers s.clock).1 = s.notFailed peers := by
  have hfilter : peers.filter ((s.cooldown.prune s.clock).rested s.clock) =
      peers.filter fun ip => !s.failedLately ip := by
    refine List.filter_congr fun ip _ => ?_
    rw [← h.lookup_prune ip, PeerCooldown.rested]
    cases hlimit : (s.cooldown.prune s.clock).lookup ip with
    | none => rfl
    | some limit => exact decide_eq_false (Nat.not_le.mpr (lookup_prune_eq_some.mp hlimit).2)
  unfold PeerCooldown.usable notFailed
  simp only [hfilter]
  split
  · rename_i hempty
    -- an empty table: nobody failed lately
    have hnobody : (peers.filter fun ip => !s.failedLately ip) = peers := by
      refine List.filter_eq_self.mpr fun ip _ => ?_
      rw [← h.lookup_prune ip, Bool.not_eq_true', Option.isSome_eq_false_iff, Option.isNone_iff_eq_none]
      cases hlimit : (s.cooldown.prune s.clock).lookup ip with
      | none => rfl
      | some limit =>
        rw [KeyMap.lookup_eq_some, List.isEmpty_iff.mp hempty] at hlimit
        cases hlimit
    rw [hnobody]
    exact (ite_self _).symm
  · rfl

/-! ## 4. Where faults come from, and how long they last -/

/-- Faults and marks are never taken back. -/
structure Grows (s t : Faults) : Prop where
  clock : s.clock ≤ t.clock
  faults : s.faults ⊆ t.faults
  marks : s.tier.marks ⊆ t.tier.marks

theorem marks_of_step {ss ss' : Sessions} {e : TierEvent} (hs : ss.step e = some ss') : ss.marks ⊆ ss'.marks := by
  cases e with
  | tryAcquire ip owner =>
    simp only [Sessions.step] at hs
    split at hs <;> cases hs <;> exact List.Subset.refl _
  | move g owner =>
    simp only [Sessions.step] at hs
    split at hs <;> cases hs
    exact List.Subset.refl _
  | drop g =>
    simp only [Sessions.step] at hs
    split at hs <;> cases hs
    exact List.Subset.refl _
  | mark m =>
    cases hs
    exact List.subset_cons_self _ _

theorem Grows.refl (s : Faults) : Grows s s := ⟨Nat.le_refl _, List.Subset.refl _, List.Subset.refl _⟩

theorem Grows.trans {u : Faults} (hst : Grows s t) (htu : Grows t u) : Grows s u :=
  ⟨Nat.le_trans hst.clock htu.clock, List.Subset.trans hst.faults htu.faults,
    List.Subset.trans hst.marks htu.marks⟩

theorem grows_coolDown (s : Faults) (ip : String) : Grows s (s.coolDown ip) := by
  unfold coolDown
  split
  · exact ⟨Nat.le_refl _, List.Subset.refl _, List.subset_cons_self _ _⟩
  · exact ⟨Nat.le_refl _, List.subset_cons_self _ _, List.Subset.refl _⟩

theorem grows_of_step (hs : s.step e = some t) : Grows s t := by
  cases step_eq_some hs with
  | tick d => exact ⟨Nat.le_add_right _ _, List.Subset.refl _, List.Subset.refl _⟩
  | fault ip hblames => exact grows_coolDown s ip
  | ended => exact Grows.refl s
  | pruned => exact ⟨Nat.le_refl _, List.Subset.refl _, List.Subset.refl _⟩
  | tier te tier htier => exact ⟨Nat.le_refl _, List.Subset.refl _, marks_of_step htier⟩

theorem grows_of_run {es : List FaultEvent} (hrun : Machine.Run step (fun _ _ => True) s es t) : Grows s t :=
  hrun.invariant (I := Grows s) (Grows.refl s) fun _ _ _ h _ hs => h.trans (grows_of_step hs)

variable {peers : List String} {maxSessions : Nat} {exclusive : Bool}

theorem tier_coolDown (hdistinct : peers.Nodup) (h : s.tier.Inv peers maxSessions exclusive) (ip : String) :
    (s.coolDown ip).tier.Inv peers maxSessions exclusive := by
  unfold coolDown
  split
  · exact h.mark hdistinct _
  · exact h

theorem tier_of_step (hdistinct : peers.Nodup) (h : s.tier.Inv peers maxSessions exclusive)
    (hs : s.step e = some t) : t.tier.Inv peers maxSessions exclusive := by
  cases step_eq_some hs with
  | tick d => exact h
  | fault ip hblames => exact tier_coolDown hdistinct h ip
  | ended => exact h
  | pruned => exact h
  | tier te tier htier => exact h.step hdistinct htier

/-- Every fault in the history is the end of a session on that peer. -/
theorem blamed_of_step {f : String × Nat} (hs : s.step e = some t) (hf : f ∈ t.faults) :
    f ∈ s.faults ∨ s.tier.tier.contains f.1 = false ∧ e.blames f.1 := by
  cases step_eq_some hs with
  | tick d => exact Or.inl hf
  | fault ip hblames =>
    unfold coolDown at hf
    split at hf
    · exact Or.inl hf
    · rename_i hpool
      rcases List.mem_cons.mp hf with rfl | hf
      · exact Or.inr ⟨Bool.eq_false_of_not_eq_true hpool, hblames⟩
      · exact Or.inl hf
  | ended => exact Or.inl hf
  | pruned => exact Or.inl hf
  | tier te tier htier => exact Or.inl hf

/-- From `s` on, `ip` is out for thirty seconds, whatever happens meanwhile: it failed lately, or
    the tier does not offer it. -/
def KeepsOut (s : Faults) (peers : List String) (ip : String) : Prop :=
  ∀ es u, Machine.Run step (fun _ _ => True) s es u → u.clock < s.clock + SESSION_FAULT_COOLDOWN →
    (ip ∉ peers → u.failedLately ip = true) ∧ (ip ∈ peers → ∀ black, ip ∉ u.tier.tier.candidatesAt black u.clock)

theorem clock_coolDown (s : Faults) (ip : String) : (s.coolDown ip).clock = s.clock := by
  unfold coolDown
  split <;> rfl

theorem keepsOut_coolDown (hdistinct : peers.Nodup) (htier : s.tier.Inv peers maxSessions exclusive) (ip : String) :
    (s.coolDown ip).KeepsOut peers ip := by
  intro es u hrun hlate
  rw [clock_coolDown] at hlate
  have hgrows := grows_of_run hrun
  have hpeers : s.tier.tier.contains ip = true ↔ ip ∈ peers := by
    rw [PriorityTier.contains_iff, htier.peers_eq]
  constructor
  · intro hpool
    have hcool : (ip, s.clock) ∈ (s.coolDown ip).faults := by
      rw [coolDown, if_neg (fun h => hpool (hpeers.mp h))]
      exact List.mem_cons_self
    exact List.any_eq_true.mpr ⟨_, hgrows.faults hcool,
      Bool.and_eq_true_iff.mpr ⟨beq_self_eq_true _, decide_eq_true hlate⟩⟩
  · intro hmem black hcandidate
    have hcool : (⟨ip, false, s.clock⟩ : Mark) ∈ (s.coolDown ip).tier.marks := by
      rw [coolDown, if_pos (hpeers.mpr hmem)]
      exact List.mem_cons_self
    have hinv : u.tier.Inv peers maxSessions exclusive :=
      hrun.invariant (I := fun u => u.tier.Inv peers maxSessions exclusive) (tier_coolDown hdistinct htier ip)
        fun _ _ _ h _ hs => tier_of_step hdistinct h hs
    obtain ⟨-, -, -, hmarks⟩ := (hinv.mem_candidatesAt_iff hdistinct black u.clock ip).mp hcandidate
    have hlimit := hmarks _ (hgrows.marks hcool) rfl
    exact absurd hlate (Nat.not_lt.mpr hlimit)

end Faults

/-- **Cooldowns follow faults**, whatever sessions end in which order.  The peers of the pool
    that may be used are those that did not fail within the last thirty seconds, or all of
    them; every fault is the end of a session on a peer of the pool, for which the upstream is
    to blame.  The end of a push session changes nothing if it was not the upstream's doing,
    whatever the errors in its text say, and that of a transparent relay if its upstream did
    not end it; else the peer is kept out for thirty seconds. -/
theorem cooldowns_follow_faults {peers : List String} {maxSessions stage clock : Nat} {exclusive : Bool}
    {es : List FaultEvent} {s : Faults} (hdistinct : peers.Nodup)
    (hrun : Machine.Run Faults.step (fun _ _ => True)
      { clock := clock, tier := Sessions.start peers maxSessions stage exclusive } es s) :
    (∀ pool, (s.cooldown.usable pool s.clock).1 = s.notFailed pool) ∧
      (∀ f ∈ s.faults, f.1 ∉ peers ∧ ∃ e ∈ es, e.blames f.1) ∧
      (∀ (ip : String) (r : SessionEnd) (tail : String) (t : Faults), s.step (.pushEnded ip (r.text tail)) = some t →
        t.clock = s.clock ∧ (r.side ≠ .upstream → t = s) ∧ (r.side = .upstream → t.KeepsOut peers ip)) ∧
      ∀ (ip : String) (r : Relayed) (t : Faults), s.step (.relayed ip r) = some t →
        t.clock = s.clock ∧ (r.upstreamEnded = false → t = s) ∧ (r.upstreamEnded = true → t.KeepsOut peers ip) := by
  have hinv : s.Inv := by
    refine hrun.invariant (I := Faults.Inv) ?_ fun _ _ _ h _ hs => h.step hs
    refine ⟨?_, ?_, ?_⟩
    · intro ip limit h
      rw [AList.lookup_empty] at h
      cases h
    · intro ip at_ h
      cases h
    · intro ip at_ h
      cases h
  have htier : s.tier.Inv peers maxSessions exclusive :=
    hrun.invariant (I := fun s => s.tier.Inv peers maxSessions exclusive)
      (Sessions.inv_start peers maxSessions stage exclusive) fun _ _ _ h _ hs => Faults.tier_of_step hdistinct h hs
  -- one end or the other: a fault or nothing
  have hend : ∀ (ip : String) {fault : Bool} {t : Faults}, (if fault then s.coolDown ip else s) = t →
      t.clock = s.clock ∧ (fault = false → t = s) ∧ (fault = true → t.KeepsOut peers ip) := by
    rintro ip fault t rfl
    cases fault with
    | false => exact ⟨rfl, fun _ => rfl, fun h => (by cases h)⟩
    | true =>
      exact ⟨Faults.clock_coolDown s ip, fun h => (by cases h), fun _ => Faults.keepsOut_coolDown hdistinct htier ip⟩
  refine ⟨hinv.usable_eq, ?_, ?_, ?_⟩
  · refine (hrun.history (I := fun es s => s.tier.Inv peers maxSessions exclusive ∧
      ∀ f ∈ s.faults, f.1 ∉ peers ∧ ∃ e ∈ es, e.blames f.1) ?_ ?_).2
    · exact ⟨Sessions.inv_start peers maxSessions stage exclusive, fun f hf => by cases hf⟩
    · rintro es a e b ⟨ha, ih⟩ - hs
      refine ⟨Faults.tier_of_step hdistinct ha hs, fun f hf => ?_⟩
      rcases Faults.blamed_of_step hs hf with hold | ⟨hpool, hblames⟩
      · obtain ⟨hnot, e', he', hblames⟩ := ih f hold
        exact ⟨hnot, e', List.mem_append_left _ he', hblames⟩
      · refine ⟨fun hmem => ?_, e, List.mem_append_right _ (List.mem_singleton.mpr rfl), hblames⟩
        rw [PriorityTier.contains_iff.mpr (ha.peers_eq ▸ hmem)] at hpool
        cases hpool
  · intro ip r tail t hs
    obtain ⟨hclock, hsame, hout⟩ := hend ip (Option.some.inj hs)
    exact ⟨hclock, fun hside => hsame (Bool.eq_false_iff.mpr fun h => hside ((r.fault_iff tail).mp h)),
      fun hside => hout ((r.fault_iff tail).mpr hside)⟩
  · intro ip r t hs
    exact hend ip (Option.some.inj hs)

/-- A peer of the pool fails, another's node leaves, and a third ends its relay; a fourth's
    relay is ended by its node. -/
def faultsAndEnds : List FaultEvent :=
  [.pushEnded "1.1.1.1" (SessionEnd.text (.streamError "node write failed") " stats=[]"),
    .pushEnded "2.2.2.2" (SessionEnd.text .nodeOutboundEnded " stats=[]"), .tick 1000000000,
    .relayed "3.3.3.3" ⟨9000, 120, true⟩, .relayed "4.4.4.4" ⟨9000, 120, false⟩, .tick 29000000000]

/-- Thirty seconds after the first fault, only the second counts. -/
theorem cooldowns_follow_faults_second :
    ∃ s, Machine.Run Faults.step (fun _ _ => True) { clock := 0, tier := Sessions.start [] 0 0 false } faultsAndEnds s ∧
      (s.cooldown.usable ["1.1.1.1", "2.2.2.2", "3.3.3.3", "4.4.4.4"] s.clock).1 = ["1.1.1.1", "2.2.2.2", "4.4.4.4"] := by
  have hexec : (Machine.exec Faults.step (fun _ _ => True)
      { clock := 0, tier := Sessions.start [] 0 0 false } faultsAndEnds).map (fun s => (s.clock, s.faults)) =
        some (30000000000, [("3.3.3.3", 1000000000), ("1.1.1.1", 0)]) := by
    decide +kernel
  obtain ⟨s, hs, heq⟩ := Option.map_eq_some_iff.mp hexec
  obtain ⟨hclock, hfaults⟩ := Prod.mk.inj heq
  have hrun := Machine.Run.of_exec hs
  obtain ⟨husable, -⟩ := cooldowns_follow_faults List.nodup_nil hrun
  refine ⟨s, hrun, ?_⟩
  rw [husable]
  simp only [Faults.notFailed, Faults.failedLately, hclock, hfaults]
  decide

end Hypersync.Gateway
