import Hypersync.Gateway.Node
import Hypersync.Lib.KeyMap
import Hypersync.Lib.Machine

/-!
# Sessions and the pins they leave

A 4001 session pins its upstream when it starts and holds a guard that clears that
pin however it ends.  A hot-standby session pins again at every switch; the last
of these pins is cleared explicitly after `serve_failover` returned, and the guard
still names the first.  So a hot-standby session that has switched and then ends
in another way than by returning leaves its last pin behind.

The machine runs any number of sessions of one node, together with the lazy pins
of other ports and the unpins of client-block requests and blacklist checks.  An
epoch is taken before the lock of the active pin is, so these are two steps.
-/

namespace Hypersync.Gateway

/-! ## 1. Sessions -/

/-- Where a session is.  `guard` is the pin its guard names, `last` its last pin. -/
inductive SessionPhase where
  | pinning (peer : ActivePeer)
  | running (guard last : ActivePeer)
  | switching (guard last peer : ActivePeer)
  | closing (guard : ActivePeer)
deriving DecidableEq, Repr

/-- A session; `hot` with standbys, when its upstream may change. -/
structure PinSession where
  hot : Bool
  phase : SessionPhase
deriving DecidableEq, Repr

structure PinWorld where
  pins : Pins := {}
  sessions : KeyMap Nat PinSession := ∅
  nextSession : Nat := 0
  /-- For statements only: every pin made, with the session that made it (`none` for a lazy
      pin). -/
  made : List (Option Nat × ActivePeer) := []

inductive PinWorld.Event where
  | begin (ip : String) (hot : Bool)
  | set (id : Nat)
  | switch (id : Nat) (ip : String)
  | switchSet (id : Nat)
  | finish (id : Nat)
  | abort (id : Nat)
  | drop (id : Nat)
  | lazy (ip : String) (blacklisted : String → Bool)
  | unpin (peer : ActivePeer)
  | look (blacklisted : String → Bool)

namespace PinWorld

/-- `next_active_epoch.fetch_add(1) + 1`, for a pin of `owner`. -/
def takeEpoch (w : PinWorld) (owner : Option Nat) (ip : String) : ActivePeer × PinWorld :=
  let peer : ActivePeer := ⟨ip, w.pins.takeEpoch.1⟩
  (peer, { w with pins := w.pins.takeEpoch.2, made := w.made ++ [(owner, peer)] })

def setPhase (w : PinWorld) (id : Nat) (phase : SessionPhase) : PinWorld :=
  { w with sessions := KeyMap.modify id (fun s => { s with phase := phase }) w.sessions }

def step (w : PinWorld) : PinWorld.Event → Option PinWorld
  -- `pin_active` of a new session
  | .begin ip hot =>
    let (peer, w') := w.takeEpoch (some w.nextSession) ip
    some { w' with
      sessions := w'.sessions.insert w.nextSession ⟨hot, .pinning peer⟩
      nextSession := w.nextSession + 1 }
  | .set id =>
    match w.sessions.lookup id with
    | some ⟨_, .pinning peer⟩ =>
      some ({ w with pins := w.pins.setActive peer }.setPhase id (.running peer peer))
    | _ => none
  -- `on_switch`
  | .switch id ip =>
    match w.sessions.lookup id with
    | some ⟨true, .running guard last⟩ =>
      let (peer, w') := w.takeEpoch (some id) ip
      some (w'.setPhase id (.switching guard last peer))
    | _ => none
  | .switchSet id =>
    match w.sessions.lookup id with
    | some ⟨_, .switching guard _ peer⟩ =>
      some ({ w with pins := w.pins.setActive peer }.setPhase id (.running guard peer))
    | _ => none
  -- `serve_push` or `serve_failover` returned
  | .finish id =>
    match w.sessions.lookup id with
    | some ⟨hot, .running guard last⟩ =>
      let pins := if hot then w.pins.clearActiveIfCurrent last else w.pins
      some ({ w with pins := pins }.setPhase id (.closing guard))
    | _ => none
  -- it panicked, or the session's task was cancelled in it
  | .abort id =>
    match w.sessions.lookup id with
    | some ⟨_, .running guard _⟩ => some (w.setPhase id (.closing guard))
    | _ => none
  -- `ActivePinGuard::drop`
  | .drop id =>
    match w.sessions.lookup id with
    | some ⟨_, .closing guard⟩ =>
      some { w with pins := w.pins.clearActiveIfCurrent guard, sessions := w.sessions.erase id }
    | _ => none
  | .lazy ip blacklisted =>
    let (peer, pins) := w.pins.pinLazyActive blacklisted ip
    some { w with
      pins := pins
      made := if pins.nextActiveEpoch = w.pins.nextActiveEpoch then w.made else w.made ++ [(none, peer)] }
  | .unpin peer => some { w with pins := w.pins.clearActiveIfCurrent peer }
  | .look blacklisted => some { w with pins := w.pins.unpinBlacklisted blacklisted }

end PinWorld

/-! ## 2. Whose pin is it -/

/-- The pins a session knows as its own. -/
def SessionPhase.peers : SessionPhase → List ActivePeer
  | .pinning peer => [peer]
  | .running guard last => [guard, last]
  | .switching guard last peer => [guard, last, peer]
  | .closing guard => [guard]

/-- What a session without standbys can be in: it never pins a second time. -/
def SessionPhase.Plain : SessionPhase → Prop
  | .running guard last => guard = last
  | .switching _ _ _ => False
  | .pinning _ | .closing _ => True

/-- The pin the session would clear if it went on to return. -/
def SessionPhase.Clears (p : ActivePeer) : SessionPhase → Prop
  | .pinning _ => False
  | .running _ last | .switching _ last _ => p = last
  | .closing guard => p = guard

theorem SessionPhase.Clears.mem_peers {p : ActivePeer} {phase : SessionPhase} (h : phase.Clears p) :
    p ∈ phase.peers := by
  cases phase with
  | pinning peer => exact h.elim
  | running guard last => exact List.mem_cons_of_mem _ (List.mem_singleton.mpr h)
  | switching guard last peer =>
    rw [show p = last from h]
    exact List.mem_cons_of_mem _ List.mem_cons_self
  | closing guard => exact List.mem_singleton.mpr h

namespace PinWorld

/-- Epochs are never given out twice, so a pin has one maker; the active pin was made, by a
    session unless it is marked lazy. -/
structure MadeInv (w : PinWorld) : Prop where
  below : ∀ e ∈ w.made, e.2.epoch ≤ w.pins.nextActiveEpoch
  unique : ∀ e ∈ w.made, ∀ e' ∈ w.made, e.2.epoch = e'.2.epoch → e = e'
  active : ∀ p, w.pins.active = some p → ∃ owner, (owner, p) ∈ w.made ∧ (owner = none ↔ w.pins.lazyActive = true)

/-- A session knows only pins it made; one without standbys never made a second. -/
structure Known (w : PinWorld) (id : Nat) (s : PinSession) : Prop where
  owned : ∀ p ∈ s.phase.peers, (some id, p) ∈ w.made
  plain : s.hot = false → s.phase.Plain
  below : id < w.nextSession

def SessionsInv (w : PinWorld) : Prop :=
  ∀ id s, w.sessions.lookup id = some s → w.Known id s

variable {w w' : PinWorld}

theorem lookup_setPhase {id j : Nat} {phase : SessionPhase} {s : PinSession}
    (h : (w.setPhase id phase).sessions.lookup j = some s) :
    (j = id ∧ ∃ s₀, w.sessions.lookup id = some s₀ ∧ s = { s₀ with phase := phase }) ∨
      (j ≠ id ∧ w.sessions.lookup j = some s) := by
  by_cases hj : j = id
  · subst hj
    rw [setPhase, KeyMap.lookup_modify_self, Option.map_eq_some_iff] at h
    obtain ⟨s₀, hs₀, rfl⟩ := h
    exact Or.inl ⟨rfl, s₀, hs₀, rfl⟩
  · rw [setPhase, KeyMap.lookup_modify_ne hj] at h
    exact Or.inr ⟨hj, h⟩

/-- Pins of two different makers differ. -/
theorem MadeInv.owner_unique (h : w.MadeInv) {o o' : Option Nat} {p : ActivePeer}
    (hmade : (o, p) ∈ w.made) (hmade' : (o', p) ∈ w.made) : o = o' :=
  congrArg Prod.fst (h.unique _ hmade _ hmade' rfl)

theorem MadeInv.takeEpoch (h : w.MadeInv) (owner : Option Nat) (ip : String) :
    (w.takeEpoch owner ip).2.MadeInv := by
  have hnew : ∀ e ∈ w.made, e.2.epoch ≠ w.pins.nextActiveEpoch + 1 := fun e he heq =>
    absurd (h.below e he) (by rw [heq]; exact Nat.not_succ_le_self _)
  refine ⟨?_, ?_, ?_⟩
  · intro e he
    rcases List.mem_append.mp he with he | he
    · exact Nat.le_succ_of_le (h.below e he)
    · rw [List.mem_singleton.mp he]
      exact le_rfl
  · intro e he e' he' heq
    rcases List.mem_append.mp he with he | he <;> rcases List.mem_append.mp he' with he' | he'
    · exact h.unique e he e' he' heq
    · rw [List.mem_singleton.mp he'] at heq
      exact absurd heq (hnew e he)
    · rw [List.mem_singleton.mp he] at heq
      exact absurd heq.symm (hnew e' he')
    · rw [List.mem_singleton.mp he, List.mem_singleton.mp he']
  · intro p hp
    obtain ⟨o, ho, hlazy⟩ := h.active p hp
    exact ⟨o, List.mem_append_left _ ho, hlazy⟩

theorem MadeInv.setActive (h : w.MadeInv) {id : Nat} {peer : ActivePeer} (hmade : (some id, peer) ∈ w.made) :
    MadeInv { w with pins := w.pins.setActive peer } := by
  refine ⟨h.below, h.unique, ?_⟩
  intro p hp
  cases hp
  exact ⟨some id, hmade, iff_of_false nofun nofun⟩

theorem MadeInv.unpin (h : w.MadeInv) {pins : Pins} (hpins : w.pins.Unpinned pins) :
    MadeInv { w with pins := pins } := by
  refine ⟨?_, h.unique, ?_⟩
  · intro e he
    simp only [hpins.nextActiveEpoch]
    exact h.below e he
  · intro p hp
    simp only [hpins.lazyActive]
    exact h.active p (hpins.active p hp)

theorem MadeInv.setLazy (h : w.MadeInv) {peer : ActivePeer} (hmade : (none, peer) ∈ w.made) :
    MadeInv { w with pins := { w.pins with active := some peer, lazyActive := true } } := by
  refine ⟨h.below, h.unique, ?_⟩
  intro p hp
  cases hp
  exact ⟨none, hmade, iff_of_true rfl rfl⟩

theorem Known.mono {id : Nat} {s : PinSession} (h : w.Known id s)
    (hmade : ∀ e ∈ w.made, e ∈ w'.made) (hnext : w.nextSession ≤ w'.nextSession) : w'.Known id s :=
  ⟨fun p hp => hmade _ (h.owned p hp), h.plain, Nat.lt_of_lt_of_le h.below hnext⟩

theorem SessionsInv.frame (h : w.SessionsInv) (hsessions : w'.sessions = w.sessions)
    (hmade : ∀ e ∈ w.made, e ∈ w'.made) (hnext : w.nextSession ≤ w'.nextSession) : w'.SessionsInv :=
  fun id s hs => (h id s (hsessions ▸ hs)).mono hmade hnext

theorem SessionsInv.setPhase (h : w.SessionsInv) {id : Nat} {s : PinSession} {phase : SessionPhase}
    (hs : w.sessions.lookup id = some s) (howned : ∀ p ∈ phase.peers, (some id, p) ∈ w.made)
    (hplain : s.hot = false → phase.Plain) : (w.setPhase id phase).SessionsInv := by
  intro j s' hs'
  rcases lookup_setPhase hs' with ⟨rfl, s₀, hs₀, rfl⟩ | ⟨_, hs'⟩
  · obtain rfl := Option.some.inj (hs.symm.trans hs₀)
    exact ⟨howned, hplain, (h j s hs).below⟩
  · exact (h j s' hs').mono (fun _ he => he) le_rfl

/-- A session that goes to `closing` still knows its first pin. -/
theorem SessionsInv.close (h : w.SessionsInv) {id : Nat} {hot : Bool} {guard last : ActivePeer}
    (hs : w.sessions.lookup id = some ⟨hot, .running guard last⟩) :
    (w.setPhase id (.closing guard)).SessionsInv := by
  refine h.setPhase hs ?_ fun _ => trivial
  intro p hp
  rw [List.mem_singleton.mp hp]
  exact (h id _ hs).owned guard List.mem_cons_self

/-! ## 3. What a step does -/

inductive Step (w : PinWorld) : PinWorld.Event → PinWorld → Prop
  | begin (ip : String) (hot : Bool) :
    Step w (.begin ip hot) { (w.takeEpoch (some w.nextSession) ip).2 with
      sessions := w.sessions.insert w.nextSession ⟨hot, .pinning (w.takeEpoch (some w.nextSession) ip).1⟩
      nextSession := w.nextSession + 1 }
  | set {id hot peer} (hs : w.sessions.lookup id = some ⟨hot, .pinning peer⟩) :
    Step w (.set id) ({ w with pins := w.pins.setActive peer }.setPhase id (.running peer peer))
  | switch {id guard last} (ip : String) (hs : w.sessions.lookup id = some ⟨true, .running guard last⟩) :
    Step w (.switch id ip)
      ((w.takeEpoch (some id) ip).2.setPhase id (.switching guard last (w.takeEpoch (some id) ip).1))
  | switchSet {id hot guard last peer} (hs : w.sessions.lookup id = some ⟨hot, .switching guard last peer⟩) :
    Step w (.switchSet id) ({ w with pins := w.pins.setActive peer }.setPhase id (.running guard peer))
  | finishHot {id guard last} (hs : w.sessions.lookup id = some ⟨true, .running guard last⟩) :
    Step w (.finish id) ({ w with pins := w.pins.clearActiveIfCurrent last }.setPhase id (.closing guard))
  | finishPlain {id guard last} (hs : w.sessions.lookup id = some ⟨false, .running guard last⟩) :
    Step w (.finish id) (w.setPhase id (.closing guard))
  | abort {id hot guard last} (hs : w.sessions.lookup id = some ⟨hot, .running guard last⟩) :
    Step w (.abort id) (w.setPhase id (.closing guard))
  | drop {id hot guard} (hs : w.sessions.lookup id = some ⟨hot, .closing guard⟩) :
    Step w (.drop id) { w with
      pins := w.pins.clearActiveIfCurrent guard, sessions := w.sessions.erase id }
  | lazyKeep (ip : String) (blacklisted : String → Bool) :
    Step w (.lazy ip blacklisted) { w with pins := w.pins.unpinBlacklisted blacklisted }
  | lazyNew {u : PinWorld} (ip : String) (blacklisted : String → Bool)
    (hu : u = ({ w with pins := w.pins.unpinBlacklisted blacklisted }.takeEpoch none ip).2) :
    Step w (.lazy ip blacklisted) { u with
      pins := { u.pins with active := some ⟨ip, w.pins.nextActiveEpoch + 1⟩, lazyActive := true } }
  | unpin (peer : ActivePeer) : Step w (.unpin peer) { w with pins := w.pins.clearActiveIfCurrent peer }
  | look (blacklisted : String → Bool) :
    Step w (.look blacklisted) { w with pins := w.pins.unpinBlacklisted blacklisted }

theorem Step.of_step {e : PinWorld.Event} (h : w.step e = some w') : Step w e w' := by
  cases e with
  | begin ip hot =>
    cases h
    exact .begin ip hot
  | set id =>
    simp only [step] at h
    split at h <;> cases h
    exact .set ‹_›
  | switch id ip =>
    simp only [step] at h
    split at h <;> cases h
    exact .switch ip ‹_›
  | switchSet id =>
    simp only [step] at h
    split at h <;> cases h
    exact .switchSet ‹_›
  | finish id =>
    simp only [step] at h
    split at h <;> cases h
    rename_i hot guard last hs
    cases hot with
    | true => exact .finishHot hs
    | false => exact .finishPlain hs
  | abort id =>
    simp only [step] at h
    split at h <;> cases h
    exact .abort ‹_›
  | drop id =>
    simp only [step] at h
    split at h <;> cases h
    exact .drop ‹_›
  | lazy ip blacklisted =>
    have hpins := Pins.unpinned_unpinBlacklisted blacklisted w.pins
    rcases Pins.pinLazyActive_cases blacklisted w.pins ip with ⟨peer, hpin⟩ | hpin
    · simp only [step, hpin, hpins.nextActiveEpoch, if_true, Option.some.injEq] at h
      subst h
      exact .lazyKeep ip blacklisted
    · simp only [step, hpin, Nat.succ_ne_self, if_false, Option.some.injEq] at h
      subst h
      have hnew := Step.lazyNew (w := w) ip blacklisted rfl
      simp only [takeEpoch, Pins.takeEpoch, hpins.nextActiveEpoch] at hnew
      exact hnew
  | unpin peer =>
    cases h
    exact .unpin peer
  | look blacklisted =>
    cases h
    exact .look blacklisted

theorem SessionsInv.step (h : w.SessionsInv) {e : PinWorld.Event} (hstep : w.step e = some w') :
    w'.SessionsInv := by
  cases Step.of_step hstep with
  | begin ip hot =>
    intro j s hs
    rcases KeyMap.lookup_insert_inv hs with ⟨rfl, rfl⟩ | ⟨_, hs⟩
    · refine ⟨?_, fun _ => trivial, Nat.lt_succ_self _⟩
      intro p hp
      rw [List.mem_singleton.mp hp]
      exact List.mem_append_right _ (List.mem_singleton.mpr rfl)
    · exact (h j s hs).mono (fun _ he => List.mem_append_left _ he) (Nat.le_succ _)
  | @set id hot peer hs =>
    have hw : SessionsInv { w with pins := w.pins.setActive peer } := h.frame rfl (fun _ he => he) le_rfl
    refine hw.setPhase hs ?_ fun _ => rfl
    intro p hp
    have hpeer : p = peer := by simpa [SessionPhase.peers] using hp
    exact (h id _ hs).owned p (hpeer ▸ List.mem_singleton.mpr rfl)
  | @switch id guard last ip hs =>
    have hw : (w.takeEpoch (some id) ip).2.SessionsInv :=
      h.frame rfl (fun _ he => List.mem_append_left _ he) le_rfl
    refine hw.setPhase hs ?_ nofun
    intro p hp
    rcases List.mem_append.mp (show p ∈ [guard, last] ++ [_] from hp) with hp | hp
    · exact List.mem_append_left _ ((h id _ hs).owned p hp)
    · rw [List.mem_singleton.mp hp]
      exact List.mem_append_right _ (List.mem_singleton.mpr rfl)
  | @switchSet id hot guard last peer hs =>
    have hw : SessionsInv { w with pins := w.pins.setActive peer } := h.frame rfl (fun _ he => he) le_rfl
    refine hw.setPhase hs ?_ fun hhot => ((h id _ hs).plain hhot).elim
    intro p hp
    apply (h id _ hs).owned p
    rcases List.mem_cons.mp hp with rfl | hp
    · exact List.mem_cons_self
    · rw [List.mem_singleton.mp hp]
      exact List.mem_cons_of_mem _ (List.mem_cons_of_mem _ (List.mem_singleton.mpr rfl))
  | @finishHot id guard last hs =>
    have hw : SessionsInv { w with pins := w.pins.clearActiveIfCurrent last } :=
      h.frame rfl (fun _ he => he) le_rfl
    exact hw.close hs
  | finishPlain hs => exact h.close hs
  | abort hs => exact h.close hs
  | drop hs =>
    intro j s hj
    exact (h j s (KeyMap.lookup_erase_inv hj).2).mono (fun _ he => he) le_rfl
  | lazyKeep ip blacklisted => exact h.frame rfl (fun _ he => he) le_rfl
  | lazyNew ip blacklisted hu =>
    subst hu
    exact h.frame rfl (fun _ he => List.mem_append_left _ he) le_rfl
  | unpin peer => exact h.frame rfl (fun _ he => he) le_rfl
  | look blacklisted => exact h.frame rfl (fun _ he => he) le_rfl

theorem MadeInv.step (h : w.MadeInv) (hsessions : w.SessionsInv) {e : PinWorld.Event}
    (hstep : w.step e = some w') : w'.MadeInv := by
  -- `MadeInv` reads neither the sessions nor their number
  have hframe : ∀ {u u' : PinWorld}, u.MadeInv → u'.pins = u.pins → u'.made = u.made → u'.MadeInv := by
    intro u u' hu hpins hmade
    refine ⟨?_, ?_, ?_⟩
    · rw [hpins, hmade]
      exact hu.below
    · rw [hmade]
      exact hu.unique
    · rw [hpins, hmade]
      exact hu.active
  cases Step.of_step hstep with
  | begin ip hot => exact hframe (h.takeEpoch (some w.nextSession) ip) rfl rfl
  | @set id hot peer hs =>
    exact hframe (h.setActive ((hsessions id _ hs).owned peer List.mem_cons_self)) rfl rfl
  | @switch id guard last ip hs => exact hframe (h.takeEpoch (some id) ip) rfl rfl
  | @switchSet id hot guard last peer hs =>
    have hmem : peer ∈ [guard, last, peer] := by simp
    exact hframe (h.setActive ((hsessions id _ hs).owned peer hmem)) rfl rfl
  | finishHot hs => exact hframe (h.unpin (Pins.unpinned_clearActiveIfCurrent _ _)) rfl rfl
  | finishPlain hs => exact hframe h rfl rfl
  | abort hs => exact hframe h rfl rfl
  | drop hs => exact hframe (h.unpin (Pins.unpinned_clearActiveIfCurrent _ _)) rfl rfl
  | lazyKeep ip blacklisted => exact h.unpin (Pins.unpinned_unpinBlacklisted _ _)
  | lazyNew ip blacklisted hu =>
    subst hu
    have hpins := Pins.unpinned_unpinBlacklisted blacklisted w.pins
    refine ((h.unpin hpins).takeEpoch none ip).setLazy (List.mem_append_right _ ?_)
    simp [Pins.takeEpoch, hpins.nextActiveEpoch]
  | unpin peer => exact h.unpin (Pins.unpinned_clearActiveIfCurrent _ _)
  | look blacklisted => exact h.unpin (Pins.unpinned_unpinBlacklisted _ _)

/-! ## 4. Every real pin has a session that clears it -/

/-- Every real pin that is active will be cleared by a session that still runs. -/
def NoDangling (w : PinWorld) : Prop :=
  ∀ p, w.pins.active = some p → w.pins.lazyActive = false →
    ∃ id s, w.sessions.lookup id = some s ∧ s.phase.Clears p

/-- A session that is cut off in `serve_push` or `serve_failover` has not switched, or its last
    pin is no longer the active one. -/
def cutOffClean (w : PinWorld) : PinWorld.Event → Bool
  | .abort id =>
    match w.sessions.lookup id with
    | some ⟨_, .running guard last⟩ => decide (guard = last ∨ w.pins.active ≠ some last)
    | _ => true
  | _ => true

theorem cutOffClean_abort {id : Nat} {hot : Bool} {guard last : ActivePeer}
    (hs : w.sessions.lookup id = some ⟨hot, .running guard last⟩) :
    w.cutOffClean (.abort id) = true ↔ guard = last ∨ w.pins.active ≠ some last := by
  simp only [cutOffClean, hs, decide_eq_true_eq]

theorem lookup_setPhase_self {id : Nat} {s : PinSession} (phase : SessionPhase)
    (hs : w.sessions.lookup id = some s) :
    (w.setPhase id phase).sessions.lookup id = some { s with phase := phase } := by
  rw [setPhase, KeyMap.lookup_modify_self, hs]
  rfl

/-- A session still clears `p` after another changed its phase, or it changed its own to one that
    does. -/
theorem clears_setPhase {id j : Nat} {s t : PinSession} {phase : SessionPhase} {p : ActivePeer}
    (hs : w.sessions.lookup id = some s) (hphase : s.phase.Clears p → phase.Clears p)
    (ht : w.sessions.lookup j = some t) (hclears : t.phase.Clears p) :
    ∃ i u, (w.setPhase id phase).sessions.lookup i = some u ∧ u.phase.Clears p := by
  by_cases hj : j = id
  · subst hj
    obtain rfl := Option.some.inj (hs.symm.trans ht)
    exact ⟨j, _, lookup_setPhase_self phase hs, hphase hclears⟩
  · exact ⟨j, t, (KeyMap.lookup_modify_ne hj _ _).trans ht, hclears⟩

/-- Unpinning leaves no pin behind. -/
theorem NoDangling.unpin (h : w.NoDangling) {pins : Pins} (hpins : w.pins.Unpinned pins) :
    NoDangling { w with pins := pins } :=
  fun p hp hreal => h p (hpins.active p hp) (hpins.lazyActive ▸ hreal)

theorem NoDangling.setPhase (h : w.NoDangling) {id : Nat} {s : PinSession} {phase : SessionPhase}
    (hs : w.sessions.lookup id = some s)
    (hphase : ∀ p, w.pins.active = some p → s.phase.Clears p → phase.Clears p) :
    (w.setPhase id phase).NoDangling := by
  intro p hp hreal
  obtain ⟨j, t, ht, hclears⟩ := h p hp hreal
  exact clears_setPhase hs (hphase p hp) ht hclears

/-- The pin a session has just made is the one it clears. -/
theorem noDangling_setActive {id : Nat} {s : PinSession} {phase : SessionPhase} {peer : ActivePeer}
    (hs : w.sessions.lookup id = some s) (hphase : phase.Clears peer) :
    ({ w with pins := w.pins.setActive peer }.setPhase id phase).NoDangling := by
  intro p hp _
  cases hp
  refine ⟨id, { s with phase := phase }, ?_, hphase⟩
  exact lookup_setPhase_self phase hs

theorem NoDangling.step (h : w.NoDangling) (hsessions : w.SessionsInv) {e : PinWorld.Event}
    (hclean : w.cutOffClean e = true) (hstep : w.step e = some w') : w'.NoDangling := by
  cases Step.of_step hstep with
  | begin ip hot =>
    intro p hp hreal
    obtain ⟨j, t, ht, hclears⟩ := h p hp hreal
    have hj : j ≠ w.nextSession := Nat.ne_of_lt (hsessions j t ht).below
    exact ⟨j, t, (AList.lookup_insert_ne hj).trans ht, hclears⟩
  | set hs => exact noDangling_setActive hs rfl
  | @switch id guard last ip hs =>
    have hw : (w.takeEpoch (some id) ip).2.NoDangling := h
    exact hw.setPhase hs fun _ _ hclears => hclears
  | switchSet hs => exact noDangling_setActive hs rfl
  | @finishHot id guard last hs =>
    have hw : NoDangling { w with pins := w.pins.clearActiveIfCurrent last } :=
      h.unpin (Pins.unpinned_clearActiveIfCurrent _ _)
    apply hw.setPhase hs
    intro p hp hclears
    exact absurd hclears (Pins.active_clear_iff.mp hp).2
  | @finishPlain id guard last hs =>
    apply h.setPhase hs
    intro p _ hclears
    have hlast : guard = last := (hsessions id _ hs).plain rfl
    exact hclears.trans hlast.symm
  | @abort id hot guard last hs =>
    apply h.setPhase hs
    intro p hp hclears
    rcases (cutOffClean_abort hs).mp hclean with hlast | hother
    · exact hclears.trans hlast.symm
    · exact absurd (hclears ▸ hp) hother
  | @drop id hot guard hs =>
    intro p hp hreal
    obtain ⟨hactive, hne⟩ := Pins.active_clear_iff.mp hp
    rw [(Pins.unpinned_clearActiveIfCurrent _ _).lazyActive] at hreal
    obtain ⟨j, t, ht, hclears⟩ := h p hactive hreal
    have hj : j ≠ id := by
      rintro rfl
      obtain rfl := Option.some.inj (hs.symm.trans ht)
      exact hne hclears
    exact ⟨j, t, (AList.lookup_erase_ne hj).trans ht, hclears⟩
  | lazyKeep ip blacklisted => exact h.unpin (Pins.unpinned_unpinBlacklisted _ _)
  | lazyNew ip blacklisted hu => exact fun _ _ hreal => nomatch hreal
  | unpin peer => exact h.unpin (Pins.unpinned_clearActiveIfCurrent _ _)
  | look blacklisted => exact h.unpin (Pins.unpinned_unpinBlacklisted _ _)

/-! ## 5. A pin nobody clears -/

/-- A real pin is active and no session knows it. -/
def Orphan (w : PinWorld) (p : ActivePeer) : Prop :=
  w.pins.active = some p ∧ w.pins.lazyActive = false ∧
    ∀ id s, w.sessions.lookup id = some s → p ∉ s.phase.peers

theorem Orphan.dangling {p : ActivePeer} (h : w.Orphan p) : ¬ w.NoDangling := by
  intro hno
  obtain ⟨id, s, hs, hclears⟩ := hno p h.1 h.2.1
  exact h.2.2 id s hs hclears.mem_peers

/-- A switched session that is cut off while its last pin is active leaves that pin behind: its
    guard names another, and no other session knows the pin. -/
theorem orphan_of_abort (hmade : w.MadeInv) (hsessions : w.SessionsInv) {e : PinWorld.Event}
    (hclean : w.cutOffClean e ≠ true) (hstep : w.step e = some w') : ∃ p, w'.Orphan p := by
  cases Step.of_step hstep with
  | @abort id hot guard last hs =>
    rw [Ne, cutOffClean_abort hs, not_or, not_not] at hclean
    obtain ⟨hne, hactive⟩ := hclean
    have howned : (some id, last) ∈ w.made :=
      (hsessions id _ hs).owned last (List.mem_cons_of_mem _ List.mem_cons_self)
    refine ⟨last, hactive, ?_, ?_⟩
    · obtain ⟨owner, howner, hlazy⟩ := hmade.active last hactive
      obtain rfl := hmade.owner_unique howned howner
      exact Bool.eq_false_iff.mpr (hlazy.not.mp nofun)
    · intro j t ht hmem
      rcases lookup_setPhase ht with ⟨rfl, s₀, _, rfl⟩ | ⟨hj, ht⟩
      · exact hne (List.mem_singleton.mp hmem).symm
      · have hother : (some j, last) ∈ w.made := (hsessions j t ht).owned last hmem
        exact hj (Option.some.inj (hmade.owner_unique hother howned))
  | _ => exact absurd rfl hclean

/-- The steps a session takes to its end. -/
def Event.isEnd : PinWorld.Event → Bool
  | .finish _ | .abort _ | .drop _ => true
  | _ => false

/-- Closing keeps out what was out. -/
theorem not_mem_peers_close {id : Nat} {hot : Bool} {guard last p : ActivePeer}
    (hs : w.sessions.lookup id = some ⟨hot, .running guard last⟩)
    (hout : ∀ j s, w.sessions.lookup j = some s → p ∉ s.phase.peers) :
    ∀ j s, (w.setPhase id (.closing guard)).sessions.lookup j = some s → p ∉ s.phase.peers := by
  intro j t ht hmem
  rcases lookup_setPhase ht with ⟨rfl, s₀, _, rfl⟩ | ⟨_, ht⟩
  · exact hout j _ hs (List.mem_singleton.mp hmem ▸ List.mem_cons_self)
  · exact hout j t ht hmem

theorem Orphan.step {p : ActivePeer} (h : w.Orphan p) {e : PinWorld.Event} (hend : e.isEnd = true)
    (hstep : w.step e = some w') : w'.Orphan p := by
  obtain ⟨hactive, hreal, hout⟩ := h
  cases Step.of_step hstep with
  | @finishHot id guard last hs =>
    have hne : p ≠ last := fun heq => hout id _ hs (heq ▸ List.mem_cons_of_mem _ List.mem_cons_self)
    exact ⟨Pins.active_clear_iff.mpr ⟨hactive, hne⟩, (Pins.unpinned_clearActiveIfCurrent _ _).lazyActive.trans hreal,
      not_mem_peers_close hs hout⟩
  | finishPlain hs => exact ⟨hactive, hreal, not_mem_peers_close hs hout⟩
  | abort hs => exact ⟨hactive, hreal, not_mem_peers_close hs hout⟩
  | @drop id hot guard hs =>
    have hne : p ≠ guard := fun heq => hout id _ hs (heq ▸ List.mem_cons_self)
    exact ⟨Pins.active_clear_iff.mpr ⟨hactive, hne⟩, (Pins.unpinned_clearActiveIfCurrent _ _).lazyActive.trans hreal,
      fun j s hj => hout j s (KeyMap.lookup_erase_inv hj).2⟩
  | _ => cases hend

/-- Whoever ends next, a pin nobody knows stays. -/
theorem Orphan.run {p : ActivePeer} (h : w.Orphan p) {ends : List PinWorld.Event}
    (hrun : Machine.Run PinWorld.step (fun _ e => e.isEnd = true) w ends w') : w'.Orphan p :=
  hrun.invariant (I := (Orphan · p)) h fun _ _ _ hI hend hstep => hI.step hend hstep

/-- Ending a session clears only a pin it made. -/
theorem active_of_end (hmade : w.MadeInv) (hsessions : w.SessionsInv) {e : PinWorld.Event} {id : Nat}
    (he : e = .finish id ∨ e = .abort id ∨ e = .drop id) (hstep : w.step e = some w')
    {p : ActivePeer} (hactive : w.pins.active = some p) {owner : Option Nat}
    (howner : (owner, p) ∈ w.made) (hother : owner ≠ some id) : w'.pins.active = some p := by
  -- a pin the session knows is its own, so it is not `p`
  have hne : ∀ {s : PinSession} {q : ActivePeer}, w.sessions.lookup id = some s → q ∈ s.phase.peers → p ≠ q := by
    rintro s q hs hq rfl
    exact hother (hmade.owner_unique howner ((hsessions id s hs).owned p hq))
  have hstep' := Step.of_step hstep
  rcases he with rfl | rfl | rfl
  · cases hstep' with
    | finishHot hs =>
      exact Pins.active_clear_iff.mpr ⟨hactive, hne hs (List.mem_cons_of_mem _ List.mem_cons_self)⟩
    | finishPlain hs => exact hactive
  · cases hstep' with
    | abort hs => exact hactive
  · cases hstep' with
    | drop hs => exact Pins.active_clear_iff.mpr ⟨hactive, hne hs List.mem_cons_self⟩

/-! ## 6. Runs -/

theorem inv_of_run {ok : PinWorld → PinWorld.Event → Prop} {events : List PinWorld.Event}
    (hrun : Machine.Run step ok {} events w) : w.SessionsInv ∧ w.MadeInv := by
  refine hrun.invariant (I := fun w => w.SessionsInv ∧ w.MadeInv) ?_ ?_
  · exact ⟨nofun, nofun, nofun, nofun⟩
  · rintro a e b ⟨hsessions, hmade⟩ _ hstep
    exact ⟨hsessions.step hstep, hmade.step hsessions hstep⟩

theorem noDangling_of_run {events : List PinWorld.Event}
    (hrun : Machine.Run step (fun w e => w.cutOffClean e = true) {} events w) : w.NoDangling := by
  have hboth : w.SessionsInv ∧ w.NoDangling := by
    refine hrun.invariant (I := fun w => w.SessionsInv ∧ w.NoDangling) ⟨nofun, nofun⟩ ?_
    rintro a e b ⟨hsessions, hno⟩ hclean hstep
    exact ⟨hsessions.step hstep, hno.step hsessions hclean hstep⟩
  exact hboth.2

/-- Without sessions no pin is real, whatever is blacklisted. -/
theorem NoDangling.no_session (h : w.NoDangling) (hnone : w.sessions = ∅) (blacklisted : String → Bool) :
    (w.pins.hasActiveSession blacklisted).1 = false ∧
      (w.pins.activeSessionSnapshot blacklisted).1 = none := by
  have hpins := Pins.unpinned_unpinBlacklisted blacklisted w.pins
  have hfree : w.pins.lazyActive = false → (w.pins.unpinBlacklisted blacklisted).active = none := by
    intro hreal
    rw [Option.eq_none_iff_forall_ne_some]
    intro p hp
    obtain ⟨id, s, hs, _⟩ := h p (hpins.active p hp) hreal
    rw [hnone] at hs
    cases hs
  simp only [Pins.hasActiveSession, Pins.activeSessionSnapshot, hpins.lazyActive]
  cases hlazy : w.pins.lazyActive with
  | true => simp
  | false => simp [hfree hlazy]

theorem Orphan.hasActiveSession {p : ActivePeer} (h : w.Orphan p) :
    (w.pins.hasActiveSession fun _ => false).1 = true := by
  simp [Pins.hasActiveSession, Pins.unpinBlacklisted, h.1, h.2.1]

/-- **Which pins the end of a session clears.**  In every run, ending a session never clears a pin
    another session, or a lazy dial, made.  As long as no switched session was cut off with its
    last pin active, every real pin has a session that will clear it, so none is left once all
    sessions have ended; and the first session that is cut off so leaves a real pin that the end
    of no session clears. -/
theorem session_ends_clear_exactly_own_pins {events : List PinWorld.Event}
    (hrun : Machine.Run step (fun _ _ => True) {} events w) :
    (∀ id e w', e = .finish id ∨ e = .abort id ∨ e = .drop id → w.step e = some w' →
      ∀ p owner, w.pins.active = some p → (owner, p) ∈ w.made → owner ≠ some id → w'.pins.active = some p) ∧
    (Machine.Run step (fun w e => w.cutOffClean e = true) {} events w →
      (w.sessions = ∅ → ∀ blacklisted, (w.pins.hasActiveSession blacklisted).1 = false ∧
        (w.pins.activeSessionSnapshot blacklisted).1 = none) ∧
      w.NoDangling ∧
      (∀ e w', w.step e = some w' → (w'.NoDangling ↔ w.cutOffClean e = true)) ∧
      (∀ e w', w.step e = some w' → w.cutOffClean e ≠ true → ∀ ends w'',
        Machine.Run step (fun _ e => e.isEnd = true) w' ends w'' →
          (w''.pins.hasActiveSession fun _ => false).1 = true)) := by
  obtain ⟨hsessions, hmade⟩ := inv_of_run hrun
  constructor
  · intro id e w' he hstep p owner hactive howner hother
    exact active_of_end hmade hsessions he hstep hactive howner hother
  · intro hclean
    have hno := noDangling_of_run hclean
    refine ⟨hno.no_session, hno, ?_, ?_⟩
    · intro e w' hstep
      refine ⟨?_, fun he => hno.step hsessions he hstep⟩
      intro hno'
      by_contra he
      obtain ⟨p, horphan⟩ := orphan_of_abort hmade hsessions he hstep
      exact horphan.dangling hno'
    · intro e w' hstep he ends w'' hends
      obtain ⟨p, horphan⟩ := orphan_of_abort hmade hsessions he hstep
      exact (horphan.run hends).hasActiveSession

/-- A hot-standby session that switches from `10.0.0.1` to `10.0.0.2`. -/
def switchedSession : List PinWorld.Event :=
  [.begin "10.0.0.1" true, .set 0, .switch 0 "10.0.0.2", .switchSet 0]

theorem cutOffRun_isSome :
    (Machine.exec step (fun _ _ => True) {} (switchedSession ++ [.abort 0, .drop 0])).isSome := by decide

/-- The switched session was cut off in `serve_failover`, and its guard dropped. -/
def cutOffWorld : PinWorld :=
  (Machine.exec step (fun _ _ => True) {} (switchedSession ++ [.abort 0, .drop 0])).get cutOffRun_isSome

/-- **A pin left behind.**  No session is left, and the node still reports one. -/
theorem cut_off_session_leaves_its_pin :
    Machine.Run step (fun _ _ => True) {} (switchedSession ++ [.abort 0, .drop 0]) cutOffWorld ∧
      cutOffWorld.sessions = ∅ ∧
      (cutOffWorld.pins.hasActiveSession fun _ => false).1 = true ∧
      (cutOffWorld.pins.activeSessionSnapshot fun _ => false).1 = some ⟨"10.0.0.2", 2⟩ :=
  ⟨Machine.Run.of_exec (Option.some_get cutOffRun_isSome).symm, rfl, by decide, by decide⟩

theorem switchedRun_isSome :
    (Machine.exec step (fun w e => w.cutOffClean e = true) {} switchedSession).isSome := by decide

/-- The switched session still runs. -/
def switchedWorld : PinWorld :=
  (Machine.exec step (fun w e => w.cutOffClean e = true) {} switchedSession).get switchedRun_isSome

theorem session_ends_clear_switchedWorld :
    switchedWorld.NoDangling ∧ switchedWorld.pins.active = some ⟨"10.0.0.2", 2⟩ ∧
      ∀ w', switchedWorld.step (.abort 0) = some w' → ¬ w'.NoDangling := by
  have hclean : Machine.Run step (fun w e => w.cutOffClean e = true) {} switchedSession switchedWorld :=
    Machine.Run.of_exec (Option.some_get switchedRun_isSome).symm
  have h := (session_ends_clear_exactly_own_pins (hclean.mono fun _ _ _ => trivial)).2 hclean
  refine ⟨h.2.1, by decide, ?_⟩
  intro w' hstep hno
  exact absurd ((h.2.2.1 _ w' hstep).mp hno) (by decide)

end PinWorld

end Hypersync.Gateway
