import Hypersync.Failover.Effects
import Hypersync.Lib.Best
import Hypersync.Lib.Machine
import Mathlib.Data.List.Chain
import Mathlib.Data.Prod.Lex

/-!
# Which standby takes over, and when

`pick_switch` goes through a hash map once and keeps three running bests.  The
policy behind it is stated on the set of upstreams instead (`Policy`): who may be
switched to for which reason, which reason comes first, and which standby is chosen
among those a reason allows.  The loop follows it in every order of iteration.

Over a run, a switch for speed or back to a priority peer never comes sooner after
the one before it than the dwell time.
-/

namespace Hypersync.Failover

namespace Core

/-! ## 1. The policy -/

/-- The measured lead of an upstream; without enough samples it ranks last. -/
def leadOf (u : Upstream) : Int := u.medianLead.getD I64_MIN

/-- How candidates for a stalled active rank: by lead, then by the length of the chain
    they hold, then by how early they got its first block. -/
def rank (lead : Int) (n firstAt : Nat) : Int ×ₗ Nat ×ₗ Natᵒᵈ := toLex (lead, toLex (n, OrderDual.toDual firstAt))

section
variable (c : Core) (now : Nat) (activeDead : Bool)

/-- A verified standby that holds `n` blocks continuing the node's chain, the first since
    `firstAt`. -/
structure Ready (id : Nat) (u : Upstream) (n firstAt : Nat) : Prop where
  known : c.ups.lookup id = some u
  standby : id ≠ c.active
  verified : MIN_VERIFIED ≤ u.verified
  chain : u.chainLen c.lastForwarded = (n, some firstAt)

/-- The last switch is at least the dwell time ago. -/
def Dwelt : Prop := ∀ t ∈ c.lastSwitch, c.minDwell ≤ now - t

/-- The active is a priority peer. -/
def OnPriority : Prop := ∃ u, c.ups.lookup c.active = some u ∧ u.preferred = true

structure MayReplace (id : Nat) (u : Upstream) (n firstAt : Nat) : Prop where
  ready : c.Ready id u n firstAt
  held : activeDead = true ∨ c.stall ≤ now - firstAt

structure MayReturn (id : Nat) (u : Upstream) : Prop where
  ready : ∃ n firstAt, c.Ready id u n firstAt
  dwelt : c.Dwelt now
  priority : u.preferred = true
  fromPool : ¬ c.OnPriority

structure MayOvertake (id : Nat) (u : Upstream) (m : Int) : Prop where
  ready : ∃ n firstAt, c.Ready id u n firstAt
  dwelt : c.Dwelt now
  fair : u.preferred = true ∨ ¬ c.OnPriority
  lead : u.medianLead = some m
  enough : asMillis c.lag ≤ m

/-- The decision at `now`. -/
inductive Policy : Option (Nat × SwitchReason) → Prop
  | replace {id : Nat} {u : Upstream} {n firstAt : Nat} (started : c.lastForwarded ≠ 0)
      (may : c.MayReplace now activeDead id u n firstAt)
      (best : ∀ id' u' n' firstAt', c.MayReplace now activeDead id' u' n' firstAt' →
        rank (leadOf u') n' firstAt' ≤ rank (leadOf u) n firstAt) :
      Policy (some (id, if activeDead then .activeDead else .stall))
  | back {id : Nat} {u : Upstream} (started : c.lastForwarded ≠ 0)
      (noReplace : ∀ id' u' n' firstAt', ¬ c.MayReplace now activeDead id' u' n' firstAt')
      (may : c.MayReturn now id u) (best : ∀ id' u', c.MayReturn now id' u' → leadOf u' ≤ leadOf u) :
      Policy (some (id, .preferred))
  | overtake {id : Nat} {u : Upstream} {m : Int} (started : c.lastForwarded ≠ 0)
      (noReplace : ∀ id' u' n' firstAt', ¬ c.MayReplace now activeDead id' u' n' firstAt')
      (noReturn : ∀ id' u', ¬ c.MayReturn now id' u')
      (may : c.MayOvertake now id u m) (best : ∀ id' u' m', c.MayOvertake now id' u' m' → m' ≤ m) :
      Policy (some (id, .lag))
  | stay (h : c.lastForwarded = 0 ∨ (∀ id' u' n' firstAt', ¬ c.MayReplace now activeDead id' u' n' firstAt') ∧
        (∀ id' u', ¬ c.MayReturn now id' u') ∧ ∀ id' u' m', ¬ c.MayOvertake now id' u' m') :
      Policy none

/-! ## 2. One upstream of the loop -/

/-- The chain length and its start, for an upstream the loop does not skip. -/
def candidate (e : Nat × Upstream) : Option (Nat × Nat) :=
  if e.1 = c.active ∨ e.2.verified < MIN_VERIFIED then none
  else
    match e.2.chainLen c.lastForwarded with
    | (_, none) => none
    | (n, some firstAt) => some (n, firstAt)

def replaceEntry (e : Nat × Upstream) : Option (Nat × Int × Nat × Nat) :=
  (c.candidate e).bind fun at_ =>
    if activeDead ∨ c.stall ≤ now - at_.2 then some (e.1, leadOf e.2, at_.1, at_.2) else none

def returnEntry (e : Nat × Upstream) : Option (Nat × Int) :=
  (c.candidate e).bind fun _ =>
    if c.dwellOk now ∧ e.2.preferred ∧ !c.activePreferred then some (e.1, leadOf e.2) else none

def overtakeEntry (e : Nat × Upstream) : Option (Nat × Int) :=
  (c.candidate e).bind fun _ =>
    if c.dwellOk now ∧ (e.2.preferred ∨ !c.activePreferred) then
      e.2.medianLead.bind fun m => if asMillis c.lag ≤ m then some (e.1, m) else none
    else none

def replaceKey (b : Nat × Int × Nat × Nat) : Int ×ₗ Nat ×ₗ Natᵒᵈ := rank b.2.1 b.2.2.1 b.2.2.2

theorem rank_lt {lead bl : Int} {n firstAt bn bat : Nat} :
    rank bl bn bat < rank lead n firstAt ↔ bl < lead ∨ lead = bl ∧ (bn < n ∨ n = bn ∧ firstAt < bat) := by
  simp only [rank, Prod.Lex.toLex_lt_toLex, OrderDual.toDual_lt_toDual, @eq_comm _ bl, @eq_comm _ bn]

/-- A candidate for one of the bests, if it is one; the others stay. -/
theorem stallBest_update (stall : Option (Nat × Int × Nat × Nat)) (lag preferred : Option (Nat × Int)) (C : Prop)
    [Decidable C] (id : Nat) (lead : Int) (n firstAt : Nat) :
    (if C then
      if stallBetter lead n firstAt stall then Picks.mk (some (id, lead, n, firstAt)) lag preferred
      else ⟨stall, lag, preferred⟩
    else ⟨stall, lag, preferred⟩) =
    ⟨(if C then some (id, lead, n, firstAt) else none).elim stall (Best.keep replaceKey stall), lag, preferred⟩ := by
  by_cases hC : C
  · rcases stall with _ | ⟨id', bl, bn, bat⟩
    · simp [hC, stallBetter, Best.keep]
    · by_cases hlt : rank bl bn bat < rank lead n firstAt
      · simp [hC, stallBetter, Best.keep, replaceKey, hlt, ← rank_lt]
      · simp [hC, stallBetter, Best.keep, replaceKey, hlt, ← rank_lt]
  · simp [hC]

theorem preferredBest_update (stall : Option (Nat × Int × Nat × Nat)) (lag preferred : Option (Nat × Int)) (C : Prop)
    [Decidable C] (id : Nat) (lead : Int) :
    (if C then
      if leadBetter lead preferred then Picks.mk stall lag (some (id, lead)) else ⟨stall, lag, preferred⟩
    else ⟨stall, lag, preferred⟩) =
    ⟨stall, lag, (if C then some (id, lead) else none).elim preferred (Best.keep Prod.snd preferred)⟩ := by
  by_cases hC : C
  · rcases preferred with _ | ⟨id', b⟩
    · simp [hC, leadBetter, Best.keep]
    · by_cases hlt : b < lead
      · simp [hC, leadBetter, Best.keep, hlt]
      · simp [hC, leadBetter, Best.keep, hlt]
  · simp [hC]

theorem lagBest_update (stall : Option (Nat × Int × Nat × Nat)) (lag preferred : Option (Nat × Int)) (C : Prop)
    [Decidable C] (id : Nat) (m : Int) :
    (if C ∧ leadBetter m lag then Picks.mk stall (some (id, m)) preferred else ⟨stall, lag, preferred⟩) =
    ⟨stall, (if C then some (id, m) else none).elim lag (Best.keep Prod.snd lag), preferred⟩ := by
  by_cases hC : C
  · rcases lag with _ | ⟨id', b⟩
    · simp [hC, leadBetter, Best.keep]
    · by_cases hlt : b < m
      · simp [hC, leadBetter, Best.keep, hlt]
      · simp [hC, leadBetter, Best.keep, hlt]
  · simp [hC]

/-- **The loop body.**  Each of the three bests takes its own candidates. -/
theorem pickStep_eq (p : Picks) (e : Nat × Upstream) :
    c.pickStep now activeDead p e =
      { stallBest := (c.replaceEntry now activeDead e).elim p.stallBest (Best.keep replaceKey p.stallBest)
        preferredBest := (c.returnEntry now e).elim p.preferredBest (Best.keep Prod.snd p.preferredBest)
        lagBest := (c.overtakeEntry now e).elim p.lagBest (Best.keep Prod.snd p.lagBest) } := by
  obtain ⟨id, u⟩ := e
  obtain ⟨stall, lag, preferred⟩ := p
  by_cases hskip : id = c.active ∨ u.verified < MIN_VERIFIED
  · simp [pickStep, replaceEntry, returnEntry, overtakeEntry, candidate, hskip]
  rcases hchain : u.chainLen c.lastForwarded with ⟨n, _ | firstAt⟩
  · simp [pickStep, replaceEntry, returnEntry, overtakeEntry, candidate, hskip, hchain]
  have hcandidate : c.candidate (id, u) = some (n, firstAt) := by
    simp only [candidate, if_neg hskip, hchain]
  simp only [pickStep, replaceEntry, returnEntry, overtakeEntry, hcandidate, if_neg hskip, hchain, Option.bind_some,
    stallBest_update, preferredBest_update]
  by_cases hover : c.dwellOk now ∧ (u.preferred ∨ !c.activePreferred)
  · rw [if_pos hover, if_pos hover]
    cases hlead : u.medianLead with
    | none => simp only [leadOf, hlead, Option.bind_none, Option.elim_none]
    | some m => simp only [leadOf, hlead, lagBest_update, Option.bind_some]
  · rw [if_neg hover, if_neg hover]
    rfl

theorem foldl_pickStep (order : List (Nat × Upstream)) (p : Picks) :
    order.foldl (c.pickStep now activeDead) p =
      { stallBest := (order.filterMap (c.replaceEntry now activeDead)).foldl (Best.keep replaceKey) p.stallBest
        preferredBest := (order.filterMap (c.returnEntry now)).foldl (Best.keep Prod.snd) p.preferredBest
        lagBest := (order.filterMap (c.overtakeEntry now)).foldl (Best.keep Prod.snd) p.lagBest } := by
  induction order generalizing p with
  | nil => rfl
  | cons e order ih => rw [List.foldl_cons, ih, pickStep_eq, Best.foldl_filterMap_cons, Best.foldl_filterMap_cons,
      Best.foldl_filterMap_cons]

/-! ## 3. The candidates are those the policy allows -/

/-- `pick_switch` with the upstreams in a given order. -/
def pickSwitchOver (order : List (Nat × Upstream)) : Option (Nat × SwitchReason) :=
  if c.lastForwarded = 0 then none
  else
    let p := order.foldl (c.pickStep now activeDead) {}
    match p.stallBest, p.preferredBest, p.lagBest with
    | some (id, _), _, _ => some (id, if activeDead then .activeDead else .stall)
    | none, some (id, _), _ => some (id, .preferred)
    | none, none, some (id, _) => some (id, .lag)
    | none, none, none => none

theorem pickSwitch_eq_over : c.pickSwitch now activeDead = c.pickSwitchOver now activeDead (KeyMap.toList c.ups) := rfl

end

section
variable {c : Core} {now : Nat} {activeDead : Bool}

theorem candidate_eq_some {e : Nat × Upstream} {n firstAt : Nat} :
    c.candidate e = some (n, firstAt) ↔
      e.1 ≠ c.active ∧ MIN_VERIFIED ≤ e.2.verified ∧ e.2.chainLen c.lastForwarded = (n, some firstAt) := by
  unfold candidate
  by_cases hskip : e.1 = c.active ∨ e.2.verified < MIN_VERIFIED
  · rw [if_pos hskip]
    simp only [reduceCtorEq, false_iff, not_and]
    intro hstandby hverified
    exact absurd hskip (not_or.mpr ⟨hstandby, not_lt.mpr hverified⟩)
  · rw [if_neg hskip]
    obtain ⟨hstandby, hverified⟩ := not_or.mp hskip
    rcases e.2.chainLen c.lastForwarded with ⟨n', _ | firstAt'⟩
    · simp
    · simp [hstandby, not_lt.mp hverified]

theorem candidate_iff_ready {id : Nat} {u : Upstream} {n firstAt : Nat} (hu : c.ups.lookup id = some u) :
    c.candidate (id, u) = some (n, firstAt) ↔ c.Ready id u n firstAt := by
  rw [candidate_eq_some]
  constructor
  · rintro ⟨hstandby, hverified, hchain⟩
    exact ⟨hu, hstandby, hverified, hchain⟩
  · intro h
    exact ⟨h.standby, h.verified, h.chain⟩

theorem dwellOk_iff : c.dwellOk now = true ↔ c.Dwelt now := by
  unfold dwellOk Dwelt
  cases c.lastSwitch with
  | none => simp
  | some t => simp

theorem activePreferred_iff : c.activePreferred = true ↔ c.OnPriority := by
  unfold activePreferred OnPriority
  cases c.ups.lookup c.active with
  | none => simp
  | some u => simp

theorem replaceEntry_iff {id : Nat} {u : Upstream} (hu : c.ups.lookup id = some u) {b : Nat × Int × Nat × Nat} :
    c.replaceEntry now activeDead (id, u) = some b ↔
      ∃ n firstAt, b = (id, leadOf u, n, firstAt) ∧ c.MayReplace now activeDead id u n firstAt := by
  simp only [replaceEntry, Option.bind_eq_some_iff, Prod.exists, candidate_iff_ready hu, Option.ite_none_right_eq_some,
    Option.some.injEq]
  constructor
  · rintro ⟨n, firstAt, hready, hheld, rfl⟩
    exact ⟨n, firstAt, rfl, hready, hheld⟩
  · rintro ⟨n, firstAt, rfl, hready, hheld⟩
    exact ⟨n, firstAt, hready, hheld, rfl⟩

theorem returnEntry_iff {id : Nat} {u : Upstream} (hu : c.ups.lookup id = some u) {b : Nat × Int} :
    c.returnEntry now (id, u) = some b ↔ b = (id, leadOf u) ∧ c.MayReturn now id u := by
  simp only [returnEntry, Option.bind_eq_some_iff, Prod.exists, candidate_iff_ready hu, Option.ite_none_right_eq_some,
    Option.some.injEq, dwellOk_iff, Bool.not_eq_true', Bool.eq_false_iff, ne_eq, activePreferred_iff]
  constructor
  · rintro ⟨n, firstAt, hready, ⟨hdwelt, hpriority, hpool⟩, rfl⟩
    exact ⟨rfl, ⟨n, firstAt, hready⟩, hdwelt, hpriority, hpool⟩
  · rintro ⟨rfl, ⟨n, firstAt, hready⟩, hdwelt, hpriority, hpool⟩
    exact ⟨n, firstAt, hready, ⟨hdwelt, hpriority, hpool⟩, rfl⟩

theorem overtakeEntry_iff {id : Nat} {u : Upstream} (hu : c.ups.lookup id = some u) {b : Nat × Int} :
    c.overtakeEntry now (id, u) = some b ↔ ∃ m, b = (id, m) ∧ c.MayOvertake now id u m := by
  simp only [overtakeEntry, Option.bind_eq_some_iff, Prod.exists, candidate_iff_ready hu,
    Option.ite_none_right_eq_some, Option.some.injEq, dwellOk_iff, Bool.not_eq_true', Bool.eq_false_iff, ne_eq,
    activePreferred_iff]
  constructor
  · rintro ⟨n, firstAt, hready, ⟨hdwelt, hfair⟩, m, hlead, henough, rfl⟩
    exact ⟨m, rfl, ⟨n, firstAt, hready⟩, hdwelt, hfair, hlead, henough⟩
  · rintro ⟨m, rfl, ⟨n, firstAt, hready⟩, hdwelt, hfair, hlead, henough⟩
    exact ⟨n, firstAt, hready, ⟨hdwelt, hfair⟩, m, hlead, henough, rfl⟩

theorem MayReturn.known {id : Nat} {u : Upstream} (h : c.MayReturn now id u) : c.ups.lookup id = some u := by
  obtain ⟨n, firstAt, hready⟩ := h.ready
  exact hready.known

theorem MayOvertake.known {id : Nat} {u : Upstream} {m : Int} (h : c.MayOvertake now id u m) :
    c.ups.lookup id = some u := by
  obtain ⟨n, firstAt, hready⟩ := h.ready
  exact hready.known

/-- **The loop follows the policy**, in whatever order it meets the upstreams. -/
theorem pickSwitchOver_policy {order : List (Nat × Upstream)} (horder : order.Perm (KeyMap.toList c.ups)) :
    c.Policy now activeDead (c.pickSwitchOver now activeDead order) := by
  have hmem : ∀ {id u}, (id, u) ∈ order ↔ c.ups.lookup id = some u := by
    intro id u
    rw [horder.mem_iff, KeyMap.mem_toList]
  by_cases hstarted : c.lastForwarded = 0
  · rw [pickSwitchOver, if_pos hstarted]
    exact .stay (Or.inl hstarted)
  simp only [pickSwitchOver, if_neg hstarted, foldl_pickStep]
  rcases Best.foldl_filterMap (c.replaceEntry now activeDead) replaceKey order with
    ⟨hnone, hfold⟩ | ⟨⟨id, u⟩, he, b, hentry, hfold, hbest⟩
  · have hreplace : ∀ id' u' n' firstAt', ¬ c.MayReplace now activeDead id' u' n' firstAt' := by
      intro id' u' n' firstAt' hmay
      have hsome := (replaceEntry_iff hmay.ready.known).mpr ⟨n', firstAt', rfl, hmay⟩
      rw [hnone _ (hmem.mpr hmay.ready.known)] at hsome
      cases hsome
    rcases Best.foldl_filterMap (c.returnEntry now) Prod.snd order with
      ⟨hnone', hfold'⟩ | ⟨⟨id, u⟩, he, b, hentry, hfold', hbest⟩
    · have hreturn : ∀ id' u', ¬ c.MayReturn now id' u' := by
        intro id' u' hmay
        have hsome := (returnEntry_iff hmay.known).mpr ⟨rfl, hmay⟩
        rw [hnone' _ (hmem.mpr hmay.known)] at hsome
        cases hsome
      rcases Best.foldl_filterMap (c.overtakeEntry now) Prod.snd order with
        ⟨hnone'', hfold''⟩ | ⟨⟨id, u⟩, he, b, hentry, hfold'', hbest⟩
      · have hovertake : ∀ id' u' m', ¬ c.MayOvertake now id' u' m' := by
          intro id' u' m' hmay
          have hsome := (overtakeEntry_iff hmay.known).mpr ⟨m', rfl, hmay⟩
          rw [hnone'' _ (hmem.mpr hmay.known)] at hsome
          cases hsome
        rw [hfold, hfold', hfold'']
        exact .stay (Or.inr ⟨hreplace, hreturn, hovertake⟩)
      · obtain ⟨m, rfl, hmay⟩ := (overtakeEntry_iff (hmem.mp he)).mp hentry
        rw [hfold, hfold', hfold'']
        refine .overtake hstarted hreplace hreturn hmay ?_
        intro id' u' m' hmay'
        exact hbest _ (hmem.mpr hmay'.known) _ ((overtakeEntry_iff hmay'.known).mpr ⟨m', rfl, hmay'⟩)
    · obtain ⟨rfl, hmay⟩ := (returnEntry_iff (hmem.mp he)).mp hentry
      rw [hfold, hfold']
      refine .back hstarted hreplace hmay ?_
      intro id' u' hmay'
      exact hbest _ (hmem.mpr hmay'.known) _ ((returnEntry_iff hmay'.known).mpr ⟨rfl, hmay'⟩)
  · obtain ⟨n, firstAt, rfl, hmay⟩ := (replaceEntry_iff (hmem.mp he)).mp hentry
    rw [hfold]
    refine .replace hstarted hmay ?_
    intro id' u' n' firstAt' hmay'
    exact hbest _ (hmem.mpr hmay'.ready.known) _ ((replaceEntry_iff hmay'.ready.known).mpr ⟨n', firstAt', rfl, hmay'⟩)

/-- Whatever the reason, the pick is a verified standby that continues the chain. -/
theorem Policy.ready {id : Nat} {reason : SwitchReason} (h : c.Policy now activeDead (some (id, reason))) :
    ∃ u n firstAt, c.Ready id u n firstAt := by
  generalize hpick : some (id, reason) = pick at h
  cases h with
  | replace _ may =>
    cases hpick
    exact ⟨_, _, _, may.ready⟩
  | back _ _ may =>
    cases hpick
    exact ⟨_, may.ready⟩
  | overtake _ _ _ may =>
    cases hpick
    exact ⟨_, may.ready⟩
  | stay => cases hpick

/-- What the policy allows for these two reasons includes the dwell. -/
theorem Policy.dwelt {id : Nat} {reason : SwitchReason}
    (h : c.Policy now activeDead (some (id, reason))) (hreason : reason = .lag ∨ reason = .preferred) :
    c.Dwelt now := by
  generalize hpick : some (id, reason) = pick at h
  cases h with
  | replace =>
    cases hpick
    cases activeDead <;> simp at hreason
  | back _ _ may => exact may.dwelt
  | overtake _ _ _ may => exact may.dwelt
  | stay => cases hpick

theorem pickSwitch_policy {id : Nat} {reason : SwitchReason} (h : c.pickSwitch now activeDead = some (id, reason)) :
    c.Policy now activeDead (some (id, reason)) := by
  rw [← h, pickSwitch_eq_over]
  exact pickSwitchOver_policy (List.Perm.refl _)

end

/-! ## 4. Runs -/

/-- The calls of the core other than a switch. -/
inductive Op where
  | activeBlock (round : UInt32) (hash : UInt64) (at_ : Nat)
  | standbyBlock (id : Nat) (round parent : UInt32) (hash : UInt64) (at_ : Nat) (frame : List UInt8)
  | addStandby (id : Nat) (ip : String)
  | markPreferred (id : Nat)
  | remove (id : Nat)

def apply (c : Core) : Op → Core
  | .activeBlock round hash at_ => (c.onActiveBlock round hash at_).1
  | .standbyBlock id round parent hash at_ frame => (c.onStandbyBlock id round parent hash at_ frame).1
  | .addStandby id ip => c.addStandby id ip
  | .markPreferred id => c.markPreferred id
  | .remove id => (c.remove id).2

/-- Only a switch touches the dwell timer. -/
theorem apply_timer (c : Core) (op : Op) :
    (c.apply op).lastSwitch = c.lastSwitch ∧ (c.apply op).minDwell = c.minDwell := by
  cases op with
  | activeBlock round hash at_ =>
    simp only [apply, onActiveBlock]
    split
    · exact ⟨rfl, rfl⟩
    · exact ⟨rfl, rfl⟩
  | standbyBlock id round parent hash at_ frame =>
    simp only [apply, onStandbyBlock]
    split
    · exact ⟨rfl, rfl⟩
    · exact ⟨rfl, rfl⟩
  | addStandby id ip => exact ⟨rfl, rfl⟩
  | markPreferred id => exact ⟨rfl, rfl⟩
  | remove id => exact ⟨rfl, rfl⟩

theorem replay_timer (chain : List (UInt32 × Ahead)) (c : Core) :
    (replay chain c).1.lastSwitch = c.lastSwitch ∧ (replay chain c).1.minDwell = c.minDwell := by
  induction chain generalizing c with
  | nil => exact ⟨rfl, rfl⟩
  | cons p chain ih => exact ih _

theorem switchTo_timer {c c' : Core} {id now : Nat} {frames : List (List UInt8)} {bad : List (Nat × UInt32)}
    (h : c.switchTo id now = some (c', frames, bad)) : c'.lastSwitch = some now ∧ c'.minDwell = c.minDwell := by
  unfold switchTo at h
  split at h
  · cases h
  split at h
  · cases h
  split at h <;> cases h
  exact replay_timer ..

end Core

/-- An order of iteration: any rearrangement of the map's entries. -/
def Order : Type := { f : List (Nat × Upstream) → List (Nat × Upstream) // ∀ l, (f l).Perm l }

/-- The core of a session and the switches it made, each with its instant. -/
structure Driven where
  core : Core
  switches : List (Nat × SwitchReason)

inductive Drive where
  | op (op : Core.Op)
  | pick (order : Order) (now : Nat) (activeDead : Bool)

namespace Driven

def start (active : Nat) (ip : String) (lastForwarded : UInt32) (stall lag minDwell : Nat) : Driven where
  core := Core.new active ip lastForwarded stall lag minDwell
  switches := []

/-- The session switches where `pick_switch` says, and at no other time. -/
def step (s : Driven) : Drive → Option Driven
  | .op op => some { s with core := s.core.apply op }
  | .pick order now activeDead =>
    match s.core.pickSwitchOver now activeDead (order.1 (KeyMap.toList s.core.ups)) with
    | none => some s
    | some (id, reason) =>
      match s.core.switchTo id now with
      | none => some s
      | some (core, _, _) => some { core := core, switches := s.switches ++ [(now, reason)] }

/-- Of two switches in a row the later one, if not forced, waited out the dwell time. -/
def Spaced (minDwell : Nat) (a b : Nat × SwitchReason) : Prop :=
  b.2 = .lag ∨ b.2 = .preferred → minDwell ≤ b.1 - a.1

structure Inv (minDwell : Nat) (s : Driven) : Prop where
  dwell : s.core.minDwell = minDwell
  last : s.core.lastSwitch = s.switches.getLast?.map Prod.fst
  spaced : s.switches.IsChain (Spaced minDwell)

theorem Inv.step {minDwell : Nat} {s t : Driven} {e : Drive} (h : Inv minDwell s) (hs : Driven.step s e = some t) :
    Inv minDwell t := by
  cases e with
  | op op =>
    cases hs
    obtain ⟨hlast, hdwell⟩ := s.core.apply_timer op
    exact ⟨hdwell.trans h.dwell, hlast.trans h.last, h.spaced⟩
  | pick order now activeDead =>
    have hpolicy : s.core.Policy now activeDead
        (s.core.pickSwitchOver now activeDead (order.1 (KeyMap.toList s.core.ups))) :=
      Core.pickSwitchOver_policy (order.2 _)
    simp only [Driven.step] at hs
    split at hs
    · cases hs
      exact h
    rename_i id reason hpick
    split at hs
    · cases hs
      exact h
    rename_i core _ _ hswitch
    cases hs
    obtain ⟨hlast, hdwell⟩ := Core.switchTo_timer hswitch
    refine ⟨hdwell.trans h.dwell, ?_, ?_⟩
    · rw [hlast, List.getLast?_concat]
      rfl
    · refine h.spaced.append (List.isChain_singleton _) ?_
      intro a ha b hb hreason
      cases hb
      rw [hpick] at hpolicy
      have hdwelt := hpolicy.dwelt hreason
      rw [← h.dwell]
      apply hdwelt a.1
      rw [h.last, ha]
      rfl

end Driven

/-- **The switch policy.**  Whatever the order of iteration, `pick_switch` decides by the
    policy; and over any run whose switches it decides, two in a row of which the later is
    for speed or back to a priority peer are at least the dwell time apart. -/
theorem pickSwitch_follows_policy :
    (∀ (c : Core) (now : Nat) (activeDead : Bool),
      c.pickSwitch now activeDead = c.pickSwitchOver now activeDead (KeyMap.toList c.ups) ∧
      ∀ order : Order, c.Policy now activeDead (c.pickSwitchOver now activeDead (order.1 (KeyMap.toList c.ups)))) ∧
    ∀ (active : Nat) (ip : String) (lastForwarded : UInt32) (stall lag minDwell : Nat) (es : List Drive) (t : Driven),
      Machine.Run Driven.step (fun _ _ => True) (Driven.start active ip lastForwarded stall lag minDwell) es t →
      t.switches.IsChain (Driven.Spaced minDwell) := by
  constructor
  · intro c now activeDead
    refine ⟨Core.pickSwitch_eq_over c now activeDead, ?_⟩
    intro order
    exact Core.pickSwitchOver_policy (order.2 _)
  · intro active ip lastForwarded stall lag minDwell es t hrun
    have hstart : Driven.Inv minDwell (Driven.start active ip lastForwarded stall lag minDwell) :=
      ⟨rfl, rfl, List.IsChain.nil⟩
    exact (hrun.invariant hstart fun a e b ha _ hs => ha.step hs).spaced

/-- Two standbys in turn: the first takes over from a dead active, the second, a priority
    peer, once the dwell time is over. -/
def twoSwitches : List Drive :=
  [.op (.addStandby 1 "b"), .op (.standbyBlock 1 11 10 111 0 []), .op (.standbyBlock 1 12 11 112 0 []),
    .op (.standbyBlock 1 13 12 113 0 []), .op (.standbyBlock 1 14 13 114 0 []), .op (.activeBlock 11 111 0),
    .op (.activeBlock 12 112 0), .op (.activeBlock 13 113 0), .pick ⟨id, fun l => List.Perm.refl l⟩ 1000000000 true,
    .op (.addStandby 2 "c"), .op (.markPreferred 2), .op (.standbyBlock 2 15 14 115 12000000000 []),
    .op (.standbyBlock 2 16 15 116 12000000000 []), .op (.standbyBlock 2 17 16 117 12000000000 []),
    .op (.standbyBlock 2 18 17 118 12000000000 []), .op (.activeBlock 15 115 12000000000),
    .op (.activeBlock 16 116 12000000000), .op (.activeBlock 17 117 12000000000),
    .pick ⟨List.reverse, fun l => List.reverse_perm l⟩ 12100000000 false]

theorem pickSwitch_follows_policy_twoSwitches :
    ∃ t, Machine.Run Driven.step (fun _ _ => True) (Driven.start 0 "a" 10 400000000 150000000 10000000000) twoSwitches t ∧
      t.switches = [(1000000000, .activeDead), (12100000000, .preferred)] ∧
      t.switches.IsChain (Driven.Spaced 10000000000) := by
  have hexec : (Machine.exec Driven.step (fun _ _ => True) (Driven.start 0 "a" 10 400000000 150000000 10000000000)
      twoSwitches).map Driven.switches = some [(1000000000, .activeDead), (12100000000, .preferred)] := by
    decide
  obtain ⟨t, ht, hswitches⟩ := Option.map_eq_some_iff.mp hexec
  have hrun := Machine.Run.of_exec ht
  exact ⟨t, hrun, hswitches, pickSwitch_follows_policy.2 0 "a" 10 400000000 150000000 10000000000 twoSwitches t hrun⟩

end Hypersync.Failover
