import Hypersync.Gateway.Vetting
import Hypersync.Lib.Cas
import Hypersync.Lib.Machine

/-!
# How long a cache replay's live floor holds

A replay raises the node's live floor to the last round of its blob and starts a
timer that clears it after `CACHE_FLOOR_TTL`; a transparent bootstrap clears it at
once.  A timer knows the replay it belongs to only by the round: it clears whatever
equal floor it finds.  So the timer of a replay before a bootstrap also ends the floor
of a later replay of the same blob, and `replayed_floor_cut_short` is such a run.  A
replay that finds its floor in force already starts no timer, so that floor ends with the
replay before it.  Where every replay that has a floor finds the live one below it, and no
pending timer for its round, each floor holds for its whole time (`replayed_floor_lasts`).

There a raise is one step.  In the code it is a loop around a compare-and-exchange, run
by any number of connections at once; `raise_round_floor_linearizable` says that nobody
can tell the difference.
-/

namespace Hypersync.Gateway

/-! ## 1. The floor and its timers -/

/-- In nanoseconds. -/
def CACHE_FLOOR_TTL : Nat := 10 * 60 * 1000000000

/-- A task that sleeps until `due` and then clears the floor if it is `floor`. -/
structure FloorTimer where
  floor : UInt32
  due : Nat
deriving DecidableEq, Repr

/-- A node's live floor, the timers pending for it and the clock. -/
structure FloorState where
  now : Nat := 0
  liveFloor : UInt32 := 0
  timers : List FloorTimer := []
deriving DecidableEq, Repr

inductive FloorEvent where
  /-- A replay is through; `scanned` is the highest round of its blob, or 0. -/
  | replay (scanned netTip : UInt32)
  | bootstrap
  | fire (timer : FloorTimer)
  /-- Time passes, but not beyond the instant a timer is due. -/
  | advance (time : Nat)
deriving DecidableEq, Repr

/-- The floor afterwards, and whether it was raised. -/
def raiseRoundFloor (floor round : UInt32) : UInt32 × Bool :=
  if floor < round then (round, true) else (floor, false)

namespace FloorState

/-- The end of `replay_cache_then_live`'s replay. -/
def replayed (s : FloorState) (scanned netTip : UInt32) : FloorState :=
  let cacheFloor := boundedCacheFloor scanned netTip
  if cacheFloor ≠ 0 then
    match raiseRoundFloor s.liveFloor cacheFloor with
    | (floor, true) =>
      { s with liveFloor := floor, timers := s.timers ++ [⟨cacheFloor, s.now + CACHE_FLOOR_TTL⟩] }
    | (floor, false) => { s with liveFloor := floor }
  else s

/-- `compare_exchange(cache_floor, 0)`. -/
def fired (s : FloorState) (timer : FloorTimer) : FloorState :=
  { s with
    liveFloor := if s.liveFloor = timer.floor then 0 else s.liveFloor
    timers := s.timers.erase timer }

def step (s : FloorState) : FloorEvent → Option FloorState
  | .replay scanned netTip => some (s.replayed scanned netTip)
  | .bootstrap => some { s with liveFloor := 0 }
  | .fire timer => if timer ∈ s.timers ∧ timer.due ≤ s.now then some (s.fired timer) else none
  | .advance time => if s.now ≤ time ∧ ∀ t ∈ s.timers, time ≤ t.due then some { s with now := time } else none

/-- A replay that has a floor finds the live floor below it and no pending timer for its
    round. -/
def Unshared (s : FloorState) : FloorEvent → Prop
  | .replay scanned netTip =>
    boundedCacheFloor scanned netTip ≠ 0 →
      s.liveFloor < boundedCacheFloor scanned netTip ∧ ∀ t ∈ s.timers, t.floor ≠ boundedCacheFloor scanned netTip
  | _ => True

instance decidableUnshared (s : FloorState) : (e : FloorEvent) → Decidable (s.Unshared e)
  | .replay _ _ => inferInstanceAs (Decidable (_ → _))
  | .bootstrap => .isTrue trivial
  | .fire _ => .isTrue trivial
  | .advance _ => .isTrue trivial

/-! ## 2. One step -/

variable {s s' : FloorState} {scanned netTip : UInt32}

theorem ne_zero_of_lt {floor round : UInt32} (h : floor < round) : round ≠ 0 := by
  rintro rfl
  exact absurd h UInt32.not_lt_zero

theorem replayed_of_lt (h : s.liveFloor < boundedCacheFloor scanned netTip) :
    s.replayed scanned netTip = { s with
      liveFloor := boundedCacheFloor scanned netTip
      timers := s.timers ++ [⟨boundedCacheFloor scanned netTip, s.now + CACHE_FLOOR_TTL⟩] } := by
  simp only [replayed, raiseRoundFloor, if_pos (ne_zero_of_lt h), if_pos h]

theorem replayed_of_not_lt (h : ¬ s.liveFloor < boundedCacheFloor scanned netTip) : s.replayed scanned netTip = s := by
  simp only [replayed, raiseRoundFloor, if_neg h, ite_self]

/-- What a step can do, with the condition under which it does it. -/
inductive Stepped (s : FloorState) : FloorEvent → FloorState → Prop
  | raised (scanned netTip : UInt32) (hlt : s.liveFloor < boundedCacheFloor scanned netTip) :
      Stepped s (.replay scanned netTip) { s with
        liveFloor := boundedCacheFloor scanned netTip
        timers := s.timers ++ [⟨boundedCacheFloor scanned netTip, s.now + CACHE_FLOOR_TTL⟩] }
  | kept (scanned netTip : UInt32) : Stepped s (.replay scanned netTip) s
  | bootstrap : Stepped s .bootstrap { s with liveFloor := 0 }
  | fired (t : FloorTimer) (hmem : t ∈ s.timers) (hdue : t.due ≤ s.now) : Stepped s (.fire t) (s.fired t)
  | advance (time : Nat) (hle : s.now ≤ time) (hdue : ∀ t ∈ s.timers, time ≤ t.due) :
      Stepped s (.advance time) { s with now := time }

theorem step_eq_some {e : FloorEvent} (h : s.step e = some s') : s.Stepped e s' := by
  cases e with
  | replay scanned netTip =>
    cases h
    by_cases hlt : s.liveFloor < boundedCacheFloor scanned netTip
    · rw [replayed_of_lt hlt]
      exact .raised scanned netTip hlt
    · rw [replayed_of_not_lt hlt]
      exact .kept scanned netTip
  | bootstrap =>
    cases h
    exact .bootstrap
  | fire t =>
    obtain ⟨hfire, ⟨⟩⟩ := Option.ite_none_right_eq_some.mp h
    exact .fired t hfire.1 hfire.2
  | advance time =>
    obtain ⟨hadvance, ⟨⟩⟩ := Option.ite_none_right_eq_some.mp h
    exact .advance time hadvance.1 hadvance.2

/-- A timer for another round is still pending after one has fired. -/
theorem mem_fired {t u : FloorTimer} (hu : u ∈ s.timers) (hne : u.floor ≠ t.floor) : u ∈ (s.fired t).timers := by
  refine (List.mem_erase_of_ne ?_).mpr hu
  rintro rfl
  exact hne rfl

/-! ## 3. Every run -/

/-- In every run: no timer is overdue or due too late, and a floor has a timer that will
    clear it. -/
structure Timed (s : FloorState) : Prop where
  not_overdue : ∀ t ∈ s.timers, s.now ≤ t.due
  not_late : ∀ t ∈ s.timers, t.due ≤ s.now + CACHE_FLOOR_TTL
  armed : s.liveFloor ≠ 0 → ∃ t ∈ s.timers, t.floor = s.liveFloor

theorem Timed.step {e : FloorEvent} (h : s.Timed) (hs : s.step e = some s') : s'.Timed := by
  cases step_eq_some hs with
  | raised scanned netTip hlt =>
    refine ⟨?_, ?_, fun _ => ⟨_, List.mem_append_right _ List.mem_cons_self, rfl⟩⟩
    · intro t ht
      rcases List.mem_append.mp ht with ht | ht
      · exact h.not_overdue t ht
      · rw [List.mem_singleton.mp ht]
        exact Nat.le_add_right _ _
    · intro t ht
      rcases List.mem_append.mp ht with ht | ht
      · exact h.not_late t ht
      · rw [List.mem_singleton.mp ht]
  | kept scanned netTip => exact h
  | bootstrap => exact { h with armed := fun hne => absurd rfl hne }
  | fired t hmem hdue =>
    refine ⟨fun u hu => h.not_overdue u (List.mem_of_mem_erase hu), fun u hu => h.not_late u (List.mem_of_mem_erase hu), ?_⟩
    intro hne
    by_cases hsame : s.liveFloor = t.floor
    · rw [fired, if_pos hsame] at hne
      exact absurd rfl hne
    · -- the floor's own timer is not the one that fired
      have hfloor : (s.fired t).liveFloor = s.liveFloor := if_neg hsame
      rw [hfloor] at hne ⊢
      obtain ⟨u, hu, hown⟩ := h.armed hne
      exact ⟨u, mem_fired hu (hown ▸ hsame), hown⟩
  | advance time hle hdue =>
    exact ⟨hdue, fun t ht => (h.not_late t ht).trans (Nat.add_le_add_right hle _), h.armed⟩

theorem Timed.init : Timed {} :=
  ⟨fun _ ht => absurd ht List.not_mem_nil, fun _ ht => absurd ht List.not_mem_nil, fun hne => absurd rfl hne⟩

/-- Without another replay every timer was started by `last`. -/
theorem startedBy_step {last : Nat} {e : FloorEvent} (h : ∀ t ∈ s.timers, t.due ≤ last + CACHE_FLOOR_TTL)
    (hs : s.step e = some s') (hno : ∀ scanned netTip, e ≠ .replay scanned netTip) :
    ∀ t ∈ s'.timers, t.due ≤ last + CACHE_FLOOR_TTL := by
  cases step_eq_some hs with
  | raised scanned netTip _ => exact absurd rfl (hno scanned netTip)
  | kept scanned netTip => exact h
  | bootstrap => exact h
  | fired t _ _ => exact fun u hu => h u (List.mem_of_mem_erase hu)
  | advance time _ _ => exact h

/-! ## 4. Runs in which no two timers are for one round -/

/-- A floor `f` that was set at `start`: it is in force until its time is over, and the
    timer that would end it is not due earlier. -/
structure InForce (f : UInt32) (start : Nat) (s : FloorState) : Prop where
  distinct : (s.timers.map FloorTimer.floor).Nodup
  started : start ≤ s.now
  holds : s.now < start + CACHE_FLOOR_TTL →
    f ≤ s.liveFloor ∧ ∃ t ∈ s.timers, t.floor = s.liveFloor ∧ start + CACHE_FLOOR_TTL ≤ t.due

theorem distinct_step {e : FloorEvent} (h : (s.timers.map FloorTimer.floor).Nodup) (hok : s.Unshared e)
    (hs : s.step e = some s') : (s'.timers.map FloorTimer.floor).Nodup := by
  cases step_eq_some hs with
  | raised scanned netTip hlt =>
    rw [List.map_append, List.nodup_append]
    refine ⟨h, List.nodup_singleton _, ?_⟩
    intro a ha b hb heq
    obtain ⟨t, ht, rfl⟩ := List.mem_map.mp ha
    rw [List.mem_singleton.mp hb] at heq
    exact (hok (ne_zero_of_lt hlt)).2 t ht heq
  | kept scanned netTip => exact h
  | bootstrap => exact h
  | fired t _ _ => exact h.sublist (List.erase_sublist.map _)
  | advance time _ _ => exact h

theorem InForce.step {f : UInt32} {start : Nat} {e : FloorEvent} (h : InForce f start s) (hok : s.Unshared e)
    (hs : s.step e = some s') (hno : e ≠ .bootstrap) : InForce f start s' := by
  have hdistinct := distinct_step h.distinct hok hs
  cases step_eq_some hs with
  | raised scanned netTip hlt =>
    refine ⟨hdistinct, h.started, ?_⟩
    intro hnow
    exact ⟨(h.holds hnow).1.trans (UInt32.le_of_lt hlt), _, List.mem_append_right _ List.mem_cons_self, rfl,
      Nat.add_le_add_right h.started _⟩
  | kept scanned netTip => exact h
  | bootstrap => exact absurd rfl hno
  | fired t hmem hdue =>
    refine ⟨hdistinct, h.started, ?_⟩
    intro hnow
    obtain ⟨hle, u, hu, hfloor, hlate⟩ := h.holds hnow
    -- a timer that is due is not the one of the floor in force
    have hother : s.liveFloor ≠ t.floor := by
      intro heq
      have hut : u = t := List.inj_on_of_nodup_map h.distinct hu hmem (hfloor.trans heq)
      rw [hut] at hlate
      exact absurd (hlate.trans hdue) (Nat.not_le.mpr hnow)
    have hsame : (s.fired t).liveFloor = s.liveFloor := if_neg hother
    rw [hsame]
    exact ⟨hle, u, mem_fired hu (hfloor ▸ hother), hfloor, hlate⟩
  | advance time hle hdue =>
    exact ⟨hdistinct, h.started.trans hle, fun hnow => h.holds (Nat.lt_of_le_of_lt hle hnow)⟩

theorem InForce.raised (h : (s.timers.map FloorTimer.floor).Nodup) (hok : s.Unshared (.replay scanned netTip))
    (hfloor : boundedCacheFloor scanned netTip ≠ 0) :
    InForce (boundedCacheFloor scanned netTip) s.now (s.replayed scanned netTip) := by
  have hlt := (hok hfloor).1
  refine ⟨distinct_step h hok rfl, ?_, ?_⟩
  · rw [replayed_of_lt hlt]
  · rw [replayed_of_lt hlt]
    intro _
    exact ⟨UInt32.le_refl _, _, List.mem_append_right _ List.mem_cons_self, rfl, Nat.le_refl _⟩

end FloorState

/-- **A replayed floor lasts, and not longer.**  In every run of replays, bootstraps and
    timers in which every replay that has a floor finds the live floor below it and no
    pending timer for its round: after such a replay the live floor is not below its own for
    `CACHE_FLOOR_TTL`, unless a bootstrap comes in between; and when that time has passed
    since the last replay there is no floor. -/
theorem replayed_floor_lasts (es es' : List FloorEvent) (s₁ s₂ s : FloorState) (scanned netTip : UInt32)
    (hrun : Machine.Run FloorState.step FloorState.Unshared {} es s₁)
    (hok : s₁.Unshared (.replay scanned netTip)) (hreplay : s₁.step (.replay scanned netTip) = some s₂)
    (hrest : Machine.Run FloorState.step FloorState.Unshared s₂ es' s) :
    (boundedCacheFloor scanned netTip ≠ 0 → .bootstrap ∉ es' → s.now < s₁.now + CACHE_FLOOR_TTL →
      boundedCacheFloor scanned netTip ≤ s.liveFloor) ∧
    ((∀ scanned' netTip', .replay scanned' netTip' ∉ es') → s₁.now + CACHE_FLOOR_TTL < s.now → s.liveFloor = 0) := by
  have htimed₁ : s₁.Timed := hrun.invariant FloorState.Timed.init fun _ _ _ h _ hs => h.step hs
  have htimed₂ := htimed₁.step hreplay
  have htimed : s.Timed := hrest.invariant htimed₂ fun _ _ _ h _ hs => h.step hs
  constructor
  · intro hset hno hnow
    have hdistinct : (s₁.timers.map FloorTimer.floor).Nodup :=
      hrun.invariant (I := fun s => (s.timers.map FloorTimer.floor).Nodup) List.nodup_nil
        fun _ _ _ h hok hs => FloorState.distinct_step h hok hs
    cases hreplay
    have hforce := hrest.history
      (I := fun es s => FloorEvent.bootstrap ∉ es → s.InForce (boundedCacheFloor scanned netTip) s₁.now)
      (fun _ => FloorState.InForce.raised hdistinct hok hset) (by
        intro es a e b ih hok hs hno
        rw [List.mem_append, not_or] at hno
        refine (ih hno.1).step hok hs ?_
        rintro rfl
        exact hno.2 List.mem_cons_self)
    exact ((hforce hno).holds hnow).1
  · intro hno hnow
    have hstarted := hrest.history
      (I := fun es s => (∀ scanned' netTip', FloorEvent.replay scanned' netTip' ∉ es) →
        ∀ t ∈ s.timers, t.due ≤ s₁.now + CACHE_FLOOR_TTL)
      (fun _ => by
        have hnow₂ : s₂.now = s₁.now := by
          cases FloorState.step_eq_some hreplay with
          | raised _ _ _ => rfl
          | kept _ _ => rfl
        rw [← hnow₂]
        exact htimed₂.not_late) (by
        intro es a e b ih _ hs hno
        refine FloorState.startedBy_step (ih fun sc tip h => hno sc tip (List.mem_append_left _ h)) hs ?_
        rintro sc tip rfl
        exact hno sc tip (List.mem_append_right _ List.mem_cons_self))
    by_contra hne
    obtain ⟨t, ht, -⟩ := htimed.armed hne
    have := htimed.not_overdue t ht
    have := hstarted hno t ht
    omega

/-- Two blobs replayed eight minutes apart, the second one further on.  The first timer has
    fired when the second floor is five minutes old and still there. -/
theorem replayed_floor_lasts_eight :
    ∃ s₁ s, Machine.Run FloorState.step FloorState.Unshared {}
        [.replay 1000000000 1000000001, .advance 480000000000] s₁ ∧
      Machine.Run FloorState.step FloorState.Unshared (s₁.replayed 1000000300 1000000400)
        [.advance 600000000000, .fire ⟨1000000000, 600000000000⟩, .advance 780000000000] s ∧
      1000000300 ≤ s.liveFloor := by
  have hrun : Machine.Run FloorState.step FloorState.Unshared {}
      [.replay 1000000000 1000000001, .advance 480000000000]
      ⟨480000000000, 1000000000, [⟨1000000000, 600000000000⟩]⟩ := Machine.Run.of_exec (by decide)
  have hrest : Machine.Run FloorState.step FloorState.Unshared
      (FloorState.replayed ⟨480000000000, 1000000000, [⟨1000000000, 600000000000⟩]⟩ 1000000300 1000000400)
      [.advance 600000000000, .fire ⟨1000000000, 600000000000⟩, .advance 780000000000]
      ⟨780000000000, 1000000300, [⟨1000000300, 1080000000000⟩]⟩ := Machine.Run.of_exec (by decide)
  exact ⟨_, _, hrun, hrest, (replayed_floor_lasts _ _ _ _ _ 1000000300 1000000400 hrun (by decide) rfl hrest).1
    (by decide) (by decide) (by decide)⟩

/-- **An old timer ends a new floor.**  A blob is replayed, the node bootstraps from a peer
    ten seconds later, and the blob is replayed again after a minute.  The first replay's
    timer clears the floor the second one set, a minute before its time is over. -/
theorem replayed_floor_cut_short :
    ∃ (es es' : List FloorEvent) (s₁ s₂ s : FloorState),
      Machine.Run FloorState.step (fun _ _ => True) {} es s₁ ∧
      s₁.step (.replay 1000000000 1000000001) = some s₂ ∧
      s₁.liveFloor < boundedCacheFloor 1000000000 1000000001 ∧
      Machine.Run FloorState.step (fun _ _ => True) s₂ es' s ∧ .bootstrap ∉ es' ∧
      s.now < s₁.now + CACHE_FLOOR_TTL ∧ ¬ boundedCacheFloor 1000000000 1000000001 ≤ s.liveFloor := by
  refine ⟨[.replay 1000000000 1000000001, .advance 10000000000, .bootstrap, .advance 60000000000],
    [.advance 600000000000, .fire ⟨1000000000, 600000000000⟩],
    ⟨60000000000, 0, [⟨1000000000, 600000000000⟩]⟩,
    ⟨60000000000, 1000000000, [⟨1000000000, 600000000000⟩, ⟨1000000000, 660000000000⟩]⟩,
    ⟨600000000000, 0, [⟨1000000000, 660000000000⟩]⟩, ?_, by decide, by decide, ?_, by decide, by decide, by decide⟩
  · exact Machine.Run.of_exec (by decide)
  · exact Machine.Run.of_exec (by decide)

/-! ## 5. The loop behind a raise -/

/-- The condition and the exchange of the loop of `raise_round_floor`. -/
def raiseOp (round cur : UInt32) : Option UInt32 := if cur < round then some round else none

/-- What else is done to a floor. -/
inductive FloorAct where
  | store (value : UInt32)
  /-- `compare_exchange(cache_floor, 0)` -/
  | expire (floor : UInt32)
deriving DecidableEq, Repr

def FloorAct.apply : FloorAct → UInt32 → UInt32
  | .store value, _ => value
  | .expire floor, cur => if cur = floor then 0 else cur

/-- A floor, with the raises that are running and a log. -/
abbrev SharedFloor := Cas.State UInt32 FloorAct UInt32

/-- The log as a sequence of atomic raises, each with the answer it gives. -/
inductive Atomically : UInt32 → List (Cas.Entry UInt32 FloorAct) → UInt32 → Prop
  | nil (cur : UInt32) : Atomically cur [] cur
  | raise (id : Nat) (round : UInt32) {cur last : UInt32} {log : List (Cas.Entry UInt32 FloorAct)}
      (rest : Atomically (raiseRoundFloor cur round).1 log last) :
      Atomically cur (.op id round (raiseRoundFloor cur round).2 :: log) last
  | act (a : FloorAct) {cur last : UInt32} {log : List (Cas.Entry UInt32 FloorAct)}
      (rest : Atomically (a.apply cur) log last) : Atomically cur (.other a :: log) last

theorem atomically_of_replay {log : List (Cas.Entry UInt32 FloorAct)} : ∀ {cur last : UInt32},
    Cas.replay raiseOp FloorAct.apply cur log = some last → Atomically cur log last := by
  induction log with
  | nil =>
    intro cur last h
    cases h
    exact .nil cur
  | cons e log ih =>
    intro cur last h
    rw [Cas.replay, Option.bind_eq_some_iff] at h
    obtain ⟨next, hnext, hrest⟩ := h
    have hrest := ih hrest
    cases e with
    | other a =>
      cases hnext
      exact .act a hrest
    | op id round changed =>
      by_cases hlt : cur < round
      · have hraise : raiseRoundFloor cur round = (round, true) := if_pos hlt
        simp only [Cas.Entry.apply, raiseOp, if_pos hlt] at hnext
        cases changed with
        | false => cases hnext
        | true =>
          obtain rfl := Option.some.inj hnext
          have hatomic : Atomically cur (.op id round (raiseRoundFloor cur round).2 :: log) last :=
            .raise id round (by rw [hraise]; exact hrest)
          rwa [hraise] at hatomic
      · have hraise : raiseRoundFloor cur round = (cur, false) := if_neg hlt
        simp only [Cas.Entry.apply, raiseOp, if_neg hlt] at hnext
        cases changed with
        | true => cases hnext
        | false =>
          cases hnext
          have hatomic : Atomically cur (.op id round (raiseRoundFloor cur round).2 :: log) last :=
            .raise id round (by rw [hraise]; exact hrest)
          rwa [hraise] at hatomic

/-- **A raise is one step.**  However the loads and exchanges of any number of raises are
    interleaved with each other and with stores and timers: there is one order of atomic
    raises that gives the floor the same values and every caller its answer.  A raise that
    has returned is in it, with the round it was called with, one that has not been called
    is not, and it only ever grows at its end: so each raise takes effect between its call
    and its return. -/
theorem raise_round_floor_linearizable (floor : UInt32) (es es' : List (Cas.Event UInt32 FloorAct UInt32))
    (s t : SharedFloor)
    (hrun : Machine.Run (Cas.step raiseOp FloorAct.apply) (fun _ _ => True) { cell := floor } es s)
    (hrest : Machine.Run (Cas.step raiseOp FloorAct.apply) (fun _ _ => True) s es' t) :
    Atomically floor t.log t.cell ∧
    (∀ answer ∈ s.returned, ∃ round, s.calls[answer.1]? = some round ∧ Cas.Entry.op answer.1 round answer.2 ∈ s.log) ∧
    (Cas.ids t.log).Nodup ∧
    (∀ id round changed, Cas.Entry.op id round changed ∈ s.log → s.calls[id]? = some round) ∧
    s.log <+: t.log := by
  have hs := Cas.inv_of_run hrun
  have ht := Cas.inv_of_run (hrun.trans hrest)
  refine ⟨atomically_of_replay ht.replayed, ?_, ht.once, hs.called, Cas.log_isPrefix hrest⟩
  intro answer hanswer
  obtain ⟨round, hlogged⟩ := hs.answered answer hanswer
  exact ⟨round, hs.called _ _ _ hlogged, hlogged⟩

/-- Two raises load the same floor; the lower one exchanges first, so the higher one
    misses and raises it again. -/
theorem raise_round_floor_linearizable_two :
    ∃ t : SharedFloor, t.cell = 9 ∧ t.returned = [(0, true), (1, true)] ∧ Atomically 0 t.log t.cell := by
  have hrun : Machine.Run (Cas.step raiseOp FloorAct.apply) (fun _ _ => True) ({ cell := 0 } : SharedFloor)
      [.call 7, .call 9, .load ⟨0, 7, none⟩, .load ⟨1, 9, none⟩, .swap ⟨0, 7, some 0⟩, .miss ⟨1, 9, some 0⟩,
        .swap ⟨1, 9, some 7⟩]
      { cell := 9, tasks := [], calls := [7, 9], log := [.op 0 7 true, .op 1 9 true], returned := [(0, true), (1, true)] } :=
    Machine.Run.of_exec rfl
  exact ⟨_, rfl, rfl, (raise_round_floor_linearizable 0 _ [] _ _ hrun (.nil _)).1⟩

end Hypersync.Gateway
