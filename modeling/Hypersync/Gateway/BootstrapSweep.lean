import Hypersync.Lib.Fresh
import Hypersync.Lib.Machine
import Hypersync.Lib.Rotation
import Hypersync.Settings
import Mathlib.Data.List.GetD

/-!
# Which pool peers the retries of a bootstrap dial

A transparent bootstrap moves the round-robin counter on by `BOOTSTRAP_SELECT_MAX_PEERS`
and dials as many candidates: the remembered state servers and the priority peers where
the policy puts them, and the pool from the counter on.  Retries are meant to sweep the
pool.  But the entries that are not the pool's turn come out of the same window, and
the counter moves on as if they did not: on a pool of 32 peers and with one remembered
server outside it the window ends one peer short, at the same peer in every retry
(`bootstrap_retries_miss`).  `bootstrap_retries_sweep` says when the windows tile the
pool.

`select_fast_bootstrap_peer` is a machine with one event for everything that can happen
while it waits; time passes only then, and no further than to its timer.
-/

namespace Hypersync.Gateway

/-! ## 1. The candidates -/

def BOOTSTRAP_SELECT_MAX_PEERS : Nat := 32

def BOOTSTRAP_SELECT_MAX_INFLIGHT : Nat := 4

def BOOTSTRAP_SELECT_DEADLINE : Nat := 24000000000

def BOOTSTRAP_PRIORITY_HEAD_START : Nat := 8000000000

/-- Addition of `usize`, which wraps around. -/
def usizeAdd (a b : Nat) : Nat := (a + b) % (USIZE_MAX + 1)

/-- The first loop of `ordered_candidates`. -/
def headCandidates (black : Blacklist) (head : List String) : List String :=
  head.foldl (fun out ip => if black.contains ip then out else Fresh.push out ip) []

/-- The pool from `start` on. -/
def rotated (pool : List String) (start : Nat) : List String :=
  (List.range pool.length).map fun k => pool.getD (usizeAdd start k % pool.length) ""

def orderedCandidates (black : Blacklist) (head pool : List String) (start : Nat) : List String :=
  Fresh.pushAll (headCandidates black head) (rotated pool start)

def bootstrapSourceList (black : Blacklist) (policy : BootstrapPolicy) (priority remembered pool : List String)
    (start : Nat) : List String :=
  match policy with
  | .never => orderedCandidates black remembered pool start
  | .prefer => orderedCandidates black (priority ++ remembered) pool start
  | .fallback =>
    (((orderedCandidates black remembered pool start).filter fun ip => !priority.contains ip).take
      (BOOTSTRAP_SELECT_MAX_PEERS - priority.length)) ++ priority

/-! ## 2. The selection -/

/-- `acquire k` tells whether the candidate at `k`, a priority peer, has a free slot when
    its turn comes. -/
structure BootstrapArgs where
  tier : PriorityTier
  peers : List String
  start : Nat
  acquire : Nat → Bool

structure DialAttempt where
  ip : String
  isPriority : Bool
deriving DecidableEq, Repr

inductive BootstrapPc where
  | waiting (wakeAt : Nat) (poolHeld : Bool)
  | returned (selected : Option String)
deriving DecidableEq, Repr

/-- `dialed` are the candidates an attempt was started for, `refused` those that had no
    slot. -/
structure BootstrapSelect where
  clock : Nat
  started : Nat
  launched : Nat := 0
  inFlight : Nat := 0
  prioInFlight : Nat := 0
  set : List DialAttempt := []
  dialed : List String := []
  refused : List String := []
  pc : BootstrapPc := .returned none
deriving DecidableEq, Repr

/-- An attempt is joined with a peer that serves, with an error or as panicked; the timer
    of the wait fires. -/
inductive BootstrapEvent where
  | advance (now : Nat)
  | serve (a : DialAttempt)
  | fail (a : DialAttempt)
  | panic (a : DialAttempt)
  | timer
deriving DecidableEq, Repr

/-- A task of a priority peer panics. -/
def BootstrapEvent.panicsPriority : BootstrapEvent → Bool
  | .panic a => a.isPriority
  | _ => false

namespace BootstrapArgs

def limit (args : BootstrapArgs) : Nat := min args.peers.length BOOTSTRAP_SELECT_MAX_PEERS

def candidateAt (args : BootstrapArgs) (k : Nat) : String :=
  args.peers.getD (usizeAdd args.start k % args.peers.length) ""

end BootstrapArgs

namespace BootstrapSelect

def deadline (s : BootstrapSelect) : Nat := s.started + BOOTSTRAP_SELECT_DEADLINE

def poolAfter (s : BootstrapSelect) : Nat := s.started + BOOTSTRAP_PRIORITY_HEAD_START

/-- The `while` over the free places, and whether it holds the pool back. -/
def launch (args : BootstrapArgs) : Nat → BootstrapSelect → BootstrapSelect × Bool
  | 0, s => (s, false)
  | fuel + 1, s =>
    if s.launched < args.limit ∧ s.inFlight < BOOTSTRAP_SELECT_MAX_INFLIGHT then
      let ip := args.candidateAt s.launched
      let isPriority := args.tier.contains ip
      if !isPriority ∧ 0 < s.prioInFlight ∧ args.tier.exclusive ∧ s.clock < s.poolAfter then (s, true)
      else if isPriority ∧ !args.acquire s.launched then
        launch args fuel { s with launched := s.launched + 1, refused := s.refused ++ [ip] }
      else
        launch args fuel
          { s with
            launched := s.launched + 1
            inFlight := s.inFlight + 1
            prioInFlight := s.prioInFlight + if isPriority then 1 else 0
            set := s.set ++ [⟨ip, isPriority⟩]
            dialed := s.dialed ++ [ip] }
    else (s, false)

/-- The rest of a turn, up to its await. -/
def await (s : BootstrapSelect) (poolHeld : Bool) : BootstrapSelect :=
  let remaining := s.deadline - s.clock
  if s.inFlight = 0 ∨ remaining = 0 then { s with pc := .returned none }
  else
    let wait := if poolHeld then min remaining (s.poolAfter - s.clock) else remaining
    { s with pc := .waiting (s.clock + wait) poolHeld }

/-- One turn of the loop. -/
def turn (args : BootstrapArgs) (s : BootstrapSelect) : BootstrapSelect :=
  let (s, poolHeld) := s.launch args (args.limit - s.launched)
  s.await poolHeld

/-- `select_fast_bootstrap_peer` up to its first await. -/
def begin (args : BootstrapArgs) (started : Nat) : BootstrapSelect :=
  if args.peers.isEmpty then { clock := started, started := started }
  else turn args { clock := started, started := started }

def step (args : BootstrapArgs) (s : BootstrapSelect) : BootstrapEvent → Option BootstrapSelect
  | .advance now =>
    match s.pc with
    | .waiting wakeAt _ => if s.clock ≤ now ∧ now ≤ wakeAt then some { s with clock := now } else none
    | .returned _ => none
  | .serve a =>
    match s.pc with
    | .waiting _ _ => if a ∈ s.set then some { s with pc := .returned (some a.ip) } else none
    | .returned _ => none
  | .fail a =>
    match s.pc with
    | .waiting _ _ =>
      if a ∈ s.set then
        some (turn args
          { s with
            set := s.set.erase a
            inFlight := s.inFlight - 1
            prioInFlight := s.prioInFlight - if a.isPriority then 1 else 0 })
      else none
    | .returned _ => none
  | .panic a =>
    match s.pc with
    | .waiting _ _ =>
      if a ∈ s.set then
        some (turn args
          { s with
            set := s.set.erase a
            inFlight := s.inFlight - 1
            prioInFlight := min s.prioInFlight (s.inFlight - 1) })
      else none
    | .returned _ => none
  | .timer =>
    match s.pc with
    | .waiting wakeAt poolHeld =>
      if wakeAt ≤ s.clock then
        some (if poolHeld ∧ s.clock < s.deadline then turn args s else { s with pc := .returned none })
      else none
    | .returned _ => none

/-- The first `launched` candidates have been dialed or had no slot, and no others. -/
structure Tracked (args : BootstrapArgs) (s : BootstrapSelect) : Prop where
  within : s.launched ≤ args.limit
  mem : ∀ ip, ip ∈ s.dialed ∨ ip ∈ s.refused ↔ ∃ k < s.launched, args.candidateAt k = ip
  full : ∀ ip ∈ s.refused, args.tier.contains ip = true ∧ ∃ k, args.candidateAt k = ip ∧ args.acquire k = false

variable {args : BootstrapArgs} {s s' : BootstrapSelect} {e : BootstrapEvent}

/-- One more candidate launched. -/
theorem Tracked.mem_succ (h : s.Tracked args) (ip : String) :
    (ip ∈ s.dialed ∨ ip ∈ s.refused) ∨ ip = args.candidateAt s.launched ↔
      ∃ k < s.launched + 1, args.candidateAt k = ip := by
  rw [Nat.exists_lt_succ_right, ← h.mem ip, eq_comm (a := ip)]

theorem Tracked.launch (fuel : Nat) (h : s.Tracked args) : (s.launch args fuel).1.Tracked args := by
  induction fuel generalizing s with
  | zero => exact h
  | succ fuel ih =>
    rw [BootstrapSelect.launch]
    split
    · rename_i hfree
      simp only []
      split
      · exact h
      split
      · rename_i hslot
        refine ih ⟨hfree.1, fun ip => ?_, fun ip hip => ?_⟩
        · rw [List.mem_append, List.mem_singleton, ← or_assoc]
          exact h.mem_succ ip
        · rcases List.mem_append.mp hip with hip | hip
          · exact h.full ip hip
          · rw [List.mem_singleton.mp hip]
            exact ⟨hslot.1, s.launched, rfl, Bool.eq_false_of_not_eq_true' hslot.2⟩
      · refine ih ⟨hfree.1, fun ip => ?_, h.full⟩
        rw [List.mem_append, List.mem_singleton, or_right_comm]
        exact h.mem_succ ip
    · exact h

theorem Tracked.await (h : s.Tracked args) (poolHeld : Bool) : (s.await poolHeld).Tracked args := by
  unfold BootstrapSelect.await
  simp only []
  split
  · exact { h with }
  · exact { h with }

theorem Tracked.turn (h : s.Tracked args) : (s.turn args).Tracked args := (h.launch _).await _

theorem Tracked.begin (args : BootstrapArgs) (started : Nat) : (begin args started).Tracked args := by
  have hstart : Tracked args { clock := started, started := started } :=
    ⟨Nat.zero_le _, by simp, fun _ hip => absurd hip List.not_mem_nil⟩
  unfold BootstrapSelect.begin
  split
  · exact hstart
  · exact hstart.turn

/-- What an enabled event needs, and what it does. -/
inductive Stepped (args : BootstrapArgs) (s : BootstrapSelect) : BootstrapEvent → BootstrapSelect → Prop
  | advance (now : Nat) (hle : s.clock ≤ now) : Stepped args s (.advance now) { s with clock := now }
  | serve (a : DialAttempt) : Stepped args s (.serve a) { s with pc := .returned (some a.ip) }
  | fail (a : DialAttempt) (ha : a ∈ s.set) :
      Stepped args s (.fail a)
        (turn args
          { s with
            set := s.set.erase a
            inFlight := s.inFlight - 1
            prioInFlight := s.prioInFlight - if a.isPriority then 1 else 0 })
  | panic (a : DialAttempt) (ha : a ∈ s.set) :
      Stepped args s (.panic a)
        (turn args
          { s with
            set := s.set.erase a
            inFlight := s.inFlight - 1
            prioInFlight := min s.prioInFlight (s.inFlight - 1) })
  | resume (hdue : s.clock < s.deadline) : Stepped args s .timer (turn args s)
  | expire (wakeAt : Nat) (poolHeld : Bool) (hpc : s.pc = .waiting wakeAt poolHeld) (hwake : wakeAt ≤ s.clock)
      (hend : ¬ (poolHeld = true ∧ s.clock < s.deadline)) : Stepped args s .timer { s with pc := .returned none }

theorem step_eq_some (h : s.step args e = some s') : Stepped args s e s' := by
  cases e with
  | advance now =>
    simp only [step] at h
    split at h
    · obtain ⟨hle, ⟨⟩⟩ := Option.ite_none_right_eq_some.mp h
      exact .advance now hle.1
    · cases h
  | serve a =>
    simp only [step] at h
    split at h
    · obtain ⟨-, ⟨⟩⟩ := Option.ite_none_right_eq_some.mp h
      exact .serve a
    · cases h
  | fail a =>
    simp only [step] at h
    split at h
    · obtain ⟨ha, ⟨⟩⟩ := Option.ite_none_right_eq_some.mp h
      exact .fail a ha
    · cases h
  | panic a =>
    simp only [step] at h
    split at h
    · obtain ⟨ha, ⟨⟩⟩ := Option.ite_none_right_eq_some.mp h
      exact .panic a ha
    · cases h
  | timer =>
    simp only [step] at h
    split at h
    · rename_i wakeAt poolHeld hpc
      obtain ⟨hwake, ⟨⟩⟩ := Option.ite_none_right_eq_some.mp h
      split
      · rename_i hdue
        exact .resume hdue.2
      · rename_i hend
        exact .expire wakeAt poolHeld hpc hwake hend
    · cases h

theorem Tracked.step (h : s.Tracked args) (hs : s.step args e = some s') : s'.Tracked args := by
  cases step_eq_some hs with
  | advance now hle => exact { h with }
  | serve a => exact { h with }
  | fail a ha => exact Tracked.turn { h with }
  | panic a ha => exact Tracked.turn { h with }
  | resume hdue => exact h.turn
  | expire wakeAt poolHeld hpc hwake hend => exact { h with }

/-- Everything happens before the deadline, and no task of a priority peer panics while the tier
    is exclusive. -/
def Timely (args : BootstrapArgs) (s : BootstrapSelect) (e : BootstrapEvent) : Prop :=
  s.clock < s.deadline ∧ (args.tier.exclusive = true → e.panicsPriority = false)

instance (args : BootstrapArgs) (s : BootstrapSelect) (e : BootstrapEvent) : Decidable (Timely args s e) :=
  inferInstanceAs (Decidable (_ ∧ _))

/-- The counters count the tasks.  A priority peer's task that panics is only taken off
    `prio_in_flight` where that is needed to keep it within `in_flight`. -/
structure Counted (args : BootstrapArgs) (s : BootstrapSelect) : Prop where
  inFlight : s.inFlight = s.set.length
  priority : args.tier.exclusive = true → s.prioInFlight ≤ s.set.countP DialAttempt.isPriority

/-- The loop stops with nothing in flight only at the end of the window. -/
theorem Counted.launch (h : s.Counted args) (fuel : Nat) (hfuel : args.limit ≤ s.launched + fuel) :
    (s.launch args fuel).1.Counted args ∧ (s.launch args fuel).1.clock = s.clock ∧
      (s.launch args fuel).1.started = s.started ∧
      ((s.launch args fuel).1.inFlight = 0 → args.limit ≤ (s.launch args fuel).1.launched) := by
  induction fuel generalizing s with
  | zero => exact ⟨h, rfl, rfl, fun _ => hfuel⟩
  | succ fuel ih =>
    rw [BootstrapSelect.launch]
    split
    · simp only []
      split
      · rename_i hheld
        refine ⟨h, rfl, rfl, fun hnone => ?_⟩
        have hnone : s.inFlight = 0 := hnone
        -- whoever holds the pool back is in flight
        have hle := h.priority hheld.2.2.1
        have hcount := List.countP_le_length (p := DialAttempt.isPriority) (l := s.set)
        have hlength := h.inFlight
        omega
      split
      · exact ih ⟨h.inFlight, h.priority⟩ (by simp only; omega)
      · refine ih ⟨?_, fun hexclusive => ?_⟩ (by simp only; omega)
        · rw [List.length_append, h.inFlight, List.length_singleton]
        · rw [List.countP_append, List.countP_singleton]
          exact Nat.add_le_add_right (h.priority hexclusive) _
    · rename_i hfull
      refine ⟨h, rfl, rfl, fun hnone => ?_⟩
      have hnone : s.inFlight = 0 := hnone
      show args.limit ≤ s.launched
      have hmax : 0 < BOOTSTRAP_SELECT_MAX_INFLIGHT := by decide
      omega

/-- Before its deadline a selection ends without a peer only behind its whole window. -/
structure Whole (args : BootstrapArgs) (s : BootstrapSelect) : Prop extends s.Counted args where
  wakes : ∀ wakeAt, s.pc = .waiting wakeAt false → s.deadline ≤ wakeAt
  whole : s.pc = .returned none → args.limit ≤ s.launched

theorem Counted.turn (h : s.Counted args) (hclock : s.clock < s.deadline) : (s.turn args).Whole args := by
  obtain ⟨hcounted, hsame, hstarted, hwhole⟩ := h.launch (args.limit - s.launched) (by omega)
  have hclock : (s.launch args (args.limit - s.launched)).1.clock <
      (s.launch args (args.limit - s.launched)).1.deadline := by
    rw [deadline, hsame, hstarted]
    exact hclock
  unfold BootstrapSelect.turn BootstrapSelect.await
  simp only []
  split
  · rename_i hend
    refine ⟨⟨hcounted.inFlight, hcounted.priority⟩, fun _ hpc => (by cases hpc), fun _ => hwhole ?_⟩
    omega
  · refine ⟨⟨hcounted.inFlight, hcounted.priority⟩, fun wakeAt hpc => ?_, fun hpc => by cases hpc⟩
    obtain ⟨rfl, hheld⟩ := BootstrapPc.waiting.inj hpc
    rw [hheld, if_neg Bool.false_ne_true]
    exact Nat.le_of_eq (Nat.add_sub_cancel' hclock.le).symm

theorem Whole.begin (args : BootstrapArgs) (started : Nat) : (begin args started).Whole args := by
  have hstart : Counted args { clock := started, started := started } := ⟨rfl, fun _ => Nat.le_refl _⟩
  unfold BootstrapSelect.begin
  split
  · rename_i hempty
    refine ⟨hstart, fun _ hpc => (by cases hpc), fun _ => ?_⟩
    rw [BootstrapArgs.limit, List.isEmpty_iff.mp hempty]
    exact Nat.le_refl _
  · exact hstart.turn (Nat.lt_add_of_pos_right (by decide))

theorem Whole.step (h : s.Whole args) (hok : Timely args s e) (hs : s.step args e = some s') : s'.Whole args := by
  have hlength {a : DialAttempt} (ha : a ∈ s.set) : s.inFlight - 1 = (s.set.erase a).length := by
    rw [List.length_erase_of_mem ha, h.inFlight]
  cases step_eq_some hs with
  | advance now hle => exact ⟨⟨h.inFlight, h.priority⟩, h.wakes, h.whole⟩
  | serve a => exact ⟨⟨h.inFlight, h.priority⟩, fun _ hpc => (by cases hpc), fun hpc => (by cases hpc)⟩
  | fail a ha =>
    refine Counted.turn ⟨hlength ha, fun hexclusive => ?_⟩ hok.1
    simp only [List.countP_erase, ha, true_and]
    exact Nat.sub_le_sub_right (h.priority hexclusive) _
  | panic a ha =>
    refine Counted.turn ⟨hlength ha, fun hexclusive => ?_⟩ hok.1
    have hpool : a.isPriority = false := hok.2 hexclusive
    simp only [List.countP_erase, hpool, Bool.false_eq_true, and_false, if_false, Nat.sub_zero]
    exact Nat.le_trans (Nat.min_le_left _ _) (h.priority hexclusive)
  | resume hdue => exact h.toCounted.turn hdue
  | expire wakeAt poolHeld hpc hwake hend =>
    have hlt := hok.1
    cases poolHeld with
    | true => exact absurd ⟨rfl, hlt⟩ hend
    | false => exact absurd (Nat.le_trans (h.wakes wakeAt hpc) hwake) (Nat.not_le.mpr hlt)

end BootstrapSelect

/-! ## 3. The window of one attempt -/

/-- How many entries of an attempt's list it takes to reach the next `count` pool peers: with them,
    all that is put in front of the pool or, for `fallback`, set aside. -/
def reach (black : Blacklist) (policy : BootstrapPolicy) (priority remembered pool : List String) (start count : Nat) :
    Nat :=
  match policy with
  | .never => (Fresh.pushAll (headCandidates black remembered) ((rotated pool start).take count)).length
  | .prefer => (Fresh.pushAll (headCandidates black (priority ++ remembered)) ((rotated pool start).take count)).length
  | .fallback =>
    ((Fresh.pushAll (headCandidates black remembered) ((rotated pool start).take count)).filter
      fun ip => !priority.contains ip).length + priority.length

theorem mem_take_of_isPrefix {l m : List String} {ip : String} {n : Nat} (hpre : l <+: m) (hlength : l.length ≤ n)
    (hip : ip ∈ l) : ip ∈ m.take n := by
  obtain ⟨rest, rfl⟩ := hpre
  rw [List.take_append, List.take_of_length_le hlength]
  exact List.mem_append_left _ hip

/-- **A window that reaches so many pool peers** has each of them, from the counter on. -/
theorem mem_window {black : Blacklist} {policy : BootstrapPolicy} {priority remembered pool : List String}
    {start off count : Nat} (hoff : off < pool.length) (hcount : off < count)
    (hroom : reach black policy priority remembered pool start count ≤ BOOTSTRAP_SELECT_MAX_PEERS) :
    pool.getD (usizeAdd start off % pool.length) "" ∈
      (bootstrapSourceList black policy priority remembered pool start).take BOOTSTRAP_SELECT_MAX_PEERS := by
  have hturn : pool.getD (usizeAdd start off % pool.length) "" ∈ (rotated pool start).take count := by
    rw [rotated, ← List.map_take, List.take_range]
    exact List.mem_map.mpr ⟨off, List.mem_range.mpr (Nat.lt_min.mpr ⟨hcount, hoff⟩), rfl⟩
  have hmem (head : List String) : _ ∈ Fresh.pushAll (headCandidates black head) ((rotated pool start).take count) :=
    Fresh.mem_pushAll.mpr (Or.inr hturn)
  have hpre (head : List String) := Fresh.pushAll_take_isPrefix (headCandidates black head) (rotated pool start) count
  cases policy with
  | never => exact mem_take_of_isPrefix (hpre _) hroom (hmem _)
  | prefer => exact mem_take_of_isPrefix (hpre _) hroom (hmem _)
  | fallback =>
    simp only [reach] at hroom
    simp only [bootstrapSourceList]
    rw [List.take_of_length_le]
    · by_cases hpriority : pool.getD (usizeAdd start off % pool.length) "" ∈ priority
      · exact List.mem_append_right _ hpriority
      · refine List.mem_append_left _ (mem_take_of_isPrefix ((hpre _).filter _) (by omega) ?_)
        refine List.mem_filter.mpr ⟨hmem _, ?_⟩
        rw [Bool.not_eq_true', ← Bool.not_eq_true, List.contains_iff_mem]
        exact hpriority
    · have htake := List.length_take_le (BOOTSTRAP_SELECT_MAX_PEERS - priority.length)
        ((orderedCandidates black remembered pool start).filter fun ip => !priority.contains ip)
      rw [List.length_append]
      omega

/-- The candidates of a selection from the front are the first ones of the list. -/
theorem exists_candidateAt (args : BootstrapArgs) (hstart : args.start = 0) {ip : String} :
    (∃ k < args.limit, args.candidateAt k = ip) ↔ ip ∈ args.peers.take BOOTSTRAP_SELECT_MAX_PEERS := by
  have hat : ∀ k (hk : k < args.peers.length), k < BOOTSTRAP_SELECT_MAX_PEERS → args.candidateAt k = args.peers[k] := by
    intro k hk hmax
    have hplace : usizeAdd args.start k % args.peers.length = k := by
      rw [hstart, usizeAdd, Nat.zero_add, Nat.mod_eq_of_lt (Nat.lt_trans hmax (by decide)), Nat.mod_eq_of_lt hk]
    rw [BootstrapArgs.candidateAt, hplace, List.getD_eq_getElem _ _ hk]
  rw [List.mem_take_iff_getElem]
  constructor
  · rintro ⟨k, hk, rfl⟩
    have hlt := Nat.lt_min.mp hk
    exact ⟨k, Nat.lt_min.mpr hlt.symm, (hat k hlt.1 hlt.2).symm⟩
  · rintro ⟨k, hk, rfl⟩
    have hlt := Nat.lt_min.mp hk
    exact ⟨k, Nat.lt_min.mpr hlt.symm, hat k hlt.2 hlt.1⟩

/-! ## 4. Retries -/

/-- The counter after `t` bootstraps. -/
def rrAfter (rr : Nat) : Nat → Nat
  | 0 => rr
  | t + 1 => usizeAdd (rrAfter rr t) BOOTSTRAP_SELECT_MAX_PEERS

theorem rrAfter_eq {rr : Nat} : ∀ {t : Nat}, rr + BOOTSTRAP_SELECT_MAX_PEERS * t ≤ USIZE_MAX →
    rrAfter rr t = rr + BOOTSTRAP_SELECT_MAX_PEERS * t := by
  intro t
  induction t with
  | zero => exact fun _ => rfl
  | succ t ih =>
    intro hle
    rw [Nat.mul_succ] at hle ⊢
    rw [rrAfter, ih (by omega), usizeAdd, Nat.mod_eq_of_lt (by omega), Nat.add_assoc]

/-- What stays the same over the retries. -/
structure Retries where
  tier : PriorityTier
  policy : BootstrapPolicy
  priority : List String
  remembered : List String
  pool : List String
  rr : Nat

/-- What one attempt finds: the blacklist, the free slots and the time. -/
structure Surroundings where
  black : Blacklist := {}
  acquire : Nat → Bool := fun _ => true
  started : Nat := 0

namespace Retries

def candidates (w : Retries) (a : Surroundings) (t : Nat) : List String :=
  bootstrapSourceList a.black w.policy w.priority w.remembered w.pool (rrAfter w.rr t)

def args (w : Retries) (a : Surroundings) (t : Nat) : BootstrapArgs := ⟨w.tier, w.candidates a t, 0, a.acquire⟩

/-- Every so many attempts the counter is back at the same peer. -/
def period (w : Retries) : Nat := w.pool.length / Nat.gcd BOOTSTRAP_SELECT_MAX_PEERS w.pool.length

/-- The `t`-th attempt is over, in `s`, and has found no peer. -/
def Fails (w : Retries) (ok : BootstrapArgs → BootstrapSelect → BootstrapEvent → Prop) (a : Surroundings) (t : Nat)
    (s : BootstrapSelect) : Prop :=
  (∃ es, Machine.Run (BootstrapSelect.step (w.args a t)) (ok (w.args a t))
    (BootstrapSelect.begin (w.args a t) a.started) es s) ∧ s.pc = .returned none

variable {w : Retries} {ok : BootstrapArgs → BootstrapSelect → BootstrapEvent → Prop} {a : Surroundings} {t : Nat}
  {s : BootstrapSelect}

theorem Fails.tracked (h : w.Fails ok a t s) : s.Tracked (w.args a t) := by
  obtain ⟨⟨es, hrun⟩, -⟩ := h
  exact hrun.invariant (BootstrapSelect.Tracked.begin _ _) fun _ _ _ h _ hs => h.step hs

theorem Fails.whole (h : w.Fails BootstrapSelect.Timely a t s) : (w.args a t).limit ≤ s.launched := by
  obtain ⟨⟨es, hrun⟩, hpc⟩ := h
  have hinv := hrun.invariant (BootstrapSelect.Whole.begin _ _) fun _ _ _ h hok hs => h.step hok hs
  exact hinv.whole hpc

/-- Only the window is dialed. -/
theorem Fails.mem_take (h : w.Fails ok a t s) {ip : String} (hip : ip ∈ s.dialed) :
    ip ∈ (w.candidates a t).take BOOTSTRAP_SELECT_MAX_PEERS := by
  obtain ⟨k, hk, heq⟩ := (h.tracked.mem ip).mp (Or.inl hip)
  exact (exists_candidateAt _ rfl).mp ⟨k, Nat.lt_of_lt_of_le hk h.tracked.within, heq⟩

/-- All of the window is dialed, but for priority peers without a slot. -/
theorem Fails.dialed_of_mem_take (h : w.Fails BootstrapSelect.Timely a t s) {ip : String}
    (hip : ip ∈ (w.candidates a t).take BOOTSTRAP_SELECT_MAX_PEERS)
    (hslot : w.tier.contains ip = true → ∀ k, (w.args a t).candidateAt k = ip → a.acquire k = true) : ip ∈ s.dialed := by
  obtain ⟨k, hk, heq⟩ := (exists_candidateAt (w.args a t) rfl).mpr hip
  rcases (h.tracked.mem ip).mpr ⟨k, Nat.lt_of_lt_of_le hk h.whole, heq⟩ with hdialed | hrefused
  · exact hdialed
  · obtain ⟨hpriority, j, hj, hfull⟩ := h.tracked.full ip hrefused
    exact absurd ((hslot hpriority j hj).symm.trans hfull) (Ne.symm Bool.false_ne_true)

end Retries

/-- **Retries sweep the pool.**  When the counter does not wrap around, everything an attempt waits for
    happens before its deadline, no task of a priority peer panics in an exclusive tier, and no pool peer
    that is a priority peer finds its slots taken: if, from wherever the counter stands, the window reaches
    as many of the next pool peers as the greatest common divisor of the step and the size of the pool, then
    every pool peer is dialed within a period, which is no more attempts than the pool has peers. -/
theorem bootstrap_retries_sweep (w : Retries) (a : Nat → Surroundings) (s : Nat → BootstrapSelect)
    (hrr : w.rr + (BOOTSTRAP_SELECT_MAX_PEERS + 1) * w.pool.length ≤ USIZE_MAX + 1)
    (hroom : ∀ t < w.period, reach (a t).black w.policy w.priority w.remembered w.pool
      (w.rr + BOOTSTRAP_SELECT_MAX_PEERS * t) (Nat.gcd BOOTSTRAP_SELECT_MAX_PEERS w.pool.length) ≤
        BOOTSTRAP_SELECT_MAX_PEERS)
    (hslot : ∀ t < w.period, ∀ ip ∈ w.pool, w.tier.contains ip = true →
      ∀ k, (w.args (a t) t).candidateAt k = ip → (a t).acquire k = true)
    (hfails : ∀ t < w.period, w.Fails BootstrapSelect.Timely (a t) t (s t)) :
    w.period ≤ w.pool.length ∧ ∀ ip ∈ w.pool, ∃ t < w.period, ip ∈ (s t).dialed := by
  refine ⟨Nat.div_le_self _ _, fun ip hip => ?_⟩
  obtain ⟨j, hj, hget⟩ := List.getElem_of_mem hip
  obtain ⟨t, ht, off, hoff, hplace⟩ := Rotation.exists_window_of_stride w.rr BOOTSTRAP_SELECT_MAX_PEERS hj
  have htn : t < w.pool.length := Nat.lt_of_lt_of_le ht (Nat.div_le_self _ _)
  have hoffn : off < w.pool.length :=
    Nat.lt_of_lt_of_le hoff (Nat.gcd_le_right _ (Nat.zero_lt_of_lt hj))
  -- neither the counter nor the position wraps around in these attempts
  have hbound : w.rr + BOOTSTRAP_SELECT_MAX_PEERS * t + off < USIZE_MAX + 1 := by
    have hmul := Nat.mul_le_mul_left BOOTSTRAP_SELECT_MAX_PEERS (Nat.succ_le_of_lt htn)
    rw [Nat.add_mul, Nat.one_mul] at hrr
    rw [Nat.mul_succ] at hmul
    omega
  have hstart : rrAfter w.rr t = w.rr + BOOTSTRAP_SELECT_MAX_PEERS * t := rrAfter_eq (by omega)
  have hturn : w.pool.getD (usizeAdd (rrAfter w.rr t) off % w.pool.length) "" = ip := by
    rw [hstart, usizeAdd, Nat.mod_eq_of_lt hbound, hplace, List.getD_eq_getElem _ _ hj, hget]
  have hwindow : ip ∈ (w.candidates (a t) t).take BOOTSTRAP_SELECT_MAX_PEERS := by
    rw [← hturn]
    exact mem_window hoffn hoff (hstart ▸ hroom t ht)
  exact ⟨t, ht, (hfails t ht).dialed_of_mem_take hwindow (hslot t ht ip hip)⟩

/-- A pool of 32. -/
def decliners : List String :=
  ["10.0.0.0", "10.0.0.1", "10.0.0.2", "10.0.0.3", "10.0.0.4", "10.0.0.5", "10.0.0.6", "10.0.0.7", "10.0.0.8", "10.0.0.9",
    "10.0.0.10", "10.0.0.11", "10.0.0.12", "10.0.0.13", "10.0.0.14", "10.0.0.15", "10.0.0.16", "10.0.0.17", "10.0.0.18",
    "10.0.0.19", "10.0.0.20", "10.0.0.21", "10.0.0.22", "10.0.0.23", "10.0.0.24", "10.0.0.25", "10.0.0.26", "10.0.0.27",
    "10.0.0.28", "10.0.0.29", "10.0.0.30", "10.0.0.31"]

/-- 48 peers behind a priority peer, of an exclusive tier, and two remembered servers, one of them in the pool. -/
def crowded : Retries where
  tier := .new ["192.0.2.7"] 1 0 true
  policy := .prefer
  priority := ["192.0.2.7"]
  remembered := ["10.0.0.3", "9.9.9.9"]
  pool := decliners ++ ["10.0.1.0", "10.0.1.1", "10.0.1.2", "10.0.1.3", "10.0.1.4", "10.0.1.5", "10.0.1.6", "10.0.1.7",
    "10.0.1.8", "10.0.1.9", "10.0.1.10", "10.0.1.11", "10.0.1.12", "10.0.1.13", "10.0.1.14", "10.0.1.15"]
  rr := 7

/-- An attempt in which one candidate declines after the other. -/
def Retries.declined (w : Retries) (t : Nat) : Option BootstrapSelect :=
  Machine.exec (BootstrapSelect.step (w.args {} t)) (BootstrapSelect.Timely (w.args {} t))
    (BootstrapSelect.begin (w.args {} t) 0)
    (((w.candidates {} t).take BOOTSTRAP_SELECT_MAX_PEERS).map fun ip => .fail ⟨ip, w.tier.contains ip⟩)

theorem bootstrap_retries_sweep_crowded :
    ∃ s : Nat → BootstrapSelect, (∀ t < 3, crowded.Fails BootstrapSelect.Timely {} t (s t)) ∧
      ∀ ip ∈ crowded.pool, ∃ t < 3, ip ∈ (s t).dialed := by
  have hdeclined : ∀ t < 3, (crowded.declined t).map BootstrapSelect.pc = some (.returned none) := by
    decide +kernel
  have hfails : ∀ t < 3, crowded.Fails BootstrapSelect.Timely {} t
      ((crowded.declined t).getD { clock := 0, started := 0 }) := by
    intro t ht
    obtain ⟨u, hu, hpc⟩ := Option.map_eq_some_iff.mp (hdeclined t ht)
    rw [hu]
    exact ⟨⟨_, Machine.Run.of_exec hu⟩, hpc⟩
  exact ⟨_, hfails, (bootstrap_retries_sweep crowded (fun _ => {}) _ (by decide) (by decide +kernel)
    (fun _ _ _ _ _ _ _ => rfl) hfails).2⟩

/-! ## 5. A peer that is never dialed -/

/-- A counter at the start of the pool comes back to it when the pool divides the step. -/
theorem rotated_of_dvd {pool : List String} {start : Nat} (hwrap : pool.length ∣ USIZE_MAX + 1)
    (hstart : pool.length ∣ start) : rotated pool start = pool := by
  apply List.ext_getElem
  · simp [rotated]
  · intro k hk hk'
    have hplace : usizeAdd start k % pool.length = k := by
      rw [usizeAdd, Nat.mod_mod_of_dvd _ hwrap, Nat.add_mod, Nat.mod_eq_zero_of_dvd hstart, Nat.zero_add, Nat.mod_mod,
        Nat.mod_eq_of_lt hk']
    simp only [rotated, List.getElem_map, List.getElem_range, hplace]
    exact List.getD_eq_getElem _ _ hk'

theorem dvd_rrAfter {rr : Nat} (h : BOOTSTRAP_SELECT_MAX_PEERS ∣ rr) (t : Nat) :
    BOOTSTRAP_SELECT_MAX_PEERS ∣ rrAfter rr t := by
  induction t with
  | zero => exact h
  | succ t ih => exact (Nat.dvd_mod_iff (by decide)).mpr (Nat.dvd_add ih (Nat.dvd_refl _))

/-- A state server that is not in the pool is remembered. -/
def oneRemembered : Retries where
  tier := .new [] 0 0 false
  policy := .never
  priority := []
  remembered := ["9.9.9.9"]
  pool := decliners
  rr := 0

theorem nodup_decliners : decliners.Nodup := by decide +kernel

theorem candidates_oneRemembered (t : Nat) : oneRemembered.candidates {} t = "9.9.9.9" :: decliners := by
  have hhead : headCandidates {} ["9.9.9.9"] = ["9.9.9.9"] := by decide
  have hpool : rotated decliners (rrAfter 0 t) = decliners :=
    rotated_of_dvd (by decide) (dvd_rrAfter (Nat.dvd_zero _) t)
  calc oneRemembered.candidates {} t
      = Fresh.pushAll (headCandidates {} ["9.9.9.9"]) (rotated decliners (rrAfter 0 t)) := rfl
    _ = Fresh.pushAll ["9.9.9.9"] decliners := by rw [hhead, hpool]
    _ = ["9.9.9.9"] ++ decliners := Fresh.pushAll_of_nodup (List.nodup_cons.mpr ⟨by decide, nodup_decliners⟩)

/-- **The sweep can leave a peer out for good.**  Every attempt dials the remembered server
    and the first 31 of the 32 pool peers, all of which decline at once; the counter moves
    on by 32, to the same place, and the last peer is dialed in no attempt however it goes. -/
theorem bootstrap_retries_miss :
    ∃ (w : Retries) (s : BootstrapSelect), w.pool.Nodup ∧ w.pool.length = 32 ∧
      (∀ t, w.Fails BootstrapSelect.Timely {} t s ∧ s.launched = BOOTSTRAP_SELECT_MAX_PEERS) ∧
      ∃ ip ∈ w.pool, ∀ t s', w.Fails (fun _ _ _ => True) {} t s' → ip ∉ s'.dialed := by
  refine ⟨oneRemembered, { clock := 0, started := 0, launched := 32, dialed := "9.9.9.9" :: decliners.dropLast },
    nodup_decliners, rfl, ?_, "10.0.0.31", by decide, ?_⟩
  · intro t
    refine ⟨⟨⟨("9.9.9.9" :: decliners.dropLast).map fun ip => .fail ⟨ip, false⟩, ?_⟩, rfl⟩, rfl⟩
    rw [Retries.args, candidates_oneRemembered]
    exact Machine.Run.of_exec (by decide +kernel)
  · intro t s' hfails hdialed
    have hwindow := hfails.mem_take hdialed
    rw [candidates_oneRemembered] at hwindow
    exact absurd hwindow (by decide)

end Hypersync.Gateway
