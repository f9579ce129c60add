import Hypersync.Lib.Streak
import Hypersync.Peerd.Crawl
import Hypersync.Peerd.Pool
import Hypersync.Peerd.ProbeRotation
import Mathlib.Data.Finset.Sort
import Mathlib.Data.String.Basic

/-!
# The candidates of peerd, cycle after cycle

A cycle forgets the candidates that are excluded now, takes in what discovery found,
probes a slice of them and counts the failures of each one; a candidate that has
failed `PRUNE_AFTER` probes in a row goes.  The loop keeps the candidates, the counts,
a cursor and a streak of empty cycles; what discovery and the probes find, and the
text of `peers.json`, are given from outside.

The run is recorded in a log, and `checks` reads off it what befell one address.  The
count of an address is then the length of its current streak of failures
(`peerd_prunes_only_the_dead`).
-/

namespace Hypersync.Peerd

/-! ## 1. The counts -/

def PRUNE_AFTER : Nat := 50

/-- The count of an address; one without an entry has none. -/
def countOf (failCounts : List (String × Nat)) (ip : String) : Nat := (failCounts.lookup ip).getD 0

/-- `fail_counts.remove(ip)` -/
def forgetCount (failCounts : List (String × Nat)) (ip : String) : List (String × Nat) :=
  failCounts.filter fun p => p.1 ≠ ip

/-- One more failure; the last one takes the candidate away. -/
def countFailure (s : Finset String × List (String × Nat)) (ip : String) : Finset String × List (String × Nat) :=
  let c := countOf s.2 ip + 1
  if PRUNE_AFTER ≤ c then (s.1.erase ip, forgetCount s.2 ip) else (s.1, (ip, c) :: forgetCount s.2 ip)

/-! ## 2. One cycle -/

structure PeerdArgs where
  selfIps : Finset String
  interval : Nat
  emptyBackoffMax : Nat
  probeMaxPerCycle : Nat
  -- the least the environment can set it to
  probeMaxPerCycle_ge : 32 ≤ probeMaxPerCycle

/-- What a cycle finds: the blacklist as strings, the addresses of the three sources, the text
    of `peers.json`, and the probes in the order they ended. -/
structure Found where
  blacklisted : List String
  roots : List String
  discovered : List String
  stats : List String
  previousContents : String
  probes : Probes

/-- What a cycle did to the candidates. -/
structure CycleLog where
  excluded : Finset String
  live : List String
  failed : List String
  pruned : List String

/-- A cycle, or a start of the process. -/
inductive LogEntry where
  | cycle (c : CycleLog)
  | restart

structure Daemon where
  candidates : Finset String
  failCounts : List (String × Nat) := []
  emptyLiveStreak : Nat := 0
  probeCursor : Nat := 0
  targetSleep : Nat := 0
  log : List LogEntry := []

inductive DaemonEvent where
  | cycle (f : Found)
  | restart (persisted : String)

def emptyPoolSleepSecs (interval emptyLiveStreak maxBackoff : Nat) : Nat :=
  if emptyLiveStreak = 0 then interval
  else max interval (min (interval * (1 <<< min emptyLiveStreak 3)) (max maxBackoff interval))

def nextEmptyLiveStreak (streak : Nat) (rankedEmpty keptPrevious : Bool) : Nat :=
  if rankedEmpty ∧ !keptPrevious then min (streak + 1) U32_MAX else 0

/-- The loops over the roots and over the stats. -/
def insertAllowed (excluded : Finset String) (found : List String) (candidates : Finset String) : Finset String :=
  found.foldl (fun c ip => if ip ∈ excluded then c else insert ip c) candidates

/-- The loop over what the crawl discovered. -/
def insertCrawled (excluded : Finset String) (found : List String) (candidates : Finset String) : Finset String :=
  found.foldl
    (fun c ip => if ip ∈ excluded ∨ ip ∈ c then c else if MAX_CANDIDATES ≤ c.card then c else insert ip c) candidates

namespace Daemon

def excluded (args : PeerdArgs) (f : Found) : Finset String := args.selfIps ∪ f.blacklisted.toFinset

/-- The candidates and counts once discovery is done. -/
def discover (s : Daemon) (args : PeerdArgs) (f : Found) : Finset String × List (String × Nat) :=
  let excluded := excluded args f
  let kept := dropExcluded s.candidates s.failCounts excluded
  (insertAllowed excluded f.stats (insertCrawled excluded f.discovered (insertAllowed excluded f.roots kept.1)), kept.2.1)

/-- The slice that is probed, and the cursor behind it. -/
def slice (s : Daemon) (args : PeerdArgs) (f : Found) : List String × Nat :=
  selectProbeCandidates ((s.discover args f).1.sort) (previousLivePool f.previousContents (excluded args f)).1
    args.probeMaxPerCycle s.probeCursor

/-- The counts once the live peers are cleared. -/
def cleared (s : Daemon) (args : PeerdArgs) (f : Found) : List (String × Nat) :=
  (rankProbes f.probes).1.foldl forgetCount (s.discover args f).2

/-- The candidates and counts at the end of the cycle. -/
def counted (s : Daemon) (args : PeerdArgs) (f : Found) : Finset String × List (String × Nat) :=
  (rankProbes f.probes).2.1.foldl countFailure ((s.discover args f).1, s.cleared args f)

def cycle (s : Daemon) (args : PeerdArgs) (f : Found) : Daemon :=
  let ranked := (rankProbes f.probes).1
  let failed := (rankProbes f.probes).2.1
  let previousLive := (previousLivePool f.previousContents (excluded args f)).1
  let keptPrevious :=
    shouldKeepPreviousPeerPool ranked.length previousLive.length (previousPeerPoolIsTrusted f.previousContents)
  let streak := nextEmptyLiveStreak s.emptyLiveStreak ranked.isEmpty keptPrevious
  { candidates := (s.counted args f).1
    failCounts := (s.counted args f).2
    emptyLiveStreak := streak
    probeCursor := (s.slice args f).2
    targetSleep := emptyPoolSleepSecs args.interval streak args.emptyBackoffMax
    log := s.log ++ [.cycle
      { excluded := excluded args f
        live := ranked
        failed := failed
        pruned := failed.filter fun ip => PRUNE_AFTER ≤ countOf (s.cleared args f) ip + 1 }] }

/-- Every peer of the slice is probed once; the outcome of a probe that panics is lost. -/
def Probed (s : Daemon) (args : PeerdArgs) (f : Found) : Prop :=
  (f.probes.map Prod.fst).Nodup ∧ ∀ p ∈ f.probes, p.1 ∈ (s.slice args f).1

instance decidableProbed (s : Daemon) (args : PeerdArgs) (f : Found) : Decidable (s.Probed args f) :=
  inferInstanceAs (Decidable (_ ∧ _))

/-- The start of `run_peerd`, from the candidates of the last run. -/
def start (args : PeerdArgs) (persisted : String) (log : List LogEntry) : Daemon where
  candidates := (parsePeerCandidates persisted).filter (· ∉ args.selfIps)
  log := log ++ [.restart]

def step (args : PeerdArgs) (s : Daemon) : DaemonEvent → Option Daemon
  | .cycle f => if s.Probed args f then some (s.cycle args f) else none
  | .restart persisted => some (start args persisted s.log)

end Daemon

/-! ## 3. What befell an address -/

/-- What an entry of the log says about one address: `true` for a failed probe, `false` for
    whatever clears its count, in their order. -/
def LogEntry.checks (ip : String) : LogEntry → List Bool
  | .restart => [false]
  | .cycle c =>
    (if ip ∈ c.excluded ∨ ip ∈ c.live then [false] else []) ++ (if ip ∈ c.failed then [true] else []) ++
      (if ip ∈ c.pruned then [false] else [])

/-- How many probes of the address have failed in a row. -/
def failStreak (log : List LogEntry) (ip : String) : Nat :=
  (Streak.current id (log.flatMap (LogEntry.checks ip))).length

/-- The entry takes the address out of the candidates. -/
def LogEntry.Removes (ip : String) : LogEntry → Prop
  | .restart => True
  | .cycle c => ip ∈ c.excluded ∨ ip ∈ c.pruned

section Counts

variable {counts : List (String × Nat)} {ip x : String}

theorem lookup_filter_key (p : String → Bool) (counts : List (String × Nat)) (ip : String) :
    (counts.filter fun q => p q.1).lookup ip = if p ip then counts.lookup ip else none := by
  induction counts with
  | nil =>
    rw [List.filter_nil, List.lookup_nil, ite_self]
  | cons q counts ih =>
    obtain ⟨key, n⟩ := q
    rw [List.filter_cons, List.lookup_cons]
    by_cases hkey : ip = key
    · subst hkey
      by_cases hp : p ip = true
      · simp only [hp, if_true, List.lookup_cons, beq_self_eq_true]
      · simp only [hp, Bool.false_eq_true, if_false, ih]
    · have hne : (ip == key) = false := beq_false_of_ne hkey
      rw [hne]
      split
      · rw [List.lookup_cons, hne]
        exact ih
      · exact ih

theorem countOf_forgetCount : countOf (forgetCount counts ip) x = if x = ip then 0 else countOf counts x := by
  have hlookup := lookup_filter_key (fun key => decide (key ≠ ip)) counts x
  unfold countOf forgetCount
  rw [hlookup]
  by_cases hx : x = ip
  · simp only [hx, ne_eq, not_true_eq_false, decide_false, Bool.false_eq_true, if_false, if_true, Option.getD_none]
  · simp only [hx, ne_eq, not_false_eq_true, decide_true, if_true, if_false]

theorem countOf_foldl_forgetCount (live : List String) :
    countOf (live.foldl forgetCount counts) x = if x ∈ live then 0 else countOf counts x := by
  induction live generalizing counts with
  | nil => rw [List.foldl_nil, if_neg List.not_mem_nil]
  | cons ip live ih =>
    rw [List.foldl_cons, ih, countOf_forgetCount]
    by_cases hx : x = ip
    · simp only [hx, List.mem_cons_self, if_true, ite_self]
    · simp only [hx, List.mem_cons, false_or, if_false]

theorem countOf_dropExcluded (candidates excluded : Finset String) :
    countOf (dropExcluded candidates counts excluded).2.1 x = if x ∈ excluded then 0 else countOf counts x := by
  have hlookup := lookup_filter_key (fun key => decide (key ∉ excluded)) counts x
  unfold countOf dropExcluded
  simp only
  rw [hlookup]
  by_cases hx : x ∈ excluded
  · simp only [hx, not_true_eq_false, decide_false, Bool.false_eq_true, if_false, if_true, Option.getD_none]
  · simp only [hx, not_false_eq_true, decide_true, if_true, if_false]

/-- The counts one failure leaves. -/
theorem countOf_countFailure (candidates : Finset String) :
    countOf (countFailure (candidates, counts) ip).2 x =
      if x = ip then (if PRUNE_AFTER ≤ countOf counts ip + 1 then 0 else countOf counts ip + 1)
      else countOf counts x := by
  unfold countFailure
  simp only
  split
  · rw [countOf_forgetCount]
  · by_cases hx : x = ip
    · subst hx
      simp only [countOf, List.lookup_cons, beq_self_eq_true, if_true, Option.getD_some]
    · have hne : (x == ip) = false := beq_false_of_ne hx
      have hkept : countOf (forgetCount counts ip) x = countOf counts x := by rw [countOf_forgetCount, if_neg hx]
      rw [if_neg hx, ← hkept, countOf, List.lookup_cons, hne]
      rfl

theorem mem_countFailure {candidates : Finset String} :
    x ∈ (countFailure (candidates, counts) ip).1 ↔
      x ∈ candidates ∧ ¬ (x = ip ∧ PRUNE_AFTER ≤ countOf counts ip + 1) := by
  unfold countFailure
  simp only
  split
  · rename_i hlast
    simp only [Finset.mem_erase, hlast, and_true, ne_eq]
    exact And.comm
  · rename_i hlast
    simp only [hlast, and_false, not_false_eq_true, and_true]

/-- All the failures of a cycle: each address is counted on its own. -/
theorem foldl_countFailure {failed : List String} (hnodup : failed.Nodup) (s : Finset String × List (String × Nat)) :
    (∀ x, countOf (failed.foldl countFailure s).2 x =
      if x ∈ failed then (if PRUNE_AFTER ≤ countOf s.2 x + 1 then 0 else countOf s.2 x + 1) else countOf s.2 x) ∧
    ∀ x, x ∈ (failed.foldl countFailure s).1 ↔ x ∈ s.1 ∧ ¬ (x ∈ failed ∧ PRUNE_AFTER ≤ countOf s.2 x + 1) := by
  induction failed generalizing s with
  | nil =>
    constructor
    · intro x
      rw [List.foldl_nil, if_neg List.not_mem_nil]
    · intro x
      simp only [List.foldl_nil, List.not_mem_nil, false_and, not_false_eq_true, and_true]
  | cons ip failed ih =>
    obtain ⟨candidates, counts⟩ := s
    obtain ⟨hnew, hrest⟩ := List.nodup_cons.mp hnodup
    obtain ⟨hcount, hmem⟩ := ih hrest (countFailure (candidates, counts) ip)
    constructor
    · intro x
      rw [List.foldl_cons, hcount x, countOf_countFailure]
      by_cases hx : x = ip
      · subst hx
        simp only [hnew, List.mem_cons_self, if_true, if_false]
      · simp only [hx, List.mem_cons, false_or, if_false]
    · intro x
      rw [List.foldl_cons, hmem x, mem_countFailure, countOf_countFailure]
      by_cases hx : x = ip
      · subst hx
        simp only [hnew, List.mem_cons_self, true_and, false_and, not_false_eq_true, and_true]
      · simp only [hx, List.mem_cons, false_or, if_false, false_and, not_false_eq_true, and_true]

/-- The counts are of candidates, one each, and none has come to the last failure. -/
structure Tracked (candidates : Finset String) (counts : List (String × Nat)) : Prop where
  nodup : (counts.map Prod.fst).Nodup
  held : ∀ p ∈ counts, p.1 ∈ candidates
  below : ∀ p ∈ counts, 0 < p.2 ∧ p.2 < PRUNE_AFTER

/-- There are no more counts than candidates. -/
theorem Tracked.length_le {candidates : Finset String} (h : Tracked candidates counts) :
    counts.length ≤ candidates.card := by
  rw [← List.length_map (f := Prod.fst), ← List.toFinset_card_of_nodup h.nodup]
  apply Finset.card_le_card
  intro ip hip
  obtain ⟨p, hp, rfl⟩ := List.mem_map.mp (List.mem_toFinset.mp hip)
  exact h.held p hp

theorem Tracked.filter {candidates kept : Finset String} (h : Tracked candidates counts) (p : String × Nat → Bool)
    (hkept : ∀ q ∈ counts, p q = true → q.1 ∈ kept) : Tracked kept (counts.filter p) where
  nodup := h.nodup.sublist (List.filter_sublist.map Prod.fst)
  held q hq := by
    obtain ⟨hmem, hp⟩ := List.mem_filter.mp hq
    exact hkept q hmem hp
  below q hq := h.below q (List.mem_filter.mp hq).1

theorem Tracked.forgetAll {candidates : Finset String} (h : Tracked candidates counts) (live : List String) :
    Tracked candidates (live.foldl forgetCount counts) := by
  induction live generalizing counts with
  | nil => exact h
  | cons ip live ih => exact ih (h.filter _ fun q hq _ => h.held q hq)

theorem Tracked.countFailure {candidates : Finset String} (h : Tracked candidates counts) (hip : ip ∈ candidates) :
    Tracked (countFailure (candidates, counts) ip).1 (countFailure (candidates, counts) ip).2 := by
  unfold Peerd.countFailure
  simp only
  split
  · apply h.filter
    intro q hq hne
    exact Finset.mem_erase.mpr ⟨of_decide_eq_true hne, h.held q hq⟩
  · rename_i hbelow
    have hforgot : Tracked candidates (forgetCount counts ip) := h.filter _ fun q hq _ => h.held q hq
    refine ⟨?_, ?_, ?_⟩
    · rw [List.map_cons, List.nodup_cons]
      refine ⟨?_, hforgot.nodup⟩
      intro hmem
      obtain ⟨q, hq, heq⟩ := List.mem_map.mp hmem
      exact of_decide_eq_true (List.mem_filter.mp hq).2 heq
    · intro q hq
      rcases List.mem_cons.mp hq with rfl | hq
      · exact hip
      · exact hforgot.held q hq
    · intro q hq
      rcases List.mem_cons.mp hq with rfl | hq
      · exact ⟨Nat.succ_pos _, Nat.lt_of_not_le hbelow⟩
      · exact hforgot.below q hq

theorem Tracked.countFailures {candidates : Finset String} {failed : List String} (h : Tracked candidates counts)
    (hnodup : failed.Nodup) (hsub : ∀ ip ∈ failed, ip ∈ candidates) :
    Tracked (failed.foldl Peerd.countFailure (candidates, counts)).1
      (failed.foldl Peerd.countFailure (candidates, counts)).2 := by
  induction failed generalizing candidates counts with
  | nil => exact h
  | cons ip failed ih =>
    obtain ⟨hnew, hrest⟩ := List.nodup_cons.mp hnodup
    rw [List.foldl_cons]
    apply ih (h.countFailure (hsub ip List.mem_cons_self)) hrest
    intro x hx
    refine mem_countFailure.mpr ⟨hsub x (List.mem_cons_of_mem ip hx), ?_⟩
    rintro ⟨rfl, -⟩
    exact hnew hx

theorem Tracked.countOf_lt {candidates : Finset String} (h : Tracked candidates counts) (ip : String) :
    countOf counts ip < PRUNE_AFTER := by
  unfold countOf
  cases hlookup : counts.lookup ip with
  | none => decide
  | some n =>
    obtain ⟨before, after, hsplit, -⟩ := List.lookup_eq_some_iff.mp hlookup
    have hmem : (ip, n) ∈ counts := by
      rw [hsplit]
      exact List.mem_append_right _ List.mem_cons_self
    exact (h.below _ hmem).2

end Counts

/-! ## 4. Discovery and probes -/

section Discovery

variable {excluded candidates : Finset String} {found : List String} {ip : String}

theorem mem_insertAllowed :
    ip ∈ insertAllowed excluded found candidates ↔ ip ∈ candidates ∨ ip ∈ found ∧ ip ∉ excluded := by
  induction found generalizing candidates with
  | nil => simp only [insertAllowed, List.foldl_nil, List.not_mem_nil, false_and, or_false]
  | cons x found ih =>
    have hstep : insertAllowed excluded (x :: found) candidates =
        insertAllowed excluded found (if x ∈ excluded then candidates else insert x candidates) := rfl
    rw [hstep, ih, List.mem_cons]
    by_cases hx : x ∈ excluded
    · rw [if_pos hx]
      constructor
      · rintro (h | ⟨h, hallowed⟩)
        · exact Or.inl h
        · exact Or.inr ⟨Or.inr h, hallowed⟩
      · rintro (h | ⟨rfl | h, hallowed⟩)
        · exact Or.inl h
        · exact absurd hx hallowed
        · exact Or.inr ⟨h, hallowed⟩
    · rw [if_neg hx, Finset.mem_insert]
      constructor
      · rintro ((rfl | h) | ⟨h, hallowed⟩)
        · exact Or.inr ⟨Or.inl rfl, hx⟩
        · exact Or.inl h
        · exact Or.inr ⟨Or.inr h, hallowed⟩
      · rintro (h | ⟨rfl | h, hallowed⟩)
        · exact Or.inl (Or.inr h)
        · exact Or.inl (Or.inl rfl)
        · exact Or.inr ⟨h, hallowed⟩

/-- The crawl only adds, and nothing that is excluded. -/
theorem insertCrawled_spec (excluded : Finset String) (found : List String) (candidates : Finset String) :
    candidates ⊆ insertCrawled excluded found candidates ∧
      ∀ ip ∈ insertCrawled excluded found candidates, ip ∈ candidates ∨ ip ∉ excluded := by
  induction found generalizing candidates with
  | nil => exact ⟨Finset.Subset.refl _, fun ip h => Or.inl h⟩
  | cons x found ih =>
    have hstep : insertCrawled excluded (x :: found) candidates = insertCrawled excluded found
        (if x ∈ excluded ∨ x ∈ candidates then candidates
          else if MAX_CANDIDATES ≤ candidates.card then candidates else insert x candidates) := rfl
    rw [hstep]
    split
    · exact ih candidates
    · rename_i hnew
      split
      · exact ih candidates
      · obtain ⟨hsub, hallowed⟩ := ih (insert x candidates)
        refine ⟨(Finset.subset_insert x candidates).trans hsub, ?_⟩
        intro ip hip
        rcases hallowed ip hip with hmem | hallowed
        · rcases Finset.mem_insert.mp hmem with rfl | hmem
          · exact Or.inr fun hx => hnew (Or.inl hx)
          · exact Or.inl hmem
        · exact Or.inr hallowed

variable {s : Daemon} {args : PeerdArgs} {f : Found}

/-- Discovery keeps every candidate that is not excluded. -/
theorem mem_discover (hip : ip ∈ s.candidates) (hallowed : ip ∉ Daemon.excluded args f) :
    ip ∈ (s.discover args f).1 := by
  refine mem_insertAllowed.mpr (Or.inl ((insertCrawled_spec _ _ _).1 (mem_insertAllowed.mpr (Or.inl ?_))))
  exact Finset.mem_filter.mpr ⟨hip, hallowed⟩

theorem not_mem_excluded_of_mem_discover (hip : ip ∈ (s.discover args f).1) : ip ∉ Daemon.excluded args f := by
  rcases mem_insertAllowed.mp hip with hip | ⟨-, hallowed⟩
  · rcases (insertCrawled_spec _ _ _).2 ip hip with hip | hallowed
    · rcases mem_insertAllowed.mp hip with hip | ⟨-, hallowed⟩
      · exact (Finset.mem_filter.mp hip).2
      · exact hallowed
    · exact hallowed
  · exact hallowed

theorem Tracked.discover (h : Tracked s.candidates s.failCounts) :
    Tracked (s.discover args f).1 (s.discover args f).2 := by
  apply h.filter
  intro q hq hallowed
  exact mem_discover (h.held q hq) (of_decide_eq_true hallowed)

theorem mem_discover_of_mem_slice (hip : ip ∈ (s.slice args f).1) : ip ∈ (s.discover args f).1 := by
  have hmax : 2 ≤ args.probeMaxPerCycle := Nat.le_trans (by decide) args.probeMaxPerCycle_ge
  refine (Finset.mem_sort (r := fun a b : String => a ≤ b)).mp ?_
  by_cases hne : (s.discover args f).1.sort = []
  · -- nothing to rotate through: what is selected is the share of the previous pool
    have hshare := (previousShare_spec (s.discover args f).1.sort
      (previousLivePool f.previousContents (Daemon.excluded args f)).1 hmax).2.1 ip
    have hslice : (s.slice args f).1 = previousShare (s.discover args f).1.sort
        (previousLivePool f.previousContents (Daemon.excluded args f)).1 args.probeMaxPerCycle := by
      simp only [Daemon.slice, selectProbeCandidates, hne, List.length_nil, Nat.lt_irrefl, and_false, if_false]
    rw [hslice] at hip
    exact (hshare hip).1
  · obtain ⟨_, -, -, -, -, -, hmem, -⟩ := selectProbeCandidates_spec (Finset.sort_nodup _ _) hne hmax
      (previousLivePool f.previousContents (Daemon.excluded args f)).1 s.probeCursor
    exact hmem ip hip

theorem nodup_failed {probes : Probes} (hnodup : (probes.map Prod.fst).Nodup) : (rankProbes probes).2.1.Nodup := by
  have hlagged : ∃ lagged : Probes, lagged.Sublist (probes.filter probedLive) ∧
      (splitLiveByTip (probes.filter probedLive) (clusteredProbeTip (probes.filter probedLive))).2 =
        lagged.map Prod.fst := by
    rcases clusteredProbeTip (probes.filter probedLive) with _ | tip
    · exact ⟨[], List.nil_sublist _, rfl⟩
    · rw [splitLiveByTip, splitLoop_eq, List.nil_append]
      exact ⟨_, List.filter_sublist, rfl⟩
  obtain ⟨lagged, hsub, heq⟩ := hlagged
  have hfailed : (rankProbes probes).2.1 = ((probes.filter fun p => !probedLive p) ++ lagged).map Prod.fst := by
    simp only [rankProbes, heq, List.map_append]
  have hperm : ((probes.filter fun p => !probedLive p) ++ probes.filter probedLive).Perm probes :=
    List.perm_append_comm.trans (List.filter_append_perm probedLive probes)
  rw [hfailed]
  exact ((hperm.map Prod.fst).nodup_iff.mpr hnodup).sublist ((hsub.append_left _).map Prod.fst)

/-- A peer whose probe failed is not ranked. -/
theorem not_mem_ranking_of_mem_failed {probes : Probes} (hnodup : (probes.map Prod.fst).Nodup)
    (hip : ip ∈ (rankProbes probes).2.1) : ip ∉ (rankProbes probes).1 := by
  intro hlive
  obtain ⟨p, hp, hdead, rfl⟩ := mem_failed hip
  obtain ⟨q, hq, heq⟩ := mem_ranking hlive
  obtain rfl := List.inj_on_of_nodup_map hnodup (mem_of_mem_rankedProbes hq).1 hp heq
  exact hdead hq

end Discovery

/-! ## 5. Whole runs -/

theorem failStreak_restart (log : List LogEntry) (ip : String) : failStreak (log ++ [.restart]) ip = 0 := by
  rw [failStreak, List.flatMap_append, List.flatMap_singleton, LogEntry.checks, Streak.current_concat]
  rfl

/-- What a cycle does to a streak. -/
theorem failStreak_cycle (log : List LogEntry) (c : CycleLog) (ip : String) :
    failStreak (log ++ [.cycle c]) ip =
      if ip ∈ c.pruned then 0
      else (if ip ∈ c.excluded ∨ ip ∈ c.live then 0 else failStreak log ip) + if ip ∈ c.failed then 1 else 0 := by
  unfold failStreak
  rw [List.flatMap_append, List.flatMap_singleton, LogEntry.checks]
  by_cases hpruned : ip ∈ c.pruned
  · rw [if_pos hpruned, if_pos hpruned, ← List.append_assoc, Streak.current_concat]
    rfl
  rw [if_neg hpruned, if_neg hpruned, List.append_nil]
  have hcleared : (Streak.current id (log.flatMap (LogEntry.checks ip) ++
      if ip ∈ c.excluded ∨ ip ∈ c.live then [false] else [])).length =
      if ip ∈ c.excluded ∨ ip ∈ c.live then 0 else (Streak.current id (log.flatMap (LogEntry.checks ip))).length := by
    split
    · rw [Streak.current_concat]
      rfl
    · rw [List.append_nil]
  rw [← List.append_assoc]
  by_cases hfailed : ip ∈ c.failed
  · rw [if_pos hfailed, if_pos hfailed, Streak.current_concat, ← hcleared]
    exact List.length_append
  · rw [if_neg hfailed, if_neg hfailed, List.append_nil, hcleared, Nat.add_zero]

namespace Daemon

variable {args : PeerdArgs} {s t : Daemon} {f : Found} {ip : String}

structure Inv (s : Daemon) : Prop where
  tracked : Tracked s.candidates s.failCounts
  streaks : ∀ ip, countOf s.failCounts ip = failStreak s.log ip
  pruned : ∀ i c, s.log[i]? = some (.cycle c) → ∀ ip,
    ip ∈ c.pruned ↔ ip ∈ c.failed ∧ failStreak (s.log.take i) ip + 1 = PRUNE_AFTER
  allowed : ∀ c, s.log.getLast? = some (.cycle c) → ∀ ip ∈ s.candidates, ip ∉ c.excluded ∧ ip ∉ c.pruned

theorem inv_start (persisted : String) {log : List LogEntry}
    (hlog : ∀ i c, log[i]? = some (.cycle c) → ∀ ip,
      ip ∈ c.pruned ↔ ip ∈ c.failed ∧ failStreak (log.take i) ip + 1 = PRUNE_AFTER) :
    (start args persisted log).Inv where
  tracked := ⟨List.nodup_nil, fun p hp => absurd hp List.not_mem_nil, fun p hp => absurd hp List.not_mem_nil⟩
  streaks ip := (failStreak_restart log ip).symm
  pruned i c hc := by
    rcases Nat.lt_or_ge i log.length with hi | hi
    · rw [start, List.getElem?_append_left hi] at hc
      rw [start, List.take_append_of_le_length (Nat.le_of_lt hi)]
      exact hlog i c hc
    · rw [start, List.getElem?_append_right hi] at hc
      rcases hj : i - log.length with _ | j
      · rw [hj] at hc
        cases hc
      · rw [hj] at hc
        cases hc
  allowed c hc := by
    rw [start, List.getLast?_concat] at hc
    cases hc

/-- The count of an address before this cycle's failures are added. -/
theorem countOf_cleared (s : Daemon) (args : PeerdArgs) (f : Found) (ip : String) :
    countOf (s.cleared args f) ip =
      if ip ∈ excluded args f ∨ ip ∈ (rankProbes f.probes).1 then 0 else countOf s.failCounts ip := by
  rw [cleared, countOf_foldl_forgetCount, discover, countOf_dropExcluded]
  by_cases hlive : ip ∈ (rankProbes f.probes).1
  · rw [if_pos hlive, if_pos (Or.inr hlive)]
  · rw [if_neg hlive]
    by_cases hexcluded : ip ∈ excluded args f
    · rw [if_pos hexcluded, if_pos (Or.inl hexcluded)]
    · rw [if_neg hexcluded, if_neg (not_or.mpr ⟨hexcluded, hlive⟩)]

theorem Inv.cycle (h : s.Inv) (hprobed : s.Probed args f) : (s.cycle args f).Inv := by
  have hnodup := nodup_failed hprobed.1
  have hfailed : ∀ ip ∈ (rankProbes f.probes).2.1, ip ∈ (s.discover args f).1 := by
    intro ip hip
    obtain ⟨p, hp, -, rfl⟩ := mem_failed hip
    exact mem_discover_of_mem_slice (hprobed.2 p hp)
  obtain ⟨hcount, hmem⟩ := foldl_countFailure hnodup ((s.discover args f).1, s.cleared args f)
  refine ⟨?_, ?_, ?_, ?_⟩
  · exact (h.tracked.discover.forgetAll _).countFailures hnodup hfailed
  · intro ip
    show countOf (s.counted args f).2 ip = failStreak (s.log ++ [_]) ip
    rw [counted, hcount ip, failStreak_cycle, countOf_cleared, h.streaks ip]
    simp only [List.mem_filter, countOf_cleared, h.streaks ip, decide_eq_true_eq]
    by_cases hip : ip ∈ (rankProbes f.probes).2.1
    · simp only [hip, true_and, if_true]
    · simp only [hip, false_and, if_false, Nat.add_zero]
  · intro i c hc
    rcases Nat.lt_or_ge i s.log.length with hi | hi
    · rw [Daemon.cycle, List.getElem?_append_left hi] at hc
      rw [Daemon.cycle, List.take_append_of_le_length (Nat.le_of_lt hi)]
      exact h.pruned i c hc
    · rw [Daemon.cycle, List.getElem?_append_right hi] at hc
      obtain ⟨hlast, hlogged⟩ := List.getElem?_eq_some_iff.mp hc
      have hi' : i = s.log.length := Nat.le_antisymm (Nat.le_of_sub_eq_zero (Nat.lt_one_iff.mp hlast)) hi
      subst hi'
      simp only [Nat.sub_self, List.getElem_cons_zero, LogEntry.cycle.injEq] at hlogged
      subst hlogged
      intro ip
      rw [Daemon.cycle, List.take_left, ← h.streaks ip, List.mem_filter, decide_eq_true_iff]
      -- a count that is not cleared in this cycle comes to the last failure and not beyond it
      refine and_congr_right fun hin => ?_
      have hkept : ¬ (ip ∈ excluded args f ∨ ip ∈ (rankProbes f.probes).1) :=
        not_or.mpr ⟨not_mem_excluded_of_mem_discover (hfailed ip hin), not_mem_ranking_of_mem_failed hprobed.1 hin⟩
      have hbelow := h.tracked.countOf_lt ip
      rw [countOf_cleared, if_neg hkept]
      omega
  · intro c hc ip hip
    rw [Daemon.cycle, List.getLast?_concat] at hc
    cases hc
    obtain ⟨hin, hstays⟩ := (hmem ip).mp hip
    refine ⟨not_mem_excluded_of_mem_discover hin, ?_⟩
    intro hpruned
    obtain ⟨hfail, hlast⟩ := List.mem_filter.mp hpruned
    exact hstays ⟨hfail, of_decide_eq_true hlast⟩

theorem Inv.step {e : DaemonEvent} (h : s.Inv) (hstep : s.step args e = some t) : t.Inv := by
  cases e with
  | cycle f =>
    obtain ⟨hprobed, ⟨⟩⟩ := Option.ite_none_right_eq_some.mp hstep
    exact h.cycle hprobed
  | restart persisted =>
    cases hstep
    exact inv_start persisted h.pruned

/-- A step adds an entry to the log that says whom it takes away. -/
theorem exists_entry {e : DaemonEvent} (hstep : s.step args e = some t) :
    ∃ entry, t.log = s.log ++ [entry] ∧ ∀ ip ∈ s.candidates, ip ∈ t.candidates ∨ entry.Removes ip := by
  cases e with
  | cycle f =>
    obtain ⟨hprobed, ⟨⟩⟩ := Option.ite_none_right_eq_some.mp hstep
    obtain ⟨-, hmem⟩ := foldl_countFailure (nodup_failed hprobed.1) ((s.discover args f).1, s.cleared args f)
    refine ⟨_, rfl, fun ip hip => ?_⟩
    by_cases hexcluded : ip ∈ excluded args f
    · exact Or.inr (Or.inl hexcluded)
    · by_cases hpruned : ip ∈ (rankProbes f.probes).2.1 ∧ PRUNE_AFTER ≤ countOf (s.cleared args f) ip + 1
      · exact Or.inr (Or.inr (List.mem_filter.mpr ⟨hpruned.1, decide_eq_true hpruned.2⟩))
      · exact Or.inl ((hmem ip).mpr ⟨mem_discover hip hexcluded, hpruned⟩)
  | restart persisted =>
    cases hstep
    exact ⟨_, rfl, fun _ _ => Or.inr trivial⟩

/-- Over a run, a candidate stays or the log says what took it away. -/
theorem kept_or_removed {es : List DaemonEvent} (hrun : Machine.Run (step args) (fun _ _ => True) s es t) :
    ∃ more, t.log = s.log ++ more ∧ ∀ ip ∈ s.candidates, ip ∈ t.candidates ∨ ∃ entry ∈ more, entry.Removes ip := by
  refine hrun.invariant (I := fun t => ∃ more, t.log = s.log ++ more ∧
    ∀ ip ∈ s.candidates, ip ∈ t.candidates ∨ ∃ entry ∈ more, entry.Removes ip) ?_ ?_
  · exact ⟨[], (List.append_nil _).symm, fun ip hip => Or.inl hip⟩
  · rintro a e b ⟨more, hlog, hkept⟩ - hstep
    obtain ⟨entry, hentry, hstays⟩ := exists_entry hstep
    refine ⟨more ++ [entry], by rw [hentry, hlog, List.append_assoc], ?_⟩
    intro ip hip
    rcases hkept ip hip with hmem | ⟨old, hold, hremoves⟩
    · rcases hstays ip hmem with hmem | hremoves
      · exact Or.inl hmem
      · exact Or.inr ⟨entry, List.mem_append_right _ (List.mem_singleton_self _), hremoves⟩
    · exact Or.inr ⟨old, List.mem_append_left _ hold, hremoves⟩

end Daemon

/-- **Who stays a candidate.**  In every run of peerd, through restarts and whatever
    discovery and the probes bring: there is at most one count for each candidate and none
    for any other address; the count is the number of probes that failed in a row; a cycle
    prunes exactly the addresses whose probe fails for the `PRUNE_AFTER`th time in a row; a
    candidate is lost in no other way than that, by being excluded, or by a restart; and
    behind a cycle no candidate is excluded or was pruned in it. -/
theorem peerd_prunes_only_the_dead (args : PeerdArgs) (persisted : String) (es es' : List DaemonEvent) (s t : Daemon)
    (hrun : Machine.Run (Daemon.step args) (fun _ _ => True) (Daemon.start args persisted []) es s)
    (hrest : Machine.Run (Daemon.step args) (fun _ _ => True) s es' t) :
    (Tracked t.candidates t.failCounts ∧ t.failCounts.length ≤ t.candidates.card) ∧
    (∀ ip, countOf t.failCounts ip = failStreak t.log ip) ∧
    (∀ i c, t.log[i]? = some (.cycle c) → ∀ ip,
      ip ∈ c.pruned ↔ ip ∈ c.failed ∧ failStreak (t.log.take i) ip + 1 = PRUNE_AFTER) ∧
    (∃ more, t.log = s.log ++ more ∧
      ∀ ip ∈ s.candidates, ip ∈ t.candidates ∨ ∃ entry ∈ more, entry.Removes ip) ∧
    (∀ c, t.log.getLast? = some (.cycle c) → ∀ ip ∈ t.candidates, ip ∉ c.excluded ∧ ip ∉ c.pruned) := by
  have hinv : t.Inv := (hrun.trans hrest).invariant (Daemon.inv_start persisted fun i c hc => by cases hc)
    fun _ _ _ h _ hs => h.step hs
  exact ⟨⟨hinv.tracked, hinv.tracked.length_le⟩, hinv.streaks, hinv.pruned, Daemon.kept_or_removed hrest, hinv.allowed⟩

def ownArgs : PeerdArgs := ⟨{"203.0.113.9"}, 60, 1800, 256, by decide⟩

/-- The roots name a node of ours and a peer that does not answer. -/
def deadRoot : Found where
  blacklisted := []
  roots := ["203.0.113.9", "203.0.113.1"]
  discovered := []
  stats := []
  previousContents := ""
  probes := [("203.0.113.1", ⟨0, none⟩)]

/-- The peer is still a candidate at its 49th failure, and gone at the next one. -/
theorem peerd_prunes_only_the_dead_fifty :
    ∃ s t c, Machine.Run (Daemon.step ownArgs) (fun _ _ => True) (Daemon.start ownArgs "" [])
        (List.replicate 49 (.cycle deadRoot)) s ∧
      Machine.Run (Daemon.step ownArgs) (fun _ _ => True) s [.cycle deadRoot] t ∧
      "203.0.113.1" ∈ s.candidates ∧ failStreak s.log "203.0.113.1" = 49 ∧
      t.log.getLast? = some (.cycle c) ∧ "203.0.113.1" ∈ c.pruned ∧ "203.0.113.1" ∉ t.candidates := by
  have hexec : (Machine.exec (Daemon.step ownArgs) (fun _ _ => True) (Daemon.start ownArgs "" [])
      (List.replicate 49 (.cycle deadRoot))).map
        (fun s => (decide (s.Probed ownArgs deadRoot), s.candidates, countOf s.failCounts "203.0.113.1")) =
      some (true, {"203.0.113.1"}, 49) := by
    decide +kernel
  obtain ⟨s, hrun, hs⟩ := Option.map_eq_some_iff.mp hexec
  simp only [Prod.mk.injEq, decide_eq_true_eq] at hs
  obtain ⟨hprobed, hcandidates, hcount⟩ := hs
  have hrun := Machine.Run.of_exec hrun
  have hrest : Machine.Run (Daemon.step ownArgs) (fun _ _ => True) s [.cycle deadRoot] (s.cycle ownArgs deadRoot) :=
    Machine.Run.snoc (Machine.Run.nil s) trivial (if_pos hprobed)
  have hdead : "203.0.113.1" ∈ (rankProbes deadRoot.probes).2.1 := by decide
  obtain ⟨c, hlog, hfailed⟩ : ∃ c, (s.cycle ownArgs deadRoot).log = s.log ++ [.cycle c] ∧ "203.0.113.1" ∈ c.failed :=
    ⟨_, rfl, hdead⟩
  obtain ⟨-, hstreaks, -⟩ := peerd_prunes_only_the_dead ownArgs "" _ [] s s hrun (Machine.Run.nil s)
  obtain ⟨-, -, hpruned, -, hleft⟩ := peerd_prunes_only_the_dead ownArgs "" _ _ s _ hrun hrest
  have hstreak : failStreak s.log "203.0.113.1" = 49 := by rw [← hstreaks, hcount]
  have hlast : "203.0.113.1" ∈ c.pruned := by
    rw [hpruned s.log.length c (by rw [hlog]; exact List.getElem?_concat_length), hlog, List.take_left, hstreak]
    exact ⟨hfailed, rfl⟩
  have hend : (s.cycle ownArgs deadRoot).log.getLast? = some (.cycle c) := by rw [hlog, List.getLast?_concat]
  refine ⟨s, _, c, hrun, hrest, by rw [hcandidates]; exact Finset.mem_singleton_self _, hstreak, hend, hlast, ?_⟩
  exact fun hin => (hleft c hend _ hin).2 hlast

end Hypersync.Peerd
