import Hypersync.Lib.Machine
import Hypersync.Peerd.PeersFile
import Hypersync.Peerd.Tip
import Hypersync.Protocol.Rounds
import Mathlib.Data.Finset.Card
import Mathlib.Data.Finset.Filter
import Mathlib.Data.List.Sort

/-!
# The pool peerd publishes, cycle after cycle

A cycle probes its candidates and ranks the live ones.  What it then leaves in
`peers.json` depends on what the file holds: the ranking, if it is good enough; the
ranking with the previous pool after it, if the previous pool was good and the ranking
is thin; the previous pool alone, if nothing is live.  All it knows of earlier cycles
it reads from the text of the file.

`nextPool` says on lists what a cycle is meant to leave; `poolOf_writeCycle` says that
the code, which works on texts, leaves just that.
-/

namespace Hypersync.Peerd

open Hypersync.Protocol (isPlausibleMainnetRound)

/-! ## 1. The functions of the cycle -/

def MIN_LIVE_SERVERS_TO_OVERWRITE : Nat := 8

def MIN_LIVE_BLOCKS : Nat := 2

def shouldKeepPreviousPeerPool (currentLive previousLive : Nat) (previousTrusted : Bool) : Bool :=
  previousTrusted && decide (0 < previousLive) &&
    (currentLive == 0 ||
      (decide (currentLive < MIN_LIVE_SERVERS_TO_OVERWRITE) && decide (MIN_LIVE_SERVERS_TO_OVERWRITE ≤ previousLive)))

/-- `drop_excluded`: the candidates and the failure counts that stay, and how many
    candidates went. -/
def dropExcluded (candidates : Finset String) (failCounts : List (String × Nat)) (excluded : Finset String) :
    Finset String × List (String × Nat) × Nat :=
  let kept := candidates.filter (· ∉ excluded)
  (kept, failCounts.filter (fun p => p.1 ∉ excluded), candidates.card - kept.card)

/-- `previous_live_pool`: the addresses of the file without the excluded ones, and whether
    there were any of these. -/
def previousLivePool (contents : String) (excluded : Finset String) : List String × Bool :=
  let before := extractIpv4 contents
  let ips := before.filter (· ∉ excluded)
  (ips, decide (ips.length < before.length))

/-- `peer_pool_to_write`; `none` leaves the file as it is. -/
def peerPoolToWrite (ranked previousPruned : List String) : Bool → Bool → Option (List String)
  | false, _ => some ranked
  | true, true => some previousPruned
  | true, false => none

/-- `merge_kept_pool`: the ranking, the previous peers that did not fail, and of those
    that did as many as the pool is short of. -/
def mergeKeptPool (ranked previous : List String) (failed : Finset String) : List String :=
  let out := Fresh.pushAll ranked (previous.filter (· ∉ failed))
  Fresh.topUp MIN_LIVE_SERVERS_TO_OVERWRITE out (previous.filter (· ∈ failed))

/-- What a cycle found.  The ranking is of distinct peers that are not excluded, and no
    peer is both ranked and failed. -/
structure Cycle where
  excluded : Finset String
  ranked : List String
  failed : Finset String
  totalCandidates : Nat
  roundTip : Option UInt32
  ranked_nodup : ranked.Nodup
  ranked_peers : ∀ ip ∈ ranked, IsPeer ip
  ranked_allowed : ∀ ip ∈ ranked, ip ∉ excluded
  failed_apart : ∀ ip ∈ ranked, ip ∉ failed

/-- Whether the cycle keeps the pool of the file. -/
def keptPrevious (contents : String) (c : Cycle) : Bool :=
  shouldKeepPreviousPeerPool c.ranked.length (previousLivePool contents c.excluded).1.length
    (previousPeerPoolIsTrusted contents)

/-- The pool the cycle writes, if it writes one. -/
def published (contents : String) (c : Cycle) : Option (List String) :=
  let previous := previousLivePool contents c.excluded
  if keptPrevious contents c && !c.ranked.isEmpty then some (mergeKeptPool c.ranked previous.1 c.failed)
  else peerPoolToWrite c.ranked previous.1 (keptPrevious contents c) previous.2

/-- The end of a cycle of `run_peerd`, on the text of `peers.json` (`none`: no file). -/
def writeCycle (file : Option String) (c : Cycle) : Option String :=
  match published (file.getD "") c with
  | some pool => some (peersJson pool c.totalCandidates c.roundTip)
  | none => file

/-- The pool in the file. -/
def poolOf (file : Option String) : List String := extractIpv4 (file.getD "")

/-! ## 2. From the probes to the ranking -/

/-- `max_round` as it is compared: no round is below every round. -/
def roundKey (probe : LiveProbe) : Nat := (probe.maxRound.map fun round => round.toNat + 1).getD 0

/-- The order of the ranking: the higher round first, then more blocks. -/
def Fresher (p q : String × LiveProbe) : Prop :=
  roundKey q.2 < roundKey p.2 ∨ roundKey p.2 = roundKey q.2 ∧ q.2.blocks ≤ p.2.blocks

instance decidableFresher : DecidableRel Fresher := fun _ _ => inferInstanceAs (Decidable (_ ∨ _))

/-- The test each probe's outcome is put to when it comes in. -/
def probedLive (p : String × LiveProbe) : Bool :=
  decide (MIN_LIVE_BLOCKS ≤ p.2.blocks) && p.2.maxRound.any fun round => isPlausibleMainnetRound round 0

/-- The outcomes of the probes of a cycle, in the order they came in: the ranking, the
    failed peers, the tip. -/
def rankProbes (probes : Probes) : List String × List String × Option UInt32 :=
  let live := probes.filter probedLive
  let failed := (probes.filter fun p => !probedLive p).map Prod.fst
  let roundTip := clusteredProbeTip live
  let split := splitLiveByTip live roundTip
  ((split.1.insertionSort Fresher).map Prod.fst, failed ++ split.2, roundTip)

theorem splitLiveByTip_sublist (probes : Probes) (tip : Option UInt32) : (splitLiveByTip probes tip).1.Sublist probes := by
  rcases tip with _ | tip
  · exact List.Sublist.refl probes
  · rw [splitLiveByTip, splitLoop_eq, List.nil_append]
    exact List.filter_sublist

/-- The lagged peers are other outcomes than the live ones. -/
theorem mem_lagged {probes : Probes} {tip : Option UInt32} {ip : String}
    (h : ip ∈ (splitLiveByTip probes tip).2) : ∃ p ∈ probes, p ∉ (splitLiveByTip probes tip).1 ∧ p.1 = ip := by
  rcases tip with _ | tip
  · exact absurd h List.not_mem_nil
  · rw [splitLiveByTip, splitLoop_eq, List.nil_append] at h
    obtain ⟨p, hp, rfl⟩ := List.mem_map.mp h
    obtain ⟨hmem, hfar⟩ := List.mem_filter.mp hp
    refine ⟨p, hmem, fun hlive => ?_, rfl⟩
    rw [(mem_splitLiveByTip.mp hlive).2] at hfar
    cases hfar

/-- The probes that made it into the ranking. -/
def rankedProbes (probes : Probes) : Probes :=
  (splitLiveByTip (probes.filter probedLive) (clusteredProbeTip (probes.filter probedLive))).1

theorem rankedProbes_sublist (probes : Probes) : (rankedProbes probes).Sublist (probes.filter probedLive) :=
  splitLiveByTip_sublist _ _

theorem ranking_perm (probes : Probes) : (rankProbes probes).1.Perm ((rankedProbes probes).map Prod.fst) :=
  (List.perm_insertionSort Fresher _).map Prod.fst

theorem mem_ranking {probes : Probes} {ip : String} (h : ip ∈ (rankProbes probes).1) :
    ∃ p ∈ rankedProbes probes, p.1 = ip :=
  List.mem_map.mp ((ranking_perm probes).mem_iff.mp h)

theorem mem_of_mem_rankedProbes {probes : Probes} {p : String × LiveProbe} (h : p ∈ rankedProbes probes) :
    p ∈ probes ∧ probedLive p = true :=
  List.mem_filter.mp ((rankedProbes_sublist probes).subset h)

/-- A failed peer is the peer of a probe that is not ranked. -/
theorem mem_failed {probes : Probes} {ip : String} (h : ip ∈ (rankProbes probes).2.1) :
    ∃ p ∈ probes, p ∉ rankedProbes probes ∧ p.1 = ip := by
  rcases List.mem_append.mp h with h | h
  · obtain ⟨p, hp, rfl⟩ := List.mem_map.mp h
    obtain ⟨hmem, hdead⟩ := List.mem_filter.mp hp
    refine ⟨p, hmem, fun hranked => ?_, rfl⟩
    rw [(mem_of_mem_rankedProbes hranked).2] at hdead
    cases hdead
  · obtain ⟨p, hp, hnot, rfl⟩ := mem_lagged h
    exact ⟨p, (List.mem_filter.mp hp).1, hnot, rfl⟩

/-- **A cycle of probes.**  Distinct peers that are not excluded give a ranking and failures
    as a cycle has them. -/
def Cycle.ofProbes (excluded : Finset String) (probes : Probes) (totalCandidates : Nat)
    (hnodup : (probes.map Prod.fst).Nodup) (hpeers : ∀ p ∈ probes, IsPeer p.1)
    (hallowed : ∀ p ∈ probes, p.1 ∉ excluded) : Cycle where
  excluded := excluded
  ranked := (rankProbes probes).1
  failed := (rankProbes probes).2.1.toFinset
  totalCandidates := totalCandidates
  roundTip := (rankProbes probes).2.2
  ranked_nodup := by
    have hsub := (rankedProbes_sublist probes).trans List.filter_sublist
    exact (ranking_perm probes).nodup_iff.mpr (hnodup.sublist (hsub.map Prod.fst))
  ranked_peers := by
    intro ip hip
    obtain ⟨p, hp, rfl⟩ := mem_ranking hip
    exact hpeers p (mem_of_mem_rankedProbes hp).1
  ranked_allowed := by
    intro ip hip
    obtain ⟨p, hp, rfl⟩ := mem_ranking hip
    exact hallowed p (mem_of_mem_rankedProbes hp).1
  failed_apart := by
    intro ip hip hfailed
    obtain ⟨p, hp, rfl⟩ := mem_ranking hip
    obtain ⟨q, hq, hnot, heq⟩ := mem_failed (List.mem_toFinset.mp hfailed)
    -- one probe for each peer
    exact hnot (List.inj_on_of_nodup_map hnodup hq (mem_of_mem_rankedProbes hp).1 heq ▸ hp)

/-! ## 3. The merged pool -/

section Merged

variable {ranked previous : List String} {failed : Finset String} {ip : String}

theorem nodup_mergeKeptPool (h : ranked.Nodup) : (mergeKeptPool ranked previous failed).Nodup :=
  Fresh.nodup_topUp (Fresh.nodup_pushAll h)

theorem isPrefix_mergeKeptPool (ranked previous : List String) (failed : Finset String) :
    ranked <+: mergeKeptPool ranked previous failed :=
  (Fresh.isPrefix_pushAll _ _).trans (Fresh.isPrefix_topUp _ _ _)

theorem mem_mergeKeptPool (h : ip ∈ mergeKeptPool ranked previous failed) : ip ∈ ranked ∨ ip ∈ previous := by
  rcases Fresh.mem_of_mem_topUp h with h | h
  · exact (Fresh.mem_pushAll.mp h).imp_right fun h => (List.mem_filter.mp h).1
  · exact Or.inr (List.mem_filter.mp h).1

/-- A merged pool is full, or it has the whole previous pool. -/
theorem mergeKeptPool_full_or_all (ranked previous : List String) (failed : Finset String) :
    MIN_LIVE_SERVERS_TO_OVERWRITE ≤ (mergeKeptPool ranked previous failed).length ∨
      previous ⊆ mergeKeptPool ranked previous failed := by
  rcases Fresh.topUp_full_or_all MIN_LIVE_SERVERS_TO_OVERWRITE
    (Fresh.pushAll ranked (previous.filter (· ∉ failed))) (previous.filter (· ∈ failed)) with hfull | hall
  · exact Or.inl hfull
  · refine Or.inr fun ip hip => ?_
    by_cases hfailed : ip ∈ failed
    · exact hall ip (List.mem_filter.mpr ⟨hip, decide_eq_true hfailed⟩)
    · refine (Fresh.isPrefix_topUp _ _ _).subset (Fresh.mem_pushAll.mpr (Or.inr ?_))
      exact List.mem_filter.mpr ⟨hip, decide_eq_true hfailed⟩

/-- Merging does not thin a pool below the minimum. -/
theorem length_mergeKeptPool (hnodup : previous.Nodup) (h : MIN_LIVE_SERVERS_TO_OVERWRITE ≤ previous.length) :
    MIN_LIVE_SERVERS_TO_OVERWRITE ≤ (mergeKeptPool ranked previous failed).length := by
  rcases mergeKeptPool_full_or_all ranked previous failed with hfull | hall
  · exact hfull
  · exact Nat.le_trans h (hnodup.subperm hall).length_le

/-- A failed peer is there only to reach the minimum. -/
theorem length_mergeKeptPool_of_failed (hfailed : ip ∈ failed) (hranked : ip ∉ ranked)
    (h : ip ∈ mergeKeptPool ranked previous failed) :
    (mergeKeptPool ranked previous failed).length ≤ MIN_LIVE_SERVERS_TO_OVERWRITE := by
  refine Fresh.length_topUp_of_new h fun hmem => ?_
  rcases Fresh.mem_pushAll.mp hmem with hmem | hmem
  · exact hranked hmem
  · exact of_decide_eq_true (List.mem_filter.mp hmem).2 hfailed

end Merged

/-! ## 4. What a cycle is to leave -/

/-- The pool after a cycle, from the pool before it without the excluded peers. -/
def nextPool (previous : List String) (c : Cycle) : List String :=
  if previous ≠ [] ∧ c.ranked = [] then previous
  else if c.ranked.length < MIN_LIVE_SERVERS_TO_OVERWRITE ∧ MIN_LIVE_SERVERS_TO_OVERWRITE ≤ previous.length then
    mergeKeptPool c.ranked previous c.failed
  else c.ranked

/-- The three outcomes. -/
theorem nextPool_cases (previous : List String) (c : Cycle) :
    (previous ≠ [] ∧ c.ranked = [] ∧ nextPool previous c = previous) ∨
    (c.ranked ≠ [] ∧ c.ranked.length < MIN_LIVE_SERVERS_TO_OVERWRITE ∧
      MIN_LIVE_SERVERS_TO_OVERWRITE ≤ previous.length ∧ nextPool previous c = mergeKeptPool c.ranked previous c.failed) ∨
    ((previous = [] ∨ c.ranked ≠ []) ∧
      (MIN_LIVE_SERVERS_TO_OVERWRITE ≤ c.ranked.length ∨ previous.length < MIN_LIVE_SERVERS_TO_OVERWRITE) ∧
      nextPool previous c = c.ranked) := by
  by_cases hfirst : previous ≠ [] ∧ c.ranked = []
  · exact Or.inl ⟨hfirst.1, hfirst.2, if_pos hfirst⟩
  · have hor : previous = [] ∨ c.ranked ≠ [] := by
      by_cases hprev : previous = []
      · exact Or.inl hprev
      · exact Or.inr fun hranked => hfirst ⟨hprev, hranked⟩
    by_cases hthin : c.ranked.length < MIN_LIVE_SERVERS_TO_OVERWRITE ∧
        MIN_LIVE_SERVERS_TO_OVERWRITE ≤ previous.length
    · have hranked : c.ranked ≠ [] := by
        rcases hor with rfl | hranked
        · exact absurd hthin.2 (by decide)
        · exact hranked
      exact Or.inr (Or.inl ⟨hranked, hthin.1, hthin.2, (if_neg hfirst).trans (if_pos hthin)⟩)
    · exact Or.inr (Or.inr ⟨hor, by omega, (if_neg hfirst).trans (if_neg hthin)⟩)

section NextPool

variable {previous : List String} {c : Cycle} {ip : String}

theorem nodup_nextPool (h : previous.Nodup) : (nextPool previous c).Nodup := by
  rcases nextPool_cases previous c with ⟨-, -, heq⟩ | ⟨-, -, -, heq⟩ | ⟨-, -, heq⟩
  · rwa [heq]
  · rw [heq]
    exact nodup_mergeKeptPool c.ranked_nodup
  · rw [heq]
    exact c.ranked_nodup

theorem mem_nextPool (h : ip ∈ nextPool previous c) : ip ∈ c.ranked ∨ ip ∈ previous := by
  rcases nextPool_cases previous c with ⟨-, -, heq⟩ | ⟨-, -, -, heq⟩ | ⟨-, -, heq⟩
  · exact Or.inr (heq ▸ h)
  · exact mem_mergeKeptPool (heq ▸ h)
  · exact Or.inl (heq ▸ h)

theorem isPrefix_nextPool (h : c.ranked ≠ []) : c.ranked <+: nextPool previous c := by
  rcases nextPool_cases previous c with ⟨-, hnone, -⟩ | ⟨-, -, -, heq⟩ | ⟨-, -, heq⟩
  · exact absurd hnone h
  · exact heq ▸ isPrefix_mergeKeptPool _ _ _
  · exact heq ▸ List.prefix_refl c.ranked

theorem nextPool_ne_nil (h : previous ≠ []) : nextPool previous c ≠ [] := by
  rcases nextPool_cases previous c with ⟨-, -, heq⟩ | ⟨hranked, -⟩ | ⟨hor, -, heq⟩
  · rwa [heq]
  · exact fun hnil => hranked (List.prefix_nil.mp (hnil ▸ isPrefix_nextPool hranked))
  · exact heq ▸ hor.resolve_left h

theorem length_nextPool (hnodup : previous.Nodup) (h : MIN_LIVE_SERVERS_TO_OVERWRITE ≤ previous.length) :
    MIN_LIVE_SERVERS_TO_OVERWRITE ≤ (nextPool previous c).length := by
  rcases nextPool_cases previous c with ⟨-, -, heq⟩ | ⟨-, -, -, heq⟩ | ⟨-, hor, heq⟩
  · rwa [heq]
  · rw [heq]
    exact length_mergeKeptPool hnodup h
  · rw [heq]
    exact hor.resolve_right (Nat.not_lt.mpr h)

end NextPool

/-! ## 5. What a cycle leaves -/

/-- No file, or a file that peerd wrote. -/
def Written (file : Option String) : Prop :=
  file = none ∨ ∃ pool n tip, pool.Nodup ∧ (∀ ip ∈ pool, IsPeer ip) ∧ file = some (peersJson pool n tip)

/-- The pool of the file without the peers this cycle excludes. -/
def allowedPool (file : Option String) (c : Cycle) : List String := (poolOf file).filter (· ∉ c.excluded)

theorem poolOf_peersJson {pool : List String} (h : ∀ ip ∈ pool, IsPeer ip) (n : Nat) (tip : Option UInt32) :
    poolOf (some (peersJson pool n tip)) = pool :=
  extractIpv4_peersJson h n tip

theorem isPeer_of_mem_poolOf {file : Option String} {ip : String} (h : ip ∈ poolOf file) : IsPeer ip :=
  isPeer_of_mem_extractIpv4 h

theorem Written.nodup {file : Option String} (h : Written file) : (poolOf file).Nodup := by
  rcases h with rfl | ⟨pool, n, tip, hnodup, hpeers, rfl⟩
  · exact List.nodup_nil
  · rwa [poolOf_peersJson hpeers]

/-- What peerd wrote is trusted as long as there is anything in it. -/
theorem Written.trusted {file : Option String} (h : Written file) :
    previousPeerPoolIsTrusted (file.getD "") = !(poolOf file).isEmpty := by
  rcases h with rfl | ⟨pool, n, tip, hnodup, hpeers, rfl⟩
  · decide
  · rw [poolOf_peersJson hpeers]
    exact previousPeerPoolIsTrusted_peersJson hpeers n tip

theorem keptPrevious_eq {file : Option String} (h : Written file) (c : Cycle) :
    keptPrevious (file.getD "") c = decide (allowedPool file c ≠ [] ∧ (c.ranked = [] ∨
      c.ranked.length < MIN_LIVE_SERVERS_TO_OVERWRITE ∧
        MIN_LIVE_SERVERS_TO_OVERWRITE ≤ (allowedPool file c).length)) := by
  have hlive : (previousLivePool (file.getD "") c.excluded).1 = allowedPool file c := rfl
  rw [keptPrevious, hlive, h.trusted, Bool.eq_iff_iff, decide_eq_true_iff]
  simp only [shouldKeepPreviousPeerPool, Bool.and_eq_true, Bool.or_eq_true, decide_eq_true_eq, beq_iff_eq,
    List.length_eq_zero_iff, List.length_pos_iff, Bool.not_eq_true', List.isEmpty_eq_false_iff]
  constructor
  · rintro ⟨⟨-, hallowed⟩, hthin⟩
    exact ⟨hallowed, hthin⟩
  · rintro ⟨hallowed, hthin⟩
    refine ⟨⟨fun hnil => hallowed ?_, hallowed⟩, hthin⟩
    rw [allowedPool, hnil]
    rfl

/-- A file is left alone only if it names no excluded peer. -/
theorem allowedPool_of_untainted {file : Option String} {c : Cycle}
    (h : (previousLivePool (file.getD "") c.excluded).2 = false) : allowedPool file c = poolOf file := by
  have hge : (poolOf file).length ≤ (allowedPool file c).length := Nat.le_of_not_lt (of_decide_eq_false h)
  exact List.filter_sublist.eq_of_length_le hge

/-- **The code keeps to `nextPool`.** -/
theorem published_eq {file : Option String} (h : Written file) (c : Cycle) :
    published (file.getD "") c = some (nextPool (allowedPool file c) c) ∨
      published (file.getD "") c = none ∧ poolOf file = nextPool (allowedPool file c) c := by
  have hdef : published (file.getD "") c =
      if keptPrevious (file.getD "") c && !c.ranked.isEmpty then some (mergeKeptPool c.ranked (allowedPool file c) c.failed)
      else peerPoolToWrite c.ranked (allowedPool file c) (keptPrevious (file.getD "") c)
        (previousLivePool (file.getD "") c.excluded).2 := rfl
  have hkept := keptPrevious_eq h c
  rw [hdef]
  rcases nextPool_cases (allowedPool file c) c with ⟨hprev, hnone, heq⟩ | ⟨hranked, hthin, hprev, heq⟩ | ⟨hor, hfull, heq⟩
  · -- nothing is live: the previous pool, rewritten if it names an excluded peer
    rw [decide_eq_true ⟨hprev, Or.inl hnone⟩] at hkept
    rw [hkept, hnone, heq]
    rcases htaint : (previousLivePool (file.getD "") c.excluded).2 with _ | _
    · exact Or.inr ⟨rfl, (allowedPool_of_untainted htaint).symm⟩
    · exact Or.inl rfl
  · have hne : allowedPool file c ≠ [] := fun hnil => absurd (hnil ▸ hprev) (by decide)
    rw [decide_eq_true ⟨hne, Or.inr ⟨hthin, hprev⟩⟩] at hkept
    rw [hkept, heq, if_pos (by simpa using hranked)]
    exact Or.inl rfl
  · have hnot : ¬ (allowedPool file c ≠ [] ∧ (c.ranked = [] ∨ c.ranked.length < MIN_LIVE_SERVERS_TO_OVERWRITE ∧
        MIN_LIVE_SERVERS_TO_OVERWRITE ≤ (allowedPool file c).length)) := by
      rintro ⟨hne, hnone | ⟨hlt, hle⟩⟩
      · exact (hor.resolve_left hne) hnone
      · omega
    rw [decide_eq_false hnot] at hkept
    rw [hkept, heq]
    exact Or.inl rfl

theorem isPeer_of_mem_nextPool {file : Option String} {c : Cycle} {ip : String}
    (h : ip ∈ nextPool (allowedPool file c) c) : IsPeer ip := by
  rcases mem_nextPool h with h | h
  · exact c.ranked_peers ip h
  · exact isPeer_of_mem_poolOf (List.mem_filter.mp h).1

theorem poolOf_writeCycle {file : Option String} (h : Written file) (c : Cycle) :
    poolOf (writeCycle file c) = nextPool (allowedPool file c) c := by
  unfold writeCycle
  rcases published_eq h c with hsome | ⟨hnone, hsame⟩
  · rw [hsome]
    exact poolOf_peersJson (fun ip hip => isPeer_of_mem_nextPool hip) _ _
  · rw [hnone]
    exact hsame

theorem written_writeCycle {file : Option String} (h : Written file) (c : Cycle) : Written (writeCycle file c) := by
  unfold writeCycle
  rcases published_eq h c with hsome | ⟨hnone, -⟩
  · rw [hsome]
    have hnodup := nodup_nextPool (c := c) (h.nodup.filter fun ip => decide (ip ∉ c.excluded))
    exact Or.inr ⟨_, _, _, hnodup, fun ip hip => isPeer_of_mem_nextPool hip, rfl⟩
  · rw [hnone]
    exact h

/-! ## 6. Every cycle -/

/-- A run of peerd is a list of cycles, the file its only memory; peerd may be restarted
    between any two. -/
def step (file : Option String) (c : Cycle) : Option (Option String) := some (writeCycle file c)

theorem written_of_run {cycles : List Cycle} {file : Option String}
    (hrun : Machine.Run step (fun _ _ => True) none cycles file) : Written file := by
  refine hrun.invariant (Or.inl rfl) fun file c file' h _ hstep => ?_
  cases hstep
  exact written_writeCycle h c

/-- **A good pool is never thinned.**  After any cycles, each with whatever ranking, failures
    and exclusions it had, one more cycle leaves a pool without repetition and without an
    excluded peer.  The pool starts with the whole ranking, if there is one.  It is not
    empty if the pool before, without the excluded peers, was not; and it has the
    minimum if that had it.  A previous peer that failed is in a merged pool only if the
    pool has less than the minimum without it. -/
theorem peerd_never_thins_pool {cycles : List Cycle} {file : Option String}
    (hrun : Machine.Run step (fun _ _ => True) none cycles file) (c : Cycle) :
    (poolOf (writeCycle file c)).Nodup ∧
    (∀ ip ∈ poolOf (writeCycle file c), ip ∉ c.excluded) ∧
    (c.ranked ≠ [] → c.ranked <+: poolOf (writeCycle file c)) ∧
    (allowedPool file c ≠ [] → poolOf (writeCycle file c) ≠ []) ∧
    (MIN_LIVE_SERVERS_TO_OVERWRITE ≤ (allowedPool file c).length →
      MIN_LIVE_SERVERS_TO_OVERWRITE ≤ (poolOf (writeCycle file c)).length) ∧
    (keptPrevious (file.getD "") c = true → c.ranked ≠ [] → ∀ ip ∈ poolOf file, ip ∈ c.failed →
      ip ∈ poolOf (writeCycle file c) →
        ((poolOf (writeCycle file c)).erase ip).length < MIN_LIVE_SERVERS_TO_OVERWRITE) := by
  have hwritten := written_of_run hrun
  have hnodup : (allowedPool file c).Nodup := hwritten.nodup.filter _
  rw [poolOf_writeCycle hwritten]
  refine ⟨nodup_nextPool hnodup, fun ip hip => ?_, isPrefix_nextPool, nextPool_ne_nil, length_nextPool hnodup, ?_⟩
  · rcases mem_nextPool hip with hip | hip
    · exact c.ranked_allowed ip hip
    · exact of_decide_eq_true (List.mem_filter.mp hip).2
  · intro hkept hranked ip _ hfailed hip
    rw [keptPrevious_eq hwritten, decide_eq_true_iff] at hkept
    have hmerged : nextPool (allowedPool file c) c = mergeKeptPool c.ranked (allowedPool file c) c.failed := by
      rcases nextPool_cases (allowedPool file c) c with ⟨-, hnone, -⟩ | ⟨-, -, -, heq⟩ | ⟨-, hfull, -⟩
      · exact absurd hnone hranked
      · exact heq
      · have hthin := hkept.2.resolve_left hranked
        omega
    have hlen := List.length_erase_of_mem hip
    rw [hmerged] at hip hlen ⊢
    have hle := length_mergeKeptPool_of_failed hfailed (fun hmem => c.failed_apart ip hmem hfailed) hip
    have hpos := List.length_pos_of_mem hip
    omega

/-- The first file is the ranking of its cycle. -/
theorem poolOf_writeCycle_none (c : Cycle) : poolOf (writeCycle none c) = c.ranked := by
  have hempty : allowedPool none c = [] := rfl
  rw [poolOf_writeCycle (Or.inl rfl), hempty, nextPool, if_neg (fun h => h.1 rfl), if_neg (fun h => absurd h.2 (by decide))]

def nineAddresses : List Ipv4Addr :=
  [(1, 1, 1, 1), (2, 2, 2, 2), (3, 3, 3, 3), (4, 4, 4, 4), (5, 5, 5, 5), (6, 6, 6, 6), (7, 7, 7, 7), (8, 8, 8, 8),
    (9, 9, 9, 9)]

theorem isPeer_nineAddresses : ∀ s ∈ nineAddresses.map Ipv4Addr.toString, IsPeer s := by
  intro s hs
  obtain ⟨ip, hip, rfl⟩ := List.mem_map.mp hs
  have hroutable : nineAddresses.all (fun ip => isRoutable ip.toString) = true := by decide
  exact isPeer_toString (List.all_eq_true.mp hroutable ip hip)

/-- Nine live peers. -/
def goodCycle : Cycle where
  excluded := ∅
  ranked := nineAddresses.map Ipv4Addr.toString
  failed := ∅
  totalCandidates := 9
  roundTip := none
  ranked_nodup := by decide
  ranked_peers := isPeer_nineAddresses
  ranked_allowed := by decide
  failed_apart := by decide

/-- One live peer; two of the nine failed and one is blacklisted now. -/
def thinCycle : Cycle where
  excluded := {"9.9.9.9"}
  ranked := ["8.8.8.8"]
  failed := {"1.1.1.1", "2.2.2.2"}
  totalCandidates := 9
  roundTip := none
  ranked_nodup := by decide
  ranked_peers := by
    intro ip hip
    obtain rfl := List.mem_singleton.mp hip
    exact isPeer_nineAddresses _ (by decide)
  ranked_allowed := by decide
  failed_apart := by decide

theorem peerd_never_thins_pool_thinCycle :
    MIN_LIVE_SERVERS_TO_OVERWRITE ≤ (allowedPool (writeCycle none goodCycle) thinCycle).length ∧
      thinCycle.ranked <+: poolOf (writeCycle (writeCycle none goodCycle) thinCycle) ∧
      MIN_LIVE_SERVERS_TO_OVERWRITE ≤ (poolOf (writeCycle (writeCycle none goodCycle) thinCycle)).length := by
  have hrun : Machine.Run step (fun _ _ => True) none [goodCycle] (writeCycle none goodCycle) :=
    Machine.Run.snoc (Machine.Run.nil none) trivial rfl
  have hlen : MIN_LIVE_SERVERS_TO_OVERWRITE ≤ (allowedPool (writeCycle none goodCycle) thinCycle).length := by
    rw [allowedPool, poolOf_writeCycle_none]
    decide
  obtain ⟨-, -, hstart, -, hmin, -⟩ := peerd_never_thins_pool hrun thinCycle
  exact ⟨hlen, hstart (by decide), hmin hlen⟩

end Hypersync.Peerd
