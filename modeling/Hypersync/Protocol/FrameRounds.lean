import Hypersync.Protocol.Frames
import Mathlib.Data.List.Sort

/-!
# The highest round of a captured stream

`max_block_round_in_frames` walks a stream header by header and takes the
highest round of the best cluster among the rounds it reads.  Two things are
shown of it:

  * the scan of `best_round_cluster` finds the longest maximal run of the sorted
    rounds, the highest one on ties (`bestRoundCluster_eq_some_iff`), and nothing
    exactly when all runs are too short (`bestRoundCluster_eq_none_iff`);
  * the walk stays aligned whatever the frames are (`roundsInFrames_stream`), up
    to a tail that was cut anywhere, so the answer is a function of the frames
    and not of their order.
-/

namespace Hypersync.Protocol

open Runs (IsRun)

/-! ## 1. The best run -/

/-- The rounds at positions `i - 1` and `i` differ by at most `maxGap`. -/
def Near (sorted : List UInt32) (maxGap : UInt32) (i : Nat) : Prop :=
  ∃ below above, sorted[i - 1]? = some below ∧ sorted[i]? = some above ∧
    above.toNat ≤ below.toNat + maxGap.toNat

/-- A longest maximal run of the sorted rounds, the highest one on ties. -/
structure BestRun (sorted : List UInt32) (maxGap : UInt32) (a b : Nat) : Prop where
  run : IsRun (Near sorted maxGap) sorted.length a b
  longest : ∀ a' b', IsRun (Near sorted maxGap) sorted.length a' b' → b' - a' ≤ b - a
  highest : ∀ a' b', IsRun (Near sorted maxGap) sorted.length a' b' → b' - a' = b - a → a' ≤ a

/-- What `best_round_cluster` looks for: the rounds of the best run, if they are
    at least `minCluster`. -/
def IsBestCluster (rounds : List UInt32) (minCluster : Nat) (maxGap : UInt32) (cluster : List UInt32) :
    Prop :=
  ∃ a b, BestRun (rounds.insertionSort (· ≤ ·)) maxGap a b ∧ minCluster ≤ b - a ∧
    cluster = ((rounds.insertionSort (· ≤ ·)).drop a).take (b - a)

theorem continues_iff_near (sorted : List UInt32) (maxGap : UInt32) (i : Nat) :
    Continues sorted maxGap i ↔ Near sorted maxGap i := by
  constructor
  · rintro ⟨hi, hgap⟩
    have hi' : i - 1 < sorted.length := by omega
    rw [List.getD_eq_getElem _ _ hi, List.getD_eq_getElem _ _ hi', UInt32.le_iff_toNat_le,
      Word.toNat_satSub] at hgap
    exact ⟨sorted[i - 1], sorted[i], List.getElem?_eq_getElem hi', List.getElem?_eq_getElem hi, by omega⟩
  · rintro ⟨below, above, hbelow, habove, hgap⟩
    obtain ⟨hi, -⟩ := List.getElem?_eq_some_iff.mp habove
    refine ⟨hi, ?_⟩
    rw [List.getD_eq_getElem?_getD, List.getD_eq_getElem?_getD, hbelow, habove, Option.getD_some,
      Option.getD_some, UInt32.le_iff_toNat_le, Word.toNat_satSub]
    omega

theorem cluster_iff (sorted : List UInt32) (maxGap : UInt32) (a b : Nat) :
    Cluster sorted maxGap a b ↔ IsRun (Near sorted maxGap) sorted.length a b := by
  have hlink : Continues sorted maxGap = Near sorted maxGap :=
    funext fun i => propext (continues_iff_near sorted maxGap i)
  rw [Cluster, hlink]

theorem BestRun.unique {sorted : List UInt32} {maxGap : UInt32} {a b a' b' : Nat}
    (h : BestRun sorted maxGap a b) (h' : BestRun sorted maxGap a' b') : a = a' ∧ b = b' := by
  have hlen : b - a = b' - a' :=
    Nat.le_antisymm (h'.longest a b h.run) (h.longest a' b' h'.run)
  have hstart : a = a' :=
    Nat.le_antisymm (h'.highest a b h.run hlen) (h.highest a' b' h'.run hlen.symm)
  have := h.run.lt
  have := h'.run.lt
  exact ⟨hstart, by omega⟩

/-- The scan ends with the best run. -/
theorem exists_bestRun {rounds : List UInt32} {minCluster : Nat} (maxGap : UInt32)
    (hmin : 0 < minCluster) (hlen : minCluster ≤ rounds.length) :
    ∃ a b, BestRun (rounds.insertionSort (· ≤ ·)) maxGap a b ∧
      bestRoundCluster rounds minCluster maxGap =
        if minCluster ≤ b - a then
          some (((rounds.insertionSort (· ≤ ·)).drop a).take (b - a)) else none := by
  obtain ⟨a, b, hrun, hwins, heq⟩ := bestRoundCluster_spec maxGap hmin hlen
  refine ⟨a, b, ⟨(cluster_iff _ _ _ _).mp hrun, ?_, ?_⟩, heq⟩
  · intro a' b' hrun'
    rcases hwins a' b' ((cluster_iff _ _ _ _).mpr hrun') with hless | ⟨hsame, -⟩
    · omega
    · omega
  · intro a' b' hrun' hsame
    rcases hwins a' b' ((cluster_iff _ _ _ _).mpr hrun') with hless | ⟨-, hle⟩
    · omega
    · exact hle

theorem bestRoundCluster_eq_none_of_lt {rounds : List UInt32} {minCluster : Nat} (maxGap : UInt32)
    (hlen : rounds.length < minCluster) : bestRoundCluster rounds minCluster maxGap = none :=
  if_pos (Or.inl hlen)

theorem bestRoundCluster_eq_some_iff (rounds : List UInt32) {minCluster : Nat} (maxGap : UInt32)
    (hmin : 0 < minCluster) (cluster : List UInt32) :
    bestRoundCluster rounds minCluster maxGap = some cluster ↔
      IsBestCluster rounds minCluster maxGap cluster := by
  by_cases hlen : minCluster ≤ rounds.length
  · obtain ⟨a, b, hbest, heq⟩ := exists_bestRun maxGap hmin hlen
    rw [heq]
    constructor
    · intro h
      split at h
      · next hmany => exact ⟨a, b, hbest, hmany, (Option.some.inj h).symm⟩
      · cases h
    · rintro ⟨a', b', hbest', hmany, rfl⟩
      obtain ⟨rfl, rfl⟩ := hbest.unique hbest'
      rw [if_pos hmany]
  · rw [bestRoundCluster_eq_none_of_lt maxGap (Nat.lt_of_not_le hlen)]
    constructor
    · intro h
      cases h
    · rintro ⟨a, b, hbest, hmany, -⟩
      have hle := hbest.run.le
      rw [List.length_insertionSort] at hle
      omega

theorem bestRoundCluster_eq_none_iff (rounds : List UInt32) {minCluster : Nat} (maxGap : UInt32)
    (hmin : 0 < minCluster) :
    bestRoundCluster rounds minCluster maxGap = none ↔
      ∀ a b, IsRun (Near (rounds.insertionSort (· ≤ ·)) maxGap) (rounds.insertionSort (· ≤ ·)).length a b →
        b - a < minCluster := by
  by_cases hlen : minCluster ≤ rounds.length
  · obtain ⟨a, b, hbest, heq⟩ := exists_bestRun maxGap hmin hlen
    rw [heq]
    constructor
    · intro h a' b' hrun'
      have hle := hbest.longest a' b' hrun'
      split at h
      · cases h
      · omega
    · intro h
      rw [if_neg (Nat.not_le.mpr (h a b hbest.run))]
  · rw [bestRoundCluster_eq_none_of_lt maxGap (Nat.lt_of_not_le hlen)]
    refine ⟨fun _ a b hrun => ?_, fun _ => rfl⟩
    have hle := hrun.le
    rw [List.length_insertionSort] at hle
    omega

/-- The cluster depends on the rounds, not on their order. -/
theorem bestRoundCluster_perm {rounds rounds' : List UInt32} (hperm : rounds.Perm rounds')
    (minCluster : Nat) (maxGap : UInt32) :
    bestRoundCluster rounds minCluster maxGap = bestRoundCluster rounds' minCluster maxGap := by
  have hsort : rounds.insertionSort (· ≤ ·) = rounds'.insertionSort (· ≤ ·) :=
    List.Perm.eq_of_pairwise' (List.pairwise_insertionSort _ _) (List.pairwise_insertionSort _ _)
      (((List.perm_insertionSort _ _).trans hperm).trans (List.perm_insertionSort _ _).symm)
  unfold bestRoundCluster
  rw [hperm.length_eq, hsort]

/-- The last round of the best cluster is its highest. -/
theorem maxClusteredRound_eq_some_iff (rounds : List UInt32) {minCluster : Nat} (maxGap : UInt32)
    (hmin : 0 < minCluster) (top : UInt32) :
    maxClusteredRound rounds minCluster maxGap = some top ↔
      ∃ cluster, IsBestCluster rounds minCluster maxGap cluster ∧ top ∈ cluster ∧
        ∀ r ∈ cluster, r ≤ top := by
  have hlast : ∀ cluster, IsBestCluster rounds minCluster maxGap cluster →
      ∃ h : cluster.length - 1 < cluster.length, ∀ r ∈ cluster, r ≤ cluster[cluster.length - 1] := by
    rintro cluster ⟨a, b, hbest, hmany, rfl⟩
    have hle := hbest.run.le
    have hsorted : (((rounds.insertionSort (· ≤ ·)).drop a).take (b - a)).Pairwise (· ≤ ·) :=
      (List.pairwise_insertionSort (· ≤ ·) rounds).sublist
        ((List.take_sublist _ _).trans (List.drop_sublist _ _))
    have hpos : 0 < (((rounds.insertionSort (· ≤ ·)).drop a).take (b - a)).length := by
      rw [List.length_take, List.length_drop]
      omega
    refine ⟨Nat.sub_lt hpos Nat.one_pos, ?_⟩
    intro r hr
    obtain ⟨i, hi, rfl⟩ := List.mem_iff_getElem.mp hr
    exact Runs.getElem_mono hsorted (Nat.le_sub_one_of_lt hi) _
  rw [maxClusteredRound, Option.bind_eq_some_iff]
  simp only [bestRoundCluster_eq_some_iff rounds maxGap hmin]
  constructor
  · rintro ⟨cluster, hbest, hget⟩
    obtain ⟨hlt, hmax⟩ := hlast cluster hbest
    rw [List.getElem?_eq_getElem hlt, Option.some.injEq] at hget
    subst hget
    exact ⟨cluster, hbest, List.getElem_mem hlt, hmax⟩
  · rintro ⟨cluster, hbest, hmem, hmax⟩
    obtain ⟨hlt, hmax'⟩ := hlast cluster hbest
    refine ⟨cluster, hbest, ?_⟩
    rw [List.getElem?_eq_getElem hlt, Option.some.injEq]
    exact le_antisymm (hmax _ (List.getElem_mem hlt)) (hmax' top hmem)

theorem maxClusteredRound_eq_none_iff (rounds : List UInt32) {minCluster : Nat} (maxGap : UInt32)
    (hmin : 0 < minCluster) :
    maxClusteredRound rounds minCluster maxGap = none ↔ bestRoundCluster rounds minCluster maxGap = none := by
  constructor
  · intro h
    rcases hbest : bestRoundCluster rounds minCluster maxGap with _ | cluster
    · rfl
    -- a cluster has members, so it has a last one
    rw [maxClusteredRound, hbest, Option.bind_some, List.getElem?_eq_none_iff] at h
    obtain ⟨a, b, hrun, hmany, rfl⟩ := (bestRoundCluster_eq_some_iff rounds maxGap hmin cluster).mp hbest
    have hle := hrun.run.le
    rw [List.length_take, List.length_drop] at h
    omega
  · intro h
    rw [maxClusteredRound, h, Option.bind_none]

/-! ## 2. The walk over a stream -/

/-- A frame of whatever length its header declares. -/
structure RawFrame where
  header : Header
  payload : List UInt8
  sized : payload.length = header.len

/-- A block of round `r`. -/
def liveBlock (r : UInt32) : RawFrame := ⟨⟨0, 0, 0, 29, 1⟩, blockPayload r, rfl⟩

def RawFrame.bytes (f : RawFrame) : List UInt8 := f.header.bytes ++ f.payload

def stream (fs : List RawFrame) : List UInt8 := (fs.map RawFrame.bytes).flatten

/-- What a cut leaves: less than a header, or a header and less than its payload. -/
def Truncated (tail : List UInt8) : Prop :=
  ∀ (h : Header) (rest : List UInt8), tail = h.bytes ++ rest → rest.length < h.len

section

variable (lz4 : Lz4.Decoder)

/-- The round a frame contributes: that of a block frame of live size, if plausible. -/
def frameRound (f : RawFrame) : Option UInt32 :=
  if f.header.typ = 1 ∧ f.header.len ≤ MAX_LIVE_FRAME then
    (blockRound lz4 f.payload).filter fun round => isPlausibleMainnetRound round 0
  else none

theorem roundsInFrames_truncated {tail : List UInt8} (htail : Truncated tail) (fuel : Nat) :
    roundsInFrames lz4 fuel tail = [] := by
  rcases fuel with _ | fuel
  · rfl
  rcases tail with _ | ⟨b0, _ | ⟨b1, _ | ⟨b2, _ | ⟨b3, _ | ⟨typ, rest⟩⟩⟩⟩⟩
  · rfl
  · rfl
  · rfl
  · rfl
  · rfl
  · rw [roundsInFrames]
    exact if_pos (htail ⟨b0, b1, b2, b3, typ⟩ rest rfl)

/-- One turn of the walk: a frame contributes its round and the next header follows its payload. -/
theorem roundsInFrames_frame (f : RawFrame) (rest : List UInt8) (fuel : Nat) :
    roundsInFrames lz4 (fuel + 1) (f.bytes ++ rest) =
      (frameRound lz4 f).toList ++ roundsInFrames lz4 fuel rest := by
  obtain ⟨⟨b0, b1, b2, b3, typ⟩, payload, hsized⟩ := f
  simp only [RawFrame.bytes, Header.bytes, List.cons_append, List.nil_append, roundsInFrames, frameRound]
  rw [if_neg (by rw [List.length_append]; omega), ← hsized, List.drop_left, List.take_left]
  split
  · rcases blockRound lz4 payload with _ | round
    · rfl
    · simp only [Option.filter_some]
      split
      · rfl
      · rfl
  · rfl

/-- **The walk stays aligned.**  It reads every frame before the cut, each at its own place. -/
theorem roundsInFrames_stream {tail : List UInt8} (htail : Truncated tail) (fs : List RawFrame) :
    ∀ {fuel : Nat}, (stream fs ++ tail).length ≤ fuel →
      roundsInFrames lz4 fuel (stream fs ++ tail) = fs.filterMap (frameRound lz4) := by
  induction fs with
  | nil =>
    intro fuel _
    exact roundsInFrames_truncated lz4 htail fuel
  | cons f fs ih =>
    intro fuel hfuel
    have hstream : stream (f :: fs) ++ tail = f.bytes ++ (stream fs ++ tail) := by
      simp only [stream, List.map_cons, List.flatten_cons, List.append_assoc]
    rw [hstream, RawFrame.bytes, List.append_assoc, List.length_append, Header.length_bytes,
      List.length_append] at hfuel
    obtain ⟨fuel, rfl⟩ : ∃ fuel', fuel = fuel' + 1 := ⟨fuel - 1, by omega⟩
    rw [hstream, roundsInFrames_frame, ih (by omega), List.filterMap_cons]
    rcases frameRound lz4 f with _ | round
    · rfl
    · rfl

theorem maxBlockRoundInFrames_stream (fs : List RawFrame) {tail : List UInt8} (htail : Truncated tail) :
    maxBlockRoundInFrames lz4 (stream fs ++ tail) =
      maxClusteredRound (fs.filterMap (frameRound lz4)) 4 10000 := by
  rw [maxBlockRoundInFrames, roundsInFrames_stream lz4 htail fs (Nat.le_refl _)]

end

/-- **Clustering equals its definition.**  `best_round_cluster` returns the best run of
    the sorted rounds, and nothing exactly when every run is too short; so the round
    `max_block_round_in_frames` finds in a stream that may have been cut anywhere is the
    highest of the best run over the frames' rounds, in whatever order the frames stand. -/
theorem roundClusters_correct :
    (∀ (rounds : List UInt32) (minCluster : Nat) (maxGap : UInt32), 0 < minCluster →
      (∀ cluster, bestRoundCluster rounds minCluster maxGap = some cluster ↔
        IsBestCluster rounds minCluster maxGap cluster) ∧
      (bestRoundCluster rounds minCluster maxGap = none ↔
        ∀ a b, IsRun (Near (rounds.insertionSort (· ≤ ·)) maxGap)
          (rounds.insertionSort (· ≤ ·)).length a b → b - a < minCluster)) ∧
    ∀ (lz4 : Lz4.Decoder) (fs : List RawFrame) (tail : List UInt8), Truncated tail →
      (∀ top, maxBlockRoundInFrames lz4 (stream fs ++ tail) = some top ↔
        ∃ cluster, IsBestCluster (fs.filterMap (frameRound lz4)) 4 10000 cluster ∧ top ∈ cluster ∧
          ∀ r ∈ cluster, r ≤ top) ∧
      (maxBlockRoundInFrames lz4 (stream fs ++ tail) = none ↔
        bestRoundCluster (fs.filterMap (frameRound lz4)) 4 10000 = none) ∧
      ∀ fs' tail', fs.Perm fs' → Truncated tail' →
        maxBlockRoundInFrames lz4 (stream fs' ++ tail') = maxBlockRoundInFrames lz4 (stream fs ++ tail) := by
  refine ⟨?_, ?_⟩
  · intro rounds minCluster maxGap hmin
    exact ⟨bestRoundCluster_eq_some_iff rounds maxGap hmin, bestRoundCluster_eq_none_iff rounds maxGap hmin⟩
  · intro lz4 fs tail htail
    rw [maxBlockRoundInFrames_stream lz4 fs htail]
    refine ⟨maxClusteredRound_eq_some_iff _ _ (by decide), maxClusteredRound_eq_none_iff _ _ (by decide), ?_⟩
    intro fs' tail' hperm htail'
    rw [maxBlockRoundInFrames_stream lz4 fs' htail', maxClusteredRound, maxClusteredRound,
      bestRoundCluster_perm (hperm.symm.filterMap _)]

theorem truncated_nil : Truncated [] := by
  intro h rest heq
  cases heq

/-- The rounds of four blocks at the tip and of one far off, with a control frame among
    them, and what a cut left of a further block. -/
def tipFrames : List RawFrame :=
  [liveBlock 1000000002, ⟨⟨0, 0, 0, 1, 0⟩, [7], rfl⟩, liveBlock 1000000000, liveBlock 1200000000,
    liveBlock 1000000003, liveBlock 1000000001]

theorem roundClusters_tipFrames :
    IsBestCluster [40, 7, 9, 5, 90] 3 2 [5, 7, 9] ∧
    (∃ cluster, IsBestCluster (tipFrames.filterMap (frameRound decompressSizePrepended)) 4 10000 cluster ∧
      1000000003 ∈ cluster ∧ ∀ r ∈ cluster, r ≤ 1000000003) ∧
    maxBlockRoundInFrames decompressSizePrepended (stream tipFrames.reverse ++ []) = some 1000000003 := by
  have hcut : Truncated [0, 0, 0, 29, 1, 23] := by
    rintro ⟨b0, b1, b2, b3, typ⟩ rest heq
    simp only [Header.bytes, List.cons_append, List.nil_append, List.cons.injEq] at heq
    obtain ⟨rfl, rfl, rfl, rfl, rfl, rfl⟩ := heq
    decide
  have htop : maxBlockRoundInFrames decompressSizePrepended (stream tipFrames ++ [0, 0, 0, 29, 1, 23]) =
      some 1000000003 := by
    decide +kernel
  obtain ⟨hsome, -, hperm⟩ := roundClusters_correct.2 decompressSizePrepended tipFrames [0, 0, 0, 29, 1, 23] hcut
  refine ⟨?_, (hsome _).mp htop, (hperm _ [] (List.reverse_perm _).symm truncated_nil).trans htop⟩
  exact ((roundClusters_correct.1 [40, 7, 9, 5, 90] 3 2 (by decide)).1 [5, 7, 9]).mp (by decide)

end Hypersync.Protocol
