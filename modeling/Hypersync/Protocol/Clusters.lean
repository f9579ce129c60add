import Hypersync.Lib.Runs
import Hypersync.Lib.Word
import Mathlib.Data.List.GetD

/-!
# Clusters of rounds

Rounds read from untrusted sources are judged by the company they keep: the
sorted rounds are cut wherever two neighbours are more than `max_gap` apart, and
the longest of the runs this leaves is the best cluster, the highest one on ties.
-/

namespace Hypersync.Protocol

open Runs (IsRun)

/-! ## 1. The scan -/

/-- Position `i` continues the run of position `i - 1`. -/
def Continues (rounds : List UInt32) (maxGap : UInt32) (i : Nat) : Prop :=
  i < rounds.length ∧ Word.satSub (rounds.getD i 0) (rounds.getD (i - 1) 0) ≤ maxGap

instance (rounds : List UInt32) (maxGap : UInt32) (i : Nat) : Decidable (Continues rounds maxGap i) :=
  inferInstanceAs (Decidable (_ ∧ _))

/-- The loop variables of `best_round_cluster`. -/
structure Scan where
  bestStart : Nat
  bestLen : Nat
  curStart : Nat
deriving DecidableEq, Repr

/-- One iteration.  Later runs are higher, so `≥` prefers the higher one. -/
def scanStep (rounds : List UInt32) (maxGap : UInt32) (s : Scan) (i : Nat) : Scan :=
  if Continues rounds maxGap i then s
  else if s.bestLen ≤ i - s.curStart then ⟨s.curStart, i - s.curStart, i⟩
  else { s with curStart := i }

def bestRoundCluster (rounds : List UInt32) (minCluster : Nat) (maxGap : UInt32) :
    Option (List UInt32) :=
  if rounds.length < minCluster ∨ minCluster = 0 then none
  else
    let rounds := rounds.insertionSort (· ≤ ·)
    let s := (List.range' 1 rounds.length).foldl (scanStep rounds maxGap) ⟨0, 1, 0⟩
    if minCluster ≤ s.bestLen then some ((rounds.drop s.bestStart).take s.bestLen) else none

def maxClusteredRound (rounds : List UInt32) (minCluster : Nat) (maxGap : UInt32) : Option UInt32 :=
  (bestRoundCluster rounds minCluster maxGap).bind fun cluster =>
    cluster[cluster.length - 1]?

/-- The lower median of the best cluster. -/
def corroboratedClusteredRound (rounds : List UInt32) (minCluster : Nat) (maxGap : UInt32) :
    Option UInt32 :=
  (bestRoundCluster rounds (max minCluster 2) maxGap).bind fun cluster =>
    cluster[(cluster.length - 1) / 2]?

/-! ## 2. What the scan finds -/

section

variable {rounds : List UInt32} {maxGap : UInt32}

/-- The runs of a sorted list of rounds. -/
abbrev Cluster (rounds : List UInt32) (maxGap : UInt32) (a b : Nat) : Prop :=
  IsRun (Continues rounds maxGap) rounds.length a b

/-- A run loses against the best one: it is shorter, or as long and not higher. -/
def Loses (a b start len : Nat) : Prop := b - a < len ∨ b - a = len ∧ a ≤ start

/-- The loop invariant, after positions `1, …, k`. -/
structure ScanInv (rounds : List UInt32) (maxGap : UInt32) (k : Nat) (s : Scan) : Prop where
  cur_le : s.curStart ≤ k
  linked : ∀ j, s.curStart < j → j ≤ k → Continues rounds maxGap j
  left : s.curStart = 0 ∨ ¬ Continues rounds maxGap s.curStart
  best : ∀ a b, Cluster rounds maxGap a b → b ≤ k → Loses a b s.bestStart s.bestLen
  run : Cluster rounds maxGap s.bestStart (s.bestStart + s.bestLen) ∨ s.bestLen = 1 ∧ s.curStart = 0

theorem ScanInv.init : ScanInv rounds maxGap 0 ⟨0, 1, 0⟩ where
  cur_le := le_rfl
  linked := fun _ hj hj' => absurd hj (Nat.not_lt.mpr hj')
  left := Or.inl rfl
  best := fun a _ h hb => absurd (Nat.lt_of_lt_of_le h.lt hb) (Nat.not_lt_zero a)
  run := Or.inr ⟨rfl, rfl⟩

/-- A run that ended before the current one began lies below it. -/
theorem ScanInv.end_le {k : Nat} {s : Scan} (h : ScanInv rounds maxGap k s) (hk : k < rounds.length)
    {a b : Nat} (hrun : Cluster rounds maxGap a b) (hb : b ≤ k) : b ≤ s.curStart := by
  by_contra hlt
  rcases hrun.right with hend | hcut
  · omega
  · exact hcut (h.linked b (Nat.lt_of_not_le hlt) hb)

/-- At a cut, the current run is complete. -/
theorem ScanInv.cluster {k : Nat} {s : Scan} (h : ScanInv rounds maxGap k s) (hk : k < rounds.length)
    (hcut : ¬ Continues rounds maxGap (k + 1)) : Cluster rounds maxGap s.curStart (k + 1) where
  lt := Nat.lt_succ_of_le h.cur_le
  le := hk
  linked := fun j hj hjk => h.linked j hj (Nat.le_of_lt_succ hjk)
  left := h.left
  right := Or.inr hcut

theorem ScanInv.step {k : Nat} {s : Scan} (h : ScanInv rounds maxGap k s) (hk : k < rounds.length) :
    ScanInv rounds maxGap (k + 1) (scanStep rounds maxGap s (k + 1)) := by
  unfold scanStep
  by_cases hcont : Continues rounds maxGap (k + 1)
  · -- the run goes on, and none ends here
    rw [if_pos hcont]
    refine ⟨Nat.le_succ_of_le h.cur_le, ?_, h.left, ?_, h.run⟩
    · intro j hj hjk
      rcases Nat.le_or_eq_of_le_succ hjk with hjk | rfl
      · exact h.linked j hj hjk
      · exact hcont
    · intro a b hrun hb
      rcases Nat.le_or_eq_of_le_succ hb with hb | rfl
      · exact h.best a b hrun hb
      · rcases hrun.right with hend | hcut
        · exact absurd hcont.1 (by omega)
        · exact absurd hcont hcut
  · rw [if_neg hcont]
    have hcur := h.cluster hk hcont
    have hends : ∀ a b, Cluster rounds maxGap a b → b ≤ k + 1 →
        b ≤ k ∨ a = s.curStart ∧ b = k + 1 := by
      intro a b hrun hb
      rcases Nat.le_or_eq_of_le_succ hb with hb | rfl
      · exact Or.inl hb
      · exact Or.inr ⟨hrun.start_unique hcur, rfl⟩
    have hlen : 0 < k + 1 - s.curStart := Nat.sub_pos_of_lt hcur.lt
    split
    · -- the run that ends here is the best so far
      rename_i hbetter
      refine ⟨le_rfl, fun j hj hjk => absurd hj (Nat.not_lt.mpr hjk), Or.inr hcont, ?_, Or.inl ?_⟩
      · intro a b hrun hb
        rcases hends a b hrun hb with hb | ⟨rfl, rfl⟩
        · have hbelow := h.end_le hk hrun hb
          have hlt := hrun.lt
          rcases h.best a b hrun hb with hless | ⟨heq, -⟩
          · exact Or.inl (Nat.lt_of_lt_of_le hless hbetter)
          · rcases Nat.lt_or_eq_of_le hbetter with hless | hsame
            · exact Or.inl (by rw [heq]; exact hless)
            · exact Or.inr ⟨heq.trans hsame, by simp only; omega⟩
        · exact Or.inr ⟨rfl, le_rfl⟩
      · simp only
        rw [Nat.add_sub_cancel' (Nat.le_of_lt hcur.lt)]
        exact hcur
    · rename_i hworse
      have hless := Nat.lt_of_not_le hworse
      refine ⟨le_rfl, fun j hj hjk => absurd hj (Nat.not_lt.mpr hjk), Or.inr hcont, ?_, Or.inl ?_⟩
      · intro a b hrun hb
        rcases hends a b hrun hb with hb | ⟨rfl, rfl⟩
        · exact h.best a b hrun hb
        · exact Or.inl hless
      · rcases h.run with hrun | ⟨hone, -⟩
        · exact hrun
        · rw [hone] at hless
          omega

variable (rounds maxGap) in
theorem scan_inv : ∀ k, k ≤ rounds.length →
    ScanInv rounds maxGap k ((List.range' 1 k).foldl (scanStep rounds maxGap) ⟨0, 1, 0⟩) := by
  intro k
  induction k with
  | zero =>
    intro _
    exact ScanInv.init
  | succ k ih =>
    intro hk
    rw [List.range'_1_concat, List.foldl_append, Nat.add_comm 1 k]
    exact (ih (Nat.le_of_succ_le hk)).step hk

end

/-- **The best cluster.**  Some maximal run of the sorted rounds wins against every other,
    and it is the answer if it has enough members. -/
theorem bestRoundCluster_spec {rounds : List UInt32} {minCluster : Nat} (maxGap : UInt32)
    (hmin : 0 < minCluster) (hlen : minCluster ≤ rounds.length) :
    let sorted := rounds.insertionSort (· ≤ ·)
    ∃ a b, Cluster sorted maxGap a b ∧ (∀ a' b', Cluster sorted maxGap a' b' → Loses a' b' a (b - a)) ∧
      bestRoundCluster rounds minCluster maxGap =
        if minCluster ≤ b - a then some ((sorted.drop a).take (b - a)) else none := by
  intro sorted
  have hsize : sorted.length = rounds.length := List.length_insertionSort _ _
  have hinv := scan_inv sorted maxGap sorted.length le_rfl
  generalize hs : (List.range' 1 sorted.length).foldl (scanStep sorted maxGap) ⟨0, 1, 0⟩ = s at hinv
  have hrun : Cluster sorted maxGap s.bestStart (s.bestStart + s.bestLen) := by
    rcases hinv.run with hrun | ⟨-, hcur⟩
    · exact hrun
    · -- position `length` never continues a run, so the last run was closed
      have hcont := hinv.linked sorted.length (by omega) le_rfl
      exact absurd hcont.1 (Nat.lt_irrefl _)
  refine ⟨s.bestStart, s.bestStart + s.bestLen, hrun, ?_, ?_⟩
  · intro a' b' hrun'
    rw [Nat.add_sub_cancel_left]
    exact hinv.best a' b' hrun' hrun'.le
  · rw [Nat.add_sub_cancel_left]
    unfold bestRoundCluster
    rw [if_neg (by omega)]
    simp only [← hs, sorted]

/-! ## 3. A majority decides -/

section

variable {rounds honest : List UInt32} {maxGap lo hi : UInt32}

/-- The honest rounds leave no gap between `lo` and `hi`, and neither do they with others
    among them. -/
theorem continues_of_between (hsorted : rounds.Pairwise (· ≤ ·)) (hsub : ∀ r ∈ honest, r ∈ rounds)
    (hchain : honest.IsChain fun r r' => r'.toNat ≤ r.toNat + maxGap.toNat)
    (hlo : honest.head? = some lo) (hhi : hi ∈ honest) {i : Nat} (hpos : 0 < i)
    (hi' : i < rounds.length) (hbelow : lo ≤ rounds[i - 1]) (habove : rounds[i] ≤ hi) :
    Continues rounds maxGap i := by
  refine ⟨hi', ?_⟩
  rw [List.getD_eq_getElem _ _ hi', List.getD_eq_getElem _ _ (Nat.lt_of_le_of_lt (Nat.sub_le i 1) hi'),
    UInt32.le_iff_toNat_le, Word.toNat_satSub]
  by_cases htop : rounds[i - 1] < hi
  · obtain ⟨y, -, z, hz, hyz, hle, hlt⟩ :=
      Runs.exists_neighbours hchain ⟨lo, hlo, hbelow⟩ ⟨hi, hhi, htop⟩
    -- the honest round above is among the rounds, not below position `i`
    obtain ⟨k, hk, rfl⟩ := List.mem_iff_getElem.mp (hsub z hz)
    have hik : i ≤ k := by
      by_contra hki
      have hmono := Runs.getElem_mono hsorted (Nat.le_sub_one_of_lt (Nat.lt_of_not_le hki))
        (Nat.lt_of_le_of_lt (Nat.sub_le i 1) hi')
      exact absurd hlt (not_lt.mpr hmono)
    have hnext := Runs.getElem_mono hsorted hik hk
    rw [UInt32.le_iff_toNat_le] at hle hnext
    omega
  · have hsame := habove.trans (not_lt.mp htop)
    rw [UInt32.le_iff_toNat_le] at hsame
    omega

/-- All rounds between `lo` and `hi` are in one run. -/
theorem cluster_contains_between {a b i j : Nat} (hrun : Cluster rounds maxGap a b)
    (hsorted : rounds.Pairwise (· ≤ ·))
    (hcont : ∀ k (_ : 0 < k) (hk : k < rounds.length), lo ≤ rounds[k - 1] → rounds[k] ≤ hi →
      Continues rounds maxGap k)
    (hi' : i < rounds.length) (hai : a ≤ i) (hib : i < b) (hlo : lo ≤ rounds[i]) (hhi : rounds[i] ≤ hi)
    (hj : j < rounds.length) (hlo' : lo ≤ rounds[j]) (hhi' : rounds[j] ≤ hi) : a ≤ j ∧ j < b := by
  constructor
  · apply hrun.le_of_linked hai
    intro k hjk hki
    have hk : k < rounds.length := Nat.lt_of_le_of_lt hki hi'
    exact hcont k (Nat.zero_lt_of_lt hjk) hk
      (hlo'.trans (Runs.getElem_mono hsorted (Nat.le_sub_one_of_lt hjk) _))
      ((Runs.getElem_mono hsorted hki hi').trans hhi)
  · apply hrun.lt_of_linked hib hj
    intro k hik hkj
    have hk : k < rounds.length := Nat.lt_of_le_of_lt hkj hj
    exact hcont k (Nat.zero_lt_of_lt hik) hk
      (hlo.trans (Runs.getElem_mono hsorted (Nat.le_sub_one_of_lt hik) _))
      ((Runs.getElem_mono hsorted hkj hj).trans hhi')

/-- A round of the honest interval. -/
def between (lo hi r : UInt32) : Bool := decide (lo ≤ r ∧ r ≤ hi)

/-- The honest rounds lie in their interval; at most the others lie outside. -/
theorem count_between {others : List UInt32} (hperm : rounds.Perm (honest ++ others))
    (hin : ∀ r ∈ honest, lo ≤ r ∧ r ≤ hi) :
    honest.length ≤ rounds.countP (between lo hi) ∧
      rounds.countP (fun r => !between lo hi r) ≤ others.length := by
  have hall : honest.countP (between lo hi) = honest.length := by
    rw [List.countP_eq_length]
    intro r hr
    exact decide_eq_true (hin r hr)
  have hnone : honest.countP (fun r => !between lo hi r) = 0 := by
    rw [List.countP_eq_zero]
    intro r hr
    simp only [between, decide_eq_true (hin r hr), Bool.not_true, Bool.false_eq_true, not_false_eq_true]
  rw [hperm.countP_eq, hperm.countP_eq, List.countP_append, List.countP_append, hall, hnone,
    Nat.zero_add]
  exact ⟨Nat.le_add_right _ _, List.countP_le_length⟩

/-- **The best cluster is the honest one.**  It holds every round of the honest interval, and
    others are its minority. -/
theorem best_cluster_of_majority {a b : Nat} (hsorted : rounds.Pairwise (· ≤ ·))
    {others : List UInt32} (hperm : rounds.Perm (honest ++ others))
    (hmaj : others.length < honest.length) (hin : ∀ r ∈ honest, lo ≤ r ∧ r ≤ hi) (hlo : lo ∈ honest)
    (hcont : ∀ k (_ : 0 < k) (hk : k < rounds.length), lo ≤ rounds[k - 1] → rounds[k] ≤ hi →
      Continues rounds maxGap k)
    (hbest : Cluster rounds maxGap a b)
    (hwins : ∀ a' b', Cluster rounds maxGap a' b' → Loses a' b' a (b - a)) :
    honest.length ≤ b - a ∧
      2 * ((rounds.drop a).take (b - a)).countP (fun r => !between lo hi r) < b - a := by
  obtain ⟨hmany, hfew⟩ := count_between hperm hin
  have hlen : ∀ {a b}, Cluster rounds maxGap a b → ((rounds.drop a).take (b - a)).length = b - a := by
    intro a b hrun
    have := hrun.le
    rw [List.length_take, List.length_drop]
    omega
  -- a run with one round of the interval has them all
  have hcount : ∀ {a b i : Nat} (hrun : Cluster rounds maxGap a b) (hi' : i < rounds.length),
      a ≤ i → i < b → between lo hi rounds[i] = true →
      ((rounds.drop a).take (b - a)).countP (between lo hi) = rounds.countP (between lo hi) := by
    intro a b i hrun hi' hai hib hbtw
    apply Runs.countP_slice (Nat.le_of_lt hrun.lt)
    intro k hk hbtw'
    obtain ⟨hlo₁, hhi₁⟩ := of_decide_eq_true hbtw
    obtain ⟨hlo₂, hhi₂⟩ := of_decide_eq_true hbtw'
    exact cluster_contains_between hrun hsorted hcont hi' hai hib hlo₁ hhi₁ hk hlo₂ hhi₂
  -- so the run of `lo` is as long as the honest rounds are many, and the best one too
  have hlong : honest.length ≤ b - a := by
    obtain ⟨i, hi', hlo'⟩ := List.mem_iff_getElem.mp (hperm.mem_iff.mpr (List.mem_append_left _ hlo))
    obtain ⟨a₀, b₀, hrun, hai, hib⟩ := Runs.IsRun.exists_containing (Continues rounds maxGap) hi'
    have hbtw : between lo hi rounds[i] = true := by
      rw [hlo']
      exact decide_eq_true (hin lo hlo)
    have hle := List.countP_le_length (p := between lo hi) (l := (rounds.drop a₀).take (b₀ - a₀))
    rw [hcount hrun hi' hai hib hbtw, hlen hrun] at hle
    rcases hwins a₀ b₀ hrun with hless | ⟨heq, -⟩
    · omega
    · omega
  refine ⟨hlong, ?_⟩
  -- the others are too few to make a run that long, so the best run has a round of the interval
  have hsome : ∃ i, ∃ hi' : i < rounds.length, a ≤ i ∧ i < b ∧ between lo hi rounds[i] = true := by
    by_contra hnone
    have hout := Runs.sub_le_countP (p := fun r => !between lo hi r) hbest.le (by
      intro k hk hak hkb
      rw [Bool.not_eq_true', Bool.eq_false_iff]
      exact fun hbtw => hnone ⟨k, hk, hak, hkb, hbtw⟩)
    omega
  obtain ⟨i, hi', hai, hib, hbtw⟩ := hsome
  have hmost := hcount hbest hi' hai hib hbtw
  have hsub : ((rounds.drop a).take (b - a)).Sublist rounds :=
    (List.take_sublist _ _).trans (List.drop_sublist _ _)
  have hout := hsub.countP_le (p := fun r => !between lo hi r)
  have hsplit := List.length_eq_countP_add_countP (between lo hi) (l := (rounds.drop a).take (b - a))
  simp only [Bool.not_eq_true, Bool.decide_eq_false] at hsplit
  rw [hlen hbest] at hsplit
  omega

/-- **The corroborated round of a majority.**  Whatever the others report, the lower median of
    the best cluster lies within the honest rounds, when these are the majority and
    leave no gap among themselves. -/
theorem corroborated_of_majority {others : List UInt32} {minCluster : Nat}
    (hperm : rounds.Perm (honest ++ others)) (hmaj : others.length < honest.length)
    (hmin : max minCluster 2 ≤ honest.length)
    (hchain : (honest.insertionSort (· ≤ ·)).IsChain fun r r' => r'.toNat ≤ r.toNat + maxGap.toNat) :
    ∃ t, corroboratedClusteredRound rounds minCluster maxGap = some t ∧
      (∃ r ∈ honest, r ≤ t) ∧ ∃ r ∈ honest, t ≤ r := by
  have hperm' : (honest.insertionSort (· ≤ ·)).Perm honest := List.perm_insertionSort _ _
  have hsort' : (honest.insertionSort (· ≤ ·)).Pairwise (· ≤ ·) := List.pairwise_insertionSort _ _
  generalize honest.insertionSort (· ≤ ·) = sorted at hperm' hsort' hchain
  have hlen := hperm'.length_eq
  have hne : sorted ≠ [] := by
    rintro rfl
    simp only [List.length_nil] at hlen
    omega
  obtain ⟨lo, hi, hhead, hlo, hhi, hin⟩ := Runs.exists_bounds hsort' hne
  have hsort : (rounds.insertionSort (· ≤ ·)).Pairwise (· ≤ ·) := List.pairwise_insertionSort _ _
  have hall : (rounds.insertionSort (· ≤ ·)).Perm (sorted ++ others) :=
    (List.perm_insertionSort _ _).trans (hperm.trans (hperm'.symm.append_right others))
  have hsize : max minCluster 2 ≤ rounds.length := by
    rw [hperm.length_eq, List.length_append]
    omega
  obtain ⟨a, b, hrun, hwins, heq⟩ := bestRoundCluster_spec maxGap (by omega) hsize
  have hcont := fun k hpos hk => continues_of_between hsort
    (fun r hr => hall.mem_iff.mpr (List.mem_append_left others hr)) hchain hhead hhi (i := k) hpos hk
  obtain ⟨hlong, hfew⟩ :=
    best_cluster_of_majority hsort hall (hlen ▸ hmaj) hin hlo hcont hrun hwins
  rw [if_pos (by omega)] at heq
  have hclen : (((rounds.insertionSort (· ≤ ·)).drop a).take (b - a)).length = b - a := by
    have := hrun.le
    rw [List.length_take, List.length_drop]
    omega
  have hcsort : (((rounds.insertionSort (· ≤ ·)).drop a).take (b - a)).Pairwise (· ≤ ·) :=
    hsort.sublist ((List.take_sublist _ _).trans (List.drop_sublist _ _))
  obtain ⟨t, hget, hlo_t, ht_hi⟩ := Runs.lower_median_mem hcsort (by rw [hclen]; exact hfew)
  refine ⟨t, ?_, ⟨lo, hperm'.mem_iff.mp hlo, hlo_t⟩, hi, hperm'.mem_iff.mp hhi, ht_hi⟩
  rw [corroboratedClusteredRound, heq]
  exact hget

end

end Hypersync.Protocol
