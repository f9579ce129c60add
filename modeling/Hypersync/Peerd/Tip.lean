import Hypersync.Protocol.Clusters

/-!
# The network tip peerd publishes

Each cycle probes a set of peers.  The tip is the lower median of the best cluster
of their rounds, and the peers too far from it on either side are failed.  The
gateway refuses peers that trail the tip, so whoever can move the tip can starve
the honest peers; the theorem says that a minority cannot.
-/

namespace Hypersync.Peerd

open Hypersync.Protocol

def MAX_LIVE_ROUND_LAG : UInt32 := 50000

/-- The outcome of one probe. -/
structure LiveProbe where
  blocks : Nat
  maxRound : Option UInt32
deriving DecidableEq, Repr

abbrev Probes := List (String × LiveProbe)

/-- The rounds the probes saw. -/
def probedRounds (probes : Probes) : List UInt32 := probes.filterMap fun p => p.2.maxRound

def clusteredProbeTip (probes : Probes) : Option UInt32 :=
  corroboratedClusteredRound (probedRounds probes) 2 MAX_LIVE_ROUND_LAG

/-- The probe saw a round not too far from the tip. -/
def nearTip (tip : UInt32) (probe : LiveProbe) : Bool :=
  probe.maxRound.any fun round =>
    tip ≤ Word.satAdd round MAX_LIVE_ROUND_LAG ∧ round ≤ Word.satAdd tip MAX_LIVE_ROUND_LAG

/-- The loop of `split_live_by_tip`: the live peers, and the addresses of the lagged ones. -/
def splitLoop (tip : UInt32) : Probes → Probes × List String → Probes × List String
  | [], out => out
  | (ip, probe) :: probes, (live, lagged) =>
    splitLoop tip probes
      (if nearTip tip probe then (live ++ [(ip, probe)], lagged) else (live, lagged ++ [ip]))

def splitLiveByTip (probedLive : Probes) : Option UInt32 → Probes × List String
  | none => (probedLive, [])
  | some tip => splitLoop tip probedLive ([], [])

/-! ## What the split keeps -/

theorem splitLoop_eq (tip : UInt32) : ∀ (probes live : Probes) (lagged : List String),
    splitLoop tip probes (live, lagged) =
      (live ++ probes.filter (fun p => nearTip tip p.2),
        lagged ++ (probes.filter fun p => !nearTip tip p.2).map Prod.fst) := by
  intro probes
  induction probes with
  | nil =>
    intro live lagged
    simp [splitLoop]
  | cons p probes ih =>
    intro live lagged
    obtain ⟨ip, probe⟩ := p
    by_cases hnear : nearTip tip probe = true
    · simp [splitLoop, hnear, ih]
    · simp [splitLoop, hnear, ih]

theorem mem_splitLiveByTip {probes : Probes} {tip : UInt32} {p : String × LiveProbe} :
    p ∈ (splitLiveByTip probes (some tip)).1 ↔ p ∈ probes ∧ nearTip tip p.2 = true := by
  rw [splitLiveByTip, splitLoop_eq, List.nil_append, List.mem_filter]

/-- **The tip resists a minority.**  Let the probed peers be honest ones and others, in any order,
    the honest rounds being more than the other rounds, at least two, and such that
    sorted neighbours are at most the lag apart.  Then there is a tip, it lies between
    the lowest and the highest honest round, and if these two are at most the lag
    apart, every honest peer is kept. -/
theorem probe_tip_resists_minority {probes honest others : Probes}
    (hperm : probes.Perm (honest ++ others))
    (hmaj : (probedRounds others).length < (probedRounds honest).length)
    (htwo : 2 ≤ (probedRounds honest).length)
    (hgaps : ((probedRounds honest).insertionSort (· ≤ ·)).IsChain
      fun r r' => r'.toNat ≤ r.toNat + MAX_LIVE_ROUND_LAG.toNat) :
    ∃ tip, clusteredProbeTip probes = some tip ∧
      ((∃ r ∈ probedRounds honest, r ≤ tip) ∧ ∃ r ∈ probedRounds honest, tip ≤ r) ∧
      ((∀ r ∈ probedRounds honest, ∀ r' ∈ probedRounds honest,
          r'.toNat ≤ r.toNat + MAX_LIVE_ROUND_LAG.toNat) →
        ∀ p ∈ honest, p.2.maxRound.isSome → p ∈ (splitLiveByTip probes (some tip)).1) := by
  have hrounds : (probedRounds probes).Perm (probedRounds honest ++ probedRounds others) := by
    unfold probedRounds
    rw [← List.filterMap_append]
    exact hperm.filterMap _
  have hmin : max 2 2 ≤ (probedRounds honest).length := htwo
  obtain ⟨tip, htip, ⟨lo, hlo, hlo_tip⟩, hi, hhi, htip_hi⟩ :=
    corroborated_of_majority hrounds hmaj hmin hgaps
  refine ⟨tip, htip, ⟨⟨lo, hlo, hlo_tip⟩, hi, hhi, htip_hi⟩, ?_⟩
  intro hspread p hp hround
  obtain ⟨r, hr⟩ := Option.isSome_iff_exists.mp hround
  have hmem : r ∈ probedRounds honest := List.mem_filterMap.mpr ⟨p, hp, hr⟩
  refine mem_splitLiveByTip.mpr ⟨hperm.mem_iff.mpr (List.mem_append_left _ hp), ?_⟩
  have hbelow := hspread r hmem hi hhi
  have habove := hspread lo hlo r hmem
  have hmax := Word.toNat_le_max r
  have hmax' := Word.toNat_le_max tip
  rw [UInt32.le_iff_toNat_le] at hlo_tip htip_hi
  rw [nearTip, hr, Option.any_some, decide_eq_true_eq, UInt32.le_iff_toNat_le, UInt32.le_iff_toNat_le,
    Word.toNat_satAdd, Word.toNat_satAdd]
  omega

/-- Three honest peers. -/
def honestProbes : Probes :=
  [("1.1.1.1", ⟨2, some 1490000000⟩), ("2.2.2.2", ⟨2, some 1490000020⟩), ("3.3.3.3", ⟨2, some 1490000040⟩)]

/-- Two that collude, just inside the lag. -/
def colludingProbes : Probes :=
  [("4.4.4.4", ⟨2, some 1490049998⟩), ("5.5.5.5", ⟨2, some 1490049999⟩)]

example : clusteredProbeTip (honestProbes ++ colludingProbes) = some 1490000040 := by decide

theorem probe_tip_resists_colludingProbes :
    ∃ tip, clusteredProbeTip (colludingProbes ++ honestProbes) = some tip ∧
      ((∃ r ∈ probedRounds honestProbes, r ≤ tip) ∧ ∃ r ∈ probedRounds honestProbes, tip ≤ r) ∧
      ((∀ r ∈ probedRounds honestProbes, ∀ r' ∈ probedRounds honestProbes,
          r'.toNat ≤ r.toNat + MAX_LIVE_ROUND_LAG.toNat) →
        ∀ p ∈ honestProbes, p.2.maxRound.isSome →
          p ∈ (splitLiveByTip (colludingProbes ++ honestProbes) (some tip)).1) :=
  probe_tip_resists_minority List.perm_append_comm (by decide) (by decide) (by decide)

end Hypersync.Peerd
