import Hypersync.Lib.Fresh
import Hypersync.Lib.Rotation
import Mathlib.Data.List.GetD
import Mathlib.Data.List.Perm.Subperm

/-!
# Which candidates a cycle probes

A cycle has a budget.  Up to half of it goes to peers that were live before; the
rest goes round the list of candidates from a cursor that is kept between cycles.
The cursor moves over every candidate *scanned*, while those selected already are
scanned without being counted; so a cycle may scan more than it adds, and what it
scans is all selected (`rotateLoop_spec`).  Successive scans are then contiguous
windows around the list, and no candidate is passed over (`selectProbeCandidates_fair`).
-/

namespace Hypersync.Peerd

/-! ## 1. One selection -/

/-- The loop over the previous live peers.  The set `seen` of the source holds what
    `selected` does, here and below. -/
def takePrevious (allCandidates : List String) (limit : Nat) : List String → List String → List String
  | selected, [] => selected
  | selected, ip :: rest =>
    if limit ≤ selected.length then selected
    else
      takePrevious allCandidates limit
        (if allCandidates.contains ip then Fresh.push selected ip else selected) rest

/-- `all_candidates[(start + off) % n]`; the index is in range, so the default is never used. -/
def candidateAt (allCandidates : List String) (start off : Nat) : String :=
  allCandidates.getD ((start + off) % allCandidates.length) ""

/-- The loop over `off`, with `left` turns to go: how many were scanned, and the selection. -/
def rotateLoop (allCandidates : List String) (start remaining : Nat) :
    Nat → Nat → Nat → List String → Nat × List String
  | 0, off, _, selected => (off, selected)
  | left + 1, off, added, selected =>
    let ip := candidateAt allCandidates start off
    if ip ∈ selected then rotateLoop allCandidates start remaining left (off + 1) added selected
    else if remaining ≤ added + 1 then (off + 1, selected ++ [ip])
    else rotateLoop allCandidates start remaining left (off + 1) (added + 1) (selected ++ [ip])

/-- The previous live peers a cycle starts with. -/
def previousShare (allCandidates previousLive : List String) (maxPerCycle : Nat) : List String :=
  takePrevious allCandidates (max (max maxPerCycle 1 / 2) 1) [] previousLive

/-- The selection, and the cursor afterwards. -/
def selectProbeCandidates (allCandidates previousLive : List String) (maxPerCycle cursor : Nat) :
    List String × Nat :=
  let selected := previousShare allCandidates previousLive maxPerCycle
  let remaining := max maxPerCycle 1 - selected.length
  let n := allCandidates.length
  if 0 < remaining ∧ 0 < n then
    let start := cursor % n
    let scan := rotateLoop allCandidates start remaining n 0 0 selected
    (scan.2, (start + scan.1) % n)
  else (selected, cursor)

example : selectProbeCandidates ["1", "2", "3", "4", "5"] ["4", "9", "2"] 4 0 = (["4", "2", "1", "3"], 3) := by
  decide

/-! ## 2. What one selection holds -/

section

variable (allCandidates : List String)

theorem takePrevious_spec (limit : Nat) (previousLive selected : List String) (hnodup : selected.Nodup)
    (hsub : ∀ ip ∈ selected, ip ∈ allCandidates)
    (hlen : selected.length ≤ limit) :
    (takePrevious allCandidates limit selected previousLive).Nodup ∧
      (∀ ip ∈ takePrevious allCandidates limit selected previousLive,
        ip ∈ allCandidates ∧ (ip ∈ selected ∨ ip ∈ previousLive)) ∧
      (takePrevious allCandidates limit selected previousLive).length ≤ limit := by
  induction previousLive generalizing selected with
  | nil => exact ⟨hnodup, fun ip hip => ⟨hsub ip hip, Or.inl hip⟩, hlen⟩
  | cons live rest ih =>
    rw [takePrevious]
    split
    · exact ⟨hnodup, fun ip hip => ⟨hsub ip hip, Or.inl hip⟩, hlen⟩
    · next hroom =>
      split
      · next hcand =>
        have hlive : live ∈ allCandidates := List.contains_iff_mem.mp hcand
        obtain ⟨hn, hmem, hl⟩ := ih (Fresh.push selected live) (Fresh.nodup_push hnodup)
          (fun ip hip => (Fresh.mem_push.mp hip).elim (hsub ip) fun heq => heq ▸ hlive)
          (Nat.le_trans (Fresh.length_push_le _ _) (Nat.lt_of_not_le hroom))
        refine ⟨hn, fun ip hip => ⟨(hmem ip hip).1, ?_⟩, hl⟩
        rcases (hmem ip hip).2 with hsel | hrest
        · rcases Fresh.mem_push.mp hsel with hsel | rfl
          · exact Or.inl hsel
          · exact Or.inr List.mem_cons_self
        · exact Or.inr (List.mem_cons_of_mem live hrest)
      · obtain ⟨hn, hmem, hl⟩ := ih selected hnodup hsub hlen
        exact ⟨hn, fun ip hip => ⟨(hmem ip hip).1, (hmem ip hip).2.imp_right (List.mem_cons_of_mem live)⟩, hl⟩

/-- At most half of a budget of two or more goes to previous live peers. -/
theorem previousShare_spec (previousLive : List String) {maxPerCycle : Nat} (hmax : 2 ≤ maxPerCycle) :
    (previousShare allCandidates previousLive maxPerCycle).Nodup ∧
      (∀ ip ∈ previousShare allCandidates previousLive maxPerCycle, ip ∈ allCandidates ∧ ip ∈ previousLive) ∧
      (previousShare allCandidates previousLive maxPerCycle).length ≤ maxPerCycle / 2 := by
  obtain ⟨hnodup, hmem, hlen⟩ := takePrevious_spec allCandidates (max (max maxPerCycle 1 / 2) 1) previousLive []
    List.nodup_nil (fun _ hip => absurd hip List.not_mem_nil) (Nat.zero_le _)
  refine ⟨hnodup, fun ip hip => ⟨(hmem ip hip).1, (hmem ip hip).2.resolve_left List.not_mem_nil⟩, ?_⟩
  have hlimit : max (max maxPerCycle 1 / 2) 1 = maxPerCycle / 2 := by omega
  exact Nat.le_trans hlen (Nat.le_of_eq hlimit)

theorem candidateAt_mem (hne : 0 < allCandidates.length) (start off : Nat) :
    candidateAt allCandidates start off ∈ allCandidates := by
  rw [candidateAt, List.getD_eq_getElem _ _ (Nat.mod_lt _ hne)]
  exact List.getElem_mem _

variable {allCandidates} {selected : List String} {start : Nat}

/-- What the rotation leaves: `scanned` candidates from `start`, all of them selected. -/
structure Rotated (allCandidates selected : List String) (start off budget scanned : Nat)
    (result : List String) : Prop where
  off_le : off ≤ scanned
  le : scanned ≤ allCandidates.length
  kept : selected <+: result
  nodup : result.Nodup
  sub : ∀ ip ∈ result, ip ∈ allCandidates
  scanned_mem : ∀ o, off ≤ o → o < scanned → candidateAt allCandidates start o ∈ result
  length_le : result.length ≤ selected.length + budget
  full : scanned = allCandidates.length ∨ result.length = selected.length + budget
  added_le : result.length ≤ selected.length + (scanned - off)

/-- A candidate scanned and found in the selection takes nothing of the budget. -/
theorem Rotated.skip {off budget scanned : Nat} {result : List String}
    (hseen : candidateAt allCandidates start off ∈ selected)
    (h : Rotated allCandidates selected start (off + 1) budget scanned result) :
    Rotated allCandidates selected start off budget scanned result where
  off_le := Nat.le_of_succ_le h.off_le
  le := h.le
  kept := h.kept
  nodup := h.nodup
  sub := h.sub
  scanned_mem := by
    intro o ho hlt
    rcases Nat.eq_or_lt_of_le ho with rfl | ho
    · exact h.kept.subset hseen
    · exact h.scanned_mem o ho hlt
  length_le := h.length_le
  full := h.full
  added_le := Nat.le_trans h.added_le (by omega)

/-- A candidate added takes one. -/
theorem Rotated.add {off budget scanned : Nat} {result : List String}
    (h : Rotated allCandidates (selected ++ [candidateAt allCandidates start off]) start (off + 1) budget
      scanned result) :
    Rotated allCandidates selected start off (budget + 1) scanned result := by
  have hoff := h.off_le
  have hlen := h.length_le
  have hadded := h.added_le
  have hfull := h.full
  rw [List.length_append, List.length_singleton] at hlen hadded hfull
  refine ⟨by omega, h.le, (List.prefix_append _ _).trans h.kept, h.nodup, h.sub, ?_, by omega, by omega,
    by omega⟩
  intro o ho hlt
  rcases Nat.eq_or_lt_of_le ho with rfl | ho
  · exact h.kept.subset (List.mem_append_right _ List.mem_cons_self)
  · exact h.scanned_mem o ho hlt

theorem Rotated.done {off budget : Nat} (hoff : off ≤ allCandidates.length) (hnodup : selected.Nodup)
    (hsub : ∀ ip ∈ selected, ip ∈ allCandidates) (hend : off = allCandidates.length ∨ budget = 0) :
    Rotated allCandidates selected start off budget off selected where
  off_le := Nat.le_refl off
  le := hoff
  kept := List.prefix_refl selected
  nodup := hnodup
  sub := hsub
  scanned_mem := fun o ho hlt => absurd hlt (Nat.not_lt.mpr ho)
  length_le := Nat.le_add_right _ _
  full := hend.imp_right fun hzero => by rw [hzero, Nat.add_zero]
  added_le := Nat.le_add_right _ _

variable (allCandidates start) in
theorem rotateLoop_spec (remaining : Nat) {left : Nat} : ∀ {off added : Nat} {selected : List String},
    off + left = allCandidates.length → added < remaining → selected.Nodup →
      (∀ ip ∈ selected, ip ∈ allCandidates) →
      Rotated allCandidates selected start off (remaining - added)
        (rotateLoop allCandidates start remaining left off added selected).1
        (rotateLoop allCandidates start remaining left off added selected).2 := by
  induction left with
  | zero =>
    intro off added selected hoff _ hnodup hsub
    exact Rotated.done (by omega) hnodup hsub (Or.inl (by omega))
  | succ left ih =>
    intro off added selected hoff hroom hnodup hsub
    have hmem := candidateAt_mem allCandidates (by omega) start off
    rw [rotateLoop]
    split
    · next hseen => exact (ih (by omega) hroom hnodup hsub).skip hseen
    · next hnew =>
      have hnodup' : (selected ++ [candidateAt allCandidates start off]).Nodup := by
        have hpush := Fresh.nodup_push (x := candidateAt allCandidates start off) hnodup
        rwa [Fresh.push, if_neg hnew] at hpush
      have hsub' : ∀ ip ∈ selected ++ [candidateAt allCandidates start off], ip ∈ allCandidates := by
        intro ip hip
        rcases List.mem_append.mp hip with hip | hip
        · exact hsub ip hip
        · rw [List.mem_singleton.mp hip]
          exact hmem
      split
      · -- the last one the budget allows
        rw [show remaining - added = 0 + 1 by omega]
        exact (Rotated.done (by omega) hnodup' hsub' (Or.inr rfl)).add
      · rw [show remaining - added = remaining - (added + 1) + 1 by omega]
        exact (ih (by omega) (by omega) hnodup' hsub').add

/-- **One selection.**  It starts with its share of previous live peers, is as large as the
    budget and the list allow, and holds all it has scanned, which is no less than the
    share left to the rotation. -/
theorem selectProbeCandidates_spec (hnodup : allCandidates.Nodup) (hne : allCandidates ≠ [])
    {maxPerCycle : Nat} (hmax : 2 ≤ maxPerCycle) (previousLive : List String) (cursor : Nat) :
    ∃ scanned,
      (selectProbeCandidates allCandidates previousLive maxPerCycle cursor).2 =
        (cursor % allCandidates.length + scanned) % allCandidates.length ∧
      min allCandidates.length ((maxPerCycle + 1) / 2) ≤ scanned ∧
      (∀ off < scanned, candidateAt allCandidates (cursor % allCandidates.length) off ∈
        (selectProbeCandidates allCandidates previousLive maxPerCycle cursor).1) ∧
      (selectProbeCandidates allCandidates previousLive maxPerCycle cursor).1.length =
        min allCandidates.length maxPerCycle ∧
      (selectProbeCandidates allCandidates previousLive maxPerCycle cursor).1.Nodup ∧
      (∀ ip ∈ (selectProbeCandidates allCandidates previousLive maxPerCycle cursor).1, ip ∈ allCandidates) ∧
      previousShare allCandidates previousLive maxPerCycle <+:
        (selectProbeCandidates allCandidates previousLive maxPerCycle cursor).1 ∧
      (previousShare allCandidates previousLive maxPerCycle).length ≤ maxPerCycle / 2 ∧
      ∀ ip ∈ previousShare allCandidates previousLive maxPerCycle, ip ∈ previousLive := by
  have hpos : 0 < allCandidates.length := List.length_pos_iff.mpr hne
  obtain ⟨hshare, hmem, hhalf⟩ := previousShare_spec allCandidates previousLive hmax
  unfold selectProbeCandidates
  simp only
  rw [if_pos ⟨by omega, hpos⟩]
  simp only
  have hbudget : 0 < max maxPerCycle 1 - (previousShare allCandidates previousLive maxPerCycle).length := by
    omega
  have hrot := rotateLoop_spec allCandidates (cursor % allCandidates.length) _ (Nat.zero_add _) hbudget hshare
    (fun ip hip => (hmem ip hip).1)
  generalize rotateLoop allCandidates _ _ _ 0 0 _ = scan at hrot ⊢
  have hlen_le := hrot.length_le
  have hadded := hrot.added_le
  have hle := hrot.le
  -- the selection is no longer than the list, and has all of it when all was scanned
  have hcard : scan.2.length ≤ allCandidates.length :=
    (List.subperm_of_subset hrot.nodup hrot.sub).length_le
  have hall : scan.1 = allCandidates.length → allCandidates.length ≤ scan.2.length := by
    intro hscan
    refine (List.subperm_of_subset hnodup fun ip hip => ?_).length_le
    obtain ⟨j, hj, rfl⟩ := List.mem_iff_getElem.mp hip
    obtain ⟨off, hoff, hpos'⟩ := Rotation.exists_ahead (cursor % allCandidates.length) hj
    have hsel := hrot.scanned_mem off (Nat.zero_le _) (hscan ▸ hoff)
    rwa [candidateAt, hpos', List.getD_eq_getElem _ _ hj] at hsel
  refine ⟨scan.1, rfl, ?_, fun off hoff => hrot.scanned_mem off (Nat.zero_le _) hoff, ?_, hrot.nodup, hrot.sub,
    hrot.kept, hhalf, fun ip hip => (hmem ip hip).2⟩
  · rcases hrot.full with hscan | hfull
    · omega
    · omega
  · rcases hrot.full with hscan | hfull
    · have := hall hscan
      omega
    · omega

end

/-! ## 3. Selections over time -/

section

variable (allCandidates : List String) (maxPerCycle : Nat) (previousLive : Nat → List String)

/-- The cursor before the `i`-th cycle. -/
def cursorAt (cursor : Nat) : Nat → Nat
  | 0 => cursor
  | i + 1 => (selectProbeCandidates allCandidates (previousLive i) maxPerCycle (cursorAt cursor i)).2

/-- What the `i`-th cycle probes. -/
def selectionAt (cursor i : Nat) : List String :=
  (selectProbeCandidates allCandidates (previousLive i) maxPerCycle
    (cursorAt allCandidates maxPerCycle previousLive cursor i)).1

end

/-- **The rotation is fair.**  Whatever peers were live before each cycle, every selection has
    as many distinct candidates as the budget allows, at most half of the budget goes to
    previous live peers, and no candidate waits longer than it takes to go round the list
    with the other half. -/
theorem selectProbeCandidates_fair {allCandidates : List String} (hnodup : allCandidates.Nodup)
    (hne : allCandidates ≠ []) {maxPerCycle : Nat} (hmax : 2 ≤ maxPerCycle) (cursor : Nat)
    (previousLive : Nat → List String) :
    (∀ i,
      (selectionAt allCandidates maxPerCycle previousLive cursor i).length =
        min allCandidates.length maxPerCycle ∧
      (selectionAt allCandidates maxPerCycle previousLive cursor i).Nodup ∧
      (∀ ip ∈ selectionAt allCandidates maxPerCycle previousLive cursor i, ip ∈ allCandidates) ∧
      previousShare allCandidates (previousLive i) maxPerCycle <+:
        selectionAt allCandidates maxPerCycle previousLive cursor i ∧
      (previousShare allCandidates (previousLive i) maxPerCycle).length ≤ maxPerCycle / 2 ∧
      ∀ ip ∈ previousShare allCandidates (previousLive i) maxPerCycle, ip ∈ previousLive i) ∧
    ∀ i, ∀ ip ∈ allCandidates, ∃ j, i ≤ j ∧
      j < i + (allCandidates.length + (maxPerCycle + 1) / 2 - 1) / ((maxPerCycle + 1) / 2) ∧
      ip ∈ selectionAt allCandidates maxPerCycle previousLive cursor j := by
  have hspec := fun i => selectProbeCandidates_spec hnodup hne hmax (previousLive i)
    (cursorAt allCandidates maxPerCycle previousLive cursor i)
  choose scanned hnext hlong hscan hlen hnd hsub hkept hshare hlive using hspec
  refine ⟨fun i => ⟨hlen i, hnd i, hsub i, hkept i, hshare i, hlive i⟩, ?_⟩
  intro i ip hip
  obtain ⟨p, hp, rfl⟩ := List.mem_iff_getElem.mp hip
  -- the windows from cycle `i` on, each starting where the last one ended
  obtain ⟨k, hk, off, hoff, hpos⟩ :=
    Rotation.exists_window_of_contiguous
      (fun k => cursorAt allCandidates maxPerCycle previousLive cursor (i + k) % allCandidates.length)
      (fun k => scanned (i + k))
      (by
        intro k
        have hstep := hnext (i + k)
        rw [← Nat.add_assoc, cursorAt, hstep, Nat.mod_mod])
      (by
        refine Nat.le_trans (Rotation.le_ceil_mul_min ?_ ?_)
          (Rotation.mul_le_total (fun k => hlong (i + k)) _)
        · exact Nat.zero_lt_of_lt hp
        · omega) hp
  refine ⟨i + k, Nat.le_add_right i k, Nat.add_lt_add_left hk i, ?_⟩
  have hsel := hscan (i + k) off hoff
  rwa [candidateAt, hpos, List.getD_eq_getElem _ _ hp] at hsel

/-- Three candidates and a budget of two: of any three cycles, one probes the last. -/
theorem selectProbeCandidates_fair_three :
    ["1", "2", "3"].Nodup ∧ ["1", "2", "3"] ≠ [] ∧ (2 : Nat) ≤ 2 ∧
      ∃ j, 5 ≤ j ∧ j < 5 + (3 + (2 + 1) / 2 - 1) / ((2 + 1) / 2) ∧
        "3" ∈ selectionAt ["1", "2", "3"] 2 (fun _ => ["1"]) 7 j :=
  ⟨by decide, by decide, by decide,
    (selectProbeCandidates_fair (show ["1", "2", "3"].Nodup by decide) (by decide) (show 2 ≤ 2 by decide) 7
      (fun _ => ["1"])).2 5 "3" (by decide)⟩

end Hypersync.Peerd
