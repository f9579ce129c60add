import Mathlib.InformationTheory.Coding.UniquelyDecodable

/-!
# Prefix codes

A prefix code is a set of words none of which is empty or begins another one.  A word
made of such words is made of them in one way only, and what is left of it after a
cut is made of them only if the cut is at one of its boundaries
(`Factors.exists_boundary`).  Words that say in their first places how long they are
are a prefix code (`PrefixCode.of_length`).
-/

namespace Coding

variable {α : Type*} {S : Set (List α)}

structure PrefixCode (S : Set (List α)) : Prop where
  nil_notMem : [] ∉ S
  eq_of_isPrefix : ∀ u ∈ S, ∀ v ∈ S, u <+: v → u = v

/-- The words `parts`, all of `S`, make `w`. -/
structure Factors (S : Set (List α)) (w : List α) (parts : List (List α)) : Prop where
  mem : ∀ u ∈ parts, u ∈ S
  flatten : parts.flatten = w

namespace PrefixCode

/-- Words whose first `m` places determine their length. -/
theorem of_length {m : Nat} {len : List α → Nat} (hpos : 0 < m) (hle : ∀ u ∈ S, m ≤ u.length)
    (hlen : ∀ u ∈ S, u.length = len (u.take m)) : PrefixCode S where
  nil_notMem := by
    intro hmem
    have := hle [] hmem
    rw [List.length_nil] at this
    omega
  eq_of_isPrefix := by
    rintro u hu v hv ⟨t, rfl⟩
    have htake : (u ++ t).take m = u.take m := List.take_append_of_le_length (hle u hu)
    have hsame : (u ++ t).length = u.length := by rw [hlen _ hv, htake, ← hlen u hu]
    rw [List.length_append, Nat.add_eq_left, List.length_eq_zero_iff] at hsame
    rw [hsame, List.append_nil]

/-- A sequence of words that begins another one does so word by word. -/
theorem isPrefix_of_flatten (hS : PrefixCode S) {us : List (List α)} :
    ∀ {vs : List (List α)}, (∀ u ∈ us, u ∈ S) → (∀ v ∈ vs, v ∈ S) → us.flatten <+: vs.flatten → us <+: vs := by
  induction us with
  | nil =>
    intro vs _ _ _
    exact ⟨vs, rfl⟩
  | cons u us ih =>
    intro vs hus hvs h
    have hu := hus u List.mem_cons_self
    rw [List.flatten_cons] at h
    have hfirst : u <+: vs.flatten := (List.prefix_append u us.flatten).trans h
    rcases vs with _ | ⟨v, vs⟩
    · rw [List.flatten_nil, List.prefix_nil] at hfirst
      exact absurd (hfirst ▸ hu) hS.nil_notMem
    · have hv := hvs v List.mem_cons_self
      rw [List.flatten_cons] at h hfirst
      -- the two first words begin the same word, so one begins the other
      have hsame : u = v := by
        rcases List.prefix_or_prefix_of_prefix hfirst (List.prefix_append v vs.flatten) with huv | hvu
        · exact hS.eq_of_isPrefix u hu v hv huv
        · exact (hS.eq_of_isPrefix v hv u hu hvu).symm
      subst hsame
      rw [List.prefix_append_right_inj] at h
      rw [List.cons_prefix_cons]
      refine ⟨rfl, ih ?_ ?_ h⟩
      · intro w hw
        exact hus w (List.mem_cons_of_mem u hw)
      · intro w hw
        exact hvs w (List.mem_cons_of_mem u hw)

theorem uniquelyDecodable (hS : PrefixCode S) : InformationTheory.UniquelyDecodable S := by
  intro us vs hus hvs heq
  have huv := hS.isPrefix_of_flatten hus hvs (heq ▸ List.prefix_refl us.flatten)
  have hvu := hS.isPrefix_of_flatten hvs hus (heq ▸ List.prefix_refl us.flatten)
  exact huv.eq_of_length (Nat.le_antisymm huv.length_le hvu.length_le)

end PrefixCode

namespace Factors

variable {w w' : List α} {parts parts' : List (List α)}

theorem append (h : Factors S w parts) (h' : Factors S w' parts') : Factors S (w ++ w') (parts ++ parts') where
  mem := by
    intro u hu
    exact (List.mem_append.mp hu).elim (h.mem u) (h'.mem u)
  flatten := by rw [List.flatten_append, h.flatten, h'.flatten]

/-- A cut at a boundary leaves the words before it. -/
theorem take (h : Factors S w parts) (i : Nat) :
    Factors S (w.take (parts.take i).flatten.length) (parts.take i) where
  mem u hu := h.mem u (List.mem_of_mem_take hu)
  flatten := by
    have hw : (parts.take i).flatten ++ (parts.drop i).flatten = w := by
      rw [← List.flatten_append, List.take_append_drop, h.flatten]
    rw [← hw, List.take_left]

theorem unique (hS : PrefixCode S) (h : Factors S w parts) (h' : Factors S w parts') : parts = parts' :=
  hS.uniquelyDecodable parts parts' h.mem h'.mem (h.flatten.trans h'.flatten.symm)

/-- What a cut leaves is made of words only if the cut is at a boundary. -/
theorem exists_boundary (hS : PrefixCode S) {n : Nat} (hn : n ≤ w.length) (h : Factors S w parts)
    (h' : Factors S (w.take n) parts') :
    ∃ i ≤ parts.length, parts' = parts.take i ∧ n = (parts.take i).flatten.length := by
  have hflatten : parts'.flatten <+: parts.flatten := by
    rw [h'.flatten, h.flatten]
    exact ⟨w.drop n, List.take_append_drop n w⟩
  have hpre := hS.isPrefix_of_flatten h'.mem h.mem hflatten
  have heq := List.prefix_iff_eq_take.mp hpre
  refine ⟨parts'.length, hpre.length_le, heq, ?_⟩
  rw [← heq, h'.flatten, List.length_take, Nat.min_eq_left hn]

end Factors

end Coding
