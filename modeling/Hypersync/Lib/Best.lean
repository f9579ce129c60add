import Mathlib.Order.Defs.LinearOrder
import Mathlib.Order.Lattice

/-!
# A running best

A loop over candidates that keeps the one with the largest key, replacing it only
by a strictly larger one.  What it is left with is a maximum, whatever the order in
which the candidates come; without a candidate it is left with nothing.
-/

namespace Best

variable {α K : Type*} [LinearOrder K]

def keep (key : α → K) (best : Option α) (a : α) : Option α :=
  match best with
  | none => some a
  | some b => if key b < key a then some a else some b

/-- A largest one of the list. -/
structure IsBest (key : α → K) (l : List α) (b : α) : Prop where
  mem : b ∈ l
  le : ∀ a ∈ l, key a ≤ key b

theorem isBest_singleton (key : α → K) (a : α) : IsBest key [a] a := by
  refine ⟨List.mem_singleton_self a, ?_⟩
  intro b hb
  rw [List.mem_singleton.mp hb]

/-- One more candidate: the best so far stays unless it is beaten. -/
theorem IsBest.keep {key : α → K} {l : List α} {b : α} (h : IsBest key l b) (a : α) :
    ∃ b', Best.keep key (some b) a = some b' ∧ IsBest key (l ++ [a]) b' := by
  by_cases hlt : key b < key a
  · refine ⟨a, if_pos hlt, List.mem_append_right l (List.mem_singleton_self a), ?_⟩
    intro x hx
    rcases List.mem_append.mp hx with hx | hx
    · exact le_trans (h.le x hx) (le_of_lt hlt)
    · rw [List.mem_singleton.mp hx]
  · refine ⟨b, if_neg hlt, List.mem_append_left [a] h.mem, ?_⟩
    intro x hx
    rcases List.mem_append.mp hx with hx | hx
    · exact h.le x hx
    · rw [List.mem_singleton.mp hx]
      exact not_lt.mp hlt

theorem foldl_keep (key : α → K) : ∀ (l seen : List α) {b : α}, IsBest key seen b →
    ∃ b', l.foldl (Best.keep key) (some b) = some b' ∧ IsBest key (seen ++ l) b' := by
  intro l
  induction l with
  | nil =>
    intro seen b h
    rw [List.append_nil]
    exact ⟨b, rfl, h⟩
  | cons a l ih =>
    intro seen b h
    obtain ⟨b', hkeep, hbest⟩ := h.keep a
    obtain ⟨b'', hfold, hbest'⟩ := ih (seen ++ [a]) hbest
    rw [List.append_assoc] at hbest'
    exact ⟨b'', by rw [List.foldl_cons, hkeep, hfold], hbest'⟩

/-- **The loop as a whole.** -/
theorem foldl_keep_none (key : α → K) (l : List α) :
    l = [] ∧ l.foldl (Best.keep key) none = none ∨ ∃ b, l.foldl (Best.keep key) none = some b ∧ IsBest key l b := by
  cases l with
  | nil => exact Or.inl ⟨rfl, rfl⟩
  | cons a l =>
    obtain ⟨b, hfold, hbest⟩ := foldl_keep key l [a] (isBest_singleton key a)
    exact Or.inr ⟨b, hfold, hbest⟩

/-! ## Candidates among other elements -/

variable {β : Type*}

theorem foldl_filterMap_cons (entry : β → Option α) (key : α → K) (e : β) (l : List β) (best : Option α) :
    (List.filterMap entry (e :: l)).foldl (Best.keep key) best =
      (l.filterMap entry).foldl (Best.keep key) ((entry e).elim best (Best.keep key best)) := by
  cases h : entry e with
  | none => rw [List.filterMap_cons_none h, Option.elim_none]
  | some a => rw [List.filterMap_cons_some h, List.foldl_cons, Option.elim_some]

/-- The loop over elements only some of which are candidates. -/
theorem foldl_filterMap (entry : β → Option α) (key : α → K) (l : List β) :
    (∀ e ∈ l, entry e = none) ∧ (l.filterMap entry).foldl (Best.keep key) none = none ∨
    ∃ e ∈ l, ∃ b, entry e = some b ∧ (l.filterMap entry).foldl (Best.keep key) none = some b ∧
      ∀ e' ∈ l, ∀ b', entry e' = some b' → key b' ≤ key b := by
  rcases foldl_keep_none key (l.filterMap entry) with ⟨hnil, hfold⟩ | ⟨b, hfold, hbest⟩
  · exact Or.inl ⟨List.filterMap_eq_nil_iff.mp hnil, hfold⟩
  · obtain ⟨e, he, hentry⟩ := List.mem_filterMap.mp hbest.mem
    refine Or.inr ⟨e, he, b, hentry, hfold, ?_⟩
    intro e' he' b' hentry'
    exact hbest.le b' (List.mem_filterMap.mpr ⟨e', he', hentry'⟩)

end Best
