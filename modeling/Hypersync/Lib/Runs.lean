import Mathlib.Data.List.Sort
import Mathlib.Order.Basic

/-!
# Maximal runs of a sequence, and medians

The positions `0, …, n - 1` of a sequence are cut wherever position `j` is not
*linked* to position `j - 1`; what is left between two cuts is a maximal run.
The second part is about sorted lists: the lower median of a list most of whose
members lie in an interval lies in that interval.
-/

namespace Runs

/-! ## 1. Maximal runs -/

/-- The positions `a, …, b - 1` are a maximal run of linked positions. -/
structure IsRun (link : Nat → Prop) (n a b : Nat) : Prop where
  lt : a < b
  le : b ≤ n
  linked : ∀ j, a < j → j < b → link j
  left : a = 0 ∨ ¬ link a
  right : b = n ∨ ¬ link b

namespace IsRun

variable {link : Nat → Prop} {n a b i j : Nat}

/-- A run reaches as far up as the links do. -/
theorem lt_of_linked (h : IsRun link n a b) (hi : i < b) (hj : j < n)
    (hlink : ∀ k, i < k → k ≤ j → link k) : j < b := by
  by_contra hge
  rcases h.right with hend | hcut
  · exact hge (hend ▸ hj)
  · exact hcut (hlink b hi (Nat.le_of_not_lt hge))

/-- A run reaches as far down as the links do. -/
theorem le_of_linked (h : IsRun link n a b) (hi : a ≤ i)
    (hlink : ∀ k, j < k → k ≤ i → link k) : a ≤ j := by
  by_contra hlt
  have hlt := Nat.lt_of_not_le hlt
  rcases h.left with hzero | hcut
  · rw [hzero] at hlt
    exact absurd hlt (Nat.not_lt_zero j)
  · exact hcut (hlink a hlt hi)

/-- Two runs that end at the same position are the same. -/
theorem start_unique {c : Nat} (h : IsRun link n a b) (h' : IsRun link n c b) : a = c := by
  have hle : ∀ {a c : Nat}, IsRun link n a b → IsRun link n c b → a ≤ c := by
    intro a c h h'
    apply h.le_of_linked (i := b - 1) (Nat.le_sub_one_of_lt h.lt)
    intro k hk hkb
    have := h'.lt
    exact h'.linked k hk (by omega)
  exact Nat.le_antisymm (hle h h') (hle h' h)

/-- Every position lies in a run. -/
theorem exists_containing (link : Nat → Prop) {n i : Nat} (hi : i < n) :
    ∃ a b, IsRun link n a b ∧ a ≤ i ∧ i < b := by
  have hleft : ∀ i, ∃ a, a ≤ i ∧ (a = 0 ∨ ¬ link a) ∧ ∀ j, a < j → j ≤ i → link j := by
    intro i
    induction i with
    | zero => exact ⟨0, le_rfl, Or.inl rfl, fun j hj hj' => absurd hj (Nat.not_lt.mpr hj')⟩
    | succ i ih =>
      by_cases hlink : link (i + 1)
      · obtain ⟨a, ha, hcut, hall⟩ := ih
        refine ⟨a, Nat.le_succ_of_le ha, hcut, ?_⟩
        intro j hj hji
        rcases Nat.le_or_eq_of_le_succ hji with hji | rfl
        · exact hall j hj hji
        · exact hlink
      · exact ⟨i + 1, le_rfl, Or.inr hlink, fun j hj hj' => absurd hj (Nat.not_lt.mpr hj')⟩
  have hright : ∀ m, ∃ b, i < b ∧ b ≤ i + 1 + m ∧ (b = i + 1 + m ∨ ¬ link b) ∧
      ∀ j, i < j → j < b → link j := by
    intro m
    induction m with
    | zero => exact ⟨i + 1, Nat.lt_succ_self i, le_rfl, Or.inl rfl, fun j hj hj' => by omega⟩
    | succ m ih =>
      obtain ⟨b, hib, hb, hend | hcut, hall⟩ := ih
      · by_cases hlink : link b
        · refine ⟨b + 1, Nat.lt_succ_of_lt hib, by omega, Or.inl (by omega), ?_⟩
          intro j hj hjb
          rcases Nat.lt_succ_iff_lt_or_eq.mp hjb with hjb | rfl
          · exact hall j hj hjb
          · exact hlink
        · exact ⟨b, hib, by omega, Or.inr hlink, hall⟩
      · exact ⟨b, hib, by omega, Or.inr hcut, hall⟩
  obtain ⟨a, ha, hcut, hlow⟩ := hleft i
  obtain ⟨b, hib, hb, hcut', hhigh⟩ := hright (n - (i + 1))
  rw [Nat.add_sub_cancel' hi] at hb hcut'
  refine ⟨a, b, ⟨Nat.lt_of_le_of_lt ha hib, hb, ?_, hcut, hcut'⟩, ha, hib⟩
  intro j hj hjb
  rcases Nat.lt_or_ge i j with hij | hji
  · exact hhigh j hij hjb
  · exact hlow j hj hji

end IsRun

/-! ## 2. Sorted lists -/

variable {α : Type*}

/-- Between a member at or below `x` and one above it, a list has two neighbours that
    `x` lies between. -/
theorem exists_neighbours [LinearOrder α] {R : α → α → Prop} {x : α} :
    ∀ {l : List α}, l.IsChain R → (∃ y, l.head? = some y ∧ y ≤ x) → (∃ z ∈ l, x < z) →
      ∃ y ∈ l, ∃ z ∈ l, R y z ∧ y ≤ x ∧ x < z := by
  intro l
  induction l with
  | nil =>
    rintro - - ⟨z, hz, -⟩
    cases hz
  | cons a l ih =>
    rintro hchain ⟨y, hy, hyx⟩ ⟨z, hz, hxz⟩
    cases hy
    rcases List.mem_cons.mp hz with rfl | hz
    · exact absurd hxz (not_lt.mpr hyx)
    cases l with
    | nil => cases hz
    | cons c l =>
      obtain ⟨hac, hchain⟩ := List.isChain_cons_cons.mp hchain
      by_cases hcx : c ≤ x
      · obtain ⟨y, hy, w, hw, hR, hle, hlt⟩ := ih hchain ⟨c, rfl, hcx⟩ ⟨z, hz, hxz⟩
        exact ⟨y, List.mem_cons_of_mem _ hy, w, List.mem_cons_of_mem _ hw, hR, hle, hlt⟩
      · exact ⟨a, List.mem_cons_self, c, List.mem_cons_of_mem _ List.mem_cons_self, hac, hyx,
          not_le.mp hcx⟩

/-- A test that all the positions `i, …, j - 1` pass is passed by that many members. -/
theorem sub_le_countP {l : List α} {p : α → Bool} {i j : Nat} (hj : j ≤ l.length)
    (h : ∀ k (hk : k < l.length), i ≤ k → k < j → p (l[k]) = true) : j - i ≤ l.countP p := by
  have hall : ((l.drop i).take (j - i)).countP p = ((l.drop i).take (j - i)).length := by
    rw [List.countP_eq_length]
    intro x hx
    obtain ⟨k, hk, rfl⟩ := List.mem_iff_getElem.mp hx
    simp only [List.length_take, List.length_drop] at hk
    simp only [List.getElem_take, List.getElem_drop]
    exact h (i + k) (by omega) (by omega) (by omega)
  have hsub : ((l.drop i).take (j - i)).Sublist l :=
    (List.take_sublist _ _).trans (List.drop_sublist _ _)
  have hle := hsub.countP_le (p := p)
  rw [hall, List.length_take, List.length_drop] at hle
  omega

/-- What passes a test only at positions `a, …, b - 1` can be counted there. -/
theorem countP_slice {l : List α} {p : α → Bool} {a b : Nat} (hab : a ≤ b)
    (h : ∀ k (hk : k < l.length), p (l[k]) = true → a ≤ k ∧ k < b) :
    ((l.drop a).take (b - a)).countP p = l.countP p := by
  have hlow : (l.take a).countP p = 0 := by
    rw [List.countP_eq_zero]
    intro x hx hpx
    obtain ⟨k, hk, rfl⟩ := List.mem_iff_getElem.mp hx
    rw [List.length_take] at hk
    rw [List.getElem_take] at hpx
    have := (h k (by omega) hpx).1
    omega
  have hhigh : ((l.drop a).drop (b - a)).countP p = 0 := by
    rw [List.countP_eq_zero, List.drop_drop, Nat.add_sub_cancel' hab]
    intro x hx hpx
    obtain ⟨k, hk, rfl⟩ := List.mem_iff_getElem.mp hx
    rw [List.length_drop] at hk
    rw [List.getElem_drop] at hpx
    have := (h (b + k) (by omega) hpx).2
    omega
  calc ((l.drop a).take (b - a)).countP p
      = (l.take a).countP p + (((l.drop a).take (b - a)).countP p +
          ((l.drop a).drop (b - a)).countP p) := by rw [hlow, hhigh, Nat.zero_add, Nat.add_zero]
    _ = (l.take a).countP p + (l.drop a).countP p := by
        rw [← List.countP_append, List.take_append_drop]
    _ = l.countP p := by rw [← List.countP_append, List.take_append_drop]

variable [LinearOrder α] {l : List α}

theorem getElem_mono (hs : l.Pairwise (· ≤ ·)) {i j : Nat} (hij : i ≤ j) (hj : j < l.length) :
    l[i] ≤ l[j] := by
  rcases Nat.eq_or_lt_of_le hij with rfl | hlt
  · exact le_rfl
  · exact List.pairwise_iff_getElem.mp hs i j _ hj hlt

/-- A sorted list lies between its first member and its last. -/
theorem exists_bounds (hs : l.Pairwise (· ≤ ·)) (hne : l ≠ []) :
    ∃ lo hi, l.head? = some lo ∧ lo ∈ l ∧ hi ∈ l ∧ ∀ x ∈ l, lo ≤ x ∧ x ≤ hi := by
  have hpos : 0 < l.length := List.length_pos_of_ne_nil hne
  refine ⟨l[0], l[l.length - 1], ?_, List.getElem_mem _, List.getElem_mem _, ?_⟩
  · rw [List.head?_eq_getElem?, List.getElem?_eq_getElem hpos]
  · intro x hx
    obtain ⟨k, hk, rfl⟩ := List.mem_iff_getElem.mp hx
    exact ⟨getElem_mono hs (Nat.zero_le k) hk,
      getElem_mono hs (Nat.le_sub_one_of_lt hk) (Nat.sub_lt hpos Nat.one_pos)⟩

/-- **The lower median of a majority.** -/
theorem lower_median_mem (hs : l.Pairwise (· ≤ ·)) {lo hi : α}
    (hmaj : 2 * l.countP (fun x => !decide (lo ≤ x ∧ x ≤ hi)) < l.length) :
    ∃ x, l[(l.length - 1) / 2]? = some x ∧ lo ≤ x ∧ x ≤ hi := by
  have hm : (l.length - 1) / 2 < l.length := by omega
  refine ⟨l[(l.length - 1) / 2], List.getElem?_eq_getElem hm, ?_, ?_⟩
  · -- a median below the interval puts the whole lower half outside
    by_contra hlow
    have hout := sub_le_countP (l := l) (i := 0) (j := (l.length - 1) / 2 + 1)
      (p := fun x => !decide (lo ≤ x ∧ x ≤ hi)) hm (by
        intro k hk _ hkm
        have hle := getElem_mono hs (Nat.le_of_lt_succ hkm) hm
        simp only [Bool.not_eq_true', decide_eq_false_iff_not]
        exact fun hin => hlow (hin.1.trans hle))
    omega
  · by_contra hhigh
    have hout := sub_le_countP (l := l) (i := (l.length - 1) / 2) (j := l.length)
      (p := fun x => !decide (lo ≤ x ∧ x ≤ hi)) le_rfl (by
        intro k hk hmk _
        have hle := getElem_mono hs hmk hk
        simp only [Bool.not_eq_true', decide_eq_false_iff_not]
        exact fun hin => hhigh (hle.trans hin.2))
    omega

end Runs
