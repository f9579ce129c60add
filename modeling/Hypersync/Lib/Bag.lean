import Mathlib.Data.List.Perm.Basic

/-!
# Bags: lists whose order does not matter

A set of running tasks or of live guards is a list from which one element is taken
out (`List.erase`) or exchanged for another (`replace`).  Equal elements are
interchangeable, so no identities are needed: what is counted is how many elements
have a property.
-/

namespace Hypersync.Bag

variable {α : Type*} [DecidableEq α] {l : List α} {a b x : α}

/-- `b` in the place of one `a`. -/
def replace (l : List α) (a b : α) : List α := b :: l.erase a

theorem countP_erase_add (p : α → Bool) (ha : a ∈ l) :
    l.countP p = (l.erase a).countP p + if p a then 1 else 0 := by
  rw [(List.perm_cons_erase ha).countP_eq, List.countP_cons]

theorem countP_replace_add (p : α → Bool) (ha : a ∈ l) (b : α) :
    (replace l a b).countP p + (if p a then 1 else 0) = l.countP p + if p b then 1 else 0 := by
  rw [replace, List.countP_cons, countP_erase_add p ha, Nat.add_right_comm]

theorem length_replace (ha : a ∈ l) (b : α) : (replace l a b).length = l.length := by
  rw [replace, List.length_cons, List.length_erase_of_mem ha, Nat.sub_add_cancel (List.length_pos_of_mem ha)]

theorem mem_replace (h : x ∈ replace l a b) : x = b ∨ x ∈ l := by
  rcases List.mem_cons.mp h with h | h
  · exact Or.inl h
  · exact Or.inr (List.mem_of_mem_erase h)

/-- A view of the selected elements, with one element taken out. -/
theorem map_filter_erase {β : Type*} (p : α → Bool) (f : α → β) (ha : a ∈ l) :
    ((l.filter p).map f).Perm ((if p a then [f a] else []) ++ ((l.erase a).filter p).map f) := by
  refine (((List.perm_cons_erase ha).filter p).map f).trans ?_
  rw [List.filter_cons]
  split
  · rfl
  · rfl

/-- The view does not change when `b` looks like `a`. -/
theorem map_filter_replace {β : Type*} (p : α → Bool) (f : α → β) (ha : a ∈ l) (hp : p b = p a) (hf : f b = f a) :
    ((l.filter p).map f).Perm (((replace l a b).filter p).map f) := by
  refine (map_filter_erase p f ha).trans ?_
  rw [replace, List.filter_cons, hp]
  split
  · rw [List.map_cons, hf]
    rfl
  · rfl

end Hypersync.Bag
