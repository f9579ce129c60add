import Mathlib.Data.List.Perm.Basic

/-!
# What holds of every entry of a list, by its position

Tasks that are numbered as they are started are entries of a list.  One of them takes
a step (`List.set`), or a new one comes at the end.
-/

namespace Indexed

variable {α : Type*} {P : Nat → α → Prop} {l : List α} {i : Nat} {a b : α}

def All (P : Nat → α → Prop) (l : List α) : Prop := ∀ ⦃i : Nat⦄ ⦃a : α⦄, l[i]? = some a → P i a

theorem all_nil (P : Nat → α → Prop) : All P [] := fun _ _ h => by simp at h

/-- The entry at `i` is another one now; the rest is as it was. -/
theorem all_set (hother : ∀ ⦃j : Nat⦄ ⦃a : α⦄, j ≠ i → l[j]? = some a → P j a) (hb : P i b) : All P (l.set i b) := by
  intro j a ha
  rw [List.getElem?_set] at ha
  split at ha
  · rename_i hij
    split at ha <;> cases ha
    exact hij ▸ hb
  · rename_i hij
    exact hother (fun hji => hij hji.symm) ha

theorem All.snoc (h : All P l) (hb : P l.length b) : All P (l ++ [b]) := by
  intro j a ha
  rcases Nat.lt_trichotomy j l.length with hj | hj | hj
  · rw [List.getElem?_append_left hj] at ha
    exact h ha
  · rw [hj, List.getElem?_append_right (Nat.le_refl _), Nat.sub_self] at ha
    cases ha
    exact hj ▸ hb
  · rw [List.getElem?_eq_none (by rw [List.length_append, List.length_singleton]; exact hj)] at ha
    cases ha

/-- One entry for another, counted. -/
theorem countP_set_add (p : α → Bool) (ha : l[i]? = some a) :
    (l.set i b).countP p + (if p a then 1 else 0) = l.countP p + if p b then 1 else 0 := by
  obtain ⟨hi, rfl⟩ := List.getElem?_eq_some_iff.mp ha
  have hsplit : l = l.take i ++ l[i] :: l.drop (i + 1) := by simp
  rw [List.set_eq_take_append_cons_drop, if_pos hi]
  conv_rhs => rw [hsplit]
  simp only [List.countP_append, List.countP_cons]
  omega

/-- What the entries bring, with one of them in front. -/
theorem filterMap_perm {β : Type*} (f : α → Option β) (ha : l[i]? = some a) :
    (l.filterMap f).Perm ((f a).toList ++ (l.eraseIdx i).filterMap f) := by
  obtain ⟨hi, rfl⟩ := List.getElem?_eq_some_iff.mp ha
  have hperm := (List.getElem_cons_eraseIdx_perm hi).symm.filterMap f
  rw [List.filterMap_cons] at hperm
  cases hf : f l[i] <;> simpa [hf] using hperm

end Indexed
