import Mathlib.Data.List.Nodup

/-!
# Lists without repetition, grown at the end

A loop that pushes an element only if the list does not hold it yet keeps the list
without repetition and what was in it in place.  `pushAll` is that loop over another
list; `topUp` stops it as soon as the list has a given length.
-/

namespace Hypersync.Fresh

variable {α : Type*} [DecidableEq α] {out xs : List α} {x y : α} {n : Nat}

def push (out : List α) (x : α) : List α := if x ∈ out then out else out ++ [x]

def pushAll (out xs : List α) : List α := xs.foldl push out

/-- Push until the list has `n` elements. -/
def topUp (n : Nat) : List α → List α → List α
  | out, [] => out
  | out, x :: xs => if n ≤ out.length then out else topUp n (push out x) xs

/-! ## 1. One element -/

@[simp] theorem mem_push : y ∈ push out x ↔ y ∈ out ∨ y = x := by
  unfold push
  split
  · next hx => exact ⟨Or.inl, fun h => h.elim id fun heq => heq ▸ hx⟩
  · simp

theorem nodup_push (h : out.Nodup) : (push out x).Nodup := by
  unfold push
  split
  · exact h
  · next hx =>
    refine List.nodup_append.mpr ⟨h, List.nodup_singleton x, fun a ha b hb hab => hx ?_⟩
    rw [← List.mem_singleton.mp hb, ← hab]
    exact ha

theorem isPrefix_push (out : List α) (x : α) : out <+: push out x := by
  unfold push
  split
  · exact List.prefix_refl out
  · exact List.prefix_append out [x]

theorem length_push_le (out : List α) (x : α) : (push out x).length ≤ out.length + 1 := by
  unfold push
  split
  · exact Nat.le_succ _
  · exact Nat.le_of_eq List.length_append

/-! ## 2. All of a list -/

@[simp] theorem mem_pushAll : y ∈ pushAll out xs ↔ y ∈ out ∨ y ∈ xs := by
  induction xs generalizing out with
  | nil => simp [pushAll]
  | cons x xs ih =>
    have hstep : pushAll out (x :: xs) = pushAll (push out x) xs := rfl
    rw [hstep, ih, mem_push, List.mem_cons, or_assoc]

theorem nodup_pushAll (h : out.Nodup) : (pushAll out xs).Nodup := by
  induction xs generalizing out with
  | nil => exact h
  | cons x xs ih => exact ih (nodup_push h)

theorem isPrefix_pushAll (out xs : List α) : out <+: pushAll out xs := by
  induction xs generalizing out with
  | nil => exact List.prefix_refl out
  | cons x xs ih => exact (isPrefix_push out x).trans (ih (push out x))

/-- What the first pushes make stays in front. -/
theorem pushAll_take_isPrefix (out xs : List α) (m : Nat) : pushAll out (xs.take m) <+: pushAll out xs := by
  have hsplit : pushAll out xs = pushAll (pushAll out (xs.take m)) (xs.drop m) := by
    rw [pushAll, pushAll, pushAll, ← List.foldl_append, List.take_append_drop]
  rw [hsplit]
  exact isPrefix_pushAll _ _

/-- Nothing is dropped from lists that repeat nothing. -/
theorem pushAll_of_nodup (h : (out ++ xs).Nodup) : pushAll out xs = out ++ xs := by
  induction xs generalizing out with
  | nil => exact (List.append_nil out).symm
  | cons x xs ih =>
    have hnew : x ∉ out := fun hmem => (List.nodup_append.mp h).2.2 x hmem x List.mem_cons_self rfl
    have hpush : push out x = out ++ [x] := if_neg hnew
    have hstep : pushAll out (x :: xs) = pushAll (out ++ [x]) xs := by
      rw [← hpush]
      rfl
    rw [hstep, ih (by simpa using h), List.append_assoc, List.singleton_append]

/-! ## 3. Up to a length -/

theorem mem_of_mem_topUp (h : y ∈ topUp n out xs) : y ∈ out ∨ y ∈ xs := by
  induction xs generalizing out with
  | nil => exact Or.inl h
  | cons x xs ih =>
    rw [topUp] at h
    split at h
    · exact Or.inl h
    · rcases ih h with h | h
      · rcases mem_push.mp h with h | rfl
        · exact Or.inl h
        · exact Or.inr List.mem_cons_self
      · exact Or.inr (List.mem_cons_of_mem x h)

theorem nodup_topUp (h : out.Nodup) : (topUp n out xs).Nodup := by
  induction xs generalizing out with
  | nil => exact h
  | cons x xs ih =>
    rw [topUp]
    split
    · exact h
    · exact ih (nodup_push h)

theorem isPrefix_topUp (n : Nat) (out xs : List α) : out <+: topUp n out xs := by
  induction xs generalizing out with
  | nil => exact List.prefix_refl out
  | cons x xs ih =>
    rw [topUp]
    split
    · exact List.prefix_refl out
    · exact (isPrefix_push out x).trans (ih (push out x))

/-- It stops early only with `n` elements. -/
theorem topUp_full_or_all (n : Nat) (out xs : List α) :
    n ≤ (topUp n out xs).length ∨ ∀ x ∈ xs, x ∈ topUp n out xs := by
  induction xs generalizing out with
  | nil => exact Or.inr fun x hx => absurd hx List.not_mem_nil
  | cons x xs ih =>
    rw [topUp]
    split
    · next hfull => exact Or.inl hfull
    · rcases ih (push out x) with hfull | hall
      · exact Or.inl hfull
      · refine Or.inr fun y hy => ?_
        rcases List.mem_cons.mp hy with rfl | hy
        · exact (isPrefix_topUp n _ xs).subset (mem_push.mpr (Or.inr rfl))
        · exact hall y hy

theorem length_topUp_le (h : out.length ≤ n) : (topUp n out xs).length ≤ n := by
  induction xs generalizing out with
  | nil => exact h
  | cons x xs ih =>
    rw [topUp]
    split
    · exact h
    · next hroom => exact ih (Nat.le_trans (length_push_le out x) (Nat.lt_of_not_le hroom))

/-- A new element is pushed only while there is room. -/
theorem length_topUp_of_new (h : y ∈ topUp n out xs) (hnew : y ∉ out) : (topUp n out xs).length ≤ n := by
  rcases Nat.le_total n out.length with hfull | hroom
  · have hsame : topUp n out xs = out := by
      cases xs with
      | nil => rfl
      | cons x xs => exact if_pos hfull
    exact absurd (hsame ▸ h) hnew
  · exact length_topUp_le hroom

end Hypersync.Fresh
