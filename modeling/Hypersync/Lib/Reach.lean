import Mathlib.Tactic.TypeStar

/-!
# Layers of a search

`Layer k x` says that `x` can be reached from a start in exactly `k` steps, and
`Before i x` that fewer than `i` steps can do.  A layer that adds nothing to those
before it ends the search: nothing new is reached later either
(`before_of_saturated`).
-/

namespace Reach

variable {α : Type*}

inductive Layer (start : α → Prop) (step : α → α → Prop) : Nat → α → Prop where
  | start {x : α} (hstart : start x) : Layer start step 0 x
  | step {k : Nat} {x y : α} (hlayer : Layer start step k x) (hstep : step x y) : Layer start step (k + 1) y

def Before (start : α → Prop) (step : α → α → Prop) (i : Nat) (x : α) : Prop :=
  ∃ k, k < i ∧ Layer start step k x

variable {start : α → Prop} {step : α → α → Prop} {i k : Nat} {x y : α}

theorem layer_zero_iff : Layer start step 0 x ↔ start x := by
  constructor
  · intro h
    cases h with
    | start hstart => exact hstart
  · exact Layer.start

theorem layer_succ_iff : Layer start step (k + 1) y ↔ ∃ x, Layer start step k x ∧ step x y := by
  constructor
  · intro h
    cases h with
    | step hlayer hstep => exact ⟨_, hlayer, hstep⟩
  · rintro ⟨x, hlayer, hstep⟩
    exact Layer.step hlayer hstep

theorem not_before_zero : ¬ Before start step 0 x := by
  rintro ⟨k, hk, -⟩
  exact absurd hk (Nat.not_lt_zero k)

theorem before_succ_iff : Before start step (i + 1) x ↔ Before start step i x ∨ Layer start step i x := by
  constructor
  · rintro ⟨k, hk, hlayer⟩
    rcases Nat.lt_succ_iff_lt_or_eq.mp hk with hk | rfl
    · exact Or.inl ⟨k, hk, hlayer⟩
    · exact Or.inr hlayer
  · rintro (⟨k, hk, hlayer⟩ | hlayer)
    · exact ⟨k, Nat.lt_succ_of_lt hk, hlayer⟩
    · exact ⟨i, Nat.lt_succ_self i, hlayer⟩

theorem Before.mono {j : Nat} (hij : i ≤ j) (h : Before start step i x) : Before start step j x := by
  obtain ⟨k, hk, hlayer⟩ := h
  exact ⟨k, Nat.lt_of_lt_of_le hk hij, hlayer⟩

/-- A layer without anything new is the last one that matters. -/
theorem before_of_saturated (hsat : ∀ x, Layer start step i x → Before start step i x) :
    ∀ {k : Nat} {x : α}, Layer start step k x → Before start step i x := by
  intro k x hlayer
  induction hlayer with
  | start hstart =>
    rcases Nat.eq_zero_or_pos i with rfl | hi
    · exact hsat _ (Layer.start hstart)
    · exact ⟨0, hi, Layer.start hstart⟩
  | step _ hstep ih =>
    obtain ⟨j, hj, hlayer⟩ := ih
    rcases Nat.eq_or_lt_of_le (Nat.succ_le_of_lt hj) with rfl | hlt
    · exact hsat _ (Layer.step hlayer hstep)
    · exact ⟨j + 1, hlt, Layer.step hlayer hstep⟩

end Reach
