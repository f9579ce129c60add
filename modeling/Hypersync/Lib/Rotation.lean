import Mathlib.Data.Int.GCD
import Mathlib.Data.Nat.ModEq

/-!
# Windows that move around a circle

The positions `0, …, n - 1` are taken modulo `n`; the `i`-th window starts at
`start i` and is `len i` long.  When each window starts where the one before it
ended, `k` windows whose lengths add up to `n` or more cover every position
(`exists_window_of_contiguous`).  When the start moves by a fixed step instead, whatever
the windows cover, the starts only come back to every `gcd step n`-th position: windows
that long cover the circle (`exists_window_of_stride`).
-/

namespace Rotation

/-- The lengths of the first `k` windows, added up. -/
def total (len : Nat → Nat) : Nat → Nat
  | 0 => 0
  | k + 1 => total len k + len k

theorem mul_le_total {len : Nat → Nat} {c : Nat} (h : ∀ i, c ≤ len i) (k : Nat) :
    k * c ≤ total len k := by
  induction k with
  | zero => rw [Nat.zero_mul]; exact Nat.zero_le _
  | succ k ih =>
    have := h k
    rw [Nat.succ_mul, total]
    omega

/-- Windows of length `h`, or of length `n` if that is less: as many as `n` over `h`, rounded
    up, are long enough. -/
theorem le_ceil_mul_min {n h : Nat} (hn : 0 < n) (hh : 0 < h) : n ≤ (n + h - 1) / h * min n h := by
  rcases Nat.le_total n h with hle | hle
  · rw [Nat.min_eq_left hle]
    exact Nat.le_mul_of_pos_left n (Nat.div_pos (by omega) hh)
  · rw [Nat.min_eq_right hle]
    have hdiv := Nat.div_add_mod (n + h - 1) h
    have hmod := Nat.mod_lt (n + h - 1) hh
    rw [Nat.mul_comm] at hdiv
    omega

/-- Laid end to end, the windows leave no offset out. -/
theorem exists_offset (len : Nat → Nat) {k : Nat} :
    ∀ {m : Nat}, m < total len k → ∃ i < k, ∃ off < len i, m = total len i + off := by
  induction k with
  | zero =>
    intro m hm
    exact absurd hm (Nat.not_lt_zero m)
  | succ k ih =>
    intro m hm
    by_cases hold : m < total len k
    · obtain ⟨i, hi, off, hoff, heq⟩ := ih hold
      exact ⟨i, Nat.lt_succ_of_lt hi, off, hoff, heq⟩
    · rw [total] at hm
      exact ⟨k, Nat.lt_succ_self k, m - total len k, by omega, by omega⟩

/-- Every position is so far ahead of a given one. -/
theorem exists_ahead {n : Nat} (p : Nat) {j : Nat} (hj : j < n) : ∃ m < n, (p + m) % n = j := by
  have hp : p % n < n := Nat.mod_lt p (Nat.zero_lt_of_lt hj)
  refine ⟨(j + (n - p % n)) % n, Nat.mod_lt _ (Nat.zero_lt_of_lt hj), ?_⟩
  rw [Nat.add_mod, Nat.mod_mod, ← Nat.add_mod, Nat.add_mod, Nat.add_mod_mod]
  rw [show p % n + (j + (n - p % n)) = j + n by omega, Nat.add_mod_right, Nat.mod_eq_of_lt hj]

section Contiguous

variable {n : Nat} {start len : Nat → Nat}

/-- A window starts where the lengths before it put it. -/
theorem start_modEq (hnext : ∀ i, start (i + 1) = (start i + len i) % n) (i : Nat) :
    start i ≡ start 0 + total len i [MOD n] := by
  induction i with
  | zero => exact Nat.ModEq.refl _
  | succ i ih =>
    have hstep : start (i + 1) ≡ start i + len i [MOD n] := by
      rw [hnext i]
      exact Nat.mod_modEq _ n
    rw [total, ← Nat.add_assoc]
    exact hstep.trans (ih.add_right (len i))

/-- **Contiguous windows cover the circle** as soon as they are long enough in total. -/
theorem exists_window_of_contiguous (start len : Nat → Nat)
    (hnext : ∀ i, start (i + 1) = (start i + len i) % n) {k : Nat} (hlong : n ≤ total len k) {j : Nat}
    (hj : j < n) :
    ∃ i < k, ∃ off < len i, (start i + off) % n = j := by
  obtain ⟨m, hm, hpos⟩ := exists_ahead (start 0) hj
  obtain ⟨i, hi, off, hoff, rfl⟩ := exists_offset len (Nat.lt_of_lt_of_le hm hlong)
  refine ⟨i, hi, off, hoff, ?_⟩
  have hsame : start i + off ≡ start 0 + (total len i + off) [MOD n] := by
    rw [← Nat.add_assoc]
    exact (start_modEq hnext i).add_right off
  exact Eq.trans hsame hpos

end Contiguous

section Stride

variable {n step : Nat}

/-- The multiples of the greatest common divisor are the multiples of the step. -/
theorem exists_mul_modEq (hn : 0 < n) (step q : Nat) : ∃ t, step * t ≡ q * Nat.gcd step n [MOD n] := by
  rcases Nat.lt_or_eq_of_le (Nat.gcd_le_right step hn) with hlt | heq
  · obtain ⟨m, -, hm⟩ := Nat.exists_mul_mod_eq_gcd hlt
    refine ⟨m * q, ?_⟩
    have hone : step * m ≡ Nat.gcd step n [MOD n] := by
      rw [Nat.ModEq, hm, Nat.mod_eq_of_lt hlt]
    rw [← Nat.mul_assoc, Nat.mul_comm q]
    exact hone.mul_right q
  · refine ⟨0, ?_⟩
    rw [heq, Nat.mul_zero, Nat.ModEq, Nat.zero_mod, Nat.mul_mod_left]

/-- The starts repeat after `n / gcd step n` windows. -/
theorem mul_mod_period (step n t : Nat) : step * (t % (n / Nat.gcd step n)) ≡ step * t [MOD n] := by
  have hperiod : n ∣ step * (n / Nat.gcd step n) := by
    obtain ⟨c, hc⟩ := Nat.gcd_dvd_left step n
    refine ⟨c, ?_⟩
    calc step * (n / Nat.gcd step n) = Nat.gcd step n * c * (n / Nat.gcd step n) := by rw [← hc]
      _ = Nat.gcd step n * (n / Nat.gcd step n) * c := Nat.mul_right_comm _ _ _
      _ = n * c := by rw [Nat.mul_div_cancel' (Nat.gcd_dvd_right step n)]
  have hsplit := Nat.mod_add_div t (n / Nat.gcd step n)
  have hrest : step * (n / Nat.gcd step n * (t / (n / Nat.gcd step n))) ≡ 0 [MOD n] := by
    rw [← Nat.mul_assoc]
    exact (Nat.modEq_zero_iff_dvd).mpr (hperiod.mul_right _)
  calc step * (t % (n / Nat.gcd step n))
      ≡ step * (t % (n / Nat.gcd step n)) + step * (n / Nat.gcd step n * (t / (n / Nat.gcd step n))) [MOD n] :=
        (hrest.add_left _).symm
    _ = step * t := by rw [← Nat.mul_add, hsplit]

/-- **Windows at a fixed step cover the circle** when each is as long as the greatest common
    divisor of the step and the circle. -/
theorem exists_window_of_stride (start step : Nat) {j : Nat} (hj : j < n) :
    ∃ t < n / Nat.gcd step n, ∃ off < Nat.gcd step n, (start + step * t + off) % n = j := by
  have hn : 0 < n := Nat.zero_lt_of_lt hj
  have hd : 0 < Nat.gcd step n := Nat.gcd_pos_of_pos_right step hn
  obtain ⟨m, -, hm⟩ := exists_ahead start hj
  -- the way ahead, in whole steps of the divisor and a rest
  obtain ⟨t, ht⟩ := exists_mul_modEq hn step (m / Nat.gcd step n)
  refine ⟨t % (n / Nat.gcd step n), Nat.mod_lt _ (Nat.div_pos (Nat.gcd_le_right step hn) hd), m % Nat.gcd step n,
    Nat.mod_lt _ hd, ?_⟩
  have hsame : start + step * (t % (n / Nat.gcd step n)) + m % Nat.gcd step n ≡ start + m [MOD n] := by
    calc start + step * (t % (n / Nat.gcd step n)) + m % Nat.gcd step n
        ≡ start + m / Nat.gcd step n * Nat.gcd step n + m % Nat.gcd step n [MOD n] :=
          (((mul_mod_period step n t).trans ht).add_left start).add_right _
      _ = start + m := by rw [Nat.add_assoc, Nat.div_add_mod']
  exact Eq.trans hsame hm

end Stride

end Rotation
