import Mathlib.Data.List.DropRight
import Mathlib.Data.List.Infix
import Mathlib.Order.Basic
import Mathlib.Order.Lattice

/-!
# Timers over a sequence of checks

A check is bad (`p`) or it is not.  A timer remembers something about the check it was
started at: a bad check starts it or leaves it running, any other check clears it.
What it remembers is therefore the first check of the longest run of bad checks at
the end of the sequence, the *current streak*; and if a quantity only grows from
check to check, some streak at the end starts low enough exactly when this one does.
-/

namespace Streak

variable {β σ τ : Type*} (p : β → Bool) (m : β → σ)

/-- One check. -/
def tick (since : Option σ) (c : β) : Option σ := if p c then some (since.getD (m c)) else none

/-- The timer after the checks, the oldest first. -/
def timer (cs : List β) : Option σ := cs.foldl (tick p m) none

/-- The longest run of bad checks at the end. -/
def current (cs : List β) : List β := cs.rtakeWhile p

/-- `streak` is a run of bad checks up to the last one. -/
structure Ends (streak cs : List β) : Prop where
  suffix : streak <:+ cs
  all : ∀ c ∈ streak, p c

/-- `streak` is the longest run of bad checks up to the last one. -/
structure Maximal (streak cs : List β) : Prop extends Ends p streak cs where
  longest : ∀ other, Ends p other cs → other <:+ streak

variable {p m} {cs : List β} {c : β}

theorem timer_concat (cs : List β) (c : β) : timer p m (cs ++ [c]) = tick p m (timer p m cs) c := by
  rw [timer, List.foldl_append]
  rfl

theorem current_concat (cs : List β) (c : β) : current p (cs ++ [c]) = if p c then current p cs ++ [c] else [] :=
  List.rtakeWhile_concat ..

/-- **What the timer remembers.** -/
theorem timer_eq (cs : List β) : timer p m cs = (current p cs).head?.map m := by
  induction cs using List.reverseRecOn with
  | nil => rfl
  | append_singleton cs c ih =>
    rw [timer_concat, ih, tick, current_concat]
    split
    · rw [List.head?_append]
      cases (current p cs).head? <;> rfl
    · rfl

theorem maximal_current (cs : List β) : Maximal p (current p cs) cs := by
  refine ⟨⟨List.rtakeWhile_suffix p cs, fun c hc => List.mem_rtakeWhile_imp hc⟩, ?_⟩
  intro other h
  induction cs using List.reverseRecOn generalizing other with
  | nil => exact h.suffix
  | append_singleton cs c ih =>
    rcases other.eq_nil_or_concat' with rfl | ⟨front, d, rfl⟩
    · exact List.nil_suffix
    · -- the last of the run is the last check, the rest is a run before it
      obtain ⟨pre, hpre⟩ := h.suffix
      rw [← List.append_assoc] at hpre
      obtain ⟨rfl, hd⟩ := List.append_inj' hpre rfl
      obtain rfl := List.singleton_inj.mp hd
      have hp : p d := h.all d (List.mem_append_right _ (List.mem_singleton_self d))
      have hfront : front <:+ current p (pre ++ front) :=
        ih front ⟨List.suffix_append pre front, fun b hb => h.all b (List.mem_append_left _ hb)⟩
      rw [current, List.rtakeWhile_concat_pos _ _ _ hp]
      exact List.suffix_append_inj_of_length_eq rfl |>.mpr ⟨hfront, rfl⟩

theorem Maximal.eq_current {streak : List β} (h : Maximal p streak cs) : streak = current p cs :=
  ((maximal_current cs).longest streak h.toEnds).eq_of_length_le (h.longest _ (maximal_current cs).toEnds).length_le

/-- Streaks end at the last check. -/
theorem Ends.last_mem {streak : List β} (h : Ends p streak (cs ++ [c])) (hne : streak ≠ []) : c ∈ streak := by
  obtain ⟨pre, hpre⟩ := h.suffix
  have hlast := congrArg List.getLast? hpre
  rw [List.getLast?_append_of_ne_nil _ hne, List.getLast?_concat] at hlast
  exact List.mem_of_getLast? hlast

/-- No streak reaches back past a check that is not bad. -/
theorem Ends.after {streak pre post : List β} (h : Ends p streak (pre ++ c :: post)) (hc : ¬ p c) :
    streak <:+ post := by
  rcases List.suffix_or_suffix_of_suffix h.suffix (List.suffix_append pre (c :: post)) with hs | hs
  · rcases List.suffix_cons_iff.mp hs with rfl | hs
    · exact absurd (h.all c List.mem_cons_self) hc
    · exact hs
  · exact absurd (h.all c (hs.mem List.mem_cons_self)) hc

variable (p) in
/-- A counter of the bad checks in a row. -/
def count (n : Nat) (cs : List β) : Nat := cs.foldl (fun n c => if p c then n + 1 else 0) n

theorem count_current (cs ds : List β) : count p (current p cs).length ds = (current p (cs ++ ds)).length := by
  induction ds using List.reverseRecOn with
  | nil => rw [List.append_nil, count, List.foldl_nil]
  | append_singleton ds d ih =>
    rw [count] at ih
    rw [count, List.foldl_concat, ih, ← List.append_assoc, current_concat]
    split
    · rw [List.length_append]
      rfl
    · rfl

/-- The current streak reaches back into the one before the last checks, or starts among them. -/
theorem current_append_suffix (cs ds : List β) : current p (cs ++ ds) <:+ current p cs ++ ds := by
  induction ds using List.reverseRecOn with
  | nil => rw [List.append_nil, List.append_nil]
  | append_singleton ds d ih =>
    rw [← List.append_assoc, current_concat]
    split
    · rw [← List.append_assoc]
      exact List.suffix_append_inj_of_length_eq rfl |>.mpr ⟨ih, rfl⟩
    · exact List.nil_suffix

section mono
variable [LinearOrder τ] {f : β → τ}

/-- **Some streak starts low enough exactly when the current one does.** -/
theorem exists_ends_iff (hmono : cs.Pairwise fun c d => f c ≤ f d) (limit : τ) :
    (∃ streak first, Ends p streak cs ∧ streak.head? = some first ∧ f first ≤ limit) ↔
      ∃ first, (current p cs).head? = some first ∧ f first ≤ limit := by
  have hmax := maximal_current (p := p) cs
  constructor
  · rintro ⟨streak, first, hends, hfirst, hle⟩
    obtain ⟨pre, hpre⟩ := hmax.longest streak hends
    cases pre with
    | nil => exact ⟨first, hpre ▸ hfirst, hle⟩
    | cons c pre =>
      -- the current streak starts no later than any other
      have hsorted := hmono.sublist hmax.suffix.sublist
      rw [← hpre] at hsorted
      have hc : f c ≤ f first :=
        (List.pairwise_cons.mp hsorted).1 first (List.mem_append_right _ (List.mem_of_mem_head? hfirst))
      exact ⟨c, by rw [← hpre]; rfl, hc.trans hle⟩
  · rintro ⟨first, hfirst, hle⟩
    exact ⟨current p cs, first, hmax.toEnds, hfirst, hle⟩

/-- A streak starts no earlier than the first check behind one that is not bad. -/
theorem Ends.restarts {streak pre post : List β} {first : β} (h : Ends p streak (pre ++ c :: post)) (hc : ¬ p c)
    (hfirst : streak.head? = some first) (hmono : (pre ++ c :: post).Pairwise fun c d => f c ≤ f d) :
    ∃ d, post.head? = some d ∧ f d ≤ f first := by
  have hmem : first ∈ post := (h.after hc).mem (List.mem_of_mem_head? hfirst)
  cases post with
  | nil => cases hmem
  | cons d post =>
    refine ⟨d, rfl, ?_⟩
    rcases List.mem_cons.mp hmem with rfl | hmem
    · exact le_refl _
    · have hpost := (List.pairwise_cons.mp (List.pairwise_append.mp hmono).2.1).2
      exact (List.pairwise_cons.mp hpost).1 first hmem

end mono

end Streak
