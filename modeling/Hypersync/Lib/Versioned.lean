import Mathlib.Data.Set.Insert
import Mathlib.Logic.Function.Basic

/-!
# A value published under a version

Writers store a new value and *then* raise the version; readers load the version
and *then* the value.  Nothing makes either pair atomic and any number of both may
overlap.  A reader may hold a value that no longer stands, but not for long: once
no writer is between its two stores, what a reader holds under the current version
is the current value (`Coherent.current`), and what a reader holds under an outdated
version stays outdated (`Outdated.move`).

Each reader starts once, so its name says which load is meant.
-/

namespace Versioned

/-- How far a reader has got, with what it has loaded. -/
inductive Reader (α : Type*)
  | fresh
  | begun (version : Nat)
  | holds (version : Nat) (value : α)
  | done

/-- The published value, its version, the writers between their two stores, and the readers. -/
@[ext] structure Cell (α ι κ : Type*) where
  value : α
  version : Nat
  writing : Set ι
  reader : κ → Reader α

variable {α ι κ : Type*} {c c' : Cell α ι κ}

/-- No reader is ahead of the version, and one that is level with it holds the
    published value unless a writer still has to raise the version. -/
structure Coherent (c : Cell α ι κ) : Prop where
  begun : ∀ k g, c.reader k = .begun g → g ≤ c.version
  holds : ∀ k g v, c.reader k = .holds g v → g ≤ c.version
  level : ∀ k g v, c.reader k = .holds g v → g = c.version → v = c.value ∨ c.writing.Nonempty

theorem Coherent.of_fresh (h : ∀ k, c.reader k = .fresh) : Coherent c where
  begun k g hk := by simp [h k] at hk
  holds k g v hk := by simp [h k] at hk
  level k g v hk := by simp [h k] at hk

/-- **Under the current version, the current value**, once no writer is under way. -/
theorem Coherent.current (h : Coherent c) (hquiet : c.writing = ∅) {k : κ} {g : Nat} {v : α}
    (hk : c.reader k = .holds g v) (hg : g = c.version) : v = c.value := by
  rcases h.level k g v hk hg with hv | hw
  · exact hv
  · simp [hquiet] at hw

variable [DecidableEq κ]

/-- One load or store. -/
inductive Move : Cell α ι κ → Cell α ι κ → Prop
  | store (c : Cell α ι κ) (i : ι) (v : α) : Move c { c with value := v, writing := insert i c.writing }
  | bump (c : Cell α ι κ) (i : ι) : Move c { c with version := c.version + 1, writing := c.writing \ {i} }
  | begins (c : Cell α ι κ) (k : κ) (h : c.reader k = .fresh) :
      Move c { c with reader := Function.update c.reader k (.begun c.version) }
  | loads (c : Cell α ι κ) (k : κ) (g : Nat) (h : c.reader k = .begun g) :
      Move c { c with reader := Function.update c.reader k (.holds g c.value) }
  | ends (c : Cell α ι κ) (k : κ) : Move c { c with reader := Function.update c.reader k .done }

theorem Move.version_le (h : Move c c') : c.version ≤ c'.version := by
  cases h with
  | bump i => exact Nat.le_succ _
  | store | begins | loads | ends => exact Nat.le_refl _

/-- A reader past its loads changes only by being done. -/
theorem Move.reader (h : Move c c') (k : κ) :
    c'.reader k = c.reader k ∨ c'.reader k = .done ∨ c.reader k = .fresh ∨ ∃ g, c.reader k = .begun g := by
  cases h with
  | store | bump => exact .inl rfl
  | begins j hj =>
    by_cases hkj : k = j
    · exact .inr (.inr (.inl (hkj ▸ hj)))
    · exact .inl (by simp [hkj])
  | loads j g hj =>
    by_cases hkj : k = j
    · exact .inr (.inr (.inr ⟨g, hkj ▸ hj⟩))
    · exact .inl (by simp [hkj])
  | ends j =>
    by_cases hkj : k = j
    · exact .inr (.inl (by simp [hkj]))
    · exact .inl (by simp [hkj])

theorem Move.done (h : Move c c') {k : κ} (hk : c.reader k = .done) : c'.reader k = .done := by
  rcases h.reader k with heq | hdone | hfresh | ⟨g, hbegun⟩
  · exact heq.trans hk
  · exact hdone
  · simp [hk] at hfresh
  · simp [hk] at hbegun

/-- The reader holds a value under a version that has passed, or is done. -/
def Outdated (c : Cell α ι κ) (k : κ) (g : Nat) (v : α) : Prop :=
  (c.reader k = .holds g v ∧ g < c.version) ∨ c.reader k = .done

theorem Outdated.move {k : κ} {g : Nat} {v : α} (h : Outdated c k g v) (hmove : Move c c') :
    Outdated c' k g v := by
  rcases h with ⟨hk, hlt⟩ | hk
  · rcases hmove.reader k with heq | hdone | hfresh | ⟨g', hbegun⟩
    · exact .inl ⟨heq.trans hk, Nat.lt_of_lt_of_le hlt hmove.version_le⟩
    · exact .inr hdone
    · simp [hk] at hfresh
    · simp [hk] at hbegun
  · exact .inr (hmove.done hk)

/-- A reader's own step: only what it now holds has to be checked. -/
theorem Coherent.update (h : Coherent c) (k : κ) (r : Reader α)
    (hbegun : ∀ g, r = .begun g → g ≤ c.version)
    (hholds : ∀ g v, r = .holds g v → g ≤ c.version ∧ v = c.value) :
    Coherent { c with reader := Function.update c.reader k r } where
  begun j g hj := by
    by_cases hjk : j = k
    · subst hjk
      exact hbegun g (by simpa using hj)
    · exact h.begun j g (by simpa [hjk] using hj)
  holds j g v hj := by
    by_cases hjk : j = k
    · subst hjk
      exact (hholds g v (by simpa using hj)).1
    · exact h.holds j g v (by simpa [hjk] using hj)
  level j g v hj hg := by
    by_cases hjk : j = k
    · subst hjk
      exact .inl (hholds g v (by simpa using hj)).2
    · exact h.level j g v (by simpa [hjk] using hj) hg

theorem Coherent.move (h : Coherent c) (hmove : Move c c') : Coherent c' := by
  cases hmove with
  | store i v => exact ⟨h.begun, h.holds, fun _ _ _ _ _ => .inr (Set.insert_nonempty _ _)⟩
  | bump i =>
    -- every version loaded so far is below the new one
    refine ⟨fun k g hk => Nat.le_succ_of_le (h.begun k g hk),
      fun k g v hk => Nat.le_succ_of_le (h.holds k g v hk), fun k g v hk hg => ?_⟩
    have hle : g ≤ c.version := h.holds k g v hk
    have hlevel : g = c.version + 1 := hg
    omega
  | begins k hk =>
    refine h.update k _ (fun g hg => ?_) (fun g v hg => by simp at hg)
    cases hg
    exact Nat.le_refl _
  | loads k g hk =>
    refine h.update k _ (fun g hg => by simp at hg) (fun g' v hg => ?_)
    cases hg
    exact ⟨h.begun k g hk, rfl⟩
  | ends k => exact h.update k _ (fun g hg => by simp at hg) (fun g v hg => by simp at hg)

end Versioned
