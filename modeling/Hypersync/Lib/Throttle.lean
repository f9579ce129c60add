import Mathlib.Data.List.Pairwise

/-!
# A use at most every so often

A shared stamp holds the instant of the last use.  A use is let through when the stamp
is empty or old enough, and stamps its instant; a use that came to nothing may empty
the stamp again.

`Guarded` says what the stamp has to know: whenever it lets a use through, all uses so
far are far enough back.
-/

namespace Throttle

variable {every now later : Nat} {last : Option Nat} {uses : List Nat}

def tooSoon (every : Nat) (last : Option Nat) (now : Nat) : Bool :=
  match last with
  | some t => now - t < every
  | none => false

/-- The uses, latest first, are apart. -/
def Spaced (every : Nat) (uses : List Nat) : Prop := uses.Pairwise fun later earlier => earlier + every ≤ later

def Guarded (every now : Nat) (last : Option Nat) (uses : List Nat) : Prop :=
  ∀ later, now ≤ later → tooSoon every last later = false → ∀ u ∈ uses, u + every ≤ later

theorem tooSoon_self (hpos : 0 < every) (now : Nat) : tooSoon every (some now) now = true := by
  simp only [tooSoon, Nat.sub_self, decide_eq_true_eq]
  exact hpos

theorem tooSoon_some (hle : now ≤ later) (h : tooSoon every (some now) later = false) : now + every ≤ later := by
  simp only [tooSoon, decide_eq_false_iff_not, Nat.not_lt] at h
  omega

theorem guarded_nil (every now : Nat) (last : Option Nat) : Guarded every now last [] :=
  fun _ _ _ _ hu => absurd hu List.not_mem_nil

theorem Guarded.mono (h : Guarded every now last uses) (hle : now ≤ later) : Guarded every later last uses :=
  fun l hl => h l (Nat.le_trans hle hl)

theorem Guarded.apart (h : Guarded every now last uses) (hfree : tooSoon every last now = false) :
    ∀ u ∈ uses, u + every ≤ now := h now (Nat.le_refl now) hfree

/-- A stamp of this instant guards the use made now and whatever is far enough back. -/
theorem guarded_use (h : ∀ u ∈ uses, u + every ≤ now) : Guarded every now (some now) (now :: uses) := by
  intro l hl hfree u hu
  rcases List.mem_cons.mp hu with rfl | hu
  · exact tooSoon_some hl hfree
  · exact Nat.le_trans (h u hu) hl

/-- With everything far enough back no stamp is needed. -/
theorem guarded_none (h : ∀ u ∈ uses, u + every ≤ now) : Guarded every now none uses :=
  fun _ hl _ u hu => Nat.le_trans (h u hu) hl

theorem Spaced.use (hspaced : Spaced every uses) (h : ∀ u ∈ uses, u + every ≤ now) : Spaced every (now :: uses) :=
  List.pairwise_cons.mpr ⟨h, hspaced⟩

end Throttle
