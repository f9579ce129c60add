import Mathlib.Data.List.Induction
import Mathlib.Order.Basic
import Mathlib.Order.Lattice

/-!
# The last record of a key in a log

Every item of a log has a key and a value.  An item sets a record when its value is
higher than all earlier values of its key.  The last record of a key is the first
item to reach the key's highest value: it is what a table keeps that notes, for each
key, the highest value and the item it was reached at.
-/

namespace Record

variable {β κ τ : Type*} [LinearOrder τ] (key : β → κ) (value : β → τ)

/-- The item at which key `k` reached its highest value: higher than all its earlier ones,
    and no later one is higher. -/
def Last (log : List β) (k : κ) (o : β) : Prop :=
  ∃ pre post, log = pre ++ o :: post ∧ key o = k ∧ (∀ p ∈ pre, key p = k → value p < value o) ∧
    ∀ p ∈ post, key p = k → value p ≤ value o

namespace Last

variable {key value} {log : List β} {k : κ} {o o' x : β}

theorem mem (h : Last key value log k o) : o ∈ log := by
  obtain ⟨pre, post, rfl, -⟩ := h
  exact List.mem_append_right _ List.mem_cons_self

theorem key_eq (h : Last key value log k o) : key o = k := by
  obtain ⟨-, -, -, hkey, -⟩ := h
  exact hkey

theorem le (h : Last key value log k o) {p : β} (hp : p ∈ log) (hkey : key p = k) : value p ≤ value o := by
  obtain ⟨pre, post, rfl, -, hpre, hpost⟩ := h
  rcases List.mem_append.mp hp with hp | hp
  · exact (hpre p hp hkey).le
  · rcases List.mem_cons.mp hp with rfl | hp
    · exact le_refl _
    · exact hpost p hp hkey

/-- The first item of the highest value. -/
theorem unique (h : Last key value log k o) (h' : Last key value log k o') : o = o' := by
  have hvalue : value o = value o' := le_antisymm (h'.le h.mem h.key_eq) (h.le h'.mem h'.key_eq)
  obtain ⟨pre, post, rfl, hkey, hpre, -⟩ := h
  obtain ⟨pre', post', heq, hkey', hpre', -⟩ := h'
  -- neither stands before the other
  rcases List.append_eq_append_iff.mp heq with ⟨mid, rfl, hmid⟩ | ⟨mid, rfl, hmid⟩
  · rcases List.cons_eq_append_iff.mp hmid with ⟨rfl, htail⟩ | ⟨mid, rfl, -⟩
    · exact (List.cons.inj htail).1.symm
    · exact absurd hvalue (hpre' o (List.mem_append_right _ List.mem_cons_self) hkey).ne
  · rcases List.cons_eq_append_iff.mp hmid with ⟨rfl, htail⟩ | ⟨mid, rfl, -⟩
    · exact (List.cons.inj htail).1
    · exact absurd hvalue.symm (hpre o' (List.mem_append_right _ List.mem_cons_self) hkey').ne

/-- An item of another key, or of no higher value, leaves it. -/
theorem concat (h : Last key value log k o) (hx : key x = k → value x ≤ value o) :
    Last key value (log ++ [x]) k o := by
  obtain ⟨pre, post, rfl, hkey, hpre, hpost⟩ := h
  refine ⟨pre, post ++ [x], by rw [List.append_assoc, List.cons_append], hkey, hpre, ?_⟩
  intro p hp hpkey
  rcases List.mem_append.mp hp with hp | hp
  · exact hpost p hp hpkey
  · rw [List.mem_singleton.mp hp] at hpkey ⊢
    exact hx hpkey

/-- A value higher than all before it sets the record. -/
theorem concat_self (hx : ∀ p ∈ log, key p = key x → value p < value x) : Last key value (log ++ [x]) (key x) x :=
  ⟨log, [], rfl, rfl, hx, nofun⟩

/-- A key that occurs has a last record. -/
theorem exists_of_mem {log : List β} {x : β} (h : x ∈ log) : ∃ o, Last key value log (key x) o := by
  induction log using List.reverseRecOn generalizing x with
  | nil => cases h
  | append_singleton log y ih =>
    by_cases hold : ∃ p ∈ log, key p = key x
    · obtain ⟨p, hp, hpkey⟩ := hold
      obtain ⟨o, ho⟩ := ih hp
      rw [hpkey] at ho
      by_cases hy : key y = key x → value y ≤ value o
      · exact ⟨o, ho.concat hy⟩
      · obtain ⟨hykey, hlt⟩ := Classical.not_imp.mp hy
        refine ⟨y, hykey ▸ concat_self ?_⟩
        intro p' hp' hpkey'
        exact lt_of_le_of_lt (ho.le hp' (hpkey'.trans hykey)) (not_le.mp hlt)
    · have hxy : x = y := by
        rcases List.mem_append.mp h with h | h
        · exact absurd ⟨x, h, rfl⟩ hold
        · exact List.mem_singleton.mp h
      subst hxy
      exact ⟨x, concat_self fun p hp hpkey => absurd ⟨p, hp, hpkey⟩ hold⟩

/-- The last record of a key the new item does not have was there before. -/
theorem of_concat_ne (h : Last key value (log ++ [x]) k o) (hx : key x ≠ k) : Last key value log k o := by
  have hmem : o ∈ log := by
    rcases List.mem_append.mp h.mem with hmem | hmem
    · exact hmem
    · rw [List.mem_singleton.mp hmem] at h
      exact absurd h.key_eq hx
  obtain ⟨o', ho'⟩ := (exists_of_mem hmem : ∃ o', Last key value log (key o) o')
  rw [h.key_eq] at ho'
  rwa [h.unique (ho'.concat fun hkey => absurd hkey hx)]

end Last

end Record
