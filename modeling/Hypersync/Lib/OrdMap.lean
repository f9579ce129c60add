import Mathlib.Data.List.Pairwise
import Mathlib.Data.List.Basic
import Mathlib.Order.Lattice
import Mathlib.Algebra.Order.BigOperators.Group.List
import Mathlib.Algebra.Order.Ring.Nat

/-!
# Ordered maps as sorted association lists

`OrdMap κ α` is a list of key–value pairs with strictly increasing keys; the
order is a field of the structure, so an unsorted map cannot be built.  The
operations are those of an ordered map in a standard library (insert, remove,
first and last entry, iteration from a key on), and each is described by one
membership lemma `mem_*`: the later proofs talk about which pairs a map holds
and never open the list again.
-/

/-- A finite map with keys in increasing order. -/
structure OrdMap (κ α : Type*) [LT κ] where
  entries : List (κ × α)
  sorted : entries.Pairwise (fun p q => p.1 < q.1)

namespace OrdMap

variable {κ α : Type*} [LinearOrder κ]

instance : Membership (κ × α) (OrdMap κ α) where
  mem m p := p ∈ m.entries

theorem mem_def {m : OrdMap κ α} {p : κ × α} : p ∈ m ↔ p ∈ m.entries := Iff.rfl

def empty : OrdMap κ α := ⟨[], List.Pairwise.nil⟩

def size (m : OrdMap κ α) : Nat := m.entries.length

@[simp] theorem not_mem_empty (p : κ × α) : p ∉ (empty : OrdMap κ α) := by
  simp [mem_def, empty]

/-- A key has at most one value. -/
theorem value_unique {m : OrdMap κ α} {k : κ} {v w : α} (hv : (k, v) ∈ m) (hw : (k, w) ∈ m) :
    v = w := by
  obtain ⟨l, hl⟩ := m
  simp only [mem_def] at hv hw
  induction l with
  | nil => cases hv
  | cons p t ih =>
    rw [List.pairwise_cons] at hl
    rcases List.mem_cons.mp hv with rfl | hv' <;> rcases List.mem_cons.mp hw with hw' | hw'
    · exact (Prod.mk.inj hw').2.symm
    · exact absurd (hl.1 _ hw') (lt_irrefl _)
    · subst hw'
      exact absurd (hl.1 _ hv') (lt_irrefl _)
    · exact ih hl.2 hv' hw'

/-! ## Lookup and removal -/

def get? (m : OrdMap κ α) (k : κ) : Option α :=
  (m.entries.find? (fun p => decide (p.1 = k))).map Prod.snd

theorem get?_eq_some {m : OrdMap κ α} {k : κ} {v : α} : m.get? k = some v ↔ (k, v) ∈ m := by
  unfold get?
  constructor
  · intro h
    obtain ⟨p, hp, rfl⟩ := Option.map_eq_some_iff.mp h
    have hk : p.1 = k := by simpa using List.find?_some hp
    subst hk
    exact List.mem_of_find?_eq_some hp
  · intro h
    rcases hf : m.entries.find? (fun p => decide (p.1 = k)) with _ | p
    · have hnone := List.find?_eq_none.mp hf _ h
      simp at hnone
    · have hk : p.1 = k := by simpa using List.find?_some hf
      subst hk
      have hmem : (p.1, p.2) ∈ m := List.mem_of_find?_eq_some hf
      rw [hf, Option.map_some, value_unique hmem h]

def erase (m : OrdMap κ α) (k : κ) : OrdMap κ α :=
  ⟨m.entries.filter (fun p => decide (p.1 ≠ k)), m.sorted.filter _⟩

theorem mem_erase {m : OrdMap κ α} {k : κ} {p : κ × α} : p ∈ m.erase k ↔ p ∈ m ∧ p.1 ≠ k := by
  simp [mem_def, erase]

/-! ## Insertion -/

/-- Insert into a sorted list, replacing the value of an equal key. -/
def insertList (k : κ) (v : α) : List (κ × α) → List (κ × α)
  | [] => [(k, v)]
  | p :: t =>
    if k < p.1 then (k, v) :: p :: t
    else if p.1 < k then p :: insertList k v t
    else (k, v) :: t

theorem mem_insertList {k : κ} {v : α} {l : List (κ × α)} {p : κ × α}
    (h : p ∈ insertList k v l) : p = (k, v) ∨ p ∈ l := by
  induction l with
  | nil => simpa [insertList] using h
  | cons q t ih =>
    simp only [insertList] at h
    split at h
    · simpa using h
    · split at h
      · rcases List.mem_cons.mp h with h | h
        · exact Or.inr (by simp [h])
        · rcases ih h with h | h
          · exact Or.inl h
          · exact Or.inr (List.mem_cons_of_mem _ h)
      · rcases List.mem_cons.mp h with h | h
        · exact Or.inl h
        · exact Or.inr (List.mem_cons_of_mem _ h)

theorem pairwise_insertList {k : κ} {v : α} {l : List (κ × α)}
    (hl : l.Pairwise (fun p q => p.1 < q.1)) :
    (insertList k v l).Pairwise (fun p q => p.1 < q.1) := by
  induction l with
  | nil => exact List.pairwise_singleton _ _
  | cons q t ih =>
    have hq := List.pairwise_cons.mp hl
    simp only [insertList]
    split
    · rename_i hlt
      refine List.pairwise_cons.mpr ⟨?_, hl⟩
      intro p hp
      rcases List.mem_cons.mp hp with rfl | hp
      · exact hlt
      · exact hlt.trans (hq.1 p hp)
    · split
      · rename_i hgt
        refine List.pairwise_cons.mpr ⟨?_, ih hq.2⟩
        intro p hp
        rcases mem_insertList hp with rfl | hp
        · exact hgt
        · exact hq.1 p hp
      · -- the key of `q` is `k`: the rest stays above it
        rename_i hge hle
        have hk : q.1 = k := le_antisymm (not_lt.mp hge) (not_lt.mp hle)
        refine List.pairwise_cons.mpr ⟨?_, hq.2⟩
        intro p hp
        have := hq.1 p hp
        rw [hk] at this
        exact this

def insert (m : OrdMap κ α) (k : κ) (v : α) : OrdMap κ α :=
  ⟨insertList k v m.entries, pairwise_insertList m.sorted⟩

theorem mem_insertList_self (k : κ) (v : α) (l : List (κ × α)) : (k, v) ∈ insertList k v l := by
  induction l with
  | nil => simp [insertList]
  | cons q t ih =>
    simp only [insertList]
    split
    · simp
    · split
      · exact List.mem_cons_of_mem _ ih
      · simp

theorem mem_insertList_of_ne {k : κ} {v : α} {l : List (κ × α)} {p : κ × α}
    (hp : p ∈ l) (hne : p.1 ≠ k) : p ∈ insertList k v l := by
  induction l with
  | nil => cases hp
  | cons q t ih =>
    simp only [insertList]
    split
    · exact List.mem_cons_of_mem _ hp
    · split
      · rcases List.mem_cons.mp hp with rfl | hp
        · simp
        · exact List.mem_cons_of_mem _ (ih hp)
      · rename_i hge hle
        rcases List.mem_cons.mp hp with rfl | hp
        · exact absurd (le_antisymm (not_lt.mp hge) (not_lt.mp hle)) hne
        · exact List.mem_cons_of_mem _ hp

theorem mem_insert {m : OrdMap κ α} {k : κ} {v : α} {p : κ × α} :
    p ∈ m.insert k v ↔ p = (k, v) ∨ (p ∈ m ∧ p.1 ≠ k) := by
  have hself : (k, v) ∈ m.insert k v := mem_insertList_self k v m.entries
  constructor
  · intro h
    rcases mem_insertList h with hp | hp
    · exact Or.inl hp
    · by_cases hk : p.1 = k
      · subst hk
        have h' : (p.1, p.2) ∈ m.insert p.1 v := h
        exact Or.inl (Prod.ext rfl (value_unique h' hself))
      · exact Or.inr ⟨hp, hk⟩
  · rintro (rfl | ⟨hp, hk⟩)
    · exact hself
    · exact mem_insertList_of_ne hp hk

/-! ## The ends of the map -/

def first? (m : OrdMap κ α) : Option (κ × α) := m.entries.head?

def last? (m : OrdMap κ α) : Option (κ × α) := m.entries.getLast?

def popFirst (m : OrdMap κ α) : OrdMap κ α := ⟨m.entries.tail, m.sorted.tail⟩

def popLast (m : OrdMap κ α) : OrdMap κ α :=
  ⟨m.entries.dropLast, m.sorted.sublist (List.dropLast_sublist _)⟩

theorem mem_popFirst {m : OrdMap κ α} {f p : κ × α} (hf : m.first? = some f) :
    p ∈ m.popFirst ↔ p ∈ m ∧ f.1 < p.1 := by
  obtain ⟨l, hl⟩ := m
  cases l with
  | nil => simp [first?] at hf
  | cons q t =>
    simp only [first?, List.head?_cons, Option.some.injEq] at hf
    subst hf
    have hq := List.pairwise_cons.mp hl
    simp only [mem_def, popFirst, List.tail_cons, List.mem_cons]
    constructor
    · intro h
      exact ⟨Or.inr h, hq.1 p h⟩
    · rintro ⟨rfl | h, hlt⟩
      · exact absurd hlt (lt_irrefl _)
      · exact h

theorem mem_popLast {m : OrdMap κ α} {z p : κ × α} (hz : m.last? = some z) :
    p ∈ m.popLast ↔ p ∈ m ∧ p.1 < z.1 := by
  obtain ⟨l, hl⟩ := m
  simp only [last?] at hz
  obtain ⟨t, rfl⟩ := List.getLast?_eq_some_iff.mp hz
  have hq := List.pairwise_append.mp hl
  simp only [mem_def, popLast, List.dropLast_concat, List.mem_append, List.mem_singleton]
  constructor
  · intro h
    exact ⟨Or.inl h, hq.2.2 p h z (by simp)⟩
  · rintro ⟨h | rfl, hlt⟩
    · exact h
    · exact absurd hlt (lt_irrefl _)

theorem entries_popLast {m : OrdMap κ α} {z : κ × α} (hz : m.last? = some z) :
    m.entries = m.popLast.entries ++ [z] := by
  obtain ⟨l, hl⟩ := m
  obtain ⟨t, rfl⟩ := List.getLast?_eq_some_iff.mp hz
  simp only [popLast, List.dropLast_concat]

theorem first?_eq_none {m : OrdMap κ α} : m.first? = none ↔ m.entries = [] :=
  List.head?_eq_none_iff

/-- The first entry has the least key. -/
theorem first?_le {m : OrdMap κ α} {f p : κ × α} (hf : m.first? = some f) (hp : p ∈ m) :
    f.1 ≤ p.1 := by
  obtain ⟨l, hl⟩ := m
  cases l with
  | nil => simp [first?] at hf
  | cons q t =>
    simp only [first?, List.head?_cons, Option.some.injEq] at hf
    subst hf
    rcases List.mem_cons.mp hp with rfl | h
    · exact le_refl _
    · exact ((List.pairwise_cons.mp hl).1 p h).le

/-- The last entry has the greatest key. -/
theorem le_last? {m : OrdMap κ α} {z p : κ × α} (hz : m.last? = some z) (hp : p ∈ m) :
    p.1 ≤ z.1 := by
  obtain ⟨l, hl⟩ := m
  simp only [last?] at hz
  obtain ⟨t, rfl⟩ := List.getLast?_eq_some_iff.mp hz
  have hq := List.pairwise_append.mp hl
  rcases List.mem_append.mp (mem_def.mp hp) with h | h
  · exact (hq.2.2 p h z (by simp)).le
  · rw [List.mem_singleton.mp h]

/-! ## Iteration from a key on -/

/-- The entries with keys from `lo` on, in order. -/
def rangeFrom (m : OrdMap κ α) (lo : κ) : List (κ × α) :=
  m.entries.filter (fun p => decide (lo ≤ p.1))

theorem rangeFrom_eq_entries {m : OrdMap κ α} {lo : κ} (h : ∀ p ∈ m, lo ≤ p.1) :
    m.rangeFrom lo = m.entries := by
  apply List.filter_eq_self.mpr
  intro p hp
  exact decide_eq_true (h p hp)

/-- Removing the first key leaves the rest of the list. -/
theorem entries_erase_first {m : OrdMap κ α} {k : κ} {v : α} {t : List (κ × α)}
    (h : m.entries = (k, v) :: t) : (m.erase k).entries = t := by
  have hsorted := m.sorted
  rw [h, List.pairwise_cons] at hsorted
  simp only [erase, h, List.filter_cons, ne_eq, not_true_eq_false, decide_false, Bool.false_eq_true,
    if_false]
  apply List.filter_eq_self.mpr
  intro p hp
  exact decide_eq_true (ne_of_gt (hsorted.1 p hp))

/-! ## Sums over the values -/

/-- The values of a map, measured and added up. -/
def weight (f : α → Nat) (m : OrdMap κ α) : Nat := (m.entries.map fun p => f p.2).sum

theorem nodup_entries (m : OrdMap κ α) : m.entries.Nodup :=
  m.sorted.imp fun h heq => absurd (heq ▸ h) (lt_irrefl _)

/-- An inserted map has the new pair and what the key did not already name. -/
theorem entries_insert_perm (m : OrdMap κ α) (k : κ) (v : α) :
    (m.insert k v).entries.Perm ((k, v) :: (m.erase k).entries) := by
  have hnew : (k, v) ∉ (m.erase k).entries := fun h => (mem_erase.mp h).2 rfl
  apply (List.perm_ext_iff_of_nodup (nodup_entries _) (List.nodup_cons.mpr ⟨hnew, nodup_entries _⟩)).mpr
  intro p
  rw [List.mem_cons, ← mem_def, ← mem_def, mem_insert, mem_erase]

theorem entries_erase_perm {m : OrdMap κ α} {k : κ} {v : α} (h : (k, v) ∈ m) :
    m.entries.Perm ((k, v) :: (m.erase k).entries) := by
  have hnew : (k, v) ∉ (m.erase k).entries := fun h => (mem_erase.mp h).2 rfl
  apply (List.perm_ext_iff_of_nodup (nodup_entries _) (List.nodup_cons.mpr ⟨hnew, nodup_entries _⟩)).mpr
  intro p
  rw [List.mem_cons, ← mem_def, ← mem_def, mem_erase]
  constructor
  · intro hp
    by_cases hk : p.1 = k
    · subst hk
      exact Or.inl (Prod.ext rfl (value_unique hp h))
    · exact Or.inr ⟨hp, hk⟩
  · rintro (rfl | hp)
    · exact h
    · exact hp.1

variable {f : α → Nat}

theorem weight_insert (m : OrdMap κ α) (k : κ) (v : α) : (m.insert k v).weight f = f v + (m.erase k).weight f :=
  ((entries_insert_perm m k v).map _).sum_nat

theorem weight_of_mem {m : OrdMap κ α} {k : κ} {v : α} (h : (k, v) ∈ m) : m.weight f = f v + (m.erase k).weight f :=
  ((entries_erase_perm h).map _).sum_nat

theorem erase_eq_self {m : OrdMap κ α} {k : κ} (h : m.get? k = none) : m.erase k = m := by
  have hkeep : m.entries.filter (fun p => decide (p.1 ≠ k)) = m.entries := by
    apply List.filter_eq_self.mpr
    intro p hp
    refine decide_eq_true ?_
    rintro rfl
    have hget : m.get? p.1 = some p.2 := get?_eq_some.mpr hp
    rw [h] at hget
    cases hget
  obtain ⟨l, hl⟩ := m
  simp only [erase] at hkeep ⊢
  congr

theorem weight_popFirst {m : OrdMap κ α} {k : κ} {v : α} (h : m.first? = some (k, v)) :
    m.weight f = f v + m.popFirst.weight f := by
  obtain ⟨l, hl⟩ := m
  cases l with
  | nil => cases h
  | cons p t =>
    cases h
    exact List.sum_cons

theorem weight_popLast {m : OrdMap κ α} {k : κ} {v : α} (h : m.last? = some (k, v)) :
    m.weight f = f v + m.popLast.weight f := by
  rw [weight, entries_popLast h, List.map_append, List.sum_append, Nat.add_comm]
  rfl

/-- Fewer entries weigh less. -/
theorem weight_mono {m m' : OrdMap κ α} (h : m.entries.Sublist m'.entries) : m.weight f ≤ m'.weight f :=
  (h.map _).sum_le_sum fun _ _ => Nat.zero_le _

end OrdMap
