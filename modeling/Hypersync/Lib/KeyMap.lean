import Mathlib.Data.List.AList

/-!
# Hash maps as association lists

A map is Mathlib's `AList` with a constant value type; the order of its entries
stands for the iteration order of the hash map.  Added here is the update of
every value in place (`iter_mut`), of which the update of one value (`get_mut`)
is a case; both keep the keys and their order.
-/

abbrev KeyMap (κ : Type) (α : Type) := AList (fun _ : κ => α)

namespace KeyMap

variable {κ α : Type}

theorem keys_map (f : κ → α → α) (l : List (Sigma fun _ : κ => α)) :
    (l.map fun e => (⟨e.1, f e.1 e.2⟩ : Sigma fun _ : κ => α)).keys = l.keys := by
  unfold List.keys
  rw [List.map_map]
  rfl

/-- Update every value in place. -/
def mapVals (f : κ → α → α) (m : KeyMap κ α) : KeyMap κ α where
  entries := m.entries.map fun e => ⟨e.1, f e.1 e.2⟩
  nodupKeys := by
    unfold List.NodupKeys
    rw [keys_map]
    exact m.nodupKeys

/-- Keep the entries that pass a test. -/
def retain (p : κ → α → Bool) (m : KeyMap κ α) : KeyMap κ α where
  entries := m.entries.filter fun e => p e.1 e.2
  nodupKeys := m.nodupKeys.sublist List.filter_sublist

/-- The entries in iteration order. -/
def toList (m : KeyMap κ α) : List (κ × α) := m.entries.map fun e => (e.1, e.2)

/-- The values in iteration order. -/
def values (m : KeyMap κ α) : List α := m.entries.map Sigma.snd

@[simp] theorem keys_mapVals (f : κ → α → α) (m : KeyMap κ α) : (mapVals f m).keys = m.keys :=
  keys_map f m.entries

theorem map_fst_toList (m : KeyMap κ α) : (toList m).map Prod.fst = m.keys := by
  rw [toList, List.map_map]
  rfl

variable [DecidableEq κ]

theorem dlookup_map (f : κ → α → α) (k : κ) :
    ∀ l : List (Sigma fun _ : κ => α),
      (l.map fun e => (⟨e.1, f e.1 e.2⟩ : Sigma fun _ : κ => α)).dlookup k = (l.dlookup k).map (f k) := by
  intro l
  induction l with
  | nil => rfl
  | cons e t ih =>
    obtain ⟨k', v⟩ := e
    rw [List.map_cons]
    by_cases h : k = k'
    · subst h
      rw [List.dlookup_cons_eq, List.dlookup_cons_eq]
      rfl
    · rw [List.dlookup_cons_ne _ _ h, List.dlookup_cons_ne _ _ h, ih]

@[simp] theorem lookup_mapVals (f : κ → α → α) (m : KeyMap κ α) (k : κ) :
    (mapVals f m).lookup k = (m.lookup k).map (f k) :=
  dlookup_map f k m.entries

theorem lookup_singleton_inv {k j : κ} {v w : α}
    (h : (AList.singleton k v : KeyMap κ α).lookup j = some w) : j = k ∧ w = v := by
  have hmem : (⟨j, w⟩ : Sigma fun _ : κ => α) ∈ [(⟨k, v⟩ : Sigma fun _ : κ => α)] :=
    List.of_mem_dlookup h
  cases List.mem_singleton.mp hmem
  exact ⟨rfl, rfl⟩

theorem lookup_insert_inv {m : KeyMap κ α} {k j : κ} {v w : α}
    (h : (m.insert k v).lookup j = some w) : (j = k ∧ w = v) ∨ (j ≠ k ∧ m.lookup j = some w) := by
  by_cases hj : j = k
  · subst hj
    rw [AList.lookup_insert, Option.some.injEq] at h
    exact Or.inl ⟨rfl, h.symm⟩
  · rw [AList.lookup_insert_ne hj] at h
    exact Or.inr ⟨hj, h⟩

theorem lookup_erase_inv {m : KeyMap κ α} {k j : κ} {w : α}
    (h : (m.erase k).lookup j = some w) : j ≠ k ∧ m.lookup j = some w := by
  by_cases hj : j = k
  · subst hj
    rw [AList.lookup_erase] at h
    cases h
  · rw [AList.lookup_erase_ne hj] at h
    exact ⟨hj, h⟩

/-- Update the value of one key, if it is there. -/
def modify (k : κ) (f : α → α) (m : KeyMap κ α) : KeyMap κ α :=
  mapVals (fun k' v => if k' = k then f v else v) m

@[simp] theorem lookup_modify_self (k : κ) (f : α → α) (m : KeyMap κ α) :
    (modify k f m).lookup k = (m.lookup k).map f := by
  simp only [modify, lookup_mapVals, if_true]

theorem lookup_modify_ne {k k' : κ} (h : k' ≠ k) (f : α → α) (m : KeyMap κ α) :
    (modify k f m).lookup k' = m.lookup k' := by
  simp only [modify, lookup_mapVals, if_neg h, Option.map_id']

theorem lookup_modify_inv {k j : κ} {f : α → α} {m : KeyMap κ α} {w : α} (h : (modify k f m).lookup j = some w) :
    ∃ v, m.lookup j = some v ∧ w = if j = k then f v else v := by
  rw [modify, lookup_mapVals, Option.map_eq_some_iff] at h
  obtain ⟨v, hv, rfl⟩ := h
  exact ⟨v, hv, rfl⟩

@[simp] theorem keys_modify (k : κ) (f : α → α) (m : KeyMap κ α) : (modify k f m).keys = m.keys :=
  keys_mapVals _ m

theorem mem_modify {k k' : κ} {f : α → α} {m : KeyMap κ α} : k' ∈ modify k f m ↔ k' ∈ m := by
  rw [AList.mem_keys, keys_modify, ← AList.mem_keys]

theorem lookup_eq_some {m : KeyMap κ α} {k : κ} {v : α} :
    m.lookup k = some v ↔ (⟨k, v⟩ : Sigma fun _ : κ => α) ∈ m.entries :=
  AList.mem_lookup_iff

/-- Writing back the value that is there changes nothing. -/
theorem modify_eq_self {m : KeyMap κ α} {k : κ} {v : α} (h : m.lookup k = some v) : modify k (fun _ => v) m = m := by
  apply AList.ext
  simp only [modify, mapVals]
  conv_rhs => rw [← List.map_id m.entries]
  apply List.map_congr_left
  rintro ⟨j, w⟩ he
  by_cases hj : j = k
  · subst hj
    rw [lookup_eq_some.mpr he, Option.some.injEq] at h
    simp [h]
  · simp [hj]

theorem mem_toList {m : KeyMap κ α} {k : κ} {v : α} : (k, v) ∈ toList m ↔ m.lookup k = some v := by
  rw [toList, List.mem_map, lookup_eq_some]
  constructor
  · rintro ⟨e, he, heq⟩
    obtain ⟨rfl, rfl⟩ := Prod.mk.inj heq
    exact he
  · intro he
    exact ⟨⟨k, v⟩, he, rfl⟩

theorem mem_values {m : KeyMap κ α} {v : α} : v ∈ values m ↔ ∃ k, m.lookup k = some v := by
  rw [values, List.mem_map]
  constructor
  · rintro ⟨e, he, rfl⟩
    exact ⟨e.1, lookup_eq_some.mpr he⟩
  · rintro ⟨k, hk⟩
    exact ⟨⟨k, v⟩, lookup_eq_some.mp hk, rfl⟩

theorem lookup_retain (p : κ → α → Bool) (m : KeyMap κ α) (k : κ) :
    (retain p m).lookup k = (m.lookup k).filter (p k) := by
  ext v
  rw [lookup_eq_some, retain, List.mem_filter, ← lookup_eq_some, Option.filter_eq_some_iff]

/-- Remove the keys of a list, one after the other. -/
def eraseAll (ks : List κ) (m : KeyMap κ α) : KeyMap κ α := ks.foldl (fun m k => m.erase k) m

theorem lookup_eraseAll (ks : List κ) (m : KeyMap κ α) (k : κ) :
    (eraseAll ks m).lookup k = if k ∈ ks then none else m.lookup k := by
  induction ks generalizing m with
  | nil => rfl
  | cons j ks ih =>
    rw [eraseAll, List.foldl_cons, ← eraseAll, ih]
    by_cases hj : k = j
    · subst hj
      rw [AList.lookup_erase, if_pos List.mem_cons_self, ite_self]
    · rw [AList.lookup_erase_ne hj]
      simp only [List.mem_cons, hj, false_or]

theorem length_keys_eraseAll {ks : List κ} {m : KeyMap κ α} (hdistinct : ks.Nodup) (hmem : ∀ k ∈ ks, k ∈ m) :
    (eraseAll ks m).keys.length + ks.length = m.keys.length := by
  induction ks generalizing m with
  | nil => rfl
  | cons j ks ih =>
    obtain ⟨hnew, hdistinct⟩ := List.nodup_cons.mp hdistinct
    have hrest : ∀ k ∈ ks, k ∈ m.erase j := by
      intro k hk
      refine AList.mem_erase.mpr ⟨?_, hmem k (List.mem_cons_of_mem _ hk)⟩
      rintro rfl
      exact hnew hk
    have hj := AList.mem_keys.mp (hmem j List.mem_cons_self)
    have hlength := List.length_erase_add_one hj
    rw [eraseAll, List.foldl_cons, ← eraseAll, List.length_cons, ← Nat.add_assoc, ih hdistinct hrest, AList.keys_erase]
    exact hlength

/-- Of two values that pass a test, one belongs to a key other than `k`. -/
theorem exists_ne_of_two_le {m : KeyMap κ α} {q : α → Bool} (h : 2 ≤ (values m).countP q) (k : κ) :
    ∃ j v, j ≠ k ∧ m.lookup j = some v ∧ q v = true := by
  by_contra hnone
  have hkey : m.entries.countP (q ∘ Sigma.snd) ≤ m.entries.countP fun e => e.1 == k := by
    apply List.countP_mono_left
    intro e he hq
    rw [beq_iff_eq]
    by_contra hne
    exact hnone ⟨e.1, e.2, hne, lookup_eq_some.mpr he, hq⟩
  have hone : m.keys.count k ≤ 1 := List.nodup_iff_count_le_one.mp m.keys_nodup k
  have hcount : m.keys.count k = m.entries.countP fun e => e.1 == k := by
    rw [AList.keys, List.keys, List.count, List.countP_map]
    rfl
  rw [values, List.countP_map] at h
  omega

theorem two_le_countP_values {m : KeyMap κ α} {q : α → Bool} {j k : κ} {v w : α} (hne : j ≠ k)
    (hj : m.lookup j = some v) (hk : m.lookup k = some w) (hv : q v = true) (hw : q w = true) :
    2 ≤ (values m).countP q := by
  have hnodup : [(⟨j, v⟩ : Sigma fun _ : κ => α), ⟨k, w⟩].Nodup := by
    rw [List.nodup_cons, List.mem_singleton]
    refine ⟨?_, List.nodup_singleton _⟩
    intro heq
    exact hne (congrArg Sigma.fst heq)
  have hsub : [(⟨j, v⟩ : Sigma fun _ : κ => α), ⟨k, w⟩] ⊆ m.entries := by
    intro e he
    rcases List.mem_cons.mp he with rfl | he
    · exact lookup_eq_some.mp hj
    · rw [List.mem_singleton.mp he]
      exact lookup_eq_some.mp hk
  have hle := (List.subperm_of_subset hnodup hsub).countP_le (q ∘ Sigma.snd)
  rw [values, List.countP_map]
  simpa [hv, hw] using hle

end KeyMap
