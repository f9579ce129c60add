import Hypersync.Gateway.NodeRegistry

/-!
# What the registry of node states keeps

While a connection of a node is open its address leads to the state the connection
holds, whatever drops fall into a scan: only the calls under the lock open
connections, so what a scan found idle stays idle until it is evicted.  Which idle
nodes go is settled by the readings, and these are the states of the nodes when no
drop falls into the scan.
-/

namespace Hypersync.Gateway

/-! ## 1. The keys to evict -/

section Eviction

variable {κ : Type} {entries : List (κ × Nat × Bool)} {now cap ttl : Nat}

theorem mem_staleKeys {ip : κ} :
    ip ∈ staleKeys entries now ttl ↔ ∃ seen, (ip, seen, false) ∈ entries ∧ ttl < now - seen := by
  unfold staleKeys
  simp only [List.mem_map, List.mem_filter, Bool.and_eq_true, Bool.not_eq_true', decide_eq_true_eq]
  constructor
  · rintro ⟨⟨x, seen, held⟩, ⟨hmem, hheld, hidle⟩, rfl⟩
    obtain rfl : held = false := hheld
    exact ⟨seen, hmem, hidle⟩
  · rintro ⟨seen, hmem, hidle⟩
    exact ⟨(ip, seen, false), ⟨hmem, rfl, hidle⟩, rfl⟩

theorem mem_evictable {p : κ × Nat} :
    p ∈ evictable entries now ttl ↔ (p.1, p.2, false) ∈ entries ∧ now - p.2 ≤ ttl := by
  unfold evictable
  simp only [List.mem_map, List.mem_filter, Bool.and_eq_true, Bool.not_eq_true', decide_eq_true_eq]
  constructor
  · rintro ⟨⟨x, seen, held⟩, ⟨hmem, hheld, hidle⟩, rfl⟩
    obtain rfl : held = false := hheld
    exact ⟨hmem, hidle⟩
  · rintro ⟨hmem, hidle⟩
    exact ⟨(p.1, p.2, false), ⟨hmem, rfl, hidle⟩, rfl⟩

/-- Every entry is stale, evictable or held. -/
theorem length_eq_stale_add_evictable_add_held (entries : List (κ × Nat × Bool)) (now ttl : Nat) :
    entries.length = (staleKeys entries now ttl).length + (evictable entries now ttl).length +
      entries.countP fun e => e.2.2 := by
  unfold staleKeys evictable
  rw [List.length_map, List.length_map]
  induction entries with
  | nil => rfl
  | cons e entries ih =>
    obtain ⟨ip, seen, held⟩ := e
    rw [List.length_cons, ih, List.filter_cons, List.filter_cons, List.countP_cons]
    cases held with
    | true =>
      simp only [Bool.not_true, Bool.false_and, Bool.false_eq_true, if_false, if_true]
      omega
    | false =>
      by_cases hidle : ttl < now - seen
      · simp only [hidle, not_le.mpr hidle, decide_true, decide_false, Bool.not_false, Bool.true_and, if_true, if_false,
          Bool.false_eq_true, List.length_cons]
        omega
      · simp only [hidle, not_lt.mp hidle, decide_true, decide_false, Bool.not_false, Bool.true_and, if_true, if_false,
          Bool.false_eq_true, List.length_cons]
        omega

/-- An address has one entry. -/
theorem entry_unique (hdistinct : (entries.map Prod.fst).Nodup) {ip : κ} {x y : Nat × Bool} (hx : (ip, x) ∈ entries)
    (hy : (ip, y) ∈ entries) : x = y :=
  (Prod.mk.inj (List.inj_on_of_nodup_map hdistinct hx hy rfl)).2

theorem not_mem_staleKeys_of_evictable (hdistinct : (entries.map Prod.fst).Nodup) {p : κ × Nat}
    (hp : p ∈ evictable entries now ttl) : p.1 ∉ staleKeys entries now ttl := by
  intro hstale
  obtain ⟨seen, hmem, hidle⟩ := mem_staleKeys.mp hstale
  obtain ⟨hmem', hfresh⟩ := mem_evictable.mp hp
  obtain ⟨rfl, -⟩ := Prod.mk.inj (entry_unique hdistinct hmem hmem')
  exact absurd hfresh (not_le.mpr hidle)

variable [LinearOrder κ]

instance seenLe_total : Std.Total (@SeenLe κ _) where
  total a b := by
    unfold SeenLe
    rcases lt_trichotomy a.2 b.2 with h | h | h
    · exact Or.inl (Or.inl h)
    · rcases le_total a.1 b.1 with hle | hle
      · exact Or.inl (Or.inr ⟨h, hle⟩)
      · exact Or.inr (Or.inr ⟨h.symm, hle⟩)
    · exact Or.inr (Or.inl h)

instance seenLe_trans : IsTrans (κ × Nat) SeenLe where
  trans a b c hab hbc := by
    unfold SeenLe at *
    rcases hab with hab | ⟨hab, hle⟩
    · rcases hbc with hbc | ⟨hbc, -⟩
      · exact Or.inl (hab.trans hbc)
      · exact Or.inl (hbc ▸ hab)
    · rcases hbc with hbc | ⟨hbc, hle'⟩
      · exact Or.inl (hab ▸ hbc)
      · exact Or.inr ⟨hab.trans hbc, hle.trans hle'⟩

/-- The evictable entries that go: the excess, the ones seen longest ago first. -/
def oldest (entries : List (κ × Nat × Bool)) (now cap ttl : Nat) : List (κ × Nat) :=
  ((evictable entries now ttl).insertionSort SeenLe).take
    (min (entries.length - (staleKeys entries now ttl).length + 1 - cap) (evictable entries now ttl).length)

theorem nodeStateEvictKeys_eq : nodeStateEvictKeys entries now cap ttl =
    staleKeys entries now ttl ++ (oldest entries now cap ttl).map Prod.fst := by
  unfold nodeStateEvictKeys oldest
  simp only
  split
  · rfl
  · rename_i hroom
    rw [Nat.sub_eq_zero_of_le (not_lt.mp hroom), Nat.zero_min, List.take_zero, List.map_nil, List.append_nil]

theorem length_oldest : (oldest entries now cap ttl).length =
    min (entries.length - (staleKeys entries now ttl).length + 1 - cap) (evictable entries now ttl).length := by
  rw [oldest, List.length_take, List.length_insertionSort]
  exact min_eq_left (min_le_right _ _)

theorem mem_evictable_of_oldest {p : κ × Nat} (h : p ∈ oldest entries now cap ttl) : p ∈ evictable entries now ttl :=
  (List.mem_insertionSort SeenLe).mp (List.mem_of_mem_take h)

/-- What goes was seen before what stays. -/
theorem seenLe_of_oldest {a b : κ × Nat} (ha : a ∈ oldest entries now cap ttl) (hb : b ∈ evictable entries now ttl)
    (hstays : b ∉ oldest entries now cap ttl) : SeenLe a b := by
  have hsorted := List.pairwise_insertionSort SeenLe (evictable entries now ttl)
  unfold oldest at ha hstays
  generalize (min _ _ : Nat) = n at ha hstays
  rw [← List.take_append_drop n ((evictable entries now ttl).insertionSort SeenLe), List.pairwise_append] at hsorted
  have hmem := (List.mem_insertionSort SeenLe).mpr hb
  rw [← List.take_append_drop n ((evictable entries now ttl).insertionSort SeenLe), List.mem_append] at hmem
  exact hsorted.2.2 a ha b (hmem.resolve_left hstays)

theorem nodup_nodeStateEvictKeys (hdistinct : (entries.map Prod.fst).Nodup) :
    (nodeStateEvictKeys entries now cap ttl).Nodup := by
  rw [nodeStateEvictKeys_eq, List.nodup_append]
  refine ⟨?_, ?_, ?_⟩
  · exact hdistinct.sublist (List.filter_sublist.map Prod.fst)
  · have hevictable : ((evictable entries now ttl).map Prod.fst).Nodup := by
      rw [evictable, List.map_map]
      exact hdistinct.sublist (List.filter_sublist.map Prod.fst)
    have hsorted := ((List.perm_insertionSort SeenLe (evictable entries now ttl)).map Prod.fst).nodup_iff.mpr hevictable
    exact hsorted.sublist ((List.take_sublist _ _).map Prod.fst)
  · rintro ip hstale x hx rfl
    obtain ⟨p, hp, rfl⟩ := List.mem_map.mp hx
    exact not_mem_staleKeys_of_evictable hdistinct (mem_evictable_of_oldest hp) hstale

/-- Only entries without an open connection go. -/
theorem exists_entry_of_evicted {ip : κ} (h : ip ∈ nodeStateEvictKeys entries now cap ttl) :
    ∃ seen, (ip, seen, false) ∈ entries := by
  rw [nodeStateEvictKeys_eq, List.mem_append] at h
  rcases h with h | h
  · obtain ⟨seen, hmem, -⟩ := mem_staleKeys.mp h
    exact ⟨seen, hmem⟩
  · obtain ⟨p, hp, rfl⟩ := List.mem_map.mp h
    exact ⟨p.2, (mem_evictable.mp (mem_evictable_of_oldest hp)).1⟩

theorem mem_oldest_of_evicted (hdistinct : (entries.map Prod.fst).Nodup) {p : κ × Nat}
    (hp : p ∈ evictable entries now ttl) (h : p.1 ∈ nodeStateEvictKeys entries now cap ttl) :
    p ∈ oldest entries now cap ttl := by
  rw [nodeStateEvictKeys_eq, List.mem_append] at h
  obtain ⟨q, hq, heq⟩ := List.mem_map.mp (h.resolve_left (not_mem_staleKeys_of_evictable hdistinct hp))
  have hq' := (mem_evictable.mp (mem_evictable_of_oldest hq)).1
  rw [heq] at hq'
  obtain ⟨hseen, -⟩ := Prod.mk.inj (entry_unique hdistinct hq' (mem_evictable.mp hp).1)
  rwa [← Prod.ext heq hseen]

/-- How many entries there are with the new one: no more than the cap, unless the held ones
    alone are more; and no fewer than the cap when an entry went that was not stale. -/
theorem length_left (entries : List (κ × Nat × Bool)) (now cap ttl : Nat) :
    entries.length - (nodeStateEvictKeys entries now cap ttl).length + 1 ≤
      max cap (1 + entries.countP fun e => e.2.2) ∧
    (oldest entries now cap ttl ≠ [] →
      cap ≤ entries.length - (nodeStateEvictKeys entries now cap ttl).length + 1) := by
  have hparts := length_eq_stale_add_evictable_add_held entries now ttl
  have hgone : (oldest entries now cap ttl).length = _ := length_oldest
  rw [nodeStateEvictKeys_eq, List.length_append, List.length_map]
  constructor
  · omega
  · intro hne
    have hpos := List.length_pos_iff.mpr hne
    omega

end Eviction

namespace NodeRegistry

variable {κ : Type} [LinearOrder κ] {r r' : NodeRegistry κ}

/-! ## 2. Guards and scans -/

/-- A scan under way: what was found idle is idle, and in a calm scan every reading is the
    state of the node. -/
structure ScanInv (r : NodeRegistry κ) (sc : Scan κ) : Prop where
  new : r.nodes.lookup sc.ip = none
  order : (sc.read.map (fun x => (x.ip, x.node)) ++ sc.todo).Perm (KeyMap.toList r.nodes)
  idle : ∀ x ∈ sc.read, x.held = false → ¬ r.IsOpen x.node
  calm : sc.calm = true → ∀ x ∈ sc.read, x.seen = r.lastSeen x.node ∧ x.held = r.held x.node
  calm_seen : sc.calm = true → ∀ seen, sc.seen = some seen → ∀ e ∈ sc.todo.head?, seen = r.lastSeen e.2

/-- Every guard is counted by a state that its address leads to. -/
structure Inv (r : NodeRegistry κ) : Prop where
  counted : ∀ id st, r.states.lookup id = some st → st.openConns = r.guards.countP fun g => g.node = id
  below : ∀ id st, r.states.lookup id = some st → id < r.nextNode
  named : ∀ ip id, r.nodes.lookup ip = some id → ∃ st, r.states.lookup id = some st ∧ st.ip = ip
  guarded : ∀ g ∈ r.guards, ∃ st, r.states.lookup g.node = some st ∧ r.nodes.lookup st.ip = some g.node
  scanning : ∀ sc, r.scan = some sc → r.ScanInv sc

theorem Inv.held_iff (h : r.Inv) {id : Nat} {st : NodeState κ} (hst : r.states.lookup id = some st) :
    r.held id = true ↔ r.IsOpen id := by
  rw [held, hst, Option.map_some, Option.getD_some, h.counted id st hst, decide_eq_true_eq, List.countP_pos_iff]
  simp only [IsOpen, decide_eq_true_eq]

theorem inv_empty : Inv ({} : NodeRegistry κ) := by
  refine ⟨?_, ?_, ?_, nofun, nofun⟩
  · intro id st h
    cases h
  · intro id st h
    cases h
  · intro ip id h
    cases h

/-- A state is updated in place and the guards change with it. -/
theorem Inv.update (h : r.Inv) {id : Nat} {f : NodeState κ → NodeState κ} {guards : List NodeConnGuard}
    {scan : Option (Scan κ)} (hip : ∀ st, (f st).ip = st.ip)
    (hcount : ∀ j st, r.states.lookup j = some st →
      (if j = id then f st else st).openConns = guards.countP fun g => g.node = j)
    (hguards : ∀ g ∈ guards, ∃ ip, r.nodes.lookup ip = some g.node)
    (hscan : ∀ sc, scan = some sc →
      ScanInv { r with states := KeyMap.modify id f r.states, guards := guards, scan := scan } sc) :
    Inv { r with states := KeyMap.modify id f r.states, guards := guards, scan := scan } := by
  have hnamed : ∀ ip j, r.nodes.lookup ip = some j →
      ∃ st, (KeyMap.modify id f r.states).lookup j = some st ∧ st.ip = ip := by
    intro ip j hj
    obtain ⟨st, hst, rfl⟩ := h.named ip j hj
    refine ⟨if j = id then f st else st, ?_, ?_⟩
    · rw [KeyMap.modify, KeyMap.lookup_mapVals, hst, Option.map_some]
    · split
      · exact hip st
      · rfl
  refine ⟨?_, ?_, hnamed, ?_, hscan⟩
  · intro j st hst
    obtain ⟨st', hst', rfl⟩ := KeyMap.lookup_modify_inv hst
    exact hcount j st' hst'
  · intro j st hst
    obtain ⟨st', hst', -⟩ := KeyMap.lookup_modify_inv hst
    exact h.below j st' hst'
  · intro g hg
    obtain ⟨ip, hip⟩ := hguards g hg
    obtain ⟨st, hst, rfl⟩ := hnamed ip g.node hip
    exact ⟨st, hst, hip⟩

theorem Inv.lookup_guard (h : r.Inv) {g : NodeConnGuard} (hg : g ∈ r.guards) :
    ∃ ip, r.nodes.lookup ip = some g.node := by
  obtain ⟨st, -, hip⟩ := h.guarded g hg
  exact ⟨st.ip, hip⟩

theorem Inv.reuse (h : r.Inv) (hfree : r.scan = none) {ip : κ} {id : Nat} (hid : r.nodes.lookup ip = some id)
    (now : Nat) : (r.reuse id now).Inv := by
  refine h.update ?_ ?_ ?_ ?_
  · exact fun _ => rfl
  · intro j st hst
    rw [List.countP_cons, ← h.counted j st hst]
    by_cases hj : j = id
    · simp [hj]
    · simp [hj, Ne.symm hj]
  · intro g hg
    rcases List.mem_cons.mp hg with rfl | hg
    · exact ⟨ip, hid⟩
    · exact h.lookup_guard hg
  · intro sc hsc
    cases hfree.symm.trans hsc

/-- A drop leaves the nodes as they are and opens no connection. -/
theorem ScanInv.disturb {sc : Scan κ} (h : r.ScanInv sc) (hnodes : r'.nodes = r.nodes)
    (hopen : ∀ id, r'.IsOpen id → r.IsOpen id) : r'.ScanInv { sc with calm := false } := by
  refine ⟨?_, ?_, ?_, nofun, nofun⟩
  · rw [hnodes]
    exact h.new
  · rw [hnodes]
    exact h.order
  · intro x hx hheld hx'
    exact h.idle x hx hheld (hopen x.node hx')

theorem Inv.stamp (h : r.Inv) {g : NodeConnGuard} (hg : g ∈ r.guards) (now : Nat) :
    Inv { r with
      states := KeyMap.modify g.node (fun st => { st with lastSeenSecs := now }) r.states
      guards := Bag.replace r.guards g { g with stamped := true }
      scan := r.disturb } := by
  have hold : ∀ x ∈ Bag.replace r.guards g { g with stamped := true }, ∃ y ∈ r.guards, y.node = x.node := by
    intro x hx
    rcases Bag.mem_replace hx with rfl | hx
    · exact ⟨g, hg, rfl⟩
    · exact ⟨x, hx, rfl⟩
  refine h.update ?_ ?_ ?_ ?_
  · exact fun _ => rfl
  · intro j st hst
    have hcount := Bag.countP_replace_add (fun x => decide (x.node = j)) hg { g with stamped := true }
    rw [Nat.add_right_cancel hcount, ← h.counted j st hst]
    split
    · rfl
    · rfl
  · intro x hx
    obtain ⟨y, hy, hnode⟩ := hold x hx
    exact hnode ▸ h.lookup_guard hy
  · intro sc hsc
    obtain ⟨sc', hsc', rfl⟩ := Option.map_eq_some_iff.mp hsc
    refine (h.scanning sc' hsc').disturb ?_ ?_
    · rfl
    · rintro id ⟨x, hx, rfl⟩
      exact hold x hx

theorem Inv.release (h : r.Inv) {g : NodeConnGuard} (hg : g ∈ r.guards) :
    Inv { r with
      states := KeyMap.modify g.node (fun st => { st with openConns := st.openConns - 1 }) r.states
      guards := r.guards.erase g
      scan := r.disturb } := by
  refine h.update ?_ ?_ ?_ ?_
  · exact fun _ => rfl
  · intro j st hst
    have hcount := Bag.countP_erase_add (fun x => decide (x.node = j)) hg
    have hst' := h.counted j st hst
    by_cases hj : j = g.node
    · rw [if_pos hj]
      change st.openConns - 1 = _
      rw [if_pos (decide_eq_true hj.symm)] at hcount
      omega
    · rw [if_neg hj]
      rw [if_neg (by simpa using Ne.symm hj)] at hcount
      omega
  · intro x hx
    exact h.lookup_guard (List.mem_of_mem_erase hx)
  · intro sc hsc
    obtain ⟨sc', hsc', rfl⟩ := Option.map_eq_some_iff.mp hsc
    refine (h.scanning sc' hsc').disturb ?_ ?_
    · rfl
    · rintro id ⟨x, hx, rfl⟩
      exact ⟨x, List.mem_of_mem_erase hx, rfl⟩

theorem ScanInv.mem_nodes {sc : Scan κ} (h : r.ScanInv sc) {ip : κ} {id : Nat}
    (hmem : (ip, id) ∈ sc.read.map (fun x => (x.ip, x.node)) ++ sc.todo) : r.nodes.lookup ip = some id :=
  KeyMap.mem_toList.mp (h.order.mem_iff.mp hmem)

/-- The two reads of an entry. -/
theorem Inv.readNext (h : r.Inv) {sc sc' : Scan κ} (hsc : r.scan = some sc) (hread : r.readNext sc = some sc') :
    r.ScanInv sc' := by
  have hscan := h.scanning sc hsc
  unfold NodeRegistry.readNext at hread
  split at hread
  · cases hread
  · rename_i ip id todo htodo hseen
    cases hread
    refine { hscan with calm_seen := ?_ }
    intro _ seen hread e he
    rw [htodo] at he
    cases he
    exact (Option.some.inj hread).symm
  · rename_i ip id todo seen htodo hseen
    cases hread
    have hmem : (ip, id) ∈ sc.read.map (fun x => (x.ip, x.node)) ++ sc.todo := by
      rw [htodo]
      exact List.mem_append_right _ List.mem_cons_self
    obtain ⟨st, hst, -⟩ := h.named ip id (hscan.mem_nodes hmem)
    refine ⟨hscan.new, ?_, ?_, ?_, nofun⟩
    · have horder := hscan.order
      rw [htodo] at horder
      simpa using horder
    · intro x hx hheld
      rcases List.mem_append.mp hx with hx | hx
      · exact hscan.idle x hx hheld
      · obtain rfl := List.mem_singleton.mp hx
        rw [← h.held_iff hst]
        exact Bool.eq_false_iff.mp hheld
    · intro hcalm x hx
      rcases List.mem_append.mp hx with hx | hx
      · exact hscan.calm hcalm x hx
      · obtain rfl := List.mem_singleton.mp hx
        refine ⟨hscan.calm_seen hcalm seen hseen (ip, id) ?_, rfl⟩
        rw [htodo]
        rfl

/-! ## 3. The insertion -/

theorem lookup_insertNew (r : NodeRegistry κ) (sc : Scan κ) (ip : κ) :
    (r.insertNew sc).nodes.lookup ip =
      if ip = sc.ip then some r.nextNode else if ip ∈ evictions sc then none else r.nodes.lookup ip := by
  change ((KeyMap.eraseAll (evictions sc) r.nodes).insert sc.ip r.nextNode).lookup ip = _
  by_cases hip : ip = sc.ip
  · rw [if_pos hip, hip, AList.lookup_insert]
  · rw [if_neg hip, AList.lookup_insert_ne hip, KeyMap.lookup_eraseAll]

/-- What is evicted has been found idle. -/
theorem ScanInv.evicted {sc : Scan κ} (h : r.ScanInv sc) {ip : κ} (hip : ip ∈ evictions sc) :
    ∃ x ∈ sc.read, x.ip = ip ∧ x.held = false ∧ r.nodes.lookup ip = some x.node := by
  obtain ⟨seen, hmem⟩ := exists_entry_of_evicted hip
  obtain ⟨x, hx, heq⟩ := List.mem_map.mp hmem
  obtain ⟨rfl, hrest⟩ := Prod.mk.inj heq
  refine ⟨x, hx, rfl, (Prod.mk.inj hrest).2, ?_⟩
  apply h.mem_nodes
  exact List.mem_append_left _ (List.mem_map.mpr ⟨x, hx, rfl⟩)

/-- No node with an open connection goes. -/
theorem ScanInv.not_evicted {sc : Scan κ} (h : r.ScanInv sc) {ip : κ} {id : Nat} (hid : r.nodes.lookup ip = some id)
    (hopen : r.IsOpen id) : (r.insertNew sc).nodes.lookup ip = some id := by
  have hne : ip ≠ sc.ip := by
    rintro rfl
    cases h.new.symm.trans hid
  have hstays : ip ∉ evictions sc := by
    intro hgone
    obtain ⟨x, hx, -, hheld, hnode⟩ := h.evicted hgone
    cases hid.symm.trans hnode
    exact h.idle x hx hheld hopen
  rw [lookup_insertNew, if_neg hne, if_neg hstays, hid]

theorem Inv.insertNew (h : r.Inv) {sc : Scan κ} (hsc : r.scan = some sc) : (r.insertNew sc).Inv := by
  have hscan := h.scanning sc hsc
  have hfresh : ∀ g ∈ r.guards, g.node ≠ r.nextNode := by
    intro g hg
    obtain ⟨st, hst, -⟩ := h.guarded g hg
    exact Nat.ne_of_lt (h.below g.node st hst)
  have hstates : ∀ j st, (r.insertNew sc).states.lookup j = some st →
      j = r.nextNode ∧ st = ⟨sc.ip, sc.now, 1⟩ ∨ j ≠ r.nextNode ∧ r.states.lookup j = some st :=
    fun j st hst => KeyMap.lookup_insert_inv hst
  have hkept : ∀ j st, r.states.lookup j = some st → (r.insertNew sc).states.lookup j = some st := by
    intro j st hst
    have hne : j ≠ r.nextNode := Nat.ne_of_lt (h.below j st hst)
    exact (AList.lookup_insert_ne hne).trans hst
  refine ⟨?_, ?_, ?_, ?_, nofun⟩
  · intro j st hst
    change _ = List.countP _ (_ :: _)
    rw [List.countP_cons]
    rcases hstates j st hst with ⟨rfl, rfl⟩ | ⟨hne, hst⟩
    · rw [List.countP_eq_zero.mpr fun g hg => by simpa using hfresh g hg]
      simp
    · rw [h.counted j st hst, if_neg (by simpa using Ne.symm hne), Nat.add_zero]
  · intro j st hst
    change j < r.nextNode + 1
    rcases hstates j st hst with ⟨rfl, -⟩ | ⟨-, hst⟩
    · exact Nat.lt_succ_self _
    · exact Nat.lt_succ_of_lt (h.below j st hst)
  · intro ip id hid
    rw [lookup_insertNew] at hid
    split at hid
    · rename_i hip
      cases hid
      exact ⟨_, AList.lookup_insert _, hip.symm⟩
    · split at hid
      · cases hid
      · obtain ⟨st, hst, hip⟩ := h.named ip id hid
        exact ⟨st, hkept id st hst, hip⟩
  · intro g hg
    rcases List.mem_cons.mp hg with rfl | hg
    · refine ⟨_, AList.lookup_insert _, ?_⟩
      rw [lookup_insertNew, if_pos rfl]
    · obtain ⟨st, hst, hip⟩ := h.guarded g hg
      exact ⟨st, hkept g.node st hst, hscan.not_evicted hip ⟨g, hg, rfl⟩⟩

theorem Inv.step (h : r.Inv) {e : RegistryEvent κ} (hstep : r.step e = some r') : r'.Inv := by
  cases e with
  | getOrInsert ip now order =>
    simp only [NodeRegistry.step] at hstep
    split at hstep
    · cases hstep
    · rename_i id hfree hid
      cases hstep
      exact h.reuse hfree hid now
    · rename_i hfree hnew
      split at hstep <;> cases hstep
      rename_i horder
      refine { h with scanning := ?_ }
      intro sc hsc
      cases hsc
      exact ⟨hnew, horder, nofun, fun _ => nofun, fun _ => nofun⟩
  | read =>
    simp only [NodeRegistry.step] at hstep
    split at hstep
    · rename_i sc hsc
      obtain ⟨sc', hread, rfl⟩ := Option.map_eq_some_iff.mp hstep
      refine { h with scanning := ?_ }
      intro sc'' hsc''
      cases hsc''
      have hscan := h.readNext hsc hread
      exact { hscan with }
    · cases hstep
  | insert =>
    simp only [NodeRegistry.step] at hstep
    split at hstep
    · rename_i sc hsc
      split at hstep <;> cases hstep
      exact h.insertNew hsc
    · cases hstep
  | stamp g now =>
    simp only [NodeRegistry.step] at hstep
    split at hstep <;> cases hstep
    rename_i hg
    exact h.stamp hg.1 now
  | release g =>
    simp only [NodeRegistry.step] at hstep
    split at hstep <;> cases hstep
    rename_i hg
    exact h.release hg.1

/-! ## 4. A calm scan -/

/-- How many nodes have an open connection. -/
def openNodes (r : NodeRegistry κ) : Nat := (KeyMap.toList r.nodes).countP fun e => r.guards.any fun g => g.node = e.2

section Calm

variable {sc : Scan κ}

/-- The readings of a whole scan are the entries of the map. -/
theorem ScanInv.read_perm (h : r.ScanInv sc) (hdone : sc.todo = []) :
    (sc.read.map fun x => (x.ip, x.node)).Perm (KeyMap.toList r.nodes) := by
  have horder := h.order
  rwa [hdone, List.append_nil] at horder

theorem ScanInv.entries_distinct (h : r.ScanInv sc) (hdone : sc.todo = []) :
    ((sc.read.map Reading.entry).map Prod.fst).Nodup := by
  have hips := (h.read_perm hdone).map Prod.fst
  rw [KeyMap.map_fst_toList, List.map_map] at hips
  rw [List.map_map]
  exact hips.nodup_iff.mpr r.nodes.keys_nodup

/-- In a calm scan a node without an open connection is read as it is. -/
theorem ScanInv.mem_entries (h : r.ScanInv sc) (hinv : r.Inv) (hdone : sc.todo = []) (hcalm : sc.calm = true) {ip : κ}
    {id : Nat} (hid : r.nodes.lookup ip = some id) (hidle : ¬ r.IsOpen id) :
    (ip, r.lastSeen id, false) ∈ sc.read.map Reading.entry := by
  obtain ⟨x, hx, heq⟩ := List.mem_map.mp ((h.read_perm hdone).mem_iff.mpr (KeyMap.mem_toList.mpr hid))
  obtain ⟨rfl, rfl⟩ := Prod.mk.inj heq
  obtain ⟨st, hst, -⟩ := hinv.named x.ip x.node hid
  obtain ⟨hseen, hheld⟩ := h.calm hcalm x hx
  refine List.mem_map.mpr ⟨x, hx, ?_⟩
  rw [Reading.entry, hseen, hheld]
  rw [← hinv.held_iff hst, Bool.not_eq_true] at hidle
  rw [hidle]

theorem ScanInv.countP_held (h : r.ScanInv sc) (hinv : r.Inv) (hdone : sc.todo = []) (hcalm : sc.calm = true) :
    ((sc.read.map Reading.entry).countP fun e => e.2.2) = r.openNodes := by
  rw [openNodes, ← (h.read_perm hdone).countP_eq, List.countP_map, List.countP_map]
  apply List.countP_congr
  intro x hx
  have hid : r.nodes.lookup x.ip = some x.node :=
    KeyMap.mem_toList.mp ((h.read_perm hdone).mem_iff.mp (List.mem_map.mpr ⟨x, hx, rfl⟩))
  obtain ⟨st, hst, -⟩ := hinv.named x.ip x.node hid
  change x.held = true ↔ (r.guards.any fun g => g.node = x.node) = true
  rw [(h.calm hcalm x hx).2, hinv.held_iff hst, List.any_eq_true]
  simp only [IsOpen, decide_eq_true_eq]

theorem ScanInv.length_insertNew (h : r.ScanInv sc) (hdone : sc.todo = []) :
    (r.insertNew sc).nodes.keys.length = (sc.read.map Reading.entry).length - (evictions sc).length + 1 := by
  have hevicted : ∀ ip ∈ evictions sc, ip ∈ r.nodes := by
    intro ip hip
    obtain ⟨x, -, -, -, hid⟩ := h.evicted hip
    exact AList.lookup_isSome.mp (by rw [hid]; rfl)
  have herased := KeyMap.length_keys_eraseAll (nodup_nodeStateEvictKeys (h.entries_distinct hdone)) hevicted
  have hread := (h.read_perm hdone).length_eq
  have hkeys := congrArg List.length (KeyMap.map_fst_toList r.nodes)
  have hnew : sc.ip ∉ (KeyMap.eraseAll (evictions sc) r.nodes).keys := by
    rw [← AList.mem_keys, ← AList.lookup_isSome, KeyMap.lookup_eraseAll, h.new, ite_self]
    exact Bool.false_ne_true
  change ((KeyMap.eraseAll (evictions sc) r.nodes).insert sc.ip r.nextNode).keys.length = _
  rw [AList.keys_insert, List.length_cons, List.erase_of_not_mem hnew, List.length_map]
  rw [List.length_map] at hread hkeys
  have hsize : (KeyMap.eraseAll (evictions sc) r.nodes).keys.length + (evictions sc).length = r.nodes.keys.length :=
    herased
  omega

theorem ScanInv.lookup_eq_none_iff (h : r.ScanInv sc) {ip : κ} {id : Nat} (hid : r.nodes.lookup ip = some id) :
    (r.insertNew sc).nodes.lookup ip = none ↔ ip ∈ evictions sc := by
  have hne : ip ≠ sc.ip := by
    rintro rfl
    cases h.new.symm.trans hid
  rw [lookup_insertNew, if_neg hne, hid, ite_eq_left_iff]
  simp

/-- A node without an open connection that was seen within the TTL. -/
def Fresh (r : NodeRegistry κ) (now : Nat) (ip : κ) (id : Nat) : Prop :=
  r.nodes.lookup ip = some id ∧ ¬ r.IsOpen id ∧ now - r.lastSeen id ≤ NODE_STATE_TTL_SECS

theorem ScanInv.mem_evictable_of_fresh (h : r.ScanInv sc) (hinv : r.Inv) (hdone : sc.todo = [])
    (hcalm : sc.calm = true) {ip : κ} {id : Nat} (hfresh : r.Fresh sc.now ip id) :
    (ip, r.lastSeen id) ∈ evictable (sc.read.map Reading.entry) sc.now NODE_STATE_TTL_SECS :=
  mem_evictable.mpr ⟨h.mem_entries hinv hdone hcalm hfresh.1 hfresh.2.1, hfresh.2.2⟩

/-- Of two fresh nodes the one that goes was seen before the one that stays. -/
theorem ScanInv.seenLe_of_evicted (h : r.ScanInv sc) (hinv : r.Inv) (hdone : sc.todo = []) (hcalm : sc.calm = true)
    {ip ip' : κ} {id id' : Nat} (hfresh : r.Fresh sc.now ip id) (hgone : ip ∈ evictions sc)
    (hfresh' : r.Fresh sc.now ip' id') (hstays : ip' ∉ evictions sc) : SeenLe (ip, r.lastSeen id) (ip', r.lastSeen id') := by
  have hevictable := h.mem_evictable_of_fresh hinv hdone hcalm hfresh
  apply seenLe_of_oldest (mem_oldest_of_evicted (h.entries_distinct hdone) hevictable hgone)
    (h.mem_evictable_of_fresh hinv hdone hcalm hfresh')
  intro hold
  apply hstays
  rw [evictions, nodeStateEvictKeys_eq]
  exact List.mem_append_right _ (List.mem_map.mpr ⟨_, hold, rfl⟩)

end Calm

/-- **The node registry.**  In every interleaving of calls and drops, down to the reads of a
    scan: the address of a live guard's state leads to that state, so that connections of
    one address share one state, and an insertion evicts no node with an open connection.
    An insertion behind a scan no drop fell into evicts every other node that was idle for
    longer than the TTL; it evicts further ones only down to the cap, the ones seen longest
    ago first; and it leaves no more nodes than the cap, or than have an open connection,
    with the new one. -/
theorem registry_keeps_open_nodes (events : List (RegistryEvent κ))
    (hrun : Machine.Run step (fun _ _ => True) ({} : NodeRegistry κ) events r) :
    (∀ g ∈ r.guards, ∃ st, r.states.lookup g.node = some st ∧ r.nodes.lookup st.ip = some g.node) ∧
    (∀ g ∈ r.guards, ∀ g' ∈ r.guards, ∀ st st', r.states.lookup g.node = some st → r.states.lookup g'.node = some st' →
      st.ip = st'.ip → g.node = g'.node) ∧
    ∀ sc r', r.scan = some sc → r.step .insert = some r' →
      (∀ ip id, r'.nodes.lookup ip = some id → ip = sc.ip ∧ id = r.nextNode ∨ r.nodes.lookup ip = some id) ∧
      (∀ ip id, r.nodes.lookup ip = some id → r.IsOpen id → r'.nodes.lookup ip = some id) ∧
      (sc.calm = true →
        (∀ ip id, r.nodes.lookup ip = some id → ¬ r.IsOpen id → NODE_STATE_TTL_SECS < sc.now - r.lastSeen id →
          r'.nodes.lookup ip = none) ∧
        (∀ ip id, r.Fresh sc.now ip id → r'.nodes.lookup ip = none →
          NODE_STATE_CAP ≤ r'.nodes.keys.length ∧
          ∀ ip' id', r.Fresh sc.now ip' id' → r'.nodes.lookup ip' = some id' →
            SeenLe (ip, r.lastSeen id) (ip', r.lastSeen id')) ∧
        r'.nodes.keys.length ≤ max NODE_STATE_CAP (1 + r.openNodes)) := by
  have hinv : r.Inv := by
    apply hrun.invariant inv_empty
    intro a e b h _ hstep
    exact h.step hstep
  refine ⟨hinv.guarded, ?_, ?_⟩
  · intro g hg g' hg' st st' hst hst' hip
    obtain ⟨x, hx, hnode⟩ := hinv.guarded g hg
    obtain ⟨x', hx', hnode'⟩ := hinv.guarded g' hg'
    cases hst.symm.trans hx
    cases hst'.symm.trans hx'
    rw [hip, hnode'] at hnode
    exact (Option.some.inj hnode).symm
  · intro sc r' hsc hstep
    simp only [step, hsc] at hstep
    split at hstep <;> cases hstep
    rename_i hdone
    have hscan := hinv.scanning sc hsc
    refine ⟨?_, fun ip id hid => hscan.not_evicted hid, ?_⟩
    · intro ip id hid
      rw [lookup_insertNew] at hid
      split at hid
      · rename_i hip
        exact Or.inl ⟨hip, (Option.some.inj hid).symm⟩
      · split at hid
        · cases hid
        · exact Or.inr hid
    · intro hcalm
      obtain ⟨hbound, hneeded⟩ := length_left (sc.read.map Reading.entry) sc.now NODE_STATE_CAP NODE_STATE_TTL_SECS
      rw [hscan.length_insertNew hdone]
      refine ⟨?_, ?_, ?_⟩
      · intro ip id hid hidle hstale
        rw [hscan.lookup_eq_none_iff hid, evictions, nodeStateEvictKeys_eq]
        have hread := hscan.mem_entries hinv hdone hcalm hid hidle
        exact List.mem_append_left _ (mem_staleKeys.mpr ⟨_, hread, hstale⟩)
      · intro ip id hfresh hnone
        have hgone := (hscan.lookup_eq_none_iff hfresh.1).mp hnone
        have hevictable := hscan.mem_evictable_of_fresh hinv hdone hcalm hfresh
        have hold := mem_oldest_of_evicted (hscan.entries_distinct hdone) hevictable hgone
        refine ⟨hneeded (List.ne_nil_of_mem hold), ?_⟩
        intro ip' id' hfresh' hstays
        apply hscan.seenLe_of_evicted hinv hdone hcalm hfresh hgone hfresh'
        intro hgone'
        cases ((hscan.lookup_eq_none_iff hfresh'.1).mpr hgone').symm.trans hstays
      · rw [← hscan.countP_held hinv hdone hcalm]
        exact hbound

/-- Two nodes connect; the second one leaves, and has been idle for longer than the TTL when a
    third one comes. -/
def idleEvents : List (RegistryEvent Nat) :=
  [.getOrInsert 1 0 [], .insert, .getOrInsert 2 0 [(1, 0)], .read, .read, .insert, .stamp ⟨1, false⟩ 0,
    .release ⟨1, true⟩, .getOrInsert 3 4000 [(1, 0), (2, 1)], .read, .read, .read, .read]

theorem idle_isSome : (Machine.exec step (fun _ _ => True) ({} : NodeRegistry Nat) idleEvents).isSome = true := by
  decide

def idleRegistry : NodeRegistry Nat :=
  (Machine.exec step (fun _ _ => True) ({} : NodeRegistry Nat) idleEvents).get idle_isSome

theorem idle_insert_isSome : (idleRegistry.step .insert).isSome = true := by
  decide

theorem registry_keeps_open_nodes_idleRegistry :
    ∃ r', idleRegistry.step .insert = some r' ∧ r'.nodes.lookup 1 = some 0 ∧ r'.nodes.lookup 2 = none ∧
      r'.nodes.keys.length ≤ 256 := by
  have hrun : Machine.Run step (fun _ _ => True) {} idleEvents idleRegistry :=
    Machine.Run.of_exec (Option.some_get idle_isSome).symm
  have hstep := (Option.some_get idle_insert_isSome).symm
  obtain ⟨sc, hsc, hcalm, hnow⟩ : ∃ sc, idleRegistry.scan = some sc ∧ sc.calm = true ∧ sc.now = 4000 :=
    ⟨_, rfl, rfl, rfl⟩
  obtain ⟨-, hopen, hpolicy⟩ := (registry_keeps_open_nodes idleEvents hrun).2.2 sc _ hsc hstep
  obtain ⟨hstale, -, hbound⟩ := hpolicy hcalm
  refine ⟨_, hstep, ?_, ?_, hbound⟩
  · exact hopen 1 0 (by decide) ⟨⟨0, false⟩, by decide, rfl⟩
  · rw [hnow] at hstale
    apply hstale 2 1 (by decide) _ (by decide)
    rintro ⟨g, hg, hnode⟩
    have hguards : idleRegistry.guards = [⟨0, false⟩] := by decide
    rw [hguards, List.mem_singleton] at hg
    cases hg
    cases hnode

/-- A drop between the two reads of an entry: the second node is evicted for the stamp it had
    before, though it was open when the scan began and has just been stamped. -/
example : ((Machine.exec step (fun _ _ => True) ({} : NodeRegistry Nat)
    [.getOrInsert 1 0 [], .insert, .getOrInsert 2 0 [(1, 0)], .read, .read, .insert,
      .getOrInsert 3 4000 [(1, 0), (2, 1)], .read, .read, .read, .stamp ⟨1, false⟩ 4000, .release ⟨1, true⟩,
      .read, .insert]).map fun r => (r.nodes.lookup 2, r.lastSeen 1)) = some (none, 4000) := by
  decide

end NodeRegistry

end Hypersync.Gateway
