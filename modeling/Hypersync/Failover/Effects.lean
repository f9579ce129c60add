import Hypersync.Failover.Core

/-!
# What the operations of the core do

One specification per operation, in the terms later proofs use: which blocks a
buffer holds, how high it has dropped, what the node's last block is, who is
active.  Runs are reasoned about with these alone; the definitions are not opened
again.
-/

namespace Hypersync.Failover

/-! ## 1. What each operation does to a buffer

Everything a run needs to know about a buffer: which blocks it holds and how high
it has dropped. -/

namespace Upstream

/-- The buffer has a block of round `r`. -/
def Holds (u : Upstream) (r : UInt32) : Prop := ∃ a, (r, a) ∈ u.ahead

@[simp] theorem ahead_compared (u : Upstream) (matched : Bool) (ms : Int) :
    (u.compared matched ms).1.ahead = u.ahead := by
  unfold compared
  split <;> rfl

@[simp] theorem droppedMax_compared (u : Upstream) (matched : Bool) (ms : Int) :
    (u.compared matched ms).1.droppedMax = u.droppedMax := by
  unfold compared
  split <;> rfl

theorem trimHigh_spec {fuel : Nat} : ∀ {u : Upstream},
    (∀ p ∈ (trimHigh fuel u).ahead, p ∈ u.ahead) ∧
    (∀ p ∈ u.ahead, p ∈ (trimHigh fuel u).ahead ∨ p.1 ≤ (trimHigh fuel u).droppedMax) ∧
    u.droppedMax ≤ (trimHigh fuel u).droppedMax := by
  induction fuel with
  | zero =>
    intro u
    exact ⟨fun p hp => hp, fun p hp => Or.inl hp, le_refl _⟩
  | succ fuel ih =>
    intro u
    rw [trimHigh]
    split
    · rcases hlast : u.ahead.last? with _ | ⟨r, a⟩
      · exact ⟨fun p hp => hp, fun p hp => Or.inl hp, le_refl _⟩
      · obtain ⟨hsub, hkept, hle⟩ := @ih { u with
          ahead := u.ahead.popLast
          aheadBytes := u.aheadBytes - a.frame.length
          droppedMax := max u.droppedMax r }
        refine ⟨?_, ?_, le_trans (le_max_left _ _) hle⟩
        · intro p hp
          exact ((OrdMap.mem_popLast hlast).mp (hsub p hp)).1
        · intro p hp
          by_cases hlt : p.1 < r
          · exact hkept p ((OrdMap.mem_popLast hlast).mpr ⟨hp, hlt⟩)
          · -- only the popped block itself is not below it
            exact Or.inr (le_trans (OrdMap.le_last? hlast hp) (le_trans (le_max_right _ _) hle))
    · exact ⟨fun p hp => hp, fun p hp => Or.inl hp, le_refl _⟩

theorem insertAhead_spec (u : Upstream) (round : UInt32) (a : Ahead) :
    (∀ p ∈ (u.insertAhead round a).ahead, p = (round, a) ∨ p ∈ u.ahead) ∧
    (∀ r, u.Holds r ∨ r = round →
      (u.insertAhead round a).Holds r ∨ r ≤ (u.insertAhead round a).droppedMax) ∧
    u.droppedMax ≤ (u.insertAhead round a).droppedMax := by
  -- the buffer before the trimming; the byte count plays no part here
  obtain ⟨fuel, v, htrim, hahead, hdropped⟩ : ∃ fuel v, u.insertAhead round a = trimHigh fuel v ∧
      v.ahead = u.ahead.insert round a ∧ v.droppedMax = u.droppedMax := ⟨_, _, rfl, rfl, rfl⟩
  obtain ⟨hsub, hkept, hle⟩ := @trimHigh_spec fuel v
  rw [← htrim, hahead] at hsub hkept
  rw [← htrim, hdropped] at hle
  refine ⟨?_, ?_, hle⟩
  · intro p hp
    rcases OrdMap.mem_insert.mp (hsub p hp) with h | h
    · exact Or.inl h
    · exact Or.inr h.1
  · intro r hr
    -- the key is in the map before the trimming, under the old value or the new one
    have hkey : ∃ b, (r, b) ∈ u.ahead.insert round a := by
      by_cases heq : r = round
      · exact ⟨a, OrdMap.mem_insert.mpr (Or.inl (by rw [heq]))⟩
      · rcases hr with ⟨b, hb⟩ | h
        · exact ⟨b, OrdMap.mem_insert.mpr (Or.inr ⟨hb, heq⟩)⟩
        · exact absurd h heq
    obtain ⟨b, hb⟩ := hkey
    rcases hkept (r, b) hb with h | h
    · exact Or.inl ⟨b, h⟩
    · exact Or.inr h

theorem trimLow_spec (floor : UInt32) {fuel : Nat} : ∀ {u : Upstream}, u.ahead.size ≤ fuel →
    (∀ p, p ∈ (trimLow floor fuel u).ahead ↔ p ∈ u.ahead ∧ floor < p.1) ∧
    (trimLow floor fuel u).droppedMax = u.droppedMax := by
  induction fuel with
  | zero =>
    intro u hsize
    have hnil : u.ahead.entries = [] := List.eq_nil_of_length_eq_zero (Nat.le_zero.mp hsize)
    refine ⟨?_, rfl⟩
    intro p
    simp [trimLow, OrdMap.mem_def, hnil]
  | succ fuel ih =>
    intro u hsize
    rw [trimLow]
    rcases hfirst : u.ahead.first? with _ | ⟨r, a⟩
    · have hnil := OrdMap.first?_eq_none.mp hfirst
      refine ⟨?_, rfl⟩
      intro p
      simp [OrdMap.mem_def, hnil]
    · simp only []
      split
      · rename_i hle
        have hpop : u.ahead.popFirst.size ≤ fuel := by
          simp only [OrdMap.size, OrdMap.popFirst, List.length_tail]
          simp only [OrdMap.size] at hsize
          omega
        obtain ⟨hmem, hdrop⟩ := @ih
          { u with ahead := u.ahead.popFirst, aheadBytes := u.aheadBytes - a.frame.length } hpop
        refine ⟨?_, hdrop⟩
        intro p
        rw [hmem p, OrdMap.mem_popFirst hfirst]
        constructor
        · rintro ⟨⟨hp, -⟩, hlt⟩
          exact ⟨hp, hlt⟩
        · rintro ⟨hp, hlt⟩
          exact ⟨⟨hp, lt_of_le_of_lt hle hlt⟩, hlt⟩
      · rename_i hgt
        refine ⟨?_, rfl⟩
        intro p
        constructor
        · intro hp
          exact ⟨hp, lt_of_lt_of_le (not_le.mp hgt) (OrdMap.first?_le hfirst hp)⟩
        · rintro ⟨hp, -⟩
          exact hp

theorem mem_trimAhead {u : Upstream} {floor : UInt32} {p : UInt32 × Ahead} :
    p ∈ (u.trimAhead floor).ahead ↔ p ∈ u.ahead ∧ floor < p.1 :=
  (trimLow_spec floor (Nat.le_refl _)).1 p

theorem droppedMax_trimAhead (u : Upstream) (floor : UInt32) :
    (u.trimAhead floor).droppedMax = u.droppedMax :=
  (trimLow_spec floor (Nat.le_refl _)).2

theorem takeAhead_eq_some {u v : Upstream} {r : UInt32} {a : Ahead} (h : u.takeAhead r = some (a, v)) :
    (r, a) ∈ u.ahead ∧ v.ahead = u.ahead.erase r ∧ v.droppedMax = u.droppedMax := by
  unfold takeAhead at h
  rcases hget : u.ahead.get? r with _ | b
  · simp [hget] at h
  · simp only [hget, Option.some.injEq, Prod.mk.injEq] at h
    obtain ⟨rfl, rfl⟩ := h
    exact ⟨OrdMap.get?_eq_some.mp hget, rfl, rfl⟩

/-- The blocks that continue the chain from `cur`, by parent links. -/
def chainPrefix (cur : UInt32) : List (UInt32 × Ahead) → List (UInt32 × Ahead)
  | [] => []
  | (r, a) :: rest => if a.parent = cur then (r, a) :: chainPrefix r rest else []

/-- In a buffer above `cur` the range that starts behind `cur` is all of it. -/
theorem rangeFrom_above {u : Upstream} {cur : UInt32} (habove : ∀ p ∈ u.ahead, cur < p.1) :
    u.ahead.rangeFrom (Word.satAdd cur 1) = u.ahead.entries := by
  apply OrdMap.rangeFrom_eq_entries
  intro p hp
  have hlt := habove p hp
  have hmax : cur ≠ Word.U32_MAX := by
    rintro rfl
    exact absurd (Word.toNat_le_max p.1) (not_le.mpr (UInt32.lt_iff_toNat_lt.mp hlt))
  exact (Word.satAdd_one_le_iff hmax).mpr hlt

/-- **The chain a switch takes.**  Of a buffer above `cur` it is the longest
    parent-linked run from `cur`, and the rest stays. -/
theorem takeChain_spec {fuel : Nat} : ∀ {cur : UInt32} {u : Upstream}, u.ahead.size ≤ fuel →
    (∀ p ∈ u.ahead, cur < p.1) →
    (takeChain fuel cur u).1 = chainPrefix cur u.ahead.entries ∧
    (takeChain fuel cur u).2.ahead.entries =
      u.ahead.entries.drop (chainPrefix cur u.ahead.entries).length ∧
    (takeChain fuel cur u).2.droppedMax = u.droppedMax := by
  induction fuel with
  | zero =>
    intro cur u hsize _
    have hnil : u.ahead.entries = [] := List.eq_nil_of_length_eq_zero (Nat.le_zero.mp hsize)
    simp [takeChain, hnil, chainPrefix]
  | succ fuel ih =>
    intro cur u hsize habove
    rw [takeChain, rangeFrom_above habove]
    rcases hentries : u.ahead.entries with _ | ⟨⟨r, a⟩, rest⟩
    · simp [chainPrefix, hentries]
    · simp only [List.head?_cons, chainPrefix]
      by_cases hparent : a.parent = cur
      · have hmem : (r, a) ∈ u.ahead := by
          rw [OrdMap.mem_def, hentries]
          exact List.mem_cons_self
        have htake : u.takeAhead r = some (a, { u with
            ahead := u.ahead.erase r, aheadBytes := u.aheadBytes - a.frame.length }) := by
          rw [takeAhead, OrdMap.get?_eq_some.mpr hmem]
        have hrest := OrdMap.entries_erase_first hentries
        have hsorted := u.ahead.sorted
        rw [hentries, List.pairwise_cons] at hsorted
        obtain ⟨hchain, hleft, hdrop⟩ := @ih r
          { u with ahead := u.ahead.erase r, aheadBytes := u.aheadBytes - a.frame.length }
          (by
            simp only [OrdMap.size, hrest]
            simp only [OrdMap.size, hentries, List.length_cons] at hsize
            omega)
          (by
            intro p hp
            rw [OrdMap.mem_def, hrest] at hp
            exact hsorted.1 p hp)
        simp only [hrest] at hchain hleft
        simp only [hparent, ne_eq, not_true_eq_false, if_false, if_true, htake, hchain,
          List.length_cons, List.drop_succ_cons]
        exact ⟨trivial, hleft, hdrop⟩
      · simp only [hparent, ne_eq, not_false_eq_true, if_true, if_false, List.length_nil,
          List.drop_zero, hentries, and_self]

/-- `v` is `u` with the blocks up to the given rounds gone from its buffer. -/
def Kept (rounds : List UInt32) (u v : Upstream) : Prop :=
  v.droppedMax = u.droppedMax ∧ ∀ p, p ∈ v.ahead ↔ p ∈ u.ahead ∧ ∀ r ∈ rounds, r < p.1

theorem Kept.of_eq {u v : Upstream} (hahead : v.ahead = u.ahead) (hdrop : v.droppedMax = u.droppedMax) :
    Kept [] u v := by
  refine ⟨hdrop, ?_⟩
  intro p
  rw [hahead]
  simp

theorem Kept.trans {rs ss : List UInt32} {u v w : Upstream} (h : Kept rs u v) (h' : Kept ss v w) :
    Kept (rs ++ ss) u w := by
  refine ⟨h'.1.trans h.1, ?_⟩
  intro p
  rw [h'.2 p, h.2 p]
  simp only [List.mem_append]
  constructor
  · rintro ⟨⟨hp, hrs⟩, hss⟩
    exact ⟨hp, fun r hr => hr.elim (hrs r) (hss r)⟩
  · rintro ⟨hp, hall⟩
    exact ⟨⟨hp, fun r hr => hall r (Or.inl hr)⟩, fun r hr => hall r (Or.inr hr)⟩

end Upstream

namespace Core

open Upstream (Kept)

/-! ## 2. What each operation does to the core -/

/-- Settling a standby at the forwarded round: its copy and everything below go. -/
theorem settleOne_kept (round : UInt32) (hash : UInt64) (at_ : Nat) (u : Upstream) :
    Kept [round] u (settleOne round round hash at_ u).1 := by
  unfold settleOne
  rcases htake : u.takeAhead round with _ | ⟨a, v⟩
  · refine ⟨Upstream.droppedMax_trimAhead u round, ?_⟩
    intro p
    simp [Upstream.mem_trimAhead]
  · obtain ⟨-, hahead, hdrop⟩ := Upstream.takeAhead_eq_some htake
    constructor
    · rw [Upstream.droppedMax_trimAhead, Upstream.droppedMax_compared, hdrop]
    · intro p
      rw [Upstream.mem_trimAhead, Upstream.ahead_compared, hahead, OrdMap.mem_erase]
      constructor
      · rintro ⟨⟨hp, -⟩, hlt⟩
        exact ⟨hp, by simpa using hlt⟩
      · rintro ⟨hp, hall⟩
        have hlt : round < p.1 := hall round (by simp)
        exact ⟨⟨hp, ne_of_gt hlt⟩, hlt⟩

/-- Recording a block as forwarded and settling the standbys on it. -/
theorem record_settle_spec (c : Core) (round : UInt32) (hash : UInt64) (at_ : Nat) :
    let out := ((c.recordForwarded round hash at_).settleStandbys round hash at_).1
    out.active = c.active ∧ out.lastForwarded = round ∧
      ∀ id v, out.ups.lookup id = some v →
        ∃ u, c.ups.lookup id = some u ∧ Kept (if id = c.active then [] else [round]) u v := by
  refine ⟨rfl, rfl, ?_⟩
  intro id v hv
  simp only [settleStandbys, recordForwarded, KeyMap.lookup_mapVals, Option.map_eq_some_iff] at hv
  obtain ⟨u, hu, rfl⟩ := hv
  refine ⟨u, hu, ?_⟩
  by_cases hid : id = c.active
  · simp only [hid, if_true]
    exact Kept.of_eq rfl rfl
  · simp only [hid, if_false]
    exact settleOne_kept round hash at_ u

theorem onActiveBlock_spec (c : Core) (round : UInt32) (hash : UInt64) (at_ : Nat) :
    let out := c.onActiveBlock round hash at_
    out.1.active = c.active ∧
    (c.lastForwarded ≠ 0 ∧ round ≤ c.lastForwarded ∧ out.2.1 = false ∧
        out.1.lastForwarded = c.lastForwarded ∨
      ¬ (c.lastForwarded ≠ 0 ∧ round ≤ c.lastForwarded) ∧ out.2.1 = true ∧
        out.1.lastForwarded = round) ∧
    ∀ id v, out.1.ups.lookup id = some v →
      ∃ u, c.ups.lookup id = some u ∧
        Kept (if id = c.active ∨ out.2.1 = false then [] else [round]) u v := by
  -- the arrival time is noted on the active before anything else
  have hnote : ∀ id v,
      (KeyMap.modify c.active (fun u => { u with lastRx := some at_ }) c.ups).lookup id = some v →
      ∃ u, c.ups.lookup id = some u ∧ Kept [] u v := by
    intro id v hv
    by_cases hid : id = c.active
    · subst hid
      rw [KeyMap.lookup_modify_self, Option.map_eq_some_iff] at hv
      obtain ⟨u, hu, rfl⟩ := hv
      exact ⟨u, hu, Kept.of_eq rfl rfl⟩
    · rw [KeyMap.lookup_modify_ne hid] at hv
      exact ⟨v, hv, Kept.of_eq rfl rfl⟩
  unfold onActiveBlock
  simp only []
  split
  · rename_i hold
    refine ⟨rfl, Or.inl ⟨hold.1, hold.2, rfl, rfl⟩, ?_⟩
    intro id v hv
    simp only [or_true, if_true]
    exact hnote id v hv
  · rename_i hnew
    refine ⟨rfl, Or.inr ⟨hnew, rfl, rfl⟩, ?_⟩
    intro id v hv
    obtain ⟨w, hw, hkept⟩ := (record_settle_spec _ round hash at_).2.2 id v hv
    obtain ⟨u, hu, hkept'⟩ := hnote id w hw
    refine ⟨u, hu, ?_⟩
    simpa using hkept'.trans hkept

theorem standbyBlock_spec (last : UInt32) (fwd : Option (UInt64 × Nat)) (round parent : UInt32)
    (hash : UInt64) (at_ : Nat) (frame : List UInt8) (u : Upstream) :
    let v := (standbyBlock last fwd round parent hash at_ frame u).1
    (round ≤ last → Kept [] u v) ∧
    (last < round → v = Upstream.insertAhead { u with lastRx := some at_ } round
      ⟨parent, hash, at_, frame⟩) := by
  unfold standbyBlock
  simp only []
  constructor
  · intro hle
    rw [if_pos hle]
    rcases fwd with _ | ⟨h, fat⟩
    · exact Kept.of_eq rfl rfl
    · exact Kept.of_eq (Upstream.ahead_compared _ _ _) (Upstream.droppedMax_compared _ _ _)
  · intro hlt
    rw [if_neg (not_le.mpr hlt)]

theorem onStandbyBlock_spec {c : Core} {id : Nat} {u : Upstream} (hu : c.ups.lookup id = some u)
    (round parent : UInt32) (hash : UInt64) (at_ : Nat) (frame : List UInt8) :
    let out := (c.onStandbyBlock id round parent hash at_ frame).1
    out.active = c.active ∧ out.lastForwarded = c.lastForwarded ∧
      ∀ j v, out.ups.lookup j = some v →
        (j ≠ id ∧ c.ups.lookup j = some v) ∨
        (j = id ∧ v = (standbyBlock c.lastForwarded (c.forwarded.get? round) round parent hash at_
          frame u).1) := by
  simp only [onStandbyBlock, hu]
  refine ⟨trivial, trivial, ?_⟩
  intro j v hv
  by_cases hj : j = id
  · subst hj
    rw [KeyMap.lookup_modify_self, hu, Option.map_some, Option.some.injEq] at hv
    exact Or.inr ⟨rfl, hv.symm⟩
  · rw [KeyMap.lookup_modify_ne hj] at hv
    exact Or.inl ⟨hj, hv⟩

theorem replay_spec : ∀ (chain : List (UInt32 × Ahead)) (c : Core),
    let out := (replay chain c).1
    out.active = c.active ∧
    out.lastForwarded = ((chain.getLast?.map Prod.fst).getD c.lastForwarded) ∧
    ∀ id v, out.ups.lookup id = some v →
      ∃ u, c.ups.lookup id = some u ∧ Kept (if id = c.active then [] else chain.map Prod.fst) u v := by
  intro chain
  induction chain with
  | nil =>
    intro c
    refine ⟨rfl, rfl, ?_⟩
    intro id v hv
    exact ⟨v, hv, by simpa using Kept.of_eq (u := v) rfl rfl⟩
  | cons p chain ih =>
    intro c
    obtain ⟨r, a⟩ := p
    obtain ⟨hact, hlast, hups⟩ := record_settle_spec c r a.hash a.at_
    obtain ⟨hact', hlast', hups'⟩ :=
      ih ((c.recordForwarded r a.hash a.at_).settleStandbys r a.hash a.at_).1
    refine ⟨hact'.trans hact, ?_, ?_⟩
    · apply hlast'.trans
      rw [hlast]
      rcases chain with _ | ⟨q, rest⟩
      · rfl
      · rw [List.getLast?_cons_cons]
        obtain ⟨z, hz⟩ : ∃ z, (q :: rest).getLast? = some z := ⟨_, List.getLast?_cons⟩
        rw [hz]
        rfl
    · intro id v hv
      obtain ⟨w, hw, hkept⟩ := hups' id v hv
      obtain ⟨u, hu, hkept'⟩ := hups id w hw
      refine ⟨u, hu, ?_⟩
      rw [hact] at hkept
      by_cases hid : id = c.active
      · simp only [hid, if_true] at hkept hkept' ⊢
        exact hkept'.trans hkept
      · simp only [hid, if_false] at hkept hkept' ⊢
        exact hkept'.trans hkept

/-- **What a switch does.**  It needs a standby whose drops the node has passed and
    whose buffer continues the node's chain; it replays that chain, and every other
    upstream forgets the replayed rounds and those below. -/
theorem switchTo_eq_some {c c' : Core} {id now : Nat} {frames : List (List UInt8)}
    {bad : List (Nat × UInt32)} (h : c.switchTo id now = some (c', frames, bad)) :
    ∃ u, c.ups.lookup id = some u ∧ u.droppedMax ≤ c.lastForwarded ∧
      let taken := u.takeChain u.ahead.size c.lastForwarded
      taken.1 ≠ [] ∧ frames = taken.1.map (fun p => p.2.frame) ∧ c'.active = id ∧
      some c'.lastForwarded = taken.1.getLast?.map Prod.fst ∧
      ∀ j v, c'.ups.lookup j = some v →
        (j = id ∧ Kept [] taken.2 v) ∨
        (j ≠ id ∧ ∃ w, c.ups.lookup j = some w ∧ Kept (taken.1.map Prod.fst) w v) := by
  unfold switchTo at h
  rcases hu : c.ups.lookup id with _ | u
  · simp [hu] at h
  simp only [hu] at h
  by_cases hcan : u.canContinue c.lastForwarded = true
  · rw [hcan, Bool.not_true, if_neg (by decide)] at h
    refine ⟨u, rfl, of_decide_eq_true hcan, ?_⟩
    rcases htaken : u.takeChain u.ahead.size c.lastForwarded with ⟨_ | ⟨p, chain⟩, left⟩
    · simp [htaken] at h
    simp only [htaken, Option.some.injEq, Prod.mk.injEq] at h
    obtain ⟨rfl, rfl, -⟩ := h
    obtain ⟨hact, hlast, hups⟩ := replay_spec (p :: chain)
      { c with ups := KeyMap.modify id (fun _ => left) c.ups, active := id, lastSwitch := some now }
    refine ⟨List.cons_ne_nil _ _, rfl, hact, ?_, ?_⟩
    · obtain ⟨z, hz⟩ : ∃ z, (p :: chain).getLast? = some z := ⟨_, List.getLast?_cons⟩
      rw [hz] at hlast ⊢
      exact congrArg some hlast
    · intro j v hv
      simp only [clearLeads, KeyMap.lookup_mapVals, Option.map_eq_some_iff] at hv
      obtain ⟨v', hv', rfl⟩ := hv
      obtain ⟨w, hw, hkept⟩ := hups j v' hv'
      have hclear : Kept [] v' { v' with leads := [] } := Kept.of_eq rfl rfl
      by_cases hj : j = id
      · subst hj
        simp only [KeyMap.lookup_modify_self, hu, Option.map_some, Option.some.injEq] at hw
        simp only [if_true] at hkept
        rw [← hw] at hkept
        exact Or.inl ⟨rfl, hkept.trans hclear⟩
      · simp only [KeyMap.lookup_modify_ne hj] at hw
        simp only [hj, if_false] at hkept
        have hboth := hkept.trans hclear
        rw [List.append_nil] at hboth
        exact Or.inr ⟨hj, w, hw, hboth⟩
  · rw [Bool.not_eq_true] at hcan
    simp [hcan] at h

theorem keys_replay : ∀ (chain : List (UInt32 × Ahead)) (c : Core),
    (replay chain c).1.ups.keys = c.ups.keys := by
  intro chain
  induction chain with
  | nil =>
    intro c
    rfl
  | cons p chain ih =>
    intro c
    exact (ih _).trans (KeyMap.keys_mapVals _ _)

/-- A switch adds and removes no upstream. -/
theorem switchTo_keys {c c' : Core} {id now : Nat} {frames : List (List UInt8)}
    {bad : List (Nat × UInt32)} (h : c.switchTo id now = some (c', frames, bad)) :
    c'.ups.keys = c.ups.keys := by
  unfold switchTo at h
  split at h
  · cases h
  split at h
  · cases h
  split at h
  · cases h
  · simp only [Option.some.injEq, Prod.mk.injEq] at h
    obtain ⟨rfl, -, -⟩ := h
    rw [clearLeads, KeyMap.keys_mapVals, keys_replay, KeyMap.keys_modify]

/-- A switch is refused exactly when there is nothing safe to replay. -/
theorem switchTo_eq_none {c : Core} {id now : Nat} {u : Upstream} (hu : c.ups.lookup id = some u) :
    c.switchTo id now = none ↔
      c.lastForwarded < u.droppedMax ∨ (u.takeChain u.ahead.size c.lastForwarded).1 = [] := by
  simp only [switchTo, hu, Upstream.canContinue]
  by_cases hcan : u.droppedMax ≤ c.lastForwarded
  · rcases htaken : u.takeChain u.ahead.size c.lastForwarded with ⟨_ | ⟨p, chain⟩, left⟩
    · simp [hcan]
    · simp [hcan, not_lt.mpr hcan]
  · simp [hcan, not_le.mp hcan]

/-! ## 3. No operation changes an upstream's address -/

end Core

namespace Upstream

@[simp] theorem ip_compared (u : Upstream) (matched : Bool) (ms : Int) :
    (u.compared matched ms).1.ip = u.ip := by
  unfold compared
  split <;> rfl

/-- The operations on the buffer touch neither the address nor the two counts. -/
theorem trimHigh_frame (fuel : Nat) (u : Upstream) :
    (trimHigh fuel u).ip = u.ip ∧ (trimHigh fuel u).mismatches = u.mismatches ∧
      (trimHigh fuel u).verified = u.verified := by
  induction fuel generalizing u with
  | zero => exact ⟨rfl, rfl, rfl⟩
  | succ fuel ih =>
    rw [trimHigh]
    split
    · split
      · exact ⟨rfl, rfl, rfl⟩
      · exact ih _
    · exact ⟨rfl, rfl, rfl⟩

theorem trimLow_frame (floor : UInt32) (fuel : Nat) (u : Upstream) :
    (trimLow floor fuel u).ip = u.ip ∧ (trimLow floor fuel u).mismatches = u.mismatches ∧
      (trimLow floor fuel u).verified = u.verified := by
  induction fuel generalizing u with
  | zero => exact ⟨rfl, rfl, rfl⟩
  | succ fuel ih =>
    rw [trimLow]
    split
    · exact ⟨rfl, rfl, rfl⟩
    · split
      · exact ih _
      · exact ⟨rfl, rfl, rfl⟩

theorem takeAhead_frame {u v : Upstream} {r : UInt32} {a : Ahead} (h : u.takeAhead r = some (a, v)) :
    v.ip = u.ip ∧ v.mismatches = u.mismatches ∧ v.verified = u.verified := by
  unfold takeAhead at h
  split at h
  · cases h
  · simp only [Option.some.injEq, Prod.mk.injEq] at h
    obtain ⟨-, rfl⟩ := h
    exact ⟨rfl, rfl, rfl⟩

@[simp] theorem ip_trimHigh (fuel : Nat) (u : Upstream) : (trimHigh fuel u).ip = u.ip := (trimHigh_frame fuel u).1

@[simp] theorem ip_trimLow (floor : UInt32) (fuel : Nat) (u : Upstream) : (trimLow floor fuel u).ip = u.ip :=
  (trimLow_frame floor fuel u).1

theorem takeChain_frame (fuel : Nat) (cur : UInt32) (u : Upstream) :
    (takeChain fuel cur u).2.ip = u.ip ∧ (takeChain fuel cur u).2.verified = u.verified := by
  induction fuel generalizing cur u with
  | zero => exact ⟨rfl, rfl⟩
  | succ fuel ih =>
    rw [takeChain]
    split
    · exact ⟨rfl, rfl⟩
    split
    · exact ⟨rfl, rfl⟩
    split
    · exact ⟨rfl, rfl⟩
    · rename_i htake
      obtain ⟨hip, -, hverified⟩ := takeAhead_frame htake
      exact ⟨(ih _ _).1.trans hip, (ih _ _).2.trans hverified⟩

@[simp] theorem ip_takeChain (fuel : Nat) (cur : UInt32) (u : Upstream) : (takeChain fuel cur u).2.ip = u.ip :=
  (takeChain_frame fuel cur u).1

end Upstream

namespace Core

theorem ip_settleOne (floor round : UInt32) (hash : UInt64) (at_ : Nat) (u : Upstream) :
    (settleOne floor round hash at_ u).1.ip = u.ip := by
  unfold settleOne Upstream.trimAhead
  split
  · rename_i htake
    simp only [Upstream.ip_trimLow, Upstream.ip_compared]
    exact (Upstream.takeAhead_frame htake).1
  · rw [Upstream.ip_trimLow]

/-- Updates that keep every address keep `ip_of`. -/
theorem ipOf_mapVals {c : Core} {f : Nat → Upstream → Upstream} (hf : ∀ id u, (f id u).ip = u.ip)
    (id : Nat) : ((KeyMap.mapVals f c.ups).lookup id).map Upstream.ip = c.ipOf id := by
  rw [KeyMap.lookup_mapVals, Option.map_map, ipOf]
  congr 1
  funext u
  exact hf id u

@[simp] theorem ipOf_settleStandbys (c : Core) (round : UInt32) (hash : UInt64) (at_ id : Nat) :
    (c.settleStandbys round hash at_).1.ipOf id = c.ipOf id := by
  refine ipOf_mapVals ?_ id
  intro id u
  split
  · rfl
  · exact ip_settleOne _ _ _ _ u

@[simp] theorem ipOf_onActiveBlock (c : Core) (round : UInt32) (hash : UInt64) (at_ id : Nat) :
    (c.onActiveBlock round hash at_).1.ipOf id = c.ipOf id := by
  have hnote : ((KeyMap.modify c.active (fun u => { u with lastRx := some at_ }) c.ups).lookup id).map
      Upstream.ip = c.ipOf id := by
    refine ipOf_mapVals ?_ id
    intro id u
    split <;> rfl
  unfold onActiveBlock
  simp only []
  split
  · exact hnote
  · rw [ipOf_settleStandbys]
    exact hnote

theorem ip_standbyBlock (last : UInt32) (fwd : Option (UInt64 × Nat)) (round parent : UInt32)
    (hash : UInt64) (at_ : Nat) (frame : List UInt8) (u : Upstream) :
    (standbyBlock last fwd round parent hash at_ frame u).1.ip = u.ip := by
  unfold standbyBlock
  simp only []
  split
  · split
    · rw [Upstream.ip_compared]
    · rfl
  · rw [Upstream.insertAhead, Upstream.ip_trimHigh]

@[simp] theorem ipOf_onStandbyBlock (c : Core) (id : Nat) (round parent : UInt32) (hash : UInt64)
    (at_ : Nat) (frame : List UInt8) (j : Nat) :
    (c.onStandbyBlock id round parent hash at_ frame).1.ipOf j = c.ipOf j := by
  unfold onStandbyBlock
  rcases hu : c.ups.lookup id with _ | u
  · rfl
  · simp only [ipOf]
    by_cases hj : j = id
    · subst hj
      rw [KeyMap.lookup_modify_self, hu, Option.map_some, Option.map_some, Option.map_some,
        ip_standbyBlock]
    · rw [KeyMap.lookup_modify_ne hj]

theorem ipOf_replay : ∀ (chain : List (UInt32 × Ahead)) (c : Core) (id : Nat),
    (replay chain c).1.ipOf id = c.ipOf id := by
  intro chain
  induction chain with
  | nil =>
    intro c id
    rfl
  | cons p chain ih =>
    intro c id
    exact (ih _ id).trans (ipOf_settleStandbys _ _ _ _ id)

theorem ipOf_clearLeads (c : Core) (id : Nat) : c.clearLeads.ipOf id = c.ipOf id :=
  ipOf_mapVals (f := fun _ u => { u with leads := [] }) (fun _ _ => rfl) id

theorem ipOf_switchTo {c c' : Core} {id now : Nat} {frames : List (List UInt8)}
    {bad : List (Nat × UInt32)} (h : c.switchTo id now = some (c', frames, bad)) (j : Nat) :
    c'.ipOf j = c.ipOf j := by
  unfold switchTo at h
  split at h
  · cases h
  rename_i u hu
  split at h
  · cases h
  split at h
  · cases h
  · rename_i chain left _ htaken
    simp only [Option.some.injEq, Prod.mk.injEq] at h
    obtain ⟨rfl, -, -⟩ := h
    have hleft : left.ip = u.ip := by
      have hip := Upstream.ip_takeChain u.ahead.size c.lastForwarded u
      rw [htaken] at hip
      exact hip
    rw [ipOf_clearLeads, ipOf_replay]
    simp only [ipOf]
    by_cases hj : j = id
    · subst hj
      rw [KeyMap.lookup_modify_self, hu, Option.map_some, Option.map_some, Option.map_some, hleft]
    · rw [KeyMap.lookup_modify_ne hj]

theorem ipOf_remove_ne {c : Core} {id j : Nat} (h : j ≠ id) : (c.remove id).2.ipOf j = c.ipOf j := by
  simp only [remove, ipOf, AList.lookup_erase_ne h]

theorem ipOf_addStandby_self (c : Core) (id : Nat) (ip : String) :
    (c.addStandby id ip).ipOf id = some ip := by
  simp only [addStandby, ipOf, AList.lookup_insert, Option.map_some]

theorem ipOf_addStandby_ne {c : Core} {id j : Nat} (h : j ≠ id) (ip : String) :
    (c.addStandby id ip).ipOf j = c.ipOf j := by
  simp only [addStandby, ipOf, AList.lookup_insert_ne h]

@[simp] theorem ipOf_markPreferred (c : Core) (id j : Nat) :
    (c.markPreferred id).ipOf j = c.ipOf j := by
  refine ipOf_mapVals ?_ j
  intro id u
  split <;> rfl

@[simp] theorem active_onActiveBlock (c : Core) (round : UInt32) (hash : UInt64) (at_ : Nat) :
    (c.onActiveBlock round hash at_).1.active = c.active :=
  (onActiveBlock_spec c round hash at_).1

@[simp] theorem active_onStandbyBlock (c : Core) (id : Nat) (round parent : UInt32) (hash : UInt64)
    (at_ : Nat) (frame : List UInt8) :
    (c.onStandbyBlock id round parent hash at_ frame).1.active = c.active := by
  unfold onStandbyBlock
  split <;> rfl

theorem ipOf_isSome {c : Core} {id : Nat} : (c.ipOf id).isSome ↔ id ∈ c.ups := by
  rw [ipOf, Option.isSome_map]
  exact AList.lookup_isSome

end Core

end Hypersync.Failover
