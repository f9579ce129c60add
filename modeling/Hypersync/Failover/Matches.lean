import Hypersync.Failover.Switch
import Hypersync.Lib.Streak

/-!
# What a standby is trusted for

A standby may take over once `verified` has reached `MIN_VERIFIED`.  The counter is
raised on two paths: a late block is compared with what was forwarded for its round,
an early one when its round is forwarded.  Next to the core the state keeps what the
code does not: what each upstream delivered, what the node was handed, and every
comparison there was.  The counter is the number of comparisons since the last one
that differed; it counts rounds as long as no late block repeats one of them.
-/

namespace Hypersync.Failover

/-! ## 1. Comparisons -/

/-- A standby's block for a round and the one the node got. -/
structure Comparison where
  round : UInt32
  theirs : UInt64
  forwarded : UInt64
deriving DecidableEq, Repr

def Comparison.equal (k : Comparison) : Bool := k.theirs == k.forwarded

/-- The comparisons since the last one that differed. -/
def sinceMismatch (log : List Comparison) : List Comparison := Streak.current Comparison.equal log

/-- The buffered copies of the blocks handed to the node, against them. -/
def copies (ahead : OrdMap UInt32 Ahead) (handed : List (UInt32 × UInt64)) : List Comparison :=
  handed.filterMap fun b => (ahead.get? b.1).map fun a => ⟨b.1, a.hash, b.2⟩

theorem mem_copies {ahead : OrdMap UInt32 Ahead} {handed : List (UInt32 × UInt64)} {k : Comparison} :
    k ∈ copies ahead handed ↔
      (k.round, k.forwarded) ∈ handed ∧ ∃ a, (k.round, a) ∈ ahead ∧ a.hash = k.theirs := by
  simp only [copies, List.mem_filterMap, Option.map_eq_some_iff, OrdMap.get?_eq_some]
  constructor
  · rintro ⟨⟨r, h⟩, hb, a, ha, rfl⟩
    exact ⟨hb, a, ha, rfl⟩
  · rintro ⟨hb, a, ha, hhash⟩
    exact ⟨_, hb, a, ha, by rw [hhash]⟩

/-- Handed in increasing rounds, the blocks are compared in increasing rounds. -/
theorem nodup_copies {ahead : OrdMap UInt32 Ahead} {handed : List (UInt32 × UInt64)}
    (h : (handed.map Prod.fst).Pairwise (· < ·)) : ((copies ahead handed).map Comparison.round).Nodup := by
  have hsublist : ((copies ahead handed).map Comparison.round).Sublist (handed.map Prod.fst) := by
    induction handed with
    | nil => exact List.Sublist.refl _
    | cons b handed ih =>
      have htail := ih (List.pairwise_cons.mp h).2
      rw [copies, List.filterMap_cons]
      cases ahead.get? b.1 with
      | none => exact htail.trans (List.sublist_cons_self _ _)
      | some a => exact htail.cons_cons b.1
  exact (h.sublist hsublist).imp fun hlt => ne_of_lt hlt

/-! ## 2. The counter -/

namespace Upstream

@[simp] theorem verified_compared (u : Upstream) (matched : Bool) (ms : Int) :
    (u.compared matched ms).1.verified = if matched then u.verified + 1 else 0 := by
  unfold compared
  split
  · rfl
  · rfl

@[simp] theorem verified_insertAhead (u : Upstream) (round : UInt32) (a : Ahead) :
    (u.insertAhead round a).verified = u.verified := (trimHigh_frame _ _).2.2

@[simp] theorem verified_trimAhead (u : Upstream) (floor : UInt32) : (u.trimAhead floor).verified = u.verified :=
  (trimLow_frame floor _ u).2.2

/-- Settle on every block of a chain. -/
def settleAll (chain : List (UInt32 × Ahead)) (u : Upstream) : Upstream :=
  chain.foldl (fun u p => (Core.settleOne p.1 p.1 p.2.hash p.2.at_ u).1) u

theorem verified_settleOne (round : UInt32) (hash : UInt64) (at_ : Nat) (u : Upstream) :
    (Core.settleOne round round hash at_ u).1.verified =
      Streak.count Comparison.equal u.verified (copies u.ahead [(round, hash)]) := by
  unfold Core.settleOne
  rcases htake : u.takeAhead round with _ | ⟨a, v⟩
  · have hget : u.ahead.get? round = none := by
      unfold takeAhead at htake
      split at htake
      · assumption
      · cases htake
    simp [copies, hget, Streak.count]
  · have hget := OrdMap.get?_eq_some.mpr (takeAhead_eq_some htake).1
    have hframe := (takeAhead_frame htake).2.2
    simp [copies, hget, Streak.count, Comparison.equal, hframe]

/-- What is settled on one round leaves the copies of later ones. -/
theorem copies_kept {u v : Upstream} {round : UInt32} (hkept : Kept [round] u v) {later : List (UInt32 × UInt64)}
    (h : ∀ b ∈ later, round < b.1) : copies v.ahead later = copies u.ahead later := by
  apply List.filterMap_congr
  intro b hb
  have hget : v.ahead.get? b.1 = u.ahead.get? b.1 := by
    apply Option.ext
    intro a
    rw [OrdMap.get?_eq_some, OrdMap.get?_eq_some, hkept.2]
    simp [h b hb]
  rw [hget]

theorem settleAll_spec (chain : List (UInt32 × Ahead)) (hinc : (chain.map Prod.fst).Pairwise (· < ·)) (u : Upstream) :
    (∀ p ∈ (settleAll chain u).ahead, p ∈ u.ahead) ∧
    (settleAll chain u).verified =
      Streak.count Comparison.equal u.verified (copies u.ahead (chain.map fun p => (p.1, p.2.hash))) := by
  induction chain generalizing u with
  | nil => exact ⟨fun p hp => hp, rfl⟩
  | cons p chain ih =>
    rw [List.map_cons, List.pairwise_cons] at hinc
    have hkept := Core.settleOne_kept p.1 p.2.hash p.2.at_ u
    obtain ⟨hsub, hverified⟩ := ih hinc.2 (Core.settleOne p.1 p.1 p.2.hash p.2.at_ u).1
    constructor
    · intro q hq
      exact ((hkept.2 q).mp (hsub q hq)).1
    · have hlater : ∀ b ∈ chain.map (fun p => (p.1, p.2.hash)), p.1 < b.1 := by
        intro b hb
        obtain ⟨q, hq, rfl⟩ := List.mem_map.mp hb
        exact hinc.1 q.1 (List.mem_map_of_mem hq)
      have hsplit : copies u.ahead ((p :: chain).map fun p => (p.1, p.2.hash)) =
          copies u.ahead [(p.1, p.2.hash)] ++ copies u.ahead (chain.map fun p => (p.1, p.2.hash)) := by
        rw [copies, copies, copies, ← List.filterMap_append]
        rfl
      rw [hsplit, Streak.count, List.foldl_append]
      rw [settleAll, List.foldl_cons]
      rw [settleAll] at hverified
      rw [hverified, verified_settleOne, copies_kept hkept hlater]
      rfl

end Upstream

/-! ## 3. Handing blocks to the node -/

namespace Core

/-- What handing the node these blocks compares for `j`; `active` is the upstream they
    come from. -/
def comparisons (c : Core) (active j : Nat) (handed : List (UInt32 × UInt64)) : List Comparison :=
  if j = active then []
  else
    match c.ups.lookup j with
    | some u => copies u.ahead handed
    | none => []

theorem comparisons_nil (c : Core) (active j : Nat) : c.comparisons active j [] = [] := by
  unfold comparisons
  split
  · rfl
  · split
    · rfl
    · rfl

theorem mem_comparisons {c : Core} {active j : Nat} {handed : List (UInt32 × UInt64)} {k : Comparison}
    (h : k ∈ c.comparisons active j handed) :
    j ≠ active ∧ ∃ u, c.ups.lookup j = some u ∧ k ∈ copies u.ahead handed := by
  unfold comparisons at h
  split at h
  · cases h
  · rename_i hj
    split at h
    · rename_i u hu
      exact ⟨hj, u, hu, h⟩
    · cases h

/-- The step from `c` to `c'` hands the node these blocks, and does nothing else that matters
    here. -/
structure Hands (c c' : Core) (handed : List (UInt32 × UInt64)) : Prop where
  ups : ∀ j v, c'.ups.lookup j = some v → ∃ u, c.ups.lookup j = some u ∧ (∀ p ∈ v.ahead, p ∈ u.ahead) ∧
    v.verified = Streak.count Comparison.equal u.verified (c.comparisons c'.active j handed)
  forwarded : ∀ r f, (r, f) ∈ c'.forwarded → (r, f) ∈ c.forwarded ∨ (r, f.1) ∈ handed
  last : c.lastForwarded ≤ c'.lastForwarded
  upTo : ∀ b ∈ handed, b.1 ≤ c'.lastForwarded
  trimmed : c'.Trimmed
  new : ∀ j, ∀ k ∈ c.comparisons c'.active j handed, c.lastForwarded < k.round
  increasing : (handed.map Prod.fst).Pairwise (· < ·)

theorem Hands.of_same {c c' : Core} (hups : ∀ j v, c'.ups.lookup j = some v →
      ∃ u, c.ups.lookup j = some u ∧ v.ahead = u.ahead ∧ v.verified = u.verified)
    (hforwarded : c'.forwarded = c.forwarded) (hlast : c'.lastForwarded = c.lastForwarded) (htrimmed : c'.Trimmed) :
    Hands c c' [] := by
  refine ⟨?_, ?_, le_of_eq hlast.symm, nofun, htrimmed, ?_, List.Pairwise.nil⟩
  · intro j v hv
    obtain ⟨u, hu, hahead, hverified⟩ := hups j v hv
    refine ⟨u, hu, ?_, ?_⟩
    · rw [hahead]
      exact fun p hp => hp
    · rw [comparisons_nil]
      exact hverified
  · intro r f hf
    rw [hforwarded] at hf
    exact Or.inl hf
  · intro j k hk
    rw [comparisons_nil] at hk
    cases hk

theorem mem_keepForwarded {fuel : Nat} {m : OrdMap UInt32 (UInt64 × Nat)} {p : UInt32 × UInt64 × Nat}
    (h : p ∈ keepForwarded fuel m) : p ∈ m := by
  induction fuel generalizing m with
  | zero => exact h
  | succ fuel ih =>
    rw [keepForwarded] at h
    split at h
    · have htail := ih h
      rw [OrdMap.mem_def, OrdMap.popFirst] at htail
      exact List.mem_of_mem_tail htail
    · exact h

theorem replay_lookup (chain : List (UInt32 × Ahead)) (c : Core) (j : Nat) :
    (replay chain c).1.ups.lookup j =
      (c.ups.lookup j).map fun u => if j = c.active then u else Upstream.settleAll chain u := by
  induction chain generalizing c with
  | nil =>
    simp [replay, Upstream.settleAll]
  | cons p chain ih =>
    obtain ⟨r, a⟩ := p
    refine (ih _).trans ?_
    simp only [recordForwarded, KeyMap.lookup_mapVals, Option.map_map]
    congr 1
    funext u
    by_cases hj : j = c.active
    · simp [hj]
    · simp [hj, Upstream.settleAll]

theorem replay_forwarded (chain : List (UInt32 × Ahead)) (c : Core) {r : UInt32} {f : UInt64 × Nat}
    (h : (r, f) ∈ (replay chain c).1.forwarded) :
    (r, f) ∈ c.forwarded ∨ (r, f.1) ∈ chain.map fun p => (p.1, p.2.hash) := by
  induction chain generalizing c with
  | nil => exact Or.inl h
  | cons p chain ih =>
    rcases ih _ h with h | h
    · rcases OrdMap.mem_insert.mp (mem_keepForwarded h) with heq | ⟨h, -⟩
      · cases heq
        exact Or.inr List.mem_cons_self
      · exact Or.inl h
    · exact Or.inr (List.mem_cons_of_mem _ h)

theorem le_last_of_increasing {chain : List (UInt32 × Ahead)} (hinc : (chain.map Prod.fst).Pairwise (· < ·))
    {p z : UInt32 × Ahead} (hp : p ∈ chain) (hz : chain.getLast? = some z) : p.1 ≤ z.1 := by
  obtain ⟨front, rfl⟩ := List.getLast?_eq_some_iff.mp hz
  rcases List.mem_append.mp hp with hp | hp
  · rw [List.map_append] at hinc
    exact ((List.pairwise_append.mp hinc).2.2 p.1 (List.mem_map_of_mem hp) z.1 (by simp)).le
  · rw [List.mem_singleton.mp hp]

/-- Replaying a chain, from a core that differs from `c` in who is active. -/
theorem Hands.of_replay {c c₀ : Core} (chain : List (UInt32 × Ahead))
    (hinc : (chain.map Prod.fst).Pairwise (· < ·))
    (hups : ∀ j u₀, c₀.ups.lookup j = some u₀ → ∃ u, c.ups.lookup j = some u ∧ (∀ p ∈ u₀.ahead, p ∈ u.ahead) ∧
      u₀.verified = u.verified ∧ (j ≠ c₀.active → u₀.ahead = u.ahead))
    (hforwarded : c₀.forwarded = c.forwarded) (hlast : c₀.lastForwarded = c.lastForwarded)
    (hrise : ∀ z ∈ chain.getLast?, c.lastForwarded ≤ z.1) (htrimmed : (replay chain c₀).1.Trimmed)
    (hnew : ∀ j, ∀ k ∈ c.comparisons c₀.active j (chain.map fun p => (p.1, p.2.hash)), c.lastForwarded < k.round) :
    Hands c (replay chain c₀).1 (chain.map fun p => (p.1, p.2.hash)) := by
  obtain ⟨hactive, hlast', -⟩ := replay_spec chain c₀
  rw [hlast] at hlast'
  refine ⟨?_, ?_, ?_, ?_, htrimmed, ?_, by rwa [List.map_map]⟩
  · intro j v hv
    rw [replay_lookup, Option.map_eq_some_iff] at hv
    obtain ⟨u₀, hu₀, rfl⟩ := hv
    obtain ⟨u, hu, hsub, hverified, hahead⟩ := hups j u₀ hu₀
    refine ⟨u, hu, ?_⟩
    rw [hactive]
    by_cases hj : j = c₀.active
    · rw [if_pos hj, comparisons, if_pos hj]
      exact ⟨hsub, hverified⟩
    · obtain ⟨hsettled, hcount⟩ := Upstream.settleAll_spec chain hinc u₀
      rw [if_neg hj, comparisons, if_neg hj, hu]
      refine ⟨fun p hp => hsub p (hsettled p hp), ?_⟩
      rw [hcount, hverified, hahead hj]
  · intro r f hf
    rw [← hforwarded]
    exact replay_forwarded chain c₀ hf
  · rw [hlast']
    cases hz : chain.getLast? with
    | none => exact le_refl _
    | some z => exact hrise z hz
  · intro b hb
    obtain ⟨p, hp, rfl⟩ := List.mem_map.mp hb
    rw [hlast']
    cases hz : chain.getLast? with
    | none =>
      rw [List.getLast?_eq_none_iff.mp hz] at hp
      cases hp
    | some z => exact le_last_of_increasing hinc hp hz
  · rw [hactive]
    exact hnew

theorem Hands.onActiveBlock {c : Core} (h : c.Trimmed) (round : UInt32) (hash : UInt64) (at_ : Nat) :
    Hands c (c.onActiveBlock round hash at_).1
      (if (c.onActiveBlock round hash at_).2.1 then [(round, hash)] else []) := by
  have htrimmed := h.onActiveBlock round hash at_
  -- the arrival time is noted on the active before anything else
  have hnote : ∀ j u₀, (KeyMap.modify c.active (fun u => { u with lastRx := some at_ }) c.ups).lookup j = some u₀ →
      ∃ u, c.ups.lookup j = some u ∧ u₀.ahead = u.ahead ∧ u₀.verified = u.verified := by
    intro j u₀ hu₀
    obtain ⟨u, hu, rfl⟩ := KeyMap.lookup_modify_inv hu₀
    refine ⟨u, hu, ?_⟩
    split
    · exact ⟨rfl, rfl⟩
    · exact ⟨rfl, rfl⟩
  by_cases hold : c.lastForwarded ≠ 0 ∧ round ≤ c.lastForwarded
  · simp only [Core.onActiveBlock, if_pos hold, Bool.false_eq_true, if_false] at htrimmed ⊢
    exact Hands.of_same hnote rfl rfl htrimmed
  · simp only [Core.onActiveBlock, if_neg hold, if_true] at htrimmed ⊢
    -- one block recorded and settled is a chain of one replayed
    refine Hands.of_replay [(round, ⟨0, hash, at_, []⟩)] (List.pairwise_singleton _ _) ?_ rfl rfl ?_ htrimmed ?_
    · intro j u₀ hu₀
      obtain ⟨u, hu, hahead, hverified⟩ := hnote j u₀ hu₀
      exact ⟨u, hu, fun p hp => hahead ▸ hp, hverified, fun _ => hahead⟩
    · intro z hz
      cases hz
      by_cases hzero : c.lastForwarded = 0
      · rw [hzero]
        exact UInt32.zero_le
      · exact (not_le.mp fun hle => hold ⟨hzero, hle⟩).le
    · intro j k hk
      obtain ⟨hj, u, hu, hk⟩ := mem_comparisons hk
      obtain ⟨-, a, ha, -⟩ := mem_copies.mp hk
      exact h j u hu hj _ ha

theorem Hands.markPreferred {c : Core} (h : c.Trimmed) (id : Nat) : Hands c (c.markPreferred id) [] := by
  refine Hands.of_same ?_ rfl rfl (h.markPreferred id)
  intro j v hv
  obtain ⟨u, hu, rfl⟩ := KeyMap.lookup_modify_inv hv
  refine ⟨u, hu, ?_⟩
  split
  · exact ⟨rfl, rfl⟩
  · exact ⟨rfl, rfl⟩

theorem Hands.remove {c : Core} (h : c.Trimmed) (id : Nat) : Hands c (c.remove id).2 [] := by
  refine Hands.of_same ?_ rfl rfl (h.remove id)
  intro j v hv
  exact ⟨v, (KeyMap.lookup_erase_inv hv).2, rfl, rfl⟩

theorem trimmed_clearLeads {c : Core} : c.clearLeads.Trimmed ↔ c.Trimmed := by
  constructor
  · intro h j u hu hj
    apply h j { u with leads := [] } ?_ hj
    rw [clearLeads, KeyMap.lookup_mapVals, hu]
    rfl
  · intro h j v hv hj
    rw [clearLeads, KeyMap.lookup_mapVals, Option.map_eq_some_iff] at hv
    obtain ⟨u, hu, rfl⟩ := hv
    exact h j u hu hj

theorem Hands.clearLeads {c c' : Core} {handed : List (UInt32 × UInt64)} (h : Hands c c' handed) :
    Hands c c'.clearLeads handed := by
  refine { h with ups := ?_, trimmed := trimmed_clearLeads.mpr h.trimmed }
  intro j v hv
  rw [Core.clearLeads, KeyMap.lookup_mapVals, Option.map_eq_some_iff] at hv
  obtain ⟨w, hw, rfl⟩ := hv
  exact h.ups j w hw

theorem switchTo_eq {c c' : Core} {id now : Nat} {frames : List (List UInt8)} {bad : List (Nat × UInt32)}
    (h : c.switchTo id now = some (c', frames, bad)) :
    ∃ u, c.ups.lookup id = some u ∧ c' = (replay (u.takeChain u.ahead.size c.lastForwarded).1
      { c with
        ups := KeyMap.modify id (fun _ => (u.takeChain u.ahead.size c.lastForwarded).2) c.ups
        active := id
        lastSwitch := some now }).1.clearLeads := by
  unfold switchTo at h
  split at h
  · cases h
  rename_i u hu
  split at h
  · cases h
  split at h <;> cases h
  rename_i chain left _ htaken
  exact ⟨u, hu, by rw [htaken]⟩

theorem Hands.switchTo {c c' : Core} (h : c.Trimmed) {id now : Nat} (hid : id ≠ c.active)
    {frames : List (List UInt8)} {bad : List (Nat × UInt32)} (hsw : c.switchTo id now = some (c', frames, bad)) :
    Hands c c' ((switched c id).map fun b => (b.round, b.hash)) := by
  obtain ⟨u, hu, rfl⟩ := switchTo_eq hsw
  have habove := h id u hu hid
  obtain ⟨hchain, hleft, -⟩ := Upstream.takeChain_spec (Nat.le_refl _) habove
  have hhanded : (switched c id).map (fun b => (b.round, b.hash)) =
      (u.takeChain u.ahead.size c.lastForwarded).1.map fun p => (p.1, p.2.hash) := by
    rw [switched, hu, List.map_map]
    rfl
  have hpre : (u.takeChain u.ahead.size c.lastForwarded).1 <+: u.ahead.entries := by
    rw [hchain]
    exact chainPrefix_prefix _ _
  have hlater : ∀ p ∈ (u.takeChain u.ahead.size c.lastForwarded).1, c.lastForwarded < p.1 := fun p hp =>
    habove p (hpre.subset hp)
  rw [hhanded]
  refine Hands.clearLeads (Hands.of_replay _ ?_ ?_ rfl rfl ?_ (trimmed_clearLeads.mp (Core.Trimmed.of_switchTo hsw)) ?_)
  · exact List.pairwise_map.mpr (u.ahead.sorted.sublist hpre.sublist)
  · intro j u₀ hu₀
    obtain ⟨w, hw, rfl⟩ := KeyMap.lookup_modify_inv hu₀
    refine ⟨w, hw, ?_⟩
    by_cases hj : j = id
    · subst hj
      obtain rfl : u = w := Option.some.inj (hu.symm.trans hw)
      rw [if_pos rfl]
      refine ⟨?_, (Upstream.takeChain_frame _ _ u).2, fun hne => absurd rfl hne⟩
      intro p hp
      rw [OrdMap.mem_def, hleft] at hp
      exact List.mem_of_mem_drop hp
    · rw [if_neg hj]
      exact ⟨fun p hp => hp, rfl, fun _ => rfl⟩
  · intro z hz
    exact (hlater z (List.mem_of_getLast? hz)).le
  · intro j k hk
    obtain ⟨-, w, -, hk⟩ := mem_comparisons hk
    obtain ⟨hhand, -⟩ := mem_copies.mp hk
    obtain ⟨p, hp, hblock⟩ := List.mem_map.mp hhand
    have hround : p.1 = k.round := congrArg Prod.fst hblock
    rw [← hround]
    exact hlater p hp

/-- A standby's block: late ones are compared, early ones are buffered. -/
theorem verified_standbyBlock (last : UInt32) (fwd : Option (UInt64 × Nat)) (round parent : UInt32) (hash : UInt64)
    (at_ : Nat) (frame : List UInt8) (u : Upstream) :
    (standbyBlock last fwd round parent hash at_ frame u).1.verified =
      Streak.count Comparison.equal u.verified
        (if round ≤ last then fwd.toList.map fun f => ⟨round, hash, f.1⟩ else []) := by
  unfold standbyBlock
  by_cases hlate : round ≤ last
  · rcases fwd with _ | ⟨h, fat⟩
    · simp [hlate, Streak.count]
    · simp [hlate, Streak.count, Comparison.equal, @eq_comm _ hash h]
  · simp [hlate, Streak.count]

theorem mem_ahead_standbyBlock {last : UInt32} {fwd : Option (UInt64 × Nat)} {round parent : UInt32} {hash : UInt64}
    {at_ : Nat} {frame : List UInt8} {u : Upstream} {p : UInt32 × Ahead}
    (h : p ∈ (standbyBlock last fwd round parent hash at_ frame u).1.ahead) :
    p ∈ u.ahead ∨ p = (round, ⟨parent, hash, at_, frame⟩) := by
  obtain ⟨hlow, hhigh⟩ := standbyBlock_spec last fwd round parent hash at_ frame u
  by_cases hlate : round ≤ last
  · exact Or.inl (((hlow hlate).2 p).mp h).1
  · rw [hhigh (not_le.mp hlate)] at h
    exact ((Upstream.insertAhead_spec _ _ _).1 p h).symm

theorem lookup_onStandbyBlock {c : Core} {id j : Nat} {round parent : UInt32} {hash : UInt64} {at_ : Nat}
    {frame : List UInt8} {v : Upstream}
    (h : (c.onStandbyBlock id round parent hash at_ frame).1.ups.lookup j = some v) :
    j ≠ id ∧ c.ups.lookup j = some v ∨
    j = id ∧ ∃ u, c.ups.lookup id = some u ∧
      v = (standbyBlock c.lastForwarded (c.forwarded.get? round) round parent hash at_ frame u).1 := by
  rcases hu : c.ups.lookup id with _ | u
  · simp only [onStandbyBlock, hu] at h
    refine Or.inl ⟨?_, h⟩
    rintro rfl
    rw [hu] at h
    cases h
  · exact ((onStandbyBlock_spec hu round parent hash at_ frame).2.2 j v h).imp_right fun hv => ⟨hv.1, u, rfl, hv.2⟩

theorem onStandbyBlock_frame (c : Core) (id : Nat) (round parent : UInt32) (hash : UInt64) (at_ : Nat)
    (frame : List UInt8) :
    (c.onStandbyBlock id round parent hash at_ frame).1.forwarded = c.forwarded ∧
      (c.onStandbyBlock id round parent hash at_ frame).1.lastForwarded = c.lastForwarded := by
  unfold onStandbyBlock
  split
  · exact ⟨rfl, rfl⟩
  · exact ⟨rfl, rfl⟩

end Core

/-! ## 4. The machine -/

/-- The core and its history: the blocks handed to the node, the blocks each upstream
    delivered since it was added, and every comparison of a block of it. -/
structure Watched where
  core : Core
  handed : List (UInt32 × UInt64)
  sent : Nat → List (UInt32 × UInt64)
  log : Nat → List Comparison

namespace Watched

def start (active : Nat) (ip : String) (lastForwarded : UInt32) (stall lag minDwell : Nat) : Watched where
  core := Core.new active ip lastForwarded stall lag minDwell
  handed := []
  sent := fun _ => []
  log := fun _ => []

/-- The core has handed the node these blocks and is now `core`. -/
def hand (s : Watched) (core : Core) (handed : List (UInt32 × UInt64)) : Watched where
  core := core
  handed := s.handed ++ handed
  sent := s.sent
  log := fun j => s.log j ++ s.core.comparisons core.active j handed

/-- `id` has delivered a block. -/
def deliver (s : Watched) (id : Nat) (round : UInt32) (hash : UInt64) : Watched :=
  { s with sent := Function.update s.sent id (s.sent id ++ [(round, hash)]) }

/-- What a block that is not ahead of the node is compared with. -/
def late (s : Watched) (id : Nat) (round : UInt32) (hash : UInt64) : List Comparison :=
  if id ∈ s.core.ups ∧ round ≤ s.core.lastForwarded then
    (s.core.forwarded.get? round).toList.map fun f => ⟨round, hash, f.1⟩
  else []

def step (s : Watched) : Call → Option Watched
  | .op (.activeBlock round hash at_) =>
    let out := s.core.onActiveBlock round hash at_
    some ((s.deliver s.core.active round hash).hand out.1 (if out.2.1 then [(round, hash)] else []))
  | .op (.standbyBlock id round parent hash at_ frame) =>
    some { s.deliver id round hash with
      core := (s.core.onStandbyBlock id round parent hash at_ frame).1
      log := Function.update s.log id (s.log id ++ s.late id round hash) }
  | .op (.addStandby id ip) =>
    some { s with
      core := s.core.addStandby id ip
      sent := Function.update s.sent id []
      log := Function.update s.log id [] }
  | .op (.markPreferred id) => some (s.hand (s.core.markPreferred id) [])
  | .op (.remove id) => some (s.hand (s.core.remove id).2 [])
  | .switchTo id now =>
    if id = s.core.active then none
    else
      match s.core.switchTo id now with
      | none => some s
      | some (core, _, _) => some (s.hand core ((switched s.core id).map fun b => (b.round, b.hash)))

/-- A late block that matches is for a round not counted yet. -/
def Fresh (s : Watched) : Call → Prop
  | .op (.standbyBlock id round _ hash _ _) =>
    ∀ k ∈ s.late id round hash, k.equal = true → k.round ∉ (sinceMismatch (s.log id)).map Comparison.round
  | _ => True

instance decidableFresh (s : Watched) : (e : Call) → Decidable (Fresh s e)
  | .op (.standbyBlock id round _ hash _ _) =>
    inferInstanceAs (Decidable (∀ k ∈ s.late id round hash, k.equal = true →
      k.round ∉ (sinceMismatch (s.log id)).map Comparison.round))
  | .op (.activeBlock ..) | .op (.addStandby ..) | .op (.markPreferred _) | .op (.remove _) | .switchTo .. =>
    isTrue trivial

/-- At least `MIN_VERIFIED` different rounds for which, since the last comparison that
    differed, a block `id` delivered equalled the one the node got. -/
def Matched (s : Watched) (id : Nat) : Prop :=
  ∃ ks : List Comparison, ks <:+ s.log id ∧ (ks.map Comparison.round).Nodup ∧ MIN_VERIFIED ≤ ks.length ∧
    ∀ k ∈ ks, k.theirs = k.forwarded ∧ (k.round, k.theirs) ∈ s.sent id ∧ (k.round, k.forwarded) ∈ s.handed

/-! ## 5. The invariant -/

/-- The history is what the core acts on. -/
structure Genuine (s : Watched) : Prop where
  trimmed : s.core.Trimmed
  ahead : ∀ id u, s.core.ups.lookup id = some u → ∀ p ∈ u.ahead, (p.1, p.2.hash) ∈ s.sent id
  forwarded : ∀ r f, (r, f) ∈ s.core.forwarded → (r, f.1) ∈ s.handed
  sent : ∀ id, ∀ k ∈ s.log id, (k.round, k.theirs) ∈ s.sent id
  handed : ∀ id, ∀ k ∈ s.log id, (k.round, k.forwarded) ∈ s.handed
  upTo : ∀ id, ∀ k ∈ s.log id, k.round ≤ s.core.lastForwarded
  verified : ∀ id u, s.core.ups.lookup id = some u → u.verified = (sinceMismatch (s.log id)).length

/-- No round is counted twice. -/
def Distinct (s : Watched) : Prop := ∀ id, ((sinceMismatch (s.log id)).map Comparison.round).Nodup

theorem Genuine.start (active : Nat) (ip : String) (lastForwarded : UInt32) (stall lag minDwell : Nat) :
    Genuine (Watched.start active ip lastForwarded stall lag minDwell) := by
  refine ⟨Core.Trimmed.new active ip lastForwarded stall lag minDwell, ?_, ?_, nofun, nofun, nofun, ?_⟩
  · intro id u hu p hp
    obtain ⟨-, rfl⟩ := KeyMap.lookup_singleton_inv hu
    exact absurd hp (OrdMap.not_mem_empty p)
  · intro r f hf
    exact absurd hf (OrdMap.not_mem_empty _)
  · intro id u hu
    obtain ⟨-, rfl⟩ := KeyMap.lookup_singleton_inv hu
    rfl

theorem Genuine.deliver {s : Watched} (h : Genuine s) (id : Nat) (round : UInt32) (hash : UInt64) :
    Genuine (s.deliver id round hash) := by
  have hmem : ∀ j b, b ∈ s.sent j → b ∈ (s.deliver id round hash).sent j := by
    intro j b hb
    by_cases hj : j = id
    · subst hj
      simp only [Watched.deliver, Function.update_self]
      exact List.mem_append_left _ hb
    · simp only [Watched.deliver, Function.update_of_ne hj]
      exact hb
  exact { h with
    ahead := fun j u hu p hp => hmem j _ (h.ahead j u hu p hp)
    sent := fun j k hk => hmem j _ (h.sent j k hk) }

theorem Genuine.hand {s : Watched} (h : Genuine s) {core : Core} {handed : List (UInt32 × UInt64)}
    (hands : s.core.Hands core handed) : Genuine (s.hand core handed) := by
  refine ⟨hands.trimmed, ?_, ?_, ?_, ?_, ?_, ?_⟩
  · intro j v hv p hp
    obtain ⟨u, hu, hsub, -⟩ := hands.ups j v hv
    exact h.ahead j u hu p (hsub p hp)
  · intro r f hf
    rcases hands.forwarded r f hf with hf | hf
    · exact List.mem_append_left _ (h.forwarded r f hf)
    · exact List.mem_append_right _ hf
  · intro j k hk
    rcases List.mem_append.mp hk with hk | hk
    · exact h.sent j k hk
    · obtain ⟨-, u, hu, hk⟩ := Core.mem_comparisons hk
      obtain ⟨-, a, ha, hhash⟩ := mem_copies.mp hk
      rw [← hhash]
      exact h.ahead j u hu _ ha
  · intro j k hk
    rcases List.mem_append.mp hk with hk | hk
    · exact List.mem_append_left _ (h.handed j k hk)
    · obtain ⟨-, u, -, hk⟩ := Core.mem_comparisons hk
      exact List.mem_append_right _ (mem_copies.mp hk).1
  · intro j k hk
    rcases List.mem_append.mp hk with hk | hk
    · exact le_trans (h.upTo j k hk) hands.last
    · obtain ⟨-, u, -, hk⟩ := Core.mem_comparisons hk
      exact hands.upTo _ (mem_copies.mp hk).1
  · intro j v hv
    obtain ⟨u, hu, -, hverified⟩ := hands.ups j v hv
    rw [hverified, h.verified j u hu]
    exact Streak.count_current _ _

theorem Distinct.deliver {s : Watched} (h : Distinct s) {id : Nat} {round : UInt32} {hash : UInt64} :
    Distinct (s.deliver id round hash) := h

theorem Distinct.hand {s : Watched} (h : Distinct s) (hgenuine : Genuine s) {core : Core}
    {handed : List (UInt32 × UInt64)} (hands : s.core.Hands core handed) : Distinct (s.hand core handed) := by
  intro j
  have hsuffix := Streak.current_append_suffix (p := Comparison.equal) (s.log j)
    (s.core.comparisons core.active j handed)
  refine List.Nodup.sublist (hsuffix.sublist.map Comparison.round) ?_
  rw [List.map_append, List.nodup_append]
  refine ⟨h j, ?_, ?_⟩
  · unfold Core.comparisons
    split
    · exact List.nodup_nil
    · split
      · exact nodup_copies hands.increasing
      · exact List.nodup_nil
  · -- the rounds handed now are above those compared before
    intro r hr r' hr' heq
    obtain ⟨k, hk, rfl⟩ := List.mem_map.mp hr
    obtain ⟨k', hk', rfl⟩ := List.mem_map.mp hr'
    have hle := hgenuine.upTo j k ((List.rtakeWhile_suffix _ _).subset hk)
    have hlt := hands.new j k' hk'
    rw [← heq] at hlt
    exact absurd hle (not_le.mpr hlt)

theorem mem_late {s : Watched} {id : Nat} {round : UInt32} {hash : UInt64} {k : Comparison}
    (h : k ∈ s.late id round hash) :
    k.round = round ∧ k.theirs = hash ∧ round ≤ s.core.lastForwarded ∧
        ∃ at_, (round, (k.forwarded, at_)) ∈ s.core.forwarded := by
  unfold late at h
  split at h
  · rename_i hlate
    obtain ⟨f, hf, rfl⟩ := List.mem_map.mp h
    exact ⟨rfl, rfl, hlate.2, f.2, OrdMap.get?_eq_some.mp (Option.mem_toList.mp hf)⟩
  · cases h

theorem Genuine.standby {s : Watched} (h : Genuine s) (id : Nat) (round parent : UInt32) (hash : UInt64) (at_ : Nat)
    (frame : List UInt8) :
    Genuine { s.deliver id round hash with
      core := (s.core.onStandbyBlock id round parent hash at_ frame).1
      log := Function.update s.log id (s.log id ++ s.late id round hash) } := by
  have hsent := h.deliver id round hash
  have hdelivered : (round, hash) ∈ (s.deliver id round hash).sent id := by
    simp only [Watched.deliver, Function.update_self]
    exact List.mem_append_right _ (List.mem_singleton_self _)
  -- every comparison is an old one or that of this block
  have hlog : ∀ {j k}, k ∈ Function.update s.log id (s.log id ++ s.late id round hash) j →
      k ∈ s.log j ∨ j = id ∧ k ∈ s.late id round hash := by
    intro j k hk
    by_cases hj : j = id
    · subst hj
      rw [Function.update_self] at hk
      exact (List.mem_append.mp hk).imp_right fun hk => ⟨rfl, hk⟩
    · rw [Function.update_of_ne hj] at hk
      exact Or.inl hk
  obtain ⟨hforwarded, hlast⟩ := s.core.onStandbyBlock_frame id round parent hash at_ frame
  refine ⟨h.trimmed.onStandbyBlock id round parent hash at_ frame, ?_, ?_, ?_, ?_, ?_, ?_⟩
  · intro j v hv p hp
    rcases Core.lookup_onStandbyBlock hv with ⟨-, hv⟩ | ⟨rfl, u, hu, rfl⟩
    · exact hsent.ahead j v hv p hp
    · rcases Core.mem_ahead_standbyBlock hp with hp | rfl
      · exact hsent.ahead j u hu p hp
      · exact hdelivered
  · intro r f hf
    rw [hforwarded] at hf
    exact h.forwarded r f hf
  · intro j k hk
    rcases hlog hk with hk | ⟨rfl, hk⟩
    · exact hsent.sent j k hk
    · obtain ⟨hround, htheirs, -⟩ := mem_late hk
      rw [hround, htheirs]
      exact hdelivered
  · intro j k hk
    rcases hlog hk with hk | ⟨rfl, hk⟩
    · exact h.handed j k hk
    · obtain ⟨hround, -, -, at_, hforwarded⟩ := mem_late hk
      rw [hround]
      exact h.forwarded round _ hforwarded
  · intro j k hk
    rw [hlast]
    rcases hlog hk with hk | ⟨rfl, hk⟩
    · exact h.upTo j k hk
    · obtain ⟨hround, -, hle, -⟩ := mem_late hk
      rw [hround]
      exact hle
  · intro j v hv
    rcases Core.lookup_onStandbyBlock hv with ⟨hj, hv⟩ | ⟨rfl, u, hu, rfl⟩
    · simp only [Function.update_of_ne hj]
      exact h.verified j v hv
    · have hknown : j ∈ s.core.ups := AList.lookup_isSome.mp (Option.isSome_iff_exists.mpr ⟨u, hu⟩)
      simp only [Function.update_self]
      rw [Core.verified_standbyBlock, h.verified j u hu]
      refine (Streak.count_current _ _).trans ?_
      simp only [late, hknown, true_and, sinceMismatch]

theorem Distinct.standby {s : Watched} (h : Distinct s) {id : Nat} {round parent : UInt32} {hash : UInt64} {at_ : Nat}
    {frame : List UInt8} (hfresh : Fresh s (.op (.standbyBlock id round parent hash at_ frame))) (j : Nat) :
    ((sinceMismatch (Function.update s.log id (s.log id ++ s.late id round hash) j)).map Comparison.round).Nodup := by
  by_cases hj : j = id
  · subst hj
    rw [Function.update_self]
    rcases hlate : s.late j round hash with _ | ⟨k, _ | ⟨k', rest⟩⟩
    · rw [List.append_nil]
      exact h j
    · rw [sinceMismatch, Streak.current_concat]
      split
      · rename_i hequal
        rw [List.map_append, List.map_singleton, List.nodup_append]
        refine ⟨h j, List.nodup_singleton _, ?_⟩
        intro r hr r' hr' heq
        rw [List.mem_singleton.mp hr'] at heq
        subst heq
        exact hfresh k (hlate ▸ List.mem_singleton_self k) hequal hr
      · exact List.nodup_nil
    · -- a block is compared at most once
      unfold late at hlate
      split at hlate
      · cases hget : s.core.forwarded.get? round with
        | none => simp [hget] at hlate
        | some f => simp [hget] at hlate
      · cases hlate
  · rw [Function.update_of_ne hj]
    exact h j

theorem Genuine.add {s : Watched} (h : Genuine s) (id : Nat) (ip : String) :
    Genuine { s with
      core := s.core.addStandby id ip
      sent := Function.update s.sent id []
      log := Function.update s.log id [] } := by
  -- nothing is known of the new upstream, and the others stay
  have hlog : ∀ {j k}, k ∈ Function.update s.log id [] j → j ≠ id ∧ k ∈ s.log j := by
    intro j k hk
    by_cases hj : j = id
    · subst hj
      rw [Function.update_self] at hk
      cases hk
    · rw [Function.update_of_ne hj] at hk
      exact ⟨hj, hk⟩
  refine ⟨h.trimmed.addStandby id ip, ?_, h.forwarded, ?_, ?_, ?_, ?_⟩
  · intro j v hv p hp
    rcases KeyMap.lookup_insert_inv hv with ⟨rfl, rfl⟩ | ⟨hj, hv⟩
    · exact absurd hp (OrdMap.not_mem_empty p)
    · simp only [Function.update_of_ne hj]
      exact h.ahead j v hv p hp
  · intro j k hk
    obtain ⟨hj, hk⟩ := hlog hk
    simp only [Function.update_of_ne hj]
    exact h.sent j k hk
  · intro j k hk
    exact h.handed j k (hlog hk).2
  · intro j k hk
    exact h.upTo j k (hlog hk).2
  · intro j v hv
    rcases KeyMap.lookup_insert_inv hv with ⟨rfl, rfl⟩ | ⟨hj, hv⟩
    · simp only [Function.update_self]
      rfl
    · simp only [Function.update_of_ne hj]
      exact h.verified j v hv

/-- **One call keeps the history genuine**, and, unless a late block repeats a round, the
    rounds distinct. -/
theorem Genuine.step {s t : Watched} {e : Call} (h : Genuine s) (hs : Watched.step s e = some t) :
    Genuine t ∧ (Distinct s → Fresh s e → Distinct t) := by
  cases e with
  | op op =>
    cases op with
    | activeBlock round hash at_ =>
      cases hs
      have hsent := h.deliver s.core.active round hash
      have hands := Core.Hands.onActiveBlock h.trimmed round hash at_
      exact ⟨hsent.hand hands, fun hdistinct _ => hdistinct.deliver.hand hsent hands⟩
    | standbyBlock id round parent hash at_ frame =>
      cases hs
      exact ⟨h.standby id round parent hash at_ frame, fun hdistinct hfresh => hdistinct.standby hfresh⟩
    | addStandby id ip =>
      cases hs
      refine ⟨h.add id ip, fun hdistinct _ j => ?_⟩
      by_cases hj : j = id
      · subst hj
        simp only [Function.update_self]
        exact List.nodup_nil
      · simp only [Function.update_of_ne hj]
        exact hdistinct j
    | markPreferred id =>
      cases hs
      have hands := Core.Hands.markPreferred h.trimmed id
      exact ⟨h.hand hands, fun hdistinct _ => hdistinct.hand h hands⟩
    | remove id =>
      cases hs
      have hands := Core.Hands.remove h.trimmed id
      exact ⟨h.hand hands, fun hdistinct _ => hdistinct.hand h hands⟩
  | switchTo id now =>
    simp only [Watched.step] at hs
    split at hs
    · cases hs
    rename_i hid
    split at hs
    · cases hs
      exact ⟨h, fun hdistinct _ => hdistinct⟩
    · rename_i hsw
      cases hs
      have hands := Core.Hands.switchTo h.trimmed hid hsw
      exact ⟨h.hand hands, fun hdistinct _ => hdistinct.hand h hands⟩

/-- What a full counter stands for. -/
theorem Genuine.matched {s : Watched} (h : Genuine s) (hdistinct : Distinct s) {id : Nat} {u : Upstream}
    (hu : s.core.ups.lookup id = some u) (hverified : MIN_VERIFIED ≤ u.verified) : Matched s id := by
  have hsuffix : sinceMismatch (s.log id) <:+ s.log id := List.rtakeWhile_suffix _ _
  refine ⟨sinceMismatch (s.log id), hsuffix, hdistinct id, ?_, ?_⟩
  · rw [← h.verified id u hu]
    exact hverified
  · intro k hk
    have hmem := hsuffix.subset hk
    have hequal : k.equal = true := List.mem_rtakeWhile_imp hk
    exact ⟨eq_of_beq hequal, h.sent id k hmem, h.handed id k hmem⟩

end Watched

/-- **A picked standby has matched three different blocks**, in every run in which no late
    block of a standby repeats a round already counted for it. -/
theorem picked_standby_matched (active : Nat) (ip : String) (lastForwarded : UInt32) (stall lag minDwell : Nat)
    (es : List Call) (s : Watched)
    (hrun : Machine.Run Watched.step Watched.Fresh (Watched.start active ip lastForwarded stall lag minDwell) es s)
    (now : Nat) (activeDead : Bool) (id : Nat) (reason : SwitchReason)
    (hpick : s.core.pickSwitch now activeDead = some (id, reason)) : s.Matched id := by
  have hinv : s.Genuine ∧ s.Distinct := by
    refine hrun.invariant (I := fun s => s.Genuine ∧ s.Distinct)
      ⟨Watched.Genuine.start active ip lastForwarded stall lag minDwell, fun _ => List.nodup_nil⟩ ?_
    rintro a e b ⟨hgenuine, hdistinct⟩ hok hs
    obtain ⟨hgenuine', hdistinct'⟩ := hgenuine.step hs
    exact ⟨hgenuine', hdistinct' hdistinct hok⟩
  obtain ⟨u, n, firstAt, hready⟩ := (Core.pickSwitch_policy hpick).ready
  exact hinv.1.matched hinv.2 hready.known hready.verified

/-- Three rounds matched, one of them late. -/
def matchedRounds : List Call :=
  [.op (.addStandby 1 "b"), .op (.standbyBlock 1 11 10 111 0 []), .op (.standbyBlock 1 12 11 112 0 []),
    .op (.activeBlock 11 111 0), .op (.activeBlock 12 112 0), .op (.activeBlock 13 113 0),
    .op (.standbyBlock 1 13 12 113 0 []), .op (.standbyBlock 1 14 13 114 0 [])]

theorem picked_standby_matched_matchedRounds :
    ∃ s, Machine.Run Watched.step Watched.Fresh (Watched.start 0 "a" 10 400000000 150000000 10000000000) matchedRounds s ∧
      s.core.pickSwitch 1000000000 true = some (1, .activeDead) ∧ s.Matched 1 := by
  have hexec : (Machine.exec Watched.step Watched.Fresh (Watched.start 0 "a" 10 400000000 150000000 10000000000)
      matchedRounds).map (fun s => s.core.pickSwitch 1000000000 true) = some (some (1, .activeDead)) := by
    decide
  obtain ⟨s, hs, hpick⟩ := Option.map_eq_some_iff.mp hexec
  have hrun := Machine.Run.of_exec hs
  exact ⟨s, hrun, hpick, picked_standby_matched 0 "a" 10 400000000 150000000 10000000000 matchedRounds s hrun
    1000000000 true 1 .activeDead hpick⟩

/-- One block, delivered three times after the node got it. -/
def resentBlock : List Call :=
  [.op (.addStandby 1 "b"), .op (.activeBlock 11 111 0), .op (.standbyBlock 1 11 10 111 0 []),
    .op (.standbyBlock 1 11 10 111 0 []), .op (.standbyBlock 1 11 10 111 0 []), .op (.standbyBlock 1 12 11 999 0 [])]

/-- A standby that sent one of the node's blocks over and over is picked, and hands the node
    its next one. -/
theorem resent_block_is_trusted :
    ∃ s, Machine.Run Watched.step (fun _ _ => True) (Watched.start 0 "a" 10 400000000 150000000 10000000000) resentBlock s ∧
      s.core.pickSwitch 1000000000 true = some (1, .activeDead) ∧
      s.sent 1 = [(11, 111), (11, 111), (11, 111), (12, 999)] ∧ s.handed = [(11, 111)] ∧ ¬ s.Matched 1 := by
  have hexec : (Machine.exec Watched.step (fun _ _ => True)
      (Watched.start 0 "a" 10 400000000 150000000 10000000000) resentBlock).map
        (fun s => (s.core.pickSwitch 1000000000 true, s.sent 1, s.handed)) =
      some (some (1, .activeDead), [(11, 111), (11, 111), (11, 111), (12, 999)], [(11, 111)]) := by
    decide
  obtain ⟨s, hs, hout⟩ := Option.map_eq_some_iff.mp hexec
  obtain ⟨hpick, hsent, hhanded⟩ : _ ∧ _ ∧ _ := by simpa using hout
  refine ⟨s, Machine.Run.of_exec hs, hpick, hsent, hhanded, ?_⟩
  rintro ⟨ks, -, hdistinct, hlength, hks⟩
  -- whatever was compared equal was round 11
  have hround : ∀ k ∈ ks, k.round = 11 := by
    intro k hk
    obtain ⟨-, -, hmem⟩ := hks k hk
    rw [hhanded, List.mem_singleton] at hmem
    exact congrArg Prod.fst hmem
  rcases ks with _ | ⟨k, _ | ⟨k', rest⟩⟩
  · exact absurd hlength (by decide)
  · exact absurd hlength (by simp [MIN_VERIFIED])
  · rw [List.map_cons, List.map_cons, List.nodup_cons, hround k (by simp), hround k' (by simp)] at hdistinct
    exact hdistinct.1 List.mem_cons_self

end Hypersync.Failover
