import Hypersync.Failover.Run

/-!
# What a switch hands the node

With unbroken streams (every block's parent is the block before it) the blocks
handed to the node form one parent-linked chain, across every switch and
whatever the buffer limits discarded: a standby that dropped nothing the node
still misses has buffered its stream above the node's last block, block for
block, and the whole of it is replayed.

With blocks missing from the streams a switch replays only the linked run at the
front of the buffer.  What lies behind a hole stays there and is never sent;
`switch_loses_no_block_iff` says exactly when that happens.
-/

namespace Hypersync.Failover

/-! ## 1. A buffer is a suffix of its stream -/

theorem eq_of_round_eq {past : List Block} (hinc : past.Pairwise fun a b => a.round < b.round)
    {a b : Block} (ha : a ∈ past) (hb : b ∈ past) (heq : a.round = b.round) : a = b := by
  induction past with
  | nil => cases ha
  | cons x rest ih =>
    rw [List.pairwise_cons] at hinc
    rcases List.mem_cons.mp ha with rfl | ha' <;> rcases List.mem_cons.mp hb with hb' | hb'
    · exact hb'.symm
    · exact absurd heq (ne_of_lt (hinc.1 b hb'))
    · subst hb'
      exact absurd heq (ne_of_gt (hinc.1 a ha'))
    · exact ih hinc.2 ha' hb'

/-- A standby that dropped nothing the node still misses buffers its stream above
    the node's last block, block for block. -/
theorem buffer_eq_filter {s : State} (h : Inv s) {id : Nat} {u : Upstream}
    (hu : s.core.ups.lookup id = some u) (hne : id ≠ s.core.active)
    (hdrop : u.droppedMax ≤ s.core.lastForwarded) :
    u.ahead.entries.map Block.ofAhead =
      (s.delivered id).filter fun b => s.core.lastForwarded < b.round := by
  have hleft : (u.ahead.entries.map Block.ofAhead).Pairwise fun a b => a.round < b.round :=
    List.pairwise_map.mpr u.ahead.sorted
  have hright := (h.increasing id).filter fun b => s.core.lastForwarded < b.round
  have hnodup : ∀ {l : List Block}, (l.Pairwise fun a b => a.round < b.round) → l.Nodup := by
    intro l hl
    exact hl.imp fun hlt heq => absurd (congrArg Block.round heq) (ne_of_lt hlt)
  refine List.Perm.eq_of_pairwise ?_ hleft hright ?_
  · intro a b _ _ hab hba
    exact absurd hab (lt_asymm hba)
  rw [List.perm_ext_iff_of_nodup (hnodup hleft) (hnodup hright)]
  intro b
  simp only [List.mem_map, List.mem_filter, decide_eq_true_eq]
  constructor
  · rintro ⟨p, hp, rfl⟩
    exact ⟨(h.tracks id u hu).src p hp, h.above id u hu hne p hp⟩
  · rintro ⟨hb, hlt⟩
    rcases (h.tracks id u hu).covered b hb hlt with ⟨a, ha⟩ | hle
    · exact ⟨(b.round, a), ha, eq_of_round_eq (h.increasing id) ((h.tracks id u hu).src _ ha) hb rfl⟩
    · exact absurd (le_trans hle hdrop) (not_le.mpr hlt)

theorem filter_suffix {past : List Block} (hinc : past.Pairwise fun a b => a.round < b.round)
    (last : UInt32) : (past.filter fun b => last < b.round) <:+ past := by
  induction past with
  | nil => exact List.suffix_refl []
  | cons x rest ih =>
    rw [List.pairwise_cons] at hinc
    by_cases hlt : last < x.round
    · have hall : (x :: rest).filter (fun b => last < b.round) = x :: rest := by
        apply List.filter_eq_self.mpr
        intro b hb
        rcases List.mem_cons.mp hb with rfl | hb
        · exact decide_eq_true hlt
        · exact decide_eq_true (lt_trans hlt (hinc.1 b hb))
      rewrite [hall]
      exact List.suffix_refl _
    · rw [List.filter_cons_of_neg (by simpa using hlt)]
      exact (ih hinc.2).trans (List.suffix_cons x rest)

/-! ## 2. Unbroken streams -/

/-- A linked buffer whose first block continues the node's chain is replayed whole. -/
theorem chainPrefix_eq_self : ∀ {l : List (UInt32 × Ahead)} {cur : UInt32},
    (l.map Block.ofAhead).IsChain (fun a b => b.parent = a.round) →
    (∀ b ∈ (l.map Block.ofAhead).head?, b.parent = cur) → Upstream.chainPrefix cur l = l := by
  intro l
  induction l with
  | nil =>
    intro cur _ _
    rfl
  | cons p rest ih =>
    intro cur hchain hhead
    obtain ⟨r, a⟩ := p
    rw [List.map_cons, List.isChain_cons] at hchain
    have hparent : a.parent = cur := hhead (Block.ofAhead (r, a)) rfl
    have hrest : Upstream.chainPrefix r rest = rest := ih hchain.2 hchain.1
    rw [Upstream.chainPrefix, if_pos hparent, hrest]

theorem head_parent_of_chainPrefix {l : List (UInt32 × Ahead)} {cur : UInt32}
    (h : Upstream.chainPrefix cur l ≠ []) : ∀ b ∈ (l.map Block.ofAhead).head?, b.parent = cur := by
  rcases l with _ | ⟨⟨r, a⟩, rest⟩
  · intro b hb
    cases hb
  rw [Upstream.chainPrefix] at h
  split at h
  · rename_i hparent
    intro b hb
    rw [List.map_cons, List.head?_cons, Option.mem_some_iff] at hb
    rw [← hb]
    exact hparent
  · exact absurd rfl h

/-- The invariant of unbroken streams: what the node was handed is one chain, and
    it ends where the active's stream is. -/
structure ChainInv (s : State) : Prop extends Inv s where
  linked : ∀ id, (s.delivered id).IsChain Linked
  handedLinked : s.handed.IsChain fun a b => b.parent = a.round
  handedLast : ∀ b ∈ s.handed.getLast?, b.round = s.core.lastForwarded
  activeLast : s.handed ≠ [] →
    ∃ b, (s.delivered s.core.active).getLast? = some b ∧ b.round = s.core.lastForwarded

theorem ChainInv.init (active : Nat) (ip : String) (last : UInt32) (stall lag minDwell : Nat) :
    ChainInv (State.init active ip last stall lag minDwell) where
  toInv := Inv.init active ip last stall lag minDwell
  linked := fun _ => List.IsChain.nil
  handedLinked := List.IsChain.nil
  handedLast := by
    intro b hb
    cases hb
  activeLast := by
    intro hne
    exact absurd rfl hne

theorem linked_update {delivered : Nat → List Block} {id : Nat} {b : Block}
    (hlinked : ∀ id, (delivered id).IsChain Linked) (hok : Follows Linked (delivered id) b) (j : Nat) :
    (Function.update delivered id (delivered id ++ [b]) j).IsChain Linked := by
  by_cases hj : j = id
  · subst hj
    rw [Function.update_self]
    refine List.isChain_append.mpr ⟨hlinked j, List.isChain_singleton b, ?_⟩
    intro p hp b' hb'
    rw [List.head?_cons, Option.mem_some_iff] at hb'
    rw [← hb']
    exact hok p hp
  · rw [Function.update_of_ne hj]
    exact hlinked j

theorem ChainInv.active {s : State} (h : ChainInv s) {b : Block} {at_ : Nat}
    (hok : Follows Linked (s.delivered s.core.active) b) {t : State}
    (hs : step s (.active b at_) = some t) : ChainInv t := by
  have hinv := h.toInv.active (fun p hp => (hok p hp).lt) hs
  simp only [step, Option.some.injEq] at hs
  subst hs
  obtain ⟨hact, hcase, -⟩ := Core.onActiveBlock_spec s.core b.round b.hash at_
  rcases hcase with ⟨-, hle, hfalse, heq⟩ | ⟨-, htrue, heq⟩
  · -- a block the node has: then nothing was handed yet
    have hnone : s.handed = [] := by
      by_contra hne
      obtain ⟨p, hp, hround⟩ := h.activeLast hne
      have hlt := (hok p hp).lt
      rw [hround] at hlt
      exact absurd hle (not_le.mpr hlt)
    simp only [hfalse, Bool.false_eq_true, if_false] at hinv ⊢
    refine ⟨hinv, linked_update h.linked hok, h.handedLinked, ?_, fun hne => absurd hnone hne⟩
    simp only [hnone]
    intro b hb
    cases hb
  · simp only [htrue, if_true] at hinv ⊢
    refine ⟨hinv, linked_update h.linked hok, ?_, ?_, ?_⟩
    · refine List.isChain_append.mpr ⟨h.handedLinked, List.isChain_singleton b, ?_⟩
      intro z hz b' hb'
      rw [List.head?_cons, Option.mem_some_iff] at hb'
      have hne : s.handed ≠ [] := by
        intro hnil
        rw [hnil] at hz
        cases hz
      obtain ⟨p, hp, hround⟩ := h.activeLast hne
      rw [← hb', (hok p hp).2, hround, h.handedLast z hz]
    · intro z hz
      rw [List.getLast?_concat, Option.mem_some_iff] at hz
      rw [← hz]
      exact heq.symm
    · intro _
      simp only [hact, Function.update_self, List.getLast?_concat]
      exact ⟨b, rfl, heq.symm⟩

theorem ChainInv.standby {s : State} (h : ChainInv s) {id : Nat} {b : Block} {at_ : Nat}
    (hok : Follows Linked (s.delivered id) b) {t : State}
    (hs : step s (.standby id b at_) = some t) : ChainInv t := by
  have hinv := h.toInv.standby (fun p hp => (hok p hp).lt) hs
  obtain ⟨hne, ⟨u, hu⟩, rfl⟩ := step_standby_inv hs
  obtain ⟨hact, hlf, -⟩ := Core.onStandbyBlock_spec hu b.round b.parent b.hash at_ b.frame
  refine ⟨hinv, linked_update h.linked hok, h.handedLinked, ?_, ?_⟩
  · simp only [hlf]
    exact h.handedLast
  · simp only [hact, hlf, Function.update_of_ne (Ne.symm hne)]
    exact h.activeLast

theorem ChainInv.add {s : State} (h : ChainInv s) {id : Nat} {ip : String} {t : State}
    (hs : step s (.add id ip) = some t) : ChainInv t := by
  have hinv := h.toInv.add hs
  obtain ⟨hne, rfl⟩ := step_add_inv hs
  refine ⟨hinv, ?_, h.handedLinked, h.handedLast, ?_⟩
  · intro j
    by_cases hj : j = id
    · subst hj
      simp only [Function.update_self]
      exact List.IsChain.nil
    · simp only [Function.update_of_ne hj]
      exact h.linked j
  · simp only [Core.addStandby, Function.update_of_ne (Ne.symm hne)]
    exact h.activeLast

theorem ChainInv.remove {s : State} (h : ChainInv s) {id : Nat} {t : State}
    (hs : step s (.remove id) = some t) : ChainInv t := by
  have hinv := h.toInv.remove hs
  obtain ⟨-, rfl⟩ := step_remove_inv hs
  exact ⟨hinv, h.linked, h.handedLinked, h.handedLast, h.activeLast⟩

/-- With unbroken streams a switch empties the buffer: the replayed chain is
    everything the standby delivered above the node's last block. -/
theorem ChainInv.chain_eq_filter {s : State} (h : ChainInv s) {id : Nat} {u : Upstream}
    (hu : s.core.ups.lookup id = some u) (hne : id ≠ s.core.active)
    (hdrop : u.droppedMax ≤ s.core.lastForwarded)
    (hchain : Upstream.chainPrefix s.core.lastForwarded u.ahead.entries ≠ []) :
    (Upstream.chainPrefix s.core.lastForwarded u.ahead.entries).map Block.ofAhead =
      (s.delivered id).filter fun b => s.core.lastForwarded < b.round := by
  have hbuf := buffer_eq_filter h.toInv hu hne hdrop
  rw [← hbuf]
  congr 1
  refine chainPrefix_eq_self ?_ ?_
  · rw [hbuf]
    exact ((h.linked id).suffix (filter_suffix (h.increasing id) _)).imp fun a b hab => hab.2
  · exact head_parent_of_chainPrefix hchain

theorem ChainInv.switch {s : State} (h : ChainInv s) {id now : Nat} {t : State}
    (hs : step s (.switch id now) = some t) : ChainInv t := by
  have hinv := h.toInv.switch hs
  obtain ⟨hne, rfl | ⟨core, frames, bad, hsw, rfl⟩⟩ := step_switch_inv hs
  · exact h
  obtain ⟨u, hu, hdrop, hchain, hact, hlast, hswitched, -⟩ := switchTo_spec h.toInv hne hsw
  obtain ⟨hhead, hlinked⟩ := chainPrefix_linked u.ahead.entries s.core.lastForwarded
  have hfilter := h.chain_eq_filter hu hne hdrop hchain
  obtain ⟨z, hz, hzround⟩ := Option.map_eq_some_iff.mp hlast
  have hzmap : ((Upstream.chainPrefix s.core.lastForwarded u.ahead.entries).map
      Block.ofAhead).getLast? = some (Block.ofAhead z) := by
    rw [List.getLast?_map, hz, Option.map_some]
  refine ⟨hinv, h.linked, ?_, ?_, ?_⟩
  · rw [hswitched]
    refine List.isChain_append.mpr ⟨h.handedLinked, hlinked, ?_⟩
    intro p hp b hb
    rw [hhead b hb, h.handedLast p hp]
  · intro b hb
    rw [hswitched, List.getLast?_append, hzmap, Option.some_or, Option.mem_some_iff] at hb
    rw [← hb]
    exact hzround
  · -- the last replayed block is the last block the standby delivered
    intro _
    obtain ⟨front, hfront⟩ := filter_suffix (h.increasing id) s.core.lastForwarded
    rw [hfilter] at hzmap
    simp only [hact]
    refine ⟨Block.ofAhead z, ?_, hzround⟩
    rw [← hfront, List.getLast?_append, hzmap, Option.some_or]

theorem ChainInv.step {s t : State} {e : Event} (h : ChainInv s) (hok : Streams Linked s e)
    (hs : step s e = some t) : ChainInv t := by
  cases e with
  | active b at_ => exact h.active hok hs
  | standby id b at_ => exact h.standby hok hs
  | add id ip => exact h.add hs
  | remove id => exact h.remove hs
  | switch id now => exact h.switch hs

/-- **The node's chain is gap-free across every switch.**  When every upstream's
    stream is unbroken, each block handed to the node has as its parent the block
    handed just before it. -/
theorem handed_blocks_are_parent_linked (active : Nat) (ip : String) (last : UInt32)
    (stall lag minDwell : Nat) (events : List Event) (s : State)
    (hrun : Machine.Run step (Streams Linked) (State.init active ip last stall lag minDwell) events s) :
    s.handed.IsChain fun a b => b.parent = a.round :=
  (hrun.invariant (ChainInv.init active ip last stall lag minDwell)
    fun _ _ _ h hok hs => h.step hok hs).handedLinked

/-- Two upstreams with the same blocks: the standby runs ahead and takes over. -/
def takeover : List Event :=
  [.add 1 "192.0.2.1", .active ⟨101, 100, 7, [1]⟩ 10, .standby 1 ⟨101, 100, 7, [1]⟩ 20,
    .standby 1 ⟨102, 101, 8, [2]⟩ 30, .standby 1 ⟨103, 102, 9, [3]⟩ 40, .switch 1 50,
    .active ⟨104, 103, 6, [4]⟩ 60]

theorem handed_blocks_are_parent_linked_takeover :
    ∃ s, Machine.Run step (Streams Linked) (State.init 0 "192.0.2.0" 100 0 0 0) takeover s ∧
      s.handed.map Block.round = [101, 102, 103, 104] ∧
      s.handed.IsChain fun a b => b.parent = a.round := by
  have hexec : (Machine.exec step (Streams Linked) (State.init 0 "192.0.2.0" 100 0 0 0)
      takeover).map (fun s => s.handed.map Block.round) = some [101, 102, 103, 104] := by
    decide
  obtain ⟨s, hs, hrounds⟩ := Option.map_eq_some_iff.mp hexec
  have hrun := Machine.Run.of_exec hs
  exact ⟨s, hrun, hrounds, handed_blocks_are_parent_linked 0 "192.0.2.0" 100 0 0 0 takeover s hrun⟩

/-! ## 3. Streams with blocks missing -/

/-- If the switch to `id` succeeds, no block `id` delivered above the node's new
    last block is left in its buffer, and the next block of `id`, if its parent was
    delivered by `id`, has that parent handed to the node. -/
def LosesNothing (s : State) (id now : Nat) : Prop :=
  ∀ core frames bad, s.core.switchTo id now = some (core, frames, bad) →
    (∃ v, core.ups.lookup id = some v ∧
      ∀ b ∈ s.delivered id, core.lastForwarded < b.round → ¬ v.Holds b.round) ∧
    ∀ b, Follows Gapped (s.delivered id) b →
      ∀ p ∈ s.delivered id, p.round = b.parent → p ∈ s.handed ++ switched s.core id

/-- The buffer of `id` has no hole behind a first block that continues the node's
    chain. -/
def SwitchSafe (s : State) (id : Nat) : Prop :=
  ∀ u, s.core.ups.lookup id = some u → u.droppedMax ≤ s.core.lastForwarded →
    (∀ b ∈ (u.ahead.entries.map Block.ofAhead).head?, b.parent = s.core.lastForwarded) →
    (u.ahead.entries.map Block.ofAhead).IsChain fun a b => b.parent = a.round

theorem lookup_after_switch {c c' : Core} {id now : Nat} {frames : List (List UInt8)}
    {bad : List (Nat × UInt32)} (hmem : id ∈ c.ups) (hsw : c.switchTo id now = some (c', frames, bad)) :
    ∃ v, c'.ups.lookup id = some v := by
  refine Option.isSome_iff_exists.mp (AList.lookup_isSome.mpr ?_)
  rw [AList.mem_keys, Core.switchTo_keys hsw, ← AList.mem_keys]
  exact hmem

/-- A hole leaves the blocks behind it in the buffer. -/
theorem switchSafe_of_losesNothing {s : State} (h : Inv s) {id now : Nat} (hne : id ≠ s.core.active)
    (hloses : LosesNothing s id now) : SwitchSafe s id := by
  intro u hu hdrop hhead
  have habove := h.above id u hu hne
  obtain ⟨hchain, -, -⟩ := Upstream.takeChain_spec (Nat.le_refl _) habove
  rcases hsw : s.core.switchTo id now with _ | ⟨core, frames, bad⟩
  · -- refused: the buffer is empty
    rcases (Core.switchTo_eq_none hu).mp hsw with hlt | hnil
    · exact absurd hdrop (not_le.mpr hlt)
    · rw [hchain] at hnil
      rcases hentries : u.ahead.entries with _ | ⟨⟨r, a⟩, rest⟩
      · exact List.IsChain.nil
      · have hparent : a.parent = s.core.lastForwarded := by
          rw [hentries] at hhead
          exact hhead (Block.ofAhead (r, a)) rfl
        rw [hentries, Upstream.chainPrefix, if_pos hparent] at hnil
        cases hnil
  obtain ⟨v, hv, hnone⟩ := (hloses core frames bad hsw).1
  obtain ⟨u', hu', -, -, -, hlast, -, hups⟩ := switchTo_spec h hne hsw
  rw [hu, Option.some.injEq] at hu'
  subst hu'
  obtain ⟨-, -, hleft⟩ := chain_bounds habove hlast
  obtain ⟨rest, hsplit⟩ := chainPrefix_prefix u.ahead.entries s.core.lastForwarded
  have hrest : rest = [] := by
    rcases rest with _ | ⟨p, rest⟩
    · rfl
    exfalso
    have hp : p ∈ u.ahead.entries.drop
        (Upstream.chainPrefix s.core.lastForwarded u.ahead.entries).length := by
      have hdrop := congrArg
        (List.drop (Upstream.chainPrefix s.core.lastForwarded u.ahead.entries).length) hsplit
      rw [List.drop_left] at hdrop
      rw [← hdrop]
      exact List.mem_cons_self
    obtain ⟨hp', hlt⟩ := (hleft p).mp hp
    rcases hups id v hv with ⟨-, -, hmem⟩ | ⟨hid, -⟩
    · exact hnone (Block.ofAhead p) ((h.tracks id u hu).src p hp') hlt ⟨p.2, (hmem p).mpr hp⟩
    · exact hid rfl
  rw [hrest, List.append_nil] at hsplit
  have hlinked := (chainPrefix_linked u.ahead.entries s.core.lastForwarded).2
  rwa [hsplit] at hlinked

theorem losesNothing_of_switchSafe {s : State} (h : Inv s) {id now : Nat} (hne : id ≠ s.core.active)
    (hmem : id ∈ s.core.ups) (hsafe : SwitchSafe s id) : LosesNothing s id now := by
  intro core frames bad hsw
  obtain ⟨u, hu, hdrop, hnil, -, -, hswitched, hups⟩ := switchTo_spec h hne hsw
  have hhead := head_parent_of_chainPrefix hnil
  have hall := chainPrefix_eq_self (hsafe u hu hdrop hhead) hhead
  have hbuf := buffer_eq_filter h hu hne hdrop
  rw [hall] at hnil hswitched
  constructor
  · obtain ⟨v, hv⟩ := lookup_after_switch hmem hsw
    refine ⟨v, hv, ?_⟩
    rintro b - - ⟨a, ha⟩
    rcases hups id v hv with ⟨-, -, hleft⟩ | ⟨hid, -⟩
    · have hmem' := (hleft _).mp ha
      rw [hall, List.drop_length] at hmem'
      cases hmem'
    · exact hid rfl
  · intro b hb p hp hparent
    obtain ⟨front, hfront⟩ := filter_suffix (h.increasing id) s.core.lastForwarded
    rw [← hbuf] at hfront
    -- the last buffered block is the last one delivered, so only it can be the parent
    obtain ⟨z, hz⟩ : ∃ z, (u.ahead.entries.map Block.ofAhead).getLast? = some z := by
      rcases hentries : u.ahead.entries with _ | ⟨q, rest⟩
      · exact absurd hentries hnil
      · exact ⟨_, List.getLast?_cons⟩
    have hzlast : (s.delivered id).getLast? = some z := by
      rw [← hfront, List.getLast?_append, hz, Option.some_or]
    have hle := (hb z hzlast).1
    obtain ⟨init, hinit⟩ := List.getLast?_eq_some_iff.mp hzlast
    have hpz : p.round ≤ z.round := by
      have hinc := h.increasing id
      rw [hinit] at hinc hp
      rcases List.mem_append.mp hp with hp | hp
      · exact ((List.pairwise_append.mp hinc).2.2 p hp z (by simp)).le
      · rw [List.mem_singleton.mp hp]
    have heq : p = z := by
      refine eq_of_round_eq (h.increasing id) hp (List.mem_of_getLast? hzlast) ?_
      rw [← hparent] at hle
      exact le_antisymm hpz hle
    rw [heq, hswitched]
    exact List.mem_append_right _ (List.mem_of_getLast? hz)

/-- **When a switch loses nothing.**  In every state reached with streams from which
    blocks may be missing, a switch to a standby leaves none of its blocks behind
    exactly when its buffer has no hole behind a first block that continues the
    node's chain. -/
theorem switch_loses_no_block_iff (active : Nat) (ip : String) (last : UInt32)
    (stall lag minDwell : Nat) (events : List Event) (s : State)
    (hrun : Machine.Run step (Streams Gapped) (State.init active ip last stall lag minDwell) events s)
    (id now : Nat) (hne : id ≠ s.core.active) (hmem : id ∈ s.core.ups) :
    LosesNothing s id now ↔ SwitchSafe s id := by
  have hinv := hrun.invariant (Inv.init active ip last stall lag minDwell)
    fun _ _ _ h hok hs => h.step (fun _ _ hlink => hlink.lt) hok hs
  exact ⟨switchSafe_of_losesNothing hinv hne, losesNothing_of_switchSafe hinv hne hmem⟩

/-- The standby matches the active three times, then delivers 111 and, with 112
    missing from its stream, 113. -/
def holeRun : List Event :=
  [.add 1 "192.0.2.1", .active ⟨108, 107, 8, [8]⟩ 1, .standby 1 ⟨108, 107, 8, [8]⟩ 2,
    .active ⟨109, 108, 9, [9]⟩ 3, .standby 1 ⟨109, 108, 9, [9]⟩ 4,
    .active ⟨110, 109, 10, [10]⟩ 5, .standby 1 ⟨110, 109, 10, [10]⟩ 6,
    .standby 1 ⟨111, 110, 11, [11]⟩ 7, .standby 1 ⟨113, 112, 13, [13]⟩ 8]

theorem holeRun_isSome :
    (Machine.exec step (Streams Gapped) (State.init 0 "192.0.2.0" 107 0 0 0) holeRun).isSome = true := by
  decide

/-- The state after `holeRun`. -/
def holeState : State :=
  (Machine.exec step (Streams Gapped) (State.init 0 "192.0.2.0" 107 0 0 0) holeRun).get holeRun_isSome

theorem run_holeState :
    Machine.Run step (Streams Gapped) (State.init 0 "192.0.2.0" 107 0 0 0) holeRun holeState :=
  Machine.Run.of_exec (Option.some_get holeRun_isSome).symm

theorem switch_loses_no_block_iff_holeState : LosesNothing holeState 1 9 ↔ SwitchSafe holeState 1 :=
  switch_loses_no_block_iff 0 "192.0.2.0" 107 0 0 0 holeRun holeState run_holeState 1 9
    (by decide) (by decide)

/-- **A block is left behind.**  The core itself picks the standby, the switch
    replays 111 and keeps 113, and the standby's next block 114 goes to the node
    without its parent. -/
theorem switch_leaves_a_delivered_block_behind :
    Machine.Run step (Streams Gapped) (State.init 0 "192.0.2.0" 107 0 0 0) holeRun holeState ∧
    holeState.core.pickSwitch 9 true = some (1, .activeDead) ∧
    (Machine.exec step (Streams Gapped) holeState
        [.switch 1 9, .active ⟨114, 113, 14, [14]⟩ 10]).map (fun t => t.handed.map Block.round) =
      some [108, 109, 110, 111, 114] ∧
    ¬ LosesNothing holeState 1 9 := by
  refine ⟨run_holeState, by decide, by decide, ?_⟩
  intro hloses
  have hswitch : (holeState.core.switchTo 1 9).map (fun out => (out.1.lastForwarded,
      (out.1.ups.lookup 1).map (fun v => v.ahead.entries.map Prod.fst))) = some (111, some [113]) := by
    decide
  obtain ⟨⟨core, frames, bad⟩, hsw, hcore⟩ := Option.map_eq_some_iff.mp hswitch
  obtain ⟨⟨v, hv, hnone⟩, -⟩ := hloses core frames bad hsw
  rw [hv, Option.map_some, Prod.mk.injEq, Option.some.injEq] at hcore
  refine hnone ⟨113, 112, 13, [13]⟩ (by decide) (by rw [hcore.1]; decide) ?_
  have hmem : (113 : UInt32) ∈ v.ahead.entries.map Prod.fst := by
    rw [hcore.2]
    exact List.mem_singleton.mpr rfl
  obtain ⟨⟨r, a⟩, hp, rfl⟩ := List.mem_map.mp hmem
  exact ⟨a, hp⟩

end Hypersync.Failover
