import Hypersync.Failover.Effects
import Hypersync.Lib.Machine
import Mathlib.Data.List.Chain
import Mathlib.Logic.Function.Basic

/-!
# Whole runs of the failover core

A run interleaves blocks of the active and of the standbys with standbys coming,
going and taking over.  Next to the core the state keeps two histories the code
does not: what each upstream has delivered since it was added, and what the node
was handed.

Everything rests on one invariant (`Inv`), for streams with increasing rounds:
a standby's buffer is exactly the part of its stream above the node's last block,
except for rounds at or below the highest one dropped for space.
-/

namespace Hypersync.Failover

/-! ## 1. The machine -/

structure Block where
  round : UInt32
  parent : UInt32
  hash : UInt64
  frame : List UInt8
deriving DecidableEq, Repr

def Block.ofAhead (p : UInt32 × Ahead) : Block := ⟨p.1, p.2.parent, p.2.hash, p.2.frame⟩

structure State where
  core : Core
  delivered : Nat → List Block
  handed : List Block

/-- A session starts on one upstream; nothing has been delivered yet. -/
def State.init (active : Nat) (ip : String) (lastForwarded : UInt32) (stall lag minDwell : Nat) : State where
  core := Core.new active ip lastForwarded stall lag minDwell
  delivered := fun _ => []
  handed := []

inductive Event where
  | active (b : Block) (at_ : Nat)
  | standby (id : Nat) (b : Block) (at_ : Nat)
  | add (id : Nat) (ip : String)
  | remove (id : Nat)
  | switch (id now : Nat)

/-- The blocks a successful switch to `id` hands the node. -/
def switched (c : Core) (id : Nat) : List Block :=
  match c.ups.lookup id with
  | some u => (u.takeChain u.ahead.size c.lastForwarded).1.map Block.ofAhead
  | none => []

def step (s : State) : Event → Option State
  | .active b at_ =>
    let out := s.core.onActiveBlock b.round b.hash at_
    some {
      core := out.1
      delivered := Function.update s.delivered s.core.active (s.delivered s.core.active ++ [b])
      handed := if out.2.1 then s.handed ++ [b] else s.handed }
  | .standby id b at_ =>
    if id = s.core.active ∨ id ∉ s.core.ups then none
    else some { s with
      core := (s.core.onStandbyBlock id b.round b.parent b.hash at_ b.frame).1
      delivered := Function.update s.delivered id (s.delivered id ++ [b]) }
  | .add id ip =>
    if id = s.core.active then none
    else some { s with
      core := s.core.addStandby id ip, delivered := Function.update s.delivered id [] }
  | .remove id =>
    if id = s.core.active then none else some { s with core := (s.core.remove id).2 }
  | .switch id now =>
    if id = s.core.active ∨ id ∉ s.core.ups then none
    else
      match s.core.switchTo id now with
      | none => some s
      | some (core, _, _) => some { s with core := core, handed := s.handed ++ switched s.core id }

/-- The blocks recorded as handed carry exactly the frames `switch_to` returned. -/
theorem switched_frames {c c' : Core} {id now : Nat} {frames : List (List UInt8)}
    {bad : List (Nat × UInt32)} (h : c.switchTo id now = some (c', frames, bad)) :
    (switched c id).map Block.frame = frames := by
  obtain ⟨u, hu, -, -, hframes, -⟩ := Core.switchTo_eq_some h
  rw [switched, hu, hframes, List.map_map]
  rfl

/-! ## 2. Streams -/

/-- `b` may follow the blocks of a stream so far. -/
def Follows (link : Block → Block → Prop) (past : List Block) (b : Block) : Prop :=
  ∀ p ∈ past.getLast?, link p b

/-- Every upstream's stream follows `link`. -/
def Streams (link : Block → Block → Prop) (s : State) : Event → Prop
  | .active b _ => Follows link (s.delivered s.core.active) b
  | .standby id b _ => Follows link (s.delivered id) b
  | _ => True

/-- Consecutive blocks of an unbroken stream. -/
def Linked (p b : Block) : Prop := p.round < b.round ∧ b.parent = p.round

/-- Consecutive blocks of a stream from which blocks may be missing: the parent is
    the last block delivered or one in the gap. -/
def Gapped (p b : Block) : Prop := p.round ≤ b.parent ∧ b.parent < b.round

instance (link : Block → Block → Prop) [DecidableRel link] (past : List Block) (b : Block) :
    Decidable (Follows link past b) :=
  inferInstanceAs (Decidable (∀ p ∈ past.getLast?, link p b))

instance : DecidableRel Linked := fun _ _ => inferInstanceAs (Decidable (_ ∧ _))

instance : DecidableRel Gapped := fun _ _ => inferInstanceAs (Decidable (_ ∧ _))

instance (link : Block → Block → Prop) [DecidableRel link] (s : State) (e : Event) :
    Decidable (Streams link s e) := by
  cases e <;> unfold Streams <;> infer_instance

theorem Linked.lt {p b : Block} (h : Linked p b) : p.round < b.round := h.1

theorem Gapped.lt {p b : Block} (h : Gapped p b) : p.round < b.round := lt_of_le_of_lt h.1 h.2

/-! ## 3. A buffer and its stream -/

/-- The buffer of `u` against what `u` delivered: it holds only delivered blocks,
    and every delivered round above the node's last is there or was dropped. -/
structure Tracks (last : UInt32) (past : List Block) (u : Upstream) : Prop where
  src : ∀ p ∈ u.ahead, Block.ofAhead p ∈ past
  covered : ∀ b ∈ past, last < b.round → u.Holds b.round ∨ b.round ≤ u.droppedMax

def Above (last : UInt32) (u : Upstream) : Prop := ∀ p ∈ u.ahead, last < p.1

theorem Tracks.fresh (last : UInt32) (ip : String) : Tracks last [] { ip := ip } := by
  constructor
  · intro p hp
    exact absurd hp (OrdMap.not_mem_empty p)
  · intro b hb
    cases hb

theorem Above.fresh (last : UInt32) (ip : String) : Above last { ip := ip } := by
  intro p hp
  exact absurd hp (OrdMap.not_mem_empty p)

/-- The node moves on to `last'`, and only rounds up to it leave the buffer. -/
theorem Tracks.kept {last last' : UInt32} {past : List Block} {u v : Upstream} {rounds : List UInt32}
    (h : Tracks last past u) (hkept : Upstream.Kept rounds u v) (hle : last ≤ last')
    (hrounds : ∀ r ∈ rounds, r ≤ last') : Tracks last' past v := by
  constructor
  · intro p hp
    exact h.src p ((hkept.2 p).mp hp).1
  · intro b hb hlt
    rcases h.covered b hb (lt_of_le_of_lt hle hlt) with ⟨a, ha⟩ | hdrop
    · exact Or.inl ⟨a, (hkept.2 _).mpr ⟨ha, fun r hr => lt_of_le_of_lt (hrounds r hr) hlt⟩⟩
    · exact Or.inr (by rwa [hkept.1])

theorem Above.kept {last : UInt32} {u v : Upstream} {rounds : List UInt32} (h : Above last u)
    (hkept : Upstream.Kept rounds u v) : Above last v := by
  intro p hp
  exact h p ((hkept.2 p).mp hp).1

theorem Above.of_mem {last : UInt32} {u v : Upstream} {rounds : List UInt32}
    (hkept : Upstream.Kept rounds u v) (hmem : last ∈ rounds) : Above last v := by
  intro p hp
  exact ((hkept.2 p).mp hp).2 last hmem

/-- A block the node already has needs no place in the buffer. -/
theorem Tracks.append_low {last : UInt32} {past : List Block} {u : Upstream} {b : Block}
    (h : Tracks last past u) (hle : b.round ≤ last) : Tracks last (past ++ [b]) u := by
  constructor
  · intro p hp
    exact List.mem_append_left _ (h.src p hp)
  · intro b' hb' hlt
    rcases List.mem_append.mp hb' with hb' | hb'
    · exact h.covered b' hb' hlt
    · rw [List.mem_singleton.mp hb'] at hlt
      exact absurd hlt (not_lt.mpr hle)

theorem Tracks.insert {last : UInt32} {past : List Block} {u : Upstream} (h : Tracks last past u)
    (b : Block) (at_ : Nat) :
    Tracks last (past ++ [b]) (u.insertAhead b.round { b with at_ := at_ }) := by
  obtain ⟨hsub, hheld, hle⟩ := u.insertAhead_spec b.round { b with at_ := at_ }
  constructor
  · intro p hp
    rcases hsub p hp with rfl | hp
    · exact List.mem_append_right _ (List.mem_singleton.mpr rfl)
    · exact List.mem_append_left _ (h.src p hp)
  · intro b' hb' hlt
    rcases List.mem_append.mp hb' with hb' | hb'
    · rcases h.covered b' hb' hlt with hholds | hdrop
      · exact hheld b'.round (Or.inl hholds)
      · exact Or.inr (le_trans hdrop hle)
    · rw [List.mem_singleton.mp hb']
      exact hheld b.round (Or.inr rfl)

theorem Above.insert {last : UInt32} {u : Upstream} (h : Above last u) {round : UInt32}
    (hlt : last < round) (a : Ahead) : Above last (u.insertAhead round a) := by
  intro p hp
  rcases (u.insertAhead_spec round a).1 p hp with rfl | hp
  · exact hlt
  · exact h p hp

/-- No standby buffers a block the node has. -/
def Core.Trimmed (c : Core) : Prop :=
  ∀ id u, c.ups.lookup id = some u → id ≠ c.active → Above c.lastForwarded u

namespace Core.Trimmed

variable {c : Core}

theorem new (active : Nat) (ip : String) (last : UInt32) (stall lag minDwell : Nat) :
    (Core.new active ip last stall lag minDwell).Trimmed := by
  intro id u hu _
  obtain ⟨-, rfl⟩ := KeyMap.lookup_singleton_inv hu
  exact Above.fresh last ip

theorem onActiveBlock (h : c.Trimmed) (round : UInt32) (hash : UInt64) (at_ : Nat) :
    (c.onActiveBlock round hash at_).1.Trimmed := by
  obtain ⟨hact, hcase, hups⟩ := Core.onActiveBlock_spec c round hash at_
  intro id v hv hne
  obtain ⟨u, hu, hkept⟩ := hups id v hv
  rw [hact] at hne
  rcases hcase with ⟨-, -, -, heq⟩ | ⟨-, htrue, heq⟩
  · rw [heq]
    exact (h id u hu hne).kept hkept
  · apply Above.of_mem hkept
    rw [if_neg (by simp [hne, htrue]), heq]
    exact List.mem_singleton.mpr rfl

theorem onStandbyBlock (h : c.Trimmed) (id : Nat) (round parent : UInt32) (hash : UInt64) (at_ : Nat)
    (frame : List UInt8) : (c.onStandbyBlock id round parent hash at_ frame).1.Trimmed := by
  rcases hu : c.ups.lookup id with _ | u
  · simp only [Core.onStandbyBlock, hu]
    exact h
  obtain ⟨hact, hlf, hups⟩ := Core.onStandbyBlock_spec hu round parent hash at_ frame
  obtain ⟨hlow, hhigh⟩ := Core.standbyBlock_spec c.lastForwarded (c.forwarded.get? round) round parent hash at_ frame u
  intro j v hv hj
  rw [hact] at hj
  rw [hlf]
  rcases hups j v hv with ⟨-, hv⟩ | ⟨rfl, rfl⟩
  · exact h j v hv hj
  · by_cases hle : round ≤ c.lastForwarded
    · exact (h j u hu hj).kept (hlow hle)
    · rw [hhigh (not_le.mp hle)]
      -- noting the arrival time leaves the buffer as it is
      have habove : Above c.lastForwarded { u with lastRx := some at_ } := h j u hu hj
      exact habove.insert (not_le.mp hle) _

theorem addStandby (h : c.Trimmed) (id : Nat) (ip : String) : (c.addStandby id ip).Trimmed := by
  intro j v hv hj
  rcases KeyMap.lookup_insert_inv hv with ⟨rfl, rfl⟩ | ⟨-, hv⟩
  · exact Above.fresh _ ip
  · exact h j v hv hj

theorem markPreferred (h : c.Trimmed) (id : Nat) : (c.markPreferred id).Trimmed := by
  intro j v hv hj
  obtain ⟨u, hu, rfl⟩ := KeyMap.lookup_modify_inv hv
  have habove := h j u hu hj
  split
  · exact habove
  · exact habove

theorem remove (h : c.Trimmed) (id : Nat) : (c.remove id).2.Trimmed := by
  intro j v hv hj
  exact h j v (KeyMap.lookup_erase_inv hv).2 hj

/-- A switch trims every standby at the last block it replays, the old active included. -/
theorem of_switchTo {c' : Core} {id now : Nat} {frames : List (List UInt8)} {bad : List (Nat × UInt32)}
    (hsw : c.switchTo id now = some (c', frames, bad)) : c'.Trimmed := by
  obtain ⟨u, hu, -, -, -, hact, hlast, hups⟩ := Core.switchTo_eq_some hsw
  obtain ⟨z, hz, hz'⟩ := Option.map_eq_some_iff.mp hlast.symm
  intro j v hv hj
  rcases hups j v hv with ⟨rfl, -⟩ | ⟨-, w, -, hkept⟩
  · exact absurd hact.symm hj
  · exact Above.of_mem hkept (List.mem_map.mpr ⟨z, List.mem_of_getLast? hz, hz'⟩)

end Core.Trimmed

/-! ## 4. The chain a switch replays -/

section chain
open Upstream (chainPrefix)

theorem chainPrefix_prefix : ∀ (l : List (UInt32 × Ahead)) (cur : UInt32), chainPrefix cur l <+: l := by
  intro l
  induction l with
  | nil =>
    intro cur
    exact List.prefix_refl []
  | cons p rest ih =>
    intro cur
    rw [chainPrefix]
    split
    · exact (List.prefix_cons_inj p).mpr (ih p.1)
    · exact List.nil_prefix

/-- The replayed blocks are parent-linked, starting at `cur`. -/
theorem chainPrefix_linked : ∀ (l : List (UInt32 × Ahead)) (cur : UInt32),
    (∀ b ∈ ((chainPrefix cur l).map Block.ofAhead).head?, b.parent = cur) ∧
    ((chainPrefix cur l).map Block.ofAhead).IsChain (fun a b => b.parent = a.round) := by
  intro l
  induction l with
  | nil =>
    intro cur
    exact ⟨by simp [chainPrefix], List.IsChain.nil⟩
  | cons p rest ih =>
    intro cur
    obtain ⟨r, a⟩ := p
    rw [chainPrefix]
    split
    · rename_i hparent
      obtain ⟨hhead, hchain⟩ := ih r
      constructor
      · intro b hb
        rw [List.map_cons, List.head?_cons, Option.mem_some_iff] at hb
        rw [← hb]
        exact hparent
      · rw [List.map_cons]
        exact hchain.cons hhead
    · exact ⟨by simp, List.IsChain.nil⟩

end chain

/-! ## 5. The invariant -/

structure Inv (s : State) : Prop where
  tracks : ∀ id u, s.core.ups.lookup id = some u →
    Tracks s.core.lastForwarded (s.delivered id) u
  above : ∀ id u, s.core.ups.lookup id = some u → id ≠ s.core.active →
    Above s.core.lastForwarded u
  increasing : ∀ id, (s.delivered id).Pairwise fun a b => a.round < b.round

theorem Inv.init (active : Nat) (ip : String) (last : UInt32) (stall lag minDwell : Nat) :
    Inv (State.init active ip last stall lag minDwell) := by
  refine ⟨?_, ?_, fun _ => List.Pairwise.nil⟩
  · intro id u hu
    obtain ⟨-, rfl⟩ := KeyMap.lookup_singleton_inv hu
    exact Tracks.fresh last ip
  · exact Core.Trimmed.new active ip last stall lag minDwell

/-- A stream that grows by a later block stays increasing. -/
theorem pairwise_concat {past : List Block} {b : Block}
    (hinc : past.Pairwise fun a b => a.round < b.round)
    (hlast : ∀ p ∈ past.getLast?, p.round < b.round) :
    (past ++ [b]).Pairwise fun a b => a.round < b.round := by
  refine List.pairwise_append.mpr ⟨hinc, List.pairwise_singleton _ _, ?_⟩
  intro a ha b' hb'
  rw [List.mem_singleton.mp hb']
  rcases past.eq_nil_or_concat' with rfl | ⟨front, z, rfl⟩
  · cases ha
  · have hz : z.round < b.round := hlast z (by simp)
    rcases List.mem_append.mp ha with ha | ha
    · exact lt_trans ((List.pairwise_append.mp hinc).2.2 a ha z (by simp)) hz
    · rwa [List.mem_singleton.mp ha]

/-- Only the stream of `id` grows. -/
theorem increasing_update {delivered : Nat → List Block} {id : Nat} {b : Block}
    (hinc : ∀ id, (delivered id).Pairwise fun a b => a.round < b.round)
    (hlast : ∀ p ∈ (delivered id).getLast?, p.round < b.round) (j : Nat) :
    (Function.update delivered id (delivered id ++ [b]) j).Pairwise fun a b => a.round < b.round := by
  by_cases hj : j = id
  · subst hj
    rw [Function.update_self]
    exact pairwise_concat (hinc j) hlast
  · rw [Function.update_of_ne hj]
    exact hinc j

theorem Inv.active {s : State} (h : Inv s) {b : Block} {at_ : Nat}
    (hlast : ∀ p ∈ (s.delivered s.core.active).getLast?, p.round < b.round) {t : State}
    (hs : step s (.active b at_) = some t) : Inv t := by
  simp only [step, Option.some.injEq] at hs
  subst hs
  obtain ⟨-, hcase, hups⟩ := Core.onActiveBlock_spec s.core b.round b.hash at_
  -- the node's last block moves on, to at least the block just read
  have hmono : s.core.lastForwarded ≤ (s.core.onActiveBlock b.round b.hash at_).1.lastForwarded ∧
      b.round ≤ (s.core.onActiveBlock b.round b.hash at_).1.lastForwarded := by
    rcases hcase with ⟨-, hle, -, heq⟩ | ⟨hnew, -, heq⟩
    · rw [heq]
      exact ⟨le_refl _, hle⟩
    · rw [heq]
      refine ⟨?_, le_refl _⟩
      by_cases hzero : s.core.lastForwarded = 0
      · rw [hzero]
        exact UInt32.zero_le
      · exact (not_le.mp fun hle => hnew ⟨hzero, hle⟩).le
  refine ⟨?_, ?_, increasing_update h.increasing hlast⟩
  · intro id v hv
    obtain ⟨u, hu, hkept⟩ := hups id v hv
    have htracks : Tracks (s.core.onActiveBlock b.round b.hash at_).1.lastForwarded (s.delivered id) v := by
      apply (h.tracks id u hu).kept hkept hmono.1
      intro r hr
      split at hr
      · cases hr
      · rw [List.mem_singleton.mp hr]
        exact hmono.2
    by_cases hid : id = s.core.active
    · subst hid
      simp only [Function.update_self]
      exact htracks.append_low hmono.2
    · simp only [Function.update_of_ne hid]
      exact htracks
  · exact Core.Trimmed.onActiveBlock h.above b.round b.hash at_

/-- A block from a standby that is there. -/
theorem step_standby_inv {s t : State} {id : Nat} {b : Block} {at_ : Nat} (hs : step s (.standby id b at_) = some t) :
    id ≠ s.core.active ∧ (∃ u, s.core.ups.lookup id = some u) ∧
      t = { s with
        core := (s.core.onStandbyBlock id b.round b.parent b.hash at_ b.frame).1
        delivered := Function.update s.delivered id (s.delivered id ++ [b]) } := by
  simp only [step] at hs
  split at hs
  · cases hs
  rename_i hguard
  obtain ⟨hne, hmem⟩ := not_or.mp hguard
  exact ⟨hne, Option.isSome_iff_exists.mp (AList.lookup_isSome.mpr (not_not.mp hmem)), (Option.some.inj hs).symm⟩

theorem step_add_inv {s t : State} {id : Nat} {ip : String} (hs : step s (.add id ip) = some t) :
    id ≠ s.core.active ∧
      t = { s with core := s.core.addStandby id ip, delivered := Function.update s.delivered id [] } := by
  simp only [step] at hs
  split at hs
  · cases hs
  · exact ⟨‹_›, (Option.some.inj hs).symm⟩

theorem step_remove_inv {s t : State} {id : Nat} (hs : step s (.remove id) = some t) :
    id ≠ s.core.active ∧ t = { s with core := (s.core.remove id).2 } := by
  simp only [step] at hs
  split at hs
  · cases hs
  · exact ⟨‹_›, (Option.some.inj hs).symm⟩

theorem Inv.standby {s : State} (h : Inv s) {id : Nat} {b : Block} {at_ : Nat}
    (hlast : ∀ p ∈ (s.delivered id).getLast?, p.round < b.round) {t : State}
    (hs : step s (.standby id b at_) = some t) : Inv t := by
  obtain ⟨-, ⟨u, hu⟩, rfl⟩ := step_standby_inv hs
  obtain ⟨-, hlf, hups⟩ := Core.onStandbyBlock_spec hu b.round b.parent b.hash at_ b.frame
  obtain ⟨hlow, hhigh⟩ := Core.standbyBlock_spec s.core.lastForwarded
    (s.core.forwarded.get? b.round) b.round b.parent b.hash at_ b.frame u
  -- noting the arrival time changes nothing the invariant sees
  have hu' : Tracks s.core.lastForwarded (s.delivered id) { u with lastRx := some at_ } :=
    (h.tracks id u hu).kept (Upstream.Kept.of_eq rfl rfl) (le_refl _) (by simp)
  refine ⟨?_, ?_, increasing_update h.increasing hlast⟩
  · intro j v hv
    simp only [hlf]
    rcases hups j v hv with ⟨hj, hv⟩ | ⟨rfl, rfl⟩
    · simp only [Function.update_of_ne hj]
      exact h.tracks j v hv
    · simp only [Function.update_self]
      by_cases hle : b.round ≤ s.core.lastForwarded
      · exact ((h.tracks j u hu).kept (hlow hle) (le_refl _) (by simp)).append_low hle
      · rw [hhigh (not_le.mp hle)]
        exact hu'.insert b at_
  · exact Core.Trimmed.onStandbyBlock h.above id b.round b.parent b.hash at_ b.frame

theorem Inv.add {s : State} (h : Inv s) {id : Nat} {ip : String} {t : State}
    (hs : step s (.add id ip) = some t) : Inv t := by
  obtain ⟨-, rfl⟩ := step_add_inv hs
  refine ⟨?_, ?_, ?_⟩
  · intro j v hv
    rcases KeyMap.lookup_insert_inv hv with ⟨rfl, rfl⟩ | ⟨hj, hv⟩
    · simp only [Function.update_self]
      exact Tracks.fresh _ ip
    · simp only [Function.update_of_ne hj]
      exact h.tracks j v hv
  · exact Core.Trimmed.addStandby h.above id ip
  · intro j
    by_cases hj : j = id
    · subst hj
      simp only [Function.update_self]
      exact List.Pairwise.nil
    · simp only [Function.update_of_ne hj]
      exact h.increasing j

theorem Inv.remove {s : State} (h : Inv s) {id : Nat} {t : State}
    (hs : step s (.remove id) = some t) : Inv t := by
  obtain ⟨-, rfl⟩ := step_remove_inv hs
  refine ⟨?_, ?_, h.increasing⟩
  · intro j v hv
    exact h.tracks j v (KeyMap.lookup_erase_inv hv).2
  · exact Core.Trimmed.remove h.above id

/-- A switch step: refused and without effect, or a successful `switch_to`. -/
theorem step_switch_inv {s t : State} {id now : Nat} (hs : step s (.switch id now) = some t) :
    id ≠ s.core.active ∧
    (t = s ∨ ∃ core frames bad, s.core.switchTo id now = some (core, frames, bad) ∧
      t = { s with core := core, handed := s.handed ++ switched s.core id }) := by
  simp only [step] at hs
  split at hs
  · cases hs
  rename_i hguard
  refine ⟨fun hid => hguard (Or.inl hid), ?_⟩
  rcases hsw : s.core.switchTo id now with _ | ⟨core, frames, bad⟩
  · simp only [hsw, Option.some.injEq] at hs
    exact Or.inl hs.symm
  · simp only [hsw, Option.some.injEq] at hs
    exact Or.inr ⟨core, frames, bad, rfl, hs.symm⟩

/-- What a successful switch does, with the replayed chain in terms of the buffer. -/
theorem switchTo_spec {s : State} (h : Inv s) {id now : Nat} (hne : id ≠ s.core.active)
    {core : Core} {frames : List (List UInt8)} {bad : List (Nat × UInt32)}
    (hsw : s.core.switchTo id now = some (core, frames, bad)) :
    ∃ u, s.core.ups.lookup id = some u ∧ u.droppedMax ≤ s.core.lastForwarded ∧
      let chain := Upstream.chainPrefix s.core.lastForwarded u.ahead.entries
      chain ≠ [] ∧ core.active = id ∧ chain.getLast?.map Prod.fst = some core.lastForwarded ∧
      switched s.core id = chain.map Block.ofAhead ∧
      ∀ j v, core.ups.lookup j = some v →
        (j = id ∧ v.droppedMax = u.droppedMax ∧
          ∀ p, p ∈ v.ahead ↔ p ∈ u.ahead.entries.drop chain.length) ∨
        (j ≠ id ∧ ∃ w, s.core.ups.lookup j = some w ∧ Upstream.Kept (chain.map Prod.fst) w v) := by
  obtain ⟨u, hu, hdrop, hnil, -, hact, hlast, hups⟩ := Core.switchTo_eq_some hsw
  obtain ⟨hchain, hleft, hdropLeft⟩ := Upstream.takeChain_spec (Nat.le_refl _) (h.above id u hu hne)
  rw [hchain] at hnil hlast hups
  refine ⟨u, hu, hdrop, hnil, hact, hlast.symm, ?_, ?_⟩
  · simp only [switched, hu, hchain]
  · intro j v hv
    rcases hups j v hv with ⟨rfl, hkept⟩ | hother
    · refine Or.inl ⟨rfl, hkept.1.trans hdropLeft, ?_⟩
      intro p
      rw [hkept.2 p, OrdMap.mem_def, hleft]
      simp
    · exact Or.inr hother

/-- The replayed rounds lie above the old last block and up to the new one, and
    what stays in the buffer is what lies above it. -/
theorem chain_bounds {u : Upstream} {last last' : UInt32} (habove : Above last u)
    (hlast : (Upstream.chainPrefix last u.ahead.entries).getLast?.map Prod.fst = some last') :
    last < last' ∧
    (∀ p ∈ Upstream.chainPrefix last u.ahead.entries, p.1 ≤ last') ∧
    (∀ p, p ∈ u.ahead.entries.drop (Upstream.chainPrefix last u.ahead.entries).length ↔
      p ∈ u.ahead ∧ last' < p.1) := by
  obtain ⟨rest, hsplit⟩ := chainPrefix_prefix u.ahead.entries last
  obtain ⟨z, hz, rfl⟩ := Option.map_eq_some_iff.mp hlast
  obtain ⟨front, hfront⟩ := List.getLast?_eq_some_iff.mp hz
  have hsorted := u.ahead.sorted
  rw [← hsplit, List.pairwise_append] at hsorted
  have hmemz : z ∈ Upstream.chainPrefix last u.ahead.entries := List.mem_of_getLast? hz
  have hle : ∀ p ∈ Upstream.chainPrefix last u.ahead.entries, p.1 ≤ z.1 := by
    intro p hp
    have hfirst := hsorted.1
    rw [hfront] at hp hfirst
    rcases List.mem_append.mp hp with hp | hp
    · exact ((List.pairwise_append.mp hfirst).2.2 p hp z (by simp)).le
    · rw [List.mem_singleton.mp hp]
  have hdrop := congrArg (List.drop (Upstream.chainPrefix last u.ahead.entries).length) hsplit
  rw [List.drop_left] at hdrop
  refine ⟨habove z ?_, hle, ?_⟩
  · rw [OrdMap.mem_def, ← hsplit]
    exact List.mem_append_left _ hmemz
  · intro p
    rw [← hdrop, OrdMap.mem_def]
    constructor
    · intro hp
      refine ⟨?_, hsorted.2.2 z hmemz p hp⟩
      rw [← hsplit]
      exact List.mem_append_right _ hp
    · rintro ⟨hp, hlt⟩
      rw [← hsplit] at hp
      rcases List.mem_append.mp hp with hp | hp
      · exact absurd (hle p hp) (not_le.mpr hlt)
      · exact hp

theorem Inv.switch {s : State} (h : Inv s) {id now : Nat} {t : State}
    (hs : step s (.switch id now) = some t) : Inv t := by
  obtain ⟨hne, rfl | ⟨core, frames, bad, hsw, rfl⟩⟩ := step_switch_inv hs
  · exact h
  obtain ⟨u, hu, -, -, -, hlast, -, hups⟩ := switchTo_spec h hne hsw
  obtain ⟨hlt, hle, hleft⟩ := chain_bounds (h.above id u hu hne) hlast
  refine ⟨?_, ?_, h.increasing⟩
  · intro j v hv
    rcases hups j v hv with ⟨rfl, hdrop, hmem⟩ | ⟨hj, w, hw, hkept⟩
    · have htracks := h.tracks j u hu
      constructor
      · intro p hp
        exact htracks.src p (List.mem_of_mem_drop ((hmem p).mp hp))
      · intro b hb hb'
        rcases htracks.covered b hb (lt_trans hlt hb') with ⟨a, ha⟩ | hle'
        · exact Or.inl ⟨a, (hmem _).mpr ((hleft _).mpr ⟨ha, hb'⟩)⟩
        · exact Or.inr (by rwa [hdrop])
    · apply (h.tracks j w hw).kept hkept hlt.le
      intro r hr
      obtain ⟨p, hp, rfl⟩ := List.mem_map.mp hr
      exact hle p hp
  · exact Core.Trimmed.of_switchTo hsw

/-- **One step keeps the invariant**, whatever the streams link, as long as their
    rounds increase. -/
theorem Inv.step {link : Block → Block → Prop} (hlink : ∀ p b, link p b → p.round < b.round)
    {s t : State} {e : Event} (h : Inv s) (hok : Streams link s e) (hs : step s e = some t) :
    Inv t := by
  cases e with
  | active b at_ => exact h.active (fun p hp => hlink p b (hok p hp)) hs
  | standby id b at_ => exact h.standby (fun p hp => hlink p b (hok p hp)) hs
  | add id ip => exact h.add hs
  | remove id => exact h.remove hs
  | switch id now => exact h.switch hs

end Hypersync.Failover
