import Hypersync.Failover.Policy
import Hypersync.Failover.Run

/-!
# A switch that is promised succeeds, and one that is refused changes nothing

The chain a standby can continue is walked twice: `chain_len` reads it, for
`pick_switch`, and `switch_to` takes it out of the buffer block by block.  The two
walks agree on every buffer that holds only blocks the node does not have, and in
every state the core can reach the standbys' buffers do.
-/

namespace Hypersync.Failover

/-! ## 1. `switch_to` on the state -/

/-- `switch_to` as it works on the core in place: the loop has written to the upstream's
    buffer by the time it is known whether there is a chain. -/
def Core.switchToInPlace (c : Core) (id now : Nat) : Core × Option (List (List UInt8) × List (Nat × UInt32)) :=
  match c.ups.lookup id with
  | none => (c, none)
  | some u =>
    if !u.canContinue c.lastForwarded then (c, none)
    else
      let (chain, u) := u.takeChain u.ahead.size c.lastForwarded
      let c := { c with ups := KeyMap.modify id (fun _ => u) c.ups }
      match chain with
      | [] => (c, none)
      | chain =>
        let (c, bad) := replay chain { c with active := id, lastSwitch := some now }
        (c.clearLeads, some (chain.map fun p => p.2.frame, bad))

/-- Without a chain the loop has not taken anything. -/
theorem Upstream.takeChain_eq_nil {fuel : Nat} {cur : UInt32} {u : Upstream} (h : (takeChain fuel cur u).1 = []) :
    (takeChain fuel cur u).2 = u := by
  cases fuel with
  | zero => rfl
  | succ fuel =>
    rw [takeChain] at h ⊢
    split
    · rfl
    · rename_i hhead
      rw [hhead] at h
      simp only [] at h
      split
      · rfl
      · rename_i hparent
        rw [if_neg hparent] at h
        split
        · rfl
        · rename_i htake
          rw [htake] at h
          cases h

namespace Core

variable {c : Core} {id now : Nat}

theorem switchToInPlace_refused (h : (c.switchToInPlace id now).2 = none) : (c.switchToInPlace id now).1 = c := by
  unfold switchToInPlace at h ⊢
  rcases hu : c.ups.lookup id with _ | u
  · rfl
  simp only [hu] at h ⊢
  split
  · rfl
  rename_i hcan
  rw [if_neg hcan] at h
  rcases htaken : u.takeChain u.ahead.size c.lastForwarded with ⟨_ | ⟨p, chain⟩, left⟩
  · have hleft := Upstream.takeChain_eq_nil (congrArg Prod.fst htaken)
    rw [htaken] at hleft
    obtain rfl : left = u := hleft
    simp only [KeyMap.modify_eq_self hu]
  · rw [htaken] at h
    cases h

/-- The same function as `switch_to` without the state of a refusal. -/
theorem switchToInPlace_eq_some {c' : Core} {frames : List (List UInt8)} {bad : List (Nat × UInt32)} :
    c.switchToInPlace id now = (c', some (frames, bad)) ↔ c.switchTo id now = some (c', frames, bad) := by
  unfold switchToInPlace switchTo
  rcases c.ups.lookup id with _ | u
  · simp
  simp only []
  split
  · simp
  rcases u.takeChain u.ahead.size c.lastForwarded with ⟨_ | ⟨p, chain⟩, left⟩
  · simp
  · simp

end Core

/-! ## 2. The two walks of a chain -/

namespace Upstream

theorem chainLoop_fst : ∀ (l : List (UInt32 × Ahead)) (cur : UInt32) (n : Nat) (firstAt : Option Nat),
    (chainLoop l cur n firstAt).1 = n + (chainPrefix cur l).length := by
  intro l
  induction l with
  | nil =>
    intro cur n firstAt
    rfl
  | cons p rest ih =>
    intro cur n firstAt
    obtain ⟨r, a⟩ := p
    rw [chainLoop, chainPrefix]
    by_cases hparent : a.parent = cur
    · rw [if_neg (not_not.mpr hparent), if_pos hparent, ih, List.length_cons]
      omega
    · rw [if_pos hparent, if_neg hparent]
      rfl

/-- `chain_len` counts the blocks a switch would take. -/
theorem chainLen_fst {u : Upstream} {last : UInt32} (habove : Above last u) (hcan : u.droppedMax ≤ last) :
    (u.chainLen last).1 = (chainPrefix last u.ahead.entries).length := by
  rw [chainLen, canContinue, decide_eq_true hcan, Bool.not_true, if_neg Bool.false_ne_true, rangeFrom_above habove,
    chainLoop_fst, Nat.zero_add]

/-- A chain with a first block has a block, and nothing it needs was dropped. -/
theorem chainLen_eq_some {u : Upstream} {last : UInt32} {n firstAt : Nat} (habove : Above last u)
    (h : u.chainLen last = (n, some firstAt)) : u.droppedMax ≤ last ∧ chainPrefix last u.ahead.entries ≠ [] := by
  by_cases hcan : u.droppedMax ≤ last
  · refine ⟨hcan, ?_⟩
    rw [chainLen, canContinue, decide_eq_true hcan, Bool.not_true, if_neg Bool.false_ne_true, rangeFrom_above habove] at h
    generalize u.ahead.entries = entries at h ⊢
    rcases entries with _ | ⟨⟨r, a⟩, rest⟩
    · cases h
    · rw [chainPrefix]
      split
      · exact List.cons_ne_nil _ _
      · rename_i hparent
        rw [chainLoop, if_pos hparent] at h
        cases h
  · rw [chainLen, canContinue, decide_eq_false hcan, Bool.not_false, if_pos rfl] at h
    cases h

end Upstream

namespace Core

variable {c : Core} {id now : Nat}

/-- **A standby with a chain can be switched to**, and the switch hands on all of it. -/
theorem Ready.switchTo {u : Upstream} {n firstAt : Nat} (h : c.Ready id u n firstAt) (htrimmed : c.Trimmed) (now : Nat) :
    ∃ (chain : List (UInt32 × Ahead)) (c' : Core) (bad : List (Nat × UInt32)),
      c.switchToInPlace id now = (c', some (chain.map fun p => p.2.frame, bad)) ∧
      chain <+: u.ahead.entries ∧ chain.length = n ∧ 1 ≤ n ∧ c'.active = id ∧
      chain.getLast?.map Prod.fst = some c'.lastForwarded := by
  have habove := htrimmed id u h.known h.standby
  obtain ⟨hcan, hne⟩ := Upstream.chainLen_eq_some habove h.chain
  have hlength : n = (Upstream.chainPrefix c.lastForwarded u.ahead.entries).length := by
    rw [← Upstream.chainLen_fst habove hcan, h.chain]
  obtain ⟨hchain, -, -⟩ := Upstream.takeChain_spec (Nat.le_refl _) habove
  rcases hsw : c.switchTo id now with _ | ⟨c', frames, bad⟩
  · rcases (switchTo_eq_none h.known).mp hsw with hlt | hnil
    · exact absurd hcan (not_le.mpr hlt)
    · rw [hchain] at hnil
      exact absurd hnil hne
  · obtain ⟨u', hu', -, -, hframes, hact, hlast, -⟩ := switchTo_eq_some hsw
    obtain rfl : u = u' := Option.some.inj (h.known.symm.trans hu')
    rw [hchain] at hframes hlast
    refine ⟨Upstream.chainPrefix c.lastForwarded u.ahead.entries, c', bad, ?_, chainPrefix_prefix _ _, hlength.symm, ?_,
      hact, hlast.symm⟩
    · rw [switchToInPlace_eq_some, hsw, hframes]
    · rw [hlength]
      exact List.length_pos_of_ne_nil hne

end Core

/-! ## 3. Every state the core can reach -/

/-- A call of the core, with any arguments. -/
inductive Call where
  | op (op : Core.Op)
  | switchTo (id now : Nat)

def Core.call (c : Core) : Call → Option Core
  | .op op => some (c.apply op)
  | .switchTo id now => some (c.switchToInPlace id now).1

theorem Core.Trimmed.apply {c : Core} (h : c.Trimmed) (op : Core.Op) : (c.apply op).Trimmed := by
  cases op with
  | activeBlock round hash at_ => exact h.onActiveBlock round hash at_
  | standbyBlock id round parent hash at_ frame => exact h.onStandbyBlock id round parent hash at_ frame
  | addStandby id ip => exact h.addStandby id ip
  | markPreferred id => exact h.markPreferred id
  | remove id => exact h.remove id

theorem Core.Trimmed.call {c c' : Core} {e : Call} (h : c.Trimmed) (hs : c.call e = some c') : c'.Trimmed := by
  cases e with
  | op op =>
    cases hs
    exact h.apply op
  | switchTo id now =>
    cases hs
    rcases hout : c.switchToInPlace id now with ⟨c', _ | ⟨frames, bad⟩⟩
    · have hsame := Core.switchToInPlace_refused (congrArg Prod.snd hout)
      rw [hout] at hsame
      rw [hsame]
      exact h
    · exact Core.Trimmed.of_switchTo (Core.switchToInPlace_eq_some.mp hout)

/-- **What `pick_switch` promises, `switch_to` does.**  In every state the core can reach, a
    picked standby is verified and not the active, and switching to it hands the node all the
    blocks `chain_len` counted, in increasing rounds; and a refused switch, of whatever
    upstream, leaves the core as it was. -/
theorem picked_switch_succeeds (active : Nat) (ip : String) (lastForwarded : UInt32) (stall lag minDwell : Nat)
    (es : List Call) (c : Core)
    (hrun : Machine.Run Core.call (fun _ _ => True) (Core.new active ip lastForwarded stall lag minDwell) es c) :
    (∀ now activeDead id reason, c.pickSwitch now activeDead = some (id, reason) →
      id ≠ c.active ∧ ∃ u, c.ups.lookup id = some u ∧ MIN_VERIFIED ≤ u.verified ∧
        ∃ (chain : List (UInt32 × Ahead)) (c' : Core) (bad : List (Nat × UInt32)),
          c.switchToInPlace id now = (c', some (chain.map fun p => p.2.frame, bad)) ∧
          (∀ p ∈ chain, p ∈ u.ahead) ∧ chain.length = (u.chainLen c.lastForwarded).1 ∧
          1 ≤ (u.chainLen c.lastForwarded).1 ∧ (chain.map Prod.fst).Pairwise (· < ·) ∧
          (chain.map Prod.fst).getLast? = some c'.lastForwarded ∧ c'.active = id) ∧
    ∀ id now, (c.switchToInPlace id now).2 = none → (c.switchToInPlace id now).1 = c := by
  have htrimmed : c.Trimmed := hrun.invariant (Core.Trimmed.new active ip lastForwarded stall lag minDwell)
    fun _ _ _ h _ hs => h.call hs
  refine ⟨?_, fun id now h => Core.switchToInPlace_refused h⟩
  intro now activeDead id reason hpick
  obtain ⟨u, n, firstAt, hready⟩ := (Core.pickSwitch_policy hpick).ready
  obtain ⟨chain, c', bad, hswitch, hpre, hlength, hpos, hact, hlast⟩ := hready.switchTo htrimmed now
  have hn : (u.chainLen c.lastForwarded).1 = n := by rw [hready.chain]
  refine ⟨hready.standby, u, hready.known, hready.verified, chain, c', bad, hswitch, ?_, hlength.trans hn.symm,
    hpos.trans_eq hn.symm, ?_, ?_, hact⟩
  · intro p hp
    exact hpre.subset hp
  · exact List.pairwise_map.mpr (u.ahead.sorted.sublist hpre.sublist)
  · rw [List.getLast?_map]
    exact hlast

/-- Three blocks matched, and a fourth that the active does not deliver any more. -/
def verifiedStandby : List Call :=
  [.op (.addStandby 1 "b"), .op (.standbyBlock 1 11 10 111 0 []), .op (.standbyBlock 1 12 11 112 0 []),
    .op (.standbyBlock 1 13 12 113 0 []), .op (.standbyBlock 1 14 13 114 0 [7]), .op (.activeBlock 11 111 0),
    .op (.activeBlock 12 112 0), .op (.activeBlock 13 113 0)]

theorem picked_switch_succeeds_verifiedStandby :
    ∃ c, Machine.Run Core.call (fun _ _ => True) (Core.new 0 "a" 10 400000000 150000000 10000000000) verifiedStandby c ∧
      c.pickSwitch 1000000000 true = some (1, .activeDead) ∧ 1 ≠ c.active := by
  have hexec : (Machine.exec Core.call (fun _ _ => True) (Core.new 0 "a" 10 400000000 150000000 10000000000)
      verifiedStandby).map (fun c => c.pickSwitch 1000000000 true) = some (some (1, .activeDead)) := by
    decide
  obtain ⟨c, hc, hpick⟩ := Option.map_eq_some_iff.mp hexec
  have hrun := Machine.Run.of_exec hc
  exact ⟨c, hrun, hpick, ((picked_switch_succeeds 0 "a" 10 400000000 150000000 10000000000 verifiedStandby c hrun).1
    1000000000 true 1 .activeDead hpick).1⟩

end Hypersync.Failover
