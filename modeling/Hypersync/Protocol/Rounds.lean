import Hypersync.Lib.Word

/-!
# Round guards: plausibility, tip lag, and the forward gate

The forward gate lets a block through when its round is above the last one
forwarded *and* a ring of recently seen rounds does not already hold it.  The
ring has one slot per residue of the round, all zero at first.  Its size is a
field of the structure, so the masked index is in range by construction.

`GateInv` (no slot is above the last forwarded round) makes the ring redundant:
whatever passes the monotone check is new to it (`shouldForward_active`).
-/

namespace Hypersync.Protocol

/-! ## 1. Plausibility and lag -/

def MIN_PLAUSIBLE_MAINNET_ROUND : UInt32 := 1000000000

def MAX_LIVE_FRAME : Nat := 8000000

def ACTIVE_ROUND_MAX_LAG : UInt32 := 1500

def NET_TIP_SLACK_ROUNDS : UInt32 := 200000

def isPlausibleMainnetRound (round netTip : UInt32) : Bool :=
  MIN_PLAUSIBLE_MAINNET_ROUND ≤ round ∧
    (netTip = 0 ∨ round ≤ Word.satAdd netTip NET_TIP_SLACK_ROUNDS)

def roundLagFromTip (round netTip maxLag : UInt32) : Option UInt32 :=
  if netTip = 0 ∨ netTip ≤ round then none
  else if maxLag < netTip - round then some (netTip - round)
  else none

/-- Rounds that pass the check are not zero. -/
theorem round_pos_of_check {round netTip : UInt32}
    (h : ¬ (!isPlausibleMainnetRound round netTip) = true) : 0 < round := by
  rw [Bool.not_eq_true', Bool.not_eq_false] at h
  have hmin : MIN_PLAUSIBLE_MAINNET_ROUND ≤ round := (of_decide_eq_true h).1
  exact lt_of_lt_of_le (by decide) hmin

/-! ## 2. The ring -/

/-- `slots[r & mask]` is the latest round that mapped there. -/
structure RoundDedup where
  slots : List UInt32
  mask : Nat
  size_eq : slots.length = mask + 1

namespace RoundDedup

def new (cap : Nat) : RoundDedup where
  slots := List.replicate cap.nextPowerOfTwo 0
  mask := cap.nextPowerOfTwo - 1
  size_eq := by
    have hpos : 0 < cap.nextPowerOfTwo := Nat.pos_of_isPowerOfTwo (Nat.isPowerOfTwo_nextPowerOfTwo cap)
    rw [List.length_replicate]
    omega

theorem index_lt (d : RoundDedup) (r : UInt32) : r.toNat &&& d.mask < d.slots.length := by
  rw [d.size_eq]
  exact Nat.lt_succ_of_le Nat.and_le_right

/-- Swap `r` into its slot: whether the slot held another round. -/
def isNew (d : RoundDedup) (r : UInt32) : Bool × RoundDedup :=
  (d.slots.get ⟨r.toNat &&& d.mask, d.index_lt r⟩ != r,
    { d with
      slots := d.slots.set (r.toNat &&& d.mask) r
      size_eq := by rw [List.length_set, d.size_eq] })

end RoundDedup

/-! ## 3. The gate -/

structure RoundForwardGate where
  lastForwarded : UInt32
  dedup : RoundDedup

namespace RoundForwardGate

def withLastForwarded (cap : Nat) (lastForwarded : UInt32) : RoundForwardGate where
  lastForwarded := lastForwarded
  dedup := RoundDedup.new cap

/-- `should_forward_block_round` behind the monotone check. -/
def takeNew (g : RoundForwardGate) (round : UInt32) : Bool × RoundForwardGate :=
  let (fresh, dedup) := g.dedup.isNew round
  if fresh then (true, { lastForwarded := round, dedup := dedup })
  else (false, { g with dedup := dedup })

def shouldForward (g : RoundForwardGate) (round : UInt32) (fromActive : Bool) :
    Bool × RoundForwardGate :=
  if fromActive then
    if g.lastForwarded ≠ 0 ∧ round ≤ g.lastForwarded then (false, g) else g.takeNew round
  else if g.lastForwarded = 0 ∨ round ≠ Word.satAdd g.lastForwarded 1 then (false, g)
  else g.takeNew round

/-- No slot of the ring is above the last forwarded round. -/
def GateInv (g : RoundForwardGate) : Prop := ∀ r ∈ g.dedup.slots, r ≤ g.lastForwarded

theorem gateInv_withLastForwarded (cap : Nat) (last : UInt32) :
    GateInv (withLastForwarded cap last) := by
  intro r hr
  rw [List.eq_of_mem_replicate hr]
  exact UInt32.zero_le

/-- A round above the last forwarded one is new to the ring. -/
theorem takeNew_of_lt {g : RoundForwardGate} (h : GateInv g) {round : UInt32}
    (hlt : g.lastForwarded < round) :
    (g.takeNew round).1 = true ∧ (g.takeNew round).2.lastForwarded = round ∧
      GateInv (g.takeNew round).2 := by
  have hslot := h _ (List.get_mem g.dedup.slots ⟨round.toNat &&& g.dedup.mask, g.dedup.index_lt round⟩)
  have hfresh : (g.dedup.isNew round).1 = true :=
    bne_iff_ne.mpr (ne_of_lt (lt_of_le_of_lt hslot hlt))
  simp only [takeNew, hfresh, if_true]
  refine ⟨trivial, trivial, ?_⟩
  intro r hr
  rcases List.mem_or_eq_of_mem_set hr with hr | rfl
  · exact le_trans (h r hr) hlt.le
  · exact le_refl r

/-- **The ring never decides.**  Of the active's blocks the gate forwards exactly
    those with a round above the last forwarded one, and remembers them. -/
theorem shouldForward_active {g : RoundForwardGate} (h : GateInv g) {round : UInt32}
    (hpos : 0 < round) :
    (g.shouldForward round true).1 = decide (g.lastForwarded < round) ∧
    (g.shouldForward round true).2.lastForwarded = max g.lastForwarded round ∧
    GateInv (g.shouldForward round true).2 := by
  simp only [shouldForward, if_true]
  by_cases hlt : g.lastForwarded < round
  · rw [if_neg (fun hold => not_le.mpr hlt hold.2), decide_eq_true hlt, max_eq_right hlt.le]
    exact takeNew_of_lt h hlt
  · have hold : g.lastForwarded ≠ 0 ∧ round ≤ g.lastForwarded := by
      refine ⟨?_, not_lt.mp hlt⟩
      intro hzero
      rw [hzero] at hlt
      exact hlt hpos
    rw [if_pos hold, decide_eq_false hlt, max_eq_left hold.2]
    exact ⟨rfl, rfl, h⟩

end RoundForwardGate

end Hypersync.Protocol
