import Hypersync.Lib.Word

/-!
# The timers of a push session

`BlockProgress` follows the active stream block by block: the jump guard, the
stall timer, and the timer that runs while the stream trails the gateway's
freshest round.  `StalledBehind` judges a silent stream on a timer.  Instants and
durations are nanoseconds.
-/

namespace Hypersync.Push

def MAX_ACTIVE_ROUND_JUMP : UInt32 := 20000

def ACTIVE_BLOCK_STALL : Nat := 30000000000

/-! ## 1. Block by block -/

structure BlockProgress where
  lastRound : UInt32
  at_ : Nat
  lagSince : Option Nat
deriving DecidableEq, Repr

namespace BlockProgress

def new (lastRound : UInt32) (now : Nat) : BlockProgress where
  lastRound := lastRound
  at_ := now
  lagSince := none

/-- A decoded, plausible round; `none` is the refused jump. -/
def onRound (p : BlockProgress) (rnd : UInt32) (now : Nat) : Option BlockProgress :=
  if p.lastRound ≠ 0 ∧ Word.satAdd p.lastRound MAX_ACTIVE_ROUND_JUMP < rnd then none
  else if p.lastRound < rnd then some { p with lastRound := rnd, at_ := now }
  else some p

/-- `freshest.map_or(0, |f| f.saturating_sub(own))` -/
def behindOf (freshest : Option UInt32) (own : UInt32) : UInt32 :=
  match freshest with
  | none => 0
  | some f => Word.satSub f own

/-- How far the stream trails, once it has trailed for the whole grace period;
    `freshest` is the reading of `FreshestRound::get`. -/
def lagging (p : BlockProgress) (freshest : Option UInt32) (lagRounds : UInt32) (grace : Nat)
    (nodeBackedUp : Bool) (now : Nat) : BlockProgress × Option UInt32 :=
  let behind := behindOf freshest p.lastRound
  if p.lastRound = 0 ∨ nodeBackedUp ∨ behind ≤ lagRounds then ({ p with lagSince := none }, none)
  else
    let since := p.lagSince.getD now
    ({ p with lagSince := some since }, if grace ≤ now - since then some behind else none)

theorem toNat_behindOf_le {freshest : Option UInt32} {own : UInt32} {bound : Nat}
    (h : ∀ f, freshest = some f → f.toNat ≤ own.toNat + bound) : (behindOf freshest own).toNat ≤ bound := by
  rcases freshest with _ | f
  · exact Nat.zero_le bound
  · rw [behindOf, Word.toNat_satSub]
    exact Nat.sub_le_iff_le_add'.mpr (h f rfl)

/-- A stream within its allowance is not flagged. -/
theorem lagging_eq_none {p : BlockProgress} {freshest : Option UInt32} {lagRounds : UInt32}
    (h : behindOf freshest p.lastRound ≤ lagRounds) (grace : Nat) (nodeBackedUp : Bool) (now : Nat) :
    (p.lagging freshest lagRounds grace nodeBackedUp now).2 = none := by
  unfold lagging
  rw [if_pos (Or.inr (Or.inr h))]

def hold (p : BlockProgress) (now : Nat) : BlockProgress := { p with at_ := now }

def stalled (p : BlockProgress) (now : Nat) : Bool :=
  p.lastRound ≠ 0 ∧ ACTIVE_BLOCK_STALL < now - p.at_

end BlockProgress

/-! ## 2. On a timer -/

structure StalledBehind where
  rounds : UInt32
  grace : Nat
  widen : UInt32
  since : Option (Nat × UInt32)
deriving DecidableEq, Repr

namespace StalledBehind

def new (rounds : UInt32) (grace : Nat) (widen : UInt32) : StalledBehind where
  rounds := rounds
  grace := grace
  widen := widen
  since := none

def check (s : StalledBehind) (ownRound : UInt32) (freshest : Option UInt32) (nodeBackedUp : Bool)
    (now : Nat) : StalledBehind × Option UInt32 :=
  let behind := BlockProgress.behindOf freshest ownRound
  if ownRound = 0 ∨ nodeBackedUp ∨ behind < s.rounds then ({ s with since := none }, none)
  else
    let since := s.since.getD (now, behind)
    ({ s with since := some since },
      if s.grace ≤ now - since.1 ∧ Word.satAdd since.2 s.widen ≤ behind then some behind else none)

theorem check_eq_none {s : StalledBehind} {own : UInt32} {freshest : Option UInt32}
    (h : BlockProgress.behindOf freshest own < s.rounds) (nodeBackedUp : Bool) (now : Nat) :
    (s.check own freshest nodeBackedUp now).2 = none := by
  unfold check
  rw [if_pos (Or.inr (Or.inr h))]

end StalledBehind

end Hypersync.Push
