import Hypersync.Lib.Streak
import Hypersync.Push.Progress

/-!
# The lag guards over whole sequences of calls

Each guard keeps one instant (and the stalled-behind guard a distance with it)
between its calls.  Seen from outside, a call is a *check*: the stream's highest
round, the freshest round as it was read, whether the node was backed up, and when.
A guard flags its stream exactly when the checks that ended with the last one have
found it trailing without a break for the grace period.
-/

namespace Hypersync.Push

/-! ## 1. Checks -/

structure Check where
  own : UInt32
  freshest : Option UInt32
  backedUp : Bool
  now : Nat
deriving DecidableEq, Repr

namespace Check

/-- The stream has a round, the node drains its queue, and a freshest round is known that
    lies `least` or more above the stream's. -/
def Trails (least : Nat) (c : Check) : Prop :=
  c.own ≠ 0 ∧ c.backedUp = false ∧ ∃ f ∈ c.freshest, c.own.toNat + least ≤ f.toNat

instance (least : Nat) (c : Check) : Decidable (c.Trails least) := inferInstanceAs (Decidable (_ ∧ _ ∧ _))

/-- How far the freshest round lies above the stream's. -/
def distance (c : Check) : Nat :=
  match c.freshest with
  | none => 0
  | some f => f.toNat - c.own.toNat

/-- The check as a timer sees it. -/
def trails (least : Nat) (c : Check) : Bool := decide (c.Trails least)

variable {c : Check} {least : Nat}

theorem trails_iff : c.trails least = true ↔ c.Trails least := decide_eq_true_iff

theorem toNat_behindOf (c : Check) : (BlockProgress.behindOf c.freshest c.own).toNat = c.distance := by
  unfold BlockProgress.behindOf distance
  cases c.freshest with
  | none => rfl
  | some f => exact Word.toNat_satSub f c.own

/-- Without a freshest round the distance is zero, so only a positive bound tells it from a
    stream at the freshest round. -/
theorem trails_iff_distance (hpos : 0 < least) :
    c.Trails least ↔ ¬ (c.own = 0 ∨ c.backedUp = true ∨ c.distance < least) := by
  rw [Trails, not_or, not_or, Bool.not_eq_true, not_lt]
  refine and_congr_right fun _ => and_congr_right fun _ => ?_
  unfold distance
  cases c.freshest with
  | none =>
    constructor
    · rintro ⟨f, hf, -⟩
      cases hf
    · intro hle
      exact absurd hle (not_le.mpr hpos)
  | some f =>
    constructor
    · rintro ⟨g, hg, hle⟩
      cases hg
      exact Nat.le_sub_of_add_le' hle
    · intro hle
      have hle : least ≤ f.toNat - c.own.toNat := hle
      exact ⟨f, rfl, by omega⟩

/-- A stream with a round of its own is never the whole range behind. -/
theorem distance_lt_max (h : c.Trails least) : c.distance < 4294967295 := by
  obtain ⟨hown, -, f, hf, -⟩ := h
  have hpos : c.own.toNat ≠ 0 := fun hzero => hown (UInt32.toNat_inj.mp hzero)
  have hmax := Word.toNat_le_max f
  rw [distance, Option.mem_def.mp hf]
  show f.toNat - c.own.toNat < 4294967295
  omega

end Check

/-! ## 2. `BlockProgress` -/

inductive ProgressCall where
  | onRound (rnd : UInt32) (now : Nat)
  | hold (now : Nat)
  | lagging (freshest : Option UInt32) (nodeBackedUp : Bool) (now : Nat)
deriving DecidableEq, Repr

namespace ProgressCall

def now : ProgressCall → Nat
  | .onRound _ now => now
  | .hold now => now
  | .lagging _ _ now => now

/-- The stream's highest round after one more call; a refused jump does not count. -/
def raise (own : UInt32) : ProgressCall → UInt32
  | .onRound rnd _ => if own ≠ 0 ∧ Word.satAdd own MAX_ACTIVE_ROUND_JUMP < rnd then own else max own rnd
  | _ => own

/-- The stream's highest round after the calls. -/
def highest (own : UInt32) (calls : List ProgressCall) : UInt32 := calls.foldl raise own

/-- The calls that were checks, each with the highest round at that time. -/
def checks : UInt32 → List ProgressCall → List Check
  | _, [] => []
  | own, .lagging freshest nodeBackedUp now :: calls => ⟨own, freshest, nodeBackedUp, now⟩ :: checks own calls
  | own, call :: calls => checks (raise own call) calls

/-- The checks were made in the order of the calls. -/
theorem now_checks_sublist (own : UInt32) (calls : List ProgressCall) :
    ((checks own calls).map Check.now).Sublist (calls.map now) := by
  induction calls generalizing own with
  | nil => exact List.Sublist.refl []
  | cons c calls ih =>
    cases c with
    | onRound rnd now => exact (ih _).cons _
    | hold now => exact (ih _).cons _
    | lagging freshest nodeBackedUp now => exact (ih own).cons_cons now

end ProgressCall

namespace BlockProgress

def call (lagRounds : UInt32) (grace : Nat) (p : BlockProgress) : ProgressCall → BlockProgress
  | .onRound rnd now => (p.onRound rnd now).getD p
  | .hold now => p.hold now
  | .lagging freshest nodeBackedUp now => (p.lagging freshest lagRounds grace nodeBackedUp now).1

variable (lagRounds : UInt32) (grace : Nat)

/-- The timer of `lagging` is a streak timer. -/
theorem lagging_eq (p : BlockProgress) (freshest : Option UInt32) (nodeBackedUp : Bool) (now : Nat) :
    p.lagging freshest lagRounds grace nodeBackedUp now =
      ({ p with
          lagSince := Streak.tick (Check.trails (lagRounds.toNat + 1)) Check.now p.lagSince
            ⟨p.lastRound, freshest, nodeBackedUp, now⟩ },
        (Streak.tick (Check.trails (lagRounds.toNat + 1)) Check.now p.lagSince
          ⟨p.lastRound, freshest, nodeBackedUp, now⟩).bind fun since =>
            if grace ≤ now - since then some (behindOf freshest p.lastRound) else none) := by
  have hguard : Check.Trails (lagRounds.toNat + 1) ⟨p.lastRound, freshest, nodeBackedUp, now⟩ ↔
      ¬ (p.lastRound = 0 ∨ nodeBackedUp = true ∨ behindOf freshest p.lastRound ≤ lagRounds) := by
    rw [Check.trails_iff_distance (Nat.succ_pos _), Nat.lt_succ_iff, ← Check.toNat_behindOf,
      UInt32.le_iff_toNat_le]
  unfold lagging Streak.tick
  by_cases h : p.lastRound = 0 ∨ nodeBackedUp = true ∨ behindOf freshest p.lastRound ≤ lagRounds
  · rw [if_pos h, if_neg (fun ht => hguard.mp (Check.trails_iff.mp ht) h)]
    rfl
  · rw [if_neg h, if_pos (Check.trails_iff.mpr (hguard.mpr h))]
    rfl

theorem lastRound_onRound (p : BlockProgress) (rnd : UInt32) (now : Nat) :
    ((p.onRound rnd now).getD p).lastRound = ProgressCall.raise p.lastRound (.onRound rnd now) ∧
      ((p.onRound rnd now).getD p).lagSince = p.lagSince := by
  simp only [onRound, ProgressCall.raise]
  split
  · exact ⟨rfl, rfl⟩
  · split
    · rename_i hlt
      exact ⟨(max_eq_right hlt.le).symm, rfl⟩
    · rename_i hle
      exact ⟨(max_eq_left (not_lt.mp hle)).symm, rfl⟩

/-- **The state behind any calls**, in terms of the calls alone. -/
theorem after_calls (calls : List ProgressCall) (p : BlockProgress) :
    (calls.foldl (call lagRounds grace) p).lastRound = ProgressCall.highest p.lastRound calls ∧
    (calls.foldl (call lagRounds grace) p).lagSince =
      (ProgressCall.checks p.lastRound calls).foldl
        (Streak.tick (Check.trails (lagRounds.toNat + 1)) Check.now) p.lagSince := by
  induction calls generalizing p with
  | nil => exact ⟨rfl, rfl⟩
  | cons c calls ih =>
    obtain ⟨hround, hsince⟩ := ih (p.call lagRounds grace c)
    rw [List.foldl_cons, hround, hsince, ProgressCall.highest, ProgressCall.highest, List.foldl_cons]
    cases c with
    | onRound rnd now =>
      obtain ⟨hr, hs⟩ := lastRound_onRound p rnd now
      simp only [call, ProgressCall.checks, hr, hs, and_self]
    | hold now => exact ⟨rfl, rfl⟩
    | lagging freshest nodeBackedUp now =>
      simp only [call, lagging_eq, ProgressCall.raise, ProgressCall.checks, List.foldl_cons, and_self]

end BlockProgress

/-! ## 3. `StalledBehind` -/

def STALL_LAG_ROUNDS : UInt32 := 45

def STALL_LAG_GRACE : Nat := 3000000000

def STALL_LAG_WIDEN : UInt32 := 30

namespace StalledBehind

def call (s : StalledBehind) (c : Check) : StalledBehind := (s.check c.own c.freshest c.backedUp c.now).1

/-- What its timer keeps of the check it was started at. -/
def start (c : Check) : Nat × UInt32 := (c.now, BlockProgress.behindOf c.freshest c.own)

variable {rounds widen : UInt32} (grace : Nat)

/-- The timer of `check` is a streak timer. -/
theorem check_eq (hpos : 0 < rounds) (since : Option (Nat × UInt32)) (c : Check) :
    check ⟨rounds, grace, widen, since⟩ c.own c.freshest c.backedUp c.now =
      (⟨rounds, grace, widen, Streak.tick (Check.trails rounds.toNat) start since c⟩,
        (Streak.tick (Check.trails rounds.toNat) start since c).bind fun since =>
          if grace ≤ c.now - since.1 ∧ Word.satAdd since.2 widen ≤ BlockProgress.behindOf c.freshest c.own then
            some (BlockProgress.behindOf c.freshest c.own)
          else none) := by
  have hguard : c.Trails rounds.toNat ↔
      ¬ (c.own = 0 ∨ c.backedUp = true ∨ BlockProgress.behindOf c.freshest c.own < rounds) := by
    rw [Check.trails_iff_distance (UInt32.lt_iff_toNat_lt.mp hpos), ← Check.toNat_behindOf,
      UInt32.lt_iff_toNat_lt]
  unfold check Streak.tick
  by_cases h : c.own = 0 ∨ c.backedUp = true ∨ BlockProgress.behindOf c.freshest c.own < rounds
  · rw [if_pos h, if_neg (fun ht => hguard.mp (Check.trails_iff.mp ht) h)]
    rfl
  · rw [if_neg h, if_pos (Check.trails_iff.mpr (hguard.mpr h))]
    rfl

theorem after_checks (hpos : 0 < rounds) (cs : List Check) (since : Option (Nat × UInt32)) :
    cs.foldl call ⟨rounds, grace, widen, since⟩ =
      ⟨rounds, grace, widen, cs.foldl (Streak.tick (Check.trails rounds.toNat) start) since⟩ := by
  induction cs generalizing since with
  | nil => rfl
  | cons c cs ih =>
    rw [List.foldl_cons, call, check_eq grace hpos]
    exact ih _

end StalledBehind

/-! ## 4. Exactly the unbroken streaks -/

/-- Up to `t`, the checks `seen` were made one after the other. -/
def UpTo (t : Nat) (seen : List Check) : Prop :=
  (seen.Pairwise fun c d => c.now ≤ d.now) ∧ ∀ c ∈ seen, c.now ≤ t

theorem upTo_of_pairwise {cs : List Check} {last : Check}
    (h : (cs.map Check.now ++ [last.now]).Pairwise (· ≤ ·)) : UpTo last.now (cs ++ [last]) := by
  have hsorted : (cs ++ [last]).Pairwise fun c d => c.now ≤ d.now := by
    rw [← List.pairwise_map, List.map_append]
    exact h
  refine ⟨hsorted, ?_⟩
  intro c hc
  rcases List.mem_append.mp hc with hc | hc
  · exact (List.pairwise_append.mp hsorted).2.2 c hc last (List.mem_singleton_self last)
  · rw [List.mem_singleton.mp hc]

theorem upTo_of_calls {first : UInt32} {calls : List ProgressCall} {last : Check}
    (h : (calls.map ProgressCall.now ++ [last.now]).Pairwise (· ≤ ·)) :
    UpTo last.now (ProgressCall.checks first calls ++ [last]) :=
  upTo_of_pairwise (h.sublist ((ProgressCall.now_checks_sublist first calls).append_right _))

/-- A streak that goes on for the grace period. -/
def Lasts (least grace t : Nat) (seen : List Check) : Prop :=
  ∃ streak c, Streak.Ends (Check.trails least) streak seen ∧ streak.head? = some c ∧ c.now + grace ≤ t

theorem lasts_iff {least grace t : Nat} {seen : List Check} (h : UpTo t seen) :
    Lasts least grace t seen ↔
      ∃ c, (Streak.current (Check.trails least) seen).head? = some c ∧ c.now + grace ≤ t := by
  have hmono : seen.Pairwise fun c d => c.now + grace ≤ d.now + grace :=
    h.1.imp fun hle => Nat.add_le_add_right hle grace
  exact Streak.exists_ends_iff hmono t

/-- A check that found the stream not trailing gives it the whole grace period again. -/
theorem Lasts.restarts {least grace t : Nat} {pre post : List Check} {c : Check} (hupTo : UpTo t (pre ++ c :: post))
    (hc : ¬ c.Trails least) (h : Lasts least grace t (pre ++ c :: post)) :
    ∃ d, post.head? = some d ∧ d.now + grace ≤ t := by
  obtain ⟨streak, first, hends, hfirst, hle⟩ := h
  obtain ⟨d, hd, hdf⟩ := hends.restarts (fun hbad => hc (Check.trails_iff.mp hbad)) hfirst hupTo.1
  exact ⟨d, hd, (Nat.add_le_add_right hdf grace).trans hle⟩

theorem lagging_flags_iff {first : UInt32} {start : Nat} {lagRounds : UInt32} {grace : Nat}
    {calls : List ProgressCall} {last : Check} (hown : last.own = ProgressCall.highest first calls)
    (hupTo : UpTo last.now (ProgressCall.checks first calls ++ [last])) (b : UInt32) :
    ((calls.foldl (BlockProgress.call lagRounds grace) (BlockProgress.new first start)).lagging
        last.freshest lagRounds grace last.backedUp last.now).2 = some b ↔
      b.toNat = last.distance ∧
        Lasts (lagRounds.toNat + 1) grace last.now (ProgressCall.checks first calls ++ [last]) := by
  obtain ⟨hround, hsince⟩ := BlockProgress.after_calls lagRounds grace calls (BlockProgress.new first start)
  have hround : (calls.foldl (BlockProgress.call lagRounds grace) (BlockProgress.new first start)).lastRound =
      last.own := hround.trans hown.symm
  have hsince : (calls.foldl (BlockProgress.call lagRounds grace) (BlockProgress.new first start)).lagSince =
      Streak.timer (Check.trails (lagRounds.toNat + 1)) Check.now (ProgressCall.checks first calls) := hsince
  rw [BlockProgress.lagging_eq, hround, hsince, lasts_iff hupTo, ← Streak.timer_concat, Streak.timer_eq]
  simp only [Option.bind_eq_some_iff, Option.map_eq_some_iff, Option.ite_none_right_eq_some, Option.some.injEq]
  constructor
  · rintro ⟨-, ⟨c, hc, rfl⟩, hgrace, rfl⟩
    have hle := hupTo.2 c ((Streak.maximal_current _).suffix.mem (List.mem_of_mem_head? hc))
    exact ⟨Check.toNat_behindOf last, c, hc, by omega⟩
  · rintro ⟨hb, c, hc, hle⟩
    refine ⟨c.now, ⟨c, hc, rfl⟩, Nat.le_sub_of_add_le' hle, ?_⟩
    rw [← UInt32.toNat_inj, hb]
    exact Check.toNat_behindOf last

theorem check_flags_iff {rounds widen : UInt32} {grace : Nat} (hpos : 0 < rounds) {cs : List Check} {last : Check}
    (hupTo : UpTo last.now (cs ++ [last])) (b : UInt32) :
    ((cs.foldl StalledBehind.call (StalledBehind.new rounds grace widen)).check
        last.own last.freshest last.backedUp last.now).2 = some b ↔
      b.toNat = last.distance ∧
        ∃ streak c, Streak.Maximal (Check.trails rounds.toNat) streak (cs ++ [last]) ∧ streak.head? = some c ∧
          c.now + grace ≤ last.now ∧ c.distance + widen.toNat ≤ b.toNat := by
  have hstate : cs.foldl StalledBehind.call (StalledBehind.new rounds grace widen) =
      ⟨rounds, grace, widen, Streak.timer (Check.trails rounds.toNat) StalledBehind.start cs⟩ :=
    StalledBehind.after_checks grace hpos cs none
  rw [hstate, StalledBehind.check_eq grace hpos, ← Streak.timer_concat, Streak.timer_eq]
  have hmax := Streak.maximal_current (p := Check.trails rounds.toNat) (cs ++ [last])
  -- the sum that saturates is out of reach of a stream that has a round
  have hwiden : ∀ c, (Streak.current (Check.trails rounds.toNat) (cs ++ [last])).head? = some c →
      (Word.satAdd (BlockProgress.behindOf c.freshest c.own) widen ≤ BlockProgress.behindOf last.freshest last.own ↔
        c.distance + widen.toNat ≤ last.distance) := by
    intro c hc
    have hne : Streak.current (Check.trails rounds.toNat) (cs ++ [last]) ≠ [] := List.ne_nil_of_mem (List.mem_of_mem_head? hc)
    have hlast := Check.distance_lt_max (Check.trails_iff.mp (hmax.all last (hmax.last_mem hne)))
    rw [UInt32.le_iff_toNat_le, Word.toNat_satAdd, Check.toNat_behindOf, Check.toNat_behindOf]
    omega
  simp only [Option.bind_eq_some_iff, Option.map_eq_some_iff, Option.ite_none_right_eq_some, Option.some.injEq]
  constructor
  · rintro ⟨-, ⟨c, hc, rfl⟩, ⟨hgrace, hwide⟩, rfl⟩
    have hgrace : grace ≤ last.now - c.now := hgrace
    have hle := hupTo.2 c (hmax.suffix.mem (List.mem_of_mem_head? hc))
    refine ⟨Check.toNat_behindOf last, _, c, hmax, hc, by omega, ?_⟩
    rw [Check.toNat_behindOf]
    exact (hwiden c hc).mp hwide
  · rintro ⟨hb, streak, c, hstreak, hc, hgrace, hwide⟩
    rw [hstreak.eq_current] at hc
    rw [hb] at hwide
    refine ⟨StalledBehind.start c, ⟨c, hc, rfl⟩, ⟨Nat.le_sub_of_add_le' hgrace, (hwiden c hc).mpr hwide⟩, ?_⟩
    rw [← UInt32.toNat_inj, hb]
    exact Check.toNat_behindOf last

/-- **The lag guards flag exactly an unbroken streak.**  For any calls at non-decreasing
    instants, up to a check `last`:
    `lagging` flags `b` if and only if `b` is the distance at the last check and the checks
    from some check on, made at least the grace period ago, all found the stream more
    than `lagRounds` behind;
    `check` flags `b` if and only if `b` is the distance at the last check, the longest run
    of checks that found the stream `rounds` or more behind started at least the grace
    period ago, and it has fallen `widen` further behind since its first check;
    and a check in between that found it otherwise starts the grace period anew. -/
theorem lag_guards_flag_unbroken_streaks (last : Check) (b : UInt32) :
    (∀ (first : UInt32) (start : Nat) (lagRounds : UInt32) (grace : Nat) (calls : List ProgressCall),
      last.own = ProgressCall.highest first calls →
      (calls.map ProgressCall.now ++ [last.now]).Pairwise (· ≤ ·) →
      let flag := ((calls.foldl (BlockProgress.call lagRounds grace) (BlockProgress.new first start)).lagging
        last.freshest lagRounds grace last.backedUp last.now).2
      let seen := ProgressCall.checks first calls ++ [last]
      (flag = some b ↔ b.toNat = last.distance ∧ Lasts (lagRounds.toNat + 1) grace last.now seen) ∧
      ∀ pre c post, seen = pre ++ c :: post → ¬ c.Trails (lagRounds.toNat + 1) → flag = some b →
        ∃ d, post.head? = some d ∧ d.now + grace ≤ last.now) ∧
    (∀ (rounds : UInt32) (grace : Nat) (widen : UInt32) (cs : List Check), 0 < rounds →
      (cs.map Check.now ++ [last.now]).Pairwise (· ≤ ·) →
      let flag := ((cs.foldl StalledBehind.call (StalledBehind.new rounds grace widen)).check
        last.own last.freshest last.backedUp last.now).2
      let seen := cs ++ [last]
      (flag = some b ↔ b.toNat = last.distance ∧
        ∃ streak c, Streak.Maximal (Check.trails rounds.toNat) streak seen ∧ streak.head? = some c ∧
          c.now + grace ≤ last.now ∧ c.distance + widen.toNat ≤ b.toNat) ∧
      ∀ pre c post, seen = pre ++ c :: post → ¬ c.Trails rounds.toNat → flag = some b →
        ∃ d, post.head? = some d ∧ d.now + grace ≤ last.now) := by
  constructor
  · intro first start lagRounds grace calls hown hmono flag seen
    have hupTo : UpTo last.now seen := upTo_of_calls hmono
    have hiff : flag = some b ↔ _ := lagging_flags_iff hown hupTo b
    refine ⟨hiff, ?_⟩
    intro pre c post hsplit hc hflag
    have hlasts : Lasts (lagRounds.toNat + 1) grace last.now seen := (hiff.mp hflag).2
    rw [hsplit] at hupTo hlasts
    exact hlasts.restarts hupTo hc
  · intro rounds grace widen cs hpos hmono flag seen
    have hupTo : UpTo last.now seen := upTo_of_pairwise hmono
    have hiff : flag = some b ↔ _ := check_flags_iff hpos hupTo b
    refine ⟨hiff, ?_⟩
    intro pre c post hsplit hc hflag
    obtain ⟨-, streak, first, hstreak, hfirst, hgrace, -⟩ := hiff.mp hflag
    have hlasts : Lasts rounds.toNat grace last.now seen := ⟨streak, first, hstreak.toEnds, hfirst, hgrace⟩
    rw [hsplit] at hupTo hlasts
    exact hlasts.restarts hupTo hc

/-- A stream that stops 300 rounds behind, checked twice before its grace has run. -/
def stoppedCalls : List ProgressCall :=
  [.onRound 1496000900 0, .lagging (some 1496001200) false 0, .lagging (some 1496001200) false 14000000000]

/-- The checks of a stream that stops while the others move on. -/
def stoppedChecks : List Check :=
  [⟨1496000900, none, false, 0⟩, ⟨1496000900, some 1496000945, false, 0⟩,
    ⟨1496000900, some 1496000988, false, 2900000000⟩]

theorem lag_guards_flag_stopped_stream :
    ((stoppedCalls.foldl (BlockProgress.call 100 15000000000) (BlockProgress.new 0 0)).lagging
      (some 1496001200) 100 15000000000 false 15000000000).2 = some 300 ∧
    ((stoppedChecks.foldl StalledBehind.call
      (StalledBehind.new STALL_LAG_ROUNDS STALL_LAG_GRACE STALL_LAG_WIDEN)).check
        1496000900 (some 1496000990) false 3000000000).2 = some 90 := by
  constructor
  · refine (((lag_guards_flag_unbroken_streaks ⟨1496000900, some 1496001200, false, 15000000000⟩ 300).1
      0 0 100 15000000000 stoppedCalls (by decide) (by decide)).1).mpr ⟨by decide, ?_⟩
    exact ⟨ProgressCall.checks 0 stoppedCalls ++ [⟨1496000900, some 1496001200, false, 15000000000⟩], _,
      ⟨List.suffix_refl _, by decide⟩, rfl, by decide⟩
  · refine (((lag_guards_flag_unbroken_streaks ⟨1496000900, some 1496000990, false, 3000000000⟩ 90).2
      STALL_LAG_ROUNDS STALL_LAG_GRACE STALL_LAG_WIDEN stoppedChecks (by decide) (by decide)).1).mpr ⟨by decide, ?_⟩
    exact ⟨_, _, Streak.maximal_current _, rfl, by decide, by decide⟩

end Hypersync.Push
