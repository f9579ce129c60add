import Hypersync.Lib.KeyMap
import Hypersync.Lib.Machine
import Hypersync.Lib.Runs
import Hypersync.Push.Progress
import Mathlib.Data.List.Sort

/-!
# The gateway's freshest round

Every live stream reports its rounds to one `FreshestRound`.  What it answers is
the highest round that streams of two different peers have reached, counting only
streams whose round rose lately and rounds not too far past the network tip.
Sessions are measured against it, so a peer that could raise it alone could end
the sessions of all others; the theorem says that none can.
-/

namespace Hypersync.Push

/-! ## 1. The table of streams -/

def FRESHEST_TIP_SLACK : UInt32 := MAX_ACTIVE_ROUND_JUMP

/-- What is kept of a stream: its peer, its highest round and when that last rose. -/
structure Stream where
  peer : String
  round : UInt32
  at_ : Nat
deriving DecidableEq, Repr

structure FreshestRound where
  streams : KeyMap Nat Stream
  nextId : Nat
  netTip : UInt32
  lagRounds : UInt32
  grace : Nat
  stale : Nat

namespace FreshestRound

def new (lagRounds : UInt32) (grace stale : Nat) (netTip : UInt32) : FreshestRound where
  streams := ∅
  nextId := 0
  netTip := netTip
  lagRounds := lagRounds
  grace := grace
  stale := stale

/-- The entry of stream `id` after a round: a new one, or one that only rises. -/
def noteRound (streams : KeyMap Nat Stream) (id : Nat) (peer : String) (round : UInt32) (now : Nat) :
    KeyMap Nat Stream :=
  match streams.lookup id with
  | none => streams.insert id ⟨peer, round, now⟩
  | some e =>
    if e.round < round then KeyMap.modify id (fun e => { e with round := round, at_ := now }) streams
    else streams

def offer (f : FreshestRound) (id : Nat) (peer : String) (round : UInt32) (now : Nat) : FreshestRound :=
  if f.netTip = 0 ∨ Word.satAdd f.netTip FRESHEST_TIP_SLACK < round then f
  else
    let streams := KeyMap.retain (fun _ e => now - e.at_ ≤ f.stale) f.streams
    { f with streams := noteRound streams id peer round now }

/-- The entry is counted at `now`. -/
def Counts (f : FreshestRound) (maxAge now : Nat) (e : Stream) : Prop :=
  now - e.at_ ≤ maxAge ∧ e.round ≤ Word.satAdd f.netTip FRESHEST_TIP_SLACK

instance (f : FreshestRound) (maxAge now : Nat) (e : Stream) : Decidable (f.Counts maxAge now e) :=
  inferInstanceAs (Decidable (_ ∧ _))

/-- The loop over the entries: the best counted round of each peer. -/
def perPeer (f : FreshestRound) (maxAge now : Nat) : List Stream → KeyMap String UInt32 → KeyMap String UInt32
  | [], best => best
  | e :: streams, best =>
    perPeer f maxAge now streams
      (if f.Counts maxAge now e then best.insert e.peer (max ((best.lookup e.peer).getD 0) e.round)
      else best)

def getWithin (f : FreshestRound) (maxAge now : Nat) : Option UInt32 :=
  if f.netTip = 0 then none
  else
    let rounds := KeyMap.values (f.perPeer maxAge now (KeyMap.values f.streams) ∅)
    (rounds.insertionSort (· ≥ ·))[1]?

def get (f : FreshestRound) (now : Nat) : Option UInt32 := f.getWithin f.stale now

def selectFloor (f : FreshestRound) (now : Nat) : UInt32 :=
  match f.getWithin (f.stale - f.grace) now with
  | none => 0
  | some r => Word.satSub r f.lagRounds

variable {f : FreshestRound} {maxAge now : Nat}

/-- A peer's best round is one that a counted stream of that peer reached. -/
theorem perPeer_attained {all : List Stream} : ∀ (streams : List Stream) (best : KeyMap String UInt32),
    (∀ e ∈ streams, e ∈ all) →
    (∀ peer r, best.lookup peer = some r → ∃ e ∈ all, f.Counts maxAge now e ∧ e.peer = peer ∧ e.round = r) →
    ∀ peer r, (f.perPeer maxAge now streams best).lookup peer = some r →
      ∃ e ∈ all, f.Counts maxAge now e ∧ e.peer = peer ∧ e.round = r := by
  intro streams
  induction streams with
  | nil =>
    intro best _ hbest
    exact hbest
  | cons e streams ih =>
    intro best hsub hbest
    apply ih _ (fun e' he' => hsub e' (List.mem_cons_of_mem _ he'))
    split
    · rename_i hcounts
      intro peer r hr
      rcases KeyMap.lookup_insert_inv hr with ⟨rfl, rfl⟩ | ⟨-, hr⟩
      · have he := hsub e List.mem_cons_self
        rcases hold : best.lookup e.peer with _ | w
        · refine ⟨e, he, hcounts, rfl, ?_⟩
          exact (max_eq_right (UInt32.zero_le)).symm
        · -- the greater of two rounds, both reached
          rcases le_total w e.round with hle | hle
          · exact ⟨e, he, hcounts, rfl, (max_eq_right hle).symm⟩
          · obtain ⟨e', he', hcounts', hpeer, hround⟩ := hbest e.peer w hold
            exact ⟨e', he', hcounts', hpeer, hround.trans (max_eq_left hle).symm⟩
      · exact hbest peer r hr
    · exact hbest

/-- The second of the rounds, sorted downwards, is reached by two of them. -/
theorem two_le_of_second {rounds : List UInt32} {r : UInt32}
    (h : (rounds.insertionSort (· ≥ ·))[1]? = some r) : 2 ≤ rounds.countP fun x => decide (r ≤ x) := by
  obtain ⟨hlt, rfl⟩ := List.getElem?_eq_some_iff.mp h
  have hsorted : (rounds.insertionSort (· ≥ ·)).Pairwise (· ≥ ·) := List.pairwise_insertionSort _ _
  rw [← (List.perm_insertionSort (· ≥ ·) rounds).countP_eq]
  apply Runs.sub_le_countP (i := 0) (j := 2) hlt
  intro k hk _ hk2
  rw [decide_eq_true_eq]
  rcases Nat.lt_succ_iff_lt_or_eq.mp hk2 with hk1 | rfl
  · exact List.pairwise_iff_getElem.mp hsorted k 1 hk hlt hk1
  · exact le_rfl

/-- **What a reading says.**  There is a tip, and besides any one peer another has a counted
    stream that reached the round read. -/
theorem getWithin_eq_some {r : UInt32} (h : f.getWithin maxAge now = some r) (peer : String) :
    f.netTip ≠ 0 ∧
      ∃ id e, f.streams.lookup id = some e ∧ e.peer ≠ peer ∧ f.Counts maxAge now e ∧ r ≤ e.round := by
  unfold getWithin at h
  split at h
  · cases h
  rename_i htip
  refine ⟨htip, ?_⟩
  obtain ⟨other, best, hne, hbest, hle⟩ := KeyMap.exists_ne_of_two_le (two_le_of_second h) peer
  have hempty : ∀ peer r, (∅ : KeyMap String UInt32).lookup peer = some r →
      ∃ e ∈ KeyMap.values f.streams, f.Counts maxAge now e ∧ e.peer = peer ∧ e.round = r := by
    intro peer r hr
    rw [AList.lookup_empty] at hr
    cases hr
  obtain ⟨e, he, hcounts, rfl, rfl⟩ :=
    perPeer_attained _ _ (fun e he => he) hempty other best hbest
  obtain ⟨id, hid⟩ := KeyMap.mem_values.mp he
  exact ⟨id, e, hid, hne, hcounts, of_decide_eq_true hle⟩

/-- The second of the rounds is high when two of them are. -/
theorem exists_second_of_two_le {rounds : List UInt32} {r : UInt32}
    (h : 2 ≤ rounds.countP fun x => decide (r ≤ x)) : ∃ x, (rounds.insertionSort (· ≥ ·))[1]? = some x ∧ r ≤ x := by
  have hsorted : (rounds.insertionSort (· ≥ ·)).Pairwise (· ≥ ·) := List.pairwise_insertionSort _ _
  rw [← (List.perm_insertionSort (· ≥ ·) rounds).countP_eq] at h
  rcases hlist : rounds.insertionSort (· ≥ ·) with _ | ⟨a, _ | ⟨b, rest⟩⟩
  · rw [hlist] at h
    cases h
  · rw [hlist] at h
    exact absurd (h.trans List.countP_le_length) (Nat.not_le.mpr Nat.one_lt_two)
  · rw [hlist] at h hsorted
    refine ⟨b, rfl, ?_⟩
    by_contra hlow
    -- then only the first can be as high as `r`
    have hrest : (b :: rest).countP (fun x => decide (r ≤ x)) = 0 := by
      rw [List.countP_eq_zero]
      intro x hx
      rw [decide_eq_true_eq]
      intro hrx
      rcases List.mem_cons.mp hx with rfl | hx
      · exact hlow hrx
      · exact hlow (hrx.trans ((List.pairwise_cons.mp (List.pairwise_cons.mp hsorted).2).1 x hx))
    rw [List.countP_cons, hrest] at h
    split at h <;> omega

/-- A peer's best round is no lower than any of its counted streams'. -/
theorem perPeer_le (streams : List Stream) (best : KeyMap String UInt32) {peer : String} {r : UInt32}
    (h : (∃ w, best.lookup peer = some w ∧ r ≤ w) ∨
      ∃ e ∈ streams, f.Counts maxAge now e ∧ e.peer = peer ∧ r ≤ e.round) :
    ∃ w, (f.perPeer maxAge now streams best).lookup peer = some w ∧ r ≤ w := by
  induction streams generalizing best with
  | nil =>
    rcases h with hbest | ⟨e, he, -⟩
    · exact hbest
    · cases he
  | cons e streams ih =>
    apply ih
    rcases h with ⟨w, hw, hle⟩ | ⟨e', he', hcounts, rfl, hle⟩
    · left
      split
      · by_cases hpeer : peer = e.peer
        · subst hpeer
          rw [AList.lookup_insert, hw]
          exact ⟨_, rfl, hle.trans (le_max_left _ _)⟩
        · rw [AList.lookup_insert_ne hpeer]
          exact ⟨w, hw, hle⟩
      · exact ⟨w, hw, hle⟩
    · rcases List.mem_cons.mp he' with rfl | he'
      · left
        rw [if_pos hcounts, AList.lookup_insert]
        exact ⟨_, rfl, hle.trans (le_max_right _ _)⟩
      · exact Or.inr ⟨e', he', hcounts, rfl, hle⟩

/-- **What makes a reading.**  With a tip, two peers that have counted streams at or above a
    round bring the reading there. -/
theorem exists_getWithin {i j : Nat} {d e : Stream} {r : UInt32} (htip : f.netTip ≠ 0)
    (hd : f.streams.lookup i = some d) (he : f.streams.lookup j = some e) (hpeer : d.peer ≠ e.peer)
    (hcd : f.Counts maxAge now d) (hce : f.Counts maxAge now e) (hrd : r ≤ d.round) (hre : r ≤ e.round) :
    ∃ g, f.getWithin maxAge now = some g ∧ r ≤ g := by
  obtain ⟨v, hv, hrv⟩ := perPeer_le (KeyMap.values f.streams) ∅ (Or.inr ⟨d, KeyMap.mem_values.mpr ⟨i, hd⟩, hcd, rfl, hrd⟩)
  obtain ⟨w, hw, hrw⟩ := perPeer_le (KeyMap.values f.streams) ∅ (Or.inr ⟨e, KeyMap.mem_values.mpr ⟨j, he⟩, hce, rfl, hre⟩)
  rw [getWithin, if_neg htip]
  exact exists_second_of_two_le
    (KeyMap.two_le_countP_values hpeer hv hw (decide_eq_true hrv) (decide_eq_true hrw))

/-- The tip lets the round through. -/
def Takes (f : FreshestRound) (round : UInt32) : Prop :=
  f.netTip ≠ 0 ∧ round ≤ Word.satAdd f.netTip FRESHEST_TIP_SLACK

/-- A stream's entry after a round, from the one it had. -/
def noted (old : Option Stream) (peer : String) (round : UInt32) (now : Nat) : Stream :=
  match old with
  | none => ⟨peer, round, now⟩
  | some e => if e.round < round then { e with round := round, at_ := now } else e

variable {id j : Nat} {peer : String} {round : UInt32}

theorem offer_of_not_takes (h : ¬ f.Takes round) : f.offer id peer round now = f := by
  apply if_pos
  rw [Takes, not_and_or, not_not, not_le] at h
  exact h

theorem offer_of_takes (h : f.Takes round) :
    f.offer id peer round now =
      { f with streams := noteRound (KeyMap.retain (fun _ e => now - e.at_ ≤ f.stale) f.streams) id peer round now } := by
  apply if_neg
  rw [not_or, not_lt]
  exact h

theorem lookup_noteRound_self (streams : KeyMap Nat Stream) :
    (noteRound streams id peer round now).lookup id = some (noted (streams.lookup id) peer round now) := by
  unfold noteRound noted
  rcases hold : streams.lookup id with _ | e
  · exact AList.lookup_insert streams
  · dsimp only
    split
    · rw [KeyMap.lookup_modify_self, hold]
      rfl
    · exact hold

theorem lookup_noteRound_ne (streams : KeyMap Nat Stream) (hj : j ≠ id) :
    (noteRound streams id peer round now).lookup j = streams.lookup j := by
  unfold noteRound
  split
  · exact AList.lookup_insert_ne hj
  · split
    · exact KeyMap.lookup_modify_ne hj _ _
    · rfl

/-- An offer purges what is stale, then notes the round. -/
theorem lookup_offer_self (h : f.Takes round) :
    (f.offer id peer round now).streams.lookup id =
      some (noted ((f.streams.lookup id).filter fun e => now - e.at_ ≤ f.stale) peer round now) := by
  rw [offer_of_takes h, lookup_noteRound_self, KeyMap.lookup_retain]

theorem lookup_offer_ne (h : f.Takes round) (hj : j ≠ id) :
    (f.offer id peer round now).streams.lookup j = (f.streams.lookup j).filter fun e => now - e.at_ ≤ f.stale := by
  rw [offer_of_takes h, lookup_noteRound_ne _ hj, KeyMap.lookup_retain]

/-- What an offer leaves in the table: entries it kept, and the stream's own. -/
theorem lookup_offer {e : Stream} (h : (f.offer id peer round now).streams.lookup j = some e) :
    f.streams.lookup j = some e ∨
      j = id ∧ e.round = round ∧
        (e.peer = peer ∨ ∃ old, f.streams.lookup id = some old ∧ e.peer = old.peer) := by
  by_cases htakes : f.Takes round
  · by_cases hj : j = id
    · subst hj
      rw [lookup_offer_self htakes, Option.some.injEq] at h
      rcases hold : (f.streams.lookup j).filter fun e => now - e.at_ ≤ f.stale with _ | old
      · rw [hold] at h
        subst h
        exact Or.inr ⟨rfl, rfl, Or.inl rfl⟩
      · rw [hold] at h
        have hold := (Option.filter_eq_some_iff.mp hold).1
        by_cases hlt : old.round < round
        · rw [noted, if_pos hlt] at h
          subst h
          exact Or.inr ⟨rfl, rfl, Or.inr ⟨old, hold, rfl⟩⟩
        · rw [noted, if_neg hlt] at h
          exact Or.inl (h ▸ hold)
    · rw [lookup_offer_ne htakes hj] at h
      exact Or.inl (Option.filter_eq_some_iff.mp h).1
  · rw [offer_of_not_takes htakes] at h
    exact Or.inl h

end FreshestRound

/-! ## 2. Streams come and go -/

/-- A stream's handle. -/
structure FreshestFeed where
  peer : String
  own : UInt32
deriving DecidableEq, Repr

/-- The table, the handles in use, and (for statements only) every round ever offered. -/
structure Gauge where
  freshest : FreshestRound
  feeds : KeyMap Nat FreshestFeed
  offered : List (String × UInt32)

inductive Gauge.Event where
  | feed (peer : String)
  | offer (id : Nat) (round : UInt32) (now : Nat)
  | drop (id : Nat)
  | setTip (tip : UInt32)
deriving DecidableEq, Repr

namespace Gauge

def new (lagRounds : UInt32) (grace stale : Nat) (netTip : UInt32) : Gauge where
  freshest := FreshestRound.new lagRounds grace stale netTip
  feeds := ∅
  offered := []

/-- One operation; offers and drops need a handle that is in use. -/
def step (g : Gauge) : Gauge.Event → Option Gauge
  | .feed peer => some { g with
      freshest := { g.freshest with nextId := g.freshest.nextId + 1 }
      feeds := g.feeds.insert g.freshest.nextId ⟨peer, 0⟩ }
  | .offer id round now =>
    match g.feeds.lookup id with
    | none => none
    | some feed => some {
        freshest := g.freshest.offer id feed.peer round now
        feeds := KeyMap.modify id (fun feed => { feed with own := max feed.own round }) g.feeds
        offered := g.offered ++ [(feed.peer, round)] }
  | .drop id =>
    if id ∈ g.feeds then some { g with
      freshest := { g.freshest with streams := g.freshest.streams.erase id }
      feeds := g.feeds.erase id }
    else none
  | .setTip tip => some { g with freshest := { g.freshest with netTip := tip } }

/-- Every entry belongs to a handle in use, under its peer, and was offered; ids are given out
    once. -/
structure Inv (g : Gauge) : Prop where
  feed : ∀ id e, g.freshest.streams.lookup id = some e →
    ∃ feed, g.feeds.lookup id = some feed ∧ feed.peer = e.peer
  offered : ∀ id e, g.freshest.streams.lookup id = some e → (e.peer, e.round) ∈ g.offered
  below : ∀ id feed, g.feeds.lookup id = some feed → id < g.freshest.nextId

theorem Inv.init (lagRounds : UInt32) (grace stale : Nat) (netTip : UInt32) :
    (new lagRounds grace stale netTip).Inv where
  feed := fun _ _ h => by cases h
  offered := fun _ _ h => by cases h
  below := fun _ _ h => by cases h

theorem Inv.offer {g : Gauge} (h : g.Inv) {id : Nat} {feed : FreshestFeed} (hfeed : g.feeds.lookup id = some feed)
    (round : UInt32) (now : Nat) :
    Inv {
      freshest := g.freshest.offer id feed.peer round now
      feeds := KeyMap.modify id (fun feed => { feed with own := max feed.own round }) g.feeds
      offered := g.offered ++ [(feed.peer, round)] } := by
  have hlookup : ∀ j e, (g.freshest.offer id feed.peer round now).streams.lookup j = some e →
      g.freshest.streams.lookup j = some e ∨ j = id ∧ e.round = round ∧ e.peer = feed.peer := by
    intro j e he
    rcases FreshestRound.lookup_offer he with hold | ⟨hj, hround, hpeer | ⟨old, hold, hpeer⟩⟩
    · exact Or.inl hold
    · exact Or.inr ⟨hj, hround, hpeer⟩
    · -- an entry made before has the peer of the same handle
      obtain ⟨feed', hfeed', hpeer'⟩ := h.feed id old hold
      rw [hfeed, Option.some.injEq] at hfeed'
      subst hfeed'
      exact Or.inr ⟨hj, hround, hpeer.trans hpeer'.symm⟩
  have hfeeds : ∀ j fd, g.feeds.lookup j = some fd →
      ∃ fd', (KeyMap.modify id (fun feed => { feed with own := max feed.own round }) g.feeds).lookup j =
        some fd' ∧ fd'.peer = fd.peer := by
    intro j fd hfd
    by_cases hj : j = id
    · subst hj
      rw [KeyMap.lookup_modify_self, hfd]
      exact ⟨_, rfl, rfl⟩
    · rw [KeyMap.lookup_modify_ne hj, hfd]
      exact ⟨fd, rfl, rfl⟩
  refine ⟨?_, ?_, ?_⟩
  · intro j e he
    rcases hlookup j e he with hold | ⟨rfl, -, hpeer⟩
    · obtain ⟨fd, hfd, hpeer⟩ := h.feed j e hold
      obtain ⟨fd', hfd', hpeer'⟩ := hfeeds j fd hfd
      exact ⟨fd', hfd', hpeer'.trans hpeer⟩
    · obtain ⟨fd', hfd', hpeer'⟩ := hfeeds j feed hfeed
      exact ⟨fd', hfd', hpeer'.trans hpeer.symm⟩
  · intro j e he
    rcases hlookup j e he with hold | ⟨-, hround, hpeer⟩
    · exact List.mem_append_left _ (h.offered j e hold)
    · rw [hround, hpeer]
      exact List.mem_append_right _ List.mem_cons_self
  · intro j fd hfd
    have hnext : (g.freshest.offer id feed.peer round now).nextId = g.freshest.nextId := by
      unfold FreshestRound.offer
      split <;> rfl
    simp only [hnext]
    have hmem : j ∈ g.feeds := KeyMap.mem_modify.mp (AList.lookup_isSome.mp (by rw [hfd]; rfl))
    obtain ⟨fd', hfd'⟩ := Option.isSome_iff_exists.mp (AList.lookup_isSome.mpr hmem)
    exact h.below j fd' hfd'

theorem Inv.step {g g' : Gauge} {e : Gauge.Event} (h : g.Inv) (hstep : g.step e = some g') : g'.Inv := by
  cases e with
  | feed peer =>
    cases hstep
    refine ⟨?_, h.offered, ?_⟩
    · intro id e he
      obtain ⟨fd, hfd, hpeer⟩ := h.feed id e he
      have hne : id ≠ g.freshest.nextId := Nat.ne_of_lt (h.below id fd hfd)
      exact ⟨fd, (AList.lookup_insert_ne hne).trans hfd, hpeer⟩
    · intro id fd hfd
      rcases KeyMap.lookup_insert_inv hfd with ⟨rfl, -⟩ | ⟨-, hfd⟩
      · exact Nat.lt_succ_self _
      · exact Nat.lt_succ_of_lt (h.below id fd hfd)
  | offer id round now =>
    simp only [Gauge.step] at hstep
    split at hstep <;> cases hstep
    rename_i feed hfeed
    exact h.offer hfeed round now
  | drop id =>
    simp only [Gauge.step] at hstep
    split at hstep <;> cases hstep
    refine ⟨?_, ?_, ?_⟩
    · intro j e he
      obtain ⟨hne, he⟩ := KeyMap.lookup_erase_inv he
      obtain ⟨fd, hfd, hpeer⟩ := h.feed j e he
      exact ⟨fd, (AList.lookup_erase_ne hne).trans hfd, hpeer⟩
    · intro j e he
      exact h.offered j e (KeyMap.lookup_erase_inv he).2
    · intro j fd hfd
      exact h.below j fd (KeyMap.lookup_erase_inv hfd).2
  | setTip tip =>
    cases hstep
    exact { h with }

/-! ## 3. No single peer moves the freshest round -/

/-- All peers but `peer` have only offered rounds up to `top`. -/
def OthersUpTo (g : Gauge) (peer : String) (top : UInt32) : Prop :=
  ∀ q r, (q, r) ∈ g.offered → q ≠ peer → r ≤ top

/-- **No single peer moves the freshest round.**  After any operations, for any peer and at any
    time: a reading is reached by a counted stream, still in use, of another peer, and
    is not far past the tip; without a tip there is none.  So if the others have only
    offered rounds up to `top`, neither guard flags a session that trails `top` by no
    more than it allows, whatever the peer offered. -/
theorem no_single_peer_moves_freshest {lagRounds netTip : UInt32} {grace stale : Nat}
    {events : List Gauge.Event} {g : Gauge}
    (hrun : Machine.Run step (fun _ _ => True) (new lagRounds grace stale netTip) events g)
    (peer : String) (now : Nat) :
    (∀ r, g.freshest.get now = some r →
      (∃ id feed e, g.feeds.lookup id = some feed ∧ g.freshest.streams.lookup id = some e ∧
        feed.peer = e.peer ∧ e.peer ≠ peer ∧ g.freshest.Counts g.freshest.stale now e ∧ r ≤ e.round) ∧
      r.toNat ≤ g.freshest.netTip.toNat + FRESHEST_TIP_SLACK.toNat) ∧
    (g.freshest.netTip = 0 → g.freshest.get now = none) ∧
    ∀ top, g.OthersUpTo peer top →
      (∀ (p : BlockProgress) (nodeBackedUp : Bool) (t : Nat),
        top.toNat ≤ p.lastRound.toNat + g.freshest.lagRounds.toNat →
        (p.lagging (g.freshest.get now) g.freshest.lagRounds g.freshest.grace nodeBackedUp t).2 = none) ∧
      ∀ (s : StalledBehind) (own allowance : UInt32) (nodeBackedUp : Bool) (t : Nat),
        s.rounds.toNat = allowance.toNat + 1 → top.toNat ≤ own.toNat + allowance.toNat →
        (s.check own (g.freshest.get now) nodeBackedUp t).2 = none := by
  have hinv : g.Inv := by
    apply hrun.invariant (Inv.init lagRounds grace stale netTip)
    intro a e b ha _ hstep
    exact ha.step hstep
  have hread : ∀ r, g.freshest.get now = some r →
      ∃ id feed e, g.feeds.lookup id = some feed ∧ g.freshest.streams.lookup id = some e ∧
        feed.peer = e.peer ∧ e.peer ≠ peer ∧ g.freshest.Counts g.freshest.stale now e ∧ r ≤ e.round := by
    intro r hr
    obtain ⟨-, id, e, he, hne, hcounts, hle⟩ := FreshestRound.getWithin_eq_some hr peer
    obtain ⟨feed, hfeed, hpeer⟩ := hinv.feed id e he
    exact ⟨id, feed, e, hfeed, he, hpeer, hne, hcounts, hle⟩
  refine ⟨?_, ?_, ?_⟩
  · intro r hr
    refine ⟨hread r hr, ?_⟩
    obtain ⟨-, -, e, -, -, -, -, hcounts, hle⟩ := hread r hr
    have hceil := hle.trans hcounts.2
    rw [UInt32.le_iff_toNat_le, Word.toNat_satAdd] at hceil
    omega
  · intro hzero
    rw [FreshestRound.get, FreshestRound.getWithin, if_pos hzero]
  · intro top hothers
    have htop : ∀ r, g.freshest.get now = some r → r ≤ top := by
      intro r hr
      obtain ⟨id, -, e, -, he, -, hne, -, hle⟩ := hread r hr
      exact hle.trans (hothers e.peer e.round (hinv.offered id e he) hne)
    have hbehind : ∀ (own : UInt32) (bound : Nat), top.toNat ≤ own.toNat + bound →
        (BlockProgress.behindOf (g.freshest.get now) own).toNat ≤ bound := by
      intro own bound hbound
      apply BlockProgress.toNat_behindOf_le
      intro r hr
      have hle := htop r hr
      rw [UInt32.le_iff_toNat_le] at hle
      omega
    constructor
    · intro p nodeBackedUp t hown
      refine BlockProgress.lagging_eq_none ?_ _ _ _
      rw [UInt32.le_iff_toNat_le]
      exact hbehind p.lastRound _ hown
    · intro s own allowance nodeBackedUp t hrounds hown
      refine StalledBehind.check_eq_none ?_ _ _
      rw [UInt32.lt_iff_toNat_lt, hrounds]
      exact Nat.lt_succ_of_le (hbehind own _ hown)

/-- One hostile peer with two streams far ahead of two honest ones. -/
def hostileEvents : List Gauge.Event :=
  [.feed "honest", .feed "other-honest", .feed "hostile", .feed "hostile", .offer 0 1496000000 0,
    .offer 1 1496000000 0, .offer 2 1496015000 0, .offer 3 1496015000 0]

theorem hostile_isSome :
    (Machine.exec step (fun _ _ => True) (new 150 15000000000 30000000000 1496000000) hostileEvents).isSome := by
  decide

def hostileGauge : Gauge :=
  (Machine.exec step (fun _ _ => True) (new 150 15000000000 30000000000 1496000000) hostileEvents).get
    hostile_isSome

example : hostileGauge.freshest.get 0 = some 1496000000 := by decide

theorem no_single_peer_moves_hostileGauge :
    hostileGauge.OthersUpTo "hostile" 1496000000 ∧
      (BlockProgress.lagging ⟨1496000000, 0, some 0⟩ (hostileGauge.freshest.get 0)
        hostileGauge.freshest.lagRounds hostileGauge.freshest.grace false 60000000000).2 = none := by
  have hothers : hostileGauge.OthersUpTo "hostile" 1496000000 := by
    have hlog : hostileGauge.offered = [("honest", 1496000000), ("other-honest", 1496000000),
        ("hostile", 1496015000), ("hostile", 1496015000)] := by decide
    intro q r hmem hne
    rw [hlog] at hmem
    simp only [List.mem_cons, Prod.mk.injEq, List.not_mem_nil, or_false] at hmem
    rcases hmem with ⟨-, rfl⟩ | ⟨-, rfl⟩ | ⟨rfl, -⟩ | ⟨rfl, -⟩
    · exact le_rfl
    · exact le_rfl
    · exact absurd rfl hne
    · exact absurd rfl hne
  have hrun : Machine.Run step (fun _ _ => True) (new 150 15000000000 30000000000 1496000000)
      hostileEvents hostileGauge := Machine.Run.of_exec (Option.some_get hostile_isSome).symm
  refine ⟨hothers, ?_⟩
  exact ((no_single_peer_moves_freshest hrun "hostile" 0).2.2 1496000000 hothers).1 _ false 60000000000
    (Nat.le_add_right _ _)

end Gauge

end Hypersync.Push
