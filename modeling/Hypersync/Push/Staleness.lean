import Hypersync.Lib.Record
import Hypersync.Push.Freshest

/-!
# Which streams still count

A stream counts towards the freshest round while its round rose lately.  The
selection floor is read from streams that have risen more lately still, so that the
guard keeps counting them for its whole grace period.

Stale entries are purged by whichever stream offers next, and the purge forgets
the round they had reached.  The histories here do not forget: the ledger of a run
lists every offer the tip let through, and a stream's *last rise* is the offer at
which it reached its highest round.
-/

namespace Hypersync.Push

/-! ## 1. The selection floor -/

namespace FreshestRound

/-- Stream `id` of `peer` has reached `r`, and counts until `limit`. -/
def Holds (f : FreshestRound) (id : Nat) (peer : String) (r : UInt32) (limit : Nat) : Prop :=
  ∃ e, f.streams.lookup id = some e ∧ e.peer = peer ∧ r ≤ e.round ∧
    e.round ≤ Word.satAdd f.netTip FRESHEST_TIP_SLACK ∧ limit ≤ e.at_ + f.stale

variable {f : FreshestRound} {id : Nat} {peer : String} {r : UInt32} {limit : Nat}

theorem offer_frame (f : FreshestRound) (id : Nat) (peer : String) (round : UInt32) (now : Nat) :
    (f.offer id peer round now).netTip = f.netTip ∧ (f.offer id peer round now).stale = f.stale ∧
      (f.offer id peer round now).nextId = f.nextId ∧ (f.offer id peer round now).lagRounds = f.lagRounds := by
  unfold offer
  split
  · exact ⟨rfl, rfl, rfl, rfl⟩
  · exact ⟨rfl, rfl, rfl, rfl⟩

/-- Offers up to `limit` leave the stream in the table, at its round or above. -/
theorem Holds.offer (h : f.Holds id peer r limit) {now : Nat} (hnow : now ≤ limit) (hstale : limit ≤ now + f.stale)
    (j : Nat) (other : String) (round : UInt32) : (f.offer j other round now).Holds id peer r limit := by
  obtain ⟨e, he, hpeer, hr, hceil, hlimit⟩ := h
  by_cases htakes : f.Takes round
  · have hkept : (f.streams.lookup id).filter (fun e => now - e.at_ ≤ f.stale) = some e := by
      rw [he, Option.filter_some_pos]
      rw [decide_eq_true_eq]
      omega
    obtain ⟨htip, hst, -, -⟩ := offer_frame f j other round now
    unfold Holds
    rw [htip, hst]
    by_cases hj : id = j
    · subst hj
      rw [lookup_offer_self htakes, hkept]
      by_cases hlt : e.round < round
      · refine ⟨_, rfl, ?_⟩
        rw [noted, if_pos hlt]
        exact ⟨hpeer, hr.trans hlt.le, htakes.2, hstale⟩
      · refine ⟨_, rfl, ?_⟩
        rw [noted, if_neg hlt]
        exact ⟨hpeer, hr, hceil, hlimit⟩
    · rw [lookup_offer_ne htakes hj, hkept]
      exact ⟨e, rfl, hpeer, hr, hceil, hlimit⟩
  · rw [offer_of_not_takes htakes]
    exact ⟨e, he, hpeer, hr, hceil, hlimit⟩

theorem counts_of_le {e : Stream} {t : Nat} (hceil : e.round ≤ Word.satAdd f.netTip FRESHEST_TIP_SLACK)
    (hlimit : limit ≤ e.at_ + f.stale) (ht : t ≤ limit) : f.Counts f.stale t e :=
  ⟨by omega, hceil⟩

/-- Two peers that hold a round until `limit` keep the reading there. -/
theorem exists_get {i j : Nat} {p q : String} (htip : f.netTip ≠ 0) (hp : f.Holds i p r limit)
    (hq : f.Holds j q r limit) (hne : p ≠ q) {t : Nat} (ht : t ≤ limit) : ∃ g, f.get t = some g ∧ r ≤ g := by
  obtain ⟨d, hd, rfl, hrd, hcd, hld⟩ := hp
  obtain ⟨e, he, rfl, hre, hce, hle⟩ := hq
  exact exists_getWithin htip hd he hne (counts_of_le hcd hld ht) (counts_of_le hce hle ht) hrd hre

/-- The floor is read from two peers that hold its round for the whole grace period. -/
theorem holds_of_selectFloor (hgrace : f.grace ≤ f.stale) {t : Nat} (h : f.selectFloor t ≠ 0) :
    f.netTip ≠ 0 ∧ ∃ r, r.toNat = (f.selectFloor t).toNat + f.lagRounds.toNat ∧
      ∃ i j p q, p ≠ q ∧ f.Holds i p r (t + f.grace) ∧ f.Holds j q r (t + f.grace) := by
  unfold selectFloor at h ⊢
  rcases hread : f.getWithin (f.stale - f.grace) t with _ | r
  · rw [hread] at h
    exact absurd rfl h
  · rw [hread] at h
    simp only at h ⊢
    have hholds : ∀ {id : Nat} {e : Stream}, f.streams.lookup id = some e → f.Counts (f.stale - f.grace) t e →
        r ≤ e.round → f.Holds id e.peer r (t + f.grace) := by
      intro id e he hcounts hr
      have hage := hcounts.1
      exact ⟨e, he, rfl, hr, hcounts.2, by omega⟩
    obtain ⟨htip, i, d, hd, -, hcd, hrd⟩ := getWithin_eq_some hread ""
    obtain ⟨-, j, e, he, hne, hce, hre⟩ := getWithin_eq_some hread d.peer
    refine ⟨htip, r, ?_, i, j, d.peer, e.peer, hne.symm, hholds hd hcd hrd, hholds he hce hre⟩
    have hpos : (Word.satSub r f.lagRounds).toNat ≠ 0 := fun hzero => h (UInt32.toNat_inj.mp hzero)
    rw [Word.toNat_satSub] at hpos ⊢
    omega

end FreshestRound

namespace Gauge

/-- What may happen between two readings: new streams, and offers at instants in between. -/
def Between (t t' : Nat) : Gauge.Event → Prop
  | .feed _ => True
  | .offer _ _ now => t ≤ now ∧ now ≤ t'
  | .drop _ => False
  | .setTip _ => False

instance (t t' : Nat) : (e : Gauge.Event) → Decidable (Between t t' e)
  | .feed _ => inferInstanceAs (Decidable True)
  | .offer _ _ now => inferInstanceAs (Decidable (t ≤ now ∧ now ≤ t'))
  | .drop _ => inferInstanceAs (Decidable False)
  | .setTip _ => inferInstanceAs (Decidable False)

/-- What the guard needs at `t` to keep its reading until `limit`. -/
structure Keeps (g : Gauge) (lagRounds : UInt32) (stale : Nat) (r : UInt32) (limit i j : Nat) (p q : String) : Prop where
  lagRounds_eq : g.freshest.lagRounds = lagRounds
  stale_eq : g.freshest.stale = stale
  tip : g.freshest.netTip ≠ 0
  left : g.freshest.Holds i p r limit
  right : g.freshest.Holds j q r limit

theorem Keeps.step {g g' : Gauge} {lagRounds r : UInt32} {stale limit i j t t' : Nat} {p q : String} {e : Gauge.Event}
    (h : g.Keeps lagRounds stale r limit i j p q) (ht' : t' ≤ limit) (hlimit : limit ≤ t + stale) (hok : Between t t' e)
    (hstep : g.step e = some g') : g'.Keeps lagRounds stale r limit i j p q := by
  cases e with
  | feed peer =>
    cases hstep
    exact { h with }
  | offer id round now =>
    simp only [Gauge.step] at hstep
    split at hstep <;> cases hstep
    rename_i feed hfeed
    obtain ⟨htip, hst, -, hlag⟩ := FreshestRound.offer_frame g.freshest id feed.peer round now
    have hnow : now ≤ limit := hok.2.trans ht'
    have hstale : limit ≤ now + g.freshest.stale := by
      rw [h.stale_eq]
      exact hlimit.trans (Nat.add_le_add_right hok.1 stale)
    exact ⟨hlag.trans h.lagRounds_eq, hst.trans h.stale_eq, by rw [htip]; exact h.tip,
      h.left.offer hnow hstale id feed.peer round, h.right.offer hnow hstale id feed.peer round⟩
  | drop id => cases hok
  | setTip tip => cases hok

/-- **The selection floor never asks more than the guard will.**  With `grace ≤ stale`, if the
    floor at `t` is not zero then at every `t'` up to a grace period later, whatever was
    offered in between, the guard's reading lies `lagRounds` or more above that floor;
    so a stream that stays below the floor is then more than `lagRounds` behind. -/
theorem select_floor_within_guard {g g' : Gauge} {later : List Gauge.Event} {t t' : Nat}
    (hgrace : g.freshest.grace ≤ g.freshest.stale) (hfloor : g.freshest.selectFloor t ≠ 0)
    (ht' : t' ≤ t + g.freshest.grace) (hlater : Machine.Run step (fun _ e => Between t t' e) g later g') :
    ∃ r, g'.freshest.get t' = some r ∧
      (g.freshest.selectFloor t).toNat + g.freshest.lagRounds.toNat ≤ r.toNat ∧
      ∀ own, own < g.freshest.selectFloor t →
        g'.freshest.lagRounds < BlockProgress.behindOf (g'.freshest.get t') own := by
  obtain ⟨htip, r, hr, i, j, p, q, hne, hi, hj⟩ := FreshestRound.holds_of_selectFloor hgrace hfloor
  have hkeeps : g'.Keeps g.freshest.lagRounds g.freshest.stale r (t + g.freshest.grace) i j p q := by
    apply hlater.invariant (⟨rfl, rfl, htip, hi, hj⟩ : g.Keeps _ _ r _ i j p q)
    intro a e b ha hok hstep
    exact ha.step ht' (Nat.add_le_add_left hgrace t) hok hstep
  obtain ⟨x, hx, hrx⟩ := FreshestRound.exists_get hkeeps.tip hkeeps.left hkeeps.right hne ht'
  have hle : r.toNat ≤ x.toNat := UInt32.le_iff_toNat_le.mp hrx
  refine ⟨x, hx, by omega, ?_⟩
  intro own hown
  rw [UInt32.lt_iff_toNat_lt] at hown ⊢
  rw [hx, BlockProgress.behindOf, Word.toNat_satSub, hkeeps.lagRounds_eq]
  omega

/-- Two peers at one round, the second of them moving on while the grace runs. -/
def pacedEvents : List Gauge.Event :=
  [.feed "a", .feed "b", .offer 0 1496000500 0, .offer 1 1496000500 0]

theorem paced_isSome :
    (Machine.exec step (fun _ _ => True) (new 100 5000000000 30000000000 1496000000) pacedEvents).isSome := by
  decide

def pacedGauge : Gauge :=
  (Machine.exec step (fun _ _ => True) (new 100 5000000000 30000000000 1496000000) pacedEvents).get paced_isSome

def pacedLater : List Gauge.Event := [.offer 1 1496000510 26000000000]

theorem pacedLater_isSome : (Machine.exec step (fun _ e => Between 25000000000 30000000000 e) pacedGauge
    pacedLater).isSome := by
  decide

theorem select_floor_within_guard_pacedGauge :
    pacedGauge.freshest.selectFloor 25000000000 = 1496000400 ∧
      ∃ r, ((Machine.exec step (fun _ e => Between 25000000000 30000000000 e) pacedGauge pacedLater).get
        pacedLater_isSome).freshest.get 30000000000 = some r ∧ 1496000400 + 100 ≤ r.toNat := by
  refine ⟨by decide, ?_⟩
  have hlater := Machine.Run.of_exec (Option.some_get pacedLater_isSome).symm
  obtain ⟨r, hr, hle, -⟩ := select_floor_within_guard (by decide) (by decide) (by decide) hlater
  exact ⟨r, hr, hle⟩

end Gauge

/-! ## 2. Last rises -/

/-- An offer that the tip let through. -/
structure Offer where
  id : Nat
  round : UInt32
  now : Nat
deriving DecidableEq, Repr

/-- The offer at which stream `id` reached its highest round. -/
def LastRise (taken : List Offer) (id : Nat) (o : Offer) : Prop := Record.Last Offer.id Offer.round taken id o

/-- A round at or below the stream's highest, which it reached more than `stale` ago. -/
def Revives (stale : Nat) (taken : List Offer) (x : Offer) : Prop :=
  ∃ o, LastRise taken x.id o ∧ x.round ≤ o.round ∧ o.now + stale < x.now

/-! ## 3. The ledger of a run -/

/-- The tip, and the offers it let through so far. -/
structure Ledger where
  tip : UInt32
  taken : List Offer

namespace Ledger

def note (l : Ledger) : Gauge.Event → Ledger
  | .setTip tip => { l with tip := tip }
  | .offer id round now =>
    if l.tip ≠ 0 ∧ round ≤ Word.satAdd l.tip FRESHEST_TIP_SLACK then { l with taken := l.taken ++ [⟨id, round, now⟩] }
    else l
  | _ => l

def ofEvents (tip : UInt32) (events : List Gauge.Event) : Ledger := events.foldl note ⟨tip, []⟩

theorem ofEvents_concat (tip : UInt32) (events : List Gauge.Event) (e : Gauge.Event) :
    ofEvents tip (events ++ [e]) = (ofEvents tip events).note e := List.foldl_concat ..

end Ledger

namespace Gauge

/-- The table against the ledger: an entry is its stream's last rise, and a stream in use
    that has no entry has been stale at some offer since its last rise. -/
structure Ages (l : Ledger) (stale : Nat) (g : Gauge) : Prop where
  tip : g.freshest.netTip = l.tip
  stale_eq : g.freshest.stale = stale
  entry : ∀ id e, g.freshest.streams.lookup id = some e →
    ∃ o, LastRise l.taken id o ∧ o.round = e.round ∧ o.now = e.at_
  gone : ∀ id, id ∈ g.feeds → g.freshest.streams.lookup id = none →
    ∀ o, LastRise l.taken id o → ∃ x ∈ l.taken, o.now + stale < x.now
  taken_below : ∀ o ∈ l.taken, o.id < g.freshest.nextId
  below : ∀ id, id ∈ g.feeds → id < g.freshest.nextId

theorem Ages.init (lagRounds : UInt32) (grace stale : Nat) (netTip : UInt32) :
    (new lagRounds grace stale netTip).Ages (Ledger.ofEvents netTip []) stale where
  tip := rfl
  stale_eq := rfl
  entry := nofun
  gone := fun _ h => absurd h (AList.notMem_empty _)
  taken_below := nofun
  below := fun _ h => absurd h (AList.notMem_empty _)

section offer
variable {g : Gauge} {l : Ledger} {stale : Nat} {x : Offer}

/-- What is left of the entry of stream `id` once the stale ones are purged. -/
def kept (g : Gauge) (id now : Nat) : Option Stream :=
  (g.freshest.streams.lookup id).filter fun e => now - e.at_ ≤ g.freshest.stale

theorem lookup_of_offer {g' : Gauge} {peer : String}
    (hfreshest : g'.freshest = g.freshest.offer x.id peer x.round x.now) (htakes : g.freshest.Takes x.round) :
    g'.freshest.streams.lookup x.id = some (FreshestRound.noted (g.kept x.id x.now) peer x.round x.now) := by
  rw [hfreshest]
  exact FreshestRound.lookup_offer_self htakes

theorem Ages.of_kept (h : g.Ages l stale) {id now : Nat} {e : Stream} (hkept : g.kept id now = some e) :
    g.freshest.streams.lookup id = some e ∧ now ≤ e.at_ + stale ∧
      ∃ o, LastRise l.taken id o ∧ o.round = e.round ∧ o.now = e.at_ := by
  obtain ⟨he, hage⟩ := Option.filter_eq_some_iff.mp hkept
  rw [decide_eq_true_eq, h.stale_eq] at hage
  exact ⟨he, by omega, h.entry id e he⟩

/-- Without an entry, a stream's last rise is stale. -/
theorem Ages.of_not_kept (h : g.Ages l stale) {id now : Nat} (hid : id ∈ g.feeds) (hkept : g.kept id now = none)
    (hnow : ∀ p ∈ l.taken, p.now ≤ now) {o : Offer} (ho : LastRise l.taken id o) : o.now + stale < now := by
  rcases he : g.freshest.streams.lookup id with _ | e
  · obtain ⟨p, hp, hlt⟩ := h.gone id hid he o ho
    exact lt_of_lt_of_le hlt (hnow p hp)
  · obtain ⟨o', ho', -, hat⟩ := h.entry id e he
    obtain rfl := ho.unique ho'
    rw [kept, he, Option.filter_eq_none_iff] at hkept
    have hage := hkept e rfl
    rw [decide_eq_true_eq, h.stale_eq] at hage
    omega

/-- The entry the offering stream gets is its last rise, unless the offer revives it. -/
theorem Ages.noted (h : g.Ages l stale) (hid : x.id ∈ g.feeds) (hnow : ∀ p ∈ l.taken, p.now ≤ x.now)
    (hrev : ¬ Revives stale l.taken x) (peer : String) :
    ∃ o, LastRise (l.taken ++ [x]) x.id o ∧
      o.round = (FreshestRound.noted (g.kept x.id x.now) peer x.round x.now).round ∧
      o.now = (FreshestRound.noted (g.kept x.id x.now) peer x.round x.now).at_ := by
  rcases hkept : g.kept x.id x.now with _ | e
  · refine ⟨x, Record.Last.concat_self ?_, rfl, rfl⟩
    intro p hp hpid
    obtain ⟨o, ho⟩ : ∃ o, LastRise l.taken p.id o := Record.Last.exists_of_mem hp
    rw [hpid] at ho
    have hstale := h.of_not_kept hid hkept hnow ho
    have hlow : ¬ x.round ≤ o.round := fun hle => hrev ⟨o, ho, hle, hstale⟩
    exact lt_of_le_of_lt (ho.le hp hpid) (not_le.mp hlow)
  · obtain ⟨-, -, o, ho, hround, hat⟩ := h.of_kept hkept
    by_cases hlt : e.round < x.round
    · rw [FreshestRound.noted, if_pos hlt]
      refine ⟨x, Record.Last.concat_self ?_, rfl, rfl⟩
      intro p hp hpid
      exact lt_of_le_of_lt (ho.le hp hpid) (hround ▸ hlt)
    · rw [FreshestRound.noted, if_neg hlt]
      exact ⟨o, ho.concat fun _ => hround ▸ not_lt.mp hlt, hround, hat⟩

theorem Ages.offer (h : g.Ages l stale) (hid : x.id ∈ g.feeds) (hnow : ∀ p ∈ l.taken, p.now ≤ x.now)
    (hrev : ¬ Revives stale l.taken x) (htakes : g.freshest.Takes x.round) {g' : Gauge} {peer : String}
    (hfreshest : g'.freshest = g.freshest.offer x.id peer x.round x.now)
    (hfeeds : ∀ j, j ∈ g'.feeds ↔ j ∈ g.feeds) :
    g'.Ages { l with taken := l.taken ++ [x] } stale := by
  obtain ⟨htip, hst, hnext, -⟩ := FreshestRound.offer_frame g.freshest x.id peer x.round x.now
  have hother : ∀ j, j ≠ x.id → g'.freshest.streams.lookup j = g.kept j x.now := by
    intro j hj
    rw [hfreshest]
    exact FreshestRound.lookup_offer_ne htakes hj
  have hself := lookup_of_offer hfreshest htakes
  refine ⟨?_, ?_, ?_, ?_, ?_, ?_⟩
  · rw [hfreshest, htip]
    exact h.tip
  · rw [hfreshest, hst]
    exact h.stale_eq
  · intro j e he
    by_cases hj : j = x.id
    · subst hj
      rw [hself, Option.some.injEq] at he
      subst he
      exact h.noted hid hnow hrev peer
    · rw [hother j hj] at he
      obtain ⟨-, -, o, ho, hround, hat⟩ := h.of_kept he
      exact ⟨o, ho.concat fun hxj => absurd hxj.symm hj, hround, hat⟩
  · intro j hjfeed hnone o ho
    by_cases hj : j = x.id
    · subst hj
      rw [hself] at hnone
      cases hnone
    · rw [hother j hj] at hnone
      have ho : LastRise l.taken j o := Record.Last.of_concat_ne ho (Ne.symm hj)
      exact ⟨x, List.mem_append_right _ (List.mem_singleton_self x),
        h.of_not_kept ((hfeeds j).mp hjfeed) hnone hnow ho⟩
  · intro o ho
    rw [hfreshest, hnext]
    rcases List.mem_append.mp ho with ho | ho
    · exact h.taken_below o ho
    · rw [List.mem_singleton.mp ho]
      exact h.below x.id hid
  · intro j hj
    rw [hfreshest, hnext]
    exact h.below j ((hfeeds j).mp hj)

end offer

/-- What a step with an offer does. -/
theorem step_offer_inv {g g' : Gauge} {id now : Nat} {round : UInt32} (hstep : g.step (.offer id round now) = some g') :
    id ∈ g.feeds ∧ (∃ peer, g'.freshest = g.freshest.offer id peer round now) ∧ ∀ j, j ∈ g'.feeds ↔ j ∈ g.feeds := by
  simp only [Gauge.step] at hstep
  split at hstep <;> cases hstep
  rename_i feed hfeed
  exact ⟨AList.lookup_isSome.mp (by rw [hfeed]; rfl), ⟨feed.peer, rfl⟩, fun j => KeyMap.mem_modify⟩

/-- The next offer, if the tip lets it through. -/
def Allows (l : Ledger) (stale : Nat) : Gauge.Event → Prop
  | .offer id round now => l.tip ≠ 0 ∧ round ≤ Word.satAdd l.tip FRESHEST_TIP_SLACK →
    (∀ p ∈ l.taken, p.now ≤ now) ∧ ¬ Revives stale l.taken ⟨id, round, now⟩
  | _ => True

theorem Ages.feed {g : Gauge} {l : Ledger} {stale : Nat} (h : g.Ages l stale) (peer : String) :
    Ages l stale { g with
      freshest := { g.freshest with nextId := g.freshest.nextId + 1 }
      feeds := g.feeds.insert g.freshest.nextId ⟨peer, 0⟩ } := by
  refine ⟨h.tip, h.stale_eq, h.entry, ?_, ?_, ?_⟩
  · intro id hid hnone o ho
    rcases (AList.mem_insert _).mp hid with rfl | hid
    · -- the new stream has offered nothing
      have hlt := h.taken_below o ho.mem
      exact absurd ho.key_eq hlt.ne
    · exact h.gone id hid hnone o ho
  · intro o ho
    exact Nat.lt_succ_of_lt (h.taken_below o ho)
  · intro id hid
    rcases (AList.mem_insert _).mp hid with rfl | hid
    · exact Nat.lt_succ_self _
    · exact Nat.lt_succ_of_lt (h.below id hid)

/-- An offer the tip does not let through. -/
theorem Ages.refused {g g' : Gauge} {l : Ledger} {stale : Nat} (h : g.Ages l stale)
    (hfreshest : g'.freshest = g.freshest) (hfeeds : ∀ j, j ∈ g'.feeds ↔ j ∈ g.feeds) : g'.Ages l stale := by
  refine ⟨?_, ?_, ?_, ?_, ?_, ?_⟩ <;> rw [hfreshest]
  · exact h.tip
  · exact h.stale_eq
  · exact h.entry
  · intro j hj
    exact h.gone j ((hfeeds j).mp hj)
  · exact h.taken_below
  · intro j hj
    exact h.below j ((hfeeds j).mp hj)

theorem Ages.drop {g : Gauge} {l : Ledger} {stale : Nat} (h : g.Ages l stale) (id : Nat) :
    Ages l stale { g with
      freshest := { g.freshest with streams := g.freshest.streams.erase id }
      feeds := g.feeds.erase id } := by
  refine ⟨h.tip, h.stale_eq, ?_, ?_, h.taken_below, ?_⟩
  · intro j e he
    exact h.entry j e (KeyMap.lookup_erase_inv he).2
  · intro j hj hnone
    obtain ⟨hne, hj⟩ := AList.mem_erase.mp hj
    rw [AList.lookup_erase_ne hne] at hnone
    exact h.gone j hj hnone
  · intro j hj
    exact h.below j (AList.mem_erase.mp hj).2

theorem Ages.step {g g' : Gauge} {l : Ledger} {stale : Nat} {e : Gauge.Event} (h : g.Ages l stale)
    (hallows : Allows l stale e) (hstep : g.step e = some g') : g'.Ages (l.note e) stale := by
  cases e with
  | feed peer =>
    cases hstep
    exact h.feed peer
  | offer id round now =>
    obtain ⟨hid, ⟨peer, hfreshest⟩, hfeeds⟩ := step_offer_inv hstep
    have htakes_iff : g.freshest.Takes round ↔ l.tip ≠ 0 ∧ round ≤ Word.satAdd l.tip FRESHEST_TIP_SLACK := by
      rw [FreshestRound.Takes, h.tip]
    by_cases htakes : l.tip ≠ 0 ∧ round ≤ Word.satAdd l.tip FRESHEST_TIP_SLACK
    · rw [Ledger.note, if_pos htakes]
      obtain ⟨hnow, hrev⟩ := hallows htakes
      exact h.offer (x := ⟨id, round, now⟩) hid hnow hrev (htakes_iff.mpr htakes) hfreshest hfeeds
    · rw [Ledger.note, if_neg htakes]
      rw [FreshestRound.offer_of_not_takes (htakes_iff.not.mpr htakes)] at hfreshest
      exact h.refused hfreshest hfeeds
  | drop id =>
    simp only [Gauge.step] at hstep
    split at hstep <;> cases hstep
    exact h.drop id
  | setTip tip =>
    cases hstep
    exact { h with tip := rfl }

/-! ## 4. A stalled stream stops counting -/

/-- Only streams that rose within the `stale` period count, each with its highest round. -/
def CountsRisen (g : Gauge) (taken : List Offer) : Prop :=
  ∀ t, (∀ p ∈ taken, p.now ≤ t) → ∀ id e, g.freshest.streams.lookup id = some e →
    g.freshest.Counts g.freshest.stale t e →
    ∃ o, LastRise taken id o ∧ o.now ≤ t ∧ t ≤ o.now + g.freshest.stale ∧ e.round = o.round

theorem Ages.countsRisen {g : Gauge} {l : Ledger} {stale : Nat} (h : g.Ages l stale) : g.CountsRisen l.taken := by
  intro t ht id e he hcounts
  obtain ⟨o, ho, hround, hat⟩ := h.entry id e he
  have hage := hcounts.1
  exact ⟨o, ho, ht o ho.mem, by omega, hround.symm⟩

/-- Every offer of the ledger came at its time, and none revives a stream. -/
structure Orderly (stale : Nat) (taken : List Offer) : Prop where
  sorted : taken.Pairwise fun p q => p.now ≤ q.now
  rising : ∀ pre x post, taken = pre ++ x :: post → ¬ Revives stale pre x

theorem Orderly.of_concat {stale : Nat} {taken : List Offer} {x : Offer} (h : Orderly stale (taken ++ [x])) :
    Orderly stale taken ∧ (∀ p ∈ taken, p.now ≤ x.now) ∧ ¬ Revives stale taken x := by
  obtain ⟨hsorted, -, hlast⟩ := List.pairwise_append.mp h.sorted
  refine ⟨⟨hsorted, ?_⟩, fun p hp => hlast p hp x (List.mem_singleton_self x), h.rising taken x [] rfl⟩
  intro pre y post hsplit
  exact h.rising pre y (post ++ [x]) (by rw [hsplit, List.append_assoc, List.cons_append])

theorem ages_of_run {lagRounds netTip : UInt32} {grace stale : Nat} {events : List Gauge.Event} {g : Gauge}
    (hrun : Machine.Run step (fun _ _ => True) (new lagRounds grace stale netTip) events g)
    (horderly : Orderly stale (Ledger.ofEvents netTip events).taken) : g.Ages (Ledger.ofEvents netTip events) stale := by
  revert horderly
  apply hrun.history (I := fun es a => Orderly stale (Ledger.ofEvents netTip es).taken →
    a.Ages (Ledger.ofEvents netTip es) stale)
  · intro _
    exact Ages.init lagRounds grace stale netTip
  · intro es a e b ih _ hstep horderly
    rw [Ledger.ofEvents_concat] at horderly ⊢
    cases e with
    | offer id round now =>
      by_cases htakes : (Ledger.ofEvents netTip es).tip ≠ 0 ∧
          round ≤ Word.satAdd (Ledger.ofEvents netTip es).tip FRESHEST_TIP_SLACK
      · rw [Ledger.note, if_pos htakes] at horderly
        obtain ⟨hbefore, hnow, hrev⟩ := horderly.of_concat
        exact (ih hbefore).step (fun _ => ⟨hnow, hrev⟩) hstep
      · have hsame : (Ledger.ofEvents netTip es).note (.offer id round now) = Ledger.ofEvents netTip es :=
          if_neg htakes
        rw [hsame] at horderly
        exact (ih horderly).step (fun htrue => absurd htrue htakes) hstep
    | feed peer => exact (ih horderly).step trivial hstep
    | drop id => exact (ih horderly).step trivial hstep
    | setTip tip => exact (ih horderly).step trivial hstep

/-- A revived stream counts again, though it has not risen. -/
theorem Ages.not_countsRisen {g g' : Gauge} {l : Ledger} {stale : Nat} {x : Offer} (h : g.Ages l stale)
    (hstep : g.step (.offer x.id x.round x.now) = some g') (htakes : g.freshest.Takes x.round)
    (hnow : ∀ p ∈ l.taken, p.now ≤ x.now) (hrev : Revives stale l.taken x) : ¬ g'.CountsRisen (l.taken ++ [x]) := by
  intro hcounts
  obtain ⟨o, ho, hround, hlate⟩ := hrev
  obtain ⟨-, ⟨peer, hfreshest⟩, -⟩ := step_offer_inv hstep
  obtain ⟨htip, hst, -, -⟩ := FreshestRound.offer_frame g.freshest x.id peer x.round x.now
  -- its old entry, if it is still there, is purged
  have hkept : g.kept x.id x.now = none := by
    rcases hkept : g.kept x.id x.now with _ | e
    · rfl
    · obtain ⟨-, hage, o', ho', -, hat⟩ := h.of_kept hkept
      obtain rfl := ho.unique ho'
      omega
  have hself := lookup_of_offer hfreshest htakes
  rw [hkept] at hself
  have hupTo : ∀ p ∈ l.taken ++ [x], p.now ≤ x.now := by
    intro p hp
    rcases List.mem_append.mp hp with hp | hp
    · exact hnow p hp
    · rw [List.mem_singleton.mp hp]
  have hceil : x.round ≤ Word.satAdd g'.freshest.netTip FRESHEST_TIP_SLACK := by
    rw [hfreshest, htip]
    exact htakes.2
  obtain ⟨o', ho', -, hrecent, -⟩ := hcounts x.now hupTo x.id _ hself ⟨(Nat.sub_self x.now).le.trans (Nat.zero_le _), hceil⟩
  obtain rfl : o = o' := (ho.concat fun _ => hround).unique ho'
  rw [hfreshest, hst, h.stale_eq] at hrecent
  omega

/-- A stream that sends an old round again while it counts keeps its entry. -/
theorem Ages.resent {g g' : Gauge} {l : Ledger} {stale : Nat} {x o : Offer} (h : g.Ages l stale)
    (hstep : g.step (.offer x.id x.round x.now) = some g') (hnow : ∀ p ∈ l.taken, p.now ≤ x.now)
    (ho : LastRise l.taken x.id o) (hle : x.round ≤ o.round) (hrev : ¬ Revives stale l.taken x) :
    g'.freshest.streams.lookup x.id = g.freshest.streams.lookup x.id := by
  obtain ⟨hid, ⟨peer, hfreshest⟩, -⟩ := step_offer_inv hstep
  by_cases htakes : g.freshest.Takes x.round
  · rcases hkept : g.kept x.id x.now with _ | e
    · exact absurd ⟨o, ho, hle, h.of_not_kept hid hkept hnow ho⟩ hrev
    · obtain ⟨he, -, o', ho', hround, -⟩ := h.of_kept hkept
      obtain rfl := ho.unique ho'
      rw [lookup_of_offer hfreshest htakes, hkept, he, FreshestRound.noted, if_neg (not_lt.mpr (hround ▸ hle))]
  · rw [hfreshest, FreshestRound.offer_of_not_takes htakes]

/-- **A stalled stream stops counting, as long as no stale stream sends an old round.**  In
    every run in which no offer revives a stream: at any time, a stream counts only if it
    rose within the `stale` period, and then with its highest round; and sending an old
    round again does not change its entry.  The next offer that the tip lets through
    keeps this so if and only if it does not revive its stream. -/
theorem stalled_streams_stop_counting {lagRounds netTip : UInt32} {grace stale : Nat} {events : List Gauge.Event}
    {g : Gauge} (hrun : Machine.Run step (fun _ _ => True) (new lagRounds grace stale netTip) events g)
    (horderly : Orderly stale (Ledger.ofEvents netTip events).taken) :
    g.CountsRisen (Ledger.ofEvents netTip events).taken ∧
    ∀ (x : Offer) (g' : Gauge), g.step (.offer x.id x.round x.now) = some g' →
      (∀ p ∈ (Ledger.ofEvents netTip events).taken, p.now ≤ x.now) →
      (g.freshest.Takes x.round → (g'.CountsRisen ((Ledger.ofEvents netTip events).taken ++ [x]) ↔
        ¬ Revives stale (Ledger.ofEvents netTip events).taken x)) ∧
      ∀ o, LastRise (Ledger.ofEvents netTip events).taken x.id o → x.round ≤ o.round →
        ¬ Revives stale (Ledger.ofEvents netTip events).taken x →
        g'.freshest.streams.lookup x.id = g.freshest.streams.lookup x.id := by
  have hages := ages_of_run hrun horderly
  refine ⟨hages.countsRisen, ?_⟩
  intro x g' hstep hnow
  constructor
  · intro htakes
    constructor
    · intro hcounts hrev
      exact hages.not_countsRisen hstep htakes hnow hrev hcounts
    · intro hrev
      obtain ⟨hid, ⟨peer, hfreshest⟩, hfeeds⟩ := step_offer_inv hstep
      exact (hages.offer hid hnow hrev htakes hfreshest hfeeds).countsRisen
  · intro o ho hle hrev
    exact hages.resent hstep hnow ho hle hrev

/-- Two streams that stop at one round; half a minute later one sends that round again and
    the other an older one. -/
def resentEvents : List Gauge.Event :=
  [.feed "a", .feed "b", .offer 0 1496000000 0, .offer 1 1496000000 0, .offer 0 1496000000 31000000000,
    .offer 1 1495999990 31000000000]

theorem resent_isSome :
    (Machine.exec step (fun _ _ => True) (new 100 5000000000 30000000000 1496000000) resentEvents).isSome := by
  decide

def resentGauge : Gauge :=
  (Machine.exec step (fun _ _ => True) (new 100 5000000000 30000000000 1496000000) resentEvents).get resent_isSome

/-- They count again, the second with a lower round than it had reached. -/
theorem resent_round_counts_again :
    Machine.Run step (fun _ _ => True) (new 100 5000000000 30000000000 1496000000) resentEvents resentGauge ∧
      ((Ledger.ofEvents 1496000000 resentEvents).taken.Pairwise fun p q => p.now ≤ q.now) ∧
      resentGauge.freshest.get 31000000000 = some 1495999990 ∧
      ¬ resentGauge.CountsRisen (Ledger.ofEvents 1496000000 resentEvents).taken := by
  refine ⟨Machine.Run.of_exec (Option.some_get resent_isSome).symm, by decide, by decide, ?_⟩
  intro hcounts
  have htaken : (Ledger.ofEvents 1496000000 resentEvents).taken = [⟨0, 1496000000, 0⟩, ⟨1, 1496000000, 0⟩,
      ⟨0, 1496000000, 31000000000⟩, ⟨1, 1495999990, 31000000000⟩] := by decide
  have hlast : LastRise (Ledger.ofEvents 1496000000 resentEvents).taken 1 ⟨1, 1496000000, 0⟩ :=
    ⟨[⟨0, 1496000000, 0⟩], [⟨0, 1496000000, 31000000000⟩, ⟨1, 1495999990, 31000000000⟩], htaken, rfl,
      by decide, by decide⟩
  obtain ⟨o, ho, -, hrecent, -⟩ := hcounts 31000000000 (by rw [htaken]; decide) 1
    ⟨"b", 1495999990, 31000000000⟩ (by decide) (by decide)
  obtain rfl := hlast.unique ho
  exact absurd hrecent (by decide)

/-- A stream that goes on rising, before and after it was stale. -/
def risingEvents : List Gauge.Event :=
  [.feed "a", .offer 0 1496000000 0, .offer 0 1496000001 31000000000]

theorem rising_isSome :
    (Machine.exec step (fun _ _ => True) (new 100 5000000000 30000000000 1496000000) risingEvents).isSome := by
  decide

def risingGauge : Gauge :=
  (Machine.exec step (fun _ _ => True) (new 100 5000000000 30000000000 1496000000) risingEvents).get rising_isSome

theorem stalled_streams_stop_counting_risingGauge :
    risingGauge.CountsRisen [⟨0, 1496000000, 0⟩, ⟨0, 1496000001, 31000000000⟩] := by
  have hrun : Machine.Run step (fun _ _ => True) (new 100 5000000000 30000000000 1496000000) risingEvents
      risingGauge := Machine.Run.of_exec (Option.some_get rising_isSome).symm
  have htaken : (Ledger.ofEvents 1496000000 risingEvents).taken =
      [⟨0, 1496000000, 0⟩, ⟨0, 1496000001, 31000000000⟩] := by decide
  have horderly : Orderly 30000000000 (Ledger.ofEvents 1496000000 risingEvents).taken := by
    refine ⟨by decide, ?_⟩
    rw [htaken]
    intro pre x post hsplit hrev
    obtain ⟨o, ho, hle, -⟩ := hrev
    rcases pre with _ | ⟨y, _ | ⟨z, pre⟩⟩
    · cases ho.mem
    · obtain ⟨rfl, hrest⟩ := List.cons.inj hsplit
      obtain ⟨rfl, -⟩ := List.cons.inj hrest
      rw [List.mem_singleton.mp ho.mem] at hle
      exact absurd hle (by decide)
    · have hlength := congrArg List.length hsplit
      simp at hlength
  have hresult := (stalled_streams_stop_counting hrun horderly).1
  rwa [htaken] at hresult

end Gauge

end Hypersync.Push
