import Hypersync.Gateway.BootstrapSweep
import Hypersync.Gateway.CaptureRace
import Hypersync.Lib.Rotation
import Hypersync.Peerd.PeersFile

/-!
# The loop that keeps the bootstrap cache fresh

A state server hands out its state only so often to one address, so the loop asks as
few peers as it can, as seldom as it can, and not the same ones again.  While the cache
is fresh it waits, and a capture then goes to a few peers of the live pool; without one
it searches a wide window and backs off in minutes.  From the second try on the window
moves on by its own length with every capture.

The loop is a machine whose environment (`RefreshView`) is whatever the shared state was
at the reads of a turn; a capture is the race of `capture_bootstrap_raced`.
-/

namespace Hypersync.Gateway

open Peerd Protocol

/-! ## 1. One turn -/

def CACHE_REFRESH_SECS : Nat := 240

def CACHE_REFRESH_RETRY_SECS : Nat := 30

def CACHE_REFRESH_FORCE_BEFORE_EXPIRY_SECS : Nat := 90

def MIN_LIVE_PEERS_FOR_CACHE_REFRESH : Nat := 4

def FRESH_CACHE_REFRESH_MAX_INFLIGHT : Nat := 1

def COLD_CACHE_REFRESH_MAX_INFLIGHT : Nat := 2

def shouldDelayCacheRefreshForLivePool (now cachedAt liveCount : Nat) : Bool :=
  if MIN_LIVE_PEERS_FOR_CACHE_REFRESH ≤ liveCount then false
  else CACHE_REFRESH_FORCE_BEFORE_EXPIRY_SECS < MAX_BOOTSTRAP_CACHE_AGE_SECS - (now - cachedAt)

def freshCacheRetryDelaySecs (now cachedAt : Nat) : Nat :=
  let secondsLeft := MAX_BOOTSTRAP_CACHE_AGE_SECS - (now - cachedAt)
  if secondsLeft ≤ CACHE_REFRESH_FORCE_BEFORE_EXPIRY_SECS then 1
  else max 1 (min (secondsLeft - CACHE_REFRESH_FORCE_BEFORE_EXPIRY_SECS) CACHE_REFRESH_RETRY_SECS)

/-- The live peers, and behind them the candidates that are not among them. -/
def bootstrapCapturePeers (black : Blacklist) (files livePeers : List String) (includeCandidates : Bool) :
    List String :=
  if !includeCandidates then livePeers
  else Fresh.pushAll livePeers (black.filtered (readNodePeers files))

def captureWindow (fresh : Bool) : Nat := if fresh then 24 else 64

/-- `wrapping_mul` of two `usize`s. -/
def usizeMul (a b : Nat) : Nat := a * b % (USIZE_MAX + 1)

/-- The peers of one capture. -/
def windowOf (full : List String) (window cycle : Nat) (rotateWindow : Bool) : List String :=
  let n := full.length
  if n = 0 then []
  else
    let take := min window n
    let off := if rotateWindow then usizeMul cycle take % n else 0
    (List.range take).map fun k => full.getD ((off + k) % n) ""

/-- The seconds between two captures after so many failures in a row. -/
def coldBackoffSecs : Nat → Nat
  | 1 => 60
  | 2 => 120
  | 3 => 300
  | _ => 600

/-- What a turn reads: the pool twice, and the texts of the candidate files.  `upstream` is
    what a peer sends when the turn dials it. -/
structure RefreshView where
  haveCache : Bool
  now : Nat
  cachedAt : Nat
  liveCount : Nat
  live : List String
  files : List String
  black : Blacklist
  upstream : String → List UInt8

def RefreshView.fresh (v : RefreshView) : Bool := v.haveCache && isBootstrapCacheFresh v.now v.cachedAt

/-- A capture under way. -/
structure CaptureTurn where
  fresh : Bool
  cachedAt : Nat
  cycle : Nat
  rotated : Bool
  live : List String
  full : List String

def CaptureTurn.peers (c : CaptureTurn) : List String :=
  windowOf c.full (captureWindow c.fresh) c.cycle c.rotated

def CaptureTurn.maxInflight (c : CaptureTurn) : Nat :=
  if c.fresh then FRESH_CACHE_REFRESH_MAX_INFLIGHT else COLD_CACHE_REFRESH_MAX_INFLIGHT

inductive CaptureEnd where
  | installed (ip : String) (blob : List UInt8)
  -- no live tail
  | rejected (ip : String)
  | exhausted
  -- past its deadline
  | overdue
deriving DecidableEq

structure CaptureRecord where
  turn : CaptureTurn
  tried : List String
  ended : CaptureEnd

/-! ## 2. The loop -/

inductive RefreshPc where
  | top
  | racing (turn : CaptureTurn) (race : Race.State Dial Fetch (List UInt8))
  | sleeping (secs : Nat)

/-- A pause while the cache was found fresh, or was just filled. -/
structure Nap where
  now : Nat
  cachedAt : Nat
  secs : Nat

/-- `naps`, `captures`, `misses` and `rested` record the run: the pauses on a fresh cache, the
    captures that ended, and since the last one that was installed the failures without a
    fresh cache and the seconds slept. -/
structure Refresher where
  cycle : Nat
  fails : Nat := 0
  pc : RefreshPc := .top
  naps : List Nap := []
  captures : List CaptureRecord := []
  misses : Nat := 0
  rested : Nat := 0

inductive RefreshEvent where
  | look (v : RefreshView)
  | race (e : Race.Event FetchEvent)
  | conclude (now : Nat)
  | overdue (now : Nat)
  | wake

namespace Refresher

def nap (s : Refresher) (now cachedAt secs : Nat) : Refresher :=
  { s with pc := .sleeping secs, naps := s.naps ++ [⟨now, cachedAt, secs⟩] }

/-- The capture of this turn, and the counter behind it. -/
def capture (s : Refresher) (tier : PriorityTier) (slower : Nat → Nat → Nat → Bool) (v : RefreshView) : Refresher :=
  let turn : CaptureTurn :=
    { fresh := v.fresh
      cachedAt := v.cachedAt
      cycle := s.cycle
      rotated := v.fresh || 0 < s.fails
      live := v.live
      full := tier.strip (bootstrapCapturePeers v.black v.files v.live !v.fresh) }
  { s with
    cycle := usizeAdd s.cycle 1
    pc := .racing turn
      (captureBootstrapRaced slower (turn.peers.map fun ip => (⟨ip, v.upstream ip⟩ : Dial)) turn.maxInflight) }

def look (s : Refresher) (tier : PriorityTier) (slower : Nat → Nat → Nat → Bool) (v : RefreshView) : Refresher :=
  if v.fresh ∧ v.now < v.cachedAt + CACHE_REFRESH_SECS then
    s.nap v.now v.cachedAt (min (v.cachedAt + CACHE_REFRESH_SECS - v.now) CACHE_REFRESH_RETRY_SECS)
  else if v.fresh ∧ shouldDelayCacheRefreshForLivePool v.now v.cachedAt v.liveCount then
    s.nap v.now v.cachedAt (freshCacheRetryDelaySecs v.now v.cachedAt)
  else s.capture tier slower v

/-- The end of a capture, with the clock after it; a blob that is installed is as old as that. -/
def conclude (s : Refresher) (turn : CaptureTurn) (tried : List String) (ended : CaptureEnd) (now : Nat) : Refresher :=
  let s := { s with captures := s.captures ++ [CaptureRecord.mk turn tried ended] }
  match ended with
  | .installed _ _ => { s.nap now now CACHE_REFRESH_SECS with fails := 0, misses := 0, rested := 0 }
  | _ =>
    if turn.fresh then s.nap now turn.cachedAt (freshCacheRetryDelaySecs now turn.cachedAt)
    else
      let fails := min (s.fails + 1) 4
      { s with fails := fails, pc := .sleeping (coldBackoffSecs fails), misses := s.misses + 1 }

variable (lz4 : Lz4.Decoder)

/-- What the loop makes of the outcome of a race. -/
def endOf : Option (Dial × List UInt8) → CaptureEnd
  | none => .exhausted
  | some (d, blob) => if hasLiveTail lz4 blob then .installed d.ip blob else .rejected d.ip

def step (tier : PriorityTier) (slower : Nat → Nat → Nat → Bool) (s : Refresher) (e : RefreshEvent) :
    Option Refresher :=
  match s.pc, e with
  | .top, .look v => some (s.look tier slower v)
  | .racing turn race, .race e =>
    (Race.step (captureRules slower turn.maxInflight) race e).map fun race => { s with pc := .racing turn race }
  | .racing turn race, .conclude now =>
    race.outcome.map fun outcome => s.conclude turn (race.tried.map Dial.ip) (endOf lz4 outcome) now
  | .racing turn race, .overdue now =>
    if race.outcome.isNone then some (s.conclude turn (race.tried.map Dial.ip) .overdue now) else none
  | .sleeping secs, .wake => some { s with pc := .top, rested := s.rested + secs }
  | _, _ => none

end Refresher

/-! ## 3. Windows -/

section

variable {full : List String} {window cycle : Nat} {rotate : Bool} {ip : String}

theorem usizeMul_of_lt {a b : Nat} (h : a * b < USIZE_MAX + 1) : usizeMul a b = a * b := Nat.mod_eq_of_lt h

theorem usizeAdd_of_lt {a b : Nat} (h : a + b < USIZE_MAX + 1) : usizeAdd a b = a + b := Nat.mod_eq_of_lt h

theorem usizeAdd_succ (a b : Nat) : usizeAdd (usizeAdd a b) 1 = usizeAdd a (b + 1) := by
  rw [usizeAdd, usizeAdd, usizeAdd, Nat.mod_add_mod, Nat.add_assoc]

/-- Windows of successive cycles lie end to end, so enough of them hold every candidate. -/
theorem exists_windowOf {count : Nat} (hcover : full.length ≤ count * min window full.length)
    (hwrap : (cycle + count) * window < USIZE_MAX + 1) (hip : ip ∈ full) :
    ∃ j < count, ip ∈ windowOf full window (cycle + j) true := by
  obtain ⟨p, hp, rfl⟩ := List.getElem_of_mem hip
  have hn : full.length ≠ 0 := Nat.ne_of_gt (Nat.zero_lt_of_lt hp)
  obtain ⟨j, hj, off, hoff, hpos⟩ := Rotation.exists_window_of_contiguous
    (fun j => (cycle + j) * min window full.length % full.length) (fun _ => min window full.length)
    (fun j => by rw [Nat.mod_add_mod, ← Nat.add_assoc, Nat.add_mul (cycle + j), Nat.one_mul])
    (Nat.le_trans hcover (Rotation.mul_le_total (fun _ => le_rfl) count)) hp
  refine ⟨j, hj, ?_⟩
  have hexact : usizeMul (cycle + j) (min window full.length) = (cycle + j) * min window full.length := by
    apply usizeMul_of_lt
    refine Nat.lt_of_le_of_lt (Nat.mul_le_mul ?_ (Nat.min_le_left _ _)) hwrap
    omega
  simp only [windowOf, if_neg hn, if_true, hexact]
  refine List.mem_map.mpr ⟨off, List.mem_range.mpr hoff, ?_⟩
  rw [hpos, List.getD_eq_getElem _ _ hp]

end

/-! ## 4. Whole runs -/

/-- What is captured from: never a priority peer, and only the live pool while the cache is fresh. -/
structure CaptureTurn.Sound (tier : PriorityTier) (c : CaptureTurn) : Prop where
  pool : ∀ ip ∈ c.full, ip ∉ tier.peers
  live : c.fresh = true → ∀ ip ∈ c.full, ip ∈ c.live

structure CaptureRecord.Sound (tier : PriorityTier) (lz4 : Lz4.Decoder) (c : CaptureRecord) :
    Prop where
  turn : c.turn.Sound tier
  tried : c.tried <+: c.turn.peers
  exhausted : c.ended = .exhausted → c.tried = c.turn.peers
  installed : ∀ ip blob, c.ended = .installed ip blob → ip ∈ c.tried ∧ hasLiveTail lz4 blob = true ∧ Loadable lz4 blob

/-- The pause ends before the cache is about to expire, or after a second. -/
def Nap.Timely (n : Nap) : Prop :=
  0 < n.secs ∧ n.now + n.secs ≤
    max (n.now + 1) (n.cachedAt + MAX_BOOTSTRAP_CACHE_AGE_SECS - CACHE_REFRESH_FORCE_BEFORE_EXPIRY_SECS)

/-- The least that is slept over so many failures in a row. -/
def backoffTotal : Nat → Nat
  | 0 => 0
  | m + 1 => backoffTotal m + coldBackoffSecs (min (m + 1) 4)

theorem freshCacheRetryDelaySecs_bounds (now cachedAt : Nat) :
    0 < freshCacheRetryDelaySecs now cachedAt ∧ (freshCacheRetryDelaySecs now cachedAt = 1 ∨
      freshCacheRetryDelaySecs now cachedAt ≤
        MAX_BOOTSTRAP_CACHE_AGE_SECS - (now - cachedAt) - CACHE_REFRESH_FORCE_BEFORE_EXPIRY_SECS) := by
  unfold freshCacheRetryDelaySecs
  simp only
  split
  · exact ⟨Nat.one_pos, Or.inl rfl⟩
  · omega

theorem timely_retry (now cachedAt : Nat) : (Nap.mk now cachedAt (freshCacheRetryDelaySecs now cachedAt)).Timely := by
  have hbounds := freshCacheRetryDelaySecs_bounds now cachedAt
  unfold Nap.Timely
  simp only [MAX_BOOTSTRAP_CACHE_AGE_SECS, CACHE_REFRESH_FORCE_BEFORE_EXPIRY_SECS] at hbounds ⊢
  omega

theorem timely_early {now cachedAt : Nat} (h : now < cachedAt + CACHE_REFRESH_SECS) :
    (Nap.mk now cachedAt (min (cachedAt + CACHE_REFRESH_SECS - now) CACHE_REFRESH_RETRY_SECS)).Timely := by
  simp only [Nap.Timely, MAX_BOOTSTRAP_CACHE_AGE_SECS, CACHE_REFRESH_FORCE_BEFORE_EXPIRY_SECS, CACHE_REFRESH_SECS,
    CACHE_REFRESH_RETRY_SECS] at h ⊢
  omega

theorem timely_installed (now : Nat) : (Nap.mk now now CACHE_REFRESH_SECS).Timely := by
  simp only [Nap.Timely, MAX_BOOTSTRAP_CACHE_AGE_SECS, CACHE_REFRESH_FORCE_BEFORE_EXPIRY_SECS, CACHE_REFRESH_SECS]
  omega

namespace Refresher

def isRacing (s : Refresher) : Bool :=
  match s.pc with
  | .racing _ _ => true
  | _ => false

/-- The seconds of the pause under way. -/
def resting (s : Refresher) : Nat :=
  match s.pc with
  | .sleeping secs => secs
  | _ => 0

structure Inv (tier : PriorityTier) (lz4 : Lz4.Decoder) (slower : Nat → Nat → Nat → Bool)
    (first : Nat) (s : Refresher) : Prop where
  counted : s.cycle = usizeAdd first (s.captures.length + if s.isRacing then 1 else 0)
  numbered : ∀ j c, s.captures[j]? = some c → c.turn.cycle = usizeAdd first j
  recorded : ∀ c ∈ s.captures, c.Sound tier lz4
  racing : ∀ turn race, s.pc = .racing turn race → turn.cycle = usizeAdd first s.captures.length ∧ turn.Sound tier ∧
    ∃ dials : List Dial, dials.map Dial.ip = turn.peers ∧ Race.Inv (captureRules slower turn.maxInflight) dials race
  timely : ∀ n ∈ s.naps, n.Timely
  capped : s.fails = min s.misses 4
  backedOff : backoffTotal s.misses ≤ s.rested + s.resting

variable {tier : PriorityTier} {lz4 : Lz4.Decoder} {slower : Nat → Nat → Nat → Bool}
  {first : Nat} {s t : Refresher}

theorem inv_start (first : Nat) (h : first < USIZE_MAX + 1) : Inv tier lz4 slower first { cycle := first } where
  counted := (usizeAdd_of_lt (b := 0) h).symm
  numbered j c hc := by cases hc
  recorded c hc := by cases hc
  racing turn race hpc := by cases hpc
  timely n hn := by cases hn
  capped := rfl
  backedOff := Nat.le_refl _

theorem Inv.nap (h : s.Inv tier lz4 slower first) (hidle : s.isRacing = false) (hawake : s.resting = 0)
    {now cachedAt secs : Nat} (hn : (Nap.mk now cachedAt secs).Timely) :
    (s.nap now cachedAt secs).Inv tier lz4 slower first where
  counted := by
    have hcounted := h.counted
    rw [hidle] at hcounted
    exact hcounted
  numbered := h.numbered
  recorded := h.recorded
  racing turn race hpc := by cases hpc
  timely n hmem := by
    rcases List.mem_append.mp hmem with hmem | hmem
    · exact h.timely n hmem
    · rw [List.mem_singleton.mp hmem]
      exact hn
  capped := h.capped
  backedOff := by
    have hbacked := h.backedOff
    rw [hawake] at hbacked
    exact Nat.le_trans hbacked (Nat.add_le_add_left (Nat.zero_le _) _)

theorem Inv.capture (h : s.Inv tier lz4 slower first) (hpc : s.pc = .top) (v : RefreshView) :
    (s.capture tier slower v).Inv tier lz4 slower first := by
  have hcycle : s.cycle = usizeAdd first s.captures.length := by
    have hcounted := h.counted
    rwa [isRacing, hpc] at hcounted
  refine ⟨?_, h.numbered, h.recorded, ?_, h.timely, h.capped, ?_⟩
  · simp only [Refresher.capture, hcycle, usizeAdd_succ, isRacing, if_true]
  · intro turn race hracing
    obtain ⟨rfl, rfl⟩ := RefreshPc.racing.inj hracing
    refine ⟨hcycle, ⟨?_, ?_⟩, _, ?_, Race.inv_begin _ _⟩
    · exact fun ip hip => (PriorityTier.mem_strip.mp hip).2
    · intro hfresh ip hip
      have hmem := (PriorityTier.mem_strip.mp hip).1
      simp only at hfresh
      rw [hfresh] at hmem
      exact hmem
    · rw [List.map_map]
      exact List.map_id _
  · have hbacked := h.backedOff
    rw [resting, hpc] at hbacked
    exact hbacked

theorem Inv.look (h : s.Inv tier lz4 slower first) (hpc : s.pc = .top) (v : RefreshView) :
    (s.look tier slower v).Inv tier lz4 slower first := by
  have hidle : s.isRacing = false := by rw [isRacing, hpc]
  have hawake : s.resting = 0 := by rw [resting, hpc]
  unfold Refresher.look
  split
  · rename_i hearly
    exact h.nap hidle hawake (timely_early hearly.2)
  split
  · exact h.nap hidle hawake (timely_retry _ _)
  · exact h.capture hpc v

/-- What a race that is over, or was cut off, leaves behind. -/
theorem sound_of_race {turn : CaptureTurn} {race : Race.State Dial Fetch (List UInt8)} {dials : List Dial}
    {ended : CaptureEnd} (hturn : turn.Sound tier) (hdials : dials.map Dial.ip = turn.peers)
    (hrace : Race.Inv (captureRules slower turn.maxInflight) dials race)
    (hended : ended = .overdue ∨ ∃ outcome, race.outcome = some outcome ∧ ended = endOf lz4 outcome) :
    CaptureRecord.Sound tier lz4 ⟨turn, race.tried.map Dial.ip, ended⟩ := by
  refine ⟨hturn, ?_, ?_, ?_⟩
  · rw [← hdials, ← hrace.order, List.map_append]
    exact List.prefix_append _ _
  · rintro rfl
    obtain hover | ⟨outcome, houtcome, hend⟩ := hended
    · cases hover
    · cases outcome with
      | none =>
        rw [(hrace.all_failed houtcome).1]
        exact hdials
      | some won =>
        simp only [endOf] at hend
        split at hend
        · cases hend
        · cases hend
  · rintro ip blob rfl
    obtain hover | ⟨outcome, houtcome, hend⟩ := hended
    · cases hover
    · cases outcome with
      | none => cases hend
      | some won =>
        obtain ⟨d, found⟩ := won
        simp only [endOf] at hend
        split at hend <;> cases hend
        rename_i htail
        obtain ⟨-, htried, a, hreached, hresult⟩ := hrace.won d blob houtcome
        obtain ⟨-, hcount, hcomplete⟩ :=
          Fetch.whole_of_returned (inv_of_reached hreached) (result_eq_won hresult)
        exact ⟨List.mem_map_of_mem htried, htail, loadable_of_complete lz4 hcount hcomplete⟩

theorem Inv.conclude (h : s.Inv tier lz4 slower first) {turn : CaptureTurn}
    {race : Race.State Dial Fetch (List UInt8)} (hpc : s.pc = .racing turn race) {ended : CaptureEnd} (now : Nat)
    (hended : ended = .overdue ∨ ∃ outcome, race.outcome = some outcome ∧ ended = endOf lz4 outcome) :
    (s.conclude turn (race.tried.map Dial.ip) ended now).Inv tier lz4 slower first := by
  obtain ⟨hcycle, hturn, dials, hdials, hrace⟩ := h.racing turn race hpc
  have hsound := sound_of_race hturn hdials hrace hended
  -- the state with the capture recorded, before it goes to sleep
  have hdone : Inv tier lz4 slower first
      { s with captures := s.captures ++ [⟨turn, race.tried.map Dial.ip, ended⟩], pc := .top } := by
    refine ⟨?_, ?_, ?_, ?_, h.timely, h.capped, ?_⟩
    · have hcounted := h.counted
      rw [isRacing, hpc] at hcounted
      rw [List.length_append]
      exact hcounted
    · intro j c hc
      rcases Nat.lt_or_ge j s.captures.length with hj | hj
      · rw [List.getElem?_append_left hj] at hc
        exact h.numbered j c hc
      · rw [List.getElem?_append_right hj] at hc
        obtain ⟨hlast, rfl⟩ := List.getElem?_eq_some_iff.mp hc
        rw [List.length_singleton] at hlast
        have hj' : j = s.captures.length := by omega
        subst hj'
        simpa using hcycle
    · intro c hc
      rcases List.mem_append.mp hc with hc | hc
      · exact h.recorded c hc
      · rw [List.mem_singleton.mp hc]
        exact hsound
    · intro turn' race' hpc'
      cases hpc'
    · have hbacked := h.backedOff
      rw [resting, hpc] at hbacked
      exact hbacked
  have hmiss : (if turn.fresh then
        ({ s with captures := s.captures ++ [⟨turn, race.tried.map Dial.ip, ended⟩] } : Refresher).nap now turn.cachedAt
          (freshCacheRetryDelaySecs now turn.cachedAt)
      else
        { s with
          captures := s.captures ++ [⟨turn, race.tried.map Dial.ip, ended⟩]
          fails := min (s.fails + 1) 4
          pc := .sleeping (coldBackoffSecs (min (s.fails + 1) 4))
          misses := s.misses + 1 }).Inv tier lz4 slower first := by
    have hfails : min (s.fails + 1) 4 = min (s.misses + 1) 4 := by
      rw [h.capped]
      omega
    split
    · exact hdone.nap rfl rfl (timely_retry _ _)
    · refine ⟨hdone.counted, hdone.numbered, hdone.recorded, ?_, h.timely, hfails, ?_⟩
      · intro turn' race' hpc'
        cases hpc'
      · rw [hfails]
        exact Nat.add_le_add_right hdone.backedOff _
  cases ended with
  | installed ip blob =>
    have hslept := hdone.nap rfl rfl (timely_installed now)
    exact { hslept with capped := rfl, backedOff := Nat.zero_le _ }
  | rejected ip => exact hmiss
  | exhausted => exact hmiss
  | overdue => exact hmiss

theorem Inv.step {e : RefreshEvent} (h : s.Inv tier lz4 slower first)
    (hstep : s.step lz4 tier slower e = some t) : t.Inv tier lz4 slower first := by
  unfold Refresher.step at hstep
  split at hstep
  · cases hstep
    exact h.look ‹_› _
  · next turn race e hpc =>
    obtain ⟨race', hrace', rfl⟩ := Option.map_eq_some_iff.mp hstep
    obtain ⟨hcycle, hturn, dials, hdials, hrace⟩ := h.racing turn race hpc
    refine ⟨?_, h.numbered, h.recorded, ?_, h.timely, h.capped, ?_⟩
    · have hcounted := h.counted
      rwa [isRacing, hpc] at hcounted
    · intro turn' race'' hpc'
      cases hpc'
      exact ⟨hcycle, hturn, dials, hdials, hrace.step hrace'⟩
    · have hbacked := h.backedOff
      rwa [resting, hpc] at hbacked
  · next turn race now hpc =>
    obtain ⟨outcome, houtcome, rfl⟩ := Option.map_eq_some_iff.mp hstep
    exact h.conclude hpc now (Or.inr ⟨outcome, houtcome, rfl⟩)
  · next turn race now hpc =>
    obtain ⟨-, ⟨⟩⟩ := Option.ite_none_right_eq_some.mp hstep
    exact h.conclude hpc now (Or.inl rfl)
  · next secs hpc =>
    cases hstep
    refine ⟨?_, h.numbered, h.recorded, ?_, h.timely, h.capped, ?_⟩
    · have hcounted := h.counted
      rwa [isRacing, hpc] at hcounted
    · intro turn' race' hpc'
      cases hpc'
    · have hbacked := h.backedOff
      rwa [resting, hpc] at hbacked
  · cases hstep

theorem inv_of_run {es : List RefreshEvent} (hfirst : first < USIZE_MAX + 1)
    (hrun : Machine.Run (step lz4 tier slower) (fun _ _ => True) { cycle := first } es t) :
    t.Inv tier lz4 slower first :=
  hrun.invariant (inv_start first hfirst) fun _ _ _ h _ hs => h.step hs

end Refresher

def coldTier : PriorityTier := PriorityTier.new ["198.51.100.7"] 0 0 false

/-- **Every candidate has its turn.**  As many captures in a row as windows are needed for
    the candidates, over the same candidates and each with all its peers failed, have
    dialed every one of them, as long as the counter times the window does not wrap around. -/
theorem refresh_windows_reach_every_candidate (lz4 : Lz4.Decoder) (tier : PriorityTier)
    (slower : Nat → Nat → Nat → Bool) (first : Nat) (es : List RefreshEvent) (t : Refresher)
    (hrun : Machine.Run (Refresher.step lz4 tier slower) (fun _ _ => True) { cycle := first } es t)
    (i count : Nat) (full : List String) (fresh : Bool)
    (hcaptures : ∀ j < count, ∃ c, t.captures[i + j]? = some c ∧ c.turn.full = full ∧ c.turn.fresh = fresh ∧
      c.turn.rotated = true ∧ c.ended = .exhausted)
    (hcount : full.length ≤ count * captureWindow fresh)
    (hwrap : (first + i + count) * captureWindow fresh < USIZE_MAX + 1) :
    ∀ ip ∈ full, ∃ j < count, ∃ c, t.captures[i + j]? = some c ∧ ip ∈ c.tried := by
  have hsmall : first + i + count < USIZE_MAX + 1 := by
    refine Nat.lt_of_le_of_lt (Nat.le_mul_of_pos_right _ ?_) hwrap
    unfold captureWindow
    split
    · decide
    · decide
  have hinv := Refresher.inv_of_run (by omega) hrun
  intro ip hip
  have hcover : full.length ≤ count * min (captureWindow fresh) full.length := by
    rcases Nat.le_total (captureWindow fresh) full.length with hle | hle
    · rwa [Nat.min_eq_left hle]
    · rw [Nat.min_eq_right hle]
      refine Nat.le_mul_of_pos_left _ (Nat.pos_of_ne_zero ?_)
      rintro rfl
      rw [Nat.zero_mul, Nat.le_zero, List.length_eq_zero_iff] at hcount
      subst hcount
      cases hip
  obtain ⟨j, hj, hwindow⟩ := exists_windowOf hcover hwrap hip
  obtain ⟨c, hc, hfull, hfresh, hrotated, hended⟩ := hcaptures j hj
  refine ⟨j, hj, c, hc, ?_⟩
  rw [(hinv.recorded c (List.mem_of_getElem? hc)).exhausted hended, CaptureTurn.peers, hfull, hfresh, hrotated,
    hinv.numbered _ c hc, usizeAdd_of_lt (by omega), ← Nat.add_assoc]
  exact hwindow

/-- A fresh cache, and 32 live peers of which 24 are a window. -/
def freshView (now : Nat) : RefreshView where
  haveCache := true
  now := now
  cachedAt := 1760000000
  liveCount := 32
  live := decliners
  files := []
  black := {}
  upstream _ := []

/-- A capture from a whole window of peers that all refuse, and the pause behind it. -/
def sweptTurn (now : Nat) : List RefreshEvent :=
  .look (freshView now) :: (List.replicate 24 [.race (.work 0 .fail), .race (.join 0)]).flatten ++
    [.conclude (now + 10), .wake]

theorem run_swept :
    ∃ t, Machine.Run (Refresher.step decompressSizePrepended coldTier fun _ _ _ => false) (fun _ _ => True)
        { cycle := 7 } (sweptTurn 1760000300 ++ sweptTurn 1760000340) t ∧
      (t.captures.map fun c => (c.turn.full, c.turn.fresh, c.turn.rotated, c.ended)) =
        List.replicate 2 (decliners, true, true, .exhausted) := by
  have hexec : (Machine.exec (Refresher.step decompressSizePrepended coldTier fun _ _ _ => false) (fun _ _ => True)
      { cycle := 7 } (sweptTurn 1760000300 ++ sweptTurn 1760000340)).map
        (fun t => t.captures.map fun c => (c.turn.full, c.turn.fresh, c.turn.rotated, c.ended)) =
      some (List.replicate 2 (decliners, true, true, .exhausted)) := by
    decide +kernel
  obtain ⟨t, hrun, hcaptures⟩ := Option.map_eq_some_iff.mp hexec
  exact ⟨t, Machine.Run.of_exec hrun, hcaptures⟩

theorem refresh_windows_reach_decliners :
    ∃ t, Machine.Run (Refresher.step decompressSizePrepended coldTier fun _ _ _ => false) (fun _ _ => True)
        { cycle := 7 } (sweptTurn 1760000300 ++ sweptTurn 1760000340) t ∧
      ∀ ip ∈ decliners, ∃ j < 2, ∃ c, t.captures[0 + j]? = some c ∧ ip ∈ c.tried := by
  obtain ⟨t, hrun, hcaptures⟩ := run_swept
  refine ⟨t, hrun, refresh_windows_reach_every_candidate decompressSizePrepended coldTier (fun _ _ _ => false) 7 _ t
    hrun 0 2 decliners true ?_ (by decide) (by decide)⟩
  intro j hj
  have hentry : (t.captures.map fun c => (c.turn.full, c.turn.fresh, c.turn.rotated, c.ended))[0 + j]? =
      some (decliners, true, true, .exhausted) := by
    rw [hcaptures, List.getElem?_replicate, if_pos (by omega)]
  obtain ⟨c, hc, hshape⟩ := List.getElem?_map.symm.trans hentry |> Option.map_eq_some_iff.mp
  simp only [Prod.mk.injEq] at hshape
  exact ⟨c, hc, hshape⟩

end Hypersync.Gateway
