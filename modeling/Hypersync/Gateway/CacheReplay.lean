import Hypersync.Gateway.BootstrapCache
import Hypersync.Lib.Bag
import Hypersync.Lib.Machine

/-!
# Which greets get the cached bootstrap

A bootstrap greet is answered from the cache when the cache is fresh, the node has no
session and the last replay to it is long enough ago; a replay sends gigabytes, so
there must not be two at once.  The handler of each greet loads the clock and four
shared values one after the other and then tries to set a flag that it holds until the
blob is sent.  Greets of one node are handled side by side, and captures from peers
replace the blob at any time: first the blob, then its time.

The machine takes one load or store at a time, and a look at the clock is one of them: a
time is stored some while after it was read.  `cache_replays_over_runs` says what holds of
every replay in every interleaving.  The flag is dropped before the end of the replay is
stamped, so a greet in between is only held to the stamp of the start; and the stamps
of two replays may be stored in the other order than they were read.  The cooldown is
kept against the stamp that the handler loaded, and against no other.
-/

namespace Hypersync.Gateway

/-! ## 1. The decision -/

def CACHE_REPLAY_COOLDOWN_SECS : Nat := 30

def cacheReplayAllowed (now last : Nat) : Bool := last = 0 ∨ CACHE_REPLAY_COOLDOWN_SECS ≤ now - last

def shouldReplayCache (now last : Nat) (hasActiveSession : Bool) (cachedAt : Nat) : Bool :=
  !hasActiveSession ∧ isBootstrapCacheFresh now cachedAt ∧ cacheReplayAllowed now last

/-! ## 2. One node and the cache -/

/-- What the handler of a greet has loaded.  `seen` is how many times a replay had been
    stamped when `last` was loaded, `cachedFor` and `setAt` say when the blob that
    `cachedAt` was stored for, and the blob that was taken, were put in place. -/
structure Loaded where
  now : Nat
  last : Nat := 0
  seen : Nat := 0
  active : Bool := false
  cachedAt : Nat := 0
  cachedFor : Nat := 0
  setAt : Nat := 0
deriving DecidableEq, Repr

/-- What the handler has done last. -/
inductive HandlerPhase where
  | clock
  | last
  | active
  | cached
  | blob
  -- has set the flag
  | won
  -- has read the time of the start, and not stored it yet
  | starting (time : Nat)
  | sending
  -- has dropped the flag
  | dropped
  | ending (time : Nat)
deriving DecidableEq, Repr

namespace HandlerPhase

/-- `last_cache_replay_secs` has been loaded. -/
def hasLast : HandlerPhase → Bool
  | .clock => false
  | _ => true

/-- `boot_blob_cached_at` has been loaded. -/
def hasCached : HandlerPhase → Bool
  | .clock => false
  | .last => false
  | .active => false
  | _ => true

end HandlerPhase

structure GreetHandler where
  phase : HandlerPhase
  loaded : Loaded
deriving DecidableEq, Repr

/-- The handler has the flag. -/
def GreetHandler.replaying (h : GreetHandler) : Bool :=
  match h.phase with
  | .won => true
  | .starting _ => true
  | .sending => true
  | _ => false

/-- A capture that has put its blob in place and not stored its time yet; `read` is that
    time once it has looked at the clock. -/
structure Installer where
  setAt : Nat
  read : Option Nat := none
deriving DecidableEq, Repr

/-- A node, the gateway's cache, and what is under way.  A blob is represented by the
    time it was put in place. -/
structure ReplayWorld where
  now : Nat
  active : Bool := false
  lastCacheReplaySecs : Nat := 0
  replayInFlight : Bool := false
  bootBlob : Option Nat := none
  bootBlobCachedAt : Nat := 0
  cachedFor : Nat := 0
  handlers : List GreetHandler := []
  installers : List Installer := []
  /-- Every value `last_cache_replay_secs` was given, and what each replay was decided on. -/
  stamps : List Nat := []
  replays : List Loaded := []
deriving DecidableEq, Repr

inductive ReplayEvent where
  | greet
  /-- The handler goes on; `ok` is how the sending ends. -/
  | go (h : GreetHandler) (ok : Bool)
  | tick (now : Nat)
  | session (active : Bool)
  | install
  | readInstall (i : Installer)
  | stampInstall (i : Installer) (time : Nat)
  /-- The refresher frees a blob. -/
  | free
deriving DecidableEq, Repr

namespace ReplayWorld

/-- A world in which the blob loaded from disk, if any, is as old as its file. -/
def start (now : Nat) (fromDisk : Option Nat) : ReplayWorld where
  now := now
  bootBlob := fromDisk
  bootBlobCachedAt := fromDisk.getD 0
  cachedFor := fromDisk.getD 0

/-- `last_cache_replay_secs.store(time)`. -/
def stamp (s : ReplayWorld) (time : Nat) : ReplayWorld :=
  { s with lastCacheReplaySecs := time, stamps := s.stamps ++ [time] }

/-- The handler moves on. -/
def move (s : ReplayWorld) (h : GreetHandler) (phase : HandlerPhase) (loaded : Loaded) : ReplayWorld :=
  { s with handlers := Bag.replace s.handlers h ⟨phase, loaded⟩ }

/-- The handler is through. -/
def leave (s : ReplayWorld) (h : GreetHandler) : ReplayWorld := { s with handlers := s.handlers.erase h }

/-- `cache_replay_blob` and the replay of `replay_cache_then_live`, one access at a time. -/
def go (s : ReplayWorld) (h : GreetHandler) (ok : Bool) : ReplayWorld :=
  match h.phase with
  | .clock => s.move h .last { h.loaded with last := s.lastCacheReplaySecs, seen := s.stamps.length }
  | .last => s.move h .active { h.loaded with active := s.active }
  | .active => s.move h .cached { h.loaded with cachedAt := s.bootBlobCachedAt, cachedFor := s.cachedFor }
  | .cached =>
    match s.bootBlob with
    | none => s.leave h
    | some setAt => s.move h .blob { h.loaded with setAt := setAt }
  | .blob =>
    if shouldReplayCache h.loaded.now h.loaded.last h.loaded.active h.loaded.cachedAt ∧ s.replayInFlight = false then
      { s.move h .won h.loaded with replayInFlight := true, replays := s.replays ++ [h.loaded] }
    else s.leave h
  | .won => s.move h (.starting s.now) h.loaded
  | .starting time => (s.move h .sending h.loaded).stamp time
  | .sending =>
    if ok then { s.move h .dropped h.loaded with replayInFlight := false }
    -- the write failed: the stamp of the start stays
    else { s.leave h with replayInFlight := false }
  | .dropped => s.move h (.ending s.now) h.loaded
  | .ending time => (s.leave h).stamp time

def step (s : ReplayWorld) : ReplayEvent → Option ReplayWorld
  | .greet => some { s with handlers := ⟨.clock, { now := s.now }⟩ :: s.handlers }
  | .go h ok => if h ∈ s.handlers then some (s.go h ok) else none
  | .tick now => if s.now ≤ now then some { s with now := now } else none
  | .session active => some { s with active := active }
  | .install => some { s with bootBlob := some s.now, installers := ⟨s.now, none⟩ :: s.installers }
  | .readInstall i =>
    if i ∈ s.installers then some { s with installers := Bag.replace s.installers i ⟨i.setAt, some s.now⟩ } else none
  | .stampInstall i time =>
    if i ∈ s.installers ∧ i.read = some time then
      some { s with bootBlobCachedAt := time, cachedFor := i.setAt, installers := s.installers.erase i }
    else none
  | .free => some { s with bootBlob := none }

/-! ## 3. Every run -/

/-- What is known of a handler's values, by how far it is. -/
structure Handler (s : ReplayWorld) (h : GreetHandler) : Prop where
  stamped : h.phase.hasLast = true →
    h.loaded.seen ≤ s.stamps.length ∧ h.loaded.last = (s.stamps.take h.loaded.seen).getLastD 0
  judged : h.phase.hasCached = true →
    h.loaded.cachedFor ≤ h.loaded.cachedAt ∧ h.loaded.cachedFor ≤ s.now ∧
      ∀ setAt, s.bootBlob = some setAt → h.loaded.cachedFor ≤ setAt
  taken : h.phase = .blob → h.loaded.cachedFor ≤ h.loaded.setAt

/-- What holds of a replay that was started. -/
structure Replayed (stamps : List Nat) (r : Loaded) : Prop where
  idle : r.active = false
  fresh : r.cachedAt ≠ 0 ∧ r.now ≤ r.cachedAt + MAX_BOOTSTRAP_CACHE_AGE_SECS
  judged : r.cachedFor ≤ r.cachedAt ∧ r.cachedFor ≤ r.setAt
  seen_le : r.seen ≤ stamps.length
  loaded : r.last = (stamps.take r.seen).getLastD 0
  cooled : r.last = 0 ∨ r.last + CACHE_REPLAY_COOLDOWN_SECS ≤ r.now

structure Inv (s : ReplayWorld) : Prop where
  flag : s.handlers.countP GreetHandler.replaying = if s.replayInFlight then 1 else 0
  handlers : ∀ h ∈ s.handlers, s.Handler h
  replays : ∀ r ∈ s.replays, Replayed s.stamps r
  last_eq : s.lastCacheReplaySecs = s.stamps.getLastD 0
  /-- The blob in place is not older than any whose time is stored or about to be. -/
  cachedFor_le : s.cachedFor ≤ s.bootBlobCachedAt ∧ s.cachedFor ≤ s.now
  newest : ∀ setAt, s.bootBlob = some setAt → s.cachedFor ≤ setAt ∧ ∀ i ∈ s.installers, i.setAt ≤ setAt
  installed : ∀ i ∈ s.installers, i.setAt ≤ s.now ∧ ∀ time, i.read = some time → i.setAt ≤ time

variable {s t : ReplayWorld} {h : GreetHandler}

theorem inv_start {now : Nat} {fromDisk : Option Nat} (hold : fromDisk.getD 0 ≤ now) : (start now fromDisk).Inv where
  flag := rfl
  handlers _ hh := absurd hh List.not_mem_nil
  replays _ hr := absurd hr List.not_mem_nil
  last_eq := rfl
  cachedFor_le := ⟨Nat.le_refl _, hold⟩
  newest setAt hset := by
    refine ⟨?_, fun _ hi => absurd hi List.not_mem_nil⟩
    have : fromDisk = some setAt := hset
    rw [start, this]
    exact Nat.le_refl _
  installed _ hi := absurd hi List.not_mem_nil

/-- A handler keeps what it knows when time passes, stamps are added and the blob in place
    is replaced by a newer one or freed. -/
theorem Handler.frame (hh : s.Handler h) (hnow : s.now ≤ t.now) (hstamps : s.stamps <+: t.stamps)
    (hblob : ∀ setAt, t.bootBlob = some setAt → s.bootBlob = some setAt ∨ s.now ≤ setAt) : t.Handler h where
  stamped hphase := by
    obtain ⟨hlen, hall⟩ := hh.stamped hphase
    refine ⟨hlen.trans hstamps.length_le, ?_⟩
    obtain ⟨more, hmore⟩ := hstamps
    rw [← hmore, List.take_append_of_le_length hlen]
    exact hall
  judged hphase := by
    obtain ⟨hat, hle, hset⟩ := hh.judged hphase
    refine ⟨hat, hle.trans hnow, ?_⟩
    intro setAt hsome
    rcases hblob setAt hsome with hold | hnew
    · exact hset setAt hold
    · exact hle.trans hnew
  taken := hh.taken

/-- A handler that has loaded everything goes on with the same values. -/
theorem Handler.onward {phase phase' : HandlerPhase} {loaded : Loaded} (hh : s.Handler ⟨phase, loaded⟩)
    (hlast : phase.hasLast = true) (hcached : phase.hasCached = true) (hpast : phase' ≠ .blob) :
    s.Handler ⟨phase', loaded⟩ :=
  ⟨fun _ => hh.stamped hlast, fun _ => hh.judged hcached, fun hblob => absurd hblob hpast⟩

theorem Replayed.frame {stamps stamps' : List Nat} {r : Loaded} (hr : Replayed stamps r) (hpre : stamps <+: stamps') :
    Replayed stamps' r := by
  obtain ⟨more, rfl⟩ := hpre
  refine { hr with seen_le := hr.seen_le.trans (by rw [List.length_append]; omega), loaded := ?_ }
  rw [List.take_append_of_le_length hr.seen_le]
  exact hr.loaded

/-- What a handler that moves has to show: the flag counts it, and it knows what its new
    phase says. -/
theorem Inv.move (hinv : s.Inv) (hmem : h ∈ s.handlers) (phase : HandlerPhase) (loaded : Loaded) (inFlight : Bool)
    (replays : List Loaded)
    (hflag : (if GreetHandler.replaying ⟨phase, loaded⟩ then 1 else 0) + (if s.replayInFlight then 1 else 0) =
      (if h.replaying then 1 else 0) + (if inFlight then 1 else 0))
    (hknows : s.Handler ⟨phase, loaded⟩) (hreplays : ∀ r ∈ replays, Replayed s.stamps r) :
    ({ s.move h phase loaded with replayInFlight := inFlight, replays := replays } : ReplayWorld).Inv := by
  refine { hinv with flag := ?_, handlers := ?_, replays := hreplays }
  · have hcount := Bag.countP_replace_add GreetHandler.replaying hmem ⟨phase, loaded⟩
    have hold := hinv.flag
    simp only [ReplayWorld.move]
    omega
  · intro g hg
    rcases List.mem_cons.mp hg with rfl | hg
    · exact { hknows with }
    · exact { hinv.handlers g (List.mem_of_mem_erase hg) with }

theorem Inv.leave (hinv : s.Inv) (hmem : h ∈ s.handlers) (inFlight : Bool)
    (hflag : (if s.replayInFlight then 1 else 0) = (if h.replaying then 1 else 0) + (if inFlight then 1 else 0)) :
    ({ s.leave h with replayInFlight := inFlight } : ReplayWorld).Inv := by
  refine { hinv with flag := ?_, handlers := ?_ }
  · have hcount := Bag.countP_erase_add GreetHandler.replaying hmem
    have hold := hinv.flag
    simp only [ReplayWorld.leave]
    omega
  · exact fun g hg => { hinv.handlers g (List.mem_of_mem_erase hg) with }

theorem Inv.stamp (hinv : s.Inv) (time : Nat) : (s.stamp time).Inv := by
  have hpre : s.stamps <+: (s.stamp time).stamps := List.prefix_append _ _
  refine { hinv with handlers := ?_, replays := fun r hr => (hinv.replays r hr).frame hpre, last_eq := ?_ }
  · intro g hg
    exact (hinv.handlers g hg).frame (Nat.le_refl _) hpre fun setAt hset => Or.inl hset
  · simp [ReplayWorld.stamp]

/-- What the decision says. -/
theorem shouldReplayCache_eq_true {now last cachedAt : Nat} {active : Bool}
    (h : shouldReplayCache now last active cachedAt = true) :
    active = false ∧ (cachedAt ≠ 0 ∧ now ≤ cachedAt + MAX_BOOTSTRAP_CACHE_AGE_SECS) ∧
      (last = 0 ∨ CACHE_REPLAY_COOLDOWN_SECS ≤ now - last) := by
  obtain ⟨hactive, hfresh, hallowed⟩ := of_decide_eq_true h
  obtain ⟨hne, hage⟩ := of_decide_eq_true hfresh
  exact ⟨by simpa using hactive, ⟨hne, by omega⟩, of_decide_eq_true hallowed⟩

theorem Inv.go (hinv : s.Inv) (hmem : h ∈ s.handlers) (ok : Bool) : (s.go h ok).Inv := by
  have hh := hinv.handlers h hmem
  obtain ⟨phase, loaded⟩ := h
  cases phase with
  | clock =>
    refine hinv.move hmem .last _ s.replayInFlight s.replays rfl
      ⟨fun _ => ⟨Nat.le_refl _, ?_⟩, fun hno => (by cases hno), fun hno => (by cases hno)⟩ hinv.replays
    rw [List.take_length]
    exact hinv.last_eq
  | last =>
    exact hinv.move hmem .active _ s.replayInFlight s.replays rfl
      ⟨fun _ => hh.stamped rfl, fun hno => (by cases hno), fun hno => (by cases hno)⟩ hinv.replays
  | active =>
    refine hinv.move hmem .cached _ s.replayInFlight s.replays rfl
      ⟨fun _ => hh.stamped rfl, fun _ => ⟨hinv.cachedFor_le.1, hinv.cachedFor_le.2, ?_⟩, fun hno => (by cases hno)⟩
      hinv.replays
    exact fun setAt hset => (hinv.newest setAt hset).1
  | cached =>
    have hjudged := hh.judged rfl
    simp only [ReplayWorld.go]
    split
    · exact hinv.leave hmem s.replayInFlight (by simp [GreetHandler.replaying])
    · rename_i setAt hset
      exact hinv.move hmem .blob _ s.replayInFlight s.replays rfl
        ⟨fun _ => hh.stamped rfl, fun _ => hjudged, fun _ => hjudged.2.2 setAt hset⟩ hinv.replays
  | blob =>
    simp only [ReplayWorld.go]
    split
    · rename_i hdecide
      obtain ⟨hactive, hfresh, hallowed⟩ := shouldReplayCache_eq_true hdecide.1
      obtain ⟨hlen, hseen⟩ := hh.stamped rfl
      refine hinv.move hmem .won loaded true (s.replays ++ [loaded]) ?_ (hh.onward rfl rfl HandlerPhase.noConfusion) ?_
      · rw [hdecide.2]
        rfl
      · intro r hr
        rcases List.mem_append.mp hr with hr | hr
        · exact hinv.replays r hr
        · rw [List.mem_singleton.mp hr]
          refine ⟨hactive, hfresh, ⟨(hh.judged rfl).1, hh.taken rfl⟩, hlen, hseen, ?_⟩
          unfold CACHE_REPLAY_COOLDOWN_SECS at hallowed ⊢
          omega
    · exact hinv.leave hmem s.replayInFlight (by simp [GreetHandler.replaying])
  | won =>
    exact hinv.move hmem (.starting s.now) loaded s.replayInFlight s.replays rfl
      (hh.onward rfl rfl HandlerPhase.noConfusion) hinv.replays
  | starting time =>
    exact (hinv.move hmem .sending loaded s.replayInFlight s.replays rfl
      (hh.onward rfl rfl HandlerPhase.noConfusion) hinv.replays).stamp time
  | sending =>
    -- the flag is this handler's
    have hset : s.replayInFlight = true := by
      have hflag := hinv.flag
      have hpos : 0 < s.handlers.countP GreetHandler.replaying := List.countP_pos_iff.mpr ⟨_, hmem, rfl⟩
      by_contra hno
      rw [if_neg hno] at hflag
      omega
    simp only [ReplayWorld.go]
    split
    · refine hinv.move hmem .dropped loaded false s.replays ?_ (hh.onward rfl rfl HandlerPhase.noConfusion) hinv.replays
      rw [hset]
      rfl
    · apply hinv.leave hmem false
      rw [hset]
      rfl
  | dropped =>
    exact hinv.move hmem (.ending s.now) loaded s.replayInFlight s.replays rfl
      (hh.onward rfl rfl HandlerPhase.noConfusion) hinv.replays
  | ending time => exact (hinv.leave hmem s.replayInFlight (by simp [GreetHandler.replaying])).stamp time

theorem Inv.step {e : ReplayEvent} (hinv : s.Inv) (hs : s.step e = some t) : t.Inv := by
  cases e with
  | greet =>
    cases hs
    refine { hinv with flag := ?_, handlers := ?_ }
    · rw [List.countP_cons]
      exact hinv.flag
    · intro g hg
      rcases List.mem_cons.mp hg with rfl | hg
      · exact ⟨fun hno => (by cases hno), fun hno => (by cases hno), fun hno => (by cases hno)⟩
      · exact { hinv.handlers g hg with }
  | go h ok =>
    obtain ⟨hmem, ⟨⟩⟩ := Option.ite_none_right_eq_some.mp hs
    exact hinv.go hmem ok
  | tick now =>
    obtain ⟨hle, ⟨⟩⟩ := Option.ite_none_right_eq_some.mp hs
    refine ⟨hinv.flag, ?_, hinv.replays, hinv.last_eq, ⟨hinv.cachedFor_le.1, hinv.cachedFor_le.2.trans hle⟩, hinv.newest,
      fun i hi => ⟨(hinv.installed i hi).1.trans hle, (hinv.installed i hi).2⟩⟩
    exact fun g hg => (hinv.handlers g hg).frame hle (List.prefix_refl _) fun setAt hset => Or.inl hset
  | session active =>
    cases hs
    exact { hinv with handlers := fun g hg => { hinv.handlers g hg with } }
  | install =>
    cases hs
    refine { hinv with handlers := ?_, newest := ?_, installed := ?_ }
    · refine fun g hg => (hinv.handlers g hg).frame (Nat.le_refl _) (List.prefix_refl _) ?_
      intro setAt hset
      right
      cases hset
      exact Nat.le_refl _
    · intro setAt hset
      cases hset
      refine ⟨hinv.cachedFor_le.2, ?_⟩
      intro i hi
      rcases List.mem_cons.mp hi with rfl | hi
      · exact Nat.le_refl _
      · exact (hinv.installed i hi).1
    · intro i hi
      rcases List.mem_cons.mp hi with rfl | hi
      · exact ⟨Nat.le_refl _, fun time hread => by cases hread⟩
      · exact hinv.installed i hi
  | readInstall i =>
    obtain ⟨hmem, ⟨⟩⟩ := Option.ite_none_right_eq_some.mp hs
    refine { hinv with handlers := fun g hg => { hinv.handlers g hg with }, newest := ?_, installed := ?_ }
    · intro setAt hset
      obtain ⟨hfor, hnewest⟩ := hinv.newest setAt hset
      refine ⟨hfor, ?_⟩
      intro j hj
      rcases List.mem_cons.mp hj with rfl | hj
      · exact hnewest i hmem
      · exact hnewest j (List.mem_of_mem_erase hj)
    · intro j hj
      rcases List.mem_cons.mp hj with rfl | hj
      · refine ⟨(hinv.installed i hmem).1, ?_⟩
        intro time hread
        cases hread
        exact (hinv.installed i hmem).1
      · exact hinv.installed j (List.mem_of_mem_erase hj)
  | stampInstall i time =>
    obtain ⟨⟨hmem, hread⟩, ⟨⟩⟩ := Option.ite_none_right_eq_some.mp hs
    obtain ⟨hset, hclock⟩ := hinv.installed i hmem
    refine ⟨hinv.flag, fun g hg => { hinv.handlers g hg with }, hinv.replays, hinv.last_eq, ⟨hclock time hread, hset⟩, ?_,
      fun j hj => hinv.installed j (List.mem_of_mem_erase hj)⟩
    intro at' hset
    exact ⟨(hinv.newest at' hset).2 i hmem, fun j hj => (hinv.newest at' hset).2 j (List.mem_of_mem_erase hj)⟩
  | free =>
    cases hs
    refine { hinv with handlers := ?_, newest := ?_ }
    · exact fun g hg => (hinv.handlers g hg).frame (Nat.le_refl _) (List.prefix_refl _) fun setAt hset => by cases hset
    · intro setAt hset
      cases hset

end ReplayWorld

/-- **Replays of the cached bootstrap.**  In every interleaving of greets of one node,
    sessions, captures and the refresher: at most one replay to the node is under way, and
    the flag says so.  Every replay was decided while no session was seen; the blob it
    sends was put in place no earlier than the one whose time was judged, and that time was
    at most `MAX_BOOTSTRAP_CACHE_AGE_SECS` ago; and the stamp its handler loaded, the last
    one stored by then, was no less than the cooldown before the time it had read. -/
theorem cache_replays_over_runs (now : Nat) (fromDisk : Option Nat) (hold : fromDisk.getD 0 ≤ now)
    (es : List ReplayEvent) (t : ReplayWorld)
    (hrun : Machine.Run ReplayWorld.step (fun _ _ => True) (ReplayWorld.start now fromDisk) es t) :
    t.handlers.countP GreetHandler.replaying ≤ 1 ∧
    (t.replayInFlight = true ↔ ∃ h ∈ t.handlers, h.replaying = true) ∧
    ∀ r ∈ t.replays, r.active = false ∧
      (r.cachedFor ≤ r.setAt ∧ r.cachedFor ≤ r.cachedAt ∧ r.now ≤ r.cachedAt + MAX_BOOTSTRAP_CACHE_AGE_SECS) ∧
      r.last = (t.stamps.take r.seen).getLastD 0 ∧ (r.last = 0 ∨ r.last + CACHE_REPLAY_COOLDOWN_SECS ≤ r.now) := by
  have hinv : t.Inv := hrun.invariant (ReplayWorld.inv_start hold) fun _ _ _ h _ hs => h.step hs
  have hflag := hinv.flag
  refine ⟨?_, ?_, ?_⟩
  · split at hflag
    · omega
    · omega
  · rw [← List.countP_pos_iff, hflag]
    split
    · exact iff_of_true ‹_› Nat.one_pos
    · exact iff_of_false ‹_› (Nat.lt_irrefl 0)
  · intro r hr
    have hreplayed := hinv.replays r hr
    exact ⟨hreplayed.idle, ⟨hreplayed.judged.2, hreplayed.judged.1, hreplayed.fresh.2⟩, hreplayed.loaded,
      hreplayed.cooled⟩

/-- What the first greet loads, a hundred seconds after the cache was written, and what a
    greet loads thirty seconds after the start of that replay was stamped. -/
def firstGreet : Loaded := { now := 1000, cachedAt := 900, cachedFor := 900, setAt := 900 }

def secondGreet : Loaded := { firstGreet with now := 1030, last := 1000, seen := 1 }

/-- Two greets at once, of which the first one gets the blob, and a third one that gets it
    again while the end of the first replay is not stamped. -/
def replayedTwice : ReplayWorld where
  now := 1030
  lastCacheReplaySecs := 1000
  replayInFlight := true
  bootBlob := some 900
  bootBlobCachedAt := 900
  cachedFor := 900
  handlers := [⟨.won, secondGreet⟩, ⟨.dropped, firstGreet⟩]
  stamps := [1000]
  replays := [firstGreet, secondGreet]

theorem cache_replays_over_runs_twice :
    replayedTwice.handlers.countP GreetHandler.replaying ≤ 1 ∧
      (secondGreet.now ≤ secondGreet.cachedAt + MAX_BOOTSTRAP_CACHE_AGE_SECS ∧
        secondGreet.last + CACHE_REPLAY_COOLDOWN_SECS ≤ secondGreet.now) := by
  have hrun : Machine.Run ReplayWorld.step (fun _ _ => True) (ReplayWorld.start 1000 (some 900))
      [.greet, .go ⟨.clock, { now := 1000 }⟩ true, .greet, .go ⟨.last, { now := 1000 }⟩ true,
        .go ⟨.clock, { now := 1000 }⟩ true, .go ⟨.active, { now := 1000 }⟩ true, .go ⟨.last, { now := 1000 }⟩ true,
        .go ⟨.active, { now := 1000 }⟩ true, .go ⟨.cached, { firstGreet with setAt := 0 }⟩ true,
        .go ⟨.cached, { firstGreet with setAt := 0 }⟩ true, .go ⟨.blob, firstGreet⟩ true, .go ⟨.blob, firstGreet⟩ true,
        .go ⟨.won, firstGreet⟩ true, .tick 1005, .go ⟨.starting 1000, firstGreet⟩ true, .tick 1030,
        .go ⟨.sending, firstGreet⟩ true, .greet, .go ⟨.clock, { now := 1030 }⟩ true,
        .go ⟨.last, { now := 1030, last := 1000, seen := 1 }⟩ true,
        .go ⟨.active, { now := 1030, last := 1000, seen := 1 }⟩ true,
        .go ⟨.cached, { secondGreet with setAt := 0 }⟩ true, .go ⟨.blob, secondGreet⟩ true]
      replayedTwice := Machine.Run.of_exec (by decide)
  obtain ⟨hone, -, hreplays⟩ := cache_replays_over_runs 1000 (some 900) (by decide) _ replayedTwice hrun
  obtain ⟨-, hfresh, -, hcooled⟩ := hreplays secondGreet (by decide)
  exact ⟨hone, hfresh.2.2, hcooled.resolve_left (by decide)⟩

end Hypersync.Gateway
