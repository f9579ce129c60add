import Hypersync.Failover.Roster
import Hypersync.Lib.Fresh

/-!
# Who is in a hot-standby session

The session takes in what its dial task reports, long after the candidates were
chosen.  One task at a time, candidates that are not in use, and room for one more
when the task is spawned: as upstreams only leave in the meantime, the newcomer still
fits.  The invariant is over every interleaving of the loop with the task.
-/

namespace Hypersync.Failover

/-! ## 1. Addresses on their way into the session -/

def Dial.ips (d : Dial) : List String := d.waiting ++ d.racing.map Attempt.ip

def Notice.ips : Notice → List String
  | .connected ip _ => [ip]
  | .connectFailed => []

namespace Dial

variable {d d' : Dial} {i : Nat} {ip : String}

/-- A task works on the candidates it was spawned with. -/
theorem mem_ips_launch {cfg : Config} {free : String → Bool} (h : d.launch cfg free = some d') (hip : ip ∈ d'.ips) :
    ip ∈ d.ips := by
  unfold launch at h
  split at h <;> cases h
  apply List.mem_append_left
  rcases List.mem_append.mp hip with hip | hip
  · exact List.mem_of_mem_drop hip
  · obtain ⟨a, ha, rfl⟩ := List.mem_map.mp hip
    obtain ⟨x, hx, hslot⟩ := List.mem_filterMap.mp ha
    obtain ⟨prio, -, rfl⟩ := Option.map_eq_some_iff.mp hslot
    exact List.mem_of_mem_take hx

/-- An attempt that moves on keeps its address. -/
theorem mem_ips_set {a b : Attempt} (ha : d.racing[i]? = some a)
    (hip : ip ∈ Dial.ips { d with racing := d.racing.set i b }) (hsame : b.ip = a.ip) : ip ∈ d.ips := by
  rcases List.mem_append.mp hip with hip | hip
  · exact List.mem_append_left _ hip
  · apply List.mem_append_right
    obtain ⟨x, hx, rfl⟩ := List.mem_map.mp hip
    rcases List.mem_or_eq_of_mem_set hx with hx | rfl
    · exact List.mem_map_of_mem hx
    · rw [hsame]
      exact List.mem_map_of_mem (List.mem_of_getElem? ha)

theorem mem_ips_eraseIdx (hip : ip ∈ Dial.ips { d with racing := d.racing.eraseIdx i }) : ip ∈ d.ips := by
  rcases List.mem_append.mp hip with hip | hip
  · exact List.mem_append_left _ hip
  · apply List.mem_append_right
    obtain ⟨x, hx, rfl⟩ := List.mem_map.mp hip
    exact List.mem_map_of_mem (List.mem_of_mem_eraseIdx hx)

theorem mem_ips_check {blacklist : Blacklist} (h : d.check blacklist i = some d') (hip : ip ∈ d'.ips) : ip ∈ d.ips := by
  unfold check at h
  split at h <;> cases h
  rename_i ha
  split at hip
  · exact mem_ips_eraseIdx hip
  · exact mem_ips_set ha hip rfl

theorem mem_ips_connect (h : d.connect i = some d') (hip : ip ∈ d'.ips) : ip ∈ d.ips := by
  unfold connect at h
  split at h <;> cases h
  rename_i ha
  exact mem_ips_set ha hip rfl

theorem mem_ips_fail (h : d.fail i = some d') (hip : ip ∈ d'.ips) : ip ∈ d.ips := by
  unfold fail at h
  split at h <;> cases h
  exact mem_ips_eraseIdx hip

theorem mem_ips_greeted {n : Notice} (h : d.greeted i = some n) (hip : ip ∈ n.ips) : ip ∈ d.ips := by
  unfold greeted at h
  split at h <;> cases h
  rename_i ha
  apply List.mem_append_right
  rw [List.mem_singleton.mp hip]
  exact List.mem_map.mpr ⟨_, List.mem_of_getElem? ha, rfl⟩

theorem ips_exhausted {n : Notice} (h : d.exhausted = some n) : n.ips = [] := by
  unfold exhausted at h
  split at h <;> cases h
  rfl

end Dial

namespace World

/-- The addresses that a dial task is at, or has reported. -/
def pending (w : World) : List String := w.dials.flatMap Dial.ips ++ w.inbox.flatMap Notice.ips

/-- The dial tasks the session waits for. -/
def outstanding (w : World) : Nat := w.dials.length + w.inbox.length

variable {w w' : World} {k : Nat}

theorem dialStep_spec {f : Dial → Option Dial} (hf : ∀ d d', f d = some d' → ∀ ip ∈ d'.ips, ip ∈ d.ips)
    (h : w.dialStep k f = some w') :
    (∀ ip ∈ w'.pending, ip ∈ w.pending) ∧ w'.outstanding = w.outstanding ∧ w'.session = w.session ∧
      w'.ended = w.ended := by
  obtain ⟨d', hd', rfl⟩ := Option.map_eq_some_iff.mp h
  obtain ⟨d, hd, hdf⟩ := Option.bind_eq_some_iff.mp hd'
  refine ⟨?_, ?_, rfl, rfl⟩
  · intro ip hip
    rcases List.mem_append.mp hip with hip | hip
    · apply List.mem_append_left
      obtain ⟨x, hx, hipx⟩ := List.mem_flatMap.mp hip
      rcases List.mem_or_eq_of_mem_set hx with hx | rfl
      · exact List.mem_flatMap.mpr ⟨x, hx, hipx⟩
      · exact List.mem_flatMap.mpr ⟨d, List.mem_of_getElem? hd, hf d _ hdf ip hipx⟩
    · exact List.mem_append_right _ hip
  · simp only [outstanding, List.length_set]

theorem dialEnd_spec {f : Dial → Option Notice} (hf : ∀ d n, f d = some n → ∀ ip ∈ n.ips, ip ∈ d.ips)
    (h : w.dialEnd k f = some w') :
    (∀ ip ∈ w'.pending, ip ∈ w.pending) ∧ w'.outstanding = w.outstanding ∧ w'.session = w.session ∧
      w'.ended = w.ended := by
  obtain ⟨n, hn, rfl⟩ := Option.map_eq_some_iff.mp h
  obtain ⟨d, hd, hdf⟩ := Option.bind_eq_some_iff.mp hn
  obtain ⟨hk, -⟩ := List.getElem?_eq_some_iff.mp hd
  refine ⟨?_, ?_, rfl, rfl⟩
  · intro ip hip
    rcases List.mem_append.mp hip with hip | hip
    · apply List.mem_append_left
      obtain ⟨x, hx, hip⟩ := List.mem_flatMap.mp hip
      exact List.mem_flatMap.mpr ⟨x, List.mem_of_mem_eraseIdx hx, hip⟩
    · obtain ⟨x, hx, hip⟩ := List.mem_flatMap.mp hip
      rcases List.mem_append.mp hx with hx | hx
      · exact List.mem_append_right _ (List.mem_flatMap.mpr ⟨x, hx, hip⟩)
      · apply List.mem_append_left
        rw [List.mem_singleton.mp hx] at hip
        exact List.mem_flatMap.mpr ⟨d, List.mem_of_getElem? hd, hf d n hdf ip hip⟩
  · simp only [outstanding, List.length_append, List.length_singleton, List.length_eraseIdx, if_pos hk]
    omega

end World

/-! ## 2. Refilling -/

namespace Session

variable {s s' : Session} {env : Env} {cfg : Config}

/-- A candidate for a free slot is not in use. -/
theorem mem_standbyCandidates {cooldown : KeyMap String Nat} {ip : String}
    (h : ip ∈ s.standbyCandidates env cooldown) : ip ∉ s.lives.keys.filterMap s.core.ipOf := by
  have hmem := (Fresh.mem_pushAll.mp h).resolve_left List.not_mem_nil
  exact (of_decide_eq_true (List.mem_filter.mp hmem).2).1

/-- A refill touches neither core nor connections; it dials with a slot free, and only
    addresses that are not in use. -/
theorem tickRefill_spec {cands : Option (List String)} (h : s.tickRefill cfg env = (s', cands)) :
    s'.core = s.core ∧ s'.lives = s.lives ∧ s'.nextId = s.nextId ∧ s'.sent = s.sent ∧
    (cands = none ∧ s'.connecting = s.connecting ∨
      ∃ ips, cands = some ips ∧ s.connecting = false ∧ s'.connecting = true ∧ s.core.standbyCount < cfg.standbys ∧
        ∀ ip ∈ ips, ip ∉ s.lives.keys.filterMap s.core.ipOf) := by
  unfold tickRefill at h
  split at h
  · rename_i hdue
    simp only [] at h
    split at h
    · cases h
      exact ⟨rfl, rfl, rfl, rfl, Or.inl ⟨rfl, rfl⟩⟩
    · cases h
      refine ⟨rfl, rfl, rfl, rfl, Or.inr ⟨_, rfl, ?_, rfl, hdue.2.1, ?_⟩⟩
      · simpa using hdue.1
      · intro ip hip
        exact mem_standbyCandidates (List.mem_of_mem_take hip)
  · cases h
    exact ⟨rfl, rfl, rfl, rfl, Or.inl ⟨rfl, rfl⟩⟩

end Session

namespace World

open Session (Tidy Keeps)

/-! ## 3. The line-up -/

/-- A frame event of upstream `id` with this frame has been handled. -/
def FramedBy (events : List World.Event) (id : Nat) (f : List UInt8) : Prop :=
  ∃ block at_ env, World.Event.frame id f block at_ env ∈ events

/-- **The line-up of a session.** -/
structure Lineup (cfg : Config) (events : List World.Event) (w : World) : Prop where
  tidy : w.ended = none → w.session.Tidy (FramedBy events) []
  below : ∀ id ∈ w.session.core.ups, id < w.session.nextId
  distinct : ∀ i j ip, w.session.core.ipOf i = some ip → w.session.core.ipOf j = some ip → i = j
  fresh : ∀ ip ∈ w.pending, ∀ id, w.session.core.ipOf id ≠ some ip
  dialing : w.outstanding = if w.session.connecting then 1 else 0
  room : w.session.core.ups.keys.length + w.outstanding ≤ cfg.standbys + 1

/-- The frames queued in a step are those of the upstream that is active behind it, which
    was connected all along. -/
def QueuesActive (H : Nat → List UInt8 → Prop) (w w' : World) : Prop :=
  ∃ new, w'.session.sent = w.session.sent ++ new ∧
    ∀ f ∈ new, H w'.session.core.active f ∧ w'.session.core.active ∈ w.session.lives ∧
      w'.session.core.active ∈ w'.session.lives

theorem framedBy_mono {events : List World.Event} {e : World.Event} {id : Nat} {f : List UInt8}
    (h : FramedBy events id f) : FramedBy (events ++ [e]) id f := by
  obtain ⟨block, at_, env, hmem⟩ := h
  exact ⟨block, at_, env, List.mem_append_left _ hmem⟩

variable {cfg : Config} {events : List World.Event} {e : World.Event} {w w' : World}

theorem Lineup.tidy_snoc (h : w.Lineup cfg events) (hopen : w.ended = none) (e : World.Event) :
    w.session.Tidy (FramedBy (events ++ [e])) [] := by
  have htidy := h.tidy hopen
  exact { htidy with heard := htidy.heard.mono fun _ _ => framedBy_mono }

theorem keys_length_le {c c' : Core} (h : ∀ id ip, c'.ipOf id = some ip → c.ipOf id = some ip) :
    c'.ups.keys.length ≤ c.ups.keys.length := by
  apply List.Subperm.length_le
  apply List.subperm_of_subset c'.ups.keys_nodup
  intro id hid
  obtain ⟨ip, hip⟩ := Option.isSome_iff_exists.mp (Core.ipOf_isSome.mpr (AList.mem_keys.mpr hid))
  exact AList.mem_keys.mp (Core.ipOf_isSome.mp (Option.isSome_iff_exists.mpr ⟨ip, h id ip hip⟩))

/-- A handler that takes nobody in. -/
theorem Lineup.keeps (h : w.Lineup cfg events) (hopen : w.ended = none) {a : Nat} {s' : Session}
    (hkeeps : Keeps (FramedBy (events ++ [e])) (FramedBy (events ++ [e]) a) w.session a [] s') :
    Lineup cfg (events ++ [e]) { w with session := s' } ∧
      QueuesActive (FramedBy (events ++ [e])) w { w with session := s' } := by
  have hups : ∀ id ∈ s'.core.ups, id ∈ w.session.core.ups := by
    intro id hid
    obtain ⟨ip, hip⟩ := Option.isSome_iff_exists.mp (Core.ipOf_isSome.mpr hid)
    exact Core.ipOf_isSome.mp (Option.isSome_iff_exists.mpr ⟨ip, hkeeps.kept id ip hip⟩)
  constructor
  · refine ⟨fun _ => hkeeps.tidy, ?_, ?_, ?_, ?_, ?_⟩
    · intro id hid
      rw [show (World.session { w with session := s' }).nextId = w.session.nextId from hkeeps.nextId]
      exact h.below id (hups id hid)
    · exact fun i j ip hi hj => h.distinct i j ip (hkeeps.kept i ip hi) (hkeeps.kept j ip hj)
    · exact fun ip hip id hid => h.fresh ip hip id (hkeeps.kept id ip hid)
    · have hdialing := h.dialing
      rwa [← hkeeps.connecting] at hdialing
    · exact (Nat.add_le_add_right (keys_length_le hkeeps.kept) _).trans h.room
  · obtain ⟨new, hsent, hnew⟩ := hkeeps.sent
    refine ⟨new, hsent, ?_⟩
    intro f hf
    have hactive : s'.core.active ∈ s'.core.ups := hkeeps.tidy.active_mem
    refine ⟨?_, ?_, ?_⟩
    · change FramedBy (events ++ [e]) s'.core.active f
      rw [hkeeps.active]
      exact hnew f hf
    · exact ((h.tidy hopen).same _).mpr (hups _ hactive)
    · exact (hkeeps.tidy.same _).mpr hactive

/-- The loop is left; the tasks go on. -/
theorem Lineup.ends (h : w.Lineup cfg events) (reason : String) :
    Lineup cfg (events ++ [e]) (w.proceed (.error reason)) ∧
      QueuesActive (FramedBy (events ++ [e])) w (w.proceed (.error reason)) :=
  ⟨{ h with tidy := nofun }, [], (List.append_nil _).symm, nofun⟩

/-- A report that is handled was the only one, and nothing else is under way. -/
theorem Lineup.last_notice (h : w.Lineup cfg events) {n : Notice} {inbox : List Notice} (hinbox : w.inbox = n :: inbox) :
    w.dials = [] ∧ inbox = [] ∧ w.session.connecting = true := by
  have hdialing := h.dialing
  rw [outstanding, hinbox, List.length_cons] at hdialing
  split at hdialing
  · rename_i hconnecting
    refine ⟨List.eq_nil_of_length_eq_zero ?_, List.eq_nil_of_length_eq_zero ?_, hconnecting⟩
    · omega
    · omega
  · omega

theorem lookup_onConnected {s : Session} {ip : String} {prio : Bool} {j : Nat} {v : Upstream}
    (h : (s.onConnected cfg ip prio).core.ups.lookup j = some v) :
    v.mismatches = 0 ∧ v.ahead = OrdMap.empty ∨ s.core.ups.lookup j = some v := by
  simp only [Session.onConnected] at h
  split at h
  · by_cases hj : j = s.nextId
    · rw [hj, Core.markPreferred, KeyMap.lookup_modify_self, Option.map_eq_some_iff] at h
      obtain ⟨u, hu, rfl⟩ := h
      rw [Core.addStandby, AList.lookup_insert, Option.some.injEq] at hu
      subst hu
      exact Or.inl ⟨rfl, rfl⟩
    · rw [Core.markPreferred, KeyMap.lookup_modify_ne hj, Core.addStandby, AList.lookup_insert_ne hj] at h
      exact Or.inr h
  · rcases KeyMap.lookup_insert_inv h with ⟨-, rfl⟩ | ⟨-, h⟩
    · exact Or.inl ⟨rfl, rfl⟩
    · exact Or.inr h

theorem tidy_onConnected {s : Session} {H : Nat → List UInt8 → Prop} (h : s.Tidy H []) (ip : String) (prio : Bool) :
    (s.onConnected cfg ip prio).Tidy H [] := by
  have hups : ∀ id, id ∈ (s.onConnected cfg ip prio).core.ups ↔ id = s.nextId ∨ id ∈ s.core.ups := by
    intro id
    rw [← Core.ipOf_isSome, Session.ipOf_onConnected, ← Core.ipOf_isSome]
    by_cases hid : id = s.nextId
    · simp [hid]
    · simp [hid]
  refine ⟨?_, List.not_mem_nil, ?_, ?_, ?_⟩
  · rw [Session.onConnected_active, hups]
    exact Or.inr h.active_mem
  · intro id
    rw [Session.mem_onConnected_lives, hups, h.same]
  · intro id u hu hid _
    rw [Session.onConnected_active] at hid
    rcases lookup_onConnected hu with ⟨hzero, -⟩ | hu
    · rw [hzero]
      exact Nat.zero_lt_succ 2
    · exact h.agrees id u hu hid List.not_mem_nil
  · intro id u hu p hp
    rcases lookup_onConnected hu with ⟨-, hempty⟩ | hu
    · rw [hempty] at hp
      cases hp
    · exact h.heard id u hu p hp

theorem length_keys_onConnected (s : Session) (ip : String) (prio : Bool) :
    (s.onConnected cfg ip prio).core.ups.keys.length ≤ s.core.ups.keys.length + 1 := by
  have hinsert : (s.core.ups.insert s.nextId { ip := ip }).keys.length ≤ s.core.ups.keys.length + 1 := by
    rw [AList.keys_insert, List.length_cons]
    exact Nat.succ_le_succ List.length_erase_le
  simp only [Session.onConnected]
  split
  · rw [Core.markPreferred, KeyMap.keys_modify]
    exact hinsert
  · exact hinsert

/-- The newcomer was not in use when it was dialed, and nobody has come in since. -/
theorem Lineup.connected (h : w.Lineup cfg events) (hopen : w.ended = none) {ip : String} {prio : Bool}
    {inbox : List Notice} (hinbox : w.inbox = .connected ip prio :: inbox) :
    Lineup cfg (events ++ [e]) { w with inbox := inbox, session := w.session.onConnected cfg ip prio } := by
  obtain ⟨hdials, rfl, hconnecting⟩ := h.last_notice hinbox
  have hpending : ip ∈ w.pending := by
    rw [pending, hinbox]
    exact List.mem_append_right _ List.mem_cons_self
  have hip : ∀ id x, (w.session.onConnected cfg ip prio).core.ipOf id = some x →
      id = w.session.nextId ∧ x = ip ∨ id ≠ w.session.nextId ∧ w.session.core.ipOf id = some x := by
    intro id x hid
    rw [Session.ipOf_onConnected] at hid
    split at hid
    · rename_i heq
      exact Or.inl ⟨heq, (Option.some.inj hid).symm⟩
    · rename_i hne
      exact Or.inr ⟨hne, hid⟩
  refine ⟨fun _ => tidy_onConnected (h.tidy_snoc hopen e) ip prio, ?_, ?_, ?_, ?_, ?_⟩
  · intro id hid
    change id < w.session.nextId + 1
    obtain ⟨x, hx⟩ := Option.isSome_iff_exists.mp (Core.ipOf_isSome.mpr hid)
    rcases hip id x hx with ⟨rfl, -⟩ | ⟨-, hold⟩
    · exact Nat.lt_succ_self _
    · exact Nat.lt_succ_of_lt (h.below id (Core.ipOf_isSome.mp (Option.isSome_iff_exists.mpr ⟨x, hold⟩)))
  · intro i j x hi hj
    rcases hip i x hi with ⟨rfl, rfl⟩ | ⟨-, hold⟩
    · rcases hip j x hj with ⟨rfl, -⟩ | ⟨-, hold⟩
      · rfl
      · exact absurd hold (h.fresh x hpending j)
    · rcases hip j x hj with ⟨rfl, rfl⟩ | ⟨-, hold'⟩
      · exact absurd hold (h.fresh x hpending i)
      · exact h.distinct i j x hold hold'
  · intro x hx
    rw [pending, hdials] at hx
    cases hx
  · change w.dials.length + 0 = 0
    rw [hdials]
    rfl
  · have hroom := h.room
    rw [outstanding, hdials, hinbox] at hroom
    change _ + (w.dials.length + 0) ≤ _
    rw [hdials]
    exact (length_keys_onConnected w.session ip prio).trans hroom

theorem Lineup.connectFailed (h : w.Lineup cfg events) (hopen : w.ended = none) {env : Env} {inbox : List Notice}
    (hinbox : w.inbox = .connectFailed :: inbox) :
    Lineup cfg (events ++ [e]) { w with inbox := inbox, session := w.session.onConnectFailed env } := by
  obtain ⟨hdials, rfl, hconnecting⟩ := h.last_notice hinbox
  have htidy := h.tidy_snoc hopen e
  refine ⟨?_, h.below, h.distinct, ?_, ?_, ?_⟩
  · exact fun _ => htidy.congr rfl rfl
  · intro x hx
    rw [pending, hdials] at hx
    cases hx
  · change w.dials.length + 0 = 0
    rw [hdials]
    rfl
  · have hroom := h.room
    change _ + (w.dials.length + 0) ≤ _
    rw [hdials]
    exact (Nat.le_add_right _ _).trans hroom

/-- A refill spawns a task only when none is under way and a slot is free. -/
theorem Lineup.refill (h : w.Lineup cfg events) (hopen : w.ended = none) {env : Env} {s' : Session}
    {cands : Option (List String)} (hs : w.session.tickRefill cfg env = (s', cands)) :
    Lineup cfg events { w with session := s', dials := w.dials ++ cands.toList.map fun ips => ⟨ips, []⟩ } := by
  obtain ⟨hcore, hlives, hnext, -, hcands⟩ := Session.tickRefill_spec hs
  have htidy : s'.Tidy (FramedBy events) [] := (h.tidy hopen).congr hcore hlives
  have hbelow : ∀ id ∈ s'.core.ups, id < s'.nextId := by
    rw [hcore, hnext]
    exact h.below
  have hdistinct : ∀ i j ip, s'.core.ipOf i = some ip → s'.core.ipOf j = some ip → i = j := by
    rw [hcore]
    exact h.distinct
  rcases hcands with ⟨rfl, hconnecting⟩ | ⟨ips, rfl, hidle, hconnecting, hroom, hunused⟩
  · simp only [Option.toList_none, List.map_nil, List.append_nil]
    refine ⟨fun _ => htidy, hbelow, hdistinct, ?_, ?_, ?_⟩
    · change ∀ ip ∈ w.pending, ∀ id, s'.core.ipOf id ≠ some ip
      rw [hcore]
      exact h.fresh
    · change w.outstanding = if s'.connecting then 1 else 0
      rw [hconnecting]
      exact h.dialing
    · change s'.core.ups.keys.length + w.outstanding ≤ _
      rw [hcore]
      exact h.room
  · have hnone : w.outstanding = 0 := by
      rw [h.dialing, hidle]
      rfl
    have hout : (w.dials ++ [(⟨ips, []⟩ : Dial)]).length + w.inbox.length = 1 := by
      rw [outstanding] at hnone
      rw [List.length_append, List.length_singleton]
      omega
    refine ⟨fun _ => htidy, hbelow, hdistinct, ?_, ?_, ?_⟩
    · intro ip hip id
      change s'.core.ipOf id ≠ some ip
      rw [hcore]
      intro hid
      -- nothing was pending before, so the address is one of the new candidates
      obtain ⟨hdials, hinbox⟩ := Nat.add_eq_zero_iff.mp hnone
      simp only [pending, List.eq_nil_of_length_eq_zero hdials, List.eq_nil_of_length_eq_zero hinbox,
        Option.toList_some, List.map_cons, List.map_nil, List.nil_append, List.flatMap_cons, List.flatMap_nil,
        Dial.ips, List.append_nil] at hip
      apply hunused ip hip
      rw [List.mem_filterMap]
      refine ⟨id, AList.mem_keys.mp (((h.tidy hopen).same id).mpr ?_), hid⟩
      exact Core.ipOf_isSome.mp (Option.isSome_iff_exists.mpr ⟨ip, hid⟩)
    · change _ = if s'.connecting then 1 else 0
      rw [hconnecting]
      exact hout
    · change s'.core.ups.keys.length + ((w.dials ++ [(⟨ips, []⟩ : Dial)]).length + w.inbox.length) ≤ _
      rw [hcore, hout]
      rw [Core.standbyCount] at hroom
      omega

/-! ## 4. Runs -/

theorem QueuesActive.of_sent_eq {H : Nat → List UInt8 → Prop} (h : w'.session.sent = w.session.sent) :
    QueuesActive H w w' :=
  ⟨[], by rw [h, List.append_nil], nofun⟩

/-- A dial task moved. -/
theorem Lineup.dialed (h : w.Lineup cfg events) (hpending : ∀ ip ∈ w'.pending, ip ∈ w.pending)
    (hout : w'.outstanding = w.outstanding) (hsession : w'.session = w.session) (hended : w'.ended = w.ended) :
    Lineup cfg (events ++ [e]) w' ∧ QueuesActive (FramedBy (events ++ [e])) w w' := by
  refine ⟨⟨?_, ?_, ?_, ?_, ?_, ?_⟩, QueuesActive.of_sent_eq (congrArg Session.sent hsession)⟩
  · intro hopen
    rw [hsession]
    exact h.tidy_snoc (hended.symm.trans hopen) e
  · rw [hsession]
    exact h.below
  · rw [hsession]
    exact h.distinct
  · rw [hsession]
    exact fun ip hip => h.fresh ip (hpending ip hip)
  · rw [hsession, hout]
    exact h.dialing
  · rw [hsession, hout]
    exact h.room

theorem Lineup.tick (h : w.Lineup cfg events) (hopen : w.ended = none) {env : Env} {s' : Session}
    {cands : Option (List String)} (hs : w.session.onTick cfg env w.blacklist = .ok (s', cands)) :
    Lineup cfg (events ++ [e]) { w with session := s', dials := w.dials ++ cands.toList.map fun ips => ⟨ips, []⟩ } ∧
      QueuesActive (FramedBy (events ++ [e])) w { w with session := s' } := by
  obtain ⟨id, s₁, hkeeps, hrefill⟩ := Session.keeps_onTick (h.tidy_snoc hopen e) hs
  obtain ⟨hlineup, new, hsent, hnew⟩ := h.keeps hopen hkeeps
  obtain ⟨hcore, hlives, -, hsent', -⟩ := Session.tickRefill_spec hrefill
  refine ⟨hlineup.refill hopen hrefill, new, hsent'.trans hsent, ?_⟩
  intro f hf
  change FramedBy _ s'.core.active f ∧ s'.core.active ∈ w.session.lives ∧ s'.core.active ∈ s'.lives
  rw [hcore, hlives]
  exact hnew f hf

theorem Lineup.loopStep (h : w.Lineup cfg events) (hopen : w.ended = none) (hstep : w.loopStep cfg e = some w') :
    Lineup cfg (events ++ [e]) w' ∧ QueuesActive (FramedBy (events ++ [e])) w w' := by
  have htidy := h.tidy_snoc hopen e
  cases e with
  | frame id frame block at_ env =>
    cases hstep
    rcases hs : w.session.onFrame env id frame block at_ with reason | s'
    · exact h.ends reason
    · have hframe : FramedBy (events ++ [.frame id frame block at_ env]) id frame :=
        ⟨block, at_, env, List.mem_append_right _ (List.mem_singleton_self _)⟩
      exact h.keeps hopen (Session.keeps_onFrame htidy hframe hs)
  | closed id reason env =>
    cases hstep
    exact h.keeps hopen (Session.keeps_onClosed htidy env id reason)
  | notice env =>
    simp only [World.loopStep] at hstep
    split at hstep
    · cases hstep
    · rename_i ip prio inbox hinbox
      cases hstep
      exact ⟨h.connected hopen hinbox, QueuesActive.of_sent_eq rfl⟩
    · rename_i inbox hinbox
      cases hstep
      exact ⟨h.connectFailed hopen hinbox, QueuesActive.of_sent_eq rfl⟩
  | nodeBytes env =>
    cases hstep
    exact h.keeps hopen (Session.keeps_onNodeBytes htidy env)
  | nodeClosed reason =>
    cases hstep
    exact h.ends reason
  | writerJoined reason =>
    cases hstep
    exact h.ends reason
  | tick env =>
    simp only [World.loopStep] at hstep
    split at hstep
    · cases hstep
      exact h.ends _
    · rename_i s' hs
      cases hstep
      obtain ⟨hlineup, hqueues⟩ := h.tick (e := .tick env) hopen hs
      rw [Option.toList_none, List.map_nil, List.append_nil] at hlineup
      exact ⟨hlineup, hqueues⟩
    · rename_i s' cands hs
      cases hstep
      exact h.tick hopen hs
  | reload => cases hstep
  | dialLaunch => cases hstep
  | dialCheck => cases hstep
  | dialConnect => cases hstep
  | dialFail => cases hstep
  | dialGreeted => cases hstep
  | dialExhausted => cases hstep

theorem Lineup.step (h : w.Lineup cfg events) (hstep : w.step cfg e = some w') :
    Lineup cfg (events ++ [e]) w' ∧ QueuesActive (FramedBy (events ++ [e])) w w' := by
  cases e with
  | reload ips =>
    cases hstep
    exact h.dialed (fun _ hip => hip) rfl rfl rfl
  | dialLaunch k free =>
    obtain ⟨hpending, hout, hsession, hended⟩ := dialStep_spec (fun d d' hd ip => Dial.mem_ips_launch hd) hstep
    exact h.dialed hpending hout hsession hended
  | dialCheck k i =>
    obtain ⟨hpending, hout, hsession, hended⟩ := dialStep_spec (fun d d' hd ip => Dial.mem_ips_check hd) hstep
    exact h.dialed hpending hout hsession hended
  | dialConnect k i =>
    obtain ⟨hpending, hout, hsession, hended⟩ := dialStep_spec (fun d d' hd ip => Dial.mem_ips_connect hd) hstep
    exact h.dialed hpending hout hsession hended
  | dialFail k i =>
    obtain ⟨hpending, hout, hsession, hended⟩ := dialStep_spec (fun d d' hd ip => Dial.mem_ips_fail hd) hstep
    exact h.dialed hpending hout hsession hended
  | dialGreeted k i =>
    obtain ⟨hpending, hout, hsession, hended⟩ := dialEnd_spec (fun d n hd ip => Dial.mem_ips_greeted hd) hstep
    exact h.dialed hpending hout hsession hended
  | dialExhausted k =>
    have hnone : ∀ (d : Dial) n, d.exhausted = some n → ∀ ip ∈ n.ips, ip ∈ d.ips := by
      intro d n hd ip hip
      rw [Dial.ips_exhausted hd] at hip
      cases hip
    obtain ⟨hpending, hout, hsession, hended⟩ := dialEnd_spec hnone hstep
    exact h.dialed hpending hout hsession hended
  | frame | closed | notice | nodeBytes | nodeClosed | writerJoined | tick =>
    simp only [World.step] at hstep
    split at hstep
    · rename_i hopen
      exact h.loopStep hopen hstep
    · cases hstep

end World

namespace Session

variable {s s' : Session}

/-- Neither the upstreams nor the dials have changed. -/
structure SameLineup (s s' : Session) : Prop where
  lives : s'.lives = s.lives
  nextId : s'.nextId = s.nextId
  connecting : s'.connecting = s.connecting
  active : s'.core.active = s.core.active
  ip : ∀ id, s'.core.ipOf id = s.core.ipOf id
  heard : ∀ H, s.core.Heard H → s'.core.Heard H

theorem SameLineup.refl (s : Session) : SameLineup s s := ⟨rfl, rfl, rfl, rfl, fun _ => rfl, fun _ hH => hH⟩

theorem SameLineup.trans {s'' : Session} (h : SameLineup s s') (h' : SameLineup s' s'') : SameLineup s s'' :=
  ⟨h'.lives.trans h.lives, h'.nextId.trans h.nextId, h'.connecting.trans h.connecting, h'.active.trans h.active,
    fun id => (h'.ip id).trans (h.ip id), fun H hH => h'.heard H (h.heard H hH)⟩

theorem SameLineup.queue {env : Env} {frames : List (List UInt8)} (h : SameLineup s s') {s'' : Session}
    (hqueue : s'.queue env frames = .ok s'') : SameLineup s s'' := by
  rw [queue_eq_ok hqueue]
  exact { h with }

theorem sameLineup_prefetchedFrame {env : Env} {frame : List UInt8} {block : Option (UInt32 × UInt32 × UInt64)}
    (h : s.prefetchedFrame env frame block = .ok s') : SameLineup s s' := by
  have hcore (r : UInt32) (hash : UInt64) (progress : Push.BlockProgress) : SameLineup s { s with
      progress := progress, core := (s.core.onActiveBlock r hash env.now).1 } :=
    ⟨rfl, rfl, rfl, Core.active_onActiveBlock _ _ _ _, Core.ipOf_onActiveBlock _ _ _ _,
      fun _ hH => hH.onActiveBlock _ _ _⟩
  rcases prefetchedFrame_inv h with h | ⟨progress, rfl⟩ | ⟨r, hash, progress, rfl | h⟩
  · exact (SameLineup.refl s).queue h
  · exact ⟨rfl, rfl, rfl, rfl, fun _ => rfl, fun _ hH => hH⟩
  · exact hcore r hash progress
  · exact (hcore r hash progress).queue h

end Session

namespace World

variable {cfg : Config} {events : List World.Event} {w : World}

theorem lineup_new {activeIp : String} {last : UInt32} {now : Nat}
    {prefetched : List (Env × List UInt8 × Option (UInt32 × UInt32 × UInt64))} {s : Session}
    (h : Session.start cfg activeIp last now prefetched = .ok s) (blacklist : Blacklist) :
    Lineup cfg [] (new s blacklist) := by
  obtain ⟨hlives, hnext, hconnecting, hactive, hip, hheard⟩ :=
    Session.start_induction Session.SameLineup.refl Session.SameLineup.trans Session.sameLineup_prefetchedFrame h
  have hzero : (Session.new cfg activeIp last now).core.active = 0 := by
    simp only [Session.new]
    split
    · rfl
    · rfl
  rw [hzero] at hactive
  have hip' : ∀ id, s.core.ipOf id = if id = 0 then some activeIp else none :=
    fun id => (hip id).trans (Session.ipOf_new cfg activeIp last now id)
  have hups : ∀ id, id ∈ s.core.ups ↔ id = 0 := by
    intro id
    rw [← Core.ipOf_isSome, hip']
    by_cases hid : id = 0
    · simp [hid]
    · simp [hid]
  have hempty : (Session.new cfg activeIp last now).core.Heard fun _ _ => False := by
    intro id u hu p hp
    have hfresh : u.ahead = OrdMap.empty := by
      simp only [Session.new] at hu
      split at hu
      · by_cases hid : id = 0
        · rw [hid, Core.markPreferred, KeyMap.lookup_modify_self, Option.map_eq_some_iff] at hu
          obtain ⟨v, hv, rfl⟩ := hu
          obtain ⟨-, rfl⟩ := KeyMap.lookup_singleton_inv hv
          rfl
        · rw [Core.markPreferred, KeyMap.lookup_modify_ne hid] at hu
          obtain ⟨-, rfl⟩ := KeyMap.lookup_singleton_inv hu
          rfl
      · obtain ⟨-, rfl⟩ := KeyMap.lookup_singleton_inv hu
        rfl
    rw [hfresh] at hp
    cases hp
  refine ⟨fun _ => ⟨?_, List.not_mem_nil, ?_, ?_, ?_⟩, ?_, ?_, ?_, ?_, ?_⟩
  · exact (hups _).mpr hactive
  · intro id
    change id ∈ s.lives ↔ id ∈ s.core.ups
    rw [hlives, hups, AList.mem_keys]
    exact List.mem_singleton
  · intro id u hu hid
    refine absurd ?_ hid
    have hmem : id ∈ s.core.ups := AList.lookup_isSome.mp (by rw [show s.core.ups.lookup id = some u from hu]; rfl)
    exact ((hups id).mp hmem).trans hactive.symm
  · exact (hheard _ hempty).mono fun _ _ h => h.elim
  · intro id hid
    change id < s.nextId
    rw [hnext, (hups id).mp hid]
    exact Nat.one_pos
  · intro i j ip hi hj
    have hmem : ∀ k, s.core.ipOf k = some ip → k = 0 := by
      intro k hk
      exact (hups k).mp (Core.ipOf_isSome.mp (Option.isSome_iff_exists.mpr ⟨ip, hk⟩))
    rw [hmem i hi, hmem j hj]
  · exact fun ip hip => absurd hip List.not_mem_nil
  · change 0 = if s.connecting then 1 else 0
    rw [hconnecting]
    rfl
  · change s.core.ups.keys.length + 0 ≤ _
    have hone : s.core.ups.keys.length ≤ [0].length := by
      apply List.Subperm.length_le
      apply List.subperm_of_subset s.core.ups.keys_nodup
      intro id hid
      exact List.mem_singleton.mpr ((hups id).mp (AList.mem_keys.mpr hid))
    exact hone.trans (Nat.le_add_left 1 _)

/-- **The structure of a hot-standby session.**  In every state of the loop that a run
    reaches: the active is an upstream of the core; the connections are the core's
    upstreams; no two share an address; there are no more standbys than configured and at
    most one dial task is under way; no standby has disagreed once too often.  A frame of
    an upstream that is no longer connected changes nothing, and every frame queued in a
    step was received from an upstream that is connected before and behind it. -/
theorem session_structure {activeIp : String} {last : UInt32} {now : Nat}
    {prefetched : List (Env × List UInt8 × Option (UInt32 × UInt32 × UInt64))} {s : Session} {blacklist : Blacklist}
    (hstart : Session.start cfg activeIp last now prefetched = .ok s)
    (hrun : Machine.Run (step cfg) (fun _ _ => True) (new s blacklist) events w) (hopen : w.ended = none) :
    w.session.core.active ∈ w.session.core.ups ∧
    (∀ id, id ∈ w.session.lives ↔ id ∈ w.session.core.ups) ∧
    (∀ i j ip, w.session.core.ipOf i = some ip → w.session.core.ipOf j = some ip → i = j) ∧
    w.session.core.standbyCount ≤ cfg.standbys ∧
    w.outstanding ≤ 1 ∧
    (∀ id u, w.session.core.ups.lookup id = some u → id ≠ w.session.core.active → u.mismatches < MAX_MISMATCHES) ∧
    (∀ id frame block at_ env, id ∉ w.session.lives → w.step cfg (.frame id frame block at_ env) = some w) ∧
    ∀ e w', w.step cfg e = some w' → QueuesActive (FramedBy (events ++ [e])) w w' := by
  have hlineup : w.Lineup cfg events := by
    apply hrun.history (lineup_new hstart blacklist)
    intro events a e b h _ hstep
    exact (h.step hstep).1
  have htidy := hlineup.tidy hopen
  refine ⟨htidy.active_mem, htidy.same, hlineup.distinct, ?_, ?_, ?_, ?_, ?_⟩
  · have hroom := hlineup.room
    rw [Core.standbyCount]
    omega
  · rw [hlineup.dialing]
    split
    · exact le_refl 1
    · exact Nat.zero_le 1
  · exact fun id u hu hid => htidy.agrees id u hu hid List.not_mem_nil
  · intro id frame block at_ env hid
    simp only [step, if_pos hopen, loopStep, Session.onFrame, if_pos hid, proceed]
  · exact fun e w' hstep => (hlineup.step hstep).2

/-- A standby is dialed, follows three blocks of the active and is ahead by one when the
    active closes; the tick switches to it. -/
def takeoverEvents : List World.Event :=
  [.tick { now := 0, candidates := ["192.0.2.7"] }, .dialLaunch 0 fun _ => true, .dialCheck 0 0, .dialConnect 0 0,
    .dialGreeted 0 0, .notice { now := 1 },
    .frame 0 [1] (some (1000000001, 1000000000, 1)) 2 { now := 2 },
    .frame 1 [1] (some (1000000001, 1000000000, 1)) 3 { now := 3 },
    .frame 0 [2] (some (1000000002, 1000000001, 2)) 4 { now := 4 },
    .frame 1 [2] (some (1000000002, 1000000001, 2)) 5 { now := 5 },
    .frame 0 [3] (some (1000000003, 1000000002, 3)) 6 { now := 6 },
    .frame 1 [3] (some (1000000003, 1000000002, 3)) 7 { now := 7 },
    .frame 1 [4] (some (1000000004, 1000000003, 4)) 8 { now := 8 },
    .closed 0 "closed" { now := 9 }, .tick { now := 10 }]

set_option maxRecDepth 20000 in
theorem takeover_isSome :
    (Machine.exec (step lateConfig) (fun _ _ => True) lateStart takeoverEvents).isSome = true := by
  decide

def takenOver : World :=
  (Machine.exec (step lateConfig) (fun _ _ => True) lateStart takeoverEvents).get takeover_isSome

set_option maxRecDepth 20000 in
theorem takenOver_eq : takenOver.ended = none ∧ takenOver.session.core.active = 1 ∧ 0 ∉ takenOver.session.lives ∧
    takenOver.session.sent = [[1], [2], [3], [4]] := by
  decide

theorem session_structure_takenOver :
    takenOver.session.core.active = 1 ∧ 1 ∈ takenOver.session.lives ∧ 0 ∉ takenOver.session.lives ∧
    takenOver.session.sent = [[1], [2], [3], [4]] ∧ takenOver.session.core.standbyCount ≤ 1 ∧
    takenOver.step lateConfig (.frame 0 [5] none 11 { now := 11 }) = some takenOver := by
  obtain ⟨hopen, hactive, hgone, hsent⟩ := takenOver_eq
  obtain ⟨hmem, hsame, -, hcount, -, -, hignored, -⟩ := session_structure
    (show Session.start lateConfig "198.51.100.1" 0 0 [] = .ok (Session.new lateConfig "198.51.100.1" 0 0) from rfl)
    (Machine.Run.of_exec (Option.some_get takeover_isSome).symm : Machine.Run (step lateConfig) (fun _ _ => True)
      (new (Session.new lateConfig "198.51.100.1" 0 0) {}) takeoverEvents takenOver) hopen
  rw [hactive] at hmem
  exact ⟨hactive, (hsame 1).mpr hmem, hgone, hsent, hcount, hignored 0 [5] none 11 { now := 11 } hgone⟩

end World

end Hypersync.Failover
