import Hypersync.Failover.Effects
import Hypersync.Failover.World

/-!
# Blacklisted peers and the hot-standby session

Three places keep blacklisted peers out of a session: the check of
`blacklist::connect` before an attempt connects, the re-check of a tick when the
list's version has changed since the last one, and the fact that nothing else adds
an upstream.  The question is whether they leave a window.

They do: a list may change after an attempt passed its check and be re-checked by a
tick before the attempt's `Connected` event is handled.  The upstream is then
added, and no later tick looks at it until the list changes again.  The main
theorem says that this is the only window: in runs that handle no such event,
every state has the property, and a step from such a state breaks it exactly when
it is such an event.
-/

namespace Hypersync.Failover

namespace Session

/-! ## 1. Handlers that add no upstream -/

theorem queue_eq_ok {s s' : Session} {env : Env} {frames : List (List UInt8)}
    (h : s.queue env frames = .ok s') : s' = { s with sent := s.sent ++ frames } := by
  unfold queue at h
  split at h
  · exact (Except.ok.inj h).symm
  · cases h

/-- What a prefetched frame does: it is queued as it is, or it is a block that moves the
    progress and, above the live floor, the core. -/
theorem prefetchedFrame_inv {s s' : Session} {env : Env} {frame : List UInt8}
    {block : Option (UInt32 × UInt32 × UInt64)} (h : s.prefetchedFrame env frame block = .ok s') :
    s.queue env [frame] = .ok s' ∨ (∃ progress, s' = { s with progress := progress }) ∨
      ∃ r hash progress, s' = { s with progress := progress, core := (s.core.onActiveBlock r hash env.now).1 } ∨
        ({ s with progress := progress, core := (s.core.onActiveBlock r hash env.now).1 } : Session).queue env [frame] =
          .ok s' := by
  rcases block with _ | ⟨r, p, hash⟩
  · exact Or.inl h
  simp only [Session.prefetchedFrame] at h
  split at h
  · cases h
  split at h
  · cases h
  rename_i progress _
  split at h
  · refine Or.inr (Or.inr ⟨r, hash, progress, ?_⟩)
    split at h
    · exact Or.inr h
    · exact Or.inl (Except.ok.inj h).symm
  · exact Or.inr (Or.inl ⟨progress, (Except.ok.inj h).symm⟩)

/-- A relation that every prefetched frame keeps is kept by the start. -/
theorem start_induction {R : Session → Session → Prop} (hrefl : ∀ s, R s s)
    (htrans : ∀ {s s' s''}, R s s' → R s' s'' → R s s'')
    (hframe : ∀ {s s' : Session} {env : Env} {frame : List UInt8} {block : Option (UInt32 × UInt32 × UInt64)},
      s.prefetchedFrame env frame block = .ok s' → R s s')
    {cfg : Config} {activeIp : String} {last : UInt32} {now : Nat}
    {prefetched : List (Env × List UInt8 × Option (UInt32 × UInt32 × UInt64))} {s : Session}
    (h : start cfg activeIp last now prefetched = .ok s) : R (new cfg activeIp last now) s := by
  unfold start at h
  generalize new cfg activeIp last now = s₀ at h ⊢
  induction prefetched generalizing s₀ with
  | nil =>
    obtain rfl := Except.ok.inj h
    exact hrefl s₀
  | cons f fs ih =>
    rw [List.foldlM_cons] at h
    rcases hf : s₀.prefetchedFrame f.1 f.2.1 f.2.2 with reason | s₁
    · rw [hf] at h
      cases h
    · rw [hf] at h
      exact htrans (hframe hf) (ih s₁ h)

/-- What every handler but that of `Connected` can do to the upstreams: drop some, mark
    the active dead, or move the role of the active to another upstream, the old
    active being dropped. -/
structure Narrows (s s' : Session) : Prop where
  nextId : s'.nextId = s.nextId
  seen : s'.blacklistSeen = s.blacklistSeen
  lives : ∀ id ∈ s'.lives, id ∈ s.lives ∧ s'.core.ipOf id = s.core.ipOf id
  ups : ∀ id ∈ s'.core.ups, id ∈ s.core.ups
  active : s'.core.active = s.core.active ∨ s'.core.active ∈ s.core.ups
  dead : ∀ id ∈ s'.lives, id = s.core.active → s.activeDead.isSome →
    id = s'.core.active ∧ s'.activeDead.isSome

namespace Narrows

variable {s s' s'' : Session}

theorem trans (h : Narrows s s') (h' : Narrows s' s'') : Narrows s s'' where
  nextId := h'.nextId.trans h.nextId
  seen := h'.seen.trans h.seen
  lives := by
    intro id hid
    obtain ⟨hid', hip'⟩ := h'.lives id hid
    obtain ⟨hid, hip⟩ := h.lives id hid'
    exact ⟨hid, hip'.trans hip⟩
  ups := fun id hid => h.ups id (h'.ups id hid)
  active := by
    rcases h'.active with heq | hmem
    · rw [heq]
      exact h.active
    · exact Or.inr (h.ups _ hmem)
  dead := by
    intro id hid hact hdead
    obtain ⟨hact', hdead'⟩ := h.dead id (h'.lives id hid).1 hact hdead
    exact h'.dead id hid hact' hdead'

/-- The core may change as long as its upstreams' addresses and its active do not. -/
theorem of_core (hlives : s'.lives = s.lives) (hnext : s'.nextId = s.nextId)
    (hseen : s'.blacklistSeen = s.blacklistSeen)
    (hdead : s.activeDead.isSome → s'.activeDead.isSome)
    (hact : s'.core.active = s.core.active) (hip : ∀ id, s'.core.ipOf id = s.core.ipOf id) :
    Narrows s s' where
  nextId := hnext
  seen := hseen
  lives := by
    intro id hid
    rw [hlives] at hid
    exact ⟨hid, hip id⟩
  ups := by
    intro id hid
    rw [← Core.ipOf_isSome, hip] at hid
    exact Core.ipOf_isSome.mp hid
  active := Or.inl hact
  dead := fun id _ h hd => ⟨h.trans hact.symm, hdead hd⟩

theorem of_same (hcore : s'.core = s.core) (hlives : s'.lives = s.lives)
    (hnext : s'.nextId = s.nextId) (hseen : s'.blacklistSeen = s.blacklistSeen)
    (hdead : s.activeDead.isSome → s'.activeDead.isSome) : Narrows s s' :=
  of_core hlives hnext hseen hdead (congrArg Core.active hcore) fun id => by rw [hcore]

theorem refl (s : Session) : Narrows s s := of_same rfl rfl rfl rfl id

theorem markDead (s : Session) (now : Nat) (why : String) : Narrows s (s.markDead now why) := by
  refine of_same rfl rfl rfl rfl ?_
  intro hdead
  obtain ⟨d, hd⟩ := Option.isSome_iff_exists.mp hdead
  simp only [Session.markDead, hd, Option.some_or, Option.isSome_some]

theorem queue {env : Env} {frames : List (List UInt8)} (h : s.queue env frames = .ok s') :
    Narrows s s' := by
  rw [queue_eq_ok h]
  exact of_same rfl rfl rfl rfl id

/-- A dropped upstream is gone from the core and the connections; the others are as they
    were. -/
theorem discard (s : Session) (id : Nat) (cool : Option Nat) : Narrows s (s.discard id cool) where
  nextId := rfl
  seen := rfl
  lives := by
    intro j hj
    obtain ⟨hne, hj⟩ := AList.mem_erase.mp hj
    exact ⟨hj, Core.ipOf_remove_ne hne⟩
  ups := fun j hj => (AList.mem_erase.mp hj).2
  active := Or.inl rfl
  dead := fun j _ hact hdead => ⟨hact, hdead⟩

theorem discardAll (ids : List Nat) (cool : Option Nat) :
    ∀ s : Session, Narrows s (s.discardAll ids cool) := by
  induction ids with
  | nil =>
    intro s
    exact refl s
  | cons id ids ih =>
    intro s
    exact (discard s id cool).trans (ih (s.discard id cool))

theorem forwardActiveBlock {env : Env} {frame : List UInt8} {round : UInt32} {hash : UInt64} {at_ : Nat}
    (h : s.forwardActiveBlock env frame round hash at_ = .ok s') : Narrows s s' := by
  unfold Session.forwardActiveBlock at h
  split at h
  · simp only [] at h
    have hcore : Narrows s { s with core := (s.core.onActiveBlock round hash at_).1 } :=
      of_core rfl rfl rfl id (Core.active_onActiveBlock _ _ _ _) fun id => by simp
    have hdrop := hcore.trans (discardAll ((s.core.onActiveBlock round hash at_).2.2.map Prod.fst)
      (some (env.now + BAD_PEER_COOLDOWN)) _)
    split at h
    · exact hdrop.trans (queue h)
    · cases h
      exact hdrop
  · cases h
    exact refl s

theorem prefetchedFrame {env : Env} {frame : List UInt8} {block : Option (UInt32 × UInt32 × UInt64)}
    (h : s.prefetchedFrame env frame block = .ok s') : Narrows s s' := by
  have hcore (r : UInt32) (hash : UInt64) (progress : Push.BlockProgress) : Narrows s { s with
      progress := progress, core := (s.core.onActiveBlock r hash env.now).1 } :=
    of_core rfl rfl rfl id (Core.active_onActiveBlock _ _ _ _) fun id => by simp
  rcases prefetchedFrame_inv h with h | ⟨progress, rfl⟩ | ⟨r, hash, progress, rfl | h⟩
  · exact queue h
  · exact of_same rfl rfl rfl rfl id
  · exact hcore r hash progress
  · exact (hcore r hash progress).trans (queue h)

theorem onBlock {env : Env} {id : Nat} {frame : List UInt8} {r p : UInt32} {hash : UInt64} {at_ : Nat}
    (h : s.onBlock env id frame r p hash at_ = .ok s') : Narrows s s' := by
  unfold Session.onBlock at h
  simp only [] at h
  split at h
  · -- implausible or far behind the tip
    split at h
    · cases h
      exact markDead s _ _
    split at h
    · cases h
      exact discard s id _
    · cases h
      exact refl s
  split at h
  · -- the active's block
    split at h
    · split at h
      · rename_i progress _
        have hprog : Narrows s { s with progress := progress } := of_same rfl rfl rfl rfl fun h => h
        exact hprog.trans (forwardActiveBlock h)
      · cases h
        exact markDead s _ _
    · cases h
      exact refl s
  · -- a standby's block
    have hcore : Narrows s { s with core := (s.core.onStandbyBlock id r p hash at_ frame).1 } :=
      of_core rfl rfl rfl (fun h => h) (Core.active_onStandbyBlock _ _ _ _ _ _ _) fun j => by simp
    split at h
    · rename_i core _ heq
      rw [heq] at hcore
      cases h
      exact hcore.trans (discard _ id _)
    · rename_i core heq
      rw [heq] at hcore
      cases h
      exact hcore

theorem onFrame {env : Env} {id : Nat} {frame : List UInt8}
    {block : Option (UInt32 × UInt32 × UInt64)} {at_ : Nat}
    (h : s.onFrame env id frame block at_ = .ok s') : Narrows s s' := by
  unfold Session.onFrame at h
  split at h
  · cases h
    exact refl s
  split at h
  · exact onBlock h
  split at h
  · exact queue h
  · cases h
    exact refl s

theorem onClosed (s : Session) (env : Env) (id : Nat) (reason : String) :
    Narrows s (s.onClosed env id reason) := by
  unfold Session.onClosed
  split
  · exact markDead s _ _
  · exact discard s id _

theorem onNodeBytes (s : Session) (env : Env) : Narrows s (s.onNodeBytes env) := by
  unfold Session.onNodeBytes
  split
  · exact markDead s _ _
  · exact refl s

theorem tickStalled (s : Session) (env : Env) : Narrows s (s.tickStalled env) := by
  unfold Session.tickStalled
  simp only []
  split
  · exact markDead s _ _
  · exact refl s

/-- A switch moves the role of the active; the old active goes with it. -/
theorem tickSwitch {env : Env} (h : s.tickSwitch env = .ok s') : Narrows s s' := by
  unfold Session.tickSwitch at h
  split at h
  · cases h
    exact refl s
  rename_i id _ _
  simp only [] at h
  split at h
  · cases h
    exact refl s
  rename_i core frames bad hswitch
  split at h
  · cases h
  rename_i s₁ hqueue
  cases h
  rw [queue_eq_ok hqueue]
  refine Narrows.trans ?_ (discardAll _ _ _)
  obtain ⟨u, hu, -, -, -, hact, -⟩ := Core.switchTo_eq_some hswitch
  have hups : ∀ j, j ∈ core.ups → j ∈ s.core.ups := by
    intro j hj
    rwa [AList.mem_keys, Core.switchTo_keys hswitch, ← AList.mem_keys] at hj
  refine ⟨rfl, rfl, ?_, ?_, ?_, ?_⟩
  · intro j hj
    obtain ⟨hne, hj⟩ := AList.mem_erase.mp hj
    exact ⟨KeyMap.mem_modify.mp hj, (Core.ipOf_remove_ne hne).trans (Core.ipOf_switchTo hswitch j)⟩
  · intro j hj
    exact hups j (AList.mem_erase.mp hj).2
  · right
    have hmem : id ∈ s.core.ups := AList.lookup_isSome.mp (by rw [hu]; rfl)
    change core.active ∈ s.core.ups
    rw [hact]
    exact hmem
  · intro j hj hold
    exact absurd hold (AList.mem_erase.mp hj).1

theorem tickGrace {env : Env} (h : s.tickGrace env = .ok s') : Narrows s s' := by
  unfold Session.tickGrace at h
  split at h
  · split at h <;> cases h
    exact refl s
  · cases h
    exact refl s

theorem tickRotate (cfg : Config) (s : Session) (env : Env) : Narrows s (s.tickRotate cfg env) := by
  unfold Session.tickRotate
  split
  · have hnote : Narrows s { s with lastRotate := env.now } := of_same rfl rfl rfl rfl id
    simp only []
    split
    · exact hnote.trans (discard _ _ _)
    · exact hnote
  · exact refl s

theorem tickRefill (cfg : Config) (s : Session) (env : Env) : Narrows s (s.tickRefill cfg env).1 := by
  unfold Session.tickRefill
  split
  · simp only []
    split <;> exact of_same rfl rfl rfl rfl id
  · exact refl s

end Narrows

/-! ## 2. What a session holds -/

/-- Every connection is an upstream of the core, and ids are given out once. -/
structure Numbered (s : Session) : Prop where
  known : ∀ id ∈ s.lives, id ∈ s.core.ups
  below : ∀ id ∈ s.core.ups, id < s.nextId
  active : s.core.active < s.nextId

/-- No connection other than an active already marked dead is on the list. -/
def Clean (s : Session) (blacklist : Blacklist) : Prop :=
  ∀ id ∈ s.lives, ∃ ip, s.core.ipOf id = some ip ∧
    (blacklist.contains ip = true → id = s.core.active ∧ s.activeDead.isSome)

variable {s s' : Session} {blacklist : Blacklist}

theorem Numbered.narrows (hs : s.Numbered) (h : Narrows s s') : s'.Numbered where
  known := by
    intro id hid
    obtain ⟨hid, hip⟩ := h.lives id hid
    rw [← Core.ipOf_isSome, hip]
    exact Core.ipOf_isSome.mpr (hs.known id hid)
  below := by
    intro id hid
    rw [h.nextId]
    exact hs.below id (h.ups id hid)
  active := by
    rw [h.nextId]
    rcases h.active with heq | hmem
    · rw [heq]
      exact hs.active
    · exact hs.below _ hmem

theorem Clean.narrows (hs : s.Clean blacklist) (h : Narrows s s') : s'.Clean blacklist := by
  intro id hid
  obtain ⟨hid', hip⟩ := h.lives id hid
  obtain ⟨ip, hip', hlisted⟩ := hs id hid'
  refine ⟨ip, hip.trans hip', ?_⟩
  intro hmem
  obtain ⟨hact, hdead⟩ := hlisted hmem
  exact h.dead id hid hact hdead

theorem ipOf_new (cfg : Config) (activeIp : String) (last : UInt32) (now : Nat) (id : Nat) :
    (new cfg activeIp last now).core.ipOf id = if id = 0 then some activeIp else none := by
  have hcore : (Core.new 0 activeIp last cfg.stall cfg.lag cfg.minDwell).ipOf id =
      if id = 0 then some activeIp else none := by
    by_cases hid : id = 0
    · subst hid
      rfl
    · rw [if_neg hid]
      rcases hup : (Core.new 0 activeIp last cfg.stall cfg.lag cfg.minDwell).ups.lookup id with _ | u
      · rw [Core.ipOf, hup]
        rfl
      · exact absurd (KeyMap.lookup_singleton_inv hup).1 hid
  simp only [new]
  split
  · rw [Core.ipOf_markPreferred, hcore]
  · exact hcore

theorem numbered_new (cfg : Config) (activeIp : String) (last : UInt32) (now : Nat) :
    (new cfg activeIp last now).Numbered := by
  have hups : ∀ id, id ∈ (new cfg activeIp last now).core.ups ↔ id = 0 := by
    intro id
    rw [← Core.ipOf_isSome, ipOf_new]
    by_cases hid : id = 0
    · simp [hid]
    · simp [hid]
  refine ⟨?_, ?_, ?_⟩
  · intro id hid
    rw [AList.mem_keys] at hid
    exact (hups id).mpr (List.mem_singleton.mp hid)
  · intro id hid
    rw [(hups id).mp hid]
    exact Nat.one_pos
  · have hact : (new cfg activeIp last now).core.active = 0 := by
      simp only [new]
      split <;> rfl
    rw [hact]
    exact Nat.one_pos

/-- Prefetched frames add no upstream either. -/
theorem start_narrows {cfg : Config} {activeIp : String} {last : UInt32} {now : Nat}
    {prefetched : List (Env × List UInt8 × Option (UInt32 × UInt32 × UInt64))}
    (h : start cfg activeIp last now prefetched = .ok s) :
    Narrows (new cfg activeIp last now) s :=
  start_induction Narrows.refl Narrows.trans Narrows.prefetchedFrame h

/-! ## 3. The re-check of a tick -/

theorem discardAll_lives (ids : List Nat) (cool : Option Nat) :
    ∀ (s : Session) (id : Nat), id ∈ (s.discardAll ids cool).lives → id ∉ ids := by
  induction ids with
  | nil =>
    intro s id _
    exact List.not_mem_nil
  | cons a ids ih =>
    intro s id hid
    have hrest : Narrows (s.discard a cool) (s.discardAll (a :: ids) cool) :=
      Narrows.discardAll ids cool _
    have hne : id ≠ a := (AList.mem_erase.mp (hrest.lives id hid).1).1
    exact List.not_mem_cons_of_ne_of_not_mem hne (ih (s.discard a cool) id hid)

theorem discardAll_active (ids : List Nat) (cool : Option Nat) :
    ∀ s : Session, (s.discardAll ids cool).core.active = s.core.active ∧
      (s.discardAll ids cool).activeDead = s.activeDead := by
  induction ids with
  | nil =>
    intro s
    exact ⟨rfl, rfl⟩
  | cons a ids ih =>
    intro s
    exact ih (s.discard a cool)

theorem mem_banned {id : Nat} : id ∈ s.banned blacklist ↔
    id ∈ s.lives ∧ id ≠ s.core.active ∧ ∃ ip, s.core.ipOf id = some ip ∧ blacklist.contains ip = true := by
  unfold banned
  rw [List.mem_filter, ← AList.mem_keys]
  simp only [ne_eq, decide_not, Bool.and_eq_true, Bool.not_eq_true', decide_eq_false_iff_not,
    Option.any_eq_true]

theorem Narrows.recheck (s : Session) (env : Env) (blacklist : Blacklist) :
    Narrows s (s.recheck env blacklist) := by
  unfold Session.recheck
  simp only []
  split
  · exact (Narrows.markDead s _ _).trans (Narrows.discardAll _ _ _)
  · exact Narrows.discardAll _ _ _

/-- The re-check leaves the active in place, and dead if it is listed. -/
theorem recheck_active (s : Session) (env : Env) (blacklist : Blacklist) :
    (s.recheck env blacklist).core.active = s.core.active ∧
      ((s.core.ipOf s.core.active).any blacklist.contains = true →
        (s.recheck env blacklist).activeDead.isSome) := by
  unfold recheck
  simp only [discardAll_active]
  split
  · refine ⟨rfl, ?_⟩
    intro _
    unfold markDead
    rcases s.activeDead with _ | d <;> rfl
  · rename_i hlisted
    exact ⟨rfl, fun h => absurd h hlisted⟩

/-- The re-check leaves no listed connection but an active marked dead. -/
theorem recheck_clean (hs : s.Numbered) (env : Env) : (s.recheck env blacklist).Clean blacklist := by
  obtain ⟨hact, hdead⟩ := recheck_active s env blacklist
  intro id hid
  obtain ⟨hid', hip⟩ := (Narrows.recheck s env blacklist).lives id hid
  obtain ⟨ip, hip'⟩ := Option.isSome_iff_exists.mp (Core.ipOf_isSome.mpr (hs.known id hid'))
  refine ⟨ip, hip.trans hip', ?_⟩
  intro hlisted
  by_cases hactive : id = s.core.active
  · refine ⟨hactive.trans hact.symm, ?_⟩
    apply hdead
    rw [← hactive, hip']
    exact hlisted
  · have hbanned : id ∈ s.banned blacklist := mem_banned.mpr ⟨hid', hactive, ip, hip', hlisted⟩
    exact absurd hbanned (discardAll_lives _ _ _ id hid)

/-- **After a tick's re-check.**  The list has been seen, and no connection is on it, whether
    the re-check was made now or the version shows that it was made before. -/
theorem tickBlacklist_spec (hs : s.Numbered) (env : Env) (blacklist : Blacklist)
    (hclean : s.blacklistSeen = some blacklist.version → s.Clean blacklist) :
    let out := s.tickBlacklist env blacklist
    out.Numbered ∧ out.blacklistSeen = some blacklist.version ∧ out.Clean blacklist := by
  unfold tickBlacklist
  by_cases hseen : some blacklist.version ≠ s.blacklistSeen
  · simp only [if_pos hseen]
    have hnoted : ({ s with blacklistSeen := some blacklist.version } : Session).Numbered :=
      { hs with }
    have hdrop := Narrows.recheck { s with blacklistSeen := some blacklist.version } env blacklist
    exact ⟨hnoted.narrows hdrop, hdrop.seen, recheck_clean hnoted env⟩
  · simp only [if_neg hseen]
    have hsame : s.blacklistSeen = some blacklist.version := (not_not.mp hseen).symm
    exact ⟨hs, hsame, hclean hsame⟩

/-! ## 4. The handler that adds one -/

theorem mem_onConnected_lives {cfg : Config} {ip : String} {prio : Bool} {id : Nat} :
    id ∈ (s.onConnected cfg ip prio).lives ↔ id = s.nextId ∨ id ∈ s.lives :=
  AList.mem_insert s.lives

theorem onConnected_active (cfg : Config) (s : Session) (ip : String) (prio : Bool) :
    (s.onConnected cfg ip prio).core.active = s.core.active := by
  simp only [onConnected]
  split <;> rfl

theorem ipOf_onConnected (cfg : Config) (s : Session) (ip : String) (prio : Bool) (id : Nat) :
    (s.onConnected cfg ip prio).core.ipOf id = if id = s.nextId then some ip else s.core.ipOf id := by
  have hadd : (s.core.addStandby s.nextId ip).ipOf id =
      if id = s.nextId then some ip else s.core.ipOf id := by
    by_cases hid : id = s.nextId
    · rw [if_pos hid, hid]
      exact Core.ipOf_addStandby_self s.core s.nextId ip
    · rw [if_neg hid]
      exact Core.ipOf_addStandby_ne hid ip
  simp only [onConnected]
  split
  · rw [Core.ipOf_markPreferred, hadd]
  · exact hadd

theorem Numbered.onConnected (hs : s.Numbered) (cfg : Config) (ip : String) (prio : Bool) :
    (s.onConnected cfg ip prio).Numbered := by
  have hups : ∀ id, id ∈ (s.onConnected cfg ip prio).core.ups ↔ id = s.nextId ∨ id ∈ s.core.ups := by
    intro id
    rw [← Core.ipOf_isSome, ipOf_onConnected, ← Core.ipOf_isSome]
    by_cases hid : id = s.nextId
    · simp [hid]
    · simp [hid]
  have hnext : (s.onConnected cfg ip prio).nextId = s.nextId + 1 := rfl
  refine ⟨?_, ?_, ?_⟩
  · intro id hid
    exact (hups id).mpr ((mem_onConnected_lives.mp hid).imp_right (hs.known id))
  · intro id hid
    rw [hnext]
    rcases (hups id).mp hid with rfl | hid
    · exact Nat.lt_succ_self _
    · exact Nat.lt_succ_of_lt (hs.below id hid)
  · rw [hnext, onConnected_active]
    exact Nat.lt_succ_of_lt hs.active

/-- **Only a listed newcomer spoils a clean session.** -/
theorem onConnected_clean_iff (hs : s.Numbered) (hclean : s.Clean blacklist) (cfg : Config)
    (ip : String) (prio : Bool) :
    (s.onConnected cfg ip prio).Clean blacklist ↔ blacklist.contains ip = false := by
  constructor
  · intro h
    obtain ⟨ip', hip', hlisted⟩ := h s.nextId (mem_onConnected_lives.mpr (Or.inl rfl))
    rw [ipOf_onConnected, if_pos rfl, Option.some.injEq] at hip'
    subst hip'
    by_contra hmem
    obtain ⟨hact, -⟩ := hlisted (Bool.eq_true_of_not_eq_false hmem)
    rw [onConnected_active] at hact
    exact absurd hact.symm (Nat.ne_of_lt hs.active)
  · intro hfree id hid
    rw [ipOf_onConnected, onConnected_active]
    by_cases hnew : id = s.nextId
    · refine ⟨ip, if_pos hnew, ?_⟩
      intro hlisted
      rw [hfree] at hlisted
      cases hlisted
    · rw [if_neg hnew]
      exact hclean id ((mem_onConnected_lives.mp hid).resolve_left hnew)

end Session

namespace World

/-! ## 5. Runs -/

/-- A session as the loop finds it, next to an arbitrary list. -/
def new (session : Session) (blacklist : Blacklist) : World where
  session := session
  blacklist := blacklist

/-- A tick has run since the list last changed. -/
def Rechecked (w : World) : Prop := w.session.blacklistSeen = some w.blacklist.version

/-- Once a tick has run since the list last changed, no connection other than an active
    already marked dead is on the list. -/
def NoneListed (w : World) : Prop := w.Rechecked → w.session.Clean w.blacklist

/-- The loop is not about to take in a listed upstream behind the back of the re-check. -/
def Timely (w : World) : World.Event → Prop
  | .notice _ =>
    match w.inbox with
    | .connected ip _ :: _ =>
      w.session.blacklistSeen = some w.blacklist.version → w.blacklist.contains ip = false
    | _ => True
  | _ => True

instance (w : World) (e : World.Event) : Decidable (w.Timely e) := by
  unfold Timely
  split
  · split <;> infer_instance
  · infer_instance

theorem timely_of_ne {w : World} {e : World.Event} (h : ∀ env, e ≠ .notice env) : w.Timely e := by
  cases e with
  | notice env => exact absurd rfl (h env)
  | frame | closed | nodeBytes | nodeClosed | writerJoined | tick | reload => trivial
  | dialLaunch | dialCheck | dialConnect | dialFail | dialGreeted | dialExhausted => trivial

structure Inv (w : World) : Prop where
  numbered : w.session.Numbered
  seen : ∀ v, w.session.blacklistSeen = some v → v ≤ w.blacklist.version

/-- **Inversion of an iteration of the loop.**  It ends the session, or adds no upstream, or
    takes one in, or is a tick. -/
theorem loopStep_cases {cfg : Config} {w w' : World} {e : World.Event} (h : w.loopStep cfg e = some w') :
    w'.blacklist = w.blacklist ∧
    (w'.session = { w.session with lives := ∅ } ∧ w'.ended.isSome ∧ w.Timely e ∨
      Session.Narrows w.session w'.session ∧ w.Timely e ∧ (∀ env, e ≠ .tick env) ∨
      (∃ env ip prio inbox, e = .notice env ∧ w.inbox = .connected ip prio :: inbox ∧
        w'.session = w.session.onConnected cfg ip prio) ∨
      ∃ env, e = .tick env ∧
        Session.Narrows ((w.session.tickStalled env).tickBlacklist env w.blacklist) w'.session) := by
  cases e with
  | frame id frame block at_ env =>
    cases h
    rcases hs : w.session.onFrame env id frame block at_ with reason | s
    · exact ⟨rfl, Or.inl ⟨rfl, rfl, trivial⟩⟩
    · exact ⟨rfl, Or.inr (Or.inl ⟨Session.Narrows.onFrame hs, trivial, fun _ => nofun⟩)⟩
  | closed id reason env =>
    cases h
    exact ⟨rfl, Or.inr (Or.inl ⟨Session.Narrows.onClosed _ _ _ _, trivial, fun _ => nofun⟩)⟩
  | notice env =>
    simp only [loopStep] at h
    split at h
    · cases h
    · rename_i ip prio inbox hinbox
      cases h
      exact ⟨rfl, Or.inr (Or.inr (Or.inl ⟨env, ip, prio, inbox, rfl, hinbox, rfl⟩))⟩
    · rename_i inbox hinbox
      cases h
      have htimely : w.Timely (.notice env) := by
        simp only [Timely, hinbox]
      exact ⟨rfl, Or.inr (Or.inl ⟨Session.Narrows.of_same rfl rfl rfl rfl id, htimely,
        fun _ => nofun⟩)⟩
  | nodeBytes env =>
    cases h
    exact ⟨rfl, Or.inr (Or.inl ⟨Session.Narrows.onNodeBytes _ _, trivial, fun _ => nofun⟩)⟩
  | nodeClosed reason =>
    cases h
    exact ⟨rfl, Or.inl ⟨rfl, rfl, trivial⟩⟩
  | writerJoined reason =>
    cases h
    exact ⟨rfl, Or.inl ⟨rfl, rfl, trivial⟩⟩
  | tick env =>
    have htick : ∀ {s : Session} {dial : Option (List String)},
        w.session.onTick cfg env w.blacklist = .ok (s, dial) →
        Session.Narrows ((w.session.tickStalled env).tickBlacklist env w.blacklist) s := by
      intro s dial hs
      unfold Session.onTick at hs
      split at hs
      · cases hs
      rename_i s₁ hswitch
      split at hs
      · cases hs
      rename_i s₂ hgrace
      obtain rfl := congrArg Prod.fst (Except.ok.inj hs)
      exact (Session.Narrows.tickSwitch hswitch).trans ((Session.Narrows.tickGrace hgrace).trans
        ((Session.Narrows.tickRotate cfg s₂ env).trans (Session.Narrows.tickRefill cfg _ env)))
    simp only [loopStep] at h
    split at h
    · cases h
      exact ⟨rfl, Or.inl ⟨rfl, rfl, trivial⟩⟩
    · rename_i s hs
      cases h
      exact ⟨rfl, Or.inr (Or.inr (Or.inr ⟨env, rfl, htick hs⟩))⟩
    · rename_i s cands hs
      cases h
      exact ⟨rfl, Or.inr (Or.inr (Or.inr ⟨env, rfl, htick hs⟩))⟩
  | reload | dialLaunch | dialCheck | dialConnect | dialFail | dialGreeted | dialExhausted => cases h

variable {cfg : Config} {w w' : World} {e : World.Event}

/-- The invariant over a step that changes neither the list nor the version last seen. -/
theorem Inv.of_session (hlist : w'.blacklist = w.blacklist) (hnum : w'.session.Numbered)
    (hseen : w'.session.blacklistSeen = w.session.blacklistSeen) (hinv : w.Inv) : w'.Inv where
  numbered := hnum
  seen := by
    rw [hseen, hlist]
    exact hinv.seen

theorem loopStep_spec (hinv : w.Inv) (hnone : w.NoneListed) (h : w.loopStep cfg e = some w') :
    w'.Inv ∧ (w'.NoneListed ↔ w.Timely e) ∧
      (∀ env, e = .tick env → w'.ended = none → w'.Rechecked) := by
  obtain ⟨hlist, hend | hnarrow | hconn | htick⟩ := loopStep_cases h
  · obtain ⟨hsession, hended, htimely⟩ := hend
    have hempty : ∀ id, id ∉ w'.session.lives := by
      intro id
      rw [hsession]
      exact AList.notMem_empty id
    have hnum : w'.session.Numbered := by
      rw [hsession]
      exact ⟨fun id hid => absurd hid (AList.notMem_empty id), hinv.numbered.below, hinv.numbered.active⟩
    refine ⟨Inv.of_session hlist hnum (by rw [hsession]) hinv, ?_, ?_⟩
    · exact iff_of_true (fun _ id hid => absurd hid (hempty id)) htimely
    · intro env _ hnot
      rw [hnot] at hended
      cases hended
  · obtain ⟨hnarrow, htimely, htick⟩ := hnarrow
    refine ⟨Inv.of_session hlist (hinv.numbered.narrows hnarrow) hnarrow.seen hinv, ?_, ?_⟩
    · refine iff_of_true ?_ htimely
      intro hre
      rw [Rechecked, hnarrow.seen, hlist] at hre
      rw [hlist]
      exact (hnone hre).narrows hnarrow
    · intro env heq
      exact absurd heq (htick env)
  · obtain ⟨env, ip, prio, inbox, rfl, hinbox, hsession⟩ := hconn
    have hseen : w'.session.blacklistSeen = w.session.blacklistSeen := by
      rw [hsession]
      rfl
    refine ⟨Inv.of_session hlist ?_ hseen hinv, ?_, fun _ => nofun⟩
    · rw [hsession]
      exact hinv.numbered.onConnected cfg ip prio
    · -- the newcomer is judged only if the re-check will not see it
      simp only [NoneListed, Rechecked, Timely, hinbox, hseen, hlist]
      apply forall_congr'
      intro hre
      rw [hsession]
      exact Session.onConnected_clean_iff hinv.numbered (hnone hre) cfg ip prio
  · obtain ⟨env, rfl, hnarrow⟩ := htick
    have hstalled := Session.Narrows.tickStalled w.session env
    obtain ⟨hnum, hseen, hclean⟩ := Session.tickBlacklist_spec
      (hinv.numbered.narrows hstalled) env w.blacklist (by
        intro hre
        rw [hstalled.seen] at hre
        exact (hnone hre).narrows hstalled)
    have hseen' := hnarrow.seen.trans hseen
    refine ⟨⟨hnum.narrows hnarrow, ?_⟩, iff_of_true ?_ trivial, ?_⟩
    · intro v hv
      rw [hseen', Option.some.injEq] at hv
      rw [hlist, hv]
    · intro _
      rw [hlist]
      exact hclean.narrows hnarrow
    · intro _ _ _
      rw [Rechecked, hseen', hlist]

/-- **One event.**  From a state with the property, an event breaks it exactly when it is
    the late arrival of a listed upstream; a tick that does not end the session has
    seen the current list. -/
theorem step_spec (hinv : w.Inv) (hnone : w.NoneListed) (h : w.step cfg e = some w') :
    w'.Inv ∧ (w'.NoneListed ↔ w.Timely e) ∧
      (∀ env, e = .tick env → w'.ended = none → w'.Rechecked) := by
  rcases step_cases h with ⟨-, hloop⟩ | ⟨ips, rfl, rfl⟩ | ⟨hsession, hlist, -, hother⟩
  · exact loopStep_spec hinv hnone hloop
  · refine ⟨⟨hinv.numbered, ?_⟩, iff_of_true ?_ trivial, fun _ => nofun⟩
    · intro v hv
      have hle := hinv.seen v hv
      rcases w.blacklist.reload_eq_or ips with heq | hnext
      · rw [heq]
        exact hle
      · rw [hnext]
        exact Nat.le_succ_of_le hle
    · intro hre
      rcases w.blacklist.reload_eq_or ips with heq | hnext
      · rw [Rechecked, heq] at hre
        rw [heq]
        exact hnone hre
      · -- a changed list has a version no tick has seen
        have hle := hinv.seen _ hre
        simp only [hnext] at hle
        exact absurd hle (Nat.not_succ_le_self _)
  · refine ⟨Inv.of_session hlist (hsession ▸ hinv.numbered) (by rw [hsession]) hinv, ?_, ?_⟩
    · refine iff_of_true ?_ (timely_of_ne fun env => (hother env).1)
      rw [NoneListed, Rechecked, hsession, hlist]
      exact hnone
    · intro env heq
      exact absurd heq (hother env).2

theorem inv_new {activeIp : String} {last : UInt32} {now : Nat}
    {prefetched : List (Env × List UInt8 × Option (UInt32 × UInt32 × UInt64))} {s : Session}
    (h : Session.start cfg activeIp last now prefetched = .ok s) (blacklist : Blacklist) :
    (new s blacklist).Inv ∧ (new s blacklist).NoneListed := by
  have hnarrow := Session.start_narrows h
  have hseen : s.blacklistSeen = none := hnarrow.seen
  refine ⟨⟨(Session.numbered_new cfg activeIp last now).narrows hnarrow, ?_⟩, ?_⟩
  · intro v hv
    cases hseen.symm.trans hv
  · intro hre
    cases hseen.symm.trans hre

/-- **Blacklisted peers leave the session, but for one window.**  In every run in which the
    loop takes in no listed upstream after its tick has seen the list, every state
    reached in which the list has not changed since the last tick holds no listed
    connection other than an active marked dead; a tick brings such a state about, and
    from any state reached, a step breaks the property exactly when it is the event
    the run had to avoid. -/
theorem no_listed_upstream_iff_timely {activeIp : String} {last : UInt32} {now : Nat}
    {prefetched : List (Env × List UInt8 × Option (UInt32 × UInt32 × UInt64))} {s : Session}
    {blacklist : Blacklist} {events : List World.Event}
    (hstart : Session.start cfg activeIp last now prefetched = .ok s)
    (hrun : Machine.Run (step cfg) Timely (new s blacklist) events w) :
    w.NoneListed ∧
    (∀ env w', w.step cfg (.tick env) = some w' → w'.ended = none → w'.Rechecked) ∧
    ∀ e w', w.step cfg e = some w' → (w'.NoneListed ↔ w.Timely e) := by
  have hall : w.Inv ∧ w.NoneListed := by
    apply hrun.invariant (I := fun w => w.Inv ∧ w.NoneListed) (inv_new hstart blacklist)
    intro a e b ⟨hinv, hnone⟩ htimely hstep
    obtain ⟨hinv', hiff, -⟩ := step_spec hinv hnone hstep
    exact ⟨hinv', hiff.mpr htimely⟩
  refine ⟨hall.2, ?_, ?_⟩
  · intro env w' hstep
    exact (step_spec hall.1 hall.2 hstep).2.2 env rfl
  · intro e w' hstep
    exact (step_spec hall.1 hall.2 hstep).2.1

/-! ## 6. The window -/

/-- One standby, no priority peers, no rotation. -/
def lateConfig : Config where
  stall := 1000000000
  lag := 1000000000
  minDwell := 1000000000
  standbys := 1
  rotateSlower := 0
  rotateEvery := 0
  priorityContains := fun _ => false
  tierPrio := fun _ => false

def lateStart : World := new (Session.new lateConfig "198.51.100.1" 0 0) {}

/-- A tick dials 192.0.2.7; the attempt passes the check; the address is put on the list and
    a tick sees the list; the attempt connects. -/
def lateEvents : List World.Event :=
  [.tick { now := 0, candidates := ["192.0.2.7"] }, .dialLaunch 0 fun _ => true, .dialCheck 0 0,
    .reload [(192, 0, 2, 7)], .tick { now := 1 }, .dialConnect 0 0, .dialGreeted 0 0]

theorem late_isSome : (Machine.exec (step lateConfig) Timely lateStart lateEvents).isSome := by
  decide

/-- The state in which the upstream waits to be taken in. -/
def lateState : World :=
  (Machine.exec (step lateConfig) Timely lateStart lateEvents).get late_isSome

theorem run_lateState :
    Machine.Run (step lateConfig) Timely (new (Session.new lateConfig "198.51.100.1" 0 0) {})
      lateEvents lateState :=
  Machine.Run.of_exec (Option.some_get late_isSome).symm

theorem no_listed_upstream_iff_timely_lateState :
    lateState.NoneListed ∧
    (∀ env w', lateState.step lateConfig (.tick env) = some w' → w'.ended = none → w'.Rechecked) ∧
    ∀ e w', lateState.step lateConfig e = some w' → (w'.NoneListed ↔ lateState.Timely e) :=
  no_listed_upstream_iff_timely
    (show Session.start lateConfig "198.51.100.1" 0 0 [] = .ok (Session.new lateConfig "198.51.100.1" 0 0)
      from rfl)
    run_lateState

theorem lateEnd_isSome : (Machine.exec (step lateConfig) (fun _ _ => True) lateStart
    (lateEvents ++ [.notice { now := 2 }, .tick { now := 3 }])).isSome := by
  decide

/-- The loop takes the upstream in, and ticks once more. -/
def lateEnd : World :=
  (Machine.exec (step lateConfig) (fun _ _ => True) lateStart
    (lateEvents ++ [.notice { now := 2 }, .tick { now := 3 }])).get lateEnd_isSome

/-- The upstream is taken in and stays, though it is on the list and a tick has seen the
    list: neither that tick nor the next one drops it. -/
theorem late_upstream_stays_listed :
    Machine.Run (step lateConfig) (fun _ _ => True) lateStart
        (lateEvents ++ [.notice { now := 2 }, .tick { now := 3 }]) lateEnd ∧
      lateEnd.Rechecked ∧ 1 ∈ lateEnd.session.lives ∧
      lateEnd.session.core.ipOf 1 = some "192.0.2.7" ∧
      lateEnd.blacklist.contains "192.0.2.7" = true ∧ lateEnd.session.core.active = 0 ∧
      ¬ lateEnd.NoneListed := by
  have hseen : lateEnd.session.blacklistSeen = some lateEnd.blacklist.version := by decide
  have hlive : 1 ∈ lateEnd.session.lives := by decide
  have hip : lateEnd.session.core.ipOf 1 = some "192.0.2.7" := by decide
  have hlisted : lateEnd.blacklist.contains "192.0.2.7" = true := by decide
  have hactive : lateEnd.session.core.active = 0 := by decide
  refine ⟨Machine.Run.of_exec (Option.some_get lateEnd_isSome).symm, hseen, hlive, hip, hlisted,
    hactive, ?_⟩
  intro hnone
  obtain ⟨ip, hip', hdead⟩ := hnone hseen 1 hlive
  obtain rfl := Option.some.inj (hip.symm.trans hip')
  rw [hactive] at hdead
  cases (hdead hlisted).1

end World

end Hypersync.Failover
