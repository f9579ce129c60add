import Hypersync.Failover.Blacklisted
import Hypersync.Failover.Policy

/-!
# The upstreams of a hot-standby session

A session keeps its upstreams twice: the decision core by id, and `lives` with the
connections.  Every handler has to keep the two in step, drop the standbys that
disagreed once too often, and leave room for the one dial task that may be under way.
That it does is an invariant of every interleaving of frames, closed streams, dials
and ticks.
-/

namespace Hypersync.Failover

/-! ## 1. Mismatches in the core -/

namespace Core

open Upstream (Kept)

variable {c c' : Core} {bad : List Nat}

/-- No standby but those in `bad` has disagreed `MAX_MISMATCHES` times in a row. -/
def Agrees (c : Core) (bad : List Nat) : Prop :=
  ∀ id u, c.ups.lookup id = some u → id ≠ c.active → id ∉ bad → u.mismatches < MAX_MISMATCHES

theorem compared_agrees (u : Upstream) (matched : Bool) (ms : Int) :
    (u.compared matched ms).2 = true ∨ (u.compared matched ms).1.mismatches < MAX_MISMATCHES := by
  unfold Upstream.compared
  split
  · right
    exact Nat.zero_lt_succ 2
  · by_cases hmax : MAX_MISMATCHES ≤ u.mismatches + 1
    · exact Or.inl (decide_eq_true hmax)
    · exact Or.inr (not_le.mp hmax)

theorem settleOne_agrees {u : Upstream} (h : u.mismatches < MAX_MISMATCHES) (floor round : UInt32) (hash : UInt64)
    (at_ : Nat) :
    (settleOne floor round hash at_ u).2 = true ∨
      (settleOne floor round hash at_ u).1.mismatches < MAX_MISMATCHES := by
  unfold settleOne
  split
  · simp only [Upstream.trimAhead, (Upstream.trimLow_frame _ _ _).2.1]
    exact compared_agrees _ _ _
  · right
    rwa [Upstream.trimAhead, (Upstream.trimLow_frame _ _ _).2.1]

/-- Settling reports every standby it brings to the limit, and never the active. -/
theorem settleStandbys_agrees (h : c.Agrees bad) (round : UInt32) (hash : UInt64) (at_ : Nat) :
    (c.settleStandbys round hash at_).1.Agrees (bad ++ (c.settleStandbys round hash at_).2.map Prod.fst) ∧
      c.active ∉ (c.settleStandbys round hash at_).2.map Prod.fst := by
  constructor
  · intro id v hv hid hbad
    simp only [settleStandbys, KeyMap.lookup_mapVals, Option.map_eq_some_iff] at hv
    obtain ⟨u, hu, rfl⟩ := hv
    have hne : id ≠ c.active := hid
    rw [if_neg hne]
    obtain ⟨hbad, hreported⟩ := not_or.mp (fun h => hbad (List.mem_append.mpr h))
    refine (settleOne_agrees (h id u hu hne hbad) _ _ _ _).resolve_left ?_
    intro hlimit
    apply hreported
    rw [List.mem_map]
    refine ⟨(id, round), ?_, rfl⟩
    simp only [settleStandbys, List.mem_filterMap]
    refine ⟨(id, u), List.mem_map.mpr ⟨⟨id, u⟩, KeyMap.lookup_eq_some.mp hu, rfl⟩, ?_⟩
    rw [if_neg hne, if_pos hlimit]
  · intro hmem
    obtain ⟨p, hp, hid⟩ := List.mem_map.mp hmem
    simp only [settleStandbys, List.mem_filterMap] at hp
    obtain ⟨e, -, he⟩ := hp
    split at he
    · cases he
    · rename_i hne
      split at he <;> cases he
      exact hne hid

theorem onActiveBlock_agrees (h : c.Agrees []) (round : UInt32) (hash : UInt64) (at_ : Nat) :
    (c.onActiveBlock round hash at_).1.Agrees ((c.onActiveBlock round hash at_).2.2.map Prod.fst) ∧
      c.active ∉ (c.onActiveBlock round hash at_).2.2.map Prod.fst := by
  -- the arrival time is noted on the active alone
  have hnoted : ({ c with
      ups := KeyMap.modify c.active (fun u => { u with lastRx := some at_ }) c.ups } : Core).Agrees [] := by
    intro id u hu hid
    rw [KeyMap.lookup_modify_ne hid] at hu
    exact h id u hu hid
  unfold onActiveBlock
  simp only []
  split
  · exact ⟨hnoted, List.not_mem_nil⟩
  · have hrecorded : (recordForwarded { c with
        ups := KeyMap.modify c.active (fun u => { u with lastRx := some at_ }) c.ups } round hash at_).Agrees [] :=
      hnoted
    exact settleStandbys_agrees hrecorded round hash at_

theorem replay_agrees : ∀ (chain : List (UInt32 × Ahead)) {c : Core} {bad : List Nat}, c.Agrees bad →
    (replay chain c).1.Agrees (bad ++ (replay chain c).2.map Prod.fst) ∧
      c.active ∉ (replay chain c).2.map Prod.fst := by
  intro chain
  induction chain with
  | nil =>
    intro c bad h
    refine ⟨?_, List.not_mem_nil⟩
    rw [replay, List.map_nil, List.append_nil]
    exact h
  | cons p chain ih =>
    intro c bad h
    obtain ⟨r, a⟩ := p
    have hrecorded : (c.recordForwarded r a.hash a.at_).Agrees bad := h
    obtain ⟨hsettled, hspared⟩ := settleStandbys_agrees hrecorded r a.hash a.at_
    obtain ⟨hrest, hspared'⟩ := ih hsettled
    rw [replay]
    simp only [List.map_append]
    refine ⟨?_, ?_⟩
    · rw [← List.append_assoc]
      exact hrest
    · rw [List.mem_append]
      exact not_or.mpr ⟨hspared, hspared'⟩

/-- After a switch only the old active and the reported standbys are in doubt. -/
theorem switchTo_agrees {id now : Nat} {frames : List (List UInt8)} {reported : List (Nat × UInt32)}
    (h : c.Agrees []) (hswitch : c.switchTo id now = some (c', frames, reported)) :
    c'.Agrees (c.active :: reported.map Prod.fst) ∧ id ∉ reported.map Prod.fst := by
  unfold switchTo at hswitch
  split at hswitch
  · cases hswitch
  split at hswitch
  · cases hswitch
  split at hswitch
  · cases hswitch
  · rename_i chain left _ _
    simp only [Option.some.injEq, Prod.mk.injEq] at hswitch
    obtain ⟨rfl, -, rfl⟩ := hswitch
    have hmoved : ({ c with
        ups := KeyMap.modify id (fun _ => left) c.ups, active := id, lastSwitch := some now } : Core).Agrees
          [c.active] := by
      intro j u hu hj hbad
      rw [KeyMap.lookup_modify_ne hj] at hu
      exact h j u hu (fun hact => hbad (List.mem_singleton.mpr hact)) List.not_mem_nil
    obtain ⟨hreplayed, hspared⟩ := replay_agrees chain hmoved
    refine ⟨?_, hspared⟩
    intro j v hv hj hbad
    simp only [clearLeads, KeyMap.lookup_mapVals, Option.map_eq_some_iff] at hv
    obtain ⟨w, hw, rfl⟩ := hv
    exact hreplayed j w hw hj hbad

/-- A standby that disagreed once too often is reported by the verdict. -/
theorem onStandbyBlock_agrees (h : c.Agrees []) (id : Nat) (round parent : UInt32) (hash : UInt64) (at_ : Nat)
    (frame : List UInt8) :
    (c.onStandbyBlock id round parent hash at_ frame).1.Agrees
      (if (c.onStandbyBlock id round parent hash at_ frame).2 = .ok then [] else [id]) := by
  unfold onStandbyBlock
  rcases hu : c.ups.lookup id with _ | u
  · exact h
  simp only []
  intro j v hv hj hbad
  by_cases hid : j = id
  · subst hid
    rw [KeyMap.lookup_modify_self, hu, Option.map_some, Option.some.injEq] at hv
    subst hv
    have hu' := h j u hu hj List.not_mem_nil
    unfold standbyBlock at hbad ⊢
    simp only [] at hbad ⊢
    split
    · split
      · rename_i hlow _ fwd fat hfwd
        rw [if_pos hlow, hfwd] at hbad
        refine (compared_agrees { u with lastRx := some at_ } _ _).resolve_left ?_
        intro hlimit
        simp only [hlimit, if_true] at hbad
        exact hbad (List.mem_singleton_self j)
      · exact hu'
    · rw [Upstream.insertAhead, (Upstream.trimHigh_frame _ _).2.1]
      exact hu'
  · rw [KeyMap.lookup_modify_ne hid] at hv
    exact h j v hv hj List.not_mem_nil

/-! ## 2. Neither a switch nor a rotation picks the active -/

theorem pickSwitch_ne_active {now : Nat} {activeDead : Bool} {id : Nat} {reason : SwitchReason}
    (h : c.pickSwitch now activeDead = some (id, reason)) : id ≠ c.active := by
  obtain ⟨u, n, firstAt, hready⟩ := (pickSwitch_policy h).ready
  exact hready.standby

/-- What `slowest_standby` looks at of an upstream. -/
def trailing (c : Core) (slowerMs : Int) (exempt : String → Bool) (e : Nat × Upstream) : Option (Nat × Int) :=
  if e.1 ≠ c.active ∧ !exempt e.2.ip then
    e.2.medianLead.bind fun m => if m < -slowerMs then some (e.1, m) else none
  else none

/-- Its loop keeps the lowest lead. -/
theorem slowestStandby_eq (c : Core) (slowerMs : Int) (exempt : String → Bool) :
    c.slowestStandby slowerMs exempt = ((KeyMap.toList c.ups).filterMap (c.trailing slowerMs exempt)).foldl
      (Best.keep fun e => OrderDual.toDual e.2) none := by
  unfold slowestStandby
  congr 1
  · funext best e
    cases best with
    | none => rfl
    | some b => simp only [Best.keep, OrderDual.toDual_lt_toDual]
  · congr 1
    funext e
    unfold trailing
    cases e.2.medianLead with
    | none => rfl
    | some m => rfl

theorem slowestStandby_ne_active {slowerMs m : Int} {exempt : String → Bool} {id : Nat}
    (h : c.slowestStandby slowerMs exempt = some (id, m)) : id ≠ c.active := by
  rw [slowestStandby_eq] at h
  rcases Best.foldl_filterMap (c.trailing slowerMs exempt) (fun e => OrderDual.toDual e.2) (KeyMap.toList c.ups) with
    ⟨-, hnone⟩ | ⟨e, -, b, hentry, hbest, -⟩
  · rw [hnone] at h
    cases h
  · rw [hbest, Option.some.injEq] at h
    rw [trailing, Option.ite_none_right_eq_some] at hentry
    obtain ⟨⟨hstandby, -⟩, hlead⟩ := hentry
    obtain ⟨m', -, hlow⟩ := Option.bind_eq_some_iff.mp hlead
    rw [Option.ite_none_right_eq_some, Option.some.injEq] at hlow
    rw [← hlow.2] at h
    cases h
    exact hstandby

/-! ## 3. Where buffered frames come from -/

variable {H : Nat → List UInt8 → Prop}

/-- Every buffered frame is one that `H` ascribes to the upstream it is buffered for. -/
def Heard (H : Nat → List UInt8 → Prop) (c : Core) : Prop :=
  ∀ id u, c.ups.lookup id = some u → ∀ p ∈ u.ahead, H id p.2.frame

theorem Heard.mono {H' : Nat → List UInt8 → Prop} (h : c.Heard H) (himp : ∀ id f, H id f → H' id f) : c.Heard H' :=
  fun id u hu p hp => himp id _ (h id u hu p hp)

theorem Heard.kept (h : c.Heard H)
    (hkept : ∀ id v, c'.ups.lookup id = some v → ∃ u, c.ups.lookup id = some u ∧ ∃ rounds, Kept rounds u v) :
    c'.Heard H := by
  intro id v hv p hp
  obtain ⟨u, hu, rounds, hkept⟩ := hkept id v hv
  exact h id u hu p ((hkept.2 p).mp hp).1

theorem Heard.onActiveBlock (h : c.Heard H) (round : UInt32) (hash : UInt64) (at_ : Nat) :
    (c.onActiveBlock round hash at_).1.Heard H := by
  apply h.kept
  intro id v hv
  obtain ⟨u, hu, hkept⟩ := (onActiveBlock_spec c round hash at_).2.2 id v hv
  exact ⟨u, hu, _, hkept⟩

theorem Heard.onStandbyBlock (h : c.Heard H) {id : Nat} {frame : List UInt8} (hframe : H id frame)
    (round parent : UInt32) (hash : UInt64) (at_ : Nat) :
    (c.onStandbyBlock id round parent hash at_ frame).1.Heard H := by
  rcases hu : c.ups.lookup id with _ | u
  · unfold Core.onStandbyBlock
    rw [hu]
    exact h
  intro j v hv p hp
  rcases (onStandbyBlock_spec hu round parent hash at_ frame).2.2 j v hv with ⟨-, hv⟩ | ⟨rfl, rfl⟩
  · exact h j v hv p hp
  · obtain ⟨hlow, hhigh⟩ := standbyBlock_spec c.lastForwarded (c.forwarded.get? round) round parent hash at_ frame u
    by_cases hround : round ≤ c.lastForwarded
    · exact h j u hu p (((hlow hround).2 p).mp hp).1
    · rw [hhigh (not_le.mp hround)] at hp
      rcases (Upstream.insertAhead_spec { u with lastRx := some at_ } round _).1 p hp with rfl | hp
      · exact hframe
      · exact h j u hu p hp

theorem mem_takeChain {fuel : Nat} : ∀ {cur : UInt32} {u : Upstream} {p : UInt32 × Ahead},
    p ∈ (Upstream.takeChain fuel cur u).1 ∨ p ∈ (Upstream.takeChain fuel cur u).2.ahead → p ∈ u.ahead := by
  induction fuel with
  | zero =>
    intro cur u p h
    exact h.resolve_left List.not_mem_nil
  | succ fuel ih =>
    intro cur u p h
    rw [Upstream.takeChain] at h
    split at h
    · exact h.resolve_left List.not_mem_nil
    split at h
    · exact h.resolve_left List.not_mem_nil
    split at h
    · exact h.resolve_left List.not_mem_nil
    · rename_i r _ _ _ _ v htake
      obtain ⟨hget, hahead, -⟩ := Upstream.takeAhead_eq_some htake
      have hsub : ∀ q, q ∈ v.ahead → q ∈ u.ahead := by
        intro q hq
        rw [hahead] at hq
        exact (OrdMap.mem_erase.mp hq).1
      rcases h with h | h
      · rcases List.mem_cons.mp h with rfl | h
        · exact hget
        · exact hsub p (ih (Or.inl h))
      · exact hsub p (ih (Or.inr h))

/-- What a switch replays was buffered for the new active. -/
theorem Heard.switchTo (h : c.Heard H) {id now : Nat} {frames : List (List UInt8)} {reported : List (Nat × UInt32)}
    (hswitch : c.switchTo id now = some (c', frames, reported)) : c'.Heard H ∧ ∀ f ∈ frames, H id f := by
  obtain ⟨u, hu, -, -, hframes, -, -, hups⟩ := switchTo_eq_some hswitch
  constructor
  · intro j v hv p hp
    rcases hups j v hv with ⟨rfl, hkept⟩ | ⟨-, w, hw, hkept⟩
    · exact h j u hu p (mem_takeChain (Or.inr ((hkept.2 p).mp hp).1))
    · exact h j w hw p ((hkept.2 p).mp hp).1
  · intro f hf
    rw [hframes] at hf
    obtain ⟨p, hp, rfl⟩ := List.mem_map.mp hf
    exact h id u hu p (mem_takeChain (Or.inl hp))

theorem Heard.remove (h : c.Heard H) (id : Nat) : (c.remove id).2.Heard H :=
  fun j u hu => h j u (KeyMap.lookup_erase_inv hu).2

end Core

namespace Session

/-! ## 4. A session in order -/

variable {H : Nat → List UInt8 → Prop} {P : List UInt8 → Prop} {s s' s'' : Session} {a b : Nat} {bad : List Nat}

/-- The core and the connections are in step, and only the standbys in `bad` are to be
    dropped. -/
structure Tidy (H : Nat → List UInt8 → Prop) (bad : List Nat) (s : Session) : Prop where
  active_mem : s.core.active ∈ s.core.ups
  spared : s.core.active ∉ bad
  same : ∀ id, id ∈ s.lives ↔ id ∈ s.core.ups
  agrees : s.core.Agrees bad
  heard : s.core.Heard H

/-- What a handler makes of `s`: a session in order with active `a` and no new upstream,
    behind which nothing was dialed and only frames that pass `P` were queued. -/
structure Keeps (H : Nat → List UInt8 → Prop) (P : List UInt8 → Prop) (s : Session) (a : Nat) (bad : List Nat)
    (s' : Session) : Prop where
  tidy : s'.Tidy H bad
  active : s'.core.active = a
  connecting : s'.connecting = s.connecting
  nextId : s'.nextId = s.nextId
  kept : ∀ id ip, s'.core.ipOf id = some ip → s.core.ipOf id = some ip
  sent : ∃ new, s'.sent = s.sent ++ new ∧ ∀ f ∈ new, P f

/-- The clocks and the other books of the session may change. -/
theorem Tidy.congr (h : s.Tidy H bad) (hcore : s'.core = s.core) (hlives : s'.lives = s.lives) : s'.Tidy H bad := by
  obtain ⟨hmem, hspared, hsame, hagrees, hheard⟩ := h
  rw [← hcore] at hmem hspared hsame hagrees hheard
  rw [← hlives] at hsame
  exact ⟨hmem, hspared, hsame, hagrees, hheard⟩

namespace Keeps

theorem refl (h : s.Tidy H bad) : Keeps H P s s.core.active bad s :=
  ⟨h, rfl, rfl, rfl, fun _ _ hip => hip, [], (List.append_nil _).symm, nofun⟩

theorem trans {bad' : List Nat} (h : Keeps H P s a bad s') (h' : Keeps H P s' b bad' s'') :
    Keeps H P s b bad' s'' := by
  obtain ⟨new, hsent, hnew⟩ := h.sent
  obtain ⟨new', hsent', hnew'⟩ := h'.sent
  refine ⟨h'.tidy, h'.active, h'.connecting.trans h.connecting, h'.nextId.trans h.nextId,
    fun id ip hip => h.kept id ip (h'.kept id ip hip), new ++ new', ?_, ?_⟩
  · rw [hsent', hsent, List.append_assoc]
  · intro f hf
    exact (List.mem_append.mp hf).elim (hnew f) (hnew' f)

theorem markDead (h : Keeps H P s a bad s') (now : Nat) (why : String) : Keeps H P s a bad (s'.markDead now why) :=
  { h with tidy := h.tidy.congr rfl rfl }

theorem queue {env : Env} {frames : List (List UInt8)} (h : Keeps H P s a bad s')
    (hqueue : s'.queue env frames = .ok s'') (hframes : ∀ f ∈ frames, P f) : Keeps H P s a bad s'' := by
  obtain ⟨new, hsent, hnew⟩ := h.sent
  rw [queue_eq_ok hqueue]
  refine { h with tidy := h.tidy.congr rfl rfl, sent := ⟨new ++ frames, ?_, ?_⟩ }
  · rw [hsent, List.append_assoc]
  · intro f hf
    exact (List.mem_append.mp hf).elim (hnew f) (hframes f)

/-- Dropping an upstream that is to be dropped. -/
theorem discard {id : Nat} (h : Keeps H P s a (id :: bad) s') (cool : Option Nat) :
    Keeps H P s a bad (s'.discard id cool) := by
  obtain ⟨hne, hspared⟩ := not_or.mp (fun hmem => h.tidy.spared (List.mem_cons.mpr hmem))
  refine { h with tidy := ⟨?_, hspared, ?_, ?_, h.tidy.heard.remove id⟩, kept := ?_ }
  · exact AList.mem_erase.mpr ⟨hne, h.tidy.active_mem⟩
  · intro j
    change j ∈ s'.lives.erase id ↔ j ∈ s'.core.ups.erase id
    rw [AList.mem_erase, AList.mem_erase, h.tidy.same]
  · intro j u hu hj hbad
    obtain ⟨hjid, hu⟩ := KeyMap.lookup_erase_inv hu
    exact h.tidy.agrees j u hu hj (List.not_mem_cons_of_ne_of_not_mem hjid hbad)
  · intro j ip hip
    obtain ⟨u, hu, rfl⟩ := Option.map_eq_some_iff.mp hip
    apply h.kept
    rw [Core.ipOf, (KeyMap.lookup_erase_inv hu).2, Option.map_some]

theorem discardAll (cool : Option Nat) : ∀ {ids : List Nat} {s' : Session}, Keeps H P s a ids s' →
    Keeps H P s a [] (s'.discardAll ids cool) := by
  intro ids
  induction ids with
  | nil => exact fun h => h
  | cons id ids ih => exact fun h => ih (h.discard cool)

/-- More may be dropped, but not the active. -/
theorem doubt {ids : List Nat} (h : Keeps H P s a [] s') (hids : a ∉ ids) : Keeps H P s a ids s' :=
  { h with
    tidy := ⟨h.tidy.active_mem, h.active ▸ hids, h.tidy.same,
      fun id u hu hid _ => h.tidy.agrees id u hu hid List.not_mem_nil, h.tidy.heard⟩ }

end Keeps

/-! ## 5. Every handler -/

/-- The core may change as long as its active and the addresses do not. -/
theorem Tidy.of_core (h : s.Tidy H []) (hlives : s'.lives = s.lives) (hact : s'.core.active = s.core.active)
    (hip : ∀ id, s'.core.ipOf id = s.core.ipOf id) (hspared : s.core.active ∉ bad) (hagrees : s'.core.Agrees bad)
    (hheard : s'.core.Heard H) : s'.Tidy H bad := by
  have hups : ∀ id, id ∈ s'.core.ups ↔ id ∈ s.core.ups := by
    intro id
    rw [← Core.ipOf_isSome, hip, Core.ipOf_isSome]
  refine ⟨?_, ?_, ?_, hagrees, hheard⟩
  · rw [hact, hups]
    exact h.active_mem
  · rw [hact]
    exact hspared
  · intro id
    rw [hlives, hups]
    exact h.same id

theorem keeps_forwardActiveBlock {env : Env} {frame : List UInt8} {round : UInt32} {hash : UInt64} {at_ : Nat}
    (h : s.Tidy H []) (hframe : H s.core.active frame)
    (hs : s.forwardActiveBlock env frame round hash at_ = .ok s') :
    Keeps H (H s.core.active) s s.core.active [] s' := by
  unfold forwardActiveBlock at hs
  split at hs
  · simp only [] at hs
    obtain ⟨hagrees, hspared⟩ := Core.onActiveBlock_agrees h.agrees round hash at_
    have hcore : Keeps H (H s.core.active) s s.core.active
        ((s.core.onActiveBlock round hash at_).2.2.map Prod.fst)
        { s with core := (s.core.onActiveBlock round hash at_).1 } := by
      refine ⟨?_, Core.active_onActiveBlock _ _ _ _, rfl, rfl, ?_, [], (List.append_nil _).symm, nofun⟩
      · exact h.of_core rfl (Core.active_onActiveBlock _ _ _ _) (fun id => Core.ipOf_onActiveBlock _ _ _ _ id) hspared
          hagrees (h.heard.onActiveBlock round hash at_)
      · exact fun id ip hip => (Core.ipOf_onActiveBlock s.core round hash at_ id).symm.trans hip
    have hdropped := hcore.discardAll (some (env.now + BAD_PEER_COOLDOWN))
    split at hs
    · apply hdropped.queue hs
      intro f hf
      rwa [List.mem_singleton.mp hf]
    · cases hs
      exact hdropped
  · cases hs
    exact Keeps.refl h

theorem keeps_onBlock {env : Env} {id : Nat} {frame : List UInt8} {r p : UInt32} {hash : UInt64} {at_ : Nat}
    (h : s.Tidy H []) (hframe : H id frame) (hs : s.onBlock env id frame r p hash at_ = .ok s') :
    Keeps H (H s.core.active) s s.core.active [] s' := by
  have hself : Keeps H (H s.core.active) s s.core.active [] s := Keeps.refl h
  have hdrop : id ≠ s.core.active → ∀ cool, Keeps H (H s.core.active) s s.core.active [] (s.discard id cool) := by
    intro hne cool
    apply Keeps.discard
    apply hself.doubt
    exact fun hmem => hne (List.mem_singleton.mp hmem).symm
  unfold onBlock at hs
  dsimp only at hs
  split at hs
  · split at hs
    · cases hs
      exact hself.markDead _ _
    rename_i hne
    split at hs
    · cases hs
      exact hdrop hne _
    · cases hs
      exact hself
  split at hs
  · rename_i hactive
    subst hactive
    split at hs
    · split at hs
      · rename_i progress _
        have hnoted : ({ s with progress := progress } : Session).Tidy H [] :=
          h.congr rfl rfl
        have hkeeps := keeps_forwardActiveBlock hnoted hframe hs
        exact { hkeeps with }
      · cases hs
        exact hself.markDead _ _
    · cases hs
      exact hself
  · -- a standby's block
    rename_i hne
    have hagrees := Core.onStandbyBlock_agrees h.agrees id r p hash at_ frame
    have hheard := h.heard.onStandbyBlock hframe r p hash at_
    have hact := Core.active_onStandbyBlock s.core id r p hash at_ frame
    have hip := Core.ipOf_onStandbyBlock s.core id r p hash at_ frame
    split at hs
    · rename_i core round heq
      rw [heq] at hagrees hheard hact hip
      cases hs
      apply Keeps.discard
      have hspared : s.core.active ∉ [id] := fun hmem => hne (List.mem_singleton.mp hmem).symm
      exact ⟨h.of_core rfl hact hip hspared hagrees hheard, hact, rfl, rfl, fun j ip h => (hip j).symm.trans h, [],
        (List.append_nil _).symm, nofun⟩
    · rename_i core heq
      rw [heq] at hagrees hheard hact hip
      cases hs
      exact ⟨h.of_core rfl hact hip List.not_mem_nil hagrees hheard, hact, rfl, rfl, fun j ip h => (hip j).symm.trans h,
        [], (List.append_nil _).symm, nofun⟩

theorem keeps_onFrame {env : Env} {id : Nat} {frame : List UInt8} {block : Option (UInt32 × UInt32 × UInt64)}
    {at_ : Nat} (h : s.Tidy H []) (hframe : H id frame) (hs : s.onFrame env id frame block at_ = .ok s') :
    Keeps H (H s.core.active) s s.core.active [] s' := by
  unfold onFrame at hs
  split at hs
  · cases hs
    exact Keeps.refl h
  split at hs
  · exact keeps_onBlock h hframe hs
  split at hs
  · rename_i hactive
    apply (Keeps.refl h).queue hs
    intro f hf
    rw [List.mem_singleton.mp hf, ← hactive.1]
    exact hframe
  · cases hs
    exact Keeps.refl h

theorem keeps_onClosed (h : s.Tidy H []) (env : Env) (id : Nat) (reason : String) :
    Keeps H P s s.core.active [] (s.onClosed env id reason) := by
  unfold onClosed
  split
  · exact (Keeps.refl h).markDead _ _
  · rename_i hne
    apply Keeps.discard
    apply (Keeps.refl h).doubt
    exact fun hmem => hne (List.mem_singleton.mp hmem).symm

theorem keeps_onNodeBytes (h : s.Tidy H []) (env : Env) : Keeps H P s s.core.active [] (s.onNodeBytes env) := by
  unfold onNodeBytes
  split
  · exact (Keeps.refl h).markDead _ _
  · exact Keeps.refl h

theorem keeps_tickStalled (h : s.Tidy H []) (env : Env) : Keeps H P s s.core.active [] (s.tickStalled env) := by
  unfold tickStalled
  dsimp only
  split
  · exact (Keeps.refl h).markDead _ _
  · exact Keeps.refl h

theorem keeps_tickBlacklist (h : s.Tidy H []) (env : Env) (blacklist : Blacklist) :
    Keeps H P s s.core.active [] (s.tickBlacklist env blacklist) := by
  have hspared : s.core.active ∉ s.banned blacklist := fun hmem => (mem_banned.mp hmem).2.1 rfl
  have hseen : Keeps H P s s.core.active [] { s with blacklistSeen := some blacklist.version } :=
    ⟨h.congr rfl rfl, rfl, rfl, rfl, fun _ _ hip => hip, [],
      (List.append_nil _).symm, nofun⟩
  unfold tickBlacklist recheck
  simp only []
  split
  · split
    · exact ((hseen.markDead _ _).doubt hspared).discardAll none
    · exact (hseen.doubt hspared).discardAll none
  · exact Keeps.refl h

theorem keeps_tickSwitch {env : Env} (h : s.Tidy H []) (hs : s.tickSwitch env = .ok s') :
    ∃ id, Keeps H (H id) s id [] s' := by
  unfold tickSwitch at hs
  split at hs
  · cases hs
    exact ⟨_, Keeps.refl h⟩
  rename_i id _ hpick
  simp only [] at hs
  split at hs
  · cases hs
    exact ⟨_, Keeps.refl h⟩
  rename_i core frames reported hswitch
  split at hs
  · cases hs
  rename_i s₁ hqueue
  cases hs
  rw [queue_eq_ok hqueue]
  obtain ⟨hagrees, hspared⟩ := Core.switchTo_agrees h.agrees hswitch
  obtain ⟨hheard, hframes⟩ := h.heard.switchTo hswitch
  obtain ⟨u, hu, -, -, -, hact, -⟩ := Core.switchTo_eq_some hswitch
  have hups : ∀ j, j ∈ core.ups ↔ j ∈ s.core.ups := by
    intro j
    rw [AList.mem_keys, Core.switchTo_keys hswitch, ← AList.mem_keys]
  have hne : id ≠ s.core.active := Core.pickSwitch_ne_active hpick
  refine ⟨id, ?_⟩
  apply Keeps.discardAll
  have hmoved : Keeps H (H id) s id (s.core.active :: reported.map Prod.fst)
      { s with
        core := core
        sent := s.sent ++ frames
        activeDead := none
        switches := s.switches + 1
        progress := Push.BlockProgress.new core.lastForwarded env.now
        lives := KeyMap.modify id (fun _ => ⟨false⟩) s.lives
        repins := s.repins ++ [(core.ipOf id).getD "?"] } := by
    refine ⟨⟨?_, ?_, ?_, hagrees, hheard⟩, hact, rfl, rfl, ?_, frames, rfl, hframes⟩
    · change core.active ∈ core.ups
      rw [hact, hups]
      exact AList.lookup_isSome.mp (by rw [hu]; rfl)
    · change core.active ∉ _
      rw [hact]
      exact List.not_mem_cons_of_ne_of_not_mem hne hspared
    · intro j
      change j ∈ KeyMap.modify id (fun _ => ⟨false⟩) s.lives ↔ j ∈ core.ups
      rw [KeyMap.mem_modify, hups]
      exact h.same j
    · exact fun j ip hip => (Core.ipOf_switchTo hswitch j).symm.trans hip
  have hdropped := hmoved.discard none
  exact { hdropped with tidy := { hdropped.tidy with } }

theorem keeps_tickGrace {env : Env} (h : s.Tidy H []) (hs : s.tickGrace env = .ok s') :
    Keeps H P s s.core.active [] s' := by
  unfold tickGrace at hs
  split at hs
  · split at hs <;> cases hs
    exact Keeps.refl h
  · cases hs
    exact Keeps.refl h

theorem keeps_tickRotate (cfg : Config) (h : s.Tidy H []) (env : Env) :
    Keeps H P s s.core.active [] (s.tickRotate cfg env) := by
  have hnoted : Keeps H P s s.core.active [] { s with lastRotate := env.now } :=
    ⟨h.congr rfl rfl, rfl, rfl, rfl, fun _ _ hip => hip, [],
      (List.append_nil _).symm, nofun⟩
  unfold tickRotate
  split
  · simp only []
    split
    · rename_i id m hslowest
      apply Keeps.discard
      apply hnoted.doubt
      intro hmem
      exact Core.slowestStandby_ne_active hslowest (List.mem_singleton.mp hmem).symm
    · exact hnoted
  · exact Keeps.refl h

/-- A tick up to the refill: only the stream of its active is replayed. -/
theorem keeps_onTick {cfg : Config} {env : Env} {blacklist : Blacklist} {cands : Option (List String)}
    (h : s.Tidy H []) (hs : s.onTick cfg env blacklist = .ok (s', cands)) :
    ∃ id s₁, Keeps H (H id) s id [] s₁ ∧ s₁.tickRefill cfg env = (s', cands) := by
  unfold onTick at hs
  split at hs
  · cases hs
  rename_i s₂ hswitch
  split at hs
  · cases hs
  rename_i s₃ hgrace
  have hlisted : ∀ P, Keeps H P s s.core.active [] ((s.tickStalled env).tickBlacklist env blacklist) := by
    intro P
    have hstalled := keeps_tickStalled (P := P) h env
    have hblack := keeps_tickBlacklist (P := P) hstalled.tidy env blacklist
    rw [hstalled.active] at hblack
    exact hstalled.trans hblack
  obtain ⟨id, hid⟩ := keeps_tickSwitch (hlisted fun _ => True).tidy hswitch
  have hgraced := keeps_tickGrace (P := H id) hid.tidy hgrace
  have hrotated := keeps_tickRotate (P := H id) cfg hgraced.tidy env
  rw [hgraced.active, hid.active] at hrotated
  exact ⟨id, s₃.tickRotate cfg env, ((hlisted (H id)).trans hid).trans (hgraced.trans hrotated), Except.ok.inj hs⟩

end Session

end Hypersync.Failover
