import Hypersync.Gateway.RaceAnswers

/-!
# Whom a client-block request asks

Two invariants of the request, each over every interleaving.  Nobody is asked twice,
as long as the pin that is deferred is not the remembered peer (`Once`); on an
exclusive tier no pool peer is asked before the priority round is over (`PrioFirst`).
-/

namespace Hypersync.Gateway

namespace ClientRace

variable {s : ClientRace} {args : RaceArgs} {a : Ask}

/-! ## 1. Whom a round lists -/

theorem mem_poolCandidates {peers : List String} {start limit : Nat} (hpeers : peers ≠ []) {ip : String} :
    ∀ {ks : List Nat} {out : List String},
      ip ∈ poolCandidates peers start limit ks out → ip ∈ out ∨ ip ∈ peers := by
  intro ks
  induction ks with
  | nil => exact fun h => Or.inl h
  | cons k ks ih =>
    intro out h
    rw [poolCandidates] at h
    split at h
    · exact Or.inl h
    · rcases ih h with h | h
      · split at h
        · exact Or.inl h
        · rcases List.mem_append.mp h with h | h
          · exact Or.inl h
          · right
            have hlt : (start + k) % peers.length < peers.length := Nat.mod_lt _ (List.length_pos_iff.mpr hpeers)
            rw [List.mem_singleton.mp h, List.getD_eq_getElem?_getD, List.getElem?_eq_getElem hlt, Option.getD_some]
            exact List.getElem_mem hlt
      · exact Or.inr h

theorem nodup_snoc {ips : List String} {ip : String} (h : ips.Nodup) (hip : ip ∉ ips) : (ips ++ [ip]).Nodup := by
  rw [List.nodup_append]
  refine ⟨h, List.nodup_singleton ip, ?_⟩
  rintro x hx y hy rfl
  exact hip (List.mem_singleton.mp hy ▸ hx)

theorem nodup_poolCandidates {peers : List String} {start limit : Nat} :
    ∀ {ks : List Nat} {out : List String}, out.Nodup → (poolCandidates peers start limit ks out).Nodup := by
  intro ks
  induction ks with
  | nil => exact fun h => h
  | cons k ks ih =>
    intro out h
    rw [poolCandidates]
    split
    · exact h
    · apply ih
      split
      · exact h
      · rename_i hnew
        exact nodup_snoc h hnew

theorem mem_clientBlockPeerCandidates {head peers : List String} {rr limit : Nat} {ip : String}
    (h : ip ∈ (clientBlockPeerCandidates head peers rr limit).1) : ip ∈ head ∨ ip ∈ peers := by
  unfold clientBlockPeerCandidates at h
  split at h
  · exact absurd h List.not_mem_nil
  · split at h
    · exact Or.inl (List.mem_of_mem_take h)
    · rename_i hpeers
      have hne : peers ≠ [] := fun h => hpeers (by rw [h]; rfl)
      rcases mem_poolCandidates hne h with h | h
      · exact Or.inl (List.mem_of_mem_take h)
      · exact Or.inr h

theorem nodup_clientBlockPeerCandidates {head peers : List String} {rr limit : Nat} (h : head.Nodup) :
    (clientBlockPeerCandidates head peers rr limit).1.Nodup := by
  unfold clientBlockPeerCandidates
  split
  · exact List.nodup_nil
  · split
    · exact h.sublist (List.take_sublist _ _)
    · exact nodup_poolCandidates (h.sublist (List.take_sublist _ _))

/-! ## 2. Nobody is asked twice -/

/-- What is known of the peers asked where the request stands.  A round may list a
    peer that was asked only if it is going to be passed over. -/
def OnceAt (prio : List String) (s : ClientRace) : RacePc → Prop
  | .begin | .pinning _ _ | .pinned _ _ => s.asked = [] ∧ s.poolHedged = false ∧ s.deferred = none
  | .first remembered active =>
    s.asked = [] ∧ s.poolHedged = false ∧ ∀ peer, s.deferred = some peer → remembered ≠ some peer.ip ∧ active = none
  | .grace _ | .hedge => s.poolHedged = false ∧ ∀ ip ∈ s.asked, s.firstIp = some ip
  | .roundTop round | .launching round =>
    round.Nodup ∧ (s.poolHedged = false → ∀ ip ∈ round, ip ∈ prio) ∧
      ∀ ip ∈ round, ip ∈ s.asked → s.firstIp = some ip ∨ s.deferredPin.any (fun peer => peer.ip = ip)
  | .racing | .returned _ => True

/-- **Once.** -/
structure Once (prio : List String) (s : ClientRace) : Prop where
  tier_eq : s.sessions.tier.peers = prio
  nodup : s.asked.Nodup
  deferred_fresh : ∀ peer, s.deferred = some peer → s.deferredPin = some peer ∧ peer.ip ∉ s.asked
  early : s.poolHedged = false → ∀ ip ∈ s.asked, s.firstIp = some ip ∨ ip ∈ prio
  here : OnceAt prio s s.pc

/-- The pin that is put off for the pool is not the peer asked in its place. -/
def defersOther (s : ClientRace) : RaceEvent → Bool
  | .go =>
    match s.pc with
    | .pinned (some ip) (some peer) => ip ≠ peer.ip || activeAnswersFirst s.sessions.tier s.black s.clock peer.ip
    | _ => true
  | _ => true

section Once

variable {prio : List String}

theorem nodup_candidatesAt {t : PriorityTier} (hdistinct : t.peers.Nodup) (black : Blacklist) (now : Nat) :
    (t.candidatesAt black now).Nodup := by
  refine (PriorityTier.pairwise_candidatesAt hdistinct black now).imp ?_
  rintro a b hlt rfl
  omega

theorem mem_peers_of_candidatesAt {t : PriorityTier} {black : Blacklist} {now : Nat} {ip : String}
    (h : ip ∈ t.candidatesAt black now) : ip ∈ t.peers := by
  obtain ⟨k, hk, -⟩ := PriorityTier.mem_candidatesAt.mp h
  exact List.mem_of_getElem? hk

theorem later_prewarmSlot {me : Nat} {ss ss' : Sessions} {ip : String} {slot : Option Nat}
    (h : prewarmSlot me ss ip = some (ss', slot)) : ss.Later ss' := by
  unfold prewarmSlot at h
  split at h
  · split at h
    · rename_i tier i hacquire
      obtain ⟨-, -, rfl⟩ := PriorityTier.tryAcquire_eq_some hacquire
      cases h
      exact Sessions.later_setSessions ss _ _ _
    · cases h
  · cases h
    exact Sessions.Later.refl ss

theorem Once.askFirst (h : s.Once prio) {remembered : Option String} {active : Option ActivePeer}
    (hpc : s.pc = .first remembered active) : (s.askFirst args remembered active).Once prio := by
  obtain ⟨hasked, hpool, hdefers⟩ : OnceAt prio s (.first remembered active) := hpc ▸ h.here
  have hnone : ∀ ip ∈ s.asked, s.firstIp = some ip := by
    rw [hasked]
    nofun
  unfold ClientRace.askFirst
  split
  · rename_i peer
    refine ⟨h.tier_eq, ?_, ?_, ?_, hpool, ?_⟩
    · simp only [spawn, hasked, List.nil_append, List.nodup_singleton]
    · intro pin hpin
      cases (hdefers pin hpin).2
    · intro _ ip hip
      simp only [spawn, hasked, List.nil_append, List.mem_singleton] at hip
      exact Or.inl (congrArg some hip.symm)
    · intro ip hip
      simp only [spawn, hasked, List.nil_append, List.mem_singleton] at hip
      exact congrArg some hip.symm
  · split
    · exact { h with here := ⟨hpool, hnone⟩ }
    · rename_i ip
      split
      · exact { h with here := ⟨hpool, hnone⟩ }
      · rename_i sessions slot hslot
        refine ⟨(later_prewarmSlot hslot).peers_eq.trans h.tier_eq, ?_, ?_, ?_, hpool, ?_⟩
        · simp only [spawn, hasked, List.nil_append, List.nodup_singleton]
        · intro pin hpin
          refine ⟨(h.deferred_fresh pin hpin).1, ?_⟩
          simp only [spawn, hasked, List.nil_append, List.mem_singleton]
          intro hsame
          exact (hdefers pin hpin).1 (congrArg some hsame.symm)
        · intro _ ip' hip
          simp only [spawn, hasked, List.nil_append, List.mem_singleton] at hip
          exact Or.inl (congrArg some hip.symm)
        · intro ip' hip
          simp only [spawn, hasked, List.nil_append, List.mem_singleton] at hip
          exact congrArg some hip.symm

theorem Once.openRound (h : s.Once prio) (hdistinct : prio.Nodup) (hpc : s.pc = .hedge) :
    (s.openRound args).Once prio := by
  obtain ⟨hpool, hfirst⟩ : OnceAt prio s .hedge := hpc ▸ h.here
  have hnodup := nodup_candidatesAt (h.tier_eq ▸ hdistinct) s.black s.clock
  unfold ClientRace.openRound
  simp only
  split
  · refine { h with here := ⟨nodup_clientBlockPeerCandidates hnodup, ?_, ?_⟩ }
    · intro _ ip hip
      rcases mem_clientBlockPeerCandidates hip with hip | hip
      · exact h.tier_eq ▸ mem_peers_of_candidatesAt hip
      · cases hip
    · exact fun ip _ hasked => Or.inl (hfirst ip hasked)
  · refine { h with early := nofun, here := ⟨nodup_clientBlockPeerCandidates hnodup, nofun, ?_⟩ }
    exact fun ip _ hasked => Or.inl (hfirst ip hasked)

theorem Once.askDeferred (h : s.Once prio) {round : List String} (hpc : s.pc = .roundTop round) :
    (s.askDeferred round).Once prio := by
  obtain ⟨hround, hprio, hskip⟩ : OnceAt prio s (.roundTop round) := hpc ▸ h.here
  unfold ClientRace.askDeferred
  split
  · rename_i peer hpool hdeferred
    obtain ⟨hpin, hfresh⟩ := h.deferred_fresh peer hdeferred
    refine ⟨h.tier_eq, nodup_snoc h.nodup hfresh, nofun, ?_, hround, hprio, ?_⟩
    · intro hnot
      cases hpool.symm.trans hnot
    · intro ip hip hasked
      rcases List.mem_append.mp hasked with hasked | hasked
      · exact hskip ip hip hasked
      · right
        simp only [spawn, hpin, Option.any_some, List.mem_singleton.mp hasked, decide_true]
  · exact { h with here := ⟨hround, hprio, hskip⟩ }

theorem Once.launch (h : s.Once prio) {ip : String} {rest : List String} (hpc : s.pc = .launching (ip :: rest)) :
    (s.launch args ip rest).Once prio := by
  obtain ⟨hround, hprio, hskip⟩ : OnceAt prio s (.launching (ip :: rest)) := hpc ▸ h.here
  obtain ⟨hnew, hrest⟩ := List.nodup_cons.mp hround
  have hprio' : s.poolHedged = false → ∀ x ∈ rest, x ∈ prio := fun hp x hx => hprio hp x (List.mem_cons_of_mem _ hx)
  unfold ClientRace.launch
  split
  · exact { h with here := ⟨hrest, hprio', fun x hx => hskip x (List.mem_cons_of_mem _ hx)⟩ }
  · rename_i hpass
    split
    · exact { h with here := ⟨hrest, hprio', fun x hx => hskip x (List.mem_cons_of_mem _ hx)⟩ }
    · rename_i sessions slot hslot
      have hfresh : ip ∉ s.asked := fun hasked => hpass (hskip ip List.mem_cons_self hasked)
      refine ⟨(later_prewarmSlot hslot).peers_eq.trans h.tier_eq, nodup_snoc h.nodup hfresh, ?_, ?_, hrest, hprio', ?_⟩
      · intro pin hpin
        obtain ⟨heq, hunasked⟩ := h.deferred_fresh pin hpin
        refine ⟨heq, ?_⟩
        intro hasked
        rcases List.mem_append.mp hasked with hasked | hasked
        · exact hunasked hasked
        · apply hpass
          right
          simp only [heq, Option.any_some, List.mem_singleton.mp hasked, decide_true]
      · intro hp x hasked
        rcases List.mem_append.mp hasked with hasked | hasked
        · exact h.early hp x hasked
        · right
          rw [List.mem_singleton.mp hasked]
          exact hprio hp ip List.mem_cons_self
      · intro x hx hasked
        rcases List.mem_append.mp hasked with hasked | hasked
        · exact hskip x (List.mem_cons_of_mem _ hx) hasked
        · exact absurd (List.mem_singleton.mp hasked ▸ hx) hnew

/-- Behind the priority round only the first peer and priority peers were asked: none
    but the first is of the pool. -/
theorem Once.roundOver (h : s.Once prio) (hpool : ∀ ip ∈ args.peers, ip ∉ prio) :
    (s.roundOver args).Once prio := by
  unfold ClientRace.roundOver
  split
  · exact { h with here := trivial }
  · rename_i hgo
    have hpool' : s.poolHedged = false := by
      rw [← Bool.not_eq_true]
      exact fun hp => hgo (Or.inl hp)
    refine { h with early := nofun, here := ⟨nodup_clientBlockPeerCandidates List.nodup_nil, nofun, ?_⟩ }
    intro ip hip hasked
    rcases mem_clientBlockPeerCandidates hip with hip | hip
    · cases hip
    · left
      exact (h.early hpool' ip hasked).resolve_right (hpool ip hip)

theorem Once.go (h : s.Once prio) (hdistinct : prio.Nodup) (hpool : ∀ ip ∈ args.peers, ip ∉ prio)
    (hok : s.defersOther .go) {s' : ClientRace} (hgo : s.go args = some s') : s'.Once prio := by
  have hhere := h.here
  cases moves_of_go hgo with
  | begun hpc =>
    rw [hpc] at hhere
    exact { h with here := hhere }
  | waited hpc => exact { h with here := hhere }
  | looked hpc =>
    rw [hpc] at hhere
    exact { h with here := hhere }
  | unpinned hpc =>
    rw [hpc] at hhere
    refine { h with here := ⟨hhere.1, hhere.2.1, ?_⟩ }
    intro peer hpeer
    cases hhere.2.2.symm.trans hpeer
  | pinFirst hpc hanswers =>
    rw [hpc] at hhere
    refine { h with here := ⟨hhere.1, hhere.2.1, ?_⟩ }
    intro pin hpin
    cases hhere.2.2.symm.trans hpin
  | pinDeferred hpc hanswers =>
    -- the pin is put off, and the remembered peer is another one
    rw [hpc] at hhere
    refine ⟨h.tier_eq, h.nodup, ?_, h.early, hhere.1, hhere.2.1, ?_⟩
    · intro pin hpin
      exact ⟨hpin, hhere.1 ▸ List.not_mem_nil⟩
    · intro pin hpin
      cases hpin
      refine ⟨?_, rfl⟩
      intro hsame
      rw [hsame] at hpc
      simp only [defersOther, hpc, ne_eq, not_true_eq_false, decide_false, Bool.false_or] at hok
      exact hanswers hok
  | askFirst hpc => exact h.askFirst hpc
  | openRound hpc => exact h.openRound hdistinct hpc
  | askDeferred hpc => exact h.askDeferred hpc
  | launch hpc => exact h.launch hpc
  | launched hpc => exact { h with here := trivial }
  | roundOver hpc hset => exact h.roundOver hpool

theorem Once.joinFirst (h : s.Once prio) {limit : Nat} (hpc : s.pc = .grace limit)
    (result : Except FetchError ClientBlockUpstreamResponse) : (s.joinFirst a result).Once prio := by
  have hhere := h.here
  rw [hpc] at hhere
  unfold ClientRace.joinFirst
  split
  · exact { h with here := trivial }
  · exact { h with here := hhere }

theorem Once.joinHedged (h : s.Once prio) (result : Except FetchError ClientBlockUpstreamResponse) :
    (s.joinHedged a result).Once prio := by
  unfold ClientRace.joinHedged
  split
  · exact { h with here := trivial }
  · exact { h with }

theorem Once.step (hdistinct : prio.Nodup) (hpool : ∀ ip ∈ args.peers, ip ∉ prio) (h : s.Once prio)
    {e : RaceEvent} {s' : ClientRace} (hok : s.defersOther e) (hstep : s.step args e = some s') : s'.Once prio := by
  cases turn_of_step hstep with
  | aside haside =>
    have hpeers := haside.later.peers_eq.trans h.tier_eq
    rw [haside.own]
    exact { h with tier_eq := hpeers }
  | go hgo => exact h.go hdistinct hpool hok hgo
  | joinFirst hpc => exact h.joinFirst hpc _
  | firstOver hpc =>
    have hhere := h.here
    rw [hpc] at hhere
    exact { h with here := hhere }
  | joinHedged hpc => exact h.joinHedged _
  | timedOut _ _ _ hlater =>
    apply Once.roundOver _ hpool
    have hhere := h.here
    exact { h with tier_eq := hlater.peers_eq.trans h.tier_eq, here := hhere }

end Once

/-! ## 3. The priority peers first -/

/-- On an exclusive tier with a usable peer: whom the request is about to ask. -/
def PrioFirstAt (prio : List String) (s : ClientRace) : RacePc → Prop
  | .begin => s.poolHedged = false
  | .pinning remembered _ | .pinned remembered _ => s.poolHedged = false ∧ ∀ ip, remembered = some ip → ip ∈ prio
  | .first remembered active =>
    s.poolHedged = false ∧ (∀ ip, remembered = some ip → ip ∈ prio) ∧ ∀ peer, active = some peer → peer.ip ∈ prio
  | .grace _ | .hedge => s.poolHedged = false
  | .roundTop round | .launching round => ∀ ip ∈ round, ip ∈ prio ↔ s.poolHedged = false
  | .racing => s.roundDeadline = if s.poolHedged then none else some (s.started + PRIORITY_4002_ROUND)
  | .returned _ => True

/-- **The priority round first.** -/
structure PrioFirst (prio : List String) (s : ClientRace) : Prop where
  tier_eq : s.sessions.tier.peers = prio
  excl : s.sessions.tier.exclusive = true
  early : s.poolHedged = false → ∀ ip ∈ s.asked, ip ∈ prio
  late : s.poolHedged = true → s.started + PRIORITY_4002_ROUND ≤ s.clock ∨ ∀ a ∈ s.set, a.ip ∉ prio
  deferred_pool : ∀ peer, s.deferred = some peer → peer.ip ∉ prio
  here : PrioFirstAt prio s s.pc

/-- Some priority peer may be used. -/
def Usable (s : ClientRace) (_ : RaceEvent) : Prop := s.sessions.tier.candidatesAt s.black s.clock ≠ []

instance decidableUsable (s : ClientRace) (e : RaceEvent) : Decidable (s.Usable e) := inferInstanceAs (Decidable (_ ≠ _))

section PrioFirst

variable {prio : List String}

/-- While a priority peer may be used, the pool may not serve. -/
theorem PrioFirst.poolAllowed (h : s.PrioFirst prio) {e : RaceEvent} (huse : s.Usable e) :
    s.sessions.tier.poolAllowed s.black s.clock = false := by
  unfold PriorityTier.poolAllowed
  rw [h.excl, List.isEmpty_eq_false_iff.mpr huse]
  rfl

theorem PrioFirst.remembered (h : s.PrioFirst prio) {e : RaceEvent} (huse : s.Usable e) {ip : String}
    (hip : s.remembered = some ip) : ip ∈ prio := by
  have hcond := (Option.filter_eq_some_iff.mp hip).2
  rw [h.poolAllowed huse, Bool.or_false, PriorityTier.contains_iff, h.tier_eq] at hcond
  exact hcond

theorem PrioFirst.activeAnswersFirst (h : s.PrioFirst prio) {e : RaceEvent} (huse : s.Usable e) {ip : String} :
    activeAnswersFirst s.sessions.tier s.black s.clock ip = true ↔ ip ∈ prio := by
  unfold Gateway.activeAnswersFirst
  rw [h.poolAllowed huse, Bool.or_false, PriorityTier.contains_iff, h.tier_eq]

theorem PrioFirst.askFirst (h : s.PrioFirst prio) {remembered : Option String} {active : Option ActivePeer}
    (hpc : s.pc = .first remembered active) : (s.askFirst args remembered active).PrioFirst prio := by
  obtain ⟨hpool, hremembered, hactive⟩ : PrioFirstAt prio s (.first remembered active) := hpc ▸ h.here
  -- still no pool peer: what is spawned here is a priority peer
  have hlate : ∀ set : List Ask, s.poolHedged = true →
      s.started + PRIORITY_4002_ROUND ≤ s.clock ∨ ∀ a ∈ set, a.ip ∉ prio := by
    intro _ hp
    cases hpool.symm.trans hp
  have hearly : ∀ ip, ip ∈ prio → s.poolHedged = false → ∀ x ∈ s.asked ++ [ip], x ∈ prio := by
    intro ip hip hp x hx
    rcases List.mem_append.mp hx with hx | hx
    · exact h.early hp x hx
    · exact List.mem_singleton.mp hx ▸ hip
  unfold ClientRace.askFirst
  split
  · rename_i peer
    exact { h with early := hearly _ (hactive peer rfl), late := hlate _, here := hpool }
  · split
    · exact { h with here := hpool }
    · rename_i ip
      split
      · exact { h with here := hpool }
      · rename_i sessions slot hslot
        have hlater := later_prewarmSlot hslot
        exact ⟨hlater.peers_eq.trans h.tier_eq, hlater.exclusive.trans h.excl, hearly _ (hremembered ip rfl), hlate _,
          h.deferred_pool, hpool⟩

theorem PrioFirst.openRound (h : s.PrioFirst prio) {e : RaceEvent} (huse : s.Usable e) (hpc : s.pc = .hedge) :
    (s.openRound args).PrioFirst prio := by
  have hpool : PrioFirstAt prio s .hedge := hpc ▸ h.here
  unfold ClientRace.openRound
  simp only
  rw [if_pos ⟨h.excl, huse⟩]
  refine { h with here := ?_ }
  intro ip hip
  refine iff_of_true ?_ hpool
  rcases mem_clientBlockPeerCandidates hip with hip | hip
  · exact h.tier_eq ▸ mem_peers_of_candidatesAt hip
  · cases hip

theorem PrioFirst.askDeferred (h : s.PrioFirst prio) {round : List String} (hpc : s.pc = .roundTop round) :
    (s.askDeferred round).PrioFirst prio := by
  have hround : PrioFirstAt prio s (.roundTop round) := hpc ▸ h.here
  unfold ClientRace.askDeferred
  split
  · rename_i peer hpool hdeferred
    refine ⟨h.tier_eq, h.excl, ?_, ?_, nofun, hround⟩
    · intro hnot
      cases hpool.symm.trans hnot
    · intro _
      refine (h.late hpool).imp_right ?_
      intro hset a ha
      rcases List.mem_cons.mp ha with rfl | ha
      · exact h.deferred_pool peer hdeferred
      · exact hset a ha
  · exact { h with here := hround }

theorem PrioFirst.launch (h : s.PrioFirst prio) {ip : String} {rest : List String}
    (hpc : s.pc = .launching (ip :: rest)) : (s.launch args ip rest).PrioFirst prio := by
  have hround : PrioFirstAt prio s (.launching (ip :: rest)) := hpc ▸ h.here
  have hip := hround ip List.mem_cons_self
  have hrest : ∀ x ∈ rest, x ∈ prio ↔ s.poolHedged = false := fun x hx => hround x (List.mem_cons_of_mem _ hx)
  unfold ClientRace.launch
  split
  · exact { h with here := hrest }
  · split
    · exact { h with here := hrest }
    · rename_i sessions slot hslot
      have hlater := later_prewarmSlot hslot
      refine ⟨hlater.peers_eq.trans h.tier_eq, hlater.exclusive.trans h.excl, ?_, ?_, h.deferred_pool, hrest⟩
      · intro hp x hx
        rcases List.mem_append.mp hx with hx | hx
        · exact h.early hp x hx
        · exact List.mem_singleton.mp hx ▸ hip.mpr hp
      · intro hp
        refine (h.late hp).imp_right ?_
        intro hset a ha
        rcases List.mem_cons.mp ha with rfl | ha
        · intro hmem
          cases (hip.mp hmem).symm.trans hp
        · exact hset a ha

/-- The pool has its turn when the round is over: at its deadline, or with no attempt left. -/
theorem PrioFirst.roundOver (h : s.PrioFirst prio) (hpool : ∀ ip ∈ args.peers, ip ∉ prio)
    (hover : s.poolHedged = false → s.started + PRIORITY_4002_ROUND ≤ s.clock ∨ s.set = []) :
    (s.roundOver args).PrioFirst prio := by
  unfold ClientRace.roundOver
  split
  · exact { h with here := trivial }
  · rename_i hgo
    have hpool' : s.poolHedged = false := by
      rw [← Bool.not_eq_true]
      exact fun hp => hgo (Or.inl hp)
    refine { h with early := nofun, late := ?_, here := ?_ }
    · intro _
      refine (hover hpool').imp_right ?_
      intro hset
      simp only [hset]
      nofun
    · intro ip hip
      rcases mem_clientBlockPeerCandidates hip with hip | hip
      · cases hip
      · exact iff_of_false (hpool ip hip) nofun

theorem PrioFirst.go (h : s.PrioFirst prio) (hpool : ∀ ip ∈ args.peers, ip ∉ prio) {e : RaceEvent}
    (huse : s.Usable e) {s' : ClientRace} (hgo : s.go args = some s') : s'.PrioFirst prio := by
  have hhere := h.here
  cases moves_of_go hgo with
  | begun hpc =>
    rw [hpc] at hhere
    refine { h with late := ?_, here := ⟨hhere, fun ip hip => h.remembered huse hip⟩ }
    intro hp
    cases (show s.poolHedged = false from hhere).symm.trans hp
  | waited hpc => exact { h with here := hhere }
  | looked hpc =>
    rw [hpc] at hhere
    exact { h with here := hhere }
  | unpinned hpc =>
    rw [hpc] at hhere
    exact { h with here := ⟨hhere.1, hhere.2, nofun⟩ }
  | pinFirst hpc hanswers =>
    rw [hpc] at hhere
    refine { h with here := ⟨hhere.1, hhere.2, ?_⟩ }
    intro peer hpeer
    cases hpeer
    exact (h.activeAnswersFirst huse).mp hanswers
  | pinDeferred hpc hanswers =>
    rw [hpc] at hhere
    refine ⟨h.tier_eq, h.excl, h.early, h.late, ?_, hhere.1, hhere.2, nofun⟩
    intro peer hpeer
    cases hpeer
    exact fun hmem => hanswers ((h.activeAnswersFirst huse).mpr hmem)
  | askFirst hpc => exact h.askFirst hpc
  | openRound hpc => exact h.openRound huse hpc
  | askDeferred hpc => exact h.askDeferred hpc
  | launch hpc => exact h.launch hpc
  | launched hpc => exact { h with here := rfl }
  | roundOver hpc hset => exact h.roundOver hpool fun _ => Or.inr hset

theorem PrioFirst.joinFirst (h : s.PrioFirst prio) {limit : Nat} (hpc : s.pc = .grace limit)
    (result : Except FetchError ClientBlockUpstreamResponse) : (s.joinFirst a result).PrioFirst prio := by
  have hpool : PrioFirstAt prio s (.grace limit) := hpc ▸ h.here
  have hlate : s.poolHedged = true → s.started + PRIORITY_4002_ROUND ≤ s.clock ∨ ∀ b ∈ s.set.erase a, b.ip ∉ prio :=
    fun hp => (h.late hp).imp_right fun hset b hb => hset b (List.mem_of_mem_erase hb)
  unfold ClientRace.joinFirst
  split
  · exact { h with late := hlate, here := trivial }
  · exact { h with late := hlate, here := hpool }

theorem PrioFirst.joinHedged (h : s.PrioFirst prio) (result : Except FetchError ClientBlockUpstreamResponse) :
    (s.joinHedged a result).PrioFirst prio := by
  have hlate : s.poolHedged = true → s.started + PRIORITY_4002_ROUND ≤ s.clock ∨ ∀ b ∈ s.set.erase a, b.ip ∉ prio :=
    fun hp => (h.late hp).imp_right fun hset b hb => hset b (List.mem_of_mem_erase hb)
  unfold ClientRace.joinHedged
  split
  · exact { h with late := hlate, here := trivial }
  · exact { h with late := hlate }

theorem PrioFirst.step (hpool : ∀ ip ∈ args.peers, ip ∉ prio) (h : s.PrioFirst prio) {e : RaceEvent}
    {s' : ClientRace} (huse : s.Usable e) (hstep : s.step args e = some s') : s'.PrioFirst prio := by
  cases turn_of_step hstep with
  | aside haside =>
    have hpeers := haside.later.peers_eq.trans h.tier_eq
    have hexcl := haside.later.exclusive.trans h.excl
    have hlate : s.poolHedged = true →
        s.started + PRIORITY_4002_ROUND ≤ s'.clock ∨ ∀ a ∈ s'.set, a.ip ∉ prio := by
      intro hp
      rcases h.late hp with hover | hset
      · exact Or.inl (hover.trans haside.clock)
      · right
        intro a ha
        obtain ⟨b, hb, hip⟩ := haside.ips a ha
        exact hip ▸ hset b hb
    rw [haside.own]
    exact ⟨hpeers, hexcl, h.early, hlate, h.deferred_pool, h.here⟩
  | go hgo => exact h.go hpool huse hgo
  | joinFirst hpc => exact h.joinFirst hpc _
  | firstOver hpc hset =>
    have hhere := h.here
    rw [hpc] at hhere
    refine { h with late := ?_, here := hhere }
    exact fun hp => (h.late hp).imp_right fun hnone b hb => hnone b (hset b hb)
  | joinHedged hpc => exact h.joinHedged _
  | timedOut hpc hlimit hover hlater =>
    have hdeadline : s.roundDeadline = if s.poolHedged then none else some (s.started + PRIORITY_4002_ROUND) :=
      (hpc ▸ h.here : PrioFirstAt prio s .racing)
    apply PrioFirst.roundOver _ hpool
    · intro hp
      left
      rw [show s.poolHedged = false from hp] at hdeadline
      cases hlimit.symm.trans hdeadline
      exact hover
    · have hhere := h.here
      exact ⟨hlater.peers_eq.trans h.tier_eq, hlater.exclusive.trans h.excl, h.early, h.late, h.deferred_pool, hhere⟩

end PrioFirst

/-! ## 4. The request as a whole -/

/-- `fetch_client_blocks_raced` as it is called. -/
def start (clock : Nat) (black : Blacklist) (sessions : Sessions) (node : Pins) (rr : Nat) : ClientRace :=
  { clock := clock, black := black, sessions := sessions, node := node, rr := rr }

/-- A step that asks a peer does not end the request. -/
theorem unreturned_of_asks {s' : ClientRace} {e : RaceEvent} (hstep : s.step args e = some s')
    (hasks : s'.asked ≠ s.asked) (result : Except (List Failure) (List UInt8)) : s'.pc ≠ .returned result := by
  have hover : ∀ t : ClientRace, (t.roundOver args).asked = t.asked := by
    intro t
    unfold ClientRace.roundOver
    split
    · rfl
    · rfl
  cases turn_of_step hstep with
  | aside haside =>
    rw [haside.own] at hasks
    exact absurd rfl hasks
  | go hgo =>
    rcases (moves_of_go hgo).proceeds with ⟨-, rfl⟩ | hproceeds
    · exact absurd (hover s) hasks
    · exact hproceeds.unreturned result
  | joinFirst hpc =>
    apply absurd _ hasks
    unfold ClientRace.joinFirst
    split
    · rfl
    · rfl
  | firstOver hpc => exact absurd rfl hasks
  | joinHedged hpc =>
    apply absurd _ hasks
    unfold ClientRace.joinHedged
    split
    · rfl
    · rfl
  | timedOut hpc => exact absurd (hover _) hasks

theorem answers_of_run {clock : Nat} {black : Blacklist} {sessions : Sessions} {node : Pins} {rr : Nat}
    {ok : ClientRace → RaceEvent → Prop} {events : List RaceEvent}
    (hrun : Machine.Run (step args) ok (start clock black sessions node rr) events s) : Answers s.joined s.pc := by
  apply And.right (a := Kept s.race s.joined)
  apply hrun.invariant (I := fun s => Kept s.race s.joined ∧ Answers s.joined s.pc)
  · exact ⟨⟨rfl, rfl⟩, rfl⟩
  · intro s e s' h _ hstep
    exact answers_step h.1 h.2 hstep

end ClientRace

open ClientRace in
/-- **The client-block race.**  With a tier of distinct peers and a pool that lists none
    of them: the first batch joined that counts is the answer, an error frame is one only
    without it, and a range-too-small frame only without a terminal one; no peer is asked
    twice in a run in which a deferred pin is never the remembered peer; and on an
    exclusive tier with a usable peer throughout, a pool peer is asked only with no batch
    joined and no priority attempt left, or behind the round's deadline. -/
theorem client_block_race (args : RaceArgs) (clock : Nat) (black : Blacklist) (sessions : Sessions) (node : Pins)
    (rr : Nat) (hdistinct : sessions.tier.peers.Nodup) (hpool : ∀ ip ∈ args.peers, ip ∉ sessions.tier.peers) :
    (∀ events s, Machine.Run (ClientRace.step args) (fun _ _ => True) (start clock black sessions node rr) events s →
      Answers s.joined s.pc) ∧
    (∀ events s,
      Machine.Run (ClientRace.step args) (fun s e => s.defersOther e) (start clock black sessions node rr) events s →
      s.asked.Nodup) ∧
    (sessions.tier.exclusive = true →
      ∀ events s, Machine.Run (ClientRace.step args) Usable (start clock black sessions node rr) events s →
      ∀ e s' ip, Usable s e → s.step args e = some s' → s'.asked = s.asked ++ [ip] → ip ∉ sessions.tier.peers →
        batches s'.joined = [] ∧
        (s'.started + PRIORITY_4002_ROUND ≤ s'.clock ∨ ∀ a ∈ s'.set, a.ip ∉ sessions.tier.peers)) := by
  refine ⟨fun events s hrun => answers_of_run hrun, ?_, ?_⟩
  · intro events s hrun
    have honce : s.Once sessions.tier.peers := by
      apply hrun.invariant
      · exact ⟨rfl, List.nodup_nil, nofun, nofun, rfl, rfl, rfl⟩
      · intro s e s' h hok hstep
        exact h.step hdistinct hpool hok hstep
    exact honce.nodup
  · intro hexcl events s hrun e s' ip huse hstep hasks hip
    have hfirst : s'.PrioFirst sessions.tier.peers := by
      apply (hrun.snoc huse hstep).invariant
      · exact ⟨rfl, hexcl, nofun, nofun, nofun, rfl⟩
      · intro s e s' h huse hstep
        exact h.step hpool huse hstep
    constructor
    · have hopen := unreturned_of_asks hstep (by rw [hasks]; simp)
      exact (answers_iff_of_open hopen).mp (answers_of_run (hrun.snoc huse hstep))
    · apply hfirst.late
      by_contra hp
      rw [Bool.not_eq_true] at hp
      apply hip
      apply hfirst.early hp
      rw [hasks]
      exact List.mem_append_right _ (List.mem_singleton_self ip)

def raceArgs : RaceArgs := ⟨7, ["192.0.2.7"], []⟩

/-- The pool active is deferred, the priority peer fails, and only then is the pool asked. -/
def deferredEvents : List RaceEvent :=
  [.go, .world 0 {} (Pins.pinActive {} "192.0.2.7").2 0, .go, .go, .go, .go, .go, .go, .go,
    .answer ⟨none, "198.51.100.1", true, .asking (some 0)⟩ { prewarmOk := false } [],
    .join ⟨none, "198.51.100.1", true, .done (.error .prewarm)⟩, .go]

def deferredStart : ClientRace := ClientRace.start 0 {} (Sessions.start ["198.51.100.1"] 0 0 true) {} 0

theorem deferred_isSome : (Machine.exec (ClientRace.step raceArgs) (fun s e => s.defersOther e = true ∧ s.Usable e)
    deferredStart deferredEvents).isSome = true := by
  decide

def deferredRace : ClientRace :=
  (Machine.exec (ClientRace.step raceArgs) (fun s e => s.defersOther e = true ∧ s.Usable e) deferredStart
    deferredEvents).get deferred_isSome

theorem deferred_go_isSome : (deferredRace.step raceArgs .go).isSome = true := by
  decide

def deferredNext : ClientRace := (deferredRace.step raceArgs .go).get deferred_go_isSome

theorem client_block_race_deferredRace :
    batches deferredRace.joined = [] ∧ deferredRace.asked.Nodup ∧ deferredRace.asked = ["198.51.100.1"] ∧
    deferredNext.asked = ["198.51.100.1", "192.0.2.7"] ∧ ∀ a ∈ deferredNext.set, a.ip ∉ ["198.51.100.1"] := by
  have hrun := Machine.Run.of_exec (Option.some_get deferred_isSome).symm
  obtain ⟨hanswers, honce, hfirst⟩ := client_block_race raceArgs 0 {} (Sessions.start ["198.51.100.1"] 0 0 true) {} 0
    (by decide) (by decide)
  have hpc : ∀ result, deferredRace.pc ≠ .returned result := by
    intro result h
    cases h
  have hasks : deferredNext.asked = deferredRace.asked ++ ["192.0.2.7"] := by decide
  refine ⟨?_, honce _ deferredRace (hrun.mono fun _ _ h => h.1), by decide, hasks, ?_⟩
  · exact (ClientRace.answers_iff_of_open hpc).mp (hanswers _ deferredRace (hrun.mono fun _ _ _ => trivial))
  · have hsent := hfirst (by decide) _ deferredRace (hrun.mono fun _ _ h => h.2) .go deferredNext "192.0.2.7"
      (by decide) (Option.some_get deferred_go_isSome).symm hasks (by decide)
    exact hsent.2.resolve_left (by decide)

/-- The only priority peer is at its session cap. -/
def fullSessions : Sessions where
  tier := (PriorityTier.new ["198.51.100.1"] 1 0 true).setSessions 0 1
  guards := [⟨0, 3⟩]
  marks := []

/-- A pool peer is remembered, and pinned behind the reading; the priority peer's slot is
    free again when the pin is looked at.  Both attempts on the pool peer hang. -/
def repinnedEvents : List RaceEvent :=
  [.go, .world 0 {} (Pins.pinActive { rpcPeer := some "192.0.2.7" } "192.0.2.7").2 0, .go, .other (.drop ⟨0, 3⟩), .go, .go,
    .world 2000000000 {} {} 0, .timer, .go, .go, .go, .go, .world 6000000000 {} {} 0, .timer, .go]

def repinnedStart : ClientRace :=
  ClientRace.start 0 {} fullSessions { rpcPeer := some "192.0.2.7" } 0

theorem repinned_isSome :
    (Machine.exec (ClientRace.step raceArgs) (fun _ _ => True) repinnedStart repinnedEvents).isSome = true := by
  decide

def repinned : ClientRace :=
  (Machine.exec (ClientRace.step raceArgs) (fun _ _ => True) repinnedStart repinnedEvents).get repinned_isSome

theorem client_block_peer_asked_twice :
    Machine.Run (ClientRace.step raceArgs) (fun _ _ => True) repinnedStart repinnedEvents repinned ∧
      fullSessions.tier.peers.Nodup ∧ (∀ ip ∈ raceArgs.peers, ip ∉ fullSessions.tier.peers) ∧
      repinned.asked = ["192.0.2.7", "198.51.100.1", "192.0.2.7"] :=
  ⟨Machine.Run.of_exec (Option.some_get repinned_isSome).symm, by decide, by decide, by decide⟩

end Hypersync.Gateway
