import Hypersync.Gateway.LiveSelect

/-!
# An exclusive tier keeps the pool out of live selection

While the selection races, every priority candidate is an attempt in the set or a
recorded failure, and the counter of priority attempts is right (`Ready`).  The pool
opens when the counter is zero or when the window has closed, and in the second case
there is no time left to start anything.  Once the selection has returned (`After`),
what it promised about slots and cooldowns can no longer change.
-/

namespace Hypersync.Gateway.Select

/-! ## 1. Slots and attempts -/

/-- The peers of the priority attempts in a set. -/
def prioIps (set : List Attempt) : List String := (set.filter (·.isPriority)).map (·.ip)

/-- The attempts of a set that hold the slot of the peer at `i`. -/
def slotCount (set : List Attempt) (i : Nat) : Nat := set.countP fun a => a.slot = some i

/-- The guards of the peer at `i` that are ours. -/
def heldSlots (me : Nat) (ss : Sessions) (i : Nat) : Nat := ss.guards.countP fun g => g = ⟨i, me⟩

variable {set : List Attempt} {a : Attempt} {ss ss' : Sessions} {me : Nat}

theorem slotCount_erase (ha : a ∈ set) (i : Nat) :
    slotCount set i = slotCount (set.erase a) i + if a.slot = some i then 1 else 0 := by
  rw [slotCount, Bag.countP_erase_add _ ha, slotCount]
  simp only [decide_eq_true_eq]

theorem slotCount_replace (ha : a ∈ set) (b : Attempt) (i : Nat) :
    slotCount (Bag.replace set a b) i + (if a.slot = some i then 1 else 0) =
      slotCount set i + if b.slot = some i then 1 else 0 := by
  have hcount := Bag.countP_replace_add (fun a : Attempt => a.slot = some i) ha b
  simp only [decide_eq_true_eq] at hcount
  exact hcount

/-- A slot that is dropped is one of ours less. -/
theorem heldSlots_dropSlot {slot : Option Nat} (hheld : ∀ k, slot = some k → 0 < heldSlots me ss k) (i : Nat) :
    heldSlots me ss i = heldSlots me (ss.dropSlot me slot) i + if slot = some i then 1 else 0 := by
  rcases slot with _ | k
  · rw [Sessions.dropSlot, if_neg (fun h => by cases h), Nat.add_zero]
  · have hmem : PrioritySession.mk k me ∈ ss.guards := by
      obtain ⟨g, hg, hgk⟩ := List.countP_pos_iff.mp (hheld k rfl)
      exact of_decide_eq_true hgk ▸ hg
    rw [heldSlots, Bag.countP_erase_add _ hmem, heldSlots, Sessions.dropSlot]
    simp only [decide_eq_true_eq, PrioritySession.mk.injEq, and_true, Option.some.injEq]

/-- Another task's step leaves our guards alone. -/
theorem heldSlots_other {e : TierEvent} (havoids : e.avoids me = true) (h : ss.step e = some ss') (i : Nat) :
    heldSlots me ss' i = heldSlots me ss i := by
  have hother : ∀ g : PrioritySession, g.owner ≠ me → ¬ decide (g = ⟨i, me⟩) = true := by
    intro g hg heq
    exact hg (congrArg PrioritySession.owner (of_decide_eq_true heq))
  cases e with
  | tryAcquire ip owner =>
    simp only [Sessions.step] at h
    split at h
    · cases h
      have howner : owner ≠ me := of_decide_eq_true havoids
      rw [heldSlots, List.countP_cons, if_neg (hother _ howner), Nat.add_zero, heldSlots]
    · cases h
      rfl
  | move g owner =>
    obtain ⟨hg, howner⟩ := of_decide_eq_true havoids
    simp only [Sessions.step] at h
    split at h <;> cases h
    rename_i hmem
    have hcount := Bag.countP_replace_add (fun g => g = ⟨i, me⟩) hmem { g with owner := owner }
    rw [if_neg (hother _ hg), if_neg (hother _ howner)] at hcount
    exact hcount
  | drop g =>
    simp only [Sessions.step] at h
    split at h <;> cases h
    rename_i hmem
    have hg : g.owner ≠ me := of_decide_eq_true havoids
    rw [heldSlots, heldSlots, Bag.countP_erase_add _ hmem, if_neg (hother _ hg), Nat.add_zero]
  | mark m =>
    cases h
    rfl

/-! ## 2. While it races -/

/-- What holds at every await of a selection on an exclusive tier. -/
structure Ready (me : Nat) (prio : List String) (s : Select) : Prop where
  window : s.started ≤ s.clock ∧ s.clock ≤ s.deadline
  opens : s.poolOpens = s.deadline
  known : ∀ ip ∈ prio, (s.sessions.tier.index ip).isSome = true
  inFlight : s.prioInFlight = s.set.countP (·.isPriority)
  poolLater : 0 < s.launched → ∀ a ∈ s.set, a.isPriority = false
  poolLaunched : ∀ a ∈ s.set, a.isPriority = false → 0 < s.launched
  accounted : (prioIps s.set ++ s.failed.map Prod.fst).Perm prio
  pending : ∀ ip ∈ prio, ip ∈ s.prioPending ∨ ∃ e, (ip, e) ∈ s.failed
  cooled : ∀ ip e, (ip, e) ∈ s.failed → e ≠ .capReached →
    ∀ now < s.started + PRIORITY_HUNG_COOLDOWN, s.sessions.CooledAt ip now
  slots : ∀ i, heldSlots me s.sessions i = slotCount s.set i
  unharmed : ∀ a ∈ s.set, a.state ≠ .panicked

/-- What holds once it has returned `r`. -/
structure After (me : Nat) (prio : List String) (s : Select) (r : Option (Bool × LivePeerSession)) : Prop where
  poolLater : 0 < s.launched → ∀ a ∈ s.set, a.isPriority = false
  slots : ∀ i, heldSlots me s.sessions i =
    slotCount s.set i + if (r.bind fun x => x.2.prioSession) = some i then 1 else 0
  exhausted : ∀ live, r = some (false, live) → (s.failed.map Prod.fst).Perm prio
  cooled : r = none → ∀ ip ∈ prio, (ip, .capReached) ∉ s.failed → s.sessions.CooledAt ip s.clock

def Inv (me : Nat) (prio : List String) (s : Select) : Prop :=
  match s.pc with
  | .waiting wakeAt _ => s.Ready me prio ∧ wakeAt ≤ s.deadline
  | .returned r => s.After me prio r

variable {s : Select} {prio : List String} {r : Option (Bool × LivePeerSession)}

/-- An attempt goes on and the tier with it. -/
theorem Ready.update (h : s.Ready me prio) (ha : a ∈ s.set) {state : AttemptState} (hstate : state ≠ .panicked)
    (hlater : s.sessions.Later ss')
    (hslots : ∀ i, heldSlots me ss' i + (if a.slot = some i then 1 else 0) =
      heldSlots me s.sessions i + if { a with state := state }.slot = some i then 1 else 0) :
    Ready me prio { s.proceed a state with sessions := ss' } := by
  refine ⟨h.window, h.opens, ?_, ?_, ?_, ?_, ?_, h.pending, ?_, ?_, ?_⟩
  · intro ip hprio
    rw [hlater.index]
    apply h.known ip hprio
  · have hcount := Bag.countP_replace_add (·.isPriority) ha { a with state := state }
    exact h.inFlight.trans (Nat.add_right_cancel hcount).symm
  · intro hlaunched x hx
    rcases Bag.mem_replace hx with rfl | hx
    · exact h.poolLater hlaunched a ha
    · exact h.poolLater hlaunched x hx
  · intro x hx hpool
    rcases Bag.mem_replace hx with rfl | hx
    · exact h.poolLaunched a ha hpool
    · exact h.poolLaunched x hx hpool
  · have hview := Bag.map_filter_replace (b := { a with state := state }) (·.isPriority) (·.ip) ha rfl rfl
    exact (hview.symm.append_right _).trans h.accounted
  · intro ip e hfailed hcap now hnow
    apply hlater.cooledAt
    exact h.cooled ip e hfailed hcap now hnow
  · intro i
    have hset := slotCount_replace ha { a with state := state } i
    have hi := hslots i
    rw [h.slots i] at hi
    apply Nat.add_right_cancel
    exact hi.trans hset.symm
  · intro x hx
    rcases Bag.mem_replace hx with rfl | hx
    · exact hstate
    · exact h.unharmed x hx

theorem After.update (h : s.After me prio r) (ha : a ∈ s.set) {state : AttemptState} (hlater : s.sessions.Later ss')
    (hslots : ∀ i, heldSlots me ss' i + (if a.slot = some i then 1 else 0) =
      heldSlots me s.sessions i + if { a with state := state }.slot = some i then 1 else 0) :
    After me prio { s.proceed a state with sessions := ss' } r := by
  refine ⟨?_, ?_, h.exhausted, ?_⟩
  · intro hlaunched x hx
    rcases Bag.mem_replace hx with rfl | hx
    · exact h.poolLater hlaunched a ha
    · exact h.poolLater hlaunched x hx
  · intro i
    have hset := slotCount_replace ha { a with state := state } i
    have hi := hslots i
    rw [h.slots i] at hi
    simp only [proceed]
    omega
  · intro hnone ip hprio hcap
    apply hlater.cooledAt
    exact h.cooled hnone ip hprio hcap

theorem Ready.withPc (h : s.Ready me prio) (pc : SelectPc) : Ready me prio { s with pc := pc } :=
  { h with }

theorem After.withPc (h : s.After me prio r) (pc : SelectPc) : After me prio { s with pc := pc } r :=
  { h with }

/-- The tier changed under the selection, its own slots apart. -/
theorem Ready.withSessions (h : s.Ready me prio) (hlater : s.sessions.Later ss')
    (hslots : ∀ i, heldSlots me ss' i = heldSlots me s.sessions i) : Ready me prio { s with sessions := ss' } := by
  refine { h with known := ?_, cooled := ?_, slots := ?_ }
  · intro ip hprio
    rw [hlater.index]
    apply h.known ip hprio
  · intro ip e hfailed hcap now hnow
    apply hlater.cooledAt
    exact h.cooled ip e hfailed hcap now hnow
  · intro i
    rw [hslots i, h.slots i]

theorem After.withSessions (h : s.After me prio r) (hlater : s.sessions.Later ss')
    (hslots : ∀ i, heldSlots me ss' i = heldSlots me s.sessions i) : After me prio { s with sessions := ss' } r := by
  refine ⟨h.poolLater, ?_, h.exhausted, ?_⟩
  · intro i
    rw [hslots i, h.slots i]
  · intro hnone ip hprio hcap
    apply hlater.cooledAt
    exact h.cooled hnone ip hprio hcap

/-! ## 3. One turn of the loop -/

/-- A pool attempt is started only when no priority attempt is left. -/
theorem Ready.launchPool (args : SelectArgs) : ∀ (slots : Nat) {s : Select}, s.Ready me prio →
    s.prioInFlight = 0 ∨ s.deadline ≤ s.clock → (s.launchPool args slots).Ready me prio := by
  intro slots
  induction slots with
  | zero =>
    intro s h _
    exact h
  | succ slots ih =>
    intro s h hopen
    rw [Select.launchPool]
    split
    · rename_i hlaunch
      have hnone : s.prioInFlight = 0 := by
        rcases hopen with hzero | hclosed
        · exact hzero
        · omega
      have hpool : ∀ a ∈ s.set, a.isPriority = false := by
        intro x hx
        have hcount := h.inFlight
        rw [hnone, eq_comm, List.countP_eq_zero] at hcount
        exact Bool.eq_false_iff.mpr (hcount x hx)
      refine ih ?_ (Or.inl hnone)
      refine ⟨h.window, h.opens, h.known, ?_, ?_, ?_, ?_, h.pending, h.cooled, ?_, ?_⟩
      · rw [List.countP_cons]
        exact h.inFlight
      · intro _ x hx
        rcases List.mem_cons.mp hx with rfl | hx
        · rfl
        · exact hpool x hx
      · intro _ _ _
        exact Nat.succ_pos _
      · exact h.accounted
      · intro i
        rw [h.slots i, slotCount, slotCount, List.countP_cons]
        rfl
      · intro x hx
        rcases List.mem_cons.mp hx with rfl | hx
        · intro hstate
          cases hstate
        · exact h.unharmed x hx
    · exact h

/-- Marking a list of peers as hung. -/
theorem foldl_mark_spec (now : Nat) : ∀ (ips : List String) (ss : Sessions),
    ss.Later (ips.foldl (fun ss ip => ss.mark ⟨ip, true, now⟩) ss) ∧
    (ips.foldl (fun ss ip => ss.mark ⟨ip, true, now⟩) ss).guards = ss.guards ∧
    ∀ ip ∈ ips, (ss.tier.index ip).isSome = true →
      (ips.foldl (fun ss ip => ss.mark ⟨ip, true, now⟩) ss).CooledAt ip now := by
  intro ips
  induction ips with
  | nil =>
    intro ss
    exact ⟨Sessions.Later.refl ss, rfl, fun ip hip => by cases hip⟩
  | cons x ips ih =>
    intro ss
    obtain ⟨hlater, hguards, hcooled⟩ := ih (ss.mark ⟨x, true, now⟩)
    have hmark := Sessions.later_mark ss ⟨x, true, now⟩
    refine ⟨hmark.trans hlater, hguards, ?_⟩
    intro ip hip hknown
    rcases List.mem_cons.mp hip with rfl | hip
    · apply hlater.cooledAt
      apply Sessions.cooledAt_mark hknown
      exact Nat.lt_add_of_pos_right (by decide)
    · apply hcooled ip hip
      rw [hmark.index]
      exact hknown

/-- The window closes before the shortest cooldown of a mark made in it. -/
theorem Ready.clock_lt (h : s.Ready me prio) : s.clock < s.started + PRIORITY_HUNG_COOLDOWN := by
  have hwindow := h.window.2
  unfold deadline LIVE_SELECT_WAIT at hwindow
  unfold PRIORITY_HUNG_COOLDOWN
  omega

theorem Ready.giveUp (h : s.Ready me prio) : s.giveUp.After me prio none := by
  obtain ⟨hlater, hguards, hmarked⟩ := foldl_mark_spec s.clock s.prioPending s.sessions
  refine ⟨h.poolLater, ?_, ?_, ?_⟩
  · intro i
    rw [Select.giveUp, heldSlots, hguards]
    exact h.slots i
  · intro live hlive
    cases hlive
  · intro _ ip hprio hcap
    rcases h.pending ip hprio with hpending | ⟨e, hfailed⟩
    · exact hmarked ip hpending (h.known ip hprio)
    · apply hlater.cooledAt
      apply h.cooled ip e hfailed _ _ h.clock_lt
      rintro rfl
      exact hcap hfailed

theorem Ready.await (h : s.Ready me prio) (poolOpen : Bool) : (s.await poolOpen).Inv me prio := by
  unfold Select.await
  simp only
  split
  · exact h.giveUp
  · refine ⟨h.withPc _, ?_⟩
    have hwindow := h.window.2
    simp only [deadline] at hwindow ⊢
    split
    · omega
    · omega

theorem Ready.turn (args : SelectArgs) (h : s.Ready me prio) : (s.turn args).Inv me prio := by
  unfold Select.turn
  split
  · -- open with no priority attempt left, or with no time left
    rename_i hopen
    apply Ready.await
    apply h.launchPool args
    rcases hopen with hclosed | hnone
    · right
      rw [← h.opens]
      exact hclosed
    · exact Or.inl hnone
  · exact h.await false

/-! ## 4. Joining -/

theorem Ready.joinFailed (h : s.Ready me prio) (ha : a ∈ s.set) {e : AttemptError}
    (hstate : a.state = .done (.error e)) : (s.joinFailed a e).Ready me prio := by
  have hnoslot : ∀ i, slotCount (s.set.erase a) i = slotCount s.set i := by
    intro i
    rw [slotCount_erase ha, Attempt.slot, hstate, if_neg (fun hslot => by cases hslot), Nat.add_zero]
  have hrest : ∀ x ∈ s.set.erase a, x ∈ s.set := fun x hx => List.mem_of_mem_erase hx
  have hview := Bag.map_filter_erase (·.isPriority) (·.ip) ha
  have hcount := Bag.countP_erase_add (·.isPriority) ha
  rw [Select.joinFailed]
  split
  · rename_i htier
    rw [if_pos htier] at hview hcount
    have hip : a.ip ∈ prio := by
      apply h.accounted.subset
      apply List.mem_append_left
      exact hview.symm.subset (List.mem_append_left _ (List.mem_singleton_self _))
    have hlater : s.sessions.Later (s.markAttempt a.ip e) := by
      unfold markAttempt
      split
      · exact Sessions.later_mark _ _
      · split
        · exact Sessions.later_mark _ _
        · exact Sessions.Later.refl _
    have hguards : (s.markAttempt a.ip e).guards = s.sessions.guards := by
      unfold markAttempt
      split
      · rfl
      · split
        · rfl
        · rfl
    refine ⟨h.window, h.opens, ?_, ?_, ?_, ?_, ?_, ?_, ?_, ?_, ?_⟩
    · intro ip hmem
      rw [hlater.index]
      exact h.known ip hmem
    · rw [h.inFlight, hcount, Nat.add_sub_cancel]
    · exact fun hlaunched x hx => h.poolLater hlaunched x (hrest x hx)
    · exact fun x hx hpool => h.poolLaunched x (hrest x hx) hpool
    · rw [List.map_append, ← List.append_assoc]
      refine List.Perm.trans ?_ h.accounted
      refine List.perm_append_comm.trans ?_
      rw [← List.append_assoc]
      exact hview.symm.append_right _
    · intro ip hmem
      by_cases hsame : ip = a.ip
      · right
        refine ⟨e, ?_⟩
        rw [hsame]
        exact List.mem_append_right _ (List.mem_singleton_self _)
      · rcases h.pending ip hmem with hpending | ⟨e', hfailed⟩
        · left
          exact List.mem_filter.mpr ⟨hpending, decide_eq_true hsame⟩
        · right
          exact ⟨e', List.mem_append_left _ hfailed⟩
    · intro ip e' hfailed hcap now hnow
      rcases List.mem_append.mp hfailed with hfailed | hfailed
      · apply hlater.cooledAt
        exact h.cooled ip e' hfailed hcap now hnow
      · -- the one that was just joined
        cases List.mem_singleton.mp hfailed
        have hmarked : now < s.clock + PRIORITY_HUNG_COOLDOWN :=
          lt_of_lt_of_le hnow (Nat.add_le_add_right h.window.1 _)
        simp only [markAttempt]
        split
        · exact Sessions.cooledAt_mark (h.known _ hip) hmarked
        · exact Sessions.cooledAt_mark (h.known _ hip) hmarked
    · intro i
      rw [heldSlots, hguards, hnoslot]
      exact h.slots i
    · exact fun x hx => h.unharmed x (hrest x hx)
  · rename_i hpool
    rw [if_neg hpool] at hview hcount
    refine ⟨h.window, h.opens, h.known, ?_, ?_, ?_, ?_, h.pending, h.cooled, ?_, ?_⟩
    · rw [h.inFlight, hcount, Nat.add_zero]
    · exact fun hlaunched x hx => h.poolLater hlaunched x (hrest x hx)
    · exact fun x hx hx' => h.poolLaunched x (hrest x hx) hx'
    · exact (hview.symm.append_right _).trans h.accounted
    · intro i
      rw [hnoslot]
      exact h.slots i
    · exact fun x hx => h.unharmed x (hrest x hx)

/-- A session is returned; a pool session only when every priority attempt has failed. -/
theorem Ready.joinOpened (h : s.Ready me prio) (ha : a ∈ s.set) {live : LivePeerSession}
    (hstate : a.state = .done (.ok live)) :
    After me prio { s with set := s.set.erase a, pc := .returned (some (a.isPriority, live)) }
      (some (a.isPriority, live)) := by
  refine ⟨?_, ?_, ?_, fun hnone => by cases hnone⟩
  · exact fun hlaunched x hx => h.poolLater hlaunched x (List.mem_of_mem_erase hx)
  · intro i
    rw [h.slots i, slotCount_erase ha, Attempt.slot, hstate]
    rfl
  · intro live' heq
    have hpool : a.isPriority = false := by
      simp only [Option.some.injEq, Prod.mk.injEq] at heq
      exact heq.1
    have hnone : prioIps s.set = [] := by
      rw [prioIps, List.map_eq_nil_iff, List.filter_eq_nil_iff]
      intro x hx
      rw [h.poolLater (h.poolLaunched a ha hpool) x hx]
      exact Bool.false_ne_true
    have hall := h.accounted
    rw [hnone, List.nil_append] at hall
    exact hall

/-! ## 5. Every event -/

theorem Inv.update (h : s.Inv me prio) (ha : a ∈ s.set) {state : AttemptState} (hstate : state ≠ .panicked)
    (hlater : s.sessions.Later ss')
    (hslots : ∀ i, heldSlots me ss' i + (if a.slot = some i then 1 else 0) =
      heldSlots me s.sessions i + if { a with state := state }.slot = some i then 1 else 0) :
    Inv me prio { s.proceed a state with sessions := ss' } := by
  unfold Inv at h ⊢
  simp only [proceed]
  rcases hpc : s.pc with ⟨wakeAt, poolOpen⟩ | r
  · rw [hpc] at h
    exact ⟨(h.1.update ha hstate hlater hslots).withPc _, h.2⟩
  · rw [hpc] at h
    exact (h.update ha hlater hslots).withPc _

/-- The slot of an attempt in the set is one we hold. -/
theorem Inv.held (h : s.Inv me prio) (ha : a ∈ s.set) {k : Nat} (hslot : a.slot = some k) :
    0 < heldSlots me s.sessions k := by
  have hcount : 0 < slotCount s.set k := List.countP_pos_iff.mpr ⟨a, ha, decide_eq_true hslot⟩
  unfold Inv at h
  split at h
  · rw [h.1.slots k]
    exact hcount
  · rw [h.slots k]
    exact Nat.lt_of_lt_of_le hcount (Nat.le_add_right _ _)

theorem Inv.poll (h : s.Inv me prio) (ha : a ∈ s.set) (hstate : a.state = .spawned) : (s.poll me a).Inv me prio := by
  have hnone : a.slot = none := by
    rw [Attempt.slot, hstate]
  unfold Select.poll
  split
  · split
    · rename_i tier i hacquire
      apply h.update ha (fun hp => by cases hp)
      · rw [(PriorityTier.tryAcquire_eq_some hacquire).2.2]
        exact Sessions.later_setSessions _ _ _ _
      · intro k
        rw [hnone, if_neg (fun hk => by cases hk), heldSlots, List.countP_cons]
        simp only [decide_eq_true_eq, PrioritySession.mk.injEq, and_true, Attempt.slot, Option.some.injEq]
        rfl
    · apply h.update ha (fun hp => by cases hp) (Sessions.Later.refl _)
      intro k
      rw [hnone]
      rfl
  · apply h.update ha (fun hp => by cases hp) (Sessions.Later.refl _)
    intro k
    rw [hnone]
    rfl

theorem Inv.finish (h : s.Inv me prio) (ha : a ∈ s.set) {slot : Option Nat} (hstate : a.state = .dialing slot)
    (result : Except VetError LivePeerSession) : (s.finish me a slot result).Inv me prio := by
  have hslot : a.slot = slot := by
    rw [Attempt.slot, hstate]
  cases result with
  | ok live =>
    apply h.update ha (fun hp => by cases hp) (Sessions.Later.refl _)
    intro k
    rw [hslot]
    rfl
  | error e =>
    apply h.update ha (fun hp => by cases hp) (Sessions.later_dropSlot s.sessions me slot)
    intro k
    rw [hslot, ← heldSlots_dropSlot (fun i hi => h.held ha (hslot.trans hi)) k]
    rfl

theorem Inv.other (h : s.Inv me prio) {e : TierEvent} (havoids : e.avoids me = true)
    (hstep : s.sessions.step e = some ss') : Inv me prio { s with sessions := ss' } := by
  have hlater := Sessions.later_step hstep
  have hslots := heldSlots_other havoids hstep
  unfold Inv at h ⊢
  rcases hpc : s.pc with ⟨wakeAt, poolOpen⟩ | r
  · rw [hpc] at h
    exact ⟨(h.1.withSessions hlater hslots).withPc _, h.2⟩
  · rw [hpc] at h
    exact (h.withSessions hlater hslots).withPc _

/-- Dropping a task that lost the race releases its slot. -/
theorem After.reap (h : s.After me prio r) (ha : a ∈ s.set)
    (hheld : ∀ k, a.slot = some k → 0 < heldSlots me s.sessions k) :
    After me prio { s with set := s.set.erase a, sessions := s.sessions.dropSlot me a.slot } r := by
  refine ⟨?_, ?_, h.exhausted, ?_⟩
  · exact fun hlaunched x hx => h.poolLater hlaunched x (List.mem_of_mem_erase hx)
  · intro i
    have hi := h.slots i
    rw [heldSlots_dropSlot hheld i, slotCount_erase ha i, Nat.add_right_comm] at hi
    exact Nat.add_right_cancel hi
  · intro hnone ip hprio hcap
    apply (Sessions.later_dropSlot s.sessions me a.slot).cooledAt
    exact h.cooled hnone ip hprio hcap

/-- No attempt panics. -/
def NoPanic (_ : Select) (e : SelectEvent) : Prop := e.panics = false

instance noPanicDecidable (s : Select) (e : SelectEvent) : Decidable (NoPanic s e) :=
  inferInstanceAs (Decidable (e.panics = false))

theorem Inv.step {lz4 : Lz4.Decoder} {args : SelectArgs} {s s' : Select} (h : s.Inv args.me prio)
    {e : SelectEvent} (hcalm : NoPanic s e) (hstep : s.step lz4 args e = some s') : s'.Inv args.me prio := by
  cases e with
  | advance now =>
    unfold Inv at h
    simp only [Select.step] at hstep
    rcases hpc : s.pc with ⟨wakeAt, poolOpen⟩ | r
    · rw [hpc] at h hstep
      simp only at hstep
      split at hstep <;> cases hstep
      rename_i hnow
      obtain ⟨hready, hwake⟩ := h
      unfold Inv
      refine ⟨{ hready with window := ?_ }, hwake⟩
      exact ⟨le_trans hready.window.1 hnow.1, le_trans hnow.2 hwake⟩
    · rw [hpc] at hstep
      cases hstep
  | poll a =>
    simp only [Select.step] at hstep
    split at hstep <;> cases hstep
    rename_i hpoll
    exact h.poll hpoll.1 hpoll.2
  | vet a io input =>
    simp only [Select.step] at hstep
    split at hstep
    · rename_i slot hstate
      split at hstep <;> cases hstep
      rename_i ha
      exact h.finish ha hstate _
    · cases hstep
  | panic a => cases hcalm
  | join a =>
    simp only [Select.step] at hstep
    split at hstep
    · rename_i ha
      unfold Inv at h
      rcases hpc : s.pc with ⟨wakeAt, poolOpen⟩ | r
      · rw [hpc] at h hstep
        rcases hstate : a.state with _ | slot | (e | live) | _
        · rw [hstate] at hstep
          cases hstep
        · rw [hstate] at hstep
          cases hstep
        · rw [hstate] at hstep
          cases hstep
          exact (h.1.joinFailed ha hstate).turn args
        · rw [hstate] at hstep
          cases hstep
          exact h.1.joinOpened ha hstate
        · exact absurd hstate (h.1.unharmed a ha)
      · rw [hpc] at hstep
        cases hstep
    · cases hstep
  | timer =>
    unfold Inv at h
    simp only [Select.step] at hstep
    rcases hpc : s.pc with ⟨wakeAt, poolOpen⟩ | r
    · rw [hpc] at h hstep
      simp only at hstep
      split at hstep <;> cases hstep
      cases poolOpen with
      | true => exact h.1.giveUp
      | false => exact h.1.turn args
    · rw [hpc] at hstep
      cases hstep
  | other e =>
    simp only [Select.step] at hstep
    split at hstep
    · rename_i havoids
      split at hstep <;> cases hstep
      rename_i hsome
      exact h.other havoids hsome
    · cases hstep
  | reap a =>
    simp only [Select.step] at hstep
    rcases hpc : s.pc with ⟨wakeAt, poolOpen⟩ | r
    · rw [hpc] at hstep
      cases hstep
    · rw [hpc] at hstep
      simp only at hstep
      split at hstep <;> cases hstep
      rename_i ha
      have hheld := fun k hk => h.held (k := k) ha hk
      unfold Inv at h ⊢
      rw [hpc] at h
      exact (h.reap ha hheld).withPc _

/-! ## 6. The selection as a whole -/

theorem prioIps_spawned (prio : List String) : prioIps (prio.map fun ip => ⟨ip, true, .spawned⟩) = prio := by
  induction prio with
  | nil => rfl
  | cons ip prio ih =>
    rw [prioIps] at ih ⊢
    rw [List.map_cons, List.filter_cons, if_pos rfl, List.map_cons, ih]

theorem inv_begin (args : SelectArgs) (black : Blacklist) (sessions : Sessions) (started : Nat)
    (hexclusive : sessions.tier.exclusive = true) (husable : sessions.tier.candidatesAt black started ≠ [])
    (hfresh : ∀ g ∈ sessions.guards, g.owner ≠ args.me) :
    (begin args black sessions started).Inv args.me (sessions.tier.candidatesAt black started) := by
  have hprio : (sessions.tier.candidatesAt black started).isEmpty = false := List.isEmpty_eq_false_iff.mpr husable
  unfold begin
  simp only [hprio, hexclusive, Bool.false_eq_true, and_false, if_false, if_true]
  apply Ready.turn
  refine ⟨⟨le_refl _, Nat.le_add_right _ _⟩, rfl, ?_, ?_, ?_, ?_, ?_, ?_, ?_, ?_, ?_⟩
  · intro ip hip
    obtain ⟨k, hk, -⟩ := PriorityTier.mem_candidatesAt.mp hip
    rw [Option.isSome_iff_ne_none]
    intro hnone
    exact PriorityTier.index_eq_none.mp hnone (List.mem_of_getElem? hk)
  · rw [eq_comm, List.countP_map]
    exact List.countP_eq_length.mpr (fun _ _ => rfl)
  · intro hlaunched
    exact absurd hlaunched (Nat.lt_irrefl 0)
  · intro a ha hpool
    obtain ⟨ip, -, rfl⟩ := List.mem_map.mp ha
    cases hpool
  · rw [prioIps_spawned]
    exact List.Perm.of_eq (List.append_nil _)
  · exact fun ip hip => Or.inl hip
  · intro ip e hfailed
    cases hfailed
  · intro i
    have hheld : heldSlots args.me sessions i = 0 := by
      rw [heldSlots, List.countP_eq_zero]
      intro g hg heq
      exact hfresh g hg (congrArg PrioritySession.owner (of_decide_eq_true heq))
    have hset : slotCount ((sessions.tier.candidatesAt black started).map fun ip => ⟨ip, true, .spawned⟩) i = 0 := by
      rw [slotCount, List.countP_eq_zero]
      intro a ha hslot
      obtain ⟨ip, -, rfl⟩ := List.mem_map.mp ha
      cases of_decide_eq_true hslot
    rw [hheld, hset]
  · intro a ha hstate
    obtain ⟨ip, -, rfl⟩ := List.mem_map.mp ha
    cases hstate

end Hypersync.Gateway.Select

namespace Hypersync.Gateway

/-- **An exclusive tier keeps the pool out.**  With a usable priority peer, whatever the
    attempts do and in whatever order: while any priority attempt is in the set no pool
    attempt has been started; a pool session is returned only when every priority attempt
    has failed; of the slots the selection took only the returned session's own stays
    held, the others going with the tasks that are dropped; and when nothing is returned,
    every candidate that was not refused for its cap is cooling down. -/
theorem exclusive_tier_keeps_pool_out (lz4 : Lz4.Decoder) (args : SelectArgs)
    (black : Blacklist) (sessions : Sessions) (started : Nat) (hexclusive : sessions.tier.exclusive = true)
    (husable : sessions.tier.candidatesAt black started ≠ [])
    (hfresh : ∀ g ∈ sessions.guards, g.owner ≠ args.me) (events : List SelectEvent) (s : Select)
    (hrun : Machine.Run (Select.step lz4 args) Select.NoPanic (Select.begin args black sessions started) events s) :
    (0 < s.launched → ∀ a ∈ s.set, a.isPriority = false) ∧
    (∀ live, s.pc = .returned (some (false, live)) →
      (s.failed.map Prod.fst).Perm (sessions.tier.candidatesAt black started)) ∧
    (∀ tier live, s.pc = .returned (some (tier, live)) →
      (∀ i, Select.heldSlots args.me s.sessions i =
        Select.slotCount s.set i + if live.prioSession = some i then 1 else 0) ∧
      (s.set = [] → ∀ i, Select.heldSlots args.me s.sessions i = if live.prioSession = some i then 1 else 0)) ∧
    (s.pc = .returned none → ∀ ip ∈ sessions.tier.candidatesAt black started,
      (ip, .capReached) ∉ s.failed → s.sessions.CooledAt ip s.clock) := by
  have hinv : s.Inv args.me (sessions.tier.candidatesAt black started) := by
    apply hrun.invariant (Select.inv_begin args black sessions started hexclusive husable hfresh)
    intro a e b ha hcalm hstep
    exact ha.step hcalm hstep
  unfold Select.Inv at hinv
  rcases hpc : s.pc with ⟨wakeAt, poolOpen⟩ | r
  · rw [hpc] at hinv
    refine ⟨hinv.1.poolLater, ?_, ?_, ?_⟩
    · intro live h
      cases h
    · intro tier live h
      cases h
    · intro h
      cases h
  · rw [hpc] at hinv
    refine ⟨hinv.poolLater, ?_, ?_, ?_⟩
    · intro live h
      cases h
      exact hinv.exhausted live rfl
    · intro tier live h
      cases h
      refine ⟨hinv.slots, ?_⟩
      intro hempty i
      have hi := hinv.slots i
      rw [hempty, Select.slotCount, List.countP_nil, Nat.zero_add] at hi
      exact hi
    · intro h
      cases h
      exact hinv.cooled rfl

/-- Two priority peers, one slot each: the first refuses the connection, the second
    stays silent until the window closes. -/
def silentEvents : List SelectEvent :=
  [.poll ⟨"198.51.100.1", true, .spawned⟩, .poll ⟨"198.51.100.2", true, .spawned⟩,
    .vet ⟨"198.51.100.1", true, .dialing (some 0)⟩ { connect := some .failed } [],
    .join ⟨"198.51.100.1", true, .done (.error (.vet (.io .failed)))⟩, .advance 3500000000, .timer]

def silentArgs : SelectArgs := ⟨7, ["192.0.2.7"], 0, [], 0, 0⟩

def silentTier : Sessions := Sessions.start ["198.51.100.1", "198.51.100.2"] 1 1500000000 true

theorem silent_isSome : (Machine.exec (Select.step Protocol.decompressSizePrepended silentArgs) Select.NoPanic
    (Select.begin silentArgs {} silentTier 0) silentEvents).isSome = true := by
  decide

def silentSelect : Select :=
  (Machine.exec (Select.step Protocol.decompressSizePrepended silentArgs) Select.NoPanic
    (Select.begin silentArgs {} silentTier 0) silentEvents).get silent_isSome

theorem exclusive_tier_keeps_pool_out_silentSelect :
    silentSelect.launched = 0 ∧ silentSelect.pc = .returned none ∧ silentSelect.clock = 3500000000 ∧
    ∀ ip ∈ ["198.51.100.1", "198.51.100.2"], silentSelect.sessions.CooledAt ip 3500000000 := by
  have hpc : silentSelect.pc = .returned none := rfl
  have hclock : silentSelect.clock = 3500000000 := by decide
  have hall := exclusive_tier_keeps_pool_out Protocol.decompressSizePrepended silentArgs {} silentTier 0 (by decide)
    (by decide) (fun g hg => by cases hg) silentEvents silentSelect
    (Machine.Run.of_exec (Option.some_get silent_isSome).symm)
  refine ⟨by decide, hpc, hclock, ?_⟩
  intro ip hip
  rw [← hclock]
  apply hall.2.2.2 hpc ip hip
  have hfailed : silentSelect.failed = [("198.51.100.1", .vet (.io .failed))] := by decide
  rw [hfailed]
  simp

end Hypersync.Gateway
