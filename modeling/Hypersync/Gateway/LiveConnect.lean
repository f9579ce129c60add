import Hypersync.Gateway.BootstrapSweep
import Hypersync.Gateway.ExclusiveTier

/-!
# A live connection within the node's patience

A node that greets on 4001 waits about five seconds for an answer.  The gateway gives
live selection most of them; when no peer passes, `race_fallback_upstream` dials the
first few candidates at once, without vetting, and takes the first that answers the
greeting.

A dial to a priority peer holds one of its slots.  The slot of the winner goes to the
session, every other one is released when its task is dropped, and a priority peer that
failed is cooled down.
-/

namespace Hypersync.Gateway

/-! ## 1. The race -/

def NODE_LIVE_CONNECT_DEADLINE : Nat := 5000000000

def FALLBACK_WAIT : Nat := NODE_LIVE_CONNECT_DEADLINE - LIVE_SELECT_WAIT - 200000000

def FALLBACK_MAX_PARALLEL : Nat := 8

def tieredPeers (tier : PriorityTier) (black : Blacklist) (now : Nat) (pool : List String) (start : Nat) : List String :=
  let prio := tier.candidatesAt black now
  if tier.exclusive ∧ !prio.isEmpty then prio else orderedCandidates black prio pool start

/-- A task of the race: dialing, over with the greeting and the bytes behind it, or dead. -/
inductive DialState where
  | dialing
  | done (result : Except VetError (List UInt8 × List UInt8))
  | panicked
deriving DecidableEq

structure FallbackDial where
  ip : String
  slot : Option Nat
  state : DialState := .dialing
deriving DecidableEq

/-- The slot that goes when the task, or what it has returned, is dropped. -/
def FallbackDial.held (d : FallbackDial) : Option Nat :=
  match d.state with
  | .panicked => none
  | _ => d.slot

inductive FallbackPc where
  | waiting
  | returned (won : Option FallbackDial)
deriving DecidableEq

/-- `failed` records the priority peers joined with an error. -/
structure FallbackRace where
  sessions : Sessions
  clock : Nat
  deadline : Nat
  set : List FallbackDial
  pc : FallbackPc := .waiting
  failed : List String := []

inductive FallbackEvent where
  | advance (now : Nat)
  | answered (d : FallbackDial) (io : VetIo) (input : List UInt8)
  | panic (d : FallbackDial)
  | join (d : FallbackDial)
  | timer
  | other (e : TierEvent)
  | reap (d : FallbackDial)

namespace FallbackRace

/-- The loop that starts the dials: a priority peer needs a free slot. -/
def spawnAll (me : Nat) : List String → Sessions → List FallbackDial × Sessions
  | [], ss => ([], ss)
  | ip :: rest, ss =>
    if ss.tier.contains ip then
      match ss.tier.tryAcquire ip with
      | none => spawnAll me rest ss
      | some (tier, i) =>
        let out := spawnAll me rest { ss with tier := tier, guards := ⟨i, me⟩ :: ss.guards }
        (⟨ip, some i, .dialing⟩ :: out.1, out.2)
    else
      let out := spawnAll me rest ss
      (⟨ip, none, .dialing⟩ :: out.1, out.2)

/-- `join_next` of an empty set ends the loop. -/
def settle (s : FallbackRace) : FallbackRace := if s.set.isEmpty then { s with pc := .returned none } else s

/-- `race_fallback_upstream` up to its first await. -/
def begin (me : Nat) (ss : Sessions) (candidates : List String) (now wait : Nat) : FallbackRace :=
  let out := spawnAll me (candidates.take FALLBACK_MAX_PARALLEL) ss
  settle { sessions := out.2, clock := now, deadline := now + wait, set := out.1 }

/-- A task of the set goes on. -/
def proceed (s : FallbackRace) (d : FallbackDial) (state : DialState) : FallbackRace :=
  { s with set := Bag.replace s.set d { d with state := state } }

/-- A task that is joined without a connection: a priority peer that failed is cooled down,
    and its slot released. -/
def joinFailed (me : Nat) (s : FallbackRace) (d : FallbackDial) : FallbackRace :=
  if s.sessions.tier.contains d.ip then
    settle { s with
      set := s.set.erase d
      sessions := (s.sessions.mark ⟨d.ip, false, s.clock⟩).dropSlot me d.slot
      failed := s.failed ++ [d.ip] }
  else settle { s with set := s.set.erase d, sessions := s.sessions.dropSlot me d.slot }

def step (me : Nat) (greet : List UInt8) (s : FallbackRace) : FallbackEvent → Option FallbackRace
  | .advance now =>
    if s.pc = .waiting ∧ s.clock ≤ now ∧ now ≤ s.deadline then some { s with clock := now } else none
  | .answered d io input =>
    if d ∈ s.set ∧ d.state = .dialing then some (s.proceed d (.done (connectAndGreet4001 io greet input))) else none
  | .panic d =>
    if d ∈ s.set ∧ d.state = .dialing then
      some { s.proceed d .panicked with sessions := s.sessions.dropSlot me d.slot }
    else none
  | .join d =>
    if d ∈ s.set ∧ s.pc = .waiting then
      match d.state with
      | .dialing => none
      | .done (.ok _) => some { s with set := s.set.erase d, pc := .returned (some d) }
      | .done (.error _) => some (s.joinFailed me d)
      | .panicked => some (settle { s with set := s.set.erase d })
    else none
  | .timer => if s.pc = .waiting ∧ s.deadline ≤ s.clock then some { s with pc := .returned none } else none
  | .other e =>
    if e.avoids me then (s.sessions.step e).map fun sessions => { s with sessions := sessions } else none
  | .reap d =>
    if d ∈ s.set ∧ s.pc ≠ .waiting then
      some { s with set := s.set.erase d, sessions := s.sessions.dropSlot me d.held }
    else none

/-! ## 2. What a step does -/

variable {me : Nat} {greet : List UInt8} {s t : FallbackRace} {e : FallbackEvent}

inductive Stepped (me : Nat) (greet : List UInt8) (s : FallbackRace) : FallbackEvent → FallbackRace → Prop
  | advance (now : Nat) (hpc : s.pc = .waiting) (hle : s.clock ≤ now) (hdeadline : now ≤ s.deadline) :
      Stepped me greet s (.advance now) { s with clock := now }
  | answered (d : FallbackDial) (io : VetIo) (input : List UInt8) (hd : d ∈ s.set) (hstate : d.state = .dialing) :
      Stepped me greet s (.answered d io input) (s.proceed d (.done (connectAndGreet4001 io greet input)))
  | panic (d : FallbackDial) (hd : d ∈ s.set) (hstate : d.state = .dialing) :
      Stepped me greet s (.panic d) { s.proceed d .panicked with sessions := s.sessions.dropSlot me d.slot }
  | won (d : FallbackDial) (conn : List UInt8 × List UInt8) (hd : d ∈ s.set) (hpc : s.pc = .waiting)
      (hstate : d.state = .done (.ok conn)) :
      Stepped me greet s (.join d) { s with set := s.set.erase d, pc := .returned (some d) }
  | failed (d : FallbackDial) (err : VetError) (hd : d ∈ s.set) (hpc : s.pc = .waiting)
      (hstate : d.state = .done (.error err)) : Stepped me greet s (.join d) (s.joinFailed me d)
  | died (d : FallbackDial) (hd : d ∈ s.set) (hpc : s.pc = .waiting) (hstate : d.state = .panicked) :
      Stepped me greet s (.join d) (settle { s with set := s.set.erase d })
  | timer (hpc : s.pc = .waiting) : Stepped me greet s .timer { s with pc := .returned none }
  | other (e : TierEvent) (sessions : Sessions) (havoids : e.avoids me = true)
      (htier : s.sessions.step e = some sessions) : Stepped me greet s (.other e) { s with sessions := sessions }
  | reap (d : FallbackDial) (hd : d ∈ s.set) (hpc : s.pc ≠ .waiting) :
      Stepped me greet s (.reap d) { s with set := s.set.erase d, sessions := s.sessions.dropSlot me d.held }

theorem step_eq_some (h : step me greet s e = some t) : Stepped me greet s e t := by
  cases e with
  | advance now =>
    obtain ⟨hok, ⟨⟩⟩ := Option.ite_none_right_eq_some.mp h
    exact .advance now hok.1 hok.2.1 hok.2.2
  | answered d io input =>
    obtain ⟨hok, ⟨⟩⟩ := Option.ite_none_right_eq_some.mp h
    exact .answered d io input hok.1 hok.2
  | panic d =>
    obtain ⟨hok, ⟨⟩⟩ := Option.ite_none_right_eq_some.mp h
    exact .panic d hok.1 hok.2
  | join d =>
    obtain ⟨hok, h⟩ := Option.ite_none_right_eq_some.mp h
    split at h
    · cases h
    · rename_i conn hstate
      cases h
      exact .won d conn hok.1 hok.2 hstate
    · rename_i err hstate
      cases h
      exact .failed d err hok.1 hok.2 hstate
    · rename_i hstate
      cases h
      exact .died d hok.1 hok.2 hstate
  | timer =>
    obtain ⟨hok, ⟨⟩⟩ := Option.ite_none_right_eq_some.mp h
    exact .timer hok.1
  | other e =>
    obtain ⟨havoids, h⟩ := Option.ite_none_right_eq_some.mp h
    obtain ⟨sessions, htier, rfl⟩ := Option.map_eq_some_iff.mp h
    exact .other e sessions havoids htier
  | reap d =>
    obtain ⟨hok, ⟨⟩⟩ := Option.ite_none_right_eq_some.mp h
    exact .reap d hok.1 hok.2

/-! ## 3. Slots -/

/-- The tasks of a set that hold the slot of the peer at `i`. -/
def heldBy (set : List FallbackDial) (i : Nat) : Nat := set.countP fun d => d.held = some i

/-- Whether the slot of the peer at `i` was handed over. -/
def handedOver (i : Nat) : FallbackPc → Nat
  | .returned (some d) => if d.held = some i then 1 else 0
  | _ => 0

/-- Every slot taken is in the set or was handed over. -/
def SlotsInv (me : Nat) (s : FallbackRace) : Prop :=
  ∀ i, Select.heldSlots me s.sessions i = heldBy s.set i + handedOver i s.pc

theorem heldBy_cons (d : FallbackDial) (set : List FallbackDial) (i : Nat) :
    heldBy (d :: set) i = heldBy set i + if d.held = some i then 1 else 0 := by
  rw [heldBy, List.countP_cons, heldBy]
  simp only [decide_eq_true_eq]

theorem heldBy_erase {set : List FallbackDial} {d : FallbackDial} (hd : d ∈ set) (i : Nat) :
    heldBy set i = heldBy (set.erase d) i + if d.held = some i then 1 else 0 := by
  rw [heldBy, Bag.countP_erase_add _ hd, heldBy]
  simp only [decide_eq_true_eq]

theorem heldBy_replace {set : List FallbackDial} {d : FallbackDial} (d' : FallbackDial) (hd : d ∈ set) (i : Nat) :
    heldBy (Bag.replace set d d') i + (if d.held = some i then 1 else 0) =
      heldBy set i + if d'.held = some i then 1 else 0 := by
  have hcount := Bag.countP_replace_add (fun d : FallbackDial => d.held = some i) hd d'
  simp only [decide_eq_true_eq] at hcount
  exact hcount

theorem heldSlots_cons {ss : Sessions} {tier : PriorityTier} {k : Nat} (i : Nat) :
    Select.heldSlots me { ss with tier := tier, guards := ⟨k, me⟩ :: ss.guards } i =
      Select.heldSlots me ss i + if some k = some i then 1 else 0 := by
  rw [Select.heldSlots, List.countP_cons, Select.heldSlots]
  simp only [decide_eq_true_eq, PrioritySession.mk.injEq, and_true, Option.some.injEq]

theorem heldSlots_spawnAll : ∀ (ips : List String) (ss : Sessions) (i : Nat),
    Select.heldSlots me (spawnAll me ips ss).2 i = Select.heldSlots me ss i + heldBy (spawnAll me ips ss).1 i := by
  intro ips
  induction ips with
  | nil =>
    intro ss i
    rfl
  | cons ip ips ih =>
    intro ss i
    rw [spawnAll]
    split
    · split
      · exact ih ss i
      · rename_i tier k _
        have hheld : (⟨ip, some k, .dialing⟩ : FallbackDial).held = some k := rfl
        rw [ih, heldSlots_cons, heldBy_cons, hheld]
        omega
    · have hnone : (⟨ip, none, .dialing⟩ : FallbackDial).held = none := rfl
      rw [ih, heldBy_cons, hnone, if_neg (fun hsome : none = some i => by cases hsome), Nat.add_zero]

/-- The end of the loop with nobody there changes no slot. -/
theorem SlotsInv.settle (h : s.SlotsInv me) (hpc : s.pc = .waiting) : (settle s).SlotsInv me := by
  unfold FallbackRace.settle
  split
  · intro i
    have hi := h i
    rw [hpc] at hi
    exact hi
  · exact h

theorem SlotsInv.held (h : s.SlotsInv me) {d : FallbackDial} (hd : d ∈ s.set) {k : Nat} (hk : d.held = some k) :
    0 < Select.heldSlots me s.sessions k := by
  have hpos : 0 < heldBy s.set k := List.countP_pos_iff.mpr ⟨d, hd, decide_eq_true hk⟩
  rw [h k]
  omega

/-- A task leaves the set and its slot is dropped. -/
theorem SlotsInv.drop (h : s.SlotsInv me) {d : FallbackDial} (hd : d ∈ s.set) :
    SlotsInv me { s with set := s.set.erase d, sessions := s.sessions.dropSlot me d.held } := by
  intro i
  have hi := h i
  rw [Select.heldSlots_dropSlot (fun k hk => h.held hd hk) i, heldBy_erase hd i] at hi
  simp only
  omega

/-- Marks are not slots. -/
theorem SlotsInv.frame {sessions : Sessions} (h : s.SlotsInv me) (hset : t.set = s.set) (hpc : t.pc = s.pc)
    (hsessions : t.sessions = sessions)
    (hheld : ∀ i, Select.heldSlots me sessions i = Select.heldSlots me s.sessions i) : t.SlotsInv me := by
  intro i
  rw [hsessions, hheld i, hset, hpc]
  exact h i

theorem SlotsInv.step (h : s.SlotsInv me) (hs : step me greet s e = some t) : t.SlotsInv me := by
  cases step_eq_some hs with
  | advance now hpc hle hdeadline => exact h
  | answered d io input hd hstate =>
    intro i
    have hi := h i
    have hheld : ({ d with state := .done (connectAndGreet4001 io greet input) } : FallbackDial).held = d.held := by
      simp only [FallbackDial.held, hstate]
    have hset := heldBy_replace { d with state := .done (connectAndGreet4001 io greet input) } hd i
    rw [hheld] at hset
    simp only [proceed]
    omega
  | panic d hd hstate =>
    intro i
    have hi := h i
    have hheld : d.held = d.slot := by rw [FallbackDial.held, hstate]
    have hnone : ({ d with state := .panicked } : FallbackDial).held = none := rfl
    have hset := heldBy_replace { d with state := .panicked } hd i
    rw [Select.heldSlots_dropSlot (fun k hk => h.held hd (hheld.trans hk)) i] at hi
    rw [hheld, hnone, if_neg (fun hsome : none = some i => by cases hsome)] at hset
    simp only [proceed]
    omega
  | won d conn hd hpc hstate =>
    intro i
    have hi := h i
    rw [heldBy_erase hd i, hpc] at hi
    exact hi
  | failed d err hd hpc hstate =>
    have hheld : d.held = d.slot := by rw [FallbackDial.held, hstate]
    have hdrop := h.drop hd
    rw [hheld] at hdrop
    unfold joinFailed
    split
    · refine SlotsInv.settle (hdrop.frame rfl rfl rfl fun i => ?_) hpc
      cases d.slot with
      | none => rfl
      | some k => rfl
    · exact SlotsInv.settle hdrop hpc
  | died d hd hpc hstate =>
    have hnone : d.held = none := by rw [FallbackDial.held, hstate]
    have hdrop := h.drop hd
    rw [hnone] at hdrop
    exact SlotsInv.settle hdrop hpc
  | timer hpc =>
    intro i
    have hi := h i
    rw [hpc] at hi
    exact hi
  | other e sessions havoids htier => exact h.frame rfl rfl rfl fun i => Select.heldSlots_other havoids htier i
  | reap d hd hpc => exact h.drop hd

/-! ## 4. Who is dialed and who wins -/

/-- A dial of the race: to one of the peers offered, with a slot if it is a priority peer. -/
structure Dialed (greet : List UInt8) (offered : List String) (tier : PriorityTier) (d : FallbackDial) : Prop where
  mem : d.ip ∈ offered
  slot : d.slot = tier.index d.ip
  done : ∀ r, d.state = .done r → ∃ io input, r = connectAndGreet4001 io greet input

structure Inv (greet : List UInt8) (offered : List String) (ss : Sessions) (started wait : Nat) (s : FallbackRace) :
    Prop where
  deadline_eq : s.deadline = started + wait
  started_le : started ≤ s.clock
  clock_le : s.clock ≤ s.deadline
  later : ss.Later s.sessions
  few : s.set.length ≤ FALLBACK_MAX_PARALLEL
  dials : ∀ d ∈ s.set, Dialed greet offered ss.tier d
  won : ∀ w, s.pc = .returned (some w) → Dialed greet offered ss.tier w ∧ ∃ conn, w.state = .done (.ok conn)
  cooled : ∀ ip ∈ s.failed, ∀ now < started + PRIORITY_COOLDOWN, s.sessions.CooledAt ip now

variable {offered : List String} {ss : Sessions} {started wait : Nat}

theorem later_spawnAll : ∀ (ips : List String) (ss : Sessions), ss.Later (spawnAll me ips ss).2 := by
  intro ips
  induction ips with
  | nil => exact Sessions.Later.refl
  | cons ip ips ih =>
    intro ss
    rw [spawnAll]
    split
    · split
      · exact ih ss
      · rename_i tier k hacquire
        obtain ⟨-, -, rfl⟩ := PriorityTier.tryAcquire_eq_some hacquire
        exact (Sessions.later_setSessions ss _ _ _).trans (ih _)
    · exact ih ss

theorem length_spawnAll : ∀ (ips : List String) (ss : Sessions), (spawnAll me ips ss).1.length ≤ ips.length := by
  intro ips
  induction ips with
  | nil => exact fun _ => Nat.le_refl 0
  | cons ip ips ih =>
    intro ss
    rw [spawnAll]
    split
    · split
      · exact Nat.le_succ_of_le (ih ss)
      · exact Nat.succ_le_succ (ih _)
    · exact Nat.succ_le_succ (ih ss)

theorem dialed_spawnAll (greet : List UInt8) : ∀ (ips : List String) (ss : Sessions),
    ∀ d ∈ (spawnAll me ips ss).1, Dialed greet ips ss.tier d := by
  intro ips
  induction ips with
  | nil => exact fun _ _ hd => absurd hd List.not_mem_nil
  | cons ip ips ih =>
    intro ss d hd
    have hrest {ss' : Sessions} (hlater : ss.Later ss') (hd : d ∈ (spawnAll me ips ss').1) :
        Dialed greet (ip :: ips) ss.tier d := by
      obtain ⟨hmem, hslot, hdone⟩ := ih ss' d hd
      exact ⟨List.mem_cons_of_mem _ hmem, hslot.trans (hlater.index d.ip), hdone⟩
    rw [spawnAll] at hd
    split at hd
    · split at hd
      · exact hrest (Sessions.Later.refl ss) hd
      · rename_i tier k hacquire
        obtain ⟨hindex, -, rfl⟩ := PriorityTier.tryAcquire_eq_some hacquire
        rcases List.mem_cons.mp hd with rfl | hd
        · exact ⟨List.mem_cons_self, hindex.symm, fun r hr => by cases hr⟩
        · exact hrest (Sessions.later_setSessions ss _ _ _) hd
    · rename_i hpool
      rcases List.mem_cons.mp hd with rfl | hd
      · have hindex : ss.tier.index ip = none := by
          rw [← Option.not_isSome_iff_eq_none]
          exact hpool
        exact ⟨List.mem_cons_self, hindex.symm, fun r hr => by cases hr⟩
      · exact hrest (Sessions.Later.refl ss) hd

theorem Inv.settle (h : Inv greet offered ss started wait s) : Inv greet offered ss started wait (settle s) := by
  unfold FallbackRace.settle
  split
  · exact { h with won := (fun w hw => by cases hw) }
  · exact h

theorem inv_begin (me : Nat) (greet : List UInt8) (ss : Sessions) (candidates : List String) (now wait : Nat) :
    Inv greet (candidates.take FALLBACK_MAX_PARALLEL) ss now wait (begin me ss candidates now wait) := by
  refine Inv.settle ⟨rfl, Nat.le_refl _, Nat.le_add_right _ _, later_spawnAll _ _, ?_, dialed_spawnAll greet _ _,
    (fun w hw => by cases hw), fun ip hip => absurd hip List.not_mem_nil⟩
  exact Nat.le_trans (length_spawnAll _ _) (List.length_take_le _ _)

/-- A peer that failed is left alone for the whole cooldown. -/
theorem cooledAt_mark_failed {ip : String} {at_ now : Nat} (hknown : (ss.tier.index ip).isSome = true)
    (hnow : now < at_ + PRIORITY_COOLDOWN) : (ss.mark ⟨ip, false, at_⟩).CooledAt ip now := by
  obtain ⟨i, hi⟩ := Option.isSome_iff_exists.mp hknown
  refine ⟨i, ((Sessions.later_mark ss _).index ip).trans hi, ?_⟩
  by_contra hnot
  rw [Bool.not_eq_true, Sessions.mark, Sessions.mark_eq_coolUntil, PriorityTier.cooling_coolUntil] at hnot
  exact absurd (hnot.2 hi) (Nat.not_le.mpr hnow)

/-- Nothing but the set, the tier and who failed changes. -/
theorem Inv.update {set : List FallbackDial} {sessions : Sessions} {failed : List String}
    (h : Inv greet offered ss started wait s) (hlater : s.sessions.Later sessions)
    (hset : ∀ d ∈ set, Dialed greet offered ss.tier d) (hlen : set.length ≤ s.set.length)
    (hcooled : ∀ ip ∈ failed, ∀ now < started + PRIORITY_COOLDOWN, sessions.CooledAt ip now) :
    Inv greet offered ss started wait { s with set := set, sessions := sessions, failed := failed } :=
  { h with later := h.later.trans hlater, few := Nat.le_trans hlen h.few, dials := hset, cooled := hcooled }

theorem Inv.erase (h : Inv greet offered ss started wait s) (d : FallbackDial) {sessions : Sessions}
    (hlater : s.sessions.Later sessions) :
    Inv greet offered ss started wait { s with set := s.set.erase d, sessions := sessions } :=
  h.update hlater (fun x hx => h.dials x (List.mem_of_mem_erase hx)) (List.length_erase_le)
    fun ip hip now hnow => hlater.cooledAt (h.cooled ip hip now hnow)

theorem Inv.proceed (h : Inv greet offered ss started wait s) {d : FallbackDial} (hd : d ∈ s.set) {state : DialState}
    {sessions : Sessions} (hlater : s.sessions.Later sessions)
    (hdone : ∀ r, state = .done r → ∃ io input, r = connectAndGreet4001 io greet input) :
    Inv greet offered ss started wait { s.proceed d state with sessions := sessions } := by
  refine h.update hlater ?_ ?_ fun ip hip now hnow => hlater.cooledAt (h.cooled ip hip now hnow)
  · intro x hx
    rcases Bag.mem_replace hx with rfl | hx
    · exact ⟨(h.dials d hd).mem, (h.dials d hd).slot, hdone⟩
    · exact h.dials x hx
  · exact Nat.le_of_eq (Bag.length_replace hd _)

theorem Inv.step (h : Inv greet offered ss started wait s) (hs : step me greet s e = some t) :
    Inv greet offered ss started wait t := by
  cases step_eq_some hs with
  | advance now hpc hle hdeadline =>
    exact { h with started_le := Nat.le_trans h.started_le hle, clock_le := hdeadline }
  | answered d io input hd hstate =>
    exact h.proceed hd (Sessions.Later.refl _) fun r hr => ⟨io, input, (DialState.done.inj hr).symm⟩
  | panic d hd hstate => exact h.proceed hd (Sessions.later_dropSlot _ _ _) fun r hr => by cases hr
  | won d conn hd hpc hstate =>
    have herase := h.erase d (Sessions.Later.refl s.sessions)
    refine { herase with won := ?_ }
    intro w hw
    obtain rfl := Option.some.inj (FallbackPc.returned.inj hw)
    exact ⟨h.dials d hd, conn, hstate⟩
  | failed d err hd hpc hstate =>
    unfold joinFailed
    split
    · rename_i hprio
      have hlater := (Sessions.later_mark s.sessions ⟨d.ip, false, s.clock⟩).trans
        (Sessions.later_dropSlot _ me d.slot)
      refine (h.update hlater (fun x hx => h.dials x (List.mem_of_mem_erase hx)) List.length_erase_le ?_).settle
      intro ip hip now hnow
      rcases List.mem_append.mp hip with hip | hip
      · exact hlater.cooledAt (h.cooled ip hip now hnow)
      · rw [List.mem_singleton.mp hip]
        refine (Sessions.later_dropSlot _ me d.slot).cooledAt (cooledAt_mark_failed hprio ?_)
        exact Nat.lt_of_lt_of_le hnow (Nat.add_le_add_right h.started_le _)
    · exact (h.erase d (Sessions.later_dropSlot _ _ _)).settle
  | died d hd hpc hstate => exact (h.erase d (Sessions.Later.refl _)).settle
  | timer hpc =>
    exact { h with won := (fun w hw => by cases hw) }
  | other e sessions havoids htier =>
    have hlater := Sessions.later_step htier
    exact h.update hlater h.dials (Nat.le_refl _) fun ip hip now hnow => hlater.cooledAt (h.cooled ip hip now hnow)
  | reap d hd hpc => exact h.erase d (Sessions.later_dropSlot _ _ _)

/-- At the deadline the race is over. -/
theorem timer_returns (greet : List UInt8) (hpc : s.pc = .waiting) (hclock : s.deadline ≤ s.clock) :
    ∃ t, step me greet s .timer = some t ∧ t.pc = .returned none :=
  ⟨_, if_pos ⟨hpc, hclock⟩, rfl⟩

end FallbackRace

/-! ## 5. The window of live selection -/

namespace Select

/-- A selection never waits past its window. -/
structure Timed (started : Nat) (s : Select) : Prop where
  started_eq : s.started = started
  clock_le : s.clock ≤ s.deadline
  wake_le : ∀ wakeAt poolOpen, s.pc = .waiting wakeAt poolOpen → wakeAt ≤ s.deadline

variable {s t : Select} {started : Nat} {args : SelectArgs} {lz4 : Lz4.Decoder} {e : SelectEvent}

theorem launchPool_time (args : SelectArgs) : ∀ (slots : Nat) (s : Select),
    (s.launchPool args slots).started = s.started ∧ (s.launchPool args slots).clock = s.clock := by
  intro slots
  induction slots with
  | zero => exact fun _ => ⟨rfl, rfl⟩
  | succ slots ih =>
    intro s
    rw [launchPool]
    split
    · exact ih _
    · exact ⟨rfl, rfl⟩

theorem deadline_launchPool (args : SelectArgs) (slots : Nat) (s : Select) :
    (s.launchPool args slots).deadline = s.deadline := by
  rw [deadline, (launchPool_time args slots s).1, deadline]

/-- With no time left an await is the end. -/
theorem returned_await (s : Select) (poolOpen : Bool) (hclock : s.deadline ≤ s.clock) :
    ∃ r, (s.await poolOpen).pc = .returned r := by
  rw [await, if_pos (Or.inr (Nat.sub_eq_zero_of_le hclock))]
  exact ⟨none, rfl⟩

theorem Timed.await (hstarted : s.started = started) (hclock : s.clock ≤ s.deadline) (poolOpen : Bool) :
    (s.await poolOpen).Timed started := by
  rw [Select.await]
  split
  · exact ⟨hstarted, hclock, fun _ _ hpc => by cases hpc⟩
  · refine ⟨hstarted, hclock, ?_⟩
    intro wakeAt p hpc
    obtain ⟨rfl, -⟩ := SelectPc.waiting.inj hpc
    have hwake : (if poolOpen then s.deadline - s.clock else min (s.poolOpens - s.clock) (s.deadline - s.clock)) ≤
        s.deadline - s.clock := by
      split
      · exact Nat.le_refl _
      · exact Nat.min_le_right _ _
    change s.clock + _ ≤ s.deadline
    omega

theorem Timed.turn (args : SelectArgs) (hstarted : s.started = started) (hclock : s.clock ≤ s.deadline) :
    (s.turn args).Timed started := by
  rw [Select.turn]
  split
  · obtain ⟨hs, hc⟩ := launchPool_time args (LIVE_SELECT_MAX_PARALLEL - s.poolInFlight) s
    refine Timed.await (hs.trans hstarted) ?_ true
    rw [deadline_launchPool, hc]
    exact hclock
  · exact Timed.await hstarted hclock false

theorem timed_begin (args : SelectArgs) (black : Blacklist) (sessions : Sessions) (started : Nat) :
    (begin args black sessions started).Timed started := by
  unfold begin
  simp only
  split
  · exact ⟨rfl, Nat.le_add_right _ _, fun _ _ hpc => by cases hpc⟩
  · exact Timed.turn args rfl (Nat.le_add_right _ _)

theorem joinFailed_time (s : Select) (a : Attempt) (err : AttemptError) :
    (s.joinFailed a err).started = s.started ∧ (s.joinFailed a err).clock = s.clock := by
  unfold joinFailed
  split
  · exact ⟨rfl, rfl⟩
  · exact ⟨rfl, rfl⟩

theorem Timed.step (h : s.Timed started) (hs : step lz4 args s e = some t) : t.Timed started := by
  cases e with
  | advance now =>
    simp only [Select.step] at hs
    split at hs
    · rename_i wakeAt poolOpen hpc
      split at hs <;> cases hs
      rename_i hnow
      exact { h with clock_le := Nat.le_trans hnow.2 (h.wake_le _ _ hpc) }
    · cases hs
  | poll a =>
    simp only [Select.step] at hs
    split at hs <;> cases hs
    unfold poll
    split
    · split
      · exact { h with }
      · exact { h with }
    · exact { h with }
  | vet a io input =>
    simp only [Select.step] at hs
    split at hs
    · rename_i slot hstate
      split at hs <;> cases hs
      unfold finish
      split
      · exact { h with }
      · exact { h with }
    · cases hs
  | panic a =>
    simp only [Select.step] at hs
    split at hs
    · split at hs <;> cases hs
      exact { h with }
    · cases hs
  | join a =>
    simp only [Select.step] at hs
    split at hs
    · split at hs
      · cases hs
        exact { h with wake_le := fun _ _ hpc => by cases hpc }
      · rename_i err _ _
        cases hs
        obtain ⟨hstarted, hclock⟩ := joinFailed_time s a err
        refine Timed.turn args (hstarted.trans h.started_eq) ?_
        rw [deadline, hstarted, hclock]
        exact h.clock_le
      · cases hs
        exact Timed.turn args h.started_eq h.clock_le
      · cases hs
    · cases hs
  | timer =>
    simp only [Select.step] at hs
    split at hs
    · split at hs <;> cases hs
      split
      · exact { h with wake_le := fun _ _ hpc => by cases hpc }
      · exact Timed.turn args h.started_eq h.clock_le
    · cases hs
  | other e =>
    simp only [Select.step] at hs
    split at hs
    · split at hs <;> cases hs
      exact { h with }
    · cases hs
  | reap a =>
    simp only [Select.step] at hs
    split at hs
    · split at hs <;> cases hs
      exact { h with }
    · cases hs

/-- At the end of the window the timer ends the selection. -/
theorem Timed.timer_returns (h : s.Timed started) (lz4 : Lz4.Decoder) (args : SelectArgs)
    {wakeAt : Nat} {poolOpen : Bool} (hpc : s.pc = .waiting wakeAt poolOpen) (hclock : s.deadline ≤ s.clock) :
    ∃ t r, Select.step lz4 args s .timer = some t ∧ t.pc = .returned r := by
  have hwake : wakeAt ≤ s.clock := Nat.le_trans (h.wake_le _ _ hpc) hclock
  simp only [Select.step, hpc, if_pos hwake]
  cases poolOpen with
  | true => exact ⟨_, none, rfl, rfl⟩
  | false =>
    simp only [Bool.false_eq_true, if_false, Option.some.injEq]
    unfold Select.turn
    split
    · obtain ⟨r, hr⟩ := returned_await (s.launchPool args (LIVE_SELECT_MAX_PARALLEL - s.poolInFlight)) true
        (by rw [deadline_launchPool, (launchPool_time args _ s).2]; exact hclock)
      exact ⟨_, r, rfl, hr⟩
    · obtain ⟨r, hr⟩ := returned_await s false hclock
      exact ⟨_, r, rfl, hr⟩

end Select

/-! ## 6. Every run -/

/-- A connection is handed over only with a greeting that accepts. -/
theorem not_peerFull_of_greet {io : VetIo} {greet input greeting rest : List UInt8}
    (h : connectAndGreet4001 io greet input = .ok (greeting, rest)) : responseIsPeerFull greeting = false := by
  unfold connectAndGreet4001 at h
  split at h
  · cases h
  split at h
  · cases h
  split at h
  · cases h
  split at h
  · cases h
  · rename_i hfull
    obtain ⟨rfl, -⟩ := Prod.mk.inj (Except.ok.inj h)
    exact Bool.not_eq_true _ ▸ hfull

/-- While an exclusive tier has a usable peer, whoever is offered has a place in the tier. -/
theorem isSome_index_of_tieredPeers {tier tier' : PriorityTier} {black : Blacklist} {at_ start : Nat}
    {pool : List String} {ip : String} (hpeers : tier'.peers = tier.peers) (hexclusive : tier'.exclusive = true)
    (husable : tier'.candidatesAt black at_ ≠ []) (hip : ip ∈ tieredPeers tier' black at_ pool start) :
    (tier.index ip).isSome = true := by
  have hprio : tieredPeers tier' black at_ pool start = tier'.candidatesAt black at_ :=
    if_pos ⟨hexclusive, by simpa using husable⟩
  rw [hprio] at hip
  obtain ⟨k, hk, -⟩ := PriorityTier.mem_candidatesAt.mp hip
  rw [← Option.ne_none_iff_isSome]
  exact fun hnone => PriorityTier.index_eq_none.mp hnone (hpeers ▸ List.mem_of_getElem? hk)

/-- **The fallback race.**  In every run: no more than `FALLBACK_MAX_PARALLEL` of the candidates are
    dialed, a priority peer among them only with its slot, and no pool peer at all where the
    candidates are those of an exclusive tier with a usable peer; the winner is one of them and has
    answered the greeting with something other than "peer full"; the slots taken are those of the
    tasks still in the set and of the winner, so that a finished race holds the winner's slot and
    no other; and a priority peer whose dial was joined with an error is left alone until a
    cooldown after the start of the race. -/
theorem fallback_race_over_runs {me : Nat} {greet : List UInt8} {ss : Sessions} {candidates : List String}
    {now wait : Nat} {ok : FallbackRace → FallbackEvent → Prop} {es : List FallbackEvent} {t : FallbackRace}
    (hnone : ∀ i, Select.heldSlots me ss i = 0)
    (hrun : Machine.Run (FallbackRace.step me greet) ok (FallbackRace.begin me ss candidates now wait) es t) :
    t.set.length ≤ FALLBACK_MAX_PARALLEL ∧
    (∀ d ∈ t.set, d.ip ∈ candidates.take FALLBACK_MAX_PARALLEL ∧ d.slot = ss.tier.index d.ip) ∧
    (∀ (tier : PriorityTier) (black : Blacklist) (at_ start : Nat) (pool : List String),
      tier.peers = ss.tier.peers → tier.exclusive = true → tier.candidatesAt black at_ ≠ [] →
      candidates = tieredPeers tier black at_ pool start →
      (∀ d ∈ t.set, d.slot.isSome = true) ∧ ∀ w, t.pc = .returned (some w) → w.slot.isSome = true) ∧
    (∀ w, t.pc = .returned (some w) →
      w.ip ∈ candidates.take FALLBACK_MAX_PARALLEL ∧ w.slot = ss.tier.index w.ip ∧
      ∃ io input greeting rest, connectAndGreet4001 io greet input = .ok (greeting, rest) ∧
        w.state = .done (.ok (greeting, rest)) ∧ responseIsPeerFull greeting = false) ∧
    (∀ i, Select.heldSlots me t.sessions i = FallbackRace.heldBy t.set i + FallbackRace.handedOver i t.pc) ∧
    (∀ ip ∈ t.failed, ∀ later < now + PRIORITY_COOLDOWN, t.sessions.CooledAt ip later) := by
  have hinv := hrun.invariant (FallbackRace.inv_begin me greet ss candidates now wait) fun _ _ _ h _ hs => h.step hs
  refine ⟨hinv.few, fun d hd => ⟨(hinv.dials d hd).mem, (hinv.dials d hd).slot⟩, ?_, ?_, ?_, hinv.cooled⟩
  · intro tier black at_ start pool hpeers hexclusive husable hcandidates
    have hslot : ∀ d : FallbackDial, FallbackRace.Dialed greet (candidates.take FALLBACK_MAX_PARALLEL) ss.tier d →
        d.slot.isSome = true := by
      intro d hd
      rw [hd.slot]
      exact isSome_index_of_tieredPeers hpeers hexclusive husable (hcandidates ▸ List.mem_of_mem_take hd.mem)
    exact ⟨fun d hd => hslot d (hinv.dials d hd), fun w hw => hslot w (hinv.won w hw).1⟩
  · intro w hw
    obtain ⟨hdialed, ⟨greeting, rest⟩, hstate⟩ := hinv.won w hw
    obtain ⟨io, input, hconn⟩ := hdialed.done _ hstate
    exact ⟨hdialed.mem, hdialed.slot, io, input, greeting, rest, hconn.symm, hstate, not_peerFull_of_greet hconn.symm⟩
  · refine hrun.invariant (I := FallbackRace.SlotsInv me) (FallbackRace.SlotsInv.settle (fun i => ?_) rfl)
      fun _ _ _ h _ hs => h.step hs
    rw [FallbackRace.heldSlots_spawnAll, hnone i]
    exact Nat.add_comm _ _

/-- One priority peer that cannot be reached and one pool peer that answers. -/
def answeredEvents : List FallbackEvent :=
  [.answered ⟨"192.0.2.7", some 0, .dialing⟩ { connect := some .failed } [],
    .join ⟨"192.0.2.7", some 0, .done (.error (.io .failed))⟩,
    .answered ⟨"198.51.100.1", none, .dialing⟩ {} [0, 0, 0, 1, 0, 3],
    .join ⟨"198.51.100.1", none, .done (.ok ([0, 0, 0, 1, 0, 3], []))⟩]

theorem fallback_race_over_runs_answeredEvents :
    ∃ t : FallbackRace, ∃ w, t.pc = .returned (some w) ∧ t.failed = ["192.0.2.7"] ∧ w.slot = none ∧
      (∀ i, Select.heldSlots 0 t.sessions i = FallbackRace.heldBy t.set i + FallbackRace.handedOver i t.pc) ∧
      ∀ later < 0 + PRIORITY_COOLDOWN, t.sessions.CooledAt "192.0.2.7" later := by
  have hexec : (Machine.exec (FallbackRace.step 0 [0, 0, 0, 3, 0, 0, 0, 0]) (fun _ _ => True)
      (FallbackRace.begin 0 (Sessions.start ["192.0.2.7"] 1 0 false) ["192.0.2.7", "198.51.100.1"] 0 FALLBACK_WAIT)
      answeredEvents).map (fun t => (t.pc, t.failed)) =
      some (.returned (some ⟨"198.51.100.1", none, .done (.ok ([0, 0, 0, 1, 0, 3], []))⟩), ["192.0.2.7"]) := by
    decide +kernel
  obtain ⟨t, ht, hout⟩ := Option.map_eq_some_iff.mp hexec
  obtain ⟨hpc, hfailed⟩ := Prod.mk.inj hout
  obtain ⟨-, -, -, -, hslots, hcooled⟩ := fallback_race_over_runs (fun _ => rfl) (Machine.Run.of_exec ht)
  exact ⟨t, _, hpc, hfailed, rfl, hslots, hcooled "192.0.2.7" (hfailed ▸ List.mem_cons_self)⟩

theorem live_windows_sum : LIVE_SELECT_WAIT + FALLBACK_WAIT + 200000000 = NODE_LIVE_CONNECT_DEADLINE := by decide

/-- **A live connection within the node's deadline.**  Live selection has returned by the end of its
    window: its clock never passes it, and a selection that still waits then is ended by its timer.
    When it has found nobody, the fallback race, started where selection stopped, has ended 200 ms
    before the node gives the connection up, in the same sense. -/
theorem live_connect_within_deadline {lz4 : Lz4.Decoder} {args : SelectArgs} {black : Blacklist}
    {ss : Sessions} {accepted : Nat} {okSelect : Select → SelectEvent → Prop} {es : List SelectEvent} {s : Select}
    (hselect : Machine.Run (Select.step lz4 args) okSelect (Select.begin args black ss accepted) es s) :
    (s.clock ≤ accepted + LIVE_SELECT_WAIT ∧
      (accepted + LIVE_SELECT_WAIT ≤ s.clock → ∀ wakeAt poolOpen, s.pc = .waiting wakeAt poolOpen →
        ∃ s' r, Select.step lz4 args s .timer = some s' ∧ s'.pc = .returned r)) ∧
    ∀ (me : Nat) (greet : List UInt8) (ss' : Sessions) (candidates : List String)
      (okRace : FallbackRace → FallbackEvent → Prop) (es' : List FallbackEvent) (f : FallbackRace),
      Machine.Run (FallbackRace.step me greet) okRace
        (FallbackRace.begin me ss' candidates s.clock FALLBACK_WAIT) es' f →
      f.clock + 200000000 ≤ accepted + NODE_LIVE_CONNECT_DEADLINE ∧
      (f.deadline ≤ f.clock → f.pc = .waiting →
        ∃ f', FallbackRace.step me greet f .timer = some f' ∧ f'.pc = .returned none) := by
  have htimed := hselect.invariant (Select.timed_begin args black ss accepted) fun _ _ _ h _ hs => h.step hs
  have hdeadline : s.deadline = accepted + LIVE_SELECT_WAIT := by rw [Select.deadline, htimed.started_eq]
  have hclock := htimed.clock_le
  rw [hdeadline] at hclock
  refine ⟨⟨hclock, fun hend wakeAt poolOpen hpc => ?_⟩, ?_⟩
  · rw [← hdeadline] at hend
    exact htimed.timer_returns lz4 args hpc hend
  · intro me greet ss' candidates okRace es' f hrace
    have hinv := hrace.invariant (FallbackRace.inv_begin me greet ss' candidates s.clock FALLBACK_WAIT)
      fun _ _ _ h _ hs => h.step hs
    refine ⟨?_, fun hend hpc => FallbackRace.timer_returns greet hpc hend⟩
    have hle := hinv.clock_le
    rw [hinv.deadline_eq] at hle
    have hsum := live_windows_sum
    omega

/-- A pool peer that stays silent in selection and in the race. -/
theorem live_connect_within_deadline_silent :
    ∃ s : Select, ∃ f : FallbackRace, s.clock = 3500000000 ∧ f.clock = 4800000000 ∧
      f.clock + 200000000 ≤ 0 + NODE_LIVE_CONNECT_DEADLINE := by
  have hselect : (Machine.exec (Select.step (fun _ => none) ⟨0, ["198.51.100.1"], 0, [], 0, 0⟩) (fun _ _ => True)
      (Select.begin ⟨0, ["198.51.100.1"], 0, [], 0, 0⟩ {} (Sessions.start [] 0 0 false) 0)
      [.advance 3500000000, .timer]).map Select.clock = some 3500000000 := by
    decide +kernel
  obtain ⟨s, hs, hclock⟩ := Option.map_eq_some_iff.mp hselect
  have hrace : (Machine.exec (FallbackRace.step 1 []) (fun _ _ => True)
      (FallbackRace.begin 1 (Sessions.start [] 0 0 false) ["198.51.100.1"] 3500000000 FALLBACK_WAIT)
      [.advance 4800000000]).map FallbackRace.clock = some 4800000000 := by
    decide +kernel
  obtain ⟨f, hf, hend⟩ := Option.map_eq_some_iff.mp hrace
  rw [← hclock] at hf
  exact ⟨s, f, hclock, hend,
    ((live_connect_within_deadline (Machine.Run.of_exec hs)).2 1 [] _ _ _ _ f (Machine.Run.of_exec hf)).1⟩

end Hypersync.Gateway
