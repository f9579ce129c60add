import Hypersync.Lib.Machine
import Mathlib.Algebra.Order.BigOperators.Group.List
import Mathlib.Algebra.Order.Ring.Nat

/-!
# A bounded pipe: one sender, a budget, a queue, one writer

The sender takes one item at a time.  It first waits until the budget covers the cost
of the item, then for a place in the queue; the writer takes the items out in order
and writes each one piece by piece.  The cost of an item goes back to the budget when
the item has been written to its end.  The pipe may stop at any time, also in the middle
of an item: nothing happens to it any more.

Nothing is lost, repeated or put out of order on the way (`Inv.ordered`, `Inv.wire`),
and no item waits for ever in a pipe that does not stop (`drained_of_stuck`,
`length_le_work`).
-/

namespace Pipe

variable {β : Type*}

/-! ## 1. The pipe -/

/-- Where the sender stands with the item it was given last. -/
inductive Sender (β : Type*) where
  | idle
  -- no budget yet
  | waiting (item : List β)
  -- has its budget, but no place in the queue
  | granted (item : List β)

/-- The budget, the places in the queue and what an item costs. -/
structure Limits (β : Type*) where
  budget : Nat
  slots : Nat
  cost : List β → Nat

structure State (β : Type*) where
  sender : Sender β := .idle
  queue : List (List β) := []
  /-- The item in the writer's hand, and what is left of it to write. -/
  writing : Option (List β × List β) := none
  available : Nat
  /-- Everything the sender was given, everything written to its end, and what has
      come out. -/
  sent : List (List β) := []
  done : List (List β) := []
  out : List β := []
  stopped : Bool := false

inductive Event (β : Type*) where
  | send (item : List β)
  | acquire
  | enqueue
  | receive
  | write (n : Nat)
  | finish
  | stop

/-- The sender is given a new item; all other steps are the pipe's own. -/
def Event.isSend : Event β → Bool
  | .send _ => true
  | _ => false

variable {lim : Limits β}

/-- What a step does to a pipe that has not stopped. -/
def going (lim : Limits β) (s : State β) : Event β → Option (State β)
  | .send x =>
    match s.sender with
    | .idle => some { s with sender := .waiting x, sent := s.sent ++ [x] }
    | _ => none
  | .acquire =>
    match s.sender with
    | .waiting x =>
      if lim.cost x ≤ s.available then
        some { s with sender := .granted x, available := s.available - lim.cost x }
      else none
    | _ => none
  | .enqueue =>
    match s.sender with
    | .granted x =>
      if s.queue.length < lim.slots then some { s with sender := .idle, queue := s.queue ++ [x] } else none
    | _ => none
  | .receive =>
    match s.writing, s.queue with
    | none, x :: queue => some { s with writing := some (x, x), queue := queue }
    | _, _ => none
  | .write n =>
    match s.writing with
    | some (x, rest) =>
      if 0 < n ∧ n ≤ rest.length then
        some { s with writing := some (x, rest.drop n), out := s.out ++ rest.take n }
      else none
    | none => none
  | .finish =>
    match s.writing with
    | some (x, []) =>
      some { s with writing := none, available := s.available + lim.cost x, done := s.done ++ [x] }
    | _ => none
  | .stop => some { s with stopped := true }

def step (lim : Limits β) (s : State β) (e : Event β) : Option (State β) := if s.stopped then none else going lim s e

/-- The sender has an item and cannot go on with it. -/
def Blocked (lim : Limits β) (s : State β) : Prop :=
  match s.sender with
  | .idle => False
  | .waiting x => s.available < lim.cost x
  | .granted _ => lim.slots ≤ s.queue.length

namespace Sender

/-- The item the sender still has. -/
def unsent : Sender β → List (List β)
  | .idle => []
  | .waiting x => [x]
  | .granted x => [x]

/-- The item the sender has budget for. -/
def held : Sender β → List (List β)
  | .granted x => [x]
  | _ => []

/-- The steps the sender has to take before its item is in the queue. -/
def work : Sender β → Nat
  | .idle => 0
  | .waiting _ => 2
  | .granted _ => 1

theorem held_sublist_unsent (s : Sender β) : s.held.Sublist s.unsent := by
  cases s with
  | idle => exact List.Sublist.refl _
  | waiting x => exact List.nil_sublist _
  | granted x => exact List.Sublist.refl _

end Sender

namespace State

variable (s : State β)

def start (lim : Limits β) : State β where
  available := lim.budget

/-- The item in the writer's hand. -/
def inHand : List (List β) := (s.writing.map Prod.fst).toList

/-- What is left of it. -/
def rest : List β := (s.writing.map Prod.snd).getD []

/-- The items that have budget. -/
def held : List (List β) := s.inHand ++ s.queue ++ s.sender.held

/-- The items that are on their way. -/
def onTheWay : List (List β) := s.inHand ++ s.queue ++ s.sender.unsent

/-- What the pipe's own steps still have to do: an item is granted, enqueued, received,
    written and finished, and the pipe stops. -/
def work : Nat :=
  s.sender.work + (s.sender.unsent.map fun x => x.length + 2).sum + (s.queue.map fun x => x.length + 2).sum +
    (s.writing.map fun w => w.2.length + 1).getD 0 + (!s.stopped).toNat

end State

/-- What a step does, and when it can be taken. -/
inductive Stepped (lim : Limits β) (s : State β) : Event β → State β → Prop
  | send (x : List β) (hidle : s.sender = .idle) :
      Stepped lim s (.send x) { s with sender := .waiting x, sent := s.sent ++ [x] }
  | acquire (x : List β) (hwait : s.sender = .waiting x) (hle : lim.cost x ≤ s.available) :
      Stepped lim s .acquire { s with sender := .granted x, available := s.available - lim.cost x }
  | enqueue (x : List β) (hgranted : s.sender = .granted x) (hroom : s.queue.length < lim.slots) :
      Stepped lim s .enqueue { s with sender := .idle, queue := s.queue ++ [x] }
  | receive (x : List β) (queue : List (List β)) (hnone : s.writing = none) (hqueue : s.queue = x :: queue) :
      Stepped lim s .receive { s with writing := some (x, x), queue := queue }
  | write (n : Nat) (x rest : List β) (hwriting : s.writing = some (x, rest)) (hpos : 0 < n)
      (hle : n ≤ rest.length) :
      Stepped lim s (.write n) { s with writing := some (x, rest.drop n), out := s.out ++ rest.take n }
  | finish (x : List β) (hwriting : s.writing = some (x, [])) :
      Stepped lim s .finish
        { s with writing := none, available := s.available + lim.cost x, done := s.done ++ [x] }
  | stop (hgoing : s.stopped = false) : Stepped lim s .stop { s with stopped := true }

variable {s t : State β} {e : Event β}

theorem step_of_going (h : s.stopped = false) : step lim s e = going lim s e := by
  rw [step, h]
  exact if_neg Bool.false_ne_true

theorem step_eq_some (h : step lim s e = some t) : Stepped lim s e t := by
  obtain ⟨hgoing, h⟩ := Option.ite_none_left_eq_some.mp h
  cases e with
  | send x =>
    simp only [going] at h
    split at h <;> cases h
    rename_i hidle
    exact .send x hidle
  | acquire =>
    simp only [going] at h
    split at h
    · rename_i x hwait
      obtain ⟨hle, ⟨⟩⟩ := Option.ite_none_right_eq_some.mp h
      exact .acquire x hwait hle
    · cases h
  | enqueue =>
    simp only [going] at h
    split at h
    · rename_i x hgranted
      obtain ⟨hroom, ⟨⟩⟩ := Option.ite_none_right_eq_some.mp h
      exact .enqueue x hgranted hroom
    · cases h
  | receive =>
    simp only [going] at h
    split at h <;> cases h
    rename_i x queue hnone hqueue
    exact .receive x queue hnone hqueue
  | write n =>
    simp only [going] at h
    split at h
    · rename_i x rest hwriting
      obtain ⟨hn, ⟨⟩⟩ := Option.ite_none_right_eq_some.mp h
      exact .write n x rest hwriting hn.1 hn.2
    · cases h
  | finish =>
    simp only [going] at h
    split at h <;> cases h
    rename_i x hwriting
    exact .finish x hwriting
  | stop =>
    cases h
    exact .stop (Bool.eq_false_iff.mpr hgoing)

/-- A sender that is not blocked can take its next step. -/
theorem exists_step_of_not_blocked (hgoing : s.stopped = false) (hbusy : s.sender ≠ .idle) (h : ¬ Blocked lim s) :
    ∃ e : Event β, ∃ t, e.isSend = false ∧ e ≠ .stop ∧ step lim s e = some t := by
  rcases hs : s.sender with _ | x | x
  · exact absurd hs hbusy
  · simp only [Blocked, hs, Nat.not_lt] at h
    refine ⟨.acquire, { s with sender := .granted x, available := s.available - lim.cost x }, rfl, ?_, ?_⟩
    · intro heq
      cases heq
    · simp only [step_of_going hgoing, going, hs, if_pos h]
  · simp only [Blocked, hs, Nat.not_le] at h
    refine ⟨.enqueue, { s with sender := .idle, queue := s.queue ++ [x] }, rfl, ?_, ?_⟩
    · intro heq
      cases heq
    · simp only [step_of_going hgoing, going, hs, if_pos h]

/-! ## 2. Every run -/

structure Inv (lim : Limits β) (s : State β) : Prop where
  /-- The budget is where it was taken or not taken. -/
  balanced : s.available + (s.held.map lim.cost).sum = lim.budget
  placed : s.queue.length ≤ lim.slots
  /-- Every item given to the sender is written or on its way, in the order it was given. -/
  ordered : s.done ++ s.onTheWay = s.sent
  /-- What has come out are the written items and the written part of the one in hand. -/
  wire : s.out ++ s.rest = (s.done ++ s.inHand).flatten
  rest_suffix : s.rest <:+ s.inHand.flatten

theorem inv_start (lim : Limits β) : Inv lim (State.start lim) where
  balanced := rfl
  placed := Nat.zero_le _
  ordered := rfl
  wire := rfl
  rest_suffix := List.suffix_refl _

theorem Inv.step (h : Inv lim s) (hs : step lim s e = some t) : Inv lim t := by
  obtain ⟨hbal, hplaced, hord, hwire, hsuf⟩ := h
  cases step_eq_some hs with
  | send x hidle =>
    refine ⟨?_, hplaced, ?_, hwire, hsuf⟩
    · rw [← hbal]
      simp only [State.held, State.inHand, hidle, Sender.held]
    · rw [← hord]
      simp only [State.onTheWay, State.inHand, hidle, Sender.unsent, List.append_nil, List.append_assoc]
  | acquire x hwait hle =>
    refine ⟨?_, hplaced, ?_, hwire, hsuf⟩
    · rw [← hbal]
      simp only [State.held, State.inHand, hwait, Sender.held, List.append_nil, List.map_append, List.sum_append,
        List.map_cons, List.map_nil, List.sum_cons, List.sum_nil]
      omega
    · rw [← hord]
      simp only [State.onTheWay, State.inHand, hwait, Sender.unsent]
  | enqueue x hgranted hroom =>
    refine ⟨?_, ?_, ?_, hwire, hsuf⟩
    · rw [← hbal]
      simp only [State.held, State.inHand, hgranted, Sender.held, List.append_nil, List.append_assoc]
    · simp only [List.length_append, List.length_singleton]
      exact hroom
    · rw [← hord]
      simp only [State.onTheWay, State.inHand, hgranted, Sender.unsent, List.append_nil, List.append_assoc]
  | receive x queue hnone hqueue =>
    have hrest : s.rest = [] := by rw [State.rest, hnone]; rfl
    have hhand : s.inHand = [] := by rw [State.inHand, hnone]; rfl
    refine ⟨?_, ?_, ?_, ?_, ?_⟩
    · rw [← hbal]
      simp only [State.held, hhand, hqueue]
      rfl
    · rw [hqueue, List.length_cons] at hplaced
      exact Nat.le_of_succ_le hplaced
    · rw [← hord]
      simp only [State.onTheWay, hhand, hqueue]
      rfl
    · rw [hrest, hhand, List.append_nil, List.append_nil] at hwire
      simp only [State.rest, State.inHand, Option.map_some, Option.getD_some, Option.toList_some,
        List.flatten_append, List.flatten_cons, List.flatten_nil, List.append_nil, hwire]
    · simp [State.rest, State.inHand]
  | write n x rest hwriting hpos hle =>
    have hrest : s.rest = rest := by rw [State.rest, hwriting]; rfl
    have hhand : s.inHand = [x] := by rw [State.inHand, hwriting]; rfl
    refine ⟨?_, hplaced, ?_, ?_, ?_⟩
    · rw [← hbal]
      simp only [State.held, hhand]
      rfl
    · rw [← hord]
      simp only [State.onTheWay, hhand]
      rfl
    · rw [hhand, hrest] at hwire
      simp only [State.rest, State.inHand, Option.map_some, Option.getD_some, Option.toList_some]
      rw [List.append_assoc, List.take_append_drop, hwire]
    · rw [hhand, hrest] at hsuf
      exact (List.drop_suffix n rest).trans hsuf
  | finish x hwriting =>
    have hrest : s.rest = [] := by rw [State.rest, hwriting]; rfl
    have hhand : s.inHand = [x] := by rw [State.inHand, hwriting]; rfl
    refine ⟨?_, hplaced, ?_, ?_, List.suffix_refl _⟩
    · rw [← hbal]
      simp only [State.held, State.inHand, hwriting, Option.map_none, Option.map_some, Option.toList_none,
        Option.toList_some, List.nil_append, List.map_append, List.sum_append, List.map_cons, List.map_nil,
        List.sum_cons, List.sum_nil]
      omega
    · rw [← hord]
      simp only [State.onTheWay, State.inHand, hwriting, Option.map_none, Option.map_some, Option.toList_none,
        Option.toList_some, List.nil_append, List.append_assoc]
    · rw [hhand, hrest] at hwire
      simp only [State.rest, State.inHand, Option.map_none, Option.getD_none, Option.toList_none, List.append_nil]
      rw [← hwire, List.append_nil]
  | stop hgoing => exact ⟨hbal, hplaced, hord, hwire, hsuf⟩

theorem inv_of_run {ok : State β → Event β → Prop} {es : List (Event β)}
    (hrun : Machine.Run (step lim) ok (State.start lim) es t) : Inv lim t :=
  hrun.invariant (inv_start lim) fun _ _ _ h _ hs => h.step hs

/-- The sender is given the items of a list, one after the other. -/
def Follows (items : List (List β)) (s : State β) : Event β → Prop
  | .send x => s.sent ++ [x] <+: items
  | _ => True

instance decidableFollows [DecidableEq β] (items : List (List β)) (s : State β) :
    (e : Event β) → Decidable (Follows items s e)
  | .send x => inferInstanceAs (Decidable (s.sent ++ [x] <+: items))
  | .acquire => .isTrue trivial
  | .enqueue => .isTrue trivial
  | .receive => .isTrue trivial
  | .write _ => .isTrue trivial
  | .finish => .isTrue trivial
  | .stop => .isTrue trivial

theorem Follows.mono {items items' : List (List β)} (h : Follows items s e) (hle : items <+: items') :
    Follows items' s e := by
  cases e with
  | send x => exact h.trans hle
  | _ => trivial

theorem sent_isPrefix {items : List (List β)} {es : List (Event β)}
    (hrun : Machine.Run (step lim) (Follows items) (State.start lim) es t) : t.sent <+: items := by
  refine hrun.invariant (I := fun u => u.sent <+: items) List.nil_prefix ?_
  intro a e b ha hok hs
  cases step_eq_some hs with
  | send x hidle => exact hok
  | _ => exact ha

/-- It ends in the item in hand. -/
theorem Inv.exists_part (h : Inv lim s) : ∃ part, s.out = s.done.flatten ++ part ∧ part <+: s.inHand.flatten := by
  obtain ⟨part, hpart⟩ := h.rest_suffix
  refine ⟨part, ?_, ⟨s.rest, hpart⟩⟩
  apply (List.append_left_inj s.rest).mp
  rw [h.wire, List.flatten_append, ← hpart, List.append_assoc]

theorem Inv.held_sublist (h : Inv lim s) : s.held.Sublist s.sent := by
  rw [← h.ordered, State.held, State.onTheWay]
  exact (List.Sublist.append_left s.sender.held_sublist_unsent _).trans (List.sublist_append_right _ _)

/-- Items that cost what they weigh, or more, weigh no more than the budget. -/
theorem Inv.held_le (h : Inv lim s) (weight : List β → Nat) (hle : ∀ x ∈ s.sent, weight x ≤ lim.cost x) :
    (s.held.map weight).sum ≤ lim.budget := by
  have hsum : (s.held.map weight).sum ≤ (s.held.map lim.cost).sum :=
    List.sum_le_sum fun x hx => hle x (h.held_sublist.subset hx)
  have hbal := h.balanced
  omega

/-! ## 3. Progress -/

/-- An item that the budget can cover at all is covered once everything before it is
    written: a pipe in which nothing can be done but to stop has nothing left to do. -/
theorem drained_of_stuck (h : Inv lim s) (hgoing : s.stopped = false) (hslots : 0 < lim.slots)
    (hcost : ∀ x ∈ s.sent, lim.cost x ≤ lim.budget)
    (hstuck : ∀ e : Event β, e.isSend = false → e ≠ .stop → step lim s e = none) :
    s.done = s.sent ∧ s.out = s.sent.flatten := by
  have hwriting : s.writing = none := by
    rcases hw : s.writing with _ | ⟨x, rest⟩
    · rfl
    · rcases rest with _ | ⟨b, rest⟩
      · have hfinish := hstuck .finish rfl (by intro heq; cases heq)
        simp only [step_of_going hgoing, going, hw] at hfinish
        cases hfinish
      · have hwrite := hstuck (.write 1) rfl (by intro heq; cases heq)
        simp only [step_of_going hgoing, going, hw] at hwrite
        rw [if_pos ⟨Nat.one_pos, Nat.succ_pos _⟩] at hwrite
        cases hwrite
  have hqueue : s.queue = [] := by
    rcases hq : s.queue with _ | ⟨x, queue⟩
    · rfl
    · have hreceive := hstuck .receive rfl (by intro heq; cases heq)
      simp only [step_of_going hgoing, going, hwriting, hq] at hreceive
      cases hreceive
  have hhand : s.inHand = [] := by rw [State.inHand, hwriting]; rfl
  have hfree : ¬ Blocked lim s := by
    rcases hs : s.sender with _ | x | x
    · simp only [Blocked, hs, not_false_eq_true]
    · -- nothing else holds any of the budget
      have hbal := h.balanced
      simp only [State.held, hhand, hqueue, hs, Sender.held, List.append_nil, List.map_nil, List.sum_nil,
        Nat.add_zero] at hbal
      have hmem : x ∈ s.sent := by
        rw [← h.ordered, State.onTheWay, hs]
        simp [Sender.unsent]
      simp only [Blocked, hs, hbal, Nat.not_lt]
      exact hcost x hmem
    · simp only [Blocked, hs, hqueue, List.length_nil, Nat.not_le]
      exact hslots
  have hsender : s.sender = .idle := by
    by_contra hbusy
    obtain ⟨e, t, hown, hon, hstep⟩ := exists_step_of_not_blocked hgoing hbusy hfree
    rw [hstuck e hown hon] at hstep
    cases hstep
  have hdone : s.done = s.sent := by
    rw [← h.ordered, State.onTheWay, hhand, hqueue, hsender]
    exact (List.append_nil _).symm
  have hwire := h.wire
  rw [hhand, State.rest, hwriting, List.append_nil, hdone] at hwire
  exact ⟨hdone, (List.append_nil _).symm.trans hwire⟩

/-- Each of the pipe's own steps is work done. -/
theorem work_lt (hs : step lim s e = some t) (hown : e.isSend = false) : t.work < s.work := by
  cases step_eq_some hs with
  | send x hidle => cases hown
  | acquire x hwait hle =>
    simp only [State.work, hwait, Sender.work, Sender.unsent]
    omega
  | enqueue x hgranted hroom =>
    simp only [State.work, hgranted, Sender.work, Sender.unsent, List.map_append, List.sum_append, List.map_cons,
      List.map_nil, List.sum_cons, List.sum_nil]
    omega
  | receive x queue hnone hqueue =>
    simp only [State.work, hnone, hqueue, List.map_cons, List.sum_cons, Option.map_some, Option.map_none,
      Option.getD_some, Option.getD_none]
    omega
  | write n x rest hwriting hpos hle =>
    simp only [State.work, hwriting, Option.map_some, Option.getD_some, List.length_drop]
    omega
  | finish x hwriting =>
    simp only [State.work, hwriting, Option.map_some, Option.map_none, Option.getD_some, Option.getD_none,
      List.length_nil]
    omega
  | stop hgoing =>
    simp only [State.work, hgoing, Bool.not_false, Bool.not_true, Bool.toNat_true, Bool.toNat_false]
    omega

/-- The pipe's own steps come to an end. -/
theorem length_le_work {es : List (Event β)} (hrun : Machine.Run (step lim) (fun _ e => e.isSend = false) s es t) :
    es.length + t.work ≤ s.work := by
  induction hrun with
  | nil => exact (Nat.zero_add _).le
  | snoc _ hown hs ih =>
    have hlt := work_lt hs hown
    rw [List.length_append, List.length_singleton]
    omega

/-- The pipe's own steps give the sender nothing new. -/
theorem sent_eq_of_run {es : List (Event β)} (hrun : Machine.Run (step lim) (fun _ e => e.isSend = false) s es t) :
    t.sent = s.sent := by
  refine hrun.invariant (I := fun u => u.sent = s.sent) rfl ?_
  intro a e b ha hown hs
  cases step_eq_some hs with
  | send x hidle => cases hown
  | _ => exact ha

end Pipe
