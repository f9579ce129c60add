import Mathlib.Data.List.Basic

/-!
# A channel with many senders and one receiver

Each sender puts its items, marked with its key, into one bounded queue.  The receiver
takes out the first item, and takes the next one only when it is done with it.

What the channel has had of one sender, `of k c.all`, grows at its end by what that
sender puts in and by nothing else.
-/

namespace FanIn

variable {κ α : Type*}

structure Channel (κ α : Type*) where
  queue : List (κ × α) := []
  /-- The item the receiver is busy with. -/
  hand : Option (κ × α) := none
  done : List (κ × α) := []
deriving DecidableEq, Repr

/-- The items of one sender. -/
def of [DecidableEq κ] (k : κ) (l : List (κ × α)) : List α := (l.filter fun p => p.1 = k).map Prod.snd

namespace Channel

variable (c : Channel κ α)

/-- The items the receiver is not done with. -/
def open_ : List (κ × α) := c.hand.toList ++ c.queue

def all : List (κ × α) := c.done ++ c.open_

def send (slots : Nat) (k : κ) (x : α) : Option (Channel κ α) :=
  if c.queue.length < slots then some { c with queue := c.queue ++ [(k, x)] } else none

def recv : Option (Channel κ α) :=
  match c.hand, c.queue with
  | none, p :: queue => some { c with hand := some p, queue := queue }
  | _, _ => none

/-- The receiver is done with its item. -/
def finish : Option ((κ × α) × Channel κ α) :=
  c.hand.map fun p => (p, { c with hand := none, done := c.done ++ [p] })

end Channel

section Of

variable [DecidableEq κ] {k k' : κ}

theorem of_append (k : κ) (l l' : List (κ × α)) : of k (l ++ l') = of k l ++ of k l' := by
  simp only [of, List.filter_append, List.map_append]

theorem of_singleton_self (k : κ) (x : α) : of k [(k, x)] = [x] := by
  simp [of]

theorem of_singleton_of_ne (h : k' ≠ k) (x : α) : of k [(k', x)] = [] := by
  simp [of, h]

end Of

variable {c d : Channel κ α} {slots : Nat} {k : κ} {x : α}

theorem send_eq_some (h : c.send slots k x = some d) :
    c.queue.length < slots ∧ d = { c with queue := c.queue ++ [(k, x)] } := by
  unfold Channel.send at h
  split at h
  · rename_i hroom
    exact ⟨hroom, (Option.some.inj h).symm⟩
  · cases h

theorem send_eq_none (h : c.send slots k x = none) : slots ≤ c.queue.length := by
  unfold Channel.send at h
  split at h
  · cases h
  · rename_i hfull
    exact Nat.not_lt.mp hfull

theorem open_of_send (h : c.send slots k x = some d) : d.open_ = c.open_ ++ [(k, x)] := by
  obtain ⟨-, rfl⟩ := send_eq_some h
  simp only [Channel.open_, List.append_assoc]

theorem all_of_send (h : c.send slots k x = some d) : d.all = c.all ++ [(k, x)] := by
  rw [Channel.all, open_of_send h, ← List.append_assoc]
  obtain ⟨-, rfl⟩ := send_eq_some h
  rfl

theorem length_of_send (h : c.send slots k x = some d) : d.queue.length ≤ slots := by
  obtain ⟨hroom, rfl⟩ := send_eq_some h
  simp only [List.length_append, List.length_singleton]
  exact hroom

theorem recv_eq_some (h : c.recv = some d) :
    ∃ p queue, c.hand = none ∧ c.queue = p :: queue ∧ d = { c with hand := some p, queue := queue } := by
  unfold Channel.recv at h
  split at h
  · rename_i p queue hhand hqueue
    exact ⟨p, queue, hhand, hqueue, (Option.some.inj h).symm⟩
  · cases h

theorem open_of_recv (h : c.recv = some d) : d.open_ = c.open_ := by
  obtain ⟨p, queue, hhand, hqueue, rfl⟩ := recv_eq_some h
  simp only [Channel.open_, hhand, hqueue]
  rfl

theorem all_of_recv (h : c.recv = some d) : d.all = c.all := by
  rw [Channel.all, open_of_recv h]
  obtain ⟨p, queue, hhand, hqueue, rfl⟩ := recv_eq_some h
  rfl

theorem length_of_recv (h : c.recv = some d) : d.queue.length ≤ c.queue.length := by
  obtain ⟨p, queue, hhand, hqueue, rfl⟩ := recv_eq_some h
  rw [hqueue]
  exact Nat.le_succ _

theorem finish_eq_some {p : κ × α} (h : c.finish = some (p, d)) :
    c.hand = some p ∧ d = { c with hand := none, done := c.done ++ [p] } := by
  obtain ⟨q, hq, heq⟩ := Option.map_eq_some_iff.mp h
  obtain ⟨rfl, rfl⟩ := Prod.mk.inj heq
  exact ⟨hq, rfl⟩

theorem open_of_finish {p : κ × α} (h : c.finish = some (p, d)) : c.open_ = p :: d.open_ := by
  obtain ⟨hhand, rfl⟩ := finish_eq_some h
  simp only [Channel.open_, hhand]
  rfl

theorem all_of_finish {p : κ × α} (h : c.finish = some (p, d)) : d.all = c.all := by
  rw [Channel.all, Channel.all, open_of_finish h]
  obtain ⟨hhand, rfl⟩ := finish_eq_some h
  simp only [Channel.open_, Option.toList_none, List.nil_append, List.append_assoc, List.singleton_append]

/-- A receiver that can neither take an item nor be done with one has seen them all. -/
theorem open_eq_nil (hrecv : c.recv = none) (hfinish : c.finish = none) : c.open_ = [] := by
  have hhand : c.hand = none := Option.map_eq_none_iff.mp hfinish
  rcases hqueue : c.queue with _ | ⟨p, queue⟩
  · rw [Channel.open_, hhand, hqueue]
    rfl
  · simp only [Channel.recv, hhand, hqueue] at hrecv
    cases hrecv

end FanIn
