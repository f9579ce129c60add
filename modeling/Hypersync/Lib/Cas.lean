import Hypersync.Lib.Bag
import Hypersync.Lib.Machine
import Mathlib.Data.List.Nodup

/-!
# Compare-and-exchange loops take effect at one instant

A cell is shared by any number of tasks.  An operation is a partial function of the
cell's value: a task loads the value, computes the new one and exchanges it, and if the
cell has changed meanwhile it starts over with the value it found; where the function
is not defined it gives up.  Other tasks change the cell in one step as they like.

Every such run is one in which each operation is carried out at one instant between its
call and its return, with the same values and the same answers (`Inv`): the log keeps
those instants in their order.  An operation that exchanges the value is logged when it
does, one that gives up when it looks at the value that makes it.
-/

namespace Cas

open Hypersync (Bag.replace)

/-! ## 1. Tasks and the log -/

/-- An operation that runs, and the value it has seen last. -/
structure Task (α σ : Type) where
  id : Nat
  op : α
  seen : Option σ := none
deriving DecidableEq, Repr

inductive Entry (α δ : Type) where
  /-- An operation, and whether it changed the cell. -/
  | op (id : Nat) (op : α) (changed : Bool)
  | other (act : δ)
deriving DecidableEq, Repr

structure State (α δ σ : Type) where
  cell : σ
  tasks : List (Task α σ) := []
  /-- The operations called; the place of one is its identity. -/
  calls : List α := []
  log : List (Entry α δ) := []
  returned : List (Nat × Bool) := []

inductive Event (α δ σ : Type) where
  | call (op : α)
  | load (t : Task α σ)
  /-- The exchange, which finds the value that was seen. -/
  | swap (t : Task α σ)
  /-- The exchange, which finds another value.  A weak exchange may also miss when nothing
      has changed. -/
  | miss (t : Task α σ)
  | giveUp (t : Task α σ)
  | other (act : δ)

variable {α δ σ : Type} [DecidableEq α] [DecidableEq σ] (f : α → σ → Option σ) (g : δ → σ → σ)

/-- The task has seen a value its operation has nothing to do with. -/
def Task.settled (t : Task α σ) : Bool :=
  match t.seen with
  | some v => (f t.op v).isNone
  | none => false

/-- The task looks at the cell. -/
def State.look (s : State α δ σ) (t : Task α σ) : State α δ σ :=
  { s with
    tasks := Bag.replace s.tasks t { t with seen := some s.cell }
    log := s.log ++ if (f t.op s.cell).isNone then [.op t.id t.op false] else [] }

def step (s : State α δ σ) : Event α δ σ → Option (State α δ σ)
  | .call op => some { s with tasks := ⟨s.calls.length, op, none⟩ :: s.tasks, calls := s.calls ++ [op] }
  | .load t => if t ∈ s.tasks ∧ t.seen = none then some (s.look f t) else none
  | .swap t =>
    if t ∈ s.tasks ∧ t.seen = some s.cell then
      match f t.op s.cell with
      | some w =>
        some { s with
          cell := w
          tasks := s.tasks.erase t
          log := s.log ++ [.op t.id t.op true]
          returned := s.returned ++ [(t.id, true)] }
      | none => none
    else none
  | .miss t => if t ∈ s.tasks ∧ t.seen.isSome ∧ t.settled f = false then some (s.look f t) else none
  | .giveUp t =>
    if t ∈ s.tasks ∧ t.settled f = true then
      some { s with tasks := s.tasks.erase t, returned := s.returned ++ [(t.id, false)] }
    else none
  | .other act => some { s with cell := g act s.cell, log := s.log ++ [.other act] }

/-! ## 2. The log, one entry after the other -/

/-- One entry carried out in one step; none if the answer would be another one. -/
def Entry.apply (c : σ) : Entry α δ → Option σ
  | .op _ o changed =>
    match f o c, changed with
    | some w, true => some w
    | none, false => some c
    | _, _ => none
  | .other act => some (g act c)

def replay : σ → List (Entry α δ) → Option σ
  | c, [] => some c
  | c, e :: log => (Entry.apply f g c e).bind fun c' => replay c' log

/-- The operations in a log. -/
def ids (log : List (Entry α δ)) : List Nat :=
  log.filterMap fun e =>
    match e with
    | .op id _ _ => some id
    | .other _ => none

variable {f g} {s t : State α δ σ} {c : σ} {log : List (Entry α δ)}

omit [DecidableEq α] [DecidableEq σ] in
theorem replay_append (log' : List (Entry α δ)) :
    replay f g c (log ++ log') = (replay f g c log).bind fun c' => replay f g c' log' := by
  induction log generalizing c with
  | nil => rfl
  | cons e log ih =>
    rw [List.cons_append, replay, replay, Option.bind_assoc]
    congr 1
    funext c'
    exact ih

omit [DecidableEq α] [DecidableEq σ] in
theorem replay_snoc {c' : σ} (h : replay f g c log = some c') (e : Entry α δ) :
    replay f g c (log ++ [e]) = Entry.apply f g c' e := by
  rw [replay_append, h, Option.bind_some, replay]
  cases Entry.apply f g c' e with
  | none => rfl
  | some c'' => rfl

omit [DecidableEq α] in
theorem ids_append (log' : List (Entry α δ)) : ids (log ++ log') = ids log ++ ids log' :=
  List.filterMap_append

omit [DecidableEq α] in
theorem exists_op_of_mem_ids {id : Nat} (h : id ∈ ids log) : ∃ o changed, Entry.op id o changed ∈ log := by
  obtain ⟨e, he, hid⟩ := List.mem_filterMap.mp h
  cases e with
  | op id' o changed =>
    cases hid
    exact ⟨o, changed, he⟩
  | other act => cases hid

/-! ## 3. Every run -/

structure Inv (f : α → σ → Option σ) (g : δ → σ → σ) (c : σ) (s : State α δ σ) : Prop where
  /-- The log, carried out entry by entry, gives the cell its value. -/
  replayed : replay f g c s.log = some s.cell
  /-- Every answer given is the logged one. -/
  answered : ∀ r ∈ s.returned, ∃ o, Entry.op r.1 o r.2 ∈ s.log
  /-- No operation is logged twice, none before it is called, and each as it was called. -/
  once : (ids s.log).Nodup
  called : ∀ id o changed, Entry.op id o changed ∈ s.log → s.calls[id]? = some o
  /-- An operation that runs is logged if it has nothing left to do but return. -/
  settled : ∀ t ∈ s.tasks, t.settled f = true → Entry.op t.id t.op false ∈ s.log
  running : ∀ t ∈ s.tasks, t.settled f = false → t.id ∉ ids s.log
  distinct : (s.tasks.map Task.id).Nodup
  numbered : ∀ t ∈ s.tasks, s.calls[t.id]? = some t.op

omit [DecidableEq α] [DecidableEq σ] in
theorem inv_start (c : σ) : Inv f g c ({ cell := c } : State α δ σ) where
  replayed := rfl
  answered _ hr := absurd hr List.not_mem_nil
  once := List.nodup_nil
  called _ _ _ hop := absurd hop List.not_mem_nil
  settled _ ht := absurd ht List.not_mem_nil
  running _ ht := absurd ht List.not_mem_nil
  distinct := List.nodup_nil
  numbered _ ht := absurd ht List.not_mem_nil

/-- The other tasks have other identities. -/
theorem Inv.id_ne {u v : Task α σ} (h : Inv f g c s) (hu : u ∈ s.tasks) (hv : v ∈ s.tasks.erase u) : v.id ≠ u.id := by
  have hperm : (s.tasks.map Task.id).Perm (u.id :: (s.tasks.erase u).map Task.id) :=
    (List.perm_cons_erase hu).map Task.id
  have hnew := (List.nodup_cons.mp (hperm.nodup_iff.mp h.distinct)).1
  intro heq
  exact hnew (heq ▸ List.mem_map_of_mem hv)

theorem Inv.nodup_erase {u : Task α σ} (h : Inv f g c s) : ((s.tasks.erase u).map Task.id).Nodup :=
  h.distinct.sublist (List.erase_sublist.map Task.id)

/-- What logging the answer of a task that was not settled leaves true of the log and of the
    other tasks. -/
theorem Inv.log_answer {u : Task α σ} (h : Inv f g c s) (hu : u ∈ s.tasks) (hnot : u.settled f = false)
    (changed : Bool) :
    let log := s.log ++ [Entry.op u.id u.op changed]
    (∀ r ∈ s.returned, ∃ o, Entry.op r.1 o r.2 ∈ log) ∧ (ids log).Nodup ∧
      (∀ id o changed, Entry.op id o changed ∈ log → s.calls[id]? = some o) ∧
      (∀ v ∈ s.tasks.erase u, v.settled f = true → Entry.op v.id v.op false ∈ log) ∧
      ∀ v ∈ s.tasks.erase u, v.settled f = false → v.id ∉ ids log := by
  intro log
  have hids : ids log = ids s.log ++ [u.id] := ids_append _
  have hfresh := h.running u hu hnot
  refine ⟨?_, ?_, ?_, ?_, ?_⟩
  · intro r hr
    obtain ⟨o, ho⟩ := h.answered r hr
    exact ⟨o, List.mem_append_left _ ho⟩
  · rw [hids, List.nodup_append]
    refine ⟨h.once, List.nodup_singleton _, ?_⟩
    intro a ha b hb heq
    exact hfresh (List.mem_singleton.mp hb ▸ heq ▸ ha)
  · intro id o changed' hop
    rcases List.mem_append.mp hop with hop | hop
    · exact h.called id o changed' hop
    · cases List.mem_singleton.mp hop
      exact h.numbered u hu
  · intro v hv hset
    exact List.mem_append_left _ (h.settled v (List.mem_of_mem_erase hv) hset)
  · intro v hv hset
    rw [hids, List.mem_append, List.mem_singleton, not_or]
    exact ⟨h.running v (List.mem_of_mem_erase hv) hset, h.id_ne hu hv⟩

/-- A task that is not settled yet looks at the cell. -/
theorem Inv.look {u : Task α σ} (h : Inv f g c s) (hu : u ∈ s.tasks) (hnot : u.settled f = false) :
    Inv f g c (s.look f u) := by
  have hdistinct : ((Bag.replace s.tasks u { u with seen := some s.cell }).map Task.id).Nodup :=
    (((List.perm_cons_erase hu).map Task.id).nodup_iff).mp h.distinct
  have hnumbered : ∀ v ∈ Bag.replace s.tasks u { u with seen := some s.cell }, s.calls[v.id]? = some v.op := by
    intro v hv
    rcases List.mem_cons.mp hv with rfl | hv
    · exact h.numbered u hu
    · exact h.numbered v (List.mem_of_mem_erase hv)
  have hset : ({ u with seen := some s.cell } : Task α σ).settled f = (f u.op s.cell).isNone := rfl
  unfold State.look
  cases hnone : (f u.op s.cell).isNone with
  | true =>
    -- it has nothing to do: that is logged now
    obtain ⟨hanswered, honce, hcalled, hsettled, hrunning⟩ := h.log_answer hu hnot false
    rw [if_pos rfl]
    refine ⟨?_, hanswered, honce, hcalled, ?_, ?_, hdistinct, hnumbered⟩
    · rw [replay_snoc h.replayed]
      simp only [Entry.apply, Option.isNone_iff_eq_none.mp hnone]
    · intro v hv hv'
      rcases List.mem_cons.mp hv with rfl | hv
      · exact List.mem_append_right _ List.mem_cons_self
      · exact hsettled v hv hv'
    · intro v hv hv'
      rcases List.mem_cons.mp hv with rfl | hv
      · rw [hset, hnone] at hv'
        cases hv'
      · exact hrunning v hv hv'
  | false =>
    rw [if_neg Bool.false_ne_true, List.append_nil]
    refine ⟨h.replayed, h.answered, h.once, h.called, ?_, ?_, hdistinct, hnumbered⟩
    · intro v hv hv'
      rcases List.mem_cons.mp hv with rfl | hv
      · rw [hset, hnone] at hv'
        cases hv'
      · exact h.settled v (List.mem_of_mem_erase hv) hv'
    · intro v hv hv'
      rcases List.mem_cons.mp hv with rfl | hv
      · exact h.running u hu hnot
      · exact h.running v (List.mem_of_mem_erase hv) hv'

omit [DecidableEq α] in
/-- An operation keeps its place when others are called. -/
theorem getElem?_called {calls : List α} {id : Nat} {o : α} (h : calls[id]? = some o) (op : α) :
    (calls ++ [op])[id]? = some o := by
  rw [List.getElem?_append_left (List.getElem?_eq_some_iff.mp h).1, h]

theorem Inv.step {e : Event α δ σ} (h : Inv f g c s) (hs : step f g s e = some t) : Inv f g c t := by
  cases e with
  | call op =>
    cases hs
    have hnew : s.calls[s.calls.length]? = none := List.getElem?_eq_none (Nat.le_refl _)
    refine ⟨h.replayed, h.answered, h.once, fun id o changed hop => getElem?_called (h.called id o changed hop) op,
      ?_, ?_, ?_, ?_⟩
    · intro u hu hset
      rcases List.mem_cons.mp hu with rfl | hu
      · cases hset
      · exact h.settled u hu hset
    · intro u hu hset
      rcases List.mem_cons.mp hu with rfl | hu
      · intro hid
        obtain ⟨o, changed, hop⟩ := exists_op_of_mem_ids hid
        cases hnew.symm.trans (h.called _ o changed hop)
      · exact h.running u hu hset
    · refine List.nodup_cons.mpr ⟨?_, h.distinct⟩
      intro hmem
      obtain ⟨u, hu, hid⟩ := List.mem_map.mp hmem
      have hold := h.numbered u hu
      rw [hid] at hold
      cases hnew.symm.trans hold
    · intro u hu
      rcases List.mem_cons.mp hu with rfl | hu
      · exact List.getElem?_concat_length
      · exact getElem?_called (h.numbered u hu) op
  | load u =>
    obtain ⟨hu, ⟨⟩⟩ := Option.ite_none_right_eq_some.mp hs
    apply h.look hu.1
    rw [Task.settled, hu.2]
  | swap u =>
    obtain ⟨hu, hs⟩ := Option.ite_none_right_eq_some.mp hs
    split at hs <;> cases hs
    rename_i w hw
    have hnot : u.settled f = false := by rw [Task.settled, hu.2]; simp [hw]
    obtain ⟨hanswered, honce, hcalled, hsettled, hrunning⟩ := h.log_answer hu.1 hnot true
    refine ⟨?_, ?_, honce, hcalled, hsettled, hrunning, h.nodup_erase,
      fun v hv => h.numbered v (List.mem_of_mem_erase hv)⟩
    · rw [replay_snoc h.replayed]
      simp only [Entry.apply, hw]
    · intro r hr
      rcases List.mem_append.mp hr with hr | hr
      · exact hanswered r hr
      · rw [List.mem_singleton.mp hr]
        exact ⟨u.op, List.mem_append_right _ List.mem_cons_self⟩
  | miss u =>
    obtain ⟨hu, ⟨⟩⟩ := Option.ite_none_right_eq_some.mp hs
    exact h.look hu.1 hu.2.2
  | giveUp u =>
    obtain ⟨hu, ⟨⟩⟩ := Option.ite_none_right_eq_some.mp hs
    refine ⟨h.replayed, ?_, h.once, h.called, fun v hv => h.settled v (List.mem_of_mem_erase hv),
      fun v hv => h.running v (List.mem_of_mem_erase hv), h.nodup_erase,
      fun v hv => h.numbered v (List.mem_of_mem_erase hv)⟩
    intro r hr
    rcases List.mem_append.mp hr with hr | hr
    · exact h.answered r hr
    · rw [List.mem_singleton.mp hr]
      exact ⟨u.op, h.settled u hu.1 hu.2⟩
  | other act =>
    cases hs
    have hids : ids (s.log ++ [Entry.other act]) = ids s.log := by
      rw [ids_append]
      exact List.append_nil _
    refine ⟨?_, ?_, hids ▸ h.once, ?_, ?_, hids ▸ h.running, h.distinct, h.numbered⟩
    · rw [replay_snoc h.replayed]
      rfl
    · intro r hr
      obtain ⟨o, ho⟩ := h.answered r hr
      exact ⟨o, List.mem_append_left _ ho⟩
    · intro id o changed hop
      rcases List.mem_append.mp hop with hop | hop
      · exact h.called id o changed hop
      · cases List.mem_singleton.mp hop
    · intro v hv hset
      exact List.mem_append_left _ (h.settled v hv hset)

/-- The log only grows: what has been carried out stays carried out. -/
theorem log_isPrefix {es : List (Event α δ σ)} {ok : State α δ σ → Event α δ σ → Prop}
    (hrun : Machine.Run (Cas.step f g) ok s es t) : s.log <+: t.log := by
  refine hrun.invariant (I := fun u => s.log <+: u.log) (List.prefix_refl _) ?_
  intro a e b ha _ hs
  refine ha.trans ?_
  cases e with
  | call op =>
    cases hs
    exact List.prefix_refl _
  | load u =>
    obtain ⟨-, ⟨⟩⟩ := Option.ite_none_right_eq_some.mp hs
    exact List.prefix_append _ _
  | swap u =>
    obtain ⟨-, hs⟩ := Option.ite_none_right_eq_some.mp hs
    split at hs <;> cases hs
    exact List.prefix_append _ _
  | miss u =>
    obtain ⟨-, ⟨⟩⟩ := Option.ite_none_right_eq_some.mp hs
    exact List.prefix_append _ _
  | giveUp u =>
    obtain ⟨-, ⟨⟩⟩ := Option.ite_none_right_eq_some.mp hs
    exact List.prefix_refl _
  | other act =>
    cases hs
    exact List.prefix_append _ _

theorem inv_of_run {es : List (Event α δ σ)} {ok : State α δ σ → Event α δ σ → Prop}
    (hrun : Machine.Run (Cas.step f g) ok { cell := c } es t) : Inv f g c t :=
  hrun.invariant (inv_start c) fun _ _ _ h _ hs => h.step hs

end Cas
