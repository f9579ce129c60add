import Hypersync.Lib.Machine
import Mathlib.Algebra.Order.BigOperators.Group.List
import Mathlib.Algebra.Order.Ring.Nat
import Mathlib.Data.List.Perm.Basic

/-!
# Hedged races over a list of candidates

Candidates are tried in the order of a list, and an attempt is a machine of its own.
A failed attempt is replaced by the next candidate at once; while none has won, a
timer starts one more, as long as fewer than `limit` are under way.  The first attempt
that succeeds wins and the others are dropped.
-/

namespace Race

/-! ## 1. The race -/

structure Rules (κ σ ε ρ : Type) where
  start : κ → σ
  step : σ → ε → Option σ
  /-- How an attempt has ended, if it has. -/
  result : σ → Option (Option ρ)
  limit : Nat

/-- `tried` lists the candidates in the order their attempts were started, `failed` in
    the order they were given up. -/
structure State (κ σ ρ : Type) where
  rest : List κ
  running : List (κ × σ) := []
  tried : List κ := []
  failed : List κ := []
  outcome : Option (Option (κ × ρ)) := none

/-- The attempts are named by their places; `lost` ends one that has no result. -/
inductive Event (ε : Type) where
  | work (i : Nat) (e : ε)
  | join (i : Nat)
  | lost (i : Nat)
  | hedge
deriving DecidableEq

def Event.isWork {ε : Type} : Event ε → Bool
  | .work _ _ => true
  | _ => false

section

variable {κ σ ε ρ : Type} (r : Rules κ σ ε ρ)

def State.spawnNext (s : State κ σ ρ) : State κ σ ρ :=
  match s.rest with
  | [] => s
  | k :: rest => { s with rest := rest, running := (k, r.start k) :: s.running, tried := s.tried ++ [k] }

/-- The race is over once nothing runs and nothing is left to try. -/
def State.settle (s : State κ σ ρ) : State κ σ ρ :=
  if s.running.isEmpty ∧ s.rest.isEmpty then { s with outcome := some none } else s

def State.begin (candidates : List κ) : State κ σ ρ :=
  (State.spawnNext r { rest := candidates }).settle

/-- The attempt at `i` has failed: the next candidate takes its place. -/
def State.giveUp (s : State κ σ ρ) (i : Nat) (k : κ) : State κ σ ρ :=
  (State.spawnNext r { s with running := s.running.eraseIdx i, failed := s.failed ++ [k] }).settle

def step (s : State κ σ ρ) (e : Event ε) : Option (State κ σ ρ) :=
  if s.outcome.isSome then none
  else
    match e with
    | .work i e =>
      s.running[i]?.bind fun (k, a) => (r.step a e).map fun a' => { s with running := s.running.set i (k, a') }
    | .join i =>
      s.running[i]?.bind fun (k, a) => (r.result a).map fun
        | some res => { s with running := [], outcome := some (some (k, res)) }
        | none => s.giveUp r i k
    | .lost i =>
      s.running[i]?.bind fun (k, a) => if (r.result a).isNone then some (s.giveUp r i k) else none
    | .hedge => if s.running.length < r.limit ∧ s.rest ≠ [] then some (s.spawnNext r) else none

/-- What a step does. -/
inductive Stepped (s : State κ σ ρ) : Event ε → State κ σ ρ → Prop
  | work {i : Nat} {e : ε} {k : κ} {a a' : σ} : s.outcome = none → s.running[i]? = some (k, a) →
      r.step a e = some a' → Stepped s (.work i e) { s with running := s.running.set i (k, a') }
  | won {i : Nat} {k : κ} {a : σ} {res : ρ} : s.outcome = none → s.running[i]? = some (k, a) →
      r.result a = some (some res) →
      Stepped s (.join i) { s with running := [], outcome := some (some (k, res)) }
  | gaveUp {e : Event ε} {i : Nat} {k : κ} {a : σ} : s.outcome = none → e.isWork = false →
      s.running[i]? = some (k, a) → Stepped s e (s.giveUp r i k)
  | hedged {k : κ} {rest : List κ} : s.outcome = none → s.running.length < r.limit → s.rest = k :: rest →
      Stepped s .hedge (s.spawnNext r)

variable {r} {s t : State κ σ ρ} {candidates : List κ}

theorem step_eq_some {e : Event ε} (h : step r s e = some t) : Stepped r s e t := by
  unfold step at h
  split at h
  · cases h
  rename_i hopen
  have hnone : s.outcome = none := Option.not_isSome_iff_eq_none.mp hopen
  cases e with
  | work i e =>
    obtain ⟨⟨k, a⟩, hi, h⟩ := Option.bind_eq_some_iff.mp h
    obtain ⟨a', ha, rfl⟩ := Option.map_eq_some_iff.mp h
    exact .work hnone hi ha
  | join i =>
    obtain ⟨⟨k, a⟩, hi, h⟩ := Option.bind_eq_some_iff.mp h
    obtain ⟨res, hres, rfl⟩ := Option.map_eq_some_iff.mp h
    cases res with
    | none => exact .gaveUp hnone rfl hi
    | some res => exact .won hnone hi hres
  | lost i =>
    obtain ⟨⟨k, a⟩, hi, h⟩ := Option.bind_eq_some_iff.mp h
    simp only at h
    split at h <;> cases h
    exact .gaveUp hnone rfl hi
  | hedge =>
    simp only at h
    split at h <;> cases h
    rename_i hroom
    obtain ⟨k, rest, hrest⟩ := List.exists_cons_of_ne_nil hroom.2
    exact .hedged hnone hroom.1 hrest

/-! ## 2. What holds throughout -/

/-- The attempt has come as far as its own steps lead. -/
def Reached (r : Rules κ σ ε ρ) (k : κ) (a : σ) : Prop :=
  ∃ es, Machine.Run r.step (fun _ _ => True) (r.start k) es a

structure Inv (r : Rules κ σ ε ρ) (candidates : List κ) (s : State κ σ ρ) : Prop where
  order : s.tried ++ s.rest = candidates
  bound : s.running.length ≤ max 1 r.limit
  reached : ∀ p ∈ s.running, Reached r p.1 p.2
  -- until one has won, an attempt that was started runs or has failed
  placed : (∀ w, s.outcome ≠ some (some w)) → (s.running.map Prod.fst ++ s.failed).Perm s.tried
  busy : s.outcome = none → s.running ≠ []
  lost : s.outcome = some none → s.running = [] ∧ s.rest = []
  won : ∀ k res, s.outcome = some (some (k, res)) →
    s.running = [] ∧ k ∈ s.tried ∧ ∃ a, Reached r k a ∧ r.result a = some (some res)

/-- The invariant but for the end of the race: what `settle` is given. -/
structure Mid (r : Rules κ σ ε ρ) (candidates : List κ) (s : State κ σ ρ) : Prop where
  order : s.tried ++ s.rest = candidates
  bound : s.running.length ≤ max 1 r.limit
  reached : ∀ p ∈ s.running, Reached r p.1 p.2
  placed : (s.running.map Prod.fst ++ s.failed).Perm s.tried
  outcome : s.outcome = none
  waiting : s.running = [] → s.rest = []

theorem Mid.inv (h : Mid r candidates s) (hbusy : s.running ≠ []) : Inv r candidates s := by
  refine ⟨h.order, h.bound, h.reached, fun _ => h.placed, fun _ => hbusy, ?_, ?_⟩
  · intro ho
    cases h.outcome.symm.trans ho
  · intro k res ho
    cases h.outcome.symm.trans ho

theorem Mid.settle (h : Mid r candidates s) : Inv r candidates s.settle := by
  unfold State.settle
  split
  · rename_i hempty
    simp only [List.isEmpty_iff] at hempty
    refine ⟨h.order, h.bound, h.reached, fun _ => h.placed, ?_, fun _ => hempty, ?_⟩
    · intro ho
      cases ho
    · intro k res ho
      cases ho
  · rename_i hempty
    simp only [List.isEmpty_iff] at hempty
    exact h.inv fun hnil => hempty ⟨hnil, h.waiting hnil⟩

/-- A place is free for the next candidate. -/
theorem mid_spawnNext (horder : s.tried ++ s.rest = candidates) (hroom : s.running.length < max 1 r.limit)
    (hreached : ∀ p ∈ s.running, Reached r p.1 p.2)
    (hplaced : (s.running.map Prod.fst ++ s.failed).Perm s.tried) (hopen : s.outcome = none) :
    Mid r candidates (s.spawnNext r) := by
  unfold State.spawnNext
  split
  · exact ⟨horder, Nat.le_of_lt hroom, hreached, hplaced, hopen, fun _ => ‹_›⟩
  · rename_i k rest hrest
    refine ⟨?_, hroom, ?_, ?_, hopen, ?_⟩
    · simp only [List.append_assoc, List.singleton_append]
      rwa [hrest] at horder
    · intro p hp
      rcases List.mem_cons.mp hp with rfl | hp
      · exact ⟨[], Machine.Run.nil _⟩
      · exact hreached p hp
    · simp only [List.map_cons, List.cons_append]
      exact (hplaced.cons k).trans (List.perm_append_singleton k s.tried).symm
    · intro hnil
      cases hnil

theorem inv_begin (r : Rules κ σ ε ρ) (candidates : List κ) : Inv r candidates (State.begin r candidates) := by
  apply Mid.settle
  apply mid_spawnNext
  · rfl
  · exact Nat.lt_of_lt_of_le Nat.one_pos (Nat.le_max_left _ _)
  · intro p hp
    cases hp
  · exact List.Perm.refl _
  · rfl

theorem Inv.placed_of_open (h : Inv r candidates s) (hopen : s.outcome = none) :
    (s.running.map Prod.fst ++ s.failed).Perm s.tried := by
  apply h.placed
  intro w hw
  rw [hopen] at hw
  cases hw

/-- A failed attempt moves from the running ones to the failed. -/
theorem perm_eraseIdx {i : Nat} {k : κ} {a : σ} (hi : s.running[i]? = some (k, a)) :
    ((s.running.eraseIdx i).map Prod.fst ++ (s.failed ++ [k])).Perm (s.running.map Prod.fst ++ s.failed) := by
  obtain ⟨hlt, hget⟩ := List.getElem?_eq_some_iff.mp hi
  have hperm : (k :: (s.running.eraseIdx i).map Prod.fst).Perm (s.running.map Prod.fst) := by
    have h := (List.getElem_cons_eraseIdx_perm hlt).map Prod.fst
    rwa [hget] at h
  calc ((s.running.eraseIdx i).map Prod.fst ++ (s.failed ++ [k])).Perm
        (k :: ((s.running.eraseIdx i).map Prod.fst ++ s.failed)) := by
        rw [← List.append_assoc]
        exact List.perm_append_singleton _ _
    _ |>.Perm (s.running.map Prod.fst ++ s.failed) := hperm.append_right _

theorem Inv.giveUp {i : Nat} {k : κ} {a : σ} (h : Inv r candidates s) (hopen : s.outcome = none)
    (hi : s.running[i]? = some (k, a)) : Inv r candidates (s.giveUp r i k) := by
  obtain ⟨hlt, -⟩ := List.getElem?_eq_some_iff.mp hi
  apply Mid.settle
  apply mid_spawnNext
  · exact h.order
  · have hbound := h.bound
    simp only [List.length_eraseIdx_of_lt hlt]
    omega
  · exact fun p hp => h.reached p (List.mem_of_mem_eraseIdx hp)
  · exact (perm_eraseIdx hi).trans (h.placed_of_open hopen)
  · exact hopen

/-- The candidates an attempt is for do not change. -/
theorem map_fst_set {l : List (κ × σ)} {i : Nat} {k : κ} {a : σ} (hi : l[i]? = some (k, a)) (a' : σ) :
    (l.set i (k, a')).map Prod.fst = l.map Prod.fst := by
  apply List.ext_getElem?
  intro j
  rw [List.getElem?_map, List.getElem?_map, List.getElem?_set]
  split
  · rename_i hij
    subst hij
    split
    · rw [hi]
      rfl
    · rename_i hlt
      exact absurd (List.getElem?_eq_some_iff.mp hi).1 hlt
  · rfl

theorem Inv.step {e : Event ε} (h : Inv r candidates s) (hstep : Race.step r s e = some t) :
    Inv r candidates t := by
  cases step_eq_some hstep with
  | @work i e k a a' hopen hi ha =>
    have hset : s.running.set i (k, a') ≠ [] := by
      rw [← List.length_pos_iff, List.length_set, List.length_pos_iff]
      exact h.busy hopen
    refine Mid.inv ⟨h.order, ?_, ?_, ?_, hopen, fun hnil => absurd hnil hset⟩ hset
    · rw [List.length_set]
      exact h.bound
    · intro p hp
      rcases List.mem_or_eq_of_mem_set hp with hp | rfl
      · exact h.reached p hp
      · obtain ⟨es, hrun⟩ := h.reached _ (List.mem_of_getElem? hi)
        exact ⟨es ++ [e], hrun.snoc trivial ha⟩
    · rw [map_fst_set hi]
      exact h.placed_of_open hopen
  | @won i k a res hopen hi hres =>
    have hmem := List.mem_of_getElem? hi
    refine ⟨h.order, Nat.zero_le _, ?_, ?_, ?_, ?_, ?_⟩
    · intro p hp
      cases hp
    · intro hw
      exact absurd rfl (hw _)
    · intro ho
      cases ho
    · intro ho
      cases ho
    · intro k' res' ho
      cases ho
      refine ⟨rfl, ?_, a, h.reached _ hmem, hres⟩
      apply (h.placed_of_open hopen).subset
      exact List.mem_append_left _ (List.mem_map_of_mem hmem)
  | gaveUp hopen _ hi => exact h.giveUp hopen hi
  | hedged hopen hroom hrest =>
    apply Mid.inv
    · exact mid_spawnNext h.order (Nat.lt_of_lt_of_le hroom (Nat.le_max_right _ _)) h.reached
        (h.placed_of_open hopen) hopen
    · rw [State.spawnNext, hrest]
      exact List.cons_ne_nil _ _

theorem inv_of_run {es : List (Event ε)}
    (hrun : Machine.Run (step r) (fun _ _ => True) (State.begin r candidates) es t) : Inv r candidates t :=
  hrun.invariant (inv_begin r candidates) fun _ _ _ h _ hs => h.step hs

/-- When no attempt has won, all have failed. -/
theorem Inv.all_failed (h : Inv r candidates s) (ho : s.outcome = some none) :
    s.tried = candidates ∧ s.failed.Perm candidates := by
  obtain ⟨hrunning, hrest⟩ := h.lost ho
  have horder := h.order
  rw [hrest, List.append_nil] at horder
  refine ⟨horder, ?_⟩
  have hplaced : (s.running.map Prod.fst ++ s.failed).Perm s.tried := by
    apply h.placed
    intro w hw
    cases ho.symm.trans hw
  rwa [hrunning, horder] at hplaced

/-- What the attempts under way hold together. -/
theorem Inv.sum_running_le (h : Inv r candidates s) (weight : κ × σ → Nat) (most : Nat)
    (hmost : ∀ p, Reached r p.1 p.2 → weight p ≤ most) : (s.running.map weight).sum ≤ max 1 r.limit * most := by
  calc (s.running.map weight).sum ≤ (s.running.map weight).length • most := by
        apply List.sum_le_card_nsmul
        intro n hn
        obtain ⟨p, hp, rfl⟩ := List.mem_map.mp hn
        exact hmost p (h.reached p hp)
    _ = s.running.length * most := by rw [List.length_map, nsmul_eq_mul, Nat.cast_id]
    _ ≤ max 1 r.limit * most := Nat.mul_le_mul_right _ h.bound

/-- An attempt goes its way while the rest of the race stands still. -/
theorem run_work {k : κ} {a b : σ} {es : List ε} {rest : List (κ × σ)}
    (hrun : Machine.Run r.step (fun _ _ => True) a es b) (hopen : s.outcome = none)
    (hfirst : s.running = (k, a) :: rest) :
    Machine.Run (Race.step r) (fun _ _ => True) s (es.map (.work 0)) { s with running := (k, b) :: rest } := by
  induction hrun with
  | nil =>
    have hs : { s with running := (k, a) :: rest } = s := by rw [← hfirst]
    rw [hs]
    exact Machine.Run.nil s
  | snoc _ _ hstep ih =>
    rw [List.map_append]
    refine Machine.Run.snoc ih trivial ?_
    simp only [Race.step, hopen, Option.isSome_none, Bool.false_eq_true, if_false, List.getElem?_cons_zero,
      Option.bind_some, hstep, Option.map_some, List.set_cons_zero]

theorem step_join_won {k : κ} {a : σ} {res : ρ} {rest : List (κ × σ)} (hopen : s.outcome = none)
    (hfirst : s.running = (k, a) :: rest) (hres : r.result a = some (some res)) :
    Race.step r s (.join 0) = some { s with running := [], outcome := some (some (k, res)) } := by
  simp only [Race.step, hopen, hfirst, List.getElem?_cons_zero, Option.isSome_none, Bool.false_eq_true, if_false,
    Option.bind_some, hres, Option.map_some]

/-! ## 3. How long it takes -/

/-- An attempt still to be started costs a start and an end. -/
def State.turns (s : State κ σ ρ) : Nat := 2 * s.rest.length + s.running.length

theorem turns_spawnNext_le (s : State κ σ ρ) : (s.spawnNext r).turns ≤ s.turns := by
  unfold State.spawnNext
  split
  · exact Nat.le_refl _
  · rename_i hrest
    simp only [State.turns, hrest, List.length_cons]
    omega

theorem turns_spawnNext_lt (h : s.rest ≠ []) : (s.spawnNext r).turns < s.turns := by
  unfold State.spawnNext
  split
  · contradiction
  · rename_i hrest
    simp only [State.turns, hrest, List.length_cons]
    omega

theorem turns_settle (s : State κ σ ρ) : s.settle.turns = s.turns := by
  unfold State.settle
  split
  · rfl
  · rfl

theorem turns_begin_le (r : Rules κ σ ε ρ) (candidates : List κ) :
    (State.begin r candidates).turns ≤ 2 * candidates.length := by
  rw [State.begin, turns_settle]
  exact turns_spawnNext_le _

theorem turns_giveUp_lt {i : Nat} {k : κ} (hi : i < s.running.length) : (s.giveUp r i k).turns < s.turns := by
  rw [State.giveUp, turns_settle]
  refine Nat.lt_of_le_of_lt (turns_spawnNext_le _) ?_
  simp only [State.turns, List.length_eraseIdx_of_lt hi]
  omega

theorem turns_step {e : Event ε} (h : step r s e = some t) :
    t.turns + (if e.isWork then 0 else 1) ≤ s.turns := by
  cases step_eq_some h with
  | work => simp only [State.turns, List.length_set, Event.isWork, if_true, Nat.add_zero, Nat.le_refl]
  | won _ hi =>
    have hpos := Nat.lt_of_le_of_lt (Nat.zero_le _) (List.getElem?_eq_some_iff.mp hi).1
    simp only [State.turns, Event.isWork, List.length_nil, Bool.false_eq_true, if_false]
    omega
  | gaveUp _ hwork hi =>
    rw [hwork]
    exact turns_giveUp_lt (List.getElem?_eq_some_iff.mp hi).1
  | hedged _ _ hrest => exact turns_spawnNext_lt (by rw [hrest]; exact List.cons_ne_nil _ _)

/-- The race itself takes few steps, whatever the attempts do. -/
theorem turns_of_run {es : List (Event ε)} (hrun : Machine.Run (step r) (fun _ _ => True) s es t) :
    t.turns + es.countP (fun e => !e.isWork) ≤ s.turns := by
  induction hrun with
  | nil => exact Nat.le_refl _
  | @snoc _ _ _ e _ _ hstep ih =>
    have hturn := turns_step hstep
    rw [List.countP_append, List.countP_singleton]
    cases hwork : e.isWork with
    | true =>
      rw [hwork] at hturn
      simp only [if_true, Bool.not_true, Bool.false_eq_true, if_false] at hturn ⊢
      omega
    | false =>
      rw [hwork] at hturn
      simp only [if_true, Bool.not_false, Bool.false_eq_true, if_false] at hturn ⊢
      omega

/-- While the race is open, it waits for an attempt that runs; once that one has ended the
    race can go on. -/
theorem Inv.goes_on (h : Inv r candidates s) (hopen : s.outcome = none) :
    ∃ i k a, s.running[i]? = some (k, a) ∧ ((r.result a).isSome → (Race.step r s (.join i)).isSome) := by
  obtain ⟨⟨k, a⟩, rest, hrunning⟩ := List.exists_cons_of_ne_nil (h.busy hopen)
  have hi : s.running[0]? = some (k, a) := by
    rw [hrunning]
    rfl
  refine ⟨0, k, a, hi, ?_⟩
  intro hres
  obtain ⟨res, hres⟩ := Option.isSome_iff_exists.mp hres
  simp only [Race.step, hopen, hi, hres, Option.isSome_none, Bool.false_eq_true, if_false, Option.bind_some,
    Option.map_some, Option.isSome_some]

end

end Race
