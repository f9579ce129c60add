import Mathlib.Logic.Relation

/-!
# Event machines: runs and invariants

A machine is given by a partial step function `step : σ → ε → Option σ`:
`step s e = none` says that the event `e` is not enabled in `s`.  A *run* is a
list of events taken one after the other; the relation `Run` also carries a
side condition `ok : σ → ε → Prop` that every step of the run has to meet in
the state it is taken in.  `fun _ _ => True` gives all runs; a narrower
condition gives the runs an environment assumption (or a precondition of the
code) allows.

Every safety theorem of the development is an instance of `Run.invariant`:
the invariant holds in the start state and one enabled step keeps it.
-/

namespace Machine

variable {σ ε : Type*}

/-- `Run step ok s es t`: the events `es`, each enabled and each meeting `ok`,
    lead from `s` to `t`. -/
inductive Run (step : σ → ε → Option σ) (ok : σ → ε → Prop) : σ → List ε → σ → Prop
  | nil (s : σ) : Run step ok s [] s
  | snoc {s t u : σ} {es : List ε} {e : ε} :
      Run step ok s es t → ok t e → step t e = some u → Run step ok s (es ++ [e]) u

variable {step : σ → ε → Option σ} {ok : σ → ε → Prop}

/-- **The invariant rule.** -/
theorem Run.invariant {I : σ → Prop} {s t : σ} {es : List ε}
    (hrun : Run step ok s es t) (hinit : I s)
    (hstep : ∀ a e b, I a → ok a e → step a e = some b → I b) : I t := by
  induction hrun with
  | nil => exact hinit
  | snoc _ hok hs ih => exact hstep _ _ _ ih hok hs

/-- An invariant may speak of the events taken so far. -/
theorem Run.history {I : List ε → σ → Prop} {s t : σ} {es : List ε}
    (hrun : Run step ok s es t) (hinit : I [] s)
    (hstep : ∀ es a e b, I es a → ok a e → step a e = some b → I (es ++ [e]) b) : I es t := by
  induction hrun with
  | nil => exact hinit
  | snoc _ hok hs ih => exact hstep _ _ _ _ ih hok hs

/-- A weaker condition on the steps allows more runs. -/
theorem Run.mono {ok' : σ → ε → Prop} {s t : σ} {es : List ε}
    (hrun : Run step ok s es t) (h : ∀ a e, ok a e → ok' a e) : Run step ok' s es t := by
  induction hrun with
  | nil => exact Run.nil _
  | snoc _ hok hs ih => exact Run.snoc ih (h _ _ hok) hs

/-- Run a list of events, checking `ok` on the way. -/
def exec (step : σ → ε → Option σ) (ok : σ → ε → Prop) [∀ s e, Decidable (ok s e)] :
    σ → List ε → Option σ
  | s, [] => some s
  | s, e :: es =>
    if ok s e then
      match step s e with
      | some t => exec step ok t es
      | none => none
    else none

theorem Run.cons {s t u : σ} {e : ε} {es : List ε}
    (hok : ok s e) (hs : step s e = some t) (hrun : Run step ok t es u) :
    Run step ok s (e :: es) u := by
  induction hrun with
  | nil => simpa using Run.snoc (Run.nil s) hok hs
  | snoc _ hok' hs' ih => simpa using Run.snoc ih hok' hs'

/-- Runs are taken one after the other. -/
theorem Run.trans {s t u : σ} {es fs : List ε} (hrun : Run step ok s es t) (hrun' : Run step ok t fs u) :
    Run step ok s (es ++ fs) u := by
  induction hrun' with
  | nil => rwa [List.append_nil]
  | snoc _ hok hs ih =>
    rw [← List.append_assoc]
    exact Run.snoc ih hok hs

/-- Some events lead from one state to the other. -/
def Leads (step : σ → ε → Option σ) (s t : σ) : Prop := ∃ es, Run step (fun _ _ => True) s es t

theorem Leads.refl (s : σ) : Leads step s s := ⟨[], Run.nil s⟩

theorem Leads.single {s t : σ} (e : ε) (h : step s e = some t) : Leads step s t :=
  ⟨[e], Run.snoc (Run.nil s) trivial h⟩

theorem Leads.trans {s t u : σ} (h : Leads step s t) (h' : Leads step t u) : Leads step s u := by
  obtain ⟨es, hes⟩ := h
  obtain ⟨fs, hfs⟩ := h'
  exact ⟨es ++ fs, hes.trans hfs⟩

/-- What `exec` computes is a run: the way concrete runs are exhibited. -/
theorem Run.of_exec [∀ s e, Decidable (ok s e)] :
    ∀ {es : List ε} {s t : σ}, exec step ok s es = some t → Run step ok s es t := by
  intro es
  induction es with
  | nil =>
    intro s t h
    simp only [exec, Option.some.injEq] at h
    subst h
    exact Run.nil s
  | cons e es ih =>
    intro s t h
    simp only [exec] at h
    by_cases hok : ok s e
    · rw [if_pos hok] at h
      rcases hs : step s e with _ | s'
      · simp [hs] at h
      · simp only [hs] at h
        exact Run.cons hok hs (ih h)
    · rw [if_neg hok] at h
      simp at h

end Machine
