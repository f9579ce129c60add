import Hypersync.Lib.Machine

/-!
# A copy loop between two byte streams

The loop reads a piece from its source, writes all of it to its sink, in as many writes
as the sink asks for, and only then counts it.  It ends when the source has no more to
give or when the sink takes no more; the task it runs in may also die.

The sink has a front of what was read, in order (`Inv.isPrefix`).  The count is never
ahead of the sink and at most one buffer behind (`Inv.copied_le`, `Inv.le_copied`), and
it is exact once the source has ended the loop (`Inv.exact`).
-/

namespace Pump

variable {β : Type*}

/-! ## 1. The loop -/

/-- Who ended the loop. -/
inductive Ended where
  | source
  | sink
  -- the task died
  | nobody
deriving DecidableEq, Repr

inductive Phase (β : Type*) where
  | reading
  -- what was read, and what of it is still to be written
  | writing (piece todo : List β)
  | counting (piece : List β)
  | ended (who : Ended)

structure State (β : Type*) where
  phase : Phase β := .reading
  /-- All that was read, and all that the sink has taken. -/
  taken : List β := []
  given : List β := []
  copied : Nat := 0

inductive Event (β : Type*) where
  | read (piece : List β)
  | sourceEnded
  | wrote (n : Nat)
  | sinkEnded
  | counted
  | died

/-- One step of the loop with a buffer of `cap` bytes. -/
def step (cap : Nat) (s : State β) : Event β → Option (State β)
  | .read piece =>
    match s.phase with
    | .reading =>
      if 0 < piece.length ∧ piece.length ≤ cap then
        some { s with phase := .writing piece piece, taken := s.taken ++ piece }
      else none
    | _ => none
  | .sourceEnded =>
    match s.phase with
    | .reading => some { s with phase := .ended .source }
    | _ => none
  | .wrote n =>
    match s.phase with
    | .writing piece todo =>
      if 0 < n ∧ n < todo.length then
        some { s with phase := .writing piece (todo.drop n), given := s.given ++ todo.take n }
      else if n = todo.length then
        some { s with phase := .counting piece, given := s.given ++ todo }
      else none
    | _ => none
  | .sinkEnded =>
    match s.phase with
    | .writing _ _ => some { s with phase := .ended .sink }
    | _ => none
  | .counted =>
    match s.phase with
    | .counting piece => some { s with phase := .reading, copied := s.copied + piece.length }
    | _ => none
  | .died =>
    match s.phase with
    | .ended _ => none
    | _ => some { s with phase := .ended .nobody }

/-- The loop is over, and who ended it. -/
def State.ended (s : State β) : Option Ended :=
  match s.phase with
  | .ended who => some who
  | _ => none

variable {cap : Nat} {s t : State β} {e : Event β}

/-- What a step does, and when it can be taken. -/
inductive Stepped (cap : Nat) (s : State β) : Event β → State β → Prop
  | read (piece : List β) (hphase : s.phase = .reading) (hcap : piece.length ≤ cap) :
      Stepped cap s (.read piece) { s with phase := .writing piece piece, taken := s.taken ++ piece }
  | sourceEnded (hphase : s.phase = .reading) : Stepped cap s .sourceEnded { s with phase := .ended .source }
  | wrote (piece todo : List β) (n : Nat) (hphase : s.phase = .writing piece todo) :
      Stepped cap s (.wrote n) { s with phase := .writing piece (todo.drop n), given := s.given ++ todo.take n }
  | written (piece todo : List β) (n : Nat) (hphase : s.phase = .writing piece todo) :
      Stepped cap s (.wrote n) { s with phase := .counting piece, given := s.given ++ todo }
  | sinkEnded (piece todo : List β) (hphase : s.phase = .writing piece todo) :
      Stepped cap s .sinkEnded { s with phase := .ended .sink }
  | counted (piece : List β) (hphase : s.phase = .counting piece) :
      Stepped cap s .counted { s with phase := .reading, copied := s.copied + piece.length }
  | died (hrunning : s.ended = none) : Stepped cap s .died { s with phase := .ended .nobody }

theorem step_eq_some (h : step cap s e = some t) : Stepped cap s e t := by
  cases e with
  | read piece =>
    simp only [step] at h
    split at h
    · rename_i hphase
      split at h <;> cases h
      rename_i hpiece
      exact .read piece hphase hpiece.2
    · cases h
  | sourceEnded =>
    simp only [step] at h
    split at h <;> cases h
    rename_i hphase
    exact .sourceEnded hphase
  | wrote n =>
    simp only [step] at h
    split at h
    · rename_i piece todo hphase
      split at h
      · cases h
        exact .wrote piece todo n hphase
      · split at h <;> cases h
        exact .written piece todo n hphase
    · cases h
  | sinkEnded =>
    simp only [step] at h
    split at h <;> cases h
    rename_i piece todo hphase
    exact .sinkEnded piece todo hphase
  | counted =>
    simp only [step] at h
    split at h <;> cases h
    rename_i piece hphase
    exact .counted piece hphase
  | died =>
    simp only [step] at h
    split at h <;> cases h
    rename_i hrunning
    refine .died ?_
    unfold State.ended
    split
    · rename_i who hphase
      exact absurd hphase (hrunning who)
    · rfl

/-! ## 2. Every run -/

/-- What has been read but is not with the sink, or not counted, is the piece in hand. -/
def InHand (s : State β) : Prop :=
  match s.phase with
  | .reading | .ended .source => s.given = s.taken ∧ s.copied = s.taken.length
  | .writing piece todo =>
    s.given ++ todo = s.taken ∧ s.copied + piece.length = s.taken.length ∧ todo.length ≤ piece.length
  | .counting piece => s.given = s.taken ∧ s.copied + piece.length = s.taken.length
  | .ended _ => True

structure Inv (cap : Nat) (s : State β) : Prop where
  inHand : InHand s
  isPrefix : s.given.IsPrefix s.taken
  copied_le : s.copied ≤ s.given.length
  le_copied : s.taken.length ≤ s.copied + cap

theorem inv_start : Inv cap ({} : State β) where
  inHand := ⟨rfl, rfl⟩
  isPrefix := List.nil_prefix
  copied_le := Nat.le_refl _
  le_copied := Nat.zero_le _

theorem Inv.step (h : Inv cap s) (hs : step cap s e = some t) : Inv cap t := by
  have hhand := h.inHand
  unfold InHand at hhand
  cases step_eq_some hs with
  | read piece hphase hcap =>
    simp only [hphase] at hhand
    obtain ⟨hgiven, hcopied⟩ := hhand
    refine ⟨⟨by rw [hgiven], ?_, Nat.le_refl _⟩, ?_, h.copied_le, ?_⟩
    · rw [List.length_append, hcopied]
    · rw [hgiven]
      exact List.prefix_append _ _
    · simp only [List.length_append]
      omega
  | sourceEnded hphase =>
    simp only [hphase] at hhand
    exact { h with inHand := hhand }
  | wrote piece todo n hphase =>
    simp only [hphase] at hhand
    obtain ⟨hgiven, hcopied, hle⟩ := hhand
    have hrest : s.given ++ todo.take n ++ todo.drop n = s.taken := by
      rw [List.append_assoc, List.take_append_drop, hgiven]
    refine ⟨⟨hrest, hcopied, ?_⟩, ⟨_, hrest⟩, ?_, h.le_copied⟩
    · rw [List.length_drop]
      omega
    · rw [List.length_append]
      exact Nat.le_add_right_of_le h.copied_le
  | written piece todo n hphase =>
    simp only [hphase] at hhand
    obtain ⟨hgiven, hcopied, hle⟩ := hhand
    refine ⟨⟨hgiven, hcopied⟩, ⟨[], by rw [List.append_nil, hgiven]⟩, ?_, h.le_copied⟩
    simp only [hgiven]
    omega
  | sinkEnded piece todo hphase => exact { h with inHand := trivial }
  | counted piece hphase =>
    simp only [hphase] at hhand
    obtain ⟨hgiven, hcopied⟩ := hhand
    refine ⟨⟨hgiven, hcopied⟩, h.isPrefix, ?_, ?_⟩
    · rw [hgiven]
      exact Nat.le_of_eq hcopied
    · simp only
      omega
  | died hrunning => exact { h with inHand := trivial }

theorem phase_of_ended {who : Ended} (h : s.ended = some who) : s.phase = .ended who := by
  unfold State.ended at h
  split at h
  · rename_i who' hphase
    rw [hphase, Option.some.inj h]
  · cases h

/-- Once its source has ended the loop, the sink has everything and all of it is counted. -/
theorem Inv.exact (h : Inv cap s) (hended : s.ended = some .source) :
    s.given = s.taken ∧ s.copied = s.given.length := by
  have hhand := h.inHand
  simp only [InHand, phase_of_ended hended] at hhand
  obtain ⟨hgiven, hcopied⟩ := hhand
  exact ⟨hgiven, by rw [hcopied, hgiven]⟩

theorem copied_le_of_step (hs : step cap s e = some t) : s.copied ≤ t.copied := by
  cases step_eq_some hs with
  | counted piece hphase => exact Nat.le_add_right _ _
  | read piece hphase hcap => exact Nat.le_refl _
  | sourceEnded hphase => exact Nat.le_refl _
  | wrote piece todo n hphase => exact Nat.le_refl _
  | written piece todo n hphase => exact Nat.le_refl _
  | sinkEnded piece todo hphase => exact Nat.le_refl _
  | died hrunning => exact Nat.le_refl _

/-- A loop is ended by nobody only where its task died. -/
theorem died_of_step (hs : step cap s e = some t) (hnobody : t.ended = some .nobody) : e = .died := by
  cases step_eq_some hs with
  | died hrunning => rfl
  | read piece hphase hcap => cases hnobody
  | sourceEnded hphase => cases hnobody
  | wrote piece todo n hphase => cases hnobody
  | written piece todo n hphase => cases hnobody
  | sinkEnded piece todo hphase => cases hnobody
  | counted piece hphase => cases hnobody

/-- An ended loop takes no step. -/
theorem step_of_ended {who : Ended} (h : s.ended = some who) : step cap s e = none := by
  cases e <;> simp only [step, phase_of_ended h]

end Pump
