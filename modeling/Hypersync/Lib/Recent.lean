import Mathlib.Data.List.Induction

/-!
# A short list of what was used last

A use puts a value in front and cuts the list at its end; a value can also be taken
out.  Whatever the order of the two, the list holds each value once and the latest
ones first (`after_sublist_order`).  A value in it was not taken out since its last
use (`exists_touch_of_mem_after`), and one that was not stays for as long as fewer
values than the list has room for are used after it (`mem_after`).
-/

namespace Recent

variable {α : Type*} [DecidableEq α]

inductive Event (α : Type*) where
  | touch (a : α)
  | forget (a : α)

def forget (l : List α) (a : α) : List α := l.filter fun x => x ≠ a

def touch (cap : Nat) (l : List α) (a : α) : List α := (a :: forget l a).take cap

def step (cap : Nat) (l : List α) : Event α → List α
  | .touch a => touch cap l a
  | .forget a => forget l a

/-- The list after some uses. -/
def after (cap : Nat) (es : List (Event α)) : List α := es.foldl (step cap) []

/-- All values that were used, the latest first. -/
def order (es : List (Event α)) : List α :=
  es.foldl (fun l e => match e with
    | .touch a => a :: forget l a
    | .forget _ => l) []

def Event.isTouch : Event α → Bool
  | .touch _ => true
  | .forget _ => false

variable {cap : Nat} {a b : α} {l : List α} {es : List (Event α)}

theorem mem_forget : b ∈ forget l a ↔ b ∈ l ∧ b ≠ a := by
  rw [forget, List.mem_filter, decide_eq_true_iff]

theorem after_snoc (es : List (Event α)) (e : Event α) : after cap (es ++ [e]) = step cap (after cap es) e := by
  rw [after, List.foldl_append]
  rfl

theorem after_append (es fs : List (Event α)) : after cap (es ++ fs) = fs.foldl (step cap) (after cap es) :=
  List.foldl_append

/-! ## 1. The shape of the list -/

theorem length_after_le (es : List (Event α)) : (after cap es).length ≤ cap := by
  induction es using List.reverseRecOn with
  | nil => exact Nat.zero_le _
  | append_singleton es e ih =>
    rw [after_snoc]
    cases e with
    | touch a =>
      rw [step, touch, List.length_take]
      exact Nat.min_le_left _ _
    | forget a => exact Nat.le_trans (List.length_filter_le _ _) ih

theorem nodup_order (es : List (Event α)) : (order es).Nodup := by
  induction es using List.reverseRecOn with
  | nil => exact List.nodup_nil
  | append_singleton es e ih =>
    rw [order, List.foldl_append]
    cases e with
    | touch a => exact List.nodup_cons.mpr ⟨fun h => (mem_forget.mp h).2 rfl, ih.filter _⟩
    | forget a => exact ih

theorem after_sublist_order (es : List (Event α)) : (after cap es).Sublist (order es) := by
  induction es using List.reverseRecOn with
  | nil => exact List.Sublist.refl _
  | append_singleton es e ih =>
    rw [after_snoc, order, List.foldl_append]
    cases e with
    | touch a => exact (List.take_sublist _ _).trans ((ih.filter _).cons_cons a)
    | forget a => exact List.filter_sublist.trans ih

theorem nodup_after (es : List (Event α)) : (after cap es).Nodup := (nodup_order es).sublist (after_sublist_order es)

/-! ## 2. Who is in the list -/

/-- A value in the list was not taken out since it was used last. -/
theorem exists_touch_of_mem_after (h : a ∈ after cap es) :
    ∃ pre post, es = pre ++ .touch a :: post ∧ .forget a ∉ post := by
  induction es using List.reverseRecOn with
  | nil => cases h
  | append_singleton es e ih =>
    rw [after_snoc] at h
    -- an event about another value goes behind what is known
    have hother : a ∈ after cap es → e ≠ .forget a → ∃ pre post, es ++ [e] = pre ++ .touch a :: post ∧ .forget a ∉ post := by
      intro hmem hne
      obtain ⟨pre, post, rfl, hpost⟩ := ih hmem
      refine ⟨pre, post ++ [e], by rw [List.append_assoc, List.cons_append], ?_⟩
      rw [List.mem_append, List.mem_singleton]
      rintro (hmem | heq)
      · exact hpost hmem
      · exact hne heq.symm
    cases e with
    | touch b =>
      rcases List.mem_cons.mp (List.mem_of_mem_take h) with rfl | hmem
      · exact ⟨es, [], rfl, List.not_mem_nil⟩
      · exact hother (mem_forget.mp hmem).1 (fun heq => by cases heq)
    | forget b =>
      obtain ⟨hmem, hne⟩ := mem_forget.mp h
      exact hother hmem (fun heq => hne (by cases heq; rfl))

/-- `a` has at most `i` values before it. -/
def Within (a : α) (i : Nat) (l : List α) : Prop := ∃ pre post, l = pre ++ a :: post ∧ pre.length ≤ i

theorem within_forget {i : Nat} (h : Within a i l) (hne : b ≠ a) : Within a i (forget l b) := by
  obtain ⟨pre, post, rfl, hlen⟩ := h
  refine ⟨forget pre b, forget post b, ?_, Nat.le_trans (List.length_filter_le _ _) hlen⟩
  have ha : decide (a ≠ b) = true := decide_eq_true (Ne.symm hne)
  simp only [forget, List.filter_append, List.filter_cons, ha, if_true]

omit [DecidableEq α] in
theorem within_take {i : Nat} (h : Within a i l) (hcap : i < cap) : Within a i (l.take cap) := by
  obtain ⟨pre, post, rfl, hlen⟩ := h
  refine ⟨pre, post.take (cap - pre.length - 1), ?_, hlen⟩
  obtain ⟨k, hk⟩ : ∃ k, cap - pre.length = k + 1 := ⟨cap - pre.length - 1, by omega⟩
  rw [List.take_append, List.take_of_length_le (by omega), hk, List.take_succ_cons, Nat.add_sub_cancel]

theorem within_step {i : Nat} {e : Event α} (h : Within a i l) (hne : e ≠ .forget a)
    (hcap : i + (if e.isTouch then 1 else 0) < cap) :
    Within a (i + if e.isTouch then 1 else 0) (step cap l e) := by
  cases e with
  | touch b =>
    refine within_take ?_ hcap
    by_cases hb : b = a
    · subst hb
      exact ⟨[], _, rfl, Nat.zero_le _⟩
    · obtain ⟨pre, post, heq, hlen⟩ := within_forget h hb
      exact ⟨b :: pre, post, by rw [heq, List.cons_append], Nat.succ_le_succ hlen⟩
  | forget b => exact within_forget h (fun hb => hne (by rw [hb]))

theorem within_foldl : ∀ {es : List (Event α)} {l : List α} {i : Nat}, Within a i l → .forget a ∉ es →
    i + es.countP Event.isTouch < cap → a ∈ es.foldl (step cap) l := by
  intro es
  induction es with
  | nil =>
    rintro l i ⟨pre, post, rfl, -⟩ - -
    exact List.mem_append_right _ List.mem_cons_self
  | cons e es ih =>
    intro l i hwithin hforget hcap
    rw [List.mem_cons, not_or] at hforget
    rw [List.countP_cons] at hcap
    exact ih (within_step hwithin (Ne.symm hforget.1) (by omega)) hforget.2 (by omega)

/-- A value that is used and not taken out stays while there is room for what is used after it. -/
theorem mem_after {pre post : List (Event α)} (hforget : .forget a ∉ post)
    (hcap : post.countP Event.isTouch < cap) : a ∈ after cap (pre ++ .touch a :: post) := by
  rw [after_append, List.foldl_cons]
  have hfirst : Within a 0 (step cap (after cap pre) (.touch a)) :=
    within_take ⟨[], _, rfl, Nat.le_refl _⟩ (Nat.lt_of_le_of_lt (Nat.zero_le _) hcap)
  exact within_foldl hfirst hforget (by omega)

end Recent
