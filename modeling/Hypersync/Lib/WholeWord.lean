import Mathlib.Data.List.TakeWhile
import Mathlib.Data.List.Infix

/-!
# Replacing whole words

Some characters *glue*: a word does not start right behind one, and what follows a
word must not go on like a word.  `Boundary` has the two tests; the second may look
at the glue that follows and no further.  An occurrence that passes both is *whole*.

`Replaces rules b text out` reads `text` from left to right and puts a rule's label
for each whole occurrence of its word, all rules at once; `b` says whether a word may
start here.  If no proper end of a word can stand behind a word (`IsWord.shut`) and no
word occurs within a label, then

  * whole occurrences of different words do not touch, so the rules can be applied one
    after the other (`Replaces.comp`);
  * a replacement makes no whole occurrence that was not there (`hasWhole_of_replaces`),
    and leaves none of its own words (`not_hasWhole_of_replaces`).
-/

namespace WholeWord

/-! ## 1. Boundaries, words and rules -/

structure Boundary (α : Type*) where
  glue : α → Bool
  ok : List α → Bool
  /-- Only the glue that follows is looked at. -/
  ok_congr : ∀ {a b : List α}, a.takeWhile glue = b.takeWhile glue → ok a = ok b

variable {α : Type*} {B : Boundary α}

/-- Whether a word may start behind `pre`, if `b` says so for the place before it. -/
def Boundary.opens (B : Boundary α) (b : Bool) (pre : List α) : Bool := pre.foldl (fun _ c => !B.glue c) b

@[simp] theorem opens_cons (b : Bool) (c : α) (pre : List α) : B.opens b (c :: pre) = B.opens (!B.glue c) pre := rfl

theorem opens_append (b : Bool) (pre pre' : List α) : B.opens b (pre ++ pre') = B.opens (B.opens b pre) pre' :=
  List.foldl_append

/-- A whole occurrence of `w` in `text`. -/
def HasWhole (B : Boundary α) (b : Bool) (w text : List α) : Prop :=
  ∃ pre post, text = pre ++ (w ++ post) ∧ B.opens b pre = true ∧ B.ok post = true

/-- A word is made of glue, and no end of it can follow a word. -/
structure IsWord (B : Boundary α) (w : List α) : Prop where
  ne_nil : w ≠ []
  glued : ∀ c ∈ w, B.glue c = true
  shut : ∀ u v post, w = u ++ v → v ≠ [] → B.ok (v ++ post) = false

structure Rule (α : Type*) where
  word : List α
  label : List α

/-- The rules replace words, and no word starts right behind a label. -/
structure Valid (B : Boundary α) (rules : List (Rule α)) : Prop where
  isWord : ∀ r ∈ rules, IsWord B r.word
  closes : ∀ r ∈ rules, B.opens true r.label = false

inductive Replaces (B : Boundary α) (rules : List (Rule α)) : Bool → List α → List α → Prop where
  | nil (b : Bool) : Replaces B rules b [] []
  | keep {b : Bool} {c : α} {text out : List α}
      (hnot : b = true → ∀ r ∈ rules, ∀ post, c :: text = r.word ++ post → B.ok post = false)
      (hrest : Replaces B rules (!B.glue c) text out) : Replaces B rules b (c :: text) (c :: out)
  | replace {r : Rule α} {post out : List α} (hr : r ∈ rules) (hok : B.ok post = true)
      (hrest : Replaces B rules false post out) : Replaces B rules true (r.word ++ post) (r.label ++ out)

variable {rules rules' : List (Rule α)} {b : Bool} {c : α} {w text out : List α}

/-! ## 2. Words -/

theorem IsWord.exists_cons (h : IsWord B w) : ∃ c w', w = c :: w' ∧ B.glue c = true ∧ ∀ d ∈ w', B.glue d = true := by
  obtain ⟨c, w', rfl⟩ := List.exists_cons_of_ne_nil h.ne_nil
  exact ⟨c, w', rfl, h.glued c List.mem_cons_self, fun d hd => h.glued d (List.mem_cons_of_mem c hd)⟩

theorem opens_of_glued {u : List α} (hglue : ∀ c ∈ u, B.glue c = true) : B.opens false u = false := by
  induction u with
  | nil => rfl
  | cons c u ih =>
    rw [opens_cons, hglue c List.mem_cons_self]
    exact ih fun d hd => hglue d (List.mem_cons_of_mem c hd)

theorem IsWord.closes (h : IsWord B w) : B.opens b w = false := by
  obtain ⟨c, w', rfl, hc, hw'⟩ := h.exists_cons
  rw [opens_cons, hc]
  exact opens_of_glued hw'

/-- Two words that are whole at one place are the same. -/
theorem IsWord.unique {w' post post' : List α} (h : IsWord B w) (h' : IsWord B w')
    (heq : w ++ post = w' ++ post') (hok : B.ok post = true) (hok' : B.ok post' = true) :
    w = w' ∧ post = post' := by
  rcases List.append_eq_append_iff.mp heq with ⟨v, hw', hpost⟩ | ⟨v, hw, hpost⟩
  · rcases eq_or_ne v [] with rfl | hv
    · exact ⟨by rw [hw', List.append_nil], by rw [hpost, List.nil_append]⟩
    · have hshut := h'.shut w v post' hw' hv
      rw [← hpost, hok] at hshut
      cases hshut
  · rcases eq_or_ne v [] with rfl | hv
    · exact ⟨by rw [hw, List.append_nil], by rw [hpost, List.nil_append]⟩
    · have hshut := h.shut w' v post hw hv
      rw [← hpost, hok'] at hshut
      cases hshut

/-- No word starts within a label that does not contain it or right behind it, if what follows
    the label may follow a word. -/
theorem IsWord.not_in_label (h : IsWord B w) {l x u mid post : List α} (hapart : ¬ w <:+: l)
    (hl : l = x ++ u) (hok : B.ok mid = true) : u ++ mid ≠ w ++ post := by
  intro heq
  rcases List.append_eq_append_iff.mp heq with ⟨v, hw, hmid⟩ | ⟨v, hu', -⟩
  · rcases eq_or_ne v [] with rfl | hv
    · rw [List.append_nil] at hw
      exact hapart ⟨x, [], by rw [hl, hw, List.append_nil]⟩
    · have hshut := h.shut u v post hw hv
      rw [← hmid, hok] at hshut
      cases hshut
  · exact hapart ⟨x, v, by rw [hl, hu', List.append_assoc]⟩

/-! ## 3. Runs of glue

Where no word may start, glue is copied up to its end. -/

theorem Replaces.cons_inv (h : Replaces B rules false (c :: text) out) :
    ∃ out', out = c :: out' ∧ Replaces B rules (!B.glue c) text out' := by
  cases h with
  | keep _ hrest => exact ⟨_, rfl, hrest⟩

theorem Replaces.out_cons_inv (h : Replaces B rules false text (c :: out)) :
    ∃ text', text = c :: text' ∧ Replaces B rules (!B.glue c) text' out := by
  cases h with
  | keep _ hrest => exact ⟨_, rfl, hrest⟩

theorem Replaces.copy {u post : List α} (hglue : ∀ c ∈ u, B.glue c = true) :
    ∀ {out : List α}, Replaces B rules false (u ++ post) out →
      ∃ out', out = u ++ out' ∧ Replaces B rules false post out' := by
  induction u with
  | nil =>
    intro out h
    exact ⟨out, rfl, h⟩
  | cons c u ih =>
    intro out h
    obtain ⟨out', rfl, h'⟩ := h.cons_inv
    rw [hglue c List.mem_cons_self] at h'
    obtain ⟨out'', rfl, h''⟩ := ih (fun d hd => hglue d (List.mem_cons_of_mem c hd)) h'
    exact ⟨out'', rfl, h''⟩

theorem Replaces.copy_inv {u out : List α} (hglue : ∀ c ∈ u, B.glue c = true) :
    ∀ {text : List α}, Replaces B rules false text (u ++ out) →
      ∃ post, text = u ++ post ∧ Replaces B rules false post out := by
  induction u with
  | nil =>
    intro text h
    exact ⟨text, rfl, h⟩
  | cons c u ih =>
    intro text h
    obtain ⟨text', rfl, h'⟩ := h.out_cons_inv
    rw [hglue c List.mem_cons_self] at h'
    obtain ⟨post, rfl, h''⟩ := ih (fun d hd => hglue d (List.mem_cons_of_mem c hd)) h'
    exact ⟨post, rfl, h''⟩

theorem Replaces.glue_append {u : List α} (hglue : ∀ c ∈ u, B.glue c = true)
    (h : Replaces B rules false text out) : Replaces B rules false (u ++ text) (u ++ out) := by
  induction u with
  | nil => exact h
  | cons c u ih =>
    refine Replaces.keep (fun hb => absurd hb Bool.false_ne_true) ?_
    rw [hglue c List.mem_cons_self]
    exact ih fun d hd => hglue d (List.mem_cons_of_mem c hd)

theorem Replaces.takeWhile_eq :
    ∀ {text out : List α}, Replaces B rules false text out → text.takeWhile B.glue = out.takeWhile B.glue := by
  intro text
  induction text with
  | nil =>
    intro out h
    cases h with
    | nil => rfl
  | cons c text ih =>
    intro out h
    obtain ⟨out', rfl, h'⟩ := h.cons_inv
    rw [List.takeWhile_cons, List.takeWhile_cons]
    split
    · next hc =>
      rw [hc] at h'
      rw [ih h']
    · rfl

theorem Replaces.ok_eq (h : Replaces B rules false text out) : B.ok text = B.ok out := B.ok_congr h.takeWhile_eq

/-- A word is whole behind a kept character exactly when it was before. -/
theorem Replaces.starts_iff (hw : IsWord B w) (h : Replaces B rules (!B.glue c) text out) :
    (∃ post, c :: text = w ++ post ∧ B.ok post = true) ↔ ∃ post, c :: out = w ++ post ∧ B.ok post = true := by
  obtain ⟨d, w', rfl, hd, hw'⟩ := hw.exists_cons
  constructor
  · rintro ⟨post, heq, hok⟩
    obtain ⟨rfl, rfl⟩ := List.cons.inj heq
    rw [hd] at h
    obtain ⟨out', rfl, h'⟩ := h.copy hw'
    exact ⟨out', rfl, h'.ok_eq ▸ hok⟩
  · rintro ⟨post, heq, hok⟩
    obtain ⟨rfl, rfl⟩ := List.cons.inj heq
    rw [hd] at h
    obtain ⟨text', rfl, h'⟩ := h.copy_inv hw'
    exact ⟨text', rfl, h'.ok_eq.symm ▸ hok⟩

/-- What no word starts in is kept. -/
theorem Replaces.skip {s : List α} (h : Replaces B rules (B.opens b s) text out)
    (hnone : ∀ x u, s = x ++ u → u ≠ [] → ∀ r ∈ rules, ¬ r.word <+: u ++ text) :
    Replaces B rules b (s ++ text) (s ++ out) := by
  induction s generalizing b with
  | nil => exact h
  | cons c s ih =>
    refine Replaces.keep ?_ (ih h ?_)
    · intro _ r hr post heq
      exact absurd ⟨post, heq.symm⟩ (hnone [] (c :: s) rfl (List.cons_ne_nil c s) r hr)
    · intro x u hs hu r hr
      exact hnone (c :: x) u (by rw [hs, List.cons_append]) hu r hr

/-! ## 4. One replacement after another -/

/-- A label is kept by other rules. -/
theorem Replaces.label_inv (hvalid : Valid B rules) {l mid : List α} (hapart : ∀ r ∈ rules, ¬ r.word <:+: l)
    (hok : B.ok mid = true) {u : List α} :
    ∀ {x : List α} {b : Bool} {out : List α}, l = x ++ u → Replaces B rules b (u ++ mid) out →
      ∃ out', out = u ++ out' ∧ Replaces B rules (B.opens b u) mid out' := by
  induction u with
  | nil =>
    intro x b out _ h
    exact ⟨out, rfl, h⟩
  | cons c u ih =>
    intro x b out hl h
    have hhere : ∀ r ∈ rules, ∀ post, c :: u ++ mid ≠ r.word ++ post := fun r hr post =>
      (hvalid.isWord r hr).not_in_label (hapart r hr) hl hok
    generalize htext : c :: u ++ mid = text at h
    cases h with
    | nil => cases htext
    | keep _ hrest =>
      obtain ⟨rfl, rfl⟩ := List.cons.inj htext
      obtain ⟨out', rfl, h'⟩ := ih (show l = (x ++ [c]) ++ u by rw [hl, List.append_assoc, List.singleton_append]) hrest
      exact ⟨out', rfl, h'⟩
    | replace hr _ _ => exact absurd htext (hhere _ hr _)

/-- **The rules can be applied one after the other.** -/
theorem Replaces.comp (hvalid : Valid B rules) (hvalid' : Valid B rules')
    (hapart : ∀ r ∈ rules, ∀ r' ∈ rules', ¬ r'.word <:+: r.label) {mid : List α}
    (h : Replaces B rules b text mid) :
    ∀ {out : List α}, Replaces B rules' b mid out → Replaces B (rules ++ rules') b text out := by
  induction h with
  | nil b =>
    intro out h'
    generalize hmid : ([] : List α) = mid at h'
    cases h' with
    | nil => exact Replaces.nil b
    | keep => cases hmid
    | @replace r post out hr _ _ =>
      -- a word is not empty
      exact absurd (List.append_eq_nil_iff.mp hmid.symm).1 (hvalid'.isWord r hr).ne_nil
  | @keep b c text mid hnot hrest ih =>
    intro out h'
    generalize hmid : c :: mid = mid' at h'
    cases h' with
    | nil => cases hmid
    | keep hnot' hrest' =>
      obtain ⟨rfl, rfl⟩ := List.cons.inj hmid
      refine Replaces.keep ?_ (ih hrest')
      intro hb r hr post heq
      rcases List.mem_append.mp hr with hr | hr
      · exact hnot hb r hr post heq
      · by_contra hok
        rw [Bool.not_eq_false] at hok
        obtain ⟨post', heq', hok'⟩ := (hrest.starts_iff (hvalid'.isWord r hr)).mp ⟨post, heq, hok⟩
        rw [hnot' hb r hr post' heq'] at hok'
        cases hok'
    | @replace r post' out' hr hok' hrest' =>
      -- the word was whole in `text` too, and the rest of the run is copied
      obtain ⟨d, w', hword, hd, hw'⟩ := (hvalid'.isWord r hr).exists_cons
      rw [hword] at hmid
      obtain ⟨rfl, rfl⟩ := List.cons.inj hmid
      rw [hd] at hrest ih
      obtain ⟨post, rfl, hpost⟩ := hrest.copy_inv hw'
      obtain ⟨out'', heq, hcont⟩ := (ih (hrest'.glue_append hw')).copy hw'
      rw [← List.cons_append, ← hword]
      refine Replaces.replace (List.mem_append_right rules hr) (hpost.ok_eq.trans hok') ?_
      rw [List.append_cancel_left heq]
      exact hcont
  | @replace r post mid hr hok hrest ih =>
    intro out h'
    obtain ⟨out', rfl, hout⟩ :=
      Replaces.label_inv hvalid' (hapart r hr) (hrest.ok_eq ▸ hok) (List.nil_append _).symm h'
    rw [hvalid.closes r hr] at hout
    exact Replaces.replace (List.mem_append_left rules' hr) hok (ih hout)

/-! ## 5. What a replacement leaves -/

/-- **Nothing is created or exposed.**  A whole occurrence in the result was one before, and not
    of a word that is replaced. -/
theorem hasWhole_of_replaces (hvalid : Valid B rules) (hw : IsWord B w)
    (hapart : ∀ r ∈ rules, ¬ w <:+: r.label) (h : Replaces B rules b text out) :
    HasWhole B b w out → HasWhole B b w text ∧ ∀ r ∈ rules, r.word ≠ w := by
  induction h with
  | nil b =>
    rintro ⟨pre, post, heq, -, -⟩
    have hnil := (List.append_eq_nil_iff.mp heq.symm).2
    exact absurd (List.append_eq_nil_iff.mp hnil).1 hw.ne_nil
  | @keep b c text out hnot hrest ih =>
    rintro ⟨pre, post, heq, hopens, hok⟩
    cases pre with
    | nil =>
      obtain ⟨post', heq', hok'⟩ := (hrest.starts_iff hw).mpr ⟨post, heq, hok⟩
      refine ⟨⟨[], post', heq', hopens, hok'⟩, ?_⟩
      rintro r hr rfl
      rw [hnot hopens r hr post' heq'] at hok'
      cases hok'
    | cons d pre =>
      obtain ⟨rfl, rfl⟩ := List.cons.inj heq
      obtain ⟨⟨pre', post', rfl, hopens', hok'⟩, hne⟩ := ih ⟨pre, post, rfl, hopens, hok⟩
      exact ⟨⟨c :: pre', post', rfl, hopens', hok'⟩, hne⟩
  | @replace r rest out hr hok hrest ih =>
    rintro ⟨pre, post, heq, hopens, hok'⟩
    rcases List.append_eq_append_iff.mp heq with ⟨v, rfl, hout⟩ | ⟨v, hlabel, hmid⟩
    · -- behind the label
      rw [opens_append, hvalid.closes r hr] at hopens
      obtain ⟨⟨pre', post', rfl, hopens', hok''⟩, hne⟩ := ih ⟨v, post, hout, hopens, hok'⟩
      refine ⟨⟨r.word ++ pre', post', (List.append_assoc _ _ _).symm, ?_, hok''⟩, hne⟩
      rw [opens_append, (hvalid.isWord r hr).closes]
      exact hopens'
    · -- not within it
      exact absurd hmid.symm (hw.not_in_label (hapart r hr) hlabel (hrest.ok_eq ▸ hok))

theorem not_hasWhole_of_replaces (hvalid : Valid B rules)
    (hapart : ∀ r ∈ rules, ∀ r' ∈ rules, ¬ r'.word <:+: r.label) (h : Replaces B rules b text out) {r : Rule α}
    (hr : r ∈ rules) : ¬ HasWhole B b r.word out := by
  intro hwhole
  exact (hasWhole_of_replaces hvalid (hvalid.isWord r hr) (fun r' hr' => hapart r' hr' r hr) h hwhole).2 r hr rfl

/-- Where there is nothing to replace, nothing changes. -/
theorem Replaces.eq_of_clean (h : Replaces B rules b text out)
    (hclean : ∀ r ∈ rules, ¬ HasWhole B b r.word text) : out = text := by
  induction h with
  | nil => rfl
  | @keep b c text out _ _ ih =>
    rw [ih]
    rintro r hr ⟨pre, post, heq, hopens, hok⟩
    exact hclean r hr ⟨c :: pre, post, by rw [heq, List.cons_append], hopens, hok⟩
  | @replace r post out hr hok _ _ => exact absurd ⟨[], post, rfl, rfl, hok⟩ (hclean r hr)

theorem replaces_self (hclean : ∀ r ∈ rules, ¬ HasWhole B b r.word text) : Replaces B rules b text text := by
  induction text generalizing b with
  | nil => exact Replaces.nil b
  | cons c text ih =>
    refine Replaces.keep ?_ (ih ?_)
    · intro hb r hr post heq
      by_contra hok
      rw [Bool.not_eq_false] at hok
      exact hclean r hr ⟨[], post, heq, hb, hok⟩
    · rintro r hr ⟨pre, post, heq, hopens, hok⟩
      exact hclean r hr ⟨c :: pre, post, by rw [heq, List.cons_append], hopens, hok⟩

/-- Rules with different words leave no choice. -/
theorem Replaces.unique (hvalid : Valid B rules) (hdet : ∀ r ∈ rules, ∀ r' ∈ rules, r.word = r'.word → r = r')
    (h : Replaces B rules b text out) : ∀ {out' : List α}, Replaces B rules b text out' → out = out' := by
  induction h with
  | nil b =>
    intro out' h'
    generalize htext : ([] : List α) = text at h'
    cases h' with
    | nil => rfl
    | keep => cases htext
    | @replace r post out hr _ _ =>
      exact absurd (List.append_eq_nil_iff.mp htext.symm).1 (hvalid.isWord r hr).ne_nil
  | @keep b c text out hnot _ ih =>
    intro out' h'
    generalize htext : c :: text = text' at h'
    cases h' with
    | nil => cases htext
    | keep _ hrest' =>
      obtain ⟨rfl, rfl⟩ := List.cons.inj htext
      rw [ih hrest']
    | @replace r post _ hr hok _ =>
      rw [hnot rfl r hr post htext] at hok
      cases hok
  | @replace r post out hr hok _ ih =>
    intro out' h'
    generalize htext : r.word ++ post = text' at h'
    cases h' with
    | nil => exact absurd (List.append_eq_nil_iff.mp htext).1 (hvalid.isWord r hr).ne_nil
    | keep hnot _ =>
      rw [hnot rfl r hr post htext.symm] at hok
      cases hok
    | @replace r' post' out' hr' hok' hrest' =>
      obtain ⟨hword, rfl⟩ := (hvalid.isWord r hr).unique (hvalid.isWord r' hr') htext hok hok'
      rw [hdet r hr r' hr' hword, ih hrest']

end WholeWord
