import Hypersync.Lib.Word
import Mathlib.Data.List.Chain
import Mathlib.Order.MinMax
import Mathlib.Data.List.Sort
import Mathlib.Data.List.TakeWhile

/-!
# The stuck catch-up

A node that catches up asks for batch after batch of client blocks.  The gateway
notes when each was answered, how far behind the freshest round it started and how
many rounds it asked for, and ends the node's session once the catch-up has sat
still for a whole window.

What is noted is trimmed, by age and by number.  The verdict is nevertheless the
one the whole history gives: a batch trimmed by age lies outside every window, and
one trimmed by number moves the start of the run past it.
-/

namespace Hypersync.Gateway

/-! ## 1. The batches of a run -/

def CATCHUP_RUN_GAP : Nat := 60000000000

def CATCHUP_PROGRESS_ROUNDS : UInt32 := 150

def CATCHUP_CLOSING_ROUNDS : UInt32 := 50

def CATCHUP_LOOP_MAX_WIDTH : UInt32 := 64

def CATCHUP_SAMPLE_SPAN : Nat := 300000000000

def CATCHUP_MAX_SAMPLES : Nat := 1024

/-- One answered batch: when, how far behind (if the tip was known), and its width. -/
structure Batch where
  at_ : Nat
  behind : Option UInt32
  width : UInt32
deriving DecidableEq, Repr

structure ClientBlockRun where
  since : Nat
  last : Nat
  samples : List Batch
deriving DecidableEq, Repr

namespace ClientBlockRun

/-- The second trimming loop: past the cap the oldest go, and the run starts behind them. -/
def dropExcess (since : Nat) : List Batch → Nat × List Batch
  | [] => (since, [])
  | b :: rest =>
    if CATCHUP_MAX_SAMPLES < (b :: rest).length then dropExcess (max since b.at_) rest else (since, b :: rest)

/-- Both trimming loops, at a batch answered at `now`. -/
def trim (since now : Nat) (samples : List Batch) : Nat × List Batch :=
  dropExcess since (samples.dropWhile fun b => CATCHUP_SAMPLE_SPAN < now - b.at_)

end ClientBlockRun

/-- `mark_client_blocks_response` -/
def markClientBlocksResponse (run : Option ClientBlockRun) (b : Batch) : Option ClientBlockRun :=
  match run with
  | some r =>
    if b.at_ - r.last < CATCHUP_RUN_GAP then
      let (since, samples) := ClientBlockRun.trim r.since b.at_ (r.samples ++ [b])
      some { since := since, last := b.at_, samples := samples }
    else some { since := b.at_, last := b.at_, samples := [b] }
  | none => some { since := b.at_, last := b.at_, samples := [b] }

/-- The middle value, the upper one of two. -/
def median? (v : List UInt32) : Option UInt32 := (v.insertionSort (· ≤ ·))[v.length / 2]?

def median (v : List UInt32) : UInt32 := (median? v).getD 0

/-- How many batches a third of the window has. -/
def third (n : Nat) : Nat := max (n / 3) 1

/-- The test on the distances and widths of a window. -/
def sitsStill (d widths : List UInt32) : Bool :=
  let lo := d.min?.getD 0
  let hi := d.max?.getD 0
  let closing := CATCHUP_CLOSING_ROUNDS ≤
    Word.satSub (median (d.take (third d.length))) (median (d.drop (d.length - third d.length)))
  hi - lo < CATCHUP_PROGRESS_ROUNDS && !closing && median widths < CATCHUP_LOOP_MAX_WIDTH

/-- The batches of a window sit still: there are some, and each has a known distance. -/
def stillWindow (inWindow : List Batch) : Bool :=
  match inWindow.mapM Batch.behind with
  | none => false
  | some [] => false
  | some d => sitsStill d (inWindow.map Batch.width)

/-- `client_blocks_stalled`: whether the catch-up sat still over the window, and how far
    behind it is. -/
def clientBlocksStalled (run : Option ClientBlockRun) (now quiet window : Nat) : Option (Bool × Option UInt32) :=
  match run with
  | none => none
  | some r =>
    if now - r.last < quiet then
      let behind := r.samples.getLast?.bind Batch.behind
      if now < window then some (false, behind)
      else
        let start := now - window
        if start < r.since then some (false, behind)
        else some (stillWindow (r.samples.filter fun b => start < b.at_), behind)
    else none

/-! ## 2. The verdict on the whole history -/

/-- `run` is the current run of the batches: no gap within it, and one before it. -/
def CurrentRun (batches run : List Batch) : Prop :=
  ∃ before, batches = before ++ run ∧ run ≠ [] ∧ run.IsChain (fun a b => b.at_ - a.at_ < CATCHUP_RUN_GAP) ∧
    ∀ z ∈ before.getLast?, ∀ b ∈ run.head?, CATCHUP_RUN_GAP ≤ b.at_ - z.at_

/-- The batch falls into the window that ends at `now`. -/
def InWindow (now window : Nat) (b : Batch) : Prop := now < b.at_ + window ∧ b.at_ ≤ now

instance (now window : Nat) (b : Batch) : Decidable (InWindow now window b) := inferInstanceAs (Decidable (_ ∧ _))

/-- The distances stay within the band, do not close in from the first third to the last,
    and the requests are narrow. -/
structure Still (d widths : List UInt32) : Prop where
  band : ∀ a ∈ d, ∀ b ∈ d, a.toNat < b.toNat + CATCHUP_PROGRESS_ROUNDS.toNat
  steady : ∀ a ∈ median? (d.take (third d.length)), ∀ b ∈ median? (d.drop (d.length - third d.length)),
    a.toNat < b.toNat + CATCHUP_CLOSING_ROUNDS.toNat
  narrow : ∃ m ∈ median? widths, m < CATCHUP_LOOP_MAX_WIDTH

/-- The catch-up is stuck, judged on every batch there was. -/
structure Stuck (batches : List Batch) (now quiet window : Nat) (run : List Batch) : Prop where
  current : CurrentRun batches run
  old : ∀ b ∈ run.head?, b.at_ + window ≤ now
  lively : ∀ b ∈ run.getLast?, now < b.at_ + quiet
  still : ∃ d, (run.filter fun b => InWindow now window b).map Batch.behind = d.map some ∧
    Still d ((run.filter fun b => InWindow now window b).map Batch.width)

namespace CurrentRun

variable {batches run : List Batch} {b : Batch}

theorem ne_nil (h : CurrentRun batches run) : run ≠ [] := by
  obtain ⟨-, -, hne, -⟩ := h
  exact hne

/-- A batch without a gap before it goes on with the run. -/
theorem concat (h : CurrentRun batches run) (hgap : ∀ z ∈ run.getLast?, b.at_ - z.at_ < CATCHUP_RUN_GAP) :
    CurrentRun (batches ++ [b]) (run ++ [b]) := by
  obtain ⟨before, rfl, hne, hchain, hfirst⟩ := h
  refine ⟨before, List.append_assoc .., List.append_ne_nil_of_left_ne_nil hne _, ?_, ?_⟩
  · apply hchain.append (List.isChain_singleton b)
    intro z hz y hy
    cases hy
    exact hgap z hz
  · intro z hz y hy
    rw [List.head?_append_of_ne_nil _ hne] at hy
    exact hfirst z hz y hy

/-- One behind a gap starts a run. -/
theorem restart (hgap : ∀ z ∈ batches.getLast?, CATCHUP_RUN_GAP ≤ b.at_ - z.at_) :
    CurrentRun (batches ++ [b]) [b] := by
  refine ⟨batches, rfl, List.cons_ne_nil b [], List.isChain_singleton b, ?_⟩
  intro z hz y hy
  cases hy
  exact hgap z hz

theorem getLast?_eq (h : CurrentRun batches run) : batches.getLast? = run.getLast? := by
  obtain ⟨before, rfl, hne, -⟩ := h
  exact List.getLast?_append_of_ne_nil _ hne

/-- Of two current runs the longer one would have a gap. -/
theorem eq_of_suffix {run' : List Batch} (h : CurrentRun batches run) (h' : CurrentRun batches run')
    (hsuffix : run <:+ run') : run = run' := by
  obtain ⟨mid, rfl⟩ := hsuffix
  obtain ⟨before, hbatches, hne, -, hfirst⟩ := h
  obtain ⟨before', hbatches', -, hchain, -⟩ := h'
  rcases mid.eq_nil_or_concat' with rfl | ⟨front, z, rfl⟩
  · rfl
  · rw [hbatches, ← List.append_assoc] at hbatches'
    have hbefore : before = before' ++ (front ++ [z]) := List.append_cancel_right hbatches'
    obtain ⟨b, hb⟩ := Option.isSome_iff_exists.mp (List.isSome_head?.mpr hne)
    have hgap := hfirst z (by rw [hbefore, ← List.append_assoc, List.getLast?_concat]; rfl) b hb
    have hlink := (List.isChain_append.mp hchain).2.2 z (by rw [List.getLast?_concat]; rfl) b hb
    omega

theorem unique {run' : List Batch} (h : CurrentRun batches run) (h' : CurrentRun batches run') : run = run' := by
  have hs : run <:+ batches := by
    obtain ⟨before, rfl, -⟩ := h
    exact List.suffix_append before run
  have hs' : run' <:+ batches := by
    obtain ⟨before, rfl, -⟩ := h'
    exact List.suffix_append before run'
  rcases List.suffix_or_suffix_of_suffix hs hs' with hle | hle
  · exact h.eq_of_suffix h' hle
  · exact (h'.eq_of_suffix h hle).symm

end CurrentRun

/-! ## 3. Trimming -/

namespace ClientBlockRun

/-- Why a run that started at `first` may count as starting at `since`: a full cap of
    batches came behind the one that was. -/
def Moved (since : Nat) (batches : List Batch) : Prop :=
  ∃ pre d post, batches = pre ++ d :: post ∧ d.at_ = since ∧ CATCHUP_MAX_SAMPLES ≤ post.length

theorem dropExcess_spec (since : Nat) (samples : List Batch) :
    since ≤ (dropExcess since samples).1 ∧
    ((dropExcess since samples).1 = since ∨ Moved (dropExcess since samples).1 samples) ∧
    ∃ excess, samples = excess ++ (dropExcess since samples).2 ∧
      (∀ d ∈ excess, d.at_ ≤ (dropExcess since samples).1) ∧
      (samples ≠ [] → (dropExcess since samples).2 ≠ []) := by
  induction samples generalizing since with
  | nil => exact ⟨le_refl _, Or.inl rfl, [], rfl, nofun, fun h => absurd rfl h⟩
  | cons b rest ih =>
    rw [dropExcess]
    split
    · rename_i hlong
      obtain ⟨hle, hmoved, excess, hrest, hexcess, hne⟩ := ih (max since b.at_)
      have hlength : CATCHUP_MAX_SAMPLES ≤ rest.length := Nat.le_of_lt_succ hlong
      refine ⟨(le_max_left _ _).trans hle, ?_, b :: excess, by rw [List.cons_append, ← hrest], ?_, ?_⟩
      · rcases hmoved with hsame | ⟨pre, d, post, hsplit, hd, hpost⟩
        · -- the start is the old one, or that of the batch just dropped
          rw [hsame]
          rcases le_total b.at_ since with hb | hb
          · exact Or.inl (max_eq_left hb)
          · exact Or.inr ⟨[], b, rest, rfl, (max_eq_right hb).symm, hlength⟩
        · exact Or.inr ⟨b :: pre, d, post, by rw [hsplit, List.cons_append], hd, hpost⟩
      · intro d hd
        rcases List.mem_cons.mp hd with rfl | hd
        · exact (le_max_right _ _).trans hle
        · exact hexcess d hd
      · intro _
        apply hne
        rintro rfl
        cases hlength
    · exact ⟨le_refl _, Or.inl rfl, [], rfl, nofun, id⟩

/-- The batch at `now` stays, and so does every one that neither is too old nor lies before
    the start. -/
theorem trim_spec (since now : Nat) {samples : List Batch} {z : Batch} (hz : samples.getLast? = some z)
    (hnow : z.at_ = now) :
    since ≤ (trim since now samples).1 ∧
    ((trim since now samples).1 = since ∨ Moved (trim since now samples).1 samples) ∧
    (trim since now samples).2.getLast? = some z ∧
    ∃ gone, samples = gone ++ (trim since now samples).2 ∧
      ∀ d ∈ gone, d.at_ ≤ (trim since now samples).1 ∨ CATCHUP_SAMPLE_SPAN < now - d.at_ := by
  obtain ⟨hle, hmoved, excess, hkept, hexcess, hne⟩ :=
    dropExcess_spec since (samples.dropWhile fun b => CATCHUP_SAMPLE_SPAN < now - b.at_)
  have hsplit := List.takeWhile_append_dropWhile (p := fun b : Batch => decide (CATCHUP_SAMPLE_SPAN < now - b.at_))
    (l := samples)
  have hyoung : samples.dropWhile (fun b => CATCHUP_SAMPLE_SPAN < now - b.at_) ≠ [] := by
    intro hnil
    have hold := List.dropWhile_eq_nil_iff.mp hnil z (List.mem_of_getLast? hz)
    rw [decide_eq_true_eq, hnow, Nat.sub_self] at hold
    exact absurd hold (Nat.not_lt_zero _)
  have hkeptne := hne hyoung
  rw [hkept] at hsplit
  refine ⟨hle, ?_, ?_, samples.takeWhile (fun b => CATCHUP_SAMPLE_SPAN < now - b.at_) ++ excess, ?_, ?_⟩
  · rcases hmoved with hsame | ⟨pre, d, post, hdrop, hd, hpost⟩
    · exact Or.inl hsame
    · refine Or.inr ⟨samples.takeWhile (fun b => CATCHUP_SAMPLE_SPAN < now - b.at_) ++ pre, d, post, ?_, hd, hpost⟩
      rw [List.append_assoc, ← hdrop, List.takeWhile_append_dropWhile]
  · have hlast := congrArg List.getLast? hsplit
    rw [← List.append_assoc, List.getLast?_append_of_ne_nil _ hkeptne] at hlast
    exact hlast.trans hz
  · rw [List.append_assoc]
    exact hsplit.symm
  · intro d hd
    rcases List.mem_append.mp hd with hd | hd
    · have hold := List.mem_takeWhile_imp hd
      exact Or.inr (decide_eq_true_eq.mp hold)
    · exact Or.inl (hexcess d hd)

/-- The state against all the batches there were; `gone` are those of the current run that
    were trimmed. -/
structure Noted (batches gone : List Batch) (r : ClientBlockRun) : Prop where
  current : CurrentRun batches (gone ++ r.samples)
  last : r.samples.getLast?.map Batch.at_ = some r.last
  started : ∀ b ∈ (gone ++ r.samples).head?, b.at_ ≤ r.since
  moved : (∀ b ∈ (gone ++ r.samples).head?, b.at_ = r.since) ∨ Moved r.since (gone ++ r.samples)
  trimmed : ∀ d ∈ gone, d.at_ ≤ r.since ∨ CATCHUP_SAMPLE_SPAN < r.last - d.at_

theorem Noted.restart {batches : List Batch} {b : Batch}
    (hgap : ∀ z ∈ batches.getLast?, CATCHUP_RUN_GAP ≤ b.at_ - z.at_) :
    Noted (batches ++ [b]) [] { since := b.at_, last := b.at_, samples := [b] } := by
  refine ⟨CurrentRun.restart hgap, rfl, ?_, Or.inl ?_, nofun⟩
  · intro y hy
    cases hy
    exact le_refl _
  · intro y hy
    cases hy
    rfl

theorem Moved.append {since : Nat} {batches : List Batch} (h : Moved since batches) (pre post : List Batch) :
    Moved since (pre ++ batches ++ post) := by
  obtain ⟨pre', d, post', rfl, hd, hpost⟩ := h
  refine ⟨pre ++ pre', d, post' ++ post, by simp only [List.append_assoc, List.cons_append], hd, ?_⟩
  rw [List.length_append]
  exact hpost.trans (Nat.le_add_right _ _)

/-- One more batch of the same run. -/
theorem Noted.extend {batches gone : List Batch} {r : ClientBlockRun} {b : Batch} (h : Noted batches gone r)
    (hlast : r.last ≤ b.at_) (hgap : b.at_ - r.last < CATCHUP_RUN_GAP) :
    ∃ gone', Noted (batches ++ [b]) gone'
      { since := (trim r.since b.at_ (r.samples ++ [b])).1
        last := b.at_
        samples := (trim r.since b.at_ (r.samples ++ [b])).2 } := by
  obtain ⟨hle, hmoved, hlast', gone', hsplit, hgone⟩ :=
    trim_spec r.since b.at_ List.getLast?_concat rfl
  have hrun : gone ++ gone' ++ (trim r.since b.at_ (r.samples ++ [b])).2 = gone ++ r.samples ++ [b] := by
    rw [List.append_assoc, ← hsplit, List.append_assoc]
  obtain ⟨z, hz, hzlast⟩ := Option.map_eq_some_iff.mp h.last
  have hne : gone ++ r.samples ≠ [] := h.current.ne_nil
  have hcurrent : CurrentRun (batches ++ [b]) (gone ++ r.samples ++ [b]) := by
    apply h.current.concat
    intro y hy
    rw [List.getLast?_append, hz] at hy
    cases hy
    rw [hzlast]
    exact hgap
  refine ⟨gone ++ gone', ?_, ?_, ?_, ?_, ?_⟩
  · rw [hrun]
    exact hcurrent
  · rw [hlast']
    rfl
  · rw [hrun, List.head?_append_of_ne_nil _ hne]
    intro y hy
    exact (h.started y hy).trans hle
  · rw [hrun, List.head?_append_of_ne_nil _ hne]
    rcases hmoved with hsame | hmoved
    · rw [hsame]
      refine h.moved.imp_right fun hm => ?_
      simpa using hm.append [] [b]
    · refine Or.inr ?_
      simpa using hmoved.append gone []
  · intro d hd
    rcases List.mem_append.mp hd with hd | hd
    · rcases h.trimmed d hd with hd | hd
      · exact Or.inl (hd.trans hle)
      · exact Or.inr (lt_of_lt_of_le hd (Nat.sub_le_sub_right hlast _))
    · exact hgone d hd

end ClientBlockRun

/-- What the gateway has noted after the batches. -/
def noted (batches : List Batch) : Option ClientBlockRun := batches.foldl markClientBlocksResponse none

theorem noted_concat (batches : List Batch) (b : Batch) :
    noted (batches ++ [b]) = markClientBlocksResponse (noted batches) b := List.foldl_concat ..

/-- **What is noted of any batches.** -/
theorem noted_spec {batches : List Batch} (hsorted : batches.Pairwise fun a b => a.at_ ≤ b.at_) :
    batches = [] ∧ noted batches = none ∨
      ∃ r gone, noted batches = some r ∧ ClientBlockRun.Noted batches gone r := by
  induction batches using List.reverseRecOn with
  | nil => exact Or.inl ⟨rfl, rfl⟩
  | append_singleton batches b ih =>
    right
    obtain ⟨hbefore, -, hupTo⟩ := List.pairwise_append.mp hsorted
    rw [noted_concat]
    rcases ih hbefore with ⟨rfl, hnone⟩ | ⟨r, gone, hr, hnoted⟩
    · rw [hnone]
      exact ⟨_, [], rfl, ClientBlockRun.Noted.restart nofun⟩
    · rw [hr]
      obtain ⟨z, hz, hzlast⟩ := Option.map_eq_some_iff.mp hnoted.last
      have hlast : batches.getLast? = some z := by
        rw [hnoted.current.getLast?_eq, List.getLast?_append, hz]
        rfl
      by_cases hgap : b.at_ - r.last < CATCHUP_RUN_GAP
      · have hle : r.last ≤ b.at_ := hzlast ▸ hupTo z (List.mem_of_getLast? hlast) b (List.mem_singleton_self b)
        obtain ⟨gone', hnoted'⟩ := hnoted.extend hle hgap
        exact ⟨_, gone', if_pos hgap, hnoted'⟩
      · refine ⟨_, [], if_neg hgap, ClientBlockRun.Noted.restart ?_⟩
        intro y hy
        rw [hlast] at hy
        cases hy
        rw [hzlast]
        exact not_lt.mp hgap

/-! ## 4. The verdict -/

theorem exists_median {v : List UInt32} (h : v ≠ []) : ∃ m, median? v = some m := by
  have hlt : v.length / 2 < (v.insertionSort (· ≤ ·)).length := by
    rw [List.length_insertionSort]
    exact Nat.div_lt_self (List.length_pos_of_ne_nil h) Nat.one_lt_two
  exact ⟨_, List.getElem?_eq_getElem hlt⟩

/-- The band is narrower than its width exactly when the extremes are. -/
theorem band_iff {d : List UInt32} (h : d ≠ []) (width : UInt32) :
    d.max?.getD 0 - d.min?.getD 0 < width ↔ ∀ a ∈ d, ∀ b ∈ d, a.toNat < b.toNat + width.toNat := by
  obtain ⟨lo, hlo⟩ := Option.isSome_iff_exists.mp (List.isSome_min?_of_ne_nil h)
  obtain ⟨hi, hhi⟩ := Option.isSome_iff_exists.mp (List.isSome_max?_of_ne_nil h)
  obtain ⟨hlomem, hlole⟩ := List.min?_eq_some_iff.mp hlo
  obtain ⟨himem, hile⟩ := List.max?_eq_some_iff.mp hhi
  have hlohi : lo.toNat ≤ hi.toNat := UInt32.le_iff_toNat_le.mp (hlole hi himem)
  rw [hlo, hhi, Option.getD_some, Option.getD_some, UInt32.lt_iff_toNat_lt,
    UInt32.toNat_sub_of_le _ _ (hlole hi himem)]
  constructor
  · intro hlt a ha b hb
    have ha := UInt32.le_iff_toNat_le.mp (hile a ha)
    have hb := UInt32.le_iff_toNat_le.mp (hlole b hb)
    omega
  · intro hall
    have hlt := hall hi himem lo hlomem
    omega

theorem third_spec {n : Nat} (h : 0 < n) : 0 < third n ∧ third n ≤ n := by
  unfold third
  omega

theorem sitsStill_iff {d widths : List UInt32} (hd : d ≠ []) (hw : widths ≠ []) :
    sitsStill d widths = true ↔ Still d widths := by
  obtain ⟨hthird, hthirdle⟩ := third_spec (List.length_pos_of_ne_nil hd)
  have htake : d.take (third d.length) ≠ [] := by
    rw [← List.length_pos_iff_ne_nil, List.length_take]
    omega
  have hdrop : d.drop (d.length - third d.length) ≠ [] := by
    rw [← List.length_pos_iff_ne_nil, List.length_drop]
    omega
  obtain ⟨first, hfirst⟩ := exists_median htake
  obtain ⟨last, hlast⟩ := exists_median hdrop
  obtain ⟨m, hm⟩ := exists_median hw
  have hclosing : ¬ CATCHUP_CLOSING_ROUNDS ≤ Word.satSub first last ↔
      first.toNat < last.toNat + CATCHUP_CLOSING_ROUNDS.toNat := by
    rw [not_le, UInt32.lt_iff_toNat_lt, Word.toNat_satSub]
    have hpos : 0 < CATCHUP_CLOSING_ROUNDS.toNat := by decide
    omega
  simp only [sitsStill, median, hfirst, hlast, hm, Option.getD_some, Bool.and_eq_true, decide_eq_true_eq,
    Bool.not_eq_true', decide_eq_false_iff_not, band_iff hd, hclosing]
  constructor
  · rintro ⟨⟨hband, hsteady⟩, hnarrow⟩
    refine ⟨hband, ?_, m, hm, hnarrow⟩
    intro a ha b hb
    rw [hfirst] at ha
    rw [hlast] at hb
    cases ha
    cases hb
    exact hsteady
  · rintro ⟨hband, hsteady, m', hm', hnarrow⟩
    rw [hm] at hm'
    cases hm'
    exact ⟨⟨hband, hsteady first hfirst last hlast⟩, hnarrow⟩

/-- Every batch has a known distance exactly when the collected list exists. -/
theorem mapM_behind_iff (l : List Batch) (d : List UInt32) :
    l.mapM Batch.behind = some d ↔ l.map Batch.behind = d.map some := by
  induction l generalizing d with
  | nil => cases d <;> simp
  | cons b l ih =>
    rw [List.mapM_cons, List.map_cons]
    cases b.behind with
    | none => cases d <;> simp
    | some x => cases d <;> simp [Option.bind_eq_some_iff, ih, and_comm]

namespace ClientBlockRun.Noted

variable {batches gone : List Batch} {r : ClientBlockRun} {now window : Nat}

theorem last_le (h : Noted batches gone r) (hupTo : ∀ b ∈ batches, b.at_ ≤ now) : r.last ≤ now := by
  obtain ⟨z, hz, hzlast⟩ := Option.map_eq_some_iff.mp h.last
  obtain ⟨before, hbatches, -⟩ := h.current
  rw [← hzlast]
  apply hupTo z
  rw [hbatches]
  exact List.mem_append_right _ (List.mem_append_right _ (List.mem_of_getLast? hz))

/-- What was trimmed lies before every window the verdict is given on. -/
theorem window_eq (h : Noted batches gone r) (hupTo : ∀ b ∈ batches, b.at_ ≤ now)
    (hspan : window ≤ CATCHUP_SAMPLE_SPAN) (hwindow : window ≤ now) (hsince : r.since ≤ now - window) :
    ((gone ++ r.samples).filter fun b => InWindow now window b) = r.samples.filter fun b => now - window < b.at_ := by
  have hlast := h.last_le hupTo
  have hgone : (gone.filter fun b => InWindow now window b) = [] := by
    rw [List.filter_eq_nil_iff]
    intro d hd hin
    obtain ⟨hafter, -⟩ := of_decide_eq_true hin
    rcases h.trimmed d hd with hold | hold <;> omega
  rw [List.filter_append, hgone, List.nil_append]
  apply List.filter_congr
  intro b hb
  obtain ⟨before, hbatches, -⟩ := h.current
  have hle : b.at_ ≤ now := by
    apply hupTo b
    rw [hbatches]
    exact List.mem_append_right _ (List.mem_append_right _ hb)
  rw [decide_eq_decide, InWindow]
  omega

/-- A start moved into the window leaves more batches there than the cap. -/
theorem since_le (h : Noted batches gone r) (hsorted : batches.Pairwise fun a b => a.at_ ≤ b.at_)
    (hupTo : ∀ b ∈ batches, b.at_ ≤ now) (hfew : (batches.countP fun b => InWindow now window b) ≤ CATCHUP_MAX_SAMPLES)
    (hold : ∀ b ∈ (gone ++ r.samples).head?, b.at_ + window ≤ now) : r.since ≤ now - window := by
  rcases h.moved with hfirst | ⟨pre, d, post, hrun, hd, hpost⟩
  · obtain ⟨b, hb⟩ := Option.isSome_iff_exists.mp (List.isSome_head?.mpr h.current.ne_nil)
    have hb' := hold b hb
    rw [← hfirst b hb]
    omega
  · by_contra hlate
    obtain ⟨before, hbatches, -⟩ := h.current
    rw [hrun, ← List.append_assoc] at hbatches
    have hlater : ∀ b ∈ d :: post, InWindow now window b := by
      intro b hb
      refine ⟨?_, hupTo b (hbatches ▸ List.mem_append_right _ hb)⟩
      have hdb : d.at_ ≤ b.at_ := by
        rcases List.mem_cons.mp hb with rfl | hb
        · exact le_refl _
        · rw [hbatches] at hsorted
          exact List.rel_of_pairwise_cons (List.pairwise_append.mp hsorted).2.1 hb
      omega
    have hall : (d :: post).countP (fun b => InWindow now window b) = post.length + 1 := by
      rw [List.countP_eq_length.mpr fun b hb => decide_eq_true (hlater b hb), List.length_cons]
    rw [hbatches, List.countP_append, hall] at hfew
    omega

end ClientBlockRun.Noted

theorem stillWindow_iff (inWindow : List Batch) :
    stillWindow inWindow = true ↔
      ∃ d, inWindow.map Batch.behind = d.map some ∧ Still d (inWindow.map Batch.width) := by
  simp only [← mapM_behind_iff, stillWindow]
  cases hd : inWindow.mapM Batch.behind with
  | none => simp
  | some d =>
    have hlength := congrArg List.length ((mapM_behind_iff inWindow d).mp hd)
    rw [List.length_map, List.length_map] at hlength
    cases d with
    | nil =>
      -- no batch, hence no median width
      obtain rfl : inWindow = [] := List.length_eq_zero_iff.mp hlength
      simp only [Bool.false_eq_true, false_iff, not_exists, not_and]
      rintro d - hstill
      obtain ⟨m, hm, -⟩ := hstill.narrow
      cases hm
    | cons x d =>
      have hwidths : inWindow.map Batch.width ≠ [] := by
        rw [← List.length_pos_iff_ne_nil, List.length_map, hlength]
        exact Nat.succ_pos _
      simp [sitsStill_iff (List.cons_ne_nil x d) hwidths]

/-- The verdict, spelled out. -/
theorem stalled_iff (r : ClientBlockRun) (now quiet window : Nat) :
    (∃ behind, clientBlocksStalled (some r) now quiet window = some (true, behind)) ↔
    now - r.last < quiet ∧ window ≤ now ∧ r.since ≤ now - window ∧
      stillWindow (r.samples.filter fun b => now - window < b.at_) = true := by
  by_cases hlively : now - r.last < quiet
  · by_cases hwindow : now < window
    · simp [clientBlocksStalled, hlively, hwindow]
    · by_cases hsince : now - window < r.since
      · simp [clientBlocksStalled, hlively, hwindow, hsince]
      · simp [clientBlocksStalled, hlively, hwindow, hsince, not_lt.mp hwindow, not_lt.mp hsince]
  · simp [clientBlocksStalled, hlively]

/-- **The verdict is the one on the full history.**  Whatever was trimmed, a catch-up found
    still is stuck by all the batches there were; and one that is stuck is found still unless
    more batches fall into the window than are kept. -/
theorem clientBlocksStalled_judges_full_history (batches : List Batch) (now quiet window : Nat)
    (hsorted : (batches.map Batch.at_ ++ [now]).Pairwise (· ≤ ·)) (hspan : window ≤ CATCHUP_SAMPLE_SPAN) :
    (∀ behind, clientBlocksStalled (noted batches) now quiet window = some (true, behind) →
      ∃ run, Stuck batches now quiet window run) ∧
    ((batches.countP fun b => InWindow now window b) ≤ CATCHUP_MAX_SAMPLES →
      ∀ run, Stuck batches now quiet window run →
        ∃ behind, clientBlocksStalled (noted batches) now quiet window = some (true, behind)) := by
  obtain ⟨hpairs, -, hnow⟩ := List.pairwise_append.mp hsorted
  have hpairs : batches.Pairwise fun a b => a.at_ ≤ b.at_ := List.pairwise_map.mp hpairs
  have hupTo : ∀ b ∈ batches, b.at_ ≤ now := fun b hb =>
    hnow b.at_ (List.mem_map_of_mem hb) now (List.mem_singleton_self now)
  rcases noted_spec hpairs with ⟨rfl, hnone⟩ | ⟨r, gone, hr, hnoted⟩
  · rw [hnone]
    refine ⟨nofun, ?_⟩
    rintro - run hstuck
    obtain ⟨before, hnil, hne, -⟩ := hstuck.current
    exact absurd (List.append_eq_nil_iff.mp hnil.symm).2 hne
  · rw [hr]
    obtain ⟨z, hz, hzlast⟩ := Option.map_eq_some_iff.mp hnoted.last
    have hlast : (gone ++ r.samples).getLast? = some z := by
      rw [List.getLast?_append, hz]
      rfl
    have hupToLast := hnoted.last_le hupTo
    constructor
    · intro behind hstalled
      obtain ⟨hlively, hwindow, hsince, hstill⟩ := (stalled_iff r now quiet window).mp ⟨behind, hstalled⟩
      refine ⟨gone ++ r.samples, hnoted.current, ?_, ?_, ?_⟩
      · intro b hb
        have hstarted := hnoted.started b hb
        omega
      · intro b hb
        rw [hlast] at hb
        cases hb
        omega
      · rw [hnoted.window_eq hupTo hspan hwindow hsince]
        exact (stillWindow_iff _).mp hstill
    · intro hfew run hstuck
      obtain rfl := hstuck.current.unique hnoted.current
      have hsince := hnoted.since_le hpairs hupTo hfew hstuck.old
      have hlively := hstuck.lively z hlast
      obtain ⟨b, hb⟩ := Option.isSome_iff_exists.mp (List.isSome_head?.mpr hnoted.current.ne_nil)
      have hold := hstuck.old b hb
      have hwindow : window ≤ now := by omega
      refine (stalled_iff r now quiet window).mpr ⟨by omega, hwindow, hsince, ?_⟩
      rw [stillWindow_iff, ← hnoted.window_eq hupTo hspan hwindow hsince]
      exact hstuck.still

/-- A loop that holds its distance, a batch every 40 s. -/
def stuckLoop : List Batch :=
  [⟨0, some 900, 27⟩, ⟨40000000000, some 912, 25⟩, ⟨80000000000, some 905, 31⟩, ⟨120000000000, some 899, 22⟩,
    ⟨160000000000, some 908, 27⟩]

theorem clientBlocksStalled_judges_full_history_stuckLoop :
    clientBlocksStalled (noted stuckLoop) 190000000000 60000000000 180000000000 = some (true, some 908) ∧
    ∃ run, Stuck stuckLoop 190000000000 60000000000 180000000000 run := by
  have hverdict : clientBlocksStalled (noted stuckLoop) 190000000000 60000000000 180000000000 =
      some (true, some 908) := by decide
  exact ⟨hverdict, (clientBlocksStalled_judges_full_history stuckLoop 190000000000 60000000000 180000000000
    (by decide) (by decide)).1 (some 908) hverdict⟩

end Hypersync.Gateway
