import Hypersync.Lib.Bag
import Hypersync.Lib.KeyMap
import Hypersync.Lib.Machine

/-!
# Replacing a file: write a temporary one, then rename it

Any number of writers run side by side.  Each creates a temporary file, writes its
content to it in pieces, flushes it to disk and renames it to the target.  A writer may
give up at any point, and the whole process may be killed at any point: then whatever
has not been flushed may be cut short, and the temporary files stay behind until they
are removed.

As long as no two writers share a temporary file and none of the temporary names is the
target's, the target always holds one writer's content in full (`Inv.whole`).
-/

namespace AtomicFile

open Hypersync (Bag.replace)

/-! ## 1. The disk and its writers -/

structure File (β : Type) where
  bytes : List β
  modified : Nat
  /-- On disk for good: nothing of it is lost when the power fails. -/
  durable : Bool
deriving DecidableEq, Repr

structure Writer (ν β : Type) where
  temp : ν
  content : List β
  written : Nat := 0
  flushed : Bool := false
deriving DecidableEq, Repr

/-- The files, the writers that run, and every content a writer was started with. -/
structure Disk (ν β : Type) where
  files : KeyMap ν (File β)
  writers : List (Writer ν β) := []
  given : List (List β) := []

/-- The name that is replaced, the names temporary files may have, and whether a file is
    flushed before it is renamed. -/
structure Protocol (ν : Type) where
  target : ν
  mine : ν → Bool
  mustFlush : Bool
  target_not_mine : mine target = false

inductive Event (ν β : Type) where
  | create (temp : ν) (content : List β) (now : Nat)
  | write (w : Writer ν β) (n now : Nat)
  | flush (w : Writer ν β)
  | rename (w : Writer ν β)
  /-- A write or the rename failed; `removed` if the temporary file could be removed. -/
  | abandon (w : Writer ν β) (removed : Bool)
  /-- Before any writer runs, files are removed. -/
  | clean (gone : ν → Bool)
  /-- The process ends; of a file that is not durable so many bytes are left. -/
  | crash (left : ν → Nat)

variable {ν β : Type} [DecidableEq ν] [DecidableEq β]

/-- What is left of a file. -/
def File.cut (n : Nat) (f : File β) : File β := if f.durable then f else { f with bytes := f.bytes.take n }

def step (p : Protocol ν) (s : Disk ν β) : Event ν β → Option (Disk ν β)
  | .create temp content now =>
    some { files := s.files.insert temp ⟨[], now, false⟩
           writers := ⟨temp, content, 0, false⟩ :: s.writers
           given := content :: s.given }
  | .write w n now =>
    if w ∈ s.writers ∧ w.written + n ≤ w.content.length then
      some { s with
        -- the bytes go behind whatever the file holds
        files := KeyMap.modify w.temp
          (fun f => { bytes := f.bytes ++ (w.content.drop w.written).take n, modified := now, durable := false }) s.files
        writers := Bag.replace s.writers w { w with written := w.written + n, flushed := false } }
    else none
  | .flush w =>
    if w ∈ s.writers ∧ w.written = w.content.length then
      some { s with
        files := KeyMap.modify w.temp (fun f => { f with durable := true }) s.files
        writers := Bag.replace s.writers w { w with flushed := true } }
    else none
  | .rename w =>
    if w ∈ s.writers ∧ w.written = w.content.length ∧ (w.flushed ∨ ¬ p.mustFlush) then
      match s.files.lookup w.temp with
      | some f => some { s with files := (s.files.erase w.temp).insert p.target f, writers := s.writers.erase w }
      | none => none
    else none
  | .abandon w removed =>
    if w ∈ s.writers then
      some { s with files := if removed then s.files.erase w.temp else s.files, writers := s.writers.erase w }
    else none
  | .clean gone =>
    if s.writers.isEmpty then some { s with files := KeyMap.retain (fun name _ => !gone name) s.files } else none
  | .crash left => some { s with files := KeyMap.mapVals (fun name f => f.cut (left name)) s.files, writers := [] }

/-- What is asked of the code: a temporary name of its own for every writer, only such
    names are cleaned up, and a protocol that does not flush is not run where the power
    may fail. -/
def Careful (p : Protocol ν) (s : Disk ν β) : Event ν β → Prop
  | .create temp _ _ => p.mine temp = true ∧ temp ∉ s.writers.map Writer.temp
  | .clean gone => ∀ name, gone name = true → p.mine name = true
  | .crash left => p.mustFlush = true ∨ ∀ name f, s.files.lookup name = some f → f.bytes.length ≤ left name
  | _ => True

/-- What a step does, and when it can be taken. -/
inductive Stepped (p : Protocol ν) (s : Disk ν β) : Event ν β → Disk ν β → Prop
  | create (temp : ν) (content : List β) (now : Nat) :
      Stepped p s (.create temp content now)
        { files := s.files.insert temp ⟨[], now, false⟩
          writers := ⟨temp, content, 0, false⟩ :: s.writers
          given := content :: s.given }
  | write (w : Writer ν β) (n now : Nat) (hw : w ∈ s.writers) (hn : w.written + n ≤ w.content.length) :
      Stepped p s (.write w n now) { s with
        files := KeyMap.modify w.temp
          (fun f => { bytes := f.bytes ++ (w.content.drop w.written).take n, modified := now, durable := false }) s.files
        writers := Bag.replace s.writers w { w with written := w.written + n, flushed := false } }
  | flush (w : Writer ν β) (hw : w ∈ s.writers) (hall : w.written = w.content.length) :
      Stepped p s (.flush w) { s with
        files := KeyMap.modify w.temp (fun f => { f with durable := true }) s.files
        writers := Bag.replace s.writers w { w with flushed := true } }
  | rename (w : Writer ν β) (f : File β) (hw : w ∈ s.writers) (hall : w.written = w.content.length)
      (hflushed : p.mustFlush = true → w.flushed = true) (hf : s.files.lookup w.temp = some f) :
      Stepped p s (.rename w)
        { s with files := (s.files.erase w.temp).insert p.target f, writers := s.writers.erase w }
  | abandon (w : Writer ν β) (removed : Bool) (hw : w ∈ s.writers) :
      Stepped p s (.abandon w removed)
        { s with files := if removed then s.files.erase w.temp else s.files, writers := s.writers.erase w }
  | clean (gone : ν → Bool) (hnone : s.writers = []) :
      Stepped p s (.clean gone) { s with files := KeyMap.retain (fun name _ => !gone name) s.files }
  | crash (left : ν → Nat) :
      Stepped p s (.crash left)
        { s with files := KeyMap.mapVals (fun name f => f.cut (left name)) s.files, writers := [] }

variable {p : Protocol ν} {s t : Disk ν β} {e : Event ν β}

theorem step_eq_some (h : step p s e = some t) : Stepped p s e t := by
  cases e with
  | create temp content now =>
    cases h
    exact .create temp content now
  | write w n now =>
    simp only [step] at h
    split at h <;> cases h
    rename_i hw
    exact .write w n now hw.1 hw.2
  | flush w =>
    simp only [step] at h
    split at h <;> cases h
    rename_i hw
    exact .flush w hw.1 hw.2
  | rename w =>
    simp only [step] at h
    split at h
    · rename_i hw
      split at h <;> cases h
      rename_i f hf
      exact .rename w f hw.1 hw.2.1 (fun hmust => hw.2.2.resolve_right (not_not.mpr hmust)) hf
    · cases h
  | abandon w removed =>
    simp only [step] at h
    split at h <;> cases h
    rename_i hw
    exact .abandon w removed hw
  | clean gone =>
    simp only [step] at h
    split at h <;> cases h
    rename_i hnone
    exact .clean gone (List.isEmpty_iff.mp hnone)
  | crash left =>
    cases h
    exact .crash left

/-! ## 2. Every run -/

/-- A writer has a file of its own that holds what it has written so far. -/
structure Owns (p : Protocol ν) (s : Disk ν β) (w : Writer ν β) : Prop where
  mine : p.mine w.temp = true
  given : w.content ∈ s.given
  holds : ∃ f, s.files.lookup w.temp = some f ∧ f.bytes = w.content.take w.written ∧
    (w.flushed = true → f.durable = true)

structure Inv (p : Protocol ν) (files : KeyMap ν (File β)) (s : Disk ν β) : Prop where
  owns : ∀ w ∈ s.writers, Owns p s w
  distinct : (s.writers.map Writer.temp).Nodup
  /-- The target is what it was, or one content in full. -/
  whole : ∀ f, s.files.lookup p.target = some f →
    (files.lookup p.target = some f ∨ f.bytes ∈ s.given) ∧ (p.mustFlush = true → f.durable = true)
  /-- No other file is touched. -/
  untouched : ∀ name, name ≠ p.target → p.mine name = false → s.files.lookup name = files.lookup name

omit [DecidableEq β] in
theorem inv_start {files : KeyMap ν (File β)} (hdurable : ∀ name f, files.lookup name = some f → f.durable = true) :
    Inv p files ({ files := files } : Disk ν β) where
  owns _ hw := absurd hw List.not_mem_nil
  distinct := List.nodup_nil
  whole f hf := ⟨Or.inl hf, fun _ => hdurable _ f hf⟩
  untouched _ _ _ := rfl

variable {files : KeyMap ν (File β)}

omit [DecidableEq β] in
theorem Owns.ne_temp {w : Writer ν β} (h : Owns p s w) {name : ν} (hname : p.mine name = false) : name ≠ w.temp := by
  rintro rfl
  rw [h.mine] at hname
  cases hname

/-- Another writer's file is another file. -/
theorem temp_ne {v w : Writer ν β} {l : List (Writer ν β)} (hdistinct : (l.map Writer.temp).Nodup) (hw : w ∈ l)
    (hv : v ∈ l.erase w) : v.temp ≠ w.temp := by
  have hperm : (l.map Writer.temp).Perm (w.temp :: (l.erase w).map Writer.temp) :=
    (List.perm_cons_erase hw).map Writer.temp
  have hnew := (List.nodup_cons.mp (hperm.nodup_iff.mp hdistinct)).1
  intro heq
  exact hnew (heq ▸ List.mem_map_of_mem hv)

theorem nodup_erase {w : Writer ν β} {l : List (Writer ν β)} (hdistinct : (l.map Writer.temp).Nodup) :
    ((l.erase w).map Writer.temp).Nodup :=
  hdistinct.sublist (List.erase_sublist.map Writer.temp)

theorem nodup_replace {w w' : Writer ν β} {l : List (Writer ν β)} (hdistinct : (l.map Writer.temp).Nodup)
    (hw : w ∈ l) (hsame : w'.temp = w.temp) : ((Bag.replace l w w').map Writer.temp).Nodup := by
  rw [Bag.replace, List.map_cons, hsame]
  exact (((List.perm_cons_erase hw).map Writer.temp).nodup_iff).mp hdistinct

omit [DecidableEq β] in
/-- A step that leaves a writer's file alone leaves the writer its file. -/
theorem Owns.frame {w : Writer ν β} (h : Owns p s w) (hgiven : s.given ⊆ t.given)
    (hfile : t.files.lookup w.temp = s.files.lookup w.temp) : Owns p t w :=
  ⟨h.mine, hgiven h.given, hfile ▸ h.holds⟩

omit [DecidableEq β] in
/-- Only temporary files change. -/
theorem Inv.aside (h : Inv p files s) (howns : ∀ w ∈ t.writers, Owns p t w)
    (hdistinct : (t.writers.map Writer.temp).Nodup) (hgiven : s.given ⊆ t.given)
    (hkeep : ∀ name, p.mine name = false → t.files.lookup name = s.files.lookup name) : Inv p files t where
  owns := howns
  distinct := hdistinct
  whole f hf := by
    rw [hkeep _ p.target_not_mine] at hf
    exact ⟨(h.whole f hf).1.imp_right fun hmem => hgiven hmem, (h.whole f hf).2⟩
  untouched name htarget hname := (hkeep name hname).trans (h.untouched name htarget hname)

/-- A writer that goes on with its own file, and the rest of the disk as it was. -/
theorem Inv.modify {w : Writer ν β} (w' : Writer ν β) {g : File β → File β} (h : Inv p files s) (hw : w ∈ s.writers)
    (htemp : w'.temp = w.temp) (hcontent : w'.content = w.content)
    (hnext : ∀ f, s.files.lookup w.temp = some f → f.bytes = w.content.take w.written →
      (w.flushed = true → f.durable = true) →
      (g f).bytes = w.content.take w'.written ∧ (w'.flushed = true → (g f).durable = true)) :
    Inv p files { s with files := KeyMap.modify w.temp g s.files, writers := Bag.replace s.writers w w' } := by
  have hown := h.owns w hw
  refine h.aside ?_ (nodup_replace h.distinct hw htemp) (List.Subset.refl _) fun name hname =>
    KeyMap.lookup_modify_ne (hown.ne_temp hname) g s.files
  intro v hv
  rcases List.mem_cons.mp hv with rfl | hv
  · obtain ⟨f, hf, hbytes, hdur⟩ := hown.holds
    obtain ⟨hbytes', hdur'⟩ := hnext f hf hbytes hdur
    refine ⟨htemp ▸ hown.mine, hcontent ▸ hown.given, g f, ?_, hcontent ▸ hbytes', hdur'⟩
    rw [htemp, KeyMap.lookup_modify_self, hf]
    rfl
  · exact (h.owns v (List.mem_of_mem_erase hv)).frame (List.Subset.refl _)
      (KeyMap.lookup_modify_ne (temp_ne h.distinct hw hv) g s.files)

omit [DecidableEq β] in
/-- A file that is not a temporary one is durable, if all were at first and files are flushed. -/
theorem Inv.durable (h : Inv p files s) (hdurable : ∀ name f, files.lookup name = some f → f.durable = true) {name : ν}
    {f : File β} (hname : p.mine name = false) (hf : s.files.lookup name = some f) (hmust : p.mustFlush = true) :
    f.durable = true := by
  by_cases htarget : name = p.target
  · exact (h.whole f (htarget ▸ hf)).2 hmust
  · exact hdurable name f ((h.untouched name htarget hname).symm.trans hf)

theorem Inv.rename {w : Writer ν β} {f : File β} (h : Inv p files s) (hw : w ∈ s.writers)
    (hall : w.written = w.content.length) (hflushed : p.mustFlush = true → w.flushed = true)
    (hf : s.files.lookup w.temp = some f) :
    Inv p files { s with files := (s.files.erase w.temp).insert p.target f, writers := s.writers.erase w } := by
  have hown := h.owns w hw
  obtain ⟨f', hf', hbytes, hdur⟩ := hown.holds
  obtain rfl := Option.some.inj (hf.symm.trans hf')
  refine ⟨?_, nodup_erase h.distinct, ?_, ?_⟩
  · intro v hv
    have hv' := h.owns v (List.mem_of_mem_erase hv)
    refine hv'.frame (List.Subset.refl _) ?_
    rw [AList.lookup_insert_ne (hv'.ne_temp p.target_not_mine).symm, AList.lookup_erase_ne (temp_ne h.distinct hw hv)]
  · intro g hg
    rw [AList.lookup_insert, Option.some.injEq] at hg
    subst hg
    rw [hall, List.take_length] at hbytes
    exact ⟨Or.inr (hbytes ▸ hown.given), fun hmust => hdur (hflushed hmust)⟩
  · intro name htarget hname
    rw [AList.lookup_insert_ne htarget, AList.lookup_erase_ne (hown.ne_temp hname)]
    exact h.untouched name htarget hname

theorem Inv.step (h : Inv p files s) (hdurable : ∀ name f, files.lookup name = some f → f.durable = true)
    (hs : step p s e = some t) (hok : Careful p s e) : Inv p files t := by
  cases step_eq_some hs with
  | create temp content now =>
    obtain ⟨hmine, hnew⟩ := hok
    have hfirst : Owns p (Disk.mk (s.files.insert temp ⟨[], now, false⟩) (⟨temp, content, 0, false⟩ :: s.writers)
        (content :: s.given)) ⟨temp, content, 0, false⟩ :=
      ⟨hmine, List.mem_cons_self, _, AList.lookup_insert _, rfl, fun hno => absurd hno Bool.false_ne_true⟩
    refine h.aside ?_ (List.nodup_cons.mpr ⟨hnew, h.distinct⟩) (List.subset_cons_self _ _) fun name hname =>
      AList.lookup_insert_ne (hfirst.ne_temp hname)
    intro w hw
    rcases List.mem_cons.mp hw with rfl | hold
    · exact hfirst
    · refine (h.owns w hold).frame (List.subset_cons_self _ _) (AList.lookup_insert_ne ?_)
      intro heq
      exact hnew (heq ▸ List.mem_map_of_mem hold)
  | write w n now hw hn =>
    apply h.modify { w with written := w.written + n, flushed := false } hw rfl rfl
    intro f _ hbytes _
    refine ⟨?_, fun hno => absurd hno Bool.false_ne_true⟩
    rw [hbytes, ← List.take_add]
  | flush w hw hall =>
    apply h.modify { w with flushed := true } hw rfl rfl
    exact fun f _ hbytes _ => ⟨hbytes, fun _ => rfl⟩
  | rename w f hw hall hflushed hf => exact h.rename hw hall hflushed hf
  | abandon w removed hw =>
    -- whatever is at another name stays there
    have hkeep : ∀ name, name ≠ w.temp →
        (if removed then s.files.erase w.temp else s.files).lookup name = s.files.lookup name := by
      intro name hname
      split
      · exact AList.lookup_erase_ne hname
      · rfl
    exact h.aside (fun v hv => (h.owns v (List.mem_of_mem_erase hv)).frame (List.Subset.refl _)
      (hkeep _ (temp_ne h.distinct hw hv))) (nodup_erase h.distinct) (List.Subset.refl _) fun name hname =>
        hkeep name ((h.owns w hw).ne_temp hname)
  | clean gone hnone =>
    refine h.aside (fun w hw => ?_) h.distinct (List.Subset.refl _) fun name hname => ?_
    · rw [hnone] at hw
      cases hw
    · have hstay : gone name = false := by
        rw [← Bool.not_eq_true]
        intro hgone
        rw [hok name hgone] at hname
        cases hname
      rw [KeyMap.lookup_retain, hstay]
      rcases s.files.lookup name with _ | f
      · rfl
      · rfl
  | crash left =>
    refine h.aside (fun w hw => absurd hw List.not_mem_nil) List.nodup_nil (List.Subset.refl _) fun name hname => ?_
    -- a file that is durable, or that nothing is lost of, stays as it is
    have hstay : ∀ f, s.files.lookup name = some f → f.cut (left name) = f := by
      intro f hf
      unfold File.cut
      split
      · rfl
      · rename_i hnot
        rcases hok with hmust | hall
        · exact absurd (h.durable hdurable hname hf hmust) hnot
        · rw [List.take_of_length_le (hall name f hf)]
    rw [KeyMap.lookup_mapVals]
    rcases hlookup : s.files.lookup name with _ | f
    · rfl
    · rw [Option.map_some, hstay f hlookup]

end AtomicFile
