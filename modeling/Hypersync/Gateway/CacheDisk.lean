import Hypersync.Gateway.Captured
import Hypersync.Lib.AtomicFile
import Hypersync.Lib.Text

/-!
# The disk cache through concurrent writers and crashes

The background refresher and the tap of a transparent bootstrap may persist a blob at
the same time.  Each `persist_bootstrap_cache` takes the next number of the process for
its temporary file; the numbers start again from 0 in the next process, which first
removes what the last one left behind.

The names keep the writers apart: a temporary name is the cache's own name with
another extension, `tmp` and a number.  `CachePath` is a cache that is not itself named
like that.  For such a cache the file is never seen half written, whatever happens
(`cache_file_always_whole`), and a start removes all that is left of earlier processes
and nothing else (`startup_removes_exactly_orphans`).
-/

namespace Hypersync.Gateway

/-! ## 1. Names -/

/-- `Path::file_stem` of a file name: up to the last dot, unless that is in front. -/
def fileStem (name : List Char) : List Char :=
  let before := ((name.reverse.dropWhile (· ≠ '.')).drop 1).reverse
  if before.isEmpty then name else before

/-- What a temporary name of the cache starts with: `{stem}.tmp`. -/
def tmpStem (path : String) : List Char := fileStem path.toList ++ ['.', 't', 'm', 'p']

/-- `path.with_extension(format!("tmp{n}"))`. -/
def tmpName (path : String) (n : Nat) : String := String.ofList (tmpStem path ++ Nat.toDigits 10 n)

/-- The test of `remove_orphan_cache_tmps`. -/
def isCacheTmp (path name : String) : Bool :=
  (tmpStem path).isPrefixOf name.toList ∧ (name.toList.drop (tmpStem path).length).all Char.isDigit

/-- A cache whose own name is not that of one of its temporary files. -/
structure CachePath where
  name : String
  apart : isCacheTmp name name = false

/-- The name next to the peer file; in `/tmp` it is `hypersync-bootstrap.cache`. -/
def defaultCachePath : CachePath := ⟨"bootstrap.cache", by decide⟩

/-- A cache named like this would be taken for a temporary file of its own. -/
example : isCacheTmp "state.tmp7" "state.tmp7" = true := by decide

theorem isCacheTmp_iff {path name : String} :
    isCacheTmp path name = true ↔ ∃ digits, name.toList = tmpStem path ++ digits ∧ ∀ c ∈ digits, c.isDigit = true := by
  unfold isCacheTmp
  rw [decide_eq_true_iff, List.isPrefixOf_iff_prefix, List.all_eq_true]
  constructor
  · rintro ⟨⟨digits, hdigits⟩, hall⟩
    rw [← hdigits, List.drop_left] at hall
    exact ⟨digits, hdigits.symm, hall⟩
  · rintro ⟨digits, hdigits, hall⟩
    rw [hdigits, List.drop_left]
    exact ⟨List.prefix_append _ _, hall⟩

/-- Every temporary file is recognised. -/
theorem isCacheTmp_tmpName (path : String) (n : Nat) : isCacheTmp path (tmpName path n) = true := by
  rw [isCacheTmp_iff]
  refine ⟨Nat.toDigits 10 n, ?_, fun c hc => Text.isDigit_toDigits hc⟩
  rw [tmpName, String.toList_ofList]

theorem tmpName_injective (path : String) {m n : Nat} (h : tmpName path m = tmpName path n) : m = n := by
  have hdigits : Nat.toDigits 10 m = Nat.toDigits 10 n := by
    have hlist := congrArg String.toList h
    rw [tmpName, tmpName, String.toList_ofList, String.toList_ofList] at hlist
    exact List.append_cancel_left hlist
  calc m = Nat.ofDigitChars 10 (Nat.toDigits 10 m) 0 := Nat.ofDigitChars_ten_toDigits.symm
    _ = Nat.ofDigitChars 10 (Nat.toDigits 10 n) 0 := by rw [hdigits]
    _ = n := Nat.ofDigitChars_ten_toDigits

/-! ## 2. The disk and the processes that use it -/

/-- The directory of the cache, the `PERSIST_SEQ` of the running process, and whether the
    process has cleaned up yet. -/
structure CacheDisk where
  disk : AtomicFile.Disk String UInt8
  persistSeq : Nat := 0
  started : Bool := false

inductive DiskEvent where
  /-- `File::create` of a new temporary file; it may fail with its number spent. -/
  | create (blob : List UInt8) (now : Nat)
  | createFailed
  | write (w : AtomicFile.Writer String UInt8) (n now : Nat)
  | sync (w : AtomicFile.Writer String UInt8)
  | rename (w : AtomicFile.Writer String UInt8)
  /-- The write failed and the temporary file was removed if it could be, or the rename
      failed. -/
  | fail (w : AtomicFile.Writer String UInt8) (removed : Bool)
  /-- `remove_orphan_cache_tmps`; some removals may fail. -/
  | startup (failed : String → Bool)
  /-- The process ends at any point; what is left of each file that was not synced. -/
  | kill (left : String → Nat)

/-- Temporary files are synced before they are renamed. -/
def CachePath.protocol (path : CachePath) : AtomicFile.Protocol String where
  target := path.name
  mine := isCacheTmp path.name
  mustFlush := true
  target_not_mine := path.apart

namespace CacheDisk

variable (path : CachePath)

/-- A step on the files that leaves the process as it is. -/
def onDisk (s : CacheDisk) (e : AtomicFile.Event String UInt8) : Option CacheDisk :=
  (AtomicFile.step path.protocol s.disk e).map fun disk => { s with disk := disk }

def step (s : CacheDisk) : DiskEvent → Option CacheDisk
  | .create blob now =>
    if s.started then
      ({ s with persistSeq := s.persistSeq + 1 } : CacheDisk).onDisk path
        (.create (tmpName path.name s.persistSeq) blob now)
    else none
  | .createFailed => if s.started then some { s with persistSeq := s.persistSeq + 1 } else none
  | .write w n now => s.onDisk path (.write w n now)
  | .sync w => s.onDisk path (.flush w)
  | .rename w => s.onDisk path (.rename w)
  | .fail w removed => s.onDisk path (.abandon w removed)
  | .startup failed =>
    if s.started then none
    else
      ({ s with started := true } : CacheDisk).onDisk path
        (.clean fun name => isCacheTmp path.name name && !failed name)
  | .kill left => ({ s with persistSeq := 0, started := false } : CacheDisk).onDisk path (.crash left)

variable {path} {files : KeyMap String (AtomicFile.File UInt8)} {s t : CacheDisk}

/-- The files are as the protocol keeps them, and every writer has one of the numbers
    given out so far. -/
structure Inv (path : CachePath) (files : KeyMap String (AtomicFile.File UInt8)) (s : CacheDisk) : Prop where
  disk : AtomicFile.Inv path.protocol files s.disk
  numbered : ∀ w ∈ s.disk.writers, ∃ n < s.persistSeq, w.temp = tmpName path.name n

theorem onDisk_eq_some {e : AtomicFile.Event String UInt8} (h : s.onDisk path e = some t) :
    ∃ disk, AtomicFile.step path.protocol s.disk e = some disk ∧ t = { s with disk := disk } := by
  obtain ⟨disk, hdisk, heq⟩ := Option.map_eq_some_iff.mp h
  exact ⟨disk, hdisk, heq.symm⟩

/-- The next number is nobody's. -/
theorem Inv.fresh (h : Inv path files s) :
    tmpName path.name s.persistSeq ∉ s.disk.writers.map AtomicFile.Writer.temp := by
  intro hmem
  obtain ⟨w, hw, htemp⟩ := List.mem_map.mp hmem
  obtain ⟨n, hn, hname⟩ := h.numbered w hw
  exact absurd (tmpName_injective path.name (htemp.symm.trans hname)) (Nat.ne_of_gt hn)

section

variable (hdurable : ∀ name f, files.lookup name = some f → f.durable = true)

include hdurable

/-- A step of a writer leaves the others' names alone and keeps its own. -/
theorem Inv.writer {e : AtomicFile.Event String UInt8} (h : Inv path files s)
    (hs : s.onDisk path e = some t) (hok : AtomicFile.Careful path.protocol s.disk e)
    (hnames : ∀ d, AtomicFile.step path.protocol s.disk e = some d →
      ∀ w ∈ d.writers, w.temp ∈ s.disk.writers.map AtomicFile.Writer.temp) : Inv path files t := by
  obtain ⟨disk, hdisk, rfl⟩ := onDisk_eq_some hs
  refine ⟨h.disk.step hdurable hdisk hok, ?_⟩
  intro w hw
  obtain ⟨v, hv, hsame⟩ := List.mem_map.mp (hnames disk hdisk w hw)
  rw [← hsame]
  exact h.numbered v hv

theorem Inv.step {e : DiskEvent} (h : Inv path files s) (hs : s.step path e = some t) : Inv path files t := by
  cases e with
  | create blob now =>
    simp only [CacheDisk.step] at hs
    split at hs
    · obtain ⟨disk, hdisk, rfl⟩ := onDisk_eq_some hs
      refine ⟨h.disk.step hdurable hdisk ⟨isCacheTmp_tmpName _ _, h.fresh⟩, ?_⟩
      cases AtomicFile.step_eq_some hdisk with
      | create temp content now =>
        intro w hw
        rcases List.mem_cons.mp hw with rfl | hold
        · exact ⟨s.persistSeq, Nat.lt_succ_self _, rfl⟩
        · obtain ⟨n, hn, hname⟩ := h.numbered w hold
          exact ⟨n, Nat.lt_succ_of_lt hn, hname⟩
    · cases hs
  | createFailed =>
    simp only [CacheDisk.step] at hs
    split at hs <;> cases hs
    refine ⟨h.disk, ?_⟩
    intro w hw
    obtain ⟨n, hn, hname⟩ := h.numbered w hw
    exact ⟨n, Nat.lt_succ_of_lt hn, hname⟩
  | write w n now =>
    refine h.writer hdurable hs trivial ?_
    intro d hd v hv
    cases AtomicFile.step_eq_some hd with
    | write w n now hw hn =>
      rcases Bag.mem_replace hv with rfl | hv
      · exact List.mem_map.mpr ⟨w, hw, rfl⟩
      · exact List.mem_map_of_mem hv
  | sync w =>
    refine h.writer hdurable hs trivial ?_
    intro d hd v hv
    cases AtomicFile.step_eq_some hd with
    | flush w hw hall =>
      rcases Bag.mem_replace hv with rfl | hv
      · exact List.mem_map.mpr ⟨w, hw, rfl⟩
      · exact List.mem_map_of_mem hv
  | rename w =>
    refine h.writer hdurable hs trivial ?_
    intro d hd v hv
    cases AtomicFile.step_eq_some hd with
    | rename w f hw hall hflushed hf => exact List.mem_map_of_mem (List.mem_of_mem_erase hv)
  | fail w removed =>
    refine h.writer hdurable hs trivial ?_
    intro d hd v hv
    cases AtomicFile.step_eq_some hd with
    | abandon w removed hw => exact List.mem_map_of_mem (List.mem_of_mem_erase hv)
  | startup failed =>
    simp only [CacheDisk.step] at hs
    split at hs
    · cases hs
    · obtain ⟨disk, hdisk, rfl⟩ := onDisk_eq_some hs
      refine ⟨h.disk.step hdurable hdisk fun name hgone => (Bool.and_eq_true_iff.mp hgone).1, ?_⟩
      cases AtomicFile.step_eq_some hdisk with
      | clean gone hnone => exact h.numbered
  | kill left =>
    obtain ⟨disk, hdisk, rfl⟩ := onDisk_eq_some hs
    refine ⟨h.disk.step hdurable hdisk (Or.inl rfl), ?_⟩
    cases AtomicFile.step_eq_some hdisk with
    | crash left => exact fun w hw => absurd hw List.not_mem_nil

theorem inv_of_run {es : List DiskEvent}
    (hrun : Machine.Run (CacheDisk.step path) (fun _ _ => True) { disk := { files := files } } es t) :
    Inv path files t :=
  hrun.invariant ⟨AtomicFile.inv_start hdurable, fun _ hw => absurd hw List.not_mem_nil⟩
    fun _ _ _ h _ hs => h.step hdurable hs

end

end CacheDisk

/-! ## 3. What is on disk -/

/-- A file as the loader sees it. -/
def cacheFileOf (f : AtomicFile.File UInt8) : CacheFile := ⟨f.bytes, some f.modified⟩

/-- **The cache is never half written.**  For any number of writers at once, any way the
    system splits their writes, failures anywhere and processes that end anywhere, even
    with the loss of all that was not synced: the cache file is what it was at first or
    one blob that was persisted, in full, and so is whatever the loader makes of it; no
    two writers mix their bytes; and no file that is not the cache's is touched. -/
theorem cache_file_always_whole (path : CachePath) (files : KeyMap String (AtomicFile.File UInt8))
    (hdurable : ∀ name f, files.lookup name = some f → f.durable = true) (es : List DiskEvent) (t : CacheDisk)
    (hrun : Machine.Run (CacheDisk.step path) (fun _ _ => True) { disk := { files := files } } es t) :
    (∀ f, t.disk.files.lookup path.name = some f →
      files.lookup path.name = some f ∨ f.bytes ∈ t.disk.given) ∧
    (∀ lz4 now blob cachedAt (dir : KeyMap String CacheFile),
      dir.lookup path.name = (t.disk.files.lookup path.name).map cacheFileOf →
      loadBootstrapCache lz4 path.name now dir = .ok (some (blob, cachedAt)) →
      (∃ f, files.lookup path.name = some f ∧ f.bytes = blob) ∨ blob ∈ t.disk.given) ∧
    (∀ w ∈ t.disk.writers, ∃ f, t.disk.files.lookup w.temp = some f ∧ f.bytes = w.content.take w.written) ∧
    (∀ name, name ≠ path.name → isCacheTmp path.name name = false →
      t.disk.files.lookup name = files.lookup name) := by
  have hinv := (CacheDisk.inv_of_run hdurable hrun).disk
  refine ⟨fun f hf => (hinv.whole f hf).1, ?_, ?_, hinv.untouched⟩
  · intro lz4 now blob cachedAt dir hdir hload
    obtain ⟨file, hfile, -, rfl, -⟩ := (loadBootstrapCache_eq_ok_iff lz4).mp hload
    rw [hfile, eq_comm, Option.map_eq_some_iff] at hdir
    obtain ⟨f, hf, rfl⟩ := hdir
    rcases (hinv.whole f hf).1 with hfirst | hgiven
    · exact Or.inl ⟨f, hfirst, rfl⟩
    · exact Or.inr hgiven
  · intro w hw
    obtain ⟨f, hf, hbytes, -⟩ := (hinv.owns w hw).holds
    exact ⟨f, hf, hbytes⟩

/-- Two writers at once.  The second puts its blob in place while the first has written all of
    its own and synced nothing; then the process is killed, and the next one, which fails to
    remove what is left of the first writer, is killed in the middle of a third blob. -/
def disturbedWriters : List DiskEvent :=
  [.startup fun _ => false, .create [1, 2, 3] 10, .create [4, 5, 6, 7] 11,
    .write ⟨"bootstrap.tmp0", [1, 2, 3], 0, false⟩ 2 12, .write ⟨"bootstrap.tmp1", [4, 5, 6, 7], 0, false⟩ 4 13, .sync ⟨"bootstrap.tmp1", [4, 5, 6, 7], 4, false⟩,
    .write ⟨"bootstrap.tmp0", [1, 2, 3], 2, false⟩ 1 14, .rename ⟨"bootstrap.tmp1", [4, 5, 6, 7], 4, true⟩,
    .kill fun _ => 1, .startup fun _ => true, .create [8, 9] 20, .write ⟨"bootstrap.tmp0", [8, 9], 0, false⟩ 1 21,
    .kill fun _ => 0]

theorem cache_file_always_whole_disturbed :
    ∃ t, Machine.Run (CacheDisk.step defaultCachePath) (fun _ _ => True) { disk := { files := ∅ } } disturbedWriters t ∧
      t.disk.files.lookup "bootstrap.tmp0" = some ⟨[], 21, false⟩ ∧
      t.disk.files.lookup "bootstrap.cache" = some ⟨[4, 5, 6, 7], 13, true⟩ ∧ [4, 5, 6, 7] ∈ t.disk.given := by
  have hexec : (Machine.exec (CacheDisk.step defaultCachePath) (fun _ _ => True) { disk := { files := ∅ } }
      disturbedWriters).map (fun t => (t.disk.files.lookup "bootstrap.tmp0", t.disk.files.lookup "bootstrap.cache")) =
        some (some ⟨[], 21, false⟩, some ⟨[4, 5, 6, 7], 13, true⟩) := by
    decide +kernel
  obtain ⟨t, ht, heq⟩ := Option.map_eq_some_iff.mp hexec
  obtain ⟨htmp, hfile⟩ := Prod.mk.inj heq
  have hrun := Machine.Run.of_exec ht
  obtain ⟨hwhole, -⟩ := cache_file_always_whole defaultCachePath ∅
    (fun name f hf => by rw [AList.lookup_empty] at hf; cases hf) disturbedWriters t hrun
  refine ⟨t, hrun, htmp, hfile, ?_⟩
  rcases hwhole _ hfile with hfirst | hgiven
  · rw [AList.lookup_empty] at hfirst
    cases hfirst
  · exact hgiven

/-- **What a start removes.**  Whatever the processes before it left behind: once a
    process has removed all it means to, the cache is as it was, every other file is as it
    was before the first process, and none of the temporary files is left. -/
theorem startup_removes_exactly_orphans (path : CachePath) (files : KeyMap String (AtomicFile.File UInt8))
    (hdurable : ∀ name f, files.lookup name = some f → f.durable = true) (es : List DiskEvent) (s t : CacheDisk)
    (hrun : Machine.Run (CacheDisk.step path) (fun _ _ => True) { disk := { files := files } } es s)
    (hstart : s.step path (.startup fun _ => false) = some t) :
    t.disk.files.lookup path.name = s.disk.files.lookup path.name ∧
    ∀ name, name ≠ path.name →
      t.disk.files.lookup name = if isCacheTmp path.name name then none else files.lookup name := by
  have hinv := (CacheDisk.inv_of_run hdurable hrun).disk
  simp only [CacheDisk.step] at hstart
  split at hstart
  · cases hstart
  obtain ⟨disk, hdisk, rfl⟩ := CacheDisk.onDisk_eq_some hstart
  cases AtomicFile.step_eq_some hdisk with
  | clean gone hnone =>
    have hlookup : ∀ name, (KeyMap.retain (fun name _ => !(isCacheTmp path.name name && !false)) s.disk.files).lookup name =
        if isCacheTmp path.name name then none else s.disk.files.lookup name := by
      intro name
      rw [KeyMap.lookup_retain]
      rcases s.disk.files.lookup name with _ | f
      · rw [ite_self]
        rfl
      · cases isCacheTmp path.name name <;> rfl
    refine ⟨?_, ?_⟩
    · rw [hlookup, path.apart]
      rfl
    · intro name hname
      rw [hlookup]
      split
      · rfl
      · rename_i hother
        exact hinv.untouched name hname (Bool.eq_false_iff.mpr hother)

/-- A process that was killed while it wrote to its first temporary file. -/
def killedWriter : List DiskEvent := [.startup fun _ => false, .create [1, 2, 3] 10, .kill fun _ => 0]

/-- What it leaves behind in a directory that was empty. -/
def leftBehind : CacheDisk where
  disk :=
    { files := AList.singleton (tmpName "bootstrap.cache" 0) ⟨[], 10, false⟩
      given := [[1, 2, 3]] }

theorem startup_removes_exactly_orphans_killedWriter :
    (leftBehind.disk.files.lookup (tmpName "bootstrap.cache" 0)).isSome = true ∧
      ∃ t, leftBehind.step defaultCachePath (.startup fun _ => false) = some t ∧
        t.disk.files.lookup (tmpName "bootstrap.cache" 0) = none := by
  have hrun : Machine.Run (CacheDisk.step defaultCachePath) (fun _ _ => True) { disk := { files := ∅ } } killedWriter
      leftBehind := Machine.Run.of_exec rfl
  obtain ⟨-, hrest⟩ := startup_removes_exactly_orphans defaultCachePath ∅
    (fun name f hf => by rw [AList.lookup_empty] at hf; cases hf) killedWriter leftBehind _ hrun rfl
  refine ⟨?_, _, rfl, (hrest (tmpName "bootstrap.cache" 0) (by decide)).trans (if_pos (isCacheTmp_tmpName _ _))⟩
  rw [leftBehind, ← AList.insert_empty, AList.lookup_insert]
  rfl

end Hypersync.Gateway
