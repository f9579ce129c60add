import Hypersync.Gateway.DialPool
import Hypersync.Lib.AtomicFile

/-!
# From peerd's file to the gateway's pool and tip

peerd is another process.  It replaces `peers.json` by a rename, and the gateway reads
the file whenever it likes: once for its pool, then again for the age and for the tip
in it.  Between any two of these reads peerd may be anywhere in a replacement, and it
may be killed there.

The machine takes one access to the file at a time.  Whatever the interleaving, what
the gateway reads is one text that peerd published, so that the pool is part of one
published pool and the tip a published tip; and a tip is not kept for longer than
`PEER_FILE_TIP_MAX_AGE` after it was last read.
-/

namespace Hypersync.Gateway

open Peerd

/-! ## 1. The reads -/

def PEER_FILE_TIP_MAX_AGE : Nat := 900000000000

/-- `None` leaves the tip as it is. -/
def nextNetTip (fresh : Option UInt32) (sinceFresh : Nat) : Option UInt32 :=
  match fresh with
  | some tip => some tip
  | none => if PEER_FILE_TIP_MAX_AGE < sinceFresh then some 0 else none

/-- What peerd publishes at the end of a cycle. -/
structure Publication where
  pool : List String
  totalCandidates : Nat
  roundTip : Option UInt32
  peers : ∀ ip ∈ pool, IsPeer ip
  nodup : pool.Nodup

def Publication.text (p : Publication) : List Char := (peersJson p.pool p.totalCandidates p.roundTip).toList

theorem Publication.readNodePeers_text (p : Publication) : readNodePeers [String.ofList p.text] = p.pool := by
  rw [Publication.text, String.ofList_toList]
  exact readNodePeers_peersJson p.peers p.nodup _ _

theorem Publication.extractRoundTip_text (p : Publication) :
    extractRoundTip (String.ofList p.text) = p.roundTip := by
  rw [Publication.text, String.ofList_toList]
  exact extractRoundTip_peersJson p.peers _ _

/-- `write_atomic` does not flush. -/
def feedProtocol (path : String) : AtomicFile.Protocol String where
  target := path
  mine name := name == path ++ ".tmp"
  mustFlush := false
  target_not_mine := by
    rw [beq_eq_false_iff_ne]
    intro h
    have hlen := congrArg String.length h
    rw [String.length_append] at hlen
    exact absurd hlen (by simp)

theorem readPool_sublist (tier : PriorityTier) (black : Blacklist) (files : List String) :
    (readPool tier black files).Sublist (readNodePeers files) := by
  have hstrip : (tier.strip (readNodePeers files)).Sublist (readNodePeers files) := by
    unfold PriorityTier.strip
    split
    · exact List.Sublist.refl _
    · exact List.filter_sublist
  refine List.Sublist.trans ?_ hstrip
  unfold readPool Blacklist.filtered
  split
  · exact List.filter_sublist
  · exact List.Sublist.refl _

/-! ## 2. The two processes -/

/-- Where the refresher is in its turn. -/
inductive FeedPc where
  | sleeping
  | pooled
  -- the age was looked at, and the file is young enough
  | young (statAt : Nat)
  | aged

/-- `published` lists what peerd has published; `tipWritten` and `tipStat` say when the text the
    tip is from was written, and when its age was looked at.  Nothing but the reads below writes
    the pool and the tip. -/
structure PeerFeed where
  clock : Nat
  disk : AtomicFile.Disk String Char
  published : List Publication
  black : Blacklist
  pool : List String
  netTip : UInt32
  lastFreshTip : Nat
  checkedAt : Nat
  tipWritten : Nat
  tipStat : Nat
  pc : FeedPc
  -- `run_gateway` has not yet looked for its first tip
  booting : Bool

inductive FeedEvent where
  | tick (d : Nat)
  -- peerd
  | publish (p : Publication)
  | write (w : AtomicFile.Writer String Char) (n : Nat)
  | rename (w : AtomicFile.Writer String Char)
  | failed (w : AtomicFile.Writer String Char)
  | killed
  -- the gateway
  | readPool (black : Blacklist)
  | stat
  | readTip

namespace PeerFeed

variable (path : String) (tier : PriorityTier)

def file (s : PeerFeed) : Option (AtomicFile.File Char) := s.disk.files.lookup path

/-- The texts of the files that can be read: that of the peer file, if it is there. -/
def texts (s : PeerFeed) : List String := ((s.file path).map fun f => String.ofList f.bytes).toList

def onDisk (s : PeerFeed) (e : AtomicFile.Event String Char) : Option PeerFeed :=
  (AtomicFile.step (feedProtocol path) s.disk e).map fun disk => { s with disk := disk }

/-- The file is young enough for its tip to count. -/
def isYoung (s : PeerFeed) : Bool :=
  (s.file path).any fun f => f.modified ≤ s.clock ∧ s.clock - f.modified ≤ PEER_FILE_TIP_MAX_AGE

/-- The pool of this turn; a file without peers leaves the old one, but for the blacklist. -/
def refreshPool (s : PeerFeed) (black : Blacklist) : PeerFeed :=
  let p := Gateway.readPool tier black (s.texts path)
  { s with
    black := black
    pool := if p.isEmpty then s.pool.filter fun ip => !black.contains ip else p
    pc := .pooled }

/-- The tip of this turn.  The refresher is started after the first one, and counts from there. -/
def refreshTip (s : PeerFeed) (fresh : Option UInt32) (statAt : Nat) : PeerFeed :=
  let last := if fresh.isSome ∨ s.booting then s.clock else s.lastFreshTip
  { s with
    netTip := (nextNetTip fresh (s.clock - last)).getD s.netTip
    lastFreshTip := last
    checkedAt := s.clock
    tipWritten := if fresh.isSome then ((s.file path).map AtomicFile.File.modified).getD 0 else s.tipWritten
    tipStat := if fresh.isSome then statAt else s.tipStat
    pc := .sleeping
    booting := false }

def step (s : PeerFeed) : FeedEvent → Option PeerFeed
  | .tick d => some { s with clock := s.clock + d }
  -- one replacement at a time: the cycle waits for it
  | .publish p =>
    if s.disk.writers.isEmpty then
      ({ s with published := p :: s.published } : PeerFeed).onDisk path (.create (path ++ ".tmp") p.text s.clock)
    else none
  | .write w n => s.onDisk path (.write w n s.clock)
  | .rename w => s.onDisk path (.rename w)
  | .failed w => s.onDisk path (.abandon w false)
  | .killed => s.onDisk path (.crash fun name => ((s.disk.files.lookup name).map fun f => f.bytes.length).getD 0)
  | .readPool black =>
    match s.pc with
    | .sleeping => some (s.refreshPool path tier black)
    | _ => none
  | .stat =>
    match s.pc with
    | .pooled => some { s with pc := if s.isYoung path then .young s.clock else .aged }
    | _ => none
  | .readTip =>
    match s.pc with
    | .young statAt => some (s.refreshTip path ((s.texts path).head?.bind extractRoundTip) statAt)
    | .aged => some (s.refreshTip path none 0)
    | _ => none

/-- The gateway starts with the pool it reads, and goes on to its first tip. -/
def start (clock : Nat) (files : KeyMap String (AtomicFile.File Char)) (published : List Publication)
    (black : Blacklist) : PeerFeed :=
  { clock := clock
    disk := { files := files }
    published := published
    black := black
    pool := Gateway.readPool tier black ((files.lookup path).map fun f => String.ofList f.bytes).toList
    netTip := 0
    lastFreshTip := clock
    checkedAt := clock
    tipWritten := 0
    tipStat := 0
    pc := .pooled
    booting := true }

variable {path tier} {files : KeyMap String (AtomicFile.File Char)} {s t : PeerFeed} {f : AtomicFile.File Char}

/-! ## 3. The disk over time -/

/-- Every text on the way to the gateway was published, and later texts are dated later. -/
structure OnDisk (path : String) (files : KeyMap String (AtomicFile.File Char)) (s : PeerFeed) : Prop where
  disk : AtomicFile.Inv (feedProtocol path) files s.disk
  single : s.disk.writers.length ≤ 1
  given : ∀ text ∈ s.disk.given, ∃ p ∈ s.published, text = p.text
  first : ∀ f, files.lookup path = some f → ∃ p ∈ s.published, f.bytes = p.text
  dated : ∀ f, s.file path = some f → f.modified ≤ s.clock
  later : ∀ w ∈ s.disk.writers, ∀ g, s.disk.files.lookup w.temp = some g →
    g.modified ≤ s.clock ∧ ∀ f, s.file path = some f → f.modified ≤ g.modified

/-- What is at the name of the file is a publication. -/
theorem OnDisk.published (h : s.OnDisk path files) (hf : s.file path = some f) :
    ∃ p ∈ s.published, f.bytes = p.text := by
  rcases (h.disk.whole f hf).1 with hfirst | hgiven
  · exact h.first f hfirst
  · exact h.given _ hgiven

/-- Only the clock and the disk matter. -/
theorem OnDisk.gateway (h : s.OnDisk path files) (hdisk : t.disk = s.disk) (hpublished : t.published = s.published)
    (hclock : s.clock ≤ t.clock) : t.OnDisk path files := by
  have hfile : t.file path = s.file path := by rw [file, file, hdisk]
  refine ⟨hdisk ▸ h.disk, hdisk ▸ h.single, ?_, ?_, ?_, ?_⟩
  · rw [hdisk, hpublished]
    exact h.given
  · rw [hpublished]
    exact h.first
  · rw [hfile]
    exact fun f hf => Nat.le_trans (h.dated f hf) hclock
  · rw [hdisk, hfile]
    intro w hw g hg
    obtain ⟨hle, hlater⟩ := h.later w hw g hg
    exact ⟨Nat.le_trans hle hclock, hlater⟩

theorem writers_eq_singleton {w : AtomicFile.Writer String Char} (h : s.disk.writers.length ≤ 1)
    (hw : w ∈ s.disk.writers) : s.disk.writers = [w] := by
  rcases hwriters : s.disk.writers with _ | ⟨v, _ | ⟨u, rest⟩⟩
  · rw [hwriters] at hw
    cases hw
  · rw [hwriters] at hw
    rw [List.mem_singleton.mp hw]
  · rw [hwriters, List.length_cons, List.length_cons] at h
    omega

section

variable (hdurable : ∀ name f, files.lookup name = some f → f.durable = true) {w : AtomicFile.Writer String Char}
  {disk : AtomicFile.Disk String Char}

include hdurable

theorem OnDisk.publish (h : s.OnDisk path files) (p : Publication) (hidle : s.disk.writers = [])
    (hstep : AtomicFile.step (feedProtocol path) s.disk (.create (path ++ ".tmp") p.text s.clock) = some disk) :
    ({ s with published := p :: s.published, disk := disk } : PeerFeed).OnDisk path files ∧
      disk.files.lookup path = s.file path := by
  have hmine : (feedProtocol path).mine (path ++ ".tmp") = true := beq_self_eq_true _
  have hne : path ≠ path ++ ".tmp" := by
    intro heq
    have hnot := (feedProtocol path).target_not_mine
    rw [show (feedProtocol path).target = path ++ ".tmp" from heq, hmine] at hnot
    cases hnot
  have hcareful : AtomicFile.Careful (feedProtocol path) s.disk (.create (path ++ ".tmp") p.text s.clock) := by
    refine ⟨hmine, ?_⟩
    rw [hidle]
    exact List.not_mem_nil
  have hdisk := h.disk.step hdurable hstep hcareful
  cases AtomicFile.step_eq_some hstep with
  | create temp content now =>
    have hfile : ({ s with
        published := p :: s.published
        disk := ⟨s.disk.files.insert (path ++ ".tmp") ⟨[], s.clock, false⟩,
          ⟨path ++ ".tmp", p.text, 0, false⟩ :: s.disk.writers, p.text :: s.disk.given⟩ } : PeerFeed).file path =
        s.file path := AList.lookup_insert_ne hne
    refine ⟨⟨hdisk, ?_, ?_, ?_, ?_, ?_⟩, hfile⟩
    · rw [List.length_cons, hidle]
      exact Nat.le_refl _
    · intro text htext
      rcases List.mem_cons.mp htext with rfl | htext
      · exact ⟨p, List.mem_cons_self, rfl⟩
      · obtain ⟨q, hq, heq⟩ := h.given text htext
        exact ⟨q, List.mem_cons_of_mem _ hq, heq⟩
    · intro f hf
      obtain ⟨q, hq, heq⟩ := h.first f hf
      exact ⟨q, List.mem_cons_of_mem _ hq, heq⟩
    · rw [hfile]
      exact h.dated
    · rw [hfile]
      intro w hw g hg
      rw [hidle] at hw
      rw [List.mem_singleton.mp hw, AList.lookup_insert, Option.some.injEq] at hg
      subst hg
      exact ⟨Nat.le_refl _, h.dated⟩

theorem OnDisk.write {n : Nat} (h : s.OnDisk path files)
    (hstep : AtomicFile.step (feedProtocol path) s.disk (.write w n s.clock) = some disk) :
    ({ s with disk := disk } : PeerFeed).OnDisk path files ∧
      ({ s with disk := disk } : PeerFeed).file path = s.file path := by
  have hdisk := h.disk.step hdurable hstep trivial
  cases AtomicFile.step_eq_some hstep with
  | write _ _ _ hw hn =>
    have hone := writers_eq_singleton h.single hw
    have hne := (h.disk.owns w hw).ne_temp (feedProtocol path).target_not_mine
    have hfile : ∀ g, (KeyMap.modify w.temp g s.disk.files).lookup path = s.file path := fun g =>
      KeyMap.lookup_modify_ne hne g s.disk.files
    refine ⟨⟨hdisk, ?_, h.given, h.first, ?_, ?_⟩, hfile _⟩
    · simp only [Bag.replace, List.length_cons, hone, List.erase_cons_head, List.length_nil]
      exact Nat.le_refl _
    · intro f hf
      rw [file, hfile] at hf
      exact h.dated f hf
    · intro v hv g hg
      simp only [Bag.replace, hone, List.erase_cons_head, List.mem_singleton] at hv
      subst hv
      rw [KeyMap.lookup_modify_self, Option.map_eq_some_iff] at hg
      obtain ⟨old, -, rfl⟩ := hg
      refine ⟨Nat.le_refl _, fun f hf => ?_⟩
      rw [file, hfile] at hf
      exact h.dated f hf

theorem OnDisk.rename (h : s.OnDisk path files)
    (hstep : AtomicFile.step (feedProtocol path) s.disk (.rename w) = some disk) :
    ({ s with disk := disk } : PeerFeed).OnDisk path files ∧
      ∃ g, ({ s with disk := disk } : PeerFeed).file path = some g ∧
        ∀ f, s.file path = some f → f.modified ≤ g.modified := by
  have hdisk := h.disk.step hdurable hstep trivial
  cases AtomicFile.step_eq_some hstep with
  | rename _ g hw _ _ hg =>
    have hone := writers_eq_singleton h.single hw
    obtain ⟨hle, hlater⟩ := h.later w hw g hg
    have hfile : ((s.disk.files.erase w.temp).insert path g).lookup path = some g := AList.lookup_insert _
    refine ⟨⟨hdisk, ?_, h.given, h.first, ?_, ?_⟩, g, hfile, hlater⟩
    · rw [hone, List.erase_cons_head]
      exact Nat.zero_le _
    · intro f hf
      obtain rfl := Option.some.inj (hfile.symm.trans hf)
      exact hle
    · intro v hv
      rw [hone, List.erase_cons_head] at hv
      cases hv

theorem OnDisk.failed (h : s.OnDisk path files)
    (hstep : AtomicFile.step (feedProtocol path) s.disk (.abandon w false) = some disk) :
    ({ s with disk := disk } : PeerFeed).OnDisk path files ∧
      ({ s with disk := disk } : PeerFeed).file path = s.file path := by
  have hdisk := h.disk.step hdurable hstep trivial
  cases AtomicFile.step_eq_some hstep with
  | abandon _ _ hw =>
    have hone := writers_eq_singleton h.single hw
    refine ⟨⟨hdisk, ?_, h.given, h.first, h.dated, ?_⟩, rfl⟩
    · rw [hone, List.erase_cons_head]
      exact Nat.zero_le _
    · intro v hv
      rw [hone, List.erase_cons_head] at hv
      cases hv

theorem OnDisk.killed (h : s.OnDisk path files)
    (hstep : AtomicFile.step (feedProtocol path) s.disk
      (.crash fun name => ((s.disk.files.lookup name).map fun f => f.bytes.length).getD 0) = some disk) :
    ({ s with disk := disk } : PeerFeed).OnDisk path files ∧
      ({ s with disk := disk } : PeerFeed).file path = s.file path := by
  have hleft : ∀ name f, s.disk.files.lookup name = some f →
      f.bytes.length ≤ ((s.disk.files.lookup name).map fun f => f.bytes.length).getD 0 := by
    intro name f hf
    rw [hf]
    exact Nat.le_refl _
  have hdisk := h.disk.step hdurable hstep (Or.inr hleft)
  cases AtomicFile.step_eq_some hstep with
  | crash left =>
    -- the system writes what the process had handed over
    have hfile : (KeyMap.mapVals (fun name f =>
        f.cut (((s.disk.files.lookup name).map fun f => f.bytes.length).getD 0)) s.disk.files).lookup path =
          s.file path := by
      rw [KeyMap.lookup_mapVals, file]
      cases hf : s.disk.files.lookup path with
      | none => rfl
      | some f =>
        rw [Option.map_some, AtomicFile.File.cut]
        split
        · rfl
        · rw [List.take_of_length_le]
          exact Nat.le_refl _
    refine ⟨⟨hdisk, Nat.zero_le _, h.given, h.first, ?_, ?_⟩, hfile⟩
    · intro f hf
      rw [file, hfile] at hf
      exact h.dated f hf
    · intro v hv
      cases hv

end

/-! ## 4. The gateway over time -/

structure Inv (path : String) (tier : PriorityTier) (files : KeyMap String (AtomicFile.File Char)) (s : PeerFeed) :
    Prop where
  onDisk : s.OnDisk path files
  pool : s.pool = [] ∨ ∃ p ∈ s.published, s.pool.Sublist p.pool
  allowed : ∀ ip ∈ s.pool, ip ∉ tier.peers ∧ s.black.contains ip = false
  tip : s.netTip ≠ 0 → (∃ p ∈ s.published, p.roundTip = some s.netTip) ∧
    s.tipStat ≤ s.tipWritten + PEER_FILE_TIP_MAX_AGE ∧ s.tipStat ≤ s.lastFreshTip ∧
    s.checkedAt ≤ s.lastFreshTip + PEER_FILE_TIP_MAX_AGE
  young : ∀ statAt, s.pc = .young statAt →
    statAt ≤ s.clock ∧ ∃ f, s.file path = some f ∧ statAt ≤ f.modified + PEER_FILE_TIP_MAX_AGE
  booting : s.booting = true → s.netTip = 0

/-- A pool that was read is part of the publication it was read from. -/
theorem OnDisk.readPool (h : s.OnDisk path files) (tier : PriorityTier) (black : Blacklist) :
    (Gateway.readPool tier black (s.texts path) = [] ∨
      ∃ p ∈ s.published, (Gateway.readPool tier black (s.texts path)).Sublist p.pool) ∧
    ∀ ip ∈ Gateway.readPool tier black (s.texts path), ip ∉ tier.peers ∧ black.contains ip = false := by
  constructor
  · cases hf : s.file path with
    | none =>
      left
      have hsub := readPool_sublist tier black (s.texts path)
      rw [texts, hf] at hsub ⊢
      exact List.sublist_nil.mp hsub
    | some f =>
      right
      obtain ⟨p, hp, hbytes⟩ := h.published hf
      refine ⟨p, hp, ?_⟩
      have hread : readNodePeers (s.texts path) = p.pool := by
        rw [texts, hf, Option.map_some, Option.toList_some, hbytes, p.readNodePeers_text]
      rw [← hread]
      exact readPool_sublist tier black _
  · intro ip hip
    obtain ⟨hstrip, hblack⟩ := Blacklist.mem_filtered.mp hip
    exact ⟨(PriorityTier.mem_strip.mp hstrip).2, hblack⟩

/-- A tip that was read is a published one. -/
theorem OnDisk.readTip {tip : UInt32} (h : s.OnDisk path files)
    (hread : (s.texts path).head?.bind extractRoundTip = some tip) :
    ∃ f, s.file path = some f ∧ ∃ p ∈ s.published, p.roundTip = some tip := by
  cases hf : s.file path with
  | none =>
    rw [texts, hf] at hread
    cases hread
  | some f =>
    obtain ⟨p, hp, hbytes⟩ := h.published hf
    refine ⟨f, rfl, p, hp, ?_⟩
    rw [texts, hf, Option.map_some, Option.toList_some, hbytes, List.head?_cons, Option.bind_some,
      p.extractRoundTip_text] at hread
    exact hread

theorem isYoung_iff : s.isYoung path = true ↔
    ∃ f, s.file path = some f ∧ f.modified ≤ s.clock ∧ s.clock - f.modified ≤ PEER_FILE_TIP_MAX_AGE := by
  unfold isYoung
  cases s.file path with
  | none => simp
  | some f => simp

theorem Inv.refreshPool (h : s.Inv path tier files) (black : Blacklist) :
    (s.refreshPool path tier black).Inv path tier files := by
  obtain ⟨hpool, hallowed⟩ := h.onDisk.readPool tier black
  refine ⟨h.onDisk.gateway rfl rfl (Nat.le_refl _), ?_, ?_, h.tip, ?_, h.booting⟩
  · simp only [PeerFeed.refreshPool]
    split
    · rcases h.pool with hnil | ⟨p, hp, hsub⟩
      · left
        rw [hnil]
        rfl
      · exact Or.inr ⟨p, hp, List.filter_sublist.trans hsub⟩
    · exact hpool
  · simp only [PeerFeed.refreshPool]
    split
    · intro ip hip
      obtain ⟨hmem, hblack⟩ := List.mem_filter.mp hip
      exact ⟨(h.allowed ip hmem).1, Bool.not_eq_true' _ ▸ hblack⟩
    · exact hallowed
  · intro statAt hpc
    cases hpc

theorem Inv.refreshTip {fresh : Option UInt32} {statAt : Nat} (h : s.Inv path tier files)
    (hfresh : ∀ tip, fresh = some tip → (∃ p ∈ s.published, p.roundTip = some tip) ∧ statAt ≤ s.clock ∧
      statAt ≤ ((s.file path).map AtomicFile.File.modified).getD 0 + PEER_FILE_TIP_MAX_AGE) :
    (s.refreshTip path fresh statAt).Inv path tier files := by
  refine ⟨h.onDisk.gateway rfl rfl (Nat.le_refl _), h.pool, h.allowed, ?_, ?_, ?_⟩
  · cases fresh with
    | some tip =>
      obtain ⟨hpublished, hpast, hage⟩ := hfresh tip rfl
      intro _
      exact ⟨hpublished, hage, hpast, Nat.le_add_right _ _⟩
    | none =>
      -- without a reading the tip stays, if it is there at all, or goes
      simp only [PeerFeed.refreshTip, nextNetTip, Option.isSome_none, Bool.false_eq_true, false_or, if_false]
      intro htip
      by_cases hboot : s.booting = true
      · rw [if_pos hboot, Nat.sub_self, if_neg (Nat.not_lt_zero _)] at htip
        exact absurd (h.booting hboot) htip
      · rw [if_neg hboot] at htip ⊢
        split at htip
        · exact absurd rfl htip
        · rename_i hrecent
          obtain ⟨hpublished, hage, hpast, -⟩ := h.tip htip
          rw [if_neg hrecent]
          exact ⟨hpublished, hage, hpast, by omega⟩
  · intro statAt' hpc
    cases hpc
  · intro hboot
    cases hboot

/-- A step of peerd: the file is as it was, or dated later. -/
theorem Inv.peerd (h : s.Inv path tier files) (hdisk : t.OnDisk path files) (hclock : t.clock = s.clock)
    (hpublished : s.published ⊆ t.published) (hsame : t.pool = s.pool ∧ t.black = s.black ∧ t.netTip = s.netTip ∧
      t.tipStat = s.tipStat ∧ t.tipWritten = s.tipWritten ∧ t.lastFreshTip = s.lastFreshTip ∧
      t.checkedAt = s.checkedAt ∧ t.pc = s.pc ∧ t.booting = s.booting)
    (hfile : ∀ f, s.file path = some f → ∃ g, t.file path = some g ∧ f.modified ≤ g.modified) :
    t.Inv path tier files := by
  obtain ⟨hpool, hblack, htip, hstat, hwritten, hlast, hchecked, hpc, hbooting⟩ := hsame
  refine ⟨hdisk, ?_, ?_, ?_, ?_, ?_⟩
  · rw [hpool]
    rcases h.pool with hnil | ⟨p, hp, hsub⟩
    · exact Or.inl hnil
    · exact Or.inr ⟨p, hpublished hp, hsub⟩
  · rw [hpool, hblack]
    exact h.allowed
  · rw [htip, hstat, hwritten, hlast, hchecked]
    intro hne
    obtain ⟨⟨p, hp, heq⟩, hrest⟩ := h.tip hne
    exact ⟨⟨p, hpublished hp, heq⟩, hrest⟩
  · intro statAt hyoung
    obtain ⟨hpast, f, hf, hage⟩ := h.young statAt (hpc ▸ hyoung)
    obtain ⟨g, hg, hle⟩ := hfile f hf
    exact ⟨hclock ▸ hpast, g, hg, Nat.le_trans hage (Nat.add_le_add_right hle _)⟩
  · rw [hbooting, htip]
    exact h.booting

theorem onDisk_eq_some {e : AtomicFile.Event String Char} (h : s.onDisk path e = some t) :
    ∃ disk, AtomicFile.step (feedProtocol path) s.disk e = some disk ∧ t = { s with disk := disk } := by
  obtain ⟨disk, hdisk, heq⟩ := Option.map_eq_some_iff.mp h
  exact ⟨disk, hdisk, heq.symm⟩

/-- A step of peerd that leaves the file itself alone. -/
theorem Inv.aside {disk : AtomicFile.Disk String Char} (h : s.Inv path tier files)
    (hnext : ({ s with disk := disk } : PeerFeed).OnDisk path files ∧
      ({ s with disk := disk } : PeerFeed).file path = s.file path) :
    ({ s with disk := disk } : PeerFeed).Inv path tier files :=
  h.peerd hnext.1 rfl (List.Subset.refl _) ⟨rfl, rfl, rfl, rfl, rfl, rfl, rfl, rfl, rfl⟩ fun f hf =>
    ⟨f, hnext.2.trans hf, Nat.le_refl _⟩

theorem Inv.step {e : FeedEvent} (h : s.Inv path tier files)
    (hdurable : ∀ name f, files.lookup name = some f → f.durable = true) (hs : s.step path tier e = some t) :
    t.Inv path tier files := by
  cases e with
  | tick d =>
    cases hs
    refine { h with onDisk := h.onDisk.gateway rfl rfl (Nat.le_add_right _ _), young := ?_ }
    intro statAt hyoung
    obtain ⟨hpast, hfile⟩ := h.young statAt hyoung
    exact ⟨Nat.le_add_right_of_le hpast, hfile⟩
  | publish p =>
    simp only [PeerFeed.step] at hs
    split at hs
    · rename_i hidle
      obtain ⟨disk, hdisk, rfl⟩ := onDisk_eq_some hs
      obtain ⟨hnext, hfile⟩ := h.onDisk.publish hdurable p (List.isEmpty_iff.mp hidle) hdisk
      refine h.peerd hnext rfl (List.subset_cons_self _ _) ⟨rfl, rfl, rfl, rfl, rfl, rfl, rfl, rfl, rfl⟩ ?_
      exact fun f hf => ⟨f, hfile.trans hf, Nat.le_refl _⟩
    · cases hs
  | write w n =>
    obtain ⟨disk, hdisk, rfl⟩ := onDisk_eq_some hs
    exact h.aside (h.onDisk.write hdurable hdisk)
  | rename w =>
    obtain ⟨disk, hdisk, rfl⟩ := onDisk_eq_some hs
    obtain ⟨hnext, g, hg, hle⟩ := h.onDisk.rename hdurable hdisk
    refine h.peerd hnext rfl (List.Subset.refl _) ⟨rfl, rfl, rfl, rfl, rfl, rfl, rfl, rfl, rfl⟩ ?_
    exact fun f hf => ⟨g, hg, hle f hf⟩
  | failed w =>
    obtain ⟨disk, hdisk, rfl⟩ := onDisk_eq_some hs
    exact h.aside (h.onDisk.failed hdurable hdisk)
  | killed =>
    obtain ⟨disk, hdisk, rfl⟩ := onDisk_eq_some hs
    exact h.aside (h.onDisk.killed hdurable hdisk)
  | readPool black =>
    simp only [PeerFeed.step] at hs
    split at hs <;> cases hs
    exact h.refreshPool black
  | stat =>
    simp only [PeerFeed.step] at hs
    split at hs <;> cases hs
    refine { h with onDisk := h.onDisk.gateway rfl rfl (Nat.le_refl _), young := ?_ }
    intro statAt hyoung
    simp only at hyoung
    split at hyoung
    · rename_i hage
      obtain ⟨f, hf, hle, hmax⟩ := isYoung_iff.mp hage
      cases hyoung
      exact ⟨Nat.le_refl _, f, hf, by omega⟩
    · cases hyoung
  | readTip =>
    simp only [PeerFeed.step] at hs
    split at hs
    · next statAt hpc =>
      cases hs
      apply h.refreshTip
      intro tip hread
      obtain ⟨-, -, hpublished⟩ := h.onDisk.readTip hread
      obtain ⟨hpast, f, hf, hage⟩ := h.young statAt hpc
      refine ⟨hpublished, hpast, ?_⟩
      rw [hf]
      exact hage
    · cases hs
      apply h.refreshTip
      intro tip hread
      cases hread
    · cases hs

variable {clock : Nat} {published : List Publication} {black : Blacklist}

theorem inv_start (hdurable : ∀ name f, files.lookup name = some f → f.durable = true)
    (hfirst : ∀ f, files.lookup path = some f → f.modified ≤ clock ∧ ∃ p ∈ published, f.bytes = p.text) :
    (start path tier clock files published black).Inv path tier files := by
  have hdisk : (start path tier clock files published black).OnDisk path files :=
    ⟨AtomicFile.inv_start hdurable, Nat.zero_le _, fun _ h => absurd h List.not_mem_nil,
      fun f hf => (hfirst f hf).2, fun f hf => (hfirst f hf).1, fun _ h => absurd h List.not_mem_nil⟩
  obtain ⟨hpool, hallowed⟩ := hdisk.readPool tier black
  refine ⟨hdisk, hpool, hallowed, fun htip => absurd rfl htip, ?_, fun _ => rfl⟩
  intro statAt hpc
  cases hpc

/-- What is published was there at the start, or peerd published it in the run. -/
theorem published_of_run {es : List FeedEvent}
    (hrun : Machine.Run (PeerFeed.step path tier) (fun _ _ => True) s es t) :
    ∀ p ∈ t.published, p ∈ s.published ∨ .publish p ∈ es := by
  refine hrun.history (I := fun es t => ∀ p ∈ t.published, p ∈ s.published ∨ .publish p ∈ es)
    (fun p hp => Or.inl hp) ?_
  intro es a e b ih _ hs p hp
  have hold : p ∈ a.published → p ∈ s.published ∨ .publish p ∈ es ++ [e] := fun hp =>
    (ih p hp).imp_right fun hmem => List.mem_append_left _ hmem
  have hdisk : ∀ {a' : PeerFeed} {e' : AtomicFile.Event String Char}, a'.onDisk path e' = some b →
      b.published = a'.published := by
    intro a' e' h
    obtain ⟨disk, -, rfl⟩ := onDisk_eq_some h
    rfl
  cases e with
  | tick d =>
    cases hs
    exact hold hp
  | publish q =>
    simp only [PeerFeed.step] at hs
    split at hs
    · rw [hdisk hs] at hp
      rcases List.mem_cons.mp hp with rfl | hp
      · exact Or.inr (List.mem_append_right _ (List.mem_singleton.mpr rfl))
      · exact hold hp
    · cases hs
  | write w n => exact hold (hdisk hs ▸ hp)
  | rename w => exact hold (hdisk hs ▸ hp)
  | failed w => exact hold (hdisk hs ▸ hp)
  | killed => exact hold (hdisk hs ▸ hp)
  | readPool black =>
    simp only [PeerFeed.step] at hs
    split at hs <;> cases hs
    exact hold hp
  | stat =>
    simp only [PeerFeed.step] at hs
    split at hs <;> cases hs
    exact hold hp
  | readTip =>
    simp only [PeerFeed.step] at hs
    split at hs
    · cases hs
      exact hold hp
    · cases hs
      exact hold hp
    · cases hs

/-- A turn that leaves no pool leaves no peer behind that may be dialed. -/
theorem blacklisted_of_refreshPool_nil {black : Blacklist} {ip : String}
    (hnil : (s.refreshPool path tier black).pool = []) (hip : ip ∈ s.pool) : black.contains ip = true := by
  simp only [PeerFeed.refreshPool] at hnil
  split at hnil
  · by_contra hblack
    have hmem : ip ∈ s.pool.filter fun ip => !black.contains ip :=
      List.mem_filter.mpr ⟨hip, by rw [Bool.eq_false_of_not_eq_true hblack, Bool.not_false]⟩
    rw [hnil] at hmem
    cases hmem
  · rename_i hne
    rw [hnil] at hne
    exact absurd rfl hne

end PeerFeed

/-! ## 5. What the gateway has -/

theorem gateway_follows_published_pools {path : String} {tier : PriorityTier} {clock : Nat}
    {files : KeyMap String (AtomicFile.File Char)} {published : List Publication} {black : Blacklist}
    {es : List FeedEvent} {s : PeerFeed}
    (hdurable : ∀ name f, files.lookup name = some f → f.durable = true)
    (hfirst : ∀ f, files.lookup path = some f → f.modified ≤ clock ∧ ∃ p ∈ published, f.bytes = p.text)
    (hrun : Machine.Run (PeerFeed.step path tier) (fun _ _ => True)
      (PeerFeed.start path tier clock files published black) es s) :
    (s.pool = [] ∨ ∃ p, (p ∈ published ∨ .publish p ∈ es) ∧ s.pool.Sublist p.pool) ∧
      (∀ ip ∈ s.pool, ip ∉ tier.peers ∧ s.black.contains ip = false) ∧
      (∀ black t, s.step path tier (.readPool black) = some t → t.pool = [] →
        ∀ ip ∈ s.pool, black.contains ip = true) ∧
      (s.netTip ≠ 0 → (∃ p, (p ∈ published ∨ .publish p ∈ es) ∧ p.roundTip = some s.netTip) ∧
        s.tipStat ≤ s.tipWritten + PEER_FILE_TIP_MAX_AGE ∧ s.tipStat ≤ s.lastFreshTip ∧
        s.checkedAt ≤ s.lastFreshTip + PEER_FILE_TIP_MAX_AGE) := by
  have hinv := hrun.invariant (PeerFeed.inv_start hdurable hfirst) fun _ _ _ h _ hs => h.step hdurable hs
  have hpublished := PeerFeed.published_of_run hrun
  refine ⟨?_, hinv.allowed, ?_, ?_⟩
  · rcases hinv.pool with hnil | ⟨p, hp, hsub⟩
    · exact Or.inl hnil
    · exact Or.inr ⟨p, hpublished p hp, hsub⟩
  · intro black t hs hnil ip hip
    simp only [PeerFeed.step] at hs
    split at hs <;> cases hs
    exact PeerFeed.blacklisted_of_refreshPool_nil hnil hip
  · intro htip
    obtain ⟨⟨p, hp, heq⟩, hage⟩ := hinv.tip htip
    exact ⟨⟨p, hpublished p hp, heq⟩, hage⟩

/-- One peer and a tip. -/
def firstPublication : Publication where
  pool := ["1.2.3.4"]
  totalCandidates := 1
  roundTip := some 1490000000
  peers := by
    intro ip hip
    rw [List.mem_singleton.mp hip]
    exact @isPeer_of_mem_extractIpv4 "1.2.3.4" _ (by decide +kernel)
  nodup := List.nodup_singleton _

def firstWriter (written : Nat) : AtomicFile.Writer String Char :=
  ⟨"/pd/peers.json.tmp", firstPublication.text, written, false⟩

/-- The gateway finds no file at first; peerd then publishes one while the gateway is in its turn. -/
def firstFeed : List FeedEvent :=
  [.stat, .readTip, .publish firstPublication, .tick 5, .write (firstWriter 0) firstPublication.text.length,
    .rename (firstWriter firstPublication.text.length), .readPool {}, .stat, .tick 1, .readTip]

theorem gateway_follows_published_pools_first :
    ∃ s, Machine.Run (PeerFeed.step "/pd/peers.json" noPriority) (fun _ _ => True)
      (PeerFeed.start "/pd/peers.json" noPriority 0 ∅ [] {}) firstFeed s ∧
      s.pool = ["1.2.3.4"] ∧ ∃ p, .publish p ∈ firstFeed ∧ p.roundTip = some s.netTip := by
  have hexec : (Machine.exec (PeerFeed.step "/pd/peers.json" noPriority) (fun _ _ => True)
      (PeerFeed.start "/pd/peers.json" noPriority 0 ∅ [] {}) firstFeed).map
        (fun s => (s.pool, s.netTip)) = some (["1.2.3.4"], 1490000000) := by decide +kernel
  obtain ⟨s, hs, heq⟩ := Option.map_eq_some_iff.mp hexec
  obtain ⟨hpool, htip⟩ := Prod.mk.inj heq
  have hrun := Machine.Run.of_exec hs
  obtain ⟨-, -, -, hpublished⟩ := gateway_follows_published_pools
    (fun _ _ h => by rw [AList.lookup_empty] at h; cases h) (fun _ h => by rw [AList.lookup_empty] at h; cases h) hrun
  obtain ⟨⟨p, hp, heq⟩, -⟩ := hpublished (by rw [htip]; decide)
  exact ⟨s, hrun, hpool, p, hp.resolve_left List.not_mem_nil, heq⟩

end Hypersync.Gateway
