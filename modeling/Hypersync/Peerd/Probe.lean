import Hypersync.Peerd.Pool
import Hypersync.Protocol.FrameRounds
import Hypersync.Push.Live

/-!
# What a probe sees of a live stream

peerd connects to a candidate, greets it as a session would and reads frames until
its time is up; the candidate is live if enough of them are blocks with a plausible
round.  The reader is peerd's own, with limits of its own, next to the gateway's
reader of the same streams.

A turn of the loop is described by what came of its reads (`ProbeRead`).  The probe
counts exactly the blocks among the frames in front of the first one it stops at
(`probeLoop_frames`), so it judges a stream as the gateway does if and only if no block
is at or behind that frame.  The limits differ, though: the gateway takes frames of up to
eight megabytes and the probe gives up at two, so a peer that sends one larger frame
first is failed, whatever it sends afterwards (`large_frame_hides_blocks`).
-/

namespace Hypersync.Peerd

open Protocol

/-! ## 1. The probe as written -/

inductive ProbeStatus where
  | noLiveFrame
  | live
  | connectTimeout
  | connectError
  | greetWriteError
  | headerTimeout
  | headerEof
  | headerError
  | payloadTimeout
  | payloadEof
  | payloadError
  | oversizedFrame
  | peerFull
  | statusFrame
  | lowRound
  | unparseableBlock
deriving DecidableEq, Repr

/-- A probe's outcome with the status that is logged. -/
structure ProbeReport extends LiveProbe where
  status : ProbeStatus
deriving DecidableEq, Repr

/-- `LiveProbe::default()`, up to its status. -/
def ProbeReport.failed (status : ProbeStatus) : ProbeReport := ⟨⟨0, none⟩, status⟩

def MAX_PROBE_FRAME : Nat := 2000000

/-- How connecting and greeting went. -/
inductive ProbeConnect where
  | timeout
  | error
  | greetWriteError
  | greeted
deriving DecidableEq, Repr

/-- What came of the reads of one turn: the time was up before, one of the reads failed, or a
    whole frame was there in time. -/
inductive ProbeRead where
  | expired
  | headerTimeout
  | headerEof
  | headerError
  | payloadTimeout (header : Header)
  | payloadEof (header : Header)
  | payloadError (header : Header)
  | frame (f : RawFrame)

/-- The refusal `[4]`, in a control frame of one byte. -/
def peerFullFrame (f : RawFrame) : Bool := f.header.typ = 0 ∧ f.header.len = 1 ∧ f.payload.head? = some 4

/-- The length check stands in front of the read of the payload. -/
def payloadStatus (header : Header) (status : ProbeStatus) : ProbeStatus :=
  if MAX_PROBE_FRAME < header.len then .oversizedFrame else status

section

variable (lz4 : Lz4.Decoder)

/-- The end of the loop body: what a frame that does not stop the probe adds. -/
def seeFrame (p : ProbeReport) (f : RawFrame) : ProbeReport :=
  let p := if f.header.typ = 0 then { p with status := .statusFrame } else p
  if f.header.typ = 1 ∧ 1 < f.header.len then
    match blockRound lz4 f.payload with
    | some round =>
      if isPlausibleMainnetRound round 0 then
        ⟨⟨p.blocks + 1, some (p.maxRound.elim round fun prev => max prev round)⟩, .live⟩
      else { p with status := .lowRound }
    | none => { p with status := .unparseableBlock }
  else p

/-- The loop.  After the last turn given, the time is up. -/
def probeLoop : List ProbeRead → ProbeReport → ProbeReport
  | [], p => p
  | .expired :: _, p => p
  | .headerTimeout :: _, p => { p with status := .headerTimeout }
  | .headerEof :: _, p => { p with status := .headerEof }
  | .headerError :: _, p => { p with status := .headerError }
  | .payloadTimeout header :: _, p => { p with status := payloadStatus header .payloadTimeout }
  | .payloadEof header :: _, p => { p with status := payloadStatus header .payloadEof }
  | .payloadError header :: _, p => { p with status := payloadStatus header .payloadError }
  | .frame f :: reads, p =>
    if MAX_PROBE_FRAME < f.header.len then { p with status := .oversizedFrame }
    else if peerFullFrame f then { p with status := .peerFull }
    else probeLoop reads (seeFrame lz4 p f)

def finalProbeStatus (blocks : Nat) (status : ProbeStatus) : ProbeStatus :=
  if MIN_LIVE_BLOCKS ≤ blocks ∧ status ≠ .peerFull then .live else status

def probeLive (connect : ProbeConnect) (reads : List ProbeRead) : ProbeReport :=
  match connect with
  | .timeout => .failed .connectTimeout
  | .error => .failed .connectError
  | .greetWriteError => .failed .greetWriteError
  | .greeted =>
    let p := probeLoop lz4 reads (.failed .noLiveFrame)
    { p with status := finalProbeStatus p.blocks p.status }

end

/-! ## 2. What the probe counts -/

/-- A frame that the probe reads and goes on behind. -/
def ProbeReads (f : RawFrame) : Prop := f.header.len ≤ MAX_PROBE_FRAME ∧ peerFullFrame f = false
deriving Decidable

/-- The frames at and behind the first one that stops the probe. -/
def hiddenFrames (frames : List RawFrame) : List RawFrame := frames.dropWhile fun f => decide (ProbeReads f)

/-- The loop ends here, with no further frame. -/
def Ends (ending : List ProbeRead) : Prop := ∀ f reads, ending ≠ .frame f :: reads

/-- The loop goes through no further frame. -/
def Stops (reads : List ProbeRead) : Prop := ∀ f rest, reads = .frame f :: rest → ¬ ProbeReads f

theorem Ends.stops {ending : List ProbeRead} (h : Ends ending) (frames : List RawFrame) :
    Stops ((hiddenFrames frames).map ProbeRead.frame ++ ending) := by
  intro f rest heq
  rcases hhidden : hiddenFrames frames with _ | ⟨g, hidden⟩
  · rw [hhidden, List.map_nil, List.nil_append] at heq
    exact absurd heq (h f rest)
  · rw [hhidden, List.map_cons, List.cons_append] at heq
    obtain rfl := ProbeRead.frame.inj (List.cons.inj heq).1
    have hhead := List.head?_dropWhile_not (fun f => decide (ProbeReads f)) frames
    rw [show frames.dropWhile _ = g :: hidden from hhidden] at hhead
    exact of_decide_eq_false hhead

/-- `top` is the maximum of the rounds, if there are any. -/
def IsTop : Option UInt32 → List UInt32 → Prop
  | none, rounds => rounds = []
  | some top, rounds => top ∈ rounds ∧ ∀ r ∈ rounds, r ≤ top

/-- The report agrees with the rounds seen so far. -/
structure Reports (rounds : List UInt32) (p : ProbeReport) : Prop where
  blocks : p.blocks = rounds.length
  top : IsTop p.maxRound rounds

section

variable (lz4 : Lz4.Decoder)

/-- One byte is no block. -/
theorem blockRound_short {payload : List UInt8} (h : payload.length ≤ 1) : blockRound lz4 payload = none := by
  rcases payload with _ | ⟨b, _ | ⟨b', rest⟩⟩
  · rfl
  · rfl
  · simp only [List.length_cons] at h
    omega

theorem IsTop.snoc {o : Option UInt32} {rounds : List UInt32} (h : IsTop o rounds) (round : UInt32) :
    IsTop (some (o.elim round fun prev => max prev round)) (rounds ++ [round]) := by
  cases o with
  | none =>
    have hnil : rounds = [] := h
    rw [hnil]
    exact ⟨List.mem_singleton_self _, fun r hr => le_of_eq (List.mem_singleton.mp hr)⟩
  | some prev =>
    obtain ⟨hmem, hmax⟩ := h
    refine ⟨?_, ?_⟩
    · rw [List.mem_append, List.mem_singleton, Option.elim_some]
      rcases le_total prev round with hle | hle
      · exact Or.inr (max_eq_right hle)
      · rw [max_eq_left hle]
        exact Or.inl hmem
    · intro r hr
      rcases List.mem_append.mp hr with hr | hr
      · exact (hmax r hr).trans (le_max_left _ _)
      · rw [List.mem_singleton.mp hr]
        exact le_max_right _ _

/-- A frame adds its round, if it has one. -/
theorem Reports.see {rounds : List UInt32} {p : ProbeReport} (h : Reports rounds p) {f : RawFrame}
    (hlive : f.header.len ≤ MAX_LIVE_FRAME) :
    Reports (rounds ++ (frameRound lz4 f).toList) (seeFrame lz4 p f) := by
  have hsame : ∀ {q : ProbeReport}, q.toLiveProbe = p.toLiveProbe → Reports (rounds ++ []) q := by
    intro q hq
    rw [List.append_nil]
    exact ⟨hq ▸ h.blocks, hq ▸ h.top⟩
  unfold seeFrame frameRound
  by_cases htyp : f.header.typ = 1
  · have hcontrol : ¬ f.header.typ = 0 := by
      rw [htyp]
      decide
    simp only [if_neg hcontrol]
    rw [if_pos (show f.header.typ = 1 ∧ f.header.len ≤ MAX_LIVE_FRAME from ⟨htyp, hlive⟩)]
    by_cases hlen : 1 < f.header.len
    · rw [if_pos ⟨htyp, hlen⟩]
      rcases blockRound lz4 f.payload with _ | round
      · exact hsame rfl
      · simp only [Option.filter_some]
        split
        · refine ⟨?_, h.top.snoc round⟩
          rw [Option.toList_some, List.length_append, List.length_singleton, ← h.blocks]
        · exact hsame rfl
    · rw [if_neg (fun hboth => hlen hboth.2), blockRound_short lz4 (by rw [f.sized]; omega)]
      exact hsame rfl
  · rw [if_neg (fun hboth => htyp hboth.1), if_neg (fun hboth => htyp hboth.1)]
    refine hsame ?_
    split
    · rfl
    · rfl

/-- Whatever stops the loop, the counts stay. -/
theorem probeLoop_stops {reads : List ProbeRead} (h : Stops reads) (p : ProbeReport) :
    (probeLoop lz4 reads p).toLiveProbe = p.toLiveProbe := by
  rcases reads with _ | ⟨read, rest⟩
  · rfl
  cases read with
  | frame f =>
    rw [probeLoop]
    split
    · rfl
    · rename_i hsmall
      split
      · rfl
      · rename_i hfull
        exact absurd ⟨Nat.not_lt.mp hsmall, Bool.eq_false_of_not_eq_true hfull⟩ (h f rest rfl)
  | expired => rfl
  | headerTimeout => rfl
  | headerEof => rfl
  | headerError => rfl
  | payloadTimeout header => rfl
  | payloadEof header => rfl
  | payloadError header => rfl

/-- **The loop counts what it goes through**: frames that do not stop it, one after the other,
    up to whatever does. -/
theorem probeLoop_frames {frames : List RawFrame} (rest : List ProbeRead)
    (hread : ∀ f ∈ frames, ProbeReads f) :
    ∀ {rounds : List UInt32} {p : ProbeReport}, Reports rounds p →
      ∃ q, Reports (rounds ++ frames.filterMap (frameRound lz4)) q ∧
        probeLoop lz4 (frames.map ProbeRead.frame ++ rest) p = probeLoop lz4 rest q := by
  induction frames with
  | nil =>
    intro rounds p h
    exact ⟨p, by rwa [List.filterMap_nil, List.append_nil], rfl⟩
  | cons f frames ih =>
    intro rounds p h
    obtain ⟨hsmall, hfull⟩ := hread f List.mem_cons_self
    have hlive : f.header.len ≤ MAX_LIVE_FRAME := Nat.le_trans hsmall (by decide)
    obtain ⟨q, hq, hrun⟩ := ih (fun g hg => hread g (List.mem_cons_of_mem f hg)) (h.see lz4 hlive)
    refine ⟨q, ?_, ?_⟩
    · have hcons : (f :: frames).filterMap (frameRound lz4) =
          (frameRound lz4 f).toList ++ frames.filterMap (frameRound lz4) := by
        rw [List.filterMap_cons]
        rcases frameRound lz4 f with _ | round
        · rfl
        · rfl
      rwa [hcons, ← List.append_assoc]
    · rw [List.map_cons, List.cons_append, probeLoop, if_neg (Nat.not_lt.mpr hsmall), hfull]
      simp only [Bool.false_eq_true, if_false]
      exact hrun

end

/-- The probe's report, up to its status, agrees with the rounds it gets to see. -/
theorem probeLive_spec (lz4 : Lz4.Decoder) {frames : List RawFrame} {rest : List ProbeRead}
    (hread : ∀ f ∈ frames, ProbeReads f) (hstop : Stops rest) :
    ∃ q, Reports (frames.filterMap (frameRound lz4)) q ∧
      (probeLive lz4 .greeted (frames.map ProbeRead.frame ++ rest)).toLiveProbe = q.toLiveProbe := by
  have hstart : Reports [] (ProbeReport.failed .noLiveFrame) := ⟨rfl, rfl⟩
  obtain ⟨q, hq, hrun⟩ := probeLoop_frames lz4 rest hread hstart
  refine ⟨q, hq, ?_⟩
  rw [← probeLoop_stops lz4 hstop q, ← hrun]
  rfl

/-- With enough blocks the peer passes. -/
theorem Reports.probedLive {lz4 : Lz4.Decoder} {frames : List RawFrame} {q : ProbeReport}
    (hq : Reports (frames.filterMap (frameRound lz4)) q)
    (hmany : MIN_LIVE_BLOCKS ≤ (frames.filterMap (frameRound lz4)).length) (ip : String) :
    probedLive (ip, q.toLiveProbe) = true := by
  rw [Peerd.probedLive, Bool.and_eq_true, decide_eq_true_eq]
  refine ⟨hq.blocks ▸ hmany, ?_⟩
  have htop := hq.top
  rcases hmax : q.maxRound with _ | top
  · -- no maximum, no rounds
    rw [hmax] at htop
    have hnil : frames.filterMap (frameRound lz4) = [] := htop
    rw [hnil] at hmany
    exact absurd hmany (by decide)
  · rw [hmax] at htop
    obtain ⟨f, -, hf⟩ := List.mem_filterMap.mp htop.1
    unfold frameRound at hf
    split at hf
    · exact (Option.filter_eq_some_iff.mp hf).2
    · cases hf

/-- **What a probe counts of frames** that arrive before anything ends it.  It has counted the
    blocks with a plausible round among them exactly if none is at or behind the first
    frame that is longer than `MAX_PROBE_FRAME` or is the refusal.  Then it reports the
    highest of their rounds, and with `MIN_LIVE_BLOCKS` of them the peer passes. -/
theorem probeLive_reads_frames (lz4 : Lz4.Decoder) (frames : List RawFrame)
    (ending : List ProbeRead) (hend : Ends ending) (ip : String) :
    ((probeLive lz4 .greeted (frames.map ProbeRead.frame ++ ending)).blocks =
      (frames.filterMap (frameRound lz4)).length ↔ (hiddenFrames frames).filterMap (frameRound lz4) = []) ∧
    ((hiddenFrames frames).filterMap (frameRound lz4) = [] →
      IsTop (probeLive lz4 .greeted (frames.map ProbeRead.frame ++ ending)).maxRound
        (frames.filterMap (frameRound lz4)) ∧
      (MIN_LIVE_BLOCKS ≤ (frames.filterMap (frameRound lz4)).length →
        probedLive (ip, (probeLive lz4 .greeted (frames.map ProbeRead.frame ++ ending)).toLiveProbe) = true)) := by
  have hread : ∀ f ∈ frames.takeWhile fun f => decide (ProbeReads f), ProbeReads f := fun f hf =>
    of_decide_eq_true (p := ProbeReads f) (List.mem_takeWhile_imp (p := fun f => decide (ProbeReads f)) hf)
  have hsplit : frames.takeWhile (fun f => decide (ProbeReads f)) ++ hiddenFrames frames = frames :=
    List.takeWhile_append_dropWhile
  generalize frames.takeWhile (fun f => decide (ProbeReads f)) = front at hread hsplit
  obtain ⟨q, hq, hsame⟩ := probeLive_spec lz4 hread (hend.stops frames)
  rw [← List.append_assoc, ← List.map_append, hsplit] at hsame
  have hrounds : frames.filterMap (frameRound lz4) =
      front.filterMap (frameRound lz4) ++ (hiddenFrames frames).filterMap (frameRound lz4) := by
    rw [← List.filterMap_append, hsplit]
  refine ⟨?_, ?_⟩
  · rw [hsame, hq.blocks, hrounds, List.length_append, ← List.length_eq_zero_iff]
    omega
  · intro hnone
    rw [hnone, List.append_nil] at hrounds
    rw [hrounds, hsame]
    exact ⟨hq.top, fun hmany => hq.probedLive hmany ip⟩

/-! ## 3. Where the limits differ -/

/-- The gateway's reader takes any frame of up to `MAX_LIVE_FRAME`. -/
theorem readFrame_frame {f : RawFrame} (hlive : f.header.len ≤ MAX_LIVE_FRAME) {env : Push.FrameEnv}
    (hheader : env.headerTimeout = false) (hpayload : env.payloadTimeout = false) (rest : List UInt8) :
    Push.readFrame env (f.bytes ++ rest) = .ok (f.header.bytes, f.header.typ, f.payload, rest) := by
  obtain ⟨⟨b0, b1, b2, b3, typ⟩, payload, hsized⟩ := f
  have hlen : (Word.ofBe b0 b1 b2 b3).toNat = payload.length := hsized.symm
  have hle : payload.length ≤ MAX_LIVE_FRAME := hsized ▸ hlive
  simp only [RawFrame.bytes, Header.bytes, List.cons_append, List.nil_append, Push.readFrame, hheader,
    hpayload, Bool.false_eq_true, if_false, hlen]
  rw [if_neg (Nat.not_lt.mpr hle), if_neg (by rw [List.length_append]; omega), List.take_left, List.drop_left]

/-- The greeting of a peer that accepts. -/
def greetingFrame : RawFrame := ⟨⟨0, 0, 0, 1, 0⟩, [3], rfl⟩

/-- A block frame of 2,000,001 bytes. -/
def largeFrame : RawFrame := ⟨⟨0, 30, 132, 129, 1⟩, List.replicate 2000001 0, List.length_replicate⟩

/-- A control frame with the byte of the refusal, in the middle of a stream. -/
def refusalFrame : RawFrame := ⟨⟨0, 0, 0, 1, 0⟩, [4], rfl⟩

/-- A block of round 1,000,020,001, as one run of literals. -/
def smallBlock : RawFrame :=
  ⟨⟨0, 0, 0, 29, 1⟩, [23, 0, 0, 0, 0xf0, 8, 0xfc, 0x21, 0x18, 0x9b, 0x3b, 0xfc, 0x20, 0x18, 0x9b, 0x3b, 0xfc,
    0x1f, 0x18, 0x9b, 0x3b, 0, 0, 0, 0, 0, 0, 0, 0], rfl⟩

set_option maxRecDepth 20000 in
theorem frameRound_smallBlock : frameRound decompressSizePrepended smallBlock = some 1000020001 := by
  decide

/-- A stream whose blocks come behind `f`. -/
def streamBehind (f : RawFrame) : List RawFrame := [greetingFrame, f, smallBlock, smallBlock]

theorem two_rounds_behind (f : RawFrame) :
    MIN_LIVE_BLOCKS ≤ ((streamBehind f).filterMap (frameRound decompressSizePrepended)).length := by
  have hgreeting : frameRound decompressSizePrepended greetingFrame = none := rfl
  simp only [streamBehind, List.filterMap_cons, List.filterMap_nil, frameRound_smallBlock, hgreeting]
  split
  · decide
  · exact show 2 ≤ 3 by decide

/-- The gateway's reader takes every frame of the stream behind an accepting greeting, and
    it has the blocks the probe asks for; but the probe sees none and fails the peer. -/
structure HidesBlocks (f : RawFrame) : Prop where
  served : ∀ g ∈ streamBehind f, g.header.len ≤ MAX_LIVE_FRAME ∧ ∀ rest,
    Push.readFrame { netTip := 0, liveFloor := 0 } (g.bytes ++ rest) =
      .ok (g.header.bytes, g.header.typ, g.payload, rest)
  greeted : (streamBehind f).head? = some greetingFrame ∧ peerFullFrame greetingFrame = false
  enough : MIN_LIVE_BLOCKS ≤ ((streamBehind f).filterMap (frameRound decompressSizePrepended)).length
  unseen : (probeLive decompressSizePrepended .greeted ((streamBehind f).map ProbeRead.frame)).blocks = 0
  failed : probedLive ("192.0.2.7",
    (probeLive decompressSizePrepended .greeted ((streamBehind f).map ProbeRead.frame)).toLiveProbe) = false

/-- So does every frame the gateway reads and the probe stops at. -/
theorem hidesBlocks_of_stop {f : RawFrame} (hf : f.header.len ≤ MAX_LIVE_FRAME)
    (hstop : MAX_PROBE_FRAME < f.header.len ∨ peerFullFrame f = true) : HidesBlocks f := by
  have hlive : ∀ g ∈ streamBehind f, g.header.len ≤ MAX_LIVE_FRAME := by
    intro g hg
    simp only [streamBehind, List.mem_cons, List.not_mem_nil, or_false] at hg
    rcases hg with rfl | rfl | rfl | rfl
    · decide
    · exact hf
    · decide
    · decide
  have hnone : (probeLive decompressSizePrepended .greeted ((streamBehind f).map ProbeRead.frame)).toLiveProbe =
      ⟨0, none⟩ := by
    have hread : ∀ g ∈ [greetingFrame], ProbeReads g := by decide
    have hrest : Stops ([f, smallBlock, smallBlock].map ProbeRead.frame) := by
      rintro g rest heq ⟨hsmall, hfull⟩
      obtain rfl := ProbeRead.frame.inj (List.cons.inj heq).1
      rcases hstop with hlarge | hstop
      · exact Nat.not_lt.mpr hsmall hlarge
      · rw [hfull] at hstop
        cases hstop
    obtain ⟨q, ⟨hblocks, htop⟩, hsame⟩ := probeLive_spec decompressSizePrepended hread hrest
    refine hsame.trans ?_
    rcases q with ⟨⟨blocks, _ | top⟩, status⟩
    · exact congrArg (LiveProbe.mk · none) hblocks
    · exact absurd htop.1 List.not_mem_nil
  refine ⟨fun g hg => ⟨hlive g hg, readFrame_frame (hlive g hg) rfl rfl⟩, ⟨rfl, rfl⟩, two_rounds_behind f, ?_, ?_⟩
  · rw [hnone]
  · rw [hnone]
    rfl

/-- **Blocks the probe never sees**: behind a large frame, and behind a control frame that would
    be a refusal if it were the greeting. -/
theorem large_frame_hides_blocks : HidesBlocks largeFrame ∧ HidesBlocks refusalFrame :=
  ⟨hidesBlocks_of_stop (by decide) (Or.inl (by decide)), hidesBlocks_of_stop (by decide) (Or.inr (by decide))⟩

/-- Two small blocks behind the greeting, then a frame that stops the probe and no block behind
    it: the peer passes. -/
theorem probeLive_reads_small :
    Ends [ProbeRead.headerTimeout] ∧
      hiddenFrames [greetingFrame, smallBlock, smallBlock, refusalFrame, greetingFrame] = [refusalFrame, greetingFrame] ∧
      probedLive ("192.0.2.7", (probeLive decompressSizePrepended .greeted
        ([greetingFrame, smallBlock, smallBlock, refusalFrame, greetingFrame].map ProbeRead.frame ++
          [.headerTimeout])).toLiveProbe) = true := by
  have hend : Ends [ProbeRead.headerTimeout] := by
    intro f reads h
    cases h
  have hgreeting : frameRound decompressSizePrepended greetingFrame = none := rfl
  have hrefusal : frameRound decompressSizePrepended refusalFrame = none := rfl
  refine ⟨hend, rfl, ((probeLive_reads_frames decompressSizePrepended _ _ hend "192.0.2.7").2 rfl).2 ?_⟩
  simp only [List.filterMap_cons, List.filterMap_nil, frameRound_smallBlock, hgreeting, hrefusal]
  decide

end Hypersync.Peerd
