import Hypersync.Gateway.BootstrapCache
import Hypersync.Protocol.FrameCount
import Hypersync.Protocol.FrameRounds

/-!
# What is captured is what was relayed, and it can be loaded

While the tap captures, its blob is exactly what the node has been sent, and that is
a sequence of whole frames followed by a part of the frame at hand.  The part is
empty wherever a blob is installed.  The same holds of `fetch_bootstrap` and what it
has read; the checks of the loader are then met by every blob that was installed.
-/

namespace Hypersync.Gateway

open Protocol

/-- A blob that is all that was relayed, ends on a frame boundary and is a complete
    bootstrap. -/
structure Installed.Whole (i : Installed) : Prop where
  relayed : i.blob = i.relayed
  counted : completeFrameCount i.blob = some i.frames
  complete : completeBootstrapAtFrameBoundary i.blob.length i.frames = true

namespace Tap

/-! ## 1. The invariant of the tap -/

/-- In the middle of the loop: `pend` has been read and not yet written, and the node has been
    sent whole frames and `tail`. -/
structure Mid (whole pend tail : List UInt8) (s : Tap) : Prop where
  stream : s.node ++ (pend ++ s.rest) = whole
  framed : ∃ fs, s.node = concat fs ++ tail ∧ fs.length = s.frames
  captured : s.capture = true → s.blob = s.node
  installs : ∀ i ∈ s.installs, i.Whole

/-- The bytes of the first header, while they wait. -/
def firstBytes : Option (Header × List UInt8) → List UInt8
  | some (h, pre) => h.bytes ++ pre
  | none => []

/-- The payload of the frame at hand is at the node but for `remaining` bytes. -/
def InPayload (whole pend : List UInt8) (h : Header) (remaining : Nat) (s : Tap) : Prop :=
  ∃ part, part.length + remaining = h.len ∧ h.len ≤ MAX_COUNTED_FRAME ∧ s.Mid whole pend (h.bytes ++ part)

def PcInv (whole : List UInt8) (s : Tap) : Prop :=
  match s.pc with
  | .top => s.Mid whole (firstBytes s.first) []
  | .header got | .finishHeader got => got.length < 5 ∧ s.Mid whole got []
  | .headerOrTimeout got => got.length < 5 ∧ s.complete = true ∧ s.Mid whole got []
  | .writeHeader h pre => h.len ≤ MAX_COUNTED_FRAME ∧ s.Mid whole (h.bytes ++ pre) []
  | .writePayloadPrefix h pre =>
    pre.length ≤ h.len ∧ h.len ≤ MAX_COUNTED_FRAME ∧ s.Mid whole pre h.bytes
  | .chunkTop h remaining | .readChunk h remaining => s.InPayload whole [] h remaining
  | .writeChunk h remaining chunk => chunk.length ≤ remaining ∧ s.InPayload whole chunk h remaining
  | .frameDone h => s.InPayload whole [] h 0
  | .ended => s.node <+: whole ∧ ∀ i ∈ s.installs, i.Whole

/-- The first header waits only at the first turn. -/
def Inv (whole : List UInt8) (s : Tap) : Prop := (s.pc = .top ∨ s.first = none) ∧ s.PcInv whole

variable {whole pend tail : List UInt8} {s s' : Tap}

theorem Mid.prefix_whole (h : s.Mid whole pend tail) : s.node <+: whole :=
  ⟨_, h.stream⟩

theorem Mid.dropCapture (h : s.Mid whole pend tail) : s.dropCapture.Mid whole pend tail :=
  { h with captured := nofun }

theorem Mid.dropSlowCapture (h : s.Mid whole pend tail) (now : Nat) :
    (s.dropSlowCapture now).Mid whole pend tail := by
  unfold Tap.dropSlowCapture
  split
  · exact { h with captured := nofun }
  · exact h

theorem first_dropSlowCapture (s : Tap) (now : Nat) : (s.dropSlowCapture now).first = s.first := by
  unfold Tap.dropSlowCapture
  split <;> rfl

/-- A write moves what was pending behind what the node has. -/
theorem Mid.relay {bytes : List UInt8} (h : s.Mid whole (bytes ++ pend) tail) :
    (s.relay bytes).Mid whole pend (tail ++ bytes) := by
  refine ⟨?_, ?_, ?_, h.installs⟩
  · rw [← h.stream]
    simp only [Tap.relay, List.append_assoc]
  · obtain ⟨fs, hnode, hlen⟩ := h.framed
    refine ⟨fs, ?_, hlen⟩
    simp only [Tap.relay, hnode, List.append_assoc]
  · intro hcapture
    have hcapture : s.capture = true := hcapture
    simp only [Tap.relay, hcapture, if_true, h.captured hcapture]

theorem Mid.relayFailed {bytes : List UInt8} (h : s.Mid whole (bytes ++ pend) tail) (n : Nat)
    (hfirst : s.first = none) : (s.relayFailed bytes n).Inv whole := by
  refine ⟨Or.inr hfirst, ?_, h.installs⟩
  refine ⟨bytes.drop n ++ (pend ++ s.rest), ?_⟩
  rw [← h.stream]
  simp only [Tap.relayFailed, stop, List.append_assoc, ← List.append_assoc (bytes.take n),
    List.take_append_drop]

theorem Mid.stop (h : s.Mid whole pend tail) (hfirst : s.first = none) : s.upstreamGone.Inv whole :=
  ⟨Or.inr hfirst, h.prefix_whole, h.installs⟩

/-- What the tap installs on a frame boundary is whole. -/
theorem Mid.installed (h : s.Mid whole pend []) (hcapture : s.capture = true)
    (hcomplete : completeBootstrapAtFrameBoundary s.blob.length s.frames = true) :
    Installed.Whole ⟨s.blob, s.frames, s.node⟩ := by
  refine ⟨h.captured hcapture, ?_, hcomplete⟩
  obtain ⟨fs, hnode, hlen⟩ := h.framed
  rw [List.append_nil] at hnode
  rw [completeFrameCount_eq_some]
  exact ⟨fs, (h.captured hcapture).trans hnode, hlen.symm⟩

theorem Mid.install (h : s.Mid whole pend []) (hcapture : s.capture = true)
    (hcomplete : completeBootstrapAtFrameBoundary s.blob.length s.frames = true) :
    ∀ i ∈ s.install.installs, i.Whole := by
  intro i hi
  rcases List.mem_append.mp hi with hi | hi
  · exact h.installs i hi
  · rw [List.mem_singleton.mp hi]
    exact h.installed hcapture hcomplete

theorem complete_iff : s.complete = true ↔
    s.capture = true ∧ completeBootstrapAtFrameBoundary s.blob.length s.frames = true := by
  rw [complete, Bool.and_eq_true]

/-! ## 2. One step of the tap -/

theorem Mid.onHeader {h : Header} {pre : List UInt8} (hm : s.Mid whole (h.bytes ++ pre) [])
    (hfirst : s.first = none) : (s.onHeader h pre).Inv whole := by
  unfold Tap.onHeader
  split
  · exact hm.stop hfirst
  · rename_i hlen
    refine ⟨Or.inr ?_, Nat.not_lt.mp hlen, ?_⟩
    · simp only []
      split
      · exact hfirst
      · exact hfirst
    · simp only []
      split
      · exact { hm with captured := nofun }
      · exact { hm with }

theorem InPayload.payloadLoop {h : Header} {remaining : Nat} (hp : s.InPayload whole [] h remaining)
    (hfirst : s.first = none) : (s.payloadLoop h remaining).Inv whole := by
  obtain ⟨part, hpart, hlen, hm⟩ := hp
  refine ⟨Or.inr hfirst, ?_⟩
  unfold Tap.payloadLoop PcInv
  by_cases hzero : remaining = 0
  · subst hzero
    simp only [if_true]
    exact ⟨part, hpart, hlen, hm.stream, hm.framed, hm.captured, hm.installs⟩
  · simp only [if_neg hzero]
    exact ⟨part, hpart, hlen, hm.stream, hm.framed, hm.captured, hm.installs⟩

/-- A piece of the payload was written. -/
theorem InPayload.relay {h : Header} {remaining : Nat} {chunk : List UInt8}
    (hp : s.InPayload whole chunk h remaining) (hchunk : chunk.length ≤ remaining) :
    (s.relay chunk).InPayload whole [] h (remaining - chunk.length) := by
  obtain ⟨part, hpart, hlen, hm⟩ := hp
  refine ⟨part ++ chunk, ?_, hlen, ?_⟩
  · rw [List.length_append]
    omega
  · rw [← List.append_assoc]
    exact Mid.relay (by rwa [List.append_nil])

theorem Mid.onHeaderWritten {h : Header} {pre : List UInt8} (hm : s.Mid whole pre h.bytes)
    (hlen : h.len ≤ MAX_COUNTED_FRAME) (hfirst : s.first = none) : (s.onHeaderWritten h pre).Inv whole := by
  unfold Tap.onHeaderWritten
  split
  · rename_i hpre
    subst hpre
    apply InPayload.payloadLoop _ hfirst
    exact ⟨[], Nat.zero_add _, hlen, by rwa [List.append_nil]⟩
  · split
    · exact hm.stop hfirst
    · rename_i hlong
      exact ⟨Or.inr hfirst, Nat.not_lt.mp hlong, hlen, hm.stream, hm.framed, hm.captured, hm.installs⟩

theorem Mid.onTop (hm : s.Mid whole (firstBytes s.first) []) (now : Nat) : (s.onTop now).Inv whole := by
  have hslow := hm.dropSlowCapture now
  rw [← first_dropSlowCapture s now] at hslow
  unfold Tap.onTop
  generalize s.dropSlowCapture now = u at hslow
  -- the permit plays no part
  have hpermit : ∃ v : Tap, (if u.capture = true then u else { u with capturePermit := false }) = v ∧
      v.first = u.first ∧ v.Mid whole (firstBytes v.first) [] := by
    refine ⟨_, rfl, ?_, ?_⟩
    · split <;> rfl
    · split
      · exact hslow
      · exact { hslow with }
  obtain ⟨v, hv, -, hmv⟩ := hpermit
  simp only [hv]
  rcases hfirst : v.first with _ | ⟨h, pre⟩
  · rw [hfirst] at hmv
    by_cases hcomplete : v.complete = true
    · simp only [hcomplete, if_true]
      exact ⟨Or.inr rfl, Nat.zero_lt_succ _, hcomplete, hmv.stream, hmv.framed, hmv.captured, hmv.installs⟩
    · simp only [if_neg hcomplete]
      exact ⟨Or.inr rfl, Nat.zero_lt_succ _, hmv.stream, hmv.framed, hmv.captured, hmv.installs⟩
  · rw [hfirst] at hmv
    apply Mid.onHeader _ rfl
    exact { hmv with }

/-- A read takes bytes off the front of what is to come. -/
theorem read?_eq_some {n room : Nat} {bytes : List UInt8} (h : s.read? n room = some (bytes, s')) :
    bytes.length ≤ room ∧ s.rest = bytes ++ s'.rest ∧ s' = { s with rest := s'.rest } := by
  unfold read? at h
  split at h
  · rename_i hn
    obtain ⟨rfl, rfl⟩ := Prod.mk.inj (Option.some.inj h)
    refine ⟨?_, (List.take_append_drop n s.rest).symm, rfl⟩
    rw [List.length_take]
    omega
  · cases h

theorem Mid.read {n room : Nat} {bytes : List UInt8} (hm : s.Mid whole pend tail)
    (h : s.read? n room = some (bytes, s')) : s'.Mid whole (pend ++ bytes) tail := by
  obtain ⟨-, hrest, hs'⟩ := read?_eq_some h
  rw [hs']
  refine { hm with stream := ?_ }
  rw [← hm.stream, hrest]
  simp only [List.append_assoc]

/-- More bytes of a header: it is complete, or fewer than five are there. -/
theorem Mid.readHeader {pc : List UInt8 → TapPc} {got : List UInt8} {n : Nat} (hm : s.Mid whole got [])
    (hgot : got.length < 5) (hfirst : s.first = none)
    (h : s.readHeader pc got n = some s')
    (hpc : ∀ (u : Tap) (more : List UInt8), u.complete = s.complete → more.length < 5 → u.Mid whole more [] →
      { u with pc := pc more }.PcInv whole) : s'.Inv whole := by
  obtain ⟨⟨bytes, u⟩, hread, rfl⟩ := Option.map_eq_some_iff.mp h
  have hmu := hm.read hread
  obtain ⟨hroom, -, hu⟩ := read?_eq_some hread
  have hufirst : u.first = none := by
    rw [hu]
    exact hfirst
  simp only []
  split
  · rename_i hd hof
    apply Mid.onHeader _ hufirst
    rw [List.append_nil, Header.bytes_of_ofBytes hof]
    exact hmu
  · rename_i hof
    refine ⟨Or.inr hufirst, hpc u _ ?_ ?_ hmu⟩
    · rw [hu]
      rfl
    · -- five bytes would have been a header
      have hne := Header.length_ne_of_ofBytes hof
      rw [List.length_append] at hne ⊢
      omega

theorem InPayload.onFrameDone {h : Header} (slower : Nat → Nat → Nat → Bool) (elapsedAt restartAt : Nat)
    (hp : s.InPayload whole [] h 0) (hfirst : s.first = none) :
    (s.onFrameDone slower h elapsedAt restartAt).Inv whole := by
  obtain ⟨part, hpart, hlen, hm⟩ := hp
  -- the frame at hand is whole now
  have hnext : { s with frames := s.frames + 1, pc := .top }.Mid whole [] [] := by
    refine { hm with framed := ?_ }
    obtain ⟨fs, hnode, hfs⟩ := hm.framed
    refine ⟨fs ++ [⟨h, part, by omega, hlen⟩], ?_, ?_⟩
    · rw [List.append_nil, concat_snoc]
      exact hnode
    · rw [List.length_append, List.length_singleton, hfs]
  have htop : ∀ u : Tap, u.pc = .top → u.first = none → u.Mid whole [] [] → u.Inv whole := by
    intro u hpc hfirst hu
    refine ⟨Or.inl hpc, ?_⟩
    unfold PcInv
    rw [hpc, hfirst]
    exact hu
  unfold Tap.onFrameDone
  simp only []
  split
  · rename_i hcapture
    split
    · exact htop _ rfl hfirst hnext.dropCapture
    split
    · split
      · split
        · rename_i hcomplete
          refine htop _ rfl hfirst ⟨hnext.stream, hnext.framed, nofun, ?_⟩
          exact hnext.install hcapture hcomplete.2
        · exact htop _ rfl hfirst { hnext with }
      · exact htop _ rfl hfirst { hnext with }
    · exact htop _ rfl hfirst { hnext with }
  · exact htop _ rfl hfirst hnext

variable {slower : Nat → Nat → Nat → Bool} {e : TapEvent}

/-- A failed read at a frame's header ends the session, with the capture if it is complete. -/
theorem Mid.endOfStream (hm : s.Mid whole pend []) (hfirst : s.first = none) :
    (if s.complete then s.install.upstreamGone else s.upstreamGone).Inv whole := by
  split
  · rename_i hcomplete
    obtain ⟨hcapture, hcomplete⟩ := complete_iff.mp hcomplete
    exact ⟨Or.inr hfirst, hm.prefix_whole, hm.install hcapture hcomplete⟩
  · exact hm.stop hfirst

theorem Inv.step (h : s.Inv whole) (hstep : s.step slower e = some s') : s'.Inv whole := by
  obtain ⟨hfirst, hpc⟩ := h
  have hnone : ∀ {pc}, s.pc = pc → pc ≠ .top → s.first = none := fun hs hne =>
    hfirst.resolve_left (hs ▸ hne)
  unfold PcInv at hpc
  unfold Tap.step at hstep
  -- one case for each transition of the tap
  split at hstep
  · next t hs =>
    simp only [hs] at hpc
    cases hstep
    exact hpc.onTop t
  · next got n hs =>
    simp only [hs] at hpc
    refine hpc.2.readHeader hpc.1 (hnone hs nofun) hstep ?_
    intro u more _ hmore hu
    exact ⟨hmore, hu.stream, hu.framed, hu.captured, hu.installs⟩
  · next got hs =>
    simp only [hs] at hpc
    cases hstep
    exact hpc.2.endOfStream (hnone hs nofun)
  · next got hs =>
    simp only [hs] at hpc
    cases hstep
    exact hpc.2.endOfStream (hnone hs nofun)
  · next got n hs =>
    simp only [hs] at hpc
    obtain ⟨hgot, hcomplete, hm⟩ := hpc
    refine hm.readHeader hgot (hnone hs nofun) hstep ?_
    intro u more hu' hmore hu
    exact ⟨hmore, hu'.trans hcomplete, hu.stream, hu.framed, hu.captured, hu.installs⟩
  · next got hs =>
    simp only [hs] at hpc
    obtain ⟨hgot, hcomplete, hm⟩ := hpc
    have hinstall := hm.install (complete_iff.mp hcomplete).1 (complete_iff.mp hcomplete).2
    cases hstep
    exact ⟨Or.inr (hnone hs nofun), hgot, hm.stream, hm.framed, nofun, hinstall⟩
  · next got hs =>
    simp only [hs] at hpc
    obtain ⟨-, hcomplete, hm⟩ := hpc
    have hinstall := hm.install (complete_iff.mp hcomplete).1 (complete_iff.mp hcomplete).2
    cases hstep
    exact ⟨Or.inr (hnone hs nofun), hm.prefix_whole, hinstall⟩
  · next got n hs =>
    simp only [hs] at hpc
    refine hpc.2.readHeader hpc.1 (hnone hs nofun) hstep ?_
    intro u more _ hmore hu
    exact ⟨hmore, hu.stream, hu.framed, hu.captured, hu.installs⟩
  · next got hs =>
    simp only [hs] at hpc
    cases hstep
    exact hpc.2.stop (hnone hs nofun)
  · next got hs =>
    simp only [hs] at hpc
    cases hstep
    exact hpc.2.stop (hnone hs nofun)
  · next hd pre hs =>
    simp only [hs] at hpc
    cases hstep
    exact hpc.2.relay.onHeaderWritten hpc.1 (hnone hs nofun)
  · next hd pre n hs =>
    simp only [hs] at hpc
    cases hstep
    exact hpc.2.relayFailed n (hnone hs nofun)
  · next hd pre hs =>
    simp only [hs] at hpc
    obtain ⟨hle, hlen, hm⟩ := hpc
    rw [← List.append_nil pre] at hm
    cases hstep
    exact InPayload.payloadLoop ⟨pre, by omega, hlen, hm.relay⟩ (hnone hs nofun)
  · next hd pre n hs =>
    simp only [hs] at hpc
    obtain ⟨-, -, hm⟩ := hpc
    rw [← List.append_nil pre] at hm
    cases hstep
    exact hm.relayFailed n (hnone hs nofun)
  · next hd remaining t hs =>
    simp only [hs] at hpc
    obtain ⟨part, hpart, hlen, hm⟩ := hpc
    cases hstep
    have hslow := hm.dropSlowCapture t
    refine ⟨Or.inr ((first_dropSlowCapture s t).trans (hnone hs nofun)), part, hpart, hlen, ?_⟩
    exact { hslow with }
  · next hd remaining n hs =>
    simp only [hs] at hpc
    obtain ⟨part, hpart, hlen, hm⟩ := hpc
    obtain ⟨⟨bytes, u⟩, hread, rfl⟩ := Option.map_eq_some_iff.mp hstep
    have hmu := hm.read hread
    obtain ⟨hroom, -, hu⟩ := read?_eq_some hread
    have hufirst : u.first = none := by
      rw [hu]
      exact hnone hs nofun
    refine ⟨Or.inr hufirst, hroom.trans (Nat.min_le_left _ _), part, hpart, hlen, ?_⟩
    exact { hmu with }
  · next hd remaining hs =>
    simp only [hs] at hpc
    obtain ⟨part, -, -, hm⟩ := hpc
    cases hstep
    exact hm.stop (hnone hs nofun)
  · next hd remaining hs =>
    simp only [hs] at hpc
    obtain ⟨part, -, -, hm⟩ := hpc
    cases hstep
    exact hm.stop (hnone hs nofun)
  · next hd remaining chunk hs =>
    simp only [hs] at hpc
    cases hstep
    exact (hpc.2.relay hpc.1).payloadLoop (hnone hs nofun)
  · next hd remaining chunk n hs =>
    simp only [hs] at hpc
    obtain ⟨-, part, -, -, hm⟩ := hpc
    rw [← List.append_nil chunk] at hm
    cases hstep
    exact hm.relayFailed n (hnone hs nofun)
  · next hd elapsedAt restartAt hs =>
    simp only [hs] at hpc
    cases hstep
    exact hpc.onFrameDone slower elapsedAt restartAt (hnone hs nofun)
  · cases hstep

theorem inv_start (firstHdr : Header) (pre upstream : List UInt8) (at_ : Nat) :
    (start firstHdr pre upstream at_).Inv (firstHdr.bytes ++ pre ++ upstream) :=
  ⟨Or.inl rfl, rfl, ⟨[], rfl, rfl⟩, fun _ => rfl, nofun⟩

/-- At any time the node has been sent a front of the stream. -/
theorem Inv.relayed (h : s.Inv whole) : s.node <+: whole ∧ ∀ i ∈ s.installs, i.Whole := by
  obtain ⟨-, hpc⟩ := h
  unfold PcInv at hpc
  cases hs : s.pc with
  | top =>
    rw [hs] at hpc
    exact ⟨hpc.prefix_whole, hpc.installs⟩
  | header got | finishHeader got | writeHeader hd pre =>
    rw [hs] at hpc
    exact ⟨hpc.2.prefix_whole, hpc.2.installs⟩
  | headerOrTimeout got | writePayloadPrefix hd pre =>
    rw [hs] at hpc
    exact ⟨hpc.2.2.prefix_whole, hpc.2.2.installs⟩
  | chunkTop hd remaining | readChunk hd remaining | frameDone hd =>
    rw [hs] at hpc
    obtain ⟨part, -, -, hm⟩ := hpc
    exact ⟨hm.prefix_whole, hm.installs⟩
  | writeChunk hd remaining chunk =>
    rw [hs] at hpc
    obtain ⟨-, part, -, -, hm⟩ := hpc
    exact ⟨hm.prefix_whole, hm.installs⟩
  | ended =>
    rw [hs] at hpc
    exact hpc

end Tap

/-! ## 3. The fetch -/

namespace Fetch

/-- Whole frames are in the blob, `pend` has been read behind them. -/
structure Mid (upstream pend : List UInt8) (s : Fetch) : Prop where
  stream : s.blob ++ (pend ++ s.rest) = upstream
  framed : ∃ fs, s.blob = concat fs ∧ fs.length = s.frames

def Inv (upstream : List UInt8) (s : Fetch) : Prop :=
  match s.pc with
  | .connect | .greet => s.Mid upstream []
  | .header got => got.length < 5 ∧ s.Mid upstream got
  | .payload h got _ => got.length < h.len ∧ h.len ≤ MAX_COUNTED_FRAME ∧ s.Mid upstream (h.bytes ++ got)
  | .frameDone h payload =>
    payload.length = h.len ∧ h.len ≤ MAX_COUNTED_FRAME ∧ s.Mid upstream (h.bytes ++ payload)
  | .returned (.ok blob) =>
    blob = s.blob ∧ completeBootstrapAtFrameBoundary s.blob.length s.frames = true ∧
      ∃ got, got.length < 5 ∧ s.Mid upstream got
  | .returned (.error _) => True

variable {upstream pend : List UInt8} {s s' : Fetch} {slower : Nat → Nat → Nat → Bool}

theorem Mid.ok_or {got : List UInt8} (hm : s.Mid upstream got) (hgot : got.length < 5) (reason : FetchReason) :
    (if completeBootstrapAtFrameBoundary s.blob.length s.frames then s.ok else s.err reason).Inv upstream := by
  split
  · rename_i hcomplete
    exact ⟨rfl, hcomplete, got, hgot, hm.stream, hm.framed⟩
  · trivial

theorem read?_eq_some {n room : Nat} {bytes : List UInt8} (h : s.read? n room = some (bytes, s')) :
    0 < bytes.length ∧ bytes.length ≤ room ∧ s.rest = bytes ++ s'.rest ∧ s' = { s with rest := s'.rest } := by
  unfold read? at h
  split at h
  · rename_i hn
    obtain ⟨rfl, rfl⟩ := Prod.mk.inj (Option.some.inj h)
    refine ⟨?_, ?_, (List.take_append_drop n s.rest).symm, rfl⟩
    · rw [List.length_take]
      omega
    · rw [List.length_take]
      omega
  · cases h

theorem Mid.read {n room : Nat} {bytes : List UInt8} (hm : s.Mid upstream pend)
    (h : s.read? n room = some (bytes, s')) : s'.Mid upstream (pend ++ bytes) := by
  obtain ⟨-, -, hrest, hs'⟩ := read?_eq_some h
  rw [hs']
  refine ⟨?_, hm.framed⟩
  rw [← hm.stream, hrest]
  simp only [List.append_assoc]

theorem Mid.onHeader {h : Header} (hm : s.Mid upstream h.bytes) (now : Nat) : (s.onHeader h now).Inv upstream := by
  unfold Fetch.onHeader
  split
  · trivial
  simp only []
  split
  · trivial
  rename_i hlen
  split
  · trivial
  by_cases hzero : h.len = 0
  · simp only [hzero, if_true]
    exact ⟨hzero.symm, Nat.not_lt.mp hlen, hm.stream, hm.framed⟩
  · simp only [if_neg hzero]
    exact ⟨Nat.pos_of_ne_zero hzero, Nat.not_lt.mp hlen, hm.stream, hm.framed⟩

theorem Mid.onPayload {h : Header} {got : List UInt8} (hm : s.Mid upstream (h.bytes ++ got))
    (hgot : got.length ≤ h.len) (hlen : h.len ≤ MAX_COUNTED_FRAME) (since now : Nat) :
    (s.onPayload slower h got since now).Inv upstream := by
  unfold Fetch.onPayload
  split
  · trivial
  by_cases hfull : got.length = h.len
  · simp only [if_pos hfull]
    exact ⟨hfull, hlen, hm.stream, hm.framed⟩
  · simp only [if_neg hfull]
    exact ⟨Nat.lt_of_le_of_ne hgot hfull, hlen, hm.stream, hm.framed⟩

theorem Mid.onWindow (hm : s.Mid upstream []) (elapsedAt restartAt : Nat) :
    (s.onWindow slower elapsedAt restartAt).Inv upstream := by
  have hfive : ([] : List UInt8).length < 5 := Nat.zero_lt_succ _
  unfold Fetch.onWindow
  simp only []
  split
  · split
    · split
      · have hslow : { s with slow := s.slow + 1 }.Mid upstream [] := ⟨hm.stream, hm.framed⟩
        exact hslow.ok_or hfive _
      · exact ⟨hfive, hm.stream, hm.framed⟩
    · exact ⟨hfive, hm.stream, hm.framed⟩
  · exact ⟨hfive, hm.stream, hm.framed⟩

theorem Mid.onFrameDone {h : Header} {payload : List UInt8} (hm : s.Mid upstream (h.bytes ++ payload))
    (hsized : payload.length = h.len) (hlen : h.len ≤ MAX_COUNTED_FRAME) (sinceStart elapsedAt restartAt : Nat) :
    (s.onFrameDone slower h payload sinceStart elapsedAt restartAt).Inv upstream := by
  have hnext : { s with blob := s.blob ++ (h.bytes ++ payload), frames := s.frames + 1 }.Mid upstream [] := by
    obtain ⟨fs, hblob, hfs⟩ := hm.framed
    refine ⟨?_, fs ++ [⟨h, payload, hsized, hlen⟩], ?_, ?_⟩
    · rw [← hm.stream]
      simp only [List.append_assoc, List.nil_append]
    · rw [concat_snoc, ← hblob]
      rfl
    · rw [List.length_append, List.length_singleton, hfs]
  unfold Fetch.onFrameDone
  simp only []
  split
  · trivial
  split
  · trivial
  · apply Mid.onWindow
    exact ⟨hnext.stream, hnext.framed⟩

theorem Inv.step {e : FetchEvent} (h : s.Inv upstream) (hstep : s.step slower e = some s') :
    s'.Inv upstream := by
  unfold Inv at h
  unfold Fetch.step at hstep
  -- one case for each transition of the fetch
  split at hstep
  · next now hs =>
    simp only [hs] at h
    cases hstep
    exact ⟨h.stream, h.framed⟩
  · cases hstep
    trivial
  · next now hs =>
    simp only [hs] at h
    cases hstep
    exact ⟨Nat.zero_lt_succ _, h.stream, h.framed⟩
  · cases hstep
    trivial
  · next got n now hs =>
    simp only [hs] at h
    obtain ⟨hgot, hm⟩ := h
    obtain ⟨⟨bytes, u⟩, hread, rfl⟩ := Option.map_eq_some_iff.mp hstep
    have hmu := hm.read hread
    obtain ⟨-, hroom, -, -⟩ := read?_eq_some hread
    simp only []
    split
    · rename_i hd hof
      rw [← Header.bytes_of_ofBytes hof] at hmu
      exact hmu.onHeader now
    · rename_i hof
      refine ⟨?_, hmu.stream, hmu.framed⟩
      have hne := Header.length_ne_of_ofBytes hof
      rw [List.length_append] at hne ⊢
      omega
  · next got hs =>
    simp only [hs] at h
    cases hstep
    exact h.2.ok_or h.1 _
  · next got hs =>
    simp only [hs] at h
    cases hstep
    exact h.2.ok_or h.1 _
  · next hd got since n now hs =>
    simp only [hs] at h
    obtain ⟨hgot, hlen, hm⟩ := h
    obtain ⟨⟨bytes, u⟩, hread, rfl⟩ := Option.map_eq_some_iff.mp hstep
    have hmu := hm.read hread
    obtain ⟨-, hroom, -, -⟩ := read?_eq_some hread
    rw [List.append_assoc] at hmu
    apply hmu.onPayload _ hlen
    rw [List.length_append]
    omega
  · cases hstep
    trivial
  · cases hstep
    trivial
  · next hd payload sinceStart elapsedAt restartAt hs =>
    simp only [hs] at h
    obtain ⟨hsized, hlen, hm⟩ := h
    cases hstep
    exact hm.onFrameDone hsized hlen sinceStart elapsedAt restartAt
  · cases hstep

end Fetch

/-! ## 4. Loading -/

section

variable (lz4 : Lz4.Decoder)

/-- Once the blob is installed and what is to be persisted has been written, the loader returns the
    blob itself, as long as the file is fresh. -/
def Loadable (blob : List UInt8) : Prop :=
  ∀ (installedAt : Nat) (sink sink' : CacheSink) (path : String) (bytes : List UInt8),
    installBootstrapCache lz4 blob installedAt sink = (sink', some (path, bytes)) →
    ∀ (tmp : String) (modified : Option Nat) (fault : Option PersistFault) (disk disk' : KeyMap String CacheFile),
      persistBootstrapCache path tmp bytes modified fault disk = (.ok (), disk') →
      ∀ now, isBootstrapCacheFresh now (modified.getD 0) = true →
        loadBootstrapCache lz4 path now disk' = .ok (some (blob, modified.getD 0))

/-- Once persisted, the blob is loaded again as long as it is fresh. -/
def Reloads (blob : List UInt8) : Prop :=
  ∀ (path tmp : String) (modified : Option Nat) (fault : Option PersistFault) (disk disk' : KeyMap String CacheFile),
    persistBootstrapCache path tmp blob modified fault disk = (.ok (), disk') →
    ∀ now, isBootstrapCacheFresh now (modified.getD 0) = true →
      loadBootstrapCache lz4 path now disk' = .ok (some (blob, modified.getD 0))

/-- What the loader asks of a file. -/
structure CacheFile.Accepted (file : CacheFile) (now : Nat) : Prop where
  fresh : isBootstrapCacheFresh now (file.modified.getD 0) = true
  complete : ∃ frames, completeFrameCount file.bytes = some frames ∧
    completeBootstrapAtFrameBoundary file.bytes.length frames = true
  liveTail : hasLiveTail lz4 file.bytes = true

theorem min_le_of_complete {bytes frames : Nat} (h : completeBootstrapAtFrameBoundary bytes frames = true) :
    MIN_COMPLETE_BOOTSTRAP_BYTES ≤ bytes ∧ MIN_COMPLETE_BOOTSTRAP_FRAMES ≤ frames := of_decide_eq_true h

theorem loadBootstrapCache_eq_ok_iff {path : String} {now : Nat} {disk : KeyMap String CacheFile} {blob : List UInt8}
    {cachedAt : Nat} :
    loadBootstrapCache lz4 path now disk = .ok (some (blob, cachedAt)) ↔
      ∃ file, disk.lookup path = some file ∧ file.Accepted lz4 now ∧ blob = file.bytes ∧
        cachedAt = file.modified.getD 0 := by
  unfold loadBootstrapCache
  constructor
  · intro h
    split at h
    · cases h
    next file hfile =>
    dsimp only at h
    split at h
    · cases h
    next hfresh =>
    split at h
    · cases h
    split at h
    · cases h
    next frames hcount =>
    split at h
    · cases h
    next hcomplete =>
    split at h
    · cases h
    next htail =>
    cases h
    rw [not_not] at hfresh hcomplete htail
    exact ⟨file, hfile, ⟨hfresh, ⟨frames, hcount, hcomplete⟩, htail⟩, rfl, rfl⟩
  · rintro ⟨file, hfile, ⟨hfresh, ⟨frames, hcount, hcomplete⟩, htail⟩, rfl, rfl⟩
    have hbytes : ¬ file.bytes.length < MIN_COMPLETE_BOOTSTRAP_BYTES :=
      Nat.not_lt.mpr (min_le_of_complete hcomplete).1
    simp only [hfile, hfresh, hbytes, hcount, hcomplete, htail, not_true_eq_false, if_false]

theorem persistBootstrapCache_eq_ok {path tmp : String} {bytes : List UInt8} {modified : Option Nat}
    {fault : Option PersistFault} {disk disk' : KeyMap String CacheFile}
    (h : persistBootstrapCache path tmp bytes modified fault disk = (.ok (), disk')) :
    disk'.lookup path = some ⟨bytes, modified⟩ := by
  rcases fault with _ | _ | _ | n | _
  · obtain ⟨-, rfl⟩ := Prod.mk.inj h
    exact AList.lookup_insert _
  · cases (Prod.mk.inj h).1
  · cases (Prod.mk.inj h).1
  · cases (Prod.mk.inj h).1
  · cases (Prod.mk.inj h).1

theorem reloads_of_complete {blob : List UInt8} {frames : Nat} (hcount : completeFrameCount blob = some frames)
    (hcomplete : completeBootstrapAtFrameBoundary blob.length frames = true) (htail : hasLiveTail lz4 blob = true) :
    Reloads lz4 blob := by
  intro path tmp modified fault disk disk' hpersist now hfresh
  rw [loadBootstrapCache_eq_ok_iff]
  exact ⟨_, persistBootstrapCache_eq_ok hpersist, ⟨hfresh, ⟨frames, hcount, hcomplete⟩, htail⟩, rfl, rfl⟩

theorem loadable_of_complete {blob : List UInt8} {frames : Nat} (hcount : completeFrameCount blob = some frames)
    (hcomplete : completeBootstrapAtFrameBoundary blob.length frames = true) : Loadable lz4 blob := by
  intro installedAt sink sink' path bytes hinstall tmp modified fault disk disk' hpersist now hfresh
  unfold installBootstrapCache at hinstall
  split at hinstall
  · rename_i htail
    obtain ⟨-, hpath⟩ := Prod.mk.inj hinstall
    obtain ⟨path', -, heq⟩ := Option.map_eq_some_iff.mp hpath
    obtain ⟨rfl, rfl⟩ := Prod.mk.inj heq
    exact reloads_of_complete lz4 hcount hcomplete htail path' tmp modified fault disk disk' hpersist now hfresh
  · cases (Prod.mk.inj hinstall).2

end

/-! ## 5. A whole bootstrap is captured -/

open Machine (Leads)

namespace Tap

/-- Capturing since time zero, with `blob` relayed and `rest` to come. -/
structure Capturing (blob rest : List UInt8) (frames : Nat) (s : Tap) : Prop where
  first : s.first = none
  rest : s.rest = rest
  node : s.node = blob
  blob : s.blob = blob
  frames : s.frames = frames
  capture : s.capture = true
  deadline : 0 < s.captureDeadline
  win : s.win = 0
  installs : s.installs = []

variable {slower : Nat → Nat → Nat → Bool} {s : Tap} {blob rest : List UInt8} {frames : Nat}

theorem Capturing.dropSlowCapture (h : s.Capturing blob rest frames) : s.dropSlowCapture 0 = s := by
  unfold Tap.dropSlowCapture
  rw [if_neg]
  rintro ⟨-, hle⟩
  exact absurd h.deadline (Nat.not_lt.mpr hle)

theorem Capturing.relay {bytes : List UInt8} (h : s.Capturing blob rest frames) :
    (s.relay bytes).Capturing (blob ++ bytes) rest frames where
  first := h.first
  rest := h.rest
  node := by simp only [Tap.relay, h.node]
  blob := by simp only [Tap.relay, h.capture, h.blob, if_true]
  frames := h.frames
  capture := h.capture
  deadline := h.deadline
  win := h.win
  installs := h.installs

theorem Capturing.at_pc (h : s.Capturing blob rest frames) (pc : TapPc) :
    { s with pc := pc }.Capturing blob rest frames :=
  { h with }

variable (slower) in
/-- One read and one write of the payload loop. -/
theorem Capturing.chunk {h : Header} {remaining : Nat} {bytes more : List UInt8}
    (hc : s.Capturing blob (bytes ++ more) frames) (hpc : s.pc = .chunkTop h remaining)
    (hpos : 0 < bytes.length) (hle : bytes.length ≤ min remaining RELAY_BUF) :
    ∃ t : Tap, Leads (step slower) s (t.payloadLoop h (remaining - bytes.length)) ∧
      t.Capturing (blob ++ bytes) more frames := by
  have hread : { s with pc := .readChunk h remaining }.read? bytes.length (min remaining RELAY_BUF)
      = some (bytes, { s with pc := .readChunk h remaining, rest := more }) := by
    simp only [read?, hc.rest, List.length_append, List.take_left, List.drop_left]
    rw [if_pos ⟨hpos, hle, Nat.le_add_right _ _⟩]
  have hmore : { s with pc := .writeChunk h remaining bytes, rest := more }.Capturing blob more frames :=
    { hc with rest := rfl }
  refine ⟨_, ?_, hmore.relay⟩
  have hnow : s.step slower (.now 0) = some { s with pc := .readChunk h remaining } := by
    simp only [step, hpc, hc.dropSlowCapture]
  have hgot : { s with pc := .readChunk h remaining }.step slower (.read bytes.length)
      = some { s with pc := .writeChunk h remaining bytes, rest := more } := by
    simp only [step, hread, Option.map_some]
  have hwrote : { s with pc := .writeChunk h remaining bytes, rest := more }.step slower .wrote = some
      (({ s with pc := .writeChunk h remaining bytes, rest := more }.relay bytes).payloadLoop h
        (remaining - bytes.length)) := rfl
  exact (Leads.single _ hnow).trans ((Leads.single _ hgot).trans (Leads.single _ hwrote))

variable (slower) in
/-- The payload loop, from its first read on. -/
theorem Capturing.payload {h : Header} : ∀ (remaining : Nat) {s : Tap} {blob bytes more : List UInt8},
    s.Capturing blob (bytes ++ more) frames → bytes.length = remaining →
    ∃ t : Tap, Leads (step slower) (s.payloadLoop h remaining) t ∧ t.pc = .frameDone h ∧
      t.Capturing (blob ++ bytes) more frames := by
  intro remaining
  induction remaining using Nat.strong_induction_on with
  | _ remaining ih =>
    intro s blob bytes more hc hlen
    rcases Nat.eq_zero_or_pos remaining with hzero | hpos
    · subst hzero
      obtain rfl := List.eq_nil_of_length_eq_zero hlen
      rw [List.append_nil]
      exact ⟨_, Leads.refl _, rfl, hc.at_pc _⟩
    · -- as much as fits the buffer comes first
      have hloop : s.payloadLoop h remaining = { s with pc := .chunkTop h remaining } := by
        simp only [payloadLoop, if_neg (Nat.ne_of_gt hpos)]
      have hbuf : 0 < RELAY_BUF := by decide
      have htake : (bytes.take RELAY_BUF).length = min remaining RELAY_BUF := by
        rw [List.length_take, hlen, Nat.min_comm]
      have hcut : s.Capturing blob (bytes.take RELAY_BUF ++ (bytes.drop RELAY_BUF ++ more)) frames := by
        rw [← List.append_assoc, List.take_append_drop]
        exact hc
      obtain ⟨t, hlead, hct⟩ := Capturing.chunk slower (hcut.at_pc (.chunkTop h remaining)) rfl
        (by omega) (le_of_eq htake)
      obtain ⟨u, hlead', hpc, hcu⟩ := ih (remaining - (bytes.take RELAY_BUF).length) (by omega) hct
        (by rw [List.length_drop]; omega)
      refine ⟨u, ?_, hpc, ?_⟩
      · rw [hloop]
        exact hlead.trans hlead'
      · rwa [List.append_assoc, List.take_append_drop] at hcu

/-- A frame, once its header is there and fits. -/
theorem Capturing.frame {f : Frame} {more : List UInt8} (hc : s.Capturing blob (f.payload ++ more) frames)
    (hroom : blob.length + f.bytes.length ≤ MAX_BOOTSTRAP_CAPTURE_BYTES) :
    ∃ t : Tap, Leads (step slower) (s.onHeader f.header []) t ∧ t.pc = .top ∧
      t.Capturing (blob ++ f.bytes) more (frames + 1) := by
  have hfits : blob.length + 5 + f.header.len ≤ MAX_BOOTSTRAP_CAPTURE_BYTES := by
    rw [Frame.bytes, List.length_append, Header.length_bytes, f.sized] at hroom
    omega
  have honHeader : s.onHeader f.header [] = { s with pc := .writeHeader f.header [] } := by
    have hbounded : ¬ MAX_ABCI_STATE_FRAME < f.header.len := Nat.not_lt.mpr f.bounded
    unfold Tap.onHeader
    rw [if_neg hbounded]
    simp only [hc.capture, hc.blob, true_and, if_neg (Nat.not_lt.mpr hfits)]
  have hwrote : { s with pc := .writeHeader f.header [] }.step slower .wrote = some
      (({ s with pc := .writeHeader f.header [] }.relay f.header.bytes).payloadLoop f.header f.header.len) := by
    simp only [step, onHeaderWritten, if_true]
  obtain ⟨t, hlead, hpc, hct⟩ := Capturing.payload slower f.header.len
    ((hc.at_pc (.writeHeader f.header [])).relay ) f.sized
  rw [List.append_assoc] at hct
  have hdone : t.step slower (.window 0 0) = some
      { t with frames := t.frames + 1, pc := .top, winBytes := t.winBytes + 5 + f.header.len } := by
    have hsize : ¬ MAX_BOOTSTRAP_CAPTURE_BYTES < t.blob.length := by
      rw [hct.blob, List.length_append]
      exact Nat.not_lt.mpr hroom
    simp only [step, hpc, Tap.onFrameDone, hct.capture, hct.win, if_true, if_neg hsize]
    rfl
  rw [honHeader]
  refine ⟨_, (Leads.single _ hwrote).trans (hlead.trans (Leads.single _ hdone)), rfl, ?_⟩
  exact { hct with frames := congrArg (· + 1) hct.frames }

/-- The next header is read at once. -/
theorem Capturing.header {h : Header} {more : List UInt8} (hc : s.Capturing blob (h.bytes ++ more) frames)
    (hpc : s.pc = .top) : ∃ t : Tap, Leads (step slower) s (t.onHeader h []) ∧ t.Capturing blob more frames := by
  have htop : s.onTop 0 = { s with pc := if s.complete then .headerOrTimeout [] else .header [] } := by
    simp only [Tap.onTop, hc.dropSlowCapture, hc.capture, if_true, hc.first]
  have hnow : s.step slower (.now 0) = some { s with pc := if s.complete then .headerOrTimeout [] else .header [] } := by
    simp only [step, hpc, htop]
  have hread : ∀ pc : TapPc, { s with pc := pc }.read? 5 5 = some (h.bytes, { s with pc := pc, rest := more }) := by
    intro pc
    simp only [read?, hc.rest, List.length_append, Header.length_bytes]
    rw [if_pos ⟨by decide, le_rfl, Nat.le_add_right _ _⟩]
    rfl
  have hmore : ∀ pc : TapPc, { s with pc := pc, rest := more }.Capturing blob more frames := fun pc =>
    { hc with rest := rfl }
  -- both ways to read a header take the five bytes
  refine ⟨_, (Leads.single _ hnow).trans (Leads.single (.read 5) ?_),
    hmore (if s.complete then .headerOrTimeout [] else .header [])⟩
  by_cases hcomplete : s.complete = true
  · simp only [hcomplete, if_true, step, readHeader, List.length_nil, Nat.sub_zero, hread, Option.map_some,
      List.nil_append, Header.ofBytes, Header.bytes]
  · simp only [if_neg hcomplete, step, readHeader, List.length_nil, Nat.sub_zero, hread, Option.map_some,
      List.nil_append, Header.ofBytes, Header.bytes]

theorem Capturing.frames_relayed : ∀ {fs : List Frame} {s : Tap} {blob more : List UInt8} {frames : Nat},
    s.Capturing blob (concat fs ++ more) frames → s.pc = .top →
    blob.length + (concat fs).length ≤ MAX_BOOTSTRAP_CAPTURE_BYTES →
    ∃ t : Tap, Leads (step slower) s t ∧ t.pc = .top ∧ t.Capturing (blob ++ concat fs) more (frames + fs.length) := by
  intro fs
  induction fs with
  | nil =>
    intro s blob more frames hc hpc _
    rw [concat_nil, List.append_nil]
    exact ⟨s, Leads.refl s, hpc, hc⟩
  | cons f fs ih =>
    intro s blob more frames hc hpc hroom
    rw [concat_cons, List.length_append] at hroom
    rw [concat_cons, Frame.bytes, List.append_assoc, List.append_assoc] at hc
    obtain ⟨t, hlead, hct⟩ := hc.header hpc
    obtain ⟨u, hlead', hupc, hcu⟩ := hct.frame (f := f) (by omega)
    obtain ⟨v, hlead'', hvpc, hcv⟩ := ih hcu hupc (by rw [List.length_append]; omega)
    refine ⟨v, hlead.trans (hlead'.trans hlead''), hvpc, ?_⟩
    rw [List.append_assoc] at hcv
    rw [concat_cons, List.length_cons, Nat.add_comm fs.length, ← Nat.add_assoc]
    exact hcv

/-- A complete bootstrap that fits, relayed without a fault, is installed when the upstream closes. -/
theorem bootstrap_installed (slower : Nat → Nat → Nat → Bool) (f : Frame) (fs : List Frame)
    (hroom : (concat (f :: fs)).length ≤ MAX_BOOTSTRAP_CAPTURE_BYTES)
    (hcomplete : completeBootstrapAtFrameBoundary (concat (f :: fs)).length (f :: fs).length = true) :
    ∃ t : Tap, Leads (step slower) (start f.header [] (f.payload ++ concat fs) 0) t ∧
      t.installs = [⟨concat (f :: fs), (f :: fs).length, concat (f :: fs)⟩] := by
  rw [concat_cons, List.length_append] at hroom
  have hdeadline : 0 < 0 + MAX_TAP_CAPTURE := by decide
  have hstart : { start f.header [] (f.payload ++ concat fs) 0 with first := none }.Capturing []
      (f.payload ++ concat fs) 0 :=
    ⟨rfl, rfl, rfl, rfl, rfl, rfl, hdeadline, rfl, rfl⟩
  have hnow : (start f.header [] (f.payload ++ concat fs) 0).step slower (.now 0) = some
      ({ start f.header [] (f.payload ++ concat fs) 0 with first := none }.onHeader f.header []) := rfl
  obtain ⟨t, hlead, hpc, hct⟩ := hstart.frame (by rw [List.length_nil]; omega)
  rw [List.nil_append] at hct
  rw [← List.append_nil (concat fs)] at hct
  obtain ⟨u, hlead', hupc, hcu⟩ := hct.frames_relayed hpc hroom
  -- at the end of the stream
  have hucomplete : u.complete = true := by
    rw [complete_iff, hcu.capture, hcu.blob, hcu.frames, Nat.zero_add, Nat.add_comm 1]
    exact ⟨rfl, hcomplete⟩
  have htop : u.step slower (.now 0) = some { u with pc := .headerOrTimeout [] } := by
    simp only [step, hupc, Tap.onTop, hcu.dropSlowCapture, hcu.capture, if_true, hcu.first, hucomplete]
  have hfail : { u with pc := .headerOrTimeout [] }.step slower .fail = some
      { u with pc := .headerOrTimeout [] }.install.upstreamGone := rfl
  refine ⟨_, (Leads.single _ hnow).trans (hlead.trans (hlead'.trans ((Leads.single _ htop).trans
    (Leads.single _ hfail)))), ?_⟩
  simp only [Tap.install, upstreamGone, hcu.installs, hcu.blob, hcu.frames, hcu.node, List.nil_append, concat_cons,
    List.length_cons, Nat.zero_add, Nat.add_comm 1]

end Tap

namespace Fetch

variable {s : Fetch}

/-- Between two frames, with `blob` fetched and `rest` to come. -/
structure Fetching (blob rest : List UInt8) (frames : Nat) (s : Fetch) : Prop where
  pc : s.pc = .header []
  rest : s.rest = rest
  blob : s.blob = blob
  frames : s.frames = frames

variable {blob more : List UInt8} {frames : Nat} {f : Frame}

/-- A header that passes its checks leads to the end of its frame. -/
theorem Fetching.header (hf : s.Fetching blob (f.bytes ++ more) frames)
    (hserving : s.first = false ∨ 4000000 < f.header.len)
    (hroom : blob.length + f.bytes.length ≤ MAX_BOOTSTRAP_CAPTURE_BYTES) :
    Leads (step fun _ _ _ => false) s { s with pc := .frameDone f.header f.payload, rest := more, first := false } := by
  have hfits : ¬ MAX_BOOTSTRAP_CAPTURE_BYTES < s.blob.length + 5 + f.header.len := by
    rw [Frame.bytes, List.length_append, Header.length_bytes, f.sized] at hroom
    rw [hf.blob]
    omega
  have hstate : ¬ (s.first = true ∧ f.header.len ≤ 4000000) := by
    rintro ⟨hfirst, hsmall⟩
    rcases hserving with hold | hlarge
    · rw [hold] at hfirst
      cases hfirst
    · omega
  have hread : s.read? 5 5 = some (f.header.bytes, { s with rest := f.payload ++ more }) := by
    simp only [read?, hf.rest, Frame.bytes, List.append_assoc, List.length_append, Header.length_bytes]
    rw [if_pos ⟨by decide, le_rfl, Nat.le_add_right _ _⟩]
    rfl
  have hheader : s.step (fun _ _ _ => false) (.read 5 0) = some { s with
      pc := if f.header.len = 0 then .frameDone f.header [] else .payload f.header [] 0,
      rest := f.payload ++ more, first := false } := by
    have hlarge : ¬ MAX_ABCI_STATE_FRAME < f.header.len := Nat.not_lt.mpr f.bounded
    simp only [step, hf.pc, List.length_nil, Nat.sub_zero, hread, Option.map_some, List.nil_append, Header.ofBytes,
      Header.bytes, onHeader, if_neg hstate, if_neg hlarge, if_neg hfits]
  refine (Leads.single _ hheader).trans ?_
  by_cases hzero : f.header.len = 0
  · have hnil : f.payload = [] := List.eq_nil_of_length_eq_zero (f.sized.trans hzero)
    rw [if_pos hzero, hnil]
    exact Leads.refl _
  · have hpayload : ∀ pc : FetchPc, ({ s with pc := pc, rest := f.payload ++ more, first := false } : Fetch).read?
        f.payload.length f.payload.length = some (f.payload, { s with pc := pc, rest := more, first := false }) := by
      intro pc
      have hpos : 0 < f.payload.length := by
        rw [f.sized]
        exact Nat.pos_of_ne_zero hzero
      simp only [read?, List.length_append, List.take_left, List.drop_left]
      rw [if_pos ⟨hpos, le_rfl, Nat.le_add_right _ _⟩]
    rw [if_neg hzero]
    apply Leads.single (.read f.payload.length 0)
    simp only [step, List.length_nil, Nat.sub_zero, ← f.sized, hpayload, Option.map_some, onPayload,
      Bool.false_eq_true, and_false, if_false, List.nil_append, if_true]

/-- One frame is fetched. -/
theorem Fetching.frame (hf : s.Fetching blob (f.bytes ++ more) frames)
    (hserving : s.first = false ∨ 4000000 < f.header.len)
    (hroom : blob.length + f.bytes.length ≤ MAX_BOOTSTRAP_CAPTURE_BYTES) :
    ∃ t : Fetch, Leads (step fun _ _ _ => false) s t ∧ t.first = false ∧
      t.Fetching (blob ++ f.bytes) more (frames + 1) := by
  have hblob : s.blob ++ (f.header.bytes ++ f.payload) = blob ++ f.bytes := by
    rw [hf.blob]
    rfl
  have hdone : ({ s with pc := .frameDone f.header f.payload, rest := more, first := false } : Fetch).step
      (fun _ _ _ => false) (.window 0 0 0) = some { s with
        pc := .header [], rest := more, first := false, blob := blob ++ f.bytes, frames := s.frames + 1,
        winBytes := s.winBytes + 5 + f.header.len } := by
    have hsize : ¬ MAX_BOOTSTRAP_CAPTURE_BYTES < (blob ++ f.bytes).length := by
      rw [List.length_append]
      exact Nat.not_lt.mpr hroom
    simp only [step, onFrameDone, hblob, if_neg hsize, Bool.false_eq_true, and_false, if_false, onWindow,
      Nat.zero_sub]
    rfl
  refine ⟨_, (hf.header hserving hroom).trans (Leads.single _ hdone), rfl, rfl, rfl, rfl, ?_⟩
  exact congrArg (· + 1) hf.frames

theorem Fetching.frames_fetched : ∀ {fs : List Frame} {s : Fetch} {blob : List UInt8} {frames : Nat},
    s.Fetching blob (concat fs) frames → s.first = false →
    blob.length + (concat fs).length ≤ MAX_BOOTSTRAP_CAPTURE_BYTES →
    ∃ t : Fetch, Leads (step fun _ _ _ => false) s t ∧ t.Fetching (blob ++ concat fs) [] (frames + fs.length) := by
  intro fs
  induction fs with
  | nil =>
    intro s blob frames hf _ _
    rw [concat_nil, List.append_nil]
    exact ⟨s, Leads.refl s, hf⟩
  | cons f fs ih =>
    intro s blob frames hf hfirst hroom
    rw [concat_cons, List.length_append] at hroom
    obtain ⟨t, hlead, htfirst, hft⟩ := hf.frame (Or.inl hfirst) (by omega)
    obtain ⟨u, hlead', hfu⟩ := ih hft htfirst (by rw [List.length_append]; omega)
    refine ⟨u, hlead.trans hlead', ?_⟩
    rw [List.append_assoc] at hfu
    rw [concat_cons, List.length_cons, Nat.add_comm fs.length, ← Nat.add_assoc]
    exact hfu

/-- A complete bootstrap that fits and starts with a large frame is fetched whole. -/
theorem bootstrap_fetched (f : Frame) (fs : List Frame) (hserving : 4000000 < f.header.len)
    (hroom : (concat (f :: fs)).length ≤ MAX_BOOTSTRAP_CAPTURE_BYTES)
    (hcomplete : completeBootstrapAtFrameBoundary (concat (f :: fs)).length (f :: fs).length = true) :
    ∃ t : Fetch, Leads (step fun _ _ _ => false) { rest := concat (f :: fs) } t ∧
      t.pc = .returned (.ok (concat (f :: fs))) := by
  have hstart : ({ pc := .header [], rest := concat (f :: fs) } : Fetch).Fetching [] (f.bytes ++ concat fs) 0 :=
    ⟨rfl, rfl, rfl, rfl⟩
  rw [concat_cons, List.length_append] at hroom
  obtain ⟨t, hlead, hfirst, hft⟩ := hstart.frame (Or.inr hserving) (by rw [List.length_nil]; omega)
  rw [List.nil_append] at hft
  obtain ⟨u, hlead', hfu⟩ := hft.frames_fetched hfirst hroom
  have hconnect : Leads (step fun _ _ _ => false) { rest := concat (f :: fs) }
      { pc := .header [], rest := concat (f :: fs) } :=
    (Leads.single (.done 0) rfl).trans (Leads.single (.done 0) rfl)
  have hend : u.step (fun _ _ _ => false) .fail = some u.ok := by
    have hwhole : completeBootstrapAtFrameBoundary u.blob.length u.frames = true := by
      rw [hfu.blob, hfu.frames, ← hcomplete, List.length_cons, Nat.zero_add, Nat.add_comm 1]
      rfl
    simp only [step, hfu.pc, hwhole, if_true]
  refine ⟨u.ok, hconnect.trans (hlead.trans (hlead'.trans (Leads.single _ hend))), ?_⟩
  rw [Fetch.ok, hfu.blob]
  rfl

end Fetch

/-- **The tap captures what it relays, and it can be loaded.**  For every upstream stream and every
    outcome of the awaits: the node is sent a front of the stream; a blob is installed only when
    it is all that has been relayed, a sequence of as many whole frames as were counted, and a
    complete bootstrap.  A blob `fetch_bootstrap` returns is all it read but for a part of a
    header, and as whole and complete.  Either kind is loaded again byte by byte. -/
theorem captured_blobs_are_relayed_and_loadable (lz4 : Lz4.Decoder)
    (slower : Nat → Nat → Nat → Bool) (upstream : List UInt8) :
    (∀ firstHdr pre at_ events s,
      Machine.Run (Tap.step slower) (fun _ _ => True) (Tap.start firstHdr pre upstream at_) events s →
      s.node <+: firstHdr.bytes ++ pre ++ upstream ∧
      ∀ i ∈ s.installs, i.blob = i.relayed ∧ (∃ fs, i.blob = concat fs ∧ fs.length = i.frames) ∧
        completeFrameCount i.blob = some i.frames ∧
        completeBootstrapAtFrameBoundary i.blob.length i.frames = true ∧ Loadable lz4 i.blob) ∧
    (∀ events s blob, Machine.Run (Fetch.step slower) (fun _ _ => True) { rest := upstream } events s →
      s.pc = .returned (.ok blob) →
      (∃ got, got.length < 5 ∧ blob ++ (got ++ s.rest) = upstream) ∧
        (∃ fs, blob = concat fs ∧ fs.length = s.frames) ∧ completeFrameCount blob = some s.frames ∧
        completeBootstrapAtFrameBoundary blob.length s.frames = true ∧ Loadable lz4 blob) := by
  constructor
  · intro firstHdr pre at_ events s hrun
    have hinv : s.Inv (firstHdr.bytes ++ pre ++ upstream) := by
      apply hrun.invariant (Tap.inv_start firstHdr pre upstream at_)
      intro a e b ha _ hstep
      exact ha.step hstep
    obtain ⟨hnode, hinstalls⟩ := hinv.relayed
    refine ⟨hnode, ?_⟩
    intro i hi
    obtain ⟨hrelayed, hcount, hcomplete⟩ := hinstalls i hi
    obtain ⟨fs, hblob, hfs⟩ := completeFrameCount_eq_some.mp hcount
    exact ⟨hrelayed, ⟨fs, hblob, hfs.symm⟩, hcount, hcomplete, loadable_of_complete lz4 hcount hcomplete⟩
  · intro events s blob hrun hpc
    have hinv : s.Inv upstream := by
      apply hrun.invariant (I := Fetch.Inv upstream) ⟨rfl, [], rfl, rfl⟩
      intro a e b ha _ hstep
      exact ha.step hstep
    unfold Fetch.Inv at hinv
    rw [hpc] at hinv
    obtain ⟨rfl, hcomplete, got, hgot, hm⟩ := hinv
    obtain ⟨fs, hblob, hfs⟩ := hm.framed
    have hcount : completeFrameCount s.blob = some s.frames :=
      completeFrameCount_eq_some.mpr ⟨fs, hblob, hfs.symm⟩
    exact ⟨⟨got, hgot, hm.stream⟩, ⟨fs, hblob, hfs⟩, hcount, hcomplete,
      loadable_of_complete lz4 hcount hcomplete⟩

/-- The first frame of a state server, one of the frames behind it, and four blocks. -/
def stateFrame : Frame where
  header := ⟨0, 0x4c, 0x4b, 0x40, 0⟩
  payload := List.replicate 5000000 0
  sized := List.length_replicate
  bounded := by decide

def zeroFrame : Frame where
  header := ⟨0, 0x13, 0xd6, 0x20, 0⟩
  payload := List.replicate 1300000 0
  sized := List.length_replicate
  bounded := by decide

def blockOf (r : UInt32) : Frame where
  header := (liveBlock r).header
  payload := (liveBlock r).payload
  sized := (liveBlock r).sized
  bounded := show 29 ≤ MAX_COUNTED_FRAME by decide

def liveTail : List Frame := [blockOf 1000000000, blockOf 1000000001, blockOf 1000000002, blockOf 1000000003]

/-- All that a state server sends behind its first frame. -/
def bulkAndTail : List Frame := List.replicate 4000 zeroFrame ++ liveTail

theorem length_bulkAndTail : (concat (stateFrame :: bulkAndTail)).length = 5205020141 := by
  have hbulk : ∀ n, (concat (List.replicate n zeroFrame)).length = n * 1300005 := by
    intro n
    induction n with
    | zero => rfl
    | succ n ih =>
      rw [List.replicate_succ, concat_cons, List.length_append, ih, Frame.bytes, List.length_append,
        Header.length_bytes, zeroFrame.sized, Nat.succ_mul, Nat.add_comm]
      rfl
  have hsplit : concat bulkAndTail = concat (List.replicate 4000 zeroFrame) ++ concat liveTail := by
    rw [bulkAndTail, concat, List.map_append, List.flatten_append]
    rfl
  have htail : (concat liveTail).length = 136 := rfl
  rw [concat_cons, hsplit, List.length_append, List.length_append, hbulk, htail, Frame.bytes, List.length_append,
    stateFrame.sized, Header.length_bytes]
  rfl

theorem length_frames_bulkAndTail : (stateFrame :: bulkAndTail).length = 4005 := by
  rw [List.length_cons, bulkAndTail, List.length_append, List.length_replicate]
  rfl

theorem complete_bulkAndTail :
    completeBootstrapAtFrameBoundary (concat (stateFrame :: bulkAndTail)).length (stateFrame :: bulkAndTail).length =
      true := by
  rw [length_bulkAndTail, length_frames_bulkAndTail]
  decide

/-- The walk over a stream sees the rounds of the four blocks. -/
theorem hasLiveTail_bulkAndTail :
    hasLiveTail decompressSizePrepended (concat (stateFrame :: bulkAndTail)) = true := by
  have hstream : concat (stateFrame :: bulkAndTail) =
      stream ((stateFrame :: bulkAndTail).map fun f => { f with }) ++ [] := by
    rw [List.append_nil, stream, concat, List.map_map]
    rfl
  have hrounds : ((stateFrame :: bulkAndTail).map fun f => ({ f with } : RawFrame)).filterMap
      (frameRound decompressSizePrepended) = [1000000000, 1000000001, 1000000002, 1000000003] := by
    have htail : (liveTail.map fun f => ({ f with } : RawFrame)).filterMap
        (frameRound decompressSizePrepended) = [1000000000, 1000000001, 1000000002, 1000000003] := by
      decide +kernel
    have hzero : frameRound decompressSizePrepended { zeroFrame with } = none :=
      rfl
    have hstate : frameRound decompressSizePrepended { stateFrame with } = none :=
      rfl
    rw [bulkAndTail, List.map_cons, List.filterMap_cons_none hstate, List.map_append, List.filterMap_append, htail,
      List.map_replicate, List.filterMap_replicate_of_none hzero]
    rfl
  rw [hasLiveTail, hstream, maxBlockRoundInFrames_stream _ _ truncated_nil, hrounds]
  decide

/-- The same bootstrap through the tap and from a fetch; either blob is persisted and
    comes back. -/
theorem captured_blobs_are_relayed_bulkAndTail :
    (∃ events s i, Machine.Run (Tap.step fun _ _ _ => false) (fun _ _ => True)
        (Tap.start stateFrame.header [] (stateFrame.payload ++ concat bulkAndTail) 0) events s ∧
      i ∈ s.installs ∧ completeFrameCount i.blob = some 4005 ∧ i.blob = i.relayed ∧
      loadBootstrapCache decompressSizePrepended "state" 1000
        (persistBootstrapCache "state" "state.tmp7" i.blob (some 900) none ∅).2 = .ok (some (i.blob, 900))) ∧
    ∃ events s blob, Machine.Run (Fetch.step fun _ _ _ => false) (fun _ _ => True)
        { rest := concat (stateFrame :: bulkAndTail) } events s ∧
      s.pc = .returned (.ok blob) ∧ completeFrameCount blob = some s.frames ∧
      loadBootstrapCache decompressSizePrepended "state" 1000
        (persistBootstrapCache "state" "state.tmp7" blob (some 900) none ∅).2 = .ok (some (blob, 900)) := by
  have hroom : (concat (stateFrame :: bulkAndTail)).length ≤ MAX_BOOTSTRAP_CAPTURE_BYTES := by
    rw [length_bulkAndTail]
    decide
  -- a blob with a live tail is installed
  have hback : Loadable decompressSizePrepended (concat (stateFrame :: bulkAndTail)) →
      loadBootstrapCache decompressSizePrepended "state" 1000
        (persistBootstrapCache "state" "state.tmp7" (concat (stateFrame :: bulkAndTail)) (some 900) none ∅).2 =
          .ok (some (concat (stateFrame :: bulkAndTail), 900)) := by
    intro hload
    refine hload 900 { diskCachePath := some "state" } _ "state" _ (if_pos hasLiveTail_bulkAndTail) "state.tmp7"
      (some 900) none ∅ _ rfl 1000 (by decide)
  constructor
  · obtain ⟨s, ⟨events, hrun⟩, hinstalls⟩ := Tap.bootstrap_installed (fun _ _ _ => false) stateFrame bulkAndTail hroom
      complete_bulkAndTail
    obtain ⟨-, hall⟩ := (captured_blobs_are_relayed_and_loadable decompressSizePrepended (fun _ _ _ => false)
      (stateFrame.payload ++ concat bulkAndTail)).1 stateFrame.header [] 0 events s hrun
    obtain ⟨hrelayed, -, hcount, -, hload⟩ := hall _ (hinstalls ▸ List.mem_singleton_self _)
    refine ⟨events, s, _, hrun, hinstalls ▸ List.mem_singleton_self _, ?_, hrelayed, hback hload⟩
    rw [hcount, length_frames_bulkAndTail]
  · obtain ⟨s, ⟨events, hrun⟩, hpc⟩ := Fetch.bootstrap_fetched stateFrame bulkAndTail (by decide) hroom
      complete_bulkAndTail
    obtain ⟨-, -, hcount, -, hload⟩ := (captured_blobs_are_relayed_and_loadable decompressSizePrepended
      (fun _ _ _ => false) (concat (stateFrame :: bulkAndTail))).2 events s _ hrun hpc
    exact ⟨events, s, _, hrun, hpc, hcount, hback hload⟩

end Hypersync.Gateway
