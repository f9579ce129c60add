import Hypersync.Lib.Word
import Hypersync.Protocol.BlockRound
import Hypersync.Protocol.Clusters
import Hypersync.Protocol.Rounds

/-!
# Streams of frames

A frame is a five-byte header, the big-endian length of its payload and a type
byte, followed by the payload.  `complete_frame_count` walks a captured stream
from header to header; it accepts exactly the concatenations of whole frames.
`max_block_round_in_frames` looks for a cluster of block rounds in such a stream.
-/

namespace Hypersync.Protocol

/-! ## 1. Headers and frames -/

/-- The five header bytes `[u8; 5]`. -/
structure Header where
  b0 : UInt8
  b1 : UInt8
  b2 : UInt8
  b3 : UInt8
  typ : UInt8
deriving DecidableEq, Repr

namespace Header

def bytes (h : Header) : List UInt8 := [h.b0, h.b1, h.b2, h.b3, h.typ]

/-- `u32::from_be_bytes` of the first four. -/
def len (h : Header) : Nat := (Word.ofBe h.b0 h.b1 h.b2 h.b3).toNat

/-- Five bytes read are a header. -/
def ofBytes : List UInt8 → Option Header
  | [b0, b1, b2, b3, typ] => some ⟨b0, b1, b2, b3, typ⟩
  | _ => none

@[simp] theorem length_bytes (h : Header) : h.bytes.length = 5 := rfl

theorem bytes_of_ofBytes {bs : List UInt8} {h : Header} (hh : ofBytes bs = some h) : h.bytes = bs := by
  unfold ofBytes at hh
  split at hh <;> cases hh
  rfl

theorem exists_ofBytes {bs : List UInt8} (hlen : bs.length = 5) : ∃ h, ofBytes bs = some h := by
  rcases bs with _ | ⟨b0, _ | ⟨b1, _ | ⟨b2, _ | ⟨b3, _ | ⟨typ, _ | ⟨b5, rest⟩⟩⟩⟩⟩⟩
  · cases hlen
  · cases hlen
  · cases hlen
  · cases hlen
  · cases hlen
  · exact ⟨_, rfl⟩
  · cases hlen

theorem length_ne_of_ofBytes {bs : List UInt8} (h : ofBytes bs = none) : bs.length ≠ 5 := by
  intro hlen
  obtain ⟨hd, hhd⟩ := exists_ofBytes hlen
  rw [h] at hhd
  cases hhd

end Header

/-- The largest payload `complete_frame_count` accepts. -/
def MAX_COUNTED_FRAME : Nat := 1500000000

/-- A whole frame: its payload is as long as its header says, and not too long. -/
structure Frame where
  header : Header
  payload : List UInt8
  sized : payload.length = header.len
  bounded : header.len ≤ MAX_COUNTED_FRAME

def Frame.bytes (f : Frame) : List UInt8 := f.header.bytes ++ f.payload

/-- The stream the frames make. -/
def concat (fs : List Frame) : List UInt8 := (fs.map Frame.bytes).flatten

@[simp] theorem concat_nil : concat [] = [] := rfl

@[simp] theorem concat_cons (f : Frame) (fs : List Frame) : concat (f :: fs) = f.bytes ++ concat fs := rfl

theorem concat_snoc (fs : List Frame) (f : Frame) : concat (fs ++ [f]) = concat fs ++ f.bytes := by
  simp only [concat, List.map_append, List.map_cons, List.map_nil, List.flatten_append, List.flatten_cons,
    List.flatten_nil, List.append_nil]

/-! ## 2. Counting frames -/

/-- The loop of `complete_frame_count` on the bytes from `off` on.  Every turn takes at
    least a header, so the length of the input is enough fuel. -/
def countLoop : Nat → List UInt8 → Nat → Option Nat
  | 0, _, _ => none
  | _ + 1, [], frames => some frames
  | fuel + 1, b0 :: b1 :: b2 :: b3 :: typ :: rest, frames =>
    let len := (⟨b0, b1, b2, b3, typ⟩ : Header).len
    if MAX_COUNTED_FRAME < len then none
    else if rest.length < len then none
    else countLoop fuel (rest.drop len) (frames + 1)
  | _ + 1, _, _ => none

def completeFrameCount (buf : List UInt8) : Option Nat := countLoop (buf.length + 1) buf 0

theorem countLoop_concat {fuel : Nat} : ∀ {fs : List Frame} {frames : Nat}, (concat fs).length < fuel →
    countLoop fuel (concat fs) frames = some (frames + fs.length) := by
  induction fuel with
  | zero =>
    intro fs frames hfuel
    exact absurd hfuel (Nat.not_lt_zero _)
  | succ fuel ih =>
    intro fs frames hfuel
    rcases fs with _ | ⟨⟨⟨b0, b1, b2, b3, typ⟩, payload, hsized, hbounded⟩, fs⟩
    · rfl
    · simp only [concat_cons, Frame.bytes, Header.bytes, List.cons_append, List.nil_append, countLoop]
      rw [if_neg (Nat.not_lt.mpr hbounded), if_neg, ← hsized, List.drop_left, ih]
      · rw [List.length_cons]
        congr 1
        omega
      · simp only [concat_cons, Frame.bytes, Header.bytes, List.length_append, List.length_cons] at hfuel
        omega
      · rw [List.length_append]
        omega

theorem concat_of_countLoop {fuel : Nat} : ∀ {buf : List UInt8} {frames k : Nat},
    countLoop fuel buf frames = some k → ∃ fs, buf = concat fs ∧ k = frames + fs.length := by
  induction fuel with
  | zero =>
    intro buf frames k h
    cases h
  | succ fuel ih =>
    intro buf frames k h
    rcases buf with _ | ⟨b0, _ | ⟨b1, _ | ⟨b2, _ | ⟨b3, _ | ⟨typ, rest⟩⟩⟩⟩⟩
    · cases h
      exact ⟨[], rfl, rfl⟩
    · cases h
    · cases h
    · cases h
    · cases h
    · simp only [countLoop] at h
      split at h
      · cases h
      split at h
      · cases h
      rename_i hbounded hlong
      obtain ⟨fs, hfs, hk⟩ := ih h
      have hsized : (rest.take (⟨b0, b1, b2, b3, typ⟩ : Header).len).length
          = (⟨b0, b1, b2, b3, typ⟩ : Header).len := by
        rw [List.length_take]
        exact Nat.min_eq_left (Nat.not_lt.mp hlong)
      refine ⟨⟨⟨b0, b1, b2, b3, typ⟩, _, hsized, Nat.not_lt.mp hbounded⟩ :: fs, ?_, ?_⟩
      · rw [concat_cons, ← hfs]
        simp only [Frame.bytes, Header.bytes, List.cons_append, List.nil_append, List.take_append_drop]
      · rw [hk, List.length_cons]
        omega

/-- What is counted is exactly a sequence of whole frames. -/
theorem completeFrameCount_eq_some {buf : List UInt8} {k : Nat} :
    completeFrameCount buf = some k ↔ ∃ fs, buf = concat fs ∧ k = fs.length := by
  constructor
  · intro h
    obtain ⟨fs, hbuf, hk⟩ := concat_of_countLoop h
    exact ⟨fs, hbuf, by omega⟩
  · rintro ⟨fs, rfl, rfl⟩
    rw [completeFrameCount, countLoop_concat (Nat.lt_succ_self _), Nat.zero_add]

/-! ## 3. Complete bootstraps -/

def MIN_COMPLETE_BOOTSTRAP_BYTES : Nat := 5200000000

def MIN_COMPLETE_BOOTSTRAP_FRAMES : Nat := 4000

def completeBootstrapAtFrameBoundary (bytes frames : Nat) : Bool :=
  MIN_COMPLETE_BOOTSTRAP_BYTES ≤ bytes ∧ MIN_COMPLETE_BOOTSTRAP_FRAMES ≤ frames

variable (lz4 : Lz4.Decoder)

/-- The rounds `max_block_round_in_frames` collects, on the bytes from `off` on. -/
def roundsInFrames : Nat → List UInt8 → List UInt32
  | fuel + 1, b0 :: b1 :: b2 :: b3 :: typ :: rest =>
    let len := (⟨b0, b1, b2, b3, typ⟩ : Header).len
    if rest.length < len then []
    else
      let rounds := roundsInFrames fuel (rest.drop len)
      if typ = 1 ∧ len ≤ MAX_LIVE_FRAME then
        match blockRound lz4 (rest.take len) with
        | some round => if isPlausibleMainnetRound round 0 then round :: rounds else rounds
        | none => rounds
      else rounds
  | _, _ => []

def maxBlockRoundInFrames (blob : List UInt8) : Option UInt32 :=
  maxClusteredRound (roundsInFrames lz4 blob.length blob) 4 10000

end Hypersync.Protocol
