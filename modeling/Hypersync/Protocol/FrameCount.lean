import Hypersync.Lib.PrefixCode
import Hypersync.Protocol.Frames
import Mathlib.Data.Set.List

/-!
# What `complete_frame_count` accepts

A frame is written as `[u32 BE L][type][L bytes]`.  The frames up to the limit are a
prefix code, since the first five bytes of a frame say how long it is; so a stream has
one decomposition into frames, and a cut that is not at one of its boundaries leaves
something that is no stream at all (`completeFrameCount_exact`).

The source walks the slice by an offset, adds with overflow checks and counts in 64
bits.  On every slice that can exist this is the walk over what is left
(`completeFrameCountU64_eq_some_iff`): no check ever fails and no count wraps.
-/

namespace Hypersync.Protocol

open Coding (PrefixCode Factors)

/-! ## 1. Frames as they are written -/

/-- The byte strings `[u32 BE L][type][L bytes]` with `L` up to the limit. -/
def wholeFrames : Set (List UInt8) :=
  {bytes | ∃ (len : UInt32) (typ : UInt8) (payload : List UInt8), bytes = Word.toBe len ++ typ :: payload ∧
    payload.length = len.toNat ∧ len.toNat ≤ MAX_COUNTED_FRAME}

theorem wholeFrames_eq : wholeFrames = Set.range Frame.bytes := by
  ext bytes
  constructor
  · rintro ⟨len, typ, payload, rfl, hsized, hbounded⟩
    obtain ⟨b0, b1, b2, b3, hbytes, rfl⟩ := Word.exists_toBe len
    refine ⟨⟨⟨b0, b1, b2, b3, typ⟩, payload, hsized, hbounded⟩, ?_⟩
    rw [hbytes]
    rfl
  · rintro ⟨⟨⟨b0, b1, b2, b3, typ⟩, payload, hsized, hbounded⟩, rfl⟩
    refine ⟨Word.ofBe b0 b1 b2 b3, typ, payload, ?_, hsized, hbounded⟩
    rw [Word.toBe_ofBe]
    rfl

theorem length_frame (f : Frame) : f.bytes.length = 5 + f.header.len := by
  rw [Frame.bytes, List.length_append, Header.length_bytes, f.sized]

/-- The length of a frame, by its first five bytes. -/
def declaredLength (bs : List UInt8) : Nat := (Header.ofBytes bs).elim 0 fun h => 5 + h.len

theorem declaredLength_frame (f : Frame) : declaredLength (f.bytes.take 5) = f.bytes.length := by
  have hheader : f.bytes.take 5 = f.header.bytes := List.take_left' (Header.length_bytes f.header)
  rw [length_frame, hheader]
  rfl

theorem prefixCode_wholeFrames : PrefixCode wholeFrames := by
  rw [wholeFrames_eq]
  apply PrefixCode.of_length (show 0 < 5 by omega)
  · rintro _ ⟨f, rfl⟩
    rw [length_frame]
    exact Nat.le_add_right 5 f.header.len
  · rintro _ ⟨f, rfl⟩
    exact (declaredLength_frame f).symm

theorem factors_iff {buf : List UInt8} {parts : List (List UInt8)} :
    Factors wholeFrames buf parts ↔ ∃ fs : List Frame, buf = concat fs ∧ parts = fs.map Frame.bytes := by
  constructor
  · rintro ⟨hmem, rfl⟩
    rw [wholeFrames_eq] at hmem
    obtain ⟨fs, rfl⟩ : parts ∈ Set.range (List.map Frame.bytes) := by
      rw [Set.range_list_map]
      exact hmem
    exact ⟨fs, rfl, rfl⟩
  · rintro ⟨fs, rfl, rfl⟩
    refine ⟨?_, rfl⟩
    intro bytes hbytes
    obtain ⟨f, -, rfl⟩ := List.mem_map.mp hbytes
    rw [wholeFrames_eq]
    exact ⟨f, rfl⟩

/-! ## 2. What is counted -/

theorem completeFrameCount_eq_some_iff {buf : List UInt8} {k : Nat} :
    completeFrameCount buf = some k ↔ ∃ parts, Factors wholeFrames buf parts ∧ parts.length = k := by
  rw [completeFrameCount_eq_some]
  constructor
  · rintro ⟨fs, hbuf, rfl⟩
    exact ⟨fs.map Frame.bytes, factors_iff.mpr ⟨fs, hbuf, rfl⟩, List.length_map _⟩
  · rintro ⟨parts, hparts, rfl⟩
    obtain ⟨fs, hbuf, rfl⟩ := factors_iff.mp hparts
    exact ⟨fs, hbuf, List.length_map _⟩

theorem completeFrameCount_append {a b : List UInt8} {j k : Nat} (ha : completeFrameCount a = some j)
    (hb : completeFrameCount b = some k) : completeFrameCount (a ++ b) = some (j + k) := by
  rw [completeFrameCount_eq_some_iff] at ha hb ⊢
  obtain ⟨parts, hparts, rfl⟩ := ha
  obtain ⟨parts', hparts', rfl⟩ := hb
  exact ⟨parts ++ parts', hparts.append hparts', List.length_append⟩

/-- The first `i` frames are counted as `i`. -/
theorem completeFrameCount_boundary {buf : List UInt8} {parts : List (List UInt8)}
    (h : Factors wholeFrames buf parts) {i : Nat} (hi : i ≤ parts.length) :
    completeFrameCount (buf.take (parts.take i).flatten.length) = some i := by
  rw [completeFrameCount_eq_some_iff]
  refine ⟨parts.take i, h.take i, ?_⟩
  rw [List.length_take, Nat.min_eq_left hi]

theorem completeFrameCount_cut {buf : List UInt8} {parts : List (List UInt8)} (h : Factors wholeFrames buf parts)
    {n : Nat} (hn : n ≤ buf.length) :
    completeFrameCount (buf.take n) = none ↔ ∀ i ≤ parts.length, n ≠ (parts.take i).flatten.length := by
  constructor
  · rintro hnone i hi rfl
    rw [completeFrameCount_boundary h hi] at hnone
    cases hnone
  · intro hoff
    rw [Option.eq_none_iff_forall_ne_some]
    intro k hk
    obtain ⟨left, hleft, -⟩ := completeFrameCount_eq_some_iff.mp hk
    obtain ⟨i, hi, -, hcut⟩ := h.exists_boundary prefixCode_wholeFrames hn hleft
    exact hoff i hi hcut

/-- **What is counted is whole frames.**  `complete_frame_count` returns `k` exactly on the
    concatenations of `k` frames.  The frames of a byte string are unique, the counts of
    concatenated streams add up, and a stream that was cut is refused exactly if the cut is
    at none of its frame boundaries. -/
theorem completeFrameCount_exact :
    (∀ buf k, completeFrameCount buf = some k ↔ ∃ parts, Factors wholeFrames buf parts ∧ parts.length = k) ∧
    (∀ buf parts parts', Factors wholeFrames buf parts → Factors wholeFrames buf parts' → parts = parts') ∧
    (∀ a b j k, completeFrameCount a = some j → completeFrameCount b = some k →
      completeFrameCount (a ++ b) = some (j + k)) ∧
    ∀ buf parts, Factors wholeFrames buf parts → ∀ n ≤ buf.length,
      (completeFrameCount (buf.take n) = none ↔ ∀ i ≤ parts.length, n ≠ (parts.take i).flatten.length) := by
  refine ⟨?_, ?_, ?_, ?_⟩
  · intro buf k
    exact completeFrameCount_eq_some_iff
  · intro buf parts parts' h h'
    exact h.unique prefixCode_wholeFrames h'
  · intro a b j k ha hb
    exact completeFrameCount_append ha hb
  · intro buf parts h n hn
    exact completeFrameCount_cut h hn

/-- Three bytes and an empty payload, cut inside the second header. -/
theorem completeFrameCount_exact_two :
    Factors wholeFrames [0, 0, 0, 3, 1, 1, 2, 3, 0, 0, 0, 0, 2] [[0, 0, 0, 3, 1, 1, 2, 3], [0, 0, 0, 0, 2]] ∧
    completeFrameCount ([0, 0, 0, 3, 1, 1, 2, 3] ++ [0, 0, 0, 0, 2]) = some 2 ∧
    completeFrameCount ([0, 0, 0, 3, 1, 1, 2, 3, 0, 0, 0, 0, 2].take 9) = none := by
  have hparts : Factors wholeFrames [0, 0, 0, 3, 1, 1, 2, 3, 0, 0, 0, 0, 2]
      [[0, 0, 0, 3, 1, 1, 2, 3], [0, 0, 0, 0, 2]] := by
    refine ⟨?_, rfl⟩
    intro bytes hbytes
    simp only [List.mem_cons, List.not_mem_nil, or_false] at hbytes
    rcases hbytes with rfl | rfl
    · exact ⟨3, 1, [1, 2, 3], by decide, rfl, by decide⟩
    · exact ⟨0, 2, [], by decide, rfl, by decide⟩
  obtain ⟨-, -, hadd, hcut⟩ := completeFrameCount_exact
  exact ⟨hparts, hadd _ _ 1 1 (by decide) (by decide), (hcut _ _ hparts 9 (by decide)).mpr (by decide)⟩

/-! ## 3. The walk by offsets -/

/-- The longest slice there is, `isize::MAX` bytes. -/
def ISIZE_MAX : Nat := 9223372036854775807

/-- `usize::checked_add`, on 64 bits. -/
def usizeCheckedAdd (a b : Nat) : Option Nat := if a + b < UInt64.size then some (a + b) else none

/-- The loop of `complete_frame_count` as it is written.  The bytes it indexes are within the
    slice by the check before, and the length of the slice is enough fuel again. -/
def countOffsets (buf : List UInt8) : Nat → Nat → UInt64 → Option UInt64
  | 0, _, _ => none
  | fuel + 1, off, frames =>
    if off < buf.length then
      if buf.length - off < 5 then none
      else
        let len := (Word.ofBe (buf.getD off 0) (buf.getD (off + 1) 0) (buf.getD (off + 2) 0)
          (buf.getD (off + 3) 0)).toNat
        if MAX_COUNTED_FRAME < len then none
        else
          (usizeCheckedAdd off 5).bind fun past =>
          (usizeCheckedAdd past len).bind fun next =>
          if buf.length < next then none else countOffsets buf fuel next (frames + 1)
    else some frames

def completeFrameCountU64 (buf : List UInt8) : Option UInt64 := countOffsets buf (buf.length + 1) 0 0

theorem usizeCheckedAdd_of_lt {a b : Nat} (h : a + b < UInt64.size) : usizeCheckedAdd a b = some (a + b) := if_pos h

/-- One turn, with the five bytes at `off` in hand. -/
theorem countOffsets_header {buf : List UInt8} (hbuf : buf.length ≤ ISIZE_MAX) {off : Nat} {b0 b1 b2 b3 typ : UInt8}
    {rest : List UInt8} (hdrop : buf.drop off = b0 :: b1 :: b2 :: b3 :: typ :: rest) (fuel : Nat) (frames : UInt64) :
    countOffsets buf (fuel + 1) off frames =
      if MAX_COUNTED_FRAME < (⟨b0, b1, b2, b3, typ⟩ : Header).len then none
      else if rest.length < (⟨b0, b1, b2, b3, typ⟩ : Header).len then none
      else countOffsets buf fuel (off + 5 + (⟨b0, b1, b2, b3, typ⟩ : Header).len) (frames + 1) := by
  have hlength : buf.length - off = rest.length + 5 := by
    rw [← List.length_drop, hdrop]
    rfl
  have hget : ∀ i, buf.getD (off + i) 0 = (b0 :: b1 :: b2 :: b3 :: typ :: rest).getD i 0 := by
    intro i
    rw [← hdrop, List.getD_eq_getElem?_getD, List.getD_eq_getElem?_getD, List.getElem?_drop]
  have h0 : buf.getD off 0 = b0 := hget 0
  have h1 : buf.getD (off + 1) 0 = b1 := hget 1
  have h2 : buf.getD (off + 2) 0 = b2 := hget 2
  have h3 : buf.getD (off + 3) 0 = b3 := hget 3
  rw [countOffsets, if_pos (by omega), if_neg (by omega)]
  simp only [h0, h1, h2, h3]
  rw [Header.len]
  split
  · rfl
  · next hbounded =>
    have hsize : UInt64.size = 18446744073709551616 := rfl
    rw [ISIZE_MAX] at hbuf
    rw [MAX_COUNTED_FRAME] at hbounded
    -- an offset into the slice, a header and a payload up to the limit fit
    rw [usizeCheckedAdd_of_lt (by omega), Option.bind_some, usizeCheckedAdd_of_lt (by omega), Option.bind_some]
    by_cases hlong : rest.length < (Word.ofBe b0 b1 b2 b3).toNat
    · rw [if_pos hlong, if_pos (by omega)]
    · rw [if_neg hlong, if_neg (by omega)]

/-- The walk by offsets is the walk over what is left. -/
theorem countOffsets_eq {buf : List UInt8} (hbuf : buf.length ≤ ISIZE_MAX) (fuel : Nat) :
    ∀ {off frames : Nat}, off ≤ buf.length →
      countOffsets buf fuel off (UInt64.ofNat frames) = (countLoop fuel (buf.drop off) frames).map UInt64.ofNat := by
  induction fuel with
  | zero =>
    intro off frames _
    rfl
  | succ fuel ih =>
    intro off frames hoff
    have hshort : (buf.drop off).length < 5 → off < buf.length →
        countOffsets buf (fuel + 1) off (UInt64.ofNat frames) = none := by
      intro hlt hin
      rw [List.length_drop] at hlt
      rw [countOffsets, if_pos hin, if_pos hlt]
    have hlength : (buf.drop off).length = buf.length - off := List.length_drop
    rcases hdrop : buf.drop off with _ | ⟨b0, _ | ⟨b1, _ | ⟨b2, _ | ⟨b3, _ | ⟨typ, rest⟩⟩⟩⟩⟩
    · rw [hdrop, List.length_nil] at hlength
      rw [countOffsets, if_neg (by omega)]
      rfl
    all_goals rw [hdrop] at hlength hshort
    all_goals simp only [List.length_cons, List.length_nil] at hlength hshort
    · exact hshort (by omega) (by omega)
    · exact hshort (by omega) (by omega)
    · exact hshort (by omega) (by omega)
    · exact hshort (by omega) (by omega)
    · rw [countOffsets_header hbuf hdrop]
      simp only [countLoop]
      split
      · rfl
      split
      · rfl
      next hfits =>
      have hone : UInt64.ofNat frames + 1 = UInt64.ofNat (frames + 1) := UInt64.ofNat_add frames 1 |>.symm
      rw [hone, ih (by omega), ← List.drop_drop, ← List.drop_drop, hdrop]
      rfl

theorem completeFrameCount_le_length {buf : List UInt8} {k : Nat} (h : completeFrameCount buf = some k) :
    5 * k ≤ buf.length := by
  obtain ⟨fs, rfl, rfl⟩ := completeFrameCount_eq_some.mp h
  clear h
  induction fs with
  | nil => exact Nat.zero_le _
  | cons f fs ih =>
    rw [concat_cons, List.length_append, length_frame, List.length_cons]
    omega

/-- On a slice the 64-bit count is the count. -/
theorem completeFrameCountU64_eq_some_iff {buf : List UInt8} (hbuf : buf.length ≤ ISIZE_MAX) {k : UInt64} :
    completeFrameCountU64 buf = some k ↔ completeFrameCount buf = some k.toNat := by
  have hrun : completeFrameCountU64 buf = (completeFrameCount buf).map UInt64.ofNat :=
    countOffsets_eq hbuf (buf.length + 1) (Nat.zero_le _)
  rw [hrun, Option.map_eq_some_iff]
  constructor
  · rintro ⟨n, hn, rfl⟩
    have hle := completeFrameCount_le_length hn
    rw [ISIZE_MAX] at hbuf
    rw [hn, UInt64.toNat_ofNat_of_lt']
    rw [UInt64.size]
    omega
  · intro h
    exact ⟨k.toNat, h, UInt64.ofNat_toNat⟩

end Hypersync.Protocol
