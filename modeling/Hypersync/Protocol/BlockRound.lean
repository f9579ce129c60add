import Hypersync.Lib.Word
import Hypersync.Protocol.Lz4FirstN

/-!
# The round, the parent round and the content hash of a live block

A block's round is the first `0xfc R 0xfc R1 0xfc R2` triple of its decompressed
header in which `R1` and `R2` are preceding rounds.  The hot path reads it from
the bounded decode of `Lz4FirstN`; the library decoder is the fallback and the
oracle.  `FirstTriple` says what the round *is*, without a scan; the scan, the
bounded path and the full path are each shown to compute it.

`lz4_flex` is a parameter `lz4` with the hypothesis `Lz4Flex`: what it accepts,
it decodes as the block format says.
-/

namespace Hypersync.Protocol

/-! ## 1. The header scan -/

def ROUND_SCAN_BYTES : Nat := 0x400

def MAX_PARENT_ROUND_GAP : UInt32 := 256

/-- The closure `rd` of the scan (its callers stay inside `dec`). -/
def rd (dec : List UInt8) (o : Nat) : UInt32 :=
  Word.ofLe (dec.getD (o + 1) 0) (dec.getD (o + 2) 0) (dec.getD (o + 3) 0) (dec.getD (o + 4) 0)

/-- The loop body of the scan: a valid triple at `o`. -/
def tripleAt (dec : List UInt8) (o : Nat) : Option (UInt32 × UInt32) :=
  if dec.getD o 0 = 0xfc ∧ dec.getD (o + 5) 0 = 0xfc ∧ dec.getD (o + 10) 0 = 0xfc then
    let r := rd dec o
    let r1 := rd dec (o + 5)
    let r2 := rd dec (o + 10)
    if r1 < r ∧ r - r1 ≤ MAX_PARENT_ROUND_GAP ∧ r2 < r1 ∧ r1 - r2 ≤ MAX_PARENT_ROUND_GAP then
      some (r, r1)
    else none
  else none

/-- `while o + 15 <= end { .. o += 1 }` -/
def scanTriple (dec : List UInt8) (stop : Nat) : Nat → Nat → Option (UInt32 × UInt32)
  | 0, _ => none
  | fuel + 1, o =>
    if o + 15 ≤ stop then
      match tripleAt dec o with
      | some found => some found
      | none => scanTriple dec stop fuel (o + 1)
    else none

def findBlockRoundParent (dec : List UInt8) : Option (UInt32 × UInt32) :=
  scanTriple dec (min dec.length ROUND_SCAN_BYTES) (min dec.length ROUND_SCAN_BYTES) 0

def findBlockRound (dec : List UInt8) : Option UInt32 :=
  (findBlockRoundParent dec).map fun found => found.1

/-! ## 2. Payloads -/

def MAX_DECOMPRESSED_BLOCK : Nat := 4000000

def declaredSizeOk (payload : List UInt8) : Bool :=
  match payload with
  | b0 :: b1 :: b2 :: b3 :: _ => (Word.ofLe b0 b1 b2 b3).toNat ≤ MAX_DECOMPRESSED_BLOCK
  | _ => false

/-- What is assumed of `lz4_flex::block::decompress_size_prepended`: a result is
    the standard decoding of what follows the size prefix, and no longer than the
    prefix declares. -/
structure Lz4Flex (lz4 : Lz4.Decoder) : Prop where
  standard : ∀ payload dec, lz4 payload = some dec → Lz4.decode (payload.drop 4) = some dec
  declared : ∀ b0 b1 b2 b3 rest dec, lz4 (b0 :: b1 :: b2 :: b3 :: rest) = some dec →
    dec.length ≤ (Word.ofLe b0 b1 b2 b3).toNat

/-- A decoder that does what `Lz4Flex` asks for. -/
def decompressSizePrepended : List UInt8 → Option (List UInt8)
  | b0 :: b1 :: b2 :: b3 :: rest =>
    match Lz4.decode rest with
    | some dec => if dec.length ≤ (Word.ofLe b0 b1 b2 b3).toNat then some dec else none
    | none => none
  | _ => none

theorem decompressSizePrepended_eq_some {b0 b1 b2 b3 : UInt8} {rest dec : List UInt8}
    (h : decompressSizePrepended (b0 :: b1 :: b2 :: b3 :: rest) = some dec) :
    Lz4.decode rest = some dec ∧ dec.length ≤ (Word.ofLe b0 b1 b2 b3).toNat := by
  simp only [decompressSizePrepended] at h
  split at h
  · rename_i dec' hdec
    split at h <;> cases h
    rename_i hle
    exact ⟨hdec, hle⟩
  · cases h

theorem lz4Flex_decompressSizePrepended : Lz4Flex decompressSizePrepended where
  standard := by
    intro payload dec h
    rcases payload with _ | ⟨b0, _ | ⟨b1, _ | ⟨b2, _ | ⟨b3, rest⟩⟩⟩⟩
    · cases h
    · cases h
    · cases h
    · cases h
    · exact (decompressSizePrepended_eq_some h).1
  declared := by
    intro b0 b1 b2 b3 rest dec h
    exact (decompressSizePrepended_eq_some h).2

section
variable (lz4 : Lz4.Decoder)

def decompressBlock (payload : List UInt8) : Option (List UInt8) :=
  if !declaredSizeOk payload then none else lz4 payload

def blockRoundFull (payload : List UInt8) : Option UInt32 :=
  match decompressBlock lz4 payload with
  | some dec => findBlockRound dec
  | none => none

/-- The zeroed `buf` of the bounded path. -/
def scanBuf : List UInt8 := List.replicate ROUND_SCAN_BYTES 0

/-- A fault of the bounded decode would be a panic; `lz4FirstN_spec` excludes it. -/
def blockRound (payload : List UInt8) : Option UInt32 :=
  if payload.length < 5 ∨ !declaredSizeOk payload then blockRoundFull lz4 payload
  else
    match lz4FirstN (payload.drop 4) scanBuf with
    | .ok (some n, buf) => findBlockRound (buf.take n)
    | .ok (none, _) => blockRoundFull lz4 payload
    | .error _ => none

def blockRoundParent (payload : List UInt8) : Option (UInt32 × UInt32) :=
  let full :=
    match decompressBlock lz4 payload with
    | some dec => findBlockRoundParent dec
    | none => none
  if 5 ≤ payload.length ∧ declaredSizeOk payload then
    match lz4FirstN (payload.drop 4) scanBuf with
    | .ok (some n, buf) => findBlockRoundParent (buf.take n)
    | .ok (none, _) => full
    | .error _ => none
  else full

/-! ## 3. Failover's view of a frame

`hash` is the process-wide keyed hasher, as a function of the tag and of the
bytes written to it. -/

variable (hash : UInt8 → List UInt8 → UInt64)

def blockHash (frame : List UInt8) : UInt64 :=
  match decompressBlock lz4 (frame.drop 5) with
  | some dec => hash 1 dec
  | none => hash 0 frame

def classify (frame : List UInt8) : Option (UInt32 × UInt32 × UInt64) :=
  if frame.length ≤ 5 ∨ frame.getD 4 0 ≠ 1 then none
  else
    match blockRoundParent lz4 (frame.drop 5) with
    | some (r, p) => some (r, p, blockHash lz4 hash frame)
    | none => none

end

/-! ## 4. What the round of a header is -/

/-- A header triple at `o`: its fifteen bytes are in `dec`, and the second and
    third rounds are the near predecessors of the first and second. -/
structure IsTriple (dec : List UInt8) (o : Nat) (r r1 r2 : UInt32) : Prop where
  bytes : (dec.drop o).take 15 =
    0xfc :: (Word.toLe r ++ 0xfc :: (Word.toLe r1 ++ 0xfc :: Word.toLe r2))
  parent : r1 < r
  parentGap : r.toNat - r1.toNat ≤ 256
  grandparent : r2 < r1
  grandparentGap : r1.toNat - r2.toNat ≤ 256

/-- `(r, r1)` is the first triple of `dec`. -/
def FirstTriple (dec : List UInt8) (r r1 : UInt32) : Prop :=
  ∃ o r2, IsTriple dec o r r1 r2 ∧ ∀ o' < o, ∀ x y z, ¬ IsTriple dec o' x y z

theorem IsTriple.length_le {dec : List UInt8} {o : Nat} {r r1 r2 : UInt32}
    (h : IsTriple dec o r r1 r2) : o + 15 ≤ dec.length := by
  have hlen := congrArg List.length h.bytes
  simp only [List.length_take, List.length_drop, List.length_cons, List.length_append,
    Word.toLe, List.length_nil] at hlen
  omega

/-- The bytes of `dec` from `o` on, one by one. -/
theorem take_drop_eq_getD {dec : List UInt8} {o : Nat} (n : Nat) (h : o + n ≤ dec.length) :
    (dec.drop o).take n = (List.range n).map fun i => dec.getD (o + i) 0 := by
  apply List.ext_getElem
  · rw [List.length_take, List.length_drop, List.length_map, List.length_range]
    omega
  · intro i hi _
    rw [List.length_take, List.length_drop] at hi
    rw [List.getElem_take, List.getElem_drop, List.getElem_map, List.getElem_range,
      List.getD_eq_getElem _ _ (by omega)]

theorem gap_iff {a b : UInt32} (h : b < a) :
    a - b ≤ MAX_PARENT_ROUND_GAP ↔ a.toNat - b.toNat ≤ 256 := by
  rw [UInt32.le_iff_toNat_le, UInt32.toNat_sub_of_le _ _ (le_of_lt h)]
  rfl

theorem tripleAt_eq_some {dec : List UInt8} {o : Nat} {r r1 : UInt32} (h : o + 15 ≤ dec.length) :
    tripleAt dec o = some (r, r1) ↔ ∃ r2, IsTriple dec o r r1 r2 := by
  have hbytes := take_drop_eq_getD 15 h
  simp only [List.range, List.range.loop, List.map_cons, List.map_nil, Nat.add_zero] at hbytes
  constructor
  · intro hsome
    simp only [tripleAt] at hsome
    split at hsome
    · rename_i hmark
      split at hsome
      · rename_i hchain
        simp only [Option.some.injEq, Prod.mk.injEq] at hsome
        obtain ⟨rfl, rfl⟩ := hsome
        refine ⟨rd dec (o + 10), ?_, hchain.1, (gap_iff hchain.1).mp hchain.2.1, hchain.2.2.1,
          (gap_iff hchain.2.2.1).mp hchain.2.2.2⟩
        simp only [hbytes, rd, Word.toLe_ofLe, List.cons_append, List.nil_append, hmark.1,
          hmark.2.1, hmark.2.2, Nat.add_assoc, Nat.reduceAdd]
      · cases hsome
    · cases hsome
  · rintro ⟨r2, htriple⟩
    have heq := hbytes.symm.trans htriple.bytes
    simp only [Word.toLe, List.cons_append, List.nil_append, List.cons.injEq, and_true] at heq
    obtain ⟨m0, a0, a1, a2, a3, m1, b0, b1, b2, b3, m2, c0, c1, c2, c3⟩ := heq
    have hr : rd dec o = r := Word.ofLe_toLe r _ _ _ _ (by rw [a0, a1, a2, a3, Word.toLe])
    have hr1 : rd dec (o + 5) = r1 :=
      Word.ofLe_toLe r1 _ _ _ _ (by simp only [Nat.add_assoc, Nat.reduceAdd, b0, b1, b2, b3, Word.toLe])
    have hr2 : rd dec (o + 10) = r2 :=
      Word.ofLe_toLe r2 _ _ _ _ (by simp only [Nat.add_assoc, Nat.reduceAdd, c0, c1, c2, c3, Word.toLe])
    have hchain : r1 < r ∧ r - r1 ≤ MAX_PARENT_ROUND_GAP ∧ r2 < r1 ∧ r1 - r2 ≤ MAX_PARENT_ROUND_GAP :=
      ⟨htriple.parent, (gap_iff htriple.parent).mpr htriple.parentGap, htriple.grandparent,
        (gap_iff htriple.grandparent).mpr htriple.grandparentGap⟩
    rw [tripleAt, if_pos ⟨m0, m1, m2⟩]
    simp only [hr, hr1, hr2, if_pos hchain]

/-- The scan from `o` on finds the first triple that starts there or later. -/
theorem scanTriple_eq_some (dec : List UInt8) (stop : Nat) {fuel : Nat} {found : UInt32 × UInt32} :
    ∀ {o : Nat}, stop ≤ o + fuel →
      (scanTriple dec stop fuel o = some found ↔
        ∃ o', o ≤ o' ∧ o' + 15 ≤ stop ∧ tripleAt dec o' = some found ∧
          ∀ k, o ≤ k → k < o' → tripleAt dec k = none) := by
  induction fuel with
  | zero =>
    intro o hfuel
    constructor
    · intro h
      cases h
    · rintro ⟨o', hle, hstop, -⟩
      omega
  | succ fuel ih =>
    intro o hfuel
    rw [scanTriple]
    by_cases hstop : o + 15 ≤ stop
    · rw [if_pos hstop]
      rcases hat : tripleAt dec o with _ | here
      · simp only []
        rw [ih (by omega)]
        constructor
        · rintro ⟨o', hle, hend, hfound, hbefore⟩
          refine ⟨o', by omega, hend, hfound, ?_⟩
          intro k hk hk'
          rcases Nat.eq_or_lt_of_le hk with rfl | hlt
          · exact hat
          · exact hbefore k hlt hk'
        · rintro ⟨o', hle, hend, hfound, hbefore⟩
          rcases Nat.eq_or_lt_of_le hle with rfl | hlt
          · rw [hat] at hfound
            cases hfound
          · exact ⟨o', hlt, hend, hfound, fun k hk hk' => hbefore k (by omega) hk'⟩
      · constructor
        · intro h
          exact ⟨o, Nat.le_refl o, hstop, hat.trans h, fun k hk hk' => by omega⟩
        · rintro ⟨o', hle, hend, hfound, hbefore⟩
          rcases Nat.eq_or_lt_of_le hle with rfl | hlt
          · exact hat.symm.trans hfound
          · rw [hbefore o (Nat.le_refl o) hlt] at hat
            cases hat
    · rw [if_neg hstop]
      constructor
      · intro h
        cases h
      · rintro ⟨o', hle, hend, -⟩
        omega

theorem isTriple_take {dec : List UInt8} {n o : Nat} {r r1 r2 : UInt32} (h : o + 15 ≤ n) :
    IsTriple (dec.take n) o r r1 r2 ↔ IsTriple dec o r r1 r2 := by
  have hbytes : ((dec.take n).drop o).take 15 = (dec.drop o).take 15 := by
    rw [List.drop_take, List.take_take, Nat.min_eq_left (by omega)]
  constructor
  · rintro ⟨hb, hp, hpg, hg, hgg⟩
    exact ⟨hbytes.symm.trans hb, hp, hpg, hg, hgg⟩
  · rintro ⟨hb, hp, hpg, hg, hgg⟩
    exact ⟨hbytes.trans hb, hp, hpg, hg, hgg⟩

/-- **The scan finds the first triple of the first 1024 bytes.** -/
theorem findBlockRoundParent_eq_some {dec : List UInt8} {r r1 : UInt32} :
    findBlockRoundParent dec = some (r, r1) ↔ FirstTriple (dec.take ROUND_SCAN_BYTES) r r1 := by
  have hlen : (dec.take ROUND_SCAN_BYTES).length = min dec.length ROUND_SCAN_BYTES := by
    rw [List.length_take, Nat.min_comm]
  -- inside the scanned bytes, a triple of the whole is a triple of the prefix
  have hat : ∀ {o : Nat} {x y : UInt32}, o + 15 ≤ min dec.length ROUND_SCAN_BYTES →
      (tripleAt dec o = some (x, y) ↔ ∃ z, IsTriple (dec.take ROUND_SCAN_BYTES) o x y z) := by
    intro o x y ho
    simp only [isTriple_take (show o + 15 ≤ ROUND_SCAN_BYTES by omega)]
    exact tripleAt_eq_some (by omega)
  unfold findBlockRoundParent FirstTriple
  rw [scanTriple_eq_some dec _ (by omega)]
  constructor
  · rintro ⟨o, -, hend, hfound, hbefore⟩
    obtain ⟨r2, htriple⟩ := (hat hend).mp hfound
    refine ⟨o, r2, htriple, ?_⟩
    intro k hk x y z hk'
    have hnone := hbefore k (Nat.zero_le k) hk
    rw [(hat (by omega)).mpr ⟨z, hk'⟩] at hnone
    cases hnone
  · rintro ⟨o, r2, htriple, hbefore⟩
    have hend := htriple.length_le
    rw [hlen] at hend
    refine ⟨o, Nat.zero_le o, hend, (hat hend).mpr ⟨r2, htriple⟩, ?_⟩
    intro k _ hk
    rcases hk' : tripleAt dec k with _ | ⟨x, y⟩
    · rfl
    · obtain ⟨z, hz⟩ := (hat (by omega)).mp hk'
      exact absurd hz (hbefore k hk x y z)

/-- The scan never looks past the bytes it bounds itself to. -/
theorem findBlockRoundParent_take (dec : List UInt8) :
    findBlockRoundParent (dec.take ROUND_SCAN_BYTES) = findBlockRoundParent dec := by
  apply Option.ext
  rintro ⟨r, r1⟩
  rw [findBlockRoundParent_eq_some, findBlockRoundParent_eq_some, List.take_take, Nat.min_self]

/-! ## 5. The bounded path against the full decode -/

section
variable {lz4 : Lz4.Decoder}

theorem decompressBlock_eq_some {payload dec : List UInt8}
    (h : decompressBlock lz4 payload = some dec) :
    declaredSizeOk payload = true ∧ lz4 payload = some dec := by
  unfold decompressBlock at h
  rcases hok : declaredSizeOk payload with _ | _
  · simp [hok] at h
  · simpa [hok] using h

/-- On a payload that decompresses, the bounded decode leaves the first 1024
    bytes of the block in the buffer. -/
theorem lz4FirstN_of_decompress (hlz4 : Lz4Flex lz4) {payload dec : List UInt8}
    (h : decompressBlock lz4 payload = some dec) :
    ∃ n buf, lz4FirstN (payload.drop 4) scanBuf = .ok (some n, buf) ∧
      buf.take n = dec.take ROUND_SCAN_BYTES := by
  have hstd := hlz4.standard payload dec (decompressBlock_eq_some h).2
  obtain ⟨buf, hrun, hbytes⟩ := lz4FirstN_spec (payload.drop 4) scanBuf
  have hlen : scanBuf.length = ROUND_SCAN_BYTES := List.length_replicate
  rw [hlen, Lz4.decodePrefix_of_decode _ hstd] at hrun hbytes
  exact ⟨_, buf, hrun, hbytes _ rfl⟩

/-- **`block_round_parent` reads the block's own triple.** -/
theorem blockRoundParent_of_decompress (hlz4 : Lz4Flex lz4) {payload dec : List UInt8}
    (h : decompressBlock lz4 payload = some dec) :
    blockRoundParent lz4 payload = findBlockRoundParent dec := by
  obtain ⟨n, buf, hrun, hbytes⟩ := lz4FirstN_of_decompress hlz4 h
  simp only [blockRoundParent, h, hrun, hbytes, findBlockRoundParent_take, ite_self]

theorem blockRoundFull_of_decompress {payload dec : List UInt8}
    (h : decompressBlock lz4 payload = some dec) :
    blockRoundFull lz4 payload = findBlockRound dec := by
  simp only [blockRoundFull, h]

theorem blockRound_of_decompress (hlz4 : Lz4Flex lz4) {payload dec : List UInt8}
    (h : decompressBlock lz4 payload = some dec) :
    blockRound lz4 payload = findBlockRound dec := by
  obtain ⟨n, buf, hrun, hbytes⟩ := lz4FirstN_of_decompress hlz4 h
  simp only [blockRound, blockRoundFull_of_decompress h, hrun, hbytes, findBlockRound,
    findBlockRoundParent_take, ite_self]

/-- A frame's class is a function of its decompressed bytes. -/
theorem classify_of_decompress (hlz4 : Lz4Flex lz4) (hash : UInt8 → List UInt8 → UInt64)
    {frame dec : List UInt8} (htype : frame[4]? = some 1)
    (h : decompressBlock lz4 (frame.drop 5) = some dec) :
    classify lz4 hash frame =
      (findBlockRoundParent dec).map fun found => (found.1, found.2, hash 1 dec) := by
  have hlong : ¬ frame.length ≤ 5 := by
    intro hle
    rw [List.drop_eq_nil_of_le hle] at h
    exact absurd (decompressBlock_eq_some h).1 (by decide)
  have hget : frame.getD 4 0 = 1 := by
    rw [List.getD_eq_getElem?_getD, htype, Option.getD_some]
  rw [classify, if_neg (by rw [hget]; simp [hlong]), blockRoundParent_of_decompress hlz4 h]
  rcases findBlockRoundParent dec with _ | ⟨r, p⟩
  · rfl
  · simp only [blockHash, h, Option.map_some]

end

/-- **The bounded decode agrees with the full decode.**  Whenever a payload
    decompresses, the three round readers see the first valid triple of its first
    1024 bytes, and two block frames with the same decompressed bytes are
    classified alike, however each is compressed. -/
theorem block_round_agrees_with_full_decode (lz4 : Lz4.Decoder)
    (hlz4 : Lz4Flex lz4) (hash : UInt8 → List UInt8 → UInt64) :
    (∀ payload dec, decompressBlock lz4 payload = some dec →
      blockRound lz4 payload = blockRoundFull lz4 payload ∧
      (∀ r, blockRound lz4 payload = some r ↔
        ∃ r1, FirstTriple (dec.take ROUND_SCAN_BYTES) r r1) ∧
      (∀ r r1, blockRoundParent lz4 payload = some (r, r1) ↔
        FirstTriple (dec.take ROUND_SCAN_BYTES) r r1)) ∧
    (∀ f g dec, f[4]? = some 1 → g[4]? = some 1 →
      decompressBlock lz4 (f.drop 5) = some dec → decompressBlock lz4 (g.drop 5) = some dec →
      classify lz4 hash f = classify lz4 hash g) := by
  constructor
  · intro payload dec h
    rw [blockRound_of_decompress hlz4 h, blockRoundFull_of_decompress h,
      blockRoundParent_of_decompress hlz4 h]
    refine ⟨rfl, ?_, fun r r1 => findBlockRoundParent_eq_some⟩
    intro r
    rw [findBlockRound, Option.map_eq_some_iff]
    constructor
    · rintro ⟨⟨x, r1⟩, hfound, rfl⟩
      exact ⟨r1, findBlockRoundParent_eq_some.mp hfound⟩
    · rintro ⟨r1, hfirst⟩
      exact ⟨(r, r1), findBlockRoundParent_eq_some.mpr hfirst, rfl⟩
  · intro f g dec hf hg hfd hgd
    rw [classify_of_decompress hlz4 hash hf hfd, classify_of_decompress hlz4 hash hg hgd]

/-- A header triple for round 300, followed by eight zeros. -/
def header300 : List UInt8 :=
  [0xfc, 44, 1, 0, 0, 0xfc, 43, 1, 0, 0, 0xfc, 42, 1, 0, 0, 0, 0, 0, 0, 0, 0, 0, 0]

/-- `header300` as one run of literals. -/
def literalFrame : List UInt8 := [0, 0, 0, 29, 1, 23, 0, 0, 0, 0xf0, 8] ++ header300

/-- `header300` with its zeros written by an overlapping match. -/
def matchFrame : List UInt8 :=
  [0, 0, 0, 25, 1, 23, 0, 0, 0, 0xf3, 1] ++ header300.take 16 ++ [1, 0, 0]

theorem block_round_agrees_on_two_compressions :
    classify decompressSizePrepended (fun _ bytes => UInt64.ofNat bytes.length) literalFrame =
      classify decompressSizePrepended (fun _ bytes => UInt64.ofNat bytes.length) matchFrame ∧
    blockRound decompressSizePrepended (matchFrame.drop 5) = some 300 ∧
    blockRoundParent decompressSizePrepended (matchFrame.drop 5) = some (300, 299) := by
  have hlit : decompressBlock decompressSizePrepended (literalFrame.drop 5) = some header300 := by
    decide
  have hmatch : decompressBlock decompressSizePrepended (matchFrame.drop 5) = some header300 := by
    decide
  have hfirst : FirstTriple (header300.take ROUND_SCAN_BYTES) 300 299 :=
    ⟨0, 298, ⟨by decide, by decide, by decide, by decide, by decide⟩, fun o ho => by omega⟩
  have hagree := block_round_agrees_with_full_decode decompressSizePrepended
    lz4Flex_decompressSizePrepended (fun _ bytes => UInt64.ofNat bytes.length)
  have hround := hagree.1 _ _ hmatch
  exact ⟨hagree.2 _ _ _ rfl rfl hlit hmatch, (hround.2.1 300).mpr ⟨299, hfirst⟩,
    (hround.2.2 300 299).mpr hfirst⟩

/-- The payload of a block of round `r`: its header triple and eight zeros as one run of
    literals. -/
def blockPayload (r : UInt32) : List UInt8 :=
  [23, 0, 0, 0, 0xf0, 8] ++ (0xfc :: Word.toLe r ++ 0xfc :: Word.toLe (r - 1) ++ 0xfc :: Word.toLe (r - 2)) ++
    List.replicate 8 0

def blockFrame (r : UInt32) : List UInt8 := [0, 0, 0, 29, 1] ++ blockPayload r

end Hypersync.Protocol
