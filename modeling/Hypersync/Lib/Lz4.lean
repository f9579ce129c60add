import Mathlib.Data.List.Basic

/-!
# The LZ4 block format

A block is a list of *sequences*.  A sequence starts with a token byte whose
high nibble is the number of literals and whose low nibble is the match length
less four; a nibble of 15 is continued by extension bytes (255 means "one more
follows").  After the literals come a two-byte little-endian offset and the
match; the last sequence ends with its literals.

* `decode` is the standard decoding: the whole block, or nothing when it is
  malformed.
* `decodePrefix n` stops as soon as `n` bytes are there.
* `decodePrefix_of_decode`: on a well-formed block the bounded decoding is the
  first `n` bytes of the standard one, whatever the shape of the sequences.
* `Consumes` says which sequences have been read: from `acc` decoded bytes to
  `acc'`, with the input cut from the front; `consumes_of_decodePrefix` ties the
  bounded decoding of any input to it, well formed or not.
* `decode_length_le`: a block expands by a factor of at most 255.
-/

namespace Lz4

/-- What a decoder of blocks is: a partial function. -/
abbrev Decoder := List UInt8 → Option (List UInt8)

/-! ## Matches -/

/-- Append `n` bytes, each a copy of the byte `off` positions back; the copy may
    run into the bytes it has just written. -/
def copyMatch (acc : List UInt8) (off : Nat) : Nat → List UInt8
  | 0 => acc
  | n + 1 => copyMatch (acc ++ [acc.getD (acc.length - off) 0]) off n

@[simp] theorem length_copyMatch (off n : Nat) :
    ∀ acc : List UInt8, (copyMatch acc off n).length = acc.length + n := by
  induction n with
  | zero => intro acc; rfl
  | succ n ih =>
    intro acc
    rw [copyMatch, ih]
    simp only [List.length_append, List.length_singleton]
    omega

theorem prefix_copyMatch (off n : Nat) :
    ∀ acc : List UInt8, acc <+: copyMatch acc off n := by
  induction n with
  | zero => intro acc; exact List.prefix_refl acc
  | succ n ih =>
    intro acc
    exact (List.prefix_append acc _).trans (ih _)

/-- A shorter match is a prefix of a longer one. -/
theorem copyMatch_prefix_copyMatch (off : Nat) {k n : Nat} (h : k ≤ n) :
    ∀ acc : List UInt8, copyMatch acc off k <+: copyMatch acc off n := by
  induction k generalizing n with
  | zero => intro acc; exact prefix_copyMatch off n acc
  | succ k ih =>
    intro acc
    obtain ⟨m, rfl⟩ : ∃ m, n = m + 1 := ⟨n - 1, by omega⟩
    exact ih (by omega) _

/-- A match cut short is the match cut to that length. -/
theorem copyMatch_eq_take (off : Nat) {k n : Nat} (h : k ≤ n) (acc : List UInt8) :
    copyMatch acc off k = (copyMatch acc off n).take (acc.length + k) := by
  have hpre := List.prefix_iff_eq_take.mp (copyMatch_prefix_copyMatch off h acc)
  rwa [length_copyMatch] at hpre

/-! ## Length fields -/

/-- The extension bytes of a length: 255 means that another byte follows. -/
def readExt (len : Nat) : List UInt8 → Option (Nat × List UInt8)
  | [] => none
  | b :: rest =>
    if b = 255 then readExt (len + b.toNat) rest else some (len + b.toNat, rest)

/-- A length field: a nibble, extended when it is 15. -/
def readLen (nibble : Nat) (input : List UInt8) : Option (Nat × List UInt8) :=
  if nibble = 15 then readExt nibble input else some (nibble, input)

theorem readExt_spec {input rest : List UInt8} {start len : Nat}
    (h : readExt start input = some (len, rest)) :
    rest.length < input.length ∧ len + 255 * rest.length ≤ start + 255 * input.length := by
  induction input generalizing start with
  | nil => simp [readExt] at h
  | cons b t ih =>
    have hb := b.toNat_lt
    simp only [readExt] at h
    split at h
    · have := ih h
      simp only [List.length_cons]
      omega
    · simp only [Option.some.injEq, Prod.mk.injEq] at h
      obtain ⟨rfl, rfl⟩ := h
      simp only [List.length_cons]
      omega

theorem readLen_spec {input rest : List UInt8} {nibble len : Nat}
    (h : readLen nibble input = some (len, rest)) :
    rest.length ≤ input.length ∧ len + 255 * rest.length ≤ nibble + 255 * input.length := by
  unfold readLen at h
  split at h
  · have := readExt_spec h
    omega
  · simp only [Option.some.injEq, Prod.mk.injEq] at h
    obtain ⟨rfl, rfl⟩ := h
    exact ⟨Nat.le_refl _, Nat.le_refl _⟩

def litNibble (token : UInt8) : Nat := (token >>> 4).toNat

def matchNibble (token : UInt8) : Nat := (token &&& 0x0f).toNat

theorem matchNibble_le (token : UInt8) : matchNibble token ≤ 15 := by
  unfold matchNibble
  rw [UInt8.toNat_and]
  exact Nat.and_le_right

/-! ## Sequences -/

/-- The literals of a sequence, and what follows them. -/
def readLits (token : UInt8) (input : List UInt8) : Option (List UInt8 × List UInt8) :=
  match readLen (litNibble token) input with
  | none => none
  | some (lit, rest) => if rest.length < lit then none else some (rest.take lit, rest.drop lit)

/-- The offset and the length of a sequence's match, and what follows it.  The
    match may reach back over the `avail` bytes decoded so far and no further. -/
def readMatch (token : UInt8) (avail : Nat) : List UInt8 → Option (Nat × Nat × List UInt8)
  | lo :: hi :: rest =>
    if lo.toNat + 256 * hi.toNat = 0 ∨ avail < lo.toNat + 256 * hi.toNat then none
    else
      match readLen (matchNibble token) rest with
      | none => none
      | some (m, next) => some (lo.toNat + 256 * hi.toNat, m + 4, next)
  | _ => none

theorem readLits_spec {token : UInt8} {input lits rest : List UInt8}
    (h : readLits token input = some (lits, rest)) :
    lits.length + rest.length ≤ input.length := by
  unfold readLits at h
  rcases hlen : readLen (litNibble token) input with _ | ⟨lit, rest₀⟩
  · simp [hlen] at h
  have hread := readLen_spec hlen
  simp only [hlen] at h
  split at h
  · cases h
  · simp only [Option.some.injEq, Prod.mk.injEq] at h
    obtain ⟨rfl, rfl⟩ := h
    rw [List.length_take, List.length_drop]
    omega

theorem readMatch_spec {token : UInt8} {avail off len : Nat} {input next : List UInt8}
    (h : readMatch token avail input = some (off, len, next)) :
    next.length + 2 ≤ input.length ∧ len + 255 * next.length ≤ 255 * input.length := by
  rcases input with _ | ⟨lo, _ | ⟨hi, rest⟩⟩
  · cases h
  · cases h
  simp only [readMatch] at h
  split at h
  · cases h
  rcases hm : readLen (matchNibble token) rest with _ | ⟨m, next'⟩
  · simp [hm] at h
  have hread := readLen_spec hm
  have hnib := matchNibble_le token
  simp only [hm, Option.some.injEq, Prod.mk.injEq] at h
  obtain ⟨-, rfl, rfl⟩ := h
  simp only [List.length_cons]
  omega

/-! ## The standard decoding -/

/-- Decode the sequences of `input` behind the bytes `acc` decoded so far.  Every
    sequence takes at least its token, so `fuel` never needs to exceed the length
    of the input. -/
def decodeSeqs : Nat → List UInt8 → List UInt8 → Option (List UInt8)
  | 0, _, _ => none
  | _ + 1, _, [] => none
  | fuel + 1, acc, token :: input =>
    match readLits token input with
    | none => none
    | some (lits, rest) =>
      if rest = [] then some (acc ++ lits)
      else
        match readMatch token (acc ++ lits).length rest with
        | none => none
        | some (off, len, next) => decodeSeqs fuel (copyMatch (acc ++ lits) off len) next

/-- The standard decoding of a block. -/
def decode (input : List UInt8) : Option (List UInt8) := decodeSeqs input.length [] input

/-- What one sequence of a well-formed block does: it ends the block, or it adds
    its literals and its match. -/
theorem decodeSeqs_inv {fuel : Nat} {acc input out : List UInt8}
    (h : decodeSeqs fuel acc input = some out) :
    ∃ f token tail lits rest, fuel = f + 1 ∧ input = token :: tail ∧
      readLits token tail = some (lits, rest) ∧
      ((rest = [] ∧ out = acc ++ lits) ∨
        ∃ off len next, rest ≠ [] ∧
          readMatch token (acc ++ lits).length rest = some (off, len, next) ∧
          decodeSeqs f (copyMatch (acc ++ lits) off len) next = some out) := by
  rcases fuel with _ | f
  · cases h
  rcases input with _ | ⟨token, tail⟩
  · cases h
  simp only [decodeSeqs] at h
  rcases hl : readLits token tail with _ | ⟨lits, rest⟩
  · simp [hl] at h
  simp only [hl] at h
  refine ⟨f, token, tail, lits, rest, rfl, rfl, hl, ?_⟩
  by_cases hrest : rest = []
  · rw [if_pos hrest, Option.some.injEq] at h
    exact Or.inl ⟨hrest, h.symm⟩
  · rw [if_neg hrest] at h
    rcases hm : readMatch token (acc ++ lits).length rest with _ | ⟨off, len, next⟩
    · simp only [hm, reduceCtorEq] at h
    · simp only [hm] at h
      exact Or.inr ⟨off, len, next, hrest, rfl, h⟩

theorem decodeSeqs_spec {fuel : Nat} :
    ∀ {acc input out : List UInt8}, decodeSeqs fuel acc input = some out →
      acc <+: out ∧ out.length ≤ acc.length + 255 * input.length := by
  induction fuel with
  | zero =>
    intro acc input out h
    cases h
  | succ fuel ih =>
    intro acc input out h
    obtain ⟨f, token, tail, lits, rest, hf, rfl, hl, hcase⟩ := decodeSeqs_inv h
    cases hf
    have hlits := readLits_spec hl
    rcases hcase with ⟨-, rfl⟩ | ⟨off, len, next, -, hm, hrec⟩
    · refine ⟨List.prefix_append _ _, ?_⟩
      simp only [List.length_append, List.length_cons]
      omega
    · have hmatch := readMatch_spec hm
      obtain ⟨hpre, hle⟩ := ih hrec
      refine ⟨((List.prefix_append _ _).trans (prefix_copyMatch _ _ _)).trans hpre, ?_⟩
      simp only [length_copyMatch, List.length_append] at hle
      simp only [List.length_cons]
      omega

/-- **Expansion bound.**  A block decodes to at most 255 bytes for each of its own. -/
theorem decode_length_le {input out : List UInt8} (h : decode input = some out) :
    out.length ≤ 255 * input.length := by
  have hle := (decodeSeqs_spec h).2
  rwa [List.length_nil, Nat.zero_add] at hle

/-! ## The bounded decoding -/

/-- Decode until `n` bytes are there, or the input ends. -/
def decodePrefixSeqs (n : Nat) : Nat → List UInt8 → List UInt8 → Option (List UInt8)
  | 0, acc, _ => some acc
  | _ + 1, acc, [] => some acc
  | fuel + 1, acc, token :: input =>
    match readLits token input with
    | none => none
    | some (lits, rest) =>
      if lits ≠ [] ∧ n ≤ (acc ++ lits).length then some ((acc ++ lits).take n)
      else if rest = [] then some (acc ++ lits)
      else
        match readMatch token (acc ++ lits).length rest with
        | none => none
        | some (off, len, next) =>
          if n ≤ (acc ++ lits).length + len then some ((copyMatch (acc ++ lits) off len).take n)
          else decodePrefixSeqs n fuel (copyMatch (acc ++ lits) off len) next

def decodePrefix (n : Nat) (input : List UInt8) : Option (List UInt8) :=
  decodePrefixSeqs n input.length [] input

/-- A prefix that already has `n` bytes has the first `n` bytes of the whole. -/
theorem take_eq_take_of_prefix {l out : List UInt8} {n : Nat} (h : l <+: out) (hn : n ≤ l.length) :
    l.take n = out.take n := by
  obtain ⟨t, rfl⟩ := h
  rw [List.take_append_of_le_length hn]

theorem decodePrefixSeqs_of_decodeSeqs (n : Nat) {fuel : Nat} :
    ∀ {acc input out : List UInt8}, acc.length ≤ n → decodeSeqs fuel acc input = some out →
      decodePrefixSeqs n fuel acc input = some (out.take n) := by
  induction fuel with
  | zero =>
    intro acc input out _ h
    cases h
  | succ fuel ih =>
    intro acc input out hacc h
    obtain ⟨f, token, tail, lits, rest, hf, rfl, hl, hcase⟩ := decodeSeqs_inv h
    cases hf
    simp only [decodePrefixSeqs, hl]
    rcases hcase with ⟨hrest, rfl⟩ | ⟨off, len, next, hrest, hm, hrec⟩
    · by_cases hfull : lits ≠ [] ∧ n ≤ (acc ++ lits).length
      · rw [if_pos hfull]
      · rw [if_neg hfull, if_pos hrest, List.take_of_length_le]
        -- a bound not reached by literals is not reached at all
        by_cases hnil : lits = []
        · rwa [hnil, List.append_nil]
        · have : ¬ n ≤ (acc ++ lits).length := fun hn => hfull ⟨hnil, hn⟩
          omega
    · have hpre := (decodeSeqs_spec hrec).1
      by_cases hfull : lits ≠ [] ∧ n ≤ (acc ++ lits).length
      · rw [if_pos hfull,
          take_eq_take_of_prefix ((prefix_copyMatch _ _ _).trans hpre) hfull.2]
      · rw [if_neg hfull, if_neg hrest]
        simp only [hm]
        by_cases hlen : n ≤ (acc ++ lits).length + len
        · rw [if_pos hlen, take_eq_take_of_prefix hpre (by rwa [length_copyMatch])]
        · rw [if_neg hlen]
          exact ih (by rw [length_copyMatch]; omega) hrec

/-- **The bounded decoding is the standard one, cut.**  It never parses a
    sequence differently from the decoding it stands in for. -/
theorem decodePrefix_of_decode (n : Nat) {input out : List UInt8} (h : decode input = some out) :
    decodePrefix n input = some (out.take n) :=
  decodePrefixSeqs_of_decodeSeqs n (Nat.zero_le n) h

/-! ## Sequences consumed -/

/-- `Consumes acc input acc' rest`: reading sequences off the front of `input`
    leaves `rest` and turns the decoded bytes `acc` into `acc'`.  The last
    sequence read may end behind its literals. -/
inductive Consumes : List UInt8 → List UInt8 → List UInt8 → List UInt8 → Prop where
  | stop (acc input : List UInt8) : Consumes acc input acc input
  | literals {acc input lits rest : List UInt8} {token : UInt8}
      (hlits : readLits token input = some (lits, rest)) :
      Consumes acc (token :: input) (acc ++ lits) rest
  | sequence {acc input lits rest next acc' rest' : List UInt8} {token : UInt8} {off len : Nat}
      (hlits : readLits token input = some (lits, rest))
      (hmatch : readMatch token (acc ++ lits).length rest = some (off, len, next))
      (hnext : Consumes (copyMatch (acc ++ lits) off len) next acc' rest') :
      Consumes acc (token :: input) acc' rest'

theorem consumes_of_decodePrefixSeqs (n : Nat) {fuel : Nat} :
    ∀ {acc input bytes : List UInt8}, acc.length ≤ n → input.length ≤ fuel →
      decodePrefixSeqs n fuel acc input = some bytes →
      ∃ whole rest, Consumes acc input whole rest ∧ bytes = whole.take n ∧
        (n ≤ whole.length ∨ rest = []) := by
  induction fuel with
  | zero =>
    intro acc input bytes hacc hfuel h
    cases h
    refine ⟨acc, input, Consumes.stop acc input, (List.take_of_length_le hacc).symm, Or.inr ?_⟩
    exact List.length_eq_zero_iff.mp (Nat.le_zero.mp hfuel)
  | succ fuel ih =>
    intro acc input bytes hacc hfuel h
    rcases input with _ | ⟨token, input⟩
    · cases h
      exact ⟨acc, [], Consumes.stop acc [], (List.take_of_length_le hacc).symm, Or.inr rfl⟩
    simp only [decodePrefixSeqs] at h
    rcases hlits : readLits token input with _ | ⟨lits, rest⟩
    · simp [hlits] at h
    simp only [hlits] at h
    by_cases hfull : lits ≠ [] ∧ n ≤ (acc ++ lits).length
    · -- the literals fill the buffer
      rw [if_pos hfull] at h
      exact ⟨acc ++ lits, rest, Consumes.literals hlits, (Option.some.inj h).symm, Or.inl hfull.2⟩
    rw [if_neg hfull] at h
    by_cases hrest : rest = []
    · rw [if_pos hrest] at h
      have hle : (acc ++ lits).length ≤ n := by
        by_cases hnil : lits = []
        · rwa [hnil, List.append_nil]
        · have : ¬ n ≤ (acc ++ lits).length := fun hn => hfull ⟨hnil, hn⟩
          omega
      refine ⟨acc ++ lits, rest, Consumes.literals hlits, ?_, Or.inr hrest⟩
      rw [List.take_of_length_le hle]
      exact (Option.some.inj h).symm
    rw [if_neg hrest] at h
    rcases hmatch : readMatch token (acc ++ lits).length rest with _ | ⟨off, len, next⟩
    · simp only [hmatch, reduceCtorEq] at h
    simp only [hmatch] at h
    by_cases hlen : n ≤ (acc ++ lits).length + len
    · -- the match fills the buffer
      rw [if_pos hlen] at h
      refine ⟨copyMatch (acc ++ lits) off len, next,
        Consumes.sequence hlits hmatch (Consumes.stop _ _), (Option.some.inj h).symm, Or.inl ?_⟩
      rwa [length_copyMatch]
    · rw [if_neg hlen] at h
      have hshort : next.length ≤ fuel := by
        have := readLits_spec hlits
        have := readMatch_spec hmatch
        rw [List.length_cons] at hfuel
        omega
      obtain ⟨whole, rest', hcons, hbytes, hend⟩ :=
        ih (by rw [length_copyMatch]; omega) hshort h
      exact ⟨whole, rest', Consumes.sequence hlits hmatch hcons, hbytes, hend⟩

/-- Whatever the input, the bounded decoding is that of the sequences it has
    read, cut; it stops short of the bound only at the end of the input. -/
theorem consumes_of_decodePrefix (n : Nat) {input bytes : List UInt8}
    (h : decodePrefix n input = some bytes) :
    ∃ whole rest, Consumes [] input whole rest ∧ bytes = whole.take n ∧
      (n ≤ whole.length ∨ rest = []) :=
  consumes_of_decodePrefixSeqs n (Nat.zero_le n) (Nat.le_refl _) h

end Lz4
