import Hypersync.Lib.Lz4
import Mathlib.Data.Nat.Bitwise

/-!
# The bounded LZ4 decode of a block header

`lz4_first_n` decodes only as many bytes as its output buffer holds, working on
indices into the input (`ip`) and the output (`op`).  The embedding keeps the
indices: every slice access and every subtraction that Rust checks is a
`Fault` here, so that the absence of a panic is a theorem and not an
assumption of the model.

The loop body is split where the source has its two halves, `literals` and
`copyMatches`; each has one specification, in terms of the format library, and
the loop is shown to compute `Lz4.decodePrefix` by induction on its fuel.
-/

namespace Hypersync.Protocol

/-! ## 1. The decoder as written -/

/-- What Rust would panic on (`outOfFuel` marks a run the model did not finish). -/
inductive Fault where
  | indexOutOfRange
  | subtractOverflow
  | outOfFuel
deriving DecidableEq, Repr

def byteAt (xs : List UInt8) (i : Nat) : Except Fault UInt8 :=
  match xs[i]? with
  | some b => .ok b
  | none => .error .indexOutOfRange

/-- `n - op` on `usize`. -/
def checkedSub (n op : Nat) : Except Fault Nat :=
  if n < op then .error .subtractOverflow else .ok (n - op)

/-- `out[op..op + take].copy_from_slice(&input[ip..ip + take])`. -/
def copyFromSlice (out : List UInt8) (op : Nat) (input : List UInt8) (ip take : Nat) :
    Except Fault (List UInt8) :=
  if out.length < op + take ∨ input.length < ip + take then .error .indexOutOfRange
  else .ok (out.take op ++ (input.drop ip).take take ++ out.drop (op + take))

/-- The `loop` that extends a length: `none` is the early `return None`. -/
def extendLen (input : List UInt8) : Nat → Nat → Nat → Except Fault (Option (Nat × Nat))
  | 0, _, _ => .error .outOfFuel
  | fuel + 1, ip, len =>
    if input.length ≤ ip then .ok none
    else
      match byteAt input ip with
      | .error e => .error e
      | .ok b =>
        if b ≠ 255 then .ok (some (ip + 1, len + b.toNat))
        else extendLen input fuel (ip + 1) (len + b.toNat)

def lenField (input : List UInt8) (nibble ip : Nat) : Except Fault (Option (Nat × Nat)) :=
  if nibble = 15 then extendLen input (input.length + 1 - ip) ip nibble
  else .ok (some (ip, nibble))

/-- Where half a loop body leaves: `return`, or on with new indices and buffer. -/
inductive Flow where
  | ret (result : Option Nat) (out : List UInt8)
  | next (ip op : Nat) (out : List UInt8)
deriving DecidableEq, Repr

/-- The literals of one sequence (`ip` is behind the token). -/
def literals (input : List UInt8) (n : Nat) (token : UInt8) (ip op : Nat) (out : List UInt8) :
    Except Fault Flow :=
  match lenField input (token >>> 4).toNat ip with
  | .error e => .error e
  | .ok none => .ok (.ret none out)
  | .ok (some (ip, lit)) =>
    if 0 < lit then
      if input.length < ip + lit then .ok (.ret none out)
      else
        match checkedSub n op with
        | .error e => .error e
        | .ok left =>
          match copyFromSlice out op input ip (min lit left) with
          | .error e => .error e
          | .ok out =>
            if n ≤ op + min lit left then .ok (.ret (some (op + min lit left)) out)
            else .ok (.next (ip + lit) (op + min lit left) out)
    else .ok (.next ip op out)

/-- `for _ in 0..take { out[op] = out[op - offset]; op += 1; }` -/
def copyBack (offset : Nat) : Nat → Nat → List UInt8 → Except Fault (Nat × List UInt8)
  | 0, op, out => .ok (op, out)
  | take + 1, op, out =>
    match checkedSub op offset with
    | .error e => .error e
    | .ok from_ =>
      match byteAt out from_ with
      | .error e => .error e
      | .ok b =>
        if out.length ≤ op then .error .indexOutOfRange
        else copyBack offset take (op + 1) (out.set op b)

/-- The match of one sequence (`ip` is behind the literals). -/
def copyMatches (input : List UInt8) (n : Nat) (token : UInt8) (ip op : Nat) (out : List UInt8) :
    Except Fault Flow :=
  if input.length ≤ ip then .ok (.ret (some op) out)
  else if input.length < ip + 2 then .ok (.ret none out)
  else
    match byteAt input ip, byteAt input (ip + 1) with
    | .ok lo, .ok hi =>
      let offset := lo.toNat ||| (hi.toNat <<< 8)
      if offset = 0 ∨ op < offset then .ok (.ret none out)
      else
        match lenField input (token &&& 0x0f).toNat (ip + 2) with
        | .error e => .error e
        | .ok none => .ok (.ret none out)
        | .ok (some (ip, mlen)) =>
          match checkedSub n op with
          | .error e => .error e
          | .ok left =>
            match copyBack offset (min (mlen + 4) left) op out with
            | .error e => .error e
            | .ok (op, out) =>
              if n ≤ op then .ok (.ret (some op) out) else .ok (.next ip op out)
    | .error e, _ => .error e
    | _, .error e => .error e

/-- The `while ip < ilen` loop. -/
def lz4Loop (input : List UInt8) (n : Nat) :
    Nat → Nat → Nat → List UInt8 → Except Fault (Option Nat × List UInt8)
  | 0, _, _, _ => .error .outOfFuel
  | fuel + 1, ip, op, out =>
    if input.length ≤ ip then .ok (some op, out)
    else
      match byteAt input ip with
      | .error e => .error e
      | .ok token =>
        match literals input n token (ip + 1) op out with
        | .error e => .error e
        | .ok (.ret r out) => .ok (r, out)
        | .ok (.next ip op out) =>
          match copyMatches input n token ip op out with
          | .error e => .error e
          | .ok (.ret r out) => .ok (r, out)
          | .ok (.next ip op out) => lz4Loop input n fuel ip op out

/-- `lz4_first_n(input, out)`: the bytes produced, and the buffer afterwards. -/
def lz4FirstN (input out : List UInt8) : Except Fault (Option Nat × List UInt8) :=
  lz4Loop input out.length (input.length + 1) 0 0 out

/-! ## 2. What each stage does

The bytes still to be read are `input.drop ip` and the bytes decoded so far are
`out.take op`; in these terms a stage is a function of the format library. -/

theorem byteAt_eq {xs : List UInt8} {i : Nat} {b : UInt8} {t : List UInt8}
    (h : xs.drop i = b :: t) : byteAt xs i = .ok b := by
  have hget : xs[i]? = some b := by
    rw [← List.head?_drop, h, List.head?_cons]
  rw [byteAt, hget]

theorem checkedSub_eq {n op : Nat} (h : op ≤ n) : checkedSub n op = .ok (n - op) :=
  if_neg (Nat.not_lt.mpr h)

/-- The tail of a nonempty rest is the rest one index on. -/
theorem drop_succ_of_cons {xs t : List UInt8} {i : Nat} {b : UInt8} (h : xs.drop i = b :: t) :
    i < xs.length ∧ xs.drop (i + 1) = t := by
  have hlen := congrArg List.length h
  rw [List.length_drop, List.length_cons] at hlen
  refine ⟨by omega, ?_⟩
  rw [← List.drop_drop, h, List.drop_one, List.tail_cons]

theorem extendLen_spec (input : List UInt8) {fuel : Nat} :
    ∀ {ip len : Nat}, ip ≤ input.length → input.length < ip + fuel →
      (Lz4.readExt len (input.drop ip) = none ∧ extendLen input fuel ip len = .ok none) ∨
      ∃ v ip', ip ≤ ip' ∧ ip' ≤ input.length ∧
        Lz4.readExt len (input.drop ip) = some (v, input.drop ip') ∧
        extendLen input fuel ip len = .ok (some (ip', v)) := by
  induction fuel with
  | zero =>
    intro ip len _ hfuel
    omega
  | succ fuel ih =>
    intro ip len hip hfuel
    rcases hrest : input.drop ip with _ | ⟨b, t⟩
    · -- the input ends inside the length
      have hend := List.drop_eq_nil_iff.mp hrest
      exact Or.inl ⟨rfl, by rw [extendLen, if_pos hend]⟩
    obtain ⟨hlt, htail⟩ := drop_succ_of_cons hrest
    rw [extendLen, if_neg (Nat.not_le.mpr hlt), byteAt_eq hrest, Lz4.readExt]
    by_cases hb : b = 255
    · simp only [hb, ne_eq, not_true_eq_false, if_false, if_true]
      rw [← htail]
      rcases ih hlt (by omega) with hnone | ⟨v, ip', hle, hle', hread, hext⟩
      · exact Or.inl hnone
      · exact Or.inr ⟨v, ip', by omega, hle', hread, hext⟩
    · simp only [hb, ne_eq, not_false_eq_true, if_true, if_false]
      exact Or.inr ⟨len + b.toNat, ip + 1, by omega, hlt, by rw [htail], rfl⟩

theorem lenField_spec (input : List UInt8) (nibble : Nat) {ip : Nat} (hip : ip ≤ input.length) :
    (Lz4.readLen nibble (input.drop ip) = none ∧ lenField input nibble ip = .ok none) ∨
    ∃ v ip', ip ≤ ip' ∧ ip' ≤ input.length ∧
      Lz4.readLen nibble (input.drop ip) = some (v, input.drop ip') ∧
      lenField input nibble ip = .ok (some (ip', v)) := by
  unfold Lz4.readLen lenField
  by_cases hnib : nibble = 15
  · rw [if_pos hnib, if_pos hnib]
    exact extendLen_spec input hip (by omega)
  · rw [if_neg hnib, if_neg hnib]
    exact Or.inr ⟨nibble, ip, Nat.le_refl ip, hip, rfl, rfl⟩

/-- `copy_from_slice` of bytes that are there extends the decoded bytes by them. -/
theorem copyFromSlice_spec (out input : List UInt8) (op ip take : Nat)
    (hout : op + take ≤ out.length) (hin : ip + take ≤ input.length) :
    ∃ out', copyFromSlice out op input ip take = .ok out' ∧ out'.length = out.length ∧
      out'.take (op + take) = out.take op ++ (input.drop ip).take take := by
  refine ⟨_, if_neg (by omega), ?_, ?_⟩
  · simp only [List.length_append, List.length_take, List.length_drop]
    omega
  · have hlen : (out.take op ++ (input.drop ip).take take).length = op + take := by
      simp only [List.length_append, List.length_take, List.length_drop]
      omega
    rw [← hlen, List.take_left]

theorem literals_spec (input : List UInt8) (token : UInt8) {ip op : Nat} {out : List UInt8}
    (hip : ip ≤ input.length) (hop : op ≤ out.length) :
    (Lz4.readLits token (input.drop ip) = none ∧
      literals input out.length token ip op out = .ok (.ret none out)) ∨
    ∃ lits ip', ip ≤ ip' ∧ ip' ≤ input.length ∧
      Lz4.readLits token (input.drop ip) = some (lits, input.drop ip') ∧
      ∃ out', out'.length = out.length ∧
        if lits ≠ [] ∧ out.length ≤ (out.take op ++ lits).length then
          literals input out.length token ip op out = .ok (.ret (some out.length) out') ∧
            out' = (out.take op ++ lits).take out.length
        else
          literals input out.length token ip op out = .ok (.next ip' (op + lits.length) out') ∧
            op + lits.length ≤ out.length ∧ out'.take (op + lits.length) = out.take op ++ lits := by
  unfold Lz4.readLits literals
  rcases lenField_spec input (Lz4.litNibble token) hip with ⟨hread, hfield⟩ | hsome
  · rw [hread, show (token >>> 4).toNat = Lz4.litNibble token from rfl, hfield]
    exact Or.inl ⟨rfl, rfl⟩
  obtain ⟨lit, ip', hle, hle', hread, hfield⟩ := hsome
  rw [hread, show (token >>> 4).toNat = Lz4.litNibble token from rfl, hfield]
  simp only [List.length_drop]
  by_cases hshort : input.length - ip' < lit
  · rw [if_pos hshort, if_pos (show 0 < lit by omega), if_pos (show input.length < ip' + lit by omega)]
    exact Or.inl ⟨rfl, rfl⟩
  rw [if_neg hshort]
  refine Or.inr ⟨(input.drop ip').take lit, ip' + lit, by omega, by omega, by rw [List.drop_drop], ?_⟩
  have hlits : ((input.drop ip').take lit).length = lit := by
    rw [List.length_take, List.length_drop]
    omega
  have htake : (out.take op).length = op := List.length_take_of_le hop
  by_cases hpos : 0 < lit
  · have hne : (input.drop ip').take lit ≠ [] := by
      intro hnil
      rw [hnil, List.length_nil] at hlits
      omega
    obtain ⟨out', hcopy, hlen, hbytes⟩ :=
      copyFromSlice_spec out input op ip' (min lit (out.length - op)) (by omega) (by omega)
    refine ⟨out', hlen, ?_⟩
    rw [if_pos hpos, if_neg (show ¬ input.length < ip' + lit by omega), checkedSub_eq hop]
    simp only [hcopy, List.length_append, htake, hlits]
    by_cases hfull : out.length ≤ op + lit
    · rw [if_pos ⟨hne, hfull⟩, if_pos (by omega), show op + min lit (out.length - op) = out.length by omega]
      refine ⟨rfl, ?_⟩
      rw [show op + min lit (out.length - op) = out.length by omega, ← hlen, List.take_length] at hbytes
      rw [hbytes, List.take_append, htake, List.take_take, hlen, List.take_take,
        Nat.min_eq_right hop, Nat.min_comm lit]
    · rw [if_neg (fun h => hfull h.2), if_neg (by omega), show min lit (out.length - op) = lit by omega]
      rw [show min lit (out.length - op) = lit by omega] at hbytes
      exact ⟨rfl, by omega, hbytes⟩
  · have hzero : lit = 0 := by omega
    subst hzero
    refine ⟨out, rfl, ?_⟩
    rw [if_neg (fun h => h.1 rfl), if_neg hpos]
    exact ⟨rfl, hop, by rw [List.take_zero, List.append_nil, List.length_nil, Nat.add_zero]⟩

theorem take_set_succ {out : List UInt8} {op : Nat} (h : op < out.length) (b : UInt8) :
    (out.set op b).take (op + 1) = out.take op ++ [b] := by
  rw [List.take_add_one, List.take_set_of_le (Nat.le_refl op), List.getElem?_set_self h]
  rfl

/-- The match copy, byte by byte, is the format's `copyMatch`. -/
theorem copyBack_spec {offset : Nat} (hpos : 0 < offset) {take : Nat} :
    ∀ {op : Nat} {out : List UInt8}, offset ≤ op → op + take ≤ out.length →
      ∃ out', copyBack offset take op out = .ok (op + take, out') ∧ out'.length = out.length ∧
        out'.take (op + take) = Lz4.copyMatch (out.take op) offset take := by
  induction take with
  | zero =>
    intro op out _ _
    exact ⟨out, rfl, rfl, rfl⟩
  | succ take ih =>
    intro op out hoff hroom
    have hlt : op - offset < out.length := by omega
    have hb : byteAt out (op - offset) = .ok out[op - offset] := by
      rw [byteAt, List.getElem?_eq_getElem hlt]
    obtain ⟨out', hcopy, hlen, hbytes⟩ :=
      ih (show offset ≤ op + 1 by omega)
        (show op + 1 + take ≤ (out.set op out[op - offset]).length by rw [List.length_set]; omega)
    refine ⟨out', ?_, by rw [hlen, List.length_set], ?_⟩
    · rw [copyBack, checkedSub_eq hoff]
      simp only [hb, if_neg (show ¬ out.length ≤ op by omega), hcopy]
      rw [Nat.add_assoc, Nat.add_comm 1]
    · rw [show op + (take + 1) = op + 1 + take by omega, hbytes, Lz4.copyMatch]
      -- the byte read lies before `op`, so it is the one `copyMatch` reads
      have hread : (out.take op).getD ((out.take op).length - offset) 0 = out[op - offset] := by
        rw [List.length_take_of_le (by omega), List.getD_eq_getElem?_getD,
          List.getElem?_take_of_lt (by omega), List.getElem?_eq_getElem hlt, Option.getD_some]
      rw [hread, take_set_succ (by omega)]

theorem offset_eq (lo hi : UInt8) : lo.toNat ||| (hi.toNat <<< 8) = lo.toNat + 256 * hi.toNat := by
  rw [Nat.or_comm, ← Nat.shiftLeft_add_eq_or_of_lt lo.toNat_lt, Nat.shiftLeft_eq]
  omega

theorem copyMatches_nil {input out : List UInt8} {ip : Nat} (n : Nat) (token : UInt8) (op : Nat)
    (h : input.drop ip = []) :
    copyMatches input n token ip op out = .ok (.ret (some op) out) :=
  if_pos (List.drop_eq_nil_iff.mp h)

theorem copyMatches_spec (input : List UInt8) (token : UInt8) {ip op : Nat} {out : List UInt8}
    (hrest : input.drop ip ≠ []) (hop : op ≤ out.length) :
    (Lz4.readMatch token op (input.drop ip) = none ∧
      copyMatches input out.length token ip op out = .ok (.ret none out)) ∨
    ∃ off len ip', ip < ip' ∧ ip' ≤ input.length ∧
      Lz4.readMatch token op (input.drop ip) = some (off, len, input.drop ip') ∧
      ∃ out', out'.length = out.length ∧
        if out.length ≤ op + len then
          copyMatches input out.length token ip op out = .ok (.ret (some out.length) out') ∧
            out' = (Lz4.copyMatch (out.take op) off len).take out.length
        else
          copyMatches input out.length token ip op out = .ok (.next ip' (op + len) out') ∧
            out'.take (op + len) = Lz4.copyMatch (out.take op) off len := by
  rcases hcons : input.drop ip with _ | ⟨lo, tail⟩
  · exact absurd hcons hrest
  obtain ⟨hlt, htail⟩ := drop_succ_of_cons hcons
  unfold copyMatches
  rw [if_neg (Nat.not_le.mpr hlt)]
  rcases tail with _ | ⟨hi, rest⟩
  · -- a single byte is left where an offset needs two
    have := List.drop_eq_nil_iff.mp htail
    rw [if_pos (by omega)]
    exact Or.inl ⟨rfl, rfl⟩
  obtain ⟨hlt', htail'⟩ := drop_succ_of_cons htail
  rw [if_neg (by omega), byteAt_eq hcons, byteAt_eq htail, Lz4.readMatch]
  simp only [offset_eq]
  by_cases hoff : lo.toNat + 256 * hi.toNat = 0 ∨ op < lo.toNat + 256 * hi.toNat
  · rw [if_pos hoff, if_pos hoff]
    exact Or.inl ⟨rfl, rfl⟩
  rw [if_neg hoff, if_neg hoff, ← htail', show (token &&& 0x0f).toNat = Lz4.matchNibble token from rfl]
  rcases lenField_spec input (Lz4.matchNibble token) hlt' with ⟨hread, hfield⟩ | hsome
  · rw [hread, hfield]
    exact Or.inl ⟨rfl, rfl⟩
  obtain ⟨m, ip', hle, hle', hread, hfield⟩ := hsome
  rw [hread, hfield, checkedSub_eq hop]
  obtain ⟨out', hcopy, hlen, hbytes⟩ :=
    copyBack_spec (show 0 < lo.toNat + 256 * hi.toNat by omega)
      (show lo.toNat + 256 * hi.toNat ≤ op by omega)
      (show op + min (m + 4) (out.length - op) ≤ out.length by omega)
  refine Or.inr ⟨_, m + 4, ip', by omega, hle', rfl, out', hlen, ?_⟩
  simp only [hcopy]
  by_cases hfull : out.length ≤ op + (m + 4)
  · have hcut : op + min (m + 4) (out.length - op) = out.length := by omega
    rw [hcut, ← hlen, List.take_length] at hbytes
    rw [if_pos hfull, hcut, if_pos (Nat.le_refl _)]
    refine ⟨rfl, ?_⟩
    rw [hbytes, Lz4.copyMatch_eq_take _ (Nat.min_le_left _ _), hlen,
      List.length_take_of_le hop, hcut]
  · have hwhole : min (m + 4) (out.length - op) = m + 4 := by omega
    rw [hwhole] at hbytes ⊢
    rw [if_neg hfull, if_neg hfull]
    exact ⟨rfl, hbytes⟩

/-! ## 3. The loop -/

/-- A run of the decoder that matches the library's bounded decoding `r`: no
    fault, the same length, and the buffer starts with the decoded bytes. -/
def Produces (run : Except Fault (Option Nat × List UInt8)) (r : Option (List UInt8)) : Prop :=
  ∃ out, run = .ok (r.map List.length, out) ∧ ∀ bytes, r = some bytes → out.take bytes.length = bytes

theorem Produces.done {out bytes : List UInt8} {k : Nat} (hlen : bytes.length = k)
    (htake : out.take k = bytes) : Produces (.ok (some k, out)) (some bytes) := by
  refine ⟨out, by rw [Option.map_some, hlen], ?_⟩
  intro bytes' h
  cases h
  rw [hlen, htake]

theorem Produces.fail (out : List UInt8) : Produces (.ok (none, out)) none := by
  refine ⟨out, rfl, ?_⟩
  intro bytes h
  cases h

theorem lz4Loop_spec (input : List UInt8) (n : Nat) {fuel : Nat} :
    ∀ {ip op : Nat} {out : List UInt8}, ip ≤ input.length → input.length ≤ ip + fuel →
      op ≤ n → out.length = n →
      Produces (lz4Loop input n (fuel + 1) ip op out)
        (Lz4.decodePrefixSeqs n fuel (out.take op) (input.drop ip)) := by
  induction fuel with
  | zero =>
    intro ip op out hip hfuel hop hout
    rw [lz4Loop, if_pos (by omega), Lz4.decodePrefixSeqs]
    exact Produces.done (List.length_take_of_le (by omega)) rfl
  | succ fuel ih =>
    intro ip op out hip hfuel hop hout
    subst hout
    have htake : (out.take op).length = op := List.length_take_of_le hop
    rw [lz4Loop]
    rcases hcons : input.drop ip with _ | ⟨token, tail⟩
    · rw [if_pos (List.drop_eq_nil_iff.mp hcons), Lz4.decodePrefixSeqs]
      exact Produces.done htake rfl
    obtain ⟨hlt, htail⟩ := drop_succ_of_cons hcons
    rw [if_neg (Nat.not_le.mpr hlt), byteAt_eq hcons, Lz4.decodePrefixSeqs, ← htail]
    rcases literals_spec input token hlt hop with ⟨hread, hlits⟩ | hsome
    · simp only [hread, hlits]
      exact Produces.fail out
    obtain ⟨lits, ip₁, hle, hle₁, hread, out₁, hlen₁, hcase⟩ := hsome
    simp only [hread]
    by_cases hfull : lits ≠ [] ∧ out.length ≤ (out.take op ++ lits).length
    · rw [if_pos hfull] at hcase ⊢
      simp only [hcase.1]
      exact Produces.done (List.length_take_of_le hfull.2) (by rw [hcase.2, List.take_take, Nat.min_self])
    rw [if_neg hfull] at hcase ⊢
    obtain ⟨hlits, hop₁, hbytes₁⟩ := hcase
    simp only [hlits]
    have hacc : (out.take op ++ lits).length = op + lits.length := by
      rw [List.length_append, htake]
    by_cases hrest : input.drop ip₁ = []
    · rw [if_pos hrest, copyMatches_nil _ _ _ hrest]
      exact Produces.done hacc hbytes₁
    rw [if_neg hrest, hacc, ← hlen₁]
    rw [← hlen₁] at hop₁
    rcases copyMatches_spec input token hrest hop₁ with ⟨hm, hcopy⟩ | hsome
    · simp only [hm, hcopy]
      exact Produces.fail out₁
    obtain ⟨off, len, ip₂, hlt₂, hle₂, hm, out₂, hlen₂, hcase⟩ := hsome
    rw [hbytes₁] at hcase
    simp only [hm]
    by_cases hfull₂ : out₁.length ≤ op + lits.length + len
    · rw [if_pos hfull₂] at hcase ⊢
      simp only [hcase.1]
      refine Produces.done (List.length_take_of_le ?_) (by rw [hcase.2, List.take_take, Nat.min_self])
      rwa [Lz4.length_copyMatch, hacc]
    · rw [if_neg hfull₂] at hcase ⊢
      simp only [hcase.1]
      -- the next turn starts behind the match, with strictly less input left
      rw [← hcase.2, hlen₁]
      exact ih hle₂ (by omega) (by omega) (hlen₂.trans hlen₁)

/-- **`lz4_first_n` computes the bounded decoding.**  On every input it returns
    without a fault, with the bytes of `Lz4.decodePrefix`. -/
theorem lz4FirstN_spec (input out : List UInt8) :
    Produces (lz4FirstN input out) (Lz4.decodePrefix out.length input) :=
  lz4Loop_spec input out.length (Nat.zero_le _) (by omega) (Nat.zero_le _) rfl

/-- **Hostile input.**  Whatever the bytes, `lz4_first_n` returns: no index leaves
    the input or the buffer and neither `n - op` nor `op - offset` goes below zero.
    The `k` bytes it reports are the decoding of the sequences it has read, cut to
    the buffer, and fewer than the buffer holds only once the input is used up. -/
theorem lz4FirstN_safe (input out : List UInt8) :
    ∃ result out', lz4FirstN input out = .ok (result, out') ∧
      ∀ k, result = some k → k ≤ out.length ∧
        ∃ whole rest, Lz4.Consumes [] input whole rest ∧ out'.take k = whole.take out.length ∧
          k = min out.length whole.length ∧ (k = out.length ∨ rest = []) := by
  obtain ⟨out', hrun, hbytes⟩ := lz4FirstN_spec input out
  refine ⟨_, out', hrun, ?_⟩
  intro k hk
  obtain ⟨bytes, hdecode, rfl⟩ := Option.map_eq_some_iff.mp hk
  obtain ⟨whole, rest, hcons, hcut, hend⟩ := Lz4.consumes_of_decodePrefix out.length hdecode
  have hlen : bytes.length = min out.length whole.length := by
    rw [hcut, List.length_take]
  refine ⟨by omega, whole, rest, hcons, ?_, hlen, ?_⟩
  · rw [hbytes bytes hdecode, hcut]
  · rcases hend with hfull | hrest
    · exact Or.inl (by omega)
    · exact Or.inr hrest

end Hypersync.Protocol
