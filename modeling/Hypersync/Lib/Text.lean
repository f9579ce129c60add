import Mathlib.Data.List.Basic
import Mathlib.Data.List.TakeWhile

/-!
# Plain text: tokens, keys, lines, numbers

Texts are lists of characters.  Here are the readers a program has that scans its
files by hand: the maximal runs of a class of characters, what follows the first
occurrence of a key, and the trimmed lines of a text.  Each comes with the rules that
run it over a text given piece by piece.  The last part is about decimal numbers: the
digits without a leading zero are exactly the texts that numbers are printed as.
-/

namespace Text

/-! ## 1. Tokens -/

section Tokens

variable {α : Type*} (starts inside : α → Bool)

/-- The scan, with the token it is in, if it is in one. -/
def scan : Option (List α) → List α → List (List α)
  | none, [] => []
  | some tok, [] => [tok]
  | none, c :: cs => if starts c then scan (some [c]) cs else scan none cs
  | some tok, c :: cs =>
    if inside c then scan (some (tok ++ [c])) cs
    else tok :: if starts c then scan (some [c]) cs else scan none cs

/-- The tokens of a text: at a character that starts one, the longest run of characters
    inside one; any other character is skipped. -/
def tokens (cs : List α) : List (List α) := scan starts inside none cs

/-- The shape of a token. -/
def IsToken (tok : List α) : Prop := ∃ c cs, tok = c :: cs ∧ starts c ∧ ∀ d ∈ cs, inside d

variable {starts inside}

theorem tokens_skip {gap : List α} (hgap : gap.any starts = false) (rest : List α) :
    tokens starts inside (gap ++ rest) = tokens starts inside rest := by
  induction gap with
  | nil => rfl
  | cons c gap ih =>
    obtain ⟨hc, hgap⟩ := Bool.or_eq_false_iff.mp hgap
    have hstep : tokens starts inside (c :: (gap ++ rest)) = tokens starts inside (gap ++ rest) := by
      simp [tokens, scan, hc]
    rw [List.cons_append, hstep, ih hgap]

theorem scan_some (tok : List α) {cs : List α} (hcs : ∀ c ∈ cs, inside c) (rest : List α) :
    scan starts inside (some tok) (cs ++ rest) = scan starts inside (some (tok ++ cs)) rest := by
  induction cs generalizing tok with
  | nil => simp
  | cons c cs ih =>
    have hc : inside c = true := hcs c List.mem_cons_self
    rw [List.cons_append, scan, if_pos hc, ih _ fun d hd => hcs d (List.mem_cons_of_mem c hd),
      List.append_assoc, List.singleton_append]

/-- A token ends where the first character outside it is. -/
theorem tokens_token {tok : List α} (htok : IsToken starts inside tok) {d : α} (hout : inside d = false)
    (hd : starts d = false) (rest : List α) :
    tokens starts inside (tok ++ d :: rest) = tok :: tokens starts inside rest := by
  obtain ⟨c, cs, rfl, hc, hcs⟩ := htok
  rw [tokens, List.cons_append, scan, if_pos hc, scan_some _ hcs, scan, if_neg (by simp [hout]),
    if_neg (by simp [hd]), List.singleton_append]
  rfl

theorem isToken_of_mem_scan {tok : List α} : ∀ {cs : List α} {cur : Option (List α)},
    (∀ t, cur = some t → IsToken starts inside t) → tok ∈ scan starts inside cur cs →
      IsToken starts inside tok := by
  -- a character that starts a token is one by itself
  have hone : ∀ c, starts c = true → ∀ t, some [c] = some t → IsToken starts inside t := by
    intro c hc t ht
    cases ht
    exact ⟨c, [], rfl, hc, fun d hd => absurd hd List.not_mem_nil⟩
  have hnone : ∀ t, (none : Option (List α)) = some t → IsToken starts inside t := by
    intro t ht
    cases ht
  intro cs
  induction cs with
  | nil =>
    intro cur hcur hmem
    rcases cur with _ | t
    · exact absurd hmem List.not_mem_nil
    · obtain rfl := List.mem_singleton.mp hmem
      exact hcur _ rfl
  | cons c cs ih =>
    -- the same step is made outside a token and right after one
    have hout : tok ∈ (if starts c then scan starts inside (some [c]) cs else scan starts inside none cs) →
        IsToken starts inside tok := by
      intro hmem
      split at hmem
      · next hc => exact ih (hone c hc) hmem
      · exact ih hnone hmem
    intro cur hcur hmem
    rcases cur with _ | t
    · exact hout hmem
    · rw [scan] at hmem
      split at hmem
      · next hin =>
        obtain ⟨d, ds, rfl, hd, hds⟩ := hcur t rfl
        refine ih (fun t' ht' => ?_) hmem
        obtain rfl := Option.some.inj ht'
        refine ⟨d, ds ++ [c], rfl, hd, fun e he => ?_⟩
        rcases List.mem_append.mp he with he | he
        · exact hds e he
        · exact List.mem_singleton.mp he ▸ hin
      · rcases List.mem_cons.mp hmem with rfl | hmem
        · exact hcur _ rfl
        · exact hout hmem

theorem isToken_of_mem {tok cs : List α} (h : tok ∈ tokens starts inside cs) : IsToken starts inside tok :=
  isToken_of_mem_scan (fun t ht => by cases ht) h

end Tokens

/-! ## 2. Keys -/

section Keys

variable {α : Type*} [DecidableEq α]

/-- What follows the first occurrence of a key. -/
def after (key : List α) : List α → Option (List α)
  | [] => if key = [] then some [] else none
  | c :: cs => if key <+: c :: cs then some ((c :: cs).drop key.length) else after key cs

def occurs (key cs : List α) : Bool := (after key cs).isSome

/-- No occurrence of the key starts in the piece, whatever follows it. -/
def apart (key : List α) : List α → Bool
  | [] => true
  | c :: cs => !key.isPrefixOf (c :: cs) && !(c :: cs).isPrefixOf key && apart key cs

variable {k l c : α} {key cs gap : List α}

theorem after_here (key rest : List α) : after key (key ++ rest) = some rest := by
  cases hcs : key ++ rest with
  | nil =>
    obtain ⟨rfl, rfl⟩ := List.append_eq_nil_iff.mp hcs
    rfl
  | cons c cs =>
    have hpre : key <+: c :: cs := hcs ▸ List.prefix_append key rest
    rw [after, if_pos hpre, ← hcs, List.drop_left]

theorem after_skip (h : ¬ key <+: c :: cs) : after key (c :: cs) = after key cs := if_neg h

theorem after_apart (h : apart key gap) (rest : List α) : after key (gap ++ rest) = after key rest := by
  induction gap with
  | nil => rfl
  | cons c gap ih =>
    obtain ⟨hnot, hgap⟩ := Bool.and_eq_true_iff.mp h
    obtain ⟨hkey, hpiece⟩ := Bool.and_eq_true_iff.mp hnot
    rw [Bool.not_eq_true', Bool.eq_false_iff, Ne, List.isPrefixOf_iff_prefix] at hkey hpiece
    rw [List.cons_append, after_skip, ih hgap]
    intro hpre
    -- an occurrence that reaches beyond the piece has the rest of the piece in it
    rcases List.prefix_or_prefix_of_prefix hpre (List.prefix_append (c :: gap) rest) with h | h
    · exact hkey h
    · exact hpiece h

/-- A piece without the first character of the key holds no occurrence. -/
theorem after_gap (hgap : k ∉ gap) (rest : List α) : after (k :: key) (gap ++ rest) = after (k :: key) rest := by
  induction gap with
  | nil => rfl
  | cons c gap ih =>
    obtain ⟨hc, hgap⟩ := not_or.mp (List.mem_cons.not.mp hgap)
    rw [List.cons_append, after_skip fun h => hc (List.cons_prefix_cons.mp h).1]
    exact ih hgap

/-- Nor does the first character of the key before another one than its second. -/
theorem after_turn (h : l ≠ c) (rest : List α) :
    after (k :: l :: key) (k :: c :: rest) = after (k :: l :: key) (c :: rest) :=
  after_skip fun hpre => h (List.cons_prefix_cons.mp (List.cons_prefix_cons.mp hpre).2).1

end Keys

/-! ## 3. Separated parts -/

/-- Two texts up to their first separators. -/
theorem sep_prefix_sep_iff {α : Type*} {x : α} {u v s r : List α} (hu : x ∉ u) (hv : x ∉ v) :
    u ++ x :: s <+: v ++ x :: r ↔ u = v ∧ s <+: r := by
  induction u generalizing v with
  | nil =>
    cases v with
    | nil => simp
    | cons b v =>
      have hb : x ≠ b := fun h => hv (h ▸ List.mem_cons_self)
      simp [hb]
  | cons a u ih =>
    obtain ⟨ha, hu⟩ := not_or.mp (List.mem_cons.not.mp hu)
    cases v with
    | nil => simp [Ne.symm ha]
    | cons b v =>
      obtain ⟨-, hv⟩ := not_or.mp (List.mem_cons.not.mp hv)
      rw [List.cons_append, List.cons_append, List.cons_prefix_cons, ih hu hv, List.cons.injEq, and_assoc]

/-! ## 4. Lines -/

/-- A line without the carriage return at its end. -/
def chomp (line : List Char) : List Char := if line.getLast? = some '\r' then line.dropLast else line

/-- The lines of a text.  Each ends at a newline, with a carriage return before it, or at
    the end of the text, where nothing is not a line. -/
def lines (cs : List Char) : List (List Char) :=
  let parts := cs.splitOn '\n'
  parts.dropLast.map chomp ++ parts.getLast?.toList.filter (· ≠ [])

/-- The characters with the Unicode property White_Space. -/
def isWhitespace (c : Char) : Bool :=
  (9 ≤ c.toNat ∧ c.toNat ≤ 13) ∨ c.toNat = 0x20 ∨ c.toNat = 0x85 ∨ c.toNat = 0xa0 ∨ c.toNat = 0x1680 ∨
    (0x2000 ≤ c.toNat ∧ c.toNat ≤ 0x200a) ∨ c.toNat = 0x2028 ∨ c.toNat = 0x2029 ∨ c.toNat = 0x202f ∨
    c.toNat = 0x205f ∨ c.toNat = 0x3000

def trim (cs : List Char) : List Char :=
  ((cs.dropWhile isWhitespace).reverse.dropWhile isWhitespace).reverse

/-- A text without the characters of a class at both ends. -/
def trimMatches (p : Char → Bool) (cs : List Char) : List Char :=
  ((cs.dropWhile p).reverse.dropWhile p).reverse

/-- Only white space is nothing when trimmed. -/
theorem isWhitespace_of_trim {cs : List Char} (h : trim cs = []) : ∀ c ∈ cs, isWhitespace c := by
  have hback : ∀ c ∈ (cs.dropWhile isWhitespace).reverse, isWhitespace c :=
    List.dropWhile_eq_nil_iff.mp (List.reverse_eq_nil_iff.mp h)
  intro c hc
  rw [← List.takeWhile_append_dropWhile (p := isWhitespace) (l := cs)] at hc
  rcases List.mem_append.mp hc with hc | hc
  · exact List.mem_takeWhile_imp hc
  · exact hback c (List.mem_reverse.mpr hc)

theorem lines_cons {line : List Char} (h : '\n' ∉ line) (rest : List Char) :
    lines (line ++ '\n' :: rest) = chomp line :: lines rest := by
  have hne := List.splitOn_ne_nil '\n' rest
  simp only [lines, List.splitOn_append_cons_self_of_not_mem h, List.dropLast_cons_of_ne_nil hne, List.map_cons,
    List.cons_append, List.getLast?_cons_of_ne_nil hne]

theorem dropWhile_of_none {cs : List Char} (h : ∀ c ∈ cs, isWhitespace c = false) :
    cs.dropWhile isWhitespace = cs := by
  cases cs with
  | nil => rfl
  | cons c cs => rw [List.dropWhile_cons, if_neg (by simp [h c List.mem_cons_self])]

theorem trim_of_none {cs : List Char} (h : ∀ c ∈ cs, isWhitespace c = false) : trim cs = cs := by
  rw [trim, dropWhile_of_none h, dropWhile_of_none fun c hc => h c (List.mem_reverse.mp hc), List.reverse_reverse]

theorem chomp_of_none {cs : List Char} (h : ∀ c ∈ cs, isWhitespace c = false) : chomp cs = cs := by
  refine if_neg fun hlast => ?_
  have hr := h '\r' (List.mem_of_getLast? hlast)
  exact absurd hr (by decide)

/-! ## 5. Decimal numbers -/

/-- A digit text with no zero in front. -/
def Plain (cs : List Char) : Prop := cs.length = 1 ∨ cs.head? ≠ some '0'

instance decidablePlain (cs : List Char) : Decidable (Plain cs) := inferInstanceAs (Decidable (_ ∨ _))

/-- The text is a number's digits, after at most one plus sign. -/
def Numeral (cs : List Char) (n : Nat) : Prop :=
  ∃ digits, (cs = digits ∨ cs = '+' :: digits) ∧ digits ≠ [] ∧ (∀ c ∈ digits, c.isDigit) ∧
    Nat.ofDigitChars 10 digits 0 = n

theorem exists_digitChar {c : Char} (h : c.isDigit) : ∃ d < 10, c = Nat.digitChar d := by
  obtain ⟨hge, hle⟩ := Bool.and_eq_true_iff.mp h
  have hge : 48 ≤ c.toNat := UInt32.le_iff_toNat_le.mp (of_decide_eq_true hge)
  have hle : c.toNat ≤ 57 := UInt32.le_iff_toNat_le.mp (of_decide_eq_true hle)
  refine ⟨c.toNat - 48, by omega, Char.toNat_inj.mp ?_⟩
  rw [Nat.toNat_digitChar_of_lt_ten (by omega)]
  omega

/-- Reading on from a positive number prints on. -/
theorem toDigits_append_digits {cs : List Char} (hd : ∀ c ∈ cs, c.isDigit) {n : Nat} (hn : 0 < n) :
    Nat.toDigits 10 n ++ cs = Nat.toDigits 10 (Nat.ofDigitChars 10 cs n) := by
  induction cs generalizing n with
  | nil => simp
  | cons c cs ih =>
    obtain ⟨d, hlt, rfl⟩ := exists_digitChar (hd c List.mem_cons_self)
    have hone : Nat.toDigits 10 n ++ [d.digitChar] = Nat.toDigits 10 (10 * n + d) := by
      rw [← Nat.toDigits_append_toDigits (by decide) hn hlt, Nat.toDigits_of_lt_base hlt]
    rw [Nat.ofDigitChars_cons_digitChar_of_lt_ten hlt, ← ih (fun e he => hd e (List.mem_cons_of_mem _ he)) (by omega),
      ← hone, List.append_assoc, List.singleton_append]

/-- **Digits with no zero in front are what their number is printed as.** -/
theorem toDigits_ofDigitChars {cs : List Char} (hd : ∀ c ∈ cs, c.isDigit) (hne : cs ≠ []) (hplain : Plain cs) :
    Nat.toDigits 10 (Nat.ofDigitChars 10 cs 0) = cs := by
  obtain ⟨c, cs, rfl⟩ := List.exists_cons_of_ne_nil hne
  obtain ⟨d, hlt, rfl⟩ := exists_digitChar (hd c List.mem_cons_self)
  rw [Nat.ofDigitChars_cons_digitChar_of_lt_ten hlt, Nat.mul_zero, Nat.zero_add]
  rcases Nat.eq_zero_or_pos d with rfl | hpos
  · rcases hplain with hone | hhead
    · obtain rfl := List.eq_nil_of_length_eq_zero (Nat.succ.inj hone)
      rfl
    · exact absurd rfl hhead
  · rw [← toDigits_append_digits (fun e he => hd e (List.mem_cons_of_mem _ he)) hpos, Nat.toDigits_of_lt_base hlt,
      List.singleton_append]

theorem head?_toDigits {n : Nat} (hn : 0 < n) : (Nat.toDigits 10 n).head? ≠ some '0' := by
  induction n using Nat.strongRecOn with
  | ind n ih =>
    rw [Nat.toDigits_eq_if (by decide)]
    split
    · simp [Nat.ne_of_gt hn]
    · next hge =>
      rw [List.head?_append_of_ne_nil _ Nat.toDigits_ne_nil]
      exact ih (n / 10) (by omega) (by omega)

theorem plain_toDigits (n : Nat) : Plain (Nat.toDigits 10 n) := by
  rcases Nat.eq_zero_or_pos n with rfl | hn
  · exact Or.inl rfl
  · exact Or.inr (head?_toDigits hn)

theorem isDigit_toDigits {n : Nat} {c : Char} (h : c ∈ Nat.toDigits 10 n) : c.isDigit :=
  Nat.isDigit_of_mem_toDigits (by decide) (by decide) h

end Text
