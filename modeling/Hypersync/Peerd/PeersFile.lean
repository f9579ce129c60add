import Hypersync.Addresses
import Hypersync.Lib.Fresh
import Mathlib.Data.Finset.Lattice.Lemmas

/-!
# The files peerd shares with the gateway

peerd writes its pool to `peers.json` and its candidates, one a line, to
`peer_candidates.txt`.  Both are read back by hand.  The reader of the first is a bare
scan for tokens that look like an address, over the whole text and with no regard to
its structure; it also reads the files of a node's statistics.  The theorem of this
module says that what was written is what is read: the pool in its order, the tip,
whether the pool can be trusted, and the set of candidates.
-/

namespace Hypersync.Peerd

/-! ## 1. Address texts -/

def U32_MAX : Nat := 4294967295

/-- `str::parse` into an unsigned type with the maximum `max`: digits, after at most one
    plus sign. -/
def parseUnsigned (max : Nat) (cs : List Char) : Option Nat :=
  let digits := if cs.head? = some '+' then cs.tail else cs
  if digits ≠ [] ∧ digits.all Char.isDigit ∧ decimal digits ≤ max then some (decimal digits) else none

/-- The test `is_ipv4` makes of one part.  The source measures it in bytes; a part with a
    character of more than one byte is not a number, whatever its length. -/
def isOctet (p : List Char) : Bool :=
  p ≠ [] ∧ p.length ≤ 3 ∧ (parseUnsigned U32_MAX p).any fun n => n ≤ 255

def isIpv4 (s : String) : Bool :=
  let parts := s.toList.splitOn '.'
  parts.all isOctet && parts.length == 4

/-- The starts that `is_routable` refuses. -/
def UNROUTABLE : List String := ["0.", "127.", "10.", "192.168.", "169.254.", "255."]

def isRoutable (s : String) : Bool :=
  if UNROUTABLE.any fun start => start.toList.isPrefixOf s.toList then false
  else
    match s.toList.dropPrefix? "172.".toList with
    | some rest =>
      match (rest.splitOn '.').head?.bind (parseUnsigned 255) with
      | some oct => !decide (16 ≤ oct ∧ oct ≤ 31)
      | none => true
    | none => true

def digitOrDot (c : Char) : Bool := c.isDigit || c == '.'

def extractIpv4 (s : String) : List String :=
  ((Text.tokens Char.isDigit digitOrDot s.toList).map String.ofList).filter fun tok => isIpv4 tok && isRoutable tok

/-! ## 2. The readers -/

/-- `read_node_peers`, given the texts of the files that could be read: the first
    occurrence of each address. -/
def readNodePeers (files : List String) : List String :=
  Fresh.pushAll [] (files.flatMap extractIpv4)

def extractRoundTip (contents : String) : Option UInt32 :=
  match Text.after "\"round_tip\":".toList contents.toList with
  | none => none
  | some rest => (parseUnsigned U32_MAX (rest.takeWhile Char.isDigit)).map UInt32.ofNat

def previousPeerPoolIsTrusted (contents : String) : Bool :=
  !Text.occurs "\"candidate_fallback\":true".toList contents.toList && !(extractIpv4 contents).isEmpty

def parsePeerCandidates (contents : String) : Finset String :=
  (((Text.lines contents.toList).map fun l => String.ofList (Text.trim l)).filter
    fun l => isIpv4 l && isRoutable l).toFinset

/-! ## 3. The writers -/

/-- `format_peer_candidates`, the set given in the order of its iteration. -/
def formatPeerCandidates (candidates : List String) : String :=
  candidates.foldl (fun out ip => out ++ ip ++ "\n") ""

/-- The text of `peers.json`. -/
def peersJson (pool : List String) (totalCandidates : Nat) (roundTip : Option UInt32) : String :=
  let roundTipJson := (roundTip.map fun round => toString round.toNat).getD "null"
  "\x7b\"live_servers\":[" ++ ",".intercalate (pool.map fun ip => "\"" ++ ip ++ "\"") ++
    "],\"n_candidates\":" ++ toString totalCandidates ++ ",\"round_tip\":" ++ roundTipJson ++
    ",\"candidate_fallback\":false\x7d"

example : peersJson ["9.9.9.9", "8.8.8.8"] 3 none =
    "\x7b\"live_servers\":[\"9.9.9.9\",\"8.8.8.8\"],\"n_candidates\":3,\"round_tip\":null," ++
      "\"candidate_fallback\":false\x7d" := by
  decide

example : readNodePeers ["Ip(172.64.1.2) at 17.5", "lan 10.0.0.3 172.64.1.2"] = ["172.64.1.2"] := by decide

/-! ## 4. Peers -/

/-- What `extract_ipv4` returns: digits and dots that read as a routable address. -/
structure IsPeer (s : String) : Prop where
  chars : ∀ c ∈ s.toList, digitOrDot c
  ipv4 : isIpv4 s
  routable : isRoutable s

theorem isPeer_of_mem_extractIpv4 {text s : String} (h : s ∈ extractIpv4 text) : IsPeer s := by
  obtain ⟨hmem, hboth⟩ := List.mem_filter.mp h
  obtain ⟨tok, htok, rfl⟩ := List.mem_map.mp hmem
  obtain ⟨hipv4, hroutable⟩ := Bool.and_eq_true_iff.mp hboth
  obtain ⟨c, cs, rfl, hc, hcs⟩ := Text.isToken_of_mem htok
  refine ⟨fun d hd => ?_, hipv4, hroutable⟩
  rw [String.toList_ofList] at hd
  rcases List.mem_cons.mp hd with rfl | hd
  · exact Bool.or_eq_true_iff.mpr (Or.inl hc)
  · exact hcs d hd

theorem isOctet_ne_nil {p : List Char} (h : isOctet p) : p ≠ [] := (of_decide_eq_true h).1

theorem isOctet_of_mem_splitOn {s : String} (h : isIpv4 s) {p : List Char} (hp : p ∈ s.toList.splitOn '.') :
    isOctet p :=
  List.all_eq_true.mp (Bool.and_eq_true_iff.mp h).1 p hp

namespace IsPeer

variable {s : String}

/-- A peer does not start with a dot, so the scan starts a token there. -/
theorem isToken (h : IsPeer s) : Text.IsToken Char.isDigit digitOrDot s.toList := by
  have hparts := fun p hp => isOctet_ne_nil (isOctet_of_mem_splitOn h.ipv4 (p := p) hp)
  have hchars := h.chars
  revert hparts hchars
  cases s.toList with
  | nil => exact fun hparts _ => absurd rfl (hparts [] List.mem_cons_self)
  | cons c cs =>
    intro hparts hchars
    have hdot : c ≠ '.' := by
      rintro rfl
      refine hparts [] ?_ rfl
      rw [← List.nil_append ('.' :: cs), List.splitOn_append_cons_self_of_not_mem List.not_mem_nil]
      exact List.mem_cons_self
    refine ⟨c, cs, rfl, ?_, fun d hd => hchars d (List.mem_cons_of_mem c hd)⟩
    rcases Bool.or_eq_true_iff.mp (hchars c List.mem_cons_self) with h | h
    · exact h
    · exact absurd (beq_iff_eq.mp h) hdot

theorem not_mem (h : IsPeer s) {c : Char} (hc : digitOrDot c = false) : c ∉ s.toList := by
  intro hmem
  rw [h.chars c hmem] at hc
  cases hc

end IsPeer

theorem parseUnsigned_eq_some_iff {max n : Nat} {cs : List Char} :
    parseUnsigned max cs = some n ↔
      ∃ digits, digits = (if cs.head? = some '+' then cs.tail else cs) ∧ digits ≠ [] ∧ digits.all Char.isDigit ∧
        decimal digits = n ∧ n ≤ max := by
  simp only [parseUnsigned]
  generalize (if cs.head? = some '+' then cs.tail else cs) = digits
  constructor
  · intro h
    split at h
    · next hdigits =>
      cases h
      exact ⟨digits, rfl, hdigits.1, hdigits.2.1, rfl, hdigits.2.2⟩
    · cases h
  · rintro ⟨_, rfl, hne, hall, rfl, hle⟩
    exact if_pos ⟨hne, hall, hle⟩

theorem parseUnsigned_digits {max : Nat} {cs : List Char} (hd : ∀ c ∈ cs, c.isDigit) (hne : cs ≠ [])
    (hle : decimal cs ≤ max) : parseUnsigned max cs = some (decimal cs) := by
  have hsign : cs.head? ≠ some '+' := fun h => absurd (hd '+' (List.mem_of_head? h)) (by decide)
  exact parseUnsigned_eq_some_iff.mpr ⟨cs, (if_neg hsign).symm, hne, List.all_eq_true.mpr hd, rfl, hle⟩

theorem parseUnsigned_toDigits {max n : Nat} (hle : n ≤ max) : parseUnsigned max (Nat.toDigits 10 n) = some n := by
  have h := decimal_toDigits n
  rw [parseUnsigned_digits (fun c hc => Text.isDigit_toDigits hc) Nat.toDigits_ne_nil (h.symm ▸ hle), h]

theorem isOctet_toDigits (octet : UInt8) : isOctet (Nat.toDigits 10 octet.toNat) := by
  have hle : octet.toNat ≤ 255 := Nat.le_of_lt_succ octet.toNat_lt
  refine decide_eq_true ⟨Nat.toDigits_ne_nil, length_octet_le octet, ?_⟩
  rw [parseUnsigned_toDigits (Nat.le_trans hle (by decide)), Option.any_some]
  exact decide_eq_true hle

theorem isIpv4_toString (ip : Ipv4Addr) : isIpv4 ip.toString := by
  rw [isIpv4, Ipv4Addr.splitOn_toString]
  simp only [Ipv4Addr.parts, List.all_cons, isOctet_toDigits, List.all_nil, Bool.and_true]
  rfl

/-- The printed form of a routable address. -/
theorem isPeer_toString {ip : Ipv4Addr} (h : isRoutable ip.toString) : IsPeer ip.toString := by
  refine ⟨fun c hc => ?_, isIpv4_toString ip, h⟩
  rcases Ipv4Addr.mem_toString hc with hc | rfl
  · exact Bool.or_eq_true_iff.mpr (Or.inl hc)
  · rfl

/-! ## 5. The pool file, piece by piece -/

def JSON_OPEN : List Char := "\x7b\"live_servers\":[".toList

def JSON_CANDIDATES : List Char := "],\"n_candidates\":".toList

def JSON_TIP : List Char := ",\"round_tip\":".toList

def JSON_CLOSE : List Char := ",\"candidate_fallback\":false\x7d".toList

def quotedPool (pool : List String) : List Char :=
  [','].intercalate (pool.map fun ip => '"' :: ip.toList ++ ['"'])

def tipText (tip : Option UInt32) : List Char :=
  (tip.map fun round => Nat.toDigits 10 round.toNat).getD "null".toList

/-- Four fixed pieces around the pool and the two numbers. -/
theorem toList_peersJson (pool : List String) (n : Nat) (tip : Option UInt32) :
    (peersJson pool n tip).toList =
      JSON_OPEN ++ (quotedPool pool ++ (JSON_CANDIDATES ++ (Nat.toDigits 10 n ++ (JSON_TIP ++
        (tipText tip ++ JSON_CLOSE))))) := by
  have hpool : (pool.map fun ip => "\"" ++ ip ++ "\"").map String.toList =
      pool.map fun ip => '"' :: ip.toList ++ ['"'] := by
    rw [List.map_map]
    refine List.map_congr_left fun ip _ => ?_
    simp
  have htip : ((tip.map fun round => toString round.toNat).getD "null").toList = tipText tip := by
    rcases tip with _ | round
    · rfl
    · simp [tipText]
  unfold peersJson
  simp only [String.toList_append, String.toList_intercalate, List.append_assoc]
  rw [hpool, htip, Nat.toString_eq_repr, Nat.toList_repr]
  rfl

theorem quotedPool_cons (ip : String) (pool : List String) :
    ∃ sep : List Char, (sep = [] ∧ pool = [] ∨ sep = [',']) ∧
      quotedPool (ip :: pool) = '"' :: ip.toList ++ '"' :: sep ++ quotedPool pool := by
  rcases pool with _ | ⟨next, pool⟩
  · exact ⟨[], Or.inl ⟨rfl, rfl⟩, by simp [quotedPool]⟩
  · exact ⟨[','], Or.inr rfl, by simp [quotedPool, List.intercalate]⟩

theorem tokens_quotedPool {pool : List String} (h : ∀ ip ∈ pool, IsPeer ip) (rest : List Char) :
    Text.tokens Char.isDigit digitOrDot (quotedPool pool ++ rest) =
      pool.map String.toList ++ Text.tokens Char.isDigit digitOrDot rest := by
  induction pool with
  | nil => rfl
  | cons ip pool ih =>
    have hip := h ip List.mem_cons_self
    have hquote : ['"'].any Char.isDigit = false := by decide
    obtain ⟨sep, hor, heq⟩ := quotedPool_cons ip pool
    have hsep : sep.any Char.isDigit = false := by
      rcases hor with ⟨rfl, -⟩ | rfl
      · decide
      · decide
    have hshape : quotedPool (ip :: pool) ++ rest =
        ['"'] ++ (ip.toList ++ '"' :: (sep ++ (quotedPool pool ++ rest))) := by
      rw [heq]
      simp
    rw [hshape, Text.tokens_skip hquote, Text.tokens_token hip.isToken (by decide) (by decide),
      Text.tokens_skip hsep, ih fun ip' hip' => h ip' (List.mem_cons_of_mem ip hip')]
    rfl

/-- A quoted key is not in the pool: a quote there stands before a digit, a comma or the
    closing bracket. -/
theorem after_quotedPool {pool : List String} (h : ∀ ip ∈ pool, IsPeer ip) {l : Char} {key : List Char}
    (hdigit : l.isDigit = false) (hcomma : l ≠ ',') (hclose : l ≠ ']') (rest : List Char) :
    Text.after ('"' :: l :: key) (quotedPool pool ++ ']' :: rest) = Text.after ('"' :: l :: key) (']' :: rest) := by
  induction pool with
  | nil => rfl
  | cons ip pool ih =>
    have hip := h ip List.mem_cons_self
    obtain ⟨c, cs, hcs, hc, -⟩ := hip.isToken
    have hne : l ≠ c := by
      rintro rfl
      rw [hc] at hdigit
      cases hdigit
    have hquote : '"' ∉ ip.toList := hip.not_mem (by decide)
    obtain ⟨sep, hor, heq⟩ := quotedPool_cons ip pool
    have hshape : quotedPool (ip :: pool) ++ ']' :: rest =
        '"' :: (ip.toList ++ '"' :: (sep ++ (quotedPool pool ++ ']' :: rest))) := by
      rw [heq]
      simp
    have hopen (tail : List Char) :
        Text.after ('"' :: l :: key) ('"' :: (ip.toList ++ tail)) = Text.after ('"' :: l :: key) tail := by
      rw [hcs, List.cons_append, Text.after_turn hne, ← List.cons_append, ← hcs, Text.after_gap hquote]
    have ih := ih fun ip' hip' => h ip' (List.mem_cons_of_mem ip hip')
    rw [hshape, hopen, ← ih]
    rcases hor with ⟨rfl, rfl⟩ | rfl
    · -- the last address: its closing quote stands before the bracket
      exact Text.after_turn hclose rest
    · rw [List.singleton_append, Text.after_turn hcomma]
      exact Text.after_gap (by decide : '"' ∉ [',']) _

/-- Nor is a key before the tip if the fixed pieces do not hold it. -/
theorem after_peersJson {pool : List String} (h : ∀ ip ∈ pool, IsPeer ip) (n : Nat) (tip : Option UInt32)
    {l : Char} {key : List Char} (hdigit : l.isDigit = false) (hcomma : l ≠ ',') (hclose : l ≠ ']')
    (hopen : Text.apart ('"' :: l :: key) JSON_OPEN) (hcandidates : Text.apart ('"' :: l :: key) JSON_CANDIDATES) :
    Text.after ('"' :: l :: key) (peersJson pool n tip).toList =
      Text.after ('"' :: l :: key) (JSON_TIP ++ (tipText tip ++ JSON_CLOSE)) := by
  have hnumber : '"' ∉ Nat.toDigits 10 n := fun hmem => absurd (Text.isDigit_toDigits hmem) (by decide)
  have hbracket : JSON_CANDIDATES = ']' :: ",\"n_candidates\":".toList := by decide
  rw [toList_peersJson, Text.after_apart hopen, hbracket, List.cons_append, after_quotedPool h hdigit hcomma hclose,
    ← List.cons_append, ← hbracket, Text.after_apart hcandidates, Text.after_gap hnumber]

theorem quote_not_mem_tipText (tip : Option UInt32) : '"' ∉ tipText tip := by
  rcases tip with _ | round
  · decide
  · exact fun hmem => absurd (Text.isDigit_toDigits hmem) (by decide)

/-! ## 6. Reading back -/

/-- Both readers keep the characters of a peer. -/
theorem filter_peers {pool : List String} (h : ∀ ip ∈ pool, IsPeer ip) :
    ((pool.map String.toList).map String.ofList).filter (fun tok => isIpv4 tok && isRoutable tok) = pool := by
  have hback : (pool.map String.toList).map String.ofList = pool := by
    rw [List.map_map]
    exact (List.map_congr_left fun ip _ => String.ofList_toList).trans (List.map_id pool)
  rw [hback]
  exact List.filter_eq_self.mpr fun ip hip => Bool.and_eq_true_iff.mpr ⟨(h ip hip).ipv4, (h ip hip).routable⟩

theorem isIpv4_of_no_dot {tok : List Char} (h : '.' ∉ tok) : isIpv4 (String.ofList tok) = false := by
  rw [isIpv4, String.toList_ofList, List.splitOn_eq_singleton h]
  exact Bool.and_false _

/-- A number followed by a comma is a token of its own. -/
theorem tokens_toDigits (n : Nat) (rest : List Char) :
    Text.tokens Char.isDigit digitOrDot (Nat.toDigits 10 n ++ ',' :: rest) =
      Nat.toDigits 10 n :: Text.tokens Char.isDigit digitOrDot rest := by
  refine Text.tokens_token ?_ (by decide) (by decide) rest
  obtain ⟨c, cs, hcs⟩ := List.exists_cons_of_ne_nil (Nat.toDigits_ne_nil (n := n) (b := 10))
  have hdigit : ∀ d ∈ c :: cs, d.isDigit := fun d hd => Text.isDigit_toDigits (hcs ▸ hd)
  refine ⟨c, cs, hcs, hdigit c List.mem_cons_self, fun d hd => ?_⟩
  exact Bool.or_eq_true_iff.mpr (Or.inl (hdigit d (List.mem_cons_of_mem c hd)))

theorem tokens_no_digit {cs : List Char} (h : cs.any Char.isDigit = false) :
    Text.tokens Char.isDigit digitOrDot cs = [] := by
  rw [← List.append_nil cs, Text.tokens_skip h]
  rfl

theorem tokens_tip (tip : Option UInt32) :
    ∀ tok ∈ Text.tokens Char.isDigit digitOrDot (tipText tip ++ JSON_CLOSE), '.' ∉ tok := by
  rcases tip with _ | round
  · rw [tokens_no_digit (by decide : (tipText none ++ JSON_CLOSE).any Char.isDigit = false)]
    exact fun tok htok => absurd htok List.not_mem_nil
  · have hcomma : JSON_CLOSE = ',' :: "\"candidate_fallback\":false\x7d".toList := by decide
    intro tok htok
    rw [hcomma, tipText, Option.map_some, Option.getD_some, tokens_toDigits, tokens_no_digit (by decide)] at htok
    obtain rfl := List.mem_singleton.mp htok
    exact fun hdot => absurd (Text.isDigit_toDigits hdot) (by decide)

/-- The tokens of `peers.json` are the pool, then numbers. -/
theorem tokens_peersJson {pool : List String} (h : ∀ ip ∈ pool, IsPeer ip) (n : Nat) (tip : Option UInt32) :
    ∃ numbers : List (List Char), (∀ tok ∈ numbers, '.' ∉ tok) ∧
      Text.tokens Char.isDigit digitOrDot (peersJson pool n tip).toList = pool.map String.toList ++ numbers := by
  refine ⟨Nat.toDigits 10 n :: Text.tokens Char.isDigit digitOrDot (tipText tip ++ JSON_CLOSE), ?_, ?_⟩
  · intro tok htok hdot
    rcases List.mem_cons.mp htok with rfl | htok
    · exact absurd (Text.isDigit_toDigits hdot) (by decide)
    · exact tokens_tip tip tok htok hdot
  · have hcomma : JSON_TIP = ',' :: "\"round_tip\":".toList := by decide
    rw [toList_peersJson, Text.tokens_skip (by decide), tokens_quotedPool h, Text.tokens_skip (by decide), hcomma,
      List.cons_append, tokens_toDigits, Text.tokens_skip (by decide)]

theorem extractIpv4_peersJson {pool : List String} (h : ∀ ip ∈ pool, IsPeer ip) (n : Nat) (tip : Option UInt32) :
    extractIpv4 (peersJson pool n tip) = pool := by
  obtain ⟨numbers, hnumbers, htokens⟩ := tokens_peersJson h n tip
  have hdrop : (numbers.map String.ofList).filter (fun tok => isIpv4 tok && isRoutable tok) = [] := by
    refine List.filter_eq_nil_iff.mpr fun s hs => ?_
    obtain ⟨tok, htok, rfl⟩ := List.mem_map.mp hs
    rw [isIpv4_of_no_dot (hnumbers tok htok), Bool.false_and]
    exact Bool.false_ne_true
  rw [extractIpv4, htokens, List.map_append, List.filter_append, filter_peers h, hdrop, List.append_nil]

/-- The deduplication has nothing to do. -/
theorem readNodePeers_peersJson {pool : List String} (h : ∀ ip ∈ pool, IsPeer ip) (hnodup : pool.Nodup) (n : Nat)
    (tip : Option UInt32) : readNodePeers [peersJson pool n tip] = pool := by
  rw [readNodePeers, List.flatMap_singleton, extractIpv4_peersJson h]
  have hfresh : ([] ++ pool).Nodup := hnodup
  exact Fresh.pushAll_of_nodup hfresh

theorem extractRoundTip_peersJson {pool : List String} (h : ∀ ip ∈ pool, IsPeer ip) (n : Nat)
    (tip : Option UInt32) : extractRoundTip (peersJson pool n tip) = tip := by
  have hkey : "\"round_tip\":".toList = '"' :: 'r' :: "ound_tip\":".toList := by decide
  have hhere : JSON_TIP = [','] ++ ('"' :: 'r' :: "ound_tip\":".toList) := by decide
  have hafter : Text.after "\"round_tip\":".toList (peersJson pool n tip).toList =
      some (tipText tip ++ JSON_CLOSE) := by
    rw [hkey, after_peersJson h n tip (by decide) (by decide) (by decide) (by decide) (by decide), hhere,
      List.append_assoc, Text.after_gap (by decide), Text.after_here]
  rw [extractRoundTip, hafter]
  rcases tip with _ | round
  · decide
  · have hdigits : (tipText (some round) ++ JSON_CLOSE).takeWhile Char.isDigit = Nat.toDigits 10 round.toNat := by
      rw [tipText, Option.map_some, Option.getD_some,
        List.takeWhile_append_of_pos fun c hc => Text.isDigit_toDigits hc]
      exact List.append_nil _
    have hle : round.toNat ≤ U32_MAX := Nat.le_of_lt_succ round.toNat_lt
    simp only [hdigits, parseUnsigned_toDigits hle, Option.map_some, UInt32.ofNat_toNat]

theorem previousPeerPoolIsTrusted_peersJson {pool : List String} (h : ∀ ip ∈ pool, IsPeer ip) (n : Nat)
    (tip : Option UInt32) : previousPeerPoolIsTrusted (peersJson pool n tip) = !pool.isEmpty := by
  have hkey : "\"candidate_fallback\":true".toList = '"' :: 'c' :: "andidate_fallback\":true".toList := by decide
  have hclose : Text.after ('"' :: 'c' :: "andidate_fallback\":true".toList) JSON_CLOSE = none := by decide
  have hfallback : Text.occurs "\"candidate_fallback\":true".toList (peersJson pool n tip).toList = false := by
    rw [Text.occurs, hkey, after_peersJson h n tip (by decide) (by decide) (by decide) (by decide) (by decide),
      Text.after_apart (by decide), Text.after_gap (quote_not_mem_tipText tip), hclose]
    rfl
  rw [previousPeerPoolIsTrusted, hfallback, extractIpv4_peersJson h]
  rfl

/-! ## 7. The candidate file -/

theorem toList_foldl_lines (out : String) (candidates : List String) :
    (candidates.foldl (fun out ip => out ++ ip ++ "\n") out).toList =
      out.toList ++ candidates.flatMap fun ip => ip.toList ++ ['\n'] := by
  induction candidates generalizing out with
  | nil => simp
  | cons ip candidates ih =>
    rw [List.foldl_cons, ih]
    simp

theorem toList_formatPeerCandidates (candidates : List String) :
    (formatPeerCandidates candidates).toList = candidates.flatMap fun ip => ip.toList ++ ['\n'] :=
  toList_foldl_lines "" candidates

theorem isWhitespace_of_digitOrDot {c : Char} (h : digitOrDot c) : Text.isWhitespace c = false := by
  rcases Bool.or_eq_true_iff.mp h with h | h
  · obtain ⟨d, hd, rfl⟩ := Text.exists_digitChar h
    have hnat := Nat.toNat_digitChar_of_lt_ten hd
    simp only [Text.isWhitespace, hnat, decide_eq_false_iff_not]
    omega
  · rw [beq_iff_eq.mp h]
    decide

/-- Each candidate is read from its own line, whatever follows. -/
theorem lines_formatPeerCandidates {candidates : List String} (h : ∀ ip ∈ candidates, IsPeer ip) (more : List Char) :
    (Text.lines ((candidates.flatMap fun ip => ip.toList ++ ['\n']) ++ more)).map Text.trim =
      candidates.map String.toList ++ (Text.lines more).map Text.trim := by
  induction candidates with
  | nil => rfl
  | cons ip candidates ih =>
    have hip := h ip List.mem_cons_self
    have hwhite : ∀ c ∈ ip.toList, Text.isWhitespace c = false := fun c hc =>
      isWhitespace_of_digitOrDot (hip.chars c hc)
    have hshape : ((ip :: candidates).flatMap fun ip => ip.toList ++ ['\n']) ++ more =
        ip.toList ++ '\n' :: ((candidates.flatMap fun ip => ip.toList ++ ['\n']) ++ more) := by
      simp
    rw [hshape, Text.lines_cons (hip.not_mem (by decide)), Text.chomp_of_none hwhite, List.map_cons,
      Text.trim_of_none hwhite, ih fun ip' hip' => h ip' (List.mem_cons_of_mem ip hip')]
    rfl

theorem parsePeerCandidates_formatPeerCandidates {candidates : List String} (h : ∀ ip ∈ candidates, IsPeer ip)
    (more : String) :
    parsePeerCandidates (formatPeerCandidates candidates ++ more) =
      candidates.toFinset ∪ parsePeerCandidates more := by
  have hread : ∀ ls : List (List Char), (ls.map fun l => String.ofList (Text.trim l)) =
      (ls.map Text.trim).map String.ofList := by
    intro ls
    rw [List.map_map]
    rfl
  unfold parsePeerCandidates
  rw [hread, hread, String.toList_append, toList_formatPeerCandidates, lines_formatPeerCandidates h, List.map_append,
    List.filter_append, filter_peers h, List.toFinset_append]

/-- **What peerd writes is what is read.**  Let the pool be distinct routable addresses.  For
    every count of candidates and every tip, or none, both readers of addresses find the
    pool in its order in `peers.json`, the tip is read back, and the pool is trusted
    exactly if it is not empty.  The candidate file gives the set back that was written,
    in whatever order, and further lines add what they hold. -/
theorem peers_files_round_trip (pool : List Ipv4Addr) (hnodup : pool.Nodup)
    (hroutable : ∀ ip ∈ pool, isRoutable ip.toString) :
    (∀ (n : Nat) (tip : Option UInt32),
      extractIpv4 (peersJson (pool.map Ipv4Addr.toString) n tip) = pool.map Ipv4Addr.toString ∧
      readNodePeers [peersJson (pool.map Ipv4Addr.toString) n tip] = pool.map Ipv4Addr.toString ∧
      extractRoundTip (peersJson (pool.map Ipv4Addr.toString) n tip) = tip ∧
      (previousPeerPoolIsTrusted (peersJson (pool.map Ipv4Addr.toString) n tip) = true ↔ pool ≠ [])) ∧
    parsePeerCandidates (formatPeerCandidates (pool.map Ipv4Addr.toString)) = (pool.map Ipv4Addr.toString).toFinset ∧
    (∀ more : List Ipv4Addr, (∀ ip ∈ more, isRoutable ip.toString) →
      parsePeerCandidates (formatPeerCandidates (pool.map Ipv4Addr.toString) ++
          formatPeerCandidates (more.map Ipv4Addr.toString)) =
        (pool.map Ipv4Addr.toString).toFinset ∪ (more.map Ipv4Addr.toString).toFinset) ∧
    ∀ more : String,
      parsePeerCandidates (formatPeerCandidates (pool.map Ipv4Addr.toString) ++ more) =
        (pool.map Ipv4Addr.toString).toFinset ∪ parsePeerCandidates more := by
  have hpeers : ∀ {ips : List Ipv4Addr}, (∀ ip ∈ ips, isRoutable ip.toString) →
      ∀ s ∈ ips.map Ipv4Addr.toString, IsPeer s := by
    intro ips hips s hs
    obtain ⟨ip, hip, rfl⟩ := List.mem_map.mp hs
    exact isPeer_toString (hips ip hip)
  have hpool := hpeers hroutable
  have hset : ∀ {ips : List Ipv4Addr}, (∀ ip ∈ ips, isRoutable ip.toString) →
      parsePeerCandidates (formatPeerCandidates (ips.map Ipv4Addr.toString)) =
        (ips.map Ipv4Addr.toString).toFinset := by
    intro ips hips
    have h := parsePeerCandidates_formatPeerCandidates (hpeers hips) ""
    rwa [String.append_empty, show parsePeerCandidates "" = ∅ by decide, Finset.union_empty] at h
  refine ⟨fun n tip => ⟨extractIpv4_peersJson hpool n tip, ?_, extractRoundTip_peersJson hpool n tip, ?_⟩,
    hset hroutable, fun more hmore => ?_, parsePeerCandidates_formatPeerCandidates hpool⟩
  · exact readNodePeers_peersJson hpool (hnodup.map Ipv4Addr.toString_injective) n tip
  · rw [previousPeerPoolIsTrusted_peersJson hpool]
    simp
  · rw [parsePeerCandidates_formatPeerCandidates hpool, hset hmore]

/-- Two addresses with octets of every length. -/
def publishedPool : List Ipv4Addr := [(172, 64, 1, 20), (8, 8, 8, 8)]

theorem peers_files_round_trip_publishedPool :
    publishedPool.Nodup ∧
      (extractIpv4 (peersJson (publishedPool.map Ipv4Addr.toString) 3 (some 1355962971)) =
          publishedPool.map Ipv4Addr.toString ∧
        readNodePeers [peersJson (publishedPool.map Ipv4Addr.toString) 3 (some 1355962971)] =
          publishedPool.map Ipv4Addr.toString ∧
        extractRoundTip (peersJson (publishedPool.map Ipv4Addr.toString) 3 (some 1355962971)) = some 1355962971 ∧
        (previousPeerPoolIsTrusted (peersJson (publishedPool.map Ipv4Addr.toString) 3 (some 1355962971)) = true ↔
          publishedPool ≠ [])) ∧
      parsePeerCandidates (formatPeerCandidates (publishedPool.map Ipv4Addr.toString)) =
        (publishedPool.map Ipv4Addr.toString).toFinset :=
  have hroutable : publishedPool.all (fun ip => isRoutable ip.toString) = true := by decide
  have h := peers_files_round_trip publishedPool (by decide) (List.all_eq_true.mp hroutable)
  ⟨by decide, h.1 3 (some 1355962971), h.2.1⟩

end Hypersync.Peerd
