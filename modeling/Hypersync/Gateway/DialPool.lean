import Hypersync.Peerd.Pool
import Hypersync.Priority

/-!
# Spellings of an address on the way to the dial pool

An address comes in as a string from a text, and four readers decide over it: `is_ipv4`
parses each part as a number, `is_routable` looks at how the string starts, the
blacklist parses the string as an address, and the priority tier and the excluded set
of peerd compare strings.  On the printed form of an address they agree.  But the
first reader also takes a part with a zero or a plus sign in front, which for the
others is another string.
-/

namespace Hypersync

open Hypersync.Peerd

/-! ## 1. The address in a string -/

namespace Peerd

/-- The number `is_ipv4` reads in one part. -/
def readOctet (p : List Char) : Option UInt8 :=
  if isOctet p then (parseUnsigned U32_MAX p).map UInt8.ofNat else none

/-- The address `is_ipv4` reads in a string. -/
def readIpv4 (s : String) : Option Ipv4Addr :=
  match (s.toList.splitOn '.').map readOctet with
  | [some a, some b, some c, some d] => some (a, b, c, d)
  | _ => none

/-- Every part is written with digits only, and none in vain. -/
def PlainSpelling (s : String) : Prop := ∀ p ∈ s.toList.splitOn '.', p.head? ≠ some '+' ∧ Text.Plain p

instance decidablePlainSpelling (s : String) : Decidable (PlainSpelling s) :=
  inferInstanceAs (Decidable (∀ p ∈ s.toList.splitOn '.', _))

example : readIpv4 "010.0.0.7" = some (10, 0, 0, 7) := by decide

theorem readOctet_toDigits (octet : UInt8) : readOctet (Nat.toDigits 10 octet.toNat) = some octet := by
  have hle : octet.toNat ≤ U32_MAX := Nat.le_trans (Nat.le_of_lt_succ octet.toNat_lt) (by decide)
  rw [readOctet, if_pos (isOctet_toDigits octet), parseUnsigned_toDigits hle, Option.map_some, UInt8.ofNat_toNat]

theorem readIpv4_toString (ip : Ipv4Addr) : readIpv4 ip.toString = some ip := by
  rw [readIpv4, Ipv4Addr.splitOn_toString, Ipv4Addr.parts]
  simp only [List.map_cons, readOctet_toDigits, List.map_nil]

theorem exists_readOctet {p : List Char} (h : isOctet p) : ∃ octet, readOctet p = some octet := by
  have hany := (of_decide_eq_true h).2.2
  rw [readOctet, if_pos h]
  rcases hnumber : parseUnsigned U32_MAX p with _ | n
  · rw [hnumber] at hany
    cases hany
  · exact ⟨UInt8.ofNat n, rfl⟩

theorem length_splitOn_of_isIpv4 {s : String} (h : isIpv4 s) : (s.toList.splitOn '.').length = 4 :=
  beq_iff_eq.mp (Bool.and_eq_true_iff.mp h).2

/-- Four octets are read if one can be read in every part. -/
theorem exists_octets {s : String} (h : isIpv4 s) {read : List Char → Option UInt8}
    (hpart : ∀ p, isOctet p → p ∈ s.toList.splitOn '.' → ∃ octet, read p = some octet) :
    ∃ p q r t a b c d, s.toList.splitOn '.' = [p, q, r, t] ∧
      read p = some a ∧ read q = some b ∧ read r = some c ∧ read t = some d := by
  have hread : ∀ p ∈ s.toList.splitOn '.', ∃ octet, read p = some octet := fun p hp =>
    hpart p (isOctet_of_mem_splitOn h hp) hp
  obtain ⟨p, q, r, t, hparts⟩ := List.length_eq_four.mp (length_splitOn_of_isIpv4 h)
  rw [hparts] at hread
  obtain ⟨a, ha⟩ := hread p (by simp)
  obtain ⟨b, hb⟩ := hread q (by simp)
  obtain ⟨c, hc⟩ := hread r (by simp)
  obtain ⟨d, hd⟩ := hread t (by simp)
  exact ⟨p, q, r, t, a, b, c, d, hparts, ha, hb, hc, hd⟩

/-- There is an address in every string that `is_ipv4` takes. -/
theorem exists_readIpv4 {s : String} (h : isIpv4 s) : ∃ ip, readIpv4 s = some ip := by
  obtain ⟨p, q, r, t, a, b, c, d, hparts, ha, hb, hc, hd⟩ := exists_octets h fun p hp _ => exists_readOctet hp
  refine ⟨(a, b, c, d), ?_⟩
  simp only [readIpv4, hparts, List.map_cons, ha, hb, hc, hd, List.map_nil]

theorem plainSpelling_toString (ip : Ipv4Addr) : PlainSpelling ip.toString := by
  intro p hp
  rw [Ipv4Addr.splitOn_toString] at hp
  obtain ⟨octet, rfl⟩ := Ipv4Addr.exists_octet hp
  refine ⟨fun hsign => ?_, Text.plain_toDigits _⟩
  exact absurd (Text.isDigit_toDigits (List.mem_of_head? hsign)) (by decide)

/-- A part with nothing in front is one the address parser takes. -/
theorem exists_parseOctet_of_plain {p : List Char} (h : isOctet p) (hsign : p.head? ≠ some '+')
    (hplain : Text.Plain p) : ∃ octet, parseOctet p = some octet := by
  obtain ⟨hne, hlen, hany⟩ := of_decide_eq_true h
  cases hnumber : parseUnsigned U32_MAX p with
  | none => simp [hnumber] at hany
  | some n =>
    obtain ⟨digits, hdigits, -, hall, hn, -⟩ := parseUnsigned_eq_some_iff.mp hnumber
    rw [if_neg hsign] at hdigits
    subst hdigits
    have hle : decimal digits ≤ 255 := by simpa [hnumber, ← hn] using hany
    exact ⟨_, if_pos ⟨hne, hlen, hall, hplain, hle⟩⟩

theorem exists_toString_of_plain {s : String} (h : isIpv4 s) (hplain : PlainSpelling s) :
    ∃ ip : Ipv4Addr, s = ip.toString := by
  obtain ⟨p, q, r, t, a, b, c, d, hparts, ha, hb, hc, hd⟩ := exists_octets h fun p hp hmem =>
    exists_parseOctet_of_plain hp (hplain p hmem).1 (hplain p hmem).2
  have hparse : parseIpv4 s.toList = some (a, b, c, d) := by simp only [parseIpv4, hparts, ha, hb, hc, hd]
  exact ⟨(a, b, c, d), String.toList_inj.mp (toString_of_parseIpv4 hparse).symm⟩

end Peerd

/-! ## 2. Routable addresses -/

/-- The addresses that are worth a dial: no private, local or reserved range. -/
def Ipv4Addr.isRoutable (ip : Ipv4Addr) : Bool :=
  !decide ((ip.1 = 0 ∨ ip.1 = 127 ∨ ip.1 = 10 ∨ (ip.1 = 192 ∧ ip.2.1 = 168) ∨ (ip.1 = 169 ∧ ip.2.1 = 254) ∨ ip.1 = 255) ∨
    (ip.1 = 172 ∧ 16 ≤ ip.2.1 ∧ ip.2.1 ≤ 31))

theorem toDigits_octet_inj {a b : UInt8} : Nat.toDigits 10 a.toNat = Nat.toDigits 10 b.toNat ↔ a = b := by
  refine ⟨fun h => ?_, fun h => h ▸ rfl⟩
  have hparse := parseOctet_toDigits a
  rw [h, parseOctet_toDigits] at hparse
  exact (Option.some.inj hparse).symm

theorem dot_not_mem_octet (octet : UInt8) : '.' ∉ Nat.toDigits 10 octet.toNat := fun h =>
  absurd (Text.isDigit_toDigits h) (by decide)

theorem Ipv4Addr.toList_toString (ip : Ipv4Addr) :
    ip.toString.toList = Nat.toDigits 10 ip.1.toNat ++ '.' :: (Nat.toDigits 10 ip.2.1.toNat ++ '.' ::
      (Nat.toDigits 10 ip.2.2.1.toNat ++ '.' :: Nat.toDigits 10 ip.2.2.2.toNat)) := by
  rw [Ipv4Addr.toString, String.toList_ofList]
  simp [Ipv4Addr.parts, List.intercalate, List.intersperse]

/-- A test for one octet and its dot. -/
theorem starts_octet {start : List Char} {a : UInt8} (h : start = Nat.toDigits 10 a.toNat ++ ['.']) (ip : Ipv4Addr) :
    start <+: ip.toString.toList ↔ ip.1 = a := by
  rw [h, Ipv4Addr.toList_toString, Text.sep_prefix_sep_iff (dot_not_mem_octet a) (dot_not_mem_octet _),
    toDigits_octet_inj]
  exact ⟨fun h => h.1.symm, fun h => ⟨h.symm, List.nil_prefix⟩⟩

/-- A test for two of them. -/
theorem starts_octets {start : List Char} {a b : UInt8}
    (h : start = Nat.toDigits 10 a.toNat ++ '.' :: (Nat.toDigits 10 b.toNat ++ ['.'])) (ip : Ipv4Addr) :
    start <+: ip.toString.toList ↔ ip.1 = a ∧ ip.2.1 = b := by
  rw [h, Ipv4Addr.toList_toString, Text.sep_prefix_sep_iff (dot_not_mem_octet a) (dot_not_mem_octet _),
    Text.sep_prefix_sep_iff (dot_not_mem_octet b) (dot_not_mem_octet _), toDigits_octet_inj, toDigits_octet_inj]
  exact ⟨fun h => ⟨h.1.symm, h.2.1.symm⟩, fun h => ⟨h.1.symm, h.2.symm, List.nil_prefix⟩⟩

theorem unroutable_iff (ip : Ipv4Addr) :
    (UNROUTABLE.any fun start => start.toList.isPrefixOf ip.toString.toList) = true ↔
      ip.1 = 0 ∨ ip.1 = 127 ∨ ip.1 = 10 ∨ (ip.1 = 192 ∧ ip.2.1 = 168) ∨ (ip.1 = 169 ∧ ip.2.1 = 254) ∨ ip.1 = 255 := by
  have h0 := starts_octet (by decide : "0.".toList = Nat.toDigits 10 (0 : UInt8).toNat ++ ['.']) ip
  have h127 := starts_octet (by decide : "127.".toList = Nat.toDigits 10 (127 : UInt8).toNat ++ ['.']) ip
  have h10 := starts_octet (by decide : "10.".toList = Nat.toDigits 10 (10 : UInt8).toNat ++ ['.']) ip
  have h192 := starts_octets (by decide : "192.168.".toList = Nat.toDigits 10 (192 : UInt8).toNat ++ '.' ::
    (Nat.toDigits 10 (168 : UInt8).toNat ++ ['.'])) ip
  have h169 := starts_octets (by decide : "169.254.".toList = Nat.toDigits 10 (169 : UInt8).toNat ++ '.' ::
    (Nat.toDigits 10 (254 : UInt8).toNat ++ ['.'])) ip
  have h255 := starts_octet (by decide : "255.".toList = Nat.toDigits 10 (255 : UInt8).toNat ++ ['.']) ip
  simp only [UNROUTABLE, List.any_cons, List.any_nil, Bool.or_false, Bool.or_eq_true, List.isPrefixOf_iff_prefix,
    h0, h127, h10, h192, h169, h255]

/-- What `is_routable` reads after `172.` is the second octet. -/
theorem second_octet {ip : Ipv4Addr} (h : ip.1 = 172) :
    ∃ rest, ip.toString.toList.dropPrefix? "172.".toList = some rest ∧
      (rest.splitOn '.').head?.bind (parseUnsigned 255) = some ip.2.1.toNat := by
  refine ⟨Nat.toDigits 10 ip.2.1.toNat ++ '.' ::
    (Nat.toDigits 10 ip.2.2.1.toNat ++ '.' :: Nat.toDigits 10 ip.2.2.2.toNat), ?_, ?_⟩
  · refine List.dropPrefix?_eq_some_iff.mpr ⟨"172.".toList, ?_, beq_self_eq_true _⟩
    rw [Ipv4Addr.toList_toString, h]
    rfl
  · rw [List.splitOn_append_cons_self_of_not_mem (dot_not_mem_octet _), List.head?_cons, Option.bind_some]
    exact parseUnsigned_toDigits (Nat.le_of_lt_succ ip.2.1.toNat_lt)

theorem dropPrefix?_of_ne {ip : Ipv4Addr} (h : ip.1 ≠ 172) : ip.toString.toList.dropPrefix? "172.".toList = none := by
  refine Option.eq_none_iff_forall_ne_some.mpr fun rest hrest => h ?_
  obtain ⟨start, heq, hstart⟩ := List.dropPrefix?_eq_some_iff.mp hrest
  rw [beq_iff_eq.mp hstart] at heq
  refine (starts_octet (by decide : "172.".toList = Nat.toDigits 10 (172 : UInt8).toNat ++ ['.']) ip).mp ?_
  rw [heq]
  exact List.prefix_append _ rest

/-- **On printed addresses `is_routable` decides by the numbers.** -/
theorem isRoutable_toString (ip : Ipv4Addr) : Peerd.isRoutable ip.toString = ip.isRoutable := by
  unfold Peerd.isRoutable Ipv4Addr.isRoutable
  split
  · next hstart =>
    rw [decide_eq_true (Or.inl ((unroutable_iff ip).mp hstart))]
    rfl
  · next hstart =>
    have hnot := (unroutable_iff ip).not.mp hstart
    by_cases h172 : ip.1 = 172
    · obtain ⟨rest, hdrop, hoctet⟩ := second_octet h172
      simp only [hdrop, hoctet]
      refine congrArg (! ·) (decide_eq_decide.mpr ?_)
      rw [or_iff_right hnot, UInt8.le_iff_toNat_le, UInt8.le_iff_toNat_le]
      exact ⟨fun h => ⟨h172, h⟩, fun h => h.2⟩
    · rw [dropPrefix?_of_ne h172, decide_eq_false fun h => h.elim hnot fun h => h172 h.1]
      rfl

/-! ## 3. The pools -/

namespace Gateway

/-- `read_pool`, given the texts of the peer files. -/
def readPool (priority : PriorityTier) (black : Blacklist) (files : List String) : List String :=
  black.filtered (priority.strip (readNodePeers files))

end Gateway

namespace Peerd

/-- The candidates peerd has from texts in its first cycle: those of the candidate file
    and those of the statistics, without its own addresses, the priority peers and the
    blacklist. -/
def cycleCandidates (selfIps : Finset String) (priority : List String) (black : Blacklist) (candidateFile : String)
    (stats : List String) : Finset String :=
  let own := selfIps ∪ priority.toFinset
  let excluded := own ∪ (black.ips.map Ipv4Addr.toString).toFinset
  let candidates := (parsePeerCandidates candidateFile).filter (· ∉ own)
  (dropExcluded candidates [] excluded).1 ∪ ((readNodePeers stats).filter (· ∉ excluded)).toFinset

theorem mem_readNodePeers {files : List String} {s : String} :
    s ∈ readNodePeers files ↔ ∃ file ∈ files, s ∈ extractIpv4 file := by
  simp [readNodePeers]

theorem mem_cycleCandidates {selfIps : Finset String} {priority : List String} {black : Blacklist}
    {candidateFile : String} {stats : List String} {s : String}
    (h : s ∈ cycleCandidates selfIps priority black candidateFile stats) :
    (s ∈ parsePeerCandidates candidateFile ∨ ∃ file ∈ stats, s ∈ extractIpv4 file) ∧
      s ∉ selfIps ∧ s ∉ priority ∧ s ∉ black.ips.map Ipv4Addr.toString := by
  simp only [cycleCandidates, dropExcluded, Finset.mem_union, Finset.mem_filter, List.mem_toFinset, List.mem_filter,
    mem_readNodePeers, decide_eq_true_eq, not_or] at h
  rcases h with ⟨⟨hfile, -⟩, ⟨hself, hprio⟩, hblack⟩ | ⟨hstats, ⟨hself, hprio⟩, hblack⟩
  · exact ⟨Or.inl hfile, hself, hprio, hblack⟩
  · exact ⟨Or.inr hstats, hself, hprio, hblack⟩

end Peerd

/-! ## 4. One spelling -/

/-- The string is the printed form of the address, and every reader decides over it as over
    the address. -/
structure DecidedAs (s : String) (ip : Ipv4Addr) : Prop where
  spelling : s = ip.toString
  routable : Peerd.isRoutable s = ip.isRoutable
  listed : ∀ black : Blacklist, black.contains s = decide (ip ∈ black.ips)
  filtered : ∀ (black : Blacklist) (addrs : List String),
    s ∈ black.filtered addrs ↔ s ∈ addrs ∧ ip ∉ black.ips
  stripped : ∀ (tier : PriorityTier) (priority : List Ipv4Addr), tier.peers = priority.map Ipv4Addr.toString →
    ∀ pool, s ∈ tier.strip pool ↔ s ∈ pool ∧ ip ∉ priority
  excluded : ∀ ips : List Ipv4Addr, s ∈ (ips.map Ipv4Addr.toString).toFinset ↔ ip ∈ ips

theorem decidedAs_toString (ip : Ipv4Addr) : DecidedAs ip.toString ip where
  spelling := rfl
  routable := isRoutable_toString ip
  listed := fun black => black.contains_toString ip
  filtered := by
    intro black addrs
    rw [Blacklist.mem_filtered, Blacklist.contains_toString, decide_eq_false_iff_not]
  stripped := by
    intro tier priority hpeers pool
    rw [PriorityTier.mem_strip, hpeers, List.mem_map_of_injective Ipv4Addr.toString_injective]
  excluded := by
    intro ips
    rw [List.mem_toFinset, List.mem_map_of_injective Ipv4Addr.toString_injective]

/-- No address gets past the readers of the text under another spelling. -/
structure SpelledOnce (text : String) : Prop where
  decided : ∀ s, s ∈ extractIpv4 text ∨ s ∈ parsePeerCandidates text →
    ∀ ip, readIpv4 s = some ip → DecidedAs s ip
  dialled : ∀ (tier : PriorityTier) (priority : List Ipv4Addr) (black : Blacklist),
    tier.peers = priority.map Ipv4Addr.toString → ∀ s ∈ Gateway.readPool tier black [text],
      ∀ ip, readIpv4 s = some ip → ip.isRoutable = true ∧ ip ∉ priority ∧ ip ∉ black.ips
  probed : ∀ (selfIps : Finset String) (priority : List Ipv4Addr) (black : Blacklist),
    ∀ s ∈ cycleCandidates selfIps (priority.map Ipv4Addr.toString) black text [text],
      ∀ ip, readIpv4 s = some ip →
        ip.isRoutable = true ∧ ip.toString ∉ selfIps ∧ ip ∉ priority ∧ ip ∉ black.ips

theorem accepted {text s : String} (h : s ∈ extractIpv4 text ∨ s ∈ parsePeerCandidates text) :
    isIpv4 s = true ∧ Peerd.isRoutable s = true := by
  rcases h with h | h
  · have hpeer := isPeer_of_mem_extractIpv4 h
    exact ⟨hpeer.ipv4, hpeer.routable⟩
  · rw [parsePeerCandidates, List.mem_toFinset] at h
    exact Bool.and_eq_true_iff.mp (List.mem_filter.mp h).2

/-- What the readers take is decided as an address if it is spelled plainly. -/
theorem decidedAs_of_plain {s : String} (h : isIpv4 s = true) (hplain : PlainSpelling s) {ip : Ipv4Addr}
    (hread : readIpv4 s = some ip) : DecidedAs s ip := by
  obtain ⟨ip', rfl⟩ := exists_toString_of_plain h hplain
  rw [readIpv4_toString] at hread
  obtain rfl := Option.some.inj hread
  exact decidedAs_toString ip'

/-- **One spelling, exactly without zeros and signs in front.**  The readers of a text agree on
    every address in it, and no private, own, priority or blacklisted address gets into
    a pool, if and only if every string they take is spelled plainly: no part of it has
    a leading zero or a plus sign. -/
theorem spelled_once_iff (text : String) :
    SpelledOnce text ↔ ∀ s, s ∈ extractIpv4 text ∨ s ∈ parsePeerCandidates text → PlainSpelling s := by
  constructor
  · intro h s hs
    obtain ⟨ip, hip⟩ := exists_readIpv4 (accepted hs).1
    rw [(h.decided s hs ip hip).spelling]
    exact plainSpelling_toString ip
  · intro hplain
    have hdecided : ∀ s, s ∈ extractIpv4 text ∨ s ∈ parsePeerCandidates text →
        ∀ ip, readIpv4 s = some ip → DecidedAs s ip := fun s hs ip hip =>
      decidedAs_of_plain (accepted hs).1 (hplain s hs) hip
    refine ⟨hdecided, ?_, ?_⟩
    · intro tier priority black hpeers s hs ip hip
      obtain ⟨hstrip, hblack⟩ := Blacklist.mem_filtered.mp hs
      obtain ⟨hread, hprio⟩ := PriorityTier.mem_strip.mp hstrip
      obtain ⟨file, hfile, hmem⟩ := mem_readNodePeers.mp hread
      obtain rfl := List.mem_singleton.mp hfile
      have hs' := hdecided s (Or.inl hmem) ip hip
      refine ⟨hs'.routable.symm.trans (accepted (Or.inl hmem)).2, ?_, ?_⟩
      · exact ((hs'.stripped tier priority hpeers _).mp hstrip).2
      · exact ((hs'.filtered black _).mp hs).2
    · intro selfIps priority black s hs ip hip
      obtain ⟨hread, hself, hprio, hblack⟩ := mem_cycleCandidates hs
      have hmem : s ∈ extractIpv4 text ∨ s ∈ parsePeerCandidates text := by
        rcases hread with hread | ⟨file, hfile, hread⟩
        · exact Or.inr hread
        · obtain rfl := List.mem_singleton.mp hfile
          exact Or.inl hread
      have hs' := hdecided s hmem ip hip
      refine ⟨hs'.routable.symm.trans (accepted hmem).2, hs'.spelling ▸ hself, ?_, ?_⟩
      · exact fun h => hprio (List.mem_toFinset.mp ((hs'.excluded priority).mpr h))
      · exact fun h => hblack (List.mem_toFinset.mp ((hs'.excluded black.ips).mpr h))

/-- A peer file as a node's statistics may have it. -/
def paddedFile : String := "peer 01.2.3.4 and 010.0.0.7"

def noPriority : PriorityTier := PriorityTier.new [] 0 0 false

/-- A blacklisted and a private address, each with a zero in front, go into the dial pool. -/
theorem padded_addresses_dialled :
    readIpv4 "01.2.3.4" = some (1, 2, 3, 4) ∧ readIpv4 "010.0.0.7" = some (10, 0, 0, 7) ∧
      Gateway.readPool noPriority { ips := [(1, 2, 3, 4)] } [paddedFile] = ["01.2.3.4", "010.0.0.7"] ∧
      "+1.2.3.4" ∈ cycleCandidates ∅ [] { ips := [(1, 2, 3, 4)] } "+1.2.3.4" [] ∧
      ¬ SpelledOnce paddedFile := by
  have hpool : Gateway.readPool noPriority { ips := [(1, 2, 3, 4)] } [paddedFile] = ["01.2.3.4", "010.0.0.7"] := by
    decide
  have hread : readIpv4 "01.2.3.4" = some (1, 2, 3, 4) := by decide
  refine ⟨hread, by decide, hpool, by decide, fun h => ?_⟩
  have hblack := h.dialled noPriority [] { ips := [(1, 2, 3, 4)] } rfl "01.2.3.4" (by rw [hpool]; decide) _ hread
  exact hblack.2.2 (by decide)

theorem spelled_once_plainFile : SpelledOnce "peer 1.2.3.4" := by
  have hread : extractIpv4 "peer 1.2.3.4" = ["1.2.3.4"] := by decide
  have hparse : parsePeerCandidates "peer 1.2.3.4" = ∅ := by decide
  refine (spelled_once_iff "peer 1.2.3.4").mpr fun s hs => ?_
  rw [hread, hparse] at hs
  obtain rfl := List.mem_singleton.mp (hs.resolve_right (Finset.notMem_empty s))
  decide

end Hypersync
