import Hypersync.Settings

/-!
# The environment check at startup

The readers of `Settings` would quietly change a mistyped setting, so `problems` goes
over the same variables first, and the process does not start if it finds anything.
What is proved here is that the two sets of parsers agree: an environment without
problems is read as it is written.

`ReadAs` says what a setting means without either parser.
-/

namespace Hypersync

open Peerd

namespace EnvCheck

/-! ## 1. The check -/

def DAY_MS : Nat := 86400000

def DAY_SECS : Nat := 86400

/-- Each minimum is the floor of the reader. -/
def FAILOVER_NUMBERS : List (Setting × Nat × Nat) :=
  [(.failoverStallMs, 50, DAY_MS), (.failoverLagMs, 20, DAY_MS), (.failoverDwellMs, 0, DAY_MS),
    (.failoverRotateMs, 0, DAY_MS), (.failoverRotateSecs, 10, DAY_SECS)]

/-- A routable unicast address. -/
def isPublic : Ipv4Addr → Bool
  | (a, b, c, d) =>
    !decide (
      -- is_private
      (a = 10 ∨ a = 172 ∧ 16 ≤ b ∧ b ≤ 31 ∨ a = 192 ∧ b = 168) ∨
      -- is_loopback, is_link_local
      a = 127 ∨ (a = 169 ∧ b = 254) ∨
      -- is_documentation
      (a = 192 ∧ b = 0 ∧ c = 2 ∨ a = 198 ∧ b = 51 ∧ c = 100 ∨ a = 203 ∧ b = 0 ∧ c = 113) ∨
      -- is_multicast, is_broadcast
      (224 ≤ a ∧ a ≤ 239) ∨ (a = 255 ∧ b = 255 ∧ c = 255 ∧ d = 255) ∨
      a = 0 ∨ 240 ≤ a ∨ (a = 100 ∧ 64 ≤ b ∧ b < 128) ∨ (a = 192 ∧ b = 0 ∧ c = 0) ∨
      (a = 192 ∧ b = 88 ∧ c = 99) ∨ (a = 198 ∧ 18 ≤ b ∧ b < 20))

def parseBool (v : String) : Option Bool :=
  if ["1", "true", "yes", "on"].contains (flagWord v) then some true
  else if ["0", "false", "no", "off"].contains (flagWord v) then some false
  else none

/-- The loop over the priority peers: the addresses seen, the valid ones counted, the messages. -/
structure Peers where
  seen : List Ipv4Addr
  peers : Nat
  out : List String

/-- The body of the loop, for the entry at position `i`.  No message has the address in it. -/
def checkPeer (c : Peers) (item : String) (i : Nat) : Peers :=
  match parseIpv4 item.toList with
  | none =>
    { c with out := c.out ++ ["HYPERSYNC_PRIORITY_PEERS entry #" ++ toString (i + 1) ++ " is not an IPv4 address"] }
  | some ip =>
    if !isPublic ip then
      { c with out := c.out ++
          ["HYPERSYNC_PRIORITY_PEERS entry #" ++ toString (i + 1) ++ " is not a public IPv4 address"] }
    else if c.seen.contains ip then
      { c with out := c.out ++ ["HYPERSYNC_PRIORITY_PEERS entry #" ++ toString (i + 1) ++ " repeats an earlier one"] }
    else { c with seen := c.seen ++ [ip], peers := c.peers + 1 }

def checkPeers (items : List String) : Peers :=
  items.zipIdx.foldl (fun c p => checkPeer c p.1 p.2) ⟨[], 0, []⟩

/-- Unset and blank are the same. -/
def get (env : Env) (k : Setting) : Option String := (env k).filter fun v => !blank v

/-- The loop over the whole variable, which may be blank. -/
def peersOf (env : Env) : Peers := (get env .priorityPeers).elim ⟨[], 0, []⟩ fun raw => checkPeers (splitCsv raw)

section
-- `format!("{value:?}")`, which only the messages have in them
variable (debug : String → String)

def notA (key value want : String) : String := key ++ "=" ++ debug value ++ " is not a " ++ want

def checkNumber (env : Env) (k : Setting) (min max : Nat) : List String :=
  match get env k with
  | none => []
  | some v =>
    match parseUnsigned U64_MAX (trimmed v) with
    | some n =>
      if min ≤ n ∧ n ≤ max then []
      else [notA debug k.key v ("whole number in " ++ toString min ++ "..=" ++ toString max)]
    | none => [notA debug k.key v ("whole number in " ++ toString min ++ "..=" ++ toString max)]

def checkExpected (env : Env) (peers : Nat) : List String :=
  match get env .priorityPeersExpected with
  | none => []
  | some v =>
    match parseUnsigned USIZE_MAX (trimmed v) with
    | some want =>
      if want ≠ peers then
        ["HYPERSYNC_PRIORITY_PEERS has " ++ toString peers ++
          " valid address(es), HYPERSYNC_PRIORITY_PEERS_EXPECTED is " ++ toString want]
      else []
    | none => [notA debug Setting.priorityPeersExpected.key v "whole number"]

/-- A setting that has to parse as `parse` does. -/
def checkWord {α : Type} (env : Env) (k : Setting) (parse : String → Option α) (want : String) : List String :=
  match get env k with
  | none => []
  | some v => if (parse v).isNone then [notA debug k.key v want] else []

def problems (env : Env) (gateway : Bool) : List String :=
  let out := (peersOf env).out ++ checkExpected debug env (peersOf env).peers
  if !gateway then out
  else
    out ++ checkWord debug env .priorityExclusive parseBool "1|0|true|false|yes|no|on|off" ++
      checkWord debug env .priorityBootstrap BootstrapPolicy.parse "fallback|never|prefer" ++
      checkNumber debug env .priorityMaxSessions 0 USIZE_MAX ++
      checkNumber debug env .priorityStageMs 200 3000 ++
      checkNumber debug env .failoverStandbys 0 16 ++
      FAILOVER_NUMBERS.flatMap fun p => checkNumber debug env p.1 p.2.1 p.2.2

end

/-! ## 2. What is written -/

/-- The value in use is what the text says, or the default where there is none. -/
structure ReadAs {α : Type} (text : Option String) (Means : String → α → Prop) (default value : α) : Prop where
  written : ∀ v, text = some v → blank v = false → Means v value
  unset : (∀ v, text = some v → blank v = true) → value = default

def MeansNumber (v : String) (n : Nat) : Prop := Text.Numeral (trimmed v) n

def MeansFlag (v : String) (b : Bool) : Prop :=
  flagWord v ∈ if b then ["1", "true", "yes", "on"] else ["0", "false", "no", "off"]

def MeansPolicy (v : String) (p : BootstrapPolicy) : Prop :=
  String.ofList ((trimmed v).map Char.toLower) = p.asStr

/-- A count of milliseconds or seconds, as a duration. -/
def MeansTime (unit : Nat → Nat) (v : String) (t : Nat) : Prop := ∃ n, MeansNumber v n ∧ t = unit n

theorem ReadAs.time {text : Option String} {d n : Nat} (h : ReadAs text MeansNumber d n) (unit : Nat → Nat) :
    ReadAs text (MeansTime unit) (unit d) (unit n) where
  written v hv hblank := ⟨n, h.written v hv hblank, rfl⟩
  unset hv := congrArg unit (h.unset hv)

/-! ## 3. Numbers -/

section
variable {env : Env} {k : Setting} {v : String}

theorem get_eq_some_iff : get env k = some v ↔ env k = some v ∧ blank v = false := by
  simp [get, Option.filter_eq_some_iff]

theorem get_eq_none_iff : get env k = none ↔ ∀ v, env k = some v → blank v = true := by
  simp [get, Option.filter_eq_none_iff]

end

theorem numeral_of_parseUnsigned {max n : Nat} {cs : List Char} (h : parseUnsigned max cs = some n) :
    Text.Numeral cs n := by
  obtain ⟨digits, hsign, hne, hall, hn, -⟩ := parseUnsigned_eq_some_iff.mp h
  refine ⟨digits, ?_, hne, List.all_eq_true.mp hall, decimal_eq digits ▸ hn⟩
  split at hsign
  · next hplus =>
    rw [hsign]
    exact .inr (List.eq_cons_of_mem_head? hplus)
  · exact .inl hsign.symm

/-- A number that fits another type is read by it too. -/
theorem parseUnsigned_fits {max max' n : Nat} {cs : List Char} (h : parseUnsigned max cs = some n)
    (hle : n ≤ max') : parseUnsigned max' cs = some n := by
  obtain ⟨digits, hsign, hne, hall, hn, -⟩ := parseUnsigned_eq_some_iff.mp h
  exact parseUnsigned_eq_some_iff.mpr ⟨digits, hsign, hne, hall, hn, hle⟩

theorem parseUnsigned_blank {max : Nat} {v : String} (h : blank v = true) : parseUnsigned max (trimmed v) = none := by
  rw [List.isEmpty_iff.mp h]
  rfl

section
variable {debug : String → String} {env : Env} {k : Setting}

theorem of_checkNumber {lo hi : Nat} {v : String} (h : checkNumber debug env k lo hi = []) (hv : get env k = some v) :
    ∃ n, parseUnsigned U64_MAX (trimmed v) = some n ∧ lo ≤ n ∧ n ≤ hi := by
  rw [checkNumber, hv] at h
  cases hn : parseUnsigned U64_MAX (trimmed v) with
  | none => simp [hn] at h
  | some n =>
    refine ⟨n, rfl, ?_⟩
    by_contra hrange
    simp [hn, hrange] at h

/-- **A checked number is read as written**, and like its default it is in range. -/
theorem readAs_of_checkNumber {lo hi : Nat} (h : checkNumber debug env k lo hi = []) (max d : Nat) (hmax : hi ≤ max)
    (hlo : lo ≤ d) (hhi : d ≤ hi) {n : Nat} (hn : ((env k).bind fun v => parseUnsigned max (trimmed v)).getD d = n) :
    ReadAs (env k) MeansNumber d n ∧ lo ≤ n ∧ n ≤ hi := by
  cases hget : get env k with
  | none =>
    have hunset : n = d := by
      have hblank := get_eq_none_iff.mp hget
      cases henv : env k with
      | none => simp [henv] at hn; exact hn.symm
      | some v => simp [henv, parseUnsigned_blank (hblank v henv)] at hn; exact hn.symm
    subst hunset
    refine ⟨⟨fun v hv hblank => ?_, fun _ => rfl⟩, hlo, hhi⟩
    simp [get_eq_none_iff.mp hget v hv] at hblank
  | some v =>
    obtain ⟨m, hm, hlo, hhi⟩ := of_checkNumber h hget
    obtain ⟨henv, hfull⟩ := get_eq_some_iff.mp hget
    have hread : parseUnsigned max (trimmed v) = some m := parseUnsigned_fits hm (Nat.le_trans hhi hmax)
    obtain rfl : m = n := by simpa [henv, hread] using hn
    refine ⟨⟨fun v' hv' _ => ?_, fun hblank => ?_⟩, hlo, hhi⟩
    · obtain rfl : v = v' := by simpa [henv] using hv'
      exact numeral_of_parseUnsigned hm
    · simp [hblank v henv] at hfull

end

/-! ## 4. Words -/

section
variable {debug : String → String} {env : Env} {v : String}

theorem of_checkWord {α : Type} {k : Setting} {parse : String → Option α} {want : String}
    (h : checkWord debug env k parse want = []) (hv : get env k = some v) : ∃ a, parse v = some a := by
  rw [checkWord, hv] at h
  cases ha : parse v with
  | none => simp [ha] at h
  | some a => exact ⟨a, rfl⟩

/-- The reader, which knows the words for off, agrees with `parse_bool`, which knows both. -/
theorem meansFlag_of_parseBool {b : Bool} (h : parseBool v = some b) :
    MeansFlag v b ∧ (!(["0", "false", "no", "off"].contains (flagWord v))) = b := by
  unfold parseBool at h
  split at h
  · next hon =>
    cases h
    refine ⟨List.contains_iff_mem.mp hon, ?_⟩
    rcases (by simpa using hon : flagWord v = "1" ∨ flagWord v = "true" ∨ flagWord v = "yes" ∨ flagWord v = "on")
      with hw | hw | hw | hw <;> simp [hw]
  · split at h
    · next hoff =>
      cases h
      exact ⟨List.contains_iff_mem.mp hoff, by rw [hoff]; rfl⟩
    · cases h

theorem flagWord_blank (h : blank v = true) : flagWord v = "" := by
  rw [flagWord, List.isEmpty_iff.mp h]
  rfl

theorem readAs_exclusive {want : String} (h : checkWord debug env .priorityExclusive parseBool want = []) :
    ReadAs (env .priorityExclusive) MeansFlag true (exclusiveFromEnv env) where
  written v hv hfull := by
    obtain ⟨b, hb⟩ := of_checkWord h (get_eq_some_iff.mpr ⟨hv, hfull⟩)
    obtain ⟨hmeans, hread⟩ := meansFlag_of_parseBool hb
    simpa only [exclusiveFromEnv, hv, Option.elim_some, hread] using hmeans
  unset hblank := by
    cases hv : env .priorityExclusive with
    | none => simp [exclusiveFromEnv, hv]
    | some v => simp [exclusiveFromEnv, hv, flagWord_blank (hblank v hv)]

theorem meansPolicy_of_parse {p : BootstrapPolicy} (h : BootstrapPolicy.parse v = some p) : MeansPolicy v p := by
  unfold BootstrapPolicy.parse at h
  split at h
  · next hw => exact Option.some.inj h ▸ hw
  · next hw => exact Option.some.inj h ▸ hw
  · next hw => exact Option.some.inj h ▸ hw
  · cases h

theorem readAs_bootstrap {want : String} {exclusive : Bool}
    (h : checkWord debug env .priorityBootstrap BootstrapPolicy.parse want = []) :
    ReadAs (env .priorityBootstrap) MeansPolicy (if exclusive then .prefer else .fallback)
      (bootstrapFromEnv env exclusive) where
  written v hv hfull := by
    have hget : get env .priorityBootstrap = some v := get_eq_some_iff.mpr ⟨hv, hfull⟩
    obtain ⟨p, hp⟩ := of_checkWord h hget
    have hread : bootstrapFromEnv env exclusive = p := by
      rw [get] at hget
      simp only [bootstrapFromEnv, hget, hp, Option.getD_some]
    exact hread ▸ meansPolicy_of_parse hp
  unset hblank := by
    have hget : get env .priorityBootstrap = none := get_eq_none_iff.mpr hblank
    rw [get] at hget
    simp only [bootstrapFromEnv, hget]

end

/-! ## 5. Peers -/

theorem checkPeers_concat (items : List String) (item : String) :
    checkPeers (items ++ [item]) = checkPeer (checkPeers items) item items.length := by
  simp [checkPeers, List.zipIdx_append]

/-- A loop without a message has taken every entry: distinct public addresses. -/
structure Clean (items : List String) (c : Peers) : Prop where
  entries : c.seen.map Ipv4Addr.toString = items
  counted : c.peers = items.length
  distinct : c.seen.Nodup
  isPublic : ∀ ip ∈ c.seen, isPublic ip

/-- An entry without a message. -/
theorem of_checkPeer {c : Peers} {item : String} {i : Nat} (h : (checkPeer c item i).out = []) :
    c.out = [] ∧ ∃ ip : Ipv4Addr, ip.toString = item ∧ isPublic ip ∧ ip ∉ c.seen ∧
      checkPeer c item i = { c with seen := c.seen ++ [ip], peers := c.peers + 1 } := by
  unfold checkPeer at h ⊢
  cases hip : parseIpv4 item.toList with
  | none => simp [hip] at h
  | some ip =>
    have hitem : ip.toString = item := String.toList_inj.mp (toString_of_parseIpv4 hip)
    by_cases hpublic : isPublic ip
    · by_cases hseen : c.seen.contains ip
      · simp [hip, hpublic, List.contains_iff_mem.mp hseen] at h
      · have hnew : ip ∉ c.seen := fun hmem => hseen (List.contains_iff_mem.mpr hmem)
        exact ⟨by simpa [hip, hpublic, hnew] using h, ip, hitem, hpublic, hnew, by simp [hpublic, hnew]⟩
    · simp [hip, hpublic] at h

theorem clean_of_checkPeers {items : List String} (h : (checkPeers items).out = []) : Clean items (checkPeers items) := by
  induction items using List.reverseRecOn with
  | nil => exact ⟨rfl, rfl, List.nodup_nil, fun ip hip => absurd hip List.not_mem_nil⟩
  | append_singleton items item ih =>
    rw [checkPeers_concat] at h ⊢
    obtain ⟨hout, ip, hitem, hpublic, hnew, heq⟩ := of_checkPeer h
    have hclean : Clean items (checkPeers items) := ih hout
    rw [heq]
    refine ⟨?_, ?_, ?_, ?_⟩
    · simp [hclean.entries, hitem]
    · simp [hclean.counted]
    · exact List.nodup_append.mpr ⟨hclean.distinct, List.nodup_singleton ip, fun a ha b hb hab => by
        cases List.mem_singleton.mp hb
        exact hnew (hab ▸ ha)⟩
    · intro ip' hip'
      rcases List.mem_append.mp hip' with hold | hlast
      · exact hclean.isPublic ip' hold
      · exact List.mem_singleton.mp hlast ▸ hpublic

/-- The reader takes a list of distinct addresses as it is. -/
theorem foldl_readPeer {ips : List Ipv4Addr} (h : ips.Nodup) :
    (ips.map Ipv4Addr.toString).foldl readPeer ([], 0) = (ips.map Ipv4Addr.toString, 0) := by
  induction ips using List.reverseRecOn with
  | nil => rfl
  | append_singleton ips ip ih =>
    obtain ⟨hips, -, hnew⟩ := List.nodup_append.mp h
    have hfresh : (ips.map Ipv4Addr.toString).contains ip.toString = false := by
      simp only [List.contains_eq_mem, decide_eq_false_iff_not, List.mem_map, not_exists, not_and]
      intro ip' hip' heq
      exact hnew ip' hip' ip (List.mem_singleton_self ip) (Ipv4Addr.toString_injective heq)
    rw [List.map_append, List.foldl_append, ih hips]
    simp only [List.map_cons, List.map_nil, List.foldl_cons, List.foldl_nil, readPeer, parseIpv4_toString, hfresh,
      Bool.false_eq_true, if_false]

/-- A blank list has no entry. -/
theorem splitCsv_blank {v : String} (h : blank v = true) : splitCsv v = [] := by
  have hspace := Text.isWhitespace_of_trim (List.isEmpty_iff.mp h)
  have hcomma : ',' ∉ v.toList := fun hmem => absurd (hspace ',' hmem) (by decide)
  have htrim : Text.trim v.toList = [] := List.isEmpty_iff.mp h
  simp [splitCsv, List.splitOn_eq_singleton hcomma, htrim]

theorem clean_peersOf {env : Env} (h : (peersOf env).out = []) :
    Clean (splitCsv ((env .priorityPeers).getD "")) (peersOf env) := by
  cases hget : get env .priorityPeers with
  | none =>
    have hnone : splitCsv ((env .priorityPeers).getD "") = [] := by
      cases hv : env .priorityPeers with
      | none => rfl
      | some v => exact splitCsv_blank (get_eq_none_iff.mp hget v hv)
    rw [hnone, peersOf, hget]
    exact ⟨rfl, rfl, List.nodup_nil, fun ip hip => absurd hip List.not_mem_nil⟩
  | some raw =>
    rw [peersOf, hget] at h ⊢
    rw [(get_eq_some_iff.mp hget).1]
    exact clean_of_checkPeers h

theorem of_checkExpected {debug : String → String} {env : Env} {peers : Nat} {v : String}
    (h : checkExpected debug env peers = []) (hv : get env .priorityPeersExpected = some v) : MeansNumber v peers := by
  rw [checkExpected, hv] at h
  cases hn : parseUnsigned USIZE_MAX (trimmed v) with
  | none => simp [hn] at h
  | some want =>
    obtain rfl : want = peers := by
      by_contra hne
      simp [hn, hne] at h
    exact numeral_of_parseUnsigned hn

/-! ## 6. An accepted environment -/

/-- Every setting in use is the one that is written, or the default of one that is not. -/
structure ReadAsWritten (env : Env) : Prop where
  peers : priorityPeersFromRaw ((env .priorityPeers).getD "") = splitCsv ((env .priorityPeers).getD "")
  distinct : (priorityPeersFromRaw ((env .priorityPeers).getD "")).Nodup
  isPublic : ∀ peer ∈ priorityPeersFromRaw ((env .priorityPeers).getD ""),
    ∃ ip : Ipv4Addr, peer = ip.toString ∧ isPublic ip
  tierPeers : (PriorityTier.fromEnv env).1.peers = priorityPeersFromRaw ((env .priorityPeers).getD "")
  expected : ∀ v, env .priorityPeersExpected = some v → blank v = false →
    MeansNumber v (PriorityTier.fromEnv env).1.peers.length
  exclusive : ReadAs (env .priorityExclusive) MeansFlag true (PriorityTier.fromEnv env).1.exclusiveFlag
  bootstrap : ReadAs (env .priorityBootstrap) MeansPolicy
    (if (PriorityTier.fromEnv env).1.exclusiveFlag then .prefer else .fallback) (PriorityTier.fromEnv env).2
  maxSessions : ReadAs (env .priorityMaxSessions) MeansNumber 0 (PriorityTier.fromEnv env).1.maxSessions
  stage : ReadAs (env .priorityStageMs) (MeansTime fromMillis) (fromMillis 1500) (PriorityTier.fromEnv env).1.stage
  standbys : ReadAs (env .failoverStandbys) MeansNumber 0 (FailoverConfig.fromEnv env).standbys
  stall : ReadAs (env .failoverStallMs) (MeansTime fromMillis) (fromMillis 400) (FailoverConfig.fromEnv env).stall
  lag : ReadAs (env .failoverLagMs) (MeansTime fromMillis) (fromMillis 150) (FailoverConfig.fromEnv env).lag
  minDwell : ReadAs (env .failoverDwellMs) (MeansTime fromMillis) (fromMillis 10000)
    (FailoverConfig.fromEnv env).minDwell
  rotateSlower : ReadAs (env .failoverRotateMs) (MeansTime fromMillis) (fromMillis 100)
    (FailoverConfig.fromEnv env).rotateSlower
  rotateEvery : ReadAs (env .failoverRotateSecs) (MeansTime fromSecs) (fromSecs 60)
    (FailoverConfig.fromEnv env).rotateEvery
  statusDir : ReadAs (env .failoverStatusDir) (fun v dir => dir = some v) none (FailoverConfig.fromEnv env).statusDir

/-- What an environment without problems passed, check by check. -/
structure Accepted (debug : String → String) (env : Env) : Prop where
  peers : (peersOf env).out = []
  expected : checkExpected debug env (peersOf env).peers = []
  exclusive : checkWord debug env .priorityExclusive parseBool "1|0|true|false|yes|no|on|off" = []
  bootstrap : checkWord debug env .priorityBootstrap BootstrapPolicy.parse "fallback|never|prefer" = []
  maxSessions : checkNumber debug env .priorityMaxSessions 0 USIZE_MAX = []
  stage : checkNumber debug env .priorityStageMs 200 3000 = []
  standbys : checkNumber debug env .failoverStandbys 0 16 = []
  numbers : ∀ p ∈ FAILOVER_NUMBERS, checkNumber debug env p.1 p.2.1 p.2.2 = []

namespace Accepted

variable {debug : String → String} {env : Env}

theorem of_problems (h : problems debug env true = []) : Accepted debug env := by
  simp only [problems, Bool.not_true, Bool.false_eq_true, if_false, List.append_eq_nil_iff,
    List.flatMap_eq_nil_iff] at h
  obtain ⟨⟨⟨⟨⟨⟨⟨hpeers, hexpected⟩, hexclusive⟩, hbootstrap⟩, hmax⟩, hstage⟩, hstandbys⟩, hnumbers⟩ := h
  exact ⟨hpeers, hexpected, hexclusive, hbootstrap, hmax, hstage, hstandbys, hnumbers⟩

theorem clean (h : Accepted debug env) : Clean (splitCsv ((env .priorityPeers).getD "")) (peersOf env) :=
  clean_peersOf h.peers

theorem priorityPeersFromRaw_eq (h : Accepted debug env) :
    priorityPeersFromRaw ((env .priorityPeers).getD "") = (peersOf env).seen.map Ipv4Addr.toString := by
  rw [priorityPeersFromRaw, ← h.clean.entries, foldl_readPeer h.clean.distinct]

/-- The five numbers: the floor of the reader, where it has one, moves nothing. -/
theorem number (h : Accepted debug env) (k : Setting) (lo hi d : Nat) (hmem : (k, lo, hi) ∈ FAILOVER_NUMBERS)
    (hd : lo ≤ d ∧ d ≤ hi) (hmax : hi ≤ U64_MAX) : ReadAs (env k) MeansNumber d (max (num env k d) lo) := by
  obtain ⟨hread, hfloor, -⟩ := readAs_of_checkNumber (h.numbers _ hmem) U64_MAX d hmax hd.1 hd.2 rfl
  have hmax : max (num env k d) lo = num env k d := Nat.max_eq_left hfloor
  exact hmax.symm ▸ hread

theorem readAs_stage (h : Accepted debug env) :
    ReadAs (env .priorityStageMs) (MeansTime fromMillis) (fromMillis 1500) (PriorityTier.fromEnv env).1.stage := by
  obtain ⟨hread, hlo, hhi⟩ := readAs_of_checkNumber h.stage U64_MAX DEFAULT_STAGE_MS (by decide) (by decide)
    (by decide) rfl
  have hclamp : max 200 (min (num env .priorityStageMs DEFAULT_STAGE_MS) 3000) =
      num env .priorityStageMs DEFAULT_STAGE_MS := by
    rw [num, Nat.min_eq_left hhi, Nat.max_eq_right hlo]
  have hstage : (PriorityTier.fromEnv env).1.stage = fromMillis (num env .priorityStageMs DEFAULT_STAGE_MS) :=
    congrArg fromMillis hclamp
  exact hstage.symm ▸ hread.time fromMillis

theorem readAs_standbys (h : Accepted debug env) :
    ReadAs (env .failoverStandbys) MeansNumber 0 (FailoverConfig.fromEnv env).standbys := by
  obtain ⟨hread, -, hcap⟩ := readAs_of_checkNumber h.standbys U64_MAX 0 (by decide) (by decide) (by decide) rfl
  have hstandbys : (FailoverConfig.fromEnv env).standbys = num env .failoverStandbys 0 := Nat.min_eq_left hcap
  exact hstandbys.symm ▸ hread

/-- The variable that only the check looks at. -/
theorem expected_peers (h : Accepted debug env) {v : String} (hv : env .priorityPeersExpected = some v)
    (hfull : blank v = false) : MeansNumber v (PriorityTier.fromEnv env).1.peers.length := by
  have hcount : (PriorityTier.fromEnv env).1.peers.length = (peersOf env).peers := by
    rw [h.clean.counted, ← h.clean.entries, ← h.priorityPeersFromRaw_eq]
    rfl
  rw [hcount]
  exact of_checkExpected h.expected (get_eq_some_iff.mpr ⟨hv, hfull⟩)

end Accepted

theorem readAs_statusDir (env : Env) :
    ReadAs (env .failoverStatusDir) (fun v dir => dir = some v) none (FailoverConfig.fromEnv env).statusDir where
  written _ hv hfull := get_eq_some_iff.mpr ⟨hv, hfull⟩
  unset hblank := get_eq_none_iff.mpr hblank

/-- **An accepted environment is read as written.** -/
theorem accepted_readAsWritten (debug : String → String) (env : Env) (h : problems debug env true = []) :
    ReadAsWritten env := by
  have hacc : Accepted debug env := .of_problems h
  have hpeers := hacc.priorityPeersFromRaw_eq
  -- dwell and rotation have no floor
  have hdwell := hacc.number .failoverDwellMs 0 DAY_MS 10000 (by decide) (by decide) (by decide)
  have hrotate := hacc.number .failoverRotateMs 0 DAY_MS 100 (by decide) (by decide) (by decide)
  rw [Nat.max_zero] at hdwell hrotate
  exact
    { peers := hpeers.trans hacc.clean.entries
      distinct := by
        rw [hpeers]
        exact hacc.clean.distinct.map Ipv4Addr.toString_injective
      isPublic := by
        intro peer hpeer
        rw [hpeers] at hpeer
        obtain ⟨ip, hip, rfl⟩ := List.mem_map.mp hpeer
        exact ⟨ip, rfl, hacc.clean.isPublic ip hip⟩
      tierPeers := rfl
      expected := fun _ => hacc.expected_peers
      exclusive := readAs_exclusive hacc.exclusive
      bootstrap := readAs_bootstrap hacc.bootstrap
      maxSessions := (readAs_of_checkNumber hacc.maxSessions USIZE_MAX 0 (Nat.le_refl _) (Nat.le_refl 0)
        (Nat.zero_le _) rfl).1
      stage := hacc.readAs_stage
      standbys := hacc.readAs_standbys
      stall := (hacc.number .failoverStallMs 50 DAY_MS 400 (by decide) (by decide) (by decide)).time fromMillis
      lag := (hacc.number .failoverLagMs 20 DAY_MS 150 (by decide) (by decide) (by decide)).time fromMillis
      minDwell := hdwell.time fromMillis
      rotateSlower := hrotate.time fromMillis
      rotateEvery := (hacc.number .failoverRotateSecs 10 DAY_SECS 60 (by decide) (by decide) (by decide)).time fromSecs
      statusDir := readAs_statusDir env }

/-- A priority list with spaces, a quoted flag, a signed number and a variable left blank. -/
def mixed : Env
  | .priorityPeers => some "1.2.3.4, 5.6.7.8 ,,9.10.11.12"
  | .priorityPeersExpected => some "3"
  | .priorityExclusive => some "\"Off\""
  | .priorityBootstrap => some " Prefer "
  | .priorityMaxSessions => some "2"
  | .failoverStandbys => some "+2"
  | .failoverStallMs => some " 050"
  | .failoverLagMs => some " "
  | _ => none

theorem accepted_readAsWritten_mixed :
    problems (fun v => v) mixed true = [] ∧ ReadAsWritten mixed ∧
      (PriorityTier.fromEnv mixed).1.peers = ["1.2.3.4", "5.6.7.8", "9.10.11.12"] := by
  have haccepted : problems (fun v => v) mixed true = [] := by decide
  have hread : ReadAsWritten mixed := accepted_readAsWritten _ mixed haccepted
  exact ⟨haccepted, hread, hread.tierPeers.trans (hread.peers.trans (by decide))⟩

end EnvCheck

end Hypersync
