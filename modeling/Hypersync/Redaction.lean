import Hypersync.Addresses
import Hypersync.Lib.WholeWord

/-!
# Priority addresses in the log

No log line may name a priority peer.  `redact_with` rewrites a line in place, one
address after the other: it looks for the address from where it stands, replaces an
occurrence by `prio-1`, `prio-2`, … if it is a whole address, and goes on behind the
label, or else one byte further.  Whole means not glued to more of an address: no
digit or dot in front, and neither a digit nor a dot and a digit behind.

Labels end in digits, addresses overlap one another, and an address may stand right
behind a label.  `redactLoop_spec` says that the loop for one address replaces its
whole occurrences and nothing else; that the loops do not get in each other's way is
the composition theorem of the library, for which it has to be shown that the
printed addresses are words (`isWord_toString`) and occur in no label.

Addresses are ASCII, so positions in bytes and in characters select the same texts.
-/

namespace Hypersync

open WholeWord

/-! ## 1. The redaction as written -/

/-- `text.find(needle)`: the texts before and behind the first occurrence. -/
def findSplit (needle : List Char) : List Char → Option (List Char × List Char)
  | [] => if needle = [] then some ([], []) else none
  | c :: text =>
    if needle <+: c :: text then some ([], (c :: text).drop needle.length)
    else (findSplit needle text).map fun s => (c :: s.1, s.2)

/-- `before_ok`, of what stands before the occurrence. -/
def beforeOk (before : List Char) : Bool :=
  match before.getLast? with
  | none => true
  | some c => !(c.isDigit || c == '.')

/-- `after_ok`, of what stands behind it. -/
def afterOk : List Char → Bool
  | [] => true
  | c :: rest =>
    if c.isDigit then false
    else if c = '.' then !(rest.head?.any Char.isDigit)
    else true

/-- `format!("prio-\x7b\x7d", i + 1)`. -/
def prioLabel (i : Nat) : List Char := ['p', 'r', 'i', 'o', '-'] ++ Nat.toDigits 10 (i + 1)

/-- The `while let` loop for one address, with `out[..from]` and `out[from..]`. -/
def redactLoop (ip label : List Char) : Nat → List Char → List Char → Option (List Char)
  | 0, _, _ => none
  | fuel + 1, done, rest =>
    match findSplit ip rest with
    | none => some (done ++ rest)
    | some (skip, behind) =>
      if beforeOk (done ++ skip) && afterOk behind then
        redactLoop ip label fuel (done ++ skip ++ label) behind
      else redactLoop ip label fuel (done ++ skip ++ (ip ++ behind).take 1) ((ip ++ behind).drop 1)

/-- The loop for one address, from the start of a text.  A turn takes at least one character. -/
def redactOne (ip label text : List Char) : Option (List Char) := redactLoop ip label (text.length + 1) [] text

/-- The addresses from the `i`-th on. -/
def redactAll : Nat → List String → List Char → Option (List Char)
  | _, [], out => some out
  | i, ip :: peers, out => (redactOne ip.toList (prioLabel i) out).bind (redactAll (i + 1) peers)

def redactWith (line : String) (peers : List String) : Option String :=
  if peers = [] ∨ (peers.any fun p => (findSplit p.toList line.toList).isSome) = false then some line
  else (redactAll 0 peers line.toList).map String.ofList

example : redactWith "via 1.2.3.4. not 11.2.3.4:4001" ["1.2.3.4"] = some "via prio-1. not 11.2.3.4:4001" := by
  decide

/-! ## 2. Addresses as words -/

def gluesAddress (c : Char) : Bool := c.isDigit || c == '.'

/-- The test behind an address looks at digits and dots only. -/
theorem afterOk_takeWhile (text : List Char) : afterOk text = afterOk (text.takeWhile gluesAddress) := by
  rcases text with _ | ⟨c, rest⟩
  · rfl
  rw [List.takeWhile_cons]
  by_cases hdigit : c.isDigit = true
  · rw [if_pos (by rw [gluesAddress, hdigit, Bool.true_or]), afterOk, afterOk, if_pos hdigit, if_pos hdigit]
  by_cases hdot : c = '.'
  · subst hdot
    rw [if_pos (by decide), afterOk, afterOk, if_neg hdigit, if_neg hdigit, if_pos rfl, if_pos rfl]
    rcases rest with _ | ⟨d, rest⟩
    · rfl
    rw [List.takeWhile_cons]
    split
    · rfl
    · next hglue =>
      have hd : d.isDigit = false := by
        rw [gluesAddress, Bool.or_eq_true, not_or, Bool.not_eq_true] at hglue
        exact hglue.1
      simp only [List.head?_cons, List.head?_nil, Option.any_some, Option.any_none, hd]
  · have hglue : ¬ gluesAddress c = true := by
      rw [gluesAddress, Bool.or_eq_true, beq_iff_eq]
      exact fun h => h.elim hdigit hdot
    rw [if_neg hglue, afterOk, afterOk, if_neg hdigit, if_neg hdot]

/-- Where a whole address can begin and end. -/
def addressBoundary : Boundary Char where
  glue := gluesAddress
  ok := afterOk
  ok_congr := by
    intro a b h
    rw [afterOk_takeWhile a, h, ← afterOk_takeWhile b]

theorem beforeOk_eq (before : List Char) : beforeOk before = addressBoundary.opens true before := by
  rcases List.eq_nil_or_concat before with rfl | ⟨pre, c, rfl⟩
  · rfl
  · rw [List.concat_eq_append, beforeOk, opens_append, List.getLast?_concat]
    rfl

/-- No end of the text can stand behind an address. -/
def Shut (w : List Char) : Prop := ∀ u v post, w = u ++ v → v ≠ [] → afterOk (v ++ post) = false

theorem shut_cons {c : Char} {w : List Char} (hc : ∀ post, afterOk (c :: (w ++ post)) = false) (hw : Shut w) :
    Shut (c :: w) := by
  intro u v post heq hv
  cases u with
  | nil =>
    rw [List.nil_append] at heq
    rw [← heq, List.cons_append]
    exact hc post
  | cons d u => exact hw u v post (List.cons.inj heq).2 hv

theorem shut_digits {ds w : List Char} (hds : ∀ c ∈ ds, c.isDigit = true) (hw : Shut w) : Shut (ds ++ w) := by
  induction ds with
  | nil => exact hw
  | cons d ds ih =>
    refine shut_cons (fun post => ?_) (ih fun c hc => hds c (List.mem_cons_of_mem d hc))
    rw [afterOk, if_pos (hds d List.mem_cons_self)]

/-- A dot is shut by the digit behind it. -/
theorem shut_dot {ds w : List Char} (hds : ∀ c ∈ ds, c.isDigit = true) (hne : ds ≠ []) (hw : Shut w) :
    Shut ('.' :: (ds ++ w)) := by
  obtain ⟨d, ds, rfl⟩ := List.exists_cons_of_ne_nil hne
  refine shut_cons (fun post => ?_) (shut_digits hds hw)
  rw [afterOk, if_neg (by decide), if_pos rfl, List.cons_append, List.cons_append, List.head?_cons,
    Option.any_some, hds d List.mem_cons_self]
  rfl

theorem isWord_toString (ip : Ipv4Addr) : IsWord addressBoundary ip.toString.toList := by
  obtain ⟨a, b, c, d⟩ := ip
  have hdigits : ∀ n : UInt8, ∀ x ∈ Nat.toDigits 10 n.toNat, x.isDigit = true := fun n x hx =>
    Text.isDigit_toDigits hx
  have htext : (Ipv4Addr.toString (a, b, c, d)).toList = Nat.toDigits 10 a.toNat ++
      ('.' :: (Nat.toDigits 10 b.toNat ++ ('.' :: (Nat.toDigits 10 c.toNat ++
        ('.' :: (Nat.toDigits 10 d.toNat ++ [])))))) := by
    rw [Ipv4Addr.toString, String.toList_ofList, Ipv4Addr.parts]
    simp only [List.intercalate, List.intersperse, List.flatten_cons, List.flatten_nil, List.singleton_append,
      List.append_nil]
  refine ⟨?_, ?_, ?_⟩
  · rw [htext]
    exact List.append_ne_nil_of_left_ne_nil Nat.toDigits_ne_nil _
  · intro x hx
    rcases Ipv4Addr.mem_toString hx with hx | rfl
    · exact Bool.or_eq_true_iff.mpr (Or.inl hx)
    · rfl
  · have hnil : Shut [] := fun u v _ heq hv => absurd (List.append_eq_nil_iff.mp heq.symm).2 hv
    have hshut := shut_digits (hdigits a) (shut_dot (hdigits b) Nat.toDigits_ne_nil
      (shut_dot (hdigits c) Nat.toDigits_ne_nil (shut_dot (hdigits d) Nat.toDigits_ne_nil hnil)))
    rw [← htext] at hshut
    exact hshut

theorem dot_mem_toString (ip : Ipv4Addr) : '.' ∈ ip.toString.toList := by
  rw [Ipv4Addr.toString, String.toList_ofList, Ipv4Addr.parts]
  simp [List.intercalate]

theorem dot_not_mem_prioLabel (i : Nat) : '.' ∉ prioLabel i := by
  rw [prioLabel, List.mem_append]
  rintro (h | h)
  · exact absurd h (by decide)
  · exact absurd (Text.isDigit_toDigits h) (by decide)

theorem not_infix_prioLabel (ip : Ipv4Addr) (i : Nat) : ¬ ip.toString.toList <:+: prioLabel i := by
  intro h
  exact dot_not_mem_prioLabel i (h.subset (dot_mem_toString ip))

/-- A label ends in a digit. -/
theorem opens_prioLabel (i : Nat) : addressBoundary.opens true (prioLabel i) = false := by
  rw [prioLabel, opens_append]
  obtain ⟨d, ds, hds⟩ := List.exists_cons_of_ne_nil (Nat.toDigits_ne_nil (b := 10) (n := i + 1))
  have hglue : ∀ c ∈ d :: ds, addressBoundary.glue c = true := by
    intro c hc
    rw [← hds] at hc
    exact Bool.or_eq_true_iff.mpr (Or.inl (Text.isDigit_toDigits hc))
  rw [hds, opens_cons, hglue d List.mem_cons_self]
  exact opens_of_glued fun c hc => hglue c (List.mem_cons_of_mem d hc)

/-- What becomes of the `i`-th address. -/
def priorityRule (i : Nat) (ip : Ipv4Addr) : Rule Char := ⟨ip.toString.toList, prioLabel i⟩

-- unfolding the rule by unification would evaluate the printed text
theorem priorityRule_word (i : Nat) (ip : Ipv4Addr) : (priorityRule i ip).word = ip.toString.toList := by
  rw [priorityRule]

theorem priorityRule_label (i : Nat) (ip : Ipv4Addr) : (priorityRule i ip).label = prioLabel i := by
  rw [priorityRule]

def priorityRules (peers : List Ipv4Addr) : List (Rule Char) := peers.mapIdx priorityRule

/-! ## 3. One address -/

theorem findSplit_none {needle : List Char} {text : List Char} (h : findSplit needle text = none) :
    ¬ needle <:+: text := by
  induction text with
  | nil =>
    rw [findSplit] at h
    split at h
    · cases h
    · next hne => exact fun hinf => hne (List.infix_nil.mp hinf)
  | cons c text ih =>
    rw [findSplit] at h
    split at h
    · cases h
    · next hpre =>
      rw [List.infix_cons_iff]
      exact fun hinf => hinf.elim hpre (ih (Option.map_eq_none_iff.mp h))

theorem findSplit_some {needle text : List Char} : ∀ {skip behind : List Char},
    findSplit needle text = some (skip, behind) → text = skip ++ (needle ++ behind) ∧
      ∀ x u, skip = x ++ u → u ≠ [] → ¬ needle <+: u ++ (needle ++ behind) := by
  induction text with
  | nil =>
    intro skip behind h
    rw [findSplit] at h
    split at h
    · next hnil =>
      cases h
      rw [hnil]
      exact ⟨rfl, fun x u hs hu => absurd (List.append_eq_nil_iff.mp hs.symm).2 hu⟩
    · cases h
  | cons c text ih =>
    intro skip behind h
    rw [findSplit] at h
    split at h
    · next hpre =>
      cases h
      obtain ⟨t, ht⟩ := hpre
      rw [← ht, List.drop_left]
      exact ⟨rfl, fun x u hs hu => absurd (List.append_eq_nil_iff.mp hs.symm).2 hu⟩
    · next hpre =>
      obtain ⟨⟨s, t⟩, hfind, heq⟩ := Option.map_eq_some_iff.mp h
      cases heq
      obtain ⟨rfl, hnone⟩ := ih hfind
      refine ⟨rfl, ?_⟩
      intro x u hs hu
      cases x with
      | nil =>
        rw [List.nil_append] at hs
        rw [← hs]
        exact hpre
      | cons d x => exact hnone x u (List.cons.inj hs).2 hu

/-- **The loop for one address** replaces its whole occurrences and nothing else. -/
theorem redactLoop_spec {ip label : List Char} (hip : IsWord addressBoundary ip)
    (hlabel : addressBoundary.opens true label = false) {fuel : Nat} :
    ∀ (done rest : List Char), rest.length < fuel →
      ∃ out, redactLoop ip label fuel done rest = some (done ++ out) ∧
        Replaces addressBoundary [⟨ip, label⟩] (beforeOk done) rest out := by
  induction fuel with
  | zero =>
    intro done rest hfuel
    exact absurd hfuel (Nat.not_lt_zero _)
  | succ fuel ih =>
    intro done rest hfuel
    rw [redactLoop]
    rcases hfind : findSplit ip rest with _ | ⟨skip, behind⟩
    · refine ⟨rest, rfl, replaces_self ?_⟩
      rintro r hr ⟨pre, post, rfl, -, -⟩
      rw [List.mem_singleton.mp hr] at hfind
      exact findSplit_none hfind ⟨pre, post, (List.append_assoc _ _ _)⟩
    obtain ⟨rfl, hnone⟩ := findSplit_some hfind
    obtain ⟨c, w', rfl, hc, -⟩ := hip.exists_cons
    have hstate : addressBoundary.opens (beforeOk done) skip = beforeOk (done ++ skip) := by
      rw [beforeOk_eq, beforeOk_eq, opens_append]
    have hskip : ∀ x u, skip = x ++ u → u ≠ [] →
        ∀ r ∈ [(⟨c :: w', label⟩ : Rule Char)], ¬ r.word <+: u ++ (c :: w' ++ behind) := by
      intro x u hs hu r hr
      rw [List.mem_singleton.mp hr]
      exact hnone x u hs hu
    simp only [List.length_append, List.length_cons] at hfuel
    simp only
    split
    · next hwhole =>
      obtain ⟨hbefore, hafter⟩ := Bool.and_eq_true_iff.mp hwhole
      have hclosed : beforeOk (done ++ skip ++ label) = false := by
        rw [beforeOk_eq, opens_append, ← beforeOk_eq, hbefore, hlabel]
      obtain ⟨out, hrun, hrep⟩ := ih (done ++ skip ++ label) behind (by omega)
      rw [hclosed] at hrep
      refine ⟨skip ++ (label ++ out), ?_, Replaces.skip ?_ hskip⟩
      · rw [hrun, List.append_assoc, List.append_assoc]
      · rw [hstate, hbefore]
        exact Replaces.replace List.mem_cons_self hafter hrep
    · next hnot =>
      obtain ⟨out, hrun, hrep⟩ :=
        ih (done ++ skip ++ [c]) (w' ++ behind) (by rw [List.length_append]; omega)
      have hopen : beforeOk (done ++ skip ++ [c]) = !addressBoundary.glue c := by
        rw [beforeOk_eq, opens_append]
        rfl
      rw [hopen] at hrep
      refine ⟨skip ++ (c :: out), ?_, Replaces.skip ?_ hskip⟩
      · rw [List.cons_append, List.take_succ_cons, List.take_zero, List.drop_succ_cons, List.drop_zero, hrun]
        simp only [List.append_assoc, List.singleton_append]
      · refine Replaces.keep ?_ hrep
        intro hb r hr post heq
        rw [List.mem_singleton.mp hr] at heq
        -- the occurrence found is the one that was refused
        have hpost : behind = post := List.append_cancel_left (show c :: w' ++ behind = c :: w' ++ post from heq)
        rw [← hpost]
        rw [hstate] at hb
        rw [hb, Bool.true_and, Bool.not_eq_true] at hnot
        exact hnot

theorem redactOne_spec (ip : Ipv4Addr) (i : Nat) (text : List Char) :
    ∃ out, redactOne ip.toString.toList (prioLabel i) text = some out ∧
      Replaces addressBoundary [priorityRule i ip] true text out :=
  redactLoop_spec (isWord_toString ip) (opens_prioLabel i) [] text (Nat.lt_succ_self _)

/-! ## 4. All addresses -/

/-- Rules of addresses and labels, in whatever order and number. -/
def OfPeers (rules : List (Rule Char)) : Prop := ∀ r ∈ rules, ∃ i ip, r = priorityRule i ip

theorem ofPeers_singleton (i : Nat) (ip : Ipv4Addr) : OfPeers [priorityRule i ip] := fun _ hr =>
  ⟨i, ip, List.mem_singleton.mp hr⟩

theorem OfPeers.append {rules rules' : List (Rule Char)} (h : OfPeers rules) (h' : OfPeers rules') :
    OfPeers (rules ++ rules') := fun r hr => (List.mem_append.mp hr).elim (h r) (h' r)

theorem OfPeers.valid {rules : List (Rule Char)} (h : OfPeers rules) : Valid addressBoundary rules where
  isWord := by
    intro r hr
    obtain ⟨i, ip, rfl⟩ := h r hr
    rw [priorityRule_word]
    exact isWord_toString ip
  closes := by
    intro r hr
    obtain ⟨i, ip, rfl⟩ := h r hr
    rw [priorityRule_label]
    exact opens_prioLabel i

/-- No label brings an address back. -/
theorem OfPeers.apart {rules rules' : List (Rule Char)} (h : OfPeers rules) (h' : OfPeers rules') :
    ∀ r ∈ rules, ∀ r' ∈ rules', ¬ r'.word <:+: r.label := by
  intro r hr r' hr'
  obtain ⟨i, ip, rfl⟩ := h r hr
  obtain ⟨j, jp, rfl⟩ := h' r' hr'
  rw [priorityRule_word, priorityRule_label]
  exact not_infix_prioLabel jp i

theorem exists_of_mem_priorityRules {peers : List Ipv4Addr} {r : Rule Char} (h : r ∈ priorityRules peers) :
    ∃ i ip, peers[i]? = some ip ∧ r = priorityRule i ip := by
  obtain ⟨i, hi, rfl⟩ := List.mem_mapIdx.mp h
  exact ⟨i, peers[i], List.getElem?_eq_getElem hi, rfl⟩

theorem ofPeers_priorityRules (peers : List Ipv4Addr) : OfPeers (priorityRules peers) := by
  intro r hr
  obtain ⟨i, ip, -, rfl⟩ := exists_of_mem_priorityRules hr
  exact ⟨i, ip, rfl⟩

/-- Distinct addresses have distinct rules. -/
theorem priorityRules_det {peers : List Ipv4Addr} (hnodup : peers.Nodup) :
    ∀ r ∈ priorityRules peers, ∀ r' ∈ priorityRules peers, r.word = r'.word → r = r' := by
  intro r hr r' hr' hword
  obtain ⟨i, ip, hi, rfl⟩ := exists_of_mem_priorityRules hr
  obtain ⟨j, jp, hj, rfl⟩ := exists_of_mem_priorityRules hr'
  rw [priorityRule_word, priorityRule_word] at hword
  obtain rfl := Ipv4Addr.toString_injective (String.toList_injective hword)
  have hlt := (List.getElem?_eq_some_iff.mp hi).1
  rw [(List.getElem?_inj hlt hnodup).mp (hi.trans hj.symm)]

/-- An address that is whole after the loop for `ip` was whole before it and is not `ip`. -/
theorem hasWhole_of_redactOne {i : Nat} {ip other : Ipv4Addr} {text out : List Char}
    (h : Replaces addressBoundary [priorityRule i ip] true text out)
    (hwhole : HasWhole addressBoundary true other.toString.toList out) :
    HasWhole addressBoundary true other.toString.toList text ∧ other ≠ ip := by
  obtain ⟨hbefore, hne⟩ := hasWhole_of_replaces (ofPeers_singleton i ip).valid (isWord_toString other) (by
    intro r hr
    rw [List.mem_singleton.mp hr, priorityRule_label]
    exact not_infix_prioLabel other i) h hwhole
  refine ⟨hbefore, ?_⟩
  rintro rfl
  exact hne _ List.mem_cons_self (priorityRule_word i other)

/-- The loops of the addresses from `i` on, after those of `rules`. -/
theorem redactAll_spec (line : List Char) (peers : List Ipv4Addr) :
    ∀ (i : Nat) (rules : List (Rule Char)) {mid : List Char}, OfPeers rules →
      Replaces addressBoundary rules true line mid →
      ∃ out, redactAll i (peers.map Ipv4Addr.toString) mid = some out ∧
        Replaces addressBoundary (rules ++ peers.mapIdx fun k => priorityRule (i + k)) true line out := by
  induction peers with
  | nil =>
    intro i rules mid _ h
    exact ⟨mid, rfl, by rwa [List.mapIdx_nil, List.append_nil]⟩
  | cons ip peers ih =>
    intro i rules mid hrules h
    obtain ⟨out, hrun, hone⟩ := redactOne_spec ip i mid
    have hsingle := ofPeers_singleton i ip
    have hcomp := h.comp hrules.valid hsingle.valid (hrules.apart hsingle) hone
    obtain ⟨out', hrun', hall⟩ := ih (i + 1) (rules ++ [priorityRule i ip]) (hrules.append hsingle) hcomp
    refine ⟨out', ?_, ?_⟩
    · rw [List.map_cons, redactAll, hrun, Option.bind_some, hrun']
    · rw [List.append_assoc, List.singleton_append] at hall
      rw [List.mapIdx_cons]
      simp only [Nat.add_zero]
      have hshift : (fun k => priorityRule (i + 1 + k)) = fun k => priorityRule (i + (k + 1)) := by
        funext k
        rw [show i + 1 + k = i + (k + 1) by omega]
      rwa [hshift] at hall

/-- A line that contains none of the addresses is its own redaction. -/
theorem redactWith_spec (line : String) (peers : List Ipv4Addr) :
    ∃ out, redactWith line (peers.map Ipv4Addr.toString) = some out ∧
      Replaces addressBoundary (priorityRules peers) true line.toList out.toList := by
  unfold redactWith
  split
  · next hearly =>
    refine ⟨line, rfl, replaces_self ?_⟩
    rintro r hr ⟨pre, post, heq, -, -⟩
    obtain ⟨i, ip, hip, rfl⟩ := exists_of_mem_priorityRules hr
    have hmem : ip.toString ∈ peers.map Ipv4Addr.toString :=
      List.mem_map_of_mem (List.mem_of_getElem? hip)
    rcases hearly with hnil | hnone
    · rw [hnil] at hmem
      exact absurd hmem List.not_mem_nil
    · have hfind := List.any_eq_false.mp hnone _ hmem
      rw [Bool.not_eq_true, Option.isSome_eq_false_iff, Option.isNone_iff_eq_none] at hfind
      rw [priorityRule_word] at heq
      exact findSplit_none hfind ⟨pre, post, by rw [heq, List.append_assoc]⟩
  · obtain ⟨out, hrun, hrep⟩ := redactAll_spec line.toList peers 0 []
      (fun r hr => absurd hr List.not_mem_nil) (replaces_self fun r hr => absurd hr List.not_mem_nil)
    refine ⟨String.ofList out, by rw [hrun]; rfl, ?_⟩
    rw [String.toList_ofList]
    simp only [List.nil_append, Nat.zero_add] at hrep
    exact hrep

/-- **Redaction leaves no priority address.**  `redact_with` returns the one text in which every
    whole occurrence of the `i`-th address is replaced by its label and the rest is as it
    was.  No listed address is left whole; redacting again changes nothing; and the loop
    for one address never makes another one whole, in whatever text. -/
theorem redactWith_correct (line : String) (peers : List Ipv4Addr) (hnodup : peers.Nodup) :
    ∃ out, redactWith line (peers.map Ipv4Addr.toString) = some out ∧
      (∀ text, Replaces addressBoundary (priorityRules peers) true line.toList text ↔ text = out.toList) ∧
      (∀ ip ∈ peers, ¬ HasWhole addressBoundary true ip.toString.toList out.toList) ∧
      redactWith out (peers.map Ipv4Addr.toString) = some out ∧
      ∀ i ip, peers[i]? = some ip → ∀ text, ∃ text',
        redactOne ip.toString.toList (prioLabel i) text = some text' ∧
        ∀ other, HasWhole addressBoundary true (Ipv4Addr.toString other).toList text' →
          HasWhole addressBoundary true (Ipv4Addr.toString other).toList text ∧ other ≠ ip := by
  have hrules := ofPeers_priorityRules peers
  obtain ⟨out, hrun, hrep⟩ := redactWith_spec line peers
  have hclean : ∀ r ∈ priorityRules peers, ¬ HasWhole addressBoundary true r.word out.toList := fun r hr =>
    not_hasWhole_of_replaces hrules.valid (hrules.apart hrules) hrep hr
  refine ⟨out, hrun, ?_, ?_, ?_, ?_⟩
  · intro text
    constructor
    · intro h
      exact h.unique hrules.valid (priorityRules_det hnodup) hrep
    · rintro rfl
      exact hrep
  · intro ip hip
    obtain ⟨i, hi, rfl⟩ := List.mem_iff_getElem.mp hip
    have hnone := hclean (priorityRule i peers[i]) (List.mem_mapIdx.mpr ⟨i, hi, rfl⟩)
    rwa [priorityRule_word] at hnone
  · obtain ⟨again, hrun', hrep'⟩ := redactWith_spec out peers
    rw [hrun', String.toList_injective (hrep'.eq_of_clean hclean)]
  · intro i ip _ text
    obtain ⟨text', hone, hrep'⟩ := redactOne_spec ip i text
    exact ⟨text', hone, fun other => hasWhole_of_redactOne hrep'⟩

/-- Two addresses, one of them glued to a third octet of more digits. -/
theorem redactWith_two :
    [((1, 2, 3, 4) : Ipv4Addr), (1, 2, 3, 40)].Nodup ∧
    redactWith "1.2.3.4>1.2.3.40" ["1.2.3.4", "1.2.3.40"] = some "prio-1>prio-2" ∧
    redactWith "prio-1>prio-2" ["1.2.3.4", "1.2.3.40"] = some "prio-1>prio-2" := by
  have hrun : redactWith "1.2.3.4>1.2.3.40" ["1.2.3.4", "1.2.3.40"] = some "prio-1>prio-2" := by decide
  have hnodup : [((1, 2, 3, 4) : Ipv4Addr), (1, 2, 3, 40)].Nodup := by decide
  refine ⟨hnodup, hrun, ?_⟩
  obtain ⟨out, hout, -, -, hagain, -⟩ :=
    redactWith_correct "1.2.3.4>1.2.3.40" [(1, 2, 3, 4), (1, 2, 3, 40)] hnodup
  have hsame : out = "prio-1>prio-2" := Option.some.inj (hout.symm.trans hrun)
  rw [hsame] at hagain
  exact hagain

end Hypersync
