import Hypersync.Peerd.PeersFile
import Hypersync.Protocol.Lz4FirstN
import Hypersync.Lib.Word

/-!
# Decoding an answer to `query_peers`

The answer is a variant tag, a count in the protocol's compact integer form and
then seven bytes for each address.  All of it comes from a peer: the count drives
the loop and may be any 64-bit number, and the bytes may end anywhere.

`parse_query_peers_response` is embedded with its slice accesses checked (`Fault`)
and with the turns of its loop counted.  `entryLoop_spec` says what the loop has
read: whole entries up to the first place where there is none.  Both halves of the
main theorem come from it, the safety on any bytes and, since such a reading is
unique (`entries_unique`), the round trip.
-/

namespace Hypersync.Peerd

open Protocol (Fault byteAt byteAt_eq drop_succ_of_cons)

/-! ## 1. The parser as written -/

/-- The bytes `*b.get(i)?, *b.get(i + 1)?, …`, `n` of them. -/
def getBytes (b : List UInt8) : Nat → Nat → Option (List UInt8)
  | _, 0 => some []
  | i, n + 1 =>
    match b[i]? with
    | none => none
    | some x => (getBytes b (i + 1) n).map (x :: ·)

/-- The value, and the bytes it takes. -/
def readHlVarint (b : List UInt8) : Option (Nat × Nat) :=
  match b[0]? with
  | none => none
  | some lead =>
    if lead = 0xfb then (getBytes b 1 2).map fun arr => (Word.leValue arr, 3)
    else if lead = 0xfc then (getBytes b 1 4).map fun arr => (Word.leValue arr, 5)
    else if lead = 0xfd then (getBytes b 1 8).map fun arr => (Word.leValue arr, 9)
    else if lead = 0xfe then none
    else some (lead.toNat, 1)

/-- The four octets of the entry at `off`. -/
def octetsAt (payload : List UInt8) (off : Nat) : Except Fault Ipv4Addr :=
  match byteAt payload (off + 1), byteAt payload (off + 2), byteAt payload (off + 3),
    byteAt payload (off + 4) with
  | .ok a, .ok b, .ok c, .ok d => .ok (a, b, c, d)
  | .error e, _, _, _ => .error e
  | _, .error e, _, _ => .error e
  | _, _, .error e, _ => .error e
  | _, _, _, .error e => .error e

/-- The `for _ in 0..count` loop; `turns` counts how often its body is entered. -/
def entryLoop (payload : List UInt8) :
    Nat → Nat → Nat → List String → Except Fault (Nat × List String)
  | 0, _, turns, out => .ok (turns, out)
  | count + 1, off, turns, out =>
    if payload[off]? ≠ some 0 ∨ payload.length < off + 7 then .ok (turns + 1, out)
    else
      match octetsAt payload off with
      | .error e => .error e
      | .ok ip =>
        entryLoop payload count (off + 7) (turns + 1)
          (if isRoutable ip.toString then out ++ [ip.toString] else out)

/-- `&payload[1..]`. -/
def sliceFromOne (payload : List UInt8) : Except Fault (List UInt8) :=
  if payload.length < 1 then .error .indexOutOfRange else .ok (payload.drop 1)

/-- `parse_query_peers_response`, with the turns of its loop. -/
def queryPeersRun (payload : List UInt8) : Except Fault (Nat × List String) :=
  if payload.head? ≠ some 1 then .ok (0, [])
  else
    match sliceFromOne payload with
    | .error e => .error e
    | .ok rest =>
      match readHlVarint rest with
      | none => .ok (0, [])
      | some (count, adv) => entryLoop payload count (1 + adv) 0 []

def parseQueryPeersResponse (payload : List UInt8) : Except Fault (List String) :=
  (queryPeersRun payload).map Prod.snd

/-! ## 2. The format -/

/-- An entry; the two bytes behind the address are not looked at. -/
structure Entry where
  ip : Ipv4Addr
  x : UInt8
  y : UInt8
deriving DecidableEq, Repr

def Entry.bytes (e : Entry) : List UInt8 := [0, e.ip.1, e.ip.2.1, e.ip.2.2.1, e.ip.2.2.2, e.x, e.y]

def entryBytes (es : List Entry) : List UInt8 := (es.map Entry.bytes).flatten

theorem entryBytes_cons (e : Entry) (es : List Entry) : entryBytes (e :: es) = e.bytes ++ entryBytes es := rfl

theorem length_entryBytes (es : List Entry) : (entryBytes es).length = 7 * es.length := by
  induction es with
  | nil => rfl
  | cons e es ih =>
    rw [entryBytes_cons, List.length_append, ih, List.length_cons, Entry.bytes]
    simp only [List.length_cons, List.length_nil]
    omega

/-- The addresses a crawl can use, in the order of the entries. -/
def routableOf (es : List Entry) : List String := (es.map fun e => e.ip.toString).filter isRoutable

/-- No complete entry stands here. -/
def Malformed (rest : List UInt8) : Prop := ∀ (e : Entry) (tail : List UInt8), rest ≠ e.bytes ++ tail

/-- The forms a count can take. -/
inductive VarintWidth where
  | lead
  | u16
  | u32
  | u64
deriving DecidableEq, Repr

namespace VarintWidth

/-- The first value that does not fit. -/
def limit : VarintWidth → Nat
  | lead => 0xfb
  | u16 => 65536
  | u32 => 4294967296
  | u64 => 18446744073709551616

def encode : VarintWidth → Nat → List UInt8
  | lead, n => [UInt8.ofNat n]
  | u16, n => 0xfb :: Word.leBytes 2 n
  | u32, n => 0xfc :: Word.leBytes 4 n
  | u64, n => 0xfd :: Word.leBytes 8 n

end VarintWidth

/-- An answer that lists the entries. -/
def encodeResponse (width : VarintWidth) (es : List Entry) : List UInt8 :=
  1 :: (width.encode es.length ++ entryBytes es)

/-! ## 3. The count -/

theorem getBytes_append (bs rest : List UInt8) :
    ∀ before : List UInt8, getBytes (before ++ (bs ++ rest)) before.length bs.length = some bs := by
  induction bs with
  | nil =>
    intro before
    rfl
  | cons b bs ih =>
    intro before
    have hget : (before ++ (b :: bs ++ rest))[before.length]? = some b := by
      rw [List.getElem?_append_right (Nat.le_refl _), Nat.sub_self]
      rfl
    have hnext := ih (before ++ [b])
    rw [List.append_assoc, List.length_append, List.length_singleton] at hnext
    rw [List.length_cons, getBytes, hget]
    simp only
    rw [show before ++ (b :: bs ++ rest) = before ++ ([b] ++ (bs ++ rest)) from rfl, hnext]
    rfl

/-- Every width reads back what it wrote, whatever follows. -/
theorem readHlVarint_encode (width : VarintWidth) {n : Nat} (hn : n < width.limit) (rest : List UInt8) :
    readHlVarint (width.encode n ++ rest) = some (n, (width.encode n).length) := by
  have hwide : ∀ (lead : UInt8) (k : Nat), n < Word.leRange k →
      (getBytes (lead :: (Word.leBytes k n ++ rest)) 1 k).map Word.leValue = some n := by
    intro lead k hk
    have hget := getBytes_append (Word.leBytes k n) rest [lead]
    rw [Word.length_leBytes] at hget
    rw [show lead :: (Word.leBytes k n ++ rest) = [lead] ++ (Word.leBytes k n ++ rest) from rfl]
    rw [show getBytes ([lead] ++ (Word.leBytes k n ++ rest)) 1 k = some (Word.leBytes k n) from hget,
      Option.map_some, Word.leValue_leBytes k hk]
  have hpair : ∀ (o : Option (List UInt8)) (adv : Nat), o.map Word.leValue = some n →
      (o.map fun arr => (Word.leValue arr, adv)) = some (n, adv) := by
    intro o adv ho
    obtain ⟨arr, rfl, harr⟩ := Option.map_eq_some_iff.mp ho
    rw [Option.map_some, harr]
  cases width with
  | lead =>
    have hsmall : n < 251 := hn
    have hval : (UInt8.ofNat n).toNat = n := by
      rw [UInt8.toNat_ofNat']
      omega
    have hne : ∀ b : UInt8, 251 ≤ b.toNat → UInt8.ofNat n ≠ b := by
      intro b hb heq
      rw [← heq, hval] at hb
      omega
    simp only [VarintWidth.encode, List.cons_append, List.nil_append, readHlVarint, List.getElem?_cons_zero]
    rw [if_neg (hne _ (by decide)), if_neg (hne _ (by decide)), if_neg (hne _ (by decide)),
      if_neg (hne _ (by decide)), hval]
    rfl
  | u16 => exact hpair _ 3 (hwide 0xfb 2 hn)
  | u32 => exact hpair _ 5 (hwide 0xfc 4 hn)
  | u64 => exact hpair _ 9 (hwide 0xfd 8 hn)

/-! ## 4. The entries -/

theorem octetsAt_entry {payload tail : List UInt8} {off : Nat} {e : Entry}
    (h : payload.drop off = e.bytes ++ tail) :
    octetsAt payload off = .ok e.ip ∧ payload[off]? = some 0 ∧ off + 7 ≤ payload.length ∧
      payload.drop (off + 7) = tail := by
  obtain ⟨-, h1⟩ := drop_succ_of_cons h
  obtain ⟨-, h2⟩ := drop_succ_of_cons h1
  obtain ⟨-, h3⟩ := drop_succ_of_cons h2
  obtain ⟨-, h4⟩ := drop_succ_of_cons h3
  obtain ⟨-, h5⟩ := drop_succ_of_cons h4
  obtain ⟨-, h6⟩ := drop_succ_of_cons h5
  obtain ⟨hlt, h7⟩ := drop_succ_of_cons h6
  refine ⟨?_, ?_, hlt, h7⟩
  · rw [octetsAt, byteAt_eq h1, byteAt_eq h2, byteAt_eq h3, byteAt_eq h4]
  · rw [← List.head?_drop, h]
    rfl

/-- The guard of the loop body holds exactly where no entry stands. -/
theorem malformed_or_entry (payload : List UInt8) (off : Nat) :
    (Malformed (payload.drop off) ∧ (payload[off]? ≠ some 0 ∨ payload.length < off + 7)) ∨
      ∃ e tail, payload.drop off = Entry.bytes e ++ tail := by
  by_cases hguard : payload[off]? ≠ some 0 ∨ payload.length < off + 7
  · refine Or.inl ⟨?_, hguard⟩
    intro e tail hentry
    obtain ⟨-, hzero, hlen, -⟩ := octetsAt_entry hentry
    rcases hguard with hne | hshort
    · exact hne hzero
    · omega
  · refine Or.inr ?_
    rw [not_or, not_not] at hguard
    have hlen : (payload.drop off).length = payload.length - off := List.length_drop
    have hhead : (payload.drop off).head? = some 0 := by rw [List.head?_drop, hguard.1]
    rcases hdrop : payload.drop off with _ | ⟨z, _ | ⟨a, _ | ⟨b, _ | ⟨c, _ | ⟨d, _ | ⟨x, _ | ⟨y, tail⟩⟩⟩⟩⟩⟩⟩
    all_goals
      rw [hdrop] at hlen hhead
      simp only [List.length_cons, List.length_nil] at hlen
    case cons.cons.cons.cons.cons.cons.cons =>
      cases hhead
      exact ⟨⟨(a, b, c, d), x, y⟩, tail, rfl⟩
    all_goals omega

/-- **What the loop reads.**  Whole entries from `off` on, until the count is used up or
    none follows; and it takes one turn more than that at most. -/
theorem entryLoop_spec (payload : List UInt8) (count : Nat) :
    ∀ (off turns : Nat) (out : List String),
      ∃ es tail turns', payload.drop off = entryBytes es ++ tail ∧ es.length ≤ count ∧
        (es.length = count ∨ Malformed tail) ∧ turns' ≤ turns + es.length + 1 ∧
        entryLoop payload count off turns out = .ok (turns', out ++ routableOf es) := by
  induction count with
  | zero =>
    intro off turns out
    refine ⟨[], payload.drop off, turns, rfl, Nat.le_refl 0, Or.inl rfl, by omega, ?_⟩
    rw [entryLoop, routableOf, List.map_nil, List.filter_nil, List.append_nil]
  | succ count ih =>
    intro off turns out
    rcases malformed_or_entry payload off with ⟨hbad, hguard⟩ | ⟨e, tail, hentry⟩
    · refine ⟨[], payload.drop off, turns + 1, rfl, Nat.zero_le _, Or.inr hbad, by omega, ?_⟩
      rw [entryLoop, if_pos hguard, routableOf, List.map_nil, List.filter_nil, List.append_nil]
    · obtain ⟨hoctets, hzero, hlen, htail⟩ := octetsAt_entry hentry
      have hguard : ¬ (payload[off]? ≠ some 0 ∨ payload.length < off + 7) := by
        rw [not_or, not_not]
        exact ⟨hzero, Nat.not_lt.mpr hlen⟩
      obtain ⟨es, tail', turns', hdrop, hcount, hend, hturns, hrun⟩ :=
        ih (off + 7) (turns + 1) (if isRoutable e.ip.toString then out ++ [e.ip.toString] else out)
      refine ⟨e :: es, tail', turns', ?_, ?_, ?_, ?_, ?_⟩
      · rw [hentry, ← htail, hdrop, entryBytes_cons, List.append_assoc]
      · rw [List.length_cons]
        omega
      · rw [List.length_cons]
        exact hend.imp_left (congrArg (· + 1))
      · rw [List.length_cons]
        omega
      · rw [entryLoop, if_neg hguard, hoctets]
        simp only [hrun, routableOf, List.map_cons, List.filter_cons]
        split
        · rw [List.append_assoc]
          rfl
        · rfl

/-- Entries are read in one way only. -/
theorem entries_unique (es : List Entry) (tail : List UInt8) :
    ∀ {es' : List Entry} {tail' : List UInt8}, entryBytes es' ++ tail' = entryBytes es ++ tail →
      es'.length ≤ es.length → (es'.length = es.length ∨ Malformed tail') → es' = es := by
  induction es with
  | nil =>
    intro es' tail' _ hlen _
    exact List.length_eq_zero_iff.mp (Nat.le_zero.mp hlen)
  | cons e es ih =>
    intro es' tail' heq hlen hend
    rw [entryBytes_cons, List.append_assoc] at heq
    cases es' with
    | nil =>
      rcases hend with hnone | hbad
      · cases hnone
      · exact absurd heq (hbad e _)
    | cons e' es' =>
      rw [entryBytes_cons, List.append_assoc] at heq
      obtain ⟨⟨a, b, c, d⟩, x, y⟩ := e
      obtain ⟨⟨a', b', c', d'⟩, x', y'⟩ := e'
      simp only [Entry.bytes, List.cons_append, List.nil_append, List.cons.injEq, true_and] at heq
      obtain ⟨rfl, rfl, rfl, rfl, rfl, rfl, heq⟩ := heq
      have hlen' : es'.length ≤ es.length := Nat.le_of_succ_le_succ hlen
      rw [ih heq hlen' (hend.imp_left Nat.succ.inj)]

/-! ## 5. The answer -/

/-- What the parser reads of any bytes: nothing, or the entries behind a readable count. -/
theorem queryPeersRun_spec (payload : List UInt8) :
    ((payload.head? ≠ some 1 ∨ readHlVarint (payload.drop 1) = none) ∧
      queryPeersRun payload = .ok (0, [])) ∨
      ∃ count adv es tail turns, payload.head? = some 1 ∧
        readHlVarint (payload.drop 1) = some (count, adv) ∧
        payload.drop (1 + adv) = entryBytes es ++ tail ∧ es.length ≤ count ∧
        (es.length = count ∨ Malformed tail) ∧ turns ≤ es.length + 1 ∧
        queryPeersRun payload = .ok (turns, routableOf es) := by
  unfold queryPeersRun
  by_cases htag : payload.head? ≠ some 1
  · exact Or.inl ⟨Or.inl htag, if_pos htag⟩
  rw [if_neg htag]
  rw [not_not] at htag
  have hslice : sliceFromOne payload = .ok (payload.drop 1) := by
    refine if_neg ?_
    rcases payload with _ | ⟨b, rest⟩
    · cases htag
    · rw [List.length_cons]
      omega
  rw [hslice]
  simp only
  rcases hcount : readHlVarint (payload.drop 1) with _ | ⟨count, adv⟩
  · exact Or.inl ⟨Or.inr rfl, rfl⟩
  · obtain ⟨es, tail, turns, hdrop, hle, hend, hturns, hrun⟩ :=
      entryLoop_spec payload count (1 + adv) 0 []
    refine Or.inr ⟨count, adv, es, tail, turns, htag, rfl, hdrop, hle, hend, by omega, ?_⟩
    simp only [hrun, List.nil_append]

theorem turns_le {payload tail : List UInt8} {off : Nat} {es : List Entry}
    (hdrop : payload.drop off = entryBytes es ++ tail) : es.length ≤ payload.length / 7 := by
  have hlen := congrArg List.length hdrop
  rw [List.length_drop, List.length_append, length_entryBytes] at hlen
  omega

/-- **Decoding `query_peers`.**  An answer in any form the format allows decodes to its
    routable addresses, in order and whatever follows them.  Of any bytes at all, the
    parser reads without a fault, and with at most `len / 7 + 1` turns of its loop, the
    complete entries in front of the first malformed one. -/
theorem parseQueryPeersResponse_correct :
    (∀ (width : VarintWidth) (es : List Entry) (trailing : List UInt8), es.length < width.limit →
      parseQueryPeersResponse (encodeResponse width es ++ trailing) = .ok (routableOf es)) ∧
    ∀ payload : List UInt8, ∃ turns es,
      queryPeersRun payload = .ok (turns, routableOf es) ∧
      parseQueryPeersResponse payload = .ok (routableOf es) ∧ turns ≤ payload.length / 7 + 1 ∧
      (es = [] ∨ ∃ count adv tail, payload.head? = some 1 ∧
        readHlVarint (payload.drop 1) = some (count, adv) ∧
        payload.drop (1 + adv) = entryBytes es ++ tail ∧ es.length ≤ count ∧
        (es.length = count ∨ Malformed tail)) := by
  refine ⟨?_, ?_⟩
  · intro width es trailing hfits
    have hpayload : encodeResponse width es ++ trailing =
        1 :: (width.encode es.length ++ (entryBytes es ++ trailing)) := by
      rw [encodeResponse, List.cons_append, List.append_assoc]
    have hvarint := readHlVarint_encode width hfits (entryBytes es ++ trailing)
    rw [hpayload, parseQueryPeersResponse]
    rcases queryPeersRun_spec (1 :: (width.encode es.length ++ (entryBytes es ++ trailing)))
      with ⟨htag | hcount, -⟩ | ⟨count, adv, es', tail, turns, -, hcount, hdrop, hle, hend, -, hrun⟩
    · exact absurd rfl htag
    · rw [List.drop_one, List.tail_cons, hvarint] at hcount
      cases hcount
    · rw [List.drop_one, List.tail_cons, hvarint, Option.some.injEq, Prod.mk.injEq] at hcount
      obtain ⟨rfl, rfl⟩ := hcount
      rw [Nat.add_comm, List.drop_succ_cons, List.drop_left] at hdrop
      rw [hrun, entries_unique es trailing hdrop.symm hle hend]
      rfl
  · intro payload
    rcases queryPeersRun_spec payload
      with ⟨-, hnone⟩ | ⟨count, adv, es, tail, turns, htag, hcount, hdrop, hle, hend, hturns, hrun⟩
    · exact ⟨0, [], hnone, by rw [parseQueryPeersResponse, hnone]; rfl, Nat.zero_le _, Or.inl rfl⟩
    · have := turns_le hdrop
      refine ⟨turns, es, hrun, by rw [parseQueryPeersResponse, hrun]; rfl, by omega, Or.inr ?_⟩
      exact ⟨count, adv, tail, htag, hcount, hdrop, hle, hend⟩

/-- Two addresses with their count in 64 bits, of which one is private. -/
theorem parseQueryPeersResponse_two :
    [(⟨(8, 8, 4, 4), 1, 1⟩ : Entry), ⟨(10, 0, 0, 1), 1, 1⟩].length < VarintWidth.u64.limit ∧
    parseQueryPeersResponse
      (encodeResponse .u64 [⟨(8, 8, 4, 4), 1, 1⟩, ⟨(10, 0, 0, 1), 1, 1⟩] ++ [0, 9]) = .ok ["8.8.4.4"] :=
  ⟨by decide, parseQueryPeersResponse_correct.1 .u64 [⟨(8, 8, 4, 4), 1, 1⟩, ⟨(10, 0, 0, 1), 1, 1⟩] [0, 9]
    (by decide)⟩

end Hypersync.Peerd
