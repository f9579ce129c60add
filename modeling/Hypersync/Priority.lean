import Hypersync.Blacklist
import Hypersync.Lib.Bag
import Hypersync.Lib.Machine
import Mathlib.Data.List.Sort
import Mathlib.Data.List.Nodup

/-!
# The priority tier

A short configured list of peers that every session tries first.  Each has a count
of the sessions it serves and an instant before which it is left alone; the three
are kept in parallel lists.  A session slot is a guard: taking one raises the count,
dropping it lowers the count again, and it may change hands in between.

`Sessions` is the tier together with the guards that are alive and the marks that
were made, in whatever order the selections of several nodes acquire, pass on, drop
and mark.  Instants and durations are nanoseconds.
-/

namespace Hypersync

/-! ## 1. The tier -/

def PRIORITY_COOLDOWN : Nat := 30000000000

def PRIORITY_HUNG_COOLDOWN : Nat := 4000000000

structure PriorityTier where
  peers : List String
  sessions : List Nat
  cooldownUntil : List (Option Nat)
  -- 0 = no cap
  maxSessions : Nat
  stage : Nat
  exclusiveFlag : Bool
  sessions_sized : sessions.length = peers.length
  cooldown_sized : cooldownUntil.length = peers.length

/-- `out.sort()` on pairs of load and position. -/
def LoadLe (a b : Nat × Nat) : Prop := a.1 < b.1 ∨ a.1 = b.1 ∧ a.2 ≤ b.2

instance (a b : Nat × Nat) : Decidable (LoadLe a b) := inferInstanceAs (Decidable (_ ∨ _))

namespace PriorityTier

def new (peers : List String) (maxSessions stage : Nat) (exclusive : Bool) : PriorityTier where
  peers := peers
  sessions := List.replicate peers.length 0
  cooldownUntil := List.replicate peers.length none
  maxSessions := maxSessions
  stage := stage
  exclusiveFlag := exclusive
  sessions_sized := List.length_replicate
  cooldown_sized := List.length_replicate

def exclusive (t : PriorityTier) : Bool := t.exclusiveFlag && !t.peers.isEmpty

def index (t : PriorityTier) (ip : String) : Option Nat := t.peers.findIdx? (· == ip)

def contains (t : PriorityTier) (ip : String) : Bool := (t.index ip).isSome

/-- `until.is_some_and(|t| now < t)` for the peer at `i`. -/
def cooling (t : PriorityTier) (i now : Nat) : Bool :=
  match t.cooldownUntil.getD i none with
  | some limit => now < limit
  | none => false

/-- The body of the loop of `candidates_at`: what it pushes for the peer at `i`. -/
def candidate (t : PriorityTier) (black : Blacklist) (now i : Nat) : Option (Nat × Nat) :=
  if t.cooling i now ∨ black.contains (t.peers.getD i "") then none
  else
    let load := t.sessions.getD i 0
    if t.maxSessions ≠ 0 ∧ t.maxSessions ≤ load then none else some (load, i)

def candidatesAt (t : PriorityTier) (black : Blacklist) (now : Nat) : List String :=
  let out := (List.range t.cooldownUntil.length).filterMap (t.candidate black now)
  (out.insertionSort LoadLe).map fun p => t.peers.getD p.2 ""

def poolAllowed (t : PriorityTier) (black : Blacklist) (now : Nat) : Bool :=
  !t.exclusive || (t.candidatesAt black now).isEmpty

def coolUntil (t : PriorityTier) (ip : String) (limit : Nat) : PriorityTier :=
  match t.index ip with
  | none => t
  | some i =>
    { t with
      cooldownUntil := t.cooldownUntil.set i
        (some ((t.cooldownUntil.getD i none).elim limit fun u => max u limit))
      cooldown_sized := by rw [List.length_set, t.cooldown_sized] }

def markFailedAt (t : PriorityTier) (ip : String) (now : Nat) : PriorityTier :=
  t.coolUntil ip (now + PRIORITY_COOLDOWN)

def markHungAt (t : PriorityTier) (ip : String) (now : Nat) : PriorityTier :=
  if t.exclusive then t.coolUntil ip (now + PRIORITY_HUNG_COOLDOWN) else t.markFailedAt ip now

/-- `sessions[i]` with another count. -/
def setSessions (t : PriorityTier) (i n : Nat) : PriorityTier :=
  { t with
    sessions := t.sessions.set i n
    sessions_sized := by rw [List.length_set, t.sessions_sized] }

/-- The position of the peer whose slot was taken, and the tier with it taken. -/
def tryAcquire (t : PriorityTier) (ip : String) : Option (PriorityTier × Nat) :=
  match t.index ip with
  | none => none
  | some i =>
    let n := t.sessions.getD i 0
    if t.maxSessions = 0 ∨ n < t.maxSessions then some (t.setSessions i (n + 1), i) else none

/-- `PrioritySession::drop` -/
def release (t : PriorityTier) (i : Nat) : PriorityTier := t.setSessions i (t.sessions.getD i 0 - 1)

def strip (t : PriorityTier) (pool : List String) : List String :=
  if t.peers.isEmpty then pool else pool.filter fun ip => !t.contains ip

end PriorityTier

/-! ## 2. Slots and marks over time -/

/-- A live `PrioritySession`: the position of its peer, and whoever holds it. -/
structure PrioritySession where
  idx : Nat
  owner : Nat
deriving DecidableEq, Repr

structure Mark where
  ip : String
  hung : Bool
  at_ : Nat
deriving DecidableEq, Repr

/-- The instant up to which a mark keeps its peer out. -/
def Mark.limit (exclusive : Bool) (m : Mark) : Nat :=
  m.at_ + if m.hung ∧ exclusive then PRIORITY_HUNG_COOLDOWN else PRIORITY_COOLDOWN

/-- The tier, its live guards, and every mark made so far. -/
structure Sessions where
  tier : PriorityTier
  guards : List PrioritySession := []
  marks : List Mark := []

inductive TierEvent where
  | tryAcquire (ip : String) (owner : Nat)
  | move (guard : PrioritySession) (owner : Nat)
  | drop (guard : PrioritySession)
  | mark (m : Mark)
deriving DecidableEq, Repr

/-- The event of a task other than `me`, about guards that are not held by `me`. -/
def TierEvent.avoids (me : Nat) : TierEvent → Bool
  | .tryAcquire _ owner => owner ≠ me
  | .move g owner => g.owner ≠ me ∧ owner ≠ me
  | .drop g => g.owner ≠ me
  | .mark _ => true

namespace Sessions

def start (peers : List String) (maxSessions stage : Nat) (exclusive : Bool) : Sessions where
  tier := PriorityTier.new peers maxSessions stage exclusive

/-- `mark_failed_at`, `mark_hung_at` -/
def mark (s : Sessions) (m : Mark) : Sessions where
  tier := if m.hung then s.tier.markHungAt m.ip m.at_ else s.tier.markFailedAt m.ip m.at_
  guards := s.guards
  marks := m :: s.marks

def step (s : Sessions) : TierEvent → Option Sessions
  | .tryAcquire ip owner =>
    match s.tier.tryAcquire ip with
    | some (tier, i) => some { s with tier := tier, guards := ⟨i, owner⟩ :: s.guards }
    | none => some s
  | .move g owner =>
    if g ∈ s.guards then some { s with guards := Bag.replace s.guards g { g with owner := owner } } else none
  | .drop g =>
    if g ∈ s.guards then some { s with tier := s.tier.release g.idx, guards := s.guards.erase g } else none
  | .mark m => some (s.mark m)

/-- A slot held by `me`, or none, is dropped. -/
def dropSlot (ss : Sessions) (me : Nat) (slot : Option Nat) : Sessions :=
  match slot with
  | none => ss
  | some i => { ss with tier := ss.tier.release i, guards := ss.guards.erase ⟨i, me⟩ }

/-- The live guards of the peer at `i`. -/
def guardsAt (s : Sessions) (i : Nat) : Nat := s.guards.countP fun g => g.idx = i

/-- The live guards of `ip`. -/
def guardsOf (s : Sessions) (ip : String) : Nat := s.guardsAt (s.tier.peers.idxOf ip)

end Sessions

/-! ## 3. The operations, peer by peer -/

instance loadLe_total : Std.Total LoadLe where
  total a b := by
    unfold LoadLe
    omega

instance loadLe_trans : IsTrans (Nat × Nat) LoadLe where
  trans a b c := by
    unfold LoadLe
    omega

namespace PriorityTier

variable {t : PriorityTier} {ip : String} {i : Nat}

/-- On a tier of distinct peers the index is the peer's only position. -/
theorem index_eq_some (hdistinct : t.peers.Nodup) : t.index ip = some i ↔ t.peers[i]? = some ip := by
  unfold index
  rw [List.findIdx?_eq_some_iff_getElem]
  constructor
  · rintro ⟨hi, hip, -⟩
    rw [List.getElem?_eq_getElem hi, eq_of_beq hip]
  · intro h
    obtain ⟨hi, rfl⟩ := List.getElem?_eq_some_iff.mp h
    refine ⟨hi, beq_self_eq_true _, ?_⟩
    intro j hj heq
    have hsame : j = i := hdistinct.getElem_inj_iff.mp (eq_of_beq heq)
    omega

theorem index_lt_length (h : t.index ip = some i) : i < t.peers.length :=
  (List.findIdx?_eq_some_iff_getElem.mp h).1

theorem index_eq_none : t.index ip = none ↔ ip ∉ t.peers := by
  unfold index
  rw [List.findIdx?_eq_none_iff]
  constructor
  · intro h hmem
    have hself := h ip hmem
    rw [beq_self_eq_true] at hself
    cases hself
  · intro h x hx
    rw [beq_eq_false_iff_ne]
    rintro rfl
    exact h hx

theorem contains_iff : t.contains ip = true ↔ ip ∈ t.peers := by
  unfold contains
  rw [Option.isSome_iff_ne_none, ne_eq, index_eq_none, not_not]

theorem mem_strip {pool : List String} : ip ∈ t.strip pool ↔ ip ∈ pool ∧ ip ∉ t.peers := by
  unfold strip
  split
  · next hempty => simp [List.isEmpty_iff.mp hempty]
  · rw [List.mem_filter, Bool.not_eq_true', Bool.eq_false_iff, Ne, contains_iff]

theorem sessions_setSessions {n k : Nat} (hi : i < t.peers.length) :
    (t.setSessions i n).sessions.getD k 0 = if i = k then n else t.sessions.getD k 0 := by
  rw [← t.sessions_sized] at hi
  simp only [setSessions, List.getD_eq_getElem?_getD, List.getElem?_set, if_pos hi]
  split
  · rfl
  · rfl

theorem cooling_eq_false {k now : Nat} :
    t.cooling k now = false ↔ ∀ u, t.cooldownUntil.getD k none = some u → u ≤ now := by
  unfold cooling
  rcases t.cooldownUntil.getD k none with _ | limit
  · exact iff_of_true rfl (fun u h => by cases h)
  · rw [decide_eq_false_iff_not, not_lt]
    constructor
    · rintro h u ⟨⟩
      exact h
    · exact fun h => h limit rfl

/-- After `cool_until` a peer is left alone for as long as before, and the named one
    up to the new limit too. -/
theorem cooling_coolUntil {limit k now : Nat} :
    (t.coolUntil ip limit).cooling k now = false ↔
      t.cooling k now = false ∧ (t.index ip = some k → limit ≤ now) := by
  rw [cooling_eq_false, cooling_eq_false]
  unfold coolUntil
  rcases hindex : t.index ip with _ | i
  · simp
  · have hlt : i < t.cooldownUntil.length := by
      rw [t.cooldown_sized]
      exact index_lt_length hindex
    by_cases hk : i = k
    · subst hk
      simp only [List.getD_eq_getElem?_getD, List.getElem?_set, if_true, if_pos hlt, true_implies,
        Option.getD_some, Option.some.injEq, forall_eq']
      rcases t.cooldownUntil[i]?.getD none with _ | u
      · simp
      · simp
    · simp only [List.getD_eq_getElem?_getD, List.getElem?_set, Option.some.injEq, hk, if_false, false_implies,
        and_true]

/-- A slot is taken at the position of its peer, if there is room. -/
theorem tryAcquire_eq_some {t' : PriorityTier} (h : t.tryAcquire ip = some (t', i)) :
    t.index ip = some i ∧ (t.maxSessions = 0 ∨ t.sessions.getD i 0 < t.maxSessions) ∧
      t' = t.setSessions i (t.sessions.getD i 0 + 1) := by
  unfold tryAcquire at h
  split at h
  · cases h
  · rename_i k hindex
    simp only at h
    split at h <;> cases h
    rename_i hroom
    exact ⟨hindex, hroom, rfl⟩

/-- Everything but the cooldowns is as it was. -/
theorem coolUntil_frame (t : PriorityTier) (ip : String) (limit : Nat) :
    (t.coolUntil ip limit).peers = t.peers ∧ (t.coolUntil ip limit).sessions = t.sessions ∧
      (t.coolUntil ip limit).maxSessions = t.maxSessions ∧ (t.coolUntil ip limit).exclusiveFlag = t.exclusiveFlag := by
  unfold coolUntil
  split
  · exact ⟨rfl, rfl, rfl, rfl⟩
  · exact ⟨rfl, rfl, rfl, rfl⟩

theorem candidate_eq_some {black : Blacklist} {now : Nat} {p : Nat × Nat} :
    t.candidate black now i = some p ↔
      p = (t.sessions.getD i 0, i) ∧ t.cooling i now = false ∧ black.contains (t.peers.getD i "") = false ∧
        (t.maxSessions = 0 ∨ t.sessions.getD i 0 < t.maxSessions) := by
  unfold candidate
  by_cases hskip : t.cooling i now = true ∨ black.contains (t.peers.getD i "") = true
  · rw [if_pos hskip]
    constructor
    · intro h
      cases h
    · rintro ⟨-, hcool, hblack, -⟩
      rw [hcool, hblack] at hskip
      simp at hskip
  · rw [if_neg hskip]
    obtain ⟨hcool, hblack⟩ := not_or.mp hskip
    rw [Bool.not_eq_true] at hcool hblack
    by_cases hfull : t.maxSessions ≠ 0 ∧ t.maxSessions ≤ t.sessions.getD i 0
    · simp only [if_pos hfull]
      constructor
      · intro h
        cases h
      · rintro ⟨-, -, -, hroom⟩
        omega
    · simp only [if_neg hfull, Option.some.injEq, hcool, hblack, true_and]
      constructor
      · intro h
        exact ⟨h.symm, by omega⟩
      · exact fun h => h.1.symm

/-- **Who is a candidate.** -/
theorem mem_candidatesAt {black : Blacklist} {now : Nat} :
    ip ∈ t.candidatesAt black now ↔
      ∃ k, t.peers[k]? = some ip ∧ t.cooling k now = false ∧ black.contains ip = false ∧
        (t.maxSessions = 0 ∨ t.sessions.getD k 0 < t.maxSessions) := by
  simp only [candidatesAt, List.mem_map, List.mem_insertionSort, List.mem_filterMap, List.mem_range,
    candidate_eq_some, t.cooldown_sized]
  constructor
  · rintro ⟨p, ⟨k, hk, rfl, hcool, hblack, hroom⟩, rfl⟩
    have hget : t.peers[k]? = some (t.peers.getD k "") := by
      rw [List.getD_eq_getElem?_getD, List.getElem?_eq_getElem hk, Option.getD_some]
    exact ⟨k, hget, hcool, hblack, hroom⟩
  · rintro ⟨k, hk, hcool, hblack, hroom⟩
    have hget : t.peers.getD k "" = ip := by
      rw [List.getD_eq_getElem?_getD, hk, Option.getD_some]
    refine ⟨_, ⟨k, (List.getElem?_eq_some_iff.mp hk).1, rfl, hcool, ?_, hroom⟩, hget⟩
    rwa [hget]

/-- **In which order.**  By load, then by configured position. -/
theorem pairwise_candidatesAt (hdistinct : t.peers.Nodup) (black : Blacklist) (now : Nat) :
    (t.candidatesAt black now).Pairwise fun a b =>
      t.sessions.getD (t.peers.idxOf a) 0 < t.sessions.getD (t.peers.idxOf b) 0 ∨
      t.sessions.getD (t.peers.idxOf a) 0 = t.sessions.getD (t.peers.idxOf b) 0 ∧
        t.peers.idxOf a < t.peers.idxOf b := by
  unfold candidatesAt
  simp only
  have hperm := List.perm_insertionSort LoadLe ((List.range t.cooldownUntil.length).filterMap (t.candidate black now))
  have hdiff : ((List.range t.cooldownUntil.length).filterMap (t.candidate black now)).Pairwise
      fun a b => a.2 ≠ b.2 := by
    rw [List.pairwise_filterMap]
    apply List.Pairwise.imp _ List.pairwise_lt_range
    intro j k hjk a ha b hb
    rw [(candidate_eq_some.mp ha).1, (candidate_eq_some.mp hb).1]
    exact ne_of_lt hjk
  have hdiff' := (hperm.pairwise_iff (fun {a b} h => Ne.symm h)).mpr hdiff
  have hsorted := List.pairwise_insertionSort LoadLe
    ((List.range t.cooldownUntil.length).filterMap (t.candidate black now))
  -- each pair is the load and the position of the peer it is mapped to
  have hpair : ∀ p ∈ ((List.range t.cooldownUntil.length).filterMap (t.candidate black now)).insertionSort LoadLe,
      t.peers.idxOf (t.peers.getD p.2 "") = p.2 ∧ t.sessions.getD p.2 0 = p.1 := by
    intro p hp
    rw [List.mem_insertionSort, List.mem_filterMap] at hp
    obtain ⟨k, hk, hcand⟩ := hp
    rw [List.mem_range, t.cooldown_sized] at hk
    rw [(candidate_eq_some.mp hcand).1]
    refine ⟨?_, rfl⟩
    rw [List.getD_eq_getElem?_getD, List.getElem?_eq_getElem hk, Option.getD_some, hdistinct.idxOf_getElem k hk]
  rw [List.pairwise_map]
  apply (hsorted.and hdiff').imp_of_mem
  rintro a b ha hb ⟨hle, hne⟩
  obtain ⟨haidx, haload⟩ := hpair a ha
  obtain ⟨hbidx, hbload⟩ := hpair b hb
  rw [haidx, hbidx, haload, hbload]
  unfold LoadLe at hle
  omega

end PriorityTier

/-! ## 4. Runs -/

namespace Sessions

/-- What holds of a tier of `peers` in every state of a run. -/
structure Inv (peers : List String) (maxSessions : Nat) (exclusive : Bool) (s : Sessions) : Prop where
  peers_eq : s.tier.peers = peers
  max_eq : s.tier.maxSessions = maxSessions
  exclusive_eq : s.tier.exclusiveFlag = exclusive
  counted : ∀ i < peers.length, s.tier.sessions.getD i 0 = s.guardsAt i
  placed : ∀ g ∈ s.guards, g.idx < peers.length
  capped : maxSessions ≠ 0 → ∀ i < peers.length, s.guardsAt i ≤ maxSessions
  cooled : ∀ i ip, peers[i]? = some ip → ∀ now,
    s.tier.cooling i now = false ↔ ∀ m ∈ s.marks, m.ip = ip → m.limit exclusive ≤ now

variable {peers : List String} {maxSessions : Nat} {exclusive : Bool} {s s' : Sessions}

theorem inv_start (peers : List String) (maxSessions stage : Nat) (exclusive : Bool) :
    (start peers maxSessions stage exclusive).Inv peers maxSessions exclusive where
  peers_eq := rfl
  max_eq := rfl
  exclusive_eq := rfl
  counted i hi := by
    rw [start, PriorityTier.new, List.getD_eq_getElem?_getD, List.getElem?_replicate, if_pos hi]
    rfl
  placed g hg := by cases hg
  capped _ i _ := Nat.zero_le _
  cooled i ip hi now := by
    rw [PriorityTier.cooling_eq_false]
    refine iff_of_true ?_ (fun m hm => by cases hm)
    intro u hu
    have hlt := (List.getElem?_eq_some_iff.mp hi).1
    simp only [start, PriorityTier.new, List.getD_eq_getElem?_getD, List.getElem?_replicate, if_pos hlt] at hu
    cases hu

theorem Inv.acquire (h : s.Inv peers maxSessions exclusive) {i : Nat} (owner : Nat) (hi : i < peers.length)
    (hroom : maxSessions = 0 ∨ s.tier.sessions.getD i 0 < maxSessions) :
    Inv peers maxSessions exclusive
      { s with
        tier := s.tier.setSessions i (s.tier.sessions.getD i 0 + 1)
        guards := ⟨i, owner⟩ :: s.guards } := by
  have hcount : ∀ k, (PrioritySession.mk i owner :: s.guards).countP (fun g => g.idx = k) =
      s.guardsAt k + if i = k then 1 else 0 := by
    intro k
    rw [List.countP_cons, guardsAt]
    simp only [decide_eq_true_eq]
  refine { h with counted := ?_, placed := ?_, capped := ?_ }
  · intro k hk
    rw [PriorityTier.sessions_setSessions (h.peers_eq ▸ hi), guardsAt, hcount, h.counted k hk]
    by_cases hik : i = k
    · rw [if_pos hik, if_pos hik, hik, h.counted k hk]
    · rw [if_neg hik, if_neg hik, Nat.add_zero]
  · intro g hg
    rcases List.mem_cons.mp hg with rfl | hg
    · exact hi
    · exact h.placed g hg
  · intro hmax k hk
    rw [guardsAt, hcount]
    have hcap := h.capped hmax k hk
    by_cases hik : i = k
    · rw [h.counted i hi, hik] at hroom
      rw [if_pos hik]
      omega
    · rw [if_neg hik]
      exact hcap

theorem Inv.move (h : s.Inv peers maxSessions exclusive) {g : PrioritySession} (hg : g ∈ s.guards) (owner : Nat) :
    Inv peers maxSessions exclusive { s with guards := Bag.replace s.guards g { g with owner := owner } } := by
  have hsame : ∀ i, (Bag.replace s.guards g { g with owner := owner }).countP (fun h => h.idx = i) = s.guardsAt i := by
    intro i
    exact Nat.add_right_cancel (Bag.countP_replace_add (fun h => h.idx = i) hg { g with owner := owner })
  refine { h with counted := ?_, placed := ?_, capped := ?_ }
  · intro i hi
    rw [guardsAt, hsame, h.counted i hi]
  · intro k hk
    rcases Bag.mem_replace hk with rfl | hk
    · exact h.placed g hg
    · exact h.placed k hk
  · intro hmax i hi
    rw [guardsAt, hsame]
    exact h.capped hmax i hi

theorem Inv.drop (h : s.Inv peers maxSessions exclusive) {g : PrioritySession} (hg : g ∈ s.guards) :
    Inv peers maxSessions exclusive { s with tier := s.tier.release g.idx, guards := s.guards.erase g } := by
  have hcount : ∀ i, s.guardsAt i = (s.guards.erase g).countP (fun k => k.idx = i) + if g.idx = i then 1 else 0 := by
    intro i
    rw [guardsAt, Bag.countP_erase_add _ hg]
    simp only [decide_eq_true_eq]
  refine { h with counted := ?_, placed := ?_, capped := ?_ }
  · intro i hi
    rw [PriorityTier.release, PriorityTier.sessions_setSessions (h.peers_eq ▸ h.placed g hg), guardsAt]
    have hi' := h.counted i hi
    rw [hcount i] at hi'
    by_cases hgi : g.idx = i
    · rw [if_pos hgi] at hi' ⊢
      rw [hgi, hi', Nat.add_sub_cancel]
    · rw [if_neg hgi] at hi' ⊢
      exact hi'
  · exact fun k hk => h.placed k (List.mem_of_mem_erase hk)
  · intro hmax i hi
    have hcap := h.capped hmax i hi
    rw [hcount i] at hcap
    exact le_trans (Nat.le_add_right _ _) hcap

/-- Both kinds of mark are `cool_until` with their own limit. -/
theorem mark_eq_coolUntil (t : PriorityTier) (m : Mark) :
    (if m.hung then t.markHungAt m.ip m.at_ else t.markFailedAt m.ip m.at_) =
      t.coolUntil m.ip (m.limit t.exclusive) := by
  unfold Mark.limit PriorityTier.markHungAt PriorityTier.markFailedAt
  cases m.hung
  · simp
  · cases t.exclusive
    · simp
    · simp

theorem Inv.mark (h : s.Inv peers maxSessions exclusive) (hdistinct : peers.Nodup) (m : Mark) :
    (s.mark m).Inv peers maxSessions exclusive := by
  rw [Sessions.mark, mark_eq_coolUntil]
  obtain ⟨hpeers, hsessions, hmax, hexclusive⟩ := s.tier.coolUntil_frame m.ip (m.limit s.tier.exclusive)
  refine ⟨hpeers.trans h.peers_eq, hmax.trans h.max_eq, hexclusive.trans h.exclusive_eq, ?_, h.placed, h.capped, ?_⟩
  · intro i hi
    rw [hsessions]
    exact h.counted i hi
  · intro i ip hi now
    -- a tier with a peer is exclusive when it is configured so
    have hflag : s.tier.exclusive = exclusive := by
      have hne : peers ≠ [] := List.ne_nil_of_mem (List.mem_of_getElem? hi)
      rw [PriorityTier.exclusive, h.exclusive_eq, h.peers_eq, List.isEmpty_eq_false_iff.mpr hne]
      simp
    rw [PriorityTier.cooling_coolUntil, PriorityTier.index_eq_some (h.peers_eq ▸ hdistinct), h.cooled i ip hi now,
      h.peers_eq, hi, hflag, List.forall_mem_cons, Option.some.injEq, and_comm, eq_comm]

theorem Inv.step (hdistinct : peers.Nodup) (h : s.Inv peers maxSessions exclusive) {e : TierEvent}
    (hstep : s.step e = some s') : s'.Inv peers maxSessions exclusive := by
  cases e with
  | tryAcquire ip owner =>
    simp only [Sessions.step] at hstep
    split at hstep
    · rename_i tier i hacquire
      obtain ⟨hindex, hroom, rfl⟩ := PriorityTier.tryAcquire_eq_some hacquire
      cases hstep
      have hi := PriorityTier.index_lt_length hindex
      exact h.acquire owner (h.peers_eq ▸ hi) (h.max_eq ▸ hroom)
    · cases hstep
      exact h
  | move g owner =>
    simp only [Sessions.step] at hstep
    split at hstep <;> cases hstep
    rename_i hg
    exact h.move hg owner
  | drop g =>
    simp only [Sessions.step] at hstep
    split at hstep <;> cases hstep
    rename_i hg
    exact h.drop hg
  | mark m =>
    cases hstep
    exact h.mark hdistinct m

theorem inv_of_run (hdistinct : peers.Nodup) {stage : Nat} {events : List TierEvent}
    (hrun : Machine.Run step (fun _ _ => True) (start peers maxSessions stage exclusive) events s) :
    s.Inv peers maxSessions exclusive := by
  apply hrun.invariant (inv_start peers maxSessions stage exclusive)
  intro a e b ha _ hstep
  exact ha.step hdistinct hstep

/-- A live peer's count, by its address. -/
theorem Inv.sessions_idxOf (h : s.Inv peers maxSessions exclusive) {ip : String} (hip : ip ∈ peers) :
    s.tier.sessions.getD (peers.idxOf ip) 0 = s.guardsOf ip := by
  rw [h.counted _ (List.idxOf_lt_length_iff.mpr hip), guardsOf, h.peers_eq]

theorem Inv.mem_candidatesAt_iff (h : s.Inv peers maxSessions exclusive) (hdistinct : peers.Nodup)
    (black : Blacklist) (now : Nat) (ip : String) :
    ip ∈ s.tier.candidatesAt black now ↔
      ip ∈ peers ∧ black.contains ip = false ∧ (maxSessions = 0 ∨ s.guardsOf ip < maxSessions) ∧
        ∀ m ∈ s.marks, m.ip = ip → m.limit exclusive ≤ now := by
  rw [PriorityTier.mem_candidatesAt, h.peers_eq, h.max_eq]
  constructor
  · rintro ⟨k, hk, hcool, hblack, hroom⟩
    obtain ⟨hlt, rfl⟩ := List.getElem?_eq_some_iff.mp hk
    have hmem : peers[k] ∈ peers := List.getElem_mem hlt
    have hload := h.sessions_idxOf hmem
    rw [hdistinct.idxOf_getElem k hlt] at hload
    exact ⟨hmem, hblack, hload ▸ hroom, (h.cooled k _ hk now).mp hcool⟩
  · rintro ⟨hmem, hblack, hroom, hmarks⟩
    have hk : peers[peers.idxOf ip]? = some ip := List.getElem?_idxOf hmem
    refine ⟨peers.idxOf ip, hk, (h.cooled _ ip hk now).mpr hmarks, hblack, ?_⟩
    rwa [h.sessions_idxOf hmem]

/-- A refusal: the peer is not of the tier, or its slots are all taken. -/
theorem Inv.tryAcquire_eq_none (h : s.Inv peers maxSessions exclusive) (hdistinct : peers.Nodup) (ip : String) :
    s.tier.tryAcquire ip = none ↔ ip ∉ peers ∨ maxSessions ≠ 0 ∧ maxSessions ≤ s.guardsOf ip := by
  unfold PriorityTier.tryAcquire
  rcases hindex : s.tier.index ip with _ | i
  · have habsent := PriorityTier.index_eq_none.mp hindex
    rw [h.peers_eq] at habsent
    exact iff_of_true rfl (Or.inl habsent)
  · have hi := (PriorityTier.index_eq_some (h.peers_eq ▸ hdistinct)).mp hindex
    rw [h.peers_eq] at hi
    obtain ⟨hlt, rfl⟩ := List.getElem?_eq_some_iff.mp hi
    have hmem : peers[i] ∈ peers := List.getElem_mem hlt
    have hload := h.sessions_idxOf hmem
    rw [hdistinct.idxOf_getElem i hlt] at hload
    simp only [hload, h.max_eq, hmem, not_true_eq_false, false_or]
    by_cases hroom : maxSessions = 0 ∨ s.guardsOf peers[i] < maxSessions
    · rw [if_pos hroom]
      refine iff_of_false (fun hsome => by cases hsome) ?_
      omega
    · rw [if_neg hroom]
      refine iff_of_true rfl ?_
      omega

end Sessions

/-! ## 5. What no operation undoes -/

namespace Sessions

/-- `ip` is a peer of the tier that is left alone at `now`. -/
def CooledAt (ss : Sessions) (ip : String) (now : Nat) : Prop :=
  ∃ i, ss.tier.index ip = some i ∧ ss.tier.cooling i now = true

/-- The same tier, with no cooldown cut short. -/
structure Later (ss ss' : Sessions) : Prop where
  peers_eq : ss'.tier.peers = ss.tier.peers
  flag_eq : ss'.tier.exclusiveFlag = ss.tier.exclusiveFlag
  cooling : ∀ i now, ss.tier.cooling i now = true → ss'.tier.cooling i now = true

variable {ss ss' ss'' : Sessions}

theorem Later.refl (ss : Sessions) : ss.Later ss := ⟨rfl, rfl, fun _ _ h => h⟩

theorem Later.trans (h : ss.Later ss') (h' : ss'.Later ss'') : ss.Later ss'' :=
  ⟨h'.peers_eq.trans h.peers_eq, h'.flag_eq.trans h.flag_eq, fun i now hc => h'.cooling i now (h.cooling i now hc)⟩

theorem Later.index (h : ss.Later ss') (ip : String) : ss'.tier.index ip = ss.tier.index ip := by
  rw [PriorityTier.index, h.peers_eq, PriorityTier.index]

theorem Later.exclusive (h : ss.Later ss') : ss'.tier.exclusive = ss.tier.exclusive := by
  rw [PriorityTier.exclusive, h.peers_eq, h.flag_eq, PriorityTier.exclusive]

theorem Later.cooledAt (h : ss.Later ss') {ip : String} {now : Nat} (hc : ss.CooledAt ip now) :
    ss'.CooledAt ip now := by
  obtain ⟨i, hi, hcool⟩ := hc
  exact ⟨i, (h.index ip).trans hi, h.cooling i now hcool⟩

/-- Slots taken and dropped leave the rest of the tier alone. -/
theorem later_setSessions (ss : Sessions) (i n : Nat) (guards : List PrioritySession) :
    ss.Later { ss with tier := ss.tier.setSessions i n, guards := guards } :=
  ⟨rfl, rfl, fun _ _ h => h⟩

theorem later_dropSlot (ss : Sessions) (me : Nat) (slot : Option Nat) : ss.Later (ss.dropSlot me slot) := by
  cases slot with
  | none => exact Later.refl ss
  | some i => exact later_setSessions ss _ _ _

theorem later_mark (ss : Sessions) (m : Mark) : ss.Later (ss.mark m) := by
  rw [Sessions.mark, mark_eq_coolUntil]
  obtain ⟨hpeers, -, -, hflag⟩ := ss.tier.coolUntil_frame m.ip (m.limit ss.tier.exclusive)
  refine ⟨hpeers, hflag, ?_⟩
  intro i now hcool
  by_contra hnot
  rw [Bool.not_eq_true, PriorityTier.cooling_coolUntil] at hnot
  rw [hnot.1] at hcool
  cases hcool

theorem later_step {e : TierEvent} (h : ss.step e = some ss') : ss.Later ss' := by
  cases e with
  | tryAcquire ip owner =>
    simp only [Sessions.step] at h
    split at h
    · rename_i tier i hacquire
      obtain ⟨-, -, rfl⟩ := PriorityTier.tryAcquire_eq_some hacquire
      cases h
      exact later_setSessions ss _ _ _
    · cases h
      exact Later.refl ss
  | move g owner =>
    simp only [Sessions.step] at h
    split at h <;> cases h
    exact ⟨rfl, rfl, fun _ _ hc => hc⟩
  | drop g =>
    simp only [Sessions.step] at h
    split at h <;> cases h
    exact later_setSessions ss _ _ _
  | mark m =>
    cases h
    exact later_mark ss m

/-- Any mark keeps its peer out for the shorter of the two cooldowns at least. -/
theorem cooledAt_mark {m : Mark} {now : Nat} (hknown : (ss.tier.index m.ip).isSome = true)
    (hnow : now < m.at_ + PRIORITY_HUNG_COOLDOWN) : (ss.mark m).CooledAt m.ip now := by
  obtain ⟨i, hi⟩ := Option.isSome_iff_exists.mp hknown
  refine ⟨i, ((later_mark ss m).index m.ip).trans hi, ?_⟩
  have hlimit : m.at_ + PRIORITY_HUNG_COOLDOWN ≤ m.limit ss.tier.exclusive := by
    unfold Mark.limit PRIORITY_HUNG_COOLDOWN PRIORITY_COOLDOWN
    split
    · exact le_refl _
    · omega
  by_contra hnot
  rw [Bool.not_eq_true, Sessions.mark, mark_eq_coolUntil, PriorityTier.cooling_coolUntil] at hnot
  exact absurd (hnot.2 hi) (not_le.mpr (lt_of_lt_of_le hnow hlimit))

end Sessions

/-! ## 6. The tier as a whole -/

/-- **The tier over whole runs.**  Whatever the order of acquisitions, moves, drops
    and marks: each count is the number of live guards and within the cap; a refused
    acquisition changes nothing; the candidates are the peers that are not blacklisted,
    have a free slot and are past every mark, by load and then by position; and no mark
    brings a candidate back. -/
theorem priority_tier_over_runs (peers : List String) (hdistinct : peers.Nodup) (maxSessions stage : Nat)
    (exclusive : Bool) (events : List TierEvent) (s : Sessions)
    (hrun : Machine.Run Sessions.step (fun _ _ => True) (Sessions.start peers maxSessions stage exclusive)
      events s) :
    (∀ ip ∈ peers, s.tier.sessions.getD (peers.idxOf ip) 0 = s.guardsOf ip ∧
      (maxSessions ≠ 0 → s.guardsOf ip ≤ maxSessions)) ∧
    (∀ ip owner, (s.tier.tryAcquire ip = none ↔ ip ∉ peers ∨ maxSessions ≠ 0 ∧ maxSessions ≤ s.guardsOf ip) ∧
      (s.tier.tryAcquire ip = none → s.step (.tryAcquire ip owner) = some s)) ∧
    (∀ black now, (∀ ip, ip ∈ s.tier.candidatesAt black now ↔
        ip ∈ peers ∧ black.contains ip = false ∧ (maxSessions = 0 ∨ s.guardsOf ip < maxSessions) ∧
          ∀ m ∈ s.marks, m.ip = ip → m.limit exclusive ≤ now) ∧
      (s.tier.candidatesAt black now).Pairwise fun a b =>
        s.guardsOf a < s.guardsOf b ∨ s.guardsOf a = s.guardsOf b ∧ peers.idxOf a < peers.idxOf b) ∧
    (∀ m black now s', s.step (.mark m) = some s' →
      ∀ ip ∈ s'.tier.candidatesAt black now, ip ∈ s.tier.candidatesAt black now) := by
  have hinv := Sessions.inv_of_run hdistinct hrun
  refine ⟨?_, ?_, ?_, ?_⟩
  · intro ip hip
    refine ⟨hinv.sessions_idxOf hip, ?_⟩
    intro hmax
    rw [Sessions.guardsOf, hinv.peers_eq]
    exact hinv.capped hmax _ (List.idxOf_lt_length_iff.mpr hip)
  · intro ip owner
    refine ⟨hinv.tryAcquire_eq_none hdistinct ip, ?_⟩
    intro hrefused
    rw [Sessions.step, hrefused]
  · intro black now
    refine ⟨hinv.mem_candidatesAt_iff hdistinct black now, ?_⟩
    have hdistinct' : s.tier.peers.Nodup := hinv.peers_eq ▸ hdistinct
    apply (PriorityTier.pairwise_candidatesAt hdistinct' black now).imp_of_mem
    intro a b ha hb hab
    have hload : ∀ ip ∈ s.tier.candidatesAt black now,
        s.tier.sessions.getD (s.tier.peers.idxOf ip) 0 = s.guardsOf ip := by
      intro ip hip
      rw [hinv.peers_eq]
      exact hinv.sessions_idxOf ((hinv.mem_candidatesAt_iff hdistinct black now ip).mp hip).1
    rw [hload a ha, hload b hb, hinv.peers_eq] at hab
    exact hab
  · intro m black now s' hstep ip hip
    have hinv' := hinv.step hdistinct hstep
    obtain ⟨hmem, hblack, hroom, hmarks⟩ := (hinv'.mem_candidatesAt_iff hdistinct black now ip).mp hip
    cases hstep
    refine (hinv.mem_candidatesAt_iff hdistinct black now ip).mpr ⟨hmem, hblack, ?_, ?_⟩
    · rw [Sessions.guardsOf, hinv'.peers_eq] at hroom
      rw [Sessions.guardsOf, hinv.peers_eq]
      exact hroom
    · exact fun k hk => hmarks k (List.mem_cons_of_mem m hk)

/-- Two peers with one slot each.  Of two selections one gets the slot of the first
    and hands it on; the second peer fails, and a hang is marked for it later. -/
def busyEvents : List TierEvent :=
  [.tryAcquire "198.51.100.1" 0, .tryAcquire "198.51.100.1" 1, .mark ⟨"198.51.100.2", false, 5⟩,
    .move ⟨0, 0⟩ 7, .mark ⟨"198.51.100.2", true, 9⟩]

theorem busy_isSome : (Machine.exec Sessions.step (fun _ _ => True)
    (Sessions.start ["198.51.100.1", "198.51.100.2"] 1 1500000000 true) busyEvents).isSome = true := by
  decide

def busySessions : Sessions :=
  (Machine.exec Sessions.step (fun _ _ => True)
    (Sessions.start ["198.51.100.1", "198.51.100.2"] 1 1500000000 true) busyEvents).get busy_isSome

theorem priority_tier_over_runs_busySessions :
    busySessions.guards = [⟨0, 7⟩] ∧
    busySessions.tier.sessions.getD 0 0 = busySessions.guardsOf "198.51.100.1" ∧
    (∀ now, "198.51.100.2" ∈ busySessions.tier.candidatesAt {} now ↔ 30000000005 ≤ now) := by
  have hall := priority_tier_over_runs ["198.51.100.1", "198.51.100.2"] (by decide) 1 1500000000 true busyEvents
    busySessions (Machine.Run.of_exec (Option.some_get busy_isSome).symm)
  refine ⟨by decide, (hall.1 "198.51.100.1" (by decide)).1, ?_⟩
  intro now
  have hmarks : busySessions.marks = [⟨"198.51.100.2", true, 9⟩, ⟨"198.51.100.2", false, 5⟩] := by
    decide
  have hfree : busySessions.guardsOf "198.51.100.2" = 0 := by
    decide
  rw [(hall.2.2.1 {} now).1, hmarks, hfree]
  constructor
  · rintro ⟨-, -, -, hpast⟩
    exact hpast ⟨"198.51.100.2", false, 5⟩ (by decide) rfl
  · intro hnow
    refine ⟨by decide, rfl, Or.inr Nat.zero_lt_one, ?_⟩
    intro m hm _
    simp only [List.mem_cons, List.not_mem_nil, or_false] at hm
    rcases hm with rfl | rfl
    · exact le_trans (by decide) hnow
    · exact hnow

end Hypersync
