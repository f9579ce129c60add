import Hypersync.Lib.Reach
import Mathlib.Data.Set.Card

/-!
# The crawl over the peer graph

`crawl_peers_with` asks peers for their peers, hop by hop.  A hop takes its targets
from the frontier within what is left of the query budget, asks all of them at once,
and handles the answers in the order in which they arrive.  Four bounds cut it short:
the depth, the budget, the entries of an answer that are looked at, and the number of
addresses kept.

The query function is a parameter, as it is in the source, and so is the order of
arrival, which may be any permutation of the targets of each hop.  Whatever they are,
the crawl keeps to its bounds (`Crawl.Sound`); and when no bound but the depth is hit,
its visited set is layer for layer the set of addresses within reach
(`Crawl.Exact`), so that what it returns does not depend on the order at all.
-/

namespace Hypersync.Peerd

def MAX_PEERS_PER_QUERY_RESPONSE : Nat := 512

def MAX_CANDIDATES : Nat := 20000

/-! ## 1. The crawl as written -/

/-- The variables of `crawl_peers_with` between two hops, and the addresses asked so far. -/
structure Crawl where
  discovered : Finset String
  visited : Finset String
  frontier : List String
  queries : Nat
  asked : List String
deriving DecidableEq

/-- The loop that drains the frontier: the visited set and the targets. -/
def takeTargets (remaining : Nat) :
    List String → Finset String → List String → Finset String × List String
  | [], visited, targets => (visited, targets)
  | ip :: rest, visited, targets =>
    if remaining ≤ targets.length then (visited, targets)
    else if ip ∈ visited then takeTargets remaining rest visited targets
    else takeTargets remaining rest (insert ip visited) (targets ++ [ip])

section

variable (query : String → Option (List String)) (selfIps : Finset String)

/-- The peers a task returns; one that panicked returns none. -/
def answer (ip : String) : List String := (query ip).getD []

/-- One entry of an answer, with `discovered` and `next`; `queued` holds what `next` does. -/
def hearPeer (visited : Finset String) (s : Finset String × List String) (p : String) :
    Finset String × List String :=
  if p ∈ selfIps then s
  else
    (if s.1.card < MAX_CANDIDATES then insert p s.1 else s.1,
      if p ∉ visited ∧ p ∉ s.2 then s.2 ++ [p] else s.2)

/-- The answers of a hop, as they arrive. -/
def hearAnswers (visited discovered : Finset String) (arrived : List String) : Finset String × List String :=
  arrived.foldl
    (fun s ip => ((answer query ip).take MAX_PEERS_PER_QUERY_RESPONSE).foldl (hearPeer selfIps visited) s)
    (discovered, [])

/-- One turn of the loop over the hops; `none` is a `break`. -/
def hop (maxQueries : Nat) (arrive : List String → List String) (c : Crawl) : Option Crawl :=
  if c.frontier = [] ∨ maxQueries ≤ c.queries then none
  else
    let taken := takeTargets (maxQueries - c.queries) c.frontier c.visited []
    if taken.2 = [] then none
    else
      let heard := hearAnswers query selfIps taken.1 c.discovered (arrive taken.2)
      some ⟨heard.1, taken.1, heard.2, c.queries + taken.2.length, c.asked ++ taken.2⟩

/-- The hops, of which `left` are still allowed; `arrival i` is the order of hop `i`. -/
def crawlLoop (maxQueries : Nat) (arrival : Nat → List String → List String) : Nat → Nat → Crawl → Crawl
  | 0, _, c => c
  | left + 1, i, c =>
    match hop query selfIps maxQueries (arrival i) c with
    | none => c
    | some c' => crawlLoop maxQueries arrival left (i + 1) c'

/-- The variables before the first hop. -/
def crawlStart (seeds : List String) : Crawl := ⟨∅, ∅, seeds.filter (fun ip => ip ∉ selfIps), 0, []⟩

/-- The crawl, with its variables at the end. -/
def crawlRun (seeds : List String) (depth maxQueries : Nat) (arrival : Nat → List String → List String) :
    Crawl :=
  crawlLoop query selfIps maxQueries arrival depth 0 (crawlStart selfIps seeds)

def crawlPeersWith (seeds : List String) (depth maxQueries : Nat)
    (arrival : Nat → List String → List String) : Finset String :=
  (crawlRun query selfIps seeds depth maxQueries arrival).discovered

end

/-! ## 2. What one hop does -/

/-- What the frontier yields: new addresses, each once, and all of them unless the
    budget stops it. -/
theorem takeTargets_spec (remaining : Nat) (frontier : List String) :
    ∀ (visited : Finset String) (targets : List String), targets.length ≤ remaining →
      ∃ new, (takeTargets remaining frontier visited targets).2 = targets ++ new ∧ new.Nodup ∧
        (∀ ip ∈ new, ip ∈ frontier ∧ ip ∉ visited) ∧
        (takeTargets remaining frontier visited targets).1 = visited ∪ new.toFinset ∧
        (targets ++ new).length ≤ remaining ∧
        (remaining ≤ (targets ++ new).length ∨
          ∀ ip ∈ frontier, ip ∈ (takeTargets remaining frontier visited targets).1) := by
  induction frontier with
  | nil =>
    intro visited targets hlen
    refine ⟨[], (List.append_nil _).symm, List.nodup_nil, ?_, ?_, by rwa [List.append_nil], Or.inr ?_⟩
    · exact fun ip hip => absurd hip List.not_mem_nil
    · rw [List.toFinset_nil, Finset.union_empty]
      rfl
    · exact fun ip hip => absurd hip List.not_mem_nil
  | cons ip rest ih =>
    intro visited targets hlen
    rw [takeTargets]
    split
    · next hfull =>
      refine ⟨[], (List.append_nil _).symm, List.nodup_nil, ?_, ?_, by rwa [List.append_nil], Or.inl ?_⟩
      · exact fun ip hip => absurd hip List.not_mem_nil
      · rw [List.toFinset_nil, Finset.union_empty]
      · rwa [List.append_nil]
    · next hroom =>
      split
      · next hseen =>
        obtain ⟨new, htargets, hnodup, hnew, hvisited, hle, hall⟩ := ih visited targets hlen
        refine ⟨new, htargets, hnodup, ?_, hvisited, hle, hall.imp_right ?_⟩
        · exact fun x hx => ⟨List.mem_cons_of_mem ip (hnew x hx).1, (hnew x hx).2⟩
        · intro hrest x hx
          rcases List.mem_cons.mp hx with rfl | hx
          · rw [hvisited]
            exact Finset.mem_union_left _ hseen
          · exact hrest x hx
      · next hfresh =>
        obtain ⟨new, htargets, hnodup, hnew, hvisited, hle, hall⟩ := ih (insert ip visited) (targets ++ [ip])
          (by rw [List.length_append, List.length_singleton]; omega)
        have hassoc : targets ++ [ip] ++ new = targets ++ (ip :: new) := by
          rw [List.append_assoc, List.singleton_append]
        rw [hassoc] at htargets hle hall
        refine ⟨ip :: new, htargets, ?_, ?_, ?_, hle, hall.imp_right ?_⟩
        · exact List.nodup_cons.mpr ⟨fun hip => (hnew ip hip).2 (Finset.mem_insert_self ip visited), hnodup⟩
        · intro x hx
          rcases List.mem_cons.mp hx with rfl | hx
          · exact ⟨List.mem_cons_self, hfresh⟩
          · exact ⟨List.mem_cons_of_mem ip (hnew x hx).1,
              fun hv => (hnew x hx).2 (Finset.mem_insert_of_mem hv)⟩
        · rw [hvisited, List.toFinset_cons, Finset.insert_union, Finset.union_insert]
        · intro hrest x hx
          rcases List.mem_cons.mp hx with rfl | hx
          · rw [hvisited]
            exact Finset.mem_union_left _ (Finset.mem_insert_self x visited)
          · exact hrest x hx

section

variable {query : String → Option (List String)} {selfIps : Finset String}

/-- What a list of entries leaves in `discovered` and `next`. -/
structure Heard (selfIps visited : Finset String) (entries : List String)
    (s s' : Finset String × List String) : Prop where
  grows : s.1 ⊆ s'.1
  sound : ∀ p ∈ s'.1, p ∈ s.1 ∨ p ∈ entries ∧ p ∉ selfIps
  complete : s'.1.card < MAX_CANDIDATES → ∀ p ∈ entries, p ∉ selfIps → p ∈ s'.1
  next : ∀ p, p ∈ s'.2 ↔ p ∈ s.2 ∨ p ∈ entries ∧ p ∉ selfIps ∧ p ∉ visited

theorem heard_peer (visited : Finset String) (s : Finset String × List String) (p : String) :
    Heard selfIps visited [p] s (hearPeer selfIps visited s p) := by
  unfold hearPeer
  by_cases hself : p ∈ selfIps
  · rw [if_pos hself]
    refine ⟨Finset.Subset.refl _, fun q hq => Or.inl hq, ?_, ?_⟩
    · intro _ q hq hne
      rw [List.mem_singleton.mp hq] at hne
      exact absurd hself hne
    · refine fun q => ⟨Or.inl, ?_⟩
      rintro (hq | ⟨hq, hne, -⟩)
      · exact hq
      · rw [List.mem_singleton.mp hq] at hne
        exact absurd hself hne
  · rw [if_neg hself]
    refine ⟨?_, ?_, ?_, ?_⟩
    · simp only
      split
      · exact Finset.subset_insert _ _
      · exact Finset.Subset.refl _
    · intro q hq
      simp only at hq
      split at hq
      · rcases Finset.mem_insert.mp hq with rfl | hq
        · exact Or.inr ⟨List.mem_singleton_self _, hself⟩
        · exact Or.inl hq
      · exact Or.inl hq
    · intro hcard q hq _
      rw [List.mem_singleton.mp hq]
      simp only at hcard ⊢
      split at hcard
      · next hroom =>
        rw [if_pos hroom]
        exact Finset.mem_insert_self _ _
      · next hfull => exact absurd hcard hfull
    · intro q
      simp only
      split
      · next hnew =>
        rw [List.mem_append, List.mem_singleton]
        constructor
        · rintro (hq | rfl)
          · exact Or.inl hq
          · exact Or.inr ⟨rfl, hself, hnew.1⟩
        · rintro (hq | ⟨rfl, -, -⟩)
          · exact Or.inl hq
          · exact Or.inr rfl
      · next hold =>
        refine ⟨Or.inl, ?_⟩
        rintro (hq | ⟨hq, -, hunvisited⟩)
        · exact hq
        · rw [List.mem_singleton.mp hq] at hunvisited ⊢
          by_contra hnot
          exact hold ⟨hunvisited, hnot⟩

theorem Heard.nil (visited : Finset String) (s : Finset String × List String) :
    Heard selfIps visited [] s s where
  grows := Finset.Subset.refl _
  sound := fun _ hp => Or.inl hp
  complete := fun _ _ hp => absurd hp List.not_mem_nil
  next := fun _ => ⟨Or.inl, fun h => h.elim id fun hp => absurd hp.1 List.not_mem_nil⟩

theorem Heard.append {visited : Finset String} {xs ys : List String} {s s' s'' : Finset String × List String}
    (h : Heard selfIps visited xs s s') (h' : Heard selfIps visited ys s' s'') :
    Heard selfIps visited (xs ++ ys) s s'' where
  grows := h.grows.trans h'.grows
  sound := by
    intro p hp
    rcases h'.sound p hp with hp | ⟨hp, hself⟩
    · rcases h.sound p hp with hp | ⟨hp, hself⟩
      · exact Or.inl hp
      · exact Or.inr ⟨List.mem_append_left ys hp, hself⟩
    · exact Or.inr ⟨List.mem_append_right xs hp, hself⟩
  complete := by
    intro hcard p hp hself
    rcases List.mem_append.mp hp with hp | hp
    · -- the set was not full before either
      exact h'.grows (h.complete (Nat.lt_of_le_of_lt (Finset.card_le_card h'.grows) hcard) p hp hself)
    · exact h'.complete hcard p hp hself
  next := by
    intro p
    rw [h'.next, h.next, List.mem_append]
    tauto

theorem heard_peers (visited : Finset String) (entries : List String) :
    ∀ s, Heard selfIps visited entries s (entries.foldl (hearPeer selfIps visited) s) := by
  induction entries with
  | nil => exact Heard.nil visited
  | cons p entries ih =>
    intro s
    exact (heard_peer visited s p).append (ih _)

theorem heard_answers (visited : Finset String) (arrived : List String) :
    ∀ s, Heard selfIps visited
      (arrived.flatMap fun ip => (answer query ip).take MAX_PEERS_PER_QUERY_RESPONSE) s
      (arrived.foldl (fun s ip =>
        ((answer query ip).take MAX_PEERS_PER_QUERY_RESPONSE).foldl (hearPeer selfIps visited) s) s) := by
  induction arrived with
  | nil => exact Heard.nil visited
  | cons ip arrived ih =>
    intro s
    rw [List.flatMap_cons, List.foldl_cons]
    exact (heard_peers visited _ s).append (ih _)

/-- A hop from `c` to `c'`: it asks the `targets`, new addresses of the frontier, and hears the
    `entries` of their answers in some order. -/
structure Hopped (query : String → Option (List String)) (selfIps : Finset String) (maxQueries : Nat) (c c' : Crawl)
    (targets entries : List String) : Prop where
  nodup : targets.Nodup
  new : ∀ ip ∈ targets, ip ∈ c.frontier ∧ ip ∉ c.visited
  visited : ∀ ip, ip ∈ c'.visited ↔ ip ∈ c.visited ∨ ip ∈ targets
  card : c'.visited.card = c.visited.card + targets.length
  queries : c'.queries = c.queries + targets.length
  asked : c'.asked = c.asked ++ targets
  budget : c'.queries ≤ maxQueries
  all : maxQueries ≤ c'.queries ∨ ∀ ip ∈ c.frontier, ip ∈ c'.visited
  listed : ∀ p, p ∈ entries ↔ ∃ ip ∈ targets, p ∈ (answer query ip).take MAX_PEERS_PER_QUERY_RESPONSE
  heard : Heard selfIps c'.visited entries (c.discovered, []) (c'.discovered, c'.frontier)

section

variable {maxQueries : Nat} {arrive : List String → List String} {c c' : Crawl}

/-- What the frontier gives a hop that has some of the budget left. -/
theorem takeTargets_hop (hspent : ¬ maxQueries ≤ c.queries) :
    ∃ targets, takeTargets (maxQueries - c.queries) c.frontier c.visited [] = (c.visited ∪ targets.toFinset, targets) ∧
      targets.Nodup ∧ (∀ ip ∈ targets, ip ∈ c.frontier ∧ ip ∉ c.visited) ∧
      c.queries + targets.length ≤ maxQueries ∧
      (maxQueries ≤ c.queries + targets.length ∨ ∀ ip ∈ c.frontier, ip ∈ c.visited ∪ targets.toFinset) := by
  obtain ⟨targets, htargets, hnodup, hnew, hvisited, hle, hall⟩ :=
    takeTargets_spec (maxQueries - c.queries) c.frontier c.visited [] (Nat.zero_le _)
  rw [List.nil_append] at htargets hle hall
  rw [hvisited] at hall
  refine ⟨targets, Prod.ext hvisited htargets, hnodup, hnew, by omega, hall.imp_left fun hfull => by omega⟩

/-- Why a hop is refused: the budget is spent, or the frontier has nothing new. -/
theorem hop_eq_none (h : hop query selfIps maxQueries arrive c = none) :
    maxQueries ≤ c.queries ∨ ∀ ip ∈ c.frontier, ip ∈ c.visited := by
  unfold hop at h
  split at h
  · next hstop =>
    rcases hstop with hempty | hspent
    · rw [hempty]
      exact Or.inr fun ip hip => absurd hip List.not_mem_nil
    · exact Or.inl hspent
  · next hgo =>
    rw [not_or] at hgo
    obtain ⟨targets, htake, -, -, -, hall⟩ := takeTargets_hop hgo.2
    simp only [htake] at h
    split at h
    · next hnone =>
      -- some of the budget is left, so it was not the budget that stopped the loop
      rw [hnone, List.length_nil, Nat.add_zero, List.toFinset_nil, Finset.union_empty] at hall
      exact hall
    · cases h

theorem hop_eq_some (harrive : ∀ targets, (arrive targets).Perm targets)
    (h : hop query selfIps maxQueries arrive c = some c') :
    ∃ targets entries, Hopped query selfIps maxQueries c c' targets entries := by
  unfold hop at h
  split at h
  · cases h
  · next hgo =>
    rw [not_or] at hgo
    obtain ⟨targets, htake, hnodup, hnew, hle, hall⟩ := takeTargets_hop hgo.2
    simp only [htake] at h
    split at h <;> cases h
    refine ⟨targets, _, hnodup, hnew, ?_, ?_, rfl, rfl, hle, hall, ?_, heard_answers _ (arrive targets) _⟩
    · intro ip
      rw [Finset.mem_union, List.mem_toFinset]
    · have hdisj : Disjoint c.visited targets.toFinset := by
        rw [Finset.disjoint_left]
        exact fun ip hip hip' => (hnew ip (List.mem_toFinset.mp hip')).2 hip
      rw [Finset.card_union_of_disjoint hdisj, List.toFinset_card_of_nodup hnodup]
    · intro p
      rw [List.mem_flatMap]
      simp only [(harrive targets).mem_iff]

end

/-! ## 3. The bounds -/

/-- The crawl keeps to its budget, asks nobody twice and never itself, and holds only
    what it was told. -/
structure Crawl.Sound (query : String → Option (List String)) (selfIps : Finset String) (maxQueries : Nat)
    (c : Crawl) : Prop where
  queries : c.asked.length = c.queries
  budget : c.queries ≤ maxQueries
  visited : ∀ ip, ip ∈ c.visited ↔ ip ∈ c.asked
  nodup : c.asked.Nodup
  asked : ∀ ip ∈ c.asked, ip ∉ selfIps
  frontier : ∀ ip ∈ c.frontier, ip ∉ selfIps
  discovered : ∀ p ∈ c.discovered, p ∉ selfIps ∧ ∃ src ∈ c.asked, p ∈ answer query src

theorem Crawl.Sound.start (seeds : List String) (maxQueries : Nat) :
    Crawl.Sound query selfIps maxQueries (crawlStart selfIps seeds) where
  queries := rfl
  budget := Nat.zero_le _
  visited := fun ip => ⟨fun h => absurd h (Finset.notMem_empty ip), fun h => absurd h List.not_mem_nil⟩
  nodup := List.nodup_nil
  asked := fun _ h => absurd h List.not_mem_nil
  frontier := fun _ h => of_decide_eq_true (List.mem_filter.mp h).2
  discovered := fun p h => absurd h (Finset.notMem_empty p)

theorem Crawl.Sound.hop {maxQueries : Nat} {arrive : List String → List String}
    (harrive : ∀ targets, (arrive targets).Perm targets) {c c' : Crawl}
    (h : c.Sound query selfIps maxQueries) (hstep : Peerd.hop query selfIps maxQueries arrive c = some c') :
    c'.Sound query selfIps maxQueries := by
  obtain ⟨targets, entries, hhop⟩ := hop_eq_some harrive hstep
  refine ⟨?_, hhop.budget, ?_, ?_, ?_, ?_, ?_⟩
  · rw [hhop.asked, List.length_append, h.queries, hhop.queries]
  · intro ip
    rw [hhop.visited, hhop.asked, List.mem_append, h.visited]
  · rw [hhop.asked]
    refine List.nodup_append.mpr ⟨h.nodup, hhop.nodup, ?_⟩
    rintro ip hip ip' hip' rfl
    exact (hhop.new ip hip').2 ((h.visited ip).mpr hip)
  · intro ip hip
    rw [hhop.asked] at hip
    rcases List.mem_append.mp hip with hip | hip
    · exact h.asked ip hip
    · exact h.frontier ip (hhop.new ip hip).1
  · intro ip hip
    rcases (hhop.heard.next ip).mp hip with hip | hip
    · exact absurd hip List.not_mem_nil
    · exact hip.2.1
  · intro p hp
    rcases hhop.heard.sound p hp with hp | ⟨hp, hself⟩
    · obtain ⟨hself, src, hsrc, hlist⟩ := h.discovered p hp
      exact ⟨hself, src, by rw [hhop.asked]; exact List.mem_append_left targets hsrc, hlist⟩
    · obtain ⟨src, hsrc, hlist⟩ := (hhop.listed p).mp hp
      exact ⟨hself, src, by rw [hhop.asked]; exact List.mem_append_right c.asked hsrc, List.mem_of_mem_take hlist⟩

theorem Crawl.Sound.loop {maxQueries : Nat} {arrival : Nat → List String → List String}
    (harrival : ∀ i targets, (arrival i targets).Perm targets) {left : Nat} :
    ∀ {i : Nat} {c : Crawl}, c.Sound query selfIps maxQueries →
      (crawlLoop query selfIps maxQueries arrival left i c).Sound query selfIps maxQueries := by
  induction left with
  | zero =>
    intro i c h
    exact h
  | succ left ih =>
    intro i c h
    rw [crawlLoop]
    rcases hhop : Peerd.hop query selfIps maxQueries (arrival i) c with _ | c'
    · exact h
    · exact ih (h.hop (harrival i) hhop)

/-! ## 4. Exactness -/

/-- An address listed by another is a step of the graph, unless it is our own. -/
def Lists (query : String → Option (List String)) (selfIps : Finset String) (src p : String) : Prop :=
  p ∈ answer query src ∧ p ∉ selfIps

def IsSeed (selfIps : Finset String) (seeds : List String) (ip : String) : Prop := ip ∈ seeds ∧ ip ∉ selfIps

/-- The addresses fewer than `depth` hops away from the seeds, through addresses not our own. -/
def InReach (query : String → Option (List String)) (selfIps : Finset String) (seeds : List String)
    (depth : Nat) (ip : String) : Prop :=
  Reach.Before (IsSeed selfIps seeds) (Lists query selfIps) depth ip

/-- After `i` hops the visited addresses are those of the first `i` layers, and the frontier
    has what the next layer adds. -/
structure Crawl.Exact (query : String → Option (List String)) (selfIps : Finset String) (seeds : List String)
    (i : Nat) (c : Crawl) : Prop where
  visited : ∀ ip, ip ∈ c.visited ↔ InReach query selfIps seeds i ip
  queries : c.visited.card = c.queries
  frontier : ∀ ip ∈ c.frontier, Reach.Layer (IsSeed selfIps seeds) (Lists query selfIps) i ip
  layer : ∀ ip, Reach.Layer (IsSeed selfIps seeds) (Lists query selfIps) i ip →
    ip ∈ c.visited ∨ ip ∈ c.frontier
  discovered : c.discovered.card < MAX_CANDIDATES →
    ∀ p, p ∉ selfIps → (∃ src ∈ c.visited, p ∈ answer query src) → p ∈ c.discovered

theorem Crawl.Exact.start (seeds : List String) :
    Crawl.Exact query selfIps seeds 0 (crawlStart selfIps seeds) where
  visited := fun ip => ⟨fun h => absurd h (Finset.notMem_empty ip), fun h => absurd h Reach.not_before_zero⟩
  queries := rfl
  frontier := by
    intro ip hip
    obtain ⟨hseed, hself⟩ := List.mem_filter.mp hip
    exact Reach.Layer.start ⟨hseed, of_decide_eq_true hself⟩
  layer := by
    intro ip hip
    obtain ⟨hseed, hself⟩ := Reach.layer_zero_iff.mp hip
    exact Or.inr (List.mem_filter.mpr ⟨hseed, decide_eq_true hself⟩)
  discovered := by
    rintro - p - ⟨src, hsrc, -⟩
    exact absurd hsrc (Finset.notMem_empty src)

section

variable {seeds : List String} {depth maxQueries : Nat}

/-- A full budget has reached everything there is. -/
theorem mem_of_full (hfew : {ip | InReach query selfIps seeds depth ip}.encard ≤ maxQueries)
    {visited : Finset String} (hvisited : ∀ ip ∈ visited, InReach query selfIps seeds depth ip)
    (hfull : maxQueries ≤ visited.card) {ip : String} (hip : InReach query selfIps seeds depth ip) :
    ip ∈ visited := by
  by_contra hnot
  have hsub : (↑(insert ip visited) : Set String) ⊆ {ip | InReach query selfIps seeds depth ip} := by
    intro x hx
    rcases Finset.mem_insert.mp (Finset.mem_coe.mp hx) with rfl | hx
    · exact hip
    · exact hvisited x hx
  have hle := (Set.encard_le_encard hsub).trans hfew
  rw [Set.encard_coe_eq_coe_finsetCard, Finset.card_insert_of_notMem hnot] at hle
  have := Nat.cast_le.mp hle
  omega

section

variable {i : Nat} {c c' : Crawl} {targets entries : List String}

/-- A hop visits addresses of the layers up to its own. -/
theorem Crawl.Exact.inReach_of_visited (h : c.Exact query selfIps seeds i)
    (hhop : Hopped query selfIps maxQueries c c' targets entries) {ip : String} (hip : ip ∈ c'.visited) :
    InReach query selfIps seeds (i + 1) ip := by
  rcases (hhop.visited ip).mp hip with hip | hip
  · exact Reach.before_succ_iff.mpr (Or.inl ((h.visited ip).mp hip))
  · exact Reach.before_succ_iff.mpr (Or.inr (h.frontier ip (hhop.new ip hip).1))

/-- With a budget that suffices it visits all of them. -/
theorem Crawl.Exact.visited_of_inReach (h : c.Exact query selfIps seeds i)
    (hhop : Hopped query selfIps maxQueries c c' targets entries)
    (hfew : {ip | InReach query selfIps seeds depth ip}.encard ≤ maxQueries) (hi : i < depth) {ip : String}
    (hip : InReach query selfIps seeds (i + 1) ip) : ip ∈ c'.visited := by
  rcases hhop.all with hfull | hall
  · have hcard : c'.visited.card = c'.queries := by rw [hhop.card, h.queries, hhop.queries]
    exact mem_of_full hfew (fun x hx => (h.inReach_of_visited hhop hx).mono hi) (hcard ▸ hfull) (hip.mono hi)
  · rcases Reach.before_succ_iff.mp hip with hip | hip
    · exact (hhop.visited ip).mpr (Or.inl ((h.visited ip).mpr hip))
    · rcases h.layer ip hip with hip | hip
      · exact (hhop.visited ip).mpr (Or.inl hip)
      · exact hall ip hip

/-- Answers that are not too long are read to their end. -/
theorem Hopped.mem_entries (hhop : Hopped query selfIps maxQueries c c' targets entries) {src p : String}
    (hsrc : src ∈ targets) (hshort : (answer query src).length ≤ MAX_PEERS_PER_QUERY_RESPONSE)
    (hp : p ∈ answer query src) : p ∈ entries := by
  refine (hhop.listed p).mpr ⟨src, hsrc, ?_⟩
  rwa [List.take_of_length_le hshort]

end

theorem Crawl.Exact.hop (hfew : {ip | InReach query selfIps seeds depth ip}.encard ≤ maxQueries)
    (hshort : ∀ ip, InReach query selfIps seeds depth ip →
      (answer query ip).length ≤ MAX_PEERS_PER_QUERY_RESPONSE)
    {arrive : List String → List String} (harrive : ∀ targets, (arrive targets).Perm targets) {i : Nat}
    (hi : i < depth) {c c' : Crawl} (h : c.Exact query selfIps seeds i)
    (hstep : Peerd.hop query selfIps maxQueries arrive c = some c') :
    c'.Exact query selfIps seeds (i + 1) := by
  obtain ⟨targets, entries, hhop⟩ := hop_eq_some harrive hstep
  have hlayer : ∀ ip, InReach query selfIps seeds (i + 1) ip → ip ∈ c'.visited := fun ip hip =>
    h.visited_of_inReach hhop hfew hi hip
  have hlisted : ∀ src ∈ targets, ∀ p ∈ answer query src, p ∈ entries := by
    intro src hsrc p hp
    have hreach := h.inReach_of_visited hhop ((hhop.visited src).mpr (Or.inr hsrc))
    exact hhop.mem_entries hsrc (hshort src (hreach.mono hi)) hp
  refine ⟨fun ip => ⟨h.inReach_of_visited hhop, hlayer ip⟩, by rw [hhop.card, h.queries, hhop.queries], ?_, ?_, ?_⟩
  · intro ip hip
    rcases (hhop.heard.next ip).mp hip with hip | ⟨hip, hself, -⟩
    · exact absurd hip List.not_mem_nil
    · obtain ⟨src, hsrc, hlist⟩ := (hhop.listed ip).mp hip
      exact Reach.Layer.step (h.frontier src (hhop.new src hsrc).1) ⟨List.mem_of_mem_take hlist, hself⟩
  · intro ip hip
    by_cases hold : ip ∈ c'.visited
    · exact Or.inl hold
    refine Or.inr ((hhop.heard.next ip).mpr (Or.inr ?_))
    obtain ⟨src, hsrc, hlist, hself⟩ := Reach.layer_succ_iff.mp hip
    -- a source seen before the hop has put `ip` into an earlier layer
    have htarget : src ∈ targets := by
      rcases (hhop.visited src).mp (hlayer src (Reach.before_succ_iff.mpr (Or.inr hsrc))) with hmem | hmem
      · obtain ⟨k, hk, hlay⟩ := (h.visited src).mp hmem
        exact absurd (hlayer ip ⟨k + 1, by omega, Reach.Layer.step hlay ⟨hlist, hself⟩⟩) hold
      · exact hmem
    exact ⟨hlisted src htarget ip hlist, hself, hold⟩
  · rintro hroom p hself ⟨src, hsrc, hlist⟩
    rcases (hhop.visited src).mp hsrc with hsrc | hsrc
    · have hbefore := Nat.lt_of_le_of_lt (Finset.card_le_card hhop.heard.grows) hroom
      exact hhop.heard.grows (h.discovered hbefore p hself ⟨src, hsrc, hlist⟩)
    · exact hhop.heard.complete hroom p (hlisted src hsrc p hlist) hself

/-- Wherever the loop stops, everything within reach has been asked. -/
theorem Crawl.Exact.loop (hfew : {ip | InReach query selfIps seeds depth ip}.encard ≤ maxQueries)
    (hshort : ∀ ip, InReach query selfIps seeds depth ip →
      (answer query ip).length ≤ MAX_PEERS_PER_QUERY_RESPONSE)
    {arrival : Nat → List String → List String} (harrival : ∀ i targets, (arrival i targets).Perm targets)
    {left : Nat} :
    ∀ {i : Nat} {c : Crawl}, i + left = depth → c.Exact query selfIps seeds i →
      ∃ j ≤ depth, (crawlLoop query selfIps maxQueries arrival left i c).Exact query selfIps seeds j ∧
        ∀ ip, InReach query selfIps seeds depth ip → InReach query selfIps seeds j ip := by
  induction left with
  | zero =>
    intro i c hi h
    exact ⟨i, by omega, h, fun ip hip => hip.mono (by omega)⟩
  | succ left ih =>
    intro i c hi h
    rw [crawlLoop]
    rcases hhop : Peerd.hop query selfIps maxQueries (arrival i) c with _ | c'
    · -- the hop was refused: the next layer adds nothing, so no later one does
      have hsat : ∀ ip, Reach.Layer (IsSeed selfIps seeds) (Lists query selfIps) i ip →
          InReach query selfIps seeds i ip := by
        intro ip hip
        refine (h.visited ip).mp ?_
        rcases hop_eq_none hhop with hfull | hall
        · exact mem_of_full hfew (fun x hx => ((h.visited x).mp hx).mono (by omega)) (h.queries ▸ hfull)
            ⟨i, by omega, hip⟩
        · exact (h.layer ip hip).elim id (hall ip)
      refine ⟨i, by omega, h, ?_⟩
      rintro ip ⟨k, -, hlay⟩
      exact Reach.before_of_saturated hsat hlay
    · exact ih (by omega) (h.hop hfew hshort (harrival i) (by omega) hhop)

end

/-- **The crawl.**  Whatever the graph and the order in which answers arrive, it asks at most
    `maxQueries` addresses, none twice and never our own, and returns addresses that it
    was told and that are not our own.  If the budget suffices for all addresses less than
    `depth` hops away, no answer is too long and the set of candidates does not fill up,
    it returns exactly what those addresses list, in whatever order they answer. -/
theorem crawlPeersWith_correct (query : String → Option (List String)) (selfIps : Finset String)
    (seeds : List String) (depth maxQueries : Nat) (arrival : Nat → List String → List String)
    (harrival : ∀ i targets, (arrival i targets).Perm targets) :
    (crawlRun query selfIps seeds depth maxQueries arrival).asked.length ≤ maxQueries ∧
    (crawlRun query selfIps seeds depth maxQueries arrival).asked.Nodup ∧
    (∀ ip ∈ (crawlRun query selfIps seeds depth maxQueries arrival).asked, ip ∉ selfIps) ∧
    (∀ p ∈ crawlPeersWith query selfIps seeds depth maxQueries arrival, p ∉ selfIps ∧
      ∃ src ∈ (crawlRun query selfIps seeds depth maxQueries arrival).asked, p ∈ answer query src) ∧
    ({ip | InReach query selfIps seeds depth ip}.encard ≤ maxQueries →
      (∀ ip, InReach query selfIps seeds depth ip →
        (answer query ip).length ≤ MAX_PEERS_PER_QUERY_RESPONSE) →
      (crawlPeersWith query selfIps seeds depth maxQueries arrival).card < MAX_CANDIDATES →
      ∀ p, p ∈ crawlPeersWith query selfIps seeds depth maxQueries arrival ↔
        p ∉ selfIps ∧ ∃ src, InReach query selfIps seeds depth src ∧ p ∈ answer query src) := by
  have hsound : (crawlRun query selfIps seeds depth maxQueries arrival).Sound query selfIps maxQueries :=
    (Crawl.Sound.start seeds maxQueries).loop harrival
  refine ⟨hsound.queries ▸ hsound.budget, hsound.nodup, hsound.asked, hsound.discovered, ?_⟩
  intro hfew hshort hroom p
  obtain ⟨j, hj, hexact, hall⟩ :=
    (Crawl.Exact.start seeds).loop hfew hshort harrival (Nat.zero_add depth)
  constructor
  · intro hp
    obtain ⟨hself, src, hsrc, hlist⟩ := hsound.discovered p hp
    exact ⟨hself, src, ((hexact.visited src).mp ((hsound.visited src).mpr hsrc)).mono hj, hlist⟩
  · rintro ⟨hself, src, hsrc, hlist⟩
    exact hexact.discovered hroom p hself ⟨src, (hexact.visited src).mpr (hall src hsrc), hlist⟩

/-- Two seeds that list each other, ourselves and two further peers, which list what is
    two hops away and each other. -/
def twoHops (ip : String) : Option (List String) :=
  if ip = "1.1.1.1" then some ["2.2.2.2", "3.3.3.3", "9.9.9.9"]
  else if ip = "2.2.2.2" then some ["1.1.1.1", "4.4.4.4"]
  else if ip = "3.3.3.3" then some ["4.4.4.4", "5.5.5.5"]
  else if ip = "4.4.4.4" then some ["3.3.3.3", "6.6.6.6", "9.9.9.9"]
  else none

def twoSeeds : List String := ["1.1.1.1", "2.2.2.2", "1.1.1.1"]

/-- What may be asked within two hops. -/
def twoLayers : Finset String := {"1.1.1.1", "2.2.2.2", "3.3.3.3", "4.4.4.4"}

theorem inReach_twoHops {ip : String} (h : InReach twoHops {"9.9.9.9"} twoSeeds 2 ip) : ip ∈ twoLayers := by
  have hlisted : ∀ src ∈ twoSeeds, ∀ p ∈ answer twoHops src, p ∉ ({"9.9.9.9"} : Finset String) → p ∈ twoLayers := by
    decide
  obtain ⟨k, hk, hlay⟩ := h
  rcases k with _ | k
  · exact (by decide : ∀ seed ∈ twoSeeds, seed ∈ twoLayers) ip (Reach.layer_zero_iff.mp hlay).1
  · obtain rfl : k = 0 := by omega
    obtain ⟨src, hsrc, hlist, hself⟩ := Reach.layer_succ_iff.mp hlay
    exact hlisted src (Reach.layer_zero_iff.mp hsrc).1 ip hlist hself

/-- The budget is just enough for that graph.  The crawl finds what is two hops away, and finds
    the same however the answers arrive. -/
theorem crawlPeersWith_twoHops :
    {ip | InReach twoHops {"9.9.9.9"} twoSeeds 2 ip}.encard ≤ (4 : Nat) ∧
    (∀ ip, InReach twoHops {"9.9.9.9"} twoSeeds 2 ip →
      (answer twoHops ip).length ≤ MAX_PEERS_PER_QUERY_RESPONSE) ∧
    (∀ arrive ∈ [id, List.reverse], (crawlPeersWith twoHops {"9.9.9.9"} twoSeeds 2 4 fun _ => arrive).card
      < MAX_CANDIDATES) ∧
    "6.6.6.6" ∈ crawlPeersWith twoHops {"9.9.9.9"} twoSeeds 2 4 (fun _ => List.reverse) ∧
    crawlPeersWith twoHops {"9.9.9.9"} twoSeeds 2 4 (fun _ => List.reverse) =
      crawlPeersWith twoHops {"9.9.9.9"} twoSeeds 2 4 fun _ => id := by
  have hfew : {ip | InReach twoHops {"9.9.9.9"} twoSeeds 2 ip}.encard ≤ (4 : Nat) := by
    refine (Set.encard_le_encard (t := ↑twoLayers) fun ip hip => inReach_twoHops hip).trans ?_
    rw [Set.encard_coe_eq_coe_finsetCard]
    exact Nat.cast_le.mpr (by decide)
  have hshort : ∀ ip, InReach twoHops {"9.9.9.9"} twoSeeds 2 ip →
      (answer twoHops ip).length ≤ MAX_PEERS_PER_QUERY_RESPONSE := fun ip hip =>
    (by decide : ∀ ip ∈ twoLayers, (answer twoHops ip).length ≤ MAX_PEERS_PER_QUERY_RESPONSE) ip (inReach_twoHops hip)
  have hroom : ∀ arrive ∈ [id, List.reverse],
      (crawlPeersWith twoHops {"9.9.9.9"} twoSeeds 2 4 fun _ => arrive).card < MAX_CANDIDATES := by
    decide
  have hback := (crawlPeersWith_correct twoHops {"9.9.9.9"} twoSeeds 2 4 (fun _ => List.reverse)
    (fun _ => List.reverse_perm)).2.2.2.2 hfew hshort (hroom _ (List.mem_cons_of_mem _ List.mem_cons_self))
  have hthere := (crawlPeersWith_correct twoHops {"9.9.9.9"} twoSeeds 2 4 (fun _ => id)
    (fun _ => List.Perm.refl)).2.2.2.2 hfew hshort (hroom _ List.mem_cons_self)
  refine ⟨hfew, hshort, hroom, (hback "6.6.6.6").mpr ⟨by decide, "4.4.4.4", ?_, by decide⟩, ?_⟩
  · have hseed : Reach.Layer (IsSeed {"9.9.9.9"} twoSeeds) (Lists twoHops {"9.9.9.9"}) 0 "2.2.2.2" :=
      Reach.Layer.start ⟨by decide, by decide⟩
    exact ⟨1, by decide, Reach.Layer.step hseed ⟨by decide, by decide⟩⟩
  · ext p
    rw [hback, hthere]

end

end Hypersync.Peerd
