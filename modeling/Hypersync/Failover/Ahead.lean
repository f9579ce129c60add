import Hypersync.Failover.Switch

/-!
# The ahead buffers of the core

A standby's blocks above the node's last one wait in `ahead`; `ahead_bytes` counts
their bytes apart from the map, and `dropped_max` remembers the highest round that
was trimmed for space.  Five operations write the three fields one after the other.
Here: the count is the sum of the buffered lengths in every state the core can
reach, no subtraction from it falls below zero, both limits hold, and what is
trimmed for space are the highest rounds then buffered.
-/

namespace Hypersync.Failover

/-! ## 1. The blocks an operation takes out

Every subtraction from the byte count goes with a block that leaves the map.  The
functions below run the operations of the core and list those blocks, each with the
count its length is subtracted from. -/

/-- A block leaves the buffer while the byte count is `bytes`. -/
structure Removal where
  bytes : Nat
  round : UInt32
  block : Ahead

/-- The subtraction that goes with the removal does not fall below zero. -/
def Removal.Fits (r : Removal) : Prop := r.block.frame.length ≤ r.bytes

/-- None of the subtractions does. -/
def AllFit (l : List Removal) : Prop := ∀ x ∈ l, x.Fits

theorem AllFit.nil : AllFit [] := fun _ hx => absurd hx List.not_mem_nil

theorem AllFit.cons {x : Removal} {l : List Removal} (hx : x.Fits) (hl : AllFit l) : AllFit (x :: l) :=
  List.forall_mem_cons.mpr ⟨hx, hl⟩

theorem AllFit.append {l m : List Removal} (hl : AllFit l) (hm : AllFit m) : AllFit (l ++ m) :=
  List.forall_mem_append.mpr ⟨hl, hm⟩

namespace Upstream

/-- The bytes in the buffer. -/
def bufferedBytes (u : Upstream) : Nat := u.ahead.weight fun a => a.frame.length

/-- The buffer with the new block in it, before the trimming loop of `insert_ahead`. -/
def inserted (u : Upstream) (round : UInt32) (a : Ahead) : Upstream :=
  { u with
    ahead := u.ahead.insert round a
    aheadBytes :=
      match u.ahead.get? round with
      | some old => u.aheadBytes + a.frame.length - old.frame.length
      | none => u.aheadBytes + a.frame.length }

theorem insertAhead_eq (u : Upstream) (round : UInt32) (a : Ahead) :
    u.insertAhead round a = trimHigh (u.inserted round a).ahead.size (u.inserted round a) := rfl

def trimHighRemovals : Nat → Upstream → List Removal
  | 0, _ => []
  | fuel + 1, u =>
    if AHEAD_KEEP < u.ahead.size ∨ AHEAD_BYTES < u.aheadBytes then
      match u.ahead.last? with
      | none => []
      | some (r, a) =>
        ⟨u.aheadBytes, r, a⟩ :: trimHighRemovals fuel { u with
          ahead := u.ahead.popLast
          aheadBytes := u.aheadBytes - a.frame.length
          droppedMax := max u.droppedMax r }
    else []

/-- What an insertion discards for space. -/
def discards (u : Upstream) (round : UInt32) (a : Ahead) : List Removal :=
  trimHighRemovals (u.inserted round a).ahead.size (u.inserted round a)

def insertAheadRemovals (u : Upstream) (round : UInt32) (a : Ahead) : List Removal :=
  match u.ahead.get? round with
  | some old => ⟨u.aheadBytes + a.frame.length, round, old⟩ :: u.discards round a
  | none => u.discards round a

def takeAheadRemovals (u : Upstream) (round : UInt32) : List Removal :=
  match u.ahead.get? round with
  | none => []
  | some a => [⟨u.aheadBytes, round, a⟩]

def trimLowRemovals (floor : UInt32) : Nat → Upstream → List Removal
  | 0, _ => []
  | fuel + 1, u =>
    match u.ahead.first? with
    | none => []
    | some (r, a) =>
      if r ≤ floor then
        ⟨u.aheadBytes, r, a⟩ :: trimLowRemovals floor fuel { u with
          ahead := u.ahead.popFirst, aheadBytes := u.aheadBytes - a.frame.length }
      else []

def takeChainRemovals : Nat → UInt32 → Upstream → List Removal
  | 0, _, _ => []
  | fuel + 1, cur, u =>
    match (u.ahead.rangeFrom (Word.satAdd cur 1)).head? with
    | none => []
    | some (r, a) =>
      if a.parent ≠ cur then []
      else
        match u.takeAhead r with
        | none => []
        | some (_, v) => u.takeAheadRemovals r ++ takeChainRemovals fuel r v

end Upstream

namespace Core

def settleOneRemovals (floor round : UInt32) (hash : UInt64) (at_ : Nat) (u : Upstream) : List Removal :=
  match u.takeAhead round with
  | some (a, v) =>
    let w := (v.compared (a.hash == hash) (asMillis (at_ - a.at_))).1
    u.takeAheadRemovals round ++ Upstream.trimLowRemovals floor w.ahead.size w
  | none => Upstream.trimLowRemovals floor u.ahead.size u

def settleStandbysRemovals (c : Core) (round : UInt32) (hash : UInt64) (at_ : Nat) : List Removal :=
  (KeyMap.toList c.ups).flatMap fun e =>
    if e.1 = c.active then [] else settleOneRemovals c.lastForwarded round hash at_ e.2

def replayRemovals : List (UInt32 × Ahead) → Core → List Removal
  | [], _ => []
  | (r, a) :: chain, c =>
    (c.recordForwarded r a.hash a.at_).settleStandbysRemovals r a.hash a.at_ ++
      replayRemovals chain ((c.recordForwarded r a.hash a.at_).settleStandbys r a.hash a.at_).1

def onActiveBlockRemovals (c : Core) (round : UInt32) (hash : UInt64) (at_ : Nat) : List Removal :=
  let c := { c with ups := KeyMap.modify c.active (fun u => { u with lastRx := some at_ }) c.ups }
  if c.lastForwarded ≠ 0 ∧ round ≤ c.lastForwarded then []
  else (c.recordForwarded round hash at_).settleStandbysRemovals round hash at_

def onStandbyBlockRemovals (c : Core) (id : Nat) (round parent : UInt32) (hash : UInt64) (at_ : Nat)
    (frame : List UInt8) : List Removal :=
  match c.ups.lookup id with
  | none => []
  | some u =>
    if round ≤ c.lastForwarded then []
    else Upstream.insertAheadRemovals { u with lastRx := some at_ } round ⟨parent, hash, at_, frame⟩

def switchToRemovals (c : Core) (id now : Nat) : List Removal :=
  match c.ups.lookup id with
  | none => []
  | some u =>
    if !u.canContinue c.lastForwarded then []
    else
      u.takeChainRemovals u.ahead.size c.lastForwarded ++
        match u.takeChain u.ahead.size c.lastForwarded with
        | ([], _) => []
        | (chain, v) =>
          replayRemovals chain
            { c with ups := KeyMap.modify id (fun _ => v) c.ups, active := id, lastSwitch := some now }

/-- Every block a call takes out of a buffer.  `add_standby` and `remove` drop whole
    upstreams and subtract nothing. -/
def removals (c : Core) : Call → List Removal
  | .op (.activeBlock round hash at_) => c.onActiveBlockRemovals round hash at_
  | .op (.standbyBlock id round parent hash at_ frame) => c.onStandbyBlockRemovals id round parent hash at_ frame
  | .op (.addStandby _ _) => []
  | .op (.markPreferred _) => []
  | .op (.remove _) => []
  | .switchTo id now => c.switchToRemovals id now

/-- What a call discards for space at the upstream `id`. -/
def discards (c : Core) (id : Nat) : Call → List Removal
  | .op (.standbyBlock j round parent hash at_ frame) =>
    if j = id then
      match c.ups.lookup id with
      | none => []
      | some u =>
        if round ≤ c.lastForwarded then []
        else Upstream.discards { u with lastRx := some at_ } round ⟨parent, hash, at_, frame⟩
    else []
  | _ => []

end Core

/-! ## 2. The byte count -/

namespace Upstream

/-- The count is the sum of the buffered lengths. -/
def Balanced (u : Upstream) : Prop := u.aheadBytes = u.bufferedBytes

/-- A block of the buffer is not longer than the count, and the count is right again once
    its length is subtracted. -/
theorem Balanced.take {u : Upstream} {a : Ahead} {m : OrdMap UInt32 Ahead} {d : UInt32} (h : u.Balanced)
    (hweight : u.ahead.weight (fun a => a.frame.length) = a.frame.length + m.weight fun a => a.frame.length) :
    a.frame.length ≤ u.aheadBytes ∧
      Balanced { u with ahead := m, aheadBytes := u.aheadBytes - a.frame.length, droppedMax := d } := by
  unfold Balanced bufferedBytes at h ⊢
  simp only []
  omega

/-- `v` is `u` with some blocks gone from its buffer, none of them for space. -/
structure Frees (u v : Upstream) : Prop where
  sub : v.ahead.entries.Sublist u.ahead.entries
  balanced : u.Balanced → v.Balanced
  dropped : v.droppedMax = u.droppedMax

theorem Frees.of_eq {u v : Upstream} (hahead : v.ahead = u.ahead) (hbytes : v.aheadBytes = u.aheadBytes)
    (hdropped : v.droppedMax = u.droppedMax) : Frees u v := by
  refine ⟨by rw [hahead], ?_, hdropped⟩
  intro h
  rw [Balanced, bufferedBytes, hahead, hbytes]
  exact h

theorem Frees.refl (u : Upstream) : Frees u u := Frees.of_eq rfl rfl rfl

theorem Frees.trans {u v w : Upstream} (h : Frees u v) (h' : Frees v w) : Frees u w :=
  ⟨h'.sub.trans h.sub, fun hb => h'.balanced (h.balanced hb), h'.dropped.trans h.dropped⟩

theorem compared_frees (u : Upstream) (matched : Bool) (ms : Int) : Frees u (u.compared matched ms).1 := by
  unfold compared
  split
  · exact Frees.of_eq rfl rfl rfl
  · exact Frees.of_eq rfl rfl rfl

/-- The removals `l`, made on `u`, leave `v`; starting from a right count each of them fits. -/
structure Takes (u : Upstream) (l : List Removal) (v : Upstream) : Prop where
  frees : Frees u v
  fits : u.Balanced → AllFit l

theorem Takes.nil (u : Upstream) : Takes u [] u := ⟨Frees.refl u, fun _ => AllFit.nil⟩

theorem Takes.one {u : Upstream} {r : UInt32} {a : Ahead} {m : OrdMap UInt32 Ahead}
    (hsub : m.entries.Sublist u.ahead.entries)
    (hweight : u.ahead.weight (fun a => a.frame.length) = a.frame.length + m.weight fun a => a.frame.length) :
    Takes u [⟨u.aheadBytes, r, a⟩] { u with ahead := m, aheadBytes := u.aheadBytes - a.frame.length } :=
  ⟨⟨hsub, fun hb => (hb.take hweight).2, rfl⟩, fun hb => AllFit.cons (hb.take (d := u.droppedMax) hweight).1 AllFit.nil⟩

theorem Takes.trans {u v w : Upstream} {l m : List Removal} (h : Takes u l v) (h' : Takes v m w) :
    Takes u (l ++ m) w :=
  ⟨h.frees.trans h'.frees, fun hb => (h.fits hb).append (h'.fits (h.frees.balanced hb))⟩

/-- Taking one block out, from wherever in the buffer it is. -/
theorem takeAhead_takes {u v : Upstream} {r : UInt32} {a : Ahead} (h : u.takeAhead r = some (a, v)) :
    Takes u (u.takeAheadRemovals r) v := by
  unfold takeAhead at h
  unfold takeAheadRemovals
  rcases hget : u.ahead.get? r with _ | b
  · simp [hget] at h
  · simp only [hget, Option.some.injEq, Prod.mk.injEq] at h
    obtain ⟨rfl, rfl⟩ := h
    exact Takes.one List.filter_sublist (OrdMap.weight_of_mem (OrdMap.get?_eq_some.mp hget))

theorem trimLow_takes (floor : UInt32) (fuel : Nat) (u : Upstream) :
    Takes u (trimLowRemovals floor fuel u) (trimLow floor fuel u) := by
  induction fuel generalizing u with
  | zero => exact Takes.nil u
  | succ fuel ih =>
    rw [trimLow, trimLowRemovals]
    rcases hfirst : u.ahead.first? with _ | ⟨r, a⟩
    · exact Takes.nil u
    · simp only []
      split
      · exact (Takes.one (List.tail_sublist _) (OrdMap.weight_popFirst hfirst)).trans (ih _)
      · exact Takes.nil u

theorem takeChain_takes (fuel : Nat) (cur : UInt32) (u : Upstream) :
    Takes u (takeChainRemovals fuel cur u) (takeChain fuel cur u).2 := by
  induction fuel generalizing cur u with
  | zero => exact Takes.nil u
  | succ fuel ih =>
    rw [takeChain, takeChainRemovals]
    rcases (u.ahead.rangeFrom (Word.satAdd cur 1)).head? with _ | ⟨r, a⟩
    · exact Takes.nil u
    simp only []
    split
    · exact Takes.nil u
    rcases htake : u.takeAhead r with _ | ⟨b, v⟩
    · exact Takes.nil u
    · exact (takeAhead_takes htake).trans (ih r v)

end Upstream

/-! ## 3. Insertion -/

namespace Upstream

theorem Balanced.inserted {u : Upstream} (h : u.Balanced) (round : UInt32) (a : Ahead) :
    (u.inserted round a).Balanced := by
  have hinsert := OrdMap.weight_insert (f := fun a : Ahead => a.frame.length) u.ahead round a
  unfold Balanced bufferedBytes at h
  unfold Balanced bufferedBytes Upstream.inserted
  rcases hget : u.ahead.get? round with _ | old
  · rw [OrdMap.erase_eq_self hget] at hinsert
    simp only []
    omega
  · have hold := OrdMap.weight_of_mem (f := fun a : Ahead => a.frame.length) (OrdMap.get?_eq_some.mp hget)
    simp only [] at hold ⊢
    omega

/-- **The trimming loop.**  It takes blocks off the high end, which it remembers in
    `dropped_max`, and keeps the count right. -/
theorem trimHigh_removals (fuel : Nat) (u : Upstream) :
    u.ahead.entries = (trimHigh fuel u).ahead.entries ++
        ((trimHighRemovals fuel u).map fun x => (x.round, x.block)).reverse ∧
      u.droppedMax ≤ (trimHigh fuel u).droppedMax ∧
      (∀ x ∈ trimHighRemovals fuel u, x.round ≤ (trimHigh fuel u).droppedMax) ∧
      (u.Balanced → (trimHigh fuel u).Balanced ∧ AllFit (trimHighRemovals fuel u)) := by
  induction fuel generalizing u with
  | zero => simp [trimHigh, trimHighRemovals, AllFit.nil]
  | succ fuel ih =>
    rw [trimHigh, trimHighRemovals]
    split
    · rcases hlast : u.ahead.last? with _ | ⟨r, a⟩
      · simp [AllFit.nil]
      · obtain ⟨hsplit, hle, hdropped, hbal⟩ := ih { u with
          ahead := u.ahead.popLast
          aheadBytes := u.aheadBytes - a.frame.length
          droppedMax := max u.droppedMax r }
        refine ⟨?_, le_trans (le_max_left _ _) hle, ?_, ?_⟩
        · simp only [List.map_cons, List.reverse_cons, ← List.append_assoc]
          rw [← hsplit]
          exact OrdMap.entries_popLast hlast
        · exact List.forall_mem_cons.mpr ⟨le_trans (le_max_right _ _) hle, hdropped⟩
        · intro hb
          obtain ⟨hfits, hb'⟩ := hb.take (d := max u.droppedMax r) (OrdMap.weight_popLast hlast)
          exact ⟨(hbal hb').1, AllFit.cons hfits (hbal hb').2⟩
    · simp [AllFit.nil]

/-- With as much fuel as blocks the loop ends within both limits: an empty buffer has
    no bytes. -/
theorem trimHigh_bounded {fuel : Nat} {u : Upstream} (hfuel : u.ahead.size ≤ fuel) (hb : u.Balanced) :
    (trimHigh fuel u).ahead.size ≤ AHEAD_KEEP ∧ (trimHigh fuel u).aheadBytes ≤ AHEAD_BYTES := by
  have hempty : ∀ {w : Upstream}, w.Balanced → w.ahead.entries = [] →
      w.ahead.size ≤ AHEAD_KEEP ∧ w.aheadBytes ≤ AHEAD_BYTES := by
    intro w hw hnil
    rw [hw, bufferedBytes, OrdMap.weight, OrdMap.size, hnil]
    exact ⟨Nat.zero_le _, Nat.zero_le _⟩
  induction fuel generalizing u with
  | zero => exact hempty hb (List.eq_nil_of_length_eq_zero (Nat.le_zero.mp hfuel))
  | succ fuel ih =>
    rw [trimHigh]
    split
    · rcases hlast : u.ahead.last? with _ | ⟨r, a⟩
      · exact hempty hb (List.getLast?_eq_none_iff.mp hlast)
      · refine ih ?_ (hb.take (OrdMap.weight_popLast hlast)).2
        have hlength : u.ahead.popLast.size = u.ahead.size - 1 := List.length_dropLast
        simp only [hlength]
        omega
    · rename_i hwithin
      rw [not_or, not_lt, not_lt] at hwithin
      exact hwithin

/-- What the fields of a buffer promise. -/
structure Counted (u : Upstream) : Prop where
  balanced : u.Balanced
  frames : u.ahead.size ≤ AHEAD_KEEP
  bytes : u.aheadBytes ≤ AHEAD_BYTES

theorem Counted.fresh (ip : String) : Counted { ip := ip } :=
  ⟨rfl, Nat.zero_le _, Nat.zero_le _⟩

theorem Counted.frees {u v : Upstream} (h : u.Counted) (hfrees : Frees u v) : v.Counted := by
  have hbal := hfrees.balanced h.balanced
  refine ⟨hbal, hfrees.sub.length_le.trans h.frames, ?_⟩
  calc v.aheadBytes = v.bufferedBytes := hbal
    _ ≤ u.bufferedBytes := OrdMap.weight_mono hfrees.sub
    _ = u.aheadBytes := h.balanced.symm
    _ ≤ AHEAD_BYTES := h.bytes

theorem Counted.insertAhead {u : Upstream} (h : u.Counted) (round : UInt32) (a : Ahead) :
    (u.insertAhead round a).Counted := by
  have hb := h.balanced.inserted round a
  rw [insertAhead_eq]
  obtain ⟨hframes, hbytes⟩ := trimHigh_bounded (Nat.le_refl _) hb
  exact ⟨((trimHigh_removals _ _).2.2.2 hb).1, hframes, hbytes⟩

theorem insertAheadRemovals_fit {u : Upstream} (h : u.Balanced) (round : UInt32) (a : Ahead) :
    AllFit (u.insertAheadRemovals round a) := by
  have hdiscards : AllFit (u.discards round a) := ((trimHigh_removals _ _).2.2.2 (h.inserted round a)).2
  unfold insertAheadRemovals
  rcases hget : u.ahead.get? round with _ | old
  · exact hdiscards
  · -- the replaced block is in the count already, the new one on top of it
    have hold := (h.take (d := u.droppedMax) (OrdMap.weight_of_mem (OrdMap.get?_eq_some.mp hget))).1
    exact AllFit.cons (hold.trans (Nat.le_add_right _ _)) hdiscards

/-- **An insertion discards the highest rounds.**  The buffer with the new block in it is
    what stays followed by what goes. -/
theorem insertAhead_split (u : Upstream) (round : UInt32) (a : Ahead) :
    (u.ahead.insert round a).entries = (u.insertAhead round a).ahead.entries ++
        ((u.discards round a).map fun x => (x.round, x.block)).reverse ∧
      ∀ p ∈ (u.insertAhead round a).ahead, ∀ x ∈ u.discards round a, p.1 < x.round := by
  have hsplit : (u.ahead.insert round a).entries = (u.insertAhead round a).ahead.entries ++
      ((u.discards round a).map fun x => (x.round, x.block)).reverse :=
    (trimHigh_removals (u.inserted round a).ahead.size (u.inserted round a)).1
  refine ⟨hsplit, ?_⟩
  intro p hp x hx
  have hsorted := (u.ahead.insert round a).sorted
  rw [hsplit] at hsorted
  refine (List.pairwise_append.mp hsorted).2.2 p hp (x.round, x.block) ?_
  rw [List.mem_reverse]
  exact List.mem_map.mpr ⟨x, hx, rfl⟩

theorem insertAhead_dropped (u : Upstream) (round : UInt32) (a : Ahead) :
    u.droppedMax ≤ (u.insertAhead round a).droppedMax ∧
      ∀ x ∈ u.discards round a, x.round ≤ (u.insertAhead round a).droppedMax := by
  obtain ⟨-, hle, hdropped, -⟩ := trimHigh_removals (u.inserted round a).ahead.size (u.inserted round a)
  exact ⟨hle, hdropped⟩

end Upstream

/-! ## 4. What a call does to the buffers -/

namespace Core

open Upstream (Frees Takes)

/-- Every upstream of the second map is one of the first with some blocks gone, none of them
    for space. -/
def Freed (m m' : KeyMap Nat Upstream) : Prop :=
  ∀ id v, m'.lookup id = some v → ∃ u, m.lookup id = some u ∧ Frees u v

def AllBalanced (m : KeyMap Nat Upstream) : Prop := ∀ id u, m.lookup id = some u → u.Balanced

section Freed

variable {m m' m'' : KeyMap Nat Upstream}

theorem Freed.refl (m : KeyMap Nat Upstream) : Freed m m := fun _ v hv => ⟨v, hv, Frees.refl v⟩

theorem Freed.trans (h : Freed m m') (h' : Freed m' m'') : Freed m m'' := by
  intro id w hw
  obtain ⟨v, hv, hfrees'⟩ := h' id w hw
  obtain ⟨u, hu, hfrees⟩ := h id v hv
  exact ⟨u, hu, hfrees.trans hfrees'⟩

theorem AllBalanced.freed (h : AllBalanced m) (hfreed : Freed m m') : AllBalanced m' := by
  intro id v hv
  obtain ⟨u, hu, hfrees⟩ := hfreed id v hv
  exact hfrees.balanced (h id u hu)

theorem mapVals_freed {f : Nat → Upstream → Upstream} (hf : ∀ id u, m.lookup id = some u → Frees u (f id u)) :
    Freed m (KeyMap.mapVals f m) := by
  intro id v hv
  rw [KeyMap.lookup_mapVals, Option.map_eq_some_iff] at hv
  obtain ⟨u, hu, rfl⟩ := hv
  exact ⟨u, hu, hf id u hu⟩

theorem modify_freed {k : Nat} {f : Upstream → Upstream} (hf : ∀ u, m.lookup k = some u → Frees u (f u)) :
    Freed m (KeyMap.modify k f m) := by
  intro id v hv
  obtain ⟨u, hu, rfl⟩ := KeyMap.lookup_modify_inv hv
  refine ⟨u, hu, ?_⟩
  split
  · rename_i hid
    exact hf u (hid ▸ hu)
  · exact Frees.refl u

/-- The removals `l`, made on the upstreams `m`, leave `m'`. -/
structure Drains (m : KeyMap Nat Upstream) (l : List Removal) (m' : KeyMap Nat Upstream) : Prop where
  freed : Freed m m'
  fits : AllBalanced m → AllFit l

theorem Drains.of_freed (h : Freed m m') : Drains m [] m' := ⟨h, fun _ => AllFit.nil⟩

theorem Drains.trans {l l' : List Removal} (h : Drains m l m') (h' : Drains m' l' m'') : Drains m (l ++ l') m'' :=
  ⟨h.freed.trans h'.freed, fun hb => (h.fits hb).append (h'.fits (hb.freed h.freed))⟩

end Freed

theorem settleOne_takes (floor round : UInt32) (hash : UInt64) (at_ : Nat) (u : Upstream) :
    Takes u (settleOneRemovals floor round hash at_ u) (settleOne floor round hash at_ u).1 := by
  unfold settleOne settleOneRemovals Upstream.trimAhead
  rcases htake : u.takeAhead round with _ | ⟨a, v⟩
  · exact Upstream.trimLow_takes floor u.ahead.size u
  · -- the comparison takes nothing out
    have hcompared : Takes v [] (v.compared (a.hash == hash) (asMillis (at_ - a.at_))).1 :=
      ⟨Upstream.compared_frees v _ _, fun _ => AllFit.nil⟩
    exact (Upstream.takeAhead_takes htake).trans (hcompared.trans (Upstream.trimLow_takes floor _ _))

theorem settleStandbys_drains (c : Core) (round : UInt32) (hash : UInt64) (at_ : Nat) :
    Drains c.ups (c.settleStandbysRemovals round hash at_) (c.settleStandbys round hash at_).1.ups := by
  constructor
  · refine mapVals_freed ?_
    intro id u _
    split
    · exact Frees.refl u
    · exact (settleOne_takes c.lastForwarded round hash at_ u).frees
  · intro hb x hx
    obtain ⟨⟨id, u⟩, hu, hx⟩ := List.mem_flatMap.mp hx
    simp only [] at hx
    split at hx
    · cases hx
    · exact (settleOne_takes c.lastForwarded round hash at_ u).fits (hb id u (KeyMap.mem_toList.mp hu)) x hx

theorem replay_drains (chain : List (UInt32 × Ahead)) (c : Core) :
    Drains c.ups (replayRemovals chain c) (replay chain c).1.ups := by
  induction chain generalizing c with
  | nil => exact Drains.of_freed (Freed.refl c.ups)
  | cons p chain ih =>
    -- recording the block leaves the upstreams as they are
    have hone := settleStandbys_drains (c.recordForwarded p.1 p.2.hash p.2.at_) p.1 p.2.hash p.2.at_
    exact hone.trans (ih _)

theorem onActiveBlock_drains (c : Core) (round : UInt32) (hash : UInt64) (at_ : Nat) :
    Drains c.ups (c.onActiveBlockRemovals round hash at_) (c.onActiveBlock round hash at_).1.ups := by
  have hnote : Freed c.ups (KeyMap.modify c.active (fun u => { u with lastRx := some at_ }) c.ups) := by
    refine modify_freed ?_
    intro u _
    exact Frees.of_eq rfl rfl rfl
  unfold onActiveBlock onActiveBlockRemovals
  simp only []
  split
  · exact Drains.of_freed hnote
  · exact (Drains.of_freed hnote).trans (settleStandbys_drains
      (Core.recordForwarded { c with ups := KeyMap.modify c.active (fun u => { u with lastRx := some at_ }) c.ups }
        round hash at_) round hash at_)

theorem switchToInPlace_drains (c : Core) (id now : Nat) :
    Drains c.ups (c.switchToRemovals id now) (c.switchToInPlace id now).1.ups := by
  unfold switchToInPlace switchToRemovals
  rcases hu : c.ups.lookup id with _ | u
  · exact Drains.of_freed (Freed.refl c.ups)
  simp only []
  split
  · exact Drains.of_freed (Freed.refl c.ups)
  have htaken := Upstream.takeChain_takes u.ahead.size c.lastForwarded u
  rcases htake : u.takeChain u.ahead.size c.lastForwarded with ⟨chain, v⟩
  rw [htake] at htaken
  have hmid : Drains c.ups (u.takeChainRemovals u.ahead.size c.lastForwarded)
      (KeyMap.modify id (fun _ => v) c.ups) := by
    refine ⟨modify_freed ?_, fun hb => htaken.fits (hb id u hu)⟩
    intro w hw
    obtain rfl : u = w := Option.some.inj (hu.symm.trans hw)
    exact htaken.frees
  rcases chain with _ | ⟨p, chain⟩
  · exact hmid.trans (Drains.of_freed (Freed.refl _))
  · have hreplay := replay_drains (p :: chain)
      { c with ups := KeyMap.modify id (fun _ => v) c.ups, active := id, lastSwitch := some now }
    refine hmid.trans ⟨hreplay.freed.trans (mapVals_freed ?_), hreplay.fits⟩
    intro j w _
    exact Frees.of_eq rfl rfl rfl

/-- **No subtraction falls below zero**: not in any call on a core whose counts are right. -/
theorem removals_fit {c : Core} (h : AllBalanced c.ups) (e : Call) : AllFit (c.removals e) := by
  cases e with
  | switchTo id now => exact (switchToInPlace_drains c id now).fits h
  | op op =>
    cases op with
    | activeBlock round hash at_ => exact (onActiveBlock_drains c round hash at_).fits h
    | standbyBlock id round parent hash at_ frame =>
      simp only [removals, onStandbyBlockRemovals]
      rcases hu : c.ups.lookup id with _ | u
      · exact AllFit.nil
      · simp only []
        split
        · exact AllFit.nil
        · exact Upstream.insertAheadRemovals_fit (u := { u with lastRx := some at_ }) (h id u hu) round _
    | addStandby id ip => exact AllFit.nil
    | markPreferred id => exact AllFit.nil
    | remove id => exact AllFit.nil

/-- What a call leaves of the upstream `id`: a new one, one with blocks gone that the node
    has, or one with a block more. -/
inductive Moved (c : Core) (e : Call) (id : Nat) (v : Upstream) : Prop
  | added (ip : String) (hadd : e = .op (.addStandby id ip)) (hnew : v = { ip := ip })
  | freed (u : Upstream) (hu : c.ups.lookup id = some u) (hfrees : Frees u v) (hnone : c.discards id e = [])
  | inserted (u : Upstream) (round : UInt32) (a : Ahead) (hu : c.ups.lookup id = some u)
      (hround : c.lastForwarded < round) (hv : v = Upstream.insertAhead { u with lastRx := some a.at_ } round a)
      (hdiscards : c.discards id e = Upstream.discards { u with lastRx := some a.at_ } round a)

theorem Freed.moved {c c' : Core} {e : Call} (h : Freed c.ups c'.ups) {id : Nat} {v : Upstream}
    (hv : c'.ups.lookup id = some v) (hnone : c.discards id e = []) : c.Moved e id v := by
  obtain ⟨u, hu, hfrees⟩ := h id v hv
  exact .freed u hu hfrees hnone

theorem onStandbyBlock_moved {c : Core} {id j : Nat} {round parent : UInt32} {hash : UInt64} {at_ : Nat}
    {frame : List UInt8} {v : Upstream}
    (hv : (c.onStandbyBlock j round parent hash at_ frame).1.ups.lookup id = some v) :
    c.Moved (.op (.standbyBlock j round parent hash at_ frame)) id v := by
  rcases hj : c.ups.lookup j with _ | w
  · rw [onStandbyBlock, hj] at hv
    refine Freed.moved (Freed.refl c.ups) hv ?_
    simp only [discards]
    split
    · rename_i heq
      rw [← heq, hj]
    · rfl
  · rcases (onStandbyBlock_spec hj round parent hash at_ frame).2.2 id v hv with ⟨hne, hsame⟩ | ⟨rfl, rfl⟩
    · refine Freed.moved (Freed.refl c.ups) hsame ?_
      rw [discards, if_neg (Ne.symm hne)]
    · by_cases hround : round ≤ c.lastForwarded
      · refine .freed w hj ?_ ?_
        · simp only [standbyBlock, if_pos hround]
          rcases c.forwarded.get? round with _ | ⟨h, fat⟩
          · exact Frees.of_eq rfl rfl rfl
          · exact Frees.trans (v := { w with lastRx := some at_ }) (Frees.of_eq rfl rfl rfl)
              (Upstream.compared_frees _ _ _)
        · simp only [discards, if_true, hj, if_pos hround]
      · refine .inserted w round ⟨parent, hash, at_, frame⟩ hj (not_le.mp hround) ?_ ?_
        · simp only [standbyBlock, if_neg hround]
        · simp only [discards, if_true, hj, if_neg hround]

theorem call_moved {c c' : Core} {e : Call} (hs : c.call e = some c') {id : Nat} {v : Upstream}
    (hv : c'.ups.lookup id = some v) : c.Moved e id v := by
  cases e with
  | switchTo j now =>
    cases hs
    exact Freed.moved (switchToInPlace_drains c j now).freed hv rfl
  | op op =>
    cases hs
    cases op with
    | activeBlock round hash at_ => exact Freed.moved (onActiveBlock_drains c round hash at_).freed hv rfl
    | standbyBlock j round parent hash at_ frame => exact onStandbyBlock_moved hv
    | addStandby j ip =>
      rcases KeyMap.lookup_insert_inv hv with ⟨rfl, rfl⟩ | ⟨-, hv⟩
      · exact .added ip rfl rfl
      · exact Freed.moved (Freed.refl c.ups) hv rfl
    | markPreferred j =>
      have hmark : Freed c.ups (c.markPreferred j).ups := by
        refine modify_freed ?_
        intro u _
        exact Frees.of_eq rfl rfl rfl
      exact Freed.moved hmark hv rfl
    | remove j => exact Freed.moved (Freed.refl c.ups) (KeyMap.lookup_erase_inv hv).2 rfl

end Core

/-! ## 5. Runs -/

/-- A core and, for each upstream, the rounds it has discarded for space so far. -/
structure Ledger where
  core : Core
  gone : Nat → List UInt32

/-- One call; an upstream that is added anew has discarded nothing. -/
def Ledger.after (l : Ledger) (e : Call) : Ledger where
  core := (l.core.call e).getD l.core
  gone id :=
    (match e with
      | .op (.addStandby j _) => if j = id then [] else l.gone id
      | _ => l.gone id) ++ (l.core.discards id e).map Removal.round

/-- The rounds the upstream `id` discards for space when the calls `es` are made on `c`. -/
def Core.gone (c : Core) (es : List Call) : Nat → List UInt32 := (es.foldl Ledger.after ⟨c, fun _ => []⟩).gone

/-- What every reachable core and its history satisfy. -/
structure Ledger.Sound (l : Ledger) : Prop where
  trimmed : l.core.Trimmed
  counted : ∀ id u, l.core.ups.lookup id = some u → u.Counted
  dropped : ∀ id u, l.core.ups.lookup id = some u → ∀ r ∈ l.gone id, r ≤ u.droppedMax

theorem Ledger.gone_after {l : Ledger} {e : Call} {id : Nat} {r : UInt32} (h : r ∈ (l.after e).gone id) :
    r ∈ l.gone id ∨ ∃ x ∈ l.core.discards id e, x.round = r := by
  rcases List.mem_append.mp h with h | h
  · left
    split at h
    · split at h
      · cases h
      · exact h
    · exact h
  · exact Or.inr (List.mem_map.mp h)

theorem Ledger.Sound.after {l : Ledger} (h : l.Sound) (e : Call) : (l.after e).Sound := by
  obtain ⟨c', hs⟩ : ∃ c', l.core.call e = some c' := by
    cases e with
    | op op => exact ⟨_, rfl⟩
    | switchTo id now => exact ⟨_, rfl⟩
  have hcore : (l.after e).core = c' := by rw [Ledger.after, hs, Option.getD_some]
  refine ⟨?_, ?_, ?_⟩
  · rw [hcore]
    exact h.trimmed.call hs
  · intro id v hv
    rw [hcore] at hv
    cases Core.call_moved hs hv with
    | added ip _ hnew => rw [hnew]; exact Upstream.Counted.fresh ip
    | freed u hu hfrees _ => exact (h.counted id u hu).frees hfrees
    | inserted u round a hu _ hv _ =>
      rw [hv]
      have hnote : Upstream.Counted { u with lastRx := some a.at_ } :=
        (h.counted id u hu).frees (Upstream.Frees.of_eq rfl rfl rfl)
      exact hnote.insertAhead round a
  · intro id v hv r hr
    rw [hcore] at hv
    cases Core.call_moved hs hv with
    | added ip hadd hnew =>
      subst hadd
      simp [Ledger.after, Core.discards] at hr
    | freed u hu hfrees hnone =>
      rw [hfrees.dropped]
      rcases Ledger.gone_after hr with hr | ⟨x, hx, -⟩
      · exact h.dropped id u hu r hr
      · rw [hnone] at hx
        cases hx
    | inserted u round a hu _ hv hdiscards =>
      obtain ⟨hle, hnew⟩ := Upstream.insertAhead_dropped { u with lastRx := some a.at_ } round a
      rw [hv]
      rcases Ledger.gone_after hr with hr | ⟨x, hx, rfl⟩
      · exact (h.dropped id u hu r hr).trans hle
      · rw [hdiscards] at hx
        exact hnew x hx

theorem Ledger.Sound.new (active : Nat) (ip : String) (lastForwarded : UInt32) (stall lag minDwell : Nat) :
    Ledger.Sound ⟨Core.new active ip lastForwarded stall lag minDwell, fun _ => []⟩ := by
  refine ⟨Core.Trimmed.new active ip lastForwarded stall lag minDwell, ?_, ?_⟩
  · intro id u hu
    obtain ⟨-, rfl⟩ := KeyMap.lookup_singleton_inv hu
    exact Upstream.Counted.fresh ip
  · intro id u _ r hr
    cases hr

/-- The ledger follows the core, whatever the calls are. -/
theorem Ledger.run {c₀ c : Core} {es : List Call} (hrun : Machine.Run Core.call (fun _ _ => True) c₀ es c)
    (h : Ledger.Sound ⟨c₀, fun _ => []⟩) :
    Ledger.Sound ⟨c, c₀.gone es⟩ := by
  have hboth : (es.foldl Ledger.after ⟨c₀, fun _ => []⟩).core = c ∧
      Ledger.Sound (es.foldl Ledger.after ⟨c₀, fun _ => []⟩) := by
    refine hrun.history (I := fun es c => (es.foldl Ledger.after ⟨c₀, fun _ => []⟩).core = c ∧
      Ledger.Sound (es.foldl Ledger.after ⟨c₀, fun _ => []⟩)) ⟨rfl, h⟩ ?_
    rintro es a e b ⟨hcore, hsound⟩ - hs
    rw [List.foldl_append]
    refine ⟨?_, hsound.after e⟩
    subst hcore
    simp only [List.foldl_cons, List.foldl_nil, Ledger.after, hs, Option.getD_some]
  obtain ⟨rfl, hsound⟩ := hboth
  exact hsound

/-- **The ahead buffers.**  In every state the core can reach, and for every upstream: the
    byte count is the sum of the buffered lengths, both limits hold, a standby buffers only
    rounds above the node's last one, and `dropped_max` is at least every round ever discarded
    for space.  No call subtracts more from a count than is in it, and an insertion discards
    the highest of the rounds then buffered. -/
theorem ahead_buffers_sound (active : Nat) (ip : String) (lastForwarded : UInt32) (stall lag minDwell : Nat)
    (es : List Call) (c : Core)
    (hrun : Machine.Run Core.call (fun _ _ => True) (Core.new active ip lastForwarded stall lag minDwell) es c) :
    (∀ id u, c.ups.lookup id = some u →
      u.aheadBytes = u.bufferedBytes ∧ u.ahead.size ≤ AHEAD_KEEP ∧ u.bufferedBytes ≤ AHEAD_BYTES ∧
      (id ≠ c.active → ∀ p ∈ u.ahead, c.lastForwarded < p.1) ∧
      ∀ r ∈ (Core.new active ip lastForwarded stall lag minDwell).gone es id, r ≤ u.droppedMax) ∧
    (∀ e, ∀ x ∈ c.removals e, x.block.frame.length ≤ x.bytes) ∧
    ∀ id u round parent hash at_ frame, c.ups.lookup id = some u → c.lastForwarded < round →
      ∃ v discarded, (c.onStandbyBlock id round parent hash at_ frame).1.ups.lookup id = some v ∧
        c.discards id (.op (.standbyBlock id round parent hash at_ frame)) = discarded ∧
        (u.ahead.insert round ⟨parent, hash, at_, frame⟩).entries =
          v.ahead.entries ++ (discarded.map fun x => (x.round, x.block)).reverse ∧
        ∀ p ∈ v.ahead, ∀ x ∈ discarded, p.1 < x.round := by
  have hsound := Ledger.run hrun (Ledger.Sound.new active ip lastForwarded stall lag minDwell)
  refine ⟨?_, ?_, ?_⟩
  · intro id u hu
    have hcounted := hsound.counted id u hu
    refine ⟨hcounted.balanced, hcounted.frames, ?_, ?_, hsound.dropped id u hu⟩
    · rw [← show u.aheadBytes = u.bufferedBytes from hcounted.balanced]
      exact hcounted.bytes
    · exact hsound.trimmed id u hu
  · intro e
    exact Core.removals_fit (fun id u hu => (hsound.counted id u hu).balanced) e
  · intro id u round parent hash at_ frame hu hround
    obtain ⟨hsplit, hhigh⟩ := Upstream.insertAhead_split { u with lastRx := some at_ } round ⟨parent, hash, at_, frame⟩
    refine ⟨_, _, ?_, ?_, hsplit, hhigh⟩
    · simp only [Core.onStandbyBlock, hu, KeyMap.lookup_modify_self, Option.map_some, Core.standbyBlock,
        if_neg (not_le.mpr hround)]
    · simp only [Core.discards, if_true, hu, if_neg (not_le.mpr hround)]

/-- A standby two blocks ahead, the second of them delivered twice. -/
def standbyAhead : List Call :=
  [.op (.addStandby 1 "b"), .op (.standbyBlock 1 11 10 111 0 [7]), .op (.standbyBlock 1 12 11 112 0 [8, 8, 8]),
    .op (.standbyBlock 1 12 11 112 0 [9, 9])]

theorem ahead_buffers_sound_standbyAhead :
    ∃ c u, Machine.Run Core.call (fun _ _ => True) (Core.new 0 "a" 10 400000000 150000000 10000000000) standbyAhead c ∧
      c.ups.lookup 1 = some u ∧ u.ahead.size = 2 ∧ u.bufferedBytes = 3 ∧ u.aheadBytes = u.bufferedBytes := by
  have hexec : (Machine.exec Core.call (fun _ _ => True) (Core.new 0 "a" 10 400000000 150000000 10000000000)
      standbyAhead).bind (fun c => (c.ups.lookup 1).map fun u => (u.ahead.size, u.bufferedBytes)) = some (2, 3) := by
    decide
  obtain ⟨c, hc, hlookup⟩ := Option.bind_eq_some_iff.mp hexec
  obtain ⟨u, hu, hsizes⟩ := Option.map_eq_some_iff.mp hlookup
  obtain ⟨hsize, hbytes⟩ := Prod.mk.inj hsizes
  have hrun := Machine.Run.of_exec hc
  exact ⟨c, u, hrun, hu, hsize, hbytes,
    ((ahead_buffers_sound 0 "a" 10 400000000 150000000 10000000000 standbyAhead c hrun).1 1 u hu).1⟩

end Hypersync.Failover
