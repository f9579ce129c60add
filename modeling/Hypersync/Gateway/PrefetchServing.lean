import Hypersync.Gateway.Prefetch

/-!
# A prefetched batch is served only for its own range and session

Two invariants, kept by every step of every interleaving.  The first is about
generations: a pin that has emptied the slot is never behind what the slot holds
afterwards, because a prefetch of an older generation fails its re-check under the
slot's lock.  The second follows a prefetch from the answered range it was started
after to the request it answers.
-/

namespace Hypersync.Gateway

/-! ## 1. Ranges -/

theorem clientBlockRange_request (start end_ : UInt32) :
    clientBlockRange (clientBlockRangeRequest start end_) = some (start, end_) := by
  have hstart := Word.ofLe_toLe start _ _ _ _ rfl
  have hend := Word.ofLe_toLe end_ _ _ _ _ rfl
  simp only [clientBlockRangeRequest, Word.toLe, List.cons_append, List.nil_append, clientBlockRange,
    hstart, hend]

/-- The next range is as wide as the answered one, right after it, and well below the tip;
    nothing wraps. -/
theorem nextPrefetchRange_eq_some {start end_ freshest nextStart nextEnd : UInt32}
    (h : nextPrefetchRange start end_ freshest = some (nextStart, nextEnd)) :
    ∃ width : Nat, 0 < width ∧ width ≤ PREFETCH_MAX_WIDTH.toNat ∧
      start.toNat + width = end_.toNat + 1 ∧ nextStart.toNat = end_.toNat + 1 ∧
      nextEnd.toNat = end_.toNat + width ∧
      nextEnd.toNat + PREFETCH_TIP_MARGIN.toNat ≤ freshest.toNat := by
  simp only [nextPrefetchRange, Option.bind_eq_bind, Option.bind_eq_some_iff] at h
  obtain ⟨diff, hdiff, width, hwidth, h⟩ := h
  rw [Word.checkedSub_eq_some] at hdiff
  rw [Word.checkedAdd_eq_some] at hwidth
  split at h
  · cases h
  rename_i hwide
  simp only [Option.bind_eq_some_iff] at h
  obtain ⟨ns, hns, ne, hne, room, hroom, h⟩ := h
  split at h
  · rename_i hmargin
    obtain ⟨rfl, rfl⟩ := Prod.mk.inj (Option.some.inj h)
    rw [Word.checkedAdd_eq_some] at hns hne
    rw [Word.checkedSub_eq_some] at hroom
    have hone : (1 : UInt32).toNat = 1 := rfl
    rw [hone] at hwidth hns
    rw [not_lt, UInt32.le_iff_toNat_le] at hwide
    rw [UInt32.le_iff_toNat_le] at hmargin
    refine ⟨width.toNat, by omega, hwide, by omega, hns, hne, by omega⟩
  · cases h

/-! ## 2. Generations -/

namespace PrefetchNode

/-- What holds of a pin call in each of its phases. -/
def CallOk (w : PrefetchNode) : PinCall → Prop
  | .called _ => True
  | .bumped peer => peer.epoch ≤ w.pins.nextActiveEpoch
  | .emptied peer => peer.epoch ∈ w.emptied

/-- A pin that has emptied the slot is not behind what the slot holds, or is about to. -/
structure SlotInv (w : PrefetchNode) : Prop where
  bound : ∀ epoch ∈ w.emptied, epoch ≤ w.pins.nextActiveEpoch
  slot : ∀ p, w.slot = some p → ∀ epoch ∈ w.emptied, epoch ≤ p.generation
  installing : ∀ p, w.installing = some ⟨p, true⟩ → ∀ epoch ∈ w.emptied, epoch ≤ p.generation
  calls : ∀ c ∈ w.pinCalls, w.CallOk c
  lazyCall : ∀ c, w.lazyCall = some c → w.CallOk c
  active : ∀ peer, w.pins.active = some peer → peer.epoch ∈ w.emptied
  returned : ∀ peer ∈ w.returned, peer.epoch ∈ w.emptied

variable {w w' : PrefetchNode}

theorem CallOk.mono {c : PinCall} (h : w.CallOk c)
    (hgen : w.pins.nextActiveEpoch ≤ w'.pins.nextActiveEpoch)
    (hemptied : ∀ epoch ∈ w.emptied, epoch ∈ w'.emptied) : w'.CallOk c := by
  cases c with
  | called ip => trivial
  | bumped peer => exact le_trans h hgen
  | emptied peer => exact hemptied _ h

theorem SlotInv.init : SlotInv {} where
  bound := nofun
  slot := nofun
  installing := nofun
  calls := nofun
  lazyCall := nofun
  active := nofun
  returned := nofun

/-- A pin empties the slot; nobody is installing, for the lock is free. -/
theorem SlotInv.emptySlot (h : w.SlotInv) {peer : ActivePeer} (hpeer : w.CallOk (.bumped peer))
    (hinst : w.installing = none) {calls : List PinCall} {lazyCall : Option PinCall}
    (hcalls : ∀ c ∈ calls, c ∈ w.pinCalls ∨ c = .emptied peer)
    (hlazy : ∀ c, lazyCall = some c → w.lazyCall = some c ∨ c = .emptied peer) :
    SlotInv { w with
      slot := none, pinCalls := calls, lazyCall := lazyCall, emptied := w.emptied ++ [peer.epoch] } := by
  have hsub : ∀ epoch ∈ w.emptied, epoch ∈ w.emptied ++ [peer.epoch] := fun _ he =>
    List.mem_append_left _ he
  have hnew : peer.epoch ∈ w.emptied ++ [peer.epoch] := List.mem_append_right _ List.mem_cons_self
  refine ⟨?_, nofun, ?_, ?_, ?_, ?_, ?_⟩
  · intro epoch he
    rcases List.mem_append.mp he with he | he
    · exact h.bound epoch he
    · rw [List.mem_singleton.mp he]
      exact hpeer
  · intro p hp
    rw [hinst] at hp
    cases hp
  · intro c hc
    rcases hcalls c hc with hc | rfl
    · exact (h.calls c hc).mono le_rfl hsub
    · exact hnew
  · intro c hc
    rcases hlazy c hc with hc | rfl
    · exact (h.lazyCall c hc).mono le_rfl hsub
    · exact hnew
  · intro p hp
    exact hsub _ (h.active p hp)
  · intro p hp
    exact hsub _ (h.returned p hp)

/-- A bump of the generation leaves everything older behind. -/
theorem SlotInv.bump (h : w.SlotInv) {peer : ActivePeer} (hpeer : peer.epoch = w.pins.nextActiveEpoch + 1)
    {calls : List PinCall} {lazyCall : Option PinCall}
    (hcalls : ∀ c ∈ calls, c ∈ w.pinCalls ∨ c = .bumped peer)
    (hlazy : ∀ c, lazyCall = some c → w.lazyCall = some c ∨ c = .bumped peer) :
    SlotInv { w with pins := w.pins.takeEpoch.2, pinCalls := calls, lazyCall := lazyCall } := by
  have hle : w.pins.nextActiveEpoch ≤ w.pins.takeEpoch.2.nextActiveEpoch := Nat.le_succ _
  refine { h with bound := ?_, calls := ?_, lazyCall := ?_ }
  · intro epoch he
    exact (h.bound epoch he).trans hle
  · intro c hc
    rcases hcalls c hc with hc | rfl
    · exact (h.calls c hc).mono hle fun _ he => he
    · exact le_of_eq hpeer
  · intro c hc
    rcases hlazy c hc with hc | rfl
    · exact (h.lazyCall c hc).mono hle fun _ he => he
    · exact le_of_eq hpeer

/-- A pin is set only after it has emptied the slot. -/
theorem SlotInv.setPins (h : w.SlotInv) {pins : Pins} {calls : List PinCall} {lazyCall : Option PinCall}
    {returned : List ActivePeer} (hgen : pins.nextActiveEpoch = w.pins.nextActiveEpoch)
    (hactive : ∀ peer, pins.active = some peer → peer.epoch ∈ w.emptied)
    (hcalls : ∀ c ∈ calls, c ∈ w.pinCalls ∨ ∃ ip, c = .called ip)
    (hlazy : ∀ c, lazyCall = some c → w.lazyCall = some c ∨ ∃ ip, c = .called ip)
    (hreturned : ∀ peer ∈ returned, peer.epoch ∈ w.emptied) :
    SlotInv { w with pins := pins, pinCalls := calls, lazyCall := lazyCall, returned := returned } := by
  refine ⟨?_, h.slot, h.installing, ?_, ?_, hactive, hreturned⟩
  · intro epoch he
    exact (h.bound epoch he).trans (le_of_eq hgen.symm)
  · intro c hc
    rcases hcalls c hc with hc | ⟨ip, rfl⟩
    · exact (h.calls c hc).mono (le_of_eq hgen.symm) fun _ he => he
    · trivial
  · intro c hc
    rcases hlazy c hc with hc | ⟨ip, rfl⟩
    · exact (h.lazyCall c hc).mono (le_of_eq hgen.symm) fun _ he => he
    · trivial

theorem SlotInv.unpin (h : w.SlotInv) {pins : Pins} (hpins : w.pins.Unpinned pins) :
    SlotInv { w with pins := pins } :=
  h.setPins hpins.nextActiveEpoch (fun q hq => h.active q (hpins.active q hq)) (fun _ hc => Or.inl hc)
    (fun _ hc => Or.inl hc) h.returned

theorem SlotInv.pinStep {e : PinEvent} (h : w.SlotInv) (hstep : w.pinStep e = some w') : w'.SlotInv := by
  have hset : ∀ {k : Nat} {c d : PinCall}, c ∈ w.pinCalls.set k d → c ∈ w.pinCalls ∨ c = d := fun hc =>
    List.mem_or_eq_of_mem_set hc
  have hkeep : ∀ c, w.lazyCall = some c → ∀ d : PinCall, w.lazyCall = some c ∨ c = d := fun c hc d =>
    Or.inl hc
  have hnew : ∀ {peer : ActivePeer}, peer.epoch ∈ w.emptied → ∀ q ∈ w.returned ++ [peer],
      q.epoch ∈ w.emptied := by
    intro peer hpeer q hq
    rcases List.mem_append.mp hq with hq | hq
    · exact h.returned q hq
    · rw [List.mem_singleton.mp hq]
      exact hpeer
  cases e with
  | call ip =>
    cases hstep
    refine h.setPins rfl h.active ?_ (fun c hc => Or.inl hc) h.returned
    intro c hc
    rcases List.mem_append.mp hc with hc | hc
    · exact Or.inl hc
    · exact Or.inr ⟨ip, List.mem_singleton.mp hc⟩
  | bump k =>
    simp only [PrefetchNode.pinStep] at hstep
    split at hstep <;> cases hstep
    exact h.bump rfl (fun c hc => hset hc) (fun c hc => hkeep c hc _)
  | empty k =>
    simp only [PrefetchNode.pinStep] at hstep
    split at hstep <;> cases hstep
    rename_i peer hcall hinst
    exact h.emptySlot (h.calls _ (List.mem_of_getElem? hcall)) hinst (fun c hc => hset hc)
      (fun c hc => hkeep c hc _)
  | set k =>
    simp only [PrefetchNode.pinStep] at hstep
    split at hstep <;> cases hstep
    rename_i peer hcall hlazy
    have hpeer : peer.epoch ∈ w.emptied := h.calls _ (List.mem_of_getElem? hcall)
    refine h.setPins rfl ?_ (fun c hc => Or.inl (List.mem_of_mem_eraseIdx hc)) (fun c hc => Or.inl hc)
      (hnew hpeer)
    intro q hq
    cases hq
    exact hpeer
  | lazy ip blacklisted =>
    have hactive : ∀ q, (w.pins.unpinBlacklisted blacklisted).active = some q → q.epoch ∈ w.emptied :=
      fun q hq => h.active q ((Pins.unpinned_unpinBlacklisted _ _).active q hq)
    have hgen := (Pins.unpinned_unpinBlacklisted blacklisted w.pins).nextActiveEpoch
    simp only [PrefetchNode.pinStep] at hstep
    split at hstep
    · cases hstep
    split at hstep
    · rename_i peer hpeer
      cases hstep
      exact h.setPins hgen hactive (fun c hc => Or.inl hc) (fun c hc => Or.inl hc)
        (hnew (hactive peer hpeer))
    · cases hstep
      refine h.setPins hgen hactive (fun c hc => Or.inl hc) ?_ h.returned
      intro c hc
      exact Or.inr ⟨ip, (Option.some.inj hc).symm⟩
  | lazyBump =>
    simp only [PrefetchNode.pinStep] at hstep
    split at hstep <;> cases hstep
    exact h.bump rfl (fun c hc => Or.inl hc) (fun c hc => Or.inr (Option.some.inj hc).symm)
  | lazyEmpty =>
    simp only [PrefetchNode.pinStep] at hstep
    split at hstep <;> cases hstep
    rename_i peer hcall hinst
    exact h.emptySlot (h.lazyCall _ hcall) hinst (fun c hc => Or.inl hc)
      (fun c hc => Or.inr (Option.some.inj hc).symm)
  | lazySet =>
    simp only [PrefetchNode.pinStep] at hstep
    split at hstep <;> cases hstep
    rename_i peer hcall
    have hpeer : peer.epoch ∈ w.emptied := h.lazyCall _ hcall
    refine h.setPins rfl ?_ (fun c hc => Or.inl hc) nofun (hnew hpeer)
    intro q hq
    cases hq
    exact hpeer
  | unpin peer =>
    simp only [PrefetchNode.pinStep] at hstep
    split at hstep <;> cases hstep
    exact h.unpin (Pins.unpinned_clearActiveIfCurrent _ _)
  | unpinBlacklisted blacklisted =>
    simp only [PrefetchNode.pinStep] at hstep
    split at hstep <;> cases hstep
    exact h.unpin (Pins.unpinned_unpinBlacklisted _ _)

theorem SlotInv.startStep {e : StartEvent} (h : w.SlotInv) (hstep : w.startStep e = some w') : w'.SlotInv := by
  cases e with
  | start origin =>
    obtain ⟨range, -, rfl⟩ := Option.map_eq_some_iff.mp hstep
    exact { h with }
  | read k | build k =>
    simp only [PrefetchNode.startStep] at hstep
    split at hstep <;> cases hstep
    exact { h with }
  | lock k =>
    simp only [PrefetchNode.startStep] at hstep
    split at hstep <;> cases hstep
    exact { h with installing := nofun }
  | recheck =>
    simp only [PrefetchNode.startStep] at hstep
    split at hstep
    · split at hstep
      · cases hstep
        exact { h with installing := nofun }
      · -- the generation is still the prefetch's: no pin that emptied the slot is newer
        rename_i p hinst hgen
        cases hstep
        refine { h with installing := ?_ }
        intro q hq epoch he
        obtain ⟨rfl, -⟩ := Install.mk.inj (Option.some.inj hq)
        rw [← not_not.mp hgen]
        exact h.bound epoch he
    · cases hstep
  | install =>
    simp only [PrefetchNode.startStep] at hstep
    split at hstep <;> cases hstep
    rename_i p hinst
    refine { h with slot := ?_, installing := nofun }
    intro q hq
    cases hq
    exact h.installing p hinst
  | expire id =>
    simp only [PrefetchNode.startStep] at hstep
    split at hstep <;> cases hstep
    split
    · exact { h with slot := nofun }
    · exact h

theorem SlotInv.requestStep {e : RequestEvent} (h : w.SlotInv) (hstep : w.requestStep e = some w') :
    w'.SlotInv := by
  cases e with
  | take start end_ =>
    simp only [PrefetchNode.requestStep] at hstep
    split at hstep <;> cases hstep
    exact { h with slot := nofun }
  | poll k =>
    simp only [PrefetchNode.requestStep] at hstep
    split at hstep <;> cases hstep
    split
    · exact { h with }
    · exact h
  | judge k | join k result | accept k =>
    simp only [PrefetchNode.requestStep] at hstep
    split at hstep <;> cases hstep
    exact { h with }

theorem SlotInv.step {e : PrefetchEvent} (h : w.SlotInv) (hstep : w.step e = some w') : w'.SlotInv := by
  cases e with
  | pin e => exact h.pinStep hstep
  | start e => exact h.startStep hstep
  | request e => exact h.requestStep hstep
  | advance t =>
    cases hstep
    exact { h with }

/-! ## 3. From the answered range to the request -/

/-- The prefetch was built by some start. -/
def Known (w : PrefetchNode) (p : Prefetch) : Prop := ∃ origin, (p, origin) ∈ w.started

def StartOk (w : PrefetchNode) : StartCall → Prop
  | .begun start end_ origin | .read start end_ _ origin =>
    nextPrefetchRange origin.start origin.end_ origin.freshest = some (start, end_)
  | .built p => w.Known p

/-- The prefetch is for the requested range, and was young when it was taken. -/
def Fits (r : Request) : Prop :=
  r.p.start = r.start ∧ r.p.end_ = r.end_ ∧ r.takenAt ≤ r.p.at_ + PREFETCH_MAX_AGE

def RequestOk (w : PrefetchNode) : RequestCall → Prop
  | .taken r => w.Known r.p ∧ r.takenAt ≤ w.clock
  | .awaiting r _ | .joined r _ => w.Known r.p ∧ Fits r

structure RangeInv (w : PrefetchNode) : Prop where
  started : ∀ p origin, (p, origin) ∈ w.started →
    nextPrefetchRange origin.start origin.end_ origin.freshest = some (p.start, p.end_) ∧
      p.req = clientBlockRangeRequest p.start p.end_
  starts : ∀ c ∈ w.starts, w.StartOk c
  installing : ∀ i, w.installing = some i → w.Known i.p
  slot : ∀ p, w.slot = some p → w.Known p
  requests : ∀ c ∈ w.requests, w.RequestOk c
  answers : ∀ a ∈ w.answers, w.Known a.request.p ∧ Fits a.request ∧
    a.request.p.generation = a.generation

theorem RangeInv.init : RangeInv {} where
  started := nofun
  starts := nofun
  installing := nofun
  slot := nofun
  requests := nofun
  answers := nofun

theorem RangeInv.pinStep {e : PinEvent} (h : w.RangeInv) (hstep : w.pinStep e = some w') : w'.RangeInv := by
  cases e with
  | call ip =>
    cases hstep
    exact { h with }
  | empty k | lazyEmpty =>
    simp only [PrefetchNode.pinStep] at hstep
    split at hstep <;> cases hstep
    exact { h with slot := nofun }
  | lazy ip blacklisted =>
    simp only [PrefetchNode.pinStep] at hstep
    split at hstep
    · cases hstep
    split at hstep
    · cases hstep
      exact { h with }
    · cases hstep
      exact { h with }
  | bump k | set k | lazyBump | lazySet | unpin peer | unpinBlacklisted blacklisted =>
    simp only [PrefetchNode.pinStep] at hstep
    split at hstep <;> cases hstep
    exact { h with }

/-- A prefetch is built for the range its start was given, and asks for it. -/
theorem RangeInv.build (h : w.RangeInv) {k : Nat} (p : Prefetch) {origin : Origin}
    (hrange : nextPrefetchRange origin.start origin.end_ origin.freshest = some (p.start, p.end_))
    (hreq : p.req = clientBlockRangeRequest p.start p.end_) (nextId : Nat) :
    RangeInv { w with
      nextPrefetchId := nextId
      starts := w.starts.set k (.built p)
      started := w.started ++ [(p, origin)] } := by
  have hknown : ∀ q, w.Known q → ∃ origin', (q, origin') ∈ w.started ++ [(p, origin)] := fun q ⟨o, ho⟩ =>
    ⟨o, List.mem_append_left _ ho⟩
  refine ⟨?_, ?_, ?_, ?_, ?_, ?_⟩
  · intro q o hq
    rcases List.mem_append.mp hq with hq | hq
    · exact h.started q o hq
    · obtain ⟨rfl, rfl⟩ := Prod.mk.inj (List.mem_singleton.mp hq)
      exact ⟨hrange, hreq⟩
  · intro c hc
    rcases List.mem_or_eq_of_mem_set hc with hc | rfl
    · cases c with
      | begun start end_ origin => exact h.starts _ hc
      | read start end_ generation origin => exact h.starts _ hc
      | built q => exact hknown q (h.starts _ hc)
    · exact ⟨origin, List.mem_append_right _ List.mem_cons_self⟩
  · exact fun i hi => hknown _ (h.installing i hi)
  · exact fun q hq => hknown q (h.slot q hq)
  · intro c hc
    cases c with
    | taken r => exact ⟨hknown _ (h.requests _ hc).1, (h.requests _ hc).2⟩
    | awaiting r since => exact ⟨hknown _ (h.requests _ hc).1, (h.requests _ hc).2⟩
    | joined r frame => exact ⟨hknown _ (h.requests _ hc).1, (h.requests _ hc).2⟩
  · exact fun a ha => ⟨hknown _ (h.answers a ha).1, (h.answers a ha).2⟩

theorem RangeInv.startStep {e : StartEvent} (h : w.RangeInv) (hstep : w.startStep e = some w') :
    w'.RangeInv := by
  cases e with
  | start origin =>
    obtain ⟨range, hrange, rfl⟩ := Option.map_eq_some_iff.mp hstep
    refine { h with starts := ?_ }
    intro c hc
    rcases List.mem_append.mp hc with hc | hc
    · exact h.starts c hc
    · rw [List.mem_singleton.mp hc]
      exact hrange
  | read k =>
    simp only [PrefetchNode.startStep] at hstep
    split at hstep <;> cases hstep
    rename_i start end_ origin hcall
    refine { h with starts := ?_ }
    intro c hc
    rcases List.mem_or_eq_of_mem_set hc with hc | rfl
    · exact h.starts c hc
    · exact h.starts _ (List.mem_of_getElem? hcall)
  | build k =>
    simp only [PrefetchNode.startStep] at hstep
    split at hstep <;> cases hstep
    rename_i start end_ generation origin hcall
    exact h.build ⟨w.nextPrefetchId, start, end_, generation, w.clock, clientBlockRangeRequest start end_⟩
      (h.starts _ (List.mem_of_getElem? hcall)) rfl _
  | lock k =>
    simp only [PrefetchNode.startStep] at hstep
    split at hstep <;> cases hstep
    rename_i p hcall hinst
    refine { h with starts := fun c hc => h.starts c (List.mem_of_mem_eraseIdx hc), installing := ?_ }
    intro i hi
    cases hi
    exact h.starts _ (List.mem_of_getElem? hcall)
  | recheck =>
    simp only [PrefetchNode.startStep] at hstep
    split at hstep
    · rename_i p hinst
      split at hstep
      · cases hstep
        exact { h with installing := nofun }
      · cases hstep
        refine { h with installing := ?_ }
        intro i hi
        cases hi
        exact h.installing ⟨p, false⟩ hinst
    · cases hstep
  | install =>
    simp only [PrefetchNode.startStep] at hstep
    split at hstep <;> cases hstep
    rename_i p hinst
    refine { h with installing := nofun, slot := ?_ }
    intro q hq
    cases hq
    exact h.installing _ hinst
  | expire id =>
    simp only [PrefetchNode.startStep] at hstep
    split at hstep <;> cases hstep
    split
    · exact { h with slot := nofun }
    · exact h

/-- Requests may leave, and one may move on to a phase that suits it. -/
theorem RangeInv.moveRequest (h : w.RangeInv) {requests : List RequestCall} {c : RequestCall}
    (hc : w.RequestOk c) (hsub : ∀ d ∈ requests, d ∈ w.requests ∨ d = c) :
    RangeInv { w with requests := requests } := by
  refine { h with requests := ?_ }
  intro d hd
  rcases hsub d hd with hd | rfl
  · cases d with
    | taken r => exact h.requests _ hd
    | awaiting r since => exact h.requests _ hd
    | joined r frame => exact h.requests _ hd
  · cases d with
    | taken r => exact hc
    | awaiting r since => exact hc
    | joined r frame => exact hc

theorem fits_of_serves {r : Request} {generation now : Nat}
    (h : r.p.serves r.start r.end_ generation now = true) (htaken : r.takenAt ≤ now) : Fits r := by
  simp only [Prefetch.serves, decide_eq_true_eq] at h
  obtain ⟨hstart, hend, -, hage⟩ := h
  exact ⟨hstart, hend, by omega⟩

theorem RangeInv.requestStep {e : RequestEvent} (h : w.RangeInv) (hstep : w.requestStep e = some w') :
    w'.RangeInv := by
  have hgone : ∀ {k : Nat} {c d : RequestCall}, d ∈ w.requests.eraseIdx k → d ∈ w.requests ∨ d = c :=
    fun hd => Or.inl (List.mem_of_mem_eraseIdx hd)
  cases e with
  | take start end_ =>
    simp only [PrefetchNode.requestStep] at hstep
    split at hstep <;> cases hstep
    rename_i p hinst hslot
    have hempty : RangeInv { w with slot := none } := { h with slot := nofun }
    refine hempty.moveRequest (c := .taken ⟨start, end_, p, w.clock⟩) ⟨h.slot p hslot, le_rfl⟩ ?_
    intro d hd
    exact (List.mem_append.mp hd).imp_right List.mem_singleton.mp
  | judge k =>
    simp only [PrefetchNode.requestStep] at hstep
    split at hstep <;> cases hstep
    rename_i r hcall
    have hr := h.requests _ (List.mem_of_getElem? hcall)
    split
    · rename_i hserves
      exact h.moveRequest (c := .awaiting r w.clock) ⟨hr.1, fits_of_serves hserves hr.2⟩
        fun d hd => List.mem_or_eq_of_mem_set hd
    · exact h.moveRequest hr fun d hd => hgone hd
  | poll k =>
    simp only [PrefetchNode.requestStep] at hstep
    split at hstep <;> cases hstep
    rename_i r since hcall
    split
    · exact h.moveRequest (h.requests _ (List.mem_of_getElem? hcall)) fun d hd => hgone hd
    · exact h
  | join k result =>
    simp only [PrefetchNode.requestStep] at hstep
    split at hstep <;> cases hstep
    rename_i r since hcall
    have hr := h.requests _ (List.mem_of_getElem? hcall)
    split
    · rename_i frame
      split
      · exact h.moveRequest (c := .joined r frame) hr fun d hd => List.mem_or_eq_of_mem_set hd
      · exact h.moveRequest hr fun d hd => hgone hd
    · exact h.moveRequest hr fun d hd => hgone hd
  | accept k =>
    simp only [PrefetchNode.requestStep] at hstep
    split at hstep <;> cases hstep
    rename_i r frame hcall
    have hr := h.requests _ (List.mem_of_getElem? hcall)
    have hleft : RangeInv { w with requests := w.requests.eraseIdx k } :=
      h.moveRequest hr fun d hd => hgone hd
    refine { hleft with answers := ?_ }
    intro a ha
    split at ha
    · exact hleft.answers a ha
    · rename_i hgen
      rcases List.mem_append.mp ha with ha | ha
      · exact hleft.answers a ha
      · rw [List.mem_singleton.mp ha]
        exact ⟨hr.1, hr.2, (not_not.mp hgen).symm⟩

theorem RangeInv.step {e : PrefetchEvent} (h : w.RangeInv) (hstep : w.step e = some w') : w'.RangeInv := by
  cases e with
  | pin e => exact h.pinStep hstep
  | start e => exact h.startStep hstep
  | request e => exact h.requestStep hstep
  | advance t =>
    cases hstep
    refine { h with requests := ?_ }
    intro c hc
    cases c with
    | taken r => exact (h.requests _ hc).imp_right fun htaken => Nat.le_add_right_of_le htaken
    | awaiting r since => exact h.requests _ hc
    | joined r frame => exact h.requests _ hc

/-- **A prefetched batch is served only for its own range and session.**  In every state of every
    interleaving: the slot holds no prefetch of a generation older than a pin whose call
    has returned; a batch was served to a request only from a prefetch started for
    exactly its range, under the generation current when the batch was accepted, and
    taken within 20 s of its start, whose request bytes decode to the range; and every
    prefetch started is for the range right after an answered one, as wide as it, of at
    most 1000 rounds, and ending at least 300 below the freshest round. -/
theorem prefetch_serves_own_range_and_session {events : List PrefetchEvent} {w : PrefetchNode}
    (hrun : Machine.Run step (fun _ _ => True) {} events w) :
    (∀ peer ∈ w.returned, ∀ p, w.slot = some p → peer.epoch ≤ p.generation) ∧
    (∀ a ∈ w.answers,
      a.request.p.start = a.request.start ∧ a.request.p.end_ = a.request.end_ ∧
      a.request.p.generation = a.generation ∧
      a.request.takenAt ≤ a.request.p.at_ + PREFETCH_MAX_AGE ∧
      clientBlockRange a.request.p.req = some (a.request.start, a.request.end_) ∧
      ∃ origin, (a.request.p, origin) ∈ w.started) ∧
    ∀ p origin, (p, origin) ∈ w.started →
      ∃ width : Nat, 0 < width ∧ width ≤ 1000 ∧
        origin.start.toNat + width = origin.end_.toNat + 1 ∧
        p.start.toNat = origin.end_.toNat + 1 ∧ p.end_.toNat = origin.end_.toNat + width ∧
        p.end_.toNat + 300 ≤ origin.freshest.toNat := by
  have hinv : w.SlotInv ∧ w.RangeInv := by
    refine hrun.invariant (I := fun w => w.SlotInv ∧ w.RangeInv) ⟨SlotInv.init, RangeInv.init⟩ ?_
    intro a e b ⟨hslot, hrange⟩ _ hstep
    exact ⟨hslot.step hstep, hrange.step hstep⟩
  obtain ⟨hslot, hrange⟩ := hinv
  refine ⟨?_, ?_, ?_⟩
  · intro peer hpeer p hp
    exact hslot.slot p hp _ (hslot.returned peer hpeer)
  · intro a ha
    obtain ⟨⟨origin, horigin⟩, ⟨hstart, hend, hage⟩, hgen⟩ := hrange.answers a ha
    refine ⟨hstart, hend, hgen, hage, ?_, origin, horigin⟩
    rw [(hrange.started _ _ horigin).2, clientBlockRange_request, hstart, hend]
  · intro p origin hmem
    exact nextPrefetchRange_eq_some (hrange.started p origin hmem).1

/-- A session pins; the range after 100..=199 is prefetched, asked for five seconds later and
    served. -/
def servedEvents : List PrefetchEvent :=
  [.pin (.call "192.0.2.7"), .pin (.bump 0), .pin (.empty 0), .pin (.set 0),
    .start (.start ⟨100, 199, 1000⟩), .start (.read 0), .start (.build 0), .start (.lock 0), .start .recheck,
    .start .install, .advance 5000000000, .request (.take 200 299), .request (.judge 0),
    .request (.join 0 (some [0, 0, 0, 1, 1, 9])), .request (.accept 0)]

theorem served_isSome : (Machine.exec step (fun _ _ => True) {} servedEvents).isSome := by
  decide

def servedNode : PrefetchNode := (Machine.exec step (fun _ _ => True) {} servedEvents).get served_isSome

theorem prefetch_serves_servedNode :
    servedNode.returned = [⟨"192.0.2.7", 1⟩] ∧ servedNode.answers.length = 1 ∧
    ∀ a ∈ servedNode.answers,
      a.request.p.start = a.request.start ∧ a.request.p.end_ = a.request.end_ ∧
      a.request.p.generation = a.generation ∧
      a.request.takenAt ≤ a.request.p.at_ + PREFETCH_MAX_AGE ∧
      clientBlockRange a.request.p.req = some (a.request.start, a.request.end_) ∧
      ∃ origin, (a.request.p, origin) ∈ servedNode.started :=
  ⟨by decide, by decide, (prefetch_serves_own_range_and_session
    (Machine.Run.of_exec (Option.some_get served_isSome).symm)).2.1⟩

end PrefetchNode

end Hypersync.Gateway
