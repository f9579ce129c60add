import Hypersync.Gateway.Captured
import Hypersync.Lib.Recent
import Hypersync.Priority
import Hypersync.Push.Relay

/-!
# Who ended a bootstrap, and who is remembered as a state server

A bootstrap without a cached copy is relayed from a peer that serves it.  The peer is
remembered as a state server when it is chosen, and forgotten when the relay has ended
on its side before a whole bootstrap was through; so it matters which side a relay
blames, and what it counts.

The plain relay blames the branch its `select!` takes.  When the upstream has closed,
the node closes too, and either branch may be taken.  The relay with a cache tap keeps
the upstream's end in a flag, and blames the upstream whenever it has ended its stream
before the report.
-/

namespace Hypersync.Gateway

open Protocol Push

/-! ## 1. What the tap counts -/

namespace Tap

variable {s t : Tap} {slower : Nat → Nat → Nat → Bool}

/-- Everything written is counted, and an upstream that is gone ended the task. -/
structure Even (s : Tap) : Prop where
  counted : s.delivered = s.node.length
  gone : s.upstreamEnded = true → s.pc = .ended

/-- The same bytes are counted and written, and the flag is only set where the task ends. -/
structure Keeps (s t : Tap) : Prop where
  node : t.node = s.node
  delivered : t.delivered = s.delivered
  gone : t.upstreamEnded = s.upstreamEnded ∨ t.pc = .ended

theorem Even.keeps (h : s.Even) (hpc : s.pc ≠ .ended) (hkeeps : Keeps s t) : t.Even := by
  refine ⟨by rw [hkeeps.delivered, hkeeps.node, h.counted], fun hgone => ?_⟩
  rcases hkeeps.gone with hsame | hended
  · exact absurd (h.gone (hsame ▸ hgone)) hpc
  · exact hended

theorem Keeps.trans {u : Tap} (hst : Keeps s t) (htu : Keeps t u) (hpc : t.pc ≠ .ended) : Keeps s u := by
  refine ⟨htu.node.trans hst.node, htu.delivered.trans hst.delivered, ?_⟩
  rcases htu.gone with hsame | hended
  · rw [hsame]
    exact Or.inl (hst.gone.resolve_right hpc)
  · exact Or.inr hended

theorem keeps_upstreamGone : Keeps s s.upstreamGone := ⟨rfl, rfl, Or.inr rfl⟩

theorem keeps_onHeader (h : Header) (pre : List UInt8) : Keeps s (s.onHeader h pre) := by
  unfold onHeader
  split
  · exact keeps_upstreamGone
  · simp only
    split
    · exact ⟨rfl, rfl, Or.inl rfl⟩
    · exact ⟨rfl, rfl, Or.inl rfl⟩

theorem keeps_dropSlowCapture (now : Nat) : Keeps s (s.dropSlowCapture now) ∧ (s.dropSlowCapture now).pc = s.pc := by
  unfold dropSlowCapture
  split
  · exact ⟨⟨rfl, rfl, Or.inl rfl⟩, rfl⟩
  · exact ⟨⟨rfl, rfl, Or.inl rfl⟩, rfl⟩

theorem keeps_onTop (now : Nat) (hpc : s.pc ≠ .ended) : Keeps s (s.onTop now) := by
  obtain ⟨hslow, hslowPc⟩ := keeps_dropSlowCapture (s := s) now
  unfold onTop
  simp only
  generalize s.dropSlowCapture now = u at hslow hslowPc
  have hpermit : Keeps s (if u.capture then u else { u with capturePermit := false }) ∧
      (if u.capture then u else { u with capturePermit := false }).pc = s.pc := by
    split
    · exact ⟨hslow, hslowPc⟩
    · exact ⟨{ hslow with }, hslowPc⟩
  generalize (if u.capture then u else { u with capturePermit := false }) = v at hpermit
  obtain ⟨hkeeps, hvpc⟩ := hpermit
  have hv : v.pc ≠ .ended := hvpc ▸ hpc
  split
  · exact Keeps.trans (t := { v with first := none })
      { hkeeps with } (keeps_onHeader _ _) hv
  · exact { hkeeps with gone := Or.inl (hkeeps.gone.resolve_right hv) }

theorem keeps_payloadLoop (h : Header) (remaining : Nat) : Keeps s (s.payloadLoop h remaining) :=
  ⟨rfl, rfl, Or.inl rfl⟩

theorem keeps_onHeaderWritten (h : Header) (pre : List UInt8) : Keeps s (s.onHeaderWritten h pre) := by
  unfold onHeaderWritten
  split
  · exact keeps_payloadLoop h _
  split
  · exact keeps_upstreamGone
  · exact ⟨rfl, rfl, Or.inl rfl⟩

theorem keeps_onFrameDone (h : Header) (elapsedAt restartAt : Nat) :
    Keeps s (s.onFrameDone slower h elapsedAt restartAt) := by
  unfold onFrameDone
  simp only
  split
  · split
    · exact ⟨rfl, rfl, Or.inl rfl⟩
    split
    · split
      · split
        · exact ⟨rfl, rfl, Or.inl rfl⟩
        · exact ⟨rfl, rfl, Or.inl rfl⟩
      · exact ⟨rfl, rfl, Or.inl rfl⟩
    · exact ⟨rfl, rfl, Or.inl rfl⟩
  · exact ⟨rfl, rfl, Or.inl rfl⟩

theorem keeps_read? {n room : Nat} {bytes : List UInt8} (h : s.read? n room = some (bytes, t)) :
    Keeps s t ∧ t.pc = s.pc := by
  unfold read? at h
  split at h
  · obtain ⟨-, rfl⟩ := Prod.mk.inj (Option.some.inj h)
    exact ⟨⟨rfl, rfl, Or.inl rfl⟩, rfl⟩
  · cases h

theorem keeps_readHeader {pc : List UInt8 → TapPc} {got : List UInt8} {n : Nat}
    (h : s.readHeader pc got n = some t) (hpc : s.pc ≠ .ended) : Keeps s t := by
  obtain ⟨⟨bytes, u⟩, hread, ht⟩ := Option.map_eq_some_iff.mp h
  obtain ⟨hu, hupc⟩ := keeps_read? hread
  simp only at ht
  split at ht
  · rw [← ht]
    exact hu.trans (keeps_onHeader _ _) (hupc ▸ hpc)
  · rw [← ht]
    exact { hu with gone := Or.inl (hu.gone.resolve_right (hupc ▸ hpc)) }

theorem Even.relay (h : s.Even) (hpc : s.pc ≠ .ended) (bytes : List UInt8) : (s.relay bytes).Even :=
  ⟨by simp only [Tap.relay, List.length_append, h.counted], fun hgone => absurd (h.gone hgone) hpc⟩

/-- As long as it runs, the task has counted all that it wrote, and so it has when the upstream
    is gone; a failed write to the node is not counted. -/
structure Tally (s : Tap) : Prop where
  le : s.delivered ≤ s.node.length
  even : s.pc ≠ .ended ∨ s.upstreamEnded = true → s.Even

theorem Even.tally (h : s.Even) : s.Tally := ⟨Nat.le_of_eq h.counted, fun _ => h⟩

theorem Even.relayFailed (h : s.Even) (hpc : s.pc ≠ .ended) (bytes : List UInt8) (n : Nat) :
    (s.relayFailed bytes n).Tally := by
  refine ⟨?_, ?_⟩
  · simp only [Tap.relayFailed, Tap.stop, List.length_append, h.counted]
    exact Nat.le_add_right _ _
  · rintro (hrunning | hgone)
    · exact absurd rfl hrunning
    · exact absurd (h.gone hgone) hpc

/-- What a step of the task does to what it counts. -/
inductive Moved (s : Tap) : Tap → Prop
  | kept {t : Tap} (h : Keeps s t) : Moved s t
  | relayed {t : Tap} (bytes : List UInt8) (h : Keeps (s.relay bytes) t) : Moved s t
  | failed (bytes : List UInt8) (n : Nat) : Moved s (s.relayFailed bytes n)

theorem moved_of_step {e : TapEvent} (hs : s.step slower e = some t) : s.pc ≠ .ended ∧ Moved s t := by
  have hpc : s.pc ≠ .ended := by
    intro hended
    unfold Tap.step at hs
    simp only [hended] at hs
    cases hs
  refine ⟨hpc, ?_⟩
  unfold Tap.step at hs
  split at hs
  · exact .kept (Option.some.inj hs ▸ keeps_onTop _ hpc)
  · exact .kept (keeps_readHeader hs hpc)
  · refine .kept (Option.some.inj hs ▸ ?_)
    split <;> exact ⟨rfl, rfl, Or.inr rfl⟩
  · refine .kept (Option.some.inj hs ▸ ?_)
    split <;> exact ⟨rfl, rfl, Or.inr rfl⟩
  · exact .kept (keeps_readHeader hs hpc)
  · exact .kept (Option.some.inj hs ▸ ⟨rfl, rfl, Or.inl rfl⟩)
  · exact .kept (Option.some.inj hs ▸ ⟨rfl, rfl, Or.inr rfl⟩)
  · exact .kept (keeps_readHeader hs hpc)
  · exact .kept (Option.some.inj hs ▸ keeps_upstreamGone)
  · exact .kept (Option.some.inj hs ▸ keeps_upstreamGone)
  · exact .relayed _ (Option.some.inj hs ▸ keeps_onHeaderWritten _ _)
  · exact Option.some.inj hs ▸ .failed _ _
  · exact .relayed _ (Option.some.inj hs ▸ keeps_payloadLoop _ _)
  · exact Option.some.inj hs ▸ .failed _ _
  · refine .kept (Option.some.inj hs ▸ ?_)
    obtain ⟨hk, hkpc⟩ := keeps_dropSlowCapture (s := s) _
    exact { hk with gone := Or.inl (hk.gone.resolve_right (hkpc ▸ hpc)) }
  · obtain ⟨⟨bytes, u⟩, hread, rfl⟩ := Option.map_eq_some_iff.mp hs
    obtain ⟨hu, hupc⟩ := keeps_read? hread
    exact .kept { hu with gone := Or.inl (hu.gone.resolve_right (hupc ▸ hpc)) }
  · exact .kept (Option.some.inj hs ▸ keeps_upstreamGone)
  · exact .kept (Option.some.inj hs ▸ keeps_upstreamGone)
  · exact .relayed _ (Option.some.inj hs ▸ keeps_payloadLoop _ _)
  · exact Option.some.inj hs ▸ .failed _ _
  · exact .kept (Option.some.inj hs ▸ keeps_onFrameDone _ _ _)
  · cases hs

theorem Tally.step {e : TapEvent} (h : s.Tally) (hs : s.step slower e = some t) : t.Tally := by
  obtain ⟨hpc, hmoved⟩ := moved_of_step hs
  have heven := h.even (Or.inl hpc)
  cases hmoved with
  | kept hk => exact (heven.keeps hpc hk).tally
  | relayed bytes hk => exact ((heven.relay hpc bytes).keeps hpc hk).tally
  | failed bytes n => exact heven.relayFailed hpc bytes n

theorem delivered_le_of_step {e : TapEvent} (hs : s.step slower e = some t) : s.delivered ≤ t.delivered := by
  cases (moved_of_step hs).2 with
  | kept hk => exact Nat.le_of_eq hk.delivered.symm
  | relayed bytes hk =>
    rw [hk.delivered]
    exact Nat.le_add_right _ _
  | failed bytes n => exact Nat.le_refl _

theorem tally_start (firstHdr : Header) (pre upstream : List UInt8) (at_ : Nat) :
    (start firstHdr pre upstream at_).Tally :=
  Even.tally ⟨rfl, fun h => by cases h⟩

/-- A task whose upstream is gone takes no step. -/
theorem Tally.step_of_gone {e : TapEvent} (h : s.Tally) (hgone : s.upstreamEnded = true) : s.step slower e = none := by
  cases hs : s.step slower e with
  | none => rfl
  | some t => exact absurd ((h.even (Or.inr hgone)).gone hgone) (moved_of_step hs).1

end Tap

/-! ## 2. The relay with a tap -/

/-- The relay around the task: `stored` are its own stores to the flag of the task, and the two
    atomics are loaded one after the other. -/
structure TappedRelay where
  tap : Tap
  up : Pump.State UInt8 := {}
  listed : Bool := false
  branch : Option RelayBranch := none
  stored : Bool := false
  delivered : Option Nat := none
  relayed : Option Relayed := none

inductive TappedEvent where
  | tap (e : TapEvent)
  | taskDied
  | up (e : Pump.Event UInt8)
  | blacklist
  | select (b : RelayBranch)
  | loadDelivered
  | loadEnded

namespace TappedRelay

variable (slower : Nat → Nat → Nat → Bool)

def start (firstHdr : Header) (pre upstream : List UInt8) (at_ : Nat) : TappedRelay where
  tap := Tap.start firstHdr pre upstream at_

def ready (s : TappedRelay) : RelayBranch → Bool
  | .nodeToUpstream => s.up.ended.isSome
  | .copyTask => s.tap.pc == .ended
  | .blacklisted => s.listed

/-- The bytes for the upstream that a branch gives, and whether it stores to the flag. -/
def outcome (s : TappedRelay) : RelayBranch → Nat × Bool
  | .nodeToUpstream => Relay.copyNodeToUpstream s.up
  | .copyTask => (0, false)
  | .blacklisted => (0, true)

def step (s : TappedRelay) : TappedEvent → Option TappedRelay
  | .tap e => (s.tap.step slower e).map fun tap => { s with tap := tap }
  | .taskDied => if s.tap.pc = .ended then none else some { s with tap := s.tap.stop }
  | .up .died => none
  | .up e =>
    if s.branch.isNone then (Pump.step TO_PEER_BUF s.up e).map fun up => { s with up := up } else none
  | .blacklist => some { s with listed := true }
  | .select b =>
    if s.branch.isNone ∧ s.ready b then some { s with branch := some b, stored := (s.outcome b).2 } else none
  | .loadDelivered =>
    match s.branch, s.delivered with
    | some _, none => some { s with delivered := some s.tap.delivered }
    | _, _ => none
  | .loadEnded =>
    match s.branch, s.delivered, s.relayed with
    | some b, some delivered, none =>
      some { s with relayed := some ⟨delivered, (s.outcome b).1, s.tap.upstreamEnded || s.stored⟩ }
    | _, _, _ => none

variable {slower} {s t : TappedRelay} {e : TappedEvent} {whole : List UInt8}

structure Inv (whole : List UInt8) (s : TappedRelay) : Prop where
  -- a task that died may have left its first header behind
  tap : s.tap.pc ≠ .ended → s.tap.Inv whole
  relayed : s.tap.node.IsPrefix whole
  tally : s.tap.Tally
  unset : s.branch = none → s.stored = false
  stored : s.stored = true → s.up.ended = some .sink ∨ s.listed = true
  loaded : ∀ n, s.delivered = some n → n ≤ s.tap.delivered
  told : ∀ r, s.relayed = some r → s.delivered = some r.toNode ∧
    (r.upstreamEnded = true → s.tap.upstreamEnded = true ∨ s.stored = true)

theorem inv_start (firstHdr : Header) (pre upstream : List UInt8) (at_ : Nat) :
    (start firstHdr pre upstream at_).Inv (firstHdr.bytes ++ pre ++ upstream) where
  tap _ := Tap.inv_start firstHdr pre upstream at_
  relayed := List.nil_prefix
  tally := Tap.tally_start firstHdr pre upstream at_
  unset _ := rfl
  stored h := by cases h
  loaded _ h := by cases h
  told _ h := by cases h

/-- What a step does, and when it can be taken. -/
inductive Stepped (slower : Nat → Nat → Nat → Bool) (s : TappedRelay) : TappedEvent → TappedRelay → Prop
  | tap (e : TapEvent) (tap : Tap) (h : s.tap.step slower e = some tap) :
      Stepped slower s (.tap e) { s with tap := tap }
  | taskDied (hpc : s.tap.pc ≠ .ended) : Stepped slower s .taskDied { s with tap := s.tap.stop }
  | up (e : Pump.Event UInt8) (up : Pump.State UInt8) (hbranch : s.branch = none)
      (h : Pump.step TO_PEER_BUF s.up e = some up) : Stepped slower s (.up e) { s with up := up }
  | blacklist : Stepped slower s .blacklist { s with listed := true }
  | select (b : RelayBranch) (hbranch : s.branch = none) (hready : s.ready b = true) :
      Stepped slower s (.select b) { s with branch := some b, stored := (s.outcome b).2 }
  | loadDelivered (hnone : s.delivered = none) :
      Stepped slower s .loadDelivered { s with delivered := some s.tap.delivered }
  | loadEnded (b : RelayBranch) (n : Nat) (hn : s.delivered = some n) (hnone : s.relayed = none) :
      Stepped slower s .loadEnded
        { s with relayed := some ⟨n, (s.outcome b).1, s.tap.upstreamEnded || s.stored⟩ }

theorem step_eq_some (h : s.step slower e = some t) : Stepped slower s e t := by
  cases e with
  | tap e =>
    obtain ⟨tap, htap, rfl⟩ := Option.map_eq_some_iff.mp h
    exact .tap e tap htap
  | taskDied =>
    simp only [step] at h
    split at h <;> cases h
    rename_i hpc
    exact .taskDied hpc
  | up e =>
    have hup : (if s.branch.isNone then
        (Pump.step TO_PEER_BUF s.up e).map fun up => { s with up := up } else none) = some t := by
      cases e <;> first | exact h | cases h
    split at hup
    · rename_i hbranch
      obtain ⟨up, hs, rfl⟩ := Option.map_eq_some_iff.mp hup
      exact .up e up (Option.isNone_iff_eq_none.mp hbranch) hs
    · cases hup
  | blacklist =>
    cases h
    exact .blacklist
  | select b =>
    simp only [step] at h
    split at h <;> cases h
    rename_i hready
    exact .select b (Option.isNone_iff_eq_none.mp hready.1) hready.2
  | loadDelivered =>
    simp only [step] at h
    split at h <;> cases h
    rename_i hnone
    exact .loadDelivered hnone
  | loadEnded =>
    simp only [step] at h
    split at h <;> cases h
    rename_i b n hb hn hnone
    exact .loadEnded b n hn hnone

theorem Inv.step (h : s.Inv whole) (hs : s.step slower e = some t) : t.Inv whole := by
  cases step_eq_some hs with
  | tap e tap htap =>
    have htapInv := (h.tap (Tap.moved_of_step htap).1).step htap
    refine ⟨fun _ => htapInv, htapInv.relayed.1, h.tally.step htap, h.unset, h.stored, ?_, ?_⟩
    · intro n hn
      exact Nat.le_trans (h.loaded n hn) (Tap.delivered_le_of_step htap)
    · intro r hr
      obtain ⟨hn, hgone⟩ := h.told r hr
      refine ⟨hn, fun hended => Or.inr ?_⟩
      rcases hgone hended with hgone | hstored
      · rw [h.tally.step_of_gone hgone] at htap
        cases htap
      · exact hstored
  | taskDied hpc =>
    have heven := h.tally.even (Or.inl hpc)
    have hgone : s.tap.upstreamEnded = false := by
      cases hgone : s.tap.upstreamEnded with
      | false => rfl
      | true => exact absurd (heven.gone hgone) hpc
    refine { h with tap := fun hrunning => absurd rfl hrunning, tally := ⟨h.tally.le, ?_⟩ }
    rintro (hrunning | hended)
    · exact absurd rfl hrunning
    · rw [show s.tap.stop.upstreamEnded = s.tap.upstreamEnded from rfl, hgone] at hended
      cases hended
  | up e up hbranch hup =>
    have hunset := h.unset hbranch
    refine { h with stored := ?_ }
    intro hstored
    rw [show s.stored = true from hstored] at hunset
    cases hunset
  | blacklist => exact { h with stored := fun hstored => (h.stored hstored).imp_right fun _ => rfl }
  | select b hbranch hready =>
    have hunset := h.unset hbranch
    refine ⟨h.tap, h.relayed, h.tally, (fun hnone => by cases hnone), ?_, h.loaded, ?_⟩
    · intro hstored
      cases b with
      | nodeToUpstream => exact Or.inl (beq_iff_eq.mp hstored)
      | copyTask => cases hstored
      | blacklisted => exact Or.inr hready
    · intro r hr
      obtain ⟨hn, hgone⟩ := h.told r hr
      refine ⟨hn, fun hended => Or.inl ((hgone hended).resolve_right ?_)⟩
      rw [hunset]
      exact Bool.false_ne_true
  | loadDelivered hnone =>
    refine { h with loaded := ?_, told := ?_ }
    · intro n hn
      rw [← Option.some.inj hn]
    · intro r hr
      obtain ⟨hn, -⟩ := h.told r hr
      rw [hnone] at hn
      cases hn
  | loadEnded b n hn hnone =>
    refine { h with told := ?_ }
    intro r hr
    cases hr
    exact ⟨hn, fun hended => Bool.or_eq_true_iff.mp hended⟩

end TappedRelay

/-! ## 3. Who is forgotten -/

/-- The side of the upstream ended the relay before a whole bootstrap was through. -/
def cutShort (r : Relayed) : Bool := r.upstreamEnded && decide (r.toNode < MIN_COMPLETE_BOOTSTRAP_BYTES)

def STATE_SERVER_MEMORY : Nat := 8

def forgetStateServer (list : List String) (ip : String) : List String := Recent.forget list ip

def rememberStateServer (list : List String) (ip : String) : List String := Recent.touch STATE_SERVER_MEMORY list ip

/-- The list, and the peers of the relays that are under way. -/
structure StateServers where
  list : List String := []
  relays : List String := []
deriving DecidableEq

inductive StateServerEvent where
  | selected (ip : String)
  -- the node was gone before the relay began
  | left (ip : String)
  | relayed (ip : String) (r : Relayed)

/-- The event chooses a peer that is remembered. -/
def StateServerEvent.remembers (tier : PriorityTier) : StateServerEvent → Bool
  | .selected ip => !tier.contains ip
  | _ => false

namespace StateServers

variable (tier : PriorityTier)

def step (s : StateServers) : StateServerEvent → Option StateServers
  | .selected ip =>
    some { list := if tier.contains ip then s.list else rememberStateServer s.list ip, relays := ip :: s.relays }
  | .left ip => if ip ∈ s.relays then some { s with relays := s.relays.erase ip } else none
  | .relayed ip r =>
    if ip ∈ s.relays then
      some { list := if cutShort r then forgetStateServer s.list ip else s.list, relays := s.relays.erase ip }
    else none

/-- What an event does to the list. -/
def use : StateServerEvent → Option (Recent.Event String)
  | .selected ip => if tier.contains ip then none else some (.touch ip)
  | .left _ => none
  | .relayed ip r => if cutShort r then some (.forget ip) else none

variable {tier} {s t : StateServers} {es : List StateServerEvent} {ip : String}

theorem list_of_step {e : StateServerEvent} (hs : s.step tier e = some t) :
    t.list = (use tier e).elim s.list (Recent.step STATE_SERVER_MEMORY s.list) := by
  cases e with
  | selected ip =>
    cases hs
    simp only [use]
    split <;> rfl
  | left ip =>
    simp only [step] at hs
    split at hs <;> cases hs
    rfl
  | relayed ip r =>
    simp only [step] at hs
    split at hs <;> cases hs
    simp only [use]
    split <;> rfl

/-- The list is what the uses among the events make of it. -/
theorem list_of_run (hrun : Machine.Run (step tier) (fun _ _ => True) {} es s) :
    s.list = Recent.after STATE_SERVER_MEMORY (es.filterMap (use tier)) := by
  refine hrun.history (I := fun es s => s.list = Recent.after STATE_SERVER_MEMORY (es.filterMap (use tier))) rfl ?_
  intro es a e b ih _ hs
  rw [list_of_step hs, ih, List.filterMap_append]
  cases huse : use tier e with
  | none => rw [List.filterMap_cons_none huse, List.filterMap_nil, List.append_nil, Option.elim_none]
  | some u => rw [List.filterMap_cons_some huse, List.filterMap_nil, Recent.after_snoc, Option.elim_some]

theorem use_eq_touch {e : StateServerEvent} (h : use tier e = some (.touch ip)) :
    e = .selected ip ∧ tier.contains ip = false := by
  cases e with
  | selected ip' =>
    simp only [use] at h
    split at h <;> cases h
    rename_i hnot
    exact ⟨rfl, Bool.eq_false_of_not_eq_true hnot⟩
  | left ip' => cases h
  | relayed ip' r =>
    simp only [use] at h
    split at h <;> cases h

theorem use_eq_forget {e : StateServerEvent} :
    use tier e = some (.forget ip) ↔ ∃ r, e = .relayed ip r ∧ cutShort r = true := by
  cases e with
  | selected ip' =>
    simp only [use]
    split <;> simp
  | left ip' => simp [use]
  | relayed ip' r =>
    simp only [use]
    split
    · rename_i hshort
      simp [hshort]
    · rename_i hnot
      simp [hnot]

theorem forget_not_mem : .forget ip ∉ es.filterMap (use tier) ↔ ∀ r, .relayed ip r ∈ es → cutShort r = false := by
  rw [List.mem_filterMap]
  constructor
  · intro h r hr
    by_contra hshort
    exact h ⟨_, hr, use_eq_forget.mpr ⟨r, rfl, Bool.eq_true_of_not_eq_false hshort⟩⟩
  · rintro h ⟨e, he, huse⟩
    obtain ⟨r, rfl, hshort⟩ := use_eq_forget.mp huse
    rw [h r he] at hshort
    cases hshort

theorem countP_use (es : List StateServerEvent) :
    (es.filterMap (use tier)).countP Recent.Event.isTouch = es.countP (StateServerEvent.remembers tier) := by
  rw [List.countP_filterMap]
  congr 1
  funext e
  cases e with
  | selected ip =>
    simp only [use, StateServerEvent.remembers]
    cases tier.contains ip <;> rfl
  | left ip => rfl
  | relayed ip r =>
    simp only [use, StateServerEvent.remembers]
    cases cutShort r <;> rfl

/-- A peer in the list was chosen, and since then none of its relays was cut short. -/
theorem exists_selected_of_mem (hrun : Machine.Run (step tier) (fun _ _ => True) {} es s) (hip : ip ∈ s.list) :
    tier.contains ip = false ∧
      ∃ pre post, es = pre ++ .selected ip :: post ∧ ∀ r, .relayed ip r ∈ post → cutShort r = false := by
  rw [list_of_run hrun] at hip
  obtain ⟨pre, post, heq, hforget⟩ := Recent.exists_touch_of_mem_after hip
  obtain ⟨pre', rest, rfl, hpre, hrest⟩ := List.filterMap_eq_append_iff.mp heq
  obtain ⟨skipped, e, post', rfl, hskipped, he, hpost⟩ := List.filterMap_eq_cons_iff.mp hrest
  obtain ⟨rfl, htier⟩ := use_eq_touch he
  refine ⟨htier, pre' ++ skipped, post', by rw [List.append_assoc], ?_⟩
  rw [← hpost] at hforget
  exact forget_not_mem.mp hforget

/-- A peer that was chosen stays while none of its relays is cut short and there is room. -/
theorem mem_of_selected {pre post : List StateServerEvent}
    (hrun : Machine.Run (step tier) (fun _ _ => True) {} (pre ++ .selected ip :: post) s)
    (htier : tier.contains ip = false) (hwhole : ∀ r, .relayed ip r ∈ post → cutShort r = false)
    (hroom : post.countP (StateServerEvent.remembers tier) < STATE_SERVER_MEMORY) : ip ∈ s.list := by
  have huse : use tier (.selected ip) = some (.touch ip) := by
    rw [use, htier]
    rfl
  rw [list_of_run hrun, List.filterMap_append, List.filterMap_cons_some huse]
  exact Recent.mem_after (forget_not_mem.mpr hwhole) (by rwa [countP_use])

end StateServers

/-- **The memory of state servers**, for every order of choices and ends of relays.  At most
    eight peers are in it, each once, the one chosen last in front, and no priority peer.  A
    peer is in it only if none of its relays was cut short since it was chosen last, and then
    it stays until peers to remember, it or others, have been chosen eight times more. -/
theorem state_servers_over_runs {tier : PriorityTier} {es : List StateServerEvent} {s : StateServers}
    (hrun : Machine.Run (StateServers.step tier) (fun _ _ => True) {} es s) :
    s.list.length ≤ STATE_SERVER_MEMORY ∧ s.list.Nodup ∧
      s.list.Sublist (Recent.order (es.filterMap (StateServers.use tier))) ∧
      (∀ ip ∈ s.list, ip ∉ tier.peers ∧
        ∃ pre post, es = pre ++ .selected ip :: post ∧ ∀ r, .relayed ip r ∈ post → cutShort r = false) ∧
      ∀ ip pre post, es = pre ++ .selected ip :: post → ip ∉ tier.peers →
        (∀ r, .relayed ip r ∈ post → cutShort r = false) →
        post.countP (StateServerEvent.remembers tier) < STATE_SERVER_MEMORY → ip ∈ s.list := by
  have hlist := StateServers.list_of_run hrun
  refine ⟨?_, ?_, ?_, ?_, ?_⟩
  · rw [hlist]
    exact Recent.length_after_le _
  · rw [hlist]
    exact Recent.nodup_after _
  · rw [hlist]
    exact Recent.after_sublist_order _
  · intro ip hip
    obtain ⟨htier, hselected⟩ := StateServers.exists_selected_of_mem hrun hip
    refine ⟨fun hmem => ?_, hselected⟩
    rw [PriorityTier.contains_iff.mpr hmem] at htier
    cases htier
  · intro ip pre post heq hnot hwhole hroom
    subst heq
    refine StateServers.mem_of_selected hrun ?_ hwhole hroom
    exact Bool.eq_false_of_not_eq_true fun h => hnot (PriorityTier.contains_iff.mp h)

/-- Two servers are chosen; the stream of one ends early, that of the other is whole. -/
def twoServers : List StateServerEvent :=
  [.selected "1.2.3.4", .selected "5.6.7.8", .relayed "1.2.3.4" ⟨5, 0, true⟩, .relayed "5.6.7.8" ⟨5800000000, 0, true⟩]

theorem state_servers_over_runs_two :
    ∃ s, Machine.Run (StateServers.step (PriorityTier.new [] 0 0 false)) (fun _ _ => True) {} twoServers s ∧
      "5.6.7.8" ∈ s.list ∧ "1.2.3.4" ∉ s.list := by
  have hrun : Machine.Run (StateServers.step (PriorityTier.new [] 0 0 false)) (fun _ _ => True) {} twoServers
      { list := ["5.6.7.8"] } := Machine.Run.of_exec (by decide)
  obtain ⟨-, -, -, -, hstays⟩ := state_servers_over_runs hrun
  refine ⟨_, hrun, ?_, by decide⟩
  refine hstays "5.6.7.8" [.selected "1.2.3.4"] _ rfl List.not_mem_nil ?_ (by decide)
  intro r hr
  rcases List.mem_cons.mp hr with heq | hr
  · injection heq with hip
    exact absurd hip (by decide)
  · cases List.mem_singleton.mp hr
    decide

end Hypersync.Gateway
