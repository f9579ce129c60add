import Hypersync.Gateway.Captured
import Hypersync.Lib.Race

/-!
# Racing state servers for a bootstrap

`capture_bootstrap_raced` fetches from one state server at a time, replaces a failed
attempt by the next candidate, and adds one when no attempt has won for a while.  Every
attempt is a fetch that grows its own buffer towards the size of a whole bootstrap, so
it matters that there are never more of them than allowed.
-/

namespace Hypersync.Gateway

open Protocol

/-! ## 1. What a fetch holds -/

namespace Fetch

/-- The bytes a fetch has room for: the blob, and the frame it reads. -/
def held (s : Fetch) : Nat :=
  match s.pc with
  | .payload h _ _ => s.blob.length + (5 + h.len)
  | .frameDone _ payload => s.blob.length + (5 + payload.length)
  | _ => s.blob.length

def Fits (s : Fetch) : Prop := s.held ≤ MAX_BOOTSTRAP_CAPTURE_BYTES

variable {s s' : Fetch} {slower : Nat → Nat → Nat → Bool}

theorem blob_le_held (s : Fetch) : s.blob.length ≤ s.held := by
  unfold held
  split
  · exact Nat.le_add_right _ _
  · exact Nat.le_add_right _ _
  · exact Nat.le_refl _

theorem Fits.blob_le (h : s.Fits) : s.blob.length ≤ MAX_BOOTSTRAP_CAPTURE_BYTES :=
  Nat.le_trans (blob_le_held s) h

theorem fits_ok_or (h : s.blob.length ≤ MAX_BOOTSTRAP_CAPTURE_BYTES) (reason : FetchReason) :
    (if completeBootstrapAtFrameBoundary s.blob.length s.frames then s.ok else s.err reason).Fits := by
  split
  · exact h
  · exact h

theorem fits_onHeader (h : s.blob.length ≤ MAX_BOOTSTRAP_CAPTURE_BYTES) (hd : Header) (now : Nat) :
    (s.onHeader hd now).Fits := by
  unfold Fetch.onHeader
  split
  · exact h
  simp only []
  split
  · exact h
  split
  · exact h
  rename_i hroom
  by_cases hzero : hd.len = 0
  · simp only [hzero, if_true]
    show s.blob.length + (5 + 0) ≤ MAX_BOOTSTRAP_CAPTURE_BYTES
    omega
  · simp only [if_neg hzero]
    show s.blob.length + (5 + hd.len) ≤ MAX_BOOTSTRAP_CAPTURE_BYTES
    omega

theorem fits_onPayload {hd : Header} {got : List UInt8}
    (h : s.blob.length + (5 + hd.len) ≤ MAX_BOOTSTRAP_CAPTURE_BYTES) (since now : Nat) :
    (s.onPayload slower hd got since now).Fits := by
  unfold Fetch.onPayload
  split
  · exact Nat.le_of_add_right_le h
  by_cases hfull : got.length = hd.len
  · simp only [if_pos hfull]
    show s.blob.length + (5 + got.length) ≤ MAX_BOOTSTRAP_CAPTURE_BYTES
    rwa [hfull]
  · simp only [if_neg hfull]
    exact h

theorem fits_onWindow (h : s.blob.length ≤ MAX_BOOTSTRAP_CAPTURE_BYTES) (elapsedAt restartAt : Nat) :
    (s.onWindow slower elapsedAt restartAt).Fits := by
  unfold Fetch.onWindow
  simp only []
  split
  · split
    · split
      · exact fits_ok_or (s := { s with slow := s.slow + 1 }) h _
      · exact h
    · exact h
  · exact h

/-- The check on the blob itself is never the one that ends a fetch. -/
theorem fits_onFrameDone {hd : Header} {payload : List UInt8}
    (h : s.blob.length + (5 + payload.length) ≤ MAX_BOOTSTRAP_CAPTURE_BYTES) (sinceStart elapsedAt restartAt : Nat) :
    (s.onFrameDone slower hd payload sinceStart elapsedAt restartAt).Fits := by
  have hblob : (s.blob ++ (hd.bytes ++ payload)).length ≤ MAX_BOOTSTRAP_CAPTURE_BYTES := by
    rwa [List.length_append, List.length_append, Header.length_bytes]
  unfold Fetch.onFrameDone
  simp only []
  split
  · rename_i hlong
    exact absurd hblob (Nat.not_le.mpr hlong)
  split
  · exact hblob
  · exact fits_onWindow hblob _ _

theorem Fits.step {e : FetchEvent} (h : s.Fits) (hstep : s.step slower e = some s') : s'.Fits := by
  have hblob := h.blob_le
  unfold Fetch.step at hstep
  split at hstep
  · cases hstep
    exact hblob
  · cases hstep
    exact hblob
  · cases hstep
    exact hblob
  · cases hstep
    exact hblob
  · obtain ⟨⟨bytes, u⟩, hread, rfl⟩ := Option.map_eq_some_iff.mp hstep
    obtain ⟨-, -, -, hu⟩ := read?_eq_some hread
    have hublob : u.blob.length ≤ MAX_BOOTSTRAP_CAPTURE_BYTES := by
      rw [hu]
      exact hblob
    simp only []
    split
    · exact fits_onHeader hublob _ _
    · exact hublob
  · cases hstep
    exact fits_ok_or hblob _
  · cases hstep
    exact fits_ok_or hblob _
  · next hd got since n now hs =>
    obtain ⟨⟨bytes, u⟩, hread, rfl⟩ := Option.map_eq_some_iff.mp hstep
    obtain ⟨-, -, -, hu⟩ := read?_eq_some hread
    apply fits_onPayload
    rw [hu]
    simpa only [Fits, held, hs] using h
  · cases hstep
    exact hblob
  · cases hstep
    exact hblob
  · next hd payload sinceStart elapsedAt restartAt hs =>
    cases hstep
    apply fits_onFrameDone
    simpa only [Fits, held, hs] using h
  · cases hstep

/-- What a fetch returns is the front of what its upstream sent, in whole frames. -/
theorem whole_of_returned {upstream blob : List UInt8} (h : s.Inv upstream) (hpc : s.pc = .returned (.ok blob)) :
    blob <+: upstream ∧ completeFrameCount blob = some s.frames ∧
      completeBootstrapAtFrameBoundary blob.length s.frames = true := by
  unfold Inv at h
  rw [hpc] at h
  obtain ⟨rfl, hcomplete, got, -, hm⟩ := h
  obtain ⟨fs, hblob, hfs⟩ := hm.framed
  exact ⟨⟨_, hm.stream⟩, completeFrameCount_eq_some.mpr ⟨fs, hblob, hfs.symm⟩, hcomplete⟩

end Fetch

/-! ## 2. The race -/

/-- A candidate, and what it sends when it is dialed. -/
structure Dial where
  ip : String
  upstream : List UInt8
deriving DecidableEq

def captureRules (slower : Nat → Nat → Nat → Bool) (maxInflight : Nat) :
    Race.Rules Dial Fetch FetchEvent (List UInt8) where
  start d := { rest := d.upstream }
  step := Fetch.step slower
  result a :=
    match a.pc with
    | .returned (.ok blob) => some (some blob)
    | .returned (.error _) => some none
    | _ => none
  limit := maxInflight

def captureBootstrapRaced (slower : Nat → Nat → Nat → Bool) (peers : List Dial) (maxInflight : Nat) :
    Race.State Dial Fetch (List UInt8) :=
  Race.State.begin (captureRules slower maxInflight) peers

section

variable {slower : Nat → Nat → Nat → Bool} {maxInflight : Nat} {d : Dial} {a : Fetch}

theorem fits_of_reached (h : Race.Reached (captureRules slower maxInflight) d a) : a.Fits := by
  obtain ⟨es, hrun⟩ := h
  exact hrun.invariant (Nat.zero_le _) fun _ _ _ h _ hs => h.step hs

theorem inv_of_reached (h : Race.Reached (captureRules slower maxInflight) d a) : a.Inv d.upstream := by
  obtain ⟨es, hrun⟩ := h
  exact hrun.invariant ⟨rfl, [], rfl, rfl⟩ fun _ _ _ h _ hs => h.step hs

theorem result_eq_won {blob : List UInt8} (h : (captureRules slower maxInflight).result a = some (some blob)) :
    a.pc = .returned (.ok blob) := by
  simp only [captureRules] at h
  split at h
  · rename_i hpc
    cases h
    exact hpc
  · cases h
  · cases h

end

/-- **The race for a bootstrap.**  In every interleaving of the attempts, their failures,
    panics and the hedge timer: the candidates are dialed in their order and none twice;
    no more attempts than allowed are under way, and what they hold is bounded; the race
    always waits for one of them and goes on when it has returned, after at most two steps
    for each candidate.  It ends without a blob only when every candidate has failed, and
    what it ends with was sent by the candidate that won and is a complete bootstrap in
    whole frames; if it has a live tail it is loaded again once it is persisted. -/
theorem capture_race_over_runs (lz4 : Lz4.Decoder) (slower : Nat → Nat → Nat → Bool)
    (peers : List Dial) (maxInflight : Nat) (es : List (Race.Event FetchEvent)) (t : Race.State Dial Fetch (List UInt8))
    (hrun : Machine.Run (Race.step (captureRules slower maxInflight)) (fun _ _ => True)
      (captureBootstrapRaced slower peers maxInflight) es t) :
    t.tried <+: peers ∧
    t.running.length ≤ max 1 maxInflight ∧
    (t.running.map fun p => p.2.held).sum ≤ max 1 maxInflight * MAX_BOOTSTRAP_CAPTURE_BYTES ∧
    es.countP (fun e => !e.isWork) ≤ 2 * peers.length ∧
    (t.outcome = none → ∃ i d a, t.running[i]? = some (d, a) ∧
      (((captureRules slower maxInflight).result a).isSome →
        (Race.step (captureRules slower maxInflight) t (.join i)).isSome)) ∧
    (t.outcome = some none → t.tried = peers ∧ t.failed.Perm peers) ∧
    (∀ d blob, t.outcome = some (some (d, blob)) → d ∈ t.tried ∧ blob <+: d.upstream ∧
      ∃ frames, completeFrameCount blob = some frames ∧
        completeBootstrapAtFrameBoundary blob.length frames = true ∧
        (hasLiveTail lz4 blob = true → Reloads lz4 blob)) := by
  have hinv := Race.inv_of_run hrun
  refine ⟨⟨_, hinv.order⟩, hinv.bound, ?_, ?_, hinv.goes_on, hinv.all_failed, ?_⟩
  · exact hinv.sum_running_le (fun p => p.2.held) _ fun p hp => fits_of_reached hp
  · have hturns := Race.turns_of_run hrun
    have hbegin := Race.turns_begin_le (captureRules slower maxInflight) peers
    rw [captureBootstrapRaced] at hturns
    omega
  · intro d blob hwon
    obtain ⟨-, htried, a, hreached, hresult⟩ := hinv.won d blob hwon
    obtain ⟨hfront, hcount, hcomplete⟩ := Fetch.whole_of_returned (inv_of_reached hreached) (result_eq_won hresult)
    exact ⟨htried, hfront, _, hcount, hcomplete, reloads_of_complete lz4 hcount hcomplete⟩

/-- The first candidate refuses, the second one takes its place. -/
theorem run_refused (d e : Dial) :
    Machine.Run (Race.step (captureRules (fun _ _ _ => false) 2)) (fun _ _ => True)
      (captureBootstrapRaced (fun _ _ _ => false) [d, e] 2) [.work 0 .fail, .join 0]
      { rest := [], running := [(e, { rest := e.upstream })], tried := [d, e], failed := [d] } :=
  Machine.Run.of_exec rfl

def refusing : Dial := ⟨"203.0.113.1", []⟩

def serving : Dial := ⟨"203.0.113.2", concat (stateFrame :: bulkAndTail)⟩

theorem capture_race_over_runs_serving :
    ∃ es t blob, Machine.Run (Race.step (captureRules (fun _ _ _ => false) 2)) (fun _ _ => True)
        (captureBootstrapRaced (fun _ _ _ => false) [refusing, serving] 2) es t ∧
      t.outcome = some (some (serving, blob)) ∧ blob <+: serving.upstream ∧
      hasLiveTail decompressSizePrepended blob = true ∧ Reloads decompressSizePrepended blob := by
  obtain ⟨a, ⟨es, hfetch⟩, hpc⟩ := Fetch.bootstrap_fetched stateFrame bulkAndTail (by decide)
    (by rw [length_bulkAndTail]; decide) complete_bulkAndTail
  have hserved := (run_refused refusing serving).trans (Race.run_work hfetch rfl rfl)
  have hreturned : (captureRules (fun _ _ _ => false) 2).result a = some (some serving.upstream) := by
    simp only [captureRules, hpc]
    rfl
  have hrun := hserved.snoc trivial (Race.step_join_won rfl rfl hreturned)
  obtain ⟨-, -, -, -, -, -, hwon⟩ := capture_race_over_runs decompressSizePrepended _ _ _ _ _ hrun
  obtain ⟨-, hfront, frames, -, -, hload⟩ := hwon _ _ rfl
  exact ⟨_, _, _, hrun, rfl, hfront, hasLiveTail_bulkAndTail, hload hasLiveTail_bulkAndTail⟩

end Hypersync.Gateway
