import Hypersync.Gateway.Vetting
import Hypersync.Lib.Pipe

/-!
# The queue between a session and its node

The frames a session forwards wait in a queue that is bounded by their number and by
their bytes: a frame holds permits for its size from before it is queued until it has
been written to the node.  The queue is the bounded pipe of `Lib/Pipe.lean` whose items
are frames; the node's socket takes each frame in pieces of any size.  The pipe stops when
the loop of `serve_push` ends: because a write failed or took longer than
`NODE_WRITE_TIMEOUT`, or between two frames because of any of its other arms.

What the node reads is therefore a prefix of what the session queued, in every
schedule of the pump and the writer (`node_reads_queued_frames`); the queue drains as
long as the node reads and the session goes on (`node_queue_drains`); and `backed_up`
tells a pump held up by its node from one that waits for its peer
(`backedUp_tells_node_behind`).  The frames
that selection prefetched are queued before anything is written, and there is always
room for them (`vetted_frames_never_wait`).
-/

namespace Hypersync.Push

open Hypersync.Protocol Hypersync.Gateway

/-! ## 1. The queue -/

def PUSH_MERGE_QUEUE_FRAMES : Nat := 256

def NODE_QUEUE_BYTES : Nat := 67108864

def NODE_BACKLOG_EXEMPT_FRAMES : Nat := 32

def NODE_BACKLOG_EXEMPT_BYTES : Nat := 8388608

/-- The permits `queue_frame` takes: `frame.len().clamp(1, NODE_QUEUE_BYTES)`. -/
def framePermits (frame : List UInt8) : Nat := max 1 (min frame.length NODE_QUEUE_BYTES)

/-- `NodeQueue::new(frames)`. -/
def nodeQueue (frames : Nat) : Pipe.Limits UInt8 where
  budget := NODE_QUEUE_BYTES
  slots := frames
  cost := framePermits

/-- The queue of one session, with its sender and its writer. -/
abbrev NodeQueue := Pipe.State UInt8

namespace NodeQueue

def backlog (q : NodeQueue) : Nat := q.queue.length

def backedUp (q : NodeQueue) : Bool :=
  NODE_BACKLOG_EXEMPT_FRAMES < q.backlog ∨ NODE_BACKLOG_EXEMPT_BYTES < NODE_QUEUE_BYTES - q.available

end NodeQueue

theorem framePermits_le (frame : List UInt8) : framePermits frame ≤ NODE_QUEUE_BYTES := by
  unfold framePermits NODE_QUEUE_BYTES
  omega

theorem length_le_framePermits {frame : List UInt8} (h : frame.length ≤ 5 + MAX_LIVE_FRAME) :
    frame.length ≤ framePermits frame := by
  unfold framePermits NODE_QUEUE_BYTES
  unfold MAX_LIVE_FRAME at h
  omega

theorem framePermits_le_frame {frame : List UInt8} (h : frame.length ≤ 5 + MAX_LIVE_FRAME) :
    framePermits frame ≤ 5 + MAX_LIVE_FRAME := by
  unfold framePermits
  unfold MAX_LIVE_FRAME at h ⊢
  omega

/-! ## 2. The frames of a session -/

section
variable {lz4 : Lz4.Decoder} {guard : Option LagGuard} {envs : Nat → FrameEnv}

theorem length_of_readFrame {env : FrameEnv} {input hdr payload rest : List UInt8} {typ : UInt8}
    (h : readFrame env input = .ok (hdr, typ, payload, rest)) : (hdr ++ payload).length ≤ 5 + MAX_LIVE_FRAME := by
  unfold readFrame at h
  split at h
  · split at h
    · cases h
    simp only at h
    split at h
    · cases h
    rename_i hlen
    split at h
    · cases h
    split at h <;> cases h
    rw [List.length_append, List.length_take]
    simp only [List.length_cons, List.length_nil]
    omega
  · split at h
    · cases h
    · cases h

theorem length_of_mem_pumpMerge {fuel : Nat} : ∀ {i : Nat} {p : BlockProgress} {s : Session} {input : List UInt8},
    ∀ e ∈ (pumpMerge lz4 guard envs fuel i p s input).1, e.frame.length ≤ 5 + MAX_LIVE_FRAME := by
  induction fuel with
  | zero =>
    intro i p s input e he
    cases he
  | succ fuel ih =>
    intro i p s input e he
    simp only [pumpMerge] at he
    generalize (if (envs i).backedUpBefore = true then p.hold (envs i).holdAt else p) = q at he
    split at he
    · cases he
    split at he
    · cases he
    rename_i hdr typ payload rest hread
    split at he
    · cases he
    · rcases List.mem_cons.mp he with rfl | he
      · exact length_of_readFrame hread
      · exact ih e he

/-- The frames a session took from the prefetched ones. -/
theorem prefetched_isPrefix (initial : UInt32) (frames : List (List UInt8)) :
    (prefetched lz4 envs 0 (Session.start initial) frames).1.map Entry.frame <+: frames :=
  (prefetched_spec lz4 envs frames 0 initial _
    ⟨RoundForwardGate.gateInv_withLastForwarded 16384 initial, rfl⟩).1

/-- No frame a session queues is longer than a live frame can be. -/
theorem length_of_mem_queuedFrames {startAt : Nat} {initial : UInt32} {frames : List (List UInt8)}
    {live : List UInt8} (hframes : ∀ f ∈ frames, f.length ≤ 5 + MAX_LIVE_FRAME) :
    ∀ f ∈ queuedFrames (servePush lz4 guard envs startAt initial frames live).1, f.length ≤ 5 + MAX_LIVE_FRAME := by
  intro f hf
  obtain ⟨e, he, rfl⟩ := List.mem_map.mp hf
  have he := (List.mem_filter.mp he).1
  have hpre : ∀ e ∈ (prefetched lz4 envs 0 (Session.start initial) frames).1, e.frame.length ≤ 5 + MAX_LIVE_FRAME :=
    fun e he => hframes _ ((prefetched_isPrefix initial frames).subset (List.mem_map_of_mem he))
  unfold servePush at he
  split at he
  · rename_i entries c hout
    rw [hout] at hpre
    exact hpre e he
  · rename_i entries s hout
    rw [hout] at hpre
    rcases List.mem_append.mp he with he | he
    · exact hpre e he
    · exact length_of_mem_pumpMerge e he

end

/-! ## 3. What the node reads -/

/-- **What reaches the node.**  Whatever the schedule of the session and its writer, however
    the node's socket takes the bytes and whenever the session ends: behind the greeting the node has read the
    frames the session queued, in their order from the first one on, whole but for the
    last one; no more than `slots` frames are in the queue; and the frames in the queue,
    in the writer's hand and about to be queued have no more than `NODE_QUEUE_BYTES`. -/
theorem node_reads_queued_frames (lz4 : Lz4.Decoder) (guard : Option LagGuard)
    (envs : Nat → FrameEnv) (startAt : Nat) (initial : UInt32) (frames : List (List UInt8)) (live : List UInt8)
    (hframes : ∀ f ∈ frames, f.length ≤ 5 + MAX_LIVE_FRAME) (slots : Nat) (es : List (Pipe.Event UInt8))
    (t : NodeQueue)
    (hrun : Machine.Run (Pipe.step (nodeQueue slots))
      (Pipe.Follows (queuedFrames (servePush lz4 guard envs startAt initial frames live).1))
      (Pipe.State.start (nodeQueue slots)) es t) :
    let queued := queuedFrames (servePush lz4 guard envs startAt initial frames live).1
    (t.done ++ t.inHand ++ t.queue ++ t.sender.unsent <+: queued ∧
      ∃ part, t.out = t.done.flatten ++ part ∧ part <+: t.inHand.flatten) ∧
    t.queue.length ≤ slots ∧
    (t.held.map List.length).sum ≤ NODE_QUEUE_BYTES := by
  intro queued
  have hinv := Pipe.inv_of_run hrun
  have hsent := Pipe.sent_isPrefix hrun
  refine ⟨⟨?_, hinv.exists_part⟩, hinv.placed, ?_⟩
  · have hordered := hinv.ordered
    simp only [Pipe.State.onTheWay, ← List.append_assoc] at hordered
    rw [hordered]
    exact hsent
  · apply hinv.held_le
    intro f hf
    exact length_le_framePermits (length_of_mem_queuedFrames hframes f (hsent.subset hf))

/-- What the session of `raisedFloor` queues first. -/
def queuedFirst : List (List UInt8) := [[0, 0, 0, 1, 0, 7], blockFrame 1000000100]

theorem queuedFirst_isPrefix :
    queuedFirst <+: queuedFrames (servePush decompressSizePrepended none raisedFloor 0 1000000000 firstFrames
      laterFrames.flatten).1 := by
  decide +kernel

/-- Half of the first of two frames is written, the second one has its permits. -/
def halfWritten : NodeQueue where
  sender := .granted (blockFrame 1000000100)
  writing := some ([0, 0, 0, 1, 0, 7], [1, 0, 7])
  available := 67108824
  sent := queuedFirst
  out := [0, 0, 0]

/-- The steps that lead there. -/
def halfWay : List (Pipe.Event UInt8) :=
  [.send [0, 0, 0, 1, 0, 7], .acquire, .enqueue, .send (blockFrame 1000000100), .receive, .write 2, .acquire, .write 1]

theorem node_reads_queued_frames_halfWritten :
    (halfWritten.done ++ halfWritten.inHand ++ halfWritten.queue ++ halfWritten.sender.unsent = queuedFirst ∧
      ∃ part, halfWritten.out = halfWritten.done.flatten ++ part ∧ part <+: halfWritten.inHand.flatten) ∧
      halfWritten.queue.length ≤ PUSH_MERGE_QUEUE_FRAMES ∧
      (halfWritten.held.map List.length).sum ≤ NODE_QUEUE_BYTES := by
  have hrun : Machine.Run (Pipe.step (nodeQueue PUSH_MERGE_QUEUE_FRAMES)) (Pipe.Follows queuedFirst)
      (Pipe.State.start (nodeQueue PUSH_MERGE_QUEUE_FRAMES)) halfWay halfWritten := Machine.Run.of_exec rfl
  obtain ⟨⟨-, hpart⟩, hplaced, hheld⟩ := node_reads_queued_frames decompressSizePrepended none raisedFloor 0
    1000000000 firstFrames laterFrames.flatten (by decide) PUSH_MERGE_QUEUE_FRAMES halfWay halfWritten
    (hrun.mono fun _ _ h => h.mono queuedFirst_isPrefix)
  exact ⟨⟨rfl, hpart⟩, hplaced, hheld⟩

/-- **The queue drains.**  However the node held it up so far: once the session queues
    nothing more, there are at most so many steps until nothing can happen but its end, and
    if it has not ended by then the node has read everything.  No frame is too large to get
    through. -/
theorem node_queue_drains (slots : Nat) (hslots : 0 < slots) (es : List (Pipe.Event UInt8)) (t : NodeQueue)
    (hrun : Machine.Run (Pipe.step (nodeQueue slots)) (fun _ _ => True) (Pipe.State.start (nodeQueue slots)) es t)
    (es' : List (Pipe.Event UInt8)) (u : NodeQueue)
    (hown : Machine.Run (Pipe.step (nodeQueue slots)) (fun _ e => e.isSend = false) t es' u) :
    es'.length ≤ t.work ∧
    (u.stopped = false →
      (∀ e : Pipe.Event UInt8, e.isSend = false → e ≠ .stop → Pipe.step (nodeQueue slots) u e = none) →
      u.out = t.sent.flatten) := by
  refine ⟨Nat.le_of_add_right_le (Pipe.length_le_work hown), ?_⟩
  intro hgoing hstuck
  have hinv := Pipe.inv_of_run (hrun.trans (hown.mono fun _ _ _ => trivial))
  rw [← Pipe.sent_eq_of_run hown]
  exact (Pipe.drained_of_stuck hinv hgoing hslots (fun f _ => framePermits_le f) hstuck).2

/-- The steps from there to the end. -/
def otherHalf : List (Pipe.Event UInt8) := [.write 3, .finish, .enqueue, .receive, .write 30, .write 4, .finish]

def allWritten : NodeQueue where
  available := NODE_QUEUE_BYTES
  sent := queuedFirst
  done := queuedFirst
  out := queuedFirst.flatten

theorem node_queue_drains_halfWritten :
    otherHalf.length ≤ halfWritten.work ∧ allWritten.out = halfWritten.sent.flatten := by
  have hrun : Machine.Run (Pipe.step (nodeQueue PUSH_MERGE_QUEUE_FRAMES)) (fun _ _ => True)
      (Pipe.State.start (nodeQueue PUSH_MERGE_QUEUE_FRAMES)) halfWay halfWritten := Machine.Run.of_exec rfl
  have hown : Machine.Run (Pipe.step (nodeQueue PUSH_MERGE_QUEUE_FRAMES)) (fun _ e => e.isSend = false) halfWritten
      otherHalf allWritten := Machine.Run.of_exec rfl
  obtain ⟨hfew, hdrained⟩ :=
    node_queue_drains PUSH_MERGE_QUEUE_FRAMES (by decide) halfWay halfWritten hrun otherHalf allWritten hown
  refine ⟨hfew, hdrained rfl ?_⟩
  intro e hown hon
  cases e with
  | send x => cases hown
  | stop => exact absurd rfl hon
  | _ => rfl

/-- **Who is behind.**  While no frame is longer than a live frame can be: a pump that
    cannot go on with its frame finds its queue backed up, and a queue that is backed up
    has frames the node has not read. -/
theorem backedUp_tells_node_behind (es : List (Pipe.Event UInt8)) (t : NodeQueue)
    (hrun : Machine.Run (Pipe.step (nodeQueue PUSH_MERGE_QUEUE_FRAMES)) (fun _ _ => True)
      (Pipe.State.start (nodeQueue PUSH_MERGE_QUEUE_FRAMES)) es t)
    (hframes : ∀ f ∈ t.sent, f.length ≤ 5 + MAX_LIVE_FRAME) :
    (Pipe.Blocked (nodeQueue PUSH_MERGE_QUEUE_FRAMES) t → NodeQueue.backedUp t = true) ∧
    (NodeQueue.backedUp t = true → t.inHand ++ t.queue ≠ []) := by
  have hinv := Pipe.inv_of_run hrun
  have hpending : ∀ f ∈ t.sender.unsent, framePermits f ≤ 5 + MAX_LIVE_FRAME := by
    intro f hf
    apply framePermits_le_frame (hframes f _)
    rw [← hinv.ordered, Pipe.State.onTheWay]
    exact List.mem_append_right _ (List.mem_append_right _ hf)
  constructor
  · intro hblocked
    unfold NodeQueue.backedUp
    rw [decide_eq_true_iff]
    rcases hs : t.sender with _ | f | f
    · simp only [Pipe.Blocked, hs] at hblocked
    · -- no permits for the frame: all but a live frame's worth are taken
      have hle := hpending f (by simp [hs, Pipe.Sender.unsent])
      simp only [Pipe.Blocked, hs, nodeQueue] at hblocked
      right
      unfold NODE_BACKLOG_EXEMPT_BYTES NODE_QUEUE_BYTES
      unfold MAX_LIVE_FRAME at hle
      omega
    · simp only [Pipe.Blocked, hs, nodeQueue] at hblocked
      left
      exact Nat.lt_of_lt_of_le (by decide) hblocked
  · intro hbacked hnone
    obtain ⟨hhand, hqueue⟩ := List.append_eq_nil_iff.mp hnone
    unfold NodeQueue.backedUp at hbacked
    rw [decide_eq_true_iff, NodeQueue.backlog, hqueue] at hbacked
    rcases hbacked with hlong | htaken
    · exact absurd hlong (Nat.not_lt_zero _)
    · -- only the frame about to be queued can hold permits, and it has not so many
      have hbal := hinv.balanced
      simp only [Pipe.State.held, hhand, hqueue, List.nil_append, nodeQueue] at hbal
      have hheld : (t.sender.held.map framePermits).sum ≤ 5 + MAX_LIVE_FRAME := by
        rcases hs : t.sender with _ | f | f
        · exact Nat.zero_le _
        · exact Nat.zero_le _
        · have hle := hpending f (by simp [hs, Pipe.Sender.unsent])
          simpa [Pipe.Sender.held] using hle
      unfold NODE_BACKLOG_EXEMPT_BYTES at htaken
      unfold MAX_LIVE_FRAME at hheld
      omega

/-- Thirty-three frames of a node that reads nothing. -/
def unreadFrames : List (List UInt8) := List.replicate 33 [0, 0, 0, 0, 0]

set_option maxRecDepth 2000 in
theorem backedUp_tells_node_behind_unreadFrames :
    let t : NodeQueue := { queue := unreadFrames, available := 67108699, sent := unreadFrames }
    NodeQueue.backedUp t = true ∧ t.inHand ++ t.queue ≠ [] := by
  intro t
  have hrun : Machine.Run (Pipe.step (nodeQueue PUSH_MERGE_QUEUE_FRAMES)) (fun _ _ => True)
      (Pipe.State.start (nodeQueue PUSH_MERGE_QUEUE_FRAMES))
      (List.replicate 33 [Pipe.Event.send [0, 0, 0, 0, 0], .acquire, .enqueue]).flatten t := Machine.Run.of_exec rfl
  refine ⟨by decide, (backedUp_tells_node_behind _ t hrun ?_).2 (by decide)⟩
  intro f hf
  rw [List.eq_of_mem_replicate hf]
  decide

/-! ## 4. The frames that selection prefetched -/

section
variable {lz4 : Lz4.Decoder}

theorem length_of_readLive {env : VetEnv} {maxLen : Nat} {input frame rest : List UInt8}
    (h : readLiveFrameWithTimeout env maxLen input = .ok (frame, rest)) : 5 ≤ frame.length ∧ frame.length ≤ 5 + maxLen := by
  unfold readLiveFrameWithTimeout at h
  split at h
  · split at h
    · cases h
    simp only at h
    split at h
    · cases h
    rename_i hlen
    split at h
    · cases h
    split at h <;> cases h
    simp only [List.length_cons, List.length_take]
    omega
  · cases h

/-- Vetting keeps so many frames, of so many bytes, and the block behind them. -/
theorem vetLoop_bounded {minRoundExclusive netTip : UInt32} {envs : Nat → VetEnv} {fuel : Nat} :
    ∀ {i : Nat} {kept frames : List (List UInt8)} {input stream : List UInt8} {round : UInt32},
    kept.length ≤ VET_KEEP_MAX_FRAMES → kept.flatten.length ≤ VET_KEEP_MAX_BYTES →
    (∀ f ∈ kept, 5 ≤ f.length ∧ f.length ≤ 5 + MAX_LIVE_FRAME) →
    vetLoop lz4 minRoundExclusive netTip envs fuel i kept kept.flatten.length input = .ok (stream, frames, round) →
    frames.length ≤ VET_KEEP_MAX_FRAMES + 1 ∧ frames.flatten.length ≤ VET_KEEP_MAX_BYTES + (5 + MAX_LIVE_FRAME) ∧
      ∀ f ∈ frames, 5 ≤ f.length ∧ f.length ≤ 5 + MAX_LIVE_FRAME := by
  induction fuel with
  | zero =>
    intro i kept frames input stream round _ _ _ h
    cases h
  | succ fuel ih =>
    intro i kept frames input stream round hcount hbytes hkept h
    rw [vetLoop] at h
    split at h
    · cases h
    split at h
    · cases h
    rename_i frame rest hread
    have hframe := length_of_readLive hread
    -- the kept frames with this one behind them
    have hflat : (kept ++ [frame]).flatten.length = kept.flatten.length + frame.length := by
      rw [List.flatten_append, List.length_append, List.flatten_singleton]
    have hall : ∀ f ∈ kept ++ [frame], 5 ≤ f.length ∧ f.length ≤ 5 + MAX_LIVE_FRAME := by
      intro f hf
      rcases List.mem_append.mp hf with hf | hf
      · exact hkept f hf
      · rw [List.mem_singleton.mp hf]
        exact hframe
    have hlen : (kept ++ [frame]).length = kept.length + 1 := List.length_append
    split at h
    · split at h
      · rename_i hroom
        rw [← hflat] at h
        exact ih (by rw [hlen]; exact hroom.1) (by rw [hflat]; exact hroom.2) hall h
      · exact ih hcount hbytes hkept h
    · split at h
      · exact ih hcount hbytes hkept h
      split at h
      · cases h
      split at h
      · cases h
      · simp only [Except.ok.injEq, Prod.mk.injEq] at h
        obtain ⟨-, rfl, -⟩ := h
        exact ⟨by rw [hlen]; omega, by rw [hflat]; omega, hall⟩

theorem openLivePeerSession_bounded {io : VetIo} {ip : String} {greet input : List UInt8}
    {minRoundExclusive netTip : UInt32} {live : LivePeerSession}
    (h : openLivePeerSessionWithGreet lz4 io ip greet minRoundExclusive netTip input = .ok live) :
    live.prefetchedFrames.length ≤ VET_KEEP_MAX_FRAMES + 1 ∧
      live.prefetchedFrames.flatten.length ≤ VET_KEEP_MAX_BYTES + (5 + MAX_LIVE_FRAME) ∧
      ∀ f ∈ live.prefetchedFrames, 5 ≤ f.length ∧ f.length ≤ 5 + MAX_LIVE_FRAME := by
  unfold openLivePeerSessionWithGreet at h
  split at h
  · cases h
  split at h <;> cases h
  rename_i hloop
  exact vetLoop_bounded (Nat.zero_le _) (Nat.zero_le _) (fun f hf => absurd hf List.not_mem_nil) hloop

/-- Frames that are not empty cost their bytes. -/
theorem sum_framePermits_le {frames : List (List UInt8)} (h : ∀ f ∈ frames, 5 ≤ f.length) :
    (frames.map framePermits).sum ≤ frames.flatten.length := by
  rw [List.length_flatten]
  apply List.sum_le_sum
  intro f hf
  have hpos := h f hf
  unfold framePermits
  omega

end

/-- **Room for what selection prefetched.**  A session queues the frames of the vetted
    peer before its writer takes the first one.  Whatever of them it forwards, it never
    has to wait: neither for permits nor for a place in the queue. -/
theorem vetted_frames_never_wait (lz4 : Lz4.Decoder) (io : VetIo) (ip : String)
    (greet input : List UInt8) (minRoundExclusive netTip : UInt32) (live : LivePeerSession)
    (hopen : openLivePeerSessionWithGreet lz4 io ip greet minRoundExclusive netTip input = .ok live)
    (envs : Nat → FrameEnv) (initial : UInt32) (es : List (Pipe.Event UInt8)) (t : NodeQueue)
    (hrun : Machine.Run (Pipe.step (nodeQueue PUSH_MERGE_QUEUE_FRAMES))
      (Pipe.Follows (queuedFrames (prefetched lz4 envs 0 (Session.start initial) live.prefetchedFrames).1))
      (Pipe.State.start (nodeQueue PUSH_MERGE_QUEUE_FRAMES)) es t) :
    ¬ Pipe.Blocked (nodeQueue PUSH_MERGE_QUEUE_FRAMES) t := by
  have hinv := Pipe.inv_of_run hrun
  obtain ⟨hcount, hbytes, hsized⟩ := openLivePeerSession_bounded hopen
  have hsent : t.sent.Sublist live.prefetchedFrames :=
    (Pipe.sent_isPrefix hrun).sublist.trans
      ((List.filter_sublist.map Entry.frame).trans (prefetched_isPrefix initial _).sublist)
  have hway : t.onTheWay.Sublist live.prefetchedFrames := by
    refine List.Sublist.trans ?_ hsent
    rw [← hinv.ordered]
    exact List.sublist_append_right _ _
  -- so all of it together costs less than the budget, and is fewer frames than the queue holds
  have hcost : (t.onTheWay.map framePermits).sum ≤ VET_KEEP_MAX_BYTES + (5 + MAX_LIVE_FRAME) :=
    calc (t.onTheWay.map framePermits).sum
        ≤ (live.prefetchedFrames.map framePermits).sum :=
          (hway.map framePermits).sum_le_sum fun _ _ => Nat.zero_le _
      _ ≤ live.prefetchedFrames.flatten.length := sum_framePermits_le fun f hf => (hsized f hf).1
      _ ≤ VET_KEEP_MAX_BYTES + (5 + MAX_LIVE_FRAME) := hbytes
  have hfew := hway.length_le
  have hbal := hinv.balanced
  unfold VET_KEEP_MAX_BYTES MAX_LIVE_FRAME at hcost
  unfold VET_KEEP_MAX_FRAMES at hcount
  rcases hs : t.sender with _ | f | f
  · simp only [Pipe.Blocked, hs, not_false_eq_true]
  · simp only [Pipe.State.onTheWay, hs, Pipe.Sender.unsent, List.map_append, List.sum_append, List.map_cons,
      List.map_nil, List.sum_cons, List.sum_nil] at hcost
    simp only [Pipe.State.held, hs, Pipe.Sender.held, nodeQueue, List.append_nil, List.map_append, List.sum_append,
      NODE_QUEUE_BYTES] at hbal
    simp only [Pipe.Blocked, hs, nodeQueue]
    omega
  · simp only [Pipe.State.onTheWay, hs, Pipe.Sender.unsent, List.length_append, List.length_singleton] at hfew
    simp only [Pipe.Blocked, hs, nodeQueue, PUSH_MERGE_QUEUE_FRAMES]
    omega

/-- Both of the frames the far peer's session starts with are forwarded. -/
theorem queuedFrames_farSession :
    queuedFrames (prefetched decompressSizePrepended (fun _ => { netTip := 1000020001, liveFloor := 1000000001 }) 0
      (Session.start 1000000001) farSession.prefetchedFrames).1 = farSession.prefetchedFrames := by
  decide +kernel

theorem vetted_frames_never_wait_farStream :
    ¬ Pipe.Blocked (nodeQueue PUSH_MERGE_QUEUE_FRAMES)
        { sender := .waiting farBlock, queue := [[0, 0, 0, 1, 0, 7]], available := 67108858,
          sent := farSession.prefetchedFrames } ∧
      ¬ Pipe.Blocked (nodeQueue PUSH_MERGE_QUEUE_FRAMES)
        { sender := .granted farBlock, queue := [[0, 0, 0, 1, 0, 7]], available := 67108824,
          sent := farSession.prefetchedFrames } := by
  have hwaits := vetted_frames_never_wait decompressSizePrepended {} "192.0.2.7" [0, 0, 0, 0, 0, 0, 0, 0] farStream
    1000000001 1000020001 farSession (open_farStream (Or.inr rfl))
    (fun _ => { netTip := 1000020001, liveFloor := 1000000001 }) 1000000001
  rw [queuedFrames_farSession] at hwaits
  exact ⟨hwaits [.send [0, 0, 0, 1, 0, 7], .acquire, .enqueue, .send farBlock] _ (Machine.Run.of_exec rfl),
    hwaits [.send [0, 0, 0, 1, 0, 7], .acquire, .enqueue, .send farBlock, .acquire] _ (Machine.Run.of_exec rfl)⟩

end Hypersync.Push
