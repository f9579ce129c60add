import Hypersync.Push.Live

/-!
# Why a push session ended, and whose doing it was

`serve_push` and `serve_failover` end with a text.  Their callers look only at how the
text starts to tell an upstream that failed from a node that left and from the
session's own ends.  The texts carry what the system, the peer or the session's
counters had to say, so the question is whether any of that can move a text to the
wrong side.
-/

namespace Hypersync.Push

/-! ## 1. The ends -/

/-- Whose doing an end is; `nobody` for the session's own ends. -/
inductive Side where
  | node
  | upstream
  | nobody
deriving DecidableEq, Repr

/-- The ends of `serve_push` and `serve_failover`; `e` is what an error says. -/
inductive SessionEnd where
  -- before the session runs
  | nodeGreetingWrite (e : String)
  | nodeGreetingTimeout
  | activeGreetingRead (e : String)
  | activePeerFull
  | prefetchedFrame (e : String)
  -- both
  | nodeWrite (e : String)
  | nodeWriteTimeout
  | nodeOutboundEnded
  -- `serve_push`
  | superseded
  | blacklisted
  | returningToPriority (ip : String)
  | nodeCatchupStuck (secs behind : String)
  | stalledBehind (behind : UInt32)
  | nodeOutboundWrite (e : String)
  | nodeOutboundWriteTimeout
  | nodeOutboundJoin (e : String)
  | streamEnded
  | streamError (e : String)
  | activeJoin (e : String)
  | lagLoggerEnded
  | lagLoggerJoin (e : String)
  -- `serve_failover`
  | implausiblePrefetched (round : UInt32)
  | prefetchedJump (e : String)
  | nodeOutboundRead (e : String)
  | nodeWriterClosed
  | nodeWriterJoin (e : String)
  | eventChannelClosed
  | noStandby (reason : String)
deriving DecidableEq, Repr

namespace SessionEnd

def RETURNING_TO_PRIORITY : String := "returning to a priority peer"

def NODE_CATCHUP_STUCK : String := "node catch-up not converging"

/-- The fixed part in front, and what is put behind it. -/
def parts : SessionEnd → String × String
  | .nodeGreetingWrite e => ("node greeting write failed: ", e)
  | .nodeGreetingTimeout => ("node greeting write failed: timeout", "")
  | .activeGreetingRead e => ("active greeting read failed: ", e)
  | .activePeerFull => ("active peer full", "")
  | .prefetchedFrame e => ("prefetched frame processing failed: ", e)
  | .nodeWrite e => ("node write failed: ", e)
  | .nodeWriteTimeout => ("node write timeout", "")
  | .nodeOutboundEnded => ("node outbound ended", "")
  | .superseded => ("active superseded by failover", "")
  | .blacklisted => ("active peer blacklisted", "")
  | .returningToPriority ip => (RETURNING_TO_PRIORITY, s!" ({ip} is serving)")
  | .nodeCatchupStuck secs behind => (NODE_CATCHUP_STUCK, s!" (no progress for {secs}s, {behind} rounds behind)")
  | .stalledBehind behind => ("active peer stalled behind the freshest stream by ", s!"{behind} rounds")
  | .nodeOutboundWrite e => ("node outbound write failed: ", e)
  | .nodeOutboundWriteTimeout => ("node outbound write timeout", "")
  | .nodeOutboundJoin e => ("node outbound task join error: ", e)
  | .streamEnded => ("active stream ended", "")
  | .streamError e => ("active stream error: ", e)
  | .activeJoin e => ("active task join error: ", e)
  | .lagLoggerEnded => ("active lag logger ended", "")
  | .lagLoggerJoin e => ("active lag logger task join error: ", e)
  | .implausiblePrefetched round => ("implausible prefetched round ", s!"{round}")
  | .prefetchedJump e => ("prefetched ", e)
  | .nodeOutboundRead e => ("node outbound read failed: ", e)
  | .nodeWriterClosed => ("node writer closed", "")
  | .nodeWriterJoin e => ("node writer join error: ", e)
  | .eventChannelClosed => ("event channel closed", "")
  | .noStandby reason => ("active failed and no standby could continue the chain: ", reason)

/-- The text that is returned; `tail` is ` stats=[..]` or ` switches=..`, and empty before the
    session runs. -/
def text (r : SessionEnd) (tail : String) : String := r.parts.1 ++ r.parts.2 ++ tail

def side : SessionEnd → Side
  | .nodeGreetingWrite _ | .nodeGreetingTimeout | .nodeWrite _ | .nodeWriteTimeout | .nodeOutboundEnded
  | .nodeCatchupStuck _ _ | .nodeOutboundRead _ => .node
  -- the node's writer is a task of the session: closed where it met the node's end, or dead
  | .nodeWriterClosed => .node
  | .superseded | .returningToPriority _ | .nodeOutboundJoin _ | .activeJoin _ | .lagLoggerEnded
  | .lagLoggerJoin _ | .nodeWriterJoin _ | .eventChannelClosed => .nobody
  | .activeGreetingRead _ | .activePeerFull | .prefetchedFrame _ | .blacklisted | .stalledBehind _
  | .nodeOutboundWrite _ | .nodeOutboundWriteTimeout | .streamEnded | .streamError _
  | .implausiblePrefetched _ | .prefetchedJump _ | .noStandby _ => .upstream

end SessionEnd

/-! ## 2. Reading the text -/

/-- How the texts start that are not the upstream's fault. -/
def NOT_UPSTREAM : List String :=
  ["node outbound ended", "node outbound read failed", "node outbound task join error", "active task join error",
    "active lag logger", "event channel closed", "node write", "node greeting write", "active superseded",
    SessionEnd.RETURNING_TO_PRIORITY, SessionEnd.NODE_CATCHUP_STUCK]

def pushExitIsUpstreamFault (reason : String) : Bool :=
  !(NOT_UPSTREAM.any fun start => start.toList.isPrefixOf reason.toList)

/-- What comes behind does not matter, where the front settles it. -/
theorem isPrefixOf_append {α : Type*} [DecidableEq α] {p l : List α} (h : p.isPrefixOf l = true ∨ l.isPrefixOf p = false)
    (r : List α) : p.isPrefixOf (l ++ r) = p.isPrefixOf l := by
  rw [Bool.eq_iff_iff, List.isPrefixOf_iff_prefix, List.isPrefixOf_iff_prefix]
  constructor
  · intro hp
    rcases h with h | h
    · exact List.isPrefixOf_iff_prefix.mp h
    · refine (List.prefix_or_prefix_of_prefix hp (List.prefix_append l r)).resolve_right ?_
      rw [← List.isPrefixOf_iff_prefix, h]
      exact Bool.false_ne_true
  · intro hp
    exact hp.trans (List.prefix_append l r)

/-- A front that settles every comparison, and puts a text on its side. -/
def settles (starts : List (List Char)) (front : List Char) (side : Side) : Bool :=
  (starts.all fun start => start.isPrefixOf front || !front.isPrefixOf start) &&
    (!(starts.any fun start => start.isPrefixOf front)) == (side == .upstream)

theorem fault_of_settles {front : String} {side : Side}
    (h : settles (NOT_UPSTREAM.map String.toList) front.toList side = true) (rest : String) :
    pushExitIsUpstreamFault (front ++ rest) = true ↔ side = .upstream := by
  obtain ⟨hsettled, hside⟩ := Bool.and_eq_true_iff.mp h
  rw [List.all_map] at hsettled
  rw [List.any_map, beq_iff_eq] at hside
  have hstart : ∀ start ∈ NOT_UPSTREAM,
      start.toList.isPrefixOf (front ++ rest).toList = start.toList.isPrefixOf front.toList := by
    intro start hstart
    have hone := List.all_eq_true.mp hsettled start hstart
    rw [Function.comp_apply, Bool.or_eq_true, Bool.not_eq_true'] at hone
    rw [String.toList_append]
    exact isPrefixOf_append hone _
  have hfront : pushExitIsUpstreamFault (front ++ rest) = (side == .upstream) := by
    rw [← hside, pushExitIsUpstreamFault, Bool.not_eq_eq_eq_not, Bool.not_not, Bool.eq_iff_iff, List.any_eq_true,
      List.any_eq_true]
    exact exists_congr fun start => and_congr_right fun hmem => by rw [hstart start hmem, Function.comp_apply]
  rw [hfront, beq_iff_eq]

namespace SessionEnd

theorem settles_front (r : SessionEnd) :
    settles (NOT_UPSTREAM.map String.toList) r.parts.1.toList r.side = true := by
  -- the texts are spelled out first; what is left compares characters
  cases r <;>
    simp only [parts, side, NOT_UPSTREAM, RETURNING_TO_PRIORITY, NODE_CATCHUP_STUCK, List.map_cons, List.map_nil,
      String.reduceToList] <;>
    decide +kernel

/-- Whatever errors, addresses and counters say, a text is on its side. -/
theorem fault_iff (r : SessionEnd) (tail : String) :
    pushExitIsUpstreamFault (r.text tail) = true ↔ r.side = .upstream := by
  rw [text, String.append_assoc]
  exact fault_of_settles r.settles_front _

end SessionEnd

end Hypersync.Push
