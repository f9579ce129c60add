import Hypersync.Lib.FanIn
import Hypersync.Lib.Indexed
import Hypersync.Lib.Machine
import Hypersync.Protocol.Frames
import Mathlib.Algebra.BigOperators.Group.List.Defs

/-!
# The readers of the upstream streams

Every upstream of a failover session has a task of its own that reads frames and sends
them to the event loop (`spawn_reader`).  All tasks share the loop's channel, which is
bounded in events; each task has a budget of bytes for the frames the loop has not
handled yet.  It takes its permit between the header and the payload of a frame, and the
permit goes with the frame until the loop has handled it.

A step of the machine is one await of one task, or the loop taking an event or being
done with it.  For every upstream the loop gets the frames of the stream, whole and in
order, and at most one `Closed` after them; no task waits for anything but its peer once
the loop has caught up.
-/

namespace Hypersync.Failover

open Protocol

/-! ## 1. The tasks and the loop -/

def EVENT_BYTES_PER_READER : Nat := 2 * MAX_LIVE_FRAME

/-- `mpsc::channel::<Event>(1024)`. -/
def EVENT_SLOTS : Nat := 1024

/-- What goes through the channel: a frame with what `classify` says of it, the end of a
    stream, or an event of the node's reader or a dial task. -/
inductive Message where
  | frame (frame : List UInt8) (block : Option (UInt32 × UInt32 × UInt64))
  | closed (reason : String)
  | other
deriving DecidableEq, Repr

/-- The bytes a message has a permit for. -/
def Message.permit : Message → Nat
  | .frame bytes _ => bytes.length
  | .closed _ => 0
  | .other => 0

/-- The await a reader task is at. -/
inductive ReaderPc where
  | header
  | acquiring (hdr : Header)
  | payload (hdr : Header)
  | sending (frame : List UInt8)
  | closing (reason : String)
  | ended
deriving DecidableEq, Repr

structure Reader where
  pc : ReaderPc := .header
  available : Nat := EVENT_BYTES_PER_READER
  /-- The bytes its reads have returned. -/
  taken : List UInt8 := []
deriving DecidableEq, Repr

/-- A `read_exact` under a timeout that does not succeed. -/
inductive ReadFault where
  | error (e : String)
  | elapsed
deriving DecidableEq, Repr

/-- The readers by id: `next_id` is their number.  Messages of the readers carry their id. -/
structure Readers where
  readers : List Reader := []
  channel : FanIn.Channel (Option Nat) Message := {}
deriving DecidableEq, Repr

inductive ReadersEvent where
  | spawn
  | header (id : Nat) (hdr : Header)
  | headerFault (id : Nat) (fault : ReadFault)
  | acquire (id : Nat)
  | payload (id : Nat) (bytes : List UInt8)
  | payloadFault (id : Nat) (fault : ReadFault)
  | send (id : Nat)
  | abort (id : Nat)
  | other
  | recv
  | handled

/-- Steps that need neither a peer nor another task. -/
def ReadersEvent.isOwn : ReadersEvent → Bool
  | .acquire _ => true
  | .send _ => true
  | .recv => true
  | .handled => true
  | _ => false

namespace ReaderPc

/-- The bytes the task itself holds a permit for. -/
def permit : ReaderPc → Nat
  | .payload hdr => 5 + hdr.len
  | .sending frame => frame.length
  | _ => 0

/-- What the task has read of the frame it is at; a task that leaves its loop forgets it. -/
def inHand : ReaderPc → Option (List UInt8)
  | .header => some []
  | .acquiring hdr => some hdr.bytes
  | .payload hdr => some hdr.bytes
  | .sending frame => some frame
  | .closing _ => none
  | .ended => none

end ReaderPc

namespace Reader

variable (r : Reader)

/-- The task leaves its loop or is dropped: its permit goes back. -/
def drop (pc : ReaderPc) : Reader := { r with pc := pc, available := r.available + r.pc.permit }

def onHeader (hdr : Header) : Option Reader :=
  match r.pc with
  | .header =>
    some { r with
      pc := if MAX_LIVE_FRAME < hdr.len then .closing ("oversized frame len=" ++ toString hdr.len) else .acquiring hdr
      taken := r.taken ++ hdr.bytes }
  | _ => none

def onHeaderFault (fault : ReadFault) : Option Reader :=
  match r.pc, fault with
  | .header, .error e => some (r.drop (.closing ("read error: " ++ e)))
  | .header, .elapsed => some (r.drop (.closing "idle 5s"))
  | _, _ => none

def acquire : Option Reader :=
  match r.pc with
  | .acquiring hdr =>
    if 5 + hdr.len ≤ r.available then
      some { r with pc := .payload hdr, available := r.available - (5 + hdr.len) }
    else none
  | _ => none

def onPayload (bytes : List UInt8) : Option Reader :=
  match r.pc with
  | .payload hdr =>
    if bytes.length = hdr.len then
      some { r with pc := .sending (hdr.bytes ++ bytes), taken := r.taken ++ bytes }
    else none
  | _ => none

def onPayloadFault (fault : ReadFault) : Option Reader :=
  match r.pc, fault with
  | .payload _, .error e => some (r.drop (.closing ("read error: " ++ e)))
  | .payload _, .elapsed => some (r.drop (.closing "idle (payload)"))
  | _, _ => none

end Reader

section Step

variable (lz4 : Lz4.Decoder) (hash : UInt8 → List UInt8 → UInt64)

/-- The event of a frame. -/
def frameMessage (frame : List UInt8) : Message := .frame frame (classify lz4 hash frame)

/-- What a task sends from where it is, and where it is then. -/
def Reader.outgoing (r : Reader) : Option (Message × Reader) :=
  match r.pc with
  | .sending frame => some (frameMessage lz4 hash frame, { r with pc := .header })
  | .closing reason => some (.closed reason, { r with pc := .ended })
  | _ => none

namespace Readers

variable (s : Readers)

/-- One task takes a step of its own. -/
def update (id : Nat) (f : Reader → Option Reader) : Option Readers :=
  (s.readers[id]?.bind f).map fun r => { s with readers := s.readers.set id r }

/-- The permit a handled message carried goes back to its reader's budget. -/
def release : Option Nat → Message → List Reader → List Reader
  | some id, m, readers => readers.modify id fun r => { r with available := r.available + m.permit }
  | none, _, readers => readers

def step : ReadersEvent → Option Readers
  | .spawn => some { s with readers := s.readers ++ [{}] }
  | .header id hdr => s.update id (·.onHeader hdr)
  | .headerFault id fault => s.update id (·.onHeaderFault fault)
  | .acquire id => s.update id Reader.acquire
  | .payload id bytes => s.update id (·.onPayload bytes)
  | .payloadFault id fault => s.update id (·.onPayloadFault fault)
  | .send id =>
    (s.readers[id]?.bind (Reader.outgoing lz4 hash)).bind fun out =>
      (s.channel.send EVENT_SLOTS (some id) out.1).map fun channel =>
        ⟨s.readers.set id out.2, channel⟩
  -- also a task that has ended can be aborted
  | .abort id => s.update id fun r => some (r.drop .ended)
  | .other => (s.channel.send EVENT_SLOTS none .other).map fun channel => { s with channel := channel }
  | .recv => s.channel.recv.map fun channel => { s with channel := channel }
  | .handled => s.channel.finish.map fun out => ⟨release out.1.1 out.1.2 s.readers, out.2⟩

end Readers

end Step

/-! ## 2. One task -/

section Task

variable {lz4 : Lz4.Decoder} {hash : UInt8 → List UInt8 → UInt64}

/-- The events of whole frames. -/
def frameMessages (lz4 : Lz4.Decoder) (hash : UInt8 → List UInt8 → UInt64) (fs : List Frame) :
    List Message :=
  fs.map fun f => frameMessage lz4 hash f.bytes

/-- What is in a task's hand is the front of a frame it may send. -/
def ReaderPc.Sound : ReaderPc → Prop
  | .acquiring hdr => hdr.len ≤ MAX_LIVE_FRAME
  | .payload hdr => hdr.len ≤ MAX_LIVE_FRAME
  | .sending frame => ∃ f : Frame, f.bytes = frame ∧ f.header.len ≤ MAX_LIVE_FRAME
  | _ => True

/-- The task has read `fs` and `part`, and `sent` are the events of `fs`, with the last one
    a task sends if it has ended. -/
structure Reader.Told (lz4 : Lz4.Decoder) (hash : UInt8 → List UInt8 → UInt64) (r : Reader)
    (sent : List Message) (fs : List Frame) (part : List UInt8) : Prop where
  taken : r.taken = concat fs ++ part
  small : ∀ f ∈ fs, f.header.len ≤ MAX_LIVE_FRAME
  hand : ∀ b, r.pc.inHand = some b → part = b
  sent : sent = frameMessages lz4 hash fs ∨
    r.pc = .ended ∧ ∃ reason, sent = frameMessages lz4 hash fs ++ [.closed reason]

/-- What holds of a task whose events so far are `all`, the ones not handled yet `todo`. -/
structure Reader.Inv (lz4 : Lz4.Decoder) (hash : UInt8 → List UInt8 → UInt64) (r : Reader)
    (all todo : List Message) : Prop where
  told : ∃ fs part, r.Told lz4 hash all fs part
  sound : r.pc.Sound
  balanced : r.available + r.pc.permit + (todo.map Message.permit).sum = EVENT_BYTES_PER_READER

namespace Reader

variable {r r' : Reader} {all todo : List Message}

theorem inv_new : Inv lz4 hash {} [] [] where
  told := ⟨[], [], rfl, fun _ h => absurd h List.not_mem_nil, fun _ h => Option.some.inj h, Or.inl rfl⟩
  sound := trivial
  balanced := rfl

/-- A task that is still in its loop has only sent frames. -/
theorem Told.sent_of_ne {fs : List Frame} {part : List UInt8} (h : r.Told lz4 hash all fs part) (hpc : r.pc ≠ .ended) :
    all = frameMessages lz4 hash fs := by
  rcases h.sent with hsent | ⟨hended, -⟩
  · exact hsent
  · exact absurd hended hpc

theorem Inv.onHeader {hdr : Header} (h : Inv lz4 hash r all todo) (hs : r.onHeader hdr = some r') :
    Inv lz4 hash r' all todo := by
  obtain ⟨⟨fs, part, htold⟩, -, hbal⟩ := h
  unfold Reader.onHeader at hs
  split at hs
  · rename_i hpc
    have hsent := htold.sent_of_ne (by rw [hpc]; exact ReaderPc.noConfusion)
    have hpart : part = [] := htold.hand [] (by rw [hpc]; rfl)
    have htaken : r.taken ++ hdr.bytes = concat fs ++ hdr.bytes := by
      rw [htold.taken, hpart, List.append_nil]
    rw [hpc] at hbal
    cases hs
    by_cases hlen : MAX_LIVE_FRAME < hdr.len
    · simp only [if_pos hlen]
      exact ⟨⟨fs, hdr.bytes, htaken, htold.small, (fun _ hb => by cases hb), Or.inl hsent⟩, trivial, hbal⟩
    · simp only [if_neg hlen]
      exact ⟨⟨fs, hdr.bytes, htaken, htold.small, fun _ hb => Option.some.inj hb, Or.inl hsent⟩,
        Nat.not_lt.mp hlen, hbal⟩
  · cases hs

/-- A task that leaves its loop or is dropped gives its permit back and sends nothing. -/
theorem Inv.drop {pc : ReaderPc} (h : Inv lz4 hash r all todo) (hhand : pc.inHand = none) (hsound : pc.Sound)
    (hpermit : pc.permit = 0) (hpc : r.pc = .ended → pc = .ended) : Inv lz4 hash (r.drop pc) all todo := by
  obtain ⟨⟨fs, part, htold⟩, -, hbal⟩ := h
  refine ⟨⟨fs, part, htold.taken, htold.small, ?_, ?_⟩, hsound, ?_⟩
  · intro b hb
    rw [Reader.drop, hhand] at hb
    cases hb
  · exact htold.sent.imp id fun hended => ⟨hpc hended.1, hended.2⟩
  · rw [← hbal]
    simp only [Reader.drop, hpermit, Nat.add_zero]

theorem Inv.onHeaderFault {fault : ReadFault} (h : Inv lz4 hash r all todo) (hs : r.onHeaderFault fault = some r') :
    Inv lz4 hash r' all todo := by
  unfold Reader.onHeaderFault at hs
  split at hs
  · rename_i e hpc
    cases hs
    exact h.drop rfl trivial rfl fun hended => by rw [hpc] at hended; cases hended
  · rename_i hpc
    cases hs
    exact h.drop rfl trivial rfl fun hended => by rw [hpc] at hended; cases hended
  · cases hs

theorem Inv.onPayloadFault {fault : ReadFault} (h : Inv lz4 hash r all todo) (hs : r.onPayloadFault fault = some r') :
    Inv lz4 hash r' all todo := by
  unfold Reader.onPayloadFault at hs
  split at hs
  · rename_i hdr e hpc
    cases hs
    exact h.drop rfl trivial rfl fun hended => by rw [hpc] at hended; cases hended
  · rename_i hdr hpc
    cases hs
    exact h.drop rfl trivial rfl fun hended => by rw [hpc] at hended; cases hended
  · cases hs

theorem Inv.acquire (h : Inv lz4 hash r all todo) (hs : r.acquire = some r') : Inv lz4 hash r' all todo := by
  obtain ⟨⟨fs, part, htold⟩, hsound, hbal⟩ := h
  unfold Reader.acquire at hs
  split at hs
  · rename_i hdr hpc
    split at hs <;> cases hs
    rename_i hle
    have hsent := htold.sent_of_ne (by rw [hpc]; exact ReaderPc.noConfusion)
    have hpart : part = hdr.bytes := htold.hand _ (by rw [hpc]; rfl)
    rw [hpc] at hsound hbal
    refine ⟨⟨fs, part, htold.taken, htold.small, ?_, Or.inl hsent⟩, hsound, ?_⟩
    · intro b hb
      exact hpart.trans (Option.some.inj hb)
    · simp only [ReaderPc.permit] at hbal ⊢
      omega
  · cases hs

theorem Inv.onPayload {bytes : List UInt8} (h : Inv lz4 hash r all todo) (hs : r.onPayload bytes = some r') :
    Inv lz4 hash r' all todo := by
  obtain ⟨⟨fs, part, htold⟩, hsound, hbal⟩ := h
  unfold Reader.onPayload at hs
  split at hs
  · rename_i hdr hpc
    split at hs <;> cases hs
    rename_i hlen
    have hsent := htold.sent_of_ne (by rw [hpc]; exact ReaderPc.noConfusion)
    have hpart : part = hdr.bytes := htold.hand _ (by rw [hpc]; rfl)
    rw [hpc] at hsound hbal
    have hbounded : hdr.len ≤ MAX_COUNTED_FRAME :=
      Nat.le_trans hsound (by decide)
    refine ⟨⟨fs, part ++ bytes, ?_, htold.small, ?_, Or.inl hsent⟩, ⟨⟨hdr, bytes, hlen, hbounded⟩, rfl, hsound⟩, ?_⟩
    · rw [← List.append_assoc, ← htold.taken]
    · intro b hb
      rw [hpart]
      exact Option.some.inj hb
    · simp only [ReaderPc.permit, List.length_append, Header.length_bytes, hlen] at hbal ⊢
      exact hbal
  · cases hs

/-- Sending passes the permit on to the event. -/
theorem Inv.outgoing {m : Message} (h : Inv lz4 hash r all todo) (hs : r.outgoing lz4 hash = some (m, r')) :
    Inv lz4 hash r' (all ++ [m]) (todo ++ [m]) := by
  obtain ⟨⟨fs, part, htold⟩, hsound, hbal⟩ := h
  have hsum : ((todo ++ [m]).map Message.permit).sum = (todo.map Message.permit).sum + m.permit := by
    rw [List.map_append, List.sum_append, List.map_singleton, List.sum_singleton]
  unfold Reader.outgoing at hs
  split at hs
  · rename_i frame hpc
    obtain ⟨rfl, rfl⟩ := Prod.mk.inj (Option.some.inj hs)
    have hsent := htold.sent_of_ne (by rw [hpc]; exact ReaderPc.noConfusion)
    have hpart : part = frame := htold.hand _ (by rw [hpc]; rfl)
    rw [hpc] at hsound hbal
    obtain ⟨f, rfl, hsmall⟩ := hsound
    refine ⟨⟨fs ++ [f], [], ?_, ?_, fun _ hb => Option.some.inj hb, Or.inl ?_⟩, trivial, ?_⟩
    · rw [concat_snoc, List.append_nil, ← hpart]
      exact htold.taken
    · intro g hg
      rcases List.mem_append.mp hg with hg | hg
      · exact htold.small g hg
      · rw [List.mem_singleton.mp hg]
        exact hsmall
    · rw [hsent, frameMessages, frameMessages, List.map_append, List.map_singleton]
    · rw [hsum]
      simp only [ReaderPc.permit, frameMessage, Message.permit] at hbal ⊢
      omega
  · rename_i reason hpc
    obtain ⟨rfl, rfl⟩ := Prod.mk.inj (Option.some.inj hs)
    have hsent := htold.sent_of_ne (by rw [hpc]; exact ReaderPc.noConfusion)
    rw [hpc] at hbal
    refine ⟨⟨fs, part, htold.taken, htold.small, (fun _ hb => by cases hb), Or.inr ⟨rfl, reason, ?_⟩⟩, trivial, ?_⟩
    · rw [hsent]
    · rw [hsum]
      exact hbal
  · cases hs

/-- A handled event gives its permit back. -/
theorem Inv.release {m : Message} (h : Inv lz4 hash r all (m :: todo)) :
    Inv lz4 hash { r with available := r.available + m.permit } all todo := by
  obtain ⟨⟨fs, part, htold⟩, hsound, hbal⟩ := h
  refine ⟨⟨fs, part, htold.taken, htold.small, htold.hand, htold.sent⟩, hsound, ?_⟩
  rw [List.map_cons, List.sum_cons] at hbal
  simp only
  omega

end Reader

end Task

/-! ## 3. All tasks and the loop -/

section Runs

variable {lz4 : Lz4.Decoder} {hash : UInt8 → List UInt8 → UInt64}

namespace Readers

variable {s t : Readers} {e : ReadersEvent}

structure Inv (lz4 : Lz4.Decoder) (hash : UInt8 → List UInt8 → UInt64) (s : Readers) : Prop where
  reader : Indexed.All (fun id r =>
    r.Inv lz4 hash (FanIn.of (some id) s.channel.all) (FanIn.of (some id) s.channel.open_)) s.readers
  /-- No event carries an id that has not been given out. -/
  fresh : ∀ {id : Nat}, s.readers.length ≤ id → FanIn.of (some id) s.channel.all = []
  placed : s.channel.queue.length ≤ EVENT_SLOTS

theorem inv_start : Inv lz4 hash {} where
  reader := Indexed.all_nil _
  fresh := fun _ => rfl
  placed := Nat.zero_le _

theorem update_eq_some {id : Nat} {f : Reader → Option Reader} (h : s.update id f = some t) :
    ∃ r r', s.readers[id]? = some r ∧ f r = some r' ∧ t = { s with readers := s.readers.set id r' } := by
  obtain ⟨r', hr', rfl⟩ := Option.map_eq_some_iff.mp h
  obtain ⟨r, hr, hf⟩ := Option.bind_eq_some_iff.mp hr'
  exact ⟨r, r', hr, hf, rfl⟩

/-- A step of one task that sends nothing concerns nobody else. -/
theorem Inv.update {id : Nat} {f : Reader → Option Reader} (h : Inv lz4 hash s)
    (hf : ∀ {r r' all todo}, f r = some r' → r.Inv lz4 hash all todo → r'.Inv lz4 hash all todo)
    (hs : s.update id f = some t) : Inv lz4 hash t := by
  obtain ⟨r, r', hr, hr', rfl⟩ := update_eq_some hs
  refine ⟨Indexed.all_set (fun _ _ _ hq => h.reader hq) (hf hr' (h.reader hr)), ?_, h.placed⟩
  intro k hk
  rw [List.length_set] at hk
  exact h.fresh hk

theorem Inv.spawn (h : Inv lz4 hash s) : Inv lz4 hash { s with readers := s.readers ++ [{}] } := by
  refine ⟨Indexed.All.snoc h.reader ?_, ?_, h.placed⟩
  · -- nothing of the new task is in the channel
    have hall := h.fresh (Nat.le_refl s.readers.length)
    have htodo : FanIn.of (some s.readers.length) s.channel.open_ = [] := by
      rw [FanIn.Channel.all, FanIn.of_append] at hall
      exact (List.append_eq_nil_iff.mp hall).2
    rw [hall, htodo]
    exact Reader.inv_new
  · intro k hk
    rw [List.length_append] at hk
    exact h.fresh (Nat.le_trans (Nat.le_add_right _ _) hk)

/-- An event sent under a key is not an event of another key. -/
theorem of_send_of_ne {c d : FanIn.Channel (Option Nat) Message} {key key' : Option Nat} {m : Message}
    (h : c.send EVENT_SLOTS key m = some d) (hne : key ≠ key') :
    FanIn.of key' d.all = FanIn.of key' c.all ∧ FanIn.of key' d.open_ = FanIn.of key' c.open_ := by
  rw [FanIn.all_of_send h, FanIn.open_of_send h, FanIn.of_append, FanIn.of_append, FanIn.of_singleton_of_ne hne,
    List.append_nil, List.append_nil]
  exact ⟨rfl, rfl⟩

theorem of_send_self {c d : FanIn.Channel (Option Nat) Message} {key : Option Nat} {m : Message}
    (h : c.send EVENT_SLOTS key m = some d) :
    FanIn.of key d.all = FanIn.of key c.all ++ [m] ∧ FanIn.of key d.open_ = FanIn.of key c.open_ ++ [m] := by
  rw [FanIn.all_of_send h, FanIn.open_of_send h, FanIn.of_append, FanIn.of_append, FanIn.of_singleton_self]
  exact ⟨rfl, rfl⟩

theorem Inv.send {id : Nat} {r r' : Reader} {m : Message} {d : FanIn.Channel (Option Nat) Message}
    (h : Inv lz4 hash s) (hr : s.readers[id]? = some r) (hout : r.outgoing lz4 hash = some (m, r'))
    (hd : s.channel.send EVENT_SLOTS (some id) m = some d) : Inv lz4 hash ⟨s.readers.set id r', d⟩ := by
  refine ⟨Indexed.all_set (fun k q hk hq => ?_) ?_, ?_, FanIn.length_of_send hd⟩
  · have hne : some id ≠ some k := fun heq => hk (Option.some.inj heq).symm
    rw [(of_send_of_ne hd hne).1, (of_send_of_ne hd hne).2]
    exact h.reader hq
  · rw [(of_send_self hd).1, (of_send_self hd).2]
    exact (h.reader hr).outgoing hout
  · intro k hk
    rw [List.length_set] at hk
    have hlt : id < s.readers.length := (List.getElem?_eq_some_iff.mp hr).1
    have hne : some id ≠ some k := fun heq => by
      rw [Option.some.inj heq] at hlt
      exact absurd hlt (Nat.not_lt.mpr hk)
    rw [(of_send_of_ne hd hne).1]
    exact h.fresh hk

theorem length_release (key : Option Nat) (m : Message) (readers : List Reader) :
    (release key m readers).length = readers.length := by
  cases key with
  | none => rfl
  | some id => exact List.length_modify ..

theorem Inv.handled {key : Option Nat} {m : Message} {d : FanIn.Channel (Option Nat) Message} (h : Inv lz4 hash s)
    (hd : s.channel.finish = some ((key, m), d)) : Inv lz4 hash ⟨release key m s.readers, d⟩ := by
  have hopen := FanIn.open_of_finish hd
  refine ⟨?_, ?_, ?_⟩
  · intro k q hq
    rw [FanIn.all_of_finish hd]
    by_cases hk : key = some k
    · -- the permit was this reader's
      subst hk
      obtain ⟨r, hr, rfl⟩ : ∃ r, s.readers[k]? = some r ∧ { r with available := r.available + m.permit } = q := by
        simpa only [release, List.getElem?_modify_eq, Option.map_eq_map, Option.map_eq_some_iff] using hq
      have hinv := h.reader hr
      rw [hopen, ← List.singleton_append, FanIn.of_append, FanIn.of_singleton_self] at hinv
      exact hinv.release
    · have hr : s.readers[k]? = some q := by
        cases key with
        | none => exact hq
        | some id =>
          rw [release, List.getElem?_modify_ne _ _ (fun heq => hk (congrArg some heq))] at hq
          exact hq
      have hinv := h.reader hr
      rw [hopen, ← List.singleton_append, FanIn.of_append, FanIn.of_singleton_of_ne hk, List.nil_append] at hinv
      exact hinv
  · intro k hk
    rw [length_release] at hk
    rw [FanIn.all_of_finish hd]
    exact h.fresh hk
  · obtain ⟨-, rfl⟩ := FanIn.finish_eq_some hd
    exact h.placed

theorem Inv.step (h : Inv lz4 hash s) (hs : s.step lz4 hash e = some t) : Inv lz4 hash t := by
  cases e with
  | spawn =>
    cases hs
    exact h.spawn
  | header id hdr => exact h.update (fun hf hinv => hinv.onHeader hf) hs
  | headerFault id fault => exact h.update (fun hf hinv => hinv.onHeaderFault hf) hs
  | acquire id => exact h.update (fun hf hinv => hinv.acquire hf) hs
  | payload id bytes => exact h.update (fun hf hinv => hinv.onPayload hf) hs
  | payloadFault id fault => exact h.update (fun hf hinv => hinv.onPayloadFault hf) hs
  | send id =>
    obtain ⟨⟨m, r'⟩, hout, hsend⟩ := Option.bind_eq_some_iff.mp hs
    obtain ⟨r, hr, hout⟩ := Option.bind_eq_some_iff.mp hout
    obtain ⟨d, hd, rfl⟩ := Option.map_eq_some_iff.mp hsend
    exact h.send hr hout hd
  | abort id =>
    refine h.update (fun hf hinv => ?_) hs
    cases hf
    exact hinv.drop rfl trivial rfl fun _ => rfl
  | other =>
    obtain ⟨d, hd, rfl⟩ := Option.map_eq_some_iff.mp hs
    have hne (k : Nat) : none ≠ some k := fun heq => by cases heq
    refine ⟨?_, ?_, FanIn.length_of_send hd⟩
    · intro k q hq
      rw [(of_send_of_ne hd (hne k)).1, (of_send_of_ne hd (hne k)).2]
      exact h.reader hq
    · intro k hk
      rw [(of_send_of_ne hd (hne k)).1]
      exact h.fresh hk
  | recv =>
    obtain ⟨d, hd, rfl⟩ := Option.map_eq_some_iff.mp hs
    refine ⟨?_, ?_, Nat.le_trans (FanIn.length_of_recv hd) h.placed⟩
    · intro k q hq
      rw [FanIn.all_of_recv hd, FanIn.open_of_recv hd]
      exact h.reader hq
    · intro k hk
      rw [FanIn.all_of_recv hd]
      exact h.fresh hk
  | handled =>
    obtain ⟨⟨⟨key, m⟩, d⟩, hd, rfl⟩ := Option.map_eq_some_iff.mp hs
    exact h.handled hd

end Readers

/-- **The event loop gets what the upstreams sent.**  Take any number of upstreams, read in any
    interleaving with the loop, and any reader of them.  The events the loop has had or will
    have of it are the frames its stream began with: whole, in order, none lost and none twice,
    none above the size limit, each classified as its bytes say.  At most one `Closed` comes
    after them, and nothing after that.  What the reader has read beyond these frames is in its
    hands while it is in its loop, and the frames not yet handled hold at most
    `EVENT_BYTES_PER_READER` bytes. -/
theorem readers_deliver_streams {ok : Readers → ReadersEvent → Prop} {es : List ReadersEvent} {t : Readers}
    (hrun : Machine.Run (Readers.step lz4 hash) ok {} es t) {id : Nat} {r : Reader} (hr : t.readers[id]? = some r) :
    (∃ fs part, r.taken = concat fs ++ part ∧
      (∀ f ∈ fs, f.header.len ≤ MAX_LIVE_FRAME) ∧
      (∀ b, r.pc.inHand = some b → part = b) ∧
      (FanIn.of (some id) t.channel.all = frameMessages lz4 hash fs ∨
        r.pc = .ended ∧ ∃ reason, FanIn.of (some id) t.channel.all =
          frameMessages lz4 hash fs ++ [.closed reason])) ∧
    ((FanIn.of (some id) t.channel.open_).map Message.permit).sum ≤ EVENT_BYTES_PER_READER := by
  have hinv := (hrun.invariant Readers.inv_start fun _ _ _ h _ hs => h.step hs).reader hr
  obtain ⟨fs, part, htold⟩ := hinv.told
  refine ⟨⟨fs, part, htold.taken, htold.small, htold.hand, htold.sent⟩, ?_⟩
  have hbal := hinv.balanced
  omega

/-- Two upstreams: the first sends a frame and closes, the second is in the middle of one. -/
theorem readers_deliver_streams_two :
    ∃ t : Readers, ∃ r : Reader,
      t.readers[0]? = some r ∧ r.taken = [0, 0, 0, 2, 0, 9, 9] ∧
      FanIn.of (some 0) t.channel.all = [.frame [0, 0, 0, 2, 0, 9, 9] none, .closed "idle 5s"] ∧
      ((FanIn.of (some 0) t.channel.open_).map Message.permit).sum ≤ EVENT_BYTES_PER_READER :=
  have hrun : Machine.Run (Readers.step (fun _ => none) (fun _ _ => 0)) (fun _ _ => True) {}
      [.spawn, .spawn, .header 0 ⟨0, 0, 0, 2, 0⟩, .header 1 ⟨0, 0, 0, 1, 0⟩, .acquire 0, .acquire 1,
        .payload 0 [9, 9], .send 0, .recv, .headerFault 0 .elapsed, .send 0]
      ⟨[⟨.ended, EVENT_BYTES_PER_READER - 7, [0, 0, 0, 2, 0, 9, 9]⟩,
          ⟨.payload ⟨0, 0, 0, 1, 0⟩, EVENT_BYTES_PER_READER - 6, [0, 0, 0, 1, 0]⟩],
        ⟨[(some 0, .closed "idle 5s")], some (some 0, .frame [0, 0, 0, 2, 0, 9, 9] none), []⟩⟩ :=
    Machine.Run.of_exec rfl
  ⟨_, _, rfl, rfl, rfl, (readers_deliver_streams hrun rfl).2⟩

/-- **A reader waits for its peer only.**  When the loop has nothing left to do and no task can
    go on by itself, every task that has not ended is at a read: none is left waiting for
    budget or for a place in the channel. -/
theorem readers_wait_for_peers {ok : Readers → ReadersEvent → Prop} {es : List ReadersEvent} {t : Readers}
    (hrun : Machine.Run (Readers.step lz4 hash) ok {} es t)
    (hstuck : ∀ e : ReadersEvent, e.isOwn = true → t.step lz4 hash e = none) {id : Nat} {r : Reader}
    (hr : t.readers[id]? = some r) :
    r.pc = .header ∨ (∃ hdr, r.pc = .payload hdr) ∨ r.pc = .ended := by
  have hinv := (hrun.invariant Readers.inv_start fun _ _ _ h _ hs => h.step hs).reader hr
  have hopen : t.channel.open_ = [] :=
    FanIn.open_eq_nil (Option.map_eq_none_iff.mp (hstuck .recv rfl)) (Option.map_eq_none_iff.mp (hstuck .handled rfl))
  have hqueue : t.channel.queue = [] := (List.append_eq_nil_iff.mp hopen).2
  have hsend : Reader.outgoing lz4 hash r = none := by
    rcases hout : Reader.outgoing lz4 hash r with _ | ⟨m, r'⟩
    · rfl
    · have hnone := hstuck (.send id) rfl
      simp only [Readers.step, hr, Option.bind_some, hout, Option.map_eq_none_iff] at hnone
      have hfull := FanIn.send_eq_none hnone
      rw [hqueue] at hfull
      exact absurd hfull (by decide)
  rcases hpc : r.pc with _ | hdr | hdr | frame | reason | _
  · exact Or.inl rfl
  · -- all of its permits are back, so the budget covers any frame it may send
    have hbal := hinv.balanced
    have hsmall := hinv.sound
    rw [hopen, hpc] at hbal
    rw [hpc] at hsmall
    have hfits : 5 + hdr.len ≤ r.available := by
      simp only [ReaderPc.permit, FanIn.of, List.filter_nil, List.map_nil, List.sum_nil, ReaderPc.Sound,
        EVENT_BYTES_PER_READER, MAX_LIVE_FRAME] at hbal hsmall
      omega
    have hnone := hstuck (.acquire id) rfl
    simp only [Readers.step, Readers.update, hr, Option.bind_some, Reader.acquire, hpc, if_pos hfits] at hnone
    cases hnone
  · exact Or.inr (Or.inl ⟨hdr, rfl⟩)
  · simp only [Reader.outgoing, hpc] at hsend
    cases hsend
  · simp only [Reader.outgoing, hpc] at hsend
    cases hsend
  · exact Or.inr (Or.inr rfl)

/-- A reader at its second frame, the first one handled. -/
theorem readers_wait_for_peers_second :
    ∃ t : Readers, ∃ r : Reader, t.readers = [r] ∧
      (∀ e : ReadersEvent, e.isOwn = true → t.step (fun _ => none) (fun _ _ => 0) e = none) ∧
      (r.pc = .header ∨ (∃ hdr, r.pc = .payload hdr) ∨ r.pc = .ended) := by
  have hrun : Machine.Run (Readers.step (fun _ => none) (fun _ _ => 0)) (fun _ _ => True) {}
      [.spawn, .header 0 ⟨0, 0, 0, 2, 0⟩, .acquire 0, .payload 0 [9, 9], .send 0, .recv,
        .header 0 ⟨0, 0, 0, 1, 0⟩, .handled, .acquire 0]
      ⟨[⟨.payload ⟨0, 0, 0, 1, 0⟩, EVENT_BYTES_PER_READER - 6, [0, 0, 0, 2, 0, 9, 9, 0, 0, 0, 1, 0]⟩],
        ⟨[], none, [(some 0, .frame [0, 0, 0, 2, 0, 9, 9] none)]⟩⟩ :=
    Machine.Run.of_exec rfl
  have hstuck : ∀ e : ReadersEvent, e.isOwn = true → Readers.step (fun _ => none) (fun _ _ => 0)
      ⟨[⟨.payload ⟨0, 0, 0, 1, 0⟩, EVENT_BYTES_PER_READER - 6, [0, 0, 0, 2, 0, 9, 9, 0, 0, 0, 1, 0]⟩],
        ⟨[], none, [(some 0, .frame [0, 0, 0, 2, 0, 9, 9] none)]⟩⟩ e = none := by
    intro e hown
    cases e with
    | acquire id => cases id <;> rfl
    | send id => cases id <;> rfl
    | recv => rfl
    | handled => rfl
    | _ => cases hown
  exact ⟨_, _, rfl, hstuck, @readers_wait_for_peers _ _ _ _ _ hrun hstuck 0 _ rfl⟩

end Runs

end Hypersync.Failover
