import Hypersync.Lib.Machine
import Hypersync.Lib.Versioned
import Mathlib.Data.Fin.Basic
import Mathlib.Order.BooleanAlgebra.Set

/-!
# The failover proxy: sessions follow the active upstream

`ProxyState` is shared by every connection task and by the stall monitor, and none
of its atomics is ever held: `fail_over` stores the cooldown, loads `active`, loads
one cooldown after the other, stores `active`, bumps `generation` and notes the time,
and anything may happen between any two of these.  A connection loads `generation`,
then `active`, and dials.  Here every load and store is a step of its own, taken in
one order, with any number of calls and connections under way (`Event`, `step`).

`active` under `generation` is a value published under a version, so a session whose
generation is current is on the active upstream as soon as no switch is half done,
and any other session ends when it next looks.

`generation` is a 64-bit count of switches; it is taken not to wrap around.
-/

namespace Hypersync.Push.Proxy

def COOLDOWN_MS : Nat := 30000

variable {n : Nat}

/-- The atomics of `ProxyState`; `hosts` has `n` entries and never changes. -/
structure ProxyState (n : Nat) where
  active : Fin n
  generation : Nat
  badUntil : Fin n → Nat
  lastDataMs : Nat

/-! ## 1. `fail_over`, one load or store at a time -/

/-- What a call of `fail_over` does next. -/
inductive FailOver (n : Nat)
  /-- `bad_until[idx].store(now + COOLDOWN_MS)` -/
  | cool (idx : Fin n) (now : Nat)
  /-- `active.load() != idx` -/
  | compare (idx : Fin n) (now : Nat)
  /-- `pick_next`, about to load `bad_until[(idx + off) % n]` -/
  | pick (idx : Fin n) (now off : Nat)
  /-- `active.store(j)` -/
  | store (now : Nat) (j : Fin n)
  /-- `generation.fetch_add(1)` -/
  | bump (now : Nat)
  /-- `last_data_ms.store(now)` -/
  | note (now : Nat)

/-- The `off`-th upstream after `cur`. -/
def after (cur : Fin n) (off : Nat) : Fin n :=
  ⟨(cur + off) % n, Nat.mod_lt _ cur.pos⟩

/-- One step of a call; `none` once it has returned. -/
def FailOver.step (st : ProxyState n) : FailOver n → ProxyState n × Option (FailOver n)
  | .cool idx now =>
    ({ st with badUntil := Function.update st.badUntil idx (now + COOLDOWN_MS) }, some (.compare idx now))
  | .compare idx now =>
    -- another session may have moved on already
    (st, if st.active ≠ idx then none else some (.pick idx now 1))
  | .pick idx now off =>
    if off < n then
      if st.badUntil (after idx off) ≤ now then (st, some (.store now (after idx off)))
      else (st, some (.pick idx now (off + 1)))
    else (st, none)
  | .store now j => ({ st with active := j }, some (.bump now))
  | .bump now => ({ st with generation := st.generation + 1 }, some (.note now))
  | .note now => ({ st with lastDataMs := now }, none)

/-- Between its store to `active` and its bump of `generation`. -/
def FailOver.switching : FailOver n → Bool
  | .bump _ => true
  | _ => false

/-! Read without interruption, the steps are the function of the source. -/

/-- `pick_next` from the `off`-th upstream after `cur` on. -/
def pickNextFrom (cur : Fin n) (badUntil : Fin n → Nat) (now off : Nat) : Option (Fin n) :=
  if off < n then
    if badUntil (after cur off) ≤ now then some (after cur off)
    else pickNextFrom cur badUntil now (off + 1)
  else none
termination_by n - off

def pickNext (cur : Fin n) (badUntil : Fin n → Nat) (now : Nat) : Option (Fin n) :=
  pickNextFrom cur badUntil now 1

def ProxyState.failOver (st : ProxyState n) (idx : Fin n) (now : Nat) : ProxyState n :=
  let badUntil := Function.update st.badUntil idx (now + COOLDOWN_MS)
  if st.active ≠ idx then { st with badUntil }
  else
    match pickNext idx badUntil now with
    | some j => { active := j, generation := st.generation + 1, badUntil, lastDataMs := now }
    | none => { st with badUntil }

/-- `call` runs to its end from `st` with nothing in between. -/
inductive FailOver.Returns : ProxyState n → Option (FailOver n) → ProxyState n → Prop
  | done (st : ProxyState n) : Returns st none st
  | step {st st' : ProxyState n} {call : FailOver n} (rest : Returns (call.step st).1 (call.step st).2 st') :
      Returns st (some call) st'

namespace FailOver

variable (st : ProxyState n) (idx : Fin n) (now off : Nat)

theorem returns_store (j : Fin n) :
    Returns st (some (.store now j))
      { st with active := j, generation := st.generation + 1, lastDataMs := now } :=
  .step (.step (.step (.done _)))

theorem returns_pick :
    Returns st (some (.pick idx now off))
      ((pickNextFrom idx st.badUntil now off).elim st fun j =>
        { st with active := j, generation := st.generation + 1, lastDataMs := now }) := by
  induction off using pickNextFrom.induct idx st.badUntil now with
  | case1 off hoff hgood =>
    rw [pickNextFrom, if_pos hoff, if_pos hgood]
    refine .step ?_
    simp only [FailOver.step, if_pos hoff, if_pos hgood]
    exact returns_store _ _ _
  | case2 off hoff hbad ih =>
    rw [pickNextFrom, if_pos hoff, if_neg hbad]
    refine .step ?_
    simp only [FailOver.step, if_pos hoff, if_neg hbad]
    exact ih
  | case3 off hoff =>
    rw [pickNextFrom, if_neg hoff]
    refine .step ?_
    simp only [FailOver.step, if_neg hoff]
    exact .done _

/-- A call nothing interleaves with does what `fail_over` says. -/
theorem returns_failOver : Returns st (some (.cool idx now)) (st.failOver idx now) := by
  refine .step (.step ?_)
  by_cases hidx : st.active = idx
  · have hscan := returns_pick
      { st with badUntil := Function.update st.badUntil idx (now + COOLDOWN_MS) } idx now 1
    cases hpick : pickNextFrom idx (Function.update st.badUntil idx (now + COOLDOWN_MS)) now 1 with
    | none => simpa [FailOver.step, ProxyState.failOver, pickNext, hidx, hpick] using hscan
    | some j => simpa [FailOver.step, ProxyState.failOver, pickNext, hidx, hpick] using hscan
  · simp only [FailOver.step, ProxyState.failOver, hidx, ne_eq, not_false_eq_true, if_true]
    exact .done _

end FailOver

/-! ## 2. Connections -/

/-- What a connection dialed: `hosts[idx]:port`, under the generation it had loaded before. -/
structure Dialed (n : Nat) where
  port : UInt16
  gen : Nat
  idx : Fin n
deriving DecidableEq

def upstream (hosts : Fin n → String) (idx : Fin n) (port : UInt16) : String :=
  hosts idx ++ ":" ++ toString port

def Dialed.up (hosts : Fin n → String) (d : Dialed n) : String := upstream hosts d.idx d.port

/-- Where a task of `proxy_conn` stands. -/
inductive Conn (n : Nat)
  | accepted (port : UInt16)
  | generationLoaded (port : UInt16) (gen : Nat)
  | dialing (d : Dialed n)
  /-- on 4001: the node's greeting is forwarded and the first frame vetted -/
  | vetting (d : Dialed n)
  /-- the push session or splice runs, next to `wait_superseded` -/
  | serving (d : Dialed n)
  | ended
deriving DecidableEq

/-- The upstream connection is open. -/
def Conn.opened : Conn n → Option (Dialed n)
  | .vetting d | .serving d => some d
  | _ => none

/-- The connection's next step up to the point where it serves. -/
def Conn.proceed (st : ProxyState n) : Conn n → Option (Conn n)
  | .accepted port => some (.generationLoaded port st.generation)
  | .generationLoaded port gen => some (.dialing ⟨port, gen, st.active⟩)
  | .dialing d => some (if d.port = 4001 then .vetting d else .serving d)
  | .vetting d => some (.serving d)
  | .serving _ | .ended => none

/-- One look of `wait_superseded`: has it resolved? -/
def waitSuperseded (generation atStart : Nat) : Bool := !(generation == atStart)

def Conn.check (st : ProxyState n) : Conn n → Option (Conn n)
  | .serving d => some (if waitSuperseded st.generation d.gen then .ended else .serving d)
  | _ => none

/-! ## 3. Everything at once -/

/-- The shared state with the calls and connections under way, each under a name of its own. -/
structure Tasks (n : Nat) where
  st : ProxyState n
  calls : Nat → Option (FailOver n)
  conns : Nat → Option (Conn n)

/-- `run_proxy` starts on the first upstream, if there is one. -/
def Tasks.start (hn : 0 < n) : Tasks n where
  st := { active := ⟨0, hn⟩, generation := 0, badUntil := fun _ => 0, lastDataMs := 0 }
  calls := fun _ => none
  conns := fun _ => none

/-- One atomic step of one of the tasks.  Any task may call `fail_over` on any upstream, at
    any time: a connection that blames its own, or the stall monitor that loaded `active` long
    ago.  A connection ends whenever its dial fails, its upstream refuses it or either side
    closes. -/
inductive Event (n : Nat)
  | failOver (t : Nat) (idx : Fin n) (now : Nat)
  | failOverStep (t : Nat)
  | accept (k : Nat) (port : UInt16)
  | proceed (k : Nat)
  | waitSuperseded (k : Nat)
  | close (k : Nat)

namespace Tasks

def setConn (s : Tasks n) (k : Nat) (c : Conn n) : Tasks n :=
  { s with conns := Function.update s.conns k (some c) }

def setCall (s : Tasks n) (t : Nat) (call : Option (FailOver n)) : Tasks n :=
  { s with calls := Function.update s.calls t call }

def step (s : Tasks n) : Event n → Option (Tasks n)
  | .failOver t idx now =>
    match s.calls t with
    | none => some (s.setCall t (some (.cool idx now)))
    | some _ => none
  | .failOverStep t =>
    (s.calls t).map fun call =>
      setCall { s with st := (call.step s.st).1 } t (call.step s.st).2
  | .accept k port =>
    match s.conns k with
    | none => some (s.setConn k (.accepted port))
    | some _ => none
  | .proceed k => ((s.conns k).bind (Conn.proceed s.st)).map (s.setConn k)
  | .waitSuperseded k => ((s.conns k).bind (Conn.check s.st)).map (s.setConn k)
  | .close k => (s.conns k).map fun _ => s.setConn k .ended

/-- A run of the proxy: the events in the order their loads and stores take effect. -/
abbrev Run : Tasks n → List (Event n) → Tasks n → Prop := Machine.Run step fun _ _ => True

/-- No call of `fail_over` is between its store to `active` and its bump of `generation`. -/
def Settled (s : Tasks n) : Prop := ∀ t call, s.calls t = some call → call.switching = false

/-- The upstream connection `k` has open. -/
def opened (s : Tasks n) (k : Nat) : Option (Dialed n) := (s.conns k).bind Conn.opened

end Tasks

/-! ## 4. `active` under `generation` is a value under a version -/

open Versioned

def Conn.reader : Conn n → Reader (Fin n)
  | .accepted _ => .fresh
  | .generationLoaded _ gen => .begun gen
  | .dialing d | .vetting d | .serving d => .holds d.gen d.idx
  | .ended => .done

namespace Tasks

variable {s s' : Tasks n} {e : Event n}

def cell (s : Tasks n) : Cell (Fin n) Nat Nat where
  value := s.st.active
  version := s.st.generation
  writing := { t | (s.calls t).any FailOver.switching }
  reader k := (s.conns k).elim .fresh Conn.reader

theorem cell_setConn (k : Nat) (c : Conn n) :
    (s.setConn k c).cell = { s.cell with reader := Function.update s.cell.reader k c.reader } := by
  have hreader : (s.setConn k c).cell.reader = Function.update s.cell.reader k c.reader := by
    funext j
    by_cases hj : j = k
    · simp [cell, setConn, hj]
    · simp [cell, setConn, hj]
  exact Cell.ext rfl rfl rfl hreader

theorem cell_setCall (st : ProxyState n) (t : Nat) (call : Option (FailOver n)) :
    (setCall { s with st } t call).cell =
      { value := st.active
        version := st.generation
        writing := if call.any FailOver.switching then insert t s.cell.writing else s.cell.writing \ {t}
        reader := s.cell.reader } := by
  refine Cell.ext rfl rfl ?_ rfl
  ext u
  by_cases hu : u = t
  · subst hu
    cases call with
    | none => simp [cell, setCall]
    | some call => cases hsw : call.switching <;> simp [cell, setCall, hsw]
  · split <;> simp [cell, setCall, hu]

theorem not_writing {t : Nat} (h : (s.calls t).any FailOver.switching = false) :
    s.cell.writing \ {t} = s.cell.writing := by
  refine Set.sdiff_singleton_eq_self ?_
  simp [cell, h]

/-- A step of a call is one of a writer, or none of the cell's. -/
theorem cell_failOverStep {t : Nat} {call : FailOver n} (hcall : s.calls t = some call) :
    (setCall { s with st := (call.step s.st).1 } t (call.step s.st).2).cell = s.cell ∨
      Move s.cell (setCall { s with st := (call.step s.st).1 } t (call.step s.st).2).cell := by
  rw [cell_setCall]
  have hstill (h : call.switching = false) : s.cell.writing \ {t} = s.cell.writing :=
    not_writing (by simp [hcall, h])
  cases call with
  | cool idx now => exact .inl (Cell.ext rfl rfl (hstill rfl) rfl)
  | compare idx now =>
    simp only [FailOver.step]
    split
    · exact .inl (Cell.ext rfl rfl (hstill rfl) rfl)
    · exact .inl (Cell.ext rfl rfl (hstill rfl) rfl)
  | pick idx now off =>
    simp only [FailOver.step]
    split
    · split
      · exact .inl (Cell.ext rfl rfl (hstill rfl) rfl)
      · exact .inl (Cell.ext rfl rfl (hstill rfl) rfl)
    · exact .inl (Cell.ext rfl rfl (hstill rfl) rfl)
  | store now j => exact .inr (Move.store s.cell t j)
  | bump now => exact .inr (Move.bump s.cell t)
  | note now => exact .inl (Cell.ext rfl rfl (hstill rfl) rfl)

/-- A connection whose loads are unchanged leaves the cell as it was. -/
theorem cell_setConn_same {k : Nat} {c : Conn n} (h : s.cell.reader k = c.reader) :
    (s.setConn k c).cell = s.cell := by
  rw [cell_setConn, ← h, Function.update_eq_self]

theorem cell_proceed {k : Nat} {c c' : Conn n} (hk : s.conns k = some c) (h : c.proceed s.st = some c') :
    (s.setConn k c').cell = s.cell ∨ Move s.cell (s.setConn k c').cell := by
  have hreader : s.cell.reader k = c.reader := by simp [cell, hk]
  cases c with
  | accepted port =>
    cases h
    rw [cell_setConn]
    exact .inr (Move.begins s.cell k hreader)
  | generationLoaded port gen =>
    cases h
    rw [cell_setConn]
    exact .inr (Move.loads s.cell k gen hreader)
  | dialing d =>
    cases h
    refine .inl (cell_setConn_same ?_)
    rw [hreader]
    split <;> rfl
  | vetting d =>
    cases h
    exact .inl (cell_setConn_same hreader)
  | serving d => simp [Conn.proceed] at h
  | ended => simp [Conn.proceed] at h

theorem cell_check {k : Nat} {c c' : Conn n} (hk : s.conns k = some c) (h : c.check s.st = some c') :
    (s.setConn k c').cell = s.cell ∨ Move s.cell (s.setConn k c').cell := by
  have hreader : s.cell.reader k = c.reader := by simp [cell, hk]
  cases c with
  | serving d =>
    cases h
    split
    · rw [cell_setConn]
      exact .inr (Move.ends s.cell k)
    · exact .inl (cell_setConn_same hreader)
  | accepted | generationLoaded | dialing | vetting | ended => simp [Conn.check] at h

/-- **Every step of the proxy is a step of the cell, or invisible to it.** -/
theorem step_cell (h : s.step e = some s') : s'.cell = s.cell ∨ Move s.cell s'.cell := by
  cases e with
  | failOver t idx now =>
    simp only [step] at h
    split at h
    · rename_i hcall
      cases h
      refine .inl ?_
      rw [show s = { s with st := s.st } from rfl, cell_setCall]
      exact Cell.ext rfl rfl (not_writing (by simp [hcall])) rfl
    · simp at h
  | failOverStep t =>
    simp only [step, Option.map_eq_some_iff] at h
    obtain ⟨call, hcall, rfl⟩ := h
    exact cell_failOverStep hcall
  | accept k port =>
    simp only [step] at h
    split at h
    · rename_i hk
      cases h
      exact .inl (cell_setConn_same (by simp [cell, hk, Conn.reader]))
    · simp at h
  | proceed k =>
    simp only [step, Option.map_eq_some_iff, Option.bind_eq_some_iff] at h
    obtain ⟨c', ⟨c, hk, hc⟩, rfl⟩ := h
    exact cell_proceed hk hc
  | waitSuperseded k =>
    simp only [step, Option.map_eq_some_iff, Option.bind_eq_some_iff] at h
    obtain ⟨c', ⟨c, hk, hc⟩, rfl⟩ := h
    exact cell_check hk hc
  | close k =>
    simp only [step, Option.map_eq_some_iff] at h
    obtain ⟨c, hk, rfl⟩ := h
    rw [cell_setConn]
    exact .inr (Move.ends s.cell k)

/-- What every move of the cell keeps, every run of the proxy keeps. -/
theorem Run.cell {I : Cell (Fin n) Nat Nat → Prop} {es : List (Event n)} (hrun : Run s es s')
    (hinit : I s.cell) (hmove : ∀ c c', I c → Move c c' → I c') : I s'.cell := by
  refine Machine.Run.invariant (I := fun s => I s.cell) hrun hinit (fun a e b ha _ hstep => ?_)
  rcases step_cell hstep with heq | hm
  · exact heq ▸ ha
  · exact hmove _ _ ha hm

theorem coherent {hn : 0 < n} {es : List (Event n)} (hrun : Run (start hn) es s) : Coherent s.cell :=
  Run.cell hrun (Coherent.of_fresh fun _ => rfl) fun _ _ => Coherent.move

/-! ## 5. Sessions and the active upstream -/

theorem reader_of_opened {k : Nat} {d : Dialed n} (h : s.opened k = some d) :
    s.cell.reader k = .holds d.gen d.idx := by
  obtain ⟨c, hk, hc⟩ := Option.bind_eq_some_iff.mp h
  cases c with
  | vetting | serving =>
    cases hc
    simp [cell, hk, Conn.reader]
  | accepted | generationLoaded | dialing | ended => simp [Conn.opened] at hc

theorem writing_eq_empty (h : s.Settled) : s.cell.writing = ∅ := by
  refine Set.eq_empty_of_forall_notMem ?_
  intro t ht
  cases hcall : s.calls t with
  | none => simp [cell, hcall] at ht
  | some call => simp [cell, hcall, h t call hcall] at ht

/-- In a settled state a session of the current generation is on the active upstream. -/
theorem idx_eq_active (h : Coherent s.cell) (hset : s.Settled) {k : Nat} {d : Dialed n}
    (hk : s.opened k = some d) (hgen : d.gen = s.st.generation) : d.idx = s.st.active :=
  h.current (writing_eq_empty hset) (reader_of_opened hk) hgen

/-- Session `k` was opened under a generation that has passed, or is over. -/
def Superseded (s : Tasks n) (k : Nat) (d : Dialed n) : Prop := Outdated s.cell k d.gen d.idx

theorem superseded (h : Coherent s.cell) {k : Nat} {d : Dialed n} (hk : s.opened k = some d)
    (hgen : d.gen ≠ s.st.generation) : s.Superseded k d := by
  have hreader : s.cell.reader k = .holds d.gen d.idx := reader_of_opened hk
  have hle : d.gen ≤ s.st.generation := h.holds k _ _ hreader
  exact .inl ⟨hreader, by simp only [cell]; omega⟩

theorem Superseded.run {k : Nat} {d : Dialed n} {es : List (Event n)} (h : s.Superseded k d)
    (hrun : Run s es s') : s'.Superseded k d :=
  Run.cell hrun h fun _ _ => Outdated.move

/-- Its next look ends a superseded session. -/
theorem Superseded.check {k : Nat} {d d' : Dialed n} (h : s.Superseded k d)
    (hk : s.conns k = some (.serving d')) : s.step (.waitSuperseded k) = some (s.setConn k .ended) := by
  have hreader : s.cell.reader k = .holds d'.gen d'.idx := by simp [cell, hk, Conn.reader]
  rcases h with ⟨hold, hlt⟩ | hdone
  · have hgen : d'.gen = d.gen := by
      rw [hreader] at hold
      exact (Reader.holds.inj hold).1
    have hne : s.st.generation ≠ d'.gen := by
      have : d.gen < s.st.generation := hlt
      omega
    simp [step, hk, Conn.check, waitSuperseded, hne]
  · simp [hreader] at hdone

/-- Only a session that serves looks. -/
theorem serving_of_check {k : Nat} (h : s.step (.waitSuperseded k) = some s') :
    ∃ d, s.conns k = some (.serving d) := by
  simp only [step, Option.map_eq_some_iff, Option.bind_eq_some_iff] at h
  obtain ⟨c', ⟨c, hk, hc⟩, _⟩ := h
  cases c with
  | serving d => exact ⟨d, hk⟩
  | accepted | generationLoaded | dialing | vetting | ended => simp [Conn.check] at hc

/-- A superseded session that has looked is over, whatever else happened on the way. -/
theorem Superseded.over {k : Nat} {d : Dialed n} {es : List (Event n)} (h : s.Superseded k d)
    (hrun : Run s es s') (hlook : .waitSuperseded k ∈ es) : s'.cell.reader k = .done := by
  induction hrun with
  | nil => simp at hlook
  | snoc hrun _ hstep ih =>
    rcases List.mem_append.mp hlook with hbefore | hnow
    · rcases step_cell hstep with heq | hmove
      · exact heq ▸ ih hbefore
      · exact hmove.done (ih hbefore)
    · cases List.mem_singleton.mp hnow
      obtain ⟨d', hk⟩ := serving_of_check hstep
      rw [(h.run hrun).check hk] at hstep
      cases hstep
      simp [cell_setConn, Conn.reader]

theorem opened_eq_none {k : Nat} (h : s.cell.reader k = .done) : s.opened k = none := by
  cases hopen : s.opened k with
  | none => rfl
  | some d => simp [reader_of_opened hopen] at h

/-- **Sessions follow the active upstream.**  In every state the tasks reach:
    with no switch half done, a session opened under the current generation was dialed to
    `hosts[active]`; a session of any other generation ends at its next look, now or in any
    later state; and of two sessions on different upstreams, on whichever ports, at most one
    is left once both have looked. -/
theorem sessions_follow_active (hn : 0 < n) (hosts : Fin n → String) {es : List (Event n)}
    (hrun : Run (start hn) es s) :
    (s.Settled → ∀ k d, s.opened k = some d → d.gen = s.st.generation →
      d.idx = s.st.active ∧ d.up hosts = upstream hosts s.st.active d.port) ∧
    (∀ k d, s.opened k = some d → d.gen ≠ s.st.generation → ∀ later s', Run s later s' →
      (∀ d', s'.conns k = some (.serving d') → s'.step (.waitSuperseded k) = some (s'.setConn k .ended)) ∧
      (.waitSuperseded k ∈ later → s'.opened k = none)) ∧
    (s.Settled → ∀ k k' d d', s.opened k = some d → s.opened k' = some d' → d.idx ≠ d'.idx →
      ∀ later s', Run s later s' → .waitSuperseded k ∈ later → .waitSuperseded k' ∈ later →
        s'.opened k = none ∨ s'.opened k' = none) := by
  have hcoh : Coherent s.cell := coherent hrun
  have hends {k : Nat} {d : Dialed n} (hk : s.opened k = some d) (hgen : d.gen ≠ s.st.generation)
      {later : List (Event n)} {s' : Tasks n} (hlater : Run s later s') (hlook : .waitSuperseded k ∈ later) :
      s'.opened k = none :=
    opened_eq_none ((superseded hcoh hk hgen).over hlater hlook)
  refine ⟨fun hset k d hk hgen => ?_, fun k d hk hgen later s' hlater => ⟨fun d' hd' => ?_, ?_⟩, ?_⟩
  · have hidx : d.idx = s.st.active := idx_eq_active hcoh hset hk hgen
    exact ⟨hidx, by rw [Dialed.up, hidx]⟩
  · exact ((superseded hcoh hk hgen).run hlater).check hd'
  · exact hends hk hgen hlater
  · intro hset k k' d d' hk hk' hne later s' hlater hlook hlook'
    -- both on the current generation would put both on the active upstream
    by_cases hgen : d.gen = s.st.generation
    · refine .inr (hends hk' (fun hgen' => hne ?_) hlater hlook')
      rw [idx_eq_active hcoh hset hk hgen, idx_eq_active hcoh hset hk' hgen']
    · exact .inl (hends hk hgen hlater hlook)

/-- Session 1 opens on 4002 between the two stores of a switch: it is on the new upstream
    under the old generation.  Session 2 opens after the switch. -/
def crossing : List (Event 2) :=
  [.accept 0 4001, .proceed 0, .proceed 0, .proceed 0, .proceed 0,
    .failOver 0 0 5, .failOverStep 0, .failOverStep 0, .failOverStep 0, .failOverStep 0,
    .accept 1 4002, .proceed 1, .proceed 1, .proceed 1,
    .failOverStep 0, .failOverStep 0,
    .accept 2 4001, .proceed 2, .proceed 2, .proceed 2, .proceed 2]

def crossed : Tasks 2 := (Machine.exec step (fun _ _ => True) (start Nat.two_pos) crossing).getD (start Nat.two_pos)

theorem crossed_settled : crossed.Settled := by
  intro t call hcall
  cases t with
  | zero => cases hcall
  | succ t => cases hcall

theorem sessions_follow_active_crossing :
    Run (start Nat.two_pos) crossing crossed ∧ crossed.Settled ∧
      crossed.opened 0 = some ⟨4001, 0, 0⟩ ∧ crossed.opened 1 = some ⟨4002, 0, 1⟩ ∧
      crossed.opened 2 = some ⟨4001, 1, 1⟩ ∧ crossed.st.active = 1 ∧
      crossed.step (.waitSuperseded 1) = some (crossed.setConn 1 .ended) ∧
      ∀ later s', Run crossed later s' → .waitSuperseded 0 ∈ later → .waitSuperseded 1 ∈ later →
        s'.opened 0 = none ∨ s'.opened 1 = none := by
  have hrun : Run (start Nat.two_pos) crossing crossed := Machine.Run.of_exec rfl
  obtain ⟨hcurrent, hstale, hpair⟩ := sessions_follow_active Nat.two_pos (fun _ => "") hrun
  refine ⟨hrun, crossed_settled, rfl, rfl, rfl, (hcurrent crossed_settled 2 _ rfl rfl).1.symm, ?_, ?_⟩
  · exact (hstale 1 ⟨4002, 0, 1⟩ rfl (by decide) [] _ (.nil _)).1 ⟨4002, 0, 1⟩ rfl
  · exact hpair crossed_settled 0 1 ⟨4001, 0, 0⟩ ⟨4002, 0, 1⟩ rfl rfl (by decide)

end Tasks

end Hypersync.Push.Proxy
