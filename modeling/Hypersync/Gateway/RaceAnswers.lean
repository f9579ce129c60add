import Hypersync.Gateway.ClientRace

/-!
# What a client-block request answers

A batch that counts ends the race when it is joined, and only without one is an
error frame the answer: a terminal one, else a range-too-small one (`Answers`).
The steps of the request are listed once (`Turn`), for this invariant and for those
on the order of the attempts.
-/

namespace Hypersync.Gateway

/-! ## 1. What was joined -/

abbrev Joined := Bool × Except FetchError ClientBlockUpstreamResponse

/-- The batch of a result that counts. -/
def batchOf : Joined → Option (List UInt8)
  | (true, .ok (.frames frame)) => some frame
  | _ => none

def terminalOf : Joined → Option (List UInt8)
  | (true, .ok (.terminalError frame)) => some frame
  | _ => none

def tooSmallOf : Joined → Option (List UInt8)
  | (true, .ok (.rangeTooSmall frame)) => some frame
  | _ => none

def batches (joined : List Joined) : List (List UInt8) := joined.filterMap batchOf

def terminals (joined : List Joined) : List (List UInt8) := joined.filterMap terminalOf

def tooSmalls (joined : List Joined) : List (List UInt8) := joined.filterMap tooSmallOf

namespace ClientRace

variable {s : ClientRace} {args : RaceArgs} {a : Ask}

/-- `note_client_block_result`: a batch wins, the first error frame of a kind is kept. -/
theorem noteClientBlockResult_spec (node : Pins) (a : Ask)
    (result : Except FetchError ClientBlockUpstreamResponse) (race : Race) :
    (noteClientBlockResult node a.tag a.ip result race).1 = batchOf (Ask.counts node a, result) ∧
    (noteClientBlockResult node a.tag a.ip result race).2.2.terminal =
      race.terminal.or (terminalOf (Ask.counts node a, result)) ∧
    (noteClientBlockResult node a.tag a.ip result race).2.2.tooSmall =
      race.tooSmall.or (tooSmallOf (Ask.counts node a, result)) := by
  unfold noteClientBlockResult Ask.counts
  rcases a.tag with _ | peer
  · rcases result with e | (frame | _ | frame | frame)
    · simp [recordResult, Race.fail, batchOf, terminalOf, tooSmallOf]
    · simp [recordResult, batchOf, terminalOf, tooSmallOf]
    · simp [recordResult, Race.fail, batchOf, terminalOf, tooSmallOf]
    · simp [recordResult, Race.fail, batchOf, terminalOf, tooSmallOf]
    · simp [recordResult, Race.fail, batchOf, terminalOf, tooSmallOf]
  · rcases hcurrent : node.activeIsCurrent peer with _ | _
    · simp [Race.fail, hcurrent, batchOf, terminalOf, tooSmallOf]
    · rcases result with e | (frame | _ | frame | frame)
      · simp [hcurrent, recordResult, Race.fail, batchOf, terminalOf, tooSmallOf]
      · simp [hcurrent, recordResult, batchOf, terminalOf, tooSmallOf]
      · simp [hcurrent, recordResult, Race.fail, batchOf, terminalOf, tooSmallOf]
      · simp [hcurrent, recordResult, Race.fail, batchOf, terminalOf, tooSmallOf]
      · simp [hcurrent, recordResult, Race.fail, batchOf, terminalOf, tooSmallOf]

/-! ## 2. What a step can do -/

/-- Another task moved, or an attempt did: the request itself is where it was. -/
structure Aside (s s' : ClientRace) : Prop where
  own : s' = { s with
    clock := s'.clock
    black := s'.black
    sessions := s'.sessions
    node := s'.node
    rr := s'.rr
    set := s'.set }
  clock : s.clock ≤ s'.clock
  later : s.sessions.Later s'.sessions
  ips : ∀ a ∈ s'.set, ∃ b ∈ s.set, b.ip = a.ip

/-- The steps of the machine as its invariants see them. -/
inductive Turn (args : RaceArgs) (s : ClientRace) : RaceEvent → ClientRace → Prop
  | aside {e : RaceEvent} {s' : ClientRace} (h : s.Aside s') : Turn args s e s'
  | go {s' : ClientRace} (h : s.go args = some s') : Turn args s .go s'
  | joinFirst {limit : Nat} {a : Ask} {result : Except FetchError ClientBlockUpstreamResponse}
      (hpc : s.pc = .grace limit) : Turn args s (.join a) (s.joinFirst a result)
  | firstOver {limit : Nat} {e : RaceEvent} {set : List Ask} (hpc : s.pc = .grace limit)
      (hset : ∀ a ∈ set, a ∈ s.set) : Turn args s e { s with set := set, pc := .hedge }
  | joinHedged {a : Ask} {result : Except FetchError ClientBlockUpstreamResponse}
      (hpc : s.pc = .racing) : Turn args s (.join a) (s.joinHedged a result)
  | timedOut {limit : Nat} {sessions : Sessions} (hpc : s.pc = .racing) (hlimit : s.roundDeadline = some limit)
      (hover : limit ≤ s.clock) (hlater : s.sessions.Later sessions) :
      Turn args s .timer ({ s with sessions := sessions }.roundOver args)

theorem aside_settle {me : Nat} (ha : a ∈ s.set) (state : AskState) : s.Aside (s.settle me a state) := by
  refine ⟨rfl, le_refl _, Sessions.later_dropSlot _ _ _, ?_⟩
  intro b hb
  rcases Bag.mem_replace hb with rfl | hb
  · exact ⟨a, ha, rfl⟩
  · exact ⟨b, hb, rfl⟩

theorem later_marks (ips : List String) (now : Nat) (ss : Sessions) :
    ss.Later (ips.foldl (fun ss ip => ss.mark ⟨ip, false, now⟩) ss) := by
  induction ips generalizing ss with
  | nil => exact Sessions.Later.refl ss
  | cons ip ips ih => exact (Sessions.later_mark ss _).trans (ih _)

theorem turn_of_joinAsk {s' : ClientRace} (h : s.joinAsk a = some s') : Turn args s (.join a) s' := by
  unfold joinAsk at h
  split at h
  · rename_i hpc _
    cases h
    exact .joinFirst hpc
  · rename_i hpc _
    cases h
    exact .firstOver hpc fun _ hb => List.mem_of_mem_erase hb
  · rename_i hpc _
    cases h
    exact .joinHedged hpc
  · cases h
    apply Turn.aside
    exact ⟨rfl, le_refl _, Sessions.Later.refl _, fun b hb => ⟨b, List.mem_of_mem_erase hb, rfl⟩⟩
  · cases h

theorem turn_of_expire {s' : ClientRace} (h : s.expire args = some s') : Turn args s .timer s' := by
  unfold expire at h
  split at h
  · rename_i hpc
    split at h <;> cases h
    exact .firstOver hpc fun _ hb => hb
  · rename_i hpc
    split at h
    · rename_i hlimit
      split at h <;> cases h
      rename_i hover
      exact .timedOut hpc hlimit hover (later_marks _ _ _)
    · cases h
  · cases h

theorem turn_of_step {s' : ClientRace} {e : RaceEvent} (h : s.step args e = some s') : Turn args s e s' := by
  cases e with
  | world now black node rr =>
    simp only [step] at h
    split at h <;> cases h
    rename_i hnow
    exact .aside ⟨rfl, hnow, Sessions.Later.refl _, fun b hb => ⟨b, hb, rfl⟩⟩
  | other e =>
    simp only [step] at h
    split at h
    · split at h <;> cases h
      rename_i htier
      exact .aside ⟨rfl, le_refl _, Sessions.later_step htier, fun b hb => ⟨b, hb, rfl⟩⟩
    · cases h
  | answer a io bytes =>
    simp only [step] at h
    split at h
    · rename_i ha
      split at h <;> cases h
      exact .aside (aside_settle ha _)
    · cases h
  | panic a =>
    simp only [step] at h
    split at h
    · rename_i ha
      split at h <;> cases h
      exact .aside (aside_settle ha _)
    · cases h
  | go => exact .go h
  | join a =>
    simp only [step] at h
    split at h
    · exact turn_of_joinAsk h
    · cases h
  | timer => exact turn_of_expire h
  | reap a =>
    simp only [step] at h
    split at h
    · split at h <;> cases h
      apply Turn.aside
      exact ⟨rfl, le_refl _, Sessions.later_dropSlot _ _ _, fun b hb => ⟨b, List.mem_of_mem_erase hb, rfl⟩⟩
    · cases h

/-! ## 3. The answer -/

/-- The error frames kept are the first ones joined. -/
structure Kept (race : Race) (joined : List Joined) : Prop where
  terminal : race.terminal = (terminals joined).head?
  tooSmall : race.tooSmall = (tooSmalls joined).head?

/-- What a request that joined these results answers with. -/
def Answered (joined : List Joined) : Except (List Failure) (List UInt8) → Prop
  | .ok frame => batches joined = [frame] ∨ batches joined = [] ∧ (terminals joined).head? = some frame ∨
      batches joined = [] ∧ terminals joined = [] ∧ (tooSmalls joined).head? = some frame
  | .error _ => batches joined = [] ∧ terminals joined = [] ∧ tooSmalls joined = []

/-- Until there is an answer, no batch that counts has been joined. -/
def Answers (joined : List Joined) : RacePc → Prop
  | .returned result => Answered joined result
  | _ => batches joined = []

theorem answered_lastResort {race : Race} {joined : List Joined} (h : Kept race joined)
    (hopen : batches joined = []) : Answered joined (lastResort race) := by
  unfold lastResort
  rw [h.terminal, h.tooSmall]
  rcases hterminals : terminals joined with _ | ⟨frame, rest⟩
  · rcases htooSmalls : tooSmalls joined with _ | ⟨frame, rest⟩
    · exact ⟨hopen, hterminals, htooSmalls⟩
    · right
      right
      refine ⟨hopen, hterminals, ?_⟩
      rw [htooSmalls]
      rfl
  · right
    left
    refine ⟨hopen, ?_⟩
    rw [hterminals]
    rfl

/-- A round that is over leaves the results as they are. -/
theorem answers_roundOver (hkept : Kept s.race s.joined) (hopen : batches s.joined = []) :
    Kept (s.roundOver args).race (s.roundOver args).joined ∧
      Answers (s.roundOver args).joined (s.roundOver args).pc := by
  unfold ClientRace.roundOver
  split
  · exact ⟨hkept, answered_lastResort hkept hopen⟩
  · exact ⟨hkept, hopen⟩

theorem head?_filterMap_concat {β : Type} (f : Joined → Option β) (joined : List Joined) (x : Joined) :
    ((joined ++ [x]).filterMap f).head? = ((joined.filterMap f).head?).or (f x) := by
  rw [List.filterMap_append, List.head?_append]
  congr 1
  rcases hf : f x with _ | y
  · rw [List.filterMap_cons_none hf]
    rfl
  · rw [List.filterMap_cons_some hf]
    rfl

/-- What noting a result adds. -/
theorem note_spec (hkept : Kept s.race s.joined) (hopen : batches s.joined = [])
    (result : Except FetchError ClientBlockUpstreamResponse) :
    Kept (s.note a result).race (s.note a result).joined ∧
      batches (s.note a result).joined = ((noteClientBlockResult s.node a.tag a.ip result s.race).1).toList := by
  obtain ⟨hframe, hterminal, htooSmall⟩ := noteClientBlockResult_spec s.node a result s.race
  refine ⟨⟨?_, ?_⟩, ?_⟩
  · rw [terminals, note, head?_filterMap_concat, hterminal, hkept.terminal]
    rfl
  · rw [tooSmalls, note, head?_filterMap_concat, htooSmall, hkept.tooSmall]
    rfl
  · rw [batches, note, List.filterMap_append, ← batches, hopen, List.nil_append, hframe]
    rcases hbatch : batchOf (Ask.counts s.node a, result) with _ | frame
    · rw [List.filterMap_cons_none hbatch]
      rfl
    · rw [List.filterMap_cons_some hbatch]
      rfl

/-- A joined batch that counts is the answer; anything else leaves the request open. -/
theorem answers_joinFirst (hkept : Kept s.race s.joined) (hopen : batches s.joined = [])
    (result : Except FetchError ClientBlockUpstreamResponse) :
    Kept (s.joinFirst a result).race (s.joinFirst a result).joined ∧
      Answers (s.joinFirst a result).joined (s.joinFirst a result).pc := by
  obtain ⟨hkept', hbatches⟩ := note_spec (a := a) hkept hopen result
  unfold joinFirst
  split
  · rename_i frame hframe
    rw [hframe] at hbatches
    exact ⟨hkept', Or.inl hbatches⟩
  · rename_i hnone
    rw [hnone] at hbatches
    exact ⟨hkept', hbatches⟩

theorem answers_joinHedged (hkept : Kept s.race s.joined) (hopen : batches s.joined = []) (hpc : s.pc = .racing)
    (result : Except FetchError ClientBlockUpstreamResponse) :
    Kept (s.joinHedged a result).race (s.joinHedged a result).joined ∧
      Answers (s.joinHedged a result).joined (s.joinHedged a result).pc := by
  obtain ⟨hkept', hbatches⟩ := note_spec (a := a) hkept hopen result
  unfold joinHedged
  split
  · rename_i frame hframe
    rw [hframe] at hbatches
    exact ⟨hkept', Or.inl hbatches⟩
  · rename_i hnone
    rw [hnone] at hbatches
    refine ⟨hkept', ?_⟩
    rw [note, hpc]
    exact hbatches

/-- The request's task went on with nothing joined, and has not returned. -/
structure Proceeds (s s' : ClientRace) : Prop where
  race : s'.race = s.race
  joined : s'.joined = s.joined
  unreturned : ∀ result, s'.pc ≠ .returned result

theorem proceeds_askFirst (remembered : Option String) (active : Option ActivePeer) :
    s.Proceeds (s.askFirst args remembered active) := by
  unfold askFirst
  split
  · exact ⟨rfl, rfl, nofun⟩
  · split
    · exact ⟨rfl, rfl, nofun⟩
    · split
      · exact ⟨rfl, rfl, nofun⟩
      · exact ⟨rfl, rfl, nofun⟩

theorem proceeds_openRound : s.Proceeds (s.openRound args) := by
  unfold openRound
  simp only
  split
  · exact ⟨rfl, rfl, nofun⟩
  · exact ⟨rfl, rfl, nofun⟩

theorem proceeds_askDeferred (round : List String) : s.Proceeds (s.askDeferred round) := by
  unfold askDeferred
  split
  · exact ⟨rfl, rfl, nofun⟩
  · exact ⟨rfl, rfl, nofun⟩

theorem proceeds_launch (ip : String) (rest : List String) : s.Proceeds (s.launch args ip rest) := by
  unfold launch
  split
  · exact ⟨rfl, rfl, nofun⟩
  · split
    · exact ⟨rfl, rfl, nofun⟩
    · exact ⟨rfl, rfl, nofun⟩

/-- What one step of the request's own task does, a case for each place it can stand at. -/
inductive Moves (args : RaceArgs) (s : ClientRace) : ClientRace → Prop
  | begun (hpc : s.pc = .begin) :
      Moves args s { s with started := s.clock, pc := .pinning s.remembered (s.clock + ACTIVE_4002_PIN_WAIT) }
  | waited {remembered : Option String} {limit : Nat} (hpc : s.pc = .pinning remembered limit) :
      Moves args s { s with node := (s.node.activeSessionSnapshot s.black.contains).2 }
  | looked {remembered : Option String} {limit : Nat} (hpc : s.pc = .pinning remembered limit) :
      Moves args s { s with
        node := (s.node.activeSessionSnapshot s.black.contains).2
        pc := .pinned remembered (s.node.activeSessionSnapshot s.black.contains).1 }
  | unpinned {remembered : Option String} (hpc : s.pc = .pinned remembered none) :
      Moves args s { s with pc := .first remembered none }
  | pinFirst {remembered : Option String} {peer : ActivePeer} (hpc : s.pc = .pinned remembered (some peer))
      (hanswers : activeAnswersFirst s.sessions.tier s.black s.clock peer.ip = true) :
      Moves args s { s with pc := .first remembered (some peer) }
  | pinDeferred {remembered : Option String} {peer : ActivePeer} (hpc : s.pc = .pinned remembered (some peer))
      (hanswers : ¬ activeAnswersFirst s.sessions.tier s.black s.clock peer.ip = true) :
      Moves args s { s with deferred := some peer, deferredPin := some peer, pc := .first remembered none }
  | askFirst {remembered : Option String} {active : Option ActivePeer} (hpc : s.pc = .first remembered active) :
      Moves args s (s.askFirst args remembered active)
  | openRound (hpc : s.pc = .hedge) : Moves args s (s.openRound args)
  | askDeferred {round : List String} (hpc : s.pc = .roundTop round) : Moves args s (s.askDeferred round)
  | launch {ip : String} {rest : List String} (hpc : s.pc = .launching (ip :: rest)) :
      Moves args s (s.launch args ip rest)
  | launched (hpc : s.pc = .launching []) :
      Moves args s { s with
        roundDeadline := if s.poolHedged then none else some (s.started + PRIORITY_4002_ROUND)
        pc := .racing }
  | roundOver (hpc : s.pc = .racing) (hset : s.set = []) : Moves args s (s.roundOver args)

theorem moves_of_go {s' : ClientRace} (h : s.go args = some s') : Moves args s s' := by
  unfold go at h
  split at h
  · rename_i hpc
    cases h
    exact .begun hpc
  · rename_i hpc
    simp only at h
    split at h
    · cases h
      exact .looked hpc
    · cases h
      exact .waited hpc
  · rename_i hpc
    cases h
    exact .unpinned hpc
  · rename_i hpc
    split at h
    · rename_i hanswers
      cases h
      exact .pinFirst hpc hanswers
    · rename_i hanswers
      cases h
      exact .pinDeferred hpc hanswers
  · rename_i hpc
    cases h
    exact .askFirst hpc
  · rename_i hpc
    cases h
    exact .openRound hpc
  · rename_i hpc
    cases h
    exact .askDeferred hpc
  · rename_i hpc
    cases h
    exact .launch hpc
  · rename_i hpc
    cases h
    exact .launched hpc
  · rename_i hpc
    split at h <;> cases h
    rename_i hset
    exact .roundOver hpc hset
  · cases h
  · cases h

theorem Moves.unreturned {s' : ClientRace} (h : Moves args s s') (result : Except (List Failure) (List UInt8)) :
    s.pc ≠ .returned result := by
  cases h <;> simp only [*, ne_eq, reduceCtorEq, not_false_eq_true]

/-- Until a round is over with nothing left to join, the task only proceeds. -/
theorem Moves.proceeds {s' : ClientRace} (h : Moves args s s') :
    s.pc = .racing ∧ s' = s.roundOver args ∨ s.Proceeds s' := by
  cases h with
  | roundOver hpc hset => exact Or.inl ⟨hpc, rfl⟩
  | waited hpc => exact Or.inr ⟨rfl, rfl, by rw [hpc]; nofun⟩
  | askFirst hpc => exact Or.inr (proceeds_askFirst _ _)
  | openRound hpc => exact Or.inr proceeds_openRound
  | askDeferred hpc => exact Or.inr (proceeds_askDeferred _)
  | launch hpc => exact Or.inr (proceeds_launch _ _)
  | begun | looked | unpinned | pinFirst | pinDeferred | launched => exact Or.inr ⟨rfl, rfl, nofun⟩

theorem answers_iff_of_open {joined : List Joined} {pc : RacePc} (hopen : ∀ result, pc ≠ .returned result) :
    Answers joined pc ↔ batches joined = [] := by
  cases pc with
  | returned result => exact absurd rfl (hopen result)
  | _ => rfl

/-- **The answer, step by step.** -/
theorem answers_step {s' : ClientRace} {e : RaceEvent} (hkept : Kept s.race s.joined) (h : Answers s.joined s.pc)
    (hstep : s.step args e = some s') : Kept s'.race s'.joined ∧ Answers s'.joined s'.pc := by
  cases turn_of_step hstep with
  | aside haside =>
    rw [haside.own]
    exact ⟨hkept, h⟩
  | go hgo =>
    have hmoves := moves_of_go hgo
    rcases hmoves.proceeds with ⟨hpc, rfl⟩ | hproceeds
    · rw [hpc] at h
      exact answers_roundOver hkept h
    · rw [hproceeds.race, hproceeds.joined, answers_iff_of_open hproceeds.unreturned]
      exact ⟨hkept, (answers_iff_of_open hmoves.unreturned).mp h⟩
  | joinFirst hpc =>
    rw [hpc] at h
    exact answers_joinFirst hkept h _
  | firstOver hpc =>
    rw [hpc] at h
    exact ⟨hkept, h⟩
  | joinHedged hpc =>
    rw [hpc] at h
    exact answers_joinHedged hkept h hpc _
  | timedOut hpc =>
    rw [hpc] at h
    exact answers_roundOver hkept h

end ClientRace

end Hypersync.Gateway
