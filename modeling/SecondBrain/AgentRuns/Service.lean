import Mathlib.Data.List.Sort
import SecondBrain.AgentRuns.Model

/-!
# The lifecycle of an agent run

Only two functions of the application write a run's state and revision:
`createRun`, which makes the row with state `created`, revision 0 and the
event that says so, and `transitionRun`, which moves it along one of
`legalTransitions`, raises the revision by one and appends the event of that
move. Both append the event in the transaction that writes the row, so a
reader of this file sees why the log cannot lag behind: `transitionRun_ok` is
the whole contract, and every service reaches the run's state through it.

An operation is a function of the locked record that answers the record it
commits. An error stands for the exception the caller sees after a rollback,
which leaves the committed record as it was.
-/

namespace SecondBrain

open Lib

/-- What the services of the agent runtime raise. -/
inductive Fault where
  | runNotFound
  | projectNotFound
  | revisionConflict
  | transitionConflict
  | idempotencyConflict
  | capacity
  | registryVersion
  | agentVersion
  | planInvalid
  /-- `ResearchValidationError`, `CuratorValidationError`,
  `ChangeValidationError`: the result is refused. -/
  | validation
  | notFound (message : String)
  | invalidProposal (message : String)
  | reviewConflict
  | expiredApproval
  | staleApproval
  | ownership
  | assertion
  | database (e : DatabaseError)
deriving DecidableEq, Repr

def policyVersion : String := "agent-run-api-v1"

def stepBudget : Nat := 12

def toolCallBudget : Nat := 20

def retryBudget : Nat := 1

def runDuration : Duration := minutes 10

def maxActiveRuns : Nat := 32

/-- The states before an execution. -/
def AgentRunState.isEarly : AgentRunState → Bool
  | .created | .planning | .ready => true
  | .running | .awaitingApproval | .completed | .failed | .cancelled | .expired => false

def legalTransitions : AgentRunState → List AgentRunState
  | .created => [.planning, .cancelled, .expired]
  | .planning => [.ready, .failed, .cancelled, .expired]
  | .ready => [.running, .cancelled, .expired]
  | .running =>
      [.running, .awaitingApproval, .completed, .failed, .cancelled, .expired]
  | .awaitingApproval => [.running, .failed, .cancelled, .expired]
  | .completed | .failed | .cancelled | .expired => []

theorem legalTransitions_eq_nil_iff (s : AgentRunState) :
    legalTransitions s = [] ↔ s.isTerminal = true := by
  cases s <;> decide

/-! ## Rows of a record -/

namespace RunRecord

def getStep (r : RunRecord) (id : Uuid) : Option AgentStep :=
  r.steps.find? (·.id == id)

def getInvocation (r : RunRecord) (id : Uuid) : Option ToolInvocation :=
  r.invocations.find? (·.id == id)

def updateStep (r : RunRecord) (id : Uuid) (f : AgentStep → AgentStep) : RunRecord :=
  { r with steps := r.steps.map fun s => if s.id = id then f s else s }

def updateInvocation (r : RunRecord) (id : Uuid)
    (f : ToolInvocation → ToolInvocation) : RunRecord :=
  { r with invocations := r.invocations.map fun i => if i.id = id then f i else i }

@[simp] theorem updateStep_run {r : RunRecord} {id : Uuid} {f} :
    (r.updateStep id f).run = r.run := rfl

@[simp] theorem updateStep_events {r : RunRecord} {id : Uuid} {f} :
    (r.updateStep id f).events = r.events := rfl

@[simp] theorem updateStep_invocations {r : RunRecord} {id : Uuid} {f} :
    (r.updateStep id f).invocations = r.invocations := rfl

@[simp] theorem updateInvocation_run {r : RunRecord} {id : Uuid} {f} :
    (r.updateInvocation id f).run = r.run := rfl

@[simp] theorem updateInvocation_events {r : RunRecord} {id : Uuid} {f} :
    (r.updateInvocation id f).events = r.events := rfl

@[simp] theorem updateInvocation_steps {r : RunRecord} {id : Uuid} {f} :
    (r.updateInvocation id f).steps = r.steps := rfl

def ordinalOf (r : RunRecord) (stepId : Uuid) : Option Nat :=
  (r.getStep stepId).map (·.ordinal)

/-- `list_agent_steps`: by ordinal, then by id. -/
def listAgentSteps (r : RunRecord) : List AgentStep :=
  r.steps.insertionSort fun a b =>
    a.ordinal < b.ordinal ∨ (a.ordinal = b.ordinal ∧ a.id.toNat ≤ b.id.toNat)

/-- `list_step_invocations`: those of an existing step, by ordinal and attempt. -/
def listStepInvocations (r : RunRecord) : List ToolInvocation :=
  (r.invocations.filter fun i => (r.ordinalOf i.stepId).isSome).insertionSort
    fun a b =>
      (r.ordinalOf a.stepId).getD 0 < (r.ordinalOf b.stepId).getD 0 ∨
        ((r.ordinalOf a.stepId).getD 0 = (r.ordinalOf b.stepId).getD 0 ∧
          a.attempt ≤ b.attempt)

theorem mem_listAgentSteps {r : RunRecord} {s : AgentStep} :
    s ∈ r.listAgentSteps ↔ s ∈ r.steps :=
  List.mem_insertionSort _

theorem mem_listStepInvocations {r : RunRecord} {i : ToolInvocation} :
    i ∈ r.listStepInvocations ↔ i ∈ r.invocations ∧ (r.ordinalOf i.stepId).isSome := by
  rw [listStepInvocations, List.mem_insertionSort, List.mem_filter]

/-- `list_agent_events`: the first `limit` in the order of their numbers. -/
def listAgentEvents (r : RunRecord) (limit : Nat) : List AgentEvent :=
  (r.events.insertionSort fun a b => a.sequence ≤ b.sequence).take limit

/-- The first number no event of the run has: `coalesce(max(sequence), -1) + 1`. -/
def nextSequence (r : RunRecord) : Nat :=
  match (r.events.map (·.sequence)).max? with
  | none => 0
  | some m => m + 1

end RunRecord

def ToolInvocation.discard (i : ToolInvocation) (code : String) (now : Instant) :
    ToolInvocation :=
  { i with
    status := .discarded
    safeErrorCode := some code
    startedAt := i.startedAt.or (some now)
    finishedAt := some now }

/-- Closes a step that is still open. -/
def AgentStep.cancelOpen (s : AgentStep) (now : Instant) : AgentStep :=
  if s.status.isOpen then
    { s with
      status := .cancelled
      startedAt := s.startedAt.or (some now)
      finishedAt := some now }
  else s

/-! ## Appending and moving -/

/-- The sequence is one past the greatest stored. The row goes in with the
caller's transaction, or the constraints refuse it and take the transaction
with it. -/
def appendAgentEvent (r : RunRecord) (e : AgentEvent) : Except Fault RunRecord :=
  match r.admitsEvent e with
  | .error err => .error (.database err)
  | .ok () => .ok { r with events := r.events ++ [{ e with sequence := r.nextSequence }] }

theorem appendAgentEvent_ok {r r' : RunRecord} {e : AgentEvent}
    (h : appendAgentEvent r e = .ok r') :
    r.admitsEvent e = .ok () ∧
      r' = { r with events := r.events ++ [{ e with sequence := r.nextSequence }] } := by
  unfold appendAgentEvent at h
  split at h
  · cases h
  · next hadmitted =>
      injection h with h
      exact ⟨hadmitted, h.symm⟩

/-- The metadata of an event that records a state of the run. -/
def stateMetadata (previous : Option AgentRunState) (new : AgentRunState)
    (resultingRevision : Nat) : Json :=
  .obj
    [("previous_state", match previous with
        | none => .null
        | some s => .str s.value),
      ("new_state", .str new.value),
      ("resulting_revision", .int resultingRevision)]

/-- The row after a legal move. A terminal row needs a start timestamp even
when the run never started. -/
def AgentRun.move (run : AgentRun) (newState : AgentRunState) (now : Instant)
    (safeErrorCode : Option String) : AgentRun :=
  { run with
    state := newState
    revision := run.revision + 1
    updatedAt := now
    safeErrorCode := safeErrorCode
    startedAt :=
      if newState.isActiveProcessing ∨ newState.isTerminal then
        run.startedAt.or (some now)
      else run.startedAt
    finishedAt := if newState.isTerminal then some now else run.finishedAt }

def stateChangedEvent (run : AgentRun) (newState : AgentRunState) (now : Instant) :
    AgentEvent :=
  { eventType := "agent_run.state_changed"
    safeCode := "agent_run_state_changed"
    safeMessage := "agent run state changed"
    metadata := stateMetadata (some run.state) newState (run.revision + 1)
    correlationId := run.correlationId
    occurredAt := now }

/-- The deadline an expiry of the run is measured against. -/
def AgentRun.expiryDeadline (run : AgentRun) : Instant :=
  if run.state = .created ∨ run.state = .planning then run.planningDeadline
  else run.runDeadline

def transitionRun (r : RunRecord) (expectedState : AgentRunState)
    (expectedRevision : Nat) (newState : AgentRunState) (now : Instant)
    (safeErrorCode : Option String := none) : Except Fault RunRecord :=
  if r.run.state ≠ expectedState ∨ newState ∉ legalTransitions r.run.state then
    .error .transitionConflict
  else if r.run.revision ≠ expectedRevision then .error .revisionConflict
  else if newState = .expired ∧ now < r.run.expiryDeadline then
    .error .transitionConflict
  else
    appendAgentEvent { r with run := r.run.move newState now safeErrorCode }
      (stateChangedEvent r.run newState now)

/-- All that a successful transition did. -/
theorem transitionRun_ok {r r' : RunRecord} {expectedState newState : AgentRunState}
    {expectedRevision : Nat} {now : Instant} {code : Option String}
    (h : transitionRun r expectedState expectedRevision newState now code = .ok r') :
    r.run.state = expectedState ∧ newState ∈ legalTransitions r.run.state ∧
      r.run.revision = expectedRevision ∧
      (newState = .expired → r.run.expiryDeadline ≤ now) ∧
      r' = { r with
        run := r.run.move newState now code
        events := r.events ++
          [{ stateChangedEvent r.run newState now with sequence := r.nextSequence }] } := by
  unfold transitionRun at h
  split at h
  · cases h
  · next hlegal =>
      rw [not_or, not_not, not_not] at hlegal
      split at h
      · cases h
      · next hrevision =>
          split at h
          · cases h
          · next hdeadline =>
              refine ⟨hlegal.1, hlegal.2, not_not.mp hrevision, ?_, ?_⟩
              · exact fun he => not_lt.mp fun hlt => hdeadline ⟨he, hlt⟩
              · exact (appendAgentEvent_ok h).2

/-! ## Creation -/

/-- The only client-controlled fields of a new run. -/
structure AgentRunCreate where
  projectId : Option Uuid
  agentKind : String
  agentVersion : String
  goalSummary : String
deriving DecidableEq, Repr

def AgentRunCreate.payload (q : AgentRunCreate) : Json :=
  .obj
    [("project_id", match q.projectId with
        | none => .null
        | some id => .str id.text),
      ("agent_kind", .str q.agentKind),
      ("agent_version", .str q.agentVersion),
      ("goal_summary", .str q.goalSummary)]

def hashIdempotencyKey (build : Build) (value : String) : String := build.sha256 value

def normalizedRequestFingerprint (build : Build) (q : AgentRunCreate) : String :=
  build.sha256 q.payload.canonical

/-- The `agent_runs` table with everything that hangs off it. -/
abbrev Runs := List RunRecord

def Runs.get (runs : Runs) (id : Uuid) : Option RunRecord :=
  runs.find? (·.run.id == id)

def Runs.put (runs : Runs) (r : RunRecord) : Runs :=
  runs.map fun q => if q.run.id = r.run.id then r else q

def Runs.byIdempotencyHash (runs : Runs) (keyHash : String) : Option RunRecord :=
  runs.find? (·.run.idempotencyKeyHash == keyHash)

theorem Runs.mem_put {runs : Runs} {r x : RunRecord} (h : x ∈ runs.put r) : x = r ∨ x ∈ runs := by
  obtain ⟨y, hy, rfl⟩ := List.mem_map.mp h
  split
  · exact .inl rfl
  · exact .inr hy

theorem Runs.mem_of_get {runs : Runs} {id : Uuid} {r : RunRecord} (h : runs.get id = some r) :
    r ∈ runs := List.mem_of_find?_eq_some h

theorem Runs.get_id {runs : Runs} {id : Uuid} {r : RunRecord}
    (h : runs.get id = some r) : r.run.id = id := by
  have := List.find?_some h
  simpa using this

theorem Runs.get_put {runs : Runs} {id : Uuid} {r r' : RunRecord}
    (hr : runs.get id = some r) (hid : r'.run.id = id)
    (id' : Uuid) : (runs.put r').get id' = if id' = id then some r' else runs.get id' := by
  unfold Runs.get Runs.put
  rw [List.find?_map]
  split
  · next hsame =>
      subst hsame
      have hkey : ((·.run.id == id') ∘ fun q : RunRecord =>
          if q.run.id = r'.run.id then r' else q) = (·.run.id == id') := by
        funext q
        simp only [Function.comp_apply, hid]
        split
        · next h => rw [hid, h]
        · rfl
      rw [hkey, show runs.find? (·.run.id == id') = some r from hr, Option.map_some,
        if_pos (by rw [Runs.get_id hr, hid])]
  · next hother =>
      have hkey : ((·.run.id == id') ∘ fun q : RunRecord =>
          if q.run.id = r'.run.id then r' else q) = (·.run.id == id') := by
        funext q
        simp only [Function.comp_apply]
        split
        · next h =>
            rw [h, hid, beq_eq_false_iff_ne.mpr (Ne.symm hother)]
        · rfl
      rw [hkey]
      cases hfind : runs.find? (·.run.id == id') with
      | none => rfl
      | some q =>
          have hq : q.run.id = id' := Runs.get_id hfind
          rw [Option.map_some, if_neg (by rw [hq, hid]; exact hother)]

theorem Runs.get_append {runs : Runs} {x : RunRecord} (hnone : runs.get x.run.id = none)
    (id : Uuid) : Runs.get (runs ++ [x]) id =
      if id = x.run.id then some x else runs.get id := by
  unfold Runs.get at *
  rw [List.find?_append]
  split
  · next hid =>
      subst hid
      rw [hnone, List.find?_singleton]
      simp
  · next hid =>
      rw [List.find?_singleton, if_neg (by simpa using Ne.symm hid), Option.or_none]

/-- The run a create call resolves to: the identifier and whether it is new. -/
structure CreateResult where
  runId : Uuid
  created : Bool
deriving DecidableEq, Repr

def replayOrConflict (r : RunRecord) (fingerprint : String) : Except Fault CreateResult :=
  if r.run.normalizedRequestFingerprint ≠ fingerprint then .error .idempotencyConflict
  else .ok ⟨r.run.id, false⟩

def resolveCreateReplay (runs : Runs) (keyHash fingerprint : String) :
    Except Fault (Option CreateResult) :=
  match runs.byIdempotencyHash keyHash with
  | none => .ok none
  | some r => (replayOrConflict r fingerprint).map some

/-- The row a create call inserts, with its first event. -/
def newRun (build : Build) (q : AgentRunCreate) (keyHash fingerprint : String)
    (now : Instant) (runId correlationId : Uuid) : RunRecord :=
  { run :=
      { id := runId
        projectId := q.projectId
        agentKind := q.agentKind
        agentVersion := q.agentVersion
        goalSummary := q.goalSummary
        registryVersion := build.registryVersion
        policyVersion := policyVersion
        state := .created
        stepBudget := stepBudget
        toolCallBudget := toolCallBudget
        retryBudget := retryBudget
        planningDeadline := now + runDuration
        runDeadline := now + runDuration
        revision := 0
        correlationId := correlationId
        idempotencyKeyHash := keyHash
        normalizedRequestFingerprint := fingerprint
        safeErrorCode := none
        createdAt := now
        updatedAt := now
        startedAt := none
        finishedAt := none }
    events :=
      [{ eventType := "agent_run.created"
         safeCode := "agent_run_created"
         safeMessage := "agent run created"
         metadata := stateMetadata none .created 0
         correlationId := correlationId
         occurredAt := now }] }

/-- The capacity lock serialises the count, so the count and the insertion are
one step. `runId` and `correlationId` are the UUIDs the call draws. -/
def createRun (build : Build) (runs : Runs) (projectExists : Uuid → Bool)
    (q : AgentRunCreate) (keyHash fingerprint : String) (now : Instant)
    (runId correlationId : Uuid) : Except Fault (CreateResult × Runs) :=
  match runs.byIdempotencyHash keyHash with
  | some r => (replayOrConflict r fingerprint).map (·, runs)
  | none =>
      if maxActiveRuns ≤ runs.countP (·.run.state.holdsCapacity) then .error .capacity
      else if q.projectId.any fun id => !projectExists id then .error .projectNotFound
      else if q.goalSummary.toList.contains Json.nul then .error (.database .data)
      else if (runs.get runId).isSome then .error (.database .integrity)
      else
        .ok (⟨runId, true⟩,
          runs ++ [newRun build q keyHash fingerprint now runId correlationId])

theorem replayOrConflict_ok {r : RunRecord} {fingerprint : String} {res : CreateResult}
    (h : replayOrConflict r fingerprint = .ok res) :
    r.run.normalizedRequestFingerprint = fingerprint ∧ res = ⟨r.run.id, false⟩ := by
  unfold replayOrConflict at h
  split at h
  · cases h
  · next hf =>
      injection h with h
      exact ⟨not_not.mp hf, h.symm⟩

/-- A create call replays the run that has its key, or adds one that nobody
has the key or the identifier of. -/
theorem createRun_ok {build : Build} {runs runs' : Runs} {projectExists : Uuid → Bool}
    {q : AgentRunCreate} {keyHash fingerprint : String} {now : Instant}
    {runId correlationId : Uuid} {res : CreateResult}
    (h : createRun build runs projectExists q keyHash fingerprint now runId
      correlationId = .ok (res, runs')) :
    (∃ r, runs.byIdempotencyHash keyHash = some r ∧
        r.run.normalizedRequestFingerprint = fingerprint ∧
        res = ⟨r.run.id, false⟩ ∧ runs' = runs) ∨
      (runs.byIdempotencyHash keyHash = none ∧ runs.get runId = none ∧
        runs.countP (·.run.state.holdsCapacity) < maxActiveRuns ∧
        res = ⟨runId, true⟩ ∧
        runs' = runs ++ [newRun build q keyHash fingerprint now runId correlationId]) := by
  unfold createRun at h
  split at h
  · next r hr =>
      cases hrep : replayOrConflict r fingerprint with
      | error e => rw [hrep] at h; cases h
      | ok res' =>
          rw [hrep] at h
          obtain ⟨hf, rfl⟩ := replayOrConflict_ok hrep
          injection h with h
          obtain ⟨rfl, rfl⟩ := Prod.mk.inj h
          exact .inl ⟨r, hr, hf, rfl, rfl⟩
  · next hnone =>
      split at h
      · cases h
      · next hcap =>
          split at h
          · cases h
          · split at h
            · cases h
            · split at h
              · cases h
              · next hid =>
                  injection h with h
                  obtain ⟨rfl, rfl⟩ := Prod.mk.inj h
                  refine .inr ⟨hnone, ?_, not_le.mp hcap, rfl, rfl⟩
                  simpa using hid

/-! ## Cancellation -/

/-- One live invocation is given up, and an event says so. -/
def cancelInvocation (now : Instant) (r : RunRecord) (i : ToolInvocation) :
    Except Fault RunRecord :=
  if i.status.isActive then
    appendAgentEvent (r.updateInvocation i.id (·.discard "cancellation_discard" now))
      { invocationId := some i.id
        eventType := "tool_invocation.discarded"
        safeCode := "cancellation_discard"
        safeMessage := "tool invocation discarded"
        metadata := .obj [("status", .str "discarded")]
        correlationId := r.run.correlationId
        occurredAt := now }
  else .ok r

def cancelRun (r : RunRecord) (expectedRevision : Nat) (now : Instant) :
    Except Fault RunRecord :=
  if r.run.state = .cancelled then .ok r
  else if r.run.state.isTerminal then .error .transitionConflict
  else if r.run.revision ≠ expectedRevision then .error .revisionConflict
  else do
    let r' ← r.listStepInvocations.foldlM (cancelInvocation now) r
    let r' := { r' with steps := r'.steps.map (·.cancelOpen now) }
    transitionRun r' r.run.state expectedRevision .cancelled now

end SecondBrain
