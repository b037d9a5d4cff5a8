import SecondBrain.AgentTools.Policy

/-!
# The rows of the agent runtime

One `RunRecord` is an `agent_runs` row with the rows of the four tables whose
foreign keys lead to it. Every operation of the agent runtime locks the run
first and then works inside one record, so a record is the unit the operations
are functions of; ownership (a step, an invocation, an approval or an event
belongs to the run it names) holds by construction.

Of the tables' CHECK constraints this file keeps those that depend on what the
operations compute: a run is finished exactly in a terminal state, and the
bounds on an event, an invocation and an approval. The ordering constraints on
timestamps compare clock readings of one and the same clock and are left out.
-/

namespace SecondBrain

open Lib

inductive AgentRunState where
  | created
  | planning
  | ready
  | running
  | awaitingApproval
  | completed
  | failed
  | cancelled
  | expired
deriving DecidableEq, Repr

def AgentRunState.value : AgentRunState → String
  | .created => "created"
  | .planning => "planning"
  | .ready => "ready"
  | .running => "running"
  | .awaitingApproval => "awaiting_approval"
  | .completed => "completed"
  | .failed => "failed"
  | .cancelled => "cancelled"
  | .expired => "expired"

theorem AgentRunState.value_injective {a b : AgentRunState}
    (h : a.value = b.value) : a = b := by
  cases a <;> cases b <;> first | rfl | (revert h; decide)

inductive StepStatus where
  | pending
  | running
  | succeeded
  | failed
  | skipped
  | cancelled
deriving DecidableEq, Repr

inductive InvocationStatus where
  | reserved
  | running
  | succeeded
  | failed
  | timedOut
  | cancelled
  | discarded
deriving DecidableEq, Repr

def InvocationStatus.value : InvocationStatus → String
  | .reserved => "reserved"
  | .running => "running"
  | .succeeded => "succeeded"
  | .failed => "failed"
  | .timedOut => "timed_out"
  | .cancelled => "cancelled"
  | .discarded => "discarded"

inductive ApprovalStatus where
  | pending
  | approved
  | rejected
  | expired
  | superseded
deriving DecidableEq, Repr

def ApprovalStatus.value : ApprovalStatus → String
  | .pending => "pending"
  | .approved => "approved"
  | .rejected => "rejected"
  | .expired => "expired"
  | .superseded => "superseded"

/-- What an invocation or an approval cites: an entity, and the version of it
that was read when the reader is version-checked. -/
structure EvidenceReference where
  entityType : String
  id : Uuid
  version : Option String := none
deriving DecidableEq, Repr

def EvidenceReference.toJson (e : EvidenceReference) : Json :=
  .obj ([("entity_type", .str e.entityType), ("id", .str e.id.text)] ++
    e.version.toList.map fun v => ("version", .str v))

structure AgentRun where
  id : Uuid
  projectId : Option Uuid
  agentKind : String
  agentVersion : String
  goalSummary : String
  registryVersion : String
  policyVersion : String
  state : AgentRunState
  stepBudget : Nat
  toolCallBudget : Nat
  retryBudget : Nat
  planningDeadline : Instant
  runDeadline : Instant
  revision : Nat
  correlationId : Uuid
  idempotencyKeyHash : String
  normalizedRequestFingerprint : String
  safeErrorCode : Option String
  createdAt : Instant
  updatedAt : Instant
  startedAt : Option Instant
  finishedAt : Option Instant
deriving DecidableEq, Repr

structure AgentStep where
  id : Uuid
  ordinal : Nat
  purpose : String
  toolName : Option String
  /-- The column holds a text, and the only writer writes `str` of an integer. -/
  toolVersion : Option Nat
  normalizedInput : Json
  expectedEvidence : List String
  successCondition : String
  stopCondition : String
  status : StepStatus
  startedAt : Option Instant
  finishedAt : Option Instant
deriving DecidableEq

structure ToolInvocation where
  id : Uuid
  stepId : Uuid
  attempt : Nat
  toolName : String
  toolVersion : Nat
  authority : Authority
  validatedInputHash : String
  validatedInput : Json
  idempotencyKeyHash : String
  status : InvocationStatus
  safeResultSummary : Option String
  evidenceReferences : List EvidenceReference
  safeErrorCode : Option String
  reservedAt : Instant
  startedAt : Option Instant
  finishedAt : Option Instant
deriving DecidableEq

structure ApprovalRequest where
  id : Uuid
  stepId : Uuid
  actionType : String
  targetType : String
  targetPublicId : Uuid
  targetVersion : String
  normalizedInput : Json
  proposalHash : String
  preview : String
  evidenceReferences : List EvidenceReference
  riskClassification : String
  status : ApprovalStatus
  createdAt : Instant
  expiresAt : Instant
  reviewedAt : Option Instant
  reviewerMetadata : Option Json
  executionIdentity : Uuid

structure AgentEvent where
  stepId : Option Uuid := none
  invocationId : Option Uuid := none
  approvalId : Option Uuid := none
  /-- Assigned when the event is appended. -/
  sequence : Nat := 0
  eventType : String
  safeCode : String
  safeMessage : String
  metadata : Json
  correlationId : Uuid
  occurredAt : Instant
  eventIdempotencyHash : Option String := none

structure RunRecord where
  run : AgentRun
  steps : List AgentStep := []
  invocations : List ToolInvocation := []
  approvals : List ApprovalRequest := []
  events : List AgentEvent := []

/-! ## The sets of states the services name -/

def AgentRunState.isTerminal : AgentRunState → Bool
  | .completed | .failed | .cancelled | .expired => true
  | .created | .planning | .ready | .running | .awaitingApproval => false

/-- `ACTIVE_PROCESSING_STATES`. -/
def AgentRunState.isActiveProcessing : AgentRunState → Bool
  | .planning | .ready | .running | .awaitingApproval => true
  | .created | .completed | .failed | .cancelled | .expired => false

/-- `CAPACITY_STATES`. -/
def AgentRunState.holdsCapacity (s : AgentRunState) : Bool :=
  s == .created || s.isActiveProcessing

theorem AgentRunState.holdsCapacity_iff (s : AgentRunState) :
    s.holdsCapacity = true ↔ s.isTerminal = false := by
  cases s <;> decide

/-- Pending or running: what cancellation, expiry and the executor call open. -/
def StepStatus.isOpen (s : StepStatus) : Bool := s == .pending || s == .running

def InvocationStatus.isActive (s : InvocationStatus) : Bool :=
  s == .reserved || s == .running

/-! ## Constraints checked when a row is flushed -/

/-- `ck_agent_runs_terminal_finished`. -/
def AgentRun.finishedIffTerminal (run : AgentRun) : Bool :=
  run.state.isTerminal == run.finishedAt.isSome

def maxEventMetadata : Nat := 4096

def maxInputOctets : Nat := 65536

def maxEvidenceOctets : Nat := 16384

/-- What an event row must meet to be stored beside the run's other rows: its
text columns and its `jsonb` column hold the values, the metadata is small
enough, its keys lead to rows of the run, and its hash is not taken. -/
def RunRecord.admitsEvent (r : RunRecord) (e : AgentEvent) : Except DatabaseError Unit :=
  if e.metadata.storable = false ∨ 100 < e.safeCode.length then .error .data
  else if maxEventMetadata < e.metadata.storedLen then .error .integrity
  else if e.stepId.any (fun id => r.steps.all (·.id ≠ id)) ∨
      e.invocationId.any (fun id => r.invocations.all (·.id ≠ id)) ∨
      e.approvalId.any (fun id => r.approvals.all (·.id ≠ id)) then
    .error .integrity
  else if e.eventIdempotencyHash.isSome ∧
      r.events.any (fun e' => e'.eventIdempotencyHash == e.eventIdempotencyHash) then
    .error .integrity
  else .ok ()

/-- A step row: `uq_agent_steps_run_ordinal`, the widths of its text columns and
the sizes of its two `jsonb` columns. -/
def RunRecord.admitsStep (r : RunRecord) (s : AgentStep) : Except DatabaseError Unit :=
  let texts := s.purpose :: s.successCondition :: s.stopCondition :: s.toolName.toList
  let evidence := Json.arr (s.expectedEvidence.map .str)
  if s.normalizedInput.storable = false ∨ evidence.storable = false ∨
      texts.any (fun text => text.toList.contains Json.nul) ∨
      [s.purpose, s.successCondition, s.stopCondition].any (1000 < ·.length) ∨
      s.toolName.any (200 < ·.length) then .error .data
  else if maxInputOctets < s.normalizedInput.storedLen ∨
      maxEvidenceOctets < evidence.storedLen then .error .integrity
  else if r.steps.any (fun t => t.ordinal == s.ordinal || t.id == s.id) then
    .error .integrity
  else .ok ()

/-- The primary key, `uq_tool_invocations_step_attempt`, the key of the
idempotency hash, and the size of the stored input. -/
def RunRecord.admitsInvocation (r : RunRecord) (i : ToolInvocation) :
    Except DatabaseError Unit :=
  if i.validatedInput.storable = false then .error .data
  else if maxInputOctets < i.validatedInput.storedLen then .error .integrity
  else if r.invocations.any (fun j =>
      j.id == i.id || (j.stepId == i.stepId && j.attempt == i.attempt) ||
      (j.toolName == i.toolName && j.toolVersion == i.toolVersion &&
        j.idempotencyKeyHash == i.idempotencyKeyHash)) then
    .error .integrity
  else .ok ()

/-- The five parts of a proposal's identity that `uq_approval_requests_exact_proposal`
compares inside one run. -/
def ApprovalRequest.sameProposal (a b : ApprovalRequest) : Bool :=
  a.stepId == b.stepId && a.actionType == b.actionType &&
    a.targetType == b.targetType && a.targetPublicId == b.targetPublicId &&
    a.targetVersion == b.targetVersion && a.proposalHash == b.proposalHash

def RunRecord.admitsApproval (r : RunRecord) (a : ApprovalRequest) :
    Except DatabaseError Unit :=
  let evidence := Json.arr (a.evidenceReferences.map (·.toJson))
  if a.normalizedInput.storable = false ∨ evidence.storable = false ∨
      a.preview.toList.contains Json.nul then .error .data
  else if maxInputOctets < a.normalizedInput.storedLen ∨
      maxEvidenceOctets < evidence.storedLen then .error .integrity
  else if a.expiresAt ≤ a.createdAt then .error .integrity
  else if r.approvals.any (fun b => b.id == a.id || a.sameProposal b) then
    .error .integrity
  else .ok ()

end SecondBrain
