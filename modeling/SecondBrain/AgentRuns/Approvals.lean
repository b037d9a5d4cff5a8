import SecondBrain.AgentRuns.Service
import SecondBrain.Agents.Catalog
import SecondBrain.Memories.Model

/-!
# Proposals and their review

A proposal is identified inside its run by the step, the target and a hash of
the exact change against the exact version of the target. Creating the same one
again answers the row that is there. A review is the only way out of pending:
it expires the proposal, or supersedes it because the target moved on, or
records the decision, and in each case an event goes with it.

`parse` stands for the validation of an update against its schema, and
`memories` for the row lock on the target.
-/

namespace SecondBrain

open Lib

def actionTypeMemoryUpdate : String := "memory.update"

def targetTypeMemory : String := "memory"

def proposalLifetime : Duration := hours 24

def maxEvidence : Nat := 20

def allowedEvidenceTypes : List String := ["project", "memory", "source", "source_chunk"]

def digest (build : Build) (j : Json) : String := build.sha256 j.canonical

def targetVersion (build : Build) (m : Memory) : String := digest build m.versionPayload

/-- The dump of the update, if it is valid and would change the target. -/
def normalizeMemoryUpdate (parse : PyValue → Option MemoryUpdate) (proposedInput : PyValue)
    (target : Memory) : Except Fault MemoryUpdate :=
  match parse proposedInput with
  | none => .error (.invalidProposal "invalid proposed input")
  | some update =>
      if update.all fun (f, v) => decide (target.value f = v) then
        .error (.invalidProposal "proposed update would not change the target")
      else .ok update

def proposalPayload (targetId : Uuid) (version : String) (normalized : Json) : Json :=
  .obj
    [("action_type", .str actionTypeMemoryUpdate),
      ("target_type", .str targetTypeMemory),
      ("target_id", .str targetId.text),
      ("target_version", .str version),
      ("normalized_input", normalized)]

def proposalHash (build : Build) (targetId : Uuid) (version : String)
    (normalized : Json) : String :=
  digest build (proposalPayload targetId version normalized)

/-- Allowed types only, each entity once, at most `maxEvidence` of them, and a
version only where it has the length of a hash. -/
def safeEvidence (references : List EvidenceReference) : List EvidenceReference :=
  (references.foldl (fun kept e =>
      if !allowedEvidenceTypes.contains e.entityType ||
          kept.any (fun k => k.entityType == e.entityType && k.id == e.id) then kept
      else kept ++ [{ e with version := e.version.filter (·.length = 64) }]) []).take
    maxEvidence

def previewOf (u : MemoryUpdate) : String :=
  let fields := (u.map fun (f, _) => f.value).insertionSort (· ≤ ·)
  String.ofList (("Update Memory fields: " ++ ", ".intercalate fields).toList.take 2000)

/-- `list_step_evidence`: what the succeeded invocations of the step cited. -/
def RunRecord.stepEvidence (r : RunRecord) (stepId : Uuid) : List EvidenceReference :=
  ((r.invocations.filter fun i => i.stepId == stepId && i.status == .succeeded).insertionSort
    fun a b => a.attempt < b.attempt ∨
      (a.attempt = b.attempt ∧ a.id.toNat ≤ b.id.toNat)).flatMap (·.evidenceReferences)

/-- The arguments a proposal is created from. The curator passes validated
evidence and the version it read, a client neither. -/
structure ProposalRequest where
  stepOrdinal : Nat
  actionType : String
  targetId : Uuid
  proposedInput : PyValue
  validatedEvidence : Option (List EvidenceReference) := none
  expectedTargetVersion : Option String := none
  allowCurator : Bool := false

/-- The row a new proposal is stored as, under the two UUIDs it draws. -/
def newApproval (stepId targetId : Uuid) (version identity : String) (u : MemoryUpdate)
    (evidence : List EvidenceReference) (now : Instant) (approvalId executionId : Uuid) :
    ApprovalRequest :=
  { id := approvalId
    stepId := stepId
    actionType := actionTypeMemoryUpdate
    targetType := targetTypeMemory
    targetPublicId := targetId
    targetVersion := version
    normalizedInput := dumpUpdate u
    proposalHash := identity
    preview := previewOf u
    evidenceReferences := evidence
    riskClassification := "bounded_memory_update"
    status := .pending
    createdAt := now
    expiresAt := now + proposalLifetime
    reviewedAt := none
    reviewerMetadata := none
    executionIdentity := executionId }

def createdHash (build : Build) (identity : String) : String :=
  digest build (.obj [("event", .str "created"), ("proposal", .str identity)])

def insertApprovalRequest (r : RunRecord) (a : ApprovalRequest) : Except Fault RunRecord :=
  match r.admitsApproval a with
  | .error err => .error (.database err)
  | .ok () => .ok { r with approvals := r.approvals ++ [a] }

/-- The row is inserted and its event appended in one transaction; the event's
hash covers the proposal but not the step it hangs on. -/
def storeProposal (build : Build) (r : RunRecord) (a : ApprovalRequest) :
    Except Fault RunRecord := do
  let r' ← insertApprovalRequest r a
  appendAgentEvent r'
    { stepId := some a.stepId
      approvalId := some a.id
      eventType := "approval_requested"
      safeCode := "proposal_created"
      safeMessage := "Approval request created for human review"
      metadata := .obj
        [("action_type", .str actionTypeMemoryUpdate),
          ("target_type", .str targetTypeMemory)]
      correlationId := r.run.correlationId
      occurredAt := a.createdAt
      eventIdempotencyHash := some (createdHash build a.proposalHash) }

/-- The row and whether this call made it. -/
def createProposal (build : Build) (parse : PyValue → Option MemoryUpdate)
    (memories : Uuid → Option Memory) (r : RunRecord) (q : ProposalRequest)
    (now : Instant) (approvalId executionId : Uuid) :
    Except Fault ((ApprovalRequest × Bool) × RunRecord) :=
  if q.actionType ≠ actionTypeMemoryUpdate then
    .error (.invalidProposal "unsupported action type")
  else if isResearch r.run.agentKind r.run.agentVersion then
    .error (.invalidProposal "Research Agent cannot create proposals")
  else if q.allowCurator = true ∧ isCurator r.run.agentKind r.run.agentVersion = false then
    .error (.invalidProposal "Curator proposal requires exact Curator identity")
  else if isCurator r.run.agentKind r.run.agentVersion = true ∧ q.allowCurator = false then
    .error (.invalidProposal
      "Memory Curator proposals are created only during synthesis")
  else match r.steps.find? (·.ordinal == q.stepOrdinal) with
  | none => .error (.notFound "agent step not found")
  | some step =>
      match memories q.targetId with
      | none => .error (.notFound "target memory not found")
      | some target =>
          if target.projectId ≠ r.run.projectId then
            .error (.notFound "target memory not found")
          else if q.expectedTargetVersion.any (· ≠ targetVersion build target) then
            .error (.invalidProposal "proposal target evidence is stale")
          else do
            let update ← normalizeMemoryUpdate parse q.proposedInput target
            let version := targetVersion build target
            let identity := proposalHash build target.id version (dumpUpdate update)
            let evidence := safeEvidence
              (q.validatedEvidence.getD (r.stepEvidence step.id))
            let approval := newApproval step.id target.id version identity update
              evidence now approvalId executionId
            match r.approvals.find? approval.sameProposal with
            | some existing => return ((existing, false), r)
            | none =>
                let r' ← storeProposal build r approval
                return ((approval, true), r')

/-- Only the curator's synthesis comes this way, and its version must look like
one before anything is read. -/
def createCuratorProposal (build : Build) (parse : PyValue → Option MemoryUpdate)
    (memories : Uuid → Option Memory) (r : RunRecord) (stepOrdinal : Nat)
    (actionType : String) (targetId : Uuid) (expectedTargetVersion : String)
    (proposedInput : PyValue) (validatedEvidence : List EvidenceReference)
    (now : Instant) (approvalId executionId : Uuid) :
    Except Fault ((ApprovalRequest × Bool) × RunRecord) :=
  if expectedTargetVersion.length ≠ 64 ∨
      expectedTargetVersion.toList.any (fun c => !"0123456789abcdef".toList.contains c) then
    .error (.invalidProposal "invalid proposal target version")
  else
    createProposal build parse memories r
      { stepOrdinal := stepOrdinal
        actionType := actionType
        targetId := targetId
        proposedInput := proposedInput
        validatedEvidence := some validatedEvidence
        expectedTargetVersion := some expectedTargetVersion
        allowCurator := true }
      now approvalId executionId

/-! ## Review -/

inductive Decision where
  | approve
  | reject
deriving DecidableEq, Repr

def Decision.value : Decision → String
  | .approve => "approve"
  | .reject => "reject"

def Decision.desired : Decision → ApprovalStatus
  | .approve => .approved
  | .reject => .rejected

/-- How a review ended. The last two are raised, but after the transaction they
stand for was committed. -/
inductive ReviewOutcome where
  | unchanged
  | recorded
  | expired
  | stale
deriving DecidableEq, Repr

def reviewMetadata (source key value : String) : Json :=
  .obj [("source", .str source), (key, .str value)]

/-- The status a review of a pending proposal gives it, with the text of the
event, the reviewer metadata and the outcome. -/
def reviewVerdict (build : Build) (r : RunRecord) (a : ApprovalRequest)
    (target : Option Memory) (decision : Decision) (now : Instant) :
    ApprovalStatus × String × Json × ReviewOutcome :=
  if a.expiresAt ≤ now then
    (.expired, "Approval request expired", reviewMetadata "server" "reason" "expired",
      .expired)
  else if target.all fun m =>
      decide (m.projectId ≠ r.run.projectId ∨ targetVersion build m ≠ a.targetVersion) then
    (.superseded, "Approval request target is stale",
      reviewMetadata "server" "reason" "stale_target", .stale)
  else
    (decision.desired,
      "Approval request " ++ decision.desired.value ++ " by human review",
      reviewMetadata "human_api" "decision" decision.value, .recorded)

def reviewProposal (build : Build) (memories : Uuid → Option Memory) (r : RunRecord)
    (approvalId : Uuid) (decision : Decision) (now : Instant) :
    Except Fault (ReviewOutcome × RunRecord) :=
  match r.approvals.find? (·.id == approvalId) with
  | none => .error (.notFound "approval request not found")
  | some a =>
      if a.status = decision.desired then .ok (.unchanged, r)
      else if a.status ≠ .pending then .error .reviewConflict
      else do
        let (status, message, metadata, outcome) :=
          reviewVerdict build r a (memories a.targetPublicId) decision now
        let code := "approval_" ++ status.value
        let reviewed := { a with
          status := status
          reviewedAt := some now
          reviewerMetadata := some metadata }
        let r' ← appendAgentEvent
          { r with approvals := r.approvals.map fun b => if b.id = a.id then reviewed else b }
          { stepId := some a.stepId
            approvalId := some a.id
            eventType := code
            safeCode := code
            safeMessage := message
            metadata := .obj
              [("action_type", .str a.actionType), ("status", .str status.value)]
            correlationId := r.run.correlationId
            occurredAt := now
            eventIdempotencyHash := some (digest build
              (.obj [("event", .str code), ("approval", .str a.id.text)])) }
        return (outcome, r')

end SecondBrain
