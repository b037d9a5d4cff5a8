import SecondBrain.Agents.Research
import SecondBrain.AgentRuns.Approvals

/-!
# The Memory Curator: findings, proposals and the result that names them

The curator stores more than a result: each proposal becomes an approval
request of the run, with its own event, before the result event that lists
them is appended. All of it is one transaction, so a refusal anywhere leaves
nothing behind. The refusals of the approval service are turned into the
curator's own; an error of the database is not caught here.
-/

namespace SecondBrain

open Lib

structure CuratorFinding where
  text : String
  evidence : List String
  text_len : 1 ≤ text.length ∧ text.length ≤ 500
  evidence_len : 1 ≤ evidence.length ∧ evidence.length ≤ 20

/-- The contract fixes the action to `memory.update`. -/
structure CuratorProposal where
  targetEvidence : String
  proposedInput : List (String × PyValue)
  evidence : List String
  evidence_len : 1 ≤ evidence.length ∧ evidence.length ≤ 20

structure CuratorProviderResult where
  findings : List CuratorFinding
  proposals : List CuratorProposal
  findings_len : findings.length ≤ 10
  proposals_len : proposals.length ≤ 5

/-- The forbidden markers are those of Research. -/
def safeText (casefold : String → String) (text : String) : Bool :=
  !mentionsForbidden casefold text && !hasControl text

mutual

/-- Plain JSON values with safe texts; an instant or a UUID is none of them. -/
def safeProposedValue (casefold : String → String) : PyValue → Bool
  | .str s => safeText casefold s
  | .dict fields => safeProposedFields casefold fields
  | .list items => safeProposedItems casefold items
  | .none | .bool _ | .int _ | .real _ _ => true
  | .time _ | .uuid _ => false

def safeProposedItems (casefold : String → String) : List PyValue → Bool
  | [] => true
  | v :: rest => safeProposedValue casefold v && safeProposedItems casefold rest

def safeProposedFields (casefold : String → String) : List (String × PyValue) → Bool
  | [] => true
  | (key, v) :: rest =>
      safeText casefold key && safeProposedValue casefold v &&
        safeProposedFields casefold rest

end

def collectedById (evidence : List CollectedEvidence) (id : String) :
    Option CollectedEvidence :=
  evidence.reverse.find? (·.evidenceId == id)

/-- The evidence a list of references names, if every reference is known. -/
def resolveAll (evidence : List CollectedEvidence) (ids : List String) :
    Option (List CollectedEvidence) :=
  ids.mapM (collectedById evidence)

def findingJson (text : String) (refs : List CollectedEvidence) : Json :=
  .obj [("text", .str text),
    ("evidence", .arr (refs.map fun c =>
      .obj [("entity_type", .str c.entityType), ("entity_id", .str c.entityId.text),
        ("version", .str c.version)]))]

def validateFinding (casefold : String → String) (evidence : List CollectedEvidence)
    (f : CuratorFinding) : Except Fault Json :=
  if safeText casefold f.text = false ∨ ¬ f.evidence.Nodup then .error .validation
  else match resolveAll evidence f.evidence with
  | none => .error .validation
  | some refs => .ok (findingJson f.text refs)

def proposedJson (a : ApprovalRequest) : Json :=
  .obj [("approval_id", .str a.id.text), ("action_type", .str a.actionType),
    ("target_id", .str a.targetPublicId.text), ("target_version", .str a.targetVersion)]

/-- `except ApprovalError as exc: raise CuratorValidationError from exc`. -/
def refuseApproval : Fault → Fault
  | .notFound _ | .invalidProposal _ | .reviewConflict | .expiredApproval
  | .staleApproval => .validation
  | e => e

def Except.refuse {α : Type} (x : Except Fault α) : Except Fault α :=
  x.mapError refuseApproval

/-- The target a proposal names and what it cites: a memory among the cited,
nothing cited twice, and a safe input. -/
def validateProposal (casefold : String → String) (evidence : List CollectedEvidence)
    (p : CuratorProposal) : Except Fault (CollectedEvidence × List CollectedEvidence) :=
  match collectedById evidence p.targetEvidence, resolveAll evidence p.evidence with
  | some target, some refs =>
      if target.entityType ≠ "memory" ∨ target ∉ refs ∨ ¬ p.evidence.Nodup ∨
          safeProposedValue casefold (.dict p.proposedInput) = false then
        .error .validation
      else .ok (target, refs)
  | _, _ => .error .validation

def citedReference (c : CollectedEvidence) : EvidenceReference :=
  { entityType := c.entityType, id := c.entityId, version := some c.version }

/-- The approvals made so far, with the record they are stored in. -/
structure Proposing where
  record : RunRecord
  approvals : List ApprovalRequest := []

/-- One proposal, under the two UUIDs its row would draw. -/
def propose (build : Build) (parse : PyValue → Option MemoryUpdate)
    (memories : Uuid → Option Memory) (casefold : String → String)
    (evidence : List CollectedEvidence) (now : Instant) (s : Proposing)
    (p : CuratorProposal × Uuid × Uuid) : Except Fault Proposing := do
  let (target, refs) ← validateProposal casefold evidence p.1
  match s.record.getStep target.stepId with
  | none => .error .validation
  | some step =>
      let ((approval, _), record) ← Except.refuse <|
        createCuratorProposal build parse memories s.record step.ordinal
          actionTypeMemoryUpdate target.entityId target.version (.dict p.1.proposedInput)
          (refs.map citedReference) now p.2.1 p.2.2
      if s.approvals.any (·.id == approval.id) then .error .validation
      else return { record := record, approvals := s.approvals ++ [approval] }

def maxCuratorText : Nat := 12000

def curatorJson (findings : List Json) (approvals : List ApprovalRequest) : Json :=
  .obj [("findings", .arr findings),
    ("proposed_actions", .arr (approvals.map proposedJson))]

/-- `uuids` are those the row of each proposal would draw. -/
def persistCuratorResult (build : Build) (parse : PyValue → Option MemoryUpdate)
    (memories : Uuid → Option Memory) (casefold : String → String)
    (current : String → Uuid → Option String) (r : RunRecord)
    (evidence : List CollectedEvidence) (q : CuratorProviderResult)
    (uuids : Nat → Uuid × Uuid) (now : Instant) : Except Fault (Bool × RunRecord) :=
  if isCurator r.run.agentKind r.run.agentVersion = false ∨ r.run.state ≠ .running then
    .error .validation
  else if r.run.runDeadline ≤ now then do
    let r' ← transitionRun r .running r.run.revision .expired now (some "deadline_expired")
    return (false, r')
  else if stillCurrent r current evidence = false then .error .validation
  else do
    let findings ← q.findings.mapM (validateFinding casefold evidence)
    let proposed ← (q.proposals.zipIdx.map fun (p, k) => (p, uuids k)).foldlM
      (propose build parse memories casefold evidence now) { record := r }
    let value := curatorJson findings proposed.approvals
    if maxCuratorText < value.dumpsLen then .error .validation
    else do
      let r' ← appendAgentEvent proposed.record
        (resultEvent r "curator.result" "curator_result"
          "bounded Curator advice produced" value now)
      return (true, r')

end SecondBrain
