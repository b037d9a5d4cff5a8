import SecondBrain.AgentRuns.Service
import SecondBrain.Agents.Catalog

/-!
# Claiming, freezing and failing a plan

A plan is made in two transactions around a provider call: `claimPlanning`
moves the run from created to planning and hands out a claim with the revision
it left behind, and one of `finalizePlan` and `finalizeFailure` settles the
claim. Both finalisers compare the revision of the claim with the row's, so a
run that was cancelled or expired meanwhile is left alone.
-/

namespace SecondBrain

open Lib

structure PlanningClaim where
  runId : Uuid
  goalSummary : String
  projectId : Option Uuid
  registryVersion : String
  policyVersion : String
  stepBudget : Nat
  toolCallBudget : Nat
  retryBudget : Nat
  planningRevision : Nat
  agentKind : String := "manual"
  agentVersion : String := "1"
deriving DecidableEq, Repr

structure ValidatedStep where
  ordinal : Nat
  purpose : String
  toolName : String
  toolVersion : Nat
  normalizedInput : Json
  expectedEvidence : List String
  successCondition : String
  stopCondition : String

/-- An identity the public requests may not plan or execute: a reserved version
of an automation family, or an installed one without the scheduler's tools. -/
def AgentRun.needsScheduler (run : AgentRun) : Bool :=
  isReservedAutomationAgentIdentity run.agentKind run.agentVersion ||
    isDailyBrief run.agentKind run.agentVersion ||
    isProjectWatch run.agentKind run.agentVersion

def AgentRun.hasUnknownDefinition (run : AgentRun) : Bool :=
  isUnknownResearch run.agentKind run.agentVersion ||
    isUnknownCurator run.agentKind run.agentVersion

def isCompletePlan (run : AgentRun) (steps : List AgentStep) : Bool :=
  1 ≤ steps.length && steps.length ≤ min run.stepBudget 12 &&
    steps.map (·.ordinal) == List.range steps.length &&
    steps.all fun s => s.status == .pending && s.toolName.any (· ≠ "")

def claimOf (run : AgentRun) (planningRevision : Nat) : PlanningClaim :=
  { runId := run.id
    goalSummary := run.goalSummary
    projectId := run.projectId
    registryVersion := run.registryVersion
    policyVersion := run.policyVersion
    stepBudget := run.stepBudget
    toolCallBudget := run.toolCallBudget
    retryBudget := run.retryBudget
    planningRevision := planningRevision
    agentKind := run.agentKind
    agentVersion := run.agentVersion }

/-- No claim means that a complete plan is replayed. -/
def claimPlanning (build : Build) (r : RunRecord) (expectedRevision : Nat)
    (automaticAllowedTools : Option (List ToolIdentity)) (now : Instant) :
    Except Fault (Option PlanningClaim × RunRecord) :=
  if r.run.needsScheduler ∧ automaticAllowedTools = none then .error .agentVersion
  else if r.run.state = .ready then
    if isCompletePlan r.run (r.listAgentSteps.take 13) then .ok (none, r)
    else .error .transitionConflict
  else if r.run.revision ≠ expectedRevision then .error .revisionConflict
  else if r.run.registryVersion ≠ build.registryVersion then .error .registryVersion
  else if r.run.hasUnknownDefinition then .error .agentVersion
  else if r.run.state ≠ .created then .error .transitionConflict
  else do
    let r' ← transitionRun r .created expectedRevision .planning now
    return (some (claimOf r'.run r'.run.revision), r')

def ValidatedStep.toRow (s : ValidatedStep) (id : Uuid) : AgentStep :=
  { id := id
    ordinal := s.ordinal
    purpose := s.purpose
    toolName := some s.toolName
    toolVersion := some s.toolVersion
    normalizedInput := s.normalizedInput
    expectedEvidence := s.expectedEvidence
    successCondition := s.successCondition
    stopCondition := s.stopCondition
    status := .pending
    startedAt := none
    finishedAt := none }

def insertAgentStep (r : RunRecord) (s : AgentStep) : Except Fault RunRecord :=
  match r.admitsStep s with
  | .error err => .error (.database err)
  | .ok () => .ok { r with steps := r.steps ++ [s] }

/-- `rows` are the validated steps under the UUIDs the insertion draws. -/
def finalizePlan (r : RunRecord) (claim : PlanningClaim)
    (rows : List (ValidatedStep × Uuid)) (now : Instant) : Except Fault RunRecord :=
  if r.run.state ≠ .planning ∨ r.run.revision ≠ claim.planningRevision ∨
      r.steps.length ≠ 0 then .error .transitionConflict
  else do
    let r' ← rows.foldlM (fun r row => insertAgentStep r (row.1.toRow row.2)) r
    transitionRun r' .planning claim.planningRevision .ready now

/-- Whether the failure was recorded; a run that moved on is left alone. -/
def finalizeFailure (r : RunRecord) (claim : PlanningClaim) (safeErrorCode : String)
    (now : Instant) : Except Fault (Bool × RunRecord) :=
  if r.run.state ≠ .planning ∨ r.run.revision ≠ claim.planningRevision then
    .ok (false, r)
  else do
    let r' ← transitionRun r .planning claim.planningRevision .failed now
      (some safeErrorCode)
    return (true, r')

end SecondBrain
