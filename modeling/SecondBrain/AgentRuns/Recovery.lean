import SecondBrain.AgentRuns.Executor

/-!
# Operator recovery of one run

`prepareOne` looks at the rows of a run that nobody may be executing any more
and either expires or fails it, or discards its stale invocation, and answers a
claim when there is work a new executor may go on with. It never waits for the
executor whose invocation it discards: that one learns from the row's status
when it comes back.

`classifyRun` is the read-only scan over the same rows.
-/

namespace SecondBrain

open Lib

def recoveryGrace : Duration := seconds 30

def exactPureReadDefinition (build : Build) (run : AgentRun) (step : Option AgentStep)
    (i : ToolInvocation) : Bool :=
  match step with
  | none => false
  | some s =>
      run.registryVersion == build.registryVersion && s.toolName == some i.toolName &&
        s.toolVersion == some i.toolVersion && i.authority == .read &&
        (build.getExact i.toolName i.toolVersion).any (·.idempotency == .pureRead)

/-- From when on nobody is waiting for the invocation any more. -/
def staleAt (build : Build) (i : ToolInvocation) : Instant :=
  i.reservedAt +
    seconds (((build.getExact i.toolName i.toolVersion).map (·.timeoutSeconds)).getD 0) +
    recoveryGrace

def RunRecord.activeInvocations (r : RunRecord) : List ToolInvocation :=
  r.listStepInvocations.filter (·.status.isActive)

structure RecoveryFinding where
  state : AgentRunState
  code : String
  ordinal : Option Nat := none
  attempt : Option Nat := none
  relevantAt : Instant
deriving DecidableEq, Repr

def classifyRun (build : Build) (r : RunRecord) (now : Instant) : Option RecoveryFinding :=
  let run := r.run
  let steps := r.listAgentSteps.take 13
  if (run.state = .created ∨ run.state = .planning) ∧ run.planningDeadline ≤ now then
    some { state := run.state, code := "deadline_expired", relevantAt := run.planningDeadline }
  else if (run.state = .ready ∨ run.state = .running) ∧ run.runDeadline ≤ now then
    some { state := run.state, code := "deadline_expired", relevantAt := run.runDeadline }
  else if run.state = .running then
    match r.activeInvocations with
    | i :: _ =>
        if staleAt build i ≤ now then
          let step := steps.find? (·.id == i.stepId)
          some
            { state := run.state
              code :=
                if exactPureReadDefinition build run step i then "stale_pure_read"
                else "ambiguous_recovery_denied"
              ordinal := step.map (·.ordinal)
              attempt := some i.attempt
              relevantAt := staleAt build i }
        else none
    | [] =>
        some
          { state := run.state
            code :=
              if !steps.isEmpty && steps.all (·.status == .succeeded) then
                "completion_pending"
              else if steps.any (·.status.isOpen) then "durable_work_remaining"
              else "recovery_state_invalid"
            relevantAt := run.updatedAt }
  else none

/-- The stale invocation is given up and an event says which attempt it was. -/
def discardStale (r : RunRecord) (i : ToolInvocation) (now : Instant) :
    Except Fault RunRecord :=
  appendAgentEvent
    (r.updateInvocation i.id fun i =>
      { i with
        status := .discarded
        safeErrorCode := some "tool_timeout"
        startedAt := i.startedAt.or (some i.reservedAt)
        finishedAt := some now })
    { stepId := some i.stepId
      invocationId := some i.id
      eventType := "agent_recovery.reconciled"
      safeCode := "stale_pure_read_discarded"
      safeMessage := "stale pure-read invocation discarded"
      metadata := .obj [("attempt", .int i.attempt)]
      correlationId := r.run.correlationId
      occurredAt := now }

def failInvalid (r : RunRecord) (now : Instant) : Except Fault RunRecord :=
  transitionRun r .running r.run.revision .failed now (some "recovery_state_invalid")

/-- The one active invocation: left alone while it is fresh, otherwise settled,
with a claim where the retry budget allows another attempt. -/
def recoverActive (build : Build) (r : RunRecord) (i : ToolInvocation) (now : Instant) :
    Except Fault (Option ExecutionClaim × RunRecord) :=
  let step := r.listAgentSteps.find? (·.id == i.stepId)
  if now < staleAt build i then .ok (none, r)
  else if exactPureReadDefinition build r.run step i then do
    let r' ← discardStale r i now
    match step with
    | some s =>
        if r.run.retryBudget ≤ i.attempt then do
          let r' ← failActiveStep r' s "retry_exhausted" now
          return (none, r')
        else return (some (executionClaimOf r.run), r')
    | none => .error .assertion
  else match step with
  | none => do
      let r' ← failInvalid r now
      return (none, r')
  | some s => do
      let r' ← failActiveStep r s "ambiguous_recovery_denied" now
      return (none, r')

/-- No active invocation: a claim where the steps allow one. -/
def recoverIdle (r : RunRecord) (now : Instant) :
    Except Fault (Option ExecutionClaim × RunRecord) :=
  let steps := r.listAgentSteps
  if steps.isEmpty ∨ steps.any (·.status.isOpen) = false then
    if steps.isEmpty = false ∧ steps.all (·.status == .succeeded) then
      .ok (some (executionClaimOf r.run), r)
    else do
      let r' ← failInvalid r now
      return (none, r')
  else if steps.any fun s => s.status == .running &&
      !r.listStepInvocations.any (·.stepId == s.id) then
    match steps.find? (·.status == .running) with
    | none => .error .assertion
    | some s => do
        let r' ← failActiveStep r s "recovery_state_invalid" now
        return (none, r')
  else .ok (some (executionClaimOf r.run), r)

def prepareOne (build : Build) (r : RunRecord) (now : Instant) :
    Except Fault (Option ExecutionClaim × RunRecord) :=
  if isReservedAutomationAgentIdentity r.run.agentKind r.run.agentVersion then
    .error .agentVersion
  else if r.run.state.isTerminal then .ok (none, r)
  else if (r.run.state = .created ∨ r.run.state = .planning) ∧
      r.run.planningDeadline ≤ now then do
    let r' ← transitionRun r r.run.state r.run.revision .expired now
      (some "deadline_expired")
    return (none, r')
  else if r.run.state = .ready then
    if r.run.runDeadline ≤ now then do
      let r' ← transitionRun r .ready r.run.revision .expired now (some "deadline_expired")
      return (none, r')
    else .ok (none, r)
  else if r.run.state ≠ .running then .ok (none, r)
  else if r.run.runDeadline ≤ now then do
    let r' ← expireExecution r now
    return (none, r')
  else match r.activeInvocations with
  | [] => recoverIdle r now
  | [i] => recoverActive build r i now
  | _ :: _ :: _ => do
      let r' ← failInvalid r now
      return (none, r')

end SecondBrain
