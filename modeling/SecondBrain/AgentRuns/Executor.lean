import SecondBrain.AgentPlanning.Service

/-!
# Executing a frozen plan

An execution is a loop of short transactions: `reserveNext` locks the run,
picks the first open step and reserves an invocation for it, the tool is called
outside any of these transactions, and `finalizeInvocation` records what came
back. `claimExecution` opens the loop once per run, `completeRun` closes it.
The loop's state is in the database only; the claim carries what was captured
about the run and nothing that changes.

A retry is the second reservation of a step that is still running, allowed when
its first invocation ended with a code that a pure read may repeat.
-/

namespace SecondBrain

open Lib

inductive RetryClass where
  | never
  | safeTransientRead
  | ambiguousManualRecovery
deriving DecidableEq, Repr

def transientReadCodes : List String :=
  ["tool_timeout", "tool_provider_unavailable", "tool_provider_failed"]

def classifyRetry (safeErrorCode : Option String) (authority : Authority)
    (idempotency : IdempotencyClass) : RetryClass :=
  if safeErrorCode.any transientReadCodes.contains then
    if authority = .read ∧ idempotency = .pureRead then .safeTransientRead
    else .ambiguousManualRecovery
  else .never

structure ExecutionClaim where
  runId : Uuid
  projectScope : Option Uuid
  registryVersion : String
  toolCallBudget : Nat
  agentKind : String := "manual"
  agentVersion : String := "1"
  goalSummary : String := "Manual Agent Run"
deriving DecidableEq, Repr

def executionClaimOf (run : AgentRun) : ExecutionClaim :=
  { runId := run.id
    projectScope := run.projectId
    registryVersion := run.registryVersion
    toolCallBudget := run.toolCallBudget
    agentKind := run.agentKind
    agentVersion := run.agentVersion
    goalSummary := run.goalSummary }

/-- The revision the request that started the execution carried, if its event
is among the first thousand. -/
def originalClaimRevision (r : RunRecord) : Option Int :=
  ((r.listAgentEvents 1000).find? fun e =>
    e.eventType == "agent_run.state_changed" &&
      (match e.metadata.field? "previous_state", e.metadata.field? "new_state" with
        | some (.str previous), some (.str new) =>
            previous == AgentRunState.ready.value && new == AgentRunState.running.value
        | _, _ => false)).bind fun e =>
    match e.metadata.field? "resulting_revision" with
    | some (.int resulting) => some (resulting - 1)
    | _ => none

/-- Whether the step names a registered tool that the agent may use. -/
def hasValidTool (build : Build) (run : AgentRun)
    (automaticAllowedTools : Option (List ToolIdentity)) (s : AgentStep) : Bool :=
  match s.toolName, s.toolVersion with
  | some name, some version =>
      (build.getExact name version).isSome &&
        (!isResearch run.agentKind run.agentVersion || researchTools.contains (name, version)) &&
        (!isCurator run.agentKind run.agentVersion || curatorTools.contains (name, version)) &&
        automaticAllowedTools.all (·.contains (name, version))
  | _, _ => false

/-- No claim means that nothing is left to execute: the request is a replay of
one that was executed, or the run expired now. -/
def claimExecution (build : Build) (r : RunRecord) (expectedRevision : Nat)
    (automaticAllowedTools : Option (List ToolIdentity)) (now : Instant) :
    Except Fault (Option ExecutionClaim × RunRecord) :=
  if r.run.needsScheduler ∧ automaticAllowedTools = none then .error .agentVersion
  else if r.run.state.isTerminal then
    if originalClaimRevision r = some (expectedRevision : Int) then .ok (none, r)
    else .error .revisionConflict
  else if r.run.state = .running then
    if originalClaimRevision r = some (expectedRevision : Int) then
      .error .transitionConflict
    else .error .revisionConflict
  else if r.run.revision ≠ expectedRevision then .error .revisionConflict
  else if r.run.state ≠ .ready then .error .transitionConflict
  else if r.run.registryVersion ≠ build.registryVersion then .error .registryVersion
  else if r.run.hasUnknownDefinition then .error .agentVersion
  else if r.run.runDeadline ≤ now then do
    let r' ← transitionRun r .ready r.run.revision .expired now (some "deadline_expired")
    return (none, r')
  else
    let steps := r.listAgentSteps
    if steps.isEmpty ∨ r.run.stepBudget < steps.length ∨
        steps.map (·.ordinal) ≠ List.range steps.length ∨
        steps.any (·.status ≠ .pending) ∨
        steps.any (fun s => !hasValidTool build r.run automaticAllowedTools s) then
      .error .planInvalid
    else do
      let r' ← transitionRun r .ready r.run.revision .running now
      return (some (executionClaimOf r.run), r')

/-! ## Ways a running run ends early -/

def failWithoutInvocation (r : RunRecord) (step : AgentStep) (code : String)
    (now : Instant) : Except Fault RunRecord := do
  let r' ← appendAgentEvent
    (r.updateStep step.id fun s =>
      { s with status := .failed, startedAt := some now, finishedAt := some now })
    { stepId := some step.id
      eventType := "agent_step.failed"
      safeCode := code
      safeMessage := "agent step failed"
      metadata := .obj [("ordinal", .int step.ordinal)]
      correlationId := r.run.correlationId
      occurredAt := now }
  transitionRun r' .running r.run.revision .failed now (some code)

def failActiveStep (r : RunRecord) (step : AgentStep) (code : String) (now : Instant) :
    Except Fault RunRecord :=
  transitionRun
    (r.updateStep step.id fun s => { s with status := .failed, finishedAt := some now })
    .running r.run.revision .failed now (some code)

/-- Live invocations are discarded without an event of their own. -/
def RunRecord.discardActive (r : RunRecord) (code : String) (now : Instant) : RunRecord :=
  { r with invocations := r.invocations.map fun i =>
      if i.status.isActive ∧ (r.ordinalOf i.stepId).isSome then i.discard code now else i }

def expireExecution (r : RunRecord) (now : Instant) : Except Fault RunRecord :=
  let r' := r.discardActive "deadline_expired" now
  transitionRun { r' with steps := r'.steps.map (·.cancelOpen now) }
    .running r.run.revision .expired now (some "deadline_expired")

/-! ## Reserving -/

/-- What the loop goes on with: an invocation to call. -/
structure Reservation where
  stepId : Uuid
  invocationId : Uuid
  timeoutSeconds : Nat
deriving DecidableEq, Repr

/-- Whether the step may be tried now, and as which attempt; otherwise the code
the run fails with, or the error raised. -/
def nextAttempt (build : Build) (r : RunRecord) (step : AgentStep) (name : String)
    (version : Nat) : Except Fault (Except String Nat) :=
  if step.status = .running then
    match r.listStepInvocations.filter fun i => i.stepId == step.id with
    | [prior] =>
        if prior.attempt ≠ 0 ∨
            (prior.status ≠ .failed ∧ prior.status ≠ .timedOut ∧
              prior.status ≠ .discarded) then .error .planInvalid
        else if (build.getExact name version).all fun d =>
            classifyRetry prior.safeErrorCode prior.authority d.idempotency ≠
              .safeTransientRead then .ok (.error "ambiguous_recovery_denied")
        else if r.run.retryBudget ≤ r.listStepInvocations.countP (0 < ·.attempt) then
          .ok (.error "retry_exhausted")
        else .ok (.ok 1)
    | _ => .error .planInvalid
  else .ok (.ok 0)

/-- The counts a policy decision reads off the record. -/
def policyRequestFor (r : RunRecord) (step : AgentStep) (name : String) (version : Nat)
    (providerAvailable : Bool) : PolicyRequest :=
  { name := name
    version := version
    requestedAuthority := .read
    candidateInput := step.normalizedInput
    capturedRegistryVersion := r.run.registryVersion
    capturedRunProjectScope := r.run.projectId
    capturedRunToolCallBudget := r.run.toolCallBudget
    totalCallsReserved := r.invocations.length
    toolCallsReserved := r.invocations.countP (·.toolName == name)
    configuredProviderAvailable := providerAvailable }

def newInvocation (build : Build) (r : RunRecord) (step : AgentStep) (name : String)
    (version attempt : Nat) (normalized : Json) (now : Instant) (invocationId : Uuid) :
    ToolInvocation :=
  let inputHash := build.sha256 normalized.canonical
  { id := invocationId
    stepId := step.id
    attempt := attempt
    toolName := name
    toolVersion := version
    authority := .read
    validatedInputHash := inputHash
    validatedInput := normalized
    idempotencyKeyHash := build.sha256
      (r.run.id.text ++ ":" ++ step.id.text ++ ":" ++ toString attempt ++ ":" ++ name ++
        ":" ++ toString version ++ ":" ++ inputHash)
    status := .running
    safeResultSummary := none
    evidenceReferences := []
    safeErrorCode := none
    reservedAt := now
    startedAt := some now
    finishedAt := none }

def reserveToolInvocation (r : RunRecord) (i : ToolInvocation) : Except Fault RunRecord :=
  match r.admitsInvocation i with
  | .error err => .error (.database err)
  | .ok () => .ok { r with invocations := r.invocations ++ [i] }

/-- The invocation is stored, its step runs, and an event says so. -/
def startInvocation (r : RunRecord) (step : AgentStep) (i : ToolInvocation)
    (now : Instant) : Except Fault RunRecord := do
  let r' ← reserveToolInvocation r i
  appendAgentEvent
    (r'.updateStep step.id fun s => { s with status := .running, startedAt := some now })
    { stepId := some step.id
      invocationId := some i.id
      eventType := "tool_invocation.started"
      safeCode := "tool_invocation_started"
      safeMessage := "tool invocation started"
      metadata := .obj [("ordinal", .int step.ordinal), ("tool_name", .str i.toolName)]
      correlationId := r.run.correlationId
      occurredAt := now }

/-- From the attempt on: the policy decides, and a rejection fails the run. -/
def reserveAttempt (build : Build) (r : RunRecord) (step : AgentStep) (name : String)
    (version attempt : Nat) (providerAvailable : Bool) (now : Instant)
    (invocationId : Uuid) : Except Fault (Option Reservation × RunRecord) :=
  match resolveToolPolicy build (policyRequestFor r step name version providerAvailable) with
  | .error code => do
      let r' ← failWithoutInvocation r step ("tool_policy_" ++ code.value) now
      return (none, r')
  | .ok policy => do
      let r' ← startInvocation r step
        (newInvocation build r step name version attempt policy.normalizedInput now
          invocationId) now
      return (some ⟨step.id, invocationId, policy.timeoutSeconds⟩, r')

/-- The first open step is taken; no reservation means that the loop ends. -/
def reserveNext (build : Build) (r : RunRecord)
    (automaticAllowedTools : Option (List ToolIdentity)) (providerAvailable : Bool)
    (now : Instant) (invocationId : Uuid) :
    Except Fault (Option Reservation × RunRecord) :=
  if r.run.state ≠ .running then .ok (none, r)
  else if isReservedAutomationAgentIdentity r.run.agentKind r.run.agentVersion ∧
      automaticAllowedTools = none then .error .agentVersion
  else if r.run.runDeadline ≤ now then do
    let r' ← expireExecution r now
    return (none, r')
  else match r.listAgentSteps.find? (·.status.isOpen) with
  | none => .ok (none, r)
  | some step =>
      if r.run.hasUnknownDefinition then do
        let r' ← failWithoutInvocation r step "agent_definition_unsupported" now
        return (none, r')
      else if (r.listAgentSteps.take step.ordinal).any (·.status ≠ .succeeded) then
        .error .planInvalid
      else match step.toolName, step.toolVersion with
      | some name, some version =>
          if automaticAllowedTools.any (!·.contains (name, version)) then do
            let r' ← failWithoutInvocation r step "tool_policy_authority_denied" now
            return (none, r')
          else do
            match ← nextAttempt build r step name version with
            | .error code =>
                let r' ← failActiveStep r step code now
                return (none, r')
            | .ok attempt =>
                reserveAttempt build r step name version attempt providerAvailable now
                  invocationId
      | _, _ => .error .assertion

/-! ## Finalising -/

/-- What a tool returned: its dump, and the identifiers a projection reads off
it (the entity's own, or those of the memories found). -/
structure ToolOutput where
  dump : Json
  ids : List Uuid

def safeProjection (output : ToolOutput) (toolName : String) :
    String × List EvidenceReference :=
  if toolName = "memory.search_explained" then
    ("explained search returned " ++ toString output.ids.length ++ " result(s)",
      output.ids.map fun id => { entityType := "memory", id := id })
  else
    let entityType := String.ofList (toolName.toList.takeWhile (· ≠ '.'))
    (entityType ++ " read succeeded",
      (output.ids.take 1).map fun id => { entityType := entityType, id := id })

/-- The code an invocation ends with: the caller's, or that its output is too
large, or none. -/
def finalCode (definition : ToolDefinition) (output : Option ToolOutput)
    (safeErrorCode : Option String) : Option String :=
  match safeErrorCode, output with
  | none, some o =>
      if definition.maxOutputBytes < o.dump.canonical.length then
        some "tool_output_oversized"
      else none
  | code, _ => code

/-- The output is measured only where its tool is still registered. -/
def resultCode (definition : Option ToolDefinition) (output : Option ToolOutput)
    (safeErrorCode : Option String) : Option String :=
  match definition with
  | some d => finalCode d output safeErrorCode
  | none => safeErrorCode

def isRetryable (definition : Option ToolDefinition) (i : ToolInvocation)
    (code : String) : Bool :=
  definition.any fun d => i.attempt == 0 &&
    classifyRetry (some code) i.authority d.idempotency == .safeTransientRead

/-- The invocation and the step's status after a result that counts. -/
def settleInvocation (definition : Option ToolDefinition) (i : ToolInvocation)
    (stepStatus : StepStatus) (output : Option ToolOutput) (code : Option String)
    (evidence : Option (List EvidenceReference)) (now : Instant) :
    ToolInvocation × StepStatus :=
  match code, output with
  | some code, _ =>
      ({ i with
          status := if code = "tool_timeout" then .timedOut else .failed
          safeErrorCode := some code
          finishedAt := some now },
        if isRetryable definition i code then .running else .failed)
  | none, some o =>
      let (summary, projected) := safeProjection o i.toolName
      ({ i with
          status := .succeeded
          safeResultSummary := some summary
          evidenceReferences := (evidence.filter (!·.isEmpty)).getD projected
          finishedAt := some now },
        .succeeded)
  | none, none => ({ i with finishedAt := some now }, stepStatus)

def finishedEvent (r : RunRecord) (step : AgentStep) (i : ToolInvocation)
    (code : Option String) (now : Instant) : AgentEvent :=
  { stepId := some step.id
    invocationId := some i.id
    eventType := "tool_invocation.finished"
    safeCode := code.getD "tool_invocation_succeeded"
    safeMessage :=
      if code.isSome then "tool invocation failed" else "tool invocation succeeded"
    metadata := .obj [("ordinal", .int step.ordinal), ("status", .str i.status.value)]
    correlationId := r.run.correlationId
    occurredAt := now }

/-- Records a result on the step and the invocation that are still waiting for
it, and fails the run when the step failed for good. -/
def recordResult (build : Build) (r : RunRecord) (step : AgentStep) (i : ToolInvocation)
    (output : Option ToolOutput) (safeErrorCode : Option String)
    (evidence : Option (List EvidenceReference)) (now : Instant) :
    Except Fault (Bool × RunRecord) :=
  let definition := build.getExact i.toolName i.toolVersion
  if safeErrorCode = none ∧ output.isSome ∧ definition.isNone then .error .assertion
  else do
    let code := resultCode definition output safeErrorCode
    let (settled, status) :=
      settleInvocation definition i step.status output code evidence now
    let r' ← appendAgentEvent
      ((r.updateInvocation i.id fun _ => settled).updateStep step.id fun s =>
        { s with
          status := status
          finishedAt := if status = .running then s.finishedAt else some now })
      (finishedEvent r step settled code now)
    if code.isSome ∧ status = .failed then do
      let r' ← transitionRun r' .running r.run.revision .failed now code
      return (false, r')
    else return (code.isNone || status == .running, r')

/-- Whether the loop goes on. A result that nobody waits for any more changes
at most its own invocation. -/
def finalizeInvocation (build : Build) (r : RunRecord) (stepId invocationId : Uuid)
    (output : Option ToolOutput) (safeErrorCode : Option String)
    (evidence : Option (List EvidenceReference)) (now : Instant) :
    Except Fault (Bool × RunRecord) :=
  match r.getStep stepId, r.getInvocation invocationId with
  | some step, some i =>
      if i.status ≠ .running then .ok (false, r)
      else if r.run.state ≠ .running then
        .ok (false, r.updateInvocation i.id fun i =>
          { i with
            status := .discarded
            safeErrorCode := some
              (if r.run.state = .cancelled then "cancellation_discard"
                else "tool_result_discarded")
            finishedAt := some now })
      else if r.run.runDeadline ≤ now then do
        let r' ← expireExecution
          (r.updateInvocation i.id fun i =>
            { i with
              status := .discarded
              safeErrorCode := some "deadline_expired"
              finishedAt := some now }) now
        return (false, r')
      else recordResult build r step i output safeErrorCode evidence now
  | _, _ => .ok (false, r)

/-! ## Completing -/

/-- The agent whose result an execution must have stored before it completes:
the event to look for and the code the run fails with without it. -/
structure ResultDuty where
  eventType : String
  missingCode : String
deriving DecidableEq, Repr

def researchDuty : ResultDuty := ⟨"research.result", "research_result_missing"⟩

def curatorDuty : ResultDuty := ⟨"curator.result", "curator_result_missing"⟩

def dailyBriefDuty : ResultDuty := ⟨"daily_brief.result", "daily_brief_result_missing"⟩

def projectWatchDuty : ResultDuty :=
  ⟨"project_watch.result", "project_watch_result_missing"⟩

/-- In the order the code asks. The two scheduled agents are asked only where
the caller synthesises for them. -/
def resultDuties (run : AgentRun) (requireDailyBrief requireProjectWatch : Bool) :
    List ResultDuty :=
  (if isResearch run.agentKind run.agentVersion then [researchDuty] else []) ++
    (if isCurator run.agentKind run.agentVersion then [curatorDuty] else []) ++
    (if requireDailyBrief then [dailyBriefDuty] else []) ++
    (if requireProjectWatch then [projectWatchDuty] else [])

def RunRecord.fulfils (r : RunRecord) (duty : ResultDuty) : Bool :=
  (r.listAgentEvents 1000).any (·.eventType == duty.eventType)

def completeRun (r : RunRecord) (requireDailyBrief requireProjectWatch : Bool)
    (now : Instant) : Except Fault RunRecord :=
  if r.run.state ≠ .running then .ok r
  else if r.steps.isEmpty ∨ r.steps.any (·.status ≠ .succeeded) then .ok r
  else match (resultDuties r.run requireDailyBrief requireProjectWatch).find?
      (!r.fulfils ·) with
  | some duty =>
      transitionRun r .running r.run.revision .failed now (some duty.missingCode)
  | none => transitionRun r .running r.run.revision .completed now

end SecondBrain
