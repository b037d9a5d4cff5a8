import SecondBrain.AgentRuns.Runtime

/-!
# Creating a proposal

A creation call first drafts the row it would store, and every refusal of its
input is a refusal of the draft. A draft whose step has the same proposal
already is answered with that one. Any other is stored together with its event,
and the log of the run has room for one event with a given hash. The hash is
made of the proposal and not of the step, so the two keys that guard a creation
disagree on two steps with equal proposals: the second is refused by the log
although its approval is not there.
-/

namespace SecondBrain

open Lib

section Creation

variable {build : Build} {parse : PyValue → Option MemoryUpdate}
  {memories : Uuid → Option Memory} {r : RunRecord} {q : ProposalRequest} {now : Instant}
  {approvalId executionId : Uuid} {a : ApprovalRequest}

/-- What a creation call would store, if its step and its input are eligible. -/
def draftProposal (build : Build) (parse : PyValue → Option MemoryUpdate)
    (memories : Uuid → Option Memory) (r : RunRecord) (q : ProposalRequest)
    (now : Instant) (approvalId executionId : Uuid) : Except Fault ApprovalRequest :=
  if q.actionType ≠ actionTypeMemoryUpdate then
    .error (.invalidProposal "unsupported action type")
  else if isResearch r.run.agentKind r.run.agentVersion then
    .error (.invalidProposal "Research Agent cannot create proposals")
  else if q.allowCurator = true ∧ isCurator r.run.agentKind r.run.agentVersion = false then
    .error (.invalidProposal "Curator proposal requires exact Curator identity")
  else if isCurator r.run.agentKind r.run.agentVersion = true ∧ q.allowCurator = false then
    .error (.invalidProposal
      "Memory Curator proposals are created only during synthesis")
  else match r.steps.find? (·.ordinal == q.stepOrdinal) with
  | none => .error (.notFound "agent step not found")
  | some step =>
      match memories q.targetId with
      | none => .error (.notFound "target memory not found")
      | some target =>
          if target.projectId ≠ r.run.projectId then
            .error (.notFound "target memory not found")
          else if q.expectedTargetVersion.any (· ≠ targetVersion build target) then
            .error (.invalidProposal "proposal target evidence is stale")
          else do
            let update ← normalizeMemoryUpdate parse q.proposedInput target
            let version := targetVersion build target
            return newApproval step.id target.id version
              (proposalHash build target.id version (dumpUpdate update)) update
              (safeEvidence (q.validatedEvidence.getD (r.stepEvidence step.id))) now
              approvalId executionId

/-- A draft is answered with the approval that is there, or stored. -/
def submitDraft (build : Build) (r : RunRecord) (a : ApprovalRequest) :
    Except Fault ((ApprovalRequest × Bool) × RunRecord) :=
  match r.approvals.find? a.sameProposal with
  | some existing => .ok ((existing, false), r)
  | none => do
      let r' ← storeProposal build r a
      return ((a, true), r')

theorem createProposal_eq :
    createProposal build parse memories r q now approvalId executionId =
      draftProposal build parse memories r q now approvalId executionId >>=
        submitDraft build r := by
  unfold createProposal draftProposal
  split
  · rfl
  split
  · rfl
  split
  · rfl
  split
  · rfl
  cases r.steps.find? (·.ordinal == q.stepOrdinal) with
  | none => rfl
  | some step =>
      cases memories q.targetId with
      | none => rfl
      | some target =>
          simp only []
          split
          · rfl
          split
          · rfl
          cases normalizeMemoryUpdate parse q.proposedInput target with
          | error e => rfl
          | ok update => rfl

/-- A draft hangs on a step of the run and lives for a day. -/
theorem draftProposal_ok
    (h : draftProposal build parse memories r q now approvalId executionId = .ok a) :
    (∃ s ∈ r.steps, s.id = a.stepId) ∧ a.createdAt < a.expiresAt ∧ a.id = approvalId ∧
      a.status = .pending := by
  unfold draftProposal at h
  split at h
  · cases h
  split at h
  · cases h
  split at h
  · cases h
  split at h
  · cases h
  split at h
  · cases h
  · next step hstep =>
      split at h
      · cases h
      · split at h
        · cases h
        split at h
        · cases h
        obtain ⟨update, -, h⟩ := bind_ok h
        cases h
        refine ⟨⟨step, List.mem_of_find?_eq_some hstep, rfl⟩, ?_, rfl, rfl⟩
        show now < now + proposalLifetime
        exact lt_add_of_pos_right now (by decide)

/-- What is drafted where nothing is refused. -/
theorem draftProposal_eq {step : AgentStep} {target : Memory} {update : MemoryUpdate}
    (haction : q.actionType = actionTypeMemoryUpdate)
    (hresearch : isResearch r.run.agentKind r.run.agentVersion = false)
    (hcurator : isCurator r.run.agentKind r.run.agentVersion = q.allowCurator)
    (hstep : r.steps.find? (·.ordinal == q.stepOrdinal) = some step)
    (htarget : memories q.targetId = some target)
    (hscope : target.projectId = r.run.projectId)
    (hversion : q.expectedTargetVersion.any (· ≠ targetVersion build target) = false)
    (hupdate : normalizeMemoryUpdate parse q.proposedInput target = .ok update) :
    draftProposal build parse memories r q now approvalId executionId =
      .ok (newApproval step.id target.id (targetVersion build target)
        (proposalHash build target.id (targetVersion build target) (dumpUpdate update)) update
        (safeEvidence (q.validatedEvidence.getD (r.stepEvidence step.id))) now approvalId
        executionId) := by
  unfold draftProposal
  rw [if_neg (not_not.mpr haction), hresearch, if_neg nofun, hcurator,
    if_neg fun h => absurd (h.1.symm.trans h.2) nofun,
    if_neg fun h => absurd (h.1.symm.trans h.2) nofun]
  simp only [hstep, htarget]
  rw [if_neg (not_not.mpr hscope), if_neg (by rw [hversion]; nofun), hupdate]
  rfl

/-! ## Storing -/

/-- The columns of the row hold the values, and its identifier is new. -/
def RunRecord.fits (r : RunRecord) (a : ApprovalRequest) : Bool :=
  let evidence := Json.arr (a.evidenceReferences.map (·.toJson))
  a.normalizedInput.storable && evidence.storable &&
    !a.preview.toList.contains Json.nul &&
    decide (a.normalizedInput.storedLen ≤ maxInputOctets) &&
    decide (evidence.storedLen ≤ maxEvidenceOctets) && r.approvals.all (·.id ≠ a.id)

/-- Some event of the run has the hash. -/
def RunRecord.hasEventHash (r : RunRecord) (hash : String) : Bool :=
  r.events.any (·.eventIdempotencyHash == some hash)

def createdMetadata : Json :=
  .obj [("action_type", .str actionTypeMemoryUpdate), ("target_type", .str targetTypeMemory)]

theorem createdMetadata_admitted :
    createdMetadata.storable = true ∧ createdMetadata.storedLen ≤ maxEventMetadata := by
  decide

def createdEvent (build : Build) (r : RunRecord) (a : ApprovalRequest) : AgentEvent :=
  { stepId := some a.stepId
    approvalId := some a.id
    eventType := "approval_requested"
    safeCode := "proposal_created"
    safeMessage := "Approval request created for human review"
    metadata := createdMetadata
    correlationId := r.run.correlationId
    occurredAt := a.createdAt
    eventIdempotencyHash := some (createdHash build a.proposalHash) }

theorem admitsApproval_ok (hlifetime : a.createdAt < a.expiresAt) :
    r.admitsApproval a = .ok () ↔
      r.fits a = true ∧ r.approvals.any a.sameProposal = false := by
  have htwins : r.approvals.any (fun b => b.id == a.id || a.sameProposal b) = false ↔
      r.approvals.all (·.id ≠ a.id) = true ∧ r.approvals.any a.sameProposal = false := by
    simp only [List.any_eq_false, List.all_eq_true, Bool.or_eq_true, not_or, beq_iff_eq,
      decide_eq_true_eq]
    exact forall₂_and
  unfold RunRecord.admitsApproval RunRecord.fits
  simp only []
  constructor
  · intro h
    split at h
    · cases h
    split at h
    · cases h
    split at h
    · cases h
    split at h
    · cases h
    · next htwin =>
        have hnew := htwins.mp (Bool.not_eq_true _ ▸ htwin)
        simp_all
  · rintro ⟨hfits, hnone⟩
    simp only [Bool.and_eq_true, Bool.not_eq_true', decide_eq_true_eq] at hfits
    obtain ⟨⟨⟨⟨⟨hinput, hevidence⟩, hpreview⟩, hsmall⟩, hfew⟩, hnew⟩ := hfits
    rw [if_neg, if_neg, if_neg (not_le.mpr hlifetime),
      if_neg (by rw [htwins.mpr ⟨hnew, hnone⟩]; decide)]
    · rw [not_or, not_lt, not_lt]
      exact ⟨hsmall, hfew⟩
    · rw [hinput, hevidence, hpreview]
      simp

/-- The event names a step of the run and the row just inserted, so only its
hash can be in the way. -/
theorem admitsEvent_created (hstep : ∃ s ∈ r.steps, s.id = a.stepId) :
    ({ r with approvals := r.approvals ++ [a] } : RunRecord).admitsEvent
        (createdEvent build r a) =
      if r.hasEventHash (createdHash build a.proposalHash) = true then .error .integrity
      else .ok () := by
  obtain ⟨s, hs, hid⟩ := hstep
  have hstored : (createdEvent build r a).metadata.storable = true :=
    createdMetadata_admitted.1
  have hsize : (createdEvent build r a).metadata.storedLen ≤ maxEventMetadata :=
    createdMetadata_admitted.2
  have hcode : ¬ 100 < (createdEvent build r a).safeCode.length :=
    not_lt.mpr (show "proposal_created".length ≤ 100 by decide)
  have hkeys : ((createdEvent build r a).stepId.any fun id => r.steps.all (·.id ≠ id)) =
      false := by
    rw [createdEvent, Option.any_some, List.all_eq_false]
    exact ⟨s, hs, by simp [hid]⟩
  have happroval : ((createdEvent build r a).approvalId.any fun id =>
      (r.approvals ++ [a]).all (·.id ≠ id)) = false := by
    rw [createdEvent, Option.any_some, List.all_eq_false]
    exact ⟨a, List.mem_append_right _ (List.mem_singleton_self a), by simp⟩
  unfold RunRecord.admitsEvent RunRecord.hasEventHash
  rw [if_neg (by rw [hstored]; simp [hcode]), if_neg (not_lt.mpr hsize),
    if_neg (by rw [hkeys, happroval]; simp [createdEvent])]
  simp [createdEvent]

theorem storeProposal_eq :
    storeProposal build r a =
      insertApprovalRequest r a >>= fun r' => appendAgentEvent r' (createdEvent build r a) :=
  rfl

/-- What a stored proposal leaves behind. -/
def RunRecord.withProposal (build : Build) (r : RunRecord) (a : ApprovalRequest) : RunRecord :=
  { r with
    approvals := r.approvals ++ [a]
    events := r.events ++ [{ createdEvent build r a with sequence := r.nextSequence }] }

theorem storeProposal_ok_iff (hstep : ∃ s ∈ r.steps, s.id = a.stepId)
    (hlifetime : a.createdAt < a.expiresAt) {r' : RunRecord} :
    storeProposal build r a = .ok r' ↔
      (r.fits a = true ∧ r.approvals.any a.sameProposal = false ∧
        r.hasEventHash (createdHash build a.proposalHash) = false) ∧
      r' = r.withProposal build a := by
  rw [storeProposal_eq, insertApprovalRequest, ← and_assoc, ← admitsApproval_ok hlifetime]
  cases hinsert : r.admitsApproval a with
  | error e => simp [Bind.bind, Except.bind]
  | ok u =>
      simp only [Bind.bind, Except.bind, appendAgentEvent, true_and,
        admitsEvent_created hstep]
      cases r.hasEventHash (createdHash build a.proposalHash) with
      | true => simp
      | false =>
          simp only [Bool.false_eq_true, if_false, true_and, Except.ok.injEq]
          exact eq_comm

/-! ## The two keys -/

/-- A creation answers the approval of its step, target, version and change, or
makes it, exactly when it is there already, or it fits its columns and no event
of the run has the hash of this proposal. -/
theorem createProposal_ok_iff
    (hdraft : draftProposal build parse memories r q now approvalId executionId = .ok a) :
    (∃ b fresh r', createProposal build parse memories r q now approvalId executionId =
        .ok ((b, fresh), r') ∧ a.sameProposal b = true ∧ b ∈ r'.approvals) ↔
      r.approvals.any a.sameProposal = true ∨
        (r.fits a = true ∧ r.hasEventHash (createdHash build a.proposalHash) = false) := by
  obtain ⟨hstep, hlifetime, -, -⟩ := draftProposal_ok hdraft
  have hcreate : createProposal build parse memories r q now approvalId executionId =
      submitDraft build r a := by
    rw [createProposal_eq, hdraft]
    rfl
  rw [hcreate, submitDraft]
  cases hown : r.approvals.find? a.sameProposal with
  | some existing =>
      have hsame := List.find?_some hown
      have hmem := List.mem_of_find?_eq_some hown
      have hany : r.approvals.any a.sameProposal = true :=
        List.any_eq_true.mpr ⟨existing, hmem, hsame⟩
      simp only [hany, true_or, iff_true]
      exact ⟨existing, false, r, rfl, hsame, hmem⟩
  | none =>
      have hany : r.approvals.any a.sameProposal = false := by
        rw [List.any_eq_false]
        exact fun b hb => List.find?_eq_none.mp hown b hb
      rw [hany]
      simp only [Bool.false_eq_true, false_or]
      constructor
      · rintro ⟨b, fresh, r', h, -, -⟩
        obtain ⟨r₁, hstore, -⟩ := bind_ok h
        obtain ⟨⟨hfits, -, hhash⟩, -⟩ := (storeProposal_ok_iff hstep hlifetime).mp hstore
        exact ⟨hfits, hhash⟩
      · rintro ⟨hfits, hhash⟩
        have hstore := (storeProposal_ok_iff hstep hlifetime).mpr
          ⟨⟨hfits, hany, hhash⟩, rfl⟩
        refine ⟨a, true, r.withProposal build a, ?_, ?_, ?_⟩
        · rw [hstore]
          rfl
        · simp [ApprovalRequest.sameProposal]
        · exact List.mem_append_right _ (List.mem_singleton_self a)

/-- Once stored, a proposal keeps every other step from storing an equal one. -/
theorem createProposal_elsewhere {r₁ r₂ : RunRecord} {b : ApprovalRequest}
    (hstored : r₁ = r.withProposal build b) (hlog : r₁.events <+: r₂.events)
    (hdraft : draftProposal build parse memories r₂ q now approvalId executionId = .ok a)
    (hfits : r₂.fits a = true) (hequal : a.proposalHash = b.proposalHash)
    (hother : r₂.approvals.any a.sameProposal = false) :
    createProposal build parse memories r₂ q now approvalId executionId =
      .error (.database .integrity) := by
  have hrecorded : r₂.hasEventHash (createdHash build a.proposalHash) = true := by
    obtain ⟨later, hlater⟩ := hlog
    rw [RunRecord.hasEventHash, ← hlater, hequal, hstored]
    simp [RunRecord.withProposal, createdEvent]
  obtain ⟨hstep, hlifetime, -, -⟩ := draftProposal_ok hdraft
  have hnone : r₂.approvals.find? a.sameProposal = none := by
    rw [List.find?_eq_none]
    exact fun b hb => List.any_eq_false.mp hother b hb
  have hinsert := (admitsApproval_ok hlifetime).mpr ⟨hfits, hother⟩
  rw [createProposal_eq, hdraft]
  change submitDraft build r₂ a = _
  rw [submitDraft, hnone, storeProposal_eq, insertApprovalRequest, hinsert]
  simp only [Bind.bind, Except.bind, appendAgentEvent, admitsEvent_created hstep, hrecorded,
    if_true]

/-- Drafts of one change of one target differ in their steps only. -/
theorem draftProposal_hash {q' : ProposalRequest} {a' : ApprovalRequest} {now' : Instant}
    {id' eid' : Uuid} (htarget : q'.targetId = q.targetId)
    (hinput : q'.proposedInput = q.proposedInput)
    (h : draftProposal build parse memories r q now approvalId executionId = .ok a)
    (h' : draftProposal build parse memories r q' now' id' eid' = .ok a') :
    a'.proposalHash = a.proposalHash := by
  have hhash : ∀ {q : ProposalRequest} {a : ApprovalRequest} {now : Instant} {id eid : Uuid},
      draftProposal build parse memories r q now id eid = .ok a →
      ∃ target update, memories q.targetId = some target ∧
        normalizeMemoryUpdate parse q.proposedInput target = .ok update ∧
        a.proposalHash =
          proposalHash build target.id (targetVersion build target) (dumpUpdate update) := by
    intro q a now id eid h
    unfold draftProposal at h
    split at h
    · cases h
    split at h
    · cases h
    split at h
    · cases h
    split at h
    · cases h
    split at h
    · cases h
    split at h
    · cases h
    · next target htarget =>
        split at h
        · cases h
        split at h
        · cases h
        obtain ⟨update, hupdate, h⟩ := bind_ok h
        cases h
        exact ⟨target, update, htarget, hupdate, rfl⟩
  obtain ⟨target, update, hmem, hnorm, heq⟩ := hhash h
  obtain ⟨target', update', hmem', hnorm', heq'⟩ := hhash h'
  rw [htarget, hmem, Option.some.injEq] at hmem'
  subst hmem'
  rw [hinput, hnorm, Except.ok.injEq] at hnorm'
  subst hnorm'
  rw [heq, heq']

end Creation

/-! ## Two steps with one proposal -/

namespace Runtime

variable {s : Runtime} {r : RunRecord} {runId : Uuid} {build : Build} {world : World}
  {q : ProposalRequest} {now : Instant} {approvalId executionId : Uuid} {a : ApprovalRequest}

/-- A request to propose what is not recorded yet commits the approval. -/
theorem step_propose (hr : s.runs.get runId = some r)
    (hdraft : draftProposal build world.parse world.memories r q now approvalId
      executionId = .ok a)
    (hfits : r.fits a = true) (hnone : r.approvals.any a.sameProposal = false)
    (hhash : r.hasEventHash (createdHash build a.proposalHash) = false)
    (hfin : r.run.finishedIffTerminal = true) :
    s.step (.propose build world runId q now approvalId executionId) =
      some (s.commit (r.withProposal build a)) := by
  obtain ⟨hstep, hlifetime, -, -⟩ := draftProposal_ok hdraft
  have hfind : r.approvals.find? a.sameProposal = none := by
    rw [List.find?_eq_none]
    exact fun b hb => List.any_eq_false.mp hnone b hb
  have hstore : storeProposal build r a = .ok (r.withProposal build a) :=
    (storeProposal_ok_iff hstep hlifetime).mpr ⟨⟨hfits, hnone, hhash⟩, rfl⟩
  have hcreate : createProposal build world.parse world.memories r q now approvalId
      executionId = .ok ((a, true), r.withProposal build a) := by
    rw [createProposal_eq, hdraft]
    change submitDraft build r a = _
    rw [submitDraft, hfind, hstore]
    rfl
  have hcommit : transact .empty (fun r => createProposal build world.parse world.memories r q
      now approvalId executionId) r = .ok ((a, true), r.withProposal build a) :=
    transact_empty hcreate rfl hfin
  rw [step, request, onRun, hr, Option.bind_some, hcommit]
  rfl

def deskBuild : Build :=
  { registryVersion := "agent-tools-v1"
    registry := [{ name := "memory.get", version := 1, normalize := some }]
    sha256 := id }

def deskMemory : Memory :=
  { id := 9, projectId := none, value := fun _ => .text none, updatedAt := 0 }

def deskWorld : World :=
  { projectExists := fun _ => false
    memories := fun id => if id = 9 then some deskMemory else none
    current := fun _ _ => none
    parse := fun
      | .str s => some [(.content, .text (some s))]
      | _ => none
    casefold := id }

def deskStep (ordinal : Nat) : ValidatedStep :=
  { ordinal := ordinal
    purpose := "look"
    toolName := "memory.get"
    toolVersion := 1
    normalizedInput := .null
    expectedEvidence := []
    successCondition := "read"
    stopCondition := "read" }

def deskProposal (ordinal : Nat) (content : String) : ProposalRequest :=
  { stepOrdinal := ordinal
    actionType := actionTypeMemoryUpdate
    targetId := 9
    proposedInput := .str content }

/-- A manual run whose plan has two steps. -/
def deskRun : List RuntimeStep :=
  [.create deskBuild deskWorld ⟨none, "manual", "1", "goal"⟩ "key" "print" 0 1 2,
    .claimPlan deskBuild 1 0 none 1,
    .freezePlan
      { runId := 1
        goalSummary := "goal"
        projectId := none
        registryVersion := "agent-tools-v1"
        policyVersion := policyVersion
        stepBudget := stepBudget
        toolCallBudget := toolCallBudget
        retryBudget := retryBudget
        planningRevision := 1 } [(deskStep 0, 7), (deskStep 1, 8)] 2]

/-- The first step's proposal is created. -/
theorem createProposal_ok_iff_sample :
    ∃ s, machine.Reachable s ∧ ∃ r ∈ s.runs, ∃ b fresh r',
      createProposal deskBuild deskWorld.parse deskWorld.memories r (deskProposal 0 "new") 3
        20 21 = .ok ((b, fresh), r') ∧ b ∈ r'.approvals := by
  obtain ⟨s, hs, hready⟩ := Machine.exists_reachable_of_exec machine deskRun
    (fun s => s.runs.any fun r =>
      match draftProposal deskBuild deskWorld.parse deskWorld.memories r
          (deskProposal 0 "new") 3 20 21 with
      | .ok a => r.fits a && !r.hasEventHash (createdHash deskBuild a.proposalHash)
      | .error _ => false) (s := {}) ⟨rfl, rfl⟩ (by decide +kernel)
  obtain ⟨r, hr, hdraft⟩ := List.any_eq_true.mp hready
  split at hdraft
  · next a ha =>
      rw [Bool.and_eq_true, Bool.not_eq_true'] at hdraft
      obtain ⟨b, fresh, r', hcreated, -, hb⟩ := (createProposal_ok_iff ha).mpr (.inr hdraft)
      exact ⟨s, hs, r, hr, b, fresh, r', hcreated, hb⟩
  · cases hdraft

/-- Both steps of the run are eligible for the proposal. -/
def deskEligible (r : RunRecord) : Bool :=
  match draftProposal deskBuild deskWorld.parse deskWorld.memories r (deskProposal 0 "new") 3
      20 21, draftProposal deskBuild deskWorld.parse deskWorld.memories r
      (deskProposal 1 "new") 4 22 23 with
  | .ok a, .ok b => r.fits a && (r.withProposal deskBuild a).fits b && !b.sameProposal a &&
      r.approvals.isEmpty && !r.hasEventHash (createdHash deskBuild a.proposalHash) && r.run.finishedIffTerminal
  | _, _ => false

/-- The proposal is recorded for the first step and then refused for the other. -/
theorem equal_proposal_refused :
    ∃ s, machine.Reachable s ∧ ∃ r, s.runs.get 1 = some r ∧ ∃ a,
      draftProposal deskBuild deskWorld.parse deskWorld.memories r (deskProposal 1 "new") 4
          22 23 = .ok a ∧
        r.fits a = true ∧
        createProposal deskBuild deskWorld.parse deskWorld.memories r (deskProposal 1 "new")
          4 22 23 = .error (.database .integrity) := by
  obtain ⟨s, hs, hready⟩ := Machine.exists_reachable_of_exec machine deskRun
    (fun s => (s.runs.get 1).any deskEligible) (s := {}) ⟨rfl, rfl⟩ (by decide +kernel)
  rw [Option.any_eq_true] at hready
  obtain ⟨r, hr, heligible⟩ := hready
  unfold deskEligible at heligible
  split at heligible
  · next a b ha hb =>
      simp only [Bool.and_eq_true, Bool.not_eq_true', List.isEmpty_iff] at heligible
      obtain ⟨⟨⟨⟨⟨hfits, hfits'⟩, hdiffer⟩, hempty⟩, hhash⟩, hfin⟩ := heligible
      have hnone : r.approvals.any a.sameProposal = false := by rw [hempty]; rfl
      have hnext : machine.next s (.propose deskBuild deskWorld 1 (deskProposal 0 "new") 3 20
          21) = some (s.commit (r.withProposal deskBuild a)) :=
        step_propose hr ha hfits hnone hhash hfin
      have hb' : draftProposal deskBuild deskWorld.parse deskWorld.memories
          (r.withProposal deskBuild a) (deskProposal 1 "new") 4 22 23 = .ok b := hb
      have hother : (r.withProposal deskBuild a).approvals.any b.sameProposal = false := by
        rw [RunRecord.withProposal, hempty, List.nil_append, List.any_cons, hdiffer]
        rfl
      refine ⟨_, .step hs trivial hnext, r.withProposal deskBuild a, ?_, b, hb', hfits', ?_⟩
      · have hid : r.run.id = 1 := Runs.get_id hr
        have hput : (r.withProposal deskBuild a).run.id = 1 := hid
        exact (Runs.get_put hr hput 1).trans (if_pos rfl)
      · exact createProposal_elsewhere rfl (List.prefix_refl _) hb' hfits'
          (draftProposal_hash (Eq.refl (9 : Uuid)) (Eq.refl (PyValue.str "new")) ha hb) hother
  · cases heligible

end Runtime

end SecondBrain
