import SecondBrain.AgentPlanning.Served

/-!
# The planner and the executor agree

While every call of a frozen plan succeeds at its first attempt, what the executor asks the
policy is what the plan was granted for (`Standing`). So an accepted plan is claimed, and no
reservation of its steps is refused (`frozen_plan_agrees`).
-/

namespace SecondBrain

open Lib Lib.Json Lib.Schema AgentTools

/-! ## Frozen plans and their executions -/

/-- What other transactions do to a run between those of its planner and executor: they
leave its steps, its invocations and the columns that are written once. -/
structure Elsewhere (r r' : RunRecord) : Prop where
  still : r'.run.still = r.run.still
  steps : r'.steps = r.steps
  invocations : r'.invocations = r.invocations

/-- The run was claimed for planning, a plan was accepted for the claim and stored. -/
inductive Frozen (build : Build) (forbiddenRequest : String → Bool) (available : Bool)
    (tools : Option (List ToolIdentity)) : RunRecord → Prop where
  | stored {r₀ r₁ r₂ r₃ r : RunRecord} {revision : Nat} {claim : PlanningClaim}
      {plan : PlanningResult} {steps : List ValidatedStep} {ids : List Uuid}
      {claimed finalized : Instant} :
      Orderly r₀ → CallerTools r₀.run tools →
      claimPlanning build r₀ revision tools claimed = .ok (some claim, r₁) →
      validatePlan build forbiddenRequest claim plan available tools = .ok steps →
      ids.length = steps.length →
      Elsewhere r₁ r₂ → finalizePlan r₂ claim (steps.zip ids) finalized = .ok r₃ →
      Elsewhere r₃ r → Frozen build forbiddenRequest available tools r

/-- Every call that was made so far succeeded at its first attempt. -/
inductive Executes (build : Build) (available : Bool) (tools : Option (List ToolIdentity))
    (r₀ : RunRecord) : RunRecord → Prop where
  | claimed : Executes build available tools r₀ r₀
  | other {r r' : RunRecord} : Executes build available tools r₀ r → Elsewhere r r' →
      Executes build available tools r₀ r'
  | call {r r₁ r₂ r' : RunRecord} {reserved finished : Instant} {id : Uuid} {res : Reservation}
      {output : ToolOutput} {evidence : Option (List EvidenceReference)} :
      Executes build available tools r₀ r →
      reserveNext build r tools available reserved id = .ok (some res, r₁) →
      Elsewhere r₁ r₂ →
      finalizeInvocation build r₂ res.stepId res.invocationId (some output) none evidence
        finished = .ok (true, r') →
      Executes build available tools r₀ r'

/-- A stored invocation has the identifier, or the hash, that the next one gets. -/
def Taken (build : Build) (r : RunRecord) (id : Uuid) : Prop :=
  ∃ j ∈ r.invocations, j.id = id ∨ ∃ step ∈ r.steps, step.status = .pending ∧
    ∃ name version normalized now, j.idempotencyKeyHash =
      (newInvocation build r step name version 0 normalized now id).idempotencyKeyHash

/-- The next invocation is reserved, or there is nothing to reserve, or the run is over its
deadline; all that the database may refuse is a key that is taken. -/
inductive NotRefused (build : Build) (available : Bool) (tools : Option (List ToolIdentity))
    (r : RunRecord) (now : Instant) (id : Uuid) : Prop where
  | reserved {res : Reservation} {r' : RunRecord} :
      reserveNext build r tools available now id = .ok (some res, r') →
      NotRefused build available tools r now id
  | nothing : r.run.state ≠ .running ∨ r.allSucceeded →
      reserveNext build r tools available now id = .ok (none, r) →
      NotRefused build available tools r now id
  | expired : r.run.runDeadline ≤ now →
      reserveNext build r tools available now id =
        (do let r' ← expireExecution r now; return (none, r')) →
      NotRefused build available tools r now id
  | taken : Taken build r id →
      reserveNext build r tools available now id = .error (.database .integrity) →
      NotRefused build available tools r now id

/-! ## Results that count -/

/-- No output that is too large is asked for again. -/
theorem oversized_not_retryable (definition : Option ToolDefinition) (i : ToolInvocation) :
    isRetryable definition i "tool_output_oversized" = false := by
  have hnever : ∀ authority idempotency,
      classifyRetry (some "tool_output_oversized") authority idempotency = .never := by
    intro authority idempotency
    rw [classifyRetry, if_neg (by decide)]
  cases definition with
  | none => rfl
  | some d =>
      rw [isRetryable, Option.any_some, hnever, Bool.and_eq_false_iff]
      exact .inr rfl

/-- An execution that goes on after an output has recorded a success. -/
theorem recordResult_success {build : Build} {r r' : RunRecord} {step : AgentStep}
    {i : ToolInvocation} {output : ToolOutput} {evidence : Option (List EvidenceReference)}
    {now : Instant} (h : recordResult build r step i (some output) none evidence now =
      .ok (true, r')) :
    r'.run = r.run ∧ ∃ (settled : ToolInvocation) (f : AgentStep → AgentStep),
      (∀ s, (f s).still = s.still ∧ (f s).status = .succeeded) ∧
      (settled.stepId = i.stepId ∧ settled.toolName = i.toolName ∧ settled.id = i.id) ∧
      r'.steps = (r.updateStep step.id f).steps ∧
      r'.invocations = (r.updateInvocation i.id fun _ => settled).invocations := by
  rw [recordResult] at h
  dsimp only at h
  split at h
  · cases h
  next hregistered =>
    cases hdefinition : build.getExact i.toolName i.toolVersion with
    | none =>
        rw [hdefinition] at hregistered
        exact absurd ⟨rfl, rfl, rfl⟩ hregistered
    | some d =>
        rw [hdefinition] at h
        by_cases hsize : d.maxOutputBytes < output.dump.canonical.length
        · have hcode : resultCode (some d) (some output) none = some "tool_output_oversized" := by
            rw [resultCode, finalCode, if_pos hsize]
          rw [hcode, settleInvocation, oversized_not_retryable] at h
          obtain ⟨r₁, -, h⟩ := bind_ok h
          rw [if_pos ⟨rfl, rfl⟩] at h
          obtain ⟨r₂, -, h⟩ := bind_ok h
          cases h
        · have hcode : resultCode (some d) (some output) none = none := by
            rw [resultCode, finalCode, if_neg hsize]
          have hends := @settleInvocation_ends (some d) i step.status (some output) none evidence
            now (.inl rfl)
          rw [hcode] at h
          generalize settleInvocation (some d) i step.status (some output) none evidence now = p
            at h hends
          obtain ⟨settled, status⟩ := p
          dsimp only at h hends
          obtain ⟨hstill, ⟨-, -, rfl⟩ | ⟨hnone, -⟩⟩ := hends
          · obtain ⟨r₁, hevent, h⟩ := bind_ok h
            rw [if_neg (by simp)] at h
            cases h
            obtain ⟨hrun, hsteps, hinvocations⟩ := appendAgentEvent_rows _ hevent
            have hcolumns : settled.stepId = i.stepId ∧ settled.toolName = i.toolName ∧
                settled.id = i.id :=
              ⟨@congrArg _ _ settled.still i.still ToolInvocation.stepId hstill,
                @congrArg _ _ settled.still i.still ToolInvocation.toolName hstill,
                @congrArg _ _ settled.still i.still ToolInvocation.id hstill⟩
            let closed : AgentStep → AgentStep := fun s => { s with
              status := .succeeded
              finishedAt := if StepStatus.succeeded = .running then s.finishedAt else some now }
            exact ⟨hrun, settled, closed, fun _ => ⟨rfl, rfl⟩, hcolumns, hsteps, hinvocations⟩
          · cases hnone

/-! ## How far an execution is -/

theorem AgentStep.toolName_of_still {s s' : AgentStep} (h : s'.still = s.still) :
    s'.toolName = s.toolName := @congrArg _ _ s'.still s.still AgentStep.toolName h

theorem AgentStep.toolVersion_of_still {s s' : AgentStep} (h : s'.still = s.still) :
    s'.toolVersion = s.toolVersion := @congrArg _ _ s'.still s.still AgentStep.toolVersion h

theorem AgentStep.normalizedInput_of_still {s s' : AgentStep} (h : s'.still = s.still) :
    s'.normalizedInput = s.normalizedInput :=
  @congrArg _ _ s'.still s.still AgentStep.normalizedInput h

/-- The statuses of the steps, of which `k` are done. -/
def statusAt (k : Nat) (current : StepStatus) (j : Nat) : StepStatus :=
  if j < k then .succeeded else if j = k then current else .pending

/-- The first `k` rows are done, that after them is `current`, and the first `calls` rows
have been called once each. -/
structure Standing (build : Build) (available : Bool) (tools : Option (List ToolIdentity))
    (rows : List AgentStep) (k : Nat) (current : StepStatus) (calls : Nat) (r : RunRecord) :
    Prop where
  plan : ServablePlan build available tools r.run rows
  steps : r.steps.map (·.still) = rows.map (·.still)
  status : ∀ j s, r.steps[j]? = some s → s.status = statusAt k current j
  invocations : r.invocations.map (fun i => (i.stepId, some i.toolName)) =
    (rows.take calls).map fun s => (s.id, s.toolName)
  invocationIds : (r.invocations.map (·.id)).Nodup
  calls_le : calls ≤ rows.length

namespace Standing

variable {build : Build} {available : Bool} {tools : Option (List ToolIdentity)}
  {rows : List AgentStep} {k calls : Nat} {current : StepStatus} {r r' : RunRecord}
  {step : AgentStep} {now : Instant} {id : Uuid}

theorem elsewhere (h : Standing build available tools rows k current calls r)
    (hother : Elsewhere r r') : Standing build available tools rows k current calls r' where
  plan := h.plan.of_still hother.still
  steps := by rw [hother.steps]; exact h.steps
  status := by rw [hother.steps]; exact h.status
  invocations := by rw [hother.invocations]; exact h.invocations
  invocationIds := by rw [hother.invocations]; exact h.invocationIds
  calls_le := h.calls_le

theorem length_eq (h : Standing build available tools rows k current calls r) :
    r.steps.length = rows.length := by
  have hlength := congrArg List.length h.steps
  rw [List.length_map, List.length_map] at hlength
  exact hlength

/-- The row that a step was. -/
theorem row (h : Standing build available tools rows k current calls r) {j : Nat}
    (hs : r.steps[j]? = some step) : ∃ row, rows[j]? = some row ∧ step.still = row.still := by
  have hmapped : (rows.map (·.still))[j]? = some step.still := by
    rw [← h.steps, List.getElem?_map, hs]
    rfl
  rw [List.getElem?_map] at hmapped
  obtain ⟨row, hrow, hsame⟩ := Option.map_eq_some_iff.mp hmapped
  exact ⟨row, hrow, hsame.symm⟩

theorem ids (h : Standing build available tools rows k current calls r) :
    (r.steps.map (·.id)).Nodup := by
  have hcolumn : ∀ steps : List AgentStep,
      steps.map (·.id) = (steps.map (·.still)).map (·.id) := fun steps => by
    rw [List.map_map]
    rfl
  rw [hcolumn, h.steps, ← hcolumn]
  exact h.plan.ids

theorem ordinal_eq (h : Standing build available tools rows k current calls r) {j : Nat}
    (hs : r.steps[j]? = some step) : step.ordinal = j := by
  obtain ⟨row, hrow, hsame⟩ := h.row hs
  have hj : j < rows.length := (List.getElem?_eq_some_iff.mp hrow).1
  rw [AgentStep.ordinal_of_still hsame, (h.plan.row j row hrow).ordinal, List.length_take]
  omega

/-- The steps are listed in the order they were inserted in. -/
theorem listed (h : Standing build available tools rows k current calls r) :
    r.listAgentSteps = r.steps := by
  refine List.Pairwise.insertionSort_eq (List.pairwise_iff_getElem.mpr ?_)
  intro i j hi hj hlt
  rw [h.ordinal_eq (List.getElem?_eq_getElem hi), h.ordinal_eq (List.getElem?_eq_getElem hj)]
  exact .inl hlt

theorem ordinals (h : Standing build available tools rows k current calls r) :
    r.steps.map (·.ordinal) = List.range r.steps.length := by
  refine List.ext_getElem? fun j => ?_
  rw [List.getElem?_map]
  by_cases hj : j < r.steps.length
  · rw [List.getElem?_eq_getElem hj, Option.map_some, h.ordinal_eq (List.getElem?_eq_getElem hj),
      List.getElem?_range hj]
  · rw [List.getElem?_eq_none (Nat.le_of_not_lt hj), List.getElem?_eq_none]
    · rfl
    · rw [List.length_range]
      omega

theorem length_calls (h : Standing build available tools rows k current calls r) :
    r.invocations.length = calls := by
  have hlength := congrArg List.length h.invocations
  have hle := h.calls_le
  rw [List.length_map, List.length_map, List.length_take] at hlength
  omega

/-! ## Claiming -/

/-- The tool of every step is one that the executor takes. -/
theorem hasValidTool (h : Standing build available tools rows k current calls r)
    (hs : step ∈ r.steps) : hasValidTool build r.run tools step = true := by
  obtain ⟨j, hj⟩ := List.getElem?_of_mem hs
  obtain ⟨row, hrow, hsame⟩ := h.row hj
  have hserves := h.plan.row j row hrow
  obtain ⟨name, hname, hpermits, d, hgranted⟩ := hserves.tool
  have hname' : step.toolName = some name := (AgentStep.toolName_of_still hsame).trans hname
  have hversion : step.toolVersion = some 1 :=
    (AgentStep.toolVersion_of_still hsame).trans hserves.version
  have hregistered : build.getExact name 1 = some d := hgranted.registered
  rw [SecondBrain.hasValidTool]
  simp only [hname', hversion, hregistered, hpermits.tools, Option.isSome_some, Bool.true_and,
    Bool.and_true, Bool.and_eq_true, Bool.or_eq_true, Bool.not_eq_true']
  constructor
  · cases hresearch : isResearch r.run.agentKind r.run.agentVersion with
    | false => exact .inl rfl
    | true => exact .inr (hpermits.research hresearch)
  · cases hcurator : isCurator r.run.agentKind r.run.agentVersion with
    | false => exact .inl rfl
    | true => exact .inr (hpermits.curator hcurator)

/-- A frozen plan that is ready is claimed, unless the run is over its deadline. -/
theorem claimExecution_eq (h : Standing build available tools rows 0 .pending 0 r)
    (hready : r.run.state = .ready) (hcolumn : r.run.revision ≤ maxInteger) :
    (r.run.runDeadline ≤ now ∧ ∃ r',
      claimExecution build r r.run.revision tools now = .ok (none, r') ∧
        r'.run.state = .expired) ∨
    ∃ r', claimExecution build r r.run.revision tools now =
      .ok (some (executionClaimOf r.run), r') := by
  have hpending : ∀ s ∈ r.steps, s.status = .pending := by
    intro s hs
    obtain ⟨j, hj⟩ := List.getElem?_of_mem hs
    rw [h.status j s hj, statusAt, if_neg (Nat.not_lt_zero j)]
    split <;> rfl
  have hterminal : ¬ r.run.state.isTerminal = true := by
    rw [hready]
    decide
  have hrunning : ¬ r.run.state = .running := by
    rw [hready]
    decide
  rw [claimExecution, if_neg h.plan.scheduled, if_neg hterminal, if_neg hrunning,
    if_neg (not_not.mpr rfl), if_neg (not_not.mpr hready), if_neg (not_not.mpr h.plan.registry),
    if_neg (by rw [h.plan.known]; nofun)]
  by_cases hdeadline : r.run.runDeadline ≤ now
  · refine .inl ⟨hdeadline, ?_⟩
    have hlegal : AgentRunState.expired ∈ legalTransitions r.run.state := by
      rw [hready]
      decide
    have hover : AgentRunState.expired = .expired → r.run.expiryDeadline ≤ now := by
      intro _
      rw [AgentRun.expiryDeadline, if_neg (by rw [hready]; decide)]
      exact hdeadline
    have hmove := transitionRun_eq_ok now (some "deadline_expired") hcolumn hlegal hover
    rw [hready] at hmove
    rw [if_pos hdeadline, hmove]
    exact ⟨_, rfl, rfl⟩
  · refine .inr ?_
    have hlegal : AgentRunState.running ∈ legalTransitions r.run.state := by
      rw [hready]
      decide
    have hmove := @transitionRun_eq_ok r .running now none hcolumn hlegal nofun
    rw [hready] at hmove
    rw [if_neg hdeadline, h.listed]
    dsimp only
    rw [if_neg, hmove]
    · exact ⟨_, rfl⟩
    · rintro (hempty | hbudget | hordinals | hstatus | htool)
      · have hlength := h.length_eq
        rw [List.isEmpty_iff.mp hempty, List.length_nil] at hlength
        exact h.plan.nonempty (List.length_eq_zero_iff.mp hlength.symm)
      · have hle := h.plan.budget
        rw [h.length_eq] at hbudget
        omega
      · exact hordinals h.ordinals
      · obtain ⟨s, hs, hbad⟩ := List.any_eq_true.mp hstatus
        rw [hpending s hs] at hbad
        cases hbad
      · obtain ⟨s, hs, hbad⟩ := List.any_eq_true.mp htool
        rw [h.hasValidTool hs] at hbad
        cases hbad

/-! ## Reserving -/

/-- The executor asks what the row was granted for. -/
theorem granted (h : Standing build available tools rows k .pending k r)
    (hs : r.steps[k]? = some step) :
    ∃ name, step.toolName = some name ∧ step.toolVersion = some 1 ∧
      tools.all (·.contains (name, 1)) = true ∧
      ∃ d, (policyRequestFor r step name 1 available).Granted build d step.normalizedInput := by
  obtain ⟨row, hrow, hsame⟩ := h.row hs
  have hserves := h.plan.row k row hrow
  obtain ⟨name, hname, hpermits, d, hgranted⟩ := hserves.tool
  have hinput := AgentStep.normalizedInput_of_still hsame
  have htotal : r.invocations.length = (rows.take k).length := by
    have hlength := congrArg List.length h.invocations
    rw [List.length_map, List.length_map] at hlength
    exact hlength
  have hcalls : r.invocations.countP (·.toolName == name) =
      (rows.take k).countP (·.toolName == some name) := by
    have hrows : (rows.take k).countP (·.toolName == some name) =
        ((rows.take k).map fun s => (s.id, s.toolName)).countP (·.2 == some name) := by
      rw [List.countP_map]
      rfl
    rw [hrows, ← h.invocations, List.countP_map]
    refine List.countP_congr fun i _ => ?_
    simp
  have hrequest : policyRequestFor r step name 1 available =
      rowRequest r.run available (rows.take k) row name := by
    rw [policyRequestFor, rowRequest, htotal, hcalls, hinput]
  refine ⟨name, (AgentStep.toolName_of_still hsame).trans hname,
    (AgentStep.toolVersion_of_still hsame).trans hserves.version, hpermits.tools, d, ?_⟩
  rw [hrequest, hinput]
  exact hgranted

/-- The first open step is the one that is current. -/
theorem find?_open (h : Standing build available tools rows k .pending calls r)
    (hs : r.steps[k]? = some step) :
    r.listAgentSteps.find? (·.status.isOpen) = some step := by
  obtain ⟨hk, hget⟩ := List.getElem?_eq_some_iff.mp hs
  rw [h.listed, List.find?_eq_some_iff_getElem]
  refine ⟨?_, k, hk, hget, fun j hj => ?_⟩
  · rw [h.status k step hs, statusAt, if_neg (Nat.lt_irrefl k), if_pos rfl]
    rfl
  · have hjlt : j < r.steps.length := hj.trans hk
    rw [h.status j _ (List.getElem?_eq_getElem hjlt), statusAt, if_pos hj]
    rfl

/-- Where all are done, none is open. -/
theorem find?_none (h : Standing build available tools rows k .pending calls r)
    (hk : r.steps.length ≤ k) : r.listAgentSteps.find? (·.status.isOpen) = none ∧
      r.allSucceeded := by
  have hdone : r.allSucceeded := by
    intro s hs
    obtain ⟨j, hj⟩ := List.getElem?_of_mem hs
    have hlt := (List.getElem?_eq_some_iff.mp hj).1
    rw [h.status j s hj, statusAt, if_pos (by omega)]
  refine ⟨?_, hdone⟩
  rw [h.listed, List.find?_eq_none]
  intro s hs
  rw [hdone s hs]
  decide

theorem before_succeeded (h : Standing build available tools rows k .pending calls r)
    (hs : r.steps[k]? = some step) :
    (r.listAgentSteps.take step.ordinal).any (·.status ≠ .succeeded) = false := by
  rw [h.listed, h.ordinal_eq hs, List.any_eq_false]
  intro s hmem
  obtain ⟨j, hj⟩ := List.getElem?_of_mem hmem
  rw [List.getElem?_take] at hj
  split at hj
  · next hlt =>
      rw [h.status j s hj, statusAt, if_pos hlt]
      decide
  · cases hj


/-- The row of the current step has not been called. -/
theorem uncalled (h : Standing build available tools rows k .pending k r)
    (hs : r.steps[k]? = some step) : ∀ j ∈ r.invocations, j.stepId ≠ step.id := by
  intro j hj hsame
  have hmem : (j.stepId, some j.toolName) ∈ (rows.take k).map fun s => (s.id, s.toolName) := by
    rw [← h.invocations]
    exact List.mem_map_of_mem hj
  obtain ⟨other, hother, hpair⟩ := List.mem_map.mp hmem
  obtain ⟨row, hrow, hstill⟩ := h.row hs
  have hid : other.id = row.id := by
    rw [(Prod.mk.inj hpair).1, hsame]
    exact AgentStep.id_of_still hstill
  obtain ⟨i, hi⟩ := List.getElem?_of_mem hother
  rw [List.getElem?_take] at hi
  split at hi
  · next hlt =>
      have hik : i = k := by
        have hcolumn : (rows.map (·.id))[i]? = (rows.map (·.id))[k]? := by
          rw [List.getElem?_map, List.getElem?_map, hi, hrow, Option.map_some, Option.map_some, hid]
        have hilt : i < (rows.map (·.id)).length := by
          rw [List.length_map]
          exact (List.getElem?_eq_some_iff.mp hi).1
        exact (List.getElem?_inj hilt h.plan.ids).mp hcolumn
      omega
  · cases hi

/-- The event of the reservation is small enough. -/
theorem started_storedLen_le {ordinal : Nat} {name : String} (hordinal : ordinal ≤ maxInteger)
    (hname : name.length ≤ 200) :
    (Json.obj [("ordinal", .int ordinal), ("tool_name", .str name)]).storedLen ≤
      maxEventMetadata := by
  have hobject := storedLen_obj_le [("ordinal", Json.int ordinal), ("tool_name", .str name)]
  have htext := storedLen_str_le name
  have hint : (Json.int ordinal).storedLen ≤ 40 := octets_revision_le (Nat.le_succ_of_le hordinal)
  have hordinalKey : (Json.str "ordinal").storedLen = 9 := by decide
  have htoolKey : (Json.str "tool_name").storedLen = 11 := by decide
  have hlimit : maxEventMetadata = 4096 := rfl
  simp only [List.map_cons, List.map_nil, List.sum_cons, List.sum_nil] at hobject
  omega

/-- A reservation is stored, unless a key is taken. -/
theorem startInvocation_cases (h : Standing build available tools rows k .pending k r)
    (hs : r.steps[k]? = some step) {name : String} (hname : step.toolName = some name) :
    let i := newInvocation build r step name 1 0 step.normalizedInput now id
    (∃ r', startInvocation r step i now = .ok r') ∨
      Taken build r id ∧ startInvocation r step i now = .error (.database .integrity) := by
  intro i
  obtain ⟨row, hrow, hsame⟩ := h.row hs
  have hfits := (h.plan.row k row hrow).fits
  have hinput : i.validatedInput = row.normalizedInput :=
    AgentStep.normalizedInput_of_still hsame
  have hpending : step.status = .pending := by
    rw [h.status k step hs, statusAt, if_neg (Nat.lt_irrefl k), if_pos rfl]
  have hadmits : r.admitsInvocation i = if r.invocations.any (fun j =>
      j.id == i.id || (j.stepId == i.stepId && j.attempt == i.attempt) ||
      (j.toolName == i.toolName && j.toolVersion == i.toolVersion &&
        j.idempotencyKeyHash == i.idempotencyKeyHash)) then .error .integrity else .ok () := by
    rw [RunRecord.admitsInvocation, hinput, if_neg (by rw [hfits.input]; nofun),
      if_neg (Nat.not_lt.mpr hfits.inputSize)]
  by_cases hclash : r.invocations.any (fun j =>
      j.id == i.id || (j.stepId == i.stepId && j.attempt == i.attempt) ||
      (j.toolName == i.toolName && j.toolVersion == i.toolVersion &&
        j.idempotencyKeyHash == i.idempotencyKeyHash)) = true
  · rw [if_pos hclash] at hadmits
    refine .inr ⟨?_, by rw [startInvocation, reserveToolInvocation, hadmits]; rfl⟩
    obtain ⟨j, hj, hsameKey⟩ := List.any_eq_true.mp hclash
    have hother : ¬ j.stepId = i.stepId := h.uncalled hs j hj
    simp only [Bool.or_eq_true, Bool.and_eq_true, beq_iff_eq, hother, false_and, or_false]
      at hsameKey
    rcases hsameKey with hid | ⟨-, hkey⟩
    · exact ⟨j, hj, .inl hid⟩
    · exact ⟨j, hj, .inr ⟨step, List.mem_of_getElem? hs, hpending, name, 1, _, now, hkey⟩⟩
  · rw [if_neg hclash] at hadmits
    have hk : k ≤ maxInteger := by
      have htwelve := h.plan.twelve
      have hlt := (List.getElem?_eq_some_iff.mp hrow).1
      have hlimit : maxInteger = 2147483647 := rfl
      omega
    have hrowName := (AgentStep.toolName_of_still hsame).symm.trans hname
    have hsize := @started_storedLen_le k name hk (hfits.toolName name hrowName)
    have hclean : nul ∉ name.toList := hfits.texts name (by simp [hrowName])
    refine .inl ?_
    rw [startInvocation, reserveToolInvocation, hadmits]
    show ∃ r', appendAgentEvent _ _ = .ok r'
    rw [appendAgentEvent, admitsEvent_ok]
    · exact ⟨_, rfl⟩
    · show (Json.obj [("ordinal", .int step.ordinal), ("tool_name", .str name)]).storable = true
      simp [storable, storableFields, hclean]
      decide
    · show "tool_invocation_started".length ≤ 100
      decide
    · show (Json.obj [("ordinal", .int step.ordinal), ("tool_name", .str name)]).storedLen ≤ _
      rw [h.ordinal_eq hs]
      exact hsize
    · intro stepId hstepId
      cases hstepId
      refine ⟨_, mem_updateStep.mpr ⟨step, List.mem_of_getElem? hs, rfl⟩, ?_⟩
      rw [if_pos rfl]
    · intro invocationId hinvocationId
      cases hinvocationId
      exact ⟨i, List.mem_append_right _ (List.mem_singleton_self i), rfl⟩
    · rfl
    · rfl

/-- What a reservation does while every call succeeds: there is nothing to reserve, the run is
over its deadline, or the current step is started with the input it was frozen with. -/
theorem reserveNext_cases (h : Standing build available tools rows k .pending k r) :
    ((r.run.state ≠ .running ∨ r.allSucceeded) ∧
      reserveNext build r tools available now id = .ok (none, r)) ∨
    (r.run.runDeadline ≤ now ∧ reserveNext build r tools available now id =
      (do let r' ← expireExecution r now; return (none, r'))) ∨
    ∃ step name seconds, r.run.state = .running ∧ r.steps[k]? = some step ∧
      step.toolName = some name ∧ reserveNext build r tools available now id = (do
        let r' ← startInvocation r step
          (newInvocation build r step name 1 0 step.normalizedInput now id) now
        return (some ⟨step.id, id, seconds⟩, r')) := by
  rw [reserveNext]
  by_cases hrun : r.run.state ≠ .running
  · rw [if_pos hrun]
    exact .inl ⟨.inl hrun, rfl⟩
  have hscheduled : ¬ (isReservedAutomationAgentIdentity r.run.agentKind r.run.agentVersion = true
      ∧ tools = none) := by
    intro hreserved
    refine h.plan.scheduled ⟨?_, hreserved.2⟩
    rw [AgentRun.needsScheduler, hreserved.1]
    rfl
  rw [if_neg hrun, if_neg hscheduled]
  by_cases hdeadline : r.run.runDeadline ≤ now
  · rw [if_pos hdeadline]
    exact .inr (.inl ⟨hdeadline, rfl⟩)
  rw [if_neg hdeadline]
  by_cases hk : r.steps.length ≤ k
  · obtain ⟨hnone, hdone⟩ := h.find?_none hk
    rw [hnone]
    exact .inl ⟨.inr hdone, rfl⟩
  · have hlt : k < r.steps.length := Nat.lt_of_not_le hk
    have hs := List.getElem?_eq_getElem hlt
    obtain ⟨name, hname, hversion, htools, d, hgranted⟩ := h.granted hs
    obtain ⟨policy, hpolicy, hinput⟩ := hgranted.resolve
    have hpermitted : ¬ tools.any (!·.contains (name, 1)) = true := by
      cases tools with
      | none => nofun
      | some given =>
          rw [Option.all_some] at htools
          rw [Option.any_some, htools]
          nofun
    have hpending : r.steps[k].status = .pending := by
      rw [h.status k _ hs, statusAt, if_neg (Nat.lt_irrefl k), if_pos rfl]
    have hattempt : nextAttempt build r r.steps[k] name 1 = .ok (.ok 0) := by
      rw [nextAttempt, if_neg (by rw [hpending]; nofun)]
    refine .inr (.inr ⟨r.steps[k], name, policy.timeoutSeconds, not_not.mp hrun, hs, hname, ?_⟩)
    rw [h.find?_open hs]
    dsimp only
    rw [if_neg (by rw [h.plan.known]; nofun), if_neg (by rw [h.before_succeeded hs]; nofun)]
    simp only [hname, hversion]
    rw [if_neg hpermitted, hattempt]
    show reserveAttempt build r r.steps[k] name 1 0 available now id = _
    rw [reserveAttempt, hpolicy, ← hinput]

theorem not_refused (h : Standing build available tools rows k .pending k r) :
    NotRefused build available tools r now id := by
  rcases @reserveNext_cases _ _ _ _ _ _ now id h with ⟨hidle, hnone⟩ |
    ⟨hdeadline, hexpires⟩ | hstarts
  · exact .nothing hidle hnone
  · exact .expired hdeadline hexpires
  · obtain ⟨step, name, seconds, -, hs, hname, hreserve⟩ := hstarts
    rcases @startInvocation_cases _ _ _ _ _ _ _ now id h hs _ hname with ⟨r', hok⟩ |
      ⟨htaken, hrefused⟩
    · refine @NotRefused.reserved _ _ _ _ _ _ ⟨step.id, id, seconds⟩ r' ?_
      rw [hreserve, hok]
      rfl
    · refine .taken htaken ?_
      rw [hreserve, hrefused]
      rfl

/-! ## One call -/

/-- The current step gets another status. -/
theorem update {current' : StepStatus} {calls' : Nat} {f : AgentStep → AgentStep}
    (h : Standing build available tools rows k current calls r) (hs : r.steps[k]? = some step)
    (hf : ∀ s, (f s).still = s.still ∧ (f s).status = current')
    (hstill : r'.run.still = r.run.still) (hsteps : r'.steps = (r.updateStep step.id f).steps)
    (hinvocations : r'.invocations.map (fun i => (i.stepId, some i.toolName)) =
      (rows.take calls').map fun s => (s.id, s.toolName))
    (hids : (r'.invocations.map (·.id)).Nodup) (hle : calls' ≤ rows.length) :
    Standing build available tools rows k current' calls' r' := by
  refine ⟨h.plan.of_still hstill, ?_, fun j s' hs' => ?_, hinvocations, hids, hle⟩
  · rw [hsteps, RunRecord.updateStep, List.map_map, ← h.steps]
    refine List.map_congr_left fun s _ => ?_
    rw [Function.comp_apply]
    split
    · exact (hf s).1
    · rfl
  · rw [hsteps, RunRecord.updateStep, List.getElem?_map] at hs'
    obtain ⟨s, hj, rfl⟩ := Option.map_eq_some_iff.mp hs'
    by_cases hjk : j = k
    · subst hjk
      rw [hs] at hj
      cases hj
      rw [if_pos rfl, (hf step).2, statusAt, if_neg (Nat.lt_irrefl j), if_pos rfl]
    · have hother : s.id ≠ step.id := by
        intro hsame
        have hcolumn : (r.steps.map (·.id))[j]? = (r.steps.map (·.id))[k]? := by
          rw [List.getElem?_map, List.getElem?_map, hj, hs, Option.map_some, Option.map_some, hsame]
        have hlt : j < (r.steps.map (·.id)).length := by
          rw [List.length_map]
          exact (List.getElem?_eq_some_iff.mp hj).1
        exact hjk ((List.getElem?_inj hlt h.ids).mp hcolumn)
      rw [if_neg hother, h.status j s hj, statusAt, statusAt, if_neg hjk, if_neg hjk]

theorem advance (h : Standing build available tools rows k .succeeded calls r) :
    Standing build available tools rows (k + 1) .pending calls r := by
  refine ⟨h.plan, h.steps, fun j s hs => ?_, h.invocations, h.invocationIds, h.calls_le⟩
  rw [h.status j s hs, statusAt, statusAt]
  split_ifs <;> first | rfl | omega

/-- A reserved step runs, and has been called. -/
theorem reserved (h : Standing build available tools rows k .pending k r) {res : Reservation}
    (hok : reserveNext build r tools available now id = .ok (some res, r')) :
    Standing build available tools rows k .running (k + 1) r' ∧
      ∃ s, r'.steps[k]? = some s ∧ s.id = res.stepId := by
  rcases @reserveNext_cases _ _ _ _ _ _ now id h with ⟨-, hnone⟩ | ⟨-, hexpires⟩ | hstarts
  · rw [hnone] at hok
    cases hok
  · rw [hexpires] at hok
    obtain ⟨r₁, -, hok⟩ := bind_ok hok
    cases hok
  · obtain ⟨step, name, seconds, -, hs, hname, hreserve⟩ := hstarts
    rw [hreserve] at hok
    obtain ⟨r₁, hstart, hok⟩ := bind_ok hok
    cases hok
    rw [startInvocation, reserveToolInvocation] at hstart
    split at hstart
    · cases hstart
    next hadmitted =>
      have hdistinct := admitsInvocation_distinct hadmitted
      obtain ⟨hrun, hsteps, hinvocations⟩ := appendAgentEvent_rows _ hstart
      obtain ⟨row, hrow, hsame⟩ := h.row hs
      have hlt : k < rows.length := (List.getElem?_eq_some_iff.mp hrow).1
      constructor
      · refine h.update (f := fun s => { s with status := .running, startedAt := some now }) hs
          (fun _ => ⟨rfl, rfl⟩) (by rw [hrun]; rfl) hsteps ?_ ?_ hlt
        · rw [hinvocations, List.take_add_one, hrow]
          show List.map _ (r.invocations ++ [_]) = _
          rw [List.map_append, h.invocations, Option.toList_some, List.map_append,
            List.map_singleton, List.map_singleton, ← AgentStep.id_of_still hsame,
            ← AgentStep.toolName_of_still hsame, hname]
          rfl
        · rw [hinvocations]
          show (List.map _ (r.invocations ++ [_])).Nodup
          rw [List.map_append, List.nodup_append]
          refine ⟨h.invocationIds, List.nodup_singleton _, fun a ha b hb => ?_⟩
          obtain ⟨j, hj, rfl⟩ := List.mem_map.mp ha
          rw [List.map_singleton, List.mem_singleton] at hb
          rw [hb]
          exact (hdistinct j hj).1
      · refine ⟨{ step with status := .running, startedAt := some now }, ?_, rfl⟩
        rw [hsteps, RunRecord.updateStep, List.getElem?_map]
        show r.steps[k]?.map _ = _
        rw [hs, Option.map_some, if_pos rfl]

/-- A call whose result counts as a success closes its step, and the next one is current. -/
theorem finalized (h : Standing build available tools rows k .running (k + 1) r)
    (hs : r.steps[k]? = some step) {output : ToolOutput}
    {evidence : Option (List EvidenceReference)}
    (hok : finalizeInvocation build r step.id id (some output) none evidence now =
      .ok (true, r')) :
    Standing build available tools rows (k + 1) .pending (k + 1) r' := by
  rw [finalizeInvocation] at hok
  split at hok
  · next step' i hgetStep hgetInvocation =>
      obtain ⟨hstep', hid'⟩ := getStep_mem hgetStep
      obtain rfl : step' = step :=
        List.inj_on_of_nodup_map h.ids hstep' (List.mem_of_getElem? hs) hid'
      obtain ⟨hi, -⟩ := getInvocation_mem hgetInvocation
      split at hok
      · cases hok
      split at hok
      · cases hok
      split at hok
      · obtain ⟨r₁, -, hok⟩ := bind_ok hok
        cases hok
      · obtain ⟨hrun, settled, f, hf, hsettled, hsteps, hinvocations⟩ := recordResult_success hok
        -- the row of the result keeps its step and tool, whichever it is
        have hsame : ∀ j ∈ r.invocations, j.id = i.id → j = i := fun j hj hid =>
          List.inj_on_of_nodup_map h.invocationIds hj hi hid
        refine (h.update hs hf (by rw [hrun]) hsteps ?_ ?_ h.calls_le).advance
        · rw [hinvocations, ← h.invocations, RunRecord.updateInvocation, List.map_map]
          refine List.map_congr_left fun j hj => ?_
          rw [Function.comp_apply]
          split
          · next hid => rw [hsame j hj hid, hsettled.1, hsettled.2.1]
          · rfl
        · have hkeep : (r.updateInvocation i.id fun _ => settled).invocations.map (·.id) =
              r.invocations.map (·.id) := by
            rw [RunRecord.updateInvocation, List.map_map]
            refine List.map_congr_left fun j hj => ?_
            rw [Function.comp_apply]
            split
            · next hid => rw [hsame j hj hid, hsettled.2.2]
            · rfl
          rw [hinvocations, hkeep]
          exact h.invocationIds
  · cases hok

/-- While every call succeeds at its first attempt, the steps before some step are done and
have been called once each. -/
theorem executes {r₀ : RunRecord} (h : Standing build available tools rows 0 .pending 0 r₀)
    (hexecutes : Executes build available tools r₀ r) :
    ∃ k, Standing build available tools rows k .pending k r := by
  induction hexecutes with
  | claimed => exact ⟨0, h⟩
  | other _ hother ih =>
      obtain ⟨k, hk⟩ := ih
      exact ⟨k, hk.elsewhere hother⟩
  | call _ hreserve hother hfinalize ih =>
      obtain ⟨k, hk⟩ := ih
      obtain ⟨hrunning, s, hs, hid⟩ := hk.reserved hreserve
      rw [← hid] at hfinalize
      rw [← hother.steps] at hs
      exact ⟨k + 1, (hrunning.elsewhere hother).finalized hs hfinalize⟩

end Standing

/-! ## Accepted plans are served -/

section

variable {build : Build} {r r' : RunRecord} {tools : Option (List ToolIdentity)} {now : Instant}

theorem transitionRun_elsewhere (expectedState : AgentRunState) (expectedRevision : Nat)
    (newState : AgentRunState) (code : Option String) :
    Ensures (transitionRun r expectedState expectedRevision newState now code) (Elsewhere r) := by
  intro r' h
  obtain ⟨-, -, -, -, rfl⟩ := transitionRun_ok h
  exact ⟨rfl, rfl, rfl⟩

theorem claimExecution_elsewhere (expectedRevision : Nat) :
    Ensures (claimExecution build r expectedRevision tools now) fun p => Elsewhere r p.2 := by
  rw [claimExecution]
  refine .ite (fun _ => .error _) fun _ => .ite (fun _ => ?_) fun _ => ?_
  · exact .ite (fun _ => Ensures.ok_iff.mpr ⟨rfl, rfl, rfl⟩) fun _ => .error _
  refine .ite (fun _ => ?_) fun _ => ?_
  · exact .ite (fun _ => .error _) fun _ => .error _
  refine .ite (fun _ => .error _) fun _ => .ite (fun _ => .error _) fun _ => ?_
  refine .ite (fun _ => .error _) fun _ => .ite (fun _ => .error _) fun _ => ?_
  refine .ite (fun _ => ?_) fun _ => ?_
  · exact .answer (transitionRun_elsewhere _ _ _ _)
  · refine .ite (fun _ => .error _) fun _ => ?_
    exact (transitionRun_elsewhere _ _ _ _).bind fun r' h => Ensures.pure_iff.mpr h

/-- What a claim for planning found, and what it captured. -/
theorem claimPlanning_some {revision : Nat} {claim : PlanningClaim}
    (h : claimPlanning build r revision tools now = .ok (some claim, r')) :
    r.run.state = .created ∧ ¬ (r.run.needsScheduler = true ∧ tools = none) ∧
      r.run.registryVersion = build.registryVersion ∧ r.run.hasUnknownDefinition = false ∧
      Elsewhere r r' ∧ claim = claimOf r'.run r'.run.revision := by
  rw [claimPlanning] at h
  split at h
  · cases h
  next hscheduled =>
  split at h
  · split at h <;> cases h
  split at h
  · cases h
  split at h
  · cases h
  next hregistry =>
  split at h
  · cases h
  next hknown =>
  split at h
  · cases h
  next hcreated =>
  obtain ⟨r₁, hmove, h⟩ := bind_ok h
  cases h
  exact ⟨not_not.mp hcreated, hscheduled, not_not.mp hregistry, by simpa using hknown,
    transitionRun_elsewhere _ _ _ _ _ hmove, rfl⟩

variable {v : ToolScalars} (hv : v.Lawful) {sha256 : String → String} {available : Bool}
  {forbiddenRequest : String → Bool}

include hv

/-- A frozen plan stands at its first step. -/
theorem Frozen.standing
    (h : Frozen (currentBuild v sha256) forbiddenRequest available tools r) :
    ∃ rows, Standing (currentBuild v sha256) available tools rows 0 .pending 0 r := by
  cases h with
  | @stored r₀ r₁ r₂ r₃ _ revision claim plan steps ids _ finalized horderly hcaller hclaim hvalid
      hlength hbefore hfinalize hafter =>
      obtain ⟨hcreated, hscheduled, hregistry, hknown, hclaimed, rfl⟩ := claimPlanning_some hclaim
      have hearly := horderly.early (by rw [hcreated]; rfl)
      rw [finalizePlan] at hfinalize
      split at hfinalize
      · cases hfinalize
      next hsteps =>
        rw [not_or, not_or, not_not, not_not, not_not] at hsteps
        have hnone : r₂.steps = [] := List.length_eq_zero_iff.mp hsteps.2.2
        obtain ⟨r', hinsert, hmove⟩ := bind_ok hfinalize
        rw [insertPlan_eq] at hinsert
        obtain ⟨rfl, hfits, hids⟩ := insertRows_inserted hinsert
        rw [hnone] at hids hmove
        have hmoved := transitionRun_elsewhere _ _ _ _ _ hmove
        have hinvocations : r₂.invocations = [] := by
          rw [hbefore.invocations, hclaimed.invocations]
          exact hearly.1
        -- what the claim found is about columns that are written once
        have hcaller' : CallerTools r₁.run tools := by
          show CallerTools r₁.run.still tools
          rw [hclaimed.still]
          exact hcaller
        have hscheduled' : ¬ (r₁.run.needsScheduler = true ∧ tools = none) := by
          show ¬ (r₁.run.still.needsScheduler = true ∧ tools = none)
          rw [hclaimed.still]
          exact hscheduled
        have hregistry' : r₁.run.registryVersion = (currentBuild v sha256).registryVersion := by
          show r₁.run.still.registryVersion = _
          rw [hclaimed.still]
          exact hregistry
        have hknown' : r₁.run.hasUnknownDefinition = false :=
          (hasUnknownDefinition_of_still hclaimed.still).trans hknown
        have hplan := planRows_servable hv hcaller' hvalid hlength (hids List.nodup_nil) hfits
          hknown' hscheduled' hregistry'
        refine ⟨planRows steps ids,
          (@Standing.elsewhere _ _ _ _ _ _ _ _ _ ?_ hmoved).elsewhere hafter⟩
        refine ⟨hplan.of_still hbefore.still, rfl, fun j s hs => ?_, ?_, ?_, Nat.zero_le _⟩
        · obtain ⟨row, id, -, rfl⟩ := getElem?_planRows hs
          rw [statusAt, if_neg (Nat.not_lt_zero j)]
          split <;> rfl
        · show r₂.invocations.map _ = _
          rw [hinvocations]
          rfl
        · show (r₂.invocations.map _).Nodup
          rw [hinvocations]
          exact List.nodup_nil

/-- The planner and the executor agree. A frozen plan that is ready is claimed, unless its run
is over its deadline, and while every call succeeds at its first attempt no reservation is
refused by the policy or for a budget. -/
theorem frozen_plan_agrees
    (hfrozen : Frozen (currentBuild v sha256) forbiddenRequest available tools r) :
    (r.run.state = .ready → r.run.revision ≤ maxInteger → ∀ now,
      (r.run.runDeadline ≤ now ∧ ∃ r',
        claimExecution (currentBuild v sha256) r r.run.revision tools now = .ok (none, r') ∧
          r'.run.state = .expired) ∨
      ∃ r', claimExecution (currentBuild v sha256) r r.run.revision tools now =
        .ok (some (executionClaimOf r.run), r')) ∧
    ∀ revision now claim r₁,
      claimExecution (currentBuild v sha256) r revision tools now = .ok (some claim, r₁) →
      ∀ r₂, Executes (currentBuild v sha256) available tools r₁ r₂ →
      ∀ now id, NotRefused (currentBuild v sha256) available tools r₂ now id := by
  obtain ⟨rows, hstanding⟩ := hfrozen.standing hv
  constructor
  · intro hready hcolumn now
    exact hstanding.claimExecution_eq hready hcolumn
  · intro revision now claim r₁ hclaim r₂ hexecutes now' id
    have hclaimed := hstanding.elsewhere (claimExecution_elsewhere _ _ hclaim)
    obtain ⟨k, hk⟩ := hclaimed.executes hexecutes
    exact hk.not_refused

end

/-! ## A plan that is served -/

section

/-- The run before its plan, with nothing done. -/
def createdRun : RunRecord where
  run := { plannedRun with state := .created, revision := 0 }

theorem createdRun_orderly : Orderly createdRun where
  stepIds := List.nodup_nil
  ordinals := List.nodup_nil
  invocationIds := List.nodup_nil
  attempts _ h := absurd h List.not_mem_nil
  distinct _ h := absurd h List.not_mem_nil
  owned _ h := absurd h List.not_mem_nil
  succeeded _ h := absurd h List.not_mem_nil
  order _ h := absurd h List.not_mem_nil
  single _ h := absurd h List.not_mem_nil
  early _ := ⟨rfl, fun _ h => absurd h List.not_mem_nil⟩
  live h := nomatch h
  busy h := nomatch h
  completed h := nomatch h
  served := nofun

theorem createdRun_claimed : ∃ r, claimPlanning (currentBuild bareScalars id) createdRun 0 none 0 =
    .ok (some (claimOf plannedRun 1), r) ∧ r.run.state = .planning ∧ r.run.revision = 1 ∧
      r.steps = [] := by
  have hmove := @transitionRun_eq_ok createdRun .planning 0 none (Nat.zero_le _) (by decide) nofun
  have hstate : createdRun.run.state = .created := rfl
  have hrevision : createdRun.run.revision = 0 := rfl
  rw [hstate, hrevision] at hmove
  rw [claimPlanning, if_neg (by decide), if_neg (by decide), if_neg (by decide),
    if_neg (by decide), if_neg (by decide), if_neg (by decide), hmove]
  exact ⟨_, rfl, rfl, rfl, rfl⟩

theorem modestPlan_storable : ∀ step ∈ modestPlan.steps, step.Storable := by
  intro step hstep
  rw [List.mem_singleton.mp hstep]
  have hclean : ∀ text ∈ ["notes", "notes", "notes", "notes"], nul ∉ text.toList := by decide
  refine ⟨hclean, fun query hquery => ?_, by decide +kernel⟩
  cases hquery
  decide

/-- It is claimed at once, and none of its reservations is refused. -/
theorem modestPlan_agrees : ∃ r,
    Frozen (currentBuild bareScalars id) (fun _ => false) false none r ∧ r.run.state = .ready ∧
    ((r.run.runDeadline ≤ 1 ∧ ∃ r',
        claimExecution (currentBuild bareScalars id) r r.run.revision none 1 = .ok (none, r') ∧
          r'.run.state = .expired) ∨
      ∃ r', claimExecution (currentBuild bareScalars id) r r.run.revision none 1 =
        .ok (some (executionClaimOf r.run), r')) ∧
    ∀ revision now claim r₁,
      claimExecution (currentBuild bareScalars id) r revision none now = .ok (some claim, r₁) →
      ∀ r₂, Executes (currentBuild bareScalars id) false none r₁ r₂ →
      ∀ now id', NotRefused (currentBuild bareScalars id) false none r₂ now id' := by
  obtain ⟨steps, hsteps, hlength⟩ := ok_of_length modestPlan_accepted
  obtain ⟨r₁, hclaim, hstate, hrevision, hnone⟩ := createdRun_claimed
  obtain ⟨r, hstored, hready, hrevised⟩ :=
    @finalizePlan_stored _ bareScalars_lawful _ _ _ _ _ _ _ [7] r₁ 0 hsteps hstate hrevision
      (by rw [hrevision]; decide) hnone (by decide) hlength.symm modestPlan_storable
  have hids : ([7] : List Uuid).length = steps.length := hlength.symm
  have hfrozen : Frozen (currentBuild bareScalars id) (fun _ => false) false none r :=
    .stored createdRun_orderly nofun hclaim hsteps hids ⟨rfl, rfl, rfl⟩ hstored ⟨rfl, rfl, rfl⟩
  obtain ⟨hclaimed, hserved⟩ := frozen_plan_agrees bareScalars_lawful hfrozen
  have hcolumn : r.run.revision ≤ maxInteger := by
    rw [hrevised, hrevision]
    decide
  exact ⟨r, hfrozen, hready, hclaimed hready hcolumn 1, hserved⟩

end

end SecondBrain
