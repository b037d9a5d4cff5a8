import SecondBrain.AgentPlanning.Storage

/-!
# Plans that can be served

The planner asks the policy about a step with the steps before it as the calls made so far,
and the executor asks with the calls that are stored, after the input went through the
database. A plan whose every row is granted after those before it can be served, and the
rows of an accepted plan are (`planRows_servable`).
-/

namespace SecondBrain

open Lib Lib.Json AgentTools

/-! ## Rows that are granted -/

/-- The tools that a caller passes: none, or those of the automatic agent that the run is of. -/
def CallerTools (run : AgentRun) (tools : Option (List ToolIdentity)) : Prop :=
  ∀ given, tools = some given → ∃ definition,
    getAutomaticAgentDefinition run.agentKind run.agentVersion = some definition ∧
      given = definition.allowedTools

/-- What the policy is asked about a row, where those before it have been called. -/
def rowRequest (run : AgentRun) (available : Bool) (before : List AgentStep) (s : AgentStep)
    (name : String) : PolicyRequest where
  name := name
  version := 1
  requestedAuthority := .read
  candidateInput := s.normalizedInput
  capturedRegistryVersion := run.registryVersion
  capturedRunProjectScope := run.projectId
  capturedRunToolCallBudget := run.toolCallBudget
  totalCallsReserved := before.length
  toolCallsReserved := before.countP (·.toolName == some name)
  configuredProviderAvailable := available

structure Permits (run : AgentRun) (tools : Option (List ToolIdentity)) (tool : ToolIdentity) :
    Prop where
  tools : tools.all (·.contains tool) = true
  research : isResearch run.agentKind run.agentVersion = true → researchTools.contains tool = true
  curator : isCurator run.agentKind run.agentVersion = true → curatorTools.contains tool = true

/-- The row can be called after those before it. -/
structure Servable (build : Build) (available : Bool) (tools : Option (List ToolIdentity))
    (run : AgentRun) (before : List AgentStep) (s : AgentStep) : Prop where
  ordinal : s.ordinal = before.length
  fits : s.Fits
  version : s.toolVersion = some 1
  tool : ∃ name, s.toolName = some name ∧ Permits run tools (name, 1) ∧
    ∃ d, (rowRequest run available before s name).Granted build d s.normalizedInput

structure ServablePlan (build : Build) (available : Bool) (tools : Option (List ToolIdentity))
    (run : AgentRun) (rows : List AgentStep) : Prop where
  nonempty : rows ≠ []
  budget : rows.length ≤ run.stepBudget
  twelve : rows.length ≤ 12
  ids : (rows.map (·.id)).Nodup
  known : run.hasUnknownDefinition = false
  scheduled : ¬ (run.needsScheduler = true ∧ tools = none)
  registry : run.registryVersion = build.registryVersion
  row : ∀ k s, rows[k]? = some s → Servable build available tools run (rows.take k) s

section

variable {build : Build} {available : Bool} {tools : Option (List ToolIdentity)}
  {run run' : AgentRun} {rows : List AgentStep}

/-- It is a matter of the columns that are written once. -/
theorem ServablePlan.of_still (h : ServablePlan build available tools run rows)
    (hstill : run'.still = run.still) : ServablePlan build available tools run' rows := by
  have hrow : ∀ k s, rows[k]? = some s →
      Servable build available tools run.still (rows.take k) s := by
    intro k s hs
    have hserves := h.row k s hs
    obtain ⟨name, hname, hpermits, hgranted⟩ := hserves.tool
    exact ⟨hserves.ordinal, hserves.fits, hserves.version, name, hname,
      ⟨hpermits.tools, hpermits.research, hpermits.curator⟩, hgranted⟩
  have hcolumns : ServablePlan build available tools run.still rows :=
    ⟨h.nonempty, h.budget, h.twelve, h.ids, h.known, h.scheduled, h.registry, hrow⟩
  rw [← hstill] at hcolumns
  refine ⟨hcolumns.nonempty, hcolumns.budget, hcolumns.twelve, hcolumns.ids, hcolumns.known,
    hcolumns.scheduled, hcolumns.registry, fun k s hs => ?_⟩
  have hserves := hcolumns.row k s hs
  obtain ⟨name, hname, hpermits, hgranted⟩ := hserves.tool
  exact ⟨hserves.ordinal, hserves.fits, hserves.version, name, hname,
    ⟨hpermits.tools, hpermits.research, hpermits.curator⟩, hgranted⟩

end

/-! ## An accepted plan can be served -/

section

variable {v : ToolScalars} (hv : v.Lawful) {sha256 : String → String} {available : Bool}
  {tools : Option (List ToolIdentity)} {run : AgentRun} {steps : List ValidatedStep}
  {ids : List Uuid}

theorem getElem?_planRows {k : Nat} {s : AgentStep} (h : (planRows steps ids)[k]? = some s) :
    ∃ row id, steps[k]? = some row ∧ s = row.toRow id := by
  rw [planRows, List.getElem?_map] at h
  obtain ⟨⟨row, id⟩, hpair, rfl⟩ := Option.map_eq_some_iff.mp h
  exact ⟨row, id, (List.getElem?_zip_eq_some.mp hpair).1, rfl⟩

theorem length_planRows (hlength : ids.length = steps.length) :
    (planRows steps ids).length = steps.length := by
  rw [planRows, List.length_map, List.length_zip]
  omega

theorem planRows_toolNames (hlength : ids.length = steps.length) :
    (planRows steps ids).map (·.toolName) = steps.map fun row => some row.toolName := by
  have hfst : (steps.zip ids).map (·.1) = steps := List.map_fst_zip (by omega)
  have hcolumn : (planRows steps ids).map (·.toolName) =
      ((steps.zip ids).map (·.1)).map fun row => some row.toolName := by
    rw [planRows, List.map_map, List.map_map]
    rfl
  rw [hcolumn, hfst]

/-- The rows before the step have the tools of the steps before it. -/
theorem planRows_calls (hlength : ids.length = steps.length) (k : Nat) (name : String) :
    ((planRows steps ids).take k).countP (·.toolName == some name) =
      (steps.take k).countP (·.toolName == name) := by
  have hrows : ((planRows steps ids).take k).countP (·.toolName == some name) =
      (((planRows steps ids).map (·.toolName)).take k).countP (· == some name) := by
    rw [← List.map_take, List.countP_map]
    rfl
  rw [hrows, planRows_toolNames hlength, ← List.map_take, List.countP_map]
  refine List.countP_congr fun row _ => ?_
  simp

theorem isResearch_of_isCurator {kind version : String} (h : isCurator kind version = true) :
    isResearch kind version = false := by
  rw [isCurator, Bool.and_eq_true, beq_iff_eq] at h
  rw [isResearch, h.1]
  rfl

/-- The agents that run automatically have the tools of Research, and are no Curator. -/
theorem automaticTools {kind version : String} {definition : AutomaticAgentDefinition}
    (h : getAutomaticAgentDefinition kind version = some definition) :
    definition.allowedTools = researchTools ∧ isCurator kind version = false := by
  rw [getAutomaticAgentDefinition] at h
  split at h
  · next hbrief =>
      cases h
      rw [isDailyBrief, Bool.and_eq_true, beq_iff_eq] at hbrief
      rw [isCurator, hbrief.1]
      exact ⟨rfl, rfl⟩
  split at h
  · next hwatch =>
      cases h
      rw [isProjectWatch, Bool.and_eq_true, beq_iff_eq] at hwatch
      rw [isCurator, hwatch.1]
      exact ⟨rfl, rfl⟩
  · cases h

/-- What the planner allows, the executor permits. -/
theorem permits_of_allowed (hcaller : CallerTools run tools) {revision : Nat}
    {tool : ToolIdentity}
    (h : ∀ given, allowedTools (claimOf run revision) tools = some given → tool ∈ given) :
    Permits run tools tool := by
  cases tools with
  | none =>
      refine ⟨rfl, fun hresearch => ?_, fun hcurator => ?_⟩
      · have hgiven : allowedTools (claimOf run revision) none = some researchTools := by
          rw [allowedTools]
          exact if_pos hresearch
        exact List.contains_iff_mem.mpr (h _ hgiven)
      · have hno := isResearch_of_isCurator hcurator
        have hgiven : allowedTools (claimOf run revision) none = some curatorTools := by
          simp [allowedTools, claimOf, hno, hcurator]
        exact List.contains_iff_mem.mpr (h _ hgiven)
  | some given =>
      obtain ⟨definition, hdefinition, rfl⟩ := hcaller given rfl
      obtain ⟨hresearch, hcurator⟩ := automaticTools hdefinition
      rw [hresearch] at h ⊢
      have hmem := List.contains_iff_mem.mpr (h researchTools rfl)
      refine ⟨hmem, fun _ => hmem, fun hisCurator => ?_⟩
      rw [hcurator] at hisCurator
      cases hisCurator

/-- The version of an accepted step is 1, as that of every registered tool. -/
theorem AcceptedStep.version_one {claim : PlanningClaim} {allowed : Option (List ToolIdentity)}
    {before : List ValidatedStep} {step : ProposedPlanningStep} {row : ValidatedStep}
    (h : AcceptedStep (currentBuild v sha256) claim available allowed before step row) :
    row.toolVersion = 1 := by
  obtain ⟨fields, rfl⟩ := h.row
  obtain ⟨resolved, hresolved, -⟩ := h.policy
  obtain ⟨d, hgranted⟩ := resolveToolPolicy_granted hresolved
  exact (getExact_some hgranted.registered).2.2

include hv

/-- The policy grants a call of the stored row, as it granted one of the proposed step. -/
theorem AcceptedStep.granted {revision : Nat} {allowed : Option (List ToolIdentity)}
    {before : List ValidatedStep} {step : ProposedPlanningStep} {row : ValidatedStep}
    (h : AcceptedStep (currentBuild v sha256) (claimOf run revision) available allowed before
      step row) (hbefore : ∀ other ∈ before, other.toolVersion = 1) {earlier : List AgentStep}
    (hlength : earlier.length = before.length)
    (hcalls : ∀ name, earlier.countP (·.toolName == some name) =
      before.countP (·.toolName == name)) (id : Uuid) :
    ∃ d, (rowRequest run available earlier (row.toRow id) row.toolName).Granted
      (currentBuild v sha256) d row.normalizedInput := by
  have hversion := h.version_one
  obtain ⟨fields, rfl⟩ := h.row
  obtain ⟨resolved, hresolved, hnormalized⟩ := h.policy
  obtain ⟨d, hgranted⟩ := resolveToolPolicy_granted hresolved
  obtain ⟨hd, -, -⟩ := getExact_some hgranted.registered
  rw [hnormalized] at hgranted
  have hregistered := hgranted.registered
  have hone : step.toolVersion = 1 := hversion
  -- every version is 1, so the calls of a tool are those of its name
  have hcount : (before.map (·.identity)).count step.identity =
      before.countP (·.toolName == step.toolName) := by
    rw [List.count, List.countP_map]
    refine List.countP_congr fun other hother => ?_
    rw [Function.comp_apply, ValidatedStep.identity, ProposedPlanningStep.identity,
      hbefore other hother, hone]
    simp
  refine ⟨d, {
    registryVersion := hgranted.registryVersion
    version := Nat.le_refl 1
    registered := ?_
    authority := rfl
    input := registry_stable hv hd _ _ hgranted.input
    inScope := hgranted.inScope
    operator := hgranted.operator
    provider := hgranted.provider
    total := ?_
    perTool := ?_
    timeout := hgranted.timeout
    output := hgranted.output }⟩
  · rw [← hregistered]
    show _ = Build.getExact _ step.toolName step.toolVersion
    rw [hone]
    rfl
  · show earlier.length < _
    rw [hlength]
    exact hgranted.total
  · show earlier.countP _ < _
    rw [hcalls]
    have hperTool := hgranted.perTool
    change (before.map (·.identity)).count step.identity < _ at hperTool
    rw [hcount] at hperTool
    exact hperTool

/-- The rows of a plan that was accepted and stored. -/
theorem planRows_servable {forbiddenRequest : String → Bool} {plan : PlanningResult}
    {revision : Nat} (hcaller : CallerTools run tools)
    (hvalid : validatePlan (currentBuild v sha256) forbiddenRequest (claimOf run revision) plan
      available tools = .ok steps)
    (hlength : ids.length = steps.length) (hids : ((planRows steps ids).map (·.id)).Nodup)
    (hfits : ∀ s ∈ planRows steps ids, s.Fits) (hknown : run.hasUnknownDefinition = false)
    (hscheduled : ¬ (run.needsScheduler = true ∧ tools = none))
    (hregistry : run.registryVersion = (currentBuild v sha256).registryVersion) :
    ServablePlan (currentBuild v sha256) available tools run (planRows steps ids) := by
  obtain ⟨-, hpos, hbudget, haccepted⟩ := validatePlan_ok hvalid
  rw [haccepted.length_eq] at hpos hbudget
  rw [le_min_iff] at hbudget
  have hsize := length_planRows hlength
  have hversions : ∀ row ∈ steps, row.toolVersion = 1 := by
    intro row hrow
    obtain ⟨k, hk⟩ := List.getElem?_of_mem hrow
    obtain ⟨step, -, hstep⟩ := haccepted.step hk
    exact hstep.version_one
  refine ⟨?_, ?_, ?_, hids, hknown, hscheduled, hregistry, fun k s hs => ?_⟩
  · intro hnone
    rw [hnone, List.length_nil] at hsize
    omega
  · rw [hsize]
    exact hbudget.1
  · rw [hsize]
    exact hbudget.2
  · have hmem := List.mem_of_getElem? hs
    obtain ⟨row, id, hrow, rfl⟩ := getElem?_planRows hs
    obtain ⟨step, hstep, hone⟩ := haccepted.step hrow
    have hk : k < steps.length := (List.getElem?_eq_some_iff.mp hrow).1
    have hbefore : (steps.take k).length = k := by
      rw [List.length_take]
      omega
    have hearlier : ((planRows steps ids).take k).length = (steps.take k).length := by
      rw [List.length_take, List.length_take, hsize]
    have hgranted := hone.granted hv (fun other hother => hversions other
      (List.mem_of_mem_take hother)) hearlier (planRows_calls hlength k) id
    have hversion := hone.version_one
    have hallowed := hone.allowed
    obtain ⟨fields, rfl⟩ := hone.row
    have hpermits : Permits run tools (step.toolName, step.toolVersion) :=
      permits_of_allowed hcaller hallowed
    change step.toolVersion = 1 at hversion
    rw [hversion] at hpermits
    exact ⟨hearlier.symm, hfits _ hmem, congrArg some hversion, step.toolName, rfl, hpermits,
      hgranted⟩

end

end SecondBrain
