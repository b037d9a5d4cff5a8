import SecondBrain.AgentPlanning.Service
import SecondBrain.AgentTools.Schemas

/-!
# What a planner may answer and what is accepted of it

The response contract bounds every text and every list of a plan, so a `PlanningResult` is
a plan within these bounds. `validatePlan` goes through its steps in order and asks the
policy of the tools about each, with the calls that the steps before it will have made.
`validatePlan_ok` says what a plan is that was accepted. The search for the words a plan
may not ask for is a parameter.
-/

namespace SecondBrain

open Lib

/-! ## The response contract -/

/-- A stripped text that is not empty and has at most `limit` characters. -/
structure BoundedText (limit : Nat) where
  text : String
  stripped : Schema.trim AgentTools.isWhiteSpace text = text
  nonempty : 1 ≤ text.length
  short : text.length ≤ limit

/-- The characters of a tool's name: `^[a-z0-9._]+$`. -/
def isToolNameCharacter (c : Char) : Bool :=
  (decide ('a' ≤ c) && decide (c ≤ 'z')) || c.isDigit || c == '.' || c == '_'

structure ProposedPlanningStep where
  purpose : BoundedText 1000
  toolName : String
  toolVersion : Nat
  candidateInput : List (String × Json)
  expectedEvidence : List (BoundedText 500)
  successCondition : BoundedText 1000
  stopCondition : BoundedText 1000
  toolName_pattern : toolName.toList.all isToolNameCharacter = true
  toolName_length : 1 ≤ toolName.length ∧ toolName.length ≤ 200
  toolVersion_pos : 0 < toolVersion
  evidence_length : 1 ≤ expectedEvidence.length ∧ expectedEvidence.length ≤ 10

structure PlanningResult where
  goalSummary : String
  steps : List ProposedPlanningStep
  goalSummary_length : 1 ≤ goalSummary.length ∧ goalSummary.length ≤ 1000
  steps_length : 1 ≤ steps.length ∧ steps.length ≤ 12

/-- The texts of a step that are written for a reader. -/
def ProposedPlanningStep.texts (step : ProposedPlanningStep) : List String :=
  step.purpose.text :: step.successCondition.text :: step.stopCondition.text ::
    step.expectedEvidence.map (·.text)

def ProposedPlanningStep.identity (step : ProposedPlanningStep) : ToolIdentity :=
  (step.toolName, step.toolVersion)

def ValidatedStep.identity (step : ValidatedStep) : ToolIdentity :=
  (step.toolName, step.toolVersion)

/-! ## Validation -/

inductive PlanningRejection where
  | outputRejected
  | policyRejected
  | assertion
deriving DecidableEq, Repr

/-- The tools a plan may use; an empty tuple counts as none given. -/
def allowedTools (claim : PlanningClaim) (automaticAllowedTools : Option (List ToolIdentity)) :
    Option (List ToolIdentity) :=
  match automaticAllowedTools with
  | some (tool :: rest) => some (tool :: rest)
  | some [] | none =>
      if isResearch claim.agentKind claim.agentVersion then some researchTools
      else if isCurator claim.agentKind claim.agentVersion then some curatorTools
      else none

/-- What the loop over the steps has gathered. -/
structure PlanningState where
  /-- The counter of the calls, as the list of what it counted. -/
  perTool : List ToolIdentity := []
  seen : List (String × Nat × String) := []
  validated : List ValidatedStep := []

/-- What the policy is asked about a step. -/
def planningRequest (claim : PlanningClaim) (configuredProviderAvailable : Bool)
    (perTool : List ToolIdentity) (ordinal : Nat) (step : ProposedPlanningStep) :
    PolicyRequest where
  name := step.toolName
  version := step.toolVersion
  requestedAuthority := .read
  candidateInput := .obj step.candidateInput
  capturedRegistryVersion := claim.registryVersion
  capturedRunProjectScope := claim.projectId
  capturedRunToolCallBudget := claim.toolCallBudget
  totalCallsReserved := ordinal
  toolCallsReserved := perTool.count step.identity
  configuredProviderAvailable := configuredProviderAvailable

def validatedStep (ordinal : Nat) (step : ProposedPlanningStep) (normalized : Json) :
    ValidatedStep where
  ordinal := ordinal
  purpose := step.purpose.text
  toolName := step.toolName
  toolVersion := step.toolVersion
  normalizedInput := normalized
  expectedEvidence := step.expectedEvidence.map (·.text)
  successCondition := step.successCondition.text
  stopCondition := step.stopCondition.text

section

variable (build : Build) (forbiddenRequest : String → Bool) (claim : PlanningClaim)
  (configuredProviderAvailable : Bool) (allowed : Option (List ToolIdentity))

def validateStep (state : PlanningState) (ordinal : Nat) (step : ProposedPlanningStep) :
    Except PlanningRejection PlanningState :=
  if step.texts.any forbiddenRequest then .error .policyRejected
  else if allowed.any (!·.contains step.identity) then .error .policyRejected
  else match resolveToolPolicy build
      (planningRequest claim configuredProviderAvailable state.perTool ordinal step) with
  | .error _ => .error .policyRejected
  | .ok resolved =>
      match resolved.normalizedInput with
      | .obj fields =>
          let signature := (step.toolName, step.toolVersion, (Json.obj fields).canonical)
          if state.seen.contains signature then .error .policyRejected
          else .ok
            { perTool := state.perTool ++ [step.identity]
              seen := state.seen ++ [signature]
              validated := state.validated ++ [validatedStep ordinal step (.obj fields)] }
      | _ => .error .assertion

def validateSteps (state : PlanningState) (ordinal : Nat) :
    List ProposedPlanningStep → Except PlanningRejection PlanningState
  | [] => .ok state
  | step :: rest => do
      let next ← validateStep build forbiddenRequest claim configuredProviderAvailable allowed
        state ordinal step
      validateSteps next (ordinal + 1) rest

end

def validatePlan (build : Build) (forbiddenRequest : String → Bool) (claim : PlanningClaim)
    (plan : PlanningResult) (configuredProviderAvailable : Bool)
    (automaticAllowedTools : Option (List ToolIdentity)) :
    Except PlanningRejection (List ValidatedStep) :=
  if plan.goalSummary ≠ claim.goalSummary then .error .outputRejected
  else if ¬(1 ≤ plan.steps.length ∧ plan.steps.length ≤ min claim.stepBudget 12) then
    .error .outputRejected
  else do
    let state ← validateSteps build forbiddenRequest claim configuredProviderAvailable
      (allowedTools claim automaticAllowedTools) {} 0 plan.steps
    return state.validated

/-! ## What was accepted -/

section

variable {build : Build} {forbiddenRequest : String → Bool} {claim : PlanningClaim}
  {available : Bool} {allowed : Option (List ToolIdentity)}

/-- The step was accepted after those before it. -/
structure AcceptedStep (build : Build) (claim : PlanningClaim) (available : Bool)
    (allowed : Option (List ToolIdentity)) (before : List ValidatedStep)
    (step : ProposedPlanningStep) (v : ValidatedStep) : Prop where
  row : ∃ fields, v = validatedStep before.length step (.obj fields)
  allowed : ∀ tools, allowed = some tools → step.identity ∈ tools
  policy : ∃ resolved, resolveToolPolicy build (planningRequest claim available
    (before.map (·.identity)) before.length step) = .ok resolved ∧
      resolved.normalizedInput = v.normalizedInput

/-- The steps were accepted one after another. -/
inductive Accepted (build : Build) (claim : PlanningClaim) (available : Bool)
    (allowed : Option (List ToolIdentity)) :
    List ProposedPlanningStep → List ValidatedStep → Prop where
  | nil : Accepted build claim available allowed [] []
  | snoc {steps : List ProposedPlanningStep} {before : List ValidatedStep}
      {step : ProposedPlanningStep} {v : ValidatedStep} :
      Accepted build claim available allowed steps before →
      AcceptedStep build claim available allowed before step v →
      Accepted build claim available allowed (steps ++ [step]) (before ++ [v])

/-- The counter counts the steps that were validated. -/
def PlanningState.Counts (state : PlanningState) : Prop :=
  state.perTool = state.validated.map (·.identity)

theorem validateStep_ok {state state' : PlanningState} {step : ProposedPlanningStep}
    (hcounts : state.Counts)
    (h : validateStep build forbiddenRequest claim available allowed state
      state.validated.length step = .ok state') :
    state'.Counts ∧ ∃ v, state'.validated = state.validated ++ [v] ∧
      AcceptedStep build claim available allowed state.validated step v := by
  rw [validateStep] at h
  split at h
  · cases h
  split at h
  · cases h
  next hallowed =>
    split at h
    · cases h
    next resolved hresolved =>
      split at h
      · next fields hfields =>
          dsimp only at h
          split at h
          · cases h
          · cases h
            refine ⟨?_, validatedStep state.validated.length step (.obj fields), rfl, ?_⟩
            · rw [PlanningState.Counts] at hcounts ⊢
              rw [List.map_append, ← hcounts]
              rfl
            · refine ⟨⟨fields, rfl⟩, fun tools htools => ?_, resolved, ?_, hfields⟩
              · rw [htools] at hallowed
                simpa using hallowed
              · rw [← hcounts]
                exact hresolved
      · cases h

theorem validateSteps_ok {steps done : List ProposedPlanningStep} {state state' : PlanningState}
    (hcounts : state.Counts) (hdone : Accepted build claim available allowed done state.validated)
    (h : validateSteps build forbiddenRequest claim available allowed state
      state.validated.length steps = .ok state') :
    Accepted build claim available allowed (done ++ steps) state'.validated := by
  induction steps generalizing done state with
  | nil =>
      cases h
      rw [List.append_nil]
      exact hdone
  | cons step rest ih =>
      obtain ⟨next, hnext, h⟩ := bind_ok h
      obtain ⟨hcounts', v, hv, haccepted⟩ := validateStep_ok hcounts hnext
      have hlength : state.validated.length + 1 = next.validated.length := by
        rw [hv, List.length_append, List.length_singleton]
      rw [hlength] at h
      have hsofar : Accepted build claim available allowed (done ++ [step]) next.validated := by
        rw [hv]
        exact .snoc hdone haccepted
      have hall := ih hcounts' hsofar h
      rw [List.append_assoc] at hall
      exact hall

/-- An accepted plan: its goal is that of the run, its steps fit the budget, and each was
accepted after those before it. -/
theorem validatePlan_ok {plan : PlanningResult} {automatic : Option (List ToolIdentity)}
    {steps : List ValidatedStep}
    (h : validatePlan build forbiddenRequest claim plan available automatic = .ok steps) :
    plan.goalSummary = claim.goalSummary ∧ 1 ≤ plan.steps.length ∧
      plan.steps.length ≤ min claim.stepBudget 12 ∧
      Accepted build claim available (allowedTools claim automatic) plan.steps steps := by
  rw [validatePlan] at h
  split at h
  · cases h
  next hgoal =>
    split at h
    · cases h
    next hlength =>
      rw [not_not] at hgoal hlength
      obtain ⟨state, hstate, h⟩ := bind_ok h
      cases h
      have hstart : PlanningState.Counts {} := rfl
      exact ⟨hgoal, hlength.1, hlength.2, validateSteps_ok hstart .nil hstate⟩

theorem Accepted.length_eq {steps : List ProposedPlanningStep} {validated : List ValidatedStep}
    (h : Accepted build claim available allowed steps validated) :
    steps.length = validated.length := by
  induction h with
  | nil => rfl
  | snoc _ _ ih => rw [List.length_append, List.length_append, ih]; rfl

/-- Each validated step was accepted after those before it. -/
theorem Accepted.step {steps : List ProposedPlanningStep} {validated : List ValidatedStep}
    (h : Accepted build claim available allowed steps validated) {k : Nat} {v : ValidatedStep}
    (hv : validated[k]? = some v) :
    ∃ step, steps[k]? = some step ∧
      AcceptedStep build claim available allowed (validated.take k) step v := by
  induction h with
  | nil => cases hv
  | @snoc steps before step last hbefore hstep ih =>
      have hlt : k < before.length + 1 := by
        have := (List.getElem?_eq_some_iff.mp hv).1
        rw [List.length_append, List.length_singleton] at this
        exact this
      by_cases hk : k < before.length
      · rw [List.getElem?_append_left hk] at hv
        obtain ⟨proposed, hproposed, haccepted⟩ := ih hv
        refine ⟨proposed, ?_, ?_⟩
        · rw [List.getElem?_append_left (by rw [hbefore.length_eq]; exact hk)]
          exact hproposed
        · rw [List.take_append_of_le_length (Nat.le_of_lt hk)]
          exact haccepted
      · obtain rfl : k = before.length := by omega
        rw [List.getElem?_concat_length] at hv
        cases hv
        refine ⟨step, ?_, ?_⟩
        · rw [← hbefore.length_eq, List.getElem?_concat_length]
        · rw [List.take_left']
          · exact hstep
          · rfl

end

end SecondBrain
