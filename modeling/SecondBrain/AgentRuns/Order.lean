import SecondBrain.AgentRuns.Soundness
import SecondBrain.AgentRuns.Evolution

/-!
# The order and the budgets of an execution

What holds of the rows of every run, whatever became of it: the steps ran one
after the other in the order of their ordinals, at most one invocation is
active, a step has succeeded exactly where one of its invocations has, and the
counts are within the budgets. `Orderly` says so of a record, and `Turn` is all
that an operation does to one; a turn keeps it (`Turn.orderly`,
`Turn.withinBudget`).

An operation that ends a run does not always settle what was going on. `Turn`
takes the condition under which it does as a parameter, and where that holds a
run that is over is idle (`Turn.idle`).
-/

namespace SecondBrain

open Lib

/-- The columns of an invocation that are written once. -/
def ToolInvocation.still (i : ToolInvocation) : ToolInvocation :=
  { i with
    status := .reserved
    safeResultSummary := none
    evidenceReferences := []
    safeErrorCode := none
    startedAt := none
    finishedAt := none }

/-- Closed without having succeeded. -/
def StepStatus.isOver : StepStatus → Bool
  | .failed | .skipped | .cancelled => true
  | .pending | .running | .succeeded => false

theorem StepStatus.succeeded_of_closed {s : StepStatus} (hclosed : s.isOpen = false)
    (hover : s.isOver = false) : s = .succeeded := by
  revert hclosed hover
  cases s <;> decide

/-- The invocations of the step that succeeded. -/
def RunRecord.successes (r : RunRecord) (stepId : Uuid) : Nat :=
  r.invocations.countP fun i => i.stepId == stepId && i.status == .succeeded

structure Orderly (r : RunRecord) : Prop where
  stepIds : (r.steps.map (·.id)).Nodup
  ordinals : (r.steps.map (·.ordinal)).Nodup
  invocationIds : (r.invocations.map (·.id)).Nodup
  attempts : ∀ i ∈ r.invocations, i.attempt ≤ 1
  distinct : ∀ i ∈ r.invocations, ∀ j ∈ r.invocations, i.stepId = j.stepId →
    i.attempt = j.attempt → i = j
  owned : ∀ i ∈ r.invocations, ∃ s ∈ r.steps, s.id = i.stepId
  succeeded : ∀ s ∈ r.steps, r.successes s.id = if s.status = .succeeded then 1 else 0
  order : ∀ s ∈ r.steps, ∀ t ∈ r.steps, s.ordinal < t.ordinal →
    t.status = .running ∨ t.status = .succeeded → s.status = .succeeded
  single : ∀ i ∈ r.invocations, ∀ j ∈ r.invocations, i.status.isActive = true →
    j.status.isActive = true → i = j
  early : r.run.state.isEarly = true →
    r.invocations = [] ∧ ∀ s ∈ r.steps, s.status = .pending
  live : r.run.state = .running → r.run.hasUnknownDefinition = false ∧
    ∀ s ∈ r.steps, s.status.isOver = false
  busy : r.run.state = .running → ∀ i ∈ r.invocations, i.status.isActive = true →
    ∃ s ∈ r.steps, s.id = i.stepId ∧ s.status = .running
  completed : r.run.state = .completed → r.allSucceeded
  /-- Nobody moves a run there. -/
  served : r.run.state ≠ .awaitingApproval

/-- Nothing of the run is going on. -/
def Idle (r : RunRecord) : Prop :=
  (∀ s ∈ r.steps, s.status ≠ .running) ∧ ∀ i ∈ r.invocations, i.status.isActive = false

/-- The counts are within the budgets of the run and within what `calls` allows
each tool of the registry version of the run. -/
structure WithinBudget (calls : String → String → Nat → Nat) (r : RunRecord) : Prop where
  retries : r.invocations.countP (0 < ·.attempt) ≤ r.run.retryBudget
  total : r.invocations.length ≤ r.run.toolCallBudget
  perTool : ∀ name version,
    r.invocations.countP (fun i => i.toolName == name && i.toolVersion == version) ≤
      calls r.run.registryVersion name version

/-- The budgets count columns that are written once. -/
theorem WithinBudget.of_still {calls : String → String → Nat → Nat}
    {r r' : RunRecord} {g : ToolInvocation → ToolInvocation} (hr : WithinBudget calls r)
    (hstill : r'.run.still = r.run.still) (hinvocations : r'.invocations = r.invocations.map g)
    (hg : ∀ i ∈ r.invocations, (g i).still = i.still) : WithinBudget calls r' := by
  have hretries : r'.run.retryBudget = r.run.retryBudget :=
    @congrArg _ _ r'.run.still r.run.still AgentRun.retryBudget hstill
  have htotal : r'.run.toolCallBudget = r.run.toolCallBudget :=
    @congrArg _ _ r'.run.still r.run.still AgentRun.toolCallBudget hstill
  have hversion : r'.run.registryVersion = r.run.registryVersion :=
    @congrArg _ _ r'.run.still r.run.still AgentRun.registryVersion hstill
  have hcount : ∀ p : ToolInvocation → Bool, (∀ i, p i = p i.still) →
      r'.invocations.countP p = r.invocations.countP p := by
    intro p hp
    rw [hinvocations, List.countP_map]
    refine List.countP_congr fun i hi => ?_
    rw [Function.comp_apply, hp (g i), hg i hi, ← hp i]
  refine ⟨?_, ?_, fun name version => ?_⟩
  · rw [hcount _ fun _ => rfl, hretries]
    exact hr.retries
  · rw [hinvocations, List.length_map, htotal]
    exact hr.total
  · rw [hcount _ fun _ => rfl, hversion]
    exact hr.perTool name version

/-! ## Rows that only close -/

structure AgentStep.Closes (s s' : AgentStep) : Prop where
  still : s'.still = s.still
  status : s'.status = s.status ∨ s.status.isOpen = true ∧ s'.status.isOver = true

structure ToolInvocation.Ends (i i' : ToolInvocation) : Prop where
  still : i'.still = i.still
  status : i'.status = i.status ∨
    i.status ≠ .succeeded ∧ i'.status ≠ .succeeded ∧ i'.status.isActive = false

/-- The same rows, some of which are closed now. -/
structure Closes (r r' : RunRecord) : Prop where
  steps : ∃ f, r'.steps = r.steps.map f ∧ ∀ s ∈ r.steps, s.Closes (f s)
  invocations : ∃ g, r'.invocations = r.invocations.map g ∧ ∀ i ∈ r.invocations, i.Ends (g i)

section Columns

variable {s s' : AgentStep} {i i' : ToolInvocation}

theorem AgentStep.Closes.refl (s : AgentStep) : s.Closes s := ⟨rfl, .inl rfl⟩

theorem AgentStep.Closes.trans {s'' : AgentStep} (h : s.Closes s') (h' : s'.Closes s'') :
    s.Closes s'' := by
  refine ⟨h'.still.trans h.still, ?_⟩
  rcases h.status with hsame | ⟨hopen, hover⟩
  · rw [← hsame]
    exact h'.status
  · refine .inr ⟨hopen, ?_⟩
    rcases h'.status with hsame | ⟨-, hover'⟩
    · rw [hsame]
      exact hover
    · exact hover'

theorem ToolInvocation.Ends.refl (i : ToolInvocation) : i.Ends i := ⟨rfl, .inl rfl⟩

theorem ToolInvocation.Ends.trans {i'' : ToolInvocation} (h : i.Ends i') (h' : i'.Ends i'') :
    i.Ends i'' := by
  refine ⟨h'.still.trans h.still, ?_⟩
  rcases h.status with hsame | ⟨hbefore, hafter, hidle⟩
  · rw [← hsame]
    exact h'.status
  · refine .inr ⟨hbefore, ?_⟩
    rcases h'.status with hsame | ⟨-, hafter', hidle'⟩
    · rw [hsame]
      exact ⟨hafter, hidle⟩
    · exact ⟨hafter', hidle'⟩

theorem AgentStep.Closes.id_eq (h : s.Closes s') : s'.id = s.id :=
  @congrArg _ _ s'.still s.still AgentStep.id h.still

theorem AgentStep.Closes.ordinal_eq (h : s.Closes s') : s'.ordinal = s.ordinal :=
  @congrArg _ _ s'.still s.still AgentStep.ordinal h.still

theorem AgentStep.Closes.succeeded_iff (h : s.Closes s') :
    s'.status = .succeeded ↔ s.status = .succeeded := by
  rcases h.status with hsame | ⟨hopen, hover⟩
  · rw [hsame]
  · constructor
    · intro hdone
      rw [hdone] at hover
      cases hover
    · intro hdone
      rw [hdone] at hopen
      cases hopen

theorem AgentStep.Closes.running (h : s.Closes s') (hrunning : s'.status = .running) :
    s.status = .running := by
  rcases h.status with hsame | ⟨-, hover⟩
  · exact hsame ▸ hrunning
  · rw [hrunning] at hover
    cases hover

theorem ToolInvocation.Ends.id_eq (h : i.Ends i') : i'.id = i.id :=
  @congrArg _ _ i'.still i.still ToolInvocation.id h.still

theorem ToolInvocation.Ends.stepId_eq (h : i.Ends i') : i'.stepId = i.stepId :=
  @congrArg _ _ i'.still i.still ToolInvocation.stepId h.still

theorem ToolInvocation.Ends.attempt_eq (h : i.Ends i') : i'.attempt = i.attempt :=
  @congrArg _ _ i'.still i.still ToolInvocation.attempt h.still

theorem ToolInvocation.Ends.toolName_eq (h : i.Ends i') : i'.toolName = i.toolName :=
  @congrArg _ _ i'.still i.still ToolInvocation.toolName h.still

theorem ToolInvocation.Ends.toolVersion_eq (h : i.Ends i') : i'.toolVersion = i.toolVersion :=
  @congrArg _ _ i'.still i.still ToolInvocation.toolVersion h.still

theorem ToolInvocation.Ends.succeeded_iff (h : i.Ends i') :
    i'.status = .succeeded ↔ i.status = .succeeded := by
  rcases h.status with hsame | ⟨hbefore, hafter, -⟩
  · rw [hsame]
  · exact iff_of_false hafter hbefore

theorem ToolInvocation.Ends.active (h : i.Ends i') (hactive : i'.status.isActive = true) :
    i.status.isActive = true := by
  rcases h.status with hsame | ⟨-, -, hidle⟩
  · exact hsame ▸ hactive
  · rw [hidle] at hactive
    cases hactive

end Columns

namespace Closes

variable {r r' r'' : RunRecord}

theorem of_rows (hsteps : r'.steps = r.steps) (hinvocations : r'.invocations = r.invocations) :
    Closes r r' :=
  ⟨⟨id, by rw [hsteps, List.map_id], fun s _ => .refl s⟩,
    ⟨id, by rw [hinvocations, List.map_id], fun i _ => .refl i⟩⟩

theorem refl (r : RunRecord) : Closes r r := of_rows rfl rfl

theorem trans (h : Closes r r') (h' : Closes r' r'') : Closes r r'' := by
  obtain ⟨f, hf, hcloses⟩ := h.steps
  obtain ⟨f', hf', hcloses'⟩ := h'.steps
  obtain ⟨g, hg, hends⟩ := h.invocations
  obtain ⟨g', hg', hends'⟩ := h'.invocations
  refine ⟨⟨f' ∘ f, by rw [hf', hf, List.map_map], fun s hs => ?_⟩,
    ⟨g' ∘ g, by rw [hg', hg, List.map_map], fun i hi => ?_⟩⟩
  · exact (hcloses s hs).trans (hcloses' _ (hf ▸ List.mem_map_of_mem hs))
  · exact (hends i hi).trans (hends' _ (hg ▸ List.mem_map_of_mem hi))

/-- Every step of the record is one that was there. -/
theorem step_of (h : Closes r r') {s' : AgentStep} (hs' : s' ∈ r'.steps) :
    ∃ s ∈ r.steps, s.Closes s' := by
  obtain ⟨f, hf, hcloses⟩ := h.steps
  rw [hf] at hs'
  obtain ⟨s, hs, rfl⟩ := List.mem_map.mp hs'
  exact ⟨s, hs, hcloses s hs⟩

/-- Every step that was there still is. -/
theorem step_to (h : Closes r r') {s : AgentStep} (hs : s ∈ r.steps) :
    ∃ s' ∈ r'.steps, s.Closes s' := by
  obtain ⟨f, hf, hcloses⟩ := h.steps
  exact ⟨f s, hf ▸ List.mem_map_of_mem hs, hcloses s hs⟩

theorem invocation_of (h : Closes r r') {i' : ToolInvocation} (hi' : i' ∈ r'.invocations) :
    ∃ i ∈ r.invocations, i.Ends i' := by
  obtain ⟨g, hg, hends⟩ := h.invocations
  rw [hg] at hi'
  obtain ⟨i, hi, rfl⟩ := List.mem_map.mp hi'
  exact ⟨i, hi, hends i hi⟩

theorem stepIds (h : Closes r r') : r'.steps.map (·.id) = r.steps.map (·.id) := by
  obtain ⟨f, hf, hcloses⟩ := h.steps
  rw [hf, List.map_map]
  exact List.map_congr_left fun s hs => (hcloses s hs).id_eq

theorem ordinals (h : Closes r r') : r'.steps.map (·.ordinal) = r.steps.map (·.ordinal) := by
  obtain ⟨f, hf, hcloses⟩ := h.steps
  rw [hf, List.map_map]
  exact List.map_congr_left fun s hs => (hcloses s hs).ordinal_eq

theorem invocationIds (h : Closes r r') :
    r'.invocations.map (·.id) = r.invocations.map (·.id) := by
  obtain ⟨g, hg, hends⟩ := h.invocations
  rw [hg, List.map_map]
  exact List.map_congr_left fun i hi => (hends i hi).id_eq

/-- A count that reads what is written once. -/
theorem countP (h : Closes r r') {p : ToolInvocation → Bool}
    (hp : ∀ i i' : ToolInvocation, i.Ends i' → p i' = p i) :
    r'.invocations.countP p = r.invocations.countP p := by
  obtain ⟨g, hg, hends⟩ := h.invocations
  rw [hg, List.countP_map]
  refine List.countP_congr fun i hi => ?_
  rw [Function.comp_apply, hp i (g i) (hends i hi)]

theorem successes (h : Closes r r') (id : Uuid) : r'.successes id = r.successes id := by
  refine h.countP fun i i' hends => ?_
  have hsame : (i'.status == .succeeded) = (i.status == .succeeded) := by
    rw [Bool.eq_iff_iff, beq_iff_eq, beq_iff_eq]
    exact hends.succeeded_iff
  rw [hends.stepId_eq, hsame]

theorem idle (h : Closes r r') (hr : Idle r) : Idle r' := by
  refine ⟨fun s' hs' hrunning => ?_, fun i' hi' => ?_⟩
  · obtain ⟨s, hs, hcloses⟩ := h.step_of hs'
    exact hr.1 s hs (hcloses.running hrunning)
  · obtain ⟨i, hi, hends⟩ := h.invocation_of hi'
    by_contra hactive
    have hbefore := hends.active (by simpa using hactive)
    rw [hr.2 i hi] at hbefore
    cases hbefore

/-- What does not depend on the state of the run. -/
theorem orderly (h : Closes r r') (hr : Orderly r)
    (hearly : r'.run.state.isEarly = true →
      r'.invocations = [] ∧ ∀ s ∈ r'.steps, s.status = .pending)
    (hlive : r'.run.state = .running → r'.run.hasUnknownDefinition = false ∧
      ∀ s ∈ r'.steps, s.status.isOver = false)
    (hbusy : r'.run.state = .running → ∀ i ∈ r'.invocations, i.status.isActive = true →
      ∃ s ∈ r'.steps, s.id = i.stepId ∧ s.status = .running)
    (hcompleted : r'.run.state = .completed → r'.allSucceeded)
    (hserved : r'.run.state ≠ .awaitingApproval) : Orderly r' where
  stepIds := by rw [h.stepIds]; exact hr.stepIds
  ordinals := by rw [h.ordinals]; exact hr.ordinals
  invocationIds := by rw [h.invocationIds]; exact hr.invocationIds
  attempts := by
    intro i' hi'
    obtain ⟨i, hi, hends⟩ := h.invocation_of hi'
    rw [hends.attempt_eq]
    exact hr.attempts i hi
  distinct := by
    intro i' hi' j' hj' hstep hattempt
    obtain ⟨i, hi, hends⟩ := h.invocation_of hi'
    obtain ⟨j, hj, hends'⟩ := h.invocation_of hj'
    rw [hends.stepId_eq, hends'.stepId_eq] at hstep
    rw [hends.attempt_eq, hends'.attempt_eq] at hattempt
    have hsame := hr.distinct i hi j hj hstep hattempt
    refine List.inj_on_of_nodup_map (f := (·.id)) ?_ hi' hj' ?_
    · rw [h.invocationIds]
      exact hr.invocationIds
    · show i'.id = j'.id
      rw [hends.id_eq, hends'.id_eq, hsame]
  owned := by
    intro i' hi'
    obtain ⟨i, hi, hends⟩ := h.invocation_of hi'
    obtain ⟨s, hs, hid⟩ := hr.owned i hi
    obtain ⟨s', hs', hcloses⟩ := h.step_to hs
    exact ⟨s', hs', by rw [hcloses.id_eq, hends.stepId_eq, hid]⟩
  succeeded := by
    intro s' hs'
    obtain ⟨s, hs, hcloses⟩ := h.step_of hs'
    rw [h.successes, hcloses.id_eq, hr.succeeded s hs]
    exact if_congr hcloses.succeeded_iff.symm rfl rfl
  order := by
    intro s' hs' t' ht' hlt hstatus
    obtain ⟨s, hs, hcloses⟩ := h.step_of hs'
    obtain ⟨t, ht, hcloses'⟩ := h.step_of ht'
    rw [hcloses.ordinal_eq, hcloses'.ordinal_eq] at hlt
    refine hcloses.succeeded_iff.mpr (hr.order s hs t ht hlt ?_)
    exact hstatus.imp hcloses'.running hcloses'.succeeded_iff.mp
  single := by
    intro i' hi' j' hj' hactive hactive'
    obtain ⟨i, hi, hends⟩ := h.invocation_of hi'
    obtain ⟨j, hj, hends'⟩ := h.invocation_of hj'
    have hsame := hr.single i hi j hj (hends.active hactive) (hends'.active hactive')
    refine List.inj_on_of_nodup_map (f := (·.id)) ?_ hi' hj' ?_
    · rw [h.invocationIds]
      exact hr.invocationIds
    · show i'.id = j'.id
      rw [hends.id_eq, hends'.id_eq, hsame]
  early := hearly
  live := hlive
  busy := hbusy
  completed := hcompleted
  served := hserved

end Closes

/-! ## All that an operation does -/

/-- A new invocation `i` of the first open step. -/
structure Reserves (build : Build) (r : RunRecord) (step : AgentStep) (i : ToolInvocation) :
    Prop where
  member : step ∈ r.steps
  opened : step.status.isOpen = true
  first : ∀ s ∈ r.steps, s.ordinal < step.ordinal → s.status.isOpen = false
  quiet : step.status = .running →
    ∀ j ∈ r.invocations, j.stepId = step.id → j.status.isActive = false
  stepId : i.stepId = step.id
  status : i.status = .running
  attempt : i.attempt ≤ 1
  fresh : ∀ j ∈ r.invocations, j.id ≠ i.id ∧ ¬ (j.stepId = i.stepId ∧ j.attempt = i.attempt)
  retry : 0 < i.attempt → r.invocations.countP (0 < ·.attempt) < r.run.retryBudget
  total : r.invocations.length < r.run.toolCallBudget
  version : r.run.registryVersion = build.registryVersion
  perTool : ∃ d, build.getExact i.toolName i.toolVersion = some d ∧
    r.invocations.countP (·.toolName == i.toolName) < d.callsPerRun

/-- Builds in `B` reserve, and a run that is ended is idle where `clean` holds. -/
inductive Turn (B : Build → Prop) (clean : Prop) (r r' : RunRecord) : Prop where
  | kept : r'.run.state = r.run.state → r'.steps = r.steps → r'.invocations = r.invocations →
      Turn B clean r r'
  /-- A run is planned. -/
  | planned (new : List AgentStep) : r.run.state.isEarly = true → r'.run.state.isEarly = true →
      r'.steps = r.steps ++ new → (∀ s ∈ new, s.status = .pending) →
      (r'.steps.map (·.id)).Nodup → (r'.steps.map (·.ordinal)).Nodup →
      r'.invocations = r.invocations → Turn B clean r r'
  | claimed : r.run.state = .ready → r'.run.state = .running →
      r.run.hasUnknownDefinition = false → r'.steps = r.steps →
      r'.invocations = r.invocations → Turn B clean r r'
  | reserved (build : Build) (step : AgentStep) (i : ToolInvocation)
      (f : AgentStep → AgentStep) : B build →
      r.run.state = .running → r'.run.state = .running → Reserves build r step i →
      (∀ s, (f s).still = s.still ∧ (f s).status = .running) →
      r'.steps = (r.updateStep step.id f).steps → r'.invocations = r.invocations ++ [i] →
      Turn B clean r r'
  /-- The invocation `i` comes back and its step has succeeded. -/
  | succeeded (i : ToolInvocation) (f : AgentStep → AgentStep)
      (g : ToolInvocation → ToolInvocation) :
      r.run.state = .running → r'.run.state = .running → i ∈ r.invocations →
      i.status = .running → (∀ s, (f s).still = s.still ∧ (f s).status = .succeeded) →
      (g i).still = i.still → (g i).status = .succeeded →
      r'.steps = (r.updateStep i.stepId f).steps →
      r'.invocations = (r.updateInvocation i.id g).invocations → Turn B clean r r'
  /-- An invocation is over, and its step may be tried again. -/
  | eased : r.run.state = .running → r'.run.state = .running → Closes r r' →
      (∀ s' ∈ r'.steps, s'.status.isOver = false) → Turn B clean r r'
  | ended : r'.run.state.isTerminal = true → Closes r r' →
      (r'.run.state = .completed → r'.allSucceeded) →
      (clean → r.run.state.isTerminal = false → Idle r') → Turn B clean r r'

section Changes

variable {build : Build} {r r' : RunRecord}

theorem AgentStep.id_of_still {s s' : AgentStep} (h : s'.still = s.still) : s'.id = s.id :=
  @congrArg _ _ s'.still s.still AgentStep.id h

theorem AgentStep.ordinal_of_still {s s' : AgentStep} (h : s'.still = s.still) :
    s'.ordinal = s.ordinal :=
  @congrArg _ _ s'.still s.still AgentStep.ordinal h

/-- The steps after one of them was given another status. -/
theorem updateStep_keys (id : Uuid) {f : AgentStep → AgentStep}
    (hf : ∀ s, (f s).still = s.still) :
    (r.updateStep id f).steps.map (·.id) = r.steps.map (·.id) ∧
      (r.updateStep id f).steps.map (·.ordinal) = r.steps.map (·.ordinal) := by
  rw [RunRecord.updateStep, List.map_map, List.map_map]
  constructor
  · refine List.map_congr_left fun s _ => ?_
    rw [Function.comp_apply]
    split
    · exact AgentStep.id_of_still (hf s)
    · rfl
  · refine List.map_congr_left fun s _ => ?_
    rw [Function.comp_apply]
    split
    · exact AgentStep.ordinal_of_still (hf s)
    · rfl

theorem Orderly.step_eq (h : Orderly r) {s t : AgentStep} (hs : s ∈ r.steps)
    (ht : t ∈ r.steps) (hid : s.id = t.id) : s = t :=
  List.inj_on_of_nodup_map h.stepIds hs ht hid

theorem Orderly.invocation_eq (h : Orderly r) {i j : ToolInvocation}
    (hi : i ∈ r.invocations) (hj : j ∈ r.invocations) (hid : i.id = j.id) : i = j :=
  List.inj_on_of_nodup_map h.invocationIds hi hj hid

/-- One step runs at a time. -/
theorem Orderly.running_eq (h : Orderly r) {s t : AgentStep} (hs : s ∈ r.steps)
    (ht : t ∈ r.steps) (hrunning : s.status = .running) (hrunning' : t.status = .running) :
    s = t := by
  rcases lt_trichotomy s.ordinal t.ordinal with hlt | heq | hlt
  · have hdone := h.order s hs t ht hlt (.inl hrunning')
    rw [hrunning] at hdone
    cases hdone
  · exact List.inj_on_of_nodup_map h.ordinals hs ht heq
  · have hdone := h.order t ht s hs hlt (.inl hrunning)
    rw [hrunning'] at hdone
    cases hdone

/-- A run with all steps done is idle. -/
theorem Orderly.idle_of_allSucceeded (h : Orderly r) (hrun : r.run.state = .running)
    (hall : r.allSucceeded) : Idle r := by
  refine ⟨fun s hs hrunning => ?_, fun i hi => ?_⟩
  · rw [hall s hs] at hrunning
    cases hrunning
  · by_contra hactive
    obtain ⟨s, hs, -, hrunning⟩ := h.busy hrun i hi (by simpa using hactive)
    rw [hall s hs] at hrunning
    cases hrunning

theorem Orderly.idle_of_early (h : Orderly r) (hearly : r.run.state.isEarly = true) :
    Idle r := by
  obtain ⟨hnone, hpending⟩ := h.early hearly
  refine ⟨fun s hs hrunning => ?_, fun i hi => ?_⟩
  · rw [hpending s hs] at hrunning
    cases hrunning
  · rw [hnone] at hi
    cases hi

/-- A step that is not done has no invocation that succeeded. -/
theorem Orderly.unsuccessful (h : Orderly r) {s : AgentStep} (hs : s ∈ r.steps)
    (hstatus : s.status ≠ .succeeded) : r.successes s.id = 0 := by
  rw [h.succeeded s hs, if_neg hstatus]

/-- Before the first open step is tried nothing of the run is active. -/
theorem Reserves.idle {step : AgentStep} {i : ToolInvocation} (h : Reserves build r step i)
    (hr : Orderly r) (hrun : r.run.state = .running) :
    ∀ j ∈ r.invocations, j.status.isActive = false := by
  intro j hj
  by_contra hactive
  rw [Bool.not_eq_false] at hactive
  obtain ⟨s, hs, hid, hrunning⟩ := hr.busy hrun j hj hactive
  rcases lt_trichotomy s.ordinal step.ordinal with hlt | heq | hlt
  · have hclosed := h.first s hs hlt
    rw [hrunning] at hclosed
    cases hclosed
  · obtain rfl := List.inj_on_of_nodup_map hr.ordinals hs h.member heq
    rw [h.quiet hrunning j hj hid.symm] at hactive
    cases hactive
  · have hdone := hr.order step h.member s hs hlt (.inl hrunning)
    have hopen := h.opened
    rw [hdone] at hopen
    cases hopen

theorem Orderly.reserve {step : AgentStep} {i : ToolInvocation} {f : AgentStep → AgentStep}
    (hr : Orderly r) (hstill : r'.run.still = r.run.still) (hrun : r.run.state = .running)
    (hrun' : r'.run.state = .running) (h : Reserves build r step i)
    (hf : ∀ s, (f s).still = s.still ∧ (f s).status = .running)
    (hsteps : r'.steps = (r.updateStep step.id f).steps)
    (hinvocations : r'.invocations = r.invocations ++ [i]) : Orderly r' := by
  have hkeys := updateStep_keys (r := r) step.id fun s => (hf s).1
  have hidle := h.idle hr hrun
  obtain ⟨hknown, hlive⟩ := hr.live hrun
  -- a step of the new record, and what it was
  have old : ∀ s' ∈ r'.steps, ∃ s ∈ r.steps, s'.still = s.still ∧
      (s.id = step.id ∧ s'.status = .running ∨ s.id ≠ step.id ∧ s' = s) := by
    intro s' hs'
    rw [hsteps] at hs'
    obtain ⟨s, hs, rfl⟩ := mem_updateStep.mp hs'
    refine ⟨s, hs, ?_⟩
    by_cases hid : s.id = step.id
    · rw [if_pos hid]
      exact ⟨(hf s).1, .inl ⟨hid, (hf s).2⟩⟩
    · rw [if_neg hid]
      exact ⟨rfl, .inr ⟨hid, rfl⟩⟩
  have hdone : ∀ s ∈ r.steps, s.ordinal < step.ordinal → s.status = .succeeded := by
    intro s hs hlt
    exact StepStatus.succeeded_of_closed (h.first s hs hlt) (hlive s hs)
  have hundone : step.status ≠ .succeeded := by
    intro hstatus
    have hopen := h.opened
    rw [hstatus] at hopen
    cases hopen
  have hmem : ∀ j ∈ r'.invocations, j ∈ r.invocations ∨ j = i := by
    intro j hj
    rw [hinvocations, List.mem_append, List.mem_singleton] at hj
    exact hj
  refine ⟨?_, ?_, ?_, ?_, ?_, ?_, ?_, ?_, ?_, ?_, ?_, ?_, ?_, by rw [hrun']; nofun⟩
  · rw [hsteps, hkeys.1]
    exact hr.stepIds
  · rw [hsteps, hkeys.2]
    exact hr.ordinals
  · rw [hinvocations, List.map_append, List.nodup_append]
    refine ⟨hr.invocationIds, List.nodup_singleton _, ?_⟩
    rintro id hid id' hid' rfl
    obtain ⟨j, hj, rfl⟩ := List.mem_map.mp hid
    rw [List.map_singleton, List.mem_singleton] at hid'
    exact (h.fresh j hj).1 hid'
  · intro j hj
    rcases hmem j hj with hj | rfl
    · exact hr.attempts j hj
    · exact h.attempt
  · intro j hj k hk hstep hattempt
    rcases hmem j hj with hj | rfl <;> rcases hmem k hk with hk | rfl
    · exact hr.distinct j hj k hk hstep hattempt
    · exact absurd ⟨hstep, hattempt⟩ (h.fresh j hj).2
    · exact absurd ⟨hstep.symm, hattempt.symm⟩ (h.fresh k hk).2
    · rfl
  · intro j hj
    have hstep : ∃ s ∈ r.steps, s.id = j.stepId := by
      rcases hmem j hj with hj | rfl
      · exact hr.owned j hj
      · exact ⟨step, h.member, h.stepId.symm⟩
    obtain ⟨s, hs, hid⟩ := hstep
    rw [hsteps]
    refine ⟨_, mem_updateStep.mpr ⟨s, hs, rfl⟩, ?_⟩
    split
    · rw [AgentStep.id_of_still (hf s).1, hid]
    · exact hid
  · intro s' hs'
    obtain ⟨s, hs, hsame, hcases⟩ := old s' hs'
    have hcount : r'.successes s'.id = r.successes s.id := by
      rw [RunRecord.successes, hinvocations, List.countP_append, List.countP_singleton,
        AgentStep.id_of_still hsame, h.status]
      simp [RunRecord.successes]
    rw [hcount]
    rcases hcases with ⟨hid, hrunning⟩ | ⟨-, rfl⟩
    · obtain rfl := hr.step_eq hs h.member hid
      rw [hr.unsuccessful hs hundone, if_neg (by rw [hrunning]; decide)]
    · exact hr.succeeded s' hs
  · intro s' hs' t' ht' hlt hstatus
    obtain ⟨s, hs, hsame, hcases⟩ := old s' hs'
    obtain ⟨t, ht, hsame', hcases'⟩ := old t' ht'
    rw [AgentStep.ordinal_of_still hsame, AgentStep.ordinal_of_still hsame'] at hlt
    have hbefore : s.status = .succeeded := by
      rcases hcases' with ⟨hid, -⟩ | ⟨-, rfl⟩
      · obtain rfl := hr.step_eq ht h.member hid
        exact hdone s hs hlt
      · exact hr.order s hs t' ht hlt hstatus
    rcases hcases with ⟨hid, -⟩ | ⟨-, rfl⟩
    · obtain rfl := hr.step_eq hs h.member hid
      exact absurd hbefore hundone
    · exact hbefore
  · intro j hj k hk hactive hactive'
    rcases hmem j hj with hj | rfl <;> rcases hmem k hk with hk | rfl
    · exact hr.single j hj k hk hactive hactive'
    · rw [hidle j hj] at hactive
      cases hactive
    · rw [hidle k hk] at hactive'
      cases hactive'
    · rfl
  · intro hearly
    rw [hrun'] at hearly
    cases hearly
  · intro _
    refine ⟨?_, fun s' hs' => ?_⟩
    · have hunknown : r'.run.still.hasUnknownDefinition = r.run.still.hasUnknownDefinition := by
        rw [hstill]
      exact hunknown.trans hknown
    · obtain ⟨s, hs, -, ⟨-, hrunning⟩ | ⟨-, rfl⟩⟩ := old s' hs'
      · rw [hrunning]
        rfl
      · exact hlive s' hs
  · intro _ j hj hactive
    rcases hmem j hj with hj | rfl
    · rw [hidle j hj] at hactive
      cases hactive
    · refine ⟨f step, ?_, ?_, (hf step).2⟩
      · rw [hsteps]
        exact mem_updateStep.mpr ⟨step, h.member, if_pos rfl⟩
      · rw [AgentStep.id_of_still (hf step).1, h.stepId]
  · intro hcompleted
    rw [hrun'] at hcompleted
    cases hcompleted

/-- Counting the invocations of a step that succeeded once one more has. -/
theorem Orderly.successes_update (hr : Orderly r) {i : ToolInvocation}
    {g : ToolInvocation → ToolInvocation} (hi : i ∈ r.invocations)
    (hbefore : i.status ≠ .succeeded) (hstill : (g i).still = i.still)
    (hafter : (g i).status = .succeeded) (id : Uuid) :
    (r.updateInvocation i.id g).successes id =
      r.successes id + if i.stepId = id then 1 else 0 := by
  have hstep : (g i).stepId = i.stepId :=
    @congrArg _ _ ((g i).still) i.still ToolInvocation.stepId hstill
  -- only `i` counts in another way
  have count : ∀ l : List ToolInvocation, (l.map (·.id)).Nodup → (∀ j ∈ l, j.id = i.id → j = i) →
      (l.map fun j => if j.id = i.id then g j else j).countP
          (fun j => j.stepId == id && j.status == .succeeded) =
        l.countP (fun j => j.stepId == id && j.status == .succeeded) +
          if i ∈ l ∧ i.stepId = id then 1 else 0 := by
    intro l hnodup hunique
    induction l with
    | nil => simp
    | cons j rest ih =>
        rw [List.map_cons, List.nodup_cons] at hnodup
        have hrest := ih hnodup.2 fun k hk => hunique k (List.mem_cons_of_mem j hk)
        rw [List.map_cons, List.countP_cons, List.countP_cons, hrest]
        by_cases hid : j.id = i.id
        · obtain rfl := hunique j List.mem_cons_self hid
          have hgone : j ∉ rest := fun hj => hnodup.1 (List.mem_map_of_mem hj)
          rw [if_pos rfl, hstep, hafter]
          by_cases hown : j.stepId = id
          · simp [hgone, hown, hbefore]
          · simp [hown]
        · have hne : i ≠ j := fun hsame => hid (by rw [hsame])
          rw [if_neg hid]
          simp only [List.mem_cons, hne, false_or]
          omega
  have htotal := count r.invocations hr.invocationIds fun j hj hid => hr.invocation_eq hj hi hid
  rw [RunRecord.successes, RunRecord.updateInvocation]
  simp only [] at htotal ⊢
  rw [htotal, RunRecord.successes]
  simp only [hi, true_and]

theorem Orderly.succeed (hr : Orderly r) (hstill : r'.run.still = r.run.still)
    {i : ToolInvocation} {f : AgentStep → AgentStep} {g : ToolInvocation → ToolInvocation}
    (hrun : r.run.state = .running) (hrun' : r'.run.state = .running)
    (hi : i ∈ r.invocations) (hactive : i.status = .running)
    (hf : ∀ s, (f s).still = s.still ∧ (f s).status = .succeeded)
    (hkept : (g i).still = i.still) (hg : (g i).status = .succeeded)
    (hsteps : r'.steps = (r.updateStep i.stepId f).steps)
    (hinvocations : r'.invocations = (r.updateInvocation i.id g).invocations) : Orderly r' := by
  have hkeys := updateStep_keys (r := r) i.stepId fun s => (hf s).1
  obtain ⟨hknown, hlive⟩ := hr.live hrun
  have hbusy : i.status.isActive = true := by rw [hactive]; rfl
  obtain ⟨step, hstep, hown, hrunning⟩ := hr.busy hrun i hi hbusy
  have hid : (g i).id = i.id :=
    @congrArg _ _ ((g i).still) i.still ToolInvocation.id hkept
  have hstepId : (g i).stepId = i.stepId :=
    @congrArg _ _ ((g i).still) i.still ToolInvocation.stepId hkept
  have hattempt : (g i).attempt = i.attempt :=
    @congrArg _ _ ((g i).still) i.still ToolInvocation.attempt hkept
  have oldStep : ∀ s' ∈ r'.steps, ∃ s ∈ r.steps, s'.still = s.still ∧
      (s = step ∧ s'.status = .succeeded ∨ s ≠ step ∧ s' = s) := by
    intro s' hs'
    rw [hsteps] at hs'
    obtain ⟨s, hs, rfl⟩ := mem_updateStep.mp hs'
    refine ⟨s, hs, ?_⟩
    by_cases hsid : s.id = i.stepId
    · rw [if_pos hsid]
      exact ⟨(hf s).1, .inl ⟨hr.step_eq hs hstep (hsid.trans hown.symm), (hf s).2⟩⟩
    · rw [if_neg hsid]
      exact ⟨rfl, .inr ⟨fun hsame => hsid (hsame ▸ hown), rfl⟩⟩
  have oldInvocation : ∀ j' ∈ r'.invocations, ∃ j ∈ r.invocations, j'.id = j.id ∧
      j'.stepId = j.stepId ∧ j'.attempt = j.attempt ∧ (j'.status.isActive = true → j' = j) := by
    intro j' hj'
    rw [hinvocations] at hj'
    obtain ⟨j, hj, rfl⟩ := mem_updateInvocation.mp hj'
    refine ⟨j, hj, ?_⟩
    by_cases hsame : j.id = i.id
    · obtain rfl := hr.invocation_eq hj hi hsame
      rw [if_pos rfl]
      refine ⟨hid, hstepId, hattempt, fun hstays => ?_⟩
      rw [hg] at hstays
      cases hstays
    · rw [if_neg hsame]
      exact ⟨rfl, rfl, rfl, fun _ => rfl⟩
  have hids : r'.invocations.map (·.id) = r.invocations.map (·.id) := by
    rw [hinvocations, RunRecord.updateInvocation, List.map_map]
    refine List.map_congr_left fun j hj => ?_
    rw [Function.comp_apply]
    split
    · next hsame => rw [hr.invocation_eq hj hi hsame, hid]
    · rfl
  have hinjective : ∀ j ∈ r'.invocations, ∀ k ∈ r'.invocations, j.id = k.id → j = k := by
    intro j hj k hk hsame
    refine List.inj_on_of_nodup_map (f := (·.id)) ?_ hj hk hsame
    rw [hids]
    exact hr.invocationIds
  have hidle : ∀ j' ∈ r'.invocations, j'.status.isActive = false := by
    intro j' hj'
    by_contra hstays
    rw [Bool.not_eq_false] at hstays
    obtain ⟨j, hj, -, -, -, hsame⟩ := oldInvocation j' hj'
    obtain rfl := hsame hstays
    obtain rfl := hr.single j' hj i hi hstays hbusy
    rw [hinvocations] at hj'
    obtain ⟨k, hk, hkj⟩ := mem_updateInvocation.mp hj'
    by_cases hkid : k.id = j'.id
    · obtain rfl := hr.invocation_eq hk hi hkid
      rw [if_pos rfl] at hkj
      rw [← hkj, hg] at hstays
      cases hstays
    · rw [if_neg hkid] at hkj
      exact hkid (congrArg (·.id) hkj)
  have hdone : ∀ s ∈ r.steps, s.ordinal < step.ordinal → s.status = .succeeded :=
    fun s hs hlt => hr.order s hs step hstep hlt (.inl hrunning)
  refine ⟨?_, ?_, ?_, ?_, ?_, ?_, ?_, ?_, ?_, ?_, ?_, ?_, ?_, by rw [hrun']; decide⟩
  · rw [hsteps, hkeys.1]
    exact hr.stepIds
  · rw [hsteps, hkeys.2]
    exact hr.ordinals
  · rw [hids]
    exact hr.invocationIds
  · intro j' hj'
    obtain ⟨j, hj, -, -, hsame, -⟩ := oldInvocation j' hj'
    rw [hsame]
    exact hr.attempts j hj
  · intro j' hj' k' hk' hstep' hattempt'
    obtain ⟨j, hj, hjid, hjs, hja, -⟩ := oldInvocation j' hj'
    obtain ⟨k, hk, hkid, hks, hka, -⟩ := oldInvocation k' hk'
    rw [hjs, hks] at hstep'
    rw [hja, hka] at hattempt'
    refine hinjective j' hj' k' hk' ?_
    rw [hjid, hkid, hr.distinct j hj k hk hstep' hattempt']
  · intro j' hj'
    obtain ⟨j, hj, -, hjs, -, -⟩ := oldInvocation j' hj'
    obtain ⟨s, hs, hsid⟩ := hr.owned j hj
    rw [hsteps]
    refine ⟨_, mem_updateStep.mpr ⟨s, hs, rfl⟩, ?_⟩
    rw [hjs, ← hsid]
    split
    · exact AgentStep.id_of_still (hf s).1
    · rfl
  · intro s' hs'
    obtain ⟨s, hs, hsame, hcases⟩ := oldStep s' hs'
    have hcount : r'.successes s'.id = r.successes s.id + if i.stepId = s.id then 1 else 0 := by
      rw [AgentStep.id_of_still hsame, ← hr.successes_update hi (by rw [hactive]; decide) hkept hg,
        RunRecord.successes, hinvocations]
      rfl
    rw [hcount]
    rcases hcases with ⟨rfl, hstatus⟩ | ⟨hother, rfl⟩
    · rw [hr.unsuccessful hs (by rw [hrunning]; decide), if_pos hown.symm, if_pos hstatus]
    · have hne : i.stepId ≠ s'.id := fun h =>
        hother (hr.step_eq hs hstep (h.symm.trans hown.symm))
      rw [if_neg hne]
      exact hr.succeeded s' hs
  · intro s' hs' t' ht' hlt hstatus
    obtain ⟨s, hs, hsame, hcases⟩ := oldStep s' hs'
    obtain ⟨t, ht, hsame', hcases'⟩ := oldStep t' ht'
    rw [AgentStep.ordinal_of_still hsame, AgentStep.ordinal_of_still hsame'] at hlt
    have hbefore : s.status = .succeeded := by
      rcases hcases' with ⟨rfl, -⟩ | ⟨-, rfl⟩
      · exact hdone s hs hlt
      · exact hr.order s hs t' ht hlt hstatus
    rcases hcases with ⟨-, hstatus'⟩ | ⟨-, rfl⟩
    · exact hstatus'
    · exact hbefore
  · intro j hj k hk hstays
    rw [hidle j hj] at hstays
    cases hstays
  · intro hearly
    rw [hrun'] at hearly
    cases hearly
  · intro _
    refine ⟨?_, fun s' hs' => ?_⟩
    · have hunknown : r'.run.still.hasUnknownDefinition = r.run.still.hasUnknownDefinition := by
        rw [hstill]
      exact hunknown.trans hknown
    · obtain ⟨s, hs, -, ⟨-, hstatus⟩ | ⟨-, rfl⟩⟩ := oldStep s' hs'
      · rw [hstatus]
        rfl
      · exact hlive s' hs
  · intro _ j hj hstays
    rw [hidle j hj] at hstays
    cases hstays
  · intro hcompleted
    rw [hrun'] at hcompleted
    cases hcompleted

end Changes

/-! ## What a turn keeps -/

section Kept

variable {B : Build → Prop} {clean : Prop} {r r' : RunRecord}

theorem hasUnknownDefinition_of_still (hstill : r'.run.still = r.run.still) :
    r'.run.hasUnknownDefinition = r.run.hasUnknownDefinition := by
  have hunknown : r'.run.still.hasUnknownDefinition = r.run.still.hasUnknownDefinition := by
    rw [hstill]
  exact hunknown

theorem not_running_of_terminal (hover : r.run.state.isTerminal = true) :
    r.run.state ≠ .running ∧ r.run.state.isEarly = false := by
  revert hover
  cases r.run.state <;> decide

theorem Turn.mono {B' : Build → Prop} {clean' : Prop} (h : Turn B clean r r')
    (hB : ∀ build, B build → B' build) (hclean : clean' → clean) : Turn B' clean' r r' := by
  cases h with
  | kept hstate hsteps hinvocations => exact .kept hstate hsteps hinvocations
  | planned new hearly hearly' hsteps hpending hids hordinals hinvocations =>
      exact .planned new hearly hearly' hsteps hpending hids hordinals hinvocations
  | claimed hready hrun hknown hsteps hinvocations =>
      exact .claimed hready hrun hknown hsteps hinvocations
  | reserved build step i f hbuild hrun hrun' hreserves hf hsteps hinvocations =>
      exact .reserved build step i f (hB build hbuild) hrun hrun' hreserves hf hsteps
        hinvocations
  | succeeded i f g hrun hrun' hi hactive hf hkept hg hsteps hinvocations =>
      exact .succeeded i f g hrun hrun' hi hactive hf hkept hg hsteps hinvocations
  | eased hrun hrun' hcloses hlive => exact .eased hrun hrun' hcloses hlive
  | ended hover hcloses hcompleted hidle =>
      exact .ended hover hcloses hcompleted fun hc => hidle (hclean hc)

theorem Turn.orderly (h : Turn B clean r r') (hstill : r'.run.still = r.run.still)
    (hr : Orderly r) : Orderly r' := by
  have hunknown := hasUnknownDefinition_of_still hstill
  cases h with
  | kept hstate hsteps hinvocations =>
      refine (Closes.of_rows hsteps hinvocations).orderly hr ?_ ?_ ?_ ?_ (by rw [hstate]; exact hr.served)
      · rw [hstate, hsteps, hinvocations]
        exact hr.early
      · rw [hstate, hsteps, hunknown]
        exact hr.live
      · rw [hstate, hsteps, hinvocations]
        exact hr.busy
      · rw [hstate, RunRecord.allSucceeded, hsteps]
        exact hr.completed
  | planned new hearly hearly' hsteps hpending hids hordinals hinvocations =>
      obtain ⟨hnone, hwaiting⟩ := hr.early hearly
      have hnone' : r'.invocations = [] := hinvocations.trans hnone
      have hall : ∀ s ∈ r'.steps, s.status = .pending := by
        intro s hs
        rw [hsteps, List.mem_append] at hs
        exact hs.elim (hwaiting s) (hpending s)
      have hquiet : ∀ i ∈ r'.invocations, False := by
        intro i hi
        rw [hnone'] at hi
        cases hi
      refine ⟨hids, hordinals, by simp [hnone'], fun i hi => (hquiet i hi).elim,
        fun i hi => (hquiet i hi).elim, fun i hi => (hquiet i hi).elim, ?_, ?_,
        fun i hi => (hquiet i hi).elim, fun _ => ⟨hnone', hall⟩, ?_, ?_, ?_, ?_⟩
      · intro s hs
        rw [RunRecord.successes, hnone', hall s hs]
        rfl
      · intro s _ t ht _ hstatus
        rw [hall t ht] at hstatus
        rcases hstatus with hstatus | hstatus <;> cases hstatus
      · intro hrun
        rw [hrun] at hearly'
        cases hearly'
      · intro hrun
        rw [hrun] at hearly'
        cases hearly'
      · intro hdone
        rw [hdone] at hearly'
        cases hearly'
      · intro hwaits
        rw [hwaits] at hearly'
        cases hearly'
  | claimed hready hrun hknown hsteps hinvocations =>
      obtain ⟨hnone, hwaiting⟩ := hr.early (by rw [hready]; rfl)
      refine (Closes.of_rows hsteps hinvocations).orderly hr ?_ ?_ ?_ ?_ (by rw [hrun]; nofun)
      · intro hearly
        rw [hrun] at hearly
        cases hearly
      · intro _
        refine ⟨hunknown.trans hknown, fun s hs => ?_⟩
        rw [hwaiting s (hsteps ▸ hs)]
        rfl
      · intro _ i hi
        rw [hinvocations, hnone] at hi
        cases hi
      · intro hdone
        rw [hrun] at hdone
        cases hdone
  | reserved build step i f _ hrun hrun' hreserves hf hsteps hinvocations =>
      exact hr.reserve hstill hrun hrun' hreserves hf hsteps hinvocations
  | succeeded i f g hrun hrun' hi hactive hf hkept hg hsteps hinvocations =>
      exact hr.succeed hstill hrun hrun' hi hactive hf hkept hg hsteps hinvocations
  | eased hrun hrun' hcloses hlive =>
      refine hcloses.orderly hr ?_ (fun _ => ⟨hunknown.trans (hr.live hrun).1, hlive⟩) ?_ ?_
        (by rw [hrun']; nofun)
      · intro hearly
        rw [hrun'] at hearly
        cases hearly
      · intro _ i' hi' hactive
        obtain ⟨i, hi, hends⟩ := hcloses.invocation_of hi'
        obtain ⟨s, hs, hid, hrunning⟩ := hr.busy hrun i hi (hends.active hactive)
        obtain ⟨s', hs', hclosed⟩ := hcloses.step_to hs
        refine ⟨s', hs', by rw [hclosed.id_eq, hends.stepId_eq, hid], ?_⟩
        rcases hclosed.status with hsame | ⟨-, hover⟩
        · rw [hsame, hrunning]
        · rw [hlive s' hs'] at hover
          cases hover
      · intro hdone
        rw [hrun'] at hdone
        cases hdone
  | ended hover hcloses hcompleted =>
      obtain ⟨hrun, hearly⟩ := not_running_of_terminal hover
      refine hcloses.orderly hr (fun h => absurd h (by rw [hearly]; decide))
        (fun h => absurd h hrun) (fun h => absurd h hrun) hcompleted ?_
      intro hwaits
      rw [hwaits] at hover
      cases hover

/-- An invocation that is there stays. -/
theorem Turn.invocation_to (h : Turn B clean r r') (hr : Orderly r) {i : ToolInvocation}
    (hi : i ∈ r.invocations) : ∃ i' ∈ r'.invocations, i'.still = i.still := by
  cases h with
  | kept _ _ hinvocations | planned _ _ _ _ _ _ _ hinvocations
  | claimed _ _ _ _ hinvocations => exact ⟨i, hinvocations ▸ hi, rfl⟩
  | reserved _ _ _ _ _ _ _ _ _ _ hinvocations =>
      exact ⟨i, hinvocations ▸ List.mem_append_left _ hi, rfl⟩
  | succeeded j f g _ _ hj _ _ hkept _ _ hinvocations =>
      refine ⟨_, hinvocations ▸ mem_updateInvocation.mpr ⟨i, hi, rfl⟩, ?_⟩
      split
      · next hid => rw [hr.invocation_eq hi hj hid, hkept]
      · rfl
  | eased _ _ hcloses | ended _ hcloses =>
      obtain ⟨g, hg, hends⟩ := hcloses.invocations
      exact ⟨g i, hg ▸ List.mem_map_of_mem hi, (hends i hi).still⟩

/-- Where the condition of a turn holds, a run that is over is idle. -/
theorem Turn.idle (h : Turn B clean r r') (hclean : clean)
    (hr : r.run.state.isTerminal = true → Idle r) (hover : r'.run.state.isTerminal = true) :
    Idle r' := by
  cases h with
  | kept hstate hsteps hinvocations =>
      exact (Closes.of_rows hsteps hinvocations).idle (hr (hstate ▸ hover))
  | planned _ _ hearly =>
      rw [(not_running_of_terminal hover).2] at hearly
      cases hearly
  | claimed _ hrun | reserved _ _ _ _ _ _ hrun | succeeded _ _ _ _ hrun | eased _ hrun =>
      rw [hrun] at hover
      cases hover
  | ended _ hcloses _ hidle =>
      cases hbefore : r.run.state.isTerminal with
      | true => exact hcloses.idle (hr hbefore)
      | false => exact hidle hclean hbefore

end Kept

end SecondBrain
