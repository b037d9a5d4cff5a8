import SecondBrain.AgentRuns.Admission
import SecondBrain.AgentRuns.Recovery
import SecondBrain.Lib.Schema

/-!
# What the scan reports and what recovery does

`classifyRun` and `prepareOne` decide by cases over the same rows, in two
separate places. `Fulfils` says which action the code of a finding announces,
and the two agree on the configurations of `ScanAgrees` and on no others. Where
they differ, the scan misses what recovery looks at: a second active
invocation, a running step that no invocation was reserved for, a step beyond
the thirteenth, an agent whose runs only the scheduler may execute.
-/

namespace SecondBrain

open Lib Lib.Json

/-- What recovery answered about one record. -/
abbrev Recovered := Except Fault (Option ExecutionClaim × RunRecord)

namespace RunRecord

/-- The numbers of a stored run fit their columns. -/
structure Stored (r : RunRecord) : Prop where
  revision : r.run.revision ≤ maxInteger
  attempt : ∀ i ∈ r.invocations, i.attempt ≤ maxInteger

/-- The steps the scan reads. -/
def scannedSteps (r : RunRecord) : List AgentStep := r.listAgentSteps.take 13

def HasOpenStep (r : RunRecord) : Prop := ∃ s ∈ r.steps, s.status.isOpen = true

def Finished (r : RunRecord) : Prop := r.steps ≠ [] ∧ ∀ s ∈ r.steps, s.status = .succeeded

/-- A step is running and no invocation was ever reserved for it. -/
def Orphaned (r : RunRecord) : Prop :=
  ∃ s ∈ r.steps, s.status = .running ∧ ∀ i ∈ r.invocations, i.stepId ≠ s.id

end RunRecord

/-! ## The actions -/

def Leaves (r : RunRecord) (o : Recovered) : Prop := o = .ok (none, r)

/-- Execution goes on, from the rows as they are. -/
def Resumes (r : RunRecord) (o : Recovered) : Prop := o = .ok (some (executionClaimOf r.run), r)

/-- The run is over, for the reason `code`. -/
def ClosesWith (state : AgentRunState) (code : String) (o : Recovered) : Prop :=
  ∃ r', o = .ok (none, r') ∧ r'.run.state = state ∧ r'.run.safeErrorCode = some code

/-- An active invocation is given up as a pure read, and the next event says so. -/
def Discards (r : RunRecord) (o : Recovered) : Prop :=
  ∃ claim r' e i, o = .ok (claim, r') ∧ r'.events[r.events.length]? = some e ∧
    e.safeCode = "stale_pure_read_discarded" ∧ e.invocationId = some i.id ∧
    i ∈ r.activeInvocations ∧ ∃ j ∈ r'.invocations, j.id = i.id ∧ j.status = .discarded

/-- The outcome is the action that the code of the finding announces. -/
def Fulfils (r : RunRecord) (code : Option String) (o : Recovered) : Prop :=
  match code with
  | none => Leaves r o
  | some "deadline_expired" => ClosesWith .expired "deadline_expired" o
  | some "stale_pure_read" => Discards r o
  | some "completion_pending" => Resumes r o ∧ r.Finished
  | some "durable_work_remaining" => Resumes r o ∧ r.HasOpenStep
  | some code => ClosesWith .failed code o

/-! ## Where they agree -/

/-- No invocation is active: what the first thirteen steps show is so of all, and
an orphaned step does not hide behind them. -/
structure RunRecord.IdleAgrees (r : RunRecord) : Prop where
  orphaned : r.Orphaned → (∀ s ∈ r.scannedSteps, s.status.isOpen = false) ∧
    ∃ s ∈ r.scannedSteps, s.status ≠ .succeeded
  remaining : r.HasOpenStep → ¬ r.Orphaned → ∃ s ∈ r.scannedSteps, s.status.isOpen = true
  finished : ¬ r.HasOpenStep → (∀ s ∈ r.scannedSteps, s.status = .succeeded) →
    ∀ s ∈ r.steps, s.status = .succeeded

/-- One invocation is active: if it is a stale pure read, its step is among the first thirteen. -/
def RunRecord.ActiveAgrees (build : Build) (r : RunRecord) (now : Instant)
    (i : ToolInvocation) : Prop :=
  staleAt build i ≤ now →
    exactPureReadDefinition build r.run (r.listAgentSteps.find? (·.id == i.stepId)) i = true →
    ∃ s ∈ r.scannedSteps, s.id = i.stepId

structure ScanAgrees (build : Build) (r : RunRecord) (now : Instant) : Prop where
  manual : isReservedAutomationAgentIdentity r.run.agentKind r.run.agentVersion = false
  running : r.run.state = .running → now < r.run.runDeadline →
    match r.activeInvocations with
    | [] => r.IdleAgrees
    | [i] => r.ActiveAgrees build now i
    | _ :: _ :: _ => False

/-! ## The rows as both sides read them -/

namespace RunRecord

variable {r : RunRecord}

theorem scannedSteps_subset {s : AgentStep} (hs : s ∈ r.scannedSteps) : s ∈ r.steps :=
  mem_listAgentSteps.mp (List.mem_of_mem_take hs)

theorem listAgentSteps_isEmpty : r.listAgentSteps.isEmpty = true ↔ r.steps = [] := by
  rw [List.isEmpty_iff, List.eq_nil_iff_forall_not_mem, List.eq_nil_iff_forall_not_mem]
  simp only [mem_listAgentSteps]

theorem scannedSteps_isEmpty : r.scannedSteps.isEmpty = true ↔ r.steps = [] := by
  rw [← listAgentSteps_isEmpty, scannedSteps, List.isEmpty_iff, List.isEmpty_iff,
    List.take_eq_nil_iff]
  simp

theorem listAgentSteps_any_isOpen :
    r.listAgentSteps.any (·.status.isOpen) = true ↔ r.HasOpenStep := by
  simp only [List.any_eq_true, mem_listAgentSteps, HasOpenStep]

theorem listAgentSteps_closed : (r.listAgentSteps.isEmpty = true ∨
    r.listAgentSteps.any (·.status.isOpen) = false) ↔ ¬ r.HasOpenStep := by
  rw [← listAgentSteps_any_isOpen, Bool.not_eq_true]
  constructor
  · rintro (hempty | hclosed)
    · rw [List.isEmpty_iff.mp hempty, List.any_nil]
    · exact hclosed
  · exact .inr

theorem listAgentSteps_finished : (r.listAgentSteps.isEmpty = false ∧
    r.listAgentSteps.all (·.status == .succeeded) = true) ↔ r.Finished := by
  rw [← Bool.not_eq_true, listAgentSteps_isEmpty, List.all_eq_true, Finished]
  simp only [mem_listAgentSteps, beq_iff_eq, ne_eq]

/-- The join with the steps leaves the invocations of a step of the run. -/
theorem listAgentSteps_any_orphaned :
    (r.listAgentSteps.any fun s => s.status == .running &&
      !r.listStepInvocations.any (·.stepId == s.id)) = true ↔ r.Orphaned := by
  simp only [List.any_eq_true, mem_listAgentSteps, Bool.and_eq_true, beq_iff_eq,
    Bool.not_eq_true', List.any_eq_false, Orphaned]
  constructor
  · rintro ⟨s, hs, hrunning, hnone⟩
    refine ⟨s, hs, hrunning, fun i hi hstep => ?_⟩
    refine hnone i (mem_listStepInvocations.mpr ⟨hi, ?_⟩) hstep
    rw [ordinalOf, getStep, Option.isSome_map, List.find?_isSome]
    exact ⟨s, hs, by simp [hstep]⟩
  · rintro ⟨s, hs, hrunning, hnone⟩
    exact ⟨s, hs, hrunning, fun i hi => hnone i (mem_listStepInvocations.mp hi).1⟩

theorem Orphaned.hasOpenStep (h : r.Orphaned) : r.HasOpenStep := by
  obtain ⟨s, hs, hrunning, -⟩ := h
  exact ⟨s, hs, by rw [hrunning]; rfl⟩

/-- An active invocation is one of a step of the run. -/
theorem mem_activeInvocations {i : ToolInvocation} (hi : i ∈ r.activeInvocations) :
    i ∈ r.invocations ∧ ∃ s, r.listAgentSteps.find? (·.id == i.stepId) = some s := by
  obtain ⟨hinvocation, hstep⟩ := mem_listStepInvocations.mp (List.mem_of_mem_filter hi)
  rw [ordinalOf, getStep, Option.isSome_map, List.find?_isSome] at hstep
  obtain ⟨s, hs, hid⟩ := hstep
  refine ⟨hinvocation, Option.isSome_iff_exists.mp ?_⟩
  rw [List.find?_isSome]
  exact ⟨s, mem_listAgentSteps.mpr hs, hid⟩

end RunRecord

/-! ## What recovery does -/

section Actions

variable {build : Build} {r : RunRecord} {now : Instant} {o : Recovered}

theorem ClosesWith.not_leaves {state : AgentRunState} {code : String} (h : ClosesWith state code o)
    (hstate : r.run.state ≠ state) : ¬ Leaves r o := by
  obtain ⟨r', rfl, hclosed, -⟩ := h
  intro hleaves
  injection hleaves with hpair
  injection hpair with _ hrows
  exact hstate (hrows ▸ hclosed)

theorem ClosesWith.not_resumes {state : AgentRunState} {code : String}
    (h : ClosesWith state code o) :
    ¬ Resumes r o := by
  obtain ⟨r', rfl, -⟩ := h
  nofun

theorem ClosesWith.code_eq {state state' : AgentRunState} {code code' : String}
    (h : ClosesWith state code o) (h' : ClosesWith state' code' o) : code = code' := by
  obtain ⟨r', rfl, -, hcode⟩ := h
  obtain ⟨r'', heq, -, hcode'⟩ := h'
  injection heq with hpair
  injection hpair with _ hrows
  rw [hrows, hcode'] at hcode
  exact (Option.some.inj hcode).symm

theorem not_fulfils_error {code : Option String} {e : Fault} :
    ¬ Fulfils r code (.error e) := by
  unfold Fulfils
  split
  · nofun
  · rintro ⟨r', h, -⟩
    cases h
  · rintro ⟨claim, r', e, i, h, -⟩
    cases h
  · nofun
  · nofun
  · rintro ⟨r', h, -⟩
    cases h

variable (now) in
theorem closes_of_transition (newState : AgentRunState) (code : String)
    (hrev : r.run.revision ≤ maxInteger) (hlegal : newState ∈ legalTransitions r.run.state)
    (hdeadline : newState = .expired → r.run.expiryDeadline ≤ now) :
    ClosesWith newState code (do
      let r' ← transitionRun r r.run.state r.run.revision newState now (some code)
      return (none, r')) := by
  rw [transitionRun_eq_ok now (some code) hrev hlegal hdeadline]
  exact ⟨_, rfl, rfl, rfl⟩

theorem failed_legal (hrunning : r.run.state = .running) :
    AgentRunState.failed ∈ legalTransitions r.run.state := by
  rw [hrunning]
  decide

variable (now) in
theorem failInvalid_closes (h : r.Stored) (hrunning : r.run.state = .running) :
    ClosesWith .failed "recovery_state_invalid" (do
      let r' ← failInvalid r now
      return (none, r')) := by
  have := closes_of_transition now .failed "recovery_state_invalid" h.revision
    (failed_legal hrunning) nofun
  rwa [hrunning] at this

theorem failActiveStep_closes (h : r.Stored) (hrunning : r.run.state = .running)
    (s : AgentStep) (code : String) :
    ClosesWith .failed code (do
      let r' ← failActiveStep r s code now
      return (none, r')) := by
  have := closes_of_transition now .failed code
    (r := r.updateStep s.id fun s => { s with status := .failed, finishedAt := some now })
    h.revision (failed_legal hrunning) nofun
  rwa [RunRecord.updateStep_run, hrunning] at this

theorem expireExecution_closes (h : r.Stored) (hrunning : r.run.state = .running)
    (hover : r.run.runDeadline ≤ now) :
    ClosesWith .expired "deadline_expired" (do
      let r' ← expireExecution r now
      return (none, r')) := by
  have hdeadline : r.run.expiryDeadline ≤ now := by
    rw [AgentRun.expiryDeadline, hrunning, if_neg (by decide)]
    exact hover
  have hlegal : AgentRunState.expired ∈ legalTransitions r.run.state := by
    rw [hrunning]
    decide
  have := closes_of_transition now .expired "deadline_expired"
    (r := { r.discardActive "deadline_expired" now with
      steps := (r.discardActive "deadline_expired" now).steps.map (·.cancelOpen now) })
    h.revision hlegal fun _ => hdeadline
  rwa [show (r.discardActive "deadline_expired" now).run = r.run from rfl, hrunning] at this

theorem recoverIdle_resumes
    (h : r.HasOpenStep ∧ ¬ r.Orphaned ∨ ¬ r.HasOpenStep ∧ r.Finished) :
    Resumes r (recoverIdle r now) := by
  rw [recoverIdle]
  rcases h with ⟨hopen, horphan⟩ | ⟨hclosed, hfinished⟩
  · rw [if_neg (RunRecord.listAgentSteps_closed.not_left.mpr hopen),
      if_neg (RunRecord.listAgentSteps_any_orphaned.not.mpr horphan)]
    rfl
  · rw [if_pos (RunRecord.listAgentSteps_closed.mpr hclosed),
      if_pos (RunRecord.listAgentSteps_finished.mpr hfinished)]
    rfl

theorem recoverIdle_closes (hstored : r.Stored) (hrunning : r.run.state = .running)
    (h : r.Orphaned ∨ ¬ r.HasOpenStep ∧ ¬ r.Finished) :
    ClosesWith .failed "recovery_state_invalid" (recoverIdle r now) := by
  rw [recoverIdle]
  rcases h with horphan | ⟨hclosed, hunfinished⟩
  · rw [if_neg (RunRecord.listAgentSteps_closed.not_left.mpr horphan.hasOpenStep),
      if_pos (RunRecord.listAgentSteps_any_orphaned.mpr horphan)]
    split
    · next hfind =>
        obtain ⟨s, hs, hstep, -⟩ := horphan
        have := List.find?_eq_none.mp hfind s (RunRecord.mem_listAgentSteps.mpr hs)
        simp [hstep] at this
    · next s _ => exact failActiveStep_closes hstored hrunning s _
  · rw [if_pos (RunRecord.listAgentSteps_closed.mpr hclosed),
      if_neg (RunRecord.listAgentSteps_finished.not.mpr hunfinished)]
    exact failInvalid_closes now hstored hrunning

theorem storedLen_attempt_le {n : Nat} (hn : n ≤ maxInteger) :
    (Json.obj [("attempt", .int n)]).storedLen ≤ maxEventMetadata := by
  have hobject := Schema.storedLen_obj_le [("attempt", Json.int n)]
  have hint : (Json.int n).storedLen ≤ 40 := octets_revision_le (Nat.le_succ_of_le hn)
  have hkey : (Json.str "attempt").storedLen = 9 := by decide
  have hlimit : maxEventMetadata = 4096 := rfl
  simp only [List.map_cons, List.map_nil, List.sum_cons, List.sum_nil] at hobject
  omega

variable (now) in
/-- The event of a discarded invocation is admitted: its rows are there. -/
theorem discardStale_ok (h : r.Stored) {i : ToolInvocation} (hi : i ∈ r.activeInvocations) :
    ∃ r' e, discardStale r i now = .ok r' ∧ r'.run = r.run ∧ r'.events = r.events ++ [e] ∧
      e.safeCode = "stale_pure_read_discarded" ∧ e.invocationId = some i.id ∧
      ∃ j ∈ r'.invocations, j.id = i.id ∧ j.status = .discarded := by
  obtain ⟨hinvocation, s, hs⟩ := RunRecord.mem_activeInvocations hi
  have hrow : ∀ f : ToolInvocation → ToolInvocation,
      f i ∈ (r.updateInvocation i.id f).invocations :=
    fun f => List.mem_map.mpr ⟨i, hinvocation, if_pos rfl⟩
  have hname : "attempt".toList.contains nul = false := by decide
  have hlength : "stale_pure_read_discarded".length ≤ 100 := by decide
  rw [discardStale, appendAgentEvent, admitsEvent_ok]
  · exact ⟨_, _, rfl, rfl, rfl, rfl, rfl, _, hrow _, rfl, rfl⟩
  · simp only [storable, storableFields, hname, Bool.not_false, Bool.and_self]
  · exact hlength
  · exact storedLen_attempt_le (h.attempt i hinvocation)
  · intro id hid
    cases hid
    have hsame := List.find?_some hs
    exact ⟨s, RunRecord.mem_listAgentSteps.mp (List.mem_of_find?_eq_some hs),
      beq_iff_eq.mp hsame⟩
  · intro id hid
    cases hid
    exact ⟨_, hrow _, rfl⟩
  · rfl
  · rfl

variable {i : ToolInvocation} {s : AgentStep}

theorem recoverActive_leaves (hfresh : now < staleAt build i) :
    Leaves r (recoverActive build r i now) := by
  rw [recoverActive, if_pos hfresh]
  rfl

theorem recoverActive_closes (h : r.Stored) (hrunning : r.run.state = .running)
    (hs : r.listAgentSteps.find? (·.id == i.stepId) = some s) (hstale : staleAt build i ≤ now)
    (hread : exactPureReadDefinition build r.run (some s) i = false) :
    ClosesWith .failed "ambiguous_recovery_denied" (recoverActive build r i now) := by
  rw [recoverActive, if_neg (not_lt.mpr hstale), hs, hread]
  exact failActiveStep_closes h hrunning s _

/-- A stale pure read is discarded, whether its budget allows another attempt or not. -/
theorem recoverActive_discards (h : r.Stored) (hrunning : r.run.state = .running)
    (hi : i ∈ r.activeInvocations)
    (hs : r.listAgentSteps.find? (·.id == i.stepId) = some s) (hstale : staleAt build i ≤ now)
    (hread : exactPureReadDefinition build r.run (some s) i = true) :
    Discards r (recoverActive build r i now) ∧
      ¬ ClosesWith .failed "ambiguous_recovery_denied" (recoverActive build r i now) := by
  obtain ⟨r', e, hok, hrun, hevents, hcode, hid, hgone⟩ := discardStale_ok now h hi
  have hevent : r'.events[r.events.length]? = some e := by
    rw [hevents, List.getElem?_concat_length]
  have hanswer : recoverActive build r i now =
      if r.run.retryBudget ≤ i.attempt then do
        let r'' ← failActiveStep r' s "retry_exhausted" now
        return (none, r'')
      else .ok (some (executionClaimOf r.run), r') := by
    rw [recoverActive, if_neg (not_lt.mpr hstale), hs, hread, if_pos rfl, hok]
    rfl
  rw [hanswer]
  split
  · have hmoved := @transitionRun_eq_ok
      (r'.updateStep s.id fun s => { s with status := .failed, finishedAt := some now })
      .failed now (some "retry_exhausted")
      (by rw [RunRecord.updateStep_run, hrun]; exact h.revision)
      (by rw [RunRecord.updateStep_run, hrun]; exact failed_legal hrunning) nofun
    rw [RunRecord.updateStep_run, hrun, hrunning, ← hrun] at hmoved
    rw [failActiveStep, hmoved]
    constructor
    · refine ⟨none, _, e, i, rfl, ?_, hcode, hid, hi, hgone⟩
      exact (List.getElem?_append_left (List.getElem?_eq_some_iff.mp hevent).1).trans hevent
    · rintro ⟨r'', hsame, -, hcodes⟩
      cases hsame
      simp [AgentRun.move] at hcodes
  · refine ⟨⟨_, r', e, i, rfl, hevent, hcode, hid, hi, hgone⟩, ?_⟩
    rintro ⟨r'', hsame, -⟩
    cases hsame

end Actions

/-! ## The scan against recovery -/

section Scan

variable {build : Build} {r : RunRecord} {now : Instant}

/-- The code the scan reports. -/
def scanCode (build : Build) (r : RunRecord) (now : Instant) : Option String :=
  (classifyRun build r now).map (·.code)

theorem scanCode_idle (hrunning : r.run.state = .running) (hdeadline : now < r.run.runDeadline)
    (hidle : r.activeInvocations = []) :
    scanCode build r now = some
      (if !r.scannedSteps.isEmpty && r.scannedSteps.all (·.status == .succeeded) then
        "completion_pending"
      else if r.scannedSteps.any (·.status.isOpen) then "durable_work_remaining"
      else "recovery_state_invalid") := by
  simp [scanCode, classifyRun, hrunning, not_le.mpr hdeadline, hidle, RunRecord.scannedSteps]

theorem scanCode_active (hrunning : r.run.state = .running)
    (hdeadline : now < r.run.runDeadline) {i : ToolInvocation} {rest : List ToolInvocation}
    (hactive : r.activeInvocations = i :: rest) :
    scanCode build r now = if staleAt build i ≤ now then
        some (if exactPureReadDefinition build r.run
            (r.scannedSteps.find? (·.id == i.stepId)) i then "stale_pure_read"
          else "ambiguous_recovery_denied")
      else none := by
  simp only [scanCode, classifyRun, hrunning, hactive]
  by_cases hstale : staleAt build i ≤ now
  · simp [not_le.mpr hdeadline, hstale, RunRecord.scannedSteps]
    rfl
  · simp [not_le.mpr hdeadline, hstale]

theorem prepareOne_running
    (hmanual : isReservedAutomationAgentIdentity r.run.agentKind r.run.agentVersion = false)
    (hrunning : r.run.state = .running) (hdeadline : now < r.run.runDeadline) :
    prepareOne build r now = match r.activeInvocations with
      | [] => recoverIdle r now
      | [i] => recoverActive build r i now
      | _ :: _ :: _ => do
          let r' ← failInvalid r now
          return (none, r') := by
  split
  all_goals
    next hactive =>
      simp [prepareOne, hmanual, hrunning, AgentRunState.isTerminal, not_le.mpr hdeadline, hactive]

/-- The scan saw succeeded steps only. -/
theorem idle_done_iff (hne : r.steps ≠ [])
    (hall : ∀ s ∈ r.scannedSteps, s.status = .succeeded) :
    Resumes r (recoverIdle r now) ∧ r.Finished ↔ r.IdleAgrees := by
  constructor
  · rintro ⟨-, -, hsucceeded⟩
    have hclosed : ¬ r.HasOpenStep := by
      rintro ⟨s, hs, hopen⟩
      rw [hsucceeded s hs] at hopen
      cases hopen
    exact ⟨fun horphan => absurd horphan.hasOpenStep hclosed,
      fun hopen => absurd hopen hclosed, fun _ _ => hsucceeded⟩
  · intro hagrees
    have horphan : ¬ r.Orphaned := by
      intro horphan
      obtain ⟨-, s, hs, hstep⟩ := hagrees.orphaned horphan
      exact hstep (hall s hs)
    have hclosed : ¬ r.HasOpenStep := by
      intro hopen
      obtain ⟨s, hs, hstep⟩ := hagrees.remaining hopen horphan
      rw [hall s hs] at hstep
      cases hstep
    have hfinished : r.Finished := ⟨hne, hagrees.finished hclosed hall⟩
    exact ⟨recoverIdle_resumes (.inr ⟨hclosed, hfinished⟩), hfinished⟩

/-- The scan saw an open step. -/
theorem idle_remaining_iff (h : r.Stored) (hrunning : r.run.state = .running) {s : AgentStep}
    (hs : s ∈ r.scannedSteps) (hstep : s.status.isOpen = true) :
    Resumes r (recoverIdle r now) ∧ r.HasOpenStep ↔ r.IdleAgrees := by
  have hopen : r.HasOpenStep := ⟨s, RunRecord.scannedSteps_subset hs, hstep⟩
  constructor
  · rintro ⟨hresumes, -⟩
    have horphan : ¬ r.Orphaned := fun horphan =>
      (recoverIdle_closes h hrunning (.inl horphan)).not_resumes hresumes
    exact ⟨fun h => absurd h horphan, fun _ _ => ⟨s, hs, hstep⟩, fun h => absurd hopen h⟩
  · intro hagrees
    have horphan : ¬ r.Orphaned := by
      intro horphan
      rw [(hagrees.orphaned horphan).1 s hs] at hstep
      cases hstep
    exact ⟨recoverIdle_resumes (.inl ⟨hopen, horphan⟩), hopen⟩

/-- The scan saw no open step, and one that did not succeed where it saw any. -/
theorem idle_invalid_iff (h : r.Stored) (hrunning : r.run.state = .running)
    (hclosed : ∀ s ∈ r.scannedSteps, s.status.isOpen = false)
    (hseen : r.steps ≠ [] → ∃ s ∈ r.scannedSteps, s.status ≠ .succeeded) :
    ClosesWith .failed "recovery_state_invalid" (recoverIdle r now) ↔ r.IdleAgrees := by
  constructor
  · intro hcloses
    have hwork : r.HasOpenStep → r.Orphaned := by
      intro hopen
      by_contra horphan
      exact hcloses.not_resumes (recoverIdle_resumes (.inl ⟨hopen, horphan⟩))
    constructor
    · intro horphan
      obtain ⟨s, hs, -⟩ := horphan
      exact ⟨hclosed, hseen (List.ne_nil_of_mem hs)⟩
    · intro hopen horphan
      exact absurd (hwork hopen) horphan
    · intro _ hall s hs
      obtain ⟨s', hs', hstep⟩ := hseen (List.ne_nil_of_mem hs)
      exact absurd (hall s' hs') hstep
  · intro hagrees
    refine recoverIdle_closes h hrunning ?_
    by_cases horphan : r.Orphaned
    · exact .inl horphan
    · refine .inr ⟨fun hopen => ?_, fun hfinished => ?_⟩
      · obtain ⟨s, hs, hstep⟩ := hagrees.remaining hopen horphan
        rw [hclosed s hs] at hstep
        cases hstep
      · obtain ⟨s, hs, hstep⟩ := hseen hfinished.1
        exact hstep (hfinished.2 s (RunRecord.scannedSteps_subset hs))

/-- Nothing is active. The cases are those of the scan; in each, what it saw of the steps
decides which branch recovery takes. -/
theorem idle_fulfils_iff (h : r.Stored) (hrunning : r.run.state = .running)
    (hdeadline : now < r.run.runDeadline) (hidle : r.activeInvocations = []) :
    Fulfils r (scanCode build r now) (recoverIdle r now) ↔ r.IdleAgrees := by
  have hcompletion : (!r.scannedSteps.isEmpty &&
      r.scannedSteps.all (·.status == .succeeded)) = true ↔
      r.steps ≠ [] ∧ ∀ s ∈ r.scannedSteps, s.status = .succeeded := by
    rw [Bool.and_eq_true, Bool.not_eq_true', ← Bool.not_eq_true,
      RunRecord.scannedSteps_isEmpty, List.all_eq_true]
    simp only [beq_iff_eq, ne_eq]
  rw [scanCode_idle hrunning hdeadline hidle]
  by_cases hdone : (!r.scannedSteps.isEmpty &&
      r.scannedSteps.all (·.status == .succeeded)) = true
  · rw [if_pos hdone]
    obtain ⟨hne, hall⟩ := hcompletion.mp hdone
    exact idle_done_iff hne hall
  · rw [if_neg hdone]
    by_cases hwork : r.scannedSteps.any (·.status.isOpen) = true
    · rw [if_pos hwork]
      obtain ⟨s, hs, hstep⟩ := List.any_eq_true.mp hwork
      exact idle_remaining_iff h hrunning hs hstep
    · rw [if_neg hwork]
      rw [Bool.not_eq_true, List.any_eq_false] at hwork
      refine idle_invalid_iff h hrunning (fun s hs => ?_) fun hne => ?_
      · exact Bool.not_eq_true _ ▸ hwork s hs
      · by_contra hall
        push Not at hall
        exact hdone (hcompletion.mpr ⟨hne, hall⟩)

/-- One invocation is active. The scan and recovery read the same step unless it is beyond
the thirteenth, where the scan denies what recovery may discard. -/
theorem active_fulfils_iff (h : r.Stored) (hrunning : r.run.state = .running)
    (hdeadline : now < r.run.runDeadline) {i : ToolInvocation}
    (hactive : r.activeInvocations = [i]) :
    Fulfils r (scanCode build r now) (recoverActive build r i now) ↔
      r.ActiveAgrees build now i := by
  have hi : i ∈ r.activeInvocations := hactive ▸ List.mem_singleton_self i
  obtain ⟨-, s, hs⟩ := RunRecord.mem_activeInvocations hi
  rw [scanCode_active hrunning hdeadline hactive]
  by_cases hstale : staleAt build i ≤ now
  · rw [if_pos hstale]
    have hdenied : exactPureReadDefinition build r.run none i = false := rfl
    cases hread : exactPureReadDefinition build r.run (some s) i with
    | false =>
        have hcloses := recoverActive_closes h hrunning hs hstale hread
        have hscan : exactPureReadDefinition build r.run
            (r.scannedSteps.find? (·.id == i.stepId)) i = false := by
          cases hfind : r.scannedSteps.find? (·.id == i.stepId) with
          | none => exact hdenied
          | some s' =>
              rw [(List.take_prefix 13 _).find?_eq_some hfind] at hs
              exact Option.some.inj hs ▸ hread
        rw [hscan]
        refine iff_of_true hcloses fun _ hexact => ?_
        rw [hs, hread] at hexact
        cases hexact
    | true =>
        have hdiscards := recoverActive_discards h hrunning hi hs hstale hread
        cases hfind : r.scannedSteps.find? (·.id == i.stepId) with
        | none =>
            rw [hdenied]
            refine iff_of_false hdiscards.2 fun hagrees => ?_
            obtain ⟨s', hs', hid⟩ := hagrees hstale (hs ▸ hread)
            exact List.find?_eq_none.mp hfind s' hs' (beq_iff_eq.mpr hid)
        | some s' =>
            rw [(List.take_prefix 13 _).find?_eq_some hfind] at hs
            rw [Option.some.inj hs, hread]
            have hid := List.find?_some hfind
            exact iff_of_true hdiscards.1 fun _ _ =>
              ⟨s', List.mem_of_find?_eq_some hfind, beq_iff_eq.mp hid⟩
  · rw [if_neg hstale]
    exact iff_of_true (recoverActive_leaves (not_le.mp hstale)) fun h => absurd h hstale

/-- Several are active: recovery fails the run whatever the scan says of the first. -/
theorem several_not_fulfils (h : r.Stored) (hrunning : r.run.state = .running)
    (hdeadline : now < r.run.runDeadline) {i j : ToolInvocation} {rest : List ToolInvocation}
    (hactive : r.activeInvocations = i :: j :: rest) :
    ¬ Fulfils r (scanCode build r now) (do
      let r' ← failInvalid r now
      return (none, r')) := by
  have hcloses := failInvalid_closes now h hrunning
  rw [scanCode_active hrunning hdeadline hactive]
  split
  · split
    · rintro ⟨claim, r', e, i', heq, hevent, hcode, -⟩
      have hmoved := @transitionRun_eq_ok r .failed now
        (some "recovery_state_invalid") h.revision (failed_legal hrunning) fun h => by cases h
      rw [hrunning] at hmoved
      rw [failInvalid, hmoved] at heq
      cases heq
      rw [List.getElem?_concat_length] at hevent
      cases hevent
      simp [stateChangedEvent] at hcode
    · intro hdenied
      simpa using hcloses.code_eq hdenied
  · exact hcloses.not_leaves (by rw [hrunning]; decide)

/-- Before its execution a run is expired past the deadline of its state and left alone
until then; the scan compares the same deadlines. -/
theorem early_fulfils (h : r.Stored)
    (hmanual : isReservedAutomationAgentIdentity r.run.agentKind r.run.agentVersion = false)
    (hearly : r.run.state.isEarly = true) :
    Fulfils r (scanCode build r now) (prepareOne build r now) := by
  have hlegal : AgentRunState.expired ∈ legalTransitions r.run.state := by
    revert hearly
    cases r.run.state <;> decide
  by_cases hover : r.run.expiryDeadline ≤ now
  · have hcloses := closes_of_transition now .expired "deadline_expired" h.revision hlegal fun _ => hover
    rw [AgentRun.expiryDeadline] at hover
    cases hstate : r.run.state <;> simp [hstate, AgentRunState.isEarly] at hearly hover
    all_goals
      rw [hstate] at hcloses
      simp [scanCode, classifyRun, prepareOne, hmanual, hstate, hover, AgentRunState.isTerminal]
      exact hcloses
  · rw [AgentRun.expiryDeadline] at hover
    cases hstate : r.run.state <;> simp [hstate, AgentRunState.isEarly] at hearly hover
    all_goals
      simp [scanCode, classifyRun, prepareOne, hmanual, hstate, not_le.mpr hover,
        AgentRunState.isTerminal]
      rfl

theorem overdue_fulfils (h : r.Stored)
    (hmanual : isReservedAutomationAgentIdentity r.run.agentKind r.run.agentVersion = false)
    (hrunning : r.run.state = .running) (hover : r.run.runDeadline ≤ now) :
    Fulfils r (scanCode build r now) (prepareOne build r now) := by
  have hcode : scanCode build r now = some "deadline_expired" := by
    simp [scanCode, classifyRun, hrunning, hover]
  have hprepare : prepareOne build r now = (do
      let r' ← expireExecution r now
      return (none, r')) := by
    simp [prepareOne, hmanual, hrunning, hover, AgentRunState.isTerminal]
  rw [hcode, hprepare]
  exact expireExecution_closes h hrunning hover

/-- A run that waits for an approval or is over is nobody's to recover. -/
theorem settled_fulfils
    (hmanual : isReservedAutomationAgentIdentity r.run.agentKind r.run.agentVersion = false)
    (hearly : r.run.state.isEarly = false) (hrunning : r.run.state ≠ .running) :
    Fulfils r (scanCode build r now) (prepareOne build r now) := by
  have hcode : scanCode build r now = none := by
    cases hstate : r.run.state <;> simp_all [scanCode, classifyRun, AgentRunState.isEarly]
  have hprepare : prepareOne build r now = .ok (none, r) := by
    cases hstate : r.run.state <;>
      simp_all [prepareOne, AgentRunState.isEarly, AgentRunState.isTerminal]
  rw [hcode, hprepare]
  rfl

/-- The code the scan reports for a stored run is the action that recovery then takes on
the same rows at the same time exactly where `ScanAgrees` holds of them. -/
theorem scan_agrees_iff (build : Build) (r : RunRecord) (now : Instant) (h : r.Stored) :
    Fulfils r (scanCode build r now) (prepareOne build r now) ↔ ScanAgrees build r now := by
  cases hmanual : isReservedAutomationAgentIdentity r.run.agentKind r.run.agentVersion with
  | true =>
      rw [prepareOne, if_pos hmanual]
      refine iff_of_false not_fulfils_error fun hagrees => ?_
      rw [hagrees.manual] at hmanual
      cases hmanual
  | false =>
      by_cases hrunning : r.run.state = .running
      · by_cases hdeadline : now < r.run.runDeadline
        · have hiff : ScanAgrees build r now ↔ _ :=
            ⟨fun h => h.running hrunning hdeadline, fun h => ⟨hmanual, fun _ _ => h⟩⟩
          rw [hiff, prepareOne_running hmanual hrunning hdeadline]
          cases hactive : r.activeInvocations with
          | nil => exact idle_fulfils_iff h hrunning hdeadline hactive
          | cons i rest =>
              cases rest with
              | nil => exact active_fulfils_iff h hrunning hdeadline hactive
              | cons j rest =>
                  exact iff_of_false (several_not_fulfils h hrunning hdeadline hactive) id
        · have hover := not_lt.mp hdeadline
          exact iff_of_true (overdue_fulfils h hmanual hrunning hover)
            ⟨hmanual, fun _ hlt => absurd hlt hdeadline⟩
      · have hagrees : ScanAgrees build r now := ⟨hmanual, fun h => absurd h hrunning⟩
        refine iff_of_true ?_ hagrees
        cases hearly : r.run.state.isEarly with
        | true => exact early_fulfils h hmanual hearly
        | false => exact settled_fulfils hmanual hearly hrunning

/-! ## Runs of at most thirteen steps -/

/-- Of a run with no more steps than the scan reads, only what it does not look at remains:
a second active invocation, and the invocations of a running step. -/
theorem scanAgrees_iff_of_short (hshort : r.steps.length ≤ 13) :
    ScanAgrees build r now ↔
      isReservedAutomationAgentIdentity r.run.agentKind r.run.agentVersion = false ∧
        (r.run.state = .running → now < r.run.runDeadline →
          r.activeInvocations.length ≤ 1 ∧ (r.activeInvocations = [] → ¬ r.Orphaned)) := by
  have hall : r.scannedSteps = r.listAgentSteps := by
    refine List.take_of_length_le ?_
    rwa [RunRecord.listAgentSteps, List.length_insertionSort]
  have hmem : ∀ {s}, s ∈ r.scannedSteps ↔ s ∈ r.steps := by
    intro s
    rw [hall, RunRecord.mem_listAgentSteps]
  have hidle : r.IdleAgrees ↔ ¬ r.Orphaned := by
    constructor
    · intro hagrees horphan
      obtain ⟨s, hs, hopen⟩ := horphan.hasOpenStep
      rw [(hagrees.orphaned horphan).1 s (hmem.mpr hs)] at hopen
      cases hopen
    · intro horphan
      constructor
      · exact fun h => absurd h horphan
      · rintro ⟨s, hs, hopen⟩ -
        exact ⟨s, hmem.mpr hs, hopen⟩
      · exact fun _ hsucceeded s hs => hsucceeded s (hmem.mpr hs)
  have hactive : ∀ i ∈ r.activeInvocations, r.ActiveAgrees build now i := by
    intro i hi _ _
    obtain ⟨-, s, hs⟩ := RunRecord.mem_activeInvocations hi
    have hsame := List.find?_some hs
    exact ⟨s, hall ▸ List.mem_of_find?_eq_some hs, beq_iff_eq.mp hsame⟩
  have hrows : (match r.activeInvocations with
      | [] => r.IdleAgrees
      | [i] => r.ActiveAgrees build now i
      | _ :: _ :: _ => False) ↔
      r.activeInvocations.length ≤ 1 ∧ (r.activeInvocations = [] → ¬ r.Orphaned) := by
    cases hinvocations : r.activeInvocations with
    | nil => simpa using hidle
    | cons i rest =>
        cases rest with
        | nil => simpa using hactive i (hinvocations ▸ List.mem_singleton_self i)
        | cons j rest => simp
  constructor
  · exact fun h => ⟨h.manual, fun hrunning hdeadline => hrows.mp (h.running hrunning hdeadline)⟩
  · exact fun h => ⟨h.1, fun hrunning hdeadline => hrows.mpr (h.2 hrunning hdeadline)⟩

end Scan

/-! ## A running step without an invocation -/

def sampleRecoveryBuild : Build :=
  { registryVersion := "agent-tools-v1"
    registry := [{ name := "memory.get", version := 1, normalize := some }]
    sha256 := id }

def sampleRunningStep : AgentStep :=
  { id := 7
    ordinal := 0
    purpose := "look"
    toolName := some "memory.get"
    toolVersion := some 1
    normalizedInput := .null
    expectedEvidence := []
    successCondition := "read"
    stopCondition := "read"
    status := .running
    startedAt := some 3
    finishedAt := none }

/-- A manual run whose only step is running. -/
def sampleOrphaned : RunRecord :=
  let made := newRun sampleRecoveryBuild ⟨none, "manual", "1", "goal"⟩ "key" "print" 0 1 2
  { made with
    run := { made.run with state := .running, revision := 3, startedAt := some 2 }
    steps := [sampleRunningStep] }

/-- The same run with the invocation of the step. -/
def sampleInterrupted : RunRecord :=
  { sampleOrphaned with
    invocations :=
      [{ id := 9
         stepId := 7
         attempt := 0
         toolName := "memory.get"
         toolVersion := 1
         authority := .read
         validatedInputHash := ""
         validatedInput := .null
         idempotencyKeyHash := ""
         status := .running
         safeResultSummary := none
         evidenceReferences := []
         safeErrorCode := none
         reservedAt := 3
         startedAt := some 3
         finishedAt := none }] }

/-- A minute later the invocation is a stale pure read to both. -/
theorem scan_agrees_iff_interrupted :
    sampleInterrupted.Stored ∧
      scanCode sampleRecoveryBuild sampleInterrupted 60000000 = some "stale_pure_read" ∧
      (Fulfils sampleInterrupted (scanCode sampleRecoveryBuild sampleInterrupted 60000000)
          (prepareOne sampleRecoveryBuild sampleInterrupted 60000000) ↔
        ScanAgrees sampleRecoveryBuild sampleInterrupted 60000000) := by
  have hstored : sampleInterrupted.Stored := ⟨by decide, by decide⟩
  exact ⟨hstored, by decide +kernel, scan_agrees_iff _ _ _ hstored⟩

/-- The scan reports work that remains, and recovery fails the run. -/
theorem orphaned_step_not_resumed :
    sampleOrphaned.Stored ∧
      ¬ Fulfils sampleOrphaned (scanCode sampleRecoveryBuild sampleOrphaned 4)
        (prepareOne sampleRecoveryBuild sampleOrphaned 4) := by
  refine ⟨⟨by decide, by decide⟩, ?_⟩
  have hcode : scanCode sampleRecoveryBuild sampleOrphaned 4 =
      some "durable_work_remaining" := by decide +kernel
  have hclaim : (prepareOne sampleRecoveryBuild sampleOrphaned 4).toOption.map (·.1) =
      some none := by decide +kernel
  rw [hcode]
  rintro ⟨hresumes, -⟩
  rw [hresumes] at hclaim
  cases hclaim

end SecondBrain
