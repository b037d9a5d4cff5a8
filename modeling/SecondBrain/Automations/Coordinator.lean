import SecondBrain.AgentRuns.Service
import SecondBrain.Agents.Catalog
import SecondBrain.Lib.Table

/-!
# Which linked runs the coordinator takes up

An occurrence that has made a run is coordinated only while the automation, the
occurrence and the run still fit together. The three are compared with chained
comparisons, and `a != b != c` holds only where both differ: a record that differs from
one of the others alone passes. The rest of the guards does not make up for it, so the
records agree exactly where no comparison is of this kind (`eligible_agrees`).
-/

namespace SecondBrain

open Lib

namespace Automations

/-! ## Rows -/

inductive Lifecycle where
  | draft
  | enabled
  | paused
  | cancelled
deriving DecidableEq, Repr

inductive ExecutionMode where
  | createOnly
  | automaticReadOnly
deriving DecidableEq, Repr

inductive OccurrenceState where
  | due
  | claimed
  | runCreated
  | completed
  | missed
  | failed
  | cancelled
deriving DecidableEq, Repr

structure Automation where
  id : Uuid
  agentKind : String
  agentVersion : String
  projectId : Option Uuid
  lifecycle : Lifecycle
  revision : Nat
  executionMode : ExecutionMode
  scheduleRevision : Nat
deriving DecidableEq

structure AutomationOccurrence where
  id : Uuid
  automationId : Uuid
  scheduleRevision : Nat
  state : OccurrenceState
  agentRunId : Option Uuid
  automationRevision : Nat
  agentKind : String
  agentVersion : String
  executionMode : ExecutionMode
  projectId : Option Uuid
deriving DecidableEq

/-- The tables the coordinator reads. -/
structure Store where
  projects : List Uuid := []
  automations : List Automation := []
  occurrences : List AutomationOccurrence := []
  runs : List AgentRun := []

def Store.automation? (db : Store) (id : Uuid) : Option Automation :=
  lookup (·.id) id db.automations

def Store.occurrence? (db : Store) (id : Uuid) : Option AutomationOccurrence :=
  lookup (·.id) id db.occurrences

def Store.run? (db : Store) (id : Uuid) : Option AgentRun := lookup (·.id) id db.runs

/-- `linked_count`. -/
def Store.linkedCount (db : Store) (runId : Uuid) : Nat :=
  db.occurrences.countP fun o => o.agentRunId == some runId

/-! ## Eligibility -/

/-- `a != b != c`. -/
def chained {α : Type} [DecidableEq α] (a b c : α) : Bool := decide (a ≠ b ∧ b ≠ c)

/-- What is compared across the three records. -/
def mismatched (a : Automation) (o : AutomationOccurrence) (run : AgentRun) : Bool :=
  chained a.agentKind o.agentKind run.agentKind ||
    chained a.agentVersion o.agentVersion run.agentVersion ||
    chained a.projectId o.projectId run.projectId

abbrev DefinitionResolver := String → String → Option AutomaticAgentDefinition

/-- Whether the definition is one that may run unattended. -/
def unattended (build : Build) (d : AutomaticAgentDefinition) : Bool :=
  d.codeOwned && d.authority == "read" && d.registryVersion == build.registryVersion &&
    !d.allowedTools.isEmpty &&
    d.allowedTools.all fun tool => (build.getExact tool.1 tool.2).isSome

/-- Whether the run is at a point where it can be taken up. -/
def runOpen (run : AgentRun) (now : Instant) : Bool :=
  decide (run.state = .completed ∨ run.state = .failed) ||
    (decide (run.state ≠ .cancelled ∧ run.state ≠ .expired) && decide (now < run.runDeadline))

/-- The guards but for the chained comparisons. -/
def guarded (build : Build) (db : Store) (a : Automation) (o : AutomationOccurrence)
    (run : AgentRun) (definition : Option AutomaticAgentDefinition) (now : Instant) : Bool :=
  db.linkedCount run.id == 1 &&
    decide (a.lifecycle = .enabled) &&
    a.revision == o.automationRevision &&
    a.scheduleRevision == o.scheduleRevision &&
    decide (a.executionMode = .automaticReadOnly) &&
    decide (o.executionMode = .automaticReadOnly) &&
    decide (o.state = .runCreated ∨ o.state = .completed ∨ o.state = .failed) &&
    ((getSchedulableAgent o.agentKind o.agentVersion).any fun catalog =>
      !(catalog.projectRequired && o.projectId.isNone)) &&
    definition.any (unattended build) &&
    run.registryVersion == build.registryVersion &&
    run.policyVersion == policyVersion &&
    runOpen run now &&
    o.projectId.all db.projects.contains

/-- `_eligible_linked_run`. Nothing stands for `AutomaticEligibilityError`. -/
def eligibleLinkedRun (build : Build) (db : Store) (occurrenceId : Uuid)
    (resolver : DefinitionResolver) (now : Instant) : Option (Uuid × AutomaticAgentDefinition) := do
  let occurrence ← db.occurrence? occurrenceId
  let runId ← occurrence.agentRunId
  let automation ← db.automation? occurrence.automationId
  let run ← db.run? runId
  let definition := resolver occurrence.agentKind occurrence.agentVersion
  if mismatched automation occurrence run ||
      !guarded build db automation occurrence run definition now then none
  else definition.map fun d => (run.id, d)

/-! ## Agreement -/

/-- The three records an eligible occurrence brings together. -/
structure Linked (db : Store) (occurrenceId : Uuid) (a : Automation) (o : AutomationOccurrence)
    (run : AgentRun) : Prop where
  occurrence : db.occurrence? occurrenceId = some o
  automation : db.automation? o.automationId = some a
  link : o.agentRunId = some run.id
  run : db.run? run.id = some run

/-- They agree on the agent and on the project. -/
structure Agree (a : Automation) (o : AutomationOccurrence) (run : AgentRun) : Prop where
  kind : a.agentKind = o.agentKind ∧ o.agentKind = run.agentKind
  version : a.agentVersion = o.agentVersion ∧ o.agentVersion = run.agentVersion
  project : a.projectId = o.projectId ∧ o.projectId = run.projectId

/-- The middle one equals exactly one of the others. -/
def oneSided {α : Type} [DecidableEq α] (a b c : α) : Bool := decide (a = b) != decide (b = c)

/-- Whether a comparison of the three records passes with a difference in it. -/
def slips (a : Automation) (o : AutomationOccurrence) (run : AgentRun) : Bool :=
  oneSided a.agentKind o.agentKind run.agentKind ||
    oneSided a.agentVersion o.agentVersion run.agentVersion ||
    oneSided a.projectId o.projectId run.projectId

variable {build : Build} {db : Store} {occurrenceId : Uuid} {resolver : DefinitionResolver}
  {now : Instant} {a : Automation} {o : AutomationOccurrence} {run : AgentRun}

theorem not_chained_iff {α : Type} [DecidableEq α] {a b c : α} :
    chained a b c = false ↔ a = b ∨ b = c := by
  unfold chained
  rw [decide_eq_false_iff_not]
  tauto

theorem not_oneSided_iff {α : Type} [DecidableEq α] {a b c : α} :
    oneSided a b c = false ↔ (a = b ↔ b = c) := by
  unfold oneSided
  by_cases hab : a = b <;> by_cases hbc : b = c <;> simp [hab, hbc]

theorem Agree.passes (h : Agree a o run) : mismatched a o run = false ∧ slips a o run = false := by
  unfold mismatched slips
  simp only [Bool.or_eq_false_iff, not_chained_iff, not_oneSided_iff]
  exact ⟨⟨⟨.inl h.kind.1, .inl h.version.1⟩, .inl h.project.1⟩,
    ⟨iff_of_true h.kind.1 h.kind.2, iff_of_true h.version.1 h.version.2⟩,
    iff_of_true h.project.1 h.project.2⟩

theorem agree_of_passes (hpass : mismatched a o run = false) (hslip : slips a o run = false) :
    Agree a o run := by
  unfold mismatched at hpass
  unfold slips at hslip
  simp only [Bool.or_eq_false_iff, not_chained_iff] at hpass
  simp only [Bool.or_eq_false_iff, not_oneSided_iff] at hslip
  have both : ∀ {p q : Prop}, (p ∨ q) → (p ↔ q) → p ∧ q := by tauto
  exact ⟨both hpass.1.1 hslip.1.1, both hpass.1.2 hslip.1.2, both hpass.2 hslip.2⟩

/-- What it takes to be accepted: the link and every guard. -/
theorem eligibleLinkedRun_eq_some {runId : Uuid} {d : AutomaticAgentDefinition} :
    eligibleLinkedRun build db occurrenceId resolver now = some (runId, d) ↔
      ∃ a o run, Linked db occurrenceId a o run ∧ mismatched a o run = false ∧
        guarded build db a o run (resolver o.agentKind o.agentVersion) now = true ∧
        resolver o.agentKind o.agentVersion = some d ∧ runId = run.id := by
  unfold eligibleLinkedRun
  simp only [bind, Option.bind_eq_some_iff]
  constructor
  · rintro ⟨o, ho, linked, hlinked, a, ha, run, hrun, hsome⟩
    have hid : run.id = linked := (lookup_mem hrun).2
    split at hsome
    · cases hsome
    · next hpass =>
        rw [Bool.not_eq_true, Bool.or_eq_false_iff, Bool.not_eq_false'] at hpass
        obtain ⟨d', hd, heq⟩ := Option.map_eq_some_iff.mp hsome
        cases heq
        subst hid
        exact ⟨a, o, run, ⟨ho, ha, hlinked, hrun⟩, hpass.1, hpass.2, hd, rfl⟩
  · rintro ⟨a, o, run, hrows, hpass, hguards, hd, rfl⟩
    refine ⟨o, hrows.occurrence, run.id, hrows.link, a, hrows.automation, run, hrows.run, ?_⟩
    rw [hpass, hguards, if_neg (by decide), hd]
    rfl

/-- The linked run that is accepted is the one of the occurrence, and the records agree,
exactly where none of those that pass the other guards differs from one other alone. -/
theorem eligible_agrees (build : Build) (db : Store) (occurrenceId : Uuid)
    (resolver : DefinitionResolver) (now : Instant) :
    (∀ runId d, eligibleLinkedRun build db occurrenceId resolver now = some (runId, d) →
      ∃ a o run, Linked db occurrenceId a o run ∧ runId = run.id ∧ Agree a o run) ↔
    ∀ a o run, Linked db occurrenceId a o run →
      guarded build db a o run (resolver o.agentKind o.agentVersion) now = true →
      mismatched a o run = true ∨ slips a o run = false := by
  constructor
  · intro h a o run hrows hguards
    by_contra hbad
    rw [not_or, Bool.not_eq_true, Bool.not_eq_false] at hbad
    have hresolved : (resolver o.agentKind o.agentVersion).isSome = true := by
      cases hd : resolver o.agentKind o.agentVersion with
      | some d => rfl
      | none =>
          rw [hd] at hguards
          simp [guarded] at hguards
    obtain ⟨d, hd⟩ := Option.isSome_iff_exists.mp hresolved
    have haccepted := eligibleLinkedRun_eq_some.mpr ⟨a, o, run, hrows, hbad.1, hguards, hd, rfl⟩
    obtain ⟨a', o', run', hrows', -, hagree⟩ := h run.id d haccepted
    cases Option.some.inj (hrows.occurrence.symm.trans hrows'.occurrence)
    cases Option.some.inj (hrows.automation.symm.trans hrows'.automation)
    have hid : run.id = run'.id := Option.some.inj (hrows.link.symm.trans hrows'.link)
    have hsame := hrows'.run
    rw [← hid, hrows.run] at hsame
    cases hsame
    rw [hagree.passes.2] at hbad
    exact Bool.false_ne_true hbad.2
  · intro h runId d haccepted
    obtain ⟨a, o, run, hrows, hpass, hguards, -, hid⟩ := eligibleLinkedRun_eq_some.mp haccepted
    refine ⟨a, o, run, hrows, hid, agree_of_passes hpass ?_⟩
    rcases h a o run hrows hguards with hmismatch | hslip
    · rw [hpass] at hmismatch
      cases hmismatch
    · exact hslip

/-! ## A run of another project -/

def sampleAutomation : Automation :=
  { id := 1
    agentKind := "daily_brief"
    agentVersion := "1"
    projectId := some 7
    lifecycle := .enabled
    revision := 2
    executionMode := .automaticReadOnly
    scheduleRevision := 1 }

def sampleOccurrence : AutomationOccurrence :=
  { id := 2
    automationId := 1
    scheduleRevision := 1
    state := .runCreated
    agentRunId := some 3
    automationRevision := 2
    agentKind := "daily_brief"
    agentVersion := "1"
    executionMode := .automaticReadOnly
    projectId := some 7 }

/-- A run for another project than that of the occurrence that is linked to it. -/
def sampleStrayRun : AgentRun :=
  { id := 3
    projectId := some 8
    agentKind := "daily_brief"
    agentVersion := "1"
    goalSummary := "Daily brief"
    registryVersion := "agent-tools-v1"
    policyVersion := policyVersion
    state := .created
    stepBudget := 12
    toolCallBudget := 20
    retryBudget := 2
    planningDeadline := 10
    runDeadline := 20
    revision := 0
    correlationId := 4
    idempotencyKeyHash := "0a"
    normalizedRequestFingerprint := "0b"
    safeErrorCode := none
    createdAt := 0
    updatedAt := 0
    startedAt := none
    finishedAt := none }

def sampleTables : Store :=
  { projects := [7, 8]
    automations := [sampleAutomation]
    occurrences := [sampleOccurrence]
    runs := [sampleStrayRun] }

def sampleTools : Build :=
  { registryVersion := "agent-tools-v1"
    registry := researchTools.map fun tool =>
      { name := tool.1, version := tool.2, normalize := some }
    sha256 := id }

/-- The run is taken up for the project of the occurrence. -/
theorem stray_run_eligible :
    ∃ d, eligibleLinkedRun sampleTools sampleTables 2 getAutomaticAgentDefinition 5 =
      some (3, d) ∧ ∀ a o run, Linked sampleTables 2 a o run → ¬ Agree a o run := by
  refine ⟨dailyBriefDefinition, by decide +kernel, fun a o run hrows hagree => ?_⟩
  cases hrows.occurrence
  have hrun := hrows.run
  rw [← Option.some.inj hrows.link] at hrun
  cases hrun
  exact absurd hagree.project.2 (by decide)

end Automations

end SecondBrain
