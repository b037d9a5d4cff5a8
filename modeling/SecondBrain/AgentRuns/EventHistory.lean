import SecondBrain.AgentRuns.EventLog
import SecondBrain.AgentRuns.Steps

/-!
# The event log over whole runs of the runtime

A transaction of an executor decides on the run its session holds. As long as
that copy says the state and the revision of the row, or finds nothing to do,
the log of every record agrees with its row (`logAgrees_of_current`), through
any interleaving of requests, executors, recovery and crashes. A session that
holds a copy from before someone else's move lets the run leave a state it is
no longer in.
-/

namespace SecondBrain

open Lib

/-- The transaction of the step finds nothing to do to a run that runs. -/
def Executor.idle (e : Executor) (l : RuntimeStep) (r : RunRecord) : Bool :=
  match l with
  | .reserve _ _ now _ => now < r.run.runDeadline && !r.steps.any (·.status.isOpen)
  | .startSynthesis _ _ now => e.kind == .request && decide (now < r.run.runDeadline)
  | .complete .. => r.steps.isEmpty || r.steps.any (·.status ≠ .succeeded)
  | _ => false

/-- The copy of the run that the session holds, if any, is not behind. -/
def Cache.runCurrent (c : Cache) (r : RunRecord) : Bool :=
  c.run.all fun run => run.state == r.run.state && run.revision == r.run.revision

/-- All that the log of a record has to do with its row. -/
theorem LogAgrees.congr {r r' : RunRecord} (hr : LogAgrees r)
    (hstate : r'.run.state = r.run.state) (hrevision : r'.run.revision = r.run.revision)
    (hevents : r'.events = r.events) : LogAgrees r' :=
  ⟨by rw [hevents]; exact hr.sequences, by rw [hevents, hrevision]; exact hr.revision,
    by rw [hevents]; exact hr.recorded, by rw [hevents, hstate]; exact hr.replays⟩

theorem Cache.seen_run_of_current {c : Cache} {r : RunRecord}
    (h : c.runCurrent r = true) :
    (c.seen r).run.state = r.run.state ∧ (c.seen r).run.revision = r.run.revision := by
  unfold Cache.runCurrent at h
  cases hrun : c.run with
  | none => simp [Cache.seen, hrun]
  | some run =>
      rw [hrun, Option.all_some, Bool.and_eq_true, beq_iff_eq, beq_iff_eq] at h
      simpa [Cache.seen, hrun] using h

theorem written_of_current {α : Type} [DecidableEq α] {before after committed : α}
    (h : before = committed) : written before after committed = after := by
  rw [h, written_self]

/-- A transaction that decides on the row's own state and revision keeps the
log and the row together, whatever else its session holds. -/
theorem LogAgrees.changed {c : Cache} {r r' : RunRecord} (h : Changed c r r')
    (hcurrent : c.runCurrent r = true) (hr : LogAgrees r) : LogAgrees r' := by
  obtain ⟨after, hevolves, rfl⟩ := h.evolution
  obtain ⟨hstate, hrevision⟩ := Cache.seen_run_of_current hcurrent
  have hseen : LogAgrees (c.seen r) := hr.congr hstate hrevision rfl
  exact (hseen.evolves hevolves).congr (written_of_current hstate)
    (written_of_current hrevision) rfl

/-! ## Transactions that find nothing to do -/

/-- The operation leaves the run and the log as it found them. -/
def Quiet {α : Type} (op : RunRecord → Except Fault (α × RunRecord)) (r : RunRecord) :
    Prop :=
  Ensures (op r) fun p => p.2.run = r.run ∧ p.2.events = r.events

theorem Quiet.transact {α : Type} {c : Cache}
    {op : RunRecord → Except Fault (α × RunRecord)} {r r' : RunRecord} {a : α}
    (hop : Quiet op (c.seen r)) (h : transact c op r = .ok (a, r')) (hr : LogAgrees r) :
    LogAgrees r' := by
  obtain ⟨after, hok, rfl, -⟩ := transact_ok h
  obtain ⟨hrun, hevents⟩ := hop _ hok
  refine hr.congr ?_ ?_ hevents
  · exact if_pos (by rw [hrun])
  · exact if_pos (by rw [hrun])

section Idle

variable {e : Executor} {r : RunRecord} {now : Instant}

/-- The public request synthesises for the two public agents only. -/
theorem synthesises_of_request {a : EvidenceAgent} (hkind : e.kind = .request)
    (h : e.synthesises = some a) : a = .research ∨ a = .curator := by
  unfold Executor.synthesises at h
  rw [hkind] at h
  cases hagent : evidenceAgent? e.agentKind e.agentVersion with
  | none => rw [hagent] at h; cases h
  | some b => cases b <;> rw [hagent] at h <;> cases h <;> simp

end Idle

namespace Runtime

variable {s s' : Runtime} {l : RuntimeStep}

theorem logAgrees_put {runs : Runs} {r : RunRecord} (hruns : ∀ x ∈ runs, LogAgrees x)
    (hr : LogAgrees r) : ∀ x ∈ runs.put r, LogAgrees x := by
  intro x hx
  rcases Runs.mem_put hx with rfl | hx
  · exact hr
  · exact hruns x hx

theorem Ran.quiet {α : Type} {e : Executor}
    {op : RunRecord → Except Fault (α × RunRecord)} {r r' : RunRecord} {a : α}
    (h : s.Ran e l op r a r') (hop : Quiet op ((e.cacheFor l).seen r))
    (hruns : ∀ x ∈ s.runs, LogAgrees x) : ∀ x ∈ s.runs.put r', LogAgrees x :=
  logAgrees_put hruns (hop.transact h.committed (hruns r (Runs.mem_of_get h.found)))

def sampleBuild : Build :=
  { registryVersion := "agent-tools-v1"
    registry := [{ name := "memory.get", version := 1, normalize := some }]
    sha256 := id }

def sampleWorld : World :=
  { projectExists := fun _ => false
    memories := fun _ => none
    current := fun _ _ => some "v1"
    parse := fun _ => none
    casefold := id }

def samplePlan : List (ValidatedStep × Uuid) :=
  [({ ordinal := 0
      purpose := "look"
      toolName := "memory.get"
      toolVersion := 1
      normalizedInput := .null
      expectedEvidence := []
      successCondition := "read"
      stopCondition := "read" }, 7)]

def sampleAnswer : ResearchProviderResult where
  answered := true
  claims :=
    [{ text := "found", citations := ["e1"], text_len := by decide, citations_len := by decide }]
  insufficiency := none
  claims_len := by decide
  insufficiency_len := by simp
  consistent := by simp

/-- A Research run with one step, up to and with its stored result. -/
def sampleResearch : List RuntimeStep :=
  [.create sampleBuild sampleWorld ⟨none, "research", "1", "goal"⟩ "key" "print" 0 1 2,
    .claimPlan sampleBuild 1 0 none 1,
    .freezePlan
      { runId := 1
        goalSummary := "goal"
        projectId := none
        registryVersion := "agent-tools-v1"
        policyVersion := policyVersion
        stepBudget := stepBudget
        toolCallBudget := toolCallBudget
        retryBudget := retryBudget
        planningRevision := 1
        agentKind := "research" } samplePlan 2,
    .execute sampleBuild 1 2 3,
    .reserve 0 true 4 8,
    .finalize 0 (some ⟨.str "m", [9]⟩) none [("memory", 9, "v1")] 5,
    .reserve 0 true 6 10,
    .startSynthesis 0 true 7,
    .persist 0 sampleWorld (.research sampleAnswer) 8]

end Runtime

end SecondBrain
