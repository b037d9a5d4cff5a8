import Mathlib.Logic.Relation
import SecondBrain.AgentRuns.Recovery
import SecondBrain.Agents.Curator
import SecondBrain.Agents.Scheduled

/-!
# What the operations can do to a run and its log

Of all the operations that lock a record, none touches the run row or the log
in any way but three: it leaves both alone, it appends an event that records no
move, or it makes one legal move together with the event of that move.
`Evolves` is any number of these, and each operation is shown once to ensure
it. Whatever is to be said about a run's row and its log over whole runs of the
system is then said about the three.

Beyond that, an operation leaves the approvals alone (`Plain`) unless it creates
proposals, which then are new rows at the end (`Files`), or reviews one.
-/

namespace SecondBrain

open Lib

def stateChangedType : String := "agent_run.state_changed"

inductive Elementary (r r' : RunRecord) : Prop where
  | rows : r'.run = r.run → r'.events = r.events → Elementary r r'
  | noted (e : AgentEvent) : e.eventType ≠ stateChangedType → r'.run = r.run →
      r'.events = r.events ++ [{ e with sequence := r.nextSequence }] → Elementary r r'
  | moved (newState : AgentRunState) (now : Instant) (code : Option String) :
      newState ∈ legalTransitions r.run.state → r'.run = r.run.move newState now code →
      r'.events = r.events ++
        [{ stateChangedEvent r.run newState now with sequence := r.nextSequence }] →
      Elementary r r'

def Evolves : RunRecord → RunRecord → Prop := Relation.ReflTransGen Elementary

namespace Evolves

variable {r r' r'' : RunRecord}

theorem refl (r : RunRecord) : Evolves r r := Relation.ReflTransGen.refl

theorem trans (h : Evolves r r') (h' : Evolves r' r'') : Evolves r r'' :=
  Relation.ReflTransGen.trans h h'

theorem rows (hrun : r'.run = r.run) (hevents : r'.events = r.events) : Evolves r r' :=
  .single (.rows hrun hevents)

/-- Rows are changed first. -/
theorem of_rows (h : Evolves r' r'') (hrun : r'.run = r.run)
    (hevents : r'.events = r.events) : Evolves r r'' :=
  (rows hrun hevents).trans h

/-- What every step of an evolution keeps, the evolution keeps. -/
theorem keeps {P : RunRecord → Prop} (hstep : ∀ r r', Elementary r r' → P r → P r')
    (h : Evolves r r') (hr : P r) : P r' := by
  induction h with
  | refl => exact hr
  | tail _ hlast ih => exact hstep _ _ hlast ih

/-- The key of the row stays. -/
theorem id_eq (h : Evolves r r') : r'.run.id = r.run.id := by
  refine h.keeps (P := fun q => q.run.id = r.run.id) ?_ rfl
  intro q q' hstep hq
  cases hstep with
  | rows hrun | noted _ _ hrun => rw [hrun, hq]
  | moved newState now code _ hrun => rw [hrun]; exact hq

/-- Only a move into a terminal state sets the finish timestamp. -/
theorem finishedAt_eq (h : Evolves r r') :
    r'.run.finishedAt = r.run.finishedAt ∨ r'.run.state.isTerminal = true := by
  refine h.keeps (P := fun q => q.run.finishedAt = r.run.finishedAt ∨
    q.run.state.isTerminal = true) ?_ (.inl rfl)
  intro q q' hstep hq
  cases hstep with
  | rows hrun | noted _ _ hrun => rw [hrun]; exact hq
  | moved newState now code hlegal hrun =>
      rw [hrun]
      cases hterm : newState.isTerminal with
      | true => exact .inr hterm
      | false =>
          refine hq.imp (fun hq => ?_) fun hq => ?_
          · rw [AgentRun.move, hterm]
            exact hq
          · rw [(legalTransitions_eq_nil_iff _).mpr hq] at hlegal
            cases hlegal

end Evolves

/-- The columns of the row that are written once. -/
def AgentRun.still (run : AgentRun) : AgentRun :=
  { run with
    state := .created
    revision := 0
    safeErrorCode := none
    updatedAt := 0
    startedAt := none
    finishedAt := none }

theorem Evolves.still_eq {r r' : RunRecord} (h : Evolves r r') :
    r'.run.still = r.run.still := by
  refine h.keeps (P := fun q => q.run.still = r.run.still) ?_ rfl
  intro q q' hstep hq
  cases hstep with
  | rows hrun | noted _ _ hrun => rw [hrun, hq]
  | moved newState now code _ hrun =>
      rw [hrun]
      exact hq

/-- The scope of a run is one of them. -/
theorem Evolves.projectId_eq {r r' : RunRecord} (h : Evolves r r') :
    r'.run.projectId = r.run.projectId :=
  @congrArg _ _ r'.run.still r.run.still AgentRun.projectId (Evolves.still_eq h)

/-- The approvals are as they were. -/
structure Plain (r r' : RunRecord) : Prop where
  evolves : Evolves r r'
  approvals : r'.approvals = r.approvals

/-- Approvals are added that have `P` and identifiers of their own. -/
structure Files (P : ApprovalRequest → Prop) (r r' : RunRecord) : Prop where
  evolves : Evolves r r'
  approvals : ∃ new, r'.approvals = r.approvals ++ new ∧ ∀ a ∈ new, P a
  ids : (r.approvals.map (·.id)).Nodup → (r'.approvals.map (·.id)).Nodup

namespace Plain

variable {r r' r'' : RunRecord}

theorem refl (r : RunRecord) : Plain r r := ⟨.refl r, rfl⟩

theorem trans (h : Plain r r') (h' : Plain r' r'') : Plain r r'' :=
  ⟨h.evolves.trans h'.evolves, h'.approvals.trans h.approvals⟩

theorem rows (hrun : r'.run = r.run) (hevents : r'.events = r.events)
    (happrovals : r'.approvals = r.approvals) : Plain r r' :=
  ⟨.rows hrun hevents, happrovals⟩

theorem files {P : ApprovalRequest → Prop} (h : Plain r r') : Files P r r' :=
  ⟨h.evolves, ⟨[], by rw [h.approvals, List.append_nil], fun _ ha => absurd ha List.not_mem_nil⟩,
    by rw [h.approvals]; exact id⟩

end Plain

/-- What is known of a transaction's record is known of its evolution. -/
theorem evolves_of_plain {α : Type} {x : Except Fault (α × RunRecord)} {r : RunRecord}
    (h : Ensures x fun p => Plain r p.2) : Ensures x fun p => Evolves r p.2 :=
  h.mono fun _ h => h.evolves

theorem evolves_of_files {α : Type} {P : ApprovalRequest → Prop}
    {x : Except Fault (α × RunRecord)} {r : RunRecord}
    (h : Ensures x fun p => Files P r p.2) : Ensures x fun p => Evolves r p.2 :=
  h.mono fun _ h => h.evolves

theorem Files.mono {P Q : ApprovalRequest → Prop} {r r' : RunRecord} (h : Files P r r')
    (hPQ : ∀ a, P a → Q a) : Files Q r r' := by
  obtain ⟨new, hnew, hP⟩ := h.approvals
  exact ⟨h.evolves, ⟨new, hnew, fun a ha => hPQ a (hP a ha)⟩, h.ids⟩

theorem Files.trans {P : ApprovalRequest → Prop} {r r' r'' : RunRecord} (h : Files P r r')
    (h' : Files P r' r'') : Files P r r'' := by
  obtain ⟨new, hnew, hP⟩ := h.approvals
  obtain ⟨new', hnew', hP'⟩ := h'.approvals
  refine ⟨h.evolves.trans h'.evolves, ⟨new ++ new', ?_, fun a ha => ?_⟩, fun hids => ?_⟩
  · rw [hnew', hnew, List.append_assoc]
  · exact (List.mem_append.mp ha).elim (hP a) (hP' a)
  · exact h'.ids (h.ids hids)

/-! ## Operations that plan nothing -/

/-- The columns of a step that are written once. -/
def AgentStep.still (s : AgentStep) : AgentStep :=
  { s with status := .pending, startedAt := none, finishedAt := none }

/-- The relation allows what an operation does that plans nothing and proposes nothing:
the steps stay but for their progress, and a run is moved past its plan. -/
structure Routine (R : RunRecord → RunRecord → Prop) : Prop where
  refl (r : RunRecord) : R r r
  trans {r r' r'' : RunRecord} : R r r' → R r' r'' → R r r''
  rows {r r' : RunRecord} : r'.run = r.run → r'.events = r.events →
    r'.approvals = r.approvals → r'.steps.map (·.still) = r.steps.map (·.still) → R r r'
  noted {r : RunRecord} (e : AgentEvent) : e.eventType ≠ stateChangedType →
    R r { r with events := r.events ++ [{ e with sequence := r.nextSequence }] }
  moved {r : RunRecord} (newState : AgentRunState) (now : Instant) (code : Option String) :
    newState ∈ legalTransitions r.run.state → newState.isEarly = false →
    R r { r with
      run := r.run.move newState now code
      events := r.events ++
        [{ stateChangedEvent r.run newState now with sequence := r.nextSequence }] }

theorem Routine.plain : Routine Plain where
  refl := .refl
  trans := .trans
  rows hrun hevents happrovals _ := .rows hrun hevents happrovals
  noted e he := ⟨.single (.noted e he rfl rfl), rfl⟩
  moved newState now code hlegal _ := ⟨.single (.moved newState now code hlegal rfl rfl), rfl⟩

theorem RunRecord.updateStep_still (r : RunRecord) (id : Uuid) {f : AgentStep → AgentStep}
    (hf : ∀ s, (f s).still = s.still) :
    (r.updateStep id f).steps.map (·.still) = r.steps.map (·.still) := by
  rw [RunRecord.updateStep, List.map_map]
  refine List.map_congr_left fun s _ => ?_
  rw [Function.comp_apply]
  split
  · exact hf s
  · rfl

theorem RunRecord.cancelOpen_still (r : RunRecord) (now : Instant) :
    (r.steps.map (·.cancelOpen now)).map (·.still) = r.steps.map (·.still) := by
  rw [List.map_map]
  refine List.map_congr_left fun s _ => ?_
  rw [Function.comp_apply, AgentStep.cancelOpen]
  split <;> rfl

section Routine

variable {R : RunRecord → RunRecord → Prop} (hR : Routine R)
  {r : RunRecord} {now : Instant} {build : Build}

include hR

theorem appendAgentEvent_routine {e : AgentEvent} (he : e.eventType ≠ stateChangedType) :
    Ensures (appendAgentEvent r e) (R r) := by
  intro r' h
  obtain ⟨-, rfl⟩ := appendAgentEvent_ok h
  exact hR.noted e he

theorem transitionRun_routine {newState : AgentRunState} (r : RunRecord)
    (expectedState : AgentRunState) (expectedRevision : Nat) (now : Instant)
    (code : Option String) (hlate : newState.isEarly = false) :
    Ensures (transitionRun r expectedState expectedRevision newState now code) (R r) := by
  intro r' h
  obtain ⟨-, hlegal, -, -, rfl⟩ := transitionRun_ok h
  exact hR.moved newState now code hlegal hlate

/-- An operation that first changes rows only and then goes on. -/
theorem Routine.after_rows {r r' : RunRecord} {x : Except Fault RunRecord}
    (h : Ensures x (R r')) (hrun : r'.run = r.run) (hevents : r'.events = r.events)
    (happrovals : r'.approvals = r.approvals)
    (hsteps : r'.steps.map (·.still) = r.steps.map (·.still)) : Ensures x (R r) :=
  h.mono fun _ h' => hR.trans (hR.rows hrun hevents happrovals hsteps) h'

/-! ## Cancellation and failed planning -/

theorem cancelInvocation_routine (i : ToolInvocation) :
    Ensures (cancelInvocation now r i) (R r) := by
  unfold cancelInvocation
  refine .ite (fun _ => ?_) fun _ => Ensures.ok_iff.mpr (hR.refl r)
  refine hR.after_rows (appendAgentEvent_routine hR ?_) rfl rfl rfl rfl
  simp [stateChangedType]

theorem cancelRun_routine (expectedRevision : Nat) :
    Ensures (cancelRun r expectedRevision now) (R r) := by
  unfold cancelRun
  refine .ite (fun _ => Ensures.ok_iff.mpr (hR.refl r)) fun _ => ?_
  refine .ite (fun _ => .error _) fun _ => .ite (fun _ => .error _) fun _ => ?_
  have hloop : Ensures (r.listStepInvocations.foldlM (cancelInvocation now) r)
      (R r) :=
    .foldlM (fun b i hb => (cancelInvocation_routine hR i).mono fun _ h => hR.trans hb h)
      (hR.refl r)
  refine hloop.bind fun r' hr' => ?_
  have hmove : Ensures (transitionRun { r' with steps := r'.steps.map (·.cancelOpen now) }
      r.run.state expectedRevision .cancelled now) (R r') :=
    hR.after_rows (transitionRun_routine hR _ _ _ _ _ rfl) rfl rfl rfl (r'.cancelOpen_still now)
  exact hmove.mono fun _ h => hR.trans hr' h

theorem finalizeFailure_routine (claim : PlanningClaim) (code : String) :
    Ensures (finalizeFailure r claim code now) fun p => R r p.2 := by
  unfold finalizeFailure
  refine .ite (fun _ => Ensures.ok_iff.mpr (hR.refl r)) fun _ => ?_
  exact .answer (transitionRun_routine hR _ _ _ _ _ rfl)

/-! ## Execution -/

theorem claimExecution_routine (expectedRevision : Nat)
    (allowed : Option (List ToolIdentity)) :
    Ensures (claimExecution build r expectedRevision allowed now)
      fun p => R r p.2 := by
  unfold claimExecution
  refine .ite (fun _ => .error _) fun _ => .ite (fun _ => ?_) fun _ => ?_
  · exact .ite (fun _ => Ensures.ok_iff.mpr (hR.refl r)) fun _ => .error _
  refine .ite (fun _ => ?_) fun _ => ?_
  · exact .ite (fun _ => .error _) fun _ => .error _
  refine .ite (fun _ => .error _) fun _ => .ite (fun _ => .error _) fun _ => ?_
  refine .ite (fun _ => .error _) fun _ => .ite (fun _ => .error _) fun _ => ?_
  refine .ite (fun _ => ?_) fun _ => ?_
  · exact .answer (transitionRun_routine hR _ _ _ _ _ rfl)
  · simp only []
    refine .ite (fun _ => .error _) fun _ => ?_
    exact .answer (transitionRun_routine hR _ _ _ _ _ rfl)

theorem failWithoutInvocation_routine (step : AgentStep) (code : String) :
    Ensures (failWithoutInvocation r step code now) (R r) := by
  unfold failWithoutInvocation
  refine Ensures.bind (P := R r) ?_ fun r' hr' => ?_
  · refine hR.after_rows (appendAgentEvent_routine hR ?_) rfl rfl rfl
      (r.updateStep_still _ fun _ => rfl)
    simp [stateChangedType]
  · exact (transitionRun_routine hR _ _ _ _ _ rfl).mono fun _ h => hR.trans hr' h

theorem failActiveStep_routine (step : AgentStep) (code : String) :
    Ensures (failActiveStep r step code now) (R r) := by
  unfold failActiveStep
  exact hR.after_rows (transitionRun_routine hR _ _ _ _ _ rfl) rfl rfl rfl
    (r.updateStep_still _ fun _ => rfl)

theorem expireExecution_routine : Ensures (expireExecution r now) (R r) := by
  unfold expireExecution
  exact hR.after_rows (transitionRun_routine hR _ _ _ _ _ rfl) rfl rfl rfl
    (r.cancelOpen_still now)

theorem startInvocation_routine (step : AgentStep) (i : ToolInvocation) :
    Ensures (startInvocation r step i now) (R r) := by
  unfold startInvocation reserveToolInvocation
  split
  · exact Ensures.bind (P := fun _ => False) (.error _) fun _ h => h.elim
  · refine Ensures.bind (Ensures.ok_iff.mpr rfl) fun r' hr' => ?_
    subst hr'
    refine hR.after_rows (appendAgentEvent_routine hR ?_) rfl rfl rfl
      (r.updateStep_still _ fun _ => rfl)
    simp [stateChangedType]

theorem reserveAttempt_routine (step : AgentStep) (name : String) (version attempt : Nat)
    (available : Bool) (id : Uuid) :
    Ensures (reserveAttempt build r step name version attempt available now id)
      fun p => R r p.2 := by
  unfold reserveAttempt
  split
  · exact .answer (failWithoutInvocation_routine hR _ _)
  · exact .answer (startInvocation_routine hR _ _)

theorem reserveNext_routine (allowed : Option (List ToolIdentity)) (available : Bool)
    (id : Uuid) :
    Ensures (reserveNext build r allowed available now id) fun p => R r p.2 := by
  unfold reserveNext
  refine .ite (fun _ => Ensures.ok_iff.mpr (hR.refl r)) fun _ => ?_
  refine .ite (fun _ => .error _) fun _ => .ite (fun _ => ?_) fun _ => ?_
  · exact .answer (expireExecution_routine hR)
  split
  · exact Ensures.ok_iff.mpr (hR.refl r)
  · refine .ite (fun _ => ?_) fun _ => .ite (fun _ => .error _) fun _ => ?_
    · exact .answer (failWithoutInvocation_routine hR _ _)
    split
    · refine .ite (fun _ => ?_) fun _ => ?_
      · exact .answer (failWithoutInvocation_routine hR _ _)
      · refine .bind_any fun attempt _ => ?_
        split
        · exact .answer (failActiveStep_routine hR _ _)
        · exact reserveAttempt_routine hR _ _ _ _ _ _
    · exact .error _

theorem recordResult_routine (step : AgentStep) (i : ToolInvocation)
    (output : Option ToolOutput) (code : Option String)
    (evidence : Option (List EvidenceReference)) :
    Ensures (recordResult build r step i output code evidence now)
      fun p => R r p.2 := by
  unfold recordResult
  simp only []
  refine .ite (fun _ => .error _) fun _ => ?_
  refine Ensures.bind (P := R r) ?_ fun r' hr' => ?_
  · refine hR.after_rows (appendAgentEvent_routine hR ?_) rfl rfl rfl
      (r.updateStep_still _ fun _ => rfl)
    simp [finishedEvent, stateChangedType]
  · refine .ite (fun _ => ?_) fun _ => Ensures.pure_iff.mpr hr'
    exact (transitionRun_routine hR _ _ _ _ _ rfl).bind fun _ h =>
      Ensures.pure_iff.mpr (hR.trans hr' h)

theorem finalizeInvocation_routine (stepId invocationId : Uuid)
    (output : Option ToolOutput) (code : Option String)
    (evidence : Option (List EvidenceReference)) :
    Ensures (finalizeInvocation build r stepId invocationId output code evidence now)
      fun p => R r p.2 := by
  unfold finalizeInvocation
  split
  · refine .ite (fun _ => Ensures.ok_iff.mpr (hR.refl r)) fun _ => ?_
    refine .ite (fun _ => Ensures.ok_iff.mpr (hR.rows rfl rfl rfl rfl)) fun _ => ?_
    refine .ite (fun _ => ?_) fun _ => recordResult_routine hR _ _ _ _ _
    refine Ensures.bind (P := R r) ?_ fun _ h => Ensures.pure_iff.mpr h
    exact hR.after_rows (expireExecution_routine hR) rfl rfl rfl rfl
  · exact Ensures.ok_iff.mpr (hR.refl r)

theorem completeRun_routine (brief watch : Bool) :
    Ensures (completeRun r brief watch now) (R r) := by
  unfold completeRun
  refine .ite (fun _ => Ensures.ok_iff.mpr (hR.refl r)) fun _ => ?_
  refine .ite (fun _ => Ensures.ok_iff.mpr (hR.refl r)) fun _ => ?_
  split
  · exact transitionRun_routine hR _ _ _ _ _ rfl
  · exact transitionRun_routine hR _ _ _ _ _ rfl

/-! ## Recovery -/

theorem discardStale_routine (i : ToolInvocation) :
    Ensures (discardStale r i now) (R r) := by
  unfold discardStale
  refine hR.after_rows (appendAgentEvent_routine hR ?_) rfl rfl rfl rfl
  simp [stateChangedType]

theorem recoverActive_routine (i : ToolInvocation) :
    Ensures (recoverActive build r i now) fun p => R r p.2 := by
  unfold recoverActive
  simp only []
  refine .ite (fun _ => Ensures.ok_iff.mpr (hR.refl r)) fun _ => .ite (fun _ => ?_) fun _ => ?_
  · refine (discardStale_routine hR i).bind fun r' hr' => ?_
    split
    · refine .ite (fun _ => ?_) fun _ => Ensures.pure_iff.mpr hr'
      exact (failActiveStep_routine hR _ _).bind fun _ h =>
        Ensures.pure_iff.mpr (hR.trans hr' h)
    · exact .error _
  · split
    · exact .answer (transitionRun_routine hR _ _ _ _ _ rfl)
    · exact .answer (failActiveStep_routine hR _ _)

theorem recoverIdle_routine : Ensures (recoverIdle r now) fun p => R r p.2 := by
  unfold recoverIdle
  simp only []
  refine .ite (fun _ => ?_) fun _ => .ite (fun _ => ?_) fun _ => ?_
  · refine .ite (fun _ => Ensures.ok_iff.mpr (hR.refl r)) fun _ => ?_
    exact .answer (transitionRun_routine hR _ _ _ _ _ rfl)
  · split
    · exact .error _
    · exact .answer (failActiveStep_routine hR _ _)
  · exact Ensures.ok_iff.mpr (hR.refl r)

theorem prepareOne_routine : Ensures (prepareOne build r now) fun p => R r p.2 := by
  unfold prepareOne
  refine .ite (fun _ => .error _) fun _ => ?_
  refine .ite (fun _ => Ensures.ok_iff.mpr (hR.refl r)) fun _ => .ite (fun _ => ?_) fun _ => ?_
  · exact .answer (transitionRun_routine hR _ _ _ _ _ rfl)
  refine .ite (fun _ => ?_) fun _ => ?_
  · refine .ite (fun _ => ?_) fun _ => Ensures.ok_iff.mpr (hR.refl r)
    exact .answer (transitionRun_routine hR _ _ _ _ _ rfl)
  refine .ite (fun _ => Ensures.ok_iff.mpr (hR.refl r)) fun _ => .ite (fun _ => ?_) fun _ => ?_
  · exact .answer (expireExecution_routine hR)
  split
  · exact recoverIdle_routine hR
  · exact recoverActive_routine hR _
  · exact .answer (transitionRun_routine hR _ _ _ _ _ rfl)

/-! ## Synthesis -/

theorem claimSynthesis_routine : Ensures (claimSynthesis r now) fun p => R r p.2 := by
  unfold claimSynthesis
  refine .ite (fun _ => Ensures.ok_iff.mpr (hR.refl r)) fun _ => ?_
  refine .ite (fun _ => Ensures.ok_iff.mpr (hR.refl r)) fun _ => ?_
  exact .answer (transitionRun_routine hR _ _ _ _ _ rfl)

theorem failResult_routine (code : String) :
    Ensures (failResult r code now) (R r) := by
  unfold failResult
  exact .ite (fun _ => Ensures.ok_iff.mpr (hR.refl r)) fun _ => transitionRun_routine hR _ _ _ _ _ rfl

theorem beginDailyBrief_routine (count : Nat) :
    Ensures (beginDailyBrief r count now) fun p => R r p.2 := by
  unfold beginDailyBrief
  refine .ite (fun _ => ?_) fun _ => Ensures.ok_iff.mpr (hR.refl r)
  exact .answer (failResult_routine hR _)

theorem beginProjectWatch_routine (valid : Bool) :
    Ensures (beginProjectWatch r valid now) fun p => R r p.2 := by
  unfold beginProjectWatch
  refine .ite (fun _ => ?_) fun _ => Ensures.ok_iff.mpr (hR.refl r)
  exact .answer (failResult_routine hR _)

theorem persistResearchResult_routine (casefold : String → String)
    (current : String → Uuid → Option String) (evidence : List CollectedEvidence)
    (q : ResearchProviderResult) :
    Ensures (persistResearchResult casefold current r evidence q now)
      fun p => R r p.2 := by
  unfold persistResearchResult
  refine .ite (fun _ => .error _) fun _ => .ite (fun _ => ?_) fun _ => ?_
  · exact .answer (transitionRun_routine hR _ _ _ _ _ rfl)
  refine .ite (fun _ => .error _) fun _ => .bind_any fun value _ => ?_
  exact (appendAgentEvent_routine hR (by simp [resultEvent, stateChangedType])).bind
    fun _ h => Ensures.pure_iff.mpr h

theorem persistDailyBriefResult_routine (casefold : String → String)
    (current : String → Uuid → Option String) (eventsCurrent : Bool)
    (evidence : List CollectedEvidence) (events : List Citation)
    (q : ResearchProviderResult) :
    Ensures (persistDailyBriefResult casefold current eventsCurrent r evidence events q now)
      (R r) := by
  unfold persistDailyBriefResult
  refine .ite (fun _ => .error _) fun _ => .ite (fun _ => .error _) fun _ => ?_
  exact .bind_any fun value _ =>
    appendAgentEvent_routine hR (by simp [resultEvent, stateChangedType])

theorem persistProjectWatchResult_routine (changesCurrent : Bool) (window : ChangeWindow)
    (evidence : List Citation) (q : ProjectWatchProviderResult) :
    Ensures (persistProjectWatchResult changesCurrent r window evidence q now)
      (R r) := by
  unfold persistProjectWatchResult
  refine .ite (fun _ => .error _) fun _ => .ite (fun _ => .error _) fun _ => ?_
  exact .bind_any fun value _ =>
    appendAgentEvent_routine hR (by simp [resultEvent, stateChangedType])

end Routine

section Operations

variable {r : RunRecord} {now : Instant} {build : Build}

/-! ## Planning -/

theorem transitionRun_plain (r : RunRecord) (expectedState : AgentRunState)
    (expectedRevision : Nat) (newState : AgentRunState) (now : Instant)
    (code : Option String) :
    Ensures (transitionRun r expectedState expectedRevision newState now code)
      (Plain r) := by
  intro r' h
  obtain ⟨-, hlegal, -, -, rfl⟩ := transitionRun_ok h
  exact ⟨.single (.moved newState now code hlegal rfl rfl), rfl⟩

theorem claimPlanning_plain (expectedRevision : Nat)
    (allowed : Option (List ToolIdentity)) :
    Ensures (claimPlanning build r expectedRevision allowed now)
      fun p => Plain r p.2 := by
  unfold claimPlanning
  refine .ite (fun _ => .error _) fun _ => .ite (fun _ => ?_) fun _ => ?_
  · exact .ite (fun _ => Ensures.ok_iff.mpr (.refl r)) fun _ => .error _
  · refine .ite (fun _ => .error _) fun _ => .ite (fun _ => .error _) fun _ => ?_
    refine .ite (fun _ => .error _) fun _ => .ite (fun _ => .error _) fun _ => ?_
    exact .answer (transitionRun_plain _ _ _ _ _ _)

theorem insertAgentStep_plain (s : AgentStep) :
    Ensures (insertAgentStep r s) (Plain r) := by
  unfold insertAgentStep
  split
  · exact .error _
  · exact Ensures.ok_iff.mpr (.rows rfl rfl rfl)

theorem finalizePlan_plain (claim : PlanningClaim) (rows : List (ValidatedStep × Uuid)) :
    Ensures (finalizePlan r claim rows now) (Plain r) := by
  unfold finalizePlan
  refine .ite (fun _ => .error _) fun _ => ?_
  refine Ensures.bind (P := Plain r) ?_ fun r' hr' => ?_
  · exact .foldlM (fun b _ hb => (insertAgentStep_plain _).mono fun _ h => hb.trans h)
      (.refl r)
  · exact (transitionRun_plain _ _ _ _ _ _).mono fun _ h => hr'.trans h

/-! ## Approvals -/

/-- What a new approval captured of its target. -/
def Captured (build : Build) (memories : Uuid → Option Memory) (scope : Option Uuid)
    (a : ApprovalRequest) : Prop :=
  a.status = .pending ∧ ∃ id m, memories id = some m ∧ a.targetPublicId = m.id ∧
    m.projectId = scope ∧ a.targetVersion = targetVersion build m

theorem storeProposal_files {P : ApprovalRequest → Prop} {a : ApprovalRequest} (ha : P a) :
    Ensures (storeProposal build r a) (Files P r) := by
  unfold storeProposal insertApprovalRequest
  cases hadmitted : r.admitsApproval a with
  | error e => exact Ensures.bind (P := fun _ => False) (.error _) fun _ h => h.elim
  | ok _ =>
      refine Ensures.bind (Ensures.ok_iff.mpr rfl) fun r₁ hr₁ => ?_
      subst hr₁
      have htype : "approval_requested" ≠ stateChangedType := by decide
      refine (appendAgentEvent_routine .plain htype).mono fun r' h => ?_
      refine ⟨h.evolves.of_rows rfl rfl, ⟨[a], h.approvals, ?_⟩, fun hids => ?_⟩
      · intro b hb
        rw [List.mem_singleton.mp hb]
        exact ha
      · rw [h.approvals, List.map_append, List.map_singleton, List.nodup_append]
        refine ⟨hids, List.nodup_singleton _, ?_⟩
        rintro id hid id' hid' rfl
        rw [List.mem_singleton] at hid'
        subst hid'
        obtain ⟨b, hb, hsame⟩ := List.mem_map.mp hid
        unfold RunRecord.admitsApproval at hadmitted
        simp only [] at hadmitted
        split at hadmitted
        · cases hadmitted
        split at hadmitted
        · cases hadmitted
        split at hadmitted
        · cases hadmitted
        split at hadmitted
        · cases hadmitted
        · next htwin =>
            exact htwin (List.any_eq_true.mpr ⟨b, hb, by simp [hsame]⟩)

theorem createProposal_files (parse : PyValue → Option MemoryUpdate)
    (memories : Uuid → Option Memory) (q : ProposalRequest) (aid eid : Uuid) :
    Ensures (createProposal build parse memories r q now aid eid)
      fun p => Files (Captured build memories r.run.projectId) r p.2 := by
  unfold createProposal
  refine .ite (fun _ => .error _) fun _ => .ite (fun _ => .error _) fun _ => ?_
  refine .ite (fun _ => .error _) fun _ => .ite (fun _ => .error _) fun _ => ?_
  split
  · exact .error _
  · split
    · exact .error _
    · next target htarget =>
        refine .ite (fun _ => .error _) fun hscope => .ite (fun _ => .error _) fun _ => ?_
        refine .bind_any fun update _ => ?_
        simp only []
        split
        · exact Ensures.pure_iff.mpr (Plain.refl r).files
        · refine .answer (storeProposal_files ⟨rfl, q.targetId, target, htarget, rfl, ?_, rfl⟩)
          exact not_not.mp hscope

theorem createCuratorProposal_files (parse : PyValue → Option MemoryUpdate)
    (memories : Uuid → Option Memory) (ordinal : Nat) (action : String) (target : Uuid)
    (version : String) (input : PyValue) (evidence : List EvidenceReference)
    (aid eid : Uuid) :
    Ensures (createCuratorProposal build parse memories r ordinal action target version
      input evidence now aid eid)
      fun p => Files (Captured build memories r.run.projectId) r p.2 := by
  unfold createCuratorProposal
  exact .ite (fun _ => .error _) fun _ => createProposal_files _ _ _ _ _

theorem reviewProposal_evolves (memories : Uuid → Option Memory) (id : Uuid)
    (decision : Decision) :
    Ensures (reviewProposal build memories r id decision now) fun p => Evolves r p.2 := by
  unfold reviewProposal
  split
  · exact .error _
  · refine .ite (fun _ => Ensures.ok_iff.mpr (.refl r)) fun _ => ?_
    refine .ite (fun _ => .error _) fun _ => ?_
    simp only []
    refine Ensures.bind (P := Evolves r) ?_ fun _ h => Ensures.pure_iff.mpr h
    have hcode : ∀ s : ApprovalStatus, "approval_" ++ s.value ≠ stateChangedType := by
      intro s
      cases s <;> decide
    exact (appendAgentEvent_routine .plain (hcode _)).mono fun _ h => h.evolves.of_rows rfl rfl

theorem propose_files (parse : PyValue → Option MemoryUpdate)
    (memories : Uuid → Option Memory) (casefold : String → String)
    (evidence : List CollectedEvidence) (s : Proposing) (p : CuratorProposal × Uuid × Uuid) :
    Ensures (propose build parse memories casefold evidence now s p)
      fun s' => Files (Captured build memories s.record.run.projectId) s.record s'.record := by
  unfold propose
  refine .bind_any fun found _ => ?_
  obtain ⟨target, refs⟩ := found
  simp only []
  split
  · exact .error _
  · refine Ensures.bind
      (P := fun x => Files (Captured build memories s.record.run.projectId) s.record x.2)
      ?_ fun x hx => ?_
    · intro x h
      unfold Except.refuse at h
      cases hc : createCuratorProposal build parse memories s.record _ _ _ _ _ _ _ _ _ with
      | error e => rw [hc] at h; cases h
      | ok y =>
          rw [hc] at h
          cases h
          exact createCuratorProposal_files _ _ _ _ _ _ _ _ _ _ _ hc
    · exact .ite (fun _ => .error _) fun _ => Ensures.pure_iff.mpr hx

theorem persistCuratorResult_files (parse : PyValue → Option MemoryUpdate)
    (memories : Uuid → Option Memory) (casefold : String → String)
    (current : String → Uuid → Option String) (evidence : List CollectedEvidence)
    (q : CuratorProviderResult) (uuids : Nat → Uuid × Uuid) :
    Ensures (persistCuratorResult build parse memories casefold current r evidence q
      uuids now) fun p => Files (Captured build memories r.run.projectId) r p.2 := by
  unfold persistCuratorResult
  refine .ite (fun _ => .error _) fun _ => .ite (fun _ => ?_) fun _ => ?_
  · exact .answer ((transitionRun_plain _ _ _ _ _ _).mono fun _ h => h.files)
  refine .ite (fun _ => .error _) fun _ => .bind_any fun findings _ => ?_
  refine Ensures.bind
    (P := fun s => Files (Captured build memories r.run.projectId) r s.record)
    ?_ fun s hs => ?_
  · refine .foldlM (fun b p hb => ?_) (Plain.refl r).files
    refine (propose_files _ _ _ _ _ _).mono fun s' h => hb.trans ?_
    rw [← Evolves.projectId_eq hb.evolves]
    exact h
  · simp only []
    refine .ite (fun _ => .error _) fun _ => ?_
    exact (appendAgentEvent_routine .plain (by simp [resultEvent, stateChangedType])).bind
      fun _ h => Ensures.pure_iff.mpr (hs.trans h.files)

end Operations

end SecondBrain
