import SecondBrain.AgentRuns.Recovery
import SecondBrain.Agents.Curator
import SecondBrain.Agents.Scheduled

/-!
# What the operations do to the steps and invocations of a run

A result is bound to the rows of the steps, so it has to be known what each
operation can do to them. An operation ends the run, or leaves the steps and
invocations alone, or prepares a run that has not started, or makes one of the
four changes of a run at work: it starts an invocation of an open step, settles
one that was called, gives a stale one up, or stores a result. `Work` says
which, for every operation but the two whose effect depends on their caller.

The events that count are the results and the reconciliations, by which an
executor whose invocation was given up is recognised.
-/

namespace SecondBrain

open Lib

def resultTypes : List String :=
  [researchDuty.eventType, curatorDuty.eventType, dailyBriefDuty.eventType,
    projectWatchDuty.eventType]

def reconciledType : String := "agent_recovery.reconciled"

def AgentEvent.isResult (e : AgentEvent) : Bool := resultTypes.contains e.eventType

/-- The type of a result or a reconciliation. -/
def isMark (eventType : String) : Bool :=
  resultTypes.contains eventType || eventType == reconciledType

def RunRecord.results (r : RunRecord) : Nat := r.events.countP (·.isResult)

/-- Recovery gave the invocation up. -/
def RunRecord.reconciled (r : RunRecord) (id : Uuid) : Bool :=
  r.events.any fun e => e.eventType == reconciledType && e.invocationId == some id

/-- Nothing that counts was recorded. -/
structure Unmarked (r r' : RunRecord) : Prop where
  results : r'.results = r.results
  reconciled : ∀ id, r'.reconciled id = r.reconciled id

/-- Beyond that, the steps and the invocations are as they were. -/
structure Kept (r r' : RunRecord) : Prop extends Unmarked r r' where
  steps : r'.steps = r.steps
  invocations : r'.invocations = r.invocations

namespace Unmarked

variable {r r' r'' : RunRecord}

theorem of_events (h : r'.events = r.events) : Unmarked r r' :=
  ⟨by rw [RunRecord.results, h]; rfl, fun id => by rw [RunRecord.reconciled, h]; rfl⟩

theorem trans (h : Unmarked r r') (h' : Unmarked r' r'') : Unmarked r r'' :=
  ⟨h'.results.trans h.results, fun id => (h'.reconciled id).trans (h.reconciled id)⟩

theorem append {e : AgentEvent} {k : Nat} (he : isMark e.eventType = false)
    (h : r'.events = r.events ++ [{ e with sequence := k }]) : Unmarked r r' := by
  obtain ⟨hresult, htype⟩ := Bool.or_eq_false_iff.mp he
  refine ⟨?_, fun id => ?_⟩
  · have hone : ({ e with sequence := k } : AgentEvent).isResult = false := hresult
    rw [RunRecord.results, h, List.countP_append, List.countP_singleton, hone]
    rfl
  · rw [RunRecord.reconciled, h, List.any_append]
    simp only [List.any_cons, htype, Bool.false_and, List.any_nil, Bool.or_false]
    rfl

end Unmarked

namespace Kept

variable {r r' r'' : RunRecord}

theorem refl (r : RunRecord) : Kept r r := ⟨.of_events rfl, rfl, rfl⟩

theorem trans (h : Kept r r') (h' : Kept r' r'') : Kept r r'' :=
  ⟨h.toUnmarked.trans h'.toUnmarked, h'.steps.trans h.steps,
    h'.invocations.trans h.invocations⟩

end Kept

inductive Work : Option Uuid → RunRecord → RunRecord → Prop where
  | finished {k : Option Uuid} {r r' : RunRecord} :
      r'.run.state.isTerminal = true → r'.results = r.results → Work k r r'
  | kept {k : Option Uuid} {r r' : RunRecord} :
      r'.run.state = r.run.state → Kept r r' → Work k r r'
  /-- A run is planned. -/
  | early {k : Option Uuid} {r r' : RunRecord} :
      r.run.state.isEarly = true → r'.run.state.isEarly = true → Unmarked r r' →
      r'.invocations = r.invocations →
      ((r.steps.map (·.id)).Nodup → (r'.steps.map (·.id)).Nodup) → Work k r r'
  | claimed {k : Option Uuid} {r r' : RunRecord} :
      r.run.state = .ready → r'.run.state = .running → Kept r r' →
      (∀ s ∈ r.steps, s.status = .pending) → Work k r r'
  /-- An invocation of an open step starts; nobody else has one going. -/
  | reserved {k : Option Uuid} {r r' : RunRecord} {step : AgentStep} {i : ToolInvocation}
      {f : AgentStep → AgentStep} :
      r.run.state = .running → r'.run.state = .running → Unmarked r r' →
      step ∈ r.steps → step.status.isOpen = true →
      (step.status = .running →
        ∀ j ∈ r.invocations, j.stepId = step.id → j.status.isActive = false) →
      i.stepId = step.id → i.status = .running → (∀ j ∈ r.invocations, j.id ≠ i.id) →
      (∀ s, (f s).id = s.id ∧ (f s).status = .running) →
      r'.steps = (r.updateStep step.id f).steps → r'.invocations = r.invocations ++ [i] →
      Work k r r'
  /-- The invocation `i` comes back; its step has succeeded or may be retried. -/
  | settled {r r' : RunRecord} {i : ToolInvocation} {f : AgentStep → AgentStep}
      {g : ToolInvocation → ToolInvocation} {status : StepStatus} :
      r.run.state = .running → r'.run.state = .running → Unmarked r r' →
      i ∈ r.invocations → i.status = .running →
      (status = .running ∨ status = .succeeded) →
      (∀ s, (f s).id = s.id ∧ (f s).status = status) →
      ((g i).id = i.id ∧ (g i).stepId = i.stepId ∧ (g i).status.isActive = false) →
      r'.steps = (r.updateStep i.stepId f).steps →
      r'.invocations = (r.updateInvocation i.id g).invocations → Work (some i.id) r r'
  /-- The active invocation `i` is given up, and an event says so. -/
  | givenUp {k : Option Uuid} {r r' : RunRecord} {i : ToolInvocation}
      {g : ToolInvocation → ToolInvocation} :
      r.run.state = .running → r'.run.state = .running → i ∈ r.invocations →
      i.status.isActive = true →
      ((g i).id = i.id ∧ (g i).stepId = i.stepId ∧ (g i).status.isActive = false) →
      r'.steps = r.steps → r'.invocations = (r.updateInvocation i.id g).invocations →
      r'.results = r.results →
      (∀ id, r'.reconciled id = (r.reconciled id || i.id == id)) → Work k r r'

/-- A result is stored, or the run expires instead. -/
inductive Stores (r r' : RunRecord) : Prop where
  | finished : r'.run.state.isTerminal = true → r'.results = r.results → Stores r r'
  | stored : r.run.state = .running → r'.run.state = .running →
      r'.results = r.results + 1 → (∀ id, r'.reconciled id = r.reconciled id) →
      r'.steps = r.steps → r'.invocations = r.invocations → Stores r r'

theorem Work.results {k : Option Uuid} {r r' : RunRecord} (h : Work k r r') :
    r'.results = r.results := by
  cases h with
  | finished _ h => exact h
  | kept _ h | claimed _ _ h => exact h.results
  | early _ _ h | reserved _ _ h | settled _ _ h => exact h.results
  | givenUp _ _ _ _ _ _ _ h => exact h

section Operations

variable {k : Option Uuid} {r : RunRecord} {now : Instant} {build : Build}

theorem appendAgentEvent_kept {e : AgentEvent} (he : isMark e.eventType = false) :
    Ensures (appendAgentEvent r e) fun r' => r'.run = r.run ∧ Kept r r' := by
  intro r' h
  obtain ⟨-, rfl⟩ := appendAgentEvent_ok h
  exact ⟨rfl, .append he rfl, rfl, rfl⟩

theorem transitionRun_kept (r : RunRecord) (expectedState : AgentRunState)
    (expectedRevision : Nat) (newState : AgentRunState) (now : Instant)
    (code : Option String) :
    Ensures (transitionRun r expectedState expectedRevision newState now code)
      fun r' => r'.run.state = newState ∧ Kept r r' := by
  intro r' h
  obtain ⟨-, -, -, -, rfl⟩ := transitionRun_ok h
  have htype : isMark "agent_run.state_changed" = false := by decide
  exact ⟨rfl, .append htype rfl, rfl, rfl⟩

/-- Whatever was done before it, a move into a terminal state ends the run. -/
theorem transitionRun_over {r₀ r : RunRecord} {expectedState newState : AgentRunState}
    {expectedRevision : Nat} {code : Option String} (hresults : r.results = r₀.results)
    (hterm : newState.isTerminal = true) :
    Ensures (transitionRun r expectedState expectedRevision newState now code)
      fun r' => r'.run.state.isTerminal = true ∧ r'.results = r₀.results := by
  refine (transitionRun_kept r expectedState expectedRevision newState now code).mono ?_
  rintro r' ⟨hstate, hkept⟩
  exact ⟨hstate ▸ hterm, hkept.results.trans hresults⟩

theorem Work.refl (k : Option Uuid) (r : RunRecord) : Work k r r := .kept rfl (.refl r)

theorem Work.of_over {k : Option Uuid} {r r' : RunRecord}
    (h : r'.run.state.isTerminal = true ∧ r'.results = r.results) : Work k r r' :=
  .finished h.1 h.2

/-! ## Cancellation and planning -/

theorem cancelInvocation_results (i : ToolInvocation) :
    Ensures (cancelInvocation now r i) fun r' => r'.results = r.results := by
  unfold cancelInvocation
  refine .ite (fun _ => ?_) fun _ => Ensures.ok_iff.mpr rfl
  have htype : isMark "tool_invocation.discarded" = false := by decide
  exact (appendAgentEvent_kept htype).mono fun r' h => h.2.results

theorem cancelRun_work (expectedRevision : Nat) :
    Ensures (cancelRun r expectedRevision now) (Work k r) := by
  unfold cancelRun
  refine .ite (fun _ => Ensures.ok_iff.mpr (.refl k r)) fun _ => ?_
  refine .ite (fun _ => .error _) fun _ => .ite (fun _ => .error _) fun _ => ?_
  have hloop : Ensures (r.listStepInvocations.foldlM (cancelInvocation now) r)
      fun r' => r'.results = r.results :=
    .foldlM (fun b i hb => (cancelInvocation_results i).mono fun _ h => h.trans hb) rfl
  refine hloop.bind fun r' hr' => ?_
  refine Ensures.mono (transitionRun_over hr' ?_) fun _ => Work.of_over
  rfl

theorem claimPlanning_work (expectedRevision : Nat)
    (allowed : Option (List ToolIdentity)) :
    Ensures (claimPlanning build r expectedRevision allowed now)
      fun p => Work k r p.2 := by
  unfold claimPlanning
  refine .ite (fun _ => .error _) fun _ => .ite (fun _ => ?_) fun _ => ?_
  · exact .ite (fun _ => Ensures.ok_iff.mpr (.refl k r)) fun _ => .error _
  · refine .ite (fun _ => .error _) fun _ => .ite (fun _ => .error _) fun _ => ?_
    refine .ite (fun _ => .error _) fun _ => .ite (fun _ => .error _) fun hcreated => ?_
    refine (transitionRun_kept r .created expectedRevision .planning now none).bind ?_
    rintro r' ⟨hstate, hkept⟩
    refine Ensures.pure_iff.mpr (.early ?_ ?_ hkept.toUnmarked hkept.invocations ?_)
    · rw [not_not.mp hcreated]; rfl
    · rw [hstate]; rfl
    · rw [hkept.steps]; exact id

/-- A step whose identifier is taken is refused. -/
theorem insertAgentStep_early (s : AgentStep) :
    Ensures (insertAgentStep r s) fun r' =>
      r'.events = r.events ∧ r'.invocations = r.invocations ∧
        ((r.steps.map (·.id)).Nodup → (r'.steps.map (·.id)).Nodup) := by
  unfold insertAgentStep
  cases hadmitted : r.admitsStep s with
  | error e => exact .error _
  | ok _ =>
      refine Ensures.ok_iff.mpr ⟨rfl, rfl, fun hnodup => ?_⟩
      have hfree : r.steps.any (fun t => t.ordinal == s.ordinal || t.id == s.id) = false := by
        unfold RunRecord.admitsStep at hadmitted
        simp only [] at hadmitted
        split at hadmitted
        · cases hadmitted
        · split at hadmitted
          · cases hadmitted
          · split at hadmitted
            · cases hadmitted
            · next h => simpa using h
      rw [List.map_append, List.nodup_append]
      refine ⟨hnodup, List.nodup_singleton _, ?_⟩
      intro a ha b hb
      obtain ⟨t, ht, rfl⟩ := List.mem_map.mp ha
      rw [List.map_singleton, List.mem_singleton] at hb
      rw [hb]
      intro hsame
      have := List.any_eq_false.mp hfree t ht
      simp [hsame] at this

theorem finalizePlan_work (claim : PlanningClaim) (rows : List (ValidatedStep × Uuid)) :
    Ensures (finalizePlan r claim rows now) (Work k r) := by
  unfold finalizePlan
  refine .ite (fun _ => .error _) fun hstate => ?_
  rw [not_or, not_not] at hstate
  let P : RunRecord → Prop := fun r' =>
    r'.events = r.events ∧ r'.invocations = r.invocations ∧
      ((r.steps.map (·.id)).Nodup → (r'.steps.map (·.id)).Nodup)
  refine Ensures.bind (P := P) ?_ fun r' hr' => ?_
  · refine .foldlM (fun b row hb => ?_) ⟨rfl, rfl, id⟩
    refine (insertAgentStep_early _).mono fun b' hb' => ?_
    exact ⟨hb'.1.trans hb.1, hb'.2.1.trans hb.2.1, hb'.2.2 ∘ hb.2.2⟩
  · refine (transitionRun_kept r' .planning claim.planningRevision .ready now none).mono ?_
    rintro r'' ⟨hready, hkept⟩
    refine .early ?_ ?_ ((Unmarked.of_events hr'.1).trans hkept.toUnmarked) ?_ ?_
    · rw [hstate.1]; rfl
    · rw [hready]; rfl
    · rw [hkept.invocations, hr'.2.1]
    · rw [hkept.steps]; exact hr'.2.2

theorem finalizeFailure_work (claim : PlanningClaim) (code : String) :
    Ensures (finalizeFailure r claim code now) fun p => Work k r p.2 := by
  unfold finalizeFailure
  refine .ite (fun _ => Ensures.ok_iff.mpr (.refl k r)) fun _ => ?_
  exact .answer ((transitionRun_over rfl rfl).mono fun _ => .of_over)

/-! ## Approvals -/

theorem storeProposal_kept (a : ApprovalRequest) :
    Ensures (storeProposal build r a) fun r' => r'.run = r.run ∧ Kept r r' := by
  unfold storeProposal insertApprovalRequest
  split
  · exact Ensures.bind (P := fun _ => False) (.error _) fun _ h => h.elim
  · refine Ensures.bind (Ensures.ok_iff.mpr rfl) fun r' hr' => ?_
    subst hr'
    have htype : isMark "approval_requested" = false := by decide
    refine (appendAgentEvent_kept htype).mono fun r' h => ⟨h.1, ?_⟩
    exact ⟨⟨h.2.results, h.2.reconciled⟩, h.2.steps, h.2.invocations⟩

theorem createProposal_kept (parse : PyValue → Option MemoryUpdate)
    (memories : Uuid → Option Memory) (q : ProposalRequest) (aid eid : Uuid) :
    Ensures (createProposal build parse memories r q now aid eid)
      fun p => p.2.run = r.run ∧ Kept r p.2 := by
  unfold createProposal
  refine .ite (fun _ => .error _) fun _ => .ite (fun _ => .error _) fun _ => ?_
  refine .ite (fun _ => .error _) fun _ => .ite (fun _ => .error _) fun _ => ?_
  split
  · exact .error _
  · split
    · exact .error _
    · refine .ite (fun _ => .error _) fun _ => .ite (fun _ => .error _) fun _ => ?_
      refine .bind_any fun update _ => ?_
      simp only []
      split
      · exact Ensures.pure_iff.mpr ⟨rfl, .refl r⟩
      · exact .answer (storeProposal_kept _)

theorem reviewProposal_kept (memories : Uuid → Option Memory) (id : Uuid)
    (decision : Decision) :
    Ensures (reviewProposal build memories r id decision now)
      fun p => p.2.run = r.run ∧ Kept r p.2 := by
  unfold reviewProposal
  split
  · exact .error _
  · refine .ite (fun _ => Ensures.ok_iff.mpr ⟨rfl, .refl r⟩) fun _ => ?_
    refine .ite (fun _ => .error _) fun _ => ?_
    simp only []
    have htype : ∀ s : ApprovalStatus, isMark ("approval_" ++ s.value) = false := by
      intro s
      cases s <;> decide
    refine (appendAgentEvent_kept (htype _)).bind fun r' h => ?_
    exact Ensures.pure_iff.mpr
      ⟨h.1, ⟨⟨h.2.results, h.2.reconciled⟩, h.2.steps, h.2.invocations⟩⟩

/-! ## Execution -/

theorem claimExecution_work (expectedRevision : Nat)
    (allowed : Option (List ToolIdentity)) :
    Ensures (claimExecution build r expectedRevision allowed now) fun p =>
      Work k r p.2 ∧ ∀ claim, p.1 = some claim →
        claim.runId = r.run.id ∧ r.run.state = .ready ∧ p.2.run.state = .running := by
  unfold claimExecution
  refine .ite (fun _ => .error _) fun _ => .ite (fun _ => ?_) fun _ => ?_
  · refine .ite (fun _ => Ensures.ok_iff.mpr ⟨.refl k r, ?_⟩) fun _ => .error _
    exact fun _ h => nomatch h
  refine .ite (fun _ => ?_) fun _ => ?_
  · exact .ite (fun _ => .error _) fun _ => .error _
  refine .ite (fun _ => .error _) fun _ => .ite (fun _ => .error _) fun hready => ?_
  refine .ite (fun _ => .error _) fun _ => .ite (fun _ => .error _) fun _ => ?_
  refine .ite (fun _ => ?_) fun _ => ?_
  · refine (transitionRun_over rfl rfl).bind fun r' h => Ensures.pure_iff.mpr ⟨.of_over h, ?_⟩
    exact fun _ h => nomatch h
  · simp only []
    refine .ite (fun _ => .error _) fun hplan => ?_
    refine (transitionRun_kept r .ready r.run.revision .running now none).bind ?_
    rintro r' ⟨hstate, hkept⟩
    have hready := not_not.mp hready
    refine Ensures.pure_iff.mpr ⟨.claimed hready hstate hkept ?_, ?_⟩
    · intro s hs
      by_contra hpending
      refine hplan (.inr (.inr (.inr (.inl ?_))))
      rw [List.any_eq_true]
      exact ⟨s, RunRecord.mem_listAgentSteps.mpr hs, by simpa using hpending⟩
    · rintro claim h
      cases h
      exact ⟨rfl, hready, hstate⟩

/-- The run is over and no result was added. -/
def EndsFrom (r r' : RunRecord) : Prop :=
  r'.run.state.isTerminal = true ∧ r'.results = r.results

theorem failWithoutInvocation_ends (step : AgentStep) (code : String) :
    Ensures (failWithoutInvocation r step code now) (EndsFrom r) := by
  unfold failWithoutInvocation
  have htype : isMark "agent_step.failed" = false := by decide
  refine (appendAgentEvent_kept htype).bind fun r' h => ?_
  exact transitionRun_over h.2.results rfl

theorem failActiveStep_ends (step : AgentStep) (code : String) :
    Ensures (failActiveStep r step code now) (EndsFrom r) := by
  unfold failActiveStep
  exact transitionRun_over rfl rfl

theorem expireExecution_ends : Ensures (expireExecution r now) (EndsFrom r) := by
  unfold expireExecution
  exact transitionRun_over rfl rfl

/-- What the reservation `next` stands for after its transaction. -/
def Started (r r' : RunRecord) (next : Reservation) : Prop :=
  r'.run.state = .running ∧ (∀ j ∈ r.invocations, j.id ≠ next.invocationId) ∧
    ∃ i ∈ r'.invocations, i.id = next.invocationId ∧ i.stepId = next.stepId ∧
      i.status = .running

theorem admitsInvocation_fresh {i : ToolInvocation} (h : r.admitsInvocation i = .ok ()) :
    ∀ j ∈ r.invocations, j.id ≠ i.id := by
  unfold RunRecord.admitsInvocation at h
  split at h
  · cases h
  · split at h
    · cases h
    · split at h
      · cases h
      · next hfree =>
          intro j hj hid
          refine hfree (List.any_eq_true.mpr ⟨j, hj, ?_⟩)
          simp [hid]

theorem startInvocation_work {step : AgentStep} {i : ToolInvocation}
    (hrun : r.run.state = .running) (hstep : step ∈ r.steps)
    (hopen : step.status.isOpen = true)
    (hidle : step.status = .running →
      ∀ j ∈ r.invocations, j.stepId = step.id → j.status.isActive = false)
    (hi : i.stepId = step.id) (hrunning : i.status = .running) :
    Ensures (startInvocation r step i now) fun r' =>
      Work k r r' ∧ ∀ timeout, Started r r' ⟨step.id, i.id, timeout⟩ := by
  unfold startInvocation reserveToolInvocation
  cases hadmitted : r.admitsInvocation i with
  | error e => exact Ensures.bind (P := fun _ => False) (.error _) fun _ h => h.elim
  | ok _ =>
      refine Ensures.bind (Ensures.ok_iff.mpr rfl) fun r₁ hr₁ => ?_
      subst hr₁
      have hfresh := admitsInvocation_fresh hadmitted
      have htype : isMark "tool_invocation.started" = false := by decide
      refine (appendAgentEvent_kept htype).mono ?_
      rintro r' ⟨hsame, hkept⟩
      have hstate : r'.run.state = .running := by rw [hsame]; exact hrun
      refine ⟨.reserved hrun hstate ⟨hkept.results, hkept.reconciled⟩ hstep hopen hidle hi
        hrunning hfresh ?_ hkept.steps hkept.invocations, fun timeout => ?_⟩
      · exact fun s => ⟨rfl, rfl⟩
      refine ⟨hstate, hfresh, i, ?_, rfl, hi, hrunning⟩
      rw [hkept.invocations]
      exact List.mem_append_right _ (List.mem_singleton_self i)

/-- A step that runs is tried again only when its one invocation is over. -/
theorem nextAttempt_idle {step : AgentStep} {name : String} {version attempt : Nat}
    (hstep : step ∈ r.steps) (h : nextAttempt build r step name version = .ok (.ok attempt))
    (hrunning : step.status = .running) :
    ∀ j ∈ r.invocations, j.stepId = step.id → j.status.isActive = false := by
  unfold nextAttempt at h
  rw [if_pos hrunning] at h
  intro j hj hjs
  have hlisted : j ∈ r.listStepInvocations.filter fun i => i.stepId == step.id := by
    rw [List.mem_filter, RunRecord.mem_listStepInvocations]
    refine ⟨⟨hj, ?_⟩, by simpa using hjs⟩
    rw [hjs, RunRecord.ordinalOf, Option.isSome_map, RunRecord.getStep, List.find?_isSome]
    exact ⟨step, hstep, by simp⟩
  split at h
  · next prior hprior =>
      rw [hprior, List.mem_singleton] at hlisted
      subst hlisted
      split at h
      · cases h
      · next hstatus =>
          cases hj' : j.status
          all_goals first
            | rfl
            | exact absurd (.inr (by rw [hj']; decide)) hstatus
  · cases h

theorem reserveNext_work (allowed : Option (List ToolIdentity)) (available : Bool)
    (id : Uuid) :
    Ensures (reserveNext build r allowed available now id) fun p =>
      Work k r p.2 ∧
        match p.1 with
        | some next => Started r p.2 next
        | none => p.2.run.state = .running →
            p.2 = r ∧ ∀ s ∈ r.steps, s.status.isOpen = false := by
  have quit : ∀ {x : Except Fault RunRecord}, Ensures x (EndsFrom r) →
      Ensures (do let r' ← x; return ((none : Option Reservation), r')) fun p =>
        Work k r p.2 ∧ match p.1 with
          | some next => Started r p.2 next
          | none => p.2.run.state = .running →
              p.2 = r ∧ ∀ s ∈ r.steps, s.status.isOpen = false := by
    intro x hx
    refine hx.bind fun r' h => Ensures.pure_iff.mpr ⟨.of_over h, ?_⟩
    intro (hrun : r'.run.state = .running)
    exact absurd h.1 (by rw [hrun]; decide)
  unfold reserveNext
  refine .ite (fun hrun => Ensures.ok_iff.mpr ⟨.refl k r, fun h => absurd h hrun⟩)
    fun hrun => ?_
  rw [not_not] at hrun
  refine .ite (fun _ => .error _) fun _ => .ite (fun _ => quit expireExecution_ends)
    fun _ => ?_
  split
  · next hnone =>
      refine Ensures.ok_iff.mpr ⟨.refl k r, fun _ => ⟨rfl, fun s hs => ?_⟩⟩
      rw [List.find?_eq_none] at hnone
      simpa using hnone s (RunRecord.mem_listAgentSteps.mpr hs)
  · next step hfind =>
      have hstep := RunRecord.mem_listAgentSteps.mp (List.mem_of_find?_eq_some hfind)
      have hopen := List.find?_some hfind
      refine .ite (fun _ => quit (failWithoutInvocation_ends _ _)) fun _ => ?_
      refine .ite (fun _ => .error _) fun _ => ?_
      split
      · next name version _ _ =>
          refine .ite (fun _ => quit (failWithoutInvocation_ends _ _)) fun _ => ?_
          refine .bind_any fun attempt hattempt => ?_
          split
          · exact quit (failActiveStep_ends _ _)
          · next attempt =>
              unfold reserveAttempt
              split
              · exact quit (failWithoutInvocation_ends _ _)
              · refine (startInvocation_work (k := k) hrun hstep hopen
                  (nextAttempt_idle hstep hattempt) ?_ ?_).bind fun r' h => ?_
                · rfl
                · rfl
                · exact Ensures.pure_iff.mpr ⟨h.1, h.2 _⟩
      · exact .error _

/-! ## Finalising and completing -/

/-- A result that counts: the invocation is over and its step has succeeded, or
may be tried again, or failed with a code. -/
theorem settleInvocation_cases (definition : Option ToolDefinition) (i : ToolInvocation)
    (stepStatus : StepStatus) {output : Option ToolOutput} {code : Option String}
    (evidence : Option (List EvidenceReference)) (now : Instant)
    (hanswer : output.isSome = true ∨ code.isSome = true) :
    let p := settleInvocation definition i stepStatus output code evidence now
    (p.1.id = i.id ∧ p.1.stepId = i.stepId ∧ p.1.status.isActive = false) ∧
      (code = none ∧ p.2 = .succeeded ∨
        code.isSome = true ∧ (p.2 = .running ∨ p.2 = .failed)) := by
  unfold settleInvocation
  split
  · refine ⟨⟨rfl, rfl, ?_⟩, .inr ⟨rfl, ?_⟩⟩
    · simp only []
      split <;> rfl
    · simp only []
      split
      · exact .inl rfl
      · exact .inr rfl
  · exact ⟨⟨rfl, rfl, rfl⟩, .inl ⟨rfl, rfl⟩⟩
  · simp at hanswer

theorem resultCode_isSome (definition : Option ToolDefinition)
    (output : Option ToolOutput) {code : Option String} (h : code.isSome = true) :
    (resultCode definition output code).isSome = true := by
  unfold resultCode finalCode
  split
  · split
    · cases h
    · exact h
  · exact h

/-- The invocation is over, and nothing that counts was recorded. -/
def Settled (r r' : RunRecord) (invocationId : Uuid) : Prop :=
  Unmarked r r' ∧ ∃ i ∈ r'.invocations, i.id = invocationId ∧ i.status.isActive = false

/-- Whether the loop goes on is whether the step did not fail, and failing the
step fails the run. -/
theorem recordResult_work {step : AgentStep} {i : ToolInvocation}
    {output : Option ToolOutput} {code : Option String}
    {evidence : Option (List EvidenceReference)} (hrun : r.run.state = .running)
    (hi : i ∈ r.invocations) (hrunning : i.status = .running) (hstep : step.id = i.stepId)
    (hanswer : output.isSome = true ∨ code.isSome = true) :
    Ensures (recordResult build r step i output code evidence now) fun p =>
      Work (some i.id) r p.2 ∧ (p.1 = false → p.2.run.state.isTerminal = true) ∧
        (p.1 = true → Settled r p.2 i.id) := by
  unfold recordResult
  simp only []
  refine .ite (fun _ => .error _) fun _ => ?_
  have hfinal := hanswer.imp_right
    (resultCode_isSome (build.getExact i.toolName i.toolVersion) output)
  generalize resultCode (build.getExact i.toolName i.toolVersion) output code = final
    at hfinal
  have hcases := settleInvocation_cases (build.getExact i.toolName i.toolVersion) i
    step.status evidence now hfinal
  generalize settleInvocation (build.getExact i.toolName i.toolVersion) i step.status output
    final evidence now = p at hcases
  obtain ⟨settled, status⟩ := p
  obtain ⟨hsettled, hstatus⟩ := hcases
  simp only [] at hsettled hstatus ⊢
  have htype : isMark "tool_invocation.finished" = false := by decide
  refine (appendAgentEvent_kept htype).bind fun r' h => ?_
  obtain ⟨hsame, hkept⟩ := h
  have hunmarked : Unmarked r r' := ⟨hkept.results, hkept.reconciled⟩
  refine .ite (fun hfailed => ?_) fun hgoes => Ensures.pure_iff.mpr ⟨?_, ?_, fun _ => ?_⟩
  · refine Ensures.bind (P := EndsFrom r) (transitionRun_over hkept.results rfl) ?_
    exact fun r'' h => Ensures.pure_iff.mpr ⟨.of_over h, fun _ => h.1, fun h => nomatch h⟩
  · have hstate : r'.run.state = .running := by rw [hsame]; exact hrun
    have hok : status = .running ∨ status = .succeeded := by
      rcases hstatus with ⟨-, h⟩ | ⟨hsome, h | h⟩
      · exact .inr h
      · exact .inl h
      · exact absurd ⟨hsome, h⟩ hgoes
    have hsteps : r'.steps = (r.updateStep i.stepId fun s =>
        { s with
          status := status
          finishedAt := if status = .running then s.finishedAt else some now }).steps := by
      rw [hkept.steps, ← hstep]
      rfl
    refine .settled hrun hstate hunmarked hi hrunning hok ?_ hsettled hsteps
      hkept.invocations
    exact fun _ => ⟨rfl, rfl⟩
  · intro (hquit : (final.isNone || status == .running) = false)
    rcases hstatus with ⟨hnone, -⟩ | ⟨hsome, h | h⟩
    · rw [hnone] at hquit
      cases hquit
    · rw [h] at hquit
      simp at hquit
    · exact absurd ⟨hsome, h⟩ hgoes
  · refine ⟨hunmarked, settled, ?_, hsettled.1, hsettled.2.2⟩
    rw [hkept.invocations]
    exact List.mem_map.mpr ⟨i, hi, if_pos rfl⟩

/-- The invocation a caller finalises is of the step it names. -/
def Names (r : RunRecord) (stepId invocationId : Uuid) : Prop :=
  ∃ step ∈ r.steps, ∃ i ∈ r.invocations, r.getStep stepId = some step ∧
    r.getInvocation invocationId = some i ∧ step.id = i.stepId ∧ i.id = invocationId

theorem finalizeInvocation_results (stepId invocationId : Uuid)
    (output : Option ToolOutput) (code : Option String)
    (evidence : Option (List EvidenceReference)) :
    Ensures (finalizeInvocation build r stepId invocationId output code evidence now)
      fun p => p.2.results = r.results := by
  unfold finalizeInvocation
  split
  · refine .ite (fun _ => Ensures.ok_iff.mpr rfl) fun _ => ?_
    refine .ite (fun _ => Ensures.ok_iff.mpr rfl) fun _ => ?_
    refine .ite (fun _ => ?_) fun _ => ?_
    · exact expireExecution_ends.bind fun r' h => Ensures.pure_iff.mpr h.2
    · unfold recordResult
      simp only []
      refine .ite (fun _ => .error _) fun _ => ?_
      have htype : isMark "tool_invocation.finished" = false := by decide
      refine (appendAgentEvent_kept htype).bind fun r' h => ?_
      refine .ite (fun _ => ?_) fun _ => Ensures.pure_iff.mpr h.2.results
      exact (transitionRun_kept r' _ _ _ _ _).bind fun r'' h' =>
        Ensures.pure_iff.mpr (h'.2.results.trans h.2.results)
  · exact Ensures.ok_iff.mpr rfl

/-- While the run runs, finalising settles the invocation it names or, where
nobody waits for it any more, changes nothing. -/
theorem finalizeInvocation_work {stepId invocationId : Uuid} {output : Option ToolOutput}
    {code : Option String} {evidence : Option (List EvidenceReference)}
    (hrun : r.run.state = .running) (hnames : Names r stepId invocationId)
    (hanswer : output.isSome = true ∨ code.isSome = true) :
    Ensures (finalizeInvocation build r stepId invocationId output code evidence now)
      fun p => Work (some invocationId) r p.2 ∧
        (p.1 = false → p.2.run.state.isTerminal = true ∨
          p.2 = r ∧ ∀ i, r.getInvocation invocationId = some i → i.status ≠ .running) ∧
        (p.1 = true → Settled r p.2 invocationId ∧
          ∃ i, r.getInvocation invocationId = some i ∧ i.status = .running) := by
  obtain ⟨step, hstep, i, hi, hgetStep, hgetInvocation, hsame, rfl⟩ := hnames
  unfold finalizeInvocation
  rw [hgetStep, hgetInvocation]
  simp only []
  refine .ite (fun hstatus => Ensures.ok_iff.mpr
    ⟨.refl _ r, fun _ => .inr ⟨rfl, ?_⟩, fun h => nomatch h⟩) fun hstatus => ?_
  · rintro i' h
    cases h
    exact hstatus
  refine .ite (fun h => absurd hrun h) fun _ => .ite (fun _ => ?_) fun _ => ?_
  · refine expireExecution_ends.bind fun r' h => Ensures.pure_iff.mpr
      ⟨.finished h.1 h.2, fun _ => .inl h.1, fun h => nomatch h⟩
  · rw [not_not] at hstatus
    refine (recordResult_work hrun hi hstatus hsame hanswer).mono ?_
    exact fun p h => ⟨h.1, fun hquit => .inl (h.2.1 hquit),
      fun hgo => ⟨h.2.2 hgo, i, rfl, hstatus⟩⟩

theorem completeRun_work (brief watch : Bool) :
    Ensures (completeRun r brief watch now) (Work k r) := by
  unfold completeRun
  refine .ite (fun _ => Ensures.ok_iff.mpr (.refl k r)) fun _ => ?_
  refine .ite (fun _ => Ensures.ok_iff.mpr (.refl k r)) fun _ => ?_
  split
  · exact Ensures.mono (P := EndsFrom r) (transitionRun_over rfl rfl) fun _ => Work.of_over
  · exact Ensures.mono (P := EndsFrom r) (transitionRun_over rfl rfl) fun _ => Work.of_over

/-! ## Recovery -/

theorem discardStale_work {i : ToolInvocation} (hrun : r.run.state = .running)
    (hi : i ∈ r.invocations) (hactive : i.status.isActive = true) :
    Ensures (discardStale r i now) fun r' =>
      r'.run = r.run ∧ r'.results = r.results ∧ Work k r r' := by
  unfold discardStale
  intro r' h
  obtain ⟨-, rfl⟩ := appendAgentEvent_ok h
  have hresults : ∀ e : AgentEvent, e.isResult = false →
      (r.events ++ [e]).countP (·.isResult) = r.events.countP (·.isResult) := by
    intro e he
    rw [List.countP_append, List.countP_singleton, he]
    rfl
  have hquiet : resultTypes.contains reconciledType = false := by decide
  refine ⟨rfl, hresults _ hquiet, .givenUp hrun hrun hi hactive ?_ rfl rfl
    (hresults _ hquiet) fun id => ?_⟩
  · exact ⟨rfl, rfl, rfl⟩
  · rw [RunRecord.reconciled, List.any_append]
    simp [RunRecord.reconciled, reconciledType]

/-- What an operation of recovery does, and what a claim it answers is for. -/
def Recovers (k : Option Uuid) (r : RunRecord) (p : Option ExecutionClaim × RunRecord) :
    Prop :=
  Work k r p.2 ∧ ∀ claim, p.1 = some claim →
    claim.runId = r.run.id ∧ r.run.state = .running ∧ p.2.run.state = .running

theorem Recovers.of_ends {x : Except Fault RunRecord} (hx : Ensures x (EndsFrom r)) :
    Ensures (do let r' ← x; return ((none : Option ExecutionClaim), r')) (Recovers k r) :=
  hx.bind fun _ h => Ensures.pure_iff.mpr ⟨.of_over h, fun _ h => nomatch h⟩

theorem Recovers.nothing : Recovers k r (none, r) :=
  ⟨.refl k r, fun _ h => nomatch h⟩

theorem Recovers.claim (hrun : r.run.state = .running) :
    Recovers k r (some (executionClaimOf r.run), r) := by
  refine ⟨.refl k r, ?_⟩
  rintro claim h
  cases h
  exact ⟨rfl, hrun, hrun⟩

theorem recoverActive_work {i : ToolInvocation} (hrun : r.run.state = .running)
    (hi : i ∈ r.invocations) (hactive : i.status.isActive = true) :
    Ensures (recoverActive build r i now) (Recovers k r) := by
  unfold recoverActive
  simp only []
  refine .ite (fun _ => Ensures.ok_iff.mpr .nothing) fun _ => .ite (fun _ => ?_) fun _ => ?_
  · refine (discardStale_work (k := k) hrun hi hactive).bind ?_
    rintro r' ⟨hsame, hresults, hwork⟩
    split
    · refine .ite (fun _ => ?_) fun _ => ?_
      · refine (failActiveStep_ends _ _).bind fun r'' h => Ensures.pure_iff.mpr ⟨?_, ?_⟩
        · exact .finished h.1 (h.2.trans hresults)
        · exact fun _ h => nomatch h
      · refine Ensures.pure_iff.mpr ⟨hwork, ?_⟩
        rintro claim h
        cases h
        exact ⟨rfl, hrun, by rw [hsame]; exact hrun⟩
    · exact .error _
  · split
    · exact .of_ends (transitionRun_over rfl rfl)
    · exact .of_ends (failActiveStep_ends _ _)

theorem recoverIdle_work (hrun : r.run.state = .running) :
    Ensures (recoverIdle r now) (Recovers k r) := by
  unfold recoverIdle
  simp only []
  refine .ite (fun _ => ?_) fun _ => .ite (fun _ => ?_) fun _ => ?_
  · refine .ite (fun _ => Ensures.ok_iff.mpr (.claim hrun)) fun _ => ?_
    exact .of_ends (transitionRun_over rfl rfl)
  · split
    · exact .error _
    · exact .of_ends (failActiveStep_ends _ _)
  · exact Ensures.ok_iff.mpr (.claim hrun)

theorem prepareOne_work : Ensures (prepareOne build r now) (Recovers k r) := by
  unfold prepareOne
  refine .ite (fun _ => .error _) fun _ => ?_
  refine .ite (fun _ => Ensures.ok_iff.mpr .nothing) fun _ => .ite (fun _ => ?_) fun _ => ?_
  · exact .of_ends (transitionRun_over rfl rfl)
  refine .ite (fun _ => ?_) fun _ => ?_
  · refine .ite (fun _ => ?_) fun _ => Ensures.ok_iff.mpr .nothing
    exact .of_ends (transitionRun_over rfl rfl)
  refine .ite (fun _ => Ensures.ok_iff.mpr .nothing) fun hrun => ?_
  rw [not_not] at hrun
  refine .ite (fun _ => .of_ends expireExecution_ends) fun _ => ?_
  split
  · exact recoverIdle_work hrun
  · next i hactive =>
      have hmem : i ∈ r.activeInvocations := by rw [hactive]; exact List.mem_singleton_self i
      obtain ⟨hlisted, hstatus⟩ := List.mem_filter.mp hmem
      exact recoverActive_work hrun (RunRecord.mem_listStepInvocations.mp hlisted).1 hstatus
  · exact .of_ends (transitionRun_over rfl rfl)

/-! ## Synthesis -/

theorem failResult_work (code : String) : Ensures (failResult r code now) (Work k r) := by
  unfold failResult
  refine .ite (fun _ => Ensures.ok_iff.mpr (.refl k r)) fun _ => ?_
  exact Ensures.mono (P := EndsFrom r) (transitionRun_over rfl rfl) fun _ => Work.of_over

/-- Before the provider is asked: where it is asked the run runs and nothing
has been changed. -/
def Begins (k : Option Uuid) (r : RunRecord) (p : Bool × RunRecord) : Prop :=
  Work k r p.2 ∧ (p.1 = true → p.2 = r ∧ r.run.state = .running)

theorem claimSynthesis_begins : Ensures (claimSynthesis r now) (Begins k r) := by
  unfold claimSynthesis
  refine .ite (fun _ => Ensures.ok_iff.mpr ⟨.refl k r, fun h => nomatch h⟩) fun hrun => ?_
  refine .ite (fun _ => Ensures.ok_iff.mpr ⟨.refl k r, fun _ => ⟨rfl, not_not.mp hrun⟩⟩)
    fun _ => ?_
  refine Ensures.bind (P := EndsFrom r) (transitionRun_over rfl rfl) fun r' h => ?_
  exact Ensures.pure_iff.mpr ⟨.of_over h, fun h => nomatch h⟩

theorem beginDailyBrief_begins (count : Nat) :
    Ensures (beginDailyBrief r count now) (Begins k r) := by
  unfold beginDailyBrief
  refine .ite (fun _ => ?_) fun _ => Ensures.ok_iff.mpr ⟨.refl k r, fun h => ⟨rfl, ?_⟩⟩
  · refine (failResult_work _).bind fun r' h => Ensures.pure_iff.mpr ⟨h, fun h => nomatch h⟩
  · exact beq_iff_eq.mp h

theorem beginProjectWatch_begins (valid : Bool) :
    Ensures (beginProjectWatch r valid now) (Begins k r) := by
  unfold beginProjectWatch
  refine .ite (fun _ => ?_) fun _ => Ensures.ok_iff.mpr ⟨.refl k r, fun h => ⟨rfl, ?_⟩⟩
  · refine (failResult_work _).bind fun r' h => Ensures.pure_iff.mpr ⟨h, fun h => nomatch h⟩
  · exact beq_iff_eq.mp h

/-- The event of a result is the only thing a result adds to the rows. -/
theorem storeResult_stores {r₀ r₁ : RunRecord} {eventType code message : String} {value : Json}
    (hrun : r₀.run.state = .running) (hsame : r.run = r₀.run) (hkept : Kept r₀ r)
    (htype : resultTypes.contains eventType = true) :
    Ensures (appendAgentEvent r (resultEvent r₁ eventType code message value now))
      (Stores r₀) := by
  intro r' h
  obtain ⟨-, rfl⟩ := appendAgentEvent_ok h
  refine .stored hrun (by rw [← hsame] at hrun; exact hrun) ?_ (fun id => ?_) hkept.steps
    hkept.invocations
  · have hone : ({ resultEvent r₁ eventType code message value now with
        sequence := r.nextSequence } : AgentEvent).isResult = true := htype
    rw [RunRecord.results, List.countP_append, List.countP_singleton, hone, ← hkept.results]
    rfl
  · rw [← hkept.reconciled id, RunRecord.reconciled, List.any_append]
    simp [RunRecord.reconciled, resultEvent]

theorem persistResearchResult_stores (casefold : String → String)
    (current : String → Uuid → Option String) (evidence : List CollectedEvidence)
    (q : ResearchProviderResult) :
    Ensures (persistResearchResult casefold current r evidence q now)
      fun p => Stores r p.2 := by
  unfold persistResearchResult
  refine .ite (fun _ => .error _) fun hrun => .ite (fun _ => ?_) fun _ => ?_
  · exact .answer (Ensures.mono (P := EndsFrom r) (transitionRun_over rfl rfl)
      fun _ h => Stores.finished h.1 h.2)
  rw [not_or, not_not] at hrun
  refine .ite (fun _ => .error _) fun _ => .bind_any fun value _ => .answer ?_
  exact storeResult_stores hrun.2 rfl (.refl r) (by decide)

theorem propose_kept (parse : PyValue → Option MemoryUpdate)
    (memories : Uuid → Option Memory) (casefold : String → String)
    (evidence : List CollectedEvidence) (s : Proposing) (p : CuratorProposal × Uuid × Uuid) :
    Ensures (propose build parse memories casefold evidence now s p)
      fun s' => s'.record.run = s.record.run ∧ Kept s.record s'.record := by
  unfold propose
  refine .bind_any fun found _ => ?_
  obtain ⟨target, refs⟩ := found
  simp only []
  split
  · exact .error _
  · refine Ensures.bind (P := fun x => x.2.run = s.record.run ∧ Kept s.record x.2) ?_
      fun x hx => ?_
    · intro x h
      unfold Except.refuse at h
      cases hc : createCuratorProposal build parse memories s.record _ _ _ _ _ _ _ _ _ with
      | error e => rw [hc] at h; cases h
      | ok y =>
          rw [hc] at h
          cases h
          unfold createCuratorProposal at hc
          split at hc
          · cases hc
          · exact createProposal_kept _ _ _ _ _ _ hc
    · exact .ite (fun _ => .error _) fun _ => Ensures.pure_iff.mpr hx

theorem persistCuratorResult_stores (parse : PyValue → Option MemoryUpdate)
    (memories : Uuid → Option Memory) (casefold : String → String)
    (current : String → Uuid → Option String) (evidence : List CollectedEvidence)
    (q : CuratorProviderResult) (uuids : Nat → Uuid × Uuid) :
    Ensures (persistCuratorResult build parse memories casefold current r evidence q
      uuids now) fun p => Stores r p.2 := by
  unfold persistCuratorResult
  refine .ite (fun _ => .error _) fun hrun => .ite (fun _ => ?_) fun _ => ?_
  · exact .answer (Ensures.mono (P := EndsFrom r) (transitionRun_over rfl rfl)
      fun _ h => Stores.finished h.1 h.2)
  rw [not_or, not_not] at hrun
  refine .ite (fun _ => .error _) fun _ => .bind_any fun findings _ => ?_
  refine Ensures.bind (P := fun s => s.record.run = r.run ∧ Kept r s.record) ?_
    fun s hs => ?_
  · refine .foldlM (fun b _ hb => ?_) ⟨rfl, .refl r⟩
    exact (propose_kept _ _ _ _ _ _).mono fun _ h => ⟨h.1.trans hb.1, hb.2.trans h.2⟩
  · simp only []
    refine .ite (fun _ => .error _) fun _ => .answer ?_
    refine storeResult_stores hrun.2 hs.1 hs.2 ?_
    decide

theorem persistDailyBriefResult_stores (casefold : String → String)
    (current : String → Uuid → Option String) (eventsCurrent : Bool)
    (evidence : List CollectedEvidence) (events : List Citation)
    (q : ResearchProviderResult) :
    Ensures (persistDailyBriefResult casefold current eventsCurrent r evidence events q now)
      (Stores r) := by
  unfold persistDailyBriefResult
  refine .ite (fun _ => .error _) fun hrun => .ite (fun _ => .error _) fun _ => ?_
  rw [not_or, not_not] at hrun
  refine .bind_any fun value _ => ?_
  exact storeResult_stores hrun.2 rfl (.refl r) (by decide)

theorem persistProjectWatchResult_stores (changesCurrent : Bool) (window : ChangeWindow)
    (evidence : List Citation) (q : ProjectWatchProviderResult) :
    Ensures (persistProjectWatchResult changesCurrent r window evidence q now)
      (Stores r) := by
  unfold persistProjectWatchResult
  refine .ite (fun _ => .error _) fun hrun => .ite (fun _ => .error _) fun _ => ?_
  rw [not_or, not_or, not_not] at hrun
  refine .bind_any fun value _ => ?_
  exact storeResult_stores hrun.2.2 rfl (.refl r) (by decide)

end Operations

end SecondBrain
