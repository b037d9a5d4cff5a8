import SecondBrain.AgentRuns.Budgets

/-!
# A run that is over is quiet

Seven ways lead to a terminal state, and each settles the step and the
invocation that were going on in its own words. All of them do where the record
is in order and the transaction decides on it as committed (`Turn.idle`), except
two: recovery fails a step whose invocation it cannot tell the outcome of and
leaves that invocation as it is, and an executor whose invocation was given up
ends a run that another is at work on. In runs without these a terminal run is
idle, in every state.
-/

namespace SecondBrain

open Lib

variable {B : Build → Prop} {clean : Prop} {r r' : RunRecord}

/-- Steps come from planning only. -/
theorem Turn.step_from (h : Turn B clean r r') (hbegun : r.run.state.isEarly = false)
    {s' : AgentStep} (hs' : s' ∈ r'.steps) : ∃ s ∈ r.steps, s'.still = s.still := by
  cases h with
  | kept _ hsteps | claimed _ _ _ hsteps => exact ⟨s', hsteps ▸ hs', rfl⟩
  | planned _ hearly =>
      rw [hbegun] at hearly
      cases hearly
  | reserved _ _ _ _ _ _ _ _ hf hsteps | succeeded _ _ _ _ _ _ _ hf _ _ hsteps =>
      rw [hsteps] at hs'
      obtain ⟨s, hs, rfl⟩ := mem_updateStep.mp hs'
      refine ⟨s, hs, ?_⟩
      split
      · exact (hf s).1
      · rfl
  | eased _ _ hcloses | ended _ hcloses =>
      obtain ⟨f, hf, hends⟩ := hcloses.steps
      rw [hf] at hs'
      obtain ⟨s, hs, rfl⟩ := List.mem_map.mp hs'
      exact ⟨s, hs, (hends s hs).still⟩

theorem Turn.permitted (h : Turn B clean r r') (hbegun : r.run.state.isEarly = false)
    {allowed : Option (List ToolIdentity)} (hr : Permitted allowed r) : Permitted allowed r' := by
  intro s' hs' name version hname hversion
  obtain ⟨s, hs, hstill⟩ := h.step_from hbegun hs'
  refine hr s hs name version ?_ ?_
  · exact (@congrArg _ _ s'.still s.still AgentStep.toolName hstill).symm.trans hname
  · exact (@congrArg _ _ s'.still s.still AgentStep.toolVersion hstill).symm.trans
      hversion

/-- A claim is granted where the agent may use the tools of all steps. -/
theorem claimExecution_permitted {build : Build} {revision : Nat}
    {allowed : Option (List ToolIdentity)} {now : Instant} :
    Ensures (claimExecution build r revision allowed now) fun p =>
      p.1.isSome = true → Permitted allowed p.2 := by
  have none_ok : ∀ {x : RunRecord},
      (((none : Option ExecutionClaim), x).1.isSome = true → Permitted allowed x) := nofun
  unfold claimExecution
  refine .ite (fun _ => .error _) fun _ => .ite (fun _ => ?_) fun _ => ?_
  · exact .ite (fun _ => Ensures.ok_iff.mpr none_ok) fun _ => .error _
  refine .ite (fun _ => .ite (fun _ => .error _) fun _ => .error _) fun _ => ?_
  refine .ite (fun _ => .error _) fun _ => .ite (fun _ => .error _) fun _ => ?_
  refine .ite (fun _ => .error _) fun _ => .ite (fun _ => .error _) fun _ => ?_
  refine .ite (fun _ => ?_) fun _ => ?_
  · exact (transitionRun_rows r _ _ _ _ _).bind fun _ _ => Ensures.pure_iff.mpr none_ok
  refine .ite (fun _ => .error _) fun hplan => ?_
  refine (transitionRun_rows r _ _ _ _ _).bind fun r' h => Ensures.pure_iff.mpr fun _ => ?_
  intro s hs name version hname hversion
  rw [h.2.1] at hs
  have hvalid : hasValidTool build r.run allowed s = true := by
    by_contra hinvalid
    refine hplan (.inr (.inr (.inr (.inr ?_))))
    rw [List.any_eq_true]
    exact ⟨s, RunRecord.mem_listAgentSteps.mpr hs, by simpa using hinvalid⟩
  unfold hasValidTool at hvalid
  rw [hname, hversion] at hvalid
  exact ((Bool.and_eq_true _ _).mp hvalid).2

namespace Runtime

variable {s s' : Runtime} {l : RuntimeStep} {pid : Nat} {id : Uuid} {e : Executor}

/-- Executors decide on rows as they are committed, recovery can tell what became
of a stale invocation, and an executor whose invocation was given up does not
begin a synthesis for a run that still runs. -/
def settles (s : Runtime) (l : RuntimeStep) : Bool :=
  s.coherent l &&
    match l with
    | .recover build runId now => (s.runs.get runId).all fun r => !ambiguous build r now
    | .startSynthesis pid _ _ => (s.executors[pid]?).all fun e =>
        (s.runs.get e.runId).all fun r => !(e.superseded r && r.run.state == .running)
    | _ => true

/-- Besides order: who is at work may use the tools of its run, and what is over
is idle. -/
structure Quiet (s : Runtime) : Prop where
  inv : Inv s
  ordered : Ordered s
  permitted : ∀ (p : Nat) (e : Executor) (r : RunRecord), s.executors[p]? = some e →
    s.runs.get e.runId = some r → e.phase.atWork = true → Permitted e.allowedTools r
  idle : ∀ id r, s.runs.get id = some r → r.run.state.isTerminal = true → Idle r

/-- In such a state a step that meets the condition settles what it ends. -/
theorem Quiet.settlesAll (h : Quiet s) (hok : s.settles l = true) (r : RunRecord) :
    s.settlesAll l r := by
  have hok := (Bool.and_eq_true _ _).mp hok
  cases l with
  | recover build runId now =>
      intro hr
      simpa only [hr, Option.all_some, Bool.not_eq_true'] using hok.2
  | reserve pid =>
      intro e he hphase hr
      exact h.permitted pid e r he hr (by rw [hphase]; rfl)
  | startSynthesis pid =>
      intro e he hphase hr hrun
      have hmine : e.superseded r = false := by
        simpa only [he, hr, hrun, Option.all_some, beq_self_eq_true, Bool.and_true,
          Bool.not_eq_true'] using hok.2
      refine ((h.inv.fits pid e r he hr).left hrun hphase).resolve_left ?_
      rw [hmine]
      nofun
  | persist pid | failSynthesis pid =>
      intro e he hphase hr hrun
      exact ((h.inv.fits pid e r he hr).asked hrun hphase).2
  | _ => trivial

theorem Quiet.step_inv (h : Quiet s) (hok : s.settles l = true)
    (hnext : served.next s l = some s') : Inv s' := by
  have hok := (Bool.and_eq_true _ _).mp hok
  cases hpid : l.pid? with
  | none => exact (h.inv.stepRequest hpid hnext).1
  | some pid =>
      obtain ⟨e, he, hmove⟩ := exec_of_served hpid hnext
      refine h.inv.execStep he (fun r hr => ⟨fun htx => ?_, ?_⟩) hmove
      · rw [coherent_pid hok.1 hpid he hr htx, Bool.or_true]
      · rintro n valid now rfl
        obtain rfl : n = pid := Option.some.inj hpid
        have hmine : (e.superseded r && r.run.state == .running) = false := by
          simpa only [he, hr, Option.all_some, Bool.not_eq_true'] using hok.2
        rw [oversteps, hmine, Bool.false_and]

/-- What an executor that is at work after a step may use: anything, what it
might use before, or the tools of the run it has just claimed. -/
def Uses (s s' : Runtime) (q : Nat) (x : Executor) : Prop :=
  x.phase.atWork = false ∨ x.allowedTools = none ∨
    (∃ e, s.executors[q]? = some e ∧ e.phase.atWork = true ∧ x.runId = e.runId ∧
      x.allowedTools = e.allowedTools) ∨
    ∃ r', s'.runs.get x.runId = some r' ∧ Permitted x.allowedTools r'

theorem uses_of_old {q : Nat} {x : Executor} (hx : s.executors[q]? = some x) :
    Uses s s' q x := by
  cases hwork : x.phase.atWork with
  | false => exact .inl hwork
  | true => exact .inr (.inr (.inl ⟨x, hx, hwork, rfl, rfl⟩))

theorem uses_of_set {e' : Executor} (hexec : s'.executors = s.executors.set pid e')
    (hown : Uses s s' pid e') {q : Nat} {x : Executor} (hx : s'.executors[q]? = some x) :
    Uses s s' q x := by
  rcases executors_set hexec q x hx with ⟨-, hx⟩ | ⟨hq, hx⟩
  · exact uses_of_old hx
  · rw [hq, ← Option.some.inj hx]
    exact hown

theorem stepRequest_uses (hpid : l.pid? = none) (hnext : served.next s l = some s') {q : Nat}
    {x : Executor} (hx : s'.executors[q]? = some x) : Uses s s' q x := by
  rcases executor_of_request hpid hnext hx with hold | ⟨-, hnone | hstarting⟩
  · exact uses_of_old hold
  · exact .inr (.inl hnone)
  · exact .inl (by rw [hstarting]; rfl)

theorem execStep_uses (he : s.executors[pid]? = some e) (hmove : ExecMove s pid e l s')
    (hok : ∀ r, s.runs.get e.runId = some r → l.transacts = true →
      (e.cacheFor l).current r = true)
    {q : Nat} {x : Executor} (hx : s'.executors[q]? = some x) : Uses s s' q x := by
  have mine : ∀ {e' : Executor}, e.phase.atWork = true → e'.runId = e.runId →
      e'.allowedTools = e.allowedTools → Uses s s' pid e' :=
    fun hwork hown huse => .inr (.inr (.inl ⟨e, he, hwork, hown, huse⟩))
  cases hmove with
  | @claimed _ _ _ _ r' claim hphase _ hran =>
      have hid := (transact_id hran.committed).trans (Runs.get_id hran.found)
      have hop := hran.ok_of_current (hok _ hran.found rfl)
        fun _ => evolves_of_plain (claimExecution_routine .plain _ _)
      have hpermitted := claimExecution_permitted _ hop rfl
      refine uses_of_set rfl ?_ hx
      refine .inr (.inr (.inr ⟨r', ?_, hpermitted⟩))
      exact (Runs.get_put hran.found hid e.runId).trans (if_pos rfl)
  | notClaimed | completed => exact uses_of_set rfl (.inl rfl) hx
  | reserved hphase | drained hphase | reloaded hphase | unanswered hphase | refused hphase
  | started hphase | persisted hphase | failed hphase =>
      refine uses_of_set rfl ?_ hx
      exact mine (by rw [hphase]; rfl) rfl rfl
  | finalized hphase =>
      have hwork : e.phase.atWork = true := by
        rw [hphase, Executor.finalizesFrom]
        split <;> rfl
      refine uses_of_set rfl ?_ hx
      exact mine hwork rfl rfl
  | ended hdone => exact uses_of_set rfl (.inl (by rw [hdone]; rfl)) hx

/-- What an executor at work may use stays enough. -/
theorem Turned.permitted (h : Turned s l s') {allowed : Option (List ToolIdentity)}
    {r r' : RunRecord} (hr : s.runs.get id = some r) (hr' : s'.runs.get id = some r')
    (hbegun : r.run.state.isEarly = false) (hpermitted : Permitted allowed r) :
    Permitted allowed r' := by
  cases h with
  | same hruns =>
      rw [hruns, hr] at hr'
      exact Option.some.inj hr' ▸ hpermitted
  | created x hnone _ _ _ hruns =>
      rw [hruns, Runs.get_append hnone] at hr'
      split at hr'
      · next hid =>
          rw [hid, hnone] at hr
          cases hr
      · rw [hr] at hr'
        exact Option.some.inj hr' ▸ hpermitted
  | turned id₀ r₀ r₁ hr₀ hrid _ hruns hturn =>
      rw [hruns, Runs.get_put hr₀ hrid] at hr'
      split at hr'
      · next hid =>
          cases hr'
          rw [hid, hr₀] at hr
          cases hr
          exact hturn.permitted hbegun hpermitted
      · rw [hr] at hr'
        exact Option.some.inj hr' ▸ hpermitted

theorem Quiet.step (h : Quiet s) (hok : s.settles l = true)
    (hnext : served.next s l = some s') : Quiet s' := by
  have hcoherent := ((Bool.and_eq_true _ _).mp hok).1
  obtain ⟨hordered, hturned⟩ := h.ordered.step hcoherent hnext
  refine ⟨h.step_inv hok hnext, hordered, fun q x r hx hr hwork => ?_, fun id r hr hover => ?_⟩
  · have huses : Uses s s' q x := by
      cases hpid : l.pid? with
      | none => exact stepRequest_uses hpid hnext hx
      | some pid =>
          obtain ⟨e, he, hmove⟩ := exec_of_served hpid hnext
          exact execStep_uses he hmove
            (fun r hr htx => coherent_pid hcoherent hpid he hr htx) hx
    rcases huses with hidle | hnone | ⟨e, he, hbusy, hown, huse⟩ | ⟨r', hr', hpermitted⟩
    · rw [hidle] at hwork
      cases hwork
    · intro _ _ _ _ _ _
      rw [hnone]
      rfl
    · obtain ⟨r₀, hr₀⟩ := Option.isSome_iff_exists.mp (h.inv.known q e he)
      rw [huse]
      exact hturned.permitted hr₀ (hown ▸ hr) ((h.inv.fits q e r₀ he hr₀).begun hbusy)
        (h.permitted q e r₀ he hr₀ hbusy)
    · rw [hr, Option.some.injEq] at hr'
      exact hr' ▸ hpermitted
  · cases hturned with
    | same hruns => exact h.idle id r (hruns ▸ hr) hover
    | created x hnone hstate _ _ hruns =>
        rw [hruns, Runs.get_append hnone] at hr
        split at hr
        · cases hr
          rw [hstate] at hover
          cases hover
        · exact h.idle id r hr hover
    | turned id₀ r₀ r' hr₀ hrid _ hruns hturn =>
        rw [hruns, Runs.get_put hr₀ hrid] at hr
        split at hr
        · cases hr
          exact hturn.idle (h.settlesAll hok r₀) (h.idle id₀ r₀ hr₀) hover
        · exact h.idle id r hr hover

theorem Quiet.start (hs : served.start s) : Quiet s := by
  refine ⟨.start hs, .start hs, fun p e _ he => ?_, fun id r hr => ?_⟩
  · rw [hs.2] at he
    cases he
  · rw [hs.1] at hr
    cases hr

end Runtime

end SecondBrain
