import SecondBrain.AgentPlanning.Storage
import SecondBrain.AgentRuns.EventHistory
import SecondBrain.AgentRuns.Frames

/-!
# Planners at work beside everything else

A planner claims a run, asks its provider outside any transaction, validates what
it is answered and then freezes the plan or fails the run. The machine runs any
number of planners beside every other step of the runtime, so cancellation,
expiry, recovery and the executors come in between at will.

The steps of a run, its state and the event that says it is ready change in one
step or not at all (`Together`), what was frozen is the plan the planner
validated, and it stays. A planner that comes back to a run that has left
planning writes nothing (`plan_frozen_at_once`).
-/

namespace SecondBrain

open Lib AgentTools

/-! ## The machine -/

/-- Why a planner fails its run. -/
inductive PlanningFailure where
  | providerUnavailable
  | providerTimeout
  | providerFailed
  | outputInvalid
  | policyRejected
deriving DecidableEq, Repr

def PlanningFailure.code : PlanningFailure → String
  | .providerUnavailable => "planning_provider_unavailable"
  | .providerTimeout => "planning_provider_timeout"
  | .providerFailed => "planning_provider_failed"
  | .outputInvalid => "planning_output_invalid"
  | .policyRejected => "planning_policy_rejected"

inductive PlannerPhase where
  | asking
  | accepted (steps : List ValidatedStep)
  | failing (failure : PlanningFailure)
  /-- Its plan is stored. -/
  | froze (steps : List ValidatedStep)
  | done

structure Planner where
  build : Build
  /-- The tools of the scheduler's agent; the public request passes none. -/
  tools : Option (List ToolIdentity)
  claim : PlanningClaim
  phase : PlannerPhase

/-- Where a planner goes on with what it was answered. The scheduler records a
rejected request as an invalid plan. -/
def Planner.judge (forbiddenRequest : String → Bool) (p : Planner) (plan : PlanningResult)
    (available : Bool) : PlannerPhase :=
  match validatePlan p.build forbiddenRequest p.claim plan available p.tools with
  | .ok steps => .accepted steps
  | .error .outputRejected => .failing .outputInvalid
  | .error .policyRejected =>
      .failing (if p.tools.isNone then .policyRejected else .outputInvalid)
  | .error .assertion => .done

structure Planning where
  runtime : Runtime := {}
  planners : List Planner := []

inductive PlanningStep where
  | claim (build : Build) (runId : Uuid) (expectedRevision : Nat)
      (tools : Option (List ToolIdentity)) (now : Instant)
  | answer (pid : Nat) (plan : PlanningResult) (available : Bool)
  | unanswered (pid : Nat) (failure : PlanningFailure)
  | freeze (pid : Nat) (ids : List Uuid) (now : Instant)
  | fail (pid : Nat) (now : Instant)
  | crash (pid : Nat)
  | other (l : RuntimeStep)

/-- The planner whose result arrives in the step. -/
def PlanningStep.returns : PlanningStep → Option Nat
  | .freeze pid _ _ | .fail pid _ => some pid
  | _ => none

namespace Planning

def settle (s : Planning) (pid : Nat) (p : Planner) : Planning :=
  { s with planners := s.planners.set pid p }

/-- A planner's transaction: committed, or rolled back with the planner at its end. -/
def conclude (s : Planning) (pid : Nat) (p : Planner) (l : RuntimeStep)
    (phase : PlannerPhase) : Planning :=
  match s.runtime.step l with
  | some runtime => { s.settle pid { p with phase := phase } with runtime := runtime }
  | none => s.settle pid { p with phase := .done }

/-- A claim that was granted starts a planner. -/
def start (s : Planning) (build : Build) (tools : Option (List ToolIdentity))
    (q : Option PlanningClaim × RunRecord) : Planning :=
  { runtime := s.runtime.commit q.2
    planners := s.planners ++ (q.1.toList.map fun claim =>
      { build := build, tools := tools, claim := claim, phase := .asking }) }

def step (forbiddenRequest : String → Bool) (s : Planning) : PlanningStep → Option Planning
  | .claim build runId expectedRevision tools now =>
      (s.runtime.onRun runId (claimPlanning build · expectedRevision tools now)).map
        (s.start build tools)
  | .answer pid plan available => do
      let p ← s.planners[pid]?
      match p.phase with
      | .asking => return s.settle pid { p with phase := p.judge forbiddenRequest plan available }
      | _ => none
  | .unanswered pid failure => do
      let p ← s.planners[pid]?
      match p.phase with
      | .asking => return s.settle pid { p with phase := .failing failure }
      | _ => none
  | .freeze pid ids now => do
      let p ← s.planners[pid]?
      match p.phase with
      | .accepted steps =>
          if ids.length ≠ steps.length then none
          else return s.conclude pid p (.freezePlan p.claim (steps.zip ids) now) (.froze steps)
      | _ => none
  | .fail pid now => do
      let p ← s.planners[pid]?
      match p.phase with
      | .failing failure =>
          return s.conclude pid p (.failPlan p.claim failure.code now) .done
      | _ => none
  | .crash pid => do
      let p ← s.planners[pid]?
      match p.phase with
      | .froze _ | .done => none
      | _ => return s.settle pid { p with phase := .done }
  | .other l =>
      if l.plans then none
      else (s.runtime.step l).map fun runtime => { s with runtime := runtime }

def machine (forbiddenRequest : String → Bool) : Machine Planning PlanningStep where
  start s := s.runtime.runs = [] ∧ s.runtime.executors = [] ∧ s.planners = []
  next := step forbiddenRequest

end Planning

/-! ## What planning does to a record -/

/-- The plan, the state and the log change together or not at all. -/
inductive Together (r r' : RunRecord) : Prop where
  | kept : r'.steps.map (·.still) = r.steps.map (·.still) →
      (r'.run.state = .ready → r.run.state = .ready) →
      (r'.run.state = .created ∨ r'.run.state = .planning →
        r.run.state = .created ∨ r.run.state = .planning) →
      (∃ new, r'.events = r.events ++ new ∧ ∀ e ∈ new, e.entersReady = false) → Together r r'
  | froze (e : AgentEvent) : r.run.state = .planning → r'.run.state = .ready →
      r'.run.revision = r.run.revision + 1 → r.steps = [] → r'.steps ≠ [] →
      r'.events = r.events ++ [e] → e.entersReady = true → Together r r'

section Records

variable {build : Build} {r r' : RunRecord} {claim : PlanningClaim} {now : Instant}

theorem Spares.together (h : Spares r r') : Together r r' := by
  rcases h.run with ⟨hsame, -⟩ | hlate
  · exact .kept h.steps (fun hready => hsame ▸ hready) (fun hearly => hsame ▸ hearly) h.log
  · refine .kept h.steps (fun hready => ?_) (fun hearly => ?_) h.log
    · rw [hready] at hlate
      cases hlate
    · rcases hearly with hstate | hstate <;> rw [hstate] at hlate <;> cases hlate

/-- A claim that is granted moves a created run into planning. -/
theorem claimPlanning_moves {expectedRevision : Nat} {tools : Option (List ToolIdentity)}
    (h : claimPlanning build r expectedRevision tools now = .ok (some claim, r')) :
    r.run.state = .created ∧ r'.run.state = .planning ∧ claim.runId = r.run.id ∧
      r'.run.revision = claim.planningRevision ∧ r'.run.id = r.run.id ∧ r'.steps = r.steps ∧
      ∃ e, r'.events = r.events ++ [e] ∧ e.entersReady = false := by
  unfold claimPlanning at h
  split at h
  · cases h
  split at h
  · split at h <;> cases h
  split at h
  · cases h
  split at h
  · cases h
  split at h
  · cases h
  split at h
  · cases h
  next hcreated =>
    obtain ⟨r₁, hmove, h⟩ := bind_ok h
    cases h
    obtain ⟨-, -, -, -, rfl⟩ := transitionRun_ok hmove
    exact ⟨not_not.mp hcreated, rfl, rfl, rfl, rfl, rfl, _, rfl, entersReady_stateChanged _ _ _ _⟩

/-- A request that finds a complete plan changes nothing. -/
theorem claimPlanning_none {expectedRevision : Nat} {tools : Option (List ToolIdentity)}
    (h : claimPlanning build r expectedRevision tools now = .ok (none, r')) : r' = r := by
  unfold claimPlanning at h
  split at h
  · cases h
  split at h
  · split at h <;> cases h
    rfl
  split at h
  · cases h
  split at h
  · cases h
  split at h
  · cases h
  split at h
  · cases h
  · obtain ⟨r₁, -, h⟩ := bind_ok h
    cases h

/-- A plan is stored for a run that is planned under the claim and has none. -/
theorem finalizePlan_frozen {steps : List ValidatedStep} {ids : List Uuid}
    (h : finalizePlan r claim (steps.zip ids) now = .ok r') :
    r.run.state = .planning ∧ r.run.revision = claim.planningRevision ∧ r.steps = [] ∧
      r'.run.state = .ready ∧ r'.run.revision = r.run.revision + 1 ∧ r'.run.id = r.run.id ∧
      r'.steps = planRows steps ids ∧ (r'.steps.map (·.id)).Nodup ∧
      ∃ e, r'.events = r.events ++ [e] ∧ e.entersReady = true := by
  rw [finalizePlan] at h
  split at h
  · cases h
  next hopen =>
    rw [not_or, not_or, not_not, not_not, not_not] at hopen
    obtain ⟨hstate, hrevision, hlength⟩ := hopen
    have hnone : r.steps = [] := List.length_eq_zero_iff.mp hlength
    rw [insertPlan_eq] at h
    obtain ⟨r₁, hinsert, hmove⟩ := bind_ok h
    obtain ⟨rfl, -, hids⟩ := insertRows_inserted hinsert
    rw [hnone, List.nil_append] at hids
    obtain ⟨-, -, -, -, rfl⟩ := transitionRun_ok hmove
    have hrows : r.steps ++ planRows steps ids = planRows steps ids := by rw [hnone]; rfl
    refine ⟨hstate, hrevision, hnone, rfl, rfl, rfl, hrows, ?_, _, rfl, ?_⟩
    · show ((r.steps ++ planRows steps ids).map (·.id)).Nodup
      rw [hrows]
      exact hids List.nodup_nil
    · exact entersReady_stateChanged _ _ _ _

end Records

/-! ## What holds in every state -/

/-- What a planner knows of its run. -/
structure Planner.Holds (forbiddenRequest : String → Bool) (p : Planner) (r : RunRecord) :
    Prop where
  begun : r.run.state ≠ .created
  revision : r.run.state = .planning → r.run.revision = p.claim.planningRevision
  valid : ∀ steps, p.phase = .accepted steps ∨ p.phase = .froze steps →
    ∃ plan available, validatePlan p.build forbiddenRequest p.claim plan available p.tools =
      .ok steps

/-- The steps of the run are the plan that the planner validated and froze. -/
structure FrozenBy (forbiddenRequest : String → Bool) (p : Planner) (r : RunRecord) : Prop where
  run : p.claim.runId = r.run.id
  plan : ∃ plan available steps ids, p.phase = .froze steps ∧
    validatePlan p.build forbiddenRequest p.claim plan available p.tools = .ok steps ∧
    ids.length = steps.length ∧ r.steps.map (·.still) = planRows steps ids

/-- What holds of a record beside the planners. -/
structure Recorded (forbiddenRequest : String → Bool) (planners : List Planner)
    (r : RunRecord) : Prop where
  unplanned : r.run.state = .created ∨ r.run.state = .planning → r.steps = []
  readied : r.run.state = .ready → r.steps ≠ []
  logged : r.steps ≠ [] ↔ ∃ e ∈ r.events, e.entersReady = true
  frozen : r.steps ≠ [] → ∃ p ∈ planners, FrozenBy forbiddenRequest p r

/-- The planners that froze a plan are still there. -/
def KeepsFrozen (planners planners' : List Planner) : Prop :=
  ∀ p ∈ planners, ∀ steps, p.phase = .froze steps → p ∈ planners'

section Invariants

variable {forbiddenRequest : String → Bool} {planners planners' : List Planner}
  {p : Planner} {r r' : RunRecord}

theorem Planner.Holds.spared (h : p.Holds forbiddenRequest r) (hspares : Spares r r') :
    p.Holds forbiddenRequest r' where
  begun hcreated := by
    rcases hspares.run with ⟨hsame, -⟩ | hlate
    · exact h.begun (hsame ▸ hcreated)
    · rw [hcreated] at hlate
      cases hlate
  revision hplanning := by
    rcases hspares.run with ⟨hsame, hrevision⟩ | hlate
    · rw [hrevision]
      exact h.revision (hsame ▸ hplanning)
    · rw [hplanning] at hlate
      cases hlate
  valid := h.valid

namespace Recorded

theorem spared (h : Recorded forbiddenRequest planners r) (hspares : Spares r r')
    (hkeeps : KeepsFrozen planners planners') : Recorded forbiddenRequest planners' r' where
  unplanned hearly := by
    rw [hspares.steps_eq_nil_iff]
    rcases hspares.run with ⟨hsame, -⟩ | hlate
    · rw [hsame] at hearly
      exact h.unplanned hearly
    · rcases hearly with hstate | hstate <;> rw [hstate] at hlate <;> cases hlate
  readied hready := by
    rw [ne_eq, hspares.steps_eq_nil_iff]
    rcases hspares.run with ⟨hsame, -⟩ | hlate
    · exact h.readied (hsame ▸ hready)
    · rw [hready] at hlate
      cases hlate
  logged := by
    rw [hspares.entersReady_iff, ← h.logged, ne_eq, ne_eq, hspares.steps_eq_nil_iff]
  frozen hsteps := by
    rw [ne_eq, hspares.steps_eq_nil_iff] at hsteps
    obtain ⟨p, hp, hrun, plan, available, steps, ids, hphase, hrest⟩ := h.frozen hsteps
    refine ⟨p, hkeeps p hp steps hphase, hrun.trans hspares.id.symm, plan, available, steps, ids,
      hphase, ?_⟩
    rw [hspares.steps]
    exact hrest

/-- A run without steps that was not ready yet. -/
theorem of_bare (hstate : r.run.state ≠ .ready) (hsteps : r.steps = [])
    (hlog : ∀ e ∈ r.events, e.entersReady = false) : Recorded forbiddenRequest planners r where
  unplanned _ := hsteps
  readied hready := absurd hready hstate
  logged := by
    rw [hsteps]
    refine iff_of_false (fun hne => hne rfl) ?_
    rintro ⟨e, he, hready⟩
    rw [hlog e he] at hready
    cases hready
  frozen hne := absurd hsteps hne

theorem of_unplanned (h : Unplanned r) : Recorded forbiddenRequest planners r :=
  of_bare (by rw [h.created]; nofun) h.steps h.log

/-- Nothing in the log of a run without steps says that it was ready. -/
theorem unlogged (h : Recorded forbiddenRequest planners r) (hsteps : r.steps = []) :
    ∀ e ∈ r.events, e.entersReady = false := by
  intro e he
  by_contra hready
  exact h.logged.mpr ⟨e, he, by simpa using hready⟩ hsteps

end Recorded

end Invariants

namespace Planning

variable {forbiddenRequest : String → Bool} {s s' : Planning} {l : PlanningStep}

structure Inv (forbiddenRequest : String → Bool) (s : Planning) : Prop where
  framed : s.runtime.Framed
  planners : ∀ p ∈ s.planners, ∃ r, s.runtime.runs.get p.claim.runId = some r ∧
    p.Holds forbiddenRequest r
  records : ∀ id r, s.runtime.runs.get id = some r → Recorded forbiddenRequest s.planners r

/-- Every record that was there changed as one, and a new one has no plan. -/
structure AllTogether (s s' : Planning) : Prop where
  kept : ∀ id r, s.runtime.runs.get id = some r →
    ∃ r', s'.runtime.runs.get id = some r' ∧ Together r r'
  new : ∀ id r', s'.runtime.runs.get id = some r' → s.runtime.runs.get id = none → r'.steps = []

/-- The runtime leaves the plans alone, and the planners that come or move hold what they
should. -/
theorem Inv.of_leaves (h : Inv forbiddenRequest s) (hframed : s'.runtime.Framed)
    (hleaves : s.runtime.Leaves s'.runtime) (hkeeps : KeepsFrozen s.planners s'.planners)
    (hplanners : ∀ p ∈ s'.planners, ∃ q ∈ s.planners, p.claim = q.claim ∧
      ∀ r, q.Holds forbiddenRequest r → p.Holds forbiddenRequest r) :
    Inv forbiddenRequest s' ∧ AllTogether s s' := by
  refine ⟨⟨hframed, fun p hp => ?_, fun id r' hr' => ?_⟩, fun id r hr => ?_,
    fun id r' hr' hnone => (hleaves.new id r' hr' hnone).steps⟩
  · obtain ⟨q, hq, hclaim, hholds⟩ := hplanners p hp
    obtain ⟨r, hr, hold⟩ := h.planners q hq
    obtain ⟨r', hr', hspares⟩ := hleaves.kept _ r hr
    exact ⟨r', hclaim ▸ hr', (hholds r hold).spared hspares⟩
  · cases hr : s.runtime.runs.get id with
    | none => exact .of_unplanned (hleaves.new id r' hr' hr)
    | some r =>
        obtain ⟨q, hq, hspares⟩ := hleaves.kept id r hr
        rw [hr', Option.some.injEq] at hq
        exact hq ▸ (h.records id r hr).spared hspares hkeeps
  · obtain ⟨q, hq, hspares⟩ := hleaves.kept id r hr
    exact ⟨q, hq, hspares.together⟩

/-- The planner with the number `pid` moves, and it had not frozen a plan. -/
theorem keepsFrozen_set {planners : List Planner} {pid : Nat} {p p' : Planner}
    (hp : planners[pid]? = some p) (hopen : ∀ steps, p.phase ≠ .froze steps) :
    KeepsFrozen planners (planners.set pid p') := by
  intro q hq steps hphase
  obtain ⟨i, hi⟩ := List.getElem?_of_mem hq
  have hother : pid ≠ i := by
    rintro rfl
    rw [hp, Option.some.injEq] at hi
    exact hopen steps (hi ▸ hphase)
  refine List.mem_of_getElem? (i := i) ?_
  rw [List.getElem?_set_ne hother]
  exact hi

theorem Inv.settle (h : Inv forbiddenRequest s) {pid : Nat} {p p' : Planner}
    (hp : s.planners[pid]? = some p) (hopen : ∀ steps, p.phase ≠ .froze steps)
    (hclaim : p'.claim = p.claim)
    (hvalid : ∀ steps, p'.phase = .accepted steps ∨ p'.phase = .froze steps →
      ∃ plan available, validatePlan p'.build forbiddenRequest p'.claim plan available p'.tools =
        .ok steps) :
    Inv forbiddenRequest (s.settle pid p') ∧ AllTogether s (s.settle pid p') := by
  refine h.of_leaves h.framed (.of_runs rfl) (keepsFrozen_set hp hopen) fun x hx => ?_
  rcases List.mem_or_eq_of_mem_set hx with hold | rfl
  · exact ⟨x, hold, rfl, fun _ hold => hold⟩
  · refine ⟨p, List.mem_of_getElem? hp, hclaim, fun r hold => ⟨hold.begun, ?_, hvalid⟩⟩
    rw [hclaim]
    exact hold.revision

/-- The transaction of a planner found its run and left it as the operation answers. -/
theorem onRun_planned {α : Type} {runtime : Runtime} {id : Uuid}
    {op : RunRecord → Except Fault (α × RunRecord)} {q : α × RunRecord}
    (hplain : ∀ r, Ensures (op r) fun p => Plain r p.2)
    (h : runtime.onRun id op = some q) :
    ∃ r, runtime.runs.get id = some r ∧ op r = .ok q ∧ q.2.run.id = id := by
  obtain ⟨r, hr, htx⟩ := Runtime.onRun_ok h
  have hid : Ensures (op r) fun p => p.2.run.id = r.run.id :=
    (hplain r).mono fun _ hplain => hplain.evolves.id_eq
  obtain ⟨hop, -⟩ := transact_coherent (Cache.empty_seen r) hid htx
  exact ⟨r, hr, hop, (hid _ hop).trans (Runs.get_id hr)⟩

/-- An early run becomes another one, which nobody is at work on. -/
theorem framed_commit {runtime : Runtime} {id : Uuid} {r r' : RunRecord}
    (h : runtime.Framed) (hr : runtime.runs.get id = some r)
    (hearly : r.run.state.isEarly = true) (hid : r'.run.id = id)
    (hids : (r'.steps.map (·.id)).Nodup) : (runtime.commit r').Framed where
  ids other q hq := by
    change (runtime.runs.put r').get other = some q at hq
    rw [Runs.get_put hr hid] at hq
    split at hq
    · cases hq
      exact hids
    · exact h.ids other q hq
  attends e he := by
    obtain ⟨q, hq, hold⟩ := h.attends e he
    show ∃ x, (runtime.runs.put r').get e.runId = some x ∧ Attends e x
    rw [Runs.get_put hr hid]
    split
    · next hsame =>
        rw [hsame, hr, Option.some.injEq] at hq
        subst hq
        exact ⟨r', rfl, hold.of_early hearly⟩
    · exact ⟨q, hq, hold⟩

/-- One run of the planners changes in a way that planning has of its own. -/
theorem Inv.of_commit (h : Inv forbiddenRequest s) {id : Uuid} {r r' : RunRecord}
    (hr : s.runtime.runs.get id = some r) (hearly : r.run.state.isEarly = true)
    (hid : r'.run.id = id) (hids : (r'.steps.map (·.id)).Nodup)
    (hruntime : s'.runtime = s.runtime.commit r')
    (hkeeps : KeepsFrozen s.planners s'.planners)
    (hrecord : Recorded forbiddenRequest s'.planners r')
    (hplanners : ∀ p ∈ s'.planners, p.claim.runId = id ∧ p.Holds forbiddenRequest r' ∨
      p.claim.runId ≠ id ∧ p ∈ s.planners)
    (htogether : Together r r') : Inv forbiddenRequest s' ∧ AllTogether s s' := by
  have hget : ∀ other, s'.runtime.runs.get other =
      if other = id then some r' else s.runtime.runs.get other := by
    intro other
    rw [hruntime]
    exact Runs.get_put hr hid other
  refine ⟨⟨?_, fun p hp => ?_, fun other q hq => ?_⟩, fun other q hq => ?_,
    fun other q' hq' hnone => ?_⟩
  · rw [hruntime]
    exact framed_commit h.framed hr hearly hid hids
  · rcases hplanners p hp with ⟨hown, hholds⟩ | ⟨hother, hold⟩
    · exact ⟨r', by rw [hget, if_pos hown], hholds⟩
    · obtain ⟨q, hq, hholds⟩ := h.planners p hold
      exact ⟨q, by rw [hget, if_neg hother]; exact hq, hholds⟩
  · rw [hget] at hq
    split at hq
    · cases hq
      exact hrecord
    · exact (h.records other q hq).spared (.refl q) hkeeps
  · rw [hget]
    split
    · next hsame =>
        rw [hsame, hr, Option.some.injEq] at hq
        exact ⟨r', rfl, hq ▸ htogether⟩
    · exact ⟨q, hq, (Spares.refl q).together⟩
  · rw [hget] at hq'
    split at hq'
    · next hsame =>
        rw [hsame, hr] at hnone
        cases hnone
    · rw [hnone] at hq'
      cases hq'

/-- A claim starts a planner of a run that nobody plans yet. -/
theorem Inv.start (h : Inv forbiddenRequest s) {build : Build} {runId : Uuid}
    {expectedRevision : Nat} {tools : Option (List ToolIdentity)} {now : Instant}
    {q : Option PlanningClaim × RunRecord}
    (hrun : s.runtime.onRun runId (claimPlanning build · expectedRevision tools now) = some q) :
    Inv forbiddenRequest (s.start build tools q) ∧ AllTogether s (s.start build tools q) := by
  obtain ⟨r, hr, hop, hid⟩ := onRun_planned (fun _ => claimPlanning_plain _ _) hrun
  obtain ⟨claim, r'⟩ := q
  cases claim with
  | none =>
      obtain rfl := claimPlanning_none hop
      have hleaves : s.runtime.Leaves (s.runtime.commit r') := .of_put hr (.refl r') rfl
      refine h.of_leaves (h.framed.of_leaves hleaves fun _ he => .inl he) hleaves
        (fun p hp _ _ => ?_) fun p hp => ⟨p, ?_, rfl, fun _ hold => hold⟩
      · simpa [Planning.start] using hp
      · simpa [Planning.start] using hp
  | some claim =>
      obtain ⟨hcreated, hplanning, hown, hrevision, -, hsteps, e, hevents, hquiet⟩ :=
        claimPlanning_moves hop
      have hrecord := h.records runId r hr
      have hnone : r'.steps = [] := hsteps.trans (hrecord.unplanned (.inl hcreated))
      have hlog : ∀ x ∈ r'.events, x.entersReady = false := by
        intro x hx
        rw [hevents] at hx
        rcases List.mem_append.mp hx with hx | hx
        · exact hrecord.unlogged (hrecord.unplanned (.inl hcreated)) x hx
        · rw [List.mem_singleton.mp hx]
          exact hquiet
      refine h.of_commit hr (by rw [hcreated]; rfl) hid (by rw [hnone]; exact List.nodup_nil) rfl
        (fun p hp _ _ => List.mem_append_left _ hp)
        (.of_bare (by rw [hplanning]; nofun) hnone hlog) (fun p hp => ?_) ?_
      · rcases List.mem_append.mp hp with hold | hnew
        · refine .inr ⟨fun hsame => ?_, hold⟩
          obtain ⟨x, hx, hholds⟩ := h.planners p hold
          rw [hsame, hr, Option.some.injEq] at hx
          exact hholds.begun (hx ▸ hcreated)
        · obtain rfl : p = _ := List.mem_singleton.mp hnew
          refine .inl ⟨hown.trans (Runs.get_id hr), by rw [hplanning]; nofun, fun _ => hrevision,
            fun steps hphase => ?_⟩
          rcases hphase with hphase | hphase <;> cases hphase
      · refine .kept (by rw [hsteps]) (fun hready => ?_) (fun _ => .inl hcreated)
          ⟨[e], hevents, fun x hx => ?_⟩
        · rw [hplanning] at hready
          cases hready
        · rw [List.mem_singleton.mp hx]
          exact hquiet

/-- The end of a planner whose transaction was rolled back. -/
theorem Inv.giveUp (h : Inv forbiddenRequest s) {pid : Nat} {p : Planner}
    (hp : s.planners[pid]? = some p) (hopen : ∀ steps, p.phase ≠ .froze steps) :
    Inv forbiddenRequest (s.settle pid { p with phase := .done }) ∧
      AllTogether s (s.settle pid { p with phase := .done }) :=
  h.settle hp hopen rfl fun steps hphase => by rcases hphase with hphase | hphase <;> cases hphase

/-- A validated plan is frozen for a run that has stayed in planning. -/
theorem Inv.freeze (h : Inv forbiddenRequest s) {pid : Nat} {p : Planner}
    {steps : List ValidatedStep} {ids : List Uuid} {now : Instant}
    (hp : s.planners[pid]? = some p) (hphase : p.phase = .accepted steps)
    (hlength : ids.length = steps.length) :
    Inv forbiddenRequest
        (s.conclude pid p (.freezePlan p.claim (steps.zip ids) now) (.froze steps)) ∧
      AllTogether s
        (s.conclude pid p (.freezePlan p.claim (steps.zip ids) now) (.froze steps)) := by
  have hopen : ∀ steps', p.phase ≠ .froze steps' := fun steps' hfroze => by
    rw [hphase] at hfroze
    cases hfroze
  unfold conclude
  split
  · next runtime hstep =>
      obtain ⟨q, hq, rfl⟩ := Option.map_eq_some_iff.mp hstep
      obtain ⟨r, hr, hop, hid⟩ := onRun_planned
        (fun _ => Runtime.alone_ensures (finalizePlan_plain _ _)) hq
      obtain ⟨r', hfinal, hop⟩ := bind_ok hop
      cases hop
      obtain ⟨hstate, hrevision, hnone, hready, hnext, -, hsteps, hids, e, hevents, henters⟩ :=
        finalizePlan_frozen hfinal
      obtain ⟨q, hq', hholds⟩ := h.planners p (List.mem_of_getElem? hp)
      obtain ⟨plan, available, hvalid⟩ := hholds.valid steps (.inl hphase)
      have hnonempty : r'.steps ≠ [] := by
        obtain ⟨-, hpos, -, haccepted⟩ := validatePlan_ok hvalid
        rw [haccepted.length_eq] at hpos
        rw [hsteps, ne_eq, ← List.length_eq_zero_iff, planRows, List.length_map, List.length_zip]
        omega
      have hstill : r'.steps.map (·.still) = planRows steps ids := by
        rw [hsteps, planRows, List.map_map]
        rfl
      have hfrozen : FrozenBy forbiddenRequest { p with phase := .froze steps } r' :=
        ⟨hid.symm, plan, available, steps, ids, rfl, hvalid, hlength, hstill⟩
      have hmine : { p with phase := .froze steps } ∈
          s.planners.set pid { p with phase := .froze steps } :=
        List.mem_of_getElem? (List.getElem?_set_self (List.getElem?_eq_some_iff.mp hp).1)
      refine h.of_commit hr (by rw [hstate]; rfl) hid hids rfl (keepsFrozen_set hp hopen) ?_
        (fun x hx => ?_) (.froze e hstate hready hnext hnone hnonempty hevents henters)
      · refine ⟨fun hearly => ?_, fun _ => hnonempty, ?_, fun _ => ⟨_, hmine, hfrozen⟩⟩
        · rw [hready] at hearly
          rcases hearly with hearly | hearly <;> cases hearly
        · exact iff_of_true hnonempty
            ⟨e, hevents ▸ List.mem_append_right _ (List.mem_singleton_self e), henters⟩
      · by_cases hown : x.claim.runId = p.claim.runId
        · refine .inl ⟨hown, by rw [hready]; decide, fun hplanning => ?_, fun steps' hphase' => ?_⟩
          · rw [hready] at hplanning
            cases hplanning
          · rcases List.mem_or_eq_of_mem_set hx with hold | rfl
            · obtain ⟨y, -, hholds'⟩ := h.planners x hold
              exact hholds'.valid steps' hphase'
            · rcases hphase' with hphase' | hphase' <;> cases hphase'
              exact ⟨plan, available, hvalid⟩
        · refine .inr ⟨hown, ?_⟩
          rcases List.mem_or_eq_of_mem_set hx with hold | rfl
          · exact hold
          · exact absurd rfl hown
  · exact h.giveUp hp hopen

/-- A failure is recorded for a run that has stayed in planning. -/
theorem Inv.failPlan (h : Inv forbiddenRequest s) {pid : Nat} {p : Planner}
    {failure : PlanningFailure} {now : Instant} (hp : s.planners[pid]? = some p)
    (hphase : p.phase = .failing failure) :
    Inv forbiddenRequest (s.conclude pid p (.failPlan p.claim failure.code now) .done) ∧
      AllTogether s (s.conclude pid p (.failPlan p.claim failure.code now) .done) := by
  have hopen : ∀ steps', p.phase ≠ .froze steps' := fun steps' hfroze => by
    rw [hphase] at hfroze
    cases hfroze
  unfold conclude
  split
  · next runtime hstep =>
      obtain ⟨q, hq, rfl⟩ := Option.map_eq_some_iff.mp hstep
      have hcommitted : (s.runtime.commit q.2).Framed ∧
          s.runtime.Leaves (s.runtime.commit q.2) :=
        h.framed.request (fun _ => finalizeFailure_routine .spares _ _) hq rfl fun _ he => .inl he
      obtain ⟨hframed, hleaves⟩ := hcommitted
      refine h.of_leaves hframed hleaves (keepsFrozen_set hp hopen) fun x hx => ?_
      rcases List.mem_or_eq_of_mem_set hx with hold | rfl
      · exact ⟨x, hold, rfl, fun _ hold => hold⟩
      · refine ⟨p, List.mem_of_getElem? hp, rfl, fun r hold => ⟨hold.begun, hold.revision, ?_⟩⟩
        intro steps' hphase'
        rcases hphase' with hphase' | hphase' <;> cases hphase'
  · exact h.giveUp hp hopen

/-- Every step keeps the invariant and changes every record as one. -/
theorem Inv.step (h : Inv forbiddenRequest s) (hnext : step forbiddenRequest s l = some s') :
    Inv forbiddenRequest s' ∧ AllTogether s s' := by
  cases l with
  | claim build runId expectedRevision tools now =>
      obtain ⟨q, hq, rfl⟩ := Option.map_eq_some_iff.mp hnext
      exact h.start hq
  | answer pid plan available =>
      obtain ⟨p, hp, hnext⟩ := bind_some hnext
      split at hnext
      · next hphase =>
          cases hnext
          refine h.settle hp (fun steps => by rw [hphase]; nofun) rfl fun steps hjudged => ?_
          dsimp only [Planner.judge] at hjudged
          split at hjudged
          · next accepted hvalid =>
              rcases hjudged with hjudged | hjudged <;> cases hjudged
              exact ⟨plan, available, hvalid⟩
          all_goals rcases hjudged with hjudged | hjudged <;> cases hjudged
      · cases hnext
  | unanswered pid failure =>
      obtain ⟨p, hp, hnext⟩ := bind_some hnext
      split at hnext
      · next hphase =>
          cases hnext
          refine h.settle hp (fun steps => by rw [hphase]; nofun) rfl fun steps hfails => ?_
          rcases hfails with hfails | hfails <;> cases hfails
      · cases hnext
  | freeze pid ids now =>
      obtain ⟨p, hp, hnext⟩ := bind_some hnext
      split at hnext
      · next steps hphase =>
          split at hnext
          · cases hnext
          · next hlength =>
              cases hnext
              exact h.freeze hp hphase (not_not.mp hlength)
      · cases hnext
  | fail pid now =>
      obtain ⟨p, hp, hnext⟩ := bind_some hnext
      split at hnext
      · next failure hphase =>
          cases hnext
          exact h.failPlan hp hphase
      · cases hnext
  | crash pid =>
      obtain ⟨p, hp, hnext⟩ := bind_some hnext
      split at hnext
      · cases hnext
      · cases hnext
      · next hfroze _ =>
          cases hnext
          exact h.giveUp hp hfroze
  | other l =>
      change (if l.plans then none else _) = _ at hnext
      split at hnext
      · cases hnext
      · next hplans =>
          obtain ⟨runtime, hruntime, rfl⟩ := Option.map_eq_some_iff.mp hnext
          rw [Bool.not_eq_true] at hplans
          obtain ⟨hframed, hleaves⟩ := h.framed.step hplans hruntime
          exact h.of_leaves hframed hleaves (fun p hp _ _ => hp)
            fun p hp => ⟨p, hp, rfl, fun _ hold => hold⟩

theorem Inv.of_start (hs : (machine forbiddenRequest).start s) : Inv forbiddenRequest s := by
  obtain ⟨hruns, hexecutors, hplanners⟩ := hs
  have hnone : ∀ id, s.runtime.runs.get id = none := by
    intro id
    rw [hruns]
    rfl
  refine ⟨⟨fun id r hr => ?_, ?_⟩, ?_, fun id r hr => ?_⟩
  · rw [hnone] at hr
    cases hr
  · rw [hexecutors]
    exact fun e he => absurd he List.not_mem_nil
  · rw [hplanners]
    exact fun p hp => absurd hp List.not_mem_nil
  · rw [hnone] at hr
    cases hr

theorem Inv.of_reachable (h : (machine forbiddenRequest).Reachable s) :
    Inv forbiddenRequest s :=
  h.invariant (fun _ => Inv.of_start) fun _ _ _ _ _ hinv hnext => (hinv.step hnext).1

/-! ## Whole runs -/

/-- A run whose plan is stored keeps it, and one that has left planning stays out of it. -/
structure Onward (r r' : RunRecord) : Prop where
  steps : r.steps ≠ [] → r'.steps.map (·.still) = r.steps.map (·.still)
  left : r'.run.state = .created ∨ r'.run.state = .planning →
    r.run.state = .created ∨ r.run.state = .planning

theorem Onward.trans {r r' r'' : RunRecord} (h : Onward r r') (h' : Onward r' r'') :
    Onward r r'' where
  steps hsteps := by
    have hsame := h.steps hsteps
    have hsteps' : r'.steps ≠ [] := fun hnone => by
      rw [hnone, List.map_nil] at hsame
      exact hsteps (List.map_eq_nil_iff.mp hsame.symm)
    exact (h'.steps hsteps').trans hsame
  left hearly := h.left (h'.left hearly)

theorem onward_of_together {r r' : RunRecord} (h : Together r r') : Onward r r' := by
  cases h with
  | kept hsteps _ hleft => exact ⟨fun _ => hsteps, hleft⟩
  | froze e hplanning hready _ hnone =>
      exact ⟨fun hsteps => absurd hnone hsteps, fun _ => .inr hplanning⟩

/-- What is later finds every run further on, and every planner with its claim. -/
structure Later (s s' : Planning) : Prop where
  records : ∀ id r, s.runtime.runs.get id = some r →
    ∃ r', s'.runtime.runs.get id = some r' ∧ Onward r r'
  claims : ∀ (pid : Nat) (p : Planner), s.planners[pid]? = some p →
    ∃ p', s'.planners[pid]? = some p' ∧ p'.claim = p.claim

theorem Later.refl (s : Planning) : Later s s where
  records _ r hr := ⟨r, hr, fun _ => rfl, fun hearly => hearly⟩
  claims _ p hp := ⟨p, hp, rfl⟩

theorem Later.trans {s s' s'' : Planning} (h : Later s s') (h' : Later s' s'') :
    Later s s'' where
  records id r hr := by
    obtain ⟨r', hr', honward⟩ := h.records id r hr
    obtain ⟨r'', hr'', honward'⟩ := h'.records id r' hr'
    exact ⟨r'', hr'', honward.trans honward'⟩
  claims pid p hp := by
    obtain ⟨p', hp', hclaim⟩ := h.claims pid p hp
    obtain ⟨p'', hp'', hclaim'⟩ := h'.claims pid p' hp'
    exact ⟨p'', hp'', hclaim'.trans hclaim⟩

theorem claims_set {planners : List Planner} {pid : Nat} {p : Planner}
    (hp : planners[pid]? = some p) (phase : PlannerPhase) (other : Nat) (q : Planner)
    (hq : planners[other]? = some q) :
    ∃ q', (planners.set pid { p with phase := phase })[other]? = some q' ∧
      q'.claim = q.claim := by
  by_cases hsame : pid = other
  · subst hsame
    rw [hp, Option.some.injEq] at hq
    exact ⟨_, List.getElem?_set_self (List.getElem?_eq_some_iff.mp hp).1, by rw [hq]⟩
  · exact ⟨q, by rw [List.getElem?_set_ne hsame]; exact hq, rfl⟩

theorem claims_conclude {pid : Nat} {p : Planner} {l : RuntimeStep} {phase : PlannerPhase}
    (hp : s.planners[pid]? = some p) (other : Nat) (q : Planner)
    (hq : s.planners[other]? = some q) :
    ∃ q', (s.conclude pid p l phase).planners[other]? = some q' ∧ q'.claim = q.claim := by
  unfold conclude
  split
  · exact claims_set hp _ other q hq
  · exact claims_set hp _ other q hq

/-- A planner keeps its number and its claim. -/
theorem step_claims (hnext : step forbiddenRequest s l = some s') (pid : Nat) (p : Planner)
    (hp : s.planners[pid]? = some p) : ∃ p', s'.planners[pid]? = some p' ∧ p'.claim = p.claim := by
  cases l with
  | claim build runId expectedRevision tools now =>
      obtain ⟨q, -, rfl⟩ := Option.map_eq_some_iff.mp hnext
      exact ⟨p, List.getElem?_append_left (List.getElem?_eq_some_iff.mp hp).1 ▸ hp, rfl⟩
  | other l =>
      change (if l.plans then none else _) = _ at hnext
      split at hnext
      · cases hnext
      · obtain ⟨runtime, -, rfl⟩ := Option.map_eq_some_iff.mp hnext
        exact ⟨p, hp, rfl⟩
  | freeze n ids now =>
      obtain ⟨q, hq, hnext⟩ := bind_some hnext
      split at hnext
      · split at hnext
        · cases hnext
        · cases hnext
          exact claims_conclude hq pid p hp
      · cases hnext
  | fail n now =>
      obtain ⟨q, hq, hnext⟩ := bind_some hnext
      split at hnext
      · cases hnext
        exact claims_conclude hq pid p hp
      · cases hnext
  | answer n | unanswered n =>
      obtain ⟨q, hq, hnext⟩ := bind_some hnext
      split at hnext
      · cases hnext
        exact claims_set hq _ pid p hp
      · cases hnext
  | crash n =>
      obtain ⟨q, hq, hnext⟩ := bind_some hnext
      split at hnext
      · cases hnext
      · cases hnext
      · cases hnext
        exact claims_set hq _ pid p hp

theorem Inv.later (h : Inv forbiddenRequest s)
    (hlater : ((machine forbiddenRequest).startingAt s).Reachable s') :
    Later s s' ∧ Inv forbiddenRequest s' := by
  refine ⟨?_, ?_⟩
  · refine Machine.later Later.refl Later.trans (fun t l t' ht hnext => ?_) h hlater
    obtain ⟨hinv, htogether⟩ := Inv.step ht hnext
    refine ⟨⟨fun id r hr => ?_, step_claims hnext⟩, hinv⟩
    obtain ⟨r', hr', hone⟩ := htogether.kept id r hr
    exact ⟨r', hr', onward_of_together hone⟩
  · refine hlater.invariant (I := Inv forbiddenRequest) ?_ fun _ _ _ _ _ hinv hnext =>
      (hinv.step hnext).1
    rintro t rfl
    exact h

/-- The run was ready, now or before. -/
def PassedReady (forbiddenRequest : String → Bool) (s : Planning) (id : Uuid) : Prop :=
  ∃ t r, (machine forbiddenRequest).Reachable t ∧
    ((machine forbiddenRequest).startingAt t).Reachable s ∧
    t.runtime.runs.get id = some r ∧ r.run.state = .ready

/-- A run with steps was ready when it got them. -/
theorem passedReady_of_steps (h : (machine forbiddenRequest).Reachable s) {id : Uuid}
    {r : RunRecord} (hr : s.runtime.runs.get id = some r) (hsteps : r.steps ≠ []) :
    PassedReady forbiddenRequest s id := by
  refine h.invariant (I := fun s => ∀ id r, s.runtime.runs.get id = some r → r.steps ≠ [] →
    PassedReady forbiddenRequest s id) ?_ ?_ id r hr hsteps
  · rintro t ⟨hruns, -⟩ id r hr
    rw [hruns] at hr
    cases hr
  · intro t l t' ht _ ih hnext id r' hr' hsteps'
    have hinv := Inv.of_reachable ht
    obtain ⟨hinv', htogether⟩ := hinv.step hnext
    cases hr : t.runtime.runs.get id with
    | none => exact absurd (htogether.new id r' hr' hr) hsteps'
    | some r =>
        obtain ⟨q, hq, hone⟩ := htogether.kept id r hr
        rw [hr', Option.some.injEq] at hq
        subst hq
        cases hone with
        | kept hsame =>
            have hold : r.steps ≠ [] := fun hnone => by
              rw [hnone, List.map_nil] at hsame
              exact hsteps' (List.map_eq_nil_iff.mp hsame)
            obtain ⟨u, x, hu, hlater, hx, hready⟩ := ih id r hr hold
            exact ⟨u, x, hu, .step hlater trivial hnext, hx, hready⟩
        | froze e hplanning hready =>
            exact ⟨t', r', .step ht trivial hnext, .start rfl, hr', hready⟩

/-- A planner whose run has left planning writes nothing. -/
theorem late_planner_writes_nothing {pid : Nat} {p : Planner} {r : RunRecord}
    (hp : s.planners[pid]? = some p) (hr : s.runtime.runs.get p.claim.runId = some r)
    (hleft : r.run.state ≠ .planning) (hreturns : l.returns = some pid)
    (hnext : step forbiddenRequest s l = some s') (id : Uuid) :
    s'.runtime.runs.get id = s.runtime.runs.get id := by
  cases l with
  | freeze n ids now =>
      obtain rfl : n = pid := Option.some.inj hreturns
      obtain ⟨q, hq, hnext⟩ := bind_some hnext
      obtain rfl : p = q := Option.some.inj (hp.symm.trans hq)
      split at hnext
      · split at hnext
        · cases hnext
        · cases hnext
          unfold conclude
          split
          · next runtime hstep =>
              obtain ⟨x, hx, -⟩ := Option.map_eq_some_iff.mp hstep
              obtain ⟨r', hr', hop, -⟩ := onRun_planned
                (fun _ => Runtime.alone_ensures (finalizePlan_plain _ _)) hx
              rw [hr, Option.some.injEq] at hr'
              subst hr'
              obtain ⟨after, hfinal, -⟩ := bind_ok hop
              exact absurd (finalizePlan_frozen hfinal).1 hleft
          · rfl
      · cases hnext
  | fail n now =>
      obtain rfl : n = pid := Option.some.inj hreturns
      obtain ⟨q, hq, hnext⟩ := bind_some hnext
      obtain rfl : p = q := Option.some.inj (hp.symm.trans hq)
      split at hnext
      · cases hnext
        unfold conclude
        split
        · next runtime hstep =>
            obtain ⟨x, hx, rfl⟩ := Option.map_eq_some_iff.mp hstep
            obtain ⟨r', hr', hop, hid⟩ := onRun_planned
              (fun _ => finalizeFailure_routine .plain _ _) hx
            rw [hr, Option.some.injEq] at hr'
            subst hr'
            rw [finalizeFailure, if_pos (.inl hleft), Except.ok.injEq] at hop
            rw [← hop] at hid ⊢
            show (s.runtime.runs.put r).get id = _
            rw [Runs.get_put hr hid]
            split
            · next hsame => rw [hsame, hr]
            · rfl
        · rfl
      · cases hnext
  | _ => cases hreturns

/-- Steps exist exactly for the runs that were ready, as the log says of them too. They are
the plan that a planner of the run validated, in the order of their ordinals, they came with
the state and the event in one step, and they stay. A planner that comes back after its run
left planning, or to another revision, writes nothing. -/
theorem plan_frozen_at_once (h : (machine forbiddenRequest).Reachable s) :
    (∀ id r, s.runtime.runs.get id = some r →
      (r.steps ≠ [] ↔ PassedReady forbiddenRequest s id) ∧
      (r.steps ≠ [] ↔ ∃ e ∈ r.events, e.entersReady = true) ∧
      (r.steps ≠ [] → (∃ p ∈ s.planners, FrozenBy forbiddenRequest p r) ∧
        r.steps.map (·.ordinal) = List.range r.steps.length)) ∧
    (∀ l s', (machine forbiddenRequest).next s l = some s' → AllTogether s s') ∧
    (∀ s', ((machine forbiddenRequest).startingAt s).Reachable s' → Later s s') ∧
    ∀ (pid : Nat) p r, s.planners[pid]? = some p →
      s.runtime.runs.get p.claim.runId = some r →
      (r.run.state ≠ .planning ∨ r.run.revision ≠ p.claim.planningRevision) →
      ∀ s', ((machine forbiddenRequest).startingAt s).Reachable s' →
        ∀ l s'', l.returns = some pid → (machine forbiddenRequest).next s' l = some s'' →
          ∀ id, s''.runtime.runs.get id = s'.runtime.runs.get id := by
  have hinv := Inv.of_reachable h
  refine ⟨fun id r hr => ⟨⟨passedReady_of_steps h hr, ?_⟩, (hinv.records id r hr).logged, ?_⟩,
    fun l s' hnext => (hinv.step hnext).2, fun s' hlater => (hinv.later hlater).1, ?_⟩
  · rintro ⟨t, x, ht, hlater, hx, hready⟩
    have hinv' := Inv.of_reachable ht
    have hsteps := (hinv'.records id x hx).readied hready
    obtain ⟨r', hr', honward⟩ := (hinv'.later hlater).1.records id x hx
    rw [hr, Option.some.injEq] at hr'
    subst hr'
    intro hnone
    have hsame := honward.steps hsteps
    rw [hnone, List.map_nil] at hsame
    exact hsteps (List.map_eq_nil_iff.mp hsame.symm)
  · intro hsteps
    obtain ⟨p, hp, hfrozen⟩ := (hinv.records id r hr).frozen hsteps
    refine ⟨⟨p, hp, hfrozen⟩, ?_⟩
    obtain ⟨plan, available, steps, ids, -, hvalid, hlength, hstill⟩ := hfrozen.plan
    obtain ⟨-, -, -, haccepted⟩ := validatePlan_ok hvalid
    have hcolumn : ∀ rows : List AgentStep,
        rows.map (·.ordinal) = (rows.map (·.still)).map (·.ordinal) := fun rows => by
      rw [List.map_map]
      rfl
    have hsize : r.steps.length = steps.length := by
      have hrows := congrArg List.length hstill
      rw [List.length_map, planRows, List.length_map, List.length_zip] at hrows
      omega
    rw [hcolumn, hstill, planRows_ordinals hlength, haccepted.ordinals, hsize]
  · intro pid p r hp hr hstale s' hlater l s'' hreturns hnext id
    obtain ⟨x, hx, hholds⟩ := hinv.planners p (List.mem_of_getElem? hp)
    rw [hr, Option.some.injEq] at hx
    subst hx
    have hleft : ¬ (r.run.state = .created ∨ r.run.state = .planning) := by
      rintro (hcreated | hplanning)
      · exact hholds.begun hcreated
      · exact hstale.elim (fun hne => hne hplanning) fun hne => hne (hholds.revision hplanning)
    have hlate := (hinv.later hlater).1
    obtain ⟨r', hr', honward⟩ := hlate.records _ r hr
    obtain ⟨p', hp', hclaim⟩ := hlate.claims pid p hp
    refine late_planner_writes_nothing hp' (hclaim ▸ hr') (fun hplanning => ?_) hreturns hnext id
    exact hleft (honward.left (.inr hplanning))

/-- A run whose plan is frozen. -/
def sampleFrozen : List PlanningStep :=
  [.other (.create (currentBuild bareScalars id) Runtime.sampleWorld
      ⟨none, "manual", "1", "Find the notes"⟩ "key" "print" 0 1 2),
    .claim (currentBuild bareScalars id) 1 0 none 1,
    .answer 0 modestPlan false,
    .freeze 0 [7] 2]

theorem plan_frozen_at_once_sample :
    ∃ s r, (machine fun _ => false).Reachable s ∧ s.runtime.runs.get 1 = some r ∧
      PassedReady (fun _ => false) s 1 ∧ r.steps.map (·.ordinal) = [0] := by
  obtain ⟨s, hs, hfrozen⟩ := Machine.exists_reachable_of_exec (machine fun _ => false) sampleFrozen
    (fun s => (s.runtime.runs.get 1).any fun r => r.steps.length == 1) (s := {}) ⟨rfl, rfl, rfl⟩
    (by decide +kernel)
  obtain ⟨r, hr, hone⟩ := (Option.any_eq_true _ _).mp hfrozen
  rw [beq_iff_eq] at hone
  have hsteps : r.steps ≠ [] := fun hnone => by
    rw [hnone] at hone
    cases hone
  obtain ⟨hready, -, hplan⟩ := (plan_frozen_at_once hs).1 1 r hr
  refine ⟨s, r, hs, hr, hready.mp hsteps, ?_⟩
  rw [(hplan hsteps).2, hone]
  rfl

end Planning

end SecondBrain
