import SecondBrain.AgentRuns.Turns
import SecondBrain.AgentRuns.ResultHistory
import SecondBrain.AgentRuns.LateResults

/-!
# Budgets over whole runs of the runtime

Where no transaction of an executor decides on rows that its session read
before they were changed, every step of the machine is a turn of one record
(`served_turned`), so every run is in order and within its budgets in every
state (`Ordered.of_coherent`). What such a copy can do is shown by a run in
which one step succeeds twice.
-/

namespace SecondBrain

open Lib

namespace Runtime

variable {s s' : Runtime} {l : RuntimeStep} {pid : Nat} {id : Uuid} {r r' : RunRecord}
  {e : Executor}

/-- The executor whose transaction the step is holds no copy of a row that is
not as committed. -/
def coherent (s : Runtime) (l : RuntimeStep) : Bool :=
  !l.transacts || (l.pid?.bind (s.executors[·]?)).all fun e =>
    (s.runs.get e.runId).all fun r => (e.cacheFor l).current r

/-- The build that reserves in this step. -/
def reservesWith (s : Runtime) (l : RuntimeStep) (build : Build) : Prop :=
  match l with
  | .reserve pid _ _ _ => ∃ e, s.executors[pid]? = some e ∧ e.build = build
  | _ => False

/-- When the step leaves nothing going on of a run that it ends. -/
def settlesAll (s : Runtime) (l : RuntimeStep) (r : RunRecord) : Prop :=
  match l with
  | .recover build runId now => s.runs.get runId = some r → ambiguous build r now = false
  | .reserve pid _ _ _ => ∀ e, s.executors[pid]? = some e → e.phase = .reserving →
      s.runs.get e.runId = some r → Permitted e.allowedTools r
  | .startSynthesis pid _ _ => ∀ e, s.executors[pid]? = some e → e.phase = .left →
      s.runs.get e.runId = some r → Drained r
  | .persist pid _ _ _ | .failSynthesis pid _ => ∀ e, s.executors[pid]? = some e →
      e.phase.asks = true → s.runs.get e.runId = some r → Drained r
  | _ => True

/-- What a step does to the records: nothing, a new run, or a turn of one. -/
inductive Turned (s : Runtime) (l : RuntimeStep) (s' : Runtime) : Prop where
  | same : s'.runs = s.runs → Turned s l s'
  | created (x : RunRecord) : s.runs.get x.run.id = none → x.run.state = .created →
      x.steps = [] → x.invocations = [] → s'.runs = s.runs ++ [x] → Turned s l s'
  | turned (id : Uuid) (r r' : RunRecord) : s.runs.get id = some r → r'.run.id = id →
      r'.run.still = r.run.still → s'.runs = s.runs.put r' →
      Turn (s.reservesWith l) (s.settlesAll l r) r r' → Turned s l s'

/-- The invocation that the reservation names is there, of the step it names. -/
def Names (s : Runtime) (runId : Uuid) (res : Reservation) : Prop :=
  ∃ r, s.runs.get runId = some r ∧
    ∃ i ∈ r.invocations, i.id = res.invocationId ∧ i.stepId = res.stepId

def Linked (s : Runtime) : Prop :=
  ∀ (pid : Nat) (e : Executor) (res : Reservation), s.executors[pid]? = some e →
    e.phase ≠ .done → e.last = some res → s.Names e.runId res

/-! ## Requests -/

theorem request_turned {α : Type} {op : RunRecord → Except Fault (α × RunRecord)}
    {p : α × RunRecord} (hrun : s.onRun id op = some p)
    (hrows : ∀ id r, s.runs.get id = some r → Orderly r)
    (hevolves : ∀ r, Ensures (op r) fun p => Evolves r p.2)
    (hop : ∀ r, s.runs.get id = some r → Orderly r → Ensures (op r)
      fun p => Turn (s.reservesWith l) (s.settlesAll l r) r p.2)
    (hs' : s'.runs = s.runs.put p.2) : Turned s l s' := by
  obtain ⟨r, hr, htx⟩ := onRun_ok hrun
  obtain ⟨hok, -⟩ := transact_coherent (Cache.empty_seen r)
    ((hevolves r).mono fun _ h => h.id_eq) htx
  exact .turned id r p.2 hr ((transact_id htx).trans (Runs.get_id hr))
    (Evolves.still_eq (hevolves r _ hok)) hs' (hop r hr (hrows id r hr) _ hok)

theorem stepRequest_turned (hpid : l.pid? = none) (hnext : served.next s l = some s')
    (hrows : ∀ id r, s.runs.get id = some r → Orderly r) : Turned s l s' := by
  cases l with
  | transition => cases hnext
  | create build world q keyHash fingerprint now runId correlationId =>
      unfold served Runtime.step at hnext
      simp only [] at hnext
      split at hnext
      · next hcreate =>
          cases hnext
          rcases createRun_ok hcreate with ⟨_, _, _, _, rfl⟩ | ⟨_, hid, _, _, rfl⟩
          · exact .same rfl
          · exact .created _ hid rfl rfl rfl rfl
      · cases hnext
  | cancel =>
      obtain ⟨p, hp, rfl⟩ := Option.map_eq_some_iff.mp hnext
      exact request_turned hp hrows
        (fun _ => evolves_of_plain (alone_ensures (cancelRun_routine .plain _)))
        (fun _ _ hr => .answer (cancelRun_turn hr _)) rfl
  | claimPlan =>
      obtain ⟨p, hp, rfl⟩ := Option.map_eq_some_iff.mp hnext
      exact request_turned hp hrows (fun _ => evolves_of_plain (claimPlanning_plain _ _))
        (fun _ _ hr => claimPlanning_turn hr _ _) rfl
  | freezePlan =>
      obtain ⟨p, hp, rfl⟩ := Option.map_eq_some_iff.mp hnext
      exact request_turned hp hrows
        (fun _ => evolves_of_plain (alone_ensures (finalizePlan_plain _ _)))
        (fun _ _ hr => .answer (finalizePlan_turn hr _ _)) rfl
  | failPlan =>
      obtain ⟨p, hp, rfl⟩ := Option.map_eq_some_iff.mp hnext
      exact request_turned hp hrows (fun _ => evolves_of_plain (finalizeFailure_routine .plain _ _))
        (fun _ _ hr => finalizeFailure_turn hr _ _) rfl
  | propose =>
      obtain ⟨p, hp, rfl⟩ := Option.map_eq_some_iff.mp hnext
      exact request_turned hp hrows (fun _ => evolves_of_files (createProposal_files _ _ _ _ _))
        (fun _ _ _ => (createProposal_kept _ _ _ _ _).mono fun _ h =>
          .kept (by rw [h.1]) h.2.steps h.2.invocations) rfl
  | review =>
      obtain ⟨p, hp, rfl⟩ := Option.map_eq_some_iff.mp hnext
      exact request_turned hp hrows (fun _ => reviewProposal_evolves _ _ _)
        (fun _ _ _ => (reviewProposal_kept _ _ _).mono fun _ h =>
          .kept (by rw [h.1]) h.2.steps h.2.invocations) rfl
  | execute =>
      obtain ⟨p, hp, rfl⟩ := Option.map_eq_some_iff.mp hnext
      exact request_turned hp hrows (fun _ => evolves_of_plain (claimExecution_routine .plain _ _))
        (fun _ _ hr => claimExecution_turn hr _ _) spawn_runs
  | recover =>
      obtain ⟨p, hp, rfl⟩ := Option.map_eq_some_iff.mp hnext
      exact request_turned hp hrows (fun _ => evolves_of_plain (prepareOne_routine .plain))
        (fun _ hget hr => (prepareOne_turn hr).mono fun _ h =>
          h.mono (fun _ hbuild => hbuild) fun hsettles => hsettles hget) spawn_runs
  | observe build runId =>
      obtain ⟨r, hr, hnext⟩ := bind_some hnext
      obtain ⟨definition, -, hnext⟩ := bind_some hnext
      split at hnext
      · cases hnext
      · cases hnext
        exact .same rfl
  | _ => cases hpid

/-! ## Steps of executors -/

theorem startOp_turn {B : Build → Prop} {valid : Bool} {now : Instant} (hr : Orderly r) :
    Ensures (e.startOp valid now r) fun p => Turn B (Drained r) r p.2 := by
  unfold Executor.startOp
  split
  · exact claimSynthesis_turn hr
  · exact claimSynthesis_turn hr
  · exact beginDailyBrief_turn hr _
  · exact beginProjectWatch_turn hr _
  · exact .error _

theorem persistOp_turn {B : Build → Prop} {w : World} {q : Synthesis} {now : Instant}
    (hr : Orderly r) : Ensures (e.persistOp w q now r) fun p => Turn B (Drained r) r p.2 := by
  unfold Executor.persistOp
  split
  · exact (persistResearchResult_turn hr _ _ _ _).bind fun _ h => Ensures.pure_iff.mpr h
  · exact (persistCuratorResult_turn hr _ _ _ _ _ _ _).bind fun _ h => Ensures.pure_iff.mpr h
  · exact .answer (persistDailyBriefResult_turn _ _ _ _ _ _)
  · exact .answer (persistProjectWatchResult_turn _ _ _ _)
  · exact .error _

/-- With no outdated copy the transaction is the operation on the record. -/
theorem Ran.ok_of_current {α : Type} {op : RunRecord → Except Fault (α × RunRecord)} {a : α}
    (h : s.Ran e l op r a r') (hcurrent : (e.cacheFor l).current r = true)
    (hevolves : ∀ r, Ensures (op r) fun p => Evolves r p.2) : op r = .ok (a, r') :=
  (transact_coherent (Cache.seen_of_current hcurrent)
    ((hevolves r).mono fun _ h => h.id_eq) h.committed).1

theorem coherent_pid (hok : s.coherent l = true) (hpid : l.pid? = some pid)
    (he : s.executors[pid]? = some e) (hr : s.runs.get e.runId = some r)
    (htx : l.transacts = true) : (e.cacheFor l).current r = true := by
  have hbind : l.pid?.bind (s.executors[·]?) = some e := by rw [hpid]; exact he
  unfold coherent at hok
  rw [htx, hbind, Option.all_some, hr] at hok
  exact hok

theorem Ran.turned {α : Type} {op : RunRecord → Except Fault (α × RunRecord)} {a : α}
    {e' : Executor} (hran : s.Ran e l op r a r') (hrows : Orderly r)
    (hcurrent : (e.cacheFor l).current r = true)
    (hevolves : ∀ r, Ensures (op r) fun p => Evolves r p.2)
    (hop : Orderly r → Ensures (op r)
      fun p => Turn (s.reservesWith l) (s.settlesAll l r) r p.2) :
    Turned s l (s.advance pid r' e') := by
  have hok := hran.ok_of_current hcurrent hevolves
  exact .turned e.runId r r' hran.found ((transact_id hran.committed).trans (Runs.get_id hran.found))
    (Evolves.still_eq (hevolves r _ hok)) rfl (hop hrows _ hok)

theorem execStep_turned (hpid : l.pid? = some pid) (he : s.executors[pid]? = some e)
    (hrows : ∀ id r, s.runs.get id = some r → Orderly r) (hlinked : s.Linked)
    (hok : s.coherent l = true) (hmove : ExecMove s pid e l s') : Turned s l s' := by
  have hcurrent : ∀ {r : RunRecord}, s.runs.get e.runId = some r → l.transacts = true →
      (e.cacheFor l).current r = true := fun hr htx => coherent_pid hok hpid he hr htx
  have mine : ∀ {n : Nat}, l.pid? = some n → s.executors[n]? = some e := by
    intro n hn
    rwa [← Option.some.inj (hpid.symm.trans hn)]
  cases hmove with
  | claimed _ _ hran | notClaimed _ _ hran =>
      exact hran.turned (hrows _ _ hran.found) (hcurrent hran.found rfl)
        (fun _ => evolves_of_plain (claimExecution_routine .plain _ _))
        fun hr => claimExecution_turn hr _ _
  | reserved hphase hran | drained hphase hran =>
      refine hran.turned (hrows _ _ hran.found) (hcurrent hran.found rfl)
        (fun _ => evolves_of_plain (reserveNext_routine .plain _ _ _))
        fun hr => (reserveNext_turn hr _ _ _).mono fun p h => h.mono ?_ ?_
      · rintro build rfl
        exact ⟨e, mine rfl, rfl⟩
      · exact fun hsettles => hsettles e (mine rfl) hphase hran.found
  | @finalized _ _ _ _ _ last r _ _ _ _ hphase hanswer hlast hran =>
      refine hran.turned (hrows _ _ hran.found) (hcurrent hran.found rfl)
        (fun _ => evolves_of_plain (finalizeInvocation_routine .plain _ _ _ _ _))
        fun hr => finalizeInvocation_turn hr ?_ hanswer
      intro i hi
      have hwork : e.phase ≠ .done := by
        rw [hphase, Executor.finalizesFrom]
        split <;> decide
      obtain ⟨r₁, hr₁, j, hj, hjid, hjs⟩ := hlinked pid e last he hwork hlast
      obtain rfl : r = r₁ := Option.some.inj (hran.found.symm.trans hr₁)
      obtain ⟨hmem, hid⟩ := getInvocation_mem hi
      rw [hr.invocation_eq hmem hj (hid.trans hjid.symm), hjs]
  | started hphase _ hran =>
      refine hran.turned (hrows _ _ hran.found) (hcurrent hran.found rfl)
        (fun _ => evolves_of_plain (startOp_routine .plain))
        fun hr => (startOp_turn hr).mono fun _ h => h.mono (fun _ hbuild => hbuild) ?_
      exact fun hsettles => hsettles e (mine rfl) hphase hran.found
  | persisted hphase hran =>
      refine hran.turned (hrows _ _ hran.found) (hcurrent hran.found rfl)
        (fun _ => evolves_of_files persistOp_files)
        fun hr => (persistOp_turn hr).mono fun _ h => h.mono (fun _ hbuild => hbuild) ?_
      exact fun hsettles => hsettles e (mine rfl) (by rw [hphase]; rfl) hran.found
  | failed hphase hran =>
      refine hran.turned (hrows _ _ hran.found) (hcurrent hran.found rfl)
        (fun _ => evolves_of_plain (alone_ensures (failResult_routine .plain _)))
        fun hr => (Ensures.answer (failResult_turn hr _)).mono
          fun _ h => h.mono (fun _ hbuild => hbuild) ?_
      exact fun hsettles => hsettles e (mine rfl) (by rw [hphase]; rfl) hran.found
  | completed _ hran =>
      exact hran.turned (hrows _ _ hran.found) (hcurrent hran.found rfl)
        (fun _ => evolves_of_plain (completeOp_routine .plain))
        fun hr => .answer (completeRun_turn hr _ _)
  | reloaded | unanswered | refused | ended => exact .same rfl

theorem served_turned (hrows : ∀ id r, s.runs.get id = some r → Orderly r)
    (hlinked : s.Linked) (hok : s.coherent l = true) (hnext : served.next s l = some s') :
    Turned s l s' := by
  cases hpid : l.pid? with
  | none => exact stepRequest_turned hpid hnext hrows
  | some pid =>
      obtain ⟨e, he, hmove⟩ := exec_of_served hpid hnext
      exact execStep_turned hpid he hrows hlinked hok hmove

/-! ## The invariant -/

/-- An invocation that was there still is. -/
theorem Turned.names (h : Turned s l s') (hrows : ∀ id r, s.runs.get id = some r → Orderly r)
    {res : Reservation} (hnames : s.Names id res) : s'.Names id res := by
  obtain ⟨r, hr, i, hi, hid, hstep⟩ := hnames
  cases h with
  | same hruns => exact ⟨r, by rw [hruns, hr], i, hi, hid, hstep⟩
  | created x _ _ _ _ hruns =>
      refine ⟨r, ?_, i, hi, hid, hstep⟩
      rw [hruns, Runs.get, List.find?_append, show s.runs.find? _ = some r from hr]
      rfl
  | turned id₀ r₀ r' hr₀ hrid _ hruns hturn =>
      by_cases hsame : id = id₀
      · subst hsame
        obtain rfl := Option.some.inj (hr.symm.trans hr₀)
        obtain ⟨i', hi', hstill⟩ := hturn.invocation_to (hrows _ _ hr) hi
        refine ⟨r', ?_, i', hi', ?_, ?_⟩
        · rw [hruns, Runs.get_put hr hrid, if_pos rfl]
        · exact (@congrArg _ _ i'.still i.still ToolInvocation.id hstill).trans hid
        · exact (@congrArg _ _ i'.still i.still ToolInvocation.stepId hstill).trans
            hstep
      · refine ⟨r, ?_, i, hi, hid, hstep⟩
        rw [hruns, Runs.get_put hr₀ hrid, if_neg hsame, hr]

/-- What an executor that is not done names after a step: nothing, what it named
before, or the invocation it has just reserved. -/
def Follows (s s' : Runtime) (pid : Nat) (e' : Executor) : Prop :=
  e'.phase = .done ∨ e'.last = none ∨
    (∃ e, s.executors[pid]? = some e ∧ e.phase ≠ .done ∧ e'.runId = e.runId ∧
      e'.last = e.last) ∨
    ∃ res, e'.last = some res ∧ s'.Names e'.runId res

theorem follows_of_old {q : Nat} {x : Executor} (hx : s.executors[q]? = some x) :
    Follows s s' q x := by
  by_cases hdone : x.phase = .done
  · exact .inl hdone
  · exact .inr (.inr (.inl ⟨x, hx, hdone, rfl, rfl⟩))

theorem follows_of_set {e' : Executor} (hexec : s'.executors = s.executors.set pid e')
    (hown : Follows s s' pid e') {q : Nat} {x : Executor} (hx : s'.executors[q]? = some x) :
    Follows s s' q x := by
  rcases executors_set hexec q x hx with ⟨-, hx⟩ | ⟨hq, hx⟩
  · exact follows_of_old hx
  · rw [hq, ← Option.some.inj hx]
    exact hown

/-- A request leaves the executors alone or starts one, which has reserved nothing
and may use what the agent may, or has yet to claim its run. -/
theorem executor_of_request (hpid : l.pid? = none) (hnext : served.next s l = some s')
    {q : Nat} {x : Executor} (hx : s'.executors[q]? = some x) :
    s.executors[q]? = some x ∨
      x.last = none ∧ (x.allowedTools = none ∨ x.phase = .starting) := by
  have started : ∀ {e : Executor}, e.last = none →
      e.allowedTools = none ∨ e.phase = .starting → s'.executors = s.executors ++ [e] →
      s.executors[q]? = some x ∨
        x.last = none ∧ (x.allowedTools = none ∨ x.phase = .starting) := by
    intro e hlast huse hexec
    rcases executors_append hexec q x hx with ⟨-, hx⟩ | ⟨-, hx⟩
    · exact .inl hx
    · cases hx
      exact .inr ⟨hlast, huse⟩
  have spawned : ∀ {kind : ExecutorKind} {build : Build}
      {p : Option ExecutionClaim × RunRecord}, s' = s.spawn kind build p →
      s.executors[q]? = some x ∨
        x.last = none ∧ (x.allowedTools = none ∨ x.phase = .starting) := by
    intro kind build p hs'
    obtain ⟨claim, r⟩ := p
    cases claim with
    | none => exact .inl (by rw [hs'] at hx; exact hx)
    | some claim => exact started (e := claim.executor kind build) rfl (.inl rfl) (by rw [hs']; rfl)
  cases l with
  | transition => cases hnext
  | create build world request keyHash fingerprint now runId correlationId =>
      unfold served Runtime.step at hnext
      simp only [] at hnext
      split at hnext
      · cases hnext
        exact .inl hx
      · cases hnext
  | cancel | claimPlan | freezePlan | failPlan | propose | review =>
      obtain ⟨p, -, rfl⟩ := Option.map_eq_some_iff.mp hnext
      exact .inl hx
  | execute | recover =>
      obtain ⟨p, -, hs'⟩ := Option.map_eq_some_iff.mp hnext
      exact spawned hs'.symm
  | observe build runId =>
      obtain ⟨r, hr, hnext⟩ := bind_some hnext
      obtain ⟨definition, -, hnext⟩ := bind_some hnext
      split at hnext
      · cases hnext
      · have hs' := Option.some.inj hnext
        exact started rfl (.inr rfl) (by rw [← hs'])
  | _ => cases hpid

theorem stepRequest_follows (hpid : l.pid? = none) (hnext : served.next s l = some s')
    {q : Nat} {x : Executor} (hx : s'.executors[q]? = some x) : Follows s s' q x :=
  (executor_of_request hpid hnext hx).elim follows_of_old fun h => .inr (.inl h.1)

theorem execStep_follows (he : s.executors[pid]? = some e) (hmove : ExecMove s pid e l s')
    (hok : ∀ r, s.runs.get e.runId = some r → l.transacts = true →
      (e.cacheFor l).current r = true)
    {q : Nat} {x : Executor} (hx : s'.executors[q]? = some x) : Follows s s' q x := by
  have mine : ∀ {e' : Executor}, e.phase ≠ .done → e'.runId = e.runId → e'.last = e.last →
      Follows s s' pid e' := fun hphase hown hlast => .inr (.inr (.inl ⟨e, he, hphase, hown, hlast⟩))
  cases hmove with
  | claimed hphase _ hran | drained hphase hran =>
      refine follows_of_set rfl ?_ hx
      exact mine (fun hdone => by rw [hphase] at hdone; cases hdone) rfl rfl
  | notClaimed | completed => exact follows_of_set rfl (.inl rfl) hx
  | @reserved _ _ _ _ r r' next _ hphase hran =>
      have hid := (transact_id hran.committed).trans (Runs.get_id hran.found)
      have hop := hran.ok_of_current (hok r hran.found rfl)
        fun _ => evolves_of_plain (reserveNext_routine .plain _ _ _)
      obtain ⟨-, -, -, i, hi, hinv, hstep, -⟩ := reserveNext_work (k := none) _ _ _ _ hop
      refine follows_of_set rfl (.inr (.inr (.inr ⟨next, rfl, r', ?_, i, hi, hinv, hstep⟩))) hx
      exact (Runs.get_put hran.found hid e.runId).trans (if_pos rfl)
  | reloaded hphase | unanswered hphase | refused hphase =>
      refine follows_of_set rfl ?_ hx
      exact mine (fun hdone => by rw [hphase] at hdone; cases hdone) rfl rfl
  | finalized hphase _ _ hran =>
      have hwork : e.phase ≠ .done := by
        rw [hphase, Executor.finalizesFrom]
        split <;> decide
      refine follows_of_set rfl ?_ hx
      exact mine hwork rfl rfl
  | started hphase _ hran | persisted hphase hran | failed hphase hran =>
      refine follows_of_set rfl ?_ hx
      exact mine (fun hdone => by rw [hphase] at hdone; cases hdone) rfl rfl
  | ended hdone => exact follows_of_set rfl (.inl hdone) hx

/-- Every run is in order, and what the executors name is there. -/
structure Ordered (s : Runtime) : Prop where
  rows : ∀ id r, s.runs.get id = some r → Orderly r
  linked : s.Linked

/-- `calls` is what the registry of the executor that reserves says of its tools. -/
def agrees (calls : String → String → Nat → Nat) (s : Runtime) : RuntimeStep → Bool
  | .reserve pid _ _ _ => (s.executors[pid]?).all fun e => e.build.registry.all fun d =>
      d.callsPerRun == calls e.build.registryVersion d.name d.version
  | _ => true

/-- A run without rows is in order. -/
theorem orderly_of_empty {x : RunRecord} (hstate : x.run.state = .created)
    (hsteps : x.steps = []) (hinvocations : x.invocations = []) : Orderly x := by
  have nosteps : ∀ s ∈ x.steps, False := fun s hs => by rw [hsteps] at hs; cases hs
  have noinvocations : ∀ i ∈ x.invocations, False := fun i hi => by
    rw [hinvocations] at hi
    cases hi
  refine ⟨by simp [hsteps], by simp [hsteps], by simp [hinvocations],
    fun i hi => (noinvocations i hi).elim, fun i hi => (noinvocations i hi).elim,
    fun i hi => (noinvocations i hi).elim, fun s hs => (nosteps s hs).elim,
    fun s hs => (nosteps s hs).elim, fun i hi => (noinvocations i hi).elim,
    fun _ => ⟨hinvocations, fun s hs => (nosteps s hs).elim⟩, ?_, ?_, ?_, ?_⟩
  all_goals
    rw [hstate]
    nofun

variable {calls : String → String → Nat → Nat}

theorem Ordered.step (h : Ordered s) (hok : s.coherent l = true)
    (hnext : served.next s l = some s') : Ordered s' ∧ Turned s l s' := by
  have hturned := served_turned h.rows h.linked hok hnext
  refine ⟨⟨fun id r hr => ?_, fun q x res hx hwork hlast => ?_⟩, hturned⟩
  · cases hturned with
    | same hruns => exact h.rows id r (hruns ▸ hr)
    | created x hnone hstate hsteps hinvocations hruns =>
        rw [hruns, Runs.get_append hnone] at hr
        split at hr
        · cases hr
          exact orderly_of_empty hstate hsteps hinvocations
        · exact h.rows id r hr
    | turned id₀ r₀ r' hr₀ hrid hstill hruns hturn =>
        rw [hruns, Runs.get_put hr₀ hrid] at hr
        split at hr
        · cases hr
          exact hturn.orderly hstill (h.rows id₀ r₀ hr₀)
        · exact h.rows id r hr
  · have hfollows : Follows s s' q x := by
      cases hpid : l.pid? with
      | none => exact stepRequest_follows hpid hnext hx
      | some pid =>
          obtain ⟨e, he, hmove⟩ := exec_of_served hpid hnext
          exact execStep_follows he hmove (fun r hr htx => coherent_pid hok hpid he hr htx) hx
    rcases hfollows with hdone | hnone | ⟨e, he, hphase, hown, hsame⟩ | ⟨res', hres', hnames⟩
    · exact absurd hdone hwork
    · rw [hnone] at hlast
      cases hlast
    · rw [hown]
      exact hturned.names h.rows (h.linked q e res he hphase (hsame ▸ hlast))
    · rw [hres', Option.some.injEq] at hlast
      exact hlast ▸ hnames

theorem Ordered.start (hs : served.start s) : Ordered s := by
  obtain ⟨hruns, hexec⟩ := hs
  refine ⟨fun id r hr => ?_, fun p e res he => ?_⟩
  · rw [hruns] at hr
    cases hr
  · rw [hexec] at he
    cases he

/-- The registry of `sampleBuild` says nothing of its own. -/
def sampleCalls (_version _name : String) (_toolVersion : Nat) : Nat := 5

end Runtime

end SecondBrain
