import SecondBrain.AgentRuns.Evolution
import SecondBrain.AgentRuns.Runtime

/-!
# What one step of the runtime does to the records

A step leaves the records alone, or adds the new run of a create call, or lets
one record evolve as the session of the step sees it and writes the change
back. Which session that is only matters where it holds something, so the last
case names the record the executor of the step works on.
-/

namespace SecondBrain

open Lib

/-- The record `r` became `r'` through a transaction of a session holding `c`. -/
structure Changed (c : Cache) (r r' : RunRecord) : Prop where
  evolution : ∃ after, Evolves (c.seen r) after ∧ r' = (c.seen r).writeBack after r
  finished : r'.run.finishedIffTerminal = true

theorem changed_of_transact {α : Type} {c : Cache}
    {op : RunRecord → Except Fault (α × RunRecord)} {r r' : RunRecord} {a : α}
    (hop : Ensures (op (c.seen r)) fun p => Evolves (c.seen r) p.2)
    (h : transact c op r = .ok (a, r')) : Changed c r r' := by
  obtain ⟨after, hok, hr', hfin⟩ := transact_ok h
  exact ⟨⟨after, hop _ hok, hr'⟩, hfin⟩

/-- A run that is over stays over, whatever copy the session decides on: a
record cannot be finished and in a state that is not. -/
theorem Changed.over {c : Cache} {r r' : RunRecord} (h : Changed c r r')
    (hr : r.run.finishedIffTerminal = true) (hover : r.run.state.isTerminal = true) :
    r'.run.state.isTerminal = true := by
  obtain ⟨after, hevolves, rfl⟩ := h.evolution
  have hfin := h.finished
  rw [AgentRun.finishedIffTerminal, beq_iff_eq] at hr hfin
  rcases hevolves.finishedAt_eq with hsame | hterm
  · rw [hfin]
    have hkept : ((c.seen r).writeBack after r).run.finishedAt = r.run.finishedAt :=
      if_pos hsame
    rw [hkept, ← hr, hover]
  · show (written (c.seen r).run.state after.run.state r.run.state).isTerminal = true
    unfold written
    split
    · exact hover
    · exact hterm

inductive Effect (s : Runtime) (l : RuntimeStep) (s' : Runtime) : Prop where
  | unchanged : s'.runs = s.runs → Effect s l s'
  | created (build : Build) (q : AgentRunCreate) (keyHash fingerprint : String)
      (now : Instant) (runId correlationId : Uuid) :
      s.runs.get runId = none → s.runs.byIdempotencyHash keyHash = none →
      s'.runs = s.runs ++ [newRun build q keyHash fingerprint now runId correlationId] →
      Effect s l s'
  | changed (id : Uuid) (r r' : RunRecord) :
      s.runs.get id = some r → Changed (s.usedCache l) r r' →
      (∀ e, l.pid?.bind (s.executors[·]?) = some e → e.runId = id) →
      s'.runs = s.runs.put r' → Effect s l s'

namespace Runtime

variable {s s' : Runtime} {l : RuntimeStep}

theorem onRun_ok {α : Type} {id : Uuid} {op : RunRecord → Except Fault (α × RunRecord)}
    {p : α × RunRecord} (h : s.onRun id op = some p) :
    ∃ r, s.runs.get id = some r ∧ transact .empty op r = .ok p := by
  unfold onRun at h
  obtain ⟨r, hr, h⟩ := Option.bind_eq_some_iff.mp h
  refine ⟨r, hr, ?_⟩
  split at h
  · next p' hp =>
      injection h with h
      exact h ▸ hp
  · cases h

theorem request_effect {α : Type} {id : Uuid}
    {op : RunRecord → Except Fault (α × RunRecord)} (hpid : l.pid? = none)
    (hop : ∀ r, Ensures (op r) fun p => Evolves r p.2) {s' : Runtime}
    {p : α × RunRecord} (h : s.onRun id op = some p) (hs' : s'.runs = s.runs.put p.2) :
    Effect s l s' := by
  obtain ⟨r, hr, htx⟩ := onRun_ok h
  have hused : s.usedCache l = .empty := by
    rw [usedCache, hpid]
    rfl
  refine .changed id r p.2 hr ?_ ?_ hs'
  · rw [hused]
    exact changed_of_transact (hop _) htx
  · intro e he
    rw [hpid] at he
    cases he

theorem alone_ensures {op : RunRecord → Except Fault RunRecord} {r : RunRecord}
    {P : RunRecord → Prop} (h : Ensures (op r) P) : Ensures (alone op r) fun p => P p.2 :=
  .answer h

theorem spawn_runs {kind : ExecutorKind} {build : Build}
    {p : Option ExecutionClaim × RunRecord} :
    (s.spawn kind build p).runs = s.runs.put p.2 := by
  unfold spawn
  split <;> rfl

theorem startOp_routine {R : RunRecord → RunRecord → Prop} (hR : Routine R) {e : Executor}
    {valid : Bool} {now : Instant} {r : RunRecord} :
    Ensures (e.startOp valid now r) fun p => R r p.2 := by
  unfold Executor.startOp
  split
  · exact claimSynthesis_routine hR
  · exact claimSynthesis_routine hR
  · exact beginDailyBrief_routine hR _
  · exact beginProjectWatch_routine hR _
  · exact .error _

theorem persistOp_files {e : Executor} {w : World} {q : Synthesis} {now : Instant}
    {r : RunRecord} : Ensures (e.persistOp w q now r)
      fun p => Files (Captured e.build w.memories r.run.projectId) r p.2 := by
  unfold Executor.persistOp
  split
  · exact (persistResearchResult_routine .plain _ _ _ _).bind fun _ h =>
      Ensures.pure_iff.mpr h.files
  · exact (persistCuratorResult_files _ _ _ _ _ _ _).bind fun _ h =>
      Ensures.pure_iff.mpr h
  · exact .answer ((persistDailyBriefResult_routine .plain _ _ _ _ _ _).mono fun _ h => h.files)
  · exact .answer ((persistProjectWatchResult_routine .plain _ _ _ _).mono fun _ h => h.files)
  · exact .error _

theorem completeOp_routine {R : RunRecord → RunRecord → Prop} (hR : Routine R) {e : Executor}
    {now : Instant} {r : RunRecord} : Ensures (e.completeOp now r) fun p => R r p.2 :=
  .answer (completeRun_routine hR _ _)

/-! ## Steps of executors -/

/-- The transaction of the executor's step found `r` and committed `r'`. -/
structure Ran {α : Type} (s : Runtime) (e : Executor) (l : RuntimeStep)
    (op : RunRecord → Except Fault (α × RunRecord)) (r : RunRecord) (a : α)
    (r' : RunRecord) : Prop where
  found : s.runs.get e.runId = some r
  committed : transact (e.cacheFor l) op r = .ok (a, r')

theorem exec_ok {α : Type} {e : Executor} {op : RunRecord → Except Fault (α × RunRecord)}
    {r : RunRecord} {res : Except Fault (α × RunRecord)}
    (h : s.exec e l op = some (r, res)) :
    s.runs.get e.runId = some r ∧ res = transact (e.cacheFor l) op r := by
  unfold exec at h
  obtain ⟨r', hr', h⟩ := Option.map_eq_some_iff.mp h
  obtain ⟨rfl, rfl⟩ := Prod.mk.inj h
  exact ⟨hr', rfl⟩

theorem ran_of_exec {α : Type} {e : Executor}
    {op : RunRecord → Except Fault (α × RunRecord)} {r r' : RunRecord} {a : α}
    {res : Except Fault (α × RunRecord)} (h : s.exec e l op = some (r, res))
    (hres : res = .ok (a, r')) : s.Ran e l op r a r' := by
  obtain ⟨hr, rfl⟩ := exec_ok h
  exact ⟨hr, hres⟩

/-- All that a step of the executor `e` with number `pid` can be. -/
inductive ExecMove (s : Runtime) (pid : Nat) (e : Executor) :
    RuntimeStep → Runtime → Prop where
  | claimed {n : Nat} {now : Instant} {copy : AgentRun} {r r' : RunRecord}
      {claim : ExecutionClaim} :
      e.phase = .starting → e.cache.run = some copy →
      s.Ran e (.claim n now)
        (fun r => claimExecution e.build r copy.revision e.allowedTools now)
        r (some claim) r' →
      ExecMove s pid e (.claim n now)
        (s.advance pid r' { e with phase := .reserving, cache := .empty })
  | notClaimed {n : Nat} {now : Instant} {copy : AgentRun} {r r' : RunRecord} :
      e.phase = .starting → e.cache.run = some copy →
      s.Ran e (.claim n now)
        (fun r => claimExecution e.build r copy.revision e.allowedTools now) r none r' →
      ExecMove s pid e (.claim n now) (s.advance pid r' { e with phase := .done })
  | reserved {n : Nat} {available : Bool} {now : Instant} {id : Uuid}
      {r r' : RunRecord} {next : Reservation} {cache : Cache} :
      e.phase = .reserving →
      s.Ran e (.reserve n available now id)
        (fun r => reserveNext e.build r e.allowedTools available now id) r (some next) r' →
      ExecMove s pid e (.reserve n available now id)
        (s.advance pid r' { e with phase := .calling, last := some next, cache := cache })
  | drained {n : Nat} {available : Bool} {now : Instant} {id : Uuid}
      {r r' : RunRecord} {cache : Cache} :
      e.phase = .reserving →
      s.Ran e (.reserve n available now id)
        (fun r => reserveNext e.build r e.allowedTools available now id) r none r' →
      ExecMove s pid e (.reserve n available now id)
        (s.advance pid r' { e with phase := .left, cache := cache })
  | reloaded {n : Nat} {cache : Cache} :
      e.phase = .calling →
      ExecMove s pid e (.reload n) (s.settle pid { e with phase := .reloaded, cache := cache })
  | finalized {n : Nat} {output : Option ToolOutput} {code : Option String}
      {observed : List (String × Uuid × String)} {now : Instant} {last : Reservation}
      {r r' : RunRecord} {goOn : Bool} {found : List CollectedEvidence} {cache : Cache} :
      e.phase = e.finalizesFrom → (output.isSome ∨ code.isSome) → e.last = some last →
      s.Ran e (.finalize n output code observed now)
        (fun r => finalizeInvocation e.build r last.stepId last.invocationId output code
          (e.references output code found) now) r goOn r' →
      ExecMove s pid e (.finalize n output code observed now)
        (s.advance pid r' { e.absorb output found with
          phase := if goOn then .reserving else .left, cache := cache })
  | started {n : Nat} {valid : Bool} {now : Instant} {r r' : RunRecord} {active : Bool}
      {cache : Cache} :
      e.phase = .left → e.synthesises ≠ none →
      s.Ran e (.startSynthesis n valid now) (e.startOp valid now) r active r' →
      ExecMove s pid e (.startSynthesis n valid now)
        (s.advance pid r' { e with
          phase := if active then .synthesizing else .completing, cache := cache })
  | unanswered {n : Nat} {failure : ProviderFailure} {code : String} :
      e.phase = .synthesizing →
      ExecMove s pid e (.providerFails n failure)
        (s.settle pid { e with phase := .failing code })
  | persisted {n : Nat} {world : World} {synthesis : Synthesis} {now : Instant}
      {r r' : RunRecord} {cache : Cache} :
      e.phase = .synthesizing →
      s.Ran e (.persist n world synthesis now) (e.persistOp world synthesis now) r () r' →
      ExecMove s pid e (.persist n world synthesis now)
        (s.advance pid r' { e with phase := .completing, cache := cache })
  | refused {n : Nat} {world : World} {synthesis : Synthesis} {now : Instant}
      {code : String} :
      e.phase = .synthesizing →
      ExecMove s pid e (.persist n world synthesis now)
        (s.settle pid { e with phase := .failing code })
  | failed {n : Nat} {now : Instant} {code : String} {r r' : RunRecord} {cache : Cache} :
      e.phase = .failing code →
      s.Ran e (.failSynthesis n now) (alone (failResult · code now)) r () r' →
      ExecMove s pid e (.failSynthesis n now)
        (s.advance pid r' { e with phase := .completing, cache := cache })
  | completed {n : Nat} {now : Instant} {r r' : RunRecord} :
      (e.phase = .completing ∨ e.phase = .left ∧ e.synthesises = none) →
      s.Ran e (.complete n now) (e.completeOp now) r () r' →
      ExecMove s pid e (.complete n now) (s.advance pid r' { e with phase := .done })
  /-- An exception, or a crash. -/
  | ended {l : RuntimeStep} {e' : Executor} :
      e'.phase = .done → e'.runId = e.runId → ExecMove s pid e l (s.settle pid e')

theorem execStep_move {pid : Nat} {e : Executor} (h : s.execStep pid e l = some s') :
    ExecMove s pid e l s' := by
  unfold execStep at h
  split at h
  · next hphase =>
      obtain ⟨copy, hcopy, h⟩ := bind_some h
      obtain ⟨⟨r, res⟩, hx, h⟩ := bind_some h
      simp only [] at h
      split at h
      all_goals cases h
      · exact .claimed hphase hcopy (ran_of_exec hx rfl)
      · exact .notClaimed hphase hcopy (ran_of_exec hx rfl)
      · exact .ended rfl rfl
  · next hphase =>
      obtain ⟨⟨r, res⟩, hx, h⟩ := bind_some h
      simp only [] at h
      split at h
      all_goals cases h
      · exact .reserved hphase (ran_of_exec hx rfl)
      · exact .drained hphase (ran_of_exec hx rfl)
      · exact .ended rfl rfl
  · next hphase =>
      split at h
      · cases h
      · obtain ⟨r, -, h⟩ := bind_some h
        obtain ⟨res, -, h⟩ := bind_some h
        cases h
        exact .reloaded hphase
  · split at h
    · cases h
    · next hphase =>
        rw [not_or, not_not, not_not] at hphase
        obtain ⟨last, hlast, h⟩ := bind_some h
        simp only [] at h
        obtain ⟨⟨r, res⟩, hx, h⟩ := bind_some h
        simp only [] at h
        split at h
        all_goals cases h
        · exact .finalized hphase.1 hphase.2 hlast (ran_of_exec hx rfl)
        · exact .ended rfl rfl
  · next hphase =>
      split at h
      · cases h
      · next hagent =>
          obtain ⟨⟨r, res⟩, hx, h⟩ := bind_some h
          simp only [] at h
          split at h
          all_goals cases h
          · exact .started hphase hagent (ran_of_exec hx rfl)
          · exact .ended rfl rfl
  · next hphase =>
      obtain ⟨agent, -, h⟩ := bind_some h
      cases h
      exact .unanswered hphase
  · next hphase =>
      obtain ⟨agent, -, h⟩ := bind_some h
      obtain ⟨⟨r, res⟩, hx, h⟩ := bind_some h
      simp only [] at h
      split at h
      all_goals cases h
      · exact .persisted hphase (ran_of_exec hx rfl)
      · exact .refused hphase
      · exact .ended rfl rfl
  · next hphase =>
      obtain ⟨⟨r, res⟩, hx, h⟩ := bind_some h
      simp only [] at h
      split at h
      all_goals cases h
      · exact .failed hphase (ran_of_exec hx rfl)
      · exact .ended rfl rfl
  · split at h
    · cases h
    · next hphase =>
        obtain ⟨⟨r, res⟩, hx, h⟩ := bind_some h
        simp only [] at h
        split at h
        all_goals cases h
        · refine .completed ?_ (ran_of_exec hx rfl)
          rw [not_and_or, not_not, not_not] at hphase
          exact hphase
        · exact .ended rfl rfl
  · cases h
    exact .ended rfl rfl
  · cases h

theorem Ran.changed {α : Type} {e : Executor}
    {op : RunRecord → Except Fault (α × RunRecord)} {r r' : RunRecord} {a : α}
    (h : s.Ran e l op r a r') (hop : ∀ r, Ensures (op r) fun p => Evolves r p.2) :
    Changed (e.cacheFor l) r r' := changed_of_transact (hop _) h.committed

/-- The records after a step of an executor: the same, or its own changed. -/
theorem execStep_effect {pid : Nat} {e : Executor} (h : s.execStep pid e l = some s') :
    s'.runs = s.runs ∨
      ∃ r r', s.runs.get e.runId = some r ∧ Changed (e.cacheFor l) r r' ∧
        s'.runs = s.runs.put r' := by
  have own : ∀ {α : Type} {op : RunRecord → Except Fault (α × RunRecord)}
      {r r' : RunRecord} {a : α} {e' : Executor}, s.Ran e l op r a r' →
      (∀ r, Ensures (op r) fun p => Evolves r p.2) →
      ∃ q q', s.runs.get e.runId = some q ∧ Changed (e.cacheFor l) q q' ∧
        (s.advance pid r' e').runs = s.runs.put q' :=
    fun hran hop => ⟨_, _, hran.found, hran.changed hop, rfl⟩
  cases execStep_move h with
  | claimed _ _ hran => exact .inr (own hran fun _ => evolves_of_plain (claimExecution_routine .plain _ _))
  | notClaimed _ _ hran => exact .inr (own hran fun _ => evolves_of_plain (claimExecution_routine .plain _ _))
  | reserved _ hran => exact .inr (own hran fun _ => evolves_of_plain (reserveNext_routine .plain _ _ _))
  | drained _ hran => exact .inr (own hran fun _ => evolves_of_plain (reserveNext_routine .plain _ _ _))
  | finalized _ _ _ hran =>
      exact .inr (own hran fun _ => evolves_of_plain (finalizeInvocation_routine .plain _ _ _ _ _))
  | started _ _ hran => exact .inr (own hran fun _ => evolves_of_plain (startOp_routine .plain))
  | persisted _ hran => exact .inr (own hran fun _ => evolves_of_files persistOp_files)
  | failed _ hran => exact .inr (own hran fun _ => evolves_of_plain (alone_ensures (failResult_routine .plain _)))
  | completed _ hran => exact .inr (own hran fun _ => evolves_of_plain (completeOp_routine .plain))
  | reloaded | unanswered | refused | ended => exact .inl rfl

theorem pid_effect {pid : Nat} {e : Executor} (hpid : l.pid? = some pid)
    (he : s.executors[pid]? = some e) (h : s.execStep pid e l = some s') :
    Effect s l s' := by
  have hbind : l.pid?.bind (s.executors[·]?) = some e := by rw [hpid]; exact he
  have hused : s.usedCache l = e.cacheFor l := by rw [usedCache, hbind]; rfl
  rcases execStep_effect h with hsame | ⟨r, r', hr, hchanged, hs'⟩
  · exact .unchanged hsame
  · refine .changed e.runId r r' hr (hused ▸ hchanged) ?_ hs'
    intro e' he'
    rw [hbind, Option.some.injEq] at he'
    rw [he']

/-- Every step of the machine is one of the three. -/
theorem step_effect (h : s.step l = some s') : Effect s l s' := by
  unfold step at h
  split at h
  · split at h
    · next hcreate =>
        cases h
        rcases createRun_ok hcreate with ⟨r, -, -, -, rfl⟩ | ⟨hkey, hid, -, -, rfl⟩
        · exact .unchanged rfl
        · exact .created _ _ _ _ _ _ _ hid hkey rfl
    · cases h
  · obtain ⟨p, hp, h⟩ := Option.map_eq_some_iff.mp h
    exact request_effect rfl (fun r => evolves_of_plain (alone_ensures (transitionRun_plain r _ _ _ _ _)))
      hp (h ▸ rfl)
  · obtain ⟨p, hp, h⟩ := Option.map_eq_some_iff.mp h
    exact request_effect rfl (fun _ => evolves_of_plain (alone_ensures (cancelRun_routine .plain _))) hp (h ▸ rfl)
  · obtain ⟨p, hp, h⟩ := Option.map_eq_some_iff.mp h
    exact request_effect rfl (fun _ => evolves_of_plain (claimPlanning_plain _ _)) hp (h ▸ rfl)
  · obtain ⟨p, hp, h⟩ := Option.map_eq_some_iff.mp h
    exact request_effect rfl (fun _ => evolves_of_plain (alone_ensures (finalizePlan_plain _ _))) hp (h ▸ rfl)
  · obtain ⟨p, hp, h⟩ := Option.map_eq_some_iff.mp h
    exact request_effect rfl (fun _ => evolves_of_plain (finalizeFailure_routine .plain _ _)) hp (h ▸ rfl)
  · obtain ⟨p, hp, h⟩ := Option.map_eq_some_iff.mp h
    exact request_effect rfl (fun _ => evolves_of_files (createProposal_files _ _ _ _ _)) hp (h ▸ rfl)
  · obtain ⟨p, hp, h⟩ := Option.map_eq_some_iff.mp h
    exact request_effect rfl (fun _ => reviewProposal_evolves _ _ _) hp (h ▸ rfl)
  · obtain ⟨p, hp, h⟩ := Option.map_eq_some_iff.mp h
    exact request_effect rfl (fun _ => evolves_of_plain (claimExecution_routine .plain _ _)) hp (h ▸ spawn_runs)
  · obtain ⟨p, hp, h⟩ := Option.map_eq_some_iff.mp h
    exact request_effect rfl (fun _ => evolves_of_plain (prepareOne_routine .plain)) hp (h ▸ spawn_runs)
  · obtain ⟨r, -, h⟩ := bind_some h
    obtain ⟨definition, -, h⟩ := bind_some h
    split at h
    · cases h
    · cases h
      exact .unchanged rfl
  · obtain ⟨pid, hpid, h⟩ := bind_some h
    obtain ⟨e, he, h⟩ := bind_some h
    exact pid_effect hpid he h

end Runtime

end SecondBrain
