import SecondBrain.AgentRuns.FencedRuns

/-!
# Results over whole runs of the runtime

What the invariant says of the step that is about to be made: a result is only
stored where every step of the run has succeeded, and an executor whose
invocation was given up neither stores one nor fails a run that another is at
work on. The whole holds of every run whose steps are fenced.
-/

namespace SecondBrain

open Lib

namespace Runtime

variable {s s' : Runtime} {l : RuntimeStep} {pid : Nat} {id : Uuid} {r r' : RunRecord}
  {e : Executor}

/-! ## Every step keeps the invariant -/

/-- No record has got a result. -/
def Unstored (s s' : Runtime) : Prop :=
  ∀ (id : Uuid) (r r' : RunRecord), s.runs.get id = some r → s'.runs.get id = some r' →
    r'.results = r.results

theorem Unstored.of_runs (h : s'.runs = s.runs) : Unstored s s' := by
  intro id r r' hr hr'
  rw [h, hr, Option.some.injEq] at hr'
  rw [hr']

theorem Moves.unstored {new : Option Executor} (hm : Moves s pid new id r' s')
    (hr : s.runs.get id = some r) (hresults : r'.results = r.results) : Unstored s s' := by
  intro id' x x' hx hx'
  rw [hm.runs] at hx'
  split at hx'
  · next hid =>
      subst hid
      cases hx'
      rw [hr, Option.some.injEq] at hx
      exact hx ▸ hresults
  · rw [hx, Option.some.injEq] at hx'
    rw [hx']

/-- Work that no executor comes or moves with. -/
theorem Inv.quiet (h : Inv s) (hm : Moves s pid none id r' s') (hr : s.runs.get id = some r)
    (hfin : r'.run.finishedIffTerminal = true) (hwork : Work none r r') : Inv s' := by
  refine h.work hm hr hfin hwork ?_ ?_ ?_ ?_
  · intro inv hinv
    cases hinv
  · exact fun e he => absurd he (Option.not_mem_none e)
  · exact fun _ e he => absurd he (Option.not_mem_none e)
  · exact fun e he => absurd he (Option.not_mem_none e)

/-- A request is one piece of work on one run. -/
theorem Inv.request {α : Type} (h : Inv s) {op : RunRecord → Except Fault (α × RunRecord)}
    {p : α × RunRecord} (hrun : s.onRun id op = some p)
    (hevolves : ∀ r, Ensures (op r) fun p => Evolves r p.2)
    (hwork : ∀ r, Ensures (op r) fun p => Work none r p.2) :
    Inv (s.commit p.2) ∧ Unstored s (s.commit p.2) := by
  obtain ⟨r, hr, htx⟩ := onRun_ok hrun
  obtain ⟨hop, hfin⟩ := transact_coherent (Cache.empty_seen r)
    ((hevolves r).mono fun _ h => h.id_eq) htx
  have hm := moves_commit hr (transact_id htx)
  exact ⟨h.quiet hm hr hfin (hwork r _ hop), hm.unstored hr (hwork r _ hop).results⟩

/-- A claim that was granted starts an executor on the run it was granted for. -/
theorem Inv.spawn (h : Inv s) {op : RunRecord → Except Fault (Option ExecutionClaim × RunRecord)}
    {p : Option ExecutionClaim × RunRecord} {kind : ExecutorKind} {build : Build}
    (hrun : s.onRun id op = some p)
    (hevolves : ∀ r, Ensures (op r) fun p => Evolves r p.2)
    (hwork : ∀ r, Ensures (op r) fun p => Work none r p.2 ∧ ∀ claim, p.1 = some claim →
      claim.runId = r.run.id ∧ p.2.run.state = .running ∧
        (kind ≠ .recovery → r.run.state = .ready)) :
    Inv (s.spawn kind build p) ∧ Unstored s (s.spawn kind build p) := by
  obtain ⟨r, hr, htx⟩ := onRun_ok hrun
  obtain ⟨hop, hfin⟩ := transact_coherent (Cache.empty_seen r)
    ((hevolves r).mono fun _ h => h.id_eq) htx
  obtain ⟨hw, hclaim⟩ := hwork r _ hop
  unfold Runtime.spawn
  cases hp : p.1 with
  | none =>
      have hm := moves_commit hr (transact_id htx)
      exact ⟨h.quiet hm hr hfin hw, hm.unstored hr hw.results⟩
  | some claim =>
      obtain ⟨hown, hrunning, hready⟩ := hclaim claim hp
      have hm : Moves s s.executors.length (some (claim.executor kind build)) id p.2
          { s.commit p.2 with executors := s.executors ++ [claim.executor kind build] } :=
        moves_append rfl rfl hr (transact_id htx) (hown.trans (Runs.get_id hr))
      refine ⟨h.work hm hr hfin hw ?_ ?_ ?_ ?_, hm.unstored hr hw.results⟩
      · intro inv hinv
        cases hinv
      · rintro x ⟨⟩
        have hbegun : p.2.run.state.isEarly = false := by rw [hrunning]; rfl
        exact ⟨nofun, fun _ => hbegun, fun _ _ _ hm => (nomatch hm),
          fun _ hx => hx.elim nofun nofun, nofun, nofun⟩
      · rintro - x ⟨⟩ hx
        exact hx.elim nofun nofun
      · rintro x ⟨⟩ ⟨hkind, -⟩
        exact .inl (by rw [hready hkind]; rfl)

/-- An executor that comes without changing anything. -/
theorem moves_observed (hr : s.runs.get id = some r) (hruns : s'.runs = s.runs)
    (hexec : s'.executors = s.executors ++ [e]) (hown : e.runId = id) :
    Moves s s.executors.length (some e) id r s' where
  runs id' := by
    rw [hruns]
    split
    · next h => rw [h]; exact hr
    · rfl
  executors := executors_append hexec
  owner := by
    rintro x ⟨⟩
    exact hown

theorem newRun_fresh (build : Build) (q : AgentRunCreate) (keyHash fingerprint : String)
    (now : Instant) (runId correlationId : Uuid) :
    Fresh (newRun build q keyHash fingerprint now runId correlationId) := by
  have htype : resultTypes.contains "agent_run.created" = false := by decide
  refine ⟨rfl, List.nodup_nil, rfl, ?_, fun id => ?_⟩
  · rw [RunRecord.results, newRun, List.countP_singleton, AgentEvent.isResult, htype]
    rfl
  · simp [RunRecord.reconciled, newRun]

/-- A new run is nobody's yet. -/
theorem Inv.created (h : Inv s) {x : RunRecord} (hnone : s.runs.get x.run.id = none)
    (hfresh : Fresh x) (hfin : x.run.finishedIffTerminal = true) :
    Inv { s with runs := s.runs ++ [x] } := by
  have hget : ∀ id, Runs.get (s.runs ++ [x]) id =
      if id = x.run.id then some x else s.runs.get id := Runs.get_append hnone
  have hother : ∀ (p : Nat) (e : Executor), s.executors[p]? = some e → e.runId ≠ x.run.id := by
    intro p e he hid
    have := h.known p e he
    rw [hid, hnone] at this
    cases this
  refine ⟨?_, ?_, ?_, ?_, h.sole, ?_⟩
  · intro id r hr
    rw [hget] at hr
    split at hr
    · cases hr
      exact ⟨.early hfresh, hfin⟩
    · exact h.rows id r hr
  · intro p e he
    rw [hget, if_neg (hother p e he)]
    exact h.known p e he
  · intro p e r he hr
    rw [hget, if_neg (hother p e he)] at hr
    exact h.fits p e r he hr
  · intro p q a b la lb r ha hb hsame hr
    rw [hget, if_neg (hother p a ha)] at hr
    exact h.apart p q a b la lb r ha hb hsame hr
  · intro id r hr
    rw [hget] at hr
    split at hr
    · cases hr
      exact .inl hfresh.results
    · exact h.results id r hr

theorem Inv.start (hs : served.start s) : Inv s := by
  obtain ⟨hruns, hexec⟩ := hs
  refine ⟨fun id r hr => ?_, fun p e he => ?_, fun p e _ he => ?_, fun p _ _ _ _ _ _ ha => ?_,
    fun p _ _ _ ha => ?_, fun id r hr => ?_⟩
  · rw [hruns] at hr; cases hr
  · rw [hexec] at he; cases he
  · rw [hexec] at he; cases he
  · rw [hexec] at ha; cases ha
  · rw [hexec] at ha; cases ha
  · rw [hruns] at hr; cases hr

/-- What `fenced` says of the executor that moves. -/
theorem fenced_pid (hok : s.fenced l = true) (hpid : l.pid? = some pid)
    (he : s.executors[pid]? = some e) :
    ∀ r, s.runs.get e.runId = some r →
      (l.transacts = true → (r.run.state.isTerminal || (e.cacheFor l).current r) = true) ∧
        s.oversteps pid e l r = false := by
  intro r hr
  unfold fenced at hok
  simp only [hpid, he, hr, Bool.and_eq_true, Bool.not_eq_true'] at hok
  refine ⟨fun htx => ?_, hok.2⟩
  have hcurrent := hok.1
  rw [htx, Bool.not_true, Bool.false_or] at hcurrent
  exact hcurrent

theorem Inv.stepRequest (h : Inv s) (hpid : l.pid? = none)
    (hnext : served.next s l = some s') : Inv s' ∧ Unstored s s' := by
  cases l with
  | transition => cases hnext
  | create build world q keyHash fingerprint now runId correlationId =>
      unfold served Runtime.step at hnext
      simp only [] at hnext
      split at hnext
      · next hcreate =>
          cases hnext
          rcases createRun_ok hcreate with ⟨_, _, _, _, rfl⟩ | ⟨_, hid, _, _, rfl⟩
          · exact ⟨h, .of_runs rfl⟩
          · refine ⟨h.created hid (newRun_fresh _ _ _ _ _ _ _) rfl, fun id r r' hr hr' => ?_⟩
            have hget := Runs.get_append (x := newRun build q keyHash fingerprint now runId
              correlationId) hid id
            rw [show Runs.get _ id = some r' from hr'] at hget
            split at hget
            · next hnew =>
                subst hnew
                exact absurd (hid.symm.trans hr) nofun
            · rw [hr, Option.some.injEq] at hget
              rw [hget]
      · cases hnext
  | cancel =>
      obtain ⟨p, hp, rfl⟩ := Option.map_eq_some_iff.mp hnext
      exact h.request hp (fun _ => evolves_of_plain (alone_ensures (cancelRun_routine .plain _)))
        fun _ => .answer (cancelRun_work _)
  | claimPlan =>
      obtain ⟨p, hp, rfl⟩ := Option.map_eq_some_iff.mp hnext
      exact h.request hp (fun _ => evolves_of_plain (claimPlanning_plain _ _)) fun _ => claimPlanning_work _ _
  | freezePlan =>
      obtain ⟨p, hp, rfl⟩ := Option.map_eq_some_iff.mp hnext
      exact h.request hp (fun _ => evolves_of_plain (alone_ensures (finalizePlan_plain _ _)))
        fun _ => .answer (finalizePlan_work _ _)
  | failPlan =>
      obtain ⟨p, hp, rfl⟩ := Option.map_eq_some_iff.mp hnext
      exact h.request hp (fun _ => evolves_of_plain (finalizeFailure_routine .plain _ _))
        fun _ => finalizeFailure_work _ _
  | propose =>
      obtain ⟨p, hp, rfl⟩ := Option.map_eq_some_iff.mp hnext
      exact h.request hp (fun _ => evolves_of_files (createProposal_files _ _ _ _ _)) fun _ =>
        (createProposal_kept _ _ _ _ _).mono fun _ h => .kept (by rw [h.1]) h.2
  | review =>
      obtain ⟨p, hp, rfl⟩ := Option.map_eq_some_iff.mp hnext
      exact h.request hp (fun _ => reviewProposal_evolves _ _ _) fun _ =>
        (reviewProposal_kept _ _ _).mono fun _ h => .kept (by rw [h.1]) h.2
  | execute =>
      obtain ⟨p, hp, rfl⟩ := Option.map_eq_some_iff.mp hnext
      refine h.spawn hp (fun _ => evolves_of_plain (claimExecution_routine .plain _ _)) fun _ =>
        (claimExecution_work _ _).mono fun _ h => ⟨h.1, fun claim hc => ?_⟩
      obtain ⟨hown, hready, hrun⟩ := h.2 claim hc
      exact ⟨hown, hrun, fun _ => hready⟩
  | recover =>
      obtain ⟨p, hp, rfl⟩ := Option.map_eq_some_iff.mp hnext
      refine h.spawn hp (fun _ => evolves_of_plain (prepareOne_routine .plain)) fun _ =>
        prepareOne_work.mono fun _ h => ⟨h.1, fun claim hc => ?_⟩
      obtain ⟨hown, -, hrun⟩ := h.2 claim hc
      exact ⟨hown, hrun, fun h => absurd rfl h⟩
  | observe build runId =>
      obtain ⟨r, hr, hnext⟩ := bind_some hnext
      obtain ⟨definition, -, hnext⟩ := bind_some hnext
      split at hnext
      · cases hnext
      · cases hnext
        refine ⟨h.work (moves_observed hr rfl rfl rfl) hr (h.rows _ r hr).2 (.refl none r)
          ?_ ?_ ?_ ?_, .of_runs rfl⟩
        · intro inv hinv
          cases hinv
        · rintro x ⟨⟩
          exact .of_idle rfl fun _ => rfl
        · rintro - x ⟨⟩ hx
          exact hx.elim nofun nofun
        · rintro x ⟨⟩ ⟨-, hx⟩
          cases hx
  | _ => cases hpid

theorem exec_of_served (hpid : l.pid? = some pid) (hnext : served.next s l = some s') :
    ∃ e, s.executors[pid]? = some e ∧ ExecMove s pid e l s' := by
  cases l with
  | transition | create | cancel | claimPlan | freezePlan | failPlan | propose | review
  | execute | recover | observe => cases hpid
  | _ =>
      obtain ⟨q, hq, hnext⟩ := bind_some hnext
      obtain ⟨e, he, hnext⟩ := bind_some hnext
      obtain rfl : q = pid := Option.some.inj (hq.symm.trans hpid)
      exact ⟨e, he, execStep_move hnext⟩

theorem Inv.step (h : Inv s) (hok : s.fenced l = true) (hnext : served.next s l = some s') :
    Inv s' := by
  cases hpid : l.pid? with
  | none => exact (h.stepRequest hpid hnext).1
  | some pid =>
      obtain ⟨e, he, hmove⟩ := exec_of_served hpid hnext
      refine h.execStep he (fun r hr => ?_) hmove
      obtain ⟨hcurrent, hstep⟩ := fenced_pid hok hpid he r hr
      exact ⟨hcurrent, fun _ _ _ _ => hstep⟩

def sampleStore : RuntimeStep := .persist 0 sampleWorld (.research sampleAnswer) 8

end Runtime

end SecondBrain
