import SecondBrain.AgentRuns.Steps
import SecondBrain.AgentRuns.Work
import SecondBrain.AgentRuns.Proposals

/-!
# Approvals and their decisions

An approval is created pending, with the version and the scope of its target as
they are then, and leaves pending at most once, through a review. What a review
decides is decided on the target as it is at that moment, and afterwards the
row never changes: the same decision again is a replay, another one a conflict.

The state of the machine here is the runtime beside the memories. A step of the
runtime reads the memories, an edit writes them, and nothing else does.
-/

namespace SecondBrain

open Lib

/-- What was proposed: the columns of an approval that are written once. -/
def ApprovalRequest.proposal (a : ApprovalRequest) : ApprovalRequest :=
  { a with status := .pending, reviewedAt := none, reviewerMetadata := none }

/-- What an approval can become: decided, if it was not. -/
def ApprovalRequest.Follows (a a' : ApprovalRequest) : Prop :=
  a'.proposal = a.proposal ∧ (a.status ≠ .pending → a' = a)

theorem ApprovalRequest.Follows.refl (a : ApprovalRequest) : a.Follows a :=
  ⟨rfl, fun _ => rfl⟩

theorem ApprovalRequest.Follows.trans {a b c : ApprovalRequest} (h : a.Follows b)
    (h' : b.Follows c) : a.Follows c := by
  refine ⟨h'.1.trans h.1, fun hdecided => ?_⟩
  obtain rfl := h.2 hdecided
  exact h'.2 hdecided

/-! ## The review -/

section Review

variable {build : Build} {memories : Uuid → Option Memory} {r : RunRecord}
  {a : ApprovalRequest} {decision : Decision} {now : Instant}

/-- What has to be so at the moment a proposal is approved. -/
def Approvable (build : Build) (memories : Uuid → Option Memory) (r : RunRecord)
    (a : ApprovalRequest) (now : Instant) : Prop :=
  now < a.expiresAt ∧ ∃ m, memories a.targetPublicId = some m ∧
    m.projectId = r.run.projectId ∧ targetVersion build m = a.targetVersion

variable (build memories r a decision now) in
/-- Where a pending proposal goes. -/
theorem reviewVerdict_status :
    let status := (reviewVerdict build r a (memories a.targetPublicId) decision now).1
    status ≠ .pending ∧
      (status = .approved → decision = .approve ∧ Approvable build memories r a now) := by
  unfold reviewVerdict
  split
  · exact ⟨by decide, fun h => nomatch h⟩
  · next hlive =>
      split
      · exact ⟨by decide, fun h => nomatch h⟩
      · next hfresh =>
          cases decision with
          | reject => exact ⟨by decide, fun h => nomatch h⟩
          | approve =>
              refine ⟨by decide, fun _ => ⟨rfl, not_le.mp hlive, ?_⟩⟩
              cases hm : memories a.targetPublicId with
              | none =>
                  rw [hm] at hfresh
                  exact absurd rfl hfresh
              | some m =>
                  rw [hm, Option.all_some, decide_eq_true_eq, not_or, not_not, not_not] at hfresh
                  exact ⟨m, rfl, hfresh⟩

/-- A review changes nothing, or decides the pending row it names. -/
theorem reviewProposal_decides {id : Uuid} :
    Ensures (reviewProposal build memories r id decision now) fun p =>
      p.2 = r ∨ ∃ a a', r.approvals.find? (·.id == id) = some a ∧ a.status = .pending ∧
        a'.proposal = a.proposal ∧
        (a'.status = .approved → decision = .approve ∧ Approvable build memories r a now) ∧
        p.2.approvals = r.approvals.map (fun b => if b.id = a.id then a' else b) := by
  unfold reviewProposal
  split
  · exact .error _
  · next a ha =>
      refine .ite (fun _ => Ensures.ok_iff.mpr (.inl rfl)) fun _ => ?_
      refine .ite (fun _ => .error _) fun hpending => ?_
      rw [not_not] at hpending
      have hverdict := (reviewVerdict_status build memories r a decision now).2
      simp only []
      generalize reviewVerdict build r a (memories a.targetPublicId) decision now = verdict
        at hverdict ⊢
      refine Ensures.bind_any fun r' h => Ensures.pure_iff.mpr (.inr ?_)
      obtain ⟨-, rfl⟩ := appendAgentEvent_ok h
      exact ⟨a, { a with
        status := verdict.1
        reviewedAt := some now
        reviewerMetadata := some verdict.2.2.1 }, ha, hpending, rfl, hverdict, rfl⟩

/-- A decided approval is never decided again. -/
theorem reviewProposal_decided {id : Uuid} (ha : r.approvals.find? (·.id == id) = some a)
    (hdecided : a.status ≠ .pending) :
    reviewProposal build memories r id decision now =
      if a.status = decision.desired then .ok (.unchanged, r) else .error .reviewConflict := by
  unfold reviewProposal
  rw [ha]
  simp only []
  split
  · rfl
  · rfl

end Review

/-! ## The columns that are written once, through any session -/

section Still

variable {c : Cache} {r r' : RunRecord}

/-- A copy of the run is old, but of the same run. -/
def Cache.ofRun (c : Cache) (r : RunRecord) : Prop :=
  ∀ run, c.run = some run → run.still = r.run.still

theorem Cache.seen_still (hc : c.ofRun r) : (c.seen r).run.still = r.run.still := by
  unfold Cache.seen
  cases hrun : c.run with
  | none => rfl
  | some run => exact hc run hrun

theorem writeBack_still {after : RunRecord} (hid : after.run.id = r.run.id) :
    ((c.seen r).writeBack after r).run.still = after.run.still := by
  simp only [RunRecord.writeBack, AgentRun.writeBack, AgentRun.still, hid]

theorem Changed.still (h : Changed c r r') (hc : c.ofRun r) :
    r'.run.still = r.run.still := by
  obtain ⟨after, hevolves, rfl⟩ := h.evolution
  have hsame : after.run.still = r.run.still :=
    (Evolves.still_eq hevolves).trans (Cache.seen_still hc)
  have hid : after.run.id = r.run.id :=
    @congrArg _ _ after.run.still r.run.still AgentRun.id hsame
  exact (writeBack_still hid).trans hsame

theorem Executor.retain_run {e : Executor} {before : Cache} {loads : Bool} {run : AgentRun}
    (h : (e.retain before r r' loads).run = some run) :
    before.run = some run ∨ run = r'.run := by
  unfold Executor.retain at h
  cases hkind : e.kind with
  | scheduled | recovery =>
      rw [hkind] at h
      cases h
  | request =>
      rw [hkind] at h
      simp only [] at h
      split at h
      · rw [Option.some.injEq] at h
        split at h
        · cases hb : before.run with
          | none =>
              rw [hb] at h
              exact .inr h.symm
          | some b =>
              rw [hb] at h
              exact .inl (congrArg some h)
        · exact .inr h.symm
      · cases h

end Still

namespace Runtime

variable {s s' : Runtime} {l : RuntimeStep}

/-- The executor `e` became one whose copy of the run is the old one or the row. -/
def Recopied (s : Runtime) (pid : Nat) (e : Executor) (s' : Runtime) : Prop :=
  ∃ e', s'.executors = s.executors.set pid e' ∧ e'.runId = e.runId ∧
    ∀ run, e'.cache.run = some run →
      e.cache.run = some run ∨ ∃ r', s'.runs.get e.runId = some r' ∧ run = r'.run

theorem Ran.recopied {α : Type} {pid : Nat} {e e' : Executor} {r r' : RunRecord} {a : α}
    {op : RunRecord → Except Fault (α × RunRecord)} (hran : s.Ran e l op r a r')
    (hown : e'.runId = e.runId)
    (hcopy : ∀ run, e'.cache.run = some run → e.cache.run = some run ∨ run = r'.run) :
    s.Recopied pid e (s.advance pid r' e') := by
  refine ⟨e', rfl, hown, fun run hrun => (hcopy run hrun).imp_right fun h => ⟨r', ?_, h⟩⟩
  have hid : r'.run.id = e.runId := (transact_id hran.committed).trans (Runs.get_id hran.found)
  exact (Runs.get_put hran.found hid e.runId).trans (if_pos rfl)

theorem recopied_settle {pid : Nat} {e e' : Executor} (hown : e'.runId = e.runId)
    (hcopy : ∀ run, e'.cache.run = some run → e.cache.run = some run) :
    s.Recopied pid e (s.settle pid e') :=
  ⟨e', rfl, hown, fun run hrun => .inl (hcopy run hrun)⟩

theorem execStep_copy {pid : Nat} {e : Executor} (h : s.execStep pid e l = some s') :
    s.Recopied pid e s' := by
  have kept : ∀ {e' : Executor} {before : Cache} {r r' : RunRecord} {loads : Bool},
      (before = e.cache ∨ before = .empty) → ∀ run,
      (e'.retain before r r' loads).run = some run → e.cache.run = some run ∨ run = r'.run := by
    rintro e' before r r' loads hbefore run hrun
    refine (Executor.retain_run hrun).imp_left fun hold => ?_
    rcases hbefore with rfl | rfl
    · exact hold
    · cases hold
  unfold execStep at h
  split at h
  · obtain ⟨copy, hcopy, h⟩ := bind_some h
    obtain ⟨⟨r, res⟩, hx, h⟩ := bind_some h
    simp only [] at h
    split at h
    all_goals cases h
    · exact (ran_of_exec hx rfl).recopied rfl fun run hrun => nomatch hrun
    · exact (ran_of_exec hx rfl).recopied rfl fun run hrun => .inl hrun
    · exact recopied_settle rfl fun run hrun => hrun
  · obtain ⟨⟨r, res⟩, hx, h⟩ := bind_some h
    simp only [] at h
    split at h
    all_goals cases h
    · exact (ran_of_exec hx rfl).recopied rfl (kept (.inl rfl))
    · exact (ran_of_exec hx rfl).recopied rfl (kept (.inl rfl))
    · exact recopied_settle rfl fun run hrun => hrun
  · split at h
    · cases h
    · obtain ⟨r, -, h⟩ := bind_some h
      obtain ⟨res, -, h⟩ := bind_some h
      cases h
      exact recopied_settle rfl fun run hrun => nomatch hrun
  · split at h
    · cases h
    · obtain ⟨last, hlast, h⟩ := bind_some h
      simp only [] at h
      obtain ⟨⟨r, res⟩, hx, h⟩ := bind_some h
      simp only [] at h
      split at h
      all_goals cases h
      · exact (ran_of_exec hx rfl).recopied rfl (kept (.inr rfl))
      · exact recopied_settle rfl fun run hrun => hrun
  · split at h
    · cases h
    · obtain ⟨⟨r, res⟩, hx, h⟩ := bind_some h
      simp only [] at h
      split at h
      all_goals cases h
      · exact (ran_of_exec hx rfl).recopied rfl (kept (.inl rfl))
      · exact recopied_settle rfl fun run hrun => hrun
  · obtain ⟨agent, -, h⟩ := bind_some h
    cases h
    exact recopied_settle rfl fun run hrun => hrun
  · obtain ⟨agent, -, h⟩ := bind_some h
    obtain ⟨⟨r, res⟩, hx, h⟩ := bind_some h
    simp only [] at h
    split at h
    all_goals cases h
    · exact (ran_of_exec hx rfl).recopied rfl (kept (.inr rfl))
    · exact recopied_settle rfl fun run hrun => hrun
    · exact recopied_settle rfl fun run hrun => hrun
  · obtain ⟨⟨r, res⟩, hx, h⟩ := bind_some h
    simp only [] at h
    split at h
    all_goals cases h
    · exact (ran_of_exec hx rfl).recopied rfl (kept (.inr rfl))
    · exact recopied_settle rfl fun run hrun => hrun
  · split at h
    · cases h
    · obtain ⟨⟨r, res⟩, hx, h⟩ := bind_some h
      simp only [] at h
      split at h
      all_goals cases h
      · exact (ran_of_exec hx rfl).recopied rfl fun run hrun => .inl hrun
      · exact recopied_settle rfl fun run hrun => hrun
  · cases h
    exact recopied_settle rfl fun run hrun => hrun
  · cases h

/-! ## What a step does to the approvals -/

/-- The run is the same and approvals with `P` were added. -/
structure Keeps (P : ApprovalRequest → Prop) (r r' : RunRecord) : Prop where
  still : r'.run.still = r.run.still
  approvals : ∃ new, r'.approvals = r.approvals ++ new ∧ ∀ a ∈ new, P a
  ids : (r.approvals.map (·.id)).Nodup → (r'.approvals.map (·.id)).Nodup

theorem keeps_of_transact {α : Type} {P : ApprovalRequest → Prop} {c : Cache}
    {op : RunRecord → Except Fault (α × RunRecord)} {r r' : RunRecord} {a : α}
    (hc : c.ofRun r) (hop : Ensures (op (c.seen r)) fun p => Files P (c.seen r) p.2)
    (h : transact c op r = .ok (a, r')) : Keeps P r r' := by
  have hstill := (changed_of_transact (evolves_of_files hop) h).still hc
  obtain ⟨after, hok, rfl, -⟩ := transact_ok h
  exact ⟨hstill, (hop _ hok).approvals, (hop _ hok).ids⟩

/-- An approval captured its target as it is in `memories`. -/
def CapturedIn (memories : Uuid → Option Memory) (r : RunRecord) (a : ApprovalRequest) : Prop :=
  ∃ build, Captured build memories r.run.projectId a

/-- The memories that a step looks at. -/
def readsFrom (memories : Uuid → Option Memory) : RuntimeStep → Prop
  | .propose _ world .. | .review _ world .. | .persist _ world .. => world.memories = memories
  | _ => True

inductive Happens (memories : Uuid → Option Memory) (s : Runtime) (l : RuntimeStep)
    (s' : Runtime) : Prop where
  | same : s'.runs = s.runs → Happens memories s l s'
  | created (x : RunRecord) : s.runs.get x.run.id = none → x.approvals = [] →
      s'.runs = s.runs ++ [x] → Happens memories s l s'
  | filed (id : Uuid) (r r' : RunRecord) : s.runs.get id = some r → r'.run.id = id →
      s'.runs = s.runs.put r' → Keeps (CapturedIn memories r) r r' → Happens memories s l s'
  | reviewed (build : Build) (world : World) (id approvalId : Uuid) (decision : Decision)
      (now : Instant) (r r' : RunRecord) (outcome : ReviewOutcome) :
      l = .review build world id approvalId decision now → s.runs.get id = some r →
      s'.runs = s.runs.put r' →
      reviewProposal build memories r approvalId decision now = .ok (outcome, r') →
      Happens memories s l s'

variable {memories : Uuid → Option Memory}

theorem request_filed {α : Type} {id : Uuid}
    {op : RunRecord → Except Fault (α × RunRecord)} {p : α × RunRecord}
    (hop : ∀ r, Ensures (op r) fun p => Files (CapturedIn memories r) r p.2)
    (h : s.onRun id op = some p) (hs' : s'.runs = s.runs.put p.2) :
    Happens memories s l s' := by
  obtain ⟨r, hr, htx⟩ := onRun_ok h
  refine .filed id r p.2 hr ((transact_id htx).trans (Runs.get_id hr)) hs' ?_
  refine keeps_of_transact (c := .empty) (fun _ h => nomatch h) ?_ htx
  rw [Cache.empty_seen]
  exact hop r

theorem files_of_plain {α : Type} {x : Except Fault (α × RunRecord)} {r : RunRecord}
    {P : ApprovalRequest → Prop} (h : Ensures x fun p => Plain r p.2) :
    Ensures x fun p => Files P r p.2 := h.mono fun _ h => h.files

theorem Ran.filed {α : Type} {e : Executor} {op : RunRecord → Except Fault (α × RunRecord)}
    {r r' : RunRecord} {a : α} (hran : s.Ran e l op r a r')
    (hc : (e.cacheFor l).ofRun r)
    (hop : ∀ r, Ensures (op r) fun p => Files (CapturedIn memories r) r p.2)
    (hs' : s'.runs = s.runs.put r') : Happens memories s l s' := by
  have hscope : ((e.cacheFor l).seen r).run.projectId = r.run.projectId :=
    @congrArg _ _ (((e.cacheFor l).seen r).run.still) r.run.still AgentRun.projectId (Cache.seen_still hc)
  have hid : r'.run.id = e.runId := (transact_id hran.committed).trans (Runs.get_id hran.found)
  refine .filed e.runId r r' hran.found hid hs' (keeps_of_transact hc ?_ hran.committed)
  have hfiles := hop ((e.cacheFor l).seen r)
  unfold CapturedIn at hfiles ⊢
  rw [hscope] at hfiles
  exact hfiles

theorem Executor.cacheFor_ofRun {e : Executor} {r : RunRecord} (h : e.cache.ofRun r) :
    (e.cacheFor l).ofRun r := by
  unfold Executor.cacheFor
  split
  · exact fun _ h => nomatch h
  · exact fun _ h => nomatch h
  · split
    · exact fun _ h => nomatch h
    · exact h
  · exact h

theorem execStep_happens {pid : Nat} {e : Executor} (hreads : readsFrom memories l)
    (hcopies : ∀ r, s.runs.get e.runId = some r → e.cache.ofRun r)
    (h : s.execStep pid e l = some s') : Happens memories s l s' := by
  have own : ∀ {α : Type} {op : RunRecord → Except Fault (α × RunRecord)}
      {r r' : RunRecord} {a : α} {e' : Executor}, s.Ran e l op r a r' →
      (∀ r, Ensures (op r) fun p => Files (CapturedIn memories r) r p.2) →
      Happens memories s l (s.advance pid r' e') := fun hran hop =>
    hran.filed (Executor.cacheFor_ofRun (hcopies _ hran.found)) hop rfl
  cases execStep_move h with
  | claimed _ _ hran => exact own hran fun _ => files_of_plain (claimExecution_routine .plain _ _)
  | notClaimed _ _ hran => exact own hran fun _ => files_of_plain (claimExecution_routine .plain _ _)
  | reserved _ hran => exact own hran fun _ => files_of_plain (reserveNext_routine .plain _ _ _)
  | drained _ hran => exact own hran fun _ => files_of_plain (reserveNext_routine .plain _ _ _)
  | finalized _ _ _ hran =>
      exact own hran fun _ => files_of_plain (finalizeInvocation_routine .plain _ _ _ _ _)
  | started _ _ hran => exact own hran fun _ => files_of_plain (startOp_routine .plain)
  | persisted _ hran =>
      refine own hran fun r => persistOp_files.mono fun p h => h.mono fun a ha => ⟨e.build, ?_⟩
      rw [← show _ = memories from hreads]
      exact ha
  | failed _ hran => exact own hran fun _ => files_of_plain (alone_ensures (failResult_routine .plain _))
  | completed _ hran => exact own hran fun _ => files_of_plain (completeOp_routine .plain)
  | reloaded | unanswered | refused | ended => exact .same rfl

/-- Every executor is of a run that is there and holds copies of that run only,
and the approvals of a run have different identifiers. -/
structure Registered (s : Runtime) : Prop where
  known : ∀ (pid : Nat) (e : Executor), s.executors[pid]? = some e →
    ∃ r, s.runs.get e.runId = some r
  copies : ∀ (pid : Nat) (e : Executor) (r : RunRecord), s.executors[pid]? = some e →
    s.runs.get e.runId = some r → e.cache.ofRun r
  ids : ∀ (id : Uuid) (r : RunRecord), s.runs.get id = some r →
    (r.approvals.map (·.id)).Nodup

theorem step_happens (hreads : readsFrom memories l) (hreg : Registered s)
    (h : s.step l = some s') : Happens memories s l s' := by
  unfold step at h
  split at h
  · split at h
    · next hcreate =>
        cases h
        rcases createRun_ok hcreate with ⟨r, -, -, -, rfl⟩ | ⟨hkey, hid, -, -, rfl⟩
        · exact .same rfl
        · exact .created _ hid rfl rfl
    · cases h
  · obtain ⟨p, hp, h⟩ := Option.map_eq_some_iff.mp h
    exact request_filed
      (fun r => files_of_plain (alone_ensures (transitionRun_plain r _ _ _ _ _))) hp (h ▸ rfl)
  · obtain ⟨p, hp, h⟩ := Option.map_eq_some_iff.mp h
    exact request_filed (fun _ => files_of_plain (alone_ensures (cancelRun_routine .plain _))) hp (h ▸ rfl)
  · obtain ⟨p, hp, h⟩ := Option.map_eq_some_iff.mp h
    exact request_filed (fun _ => files_of_plain (claimPlanning_plain _ _)) hp (h ▸ rfl)
  · obtain ⟨p, hp, h⟩ := Option.map_eq_some_iff.mp h
    exact request_filed (fun _ => files_of_plain (alone_ensures (finalizePlan_plain _ _))) hp
      (h ▸ rfl)
  · obtain ⟨p, hp, h⟩ := Option.map_eq_some_iff.mp h
    exact request_filed (fun _ => files_of_plain (finalizeFailure_routine .plain _ _)) hp (h ▸ rfl)
  · next build world runId q now approvalId executionId =>
      obtain ⟨p, hp, h⟩ := Option.map_eq_some_iff.mp h
      refine request_filed (fun r => ?_) hp (h ▸ rfl)
      refine (createProposal_files _ _ _ _ _).mono fun p h => h.mono fun a ha => ⟨build, ?_⟩
      rw [← show _ = memories from hreads]
      exact ha
  · next build world runId approvalId decision now =>
      obtain ⟨⟨outcome, r'⟩, hp, h⟩ := Option.map_eq_some_iff.mp h
      obtain ⟨r, hr, htx⟩ := onRun_ok hp
      have hop := (transact_coherent (Cache.empty_seen r)
        ((reviewProposal_evolves _ _ _).mono fun _ h => h.id_eq) htx).1
      rw [show world.memories = memories from hreads] at hop
      exact .reviewed build world runId approvalId decision now r r' outcome rfl hr (h ▸ rfl)
        hop
  · obtain ⟨p, hp, h⟩ := Option.map_eq_some_iff.mp h
    exact request_filed (fun _ => files_of_plain (claimExecution_routine .plain _ _)) hp
      (h ▸ spawn_runs)
  · obtain ⟨p, hp, h⟩ := Option.map_eq_some_iff.mp h
    exact request_filed (fun _ => files_of_plain (prepareOne_routine .plain)) hp (h ▸ spawn_runs)
  · obtain ⟨r, -, h⟩ := bind_some h
    obtain ⟨definition, -, h⟩ := bind_some h
    split at h
    · cases h
    · cases h
      exact .same rfl
  · obtain ⟨pid, hpid, h⟩ := bind_some h
    obtain ⟨e, he, h⟩ := bind_some h
    exact execStep_happens hreads (hreg.copies pid e · he) h

/-- An executor came, of a run that is there and with no copy but of its row. -/
def Joined (s s' : Runtime) : Prop :=
  ∃ e r, s'.executors = s.executors ++ [e] ∧ s'.runs.get e.runId = some r ∧ e.cache.ofRun r

theorem spawn_joined {kind : ExecutorKind} {build : Build} {id : Uuid}
    {op : RunRecord → Except Fault (Option ExecutionClaim × RunRecord)}
    {p : Option ExecutionClaim × RunRecord} (hp : s.onRun id op = some p)
    (hop : ∀ r, Ensures (op r) fun p => ∀ claim, p.1 = some claim → claim.runId = r.run.id) :
    (s.spawn kind build p).executors = s.executors ∨ s.Joined (s.spawn kind build p) := by
  obtain ⟨r, hr, htx⟩ := onRun_ok hp
  obtain ⟨claim?, r'⟩ := p
  cases claim? with
  | none => exact .inl rfl
  | some claim =>
      obtain ⟨after, hok, -, -⟩ := transact_ok htx
      rw [Cache.empty_seen] at hok
      have hclaim : claim.runId = id := (hop r _ hok claim rfl).trans (Runs.get_id hr)
      have hid : r'.run.id = id := (transact_id htx).trans (Runs.get_id hr)
      refine .inr ⟨claim.executor kind build, r', rfl, ?_, fun _ h => nomatch h⟩
      exact (Runs.get_put hr hid claim.runId).trans (if_pos hclaim)

/-- The executors after a step: none moved, one came, or one moved. -/
theorem step_executors (h : s.step l = some s') :
    s'.executors = s.executors ∨ s.Joined s' ∨
      ∃ pid e, s.executors[pid]? = some e ∧ s.Recopied pid e s' := by
  have request : ∀ {α : Type} {id : Uuid} {op : RunRecord → Except Fault (α × RunRecord)},
      s.request id op = some s' → s'.executors = s.executors := by
    intro α id op h
    obtain ⟨p, -, h⟩ := Option.map_eq_some_iff.mp h
    exact h ▸ rfl
  unfold step at h
  split at h
  · split at h
    · cases h
      exact .inl rfl
    · cases h
  · exact .inl (request h)
  · exact .inl (request h)
  · exact .inl (request h)
  · exact .inl (request h)
  · exact .inl (request h)
  · exact .inl (request h)
  · exact .inl (request h)
  · obtain ⟨p, hp, rfl⟩ := Option.map_eq_some_iff.mp h
    exact (spawn_joined hp fun _ => (claimExecution_work (k := none) _ _).mono
      fun _ h claim hclaim => (h.2 claim hclaim).1).imp_right .inl
  · obtain ⟨p, hp, rfl⟩ := Option.map_eq_some_iff.mp h
    exact (spawn_joined hp fun _ => (prepareOne_work (k := none)).mono
      fun _ h claim hclaim => (h.2 claim hclaim).1).imp_right .inl
  · next build runId =>
      obtain ⟨r, hr, h⟩ := bind_some h
      obtain ⟨definition, -, h⟩ := bind_some h
      split at h
      · cases h
      · cases h
        refine .inr (.inl ⟨_, r, rfl, hr, ?_⟩)
        rintro run ⟨⟩
        rfl
  · obtain ⟨pid, -, h⟩ := bind_some h
    obtain ⟨e, he, h⟩ := bind_some h
    exact .inr (.inr ⟨pid, e, he, execStep_copy h⟩)

/-- The run is the same and each of its approvals is what it can have become. -/
def Continues (r r' : RunRecord) : Prop :=
  r'.run.still = r.run.still ∧ ∀ (k : Nat) (a : ApprovalRequest), r.approvals[k]? = some a →
    ∃ a', r'.approvals[k]? = some a' ∧ a.Follows a'

theorem Continues.refl (r : RunRecord) : Continues r r :=
  ⟨rfl, fun _ a ha => ⟨a, ha, .refl a⟩⟩

theorem Continues.trans {r r' r'' : RunRecord} (h : Continues r r') (h' : Continues r' r'') :
    Continues r r'' := by
  refine ⟨h'.1.trans h.1, fun k a ha => ?_⟩
  obtain ⟨b, hb, hab⟩ := h.2 k a ha
  obtain ⟨c, hc, hbc⟩ := h'.2 k b hb
  exact ⟨c, hc, hab.trans hbc⟩

/-- Rows added at the end are nobody's continuation. -/
theorem Keeps.continues {P : ApprovalRequest → Prop} {r r' : RunRecord} (h : Keeps P r r') :
    Continues r r' := by
  obtain ⟨new, hnew, -⟩ := h.approvals
  refine ⟨h.still, fun k a ha => ⟨a, ?_, .refl a⟩⟩
  rw [hnew, List.getElem?_append_left (List.getElem?_eq_some_iff.mp ha).1, ha]

/-- The row a review names, where the identifiers differ. -/
theorem decided_row {r : RunRecord} {a b : ApprovalRequest} {id : Uuid}
    (hids : (r.approvals.map (·.id)).Nodup)
    (ha : r.approvals.find? (·.id == id) = some a) (hb : b ∈ r.approvals)
    (hsame : b.id = a.id) : b = a :=
  List.inj_on_of_nodup_map hids hb (List.mem_of_find?_eq_some ha) hsame

theorem reviewed_continues {build : Build} {r r' : RunRecord} {id : Uuid}
    {decision : Decision} {now : Instant} {outcome : ReviewOutcome}
    (hids : (r.approvals.map (·.id)).Nodup)
    (h : reviewProposal build memories r id decision now = .ok (outcome, r')) :
    Continues r r' := by
  refine ⟨Evolves.still_eq (reviewProposal_evolves _ _ _ _ h), fun k b hb => ?_⟩
  rcases reviewProposal_decides _ h with hsame | ⟨a, a', ha, hpending, hproposal, -, happrovals⟩
  · exact ⟨b, by rw [show r' = r from hsame, hb], .refl b⟩
  · rw [show r'.approvals = _ from happrovals, List.getElem?_map, hb]
    refine ⟨_, rfl, ?_⟩
    by_cases hid : b.id = a.id
    · obtain rfl := decided_row hids ha (List.mem_of_getElem? hb) hid
      show b.Follows (if b.id = b.id then a' else b)
      rw [if_pos rfl]
      exact ⟨hproposal, fun hdecided => absurd hpending hdecided⟩
    · show b.Follows (if b.id = a.id then a' else b)
      rw [if_neg hid]
      exact .refl b

/-- A run that was there continues. -/
theorem Happens.continues (hreg : Registered s) (h : Happens memories s l s') {id : Uuid}
    {r : RunRecord} (hr : s.runs.get id = some r) :
    ∃ r', s'.runs.get id = some r' ∧ Continues r r' := by
  have put : ∀ {id₀ : Uuid} {r₀ r' : RunRecord}, s.runs.get id₀ = some r₀ →
      r'.run.id = id₀ → Continues r₀ r' → s'.runs = s.runs.put r' →
      ∃ r', s'.runs.get id = some r' ∧ Continues r r' := by
    intro id₀ r₀ r' hr₀ hid hcontinues hruns
    rw [hruns, Runs.get_put hr₀ hid]
    by_cases hsame : id = id₀
    · subst hsame
      rw [hr, Option.some.injEq] at hr₀
      exact ⟨r', if_pos rfl, hr₀ ▸ hcontinues⟩
    · exact ⟨r, by rw [if_neg hsame, hr], .refl r⟩
  cases h with
  | same hruns => exact ⟨r, by rw [hruns, hr], .refl r⟩
  | created x _ _ hruns =>
      refine ⟨r, ?_, .refl r⟩
      rw [hruns, Runs.get, List.find?_append, show s.runs.find? _ = some r from hr]
      rfl
  | filed id₀ r₀ r' hr₀ hid hruns hkeeps => exact put hr₀ hid hkeeps.continues hruns
  | reviewed _ _ id₀ _ _ _ r₀ r' outcome _ hr₀ hruns hreview =>
      have hid := (reviewProposal_evolves _ _ _ _ hreview).id_eq.trans (Runs.get_id hr₀)
      exact put hr₀ hid (reviewed_continues (hreg.ids _ _ hr₀) hreview) hruns

/-- The identifiers stay different. -/
theorem Happens.ids (hreg : Registered s) (h : Happens memories s l s') {id : Uuid}
    {r' : RunRecord} (hr' : s'.runs.get id = some r') :
    (r'.approvals.map (·.id)).Nodup := by
  have put : ∀ {id₀ : Uuid} {r₀ r₁ : RunRecord}, s.runs.get id₀ = some r₀ →
      r₁.run.id = id₀ → (r₁.approvals.map (·.id)).Nodup → s'.runs = s.runs.put r₁ →
      (r'.approvals.map (·.id)).Nodup := by
    intro id₀ r₀ r₁ hr₀ hid hids hruns
    rw [hruns, Runs.get_put hr₀ hid] at hr'
    split at hr'
    · cases hr'
      exact hids
    · exact hreg.ids _ _ hr'
  cases h with
  | same hruns => exact hreg.ids _ _ (hruns ▸ hr')
  | created x _ hx hruns =>
      rw [hruns, Runs.get, List.find?_append] at hr'
      rcases Option.or_eq_some_iff.mp hr' with hold | ⟨-, hnew⟩
      · exact hreg.ids _ _ hold
      · have := List.mem_of_find?_eq_some hnew
        rw [List.mem_singleton.mp this, hx]
        exact List.nodup_nil
  | filed id₀ r₀ r₁ hr₀ hid hruns hkeeps =>
      exact put hr₀ hid (hkeeps.ids (hreg.ids _ _ hr₀)) hruns
  | reviewed _ _ id₀ _ _ _ r₀ r₁ outcome _ hr₀ hruns hreview =>
      have hid := (reviewProposal_evolves _ _ _ _ hreview).id_eq.trans (Runs.get_id hr₀)
      refine put hr₀ hid ?_ hruns
      have hids := hreg.ids _ _ hr₀
      rcases reviewProposal_decides _ hreview with hsame | ⟨a, a', ha, -, hproposal, -, hmap⟩
      · rw [show r₁ = r₀ from hsame]
        exact hids
      · rw [show r₁.approvals = _ from hmap, List.map_map]
        have hkept : ((·.id) ∘ fun b : ApprovalRequest => if b.id = a.id then a' else b) =
            (·.id) := by
          funext b
          simp only [Function.comp_apply]
          split
          · next hb =>
              rw [hb]
              exact @congrArg _ _ a'.proposal a.proposal ApprovalRequest.id hproposal
          · rfl
        rw [hkept]
        exact hids

theorem Registered.step (hreads : readsFrom memories l) (hreg : Registered s)
    (h : s.step l = some s') : Registered s' := by
  have happens := step_happens hreads hreg h
  have old : ∀ {pid : Nat} {e : Executor}, s.executors[pid]? = some e →
      ∃ r', s'.runs.get e.runId = some r' ∧ e.cache.ofRun r' := by
    intro pid e he
    obtain ⟨r, hr⟩ := hreg.known pid e he
    obtain ⟨r', hr', hstill, -⟩ := happens.continues hreg hr
    exact ⟨r', hr', fun run hrun => (hreg.copies pid e r he hr run hrun).trans hstill.symm⟩
  have all : ∀ {pid : Nat} {e : Executor}, s'.executors[pid]? = some e →
      ∃ r', s'.runs.get e.runId = some r' ∧ e.cache.ofRun r' := by
    intro pid e he
    rcases step_executors h with hsame | ⟨x, r, hx, hr, hcopies⟩ | ⟨p, x, hx, x', hset, hown, hcopy⟩
    · exact old (hsame ▸ he)
    · rw [hx] at he
      by_cases hlt : pid < s.executors.length
      · rw [List.getElem?_append_left hlt] at he
        exact old he
      · rw [List.getElem?_append_right (not_lt.mp hlt)] at he
        have := List.mem_of_getElem? he
        rw [List.mem_singleton.mp this]
        exact ⟨r, hr, hcopies⟩
    · rw [hset, List.getElem?_set] at he
      split at he
      · split at he
        · cases he
          obtain ⟨r', hr', holds⟩ := old hx
          refine ⟨r', by rw [hown, hr'], fun run hrun => ?_⟩
          rcases hcopy run hrun with hold | ⟨r'', hr'', rfl⟩
          · exact holds run hold
          · rw [hr', Option.some.injEq] at hr''
            rw [hr'']
        · cases he
      · exact old he
  refine ⟨fun pid e he => ?_, fun pid e r' he hr' => ?_, fun id r' hr' => ?_⟩
  · obtain ⟨r', hr', -⟩ := all he
    exact ⟨r', hr'⟩
  · obtain ⟨r'', hr'', hcopies⟩ := all he
    rw [hr', Option.some.injEq] at hr''
    exact hr'' ▸ hcopies
  · exact happens.ids hreg hr'

/-- An approval that is approved by a step was approved by a review, on its target
as it is then. -/
theorem Happens.approved (hreg : Registered s) (h : Happens memories s l s') {id : Uuid}
    {r r' : RunRecord} {k : Nat} {a a' : ApprovalRequest} (hr : s.runs.get id = some r)
    (hr' : s'.runs.get id = some r') (ha : r.approvals[k]? = some a)
    (ha' : r'.approvals[k]? = some a') (hbefore : a.status ≠ .approved)
    (hafter : a'.status = .approved) :
    ∃ build world now, l = .review build world id a.id .approve now ∧
      Approvable build memories r a now := by
  have unchanged : a' = a → False := fun hsame => hbefore (hsame ▸ hafter)
  cases h with
  | same hruns =>
      rw [hruns, hr, Option.some.injEq] at hr'
      subst hr'
      rw [ha, Option.some.injEq] at ha'
      exact (unchanged ha'.symm).elim
  | created x _ _ hruns =>
      rw [hruns, Runs.get, List.find?_append, show s.runs.find? _ = some r from hr] at hr'
      obtain rfl : r = r' := by simpa using hr'
      rw [ha, Option.some.injEq] at ha'
      exact (unchanged ha'.symm).elim
  | filed id₀ r₀ r₁ hr₀ hid hruns hkeeps =>
      rw [hruns, Runs.get_put hr₀ hid] at hr'
      split at hr'
      · next hsame =>
          subst hsame
          rw [hr, Option.some.injEq] at hr₀
          subst hr₀
          rw [Option.some.injEq] at hr'
          subst hr'
          obtain ⟨new, hnew, -⟩ := hkeeps.approvals
          have hlt := (List.getElem?_eq_some_iff.mp ha).1
          rw [hnew, List.getElem?_append_left hlt, ha, Option.some.injEq] at ha'
          exact (unchanged ha'.symm).elim
      · rw [hr, Option.some.injEq] at hr'
        subst hr'
        rw [ha, Option.some.injEq] at ha'
        exact (unchanged ha'.symm).elim
  | reviewed build world id₀ approvalId decision now r₀ r₁ outcome hl hr₀ hruns hreview =>
      have hid := (reviewProposal_evolves _ _ _ _ hreview).id_eq.trans (Runs.get_id hr₀)
      rw [hruns, Runs.get_put hr₀ hid] at hr'
      split at hr'
      · next hsame =>
          subst hsame
          rw [hr, Option.some.injEq] at hr₀
          subst hr₀
          rw [Option.some.injEq] at hr'
          subst hr'
          rcases reviewProposal_decides _ hreview with hkept | ⟨c, c', hc, -, -, hverdict, hmap⟩
          · rw [show r₁ = r from hkept, ha, Option.some.injEq] at ha'
            exact (unchanged ha'.symm).elim
          · rw [show r₁.approvals = _ from hmap, List.getElem?_map, ha] at ha'
            have hrow : a' = if a.id = c.id then c' else a := (Option.some.inj ha').symm
            by_cases hac : a.id = c.id
            · obtain rfl := decided_row (hreg.ids _ _ hr) hc (List.mem_of_getElem? ha) hac
              rw [if_pos rfl] at hrow
              subst hrow
              obtain ⟨rfl, happrovable⟩ := hverdict hafter
              have hnamed : a.id = approvalId := by
                simpa using List.find?_some hc
              exact ⟨build, world, now, hnamed ▸ hl, happrovable⟩
            · rw [if_neg hac] at hrow
              exact (unchanged hrow).elim
      · rw [hr, Option.some.injEq] at hr'
        subst hr'
        rw [ha, Option.some.injEq] at ha'
        exact (unchanged ha'.symm).elim

/-- An approval that was not there before the step captured its target as it is then. -/
theorem Happens.captured (h : Happens memories s l s') {id : Uuid} {r' : RunRecord}
    {k : Nat} {a' : ApprovalRequest} (hr' : s'.runs.get id = some r')
    (ha' : r'.approvals[k]? = some a')
    (hnew : ∀ r, s.runs.get id = some r → r.approvals[k]? = none) :
    CapturedIn memories r' a' := by
  have old : s.runs.get id = some r' → False := fun hr => by
    have hnone := hnew r' hr
    rw [hnone] at ha'
    cases ha'
  cases h with
  | same hruns => exact (old (hruns ▸ hr')).elim
  | created x _ hx hruns =>
      rw [hruns, Runs.get, List.find?_append] at hr'
      rcases Option.or_eq_some_iff.mp hr' with hold | ⟨-, hmade⟩
      · exact (old hold).elim
      · have hin := List.mem_of_find?_eq_some hmade
        rw [List.mem_singleton.mp hin, hx] at ha'
        cases ha'
  | filed id₀ r₀ r₁ hr₀ hid hruns hkeeps =>
      rw [hruns, Runs.get_put hr₀ hid] at hr'
      split at hr'
      · next hsame =>
          subst hsame
          rw [Option.some.injEq] at hr'
          subst hr'
          obtain ⟨new, happ, hcaptured⟩ := hkeeps.approvals
          have hle := List.getElem?_eq_none_iff.mp (hnew r₀ hr₀)
          rw [happ, List.getElem?_append_right hle] at ha'
          have hscope : r₁.run.projectId = r₀.run.projectId :=
            @congrArg _ _ r₁.run.still r₀.run.still AgentRun.projectId
              hkeeps.still
          have hfiled := hcaptured a' (List.mem_of_getElem? ha')
          unfold CapturedIn at hfiled ⊢
          rw [hscope]
          exact hfiled
      · exact (old hr').elim
  | reviewed build world id₀ approvalId decision now r₀ r₁ outcome hl hr₀ hruns hreview =>
      have hid := (reviewProposal_evolves _ _ _ _ hreview).id_eq.trans (Runs.get_id hr₀)
      rw [hruns, Runs.get_put hr₀ hid] at hr'
      split at hr'
      · next hsame =>
          subst hsame
          rw [Option.some.injEq] at hr'
          subst hr'
          rcases reviewProposal_decides _ hreview with hkept | ⟨c, c', -, -, -, -, hmap⟩
          · exact (old (hr₀.trans (congrArg some hkept.symm))).elim
          · rw [show r₁.approvals = _ from hmap, List.getElem?_map, hnew r₀ hr₀] at ha'
            cases ha'
      · exact (old hr').elim

end Runtime

/-! ## The runtime beside the memories -/

/-- The runtime and the memories its proposals are about. -/
structure Desk where
  runtime : Runtime := {}
  memories : Uuid → Option Memory := fun _ => none

inductive DeskStep where
  | serve (l : RuntimeStep)
  | edit (m : Memory)
  | delete (id : Uuid)

/-- The step with these memories in the database. -/
def RuntimeStep.reading (memories : Uuid → Option Memory) : RuntimeStep → RuntimeStep
  | .propose build world runId q now approvalId executionId =>
      .propose build { world with memories := memories } runId q now approvalId executionId
  | .review build world runId approvalId decision now =>
      .review build { world with memories := memories } runId approvalId decision now
  | .persist pid world synthesis now =>
      .persist pid { world with memories := memories } synthesis now
  | l => l

namespace Desk

def step (d : Desk) : DeskStep → Option Desk
  | .serve l => (d.runtime.step (l.reading d.memories)).map fun s => { d with runtime := s }
  | .edit m => some { d with memories := fun id => if id = m.id then some m else d.memories id }
  | .delete gone =>
      some { d with memories := fun id => if id = gone then none else d.memories id }

/-- Nothing is stored but memories, and nobody is at work. -/
def machine : Lib.Machine Desk DeskStep where
  start d := d.runtime.runs = [] ∧ d.runtime.executors = []
  next := step

theorem reading_reads (memories : Uuid → Option Memory) (l : RuntimeStep) :
    Runtime.readsFrom memories (l.reading memories) := by
  cases l
  all_goals first | rfl | exact trivial

/-- Only a review reads as one. -/
theorem review_of_reading {memories : Uuid → Option Memory} {l : RuntimeStep} {build : Build}
    {world : World} {id approvalId : Uuid} {decision : Decision} {now : Instant}
    (h : l.reading memories = .review build world id approvalId decision now) :
    ∃ world, l = .review build world id approvalId decision now := by
  cases l with
  | review build' world' =>
      injection h with hbuild _ hid happroval hdecision hnow
      subst hbuild hid happroval hdecision hnow
      exact ⟨world', rfl⟩
  | _ => cases h

/-- Whatever happens, every run continues. -/
def Continues (d d' : Desk) : Prop :=
  ∀ id r, d.runtime.runs.get id = some r →
    ∃ r', d'.runtime.runs.get id = some r' ∧ Runtime.Continues r r'

theorem Continues.refl (d : Desk) : d.Continues d := fun _ r hr => ⟨r, hr, .refl r⟩

theorem Continues.trans {d d' d'' : Desk} (h : d.Continues d') (h' : d'.Continues d'') :
    d.Continues d'' := by
  intro id r hr
  obtain ⟨r', hr', hcontinues⟩ := h id r hr
  obtain ⟨r'', hr'', hcontinues'⟩ := h' id r' hr'
  exact ⟨r'', hr'', hcontinues.trans hcontinues'⟩

variable {d d' : Desk} {l : DeskStep}

/-- A review of a decided approval that is answered changes no row. -/
theorem review_decided {s s' : Runtime} {build : Build} {world : World} {id approvalId : Uuid}
    {decision : Decision} {now : Instant} {r : RunRecord} {a : ApprovalRequest}
    (hr : s.runs.get id = some r) (ha : r.approvals.find? (·.id == approvalId) = some a)
    (hdecided : a.status ≠ .pending)
    (h : s.step (.review build world id approvalId decision now) = some s') :
    decision.desired = a.status ∧ ∀ id', s'.runs.get id' = s.runs.get id' := by
  obtain ⟨⟨outcome, r'⟩, hp, rfl⟩ := Option.map_eq_some_iff.mp h
  obtain ⟨r₀, hr₀, htx⟩ := Runtime.onRun_ok hp
  rw [hr, Option.some.injEq] at hr₀
  subst hr₀
  have hop := (transact_coherent (Cache.empty_seen r)
    ((reviewProposal_evolves _ _ _).mono fun _ h => h.id_eq) htx).1
  rw [reviewProposal_decided ha hdecided] at hop
  split at hop
  · next hsame =>
      obtain ⟨-, rfl⟩ := Prod.mk.inj (Except.ok.inj hop)
      refine ⟨hsame.symm, fun id' => ?_⟩
      refine (Runs.get_put hr (Runs.get_id hr) id').trans ?_
      split
      · next hid => rw [hid, hr]
      · rfl
  · cases hop

/-- A step of the desk is a step of the runtime on the memories as they are, or
leaves the runtime alone. -/
theorem step_cases (h : d.step l = some d') :
    (∃ l' s', l = .serve l' ∧ d.runtime.step (l'.reading d.memories) = some s' ∧
      d' = { d with runtime := s' }) ∨
    d'.runtime = d.runtime := by
  cases l with
  | serve l' =>
      obtain ⟨s', hs', rfl⟩ := Option.map_eq_some_iff.mp h
      exact .inl ⟨l', s', rfl, hs', rfl⟩
  | edit m =>
      cases h
      exact .inr rfl
  | delete id =>
      cases h
      exact .inr rfl

theorem step_continues (hreg : Runtime.Registered d.runtime) (h : d.step l = some d') :
    d.Continues d' ∧ Runtime.Registered d'.runtime := by
  rcases step_cases h with ⟨l', s', -, hs', rfl⟩ | hsame
  · have hreads := reading_reads d.memories l'
    exact ⟨fun id r hr => (Runtime.step_happens hreads hreg hs').continues hreg hr,
      hreg.step hreads hs'⟩
  · exact ⟨fun id r hr => ⟨r, by rw [hsame, hr], .refl r⟩, hsame ▸ hreg⟩

theorem reachable_registered (h : machine.Reachable d) : Runtime.Registered d.runtime := by
  refine h.invariant (I := fun d => Runtime.Registered d.runtime) ?_
    fun _ _ _ _ _ hreg hnext => (step_continues hreg hnext).2
  intro d ⟨hruns, hexecutors⟩
  refine ⟨fun pid e he => ?_, fun pid e r he => ?_, fun id r hr => ?_⟩
  · rw [hexecutors] at he
    cases he
  · rw [hexecutors] at he
    cases he
  · rw [hruns] at hr
    cases hr

/-- The step approves the approval number `k` of a run. -/
def Approves (d d' : Desk) (id : Uuid) (k : Nat) (r : RunRecord) (a : ApprovalRequest) : Prop :=
  d.runtime.runs.get id = some r ∧ r.approvals[k]? = some a ∧ a.status ≠ .approved ∧
    ∃ r' a', d'.runtime.runs.get id = some r' ∧ r'.approvals[k]? = some a' ∧
      a'.status = .approved

/-- The step creates the approval number `k` of a run. -/
def Creates (d d' : Desk) (id : Uuid) (k : Nat) (r' : RunRecord) (a' : ApprovalRequest) : Prop :=
  d'.runtime.runs.get id = some r' ∧ r'.approvals[k]? = some a' ∧
    ∀ r, d.runtime.runs.get id = some r → r.approvals[k]? = none

/-- The life of the approvals of every run: whatever happens later, what was
proposed stays and a decided approval is never touched again; a step that creates
one captures its target as it is then; a step that approves one is a review that
finds the target as it was captured, in time; a review of a decided one replays
the same decision and refuses another; and no step of the runtime writes a memory. -/
theorem approval_decided_once (h : machine.Reachable d) :
    (∀ d', (machine.startingAt d).Reachable d' → d.Continues d') ∧
    (∀ l d', machine.next d l = some d' →
      (∀ id k r' a', d.Creates d' id k r' a' → Runtime.CapturedIn d.memories r' a') ∧
      (∀ id k r a, d.Approves d' id k r a → ∃ build world now,
        l = .serve (.review build world id a.id .approve now) ∧
          Approvable build d.memories r a now) ∧
      ((∃ l', l = .serve l') → d'.memories = d.memories)) ∧
    (∀ id r approvalId a build decision now, d.runtime.runs.get id = some r →
      r.approvals.find? (·.id == approvalId) = some a → a.status ≠ .pending →
      (decision.desired = a.status →
        reviewProposal build d.memories r approvalId decision now = .ok (.unchanged, r)) ∧
      (decision.desired ≠ a.status →
        reviewProposal build d.memories r approvalId decision now =
          .error .reviewConflict) ∧
      (∀ world d', machine.next d (.serve (.review build world id approvalId decision now)) =
          some d' →
        decision.desired = a.status ∧
          ∀ id', d'.runtime.runs.get id' = d.runtime.runs.get id')) := by
  have hreg := reachable_registered h
  refine ⟨fun d' hlater => ?_, fun l d' hnext => ⟨?_, ?_, ?_⟩, ?_⟩
  · exact Machine.later (I := fun d => Runtime.Registered d.runtime) Continues.refl
      Continues.trans (fun _ _ _ hreg hnext => step_continues hreg hnext) hreg hlater
  · intro id k r' a' ⟨hr', ha', hnew⟩
    rcases step_cases hnext with ⟨l', s', -, hs', rfl⟩ | hsame
    · exact (Runtime.step_happens (reading_reads d.memories l') hreg hs').captured hr' ha' hnew
    · rw [hsame] at hr'
      have hnone := hnew r' hr'
      rw [hnone] at ha'
      cases ha'
  · intro id k r a ⟨hr, ha, hbefore, r', a', hr', ha', hafter⟩
    rcases step_cases hnext with ⟨l', s', rfl, hs', rfl⟩ | hsame
    · obtain ⟨build, world, now, hl, happrovable⟩ :=
        (Runtime.step_happens (reading_reads d.memories l') hreg hs').approved hreg hr hr' ha
          ha' hbefore hafter
      obtain ⟨world', rfl⟩ := review_of_reading hl
      exact ⟨build, world', now, rfl, happrovable⟩
    · rw [hsame, hr, Option.some.injEq] at hr'
      subst hr'
      rw [ha, Option.some.injEq] at ha'
      exact absurd (ha' ▸ hafter) hbefore
  · rintro ⟨l', rfl⟩
    obtain ⟨s', -, rfl⟩ := Option.map_eq_some_iff.mp hnext
    rfl
  · intro id r approvalId a build decision now hr ha hdecided
    have hreview : ∀ build, reviewProposal build d.memories r approvalId decision now =
        if a.status = decision.desired then .ok (.unchanged, r) else .error .reviewConflict :=
      fun build => reviewProposal_decided ha hdecided
    refine ⟨fun hsame => ?_, fun hother => ?_, fun world d' hnext => ?_⟩
    · rw [hreview, if_pos hsame.symm]
    · rw [hreview, if_neg (Ne.symm hother)]
    · obtain ⟨s', hs', rfl⟩ := Option.map_eq_some_iff.mp hnext
      exact review_decided hr ha hdecided hs'

/-- A proposal that is pending, and what can become of it. -/
theorem approval_decided_once_sample :
    ∃ d, machine.Reachable d ∧ ∃ r a, d.runtime.runs.get 1 = some r ∧
      r.approvals[0]? = some a ∧ a.status = .pending ∧
      ∀ d', (machine.startingAt d).Reachable d' → ∃ r' a',
        d'.runtime.runs.get 1 = some r' ∧ r'.approvals[0]? = some a' ∧ a.Follows a' := by
  obtain ⟨d, hd, hpending⟩ := Machine.exists_reachable_of_exec machine
    ((Runtime.deskRun ++ [RuntimeStep.propose Runtime.deskBuild Runtime.deskWorld 1
      (Runtime.deskProposal 0 "new") 3 20 21]).map .serve)
    (fun d => (d.runtime.runs.get 1).any fun r =>
      (r.approvals[0]?).any fun a => a.status = .pending)
    (s := { memories := Runtime.deskWorld.memories }) ⟨rfl, rfl⟩ (by decide +kernel)
  obtain ⟨r, hr, hpending⟩ := (Option.any_eq_true _ _).mp hpending
  obtain ⟨a, ha, hpending⟩ := (Option.any_eq_true _ _).mp hpending
  refine ⟨d, hd, r, a, hr, ha, of_decide_eq_true hpending, fun d' hlater => ?_⟩
  obtain ⟨r', hr', -, hfollows⟩ := (approval_decided_once hd).1 d' hlater 1 r hr
  obtain ⟨a', ha', hfollows⟩ := hfollows 0 a ha
  exact ⟨r', a', hr', ha', hfollows⟩

end Desk

end SecondBrain
