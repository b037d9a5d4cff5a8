import SecondBrain.Connectors.Scheduler
import SecondBrain.Connectors.SyncSteps

/-!
# What a step of the scheduler does

To the refreshes the scheduler is one more operator: it claims runs, takes them up
and stops, each by a step they know (`SyncMoves`). To an occurrence it does one of
five things, or nothing (`RowMoves`). New occurrences come after those that are
there.
-/

namespace SecondBrain

open Lib

namespace Connectors

variable {c : Clockwork} {p : Platform} {s s' : SchedulerState} {db db' : Store}
  {plan plan' : Plan} {claim : Claim} {o o' : Occurrence} {t : Tick} {i : Nat} {m : TickMove}

/-! ## Transactions -/

/-- What `_validated` makes sure of. -/
structure Validated (db : Store) (plan : Plan) (claim : Claim) (expected : OccurrenceState)
    (o : Occurrence) : Prop where
  found : plan.occurrence? claim.occurrenceId = some o
  state : o.state = expected
  held : claim.holds o = true
  schedule : ∃ row, plan.schedule? claim.scheduleId = some row ∧ row.revision = o.scheduleRowRevision
  account : ∃ row, db.account? o.accountId = some row ∧ row.revision = o.accountRevision

theorem validated_spec {expected : OccurrenceState} :
    Ensures (Connectors.validated db plan claim expected) (Validated db plan claim expected) := by
  unfold Connectors.validated
  split
  · next o schedule hfound hschedule =>
      refine .ite (fun h => .ite (fun hfence => ?_) fun _ => .error _) fun _ => .error _
      obtain ⟨-, hrevision, -, haccount⟩ := hfence
      refine Ensures.ok_iff.mpr ⟨hfound, h.1, h.2, ⟨schedule, hschedule, hrevision⟩, ?_⟩
      cases hrow : db.account? o.accountId with
      | none =>
          rw [hrow] at haccount
          cases haccount
      | some row =>
          rw [hrow, Option.any_some] at haccount
          simp only [Bool.and_eq_true, decide_eq_true_eq, beq_iff_eq] at haccount
          exact ⟨row, rfl, haccount.2⟩
  · exact .error _

/-- The occurrence with the run it is linked to. -/
def Occurrence.linkedTo (o : Occurrence) (runId : Uuid) : Occurrence :=
  { o with
    connectorSyncRunId := some runId
    state := .syncCreated
    revision := o.revision + 1 }

/-- What `create_and_link_sync` does. -/
inductive Links (p : Platform) (db : Store) (plan : Plan) (claim : Claim) (now : Instant)
    (id : Uuid) : Store → Plan → Prop
  | existing {o : Occurrence} {runId : Uuid} :
      Validated db plan claim .claimed o → o.connectorSyncRunId = some runId →
      Links p db plan claim now id db plan
  | created {o : Occurrence} {db' : Store} {run : ConnectorSyncRun} :
      Validated db plan claim .claimed o → o.connectorSyncRunId = none →
      claimWithTrigger p db o.accountId o.accountRevision .scheduled
        (triggerIdentity p o.occurrenceKey) now id = .ok (db', run) →
      Links p db plan claim now id db' (plan.putOccurrence (o.linkedTo run.id))

theorem createAndLinkSync_spec {now : Instant} {id : Uuid} :
    Ensures (createAndLinkSync p db plan claim now id) fun x =>
      Links p db plan claim now id x.1 x.2 := by
  unfold createAndLinkSync
  refine validated_spec.bind fun o ho => ?_
  split
  · next runId hlink =>
      refine .ite (fun _ => ?_) fun _ => .throw _
      exact Ensures.pure_iff.mpr (.existing ho hlink)
  · next hlink =>
      split
      · next db' run hclaim => exact Ensures.pure_iff.mpr (.created ho hlink hclaim)
      · exact .throw _

theorem validateNetworkFence_spec :
    Ensures (validateNetworkFence db plan claim) fun run => ∃ o,
      Validated db plan claim .syncCreated o ∧ o.connectorSyncRunId = some run.id ∧
        db.run? run.id = some run := by
  unfold validateNetworkFence
  refine validated_spec.bind fun o ho => ?_
  split
  · exact .throw _
  · next runId hlink =>
      split
      · next run hrun =>
          obtain rfl := (lookup_mem hrun).2
          exact Ensures.pure_iff.mpr ⟨o, ho, hlink, hrun⟩
      · exact .throw _

theorem finalize_spec {now : Instant} :
    Ensures (finalize db plan claim now) fun plan' => ∃ o run,
      Validated db plan claim .syncCreated o ∧ o.connectorSyncRunId = some run.id ∧
        db.run? run.id = some run ∧ run.status.isTerminal = true ∧
        plan' = plan.putOccurrence (o.finalized run now) := by
  unfold finalize
  refine validated_spec.bind fun o ho => ?_
  split
  · next run hrun =>
      refine .ite (fun hterminal => Ensures.pure_iff.mpr ?_) fun _ => .throw _
      obtain ⟨runId, hlink, hrun⟩ := Option.bind_eq_some_iff.mp hrun
      obtain rfl := (lookup_mem hrun).2
      exact ⟨o, run, ho, hlink, hrun, hterminal, rfl⟩
  · exact .throw _

/-! ## Refreshes -/

/-- What a step does to the refreshes is nothing or a step of theirs. -/
inductive SyncMoves (p : Platform) (s s' : SyncState) : Prop
  | same : s' = s → SyncMoves p s s'
  | step {l : SyncLabel} : Sync.step p s l = some s' → SyncMoves p s s'

theorem abandon_moves (s : SyncState) (pid : Option Nat) : SyncMoves p s (s.abandon pid) := by
  unfold SyncState.abandon
  split
  · next q r hr =>
      split
      · exact .same rfl
      · next hover =>
          obtain ⟨q', hq', hr⟩ := Option.bind_eq_some_iff.mp hr
          obtain ⟨r', hr', hpair⟩ := Option.map_eq_some_iff.mp hr
          cases hpair
          refine .step (l := .stop q) ?_
          rw [Sync.step, hr']
          exact if_neg hover
  · exact .same rfl

/-! ## Occurrences -/

/-- What a step does to an occurrence. -/
inductive RowMoves (p : Platform) (s : SchedulerState) (db' : Store) :
    SchedulerLabel → Occurrence → Occurrence → Prop
  | same {l : SchedulerLabel} {o : Occurrence} : RowMoves p s db' l o o
  | leased {i : Nat} {m : TickMove} {t : Tick} {o : Occurrence} :
      s.ticks[i]? = some t → o.isAbandoned = true ∨ o.isResumable = true →
      RowMoves p s db' (.move i m) o (o.leased t.owner t.now t.lease)
  | claimed {i : Nat} {m : TickMove} {t : Tick} {o : Occurrence} :
      s.ticks[i]? = some t → o.state = .due →
      RowMoves p s db' (.move i m) o (o.claimed s.db s.plan t.owner t.now t.lease)
  | linked {i : Nat} {t : Tick} {claim : Claim} {rest : List Claim} {now : Instant} {id : Uuid}
      {o : Occurrence} {run : ConnectorSyncRun} :
      s.ticks[i]? = some t → t.phase = .linking claim rest →
      Validated s.db s.plan claim .claimed o → o.connectorSyncRunId = none →
      claimWithTrigger p s.db o.accountId o.accountRevision .scheduled
        (triggerIdentity p o.occurrenceKey) now id = .ok (db', run) →
      RowMoves p s db' (.move i (.link now id)) o (o.linkedTo run.id)
  | finalized {i : Nat} {t : Tick} {claim : Claim} {rest : List Claim} {o : Occurrence}
      {run : ConnectorSyncRun} :
      s.ticks[i]? = some t → t.phase = .finalizing claim rest →
      Validated s.db s.plan claim .syncCreated o → o.connectorSyncRunId = some run.id →
      s.db.run? run.id = some run → run.status.isTerminal = true →
      RowMoves p s db' (.move i .finalize) o (o.finalized run t.now)

/-- An occurrence as it is made. -/
structure New (o : Occurrence) : Prop where
  unlinked : o.connectorSyncRunId = none
  unleased : o.leaseOwnerToken = none ∧ o.leaseExpiresAt = none ∧ o.lastRenewedAt = none
  state : o.state = .due ∧ o.completedAt = none ∨ o.state = .missed ∧ o.completedAt.isSome = true

/-- Rows that are added one after the other under the keys of the table. -/
inductive Extends (old : List Occurrence) : List Occurrence → Prop
  | none : Extends old []
  | snoc {new : List Occurrence} {o : Occurrence} :
      Extends old new → New o → (∀ o' ∈ old ++ new, o'.id ≠ o.id ∧ o'.slot ≠ o.slot) →
      Extends old (new ++ [o])

theorem Extends.new {old new : List Occurrence} (h : Extends old new) : ∀ o ∈ new, New o := by
  induction h with
  | none => exact fun _ ho => absurd ho List.not_mem_nil
  | snoc _ hnew _ ih =>
      intro o ho
      rcases List.mem_append.mp ho with ho | ho
      · exact ih o ho
      · exact List.mem_singleton.mp ho ▸ hnew

theorem Extends.keyed {κ : Type} [DecidableEq κ] {key : Occurrence → κ}
    {old new : List Occurrence} (h : Extends old new) (hold : Keyed key old)
    (hkey : ∀ o o' : Occurrence, o'.id ≠ o.id ∧ o'.slot ≠ o.slot → key o' ≠ key o) :
    Keyed key (old ++ new) := by
  induction h with
  | none =>
      rw [List.append_nil]
      exact hold
  | @snoc new o _ _ hfresh ih =>
      rw [← List.append_assoc]
      refine ih.append fun hmem => ?_
      obtain ⟨o', ho', hsame⟩ := List.mem_map.mp hmem
      exact hkey o o' (hfresh o' ho') hsame

/-- Rows are written anew, and new ones come after them. -/
def RowsMove (p : Platform) (s : SchedulerState) (db' : Store) (l : SchedulerLabel)
    (occurrences : List Occurrence) : Prop :=
  ∃ f new, occurrences = s.plan.occurrences.map f ++ new ∧
    (∀ o ∈ s.plan.occurrences, RowMoves p s db' l o (f o)) ∧ Extends s.plan.occurrences new

theorem RowsMove.same (p : Platform) (s : SchedulerState) (db' : Store) (l : SchedulerLabel) :
    RowsMove p s db' l s.plan.occurrences :=
  ⟨id, [], by rw [List.map_id, List.append_nil], fun _ _ => .same, .none⟩

/-- One row is written anew. -/
theorem RowsMove.put {l : SchedulerLabel} (hids : Keyed (·.id) s.plan.occurrences)
    (hfound : s.plan.occurrence? o.id = some o) (hid : o'.id = o.id) (hmove : RowMoves p s db' l o o') :
    RowsMove p s db' l (s.plan.putOccurrence o').occurrences := by
  refine ⟨fun x => if x.id = o'.id then o' else x, [], by rw [List.append_nil]; rfl,
    fun x hx => ?_, .none⟩
  by_cases hsame : x.id = o'.id
  · have hx : x = o := hids.inj hx (lookup_mem hfound).1 (hsame.trans hid)
    show RowMoves p s db' l x (if x.id = o'.id then o' else x)
    rw [if_pos hsame, hx]
    exact hmove
  · show RowMoves p s db' l x (if x.id = o'.id then o' else x)
    rw [if_neg hsame]
    exact .same

theorem mem_batch {α : Type} {id : α → Uuid} {time : α → Instant} {limit : Nat}
    {locked : List Uuid} {rows : List α} {r : α} (h : r ∈ batch id time limit locked rows) :
    r ∈ rows :=
  (List.mem_filter.mp ((List.mem_insertionSort _).mp (List.mem_of_mem_take h))).1

theorem RowsMove.mapRows {l : SchedulerLabel} {rows : List Occurrence}
    {f : Occurrence → Occurrence} (hids : Keyed (·.id) s.plan.occurrences)
    (hrows : ∀ o ∈ rows, o ∈ s.plan.occurrences ∧ RowMoves p s db' l o (f o)) :
    RowsMove p s db' l (s.plan.mapRows rows f).occurrences := by
  refine ⟨fun o => if o.id ∈ rows.map (·.id) then f o else o, [],
    by rw [List.append_nil]; rfl, fun o ho => ?_, .none⟩
  by_cases hmem : o.id ∈ rows.map (·.id)
  · obtain ⟨o', ho', hid⟩ := List.mem_map.mp hmem
    have hsame : o' = o := hids.inj (hrows o' ho').1 ho hid
    show RowMoves p s db' l o (if o.id ∈ rows.map (·.id) then f o else o)
    rw [if_pos hmem]
    exact hsame ▸ (hrows o' ho').2
  · show RowMoves p s db' l o (if o.id ∈ rows.map (·.id) then f o else o)
    rw [if_neg hmem]
    exact .same

/-! ## Materialization -/

/-- What a schedule is apart from its next occurrence. -/
def RefreshSchedule.standing (row : RefreshSchedule) : RefreshSchedule :=
  { row with nextOccurrenceAt := none }

/-- What materialization does to the tables. -/
structure Materialized (plan plan' : Plan) : Prop where
  schedules : plan'.schedules.map (·.standing) = plan.schedules.map (·.standing)
  occurrences : ∃ new, plan'.occurrences = plan.occurrences ++ new ∧ Extends plan.occurrences new

theorem dueOccurrence_new {row : RefreshSchedule} {account : ConnectorAccount} {slot now : Instant}
    {id : Uuid} : New (dueOccurrence c row account slot now id) := by
  refine ⟨rfl, ⟨rfl, rfl, rfl⟩, ?_⟩
  unfold dueOccurrence
  by_cases hskip : row.missedRunPolicy = .skip
  · simp [hskip]
  · simp [hskip]

theorem standing_keys {rows rows' : List RefreshSchedule}
    (h : rows'.map (·.standing) = rows.map (·.standing)) : rows'.map (·.id) = rows.map (·.id) := by
  have hids := congrArg (List.map (·.id)) h
  rw [List.map_map, List.map_map] at hids
  exact hids

theorem materialize_spec {plan₀ : Plan} {now : Instant} {row : RefreshSchedule} {id : Uuid}
    (hkeyed : Keyed (·.id) plan₀.schedules) (hrow : row ∈ plan₀.schedules)
    (hplan : Materialized plan₀ plan) :
    Ensures (materialize c db plan now row id) (Materialized plan₀) := by
  unfold materialize
  split
  · exact Ensures.ok_iff.mpr hplan
  · exact .error _
  · next account next haccount hnext =>
      refine .bind_any fun x _ => ?_
      refine .ite (fun _ => Ensures.pure_iff.mpr hplan) fun hclash => Ensures.pure_iff.mpr ⟨?_, ?_⟩
      · refine Eq.trans ?_ hplan.schedules
        show (replace (·.id) { row with nextOccurrenceAt := x.2 } plan.schedules).map (·.standing) = _
        rw [replace, List.map_map]
        refine List.map_congr_left fun r hr => ?_
        by_cases hid : r.id = row.id
        · -- the row that is replaced differs in its next occurrence at most
          have hstanding : r.standing ∈ plan₀.schedules.map (·.standing) :=
            hplan.schedules ▸ List.mem_map_of_mem hr
          obtain ⟨r', hr', hsame⟩ := List.mem_map.mp hstanding
          have hid' : r'.id = row.id :=
            (congrArg (·.id) hsame : r'.standing.id = r.standing.id).trans hid
          rw [hkeyed.inj hr' hrow hid'] at hsame
          rw [Function.comp_apply, if_pos hid]
          exact hsame
        · rw [Function.comp_apply, if_neg hid]
      · obtain ⟨new, hnew, hextends⟩ := hplan.occurrences
        refine ⟨new ++ [dueOccurrence c row account x.1 now id], ?_, hextends.snoc dueOccurrence_new ?_⟩
        · show plan.occurrences ++ _ = _
          rw [hnew, List.append_assoc]
        · intro o' ho'
          rw [← hnew] at ho'
          rw [Plan.clashes, List.any_eq_true, not_exists] at hclash
          have hnot := hclash o'
          simp only [ho', true_and, Bool.or_eq_true, beq_iff_eq, not_or] at hnot
          exact hnot.1

theorem materializeDue_spec {now : Instant} {limit : Nat} {locked : List Uuid} {ids : Nat → Uuid}
    (hkeyed : Keyed (·.id) plan.schedules) :
    Ensures (materializeDue c db plan now limit locked ids) (Materialized plan) := by
  unfold materializeDue
  have hrows : ∀ x ∈ (batch (·.id) (fun row : RefreshSchedule => row.nextOccurrenceAt.getD 0) limit
      locked (plan.dueSchedules now)).zipIdx, x.1 ∈ plan.schedules :=
    fun x hx => (List.mem_filter.mp (mem_batch (List.fst_mem_of_mem_zipIdx hx))).1
  have hstart : Materialized plan plan := ⟨rfl, [], (List.append_nil _).symm, .none⟩
  refine Ensures.foldlM_mem (fun plan' x hx hplan => ?_) hstart
  exact materialize_spec hkeyed (hrows x hx) hplan

end Connectors

end SecondBrain
