import SecondBrain.Connectors.Evidence
import SecondBrain.Connectors.SchedulerSteps

/-!
# Occurrences

An occurrence is linked and leased as its state says, and its run is one that was
claimed for it. Every scheduled run is linked to one occurrence, and a tick has
claims of occurrences that there are. Every step keeps all of this
(`Stepped.sound`).
-/

namespace SecondBrain

open Lib

namespace Connectors

variable {c : Clockwork} {p : Platform} {s s' : SchedulerState} {db db' : Store}
  {plan plan' : Plan} {claim : Claim} {o o' : Occurrence} {t : Tick} {i : Nat} {m : TickMove}
  {l : SchedulerLabel}

/-! ## The invariant -/

def OccurrenceState.isLinked : OccurrenceState → Bool
  | .syncCreated | .succeeded | .incomplete | .failed => true
  | .due | .claimed | .missed | .cancelled => false

def OccurrenceState.isLeased : OccurrenceState → Bool
  | .claimed | .syncCreated => true
  | .due | .succeeded | .incomplete | .failed | .missed | .cancelled => false

/-- An occurrence is linked and leased as its state says, and its run was claimed
for it. This includes the checks of the table. -/
structure Occurrence.Sound (db : Store) (o : Occurrence) : Prop where
  linked : o.connectorSyncRunId.isSome = o.state.isLinked
  run : ∀ runId ∈ o.connectorSyncRunId, ∃ run, db.run? runId = some run ∧
    run.triggerKind = .scheduled ∧ run.accountId = o.accountId ∧
    run.accountRevision = o.accountRevision
  owner : o.leaseOwnerToken.isSome = o.state.isLeased
  lease : o.leaseExpiresAt.isSome = o.state.isLeased
  renewed : o.lastRenewedAt.isSome = true → o.leaseOwnerToken.isSome = true
  completed : o.completedAt.isSome = o.state.isTerminal
  ended : o.state.isTerminal = true → ∀ runId ∈ o.connectorSyncRunId, ∃ run,
    db.run? runId = some run ∧ run.status.isTerminal = true

/-- The claims a tick has. -/
def TickPhase.claims : TickPhase → List Claim
  | .reclaimingExpired linked => linked
  | .materializing linked reclaimed | .claiming linked reclaimed => linked ++ reclaimed
  | .linking claim rest | .fencing claim rest | .refreshing claim _ rest
  | .finalizing claim rest => claim :: rest
  | .reclaimingLinked | .done | .stopped => []

/-- A claim of the tick is about an occurrence there is. -/
def Claim.IsOf (plan : Plan) (t : Tick) (claim : Claim) : Prop :=
  claim.ownerToken = t.owner ∧
    ∃ o ∈ plan.occurrences, o.id = claim.occurrenceId ∧ o.scheduleId = claim.scheduleId

structure SchedulerState.Sound (p : Platform) (s : SchedulerState) : Prop where
  sync : s.sync.Sound p
  ids : Keyed (·.id) s.plan.occurrences
  slots : Keyed Occurrence.slot s.plan.occurrences
  schedules : Keyed (·.id) s.plan.schedules
  rows : ∀ o ∈ s.plan.occurrences, o.Sound s.db
  links : ∀ o ∈ s.plan.occurrences, ∀ o' ∈ s.plan.occurrences, ∀ runId,
    o.connectorSyncRunId = some runId → o'.connectorSyncRunId = some runId → o = o'
  runs : ∀ run ∈ s.db.runs, run.triggerKind = .scheduled →
    ∃ o ∈ s.plan.occurrences, o.connectorSyncRunId = some run.id
  owners : Keyed (·.owner) s.ticks
  claims : ∀ t ∈ s.ticks, ∀ claim ∈ t.phase.claims, claim.IsOf s.plan t

/-! ## Rows -/

/-- What no step changes of an occurrence. -/
def Occurrence.origin (o : Occurrence) :
    Uuid × Uuid × Uuid × Nat × Nat × Nat × Instant × String :=
  (o.id, o.scheduleId, o.accountId, o.accountRevision, o.scheduleRowRevision, o.scheduleRevision,
    o.scheduledAt, o.occurrenceKey)

theorem RowMoves.origin (hmove : RowMoves p s db' l o o') : o'.origin = o.origin := by
  cases hmove with
  | same | leased | linked | finalized => rfl
  | claimed =>
      unfold Occurrence.claimed
      split
      · rfl
      · rfl

theorem RowMoves.id_eq (hmove : RowMoves p s db' l o o') : o'.id = o.id :=
  congrArg Prod.fst hmove.origin

theorem origin_slot (h : o'.origin = o.origin) : o'.slot = o.slot := by
  simp only [Occurrence.origin, Prod.mk.injEq] at h
  simp only [Occurrence.slot, h]

theorem RowsMove.keyed {κ : Type} [DecidableEq κ] {key : Occurrence → κ}
    {occurrences : List Occurrence} (hmove : RowsMove p s db' l occurrences)
    (hold : Keyed key s.plan.occurrences)
    (hkept : ∀ o o', RowMoves p s db' l o o' → key o' = key o)
    (hnew : ∀ o o' : Occurrence, o'.id ≠ o.id ∧ o'.slot ≠ o.slot → key o' ≠ key o) :
    Keyed key occurrences := by
  obtain ⟨f, new, rfl, hrows, hextends⟩ := hmove
  have hsame : (s.plan.occurrences.map f).map key = s.plan.occurrences.map key := by
    rw [List.map_map]
    exact List.map_congr_left fun o ho => hkept o _ (hrows o ho)
  have hkeyed := hextends.keyed hold hnew
  rw [Keyed, List.map_append] at hkeyed ⊢
  rw [hsame]
  exact hkeyed

/-- Where the row is now. -/
theorem RowsMove.exists_row {occurrences : List Occurrence} (hmove : RowsMove p s db' l occurrences)
    (ho : o ∈ s.plan.occurrences) : ∃ o' ∈ occurrences, RowMoves p s db' l o o' := by
  obtain ⟨f, new, rfl, hrows, -⟩ := hmove
  exact ⟨f o, List.mem_append_left _ (List.mem_map_of_mem ho), hrows o ho⟩

/-- Where a row comes from. -/
theorem RowsMove.of_row {occurrences : List Occurrence} (hmove : RowsMove p s db' l occurrences)
    (ho' : o' ∈ occurrences) : (∃ o ∈ s.plan.occurrences, RowMoves p s db' l o o') ∨ New o' := by
  obtain ⟨f, new, rfl, hrows, hextends⟩ := hmove
  rcases List.mem_append.mp ho' with ho' | ho'
  · obtain ⟨o, ho, rfl⟩ := List.mem_map.mp ho'
    exact .inl ⟨o, ho, hrows o ho⟩
  · exact .inr (hextends.new o' ho')

/-! ## Claims -/

theorem Claim.IsOf.moved {occurrences : List Occurrence} (h : claim.IsOf s.plan t)
    (hrows : RowsMove p s db' l occurrences) {schedules : List RefreshSchedule} :
    claim.IsOf { schedules := schedules, occurrences := occurrences } t := by
  obtain ⟨howner, o, ho, hid, hschedule⟩ := h
  obtain ⟨o', ho', hmove⟩ := hrows.exists_row ho
  have horigin := hmove.origin
  simp only [Occurrence.origin, Prod.mk.injEq] at horigin
  exact ⟨howner, o', ho', horigin.1.trans hid, horigin.2.1.trans hschedule⟩

theorem mem_workOf {claims : List Claim} (h : claim ∈ workOf claims) : claim ∈ claims := by
  unfold workOf at h
  have hloop : ∀ (rest work : List Claim), claim ∈ rest.foldl (fun work claim =>
      if claim.occurrenceId ∈ work.map (·.occurrenceId) then replace (·.occurrenceId) claim work
      else work ++ [claim]) work → claim ∈ work ∨ claim ∈ rest := by
    intro rest
    induction rest with
    | nil => exact fun work hwork => .inl hwork
    | cons first rest ih =>
        intro work hwork
        rw [List.foldl_cons] at hwork
        rcases ih _ hwork with hwork | hrest
        · by_cases hmem : first.occurrenceId ∈ work.map (·.occurrenceId)
          · rw [if_pos hmem] at hwork
            rcases mem_replace.mp hwork with ⟨rfl, -⟩ | ⟨hwork, -⟩
            · exact .inr List.mem_cons_self
            · exact .inl hwork
          · rw [if_neg hmem] at hwork
            rcases List.mem_append.mp hwork with hwork | hwork
            · exact .inl hwork
            · exact .inr (List.mem_singleton.mp hwork ▸ List.mem_cons_self)
        · exact .inr (List.mem_cons_of_mem _ hrest)
  rcases hloop claims [] h with hnone | hclaims
  · exact absurd hnone List.not_mem_nil
  · exact hclaims

theorem next_claims {rest : List Claim} : (TickPhase.next rest).claims = rest := by
  cases rest with
  | nil => rfl
  | cons claim rest => rfl

theorem claims_isOf {rows : List Occurrence} (hrows : ∀ o ∈ rows, o ∈ plan.occurrences) :
    ∀ claim ∈ rows.map (·.claim t.owner), claim.IsOf plan t := by
  intro claim hclaim
  obtain ⟨o, ho, rfl⟩ := List.mem_map.mp hclaim
  exact ⟨rfl, o, hrows o ho, rfl, rfl⟩

/-! ## What a step changes -/

/-- The ticks after one of them has gone on. -/
structure TicksMove (p : Platform) (s s' : SchedulerState) : Prop where
  owners : Keyed (·.owner) s'.ticks
  claims : ∀ t ∈ s'.ticks, ∀ claim ∈ t.phase.claims, claim.IsOf s'.plan t

theorem TicksMove.same (h : s.Sound p) (hrows : RowsMove p s db' l s'.plan.occurrences)
    (hticks : s'.ticks = s.ticks) : TicksMove p s s' := by
  refine ⟨hticks ▸ h.owners, fun t ht claim hclaim => ?_⟩
  exact (h.claims t (hticks ▸ ht) claim hclaim).moved hrows

theorem set_owners {ticks : List Tick} {phase : TickPhase} (ht : ticks[i]? = some t) :
    (ticks.set i { t with phase := phase }).map (·.owner) = ticks.map (·.owner) := by
  refine List.ext_getElem? fun j => ?_
  rw [List.getElem?_map, List.getElem?_map]
  by_cases hij : i = j
  · subst hij
    rw [List.getElem?_set_self (List.getElem?_eq_some_iff.mp ht).1, ht]
    rfl
  · rw [List.getElem?_set_ne hij]

theorem TicksMove.set {phase : TickPhase} (h : s.Sound p)
    (hrows : RowsMove p s db' l s'.plan.occurrences) (ht : s.ticks[i]? = some t)
    (hticks : s'.ticks = s.ticks.set i { t with phase := phase })
    (hclaims : ∀ claim ∈ phase.claims, claim.IsOf s.plan t) : TicksMove p s s' := by
  refine ⟨?_, fun t' ht' claim hclaim => ?_⟩
  · rw [Keyed, hticks, set_owners ht]
    exact h.owners
  · rw [hticks] at ht'
    rcases List.mem_or_eq_of_mem_set ht' with ht' | rfl
    · exact (h.claims t' ht' claim hclaim).moved hrows
    · exact (hclaims claim hclaim).moved hrows

/-- A run that is new is one an operator has claimed, or is linked in the step. -/
inductive RunsMove (p : Platform) (s : SchedulerState) (l : SchedulerLabel) (s' : SchedulerState) :
    Prop
  | from : RunsFrom s.db s'.db → RunsMove p s l s'
  | manual {run : ConnectorSyncRun} :
      s'.db.runs = s.db.runs ++ [run] → run.triggerKind = .manual → RunsMove p s l s'
  | linked {o : Occurrence} {run : ConnectorSyncRun} :
      s'.db.runs = s.db.runs ++ [run] → run.id ∉ s.db.runs.map (·.id) →
      run.triggerKind = .scheduled → run.accountId = o.accountId →
      run.accountRevision = o.accountRevision → o ∈ s.plan.occurrences →
      o.linkedTo run.id ∈ s'.plan.occurrences → RunsMove p s l s'

/-- A revision of a schedule stands for whether it is enabled, and when it is due. -/
structure ScheduleKept (row row' : RefreshSchedule) : Prop where
  revision : row.revision ≤ row'.revision
  settled : row'.revision = row.revision →
    (row'.lifecycle, row'.scheduleRevision) = (row.lifecycle, row.scheduleRevision)

/-- No schedule is taken back. -/
structure SchedulesKept (plan plan' : Plan) : Prop where
  keyed : Keyed (·.id) plan'.schedules
  kept : ∀ {id row}, plan.schedule? id = some row →
    ∃ row', plan'.schedule? id = some row' ∧ ScheduleKept row row'

theorem ScheduleKept.changed {row row' : RefreshSchedule} (h : row'.revision = row.revision + 1) :
    ScheduleKept row row' :=
  ⟨by omega, fun heq => absurd heq (by omega)⟩

theorem SchedulesKept.same (h : Keyed (·.id) plan.schedules)
    (hsame : plan'.schedules = plan.schedules) : SchedulesKept plan plan' := by
  refine ⟨hsame ▸ h, fun {id row} hrow => ⟨row, ?_, le_rfl, fun _ => rfl⟩⟩
  rw [Plan.schedule?, hsame]
  exact hrow

theorem SchedulesKept.put {row row' : RefreshSchedule} (h : Keyed (·.id) plan.schedules)
    (hrow : plan.schedule? row'.id = some row) (hkept : ScheduleKept row row') :
    SchedulesKept plan (plan.putSchedule row') := by
  refine ⟨h.replace, fun {id old} hold => ?_⟩
  by_cases hid : id = row'.id
  · subst hid
    rw [hrow, Option.some.injEq] at hold
    subst hold
    exact ⟨row', lookup_replace_self (List.mem_map.mpr ⟨row, lookup_mem hrow⟩), hkept⟩
  · refine ⟨old, ?_, le_rfl, fun _ => rfl⟩
    rw [Plan.schedule?, Plan.putSchedule, lookup_replace_ne hid]
    exact hold

theorem SchedulesKept.standing (h : Keyed (·.id) plan.schedules)
    (hsame : plan'.schedules.map (·.standing) = plan.schedules.map (·.standing)) :
    SchedulesKept plan plan' := by
  have hkeyed : Keyed (·.id) plan'.schedules := by
    rw [Keyed, standing_keys hsame]
    exact h
  refine ⟨hkeyed, fun {id row} hrow => ?_⟩
  obtain ⟨hmem, hid⟩ := lookup_mem hrow
  have hstanding : row.standing ∈ plan'.schedules.map (·.standing) :=
    hsame ▸ List.mem_map_of_mem hmem
  obtain ⟨row', hmem', hrow'⟩ := List.mem_map.mp hstanding
  have hid' : row'.id = row.id :=
    (congrArg (·.id) hrow' : row'.standing.id = row.standing.id)
  have hrevision : row'.revision = row.revision :=
    (congrArg (·.revision) hrow' : row'.standing.revision = row.standing.revision)
  have hsettled : (row'.lifecycle, row'.scheduleRevision) = (row.lifecycle, row.scheduleRevision) :=
    (congrArg (fun r => (r.lifecycle, r.scheduleRevision)) hrow' :
      (row'.standing.lifecycle, row'.standing.scheduleRevision) =
        (row.standing.lifecycle, row.standing.scheduleRevision))
  refine ⟨row', ?_, by omega, fun _ => hsettled⟩
  rw [← hid, ← hid']
  exact hkeyed.lookup hmem'

/-- What a step does. -/
structure Stepped (p : Platform) (s : SchedulerState) (l : SchedulerLabel) (s' : SchedulerState) :
    Prop where
  sync : SyncMoves p s.sync s'.sync
  rows : RowsMove p s s'.db l s'.plan.occurrences
  schedules : SchedulesKept s.plan s'.plan
  runs : RunsMove p s l s'
  ticks : TicksMove p s s'

theorem Stepped.quiet {phase : TickPhase} (h : s.Sound p) (ht : s.ticks[i]? = some t)
    (hclaims : ∀ claim ∈ phase.claims, claim.IsOf s.plan t) :
    Stepped p s l (s.setTick i t phase) :=
  ⟨.same rfl, .same p s s.db l, .same h.schedules rfl, .from (.of_eq rfl),
    .set h (.same p s s.db l) ht rfl hclaims⟩

theorem Stepped.planned {phase : TickPhase} (h : s.Sound p) (ht : s.ticks[i]? = some t)
    (hrows : RowsMove p s s.db l plan.occurrences) (hschedules : SchedulesKept s.plan plan)
    (hclaims : ∀ claim ∈ phase.claims, claim.IsOf s.plan t) :
    Stepped p s l (SchedulerState.setTick { s with plan := plan } i t phase) :=
  ⟨.same rfl, hrows, hschedules, .from (.of_eq rfl), .set h hrows ht rfl hclaims⟩

theorem reclaim_rows (m : TickMove) (ready : Occurrence → Bool) (limit : Nat) (locked : List Uuid)
    (h : s.Sound p) (ht : s.ticks[i]? = some t)
    (hready : ∀ o, ready o = true → o.isAbandoned = true ∨ o.isResumable = true) :
    RowsMove p s s.db (.move i m)
        (reclaim s.plan ready t.now t.owner t.lease limit locked).1.occurrences ∧
      ∀ claim ∈ (reclaim s.plan ready t.now t.owner t.lease limit locked).2,
        claim.IsOf s.plan t := by
  unfold reclaim
  have hmem : ∀ o ∈ batch (·.id) (fun o : Occurrence => o.leaseExpiresAt.getD 0) limit locked
      (s.plan.occurrences.filter fun o => ready o &&
        o.leaseExpiresAt.any fun x => decide (x ≤ t.now)),
      o ∈ s.plan.occurrences ∧ ready o = true := by
    intro o ho
    have ho := List.mem_filter.mp (mem_batch ho)
    exact ⟨ho.1, (Bool.and_eq_true _ _ ▸ ho.2).1⟩
  refine ⟨.mapRows h.ids fun o ho => ⟨(hmem o ho).1, ?_⟩, claims_isOf fun o ho => (hmem o ho).1⟩
  exact .leased ht (hready o (hmem o ho).2)

theorem claimDue_rows (m : TickMove) (limit : Nat) (locked : List Uuid) (h : s.Sound p)
    (ht : s.ticks[i]? = some t) :
    RowsMove p s s.db (.move i m)
        (claimDue s.db s.plan t.now t.owner t.lease limit locked).1.occurrences ∧
      ∀ claim ∈ (claimDue s.db s.plan t.now t.owner t.lease limit locked).2,
        claim.IsOf s.plan t := by
  unfold claimDue
  have hmem : ∀ o ∈ batch (·.id) (·.scheduledAt) limit locked
      (s.plan.occurrences.filter fun o => decide (o.state = .due) &&
        decide (o.scheduledAt ≤ t.now)), o ∈ s.plan.occurrences ∧ o.state = .due := by
    intro o ho
    have ho := List.mem_filter.mp (mem_batch ho)
    exact ⟨ho.1, of_decide_eq_true (Bool.and_eq_true _ _ ▸ ho.2).1⟩
  refine ⟨.mapRows h.ids fun o ho => ⟨(hmem o ho).1, .claimed ht (hmem o ho).2⟩, ?_⟩
  exact claims_isOf fun o ho => (hmem o (List.mem_filter.mp ho).1).1

theorem gather_stepped (h : s.Sound p) (ht : s.ticks[i]? = some t)
    (hstep : gather c s i t m = some s') : Stepped p s (.move i m) s' := by
  have hclaims := h.claims t (List.mem_of_getElem? ht)
  cases m with
  | reclaimLinked locked =>
      rw [gather] at hstep
      split at hstep
      · cases hstep
        have hreclaim := reclaim_rows (.reclaimLinked locked) Occurrence.isResumable t.limit locked
          h ht fun _ => .inr
        exact .planned h ht hreclaim.1 (.same h.schedules rfl) hreclaim.2
      · cases hstep
  | reclaimExpired locked =>
      rw [gather] at hstep
      split at hstep
      · next linked hphase =>
          cases hstep
          rw [hphase] at hclaims
          have hreclaim := reclaim_rows (.reclaimExpired locked) Occurrence.isAbandoned t.limit
            locked h ht fun _ => .inl
          refine .planned h ht hreclaim.1 (.same h.schedules rfl) fun claim hclaim => ?_
          rcases List.mem_append.mp hclaim with hclaim | hclaim
          · exact hclaims claim hclaim
          · exact hreclaim.2 claim hclaim
      · cases hstep
  | materialize locked ids =>
      rw [gather] at hstep
      split at hstep
      · next linked reclaimed hphase =>
          rw [hphase] at hclaims
          split at hstep
          · next plan hplan =>
              cases hstep
              have hspec := materializeDue_spec h.schedules _ hplan
              obtain ⟨new, hnew, hextends⟩ := hspec.occurrences
              refine .planned h ht ⟨id, new, ?_, fun _ _ => .same, hextends⟩ ?_ hclaims
              · rw [List.map_id]
                exact hnew
              · exact .standing h.schedules hspec.schedules
          · cases hstep
            exact .quiet h ht fun _ hclaim => absurd hclaim List.not_mem_nil
      · cases hstep
  | claimDue locked =>
      rw [gather] at hstep
      split at hstep
      · next linked reclaimed hphase =>
          cases hstep
          rw [hphase] at hclaims
          have hclaim := claimDue_rows (.claimDue locked) t.limit locked h ht
          refine .planned h ht hclaim.1 (.same h.schedules rfl) fun claim hmem => ?_
          rw [next_claims] at hmem
          rcases List.mem_append.mp (mem_workOf hmem) with hmem | hmem
          · exact hclaims claim hmem
          · exact hclaim.2 claim hmem
      · cases hstep
  | link | fence | await | finalize => cases hstep

/-- The run is claimed and linked in one transaction. -/
theorem link_stepped {rest : List Claim} {now : Instant} {id : Uuid} (h : s.Sound p)
    (ht : s.ticks[i]? = some t) (hphase : t.phase = .linking claim rest)
    (hclaims : ∀ other ∈ claim :: rest, other.IsOf s.plan t)
    (hlinks : Links p s.db s.plan claim now id db plan) :
    Stepped p s (.move i (.link now id))
      (SchedulerState.setTick { s with sync := { s.sync with db := db }, plan := plan } i t
        (.fencing claim rest)) := by
  cases hlinks with
  | existing hvalid hlinked => exact .quiet h ht hclaims
  | @created o db run hvalid hnone hclaim =>
      obtain ⟨account, haccount, hrevision, hrun, hclaimed, hdb⟩ := claimWithTrigger_spec _ hclaim
      have hrun : run = claimedRun account .scheduled _ now id := hrun
      have hdb : db = { s.db with runs := s.db.runs ++ [run] } := hdb
      have hmem := (lookup_mem hvalid.found).1
      have hrows : RowsMove p s db (.move i (.link now id))
          (s.plan.putOccurrence (o.linkedTo run.id)).occurrences :=
        .put h.ids (h.ids.lookup hmem) rfl (.linked ht hphase hvalid hnone hclaim)
      refine ⟨.step (l := .claim o.accountId o.accountRevision .scheduled
        (triggerIdentity p o.occurrenceKey) now id) ?_, hrows, .same h.schedules rfl, ?_,
        .set h hrows ht rfl hclaims⟩
      · have hclaim : claimWithTrigger p s.sync.db o.accountId o.accountRevision .scheduled
          (triggerIdentity p o.occurrenceKey) now id = .ok (db, run) := hclaim
        rw [Sync.step, hclaim]
        rfl
      · refine .linked (o := o) (congrArg Store.runs hdb) hclaimed.fresh ?_ ?_ ?_ hmem ?_
        · rw [hrun]
          rfl
        · rw [hrun]
          exact haccount
        · rw [hrun]
          exact hrevision
        · exact mem_replace.mpr (.inl ⟨rfl, List.mem_map.mpr ⟨o, hmem, rfl⟩⟩)

theorem work_stepped (h : s.Sound p) (ht : s.ticks[i]? = some t)
    (hstep : work p s i t m = some s') : Stepped p s (.move i m) s' := by
  have hclaims := h.claims t (List.mem_of_getElem? ht)
  cases m with
  | link now id =>
      rw [work] at hstep
      split at hstep
      · next claim rest hphase =>
          rw [hphase] at hclaims
          have hrest : ∀ other ∈ (TickPhase.next rest).claims, other.IsOf s.plan t := by
            rw [next_claims]
            exact fun other hother => hclaims other (List.mem_cons_of_mem _ hother)
          split at hstep
          · cases hstep
            exact .quiet h ht hrest
          · split at hstep
            · split at hstep
              · next db plan hlink =>
                  cases hstep
                  exact link_stepped h ht hphase hclaims (createAndLinkSync_spec _ hlink)
              · cases hstep
                exact .quiet h ht hrest
            · cases hstep
              exact .quiet h ht hclaims
      · cases hstep
  | fence =>
      rw [work] at hstep
      split at hstep
      · next claim rest hphase =>
          rw [hphase] at hclaims
          split at hstep
          · next run hfence =>
              split at hstep
              · cases hstep
                exact .quiet h ht hclaims
              · cases hstep
                obtain ⟨o, hvalid, hlinked, hrun⟩ := validateNetworkFence_spec _ hfence
                have hsound := h.rows o (lookup_mem hvalid.found).1
                obtain ⟨linked, hfound, hkind, -⟩ := hsound.run run.id hlinked
                have hsame : linked = run := Option.some.inj (hfound.symm.trans hrun)
                have hrows : RowsMove p s s.db (.move i .fence) s.plan.occurrences := .same p s _ _
                refine ⟨.step (l := .resume run.id) ?_, hrows, .same h.schedules rfl, .from (.of_eq rfl),
                  .set h hrows ht rfl hclaims⟩
                rw [Sync.step]
                have hrun : s.sync.db.run? run.id = some run := hrun
                rw [hrun]
                exact if_pos (hsame ▸ hkind)
          · cases hstep
            refine .quiet h ht ?_
            rw [next_claims]
            exact fun other hother => hclaims other (List.mem_cons_of_mem _ hother)
      · cases hstep
  | await =>
      rw [work] at hstep
      split at hstep
      · next claim pid rest hphase =>
          rw [hphase] at hclaims
          split at hstep
          · split at hstep
            · cases hstep
              exact .quiet h ht hclaims
            · split at hstep
              · cases hstep
                refine .quiet h ht ?_
                rw [next_claims]
                exact fun other hother => hclaims other (List.mem_cons_of_mem _ hother)
              · cases hstep
          · cases hstep
      · cases hstep
  | finalize =>
      rw [work] at hstep
      split at hstep
      · next claim rest hphase =>
          rw [hphase] at hclaims
          have hrest : ∀ other ∈ (TickPhase.next rest).claims, other.IsOf s.plan t := by
            rw [next_claims]
            exact fun other hother => hclaims other (List.mem_cons_of_mem _ hother)
          split at hstep
          · next plan hdone =>
              cases hstep
              obtain ⟨o, run, hvalid, hlinked, hrun, hterminal, rfl⟩ := finalize_spec _ hdone
              have hrows : RowsMove p s s.db (.move i .finalize)
                  (s.plan.putOccurrence (o.finalized run t.now)).occurrences :=
                .put h.ids (h.ids.lookup (lookup_mem hvalid.found).1) rfl
                  (.finalized ht hphase hvalid hlinked hrun hterminal)
              exact .planned h ht hrows (.same h.schedules rfl) hrest
          · cases hstep
            exact .quiet h ht hrest
      · cases hstep
  | reclaimLinked | reclaimExpired | materialize | claimDue => cases hstep

theorem lockSchedule_spec {id : Uuid} {expectedRevision : Nat} :
    Ensures (lockSchedule plan id expectedRevision) fun row => plan.schedule? id = some row := by
  unfold lockSchedule
  split
  · exact .error _
  · next row hrow => exact .ite (fun _ => Ensures.ok_iff.mpr hrow) fun _ => .error _

theorem applyScheduleEdit_kept {edit : ScheduleEdit} (h : Keyed (·.id) plan.schedules) :
    Ensures (applyScheduleEdit c db plan edit) fun plan' =>
      SchedulesKept plan plan' ∧ plan'.occurrences = plan.occurrences := by
  cases edit with
  | create accountId request id now =>
      rw [applyScheduleEdit, createSchedule]
      refine .bind_any fun _ hfree => .bind_any fun _ _ => Ensures.pure_iff.mpr ⟨⟨h.append ?_, ?_⟩, rfl⟩
      · unfold checkUnscheduled at hfree
        split at hfree
        · cases hfree
        · split at hfree
          · cases hfree
          · next hnone =>
              intro hmem
              obtain ⟨row, hrow, hid⟩ := List.mem_map.mp hmem
              exact hnone (List.any_eq_true.mpr ⟨row, hrow, by simp [hid]⟩)
      · exact fun {id row} hrow => ⟨row, lookup_append_of_some hrow _, le_rfl, fun _ => rfl⟩
  | update id request now =>
      rw [applyScheduleEdit, updateSchedule]
      refine lockSchedule_spec.bind fun row hrow => .bind_any fun _ _ => .bind_any fun slot _ => ?_
      obtain rfl := (lookup_mem hrow).2
      exact Ensures.pure_iff.mpr ⟨.put h hrow (.changed rfl), rfl⟩
  | transition id expectedRevision action now =>
      rw [applyScheduleEdit, transitionSchedule]
      refine lockSchedule_spec.bind fun row hrow => .bind_any fun target _ => .bind_any fun slot _ => ?_
      obtain rfl := (lookup_mem hrow).2
      exact Ensures.pure_iff.mpr ⟨.put h hrow (.changed rfl), rfl⟩

theorem step_stepped (h : s.Sound p) (hstep : Scheduler.step c p s l = some s') :
    Stepped p s l s' := by
  cases l with
  | sync l =>
      rw [Scheduler.step] at hstep
      split at hstep
      · cases hstep
      · next hown =>
          split at hstep
          · next sync hsync =>
              cases hstep
              have hrows : RowsMove p s sync.db (.sync l) s.plan.occurrences := .same p s _ _
              refine ⟨.step hsync, hrows, .same h.schedules rfl, ?_, .same h hrows rfl⟩
              rcases (step_moves hsync).runs_from h.sync.tables with hfrom | hclaim
              · exact .from hfrom
              · obtain ⟨account, kind, identity, now, id, rfl, hruns⟩ := hclaim
                have hkind : (kind == TriggerKind.scheduled) ≠ true := (not_or.mp hown).1
                refine .manual hruns ?_
                show kind = .manual
                cases kind with
                | manual => rfl
                | scheduled => exact absurd rfl hkind
          · cases hstep
  | plan edit =>
      rw [Scheduler.step] at hstep
      split at hstep
      · next plan hplan =>
          cases hstep
          obtain ⟨hschedules, hsame⟩ := applyScheduleEdit_kept h.schedules _ hplan
          have hrows : RowsMove p s s.db (.plan edit) plan.occurrences := hsame ▸ .same p s _ _
          exact ⟨.same rfl, hrows, hschedules, .from (.of_eq rfl), .same h hrows rfl⟩
      · cases hstep
  | tick owner now lease limit =>
      rw [Scheduler.step] at hstep
      split at hstep
      · next hfree =>
          cases hstep
          have hrows : RowsMove p s s.db (.tick owner now lease limit) s.plan.occurrences :=
            .same p s _ _
          refine ⟨.same rfl, hrows, .same h.schedules rfl, .from (.of_eq rfl), h.owners.append ?_, ?_⟩
          · intro hmem
            obtain ⟨t, ht, howner⟩ := List.mem_map.mp hmem
            exact hfree.2 (List.any_eq_true.mpr ⟨t, ht, by simpa using howner⟩)
          · intro t ht claim hclaim
            rcases List.mem_append.mp ht with ht | ht
            · exact h.claims t ht claim hclaim
            · rw [List.mem_singleton.mp ht] at hclaim
              exact absurd hclaim List.not_mem_nil
      · cases hstep
  | move i m =>
      rw [Scheduler.step] at hstep
      split at hstep
      · next t ht =>
          rcases Option.or_eq_some_iff.mp hstep with hgather | ⟨-, hwork⟩
          · exact gather_stepped h ht hgather
          · exact work_stepped h ht hwork
      · cases hstep
  | crash i =>
      rw [Scheduler.step] at hstep
      split at hstep
      · next t ht =>
          split at hstep
          · cases hstep
          · cases hstep
            have hrows : RowsMove p s (s.sync.abandon t.refresh?).db (.crash i) s.plan.occurrences :=
              .same p s _ _
            have hruns : (s.sync.abandon t.refresh?).db.runs = s.db.runs := by
              unfold SyncState.abandon
              split
              · split
                · rfl
                · rfl
              · rfl
            exact ⟨abandon_moves _ _, hrows, .same h.schedules rfl, .from (.of_eq hruns),
              .set h hrows ht rfl fun _ hclaim => absurd hclaim List.not_mem_nil⟩
      · cases hstep

/-! ## Every step keeps the invariant -/

theorem New.sound (hnew : New o) : o.Sound db := by
  obtain ⟨howner, hlease, hrenewed⟩ := hnew.unleased
  rcases hnew.state with ⟨hstate, hcompleted⟩ | ⟨hstate, hcompleted⟩
  · constructor <;> simp [hstate, hnew.unlinked, howner, hlease, hrenewed, hcompleted,
      OccurrenceState.isLinked, OccurrenceState.isLeased, OccurrenceState.isTerminal]
  · constructor <;> simp [hstate, hnew.unlinked, howner, hlease, hrenewed, hcompleted,
      OccurrenceState.isLinked, OccurrenceState.isLeased, OccurrenceState.isTerminal]

/-- The run of an occurrence is still the run it was claimed as. -/
theorem Occurrence.Sound.run_kept (h : o.Sound db) (hkeeps : Keeps db db') :
    ∀ runId ∈ o.connectorSyncRunId, ∃ run, db'.run? runId = some run ∧
      run.triggerKind = .scheduled ∧ run.accountId = o.accountId ∧
      run.accountRevision = o.accountRevision := by
  intro runId hlink
  obtain ⟨run, hrun, hkind, haccount, hrevision⟩ := h.run runId hlink
  obtain ⟨run', hrun', hkept⟩ := hkeeps.runs hrun
  have hkind' : run'.triggerKind = run.triggerKind :=
    (congrArg (·.triggerKind) hkept.claimed : run'.asClaimed.triggerKind = run.asClaimed.triggerKind)
  exact ⟨run', hrun', hkind'.trans hkind, hkept.accountId_eq.trans haccount,
    hkept.accountRevision_eq.trans hrevision⟩

theorem Occurrence.Sound.ended_kept (h : o.Sound db) (hkeeps : Keeps db db') :
    o.state.isTerminal = true → ∀ runId ∈ o.connectorSyncRunId, ∃ run,
      db'.run? runId = some run ∧ run.status.isTerminal = true := by
  intro hstate runId hlink
  obtain ⟨run, hrun, hterminal⟩ := h.ended hstate runId hlink
  obtain ⟨run', hrun', hkept⟩ := hkeeps.runs hrun
  exact ⟨run', hrun', hkept.terminal hterminal⟩

theorem Occurrence.Sound.leased (h : o.Sound db) (hkeeps : Keeps db db')
    (hready : o.isAbandoned = true ∨ o.isResumable = true) (owner : Uuid) (now : Instant)
    (lease : Duration) : (o.leased owner now lease).Sound db' := by
  have hstate : o.state = .claimed ∨ o.state = .syncCreated := by
    unfold Occurrence.isAbandoned Occurrence.isResumable at hready
    simp only [Bool.and_eq_true, decide_eq_true_eq] at hready
    exact hready.imp And.left And.left
  have hleased : o.state.isLeased = true := by
    rcases hstate with hstate | hstate <;> rw [hstate] <;> rfl
  exact ⟨h.linked, h.run_kept hkeeps, hleased.symm, hleased.symm, fun _ => rfl, h.completed,
    h.ended_kept hkeeps⟩

theorem Occurrence.Sound.claimed (h : o.Sound db) (hkeeps : Keeps db db') (hdue : o.state = .due)
    (owner : Uuid) (now : Instant) (lease : Duration) {store : Store} :
    (o.claimed store plan owner now lease).Sound db' := by
  have hlinked := h.linked
  have howner := h.owner
  have hlease := h.lease
  have hcompleted := h.completed
  rw [hdue] at hlinked howner hlease hcompleted
  unfold Occurrence.claimed
  split
  · exact ⟨hlinked, h.run_kept hkeeps, rfl, rfl, fun _ => rfl, hcompleted, nofun⟩
  · refine ⟨hlinked, h.run_kept hkeeps, howner, hlease, h.renewed, rfl, fun _ runId hlink => ?_⟩
    have hlink : o.connectorSyncRunId = some runId := hlink
    rw [hlink] at hlinked
    cases hlinked

theorem RowMoves.sound (hmove : RowMoves p s db' l o o') (h : o.Sound s.db)
    (hkeeps : Keeps s.db db') : o'.Sound db' := by
  cases hmove with
  | same =>
      exact ⟨h.linked, h.run_kept hkeeps, h.owner, h.lease, h.renewed, h.completed,
        h.ended_kept hkeeps⟩
  | leased ht hready => exact h.leased hkeeps hready _ _ _
  | claimed ht hdue => exact h.claimed hkeeps hdue _ _ _
  | @linked i t claim rest now id o run ht hphase hvalid hnone hclaim =>
      obtain ⟨account, haccount, hrevision, hrun, hclaimed, hdb⟩ := claimWithTrigger_spec _ hclaim
      have hrun : run = claimedRun account .scheduled _ now id := hrun
      have hdb : db' = { s.db with runs := s.db.runs ++ [run] } := hdb
      have howner := h.owner
      have hlease := h.lease
      have hcompleted := h.completed
      rw [hvalid.state] at howner hlease hcompleted
      refine ⟨rfl, fun runId hlink => ?_, howner, hlease, h.renewed, hcompleted, nofun⟩
      have hlink : some run.id = some runId := hlink
      cases hlink
      refine ⟨run, ?_, ?_, ?_, ?_⟩
      · rw [hdb]
        exact lookup_append_self hclaimed.fresh
      · rw [hrun]
        rfl
      · rw [hrun]
        exact haccount
      · rw [hrun]
        exact hrevision
  | @finalized i t claim rest o run ht hphase hvalid hlinked hrun hterminal =>
      have hlink := h.linked
      rw [hvalid.state] at hlink
      have hstate : run.status.outcome = .succeeded ∨ run.status.outcome = .incomplete ∨
          run.status.outcome = .failed := by
        cases run.status <;> simp [SyncStatus.outcome]
      refine ⟨hlink.trans ?_, h.run_kept hkeeps, ?_, ?_, nofun, ?_, fun _ runId hlink' => ?_⟩
      · show true = run.status.outcome.isLinked
        rcases hstate with hstate | hstate | hstate <;> rw [hstate] <;> rfl
      · show false = run.status.outcome.isLeased
        rcases hstate with hstate | hstate | hstate <;> rw [hstate] <;> rfl
      · show false = run.status.outcome.isLeased
        rcases hstate with hstate | hstate | hstate <;> rw [hstate] <;> rfl
      · show true = run.status.outcome.isTerminal
        rcases hstate with hstate | hstate | hstate <;> rw [hstate] <;> rfl
      · have hsame : run.id = runId := Option.some.inj (hlinked.symm.trans hlink')
        obtain ⟨run', hrun', hkept⟩ := hkeeps.runs hrun
        exact ⟨run', hsame ▸ hrun', hkept.terminal hterminal⟩

/-- A link stays. -/
theorem RowMoves.link_kept (hmove : RowMoves p s db' l o o') {runId : Uuid}
    (hlink : o.connectorSyncRunId = some runId) : o'.connectorSyncRunId = some runId := by
  cases hmove with
  | same | leased | finalized => exact hlink
  | claimed =>
      unfold Occurrence.claimed
      split
      · exact hlink
      · exact hlink
  | linked ht hphase hvalid hnone => exact absurd (hnone.symm.trans hlink) nofun

/-- What has to be the case for an occurrence to be linked in a step. -/
structure LinkedIn (p : Platform) (s : SchedulerState) (db' : Store) (l : SchedulerLabel)
    (o : Occurrence) (runId : Uuid) : Prop where
  label : ∃ i now t claim rest, l = .move i (.link now runId) ∧ s.ticks[i]? = some t ∧
    t.phase = .linking claim rest ∧ Validated s.db s.plan claim .claimed o
  fresh : runId ∉ s.db.runs.map (·.id)

theorem RowMoves.link_from (hmove : RowMoves p s db' l o o') {runId : Uuid}
    (hlink : o'.connectorSyncRunId = some runId) :
    o.connectorSyncRunId = some runId ∨ LinkedIn p s db' l o runId := by
  cases hmove with
  | same | leased | finalized => exact .inl hlink
  | claimed =>
      refine .inl ?_
      unfold Occurrence.claimed at hlink
      split at hlink
      · exact hlink
      · exact hlink
  | @linked i t claim rest now id o run ht hphase hvalid hnone hclaim =>
      obtain ⟨account, -, -, hrun, hclaimed, -⟩ := claimWithTrigger_spec _ hclaim
      have hrun : run = claimedRun account .scheduled _ now id := hrun
      have hid : run.id = id := hrun ▸ rfl
      have hlink : some run.id = some runId := hlink
      cases hlink
      refine .inr ⟨⟨i, now, t, claim, rest, ?_, ht, hphase, hvalid⟩, hclaimed.fresh⟩
      rw [hid]

/-- One step links one occurrence. -/
theorem LinkedIn.unique {runId runId' : Uuid} (h : LinkedIn p s db' l o runId)
    (h' : LinkedIn p s db' l o' runId') : o = o' := by
  obtain ⟨⟨i, now, t, claim, rest, rfl, ht, hphase, hvalid⟩, -⟩ := h
  obtain ⟨⟨i', now', t', claim', rest', heq, ht', hphase', hvalid'⟩, -⟩ := h'
  cases heq
  cases ht.symm.trans ht'
  cases hphase.symm.trans hphase'
  exact Option.some.inj (hvalid.found.symm.trans hvalid'.found)

theorem SyncMoves.sound {a b : SyncState} (hmoves : SyncMoves p a b) (h : a.Sound p) :
    b.Sound p ∧ Keeps a.db b.db := by
  cases hmoves with
  | same heq =>
      subst heq
      exact ⟨h, .refl _⟩
  | step hstep =>
      have hmove := step_moves hstep
      exact ⟨hmove.sound h, (hmove.tables h.tables).1⟩

theorem Stepped.sound (hstepped : Stepped p s l s') (h : s.Sound p) : s'.Sound p := by
  obtain ⟨hsync, hkeeps⟩ := hstepped.sync.sound h.sync
  have hids : Keyed (·.id) s'.plan.occurrences :=
    hstepped.rows.keyed h.ids (fun _ _ hmove => hmove.id_eq) fun _ _ hfresh => hfresh.1
  refine ⟨hsync, hids, ?_, hstepped.schedules.keyed, fun o' ho' => ?_, fun o₁ ho₁ o₂ ho₂ runId h₁ h₂ => ?_,
    fun run hrun hkind => ?_, hstepped.ticks.owners, hstepped.ticks.claims⟩
  · exact hstepped.rows.keyed h.slots (fun _ _ hmove => origin_slot hmove.origin)
      fun _ _ hfresh => hfresh.2
  · rcases hstepped.rows.of_row ho' with ⟨o, ho, hmove⟩ | hnew
    · exact hmove.sound (h.rows o ho) hkeeps
    · exact hnew.sound
  · have hnone : ∀ o : Occurrence, New o → o.connectorSyncRunId = some runId → False :=
      fun o hnew hlink => nomatch hnew.unlinked.symm.trans hlink
    rcases hstepped.rows.of_row ho₁ with ⟨a, ha, hmove₁⟩ | hnew
    · rcases hstepped.rows.of_row ho₂ with ⟨b, hb, hmove₂⟩ | hnew
      · have hsame : a = b := by
          have hknown : ∀ o ∈ s.plan.occurrences, o.connectorSyncRunId = some runId →
              runId ∈ s.db.runs.map (·.id) := by
            intro o ho hlink
            obtain ⟨run, hrun, -⟩ := (h.rows o ho).run runId hlink
            exact List.mem_map.mpr ⟨run, lookup_mem hrun⟩
          rcases hmove₁.link_from h₁ with hold₁ | hnew₁
          · rcases hmove₂.link_from h₂ with hold₂ | hnew₂
            · exact h.links a ha b hb runId hold₁ hold₂
            · exact absurd (hknown a ha hold₁) hnew₂.fresh
          · rcases hmove₂.link_from h₂ with hold₂ | hnew₂
            · exact absurd (hknown b hb hold₂) hnew₁.fresh
            · exact hnew₁.unique hnew₂
        refine hids.inj ho₁ ho₂ ?_
        rw [hmove₁.id_eq, hmove₂.id_eq, hsame]
      · exact absurd h₂ (hnone o₂ hnew)
    · exact absurd h₁ (hnone o₁ hnew)
  · have hkept : ∀ run ∈ s.db.runs, run.triggerKind = .scheduled →
        ∃ o ∈ s'.plan.occurrences, o.connectorSyncRunId = some run.id := by
      intro run hrun hkind
      obtain ⟨o, ho, hlink⟩ := h.runs run hrun hkind
      obtain ⟨o', ho', hmove⟩ := hstepped.rows.exists_row ho
      exact ⟨o', ho', hmove.link_kept hlink⟩
    cases hstepped.runs with
    | «from» hfrom =>
        obtain ⟨old, hold, hsame⟩ := hfrom run hrun
        have hid : run.id = old.id :=
          (congrArg (·.id) hsame : run.asClaimed.id = old.asClaimed.id)
        have hkind' : run.triggerKind = old.triggerKind :=
          (congrArg (·.triggerKind) hsame : run.asClaimed.triggerKind = old.asClaimed.triggerKind)
        exact hid ▸ hkept old hold (hkind' ▸ hkind)
    | manual hruns hmanual =>
        rw [hruns] at hrun
        rcases List.mem_append.mp hrun with hrun | hrun
        · exact hkept run hrun hkind
        · rw [List.mem_singleton.mp hrun, hmanual] at hkind
          cases hkind
    | linked hruns _ _ _ _ ho hlinked =>
        rw [hruns] at hrun
        rcases List.mem_append.mp hrun with hrun | hrun
        · exact hkept run hrun hkind
        · exact ⟨_, hlinked, congrArg some (congrArg _ (List.mem_singleton.mp hrun).symm)⟩

theorem scheduler_sound {ok : SchedulerState → SchedulerLabel → Prop}
    (h : (Scheduler.machine c p).Reach ok s) : s.Sound p := by
  refine h.invariant (I := fun s => s.Sound p) (fun s hs => ?_)
    fun s l s' _ _ hs hstep => (step_stepped hs hstep).sound hs
  have hs : s = {} := hs
  subst hs
  have hnone : ∀ {α : Type} {P : α → Prop}, ∀ a ∈ ([] : List α), P a :=
    fun _ ha => absurd ha List.not_mem_nil
  exact ⟨⟨empty_tables, hnone⟩, List.nodup_nil, List.nodup_nil, List.nodup_nil, hnone, hnone, hnone,
    List.nodup_nil, hnone⟩

end Connectors

end SecondBrain
