import SecondBrain.Connectors.Schedules
import SecondBrain.Connectors.Sync

/-!
# The refresh scheduler

A tick takes over what was left by others, makes occurrences of the schedules
that are due, claims what is due, and then works on its claims one by one: it
links an occurrence to a sync run, refreshes, and finalises the occurrence by how
the run has ended. Each of these is a transaction of its own, which makes sure
that the claim still stands and that schedule and account are what they were. An
exception gives up the claim and nothing else.
-/

namespace SecondBrain

open Lib

namespace Connectors

variable (c : Clockwork) (p : Platform)

/-- What a tick holds of an occurrence. -/
structure Claim where
  occurrenceId : Uuid
  scheduleId : Uuid
  ownerToken : Uuid
  leaseGeneration : Nat
deriving DecidableEq, Repr

/-- How a transaction of the scheduler fails. -/
inductive SchedulerError where
  /-- No longer the holder of the claim. -/
  | stale
  /-- Schedule or account have changed. -/
  | fenced
  | linkMissing
  | linkInvalid
  | notTerminal
  | claim (e : ClaimError)
  | calculation
deriving DecidableEq, Repr

/-! ## Materialization -/

/-- `occurrence_key`. -/
def occurrenceKey (scheduleId : Uuid) (scheduleRevision : Nat) (instant : Instant) : String :=
  "connector-refresh-occurrence:v1:" ++ scheduleId.text ++ ":" ++ toString scheduleRevision ++
    ":" ++ c.isoformat instant

/-- `trigger_identity`. -/
def triggerIdentity (key : String) : String := "connector_schedule_" ++ p.sha256 (encode key)

/-- The loop of `_latest_due`: the last slot up to now, and the one that follows. -/
def latestFrom (definition : ScheduleDefinition) (now : Instant) :
    Nat → Instant → Except SchedulerError (Instant × Option Instant)
  | 0, latest => .ok (latest, none)
  | fuel + 1, latest =>
      match c.nextPoint definition latest with
      | .error () => .error .calculation
      | .ok none => .ok (latest, none)
      | .ok (some following) =>
          if following ≤ now then latestFrom definition now fuel following
          else .ok (latest, some following)

/-- `_latest_due`. -/
def latestDue (row : RefreshSchedule) (next now : Instant) :
    Except SchedulerError (Instant × Option Instant) :=
  match c.nextPoint row.definition (next - 1) with
  | .ok (some slot) => latestFrom c row.definition now ((now - slot).toNat + 1) slot
  | .ok none | .error () => .error .calculation

/-- `MAX_LOOKBACK`. -/
def maxLookback : Duration := days 7

def missedCode (slot now : Instant) : String :=
  if slot < now - maxLookback then "missed_lookback_bounded" else "missed_skipped"

/-- `_occurrence`, of a schedule that runs late occurrences or skips them. -/
def dueOccurrence (row : RefreshSchedule) (account : ConnectorAccount) (slot now : Instant)
    (id : Uuid) : Occurrence :=
  let missed := row.missedRunPolicy = .skip
  { id := id
    scheduleId := row.id
    accountId := row.accountId
    accountRevision := account.revision
    scheduleRowRevision := row.revision
    scheduleRevision := row.scheduleRevision
    scheduledAt := slot
    occurrenceKey := occurrenceKey c row.id row.scheduleRevision slot
    state := if missed then .missed else .due
    safeDispositionCode := if missed then some (missedCode slot now) else none
    completedAt := if missed then some now else none }

def Occurrence.slot (o : Occurrence) : Uuid × Nat × Instant :=
  (o.scheduleId, o.scheduleRevision, o.scheduledAt)

/-- Whether a row would break a key of the table. -/
def Plan.clashes (plan : Plan) (row : Occurrence) : Bool :=
  plan.occurrences.any fun o =>
    o.id == row.id || o.slot == row.slot || o.occurrenceKey == row.occurrenceKey

/-- One round of `materialize_due`. An occurrence that exists leaves the schedule
as it is. -/
def materialize (db : Store) (plan : Plan) (now : Instant) (row : RefreshSchedule) (id : Uuid) :
    Except SchedulerError Plan :=
  match db.account? row.accountId, row.nextOccurrenceAt with
  | none, _ => .ok plan
  | some _, none => .error .calculation
  | some account, some next => do
      let (slot, following) ← latestDue c row next now
      let occurrence := dueOccurrence c row account slot now id
      if plan.clashes occurrence then return plan
      else
        return { plan.putSchedule { row with nextOccurrenceAt := following } with
          occurrences := plan.occurrences ++ [occurrence] }

def Plan.dueSchedules (plan : Plan) (now : Instant) : List RefreshSchedule :=
  plan.schedules.filter fun row =>
    decide (row.lifecycle = .enabled) && row.nextOccurrenceAt.any fun t => decide (t ≤ now)

/-- Rows in the order of a time and their identifiers, without those that others
have locked, and no more than the limit. -/
def batch {α : Type} (id : α → Uuid) (time : α → Instant) (limit : Nat) (locked : List Uuid)
    (rows : List α) : List α :=
  ((rows.filter fun r => !locked.contains (id r)).insertionSort fun a b =>
    toLex (time a, (id a).toNat) ≤ toLex (time b, (id b).toNat)).take limit

/-- `materialize_due`. -/
def materializeDue (db : Store) (plan : Plan) (now : Instant) (limit : Nat) (locked : List Uuid)
    (ids : Nat → Uuid) : Except SchedulerError Plan :=
  ((batch (·.id) (fun row => row.nextOccurrenceAt.getD 0) limit locked
      (plan.dueSchedules now)).zipIdx).foldlM
    (fun plan (row, n) => materialize c db plan now row (ids n)) plan

/-! ## Claims -/

/-- A lease that begins. -/
def Occurrence.leased (o : Occurrence) (owner : Uuid) (now : Instant) (lease : Duration) :
    Occurrence :=
  { o with
    leaseOwnerToken := some owner
    leaseGeneration := o.leaseGeneration + 1
    leaseExpiresAt := some (now + lease)
    lastRenewedAt := some now
    revision := o.revision + 1 }

def Occurrence.claim (o : Occurrence) (owner : Uuid) : Claim :=
  { occurrenceId := o.id
    scheduleId := o.scheduleId
    ownerToken := owner
    leaseGeneration := o.leaseGeneration + 1 }

/-- Whether schedule and account are what the occurrence was made under. -/
def authorized (db : Store) (plan : Plan) (o : Occurrence) : Bool :=
  ((plan.schedule? o.scheduleId).any fun schedule =>
    decide (schedule.lifecycle = .enabled) && schedule.revision == o.scheduleRowRevision &&
      schedule.scheduleRevision == o.scheduleRevision) &&
    (db.account? o.accountId).any fun account =>
      decide (account.lifecycle = .enabled) && account.revision == o.accountRevision

/-- What `claim_due` makes of a row. -/
def Occurrence.claimed (o : Occurrence) (db : Store) (plan : Plan) (owner : Uuid) (now : Instant)
    (lease : Duration) : Occurrence :=
  if authorized db plan o then
    { o.leased owner now lease with
      state := .claimed
      claimedAt := some now
      attemptCount := o.attemptCount + 1 }
  else
    { o with
      state := .cancelled
      completedAt := some now
      safeDispositionCode := some "authority_fenced" }

/-- Some rows are written anew. -/
def Plan.mapRows (plan : Plan) (rows : List Occurrence) (f : Occurrence → Occurrence) : Plan :=
  { plan with
    occurrences := plan.occurrences.map fun o => if o.id ∈ rows.map (·.id) then f o else o }

/-- `claim_due`. -/
def claimDue (db : Store) (plan : Plan) (now : Instant) (owner : Uuid) (lease : Duration)
    (limit : Nat) (locked : List Uuid) : Plan × List Claim :=
  let rows := batch (·.id) (·.scheduledAt) limit locked
    (plan.occurrences.filter fun o => decide (o.state = .due) && decide (o.scheduledAt ≤ now))
  (plan.mapRows rows fun o => o.claimed db plan owner now lease,
    (rows.filter (authorized db plan)).map (·.claim owner))

/-- What `reclaim_expired` and `reclaim_linked` have in common. -/
def reclaim (plan : Plan) (ready : Occurrence → Bool) (now : Instant) (owner : Uuid)
    (lease : Duration) (limit : Nat) (locked : List Uuid) : Plan × List Claim :=
  let rows := batch (·.id) (fun o => o.leaseExpiresAt.getD 0) limit locked
    (plan.occurrences.filter fun o => ready o && o.leaseExpiresAt.any fun t => decide (t ≤ now))
  (plan.mapRows rows fun o => o.leased owner now lease, rows.map (·.claim owner))

/-- `lock_expired`, but for the time. -/
def Occurrence.isAbandoned (o : Occurrence) : Bool :=
  decide (o.state = .claimed) && o.connectorSyncRunId.isNone

/-- `lock_resumable`, but for the time. -/
def Occurrence.isResumable (o : Occurrence) : Bool :=
  decide (o.state = .syncCreated) && o.connectorSyncRunId.isSome

def reclaimExpired (plan : Plan) (now : Instant) (owner : Uuid) (lease : Duration) (limit : Nat)
    (locked : List Uuid) : Plan × List Claim :=
  reclaim plan Occurrence.isAbandoned now owner lease limit locked

def reclaimLinked (plan : Plan) (now : Instant) (owner : Uuid) (lease : Duration) (limit : Nat)
    (locked : List Uuid) : Plan × List Claim :=
  reclaim plan Occurrence.isResumable now owner lease limit locked

/-! ## Work on a claim -/

/-- Whether the claim is the one the occurrence is leased under. -/
def Claim.holds (claim : Claim) (o : Occurrence) : Bool :=
  o.id == claim.occurrenceId && o.leaseOwnerToken == some claim.ownerToken &&
    o.leaseGeneration == claim.leaseGeneration

/-- `_validated`. -/
def validated (db : Store) (plan : Plan) (claim : Claim) (expected : OccurrenceState) :
    Except SchedulerError Occurrence :=
  match plan.occurrence? claim.occurrenceId, plan.schedule? claim.scheduleId with
  | some o, some schedule =>
      if o.state = expected ∧ claim.holds o then
        if schedule.lifecycle = .enabled ∧ schedule.revision = o.scheduleRowRevision ∧
            schedule.scheduleRevision = o.scheduleRevision ∧
            ((db.account? o.accountId).any fun account =>
              decide (account.lifecycle = .enabled) && account.revision == o.accountRevision) then
          .ok o
        else .error .fenced
      else .error .stale
  | _, _ => .error .stale

/-- `create_and_link_sync`. The run is claimed in the same transaction. -/
def createAndLinkSync (db : Store) (plan : Plan) (claim : Claim) (now : Instant) (id : Uuid) :
    Except SchedulerError (Store × Plan) := do
  let o ← validated db plan claim .claimed
  match o.connectorSyncRunId with
  | some runId =>
      if (db.run? runId).isSome then return (db, plan) else throw .linkInvalid
  | none =>
      match claimWithTrigger p db o.accountId o.accountRevision .scheduled
          (triggerIdentity p o.occurrenceKey) now id with
      | .ok (db, run) =>
          return (db, plan.putOccurrence
            { o with
              connectorSyncRunId := some run.id
              state := .syncCreated
              revision := o.revision + 1 })
      | .error e => throw (.claim e)

/-- `validate_network_fence`. -/
def validateNetworkFence (db : Store) (plan : Plan) (claim : Claim) :
    Except SchedulerError ConnectorSyncRun := do
  let o ← validated db plan claim .syncCreated
  match o.connectorSyncRunId with
  | none => throw .linkMissing
  | some runId =>
      match db.run? runId with
      | some run => return run
      | none => throw .linkInvalid

def SyncStatus.code : SyncStatus → String
  | .claimed => "claimed"
  | .running => "running"
  | .succeeded => "succeeded"
  | .incomplete => "incomplete"
  | .failed => "failed"
  | .cancelled => "cancelled"

/-- The state an occurrence ends in. -/
def SyncStatus.outcome : SyncStatus → OccurrenceState
  | .succeeded => .succeeded
  | .incomplete => .incomplete
  | _ => .failed

/-- The occurrence as it ends with its run. -/
def Occurrence.finalized (o : Occurrence) (run : ConnectorSyncRun) (now : Instant) : Occurrence :=
  { o with
    state := run.status.outcome
    safeErrorCode := run.safeErrorCode
    safeDispositionCode := some ("sync_" ++ run.status.code)
    completedAt := some now
    leaseOwnerToken := none
    leaseExpiresAt := none
    lastRenewedAt := none
    revision := o.revision + 1 }

/-- `finalize`. -/
def finalize (db : Store) (plan : Plan) (claim : Claim) (now : Instant) :
    Except SchedulerError Plan := do
  let o ← validated db plan claim .syncCreated
  match o.connectorSyncRunId.bind db.run? with
  | some run =>
      if run.status.isTerminal then return plan.putOccurrence (o.finalized run now)
      else throw .notTerminal
  | none => throw .notTerminal

/-! ## Ticks -/

inductive TickPhase where
  | reclaimingLinked
  | reclaimingExpired (linked : List Claim)
  | materializing (linked reclaimed : List Claim)
  | claiming (linked reclaimed : List Claim)
  /-- Before an occurrence is linked, or found to be. -/
  | linking (claim : Claim) (rest : List Claim)
  | fencing (claim : Claim) (rest : List Claim)
  /-- While the refresh works. -/
  | refreshing (claim : Claim) (pid : Nat) (rest : List Claim)
  | finalizing (claim : Claim) (rest : List Claim)
  | done
  /-- The process has ended, with an exception or without. -/
  | stopped
deriving DecidableEq

structure Tick where
  owner : Uuid
  now : Instant
  lease : Duration
  limit : Nat
  phase : TickPhase := .reclaimingLinked
deriving DecidableEq

/-- The claims by their occurrence: a later one takes the place of an earlier. -/
def workOf (claims : List Claim) : List Claim :=
  claims.foldl (fun work claim =>
    if claim.occurrenceId ∈ work.map (·.occurrenceId) then replace (·.occurrenceId) claim work
    else work ++ [claim]) []

/-- On to the next claim. -/
def TickPhase.next : List Claim → TickPhase
  | [] => .done
  | claim :: rest => .linking claim rest

structure SchedulerState where
  sync : SyncState := {}
  plan : Plan := {}
  ticks : List Tick := []
deriving DecidableEq

def SchedulerState.db (s : SchedulerState) : Store := s.sync.db

/-- A transaction of a tick, with the rows that others have locked, the readings of
clocks and the identifiers drawn. -/
inductive TickMove where
  | reclaimLinked (locked : List Uuid)
  | reclaimExpired (locked : List Uuid)
  | materialize (locked : List Uuid) (ids : Nat → Uuid)
  | claimDue (locked : List Uuid)
  | link (now : Instant) (id : Uuid)
  | fence
  | await
  | finalize

def SchedulerState.setTick (s : SchedulerState) (i : Nat) (t : Tick) (phase : TickPhase) :
    SchedulerState :=
  { s with ticks := s.ticks.set i { t with phase := phase } }

/-- The transactions before the work begins. -/
def gather (s : SchedulerState) (i : Nat) (t : Tick) : TickMove → Option SchedulerState
  | .reclaimLinked locked =>
      match t.phase with
      | .reclaimingLinked =>
          let (plan, claims) := reclaimLinked s.plan t.now t.owner t.lease t.limit locked
          some ({ s with plan := plan }.setTick i t (.reclaimingExpired claims))
      | _ => none
  | .reclaimExpired locked =>
      match t.phase with
      | .reclaimingExpired linked =>
          let (plan, claims) := reclaimExpired s.plan t.now t.owner t.lease t.limit locked
          some ({ s with plan := plan }.setTick i t (.materializing linked claims))
      | _ => none
  | .materialize locked ids =>
      match t.phase with
      | .materializing linked reclaimed =>
          match materializeDue c s.db s.plan t.now t.limit locked ids with
          | .ok plan => some ({ s with plan := plan }.setTick i t (.claiming linked reclaimed))
          | .error _ => some (s.setTick i t .stopped)
      | _ => none
  | .claimDue locked =>
      match t.phase with
      | .claiming linked reclaimed =>
          let (plan, claims) := claimDue s.db s.plan t.now t.owner t.lease t.limit locked
          some ({ s with plan := plan }.setTick i t
            (.next (workOf (linked ++ reclaimed ++ claims))))
      | _ => none
  | _ => none

/-- The transactions on a claim. -/
def work (s : SchedulerState) (i : Nat) (t : Tick) : TickMove → Option SchedulerState
  | .link now id =>
      match t.phase with
      | .linking claim rest =>
          match s.plan.occurrence? claim.occurrenceId with
          | none => some (s.setTick i t (.next rest))
          | some o =>
              if o.state = .claimed then
                match createAndLinkSync p s.db s.plan claim now id with
                | .ok (db, plan) =>
                    some ({ s with sync := { s.sync with db := db }, plan := plan }.setTick i t
                      (.fencing claim rest))
                | .error _ => some (s.setTick i t (.next rest))
              else some (s.setTick i t (.fencing claim rest))
      | _ => none
  | .fence =>
      match t.phase with
      | .fencing claim rest =>
          match validateNetworkFence s.db s.plan claim with
          | .ok run =>
              if run.status.isTerminal then some (s.setTick i t (.finalizing claim rest))
              else
                some ({ s with sync := { s.sync with
                    refreshes := s.sync.refreshes ++ [Refresh.of run] } }.setTick i t
                  (.refreshing claim s.sync.refreshes.length rest))
          | .error _ => some (s.setTick i t (.next rest))
      | _ => none
  | .await =>
      match t.phase with
      | .refreshing claim pid rest =>
          match s.sync.refreshes[pid]? with
          | some r =>
              if r.phase = .returned then some (s.setTick i t (.finalizing claim rest))
              else if r.phase = .raised then some (s.setTick i t (.next rest))
              else none
          | none => none
      | _ => none
  | .finalize =>
      match t.phase with
      | .finalizing claim rest =>
          match finalize s.db s.plan claim t.now with
          | .ok plan => some ({ s with plan := plan }.setTick i t (.next rest))
          | .error _ => some (s.setTick i t (.next rest))
      | _ => none
  | _ => none

/-! ## The machine -/

inductive ScheduleEdit where
  | create (accountId : Uuid) (request : ScheduleCreate) (id : Uuid) (now : Instant)
  | update (id : Uuid) (request : ScheduleUpdate) (now : Instant)
  | transition (id : Uuid) (expectedRevision : Nat) (action : ScheduleAction) (now : Instant)

def applyScheduleEdit (db : Store) (plan : Plan) : ScheduleEdit → Except ScheduleError Plan
  | .create accountId request id now => createSchedule c db plan accountId request id now
  | .update id request now => updateSchedule c plan id request now
  | .transition id expectedRevision action now =>
      transitionSchedule c plan id expectedRevision action now

/-- `AutomationBatchSize` and `AutomationLeaseSeconds`. -/
def validSettings (limit : Nat) (lease : Duration) : Bool :=
  decide (1 ≤ limit ∧ limit ≤ 16) && decide (seconds 10 ≤ lease ∧ lease ≤ seconds 300)

inductive SchedulerLabel where
  /-- What operators and refreshes do. -/
  | sync (l : SyncLabel)
  | plan (edit : ScheduleEdit)
  | tick (owner : Uuid) (now : Instant) (lease : Duration) (limit : Nat)
  | move (i : Nat) (m : TickMove)
  | crash (i : Nat)

/-- What only the scheduler asks for. -/
def SyncLabel.isScheduled : SyncLabel → Bool
  | .resume _ => true
  | .claim _ _ kind _ _ _ => kind == .scheduled
  | _ => false

/-- The refresh a tick waits for. -/
def Tick.refresh? (t : Tick) : Option Nat :=
  match t.phase with
  | .refreshing _ pid _ => some pid
  | _ => none

/-- A refresh of a tick stops with its tick. -/
def SyncLabel.stops (pid : Nat) : SyncLabel → Bool
  | .stop q => q == pid
  | _ => false

/-- A refresh that a process leaves behind. -/
def SyncState.abandon (s : SyncState) (pid : Option Nat) : SyncState :=
  match pid.bind fun pid => s.refreshes[pid]?.map fun r => (pid, r) with
  | some (pid, r) =>
      if r.phase.isOver then s
      else { s with refreshes := s.refreshes.set pid { r with phase := .stopped } }
  | none => s

def Scheduler.step (s : SchedulerState) : SchedulerLabel → Option SchedulerState
  | .sync l =>
      if l.isScheduled ∨ s.ticks.any fun t => t.refresh?.any fun pid => l.stops pid then none
      else
        match Sync.step p s.sync l with
        | some sync => some { s with sync := sync }
        | none => none
  | .plan edit =>
      match applyScheduleEdit c s.db s.plan edit with
      | .ok plan => some { s with plan := plan }
      | .error _ => none
  | .tick owner now lease limit =>
      if validSettings limit lease ∧ ¬ s.ticks.any (fun t => t.owner == owner) then
        some { s with ticks := s.ticks ++ [{ owner := owner, now := now, lease := lease, limit := limit }] }
      else none
  | .move i m =>
      match s.ticks[i]? with
      | some t => (gather c s i t m).or (work p s i t m)
      | none => none
  | .crash i =>
      match s.ticks[i]? with
      | some t =>
          if t.phase = .done ∨ t.phase = .stopped then none
          else some ({ s with sync := s.sync.abandon t.refresh? }.setTick i t .stopped)
      | none => none

def Scheduler.machine : Machine SchedulerState SchedulerLabel where
  start s := s = {}
  next := Scheduler.step c p

end Connectors

end SecondBrain
