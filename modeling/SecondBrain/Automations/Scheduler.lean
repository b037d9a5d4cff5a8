import SecondBrain.Automations.Service
import SecondBrain.Lib.Machine

/-!
# The automation scheduler

A tick reads the time once. It takes over what linked runs have come to, takes over claims
whose leases have ended, makes occurrences of the automations that are due and claims what
is due. Then it works on its claims one by one: a run is created and linked, or the
occurrence is deferred or failed. Each of these is a transaction of its own, which takes
effect at one point, and a tick can stop before any of them.

Only the transaction that links a run compares the claim with the occurrence. The ones that
defer and fail it are given the identifier alone.
-/

namespace SecondBrain

open Lib

namespace Automations

open Connectors (batch)

variable (zoneInfo : ZoneInfo) (isoformat : Instant → String) (build : Build)

def maxActiveOccurrences : Nat := 32

def maxSetupAttempts : Nat := 3

/-- `OccurrenceClaim`. -/
structure Claim where
  occurrenceId : Uuid
  automationId : Uuid
  ownerToken : Uuid
  leaseGeneration : Nat
deriving DecidableEq, Repr

/-- How a transaction of the scheduler fails. -/
inductive SchedulerError where
  /-- `SchedulerValidationError`. -/
  | validation
  /-- `ClaimFenceError`. -/
  | fence
  /-- `ExecutionModeUnsupportedError`. -/
  | unsupported
  /-- `AmbiguousSchedulerOutcomeError`. -/
  | ambiguous
  | calculation (e : CatchUpFault)
  | run (e : Fault)
  | integrity
deriving DecidableEq, Repr

/-- A constraint that is broken raises an `IntegrityError`. -/
def flushed {α : Type} : Option α → Except SchedulerError α
  | none => .error .integrity
  | some a => .ok a

/-! ## Notifications -/

def noticeKey (occurrenceId : Uuid) (eventKind : String) : String :=
  "automation-notice:" ++ occurrenceId.text ++ ":" ++ eventKind

def OccurrenceRow.notice (o : OccurrenceRow) (eventKind severity : String) (now : Instant)
    (id : Uuid) : Notification :=
  { id := id
    automationId := o.automationId
    occurrenceId := o.id
    agentRunId := o.agentRunId
    eventKind := eventKind
    severity := severity
    createdAt := now
    deduplicationKey := noticeKey o.id eventKind }

/-- `_notification`. One that breaks a constraint is left out. -/
def Tables.notify (db : Tables) (o : OccurrenceRow) (eventKind severity : String) (now : Instant)
    (id : Uuid) : Tables :=
  let notice := o.notice eventKind severity now id
  if db.notifications.any fun n =>
      n.id == id || n.deduplicationKey == notice.deduplicationKey then db
  else { db with notifications := db.notifications ++ [notice] }

/-! ## Materialization -/

/-- `_occurrence_key`. -/
def occurrenceKey (a : AutomationRow) (scheduledAt : Instant) : String :=
  "automation:" ++ a.id.text ++ ":schedule:" ++ toString a.scheduleRevision ++ ":at:" ++
    isoformat scheduledAt

/-- `_new_occurrence`. -/
def newOccurrence (a : AutomationRow) (point : SchedulePoint) (now : Instant)
    (state : OccurrenceState) (disposition : Option String) (id : Uuid) : OccurrenceRow :=
  { id := id
    automationId := a.id
    scheduleRevision := a.scheduleRevision
    scheduledAt := point.utcInstant
    scheduledLocalDate := point.localDate
    scheduledLocalTime := point.localTime
    scheduledUtcOffsetMinutes := point.utcOffsetMinutes
    timezoneName := point.timezoneName
    occurrenceKey := occurrenceKey isoformat a point.utcInstant
    state := state
    agentRunId := none
    automationRevision := a.revision
    automationLabel := a.label
    agentKind := a.agentKind
    agentVersion := a.agentVersion
    executionMode := a.executionMode
    projectId := a.projectId
    safeDispositionCode := disposition
    createdAt := now
    completedAt := if state.isTerminal then some now else none }

/-- An occurrence of another slot that is not over. -/
def blocks (a : AutomationRow) (o : OccurrenceRow) : Bool :=
  o.automationId == a.id && o.state.isOpen &&
    !(o.scheduleRevision == a.scheduleRevision && a.nextOccurrenceAt == some o.scheduledAt)

/-- The condition of `lock_due_automations`. -/
def Tables.isDue (db : Tables) (now : Instant) (a : AutomationRow) : Bool :=
  decide (a.lifecycle = .enabled) && a.nextOccurrenceAt.any (fun t => decide (t ≤ now)) &&
    !db.occurrences.any (blocks a)

/-- The occurrence of the slot, which is made if there is none. -/
def Tables.occurrenceFor (db : Tables) (a : AutomationRow) (point : SchedulePoint) (now : Instant)
    (state : OccurrenceState) (disposition : Option String) (id : Uuid) :
    Except SchedulerError (OccurrenceRow × Tables) :=
  match db.occurrenceOf (a.id, a.scheduleRevision, point.utcInstant) with
  | some o => .ok (o, db)
  | none =>
      let o := newOccurrence isoformat a point now state disposition id
      if db.acceptsOccurrence o then .ok (o, { db with occurrences := db.occurrences ++ [o] })
      else .error .integrity

/-- One round of `materialize_due`. -/
def materialize (db : Tables) (now : Instant) (a : AutomationRow) (id noticeId : Uuid) :
    Except SchedulerError Tables :=
  match latestDueAndFuture zoneInfo a.definition a.nextOccurrenceAt now with
  | .error e => .error (.calculation e)
  | .ok (point, following, olderThanLookback) =>
      let missed := a.missedRunPolicy = .skip
      let disposition :=
        if missed then
          some (if olderThanLookback then "missed_lookback_bounded" else "missed_skipped")
        else none
      match db.occurrenceFor isoformat a point now (if missed then .missed else .due) disposition id with
      | .error e => .error e
      | .ok (o, db') =>
          let advanced := db'.putAutomation
            { a with nextOccurrenceAt := following.map (·.utcInstant) }
          .ok (if missed then advanced.notify o "occurrence_missed" "warning" now noticeId
            else advanced)

/-- `materialize_due`. -/
def materializeDue (db : Tables) (now : Instant) (limit : Nat) (locked : List Uuid)
    (ids noticeIds : Nat → Uuid) : Except SchedulerError Tables :=
  (batch (·.id) (fun a => a.nextOccurrenceAt.getD 0) limit locked
      (db.automations.filter (db.isDue now))).zipIdx.foldlM
    (fun db (a, n) => materialize zoneInfo isoformat db now a (ids n) (noticeIds n)) db

/-! ## Claims -/

/-- A lease that begins. -/
def OccurrenceRow.leased (o : OccurrenceRow) (owner : Uuid) (now : Instant) (lease : Duration) :
    OccurrenceRow :=
  { o with
    leaseOwnerToken := some owner
    leaseGeneration := o.leaseGeneration + 1
    leaseExpiresAt := some (now + lease)
    lastRenewedAt := some now
    revision := o.revision + 1 }

def OccurrenceRow.claimed (o : OccurrenceRow) (owner : Uuid) (now : Instant) (lease : Duration) :
    OccurrenceRow :=
  { o.leased owner now lease with state := .claimed, claimedAt := some now }

def OccurrenceRow.claim (o : OccurrenceRow) (owner : Uuid) : Claim :=
  { occurrenceId := o.id
    automationId := o.automationId
    ownerToken := owner
    leaseGeneration := o.leaseGeneration + 1 }

/-- The modes of the occurrences that are claimed. -/
def OccurrenceRow.claimableMode (o : OccurrenceRow) : Bool :=
  decide (o.executionMode = .createOnly) ||
    (decide (o.executionMode = .automaticReadOnly) &&
      isImplementedAutomationIdentity o.agentKind o.agentVersion)

/-- The occurrence is of its automation as it is now. -/
def OccurrenceRow.current (o : OccurrenceRow) (a : AutomationRow) : Bool :=
  decide (a.lifecycle = .enabled) && a.revision == o.automationRevision &&
    a.scheduleRevision == o.scheduleRevision

/-- The condition of `lock_claimable_occurrences`. -/
def Tables.isClaimable (db : Tables) (now : Instant) (o : OccurrenceRow) : Bool :=
  decide (o.state = .due) && decide (o.scheduledAt ≤ now) &&
    o.retryNotBefore.all (fun t => decide (t ≤ now)) && o.claimableMode &&
    (db.automation? o.automationId).any o.current

def Tables.activeCount (db : Tables) : Nat := db.occurrences.countP (·.state.isActive)

/-- Rows that were locked are written, one after the other. -/
def Tables.writeRows (db : Tables) (rows : List OccurrenceRow) (f : OccurrenceRow → OccurrenceRow) :
    Except SchedulerError Tables :=
  rows.foldlM (fun db o => flushed (db.putOccurrence (f o))) db

/-- `claim_due`. The capacity lock serialises the count and the claims. -/
def claimDue (db : Tables) (now : Instant) (owner : Uuid) (lease : Duration) (limit : Nat)
    (locked : List Uuid) : Except SchedulerError (List Claim × Tables) :=
  let available := maxActiveOccurrences - db.activeCount
  let rows := batch (·.id) (·.scheduledAt) (min limit available) locked
    (db.occurrences.filter (db.isClaimable now))
  if available = 0 then .ok ([], db)
  else
    (db.writeRows rows fun o => o.claimed owner now lease).map fun db' =>
      (rows.map (·.claim owner), db')

/-- The condition of `lock_expired_claims`. -/
def OccurrenceRow.isExpired (o : OccurrenceRow) (now : Instant) : Bool :=
  decide (o.state = .claimed) && o.leaseExpiresAt.any fun t => decide (t ≤ now)

/-- `reclaim_expired`. -/
def reclaimExpired (db : Tables) (now : Instant) (owner : Uuid) (lease : Duration) (limit : Nat)
    (locked : List Uuid) : Except SchedulerError (List Claim × Tables) :=
  let rows := (batch (·.id) (fun o => o.leaseExpiresAt.getD 0) limit locked
    (db.occurrences.filter (·.isExpired now))).filter (·.agentRunId.isNone)
  (db.writeRows rows fun o => o.leased owner now lease).map fun db' =>
    (rows.map (·.claim owner), db')

/-! ## What linked runs have come to -/

/-- The condition of `lock_linked_occurrences`. -/
def OccurrenceRow.isLinked (o : OccurrenceRow) : Bool := o.agentRunId.isSome && o.state.isActive

/-- The occurrence whose run is not there. -/
def OccurrenceRow.runMissing (o : OccurrenceRow) (now : Instant) : OccurrenceRow :=
  { o with
    state := .failed
    safeErrorCode := some "linked_run_missing"
    safeDispositionCode := some "operator_review_required"
    completedAt := some now
    revision := o.revision + 1 }

/-- The occurrence whose run is over. -/
def OccurrenceRow.runEnded (o : OccurrenceRow) (state : AgentRunState) (now : Instant) :
    OccurrenceRow :=
  { o with
    state := if state = .completed then .completed else .failed
    safeDispositionCode := some ("run_" ++ state.value)
    safeErrorCode := if state = .completed then none else some ("run_" ++ state.value)
    completedAt := some now
    revision := o.revision + 1 }

def OccurrenceRow.runCreated (o : OccurrenceRow) : OccurrenceRow :=
  { o with
    state := .runCreated
    safeDispositionCode := some "run_created"
    revision := o.revision + 1 }

/-- One round of `reconcile_linked`. Whether the run of a daily brief or a project watch has
a result is given. -/
def reconcile (db : Tables) (now : Instant) (hasResult : Uuid → Bool) (o : OccurrenceRow)
    (noticeId : Uuid) : Except SchedulerError Tables :=
  match o.agentRunId.bind db.runs.get with
  | none =>
      (flushed (db.putOccurrence (o.runMissing now))).map fun db' =>
        db'.notify o "occurrence_failed" "error" now noticeId
  | some r =>
      if r.run.state.isTerminal then
        (flushed (db.putOccurrence (o.runEnded r.run.state now))).map fun db' =>
          if r.run.state ≠ .completed then db'.notify o "occurrence_failed" "error" now noticeId
          else if isImplementedAutomationIdentity r.run.agentKind r.run.agentVersion &&
              hasResult r.run.id then
            db'.notify o "run_completed" "info" now noticeId
          else db'
      else if o.state = .claimed then flushed (db.putOccurrence o.runCreated)
      else .ok db

/-- `reconcile_linked`. -/
def reconcileLinked (db : Tables) (now : Instant) (limit : Nat) (locked : List Uuid)
    (hasResult : Uuid → Bool) (noticeIds : Nat → Uuid) : Except SchedulerError Tables :=
  (batch (·.id) (·.scheduledAt) limit locked
      (db.occurrences.filter (·.isLinked))).zipIdx.foldlM
    (fun db (o, n) => reconcile db now hasResult o (noticeIds n)) db

/-! ## Deferring and failing -/

/-- `retry_delay`. -/
def retryDelay (occurrenceId : Uuid) (attempt : Nat) : Duration :=
  let base := min (5 * 2 ^ (attempt - 1)) 300
  let jitter := (occurrenceId.toNat + attempt) % 5
  seconds (min (base + jitter) 300)

/-- The occurrence that is due again. -/
def OccurrenceRow.deferred (o : OccurrenceRow) (retryNotBefore : Instant) (code : String) :
    OccurrenceRow :=
  { o with
    state := .due
    retryNotBefore := some retryNotBefore
    leaseOwnerToken := none
    leaseExpiresAt := none
    lastRenewedAt := none
    safeDispositionCode := some code
    revision := o.revision + 1 }

/-- The occurrence that has failed. -/
def OccurrenceRow.failedWith (o : OccurrenceRow) (now : Instant) (code : String) : OccurrenceRow :=
  { o with
    state := .failed
    safeErrorCode := some code
    safeDispositionCode := some "operator_review_required"
    retryNotBefore := none
    completedAt := some now
    revision := o.revision + 1 }

/-- `defer_setup` where there is no capacity. -/
def deferCapacity (db : Tables) (o : OccurrenceRow) (now : Instant) (noticeId : Uuid) :
    Except SchedulerError Tables :=
  (flushed (db.putOccurrence
      (o.deferred (now + retryDelay o.id 1) "capacity_deferred"))).map fun db' =>
    if o.safeDispositionCode = some "capacity_deferred" then
      db'.notify o "capacity_delayed" "warning" now noticeId
    else db'

/-- `defer_setup` after an error that may not come again. -/
def deferRetry (db : Tables) (a : AutomationRow) (o : OccurrenceRow) (now : Instant)
    (noticeId : Uuid) : Except SchedulerError Tables :=
  let counted := { o with attemptCount := o.attemptCount + 1 }
  if min a.retryLimit maxSetupAttempts ≤ counted.attemptCount then
    (flushed (db.putOccurrence (counted.failedWith now "setup_retry_exhausted"))).map fun db' =>
      db'.notify o "retry_exhausted" "error" now noticeId
  else
    flushed (db.putOccurrence
      (counted.deferred (now + retryDelay o.id counted.attemptCount) "setup_retry_deferred"))

/-- `defer_setup`. -/
def deferSetup (db : Tables) (occurrenceId : Uuid) (now : Instant) (capacity : Bool)
    (noticeId : Uuid) : Except SchedulerError Tables :=
  match db.occurrence? occurrenceId with
  | none => .error .ambiguous
  | some o =>
      if o.agentRunId.isSome then .error .ambiguous
      else
        match db.automation? o.automationId with
        | none => .error .ambiguous
        | some a =>
            if o.state ≠ .claimed then .error .ambiguous
            else if capacity then deferCapacity db o now noticeId
            else deferRetry db a o now noticeId

/-- `fail_closed`. -/
def failClosed (db : Tables) (occurrenceId : Uuid) (now : Instant) (code : String)
    (noticeId : Uuid) : Except SchedulerError Tables :=
  match db.occurrence? occurrenceId with
  | none => .error .ambiguous
  | some o =>
      if o.agentRunId.isSome then .error .ambiguous
      else if o.state.isTerminal then .ok db
      else
        (flushed (db.putOccurrence (o.failedWith now code))).map fun db' =>
          db'.notify o "occurrence_failed" "error" now noticeId

/-! ## Creating and linking the run -/

/-- Whether the occurrence is leased under the claim. -/
def Claim.holds (claim : Claim) (o : OccurrenceRow) : Bool :=
  o.id == claim.occurrenceId && decide (o.state = .claimed) &&
    o.leaseOwnerToken == some claim.ownerToken && o.leaseGeneration == claim.leaseGeneration

/-- The lease has not ended. -/
def OccurrenceRow.isLive (o : OccurrenceRow) (now : Instant) : Bool :=
  o.leaseExpiresAt.any fun t => decide (now < t)

/-- The automation is as it was when the occurrence was made. -/
def OccurrenceRow.matchesAutomation (o : OccurrenceRow) (a : AutomationRow) : Bool :=
  o.current a && a.projectId == o.projectId && a.agentKind == o.agentKind &&
    a.agentVersion == o.agentVersion && decide (a.executionMode = o.executionMode)

/-- `_validate_claim`. -/
def validateClaim (a : AutomationRow) (o : OccurrenceRow) (claim : Claim) (now : Instant) :
    Except SchedulerError Unit :=
  if !(o.automationId == claim.automationId && claim.holds o && o.isLive now) then .error .fence
  else if !o.matchesAutomation a then .error .fence
  else .ok ()

/-- The goal of the run. -/
def goalSummary (o : OccurrenceRow) : String :=
  if isDailyBrief o.agentKind o.agentVersion then
    "Produce Daily Brief v1 from reviewed local knowledge for " ++
      (if o.projectId.isSome then "the exact captured Project"
        else "the explicitly unassigned scope") ++
      ". Use only captured, version-validated evidence and return " ++
      "an evidence-cited bounded brief or insufficient evidence."
  else if isProjectWatch o.agentKind o.agentVersion then
    "Inspect meaningful reviewed local changes for the exact captured Project " ++
      "within the application-derived Project Watch v1 window. Use only " ++
      "captured, version-validated evidence and return cited changes or " ++
      "no meaningful change."
  else "Scheduled " ++ o.agentKind ++ ": " ++ o.automationLabel

/-- `_run_request`. -/
def runRequest (o : OccurrenceRow) : AgentRunCreate :=
  { projectId := o.projectId
    agentKind := o.agentKind
    agentVersion := o.agentVersion
    goalSummary := goalSummary o }

/-- `_run_key`. -/
def runKey (o : OccurrenceRow) : String :=
  "automation-occurrence:" ++ o.id.text ++ ":" ++ o.occurrenceKey

def runKeyHash (o : OccurrenceRow) : String := hashIdempotencyKey build (runKey o)

def runFingerprint (o : OccurrenceRow) : String :=
  normalizedRequestFingerprint build (runRequest o)

/-- The checks between the claim and the run. -/
def checkSetup (db : Tables) (o : OccurrenceRow) : Except SchedulerError Unit :=
  if decide (o.executionMode = .automaticReadOnly) &&
      !(getAutomaticAgentDefinition o.agentKind o.agentVersion).any
        AutomaticAgentDefinition.readsOnly then .error .unsupported
  else if !(getSchedulableAgent o.agentKind o.agentVersion).any (fun entry =>
      !(entry.projectRequired && o.projectId.isNone)) then .error .validation
  else if !db.hasProject o.projectId then .error .validation
  else .ok ()

/-- The occurrence that is linked to its run. -/
def OccurrenceRow.linked (o : OccurrenceRow) (runId : Uuid) : OccurrenceRow :=
  { o with
    agentRunId := some runId
    state := .runCreated
    revision := o.revision + 1
    safeDispositionCode := some "run_created" }

/-- The run that the occurrence was linked to before. -/
def replayLinked (db : Tables) (o : OccurrenceRow) : Except SchedulerError Tables :=
  match resolveCreateReplay db.runs (runKeyHash build o) (runFingerprint build o) with
  | .error e => .error (.run e)
  | .ok replay =>
      if replay.map (·.runId) = o.agentRunId then .ok db else .error .validation

/-- `create_and_link_run`. -/
def createAndLinkRun (db : Tables) (claim : Claim) (now : Instant) (runId correlationId : Uuid) :
    Except SchedulerError Tables :=
  match db.automation? claim.automationId, db.occurrence? claim.occurrenceId with
  | some a, some o =>
      if o.state = .runCreated ∧ o.agentRunId.isSome then replayLinked build db o
      else do
        validateClaim a o claim now
        checkSetup db o
        match createRun build db.runs db.projects.contains (runRequest o) (runKeyHash build o)
            (runFingerprint build o) now runId correlationId with
        | .error e => throw (.run e)
        | .ok (result, runs) =>
            if o.agentRunId.isSome ∧ o.agentRunId ≠ some result.runId then throw .validation
            else flushed (({ db with runs := runs } : Tables).putOccurrence (o.linked result.runId))
  | _, _ => .error .fence

/-! ## Ticks -/

inductive TickPhase where
  | reconciling
  | reclaiming
  | materializing (reclaimed : List Claim)
  | claiming (reclaimed : List Claim)
  /-- Before a run is created and linked. -/
  | linking (claim : Claim) (rest : List Claim)
  /-- After a commit that was not acknowledged. -/
  | reading (claim : Claim) (rest : List Claim)
  | deferring (claim : Claim) (capacity : Bool) (rest : List Claim)
  | failing (claim : Claim) (code : String) (rest : List Claim)
  | done
  /-- The process has ended, with an exception or without. -/
  | stopped
deriving DecidableEq

structure Tick where
  owner : Uuid
  now : Instant
  lease : Duration
  limit : Nat
  phase : TickPhase := .reconciling
deriving DecidableEq

/-- On to the next claim. -/
def TickPhase.next : List Claim → TickPhase
  | [] => .done
  | claim :: rest => .linking claim rest

/-- The claims of a tick, without those it has twice. -/
def allClaims (reclaimed claims : List Claim) : List Claim :=
  reclaimed ++ claims.filter fun claim =>
    !(reclaimed.map (·.occurrenceId)).contains claim.occurrenceId

/-- What becomes of the transaction that creates and links. -/
inductive LinkOutcome where
  | committed
  /-- The commit is not acknowledged. It has taken effect or it has not. -/
  | unacknowledged (effect : Bool)
  /-- The database fails before the commit. -/
  | failed (retryable : Bool)
deriving DecidableEq

structure SchedulerState where
  db : Tables := {}
  clock : Instant := 0
  ticks : List Tick := []

/-- A transaction of a tick, with the rows that others have locked and what is drawn. -/
inductive TickMove where
  | reconcile (locked : List Uuid) (hasResult : Uuid → Bool) (noticeIds : Nat → Uuid)
  | reclaim (locked : List Uuid)
  | materialize (locked : List Uuid) (ids noticeIds : Nat → Uuid)
  | claim (locked : List Uuid)
  | link (outcome : LinkOutcome) (runId correlationId : Uuid)
  | read
  | defer (noticeId : Uuid)
  | fail (noticeId : Uuid)

/-- The tick goes on, or stops with what was raised. -/
def settle (t : Tick) : Except SchedulerError (TickPhase × Tables) → Tables → Tick × Tables
  | .ok (phase, db'), _ => ({ t with phase := phase }, db')
  | .error _, db => ({ t with phase := .stopped }, db)

/-- What the tick does after the transaction that creates and links. -/
def afterLink (db : Tables) (claim : Claim) (rest : List Claim)
    (result : Except SchedulerError Tables) : LinkOutcome → TickPhase × Tables
  | .failed true => (.deferring claim false rest, db)
  | .failed false => (.failing claim "setup_failed_safe" rest, db)
  | .committed =>
      match result with
      | .ok db' => (.next rest, db')
      | .error (.run .capacity) => (.deferring claim true rest, db)
      | .error _ => (.failing claim "setup_failed_safe" rest, db)
  | .unacknowledged effect =>
      match result with
      | .ok db' => (.reading claim rest, if effect then db' else db)
      | .error (.run .capacity) => (.deferring claim true rest, db)
      | .error _ => (.failing claim "setup_failed_safe" rest, db)

/-- What is read after a commit that was not acknowledged. -/
def afterRead (db : Tables) (claim : Claim) (rest : List Claim) : TickPhase :=
  if (db.occurrence? claim.occurrenceId).any fun o =>
      o.agentRunId.isSome && decide (o.state = .runCreated) then .next rest
  else .failing claim "ambiguous_commit_outcome" rest

/-- A transaction of a tick. -/
def Tick.advance (db : Tables) (t : Tick) : TickMove → Option (Tick × Tables)
  | .reconcile locked hasResult noticeIds =>
      match t.phase with
      | .reconciling =>
          some (settle t ((reconcileLinked db t.now t.limit locked hasResult noticeIds).map
            fun db' => (.reclaiming, db')) db)
      | _ => none
  | .reclaim locked =>
      match t.phase with
      | .reclaiming =>
          some (settle t ((reclaimExpired db t.now t.owner t.lease t.limit locked).map
            fun (claims, db') => (.materializing claims, db')) db)
      | _ => none
  | .materialize locked ids noticeIds =>
      match t.phase with
      | .materializing reclaimed =>
          some (settle t
            ((materializeDue zoneInfo isoformat db t.now t.limit locked ids noticeIds).map
              fun db' => (.claiming reclaimed, db')) db)
      | _ => none
  | .claim locked =>
      match t.phase with
      | .claiming reclaimed =>
          some (settle t ((claimDue db t.now t.owner t.lease t.limit locked).map
            fun (claims, db') => (.next (allClaims reclaimed claims), db')) db)
      | _ => none
  | .link outcome runId correlationId =>
      match t.phase with
      | .linking claim rest =>
          let (phase, db') := afterLink db claim rest
            (createAndLinkRun build db claim t.now runId correlationId) outcome
          some ({ t with phase := phase }, db')
      | _ => none
  | .read =>
      match t.phase with
      | .reading claim rest => some ({ t with phase := afterRead db claim rest }, db)
      | _ => none
  | .defer noticeId =>
      match t.phase with
      | .deferring claim capacity rest =>
          some (settle t ((deferSetup db claim.occurrenceId t.now capacity noticeId).map
            fun db' => (.next rest, db')) db)
      | _ => none
  | .fail noticeId =>
      match t.phase with
      | .failing claim code rest =>
          some (settle t ((failClosed db claim.occurrenceId t.now code noticeId).map
            fun db' => (.next rest, db')) db)
      | _ => none

/-! ## The machine -/

/-- What others may make of a run: its state goes the ways it can, and what it was created
from stays. -/
def becomes (r r' : RunRecord) : Bool :=
  r'.run.id == r.run.id && r'.run.projectId == r.run.projectId &&
    r'.run.agentKind == r.run.agentKind && r'.run.agentVersion == r.run.agentVersion &&
    r'.run.idempotencyKeyHash == r.run.idempotencyKeyHash &&
    r'.run.normalizedRequestFingerprint == r.run.normalizedRequestFingerprint &&
    (decide (r'.run.state = r.run.state) ||
      (legalTransitions r.run.state).contains r'.run.state)

inductive SchedulerLabel where
  | clock (now : Instant)
  | project (id : Uuid)
  | edit (e : AutomationEdit)
  /-- A run is created by a request. -/
  | create (q : AgentRunCreate) (keyHash : String) (runId correlationId : Uuid)
  /-- A run goes on. -/
  | run (r : RunRecord)
  | tick (owner : Uuid) (lease : Duration) (limit : Nat)
  | move (i : Nat) (m : TickMove)
  | crash (i : Nat)

def SchedulerState.setTick (s : SchedulerState) (i : Nat) (t : Tick) (db : Tables) :
    SchedulerState :=
  { s with db := db, ticks := s.ticks.set i t }

def Scheduler.step (s : SchedulerState) : SchedulerLabel → Option SchedulerState
  | .clock now => if s.clock ≤ now then some { s with clock := now } else none
  | .project id =>
      if s.db.projects.contains id then none
      else some { s with db := { s.db with projects := s.db.projects ++ [id] } }
  | .edit e =>
      if e.valid then
        match applyEdit zoneInfo s.db s.clock e with
        | .ok db => some { s with db := db }
        | .error _ => none
      else none
  | .create q keyHash runId correlationId =>
      match createRun build s.db.runs s.db.projects.contains q keyHash
          (normalizedRequestFingerprint build q) s.clock runId correlationId with
      | .ok (_, runs) => some { s with db := { s.db with runs := runs } }
      | .error _ => none
  | .run r' =>
      match s.db.runs.get r'.run.id with
      | some r =>
          if becomes r r' then some { s with db := { s.db with runs := s.db.runs.put r' } }
          else none
      | none => none
  | .tick owner lease limit =>
      if Connectors.validSettings limit lease ∧ ¬ s.ticks.any (fun t => t.owner == owner) then
        some { s with
          ticks := s.ticks ++ [{ owner := owner, now := s.clock, lease := lease, limit := limit }] }
      else none
  | .move i m =>
      match s.ticks[i]? with
      | some t => (t.advance zoneInfo isoformat build s.db m).map fun (t', db) => s.setTick i t' db
      | none => none
  | .crash i =>
      match s.ticks[i]? with
      | some t =>
          if t.phase = .done ∨ t.phase = .stopped then none
          else some (s.setTick i { t with phase := .stopped } s.db)
      | none => none

def Scheduler.machine : Machine SchedulerState SchedulerLabel where
  start s := s = {}
  next := Scheduler.step zoneInfo isoformat build

end Automations

end SecondBrain
