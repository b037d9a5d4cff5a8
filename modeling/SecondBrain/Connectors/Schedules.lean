import SecondBrain.Lib.DateTime
import SecondBrain.Connectors.Repository

/-!
# Refresh schedules

An account may have one schedule. While it is enabled it has a next occurrence,
and what becomes due is kept as an occurrence: a slot of the schedule at one of
its revisions, with the revisions of the schedule and of the account that it was
made under. An occurrence is leased to one owner at a time, and every lease has a
generation of its own.
-/

namespace SecondBrain

open Lib

namespace Connectors

/-! ## Rows -/

inductive ScheduleKind where
  | oneTime
  | daily
  | weekly
deriving DecidableEq, Repr

structure ScheduleDefinition where
  kind : ScheduleKind
  timezoneName : String
  /-- Minutes after midnight. -/
  localTime : Nat
  oneTimeLocalDate : Option Date := none
  weekdays : List Nat := []
deriving DecidableEq

inductive MissedRunPolicy where
  | skip
  | runOnce
deriving DecidableEq, Repr

inductive ScheduleLifecycle where
  | draft
  | enabled
  | paused
  | cancelled
deriving DecidableEq, Repr

structure RefreshSchedule where
  id : Uuid
  accountId : Uuid
  lifecycle : ScheduleLifecycle := .draft
  revision : Nat := 0
  scheduleRevision : Nat := 0
  definition : ScheduleDefinition
  missedRunPolicy : MissedRunPolicy
  nextOccurrenceAt : Option Instant := none
  cancelledAt : Option Instant := none
deriving DecidableEq

inductive OccurrenceState where
  | due
  | claimed
  | syncCreated
  | succeeded
  | incomplete
  | failed
  | missed
  | cancelled
deriving DecidableEq, Repr

def OccurrenceState.isTerminal : OccurrenceState → Bool
  | .succeeded | .incomplete | .failed | .missed | .cancelled => true
  | .due | .claimed | .syncCreated => false

structure Occurrence where
  id : Uuid
  scheduleId : Uuid
  accountId : Uuid
  accountRevision : Nat
  scheduleRowRevision : Nat
  scheduleRevision : Nat
  scheduledAt : Instant
  occurrenceKey : String
  state : OccurrenceState := .due
  revision : Nat := 0
  attemptCount : Nat := 0
  safeDispositionCode : Option String := none
  safeErrorCode : Option String := none
  connectorSyncRunId : Option Uuid := none
  leaseOwnerToken : Option Uuid := none
  leaseGeneration : Nat := 0
  leaseExpiresAt : Option Instant := none
  lastRenewedAt : Option Instant := none
  claimedAt : Option Instant := none
  completedAt : Option Instant := none
deriving DecidableEq

/-- The schedule tables. -/
structure Plan where
  schedules : List RefreshSchedule := []
  occurrences : List Occurrence := []
deriving DecidableEq

def Plan.schedule? (plan : Plan) (id : Uuid) : Option RefreshSchedule :=
  lookup (·.id) id plan.schedules

def Plan.occurrence? (plan : Plan) (id : Uuid) : Option Occurrence :=
  lookup (·.id) id plan.occurrences

def Plan.putSchedule (plan : Plan) (row : RefreshSchedule) : Plan :=
  { plan with schedules := replace (·.id) row plan.schedules }

def Plan.putOccurrence (plan : Plan) (row : Occurrence) : Plan :=
  { plan with occurrences := replace (·.id) row plan.occurrences }

/-! ## The calculation -/

/-- The calculation of slots, over the time zones there are, and the text of an
instant in a key. -/
structure Clockwork where
  /-- `next_point`: the first slot after an instant, if there is one. -/
  nextPoint : ScheduleDefinition → Instant → Except Unit (Option Instant)
  isoformat : Instant → String
  progress : ∀ {definition t slot}, nextPoint definition t = .ok (some slot) → t < slot

variable (c : Clockwork)

/-! ## Edits -/

inductive ScheduleError where
  | notFound
  | conflict
  | revisionConflict
  | calculation
deriving DecidableEq, Repr

def nextSlot (definition : ScheduleDefinition) (after : Instant) :
    Except ScheduleError (Option Instant) :=
  match c.nextPoint definition after with
  | .ok slot => .ok slot
  | .error () => .error .calculation

structure ScheduleCreate where
  definition : ScheduleDefinition
  missedRunPolicy : MissedRunPolicy

structure ScheduleUpdate extends ScheduleCreate where
  expectedRevision : Nat

inductive ScheduleAction where
  | enable
  | pause
  | resume
  | cancel
deriving DecidableEq, Repr

def checkUnscheduled (db : Store) (plan : Plan) (accountId id : Uuid) :
    Except ScheduleError Unit :=
  if (db.account? accountId).isNone then .error .notFound
  else if plan.schedules.any fun row => row.accountId == accountId || row.id == id then
    .error .conflict
  else .ok ()

/-- `create`. -/
def createSchedule (db : Store) (plan : Plan) (accountId : Uuid) (request : ScheduleCreate)
    (id : Uuid) (now : Instant) : Except ScheduleError Plan := do
  checkUnscheduled db plan accountId id
  let _ ← nextSlot c request.definition now
  return { plan with
    schedules := plan.schedules ++
      [{ id := id
         accountId := accountId
         definition := request.definition
         missedRunPolicy := request.missedRunPolicy }] }

def lockSchedule (plan : Plan) (id : Uuid) (expectedRevision : Nat) :
    Except ScheduleError RefreshSchedule :=
  match plan.schedule? id with
  | none => .error .notFound
  | some row => if row.revision = expectedRevision then .ok row else .error .revisionConflict

def checkOpenSchedule (row : RefreshSchedule) : Except ScheduleError Unit :=
  if row.lifecycle = .cancelled then .error .conflict else .ok ()

/-- `update`. -/
def updateSchedule (plan : Plan) (id : Uuid) (request : ScheduleUpdate) (now : Instant) :
    Except ScheduleError Plan := do
  let row ← lockSchedule plan id request.expectedRevision
  checkOpenSchedule row
  let slot ← nextSlot c request.definition now
  return plan.putSchedule
    { row with
      definition := request.definition
      missedRunPolicy := request.missedRunPolicy
      revision := row.revision + 1
      scheduleRevision := row.scheduleRevision + 1
      nextOccurrenceAt := if row.lifecycle = .enabled then slot else none }

def ScheduleLifecycle.after : ScheduleLifecycle → ScheduleAction → Option ScheduleLifecycle
  | .draft, .cancel | .enabled, .cancel | .paused, .cancel => some .cancelled
  | .draft, .enable | .paused, .resume => some .enabled
  | .enabled, .pause => some .paused
  | _, _ => none

def targetOf (row : RefreshSchedule) (action : ScheduleAction) :
    Except ScheduleError ScheduleLifecycle :=
  match row.lifecycle.after action with
  | some target => .ok target
  | none => .error .conflict

/-- The next occurrence of a schedule that is enabled. -/
def firstOccurrence (row : RefreshSchedule) (target : ScheduleLifecycle) (now : Instant) :
    Except ScheduleError (Option Instant) :=
  if target = .enabled then do
    match ← nextSlot c row.definition now with
    | some slot => return some slot
    | none => throw .conflict
  else .ok none

/-- `transition`. -/
def transitionSchedule (plan : Plan) (id : Uuid) (expectedRevision : Nat)
    (action : ScheduleAction) (now : Instant) : Except ScheduleError Plan := do
  let row ← lockSchedule plan id expectedRevision
  let target ← targetOf row action
  let slot ← firstOccurrence c row target now
  return plan.putSchedule
    { row with
      lifecycle := target
      revision := row.revision + 1
      nextOccurrenceAt := slot
      cancelledAt := if target = .cancelled then some now else row.cancelledAt }

end Connectors

end SecondBrain
