import SecondBrain.AgentRuns.Service
import SecondBrain.Automations.CatchUp
import SecondBrain.Automations.Coordinator

/-!
# The rows of the automations

An automation is the schedule of an agent, an occurrence is one slot of it that has come,
and a notification tells the operator what became of an occurrence. What an occurrence
needs of its automation is copied when it is made, so that a later change of the automation
can be told.

A row is checked when it is flushed. Rows are added and written, but never removed.
-/

namespace SecondBrain

open Lib

namespace Automations

inductive MissedRunPolicy where
  | skip
  | runOnce
deriving DecidableEq, Repr

/-- The columns that the coordinator does not read. The kind is always `scheduled_agent`. -/
structure AutomationRow extends Automation where
  label : String
  definition : ScheduleDefinition
  missedRunPolicy : MissedRunPolicy := .skip
  retryLimit : Nat := 3
  capacityLimit : Nat := 1
  nextOccurrenceAt : Option Instant := none
  cancelledAt : Option Instant := none

structure OccurrenceRow extends AutomationOccurrence where
  scheduledAt : Instant
  scheduledLocalDate : Int
  scheduledLocalTime : Int
  scheduledUtcOffsetMinutes : Int
  timezoneName : String
  occurrenceKey : String
  automationLabel : String
  revision : Nat := 0
  safeDispositionCode : Option String := none
  safeErrorCode : Option String := none
  attemptCount : Nat := 0
  retryNotBefore : Option Instant := none
  createdAt : Instant
  claimedAt : Option Instant := none
  completedAt : Option Instant := none
  leaseOwnerToken : Option Uuid := none
  leaseGeneration : Nat := 0
  leaseExpiresAt : Option Instant := none
  lastRenewedAt : Option Instant := none
deriving DecidableEq

/-- The title and the body are always the same. -/
structure Notification where
  id : Uuid
  automationId : Uuid
  occurrenceId : Uuid
  agentRunId : Option Uuid
  eventKind : String
  severity : String
  createdAt : Instant
  deduplicationKey : String
  readAt : Option Instant := none
deriving DecidableEq

structure Tables where
  projects : List Uuid := []
  automations : List AutomationRow := []
  occurrences : List OccurrenceRow := []
  notifications : List Notification := []
  runs : Runs := []

/-! ## Constraints -/

def OccurrenceState.isTerminal : OccurrenceState → Bool
  | .completed | .missed | .failed | .cancelled => true
  | .due | .claimed | .runCreated => false

/-- Nothing more is made of an automation with an occurrence in one of these states. -/
def OccurrenceState.isOpen (state : OccurrenceState) : Bool := !state.isTerminal

/-- The states that count against `MAX_ACTIVE_OCCURRENCES`. -/
def OccurrenceState.isActive : OccurrenceState → Bool
  | .claimed | .runCreated => true
  | .due | .completed | .missed | .failed | .cancelled => false

/-- The checks that a row can fail, but for the lengths of its texts. -/
def OccurrenceRow.admitted (o : OccurrenceRow) : Bool :=
  decide (-840 ≤ o.scheduledUtcOffsetMinutes ∧ o.scheduledUtcOffsetMinutes ≤ 840) &&
    o.leaseOwnerToken.isNone == o.leaseExpiresAt.isNone &&
    (o.lastRenewedAt.isNone || o.leaseOwnerToken.isSome) &&
    o.claimedAt.all (fun t => decide (o.createdAt ≤ t)) &&
    o.completedAt.all (fun t => decide (o.createdAt ≤ t)) &&
    o.state.isTerminal == o.completedAt.isSome

/-- `uq_automation_occurrences_schedule_slot`. -/
def OccurrenceRow.slot (o : OccurrenceRow) : Uuid × Nat × Instant :=
  (o.automationId, o.scheduleRevision, o.scheduledAt)

namespace Tables

variable (db : Tables)

def automation? (id : Uuid) : Option AutomationRow := lookup (·.id) id db.automations

def occurrence? (id : Uuid) : Option OccurrenceRow := lookup (·.id) id db.occurrences

/-- `get_occurrence_by_slot`. -/
def occurrenceOf (slot : Uuid × Nat × Instant) : Option OccurrenceRow :=
  lookup (·.slot) slot db.occurrences

def hasProject (projectId : Option Uuid) : Bool := projectId.all db.projects.contains

def putAutomation (a : AutomationRow) : Tables :=
  { db with automations := replace (·.id) a db.automations }

/-- Whether a new occurrence breaks no constraint. -/
def acceptsOccurrence (o : OccurrenceRow) : Bool :=
  o.admitted && (db.occurrence? o.id).isNone && (db.occurrenceOf o.slot).isNone &&
    (lookup (·.occurrenceKey) o.occurrenceKey db.occurrences).isNone &&
    (db.automation? o.automationId).isSome

/-- Whether another occurrence has the run. -/
def sharesRun (o : OccurrenceRow) : Bool :=
  db.occurrences.any fun r => r.id != o.id && o.agentRunId.isSome && r.agentRunId == o.agentRunId

/-- A locked occurrence is written. Nothing stands for a constraint it breaks. -/
def putOccurrence (o : OccurrenceRow) : Option Tables :=
  if o.admitted && !db.sharesRun o then
    some { db with occurrences := replace (·.id) o db.occurrences }
  else none

end Tables

end Automations

end SecondBrain
