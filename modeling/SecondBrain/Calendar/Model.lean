import SecondBrain.Lib.IsoFormat
import SecondBrain.Basic

/-!
# Calendar rows

A refresh of an account claims one sync run for each of its calendars. An event
is stored as immutable revisions of an occurrence, and an observation ties a run
to the revision it found. Times are aware while an event is read from the
provider, with the offset they were written in, and instants once it is stored,
so the event is generic in them.
-/

namespace SecondBrain

open Lib

namespace Calendar

/-! ## Catalog -/

inductive EventType where
  | default
  | focusTime
  | outOfOffice
  | workingLocation
  | birthday
deriving DecidableEq, Repr

def EventType.value : EventType → String
  | .default => "default"
  | .focusTime => "focus_time"
  | .outOfOffice => "out_of_office"
  | .workingLocation => "working_location"
  | .birthday => "birthday"

/-- `SPECIAL_EVENT_LABELS`. -/
def EventType.label? : EventType → Option String
  | .default => none
  | .focusTime => some "Focus time"
  | .outOfOffice => some "Out of office"
  | .workingLocation => some "Working location"
  | .birthday => some "Birthday"

/-- The characters `str.isspace` knows. -/
def isSpace (c : Char) : Bool :=
  let n := c.toNat
  (9 ≤ n && n ≤ 13) || (28 ≤ n && n ≤ 32) || n == 0x85 || n == 0xa0 || n == 0x1680 ||
    (0x2000 ≤ n && n ≤ 0x200a) || n == 0x2028 || n == 0x2029 || n == 0x202f ||
    n == 0x205f || n == 0x3000

def strip (s : String) : String :=
  String.ofList ((s.toList.dropWhile isSpace).reverse.dropWhile isSpace).reverse

/-- Whether an ordinary title is shown: bounded, without control characters. -/
def titleAllowed (title : String) : Bool :=
  !title.isEmpty && decide (title.length ≤ 500) && decide (title.utf8ByteSize ≤ 2000) &&
    title.toList.all fun c => !(decide (c.toNat < 32) && c ∉ ['\t', '\n', '\r'])

def eventLabel (eventType : EventType) (isPrivate : Bool) (ordinaryTitle : String) :
    Option String :=
  if isPrivate then some "Busy"
  else match eventType.label? with
    | some label => some label
    | none =>
        let title := strip ordinaryTitle
        if titleAllowed title then some title else none

/-! ## Events -/

/-- A date, or a time. -/
inductive Moment (τ : Type) where
  | date (d : Date)
  | time (t : τ)
deriving DecidableEq

/-- When an event is: the columns for dates or those for instants are set. -/
inductive Timing (τ : Type) where
  | allDay (start stop : Date)
  | timed (start stop : τ)
deriving DecidableEq

/-- An event; a recurring one names its series and when it was to start. -/
structure EventRevision (τ : Type) where
  accountRevisionId : Uuid
  calendarIdentityId : Uuid
  syncRunId : Uuid
  projectId : Option Uuid
  providerEventId : String
  recurrence : Option (String × Moment τ)
  occurrenceKey : String
  providerEtag : String
  providerUpdatedAt : τ
  applicationRevision : Nat
  contentHash : String
  eventType : EventType
  title : String
  timing : Timing τ
  sourceTimezone : Option String
  isPrivate : Bool
  firstSeenAt : Instant
  lastSeenAt : Instant

structure CalendarEventRevision extends EventRevision Instant where
  id : Uuid

structure CalendarEventObservation where
  id : Uuid
  syncRunId : Uuid
  accountRevisionId : Uuid
  calendarIdentityId : Uuid
  occurrenceKey : String
  eventRevisionId : Uuid
  observedAt : Instant
deriving DecidableEq

/-! ## Runs -/

inductive SyncStatus where
  | claimed
  | running
  | succeeded
  | incomplete
  | failed
  | cancelled
deriving DecidableEq, Repr

def SyncStatus.isTerminal : SyncStatus → Bool
  | .succeeded | .incomplete | .failed | .cancelled => true
  | .claimed | .running => false

inductive Completeness where
  | unknown
  | complete
  | incomplete
deriving DecidableEq, Repr

def evidenceVersion : String := "calendar-observations-v1"

structure CalendarSyncRun where
  id : Uuid
  accountRevisionId : Uuid
  calendarIdentityId : Uuid
  projectId : Option Uuid
  windowStart : Instant
  windowEnd : Instant
  status : SyncStatus := .claimed
  completeness : Completeness := .unknown
  itemsSeen : Nat := 0
  itemsWritten : Nat := 0
  itemsUnchanged : Nat := 0
  safeFailureCode : Option String := none
  observationEvidenceVersion : Option String := none
  createdAt : Instant
  startedAt : Option Instant := none
  completedAt : Option Instant := none
deriving DecidableEq

/-! ## Accounts -/

inductive Lifecycle where
  | disabled
  | enabled
  | revoked
deriving DecidableEq, Repr

inductive ConfigurationState where
  | configured
  | invalid
  | reauthorizationRequired
deriving DecidableEq, Repr

structure CalendarAccountRevision where
  id : Uuid
  configurationId : Uuid
  configurationRevision : Nat
  accountFingerprint : String
  credentialReference : String
  projectId : Option Uuid
  lifecycle : Lifecycle
  configurationState : ConfigurationState
deriving DecidableEq

structure CalendarIdentity where
  id : Uuid
  accountRevisionId : Uuid
  accountFingerprint : String
  providerCalendarId : String
deriving DecidableEq

/-- The calendar tables. -/
structure Store where
  accounts : List CalendarAccountRevision := []
  identities : List CalendarIdentity := []
  runs : List CalendarSyncRun := []
  revisions : List CalendarEventRevision := []
  observations : List CalendarEventObservation := []

def Store.run? (db : Store) (id : Uuid) : Option CalendarSyncRun := db.runs.find? (·.id == id)

/-- What reading from the provider and storing can end in, besides an answer. -/
inductive Fault where
  /-- `CalendarTransportError`. -/
  | transport (code : String)
  /-- An error of the credential store or of the authorization. -/
  | credential (code : String)
  /-- `CalendarObservationError`. -/
  | observation
  | database (e : DatabaseError)
  /-- Any other exception. -/
  | other
deriving DecidableEq, Repr

end Calendar

end SecondBrain
