import SecondBrain.Lib.Machine
import SecondBrain.Calendar.Repository
import SecondBrain.Credentials.Contract

/-!
# Refreshes as a machine

A refresh claims one run for each calendar of the account in one transaction.
It then asks for the credential, and for each calendar in turn begins the run,
reads and stores the pages, each in a transaction of its own, and finishes the
run. What goes wrong on the way ends in a handler, which finishes the run at
work and all that follow it; an exception the handler does not know leaves the
refresh as it is. Any number of refreshes are under way. A step is one
transaction with what happened since the one before, and names the answers of
the provider and the readings of the clocks.
-/

namespace SecondBrain

open Lib

namespace Calendar

/-! ## Accounts -/

def latestAccount (db : Store) (configurationId : Uuid) : Option CalendarAccountRevision :=
  latest (·.configurationRevision) (·.configurationId == configurationId) db.accounts

def Store.calendars (db : Store) (account : CalendarAccountRevision) : List CalendarIdentity :=
  db.identities.filter (·.accountRevisionId == account.id)

/-- `_eligible`. -/
def accountEligible (db : Store) (account : CalendarAccountRevision) (expectedRevision : Nat) :
    Bool :=
  let ids := (db.calendars account).map (·.providerCalendarId)
  account.configurationRevision == expectedRevision &&
    decide (account.lifecycle = .enabled) && decide (account.configurationState = .configured) &&
    decide (1 ≤ ids.length ∧ ids.length ≤ 10) && decide ids.Nodup &&
    ids.all (fun id => !id.isEmpty && decide (id.length ≤ 1024)) &&
    validCredentialReference account.credentialReference

/-- Whether an account revision can be added, with its calendars. -/
def addable (db : Store) (account : CalendarAccountRevision) (calendars : List CalendarIdentity) :
    Bool :=
  db.accounts.all (fun a => a.id != account.id &&
      !(a.configurationId == account.configurationId &&
        a.configurationRevision == account.configurationRevision)) &&
    calendars.all (fun c => c.accountRevisionId == account.id &&
      c.accountFingerprint == account.accountFingerprint &&
      db.identities.all fun c' => c'.id != c.id) &&
    decide (calendars.map (·.id)).Nodup && decide (calendars.map (·.providerCalendarId)).Nodup

/-! ## Claiming -/

inductive ClaimError where
  | notFound
  | revisionConflict
  | conflict
  | other
deriving DecidableEq, Repr

/-- The row of a run that is claimed. -/
def claimedRun (account : CalendarAccountRevision) (captured now : Instant) (id : Uuid)
    (calendar : CalendarIdentity) : CalendarSyncRun :=
  { id := id
    accountRevisionId := account.id
    calendarIdentityId := calendar.id
    projectId := account.projectId
    windowStart := captured - days 30
    windowEnd := captured + days 60
    createdAt := now }

/-- The rows for the calendars, the `n`-th with the `n`-th identifier. -/
def createSyncRuns (account : CalendarAccountRevision) (captured now : Instant)
    (ids : Nat → Uuid) : Nat → List CalendarIdentity → Store → Except Fault Store
  | _, [], db => .ok db
  | n, calendar :: rest, db => do
      let db ← createSyncRun db (claimedRun account captured now (ids n) calendar)
      createSyncRuns account captured now ids (n + 1) rest db

/-- What a refresh remembers of a run it has claimed. -/
structure ClaimedRun where
  runId : Uuid
  calendarIdentityId : Uuid
deriving DecidableEq, Repr

/-- `claim`: the account as it was and the runs, in the order of the calendars. -/
def claim (db : Store) (configurationId : Uuid) (expectedRevision : Nat)
    (captured now : Instant) (ids : Nat → Uuid) :
    Except ClaimError (Store × CalendarAccountRevision × List ClaimedRun) :=
  match latestAccount db configurationId with
  | none => .error .notFound
  | some account =>
      if account.configurationRevision ≠ expectedRevision then .error .revisionConflict
      else if ¬ accountEligible db account expectedRevision then .error .conflict
      else
        let calendars := (db.calendars account).insertionSort fun a b =>
          a.providerCalendarId ≤ b.providerCalendarId
        match createSyncRuns account captured now ids 0 calendars db with
        | .ok db =>
            .ok (db, account, calendars.zipIdx.map fun (calendar, n) => ⟨ids n, calendar.id⟩)
        | .error (.database .integrity) => .error .conflict
        | .error _ => .error .other

/-! ## A refresh -/

inductive SyncPhase where
  | authorizing
  | beginning
  /-- Before the page with this number, with the tokens that led there and the
  number of events so far. -/
  | paging (page : Nat) (tokens : List String) (total : Nat)
  | finishing
  /-- In the handler. -/
  | failing (code : String)
  | returned
  | raised
  /-- The process has ended, or the database has. -/
  | stopped
deriving DecidableEq, Repr

structure Refresh where
  configurationId : Uuid
  captured : CalendarAccountRevision
  runs : List ClaimedRun
  activeIndex : Nat := 0
  accountTotal : Nat := 0
  phase : SyncPhase := .authorizing
deriving DecidableEq

/-- An item that was accepted in a run. It is out of order if an item that was
accepted before it is a later version of the same occurrence. -/
structure AcceptedEvent where
  syncRunId : Uuid
  event : EventRevision Instant
  outOfOrder : Bool

structure SyncState where
  db : Store := {}
  refreshes : List Refresh := []
  /-- All that was accepted, oldest first. -/
  accepted : List AcceptedEvent := []

structure CalendarPage where
  items : List Json
  nextPageToken : Option String

structure CredentialStatus where
  status : String
  accountFingerprint : String

def maxPagesPerCalendar : Nat := 10

def maxEventsPerCalendar : Nat := 1000

def maxEventsPerRefresh : Nat := 5000

/-- `_CEILING_CODES`. -/
def ceilingCodes : List String :=
  ["calendar_deadline_ceiling", "calendar_request_ceiling", "calendar_response_ceiling",
    "calendar_byte_ceiling", "calendar_page_item_ceiling", "calendar_page_ceiling",
    "calendar_event_ceiling", "calendar_account_event_ceiling"]

/-- The code the handler knows a fault under, if it handles it. -/
def Fault.code? : Fault → Option String
  | .transport code | .credential code => some code
  | .observation | .database .integrity => some "calendar_observation_evidence_invalid"
  | .database .data | .database .operational | .other => none

def Refresh.fault (r : Refresh) (e : Fault) : Refresh :=
  { r with phase := match e.code? with
    | some code => .failing code
    | none => .raised }

def configurationDrift : Fault := .transport "calendar_configuration_drift"

/-- `_fence`: the account is still what it was when the runs were claimed. -/
def fence (db : Store) (r : Refresh) (calendar : Option CalendarIdentity) : Except Fault Unit :=
  match latestAccount db r.configurationId with
  | none => .error configurationDrift
  | some current =>
      if ¬ accountEligible db current r.captured.configurationRevision then
        .error configurationDrift
      else if (current.id, current.projectId, current.accountFingerprint,
            current.credentialReference) ≠
          (r.captured.id, r.captured.projectId, r.captured.accountFingerprint,
            r.captured.credentialReference) then .error configurationDrift
      else if calendar.all fun c => (db.calendars current).any fun item =>
          item.id == c.id && item.providerCalendarId == c.providerCalendarId then .ok ()
      else .error configurationDrift

/-- The rows of the run at work and of its calendar. -/
def current (db : Store) (r : Refresh) : Except Fault (CalendarSyncRun × CalendarIdentity) :=
  match r.runs[r.activeIndex]? with
  | none => .error .other
  | some claimed =>
      match db.run? claimed.runId, db.identity? claimed.calendarIdentityId with
      | some run, some calendar => .ok (run, calendar)
      | _, _ => .error .other

/-- Where a refresh has got to. -/
structure Progress where
  db : Store
  refresh : Refresh
  accepted : List AcceptedEvent := []

def checkCredential (r : Refresh) (credential : CredentialStatus) : Except Fault Unit :=
  if credential.status ≠ "authorized" ∨
      credential.accountFingerprint ≠ r.captured.accountFingerprint then
    .error (.transport "calendar_credential_mismatch")
  else .ok ()

/-- The account is asked for its status and then for access. -/
def authorize (db : Store) (r : Refresh) (status : Except Fault CredentialStatus)
    (access : Except Fault Unit) : Except Fault Progress := do
  fence db r none
  let credential ← status
  checkCredential r credential
  access
  return { db := db, refresh := { r with phase := .beginning } }

def beginRun (db : Store) (r : Refresh) (now : Instant) : Except Fault Progress := do
  let (run, calendar) ← current db r
  fence db r (some calendar)
  let db ← db.putRun { run with status := .running, startedAt := some now }
  return { db := db, refresh := { r with phase := .paging 1 [] 0 } }

/-! ### Pages -/

/-- Whether it is too late for another page. -/
def checkDeadline (late : Bool) : Except Fault Unit :=
  if late then .error (.transport "calendar_deadline_ceiling") else .ok ()

def checkPage (r : Refresh) (total : Nat) (page : CalendarPage) : Except Fault Unit :=
  if maxEventsPerCalendar < total + page.items.length then
    .error (.transport "calendar_event_ceiling")
  else if maxEventsPerRefresh < r.accountTotal + page.items.length then
    .error (.transport "calendar_account_event_ceiling")
  else .ok ()

def checkDistinct (events : List (EventRevision Aware)) : Except Fault Unit :=
  if (events.map (·.occurrenceKey)).Nodup then .ok () else .error invalidEvent

/-- The events of a page are recorded one after the other, the `n`-th with the
`n`-th identifiers. The number is how many of them are new revisions. -/
def recordAll (run : CalendarSyncRun) (now : Instant) (ids : Nat → Uuid × Uuid) :
    Nat → List (EventRevision Aware) → Store → Except Fault (Store × Nat)
  | _, [], db => .ok (db, 0)
  | n, event :: rest, db => do
      let (db, stored, created) ← recordEventRevision db event now (ids n).1
      let db ← recordEventObservation db run stored now (ids n).2
      let (db, written) ← recordAll run now ids (n + 1) rest db
      return (db, written + if created then 1 else 0)

/-- The run with what a page has added to its counters. -/
def CalendarSyncRun.counting (run : CalendarSyncRun) (events written : Nat) : CalendarSyncRun :=
  { run with
    itemsSeen := run.itemsSeen + events
    itemsWritten := run.itemsWritten + written
    itemsUnchanged := run.itemsUnchanged + (events - written) }

/-- Where the token of a page leads. -/
def turnPage (page : Nat) (tokens : List String) (total : Nat) :
    Option String → Except Fault SyncPhase
  | none => .ok .finishing
  | some token =>
      if token ∈ tokens then .error (.transport "calendar_page_token_loop")
      else if page = maxPagesPerCalendar then .error (.transport "calendar_page_ceiling")
      else .ok (.paging (page + 1) (token :: tokens) total)

/-- Whether a later version of the occurrence was accepted before. -/
def outOfOrder (accepted : List AcceptedEvent) (event : EventRevision Instant) : Bool :=
  accepted.any fun a => a.event.isOf event.calendarIdentityId event.occurrenceKey &&
    decide (event.providerUpdatedAt < a.event.providerUpdatedAt)

def acceptAll (accepted : List AcceptedEvent) (run : CalendarSyncRun)
    (events : List (EventRevision Aware)) : List AcceptedEvent :=
  events.map fun event =>
    { syncRunId := run.id
      event := event.stored
      outOfOrder := outOfOrder accepted event.stored }

def Refresh.turned (r : Refresh) : Except Fault SyncPhase → Refresh
  | .ok phase => { r with phase := phase }
  | .error e => r.fault e

/-- A page that was read in time is checked and then stored as a whole. Whether
another one is asked for is decided after that. -/
def readPage (p : Platform) (db : Store) (accepted : List AcceptedEvent) (r : Refresh)
    (page : Nat) (tokens : List String) (total : Nat) (late : Bool)
    (answer : Except Fault CalendarPage) (now : Instant) (ids : Nat → Uuid × Uuid) :
    Except Fault Progress := do
  checkDeadline late
  let answer ← answer
  checkPage r total answer
  let (run, calendar) ← current db r
  let events ← answer.items.mapM fun item => normalized p item run now
  checkDistinct events
  fence db r (some calendar)
  let (db, written) ← recordAll run now ids 0 events db
  let db ← db.putRun (run.counting events.length written)
  let r := { r with accountTotal := r.accountTotal + events.length }
  return {
    db := db
    refresh := r.turned (turnPage page tokens (total + events.length) answer.nextPageToken)
    accepted := acceptAll accepted run events }

/-! ### Finishing -/

/-- `_finish`. -/
def CalendarSyncRun.finish (run : CalendarSyncRun) (status : SyncStatus) (code : Option String)
    (now : Instant) : CalendarSyncRun :=
  { run with
    status := status
    completeness := if status = .succeeded then .complete else .incomplete
    observationEvidenceVersion :=
      if status = .succeeded then run.observationEvidenceVersion else none
    safeFailureCode := code
    completedAt := some now }

/-- The next calendar, or the end. -/
def Refresh.next (r : Refresh) : Refresh :=
  if r.activeIndex + 1 < r.runs.length then
    { r with activeIndex := r.activeIndex + 1, phase := .beginning }
  else { r with phase := .returned }

def finishRun (db : Store) (r : Refresh) (now : Instant) : Except Fault Progress := do
  let (run, calendar) ← current db r
  fence db r (some calendar)
  let run ← markObservationEvidenceComplete db run
  let db ← db.putRun (run.finish .succeeded none now)
  return { db := db, refresh := r.next }

def failureStatus (code : String) : SyncStatus :=
  if code ∈ ceilingCodes then .incomplete else .failed

/-- The runs are finished, the `n`-th when the clock shows `clock n`. -/
def finishAll (code : String) (clock : Nat → Instant) :
    Nat → List ClaimedRun → Store → Except Fault Store
  | _, [], db => .ok db
  | n, claimed :: rest, db => do
      let db ← match db.run? claimed.runId with
        | none => Except.ok db
        | some run => db.putRun (run.finish (failureStatus code) (some code) (clock n))
      finishAll code clock (n + 1) rest db

/-! ## The machine -/

/-- A part of the protected body of a refresh. -/
inductive SyncCall where
  | authorize (status : Except Fault CredentialStatus) (access : Except Fault Unit)
  | beginRun (now : Instant)
  | readPage (late : Bool) (answer : Except Fault CalendarPage) (now : Instant)
      (ids : Nat → Uuid × Uuid)
  | finishRun (now : Instant)

inductive SyncLabel where
  | configure (account : CalendarAccountRevision) (calendars : List CalendarIdentity)
  | claim (configurationId : Uuid) (expectedRevision : Nat) (captured now : Instant)
      (ids : Nat → Uuid)
  | call (pid : Nat) (call : SyncCall)
  | settle (pid : Nat) (clock : Nat → Instant)
  | stop (pid : Nat)

/-- What the call comes to, if it is the one that is due. -/
def attempt (p : Platform) (s : SyncState) (r : Refresh) : SyncCall →
    Option (Except Fault Progress)
  | .authorize status access =>
      if r.phase = .authorizing then some (authorize s.db r status access) else none
  | .beginRun now => if r.phase = .beginning then some (beginRun s.db r now) else none
  | .readPage late answer now ids =>
      match r.phase with
      | .paging page tokens total =>
          some (readPage p s.db s.accepted r page tokens total late answer now ids)
      | _ => none
  | .finishRun now => if r.phase = .finishing then some (finishRun s.db r now) else none

/-- What is left of a call: all of it, or a fault and nothing written. -/
def SyncState.conclude (s : SyncState) (pid : Nat) (r : Refresh) :
    Except Fault Progress → SyncState
  | .ok done =>
      { db := done.db
        refreshes := s.refreshes.set pid done.refresh
        accepted := s.accepted ++ done.accepted }
  | .error e => { s with refreshes := s.refreshes.set pid (r.fault e) }

/-- The handler finishes the run at work and those after it, or raises. -/
def SyncState.settle (s : SyncState) (pid : Nat) (r : Refresh) (code : String)
    (clock : Nat → Instant) : SyncState :=
  match finishAll code clock 0 (r.runs.drop r.activeIndex) s.db with
  | .ok db => { s with db := db, refreshes := s.refreshes.set pid { r with phase := .returned } }
  | .error _ => { s with refreshes := s.refreshes.set pid { r with phase := .raised } }

/-- Whether the refresh is still running. -/
def SyncPhase.isOver : SyncPhase → Bool
  | .returned | .raised | .stopped => true
  | _ => false

def Sync.step (p : Platform) (s : SyncState) : SyncLabel → Option SyncState
  | .configure account calendars =>
      if addable s.db account calendars then
        some { s with db := { s.db with
          accounts := s.db.accounts ++ [account]
          identities := s.db.identities ++ calendars } }
      else none
  | .claim configurationId expectedRevision captured now ids =>
      match claim s.db configurationId expectedRevision captured now ids with
      | .ok (db, account, runs) =>
          some { s with
            db := db
            refreshes := s.refreshes ++
              [{ configurationId := configurationId, captured := account, runs := runs }] }
      | .error _ => none
  | .call pid call => do
      let r ← s.refreshes[pid]?
      let outcome ← attempt p s r call
      return s.conclude pid r outcome
  | .settle pid clock =>
      match s.refreshes[pid]? with
      | some r =>
          match r.phase with
          | .failing code => some (s.settle pid r code clock)
          | _ => none
      | none => none
  | .stop pid =>
      match s.refreshes[pid]? with
      | some r =>
          if r.phase.isOver then none
          else some { s with refreshes := s.refreshes.set pid { r with phase := .stopped } }
      | none => none

def Sync.machine (p : Platform) : Machine SyncState SyncLabel where
  start s := s = {}
  next := Sync.step p

end Calendar

end SecondBrain
