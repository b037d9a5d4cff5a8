import SecondBrain.Lib.Machine
import SecondBrain.Connectors.Service

/-!
# Refreshes as a machine

A refresh works on a run that was claimed. It asks for the secret, marks the run
as running, checks who the secret belongs to and each repository of the account,
and then stores page after page, each in a transaction of its own that makes sure
the account is still what it was. In the end it reconciles, or leaves everything
as it is if a list was cut off. What goes wrong on the way ends in a handler,
which closes the run; an exception the handlers do not know leaves the refresh as
it is.

A refresh that was asked for by an operator is the only one of its run. One that
was scheduled may be taken up again by another process. The session of the first
kind does not forget the account when it commits, so the account it looks at
later is the one it has loaded once.

A step is one transaction with what happened since the one before, and names the
answers of the provider and the readings of the clocks.
-/

namespace SecondBrain

open Lib

namespace Connectors

/-! ## A refresh -/

def maxAcceptedItems : Nat := 2000

def maxDataPages : Nat := 2

/-- `_CEILING_CODES`. -/
def ceilingCodes : List String :=
  ["github_pagination_ceiling", "github_item_ceiling", "github_request_ceiling",
    "github_deadline_ceiling", "github_run_byte_ceiling"]

/-- `_IDENTITY_FAILURES`. -/
def identityFailures : List String :=
  ["github_unauthorized", "github_forbidden", "github_not_found", "github_identity_mismatch"]

structure ValidatedRepository where
  name : String
  repoId : Nat
  snapshot : Snapshot
deriving DecidableEq

inductive SyncPhase where
  | authorizing
  | starting
  | identifying
  /-- The repositories that are still to be checked, and those that have been. -/
  | validating (names : List String) (validated : List ValidatedRepository)
  /-- The repositories that are still to be stored. -/
  | storing (rest : List ValidatedRepository)
  /-- Before a page of a list of the repository. -/
  | paging (repo : ValidatedRepository) (rest : List ValidatedRepository)
      (resourceType : ResourceType) (page : Nat)
  /-- In a handler. -/
  | failing (e : Fault)
  | returned
  | raised
  /-- The process has ended, or the database has. -/
  | stopped
deriving DecidableEq

/-- A snapshot that was stored or found, under the key of its identity. -/
structure Observation where
  key : String × String
  snapshot : Snapshot
deriving DecidableEq

structure Refresh where
  runId : Uuid
  accountId : Uuid
  capturedRevision : Nat
  expireOnCommit : Bool
  /-- The account as the session has loaded it. -/
  loaded : Option ConnectorAccount := none
  identity : String := ""
  names : List String := []
  accepted : Nat := 0
  incomplete : Bool := false
  /-- What was observed, the latest last. -/
  observed : List Observation := []
  /-- The lists that were read to their end. -/
  consumed : List (String × ResourceType) := []
  phase : SyncPhase := .authorizing
deriving DecidableEq

structure SyncState where
  db : Store := {}
  refreshes : List Refresh := []
deriving DecidableEq

structure GitHubPage where
  value : Json
  mayHaveMore : Bool := false

/-- Whether a handler knows the fault. -/
def Fault.isHandled : Fault → Bool
  | .transport _ | .credential _ => true
  | .database _ | .other => false

def Refresh.fault (r : Refresh) (e : Fault) : Refresh :=
  { r with phase := if e.isHandled then .failing e else .raised }

def accountDrift : Fault := .transport "account_revision_drift"

/-- `get_account`: what the session has loaded is not read again. -/
def Refresh.account? (r : Refresh) (db : Store) : Option ConnectorAccount :=
  r.loaded.or (db.account? r.accountId)

/-- What the session knows after a transaction that looked at the account. -/
def Refresh.committed (r : Refresh) (account : ConnectorAccount) : Refresh :=
  { r with loaded := if r.expireOnCommit then none else some account }

variable (p : Platform)

/-- Whether the account is what it was when the run was claimed. -/
def captured (account : ConnectorAccount) (run : ConnectorSyncRun) : Bool :=
  decide (account.lifecycle = .enabled) && account.revision == run.accountRevision &&
    account.projectId == run.projectId && account.externalAccountId == run.externalAccountId &&
    account.externalAccountFingerprint == externalFingerprint p account.externalAccountId &&
    account.grantedScopeFingerprint == grantedScopeFingerprint p applicationReadPolicy

/-- `_captured_account`. -/
def capturedAccount (db : Store) (r : Refresh) (run : ConnectorSyncRun) :
    Except Fault ConnectorAccount :=
  match r.account? db with
  | some account => if captured p account run then .ok account else .error accountDrift
  | none => .error accountDrift

/-- The row of the run at work. -/
def currentRun (db : Store) (r : Refresh) : Except Fault ConnectorSyncRun :=
  match db.run? r.runId with
  | some run => .ok run
  | none => .error .other

/-- `ensure_deadline`. -/
def checkDeadline (late : Bool) : Except Fault Unit :=
  if late then .error (.transport "github_deadline_ceiling") else .ok ()

/-- Where a refresh has got to. -/
structure Progress where
  db : Store
  refresh : Refresh

/-! ### Before anything is stored -/

def checkReference (account : ConnectorAccount) : Except Fault Unit :=
  if validCredentialReference account.credentialReference then .ok () else .error .other

/-- The secret is read, and a transport made. -/
def authorize (db : Store) (r : Refresh) (secret transport : Except Fault Unit) (late : Bool) :
    Except Fault Progress := do
  let run ← currentRun db r
  let account ← capturedAccount p db r run
  checkReference account
  secret
  transport
  checkDeadline late
  return {
    db := db
    refresh := { r with
      identity := account.externalAccountId
      names := account.resourceAllowlist
      phase := .starting } }

def start (db : Store) (r : Refresh) (now : Instant) : Except Fault Progress := do
  let run ← currentRun db r
  let account ← capturedAccount p db r run
  let db ← db.putRun { run with status := .running, startedAt := some now }
  return { db := db, refresh := { r.committed account with phase := .identifying } }

def checkLogin (r : Refresh) (login : String) : Except Fault Unit :=
  if p.casefold login = p.casefold r.identity then .ok () else .error identityMismatch

def identify (db : Store) (r : Refresh) (late : Bool) (user : Except Fault Json) :
    Except Fault Progress := do
  checkDeadline late
  let user ← user
  let user ← requiredDict user
  let login ← string (user.field? "login")
  checkLogin p r login
  return { db := db, refresh := { r with phase := .validating r.names [] } }

/-- The next repository is asked for. -/
def validate (db : Store) (r : Refresh) (name : String) (names : List String)
    (validated : List ValidatedRepository) (late : Bool) (answer : Except Fault Json) :
    Except Fault Progress := do
  checkDeadline late
  let run ← currentRun db r
  let account ← capturedAccount p db r run
  let data ← answer
  let (repoId, snapshot) ← repositorySnapshot p data name
  return {
    db := db
    refresh := { r.committed account with
      phase := .validating names (validated ++ [⟨name, repoId, snapshot⟩]) } }

def ConnectorAccount.confirmed (account : ConnectorAccount) (now : Instant) : ConnectorAccount :=
  { account with validationStatus := .valid, lastValidatedAt := some now }

/-- Only what changes of the account the session has loaded is written. -/
def confirmAccount (db : Store) (account : ConnectorAccount) (now : Instant) :
    Except Fault Store :=
  match db.account? account.id with
  | some row =>
      db.putAccount { row with
        validationStatus := if account.validationStatus = .valid then row.validationStatus else .valid
        lastValidatedAt := some now }
  | none => .error .other

def confirm (db : Store) (r : Refresh) (validated : List ValidatedRepository) (late : Bool)
    (now : Instant) : Except Fault Progress := do
  checkDeadline late
  let run ← currentRun db r
  let account ← capturedAccount p db r run
  let db ← confirmAccount db account now
  return { db := db, refresh := { r.committed (account.confirmed now) with phase := .storing validated } }

/-! ### Pages -/

/-- The item that a snapshot is stored as. -/
def snapshotItem (run : ConnectorSyncRun) (repoId : Nat) (resourceType : ResourceType)
    (now : Instant) (snapshot : Snapshot) (id : Uuid) : ExternalItem :=
  { id := id
    identity := ⟨run.accountId, resourceId repoId, snapshot.itemId⟩
    externalAccountId := run.externalAccountId
    resourceType := resourceType
    providerSourceVersion := snapshot.version
    title := snapshot.title
    body := snapshot.body
    contentHash := snapshotContentHash p snapshot.title snapshot.body
    applicationRevision := 1
    projectId := run.projectId
    createdSyncRunId := run.id
    lastSeenSyncRunId := run.id
    firstSeenAt := now
    lastSeenAt := now }

/-- The items of a page are recorded one after the other, the `n`-th with the
`n`-th identifier. The number is how many were created. -/
def recordAll (now : Instant) : List ExternalItem → Store → Except Fault (Store × Nat)
  | [], db => .ok (db, 0)
  | item :: rest, db => do
      let (db, created) ← recordItemRevision p db item now
      let (db, more) ← recordAll now rest db
      return (db, more + if created then 1 else 0)

def pageItems (run : ConnectorSyncRun) (repoId : Nat) (resourceType : ResourceType)
    (now : Instant) (snapshots : List Snapshot) (ids : Nat → Uuid) : List ExternalItem :=
  snapshots.zipIdx.map fun (snapshot, n) =>
    snapshotItem p run repoId resourceType now snapshot (ids n)

/-- The run with what a page has added to its counters. -/
def ConnectorSyncRun.counting (run : ConnectorSyncRun) (items created : Nat) : ConnectorSyncRun :=
  { run with
    itemsSeen := run.itemsSeen + items
    itemsCreated := run.itemsCreated + created
    itemsUnchanged := run.itemsUnchanged + (items - created) }

def checkAllowed (account : ConnectorAccount) (name : String) : Except Fault Unit :=
  if p.casefold name ∈ account.resourceAllowlist.map p.casefold then .ok ()
  else .error accountDrift

/-- A repository keeps its number. -/
def checkSameRepository (db : Store) (r : Refresh) (repo : ValidatedRepository)
    (resourceType : ResourceType) : Except Fault Unit :=
  if resourceType = .repository ∧ (latestRepositorySnapshot p db r.accountId repo.name).any
      (fun prior => prior.identity.externalResourceId != resourceId repo.repoId) then
    .error identityMismatch
  else .ok ()

def Refresh.observing (r : Refresh) (repoId : Nat) (snapshots : List Snapshot) : Refresh :=
  { r with
    observed := r.observed ++
      snapshots.map fun snapshot => ⟨(resourceId repoId, snapshot.itemId), snapshot⟩
    accepted := r.accepted + snapshots.length }

/-- `_persist_page`. -/
def persistPage (db : Store) (r : Refresh) (repo : ValidatedRepository)
    (resourceType : ResourceType) (snapshots : List Snapshot) (now : Instant)
    (ids : Nat → Uuid) : Except Fault Progress := do
  let run ← currentRun db r
  let account ← capturedAccount p db r run
  checkAllowed p account repo.name
  checkSameRepository p db r repo resourceType
  let (db, created) ← recordAll p now (pageItems p run repo.repoId resourceType now snapshots ids) db
  let db ← db.putRun (run.counting snapshots.length created)
  return { db := db, refresh := (r.committed account).observing repo.repoId snapshots }

def storeRepository (db : Store) (r : Refresh) (repo : ValidatedRepository)
    (rest : List ValidatedRepository) (late : Bool) (now : Instant) (ids : Nat → Uuid) :
    Except Fault Progress := do
  checkDeadline late
  let done ← persistPage p db r repo .repository [repo.snapshot] now ids
  return { done with refresh := { done.refresh with phase := .paging repo rest .issue 1 } }

def checkCeiling (r : Refresh) (snapshots : List Snapshot) : Except Fault Unit :=
  if maxAcceptedItems < r.accepted + snapshots.length then
    .error (.transport "github_item_ceiling")
  else .ok ()

/-- After the last page of a list comes the next list or the next repository. -/
def Refresh.turned (r : Refresh) (repo : ValidatedRepository) (rest : List ValidatedRepository)
    (resourceType : ResourceType) (page : Nat) (mayHaveMore : Bool) : Refresh :=
  let after : SyncPhase :=
    if resourceType = .issue then .paging repo rest .pullRequest 1 else .storing rest
  if ¬ mayHaveMore then
    { r with consumed := (repo.name, resourceType) :: r.consumed, phase := after }
  else if page < maxDataPages then { r with phase := .paging repo rest resourceType (page + 1) }
  else { r with incomplete := true, phase := after }

/-- The account is looked at before the page is asked for and again when it is
stored. Nothing is written in between. -/
def readPage (db : Store) (r : Refresh) (repo : ValidatedRepository)
    (rest : List ValidatedRepository) (resourceType : ResourceType) (page : Nat)
    (late late' : Bool) (answer : Except Fault GitHubPage) (now : Instant) (ids : Nat → Uuid) :
    Except Fault Progress := do
  checkDeadline late
  let run ← currentRun db r
  let _ ← capturedAccount p db r run
  let answer ← answer
  checkDeadline late'
  let snapshots ← listSnapshots answer.value resourceType repo.repoId
  checkCeiling r snapshots
  let done ← persistPage p db r repo resourceType snapshots now ids
  return { done with refresh := done.refresh.turned repo rest resourceType page answer.mayHaveMore }

/-! ### The end -/

/-- `_finish`. -/
def ConnectorSyncRun.finish (run : ConnectorSyncRun) (status : SyncStatus)
    (error : Option String) (complete : Bool) (now : Instant) : ConnectorSyncRun :=
  { run with
    status := status
    safeErrorCode := error
    reconciliationComplete := complete
    completedAt := some now }

def finishIncomplete (db : Store) (r : Refresh) (completedAt : Instant) :
    Except Fault Progress := do
  let run ← currentRun db r
  let db ← db.putRun
    (run.finish .incomplete (some "github_pagination_ceiling") false completedAt)
  return { db := db, refresh := { r with phase := .returned } }

def Refresh.observedKeys (r : Refresh) : List (String × String) := r.observed.map (·.key)

def finishComplete (db : Store) (r : Refresh) (reconciledAt completedAt : Instant) :
    Except Fault Progress := do
  let run ← currentRun db r
  let _ ← capturedAccount p db r run
  let db ← reconcileLatestItems db run r.observedKeys reconciledAt
  let db ← db.putRun (run.finish .succeeded none true completedAt)
  return { db := db, refresh := { r with phase := .returned } }

/-- An identity failure disables the account, unless it was changed since. -/
def fenceAccount (db : Store) (r : Refresh) (code : String) : Except Fault Store :=
  match db.account? r.accountId with
  | some account =>
      if code ∈ identityFailures ∧ account.revision = r.capturedRevision then
        db.putAccount { account with
          lifecycle := .disabled
          validationStatus := .invalid
          lastValidatedAt := none
          revision := account.revision + 1 }
      else .ok db
  | none => .ok db

def failureStatus (code : String) : SyncStatus :=
  if code ∈ ceilingCodes then .incomplete else .failed

/-- The handlers. -/
def closeRun (db : Store) (r : Refresh) (now : Instant) : Fault → Except Fault Store
  | .credential code => do
      let run ← currentRun db r
      db.putRun (run.finish .failed (some code) false now)
  | .transport code => do
      let db ← fenceAccount db r code
      let run ← currentRun db r
      db.putRun (run.finish (failureStatus code) (some code) false now)
  | e => .error e

/-! ## The machine -/

/-- A part of the protected body of a refresh. -/
inductive SyncCall where
  | authorize (secret transport : Except Fault Unit) (late : Bool)
  | start (now : Instant)
  | identify (late : Bool) (user : Except Fault Json)
  | validate (late : Bool) (answer : Except Fault Json)
  | confirm (late : Bool) (now : Instant)
  | storeRepository (late : Bool) (now : Instant) (ids : Nat → Uuid)
  | readPage (late late' : Bool) (answer : Except Fault GitHubPage) (now : Instant)
      (ids : Nat → Uuid)
  | finish (reconciledAt completedAt : Instant)

/-- Something an operator asks for. -/
inductive AccountEdit where
  | addProject (id : Uuid)
  | create (request : ConnectorAccountCreate) (id : Uuid) (now : Instant)
  | update (accountId : Uuid) (request : ConnectorAccountUpdate)
  | setLifecycle (accountId : Uuid) (expectedRevision : Nat) (target : Lifecycle)

inductive SyncLabel where
  | edit (edit : AccountEdit)
  | claim (accountId : Uuid) (expectedRevision : Nat) (kind : TriggerKind) (identity : String)
      (now : Instant) (id : Uuid)
  /-- A process takes up a scheduled run. -/
  | resume (runId : Uuid)
  | call (pid : Nat) (call : SyncCall)
  | settle (pid : Nat) (now : Instant)
  | stop (pid : Nat)

def applyEdit (db : Store) : AccountEdit → Except ServiceError Store
  | .addProject id => .ok { db with projects := db.projects ++ [id] }
  | .create request id now => createAccount p db request id now
  | .update accountId request => updateAccount p db accountId request
  | .setLifecycle accountId expectedRevision target =>
      setLifecycle db accountId expectedRevision target

/-- A refresh of the run, by an operator's request or by the scheduler. -/
def Refresh.of (run : ConnectorSyncRun) : Refresh :=
  { runId := run.id
    accountId := run.accountId
    capturedRevision := run.accountRevision
    expireOnCommit := run.triggerKind == .scheduled }

/-- What the call comes to, if it is the one that is due. -/
def attempt (db : Store) (r : Refresh) : SyncCall → Option (Except Fault Progress)
  | .authorize secret transport late =>
      if r.phase = .authorizing then some (authorize p db r secret transport late) else none
  | .start now => if r.phase = .starting then some (start p db r now) else none
  | .identify late user =>
      if r.phase = .identifying then some (identify p db r late user) else none
  | .validate late answer =>
      match r.phase with
      | .validating (name :: names) validated =>
          some (validate p db r name names validated late answer)
      | _ => none
  | .confirm late now =>
      match r.phase with
      | .validating [] validated => some (confirm p db r validated late now)
      | _ => none
  | .storeRepository late now ids =>
      match r.phase with
      | .storing (repo :: rest) => some (storeRepository p db r repo rest late now ids)
      | _ => none
  | .readPage late late' answer now ids =>
      match r.phase with
      | .paging repo rest resourceType page =>
          some (readPage p db r repo rest resourceType page late late' answer now ids)
      | _ => none
  | .finish reconciledAt completedAt =>
      if r.phase = .storing [] then
        some (if r.incomplete then finishIncomplete db r completedAt
          else finishComplete p db r reconciledAt completedAt)
      else none

/-- What is left of a call: all of it, or a fault and nothing written. -/
def SyncState.conclude (s : SyncState) (pid : Nat) (r : Refresh) :
    Except Fault Progress → SyncState
  | .ok done => { db := done.db, refreshes := s.refreshes.set pid done.refresh }
  | .error e => { s with refreshes := s.refreshes.set pid (r.fault e) }

/-- A handler closes the run, or raises. -/
def SyncState.settle (s : SyncState) (pid : Nat) (r : Refresh) (e : Fault) (now : Instant) :
    SyncState :=
  match closeRun s.db r now e with
  | .ok db => { db := db, refreshes := s.refreshes.set pid { r with phase := .returned } }
  | .error _ => { s with refreshes := s.refreshes.set pid { r with phase := .raised } }

def SyncPhase.isOver : SyncPhase → Bool
  | .returned | .raised | .stopped => true
  | _ => false

def Sync.step (s : SyncState) : SyncLabel → Option SyncState
  | .edit edit =>
      match applyEdit p s.db edit with
      | .ok db => some { s with db := db }
      | .error _ => none
  | .claim accountId expectedRevision kind identity now id =>
      match claimWithTrigger p s.db accountId expectedRevision kind identity now id with
      | .ok (db, run) =>
          -- the scheduler commits before it looks at the run again
          some { db := db
                 refreshes := if kind = .manual then s.refreshes ++ [Refresh.of run]
                   else s.refreshes }
      | .error _ => none
  | .resume runId =>
      match s.db.run? runId with
      | some run =>
          if run.triggerKind = .scheduled then
            some { s with refreshes := s.refreshes ++ [Refresh.of run] }
          else none
      | none => none
  | .call pid call => do
      let r ← s.refreshes[pid]?
      let outcome ← attempt p s.db r call
      return s.conclude pid r outcome
  | .settle pid now =>
      match s.refreshes[pid]? with
      | some r =>
          match r.phase with
          | .failing e => some (s.settle pid r e now)
          | _ => none
      | none => none
  | .stop pid =>
      match s.refreshes[pid]? with
      | some r =>
          if r.phase.isOver then none
          else some { s with refreshes := s.refreshes.set pid { r with phase := .stopped } }
      | none => none

def Sync.machine : Machine SyncState SyncLabel where
  start s := s = {}
  next := Sync.step p

end Connectors

end SecondBrain
