import SecondBrain.Calendar.Sync
import SecondBrain.Lib.Machine

/-!
# Calendar accounts

A configuration of an account is never changed: a write appends its next revision, with
calendars of its own. Which calendars another account has is looked up in the first hundred
of the latest revisions, newest first, and nowhere else. No two accounts share a calendar as
long as that page shows every account a request conflicts with (`calendars_unshared`); the
hundred and first account is past it (`oldest_calendar_shared`).
-/

namespace SecondBrain

open Lib

namespace Calendar

/-! ## The tables -/

structure AccountRow extends CalendarAccountRevision where
  createdAt : Instant
deriving DecidableEq

structure AccountTables where
  projects : List Uuid := []
  rows : List AccountRow := []
  identities : List CalendarIdentity := []

/-- Newer first, and of two of one instant the one with the greater identifier. -/
def accountKey (row : AccountRow) : Lex (Instant × ℕ) := toLex (row.createdAt, row.id.toNat)

namespace AccountTables

variable (t : AccountTables)

/-- The tables as a refresh reads them. -/
def store : Store :=
  { accounts := t.rows.map (·.toCalendarAccountRevision), identities := t.identities }

def calendarIds (row : AccountRow) : List String :=
  (t.identities.filter (·.accountRevisionId == row.id)).map (·.providerCalendarId)

/-- `_latest_query`. -/
def latestRows : List AccountRow :=
  t.rows.filter fun row => t.rows.all fun other =>
    other.configurationId != row.configurationId ||
      decide (other.configurationRevision ≤ row.configurationRevision)

def listAccounts (limit offset : Nat) : List AccountRow :=
  ((newestFirst accountKey t.latestRows).drop offset).take limit

end AccountTables

/-! ## The service -/

inductive AccountError where
  | notFound
  | revisionConflict
  | transitionConflict
  | projectNotFound
  | credential
  | definition
  | database (e : DatabaseError)
deriving DecidableEq, Repr

inductive CalendarScope where
  | project (id : Uuid)
  | unassigned
deriving DecidableEq, Repr

structure CalendarAccountCreate where
  credentialReference : String
  accountFingerprint : String
  scope : CalendarScope
  calendarIds : List String

structure CalendarAccountUpdate where
  expectedRevision : Nat
  scope : Option CalendarScope := none
  calendarIds : Option (List String) := none
  credentialReference : Option String := none

/-- What the credential store says of a reference. -/
structure Authorization where
  status : String
  credentialReference : String
  accountFingerprint : String
  generation : Int

/-- What a write draws: identifiers, and the time its transaction began. -/
structure Draws where
  id : Uuid
  configurationId : Uuid
  identityIds : Nat → Uuid
  now : Instant

section

variable (t : AccountTables)

/-- `_project_id`. -/
def projectIdOf : CalendarScope → Except AccountError (Option Uuid)
  | .unassigned => .ok none
  | .project id => if t.projects.contains id then .ok (some id) else .error .projectNotFound

/-- `_calendar_ids`. -/
def checkCalendarIds (values : List String) : Except AccountError (List String) :=
  if ¬ (1 ≤ values.length ∧ values.length ≤ 10) then .error .definition
  else if values.any fun value =>
      strip value = "" ∨ value ≠ strip value ∨ 4096 < value.utf8ByteSize then .error .definition
  else if ¬ values.Nodup then .error .definition
  else .ok (values.insertionSort (· ≤ ·))

/-- `_credential`. -/
def checkAuthorization (answer : Except Fault Authorization)
    (reference expectedFingerprint : String) : Except AccountError String :=
  if ¬ validCredentialReference reference then .error .credential
  else match answer with
    | .error _ => .error .credential
    | .ok status =>
        if status.status ≠ "authorized" ∨ status.credentialReference ≠ reference then
          .error .credential
        else if status.accountFingerprint ≠ expectedFingerprint then .error .credential
        else if status.generation < 1 then .error .credential
        else .ok reference

def getAccount (accountId : Uuid) : Except AccountError AccountRow :=
  match t.latestRows.find? (·.configurationId == accountId) with
  | none => .error .notFound
  | some row => .ok row

/-- `_ensure_unique`: one page of the listing is looked at. -/
def ensureUnique (calendarIds : List String) (accountId : Option Uuid) : Except AccountError Unit :=
  if (t.listAccounts 100 0).any fun account => accountId ≠ some account.configurationId ∧
      ∃ id ∈ t.calendarIds account, id ∈ calendarIds then .error .definition
  else .ok ()

/-- `^[0-9a-f]{64}$` -/
def fingerprintPattern (value : String) : Bool :=
  value.length == 64 && value.toList.all fun c => c.isDigit || decide ('a' ≤ c ∧ c ≤ 'f')

/-- The checks of `calendar_account_revisions` and `calendar_identities`. -/
def accountChecked (row : AccountRow) (calendarIds : List String) : Bool :=
  fingerprintPattern row.accountFingerprint &&
    validCredentialReference row.credentialReference && decide (1 ≤ row.configurationRevision) &&
    calendarIds.all fun id =>
      decide (1 ≤ id.length ∧ id.length ≤ 1024) && decide (id.utf8ByteSize ≤ 4096)

/-- The first revision of an account, or the one after `previous`. -/
def accountRevision (previous : Option AccountRow) (fingerprint reference : String)
    (projectId : Option Uuid) (lifecycle : Lifecycle) (draws : Draws) : AccountRow where
  id := draws.id
  configurationId := (previous.map (·.configurationId)).getD draws.configurationId
  configurationRevision := (previous.map (·.configurationRevision + 1)).getD 1
  accountFingerprint := fingerprint
  credentialReference := reference
  projectId := projectId
  lifecycle := lifecycle
  configurationState := if lifecycle = .revoked then .reauthorizationRequired else .configured
  createdAt := draws.now

def AccountRow.calendars (row : AccountRow) (calendarIds : List String) (draws : Draws) :
    List CalendarIdentity :=
  calendarIds.mapIdx fun i value => ⟨draws.identityIds i, row.id, row.accountFingerprint, value⟩

/-- `_append`. -/
def appendRevision (previous : Option AccountRow) (fingerprint reference : String)
    (projectId : Option Uuid) (lifecycle : Lifecycle) (calendarIds : List String) (draws : Draws) :
    Except AccountError AccountTables :=
  let row := accountRevision previous fingerprint reference projectId lifecycle draws
  let calendars := row.calendars calendarIds draws
  if 2 ^ 31 ≤ row.configurationRevision ∨ calendarIds.any hasNul then
    .error (.database .data)
  else if ¬ (accountChecked row calendarIds ∧
      addable t.store row.toCalendarAccountRevision calendars) then
    .error (.database .integrity)
  else .ok { t with rows := t.rows ++ [row], identities := t.identities ++ calendars }

def createAccount (request : CalendarAccountCreate) (answer : Except Fault Authorization)
    (draws : Draws) : Except AccountError AccountTables := do
  let ids ← checkCalendarIds request.calendarIds
  let reference ← checkAuthorization answer request.credentialReference request.accountFingerprint
  ensureUnique t ids none
  let projectId ← projectIdOf t request.scope
  appendRevision t none request.accountFingerprint reference projectId .enabled ids draws

/-- The calendars that are asked for, or those the account has: `or` takes an empty list for
none. -/
def requestedOr (requested : Option (List String)) (present : List String) : List String :=
  if requested.getD [] = [] then present else requested.getD []

def checkRevision (previous : AccountRow) (expectedRevision : Nat) : Except AccountError Unit :=
  if previous.configurationRevision = expectedRevision then .ok () else .error .revisionConflict

def checkTransition (allowed : Prop) [Decidable allowed] : Except AccountError Unit :=
  if allowed then .ok () else .error .transitionConflict

def updatedScope (previous : AccountRow) : Option CalendarScope → Except AccountError (Option Uuid)
  | none => .ok previous.projectId
  | some scope => projectIdOf t scope

def updateAccount (accountId : Uuid) (request : CalendarAccountUpdate)
    (answer : Except Fault Authorization) (draws : Draws) : Except AccountError AccountTables := do
  let previous ← getAccount t accountId
  checkRevision previous request.expectedRevision
  checkTransition (previous.lifecycle = .disabled)
  let ids ← checkCalendarIds (requestedOr request.calendarIds (t.calendarIds previous))
  let reference := if request.credentialReference.getD "" = "" then previous.credentialReference
    else request.credentialReference.getD ""
  let _ ← checkAuthorization answer reference previous.accountFingerprint
  ensureUnique t ids (some accountId)
  let projectId ← updatedScope t previous request.scope
  appendRevision t (some previous) previous.accountFingerprint reference projectId .disabled ids
    draws

/-- The credential is only asked for where the account is to be read again. -/
def checkEnabling (previous : AccountRow) (target : Lifecycle)
    (answer : Except Fault Authorization) : Except AccountError String :=
  if target = .enabled then
    checkAuthorization answer previous.credentialReference previous.accountFingerprint
  else .ok previous.credentialReference

def setLifecycle (accountId : Uuid) (expectedRevision : Nat) (target : Lifecycle)
    (answer : Except Fault Authorization) (draws : Draws) : Except AccountError AccountTables := do
  let previous ← getAccount t accountId
  checkRevision previous expectedRevision
  checkTransition ((previous.lifecycle = .enabled ∧ target = .disabled) ∨
    (previous.lifecycle = .disabled ∧ target = .enabled))
  let reference ← checkEnabling previous target answer
  appendRevision t (some previous) previous.accountFingerprint reference previous.projectId target
    (t.calendarIds previous) draws

def revoke (accountId : Uuid) (expectedRevision : Nat) (draws : Draws) :
    Except AccountError AccountTables := do
  let previous ← getAccount t accountId
  checkRevision previous expectedRevision
  checkTransition (previous.lifecycle ≠ .revoked)
  appendRevision t (some previous) previous.accountFingerprint previous.credentialReference
    previous.projectId .revoked (t.calendarIds previous) draws

end

/-! ## Runs of requests -/

inductive AccountCall where
  | create (request : CalendarAccountCreate) (answer : Except Fault Authorization) (draws : Draws)
  | update (accountId : Uuid) (request : CalendarAccountUpdate)
      (answer : Except Fault Authorization) (draws : Draws)
  | setLifecycle (accountId : Uuid) (expectedRevision : Nat) (target : Lifecycle)
      (answer : Except Fault Authorization) (draws : Draws)
  | revoke (accountId : Uuid) (expectedRevision : Nat) (draws : Draws)

def answerCall (t : AccountTables) : AccountCall → Except AccountError AccountTables
  | .create request answer draws => createAccount t request answer draws
  | .update accountId request answer draws => updateAccount t accountId request answer draws
  | .setLifecycle accountId expectedRevision target answer draws =>
      setLifecycle t accountId expectedRevision target answer draws
  | .revoke accountId expectedRevision draws => revoke t accountId expectedRevision draws

inductive AccountLabel where
  | call (c : AccountCall)
  /-- A project is added. -/
  | project (id : Uuid)

/-- Requests one after the other; one that is refused is rolled back. -/
def accounts : Machine AccountTables AccountLabel where
  start t := t = {}
  next
    | t, .call c => match answerCall t c with
        | .ok t' => some t'
        | .error _ => some t
    | t, .project id => some { t with projects := t.projects ++ [id] }

end Calendar

end SecondBrain
