import SecondBrain.Connectors.Repository

/-!
# Accounts and claims

An account is created disabled, is configured while it is disabled and not being
read, and goes between disabled and enabled until it is revoked. Every change
moves its revision on. A refresh is claimed for one revision of an enabled
account, with the scope the account has then.
-/

namespace SecondBrain

open Lib

namespace Connectors

variable (p : Platform)

/-! ## Accounts -/

inductive ServiceError where
  | notFound
  | projectNotFound
  | revisionConflict
  | transitionConflict
  | configurationConflict
  | definition
  | database
deriving DecidableEq, Repr

structure ConnectorAccountCreate where
  externalAccountIdentity : String
  credentialReference : String
  scope : Option Uuid
  repositories : List String

structure ConnectorAccountUpdate where
  expectedRevision : Nat
  scope : Option (Option Uuid)
  repositories : Option (List String)

/-- `_project_id`. -/
def checkProject (db : Store) (scope : Option Uuid) : Except ServiceError Unit :=
  if scope.all (db.projects.contains ·) then .ok () else .error .projectNotFound

/-- `_repositories`: sorted, and no two differ in case only. -/
def repositories (values : List String) : Except ServiceError (List String) :=
  let result := values.insertionSort fun a b => p.casefold a ≤ p.casefold b
  if (result.map p.casefold).Nodup ∧ 1 ≤ result.length ∧ result.length ≤ 32 ∧ result.Nodup ∧
      result.all fun value => validResource value && safe value then .ok result
  else .error .definition

def checkAccount (account : ConnectorAccount) : Except ServiceError Unit :=
  if validAccountValues account then .ok () else .error .definition

def Store.addAccount (db : Store) (account : ConnectorAccount) : Except ServiceError Store :=
  match db.insertAccount account with
  | .ok db => .ok db
  | .error _ => .error .database

def createAccount (db : Store) (request : ConnectorAccountCreate) (id : Uuid) (now : Instant) :
    Except ServiceError Store := do
  let allowlist ← repositories p request.repositories
  checkProject db request.scope
  let account : ConnectorAccount :=
    { id := id
      externalAccountId := request.externalAccountIdentity
      externalAccountFingerprint := externalFingerprint p request.externalAccountIdentity
      credentialReference := request.credentialReference
      projectId := request.scope
      resourceAllowlist := allowlist
      grantedScopeFingerprint := grantedScopeFingerprint p applicationReadPolicy
      createdAt := now }
  checkAccount account
  db.addAccount account

/-- `_lock_expected`. -/
def lockExpected (db : Store) (accountId : Uuid) (expectedRevision : Nat) :
    Except ServiceError ConnectorAccount :=
  match db.account? accountId with
  | none => .error .notFound
  | some account =>
      if account.revision = expectedRevision then .ok account else .error .revisionConflict

def checkConfigurable (db : Store) (account : ConnectorAccount) : Except ServiceError Unit :=
  if account.lifecycle = .disabled ∧ ¬ db.hasActiveSyncRun account.id then .ok ()
  else .error .configurationConflict

def Store.replaceAccount (db : Store) (account : ConnectorAccount) : Store :=
  { db with accounts := replace (·.id) account db.accounts }

def updatedAllowlist (account : ConnectorAccount) :
    Option (List String) → Except ServiceError (List String)
  | none => .ok account.resourceAllowlist
  | some values => repositories p values

def updateAccount (db : Store) (accountId : Uuid) (request : ConnectorAccountUpdate) :
    Except ServiceError Store := do
  let account ← lockExpected db accountId request.expectedRevision
  checkConfigurable db account
  let scope := request.scope.getD account.projectId
  checkProject db (request.scope.getD none)
  let allowlist ← updatedAllowlist p account request.repositories
  return db.replaceAccount
    { account with
      projectId := scope
      resourceAllowlist := allowlist
      validationStatus := .unvalidated
      lastValidatedAt := none
      revision := account.revision + 1 }

def allowedTransition : Lifecycle → Lifecycle → Bool
  | .enabled, .disabled | .disabled, .enabled | .disabled, .revoked | .enabled, .revoked => true
  | _, _ => false

def checkTransition (account : ConnectorAccount) (target : Lifecycle) : Except ServiceError Unit :=
  if allowedTransition account.lifecycle target then .ok () else .error .transitionConflict

def ConnectorAccount.withLifecycle (account : ConnectorAccount) (target : Lifecycle) :
    ConnectorAccount :=
  { account with
    lifecycle := target
    validationStatus := if target = .revoked then .revoked else account.validationStatus
    lastValidatedAt := if target = .revoked then none else account.lastValidatedAt
    revision := account.revision + 1 }

def setLifecycle (db : Store) (accountId : Uuid) (expectedRevision : Nat) (target : Lifecycle) :
    Except ServiceError Store := do
  let account ← lockExpected db accountId expectedRevision
  checkTransition account target
  return db.replaceAccount (account.withLifecycle target)

/-! ## Claims -/

inductive ClaimError where
  | notFound
  | revisionConflict
  | conflict
  | capacity
  | other
deriving DecidableEq, Repr

def globalActiveSyncCap : Nat := 4

def lockRevision (db : Store) (accountId : Uuid) (expectedRevision : Nat) :
    Except ClaimError ConnectorAccount :=
  match db.account? accountId with
  | none => .error .notFound
  | some account =>
      if account.revision = expectedRevision then .ok account else .error .revisionConflict

/-- What an account has to be for a refresh. -/
def claimable (account : ConnectorAccount) : Bool :=
  decide (account.lifecycle = .enabled) && validAccountValues account &&
    account.externalAccountFingerprint == externalFingerprint p account.externalAccountId &&
    account.grantedScopeFingerprint == grantedScopeFingerprint p applicationReadPolicy &&
    decide (account.resourceAllowlist.map p.casefold).Nodup

def checkClaimable (db : Store) (account : ConnectorAccount) : Except ClaimError Unit :=
  if ¬ claimable p account ∨ db.hasActiveSyncRun account.id then .error .conflict
  else if globalActiveSyncCap ≤ db.activeSyncCount then .error .capacity
  else .ok ()

/-- The row of a run that is claimed. -/
def claimedRun (account : ConnectorAccount) (kind : TriggerKind) (identity : String)
    (now : Instant) (id : Uuid) : ConnectorSyncRun :=
  { id := id
    accountId := account.id
    externalAccountId := account.externalAccountId
    accountRevision := account.revision
    projectId := account.projectId
    triggerKind := kind
    triggerIdentity := identity
    createdAt := now }

def Store.addRun (db : Store) (run : ConnectorSyncRun) : Except ClaimError Store :=
  match createSyncRun db run with
  | .ok db => .ok db
  | .error (.database .integrity) => .error .conflict
  | .error _ => .error .other

/-- `claim_with_trigger`. The lock on the capacity makes it one step. -/
def claimWithTrigger (db : Store) (accountId : Uuid) (expectedRevision : Nat)
    (kind : TriggerKind) (identity : String) (now : Instant) (id : Uuid) :
    Except ClaimError (Store × ConnectorSyncRun) := do
  let account ← lockRevision db accountId expectedRevision
  checkClaimable p db account
  let run := claimedRun account kind identity now id
  let db ← db.addRun run
  return (db, run)

end Connectors

end SecondBrain
