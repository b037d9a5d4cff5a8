import SecondBrain.Lib.Table
import SecondBrain.Basic

/-!
# Connector rows

An account reads repositories of one external account for one project, or for
none. A refresh writes one sync run, and what it reads is kept apart from the
project as external items: each is one revision of something the provider knows
under an identity. What a revision says is written once. Whether it still stands
is kept beside it.
-/

namespace SecondBrain

open Lib

namespace Connectors

/-! ## Accounts -/

inductive Lifecycle where
  | disabled
  | enabled
  | revoked
deriving DecidableEq, Repr

inductive ValidationStatus where
  | unvalidated
  | valid
  | invalid
  | expired
  | revoked
deriving DecidableEq, Repr

structure ConnectorAccount where
  id : Uuid
  externalAccountId : String
  externalAccountFingerprint : String
  credentialReference : String
  /-- No project is a scope of its own. -/
  projectId : Option Uuid
  resourceAllowlist : List String
  grantedScopeFingerprint : String
  lifecycle : Lifecycle := .disabled
  validationStatus : ValidationStatus := .unvalidated
  revision : Nat := 0
  lastValidatedAt : Option Instant := none
  createdAt : Instant
deriving DecidableEq

/-! ## Runs -/

inductive SyncStatus where
  | claimed
  | running
  | succeeded
  | incomplete
  | failed
  | cancelled
deriving DecidableEq, Repr

def SyncStatus.isTerminal : SyncStatus → Bool
  | .succeeded | .incomplete | .failed | .cancelled => true
  | .claimed | .running => false

inductive TriggerKind where
  | manual
  | scheduled
deriving DecidableEq, Repr

structure ConnectorSyncRun where
  id : Uuid
  accountId : Uuid
  externalAccountId : String
  accountRevision : Nat
  projectId : Option Uuid
  triggerKind : TriggerKind
  triggerIdentity : String
  status : SyncStatus := .claimed
  itemsSeen : Nat := 0
  itemsCreated : Nat := 0
  itemsUnchanged : Nat := 0
  safeErrorCode : Option String := none
  reconciliationComplete : Bool := false
  createdAt : Instant
  startedAt : Option Instant := none
  completedAt : Option Instant := none
deriving DecidableEq

def ConnectorSyncRun.isActive (run : ConnectorSyncRun) : Bool := !run.status.isTerminal

/-! ## Items -/

inductive ResourceType where
  | repository
  | issue
  | pullRequest
deriving DecidableEq, Repr

inductive ItemState where
  | current
  | stale
  | deleted
deriving DecidableEq, Repr

/-- What is known under an identity. -/
structure Identity where
  accountId : Uuid
  externalResourceId : String
  externalItemId : String
deriving DecidableEq

/-- What is written once. -/
structure ItemRevision where
  id : Uuid
  identity : Identity
  externalAccountId : String
  resourceType : ResourceType
  providerSourceVersion : String
  title : String
  body : String
  contentHash : String
  applicationRevision : Nat
  projectId : Option Uuid
  createdSyncRunId : Uuid
  firstSeenAt : Instant
deriving DecidableEq

/-- A revision with its state, and the run that saw it last. -/
structure ExternalItem extends ItemRevision where
  state : ItemState := .current
  lastSeenSyncRunId : Uuid
  lastSeenAt : Instant
deriving DecidableEq

/-- The connector tables, and the projects there are. -/
structure Store where
  projects : List Uuid := []
  accounts : List ConnectorAccount := []
  runs : List ConnectorSyncRun := []
  items : List ExternalItem := []
deriving DecidableEq

def Store.account? (db : Store) (id : Uuid) : Option ConnectorAccount :=
  lookup (·.id) id db.accounts

def Store.run? (db : Store) (id : Uuid) : Option ConnectorSyncRun := lookup (·.id) id db.runs

/-! ## Faults -/

/-- What reading from the provider and storing can end in, besides an answer. -/
inductive Fault where
  /-- `GitHubTransportError`. -/
  | transport (code : String)
  /-- `CredentialStoreError`. -/
  | credential (code : String)
  | database (e : DatabaseError)
  /-- Any other exception. -/
  | other
deriving DecidableEq, Repr

end Connectors

end SecondBrain
