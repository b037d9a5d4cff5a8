import SecondBrain.Lib.Latest
import SecondBrain.Lib.Outcome
import SecondBrain.Connectors.Snapshots

/-!
# The connector tables

Rows are written under the checks of their tables, and a transaction that breaks
one is undone. A snapshot is stored as the next revision of its identity, unless
one of its revisions has that version and that digest already: then nothing is
written. Once a refresh has read everything, the latest revisions in its scope
are marked by whether it saw their identity.
-/

namespace SecondBrain

open Lib

namespace Connectors

def integrity : Fault := .database .integrity

/-! ## Accounts -/

/-- The check of `connector_accounts` on the times. What the service has validated
meets the others. -/
def ConnectorAccount.ordered (account : ConnectorAccount) : Bool :=
  account.lastValidatedAt.all fun t => decide (account.createdAt ≤ t)

def Store.putAccount (db : Store) (account : ConnectorAccount) : Except Fault Store :=
  if account.ordered then .ok { db with accounts := replace (·.id) account db.accounts }
  else .error integrity

/-- `create_account`, after its validation. -/
def Store.insertAccount (db : Store) (account : ConnectorAccount) : Except Fault Store :=
  if db.accounts.any (fun a => a.id == account.id ||
      a.externalAccountId == account.externalAccountId ||
      a.credentialReference == account.credentialReference) then .error integrity
  else .ok { db with accounts := db.accounts ++ [account] }

/-! ## Sync runs -/

/-- The checks of `connector_sync_runs`. -/
structure ConnectorSyncRun.Checked (run : ConnectorSyncRun) : Prop where
  trigger : safeCode run.triggerIdentity = true
  counts : run.itemsSeen ≤ 100000 ∧ run.itemsCreated ≤ 100000 ∧ run.itemsUnchanged ≤ 100000
  error : ∀ code ∈ run.safeErrorCode, safeCode code = true
  completion : run.status.isTerminal = run.completedAt.isSome
  reconciliation : run.reconciliationComplete = true → run.status = .succeeded
  order : ∀ t ∈ run.completedAt, run.createdAt ≤ t

def ConnectorSyncRun.checked (run : ConnectorSyncRun) : Bool :=
  safeCode run.triggerIdentity &&
    decide (run.itemsSeen ≤ 100000 ∧ run.itemsCreated ≤ 100000 ∧ run.itemsUnchanged ≤ 100000) &&
    run.safeErrorCode.all safeCode && (run.status.isTerminal == run.completedAt.isSome) &&
    decide (run.reconciliationComplete = true → run.status = .succeeded) &&
    run.completedAt.all fun t => decide (run.createdAt ≤ t)

theorem ConnectorSyncRun.checked_iff {run : ConnectorSyncRun} :
    run.checked = true ↔ run.Checked := by
  unfold ConnectorSyncRun.checked
  simp only [Bool.and_eq_true, decide_eq_true_eq, Option.all_eq_true, beq_iff_eq]
  constructor
  · intro h
    obtain ⟨⟨⟨⟨⟨h₁, h₂⟩, h₃⟩, h₄⟩, h₅⟩, h₆⟩ := h
    exact ⟨h₁, h₂, h₃, h₄, h₅, h₆⟩
  · intro h
    exact ⟨⟨⟨⟨⟨h.trigger, h.counts⟩, h.error⟩, h.completion⟩, h.reconciliation⟩, h.order⟩

def Store.replaceRun (db : Store) (run : ConnectorSyncRun) : Store :=
  { db with runs := replace (·.id) run db.runs }

def Store.putRun (db : Store) (run : ConnectorSyncRun) : Except Fault Store :=
  if run.checked then .ok (db.replaceRun run) else .error integrity

/-- `has_active_sync_run`. -/
def Store.hasActiveSyncRun (db : Store) (accountId : Uuid) : Bool :=
  db.runs.any fun r => r.accountId == accountId && r.isActive

/-- `active_sync_count`. -/
def Store.activeSyncCount (db : Store) : Nat := db.runs.countP (·.isActive)

/-- `create_sync_run`. No account has two active runs. -/
def createSyncRun (db : Store) (run : ConnectorSyncRun) : Except Fault Store :=
  match db.account? run.accountId with
  | some account =>
      if ¬ safeCode run.triggerIdentity ∨ account.externalAccountId ≠ run.externalAccountId ∨
          (run.accountRevision, run.projectId) ≠ (account.revision, account.projectId) then
        .error .other
      else if run.checked ∧ run.id ∉ db.runs.map (·.id) ∧
          ¬ (run.isActive ∧ db.hasActiveSyncRun run.accountId) then
        .ok { db with runs := db.runs ++ [run] }
      else .error integrity
  | none => .error .other

/-! ## Items -/

def Store.revisions (db : Store) (identity : Identity) : List ExternalItem :=
  db.items.filter (·.identity == identity)

def ItemRevision.texts (item : ItemRevision) : List String :=
  [item.identity.externalResourceId, item.identity.externalItemId, item.providerSourceVersion,
    item.title, item.body]

/-- Whether the text of the provider is within its limits. -/
def ItemRevision.valid (item : ItemRevision) : Bool :=
  (validateItemValues item.identity.externalResourceId item.identity.externalItemId
    item.providerSourceVersion item.title item.body).isOk

/-- The check of `external_items` on the times. -/
def ExternalItem.ordered (item : ExternalItem) : Bool := decide (item.firstSeenAt ≤ item.lastSeenAt)

def ItemRevision.sameContent (item other : ItemRevision) : Bool :=
  item.providerSourceVersion == other.providerSourceVersion &&
    item.contentHash == other.contentHash

/-- A row is inserted under the checks and the keys of `external_items`. -/
def Store.insertItem (db : Store) (row : ExternalItem) : Except Fault Store :=
  if row.texts.any hasNul then .error (.database .data)
  else if ¬ row.valid ∨ row.applicationRevision < 1 ∨ ¬ row.ordered ∨
      db.items.any (fun r => r.id == row.id || (r.identity == row.identity &&
        (r.applicationRevision == row.applicationRevision ||
          r.sameContent row.toItemRevision))) then
    .error integrity
  else .ok { db with items := db.items ++ [row] }

/-- What the run that found the item has to agree with. -/
def checkOwner (db : Store) (item : ExternalItem) : Except Fault Unit :=
  match db.run? item.createdSyncRunId with
  | some run =>
      if run.accountId = item.identity.accountId ∧
          (run.externalAccountId, run.projectId) = (item.externalAccountId, item.projectId) then
        .ok ()
      else .error .other
  | none => .error .other

def checkValues (p : Platform) (item : ExternalItem) : Except Fault Unit :=
  if item.valid ∧ item.contentHash = snapshotContentHash p item.title item.body then .ok ()
  else .error .other

def Store.latestRevision (db : Store) (identity : Identity) : Option ExternalItem :=
  latest (·.applicationRevision) (·.identity == identity) db.items

/-- The row of the next revision of the identity. -/
def nextRevision (db : Store) (item : ExternalItem) (seenAt : Instant) : ExternalItem :=
  let latest := db.latestRevision item.identity
  { item with
    applicationRevision := latest.elim 1 (·.applicationRevision + 1)
    firstSeenAt := latest.elim seenAt (·.firstSeenAt)
    lastSeenAt := seenAt }

/-- The revision with the content of the item, if there is one. -/
def Store.replayed? (db : Store) (item : ExternalItem) : Option ExternalItem :=
  (db.revisions item.identity).find? (·.sameContent item.toItemRevision)

/-- `record_item_revision`: whether a revision was created. -/
def recordItemRevision (p : Platform) (db : Store) (item : ExternalItem) (seenAt : Instant) :
    Except Fault (Store × Bool) := do
  checkValues p item
  checkOwner db item
  match db.replayed? item with
  | some _ => return (db, false)
  | none =>
      let db ← db.insertItem (nextRevision db item seenAt)
      return (db, true)

/-! ## Reconciliation -/

/-- Whether no later revision of the identity is stored. -/
def Store.isLatest (db : Store) (item : ExternalItem) : Bool :=
  db.items.all fun other =>
    !(other.identity == item.identity) || decide (other.applicationRevision ≤ item.applicationRevision)

def Identity.key (identity : Identity) : String × String :=
  (identity.externalResourceId, identity.externalItemId)

/-- The row with the state it has after the refresh. -/
def ExternalItem.reconciled (item : ExternalItem) (run : ConnectorSyncRun)
    (observed : List (String × String)) (reconciledAt : Instant) : ExternalItem :=
  let target := if item.identity.key ∈ observed then ItemState.current else .stale
  if item.state = target then item
  else if target = .current then
    { item with state := .current, lastSeenAt := reconciledAt, lastSeenSyncRunId := run.id }
  else { item with state := .stale }

/-- Whether the row is a latest one in the scope of the run. -/
def Store.inScope (db : Store) (run : ConnectorSyncRun) (item : ExternalItem) : Bool :=
  item.identity.accountId == run.accountId && item.projectId == run.projectId && db.isLatest item

/-- `reconcile_latest_items`. -/
def reconcileLatestItems (db : Store) (run : ConnectorSyncRun) (observed : List (String × String))
    (reconciledAt : Instant) : Except Fault Store :=
  let items := db.items.map fun item =>
    if db.inScope run item then item.reconciled run observed reconciledAt else item
  if items.all (·.ordered) then .ok { db with items := items } else .error integrity

/-- `latest_repository_snapshot`. -/
def latestRepositorySnapshot (p : Platform) (db : Store) (accountId : Uuid)
    (repositoryName : String) : Option ExternalItem :=
  latest (·.applicationRevision)
    (fun item => item.identity.accountId == accountId && item.resourceType == .repository &&
      p.lower item.title == p.casefold repositoryName) db.items

end Connectors

end SecondBrain
