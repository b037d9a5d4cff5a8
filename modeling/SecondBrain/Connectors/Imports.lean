import Mathlib.Data.List.MinMax
import SecondBrain.Lib.JsonMeasure
import SecondBrain.Lib.JsonReader
import SecondBrain.Connectors.Sync
import SecondBrain.Knowledge.Evidence
import SecondBrain.Knowledge.Library
import SecondBrain.Knowledge.Reads

/-!
# Imports of external items

An external item becomes a source when somebody has looked at its preview and confirms
it. The preview has a fingerprint of all that is shown, and the confirmation brings it
back. The request locks the row of the item, looks whether it still is the latest of its
identity, builds the preview again and compares. If the item was imported before, the
answer is that import, and otherwise a source with its document and its chunks is stored,
and the import that names both.

What is read of the repositories is not locked. A preview names the address of the item
at the provider once the first repository row of its project is known.
-/

namespace SecondBrain

open Lib

namespace Connectors

open Knowledge (Source SourceDocument SourceChunk SourceCreate SourceScope HttpError Draw
  ExternalContent IngestRequest Library LibraryLabel importText importRequest createSource
  writeDocument documentForScope databaseUnavailable)

open Calendar (strip)

/-! ## What an item says -/

/-- What the schema makes of a value of another kind than a field has. -/
structure Coercions where
  toBool : Json → Option Bool
  toInt : Json → Option Int

variable (c : Coercions)

def Coercions.bool : Json → Option Bool
  | .bool b => some b
  | value => c.toBool value

def Coercions.int : Json → Option Int
  | .int n => some n
  | value => c.toInt value

/-- `RepositoryExternalContent`. -/
def repositoryContent (value : Json) : Option ExternalContent := do
  let description ←
    match value.field? "description" with
    | some .null => some none
    | some (.str description) => some (some description)
    | _ => none
  let isPrivate ← (value.field? "private").bind c.bool
  let archived ← (value.field? "archived").bind c.bool
  return .repository description isPrivate archived

/-- `NumberedExternalContent`. -/
def numberedContent (isIssue : Bool) (value : Json) : Option ExternalContent := do
  let number ← (value.field? "number").bind c.int
  match value.field? "state", value.field? "body" with
  | some (.str state), some (.str body) =>
      if state = "open" ∨ state = "closed" then some (.numbered isIssue number state body) else none
  | _, _ => none

/-- `_content` of the query. -/
def content (item : ItemRevision) : Option ExternalContent :=
  match Json.loads item.body with
  | some (.obj fields) =>
      match item.resourceType with
      | .repository =>
          if Json.hasKeys fields ["archived", "description", "private"] then
            repositoryContent c (.obj fields)
          else none
      | .issue | .pullRequest =>
          if Json.hasKeys fields ["body", "number", "state"] then
            numberedContent c (item.resourceType == .issue) (.obj fields)
          else none
  | _ => none

/-! ## Its address -/

/-- `[A-Za-z0-9_.-]`. -/
def isNameChar (ch : Char) : Bool := isAlnum ch || "_.-".toList.contains ch

/-- `_REPOSITORY_RE`. -/
def isRepositoryName (name : String) : Bool :=
  let part := word isNameChar isNameChar 99
  match name.toList.span (· ≠ '/') with
  | (owner, _ :: name) => part owner && part name
  | (_, []) => false

/-- The rows of the repository of the item, in the project of the item. -/
def Store.repositoryRows (db : Store) (item : ItemRevision) : List ExternalItem :=
  db.items.filter fun row =>
    row.identity.accountId == item.identity.accountId &&
      row.identity.externalResourceId == item.identity.externalResourceId &&
      row.resourceType == .repository && row.projectId == item.projectId

/-- `_repository_name`. -/
def repositoryName (db : Store) (item : ItemRevision) : Option String :=
  (((db.repositoryRows item).argmin (·.applicationRevision)).map (·.title)).filter isRepositoryName

def addressOf (name : String) : ExternalContent → String
  | .repository .. => "https://github.com/" ++ name
  | .numbered isIssue number _ _ =>
      "https://github.com/" ++ name ++ (if isIssue then "/issues/" else "/pull/") ++ toString number

/-- `_source_url`. -/
def sourceUrl (db : Store) (item : ItemRevision) (content : ExternalContent) : Option String :=
  (repositoryName db item).map fun name => addressOf name content

/-! ## Previews -/

def ResourceType.value : ResourceType → String
  | .repository => "repository"
  | .issue => "issue"
  | .pullRequest => "pull_request"

structure ExternalItemImportPreview where
  accountId : Uuid
  externalItemRowId : Uuid
  externalResourceId : String
  externalItemId : String
  applicationRevision : Nat
  /-- The project of the scope, which is of no project otherwise. -/
  projectId : Option Uuid
  resourceType : ResourceType
  title : String
  normalizedText : String
  providerSourceVersion : String
  contentHash : String
  canonicalSourceUrl : Option String
  confirmationFingerprint : String
deriving DecidableEq

def conflict : HttpError := ⟨409, "external item import conflict"⟩

def itemNotFound : HttpError := ⟨404, "external item not found"⟩

def optionalText : Option String → Json
  | none => .null
  | some s => .str s

def scopePayload : Option Uuid → Json
  | none => .obj [("kind", .str "unassigned"), ("project_id", .null)]
  | some id => .obj [("kind", .str "project"), ("project_id", .str id.text)]

/-- What the fingerprint is taken of: everything that is shown, but for itself. -/
def fingerprintPayload (v : ExternalItemImportPreview) : Json :=
  .obj
    [("account_id", .str v.accountId.text),
      ("application_revision", .int v.applicationRevision),
      ("canonical_source_url", optionalText v.canonicalSourceUrl),
      ("content_hash", .str v.contentHash),
      ("domain", .str "second-brain:external-item-import:v1"),
      ("external_item_id", .str v.externalItemId),
      ("external_item_row_id", .str v.externalItemRowId.text),
      ("external_resource_id", .str v.externalResourceId),
      ("normalized_text", .str v.normalizedText),
      ("provider_source_version", .str v.providerSourceVersion),
      ("resource_type", .str v.resourceType.value),
      ("scope", scopePayload v.projectId),
      ("title", .str v.title),
      ("trust", .str "external_untrusted")]

variable (p : Platform)

/-- `_fingerprint`. -/
def fingerprint (v : ExternalItemImportPreview) : String :=
  p.sha256 (encode (fingerprintPayload v).dumps)

/-- The preview of an item that says this and has this address. -/
def previewOf (item : ItemRevision) (content : ExternalContent) (url : Option String) :
    ExternalItemImportPreview :=
  { accountId := item.identity.accountId
    externalItemRowId := item.id
    externalResourceId := item.identity.externalResourceId
    externalItemId := item.identity.externalItemId
    applicationRevision := item.applicationRevision
    projectId := item.projectId
    resourceType := item.resourceType
    title := item.title
    normalizedText := importText item.title content
    providerSourceVersion := item.providerSourceVersion
    contentHash := item.contentHash
    canonicalSourceUrl := url
    confirmationFingerprint := "0000000000000000000000000000000000000000000000000000000000000000" }

/-- `_preview_values`. -/
def previewValues (db : Store) (item : ItemRevision) :
    Except HttpError (ExternalContent × ExternalItemImportPreview) :=
  match content c item with
  | none => .error conflict
  | some said => .ok (said, previewOf item said (sourceUrl db item said))

/-! ## The item -/

/-- `_require_item`, up to the state of the row. -/
def scopedItem (db : Store) (accountId : Uuid) (scope : Option Uuid) (rowId : Uuid) :
    Except HttpError ExternalItem :=
  if (db.account? accountId).isNone then .error itemNotFound
  else
    match lookup (fun row : ExternalItem => row.id) rowId db.items with
    | none => .error itemNotFound
    | some item =>
        if item.identity.accountId ≠ accountId ∨ item.projectId ≠ scope then .error itemNotFound
        else if item.state ≠ .current then .error conflict
        else .ok item

/-- The rest of `_require_item`. -/
def requireLatest (db : Store) (item : ItemRevision) : Except HttpError Unit :=
  if (db.latestRevision item.identity).map (·.applicationRevision) = some item.applicationRevision then
    .ok ()
  else .error conflict

/-- `preview`. -/
def preview (db : Store) (accountId : Uuid) (scope : Option Uuid) (rowId : Uuid) :
    Except HttpError ExternalItemImportPreview := do
  let item ← scopedItem db accountId scope rowId
  requireLatest db item.toItemRevision
  let (_, values) ← previewValues c db item.toItemRevision
  return { values with confirmationFingerprint := fingerprint p values }

/-! ## Imports -/

structure ExternalItemImport where
  id : Uuid
  externalItemId : Uuid
  sourceDocumentId : Uuid
  confirmationFingerprint : String
  canonicalSourceUrl : Option String
deriving DecidableEq

structure ExternalItemImportConfirm where
  applicationRevision : Nat
  providerSourceVersion : String
  contentHash : String
  confirmationFingerprint : String
deriving DecidableEq

/-- A confirmation as the route has it. -/
structure Confirmation where
  accountId : Uuid
  scope : Option Uuid
  rowId : Uuid
  request : ExternalItemImportConfirm
deriving DecidableEq

structure ImportResult where
  provenance : ExternalItemImport
  source : Source
  document : SourceDocument
  chunkCount : Nat
  created : Bool
deriving DecidableEq

/-- The rest of an address after the name of its repository. -/
def isAddressTail : List Char → Bool
  | [] => true
  | rest =>
      let number := word (fun ch => decide ('1' ≤ ch ∧ ch ≤ '9')) Char.isDigit rest.length
      ("/issues/".toList.isPrefixOf rest && number (rest.drop 8)) ||
        ("/pull/".toList.isPrefixOf rest && number (rest.drop 6))

/-- The check of `external_item_imports` on an address. -/
def isCanonicalUrl (url : String) : Bool :=
  let path := url.toList.drop 19
  let (owner, rest) := path.span isNameChar
  let (name, tail) := (rest.drop 1).span isNameChar
  "https://github.com/".toList.isPrefixOf url.toList && !owner.isEmpty && rest.head? == some '/' &&
    !name.isEmpty && isAddressTail tail

/-- A row is inserted under the width, the check and the keys of `external_item_imports`. -/
def insertImport (imports : List ExternalItemImport) (row : ExternalItemImport) :
    Except HttpError (List ExternalItemImport) :=
  if row.canonicalSourceUrl.any fun url => decide (500 < url.length) then .error databaseUnavailable
  else if ¬ row.canonicalSourceUrl.all isCanonicalUrl ∨
      imports.any (fun x => x.id == row.id || x.externalItemId == row.externalItemId ||
        x.sourceDocumentId == row.sourceDocumentId) then
    .error conflict
  else .ok (imports ++ [row])

/-- The source an item is made. -/
def importSource (item : ItemRevision) (url : Option String) : SourceCreate :=
  let title := strip item.title
  let name := if title = "" then "GitHub " ++ item.resourceType.value else title
  { sourceType := "connector_import"
    name := String.ofList (name.toList.take 255)
    reference := url
    checksum := some item.contentHash }

/-- `hashlib.sha256` of a text. -/
def textHash : Knowledge.Sha256 := fun text => p.sha256 (encode text)

def internalServerError : HttpError := ⟨500, "Internal Server Error"⟩

/-- `confirm`, after no import of the item was found. -/
def importItem (db : Knowledge.Store) (imports : List ExternalItemImport) (d : Draw)
    (item : ItemRevision) (said : ExternalContent) (v : ExternalItemImportPreview) :
    Except HttpError (ImportResult × Knowledge.Store × List ExternalItemImport) :=
  let create := importSource item v.canonicalSourceUrl
  match importRequest (textHash p) (d.ids 0) item.title said with
  | none => .error internalServerError
  | some ingest =>
      match createSource db create (d.ids 0) d.now with
      | none => .error databaseUnavailable
      | some created => do
          let (_, stored) ← writeDocument created ingest none (fun n => d.ids (n + 3)) (d.ids 1) d.now
          let row : ExternalItemImport :=
            { id := d.ids 2
              externalItemId := item.id
              sourceDocumentId := d.ids 1
              confirmationFingerprint := v.confirmationFingerprint
              canonicalSourceUrl := v.canonicalSourceUrl }
          let imports ← insertImport imports row
          return (⟨row, create.source (d.ids 0) d.now, ingest.document (d.ids 1) d.now,
            ingest.chunks.length, true⟩, stored, imports)

/-- `_existing_result`. -/
def existingResult (db : Knowledge.Store) (row : ExternalItemImport) (scope : Option Uuid) :
    Except HttpError ImportResult :=
  match documentForScope db row.sourceDocumentId (.exactly scope) with
  | none => .error conflict
  | some document =>
      match db.sourceForScope document.sourceId (.exactly scope) with
      | none => .error conflict
      | some source =>
          .ok ⟨row, source, document,
            (db.chunks.filter fun chunk => chunk.documentId == document.id).length, false⟩

/-! ## Confirmations -/

/-- How far a confirmation is. From where it has found the item it holds its row. -/
inductive ImportPhase where
  | arrived
  | holding (item : ExternalItem)
  /-- The row is the latest of its identity. -/
  | standing (item : ExternalItem)
  /-- The preview is what was confirmed. -/
  | previewed (item : ExternalItem) (said : ExternalContent) (v : ExternalItemImportPreview)
  /-- There is no import of the item. -/
  | unimported (item : ExternalItem) (said : ExternalContent) (v : ExternalItemImportPreview)
  | answered (answer : Except HttpError ImportResult)

structure Importer where
  q : Confirmation
  phase : ImportPhase

/-- The connector tables, the library and the imports between them. -/
structure ImportState where
  sync : SyncState := {}
  library : Library := {}
  imports : List ExternalItemImport := []
  /-- Who has locked which external item. -/
  locks : Locks Uuid := Locks.free
  importers : List Importer := []

/-- Whether the request is about the item as it is previewed. -/
def Confirmation.confirms (q : Confirmation) (v : ExternalItemImportPreview) : Bool :=
  q.request.applicationRevision == v.applicationRevision &&
    q.request.providerSourceVersion == v.providerSourceVersion &&
    q.request.contentHash == v.contentHash &&
    q.request.confirmationFingerprint == v.confirmationFingerprint

/-- The confirmation at another phase. -/
def ImportState.turn (s : ImportState) (i : Nat) (q : Confirmation) (phase : ImportPhase) :
    ImportState :=
  { s with importers := s.importers.set i ⟨q, phase⟩ }

/-- The transaction ends, and gives back its lock. -/
def ImportState.answer (s : ImportState) (i : Nat) (q : Confirmation)
    (answer : Except HttpError ImportResult) : ImportState :=
  { s with
    locks := s.locks.release i
    importers := s.importers.set i ⟨q, .answered answer⟩ }

/-- `confirm`, one statement after the other. -/
def ImportState.advance (s : ImportState) (i : Nat) (d : Draw) (q : Confirmation) :
    ImportPhase → Option ImportState
  | .arrived =>
      (s.locks.acquire i [q.rowId]).map fun held =>
        match scopedItem s.sync.db q.accountId q.scope q.rowId with
        | .error e => s.answer i q (.error e)
        | .ok item => { s with locks := held }.turn i q (.holding item)
  | .holding item =>
      match requireLatest s.sync.db item.toItemRevision with
      | .error e => some (s.answer i q (.error e))
      | .ok () => some (s.turn i q (.standing item))
  | .standing item =>
      match previewValues c s.sync.db item.toItemRevision with
      | .error e => some (s.answer i q (.error e))
      | .ok (said, values) =>
          let v := { values with confirmationFingerprint := fingerprint p values }
          if q.confirms v then some (s.turn i q (.previewed item said v))
          else some (s.answer i q (.error conflict))
  | .previewed item said v =>
      match lookup (·.externalItemId) item.id s.imports with
      | none => some (s.turn i q (.unimported item said v))
      | some row =>
          if row.confirmationFingerprint ≠ v.confirmationFingerprint then
            some (s.answer i q (.error conflict))
          else some (s.answer i q (existingResult s.library.db row q.scope))
  | .unimported item said v =>
      match importItem p s.library.db s.imports d item.toItemRevision said v with
      | .error e => some (s.answer i q (.error e))
      | .ok (result, db, imports) =>
          some ({ s with
            library := { s.library with db := db }
            imports := imports }.answer i q (.ok result))
  | .answered _ => none

/-! ## The machine -/

inductive ImportLabel where
  /-- A project is created. -/
  | project (id : Uuid)
  | refresh (l : SyncLabel)
  | library (l : LibraryLabel)
  | confirm (q : Confirmation)
  | advance (i : Nat) (d : Draw)
  /-- The process or the connection of a confirmation has ended. -/
  | stop (i : Nat)

def SyncLabel.addsProject : SyncLabel → Bool
  | .edit (.addProject _) => true
  | _ => false

def addsProject : LibraryLabel → Bool
  | .project _ => true
  | _ => false

/-- The rows a refresh locks: those it rewrites, and the latest of the identities it adds a
revision of. -/
def lockedRows (db db' : Store) : List Uuid :=
  (db.items.filter fun row => !decide (row ∈ db'.items)).map (·.id) ++
    (db'.items.drop db.items.length).filterMap fun row =>
      (db.latestRevision row.identity).map (·.id)

def ImportState.next (s : ImportState) : ImportLabel → Option ImportState
  | .project id => do
      let sync ← Sync.step p s.sync (.edit (.addProject id))
      let library ← s.library.next (textHash p) (.project id)
      return { s with sync := sync, library := library }
  | .refresh l =>
      if l.addsProject then none
      else do
        let sync ← Sync.step p s.sync l
        if (lockedRows s.sync.db sync.db).all fun id => (s.locks id).isNone then
          return { s with sync := sync }
        else none
  | .library l =>
      if addsProject l then none
      else do
        let library ← s.library.next (textHash p) l
        return { s with library := library }
  | .confirm q => some { s with importers := s.importers ++ [⟨q, .arrived⟩] }
  | .advance i d => do
      let importer ← s.importers[i]?
      s.advance c p i d importer.q importer.phase
  | .stop i =>
      match s.importers[i]? with
      | some ⟨_, .answered _⟩ => none
      | some importer => some (s.answer i importer.q (.error databaseUnavailable))
      | none => none

def importing : Machine ImportState ImportLabel where
  start s := s = {}
  next := ImportState.next c p

end Connectors

end SecondBrain
