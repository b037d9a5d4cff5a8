import SecondBrain.Knowledge.Canonical
import SecondBrain.Knowledge.Ingestion

/-!
# Captures

A capture is created under an idempotency key and is then edited, reassigned,
discarded, restored or made a source, each with the revision it is expected to
have. Its row is locked from the moment it is read, so each of these is one
step. A creation that finds its key taken reads the row that has it afterwards.
-/

namespace SecondBrain

open Lib

namespace Knowledge

open Calendar (strip)

inductive CaptureError where
  | validation (detail : String)
  | projectNotFound
  | idempotencyConflict
  | notFound
  | revisionConflict (item : CaptureItemProjection)
  | transitionConflict
  | sourceInvalid
  | databaseUnavailable
  /-- An exception that nothing handles. -/
  | raised (message : String)
deriving DecidableEq

/-! ## Requests -/

/-- `normalize_capture_content`. -/
def normalizeCaptureContent (value : String) : Except CaptureError String :=
  let normalized := normalizePlainText value
  if hasNul normalized then .error (.validation "content must not contain NUL")
  else if strip normalized = "" then
    .error (.validation "content must contain a non-whitespace character")
  else if 8000 < normalized.length then
    .error (.validation "content exceeds 8000 Unicode scalar values")
  else if 32000 < Json.octets normalized.toList then
    .error (.validation "content exceeds 32000 UTF-8 bytes")
  else .ok normalized

/-- `validate_idempotency_key`. -/
def validateIdempotencyKey (value : String) : Except CaptureError String :=
  if 8 ≤ value.length ∧ value.length ≤ 128 ∧
      value.toList.all fun c => 0x21 ≤ c.toNat && c.toNat ≤ 0x7e then .ok value
  else .error (.validation "idempotency key must be 8-128 visible ASCII characters")

/-- `FINGERPRINT_DOMAIN`. -/
def fingerprintDomain : String := "second-brain.capture-create.v1"

def scopeText : Option Uuid → String
  | none => "unassigned"
  | some id => "project:" ++ id.text

/-- What the fingerprint of a creation is the hash of. -/
def fingerprintPayload (content : String) (projectId : Option Uuid) : Json :=
  .obj
    [("content", .str content), ("domain", .str fingerprintDomain),
      ("scope", .str (scopeText projectId))]

variable (sha256 : Sha256)

def requestFingerprint (content : String) (projectId : Option Uuid) : String :=
  sha256 (fingerprintPayload content projectId).dumps

structure CaptureCreate where
  content : String
  idempotencyKey : String
  projectId : Option Uuid
deriving DecidableEq

/-- A creation that was checked: what its row is made of. -/
structure CheckedCreate where
  content : String
  keyHash : String
  fingerprint : String
  projectId : Option Uuid
deriving DecidableEq

/-- `create_capture`, before it writes. -/
def checkCreate (db : Store) (q : CaptureCreate) : Except CaptureError CheckedCreate := do
  let content ← normalizeCaptureContent q.content
  let key ← validateIdempotencyKey q.idempotencyKey
  if db.hasProject q.projectId then
    return {
      content := content
      keyHash := sha256 key
      fingerprint := requestFingerprint sha256 content q.projectId
      projectId := q.projectId }
  else throw .projectNotFound

def CheckedCreate.item (q : CheckedCreate) (id : Uuid) (now : Instant) : CaptureItem :=
  { id := id
    projectId := q.projectId
    content := q.content
    state := .pending
    revision := 1
    createdAt := now
    updatedAt := now
    idempotencyKeyHash := q.keyHash
    requestFingerprint := q.fingerprint }

def Store.captureOfKey (db : Store) (keyHash : String) : Option CaptureItem :=
  lookup (·.idempotencyKeyHash) keyHash db.captures

/-- `insert_capture_on_new_key`: nothing where the key is taken. -/
def insertCaptureOnNewKey (db : Store) (item : CaptureItem) :
    Except CaptureError (Option Store) :=
  if (db.captureOfKey item.idempotencyKeyHash).isSome then .ok none
  else if (db.capture? item.id).isSome then .error .databaseUnavailable
  else .ok (some { db with captures := db.captures ++ [item] })

/-- `create_capture`, after the key was found taken. -/
def replayCreate (db : Store) (keyHash fingerprint : String) :
    Except CaptureError CaptureItemProjection :=
  match db.captureOfKey keyHash with
  | none => .error (.raised "AssertionError")
  | some original =>
      if original.requestFingerprint ≠ fingerprint then .error .idempotencyConflict
      else .ok original.toCaptureItemProjection

/-! ## Changes -/

/-- A change of a capture, as it is asked for. -/
structure CaptureRevision where
  itemId : Uuid
  scope : Option Uuid
  revision : Nat
deriving DecidableEq

/-- `get_scoped_capture`. -/
def Store.scopedCapture (db : Store) (id : Uuid) (scope : Option Uuid) : Option CaptureItem :=
  (db.capture? id).filter fun c => c.projectId == scope

/-- The row of a change in a scope that there is. -/
def lockScoped (db : Store) (q : CaptureRevision) : Except CaptureError CaptureItem :=
  if !db.hasProject q.scope then .error .projectNotFound
  else match db.scopedCapture q.itemId q.scope with
    | none => .error .notFound
    | some item => .ok item

/-- The row as it was expected: with the revision, and in the state. -/
def lockExpected (db : Store) (q : CaptureRevision) (expected : CaptureState) :
    Except CaptureError CaptureItem := do
  let item ← lockScoped db q
  if item.revision ≠ q.revision then throw (.revisionConflict item.toCaptureItemProjection)
  if item.state ≠ expected then throw .transitionConflict
  return item

/-- `_finish_mutation`, with the commit. -/
def finishMutation (db : Store) (item : CaptureItem) (now : Instant) :
    Except CaptureError (CaptureItemProjection × Store) :=
  let item := { item with revision := item.revision + 1, updatedAt := now }
  if maxInteger < item.revision then .error .databaseUnavailable
  else .ok (item.toCaptureItemProjection, db.putCapture item)

def editCapture (db : Store) (q : CaptureRevision) (content : String) (now : Instant) :
    Except CaptureError (CaptureItemProjection × Store) := do
  let item ← lockExpected db q .pending
  let content ← normalizeCaptureContent content
  finishMutation db { item with content := content } now

def reassignCapture (db : Store) (q : CaptureRevision) (target : Option Uuid) (now : Instant) :
    Except CaptureError (CaptureItemProjection × Store) := do
  if !db.hasProject target then throw .projectNotFound
  let item ← lockExpected db q .pending
  finishMutation db { item with projectId := target } now

def transitionCapture (db : Store) (q : CaptureRevision) (expected target : CaptureState)
    (now : Instant) : Except CaptureError (CaptureItemProjection × Store) := do
  let item ← lockExpected db q expected
  finishMutation db { item with state := target } now

/-! ## Conversion -/

structure SourceCreate where
  sourceType : String
  name : String
  reference : Option String
  checksum : Option String
deriving DecidableEq

def SourceCreate.source (q : SourceCreate) (id : Uuid) (now : Instant) : Source :=
  { id := id
    sourceType := q.sourceType
    name := q.name
    reference := q.reference
    checksum := q.checksum
    createdAt := now }

/-- `create_source`. -/
def createSource (db : Store) (q : SourceCreate) (id : Uuid) (now : Instant) : Option Store :=
  if (db.source? id).isNone && decide (q.sourceType.length ≤ 50) && decide (q.name.length ≤ 255) &&
      q.checksum.all (fun c => decide (c.length ≤ 64)) &&
      storableTexts [some q.sourceType, some q.name, q.reference, q.checksum] then
    some { db with sources := db.sources ++ [q.source id now] }
  else none

/-- The source a capture is made. -/
def CaptureItem.sourceCreate (item : CaptureItem) : SourceCreate :=
  { sourceType := "capture"
    name := "Capture " ++ item.id.text
    reference := none
    checksum := some (sha256 item.content) }

/-- The document of that source. -/
def CaptureItem.ingest (item : CaptureItem) (sourceId : Uuid) (chunks : List TextChunk) :
    IngestRequest :=
  { sourceId := sourceId
    normalizedText := item.content
    mediaType := "text/plain"
    originalFilename := none
    byteSize := Json.octets item.content.toList
    chunks := chunks }

/-- `get_source_for_scope`. -/
def Store.sourceForScope (db : Store) (sourceId : Uuid) (scope : SourceScope) : Option Source :=
  (db.source? sourceId).filter fun _ => db.grantsAccess scope sourceId

structure CaptureConversionResult where
  item : CaptureItemProjection
  source : Source
deriving DecidableEq

/-- The processed capture and its source. -/
def conversionOf (db : Store) (item : CaptureItem) (scope : Option Uuid) :
    Except CaptureError CaptureConversionResult :=
  match item.resultingSourceId with
  | none => .error .sourceInvalid
  | some sourceId =>
      match db.sourceForScope sourceId (.exactly scope) with
      | none => .error .sourceInvalid
      | some source => .ok ⟨item.toCaptureItemProjection, source⟩

/-- The capture as it is when it was made the source. -/
def CaptureItem.processed (item : CaptureItem) (sourceId : Uuid) (now : Instant) : CaptureItem :=
  { item with
    resultingSourceId := some sourceId
    processedAt := some now
    state := .processed }

/-- The source is created, with its document and its chunks, and the capture names it. -/
def convertPending (db : Store) (item : CaptureItem) (d : Draw) :
    Except CaptureError (CaptureConversionResult × Store) :=
  let create := item.sourceCreate sha256
  match createSource db create (d.ids 0) d.now, chunkText sha256 item.content 2000 200 with
  | none, _ => .error .databaseUnavailable
  | some _, .error message => .error (.raised message)
  | some created, .ok chunks =>
      match writeDocument created (item.ingest (d.ids 0) chunks) none (fun n => d.ids (n + 2))
          (d.ids 1) d.now with
      | .error _ => .error .databaseUnavailable
      | .ok (_, stored) =>
          match finishMutation stored (item.processed (d.ids 0) d.now) d.now with
          | .error e => .error e
          | .ok (projection, db') => .ok (⟨projection, create.source (d.ids 0) d.now⟩, db')

/-! ## Steps -/

/-- An answer to a request about a capture. It says what was done, which whoever has
asked is not told. -/
inductive CaptureAnswer where
  | created (item : CaptureItemProjection)
  /-- The key was taken by the same request. -/
  | replayed (item : CaptureItemProjection)
  | changed (item : CaptureItemProjection)
  | converted (result : CaptureConversionResult)
  /-- The capture was made a source before. -/
  | resolved (result : CaptureConversionResult)
deriving DecidableEq

def convertCapture (db : Store) (q : CaptureRevision) (d : Draw) :
    Except CaptureError (CaptureAnswer × Store) := do
  let item ← lockScoped db q
  if item.state = .processed then
    if q.revision + 1 ≠ item.revision ∧ q.revision ≠ item.revision then
      throw (.revisionConflict item.toCaptureItemProjection)
    let result ← conversionOf db item q.scope
    return (.resolved result, db)
  else
    if item.revision ≠ q.revision then throw (.revisionConflict item.toCaptureItemProjection)
    if item.state ≠ .pending then throw .transitionConflict
    let (result, db') ← convertPending sha256 db item d
    return (.converted result, db')

inductive CaptureChange where
  | edit (content : String)
  | reassign (target : Option Uuid)
  | discard
  | restore
  | convert
deriving DecidableEq

def changeCapture (db : Store) (q : CaptureRevision) (d : Draw) :
    CaptureChange → Except CaptureError (CaptureAnswer × Store)
  | .edit content => do
      let (item, db') ← editCapture db q content d.now
      return (.changed item, db')
  | .reassign target => do
      let (item, db') ← reassignCapture db q target d.now
      return (.changed item, db')
  | .discard => do
      let (item, db') ← transitionCapture db q .pending .discarded d.now
      return (.changed item, db')
  | .restore => do
      let (item, db') ← transitionCapture db q .discarded .pending d.now
      return (.changed item, db')
  | .convert => convertCapture sha256 db q d

inductive CaptureRequest where
  | create (q : CaptureCreate)
  | change (q : CaptureRevision) (change : CaptureChange)
deriving DecidableEq

inductive CapturePhase where
  | arrived
  /-- The key was found taken. -/
  | contended (keyHash fingerprint : String)
  | answered (answer : Except CaptureError CaptureAnswer)

/-- The answer, and the store that it leaves. -/
def settleCapture (db : Store) :
    Except CaptureError (CaptureAnswer × Store) → Option (CapturePhase × Store)
  | .error e => some (.answered (.error e), db)
  | .ok (answer, db') => some (.answered (.ok answer), db')

def advanceCapture (db : Store) (d : Draw) : CaptureRequest → CapturePhase →
    Option (CapturePhase × Store)
  | _, .answered _ => none
  | .create q, .arrived =>
      match checkCreate sha256 db q with
      | .error e => some (.answered (.error e), db)
      | .ok x =>
          match insertCaptureOnNewKey db (x.item (d.ids 0) d.now) with
          | .error e => some (.answered (.error e), db)
          | .ok (some db') =>
              some (.answered (.ok (.created (x.item (d.ids 0) d.now).toCaptureItemProjection)), db')
          | .ok none => some (.contended x.keyHash x.fingerprint, db)
  | .create _, .contended keyHash fingerprint =>
      settleCapture db ((replayCreate db keyHash fingerprint).map fun item => (.replayed item, db))
  | .change q change, .arrived => settleCapture db (changeCapture sha256 db q d change)
  | .change _ _, .contended _ _ => none

end Knowledge

end SecondBrain
