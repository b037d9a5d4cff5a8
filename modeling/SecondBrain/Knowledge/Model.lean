import SecondBrain.Lib.Table
import SecondBrain.Basic

/-!
# Sources, proposals and memories

A capture is a note that can be made a source of its own, which it binds to its
scope. A source has at most one document, cut into chunks. An extraction run reads
chunks of a document and leaves proposals, each of which cites the chunk it was
found in. A reviewer decides on a proposal, and one that was approved can be
promoted to a memory that is linked to its source. A memory may say which older
one it supersedes.
-/

namespace SecondBrain

open Lib

namespace Knowledge

inductive MemoryType where
  | working
  | episodic
  | semantic
  | decision
  | procedural
  | preference
  | temporary
deriving DecidableEq, Repr

def MemoryType.value : MemoryType → String
  | .working => "working"
  | .episodic => "episodic"
  | .semantic => "semantic"
  | .decision => "decision"
  | .procedural => "procedural"
  | .preference => "preference"
  | .temporary => "temporary"

inductive MemoryStatus where
  | active
  | superseded
  | invalid
  | archived
  | expired
deriving DecidableEq, Repr

/-- A float from 0 to 1, as the decimal its shortest spelling gives. -/
structure Score where
  digits : Nat
  places : Nat
  le_one : digits ≤ 10 ^ places
  shortest : places = 1 ∨ 1 < places ∧ digits % 10 ≠ 0
deriving DecidableEq

/-! A half and a whole. -/

theorem Score.half_le : 5 ≤ 10 ^ 1 := by decide

theorem Score.half_shortest : 1 = 1 ∨ 1 < 1 ∧ 5 % 10 ≠ 0 := .inl rfl

theorem Score.whole_le : 10 ≤ 10 ^ 1 := by decide

theorem Score.whole_shortest : 1 = 1 ∨ 1 < 1 ∧ 10 % 10 ≠ 0 := .inl rfl

/-! ## Sources -/

structure Source where
  id : Uuid
  sourceType : String
  name : String
  reference : Option String
  checksum : Option String
  createdAt : Instant
deriving DecidableEq

inductive CaptureState where
  | pending
  | processed
  | discarded
deriving DecidableEq, Repr

/-- What is shown of a capture. -/
structure CaptureItemProjection where
  id : Uuid
  projectId : Option Uuid
  content : String
  state : CaptureState
  revision : Nat
  createdAt : Instant
  updatedAt : Instant
  processedAt : Option Instant := none
  resultingSourceId : Option Uuid := none
deriving DecidableEq

/-- A note that waits to be made a source, and binds the source to its scope then. -/
structure CaptureItem extends CaptureItemProjection where
  idempotencyKeyHash : String
  requestFingerprint : String
deriving DecidableEq

inductive IngestionStatus where
  | pending
  | extracted
  | failed
deriving DecidableEq, Repr

structure SourceDocument where
  id : Uuid
  sourceId : Uuid
  mediaType : String
  originalFilename : Option String
  byteSize : Option Nat
  extractedText : Option String
  ingestionStatus : IngestionStatus
  errorCode : Option String
  extractedAt : Option Instant
deriving DecidableEq

/-- One exact range of a text. -/
structure TextChunk where
  chunkIndex : Nat
  content : String
  charStart : Nat
  charEnd : Nat
  contentHash : String
  locator : Option String
deriving DecidableEq

structure SourceChunk extends TextChunk where
  id : Uuid
  documentId : Uuid
deriving DecidableEq

/-! ## Proposals -/

inductive RunStatus where
  | pending
  | completed
  | failed
deriving DecidableEq, Repr

/-- What tells the extraction runs apart. -/
structure RunIdentity where
  documentId : Uuid
  provider : String
  model : String
  promptVersion : String
  inputHash : String
deriving DecidableEq

structure MemoryExtractionRun extends RunIdentity where
  id : Uuid
  projectId : Option Uuid
  runStatus : RunStatus
  errorCode : Option String
  startedAt : Option Instant
  completedAt : Option Instant
deriving DecidableEq

inductive ReviewStatus where
  | pending
  | approved
  | rejected
deriving DecidableEq, Repr

/-- What an extraction proposes, with its evidence. -/
structure Candidate where
  sourceChunkHash : String
  projectId : Option Uuid
  proposalIndex : Nat
  title : Option String
  summary : Option String
  content : String
  memoryType : MemoryType
  importance : Score
  confidence : Score
  evidenceText : String
  evidenceCharStart : Nat
  evidenceCharEnd : Nat
  sourceLocator : Option String
  proposalHash : String
deriving DecidableEq

structure MemoryProposal extends Candidate where
  id : Uuid
  runId : Uuid
  sourceChunkId : Option Uuid
  reviewStatus : ReviewStatus := .pending
  reviewNote : Option String := none
  reviewedAt : Option Instant := none
  memoryId : Option Uuid := none
deriving DecidableEq

/-! ## Memories -/

/-- A memory as it is asked for. -/
structure MemoryCreate where
  projectId : Option Uuid
  content : String
  source : Option String
  title : Option String
  summary : Option String
  memoryType : MemoryType
  importance : Score
  confidence : Score
  status : MemoryStatus
  eventTime : Option Instant
  expiresAt : Option Instant
  supersedesId : Option Uuid
deriving DecidableEq

structure Memory extends MemoryCreate where
  id : Uuid
deriving DecidableEq

structure MemorySource where
  id : Uuid
  memoryId : Uuid
  sourceId : Uuid
  sourceLocation : Option String
  createdAt : Instant
deriving DecidableEq

structure Store where
  projects : List Uuid := []
  sources : List Source := []
  captures : List CaptureItem := []
  documents : List SourceDocument := []
  chunks : List SourceChunk := []
  runs : List MemoryExtractionRun := []
  proposals : List MemoryProposal := []
  memories : List Memory := []
  memorySources : List MemorySource := []
deriving DecidableEq

namespace Store

variable (db : Store)

def source? (id : Uuid) : Option Source := lookup (·.id) id db.sources

def capture? (id : Uuid) : Option CaptureItem := lookup (·.id) id db.captures

def document? (id : Uuid) : Option SourceDocument := lookup (·.id) id db.documents

/-- The document of a source. -/
def documentOf (sourceId : Uuid) : Option SourceDocument := lookup (·.sourceId) sourceId db.documents

def run? (id : Uuid) : Option MemoryExtractionRun := lookup (·.id) id db.runs

def proposal? (id : Uuid) : Option MemoryProposal := lookup (·.id) id db.proposals

def memory? (id : Uuid) : Option Memory := lookup (·.id) id db.memories

def putCapture (item : CaptureItem) : Store :=
  { db with captures := replace (·.id) item db.captures }

def putRun (run : MemoryExtractionRun) : Store := { db with runs := replace (·.id) run db.runs }

def putProposal (proposal : MemoryProposal) : Store :=
  { db with proposals := replace (·.id) proposal db.proposals }

def putMemory (memory : Memory) : Store :=
  { db with memories := replace (·.id) memory db.memories }

def hasProject (projectId : Option Uuid) : Bool := projectId.all fun id => db.projects.contains id

/-- The memories that say they supersede the one with this identifier. -/
def successors (id : Uuid) : List Memory := db.memories.filter fun m => m.supersedesId == some id

/-- The source a proposal was extracted from, joined over its run and document. -/
def sourceOf (proposal : MemoryProposal) : Option Source := do
  let run ← db.run? proposal.runId
  let document ← db.document? run.documentId
  db.source? document.sourceId

end Store

/-! ## Scopes of sources -/

/-- `AuthoritativeScope | SourceScopeMode`. -/
inductive SourceScope where
  | legacyOnly
  | exactly (projectId : Option Uuid)
deriving DecidableEq, Repr

def Store.bindings (db : Store) (sourceId : Uuid) : List CaptureItem :=
  db.captures.filter fun c => c.resultingSourceId == some sourceId

def CaptureItem.isProcessed (c : CaptureItem) : Bool :=
  decide (c.state = .processed) && c.processedAt.isSome

/-- `source_access_clause` of a given scope. -/
def Store.grantsAccess (db : Store) (scope : SourceScope) (sourceId : Uuid) : Bool :=
  (db.bindings sourceId).isEmpty ||
    match scope with
    | .legacyOnly => false
    | .exactly projectId =>
        (db.bindings sourceId).any fun c => c.isProcessed && c.projectId == projectId

/-- `source_access_clause` of the column a proposal has its project in, where
nothing equals a project that is not there. -/
def Store.grantsProposal (db : Store) (projectId : Option Uuid) (sourceId : Uuid) : Bool :=
  (db.bindings sourceId).isEmpty ||
    (db.bindings sourceId).any fun c =>
      c.isProcessed && c.projectId.isSome && c.projectId == projectId

/-! ## Steps -/

/-- What a step draws: the time, and identifiers. -/
structure Draw where
  now : Instant
  ids : Nat → Uuid

/-- An answer other than a result. -/
structure HttpError where
  status : Nat
  detail : String
deriving DecidableEq, Repr

def databaseUnavailable : HttpError := ⟨503, "database unavailable"⟩

/-- Whether a text column can hold all of these. -/
def storableTexts (texts : List (Option String)) : Bool :=
  texts.all fun t => t.all fun s => !hasNul s

end Knowledge

end SecondBrain
