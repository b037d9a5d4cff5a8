import SecondBrain.Knowledge.Captures
import Mathlib.Data.List.Sort

/-!
# Reading sources

The reads of the source repository, of the routes before it and of the agents' tools.
A read of a source is made under a scope. The two lists that take none are called only
by a route that has found the source, or the document, outside of every capture.
-/

namespace SecondBrain

open Lib

namespace Knowledge

variable (db : Store)

/-- One page of an ordered list. -/
def page {α : Type} (limit offset : Nat) (rows : List α) : List α := (rows.drop offset).take limit

/-! ## The repository -/

/-- `get_source`. -/
def getSource (sourceId : Uuid) (scope : SourceScope) : Option Source :=
  db.sourceForScope sourceId scope

/-- The later source comes first. -/
def Source.before (a b : Source) : Bool :=
  decide (b.createdAt < a.createdAt ∨ a.createdAt = b.createdAt ∧ a.id.toNat ≤ b.id.toNat)

/-- `list_sources`. -/
def listSources (limit offset : Nat) : List Source :=
  page limit offset
    ((db.sources.filter fun s => db.grantsAccess .legacyOnly s.id).insertionSort
      fun a b => a.before b)

/-- A document, with the number of its chunks. -/
structure DocumentRead where
  document : SourceDocument
  chunkCount : Nat
deriving DecidableEq

/-- `_document_projection`. -/
def documentProjection (document : SourceDocument) : DocumentRead :=
  { document := document
    chunkCount := (db.chunks.filter fun c => c.documentId == document.id).length }

/-- `list_documents_for_source`. A source has one document at most. -/
def listDocumentsForSource (sourceId : Uuid) (limit offset : Nat) : List DocumentRead :=
  page limit offset
    ((db.documents.filter fun d => d.sourceId == sourceId).map (documentProjection db))

/-- `get_document_for_scope`. -/
def documentForScope (documentId : Uuid) (scope : SourceScope) : Option SourceDocument :=
  (db.document? documentId).filter fun d =>
    (db.source? d.sourceId).isSome && db.grantsAccess scope d.sourceId

/-- `get_document`. -/
def getDocument (documentId : Uuid) : Option DocumentRead :=
  (documentForScope db documentId .legacyOnly).map (documentProjection db)

def Store.chunk? (id : Uuid) : Option SourceChunk :=
  lookup (·.id) id db.chunks

/-- `get_chunk_for_scope`. -/
def chunkForScope (chunkId : Uuid) (scope : SourceScope) : Option SourceChunk :=
  (db.chunk? chunkId).filter fun c => (documentForScope db c.documentId scope).isSome

def SourceChunk.before (a b : SourceChunk) : Bool :=
  decide (a.chunkIndex < b.chunkIndex ∨ a.chunkIndex = b.chunkIndex ∧ a.id.toNat ≤ b.id.toNat)

/-- `list_chunks_for_document`. -/
def listChunksForDocument (documentId : Uuid) (limit offset : Nat) : List SourceChunk :=
  page limit offset
    ((db.chunks.filter fun c => c.documentId == documentId).insertionSort fun a b => a.before b)

/-- A link of a memory, with its source. -/
structure LinkedSource where
  link : MemorySource
  source : Source
deriving DecidableEq

def LinkedSource.before (a b : LinkedSource) : Bool :=
  decide (b.link.createdAt < a.link.createdAt ∨
    a.link.createdAt = b.link.createdAt ∧ a.link.id.toNat ≤ b.link.id.toNat)

/-- The source of a link, where the memory's project is granted it. -/
def linkedSource (link : MemorySource) : Option LinkedSource := do
  let source ← db.source? link.sourceId
  let memory ← db.memory? link.memoryId
  if db.grantsProposal memory.projectId source.id then some ⟨link, source⟩ else none

/-- `list_sources_for_memory`. -/
def listSourcesForMemory (memoryId : Uuid) (limit offset : Nat) : List LinkedSource :=
  page limit offset
    (((db.memorySources.filter fun l => l.memoryId == memoryId).filterMap
      (linkedSource db)).insertionSort fun a b => a.before b)

/-! ## The tools -/

/-- A memory of the scope links to the source. -/
def linkedInScope (scope : Option Uuid) (sourceId : Uuid) : Bool :=
  db.memorySources.any fun l => l.sourceId == sourceId &&
    (db.memory? l.memoryId).any fun m => m.projectId == scope

/-- What a tool shows of a source. -/
structure SourceGetOutput where
  id : Uuid
  sourceType : String
  name : String
  reference : Option String
deriving DecidableEq

/-- What a tool shows of a chunk. -/
structure SourceChunkGetOutput where
  id : Uuid
  documentId : Uuid
  chunkIndex : Nat
  content : String
  charStart : Nat
  charEnd : Nat
  locator : Option String
deriving DecidableEq

/-- `_scoped_source_statement` of one source. -/
def scopedSource (scope : Option Uuid) (sourceId : Uuid) : Option Source :=
  (db.sourceForScope sourceId (.exactly scope)).filter fun s => linkedInScope db scope s.id

/-- `_source_get`. -/
def sourceGet (scope : Option Uuid) (sourceId : Uuid) : Option SourceGetOutput :=
  (scopedSource db scope sourceId).map fun s =>
    { id := s.id, sourceType := s.sourceType, name := s.name, reference := s.reference }

def scopedChunk (scope : Option Uuid) (chunkId : Uuid) : Option SourceChunk :=
  (chunkForScope db chunkId (.exactly scope)).filter fun c =>
    (db.document? c.documentId).any fun d => linkedInScope db scope d.sourceId

/-- `_source_chunk_get`. -/
def sourceChunkGet (scope : Option Uuid) (chunkId : Uuid) : Option SourceChunkGetOutput :=
  (scopedChunk db scope chunkId).map fun c =>
    { id := c.id
      documentId := c.documentId
      chunkIndex := c.chunkIndex
      content := c.content
      charStart := c.charStart
      charEnd := c.charEnd
      locator := c.locator }

end Knowledge

end SecondBrain
