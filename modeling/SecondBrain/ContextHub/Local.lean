import SecondBrain.ContextHub.Model
import SecondBrain.Knowledge.Reads

/-!
# The local family

The chunks of the extracted documents of sources that a memory of the scope links to,
the latest source first. What is listed is opened again by its provenance. Whether a
text matches a pattern is the database's `ILIKE`.
-/

namespace SecondBrain

open Lib

namespace ContextHub

open Knowledge

/-- A source, its document and a chunk of it. -/
structure LocalRow where
  source : Source
  document : SourceDocument
  chunk : SourceChunk
deriving DecidableEq

/-- `value ILIKE pattern`. -/
abbrev Ilike := String → String → Bool

variable (ilike : Ilike) (db : Store)

/-- The rows that are joined, with each memory that links to the source counted once. -/
def joinedRows : List LocalRow :=
  db.sources.flatMap fun source =>
    (db.documents.filter fun d => d.sourceId == source.id).flatMap fun document =>
      (db.chunks.filter fun c => c.documentId == document.id).map fun chunk =>
        ⟨source, document, chunk⟩

/-- What the rows of a scope satisfy. -/
def LocalRow.inScope (row : LocalRow) (scope : ContextScope) : Bool :=
  decide (row.document.ingestionStatus = .extracted) &&
    (db.memorySources.any fun l => l.sourceId == row.source.id &&
      (db.memory? l.memoryId).any fun m => scope.clause m.projectId) &&
    db.grantsAccess (.exactly scope.projectId) row.source.id

/-- The text that a query looks for. -/
def LocalRow.matches (row : LocalRow) (query : String) : Bool :=
  query.isEmpty ||
    let pattern := "%" ++ query ++ "%"
    ilike row.source.name pattern || row.source.reference.any (fun r => ilike r pattern) ||
      ilike row.chunk.content pattern

def LocalRow.position (row : LocalRow) : LocalSourcePosition :=
  { sourceCreatedAt := row.source.createdAt
    sourceId := row.source.id
    chunkIndex := row.chunk.chunkIndex
    chunkId := row.chunk.id }

/-- The row comes after the position. -/
def LocalRow.follows (row : LocalRow) (after : LocalSourcePosition) : Bool :=
  decide (row.source.createdAt < after.sourceCreatedAt) ||
    (row.source.createdAt == after.sourceCreatedAt &&
      decide (after.sourceId.toNat < row.source.id.toNat)) ||
    (row.source.createdAt == after.sourceCreatedAt && row.source.id == after.sourceId &&
      decide (after.chunkIndex < (row.chunk.chunkIndex : Int))) ||
    (row.source.createdAt == after.sourceCreatedAt && row.source.id == after.sourceId &&
      (row.chunk.chunkIndex : Int) == after.chunkIndex &&
      decide (after.chunkId.toNat < row.chunk.id.toNat))

/-- The order in which the rows are read. -/
def LocalRow.before (a b : LocalRow) : Bool := !a.follows b.position

def LocalRow.item (row : LocalRow) (scope : ContextScope) : ContextItem :=
  { family := .localSource
    kind := .sourceChunk
    scope := scope
    trust := .localAudited
    state := .extracted
    title := bounded row.source.name maxTitleCharacters
    text := bounded row.chunk.content maxTextCharacters
    provenance := .localSource
      { sourceId := row.source.id
        documentId := row.document.id
        chunkId := row.chunk.id
        chunkIndex := row.chunk.chunkIndex
        contentHash := row.chunk.contentHash }
    position := .localSource row.position }

/-- The rows of a query, in order. -/
def localRows (q : ContextHubQuery) (after : Option LocalSourcePosition) : List LocalRow :=
  ((joinedRows db).filter fun row => row.inScope db q.scope && row.matches ilike q.query &&
    after.all fun position => row.follows position).insertionSort fun a b => a.before b

/-- `_local_items`. -/
def localItems (q : ContextHubQuery) (after : Option LocalSourcePosition) :
    List ContextItem × Bool × Option LocalSourcePosition :=
  if !q.states.isEmpty && !q.states.contains .extracted then ([], true, after)
  else
    let rows := (localRows ilike db q after).take (q.pageSize + 1)
    let shown := rows.take q.pageSize
    (shown.map fun row => row.item q.scope, decide (rows.length ≤ q.pageSize),
      match shown.getLast? with
      | some row => some row.position
      | none => after)

/-- `reopen_context` of a local provenance, where the scope is one there is. -/
def reopenLocal (scope : ContextScope) (p : LocalSourceProvenance) : Option ContextItem :=
  ((joinedRows db).find? fun row =>
    row.source.id == p.sourceId && row.document.id == p.documentId && row.chunk.id == p.chunkId &&
      (row.chunk.chunkIndex : Int) == p.chunkIndex &&
      row.chunk.contentHash == p.contentHash &&
      row.inScope db scope).map fun row => row.item scope

end ContextHub

end SecondBrain
