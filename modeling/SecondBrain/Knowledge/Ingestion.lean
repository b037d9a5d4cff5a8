import Mathlib.Data.List.Sort
import SecondBrain.Calendar.Model
import SecondBrain.Knowledge.Model

/-!
# Ingestions

A text is cut into windows of a fixed size that overlap, and those that are not
blank are its chunks. An ingestion loads the document of a source with its chunks
and writes them anew where they differ. It does not lock what it has loaded.
-/

namespace SecondBrain

open Lib

namespace Knowledge

open Calendar (strip)

/-- `hashlib.sha256` of the UTF-8 bytes of a text, in hexadecimal. -/
abbrev Sha256 := String → String

variable (sha256 : Sha256)

/-- The largest number of an integer column. -/
def maxInteger : Nat := 2147483647

def slice (text : String) (start stop : Nat) : String :=
  String.ofList ((text.toList.drop start).take (stop - start))

/-! ## Texts -/

/-- `replace("\r\n", "\n")`. -/
def joinLineEnds : List Char → List Char
  | '\r' :: '\n' :: rest => '\n' :: joinLineEnds rest
  | c :: rest => c :: joinLineEnds rest
  | [] => []

/-- `normalize_plain_text`, and `normalize_lf` of an extraction. -/
def normalizePlainText (value : String) : String :=
  String.ofList ((joinLineEnds value.toList).map fun c => if c = '\r' then '\n' else c)

/-- `MAX_CHUNKS`. -/
def maxChunks : Nat := 10000

/-- The chunk of a window. -/
def windowChunk (text : String) (start stop index : Nat) : TextChunk :=
  { chunkIndex := index
    content := slice text start stop
    charStart := start
    charEnd := stop
    contentHash := sha256 (slice text start stop)
    locator := none }

/-- The loop of `chunk_text`, from `start` on, with the chunks there are. Every
round starts later, so as many rounds as there are characters are enough. -/
def chunksFrom (text : String) (size overlap : Nat) :
    Nat → Nat → List TextChunk → Except String (List TextChunk)
  | 0, _, chunks => .ok chunks
  | rounds + 1, start, chunks =>
      if text.length ≤ start then .ok chunks
      else
        let stop := min (start + size) text.length
        if strip (slice text start stop) ≠ "" ∧ maxChunks ≤ chunks.length then
          .error "text produces more than 10000 chunks"
        else
          let chunks :=
            if strip (slice text start stop) = "" then chunks
            else chunks ++ [windowChunk sha256 text start stop chunks.length]
          if stop = text.length then .ok chunks
          else if stop - overlap ≤ start then
            .error "chunk settings do not permit forward progress"
          else chunksFrom text size overlap rounds (stop - overlap) chunks

/-- `chunk_text`. -/
def chunkText (text : String) (size overlap : Nat) : Except String (List TextChunk) :=
  if size = 0 ∨ size ≤ overlap then .error "chunk settings do not permit forward progress"
  else
    match chunksFrom sha256 text size overlap text.length 0 [] with
    | .error message => .error message
    | .ok [] => .error "text must contain a non-whitespace character"
    | .ok chunks => .ok chunks

/-! ## Chunks that come and go -/

def Store.acceptsChunk (db : Store) (c : SourceChunk) : Bool :=
  (db.document? c.documentId).isSome &&
    (db.chunks.all fun o => o.id != c.id &&
      !(o.documentId == c.documentId && o.chunkIndex == c.chunkIndex)) &&
    storableTexts [some c.content, c.locator] && decide (c.charEnd ≤ maxInteger) &&
    decide (c.chunkIndex ≤ maxInteger)

def Store.insertChunks (db : Store) : List SourceChunk → Option Store
  | [] => some db
  | c :: rest =>
      if db.acceptsChunk c then
        Store.insertChunks { db with chunks := db.chunks ++ [c] } rest
      else none

/-- A proposal when the chunks with these identifiers are gone. -/
def MemoryProposal.without (p : MemoryProposal) (gone : List Uuid) : MemoryProposal :=
  if p.sourceChunkId.any gone.contains then { p with sourceChunkId := none } else p

/-- The chunks are deleted, and the proposals that cite them do so no more. -/
def Store.deleteChunks (db : Store) (gone : List Uuid) : Store :=
  { db with
    chunks := db.chunks.filter fun c => !gone.contains c.id
    proposals := db.proposals.map (·.without gone) }

/-- The proposals that the deletion of chunks has to change. -/
def Store.citing (db : Store) (gone : List Uuid) : List Uuid :=
  (db.proposals.filter fun p => p.sourceChunkId.any gone.contains).map (·.id)

/-! ## Documents -/

structure IngestRequest where
  sourceId : Uuid
  normalizedText : String
  mediaType : String
  originalFilename : Option String
  byteSize : Nat
  chunks : List TextChunk

inductive IngestionOutcome where
  | created
  | updated
  | unchanged
deriving DecidableEq, Repr

structure LoadedDocument where
  document : SourceDocument
  chunks : List SourceChunk

/-- The document of a source and its chunks. -/
def Store.loaded (db : Store) (sourceId : Uuid) : Option LoadedDocument :=
  (db.documentOf sourceId).map fun document =>
    { document := document
      chunks := (db.chunks.filter fun c => c.documentId == document.id).insertionSort
        fun a b => a.chunkIndex ≤ b.chunkIndex }

/-- What an ingestion finds of a source that it may read. -/
def loadDocument (db : Store) (q : IngestRequest) : Except HttpError (Option LoadedDocument) :=
  if (db.source? q.sourceId).isNone || !db.grantsAccess .legacyOnly q.sourceId then
    .error ⟨404, "source not found"⟩
  else .ok (db.loaded q.sourceId)

/-- The document as an ingestion leaves it. -/
def IngestRequest.document (q : IngestRequest) (id : Uuid) (now : Instant) : SourceDocument :=
  { id := id
    sourceId := q.sourceId
    mediaType := q.mediaType
    originalFilename := q.originalFilename
    byteSize := some q.byteSize
    extractedText := some q.normalizedText
    ingestionStatus := .extracted
    errorCode := none
    extractedAt := some now }

def IngestRequest.newChunks (q : IngestRequest) (documentId : Uuid) (ids : Nat → Uuid) :
    List SourceChunk :=
  q.chunks.zipIdx.map fun (c, n) => { c with id := ids n, documentId := documentId }

/-- A column is written where it differs from what was loaded. -/
def written {α : Type} [DecidableEq α] (loaded new current : α) : α :=
  if new = loaded then current else new

def SourceDocument.update (current loaded new : SourceDocument) : SourceDocument :=
  { current with
    mediaType := written loaded.mediaType new.mediaType current.mediaType
    originalFilename :=
      written loaded.originalFilename new.originalFilename current.originalFilename
    byteSize := written loaded.byteSize new.byteSize current.byteSize
    extractedText := written loaded.extractedText new.extractedText current.extractedText
    ingestionStatus := written loaded.ingestionStatus new.ingestionStatus current.ingestionStatus
    errorCode := written loaded.errorCode new.errorCode current.errorCode
    extractedAt := written loaded.extractedAt new.extractedAt current.extractedAt }

def Store.putDocument (db : Store) (document : SourceDocument) : Store :=
  { db with documents := replace (·.id) document db.documents }

def LoadedDocument.chunksIdentical (l : LoadedDocument) (q : IngestRequest) : Bool :=
  l.chunks.map (·.toTextChunk) == q.chunks

def LoadedDocument.metadataIdentical (l : LoadedDocument) (q : IngestRequest) : Bool :=
  { l.document with extractedAt := none } ==
    { q.document l.document.id 0 with sourceId := l.document.sourceId, extractedAt := none }

/-- The chunks that an ingestion deletes. -/
def LoadedDocument.gone (l : LoadedDocument) (q : IngestRequest) : List Uuid :=
  if l.chunksIdentical q then [] else l.chunks.map (·.id)

/-- `upsert_document`, after the document was loaded. -/
def writeDocument (db : Store) (q : IngestRequest) (loaded : Option LoadedDocument)
    (ids : Nat → Uuid) (documentId : Uuid) (now : Instant) :
    Except HttpError (IngestionOutcome × Store) :=
  let writes : Option (IngestionOutcome × Store) :=
    match loaded with
    | none =>
        if (db.documentOf q.sourceId).isSome || (db.document? documentId).isSome ||
            !storableTexts [some q.normalizedText, q.originalFilename, some q.mediaType] then none
        else
          (Store.insertChunks
            { db with documents := db.documents ++ [q.document documentId now] }
            (q.newChunks documentId ids)).map fun stored => (.created, stored)
    | some l =>
        if l.metadataIdentical q && l.chunksIdentical q then some (.unchanged, db)
        else if !storableTexts [some q.normalizedText, q.originalFilename, some q.mediaType] then none
        else
          match db.document? l.document.id with
          | none => none
          | some current =>
              let updated := db.putDocument
                (current.update l.document (q.document l.document.id now))
              if l.chunksIdentical q then some (.updated, updated)
              else
                ((updated.deleteChunks (l.gone q)).insertChunks
                  (q.newChunks l.document.id ids)).map fun stored => (.updated, stored)
  match writes with
  | none => .error databaseUnavailable
  | some p => .ok p

inductive IngestionPhase where
  | arrived
  | loaded (found : Option LoadedDocument)
  | answered (answer : Except HttpError IngestionOutcome)

/-- The proposals that the end of an ingestion has to change. -/
def Store.touched (db : Store) (q : IngestRequest) (found : Option LoadedDocument) : List Uuid :=
  db.citing ((found.map (·.gone q)).getD [])

end Knowledge

end SecondBrain
