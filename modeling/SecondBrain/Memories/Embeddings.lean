import SecondBrain.Knowledge.Ingestion
import SecondBrain.Lib.Keyset
import SecondBrain.Memories.Search

/-!
# Embeddings of memories

An embedding is kept with the identity it was made under: the provider, the model, the
dimensions and the hash of the text. The text is put together twice, by the database where it
selects the stale embeddings and by the program where it makes them anew. A batch selects some,
asks the provider for all of them at once, locks the rows and writes those that are still what
they were selected as. What is read before and after the locks are two states of the tables.
-/

namespace SecondBrain

open Lib

namespace Memories

open Knowledge (MemoryStatus normalizePlainText)

/-! ## The rows -/

/-- `provider`, `model` and `dimensions`. -/
@[ext]
structure EmbeddingIdentity where
  provider : String
  model : String
  dimensions : Nat
deriving DecidableEq

structure MemoryEmbedding (F : Type) extends EmbeddingIdentity where
  id : Uuid
  memoryId : Uuid
  embedding : List F
  inputHash : String
  embeddedAt : Instant
  createdAt : Instant
  updatedAt : Instant

/-- The memories and their embeddings; a memory has one at most. -/
structure EmbeddingTables (F : Type) where
  memories : MemoryTable
  embeddings : List (MemoryEmbedding F)
  keyed : Keyed (·.memoryId) embeddings

def EmbeddingTables.embeddingOf {F : Type} (t : EmbeddingTables F) (memoryId : Uuid) :
    Option (MemoryEmbedding F) :=
  lookup (·.memoryId) memoryId t.embeddings

/-- The settings of the embeddings, as they are accepted: a model has a name without blanks around
it, the provider and the dimensions are the only ones there are. -/
structure EmbeddingSettings where
  embeddingModel : String := "text-embedding-3-small"
  stripped : Calendar.strip embeddingModel = embeddingModel
  nonblank : embeddingModel ≠ ""

/-- `configured_embedding_identity` -/
def EmbeddingSettings.identity (settings : EmbeddingSettings) : EmbeddingIdentity :=
  ⟨"openai", settings.embeddingModel, 1536⟩

/-! ## The text of a memory in the program -/

/-- The lower-case hexadecimal SHA-256 of some bytes. -/
abbrev Sha256 := List UInt8 → String

def utf8Bytes (text : String) : List UInt8 := text.toUTF8.data.toList

/-- `normalize_line_endings` is what plain texts are normalized by, and `or ""` an empty text. -/
def canonicalMemoryText (m : SearchedMemory) : String :=
  let title := normalizePlainText (m.title.getD "")
  let summary := normalizePlainText (m.summary.getD "")
  let content := normalizePlainText m.content
  let source := normalizePlainText (m.source.getD "")
  "TITLE:\n" ++ title ++ "\n\nSUMMARY:\n" ++ summary ++ "\n\nCONTENT:\n" ++ content ++
    "\n\nSOURCE:\n" ++ source

def canonicalInputHash (sha256 : Sha256) (text : String) : String := sha256 (utf8Bytes text)

/-- The identity a row has, with the hash of its text. -/
def MemoryEmbedding.currentIdentity {F : Type} (e : MemoryEmbedding F) :
    EmbeddingIdentity × String :=
  (e.toEmbeddingIdentity, e.inputHash)

/-- `(*identity_prefix, current_hash)` -/
def expectedIdentity (sha256 : Sha256) (identity : EmbeddingIdentity) (m : SearchedMemory) :
    EmbeddingIdentity × String :=
  (identity, canonicalInputHash sha256 (canonicalMemoryText m))

/-! ## The text of a memory in the database

The value of an expression is `none` for `NULL`. -/

/-- `replace`: the occurrences of a text, from the left and without overlap. While `skip` is
positive the characters are those of the last one. -/
def replaceFrom (from_ to_ : List Char) : Nat → List Char → List Char
  | _, [] => []
  | skip + 1, _ :: rest => replaceFrom from_ to_ skip rest
  | 0, c :: rest =>
      if from_.isPrefixOf (c :: rest) then to_ ++ replaceFrom from_ to_ (from_.length - 1) rest
      else c :: replaceFrom from_ to_ 0 rest

/-- A function of the database is `NULL` where its argument is. -/
def replaceSql (value : Option String) (from_ to_ : String) : Option String :=
  value.map fun s => String.ofList (replaceFrom from_.toList to_.toList 0 s.toList)

def coalesceSql (value : Option String) (default : String) : Option String :=
  some (value.getD default)

/-- `concat` leaves out what is `NULL`. -/
def concatSql (values : List (Option String)) : Option String :=
  some (String.join (values.map (·.getD "")))

/-- `!=`, which is `NULL` if one side is. -/
def differSql {A : Type} [DecidableEq A] (a b : Option A) : Option Bool := do
  return decide ((← a) ≠ (← b))

def orSql : Option Bool → Option Bool → Option Bool
  | some true, _ | _, some true => some true
  | some false, some false => some false
  | none, _ | _, none => none

@[simp] theorem differSql_some {A : Type} [DecidableEq A] (a b : A) :
    differSql (some a) (some b) = some (decide (a ≠ b)) := rfl

@[simp] theorem orSql_some (a b : Bool) : orSql (some a) (some b) = some (a || b) := by
  cases a <;> cases b <;> rfl

def normalizedSql (column : Option String) : Option String :=
  replaceSql (replaceSql (coalesceSql column "") "\r\n" "\n") "\r" "\n"

def canonicalMemoryTextSql (m : SearchedMemory) : Option String :=
  concatSql
    [some "TITLE:\n", normalizedSql m.title, some "\n\nSUMMARY:\n", normalizedSql m.summary,
      some "\n\nCONTENT:\n", normalizedSql (some m.content), some "\n\nSOURCE:\n",
      normalizedSql m.source]

/-- `encode(sha256(convert_to(…, 'UTF8')), 'hex')` -/
def currentHashSql (sha256 : Sha256) (m : SearchedMemory) : Option String :=
  (canonicalMemoryTextSql m).map fun text => sha256 (utf8Bytes text)

def staleEmbeddingPredicate {F : Type} (sha256 : Sha256) (identity : EmbeddingIdentity)
    (m : SearchedMemory) (e : MemoryEmbedding F) : Option Bool :=
  orSql (orSql (orSql (differSql (some e.inputHash) (currentHashSql sha256 m))
    (differSql (some e.provider) (some identity.provider)))
    (differSql (some e.model) (some identity.model)))
    (differSql (some e.dimensions) (some identity.dimensions))

/-! ## Selection -/

inductive EmbeddingScope where
  | project (id : Uuid)
  | unassigned
  | all
deriving DecidableEq

def EmbeddingScope.passes : EmbeddingScope → SearchedMemory → Bool
  | .project id, m => m.projectId == some id
  | .unassigned, m => m.projectId.isNone
  | .all, _ => true

inductive ReembeddingSelection where
  | stale
  | all
deriving DecidableEq

/-- A request of the right shape. -/
structure MemoryEmbeddingReembedRequest where
  scope : EmbeddingScope
  limit : Nat := 20
  selection : ReembeddingSelection
  limit_valid : 1 ≤ limit ∧ limit ≤ 50

/-- `created_at.asc(), id.asc()` -/
def creationKey (m : SearchedMemory) : (Lex (Instant × ℕ))ᵒᵈ :=
  OrderDual.toDual (toLex (m.createdAt, m.id.toNat))

section

variable {F : Type} (sha256 : Sha256) (identity : EmbeddingIdentity)

/-- Whether a memory is selected, with the embedding it is joined to. -/
def selects (request : MemoryEmbeddingReembedRequest) (m : SearchedMemory)
    (e : MemoryEmbedding F) : Bool :=
  decide (m.status = .active) && request.scope.passes m &&
    match request.selection with
    | .stale => decide (staleEmbeddingPredicate sha256 identity m e = some true)
    | .all => true

def selectReembeddingCandidates (t : EmbeddingTables F)
    (request : MemoryEmbeddingReembedRequest) : List SearchedMemory :=
  (newestFirst creationKey (t.memories.rows.filter fun m =>
    (t.embeddingOf m.id).any (selects sha256 identity request m))).take request.limit

end

/-! ## A batch -/

inductive EmbeddingError where
  /-- `ProviderUnavailableError` -/
  | unavailable
  /-- `ProviderRequestError` -/
  | request
  /-- `InvalidEmbeddingResponseError` -/
  | invalidResponse
  /-- A memory that was selected is gone. -/
  | keyError
  | database (e : DatabaseError)
deriving DecidableEq

/-- What a provider can answer with. -/
inductive Answer (F : Type) where
  | number (x : F)
  | list (items : List (Answer F))
  | other

structure EmbeddingProvider (F : Type) where
  name : String
  model : String
  dimensions : Nat
  embedMany : List String → Except EmbeddingError (Answer F)

def EmbeddingProvider.identity {F : Type} (provider : EmbeddingProvider F) : EmbeddingIdentity :=
  ⟨provider.name, provider.model, provider.dimensions⟩

/-- The floats: which are finite, and what a column of single precision holds of one. -/
structure Floats (F : Type) where
  finite : F → Bool
  single : F → Option F

inductive ReembeddingStatus where
  | updated
  | unchanged
  | skipped
deriving DecidableEq

/-- `metadata`: a row without its vector. -/
structure EmbeddingMetadata extends EmbeddingIdentity where
  id : Uuid
  memoryId : Uuid
  inputHash : String
  embeddedAt : Instant
  createdAt : Instant
  updatedAt : Instant

def MemoryEmbedding.metadata {F : Type} (e : MemoryEmbedding F) : EmbeddingMetadata :=
  { e with }

structure ReembeddingItem where
  memoryId : Uuid
  status : ReembeddingStatus
  previous : EmbeddingMetadata
  current : Option EmbeddingMetadata
  skippedReason : Option String := none

section

variable {F : Type} [DecidableEq F] (floats : Floats F) (sha256 : Sha256)

def validateNumber : Answer F → Except EmbeddingError F
  | .number x => if floats.finite x then .ok x else .error .invalidResponse
  | _ => .error .invalidResponse

def validateEmbedding (vector : Answer F) (dimensions : Nat) : Except EmbeddingError (List F) :=
  match vector with
  | .list items =>
      if items.length = dimensions then items.mapM (validateNumber floats)
      else .error .invalidResponse
  | _ => .error .invalidResponse

def checkIdentity (provider : EmbeddingProvider F) (expected : EmbeddingIdentity) :
    Except EmbeddingError Unit :=
  if provider.identity = expected then .ok () else .error .invalidResponse

/-- The vectors of the texts, one for each. -/
def embedTexts (provider : EmbeddingProvider F) (texts : List String) :
    Except EmbeddingError (List (List F)) := do
  match ← provider.embedMany texts with
  | .list vectors =>
      if vectors.length = texts.length then
        vectors.mapM fun vector => validateEmbedding floats vector provider.dimensions
      else .error .invalidResponse
  | _ => .error .invalidResponse

/-- What a column of this length stores: blanks past it are cut off, and anything else is an
error. -/
def storedText (length : Nat) (s : String) : Option String :=
  if hasNul s then none
  else if s.length ≤ length then some s
  else if (s.toList.drop length).all (· == ' ') then some (String.ofList (s.toList.take length))
  else none

/-- The row as it is read back after it was written. -/
def writtenRow (row : MemoryEmbedding F) (identity : EmbeddingIdentity) (vector : List F)
    (hash : String) (now writtenAt : Instant) : Except EmbeddingError (MemoryEmbedding F) :=
  match storedText 50 identity.provider, storedText 100 identity.model,
      vector.mapM floats.single with
  | some provider, some model, some single =>
      if identity.dimensions = 1536 ∧ vector.length = 1536 then
        .ok { row with
          provider := provider, model := model, dimensions := identity.dimensions
          embedding := single, inputHash := hash, embeddedAt := now, updatedAt := writtenAt }
      else .error (.database .integrity)
  | _, _, _ => .error (.database .data)

/-- The row of its memory is written anew. -/
def EmbeddingTables.write (t : EmbeddingTables F) (row : MemoryEmbedding F) :
    EmbeddingTables F where
  memories := t.memories
  embeddings := replace (·.memoryId) row t.embeddings
  keyed := t.keyed.replace

/-- What a batch holds of a candidate: the row it was selected with, the vector and the hash. -/
structure Produced (F : Type) where
  memoryId : Uuid
  snapshot : EmbeddingMetadata
  vector : List F
  hash : String

/-- One candidate after the locks; `locked` is what was read under them. -/
def reembedOne (locked : EmbeddingTables F) (selection : ReembeddingSelection)
    (identity : EmbeddingIdentity) (now writtenAt : Instant) (t : EmbeddingTables F)
    (produced : Produced F) : Except EmbeddingError (ReembeddingItem × EmbeddingTables F) :=
  match lookup (·.id) produced.memoryId locked.memories.rows with
  | none => .error .keyError
  | some memory =>
      match locked.embeddingOf produced.memoryId with
      | none => .ok (⟨produced.memoryId, .skipped, produced.snapshot, none,
          some "embedding_missing"⟩, t)
      | some row =>
          let before := row.metadata
          if memory.status ≠ .active then
            .ok (⟨produced.memoryId, .skipped, before, some before, some "memory_not_active"⟩, t)
          else
            let expected := expectedIdentity sha256 identity memory
            let unchanged : ReembeddingItem := ⟨produced.memoryId, .unchanged, before, some before,
              none⟩
            if expected.2 ≠ produced.hash then .ok (unchanged, t)
            else if ¬ (selection = .all ∨ row.currentIdentity ≠ expected) then .ok (unchanged, t)
            else if selection = .all ∧ row.currentIdentity = (identity, produced.hash) ∧
                row.embedding = produced.vector then .ok (unchanged, t)
            else do
              let written ← writtenRow floats row identity produced.vector produced.hash now
                writtenAt
              return (⟨produced.memoryId, .updated, before, some written.metadata, none⟩,
                t.write written)

def reembedAll (locked : EmbeddingTables F) (selection : ReembeddingSelection)
    (identity : EmbeddingIdentity) (now writtenAt : Instant) :
    List (Produced F) → EmbeddingTables F →
      Except EmbeddingError (List ReembeddingItem × EmbeddingTables F)
  | [], t => .ok ([], t)
  | produced :: rest, t => do
      let (item, t) ← reembedOne floats sha256 locked selection identity now writtenAt t produced
      let (items, t) ← reembedAll locked selection identity now writtenAt rest t
      return (item :: items, t)

/-- What a batch asks of its surroundings: the provider, and the clocks. -/
structure Round (F : Type) where
  provider : Except EmbeddingError (EmbeddingProvider F)
  now : Instant
  writtenAt : Instant

def producedOf (t : EmbeddingTables F) (candidates : List SearchedMemory)
    (vectors : List (List F)) : List (Produced F) :=
  (candidates.zip vectors).filterMap fun (m, vector) =>
    (t.embeddingOf m.id).map fun row =>
      ⟨m.id, row.metadata, vector, canonicalInputHash sha256 (canonicalMemoryText m)⟩

/-- A batch of the memories that were selected. -/
def reembedCandidates (expected : EmbeddingIdentity) (selection : ReembeddingSelection)
    (selected locked : EmbeddingTables F) (round : Round F) (candidates : List SearchedMemory) :
    Except EmbeddingError (List ReembeddingItem × EmbeddingTables F) := do
  let provider ← round.provider
  checkIdentity provider expected
  let vectors ← embedTexts floats provider (candidates.map canonicalMemoryText)
  reembedAll floats sha256 locked selection provider.identity round.now round.writtenAt
    (producedOf sha256 selected candidates vectors) locked

def reembedBatch (expected : EmbeddingIdentity) (request : MemoryEmbeddingReembedRequest)
    (selected locked : EmbeddingTables F) (round : Round F) :
    Except EmbeddingError (List ReembeddingItem × EmbeddingTables F) :=
  match selectReembeddingCandidates sha256 expected selected request with
  | [] => .ok ([], locked)
  | candidates =>
      reembedCandidates floats sha256 expected request.selection selected locked round candidates

end

end Memories

end SecondBrain
