import Mathlib.Order.Lex
import SecondBrain.Knowledge.Model
import SecondBrain.Lib.Latest

/-!
# Searching memories

Two channels rank the memories that pass the filters: those whose text matches the words,
by their score, and those that have an embedding, by its distance. A hybrid search takes a
window from the top of each, adds the reciprocals of the ranks a memory has in them, and
shows one page of the order of these sums. What the database computes of a memory, the
match, the score, the distance and the float arithmetic, is a parameter.
-/

namespace SecondBrain.Memories

open Lib Knowledge

structure SearchedMemory extends Knowledge.Memory where
  createdAt : Instant
deriving DecidableEq

/-- The rows of `memories`, told apart by the primary key. -/
structure MemoryTable where
  rows : List SearchedMemory
  keyed : Keyed (·.id) rows

/-! ## The filters -/

/-- One float is at most the other: their spellings are in the order of the floats. -/
def Score.AtMost (a b : Score) : Bool := a.digits * 10 ^ b.places ≤ b.digits * 10 ^ a.places

structure StructuredFilters where
  projectId : Option Uuid := none
  memoryType : Option MemoryType := none
  status : Option MemoryStatus := none
  importanceMin : Option Score := none
  importanceMax : Option Score := none
  confidenceMin : Option Score := none
  confidenceMax : Option Score := none
  eventTimeFrom : Option Instant := none
  eventTimeTo : Option Instant := none
  createdAtFrom : Option Instant := none
  createdAtTo : Option Instant := none

/-- A filter without a value is left out; one with a value fails on a column that has none. -/
def meets {A B : Type} (value : Option A) (column : Option B) (test : A → B → Bool) : Bool :=
  match value, column with
  | none, _ => true
  | some _, none => false
  | some a, some b => test a b

namespace StructuredFilters

variable (f : StructuredFilters)

/-- `_apply_structured_filters`. -/
def passes (m : SearchedMemory) : Bool :=
  meets f.projectId m.projectId (fun value column => column == value) &&
  meets f.memoryType (some m.memoryType) (fun value column => column == value) &&
  meets f.status (some m.status) (fun value column => column == value) &&
  meets f.importanceMin (some m.importance) (fun value column => Score.AtMost value column) &&
  meets f.importanceMax (some m.importance) (fun value column => Score.AtMost column value) &&
  meets f.confidenceMin (some m.confidence) (fun value column => Score.AtMost value column) &&
  meets f.confidenceMax (some m.confidence) (fun value column => Score.AtMost column value) &&
  meets f.eventTimeFrom m.eventTime (fun value column => decide (value ≤ column)) &&
  meets f.eventTimeTo m.eventTime (fun value column => decide (column ≤ value)) &&
  meets f.createdAtFrom (some m.createdAt) (fun value column => decide (value ≤ column)) &&
  meets f.createdAtTo (some m.createdAt) (fun value column => decide (column ≤ value))

/-- The filters of an explained search, which can ask for memories without a project. -/
def passesUnassigned (unassignedOnly : Bool) (m : SearchedMemory) : Bool :=
  f.passes m && (!unassignedOnly || m.projectId.isNone)

end StructuredFilters

/-! ## The channels -/

/-- What the database computes for a search, and the floats it adds up. -/
structure Index (V S D F : Type) where
  /-- `search_vector @@ websearch_to_tsquery('simple', query)` -/
  isMatch : String → SearchedMemory → Bool
  /-- `ts_rank_cd(search_vector, websearch_to_tsquery('simple', query))` -/
  lexicalScore : String → SearchedMemory → S
  /-- The cosine distance of the memory's embedding, where it has one. -/
  distance : V → SearchedMemory → Option D
  /-- `1.0 / n` -/
  reciprocal : Nat → F

/-- `RRF_K` -/
def rrfK : Nat := 60

/-- `_hybrid_candidate_limit` -/
def hybridCandidateLimit (limit offset : Nat) : Nat := min 1000 (max 100 ((limit + offset) * 5))

/-- The last keys of each order: newer memories first, then smaller identifiers. -/
abbrev Recency := Lex (Instant × ℕᵒᵈ)

def recency (m : SearchedMemory) : Recency := toLex (m.createdAt, OrderDual.toDual m.id.toNat)

/-- A row of a channel: a memory, its `row_number()`, and what it is ranked by. -/
structure RankedMemory (X : Type) where
  memory : SearchedMemory
  rank : Nat
  value : X

/-- The rows in their order, numbered from one on. -/
def numbered {X : Type} (rows : List (SearchedMemory × X)) : List (RankedMemory X) :=
  (rows.zipIdx 1).map fun row => ⟨row.1.1, row.2, row.1.2⟩

/-- A memory of the candidates, with what the channels say of it. -/
structure FusedCandidate (S D F : Type) where
  memoryId : Uuid
  lexicalRank : Option Nat
  semanticRank : Option Nat
  lexicalScore : Option S
  semanticDistance : Option D
  lexicalContribution : Option F
  semanticContribution : Option F
  fusedScore : F

structure ExplainedResult (S D F : Type) where
  rank : Nat
  memory : SearchedMemory
  lexicalRank : Option Nat := none
  semanticRank : Option Nat := none
  lexicalScore : Option S := none
  semanticDistance : Option D := none
  lexicalContribution : Option F := none
  semanticContribution : Option F := none
  fusedScore : Option F := none

inductive ExplainedSearchMode where
  | lexical
  | semantic
  | hybrid
deriving DecidableEq, Repr

section

variable {V S D F : Type} [LinearOrder S] [LinearOrder D] [LinearOrder F] [Add F] [Zero F]
  (index : Index V S D F) (table : MemoryTable)

/-- `score.desc(), created_at.desc(), id.asc()` -/
def lexicalKey (row : SearchedMemory × S) : Lex (S × Recency) := toLex (row.2, recency row.1)

/-- `distance.asc(), created_at.desc(), id.asc()` -/
def semanticKey (row : SearchedMemory × D) : Lex (Dᵒᵈ × Recency) :=
  toLex (OrderDual.toDual row.2, recency row.1)

/-- The memories the words are found in, with their scores. -/
def lexicalMatches (query : String) (passes : SearchedMemory → Bool) : List (SearchedMemory × S) :=
  (table.rows.filter fun m => index.isMatch query m && passes m).map fun m =>
    (m, index.lexicalScore query m)

/-- The memories with an embedding, with its distance. -/
def semanticMatches (queryVector : V) (passes : SearchedMemory → Bool) :
    List (SearchedMemory × D) :=
  (table.rows.filter passes).filterMap fun m =>
    (index.distance queryVector m).map fun distance => (m, distance)

def lexicalRows (query : String) (passes : SearchedMemory → Bool) : List (RankedMemory S) :=
  numbered (newestFirst lexicalKey (lexicalMatches index table query passes))

def semanticRows (queryVector : V) (passes : SearchedMemory → Bool) : List (RankedMemory D) :=
  numbered (newestFirst semanticKey (semanticMatches index table queryVector passes))

/-- A candidate with its row of each channel that has it, as the outer joins give them. -/
def fuse (lexical : List (RankedMemory S)) (semantic : List (RankedMemory D)) (id : Uuid) :
    FusedCandidate S D F :=
  let lexicalRow := lookup (·.memory.id) id lexical
  let semanticRow := lookup (·.memory.id) id semantic
  let lexicalContribution := lexicalRow.map fun row => index.reciprocal (rrfK + row.rank)
  let semanticContribution := semanticRow.map fun row => index.reciprocal (rrfK + row.rank)
  { memoryId := id
    lexicalRank := lexicalRow.map (·.rank)
    semanticRank := semanticRow.map (·.rank)
    lexicalScore := lexicalRow.map (·.value)
    semanticDistance := semanticRow.map (·.value)
    lexicalContribution := lexicalContribution
    semanticContribution := semanticContribution
    fusedScore := lexicalContribution.getD 0 + semanticContribution.getD 0 }

/-- The union of both windows, fused. -/
def fusedCandidates (query : String) (queryVector : V) (passes : SearchedMemory → Bool)
    (candidateLimit : Nat) : List (FusedCandidate S D F) :=
  let lexical := (lexicalRows index table query passes).take candidateLimit
  let semantic := (semanticRows index table queryVector passes).take candidateLimit
  let ids := (lexical.map (·.memory.id) ++ semantic.map (·.memory.id)).dedup
  ids.map (fuse index lexical semantic)

/-- `fused_score.desc(), created_at.desc(), id.asc()` -/
def finalKey (row : SearchedMemory × FusedCandidate S D F) : Lex (F × Recency) :=
  toLex (row.2.fusedScore, recency row.1)

/-- The candidates with their memories, in the final order. -/
def finalRanked (query : String) (queryVector : V) (passes : SearchedMemory → Bool)
    (candidateLimit : Nat) : List (SearchedMemory × FusedCandidate S D F) :=
  newestFirst finalKey <|
    (fusedCandidates index table query queryVector passes candidateLimit).filterMap fun row =>
      (lookup (·.id) row.memoryId table.rows).map fun m => (m, row)

/-- `search_memories_hybrid` -/
def searchMemoriesHybrid (query : String) (queryVector : V) (filters : StructuredFilters)
    (limit offset : Nat) : List SearchedMemory :=
  let candidateLimit := hybridCandidateLimit limit offset
  let ranked := finalRanked index table query queryVector filters.passes candidateLimit
  ((ranked.drop offset).take limit).map (·.1)

/-- `search_memories_explained` -/
def searchMemoriesExplained (query : String) (mode : ExplainedSearchMode) (queryVector : Option V)
    (filters : StructuredFilters) (unassignedOnly : Bool) (limit offset : Nat) :
    Except String (List (ExplainedResult S D F)) :=
  let passes := filters.passesUnassigned unassignedOnly
  match mode, queryVector with
  | .lexical, _ =>
      .ok <| (((lexicalRows index table query passes).drop offset).take limit).map fun row =>
        { rank := row.rank
          memory := row.memory
          lexicalRank := some row.rank
          lexicalScore := some row.value }
  | _, none => .error "query_vector is required for semantic search"
  | .semantic, some vector =>
      .ok <| (((semanticRows index table vector passes).drop offset).take limit).map fun row =>
        { rank := row.rank
          memory := row.memory
          semanticRank := some row.rank
          semanticDistance := some row.value }
  | .hybrid, some vector =>
      let candidateLimit := hybridCandidateLimit limit offset
      let ranked := numbered (finalRanked index table query vector passes candidateLimit)
      .ok <| ((ranked.drop offset).take limit).map fun row =>
        { rank := row.rank
          memory := row.memory
          lexicalRank := row.value.lexicalRank
          semanticRank := row.value.semanticRank
          lexicalScore := row.value.lexicalScore
          semanticDistance := row.value.semanticDistance
          lexicalContribution := row.value.lexicalContribution
          semanticContribution := row.value.semanticContribution
          fusedScore := some row.value.fusedScore }

end

end SecondBrain.Memories
