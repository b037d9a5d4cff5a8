import SecondBrain.Knowledge.Ingestion

/-!
# What an extraction is asked and what it answers

The input of an extraction is hashed, so that asking for the same again finds the
run it has. What a provider answers is not trusted: it must speak of exactly the
chunks it was given, and the evidence of every proposal must be found at the place
it names.
-/

namespace SecondBrain

open Lib

namespace Knowledge

open Calendar (strip)

/-! ## Input -/

def optionalText : Option String → Json
  | none => .null
  | some s => .str s

def optionalId : Option Uuid → Json
  | none => .null
  | some id => .str id.text

/-- `ChunkSnapshot.model_dump`. -/
def TextChunk.dump (c : TextChunk) : Json :=
  .obj
    [("chunk_index", .int c.chunkIndex), ("content", .str c.content),
      ("content_hash", .str c.contentHash), ("char_start", .int c.charStart),
      ("char_end", .int c.charEnd), ("locator", optionalText c.locator)]

/-- `MAX_INPUT_BYTES`. -/
def maxInputBytes : Nat := 250000

/-- An extraction provider, as runs are told apart by it. -/
structure ProviderName where
  name : String
  model : String
  promptVersion : String
deriving DecidableEq, Repr

def inputPayload (provider : ProviderName) (projectId : Option Uuid) (maximum : Nat)
    (chunks : List TextChunk) : Json :=
  .obj
    [("provider", .str provider.name), ("model", .str provider.model),
      ("prompt_version", .str provider.promptVersion), ("project_id", optionalId projectId),
      ("max_proposals_per_chunk", .int maximum), ("chunks", .arr (chunks.map (·.dump)))]

/-- `canonical_input`: the hash of the input and the chunks as they are asked for. -/
def canonicalInput (sha256 : Sha256) (provider : ProviderName) (projectId : Option Uuid)
    (maximum : Nat) (chunks : List TextChunk) : Except HttpError (String × List TextChunk) :=
  let normalized := chunks.map fun c => { c with content := normalizePlainText c.content }
  let data := (inputPayload provider projectId maximum normalized).dumps
  if Json.octets data.toList > maxInputBytes then .error ⟨422, "extraction input too large"⟩
  else .ok (sha256 data, normalized)

/-! ## Answer -/

/-- A proposal as the provider makes it; a score that is no finite number from 0
to 1 is nothing. -/
structure ExtractedProposal where
  title : Option String
  summary : Option String
  content : String
  memoryType : MemoryType
  importance : Option Score
  confidence : Option Score
  evidenceText : String
  evidenceStart : Int
  evidenceEnd : Int

structure ChunkExtraction where
  chunkIndex : Int
  proposals : List ExtractedProposal

/-- `MAX_CONTENT_LENGTH`. -/
def maxContentLength : Nat := 50000

/-- `_optional`. -/
def optional (value : Option String) (maximum : Option Nat) : Option (Option String) :=
  let text := value.map strip
  match text with
  | none => some none
  | some s =>
      if s = "" then some none
      else if maximum.any (· < s.length) then none
      else some (some s)

/-- Where the evidence is in its chunk, if it is where it is said to be. -/
def evidenceRange (chunk : TextChunk) (q : ExtractedProposal) : Option (Nat × Nat) :=
  if q.evidenceStart < 0 ∨ q.evidenceEnd ≤ q.evidenceStart ∨
      (chunk.content.length : Int) < q.evidenceEnd ∨ strip q.evidenceText = "" then none
  else if slice chunk.content q.evidenceStart.toNat q.evidenceEnd.toNat ≠ q.evidenceText then none
  else some (q.evidenceStart.toNat, q.evidenceEnd.toNat)

def Score.json (s : Score) : Json := .real s.digits s.places

/-- What the hash of a proposal is taken of. -/
def Candidate.payload (c : Candidate) : Json :=
  .obj
    [("source_chunk_hash", .str c.sourceChunkHash), ("project_id", optionalId c.projectId),
      ("proposal_index", .int c.proposalIndex), ("title", optionalText c.title),
      ("summary", optionalText c.summary), ("content", .str c.content),
      ("memory_type", .str c.memoryType.value), ("importance", c.importance.json),
      ("confidence", c.confidence.json), ("evidence_text", .str c.evidenceText),
      ("evidence_char_start", .int c.evidenceCharStart),
      ("evidence_char_end", .int c.evidenceCharEnd),
      ("source_locator", optionalText c.sourceLocator)]

def Candidate.hashed (sha256 : Sha256) (c : Candidate) : Candidate :=
  { c with proposalHash := sha256 c.payload.dumps }

/-- One proposal of `validate_result`. -/
def validateProposal (sha256 : Sha256) (projectId : Option Uuid) (chunk : TextChunk) (index : Nat)
    (q : ExtractedProposal) : Option Candidate := do
  let title ← optional q.title (some 255)
  let summary ← optional q.summary none
  let content := strip q.content
  if content = "" ∨ maxContentLength < content.length then none
  let importance ← q.importance
  let confidence ← q.confidence
  let (start, stop) ← evidenceRange chunk q
  return Candidate.hashed sha256
    { sourceChunkHash := chunk.contentHash
      projectId := projectId
      proposalIndex := index
      title := title
      summary := summary
      content := content
      memoryType := q.memoryType
      importance := importance
      confidence := confidence
      evidenceText := q.evidenceText
      evidenceCharStart := chunk.charStart + start
      evidenceCharEnd := chunk.charStart + stop
      sourceLocator := chunk.locator
      proposalHash := "" }

/-- The proposals for one chunk. -/
def validateChunk (sha256 : Sha256) (projectId : Option Uuid) (maximum : Nat)
    (chunks : List TextChunk) (item : ChunkExtraction) : Option (List (Nat × Candidate)) := do
  let chunk ← chunks.find? fun c => (c.chunkIndex : Int) == item.chunkIndex
  if maximum < item.proposals.length then none
  (item.proposals.zipIdx).mapM fun (q, index) => do
    let candidate ← validateProposal sha256 projectId chunk index q
    return (chunk.chunkIndex, candidate)

/-- `validate_result`: every proposal with the index of its chunk. -/
def validateResult (sha256 : Sha256) (projectId : Option Uuid) (maximum : Nat)
    (chunks : List TextChunk) (result : List ChunkExtraction) : Option (List (Nat × Candidate)) := do
  let indexes := result.map (·.chunkIndex)
  let selected := chunks.map fun c => (c.chunkIndex : Int)
  if ¬ (indexes.Nodup ∧ indexes ⊆ selected ∧ selected ⊆ indexes) then none
  let found ← result.mapM (validateChunk sha256 projectId maximum chunks)
  return found.flatten

end Knowledge

end SecondBrain
