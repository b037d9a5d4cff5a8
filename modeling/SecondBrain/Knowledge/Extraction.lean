import Mathlib.Data.Prod.Lex
import SecondBrain.Knowledge.Canonical
import SecondBrain.Knowledge.Ingestion

/-!
# Extractions

An extraction selects chunks, claims the run of its input, asks the provider
outside of any transaction, and stores what was proposed or that the run has
failed. It does not lock the chunks it has read, so what it stores may speak of
chunks that an ingestion has replaced.
-/

namespace SecondBrain

open Lib

namespace Knowledge

variable (sha256 : Sha256)

/-! ## Proposals -/

/-- Whether the tables take the proposal. -/
def Store.acceptsProposal (db : Store) (p : MemoryProposal) : Bool :=
  (db.proposal? p.id).isNone && (db.run? p.runId).isSome && db.hasProject p.projectId &&
    (p.sourceChunkId.all fun id => db.chunks.any (·.id == id)) &&
    (db.proposals.all fun o => !(o.runId == p.runId &&
      (o.proposalHash == p.proposalHash ||
        (p.sourceChunkId.isSome && o.sourceChunkId == p.sourceChunkId &&
          o.proposalIndex == p.proposalIndex)))) &&
    storableTexts [p.title, p.summary, some p.content, some p.evidenceText, p.sourceLocator] &&
    decide (p.evidenceCharEnd ≤ maxInteger)

/-- The proposals are inserted one after the other, or none is. -/
def Store.insertProposals (db : Store) : List MemoryProposal → Option Store
  | [] => some db
  | p :: rest =>
      if db.acceptsProposal p then
        Store.insertProposals { db with proposals := db.proposals ++ [p] } rest
      else none

def Store.proposalsOf (db : Store) (runId : Uuid) : List MemoryProposal :=
  db.proposals.filter fun p => p.runId == runId

/-! ## Requests -/

structure GenerateRequest where
  sourceId : Uuid
  projectId : Option Uuid
  sourceScope : SourceScope
  chunkStart : Nat
  chunkLimit : Nat
  maximum : Nat
  provider : Option ProviderName

inductive GenerationStatus where
  | created
  | retried
  | unchanged
deriving DecidableEq, Repr

structure GenerationResult where
  run : MemoryExtractionRun
  proposalCount : Nat
  generationStatus : GenerationStatus

def inProgress : HttpError := ⟨409, "extraction already in progress"⟩

/-- What a request has read when it asks for its run. -/
structure Selection where
  identity : RunIdentity
  rows : List SourceChunk
  /-- The rows as the provider gets them. -/
  chunks : List TextChunk

def Store.selectChunks (db : Store) (documentId : Uuid) (start limit : Nat) : List SourceChunk :=
  ((db.chunks.filter fun c =>
      c.documentId == documentId && decide (start ≤ c.chunkIndex)).insertionSort fun a b =>
    toLex (a.chunkIndex, a.id.toNat) ≤ toLex (b.chunkIndex, b.id.toNat)).take limit

/-- `generate`, up to the identity of the run. -/
def generateSelect (db : Store) (q : GenerateRequest) : Except HttpError Selection :=
  match q.provider, db.documentOf q.sourceId with
  | none, _ => .error ⟨503, "extraction provider unavailable"⟩
  | some provider, document =>
      if (db.source? q.sourceId).isNone || !db.grantsAccess q.sourceScope q.sourceId then
        .error ⟨404, "source not found"⟩
      else match document with
        | none => .error ⟨404, "document not found"⟩
        | some document =>
            if !db.hasProject q.projectId then .error ⟨404, "project not found"⟩
            else
              let rows := db.selectChunks document.id q.chunkStart q.chunkLimit
              if rows.isEmpty then .error ⟨422, "no chunks selected"⟩
              else do
                let (hash, chunks) ← canonicalInput sha256 provider q.projectId q.maximum
                  (rows.map (·.toTextChunk))
                return {
                  identity :=
                    { documentId := document.id
                      provider := provider.name
                      model := provider.model
                      promptVersion := provider.promptVersion
                      inputHash := hash }
                  rows := rows
                  chunks := chunks }

def Store.runOf (db : Store) (identity : RunIdentity) : Option MemoryExtractionRun :=
  db.runs.find? fun r => r.toRunIdentity == identity

/-- A run that is tried again. -/
def MemoryExtractionRun.retried (run : MemoryExtractionRun) (now : Instant) :
    MemoryExtractionRun :=
  { run with
    runStatus := .pending
    errorCode := none
    startedAt := some now
    completedAt := none }

def newRun (identity : RunIdentity) (projectId : Option Uuid) (id : Uuid) (now : Instant) :
    MemoryExtractionRun :=
  { identity with
    id := id
    projectId := projectId
    runStatus := .pending
    errorCode := none
    startedAt := some now
    completedAt := none }

/-- A run is inserted, unless somebody else has just inserted one with its identity. -/
def insertRun (db : Store) (run : MemoryExtractionRun) : Except HttpError Store :=
  if (db.runOf run.toRunIdentity).isSome || (db.run? run.id).isSome then .error inProgress
  else .ok { db with runs := db.runs ++ [run] }

/-- How a provider answers. -/
inductive ProviderOutcome where
  /-- `ProviderRequestError`. -/
  | failed
  /-- Any other exception. -/
  | raised
  | answered (result : List ChunkExtraction)

def providerFailed : String × HttpError := ("provider_failed", ⟨502, "extraction provider failed"⟩)

def invalidResponse : String × HttpError :=
  ("invalid_provider_response", ⟨502, "invalid extraction response"⟩)

/-- The proposals that are to be stored, or the code to fail the run with and the
answer that is given then. -/
def judge (q : GenerateRequest) (selection : Selection) :
    ProviderOutcome → Except (String × HttpError) (List (Nat × Candidate))
  | .failed => .error providerFailed
  | .raised => .error invalidResponse
  | .answered result =>
      match validateResult sha256 q.projectId q.maximum selection.chunks result with
      | some proposals => .ok proposals
      | none => .error invalidResponse

/-- `_fail_run`. The session still has the run as it left it, which is pending. -/
def failRun (db : Store) (runId : Uuid) (code : String) (now : Instant) : Store :=
  match db.run? runId with
  | none => db
  | some run =>
      db.putRun
        { run with
          runStatus := .failed
          errorCode := some code
          completedAt := some now }

/-- `_proposal`, of a chunk as it was when it was selected. -/
def proposalOf (runId : Uuid) (rows : List SourceChunk) (id : Uuid) (found : Nat × Candidate) :
    MemoryProposal :=
  { found.2 with
    id := id
    runId := runId
    sourceChunkId := (rows.find? fun c => c.chunkIndex == found.1).map (·.id) }

/-- The last transaction of `generate`. The status of the run that is looked at is
the one the session has kept, which is pending. -/
def storeProposals (db : Store) (runId : Uuid) (selection : Selection)
    (found : List (Nat × Candidate)) (status : GenerationStatus) (ids : Nat → Uuid) (now : Instant) :
    Except HttpError (GenerationResult × Store) :=
  match db.run? runId with
  | none => .error inProgress
  | some run =>
      let proposals := found.zipIdx.map fun (f, n) => proposalOf runId selection.rows (ids n) f
      let cleared := { db with proposals := db.proposals.filter fun p => p.runId != runId }
      match cleared.insertProposals proposals with
      | none => .error databaseUnavailable
      | some stored =>
          let completed :=
            { run with runStatus := .completed, errorCode := none, completedAt := some now }
          .ok (⟨completed, found.length, status⟩, stored.putRun completed)

inductive ExtractionPhase where
  | arrived
  | selected (x : Selection)
  /-- There was no run of the identity. -/
  | absent (x : Selection)
  | calling (x : Selection) (runId : Uuid) (status : GenerationStatus)
  | failing (runId : Uuid) (code : String) (answer : HttpError)
  | storing (x : Selection) (runId : Uuid) (found : List (Nat × Candidate))
      (status : GenerationStatus)
  | answered (answer : Except HttpError GenerationResult)

/-- The run that is at work. -/
def ExtractionPhase.runId? : ExtractionPhase → Option Uuid
  | .calling _ runId _ | .failing runId _ _ | .storing _ runId _ _ => some runId
  | .arrived | .selected _ | .absent _ | .answered _ => none

/-- `generate`, from the run of the identity on: it is there and completed, it is
there and at work, it has failed and is tried again, or it is not there. -/
def claimRun (db : Store) (x : Selection) (now : Instant) : ExtractionPhase × Store :=
  match db.runOf x.identity with
  | none => (.absent x, db)
  | some run =>
      match run.runStatus with
      | .completed => (.answered (.ok ⟨run, (db.proposalsOf run.id).length, .unchanged⟩), db)
      | .pending => (.answered (.error inProgress), db)
      | .failed => (.calling x run.id .retried, db.putRun (run.retried now))

def advanceExtraction (db : Store) (d : Draw) (outcome : ProviderOutcome) (q : GenerateRequest) :
    ExtractionPhase → Option (ExtractionPhase × Store)
  | .arrived =>
      match generateSelect sha256 db q with
      | .error e => some (.answered (.error e), db)
      | .ok x => some (.selected x, db)
  | .selected x => some (claimRun db x d.now)
  | .absent x =>
      match insertRun db (newRun x.identity q.projectId (d.ids 0) d.now) with
      | .error e => some (.answered (.error e), db)
      | .ok db' => some (.calling x (d.ids 0) .created, db')
  | .calling x runId status =>
      match judge sha256 q x outcome with
      | .error (code, e) => some (.failing runId code e, db)
      | .ok found => some (.storing x runId found status, db)
  | .failing runId code e => some (.answered (.error e), failRun db runId code d.now)
  | .storing x runId found status =>
      match storeProposals db runId x found status d.ids d.now with
      | .error e => some (.answered (.error e), db)
      | .ok (result, db') => some (.answered (.ok result), db')
  | .answered _ => none

end Knowledge

end SecondBrain
