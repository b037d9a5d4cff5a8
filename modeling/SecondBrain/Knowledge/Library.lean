import SecondBrain.Lib.Locks
import SecondBrain.Lib.Machine
import SecondBrain.Knowledge.Captures
import SecondBrain.Knowledge.Extraction
import SecondBrain.Knowledge.Reviews

/-!
# The library as a machine

Any number of requests are at work on the store. A step is one transaction, or
the part of one up to where it waits: a request that has locked proposals or
memories holds them until it ends, and another one that wants them does not move.
A request can stop anywhere, and gives its locks back then.

A capture is locked from where it is read to the commit, so that a request that
changes one is a single step. An ingestion and an extraction lock nothing between
what they read and what they write.
-/

namespace SecondBrain

open Lib

namespace Knowledge

/-- A row that is locked. -/
inductive Row where
  | proposal (id : Uuid)
  | memory (id : Uuid)
deriving DecidableEq

/-- A request, and how far it is. -/
inductive Client where
  | capture (q : CaptureRequest) (phase : CapturePhase)
  | source (q : SourceCreate) (answer : Option (Except HttpError Source))
  | ingestion (q : IngestRequest) (phase : IngestionPhase)
  | extraction (q : GenerateRequest) (phase : ExtractionPhase)
  | review (q : ReviewRequest) (phase : ReviewPhase)
  | memory (q : MemoryRequest) (answer : Option (Except HttpError MemoryAnswer))
  | supersession (q : SupersedeRequest) (phase : SupersedePhase)

inductive Request where
  | capture (q : CaptureRequest)
  | source (q : SourceCreate)
  | ingestion (q : IngestRequest)
  | extraction (q : GenerateRequest)
  | review (q : ReviewRequest)
  | memory (q : MemoryRequest)
  | supersession (q : SupersedeRequest)

def Request.client : Request → Client
  | .capture q => .capture q .arrived
  | .source q => .source q none
  | .ingestion q => .ingestion q .arrived
  | .extraction q => .extraction q .arrived
  | .review q => .review q .arrived
  | .memory q => .memory q none
  | .supersession q => .supersession q .arrived

structure Library where
  db : Store := {}
  locks : Locks Row := Locks.free
  clients : List Client := []

/-- What a step leaves of a request, of the store and of the locks. -/
structure Moved where
  client : Client
  db : Store
  locks : Locks Row

variable (sha256 : Sha256) (db : Store) (locks : Locks Row) (i : Nat) (d : Draw)

def advanceSource (q : SourceCreate) : Option (Except HttpError Source) → Option Moved
  | some _ => none
  | none =>
      match createSource db q (d.ids 0) d.now with
      | none => some ⟨.source q (some (.error databaseUnavailable)), db, locks⟩
      | some db' => some ⟨.source q (some (.ok (q.source (d.ids 0) d.now))), db', locks⟩

def advanceIngestion (q : IngestRequest) : IngestionPhase → Option Moved
  | .arrived =>
      match loadDocument db q with
      | .error e => some ⟨.ingestion q (.answered (.error e)), db, locks⟩
      | .ok found => some ⟨.ingestion q (.loaded found), db, locks⟩
  | .loaded found =>
      if (db.touched q found).all fun id => locks.grants i (.proposal id) then
        match writeDocument db q found (fun n => d.ids (n + 1)) (d.ids 0) d.now with
        | .error e => some ⟨.ingestion q (.answered (.error e)), db, locks⟩
        | .ok (outcome, db') => some ⟨.ingestion q (.answered (.ok outcome)), db', locks⟩
      else none
  | .answered _ => none

/-- The proposals an extraction removes. -/
def ExtractionPhase.removes (db : Store) : ExtractionPhase → List Uuid
  | .storing _ runId _ _ => (db.proposalsOf runId).map (·.id)
  | _ => []

def advanceReview (q : ReviewRequest) : ReviewPhase → Option Moved
  | .arrived =>
      match db.lockProposal q.proposalId with
      | none => some ⟨.review q (.answered (.error proposalNotFound)), db, locks⟩
      | some row =>
          (locks.acquire i [.proposal q.proposalId]).map fun held =>
            ⟨.review q (.holding row), db, held⟩
  | .holding row =>
      match decideProposal db row d q with
      | .error e => some ⟨.review q (.answered (.error e)), db, locks.release i⟩
      | .ok (answer, db') => some ⟨.review q (.answered (.ok answer)), db', locks.release i⟩
  | .answered _ => none

def advanceMemory (q : MemoryRequest) : Option (Except HttpError MemoryAnswer) → Option Moved
  | some _ => none
  | none =>
      if q.rows.all fun id => locks.grants i (.memory id) then
        match answerMemory db d q with
        | .error e => some ⟨.memory q (some (.error e)), db, locks⟩
        | .ok (answer, db') => some ⟨.memory q (some (.ok answer)), db', locks⟩
      else none

def advanceSupersession (q : SupersedeRequest) : SupersedePhase → Option Moved
  | .arrived =>
      if q.memoryId = q.replacementId then
        some ⟨.supersession q (.answered (.error ⟨409, "memory cannot supersede itself"⟩)), db, locks⟩
      else
        match lockPair db q.memoryId q.replacementId with
        | .error e => some ⟨.supersession q (.answered (.error e)), db, locks⟩
        | .ok pair =>
            (locks.acquire i [.memory q.memoryId, .memory q.replacementId]).map fun held =>
              ⟨.supersession q (.holding pair), db, held⟩
  | .holding pair =>
      let successors := db.successors pair.older.id
      (locks.acquire i (successors.map fun m => .memory m.id)).map fun held =>
        ⟨.supersession q (.compared pair successors), db, held⟩
  | .compared pair successors =>
      let cycle := db.chainContains pair.older.id pair.replacement.id
      some ⟨.supersession q (.traced pair successors cycle), db, locks⟩
  | .traced pair successors cycle =>
      match supersede db pair successors cycle with
      | .error e => some ⟨.supersession q (.answered (.error e)), db, locks.release i⟩
      | .ok (result, db') =>
          some ⟨.supersession q (.answered (.ok result)), db', locks.release i⟩
  | .answered _ => none

def advance (outcome : ProviderOutcome) : Client → Option Moved
  | .capture q phase =>
      (advanceCapture sha256 db d q phase).map fun (phase, db') => ⟨.capture q phase, db', locks⟩
  | .source q answer => advanceSource db locks d q answer
  | .ingestion q phase => advanceIngestion db locks i d q phase
  | .extraction q phase =>
      if (phase.removes db).all fun id => locks.grants i (.proposal id) then
        (advanceExtraction sha256 db d outcome q phase).map fun (phase, db') =>
          ⟨.extraction q phase, db', locks⟩
      else none
  | .review q phase => advanceReview db locks i d q phase
  | .memory q answer => advanceMemory db locks i d q answer
  | .supersession q phase => advanceSupersession db locks i q phase

/-- The request as it is when its process or its connection has ended. -/
def Client.stopped : Client → Option Client
  | .capture _ (.answered _) => none
  | .capture q _ => some (.capture q (.answered (.error .databaseUnavailable)))
  | .source _ (some _) => none
  | .source q none => some (.source q (some (.error databaseUnavailable)))
  | .ingestion _ (.answered _) => none
  | .ingestion q _ => some (.ingestion q (.answered (.error databaseUnavailable)))
  | .extraction _ (.answered _) => none
  | .extraction q _ => some (.extraction q (.answered (.error databaseUnavailable)))
  | .review _ (.answered _) => none
  | .review q _ => some (.review q (.answered (.error databaseUnavailable)))
  | .memory _ (some _) => none
  | .memory q none => some (.memory q (some (.error databaseUnavailable)))
  | .supersession _ (.answered _) => none
  | .supersession q _ => some (.supersession q (.answered (.error databaseUnavailable)))

inductive LibraryLabel where
  /-- A project is created. -/
  | project (id : Uuid)
  | arrive (q : Request)
  | step (i : Nat) (d : Draw) (outcome : ProviderOutcome)
  | stop (i : Nat)

def Library.place (s : Library) (i : Nat) (m : Moved) : Library :=
  { db := m.db, locks := m.locks, clients := s.clients.set i m.client }

def Library.next (s : Library) : LibraryLabel → Option Library
  | .project id =>
      if s.db.projects.contains id then none
      else some { s with db := { s.db with projects := s.db.projects ++ [id] } }
  | .arrive q => some { s with clients := s.clients ++ [q.client] }
  | .step i d outcome => do
      let client ← s.clients[i]?
      let moved ← advance sha256 s.db s.locks i d outcome client
      return s.place i moved
  | .stop i => do
      let client ← s.clients[i]?
      let stopped ← client.stopped
      return s.place i ⟨stopped, s.db, s.locks.release i⟩

/-- It starts with nothing. -/
def library : Machine Library LibraryLabel where
  start s := s = {}
  next := Library.next sha256

end Knowledge

end SecondBrain
