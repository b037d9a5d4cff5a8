import SecondBrain.Knowledge.Ingestion

/-!
# Memories

A memory is created as it is asked for, linked to sources, expired, refined and
superseded. A supersession locks the two memories, reads which ones supersede the
older one already and which ones it supersedes itself, and is then classified. A
creation may name a memory it supersedes, which is only looked up.
-/

namespace SecondBrain

open Lib

namespace Knowledge

/-! ## Rows -/

def MemoryCreate.texts (q : MemoryCreate) : List (Option String) :=
  [some q.content, q.source, q.title, q.summary]

/-- Whether the table takes the memory. -/
def Store.acceptsMemory (db : Store) (m : Memory) : Bool :=
  (db.memory? m.id).isNone && db.hasProject m.projectId &&
    (m.supersedesId.all fun id => (db.memory? id).isSome) &&
    (m.source.all fun s => decide (s.length ≤ 100)) &&
    (m.title.all fun s => decide (s.length ≤ 255)) && storableTexts m.texts

def Store.insertMemory (db : Store) (m : Memory) : Option Store :=
  if db.acceptsMemory m then some { db with memories := db.memories ++ [m] } else none

def Store.isLinked (db : Store) (memoryId sourceId : Uuid) : Bool :=
  db.memorySources.any fun l => l.memoryId == memoryId && l.sourceId == sourceId

/-- Whether the table takes the link. -/
def Store.acceptsLink (db : Store) (l : MemorySource) : Bool :=
  (lookup (·.id) l.id db.memorySources).isNone && (db.memory? l.memoryId).isSome &&
    (db.source? l.sourceId).isSome && !db.isLinked l.memoryId l.sourceId

/-- Whether the columns of the link can hold it. -/
def MemorySource.storable (l : MemorySource) : Bool :=
  (l.sourceLocation.all fun s => decide (s.length ≤ 500)) && storableTexts [l.sourceLocation]

def Store.putLink (db : Store) (l : MemorySource) : Store :=
  { db with memorySources := db.memorySources ++ [l] }

/-! ## Creation -/

def createMemory (db : Store) (q : MemoryCreate) (id : Uuid) : Except HttpError (Memory × Store) :=
  if !db.hasProject q.projectId then .error ⟨404, "project not found"⟩
  else if q.supersedesId.any fun older => (db.memory? older).isNone then
    .error ⟨404, "superseded memory not found"⟩
  else
    let memory : Memory := { q with id := id }
    match db.insertMemory memory with
    | none => .error databaseUnavailable
    | some stored => .ok (memory, stored)

structure LinkRequest where
  memoryId : Uuid
  sourceId : Uuid
  sourceLocation : Option String
deriving DecidableEq

/-- `link_source_to_memory`. -/
def linkSource (db : Store) (q : LinkRequest) (id : Uuid) (now : Instant) :
    Except HttpError (MemorySource × Store) :=
  match db.memory? q.memoryId with
  | none => .error ⟨404, "memory not found"⟩
  | some memory =>
      if (db.source? q.sourceId).isNone ||
          !db.grantsAccess (.exactly memory.projectId) q.sourceId then
        .error ⟨404, "source not found"⟩
      else
        let link : MemorySource :=
          { id := id
            memoryId := q.memoryId
            sourceId := q.sourceId
            sourceLocation := q.sourceLocation
            createdAt := now }
        if !link.storable then .error databaseUnavailable
        else if !db.acceptsLink link then .error ⟨409, "source already linked to memory"⟩
        else .ok (link, db.putLink link)

/-! ## Expiration and refinement -/

inductive TransitionStatus where
  | updated
  | unchanged
deriving DecidableEq, Repr

/-- `classify_expiration`: the status and the time to expire at. -/
def classifyExpiration (memory : Memory) (capturedAt : Instant) :
    Except String (TransitionStatus × Instant) :=
  match memory.status, memory.expiresAt with
  | .expired, none => .error "memory expiration state is inconsistent"
  | .expired, some at' => .ok (.unchanged, at')
  | .active, expiresAt => .ok (.updated, (expiresAt.filter (· ≤ capturedAt)).getD capturedAt)
  | _, _ => .error "memory not eligible for expiration"

def expireMemory (db : Store) (id : Uuid) (capturedAt : Instant) :
    Except HttpError (TransitionStatus × Memory × Store) :=
  match db.memory? id with
  | none => .error ⟨404, "memory not found"⟩
  | some memory =>
      match classifyExpiration memory capturedAt with
      | .error detail => .error ⟨409, detail⟩
      | .ok (.unchanged, _) => .ok (.unchanged, memory, db)
      | .ok (.updated, expiresAt) =>
          let expired := { memory with status := .expired, expiresAt := some expiresAt }
          .ok (.updated, expired, db.putMemory expired)

/-- `classify_quality_refinement`. -/
def classifyRefinement (memory : Memory) (confidence importance : Option Score) :
    Except String TransitionStatus :=
  if memory.status ≠ .active then .error "memory not eligible for quality refinement"
  else if confidence.any (· ≠ memory.confidence) || importance.any (· ≠ memory.importance) then
    .ok .updated
  else .ok .unchanged

def refineMemory (db : Store) (id : Uuid) (confidence importance : Option Score) :
    Except HttpError (TransitionStatus × Memory × Store) :=
  match db.memory? id with
  | none => .error ⟨404, "memory not found"⟩
  | some memory =>
      match classifyRefinement memory confidence importance with
      | .error detail => .error ⟨409, detail⟩
      | .ok .unchanged => .ok (.unchanged, memory, db)
      | .ok .updated =>
          let refined :=
            { memory with
              confidence := confidence.getD memory.confidence
              importance := importance.getD memory.importance }
          .ok (.updated, refined, db.putMemory refined)

/-! ## Requests of one step -/

inductive MemoryRequest where
  | create (q : MemoryCreate)
  | link (q : LinkRequest)
  | expire (id : Uuid)
  | refine (id : Uuid) (confidence importance : Option Score)
deriving DecidableEq

inductive MemoryAnswer where
  | created (memory : Memory)
  | linked (link : MemorySource)
  | moved (status : TransitionStatus) (memory : Memory)
deriving DecidableEq

/-- The memories whose rows the request has to lock. -/
def MemoryRequest.rows : MemoryRequest → List Uuid
  | .create q => q.supersedesId.toList
  | .link q => [q.memoryId]
  | .expire id => [id]
  | .refine id _ _ => [id]

def answerMemory (db : Store) (d : Draw) :
    MemoryRequest → Except HttpError (MemoryAnswer × Store)
  | .create q => do
      let (memory, db') ← createMemory db q (d.ids 0)
      return (.created memory, db')
  | .link q => do
      let (link, db') ← linkSource db q (d.ids 0) d.now
      return (.linked link, db')
  | .expire id => do
      let (status, memory, db') ← expireMemory db id d.now
      return (.moved status memory, db')
  | .refine id confidence importance => do
      let (status, memory, db') ← refineMemory db id confidence importance
      return (.moved status memory, db')

/-! ## Supersession -/

/-- The two memories of a supersession, as they were locked. -/
structure LockedPair where
  older : Memory
  replacement : Memory
deriving DecidableEq

/-- `lock_memories`, of the older memory and its replacement. -/
def lockPair (db : Store) (olderId replacementId : Uuid) : Except HttpError LockedPair :=
  match db.memory? olderId, db.memory? replacementId with
  | none, _ => .error ⟨404, "older memory not found"⟩
  | some _, none => .error ⟨404, "replacement memory not found"⟩
  | some older, some replacement => .ok ⟨older, replacement⟩

/-- The memories that can be reached over what they supersede, in so many steps. -/
def Store.ancestry (db : Store) : Nat → Uuid → List Uuid
  | 0, _ => []
  | steps + 1, id =>
      match db.memory? id with
      | none => []
      | some m =>
          id :: match m.supersedesId with
            | none => []
            | some older => Store.ancestry db steps older

/-- `predecessor_chain_contains`: a union keeps no row twice, so it has no more
rows than there are memories. -/
def Store.chainContains (db : Store) (startId soughtId : Uuid) : Bool :=
  (db.ancestry db.memories.length startId).contains soughtId

/-- `classify_supersession`. -/
def classifySupersession (p : LockedPair) (existingSuccessors : List Memory) (createsCycle : Bool) :
    Except String TransitionStatus :=
  let exactLink := p.replacement.supersedesId = some p.older.id
  let exactSuccessors := existingSuccessors.filter fun m => m.id == p.replacement.id
  let otherSuccessors := existingSuccessors.filter fun m => m.id != p.replacement.id
  if exactLink ∧ p.older.status = .superseded then
    if p.replacement.status ≠ .active ∨ otherSuccessors ≠ [] ∨ exactSuccessors = [] then
      .error "inconsistent existing supersession state"
    else .ok .unchanged
  else if exactLink then .error "inconsistent existing supersession state"
  else if p.older.status = .superseded then
    if existingSuccessors ≠ [] then .error "older memory already has a replacement"
    else .error "inconsistent existing supersession state"
  else if p.older.projectId ≠ p.replacement.projectId then
    .error "memory project scope mismatch"
  else if p.older.status ≠ .active ∨ p.replacement.status ≠ .active then
    .error "memory is not eligible for superseding"
  else if p.replacement.supersedesId ≠ none then
    .error "replacement memory already has a predecessor"
  else if existingSuccessors ≠ [] then .error "older memory already has a replacement"
  else if createsCycle then .error "memory supersession would create a cycle"
  else .ok .updated

structure SupersessionResult where
  status : TransitionStatus
  superseded : Memory
  replacement : Memory
deriving DecidableEq

/-- `apply_memory_supersession`. -/
def LockedPair.applied (p : LockedPair) : LockedPair :=
  { older := { p.older with status := .superseded }
    replacement := { p.replacement with supersedesId := some p.older.id } }

/-- The end of `supersede_memory`. -/
def supersede (db : Store) (p : LockedPair) (existingSuccessors : List Memory)
    (createsCycle : Bool) : Except HttpError (SupersessionResult × Store) :=
  match classifySupersession p existingSuccessors createsCycle with
  | .error detail => .error ⟨409, detail⟩
  | .ok .unchanged => .ok (⟨.unchanged, p.older, p.replacement⟩, db)
  | .ok .updated =>
      let q := p.applied
      .ok (⟨.updated, q.older, q.replacement⟩, (db.putMemory q.older).putMemory q.replacement)

structure SupersedeRequest where
  memoryId : Uuid
  replacementId : Uuid
deriving DecidableEq

inductive SupersedePhase where
  | arrived
  | holding (pair : LockedPair)
  | compared (pair : LockedPair) (existingSuccessors : List Memory)
  | traced (pair : LockedPair) (existingSuccessors : List Memory) (createsCycle : Bool)
  | answered (answer : Except HttpError SupersessionResult)

end Knowledge

end SecondBrain
