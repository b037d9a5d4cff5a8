import SecondBrain.Knowledge.Memories

/-!
# Reviews and promotions

A proposal is locked with what its run and its source are when it is reviewed or
promoted, and the lock is given back with the commit. A promotion makes a memory
of an approved proposal and links it to the source; one that finds the memory
there writes nothing.
-/

namespace SecondBrain

open Lib

namespace Knowledge

open Calendar (strip)

/-- A proposal that was locked, with what it was joined to. -/
structure LockedProposal where
  proposal : MemoryProposal
  runStatus : RunStatus
  source : Source
deriving DecidableEq

def Store.lockProposal (db : Store) (id : Uuid) : Option LockedProposal := do
  let proposal ← db.proposal? id
  let run ← db.run? proposal.runId
  let document ← db.document? run.documentId
  let source ← db.source? document.sourceId
  if db.grantsProposal proposal.projectId source.id then
    some ⟨proposal, run.runStatus, source⟩
  else none

def proposalNotFound : HttpError := ⟨404, "memory proposal not found"⟩

/-- The columns of a proposal are written, if its row is still there. -/
def Store.updateProposal (db : Store) (id : Uuid) (change : MemoryProposal → MemoryProposal) :
    Except HttpError (MemoryProposal × Store) :=
  match db.proposal? id with
  | none => .error databaseUnavailable
  | some current => .ok (change current, db.putProposal (change current))

/-! ## Review -/

inductive Decision where
  | approved
  | rejected
deriving DecidableEq, Repr

def Decision.status : Decision → ReviewStatus
  | .approved => .approved
  | .rejected => .rejected

structure ReviewTransition where
  proposal : MemoryProposal
  transitionStatus : TransitionStatus
deriving DecidableEq

/-- `review_proposal`, of the locked row. -/
def reviewProposal (db : Store) (l : LockedProposal) (decision : Decision) (note : Option String)
    (d : Draw) : Except HttpError (ReviewTransition × Store) :=
  if l.runStatus ≠ .completed then .error ⟨409, "extraction run not completed"⟩
  else if l.proposal.reviewStatus = decision.status then .ok (⟨l.proposal, .unchanged⟩, db)
  else if l.proposal.reviewStatus ≠ .pending then
    .error ⟨409, "memory proposal already reviewed"⟩
  else if !storableTexts [note] then .error databaseUnavailable
  else
    match db.updateProposal l.proposal.id fun p =>
        { p with reviewStatus := decision.status, reviewNote := note, reviewedAt := some d.now } with
    | .error e => .error e
    | .ok (proposal, stored) => .ok (⟨proposal, .updated⟩, stored)

/-! ## Promotion -/

inductive PromotionStatus where
  | created
  | unchanged
deriving DecidableEq, Repr

structure PromotionResult where
  proposalId : Uuid
  promotionStatus : PromotionStatus
  memory : Memory
deriving DecidableEq

/-- The memory a proposal becomes. -/
def LockedProposal.memory (l : LockedProposal) (id : Uuid) : Memory :=
  let reference := strip (l.source.reference.getD "")
  { projectId := l.proposal.projectId
    title := l.proposal.title
    summary := l.proposal.summary
    content := l.proposal.content
    source := some (if reference = "" then l.source.name else reference)
    memoryType := l.proposal.memoryType
    importance := l.proposal.importance
    confidence := l.proposal.confidence
    status := .active
    eventTime := none
    expiresAt := none
    supersedesId := none
    id := id }

/-- Where in the source the memory was found. -/
def MemoryProposal.sourceLocation (p : MemoryProposal) : String :=
  let locator := strip (p.sourceLocator.getD "")
  if locator = "" then
    "chars " ++ toString p.evidenceCharStart ++ "-" ++ toString p.evidenceCharEnd
  else locator

def LockedProposal.link (l : LockedProposal) (memoryId id : Uuid) (now : Instant) : MemorySource :=
  { id := id
    memoryId := memoryId
    sourceId := l.source.id
    sourceLocation := some l.proposal.sourceLocation
    createdAt := now }

/-- The memory is inserted and linked, and the proposal names it. -/
def storePromotion (db : Store) (l : LockedProposal) (d : Draw) :
    Except HttpError (PromotionResult × Store) :=
  let memory := l.memory (d.ids 0)
  let link := l.link memory.id (d.ids 1) d.now
  match db.insertMemory memory with
  | none => .error databaseUnavailable
  | some inserted =>
      if !link.storable || !inserted.acceptsLink link ||
          inserted.proposals.any (·.memoryId == some memory.id) then .error databaseUnavailable
      else
        match (inserted.putLink link).updateProposal l.proposal.id fun p =>
            { p with memoryId := some memory.id } with
        | .error e => .error e
        | .ok (_, stored) => .ok (⟨l.proposal.id, .created, memory⟩, stored)

/-- `promote_proposal`, of the locked row. -/
def promoteProposal (db : Store) (l : LockedProposal) (d : Draw) :
    Except HttpError (PromotionResult × Store) :=
  match l.proposal.memoryId.bind db.memory? with
  | some memory => .ok (⟨l.proposal.id, .unchanged, memory⟩, db)
  | none =>
      if l.proposal.reviewStatus ≠ .approved then .error ⟨409, "memory proposal not approved"⟩
      else if l.runStatus ≠ .completed then .error ⟨409, "extraction run not completed"⟩
      else storePromotion db l d

/-! ## Steps -/

inductive ReviewRequest where
  | review (id : Uuid) (decision : Decision) (note : Option String)
  | promote (id : Uuid)
deriving DecidableEq

def ReviewRequest.proposalId : ReviewRequest → Uuid
  | .review id _ _ => id
  | .promote id => id

inductive ReviewAnswer where
  | reviewed (result : ReviewTransition)
  | promoted (result : PromotionResult)
deriving DecidableEq

inductive ReviewPhase where
  | arrived
  | holding (row : LockedProposal)
  | answered (answer : Except HttpError ReviewAnswer)

/-- What is done with the row that was locked. -/
def decideProposal (db : Store) (row : LockedProposal) (d : Draw) :
    ReviewRequest → Except HttpError (ReviewAnswer × Store)
  | .review _ decision note => do
      let (result, db') ← reviewProposal db row decision note d
      return (.reviewed result, db')
  | .promote _ => do
      let (result, db') ← promoteProposal db row d
      return (.promoted result, db')

end Knowledge

end SecondBrain
