import SecondBrain.Knowledge.CaptureSteps
import SecondBrain.Knowledge.Library

/-!
# What a step of the library does

A step creates a project, brings a request, moves one request or ends it. What a
request of one kind writes was said where its transactions are; here it is said of
the whole state, with who holds which lock.
-/

namespace SecondBrain

open Lib

namespace Knowledge

variable {sha256 : Sha256} {s s' : Library} {l : LibraryLabel} {db : Store} {locks : Locks Row}
  {i j : Nat} {d : Draw} {outcome : ProviderOutcome} {client : Client} {m : Moved}

/-! ## Labels -/

inductive LibraryStep (sha256 : Sha256) (s : Library) : LibraryLabel → Library → Prop
  | project {id : Uuid} :
      id ∉ s.db.projects →
      LibraryStep sha256 s (.project id)
        { s with db := { s.db with projects := s.db.projects ++ [id] } }
  | arrived {q : Request} :
      LibraryStep sha256 s (.arrive q) { s with clients := s.clients ++ [q.client] }
  | moved {i : Nat} {d : Draw} {outcome : ProviderOutcome} {client : Client} {m : Moved} :
      s.clients[i]? = some client → advance sha256 s.db s.locks i d outcome client = some m →
      LibraryStep sha256 s (.step i d outcome) (s.place i m)
  | stopped {i : Nat} {client stopped : Client} :
      s.clients[i]? = some client → client.stopped = some stopped →
      LibraryStep sha256 s (.stop i) (s.place i ⟨stopped, s.db, s.locks.release i⟩)

theorem next_step (h : (library sha256).next s l = some s') : LibraryStep sha256 s l s' := by
  cases l with
  | project id =>
      have h : (if s.db.projects.contains id then none
        else some { s with db := { s.db with projects := s.db.projects ++ [id] } }) = some s' := h
      split at h
      · cases h
      · next hnew =>
          obtain rfl := Option.some.inj h
          exact .project (by simpa using hnew)
  | arrive q =>
      obtain rfl := Option.some.inj h
      exact .arrived
  | step i d outcome =>
      obtain ⟨client, hclient, h⟩ := bind_some h
      obtain ⟨m, hm, h⟩ := bind_some h
      obtain rfl := Option.some.inj h
      exact .moved hclient hm
  | stop i =>
      obtain ⟨client, hclient, h⟩ := bind_some h
      obtain ⟨stopped, hstopped, h⟩ := bind_some h
      obtain rfl := Option.some.inj h
      exact .stopped hclient hstopped

/-- A request is where it was, or it is the one that has moved. -/
theorem clients_place {m : Moved} {c : Client} (h : (s.place i m).clients[j]? = some c) :
    j = i ∧ c = m.client ∨ j ≠ i ∧ s.clients[j]? = some c := by
  have h : (s.clients.set i m.client)[j]? = some c := h
  by_cases hj : i = j
  · subst hj
    rw [List.getElem?_set_self'] at h
    obtain ⟨x, -, hx⟩ := Option.map_eq_some_iff.mp h
    exact .inl ⟨rfl, hx.symm⟩
  · rw [List.getElem?_set_ne hj] at h
    exact .inr ⟨fun heq => hj heq.symm, h⟩

/-! ## What a request writes -/

/-- What a move of a request writes, by its kind. -/
inductive ClientMove (sha256 : Sha256) (db : Store) (locks : Locks Row) (i : Nat) :
    Client → Moved → Prop
  | capture {q : CaptureRequest} {phase phase' : CapturePhase} {db' : Store} :
      CaptureStep sha256 db q phase phase' db' → (∀ a, phase ≠ .answered a) →
      ClientMove sha256 db locks i (.capture q phase) ⟨.capture q phase', db', locks⟩
  | sourceRefused {q : SourceCreate} {e : HttpError} :
      ClientMove sha256 db locks i (.source q none) ⟨.source q (some (.error e)), db, locks⟩
  | source {q : SourceCreate} {id : Uuid} {now : Instant} :
      db.source? id = none →
      ClientMove sha256 db locks i (.source q none)
        ⟨.source q (some (.ok (q.source id now))),
          { db with sources := db.sources ++ [q.source id now] }, locks⟩
  | ingestion {q : IngestRequest} {phase phase' : IngestionPhase} :
      ClientMove sha256 db locks i (.ingestion q phase) ⟨.ingestion q phase', db, locks⟩
  | ingested {q : IngestRequest} {found : Option LoadedDocument} {ids : Nat → Uuid}
      {documentId : Uuid} {now : Instant} {result : IngestionOutcome} {db' : Store} :
      (∀ id ∈ db.touched q found, locks.grants i (.proposal id) = true) →
      writeDocument db q found ids documentId now = .ok (result, db') →
      ClientMove sha256 db locks i (.ingestion q (.loaded found))
        ⟨.ingestion q (.answered (.ok result)), db', locks⟩
  | extraction {q : GenerateRequest} {phase phase' : ExtractionPhase} {db' : Store} :
      (∀ id ∈ phase.removes db, locks.grants i (.proposal id) = true) →
      ExtractionStep sha256 db q phase phase' db' →
      ClientMove sha256 db locks i (.extraction q phase) ⟨.extraction q phase', db', locks⟩
  | reviewRefused {q : ReviewRequest} {e : HttpError} :
      ClientMove sha256 db locks i (.review q .arrived) ⟨.review q (.answered (.error e)), db, locks⟩
  | reviewHeld {q : ReviewRequest} {row : LockedProposal} {held : Locks Row} :
      db.lockProposal q.proposalId = some row →
      locks.acquire i [.proposal q.proposalId] = some held →
      ClientMove sha256 db locks i (.review q .arrived) ⟨.review q (.holding row), db, held⟩
  | reviewFailed {q : ReviewRequest} {row : LockedProposal} {e : HttpError} :
      ClientMove sha256 db locks i (.review q (.holding row))
        ⟨.review q (.answered (.error e)), db, locks.release i⟩
  | review {q : ReviewRequest} {row : LockedProposal} {answer : ReviewAnswer} {db' : Store} :
      ReviewWrite db row q answer db' →
      ClientMove sha256 db locks i (.review q (.holding row))
        ⟨.review q (.answered (.ok answer)), db', locks.release i⟩
  | memoryRefused {q : MemoryRequest} {e : HttpError} :
      ClientMove sha256 db locks i (.memory q none) ⟨.memory q (some (.error e)), db, locks⟩
  | memory {q : MemoryRequest} {answer : MemoryAnswer} {db' : Store} :
      (∀ id ∈ q.rows, locks.grants i (.memory id) = true) → MemoryWrite db q answer db' →
      ClientMove sha256 db locks i (.memory q none) ⟨.memory q (some (.ok answer)), db', locks⟩
  | supersessionRefused {q : SupersedeRequest} {e : HttpError} :
      ClientMove sha256 db locks i (.supersession q .arrived)
        ⟨.supersession q (.answered (.error e)), db, locks⟩
  | supersessionHeld {q : SupersedeRequest} {pair : LockedPair} {held : Locks Row} :
      q.memoryId ≠ q.replacementId →
      db.memory? q.memoryId = some pair.older → db.memory? q.replacementId = some pair.replacement →
      locks.acquire i [.memory q.memoryId, .memory q.replacementId] = some held →
      ClientMove sha256 db locks i (.supersession q .arrived)
        ⟨.supersession q (.holding pair), db, held⟩
  | supersessionCompared {q : SupersedeRequest} {pair : LockedPair} {held : Locks Row} :
      locks.acquire i ((db.successors pair.older.id).map fun m => .memory m.id) = some held →
      ClientMove sha256 db locks i (.supersession q (.holding pair))
        ⟨.supersession q (.compared pair (db.successors pair.older.id)), db, held⟩
  | supersessionTraced {q : SupersedeRequest} {pair : LockedPair} {successors : List Memory} :
      ClientMove sha256 db locks i (.supersession q (.compared pair successors))
        ⟨.supersession q (.traced pair successors
          (db.chainContains pair.older.id pair.replacement.id)), db, locks⟩
  | supersessionEnded {q : SupersedeRequest} {pair : LockedPair} {successors : List Memory}
      {cycle : Bool} {answer : Except HttpError SupersessionResult} :
      ClientMove sha256 db locks i (.supersession q (.traced pair successors cycle))
        ⟨.supersession q (.answered answer), db, locks.release i⟩
  | supersession {q : SupersedeRequest} {pair : LockedPair} {successors : List Memory}
      {cycle : Bool} {result : SupersessionResult} :
      classifySupersession pair successors cycle = .ok .updated →
      ClientMove sha256 db locks i (.supersession q (.traced pair successors cycle))
        ⟨.supersession q (.answered (.ok result)),
          (db.putMemory pair.applied.older).putMemory pair.applied.replacement, locks.release i⟩

theorem advanceSource_move {q : SourceCreate} {answer : Option (Except HttpError Source)}
    (h : advanceSource db locks d q answer = some m) :
    ClientMove sha256 db locks i (.source q answer) m := by
  cases answer with
  | some answer => cases h
  | none =>
      unfold advanceSource at h
      dsimp only at h
      split at h
      · obtain rfl := Option.some.inj h
        exact .sourceRefused
      · next hcreate =>
          obtain rfl := Option.some.inj h
          obtain ⟨hfresh, rfl⟩ := createSource_spec hcreate
          exact .source hfresh

theorem advanceIngestion_move {q : IngestRequest} {phase : IngestionPhase}
    (h : advanceIngestion db locks i d q phase = some m) :
    ClientMove sha256 db locks i (.ingestion q phase) m := by
  cases phase with
  | arrived =>
      unfold advanceIngestion at h
      dsimp only at h
      split at h
      · obtain rfl := Option.some.inj h
        exact .ingestion
      · obtain rfl := Option.some.inj h
        exact .ingestion
  | loaded found =>
      unfold advanceIngestion at h
      dsimp only at h
      split at h
      · next hgranted =>
          split at h
          · obtain rfl := Option.some.inj h
            exact .ingestion
          · next hwrite =>
              obtain rfl := Option.some.inj h
              exact .ingested (List.all_eq_true.mp hgranted) hwrite
      · cases h
  | answered answer => cases h

theorem advanceReview_move {q : ReviewRequest} {phase : ReviewPhase}
    (h : advanceReview db locks i d q phase = some m) :
    ClientMove sha256 db locks i (.review q phase) m := by
  cases phase with
  | arrived =>
      unfold advanceReview at h
      dsimp only at h
      split at h
      · obtain rfl := Option.some.inj h
        exact .reviewRefused
      · next hrow =>
          obtain ⟨held, hheld, rfl⟩ := Option.map_eq_some_iff.mp h
          exact .reviewHeld hrow hheld
  | holding row =>
      unfold advanceReview at h
      dsimp only at h
      split at h
      · obtain rfl := Option.some.inj h
        exact .reviewFailed
      · next hdecide =>
          obtain rfl := Option.some.inj h
          exact .review (decideProposal_spec _ hdecide)
  | answered answer => cases h

theorem advanceMemory_move {q : MemoryRequest} {answer : Option (Except HttpError MemoryAnswer)}
    (h : advanceMemory db locks i d q answer = some m) :
    ClientMove sha256 db locks i (.memory q answer) m := by
  cases answer with
  | some answer => cases h
  | none =>
      unfold advanceMemory at h
      dsimp only at h
      split at h
      · next hgranted =>
          split at h
          · obtain rfl := Option.some.inj h
            exact .memoryRefused
          · next hanswer =>
              obtain rfl := Option.some.inj h
              exact .memory (List.all_eq_true.mp hgranted) (answerMemory_spec _ hanswer)
      · cases h

theorem advanceSupersession_move {q : SupersedeRequest} {phase : SupersedePhase}
    (h : advanceSupersession db locks i q phase = some m) :
    ClientMove sha256 db locks i (.supersession q phase) m := by
  cases phase with
  | arrived =>
      unfold advanceSupersession at h
      dsimp only at h
      split at h
      · obtain rfl := Option.some.inj h
        exact .supersessionRefused
      next hne =>
      unfold lockPair at h
      split at h
      · obtain rfl := Option.some.inj h
        exact .supersessionRefused
      next pair hpair =>
      obtain ⟨held, hheld, rfl⟩ := Option.map_eq_some_iff.mp h
      split at hpair
      · cases hpair
      · cases hpair
      · next holder hreplacement =>
          obtain rfl := Except.ok.inj hpair
          exact .supersessionHeld hne holder hreplacement hheld
  | holding pair =>
      obtain ⟨held, hheld, rfl⟩ := Option.map_eq_some_iff.mp h
      exact .supersessionCompared hheld
  | compared pair successors =>
      obtain rfl := Option.some.inj h
      exact .supersessionTraced
  | traced pair successors cycle =>
      unfold advanceSupersession at h
      dsimp only at h
      split at h
      · obtain rfl := Option.some.inj h
        exact .supersessionEnded
      next result db' hsupersede =>
      obtain rfl := Option.some.inj h
      rcases supersede_spec _ hsupersede with rfl | ⟨hclass, rfl⟩
      · exact .supersessionEnded
      · exact .supersession hclass
  | answered answer => cases h

theorem advance_move (h : advance sha256 db locks i d outcome client = some m) :
    ClientMove sha256 db locks i client m := by
  cases client with
  | capture q phase =>
      obtain ⟨⟨phase', db'⟩, hstep, rfl⟩ := Option.map_eq_some_iff.mp h
      refine .capture (advanceCapture_step hstep) fun a ha => ?_
      subst ha
      cases q <;> cases hstep
  | source q answer => exact advanceSource_move h
  | ingestion q phase => exact advanceIngestion_move h
  | extraction q phase =>
      unfold advance at h
      dsimp only at h
      split at h
      · next hgranted =>
          obtain ⟨⟨phase', db'⟩, hstep, rfl⟩ := Option.map_eq_some_iff.mp h
          exact .extraction (List.all_eq_true.mp hgranted) (advanceExtraction_step hstep)
      · cases h
  | review q phase => exact advanceReview_move h
  | memory q answer => exact advanceMemory_move h
  | supersession q phase => exact advanceSupersession_move h

end Knowledge

end SecondBrain
