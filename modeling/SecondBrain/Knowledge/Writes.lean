import SecondBrain.Lib.Outcome
import SecondBrain.Knowledge.Extraction
import SecondBrain.Knowledge.Reviews

/-!
# What each transaction writes

An ingestion writes documents and chunks, and takes from the proposals the chunks
that are gone. An extraction writes runs and proposals. A review writes a proposal,
a promotion a proposal, a memory and a link, and the other requests about memories
write memories or links. Everything else stays what it was, and these lemmas say so
once for each.
-/

namespace SecondBrain

open Lib

namespace Knowledge

variable {db db' : Store}

/-! ## Ingestion -/

theorem insertChunks_eq {chunks : List SourceChunk} (h : db.insertChunks chunks = some db') :
    db' = { db with chunks := db.chunks ++ chunks } := by
  induction chunks generalizing db with
  | nil =>
      obtain rfl := Option.some.inj h
      rw [List.append_nil]
  | cons c rest ih =>
      rw [Store.insertChunks] at h
      split at h
      · rw [ih h]
        simp
      · cases h

/-- A document that was there stays the document of its source. -/
def KeepsDocuments (old new : List SourceDocument) : Prop :=
  ∀ id document, lookup (·.id) id old = some document →
    ∃ document', lookup (·.id) id new = some document' ∧ document'.sourceId = document.sourceId

theorem KeepsDocuments.refl (documents : List SourceDocument) :
    KeepsDocuments documents documents := fun _ document h => ⟨document, h, rfl⟩

/-- What an ingestion writes: documents, chunks, and that proposals lose theirs. -/
structure DocumentWritten (db db' : Store) : Prop where
  frame : ∃ documents chunks gone,
    db' = { db with
      documents := documents
      chunks := chunks
      proposals := db.proposals.map (·.without gone) }
  documents : KeepsDocuments db.documents db'.documents

theorem without_nil (p : MemoryProposal) : p.without [] = p := by
  refine if_neg fun h => ?_
  cases hp : p.sourceChunkId with
  | none => rw [hp] at h; cases h
  | some id => rw [hp] at h; cases h

theorem map_without_nil (proposals : List MemoryProposal) :
    proposals.map (·.without []) = proposals :=
  (List.map_congr_left fun p _ => without_nil p).trans (List.map_id _)

theorem DocumentWritten.refl (db : Store) : DocumentWritten db db :=
  ⟨⟨db.documents, db.chunks, [], by rw [map_without_nil]⟩, .refl _⟩

theorem update_sourceId (current loaded new : SourceDocument) :
    (current.update loaded new).sourceId = current.sourceId := rfl

/-- The row that is written anew keeps its identifier and its source. -/
theorem keepsDocuments_replace {documents : List SourceDocument} {current new : SourceDocument}
    (hfound : lookup (·.id) current.id documents = some current) (hid : new.id = current.id)
    (hsource : new.sourceId = current.sourceId) :
    KeepsDocuments documents (replace (·.id) new documents) := by
  intro id document h
  by_cases hsame : id = new.id
  · have hmem : new.id ∈ documents.map (·.id) := by
      rw [hid]
      exact lookup_isSome.mp (by rw [hfound]; rfl)
    subst hsame
    rw [hid, hfound] at h
    obtain rfl := Option.some.inj h
    exact ⟨new, lookup_replace_self hmem, hsource⟩
  · rw [lookup_replace_ne hsame]
    exact ⟨document, h, rfl⟩

theorem keepsDocuments_append {documents : List SourceDocument} (new : SourceDocument) :
    KeepsDocuments documents (documents ++ [new]) :=
  fun _ document h => ⟨document, lookup_append_of_some h [new], rfl⟩

section

variable {q : IngestRequest} {ids : Nat → Uuid} {documentId : Uuid} {now : Instant}
  {outcome : IngestionOutcome}

theorem writeDocument_created
    (h : writeDocument db q none ids documentId now = .ok (outcome, db')) :
    ∃ chunks, db' =
        { db with documents := db.documents ++ [q.document documentId now], chunks := chunks } := by
  unfold writeDocument at h
  dsimp only at h
  split at h
  · cases h
  · next p hwrites =>
      obtain rfl := Except.ok.inj h
      split at hwrites
      · cases hwrites
      · obtain ⟨stored, hstored, heq⟩ := Option.map_eq_some_iff.mp hwrites
        obtain ⟨-, rfl⟩ := Prod.mk.inj heq
        exact ⟨_, insertChunks_eq hstored⟩

theorem writeDocument_loaded {l : LoadedDocument}
    (h : writeDocument db q (some l) ids documentId now = .ok (outcome, db')) :
    DocumentWritten db db' := by
  unfold writeDocument at h
  dsimp only at h
  split at h
  · cases h
  next p hwrites =>
  obtain rfl := Except.ok.inj h
  split at hwrites
  · obtain ⟨-, rfl⟩ := Prod.mk.inj (Option.some.inj hwrites)
    exact .refl db
  split at hwrites
  · cases hwrites
  split at hwrites
  · cases hwrites
  next current hcurrent =>
  have hfound : lookup (·.id) current.id db.documents = some current := by
    rw [(lookup_mem hcurrent).2]
    exact hcurrent
  have hkeeps : KeepsDocuments db.documents
      (db.putDocument (current.update l.document (q.document l.document.id now))).documents :=
    keepsDocuments_replace hfound rfl rfl
  split at hwrites
  · obtain ⟨-, rfl⟩ := Prod.mk.inj (Option.some.inj hwrites)
    exact ⟨⟨_, db.chunks, [], by rw [map_without_nil]; rfl⟩, hkeeps⟩
  · obtain ⟨stored, hstored, heq⟩ := Option.map_eq_some_iff.mp hwrites
    obtain ⟨-, rfl⟩ := Prod.mk.inj heq
    rw [insertChunks_eq hstored]
    exact ⟨⟨_, _, _, rfl⟩, hkeeps⟩

theorem writeDocument_spec {found : Option LoadedDocument}
    (h : writeDocument db q found ids documentId now = .ok (outcome, db')) :
    DocumentWritten db db' := by
  cases found with
  | none =>
      obtain ⟨chunks, rfl⟩ := writeDocument_created h
      exact ⟨⟨_, chunks, [], by rw [map_without_nil]⟩, keepsDocuments_append _⟩
  | some l => exact writeDocument_loaded h

end

/-! ## Extraction -/

theorem insertProposals_eq {proposals : List MemoryProposal}
    (h : db.insertProposals proposals = some db') :
    db' = { db with proposals := db.proposals ++ proposals } := by
  induction proposals generalizing db with
  | nil =>
      obtain rfl := Option.some.inj h
      rw [List.append_nil]
  | cons p rest ih =>
      rw [Store.insertProposals] at h
      split at h
      · rw [ih h]
        simp
      · cases h

/-- The run as it is when what was proposed is stored. -/
def MemoryExtractionRun.completed (run : MemoryExtractionRun) (now : Instant) :
    MemoryExtractionRun :=
  { run with runStatus := .completed, errorCode := none, completedAt := some now }

/-- The run as it is when it has failed. -/
def MemoryExtractionRun.failed (run : MemoryExtractionRun) (code : String) (now : Instant) :
    MemoryExtractionRun :=
  { run with runStatus := .failed, errorCode := some code, completedAt := some now }

/-- The proposals that are stored for what was found. -/
def proposalsFor (runId : Uuid) (x : Selection) (found : List (Nat × Candidate))
    (ids : Nat → Uuid) : List MemoryProposal :=
  found.zipIdx.map fun (f, n) => proposalOf runId x.rows (ids n) f

/-- What a step of an extraction does. -/
inductive ExtractionStep (sha256 : Sha256) (db : Store) (q : GenerateRequest) :
    ExtractionPhase → ExtractionPhase → Store → Prop
  | refused {phase : ExtractionPhase} {e : HttpError} :
      phase.runId? = none → ExtractionStep sha256 db q phase (.answered (.error e)) db
  | selected {x : Selection} :
      generateSelect sha256 db q = .ok x → ExtractionStep sha256 db q .arrived (.selected x) db
  | absent {x : Selection} :
      db.runOf x.identity = none → ExtractionStep sha256 db q (.selected x) (.absent x) db
  | unchanged {x : Selection} {run : MemoryExtractionRun} :
      db.runOf x.identity = some run → run.runStatus = .completed →
      ExtractionStep sha256 db q (.selected x)
        (.answered (.ok ⟨run, (db.proposalsOf run.id).length, .unchanged⟩)) db
  | retried {x : Selection} {run : MemoryExtractionRun} {now : Instant} :
      db.runOf x.identity = some run → run.runStatus = .failed →
      ExtractionStep sha256 db q (.selected x) (.calling x run.id .retried)
        (db.putRun (run.retried now))
  | inserted {x : Selection} {id : Uuid} {now : Instant} :
      db.runOf x.identity = none → db.run? id = none →
      ExtractionStep sha256 db q (.absent x) (.calling x id .created)
        { db with runs := db.runs ++ [newRun x.identity q.projectId id now] }
  | judged {x : Selection} {runId : Uuid} {status : GenerationStatus}
      {found : List (Nat × Candidate)} {outcome : ProviderOutcome} :
      judge sha256 q x outcome = .ok found →
      ExtractionStep sha256 db q (.calling x runId status) (.storing x runId found status) db
  | misjudged {x : Selection} {runId : Uuid} {status : GenerationStatus} {code : String}
      {e : HttpError} {outcome : ProviderOutcome} :
      judge sha256 q x outcome = .error (code, e) →
      ExtractionStep sha256 db q (.calling x runId status) (.failing runId code e) db
  | failed {runId : Uuid} {code : String} {e : HttpError} {now : Instant} :
      ExtractionStep sha256 db q (.failing runId code e) (.answered (.error e))
        (failRun db runId code now)
  | unstored {x : Selection} {runId : Uuid} {status : GenerationStatus}
      {found : List (Nat × Candidate)} {e : HttpError} :
      ExtractionStep sha256 db q (.storing x runId found status) (.answered (.error e)) db
  | stored {x : Selection} {runId : Uuid} {status : GenerationStatus}
      {found : List (Nat × Candidate)} {run : MemoryExtractionRun} {ids : Nat → Uuid}
      {now : Instant} {stored : Store} :
      db.run? runId = some run →
      ({ db with proposals := db.proposals.filter fun p => p.runId != runId } : Store).insertProposals
        (proposalsFor runId x found ids) = some stored →
      ExtractionStep sha256 db q (.storing x runId found status)
        (.answered (.ok ⟨run.completed now, found.length, status⟩))
        (stored.putRun (run.completed now))

section

variable {sha256 : Sha256} {q : GenerateRequest} {d : Draw} {outcome : ProviderOutcome}
  {phase phase' : ExtractionPhase}

theorem claimRun_step {x : Selection} {now : Instant} (h : claimRun db x now = (phase', db')) :
    ExtractionStep sha256 db q (.selected x) phase' db' := by
  unfold claimRun at h
  split at h
  · next hnone =>
      obtain ⟨rfl, rfl⟩ := Prod.mk.inj h
      exact .absent hnone
  next run hrun =>
  split at h
  · next hcompleted =>
      obtain ⟨rfl, rfl⟩ := Prod.mk.inj h
      exact .unchanged hrun hcompleted
  · obtain ⟨rfl, rfl⟩ := Prod.mk.inj h
    exact .refused rfl
  · next hfailed =>
      obtain ⟨rfl, rfl⟩ := Prod.mk.inj h
      exact .retried hrun hfailed

theorem insertRun_ok {run : MemoryExtractionRun} (h : insertRun db run = .ok db') :
    db.runOf run.toRunIdentity = none ∧ db.run? run.id = none ∧
      db' = { db with runs := db.runs ++ [run] } := by
  unfold insertRun at h
  split at h
  · cases h
  · next hfree =>
      simp only [Bool.or_eq_true, not_or, Bool.not_eq_true, Option.isSome_eq_false_iff,
        Option.isNone_iff_eq_none] at hfree
      exact ⟨hfree.1, hfree.2, (Except.ok.inj h).symm⟩

theorem advanceExtraction_step
    (h : advanceExtraction sha256 db d outcome q phase = some (phase', db')) :
    ExtractionStep sha256 db q phase phase' db' := by
  cases phase with
  | arrived =>
      unfold advanceExtraction at h
      dsimp only at h
      split at h
      · obtain ⟨rfl, rfl⟩ := Prod.mk.inj (Option.some.inj h)
        exact .refused rfl
      · next hselect =>
          obtain ⟨rfl, rfl⟩ := Prod.mk.inj (Option.some.inj h)
          exact .selected hselect
  | selected x => exact claimRun_step (Option.some.inj h)
  | absent x =>
      unfold advanceExtraction at h
      dsimp only at h
      split at h
      · obtain ⟨rfl, rfl⟩ := Prod.mk.inj (Option.some.inj h)
        exact .refused rfl
      · next hinsert =>
          obtain ⟨rfl, rfl⟩ := Prod.mk.inj (Option.some.inj h)
          obtain ⟨hfree, hid, rfl⟩ := insertRun_ok hinsert
          exact .inserted hfree hid
  | calling x runId status =>
      unfold advanceExtraction at h
      dsimp only at h
      split at h
      · next hjudge =>
          obtain ⟨rfl, rfl⟩ := Prod.mk.inj (Option.some.inj h)
          exact .misjudged hjudge
      · next hjudge =>
          obtain ⟨rfl, rfl⟩ := Prod.mk.inj (Option.some.inj h)
          exact .judged hjudge
  | failing runId code e =>
      obtain ⟨rfl, rfl⟩ := Prod.mk.inj (Option.some.inj h)
      exact .failed
  | storing x runId found status =>
      unfold advanceExtraction at h
      dsimp only at h
      split at h
      · obtain ⟨rfl, rfl⟩ := Prod.mk.inj (Option.some.inj h)
        exact .unstored
      next result db'' hstore =>
      obtain ⟨rfl, rfl⟩ := Prod.mk.inj (Option.some.inj h)
      unfold storeProposals at hstore
      split at hstore
      · cases hstore
      next run hrun =>
      dsimp only at hstore
      split at hstore
      · cases hstore
      next stored hstored =>
      obtain ⟨rfl, rfl⟩ := Prod.mk.inj (Except.ok.inj hstore)
      exact .stored hrun hstored
  | answered answer => cases h

/-- An extraction writes runs and proposals. -/
theorem ExtractionStep.frame (h : ExtractionStep sha256 db q phase phase' db') :
    ∃ runs proposals, db' = { db with runs := runs, proposals := proposals } := by
  cases h with
  | refused | selected | absent | unchanged | judged | misjudged | unstored =>
      exact ⟨db.runs, db.proposals, rfl⟩
  | retried | inserted => exact ⟨_, db.proposals, rfl⟩
  | failed =>
      unfold failRun
      split
      · exact ⟨db.runs, db.proposals, rfl⟩
      · exact ⟨_, db.proposals, rfl⟩
  | stored _ hstored =>
      rw [insertProposals_eq hstored]
      exact ⟨_, _, rfl⟩

end

/-! ## Memories -/

section

variable {d : Draw} {memory : Memory}

theorem insertMemory_ok (h : db.insertMemory memory = some db') :
    db.acceptsMemory memory = true ∧ db' = { db with memories := db.memories ++ [memory] } := by
  unfold Store.insertMemory at h
  split at h
  · next haccepts => exact ⟨haccepts, (Option.some.inj h).symm⟩
  · cases h

theorem createMemory_spec {q : MemoryCreate} {id : Uuid} : Ensures (createMemory db q id) fun x =>
    x.1 = { q with id := id } ∧ db.acceptsMemory x.1 = true ∧
      x.2 = { db with memories := db.memories ++ [x.1] } := by
  unfold createMemory
  refine .ite (fun _ => .error _) fun _ => .ite (fun _ => .error _) fun _ => ?_
  dsimp only
  split
  · exact .error _
  · next stored hstored => exact Ensures.ok_iff.mpr ⟨rfl, insertMemory_ok hstored⟩

theorem linkSource_spec {q : LinkRequest} {id : Uuid} {now : Instant} :
    Ensures (linkSource db q id now) fun x => x.2 = db.putLink x.1 := by
  unfold linkSource
  split
  · exact .error _
  · refine .ite (fun _ => .error _) fun _ => .ite (fun _ => .error _) fun _ => ?_
    exact .ite (fun _ => .error _) fun _ => Ensures.ok_iff.mpr rfl

/-- What a memory keeps when it is expired or refined. -/
structure Memory.Edited (old new : Memory) : Prop where
  id : new.id = old.id
  projectId : new.projectId = old.projectId
  supersedesId : new.supersedesId = old.supersedesId
  active : old.status = .active ∧ new.status ≠ .superseded

/-- Nothing is written, or the row of an active memory. -/
def Edits (db db' : Store) : Prop :=
  db' = db ∨ ∃ old new, db.memory? old.id = some old ∧ old.Edited new ∧ db' = db.putMemory new

theorem expireMemory_spec {id : Uuid} {now : Instant} : Ensures (expireMemory db id now) fun x =>
    Edits db x.2.2 := by
  unfold expireMemory
  split
  · exact .error _
  next memory hfound =>
  have hrow : db.memory? memory.id = some memory := by
    rw [(lookup_mem hfound).2]
    exact hfound
  split
  · exact .error _
  · exact Ensures.ok_iff.mpr (.inl rfl)
  next expiresAt hclass =>
  have hactive : memory.status = .active := by
    unfold classifyExpiration at hclass
    split at hclass
    · cases hclass
    · cases hclass
    · next hactive => exact hactive
    · cases hclass
  have hexpired : MemoryStatus.expired ≠ .superseded := by decide
  refine Ensures.ok_iff.mpr (.inr ⟨memory, _, hrow, ?_, rfl⟩)
  exact ⟨rfl, rfl, rfl, hactive, hexpired⟩

theorem refineMemory_spec {id : Uuid} {confidence importance : Option Score} :
    Ensures (refineMemory db id confidence importance) fun x => Edits db x.2.2 := by
  unfold refineMemory
  split
  · exact .error _
  next memory hfound =>
  have hrow : db.memory? memory.id = some memory := by
    rw [(lookup_mem hfound).2]
    exact hfound
  split
  · exact .error _
  · exact Ensures.ok_iff.mpr (.inl rfl)
  next hclass =>
  have hactive : memory.status = .active := by
    unfold classifyRefinement at hclass
    by_contra hne
    rw [if_pos hne] at hclass
    cases hclass
  have hstatus : memory.status ≠ .superseded := by
    rw [hactive]
    decide
  refine Ensures.ok_iff.mpr (.inr ⟨memory, _, hrow, ?_, rfl⟩)
  exact ⟨rfl, rfl, rfl, hactive, hstatus⟩

/-- What a request about memories writes. -/
inductive MemoryWrite (db : Store) : MemoryRequest → MemoryAnswer → Store → Prop
  | created {q : MemoryCreate} {memory : Memory} :
      memory.toMemoryCreate = q → db.acceptsMemory memory = true →
      MemoryWrite db (.create q) (.created memory)
        { db with memories := db.memories ++ [memory] }
  | linked {q : LinkRequest} {link : MemorySource} :
      MemoryWrite db (.link q) (.linked link) (db.putLink link)
  | expired {id : Uuid} {status : TransitionStatus} {memory : Memory} {db' : Store} :
      Edits db db' → MemoryWrite db (.expire id) (.moved status memory) db'
  | refined {id : Uuid} {confidence importance : Option Score} {status : TransitionStatus}
      {memory : Memory} {db' : Store} :
      Edits db db' →
      MemoryWrite db (.refine id confidence importance) (.moved status memory) db'

theorem answerMemory_spec {q : MemoryRequest} : Ensures (answerMemory db d q) fun x =>
    MemoryWrite db q x.1 x.2 := by
  cases q with
  | create q =>
      refine createMemory_spec.bind fun x hx => Ensures.pure_iff.mpr ?_
      obtain ⟨hmemory, haccepts, hstore⟩ := hx
      rw [hstore]
      exact .created (by rw [hmemory]) haccepts
  | link q =>
      refine linkSource_spec.bind fun x hx => Ensures.pure_iff.mpr ?_
      rw [hx]
      exact .linked
  | expire id => exact expireMemory_spec.bind fun x hx => Ensures.pure_iff.mpr (.expired hx)
  | refine id confidence importance =>
      exact refineMemory_spec.bind fun x hx => Ensures.pure_iff.mpr (.refined hx)

theorem Edits.frame (h : Edits db db') : ∃ memories, db' = { db with memories := memories } := by
  rcases h with rfl | ⟨old, new, -, -, rfl⟩
  · exact ⟨db'.memories, rfl⟩
  · exact ⟨_, rfl⟩

theorem MemoryWrite.frame {q : MemoryRequest} {answer : MemoryAnswer}
    (h : MemoryWrite db q answer db') :
    ∃ memories links, db' = { db with memories := memories, memorySources := links } := by
  cases h with
  | created => exact ⟨_, db.memorySources, rfl⟩
  | linked => exact ⟨db.memories, _, rfl⟩
  | expired hedits | refined hedits =>
      obtain ⟨memories, rfl⟩ := hedits.frame
      exact ⟨memories, db.memorySources, rfl⟩

/-- A supersession that goes through writes nothing, or its two memories. -/
theorem supersede_spec {pair : LockedPair} {successors : List Memory} {cycle : Bool} :
    Ensures (supersede db pair successors cycle) fun x =>
      x.2 = db ∨ classifySupersession pair successors cycle = .ok .updated ∧
        x.2 = (db.putMemory pair.applied.older).putMemory pair.applied.replacement := by
  unfold supersede
  split
  · exact .error _
  · exact Ensures.ok_iff.mpr (.inl rfl)
  · next hclass => exact Ensures.ok_iff.mpr (.inr ⟨hclass, rfl⟩)

end

/-! ## Reviews -/

section

variable {d : Draw} {row : LockedProposal}

theorem updateProposal_spec {id : Uuid} {change : MemoryProposal → MemoryProposal} :
    Ensures (db.updateProposal id change) fun x =>
      ∃ current, db.proposal? id = some current ∧ x.1 = change current ∧
        x.2 = db.putProposal (change current) := by
  unfold Store.updateProposal
  split
  · exact .error _
  · next current hfound => exact Ensures.ok_iff.mpr ⟨current, hfound, rfl, rfl⟩

/-- The columns of a decision. -/
def MemoryProposal.decided (p : MemoryProposal) (decision : Decision) (note : Option String)
    (now : Instant) : MemoryProposal :=
  { p with reviewStatus := decision.status, reviewNote := note, reviewedAt := some now }

/-- What is done with a proposal that was locked. -/
inductive ReviewWrite (db : Store) (row : LockedProposal) : ReviewRequest → ReviewAnswer → Store → Prop
  | decided {id : Uuid} {decision : Decision} {note : Option String} {now : Instant}
      {current : MemoryProposal} :
      row.proposal.reviewStatus = .pending → db.proposal? row.proposal.id = some current →
      ReviewWrite db row (.review id decision note)
        (.reviewed ⟨current.decided decision note now, .updated⟩)
        (db.putProposal (current.decided decision note now))
  | stands {id : Uuid} {decision : Decision} {note : Option String} :
      row.proposal.reviewStatus = decision.status →
      ReviewWrite db row (.review id decision note) (.reviewed ⟨row.proposal, .unchanged⟩) db
  | promoted {id memoryId linkId : Uuid} {now : Instant} {current : MemoryProposal}
      {inserted : Store} :
      row.proposal.memoryId.bind db.memory? = none → row.proposal.reviewStatus = .approved →
      db.acceptsMemory (row.memory memoryId) = true →
      inserted = { db with
        memories := db.memories ++ [row.memory memoryId]
        memorySources := db.memorySources ++ [row.link memoryId linkId now] } →
      db.proposal? row.proposal.id = some current →
      ReviewWrite db row (.promote id)
        (.promoted ⟨row.proposal.id, .created, row.memory memoryId⟩)
        (inserted.putProposal { current with memoryId := some memoryId })
  | found {id : Uuid} {memory : Memory} :
      row.proposal.memoryId.bind db.memory? = some memory →
      ReviewWrite db row (.promote id) (.promoted ⟨row.proposal.id, .unchanged, memory⟩) db

theorem reviewProposal_spec {decision : Decision} {note : Option String} {id : Uuid} :
    Ensures (reviewProposal db row decision note d) fun x =>
      ReviewWrite db row (.review id decision note) (.reviewed x.1) x.2 := by
  unfold reviewProposal
  refine .ite (fun _ => .error _) fun _ => .ite (fun h => ?_) fun _ => ?_
  · exact Ensures.ok_iff.mpr (.stands h)
  · refine .ite (fun _ => .error _) fun hpending => .ite (fun _ => .error _) fun _ => ?_
    split
    · exact .error _
    next hupdate =>
    obtain ⟨current, hfound, rfl, rfl⟩ := updateProposal_spec _ hupdate
    exact Ensures.ok_iff.mpr (.decided (by simpa using hpending) hfound)

theorem promoteProposal_spec {id : Uuid} : Ensures (promoteProposal db row d) fun x =>
    ReviewWrite db row (.promote id) (.promoted x.1) x.2 := by
  unfold promoteProposal
  split
  · next memory hfound => exact Ensures.ok_iff.mpr (.found hfound)
  next hnone =>
  refine .ite (fun _ => .error _) fun happroved => .ite (fun _ => .error _) fun _ => ?_
  unfold storePromotion
  dsimp only
  split
  · exact .error _
  next inserted hinserted =>
  obtain ⟨haccepts, rfl⟩ := insertMemory_ok hinserted
  refine .ite (fun _ => .error _) fun _ => ?_
  split
  · exact .error _
  next hupdate =>
  obtain ⟨current, hfound, -, rfl⟩ := updateProposal_spec _ hupdate
  exact Ensures.ok_iff.mpr (.promoted hnone (by simpa using happroved) haccepts rfl hfound)

theorem decideProposal_spec {q : ReviewRequest} : Ensures (decideProposal db row d q) fun x =>
    ReviewWrite db row q x.1 x.2 := by
  cases q with
  | review id decision note =>
      exact reviewProposal_spec.bind fun x hx => Ensures.pure_iff.mpr hx
  | promote id => exact promoteProposal_spec.bind fun x hx => Ensures.pure_iff.mpr hx

theorem ReviewWrite.frame {q : ReviewRequest} {answer : ReviewAnswer}
    (h : ReviewWrite db row q answer db') : ∃ proposals memories links,
      db' = { db with proposals := proposals, memories := memories, memorySources := links } := by
  cases h with
  | decided => exact ⟨_, db.memories, db.memorySources, rfl⟩
  | stands | found => exact ⟨db.proposals, db.memories, db.memorySources, rfl⟩
  | promoted _ _ _ hinserted =>
      subst hinserted
      exact ⟨_, _, _, rfl⟩

end

end Knowledge

end SecondBrain
