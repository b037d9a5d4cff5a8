import SecondBrain.ContextHub.Local
import SecondBrain.Knowledge.Access
import SecondBrain.Knowledge.CaptureRules

/-!
# Sources of captures are read in their scope

Every read of the repository that takes a scope, the tools of the agents and the local
family of the Context Hub ask for the clause, each of the source that it comes to by its
own way. The two reads that take no scope do not ask for it, and the routes that call them
have asked before.
-/

namespace SecondBrain

open Lib

namespace ContextHub

open Knowledge

variable {sha256 : Sha256} {s s' : Library} {db : Store} {ilike : Ilike}

/-! ## Rows -/

/-- The document is of the source, and the chunk of the document. -/
structure LocalRow.Joined (row : LocalRow) (db : Store) : Prop where
  source : row.source ∈ db.sources
  document : row.document ∈ db.documents ∧ row.document.sourceId = row.source.id
  chunk : row.chunk ∈ db.chunks ∧ row.chunk.documentId = row.document.id

theorem mem_joinedRows {row : LocalRow} : row ∈ joinedRows db ↔ row.Joined db := by
  unfold joinedRows
  simp only [List.mem_flatMap, List.mem_map, List.mem_filter, beq_iff_eq]
  constructor
  · rintro ⟨source, hsource, document, hdocument, chunk, hchunk, rfl⟩
    exact ⟨hsource, hdocument, hchunk⟩
  · intro h
    exact ⟨row.source, h.source, row.document, h.document, row.chunk, h.chunk, rfl⟩

theorem LocalRow.inScope_grants {row : LocalRow} {scope : ContextScope}
    (h : row.inScope db scope = true) :
    db.grantsAccess (.exactly scope.projectId) row.source.id = true := by
  unfold inScope at h
  rw [Bool.and_eq_true] at h
  exact h.2

/-- What is listed is an item of a row that the scope is granted. -/
theorem localItems_granted {q : ContextHubQuery} {after : Option LocalSourcePosition}
    {item : ContextItem} (h : item ∈ (localItems ilike db q after).1) :
    ∃ row : LocalRow, row.Joined db ∧ item = row.item q.scope ∧ row.inScope db q.scope = true := by
  unfold localItems at h
  split at h
  · cases h
  · obtain ⟨row, hrow, rfl⟩ := List.mem_map.mp h
    have hmem : row ∈ localRows ilike db q after :=
      List.mem_of_mem_take (List.mem_of_mem_take hrow)
    obtain ⟨hjoined, hin⟩ := List.mem_filter.mp ((List.mem_insertionSort _).mp hmem)
    simp only [Bool.and_eq_true] at hin
    exact ⟨row, mem_joinedRows.mp hjoined, rfl, hin.1.1⟩

theorem reopenLocal_granted {scope : ContextScope} {p : LocalSourceProvenance} {item : ContextItem}
    (h : reopenLocal db scope p = some item) :
    ∃ row : LocalRow, row.Joined db ∧ item = row.item scope ∧ row.inScope db scope = true := by
  obtain ⟨row, hrow, rfl⟩ := Option.map_eq_some_iff.mp h
  have hin := List.find?_some hrow
  simp only [Bool.and_eq_true] at hin
  exact ⟨row, mem_joinedRows.mp (List.mem_of_find?_eq_some hrow), rfl, hin.2⟩

/-! ## Sources of captures -/

/-- What is read of the source of a capture, with its documents and its chunks. -/
structure BoundReads (ilike : Ilike) (db : Store) (c : CaptureItem) (x : Uuid) : Prop where
  source : ∀ scope source, getSource db x scope = some source → scope = .exactly c.projectId
  sources : ∀ limit offset, ∀ source ∈ listSources db limit offset, source.id ≠ x
  document : ∀ id read, getDocument db id = some read → read.document.sourceId ≠ x
  documentIn : ∀ id scope document, documentForScope db id scope = some document →
    document.sourceId = x → scope = .exactly c.projectId
  chunkIn : ∀ id scope chunk, chunkForScope db id scope = some chunk → ChunkOf db chunk x →
    scope = .exactly c.projectId
  linked : ∀ memoryId limit offset, ∀ l ∈ listSourcesForMemory db memoryId limit offset,
    l.source.id = x → ∃ memory, db.memory? memoryId = some memory ∧
      memory.projectId = c.projectId ∧ c.projectId.isSome = true
  toolSource : ∀ scope id shown, sourceGet db scope id = some shown → shown.id = x →
    scope = c.projectId
  toolChunk : ∀ scope id shown document, sourceChunkGet db scope id = some shown →
    db.document? shown.documentId = some document → document.sourceId = x → scope = c.projectId
  listed : ∀ q after, ∀ item ∈ (localItems ilike db q after).1, ∃ row : LocalRow,
    row.Joined db ∧ item = row.item q.scope ∧ (row.source.id = x → q.scope.projectId = c.projectId)
  reopened : ∀ scope p item, reopenLocal db scope p = some item → ∃ row : LocalRow,
    row.Joined db ∧ item = row.item scope ∧ (row.source.id = x → scope.projectId = c.projectId)

theorem boundReads {c : CaptureItem} {x : Uuid} (hrows : CaptureRows db) (h : BoundTo db c x) :
    BoundReads ilike db c x := by
  have hexact : ∀ {scope y}, db.grantsAccess scope y = true → y = x →
      scope = .exactly c.projectId := by
    rintro scope y hgrants rfl
    exact (grantsAccess_bound h hrows).mp hgrants
  have hscope : ∀ {projectId y}, db.grantsAccess (.exactly projectId) y = true → y = x →
      projectId = c.projectId := fun hgrants hy => SourceScope.exactly.inj (hexact hgrants hy)
  constructor
  case source =>
    intro scope source hread
    exact hexact (sourceForScope_grants hread).2 rfl
  case sources =>
    intro limit offset source hsource hx
    cases hexact (listSources_grants hsource) hx
  case document =>
    intro id read hread hx
    obtain ⟨document, hdocument, rfl⟩ := Option.map_eq_some_iff.mp hread
    cases hexact (documentForScope_grants hdocument).2.2 hx
  case documentIn =>
    intro id scope document hread hx
    exact hexact (documentForScope_grants hread).2.2 hx
  case chunkIn =>
    intro id scope chunk hread hx
    exact hexact (chunkForScope_grants hread hx) rfl
  case linked =>
    intro memoryId limit offset l hl hx
    obtain ⟨memory, hmemory, hgrants⟩ := listSourcesForMemory_grants hl
    rw [hx] at hgrants
    exact ⟨memory, hmemory, (grantsProposal_bound h hrows).mp hgrants⟩
  case toolSource =>
    intro scope id shown hread hx
    obtain ⟨source, hsource, rfl⟩ := Option.map_eq_some_iff.mp hread
    obtain ⟨hid, hgrants⟩ := sourceForScope_grants (Option.filter_eq_some_iff.mp hsource).1
    exact hscope hgrants (hid.symm.trans hx)
  case toolChunk =>
    intro scope id shown document hread hdocument hx
    obtain ⟨chunk, hchunk, rfl⟩ := Option.map_eq_some_iff.mp hread
    exact hscope (chunkForScope_grants (Option.filter_eq_some_iff.mp hchunk).1
      ⟨document, hdocument, hx⟩) rfl
  case listed =>
    intro q after item hitem
    obtain ⟨row, hjoined, heq, hin⟩ := localItems_granted hitem
    exact ⟨row, hjoined, heq, hscope (LocalRow.inScope_grants hin)⟩
  case reopened =>
    intro scope p item hitem
    obtain ⟨row, hjoined, heq, hin⟩ := reopenLocal_granted hitem
    exact ⟨row, hjoined, heq, hscope (LocalRow.inScope_grants hin)⟩

/-- What the routes list that have found a source, or a document, without a scope. -/
structure RouteReads (db db' : Store) : Prop where
  documents : ∀ sourceId source, getSource db sourceId .legacyOnly = some source →
    ∀ limit offset, ∀ read ∈ listDocumentsForSource db' sourceId limit offset,
      Unbound db' read.document.sourceId
  chunks : ∀ documentId read, getDocument db documentId = some read →
    ∀ limit offset, ∀ chunk ∈ listChunksForDocument db' documentId limit offset,
      ∀ sourceId, ChunkOf db' chunk sourceId → Unbound db' sourceId

theorem routeReads {db' : Store} (hrows : CaptureRows db) (hlater : Later db db') :
    RouteReads db db' := by
  constructor
  · intro sourceId source hfound limit offset read hread
    obtain ⟨document, hdocument, rfl⟩ := List.mem_map.mp (mem_page hread)
    have hid : document.sourceId = sourceId := by simpa using (List.mem_filter.mp hdocument).2
    show Unbound db' document.sourceId
    rw [hid]
    exact route_source hrows hlater hfound
  · intro documentId read hfound limit offset chunk hchunk sourceId hx
    have hmem := (List.mem_insertionSort _).mp (mem_page hchunk)
    have hid : chunk.documentId = documentId := by simpa using (List.mem_filter.mp hmem).2
    exact route_document hrows hlater hfound hid hx

/-- In every state of every run, the source of a capture is read in the scope of the capture
alone, and so are its documents and its chunks. What a route lists after it has found the
source or the document is of no capture, whatever has come between. The clause hides no
source that is in no capture. -/
theorem bound_sources_scoped (hs : (library sha256).Reachable s) :
    (∀ c x, BoundTo s.db c x → BoundReads ilike s.db c x) ∧
    (∀ s', ((library sha256).startingAt s).Reachable s' → RouteReads s.db s'.db) ∧
    ∀ x, Unbound s.db x → (∀ scope, s.db.grantsAccess scope x = true) ∧
      ∀ projectId, s.db.grantsProposal projectId x = true := by
  have hrows := (capturesSound_reachable hs).rows
  exact ⟨fun c x hx => boundReads hrows hx,
    fun s' hlater => routeReads hrows (later_reachable hlater),
    fun x hx => ⟨grantsAccess_unbound hx, grantsProposal_unbound hx⟩⟩

/-! ## A run -/

/-- The list of documents that takes no scope, asked for the source of a capture. -/
theorem bound_sources_listed : ¬ ∀ s, (library id).Reachable s → ∀ c x, BoundTo s.db c x →
    ∀ limit offset, listDocumentsForSource s.db x limit offset = [] := by
  intro h
  let p (s : Library) : Bool :=
    (s.db.capture? 10).any (fun c : CaptureItem => c.resultingSourceId == some 30) &&
      !(listDocumentsForSource s.db 30 50 0).isEmpty
  obtain ⟨s, hs, hsample⟩ := Machine.exists_reachable_of_exec (library id) sampleInbox p (s := {})
    rfl (by decide +kernel)
  obtain ⟨hbound, hlisted⟩ := Bool.and_eq_true_iff.mp hsample
  obtain ⟨c, hc, hx⟩ := (Option.any_eq_true _ _).mp hbound
  have hempty := h s hs c 30 ⟨(lookup_mem hc).1, by simpa using hx⟩ 50 0
  rw [hempty] at hlisted
  cases hlisted

theorem bound_sources_scoped_sample : ∃ s c, (library id).Reachable s ∧ BoundTo s.db c 30 ∧
    getSource s.db 30 .legacyOnly = none := by
  let p (s : Library) : Bool :=
    (s.db.capture? 10).any fun c : CaptureItem => c.resultingSourceId == some 30
  obtain ⟨s, hs, hsample⟩ := Machine.exists_reachable_of_exec (library id) sampleInbox p (s := {})
    rfl (by decide +kernel)
  obtain ⟨c, hc, hx⟩ := (Option.any_eq_true _ _).mp hsample
  have hbound : BoundTo s.db c 30 := ⟨(lookup_mem hc).1, by simpa using hx⟩
  have hreads : BoundReads (fun _ _ => false) s.db c 30 :=
    (bound_sources_scoped hs).1 c 30 hbound
  refine ⟨s, c, hs, hbound, ?_⟩
  cases hread : getSource s.db 30 .legacyOnly with
  | none => rfl
  | some source => cases hreads.source _ _ hread

end ContextHub

end SecondBrain
