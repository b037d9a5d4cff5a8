import SecondBrain.Knowledge.CaptureLife
import SecondBrain.Knowledge.Reads

/-!
# Who is granted a source

A source that is in no capture is granted to every scope. One that a capture was made
is granted in the project the capture has, or in none if it has none, and not where a
scope is not given. Each read asks for this of the source it comes to, and a source that
was found outside of every capture stays outside.
-/

namespace SecondBrain

open Lib

namespace Knowledge

variable {sha256 : Sha256} {s s' : Library} {db db' : Store} {x : Uuid} {c : CaptureItem}

/-! ## The clause -/

/-- The source is that of the capture. -/
structure BoundTo (db : Store) (c : CaptureItem) (sourceId : Uuid) : Prop where
  mem : c ∈ db.captures
  source : c.resultingSourceId = some sourceId

theorem Unbound.bindings (h : Unbound db x) : db.bindings x = [] :=
  List.filter_eq_nil_iff.mpr fun c hc hx => h c hc (by simpa using hx)

theorem grantsAccess_unbound (h : Unbound db x) (scope : SourceScope) :
    db.grantsAccess scope x = true := by
  unfold Store.grantsAccess
  rw [h.bindings]
  rfl

theorem grantsProposal_unbound (h : Unbound db x) (projectId : Option Uuid) :
    db.grantsProposal projectId x = true := by
  unfold Store.grantsProposal
  rw [h.bindings]
  rfl

theorem BoundTo.binding (h : BoundTo db c x) : c ∈ db.bindings x :=
  List.mem_filter.mpr ⟨h.mem, by simp [h.source]⟩

theorem BoundTo.eq_of_binding (h : BoundTo db c x) (hrows : CaptureRows db) {b : CaptureItem}
    (hb : b ∈ db.bindings x) : b = c := by
  obtain ⟨hmem, hx⟩ := List.mem_filter.mp hb
  exact hrows.single b hmem c h.mem x (by simpa using hx) h.source

theorem BoundTo.isEmpty (h : BoundTo db c x) : (db.bindings x).isEmpty = false := by
  cases hb : db.bindings x with
  | nil =>
      have hmem := h.binding
      rw [hb] at hmem
      cases hmem
  | cons b rest => rfl

theorem BoundTo.isProcessed (h : BoundTo db c x) (hrows : CaptureRows db) :
    c.isProcessed = true := by
  have hprocessed : c.state = .processed := by
    rw [hrows.resultingSourceId c h.mem, h.source]
    rfl
  simp [CaptureItem.isProcessed, hprocessed, (hrows.processedAt c h.mem).mp hprocessed]

/-- A source of a capture is granted in the scope of the capture alone. -/
theorem grantsAccess_bound (h : BoundTo db c x) (hrows : CaptureRows db) {scope : SourceScope} :
    db.grantsAccess scope x = true ↔ scope = .exactly c.projectId := by
  unfold Store.grantsAccess
  rw [h.isEmpty, Bool.false_or]
  cases scope with
  | legacyOnly => simp
  | exactly projectId =>
      dsimp only
      rw [List.any_eq_true]
      constructor
      · rintro ⟨b, hb, hscope⟩
        obtain rfl := h.eq_of_binding hrows hb
        simp only [Bool.and_eq_true, beq_iff_eq] at hscope
        rw [hscope.2]
      · intro hscope
        refine ⟨c, h.binding, ?_⟩
        simp [h.isProcessed hrows, SourceScope.exactly.inj hscope]

theorem grantsProposal_bound (h : BoundTo db c x) (hrows : CaptureRows db)
    {projectId : Option Uuid} :
    db.grantsProposal projectId x = true ↔ projectId = c.projectId ∧ c.projectId.isSome = true := by
  unfold Store.grantsProposal
  rw [h.isEmpty, Bool.false_or, List.any_eq_true]
  constructor
  · rintro ⟨b, hb, hscope⟩
    obtain rfl := h.eq_of_binding hrows hb
    simp only [Bool.and_eq_true, beq_iff_eq] at hscope
    exact ⟨hscope.2.symm, hscope.1.2⟩
  · intro hscope
    refine ⟨c, h.binding, ?_⟩
    simp [h.isProcessed hrows, hscope.1, hscope.2]

/-! ## The reads -/

theorem sourceForScope_grants {scope : SourceScope} {source : Source}
    (h : db.sourceForScope x scope = some source) :
    source.id = x ∧ db.grantsAccess scope x = true := by
  obtain ⟨hfound, hgrants⟩ := Option.filter_eq_some_iff.mp h
  exact ⟨(lookup_mem hfound).2, hgrants⟩

theorem documentForScope_grants {scope : SourceScope} {id : Uuid} {document : SourceDocument}
    (h : documentForScope db id scope = some document) :
    db.document? id = some document ∧ (db.source? document.sourceId).isSome = true ∧
      db.grantsAccess scope document.sourceId = true := by
  obtain ⟨hfound, hgrants⟩ := Option.filter_eq_some_iff.mp h
  rw [Bool.and_eq_true] at hgrants
  exact ⟨hfound, hgrants⟩

/-- The chunk is one of a document of the source. -/
def ChunkOf (db : Store) (c : SourceChunk) (sourceId : Uuid) : Prop :=
  ∃ document, db.document? c.documentId = some document ∧ document.sourceId = sourceId

theorem chunkForScope_grants {scope : SourceScope} {id : Uuid} {chunk : SourceChunk}
    (h : chunkForScope db id scope = some chunk) (hx : ChunkOf db chunk x) :
    db.grantsAccess scope x = true := by
  obtain ⟨-, hdocument⟩ := Option.filter_eq_some_iff.mp h
  obtain ⟨document, hdocument⟩ := Option.isSome_iff_exists.mp hdocument
  obtain ⟨hfound, -, hgrants⟩ := documentForScope_grants hdocument
  obtain ⟨document', hfound', rfl⟩ := hx
  rw [hfound] at hfound'
  obtain rfl := Option.some.inj hfound'
  exact hgrants

theorem mem_page {α : Type} {limit offset : Nat} {rows : List α} {a : α}
    (h : a ∈ page limit offset rows) : a ∈ rows :=
  List.mem_of_mem_drop (List.mem_of_mem_take h)

theorem listSources_grants {limit offset : Nat} {source : Source}
    (h : source ∈ listSources db limit offset) :
    db.grantsAccess .legacyOnly source.id = true := by
  have hmem := (List.mem_insertionSort _).mp (mem_page h)
  exact (List.mem_filter.mp hmem).2

theorem listSourcesForMemory_grants {memoryId : Uuid} {limit offset : Nat} {l : LinkedSource}
    (h : l ∈ listSourcesForMemory db memoryId limit offset) :
    ∃ memory, db.memory? memoryId = some memory ∧
      db.grantsProposal memory.projectId l.source.id = true := by
  have hmem := (List.mem_insertionSort _).mp (mem_page h)
  obtain ⟨link, hlink, hl⟩ := List.mem_filterMap.mp hmem
  have hid : link.memoryId = memoryId := by simpa using (List.mem_filter.mp hlink).2
  unfold linkedSource at hl
  obtain ⟨source, hsource, hl⟩ := Option.bind_eq_some_iff.mp hl
  obtain ⟨memory, hmemory, hl⟩ := Option.bind_eq_some_iff.mp hl
  split at hl
  · next hgrants =>
      obtain rfl := Option.some.inj hl
      exact ⟨memory, hid ▸ hmemory, hgrants⟩
  · cases hl

/-! ## The routes -/

/-- A source that a route has found without a scope is in no capture, and stays so. -/
theorem route_source (hrows : CaptureRows db) (hlater : Later db db') {source : Source}
    (h : getSource db x .legacyOnly = some source) : Unbound db' x := by
  have hgrants := (sourceForScope_grants h).2
  have hsome : (db.source? x).isSome = true := by
    rw [(Option.filter_eq_some_iff.mp h).1]
    rfl
  refine hlater.unbound hsome fun c hc hx => ?_
  cases (grantsAccess_bound ⟨hc, hx⟩ hrows).mp hgrants

/-- What a route lists of a document it has found is of a source in no capture. -/
theorem route_document (hrows : CaptureRows db) (hlater : Later db db') {id : Uuid}
    {read : DocumentRead} (h : getDocument db id = some read) {chunk : SourceChunk}
    (hchunk : chunk.documentId = id) (hx : ChunkOf db' chunk x) : Unbound db' x := by
  obtain ⟨document, hdocument, -⟩ := Option.map_eq_some_iff.mp h
  obtain ⟨hfound, hsome, hgrants⟩ := documentForScope_grants hdocument
  obtain ⟨document', hfound', hsource⟩ := hlater.grows.documents id document hfound
  have hx : document.sourceId = x := by
    obtain ⟨other, hother, rfl⟩ := hx
    have hother : lookup (·.id) id db'.documents = some other := hchunk ▸ hother
    rw [hfound'] at hother
    obtain rfl := Option.some.inj hother
    exact hsource.symm
  subst hx
  refine hlater.unbound hsome fun c hc hx => ?_
  cases (grantsAccess_bound ⟨hc, hx⟩ hrows).mp hgrants

end Knowledge

end SecondBrain
