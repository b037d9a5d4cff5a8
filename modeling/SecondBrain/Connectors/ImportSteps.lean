import SecondBrain.Connectors.Imports
import SecondBrain.Connectors.Soundness
import SecondBrain.Knowledge.Access

/-!
# What a step of an import does

A confirmation is refused where it is, or goes on. What it writes it writes at once: a
source, its document with the chunks, and the import. A refresh waits for the rows that
confirmations hold, so the row a confirmation has read stays as it was read and stays the
latest of its identity until the confirmation is answered.
-/

namespace SecondBrain

open Lib

namespace Connectors

open Knowledge (HttpError Draw ExternalContent LibraryLabel)

variable {c : Coercions} {p : Platform} {s s' : ImportState} {l : ImportLabel} {i j : Nat}
  {d : Draw} {q : Confirmation} {item : ExternalItem} {said : ExternalContent}
  {v : ExternalItemImportPreview} {db db' : Store}

/-! ## The item -/

/-- The row is one that the confirmation can be about. -/
structure Confirmation.Names (q : Confirmation) (item : ItemRevision) : Prop where
  id : item.id = q.rowId
  account : item.identity.accountId = q.accountId
  scope : item.projectId = q.scope

/-- What an item was found to be when it was read. -/
structure Scoped (db : Store) (q : Confirmation) (item : ExternalItem) : Prop where
  known : (db.account? q.accountId).isSome = true
  mem : item ∈ db.items
  names : q.Names item.toItemRevision
  current : item.state = .current

theorem scopedItem_spec : Ensures (scopedItem db q.accountId q.scope q.rowId) (Scoped db q) := by
  unfold scopedItem
  refine .ite (fun _ => .error _) fun hknown => ?_
  split
  · exact .error _
  next item hitem =>
  obtain ⟨hmem, hid⟩ := lookup_mem hitem
  refine .ite (fun _ => .error _) fun hscope => .ite (fun _ => .error _) fun hstate => ?_
  rw [not_or, ne_eq, not_not, ne_eq, not_not] at hscope
  exact Ensures.ok_iff.mpr
    ⟨by simpa [Option.isSome_iff_ne_none] using hknown, hmem, ⟨hid, hscope.1, hscope.2⟩, by simpa using hstate⟩

theorem lookup_row (hdb : Numbered db.written) (hmem : item ∈ db.items) (hid : item.id = q.rowId) :
    lookup (fun row : ExternalItem => row.id) q.rowId db.items = some item := by
  have hkeyed : Keyed (fun row : ExternalItem => row.id) db.items := by
    have hids := hdb.ids
    rw [Keyed, Store.written, List.map_map] at hids
    exact hids
  exact hkeyed.lookup_iff.mpr ⟨hmem, hid⟩

theorem scopedItem_ok (hdb : Numbered db.written) (h : Scoped db q item) :
    scopedItem db q.accountId q.scope q.rowId = .ok item := by
  unfold scopedItem
  rw [if_neg (by simp [Option.isSome_iff_ne_none.mp h.known]), lookup_row hdb h.mem h.names.id]
  simp [h.names.account, h.names.scope, h.current]

/-- Once its row is known, an item is refused for its state only. -/
theorem scopedItem_error (hdb : Numbered db.written) {e : HttpError}
    (haccount : (db.account? q.accountId).isSome = true) (hmem : item ∈ db.items)
    (hnames : q.Names item.toItemRevision)
    (h : scopedItem db q.accountId q.scope q.rowId = .error e) :
    e = conflict ∧ item.state ≠ .current := by
  unfold scopedItem at h
  rw [if_neg (by simp [Option.isSome_iff_ne_none.mp haccount]), lookup_row hdb hmem hnames.id] at h
  dsimp only at h
  rw [if_neg (by simp [hnames.account, hnames.scope])] at h
  split at h
  · next hstate => exact ⟨(Except.error.inj h).symm, hstate⟩
  · cases h

theorem latestRevision_of_mem (hmem : item ∈ db.items) {identity : Identity}
    (h : item.identity = identity) : ∃ last, db.latestRevision identity = some last :=
  Option.isSome_iff_exists.mp (latest_isSome hmem (beq_iff_eq.mpr h))

/-- The latest row of its identity is the one with the highest number. -/
theorem requireLatest_iff (hmem : item ∈ db.items) :
    requireLatest db item.toItemRevision = .ok () ↔ db.isLatest item = true := by
  have hlatest : (db.latestRevision item.identity).map (·.applicationRevision) =
      some item.applicationRevision ↔ db.isLatest item = true := by
    obtain ⟨last, hlast⟩ := latestRevision_of_mem hmem rfl
    obtain ⟨hlastmem, hidentity, hmax⟩ := latest_spec hlast
    have hle := hmax item hmem (by simp)
    rw [hlast, Option.map_some, Option.some.injEq, Store.isLatest,
      List.all_eq_true]
    constructor
    · intro heq other hother
      by_cases hsame : other.identity = item.identity
      · have hother := hmax other hother (by simpa using hsame)
        simpa [hsame, ← heq] using hother
      · simp [hsame]
    · intro hall
      have hlast := hall last hlastmem
      have hlast : last.applicationRevision ≤ item.applicationRevision := by
        simpa [beq_iff_eq.mp hidentity] using hlast
      exact Nat.le_antisymm hlast hle
  rw [← hlatest, requireLatest]
  split
  · next h => simp [h]
  · next h => simp [h]

theorem requireLatest_error {e : HttpError} (h : requireLatest db item.toItemRevision = .error e) :
    e = conflict := by
  unfold requireLatest at h
  split at h
  · cases h
  · exact (Except.error.inj h).symm

/-! ## What is written -/

/-- What an import writes. -/
structure ImportWritten (p : Platform) (db : Knowledge.Store) (imports : List ExternalItemImport)
    (item : ItemRevision) (v : ExternalItemImportPreview) (r : ImportResult)
    (db' : Knowledge.Store) (imports' : List ExternalItemImport) : Prop where
  item : r.provenance.externalItemId = item.id
  fingerprint : r.provenance.confirmationFingerprint = v.confirmationFingerprint
  url : r.provenance.canonicalSourceUrl = v.canonicalSourceUrl
  document : r.provenance.sourceDocumentId = r.document.id
  owner : r.document.sourceId = r.source.id
  fresh : db.source? r.source.id = none
  unfiled : db.document? r.document.id = none
  library : ∃ chunks, db' =
    { db with
      sources := db.sources ++ [r.source]
      documents := db.documents ++ [r.document]
      chunks := chunks }
  imports_eq : imports' = imports ++ [r.provenance]
  free : ∀ x ∈ imports, x.externalItemId ≠ r.provenance.externalItemId ∧
    x.sourceDocumentId ≠ r.provenance.sourceDocumentId

theorem insertImport_spec {imports : List ExternalItemImport} {row : ExternalItemImport} :
    Ensures (insertImport imports row) fun imports' => imports' = imports ++ [row] ∧
      ∀ x ∈ imports, x.externalItemId ≠ row.externalItemId ∧
        x.sourceDocumentId ≠ row.sourceDocumentId := by
  unfold insertImport
  refine .ite (fun _ => .error _) fun _ => .ite (fun _ => .error _) fun hfree => ?_
  refine Ensures.ok_iff.mpr ⟨rfl, fun x hx => ?_⟩
  have hfree := List.any_eq_false.mp (Bool.eq_false_iff.mpr (not_or.mp hfree).2) x hx
  simp only [Bool.or_eq_true, beq_iff_eq, not_or] at hfree
  exact ⟨hfree.1.2, hfree.2⟩

theorem document_free {db db' : Knowledge.Store} {ingest : Knowledge.IngestRequest}
    {ids : Nat → Uuid} {documentId : Uuid} {now : Instant} {outcome : Knowledge.IngestionOutcome}
    (h : Knowledge.writeDocument db ingest none ids documentId now = .ok (outcome, db')) :
    db.document? documentId = none := by
  unfold Knowledge.writeDocument at h
  dsimp only at h
  split at h
  · cases h
  next hwrites =>
  split at hwrites
  · cases hwrites
  · next hfree =>
      simp only [Bool.or_eq_true, not_or, Bool.not_eq_true, Option.isSome_eq_false_iff,
        Option.isNone_iff_eq_none] at hfree
      exact hfree.1.2

theorem importItem_spec {db : Knowledge.Store} {imports : List ExternalItemImport}
    {item : ItemRevision} : Ensures (importItem p db imports d item said v) fun x =>
      ImportWritten p db imports item v x.1 x.2.1 x.2.2 := by
  unfold importItem
  dsimp only
  split
  · exact .error _
  next ingest hingest =>
  split
  · exact .error _
  next created hcreated =>
  obtain ⟨hfresh, rfl⟩ := Knowledge.createSource_spec hcreated
  refine .bind_any fun stored hstored => insertImport_spec.bind fun rows hrows => ?_
  obtain ⟨outcome, stored⟩ := stored
  obtain ⟨rfl, hfree⟩ := hrows
  have hunfiled : db.document? (d.ids 1) = none := (document_free hstored :)
  obtain ⟨chunks, rfl⟩ := Knowledge.writeDocument_created hstored
  have hsource : ingest.sourceId = d.ids 0 := by
    unfold Knowledge.importRequest at hingest
    split at hingest
    · cases hingest
    · obtain rfl := Option.some.inj hingest
      rfl
  exact Ensures.pure_iff.mpr
    ⟨rfl, rfl, rfl, rfl, hsource, hfresh, hunfiled, ⟨chunks, rfl⟩, rfl, hfree⟩

/-- What is later the case of the sources after an import. -/
theorem ImportWritten.later {db db' : Knowledge.Store} {imports imports' : List ExternalItemImport}
    {item : ItemRevision} {r : ImportResult}
    (h : ImportWritten p db imports item v r db' imports') : Knowledge.Later db db' := by
  obtain ⟨chunks, rfl⟩ := h.library
  exact .of_eq (.of_sources rfl rfl (Knowledge.keepsDocuments_append _)) rfl

/-! ## What is answered of an import that is there -/

theorem existingResult_spec {db : Knowledge.Store} {row : ExternalItemImport}
    {scope : Option Uuid} : Ensures (existingResult db row scope) fun r =>
      r.provenance = row ∧ r.created = false ∧ db.document? row.sourceDocumentId = some r.document ∧
        db.source? r.document.sourceId = some r.source := by
  unfold existingResult
  split
  · exact .error _
  next document hdocument =>
  split
  · exact .error _
  next source hsource =>
  exact Ensures.ok_iff.mpr ⟨rfl, rfl, (Knowledge.documentForScope_grants hdocument).1,
    (Option.filter_eq_some_iff.mp hsource).1⟩

/-- An import is found again in every scope. -/
theorem existingResult_ok {db : Knowledge.Store} {row : ExternalItemImport} {scope : Option Uuid}
    {document : Knowledge.SourceDocument}
    (hdocument : db.document? row.sourceDocumentId = some document)
    (hsource : (db.source? document.sourceId).isSome = true)
    (hunbound : Knowledge.Unbound db document.sourceId) :
    ∃ r, existingResult db row scope = .ok r := by
  obtain ⟨source, hsource⟩ := Option.isSome_iff_exists.mp hsource
  have hgrants := Knowledge.grantsAccess_unbound hunbound (.exactly scope)
  have hread : Knowledge.documentForScope db row.sourceDocumentId (.exactly scope) =
      some document := by
    rw [Knowledge.documentForScope, hdocument]
    simp [Option.filter, hsource, hgrants]
  have hfound : db.sourceForScope document.sourceId (.exactly scope) = some source := by
    rw [Knowledge.Store.sourceForScope, hsource]
    simp [Option.filter, hgrants]
  unfold existingResult
  rw [hread]
  dsimp only
  rw [hfound]
  exact ⟨_, rfl⟩

/-! ## A confirmation -/

/-- Why a confirmation is refused where it is. -/
inductive Refused (c : Coercions) (p : Platform) (s : ImportState) (d : Draw) (q : Confirmation) :
    ImportPhase → HttpError → Prop
  | unscoped {e : HttpError} :
      scopedItem s.sync.db q.accountId q.scope q.rowId = .error e → Refused c p s d q .arrived e
  | superseded {item : ExternalItem} :
      requireLatest s.sync.db item.toItemRevision = .error conflict →
      Refused c p s d q (.holding item) conflict
  | unreadable {item : ExternalItem} :
      content c item.toItemRevision = none → Refused c p s d q (.standing item) conflict
  | differs {item : ExternalItem} {said : ExternalContent} {v : ExternalItemImportPreview} :
      content c item.toItemRevision = some said →
      v = previewOf item.toItemRevision said (sourceUrl s.sync.db item.toItemRevision said) →
      q.confirms { v with confirmationFingerprint := fingerprint p v } = false →
      Refused c p s d q (.standing item) conflict
  | imported {item : ExternalItem} {said : ExternalContent} {v : ExternalItemImportPreview}
      {row : ExternalItemImport} :
      lookup (·.externalItemId) item.id s.imports = some row →
      row.confirmationFingerprint ≠ v.confirmationFingerprint →
      Refused c p s d q (.previewed item said v) conflict
  | lost {item : ExternalItem} {said : ExternalContent} {v : ExternalItemImportPreview}
      {row : ExternalItemImport} {e : HttpError} :
      lookup (·.externalItemId) item.id s.imports = some row →
      existingResult s.library.db row q.scope = .error e →
      Refused c p s d q (.previewed item said v) e
  | unstored {item : ExternalItem} {said : ExternalContent} {v : ExternalItemImportPreview}
      {e : HttpError} :
      importItem p s.library.db s.imports d item.toItemRevision said v = .error e →
      Refused c p s d q (.unimported item said v) e

/-- What a confirmation does. -/
inductive ConfirmStep (c : Coercions) (p : Platform) (s : ImportState) (i : Nat) (d : Draw)
    (q : Confirmation) : ImportPhase → ImportState → Prop
  | refused {phase : ImportPhase} {e : HttpError} :
      Refused c p s d q phase e → ConfirmStep c p s i d q phase (s.answer i q (.error e))
  | held {item : ExternalItem} {held : Locks Uuid} :
      scopedItem s.sync.db q.accountId q.scope q.rowId = .ok item →
      s.locks.acquire i [q.rowId] = some held →
      ConfirmStep c p s i d q .arrived ({ s with locks := held }.turn i q (.holding item))
  | stands {item : ExternalItem} :
      requireLatest s.sync.db item.toItemRevision = .ok () →
      ConfirmStep c p s i d q (.holding item) (s.turn i q (.standing item))
  | previewed {item : ExternalItem} {said : ExternalContent} {values v : ExternalItemImportPreview} :
      content c item.toItemRevision = some said →
      values = previewOf item.toItemRevision said (sourceUrl s.sync.db item.toItemRevision said) →
      v = { values with confirmationFingerprint := fingerprint p values } → q.confirms v = true →
      ConfirmStep c p s i d q (.standing item) (s.turn i q (.previewed item said v))
  | unimported {item : ExternalItem} {said : ExternalContent} {v : ExternalItemImportPreview} :
      lookup (·.externalItemId) item.id s.imports = none →
      ConfirmStep c p s i d q (.previewed item said v) (s.turn i q (.unimported item said v))
  | existing {item : ExternalItem} {said : ExternalContent} {v : ExternalItemImportPreview}
      {row : ExternalItemImport} {r : ImportResult} :
      lookup (·.externalItemId) item.id s.imports = some row →
      row.confirmationFingerprint = v.confirmationFingerprint →
      existingResult s.library.db row q.scope = .ok r →
      ConfirmStep c p s i d q (.previewed item said v) (s.answer i q (.ok r))
  | imported {item : ExternalItem} {said : ExternalContent} {v : ExternalItemImportPreview}
      {r : ImportResult} {db : Knowledge.Store} {imports : List ExternalItemImport} :
      ImportWritten p s.library.db s.imports item.toItemRevision v r db imports →
      ConfirmStep c p s i d q (.unimported item said v)
        ({ s with library := { s.library with db := db }, imports := imports }.answer i q (.ok r))

theorem advance_step {phase : ImportPhase} (h : s.advance c p i d q phase = some s') :
    ConfirmStep c p s i d q phase s' := by
  cases phase with
  | arrived =>
      obtain ⟨held, hheld, rfl⟩ := Option.map_eq_some_iff.mp h
      split
      · next hrefused => exact .refused (.unscoped hrefused)
      · next hitem => exact .held hitem hheld
  | holding item =>
      rw [ImportState.advance] at h
      split at h
      · next e hlatest =>
          obtain rfl := Option.some.inj h
          obtain rfl := requireLatest_error hlatest
          exact .refused (.superseded hlatest)
      · next hlatest =>
          obtain rfl := Option.some.inj h
          exact .stands hlatest
  | standing item =>
      rw [ImportState.advance, previewValues] at h
      cases hcontent : content c item.toItemRevision with
      | none =>
          rw [hcontent] at h
          obtain rfl := Option.some.inj h
          exact .refused (.unreadable hcontent)
      | some said =>
          rw [hcontent] at h
          dsimp only at h
          split at h
          · next hconfirms =>
              obtain rfl := Option.some.inj h
              exact .previewed hcontent rfl rfl hconfirms
          · next hdiffers =>
              obtain rfl := Option.some.inj h
              exact .refused (.differs hcontent rfl (Bool.eq_false_iff.mpr hdiffers))
  | previewed item said v =>
      rw [ImportState.advance] at h
      split at h
      · next hnone =>
          obtain rfl := Option.some.inj h
          exact .unimported hnone
      next row hrow =>
      split at h
      · next hdiffers =>
          obtain rfl := Option.some.inj h
          exact .refused (.imported hrow hdiffers)
      next hsame =>
      obtain rfl := Option.some.inj h
      cases hresult : existingResult s.library.db row q.scope with
      | error e => exact .refused (.lost hrow hresult)
      | ok r => exact .existing hrow (by simpa using hsame) hresult
  | unimported item said v =>
      rw [ImportState.advance] at h
      split at h
      · next hfailed =>
          obtain rfl := Option.some.inj h
          exact .refused (.unstored hfailed)
      · next hdone =>
          obtain rfl := Option.some.inj h
          exact .imported (importItem_spec _ hdone)
  | answered answer => cases h

/-! ## The machine -/

/-- What a step does. -/
inductive ImportStep (c : Coercions) (p : Platform) (s : ImportState) :
    ImportLabel → ImportState → Prop
  | project {id : Uuid} {sync : SyncState} {library : Knowledge.Library} :
      Sync.step p s.sync (.edit (.addProject id)) = some sync →
      (Knowledge.library (textHash p)).next s.library (.project id) = some library →
      ImportStep c p s (.project id) { s with sync := sync, library := library }
  | refreshed {l : SyncLabel} {sync : SyncState} :
      Sync.step p s.sync l = some sync →
      (∀ id ∈ lockedRows s.sync.db sync.db, s.locks id = none) →
      ImportStep c p s (.refresh l) { s with sync := sync }
  | library {l : LibraryLabel} {library : Knowledge.Library} :
      (Knowledge.library (textHash p)).next s.library l = some library →
      ImportStep c p s (.library l) { s with library := library }
  | arrived {q : Confirmation} :
      ImportStep c p s (.confirm q) { s with importers := s.importers ++ [⟨q, .arrived⟩] }
  | advanced {i : Nat} {d : Draw} {importer : Importer} {s' : ImportState} :
      s.importers[i]? = some importer → ConfirmStep c p s i d importer.q importer.phase s' →
      ImportStep c p s (.advance i d) s'
  | stopped {i : Nat} {importer : Importer} :
      s.importers[i]? = some importer → (∀ a, importer.phase ≠ .answered a) →
      ImportStep c p s (.stop i)
        (s.answer i importer.q (.error Knowledge.databaseUnavailable))

theorem import_step (h : (importing c p).next s l = some s') : ImportStep c p s l s' := by
  have h : s.next c p l = some s' := h
  cases l with
  | project id =>
      obtain ⟨sync, hsync, h⟩ := bind_some h
      obtain ⟨library, hlibrary, h⟩ := bind_some h
      obtain rfl := Option.some.inj h
      exact .project hsync hlibrary
  | refresh l =>
      rw [ImportState.next] at h
      split at h
      · cases h
      obtain ⟨sync, hsync, h⟩ := bind_some h
      split at h
      · next hfree =>
          obtain rfl := Option.some.inj h
          refine .refreshed hsync fun id hid => ?_
          simpa using List.all_eq_true.mp hfree id hid
      · cases h
  | library l =>
      rw [ImportState.next] at h
      split at h
      · cases h
      obtain ⟨library, hlibrary, h⟩ := bind_some h
      obtain rfl := Option.some.inj h
      exact .library hlibrary
  | confirm q =>
      obtain rfl := Option.some.inj h
      exact .arrived
  | advance i d =>
      obtain ⟨importer, himporter, h⟩ := bind_some h
      exact .advanced himporter (advance_step h)
  | stop i =>
      rw [ImportState.next] at h
      split at h
      · cases h
      · next importer hopen himporter =>
          obtain rfl := Option.some.inj h
          refine .stopped himporter fun a ha => hopen importer.q a ?_
          rw [← ha]
      · cases h

/-! ## Rows that are held -/

/-- A refresh leaves a row that is held, and adds nothing after it. -/
theorem refresh_holds {sync : SyncState} {l : SyncLabel} (hsound : s.sync.db.Sound p)
    (hstep : Sync.step p s.sync l = some sync)
    (hfree : ∀ id ∈ lockedRows s.sync.db sync.db, s.locks id = none)
    (hmem : item ∈ s.sync.db.items) (hlock : s.locks item.id = some i) :
    item ∈ sync.db.items ∧ (s.sync.db.isLatest item = true → sync.db.isLatest item = true) := by
  have hkept : item.id ∉ lockedRows s.sync.db sync.db := by
    intro hid
    have hfree := hfree item.id hid
    rw [hlock] at hfree
    cases hfree
  rw [lockedRows, List.mem_append, not_or] at hkept
  constructor
  · by_contra hgone
    exact hkept.1 (List.mem_map.mpr ⟨item, List.mem_filter.mpr ⟨hmem, by simpa using hgone⟩, rfl⟩)
  · intro hlatest
    obtain ⟨hbegins, -⟩ := (step_moves hstep).written hsound.numbered
    rw [Store.isLatest, List.all_eq_true] at hlatest ⊢
    intro other hother
    by_cases hsame : other.identity = item.identity
    swap
    · simp [hsame]
    rw [hsame, beq_self_eq_true, Bool.not_true, Bool.false_or, decide_eq_true_eq]
    -- a row that was there has the number it had, and a new one would have locked the latest
    have hsplit := List.take_append_drop s.sync.db.items.length sync.db.items
    rw [← hsplit, List.mem_append] at hother
    rcases hother with hold | hnew
    · have hwritten : (sync.db.items.take s.sync.db.items.length).map (·.toItemRevision) =
          s.sync.db.written := by
        rw [List.map_take]
        have htake := List.prefix_iff_eq_take.mp hbegins
        rw [Store.written, Store.written, List.length_map] at htake
        exact htake.symm
      have hrevision : other.toItemRevision ∈ s.sync.db.written := by
        rw [← hwritten]
        exact List.mem_map_of_mem hold
      obtain ⟨old, holdmem, heq⟩ := List.mem_map.mp hrevision
      have hle := hlatest old holdmem
      have hidentity : old.identity = item.identity := by
        rw [← hsame]
        exact congrArg ItemRevision.identity heq
      have hnumber : old.applicationRevision = other.applicationRevision :=
        congrArg ItemRevision.applicationRevision heq
      rw [hidentity] at hle
      simpa [← hnumber] using hle
    · exfalso
      refine hkept.2 (List.mem_filterMap.mpr ⟨other, hnew, ?_⟩)
      obtain ⟨last, hlast⟩ := latestRevision_of_mem hmem hsame.symm
      obtain ⟨hlastmem, hidentity, hmax⟩ := latest_spec hlast
      have hidentity : last.identity = item.identity := (beq_iff_eq.mp hidentity).trans hsame
      have hle := hmax item hmem (by simp [hsame])
      have hge := hlatest last hlastmem
      rw [hidentity] at hge
      have hge : last.applicationRevision ≤ item.applicationRevision := by simpa using hge
      have hrevision : last.toItemRevision = item.toItemRevision :=
        hsound.numbered.chained.number_inj (List.mem_map_of_mem hlastmem)
          (List.mem_map_of_mem hmem) hidentity (Nat.le_antisymm hge hle)
      rw [hlast, Option.map_some]
      exact congrArg some (congrArg ItemRevision.id hrevision)

end Connectors

end SecondBrain
