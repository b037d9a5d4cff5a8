import SecondBrain.Connectors.ImportSteps

/-!
# One import for each item

A confirmation that was accepted named the latest row of its identity as it stood, and
the fingerprint of its preview. While it holds the row no other confirmation looks for the
item's import, and no refresh takes the row's place, so an item has one import at
most. A confirmation that is made again finds it, unless the item no longer stands or its
address is another by now (`import_once`).

The address is part of what is confirmed, and is read from rows that are not locked. It
can become known after the import, and then the same confirmation is refused although the
item still stands (`readdressed_refused`).
-/

namespace SecondBrain

open Lib

namespace Connectors

open Knowledge (Draw ExternalContent)

variable {c : Coercions} {p : Platform} {s s' s'' : ImportState} {l : ImportLabel} {i j : Nat}
  {d : Draw} {q : Confirmation} {x : ExternalItemImport} {r : ImportResult}

/-! ## What stays -/

structure ImportLater (s s' : ImportState) : Prop where
  accounts : Keeps s.sync.db s'.sync.db
  written : s.sync.db.written <+: s'.sync.db.written
  library : Knowledge.Later s.library.db s'.library.db
  imports : s.imports <+: s'.imports
  answers : ∀ {i : Nat} {q : Confirmation} {answer : Except Knowledge.HttpError ImportResult},
    s.importers[i]? = some ⟨q, .answered answer⟩ → s'.importers[i]? = some ⟨q, .answered answer⟩

namespace ImportLater

theorem refl (s : ImportState) : ImportLater s s :=
  ⟨.refl _, List.prefix_rfl, .refl _, List.prefix_rfl, id⟩

theorem trans (h : ImportLater s s') (h' : ImportLater s' s'') : ImportLater s s'' :=
  ⟨h.accounts.trans h'.accounts, h.written.trans h'.written, h.library.trans h'.library,
    h.imports.trans h'.imports, fun hanswer => h'.answers (h.answers hanswer)⟩

theorem known (h : ImportLater s s') {id : Uuid} (hknown : (s.sync.db.account? id).isSome = true) :
    (s'.sync.db.account? id).isSome = true := by
  obtain ⟨account, haccount⟩ := Option.isSome_iff_exists.mp hknown
  obtain ⟨account', haccount', -⟩ := h.accounts.accounts haccount
  rw [haccount']
  rfl

end ImportLater

/-- Another importer's turn leaves the answers. -/
theorem answers_set {importers : List Importer} {importer new : Importer} {q : Confirmation}
    {answer : Except Knowledge.HttpError ImportResult}
    (himporter : importers[i]? = some importer) (hopen : ∀ a, importer.phase ≠ .answered a)
    (h : importers[j]? = some ⟨q, .answered answer⟩) :
    (importers.set i new)[j]? = some ⟨q, .answered answer⟩ := by
  have hne : i ≠ j := by
    rintro rfl
    rw [himporter] at h
    obtain rfl := Option.some.inj h
    exact hopen answer rfl
  rw [List.getElem?_set_ne hne]
  exact h

theorem ConfirmStep.open {phase : ImportPhase} (h : ConfirmStep c p s i d q phase s') :
    ∀ a, phase ≠ .answered a := by
  intro a ha
  subst ha
  cases h with
  | refused hrefused => cases hrefused

theorem ConfirmStep.later {phase : ImportPhase} (h : ConfirmStep c p s i d q phase s')
    (himporter : s.importers[i]? = some ⟨q, phase⟩) : ImportLater s s' := by
  have hopen := h.open
  cases h with
  | refused | existing =>
      exact ⟨.refl _, List.prefix_rfl, .refl _, List.prefix_rfl, answers_set himporter hopen⟩
  | held | stands | previewed | unimported =>
      exact ⟨.refl _, List.prefix_rfl, .refl _, List.prefix_rfl, answers_set himporter hopen⟩
  | imported hwritten =>
      refine ⟨.refl _, List.prefix_rfl, hwritten.later, ?_, answers_set himporter hopen⟩
      show s.imports <+: _
      rw [hwritten.imports_eq]
      exact List.prefix_append _ _

theorem ImportStep.later (hsound : s.sync.db.Sound p) (h : ImportStep c p s l s') :
    ImportLater s s' := by
  cases h with
  | project hsync hlibrary =>
      exact ⟨((step_moves hsync).tables hsound).1, ((step_moves hsync).written hsound.numbered).1,
        (Knowledge.inbox_step hlibrary).later, List.prefix_rfl, id⟩
  | refreshed hsync =>
      exact ⟨((step_moves hsync).tables hsound).1, ((step_moves hsync).written hsound.numbered).1,
        .refl _, List.prefix_rfl, id⟩
  | library hlibrary =>
      exact ⟨.refl _, List.prefix_rfl, (Knowledge.inbox_step hlibrary).later, List.prefix_rfl, id⟩
  | arrived =>
      refine ⟨.refl _, List.prefix_rfl, .refl _, List.prefix_rfl, fun h => ?_⟩
      rw [List.getElem?_append_left (List.getElem?_eq_some_iff.mp h).1]
      exact h
  | advanced himporter hconfirm => exact hconfirm.later himporter
  | stopped himporter hopen =>
      exact ⟨.refl _, List.prefix_rfl, .refl _, List.prefix_rfl, answers_set himporter hopen⟩

/-! ## What imports and answers say -/

/-- The fingerprint of the preview of an item that says this and has this address. -/
def printOf (p : Platform) (item : ItemRevision) (said : ExternalContent) (url : Option String) :
    String :=
  fingerprint p (previewOf item said url)

/-- The import is of an item, as its preview was, and its document has its source. -/
structure ImportSound (c : Coercions) (p : Platform) (s : ImportState) (x : ExternalItemImport) :
    Prop where
  item : ∃ item ∈ s.sync.db.written, item.id = x.externalItemId ∧ ∃ said,
    content c item = some said ∧ x.confirmationFingerprint = printOf p item said x.canonicalSourceUrl
  document : ∃ document, s.library.db.document? x.sourceDocumentId = some document ∧
    (s.library.db.source? document.sourceId).isSome = true ∧
    Knowledge.Unbound s.library.db document.sourceId

theorem ImportSound.later (hlater : ImportLater s s') (h : ImportSound c p s x) :
    ImportSound c p s' x := by
  obtain ⟨item, hmem, hitem⟩ := h.item
  obtain ⟨document, hdocument, hsource, hunbound⟩ := h.document
  obtain ⟨document', hdocument', hsame⟩ := hlater.library.grows.documents _ document hdocument
  refine ⟨⟨item, hlater.written.subset hmem, hitem⟩, document', hdocument', ?_, ?_⟩
  · obtain ⟨source, hsource⟩ := Option.isSome_iff_exists.mp hsource
    rw [hsame, hlater.library.source hsource]
    rfl
  · rw [hsame]
    exact hlater.library.unbound hsource hunbound

/-- The confirmation agrees with the preview of the item at this address. -/
structure Confirmation.Agrees (c : Coercions) (p : Platform) (q : Confirmation) (item : ItemRevision)
    (said : ExternalContent) (url : Option String) : Prop where
  content_eq : content c item = some said
  confirms : q.confirms
    { previewOf item said url with confirmationFingerprint := printOf p item said url } = true

theorem Confirmation.Agrees.fingerprint {item : ItemRevision} {said : ExternalContent}
    {url : Option String} (h : q.Agrees c p item said url) :
    q.request.confirmationFingerprint = printOf p item said url := by
  have hconfirms := h.confirms
  simp only [Confirmation.confirms, Bool.and_eq_true, beq_iff_eq] at hconfirms
  exact hconfirms.2

/-- It agrees at every address with the same fingerprint. -/
theorem Confirmation.Agrees.of_print {item : ItemRevision} {said : ExternalContent}
    {url url' : Option String} (h : q.Agrees c p item said url)
    (heq : printOf p item said url' = printOf p item said url) : q.Agrees c p item said url' := by
  refine ⟨h.content_eq, ?_⟩
  rw [heq]
  exact h.confirms

/-- The confirmation was accepted with this result. -/
structure Accepted (c : Coercions) (p : Platform) (s : ImportState) (q : Confirmation)
    (r : ImportResult) : Prop where
  known : (s.sync.db.account? q.accountId).isSome = true
  mem : r.provenance ∈ s.imports
  agreed : ∃ item ∈ s.sync.db.written, q.Names item ∧ item.id = r.provenance.externalItemId ∧
    ∃ said, q.Agrees c p item said r.provenance.canonicalSourceUrl ∧
      r.provenance.confirmationFingerprint = printOf p item said r.provenance.canonicalSourceUrl
  document : r.document.id = r.provenance.sourceDocumentId
  filed : ∃ document, s.library.db.document? r.provenance.sourceDocumentId = some document ∧
    document.sourceId = r.source.id
  source : s.library.db.source? r.source.id = some r.source

theorem Accepted.later (hlater : ImportLater s s') (h : Accepted c p s q r) :
    Accepted c p s' q r := by
  obtain ⟨item, hmem, hagreed⟩ := h.agreed
  obtain ⟨document, hdocument, howner⟩ := h.filed
  obtain ⟨document', hdocument', hsame⟩ := hlater.library.grows.documents _ document hdocument
  exact ⟨hlater.known h.known, hlater.imports.subset h.mem,
    ⟨item, hlater.written.subset hmem, hagreed⟩, h.document, ⟨document', hdocument', hsame.trans howner⟩,
    hlater.library.source h.source⟩

/-! ## What a confirmation holds -/

/-- The confirmation has the lock of the row, and the row is as it has read it. -/
structure ImportState.Holds (s : ImportState) (i : Nat) (q : Confirmation) (item : ExternalItem) :
    Prop where
  lock : s.locks item.id = some i
  read : Scoped s.sync.db q item

/-- The preview was built of the item, and is what was confirmed. -/
structure Previewed (c : Coercions) (p : Platform) (q : Confirmation) (item : ItemRevision)
    (said : ExternalContent) (v : ExternalItemImportPreview) : Prop where
  built : v = { previewOf item said v.canonicalSourceUrl with
    confirmationFingerprint := printOf p item said v.canonicalSourceUrl }
  agrees : q.Agrees c p item said v.canonicalSourceUrl

theorem Previewed.print {item : ItemRevision} {said : ExternalContent}
    {v : ExternalItemImportPreview} (h : Previewed c p q item said v) :
    v.confirmationFingerprint = printOf p item said v.canonicalSourceUrl :=
  congrArg (·.confirmationFingerprint) h.built

def ImportState.PhaseSound (c : Coercions) (p : Platform) (s : ImportState) (i : Nat)
    (q : Confirmation) : ImportPhase → Prop
  | .arrived | .answered (.error _) => True
  | .holding item => s.Holds i q item
  | .standing item => s.Holds i q item ∧ s.sync.db.isLatest item = true
  | .previewed item said v =>
      s.Holds i q item ∧ s.sync.db.isLatest item = true ∧
        Previewed c p q item.toItemRevision said v
  | .unimported item said v =>
      s.Holds i q item ∧ s.sync.db.isLatest item = true ∧
        Previewed c p q item.toItemRevision said v ∧ ∀ x ∈ s.imports, x.externalItemId ≠ item.id
  | .answered (.ok r) => Accepted c p s q r

/-- What is held stays held, in its place and without an import. -/
def KeepsHeld (s s' : ImportState) (i : Nat) : Prop :=
  ∀ item ∈ s.sync.db.items, s.locks item.id = some i →
    s'.locks item.id = some i ∧ item ∈ s'.sync.db.items ∧
      (s.sync.db.isLatest item = true → s'.sync.db.isLatest item = true) ∧
      ((∀ x ∈ s.imports, x.externalItemId ≠ item.id) → ∀ x ∈ s'.imports, x.externalItemId ≠ item.id)

theorem ImportState.Holds.later {item : ExternalItem} (hlater : ImportLater s s')
    (hkeeps : KeepsHeld s s' i) (h : s.Holds i q item) : s'.Holds i q item := by
  obtain ⟨hlock, hmem, -, -⟩ := hkeeps item h.read.mem h.lock
  exact ⟨hlock, hlater.known h.read.known, hmem, h.read.names, h.read.current⟩

theorem phase_later {phase : ImportPhase} (hlater : ImportLater s s') (hkeeps : KeepsHeld s s' i)
    (h : s.PhaseSound c p i q phase) : s'.PhaseSound c p i q phase := by
  have hstands : ∀ {item : ExternalItem}, s.Holds i q item → s.sync.db.isLatest item = true →
      s'.sync.db.isLatest item = true :=
    fun hholds hlatest => (hkeeps _ hholds.read.mem hholds.lock).2.2.1 hlatest
  cases phase with
  | arrived => trivial
  | holding item => exact ImportState.Holds.later hlater hkeeps h
  | standing item => exact ⟨.later hlater hkeeps h.1, hstands h.1 h.2⟩
  | previewed item said v => exact ⟨.later hlater hkeeps h.1, hstands h.1 h.2.1, h.2.2⟩
  | unimported item said v =>
      exact ⟨.later hlater hkeeps h.1, hstands h.1 h.2.1, h.2.2.1,
        (hkeeps item h.1.read.mem h.1.lock).2.2.2 h.2.2.2⟩
  | answered answer =>
      cases answer with
      | error e => trivial
      | ok r => exact Accepted.later hlater h

/-! ## The invariant -/

structure ImportsSound (c : Coercions) (p : Platform) (s : ImportState) : Prop where
  tables : s.sync.db.Sound p
  captures : s.library.CapturesSound
  items : Keyed (·.externalItemId) s.imports
  documents : Keyed (·.sourceDocumentId) s.imports
  sound : ∀ x ∈ s.imports, ImportSound c p s x
  phases : ∀ i q phase, s.importers[i]? = some ⟨q, phase⟩ → s.PhaseSound c p i q phase

/-- The row of a revision that a confirmation holds is the one that was written. -/
theorem Scoped.written {item : ExternalItem} (h : Scoped s.sync.db q item) :
    item.toItemRevision ∈ s.sync.db.written := List.mem_map_of_mem h.mem

theorem ImportsSound.revision_eq (h : ImportsSound c p s) {a b : ItemRevision}
    (ha : a ∈ s.sync.db.written) (hb : b ∈ s.sync.db.written) (hid : a.id = b.id) : a = b :=
  h.tables.numbered.ids.inj ha hb hid

/-! ## Steps -/

theorem keepsHeld_of_eq (hlocks : s'.locks = s.locks) (hitems : s'.sync.db.items = s.sync.db.items)
    (himports : s'.imports = s.imports) : KeepsHeld s s' i := by
  intro item hmem hlock
  rw [hlocks, himports]
  refine ⟨hlock, hitems ▸ hmem, fun hlatest => ?_, id⟩
  unfold Store.isLatest
  rw [hitems]
  exact hlatest

/-- What one confirmation does leaves what another one holds. -/
theorem ConfirmStep.keepsHeld {phase : ImportPhase} (hne : j ≠ i)
    (hphase : s.PhaseSound c p i q phase) (h : ConfirmStep c p s i d q phase s') :
    KeepsHeld s s' j := by
  cases h with
  | refused | existing =>
      intro item hmem hlock
      exact ⟨Locks.release_keeps hne hlock, hmem, id, id⟩
  | held _ hheld =>
      intro item hmem hlock
      exact ⟨Locks.acquire_keeps hheld hlock, hmem, id, id⟩
  | stands | previewed | unimported => exact keepsHeld_of_eq rfl rfl rfl
  | imported hwritten =>
      intro item' hmem hlock
      refine ⟨Locks.release_keeps hne hlock, hmem, id, fun hnone x hx => ?_⟩
      have hx : x ∈ _ := hx
      rw [hwritten.imports_eq] at hx
      rcases List.mem_append.mp hx with hx | hx
      · exact hnone x hx
      · obtain rfl := List.mem_singleton.mp hx
        rw [hwritten.item]
        intro hsame
        have hown := hphase.1.lock
        rw [hsame, hlock] at hown
        exact hne (Option.some.inj hown)

theorem step_addProject {sync sync' : SyncState} {id : Uuid}
    (h : Sync.step p sync (.edit (.addProject id)) = some sync') :
    sync'.db.items = sync.db.items := by
  rw [Sync.step] at h
  dsimp only [applyEdit] at h
  obtain rfl := Option.some.inj h
  rfl

/-- What a step leaves to a confirmation that does not move in it. -/
theorem ImportStep.keepsHeld (h : ImportStep c p s l s') (hs : ImportsSound c p s)
    (hj : ∀ d, l ≠ .advance j d) (hstop : l ≠ .stop j) : KeepsHeld s s' j := by
  cases h with
  | project hsync => exact keepsHeld_of_eq rfl (step_addProject hsync) rfl
  | refreshed hsync hfree =>
      intro item hmem hlock
      have hkept := refresh_holds hs.tables hsync hfree hmem hlock
      exact ⟨hlock, hkept.1, hkept.2, id⟩
  | library | arrived => exact keepsHeld_of_eq rfl rfl rfl
  | @advanced i d importer s' himporter hconfirm =>
      refine hconfirm.keepsHeld (fun heq => hj d (heq ▸ rfl)) (hs.phases i _ _ himporter)
  | @stopped i importer himporter =>
      intro item hmem hlock
      exact ⟨Locks.release_keeps (fun heq => hstop (heq ▸ rfl)) hlock, hmem, id, id⟩

/-- An import that was found is the result of the confirmation. -/
theorem accepted_existing {item : ExternalItem} {said : ExternalContent}
    {v : ExternalItemImportPreview} (hs : ImportsSound c p s) (hread : Scoped s.sync.db q item)
    (hv : Previewed c p q item.toItemRevision said v)
    (hrow : lookup (·.externalItemId) item.id s.imports = some x)
    (hsame : x.confirmationFingerprint = v.confirmationFingerprint)
    (hresult : existingResult s.library.db x q.scope = .ok r) : Accepted c p s q r := by
  obtain ⟨hmem, hitem⟩ := lookup_mem hrow
  obtain ⟨hprovenance, -, hdocument, hsource⟩ := existingResult_spec _ hresult
  obtain ⟨written, hwritten, hid, said', hsaid, hprint⟩ := (hs.sound x hmem).item
  obtain rfl := hs.revision_eq hwritten hread.written (hid.trans hitem)
  obtain rfl : said' = said := Option.some.inj (hsaid.symm.trans hv.agrees.content_eq)
  obtain ⟨hsourcemem, hsourceid⟩ := lookup_mem hsource
  subst hprovenance
  refine ⟨hread.known, hmem, ⟨_, hwritten, hread.names, hid, said', ?_, hprint⟩,
    (lookup_mem hdocument).2, ⟨_, hdocument, hsourceid.symm⟩, hsourceid ▸ hsource⟩
  exact hv.agrees.of_print (by rw [← hprint, hsame, hv.print])

/-- An import that was written is the result of the confirmation. -/
theorem accepted_imported {item : ExternalItem} {said : ExternalContent}
    {v : ExternalItemImportPreview} {db : Knowledge.Store} {imports : List ExternalItemImport}
    (hread : Scoped s.sync.db q item) (hv : Previewed c p q item.toItemRevision said v)
    (hwritten : ImportWritten p s.library.db s.imports item.toItemRevision v r db imports)
    (hdb : s'.library.db = db) (himports : s'.imports = imports) (hsync : s'.sync = s.sync) :
    Accepted c p s' q r := by
  obtain ⟨chunks, rfl⟩ := hwritten.library
  have hdocument : s'.library.db.document? r.provenance.sourceDocumentId = some r.document := by
    rw [hdb, hwritten.document]
    exact lookup_append_self (lookup_eq_none.mp hwritten.unfiled)
  have hsource : s'.library.db.source? r.source.id = some r.source := by
    rw [hdb]
    exact lookup_append_self (lookup_eq_none.mp hwritten.fresh)
  refine ⟨hsync ▸ hread.known, ?_, ⟨_, hsync ▸ hread.written, hread.names, hwritten.item.symm, said,
    ?_, ?_⟩, hwritten.document.symm, ⟨_, hdocument, hwritten.owner⟩, hsource⟩
  · rw [himports, hwritten.imports_eq]
    exact List.mem_append_right _ (List.mem_singleton.mpr rfl)
  · rw [hwritten.url]
    exact hv.agrees
  · rw [hwritten.fingerprint, hwritten.url]
    exact hv.print

/-- Where a confirmation comes to, it has what is said of that phase. -/
theorem ConfirmStep.phase {phase : ImportPhase} (hs : ImportsSound c p s)
    (hphase : s.PhaseSound c p i q phase) (h : ConfirmStep c p s i d q phase s') :
    ∃ phase', s'.importers = s.importers.set i ⟨q, phase'⟩ ∧ s'.PhaseSound c p i q phase' := by
  cases h with
  | refused => exact ⟨_, rfl, trivial⟩
  | held hitem hheld =>
      have hread := scopedItem_spec _ hitem
      refine ⟨_, rfl, ?_, hread⟩
      rw [hread.names.id]
      exact Locks.acquire_holds hheld (List.mem_singleton.mpr rfl)
  | stands hlatest =>
      have hholds : s.Holds i q _ := hphase
      exact ⟨_, rfl, ⟨hholds.lock, hholds.read⟩, (requireLatest_iff hholds.read.mem).mp hlatest⟩
  | previewed hcontent hvalues hv hconfirms =>
      obtain ⟨hholds, hlatest⟩ := hphase
      subst hvalues hv
      exact ⟨_, rfl, ⟨hholds.lock, hholds.read⟩, hlatest, rfl, hcontent, hconfirms⟩
  | unimported hnone =>
      obtain ⟨hholds, hlatest, hv⟩ := hphase
      refine ⟨_, rfl, ⟨hholds.lock, hholds.read⟩, hlatest, hv, fun x hx hsame => ?_⟩
      exact lookup_eq_none.mp hnone (List.mem_map.mpr ⟨x, hx, hsame⟩)
  | existing hrow hsame hresult =>
      obtain ⟨hholds, hlatest, hv⟩ := hphase
      have haccepted := accepted_existing hs hholds.read hv hrow hsame hresult
      exact ⟨_, rfl, haccepted.known, haccepted.mem, haccepted.agreed, haccepted.document,
        haccepted.filed, haccepted.source⟩
  | imported hwritten =>
      obtain ⟨hholds, hlatest, hv, -⟩ := hphase
      exact ⟨_, rfl, accepted_imported hholds.read hv hwritten rfl rfl rfl⟩

/-- An import that a confirmation writes is of the item it holds. -/
theorem importSound_written {item : ExternalItem} {said : ExternalContent}
    {v : ExternalItemImportPreview} {db : Knowledge.Store} {imports : List ExternalItemImport}
    (hs : ImportsSound c p s) (hread : Scoped s.sync.db q item)
    (hv : Previewed c p q item.toItemRevision said v)
    (hwritten : ImportWritten p s.library.db s.imports item.toItemRevision v r db imports)
    (hdb : s'.library.db = db) (hsync : s'.sync = s.sync) : ImportSound c p s' r.provenance := by
  obtain ⟨chunks, rfl⟩ := hwritten.library
  refine ⟨⟨_, hsync ▸ hread.written, hwritten.item.symm, said, hv.agrees.content_eq, ?_⟩,
    r.document, ?_, ?_, ?_⟩
  · rw [hwritten.fingerprint, hwritten.url]
    exact hv.print
  · rw [hdb, hwritten.document]
    exact lookup_append_self (lookup_eq_none.mp hwritten.unfiled)
  · have hsource : s'.library.db.source? r.source.id = some r.source := by
      rw [hdb]
      exact lookup_append_self (lookup_eq_none.mp hwritten.fresh)
    rw [hwritten.owner, hsource]
    rfl
  · rw [hdb, hwritten.owner]
    intro capture hcapture hnames
    have hsome := hs.captures.rows.bound capture hcapture _ hnames
    rw [hwritten.fresh] at hsome
    cases hsome

/-- A confirmation keeps the imports and the library sound. -/
theorem ConfirmStep.rows {phase : ImportPhase} (hs : ImportsSound c p s)
    (himporter : s.importers[i]? = some ⟨q, phase⟩) (h : ConfirmStep c p s i d q phase s') :
    s'.sync = s.sync ∧ s'.library.CapturesSound ∧ Keyed (·.externalItemId) s'.imports ∧
      Keyed (·.sourceDocumentId) s'.imports ∧ ∀ x ∈ s'.imports, ImportSound c p s' x := by
  have hlater := h.later himporter
  have hphase := hs.phases i _ _ himporter
  cases h with
  | refused | held | stands | previewed | unimported | existing =>
      exact ⟨rfl, hs.captures, hs.items, hs.documents, fun x hx => (hs.sound x hx).later hlater⟩
  | @imported item said v r db imports hwritten =>
      obtain ⟨hholds, -, hv, -⟩ := hphase
      obtain ⟨chunks, hdb⟩ := hwritten.library
      have hcaptures : db.captures = s.library.db.captures := by rw [hdb]
      obtain ⟨himports, hfree⟩ := And.intro hwritten.imports_eq hwritten.free
      subst himports
      refine ⟨rfl, Knowledge.capturesSound_aside hs.captures hcaptures hwritten.later.grows
        fun j _ _ hj => .inl hj, hs.items.append fun hmem => ?_, hs.documents.append fun hmem => ?_,
        fun x hx => ?_⟩
      · obtain ⟨x, hx, hsame⟩ := List.mem_map.mp hmem
        exact (hfree x hx).1 hsame
      · obtain ⟨x, hx, hsame⟩ := List.mem_map.mp hmem
        exact (hfree x hx).2 hsame
      · rcases List.mem_append.mp hx with hx | hx
        · exact (hs.sound x hx).later hlater
        · obtain rfl := List.mem_singleton.mp hx
          exact importSound_written hs hholds.read hv hwritten rfl rfl

theorem importsSound_step (hs : ImportsSound c p s) (h : ImportStep c p s l s') :
    ImportsSound c p s' := by
  have hlater := h.later hs.tables
  have hkeeps := fun j => h.keepsHeld (j := j) hs
  have hsound : ∀ x ∈ s.imports, ImportSound c p s' x := fun x hx => (hs.sound x hx).later hlater
  -- one that does not move keeps its phase, and what is said of it
  have hrest : ∀ j q phase, (∀ d, l ≠ .advance j d) → l ≠ .stop j →
      s.importers[j]? = some ⟨q, phase⟩ → s'.PhaseSound c p j q phase :=
    fun j q phase hj hstop himporter =>
      phase_later hlater (hkeeps j hj hstop) (hs.phases j q phase himporter)
  cases h with
  | project hsync hlibrary =>
      exact ⟨((step_moves hsync).tables hs.tables).2, Knowledge.capturesSound_step hlibrary hs.captures,
        hs.items, hs.documents, hsound, fun j q phase => hrest j q phase nofun nofun⟩
  | refreshed hsync =>
      exact ⟨((step_moves hsync).tables hs.tables).2, hs.captures, hs.items, hs.documents, hsound,
        fun j q phase => hrest j q phase nofun nofun⟩
  | library hlibrary =>
      exact ⟨hs.tables, Knowledge.capturesSound_step hlibrary hs.captures, hs.items, hs.documents,
        hsound, fun j q phase => hrest j q phase nofun nofun⟩
  | arrived =>
      refine ⟨hs.tables, hs.captures, hs.items, hs.documents, hsound, fun j q phase hj => ?_⟩
      rw [List.getElem?_append] at hj
      split at hj
      · exact hrest j q phase nofun nofun hj
      · rw [List.getElem?_singleton] at hj
        split at hj
        · cases hj
          trivial
        · cases hj
  | @advanced i d importer s' himporter hconfirm =>
      obtain ⟨hsync, hcaptures, hitems, hdocuments, himports⟩ := hconfirm.rows hs himporter
      obtain ⟨phase', hnew, hown⟩ := hconfirm.phase hs (hs.phases i _ _ himporter)
      refine ⟨hsync ▸ hs.tables, hcaptures, hitems, hdocuments, himports, fun j q phase hj => ?_⟩
      rw [hnew] at hj
      by_cases hij : i = j
      · subst hij
        rw [List.getElem?_set_self (List.getElem?_eq_some_iff.mp himporter).1] at hj
        cases hj
        exact hown
      · rw [List.getElem?_set_ne hij] at hj
        exact hrest j q phase (fun d heq => hij (ImportLabel.advance.inj heq).1) nofun hj
  | @stopped i importer himporter =>
      refine ⟨hs.tables, hs.captures, hs.items, hs.documents, hsound, fun j q phase hj => ?_⟩
      have hj : (s.importers.set i _)[j]? = some _ := hj
      by_cases hij : i = j
      · subst hij
        rw [List.getElem?_set_self (List.getElem?_eq_some_iff.mp himporter).1] at hj
        cases hj
        trivial
      · rw [List.getElem?_set_ne hij] at hj
        exact hrest j q phase nofun (fun heq => hij (ImportLabel.stop.inj heq)) hj

theorem importsSound_reachable (h : (importing c p).Reachable s) : ImportsSound c p s := by
  refine h.invariant ?_ fun s l s' _ _ hs hstep => importsSound_step hs (import_step hstep)
  rintro s rfl
  have hlibrary : (Knowledge.library (textHash p)).Reachable {} := .start rfl
  exact ⟨empty_tables, Knowledge.capturesSound_reachable hlibrary, List.nodup_nil, List.nodup_nil,
    fun x hx => absurd hx List.not_mem_nil, fun i q phase h => nomatch h⟩

theorem importLater_reachable (hs : ImportsSound c p s)
    (h : ((importing c p).startingAt s).Reachable s') : ImportLater s s' :=
  Machine.later (R := ImportLater) (I := ImportsSound c p) ImportLater.refl ImportLater.trans
    (fun _ _ _ ha hstep => ⟨(import_step hstep).later ha.tables,
      importsSound_step ha (import_step hstep)⟩) hs h

/-! ## What was previewed -/

/-- The preview is one that could be read before. -/
def Previewable (c : Coercions) (p : Platform) (s : ImportState) (q : Confirmation)
    (v : ExternalItemImportPreview) : Prop :=
  ∃ before, (importing c p).Reachable before ∧ ((importing c p).startingAt before).Reachable s ∧
    preview c p before.sync.db q.accountId q.scope q.rowId = .ok v

/-- The preview that a confirmation was compared with. -/
def ImportPhase.preview? : ImportPhase → Option ExternalItemImportPreview
  | .previewed _ _ v | .unimported _ _ v => some v
  | _ => none

theorem Previewable.step {v : ExternalItemImportPreview} (h : Previewable c p s q v)
    (hnext : (importing c p).next s l = some s') : Previewable c p s' q v := by
  obtain ⟨before, hbefore, hlater, hpreview⟩ := h
  exact ⟨before, hbefore, .step hlater trivial hnext, hpreview⟩

theorem preview_ok {db : Store} {item : ExternalItem} {said : ExternalContent}
    {v : ExternalItemImportPreview} (hdb : Numbered db.written) (hread : Scoped db q item)
    (hlatest : db.isLatest item = true) (hcontent : content c item.toItemRevision = some said)
    (hv : v = previewOf item.toItemRevision said (sourceUrl db item.toItemRevision said)) :
    preview c p db q.accountId q.scope q.rowId =
      .ok { v with confirmationFingerprint := fingerprint p v } := by
  have hrequired := (requireLatest_iff hread.mem).mpr hlatest
  have hvalues : previewValues c db item.toItemRevision = .ok (said, v) := by
    rw [previewValues, hcontent, hv]
  rw [preview, scopedItem_ok hdb hread]
  show (do requireLatest db item.toItemRevision
           let x ← previewValues c db item.toItemRevision
           pure { x.2 with confirmationFingerprint := fingerprint p x.2 }) = _
  rw [hrequired, hvalues]
  rfl

/-- A confirmation that goes on from its preview was compared with one that could be read. -/
theorem ConfirmStep.seen {phase phase' : ImportPhase} {v : ExternalItemImportPreview}
    (hreach : (importing c p).Reachable s) (hs : ImportsSound c p s)
    (himporter : s.importers[i]? = some ⟨q, phase⟩)
    (hold : ∀ v, phase.preview? = some v → Previewable c p s q v) (h : ConfirmStep c p s i d q phase s')
    (hnext : (importing c p).next s l = some s')
    (hnew : s'.importers = s.importers.set i ⟨q, phase'⟩) (hv : phase'.preview? = some v) :
    Previewable c p s' q v := by
  have hphase := hs.phases i _ _ himporter
  have hlt := (List.getElem?_eq_some_iff.mp himporter).1
  have hsame : ∀ {turned : ImportPhase}, s'.importers = s.importers.set i ⟨q, turned⟩ →
      phase' = turned := by
    intro turned hturned
    rw [hnew] at hturned
    have hat := congrArg (fun importers => importers[i]?) hturned
    simp only [List.getElem?_set_self hlt, Option.some.injEq, Importer.mk.injEq, true_and] at hat
    exact hat
  cases h with
  | refused | existing | imported =>
      obtain rfl := hsame rfl
      cases hv
  | held | stands =>
      obtain rfl := hsame rfl
      cases hv
  | previewed hcontent hvalues hbuilt =>
      obtain rfl := hsame rfl
      obtain rfl := Option.some.inj hv
      obtain ⟨hholds, hlatest⟩ := hphase
      refine ⟨s, hreach, .single trivial hnext, ?_⟩
      rw [hbuilt]
      exact preview_ok hs.tables.numbered hholds.read hlatest hcontent hvalues
  | unimported =>
      obtain rfl := hsame rfl
      exact (hold v hv).step hnext

/-- Every preview that a confirmation goes on from could be read. -/
def AllPreviewable (c : Coercions) (p : Platform) (s : ImportState) : Prop :=
  ∀ (i : Nat) (q : Confirmation) (phase : ImportPhase) (v : ExternalItemImportPreview),
    s.importers[i]? = some ⟨q, phase⟩ → phase.preview? = some v → Previewable c p s q v

theorem previewable_reachable (h : (importing c p).Reachable s) : AllPreviewable c p s := by
  refine h.invariant ?_ ?_
  · rintro s rfl i q phase v h
    cases h
  intro s l s' hreach _ hseen hnext j q phase v hj hv
  have hs := importsSound_reachable hreach
  have hrest : ∀ {q : Confirmation} {phase : ImportPhase}, s.importers[j]? = some ⟨q, phase⟩ →
      phase.preview? = some v → Previewable c p s' q v := fun hj hv => (hseen j _ _ v hj hv).step hnext
  cases import_step hnext with
  | project | refreshed | library => exact hrest hj hv
  | arrived =>
      rw [List.getElem?_append] at hj
      split at hj
      · exact hrest hj hv
      · rw [List.getElem?_singleton] at hj
        split at hj
        · cases hj
          cases hv
        · cases hj
  | @advanced i d importer s' himporter hconfirm =>
      obtain ⟨phase', hnew, -⟩ := hconfirm.phase hs (hs.phases i _ _ himporter)
      by_cases hij : i = j
      · subst hij
        rw [hnew, List.getElem?_set_self (List.getElem?_eq_some_iff.mp himporter).1] at hj
        cases hj
        exact hconfirm.seen hreach hs himporter (fun v hv => hseen i _ _ v himporter hv) hnext hnew hv
      · rw [hnew, List.getElem?_set_ne hij] at hj
        exact hrest hj hv
  | @stopped i importer himporter =>
      have hj : (s.importers.set i _)[j]? = some _ := hj
      by_cases hij : i = j
      · subst hij
        rw [List.getElem?_set_self (List.getElem?_eq_some_iff.mp himporter).1] at hj
        cases hj
        cases hv
      · rw [List.getElem?_set_ne hij] at hj
        exact hrest hj hv

/-! ## The result -/

/-- The row is a current one, and the latest of its identity. -/
def Store.Stands (db : Store) (rowId : Uuid) : Prop :=
  ∃ item ∈ db.items, item.id = rowId ∧ item.state = .current ∧ db.isLatest item = true

/-- The item has another address than this one by now. -/
def Store.Readdressed (c : Coercions) (db : Store) (rowId : Uuid) (url : Option String) : Prop :=
  ∃ item ∈ db.items, item.id = rowId ∧ ∃ said, content c item.toItemRevision = some said ∧
    sourceUrl db item.toItemRevision said ≠ url

/-- How a confirmation comes to be accepted with an import: it names the row as it stands, and
the fingerprint that its preview had. -/
structure AcceptedNow (c : Coercions) (p : Platform) (s : ImportState) (q : Confirmation)
    (x : ExternalItemImport) : Prop where
  item : x.externalItemId = q.rowId
  stands : s.sync.db.Stands q.rowId
  fingerprint : x.confirmationFingerprint = q.request.confirmationFingerprint
  previewed : ∃ v, Previewable c p s q v ∧ v.confirmationFingerprint = x.confirmationFingerprint

/-- What a step of a confirmation does that was accepted with this result before. -/
structure Repeated (c : Coercions) (s s' : ImportState) (j : Nat) (q : Confirmation)
    (r : ImportResult) : Prop where
  sync : s'.sync = s.sync
  library : s'.library = s.library
  imports : s'.imports = s.imports
  answer : ∀ answer, s'.importers[j]? = some ⟨q, .answered answer⟩ →
    (∃ r', answer = .ok r' ∧ r'.provenance = r.provenance ∧ r'.source = r.source ∧
      r'.document.id = r.document.id ∧ r'.created = false) ∨
    answer = .error conflict ∧ (¬ s.sync.db.Stands q.rowId ∨
      s.sync.db.Readdressed c q.rowId r.provenance.canonicalSourceUrl)

/-- A confirmation that is answered is left with that answer. -/
theorem turned_answer {phase : ImportPhase} {answer : Except Knowledge.HttpError ImportResult}
    {importer : Importer} (himporter : s.importers[j]? = some importer)
    (hset : s'.importers = s.importers.set j ⟨q, phase⟩)
    (hanswer : s'.importers[j]? = some ⟨q, .answered answer⟩) : phase = .answered answer := by
  rw [hset, List.getElem?_set_self (List.getElem?_eq_some_iff.mp himporter).1] at hanswer
  cases hanswer
  rfl

theorem ConfirmStep.accepted {phase : ImportPhase} (hreach : (importing c p).Reachable s)
    (himporter : s.importers[i]? = some ⟨q, phase⟩) (h : ConfirmStep c p s i d q phase s')
    (hanswer : s'.importers[i]? = some ⟨q, .answered (.ok r)⟩) : AcceptedNow c p s q r.provenance := by
  have hphase := (importsSound_reachable hreach).phases i _ _ himporter
  have hseen := fun v => previewable_reachable hreach i q phase v himporter
  cases h with
  | refused | held | stands | previewed | unimported => exact nomatch turned_answer himporter rfl hanswer
  | existing hrow hsame hresult =>
      obtain ⟨hholds, hlatest, hv⟩ := hphase
      obtain rfl := Except.ok.inj (ImportPhase.answered.inj (turned_answer himporter rfl hanswer))
      obtain ⟨hprovenance, -⟩ := existingResult_spec _ hresult
      have hid := hholds.read.names.id
      rw [hprovenance]
      refine ⟨(lookup_mem hrow).2.trans hid,
        ⟨_, hholds.read.mem, hid, hholds.read.current, hlatest⟩, ?_, _, hseen _ rfl, hsame.symm⟩
      rw [hsame, hv.print, hv.agrees.fingerprint]
  | imported hwritten =>
      obtain ⟨hholds, hlatest, hv, -⟩ := hphase
      obtain rfl := Except.ok.inj (ImportPhase.answered.inj (turned_answer himporter rfl hanswer))
      have hid := hholds.read.names.id
      refine ⟨hwritten.item.trans hid, ⟨_, hholds.read.mem, hid, hholds.read.current, hlatest⟩, ?_,
        _, hseen _ rfl, hwritten.fingerprint.symm⟩
      rw [hwritten.fingerprint, hv.print, hv.agrees.fingerprint]

/-- An import is added with the answer it is the result of. -/
theorem ConfirmStep.adds {phase : ImportPhase} (himporter : s.importers[i]? = some ⟨q, phase⟩)
    (h : ConfirmStep c p s i d q phase s') (hadded : s'.imports ≠ s.imports) :
    ∃ r, s'.imports = s.imports ++ [r.provenance] ∧
      s'.importers[i]? = some ⟨q, .answered (.ok r)⟩ := by
  cases h with
  | refused | held | stands | previewed | unimported | existing => exact absurd rfl hadded
  | imported hwritten =>
      exact ⟨_, hwritten.imports_eq,
        List.getElem?_set_self (List.getElem?_eq_some_iff.mp himporter).1⟩

/-- Of a confirmation that was accepted the row is known again. -/
theorem Accepted.row (h : Accepted c p s q r) (hs : ImportsSound c p s) {item : ItemRevision}
    (hitem : item ∈ s.sync.db.written) (hnames : q.Names item) :
    item.id = r.provenance.externalItemId ∧ ∃ said,
      q.Agrees c p item said r.provenance.canonicalSourceUrl ∧
        r.provenance.confirmationFingerprint = printOf p item said r.provenance.canonicalSourceUrl := by
  obtain ⟨own, hmem, hown, hid, hsaid⟩ := h.agreed
  obtain rfl := hs.revision_eq hitem hmem (hnames.id.trans hown.id.symm)
  exact ⟨hid, hsaid⟩

/-- The import that is found is the one that the confirmation was accepted with. -/
theorem Accepted.import_eq (h : Accepted c p s q r) (hs : ImportsSound c p s) {item : ExternalItem}
    (hread : Scoped s.sync.db q item) (hrow : lookup (·.externalItemId) item.id s.imports = some x) :
    x = r.provenance := by
  obtain ⟨hmem, hid⟩ := lookup_mem hrow
  exact hs.items.inj hmem h.mem (hid.trans (h.row hs hread.written hread.names).1)

theorem ExternalItem.not_stands {item : ExternalItem} {db : Store} (hdb : Numbered db.written)
    (hmem : item ∈ db.items) (hnot : item.state ≠ .current ∨ db.isLatest item ≠ true) :
    ¬ db.Stands item.id := by
  rintro ⟨other, hother, hid, hcurrent, hlatest⟩
  have hkeyed : Keyed (fun row : ExternalItem => row.id) db.items := by
    have hids := hdb.ids
    rw [Keyed, Store.written, List.map_map] at hids
    exact hids
  obtain rfl := hkeyed.inj hother hmem hid
  exact hnot.elim (fun h => h hcurrent) fun h => h hlatest

/-- Why a confirmation is refused that was accepted before. -/
theorem Refused.repeated {phase : ImportPhase} {e : Knowledge.HttpError}
    (hs : ImportsSound c p s) (haccepted : Accepted c p s q r)
    (hphase : s.PhaseSound c p i q phase) (h : Refused c p s d q phase e) :
    e = conflict ∧ (¬ s.sync.db.Stands q.rowId ∨
      s.sync.db.Readdressed c q.rowId r.provenance.canonicalSourceUrl) := by
  have hnumbered := hs.tables.numbered
  cases h with
  | unscoped herror =>
      obtain ⟨own, hmem, hnames, -⟩ := haccepted.agreed
      obtain ⟨row, hrow, rfl⟩ := List.mem_map.mp hmem
      obtain ⟨he, hstate⟩ := scopedItem_error hnumbered haccepted.known hrow hnames herror
      exact ⟨he, .inl (hnames.id ▸ ExternalItem.not_stands hnumbered hrow (.inl hstate))⟩
  | superseded hlatest =>
      have hread := hphase.read
      refine ⟨rfl, .inl (hread.names.id ▸ ExternalItem.not_stands hnumbered hread.mem (.inr ?_))⟩
      intro hstands
      rw [(requireLatest_iff hread.mem).mpr hstands] at hlatest
      cases hlatest
  | unreadable hnone =>
      have hread := hphase.1.read
      obtain ⟨-, said, hagrees, -⟩ := haccepted.row hs hread.written hread.names
      rw [hagrees.content_eq] at hnone
      cases hnone
  | differs hcontent hv hdiffers =>
      have hread := hphase.1.read
      obtain ⟨-, said, hagrees, -⟩ := haccepted.row hs hread.written hread.names
      obtain rfl := Option.some.inj (hcontent.symm.trans hagrees.content_eq)
      refine ⟨rfl, .inr ⟨_, hread.mem, hread.names.id, _, hcontent, fun hurl => ?_⟩⟩
      subst hv
      rw [hurl] at hdiffers
      exact Bool.eq_false_iff.mp hdiffers hagrees.confirms
  | imported hrow hdiffers =>
      obtain ⟨hholds, -, hv⟩ := hphase
      obtain ⟨-, said, hagrees, hprint⟩ := haccepted.row hs hholds.read.written hholds.read.names
      obtain rfl := haccepted.import_eq hs hholds.read hrow
      refine absurd ?_ hdiffers
      rw [hprint, ← hagrees.fingerprint, hv.agrees.fingerprint, hv.print]
  | lost hrow herror =>
      obtain ⟨document, hdocument, hsource, hunbound⟩ :=
        (hs.sound _ (lookup_mem hrow).1).document
      obtain ⟨found, hfound⟩ := existingResult_ok hdocument hsource hunbound
      rw [hfound] at herror
      cases herror
  | unstored =>
      obtain ⟨hholds, -, -, hnone⟩ := hphase
      have hid := (haccepted.row hs hholds.read.written hholds.read.names).1
      exact absurd hid.symm (hnone _ haccepted.mem)

theorem ConfirmStep.repeated {phase : ImportPhase} (hs : ImportsSound c p s)
    (himporter : s.importers[j]? = some ⟨q, phase⟩) (haccepted : Accepted c p s q r)
    (h : ConfirmStep c p s j d q phase s') : Repeated c s s' j q r := by
  have hphase := hs.phases j _ _ himporter
  cases h with
  | refused hrefused =>
      refine ⟨rfl, rfl, rfl, fun answer hanswer => .inr ?_⟩
      obtain rfl := ImportPhase.answered.inj (turned_answer himporter rfl hanswer)
      obtain ⟨rfl, hwhy⟩ := hrefused.repeated hs haccepted hphase
      exact ⟨rfl, hwhy⟩
  | held | stands | previewed | unimported =>
      exact ⟨rfl, rfl, rfl, fun answer hanswer => nomatch turned_answer himporter rfl hanswer⟩
  | existing hrow _ hresult =>
      refine ⟨rfl, rfl, rfl, fun answer hanswer => .inl ?_⟩
      obtain rfl := ImportPhase.answered.inj (turned_answer himporter rfl hanswer)
      obtain rfl := haccepted.import_eq hs hphase.1.read hrow
      obtain ⟨hprovenance, hcreated, hdocument, hsource⟩ := existingResult_spec _ hresult
      obtain ⟨document, hfiled, howner⟩ := haccepted.filed
      rw [hdocument] at hfiled
      obtain rfl := Option.some.inj hfiled
      rw [howner, haccepted.source] at hsource
      exact ⟨_, rfl, hprovenance, (Option.some.inj hsource).symm,
        (lookup_mem hdocument).2.trans haccepted.document.symm, hcreated⟩
  | imported hwritten =>
      obtain ⟨hholds, -, -, hnone⟩ := hphase
      have hid := (haccepted.row hs hholds.read.written hholds.read.names).1
      exact absurd hid.symm (hnone _ haccepted.mem)

/-- However refreshes, confirmations and the requests of the library interleave, an item has
one import at most and a document is that of one. A confirmation is accepted only while it
names the latest row of its identity as a current one, with the fingerprint its preview had,
and an import is added only as the result of one. A confirmation that was accepted writes
nothing when it is made again, and is answered with the same import, unless the item no
longer stands or has another address. -/
theorem import_once (h : (importing c p).Reachable s) :
    Keyed (·.externalItemId) s.imports ∧ Keyed (·.sourceDocumentId) s.imports ∧
    (∀ (i : Nat) (d : Draw) (q : Confirmation) (phase : ImportPhase) (r : ImportResult) s',
      s.importers[i]? = some ⟨q, phase⟩ → (importing c p).next s (.advance i d) = some s' →
      s'.importers[i]? = some ⟨q, .answered (.ok r)⟩ → AcceptedNow c p s q r.provenance) ∧
    (∀ l s', (importing c p).next s l = some s' → s'.imports ≠ s.imports →
      ∃ (i : Nat) (d : Draw) (q : Confirmation) (r : ImportResult), l = .advance i d ∧
        s'.imports = s.imports ++ [r.provenance] ∧
        s'.importers[i]? = some ⟨q, .answered (.ok r)⟩) ∧
    ∀ (i : Nat) (q : Confirmation) (r : ImportResult),
      s.importers[i]? = some ⟨q, .answered (.ok r)⟩ →
      ∀ s', ((importing c p).startingAt s).Reachable s' →
        ∀ (j : Nat) (d : Draw) (phase : ImportPhase) (s'' : ImportState),
          s'.importers[j]? = some ⟨q, phase⟩ →
          (importing c p).next s' (.advance j d) = some s'' → Repeated c s' s'' j q r := by
  have hs := importsSound_reachable h
  refine ⟨hs.items, hs.documents, ?_, fun l s' hnext hadded => ?_, ?_⟩
  · intro i d q phase r s' hi hnext hanswer
    cases import_step hnext with
    | advanced himporter hconfirm =>
        rw [hi] at himporter
        obtain rfl := Option.some.inj himporter
        exact hconfirm.accepted h hi hanswer
  · cases import_step hnext with
    | project | refreshed | library | arrived | stopped => exact absurd rfl hadded
    | advanced himporter hconfirm =>
        obtain ⟨r, himports, hanswer⟩ := hconfirm.adds himporter hadded
        exact ⟨_, _, _, r, rfl, himports, hanswer⟩
  · intro i q r hanswer s' hlater j d phase s'' hj hnext
    have haccepted : Accepted c p s q r := hs.phases i _ _ hanswer
    have haccepted' := haccepted.later (importLater_reachable hs hlater)
    have hs' : ImportsSound c p s' := importsSound_reachable (h.append hlater)
    cases import_step hnext with
    | advanced himporter hconfirm =>
        rw [hj] at himporter
        obtain rfl := Option.some.inj himporter
        exact hconfirm.repeated hs' hj haccepted'

end Connectors

end SecondBrain
