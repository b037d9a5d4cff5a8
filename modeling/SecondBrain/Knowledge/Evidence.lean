import SecondBrain.Knowledge.Captures
import SecondBrain.Knowledge.Pages
import SecondBrain.Knowledge.Writes

/-!
# Evidence and the stored text

A text comes in as JSON, as a file, from a capture or from an external item, and on each
of these ways its line ends are normalized before it is cut. So a chunk is a slice of the
stored text and has no carriage return left, what is asked of a provider is the chunk as
it is stored, and a place in it added to where it starts is the same place in the text.
-/

namespace SecondBrain

open Lib

namespace Knowledge

open Calendar (strip)

variable (sha256 : Sha256)

/-! ## Ways in -/

/-- `SourceTextIngest.validate_filename`. Nothing stands for a refusal. -/
def ingestFilename (filename : Option String) : Option (Option String) :=
  match filename.map strip with
  | none | some "" => some none
  | some name =>
      if 255 < name.length ∨ name = "." ∨ name = ".." ∨
          name.toList.any (fun c => c = '/' ∨ c = '\\' ∨ c = Char.ofNat 0) then none
      else some (some name)

/-- The document of a text, as `upsert_text_document` has it. -/
def textRequest (sourceId : Uuid) (text : String) (filename : Option String)
    (chunks : List TextChunk) : IngestRequest :=
  { sourceId := sourceId
    normalizedText := text
    mediaType := "text/plain"
    originalFilename := filename
    byteSize := text.utf8ByteSize
    chunks := chunks }

/-- `SourceTextIngest` and `ingest_source_text`, up to the store. -/
def ingestSourceText (sourceId : Uuid) (value : String) (filename : Option String)
    (size overlap : Nat) : Option IngestRequest :=
  if strip (normalizePlainText value) = "" ∨
      maxExtractedBytes < (normalizePlainText value).utf8ByteSize ∨
      size < 1000 ∨ 10000 < size ∨ 500 < overlap ∨ size ≤ overlap then none
  else match ingestFilename filename with
  | none => none
  | some filename =>
      match chunkText sha256 (normalizePlainText value) size overlap with
      | .error _ => none
      | .ok chunks => some (textRequest sourceId (normalizePlainText value) filename chunks)

/-- `_extract_txt`. Nothing stands for bytes that are no UTF-8. -/
def extractTxt (decoded : Option String) (filename : String) (byteSize : Nat) :
    Except DocumentFault ExtractedDocument :=
  match decoded with
  | none => .error (.extraction "text decoding failed")
  | some value => do
      checkExtractedSize (normalizePlainText value)
      return {
        text := normalizePlainText value
        mediaType := "text/plain"
        originalFilename := filename
        byteSize := byteSize }

/-- What `ingest_source_file` answers to a file it cannot take. -/
def DocumentFault.answer : DocumentFault → HttpError
  | .tooLarge => ⟨413, "document too large"⟩
  | .unsupportedType => ⟨415, "unsupported document type"⟩
  | .noExtractableText => ⟨422, "document contains no extractable text"⟩
  | .extraction _ => ⟨422, "document extraction failed"⟩

/-- `ingest_source_file`, from the extracted document to the store. -/
def ingestSourceFile (sourceId : Uuid) (extracted : Except DocumentFault ExtractedDocument)
    (size overlap : Nat) : Except HttpError IngestRequest :=
  if size ≤ overlap then .error ⟨422, "invalid chunk settings"⟩
  else match extracted with
  | .error e => .error e.answer
  | .ok document =>
      match chunkText sha256 document.text size overlap with
      | .error message => .error (DocumentFault.extraction message).answer
      | .ok chunks =>
          .ok
            { sourceId := sourceId
              normalizedText := document.text
              mediaType := document.mediaType
              originalFilename := some document.originalFilename
              byteSize := document.byteSize
              chunks :=
                if document.pageRanges.isEmpty then chunks
                else assignPageLocators chunks document.pageRanges }

/-- `RepositoryExternalContent | NumberedExternalContent`. -/
inductive ExternalContent where
  | repository (description : Option String) (isPrivate archived : Bool)
  | numbered (isIssue : Bool) (number : Int) (state : String) (body : String)

def orElse (s fallback : String) : String := if s = "" then fallback else s

/-- `_normalized_text` of an import. -/
def importText (title : String) (content : ExternalContent) : String :=
  let title := orElse (strip title) "Untitled GitHub item"
  normalizePlainText <| match content with
    | .repository description isPrivate archived =>
        title ++ "\n\nRepository description:\n" ++
          orElse (description.getD "") "(no description)" ++ "\n\nPrivate: " ++
          toString isPrivate ++ "\nArchived: " ++ toString archived
    | .numbered isIssue number state body =>
        title ++ "\n\n" ++ (if isIssue then "Issue" else "Pull request") ++ " #" ++
          toString number ++ " (" ++ state ++ ")\n\n" ++ orElse body "(no body)"

/-- The document that `confirm` stores of an external item. -/
def importRequest (sourceId : Uuid) (title : String) (content : ExternalContent) :
    Option IngestRequest :=
  match chunkText sha256 (importText title content) 2000 200 with
  | .error _ => none
  | .ok chunks => some (textRequest sourceId (importText title content) none chunks)

/-- What is handed to the store, on any of the ways. -/
inductive Ingested : IngestRequest → Prop
  | text {sourceId : Uuid} {value : String} {filename : Option String} {size overlap : Nat}
      {q : IngestRequest}
      (h : ingestSourceText sha256 sourceId value filename size overlap = some q) : Ingested q
  | txt {sourceId : Uuid} {decoded : Option String} {filename : String}
      {byteSize size overlap : Nat} {q : IngestRequest}
      (h : ingestSourceFile sha256 sourceId (extractTxt decoded filename byteSize) size overlap =
        .ok q) : Ingested q
  | pdf {sourceId : Uuid} {file : Option PdfFile} {filename : String}
      {byteSize size overlap : Nat} {q : IngestRequest}
      (h : ingestSourceFile sha256 sourceId (extractPdf file filename byteSize) size overlap =
        .ok q) : Ingested q
  | capture {item : CaptureItem} {value : String} {sourceId : Uuid} {chunks : List TextChunk}
      (hcontent : normalizeCaptureContent value = .ok item.content)
      (hchunks : chunkText sha256 item.content 2000 200 = .ok chunks) :
      Ingested (item.ingest sourceId chunks)
  | external {sourceId : Uuid} {title : String} {content : ExternalContent} {q : IngestRequest}
      (h : importRequest sha256 sourceId title content = some q) : Ingested q

/-! ## Line ends -/

variable {sha256} {text : String} {size overlap : Nat} {q : IngestRequest} {db db' : Store}

/-- No line end is left to normalize. -/
def Normal (s : String) : Prop := '\r' ∉ s.toList

theorem joinLineEnds_self {l : List Char} (h : '\r' ∉ l) : joinLineEnds l = l := by
  induction l with
  | nil => rfl
  | cons c l ih =>
      rw [List.mem_cons, not_or] at h
      rw [joinLineEnds, ih h.2]
      intro rest hcr
      exact absurd hcr.symm h.1

theorem normalize_self {s : String} (h : Normal s) : normalizePlainText s = s := by
  unfold normalizePlainText
  have hmap : s.toList.map (fun c => if c = '\r' then '\n' else c) = s.toList := by
    refine (List.map_congr_left fun c hc => ?_).trans (List.map_id _)
    exact if_neg fun heq => h (by rw [← heq]; exact hc)
  rw [joinLineEnds_self h, hmap]
  exact String.ofList_toList

theorem normal_normalize (s : String) : Normal (normalizePlainText s) := by
  unfold Normal normalizePlainText
  rw [String.toList_ofList, List.mem_map]
  rintro ⟨c, -, hc⟩
  split at hc
  · exact absurd hc (by decide)
  · next hne => exact hne hc

theorem normal_joinPages {texts : List String} (h : ∀ t ∈ texts, Normal t) :
    Normal (joinPages texts) := by
  induction texts with
  | nil => exact List.not_mem_nil
  | cons own rest ih =>
      have hown := h own List.mem_cons_self
      have hrest := ih fun t ht => h t (List.mem_cons_of_mem _ ht)
      cases rest with
      | nil => exact hown
      | cons next rest =>
          show '\r' ∉ (own ++ "\n\n" ++ joinPages (next :: rest)).toList
          rw [String.toList_append, String.toList_append, List.mem_append, List.mem_append]
          rintro ((hmem | hmem) | hmem)
          · exact hown hmem
          · exact absurd hmem (by decide)
          · exact hrest hmem

theorem Normal.slice {s : String} (h : Normal s) (start stop : Nat) :
    Normal (slice s start stop) := by
  unfold Normal Knowledge.slice
  rw [String.toList_ofList]
  exact fun hmem => h (List.mem_of_mem_drop (List.mem_of_mem_take hmem))

/-! ## What is stored -/

/-- The chunk is a range of the text. -/
structure RangeOf (text : String) (c : TextChunk) : Prop where
  range : c.charStart < c.charEnd ∧ c.charEnd ≤ text.length
  content : c.content = slice text c.charStart c.charEnd

/-- The text is normal, and the chunks are ranges of it. -/
structure Ready (q : IngestRequest) : Prop where
  normal : Normal q.normalizedText
  ranges : ∀ c ∈ q.chunks, RangeOf q.normalizedText c

theorem ranges_of_chunkText {chunks : List TextChunk}
    (h : chunkText sha256 text size overlap = .ok chunks) : ∀ c ∈ chunks, RangeOf text c := by
  have hsettings : overlap < size := by
    unfold chunkText at h
    split at h
    · cases h
    · omega
  intro c hc
  have hexact := ((chunkText_cuts sha256 text hsettings).2.2 chunks h).exact c hc
  exact ⟨⟨hexact.1, hexact.2.1⟩, hexact.2.2⟩

theorem ranges_of_located {chunks : List TextChunk} {pages : List PageRange}
    (h : ∀ c ∈ chunks, RangeOf text c) : ∀ c ∈ assignPageLocators chunks pages, RangeOf text c := by
  intro c hc
  obtain ⟨chunk, hchunk, rfl⟩ := List.mem_map.mp hc
  exact ⟨(h chunk hchunk).range, (h chunk hchunk).content⟩

theorem ready_file {sourceId : Uuid} {extracted : Except DocumentFault ExtractedDocument}
    (hnormal : Ensures extracted fun document => Normal document.text)
    (h : ingestSourceFile sha256 sourceId extracted size overlap = .ok q) : Ready q := by
  unfold ingestSourceFile at h
  split at h
  · cases h
  split at h
  · cases h
  next document =>
  split at h
  · cases h
  next chunks hchunks =>
  cases h
  refine ⟨hnormal document rfl, ?_⟩
  have hranges := ranges_of_chunkText hchunks
  show ∀ c ∈ ite _ chunks _, _
  split
  · exact hranges
  · exact ranges_of_located hranges

theorem normal_txt {decoded : Option String} {filename : String} {byteSize : Nat} :
    Ensures (extractTxt decoded filename byteSize) fun document => Normal document.text := by
  unfold extractTxt
  split
  · exact .error _
  · exact .bind_any fun _ _ => Ensures.pure_iff.mpr (normal_normalize _)

theorem normal_pdf {file : Option PdfFile} {filename : String} {byteSize : Nat} :
    Ensures (extractPdf file filename byteSize) fun document => Normal document.text := by
  cases file with
  | none => exact .error _
  | some file =>
      refine (page_locators_exact file filename byteSize []).2.2.mono fun document h => ?_
      rw [h.1]
      refine normal_joinPages fun t ht => ?_
      obtain ⟨page, -, rfl⟩ := List.mem_map.mp ht
      exact normal_normalize _

theorem ready_text {sourceId : Uuid} {filename : Option String} {value : String}
    {chunks : List TextChunk}
    (h : chunkText sha256 (normalizePlainText value) size overlap = .ok chunks) :
    Ready (textRequest sourceId (normalizePlainText value) filename chunks) :=
  ⟨normal_normalize _, ranges_of_chunkText h⟩

theorem Ingested.ready (h : Ingested sha256 q) : Ready q := by
  cases h with
  | text h =>
      unfold ingestSourceText at h
      split at h
      · cases h
      split at h
      · cases h
      split at h
      · cases h
      · next hchunks =>
          obtain rfl := Option.some.inj h
          exact ready_text hchunks
  | txt h => exact ready_file normal_txt h
  | pdf h => exact ready_file normal_pdf h
  | @capture item value sourceId chunks hcontent hchunks =>
      unfold normalizeCaptureContent at hcontent
      dsimp only at hcontent
      refine ⟨?_, ranges_of_chunkText hchunks⟩
      show Normal item.content
      split at hcontent
      · cases hcontent
      split at hcontent
      · cases hcontent
      split at hcontent
      · cases hcontent
      split at hcontent
      · cases hcontent
      rw [← Except.ok.inj hcontent]
      exact normal_normalize _
  | external h =>
      unfold importRequest at h
      split at h
      · cases h
      · next hchunks =>
          obtain rfl := Option.some.inj h
          exact ready_text hchunks

/-! ## The store after an ingestion -/

/-- The keys of the documents, and that every chunk has its document. -/
structure Filed (db : Store) : Prop where
  byId : Keyed (·.id) db.documents
  bySource : Keyed (·.sourceId) db.documents
  owned : ∀ c ∈ db.chunks, (db.document? c.documentId).isSome = true

/-- The document of the source has the text of the request, and only its chunks. -/
def Holds (db : Store) (q : IngestRequest) : Prop :=
  ∃ document, db.documentOf q.sourceId = some document ∧
    document.extractedText = some q.normalizedText ∧
    ∀ c ∈ db.chunks, c.documentId = document.id → c.toTextChunk ∈ q.chunks

theorem mem_newChunks {id : Uuid} {ids : Nat → Uuid} {c : SourceChunk}
    (h : c ∈ q.newChunks id ids) : c.toTextChunk ∈ q.chunks := by
  obtain ⟨⟨chunk, n⟩, hmem, rfl⟩ := List.mem_map.mp h
  exact List.fst_mem_of_mem_zipIdx hmem

/-- The chunks that were loaded are those of the document. -/
theorem mem_loaded {sourceId : Uuid} {l : LoadedDocument} (h : db.loaded sourceId = some l) :
    db.documentOf sourceId = some l.document ∧
      ∀ c, c ∈ l.chunks ↔ c ∈ db.chunks ∧ c.documentId = l.document.id := by
  obtain ⟨document, hdocument, rfl⟩ := Option.map_eq_some_iff.mp h
  refine ⟨hdocument, fun c => ?_⟩
  rw [(List.perm_insertionSort _ _).mem_iff, List.mem_filter, beq_iff_eq]

theorem mem_of_identical {l : LoadedDocument} (h : l.chunksIdentical q = true) {c : SourceChunk}
    (hc : c ∈ l.chunks) : c.toTextChunk ∈ q.chunks := by
  rw [← eq_of_beq h]
  exact List.mem_map_of_mem hc

/-- A document that is written anew is found by its source as before. -/
theorem documentOf_put (hdb : Filed db) {old new : SourceDocument}
    (hold : db.documentOf q.sourceId = some old) (hid : new.id = old.id)
    (hsource : new.sourceId = old.sourceId) :
    (db.putDocument new).documentOf q.sourceId = some new := by
  obtain ⟨hmem, hof⟩ := lookup_mem hold
  have hkeys : (replace (·.id) new db.documents).map (·.sourceId) =
      db.documents.map (·.sourceId) := by
    rw [replace, List.map_map]
    refine List.map_congr_left fun r hr => ?_
    by_cases h : r.id = new.id
    · rw [Function.comp_apply, if_pos h, hdb.byId.inj hr hmem (h.trans hid), hsource]
    · rw [Function.comp_apply, if_neg h]
  have hkeyed : Keyed (·.sourceId) (replace (·.id) new db.documents) := by
    rw [Keyed, hkeys]
    exact hdb.bySource
  refine hkeyed.lookup_iff.mpr ⟨mem_replace.mpr (.inl ⟨rfl, ?_⟩), hsource.trans hof⟩
  exact List.mem_map.mpr ⟨old, hmem, hid.symm⟩

theorem written_self {α : Type} [DecidableEq α] (loaded new : α) :
    written loaded new loaded = new := by
  unfold written
  split
  · next h => exact h.symm
  · rfl

section

variable {ids : Nat → Uuid} {documentId : Uuid} {now : Instant} {outcome : IngestionOutcome}

theorem holds_created (hdb : Filed db) (hnone : db.loaded q.sourceId = none)
    (h : writeDocument db q none ids documentId now = .ok (outcome, db')) : Holds db' q := by
  have hfree : q.sourceId ∉ db.documents.map (·.sourceId) :=
    lookup_eq_none.mp (Option.map_eq_none_iff.mp hnone)
  unfold writeDocument at h
  dsimp only at h
  split at h
  · cases h
  next p hwrites =>
  obtain rfl := Except.ok.inj h
  split at hwrites
  · cases hwrites
  next hnew =>
  obtain ⟨stored, hstored, heq⟩ := Option.map_eq_some_iff.mp hwrites
  obtain ⟨-, rfl⟩ := Prod.mk.inj heq
  rw [insertChunks_eq hstored]
  have hfound := @lookup_append_self _ _ _ (·.sourceId) _ (q.document documentId now) hfree
  refine ⟨q.document documentId now, hfound, rfl, fun c hc hown => ?_⟩
  rcases List.mem_append.mp hc with hold | hc
  · have hsome := hdb.owned c hold
    rw [hown] at hsome
    exact absurd (by simp [show (db.document? documentId).isSome = true from hsome]) hnew
  · exact mem_newChunks hc

theorem holds_loaded (hdb : Filed db) {l : LoadedDocument} (hl : db.loaded q.sourceId = some l)
    (h : writeDocument db q (some l) ids documentId now = .ok (outcome, db')) : Holds db' q := by
  obtain ⟨hdocument, hchunks⟩ := mem_loaded hl
  unfold writeDocument at h
  dsimp only at h
  split at h
  · cases h
  next p hwrites =>
  obtain rfl := Except.ok.inj h
  split at hwrites
  · next hidentical =>
      obtain ⟨hmetadata, hsame⟩ := Bool.and_eq_true_iff.mp hidentical
      obtain ⟨-, rfl⟩ := Prod.mk.inj (Option.some.inj hwrites)
      refine ⟨l.document, hdocument, ?_, fun c hc hown => ?_⟩
      · exact congrArg SourceDocument.extractedText (eq_of_beq hmetadata)
      · exact mem_of_identical hsame ((hchunks c).mpr ⟨hc, hown⟩)
  split at hwrites
  · cases hwrites
  split at hwrites
  · cases hwrites
  next current hcurrent =>
  have hcurrent : current = l.document := by
    obtain ⟨hmem, hid⟩ := lookup_mem hcurrent
    exact hdb.byId.inj hmem (lookup_mem hdocument).1 hid
  subst hcurrent
  have hput := @documentOf_put _ _ hdb _
    (l.document.update l.document (q.document l.document.id now)) hdocument rfl rfl
  have htext : (l.document.update l.document
      (q.document l.document.id now)).extractedText = some q.normalizedText := written_self _ _
  split at hwrites
  · next hsame =>
      obtain ⟨-, rfl⟩ := Prod.mk.inj (Option.some.inj hwrites)
      exact ⟨_, hput, htext, fun c hc hown => mem_of_identical hsame ((hchunks c).mpr ⟨hc, hown⟩)⟩
  · next hdiffer =>
      obtain ⟨stored, hstored, heq⟩ := Option.map_eq_some_iff.mp hwrites
      obtain ⟨-, rfl⟩ := Prod.mk.inj heq
      rw [insertChunks_eq hstored]
      refine ⟨_, hput, htext, fun c hc hown => ?_⟩
      rcases List.mem_append.mp hc with hold | hc
      · obtain ⟨hold, hstays⟩ := List.mem_filter.mp hold
        have hgone : c.id ∈ l.gone q := by
          rw [LoadedDocument.gone, if_neg hdiffer]
          exact List.mem_map_of_mem ((hchunks c).mpr ⟨hold, hown⟩)
        simp [hgone] at hstays
      · exact mem_newChunks hc

theorem writeDocument_holds (hdb : Filed db)
    (h : writeDocument db q (db.loaded q.sourceId) ids documentId now = .ok (outcome, db')) :
    Holds db' q := by
  cases hl : db.loaded q.sourceId with
  | none => exact holds_created hdb hl (hl ▸ h)
  | some l => exact holds_loaded hdb hl (hl ▸ h)

end

/-! ## What is asked and answered -/

theorem slice_slice {text : String} {start stop i j : Nat} (h : start + j ≤ stop) :
    slice (slice text start stop) i j = slice text (start + i) (start + j) := by
  unfold slice
  rw [String.toList_ofList, List.drop_take, List.drop_drop, List.take_take]
  congr 2
  omega

variable {g : GenerateRequest} {x : Selection} {chunk : TextChunk} {found : List (Nat × Candidate)}

/-- Chunks without a carriage return are asked for as they are. -/
theorem canonicalInput_normal {provider : ProviderName} {projectId : Option Uuid} {maximum : Nat}
    {chunks : List TextChunk} (h : ∀ c ∈ chunks, Normal c.content) :
    Ensures (canonicalInput sha256 provider projectId maximum chunks) fun p => p.2 = chunks := by
  have hsame :
      (chunks.map fun c => { c with content := normalizePlainText c.content }) = chunks := by
    refine (List.map_congr_left fun c hc => ?_).trans (List.map_id _)
    rw [normalize_self (h c hc)]
    rfl
  unfold canonicalInput
  dsimp only
  rw [hsame]
  exact .ite (fun _ => .error _) fun _ => Ensures.ok_iff.mpr rfl

/-- What is selected of a source whose document is that of the request. -/
structure Selected (db : Store) (q : IngestRequest) (document : SourceDocument) (x : Selection) :
    Prop where
  identity : x.identity.documentId = document.id
  rows : ∀ c ∈ x.rows, c ∈ db.chunks ∧ c.documentId = document.id
  chunks : x.chunks = x.rows.map (·.toTextChunk)

theorem generateSelect_spec (hq : Ready q) (hg : g.sourceId = q.sourceId)
    {document : SourceDocument}
    (hdocument : db.documentOf q.sourceId = some document)
    (hchunks : ∀ c ∈ db.chunks, c.documentId = document.id → c.toTextChunk ∈ q.chunks) :
    Ensures (generateSelect sha256 db g) (Selected db q document) := by
  unfold generateSelect
  rw [hg, hdocument]
  cases g.provider with
  | none => exact .error _
  | some provider =>
      refine .ite (fun _ => .error _) fun _ => .ite (fun _ => .error _) fun _ => ?_
      dsimp only
      refine .ite (fun _ => .error _) fun _ => ?_
      have hrows : ∀ c ∈ db.selectChunks document.id g.chunkStart g.chunkLimit,
          c ∈ db.chunks ∧ c.documentId = document.id := by
        intro c hc
        have hc := (List.perm_insertionSort _ _).mem_iff.mp (List.mem_of_mem_take hc)
        obtain ⟨hmem, hown⟩ := List.mem_filter.mp hc
        exact ⟨hmem, beq_iff_eq.mp (Bool.and_eq_true_iff.mp hown).1⟩
      refine .bind (canonicalInput_normal fun c hc => ?_) fun p hp => ?_
      · obtain ⟨row, hrow, rfl⟩ := List.mem_map.mp hc
        obtain ⟨hmem, hown⟩ := hrows row hrow
        rw [(hq.ranges _ (hchunks row hmem hown)).content]
        exact hq.normal.slice _ _
      · exact Ensures.pure_iff.mpr ⟨rfl, hrows, hp⟩

/-- What makes a candidate one of the chunk. -/
structure FoundIn (chunk : TextChunk) (c : Candidate) : Prop where
  range : chunk.charStart ≤ c.evidenceCharStart ∧ c.evidenceCharStart < c.evidenceCharEnd
  inside : c.evidenceCharEnd ≤ chunk.charStart + chunk.content.length
  text : slice chunk.content (c.evidenceCharStart - chunk.charStart)
    (c.evidenceCharEnd - chunk.charStart) = c.evidenceText

theorem evidenceRange_some {proposal : ExtractedProposal} {start stop : Nat}
    (h : evidenceRange chunk proposal = some (start, stop)) :
    start < stop ∧ stop ≤ chunk.content.length ∧
      slice chunk.content start stop = proposal.evidenceText := by
  unfold evidenceRange at h
  split at h
  · cases h
  next hrange =>
  split at h
  · cases h
  next htext =>
  obtain ⟨rfl, rfl⟩ := Prod.mk.inj (Option.some.inj h)
  exact ⟨by omega, by omega, not_not.mp htext⟩

theorem validateProposal_found {projectId : Option Uuid} {index : Nat}
    {proposal : ExtractedProposal} {c : Candidate}
    (h : validateProposal sha256 projectId chunk index proposal = some c) : FoundIn chunk c := by
  unfold validateProposal at h
  obtain ⟨title, -, h⟩ := bind_some h
  obtain ⟨summary, -, h⟩ := bind_some h
  dsimp only at h
  split at h
  · cases h
  obtain ⟨importance, -, h⟩ := bind_some h
  obtain ⟨confidence, -, h⟩ := bind_some h
  obtain ⟨⟨start, stop⟩, hrange, h⟩ := bind_some h
  obtain rfl := Option.some.inj h
  obtain ⟨hlt, hle, htext⟩ := evidenceRange_some hrange
  refine ⟨⟨Nat.le_add_right _ _, Nat.add_lt_add_left hlt _⟩, Nat.add_le_add_left hle _, ?_⟩
  show slice _ (chunk.charStart + start - chunk.charStart)
    (chunk.charStart + stop - chunk.charStart)
    = _
  rw [Nat.add_sub_cancel_left, Nat.add_sub_cancel_left]
  exact htext

theorem mem_of_mapM {α β : Type} {f : α → Option β} {as : List α} {bs : List β}
    (h : as.mapM f = some bs) {b : β} (hb : b ∈ bs) : ∃ a ∈ as, f a = some b := by
  induction as generalizing bs with
  | nil =>
      obtain rfl := Option.some.inj h
      cases hb
  | cons a rest ih =>
      rw [List.mapM_cons] at h
      obtain ⟨first, hfirst, h⟩ := bind_some h
      obtain ⟨others, hothers, h⟩ := bind_some h
      obtain rfl := Option.some.inj h
      rcases List.mem_cons.mp hb with rfl | hb
      · exact ⟨a, List.mem_cons_self, hfirst⟩
      · obtain ⟨a', ha', hf⟩ := ih hothers hb
        exact ⟨a', List.mem_cons_of_mem _ ha', hf⟩

theorem validateResult_found {projectId : Option Uuid} {maximum : Nat} {chunks : List TextChunk}
    {result : List ChunkExtraction}
    (h : validateResult sha256 projectId maximum chunks result = some found)
    {f : Nat × Candidate} (hf : f ∈ found) :
    ∃ chunk, chunks.find? (fun c => c.chunkIndex == f.1) = some chunk ∧ FoundIn chunk f.2 := by
  unfold validateResult at h
  dsimp only at h
  split at h
  · cases h
  obtain ⟨lists, hlists, h⟩ := bind_some h
  obtain rfl := Option.some.inj h
  obtain ⟨list, hlist, hf⟩ := List.mem_flatten.mp hf
  obtain ⟨item, -, hitem⟩ := mem_of_mapM hlists hlist
  unfold validateChunk at hitem
  obtain ⟨chunk, hchunk, hitem⟩ := bind_some hitem
  dsimp only at hitem
  split at hitem
  · cases hitem
  obtain ⟨⟨proposal, index⟩, -, hproposal⟩ := mem_of_mapM hitem hf
  obtain ⟨candidate, hcandidate, hproposal⟩ := bind_some hproposal
  obtain rfl := Option.some.inj hproposal
  have hindex : (chunk.chunkIndex : Int) = item.chunkIndex := by simpa using List.find?_some hchunk
  refine ⟨chunk, ?_, validateProposal_found hcandidate⟩
  rw [← hchunk]
  refine congrArg (fun p => chunks.find? p) (funext fun c => ?_)
  rw [Bool.eq_iff_iff, beq_iff_eq, beq_iff_eq, ← hindex, Int.natCast_inj]

/-- What the proposal cites is in the chunk it cites, and is read there in the text. -/
structure Cites (db : Store) (document : SourceDocument) (p : MemoryProposal) : Prop where
  chunk : ∃ c ∈ db.chunks, c.documentId = document.id ∧ p.sourceChunkId = some c.id ∧
    c.charStart ≤ p.evidenceCharStart ∧ p.evidenceCharEnd ≤ c.charEnd
  filled : p.evidenceCharStart < p.evidenceCharEnd
  text : document.extractedText.map (slice · p.evidenceCharStart p.evidenceCharEnd) =
    some p.evidenceText

theorem cites_of_found {document : SourceDocument} (hq : Ready q)
    (htext : document.extractedText = some q.normalizedText)
    (hchunks : ∀ c ∈ db.chunks, c.documentId = document.id → c.toTextChunk ∈ q.chunks)
    (hx : Selected db q document x) {f : Nat × Candidate}
    (hchunk : x.chunks.find? (fun c => c.chunkIndex == f.1) = some chunk)
    (hfound : FoundIn chunk f.2) (runId id : Uuid) :
    Cites db document (proposalOf runId x.rows id f) := by
  rw [hx.chunks, List.find?_map] at hchunk
  obtain ⟨row, hrow, rfl⟩ := Option.map_eq_some_iff.mp hchunk
  obtain ⟨hmem, hown⟩ := hx.rows row (List.mem_of_find?_eq_some hrow)
  obtain ⟨⟨hlt, hle⟩, hcontent⟩ := hq.ranges _ (hchunks row hmem hown)
  obtain ⟨⟨hstart, hfilled⟩, hinside, hread⟩ := hfound
  have hlength : row.content.length = row.charEnd - row.charStart := by
    rw [hcontent]
    exact length_slice hle
  have hcited : (proposalOf runId x.rows id f).sourceChunkId = some row.id :=
    congrArg (Option.map SourceChunk.id) hrow
  refine ⟨⟨row, hmem, hown, hcited, hstart, ?_⟩, hfilled, ?_⟩
  · show f.2.evidenceCharEnd ≤ row.charEnd
    omega
  · rw [htext]
    show some (slice _ f.2.evidenceCharStart f.2.evidenceCharEnd) = some f.2.evidenceText
    rw [← hread, hcontent, slice_slice (by omega)]
    congr 2
    · omega
    · omega

/-- Evidence is where it is said to be: whatever was ingested and on whatever way, the
provider gets the chunks as they are stored, and what it cites is read in the text of the
document between the offsets that are stored, within the chunk that is cited. -/
theorem evidence_exact {ids : Nat → Uuid} {documentId : Uuid} {now : Instant}
    {outcome : IngestionOutcome} {answer : ProviderOutcome} (hq : Ingested sha256 q)
    (hdb : Filed db)
    (hwritten : writeDocument db q (db.loaded q.sourceId) ids documentId now = .ok (outcome, db'))
    (hg : g.sourceId = q.sourceId) (hselect : generateSelect sha256 db' g = .ok x)
    (hjudge : judge sha256 g x answer = .ok found) :
    x.chunks = x.rows.map (·.toTextChunk) ∧
      ∃ document, db'.documentOf q.sourceId = some document ∧
        document.extractedText = some q.normalizedText ∧
        ∀ runId proposalIds, ∀ p ∈ proposalsFor runId x found proposalIds, Cites db' document p := by
  obtain ⟨document, hdocument, htext, hchunks⟩ := writeDocument_holds hdb hwritten
  have hx := generateSelect_spec hq.ready hg hdocument hchunks x hselect
  refine ⟨hx.chunks, document, hdocument, htext, fun runId proposalIds p hp => ?_⟩
  obtain ⟨⟨f, n⟩, hf, rfl⟩ := List.mem_map.mp hp
  have hvalid : ∃ result,
      validateResult sha256 g.projectId g.maximum x.chunks result = some found := by
    cases answer with
    | failed => cases hjudge
    | raised => cases hjudge
    | answered result =>
        refine ⟨result, ?_⟩
        unfold judge at hjudge
        dsimp only at hjudge
        split at hjudge
        · next hvalid => rw [hvalid, Except.ok.inj hjudge]
        · cases hjudge
  obtain ⟨result, hvalid⟩ := hvalid
  obtain ⟨chunk, hchunk, hfound⟩ := validateResult_found hvalid (List.fst_mem_of_mem_zipIdx hf)
  exact cites_of_found hq.ready htext hchunks hx hchunk hfound runId (proposalIds n)

def sampleStore : Store :=
  { sources := [⟨1, "note", "Note", none, none, 0⟩] }

def sampleGenerate : GenerateRequest :=
  { sourceId := 1
    projectId := none
    sourceScope := .legacyOnly
    chunkStart := 0
    chunkLimit := 1
    maximum := 1
    provider := some ⟨"fake", "one", "v1"⟩ }

def sampleScore : Score := ⟨5, 1, by decide, .inl rfl⟩

/-- A proposal whose evidence runs over a line end. -/
def sampleAnswer : ProviderOutcome :=
  .answered
    [⟨0, [⟨none, none, "A line.", .semantic, some sampleScore, some sampleScore, "b\nc", 1, 4⟩]⟩]

/-- A text with another line end is ingested, and the evidence is read in what is stored. -/
theorem evidence_exact_sample :
    ∃ q outcome db' x found, ingestSourceText id 1 "ab\r\ncd" none 1000 0 = some q ∧
      writeDocument sampleStore q (sampleStore.loaded q.sourceId) (fun _ => 3) 2 0 =
        .ok (outcome, db') ∧
      generateSelect id db' sampleGenerate = .ok x ∧
      judge id sampleGenerate x sampleAnswer = .ok found ∧ found.length = 1 ∧
      ∃ document, db'.documentOf q.sourceId = some document ∧
        ∀ runId proposalIds, ∀ p ∈ proposalsFor runId x found proposalIds, Cites db' document p := by
  have hok : (ingestSourceText id 1 "ab\r\ncd" none 1000 0).any (fun q => q.sourceId = 1 ∧
      (writeDocument sampleStore q (sampleStore.loaded q.sourceId) (fun _ => 3) 2 0).toOption.any
        fun p => (generateSelect id p.2 sampleGenerate).toOption.any fun x =>
          (judge id sampleGenerate x sampleAnswer).toOption.any fun found => found.length == 1) =
      true := by decide +kernel
  have hfiled : Filed sampleStore := ⟨List.nodup_nil, List.nodup_nil, nofun⟩
  have of_any : ∀ {ε α : Type} {e : Except ε α} {P : α → Bool}, e.toOption.any P = true →
      ∃ a, e = .ok a ∧ P a = true := by
    intro ε α e P h
    cases e with
    | error e => cases h
    | ok a => exact ⟨a, rfl, h⟩
  obtain ⟨q, hingested, hq⟩ := Option.any_eq_true _ _ |>.mp hok
  obtain ⟨hsource, hq⟩ := of_decide_eq_true hq
  obtain ⟨⟨outcome, db'⟩, hwritten, hq⟩ := of_any hq
  obtain ⟨x, hselect, hq⟩ := of_any hq
  obtain ⟨found, hjudge, hlength⟩ := of_any hq
  obtain ⟨-, document, hdocument, -, hcites⟩ :=
    evidence_exact (.text hingested) hfiled hwritten hsource.symm hselect hjudge
  exact ⟨q, outcome, db', x, found, hingested, hwritten, hselect, hjudge, beq_iff_eq.mp hlength,
    document, hdocument, hcites⟩

end Knowledge

end SecondBrain
