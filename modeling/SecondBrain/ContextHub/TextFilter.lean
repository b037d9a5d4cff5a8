import Mathlib.Data.Bool.AllAny
import SecondBrain.Calendar.Model
import SecondBrain.Connectors.Model
import SecondBrain.ContextHub.Local
import SecondBrain.Lib.Like

/-!
# The text a query looks for

Each family puts the text of a query between two `%` and compares its own
columns with the pattern by `ILIKE`. Nothing is escaped, so the filter is a
literal one for the texts without a special character only
(`text_filter_literal_iff`); for any other text each family has rows on which
the two differ.
-/

namespace SecondBrain

open Lib Lib.Like

namespace ContextHub

open Knowledge

/-- The text clause of `_github_latest`. -/
def githubMatches (ilike : Ilike) (item : Connectors.ExternalItem) (query : String) : Bool :=
  query.isEmpty ||
    let pattern := "%" ++ query ++ "%"
    ilike item.title pattern || ilike item.body pattern

/-- The text clause of `_calendar_items`. -/
def calendarMatches (ilike : Ilike) (event : Calendar.CalendarEventRevision)
    (query : String) : Bool :=
  query.isEmpty || ilike event.title ("%" ++ query ++ "%")

/-- A row of one of the three families, before the text filter. -/
inductive FilteredRow where
  | localSource (row : LocalRow)
  | github (item : Connectors.ExternalItem)
  | googleCalendar (event : Calendar.CalendarEventRevision)

namespace FilteredRow

def family : FilteredRow → ContextFamily
  | .localSource _ => .localSource
  | .github _ => .github
  | .googleCalendar _ => .googleCalendar

/-- The row passes the text filter of its family. -/
def passes (ilike : Ilike) : FilteredRow → String → Bool
  | .localSource row => row.matches ilike
  | .github item => githubMatches ilike item
  | .googleCalendar event => calendarMatches ilike event

/-- The columns that are searched, where they hold something. -/
def searched : FilteredRow → List String
  | .localSource row => row.source.name :: row.chunk.content :: row.source.reference.toList
  | .github item => [item.title, item.body]
  | .googleCalendar event => [event.title]

/-- A searched field has the text in it, whatever the case. -/
def Contains (f : Folding) (row : FilteredRow) (query : String) : Prop :=
  ∃ field ∈ row.searched, f.Contains field query

/-- The characters `btrim` takes off the content of a chunk. -/
def isBlank (c : Char) : Bool := [' ', '\t', '\n', '\r', '\x0c', '\x0b'].contains c

def sized (text : String) (low high bytes : Nat) : Prop :=
  low ≤ text.length ∧ text.length ≤ high ∧ Json.octets text.toList ≤ bytes

/-- The constraints of the searched columns. -/
def Admitted : FilteredRow → Prop
  | .localSource row => row.source.name.length ≤ 255 ∧ row.chunk.content.toList.all isBlank = false
  | .github item => sized item.title 0 500 2000 ∧ sized item.body 0 20000 80000
  | .googleCalendar event =>
      sized event.title 1 500 2000 ∧
        if event.isPrivate then event.title = "Busy"
        else event.eventType = .default ∨
          event.title ∈ ["Focus time", "Out of office", "Working location", "Birthday"]

/-- A row as it can be stored: no text column holds a NUL. -/
structure Stored (row : FilteredRow) : Prop where
  admitted : row.Admitted
  text : ∀ field ∈ row.searched, Json.nul ∉ field.toList

end FilteredRow

/-- The text filter is a test for the text itself, on every row of the family. -/
def FilterLiteral (f : Folding) (query : String) (family : ContextFamily) : Prop :=
  ∀ row : FilteredRow, row.family = family → row.Stored →
    (row.passes f.ilike query = true ↔ row.Contains f query)

/-- No character of the text has a meaning in a pattern, or one is in no stored text. -/
def IsLiteral (query : String) : Prop :=
  (∀ c ∈ query.toList, isSpecial c = false) ∨ Json.nul ∈ query.toList

section

variable {f : Folding} {query : String}

theorem FilteredRow.passes_iff {row : FilteredRow} : row.passes f.ilike query = true ↔
    query = "" ∨ ∃ field ∈ row.searched, f.ilike field ("%" ++ query ++ "%") = true := by
  cases row with
  | localSource row =>
      cases hreference : row.source.reference <;>
        simp [passes, searched, LocalRow.matches, hreference, or_comm, or_left_comm]
  | github item => simp [passes, searched, githubMatches]
  | googleCalendar event => simp [passes, searched, calendarMatches]

theorem FilteredRow.searched_ne_nil (row : FilteredRow) : row.searched ≠ [] := by
  cases row <;> nofun

theorem FilteredRow.passes_iff_contains (row : FilteredRow)
    (hplain : ∀ c ∈ query.toList, isSpecial c = false) :
    row.passes f.ilike query = true ↔ row.Contains f query := by
  rw [FilteredRow.passes_iff]
  by_cases hempty : query = ""
  · obtain ⟨field, rest, hfield⟩ := List.exists_cons_of_ne_nil row.searched_ne_nil
    refine iff_of_true (.inl hempty) ⟨field, by simp [hfield], ?_⟩
    rw [hempty]
    exact List.nil_infix
  · rw [or_iff_right hempty]
    simp only [Folding.ilike_between_iff hplain, FilteredRow.Contains]

theorem filterLiteral_of_isLiteral {family : ContextFamily} (h : IsLiteral query) :
    FilterLiteral f query family := by
  intro row _ hstored
  rcases h with hplain | hnul
  · exact row.passes_iff_contains hplain
  · have hlower : f.lower Json.nul = Json.nul := (f.nul _).mpr rfl
    have habsent : ∀ field ∈ row.searched, f.lower Json.nul ∉ f.fold field.toList := by
      intro field hfield hmem
      rw [hlower] at hmem
      exact hstored.text field hfield (Folding.nul_mem_fold.mp hmem)
    rw [FilteredRow.passes_iff]
    refine iff_of_false ?_ ?_
    · rintro (rfl | ⟨field, hfield, hmatch⟩)
      · cases hnul
      · exact habsent field hfield (Folding.mem_of_ilike hnul rfl hmatch)
    · rintro ⟨field, hfield, hcontains⟩
      exact Folding.not_contains_of_not_mem hnul (habsent field hfield) hcontains

/-! ## Rows that a pattern finds -/

def sampleBody : String := "\x7b\"body\":\"\",\"number\":1,\"state\":\"open\"\x7d"

/-- An issue of that title. -/
def sampleIssue (title : String) : Connectors.ExternalItem :=
  { id := 1
    identity := ⟨2, "github_repo:3", "github_issue:4"⟩
    externalAccountId := "github_user:5"
    resourceType := .issue
    providerSourceVersion := "2026-01-01T00:00:00Z:4"
    title := title
    body := sampleBody
    contentHash := "0"
    applicationRevision := 1
    projectId := none
    createdSyncRunId := 6
    firstSeenAt := 0
    lastSeenSyncRunId := 6
    lastSeenAt := 0 }

/-- An ordinary event of that title. -/
def sampleEvent (title : String) : Calendar.CalendarEventRevision :=
  { id := 1
    accountRevisionId := 2
    calendarIdentityId := 3
    syncRunId := 4
    projectId := none
    providerEventId := "event"
    recurrence := none
    occurrenceKey := "event"
    providerEtag := "etag"
    providerUpdatedAt := 0
    applicationRevision := 1
    contentHash := "0"
    eventType := .default
    title := title
    timing := .timed 0 1
    sourceTimezone := none
    isPrivate := false
    firstSeenAt := 0
    lastSeenAt := 0 }

/-- A chunk of a source with that reference. -/
def sampleChunk (reference : String) : LocalRow :=
  { source :=
      { id := 1
        sourceType := "note"
        name := "notes"
        reference := some reference
        checksum := none
        createdAt := 0 }
    document :=
      { id := 2
        sourceId := 1
        mediaType := "text/plain"
        originalFilename := none
        byteSize := none
        extractedText := some "notes"
        ingestionStatus := .extracted
        errorCode := none
        extractedAt := some 0 }
    chunk :=
      { id := 3
        documentId := 2
        chunkIndex := 0
        content := "notes"
        charStart := 0
        charEnd := 5
        contentHash := "0"
        locator := none } }

/-- The row of a family with one searched text of one's own. -/
def sampleRow (text : String) : ContextFamily → FilteredRow
  | .localSource => .localSource (sampleChunk text)
  | .github => .github (sampleIssue text)
  | .googleCalendar => .googleCalendar (sampleEvent text)

theorem sampleRow_family (text : String) (family : ContextFamily) :
    (sampleRow text family).family = family := by
  cases family <;> rfl

theorem mem_sampleRow_searched (text : String) (family : ContextFamily) :
    text ∈ (sampleRow text family).searched := by
  cases family <;> simp [sampleRow, FilteredRow.searched, sampleChunk, sampleIssue, sampleEvent]

/-- The other searched texts of the row hold no special character. -/
theorem sampleRow_searched_plain {text field : String} {family : ContextFamily}
    (h : field ∈ (sampleRow text family).searched) :
    field = text ∨ ∀ c ∈ field.toList, isSpecial c = false ∧ c ≠ Json.nul := by
  cases family with
  | localSource =>
      simp only [sampleRow, FilteredRow.searched, sampleChunk, Option.toList_some,
        List.mem_cons, List.not_mem_nil, or_false, or_self_left] at h
      rcases h with rfl | rfl
      · exact .inr (List.all_iff_forall_prop.mp (by decide))
      · exact .inl rfl
  | github =>
      simp only [sampleRow, FilteredRow.searched, sampleIssue, List.mem_cons, List.not_mem_nil,
        or_false] at h
      rcases h with rfl | rfl
      · exact .inl rfl
      · exact .inr (List.all_iff_forall_prop.mp (by decide))
  | googleCalendar => exact .inl (List.mem_singleton.mp h)

theorem sampleRow_stored {text : String} (family : ContextFamily) (hne : text ≠ "")
    (hlength : text.length ≤ maxQueryCharacters) (hnul : Json.nul ∉ text.toList) :
    (sampleRow text family).Stored := by
  have hlimit : maxQueryCharacters = 256 := rfl
  have hpos : 1 ≤ text.length := Nat.one_le_iff_ne_zero.mpr (by simpa using hne)
  have hoctets : Json.octets text.toList ≤ 4 * text.length := Json.octets_le text.toList
  have htitle : text.length ≤ 500 ∧ Json.octets text.toList ≤ 2000 := ⟨by omega, by omega⟩
  have hname : "notes".length ≤ 255 ∧ "notes".toList.all FilteredRow.isBlank = false := by decide
  have hbody : sampleBody.length ≤ 20000 ∧ Json.octets sampleBody.toList ≤ 80000 := by decide
  constructor
  · cases family with
    | localSource => exact hname
    | github => exact ⟨⟨Nat.zero_le _, htitle⟩, Nat.zero_le _, hbody⟩
    | googleCalendar => exact ⟨⟨hpos, htitle⟩, .inl rfl⟩
  · intro field hfield
    rcases sampleRow_searched_plain hfield with rfl | hplain
    · exact hnul
    · exact fun h => (hplain _ h).2 rfl

/-- On each family, any other text is found where it is not. -/
theorem isLiteral_of_filterLiteral (family : ContextFamily)
    (hlength : query.length ≤ maxQueryCharacters) (h : FilterLiteral f query family) :
    IsLiteral query := by
  by_contra hnot
  rw [IsLiteral, not_or] at hnot
  obtain ⟨hspecial, hnul⟩ := hnot
  push Not at hspecial
  simp only [ne_eq, Bool.not_eq_false] at hspecial
  obtain ⟨text, hne, hshort, hchars, hfound, habsent⟩ := Folding.exists_ilike_between (f := f)
    hspecial
  have hclean : Json.nul ∉ text.toList := by
    intro hmem
    rcases hchars _ hmem with hquery | hother | hother
    · exact hnul hquery
    · cases hother
    · cases hother
  have hstored := sampleRow_stored family hne (hshort.trans hlength) hclean
  have hiff := h (sampleRow text family) (sampleRow_family text family) hstored
  obtain ⟨field, hfield, hcontains⟩ := hiff.mp (FilteredRow.passes_iff.mpr
    (.inr ⟨text, mem_sampleRow_searched text family, hfound⟩))
  rcases sampleRow_searched_plain hfield with rfl | hplain
  · exact habsent hcontains
  · obtain ⟨c, hc, hmeaning⟩ := hspecial
    refine Folding.not_contains_of_not_mem hc ?_ hcontains
    rw [Folding.lower_special hmeaning, Folding.special_mem_fold hmeaning]
    intro hmem
    rw [(hplain c hmem).1] at hmeaning
    cases hmeaning

theorem filterLiteral_iff {family : ContextFamily}
    (hlength : query.length ≤ maxQueryCharacters) :
    FilterLiteral f query family ↔ IsLiteral query :=
  ⟨isLiteral_of_filterLiteral _ hlength, filterLiteral_of_isLiteral⟩

end

/-- For every query: a stored row of any family passes the text filter just when one of its
searched fields contains the text, if and only if the text is a literal one. -/
theorem text_filter_literal_iff (f : Folding) (q : ContextHubQuery) :
    (∀ row : FilteredRow, row.Stored →
      (row.passes f.ilike q.query = true ↔ row.Contains f q.query)) ↔ IsLiteral q.query := by
  constructor
  · intro h
    exact isLiteral_of_filterLiteral .github q.query_bounded.1
      fun row _ hstored => h row hstored
  · intro h row
    exact filterLiteral_of_isLiteral h row rfl

/-- A query for everything in its scope. -/
def ContextHubQuery.withoutText (q : ContextHubQuery) : ContextHubQuery :=
  { q with
    query := ""
    query_bounded := by decide }

/-- A literal text takes those rows from the local listing that contain it. -/
theorem mem_localRows_iff (f : Folding) (db : Store) {q : ContextHubQuery}
    (hplain : ∀ c ∈ q.query.toList, isSpecial c = false) (after : Option LocalSourcePosition)
    (row : LocalRow) :
    row ∈ localRows f.ilike db q after ↔ row ∈ localRows f.ilike db q.withoutText after ∧
      (FilteredRow.localSource row).Contains f q.query := by
  have hfilter : row.matches f.ilike q.query = true ↔
      (FilteredRow.localSource row).Contains f q.query :=
    (FilteredRow.localSource row).passes_iff_contains hplain
  have hall : row.matches f.ilike "" = true := rfl
  simp only [localRows, List.mem_insertionSort, List.mem_filter, Bool.and_eq_true, hfilter,
    ContextHubQuery.withoutText, hall, and_true]
  constructor
  · rintro ⟨hrow, ⟨hscope, hcontains⟩, hafter⟩
    exact ⟨⟨hrow, hscope, hafter⟩, hcontains⟩
  · rintro ⟨⟨hrow, hscope, hafter⟩, hcontains⟩
    exact ⟨hrow, ⟨hscope, hcontains⟩, hafter⟩

def samplePercent : ContextHubQuery where
  families := familyOrder
  kinds := []
  trust := []
  states := []
  scope := ⟨none, true, rfl⟩
  query := "50%"
  pageSize := 20
  compatible := by decide
  query_bounded := by decide
  page_bounded := by decide

/-- A query for `50%` finds an issue about 500 seats. -/
theorem percent_not_literal :
    ¬ ∀ row : FilteredRow, row.Stored →
      (row.passes Folding.ascii.ilike samplePercent.query = true ↔
        row.Contains Folding.ascii samplePercent.query) := by
  intro h
  have hstored : (FilteredRow.github (sampleIssue "500 seats")).Stored :=
    sampleRow_stored .github (by decide) (by decide) (by decide)
  obtain ⟨field, hfield, hcontains⟩ := (h _ hstored).mp (by decide)
  have hnone : ∀ field ∈ ["500 seats", sampleBody],
      ¬ Folding.ascii.Contains field samplePercent.query := by
    unfold Folding.Contains
    decide
  exact hnone field hfield hcontains

end ContextHub

end SecondBrain
