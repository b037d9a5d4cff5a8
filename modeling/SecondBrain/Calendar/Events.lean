import SecondBrain.Calendar.Identity

/-!
# Reading events

What the provider answers is accepted item by item and never repaired. An item
that is not of the expected shape fails the whole page with a code, except where
the code trips over it: a list that cannot be looked up in a set, a malformed
zone key, a local time that leaves the range when it is converted.
-/

namespace SecondBrain

open Lib

namespace Calendar

/-- What looking a zone up ends in. A malformed key is another error than one
that names no zone. -/
inductive ZoneLookup where
  | found (z : Zone)
  | notFound
  | malformed

/-- The platform: its zones and its digest. -/
structure Platform where
  zoneInfo : String → ZoneLookup
  sha256 : String → String

def invalidEvent : Fault := .transport "calendar_invalid_event"

/-- `_string`: nothing stands for a missing value. -/
def string : Option Json → Except Fault String
  | some (.str value) =>
      if value.isEmpty ∨ 1024 < value.length then .error invalidEvent else .ok value
  | _ => .error invalidEvent

/-- A wall clock in the zone: the offsets under which it comes back as it was. -/
def candidates (z : Zone) (wall : Wall) : List Bool → Except Fault (List Int)
  | [] => .ok []
  | fold :: folds => do
      let offset := z.utcoffset fold wall.number
      let utc := wall.number - offset
      if ¬ (-86400000000 < offset ∧ offset < 86400000000) ∨ ¬ representable utc ∨
          ¬ representable (z.fromUtc utc) then .error .other
      else
        let rest ← candidates z wall folds
        return if z.fromUtc utc = wall.number then offset :: rest else rest

/-- `_instant`. -/
def instant (p : Platform) (raw : Option Json) (timezoneName : Option String) :
    Except Fault Aware := do
  let value ← string raw
  let some (wall, offset) :=
      fromisoformat (String.ofList (value.toList.flatMap fun c =>
        if c = 'Z' then "+00:00".toList else [c]))
    | .error invalidEvent
  match offset, timezoneName with
  | some offset, _ => return { wall := wall, offset := offset }
  | none, none => .error invalidEvent
  | none, some name =>
      if name.isEmpty then .error invalidEvent
      else match p.zoneInfo name with
        | .notFound => .error invalidEvent
        | .malformed => .error .other
        | .found z =>
            match ← candidates z wall [false, true] with
            | [] => .error invalidEvent
            | offset :: rest =>
                if rest.any (· ≠ offset) then .error invalidEvent
                else if h : -86400000000 < offset ∧ offset < 86400000000 then
                  return { wall := wall, offset := ⟨offset, h⟩, zone := some name }
                else .error .other

def timeKeys : List String := ["date", "dateTime", "timeZone"]

/-- `_temporal`: a date or a time, with the zone named beside it. -/
def temporal (p : Platform) : Option Json → Except Fault (Moment Aware × Option String)
  | some (.obj fields) => do
      if ¬ fields.all (fun f => f.1 ∈ timeKeys) then .error invalidEvent
      let value : Json := .obj fields
      let zone ← match value.field? "timeZone" with
        | none | some .null => Except.ok (none : Option String)
        | some (.str name) =>
            if name.isEmpty ∨ 255 < name.length then .error invalidEvent
            else .ok (some name)
        | some _ => .error invalidEvent
      match value.field? "date", value.field? "dateTime" with
      | some _, some _ => .error invalidEvent
      | some d, none => do
          let text ← string (some d)
          match dateFromIsoformat text with
          | some d => return (.date d, zone)
          | none => .error invalidEvent
      | none, some t => do
          let t ← instant p (some t) zone
          return (.time t, zone)
      | none, none => .error invalidEvent
  | _ => .error invalidEvent

def eventKeys : List String :=
  ["id", "status", "eventType", "summary", "visibility", "etag", "updated",
    "recurringEventId", "originalStartTime", "start", "end"]

/-- `_TYPE_MAP`. -/
def typeMap : String → Option EventType
  | "default" => some .default
  | "birthday" => some .birthday
  | "focusTime" => some .focusTime
  | "outOfOffice" => some .outOfOffice
  | "workingLocation" => some .workingLocation
  | _ => none

/-- The timing of an event that ends after it starts. -/
def timing : Moment Aware → Moment Aware → Except Fault (Timing Aware)
  | .date start, .date stop =>
      if stop.number ≤ start.number then .error invalidEvent else .ok (.allDay start stop)
  | .time start, .time stop =>
      if stop.le start then .error invalidEvent else .ok (.timed start stop)
  | _, _ => .error invalidEvent

def Moment.sort {τ : Type} : Moment τ → Bool
  | .date _ => true
  | .time _ => false

def Timing.isAllDay {τ : Type} : Timing τ → Bool
  | .allDay .. => true
  | .timed .. => false

/-- What the content hash is over. -/
def contentJson (eventType : EventType) (title : String) (when : Timing Aware)
    (sourceTimezone : Option String) (isPrivate : Bool) : Json :=
  let text : Option String → Json := fun s => s.elim .null .str
  let (startDate, endDate, startInstant, endInstant) := match when with
    | .allDay start stop => (some start.isoformat, some stop.isoformat, none, none)
    | .timed start stop => (none, none, some start.isoformat, some stop.isoformat)
  .obj
    [("event_type", .str eventType.value),
      ("title", .str title),
      ("all_day", .bool when.isAllDay),
      ("start_date", text startDate),
      ("end_date", text endDate),
      ("start_instant", text startInstant),
      ("end_instant", text endInstant),
      ("source_timezone", text sourceTimezone),
      ("state", .str "current"),
      ("is_private", .bool isPrivate)]

/-- The series an item names, with its original start of the sort of its start. -/
def recurrence (p : Platform) (item : Json) (start : Moment Aware) :
    Except Fault (Option (String × Moment Aware)) :=
  match item.field? "recurringEventId" with
  | none | some .null =>
      if (item.field? "originalStartTime").isSome then .error invalidEvent else .ok none
  | some series => do
      let series ← string (some series)
      let (original, _) ← temporal p (item.field? "originalStartTime")
      if original.sort ≠ start.sort then .error invalidEvent
      else return some (series, original)

def checkStatus (item : Json) : Except Fault Unit :=
  match item.field? "status" with
  | some (.arr _) | some (.obj _) => .error .other
  | some (.str "confirmed") | some (.str "tentative") => .ok ()
  | some (.str "cancelled") => .error (.transport "calendar_cancelled_event")
  | _ => .error invalidEvent

def eventTypeOf (item : Json) : Except Fault EventType :=
  match item.field? "eventType" with
  | some (.arr _) | some (.obj _) => .error .other
  | some (.str name) =>
      match typeMap name with
      | some eventType => .ok eventType
      | none => .error (.transport "calendar_event_type_invalid")
  | _ => .error (.transport "calendar_event_type_invalid")

def privacyOf (item : Json) : Except Fault Bool :=
  match item.field? "visibility" with
  | none | some .null => .ok false
  | some (.arr _) | some (.obj _) => .error .other
  | some (.str visibility) =>
      if visibility ∈ ["default", "public", "private", "confidential"] then
        .ok (visibility == "private")
      else .error invalidEvent
  | some _ => .error invalidEvent

def summaryOf (item : Json) : Except Fault String :=
  match item.field? "summary" with
  | none | some .null => .ok ""
  | some (.str text) => .ok text
  | some _ => .error invalidEvent

def titleOf (eventType : EventType) (isPrivate : Bool) (summary : String) :
    Except Fault String :=
  match eventLabel eventType isPrivate summary with
  | some title => .ok title
  | none => .error invalidEvent

def identityOf (eventId : String) (series : Option (String × Moment Aware)) :
    Except Fault OccurrenceIdentity :=
  match occurrenceIdentity eventId (series.map (·.1)) (series.map (·.2)) with
  | some identity => .ok identity
  | none => .error .other

def checkKeys (item : Json) : Except Fault Unit :=
  match item with
  | .obj fields =>
      if fields.all (fun f => f.1 ∈ eventKeys) then .ok () else .error invalidEvent
  | _ => .error invalidEvent

/-- `_normalized`. -/
def normalized (p : Platform) (item : Json) (run : CalendarSyncRun) (seenAt : Instant) :
    Except Fault (EventRevision Aware) := do
  checkKeys item
  checkStatus item
  let eventType ← eventTypeOf item
  let eventId ← string (item.field? "id")
  let etag ← string (item.field? "etag")
  let updated ← instant p (item.field? "updated") none
  let (start, startZone) ← temporal p (item.field? "start")
  let (stop, endZone) ← temporal p (item.field? "end")
  let when ← timing start stop
  let isPrivate ← privacyOf item
  let summary ← summaryOf item
  let title ← titleOf eventType isPrivate summary
  let series ← recurrence p item start
  let identity ← identityOf eventId series
  let zone := startZone <|> endZone
  return {
    accountRevisionId := run.accountRevisionId
    calendarIdentityId := run.calendarIdentityId
    syncRunId := run.id
    projectId := run.projectId
    providerEventId := eventId
    recurrence := series
    occurrenceKey := identity.key
    providerEtag := etag
    providerUpdatedAt := updated
    applicationRevision := 1
    contentHash := p.sha256 (contentJson eventType title when zone isPrivate).canonical
    eventType := eventType
    title := title
    timing := when
    sourceTimezone := zone
    isPrivate := isPrivate
    firstSeenAt := seenAt
    lastSeenAt := seenAt }

/-! ## What is stored of an accepted item -/

def Moment.map {σ τ : Type} (f : σ → τ) : Moment σ → Moment τ
  | .date d => .date d
  | .time t => .time (f t)

def Timing.map {σ τ : Type} (f : σ → τ) : Timing σ → Timing τ
  | .allDay start stop => .allDay start stop
  | .timed start stop => .timed (f start) (f stop)

/-- The columns keep the instants of the times. -/
def EventRevision.stored (x : EventRevision Aware) : EventRevision Instant :=
  { accountRevisionId := x.accountRevisionId
    calendarIdentityId := x.calendarIdentityId
    syncRunId := x.syncRunId
    projectId := x.projectId
    providerEventId := x.providerEventId
    recurrence := x.recurrence.map fun r => (r.1, r.2.map Aware.instant)
    occurrenceKey := x.occurrenceKey
    providerEtag := x.providerEtag
    providerUpdatedAt := x.providerUpdatedAt.instant
    applicationRevision := x.applicationRevision
    contentHash := x.contentHash
    eventType := x.eventType
    title := x.title
    timing := x.timing.map Aware.instant
    sourceTimezone := x.sourceTimezone
    isPrivate := x.isPrivate
    firstSeenAt := x.firstSeenAt
    lastSeenAt := x.lastSeenAt }

/-! ## The key of an accepted item -/

variable {p : Platform}

theorem identityOf_key {eventId : String} {series : Option (String × Moment Aware)} :
    Ensures (identityOf eventId series) fun identity =>
      identity.key = occurrenceKey eventId series := by
  unfold identityOf occurrenceIdentity
  refine fun identity h => ?_
  split at h
  · next hidentity =>
      cases h
      split at hidentity
      · cases hidentity
      cases series with
      | none =>
          cases hidentity
          rfl
      | some s =>
          simp only [Option.map_some] at hidentity
          split at hidentity
          · cases hidentity
          · cases hidentity
            rfl
  · cases h

theorem normalized_key {item : Json} {run : CalendarSyncRun} {seenAt : Instant} :
    Ensures (normalized p item run seenAt) fun x =>
      x.occurrenceKey = occurrenceKey x.providerEventId x.recurrence := by
  unfold normalized
  refine .bind_any fun _ _ => .bind_any fun _ _ => .bind_any fun _ _ => .bind_any fun _ _ => ?_
  refine .bind_any fun _ _ => .bind_any fun _ _ => .bind_any fun _ _ => .bind_any fun _ _ => ?_
  refine .bind_any fun _ _ => .bind_any fun _ _ => .bind_any fun _ _ => .bind_any fun _ _ => ?_
  refine .bind_any fun _ _ => identityOf_key.bind fun identity h => ?_
  exact Ensures.pure_iff.mpr h

/-- What an accepted item is an occurrence of. -/
def EventRevision.occurrence (x : EventRevision Aware) : Occurrence :=
  Calendar.occurrence x.providerEventId x.recurrence

/-- Two accepted items are of one key exactly when they are one occurrence, but
for two that write one original start with different offsets. -/
theorem occurrence_key_canonical {a b : Json} {run run' : CalendarSyncRun}
    {seenAt seenAt' : Instant} {x y : EventRevision Aware}
    (hx : normalized p a run seenAt = .ok x) (hy : normalized p b run' seenAt' = .ok y) :
    (x.occurrenceKey = y.occurrenceKey ↔ x.occurrence = y.occurrence) ↔
      ¬ writtenApart x.recurrence y.recurrence := by
  rw [normalized_key x hx, normalized_key y hy, occurrenceKey_eq_iff]
  constructor
  · intro h hapart
    exact (h.mpr (occurrence_of_apart hapart)).2 hapart
  · intro hnot
    exact ⟨fun h => h.1, fun h => ⟨h, hnot⟩⟩

def samplePlatform : Platform :=
  { zoneInfo := fun _ => .notFound
    sha256 := id }

def sampleSyncRun : CalendarSyncRun :=
  { id := 3
    accountRevisionId := 1
    calendarIdentityId := 2
    projectId := none
    windowStart := 1785801600000000
    windowEnd := 1793577600000000
    createdAt := 1788393600000000 }

/-- An occurrence of a series that was to start at `original`. -/
def sampleItem (original : String) : Json :=
  .obj
    [("id", .str "instance"),
      ("status", .str "confirmed"),
      ("eventType", .str "default"),
      ("summary", .str "Lunch"),
      ("etag", .str "1"),
      ("updated", .str "2026-09-01T00:00:00Z"),
      ("recurringEventId", .str "series-1"),
      ("originalStartTime", .obj [("dateTime", .str original)]),
      ("start", .obj [("dateTime", .str "2026-09-04T09:00:00+03:00")]),
      ("end", .obj [("dateTime", .str "2026-09-04T10:00:00+03:00")])]

def sampleEvent? (original : String) : Option (EventRevision Aware) :=
  (normalized samplePlatform (sampleItem original) sampleSyncRun 0).toOption

theorem sampleEvent_ok {original : String} {x : EventRevision Aware}
    (h : sampleEvent? original = some x) :
    normalized samplePlatform (sampleItem original) sampleSyncRun 0 = .ok x := by
  unfold sampleEvent? at h
  cases hx : normalized samplePlatform (sampleItem original) sampleSyncRun 0 with
  | error e => rw [hx] at h; cases h
  | ok y => rw [hx] at h; exact congrArg Except.ok (Option.some.inj h)

theorem occurrence_key_canonical_sample :
    ∃ x y, sampleEvent? "2026-09-04T09:00:00+03:00" = some x ∧
      sampleEvent? "2026-09-11T09:00:00+03:00" = some y ∧
      ((x.occurrenceKey = y.occurrenceKey ↔ x.occurrence = y.occurrence) ↔
        ¬ writtenApart x.recurrence y.recurrence) := by
  have hx : (sampleEvent? "2026-09-04T09:00:00+03:00").isSome = true := by decide +kernel
  have hy : (sampleEvent? "2026-09-11T09:00:00+03:00").isSome = true := by decide +kernel
  obtain ⟨x, hx⟩ := Option.isSome_iff_exists.mp hx
  obtain ⟨y, hy⟩ := Option.isSome_iff_exists.mp hy
  exact ⟨x, y, hx, hy, occurrence_key_canonical (sampleEvent_ok hx) (sampleEvent_ok hy)⟩

/-- One occurrence whose start is written in local time and in UTC has two keys. -/
theorem offsets_split_occurrence :
    ∃ x y, sampleEvent? "2026-09-04T09:00:00+03:00" = some x ∧
      sampleEvent? "2026-09-04T06:00:00Z" = some y ∧ x.occurrence = y.occurrence ∧
      x.occurrenceKey ≠ y.occurrenceKey := by
  have hboth : (sampleEvent? "2026-09-04T09:00:00+03:00").any (fun x =>
      (sampleEvent? "2026-09-04T06:00:00Z").any fun y =>
        x.occurrence = y.occurrence ∧ x.occurrenceKey ≠ y.occurrenceKey) = true := by
    decide +kernel
  simp only [Option.any_eq_true, decide_eq_true_eq] at hboth
  obtain ⟨x, hx, y, hy, hsame, hkeys⟩ := hboth
  exact ⟨x, y, hx, hy, hsame, hkeys⟩

end Calendar

end SecondBrain
