import SecondBrain.Lib.Latest
import SecondBrain.Calendar.Events

/-!
# The calendar tables

Rows are written under the checks of their tables, and a transaction that breaks
one is undone. A sync run is updated in place. An event is stored as a new
revision of its occurrence unless a revision with its content is there already,
which is then the one that an observation points to.
-/

namespace SecondBrain

open Lib

namespace Calendar

def integrity : Fault := .database .integrity

/-! ## Sync runs -/

/-- The pattern of a failure code. -/
def safeCode (code : String) : Bool :=
  let lower (c : Char) : Bool := decide ('a' ≤ c ∧ c ≤ 'z')
  match code.toList with
  | [] => false
  | c :: rest =>
      lower c && decide (rest.length ≤ 99) && rest.all fun c => lower c || c.isDigit || c == '_'

/-- The checks of `calendar_sync_runs`. -/
structure CalendarSyncRun.Checked (run : CalendarSyncRun) : Prop where
  window : run.windowStart < run.windowEnd
  bound : run.windowEnd ≤ run.windowStart + days 90
  counts : run.itemsSeen ≤ 5000 ∧ run.itemsWritten ≤ 5000 ∧ run.itemsUnchanged ≤ 5000
  failure : ∀ code ∈ run.safeFailureCode, safeCode code = true
  completion : run.status.isTerminal = run.completedAt.isSome
  completeStatus : run.completeness = .complete → run.status = .succeeded
  version : ∀ v ∈ run.observationEvidenceVersion, v = evidenceVersion
  started : ∀ t ∈ run.startedAt, run.createdAt ≤ t
  completed : ∀ t ∈ run.completedAt, ∃ t' ∈ run.startedAt, t' ≤ t

def CalendarSyncRun.checked (run : CalendarSyncRun) : Bool :=
  decide (run.windowStart < run.windowEnd) && decide (run.windowEnd ≤ run.windowStart + days 90) &&
    decide (run.itemsSeen ≤ 5000 ∧ run.itemsWritten ≤ 5000 ∧ run.itemsUnchanged ≤ 5000) &&
    run.safeFailureCode.all safeCode && (run.status.isTerminal == run.completedAt.isSome) &&
    decide (run.completeness = .complete → run.status = .succeeded) &&
    run.observationEvidenceVersion.all (· == evidenceVersion) &&
    run.startedAt.all (fun t => decide (run.createdAt ≤ t)) &&
    run.completedAt.all fun t => run.startedAt.any fun t' => decide (t' ≤ t)

theorem CalendarSyncRun.checked_iff {run : CalendarSyncRun} :
    run.checked = true ↔ run.Checked := by
  unfold CalendarSyncRun.checked
  simp only [Bool.and_eq_true, decide_eq_true_eq, Option.all_eq_true, beq_iff_eq,
    Option.any_eq_true]
  constructor
  · intro h
    obtain ⟨⟨⟨⟨⟨⟨⟨⟨h₁, h₂⟩, h₃⟩, h₄⟩, h₅⟩, h₆⟩, h₇⟩, h₈⟩, h₉⟩ := h
    exact ⟨h₁, h₂, h₃, h₄, h₅, h₆, h₇, h₈, h₉⟩
  · intro h
    exact ⟨⟨⟨⟨⟨⟨⟨⟨h.window, h.bound⟩, h.counts⟩, h.failure⟩, h.completion⟩, h.completeStatus⟩,
      h.version⟩, h.started⟩, h.completed⟩

def CalendarSyncRun.isActive (run : CalendarSyncRun) : Bool := !run.status.isTerminal

/-- The row of a run is written anew. -/
def Store.replaceRun (db : Store) (run : CalendarSyncRun) : Store :=
  { db with runs := db.runs.map fun r => if r.id == run.id then run else r }

def Store.putRun (db : Store) (run : CalendarSyncRun) : Except Fault Store :=
  if run.checked then .ok (db.replaceRun run) else .error integrity

def Store.account? (db : Store) (id : Uuid) : Option CalendarAccountRevision :=
  db.accounts.find? (·.id == id)

def Store.identity? (db : Store) (id : Uuid) : Option CalendarIdentity :=
  db.identities.find? (·.id == id)

/-- `create_sync_run`. No calendar has two active runs. -/
def createSyncRun (db : Store) (run : CalendarSyncRun) : Except Fault Store :=
  match db.identity? run.calendarIdentityId, db.account? run.accountRevisionId with
  | some calendar, some account =>
      if calendar.accountRevisionId ≠ account.id ∨ run.projectId ≠ account.projectId then
        .error .other
      else if run.checked ∧ db.runs.all (fun r => r.id != run.id) ∧
          ¬ (run.isActive ∧
            db.runs.any fun r => r.isActive && r.calendarIdentityId == run.calendarIdentityId) then
        .ok { db with runs := db.runs ++ [run] }
      else .error integrity
  | _, _ => .error .other

/-! ## Events -/

variable {τ : Type}

/-- Whether the event is a version of the occurrence with this key. -/
def EventRevision.isOf (event : EventRevision τ) (calendarIdentityId : Uuid) (key : String) :
    Bool :=
  event.calendarIdentityId == calendarIdentityId && event.occurrenceKey == key

/-- The revisions of an occurrence, in the order they were stored in. -/
def Store.versions (db : Store) (calendarIdentityId : Uuid) (key : String) :
    List CalendarEventRevision :=
  db.revisions.filter fun r => r.isOf calendarIdentityId key

def Timing.ends : Timing Instant → Bool
  | .allDay start stop => decide (start.number < stop.number)
  | .timed start stop => decide (start < stop)

def EventRevision.texts (event : EventRevision τ) : List String :=
  [event.providerEventId, event.occurrenceKey, event.providerEtag, event.title] ++
    (event.recurrence.map (·.1)).toList ++ event.sourceTimezone.toList

def EventRevision.times (event : EventRevision Instant) : List Instant :=
  let timing := match event.timing with
    | .allDay .. => []
    | .timed start stop => [start, stop]
  let original := match event.recurrence with
    | some (_, .time t) => [t]
    | _ => []
  event.providerUpdatedAt :: timing ++ original

def specialTitles : List String := ["Focus time", "Out of office", "Working location", "Birthday"]

/-- The checks of `calendar_event_revisions`. -/
def EventRevision.checked (event : EventRevision Instant) : Bool :=
  decide (1 ≤ event.providerEventId.length ∧ event.providerEventId.length ≤ 1024) &&
    decide (event.providerEventId.utf8ByteSize ≤ 4096) &&
    decide (1 ≤ event.occurrenceKey.length ∧ event.occurrenceKey.length ≤ 2200) &&
    decide (event.occurrenceKey.utf8ByteSize ≤ 8800) &&
    decide (1 ≤ event.applicationRevision) &&
    decide (1 ≤ event.title.length ∧ event.title.length ≤ 500) &&
    decide (event.title.utf8ByteSize ≤ 2000) &&
    event.timing.ends &&
    (if event.isPrivate then event.title == "Busy"
      else decide (event.eventType = .default) || specialTitles.contains event.title) &&
    decide (event.firstSeenAt ≤ event.lastSeenAt)

/-- A row is inserted and read back, in UTC. -/
def Store.insertRevision (db : Store) (row : CalendarEventRevision) : Except Fault Store :=
  if row.texts.any hasNul then .error (.database .data)
  else if ¬ row.checked ∨ db.revisions.any (fun r => r.id == row.id ||
      (r.isOf row.calendarIdentityId row.occurrenceKey &&
        (r.applicationRevision == row.applicationRevision ||
          (r.providerEtag == row.providerEtag && r.contentHash == row.contentHash)))) then
    .error integrity
  else if ¬ row.times.all (fun t => decide (representable t)) then .error (.database .data)
  else .ok { db with revisions := db.revisions ++ [row] }

/-- What the run that found the event has to agree with. -/
def checkOwner (db : Store) (event : EventRevision Aware) : Except Fault Unit :=
  match db.run? event.syncRunId with
  | some run =>
      if (run.accountRevisionId, run.calendarIdentityId, run.projectId) =
          (event.accountRevisionId, event.calendarIdentityId, event.projectId) then .ok ()
      else .error .other
  | none => .error .other

/-- The key and the title have to be the ones that are computed from the rest. -/
def checkDerived (event : EventRevision Aware) : Except Fault Unit :=
  match occurrenceIdentity event.providerEventId (event.recurrence.map (·.1))
      (event.recurrence.map (·.2)) with
  | some identity =>
      if identity.key = event.occurrenceKey ∧
          eventLabel event.eventType event.isPrivate event.title = some event.title then .ok ()
      else .error .other
  | none => .error .other

/-- The row of the next revision of the occurrence. -/
def nextRevision (db : Store) (event : EventRevision Aware) (seenAt : Instant) (id : Uuid) :
    CalendarEventRevision :=
  let latest := latest (·.applicationRevision)
    (fun r => r.isOf event.calendarIdentityId event.occurrenceKey) db.revisions
  { event.stored with
    id := id
    applicationRevision := latest.elim 1 (·.applicationRevision + 1)
    firstSeenAt := latest.elim seenAt (·.firstSeenAt)
    lastSeenAt := seenAt }

/-- `record_event_revision`: the revision with the content of the event, and
whether it is a new one. -/
def recordEventRevision (db : Store) (event : EventRevision Aware) (seenAt : Instant)
    (id : Uuid) : Except Fault (Store × CalendarEventRevision × Bool) := do
  checkOwner db event
  checkDerived event
  match (db.versions event.calendarIdentityId event.occurrenceKey).find?
      (·.contentHash == event.contentHash) with
  | some existing => return (db, existing, false)
  | none =>
      let row := nextRevision db event seenAt id
      let db ← db.insertRevision row
      return (db, row, true)

/-! ## Observations -/

/-- `record_event_observation`. -/
def recordEventObservation (db : Store) (run : CalendarSyncRun) (event : CalendarEventRevision)
    (observedAt : Instant) (id : Uuid) : Except Fault Store :=
  if (event.accountRevisionId, event.calendarIdentityId) ≠
      (run.accountRevisionId, run.calendarIdentityId) then .error .other
  else if db.observations.any fun o =>
      o.syncRunId == run.id && o.occurrenceKey == event.occurrenceKey then .error .observation
  else if db.observations.any (·.id == id) then .error integrity
  else .ok { db with
    observations := db.observations ++
      [{ id := id
         syncRunId := run.id
         accountRevisionId := run.accountRevisionId
         calendarIdentityId := run.calendarIdentityId
         occurrenceKey := event.occurrenceKey
         eventRevisionId := event.id
         observedAt := observedAt }] }

/-- How many observations the run has made. -/
def Store.observationCount (db : Store) (runId : Uuid) : Nat :=
  db.observations.countP (·.syncRunId == runId)

/-- `mark_observation_evidence_complete`: the run as it is then. -/
def markObservationEvidenceComplete (db : Store) (run : CalendarSyncRun) :
    Except Fault CalendarSyncRun :=
  if db.observationCount run.id ≠ run.itemsSeen then .error .observation
  else
    let run := { run with observationEvidenceVersion := some evidenceVersion }
    if run.checked then .ok run else .error integrity

/-! ## What the operations do -/

variable {db db' : Store} {run r : CalendarSyncRun} {event : EventRevision Aware} {id : Uuid}

theorem putRun_spec : Ensures (db.putRun run) fun db' =>
    run.Checked ∧ db' = db.replaceRun run := by
  unfold Store.putRun
  refine .ite (fun h => ?_) fun _ => .error _
  exact Ensures.ok_iff.mpr ⟨CalendarSyncRun.checked_iff.mp h, rfl⟩

@[simp] theorem replaceRun_ids :
    (db.replaceRun run).runs.map (·.id) = db.runs.map (·.id) := by
  show (db.runs.map fun r => if r.id == run.id then run else r).map (·.id) = _
  rw [List.map_map]
  refine List.map_congr_left fun r _ => ?_
  by_cases h : r.id = run.id
  · simp [h]
  · simp [h]

theorem mem_replaceRun : r ∈ (db.replaceRun run).runs ↔
    r = run ∧ run.id ∈ db.runs.map (·.id) ∨ r ∈ db.runs ∧ r.id ≠ run.id := by
  show r ∈ db.runs.map (fun r => if r.id == run.id then run else r) ↔ _
  simp only [List.mem_map, beq_iff_eq]
  constructor
  · rintro ⟨old, hold, h⟩
    by_cases hid : old.id = run.id
    · rw [if_pos hid] at h
      exact .inl ⟨h.symm, old, hold, hid⟩
    · rw [if_neg hid] at h
      exact .inr ⟨h ▸ hold, h ▸ hid⟩
  · intro h
    rcases h with ⟨rfl, old, hold, hid⟩ | ⟨hr, hid⟩
    · exact ⟨old, hold, if_pos hid⟩
    · exact ⟨r, hr, if_neg hid⟩

theorem run?_mem (h : db.run? id = some run) : run ∈ db.runs ∧ run.id = id :=
  ⟨List.mem_of_find?_eq_some h, by simpa using List.find?_some h⟩

theorem run?_of_mem (hids : (db.runs.map (·.id)).Nodup) (hrun : run ∈ db.runs) :
    db.run? run.id = some run := by
  have hsome : (db.run? run.id).isSome = true := by
    rw [Store.run?, List.find?_isSome]
    exact ⟨run, hrun, by simp⟩
  obtain ⟨other, hother⟩ := Option.isSome_iff_exists.mp hsome
  obtain ⟨hmem, hid⟩ := run?_mem hother
  rw [hother, List.inj_on_of_nodup_map hids hmem hrun hid]

theorem createSyncRun_spec : Ensures (createSyncRun db run) fun db' =>
    db' = { db with runs := db.runs ++ [run] } ∧ run.Checked ∧
      (∀ r ∈ db.runs, r.id ≠ run.id) ∧
      (run.isActive = true → ∀ r ∈ db.runs, r.isActive = true →
        r.calendarIdentityId ≠ run.calendarIdentityId) := by
  unfold createSyncRun
  split
  · refine .ite (fun _ => .error _) fun _ => .ite (fun h => ?_) fun _ => .error _
    obtain ⟨hchecked, hfresh, hactive⟩ := h
    refine Ensures.ok_iff.mpr ⟨rfl, CalendarSyncRun.checked_iff.mp hchecked, fun r hr => ?_,
      fun hrun r hr hr' hsame => hactive ⟨hrun, ?_⟩⟩
    · simpa using List.all_eq_true.mp hfresh r hr
    · rw [List.any_eq_true]
      exact ⟨r, hr, by rw [hr', hsame]; simp⟩
  · exact .error _

/-- Recording an event finds the revision that has its content, or adds the next
one of its occurrence. -/
inductive Revised (db : Store) (event : EventRevision Aware) :
    Store → CalendarEventRevision → Bool → Prop
  | replayed {stored : CalendarEventRevision} :
      stored ∈ db.versions event.calendarIdentityId event.occurrenceKey →
      stored.contentHash = event.contentHash → Revised db event db stored false
  | added {seenAt : Instant} {id : Uuid} :
      (∀ r ∈ db.versions event.calendarIdentityId event.occurrenceKey,
        r.contentHash ≠ event.contentHash) →
      (∀ r ∈ db.revisions, r.id ≠ id) →
      Revised db event
        { db with revisions := db.revisions ++ [nextRevision db event seenAt id] }
        (nextRevision db event seenAt id) true

theorem insertRevision_spec {row : CalendarEventRevision} :
    Ensures (db.insertRevision row) fun db' =>
      db' = { db with revisions := db.revisions ++ [row] } ∧
        ∀ r ∈ db.revisions, r.id ≠ row.id := by
  unfold Store.insertRevision
  refine .ite (fun _ => .error _) fun _ => .ite (fun _ => .error _) fun h => ?_
  refine .ite (fun _ => .error _) fun _ => Ensures.ok_iff.mpr ⟨rfl, fun r hr hid => h (.inr ?_)⟩
  rw [List.any_eq_true]
  exact ⟨r, hr, by simp [hid]⟩

theorem recordEventRevision_spec {seenAt : Instant} :
    Ensures (recordEventRevision db event seenAt id) fun x =>
      Revised db event x.1 x.2.1 x.2.2 := by
  unfold recordEventRevision
  refine .bind_any fun _ _ => .bind_any fun _ _ => ?_
  cases hfind : (db.versions event.calendarIdentityId event.occurrenceKey).find?
      (·.contentHash == event.contentHash) with
  | some existing =>
      refine Ensures.pure_iff.mpr (.replayed (List.mem_of_find?_eq_some hfind) ?_)
      simpa using List.find?_some hfind
  | none =>
      refine insertRevision_spec.bind fun db' h => Ensures.pure_iff.mpr ?_
      obtain ⟨rfl, hfresh⟩ := h
      refine .added (fun r hr => ?_) hfresh
      simpa using List.find?_eq_none.mp hfind r hr

/-- An observation that ties the run to the revision. -/
def CalendarEventObservation.Ties (o : CalendarEventObservation) (run : CalendarSyncRun)
    (event : CalendarEventRevision) : Prop :=
  o.syncRunId = run.id ∧ o.accountRevisionId = run.accountRevisionId ∧
    event.isOf o.calendarIdentityId o.occurrenceKey = true ∧ o.eventRevisionId = event.id

theorem recordEventObservation_spec {stored : CalendarEventRevision} {observedAt : Instant} :
    Ensures (recordEventObservation db run stored observedAt id) fun db' =>
      (∀ o ∈ db.observations, o.syncRunId = run.id → o.occurrenceKey ≠ stored.occurrenceKey) ∧
        ∃ o : CalendarEventObservation, o.Ties run stored ∧
          db' = { db with observations := db.observations ++ [o] } := by
  unfold recordEventObservation
  refine .ite (fun _ => .error _) fun howner => .ite (fun _ => .error _) fun hnew => ?_
  refine .ite (fun _ => .error _) fun _ => Ensures.ok_iff.mpr ⟨fun o ho hrun hkey => hnew ?_, ?_⟩
  · rw [List.any_eq_true]
    exact ⟨o, ho, by simp [hrun, hkey]⟩
  · rw [not_not, Prod.mk.injEq] at howner
    refine ⟨_, ⟨rfl, rfl, ?_, rfl⟩, rfl⟩
    simp [EventRevision.isOf, howner.2]

theorem markObservationEvidenceComplete_spec :
    Ensures (markObservationEvidenceComplete db run) fun run' =>
      db.observationCount run.id = run.itemsSeen ∧
        run' = { run with observationEvidenceVersion := some evidenceVersion } := by
  unfold markObservationEvidenceComplete
  refine .ite (fun _ => .error _) fun hcount => .ite (fun _ => ?_) fun _ => .error _
  exact Ensures.ok_iff.mpr ⟨not_not.mp hcount, rfl⟩

end Calendar

end SecondBrain
