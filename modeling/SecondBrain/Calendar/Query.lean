import SecondBrain.Lib.Latest
import SecondBrain.Calendar.Events

/-!
# Effective state

Whether an event is current is never stored. It is read off the eligible runs of
its calendar, newest first: the first that observed the event makes it current,
the first that did not though its window covers the event makes it stale. The
meaning of this is `Effective`, the latest eligible run that applies.

To tell whether a window covers a day the days are converted to instants, and
there the query can break off with an exception, on a key no zone can have or on
a day at the end of the range. It matters only where a newer run did not observe
the event, but then the event has no state at all.
-/

namespace SecondBrain

open Lib

namespace Calendar

inductive EffectiveState where
  | current
  | stale
deriving DecidableEq, Repr

/-- `CalendarEventNotFoundError`, or another exception. -/
inductive QueryFault where
  | notFound
  | other
deriving DecidableEq, Repr

/-! ## The query -/

/-- `_eligible_condition`. -/
def eligible (db : Store) (run : CalendarSyncRun) : Bool :=
  decide (run.status = .succeeded) && decide (run.completeness = .complete) &&
    decide (run.observationEvidenceVersion = some evidenceVersion) &&
    (db.observations.countP (·.syncRunId == run.id) == run.itemsSeen)

/-- The order of the runs, by completion and then by id. -/
def stamp (run : CalendarSyncRun) : Int ×ₗ Nat :=
  toLex (run.completedAt.getD 0, run.id.toNat)

def sameOccurrence (o o' : CalendarEventObservation) : Bool :=
  o.accountRevisionId == o'.accountRevisionId && o.calendarIdentityId == o'.calendarIdentityId &&
    o.occurrenceKey == o'.occurrenceKey

/-- The observations by an eligible run, each with its run. -/
def eligibleObservations (db : Store) : List (CalendarEventObservation × CalendarSyncRun) :=
  db.observations.filterMap fun o =>
    (db.run? o.syncRunId).bind fun run => if eligible db run then some (o, run) else none

/-- The newest eligible observation of the occurrence that `o` is of. -/
def latestPositive (db : Store) (o : CalendarEventObservation) :
    Option (CalendarEventObservation × CalendarSyncRun) :=
  latest (fun p => stamp p.2) (fun p => sameOccurrence p.1 o) (eligibleObservations db)

/-- `_latest_positive_query`: the revisions that are shown in a scope. -/
def shown (db : Store) (scope : Option Uuid) : List CalendarEventRevision :=
  db.revisions.filter fun event =>
    db.observations.any fun o =>
      o.eventRevisionId == event.id &&
        (latestPositive db o).any (fun p => p.1 == o) &&
        db.accounts.any (fun a => a.id == o.accountRevisionId && decide (a.projectId = scope))

/-- Midnight of a day in the zone, `combine(day, time.min, zone).astimezone(UTC)`. -/
def midnight (z : Zone) (day : Date) : Except QueryFault Instant :=
  let wall := day.number * 86400000000
  let offset := z.utcoffset false wall
  if -86400000000 < offset ∧ offset < 86400000000 ∧ representable (wall - offset) then
    .ok (wall - offset)
  else .error .other

/-- From when to when the event is, where its days can be placed at all. -/
def extent (p : Platform) (event : CalendarEventRevision) :
    Except QueryFault (Option (Instant × Instant)) :=
  match event.timing with
  | .timed start stop => .ok (some (start, stop))
  | .allDay start stop =>
      match event.sourceTimezone with
      | none => .ok none
      | some name =>
          match p.zoneInfo name with
          | .notFound => .ok none
          | .malformed => .error .other
          | .found z => do
              let start ← midnight z start
              let stop ← midnight z stop
              return some (start, stop)

def overlaps (run : CalendarSyncRun) (extent : Option (Instant × Instant)) : Bool :=
  extent.any fun (start, stop) => decide (run.windowStart < stop) && decide (start < run.windowEnd)

/-- `_covered`. -/
def covered (p : Platform) (event : CalendarEventRevision) (run : CalendarSyncRun) :
    Except QueryFault Bool :=
  (extent p event).map (overlaps run)

def observed (db : Store) (event : CalendarEventRevision) (run : CalendarSyncRun) : Bool :=
  db.observations.any fun o => o.syncRunId == run.id && o.occurrenceKey == event.occurrenceKey

/-- What the run is evidence of, which has to have been completed. -/
def evidence (state : EffectiveState) (run : CalendarSyncRun) :
    Except QueryFault (EffectiveState × Instant × Uuid) :=
  match run.completedAt with
  | some t => .ok (state, t, run.id)
  | none => .error .other

def scan (p : Platform) (db : Store) (event : CalendarEventRevision) :
    List CalendarSyncRun → Except QueryFault (EffectiveState × Instant × Uuid)
  | [] => .error .notFound
  | run :: rest =>
      if observed db event run then evidence .current run
      else do
        if ← covered p event run then evidence .stale run else scan p db event rest

/-- The eligible runs of the calendar the event is from. -/
def lineage (db : Store) (event : CalendarEventRevision) : List CalendarSyncRun :=
  db.runs.filter fun run =>
    run.accountRevisionId == event.accountRevisionId &&
      run.calendarIdentityId == event.calendarIdentityId && eligible db run

def effectiveEvidence (p : Platform) (db : Store) (event : CalendarEventRevision) :
    Except QueryFault (EffectiveState × Instant × Uuid) :=
  scan p db event (newestFirst stamp (lineage db event))

/-! ## Its meaning -/

/-- A run that observed the event, or whose window covers it. -/
def applies (p : Platform) (db : Store) (event : CalendarEventRevision)
    (run : CalendarSyncRun) : Bool :=
  observed db event run || overlaps run ((extent p event).toOption.join)

/-- The run is the latest eligible one that applies to the event. -/
structure LatestApplicable (p : Platform) (db : Store) (event : CalendarEventRevision)
    (run : CalendarSyncRun) : Prop where
  eligible : run ∈ lineage db event
  applies : applies p db event run = true
  latest : ∀ other ∈ lineage db event, Calendar.applies p db event other = true →
    stamp other ≤ stamp run

/-- Current if the latest run that applies observed the event, else stale. -/
def Effective (p : Platform) (db : Store) (event : CalendarEventRevision)
    (state : EffectiveState) (run : CalendarSyncRun) : Prop :=
  LatestApplicable p db event run ∧
    state = if observed db event run then .current else .stale

/-- What the tables themselves see to. -/
structure Store.Keyed (db : Store) : Prop where
  runIds : (db.runs.map (·.id)).Nodup
  completion : ∀ run ∈ db.runs, run.status.isTerminal = run.completedAt.isSome

/-- Whether the day starts, in the zone, at an instant that can be told. -/
def hasMidnight (z : Zone) (day : Date) : Bool :=
  let wall := day.number * 86400000000
  let offset := z.utcoffset false wall
  decide (-86400000000 < offset ∧ offset < 86400000000) && representable (wall - offset)

/-- The event has instants, or names no zone that could give its days any. -/
def placeable (p : Platform) (event : CalendarEventRevision) : Bool :=
  match event.timing, event.sourceTimezone with
  | .allDay start stop, some name =>
      match p.zoneInfo name with
      | .found z => hasMidnight z start && hasMidnight z stop
      | .notFound => true
      | .malformed => false
  | _, _ => true

variable {p : Platform} {db db' : Store} {event : CalendarEventRevision}
  {run : CalendarSyncRun}

theorem midnight_isOk (z : Zone) (day : Date) :
    (midnight z day).toOption.isSome = hasMidnight z day := by
  unfold midnight hasMidnight
  simp only [← and_assoc]
  split
  · next h => rw [decide_eq_true h.1, h.2]; rfl
  · next h =>
      rw [not_and_or] at h
      rcases h with h | h
      · rw [decide_eq_false h]
        rfl
      · rw [Bool.not_eq_true] at h
        rw [h, Bool.and_false]
        rfl

theorem extent_isOk (p : Platform) (event : CalendarEventRevision) :
    (extent p event).toOption.isSome = placeable p event := by
  unfold extent placeable
  cases event.timing with
  | timed start stop => rfl
  | allDay start stop =>
      cases event.sourceTimezone with
      | none => rfl
      | some name =>
          simp only []
          cases p.zoneInfo name with
          | notFound | malformed => rfl
          | found z =>
              simp only []
              rw [← midnight_isOk, ← midnight_isOk]
              cases midnight z start with
              | error e => rfl
              | ok a => cases midnight z stop <;> rfl

/-- Where the days can be placed the query looks for the latest run that applies. -/
theorem scan_placeable {x : Option (Instant × Instant)} (hx : extent p event = .ok x)
    (runs : List CalendarSyncRun) :
    scan p db event runs =
      match runs.find? (applies p db event) with
      | none => .error .notFound
      | some run => evidence (if observed db event run then .current else .stale) run := by
  induction runs with
  | nil => rfl
  | cons run rest ih =>
      have happlies : applies p db event run = (observed db event run || overlaps run x) := by
        rw [applies, hx]
        rfl
      rw [scan, List.find?_cons, happlies]
      cases hseen : observed db event run with
      | true =>
          simp only [Bool.true_or, if_true]
          rw [hseen, if_pos rfl]
      | false =>
          rw [covered, hx]
          cases hcovers : overlaps run x with
          | true =>
              simp only [Bool.or_true]
              rw [hseen]
              simp [Except.map, hcovers, bind, Except.bind]
          | false =>
              simp only [Bool.or_false]
              rw [← ih]
              simp [Except.map, hcovers, bind, Except.bind]

theorem effectiveEvidence_placeable (h : placeable p event = true) (db : Store) :
    effectiveEvidence p db event =
      match latest stamp (applies p db event) (lineage db event) with
      | none => .error .notFound
      | some run => evidence (if observed db event run then .current else .stale) run := by
  rw [← extent_isOk] at h
  cases hx : extent p event with
  | error e => rw [hx] at h; cases h
  | ok x => exact scan_placeable hx _

theorem stamp_injective (hdb : db.Keyed) : ∀ a ∈ lineage db event, ∀ b ∈ lineage db event,
    stamp a = stamp b → a = b := by
  intro a ha b hb hstamp
  have hid : a.id.toNat = b.id.toNat := congrArg (fun k => (ofLex k).2) hstamp
  exact List.inj_on_of_nodup_map hdb.runIds (List.mem_of_mem_filter ha)
    (List.mem_of_mem_filter hb) (BitVec.eq_of_toNat_eq hid)

theorem lineage_mem : run ∈ lineage db event ↔ run ∈ db.runs ∧
    run.accountRevisionId = event.accountRevisionId ∧
      run.calendarIdentityId = event.calendarIdentityId ∧ eligible db run = true := by
  rw [lineage, List.mem_filter, Bool.and_eq_true, Bool.and_eq_true, beq_iff_eq, beq_iff_eq,
    and_assoc]

theorem eligible_terminal (h : eligible db run = true) : run.status.isTerminal = true := by
  unfold eligible at h
  simp only [Bool.and_eq_true, decide_eq_true_eq] at h
  rw [h.1.1.1]
  rfl

/-- A run is added with its observations. It is not eligible, or does not apply. -/
structure AddsInert (p : Platform) (event : CalendarEventRevision) (db db' : Store) : Prop where
  added : ∃ run observations revisions,
    (∀ r ∈ db.runs, r.id ≠ run.id) ∧
    (∀ o ∈ observations, CalendarEventObservation.syncRunId o = run.id) ∧
    db'.runs = db.runs ++ [run] ∧ db'.observations = db.observations ++ observations ∧
    db'.revisions = db.revisions ++ revisions ∧
    (eligible db' run = false ∨ applies p db' event run = false)

/-- The same rows, in whatever order they lie. -/
structure SameRows (db db' : Store) : Prop where
  runs : db'.runs.Perm db.runs
  observations : db'.observations.Perm db.observations
  revisions : db'.revisions.Perm db.revisions

/-- What the query says of an event is the latest evidence, which neither a run
without evidence on the event nor asking again changes. -/
structure Faithful (p : Platform) (db : Store) (event : CalendarEventRevision) : Prop where
  exact : ∀ state t id, effectiveEvidence p db event = .ok (state, t, id) ↔
    ∃ run, Effective p db event state run ∧ run.completedAt = some t ∧ run.id = id
  inert : ∀ db', AddsInert p event db db' →
    effectiveEvidence p db' event = effectiveEvidence p db event
  again : ∀ db', SameRows db db' →
    effectiveEvidence p db' event = effectiveEvidence p db event

theorem latestApplicable_iff (hdb : db.Keyed) :
    latest stamp (applies p db event) (lineage db event) = some run ↔
      LatestApplicable p db event run := by
  rw [latest_eq_some_iff (stamp_injective hdb)]
  exact ⟨fun ⟨h₁, h₂, h₃⟩ => ⟨h₁, h₂, h₃⟩, fun h => ⟨h.eligible, h.applies, h.latest⟩⟩

theorem effectiveEvidence_exact (hdb : db.Keyed) (hplace : placeable p event = true)
    (state : EffectiveState) (t : Instant) (id : Uuid) :
    effectiveEvidence p db event = .ok (state, t, id) ↔
      ∃ run, Effective p db event state run ∧ run.completedAt = some t ∧ run.id = id := by
  rw [effectiveEvidence_placeable hplace]
  cases hlatest : latest stamp (applies p db event) (lineage db event) with
  | none =>
      refine ⟨nofun, fun ⟨run, heffective, _⟩ => ?_⟩
      rw [(latestApplicable_iff hdb).mpr heffective.1] at hlatest
      cases hlatest
  | some run =>
      have hrun := (latestApplicable_iff hdb).mp hlatest
      obtain ⟨hmem, -, -, hok⟩ := lineage_mem.mp hrun.eligible
      have hdone := hdb.completion run hmem
      rw [eligible_terminal hok] at hdone
      obtain ⟨done, hdone⟩ := Option.isSome_iff_exists.mp hdone.symm
      simp only [evidence, hdone]
      constructor
      · intro h
        cases h
        exact ⟨run, ⟨hrun, rfl⟩, hdone, rfl⟩
      · rintro ⟨run', ⟨hrun', rfl⟩, hdone', rfl⟩
        have hsame : run = run' := Option.some.inj
          (hlatest.symm.trans ((latestApplicable_iff hdb).mpr hrun'))
        subst hsame
        rw [hdone, Option.some.injEq] at hdone'
        rw [hdone']

/-! ## What makes no difference -/

theorem observed_append {observations : List CalendarEventObservation} {added : CalendarSyncRun}
    (hobservations : db'.observations = db.observations ++ observations)
    (hown : ∀ o ∈ observations, o.syncRunId = added.id) (hne : run.id ≠ added.id) :
    observed db' event run = observed db event run := by
  rw [observed, hobservations, List.any_append, observed]
  have hnone : observations.any
      (fun o => o.syncRunId == run.id && o.occurrenceKey == event.occurrenceKey) = false := by
    rw [List.any_eq_false]
    intro o ho hsame
    rw [Bool.and_eq_true, beq_iff_eq] at hsame
    exact hne (hsame.1.symm.trans (hown o ho))
  rw [hnone, Bool.or_false]

theorem eligible_append {observations : List CalendarEventObservation} {added : CalendarSyncRun}
    (hobservations : db'.observations = db.observations ++ observations)
    (hown : ∀ o ∈ observations, o.syncRunId = added.id) (hne : run.id ≠ added.id) :
    eligible db' run = eligible db run := by
  have hnone : observations.countP (·.syncRunId == run.id) = 0 := by
    rw [List.countP_eq_zero]
    intro o ho hsame
    exact hne ((beq_iff_eq.mp hsame).symm.trans (hown o ho))
  rw [eligible, hobservations, List.countP_append, hnone, Nat.add_zero, eligible]

/-- The query answers the same where the same runs apply, in the same way. -/
theorem effectiveEvidence_congr (hdb : db.Keyed) (hplace : placeable p event = true)
    (hsame : ∀ run, run ∈ lineage db' event ∧ applies p db' event run = true ↔
      run ∈ lineage db event ∧ applies p db event run = true)
    (hobserved : ∀ run ∈ lineage db event, observed db' event run = observed db event run) :
    effectiveEvidence p db' event = effectiveEvidence p db event := by
  rw [effectiveEvidence_placeable hplace, effectiveEvidence_placeable hplace,
    latest_congr (stamp_injective hdb) hsame]
  cases hlatest : latest stamp (applies p db event) (lineage db event) with
  | none => rfl
  | some run =>
      simp only []
      rw [hobserved run (latest_spec hlatest).1]

theorem effectiveEvidence_inert (hdb : db.Keyed) (hplace : placeable p event = true)
    (hadds : AddsInert p event db db') :
    effectiveEvidence p db' event = effectiveEvidence p db event := by
  obtain ⟨added, observations, revisions, hnew, hown, hruns, hobservations, -, hinert⟩ :=
    hadds.added
  have hsame : ∀ run ∈ db.runs, observed db' event run = observed db event run ∧
      eligible db' run = eligible db run := fun run hrun =>
    ⟨observed_append hobservations hown (hnew run hrun),
      eligible_append hobservations hown (hnew run hrun)⟩
  refine effectiveEvidence_congr hdb hplace (fun run => ?_) fun run hrun =>
    (hsame run (lineage_mem.mp hrun).1).1
  constructor
  · rintro ⟨hmem, happlies⟩
    obtain ⟨hrun, haccount, hcalendar, hok⟩ := lineage_mem.mp hmem
    rw [hruns, List.mem_append, List.mem_singleton] at hrun
    rcases hrun with hrun | rfl
    · obtain ⟨hseen, helig⟩ := hsame run hrun
      exact ⟨lineage_mem.mpr ⟨hrun, haccount, hcalendar, helig ▸ hok⟩,
        by rw [applies, ← hseen]; exact happlies⟩
    · rcases hinert with h | h
      · rw [hok] at h
        cases h
      · rw [happlies] at h
        cases h
  · rintro ⟨hmem, happlies⟩
    obtain ⟨hrun, haccount, hcalendar, hok⟩ := lineage_mem.mp hmem
    obtain ⟨hseen, helig⟩ := hsame run hrun
    refine ⟨lineage_mem.mpr ⟨?_, haccount, hcalendar, helig ▸ hok⟩, ?_⟩
    · rw [hruns]
      exact List.mem_append_left _ hrun
    · rw [applies, hseen]
      exact happlies

theorem effectiveEvidence_again (hdb : db.Keyed) (hplace : placeable p event = true)
    (hrows : SameRows db db') : effectiveEvidence p db' event = effectiveEvidence p db event := by
  have hseen : ∀ run, observed db' event run = observed db event run := fun run =>
    hrows.observations.any_eq
  have helig : ∀ run, eligible db' run = eligible db run := fun run => by
    rw [eligible, hrows.observations.countP_eq, eligible]
  refine effectiveEvidence_congr hdb hplace (fun run => ?_) fun run _ => hseen run
  rw [lineage_mem, lineage_mem, hrows.runs.mem_iff, helig, applies, hseen, applies]

/-! ## An event whose days cannot be placed -/

/-- The newest run did not observe the event, so its window is asked for. -/
theorem scan_breaks_off {e : QueryFault} (hx : extent p event = .error e)
    {rest : List CalendarSyncRun} (hseen : observed db event run = false) :
    scan p db event (run :: rest) = .error e := by
  rw [scan, hseen, covered, hx]
  rfl

/-- A run of the calendar the event is from, the `n`-th, which has succeeded. -/
def sampleEligible (event : CalendarEventRevision) (n : Nat) (itemsSeen : Nat) :
    CalendarSyncRun :=
  { id := BitVec.ofNat 128 n
    accountRevisionId := event.accountRevisionId
    calendarIdentityId := event.calendarIdentityId
    projectId := event.projectId
    windowStart := 0
    windowEnd := 1
    status := .succeeded
    completeness := .complete
    itemsSeen := itemsSeen
    itemsWritten := itemsSeen
    observationEvidenceVersion := some evidenceVersion
    createdAt := n
    startedAt := some n
    completedAt := some n }

/-- The first run observed the event, the second one did not. -/
def samplePassed (event : CalendarEventRevision) : Store :=
  { accounts :=
      [{ id := event.accountRevisionId
         configurationId := 0
         configurationRevision := 1
         accountFingerprint := ""
         credentialReference := ""
         projectId := event.projectId
         lifecycle := .enabled
         configurationState := .configured }]
    runs := [sampleEligible event 1 1, sampleEligible event 2 0]
    revisions := [event]
    observations :=
      [{ id := 0
         syncRunId := 1
         accountRevisionId := event.accountRevisionId
         calendarIdentityId := event.calendarIdentityId
         occurrenceKey := event.occurrenceKey
         eventRevisionId := event.id
         observedAt := 1 }] }

theorem samplePassed_keyed (event : CalendarEventRevision) : (samplePassed event).Keyed where
  runIds := by
    show [(1 : Uuid), 2].Nodup
    decide
  completion run hrun := by
    rcases List.mem_cons.mp hrun with rfl | hrun
    · rfl
    · rcases List.mem_cons.mp hrun with rfl | hrun
      · rfl
      · cases hrun

theorem samplePassed_shown (event : CalendarEventRevision) :
    event ∈ shown (samplePassed event) event.projectId := by
  simp [shown, samplePassed, latestPositive, eligibleObservations, Store.run?, eligible,
    sampleEligible, latest, newestFirst, sameOccurrence]

theorem samplePassed_lineage (event : CalendarEventRevision) :
    run ∈ lineage (samplePassed event) event ↔
      run = sampleEligible event 1 1 ∨ run = sampleEligible event 2 0 := by
  rw [lineage_mem]
  constructor
  · rintro ⟨hrun, -⟩
    simpa [samplePassed] using hrun
  · rintro (rfl | rfl) <;> simp [samplePassed, sampleEligible, eligible]

theorem samplePassed_observed (event : CalendarEventRevision) :
    observed (samplePassed event) event (sampleEligible event 1 1) = true ∧
      observed (samplePassed event) event (sampleEligible event 2 0) = false := by
  simp [observed, samplePassed, sampleEligible]

/-- The first run is the latest that applies, if the event has no extent. -/
theorem samplePassed_effective {e : QueryFault} (hx : extent p event = .error e) :
    Effective p (samplePassed event) event .current (sampleEligible event 1 1) := by
  obtain ⟨hfirst, hsecond⟩ := samplePassed_observed event
  refine ⟨⟨(samplePassed_lineage event).mpr (.inl rfl), ?_, fun other hother happlies => ?_⟩, ?_⟩
  · rw [applies, hfirst, Bool.true_or]
  · rcases (samplePassed_lineage event).mp hother with rfl | rfl
    · exact le_rfl
    · rw [applies, hsecond, hx] at happlies
      cases happlies
  · rw [hfirst, if_pos rfl]

/-- The query asks for the window of the second run and breaks off. -/
theorem samplePassed_breaks_off {e : QueryFault} (hx : extent p event = .error e) :
    effectiveEvidence p (samplePassed event) event = .error e := by
  have hmem : sampleEligible event 2 0 ∈ newestFirst stamp (lineage (samplePassed event) event) :=
    mem_newestFirst.mpr ((samplePassed_lineage event).mpr (.inr rfl))
  have hsorted := newestFirst_pairwise stamp (lineage (samplePassed event) event)
  rw [effectiveEvidence]
  cases hruns : newestFirst stamp (lineage (samplePassed event) event) with
  | nil =>
      rw [hruns] at hmem
      cases hmem
  | cons first rest =>
      have hfirst : first ∈ lineage (samplePassed event) event :=
        mem_newestFirst.mp (hruns ▸ List.mem_cons_self)
      rcases (samplePassed_lineage event).mp hfirst with rfl | rfl
      · -- the second run is the newer one
        rw [hruns] at hmem hsorted
        rcases List.mem_cons.mp hmem with h | h
        · exact absurd (congrArg (·.itemsSeen) h) (by simp [sampleEligible])
        · exact absurd ((List.pairwise_cons.mp hsorted).1 _ h) (by
            simp [stamp, sampleEligible, Prod.Lex.toLex_le_toLex])
      · exact scan_breaks_off hx (samplePassed_observed event).2

/-- For every history of the runs of its calendar, what the query says of a shown
event is its latest evidence, exactly if its days can be placed. -/
theorem effective_state_exact (p : Platform) (event : CalendarEventRevision) :
    (∀ db scope, db.Keyed → event ∈ shown db scope → Faithful p db event) ↔
      placeable p event = true := by
  constructor
  · intro h
    by_contra hplace
    rw [← extent_isOk, Bool.not_eq_true] at hplace
    cases hx : extent p event with
    | ok x => rw [hx] at hplace; cases hplace
    | error e =>
        have hfaithful := h _ _ (samplePassed_keyed event) (samplePassed_shown event)
        have hcurrent := (hfaithful.exact .current 1 1).mpr
          ⟨_, samplePassed_effective hx, rfl, rfl⟩
        rw [samplePassed_breaks_off hx] at hcurrent
        cases hcurrent
  · intro hplace db scope hdb _
    exact ⟨effectiveEvidence_exact hdb hplace, fun db' => effectiveEvidence_inert hdb hplace,
      fun db' => effectiveEvidence_again hdb hplace⟩

/-- No zone has a key that starts with a slash. -/
def slashPlatform : Platform :=
  { zoneInfo := fun name => if name.startsWith "/" then .malformed else .notFound
    sha256 := id }

def sampleDayItem : Json :=
  .obj
    [("id", .str "holiday"),
      ("status", .str "confirmed"),
      ("eventType", .str "default"),
      ("summary", .str "Holiday"),
      ("etag", .str "1"),
      ("updated", .str "2026-09-01T00:00:00Z"),
      ("start", .obj [("date", .str "2026-09-04"), ("timeZone", .str "/Nowhere")]),
      ("end", .obj [("date", .str "2026-09-05")])]

/-- A day with a malformed zone is accepted and shown. When the next run does not
observe it, it has no state, though the latest run that applies did observe it. -/
theorem malformed_zone_hides_state :
    ∃ x, normalized slashPlatform sampleDayItem sampleSyncRun 0 = .ok x ∧
      ∃ event : CalendarEventRevision, event.toEventRevision = x.stored ∧
        (samplePassed event).Keyed ∧ event ∈ shown (samplePassed event) none ∧
        Effective slashPlatform (samplePassed event) event .current (sampleEligible event 1 1) ∧
        effectiveEvidence slashPlatform (samplePassed event) event = .error .other := by
  have haccepted : (normalized slashPlatform sampleDayItem sampleSyncRun 0).toOption.any
      (fun x => x.timing.isAllDay && decide (x.sourceTimezone = some "/Nowhere") &&
        decide (x.projectId = none)) = true := by
    decide +kernel
  cases hx : normalized slashPlatform sampleDayItem sampleSyncRun 0 with
  | error e => rw [hx] at haccepted; cases haccepted
  | ok x =>
      rw [hx] at haccepted
      have haccepted : (x.timing.isAllDay && decide (x.sourceTimezone = some "/Nowhere") &&
        decide (x.projectId = none)) = true := haccepted
      simp only [Bool.and_eq_true, decide_eq_true_eq] at haccepted
      obtain ⟨⟨hday, hzone⟩, hproject⟩ := haccepted
      let event : CalendarEventRevision := ⟨x.stored, 5⟩
      have hextent : extent slashPlatform event = .error .other := by
        show extent slashPlatform ⟨x.stored, 5⟩ = .error .other
        unfold extent EventRevision.stored
        cases htiming : x.timing with
        | timed start stop => rw [htiming] at hday; cases hday
        | allDay start stop =>
            have hslash : "/Nowhere".startsWith "/" = true := by decide +kernel
            have hmalformed : slashPlatform.zoneInfo "/Nowhere" = .malformed := if_pos hslash
            simp only [Timing.map, hzone, hmalformed]
      have hshown := samplePassed_shown event
      rw [show event.projectId = none from hproject] at hshown
      exact ⟨x, rfl, event, rfl, samplePassed_keyed event, hshown,
        samplePassed_effective hextent, samplePassed_breaks_off hextent⟩

end Calendar

end SecondBrain
