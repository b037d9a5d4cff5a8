import SecondBrain.Calendar.SyncSteps

/-!
# Observation evidence

What a refresh accepts from the provider is written down as revisions,
observations and counters. That none of it is lost or counted twice is an
invariant of the tables and of the list of what was accepted (`Evidence`): the
observations are the accepted items in their order, each tied to a revision with
its content, and the revisions of an occurrence are numbered from one on. A page
keeps it as a whole, since it is one transaction.
-/

namespace SecondBrain

open Lib

namespace Calendar

variable {p : Platform} {s s' : SyncState} {db db' : Store} {r : Refresh}
  {l : SyncLabel} {run run' : CalendarSyncRun} {accepted : List AcceptedEvent}
  {event : EventRevision Aware}

/-- The observation is of the item, and points to a revision with its content. -/
structure Observes (revisions : List CalendarEventRevision) (o : CalendarEventObservation)
    (a : AcceptedEvent) : Prop where
  run : o.syncRunId = a.syncRunId
  occurrence : a.event.isOf o.calendarIdentityId o.occurrenceKey = true
  revision : ∃ r ∈ revisions, r.id = o.eventRevisionId ∧
    r.isOf o.calendarIdentityId o.occurrenceKey = true ∧ r.contentHash = a.event.contentHash

/-- The revisions of every occurrence are numbered without a gap, and differ. -/
structure Numbered (db : Store) : Prop where
  ids : (db.revisions.map (·.id)).Nodup
  numbers : ∀ c k, (db.versions c k).map (·.applicationRevision) =
    List.range' 1 (db.versions c k).length
  contents : ∀ c k, ((db.versions c k).map (·.contentHash)).Nodup

/-- The observations are of what was accepted, and no run has two of one key. -/
structure Linked (db : Store) (accepted : List AcceptedEvent) : Prop where
  observed : List.Forall₂ (Observes db.revisions) db.observations accepted
  once : (db.observations.map fun o => (o.syncRunId, o.occurrenceKey)).Nodup

/-! ## Recording -/

theorem versions_append {row : CalendarEventRevision} (c : Uuid) (k : String) :
    Store.versions { db with revisions := db.revisions ++ [row] } c k =
      db.versions c k ++ if row.isOf c k then [row] else [] := by
  rw [Store.versions, List.filter_append, Store.versions, List.filter_cons, List.filter_nil]

theorem isOf_iff {τ : Type} {x : EventRevision τ} {c : Uuid} {k : String} :
    x.isOf c k = true ↔ x.calendarIdentityId = c ∧ x.occurrenceKey = k := by
  rw [EventRevision.isOf, Bool.and_eq_true, beq_iff_eq, beq_iff_eq]

theorem nextRevision_number {seenAt : Instant} {id : Uuid} (h : Numbered db) :
    (nextRevision db event seenAt id).applicationRevision =
      (db.versions event.calendarIdentityId event.occurrenceKey).length + 1 :=
  latest_numbered (h.numbers event.calendarIdentityId event.occurrenceKey)

theorem Numbered.revise {stored : CalendarEventRevision} {created : Bool} (h : Numbered db)
    (hrevised : Revised db event db' stored created) : Numbered db' := by
  cases hrevised with
  | replayed => exact h
  | @added seenAt id hcontent hfresh =>
      have hrow : ∀ c k, (nextRevision db event seenAt id).isOf c k = true →
          c = event.calendarIdentityId ∧ k = event.occurrenceKey := by
        intro c k hof
        obtain ⟨rfl, rfl⟩ := isOf_iff.mp hof
        exact ⟨rfl, rfl⟩
      refine ⟨?_, fun c k => ?_, fun c k => ?_⟩
      · show ((db.revisions ++ [nextRevision db event seenAt id]).map (·.id)).Nodup
        rw [List.map_append, List.nodup_append]
        refine ⟨h.ids, List.nodup_singleton _, fun a ha b hb => ?_⟩
        obtain ⟨old, hold, rfl⟩ := List.mem_map.mp ha
        rw [List.map_singleton, List.mem_singleton] at hb
        exact hb ▸ hfresh old hold
      · rw [versions_append]
        split
        · next hof =>
            obtain ⟨rfl, rfl⟩ := hrow c k hof
            rw [List.map_append, h.numbers, List.map_singleton, nextRevision_number h,
              List.length_append, List.length_singleton, List.range'_1_concat, Nat.add_comm 1]
        · rw [List.append_nil]
          exact h.numbers c k
      · rw [versions_append]
        split
        · next hof =>
            obtain ⟨rfl, rfl⟩ := hrow c k hof
            rw [List.map_append, List.nodup_append]
            refine ⟨h.contents _ _, List.nodup_singleton _, fun a ha b hb => ?_⟩
            obtain ⟨old, hold, rfl⟩ := List.mem_map.mp ha
            rw [List.map_singleton, List.mem_singleton] at hb
            exact hb ▸ hcontent old hold
        · rw [List.append_nil]
          exact h.contents c k

theorem Observes.mono {revisions revisions' : List CalendarEventRevision}
    (hsub : revisions ⊆ revisions') {o : CalendarEventObservation} {a : AcceptedEvent}
    (h : Observes revisions o a) : Observes revisions' o a := by
  obtain ⟨r, hr, hrest⟩ := h.revision
  exact ⟨h.run, h.occurrence, r, hsub hr, hrest⟩

/-- What was recorded of an event. -/
theorem Revised.stored {stored : CalendarEventRevision} {created : Bool}
    (h : Revised db event db' stored created) :
    db.revisions ⊆ db'.revisions ∧ stored ∈ db'.revisions ∧
      stored.isOf event.calendarIdentityId event.occurrenceKey = true ∧
      stored.contentHash = event.contentHash ∧ db'.observations = db.observations := by
  cases h with
  | replayed hmem hhash =>
      obtain ⟨hmem, hof⟩ := List.mem_filter.mp hmem
      exact ⟨fun _ => id, hmem, hof, hhash, rfl⟩
  | added =>
      exact ⟨List.subset_append_left _ _, List.mem_append_right _ (List.mem_singleton.mpr rfl),
        isOf_iff.mpr ⟨rfl, rfl⟩, rfl, rfl⟩

theorem Linked.record {db₁ : Store} {stored : CalendarEventRevision} {created : Bool}
    {o : CalendarEventObservation} {a : AcceptedEvent} (h : Linked db accepted)
    (hrevised : Revised db event db₁ stored created)
    (hnew : ∀ o ∈ db₁.observations, o.syncRunId = run.id → o.occurrenceKey ≠ stored.occurrenceKey)
    (hties : o.Ties run stored) (hrun : a.syncRunId = run.id) (hevent : a.event = event.stored) :
    Linked { db₁ with observations := db₁.observations ++ [o] } (accepted ++ [a]) := by
  obtain ⟨hsub, hmem, hof, hhash, hobservations⟩ := hrevised.stored
  obtain ⟨hties₁, -, hties₂, hties₃⟩ := hties
  obtain ⟨hcalendar, hkey⟩ := isOf_iff.mp hof
  obtain ⟨hcalendar', hkey'⟩ := isOf_iff.mp hties₂
  refine ⟨?_, ?_⟩
  · show List.Forall₂ (Observes db₁.revisions) (db₁.observations ++ [o]) (accepted ++ [a])
    rw [hobservations]
    refine List.rel_append (h.observed.imp fun o a => Observes.mono hsub) (.cons ?_ .nil)
    refine ⟨hties₁.trans hrun.symm, ?_, stored, hmem, hties₃.symm, hties₂, ?_⟩
    · rw [hevent, isOf_iff, ← hcalendar', ← hkey', hcalendar, hkey]
      exact ⟨rfl, rfl⟩
    · rw [hhash, hevent]
      rfl
  · show ((db₁.observations ++ [o]).map fun o => (o.syncRunId, o.occurrenceKey)).Nodup
    rw [List.map_append, List.nodup_append, hobservations]
    refine ⟨h.once, List.nodup_singleton _, fun x hx y hy hxy => ?_⟩
    obtain ⟨old, hold, rfl⟩ := List.mem_map.mp hx
    rw [List.map_singleton, List.mem_singleton] at hy
    rw [hy, Prod.mk.injEq] at hxy
    exact hnew old (hobservations ▸ hold) (hxy.1.trans hties₁) (hxy.2.trans hkey'.symm)

theorem recordAll_linked {now : Instant} {ids : Nat → Uuid × Uuid} {n : Nat}
    {events : List (EventRevision Aware)} {f : EventRevision Aware → AcceptedEvent}
    (hf : ∀ e, (f e).syncRunId = run.id ∧ (f e).event = e.stored)
    (hnumbered : Numbered db) (h : Linked db accepted) :
    Ensures (recordAll run now ids n events db) fun x =>
      Numbered x.1 ∧ Linked x.1 (accepted ++ events.map f) := by
  induction events generalizing n db accepted with
  | nil =>
      rw [recordAll, List.map_nil, List.append_nil]
      exact Ensures.ok_iff.mpr ⟨hnumbered, h⟩
  | cons event rest ih =>
      rw [recordAll, List.map_cons, List.append_cons]
      refine recordEventRevision_spec.bind fun x hx => ?_
      obtain ⟨db₁, stored, created⟩ := x
      refine recordEventObservation_spec.bind fun db₂ h₂ => ?_
      obtain ⟨hnew, o, hties, rfl⟩ := h₂
      have hlinked := h.record hx hnew hties (hf event).1 (hf event).2
      have hrevised := hnumbered.revise hx
      have hnumbered₂ : Numbered { db₁ with observations := db₁.observations ++ [o] } :=
        ⟨hrevised.ids, hrevised.numbers, hrevised.contents⟩
      exact (ih hnumbered₂ hlinked).bind fun y hy => Ensures.pure_iff.mpr hy

/-! ## The invariant -/

/-- What a run has counted. -/
def CalendarSyncRun.work (run : CalendarSyncRun) : Uuid × Nat × Nat × Nat :=
  (run.id, run.itemsSeen, run.itemsWritten, run.itemsUnchanged)

structure Evidence (db : Store) (accepted : List AcceptedEvent) : Prop where
  numbered : Numbered db
  linked : Linked db accepted
  seen : ∀ run ∈ db.runs, run.itemsSeen = db.observationCount run.id
  parts : ∀ run ∈ db.runs, run.itemsSeen = run.itemsWritten + run.itemsUnchanged
  known : ∀ o ∈ db.observations, o.syncRunId ∈ db.runs.map (·.id)

/-- Runs that have the same work may differ in the rest. -/
theorem Evidence.replaceRun (h : Evidence db accepted) (hrun : run ∈ db.runs)
    (hwork : run'.work = run.work) : Evidence (db.replaceRun run') accepted := by
  obtain ⟨hid, hseen, hwritten, hunchanged⟩ : run'.id = run.id ∧ run'.itemsSeen = run.itemsSeen ∧
      run'.itemsWritten = run.itemsWritten ∧ run'.itemsUnchanged = run.itemsUnchanged := by
    simpa [CalendarSyncRun.work] using hwork
  refine ⟨⟨h.numbered.ids, h.numbered.numbers, h.numbered.contents⟩,
    ⟨h.linked.observed, h.linked.once⟩, fun x hx => ?_, fun x hx => ?_, fun o ho => ?_⟩
  · show x.itemsSeen = db.observationCount x.id
    rcases mem_replaceRun.mp hx with ⟨rfl, -⟩ | ⟨hx, -⟩
    · rw [hseen, hid, h.seen run hrun]
    · exact h.seen x hx
  · rcases mem_replaceRun.mp hx with ⟨rfl, -⟩ | ⟨hx, -⟩
    · rw [hseen, hwritten, hunchanged, h.parts run hrun]
    · exact h.parts x hx
  · rw [replaceRun_ids]
    exact h.known o ho

theorem Evidence.claim {account : CalendarAccountRevision} {captured now : Instant}
    {new : List CalendarSyncRun} (h : Evidence db accepted)
    (hnew : ∀ run ∈ new, run.Checked ∧ ∃ id calendar,
      run = claimedRun account captured now id calendar)
    (hids : ((db.runs ++ new).map (·.id)).Nodup) :
    Evidence { db with runs := db.runs ++ new } accepted := by
  rw [List.map_append, List.nodup_append] at hids
  obtain ⟨-, -, hapart⟩ := hids
  refine ⟨⟨h.numbered.ids, h.numbered.numbers, h.numbered.contents⟩,
    ⟨h.linked.observed, h.linked.once⟩, fun run hrun => ?_, fun run hrun => ?_, fun o ho => ?_⟩
  · show run.itemsSeen = db.observationCount run.id
    rcases List.mem_append.mp hrun with hold | hadded
    · exact h.seen run hold
    · have hnone : db.observationCount run.id = 0 := by
        rw [Store.observationCount, List.countP_eq_zero]
        intro o ho hsame
        exact hapart _ (h.known o ho) _ (List.mem_map_of_mem hadded) (beq_iff_eq.mp hsame)
      obtain ⟨-, id, calendar, rfl⟩ := hnew run hadded
      exact hnone.symm
  · rcases List.mem_append.mp hrun with hold | hadded
    · exact h.parts run hold
    · obtain ⟨-, id, calendar, rfl⟩ := hnew run hadded
      rfl
  · show o.syncRunId ∈ (db.runs ++ new).map (·.id)
    rw [List.map_append]
    exact List.mem_append_left _ (h.known o ho)

/-- A page is recorded and counted. -/
theorem Evidence.page {now : Instant} {ids : Nat → Uuid × Uuid} {written : Nat}
    {events : List (EventRevision Aware)} (h : Evidence db accepted) (hrun : run ∈ db.runs)
    (hrecord : recordAll run now ids 0 events db = .ok (db', written)) :
    Evidence (db'.replaceRun (run.counting events.length written))
      (accepted ++ acceptAll accepted run events) := by
  obtain ⟨hnumbered, hlinked⟩ := recordAll_linked (f := fun event =>
    ⟨run.id, event.stored, outOfOrder accepted event.stored⟩) (fun e => ⟨rfl, rfl⟩)
    h.numbered h.linked _ hrecord
  obtain ⟨⟨revisions, observations, hdb, hlength, hown⟩, hwritten⟩ := recordAll_adds _ hrecord
  have hruns : db'.runs = db.runs := by
    rw [show db' = _ from hdb]
  have hobservations : db'.observations = db.observations ++ observations := by
    rw [show db' = _ from hdb]
  -- the run has made one more observation for each event, no other run has made any
  have hcount : ∀ id, db'.observationCount id =
      db.observationCount id + if id = run.id then events.length else 0 := by
    intro id
    rw [Store.observationCount, hobservations, List.countP_append, Store.observationCount]
    split
    · next hid =>
        have hall : observations.countP (·.syncRunId == id) = observations.length := by
          rw [List.countP_eq_length]
          intro o ho
          rw [beq_iff_eq, hid]
          exact hown o ho
        rw [hall, hlength]
    · next hid =>
        have hnone : observations.countP (·.syncRunId == id) = 0 := by
          rw [List.countP_eq_zero]
          intro o ho hsame
          exact hid ((beq_iff_eq.mp hsame).symm.trans (hown o ho))
        rw [hnone]
  refine ⟨⟨hnumbered.ids, hnumbered.numbers, hnumbered.contents⟩,
    ⟨hlinked.observed, hlinked.once⟩, fun x hx => ?_, fun x hx => ?_, fun o ho => ?_⟩
  · show x.itemsSeen = db'.observationCount x.id
    rw [hcount]
    rcases mem_replaceRun.mp hx with ⟨rfl, -⟩ | ⟨hx, hne⟩
    · show run.itemsSeen + events.length = _
      rw [h.seen run hrun]
      exact congrArg _ (if_pos rfl).symm
    · have hne : x.id ≠ run.id := hne
      rw [if_neg hne, Nat.add_zero]
      exact h.seen x (hruns ▸ hx)
  · rcases mem_replaceRun.mp hx with ⟨rfl, -⟩ | ⟨hx, -⟩
    · have hparts := h.parts run hrun
      show run.itemsSeen + events.length =
        run.itemsWritten + written + (run.itemsUnchanged + (events.length - written))
      have hwritten : written ≤ events.length := hwritten
      omega
    · exact h.parts x (hruns ▸ hx)
  · rw [replaceRun_ids, hruns]
    have ho : o ∈ db.observations ++ observations := hobservations ▸ ho
    rcases List.mem_append.mp ho with ho | ho
    · exact h.known o ho
    · exact List.mem_map.mpr ⟨run, hrun, (hown o ho).symm⟩

theorem Evidence.advance {call : SyncCall} {done : Progress}
    (h : Evidence s.db s.accepted) (hdone : Advances p s r call done) :
    Evidence done.db (s.accepted ++ done.accepted) := by
  cases hdone with
  | authorized =>
      rw [List.append_nil]
      exact h
  | began hphase hworks hchecked =>
      rw [List.append_nil]
      exact h.replaceRun hworks.mem rfl
  | paged hphase hworks hevents hrecord => exact h.page hworks.mem hrecord
  | finished hphase hworks =>
      rw [List.append_nil]
      exact h.replaceRun hworks.mem rfl

theorem Evidence.move (h : Evidence s.db s.accepted) (howned : Owned s)
    (hmove : Moves p s l s') : Evidence s'.db s'.accepted := by
  cases hmove with
  | configured =>
      exact ⟨⟨h.numbered.ids, h.numbered.numbers, h.numbered.contents⟩,
        ⟨h.linked.observed, h.linked.once⟩, h.seen, h.parts, h.known⟩
  | claimed hnew hids => exact h.claim hnew (hids howned.runIds)
  | advanced hr hdone => exact h.advance (attempt_advances hdone)
  | settled hr hphase hdone =>
      refine finishAll_keeps (P := fun db => Evidence db s.accepted)
        (fun db claimed run n _ hdb hrun _ => ?_) h _ hdone
      exact hdb.replaceRun (run?_mem hrun).1 rfl
  | faulted | raised | stopped => exact h

theorem Evidence.empty : Evidence {} [] where
  numbered := ⟨List.nodup_nil, fun _ _ => rfl, fun _ _ => List.nodup_nil⟩
  linked := ⟨.nil, List.nodup_nil⟩
  seen _ hrun := absurd hrun List.not_mem_nil
  parts _ hrun := absurd hrun List.not_mem_nil
  known _ ho := absurd ho List.not_mem_nil

theorem evidence_kept {ok : SyncState → SyncLabel → Prop} (h : (Sync.machine p).Reach ok s) :
    Evidence s.db s.accepted := by
  refine h.invariant (I := fun s => Evidence s.db s.accepted) (fun s hs => ?_)
    fun s l s' hr _ hs hstep => Evidence.move hs (owned hr) (step_moves hstep)
  have hs : s = {} := hs
  subst hs
  exact Evidence.empty

/-! ## What it says of a run -/

def observationsOf (s : SyncState) (run : CalendarSyncRun) : List CalendarEventObservation :=
  s.db.observations.filter (·.syncRunId == run.id)

def acceptedIn (s : SyncState) (run : CalendarSyncRun) : List AcceptedEvent :=
  s.accepted.filter (·.syncRunId == run.id)

/-- The run has one observation of every occurrence it accepted, which points to
a revision with the content that was accepted, and has counted them. -/
structure RunEvidence (s : SyncState) (run : CalendarSyncRun) : Prop where
  observed : List.Forall₂ (Observes s.db.revisions) (observationsOf s run) (acceptedIn s run)
  keys : (observationsOf s run).map (·.occurrenceKey) =
    (acceptedIn s run).map (·.event.occurrenceKey)
  once : ((observationsOf s run).map (·.occurrenceKey)).Nodup
  seen : run.itemsSeen = (observationsOf s run).length
  parts : run.itemsSeen = run.itemsWritten + run.itemsUnchanged

theorem Evidence.ofRun (h : Evidence s.db s.accepted) (hrun : run ∈ s.db.runs) :
    RunEvidence s run := by
  have hobserved : List.Forall₂ (Observes s.db.revisions) (observationsOf s run)
      (acceptedIn s run) :=
    List.rel_filter (fun o a hoa => by
      show (o.syncRunId == run.id) = true ↔ (a.syncRunId == run.id) = true
      rw [hoa.run]) h.linked.observed
  refine ⟨hobserved, ?_, ?_, ?_, h.parts run hrun⟩
  · rw [← List.forall₂_eq_eq_eq, List.forall₂_map_left_iff, List.forall₂_map_right_iff]
    exact hobserved.imp fun o a hoa => (isOf_iff.mp hoa.occurrence).2.symm
  · -- the observations of one run differ in the key
    have hpairs : ((observationsOf s run).map fun o => (o.syncRunId, o.occurrenceKey)).Nodup :=
      h.linked.once.sublist (List.filter_sublist.map _)
    have hsame : ((observationsOf s run).map fun o => (o.syncRunId, o.occurrenceKey)) =
        ((observationsOf s run).map (·.occurrenceKey)).map fun key => (run.id, key) := by
      rw [List.map_map]
      refine List.map_congr_left fun o ho => ?_
      rw [show o.syncRunId = run.id from beq_iff_eq.mp (List.mem_filter.mp ho).2]
      rfl
    rw [hsame] at hpairs
    exact hpairs.of_map _
  · rw [h.seen run hrun, Store.observationCount, List.countP_eq_length_filter]
    rfl

/-- In every run of any refreshes, each sync run has its evidence, whatever it
ended in, and the revisions of each occurrence are numbered and differ. -/
theorem observation_evidence (h : (Sync.machine p).Reachable s) :
    (∀ run ∈ s.db.runs, RunEvidence s run) ∧ Numbered s.db :=
  ⟨fun _ hrun => (evidence_kept h).ofRun hrun, (evidence_kept h).numbered⟩

/-! ## A sample -/

def sampleAccount : CalendarAccountRevision :=
  { id := 1
    configurationId := 7
    configurationRevision := 1
    accountFingerprint := "0a"
    credentialReference := "sbcred:v1:00000000-0000-4000-8000-000000000000"
    projectId := none
    lifecycle := .enabled
    configurationState := .configured }

/-- A calendar of the sample account. -/
def sampleCalendar (id : Uuid) (providerCalendarId : String) : CalendarIdentity :=
  { id := id
    accountRevisionId := 1
    accountFingerprint := "0a"
    providerCalendarId := providerCalendarId }

/-- The refresh with this number is claimed and gets access. -/
def sampleClaim (pid : Nat) (t : Instant) : List SyncLabel :=
  [.claim 7 1 t t fun n => BitVec.ofNat 128 (100 * pid + n),
    .call pid (.authorize (.ok ⟨"authorized", "0a"⟩) (.ok ()))]

/-- It reads one page for its calendar and finishes. -/
def sampleRefresh (pid : Nat) (t : Instant) (items : List Json) : List SyncLabel :=
  sampleClaim pid t ++
    [.call pid (.beginRun t),
      .call pid (.readPage false (.ok ⟨items, none⟩) t fun n =>
        (BitVec.ofNat 128 (100 * pid + n), BitVec.ofNat 128 (100 * pid + n))),
      .call pid (.finishRun (t + 1))]

theorem observation_evidence_sample :
    ∃ s : SyncState, s.db.runs.any (fun run =>
        decide (run.status = .succeeded) && run.itemsSeen == 2 && run.itemsWritten == 2) = true ∧
      (∀ run ∈ s.db.runs, RunEvidence s run) ∧ Numbered s.db := by
  obtain ⟨s, hs, hrun⟩ := (Sync.machine samplePlatform).exists_reachable_of_exec
    (.configure sampleAccount [sampleCalendar 11 "primary"] ::
      sampleRefresh 0 5
        [sampleItem "2026-09-04T09:00:00+03:00", sampleItem "2026-09-11T09:00:00+03:00"])
    (fun s => s.db.runs.any fun run =>
      decide (run.status = .succeeded) && run.itemsSeen == 2 && run.itemsWritten == 2)
    rfl (by decide +kernel)
  exact ⟨s, hrun, observation_evidence hs⟩

end Calendar

end SecondBrain
