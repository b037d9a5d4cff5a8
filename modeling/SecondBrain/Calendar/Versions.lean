import SecondBrain.Calendar.Query
import SecondBrain.Calendar.Evidence

/-!
# Out-of-order versions

The provider says of each item when it was last updated, but nothing compares
that with what was accepted before: the query shows what the newest succeeded
run observed. So an older version replaces a newer one as soon as the run that
found it succeeds, and as long as no such run does it is never shown
(`versions_in_order`).
-/

namespace SecondBrain

open Lib

namespace Calendar

variable {p : Platform} {s s' : SyncState} {db : Store} {r : Refresh} {l : SyncLabel}
  {run : CalendarSyncRun}

/-- Whether the observation is of an item that was out of order. -/
def SyncState.outdated (s : SyncState) (o : CalendarEventObservation) : Bool :=
  s.accepted.any fun a => a.syncRunId == o.syncRunId &&
    a.event.isOf o.calendarIdentityId o.occurrenceKey && a.outOfOrder

/-- No observation that the query takes for the latest of its occurrence is outdated. -/
def SyncState.InOrder (s : SyncState) : Prop :=
  ∀ o q, latestPositive s.db o = some q → s.outdated q.1 = false

/-- The refresh goes on to finish a run that has observed an item out of order,
and no run that observed the occurrence has been completed later. -/
def settlesOutdated (s : SyncState) (pid : Nat) (now : Instant) : Bool :=
  s.refreshes[pid]?.any fun r =>
    (finishRun s.db r now).toOption.isSome && (current s.db r).toOption.any fun (run, _) =>
      s.db.observations.any fun o => o.syncRunId == run.id && s.outdated o &&
        !(eligibleObservations s.db).any fun q =>
          sameOccurrence q.1 o && decide (toLex (now, run.id.toNat) < stamp q.2)

/-- No run with an item out of order becomes the latest to have succeeded. -/
def keepsOrder (s : SyncState) : SyncLabel → Bool
  | .call pid (.finishRun now) => !settlesOutdated s pid now
  | _ => true

/-! ## Succeeding -/

/-- The run as it is when it has succeeded. -/
def CalendarSyncRun.succeed (run : CalendarSyncRun) (now : Instant) : CalendarSyncRun :=
  { run with observationEvidenceVersion := some evidenceVersion }.finish .succeeded none now

/-- The step finishes this run, and does nothing else to the tables. -/
def Succeeds (s : SyncState) (l : SyncLabel) (s' : SyncState) (run : CalendarSyncRun)
    (now : Instant) : Prop :=
  ∃ pid r, l = .call pid (.finishRun now) ∧ s.refreshes[pid]? = some r ∧ Works s.db r run ∧
    (finishRun s.db r now).toOption.isSome = true ∧ s'.db = s.db.replaceRun (run.succeed now) ∧
    s'.accepted = s.accepted

theorem Works.unique {run' : CalendarSyncRun} (h : Works db r run) (h' : Works db r run') :
    run = run' := by
  obtain ⟨claimed, hclaimed, hrun⟩ := h
  obtain ⟨claimed', hclaimed', hrun'⟩ := h'
  rw [hclaimed, Option.some.injEq] at hclaimed'
  rw [hclaimed', hrun', Option.some.injEq] at hrun
  exact hrun.symm

theorem finishRun_current {now : Instant} (h : (finishRun db r now).toOption.isSome = true)
    (hworks : Works db r run) : ∃ calendar, current db r = .ok (run, calendar) := by
  cases hcurrent : current db r with
  | error e =>
      rw [finishRun, hcurrent] at h
      cases h
  | ok x =>
      have hx := current_works hcurrent
      rw [hworks.unique hx]
      exact ⟨x.2, rfl⟩

/-- No step but the one that finishes a run makes it succeed. -/
theorem Owned.succeeded (h : Owned s) (hmove : Moves p s l s') {x : CalendarSyncRun}
    (hx : x ∈ s'.db.runs) (hdone : x.status = .succeeded) :
    x ∈ s.db.runs ∨ ∃ run now, Succeeds s l s' run now ∧ x = run.succeed now := by
  cases hmove with
  | configured | faulted | raised | stopped => exact .inl hx
  | claimed hnew hids =>
      rcases List.mem_append.mp hx with hx | hx
      · exact .inl hx
      · obtain ⟨-, id, calendar, rfl⟩ := hnew x hx
        cases hdone
  | settled hr hphase hsettle =>
      refine .inl (finishAll_keeps (P := fun db => ∀ x ∈ db.runs, x.status = .succeeded →
        x ∈ s.db.runs) (fun db claimed run n _ hdb _ _ x hx hdone => ?_) (fun x hx _ => hx)
        _ hsettle x hx hdone)
      rcases mem_replaceRun.mp hx with ⟨rfl, -⟩ | ⟨hx, -⟩
      · have hfailed : ∀ code, failureStatus code ≠ .succeeded := by
          intro code
          unfold failureStatus
          split <;> nofun
        exact absurd hdone (hfailed _)
      · exact hdb x hx hdone
  | @advanced pid call r done hr hattempt =>
      have hover := attempt_live hattempt
      have hadvances := attempt_advances hattempt
      cases hadvances with
      | authorized => exact .inl hx
      | began hphase hworks hchecked =>
          rcases mem_replaceRun.mp hx with ⟨rfl, -⟩ | ⟨hx, -⟩
          · cases hdone
          · exact .inl hx
      | paged hphase hworks hevents hrecord hchecked hcont =>
          obtain ⟨⟨revisions, observations, rfl, -⟩, -⟩ := recordAll_adds _ hrecord
          rcases mem_replaceRun.mp hx with ⟨rfl, -⟩ | ⟨hx, -⟩
          · -- the run that a page was counted in is still active
            have hactive := active_iff.mp (hworks.active h hr hover)
            exact absurd (congrArg SyncStatus.isTerminal hdone) hactive
          · exact .inl hx
      | @finished now run hphase hworks hcount hchecked =>
          rcases mem_replaceRun.mp hx with ⟨rfl, -⟩ | ⟨hx, -⟩
          · refine .inr ⟨run, now, ⟨pid, r, rfl, hr, hworks, ?_, rfl, List.append_nil _⟩, rfl⟩
            rw [attempt, if_pos hphase, Option.some.injEq] at hattempt
            rw [hattempt]
            rfl
          · exact .inl hx

/-! ## What the query shows -/

variable {o : CalendarEventObservation} {q : CalendarEventObservation × CalendarSyncRun}

theorem mem_eligibleObservations (hids : (db.runs.map (·.id)).Nodup) :
    q ∈ eligibleObservations db ↔ q.1 ∈ db.observations ∧ q.2 ∈ db.runs ∧
      q.2.id = q.1.syncRunId ∧ eligible db q.2 = true := by
  rw [eligibleObservations, List.mem_filterMap]
  constructor
  · rintro ⟨o, ho, h⟩
    obtain ⟨run, hrun, h⟩ := Option.bind_eq_some_iff.mp h
    obtain ⟨hmem, hid⟩ := run?_mem hrun
    split at h
    · next helig =>
        cases h
        exact ⟨ho, hmem, hid, helig⟩
    · cases h
  · rintro ⟨ho, hrun, hid, helig⟩
    refine ⟨q.1, ho, ?_⟩
    rw [← hid, run?_of_mem hids hrun, Option.bind_some, if_pos helig]

theorem Preserves.eligible (h : Preserves s s') (hrun : run ∈ s.db.runs)
    (hterminal : run.status.isTerminal = true) :
    eligible s'.db run = Calendar.eligible s.db run := by
  obtain ⟨observations, accepted, hobservations, -, hapart⟩ := h.grown
  have hnone : observations.countP (·.syncRunId == run.id) = 0 := by
    rw [List.countP_eq_zero]
    intro o ho hsame
    exact (hapart run hrun hterminal).1 o ho (beq_iff_eq.mp hsame)
  rw [Calendar.eligible, hobservations, List.countP_append, hnone, Nat.add_zero,
    Calendar.eligible]

/-- A pair of an observation and its run that counts goes on to count. -/
theorem Preserves.pair (h : Preserves s s') (hids : (s.db.runs.map (·.id)).Nodup)
    (hids' : (s'.db.runs.map (·.id)).Nodup) (hq : q ∈ eligibleObservations s.db) :
    q ∈ eligibleObservations s'.db := by
  obtain ⟨ho, hrun, hid, helig⟩ := (mem_eligibleObservations hids).mp hq
  have hterminal := eligible_terminal helig
  obtain ⟨observations, accepted, hobservations, -⟩ := h.grown
  refine (mem_eligibleObservations hids').mpr ⟨?_, h.runs _ hrun hterminal, hid, ?_⟩
  · rw [hobservations]
    exact List.mem_append_left _ ho
  · rw [h.eligible hrun hterminal]
    exact helig

/-- Whether an observation by a finished run is outdated does not change either. -/
theorem Preserves.outdated (h : Preserves s s') (hrun : run ∈ s.db.runs)
    (hterminal : run.status.isTerminal = true) (hid : run.id = o.syncRunId) :
    s'.outdated o = s.outdated o := by
  obtain ⟨observations, accepted, -, haccepted, hapart⟩ := h.grown
  rw [SyncState.outdated, haccepted, List.any_append, SyncState.outdated]
  have hnone : (accepted.any fun a => a.syncRunId == o.syncRunId &&
      a.event.isOf o.calendarIdentityId o.occurrenceKey && a.outOfOrder) = false := by
    rw [List.any_eq_false]
    intro a ha hsame
    rw [Bool.and_eq_true, Bool.and_eq_true, beq_iff_eq] at hsame
    exact (hapart run hrun hterminal).2 a ha (hsame.1.1.trans hid.symm)
  rw [hnone, Bool.or_false]

/-- Every outdated observation of a run that counts was overtaken by another. -/
def SyncState.Overtaken (s : SyncState) : Prop :=
  ∀ q ∈ eligibleObservations s.db, s.outdated q.1 = true →
    ∃ q' ∈ eligibleObservations s.db, sameOccurrence q'.1 q.1 = true ∧ stamp q.2 < stamp q'.2

theorem sameOccurrence_trans {a b c : CalendarEventObservation} (h : sameOccurrence a b = true)
    (h' : sameOccurrence b c = true) : sameOccurrence a c = true := by
  simp only [sameOccurrence, Bool.and_eq_true, beq_iff_eq] at h h' ⊢
  exact ⟨⟨h.1.1.trans h'.1.1, h.1.2.trans h'.1.2⟩, h.2.trans h'.2⟩

theorem SyncState.Overtaken.inOrder (h : s.Overtaken) : s.InOrder := by
  intro o q hq
  obtain ⟨hmem, hsame, hmax⟩ := latest_spec hq
  by_contra houtdated
  obtain ⟨q', hq', hsame', hlt⟩ := h q hmem (by simpa using houtdated)
  exact absurd (hmax q' hq' (sameOccurrence_trans hsame' hsame)) (not_le_of_gt hlt)

theorem SyncState.Overtaken.move (h : s.Overtaken) (howned : Owned s) (howned' : Owned s')
    (hok : keepsOrder s l = true) (hmove : Moves p s l s') : s'.Overtaken := by
  intro q hq houtdated
  have hpreserves := howned.preserves hmove
  obtain ⟨ho, hrun, hid, helig⟩ := (mem_eligibleObservations howned'.runIds).mp hq
  have hkept : ∀ q ∈ eligibleObservations s.db, q ∈ eligibleObservations s'.db := fun q =>
    hpreserves.pair howned.runIds howned'.runIds
  have hsucceeded : q.2.status = .succeeded := by
    have := helig
    simp only [eligible, Bool.and_eq_true, decide_eq_true_eq] at this
    exact this.1.1.1
  rcases howned.succeeded hmove hrun hsucceeded with hold | ⟨run, now, hfinish, hx⟩
  · -- the run had succeeded before
    have hterminal := eligible_terminal helig
    rw [hpreserves.outdated hold hterminal hid] at houtdated
    rw [hpreserves.eligible hold hterminal] at helig
    obtain ⟨observations, accepted, hobservations, -, hapart⟩ := hpreserves.grown
    rw [hobservations] at ho
    have ho : q.1 ∈ s.db.observations := by
      rcases List.mem_append.mp ho with ho | ho
      · exact ho
      · exact absurd hid.symm ((hapart q.2 hold hterminal).1 q.1 ho)
    have hq := (mem_eligibleObservations howned.runIds).mpr ⟨ho, hold, hid, helig⟩
    obtain ⟨q', hq', hsame, hlt⟩ := h q hq houtdated
    exact ⟨q', hkept q' hq', hsame, hlt⟩
  · -- it is the run that is finished now
    obtain ⟨pid, r, rfl, hr, hworks, hisSome, hdb, haccepted⟩ := hfinish
    obtain ⟨calendar, hcurrent⟩ := finishRun_current hisSome hworks
    have ho : q.1 ∈ s.db.observations := by
      rw [hdb] at ho
      exact ho
    have houtdated : s.outdated q.1 = true := by
      rw [SyncState.outdated, haccepted] at houtdated
      exact houtdated
    have hrunId : q.1.syncRunId = run.id := by
      rw [← hid, hx]
      rfl
    rw [keepsOrder, Bool.not_eq_true', settlesOutdated, hr, Option.any_some, hisSome,
      Bool.true_and, hcurrent] at hok
    have hok := List.any_eq_false.mp hok q.1 ho
    rw [hrunId, houtdated] at hok
    simp only [beq_self_eq_true, Bool.true_and, Bool.not_eq_true', Bool.not_eq_false,
      List.any_eq_true, Bool.and_eq_true, decide_eq_true_eq] at hok
    obtain ⟨q', hq', hsame, hlt⟩ := hok
    refine ⟨q', hkept q' hq', hsame, ?_⟩
    rw [hx]
    exact hlt

/-- As long as no run that found an item out of order becomes the latest to
succeed, no such item is ever shown. -/
theorem versions_in_order (h : (Sync.machine p).Reach (fun s l => keepsOrder s l = true) s) :
    s.InOrder := by
  refine SyncState.Overtaken.inOrder ?_
  refine h.invariant (fun s hs => ?_) fun s l s' hr hok hs hstep => ?_
  · have hs : s = {} := hs
    subst hs
    exact fun q hq => absurd hq List.not_mem_nil
  · exact hs.move (owned hr) (owned (.step hr hok hstep)) hok (step_moves hstep)

/-- Contents are told apart by whether their length is even. -/
def parityPlatform : Platform :=
  { zoneInfo := fun _ => .notFound
    sha256 := fun text => if text.utf8ByteSize % 2 = 0 then "even" else "odd" }

/-- A version of one event. -/
def sampleVersion (title updated : String) : Json :=
  .obj
    [("id", .str "event-1"),
      ("status", .str "confirmed"),
      ("eventType", .str "default"),
      ("summary", .str title),
      ("etag", .str "1"),
      ("updated", .str updated),
      ("start", .obj [("date", .str "2026-09-04")]),
      ("end", .obj [("date", .str "2026-09-05")])]

/-- Two refreshes that find an event and then a later version of it. -/
def sampleVersions : List SyncLabel :=
  .configure sampleAccount [sampleCalendar 11 "primary"] ::
    (sampleRefresh 0 5 [sampleVersion "Lunch" "2026-09-01T00:00:00Z"] ++
      sampleRefresh 1 15 [sampleVersion "Brunch" "2026-09-02T00:00:00Z"])

theorem versions_in_order_sample :
    ∃ s : SyncState, (s.db.revisions.length == 2 && s.db.observations.any fun o =>
        (latestPositive s.db o).any fun q => q.2.completedAt == some 16) = true ∧ s.InOrder := by
  obtain ⟨s, hs, hrun⟩ := Machine.exists_reach_of_execWith (Sync.machine parityPlatform) keepsOrder
    sampleVersions
    (fun s => s.db.revisions.length == 2 && s.db.observations.any fun o =>
      (latestPositive s.db o).any fun q => q.2.completedAt == some 16)
    rfl (by decide +kernel)
  exact ⟨s, hrun, versions_in_order hs⟩

/-- When a third refresh finds the first version again, that is what is shown. -/
theorem older_version_shown_again :
    ∃ s : SyncState, (Sync.machine parityPlatform).Reachable s ∧ ¬ s.InOrder := by
  obtain ⟨s, hs, hrun⟩ := (Sync.machine parityPlatform).exists_reachable_of_exec
    (sampleVersions ++ sampleRefresh 2 25 [sampleVersion "Lunch" "2026-09-01T00:00:00Z"])
    (fun s => s.db.observations.any fun o =>
      (latestPositive s.db o).any fun q => s.outdated q.1)
    rfl (by decide +kernel)
  obtain ⟨o, -, ho⟩ := List.any_eq_true.mp hrun
  rw [Option.any_eq_true] at ho
  obtain ⟨q, hq, houtdated⟩ := ho
  refine ⟨s, hs, fun hinorder => ?_⟩
  rw [hinorder o q hq] at houtdated
  cases houtdated

end Calendar

end SecondBrain
