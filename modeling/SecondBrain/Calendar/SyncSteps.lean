import SecondBrain.Calendar.Sync

/-!
# What a step of a refresh does

A call goes through with all its effects or faults with none, so a step is told
by four kinds of advance and by what the handler, a claim and the end of a
process do (`step_moves`). From this follows who owns a run: it was claimed by
one refresh, which alone writes it, and as long as that refresh is not over the
run at work and those after it are active (`Owned`). So a finished run and what
it observed stay as they are, whatever is still under way (`Preserves`).
-/

namespace SecondBrain

open Lib

namespace Calendar

variable {p : Platform} {s s' : SyncState} {db db' : Store} {r r' : Refresh}
  {run : CalendarSyncRun} {l : SyncLabel}

/-! ## Claims -/

/-- The rows a claim adds. -/
def claimedRuns (account : CalendarAccountRevision) (captured now : Instant) (ids : Nat → Uuid)
    (n : Nat) (calendars : List CalendarIdentity) : List CalendarSyncRun :=
  (calendars.zipIdx n).map fun c => claimedRun account captured now (ids c.2) c.1

theorem createSyncRuns_spec {account : CalendarAccountRevision} {captured now : Instant}
    {ids : Nat → Uuid} {calendars : List CalendarIdentity} {n : Nat} {db : Store} :
    Ensures (createSyncRuns account captured now ids n calendars db) fun db' =>
      db' = { db with runs := db.runs ++ claimedRuns account captured now ids n calendars } ∧
        (∀ run ∈ claimedRuns account captured now ids n calendars, run.Checked) ∧
        ((db.runs.map (·.id)).Nodup → (db'.runs.map (·.id)).Nodup) := by
  induction calendars generalizing n db with
  | nil =>
      rw [createSyncRuns]
      exact Ensures.ok_iff.mpr ⟨by simp [claimedRuns], by simp [claimedRuns], id⟩
  | cons calendar rest ih =>
      rw [createSyncRuns]
      refine createSyncRun_spec.bind fun db₁ h => ih.mono fun db₂ h₂ => ?_
      obtain ⟨rfl, hchecked, hfresh, -⟩ := h
      obtain ⟨rfl, hrest, hnodup⟩ := h₂
      have hcons : claimedRuns account captured now ids n (calendar :: rest) =
          claimedRun account captured now (ids n) calendar ::
            claimedRuns account captured now ids (n + 1) rest := rfl
      refine ⟨?_, ?_, fun h => hnodup ?_⟩
      · show ({ db with runs := db.runs ++ [_] ++ _ } : Store) = { db with runs := db.runs ++ _ }
        rw [hcons, List.append_assoc, List.singleton_append]
      · intro run hrun
        rw [hcons] at hrun
        rcases List.mem_cons.mp hrun with rfl | hrun
        · exact hchecked
        · exact hrest run hrun
      · rw [List.map_append, List.nodup_append]
        refine ⟨h, List.nodup_singleton _, fun a ha b hb => ?_⟩
        obtain ⟨old, hold, rfl⟩ := List.mem_map.mp ha
        rw [List.map_singleton, List.mem_singleton] at hb
        exact hb ▸ hfresh old hold

def ClaimedRun.ofRow (run : CalendarSyncRun) : ClaimedRun := ⟨run.id, run.calendarIdentityId⟩

theorem claim_spec {configurationId : Uuid} {expectedRevision : Nat} {captured now : Instant}
    {ids : Nat → Uuid} {account : CalendarAccountRevision} {runs : List ClaimedRun}
    (h : claim db configurationId expectedRevision captured now ids = .ok (db', account, runs)) :
    ∃ calendars, createSyncRuns account captured now ids 0 calendars db = .ok db' ∧
      runs = (claimedRuns account captured now ids 0 calendars).map ClaimedRun.ofRow := by
  unfold claim at h
  split at h
  · cases h
  · split at h
    · cases h
    · split at h
      · cases h
      · simp only [] at h
        split at h
        · next hcreate =>
            cases h
            refine ⟨_, hcreate, ?_⟩
            rw [claimedRuns, List.map_map]
            rfl
        · cases h
        · cases h

/-! ## Calls -/

/-- The run that the refresh is at work on. -/
def Works (db : Store) (r : Refresh) (run : CalendarSyncRun) : Prop :=
  ∃ claimed, r.runs[r.activeIndex]? = some claimed ∧ db.run? claimed.runId = some run

theorem current_works {x : CalendarSyncRun × CalendarIdentity} (h : current db r = .ok x) :
    Works db r x.1 := by
  unfold current at h
  split at h
  · cases h
  · next claimed hclaimed =>
      split at h
      · next run calendar hrun hcalendar =>
          cases h
          exact ⟨claimed, hclaimed, hrun⟩
      · cases h

/-- The same refresh, at the same run, and not over. -/
structure Refresh.Continues (r r' : Refresh) : Prop where
  runs : r'.runs = r.runs
  activeIndex : r'.activeIndex = r.activeIndex
  phase : r'.phase.isOver = false

/-- What a call does that goes through. -/
inductive Advances (p : Platform) (s : SyncState) (r : Refresh) : SyncCall → Progress → Prop
  | authorized {status : Except Fault CredentialStatus} {access : Except Fault Unit} :
      r.phase = .authorizing →
      Advances p s r (.authorize status access)
        { db := s.db, refresh := { r with phase := .beginning } }
  | began {now : Instant} {run : CalendarSyncRun} :
      r.phase = .beginning → Works s.db r run →
      { run with status := .running, startedAt := some now }.Checked →
      Advances p s r (.beginRun now)
        { db := s.db.replaceRun { run with status := .running, startedAt := some now }
          refresh := { r with phase := .paging 1 [] 0 } }
  | paged {late : Bool} {answer : Except Fault CalendarPage} {now : Instant}
      {ids : Nat → Uuid × Uuid} {page total written : Nat} {tokens : List String}
      {run : CalendarSyncRun} {events : List (EventRevision Aware)} {db : Store} {r' : Refresh} :
      r.phase = .paging page tokens total → Works s.db r run →
      (∀ e ∈ events, ∃ item, normalized p item run now = .ok e) →
      recordAll run now ids 0 events s.db = .ok (db, written) →
      (run.counting events.length written).Checked → r.Continues r' → r'.phase ≠ .beginning →
      Advances p s r (.readPage late answer now ids)
        { db := db.replaceRun (run.counting events.length written)
          refresh := r'
          accepted := acceptAll s.accepted run events }
  | finished {now : Instant} {run : CalendarSyncRun} :
      r.phase = .finishing → Works s.db r run → s.db.observationCount run.id = run.itemsSeen →
      ({ run with observationEvidenceVersion := some evidenceVersion }.finish
        .succeeded none now).Checked →
      Advances p s r (.finishRun now)
        { db := s.db.replaceRun ({ run with observationEvidenceVersion := some evidenceVersion }.finish
            .succeeded none now)
          refresh := r.next }

/-- Wherever a page leads, the run stays at work. -/
theorem turnPage_continues {page total : Nat} {tokens : List String} {token : Option String}
    (hruns : r'.runs = r.runs) (hindex : r'.activeIndex = r.activeIndex) :
    r.Continues (r'.turned (turnPage page tokens total token)) ∧
      (r'.turned (turnPage page tokens total token)).phase ≠ .beginning := by
  unfold turnPage
  cases token with
  | none => exact ⟨⟨hruns, hindex, rfl⟩, nofun⟩
  | some token =>
      simp only []
      split
      · exact ⟨⟨hruns, hindex, rfl⟩, nofun⟩
      · split
        · exact ⟨⟨hruns, hindex, rfl⟩, nofun⟩
        · exact ⟨⟨hruns, hindex, rfl⟩, nofun⟩

theorem mapM_mem {α β ε : Type} {f : α → Except ε β} {l : List α} :
    Ensures (l.mapM f) fun ys => ∀ y ∈ ys, ∃ x, f x = .ok y := by
  induction l with
  | nil => exact Ensures.pure_iff.mpr nofun
  | cons x rest ih =>
      rw [List.mapM_cons]
      refine .bind_any fun y hy => ih.bind fun ys hys => Ensures.pure_iff.mpr fun z hz => ?_
      rcases List.mem_cons.mp hz with rfl | hz
      · exact ⟨x, hy⟩
      · exact hys z hz

theorem authorize_advances {status : Except Fault CredentialStatus} {access : Except Fault Unit}
    (hphase : r.phase = .authorizing) :
    Ensures (authorize s.db r status access) (Advances p s r (.authorize status access)) := by
  unfold authorize
  refine .bind_any fun _ _ => .bind_any fun _ _ => .bind_any fun _ _ => .bind_any fun _ _ => ?_
  exact Ensures.pure_iff.mpr (.authorized hphase)

theorem beginRun_advances {now : Instant} (hphase : r.phase = .beginning) :
    Ensures (beginRun s.db r now) (Advances p s r (.beginRun now)) := by
  unfold beginRun
  refine .bind_any fun x hx => .bind_any fun _ _ => putRun_spec.bind fun db hdb => ?_
  obtain ⟨hchecked, rfl⟩ := hdb
  exact Ensures.pure_iff.mpr (.began hphase (current_works hx) hchecked)

theorem readPage_advances {page total : Nat} {tokens : List String} {late : Bool}
    {answer : Except Fault CalendarPage} {now : Instant} {ids : Nat → Uuid × Uuid}
    (hphase : r.phase = .paging page tokens total) :
    Ensures (readPage p s.db s.accepted r page tokens total late answer now ids)
      (Advances p s r (.readPage late answer now ids)) := by
  unfold readPage
  refine .bind_any fun _ _ => .bind_any fun _ _ => .bind_any fun _ _ => ?_
  refine .bind_any fun x hx => mapM_mem.bind fun events hevents => ?_
  refine .bind_any fun _ _ => .bind_any fun _ _ => .bind_any fun y hy => ?_
  refine putRun_spec.bind fun db hdb => ?_
  obtain ⟨hchecked, rfl⟩ := hdb
  have hturn : ∀ token, r.Continues
      (({ r with accountTotal := r.accountTotal + events.length } : Refresh).turned
        (turnPage page tokens (total + events.length) token)) ∧ _ := fun token =>
    turnPage_continues rfl rfl
  exact Ensures.pure_iff.mpr
    (.paged hphase (current_works hx) hevents hy hchecked (hturn _).1 (hturn _).2)

theorem finishRun_advances {now : Instant} (hphase : r.phase = .finishing) :
    Ensures (finishRun s.db r now) (Advances p s r (.finishRun now)) := by
  unfold finishRun
  refine .bind_any fun x hx => .bind_any fun _ _ => ?_
  refine markObservationEvidenceComplete_spec.bind fun run hrun => ?_
  obtain ⟨hcount, rfl⟩ := hrun
  refine putRun_spec.bind fun db hdb => ?_
  obtain ⟨hchecked, rfl⟩ := hdb
  exact Ensures.pure_iff.mpr (.finished hphase (current_works hx) hcount hchecked)

theorem attempt_advances {call : SyncCall} {done : Progress}
    (h : attempt p s r call = some (.ok done)) : Advances p s r call done := by
  cases call with
  | authorize status access =>
      rw [attempt] at h
      split at h
      · next hphase => exact authorize_advances hphase done (Option.some.inj h)
      · cases h
  | beginRun now =>
      rw [attempt] at h
      split at h
      · next hphase => exact beginRun_advances hphase done (Option.some.inj h)
      · cases h
  | readPage late answer now ids =>
      rw [attempt] at h
      split at h
      · next hphase => exact readPage_advances hphase done (Option.some.inj h)
      · cases h
  | finishRun now =>
      rw [attempt] at h
      split at h
      · next hphase => exact finishRun_advances hphase done (Option.some.inj h)
      · cases h

/-! ## Steps -/

/-- What a step does. -/
inductive Moves (p : Platform) (s : SyncState) : SyncLabel → SyncState → Prop
  | configured {account : CalendarAccountRevision} {calendars : List CalendarIdentity} :
      Moves p s (.configure account calendars)
        { s with db := { s.db with
          accounts := s.db.accounts ++ [account]
          identities := s.db.identities ++ calendars } }
  | claimed {configurationId : Uuid} {expectedRevision : Nat} {captured now : Instant}
      {ids : Nat → Uuid} {account : CalendarAccountRevision} {new : List CalendarSyncRun} :
      (∀ run ∈ new, run.Checked ∧ ∃ id calendar,
        run = claimedRun account captured now id calendar) →
      ((s.db.runs.map (·.id)).Nodup → ((s.db.runs ++ new).map (·.id)).Nodup) →
      Moves p s (.claim configurationId expectedRevision captured now ids)
        { s with
          db := { s.db with runs := s.db.runs ++ new }
          refreshes := s.refreshes ++
            [{ configurationId := configurationId
               captured := account
               runs := new.map ClaimedRun.ofRow }] }
  | advanced {pid : Nat} {call : SyncCall} {r : Refresh} {done : Progress} :
      s.refreshes[pid]? = some r → attempt p s r call = some (.ok done) →
      Moves p s (.call pid call) (s.conclude pid r (.ok done))
  | faulted {pid : Nat} {call : SyncCall} {r : Refresh} {e : Fault} :
      s.refreshes[pid]? = some r → attempt p s r call = some (.error e) →
      Moves p s (.call pid call) (s.conclude pid r (.error e))
  | settled {pid : Nat} {clock : Nat → Instant} {r : Refresh} {code : String} {db : Store} :
      s.refreshes[pid]? = some r → r.phase = .failing code →
      finishAll code clock 0 (r.runs.drop r.activeIndex) s.db = .ok db →
      Moves p s (.settle pid clock)
        { s with db := db, refreshes := s.refreshes.set pid { r with phase := .returned } }
  | raised {pid : Nat} {clock : Nat → Instant} {r : Refresh} {code : String} {e : Fault} :
      s.refreshes[pid]? = some r → r.phase = .failing code →
      finishAll code clock 0 (r.runs.drop r.activeIndex) s.db = .error e →
      Moves p s (.settle pid clock)
        { s with refreshes := s.refreshes.set pid { r with phase := .raised } }
  | stopped {pid : Nat} {r : Refresh} :
      s.refreshes[pid]? = some r → r.phase.isOver = false →
      Moves p s (.stop pid) { s with refreshes := s.refreshes.set pid { r with phase := .stopped } }

theorem step_moves (h : Sync.step p s l = some s') : Moves p s l s' := by
  cases l with
  | configure account calendars =>
      rw [Sync.step] at h
      split at h
      · cases h
        exact .configured
      · cases h
  | claim configurationId expectedRevision captured now ids =>
      rw [Sync.step] at h
      split at h
      · next db account runs hclaim =>
          cases h
          obtain ⟨calendars, hcreate, rfl⟩ := claim_spec hclaim
          obtain ⟨rfl, hchecked, hnodup⟩ := createSyncRuns_spec _ hcreate
          refine .claimed (fun run hrun => ⟨hchecked run hrun, ?_⟩) hnodup
          obtain ⟨c, -, rfl⟩ := List.mem_map.mp hrun
          exact ⟨ids c.2, c.1, rfl⟩
      · cases h
  | call pid call =>
      rw [Sync.step] at h
      obtain ⟨r, hr, h⟩ := bind_some h
      obtain ⟨outcome, houtcome, h⟩ := bind_some h
      cases h
      cases outcome with
      | ok done => exact .advanced hr houtcome
      | error e => exact .faulted hr houtcome
  | settle pid clock =>
      rw [Sync.step] at h
      split at h
      · next r hr =>
          split at h
          · next code hphase =>
              cases h
              unfold SyncState.settle
              split
              · next hdone => exact .settled hr hphase hdone
              · next hdone => exact .raised hr hphase hdone
          · cases h
      · cases h
  | stop pid =>
      rw [Sync.step] at h
      split at h
      · next r hr =>
          split at h
          · cases h
          · next hover =>
              cases h
              exact .stopped hr (Bool.eq_false_iff.mpr hover)
      · cases h

/-- What finishing one run keeps, the handler keeps. -/
theorem finishAll_keeps {P : Store → Prop} {code : String} {clock : Nat → Instant}
    {claims : List ClaimedRun}
    (hput : ∀ db claimed run n, claimed ∈ claims → P db → db.run? claimed.runId = some run →
      (run.finish (failureStatus code) (some code) (clock n)).Checked →
      P (db.replaceRun (run.finish (failureStatus code) (some code) (clock n))))
    {n : Nat} (hdb : P db) : Ensures (finishAll code clock n claims db) P := by
  induction claims generalizing n db with
  | nil =>
      rw [finishAll]
      exact Ensures.ok_iff.mpr hdb
  | cons claimed rest ih =>
      rw [finishAll]
      have hrest : ∀ db claimed run n, claimed ∈ rest → P db → _ :=
        fun db c run n hc => hput db c run n (List.mem_cons_of_mem _ hc)
      cases hrun : db.run? claimed.runId with
      | none => exact ih hrest hdb
      | some run =>
          refine putRun_spec.bind fun db' h => ?_
          obtain ⟨hchecked, rfl⟩ := h
          exact ih hrest (hput db claimed run n List.mem_cons_self hdb hrun hchecked)

/-- Recording events adds revisions and observations by the run, one each. -/
theorem recordAll_adds {now : Instant} {ids : Nat → Uuid × Uuid} {n : Nat}
    {events : List (EventRevision Aware)} :
    Ensures (recordAll run now ids n events db) fun x =>
      (∃ revisions observations, x.1 = { db with
          revisions := db.revisions ++ revisions
          observations := db.observations ++ observations } ∧
        observations.length = events.length ∧
        ∀ o ∈ observations, CalendarEventObservation.syncRunId o = run.id) ∧
      x.2 ≤ events.length := by
  induction events generalizing n db with
  | nil =>
      rw [recordAll]
      exact Ensures.ok_iff.mpr ⟨⟨[], [], by simp⟩, le_rfl⟩
  | cons event rest ih =>
      rw [recordAll]
      refine recordEventRevision_spec.bind fun x hx => ?_
      obtain ⟨db₁, stored, created⟩ := x
      refine recordEventObservation_spec.bind fun db₂ h₂ => ih.bind fun y hy => ?_
      obtain ⟨-, o, hties, rfl⟩ := h₂
      obtain ⟨⟨revisions, observations, hdb, hlength, hrun⟩, hwritten⟩ := hy
      obtain ⟨new, rfl⟩ : ∃ new, db₁ = { db with revisions := db.revisions ++ new } := by
        cases hx with
        | replayed hmem hhash => exact ⟨[], by simp⟩
        | added hcontent hfresh => exact ⟨_, rfl⟩
      refine Ensures.pure_iff.mpr ⟨⟨new ++ revisions, o :: observations, ?_, ?_, ?_⟩, ?_⟩
      · rw [hdb]
        simp only [List.append_assoc, List.cons_append, List.nil_append]
      · simp only [List.length_cons, hlength]
      · intro o' ho'
        rcases List.mem_cons.mp ho' with rfl | ho'
        · exact hties.1
        · exact hrun o' ho'
      · show y.2 + (if created then 1 else 0) ≤ rest.length + 1
        split <;> omega

/-! ## Ownership -/

def Refresh.runIds (r : Refresh) : List Uuid := r.runs.map (·.runId)

/-- The runs that the refresh has still to finish. -/
def Refresh.pending (r : Refresh) : List Uuid :=
  if r.phase.isOver then [] else r.runIds.drop r.activeIndex

/-- The runs that were claimed by any refresh. -/
def SyncState.claims (s : SyncState) : List Uuid := s.refreshes.flatMap Refresh.runIds

structure Owned (s : SyncState) : Prop where
  runIds : (s.db.runs.map (·.id)).Nodup
  claims : s.claims.Nodup
  claimed : ∀ id ∈ s.claims, id ∈ s.db.runs.map (·.id)
  active : ∀ r ∈ s.refreshes, ∀ run ∈ s.db.runs, run.id ∈ r.pending → run.isActive = true

theorem pending_sub {id : Uuid} (h : id ∈ r.pending) : id ∈ r.runIds := by
  unfold Refresh.pending at h
  split at h
  · cases h
  · exact List.mem_of_mem_drop h

theorem Works.mem (h : Works db r run) : run ∈ db.runs := by
  obtain ⟨claimed, -, hrun⟩ := h
  exact (run?_mem hrun).1

/-- The run at work is the first of those that are pending. -/
theorem Works.pending (h : Works db r run) (hphase : r.phase.isOver = false) :
    r.pending = run.id :: r.runIds.drop (r.activeIndex + 1) := by
  obtain ⟨claimed, hclaimed, hrun⟩ := h
  have hid : r.runIds[r.activeIndex]? = some run.id := by
    rw [Refresh.runIds, List.getElem?_map, hclaimed, Option.map_some, (run?_mem hrun).2]
  obtain ⟨hlt, hget⟩ := List.getElem?_eq_some_iff.mp hid
  rw [Refresh.pending, hphase, if_neg Bool.false_ne_true, List.drop_eq_getElem_cons hlt, hget]

theorem Works.mem_runIds (h : Works db r run) : run.id ∈ r.runIds := by
  obtain ⟨claimed, hclaimed, hrun⟩ := h
  rw [(run?_mem hrun).2]
  exact List.mem_map_of_mem (List.mem_of_getElem? hclaimed)

theorem pending_next : r.next.pending = r.runIds.drop (r.activeIndex + 1) := by
  unfold Refresh.next
  split
  · exact if_neg Bool.false_ne_true
  · next h =>
      have hnone : r.runIds.drop (r.activeIndex + 1) = [] := by
        rw [List.drop_eq_nil_iff, Refresh.runIds, List.length_map]
        omega
      rw [hnone]
      exact if_pos rfl

theorem next_runs : r.next.runs = r.runs := by
  unfold Refresh.next
  split <;> rfl

theorem Refresh.Continues.pending (h : r.Continues r') (hphase : r.phase.isOver = false) :
    r'.pending = r.pending := by
  rw [Refresh.pending, Refresh.pending, h.phase, hphase, Refresh.runIds, h.runs, h.activeIndex]
  rfl

theorem claims_set {pid : Nat} (hr : s.refreshes[pid]? = some r) (hruns : r'.runs = r.runs)
    {db : Store} {accepted : List AcceptedEvent} :
    SyncState.claims ⟨db, s.refreshes.set pid r', accepted⟩ = s.claims := by
  obtain ⟨hlt, hget⟩ := List.getElem?_eq_some_iff.mp hr
  rw [SyncState.claims, SyncState.claims, List.flatMap, List.flatMap, List.map_set]
  have hlt' : pid < (s.refreshes.map Refresh.runIds).length := by
    rw [List.length_map]
    exact hlt
  have hsame : r'.runIds = (s.refreshes.map Refresh.runIds)[pid] := by
    rw [List.getElem_map, hget, Refresh.runIds, hruns, Refresh.runIds]
  rw [hsame, List.set_getElem_self]

/-- No run was claimed by two refreshes. -/
theorem Owned.apart (h : Owned s) {i j : Nat} (hi : s.refreshes[i]? = some r)
    (hj : s.refreshes[j]? = some r') (hne : i ≠ j) {id : Uuid} (hid : id ∈ r.runIds) :
    id ∉ r'.runIds := by
  have hpairs := (List.nodup_flatMap.mp h.claims).2
  rw [List.pairwise_iff_getElem] at hpairs
  obtain ⟨hilt, rfl⟩ := List.getElem?_eq_some_iff.mp hi
  obtain ⟨hjlt, rfl⟩ := List.getElem?_eq_some_iff.mp hj
  rcases Nat.lt_or_gt_of_ne hne with hlt | hlt
  · exact fun hid' => hpairs i j hilt hjlt hlt hid hid'
  · exact fun hid' => hpairs j i hjlt hilt hlt hid' hid

theorem mem_set_cases {pid : Nat} {q : Refresh} (hq : q ∈ s.refreshes.set pid r') :
    q = r' ∨ ∃ j, j ≠ pid ∧ s.refreshes[j]? = some q := by
  obtain ⟨j, hj⟩ := List.mem_iff_getElem?.mp hq
  rw [List.getElem?_set] at hj
  split at hj
  · split at hj
    · exact .inl (Option.some.inj hj).symm
    · cases hj
  · next hne => exact .inr ⟨j, fun h => hne h.symm, hj⟩

/-- A refresh moves on and writes no runs but its own. -/
theorem Owned.set {pid : Nat} (h : Owned s) (hr : s.refreshes[pid]? = some r)
    (hruns : r'.runs = r.runs) (hids : db.runs.map (·.id) = s.db.runs.map (·.id))
    (hothers : ∀ run ∈ db.runs, run ∈ s.db.runs ∨ run.id ∈ r.runIds)
    (hmine : ∀ run ∈ db.runs, run.id ∈ r'.pending → run.isActive = true)
    (accepted : List AcceptedEvent) :
    Owned ⟨db, s.refreshes.set pid r', accepted⟩ where
  runIds := by
    show (db.runs.map (·.id)).Nodup
    rw [hids]
    exact h.runIds
  claims := by
    rw [claims_set hr hruns]
    exact h.claims
  claimed id hid := by
    show id ∈ db.runs.map (·.id)
    rw [claims_set hr hruns] at hid
    rw [hids]
    exact h.claimed id hid
  active q hq run hrun hid := by
    rcases mem_set_cases hq with rfl | ⟨j, hj, hget⟩
    · exact hmine run hrun hid
    · rcases hothers run hrun with hold | hown
      · exact h.active q (List.mem_of_getElem? hget) run hold hid
      · exact absurd (pending_sub hid) (h.apart hr hget hj.symm hown)

theorem Owned.claim {account : CalendarAccountRevision} {captured now : Instant}
    {configurationId : Uuid} {new : List CalendarSyncRun} (h : Owned s)
    (hnew : ∀ run ∈ new, run.Checked ∧ ∃ id calendar,
      run = claimedRun account captured now id calendar)
    (hids : ((s.db.runs ++ new).map (·.id)).Nodup) :
    Owned { s with
      db := { s.db with runs := s.db.runs ++ new }
      refreshes := s.refreshes ++
        [{ configurationId := configurationId
           captured := account
           runs := new.map ClaimedRun.ofRow }] } := by
  have hclaims : SyncState.claims { s with
      db := { s.db with runs := s.db.runs ++ new }
      refreshes := s.refreshes ++
        [{ configurationId := configurationId
           captured := account
           runs := new.map ClaimedRun.ofRow }] } = s.claims ++ new.map (·.id) := by
    rw [SyncState.claims, List.flatMap_append, List.flatMap_singleton, Refresh.runIds,
      List.map_map]
    rfl
  have hsplit := hids
  rw [List.map_append, List.nodup_append] at hsplit
  obtain ⟨-, hfresh, hapart⟩ := hsplit
  refine ⟨hids, ?_, fun id hid => ?_, fun q hq run hrun hid => ?_⟩
  · rw [hclaims, List.nodup_append]
    exact ⟨h.claims, hfresh, fun a ha b hb => hapart a (h.claimed a ha) b hb⟩
  · rw [hclaims] at hid
    show id ∈ (s.db.runs ++ new).map (·.id)
    rw [List.map_append]
    rcases List.mem_append.mp hid with hid | hid
    · exact List.mem_append_left _ (h.claimed id hid)
    · exact List.mem_append_right _ hid
  · rcases List.mem_append.mp hrun with hrun | hrun
    · rcases List.mem_append.mp hq with hq | hq
      · exact h.active q hq run hrun hid
      · -- the new refresh has claimed none of the old runs
        rw [List.mem_singleton] at hq
        subst hq
        have hid := pending_sub hid
        rw [Refresh.runIds, List.map_map] at hid
        exact absurd rfl (hapart run.id (List.mem_map_of_mem hrun) run.id hid)
    · obtain ⟨-, id, calendar, rfl⟩ := hnew run hrun
      rfl

/-- Writing the run that the refresh is at work on is its own affair. -/
theorem replaceRun_others {run' : CalendarSyncRun} (hworks : Works db r run)
    (hid : run'.id = run.id) : ∀ x ∈ (db.replaceRun run').runs, x ∈ db.runs ∨ x.id ∈ r.runIds := by
  intro x hx
  rcases mem_replaceRun.mp hx with ⟨rfl, -⟩ | ⟨hx, -⟩
  · exact .inr (hid ▸ hworks.mem_runIds)
  · exact .inl hx

/-- The runs that are pending stay active if the one at work does. -/
theorem replaceRun_active {pid : Nat} {run' : CalendarSyncRun} (h : Owned s)
    (hr : s.refreshes[pid]? = some r) (hdb : db.runs = s.db.runs) (hactive : run'.isActive = true) :
    ∀ x ∈ (db.replaceRun run').runs, x.id ∈ r.pending → x.isActive = true := by
  intro x hx hid
  rcases mem_replaceRun.mp hx with ⟨rfl, -⟩ | ⟨hx, -⟩
  · exact hactive
  · exact h.active r (List.mem_of_getElem? hr) x (hdb ▸ hx) hid

theorem Works.active {pid : Nat} (hworks : Works s.db r run) (h : Owned s)
    (hr : s.refreshes[pid]? = some r) (hphase : r.phase.isOver = false) : run.isActive = true := by
  refine h.active r (List.mem_of_getElem? hr) run hworks.mem ?_
  rw [hworks.pending hphase]
  exact List.mem_cons_self

theorem Owned.advance {pid : Nat} {call : SyncCall} {done : Progress} (h : Owned s)
    (hr : s.refreshes[pid]? = some r) (hdone : Advances p s r call done) :
    Owned (s.conclude pid r (.ok done)) := by
  have hmem := List.mem_of_getElem? hr
  cases hdone with
  | authorized hphase =>
      refine h.set hr ?_ ?_ (fun run hrun => .inl hrun) (fun run hrun hid => ?_) _
      · rfl
      · rfl
      refine h.active r hmem run hrun ?_
      rw [Refresh.pending, hphase]
      exact hid
  | began hphase hworks hchecked =>
      refine h.set hr ?_ replaceRun_ids (replaceRun_others hworks ?_) (fun x hx hid => ?_) _
      · rfl
      · rfl
      refine replaceRun_active h hr rfl ?_ x hx ?_
      · rfl
      rw [Refresh.pending, hphase]
      exact hid
  | @paged _ _ _ _ page total written tokens run events db r' hphase hworks hevents hrecord
      hchecked hcont _ =>
      obtain ⟨⟨revisions, observations, rfl, -⟩, -⟩ := recordAll_adds _ hrecord
      have hover : r.phase.isOver = false := by
        rw [hphase]
        rfl
      refine h.set hr hcont.runs ?_ (fun x hx => ?_) (fun x hx hid => ?_) _
      · exact replaceRun_ids
      · have hx : x ∈ (s.db.replaceRun (run.counting events.length written)).runs := hx
        refine replaceRun_others hworks ?_ x hx
        rfl
      · have hx : x ∈ (s.db.replaceRun (run.counting events.length written)).runs := hx
        rw [hcont.pending hover] at hid
        refine replaceRun_active h hr rfl ?_ x hx hid
        exact hworks.active h hr hover
  | finished hphase hworks hcount hchecked =>
      have hover : r.phase.isOver = false := by
        rw [hphase]
        rfl
      refine h.set hr next_runs replaceRun_ids (replaceRun_others hworks ?_)
        (fun x hx hid => ?_) _
      · rfl
      -- the run that is finished is no longer pending
      rw [pending_next] at hid
      have hnodup : r.runIds.Nodup := (List.nodup_flatMap.mp h.claims).1 r hmem
      have hpending := hworks.pending hover
      have hdrop : r.pending.Nodup := by
        rw [Refresh.pending, hover, if_neg Bool.false_ne_true]
        exact hnodup.sublist (List.drop_sublist _ _)
      rw [hpending, List.nodup_cons] at hdrop
      rcases mem_replaceRun.mp hx with ⟨rfl, -⟩ | ⟨hx, -⟩
      · exact absurd hid hdrop.1
      · refine h.active r hmem x hx ?_
        rw [hpending]
        exact List.mem_cons_of_mem _ hid

theorem fault_pending {e : Fault} {id : Uuid} (hover : r.phase.isOver = false)
    (hid : id ∈ (r.fault e).pending) : id ∈ r.pending := by
  unfold Refresh.pending at hid ⊢
  rw [hover, if_neg Bool.false_ne_true]
  split at hid
  · cases hid
  · exact hid

theorem attempt_live {call : SyncCall} {outcome : Except Fault Progress}
    (h : attempt p s r call = some outcome) : r.phase.isOver = false := by
  cases hphase : r.phase with
  | authorizing | beginning | paging | finishing | failing => rfl
  | returned | raised | stopped =>
      cases call <;> simp [attempt, hphase] at h

/-- The handler writes only runs of its refresh, and keeps them all in place. -/
theorem finishAll_owns {code : String} {clock : Nat → Instant} {n : Nat} {claims : List ClaimedRun}
    (hclaims : ∀ c ∈ claims, c.runId ∈ r.runIds) :
    Ensures (finishAll code clock n claims db) fun db' =>
      db'.runs.map (·.id) = db.runs.map (·.id) ∧
        ∀ run ∈ db'.runs, run ∈ db.runs ∨ run.id ∈ r.runIds := by
  refine finishAll_keeps (fun db' claimed run n hc h hrun _ => ?_) ⟨rfl, fun _ => .inl⟩
  refine ⟨replaceRun_ids.trans h.1, fun x hx => ?_⟩
  rcases mem_replaceRun.mp hx with ⟨rfl, -⟩ | ⟨hx, -⟩
  · exact .inr ((run?_mem hrun).2 ▸ hclaims claimed hc)
  · exact h.2 x hx

theorem mem_runIds_of_drop {n : Nat} {c : ClaimedRun} (h : c ∈ r.runs.drop n) :
    c.runId ∈ r.runIds := List.mem_map_of_mem (List.mem_of_mem_drop h)

theorem Owned.move (h : Owned s) (hmove : Moves p s l s') : Owned s' := by
  cases hmove with
  | configured => exact ⟨h.runIds, h.claims, h.claimed, h.active⟩
  | claimed hnew hids => exact h.claim hnew (hids h.runIds)
  | advanced hr hdone => exact h.advance hr (attempt_advances hdone)
  | faulted hr hfault =>
      refine h.set hr ?_ ?_ (fun run hrun => .inl hrun) (fun run hrun hid => ?_) _
      · rfl
      · rfl
      exact h.active _ (List.mem_of_getElem? hr) run hrun
        (fault_pending (attempt_live hfault) hid)
  | settled hr hphase hdone =>
      obtain ⟨hids, hothers⟩ := finishAll_owns (fun c => mem_runIds_of_drop) _ hdone
      refine h.set hr ?_ hids hothers (fun run hrun hid => ?_) _
      · rfl
      · cases hid
  | raised hr hphase hdone =>
      refine h.set hr ?_ ?_ (fun run hrun => .inl hrun) (fun run hrun hid => ?_) _
      · rfl
      · rfl
      · cases hid
  | stopped hr hover =>
      refine h.set hr ?_ ?_ (fun run hrun => .inl hrun) (fun run hrun hid => ?_) _
      · rfl
      · rfl
      · cases hid

theorem owned {ok : SyncState → SyncLabel → Prop} (h : (Sync.machine p).Reach ok s) : Owned s := by
  refine h.invariant (fun s hs => ?_) fun s l s' _ _ hs hstep => hs.move (step_moves hstep)
  rw [show s = {} from hs]
  exact ⟨List.nodup_nil, List.nodup_nil, nofun, nofun⟩

/-! ## Finished runs -/

/-- Finished runs stay as they are, with all that they observed and accepted. -/
structure Preserves (s s' : SyncState) : Prop where
  runs : ∀ run ∈ s.db.runs, run.status.isTerminal = true → run ∈ s'.db.runs
  grown : ∃ observations accepted,
    s'.db.observations = s.db.observations ++ observations ∧
    s'.accepted = s.accepted ++ accepted ∧
    ∀ run ∈ s.db.runs, run.status.isTerminal = true →
      (∀ o ∈ observations, CalendarEventObservation.syncRunId o ≠ run.id) ∧
        ∀ a ∈ accepted, AcceptedEvent.syncRunId a ≠ run.id

theorem active_iff : run.isActive = true ↔ ¬ run.status.isTerminal = true := by
  rw [CalendarSyncRun.isActive, Bool.not_eq_true', Bool.not_eq_true]

theorem mem_replaceRun_of_ne {x run : CalendarSyncRun} (hx : x ∈ db.runs) (hne : x.id ≠ run.id) :
    x ∈ (db.replaceRun run).runs := mem_replaceRun.mpr (.inr ⟨hx, hne⟩)

/-- A run that is at work is not one of the finished. -/
theorem Works.ne_finished {pid : Nat} {x : CalendarSyncRun} (hworks : Works s.db r run)
    (h : Owned s) (hr : s.refreshes[pid]? = some r) (hover : r.phase.isOver = false)
    (hx : x ∈ s.db.runs) (hterminal : x.status.isTerminal = true) : x.id ≠ run.id := by
  intro hid
  have hsame := List.inj_on_of_nodup_map h.runIds hx hworks.mem hid
  exact active_iff.mp (hworks.active h hr hover) (hsame ▸ hterminal)

/-- Nothing new was observed or accepted. -/
theorem Preserves.ofRuns (hobservations : s'.db.observations = s.db.observations)
    (haccepted : s'.accepted = s.accepted)
    (hruns : ∀ run ∈ s.db.runs, run.status.isTerminal = true → run ∈ s'.db.runs) :
    Preserves s s' :=
  ⟨hruns, [], [], by rw [hobservations, List.append_nil], by rw [haccepted, List.append_nil],
    fun _ _ _ => ⟨fun _ ho => absurd ho List.not_mem_nil, fun _ ha => absurd ha List.not_mem_nil⟩⟩

theorem Owned.preservesAdvance {pid : Nat} {call : SyncCall} {done : Progress} (h : Owned s)
    (hr : s.refreshes[pid]? = some r) (hdone : Advances p s r call done) :
    Preserves s (s.conclude pid r (.ok done)) := by
  cases hdone with
  | authorized hphase =>
      exact .ofRuns rfl (List.append_nil _) fun _ hrun _ => hrun
  | began hphase hworks hchecked =>
      refine .ofRuns rfl (List.append_nil _) fun x hx hterminal => ?_
      refine mem_replaceRun_of_ne hx (hworks.ne_finished h hr ?_ hx hterminal)
      rw [hphase]
      rfl
  | @paged _ _ _ _ page total written tokens run events db r' hphase hworks hevents hrecord
      hchecked hcont _ =>
      obtain ⟨⟨revisions, observations, rfl, -, hown⟩, -⟩ := recordAll_adds _ hrecord
      have hover : r.phase.isOver = false := by
        rw [hphase]
        rfl
      refine ⟨fun x hx hterminal => ?_, observations, acceptAll s.accepted run events, rfl, rfl,
        fun x hx hterminal => ⟨fun o ho hid => ?_, fun a ha hid => ?_⟩⟩
      · have hne := hworks.ne_finished h hr hover hx hterminal
        exact mem_replaceRun.mpr (.inr ⟨hx, hne⟩)
      · exact hworks.ne_finished h hr hover hx hterminal (hid.symm.trans (hown o ho))
      · obtain ⟨event, -, rfl⟩ := List.mem_map.mp ha
        exact hworks.ne_finished h hr hover hx hterminal hid.symm
  | finished hphase hworks hcount hchecked =>
      refine .ofRuns rfl (List.append_nil _) fun x hx hterminal => ?_
      refine mem_replaceRun_of_ne hx (hworks.ne_finished h hr ?_ hx hterminal)
      rw [hphase]
      rfl

/-- The handler writes pending runs only. -/
theorem Owned.preservesSettled {pid : Nat} {code : String} {clock : Nat → Instant} (h : Owned s)
    (hr : s.refreshes[pid]? = some r) (hover : r.phase.isOver = false) :
    Ensures (finishAll code clock 0 (r.runs.drop r.activeIndex) s.db) fun db =>
      db.observations = s.db.observations ∧
        ∀ run ∈ s.db.runs, run.status.isTerminal = true → run ∈ db.runs := by
  refine finishAll_keeps (fun db claimed run n hclaimed hdb hrun _ => ?_) ⟨rfl, fun _ hx _ => hx⟩
  refine ⟨hdb.1, fun x hx hterminal => mem_replaceRun_of_ne (hdb.2 x hx hterminal) fun hid => ?_⟩
  have hpending : x.id ∈ r.pending := by
    rw [Refresh.pending, hover, if_neg Bool.false_ne_true, Refresh.runIds, ← List.map_drop, hid]
    show run.id ∈ _
    rw [(run?_mem hrun).2]
    exact List.mem_map_of_mem hclaimed
  exact active_iff.mp (h.active r (List.mem_of_getElem? hr) x hx hpending) hterminal

theorem Owned.preserves (h : Owned s) (hmove : Moves p s l s') : Preserves s s' := by
  cases hmove with
  | configured => exact .ofRuns rfl rfl fun _ hrun _ => hrun
  | claimed => exact .ofRuns rfl rfl fun _ hrun _ => List.mem_append_left _ hrun
  | advanced hr hdone => exact h.preservesAdvance hr (attempt_advances hdone)
  | faulted => exact .ofRuns rfl rfl fun _ hrun _ => hrun
  | settled hr hphase hdone =>
      obtain ⟨hobservations, hruns⟩ := h.preservesSettled hr (by rw [hphase]; rfl) _ hdone
      exact .ofRuns hobservations rfl hruns
  | raised => exact .ofRuns rfl rfl fun _ hrun _ => hrun
  | stopped => exact .ofRuns rfl rfl fun _ hrun _ => hrun

end Calendar

end SecondBrain
