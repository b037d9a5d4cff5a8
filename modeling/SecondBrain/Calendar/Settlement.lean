import SecondBrain.Calendar.Evidence

/-!
# What a failed refresh leaves behind

The handler finishes the run at work and all that follow it, in one transaction.
A finished row has to say when it was started, and a run that has not been begun
has no such time, so the transaction is undone unless the run at work is the last
one and has been begun: then nothing is finished, and no calendar of the account
can be claimed again. The same is left by an exception that is not handled. Where
every failure is handled and hits the last run, all is settled (`refresh_settles`).
-/

namespace SecondBrain

open Lib

namespace Calendar

variable {p : Platform} {s s' : SyncState} {db db' : Store} {r r' : Refresh} {l : SyncLabel}
  {run run' : CalendarSyncRun} {id : Uuid} {code : String}

/-- All runs of a refresh that has returned or raised are over, every row meets
its checks, and an active run is of a refresh that has done neither. -/
structure SyncState.Settled (s : SyncState) : Prop where
  terminal : ∀ r ∈ s.refreshes, r.phase = .returned ∨ r.phase = .raised → ∀ c ∈ r.runs,
    ∃ run, s.db.run? c.runId = some run ∧ run.status.isTerminal = true
  checked : ∀ run ∈ s.db.runs, run.Checked
  unblocked : ∀ run ∈ s.db.runs, run.isActive = true →
    ∃ r ∈ s.refreshes, run.id ∈ r.runIds ∧ r.phase ≠ .returned ∧ r.phase ≠ .raised

/-- Whether the run at work has been begun. -/
def SyncPhase.isBegun : SyncPhase → Bool
  | .paging .. | .finishing | .failing _ => true
  | _ => false

/-- The run at work has been begun and is the last one. -/
def Refresh.isLast (r : Refresh) : Bool := r.activeIndex + 1 == r.runs.length && r.phase.isBegun

/-- What goes wrong is handled, and goes wrong in the last run once it has been
begun. When that run is finished the clock has not gone back. -/
def settles (p : Platform) (s : SyncState) : SyncLabel → Bool
  | .call pid call =>
      s.refreshes[pid]?.all fun r => (attempt p s r call).all fun
        | .error e => r.isLast && e.code?.any safeCode
        | .ok done =>
            match done.refresh.phase with
            | .failing code => r.isLast && safeCode code
            | _ => true
  | .settle pid clock =>
      s.refreshes[pid]?.all fun r => (r.runs[r.activeIndex]?).all fun c =>
        (s.db.run? c.runId).all fun run => run.startedAt.all fun t => decide (t ≤ clock 0)
  | _ => true

/-! ## Rows -/

def Finished (db : Store) (id : Uuid) : Prop :=
  ∃ run ∈ db.runs, run.id = id ∧ run.status.isTerminal = true

def Started (db : Store) (id : Uuid) : Prop :=
  ∃ run ∈ db.runs, run.id = id ∧ run.startedAt.isSome = true

/-- A run that has been started is not written as one that has not. -/
theorem Started.replaceRun (h : Started db id) (hids : (db.runs.map (·.id)).Nodup)
    (hrun : run ∈ db.runs) (hid : run'.id = run.id)
    (hkeep : run.startedAt.isSome = true → run'.startedAt.isSome = true) :
    Started (db.replaceRun run') id := by
  obtain ⟨x, hx, rfl, hstarted⟩ := h
  by_cases hsame : x.id = run.id
  · have hx' := List.inj_on_of_nodup_map hids hx hrun hsame
    subst hx'
    refine ⟨run', mem_replaceRun.mpr (.inl ⟨rfl, ?_⟩), hid, hkeep hstarted⟩
    exact hid ▸ List.mem_map_of_mem hrun
  · exact ⟨x, mem_replaceRun_of_ne hx (hid ▸ hsame), rfl, hstarted⟩

theorem Moves.started (hmove : Moves p s l s') (h : Owned s) (hid : Started s.db id) :
    Started s'.db id := by
  cases hmove with
  | configured | faulted | raised | stopped => exact hid
  | claimed =>
      obtain ⟨x, hx, hrest⟩ := hid
      exact ⟨x, List.mem_append_left _ hx, hrest⟩
  | advanced hr hattempt =>
      have hadvances := attempt_advances hattempt
      cases hadvances with
      | authorized => exact hid
      | began hphase hworks => exact hid.replaceRun h.runIds hworks.mem rfl fun _ => rfl
      | paged hphase hworks hevents hrecord =>
          obtain ⟨⟨revisions, observations, rfl, -⟩, -⟩ := recordAll_adds _ hrecord
          exact hid.replaceRun h.runIds hworks.mem rfl fun h => h
      | finished hphase hworks => exact hid.replaceRun h.runIds hworks.mem rfl fun h => h
  | settled hr hphase hdone =>
      refine (finishAll_keeps (P := fun db => (db.runs.map (·.id)).Nodup ∧ Started db id)
        (fun db claimed run n _ hdb hrun _ => ?_) ⟨h.runIds, hid⟩ _ hdone).2
      refine ⟨?_, hdb.2.replaceRun hdb.1 (run?_mem hrun).1 rfl fun h => h⟩
      rw [replaceRun_ids]
      exact hdb.1

theorem Moves.finished (hmove : Moves p s l s') (h : Owned s) (hid : Finished s.db id) :
    Finished s'.db id := by
  obtain ⟨x, hx, hxid, hterminal⟩ := hid
  exact ⟨x, (h.preserves hmove).runs x hx hterminal, hxid, hterminal⟩

theorem replaceRun_checked (h : ∀ x ∈ db.runs, x.Checked) (hrun : run.Checked) :
    ∀ x ∈ (db.replaceRun run).runs, x.Checked := by
  intro x hx
  rcases mem_replaceRun.mp hx with ⟨rfl, -⟩ | ⟨hx, -⟩
  · exact hrun
  · exact h x hx

theorem Moves.checked (hmove : Moves p s l s') (h : ∀ x ∈ s.db.runs, x.Checked) :
    ∀ x ∈ s'.db.runs, x.Checked := by
  cases hmove with
  | configured | faulted | raised | stopped => exact h
  | claimed hnew =>
      intro x hx
      rcases List.mem_append.mp hx with hx | hx
      · exact h x hx
      · exact (hnew x hx).1
  | advanced hr hattempt =>
      have hadvances := attempt_advances hattempt
      cases hadvances with
      | authorized => exact h
      | began hphase hworks hchecked => exact replaceRun_checked h hchecked
      | paged hphase hworks hevents hrecord hchecked =>
          obtain ⟨⟨revisions, observations, rfl, -⟩, -⟩ := recordAll_adds _ hrecord
          exact replaceRun_checked h hchecked
      | finished hphase hworks hcount hchecked => exact replaceRun_checked h hchecked
  | settled hr hphase hdone =>
      exact finishAll_keeps (P := fun db => ∀ x ∈ db.runs, x.Checked)
        (fun db claimed run n _ hdb _ hchecked => replaceRun_checked hdb hchecked) h _ hdone

/-- A run that has been started can be finished. -/
theorem CalendarSyncRun.Checked.finish {now t : Instant} (h : run.Checked)
    (hcode : safeCode code = true) (hstarted : run.startedAt = some t) (hle : t ≤ now) :
    (run.finish (failureStatus code) (some code) now).Checked := by
  have hstatus : (failureStatus code).isTerminal = true ∧ failureStatus code ≠ .succeeded := by
    unfold failureStatus
    split
    · exact ⟨rfl, nofun⟩
    · exact ⟨rfl, nofun⟩
  refine ⟨h.window, h.bound, h.counts, fun c hc => ?_, hstatus.1, fun hcomplete => ?_,
    fun v hv => ?_, h.started, fun t' ht' => ?_⟩
  · exact Option.some.inj hc ▸ hcode
  · rw [CalendarSyncRun.finish] at hcomplete
    simp only [if_neg hstatus.2] at hcomplete
    cases hcomplete
  · rw [CalendarSyncRun.finish] at hv
    simp only [if_neg hstatus.2] at hv
    cases hv
  · exact ⟨t, hstarted, Option.some.inj ht' ▸ hle⟩

/-! ## Refreshes -/

/-- The runs that the refresh is done with. -/
def Refresh.completed (r : Refresh) : List ClaimedRun :=
  if r.phase = .returned then r.runs else r.runs.take r.activeIndex

structure Refresh.Sound (db : Store) (r : Refresh) : Prop where
  finished : ∀ c ∈ r.completed, Finished db c.runId
  begun : r.phase.isBegun = true → ∀ c, r.runs[r.activeIndex]? = some c → Started db c.runId
  last : ∀ code, r.phase = .failing code →
    r.activeIndex + 1 = r.runs.length ∧ safeCode code = true
  handled : r.phase ≠ .raised

theorem Refresh.Sound.mono (h : r.Sound db) (hfinished : ∀ id, Finished db id → Finished db' id)
    (hstarted : ∀ id, Started db id → Started db' id) : r.Sound db' :=
  ⟨fun c hc => hfinished _ (h.finished c hc), fun hphase c hc => hstarted _ (h.begun hphase c hc),
    h.last, h.handled⟩

theorem completed_live (hover : r.phase.isOver = false) :
    r.completed = r.runs.take r.activeIndex := by
  unfold Refresh.completed
  split
  · next hphase =>
      rw [hphase] at hover
      cases hover
  · rfl

theorem completed_next : r.next.completed = r.runs.take (r.activeIndex + 1) := by
  unfold Refresh.next
  split
  · exact if_neg nofun
  · next h =>
      rw [List.take_of_length_le (by omega)]
      exact if_pos rfl

theorem next_phase : r.next.phase = .beginning ∨ r.next.phase = .returned := by
  unfold Refresh.next
  split
  · exact .inl rfl
  · exact .inr rfl

/-- The row that is written for the run at work. -/
theorem Works.written (h : Works db r run) (run' : CalendarSyncRun) (hid : run'.id = run.id)
    {c : ClaimedRun}
    (hc : r.runs[r.activeIndex]? = some c) :
    run' ∈ (db.replaceRun run').runs ∧ run'.id = c.runId := by
  have hmem : run'.id ∈ db.runs.map (·.id) := hid ▸ List.mem_map_of_mem h.mem
  obtain ⟨claimed, hclaimed, hrun⟩ := h
  rw [hclaimed, Option.some.injEq] at hc
  exact ⟨mem_replaceRun.mpr (.inl ⟨rfl, hmem⟩), hid.trans (hc ▸ (run?_mem hrun).2)⟩

/-- What a refresh that goes on knows is what it knew. -/
theorem Refresh.Sound.continues (h : r.Sound db) (hover : r.phase.isOver = false)
    (hcont : r.Continues r')
    (hbegun : r'.phase.isBegun = true → ∀ c, r.runs[r.activeIndex]? = some c → Started db c.runId)
    (hlast : ∀ code, r'.phase = .failing code → r.isLast = true ∧ safeCode code = true) :
    r'.Sound db := by
  refine ⟨fun c hc => ?_, fun hphase c hc => ?_, fun code hphase => ?_, fun hphase => ?_⟩
  · rw [completed_live hcont.phase, hcont.runs, hcont.activeIndex, ← completed_live hover] at hc
    exact h.finished c hc
  · rw [hcont.runs, hcont.activeIndex] at hc
    exact hbegun hphase c hc
  · obtain ⟨hisLast, hcode⟩ := hlast code hphase
    rw [Refresh.isLast, Bool.and_eq_true, beq_iff_eq] at hisLast
    rw [hcont.runs, hcont.activeIndex]
    exact ⟨hisLast.1, hcode⟩
  · have hover' := hcont.phase
    rw [hphase] at hover'
    cases hover'

theorem Refresh.Sound.advance {pid : Nat} {call : SyncCall} {done : Progress}
    (h : r.Sound s.db) (howned : Owned s) (hr : s.refreshes[pid]? = some r)
    (hattempt : attempt p s r call = some (.ok done))
    (hlast : ∀ code, done.refresh.phase = .failing code → r.isLast = true ∧ safeCode code = true) :
    done.refresh.Sound done.db := by
  have hmove : Moves p s (.call pid call) _ := .advanced hr hattempt
  have hkept : r.Sound done.db :=
    h.mono (fun _ => hmove.finished howned) fun _ => hmove.started howned
  have hover := attempt_live hattempt
  have hadvances := attempt_advances hattempt
  cases hadvances with
  | authorized hphase => exact hkept.continues hover ⟨rfl, rfl, rfl⟩ nofun hlast
  | @began now run hphase hworks hchecked =>
      refine hkept.continues hover ⟨rfl, rfl, rfl⟩ (fun _ c hc => ?_) hlast
      obtain ⟨hmem, hid⟩ := hworks.written
        { run with status := .running, startedAt := some now } rfl hc
      exact ⟨_, hmem, hid, rfl⟩
  | paged hphase hworks hevents hrecord hchecked hcont =>
      refine hkept.continues hover hcont (fun _ => hkept.begun ?_) hlast
      rw [hphase]
      rfl
  | @finished now run hphase hworks hcount hchecked =>
      refine ⟨fun c hc => ?_, fun hbegun => ?_, fun code hphase => ?_, fun hphase => ?_⟩
      · rw [completed_next, List.take_add_one, List.mem_append] at hc
        rcases hc with hc | hc
        · rw [← completed_live hover] at hc
          exact hkept.finished c hc
        · obtain ⟨hmem, hid⟩ := hworks.written
            ({ run with observationEvidenceVersion := some evidenceVersion }.finish
              .succeeded none now) rfl (Option.mem_toList.mp hc)
          exact ⟨_, hmem, hid, rfl⟩
      all_goals rcases next_phase (r := r) with hnext | hnext
      · exact absurd hbegun (by rw [hnext]; nofun)
      · exact absurd hbegun (by rw [hnext]; nofun)
      · exact absurd hphase (by rw [hnext]; nofun)
      · exact absurd hphase (by rw [hnext]; nofun)
      · exact absurd hphase (by rw [hnext]; nofun)
      · exact absurd hphase (by rw [hnext]; nofun)

/-- A handler with one run left to finish finishes it. -/
theorem finishAll_last {clock : Nat → Instant} {c : ClaimedRun} {t : Instant}
    (hrun : db.run? c.runId = some run) (hchecked : run.Checked) (hcode : safeCode code = true)
    (hstarted : run.startedAt = some t) (hle : t ≤ clock 0) :
    finishAll code clock 0 [c] db =
      .ok (db.replaceRun (run.finish (failureStatus code) (some code) (clock 0))) := by
  have hok := CalendarSyncRun.checked_iff.mpr (hchecked.finish hcode hstarted hle)
  rw [finishAll, hrun]
  simp only [Store.putRun, hok, if_true]
  rfl

structure Settling (s : SyncState) : Prop where
  sound : ∀ r ∈ s.refreshes, r.Sound s.db
  checked : ∀ run ∈ s.db.runs, run.Checked
  covered : ∀ run ∈ s.db.runs, run.id ∈ s.claims

/-- A refresh that fails late enough finishes its last run. -/
theorem Settling.last {pid : Nat} {clock : Nat → Instant} (h : Settling s) (howned : Owned s)
    (hr : s.refreshes[pid]? = some r) (hphase : r.phase = .failing code)
    (hok : settles p s (.settle pid clock) = true) :
    ∃ c run, r.runs.drop r.activeIndex = [c] ∧ s.db.run? c.runId = some run ∧
      finishAll code clock 0 (r.runs.drop r.activeIndex) s.db =
        .ok (s.db.replaceRun (run.finish (failureStatus code) (some code) (clock 0))) := by
  have hsound := h.sound r (List.mem_of_getElem? hr)
  obtain ⟨hlength, hcode⟩ := hsound.last code hphase
  have hlt : r.activeIndex < r.runs.length := by omega
  have hdrop : r.runs.drop r.activeIndex = [r.runs[r.activeIndex]] := by
    rw [List.drop_eq_getElem_cons hlt, List.drop_eq_nil_iff.mpr (by omega)]
  have hget := List.getElem?_eq_getElem hlt
  obtain ⟨run, hmem, hid, hstarted⟩ := hsound.begun (by rw [hphase]; rfl) _ hget
  have hrun := run?_of_mem howned.runIds hmem
  rw [hid] at hrun
  obtain ⟨t, ht⟩ := Option.isSome_iff_exists.mp hstarted
  rw [settles, hr, Option.all_some, hget, Option.all_some, hrun, Option.all_some, ht,
    Option.all_some, decide_eq_true_eq] at hok
  refine ⟨_, run, hdrop, hrun, ?_⟩
  rw [hdrop]
  exact finishAll_last hrun (h.checked run hmem) hcode ht hok

/-- A call keeps the rows of the runs, and what the refresh has claimed. -/
theorem Advances.keeps {call : SyncCall} {done : Progress} (h : Advances p s r call done) :
    done.db.runs.map (·.id) = s.db.runs.map (·.id) ∧ done.refresh.runs = r.runs := by
  cases h with
  | authorized => exact ⟨rfl, rfl⟩
  | began => exact ⟨replaceRun_ids, rfl⟩
  | paged hphase hworks hevents hrecord hchecked hcont =>
      obtain ⟨⟨revisions, observations, rfl, -⟩, -⟩ := recordAll_adds _ hrecord
      exact ⟨replaceRun_ids, hcont.runs⟩
  | finished => exact ⟨replaceRun_ids, next_runs⟩

theorem claims_keep {pid : Nat} (h : ∀ run ∈ s.db.runs, run.id ∈ s.claims)
    (hids : db.runs.map (·.id) = s.db.runs.map (·.id)) (hr : s.refreshes[pid]? = some r)
    (hruns : r'.runs = r.runs) (accepted : List AcceptedEvent) :
    ∀ run ∈ db.runs, run.id ∈ SyncState.claims ⟨db, s.refreshes.set pid r', accepted⟩ := by
  intro run hrun
  rw [claims_set hr hruns]
  have hid : run.id ∈ s.db.runs.map (·.id) := hids ▸ List.mem_map_of_mem hrun
  obtain ⟨old, hold, hsame⟩ := List.mem_map.mp hid
  exact hsame ▸ h old hold

/-- Where one refresh moves on, the others are as sound as they were. -/
theorem sound_set {pid : Nat} (hsound : r'.Sound db) (hold : ∀ q ∈ s.refreshes, q.Sound db) :
    ∀ q ∈ s.refreshes.set pid r', q.Sound db := by
  intro q hq
  rcases List.mem_or_eq_of_mem_set hq with hq | rfl
  · exact hold q hq
  · exact hsound

theorem Settling.move (h : Settling s) (howned : Owned s) (hok : settles p s l = true)
    (hmove : Moves p s l s') : Settling s' := by
  have hchecked := hmove.checked h.checked
  have hkept : ∀ q ∈ s.refreshes, q.Sound s'.db := fun q hq =>
    (h.sound q hq).mono (fun _ => hmove.finished howned) fun _ => hmove.started howned
  cases hmove with
  | configured => exact ⟨hkept, hchecked, h.covered⟩
  | claimed hnew hids =>
      refine ⟨fun q hq => ?_, hchecked, fun run hrun => ?_⟩
      · rcases List.mem_append.mp hq with hq | hq
        · exact hkept q hq
        · rw [List.mem_singleton] at hq
          subst hq
          exact ⟨fun c hc => absurd hc List.not_mem_nil, (fun h => by cases h), (fun _ h => by cases h),
            fun h => by cases h⟩
      · rw [SyncState.claims, List.flatMap_append, List.mem_append]
        rcases List.mem_append.mp hrun with hrun | hrun
        · exact .inl (h.covered run hrun)
        · refine .inr ?_
          rw [List.flatMap_singleton, Refresh.runIds, List.map_map]
          exact List.mem_map_of_mem (f := fun run : CalendarSyncRun => run.id) hrun
  | @advanced pid call r done hr hattempt =>
      have hids := (attempt_advances hattempt).keeps
      refine ⟨sound_set ?_ hkept, hchecked, claims_keep h.covered hids.1 hr hids.2 _⟩
      refine (h.sound r (List.mem_of_getElem? hr)).advance howned hr hattempt fun code hphase => ?_
      rw [settles, hr, Option.all_some, hattempt, Option.all_some] at hok
      simpa [hphase] using hok
  | @faulted pid call r e hr hattempt =>
      rw [settles, hr, Option.all_some, hattempt, Option.all_some, Bool.and_eq_true,
        Option.any_eq_true] at hok
      obtain ⟨hlast, code, hcode, hsafe⟩ := hok
      have hfault : r.fault e = { r with phase := .failing code } := by
        rw [Refresh.fault, hcode]
      have hsound := h.sound r (List.mem_of_getElem? hr)
      refine ⟨sound_set ?_ hkept, hchecked, claims_keep h.covered ?_ hr ?_ _⟩
      · rw [hfault]
        refine hsound.continues (attempt_live hattempt) ⟨rfl, rfl, rfl⟩ (fun _ => hsound.begun ?_)
          fun code' h => ?_
        · rw [Refresh.isLast, Bool.and_eq_true] at hlast
          exact hlast.2
        · cases h
          exact ⟨hlast, hsafe⟩
      · rfl
      · rfl
  | @settled pid clock r code db hr hphase hdone =>
      obtain ⟨c, run, hdrop, hrun, hfinish⟩ := h.last howned hr hphase hok
      rw [hdone, Except.ok.injEq] at hfinish
      subst hfinish
      have hsound := hkept r (List.mem_of_getElem? hr)
      obtain ⟨hmem, hid⟩ := run?_mem hrun
      refine ⟨sound_set ⟨fun c' hc' => ?_, (fun h => by cases h), (fun _ h => by cases h),
        fun h => by cases h⟩ hkept, hchecked, claims_keep h.covered replaceRun_ids hr ?_ _⟩
      · have hc' : c' ∈ r.runs := hc'
        rw [← List.take_append_drop r.activeIndex r.runs, hdrop, List.mem_append,
          List.mem_singleton] at hc'
        rcases hc' with hc' | rfl
        · refine hsound.finished c' ?_
          rw [completed_live (by rw [hphase]; rfl)]
          exact hc'
        · have hrow : run.id ∈ s.db.runs.map (·.id) := List.mem_map_of_mem hmem
          refine ⟨_, mem_replaceRun.mpr (.inl ⟨rfl, hrow⟩), hid, ?_⟩
          show (failureStatus code).isTerminal = true
          unfold failureStatus
          split <;> rfl
      · rfl
  | @raised pid clock r code e hr hphase hdone =>
      -- the handler does not raise
      obtain ⟨c, run, -, -, hfinish⟩ := h.last howned hr hphase hok
      rw [hdone] at hfinish
      cases hfinish
  | @stopped pid r hr hover =>
      have hsound := h.sound r (List.mem_of_getElem? hr)
      refine ⟨sound_set ⟨fun c hc => ?_, (fun h => by cases h), (fun _ h => by cases h),
        fun h => by cases h⟩ hkept, hchecked, claims_keep h.covered ?_ hr ?_ _⟩
      · refine hsound.finished c ?_
        rw [completed_live hover]
        exact hc
      · rfl
      · rfl

theorem Settling.settled (h : Settling s) (howned : Owned s) : s.Settled := by
  have hterminal : ∀ r ∈ s.refreshes, r.phase = .returned ∨ r.phase = .raised → ∀ c ∈ r.runs,
      Finished s.db c.runId := by
    intro r hr hphase c hc
    rcases hphase with hphase | hphase
    · refine (h.sound r hr).finished c ?_
      rw [Refresh.completed, if_pos hphase]
      exact hc
    · exact absurd hphase (h.sound r hr).handled
  refine ⟨fun r hr hphase c hc => ?_, h.checked, fun run hrun hactive => ?_⟩
  · obtain ⟨run, hrun, hid, hdone⟩ := hterminal r hr hphase c hc
    exact ⟨run, hid ▸ run?_of_mem howned.runIds hrun, hdone⟩
  · obtain ⟨r, hr, hid⟩ := List.mem_flatMap.mp (h.covered run hrun)
    have hlive : ¬ (r.phase = .returned ∨ r.phase = .raised) := by
      intro hphase
      obtain ⟨c, hc, hcid⟩ := List.mem_map.mp hid
      obtain ⟨other, hother, hotherId, hdone⟩ := hterminal r hr hphase c hc
      have hsame := List.inj_on_of_nodup_map howned.runIds hother hrun (hotherId.trans hcid)
      exact active_iff.mp hactive (hsame ▸ hdone)
    exact ⟨r, hr, hid, fun hphase => hlive (.inl hphase), fun hphase => hlive (.inr hphase)⟩

/-- As long as what goes wrong is handled, and hits a refresh in its last run and
after that was begun, every refresh settles what it claimed. -/
theorem refresh_settles
    (h : (Sync.machine p).Reach (fun s l => settles p s l = true) s) : s.Settled := by
  have hsettling : Settling s := by
    refine h.invariant (fun s hs => ?_) fun s l s' hr hok hs hstep =>
      hs.move (owned hr) hok (step_moves hstep)
    have hs : s = {} := hs
    subst hs
    exact ⟨fun _ hr => absurd hr List.not_mem_nil, fun _ hrun => absurd hrun List.not_mem_nil,
      fun _ hrun => absurd hrun List.not_mem_nil⟩
  exact hsettling.settled (owned h)

/-- Two calendars are refreshed, and the second one's page does not arrive. -/
def sampleLateFailure : List SyncLabel :=
  .configure sampleAccount [sampleCalendar 11 "primary", sampleCalendar 12 "work"] ::
    (sampleClaim 0 5 ++
      [.call 0 (.beginRun 5),
        .call 0 (.readPage false (.ok ⟨[], none⟩) 5 fun _ => (0, 0)),
        .call 0 (.finishRun 6),
        .call 0 (.beginRun 7),
        .call 0 (.readPage false (.error (.transport "calendar_timeout")) 8 fun _ => (0, 0)),
        .settle 0 fun _ => 9])

theorem refresh_settles_sample :
    ∃ s : SyncState, s.db.runs.map (·.status) = [.succeeded, .failed] ∧ s.Settled := by
  obtain ⟨s, hs, hrun⟩ := Machine.exists_reach_of_execWith (Sync.machine samplePlatform)
    (settles samplePlatform) sampleLateFailure
    (fun s => decide (s.db.runs.map (·.status) = [.succeeded, .failed]))
    rfl (by decide +kernel)
  exact ⟨s, of_decide_eq_true hrun, refresh_settles hs⟩

/-- When the credential turns out to be of another account no run has been begun.
The handler cannot finish the run it has claimed and raises. -/
theorem early_failure_leaves_claimed :
    ∃ s : SyncState, (Sync.machine samplePlatform).Reachable s ∧ ¬ s.Settled := by
  obtain ⟨s, hs, hrun⟩ := (Sync.machine samplePlatform).exists_reachable_of_exec
    [.configure sampleAccount [sampleCalendar 11 "primary"],
      .claim 7 1 5 5 fun _ => 100,
      .call 0 (.authorize (.ok ⟨"authorized", "ff"⟩) (.ok ())),
      .settle 0 fun _ => 6]
    (fun s : SyncState => s.refreshes.any fun r => decide (r.phase = .raised) &&
      r.runs.any fun c => (s.db.run? c.runId).any CalendarSyncRun.isActive)
    rfl (by decide +kernel)
  refine ⟨s, hs, fun hsettled => ?_⟩
  obtain ⟨r, hr, hrun⟩ := List.any_eq_true.mp hrun
  rw [Bool.and_eq_true, decide_eq_true_eq, List.any_eq_true] at hrun
  obtain ⟨hphase, c, hc, hactive⟩ := hrun
  obtain ⟨run, hfind, hterminal⟩ := hsettled.terminal r hr (.inr hphase) c hc
  rw [hfind, Option.any_some] at hactive
  exact active_iff.mp hactive hterminal

end Calendar

end SecondBrain
