import SecondBrain.Automations.OneRun

/-!
# The capacity of the scheduler

The count of what is active is taken and acted on under one lock, so that a claim adds no
more occurrences, and a creation no more runs, than there is room for. Everything else only
makes room. A run that is asked for again is answered without a look at the count.
-/

namespace SecondBrain

open Lib

namespace Automations

variable {zoneInfo : ZoneInfo} {isoformat : Instant → String} {build : Build}
  {s : SchedulerState} {db db' : Tables} {clock : Instant} {t : Tick} {o o' : OccurrenceRow}
  {runs runs' : Runs}

/-! ## Occurrences -/

/-- Only a claim makes an occurrence active. -/
theorem RowMove.active (h : RowMove db t o o') (hphase : ∀ reclaimed, t.phase ≠ .claiming reclaimed)
    (hactive : o'.state.isActive = true) : o.state.isActive = true := by
  cases h with
  | runMissing _ hlinked _ => exact (isLinked_iff.mp hlinked).2
  | runEnded _ hlinked _ _ => exact (isLinked_iff.mp hlinked).2
  | runCreated _ hlinked _ => exact (isLinked_iff.mp hlinked).2
  | reclaimed _ _ _ => exact hactive
  | claimed hclaiming _ => exact absurd hclaiming (hphase _)
  | linked _ hholds _ _ _ _ => rw [(holds_iff.mp hholds).2.1]; rfl
  | _ => cases hactive

theorem activeCount_turned {ids : List Uuid} (hphase : ∀ reclaimed, t.phase ≠ .claiming reclaimed)
    (h : Turns (fun o o' => o' = o ∨ RowMove db t o o') ids db db') :
    db'.activeCount ≤ db.activeCount := by
  refine h.countP_le fun o _ o' hmove hactive => ?_
  rcases hmove with rfl | hmove
  · exact hactive
  · exact hmove.active hphase hactive

theorem Change.activeCount_le (hrows : KeyedRows db) (h : Change isoformat build clock db db')
    (hfits : db.activeCount ≤ maxActiveOccurrences) : db'.activeCount ≤ maxActiveOccurrences := by
  cases h with
  | projectAdded => exact hfits
  | edited hedited =>
      cases hedited with
      | created _ _ _ => exact hfits
      | written _ => exact hfits
  | created _ => exact hfits
  | ran _ _ => exact hfits
  | turned _ hphase hturns _ =>
      refine (activeCount_turned (fun reclaimed hclaiming => ?_) hturns).trans hfits
      rw [hclaiming] at hphase
      cases hphase
  | @claimed t _ rows _ _ _ hfew htakes =>
      have hmore : db'.activeCount ≤ db.activeCount + (rows.map (·.id)).length :=
        htakes.turns.countP_le_add hrows.occurrences
      rw [List.length_map] at hmore
      omega
  | linked _ hphase hlinks =>
      refine (activeCount_turned (fun reclaimed hclaiming => ?_)
        (hlinks.moves hrows.occurrences hphase)).trans hfits
      rw [hclaiming] at hphase
      cases hphase
  | round _ hround =>
      rcases hround.occurrences with ⟨hsame, -⟩ | ⟨state, disposition, id, hstate, -, hadded⟩
      · rw [Tables.activeCount, hsame]
        exact hfits
      · rw [Tables.activeCount, hadded, List.countP_append, List.countP_singleton, if_neg]
        · exact hfits
        · rcases hstate with rfl | rfl
          · exact Bool.false_ne_true
          · exact Bool.false_ne_true

/-! ## Runs -/

/-- How many runs are not over. -/
def openRuns (runs : Runs) : Nat := runs.countP (·.run.state.holdsCapacity)

theorem createRun_fits {projectExists : Uuid → Bool} {q : AgentRunCreate}
    {keyHash fingerprint : String} {now : Instant} {runId correlationId : Uuid}
    {result : CreateResult} (hfits : openRuns runs ≤ maxActiveRuns)
    (h : createRun build runs projectExists q keyHash fingerprint now runId correlationId =
      .ok (result, runs')) : openRuns runs' ≤ maxActiveRuns := by
  rcases createRun_ok h with ⟨r, -, -, -, rfl⟩ | ⟨-, -, hroom, -, rfl⟩
  · exact hfits
  · rw [openRuns, List.countP_append, List.countP_singleton]
    split
    · exact hroom
    · exact hfits

/-- A run that is over does not go on. -/
theorem becomes_open {r r' : RunRecord} (h : becomes r r' = true)
    (hopen : r'.run.state.holdsCapacity = true) : r.run.state.holdsCapacity = true := by
  rw [AgentRunState.holdsCapacity_iff] at hopen ⊢
  rcases (becomes_iff.mp h).2.2.2.2.2.2 with hsame | hlegal
  · exact hsame ▸ hopen
  · by_contra hover
    rw [Bool.not_eq_false, ← legalTransitions_eq_nil_iff] at hover
    rw [hover] at hlegal
    cases hlegal

theorem put_fits {r r' : RunRecord} (hkeyed : KeyedRuns runs) (hget : runs.get r'.run.id = some r)
    (hbecomes : becomes r r' = true) : openRuns (runs.put r') ≤ openRuns runs := by
  rw [openRuns, Runs.put, List.countP_map]
  refine List.countP_mono_left fun x hx hopen => ?_
  by_cases hid : x.run.id = r'.run.id
  · rw [Function.comp_apply, if_pos hid] at hopen
    have hx' : runs.get r'.run.id = some x := hid ▸ hkeyed.get hx
    obtain rfl := Option.some.inj (hget.symm.trans hx')
    exact becomes_open hbecomes hopen
  · rw [Function.comp_apply, if_neg hid] at hopen
    exact hopen

theorem Change.openRuns_le (hkeyed : KeyedRuns db.runs) (h : Change isoformat build clock db db')
    (hfits : openRuns db.runs ≤ maxActiveRuns) : openRuns db'.runs ≤ maxActiveRuns := by
  cases h with
  | projectAdded => exact hfits
  | edited hedited =>
      cases hedited with
      | created _ _ _ => exact hfits
      | written _ => exact hfits
  | created hcreate => exact createRun_fits hfits hcreate
  | ran hget hbecomes => exact (put_fits hkeyed hget hbecomes).trans hfits
  | turned _ _ _ hframed => exact hframed.runs ▸ hfits
  | claimed _ _ _ htakes => exact htakes.framed.runs ▸ hfits
  | linked _ _ hlinks =>
      obtain ⟨runId, correlationId, hcreate⟩ := hlinks.created
      rw [hlinks.store]
      exact createRun_fits hfits hcreate
  | round _ hround => exact hround.runs ▸ hfits

theorem replayLinked_not_full : replayLinked build db o ≠ .error (.run .capacity) := by
  intro heq
  unfold replayLinked at heq
  split at heq
  · next e he =>
      unfold resolveCreateReplay at he
      split at he
      · cases he
      · unfold replayOrConflict at he
        split at he
        · obtain rfl := Except.error.inj he
          cases heq
        · cases he
  · split at heq
    · cases heq
    · cases heq

theorem validateClaim_error {a : AutomationRow} {claim : Claim} {now : Instant} {e : SchedulerError}
    (h : validateClaim a o claim now = .error e) : e = .fence := by
  unfold validateClaim at h
  split at h
  · exact (Except.error.inj h).symm
  · split at h
    · exact (Except.error.inj h).symm
    · cases h

theorem checkSetup_error {e : SchedulerError} (h : checkSetup db o = .error e) :
    e = .unsupported ∨ e = .validation := by
  unfold checkSetup at h
  split at h
  · exact .inl (Except.error.inj h).symm
  split at h
  · exact .inr (Except.error.inj h).symm
  split at h
  · exact .inr (Except.error.inj h).symm
  · cases h

/-- Only the creation of the run is refused for want of room. -/
theorem createAndLinkRun_full {claim : Claim} {now : Instant} {runId correlationId : Uuid}
    (ho : db.occurrence? claim.occurrenceId = some o)
    (h : createAndLinkRun build db claim now runId correlationId = .error (.run .capacity)) :
    createRun build db.runs db.projects.contains (runRequest o) (runKeyHash build o)
      (runFingerprint build o) now runId correlationId = .error .capacity := by
  unfold createAndLinkRun at h
  rw [ho] at h
  cases ha : db.automation? claim.automationId with
  | none =>
      rw [ha] at h
      cases h
  | some a =>
      rw [ha] at h
      dsimp only at h
      split at h
      · exact absurd h replayLinked_not_full
      cases hvalid : validateClaim a o claim now with
      | error e =>
          rw [hvalid, validateClaim_error hvalid] at h
          cases h
      | ok u =>
          rw [hvalid] at h
          cases hsetup : checkSetup db o with
          | error e =>
              rw [hsetup] at h
              rcases checkSetup_error hsetup with rfl | rfl
              · cases h
              · cases h
          | ok u =>
              rw [hsetup] at h
              cases hcreate : createRun build db.runs db.projects.contains (runRequest o)
                  (runKeyHash build o) (runFingerprint build o) now runId correlationId with
              | error e =>
                  rw [hcreate] at h
                  obtain rfl := SchedulerError.run.inj (Except.error.inj h)
                  rfl
              | ok created =>
                  rw [hcreate] at h
                  have h : (if o.agentRunId.isSome ∧ o.agentRunId ≠ some created.1.runId then
                      .error .validation
                    else flushed (Tables.putOccurrence { db with runs := created.2 }
                      (o.linked created.1.runId))) = .error (.run .capacity) := h
                  split at h
                  · cases h
                  · unfold flushed at h
                    split at h
                    · cases h
                    · cases h

/-- What is there room for. -/
structure Fits (db : Tables) : Prop where
  runs : KeyedRuns db.runs
  occurrences : db.activeCount ≤ maxActiveOccurrences
  openRuns : openRuns db.runs ≤ maxActiveRuns

theorem fits (h : (Scheduler.machine zoneInfo isoformat build).Reachable s) : Fits s.db := by
  refine tables_invariant (I := fun _ db => Fits db) ?_ (fun _ _ _ _ h => h)
    (fun _ _ _ hrows hfits hchange => ?_) h
  · exact ⟨⟨List.nodup_nil, List.nodup_nil⟩, Nat.zero_le _, Nat.zero_le _⟩
  · exact ⟨(hchange.runs_go hfits.runs).1, hchange.activeCount_le hrows hfits.occurrences,
      hchange.openRuns_le hfits.runs hfits.openRuns⟩

/-- In every run of the scheduler, with whatever requests for runs in between, there are no
more active occurrences and no more open runs than the limits allow. A tick that claims
takes no more than there is room for, and a run that is asked for again, by a request or by
the scheduler, is not refused for want of room. -/
theorem capacity_kept (h : (Scheduler.machine zoneInfo isoformat build).Reachable s) :
    s.db.activeCount ≤ maxActiveOccurrences ∧ openRuns s.db.runs ≤ maxActiveRuns ∧
    (∀ now owner lease limit locked claims db',
      claimDue s.db now owner lease limit locked = .ok (claims, db') →
        claims.length + s.db.activeCount ≤ maxActiveOccurrences) ∧
    ∀ r ∈ s.db.runs,
      (∀ q now runId correlationId, createRun build s.db.runs s.db.projects.contains q
        r.run.idempotencyKeyHash (normalizedRequestFingerprint build q) now runId correlationId ≠
          .error .capacity) ∧
      ∀ claim o now runId correlationId, s.db.occurrence? claim.occurrenceId = some o →
        runKeyHash build o = r.run.idempotencyKeyHash →
          createAndLinkRun build s.db claim now runId correlationId ≠ .error (.run .capacity) := by
  have hfits := fits h
  have hreplay : ∀ r ∈ s.db.runs, ∀ projectExists q fingerprint now runId correlationId,
      createRun build s.db.runs projectExists q r.run.idempotencyKeyHash fingerprint now runId
        correlationId ≠ .error .capacity := by
    intro r hr projectExists q fingerprint now runId correlationId heq
    unfold createRun at heq
    split at heq
    · unfold replayOrConflict at heq
      split at heq
      · cases heq
      · cases heq
    · next hnone => exact byIdempotencyHash_none hnone r hr rfl
  refine ⟨hfits.occurrences, hfits.openRuns, fun now owner lease limit locked claims db' hclaim => ?_,
    fun r hr => ⟨fun q now runId correlationId => ?_,
      fun claim o now runId correlationId ho hkey heq => ?_⟩⟩
  · obtain ⟨rows, rfl, hfew, -⟩ := claimDue_takes (t := ⟨owner, now, lease, limit, .claiming []⟩) rfl
      (orderly h).rows.occurrences hclaim
    have hroom := hfits.occurrences
    rw [List.length_map]
    omega
  · exact hreplay r hr _ _ _ _ _ _
  · have hfull := createAndLinkRun_full ho heq
    rw [hkey] at hfull
    exact hreplay r hr _ _ _ _ _ _ hfull

/-- An occurrence has taken room, and its run as well. -/
theorem capacity_kept_linked : ∃ s, sampleScheduler.Reachable s ∧
    s.db.activeCount = 1 ∧ openRuns s.db.runs = 1 ∧ ∀ r ∈ s.db.runs,
      ∀ q now runId correlationId, createRun sampleTools s.db.runs s.db.projects.contains q
        r.run.idempotencyKeyHash (normalizedRequestFingerprint sampleTools q) now runId
          correlationId ≠ .error .capacity := by
  obtain ⟨s, hs, hactive⟩ := sampleScheduler.exists_reachable_of_exec
    (sampleBriefDue ++ sampleClaims 0 9 20 ++ [.move 0 (.link .committed 30 31)])
    (fun s => decide (s.db.activeCount = 1 ∧ openRuns s.db.runs = 1))
    (s := {}) rfl (by decide +kernel)
  have hactive := of_decide_eq_true hactive
  exact ⟨s, hs, hactive.1, hactive.2, fun r hr => ((capacity_kept hs).2.2.2 r hr).1⟩

end Automations

end SecondBrain
