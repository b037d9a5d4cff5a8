import SecondBrain.Automations.SchedulerRuns

/-!
# One occurrence of a slot, one run of an occurrence

A claim that ends without a link is taken over, and the run is created again. The key of
the run is made of the occurrence alone, so that whoever creates it again finds the run that
has the key. The link is never written over, and an occurrence that is over stays as it is.
-/

namespace SecondBrain

open Lib

namespace Automations

variable {zoneInfo : ZoneInfo} {isoformat : Instant → String} {build : Build}
  {s s' : SchedulerState} {db db' : Tables} {clock : Instant} {t : Tick} {o o' : OccurrenceRow}
  {runs runs' : Runs} {r r' : RunRecord}

/-! ## Moves of an occurrence -/

theorem RowMove.slot (h : RowMove db t o o') : o'.slot = o.slot := by
  cases h <;> rfl

theorem RowMove.runKeyHash (h : RowMove db t o o') : runKeyHash build o' = runKeyHash build o := by
  cases h <;> rfl

theorem RowMove.runFingerprint (h : RowMove db t o o') :
    runFingerprint build o' = runFingerprint build o := by
  cases h <;> rfl

theorem RowMove.link_kept {runId : Uuid} (h : RowMove db t o o')
    (hlink : o.agentRunId = some runId) : o'.agentRunId = some runId := by
  cases h with
  | linked _ _ _ _ _ hunlinked =>
      rcases hunlinked with hnone | hsame
      · rw [hlink] at hnone
        cases hnone
      · exact hsame.symm.trans hlink
  | _ => exact hlink

/-! ## Runs -/

theorem becomes_iff : becomes r r' = true ↔ r'.run.id = r.run.id ∧
    r'.run.projectId = r.run.projectId ∧ r'.run.agentKind = r.run.agentKind ∧
    r'.run.agentVersion = r.run.agentVersion ∧
    r'.run.idempotencyKeyHash = r.run.idempotencyKeyHash ∧
    r'.run.normalizedRequestFingerprint = r.run.normalizedRequestFingerprint ∧
    (r'.run.state = r.run.state ∨ r'.run.state ∈ legalTransitions r.run.state) := by
  unfold becomes
  simp only [Bool.and_eq_true, beq_iff_eq, Bool.or_eq_true, decide_eq_true_eq, List.contains_iff_mem,
    and_assoc]

theorem becomes_refl (r : RunRecord) : becomes r r = true :=
  becomes_iff.mpr ⟨rfl, rfl, rfl, rfl, rfl, rfl, .inl rfl⟩

/-- A run is told from others by its identifier and by its key. -/
structure KeyedRuns (runs : Runs) : Prop where
  ids : Keyed (fun r : RunRecord => r.run.id) runs
  keys : Keyed (fun r : RunRecord => r.run.idempotencyKeyHash) runs

/-- Runs are added, and the others go on. -/
def RunsGo (runs runs' : Runs) : Prop :=
  ∀ id r, runs.get id = some r → ∃ r', runs'.get id = some r' ∧ becomes r r' = true

theorem RunsGo.refl (runs : Runs) : RunsGo runs runs :=
  fun _ r h => ⟨r, h, becomes_refl r⟩

theorem KeyedRuns.get (h : KeyedRuns runs) (hr : r ∈ runs) : runs.get r.run.id = some r :=
  h.ids.lookup hr

theorem byIdempotencyHash_none {keyHash : String} (h : runs.byIdempotencyHash keyHash = none) :
    ∀ r ∈ runs, r.run.idempotencyKeyHash ≠ keyHash := by
  intro r hr hkey
  have hnone := List.find?_eq_none.mp h r hr
  exact hnone (beq_iff_eq.mpr hkey)

theorem byIdempotencyHash_some {keyHash : String} (h : runs.byIdempotencyHash keyHash = some r) :
    r ∈ runs ∧ r.run.idempotencyKeyHash = keyHash :=
  ⟨List.mem_of_find?_eq_some h, by simpa using List.find?_some h⟩

section

variable {projectExists : Uuid → Bool} {q : AgentRunCreate} {keyHash fingerprint : String}
  {now : Instant} {runId correlationId : Uuid} {result : CreateResult}

/-- The run that a create call answers is there with the key and the fingerprint. -/
theorem createRun_keyed (hkeyed : KeyedRuns runs)
    (h : createRun build runs projectExists q keyHash fingerprint now runId correlationId =
      .ok (result, runs')) :
    KeyedRuns runs' ∧ RunsGo runs runs' ∧ ∃ r, runs'.get result.runId = some r ∧
      r.run.idempotencyKeyHash = keyHash ∧ r.run.normalizedRequestFingerprint = fingerprint := by
  rcases createRun_ok h with ⟨r, hr, hfingerprint, rfl, rfl⟩ | ⟨hkey, hid, -, rfl, rfl⟩
  · obtain ⟨hmem, hhash⟩ := byIdempotencyHash_some hr
    exact ⟨hkeyed, .refl _, r, hkeyed.get hmem, hhash, hfingerprint⟩
  · have hget := Runs.get_append
      (x := newRun build q keyHash fingerprint now runId correlationId) hid
    refine ⟨⟨hkeyed.ids.append (lookup_eq_none.mp hid), hkeyed.keys.append fun hmem => ?_⟩,
      fun id r hr => ?_, newRun build q keyHash fingerprint now runId correlationId, ?_, rfl, rfl⟩
    · obtain ⟨r, hr, hhash⟩ := List.mem_map.mp hmem
      exact byIdempotencyHash_none hkey r hr hhash
    · refine ⟨r, ?_, becomes_refl r⟩
      rw [hget id, if_neg]
      · exact hr
      · rintro rfl
        exact absurd (hid.symm.trans hr) (by simp)
    · rw [hget]
      exact if_pos rfl

end

theorem put_keyed (hkeyed : KeyedRuns runs) (hget : runs.get r'.run.id = some r)
    (hbecomes : becomes r r' = true) : KeyedRuns (runs.put r') ∧ RunsGo runs (runs.put r') := by
  have hsame := becomes_iff.mp hbecomes
  have hmap : ∀ {β : Type} (f : RunRecord → β), f r' = f r → (runs.put r').map f = runs.map f := by
    intro β f hf
    rw [Runs.put, List.map_map]
    refine List.map_congr_left fun x hx => ?_
    by_cases hid : x.run.id = r'.run.id
    · have hx' : runs.get r'.run.id = some x := hid ▸ hkeyed.get hx
      rw [Function.comp_apply, if_pos hid, hf, Option.some.inj (hget.symm.trans hx')]
    · rw [Function.comp_apply, if_neg hid]
  refine ⟨⟨?_, ?_⟩, fun id x hx => ?_⟩
  · rw [Keyed, hmap _ hsame.1]
    exact hkeyed.ids
  · rw [Keyed, hmap _ hsame.2.2.2.2.1]
    exact hkeyed.keys
  · rw [Runs.get_put hget rfl]
    split
    · next hid =>
        rw [hid, hget] at hx
        exact ⟨r', rfl, Option.some.inj hx ▸ hbecomes⟩
    · exact ⟨x, hx, becomes_refl x⟩

theorem Change.runs_go (hkeyed : KeyedRuns db.runs) (h : Change isoformat build clock db db') :
    KeyedRuns db'.runs ∧ RunsGo db.runs db'.runs := by
  cases h with
  | projectAdded => exact ⟨hkeyed, .refl _⟩
  | edited h =>
      cases h with
      | created _ _ _ => exact ⟨hkeyed, .refl _⟩
      | written _ => exact ⟨hkeyed, .refl _⟩
  | created hcreate =>
      obtain ⟨hkeyed', hgo, -⟩ := createRun_keyed hkeyed hcreate
      exact ⟨hkeyed', hgo⟩
  | ran hget hbecomes => exact put_keyed hkeyed hget hbecomes
  | turned _ _ _ hframed =>
      rw [hframed.runs]
      exact ⟨hkeyed, .refl _⟩
  | claimed _ _ _ htakes =>
      rw [htakes.framed.runs]
      exact ⟨hkeyed, .refl _⟩
  | linked _ _ hlinks =>
      obtain ⟨runId, correlationId, hcreate⟩ := hlinks.created
      obtain ⟨hkeyed', hgo, -⟩ := createRun_keyed hkeyed hcreate
      rw [hlinks.store]
      exact ⟨hkeyed', hgo⟩
  | round _ hround =>
      rw [hround.runs]
      exact ⟨hkeyed, .refl _⟩

/-! ## Links -/

/-- The run has the key of the occurrence and is of the same request. -/
def RunOf (build : Build) (o : OccurrenceRow) (r : RunRecord) : Prop :=
  r.run.idempotencyKeyHash = runKeyHash build o ∧
    r.run.normalizedRequestFingerprint = runFingerprint build o

/-- The state of an occurrence says what has become of its run. -/
def Told (o : OccurrenceRow) (r : RunRecord) : Prop :=
  o.state = .runCreated ∨ o.state = .completed ∧ r.run.state = .completed ∨
    o.state = .failed ∧ r.run.state.isTerminal = true ∧ r.run.state ≠ .completed

theorem Told.becomes (h : Told o r) (hbecomes : becomes r r' = true) : Told o r' := by
  have hover : r.run.state.isTerminal = true → r'.run.state = r.run.state := by
    intro hterminal
    rcases (becomes_iff.mp hbecomes).2.2.2.2.2.2 with hsame | hlegal
    · exact hsame
    · rw [(legalTransitions_eq_nil_iff _).mpr hterminal] at hlegal
      cases hlegal
  rcases h with hcreated | ⟨hstate, hrun⟩ | ⟨hstate, hrun, hne⟩
  · exact .inl hcreated
  · refine .inr (.inl ⟨hstate, (hover ?_).trans hrun⟩)
    rw [hrun]
    rfl
  · refine .inr (.inr ⟨hstate, ?_⟩)
    rw [hover hrun]
    exact ⟨hrun, hne⟩

/-- What holds of an occurrence and its run. -/
structure Links (build : Build) (db : Tables) (o : OccurrenceRow) : Prop where
  run : ∀ runId, o.agentRunId = some runId →
    ∃ r, db.runs.get runId = some r ∧ RunOf build o r ∧ Told o r
  waiting : o.agentRunId = none → o.state ≠ .runCreated ∧ o.state ≠ .completed

/-- The slots, the runs and the links. -/
structure LinkedOnce (build : Build) (db : Tables) : Prop where
  runs : KeyedRuns db.runs
  slots : Keyed (·.slot) db.occurrences
  links : ∀ o ∈ db.occurrences, Links build db o
  apart : ∀ o ∈ db.occurrences, ∀ p ∈ db.occurrences, ∀ runId, o.agentRunId = some runId →
    p.agentRunId = some runId → o = p

theorem Links.go (h : Links build db o) (hgo : RunsGo db.runs db'.runs) : Links build db' o := by
  refine ⟨fun runId hlink => ?_, h.waiting⟩
  obtain ⟨r, hr, hof, htold⟩ := h.run runId hlink
  obtain ⟨r', hr', hbecomes⟩ := hgo runId r hr
  have hsame := becomes_iff.mp hbecomes
  exact ⟨r', hr', ⟨hsame.2.2.2.2.1.trans hof.1, hsame.2.2.2.2.2.1.trans hof.2⟩,
    htold.becomes hbecomes⟩

theorem RunOf.move (hmove : RowMove db t o o') (h : RunOf build o r) : RunOf build o' r :=
  ⟨h.1.trans hmove.runKeyHash.symm, h.2.trans hmove.runFingerprint.symm⟩

/-- A linked occurrence that is not over has made its run. -/
theorem Links.runCreated (h : Links build db o) (hlink : o.agentRunId ≠ none)
    (hopen : o.state.isTerminal = false) : o.state = .runCreated := by
  obtain ⟨runId, hrun⟩ := Option.ne_none_iff_exists'.mp hlink
  obtain ⟨r, -, -, hstate | ⟨hstate, -⟩ | ⟨hstate, -⟩⟩ := h.run runId hrun
  · exact hstate
  · rw [hstate] at hopen
    cases hopen
  · rw [hstate] at hopen
    cases hopen

theorem Links.unlinked (state : OccurrenceState) (hlink : o.agentRunId = none)
    (hstate : o.state = state) (hother : state ≠ .runCreated ∧ state ≠ .completed) :
    Links build db o := by
  refine ⟨fun runId hrun => ?_, fun _ => hstate ▸ hother⟩
  rw [hlink] at hrun
  cases hrun

/-- A move of an occurrence that does not link it. -/
theorem RowMove.links (hmove : RowMove db t o o') (h : Links build db o)
    (hphase : ∀ claim rest, t.phase ≠ .linking claim rest) : Links build db o' := by
  have hsame : Automations.runKeyHash build o' = Automations.runKeyHash build o := hmove.runKeyHash
  have hsame' : Automations.runFingerprint build o' = Automations.runFingerprint build o :=
    hmove.runFingerprint
  have hcreated := fun hlink => h.runCreated hlink hmove.open_
  cases hmove with
  | runMissing _ hlinked hmissing =>
      obtain ⟨runId, hrun⟩ := Option.isSome_iff_exists.mp (isLinked_iff.mp hlinked).1
      obtain ⟨r, hr, -⟩ := h.run runId hrun
      rw [hrun, Option.bind_some, hr] at hmissing
      cases hmissing
  | runEnded _ hlinked hget hover =>
      refine ⟨fun runId hrun => ?_, fun hnone => ?_⟩
      · obtain ⟨r, hr, hof, -⟩ := h.run runId hrun
        have hrun' : o.agentRunId = some runId := hrun
        rw [hrun', Option.bind_some, hr] at hget
        obtain rfl := Option.some.inj hget
        refine ⟨r, hr, ⟨hof.1.trans hsame.symm, hof.2.trans hsame'.symm⟩, ?_⟩
        by_cases hcompleted : r.run.state = .completed
        · exact .inr (.inl ⟨if_pos hcompleted, hcompleted⟩)
        · exact .inr (.inr ⟨if_neg hcompleted, hover, hcompleted⟩)
      · have hnone' : o.agentRunId = none := hnone
        rw [hnone'] at hget
        cases hget
  | runCreated _ hlinked hclaimed =>
      rw [hcreated (Option.isSome_iff_ne_none.mp (isLinked_iff.mp hlinked).1)] at hclaimed
      cases hclaimed
  | reclaimed _ hexpired hnone =>
      have hstate := isExpired_claimed hexpired
      exact .unlinked .claimed hnone hstate (by decide)
  | claimed _ hclaimable =>
      refine .unlinked .claimed (by_contra fun hlink => ?_) rfl (by decide)
      exact absurd ((isClaimable_due hclaimable).symm.trans (hcreated hlink)) (by decide)
  | linked hlinking _ _ _ _ _ => exact absurd hlinking (hphase _ _)
  | deferred _ _ _ hnone => exact .unlinked .due hnone rfl (by decide)
  | exhausted _ _ _ hnone => exact .unlinked .failed hnone rfl (by decide)
  | failed _ _ hnone _ => exact .unlinked .failed hnone rfl (by decide)

theorem RowMove.link (h : RowMove db t o o') (hphase : ∀ claim rest, t.phase ≠ .linking claim rest) :
    o'.agentRunId = o.agentRunId := by
  cases h with
  | linked hlinking _ _ _ _ _ => exact absurd hlinking (hphase _ _)
  | _ => rfl

theorem LinkedOnce.turned {ids : List Uuid} (hids : Keyed (·.id) db.occurrences)
    (hphase : ∀ claim rest, t.phase ≠ .linking claim rest)
    (hturns : Turns (fun o o' => o' = o ∨ RowMove db t o o') ids db db')
    (hruns : db'.runs = db.runs) (h : LinkedOnce build db) : LinkedOnce build db' := by
  refine ⟨hruns ▸ h.runs, ?_, fun o' ho' => ?_, fun o' ho' p' hp' runId hrun hrun' => ?_⟩
  · rw [Keyed, hturns.map_eq fun o _ o' hmove => ?_]
    · exact h.slots
    · rcases hmove with rfl | hmove
      · rfl
      · exact hmove.slot
  · obtain ⟨o, ho, -, hmove⟩ := hturns.mem ho'
    have hlinks : Links build db o' := by
      rcases hmove with rfl | rfl | hmove
      · exact h.links _ ho
      · exact h.links _ ho
      · exact hmove.links (h.links o ho) hphase
    exact hlinks.go (hruns ▸ .refl _)
  · have hlink : ∀ {o o' : OccurrenceRow}, o' = o ∨ o' = o ∨ RowMove db t o o' →
        o'.agentRunId = o.agentRunId := by
      intro o o' hmove
      rcases hmove with rfl | rfl | hmove
      · rfl
      · rfl
      · exact hmove.link hphase
    obtain ⟨o, ho, hid, hmove⟩ := hturns.mem ho'
    obtain ⟨p, hp, hid', hmove'⟩ := hturns.mem hp'
    rw [hlink hmove] at hrun
    rw [hlink hmove'] at hrun'
    obtain rfl := h.apart o ho p hp runId hrun hrun'
    exact (hturns.keyed hids).inj ho' hp' (hid.trans hid'.symm)

theorem LinkedOnce.linked {claim : Claim} {now : Instant} {result : CreateResult}
    (hids : Keyed (·.id) db.occurrences) (hlinks : LinksRun build db claim now o result runs db')
    (h : LinkedOnce build db) : LinkedOnce build db' := by
  obtain ⟨runId, correlationId, hcreate⟩ := hlinks.created
  obtain ⟨hkeyed, hgo, r, hr, hhash, hfingerprint⟩ := createRun_keyed h.runs hcreate
  have ho := (lookup_mem hlinks.found).1
  have hslot : (replace (·.id) (o.linked result.runId) db.occurrences).map (·.slot) =
      db.occurrences.map (·.slot) := by
    refine Turned.map_eq (R := fun o o' => o'.slot = o.slot) (fun _ _ _ h => h)
      (Turned.replace hids ho ?_ ?_)
    · rfl
    · rfl
  have hmem : ∀ {x}, x ∈ db'.occurrences →
      x = o.linked result.runId ∨ x ∈ db.occurrences ∧ x.id ≠ o.id := by
    intro x hx
    rw [hlinks.store] at hx
    rcases mem_replace.mp hx with ⟨hx, -⟩ | hx
    · exact .inl hx
    · exact .inr hx
  -- The constraint on the link keeps the run from being that of another occurrence.
  have hapart : ∀ p ∈ db.occurrences, p.id ≠ o.id → p.agentRunId ≠ some result.runId := by
    intro p hp hne hrun
    have hshares := hlinks.apart
    unfold Tables.sharesRun at hshares
    have hp' := List.any_eq_false.mp hshares p hp
    rw [hrun] at hp'
    exact hp' (by simp [OccurrenceRow.linked, hne])
  have hnew : Links build db' (o.linked result.runId) := by
    refine ⟨fun id hid => ⟨r, ?_, ⟨hhash, hfingerprint⟩, .inl rfl⟩, fun hnone => ?_⟩
    · obtain rfl := Option.some.inj hid
      rw [hlinks.store]
      exact hr
    · cases hnone
  refine ⟨?_, ?_, fun x hx => ?_, fun x hx y hy id hrun hrun' => ?_⟩
  · rw [hlinks.store]
    exact hkeyed
  · rw [hlinks.store, Keyed, hslot]
    exact h.slots
  · rcases hmem hx with rfl | ⟨hx, -⟩
    · exact hnew
    · exact (h.links x hx).go (by rw [hlinks.store]; exact hgo)
  · rcases hmem hx with rfl | ⟨hx, hne⟩
    · obtain rfl := Option.some.inj hrun
      rcases hmem hy with rfl | ⟨hy, hne'⟩
      · rfl
      · exact absurd hrun' (hapart y hy hne')
    · rcases hmem hy with rfl | ⟨hy, hne'⟩
      · obtain rfl := Option.some.inj hrun'
        exact absurd hrun (hapart x hx hne)
      · exact h.apart x hx y hy id hrun hrun'

theorem LinkedOnce.change (hrows : KeyedRows db) (h : LinkedOnce build db)
    (hchange : Change isoformat build clock db db') : LinkedOnce build db' := by
  obtain ⟨hkeyed, hgo⟩ := hchange.runs_go h.runs
  have hleft : db'.occurrences = db.occurrences → LinkedOnce build db' := by
    intro hsame
    refine ⟨hkeyed, hsame ▸ h.slots, fun o ho => ?_, hsame ▸ h.apart⟩
    exact (h.links o (hsame ▸ ho)).go hgo
  cases hchange with
  | projectAdded => exact hleft rfl
  | edited hedited =>
      cases hedited with
      | created _ _ _ => exact hleft rfl
      | written _ => exact hleft rfl
  | created _ => exact hleft rfl
  | ran _ _ => exact hleft rfl
  | turned _ hphase hturns hframed =>
      refine h.turned hrows.occurrences (fun claim rest hlinking => ?_) hturns hframed.runs
      rw [hlinking] at hphase
      cases hphase
  | claimed _ hphase _ htakes =>
      refine h.turned hrows.occurrences (fun claim rest hlinking => ?_) htakes.moves
        htakes.framed.runs
      rw [hphase] at hlinking
      cases hlinking
  | linked _ _ hlinks => exact h.linked hrows.occurrences hlinks
  | round _ hround =>
      rcases hround.occurrences with ⟨hsame, -⟩ | ⟨state, disposition, id, hstate, haccepts, hadded⟩
      · exact hleft hsame
      have hslot := (acceptsOccurrence_iff.mp haccepts).2.2.1
      refine ⟨hkeyed, ?_, fun o ho => ?_, fun o ho p hp runId hrun hrun' => ?_⟩
      · rw [hadded]
        exact h.slots.append (lookup_eq_none.mp hslot)
      · rw [hadded] at ho
        rcases List.mem_append.mp ho with ho | ho
        · exact (h.links o ho).go hgo
        · obtain rfl := List.mem_singleton.mp ho
          rcases hstate with rfl | rfl
          · exact .unlinked .missed rfl rfl (by decide)
          · exact .unlinked .due rfl rfl (by decide)
      · rw [hadded] at ho hp
        rcases List.mem_append.mp ho with ho | ho
        · rcases List.mem_append.mp hp with hp | hp
          · exact h.apart o ho p hp runId hrun hrun'
          · obtain rfl := List.mem_singleton.mp hp
            cases hrun'
        · obtain rfl := List.mem_singleton.mp ho
          cases hrun

/-! ## Runs of the scheduler -/

theorem linkedOnce (h : (Scheduler.machine zoneInfo isoformat build).Reachable s) :
    LinkedOnce build s.db := by
  refine tables_invariant (I := fun _ db => LinkedOnce build db) ?_ (fun _ _ _ _ h => h)
    (fun _ _ _ hrows h hchange => h.change hrows hchange) h
  refine ⟨⟨List.nodup_nil, List.nodup_nil⟩, List.nodup_nil, fun o ho => ?_, fun o ho => ?_⟩
  · cases ho
  · cases ho

/-- What becomes of the occurrences from some tables to later ones. -/
def OccurrencesLast (build : Build) (db db' : Tables) : Prop :=
  ∀ id o, db.occurrence? id = some o → ∃ o', db'.occurrence? id = some o' ∧ o'.slot = o.slot ∧
    runKeyHash build o' = runKeyHash build o ∧
    (∀ runId, o.agentRunId = some runId → o'.agentRunId = some runId) ∧
    (o.state.isTerminal = true → o' = o)

theorem OccurrencesLast.refl (db : Tables) : OccurrencesLast build db db :=
  fun _ o ho => ⟨o, ho, rfl, rfl, fun _ h => h, fun _ => rfl⟩

theorem OccurrencesLast.trans {db'' : Tables} (h : OccurrencesLast build db db')
    (h' : OccurrencesLast build db' db'') : OccurrencesLast build db db'' := by
  intro id o ho
  obtain ⟨o', ho', hslot, hkey, hlink, hover⟩ := h id o ho
  obtain ⟨o'', ho'', hslot', hkey', hlink', hover'⟩ := h' id o' ho'
  refine ⟨o'', ho'', hslot'.trans hslot, hkey'.trans hkey, fun runId hrun => ?_, fun hterminal => ?_⟩
  · exact hlink' runId (hlink runId hrun)
  · obtain rfl := hover hterminal
    exact hover' hterminal

theorem Change.occurrences_last (hrows : KeyedRows db)
    (h : Change isoformat build clock db db') : OccurrencesLast build db db' := by
  intro id o ho
  obtain ⟨o', ho', rfl | ⟨t, -, hmove⟩⟩ := h.occurrence_later hrows.occurrences ho
  · exact ⟨o', ho', rfl, rfl, fun _ h => h, fun _ => rfl⟩
  · refine ⟨o', ho', hmove.slot, hmove.runKeyHash, fun _ => hmove.link_kept, fun hterminal => ?_⟩
    rw [hmove.open_] at hterminal
    cases hterminal

theorem occurrences_last (h : (Scheduler.machine zoneInfo isoformat build).Reachable s)
    (h' : ((Scheduler.machine zoneInfo isoformat build).startingAt s).Reachable s') :
    OccurrencesLast build s.db s'.db :=
  tables_later .refl .trans (fun _ _ _ hrows hchange => hchange.occurrences_last hrows) h h'

/-- The runs that have a key keep it. -/
def KeysLast (db db' : Tables) : Prop := KeyedRuns db.runs → KeyedRuns db'.runs ∧
  ∀ id r, db.runs.get id = some r →
    ∃ r', db'.runs.get id = some r' ∧ r'.run.idempotencyKeyHash = r.run.idempotencyKeyHash

theorem Change.keys_last (h : Change isoformat build clock db db') : KeysLast db db' := by
  intro hkeyed
  obtain ⟨hkeyed', hgo⟩ := h.runs_go hkeyed
  refine ⟨hkeyed', fun id r hr => ?_⟩
  obtain ⟨r', hr', hbecomes⟩ := hgo id r hr
  exact ⟨r', hr', (becomes_iff.mp hbecomes).2.2.2.2.1⟩

theorem KeysLast.trans {db'' : Tables} (h : KeysLast db db') (h' : KeysLast db' db'') :
    KeysLast db db'' := by
  intro hkeyed
  obtain ⟨hmid, hkeys⟩ := h hkeyed
  obtain ⟨hend, hkeys'⟩ := h' hmid
  refine ⟨hend, fun id r hr => ?_⟩
  obtain ⟨r', hr', hsame⟩ := hkeys id r hr
  obtain ⟨r'', hr'', hsame'⟩ := hkeys' id r' hr'
  exact ⟨r'', hr'', hsame'.trans hsame⟩

/-- In every run of the scheduler, a slot has one occurrence and an occurrence one run. The
run is the only one with the key of the occurrence, and the state of the occurrence says
what has become of it. Whatever happens later, the occurrence keeps its slot and its link,
and no run is linked to it where another one has its key. -/
theorem one_run_per_slot (h : (Scheduler.machine zoneInfo isoformat build).Reachable s) :
    (∀ o ∈ s.db.occurrences, ∀ p ∈ s.db.occurrences, o.slot = p.slot → o = p) ∧
    (∀ o ∈ s.db.occurrences, ∀ runId, o.agentRunId = some runId →
      ∃ r ∈ s.db.runs, r.run.id = runId ∧ RunOf build o r ∧ Told o r ∧
        (∀ r' ∈ s.db.runs, r'.run.idempotencyKeyHash = runKeyHash build o → r' = r) ∧
        ∀ p ∈ s.db.occurrences, p.agentRunId = some runId → p = o) ∧
    ∀ s', ((Scheduler.machine zoneInfo isoformat build).startingAt s).Reachable s' →
      OccurrencesLast build s.db s'.db ∧
      ∀ o ∈ s.db.occurrences, ∀ r ∈ s.db.runs, r.run.idempotencyKeyHash = runKeyHash build o →
        ∃ o', s'.db.occurrence? o.id = some o' ∧
          (o'.agentRunId = none ∨ o'.agentRunId = some r.run.id) := by
  have hs := linkedOnce h
  refine ⟨fun o ho p hp => hs.slots.inj ho hp, fun o ho runId hlink => ?_, fun s' h' => ?_⟩
  · obtain ⟨r, hr, hof, htold⟩ := (hs.links o ho).run runId hlink
    refine ⟨r, Runs.mem_of_get hr, Runs.get_id hr, hof, htold, fun r' hr' hkey => ?_,
      fun p hp hlink' => hs.apart p hp o ho runId hlink' hlink⟩
    exact hs.runs.keys.inj hr' (Runs.mem_of_get hr) (hkey.trans hof.1.symm)
  · have hlast := occurrences_last h h'
    have hkeys : KeysLast s.db s'.db :=
      tables_later (fun _ hkeyed => ⟨hkeyed, fun _ r hr => ⟨r, hr, rfl⟩⟩) .trans
        (fun _ _ _ _ hchange => hchange.keys_last) h h'
    refine ⟨hlast, fun o ho r hr hkey => ?_⟩
    obtain ⟨o', ho', -, hsame, -⟩ := hlast o.id o ((orderly h).rows.occurrences.lookup ho)
    refine ⟨o', ho', ?_⟩
    cases hlink : o'.agentRunId with
    | none => exact .inl rfl
    | some runId =>
        have hs' := linkedOnce (h.append h')
        obtain ⟨r', hr', hof, -⟩ := (hs'.links o' (lookup_mem ho').1).run runId hlink
        obtain ⟨r'', hr'', hhash⟩ := (hkeys hs.runs).2 r.run.id r (hs.runs.get hr)
        have heq : r'.run.idempotencyKeyHash = r''.run.idempotencyKeyHash :=
          hof.1.trans (hsame.trans (hkey.symm.trans hhash.symm))
        obtain rfl := hs'.runs.keys.inj (Runs.mem_of_get hr') (Runs.mem_of_get hr'') heq
        rw [← Runs.get_id hr', Runs.get_id hr'']
        exact .inr rfl

/-! ## A run -/

def sampleNoon : ScheduleDefinition := sampleDaily 43200000000 (by decide)

def sampleBrief : AutomationCreate where
  label := "Brief"
  agentKind := "daily_brief"
  executionMode := .automaticReadOnly
  schedule := sampleNoon
  missedRunPolicy := some .runOnce

/-- A brief is enabled in the evening, and it is noon of the next day. -/
def sampleBriefDue : List SchedulerLabel :=
  [.clock 1767294000000000, .edit (.create sampleBrief 1), .edit (.enable 1 0),
    .clock 1767355200000000]

/-- A tick up to its claims. -/
def sampleClaims (i : Nat) (owner occurrenceId : Uuid) : List SchedulerLabel :=
  [.tick owner (seconds 30) 4, .move i (.reconcile [] (fun _ => false) fun _ => 90),
    .move i (.reclaim []), .move i (.materialize [] (fun _ => occurrenceId) fun _ => 91),
    .move i (.claim [])]

abbrev sampleScheduler : Machine SchedulerState SchedulerLabel :=
  Scheduler.machine (fun _ => .found utcZone) (fun _ => "2026-01-02T12:00:00+00:00") sampleTools

/-- A tick crashes after its claim, and another one takes the claim over and links the run. -/
theorem one_run_per_slot_retaken : ∃ s, sampleScheduler.Reachable s ∧
    ∃ o ∈ s.db.occurrences, o.leaseGeneration = 2 ∧ o.agentRunId = some 30 ∧
      ∃ r ∈ s.db.runs, r.run.id = 30 ∧ RunOf sampleTools o r := by
  obtain ⟨s, hs, hlinked⟩ := sampleScheduler.exists_reachable_of_exec
    (sampleBriefDue ++ sampleClaims 0 9 20 ++ [.crash 0, .clock 1767355230000000] ++
      sampleClaims 1 10 21 ++ [.move 1 (.link (.unacknowledged true) 30 31)])
    (fun s => s.db.occurrences.any fun o => o.leaseGeneration == 2 && o.agentRunId == some 30)
    (s := {}) rfl (by decide +kernel)
  obtain ⟨o, ho, hlink⟩ := List.any_eq_true.mp hlinked
  rw [Bool.and_eq_true, beq_iff_eq, beq_iff_eq] at hlink
  obtain ⟨r, hr, hid, hof, -⟩ := (one_run_per_slot hs).2.1 o ho 30 hlink.2
  exact ⟨s, hs, o, ho, hlink.1, hlink.2, r, hr, hid, hof⟩

end Automations

end SecondBrain
