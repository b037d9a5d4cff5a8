import SecondBrain.Automations.SchedulerSteps
import Mathlib.Logic.Relation

/-!
# Runs of the scheduler

A step of the machine changes the tables a few times or not at all, and each change is one
of a few kinds (`Change`). What every change keeps holds of the tables of every state
(`tables_invariant`), and a relation that every change is in holds between the tables of a
state and those of a later one (`tables_later`).
-/

namespace SecondBrain

open Lib

namespace Automations

variable {zoneInfo : ZoneInfo} {isoformat : Instant → String} {build : Build}
  {s s' : SchedulerState} {db db' : Tables} {clock : Instant}

/-! ## Steps -/

/-- What a step of the machine does. A crash is a move after which the tick is stopped. -/
inductive SchedulerStep (isoformat : Instant → String) (build : Build) (s : SchedulerState) :
    SchedulerState → Prop
  | passed {now : Instant} :
      s.clock ≤ now → SchedulerStep isoformat build s { s with clock := now }
  | projectAdded {id : Uuid} :
      SchedulerStep isoformat build s
        { s with db := { s.db with projects := s.db.projects ++ [id] } }
  | edited {db' : Tables} :
      Edited s.db s.clock db' → SchedulerStep isoformat build s { s with db := db' }
  | created {q : AgentRunCreate} {keyHash fingerprint : String} {runId correlationId : Uuid}
      {result : CreateResult} {runs : Runs} :
      createRun build s.db.runs s.db.projects.contains q keyHash fingerprint s.clock runId
        correlationId = .ok (result, runs) →
      SchedulerStep isoformat build s { s with db := { s.db with runs := runs } }
  | ran {r r' : RunRecord} :
      s.db.runs.get r'.run.id = some r → becomes r r' = true →
      SchedulerStep isoformat build s { s with db := { s.db with runs := s.db.runs.put r' } }
  | joined {t : Tick} :
      t.now = s.clock → t.phase = .reconciling → (∀ t' ∈ s.ticks, t'.owner ≠ t.owner) →
      SchedulerStep isoformat build s { s with ticks := s.ticks ++ [t] }
  | moved {i : Nat} {t : Tick} {phase : TickPhase} {db' : Tables} :
      s.ticks[i]? = some t → TickStep isoformat build s.db t phase db' →
      SchedulerStep isoformat build s (s.setTick i { t with phase := phase } db')

theorem step_cases {l : SchedulerLabel} (hrows : KeyedRows s.db)
    (h : Scheduler.step zoneInfo isoformat build s l = some s') :
    SchedulerStep isoformat build s s' := by
  cases l with
  | clock now =>
      simp only [Scheduler.step] at h
      split at h
      · next hle =>
          obtain rfl := Option.some.inj h
          exact .passed hle
      · cases h
  | project id =>
      simp only [Scheduler.step] at h
      split at h
      · cases h
      · obtain rfl := Option.some.inj h
        exact .projectAdded
  | edit e =>
      simp only [Scheduler.step] at h
      split at h
      · split at h
        · next hedit =>
            obtain rfl := Option.some.inj h
            exact .edited (applyEdit_spec hedit)
        · cases h
      · cases h
  | create q keyHash runId correlationId =>
      simp only [Scheduler.step] at h
      split at h
      · next hcreate =>
          obtain rfl := Option.some.inj h
          exact .created hcreate
      · cases h
  | run r' =>
      simp only [Scheduler.step] at h
      split at h
      · next hget =>
          split at h
          · next hbecomes =>
              obtain rfl := Option.some.inj h
              exact .ran hget hbecomes
          · cases h
      · cases h
  | tick owner lease limit =>
      simp only [Scheduler.step] at h
      split at h
      · next hfresh =>
          obtain rfl := Option.some.inj h
          refine .joined rfl rfl fun t ht hsame => hfresh.2 ?_
          exact List.any_eq_true.mpr ⟨t, ht, beq_iff_eq.mpr hsame⟩
      · cases h
  | move i m =>
      simp only [Scheduler.step] at h
      split at h
      · next t ht =>
          obtain ⟨⟨t', d⟩, hadvance, rfl⟩ := Option.map_eq_some_iff.mp h
          obtain ⟨phase, rfl, hstep⟩ := advance_step hrows hadvance
          exact .moved ht hstep
      · cases h
  | crash i =>
      simp only [Scheduler.step] at h
      split at h
      · next t ht =>
          split at h
          · cases h
          · obtain rfl := Option.some.inj h
            exact .moved ht stopped_rests
      · cases h

/-! ## Changes of the tables -/

/-- A change of the tables, at the time of the clock or, in a tick, before it. -/
inductive Change (isoformat : Instant → String) (build : Build) (clock : Instant) (db : Tables) :
    Tables → Prop
  | projectAdded {id : Uuid} :
      Change isoformat build clock db { db with projects := db.projects ++ [id] }
  | edited {db' : Tables} : Edited db clock db' → Change isoformat build clock db db'
  | created {q : AgentRunCreate} {keyHash fingerprint : String} {runId correlationId : Uuid}
      {result : CreateResult} {runs : Runs} :
      createRun build db.runs db.projects.contains q keyHash fingerprint clock runId
        correlationId = .ok (result, runs) →
      Change isoformat build clock db { db with runs := runs }
  | ran {r r' : RunRecord} :
      db.runs.get r'.run.id = some r → becomes r r' = true →
      Change isoformat build clock db { db with runs := db.runs.put r' }
  | turned {t : Tick} {ids : List Uuid} {db' : Tables} :
      t.now ≤ clock → t.phase.plain = true →
      Turns (fun o o' => o' = o ∨ RowMove db t o o') ids db db' → Framed db db' →
      Change isoformat build clock db db'
  | claimed {t : Tick} {reclaimed : List Claim} {rows : List OccurrenceRow} {db' : Tables} :
      t.now ≤ clock → t.phase = .claiming reclaimed →
      rows.length ≤ maxActiveOccurrences - db.activeCount →
      Takes db t rows (fun o => o.claimed t.owner t.now t.lease) db' →
      Change isoformat build clock db db'
  | linked {t : Tick} {claim : Claim} {rest : List Claim} {o : OccurrenceRow}
      {result : CreateResult} {runs : Runs} {db' : Tables} :
      t.now ≤ clock → t.phase = .linking claim rest →
      LinksRun build db claim t.now o result runs db' → Change isoformat build clock db db'
  | round {now : Instant} {a : AutomationRow} {point : SchedulePoint} {next : Option Instant}
      {db' : Tables} :
      now ≤ clock → Round isoformat now db a point next db' → Change isoformat build clock db db'

/-- A few changes. -/
abbrev Changes (isoformat : Instant → String) (build : Build) (clock : Instant) :
    Tables → Tables → Prop :=
  Relation.ReflTransGen (Change isoformat build clock)

theorem Takes.moves {t : Tick} {rows : List OccurrenceRow} {f : OccurrenceRow → OccurrenceRow}
    (h : Takes db t rows f db') :
    Turns (fun o o' => o' = o ∨ RowMove db t o o') (rows.map (·.id)) db db' := by
  refine h.turns.mono fun o _ o' ho => ?_
  obtain ⟨hmem, rfl, -⟩ := ho
  exact .inr (h.mem o hmem).2

theorem Materialized.changes {now : Instant} (hnow : now ≤ clock)
    (h : Materialized isoformat now db db') : Changes isoformat build clock db db' := by
  induction h with
  | done => exact .refl
  | round hround _ ih => exact .head (.round hnow hround) ih

theorem TickStep.changes {t : Tick} {phase : TickPhase} (hnow : t.now ≤ clock)
    (h : TickStep isoformat build db t phase db') : Changes isoformat build clock db db' := by
  cases h with
  | rested _ => exact .refl
  | reconciled hphase hturns hframed =>
      exact .single (.turned hnow (by rw [hphase]; rfl) hturns hframed)
  | reclaimed hphase htakes =>
      exact .single (.turned hnow (by rw [hphase]; rfl) htakes.moves htakes.framed)
  | materialized _ hrounds => exact hrounds.changes hnow
  | claimed hphase hfew htakes => exact .single (.claimed hnow hphase hfew htakes)
  | linked hphase _ hlinks => exact .single (.linked hnow hphase hlinks)
  | handled hphase _ hturns hframed =>
      exact .single (.turned hnow hphase (hturns.mono fun _ _ _ h => .inr h) hframed)

theorem SchedulerStep.changes (htimes : ∀ t ∈ s.ticks, t.now ≤ s.clock)
    (h : SchedulerStep isoformat build s s') :
    Changes isoformat build s.clock s.db s'.db ∧ s.clock ≤ s'.clock := by
  cases h with
  | passed hle => exact ⟨.refl, hle⟩
  | projectAdded => exact ⟨.single .projectAdded, le_refl _⟩
  | edited h => exact ⟨.single (.edited h), le_refl _⟩
  | created h => exact ⟨.single (.created h), le_refl _⟩
  | ran hget hbecomes => exact ⟨.single (.ran hget hbecomes), le_refl _⟩
  | joined _ _ _ => exact ⟨.refl, le_refl _⟩
  | moved ht h => exact ⟨h.changes (htimes _ (List.mem_of_getElem? ht)), le_refl _⟩

/-! ## What becomes of one occurrence -/

theorem LinksRun.moves {claim : Claim} {rest : List Claim} {t : Tick} {o : OccurrenceRow}
    {result : CreateResult} {runs : Runs} (hids : Keyed (·.id) db.occurrences)
    (hphase : t.phase = .linking claim rest) (h : LinksRun build db claim t.now o result runs db') :
    Turns (fun o o' => o' = o ∨ RowMove db t o o') [o.id] db db' := by
  obtain ⟨a, hautomation, hmatch⟩ := h.automation
  rw [Turns, h.store]
  refine Turned.replace hids (lookup_mem h.found).1 ?_ (.inr ?_)
  · rfl
  · exact .linked hphase h.holds h.live hautomation hmatch h.unlinked

/-- An occurrence is left or written, and what a round adds stands behind the others. -/
theorem Change.occurrences (hids : Keyed (·.id) db.occurrences)
    (h : Change isoformat build clock db db') :
    db'.occurrences = db.occurrences ∨
      (∃ t ids, t.now ≤ clock ∧ Turns (fun o o' => o' = o ∨ RowMove db t o o') ids db db') ∨
      ∃ now a point next, now ≤ clock ∧ Round isoformat now db a point next db' := by
  cases h with
  | projectAdded => exact .inl rfl
  | edited h =>
      cases h with
      | created _ _ _ => exact .inl rfl
      | written _ => exact .inl rfl
  | created _ => exact .inl rfl
  | ran _ _ => exact .inl rfl
  | turned hnow _ hturns _ => exact .inr (.inl ⟨_, _, hnow, hturns⟩)
  | claimed hnow _ _ htakes => exact .inr (.inl ⟨_, _, hnow, htakes.moves⟩)
  | linked hnow hphase hlinks => exact .inr (.inl ⟨_, _, hnow, hlinks.moves hids hphase⟩)
  | round hnow hround => exact .inr (.inr ⟨_, _, _, _, hnow, hround⟩)

theorem Change.occurrence_later {id : Uuid} {o : OccurrenceRow}
    (hids : Keyed (·.id) db.occurrences) (h : Change isoformat build clock db db')
    (ho : db.occurrence? id = some o) :
    ∃ o', db'.occurrence? id = some o' ∧ (o' = o ∨ ∃ t, t.now ≤ clock ∧ RowMove db t o o') := by
  rcases h.occurrences hids with hsame | ⟨t, ids, hnow, hturns⟩ | ⟨now, a, point, next, -, hround⟩
  · refine ⟨o, ?_, .inl rfl⟩
    rw [Tables.occurrence?, hsame]
    exact ho
  · obtain ⟨o', ho', hmove⟩ := hturns.lookup_some ho
    refine ⟨o', ho', ?_⟩
    rcases hmove with rfl | rfl | hmove
    · exact .inl rfl
    · exact .inl rfl
    · exact .inr ⟨t, hnow, hmove⟩
  · refine ⟨o, ?_, .inl rfl⟩
    rcases hround.occurrences with ⟨hsame, -⟩ | ⟨state, disposition, id, -, -, hadded⟩
    · rw [Tables.occurrence?, hsame]
      exact ho
    · rw [Tables.occurrence?, hadded]
      exact lookup_append_of_some ho _

theorem Change.occurrence_before {o' : OccurrenceRow} (hids : Keyed (·.id) db.occurrences)
    (h : Change isoformat build clock db db') (ho' : o' ∈ db'.occurrences) :
    (∃ o ∈ db.occurrences, o'.id = o.id ∧ (o' = o ∨ ∃ t, t.now ≤ clock ∧ RowMove db t o o')) ∨
      ∃ now a point next state disposition id, now ≤ clock ∧
        Round isoformat now db a point next db' ∧ (state = .missed ∨ state = .due) ∧
        db.acceptsOccurrence (newOccurrence isoformat a point now state disposition id) = true ∧
        o' = newOccurrence isoformat a point now state disposition id := by
  rcases h.occurrences hids with hsame | ⟨t, ids, hnow, hturns⟩ | ⟨now, a, point, next, hnow, hround⟩
  · exact .inl ⟨o', hsame ▸ ho', rfl, .inl rfl⟩
  · obtain ⟨o, ho, hid, hmove⟩ := hturns.mem ho'
    refine .inl ⟨o, ho, hid, ?_⟩
    rcases hmove with rfl | rfl | hmove
    · exact .inl rfl
    · exact .inl rfl
    · exact .inr ⟨t, hnow, hmove⟩
  · rcases hround.occurrences with ⟨hsame, -⟩ | ⟨state, disposition, id, hstate, haccepts, hadded⟩
    · exact .inl ⟨o', hsame ▸ ho', rfl, .inl rfl⟩
    · rw [hadded] at ho'
      rcases List.mem_append.mp ho' with ho' | ho'
      · exact .inl ⟨o', ho', rfl, .inl rfl⟩
      · obtain rfl := List.mem_singleton.mp ho'
        exact .inr ⟨now, a, point, next, state, disposition, id, hnow, hround, hstate, haccepts, rfl⟩

/-! ## Keys -/

theorem Edited.keyed {now : Instant} (h : Edited db now db')
    (hids : Keyed (fun a => a.toAutomation.id) db.automations) :
    Keyed (fun a => a.toAutomation.id) db'.automations := by
  cases h with
  | created hfresh _ _ => exact hids.append (lookup_eq_none.mp hfresh)
  | written _ => exact hids.replace

theorem KeyedRows.change (hrows : KeyedRows db) (h : Change isoformat build clock db db') :
    KeyedRows db' := by
  have hids := hrows.occurrences
  refine ⟨?_, ?_⟩
  · cases h with
    | projectAdded => exact hrows.automations
    | edited h => exact h.keyed hrows.automations
    | created _ => exact hrows.automations
    | ran _ _ => exact hrows.automations
    | turned _ _ _ hframed => exact hframed.automations ▸ hrows.automations
    | claimed _ _ _ htakes => exact htakes.framed.automations ▸ hrows.automations
    | linked _ _ hlinks => exact hlinks.store ▸ hrows.automations
    | round _ hround =>
        rw [hround.automations]
        exact hrows.automations.replace
  · rcases h.occurrences hids with hsame | ⟨t, ids, -, hturns⟩ | ⟨now, a, point, next, -, hround⟩
    · rw [hsame]
      exact hids
    · exact hturns.keyed hids
    · rcases hround.occurrences with ⟨hsame, -⟩ | ⟨state, disposition, id, -, haccepts, hadded⟩
      · rw [hsame]
        exact hids
      · rw [hadded]
        exact hids.append (lookup_eq_none.mp (acceptsOccurrence_iff.mp haccepts).2.1)

/-- What holds of the rows and of the ticks. -/
structure Orderly (s : SchedulerState) : Prop where
  rows : KeyedRows s.db
  times : ∀ t ∈ s.ticks, t.now ≤ s.clock
  owners : Keyed (·.owner) s.ticks

theorem Changes.keyed (h : Changes isoformat build clock db db') (hrows : KeyedRows db) :
    KeyedRows db' := by
  induction h with
  | refl => exact hrows
  | tail _ hchange ih => exact ih.change hchange

theorem Orderly.step (h : Orderly s) (hstep : SchedulerStep isoformat build s s') :
    Orderly s' := by
  refine ⟨(hstep.changes h.times).1.keyed h.rows, ?_, ?_⟩
  · cases hstep with
    | passed hle => exact fun t ht => (h.times t ht).trans hle
    | joined hnow _ _ =>
        intro t ht
        rcases List.mem_append.mp ht with ht | ht
        · exact h.times t ht
        · exact (List.mem_singleton.mp ht ▸ hnow).le
    | @moved i t phase d ht _ =>
        intro t' ht'
        rcases List.mem_or_eq_of_mem_set ht' with ht' | rfl
        · exact h.times t' ht'
        · exact h.times t (List.mem_of_getElem? ht)
    | _ => exact h.times
  · cases hstep with
    | joined _ _ hfresh =>
        refine h.owners.append fun hmem => ?_
        obtain ⟨t, ht, hsame⟩ := List.mem_map.mp hmem
        exact hfresh t ht hsame
    | @moved i t phase d ht _ =>
        obtain ⟨hi, rfl⟩ := List.getElem?_eq_some_iff.mp ht
        have howners : (s.ticks.set i { s.ticks[i] with phase := phase }).map (·.owner) =
            s.ticks.map (·.owner) := by
          rw [List.map_set]
          refine List.ext_getElem (by simp) fun j hj hj' => ?_
          rw [List.getElem_set]
          split
          · next hij => simp [← hij]
          · rfl
        show (_ : List Uuid).Nodup
        rw [SchedulerState.setTick, howners]
        exact h.owners
    | _ => exact h.owners

theorem orderly (h : (Scheduler.machine zoneInfo isoformat build).Reachable s) : Orderly s := by
  refine h.invariant ?_ ?_
  · rintro s rfl
    refine ⟨⟨List.nodup_nil, List.nodup_nil⟩, fun t ht => ?_, List.nodup_nil⟩
    cases ht
  · intro s l s' _ _ hs hnext
    exact hs.step (step_cases hs.rows hnext)

/-! ## Rules -/

/-- What holds at the start and outlasts the clock and every change holds in every state. -/
theorem tables_invariant {I : Instant → Tables → Prop} (hstart : I 0 {})
    (hclock : ∀ c c' db, c ≤ c' → I c db → I c' db)
    (hchange : ∀ c db db', KeyedRows db → I c db → Change isoformat build c db db' → I c db')
    (h : (Scheduler.machine zoneInfo isoformat build).Reachable s) : I s.clock s.db := by
  have hall : ∀ {c db db'}, KeyedRows db → I c db → Changes isoformat build c db db' → I c db' := by
    intro c db db' hrows hI hchanges
    induction hchanges with
    | refl => exact hI
    | tail hbefore hlast ih => exact hchange c _ _ (Changes.keyed hbefore hrows) ih hlast
  refine h.invariant (I := fun s => I s.clock s.db) ?_ ?_
  · rintro s rfl
    exact hstart
  · intro s l s' hr _ hI hnext
    have hs := orderly hr.reachable
    obtain ⟨hchanges, hclock'⟩ := (step_cases hs.rows hnext).changes hs.times
    exact hclock _ _ _ hclock' (hall hs.rows hI hchanges)

/-- A relation that every change is in holds from a state to every later one. -/
theorem tables_later {R : Tables → Tables → Prop} (hrefl : ∀ db, R db db)
    (htrans : ∀ {a b c}, R a b → R b c → R a c)
    (hchange : ∀ c db db', KeyedRows db → Change isoformat build c db db' → R db db')
    (hs : (Scheduler.machine zoneInfo isoformat build).Reachable s)
    (h : ((Scheduler.machine zoneInfo isoformat build).startingAt s).Reachable s') :
    R s.db s'.db := by
  have hall : ∀ {c db db'}, KeyedRows db → Changes isoformat build c db db' → R db db' := by
    intro c db db' hrows hchanges
    induction hchanges with
    | refl => exact hrefl db
    | tail hbefore hlast ih => exact htrans ih (hchange c _ _ (Changes.keyed hbefore hrows) hlast)
  refine Machine.later (R := fun s s' => R s.db s'.db) (I := Orderly) (fun s => hrefl s.db)
    (fun {a b c} => htrans) (fun t l t' ht hnext => ?_) (orderly hs) h
  have hstep := step_cases ht.rows hnext
  exact ⟨hall ht.rows (hstep.changes ht.times).1, ht.step hstep⟩

end Automations

end SecondBrain
