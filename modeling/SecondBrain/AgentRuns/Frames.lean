import SecondBrain.AgentRuns.EventLog
import SecondBrain.AgentRuns.Steps
import SecondBrain.AgentRuns.Work

/-!
# What leaves the plan of a run alone

A plan is written in one transaction, and whatever else is done to a run spares
it: the steps stay but for their progress, the log records no move into ready,
and the run stays in its state or is moved past its plan. Every operation but the
claim of a planner and the freezing of its plan is of that kind (`Spares`), on
whatever it decides.

A session may decide on copies that are older than the rows. What it writes
back spares the plan all the same, where its copies are of rows that are there
and it is not the copy of the run that is past its plan (`Spares.writeBack`).
-/

namespace SecondBrain

open Lib

/-- The event records that a run became ready. -/
def AgentEvent.entersReady (e : AgentEvent) : Bool := e.hop?.any (·.2 == .ready)

theorem entersReady_of_note {e : AgentEvent} (he : e.eventType ≠ stateChangedType) :
    e.entersReady = false := by
  have hnote : e.isStateChange = false := by
    rw [AgentEvent.isStateChange, beq_eq_false_iff_ne]
    exact he
  rw [AgentEvent.entersReady, AgentEvent.hop?, hnote]
  rfl

theorem entersReady_stateChanged (run : AgentRun) (newState : AgentRunState) (now : Instant)
    (k : Nat) : ({ stateChangedEvent run newState now with sequence := k }).entersReady =
      (newState == .ready) := by
  rw [AgentEvent.entersReady, hop?_stateChangedEvent]
  rfl

structure Spares (r r' : RunRecord) : Prop where
  id : r'.run.id = r.run.id
  steps : r'.steps.map (·.still) = r.steps.map (·.still)
  run : r'.run.state = r.run.state ∧ r'.run.revision = r.run.revision ∨
    r'.run.state.isEarly = false
  log : ∃ new, r'.events = r.events ++ new ∧ ∀ e ∈ new, e.entersReady = false

namespace Spares

variable {r r' r'' : RunRecord}

theorem trans (h : Spares r r') (h' : Spares r' r'') : Spares r r'' := by
  obtain ⟨new, hnew, hold⟩ := h.log
  obtain ⟨new', hnew', hold'⟩ := h'.log
  refine ⟨h'.id.trans h.id, h'.steps.trans h.steps, ?_, new ++ new', ?_, fun e he => ?_⟩
  · rcases h'.run with ⟨hstate, hrevision⟩ | hlate
    · rw [hstate, hrevision]
      exact h.run
    · exact .inr hlate
  · rw [hnew', hnew, List.append_assoc]
  · exact (List.mem_append.mp he).elim (hold e) (hold' e)

theorem rows (hrun : r'.run = r.run) (hevents : r'.events = r.events)
    (hsteps : r'.steps.map (·.still) = r.steps.map (·.still)) : Spares r r' where
  id := by rw [hrun]
  steps := hsteps
  run := .inl (by rw [hrun]; exact ⟨rfl, rfl⟩)
  log := ⟨[], by rw [hevents, List.append_nil], fun _ he => absurd he List.not_mem_nil⟩

theorem refl (r : RunRecord) : Spares r r := rows rfl rfl rfl

/-- Steps are neither added nor removed. -/
theorem steps_eq_nil_iff (h : Spares r r') : r'.steps = [] ↔ r.steps = [] := by
  have hlength := congrArg List.length h.steps
  rw [List.length_map, List.length_map] at hlength
  rw [← List.length_eq_zero_iff, ← List.length_eq_zero_iff, hlength]

theorem entersReady_iff (h : Spares r r') :
    (∃ e ∈ r'.events, e.entersReady = true) ↔ ∃ e ∈ r.events, e.entersReady = true := by
  obtain ⟨new, hnew, hold⟩ := h.log
  constructor
  · rintro ⟨e, he, hready⟩
    rw [hnew] at he
    rcases List.mem_append.mp he with he | he
    · exact ⟨e, he, hready⟩
    · rw [hold e he] at hready
      cases hready
  · rintro ⟨e, he, hready⟩
    exact ⟨e, hnew ▸ List.mem_append_left new he, hready⟩

end Spares

/-- The new events of an evolution that leaves the revision record no move. -/
theorem Evolves.notes {r r' : RunRecord} (h : Evolves r r') :
    r.run.revision ≤ r'.run.revision ∧ ∃ new, r'.events = r.events ++ new ∧
      (r'.run.revision = r.run.revision → ∀ e ∈ new, e.entersReady = false) := by
  refine h.keeps (P := fun q => r.run.revision ≤ q.run.revision ∧
    ∃ new, q.events = r.events ++ new ∧
      (q.run.revision = r.run.revision → ∀ e ∈ new, e.entersReady = false)) ?_ ?_
  · rintro q q' hstep ⟨hle, new, hnew, hold⟩
    cases hstep with
    | rows hrun hevents =>
        rw [hrun, hevents]
        exact ⟨hle, new, hnew, hold⟩
    | noted e he hrun hevents =>
        rw [hrun, hevents, hnew, List.append_assoc]
        refine ⟨hle, _, rfl, fun hsame x hx => ?_⟩
        rcases List.mem_append.mp hx with hx | hx
        · exact hold hsame x hx
        · rw [List.mem_singleton.mp hx]
          exact entersReady_of_note he
    | moved newState now code hlegal hrun hevents =>
        have hrevision : q'.run.revision = q.run.revision + 1 := by rw [hrun]; rfl
        rw [hevents, hnew, List.append_assoc]
        exact ⟨by omega, _, rfl, fun hsame => by omega⟩
  · exact ⟨le_refl _, [], (List.append_nil _).symm, fun _ _ he => absurd he List.not_mem_nil⟩

/-- An evolution that leaves the run and its steps as they are. -/
theorem Spares.of_evolves {r r' : RunRecord} (h : Evolves r r') (hrun : r'.run = r.run)
    (hsteps : r'.steps = r.steps) : Spares r r' where
  id := by rw [hrun]
  steps := by rw [hsteps]
  run := .inl (by rw [hrun]; exact ⟨rfl, rfl⟩)
  log := by
    obtain ⟨-, new, hnew, hold⟩ := h.notes
    exact ⟨new, hnew, hold (by rw [hrun])⟩

theorem Routine.spares : Routine Spares where
  refl := .refl
  trans := .trans
  rows hrun hevents _ hsteps := .rows hrun hevents hsteps
  noted {r} e he := by
    refine ⟨rfl, rfl, .inl ⟨rfl, rfl⟩, _, rfl, fun x hx => ?_⟩
    rw [List.mem_singleton.mp hx]
    exact entersReady_of_note he
  moved {r} newState now code hlegal hlate := by
    refine ⟨rfl, rfl, .inr hlate, _, rfl, fun x hx => ?_⟩
    rw [List.mem_singleton.mp hx, entersReady_stateChanged, beq_eq_false_iff_ne]
    rintro rfl
    cases hlate

/-! ## Operations on the approvals -/

section Operations

variable {r : RunRecord} {now : Instant} {build : Build}

theorem createProposal_spares (parse : PyValue → Option MemoryUpdate)
    (memories : Uuid → Option Memory) (q : ProposalRequest) (aid eid : Uuid) :
    Ensures (createProposal build parse memories r q now aid eid) fun p => Spares r p.2 :=
  ((createProposal_kept parse memories q aid eid).and
    (createProposal_files parse memories q aid eid)).mono fun _ h =>
      .of_evolves h.2.evolves h.1.1 h.1.2.steps

theorem reviewProposal_spares (memories : Uuid → Option Memory) (id : Uuid)
    (decision : Decision) :
    Ensures (reviewProposal build memories r id decision now) fun p => Spares r p.2 :=
  ((reviewProposal_kept memories id decision).and
    (reviewProposal_evolves memories id decision)).mono fun _ h =>
      .of_evolves h.2 h.1.1 h.1.2.steps

theorem propose_spares (parse : PyValue → Option MemoryUpdate)
    (memories : Uuid → Option Memory) (casefold : String → String)
    (evidence : List CollectedEvidence) (s : Proposing) (p : CuratorProposal × Uuid × Uuid) :
    Ensures (propose build parse memories casefold evidence now s p)
      fun s' => Spares s.record s'.record :=
  ((propose_kept parse memories casefold evidence s p).and
    (propose_files parse memories casefold evidence s p)).mono fun _ h =>
      .of_evolves h.2.evolves h.1.1 h.1.2.steps

theorem persistCuratorResult_spares (parse : PyValue → Option MemoryUpdate)
    (memories : Uuid → Option Memory) (casefold : String → String)
    (current : String → Uuid → Option String) (evidence : List CollectedEvidence)
    (q : CuratorProviderResult) (uuids : Nat → Uuid × Uuid) :
    Ensures (persistCuratorResult build parse memories casefold current r evidence q
      uuids now) fun p => Spares r p.2 := by
  unfold persistCuratorResult
  refine .ite (fun _ => .error _) fun _ => .ite (fun _ => ?_) fun _ => ?_
  · exact .answer (transitionRun_routine .spares _ _ _ _ _ rfl)
  refine .ite (fun _ => .error _) fun _ => .bind_any fun findings _ => ?_
  refine Ensures.bind (P := fun s => Spares r s.record) ?_ fun s hs => ?_
  · exact .foldlM (fun b p hb => (propose_spares _ _ _ _ _ _).mono fun _ h => hb.trans h)
      (.refl r)
  · simp only []
    refine .ite (fun _ => .error _) fun _ => ?_
    exact (appendAgentEvent_routine .spares (by simp [resultEvent, stateChangedType])).bind
      fun _ h => Ensures.pure_iff.mpr (hs.trans h)

theorem persistOp_spares {e : Executor} {w : World} {q : Synthesis} :
    Ensures (e.persistOp w q now r) fun p => Spares r p.2 := by
  unfold Executor.persistOp
  split
  · exact (persistResearchResult_routine .spares _ _ _ _).bind fun _ h => Ensures.pure_iff.mpr h
  · exact (persistCuratorResult_spares _ _ _ _ _ _ _).bind fun _ h => Ensures.pure_iff.mpr h
  · exact .answer (persistDailyBriefResult_routine .spares _ _ _ _ _ _)
  · exact .answer (persistProjectWatchResult_routine .spares _ _ _ _)
  · exact .error _

end Operations

/-! ## Through a session -/

theorem AgentStep.writeBack_still (before after committed : AgentStep) :
    (before.writeBack after committed).still = after.still := rfl

theorem writeBackStep_still (before committed : RunRecord) (s : AgentStep) :
    (writeBackStep before committed s).still = s.still := by
  unfold writeBackStep
  split
  · exact AgentStep.writeBack_still _ _ _
  · rfl

/-- The copies that the session holds are of rows of the record. -/
def Cache.Copies (c : Cache) (r : RunRecord) : Prop :=
  ∀ s ∈ c.steps, ∀ t ∈ r.steps, t.id = s.id → s.still = t.still

theorem Cache.Copies.stepFor {c : Cache} {r : RunRecord} (h : c.Copies r) {s : AgentStep}
    (hs : s ∈ r.steps) : (c.stepFor s).still = s.still := by
  rw [Cache.stepFor]
  cases hfind : c.steps.find? (·.id == s.id) with
  | none => rfl
  | some t =>
      have hid : t.id = s.id := by simpa using List.find?_some hfind
      exact h t (List.mem_of_find?_eq_some hfind) s hs hid.symm

theorem Cache.copies_of_none {c : Cache} (h : c.steps = []) (r : RunRecord) : c.Copies r := by
  intro s hs
  rw [h] at hs
  cases hs

theorem Spares.writeBack {c : Cache} {r after : RunRecord} (h : Spares (c.seen r) after)
    (hcopies : c.Copies r)
    (hrun : r.run.state.isEarly = false ∨ (c.seen r).run.state.isEarly = true) :
    Spares r ((c.seen r).writeBack after r) where
  id := rfl
  steps := by
    have hafter : (after.steps.map (writeBackStep (c.seen r) r)).map (·.still) =
        after.steps.map (·.still) := by
      rw [List.map_map]
      exact List.map_congr_left fun s _ => writeBackStep_still _ _ s
    have hseen : (c.seen r).steps.map (·.still) = r.steps.map (·.still) := by
      show (r.steps.map c.stepFor).map _ = _
      rw [List.map_map]
      exact List.map_congr_left fun s hs => hcopies.stepFor hs
    exact hafter.trans (h.steps.trans hseen)
  run := by
    have hstate : ((c.seen r).writeBack after r).run.state =
        written (c.seen r).run.state after.run.state r.run.state := rfl
    have hrevision : ((c.seen r).writeBack after r).run.revision =
        written (c.seen r).run.revision after.run.revision r.run.revision := rfl
    rw [hstate, hrevision, written, written]
    rcases h.run with ⟨hsame, hsame'⟩ | hlate
    · rw [if_pos hsame, if_pos hsame']
      exact .inl ⟨rfl, rfl⟩
    · refine .inr ?_
      split
      · next hsame =>
          rw [hsame] at hlate
          exact hrun.resolve_right (by rw [hlate]; nofun)
      · exact hlate
  log := h.log

theorem Spares.of_transact {α : Type} {c : Cache}
    {op : RunRecord → Except Fault (α × RunRecord)} {r r' : RunRecord} {a : α}
    (hop : Ensures (op (c.seen r)) fun p => Spares (c.seen r) p.2)
    (hcopies : c.Copies r)
    (hrun : r.run.state.isEarly = false ∨ (c.seen r).run.state.isEarly = true)
    (h : transact c op r = .ok (a, r')) : Spares r r' := by
  obtain ⟨after, hok, rfl, -⟩ := transact_ok h
  exact Spares.writeBack (hop _ hok) hcopies hrun

/-! ## Through the runtime -/

/-- The executor is at work on a run past its plan, or has read it while it was ready, and
what its session holds is of the run. -/
structure Attends (e : Executor) (r : RunRecord) : Prop where
  begun : e.phase ≠ .starting → e.phase ≠ .done → r.run.state.isEarly = false
  starting : e.phase = .starting → e.cache.steps = [] ∧
    ∃ copy, e.cache.run = some copy ∧ copy.state = .ready
  copies : e.phase ≠ .done → e.cache.Copies r

namespace Attends

variable {e : Executor} {r r' : RunRecord}

theorem spared (h : Attends e r) (hspares : Spares r r') : Attends e r' where
  begun hstarting hdone := by
    rcases hspares.run with ⟨hsame, -⟩ | hlate
    · rw [hsame]
      exact h.begun hstarting hdone
    · exact hlate
  starting := h.starting
  copies hdone s hs t' ht' hid := by
    have hmem : t'.still ∈ r.steps.map (·.still) := by
      rw [← hspares.steps]
      exact List.mem_map_of_mem ht'
    obtain ⟨t, ht, hsame⟩ := List.mem_map.mp hmem
    have htid : t.id = t'.id := @congrArg _ _ t.still t'.still AgentStep.id hsame
    rw [← hsame]
    exact h.copies hdone s hs t ht (htid.trans hid)

/-- Nobody is at work on an early run, whatever becomes of it. -/
theorem of_early (h : Attends e r) (hearly : r.run.state.isEarly = true) : Attends e r' where
  begun hstarting hdone := by
    have hlate := h.begun hstarting hdone
    rw [hearly] at hlate
    cases hlate
  starting := h.starting
  copies hdone := by
    by_cases hstarting : e.phase = .starting
    · exact Cache.copies_of_none (h.starting hstarting).1 r'
    · have hlate := h.begun hstarting hdone
      rw [hearly] at hlate
      cases hlate

theorem of_done (hdone : e.phase = .done) : Attends e r where
  begun _ hlive := absurd hdone hlive
  starting hstarting := by
    rw [hdone] at hstarting
    cases hstarting
  copies hlive := absurd hdone hlive

end Attends

/-- A run as it is created. -/
structure Unplanned (r : RunRecord) : Prop where
  created : r.run.state = .created
  steps : r.steps = []
  log : ∀ e ∈ r.events, e.entersReady = false

/-- The steps of planners, and the bare moves of a run. -/
def RuntimeStep.plans : RuntimeStep → Bool
  | .transition .. | .claimPlan .. | .freezePlan .. | .failPlan .. => true
  | _ => false

namespace Runtime

variable {s s' : Runtime} {l : RuntimeStep} {pid : Nat} {e : Executor} {id : Uuid}
  {r r' : RunRecord}

structure Framed (s : Runtime) : Prop where
  ids : ∀ id r, s.runs.get id = some r → (r.steps.map (·.id)).Nodup
  attends : ∀ e ∈ s.executors, ∃ r, s.runs.get e.runId = some r ∧ Attends e r

/-- Every plan is left alone, and new runs have none. -/
structure Leaves (s s' : Runtime) : Prop where
  kept : ∀ id r, s.runs.get id = some r → ∃ r', s'.runs.get id = some r' ∧ Spares r r'
  new : ∀ id r', s'.runs.get id = some r' → s.runs.get id = none → Unplanned r'

theorem Leaves.of_runs (h : s'.runs = s.runs) : Leaves s s' where
  kept id r hr := ⟨r, h ▸ hr, .refl r⟩
  new id r' hr' hnone := by
    rw [h, hnone] at hr'
    cases hr'

theorem Leaves.of_put (hr : s.runs.get id = some r) (hspares : Spares r r')
    (hruns : s'.runs = s.runs.put r') : Leaves s s' := by
  have hid : r'.run.id = id := hspares.id.trans (Runs.get_id hr)
  refine ⟨fun other q hq => ?_, fun other q' hq' hnone => ?_⟩
  · rw [hruns, Runs.get_put hr hid]
    split
    · next hsame =>
        rw [hsame, hr, Option.some.injEq] at hq
        exact ⟨r', rfl, hq ▸ hspares⟩
    · exact ⟨q, hq, .refl q⟩
  · rw [hruns, Runs.get_put hr hid] at hq'
    split at hq'
    · next hsame =>
        rw [hsame, hr] at hnone
        cases hnone
    · rw [hnone] at hq'
      cases hq'

theorem Framed.of_leaves (h : Framed s) (hleaves : Leaves s s')
    (hexec : ∀ e ∈ s'.executors, e ∈ s.executors ∨
      ∃ r, s'.runs.get e.runId = some r ∧ Attends e r) : Framed s' where
  ids id r' hr' := by
    cases hr : s.runs.get id with
    | none =>
        rw [(hleaves.new id r' hr' hr).steps]
        exact List.nodup_nil
    | some r =>
        obtain ⟨q, hq, hspares⟩ := hleaves.kept id r hr
        rw [hr', Option.some.injEq] at hq
        have hcolumn : ∀ steps : List AgentStep,
            steps.map (·.id) = (steps.map (·.still)).map (·.id) := fun steps => by
          rw [List.map_map]
          rfl
        rw [hq, hcolumn, hspares.steps, ← hcolumn]
        exact h.ids id r hr
  attends e he := by
    rcases hexec e he with hold | hnew
    · obtain ⟨r, hr, hattends⟩ := h.attends e hold
      obtain ⟨r', hr', hspares⟩ := hleaves.kept _ r hr
      exact ⟨r', hr', hattends.spared hspares⟩
    · exact hnew

/-- A request that leaves the plan of its run alone. -/
theorem Framed.request {α : Type} {op : RunRecord → Except Fault (α × RunRecord)}
    (h : Framed s) (hop : ∀ r, Ensures (op r) fun p => Spares r p.2) {p : α × RunRecord}
    (hrun : s.onRun id op = some p) (hruns : s'.runs = s.runs.put p.2)
    (hexec : ∀ e ∈ s'.executors, e ∈ s.executors ∨ e.runId = id ∧ Attends e p.2) :
    Framed s' ∧ Leaves s s' := by
  obtain ⟨r, hr, htx⟩ := onRun_ok hrun
  have hcommitted : Spares r p.2 :=
    Spares.of_transact (hop _) (Cache.copies_of_none rfl r)
      (by rw [Cache.empty_seen]; cases r.run.state.isEarly <;> simp) htx
  have hleaves := Leaves.of_put hr hcommitted hruns
  refine ⟨h.of_leaves hleaves fun e he => ?_, hleaves⟩
  rcases hexec e he with hold | ⟨hown, hattends⟩
  · exact .inl hold
  · obtain ⟨r', hr', -⟩ := hleaves.kept id r hr
    have hsame : s'.runs.get id = some p.2 := by
      rw [hruns, Runs.get_put hr (hcommitted.id.trans (Runs.get_id hr)), if_pos rfl]
    exact .inr ⟨p.2, by rw [hown]; exact hsame, hattends⟩

/-! ### Steps of executors -/

/-- What a session keeps is what it held, or a row as it was committed. -/
theorem mem_retain {before : Cache} {loadsRows : Bool} {c : AgentStep}
    (h : c ∈ (e.retain before r r' loadsRows).steps) : c ∈ before.steps ∨ c ∈ r'.steps := by
  have hstep : ∀ stepId, c ∈ retainStep before r r' stepId → c ∈ before.steps ∨ c ∈ r'.steps := by
    intro stepId hc
    rw [retainStep] at hc
    split at hc
    · next row row' hrow hrow' =>
        have hmem : row' ∈ r'.steps := List.mem_of_find?_eq_some hrow'
        split at hc
        · rw [List.mem_singleton] at hc
          cases hfind : before.steps.find? (·.id == stepId) with
          | none =>
              rw [hfind, Option.getD_none] at hc
              exact .inr (hc ▸ hmem)
          | some held =>
              rw [hfind, Option.getD_some] at hc
              exact .inl (hc ▸ List.mem_of_find?_eq_some hfind)
        · exact .inr (List.mem_singleton.mp hc ▸ hmem)
    · next row' _ =>
        exact .inr (List.mem_of_find?_eq_some (Option.mem_toList.mp hc))
  unfold Executor.retain at h
  split at h
  · exact absurd h List.not_mem_nil
  · exact absurd h List.not_mem_nil
  · cases loadsRows with
    | false => exact .inl h
    | true =>
        cases hlast : e.last with
        | none =>
            simp only [hlast] at h
            exact absurd h List.not_mem_nil
        | some last =>
            simp only [hlast] at h
            exact hstep last.stepId h

/-- An executor at work goes on with what it held and what was committed. -/
theorem attends_next {e' : Executor} (h : Attends e r) (hspares : Spares r r')
    (hids : (r'.steps.map (·.id)).Nodup) (hstarting : e.phase ≠ .starting)
    (hdone : e.phase ≠ .done) (hphase : e'.phase ≠ .starting)
    (hcache : ∀ c ∈ e'.cache.steps, c ∈ e.cache.steps ∨ c ∈ r'.steps) : Attends e' r' where
  begun _ _ := (h.spared hspares).begun hstarting hdone
  starting hstart := absurd hstart hphase
  copies _ c hc t ht hid := by
    rcases hcache c hc with hold | hrow
    · exact (h.spared hspares).copies hdone c hold t ht hid
    · rw [List.inj_on_of_nodup_map hids hrow ht hid.symm]

theorem mem_cacheFor {c : AgentStep} (h : c ∈ (e.cacheFor l).steps) : c ∈ e.cache.steps := by
  unfold Executor.cacheFor at h
  split at h
  · exact absurd h List.not_mem_nil
  · exact absurd h List.not_mem_nil
  · split at h
    · exact absurd h List.not_mem_nil
    · exact h
  · exact h

/-- The executor that moves ends, or attends to its run after the step. -/
theorem Framed.settle (h : Framed s) (he : s.executors[pid]? = some e) {e' : Executor}
    (hown : e'.runId = e.runId) (hattends : ∀ r, s.runs.get e.runId = some r → Attends e r →
      Attends e' r) : Framed (s.settle pid e') ∧ Leaves s (s.settle pid e') := by
  have hleaves : Leaves s (s.settle pid e') := .of_runs rfl
  refine ⟨h.of_leaves hleaves fun x hx => ?_, hleaves⟩
  rcases List.mem_or_eq_of_mem_set hx with hold | rfl
  · exact .inl hold
  · obtain ⟨r, hr, hold⟩ := h.attends e (List.mem_of_getElem? he)
    exact .inr ⟨r, hown ▸ hr, hattends r hr hold⟩

/-- A transaction of an executor that is at work, or is about to claim. -/
theorem Framed.advance {α : Type} {op : RunRecord → Except Fault (α × RunRecord)} {a : α}
    (h : Framed s) (he : s.executors[pid]? = some e) (hran : s.Ran e l op r a r')
    (hdone : e.phase ≠ .done) (hclaim : e.phase = .starting → e.cacheFor l = e.cache)
    (hop : ∀ r, Ensures (op r) fun p => Spares r p.2) {e' : Executor}
    (hown : e'.runId = e.runId)
    (hattends : Attends e r → Spares r r' → (r'.steps.map (·.id)).Nodup → Attends e' r') :
    Framed (s.advance pid r' e') ∧ Leaves s (s.advance pid r' e') := by
  obtain ⟨q, hq, hold⟩ := h.attends e (List.mem_of_getElem? he)
  have hfound := hran.found
  rw [hq, Option.some.injEq] at hfound
  subst hfound
  have hcopies : (e.cacheFor l).Copies q :=
    fun c hc => hold.copies hdone c (mem_cacheFor hc)
  have hseen : q.run.state.isEarly = false ∨
      ((e.cacheFor l).seen q).run.state.isEarly = true := by
    by_cases hstarting : e.phase = .starting
    · obtain ⟨-, copy, hcopy, hready⟩ := hold.starting hstarting
      rw [hclaim hstarting, Cache.seen, hcopy]
      exact .inr (by rw [Option.getD_some, hready]; rfl)
    · exact .inl (hold.begun hstarting hdone)
  have hspares := Spares.of_transact (hop _) hcopies hseen hran.committed
  have hleaves : Leaves s (s.advance pid r' e') := .of_put hq hspares rfl
  have hget : (s.advance pid r' e').runs.get e.runId = some r' := by
    show (s.runs.put r').get e.runId = some r'
    rw [Runs.get_put hq (hspares.id.trans (Runs.get_id hq)), if_pos rfl]
  have hids : (r'.steps.map (·.id)).Nodup := by
    have hframed : Framed { s with runs := s.runs.put r' } :=
      h.of_leaves (.of_put hq hspares rfl) fun x hx => .inl hx
    exact hframed.ids e.runId r' hget
  refine ⟨h.of_leaves hleaves fun x hx => ?_, hleaves⟩
  rcases List.mem_or_eq_of_mem_set hx with hx | rfl
  · exact .inl hx
  · exact .inr ⟨r', hown ▸ hget, hattends hold hspares hids⟩

/-- The state that a session claims a run into, whatever copy it decides on. -/
theorem claimed_by_session_running {build : Build} {revision : Nat}
    {allowed : Option (List ToolIdentity)} {now : Instant} {c : Cache} {claim : ExecutionClaim}
    (h : transact c (fun r => claimExecution build r revision allowed now) r =
      .ok (some claim, r')) : r'.run.state = .running := by
  obtain ⟨after, hok, rfl, -⟩ := transact_ok h
  obtain ⟨-, hclaim⟩ := claimExecution_work (k := none) revision allowed _ hok
  obtain ⟨-, hready, hrunning⟩ := hclaim claim rfl
  show written (c.seen r).run.state after.run.state r.run.state = .running
  have hready' : (c.seen r).run.state = .ready := hready
  have hrunning' : after.run.state = .running := hrunning
  rw [hready', hrunning', written, if_neg (by decide)]

theorem Framed.execStep (h : Framed s) (he : s.executors[pid]? = some e)
    (hstep : s.execStep pid e l = some s') : Framed s' ∧ Leaves s s' := by
  have hended : ∀ e' : Executor, e'.runId = e.runId → e'.phase = .done →
      Framed (s.settle pid e') ∧ Leaves s (s.settle pid e') :=
    fun e' hown hdone => h.settle he hown fun _ _ _ => .of_done hdone
  unfold Runtime.execStep at hstep
  split at hstep
  · next now hphase =>
      obtain ⟨copy, hcopy, hstep⟩ := bind_some hstep
      obtain ⟨⟨r, res⟩, hx, hstep⟩ := bind_some hstep
      simp only [] at hstep
      split at hstep
      all_goals cases hstep
      · have hran := ran_of_exec hx rfl
        refine h.advance he hran (by rw [hphase]; nofun) (fun _ => rfl)
          (fun _ => claimExecution_routine .spares _ _) rfl fun _ _ _ => ?_
        have hrunning := claimed_by_session_running hran.committed
        exact ⟨fun _ _ => by rw [hrunning]; rfl, nofun, fun _ => Cache.copies_of_none rfl _⟩
      · exact h.advance he (ran_of_exec hx rfl) (by rw [hphase]; nofun) (fun _ => rfl)
          (fun _ => claimExecution_routine .spares _ _) rfl fun _ _ _ => .of_done rfl
      · exact hended _ rfl rfl
  · next hphase =>
      obtain ⟨⟨r, res⟩, hx, hstep⟩ := bind_some hstep
      simp only [] at hstep
      have hstarting : e.phase ≠ .starting := by rw [hphase]; nofun
      have hdone : e.phase ≠ .done := by rw [hphase]; nofun
      split at hstep
      all_goals cases hstep
      · exact h.advance he (ran_of_exec hx rfl) hdone (fun hs => absurd hs hstarting)
          (fun _ => reserveNext_routine .spares _ _ _) rfl fun hold hspares hids =>
            attends_next hold hspares hids hstarting hdone nofun fun _ hc => mem_retain hc
      · exact h.advance he (ran_of_exec hx rfl) hdone (fun hs => absurd hs hstarting)
          (fun _ => reserveNext_routine .spares _ _ _) rfl fun hold hspares hids =>
            attends_next hold hspares hids hstarting hdone nofun fun _ hc => mem_retain hc
      · exact hended _ rfl rfl
  · next hphase =>
      split at hstep
      · cases hstep
      · obtain ⟨r, hr, hstep⟩ := bind_some hstep
        obtain ⟨res, -, hstep⟩ := bind_some hstep
        cases hstep
        refine h.settle he rfl fun q hq hold => ?_
        obtain rfl : r = q := Option.some.inj (hr.symm.trans hq)
        exact attends_next hold (.refl r) (h.ids _ r hr) (by rw [hphase]; nofun)
          (by rw [hphase]; nofun) nofun fun _ hc => .inr
            (List.mem_of_find?_eq_some (Option.mem_toList.mp hc))
  · split at hstep
    · cases hstep
    · next hphase =>
        rw [not_or, not_not, not_not] at hphase
        obtain ⟨last, hlast, hstep⟩ := bind_some hstep
        simp only [] at hstep
        obtain ⟨⟨r, res⟩, hx, hstep⟩ := bind_some hstep
        simp only [] at hstep
        have hcall : e.phase ≠ .starting ∧ e.phase ≠ .done := by
          rw [hphase.1, Executor.finalizesFrom]
          split <;> exact ⟨nofun, nofun⟩
        split at hstep
        all_goals cases hstep
        · refine h.advance he (ran_of_exec hx rfl) hcall.2 (fun hs => absurd hs hcall.1)
            (fun _ => finalizeInvocation_routine .spares _ _ _ _ _) rfl fun hold hspares hids =>
              attends_next hold hspares hids hcall.1 hcall.2 ?_ fun c hc => ?_
          · dsimp only
            split <;> nofun
          · exact (mem_retain hc).elim (fun hnone => absurd hnone List.not_mem_nil) .inr
        · exact hended _ rfl rfl
  · next hphase =>
      have hstarting : e.phase ≠ .starting := by rw [hphase]; nofun
      have hdone : e.phase ≠ .done := by rw [hphase]; nofun
      split at hstep
      · cases hstep
      · obtain ⟨⟨r, res⟩, hx, hstep⟩ := bind_some hstep
        simp only [] at hstep
        split at hstep
        all_goals cases hstep
        · refine h.advance he (ran_of_exec hx rfl) hdone (fun hs => absurd hs hstarting)
            (fun _ => startOp_routine .spares) rfl fun hold hspares hids =>
              attends_next hold hspares hids hstarting hdone ?_ fun _ hc => mem_retain hc
          dsimp only
          split <;> nofun
        · exact hended _ rfl rfl
  · next hphase =>
      obtain ⟨agent, -, hstep⟩ := bind_some hstep
      cases hstep
      exact h.settle he rfl fun q hq hold => attends_next hold (.refl q) (h.ids _ q hq)
        (by rw [hphase]; nofun) (by rw [hphase]; nofun) nofun fun _ hc => .inl hc
  · next hphase =>
      have hstarting : e.phase ≠ .starting := by rw [hphase]; nofun
      have hdone : e.phase ≠ .done := by rw [hphase]; nofun
      obtain ⟨agent, -, hstep⟩ := bind_some hstep
      obtain ⟨⟨r, res⟩, hx, hstep⟩ := bind_some hstep
      simp only [] at hstep
      split at hstep
      all_goals cases hstep
      · exact h.advance he (ran_of_exec hx rfl) hdone (fun hs => absurd hs hstarting)
          (fun _ => persistOp_spares) rfl fun hold hspares hids =>
            attends_next hold hspares hids hstarting hdone nofun fun _ hc =>
              (mem_retain hc).elim (fun hnone => absurd hnone List.not_mem_nil) .inr
      · exact h.settle he rfl fun q hq hold => attends_next hold (.refl q) (h.ids _ q hq)
          hstarting hdone nofun fun _ hc => .inl hc
      · exact hended _ rfl rfl
  · next code hphase =>
      have hstarting : e.phase ≠ .starting := by rw [hphase]; nofun
      have hdone : e.phase ≠ .done := by rw [hphase]; nofun
      obtain ⟨⟨r, res⟩, hx, hstep⟩ := bind_some hstep
      simp only [] at hstep
      split at hstep
      all_goals cases hstep
      · exact h.advance he (ran_of_exec hx rfl) hdone (fun hs => absurd hs hstarting)
          (fun _ => alone_ensures (failResult_routine .spares _)) rfl fun hold hspares hids =>
            attends_next hold hspares hids hstarting hdone nofun fun _ hc =>
              (mem_retain hc).elim (fun hnone => absurd hnone List.not_mem_nil) .inr
      · exact hended _ rfl rfl
  · split at hstep
    · cases hstep
    · next hphase =>
        rw [not_and_or, not_not, not_not] at hphase
        have hdone : e.phase ≠ .done ∧ e.phase ≠ .starting := by
          rcases hphase with hphase | ⟨hphase, -⟩ <;> rw [hphase] <;> exact ⟨nofun, nofun⟩
        obtain ⟨⟨r, res⟩, hx, hstep⟩ := bind_some hstep
        simp only [] at hstep
        split at hstep
        all_goals cases hstep
        · exact h.advance he (ran_of_exec hx rfl) hdone.1 (fun hs => absurd hs hdone.2)
            (fun _ => completeOp_routine .spares) rfl fun _ _ _ => .of_done rfl
        · exact hended _ rfl rfl
  · cases hstep
    exact hended _ rfl rfl
  · cases hstep

/-! ### Requests -/

/-- A claim that a request is granted starts an executor that holds nothing. -/
theorem Framed.spawn {op : RunRecord → Except Fault (Option ExecutionClaim × RunRecord)}
    (h : Framed s) (hop : ∀ r, Ensures (op r) fun p => Spares r p.2)
    (hclaims : ∀ r, Ensures (op r) fun p => ∀ claim, p.1 = some claim →
      claim.runId = r.run.id ∧ p.2.run.state = .running)
    {kind : ExecutorKind} {build : Build} {p : Option ExecutionClaim × RunRecord}
    (hrun : s.onRun id op = some p) :
    Framed (s.spawn kind build p) ∧ Leaves s (s.spawn kind build p) := by
  refine h.request hop hrun spawn_runs fun e he => ?_
  unfold Runtime.spawn at he
  split at he
  · exact .inl he
  · next claim hclaim =>
      rcases List.mem_append.mp he with hold | hnew
      · exact .inl hold
      · rw [List.mem_singleton] at hnew
        subst hnew
        obtain ⟨r, hr, htx⟩ := onRun_ok hrun
        obtain ⟨after, hok, hp, -⟩ := transact_ok htx
        rw [Cache.empty_seen] at hok hp
        obtain ⟨hown, hrunning⟩ := hclaims r _ hok claim hclaim
        have hstate : p.2.run.state = .running := by
          rw [hp]
          show written r.run.state after.run.state r.run.state = .running
          rw [written_self]
          exact hrunning
        exact .inr ⟨hown.trans (Runs.get_id hr),
          ⟨fun _ _ => by rw [hstate]; rfl, nofun, fun _ => Cache.copies_of_none rfl _⟩⟩

theorem created_leaves {build : Build} {projectExists : Uuid → Bool} {q : AgentRunCreate}
    {keyHash fingerprint : String} {now : Instant} {runId correlationId : Uuid}
    {result : CreateResult} {runs : Runs}
    (h : createRun build s.runs projectExists q keyHash fingerprint now runId correlationId =
      .ok (result, runs)) : Leaves s { s with runs := runs } := by
  rcases createRun_ok h with ⟨r, -, -, -, rfl⟩ | ⟨-, hfree, -, -, rfl⟩
  · exact .of_runs rfl
  · have hget : ∀ other, Runs.get (s.runs ++
        [newRun build q keyHash fingerprint now runId correlationId]) other =
        if other = runId then some (newRun build q keyHash fingerprint now runId correlationId)
        else s.runs.get other := Runs.get_append hfree
    refine ⟨fun other r hr => ⟨r, ?_, .refl r⟩, fun other r' hr' hnone => ?_⟩
    · show Runs.get _ other = _
      rw [hget, if_neg]
      · exact hr
      · rintro rfl
        rw [hfree] at hr
        cases hr
    · change Runs.get _ other = _ at hr'
      rw [hget] at hr'
      split at hr'
      · cases hr'
        refine ⟨rfl, rfl, fun e he => ?_⟩
        rw [List.mem_singleton.mp he]
        exact entersReady_of_note (by simp [stateChangedType])
      · rw [hnone] at hr'
        cases hr'

/-- A step that plans nothing leaves every plan alone. -/
theorem Framed.step (h : Framed s) (hplans : l.plans = false) (hnext : s.step l = some s') :
    Framed s' ∧ Leaves s s' := by
  unfold Runtime.step at hnext
  split at hnext
  · next build world q keyHash fingerprint now runId correlationId =>
      split at hnext
      · next hcreate =>
          cases hnext
          have hleaves := created_leaves hcreate
          exact ⟨h.of_leaves hleaves fun _ he => .inl he, hleaves⟩
      · cases hnext
  · cases hplans
  · obtain ⟨p, hp, rfl⟩ := Option.map_eq_some_iff.mp hnext
    exact h.request (fun _ => alone_ensures (cancelRun_routine .spares _)) hp rfl fun _ he => .inl he
  · cases hplans
  · cases hplans
  · cases hplans
  · obtain ⟨p, hp, rfl⟩ := Option.map_eq_some_iff.mp hnext
    exact h.request (fun _ => createProposal_spares _ _ _ _ _) hp rfl fun _ he => .inl he
  · obtain ⟨p, hp, rfl⟩ := Option.map_eq_some_iff.mp hnext
    exact h.request (fun _ => reviewProposal_spares _ _ _) hp rfl fun _ he => .inl he
  · obtain ⟨p, hp, rfl⟩ := Option.map_eq_some_iff.mp hnext
    refine h.spawn (fun _ => claimExecution_routine .spares _ _) (fun r => ?_) hp
    refine (claimExecution_work (k := none) _ _).mono fun q hq claim hclaim => ?_
    obtain ⟨hown, -, hrunning⟩ := hq.2 claim hclaim
    exact ⟨hown, hrunning⟩
  · obtain ⟨p, hp, rfl⟩ := Option.map_eq_some_iff.mp hnext
    refine h.spawn (fun _ => prepareOne_routine .spares) (fun r => ?_) hp
    refine (prepareOne_work (k := none)).mono fun q hq claim hclaim => ?_
    obtain ⟨hown, -, hrunning⟩ := hq.2 claim hclaim
    exact ⟨hown, hrunning⟩
  · obtain ⟨r, hr, hnext⟩ := bind_some hnext
    obtain ⟨definition, -, hnext⟩ := bind_some hnext
    split at hnext
    · cases hnext
    · next hready =>
        cases hnext
        refine ⟨h.of_leaves (.of_runs rfl) fun e he => ?_, .of_runs rfl⟩
        rcases List.mem_append.mp he with hold | hnew
        · exact .inl hold
        · rw [List.mem_singleton] at hnew
          subst hnew
          refine .inr ⟨r, hr, fun hstarting => absurd rfl hstarting, fun _ => ?_, fun _ => ?_⟩
          · exact ⟨rfl, r.run, rfl, not_not.mp hready⟩
          · exact Cache.copies_of_none rfl r
  · obtain ⟨pid, hpid, hnext⟩ := bind_some hnext
    obtain ⟨e, he, hnext⟩ := bind_some hnext
    exact h.execStep he hnext

end Runtime

end SecondBrain
