import SecondBrain.Connectors.Occurrences

/-!
# Occurrences and their runs

The run of an occurrence is claimed in the transaction that links it, and only the
tick that holds the lease gets that far. So every scheduled run belongs to one
occurrence, the link stays as it is whatever becomes of the tick, and nobody else
ends an occurrence that has been linked (`links_fenced`).
-/

namespace SecondBrain

open Lib

namespace Connectors

variable {c : Clockwork} {p : Platform} {s s' : SchedulerState} {db db' : Store}
  {claim : Claim} {o o' : Occurrence} {t : Tick} {i : Nat} {l : SchedulerLabel}

/-! ## What stays of an occurrence -/

/-- A lease of the same generation is the same lease, and a terminal occurrence is
not written again. -/
structure OccurrenceKept (o o' : Occurrence) : Prop where
  origin : o'.origin = o.origin
  link : ∀ runId ∈ o.connectorSyncRunId, o'.connectorSyncRunId = some runId
  generation : o.leaseGeneration ≤ o'.leaseGeneration
  owner : o'.leaseGeneration = o.leaseGeneration →
    ∀ owner ∈ o'.leaseOwnerToken, o.leaseOwnerToken = some owner
  terminal : o.state.isTerminal = true → o' = o

theorem OccurrenceKept.refl (o : Occurrence) : OccurrenceKept o o :=
  ⟨rfl, fun _ h => h, le_rfl, fun _ _ h => h, fun _ => rfl⟩

theorem OccurrenceKept.trans {o'' : Occurrence} (h : OccurrenceKept o o')
    (h' : OccurrenceKept o' o'') : OccurrenceKept o o'' := by
  have hle := h.generation
  have hle' := h'.generation
  refine ⟨h'.origin.trans h.origin, fun runId hlink => h'.link runId (h.link runId hlink),
    hle.trans hle', fun hsame owner howner => ?_, fun hterminal => ?_⟩
  · exact h.owner (by omega) owner (h'.owner (by omega) owner howner)
  · obtain rfl := h.terminal hterminal
    exact h'.terminal hterminal

theorem RowMoves.kept (hmove : RowMoves p s db' l o o') : OccurrenceKept o o' := by
  have hkept : ∀ runId, o.connectorSyncRunId = some runId → o'.connectorSyncRunId = some runId :=
    fun _ hlink => hmove.link_kept hlink
  have horigin := hmove.origin
  cases hmove with
  | same => exact .refl o
  | leased ht hready =>
      refine ⟨horigin, hkept, Nat.le_succ _, fun hsame => absurd hsame (Nat.succ_ne_self _), ?_⟩
      intro hterminal
      unfold Occurrence.isAbandoned Occurrence.isResumable at hready
      simp only [Bool.and_eq_true, decide_eq_true_eq] at hready
      rcases hready with hready | hready
      · rw [hready.1] at hterminal
        cases hterminal
      · rw [hready.1] at hterminal
        cases hterminal
  | @claimed i m t o ht hdue =>
      have hterminal : o.state.isTerminal = true → o.claimed s.db s.plan t.owner t.now t.lease = o := by
        rw [hdue]
        exact nofun
      unfold Occurrence.claimed at horigin hkept hterminal ⊢
      split
      · next hauthorized =>
          rw [if_pos hauthorized] at horigin hkept hterminal
          exact ⟨horigin, hkept, Nat.le_succ _, fun hsame => absurd hsame (Nat.succ_ne_self _),
            hterminal⟩
      · next hauthorized =>
          rw [if_neg hauthorized] at horigin hkept hterminal
          exact ⟨horigin, hkept, le_rfl, fun _ _ howner => howner, hterminal⟩
  | linked ht hphase hvalid hnone =>
      refine ⟨horigin, hkept, le_rfl, fun _ _ howner => howner, fun hterminal => ?_⟩
      rw [hvalid.state] at hterminal
      cases hterminal
  | finalized ht hphase hvalid hlinked =>
      refine ⟨horigin, hkept, le_rfl, fun _ _ howner => (nomatch howner), fun hterminal => ?_⟩
      rw [hvalid.state] at hterminal
      cases hterminal

theorem occurrence_kept (h : s.Sound p)
    (hlater : ((Scheduler.machine c p).startingAt s).Reachable s') (ho : o ∈ s.plan.occurrences) :
    ∃ o' ∈ s'.plan.occurrences, OccurrenceKept o o' := by
  have hkept := Machine.later (M := Scheduler.machine c p)
    (R := fun a b : SchedulerState => ∀ o ∈ a.plan.occurrences, ∃ o' ∈ b.plan.occurrences,
      OccurrenceKept o o')
    (I := fun a => a.Sound p) (fun a o ho => ⟨o, ho, .refl o⟩)
    (fun hab hbc o ho => by
      obtain ⟨o', ho', hkept⟩ := hab o ho
      obtain ⟨o'', ho'', hkept'⟩ := hbc o' ho'
      exact ⟨o'', ho'', hkept.trans hkept'⟩)
    (fun a l b ha hstep => by
      have hstepped := step_stepped ha hstep
      refine ⟨fun o ho => ?_, hstepped.sound ha⟩
      obtain ⟨o', ho', hmove⟩ := hstepped.rows.exists_row ho
      exact ⟨o', ho', hmove.kept⟩) h hlater
  exact hkept o ho

/-! ## Who links and finalises -/

/-- The tick is at work on the claim that the occurrence is leased under, and no other
tick has its token. -/
def Holder (s : SchedulerState) (i : Nat) (phase : Claim → List Claim → TickPhase)
    (o : Occurrence) : Prop :=
  ∃ t claim rest, s.ticks[i]? = some t ∧ t.phase = phase claim rest ∧
    claim.ownerToken = t.owner ∧ claim.holds o = true ∧
    ∀ j t', s.ticks[j]? = some t' → t'.owner = t.owner → j = i

theorem owner_unique (h : s.Sound p) (ht : s.ticks[i]? = some t) {j : Nat} {t' : Tick}
    (ht' : s.ticks[j]? = some t') (howner : t'.owner = t.owner) : j = i := by
  have hlt := (List.getElem?_eq_some_iff.mp ht).1
  have hlt' := (List.getElem?_eq_some_iff.mp ht').1
  have hnodup := h.owners
  rw [Keyed] at hnodup
  have hlt : i < (s.ticks.map (·.owner)).length := by rwa [List.length_map]
  have hlt' : j < (s.ticks.map (·.owner)).length := by rwa [List.length_map]
  have hsame : (s.ticks.map (·.owner))[j] = (s.ticks.map (·.owner))[i] := by
    rw [List.getElem_map, List.getElem_map, (List.getElem?_eq_some_iff.mp ht).2,
      (List.getElem?_eq_some_iff.mp ht').2, howner]
  exact hnodup.getElem_inj_iff.mp hsame

theorem Validated.holder {phase : Claim → List Claim → TickPhase} {rest : List Claim}
    {expected : OccurrenceState} (hvalid : Validated s.db s.plan claim expected o) (h : s.Sound p)
    (ht : s.ticks[i]? = some t) (hphase : t.phase = phase claim rest)
    (hclaims : claim ∈ t.phase.claims) : Holder s i phase o := by
  have hof := h.claims t (List.mem_of_getElem? ht) claim hclaims
  exact ⟨t, claim, rest, ht, hphase, hof.1, hvalid.held,
    fun j t' ht' howner => owner_unique h ht ht' howner⟩

theorem RowMoves.linker (hmove : RowMoves p s db' l o o') (h : s.Sound p)
    (hchanged : o'.connectorSyncRunId ≠ o.connectorSyncRunId) :
    ∃ i now id, l = .move i (.link now id) ∧ o.state = .claimed ∧ Holder s i .linking o := by
  cases hmove with
  | same | leased | finalized => exact absurd rfl hchanged
  | claimed =>
      unfold Occurrence.claimed at hchanged
      split at hchanged
      · exact absurd rfl hchanged
      · exact absurd rfl hchanged
  | linked ht hphase hvalid =>
      refine ⟨_, _, _, rfl, hvalid.state, hvalid.holder h ht hphase ?_⟩
      rw [hphase]
      exact List.mem_cons_self

theorem RowMoves.finalizer (hmove : RowMoves p s db' l o o') (h : s.Sound p)
    (hbefore : o.state = .syncCreated) (hafter : o'.state ≠ .syncCreated) :
    ∃ i, l = .move i .finalize ∧ Holder s i .finalizing o := by
  cases hmove with
  | same | leased => exact absurd hbefore hafter
  | claimed ht hdue => exact absurd (hdue.symm.trans hbefore) nofun
  | linked => exact absurd rfl hafter
  | finalized ht hphase hvalid =>
      refine ⟨_, rfl, hvalid.holder h ht hphase ?_⟩
      rw [hphase]
      exact List.mem_cons_self

/-- What may happen to an occurrence in a step. -/
theorem Stepped.row (hstepped : Stepped p s l s') (h : s.Sound p) (ho : o ∈ s.plan.occurrences)
    (ho' : o' ∈ s'.plan.occurrences) (hid : o'.id = o.id) : RowMoves p s s'.db l o o' := by
  obtain ⟨moved, hmoved, hmove⟩ := hstepped.rows.exists_row ho
  have hids := (hstepped.sound h).ids
  rw [hids.inj ho' hmoved (hid.trans hmove.id_eq.symm)]
  exact hmove

/-- In every state of every run a slot of a schedule has one occurrence and every
scheduled run belongs to the one occurrence that is linked to it; whatever comes
later, a link stays, no generation is leased twice and what is terminal is not
touched; and who links or finalises an occurrence is the one tick that holds its
lease. -/
theorem links_fenced (hs : (Scheduler.machine c p).Reachable s) :
    Keyed Occurrence.slot s.plan.occurrences ∧
      (∀ o ∈ s.plan.occurrences, ∀ runId ∈ o.connectorSyncRunId, ∃ run,
        s.db.run? runId = some run ∧ run.triggerKind = .scheduled) ∧
      (∀ run ∈ s.db.runs, run.triggerKind = .scheduled →
        ∃! o, o ∈ s.plan.occurrences ∧ o.connectorSyncRunId = some run.id) ∧
      (∀ s', ((Scheduler.machine c p).startingAt s).Reachable s' → ∀ o ∈ s.plan.occurrences,
        ∃ o' ∈ s'.plan.occurrences, OccurrenceKept o o') ∧
      ∀ l s', Scheduler.step c p s l = some s' → ∀ o ∈ s.plan.occurrences,
        ∀ o' ∈ s'.plan.occurrences, o'.id = o.id →
          (o'.connectorSyncRunId ≠ o.connectorSyncRunId →
            ∃ i now id, l = .move i (.link now id) ∧ o.state = .claimed ∧ Holder s i .linking o) ∧
          (o.state = .syncCreated → o'.state ≠ .syncCreated →
            ∃ i, l = .move i .finalize ∧ Holder s i .finalizing o) := by
  have h : s.Sound p := scheduler_sound hs
  refine ⟨h.slots, fun o ho runId hlink => ?_, fun run hrun hkind => ?_,
    fun s' hlater o ho => ?_, fun l s' hstep o ho o' ho' hid => ?_⟩
  · obtain ⟨run, hrun, hkind, -⟩ := (h.rows o ho).run runId hlink
    exact ⟨run, hrun, hkind⟩
  · obtain ⟨o, ho, hlink⟩ := h.runs run hrun hkind
    exact ⟨o, ⟨ho, hlink⟩, fun other hother => h.links other hother.1 o ho run.id hother.2 hlink⟩
  · exact occurrence_kept h hlater ho
  · have hmove := (step_stepped h hstep).row h ho ho' hid
    exact ⟨hmove.linker h, hmove.finalizer h⟩

/-! ## A run -/

/-- A clock on which every schedule has a slot at the end of each period. -/
def sampleClockwork : Clockwork where
  nextPoint _ t := .ok (some ((t / 100 + 1) * 100))
  isoformat t := toString t
  progress {definition t slot} h := by
    have hnext : ∀ x : Int, x < (x / 100 + 1) * 100 := fun x => by omega
    exact Option.some.inj (Except.ok.inj h) ▸ hnext t

def sampleSchedule : List SchedulerLabel :=
  sampleSetup.map .sync ++
    [.plan (.create 1
        { definition := { kind := .daily, timezoneName := "UTC", localTime := 0 }
          missedRunPolicy := .runOnce } 5 0),
      .plan (.transition 5 0 .enable 0)]

/-- A tick up to its first link, of an occurrence and a run with a given identifier. -/
def sampleTick (i : Nat) (owner : Uuid) (now : Instant) (occurrenceId runId : Uuid) :
    List SchedulerLabel :=
  [.tick owner now (seconds 30) 4, .move i (.reclaimLinked []), .move i (.reclaimExpired []),
    .move i (.materialize [] fun _ => occurrenceId), .move i (.claimDue []),
    .move i (.link now runId)]

theorem links_fenced_linked : ∃ s, (Scheduler.machine sampleClockwork samplePlatform).Reachable s ∧
    (∃ run ∈ s.db.runs, run.triggerKind = .scheduled ∧
      ∃! o, o ∈ s.plan.occurrences ∧ o.connectorSyncRunId = some run.id) := by
  obtain ⟨s, hs, hlinked⟩ := Machine.exists_reachable_of_exec
    (Scheduler.machine sampleClockwork samplePlatform) (sampleSchedule ++ sampleTick 0 9 150 20 30)
    (fun s => s.db.runs.any fun run => decide (run.triggerKind = .scheduled)) (s := {}) rfl
    (by decide +kernel)
  obtain ⟨run, hrun, hkind⟩ := List.any_eq_true.mp hlinked
  have hkind := of_decide_eq_true hkind
  exact ⟨s, hs, run, hrun, hkind, (links_fenced hs).2.2.1 run hrun hkind⟩

end Connectors

end SecondBrain
