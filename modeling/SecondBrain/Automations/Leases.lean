import SecondBrain.Automations.OneRun

/-!
# Leases of the scheduler

Each claim raises the generation of the lease, so that a generation is granted once. What a
claim says is compared with the occurrence where a run is linked, and there only: a tick
whose claim has been taken over cannot link, but it can still defer or fail the occurrence
that it knows by its identifier (`claimed_moves`).
-/

namespace SecondBrain

open Lib

namespace Automations

variable {zoneInfo : ZoneInfo} {isoformat : Instant → String} {build : Build}
  {s s' : SchedulerState} {db db' db'' : Tables} {clock : Instant} {t t' : Tick}
  {o o' : OccurrenceRow} {claim claim' : Claim}

/-! ## Generations -/

/-- A move grants the lease anew, or ends the claim. -/
theorem RowMove.lease (h : RowMove db t o o') :
    o'.leaseGeneration = o.leaseGeneration + 1 ∧ o'.state = .claimed ∧
        o'.leaseOwnerToken = some t.owner ∨
      o'.leaseGeneration = o.leaseGeneration ∧ o'.state ≠ .claimed := by
  cases h with
  | runEnded _ _ _ _ =>
      refine .inr ⟨rfl, ?_⟩
      dsimp only [OccurrenceRow.runEnded]
      split
      · decide
      · decide
  | reclaimed _ hexpired _ =>
      have hclaimed := isExpired_claimed hexpired
      exact .inl ⟨rfl, hclaimed, rfl⟩
  | claimed _ _ => exact .inl ⟨rfl, rfl, rfl⟩
  | _ =>
      refine .inr ⟨rfl, fun heq => ?_⟩
      cases heq

/-- What becomes of a lease from some tables to later ones. -/
def LeasesLast (db db' : Tables) : Prop :=
  ∀ id o, db.occurrence? id = some o → ∃ o', db'.occurrence? id = some o' ∧
    o'.automationId = o.automationId ∧ o.leaseGeneration ≤ o'.leaseGeneration ∧
    (o'.leaseGeneration = o.leaseGeneration → o'.state = .claimed →
      o.state = .claimed ∧ o'.leaseOwnerToken = o.leaseOwnerToken)

theorem LeasesLast.refl (db : Tables) : LeasesLast db db :=
  fun _ o ho => ⟨o, ho, rfl, le_refl _, fun _ hclaimed => ⟨hclaimed, rfl⟩⟩

theorem LeasesLast.trans (h : LeasesLast db db') (h' : LeasesLast db' db'') :
    LeasesLast db db'' := by
  intro id o ho
  obtain ⟨o', ho', hsame, hle, hlease⟩ := h id o ho
  obtain ⟨o'', ho'', hsame', hle', hlease'⟩ := h' id o' ho'
  refine ⟨o'', ho'', hsame'.trans hsame, hle.trans hle', fun heq hclaimed => ?_⟩
  have hmid : o'.leaseGeneration = o.leaseGeneration := le_antisymm (heq ▸ hle') hle
  obtain ⟨hclaimed', htoken⟩ := hlease' (heq.trans hmid.symm) hclaimed
  obtain ⟨hclaimed'', htoken'⟩ := hlease hmid hclaimed'
  exact ⟨hclaimed'', htoken.trans htoken'⟩

theorem Change.leases_last (hrows : KeyedRows db) (h : Change isoformat build clock db db') :
    LeasesLast db db' := by
  intro id o ho
  obtain ⟨o', ho', rfl | ⟨t, -, hmove⟩⟩ := h.occurrence_later hrows.occurrences ho
  · exact ⟨o', ho', rfl, le_refl _, fun _ hclaimed => ⟨hclaimed, rfl⟩⟩
  · refine ⟨o', ho', hmove.automation.1, ?_, fun hsame hclaimed => ?_⟩
    · rcases hmove.lease with ⟨hnext, -⟩ | ⟨hsame, -⟩
      · exact hnext ▸ Nat.le_succ _
      · exact hsame.ge
    · rcases hmove.lease with ⟨hnext, -⟩ | ⟨-, hover⟩
      · omega
      · exact absurd hclaimed hover

theorem Changes.leases_last (hrows : KeyedRows db) (h : Changes isoformat build clock db db') :
    LeasesLast db db' := by
  induction h with
  | refl => exact .refl _
  | tail hbefore hlast ih => exact ih.trans (hlast.leases_last (Changes.keyed hbefore hrows))

/-! ## Claims -/

/-- The lease is granted to the tick. -/
def Granted (db db' : Tables) (t : Tick) (claim : Claim) : Prop :=
  ∃ o o', db.occurrence? claim.occurrenceId = some o ∧ db'.occurrence? claim.occurrenceId = some o' ∧
    claim = o.claim t.owner ∧ o'.automationId = o.automationId ∧
    o'.leaseGeneration = o.leaseGeneration + 1 ∧ o'.state = .claimed ∧
    o'.leaseOwnerToken = some t.owner

theorem Takes.granted {rows : List OccurrenceRow} {f : OccurrenceRow → OccurrenceRow}
    (hids : Keyed (·.id) db.occurrences) (h : Takes db t rows f db')
    (hlease : ∀ o, (f o).leaseGeneration = o.leaseGeneration + 1)
    (hclaim : claim ∈ rows.map (·.claim t.owner)) : Granted db db' t claim := by
  obtain ⟨o, ho, rfl⟩ := List.mem_map.mp hclaim
  have hfound : db.occurrence? o.id = some o := hids.lookup (h.mem o ho).1
  obtain ⟨o', ho', hmem, rfl, -⟩ := h.turns.lookup_turned hfound (List.mem_map_of_mem ho)
  have hmove := (h.mem o ho).2
  rcases hmove.lease with ⟨hnext, hclaimed, htoken⟩ | ⟨hsame, -⟩
  · exact ⟨o, f o, hfound, ho', rfl, hmove.automation.1, hnext, hclaimed, htoken⟩
  · rw [hlease] at hsame
    omega

/-- The claims of a tick are those it had, and those it is granted. -/
theorem TickStep.claims_from {phase : TickPhase} (hids : Keyed (·.id) db.occurrences)
    (h : TickStep isoformat build db t phase db') (hclaim : claim ∈ phase.claims) :
    claim ∈ t.phase.claims ∨ Granted db db' t claim := by
  cases h with
  | rested hsub => exact .inl (hsub.subset hclaim)
  | reconciled _ _ _ => cases hclaim
  | reclaimed _ htakes => exact .inr (htakes.granted hids (fun _ => rfl) hclaim)
  | materialized hphase _ => exact .inl (hphase ▸ hclaim)
  | claimed hphase _ htakes =>
      rw [claims_next, allClaims, List.mem_append] at hclaim
      rcases hclaim with hclaim | hclaim
      · exact .inl (hphase ▸ hclaim)
      · exact .inr (htakes.granted hids (fun _ => rfl) (List.mem_filter.mp hclaim).1)
  | linked _ hsub _ => exact .inl (hsub.subset hclaim)
  | handled _ hsub _ _ => exact .inl (hsub.subset hclaim)

/-- What a claim knows of its occurrence. -/
def Known (db : Tables) (claim : Claim) : Prop :=
  ∃ o, db.occurrence? claim.occurrenceId = some o ∧ o.automationId = claim.automationId ∧
    claim.leaseGeneration ≤ o.leaseGeneration ∧
    (claim.leaseGeneration = o.leaseGeneration → o.state = .claimed →
      o.leaseOwnerToken = some claim.ownerToken)

theorem Known.later (hlast : LeasesLast db db') (h : Known db claim) : Known db' claim := by
  obtain ⟨o, ho, hautomation, hle, htoken⟩ := h
  obtain ⟨o', ho', hsame, hle', hlease⟩ := hlast _ o ho
  refine ⟨o', ho', hsame.trans hautomation, hle.trans hle', fun heq hclaimed => ?_⟩
  have hmid : o'.leaseGeneration = o.leaseGeneration := le_antisymm (heq ▸ hle) hle'
  obtain ⟨hclaimed', hkept⟩ := hlease hmid hclaimed
  exact hkept.trans (htoken (heq.trans hmid) hclaimed')

theorem Granted.known (h : Granted db db' t claim) : Known db' claim := by
  obtain ⟨o, o', -, ho', rfl, hautomation, hnext, -, htoken⟩ := h
  exact ⟨o', ho', hautomation, hnext.ge, fun _ _ => htoken⟩

/-- A claim that was there before is of another generation. -/
theorem Granted.newer (h : Granted db db' t claim) (hknown : Known db claim')
    (hsame : claim'.occurrenceId = claim.occurrenceId) :
    claim'.leaseGeneration < claim.leaseGeneration := by
  obtain ⟨o, o', ho, -, rfl, -⟩ := h
  obtain ⟨p, hp, -, hle, -⟩ := hknown
  rw [hsame, ho] at hp
  obtain rfl := Option.some.inj hp
  exact Nat.lt_succ_of_le hle

/-- What holds of the claims of all ticks. -/
structure Claimed (s : SchedulerState) : Prop where
  own : ∀ t ∈ s.ticks, ∀ claim ∈ t.phase.claims, claim.ownerToken = t.owner
  known : ∀ t ∈ s.ticks, ∀ claim ∈ t.phase.claims, Known s.db claim
  once : ∀ t ∈ s.ticks, ∀ t' ∈ s.ticks, ∀ claim ∈ t.phase.claims, ∀ claim' ∈ t'.phase.claims,
    claim.occurrenceId = claim'.occurrenceId → claim.leaseGeneration = claim'.leaseGeneration →
    claim.ownerToken = claim'.ownerToken

/-- A step that leaves the ticks. -/
theorem Claimed.later (hlast : LeasesLast s.db s'.db) (hticks : s'.ticks = s.ticks)
    (h : Claimed s) : Claimed s' := by
  refine ⟨hticks ▸ h.own, fun t ht claim hclaim => ?_, hticks ▸ h.once⟩
  exact (h.known t (hticks ▸ ht) claim hclaim).later hlast

theorem Claimed.step (hs : Orderly s) (h : Claimed s)
    (hstep : SchedulerStep isoformat build s s') : Claimed s' := by
  have hlast := (hstep.changes hs.times).1.leases_last hs.rows
  cases hstep with
  | passed _ => exact h.later hlast rfl
  | projectAdded => exact h.later hlast rfl
  | edited _ => exact h.later hlast rfl
  | created _ => exact h.later hlast rfl
  | ran _ _ => exact h.later hlast rfl
  | @joined new _ hphase _ =>
      have hmem : ∀ {t claim}, t ∈ s.ticks ++ [new] → claim ∈ t.phase.claims → t ∈ s.ticks := by
        intro t claim ht hclaim
        rcases List.mem_append.mp ht with ht | ht
        · exact ht
        · rw [List.mem_singleton.mp ht, hphase] at hclaim
          cases hclaim
      refine ⟨fun t ht claim hclaim => h.own t (hmem ht hclaim) claim hclaim,
        fun t ht claim hclaim => h.known t (hmem ht hclaim) claim hclaim,
        fun t ht t' ht' claim hclaim claim' hclaim' => ?_⟩
      exact h.once t (hmem ht hclaim) t' (hmem ht' hclaim') claim hclaim claim' hclaim'
  | @moved i t phase d ht hmove =>
      have htick := List.mem_of_getElem? ht
      -- A claim after the step was there before it, or is granted to the tick that moves.
      have hfrom : ∀ {u claim}, u ∈ (s.setTick i { t with phase := phase } d).ticks →
          claim ∈ u.phase.claims → (∃ u' ∈ s.ticks, u'.owner = u.owner ∧ claim ∈ u'.phase.claims) ∨
            u.owner = t.owner ∧ Granted s.db d t claim := by
        intro u claim hu hclaim
        rcases List.mem_or_eq_of_mem_set hu with hu | rfl
        · exact .inl ⟨u, hu, rfl, hclaim⟩
        · rcases hmove.claims_from hs.rows.occurrences hclaim with hold | hgranted
          · exact .inl ⟨t, htick, rfl, hold⟩
          · exact .inr ⟨rfl, hgranted⟩
      refine ⟨fun u hu claim hclaim => ?_, fun u hu claim hclaim => ?_,
        fun u hu u' hu' claim hclaim claim' hclaim' hid hgeneration => ?_⟩
      · rcases hfrom hu hclaim with ⟨u', hu', howner, hold⟩ | ⟨howner, o, o', -, -, rfl, -⟩
        · exact (h.own u' hu' claim hold).trans howner
        · exact howner.symm
      · rcases hfrom hu hclaim with ⟨u', hu', -, hold⟩ | ⟨-, hgranted⟩
        · exact (h.known u' hu' claim hold).later hlast
        · exact hgranted.known
      · rcases hfrom hu hclaim with ⟨v, hv, -, hold⟩ | ⟨-, hgranted⟩
        · rcases hfrom hu' hclaim' with ⟨v', hv', -, hold'⟩ | ⟨-, hgranted'⟩
          · exact h.once v hv v' hv' claim hold claim' hold' hid hgeneration
          · have hnewer := hgranted'.newer (h.known v hv claim hold) hid
            omega
        · rcases hfrom hu' hclaim' with ⟨v', hv', -, hold'⟩ | ⟨-, hgranted'⟩
          · have hnewer := hgranted.newer (h.known v' hv' claim' hold') hid.symm
            omega
          · obtain ⟨o, -, -, -, rfl, -⟩ := hgranted
            obtain ⟨o', -, -, -, rfl, -⟩ := hgranted'
            rfl

theorem claimed (h : (Scheduler.machine zoneInfo isoformat build).Reachable s) : Claimed s := by
  refine h.invariant ?_ ?_
  · rintro s rfl
    refine ⟨fun t ht => ?_, fun t ht => ?_, fun t ht => ?_⟩ <;> cases ht
  · intro s l s' hr _ hs hnext
    have ho := orderly hr.reachable
    exact hs.step ho (step_cases ho.rows hnext)

/-! ## What becomes of a claimed occurrence -/

theorem Round.occurrence_kept {now : Instant} {a : AutomationRow} {point : SchedulePoint}
    {next : Option Instant} {id : Uuid} (h : Round isoformat now db a point next db')
    (ho : db.occurrence? id = some o) : db'.occurrence? id = some o := by
  rcases h.occurrences with ⟨hsame, -⟩ | ⟨state, disposition, id, -, -, hadded⟩
  · rw [Tables.occurrence?, hsame]
    exact ho
  · rw [Tables.occurrence?, hadded]
    exact lookup_append_of_some ho _

theorem Materialized.occurrence_kept {now : Instant} {id : Uuid}
    (h : Materialized isoformat now db db') (ho : db.occurrence? id = some o) :
    db'.occurrence? id = some o := by
  induction h with
  | done => exact ho
  | round hround _ ih => exact ih (hround.occurrence_kept ho)

theorem TickStep.occurrence_later {phase : TickPhase} {id : Uuid}
    (hids : Keyed (·.id) db.occurrences) (h : TickStep isoformat build db t phase db')
    (ho : db.occurrence? id = some o) :
    ∃ o', db'.occurrence? id = some o' ∧ (o' = o ∨ RowMove db t o o') := by
  have hturned : ∀ {ids}, Turns (fun o o' => o' = o ∨ RowMove db t o o') ids db db' →
      ∃ o', db'.occurrence? id = some o' ∧ (o' = o ∨ RowMove db t o o') := by
    intro ids hturns
    obtain ⟨o', ho', hmove⟩ := hturns.lookup_some ho
    exact ⟨o', ho', or_self_left.mp hmove⟩
  cases h with
  | rested _ => exact ⟨o, ho, .inl rfl⟩
  | reconciled _ hturns _ => exact hturned hturns
  | reclaimed _ htakes => exact hturned htakes.moves
  | materialized _ hrounds => exact ⟨o, hrounds.occurrence_kept ho, .inl rfl⟩
  | claimed _ _ htakes => exact hturned htakes.moves
  | linked hphase _ hlinks => exact hturned (hlinks.moves hids hphase)
  | handled _ _ hturns _ => exact hturned (hturns.mono fun _ _ _ hmove => .inr hmove)

/-- A claim is of the current lease or of an earlier one. -/
theorem Known.holds (h : Known db claim) (hid : o.id = claim.occurrenceId)
    (ho : db.occurrence? o.id = some o) (hclaimed : o.state = .claimed) :
    claim.holds o = true ∨ claim.leaseGeneration < o.leaseGeneration := by
  obtain ⟨p, hp, -, hle, htoken⟩ := h
  rw [← hid, ho] at hp
  obtain rfl := Option.some.inj hp
  rcases hle.lt_or_eq with hlt | heq
  · exact .inr hlt
  · exact .inl (holds_iff.mpr ⟨hid, hclaimed, htoken heq hclaimed, heq.symm⟩)

end Automations

end SecondBrain
