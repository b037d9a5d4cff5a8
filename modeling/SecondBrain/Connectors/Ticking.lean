import SecondBrain.Connectors.Closing
import SecondBrain.Connectors.Links

/-!
# One tick for one occurrence

A tick that finds every other row locked takes its occurrence, if the lease has run
out or the occurrence is due, and comes to work on it. Nothing else is written
before that.
-/

namespace SecondBrain

open Lib

namespace Connectors

variable {c : Clockwork} {p : Platform} {s s' : SchedulerState} {plan plan' : Plan}
  {claim : Claim} {o o' : Occurrence} {t : Tick} {m : TickMove} {i : Nat}

/-! ## What ticks and refreshes do alone -/

/-- No operator asks for anything, and no process dies. -/
def SchedulerLabel.isTicking : SchedulerLabel → Bool
  | .tick .. | .move .. | .sync (.call ..) | .sync (.settle ..) => true
  | .sync _ | .plan _ | .crash _ => false

/-- What ticks and refreshes can bring about. -/
abbrev Reaches (c : Clockwork) (p : Platform) (s s' : SchedulerState) : Prop :=
  ((Scheduler.machine c p).startingAt s).Reach (fun _ l => l.isTicking = true) s'

theorem Reaches.sound (h : Reaches c p s s') (hs : s.Sound p) : s'.Sound p ∧ Keeps s.db s'.db := by
  have hlater := Machine.later (M := Scheduler.machine c p)
    (R := fun a b : SchedulerState => b.Sound p ∧ Keeps a.db b.db ∨ b = a) (I := fun a => a.Sound p)
    (fun _ => .inr rfl) (fun hab hbc => by
      rcases hbc with hbc | rfl
      · rcases hab with hab | rfl
        · exact .inl ⟨hbc.1, hab.2.trans hbc.2⟩
        · exact .inl hbc
      · exact hab)
    (fun a l b ha hstep => by
      have hstepped := step_stepped ha hstep
      exact ⟨.inl ⟨hstepped.sound ha, (hstepped.sync.sound ha.sync).2⟩, hstepped.sound ha⟩)
    hs h.reachable
  rcases hlater with hlater | rfl
  · exact hlater
  · exact ⟨hs, .refl _⟩

theorem Reaches.move (h : Scheduler.step c p s (.move i m) = some s') : Reaches c p s s' :=
  .single (l := .move i m) rfl h

/-- What a refresh does alone. -/
theorem Reaches.refresh {pid : Nat} {sync : SyncState}
    (h : ((Sync.machine p).startingAt s.sync).Reach (fun _ l => l.isOf pid = true) sync) :
    Reaches c p s { s with sync := sync } := by
  induction h with
  | start h0 =>
      have h0 : _ = s.sync := h0
      subst h0
      exact .start rfl
  | @step a b l _ hown hstep ih =>
      have hstep : Sync.step p a l = some b := hstep
      have hsync : Scheduler.step c p { s with sync := a } (.sync l) = some { s with sync := b } := by
        have hfree : ¬ (l.isScheduled = true ∨
            s.ticks.any (fun t => t.refresh?.any fun q => l.stops q) = true) := by
          cases l with
          | call | settle => simp [SyncLabel.isScheduled, SyncLabel.stops]
          | edit | claim | resume | stop => cases hown
        rw [Scheduler.step, if_neg hfree, hstep]
      refine ih.step (l := .sync l) ?_ hsync
      cases l with
      | call | settle => rfl
      | edit | claim | resume | stop => cases hown

/-! ## Rows that others have locked -/

/-- The other rows. -/
def Plan.others (plan : Plan) (id : Uuid) : List Uuid :=
  (plan.occurrences.map (·.id)).filter (· ≠ id)

theorem filter_alone {rows : List Occurrence} (hids : Keyed (·.id) rows) (ho : o ∈ rows) :
    (rows.filter fun r => !((rows.map (·.id)).filter (· ≠ o.id)).contains r.id) = [o] := by
  have hsame : ∀ r ∈ rows, (!((rows.map (·.id)).filter (· ≠ o.id)).contains r.id) =
      decide (r = o) := by
    intro r hr
    by_cases hro : r = o
    · subst hro
      simp
    · have hid : r.id ≠ o.id := fun hid => hro (hids.inj hr ho hid)
      have hmem : r.id ∈ rows.map (·.id) := List.mem_map_of_mem hr
      simp only [hro, decide_false, Bool.not_eq_false', List.contains_iff_mem]
      exact List.mem_filter.mpr ⟨hmem, decide_eq_true hid⟩
  rw [List.filter_congr hsame]
  have hnodup : rows.Nodup := List.Nodup.of_map _ hids
  rw [List.filter_eq, List.count_eq_one_of_mem hnodup ho]
  rfl

/-- The row alone is taken, if it is wanted. -/
theorem batch_alone {time : Occurrence → Instant} {wanted : Occurrence → Bool}
    (hids : Keyed (·.id) plan.occurrences) (ho : o ∈ plan.occurrences) :
    batch (·.id) time 1 (plan.others o.id) (plan.occurrences.filter wanted) =
      if wanted o then [o] else [] := by
  have halone : (plan.occurrences.filter wanted).filter
      (fun r => !(plan.others o.id).contains r.id) = [o].filter wanted := by
    rw [List.filter_filter, ← filter_alone hids ho, List.filter_filter]
    exact List.filter_congr fun r _ => Bool.and_comm _ _
  unfold batch
  rw [halone]
  cases hwanted : wanted o with
  | true =>
      rw [List.filter_cons_of_pos hwanted]
      rfl
  | false =>
      rw [List.filter_cons_of_neg (by rw [hwanted]; exact nofun)]
      rfl

theorem mapRows_nil {f : Occurrence → Occurrence} : plan.mapRows [] f = plan := by
  have hsame : plan.occurrences.map (fun o => if o.id ∈ ([] : List Occurrence).map (·.id) then f o
      else o) = plan.occurrences :=
    (List.map_congr_left fun o _ => if_neg List.not_mem_nil).trans (List.map_id _)
  unfold Plan.mapRows
  rw [hsame]

theorem mapRows_single {f : Occurrence → Occurrence} (hids : Keyed (·.id) plan.occurrences)
    (ho : o ∈ plan.occurrences) (hid : (f o).id = o.id) :
    plan.mapRows [o] f = plan.putOccurrence (f o) := by
  have hsame : plan.occurrences.map (fun x => if x.id ∈ [o].map (·.id) then f x else x) =
      replace (·.id) (f o) plan.occurrences := by
    refine List.map_congr_left fun x hx => ?_
    by_cases hxo : x.id = o.id
    · have hx : x = o := hids.inj hx ho hxo
      subst hx
      exact (if_pos (List.mem_singleton.mpr rfl)).trans (if_pos hid.symm).symm
    · exact (if_neg fun hmem => hxo (List.mem_singleton.mp hmem)).trans
        (if_neg fun h => hxo (h.trans hid)).symm
  unfold Plan.mapRows Plan.putOccurrence
  rw [hsame]

theorem claimDue_takes {db : Store} {now : Instant} {owner : Uuid} {lease : Duration}
    (hids : Keyed (·.id) plan.occurrences) (ho : o ∈ plan.occurrences) (hdue : o.state = .due)
    (hpast : o.scheduledAt ≤ now) :
    claimDue db plan now owner lease 1 (plan.others o.id) =
      (plan.putOccurrence (o.claimed db plan owner now lease),
        if authorized db plan o then [o.claim owner] else []) := by
  have hid : (o.claimed db plan owner now lease).id = o.id := by
    unfold Occurrence.claimed
    split
    · rfl
    · rfl
  have hwanted : (decide (o.state = .due) && decide (o.scheduledAt ≤ now)) = true := by
    rw [decide_eq_true hdue, decide_eq_true hpast]
    rfl
  unfold claimDue
  simp only []
  rw [batch_alone hids ho, if_pos hwanted, mapRows_single hids ho hid]
  by_cases hauthorized : authorized db plan o = true
  · rw [if_pos hauthorized, List.filter_cons_of_pos hauthorized]
    rfl
  · rw [if_neg hauthorized, List.filter_cons_of_neg hauthorized]
    rfl

theorem claimDue_skips {db : Store} {now : Instant} {owner : Uuid} {lease : Duration}
    (hids : Keyed (·.id) plan.occurrences) (ho : o ∈ plan.occurrences) (hdue : o.state ≠ .due) :
    claimDue db plan now owner lease 1 (plan.others o.id) = (plan, []) := by
  unfold claimDue
  simp only []
  rw [batch_alone hids ho, decide_eq_false hdue, Bool.false_and, if_neg nofun, mapRows_nil]
  rfl

/-- No schedule is taken while others have locked them. -/
theorem materializeDue_locked {db : Store} {now : Instant} {ids : Nat → Uuid} :
    materializeDue c db plan now 1 (plan.schedules.map (·.id)) ids = .ok plan := by
  have hnone : ((plan.dueSchedules now).filter fun r =>
      !(plan.schedules.map (·.id)).contains r.id) = [] := by
    refine List.filter_eq_nil_iff.mpr fun r hr => ?_
    have hmem : r.id ∈ plan.schedules.map (·.id) := List.mem_map_of_mem (List.mem_filter.mp hr).1
    simpa using hmem
  unfold materializeDue batch
  rw [hnone]
  rfl

/-! ## Up to the work -/

/-- The state with one more tick. -/
def SchedulerState.joined (s : SchedulerState) (plan : Plan) (t : Tick) : SchedulerState :=
  { sync := s.sync, plan := plan, ticks := s.ticks ++ [t] }

theorem joined_tick : (s.joined plan t).ticks[s.ticks.length]? = some t := by
  simp [SchedulerState.joined]

theorem joined_set {phase : TickPhase} :
    SchedulerState.setTick { s.joined plan t with plan := plan' } s.ticks.length t phase =
      s.joined plan' { t with phase := phase } := by
  simp [SchedulerState.joined, SchedulerState.setTick]

theorem Reaches.gather (h : gather c (s.joined plan t) s.ticks.length t m =
      some (SchedulerState.setTick { s.joined plan t with plan := plan' } s.ticks.length t phase)) :
    Reaches c p (s.joined plan t) (s.joined plan' { t with phase := phase }) := by
  refine .move (i := s.ticks.length) (m := m) ?_
  rw [Scheduler.step, joined_tick]
  show (Connectors.gather c (s.joined plan t) s.ticks.length t m).or _ = _
  rw [h, joined_set]
  rfl

/-- The tick that comes for one occurrence. -/
def tickFor (owner : Uuid) (now : Instant) (phase : TickPhase) : Tick :=
  { owner := owner, now := now, lease := seconds 30, limit := 1, phase := phase }

section
variable {owner : Uuid} {now : Instant} {linked reclaimed claims : List Claim} {locked : List Uuid}

theorem materialize_reaches :
    Reaches c p (s.joined plan (tickFor owner now (.materializing linked reclaimed)))
      (s.joined plan (tickFor owner now (.claiming linked reclaimed))) := by
  refine .gather (m := .materialize (plan.schedules.map (·.id)) fun n => n) ?_
  dsimp only [Connectors.gather, tickFor, SchedulerState.joined]
  rw [materializeDue_locked]

theorem claimDue_reaches
    (h : claimDue s.db plan now owner (seconds 30) 1 locked = (plan', claims)) :
    Reaches c p (s.joined plan (tickFor owner now (.claiming linked reclaimed)))
      (s.joined plan' (tickFor owner now (.next (workOf (linked ++ reclaimed ++ claims))))) := by
  refine .gather (m := .claimDue locked) ?_
  dsimp only [Connectors.gather, tickFor, SchedulerState.joined, SchedulerState.db] at h ⊢
  rw [h]

theorem mem_put (ho : o ∈ plan.occurrences) (hid : o'.id = o.id) :
    o' ∈ (plan.putOccurrence o').occurrences :=
  mem_replace.mpr (.inl ⟨rfl, List.mem_map.mpr ⟨o, ho, hid.symm⟩⟩)

/-- The occurrence is not due, so the tick goes to work on what it has. -/
theorem works (hids : Keyed (·.id) plan.occurrences) (ho : o ∈ plan.occurrences)
    (hdue : o.state ≠ .due) :
    Reaches c p (s.joined plan (tickFor owner now (.materializing linked reclaimed)))
      (s.joined plan (tickFor owner now (.next (workOf (linked ++ reclaimed))))) := by
  have hwork : Reaches c p (s.joined plan (tickFor owner now (.claiming linked reclaimed))) _ :=
    claimDue_reaches (claimDue_skips hids ho hdue)
  rw [List.append_nil] at hwork
  exact materialize_reaches.trans hwork

end

end Connectors

end SecondBrain
