import SecondBrain.Automations.Leases

/-!
# One open occurrence of an automation

No constraint keeps an automation from having two occurrences that are not over. What keeps
it is that the next slot is always later than the slots of the occurrences that were made
for the same schedule (`Slotted`), so that an automation with an open occurrence is not due.

The same rule stops an automation for good where its open occurrence cannot be claimed, and
that is so where the automation was edited before the occurrence was claimed
(`edited_stays_due`).
-/

namespace SecondBrain

open Lib

namespace Automations

variable {zoneInfo : ZoneInfo} {isoformat : Instant → String} {build : Build}
  {s s' : SchedulerState} {db db' : Tables} {clock clock' now : Instant} {t : Tick}
  {o o' p : OccurrenceRow} {a a' : AutomationRow} {point : SchedulePoint} {next : Option Instant}

/-! ## Slots -/

/-- The occurrence was made for an automation, and before its next slot. -/
structure MadeFor (o : OccurrenceRow) (a : AutomationRow) : Prop where
  scheduleRevision : o.scheduleRevision ≤ a.scheduleRevision
  automationRevision : o.automationRevision ≤ a.revision
  before : o.scheduleRevision = a.scheduleRevision →
    ∀ n, a.nextOccurrenceAt = some n → o.scheduledAt < n

/-- What holds of the occurrences at a time. -/
structure Slotted (clock : Instant) (db : Tables) : Prop where
  made : ∀ o ∈ db.occurrences, ∃ a, db.automation? o.automationId = some a ∧ MadeFor o a
  past : ∀ o ∈ db.occurrences, o.scheduledAt ≤ clock
  single : ∀ o ∈ db.occurrences, ∀ p ∈ db.occurrences, o.automationId = p.automationId →
    o.state.isOpen = true → p.state.isOpen = true → o = p

theorem isOpen_iff {state : OccurrenceState} : state.isOpen = true ↔ state.isTerminal = false := by
  rw [OccurrenceState.isOpen, Bool.not_eq_true']

theorem RowMove.madeFor (hmove : RowMove db t o o') (h : MadeFor o a) : MadeFor o' a := by
  obtain ⟨-, hschedule, hrevision, hat⟩ := hmove.automation
  refine ⟨hschedule ▸ h.scheduleRevision, hrevision ▸ h.automationRevision, ?_⟩
  rw [hschedule, hat]
  exact h.before

theorem Slotted.later (hle : clock ≤ clock') (h : Slotted clock db) : Slotted clock' db :=
  ⟨h.made, fun o ho => (h.past o ho).trans hle, h.single⟩

/-- The automations of the occurrences become other ones. -/
theorem Slotted.automations (h : Slotted clock db)
    (hmade : ∀ o ∈ db.occurrences, ∀ a, db.automation? o.automationId = some a → MadeFor o a →
      ∃ a', db'.automation? o.automationId = some a' ∧ MadeFor o a')
    (hsame : db'.occurrences = db.occurrences) : Slotted clock db' := by
  refine ⟨fun o ho => ?_, hsame ▸ h.past, hsame ▸ h.single⟩
  obtain ⟨a, ha, hfor⟩ := h.made o (hsame ▸ ho)
  exact hmade o (hsame ▸ ho) a ha hfor

theorem automation_put (hfound : db.automation? a.id = some a) (hid : a'.id = a.id)
    (hautomations : db'.automations = replace (·.id) a' db.automations) :
    db'.automation? a.id = some a' := by
  have hmem : a.id ∈ db.automations.map (fun a => a.toAutomation.id) :=
    lookup_isSome.mp (Option.isSome_iff_exists.mpr ⟨a, hfound⟩)
  rw [Tables.automation?, hautomations, ← hid]
  exact lookup_replace_self (hid ▸ hmem)

/-- An automation is written anew. -/
theorem put_madeFor (hfound : db.automation? a.id = some a) (hid : a'.id = a.id)
    (hautomations : db'.automations = replace (·.id) a' db.automations)
    (hstep : o.automationId = a.id → MadeFor o a → MadeFor o a') {b : AutomationRow}
    (hb : db.automation? o.automationId = some b) (hfor : MadeFor o b) :
    ∃ b', db'.automation? o.automationId = some b' ∧ MadeFor o b' := by
  by_cases hsame : o.automationId = a.id
  · have hab : b = a := Option.some.inj (hb.symm.trans (hsame ▸ hfound))
    refine ⟨a', ?_, hstep hsame (hab ▸ hfor)⟩
    rw [hsame]
    exact automation_put hfound hid hautomations
  · refine ⟨b, ?_, hfor⟩
    rw [Tables.automation?, hautomations]
    refine (lookup_replace_ne ?_).trans hb
    exact fun h => hsame (h.trans hid)

theorem Slotted.edited (hedited : Edited db clock db') (h : Slotted clock db) :
    Slotted clock db' := by
  cases hedited with
  | created _ _ _ =>
      refine h.automations (fun o _ a ha hfor => ⟨a, ?_, hfor⟩) ?_
      · exact lookup_append_of_some ha _
      · rfl
  | @written a a' hwritten =>
      refine h.automations (fun o ho b hb hfor => ?_) ?_
      case refine_2 => rfl
      refine put_madeFor hwritten.found hwritten.id rfl (fun _ hfor => ?_) hb hfor
      refine ⟨hfor.scheduleRevision.trans hwritten.scheduleRevision, ?_, fun hsame n hn => ?_⟩
      · rw [hwritten.revision]
        exact hfor.automationRevision.trans (Nat.le_succ _)
      · rcases hwritten.next with hnone | ⟨t, ht, hlater⟩ | ⟨hnext, hschedule⟩
        · rw [hnone] at hn
          cases hn
        · rw [ht] at hn
          exact (h.past o ho).trans_lt (Option.some.inj hn ▸ hlater)
        · exact hfor.before (hsame.trans hschedule) n (hnext ▸ hn)

theorem Slotted.turned {ids : List Uuid} (hids : Keyed (·.id) db.occurrences)
    (hturns : Turns (fun o o' => o' = o ∨ RowMove db t o o') ids db db')
    (hautomations : db'.automations = db.automations) (h : Slotted clock db) :
    Slotted clock db' := by
  have hfrom : ∀ o' ∈ db'.occurrences, ∃ o ∈ db.occurrences, o'.id = o.id ∧
      (o' = o ∨ RowMove db t o o') := by
    intro o' ho'
    obtain ⟨o, ho, hid, hmove⟩ := hturns.mem ho'
    exact ⟨o, ho, hid, or_self_left.mp hmove⟩
  refine ⟨fun o' ho' => ?_, fun o' ho' => ?_, fun o' ho' p' hp' hsame hopen hopen' => ?_⟩
  · obtain ⟨o, ho, -, hmove⟩ := hfrom o' ho'
    obtain ⟨a, ha, hfor⟩ := h.made o ho
    rw [Tables.automation?, hautomations]
    rcases hmove with rfl | hmove
    · exact ⟨a, ha, hfor⟩
    · rw [hmove.automation.1]
      exact ⟨a, ha, hmove.madeFor hfor⟩
  · obtain ⟨o, ho, -, rfl | hmove⟩ := hfrom o' ho'
    · exact h.past _ ho
    · rw [hmove.automation.2.2.2]
      exact h.past o ho
  · have hback : ∀ {o o' : OccurrenceRow}, o' = o ∨ RowMove db t o o' →
        o'.state.isOpen = true → o.state.isOpen = true ∧ o'.automationId = o.automationId := by
      intro o o' hmove hopen
      rcases hmove with rfl | hmove
      · exact ⟨hopen, rfl⟩
      · exact ⟨isOpen_iff.mpr hmove.open_, hmove.automation.1⟩
    obtain ⟨o, ho, hid, hmove⟩ := hfrom o' ho'
    obtain ⟨p, hp, hid', hmove'⟩ := hfrom p' hp'
    obtain ⟨hwas, hof⟩ := hback hmove hopen
    obtain ⟨hwas', hof'⟩ := hback hmove' hopen'
    obtain rfl := h.single o ho p hp (hof.symm.trans (hsame.trans hof')) hwas hwas'
    exact (hturns.keyed hids).inj ho' hp' (hid.trans hid'.symm)

/-! ## Rounds -/

/-- The open occurrences of an automation keep it from being due. -/
theorem Slotted.over_of_due (h : Slotted clock db) (hfound : db.automation? a.id = some a)
    (hdue : db.isDue now a = true) : ∀ o ∈ db.occurrences, o.automationId = a.id →
      o.state.isOpen = false := by
  intro o ho hof
  obtain ⟨b, hb, hfor⟩ := h.made o ho
  rw [hof, hfound] at hb
  obtain rfl := Option.some.inj hb
  have hblocks := (isDue_iff.mp hdue).2.2 o ho
  by_contra hopen
  rw [Bool.not_eq_false] at hopen
  simp only [blocks, hof, beq_self_eq_true, hopen, Bool.true_and, Bool.not_eq_false',
    Bool.and_eq_true, beq_iff_eq] at hblocks
  exact absurd (hfor.before hblocks.1 _ hblocks.2) (lt_irrefl _)

/-- What a round makes of the slots before its next one. -/
theorem Round.madeFor (hround : Round isoformat now db a point next db') (hfor : MadeFor o a) :
    MadeFor o { a with nextOccurrenceAt := next } := by
  refine ⟨hfor.scheduleRevision, hfor.automationRevision, fun hsame n hn => ?_⟩
  obtain ⟨stored, hstored, hle⟩ := hround.stored
  calc o.scheduledAt < stored := hfor.before hsame stored hstored
    _ ≤ point.utcInstant := hle
    _ ≤ now := hround.le
    _ < n := hround.later n hn

theorem Slotted.round (hnow : now ≤ clock) (hround : Round isoformat now db a point next db')
    (h : Slotted clock db) : Slotted clock db' := by
  have hmade : ∀ o ∈ db.occurrences, ∃ b, db'.automation? o.automationId = some b ∧ MadeFor o b := by
    intro o ho
    obtain ⟨b, hb, hfor⟩ := h.made o ho
    refine put_madeFor hround.found ?_ hround.automations (fun _ => hround.madeFor) hb hfor
    rfl
  rcases hround.occurrences with ⟨hsame, -⟩ | ⟨state, disposition, id, hstate, haccepts, hadded⟩
  · exact ⟨fun o ho => hmade o (hsame ▸ ho), hsame ▸ h.past, hsame ▸ h.single⟩
  have hover := h.over_of_due hround.found hround.due
  refine ⟨fun o ho => ?_, fun o ho => ?_, fun o ho p hp hsame hopen hopen' => ?_⟩
  · rw [hadded] at ho
    rcases List.mem_append.mp ho with ho | ho
    · exact hmade o ho
    · obtain rfl := List.mem_singleton.mp ho
      refine ⟨{ a with nextOccurrenceAt := next }, ?_, Nat.le_refl _, Nat.le_refl _,
        fun _ n hn => hround.le.trans_lt (hround.later n hn)⟩
      refine automation_put hround.found ?_ hround.automations
      rfl
  · rw [hadded] at ho
    rcases List.mem_append.mp ho with ho | ho
    · exact h.past o ho
    · obtain rfl := List.mem_singleton.mp ho
      exact hround.le.trans hnow
  · rw [hadded] at ho hp
    rcases List.mem_append.mp ho with ho | ho
    · rcases List.mem_append.mp hp with hp | hp
      · exact h.single o ho p hp hsame hopen hopen'
      · obtain rfl := List.mem_singleton.mp hp
        rw [hover o ho hsame] at hopen
        cases hopen
    · obtain rfl := List.mem_singleton.mp ho
      rcases List.mem_append.mp hp with hp | hp
      · rw [hover p hp hsame.symm] at hopen'
        cases hopen'
      · exact (List.mem_singleton.mp hp).symm

theorem Slotted.change (hrows : KeyedRows db) (h : Slotted clock db)
    (hchange : Change isoformat build clock db db') : Slotted clock db' := by
  have hids := hrows.occurrences
  cases hchange with
  | projectAdded => exact ⟨h.made, h.past, h.single⟩
  | edited hedited => exact h.edited hedited
  | created _ => exact ⟨h.made, h.past, h.single⟩
  | ran _ _ => exact ⟨h.made, h.past, h.single⟩
  | turned _ _ hturns hframed => exact h.turned hids hturns hframed.automations
  | claimed _ _ _ htakes => exact h.turned hids htakes.moves htakes.framed.automations
  | linked _ hphase hlinks => exact h.turned hids (hlinks.moves hids hphase) (by rw [hlinks.store])
  | round hnow hround => exact h.round hnow hround

theorem slotted (h : (Scheduler.machine zoneInfo isoformat build).Reachable s) :
    Slotted s.clock s.db := by
  refine tables_invariant (I := Slotted) ?_ (fun _ _ _ hle h => h.later hle)
    (fun _ _ _ hrows h hchange => h.change hrows hchange) h
  refine ⟨fun o ho => ?_, fun o ho => ?_, fun o ho => ?_⟩ <;> cases ho

/-! ## Catching up -/

/-- How many occurrences the automation has. -/
def Tables.madeCount (db : Tables) (x : Uuid) : Nat :=
  db.occurrences.countP (·.automationId == x)

/-- The next slot of the automation is later than the time, if there is one. -/
def Waits (now : Instant) (db : Tables) (x : Uuid) : Prop :=
  ∃ a, db.automation? x = some a ∧ ∀ n, a.nextOccurrenceAt = some n → now < n

theorem madeCount_eq {x : Uuid}
    (h : db'.occurrences.map (·.automationId) = db.occurrences.map (·.automationId)) :
    db'.madeCount x = db.madeCount x := by
  have hmap : ∀ rows : List OccurrenceRow, rows.countP (·.automationId == x) =
      (rows.map (·.automationId)).countP (· == x) := by
    intro rows
    rw [List.countP_map]
    rfl
  rw [Tables.madeCount, Tables.madeCount, hmap, hmap, h]

/-- A round leaves the other automations. -/
theorem Round.others_count {x : Uuid} (hround : Round isoformat now db a point next db')
    (hne : x ≠ a.id) :
    db'.madeCount x = db.madeCount x ∧ db'.automation? x = db.automation? x := by
  refine ⟨?_, ?_⟩
  · rcases hround.occurrences with ⟨hsame, -⟩ | ⟨state, disposition, id, -, -, hadded⟩
    · rw [Tables.madeCount, hsame]
      rfl
    · rw [Tables.madeCount, hadded, List.countP_append, List.countP_singleton, if_neg]
      · rfl
      · exact fun heq => hne (beq_iff_eq.mp heq).symm
  · rw [Tables.automation?, hround.automations]
    exact lookup_replace_ne hne

theorem Round.own_count (hround : Round isoformat now db a point next db') :
    (db'.madeCount a.id = db.madeCount a.id ∨ db'.madeCount a.id = db.madeCount a.id + 1) ∧
      Waits now db' a.id := by
  refine ⟨?_, { a with nextOccurrenceAt := next }, ?_, hround.later⟩
  · rcases hround.occurrences with ⟨hsame, -⟩ | ⟨state, disposition, id, -, -, hadded⟩
    · exact .inl (by rw [Tables.madeCount, hsame]; rfl)
    · refine .inr ?_
      rw [Tables.madeCount, hadded, List.countP_append, List.countP_singleton, if_pos]
      · rfl
      · exact beq_iff_eq.mpr rfl
  · refine automation_put hround.found ?_ hround.automations
    rfl

/-- An automation that waits is in no round. -/
theorem Materialized.waits {x : Uuid} (h : Materialized isoformat now db db')
    (hwaits : Waits now db x) : db'.madeCount x = db.madeCount x ∧ Waits now db' x := by
  induction h with
  | done => exact ⟨rfl, hwaits⟩
  | @round db d _ a _ _ hround _ ih =>
      obtain ⟨b, hb, hlater⟩ := hwaits
      have hne : x ≠ a.id := by
        rintro rfl
        obtain ⟨-, ⟨t, ht, hle⟩, -⟩ := isDue_iff.mp hround.due
        obtain rfl := Option.some.inj (hround.found.symm.trans hb)
        exact absurd (hlater t ht) (not_lt.mpr hle)
      obtain ⟨hcount, hsame⟩ := hround.others_count hne
      obtain ⟨hcount', hwaits'⟩ := ih ⟨b, hsame.trans hb, hlater⟩
      exact ⟨hcount'.trans hcount, hwaits'⟩

/-- However long the automations have been due, each of them gets one occurrence at most. -/
theorem Materialized.once (hnow : now ≤ clock) (h : Materialized isoformat now db db')
    (hslots : Slotted clock db) (x : Uuid) : db'.madeCount x = db.madeCount x ∨
      db'.madeCount x = db.madeCount x + 1 ∧
        (∀ o ∈ db.occurrences, o.automationId = x → o.state.isOpen = false) ∧ Waits now db' x := by
  induction h with
  | done => exact .inl rfl
  | @round db d _ a _ _ hround hrest ih =>
      by_cases hsame : x = a.id
      · subst hsame
        obtain ⟨hcount, hwaits⟩ := hround.own_count
        obtain ⟨hcount', hwaits'⟩ := hrest.waits hwaits
        rcases hcount with hcount | hcount
        · exact .inl (hcount'.trans hcount)
        · exact .inr ⟨hcount'.trans hcount, hslots.over_of_due hround.found hround.due, hwaits'⟩
      · obtain ⟨hcount, -⟩ := hround.others_count hsame
        rcases ih (hslots.round hnow hround) with hcount' | ⟨hcount', hover, hwaits⟩
        · exact .inl (hcount'.trans hcount)
        · refine .inr ⟨hcount'.trans (congrArg (· + 1) hcount), fun o ho => hover o ?_, hwaits⟩
          rcases hround.occurrences with ⟨hsame, -⟩ | ⟨state, disposition, id, -, -, hadded⟩
          · exact hsame ▸ ho
          · rw [hadded]
            exact List.mem_append_left _ ho

theorem TickStep.once {phase : TickPhase} (hnow : t.now ≤ clock)
    (hids : Keyed (·.id) db.occurrences) (h : TickStep isoformat build db t phase db')
    (hslots : Slotted clock db) (x : Uuid) : db'.madeCount x = db.madeCount x ∨
      db'.madeCount x = db.madeCount x + 1 ∧
        (∀ o ∈ db.occurrences, o.automationId = x → o.state.isOpen = false) ∧
          Waits t.now db' x := by
  have hturned : ∀ {ids}, Turns (fun o o' => o' = o ∨ RowMove db t o o') ids db db' →
      db'.madeCount x = db.madeCount x := by
    intro ids hturns
    refine madeCount_eq (hturns.map_eq fun o _ o' hmove => ?_)
    rcases hmove with rfl | hmove
    · rfl
    · exact hmove.automation.1
  cases h with
  | rested _ => exact .inl rfl
  | reconciled _ hturns _ => exact .inl (hturned hturns)
  | reclaimed _ htakes => exact .inl (hturned htakes.moves)
  | materialized _ hrounds => exact hrounds.once hnow hslots x
  | claimed _ _ htakes => exact .inl (hturned htakes.moves)
  | linked hphase _ hlinks => exact .inl (hturned (hlinks.moves hids hphase))
  | handled _ _ hturns _ => exact .inl (hturned (hturns.mono fun _ _ _ hmove => .inr hmove))

theorem SchedulerStep.once (hs : Orderly s) (hslots : Slotted s.clock s.db)
    (h : SchedulerStep isoformat build s s') (x : Uuid) : s'.db.madeCount x = s.db.madeCount x ∨
      s'.db.madeCount x = s.db.madeCount x + 1 ∧
        (∀ o ∈ s.db.occurrences, o.automationId = x → o.state.isOpen = false) ∧
          ∃ t ∈ s.ticks, Waits t.now s'.db x := by
  cases h with
  | edited hedited =>
      cases hedited with
      | created _ _ _ => exact .inl rfl
      | written _ => exact .inl rfl
  | moved ht hmove =>
      have htick := List.mem_of_getElem? ht
      rcases hmove.once (hs.times _ htick) hs.rows.occurrences hslots x with
        hcount | ⟨hcount, hover, hwaits⟩
      · exact .inl hcount
      · exact .inr ⟨hcount, hover, _, htick, hwaits⟩
  | _ => exact .inl rfl

/-- The revision of an automation never falls. -/
theorem Change.automation_later {x : Uuid} (h : Change isoformat build clock db db')
    (ha : db.automation? x = some a) :
    ∃ a', db'.automation? x = some a' ∧ a.revision ≤ a'.revision := by
  have hput : ∀ {b b' : AutomationRow}, db.automation? b.id = some b → b'.id = b.id →
      b.revision ≤ b'.revision → db'.automations = replace (·.id) b' db.automations →
      ∃ a', db'.automation? x = some a' ∧ a.revision ≤ a'.revision := by
    intro b b' hfound hid hle hautomations
    by_cases hsame : x = b.id
    · subst hsame
      obtain rfl := Option.some.inj (hfound.symm.trans ha)
      exact ⟨b', automation_put hfound hid hautomations, hle⟩
    · refine ⟨a, ?_, Nat.le_refl _⟩
      rw [Tables.automation?, hautomations]
      refine (lookup_replace_ne ?_).trans ha
      exact fun h => hsame (h.trans hid)
  have hleft : db'.automations = db.automations →
      ∃ a', db'.automation? x = some a' ∧ a.revision ≤ a'.revision := by
    intro hsame
    refine ⟨a, ?_, Nat.le_refl _⟩
    rw [Tables.automation?, hsame]
    exact ha
  cases h with
  | projectAdded => exact hleft rfl
  | edited hedited =>
      cases hedited with
      | created _ _ _ => exact ⟨a, lookup_append_of_some ha _, Nat.le_refl _⟩
      | written hwritten =>
          exact hput hwritten.found hwritten.id (hwritten.revision ▸ Nat.le_succ _) rfl
  | created _ => exact hleft rfl
  | ran _ _ => exact hleft rfl
  | turned _ _ _ hframed => exact hleft hframed.automations
  | claimed _ _ _ htakes => exact hleft htakes.framed.automations
  | linked _ _ hlinks => exact hleft (by rw [hlinks.store])
  | round _ hround =>
      refine hput hround.found ?_ ?_ hround.automations
      · rfl
      · exact Nat.le_refl _

/-- The occurrence is due, its automation has been edited since it was made, and no tick
works on it. -/
structure Stuck (o : OccurrenceRow) (s : SchedulerState) : Prop where
  found : s.db.occurrence? o.id = some o
  due : o.state = .due
  edited : ∃ a, s.db.automation? o.automationId = some a ∧ o.automationRevision < a.revision
  free : ∀ t ∈ s.ticks, ∀ claim ∈ t.phase.claims, claim.occurrenceId ≠ o.id

/-- A claimable occurrence is of its automation as it is. -/
theorem isClaimable_current (h : db.isClaimable now o = true) :
    ∃ a, db.automation? o.automationId = some a ∧ a.revision = o.automationRevision := by
  unfold Tables.isClaimable OccurrenceRow.current at h
  simp only [Bool.and_eq_true, Option.any_eq_true, beq_iff_eq] at h
  obtain ⟨-, a, ha, ⟨-, hrevision⟩, -⟩ := h
  exact ⟨a, ha, hrevision⟩

theorem Stuck.not_moved (h : Stuck o s) (ht : t ∈ s.ticks) : ¬ RowMove s.db t o o' := by
  have hdue := h.due
  have hnot : o.isLinked = true → False := by
    intro hlinked
    have hactive := (isLinked_iff.mp hlinked).2
    rw [hdue] at hactive
    cases hactive
  intro hmove
  cases hmove with
  | runMissing _ hlinked _ => exact hnot hlinked
  | runEnded _ hlinked _ _ => exact hnot hlinked
  | runCreated _ hlinked _ => exact hnot hlinked
  | reclaimed _ hexpired _ =>
      rw [isExpired_claimed hexpired] at hdue
      cases hdue
  | claimed _ hclaimable =>
      obtain ⟨a, ha, hrevision⟩ := isClaimable_current hclaimable
      obtain ⟨b, hb, hlt⟩ := h.edited
      obtain rfl := Option.some.inj (ha.symm.trans hb)
      exact absurd hrevision hlt.ne'
  | linked _ hholds _ _ _ _ =>
      rw [(holds_iff.mp hholds).2.1] at hdue
      cases hdue
  | deferred _ _ hclaimed _ =>
      rw [hclaimed] at hdue
      cases hdue
  | exhausted _ _ hclaimed _ =>
      rw [hclaimed] at hdue
      cases hdue
  | failed hphase hid _ _ =>
      refine h.free t ht _ ?_ hid.symm
      rw [hphase]
      exact List.mem_cons_self

theorem Stuck.step (hs : Orderly s) (hslots : Slotted s.clock s.db) (h : Stuck o s)
    (hstep : SchedulerStep isoformat build s s') :
    Stuck o s' ∧ s'.db.madeCount o.automationId = s.db.madeCount o.automationId := by
  have hopen : o.state.isOpen = true := by rw [h.due]; rfl
  have hcount : s'.db.madeCount o.automationId = s.db.madeCount o.automationId := by
    rcases hstep.once hs hslots o.automationId with hsame | ⟨-, hover, -⟩
    · exact hsame
    · rw [hover o (lookup_mem h.found).1 rfl] at hopen
      cases hopen
  have hedited : ∃ a, s'.db.automation? o.automationId = some a ∧
      o.automationRevision < a.revision := by
    obtain ⟨a, ha, hlt⟩ := h.edited
    have hlater : ∀ {d}, Changes isoformat build s.clock s.db d →
        ∃ a', d.automation? o.automationId = some a' ∧ a.revision ≤ a'.revision := by
      intro d hchanges
      induction hchanges with
      | refl => exact ⟨a, ha, Nat.le_refl _⟩
      | tail _ hlast ih =>
          obtain ⟨a', ha', hle⟩ := ih
          obtain ⟨a'', ha'', hle'⟩ := hlast.automation_later ha'
          exact ⟨a'', ha'', hle.trans hle'⟩
    obtain ⟨a', ha', hle⟩ := hlater (hstep.changes hs.times).1
    exact ⟨a', ha', hlt.trans_le hle⟩
  refine ⟨?_, hcount⟩
  have hleft : s'.db.occurrences = s.db.occurrences → s'.ticks = s.ticks → Stuck o s' := by
    intro hsame hticks
    refine ⟨?_, h.due, hedited, hticks ▸ h.free⟩
    rw [Tables.occurrence?, hsame]
    exact h.found
  cases hstep with
  | passed _ => exact hleft rfl rfl
  | projectAdded => exact hleft rfl rfl
  | edited hwritten =>
      cases hwritten with
      | created _ _ _ => exact hleft rfl rfl
      | written _ => exact hleft rfl rfl
  | created _ => exact hleft rfl rfl
  | ran _ _ => exact hleft rfl rfl
  | joined _ hphase _ =>
      refine ⟨h.found, h.due, hedited, fun t ht claim hclaim => ?_⟩
      rcases List.mem_append.mp ht with ht | ht
      · exact h.free t ht claim hclaim
      · rw [List.mem_singleton.mp ht, hphase] at hclaim
        cases hclaim
  | @moved i t phase d ht hmove =>
      have htick := List.mem_of_getElem? ht
      have hids := hs.rows.occurrences
      obtain ⟨o', ho', rfl | hrow⟩ := hmove.occurrence_later hids h.found
      · refine ⟨ho', h.due, hedited, fun u hu claim hclaim hid => ?_⟩
        rcases List.mem_or_eq_of_mem_set hu with hu | rfl
        · exact h.free u hu claim hclaim hid
        rcases hmove.claims_from hids hclaim with hold | ⟨-, p, -, hp, -, -, -, hclaimed, -⟩
        · exact h.free t htick claim hold hid
        · rw [hid, ho'] at hp
          rw [← Option.some.inj hp, h.due] at hclaimed
          cases hclaimed
      · exact (h.not_moved htick hrow).elim

/-- An occurrence that is due when its automation is edited, and on which no tick works, is
due for good, and nothing more is made of the automation. -/
theorem edited_stays_due (hs : (Scheduler.machine zoneInfo isoformat build).Reachable s)
    (hfound : s.db.occurrence? o.id = some o) (hdue : o.state = .due)
    (ha : s.db.automation? o.automationId = some a) (hedited : o.automationRevision ≠ a.revision)
    (hfree : ∀ t ∈ s.ticks, ∀ claim ∈ t.phase.claims, claim.occurrenceId ≠ o.id) :
    ∀ s', ((Scheduler.machine zoneInfo isoformat build).startingAt s).Reachable s' →
      s'.db.occurrence? o.id = some o ∧
      (∀ t ∈ s'.ticks, ∀ claim ∈ t.phase.claims, claim.occurrenceId ≠ o.id) ∧
      s'.db.madeCount o.automationId = s.db.madeCount o.automationId := by
  intro s' h'
  have hstuck : Stuck o s := by
    obtain ⟨b, hb, hfor⟩ := (slotted hs).made o (lookup_mem hfound).1
    obtain rfl := Option.some.inj (ha.symm.trans hb)
    exact ⟨hfound, hdue, ⟨a, ha, lt_of_le_of_ne hfor.automationRevision hedited⟩, hfree⟩
  have hlater : Stuck o s' ∧ s'.db.madeCount o.automationId = s.db.madeCount o.automationId := by
    refine h'.invariant (I := fun s' => Stuck o s' ∧
      s'.db.madeCount o.automationId = s.db.madeCount o.automationId) ?_ ?_
    · rintro u rfl
      exact ⟨hstuck, rfl⟩
    · intro u l u' hr _ hu hnext
      have hru := hs.append hr.reachable
      have hou := orderly hru
      obtain ⟨hstuck', hcount⟩ := hu.1.step hou (slotted hru) (step_cases hou.rows hnext)
      exact ⟨hstuck', hcount.trans hu.2⟩
  exact ⟨hlater.1.found, hlater.1.free, hlater.2⟩

def sampleRenamed (s : SchedulerState) : Bool :=
  (s.db.occurrence? 20).any (fun o =>
      decide (o.state = .due ∧ o.automationId = 1 ∧ o.automationRevision = 1)) &&
    (s.db.automation? 1).any (fun a =>
      decide (a.label = "Morning" ∧ a.lifecycle = .enabled ∧ a.revision = 2)) &&
    decide (s.db.madeCount 1 = 1) && s.ticks.all fun t => t.phase.claims.isEmpty

/-- The brief gets another label after its occurrence is made, and before it is claimed. -/
theorem edited_stays_due_renamed : ∃ s o a, sampleScheduler.Reachable s ∧
    s.db.occurrence? 20 = some o ∧ s.db.automation? 1 = some a ∧ a.label = "Morning" ∧
    a.lifecycle = .enabled ∧ ∀ s', (sampleScheduler.startingAt s).Reachable s' →
      s'.db.occurrence? 20 = some o ∧ s'.db.madeCount 1 = 1 := by
  obtain ⟨s, hs, hrenamed⟩ := sampleScheduler.exists_reachable_of_exec
    (sampleBriefDue ++ (sampleClaims 0 9 20).take 4 ++
      [.crash 0, .edit (.update 1 { expectedRevision := 1, label := some "Morning" })])
    sampleRenamed (s := {}) rfl (by decide +kernel)
  simp only [sampleRenamed, Bool.and_eq_true, Option.any_eq_true, decide_eq_true_eq,
    List.all_eq_true, List.isEmpty_iff] at hrenamed
  obtain ⟨⟨⟨⟨o, ho, hdue, hof, hrevision⟩, a, ha, hlabel, henabled, hrevision'⟩, hcount⟩, hfree⟩ :=
    hrenamed
  have hid := (lookup_mem ho).2
  refine ⟨s, o, a, hs, ho, ha, hlabel, henabled, fun s' h' => ?_⟩
  obtain ⟨hfound, -, hsame⟩ := edited_stays_due (o := o) (a := a) hs (by rw [hid]; exact ho) hdue
    (by rw [hof]; exact ha) (by rw [hrevision, hrevision']; decide)
    (fun t ht claim hclaim => by rw [hfree t ht] at hclaim; cases hclaim) s' h'
  rw [hof] at hsame
  rw [hid] at hfound
  exact ⟨hfound, hsame.trans hcount⟩

end Automations

end SecondBrain
