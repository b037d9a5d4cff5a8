import SecondBrain.Automations.Scheduler
import SecondBrain.Lib.Turned

/-!
# What a transaction of the scheduler does

Each transaction of a tick writes some occurrences, each of them once, and all that can be
made of one is said here (`RowMove`). The notifications only grow, and no two have one key.
A tick that makes occurrences writes their automations too, and one that links a run adds
the run.
-/

namespace SecondBrain

open Lib

namespace Automations

variable {zoneInfo : ZoneInfo} {isoformat : Instant → String} {build : Build}
  {db db' db'' : Tables} {t t' : Tick} {o o' : OccurrenceRow} {a : AutomationRow} {now : Instant}

/-! ## Notifications -/

/-- What holds of the notifications. -/
structure Notices (rows : List Notification) : Prop where
  ids : Keyed (·.id) rows
  keys : Keyed (·.deduplicationKey) rows
  form : ∀ n ∈ rows, n.deduplicationKey = noticeKey n.occurrenceId n.eventKind

/-- Notifications are added. -/
structure NoticesGrow (rows rows' : List Notification) : Prop where
  added : ∃ new, rows' = rows ++ new
  sound : Notices rows → Notices rows'

theorem NoticesGrow.refl (rows : List Notification) : NoticesGrow rows rows :=
  ⟨⟨[], (List.append_nil _).symm⟩, fun h => h⟩

theorem NoticesGrow.trans {rows rows' rows'' : List Notification} (h : NoticesGrow rows rows')
    (h' : NoticesGrow rows' rows'') : NoticesGrow rows rows'' := by
  obtain ⟨new, hnew⟩ := h.added
  obtain ⟨new', hnew'⟩ := h'.added
  exact ⟨⟨new ++ new', by rw [hnew', hnew, List.append_assoc]⟩, fun hs => h'.sound (h.sound hs)⟩

theorem notify_grows {eventKind severity : String} {id : Uuid} :
    NoticesGrow db.notifications (db.notify o eventKind severity now id).notifications := by
  unfold Tables.notify
  dsimp only
  split
  · exact .refl _
  next hfree =>
  simp only [Bool.not_eq_true, List.any_eq_false, Bool.or_eq_true, beq_iff_eq, not_or] at hfree
  refine ⟨⟨_, rfl⟩, fun h => ⟨h.ids.append fun hmem => ?_, h.keys.append fun hmem => ?_,
    fun n hn => ?_⟩⟩
  · obtain ⟨n, hn, hid⟩ := List.mem_map.mp hmem
    exact (hfree n hn).1 hid
  · obtain ⟨n, hn, hkey⟩ := List.mem_map.mp hmem
    exact (hfree n hn).2 hkey
  · rcases List.mem_append.mp hn with hn | hn
    · exact h.form n hn
    · obtain rfl := List.mem_singleton.mp hn
      rfl

/-- What a notification says of the state of its occurrence. -/
def Truth (eventKind : String) (state : OccurrenceState) : Prop :=
  eventKind = "capacity_delayed" ∨ eventKind = "occurrence_missed" ∧ state = .missed ∨
    eventKind = "run_completed" ∧ state = .completed ∨
    (eventKind = "occurrence_failed" ∨ eventKind = "retry_exhausted") ∧ state = .failed

/-- What is told of an occurrence that is not over. -/
theorem Truth.of_open {eventKind : String} {state : OccurrenceState}
    (hopen : state.isTerminal = false) (h : Truth eventKind state) :
    eventKind = "capacity_delayed" := by
  rcases h with hkind | ⟨-, hstate⟩ | ⟨-, hstate⟩ | ⟨-, hstate⟩
  · exact hkind
  all_goals
    rw [hstate] at hopen
    cases hopen

/-- Every notification is true of its occurrence. -/
structure Truthful (db : Tables) : Prop where
  ids : Keyed (·.id) db.occurrences
  told : ∀ n ∈ db.notifications, ∃ o, db.occurrence? n.occurrenceId = some o ∧
    o.automationId = n.automationId ∧ Truth n.eventKind o.state

/-- An occurrence that is not over is written. -/
theorem Truthful.put (h : Truthful db) (ho : o ∈ db.occurrences) (hid : o'.id = o.id)
    (hof : o'.automationId = o.automationId) (hopen : o.state.isTerminal = false)
    (hoccurrences : db'.occurrences = replace (·.id) o' db.occurrences)
    (hnotifications : db'.notifications = db.notifications) : Truthful db' := by
  refine ⟨hoccurrences ▸ h.ids.replace, fun n hn => ?_⟩
  obtain ⟨p, hp, hsame, htruth⟩ := h.told n (hnotifications ▸ hn)
  rw [Tables.occurrence?, hoccurrences]
  by_cases hown : p.id = o.id
  · obtain rfl := h.ids.inj (lookup_mem hp).1 ho hown
    have hfound : n.occurrenceId = o'.id := (lookup_mem hp).2.symm.trans hid.symm
    have hmem : o'.id ∈ db.occurrences.map (·.id) := by
      rw [hid]
      exact List.mem_map_of_mem ho
    refine ⟨o', ?_, hof.trans hsame, .inl (htruth.of_open hopen)⟩
    rw [hfound]
    exact lookup_replace_self hmem
  · refine ⟨p, (lookup_replace_ne ?_).trans hp, hsame, htruth⟩
    exact fun heq => hown ((lookup_mem hp).2.trans (heq.trans hid))

theorem Truthful.notify {eventKind severity : String} {id : Uuid} (h : Truthful db)
    (ho : db.occurrence? o.id = some o') (hof : o'.automationId = o.automationId)
    (htruth : Truth eventKind o'.state) : Truthful (db.notify o eventKind severity now id) := by
  unfold Tables.notify
  dsimp only
  split
  · exact h
  · refine ⟨h.ids, fun n hn => ?_⟩
    rcases List.mem_append.mp hn with hn | hn
    · exact h.told n hn
    · obtain rfl := List.mem_singleton.mp hn
      exact ⟨o', ho, hof, htruth⟩

/-- What a transaction that writes occurrences leaves. -/
structure Framed (db db' : Tables) : Prop where
  projects : db'.projects = db.projects
  automations : db'.automations = db.automations
  runs : db'.runs = db.runs
  notifications : NoticesGrow db.notifications db'.notifications
  truthful : Truthful db → Truthful db'

theorem Framed.refl (db : Tables) : Framed db db := ⟨rfl, rfl, rfl, .refl _, fun h => h⟩

theorem Framed.trans (h : Framed db db') (h' : Framed db' db'') : Framed db db'' :=
  ⟨h'.projects.trans h.projects, h'.automations.trans h.automations, h'.runs.trans h.runs,
    h.notifications.trans h'.notifications, fun hs => h'.truthful (h.truthful hs)⟩

/-- A notification changes nothing else. -/
theorem notify_kept (db : Tables) (o : OccurrenceRow) (eventKind severity : String)
    (now : Instant) (id : Uuid) :
    (db.notify o eventKind severity now id).projects = db.projects ∧
      (db.notify o eventKind severity now id).automations = db.automations ∧
      (db.notify o eventKind severity now id).runs = db.runs ∧
      (db.notify o eventKind severity now id).occurrences = db.occurrences := by
  refine ⟨?_, ?_, ?_, ?_⟩ <;> unfold Tables.notify <;> dsimp only <;> split <;> rfl

/-! ## Occurrences -/

theorem putOccurrence_some (h : flushed (db.putOccurrence o) = .ok db') :
    o.admitted = true ∧ db.sharesRun o = false ∧
      db' = { db with occurrences := replace (·.id) o db.occurrences } := by
  unfold Tables.putOccurrence at h
  split at h
  · next hput =>
      rw [Bool.and_eq_true, Bool.not_eq_true'] at hput
      exact ⟨hput.1, hput.2, (Except.ok.inj h).symm⟩
  · cases h

/-- The occurrences with these identifiers go one step. -/
abbrev Turns (R : OccurrenceRow → OccurrenceRow → Prop) (ids : List Uuid) (db db' : Tables) : Prop :=
  Turned (·.id) R ids db.occurrences db'.occurrences

/-- The occurrence is the same one, and it was not over. -/
structure Writes (o o' : OccurrenceRow) : Prop where
  id : o'.id = o.id
  automation : o'.automationId = o.automationId
  open_ : o.state.isTerminal = false

/-- One occurrence is written, and it may be told. -/
theorem put_turns {R : OccurrenceRow → OccurrenceRow → Prop} (hids : Keyed (·.id) db.occurrences)
    (ho : o ∈ db.occurrences) (h : flushed (db.putOccurrence o') = .ok db') (hwrites : Writes o o')
    (hR : o'.admitted = true → R o o') : Turns R [o.id] db db' ∧ Framed db db' := by
  obtain ⟨hadmitted, -, rfl⟩ := putOccurrence_some h
  refine ⟨Turned.replace hids ho hwrites.id (hR hadmitted), ⟨rfl, rfl, rfl, .refl _, fun hs => ?_⟩⟩
  refine hs.put ho hwrites.id hwrites.automation hwrites.open_ ?_ ?_
  · rfl
  · rfl

theorem put_notify_turns {R : OccurrenceRow → OccurrenceRow → Prop}
    {eventKind severity : String} {id : Uuid} (hids : Keyed (·.id) db.occurrences)
    (ho : o ∈ db.occurrences) (h : flushed (db.putOccurrence o') = .ok db') (hwrites : Writes o o')
    (htruth : Truth eventKind o'.state) (hR : o'.admitted = true → R o o') :
    Turns R [o.id] db (db'.notify o eventKind severity now id) ∧
      Framed db (db'.notify o eventKind severity now id) := by
  obtain ⟨hturns, hframed⟩ := put_turns hids ho h hwrites hR
  obtain ⟨hprojects, hautomations, hruns, hsame⟩ := notify_kept db' o eventKind severity now id
  have hfound : db'.occurrence? o.id = some o' := by
    obtain ⟨-, -, rfl⟩ := putOccurrence_some h
    have hmem : o'.id ∈ db.occurrences.map (·.id) := by
      rw [hwrites.id]
      exact List.mem_map_of_mem ho
    rw [← hwrites.id]
    exact lookup_replace_self hmem
  refine ⟨?_, hprojects.trans hframed.projects, hautomations.trans hframed.automations,
    hruns.trans hframed.runs, hframed.notifications.trans notify_grows, fun hs => ?_⟩
  · rw [Turns, hsame]
    exact hturns
  · exact (hframed.truthful hs).notify hfound hwrites.automation htruth

/-- What a transaction of the tick can make of an occurrence. -/
inductive RowMove (db : Tables) (t : Tick) : OccurrenceRow → OccurrenceRow → Prop
  | runMissing {o : OccurrenceRow} :
      t.phase = .reconciling → o.isLinked = true → o.agentRunId.bind db.runs.get = none →
      RowMove db t o (o.runMissing t.now)
  | runEnded {o : OccurrenceRow} {r : RunRecord} :
      t.phase = .reconciling → o.isLinked = true → o.agentRunId.bind db.runs.get = some r →
      r.run.state.isTerminal = true → RowMove db t o (o.runEnded r.run.state t.now)
  | runCreated {o : OccurrenceRow} :
      t.phase = .reconciling → o.isLinked = true → o.state = .claimed → RowMove db t o o.runCreated
  | reclaimed {o : OccurrenceRow} :
      t.phase = .reclaiming → o.isExpired t.now = true → o.agentRunId = none →
      RowMove db t o (o.leased t.owner t.now t.lease)
  | claimed {o : OccurrenceRow} {reclaimed : List Claim} :
      t.phase = .claiming reclaimed → db.isClaimable t.now o = true →
      RowMove db t o (o.claimed t.owner t.now t.lease)
  | linked {o : OccurrenceRow} {a : AutomationRow} {claim : Claim} {rest : List Claim}
      {runId : Uuid} :
      t.phase = .linking claim rest → claim.holds o = true → o.isLive t.now = true →
      db.automation? o.automationId = some a → o.matchesAutomation a = true →
      o.agentRunId = none ∨ o.agentRunId = some runId → RowMove db t o (o.linked runId)
  | deferred {o : OccurrenceRow} {claim : Claim} {capacity : Bool} {rest : List Claim} {n : Nat}
      {at_ : Instant} {code : String} :
      t.phase = .deferring claim capacity rest → o.id = claim.occurrenceId → o.state = .claimed →
      o.agentRunId = none → RowMove db t o ({ o with attemptCount := n }.deferred at_ code)
  | exhausted {o : OccurrenceRow} {claim : Claim} {capacity : Bool} {rest : List Claim} {n : Nat}
      {code : String} :
      t.phase = .deferring claim capacity rest → o.id = claim.occurrenceId → o.state = .claimed →
      o.agentRunId = none → RowMove db t o ({ o with attemptCount := n }.failedWith t.now code)
  | failed {o : OccurrenceRow} {claim : Claim} {rest : List Claim} {code : String} :
      t.phase = .failing claim code rest → o.id = claim.occurrenceId → o.agentRunId = none →
      o.state.isTerminal = false → RowMove db t o (o.failedWith t.now code)

/-- The identifier and the columns that are copied when an occurrence is made stay. -/
theorem RowMove.id_eq (h : RowMove db t o o') : o'.id = o.id := by
  cases h <;> rfl

theorem RowMove.automation (h : RowMove db t o o') : o'.automationId = o.automationId ∧
    o'.scheduleRevision = o.scheduleRevision ∧ o'.automationRevision = o.automationRevision ∧
      o'.scheduledAt = o.scheduledAt := by
  cases h <;> exact ⟨rfl, rfl, rfl, rfl⟩

theorem holds_iff {claim : Claim} : claim.holds o = true ↔ o.id = claim.occurrenceId ∧
    o.state = .claimed ∧ o.leaseOwnerToken = some claim.ownerToken ∧
      o.leaseGeneration = claim.leaseGeneration := by
  unfold Claim.holds
  simp only [Bool.and_eq_true, beq_iff_eq, decide_eq_true_eq, and_assoc]

theorem isLinked_iff : o.isLinked = true ↔ o.agentRunId.isSome = true ∧ o.state.isActive = true := by
  unfold OccurrenceRow.isLinked
  rw [Bool.and_eq_true]

theorem isActive_open {state : OccurrenceState} (h : state.isActive = true) :
    state.isTerminal = false := by
  cases state <;> first | rfl | cases h

theorem isClaimable_due {now : Instant} (h : db.isClaimable now o = true) : o.state = .due := by
  unfold Tables.isClaimable at h
  simp only [Bool.and_eq_true, decide_eq_true_eq] at h
  exact h.1.1.1.1

theorem isExpired_claimed {now : Instant} (h : o.isExpired now = true) : o.state = .claimed := by
  unfold OccurrenceRow.isExpired at h
  simp only [Bool.and_eq_true, decide_eq_true_eq] at h
  exact h.1

/-- What is over is left. -/
theorem RowMove.open_ (h : RowMove db t o o') : o.state.isTerminal = false := by
  cases h with
  | runMissing _ hlinked _ => exact isActive_open (isLinked_iff.mp hlinked).2
  | runEnded _ hlinked _ _ => exact isActive_open (isLinked_iff.mp hlinked).2
  | runCreated _ hlinked _ => exact isActive_open (isLinked_iff.mp hlinked).2
  | reclaimed _ hexpired _ => rw [isExpired_claimed hexpired]; rfl
  | claimed _ hclaimable => rw [isClaimable_due hclaimable]; rfl
  | linked _ hholds _ _ _ _ => rw [(holds_iff.mp hholds).2.1]; rfl
  | deferred _ _ hclaimed _ => rw [hclaimed]; rfl
  | exhausted _ _ hclaimed _ => rw [hclaimed]; rfl
  | failed _ _ _ hopen => exact hopen

theorem RowMove.writes (h : RowMove db t o o') : Writes o o' :=
  ⟨h.id_eq, h.automation.1, h.open_⟩

/-! ## Loops -/

theorem mem_batch {α : Type} {id : α → Uuid} {time : α → Instant} {limit : Nat}
    {locked : List Uuid} {rows : List α} {p : α → Bool} {r : α}
    (h : r ∈ Connectors.batch id time limit locked (rows.filter p)) : r ∈ rows ∧ p r = true :=
  List.mem_filter.mp (List.mem_of_mem_filter
    ((List.mem_insertionSort _).mp (List.mem_of_mem_take h)))

theorem batch_nodup {α : Type} {id : α → Uuid} {time : α → Instant} {limit : Nat}
    {locked : List Uuid} {rows : List α} (h : Keyed id rows) :
    Keyed id (Connectors.batch id time limit locked rows) := by
  have hfilter : ((rows.filter fun r => !locked.contains (id r)).map id).Nodup :=
    h.sublist (List.filter_sublist.map id)
  have hsorted := ((List.perm_insertionSort (fun a b : α =>
    toLex (time a, (id a).toNat) ≤ toLex (time b, (id b).toNat))
      (rows.filter fun r => !locked.contains (id r))).map id).nodup_iff.mpr hfilter
  exact hsorted.sublist ((List.take_sublist _ _).map id)

theorem batch_length {α : Type} {id : α → Uuid} {time : α → Instant} {limit : Nat}
    {locked : List Uuid} {rows : List α} :
    (Connectors.batch id time limit locked rows).length ≤ limit :=
  List.length_take_le _ _

theorem zipIdx_keyed {α β : Type} {key : α → β} {rows : List α} (h : Keyed key rows) :
    (rows.zipIdx.map fun x => key x.1).Nodup := by
  have hmap : (rows.zipIdx.map fun x => key x.1) = rows.map key :=
    calc (rows.zipIdx.map fun x => key x.1) = (rows.zipIdx.map Prod.fst).map key := by
          rw [List.map_map]
          rfl
      _ = rows.map key := by rw [List.zipIdx_map_fst]
  rw [hmap]
  exact h

/-- The rows that were locked are written. -/
theorem writeRows_turns {rows : List OccurrenceRow} {f : OccurrenceRow → OccurrenceRow}
    (hids : Keyed (·.id) db.occurrences) (hrows : Keyed (·.id) rows)
    (hmem : ∀ o ∈ rows, o ∈ db.occurrences) (hf : ∀ o ∈ rows, Writes o (f o))
    (h : db.writeRows rows f = .ok db') :
    Turns (fun o o' => o ∈ rows ∧ o' = f o ∧ o'.admitted = true) (rows.map (·.id)) db db' ∧
      Framed db db' := by
  refine Turned.foldlM (I := Framed db) (g := id) hrows hids hmem (.refl db)
    (fun d d' o ho hframed hkeyed hin hput => ?_) h
  have hround : Turns (fun o o' => o ∈ rows ∧ o' = f o ∧ o'.admitted = true) [o.id] d d' ∧
      Framed d d' :=
    put_turns hkeyed hin hput (hf o ho) fun hadmitted => ⟨ho, rfl, hadmitted⟩
  exact ⟨hround.1, hframed.trans hround.2⟩

/-! ## Reconciling, reclaiming and claiming -/

theorem bind_map_ok {ε α β : Type} {x : Except ε α} {f : α → β} {b : β}
    (h : x.map f = .ok b) : ∃ a, x = .ok a ∧ f a = b := by
  cases x with
  | error e => cases h
  | ok a => exact ⟨a, rfl, Except.ok.inj h⟩

theorem reconcile_turns {db₀ : Tables} {hasResult : Uuid → Bool} {noticeId : Uuid}
    (hphase : t.phase = .reconciling) (hlinked : o.isLinked = true) (hframed : Framed db₀ db)
    (hids : Keyed (·.id) db.occurrences) (ho : o ∈ db.occurrences)
    (h : reconcile db t.now hasResult o noticeId = .ok db') :
    Turns (fun o o' => o' = o ∨ RowMove db₀ t o o') [o.id] db db' ∧ Framed db db' := by
  unfold reconcile at h
  rw [hframed.runs] at h
  split at h
  · next hrun =>
      obtain ⟨d, hput, rfl⟩ := bind_map_ok h
      have hmove : RowMove db₀ t o (o.runMissing t.now) := .runMissing hphase hlinked hrun
      exact put_notify_turns hids ho hput hmove.writes (.inr (.inr (.inr ⟨.inl rfl, rfl⟩)))
        fun _ => .inr hmove
  next r hrun =>
  split at h
  · next hover =>
      obtain ⟨d, hput, rfl⟩ := bind_map_ok h
      have hmove : RowMove db₀ t o (o.runEnded r.run.state t.now) :=
        .runEnded hphase hlinked hrun hover
      split
      · next hfailed =>
          exact put_notify_turns hids ho hput hmove.writes
            (.inr (.inr (.inr ⟨.inl rfl, if_neg hfailed⟩))) fun _ => .inr hmove
      next hcompleted =>
      rw [not_not] at hcompleted
      split
      · exact put_notify_turns hids ho hput hmove.writes
          (.inr (.inr (.inl ⟨rfl, if_pos hcompleted⟩))) fun _ => .inr hmove
      · exact put_turns hids ho hput hmove.writes fun _ => .inr hmove
  split at h
  · next hclaimed =>
      have hmove : RowMove db₀ t o o.runCreated := .runCreated hphase hlinked hclaimed
      exact put_turns hids ho h hmove.writes fun _ => .inr hmove
  · obtain rfl := Except.ok.inj h
    exact ⟨Turned.refl fun _ _ _ => .inl rfl, .refl _⟩

theorem reconcileLinked_turns {limit : Nat} {locked : List Uuid} {hasResult : Uuid → Bool}
    {noticeIds : Nat → Uuid} (hphase : t.phase = .reconciling) (hids : Keyed (·.id) db.occurrences)
    (h : reconcileLinked db t.now limit locked hasResult noticeIds = .ok db') :
    ∃ ids, Turns (fun o o' => o' = o ∨ RowMove db t o o') ids db db' ∧ Framed db db' := by
  let rows := Connectors.batch (fun o : OccurrenceRow => o.id) (·.scheduledAt) limit locked
    (db.occurrences.filter (·.isLinked))
  have hkeyed : Keyed (fun o : OccurrenceRow => o.id) rows :=
    batch_nodup (hids.sublist (List.filter_sublist.map _))
  refine ⟨_, Turned.foldlM (I := Framed db) (g := Prod.fst)
    (zipIdx_keyed hkeyed) hids (fun x hx => ?_) (.refl db)
    (fun d d' x hx hframed hkept hin hstep => ?_) h⟩
  · exact (mem_batch (List.fst_mem_of_mem_zipIdx hx)).1
  · obtain ⟨hturns, hframed'⟩ := reconcile_turns hphase
      (mem_batch (List.fst_mem_of_mem_zipIdx hx)).2 hframed hkept hin hstep
    exact ⟨hturns, hframed.trans hframed'⟩

/-- The claims that a tick takes of some rows. -/
structure Takes (db : Tables) (t : Tick) (rows : List OccurrenceRow)
    (f : OccurrenceRow → OccurrenceRow) (db' : Tables) : Prop where
  mem : ∀ o ∈ rows, o ∈ db.occurrences ∧ RowMove db t o (f o)
  ids : Keyed (·.id) rows
  turns : Turns (fun o o' => o ∈ rows ∧ o' = f o ∧ o'.admitted = true) (rows.map (·.id)) db db'
  framed : Framed db db'

theorem writeRows_takes {rows : List OccurrenceRow} {f : OccurrenceRow → OccurrenceRow}
    (hids : Keyed (·.id) db.occurrences) (hrows : Keyed (·.id) rows)
    (hmem : ∀ o ∈ rows, o ∈ db.occurrences ∧ RowMove db t o (f o))
    (h : db.writeRows rows f = .ok db') : Takes db t rows f db' := by
  obtain ⟨hturns, hframed⟩ := writeRows_turns hids hrows (fun o ho => (hmem o ho).1)
    (fun o ho => (hmem o ho).2.writes) h
  exact ⟨hmem, hrows, hturns, hframed⟩

theorem reclaimExpired_takes {limit : Nat} {locked : List Uuid} {claims : List Claim}
    (hphase : t.phase = .reclaiming) (hids : Keyed (·.id) db.occurrences)
    (h : reclaimExpired db t.now t.owner t.lease limit locked = .ok (claims, db')) :
    ∃ rows, claims = rows.map (·.claim t.owner) ∧
      Takes db t rows (fun o => o.leased t.owner t.now t.lease) db' := by
  unfold reclaimExpired at h
  obtain ⟨d, hwrite, heq⟩ := bind_map_ok h
  obtain ⟨rfl, rfl⟩ := Prod.mk.inj heq
  refine ⟨_, rfl, writeRows_takes hids ?_ (fun o ho => ?_) hwrite⟩
  · exact (batch_nodup (hids.sublist (List.filter_sublist.map _))).sublist
      (List.filter_sublist.map _)
  · obtain ⟨hin, hnone⟩ := List.mem_filter.mp ho
    exact ⟨(mem_batch hin).1,
      .reclaimed hphase (mem_batch hin).2 (Option.isNone_iff_eq_none.mp hnone)⟩

theorem claimDue_takes {limit : Nat} {locked : List Uuid} {claims reclaimed : List Claim}
    (hphase : t.phase = .claiming reclaimed) (hids : Keyed (·.id) db.occurrences)
    (h : claimDue db t.now t.owner t.lease limit locked = .ok (claims, db')) :
    ∃ rows, claims = rows.map (·.claim t.owner) ∧
      rows.length ≤ maxActiveOccurrences - db.activeCount ∧
      Takes db t rows (fun o => o.claimed t.owner t.now t.lease) db' := by
  unfold claimDue at h
  dsimp only at h
  split at h
  · obtain ⟨rfl, rfl⟩ := Prod.mk.inj (Except.ok.inj h)
    refine ⟨[], rfl, Nat.zero_le _, fun o ho => ?_, List.nodup_nil, Turned.refl fun o _ ho => ?_,
      .refl _⟩
    · cases ho
    · cases ho
  · obtain ⟨d, hwrite, heq⟩ := bind_map_ok h
    obtain ⟨rfl, rfl⟩ := Prod.mk.inj heq
    refine ⟨_, rfl, ?_, writeRows_takes hids ?_ (fun o ho => ?_) hwrite⟩
    · exact batch_length.trans (Nat.min_le_right _ _)
    · exact batch_nodup (hids.sublist (List.filter_sublist.map _))
    · exact ⟨(mem_batch ho).1, .claimed hphase (mem_batch ho).2⟩

/-! ## Materialization -/

theorem latestAndFollowing_spec {d : ScheduleDefinition} {rounds : Nat}
    {point latest : SchedulePoint} {following : Option SchedulePoint}
    (h : latestAndFollowing zoneInfo d now rounds point = .ok (latest, following))
    (hpoint : point.utcInstant ≤ now) :
    point.utcInstant ≤ latest.utcInstant ∧ latest.utcInstant ≤ now ∧
      ∀ f, following = some f → now < f.utcInstant := by
  induction rounds generalizing point with
  | zero => cases h
  | succ rounds ih =>
      rw [latestAndFollowing] at h
      split at h
      · cases h
      · obtain ⟨rfl, rfl⟩ := Prod.mk.inj (Except.ok.inj h)
        refine ⟨le_refl _, hpoint, fun f hf => ?_⟩
        cases hf
      next f hnext =>
      split at h
      · next hlater =>
          obtain ⟨rfl, rfl⟩ := Prod.mk.inj (Except.ok.inj h)
          exact ⟨le_refl _, hpoint, fun f' hf => Option.some.inj hf ▸ hlater⟩
      · next hle =>
          obtain ⟨hfirst, hlast, hfollowing⟩ := ih h (not_lt.mp hle)
          exact ⟨(nextPoint_later hnext).le.trans hfirst, hlast, hfollowing⟩

theorem latestDueAndFuture_spec {d : ScheduleDefinition} {stored : Instant}
    {latest : SchedulePoint} {following : Option SchedulePoint} {older : Bool}
    (h : latestDueAndFuture zoneInfo d (some stored) now = .ok (latest, following, older))
    (hstored : stored ≤ now) :
    stored ≤ latest.utcInstant ∧ latest.utcInstant ≤ now ∧
      ∀ f, following = some f → now < f.utcInstant := by
  unfold latestDueAndFuture at h
  dsimp only at h
  split at h
  · cases h
  next point hpoint =>
  split at h
  · cases h
  next hlatest =>
  obtain ⟨rfl, heq⟩ := Prod.mk.inj (Except.ok.inj h)
  obtain ⟨rfl, -⟩ := Prod.mk.inj heq
  have hinstant : point.utcInstant = stored := by
    unfold scheduledPoint at hpoint
    obtain ⟨z, -, hpoint⟩ := bind_ok hpoint
    dsimp only at hpoint
    split at hpoint
    · cases hpoint
    · rw [← Except.ok.inj hpoint]
  rw [← hinstant]
  exact latestAndFollowing_spec hlatest (hinstant ▸ hstored)

/-- The slot of an automation that is due has come, and its occurrence is there. -/
structure Round (isoformat : Instant → String) (now : Instant) (db : Tables) (a : AutomationRow)
    (point : SchedulePoint) (next : Option Instant) (db' : Tables) : Prop where
  found : db.automation? a.id = some a
  due : db.isDue now a = true
  stored : ∃ t, a.nextOccurrenceAt = some t ∧ t ≤ point.utcInstant
  le : point.utcInstant ≤ now
  later : ∀ n, next = some n → now < n
  projects : db'.projects = db.projects
  runs : db'.runs = db.runs
  notifications : NoticesGrow db.notifications db'.notifications
  automations : db'.automations =
    replace (·.id) { a with nextOccurrenceAt := next } db.automations
  occurrences : db'.occurrences = db.occurrences ∧
      (db.occurrenceOf (a.id, a.scheduleRevision, point.utcInstant)).isSome = true ∨
    ∃ state disposition id, (state = .missed ∨ state = .due) ∧
      db.acceptsOccurrence (newOccurrence isoformat a point now state disposition id) = true ∧
      db'.occurrences =
        db.occurrences ++ [newOccurrence isoformat a point now state disposition id]
  truthful : db.occurrenceOf (a.id, a.scheduleRevision, point.utcInstant) = none →
    Truthful db → Truthful db'

/-- The automations of a batch, one after the other. -/
inductive Materialized (isoformat : Instant → String) (now : Instant) : Tables → Tables → Prop
  | done {db : Tables} : Materialized isoformat now db db
  | round {db db' db'' : Tables} {a : AutomationRow} {point : SchedulePoint}
      {next : Option Instant} :
      Round isoformat now db a point next db' → Materialized isoformat now db' db'' →
      Materialized isoformat now db db''

theorem isDue_iff : db.isDue now a = true ↔ a.lifecycle = .enabled ∧
    (∃ t, a.nextOccurrenceAt = some t ∧ t ≤ now) ∧ ∀ o ∈ db.occurrences, blocks a o = false := by
  unfold Tables.isDue
  simp only [Bool.and_eq_true, decide_eq_true_eq, Option.any_eq_true, Bool.not_eq_true',
    List.any_eq_false, Bool.not_eq_true, and_assoc]

theorem acceptsOccurrence_iff {o : OccurrenceRow} : db.acceptsOccurrence o = true ↔
    o.admitted = true ∧ db.occurrence? o.id = none ∧ db.occurrenceOf o.slot = none ∧
      lookup (·.occurrenceKey) o.occurrenceKey db.occurrences = none ∧
      (db.automation? o.automationId).isSome = true := by
  unfold Tables.acceptsOccurrence
  simp only [Bool.and_eq_true, Option.isNone_iff_eq_none, and_assoc]

/-- The occurrence of the slot is there, or it is added. -/
theorem occurrenceFor_spec {point : SchedulePoint} {state : OccurrenceState}
    {disposition : Option String} {id : Uuid}
    (h : db.occurrenceFor isoformat a point now state disposition id = .ok (o, db')) :
    Framed db db' ∧
      (db'.occurrences = db.occurrences ∧
          (db.occurrenceOf (a.id, a.scheduleRevision, point.utcInstant)).isSome = true ∨
        o = newOccurrence isoformat a point now state disposition id ∧
          db.acceptsOccurrence o = true ∧ db'.occurrences = db.occurrences ++ [o]) := by
  unfold Tables.occurrenceFor at h
  split at h
  · next hslot =>
      obtain ⟨rfl, rfl⟩ := Prod.mk.inj (Except.ok.inj h)
      exact ⟨.refl _, .inl ⟨rfl, by rw [hslot]; rfl⟩⟩
  · dsimp only at h
    split at h
    · next haccepts =>
        obtain ⟨rfl, rfl⟩ := Prod.mk.inj (Except.ok.inj h)
        have hfresh := (acceptsOccurrence_iff.mp haccepts).2.1
        refine ⟨⟨rfl, rfl, rfl, .refl _, fun hs => ⟨hs.ids.append (lookup_eq_none.mp hfresh),
          fun n hn => ?_⟩⟩, .inr ⟨rfl, haccepts, rfl⟩⟩
        obtain ⟨p, hp, hsame, htruth⟩ := hs.told n hn
        exact ⟨p, lookup_append_of_some hp _, hsame, htruth⟩
    · cases h

theorem materialize_round {id noticeId : Uuid} (hfound : db.automation? a.id = some a)
    (hdue : db.isDue now a = true)
    (h : materialize zoneInfo isoformat db now a id noticeId = .ok db') :
    ∃ point next, Round isoformat now db a point next db' := by
  obtain ⟨-, ⟨stored, hstored, hle⟩, -⟩ := isDue_iff.mp hdue
  unfold materialize at h
  rw [hstored] at h
  split at h
  · cases h
  next point following older hlatest =>
  obtain ⟨hfirst, hlast, hfollowing⟩ := latestDueAndFuture_spec hlatest hle
  dsimp only at h
  split at h
  · cases h
  next o d hoccurrence =>
  obtain rfl := Except.ok.inj h
  have hnext : ∀ n, following.map (·.utcInstant) = some n → now < n := by
    intro n hn
    obtain ⟨f, hf, rfl⟩ := Option.map_eq_some_iff.mp hn
    exact hfollowing f hf
  obtain ⟨hframed, hoccurrences⟩ := occurrenceFor_spec hoccurrence
  have hmade : d.occurrences = db.occurrences ∧
      (db.occurrenceOf (a.id, a.scheduleRevision, point.utcInstant)).isSome = true ∨
    ∃ state disposition id, (state = .missed ∨ state = .due) ∧
      db.acceptsOccurrence (newOccurrence isoformat a point now state disposition id) = true ∧
      d.occurrences =
        db.occurrences ++ [newOccurrence isoformat a point now state disposition id] := by
    rcases hoccurrences with hslot | ⟨rfl, haccepts, hadded⟩
    · exact .inl hslot
    · refine .inr ⟨_, _, _, ?_, haccepts, hadded⟩
      split
      · exact .inl rfl
      · exact .inr rfl
  have hput : ∀ {a' : AutomationRow}, (d.putAutomation a').automations =
      replace (·.id) a' db.automations := by
    intro a'
    rw [← hframed.automations]
    rfl
  have hadvanced : ∀ {a' : AutomationRow}, Truthful db → Truthful (d.putAutomation a') :=
    fun hs => ⟨(hframed.truthful hs).ids, (hframed.truthful hs).told⟩
  split
  · next hmissed =>
      let advanced := d.putAutomation { a with nextOccurrenceAt := following.map (·.utcInstant) }
      obtain ⟨hprojects, hautomations, hruns, hsame⟩ := notify_kept advanced o
        "occurrence_missed" "warning" now noticeId
      have hgrows : NoticesGrow advanced.notifications
          (advanced.notify o "occurrence_missed" "warning" now noticeId).notifications :=
        notify_grows
      refine ⟨point, _, hfound, hdue, ⟨stored, hstored, hfirst⟩, hlast, hnext,
        hprojects.trans hframed.projects, hruns.trans hframed.runs,
        hframed.notifications.trans hgrows, hautomations.trans hput,
        by rw [hsame]; exact hmade, fun hfree hs => ?_⟩
      rcases hoccurrences with ⟨-, hslot⟩ | ⟨rfl, haccepts, hadded⟩
      · rw [hfree] at hslot
        cases hslot
      have hself := lookup_append_self (lookup_eq_none.mp (acceptsOccurrence_iff.mp haccepts).2.1)
      rw [← hadded] at hself
      exact (hadvanced hs).notify hself rfl (.inr (.inl ⟨rfl, if_pos hmissed⟩))
  · exact ⟨point, _, hfound, hdue, ⟨stored, hstored, hfirst⟩, hlast, hnext, hframed.projects,
      hframed.runs, hframed.notifications, hput, hmade, fun _ => hadvanced⟩

/-- A due automation is due until its round. -/
theorem Round.others {point : SchedulePoint} {next : Option Instant} {b : AutomationRow}
    (h : Round isoformat now db a point next db') (hne : b.id ≠ a.id)
    (hfound : db.automation? b.id = some b) (hdue : db.isDue now b = true) :
    db'.automation? b.id = some b ∧ db'.isDue now b = true := by
  refine ⟨?_, ?_⟩
  · unfold Tables.automation?
    rw [h.automations]
    refine (lookup_replace_ne ?_).trans hfound
    exact hne
  · rw [isDue_iff] at hdue ⊢
    refine ⟨hdue.1, hdue.2.1, fun o ho => ?_⟩
    rcases h.occurrences with ⟨hsame, -⟩ | ⟨state, disposition, id, -, -, hadded⟩
    · exact hdue.2.2 o (hsame ▸ ho)
    · rw [hadded] at ho
      rcases List.mem_append.mp ho with ho | ho
      · exact hdue.2.2 o ho
      · obtain rfl := List.mem_singleton.mp ho
        have hother : (a.id == b.id) = false := beq_eq_false_iff_ne.mpr fun heq => hne heq.symm
        simp [blocks, newOccurrence, hother]

theorem materializeRounds {batch : List (AutomationRow × Nat)} {ids noticeIds : Nat → Uuid}
    (hnodup : (batch.map (·.1.id)).Nodup)
    (hdue : ∀ x ∈ batch, db.automation? x.1.id = some x.1 ∧ db.isDue now x.1 = true)
    (h : batch.foldlM (fun db x =>
      materialize zoneInfo isoformat db now x.1 (ids x.2) (noticeIds x.2)) db = .ok db') :
    Materialized isoformat now db db' := by
  induction batch generalizing db with
  | nil =>
      obtain rfl := Except.ok.inj h
      exact .done
  | cons x rest ih =>
      rw [List.foldlM_cons] at h
      obtain ⟨d, hd, h⟩ := bind_ok h
      rw [List.map_cons, List.nodup_cons] at hnodup
      obtain ⟨hfound, hdueHere⟩ := hdue x List.mem_cons_self
      obtain ⟨point, next, hround⟩ := materialize_round hfound hdueHere hd
      refine .round hround (ih hnodup.2 (fun y hy => ?_) h)
      obtain ⟨hfound', hdue'⟩ := hdue y (List.mem_cons_of_mem _ hy)
      refine hround.others (fun heq => hnodup.1 ?_) hfound' hdue'
      exact List.mem_map.mpr ⟨y, hy, heq⟩

theorem materializeDue_spec {limit : Nat} {locked : List Uuid} {ids noticeIds : Nat → Uuid}
    (hids : Keyed (·.id) db.automations)
    (h : materializeDue zoneInfo isoformat db now limit locked ids noticeIds = .ok db') :
    Materialized isoformat now db db' := by
  refine materializeRounds ?_ (fun x hx => ?_) h
  · exact zipIdx_keyed (batch_nodup (hids.sublist (List.filter_sublist.map _)))
  · obtain ⟨hmem, hdue⟩ := mem_batch (List.fst_mem_of_mem_zipIdx hx)
    exact ⟨hids.lookup hmem, hdue⟩

/-! ## Work on a claim -/

/-- A run is linked to the occurrence of the claim, which still stands. -/
structure LinksRun (build : Build) (db : Tables) (claim : Claim) (now : Instant) (o : OccurrenceRow)
    (result : CreateResult) (runs : Runs) (db' : Tables) : Prop where
  found : db.occurrence? claim.occurrenceId = some o
  automation : ∃ a, db.automation? o.automationId = some a ∧ o.matchesAutomation a = true
  holds : claim.holds o = true
  live : o.isLive now = true
  unlinked : o.agentRunId = none ∨ o.agentRunId = some result.runId
  created : ∃ runId correlationId, createRun build db.runs db.projects.contains (runRequest o)
    (runKeyHash build o) (runFingerprint build o) now runId correlationId = .ok (result, runs)
  apart : db.sharesRun (o.linked result.runId) = false
  store : db' = { db with
    runs := runs
    occurrences := replace (·.id) (o.linked result.runId) db.occurrences }

theorem validateClaim_ok {claim : Claim} (h : validateClaim a o claim now = .ok ()) :
    o.automationId = claim.automationId ∧ claim.holds o = true ∧ o.isLive now = true ∧
      o.matchesAutomation a = true := by
  unfold validateClaim at h
  split at h
  · cases h
  next hclaim =>
  split at h
  · cases h
  next hmatch =>
  simp only [Bool.not_eq_true, Bool.not_eq_false', Bool.and_eq_true, beq_iff_eq] at hclaim hmatch
  exact ⟨hclaim.1.1, hclaim.1.2, hclaim.2, hmatch⟩

theorem createAndLinkRun_spec {claim : Claim} {runId correlationId : Uuid}
    (h : createAndLinkRun build db claim now runId correlationId = .ok db') :
    db' = db ∨ ∃ o result runs, LinksRun build db claim now o result runs db' := by
  unfold createAndLinkRun at h
  split at h
  · next a o hautomation hoccurrence =>
      split at h
      · unfold replayLinked at h
        split at h
        · cases h
        · split at h
          · exact .inl (Except.ok.inj h).symm
          · cases h
      obtain ⟨⟨⟩, hvalid, h⟩ := bind_ok h
      obtain ⟨⟨⟩, -, h⟩ := bind_ok h
      split at h
      · cases h
      next result runs hcreate =>
      split at h
      · cases h
      next hlink =>
      obtain ⟨hsame, hholds, hlive, hmatch⟩ := validateClaim_ok hvalid
      obtain ⟨-, hapart, rfl⟩ := putOccurrence_some h
      refine .inr ⟨o, result, runs, hoccurrence, ⟨a, hsame ▸ hautomation, hmatch⟩, hholds, hlive, ?_,
        ⟨_, _, hcreate⟩, hapart, rfl⟩
      cases hrun : o.agentRunId with
      | none => exact .inl rfl
      | some r =>
          rw [hrun] at hlink
          exact .inr (by_contra fun hne => hlink ⟨rfl, hne⟩)
  · cases h

theorem occurrence_found {id : Uuid} (h : db.occurrence? id = some o) :
    o ∈ db.occurrences ∧ o.id = id :=
  lookup_mem h

theorem deferSetup_turns {claim : Claim} {capacity : Bool} {rest : List Claim} {noticeId : Uuid}
    (hphase : t.phase = .deferring claim capacity rest) (hids : Keyed (·.id) db.occurrences)
    (h : deferSetup db claim.occurrenceId t.now capacity noticeId = .ok db') :
    ∃ ids, Turns (RowMove db t) ids db db' ∧ Framed db db' := by
  unfold deferSetup at h
  split at h
  · cases h
  next o hfound =>
  obtain ⟨ho, hid⟩ := occurrence_found hfound
  split at h
  · cases h
  next hunlinked =>
  rw [Bool.not_eq_true, Option.isSome_eq_false_iff, Option.isNone_iff_eq_none] at hunlinked
  split at h
  · cases h
  split at h
  · cases h
  next hclaimed =>
  rw [not_not] at hclaimed
  have hdeferred : ∀ n at_ code,
      RowMove db t o ({ o with attemptCount := n }.deferred at_ code) :=
    fun n at_ code => .deferred hphase hid hclaimed hunlinked
  refine ⟨[o.id], ?_⟩
  split at h
  · unfold deferCapacity at h
    obtain ⟨d, hput, rfl⟩ := bind_map_ok h
    have hmove := hdeferred o.attemptCount (t.now + retryDelay o.id 1) "capacity_deferred"
    split
    · exact put_notify_turns hids ho hput hmove.writes (.inl rfl) fun _ => hmove
    · exact put_turns hids ho hput hmove.writes fun _ => hmove
  · unfold deferRetry at h
    dsimp only at h
    split at h
    · obtain ⟨d, hput, rfl⟩ := bind_map_ok h
      have hmove : RowMove db t o ({ o with attemptCount := o.attemptCount + 1 }.failedWith t.now
          "setup_retry_exhausted") := .exhausted hphase hid hclaimed hunlinked
      exact put_notify_turns hids ho hput hmove.writes (.inr (.inr (.inr ⟨.inr rfl, rfl⟩)))
        fun _ => hmove
    · have hmove := hdeferred (o.attemptCount + 1) (t.now + retryDelay o.id (o.attemptCount + 1))
        "setup_retry_deferred"
      exact put_turns hids ho h hmove.writes fun _ => hmove

theorem failClosed_turns {claim : Claim} {code : String} {rest : List Claim} {noticeId : Uuid}
    (hphase : t.phase = .failing claim code rest) (hids : Keyed (·.id) db.occurrences)
    (h : failClosed db claim.occurrenceId t.now code noticeId = .ok db') :
    ∃ ids, Turns (RowMove db t) ids db db' ∧ Framed db db' := by
  unfold failClosed at h
  split at h
  · cases h
  next o hfound =>
  obtain ⟨ho, hid⟩ := occurrence_found hfound
  split at h
  · cases h
  next hunlinked =>
  rw [Bool.not_eq_true, Option.isSome_eq_false_iff, Option.isNone_iff_eq_none] at hunlinked
  split at h
  · obtain rfl := Except.ok.inj h
    refine ⟨[], Turned.refl fun _ _ hin => ?_, .refl _⟩
    cases hin
  · next hopen =>
      obtain ⟨d, hput, rfl⟩ := bind_map_ok h
      have hmove : RowMove db t o (o.failedWith t.now code) :=
        .failed hphase hid hunlinked (by simpa using hopen)
      exact ⟨_, put_notify_turns hids ho hput hmove.writes
        (.inr (.inr (.inr ⟨.inl rfl, rfl⟩))) fun _ => hmove⟩

/-! ## Steps of a tick -/

/-- The claims that a tick still holds. -/
def TickPhase.claims : TickPhase → List Claim
  | .reconciling | .reclaiming | .done | .stopped => []
  | .materializing claims | .claiming claims => claims
  | .linking claim rest | .reading claim rest | .deferring claim _ rest
  | .failing claim _ rest => claim :: rest

/-- The phases in which occurrences are written, and nothing is claimed or linked. -/
def TickPhase.plain : TickPhase → Bool
  | .reconciling | .reclaiming | .deferring _ _ _ | .failing _ _ _ => true
  | .materializing _ | .claiming _ | .linking _ _ | .reading _ _ | .done | .stopped => false

theorem claims_next (rest : List Claim) : (TickPhase.next rest).claims = rest := by
  cases rest <;> rfl

/-- What a transaction of a tick makes of its phase and of the tables. -/
inductive TickStep (isoformat : Instant → String) (build : Build) (db : Tables) (t : Tick) :
    TickPhase → Tables → Prop
  | rested {phase : TickPhase} :
      phase.claims.Sublist t.phase.claims → TickStep isoformat build db t phase db
  | reconciled {ids : List Uuid} {db' : Tables} :
      t.phase = .reconciling → Turns (fun o o' => o' = o ∨ RowMove db t o o') ids db db' → Framed db db' →
      TickStep isoformat build db t .reclaiming db'
  | reclaimed {rows : List OccurrenceRow} {db' : Tables} :
      t.phase = .reclaiming → Takes db t rows (fun o => o.leased t.owner t.now t.lease) db' →
      TickStep isoformat build db t (.materializing (rows.map (·.claim t.owner))) db'
  | materialized {reclaimed : List Claim} {db' : Tables} :
      t.phase = .materializing reclaimed → Materialized isoformat t.now db db' →
      TickStep isoformat build db t (.claiming reclaimed) db'
  | claimed {reclaimed : List Claim} {rows : List OccurrenceRow} {db' : Tables} :
      t.phase = .claiming reclaimed → rows.length ≤ maxActiveOccurrences - db.activeCount →
      Takes db t rows (fun o => o.claimed t.owner t.now t.lease) db' →
      TickStep isoformat build db t (.next (allClaims reclaimed (rows.map (·.claim t.owner)))) db'
  | linked {claim : Claim} {rest : List Claim} {o : OccurrenceRow} {result : CreateResult}
      {runs : Runs} {phase : TickPhase} {db' : Tables} :
      t.phase = .linking claim rest → phase.claims.Sublist t.phase.claims →
      LinksRun build db claim t.now o result runs db' → TickStep isoformat build db t phase db'
  | handled {ids : List Uuid} {phase : TickPhase} {db' : Tables} :
      t.phase.plain = true → phase.claims.Sublist t.phase.claims →
      Turns (RowMove db t) ids db db' → Framed db db' → TickStep isoformat build db t phase db'

/-- What keeps the rows apart that the steps look up. -/
structure KeyedRows (db : Tables) : Prop where
  automations : Keyed (·.id) db.automations
  occurrences : Keyed (·.id) db.occurrences

theorem settle_cases {r : Except SchedulerError (TickPhase × Tables)} {d : Tables}
    (h : settle t r db = (t', d)) : t' = { t with phase := .stopped } ∧ d = db ∨
      ∃ phase, r = .ok (phase, d) ∧ t' = { t with phase := phase } := by
  cases r with
  | error e =>
      obtain ⟨rfl, rfl⟩ := Prod.mk.inj h
      exact .inl ⟨rfl, rfl⟩
  | ok x =>
      obtain ⟨rfl, rfl⟩ := Prod.mk.inj h
      exact .inr ⟨x.1, rfl, rfl⟩

theorem stopped_rests : TickStep isoformat build db t .stopped db :=
  .rested (List.nil_sublist _)

theorem afterLink_step {claim : Claim} {rest : List Claim} {runId correlationId : Uuid}
    {outcome : LinkOutcome} {phase : TickPhase} (hphase : t.phase = .linking claim rest)
    (h : afterLink db claim rest (createAndLinkRun build db claim t.now runId correlationId) outcome =
      (phase, db')) : TickStep isoformat build db t phase db' := by
  have hclaims : t.phase.claims = claim :: rest := by rw [hphase]; rfl
  have hrest : ∀ {phase : TickPhase}, phase.claims = claim :: rest →
      TickStep isoformat build db t phase db :=
    fun h => .rested (by rw [h, hclaims])
  cases hresult : createAndLinkRun build db claim t.now runId correlationId with
  | error e =>
      rw [hresult] at h
      have hcases : (∃ capacity, phase = .deferring claim capacity rest ∨
          ∃ code, phase = .failing claim code rest) ∧ db' = db := by
        unfold afterLink at h
        split at h
        · obtain ⟨rfl, rfl⟩ := Prod.mk.inj h
          exact ⟨⟨false, .inl rfl⟩, rfl⟩
        · obtain ⟨rfl, rfl⟩ := Prod.mk.inj h
          exact ⟨⟨false, .inr ⟨_, rfl⟩⟩, rfl⟩
        all_goals
          split at h
          · next heq => cases heq
          · obtain ⟨rfl, rfl⟩ := Prod.mk.inj h
            exact ⟨⟨true, .inl rfl⟩, rfl⟩
          · obtain ⟨rfl, rfl⟩ := Prod.mk.inj h
            exact ⟨⟨false, .inr ⟨_, rfl⟩⟩, rfl⟩
      obtain ⟨⟨capacity, rfl | ⟨code, rfl⟩⟩, rfl⟩ := hcases
      · exact hrest rfl
      · exact hrest rfl
  | ok d =>
      rw [hresult] at h
      have hdone : ∀ {phase : TickPhase}, phase.claims.Sublist (claim :: rest) →
          TickStep isoformat build db t phase d := by
        intro phase hsub
        rcases createAndLinkRun_spec hresult with rfl | ⟨o, result, runs, hlinks⟩
        · exact .rested (hclaims ▸ hsub)
        · exact .linked hphase (hclaims ▸ hsub) hlinks
      cases outcome with
      | failed retryable =>
          cases retryable with
          | true =>
              obtain ⟨rfl, rfl⟩ := Prod.mk.inj h
              exact hrest rfl
          | false =>
              obtain ⟨rfl, rfl⟩ := Prod.mk.inj h
              exact hrest rfl
      | committed =>
          obtain ⟨rfl, rfl⟩ := Prod.mk.inj h
          exact hdone (by rw [claims_next]; exact List.sublist_cons_self _ _)
      | unacknowledged effect =>
          cases effect with
          | true =>
              obtain ⟨rfl, rfl⟩ := Prod.mk.inj h
              exact hdone (List.Sublist.refl _)
          | false =>
              obtain ⟨rfl, rfl⟩ := Prod.mk.inj h
              exact hrest rfl

theorem advance_step {m : TickMove} (hrows : KeyedRows db)
    (h : t.advance zoneInfo isoformat build db m = some (t', db')) :
    ∃ phase, t' = { t with phase := phase } ∧ TickStep isoformat build db t phase db' := by
  unfold Tick.advance at h
  cases m with
  | reconcile locked hasResult noticeIds =>
      dsimp only at h
      split at h
      · next hphase =>
          rcases settle_cases (Option.some.inj h) with ⟨rfl, rfl⟩ | ⟨phase, hr, rfl⟩
          · exact ⟨_, rfl, stopped_rests⟩
          · obtain ⟨d, hd, heq⟩ := bind_map_ok hr
            obtain ⟨rfl, rfl⟩ := Prod.mk.inj heq
            obtain ⟨ids, hturns, hframed⟩ := reconcileLinked_turns hphase hrows.occurrences hd
            exact ⟨_, rfl, .reconciled hphase hturns hframed⟩
      · cases h
  | reclaim locked =>
      dsimp only at h
      split at h
      · next hphase =>
          rcases settle_cases (Option.some.inj h) with ⟨rfl, rfl⟩ | ⟨phase, hr, rfl⟩
          · exact ⟨_, rfl, stopped_rests⟩
          · obtain ⟨d, hd, heq⟩ := bind_map_ok hr
            obtain ⟨rfl, rfl⟩ := Prod.mk.inj heq
            obtain ⟨rows, hclaims, htakes⟩ := reclaimExpired_takes hphase hrows.occurrences hd
            rw [hclaims]
            exact ⟨_, rfl, .reclaimed hphase htakes⟩
      · cases h
  | materialize locked ids noticeIds =>
      dsimp only at h
      split at h
      · next reclaimed hphase =>
          rcases settle_cases (Option.some.inj h) with ⟨rfl, rfl⟩ | ⟨phase, hr, rfl⟩
          · exact ⟨_, rfl, stopped_rests⟩
          · obtain ⟨d, hd, heq⟩ := bind_map_ok hr
            obtain ⟨rfl, rfl⟩ := Prod.mk.inj heq
            exact ⟨_, rfl, .materialized hphase (materializeDue_spec hrows.automations hd)⟩
      · cases h
  | claim locked =>
      dsimp only at h
      split at h
      · next reclaimed hphase =>
          rcases settle_cases (Option.some.inj h) with ⟨rfl, rfl⟩ | ⟨phase, hr, rfl⟩
          · exact ⟨_, rfl, stopped_rests⟩
          · obtain ⟨d, hd, heq⟩ := bind_map_ok hr
            obtain ⟨rfl, rfl⟩ := Prod.mk.inj heq
            obtain ⟨rows, hclaims, hfew, htakes⟩ := claimDue_takes hphase hrows.occurrences hd
            rw [hclaims]
            exact ⟨_, rfl, .claimed hphase hfew htakes⟩
      · cases h
  | link outcome runId correlationId =>
      dsimp only at h
      split at h
      · next claim rest hphase =>
          obtain ⟨rfl, rfl⟩ := Prod.mk.inj (Option.some.inj h)
          exact ⟨_, rfl, afterLink_step hphase rfl⟩
      · cases h
  | read =>
      dsimp only at h
      split at h
      · next claim rest hphase =>
          obtain ⟨rfl, rfl⟩ := Prod.mk.inj (Option.some.inj h)
          refine ⟨_, rfl, .rested ?_⟩
          rw [hphase]
          unfold afterRead
          split
          · rw [claims_next]
            exact List.sublist_cons_self _ _
          · exact .refl _
      · cases h
  | defer noticeId =>
      dsimp only at h
      split at h
      · next claim capacity rest hphase =>
          rcases settle_cases (Option.some.inj h) with ⟨rfl, rfl⟩ | ⟨phase, hr, rfl⟩
          · exact ⟨_, rfl, stopped_rests⟩
          · obtain ⟨d, hd, heq⟩ := bind_map_ok hr
            obtain ⟨rfl, rfl⟩ := Prod.mk.inj heq
            obtain ⟨ids, hturns, hframed⟩ := deferSetup_turns hphase hrows.occurrences hd
            refine ⟨_, rfl, .handled (by rw [hphase]; rfl) ?_ hturns hframed⟩
            rw [hphase, claims_next]
            exact List.sublist_cons_self _ _
      · cases h
  | fail noticeId =>
      dsimp only at h
      split at h
      · next claim code rest hphase =>
          rcases settle_cases (Option.some.inj h) with ⟨rfl, rfl⟩ | ⟨phase, hr, rfl⟩
          · exact ⟨_, rfl, stopped_rests⟩
          · obtain ⟨d, hd, heq⟩ := bind_map_ok hr
            obtain ⟨rfl, rfl⟩ := Prod.mk.inj heq
            obtain ⟨ids, hturns, hframed⟩ := failClosed_turns hphase hrows.occurrences hd
            refine ⟨_, rfl, .handled (by rw [hphase]; rfl) ?_ hturns hframed⟩
            rw [hphase, claims_next]
            exact List.sublist_cons_self _ _
      · cases h

end Automations

end SecondBrain
