import SecondBrain.Automations.OpenSlots

/-!
# What the operator is told

A notification is added in the transaction that brings its occurrence to its end, and an
occurrence that is over stays as it is. So what was told stays true. The key of a
notification keeps it from being told twice.
-/

namespace SecondBrain

open Lib

namespace Automations

variable {zoneInfo : ZoneInfo} {isoformat : Instant → String} {build : Build}
  {s s' : SchedulerState} {db db' : Tables} {clock now : Instant} {a : AutomationRow}
  {point : SchedulePoint} {next : Option Instant}

/-- A round is always of a slot that has no occurrence. -/
theorem Slotted.fresh (h : Slotted clock db) (hround : Round isoformat now db a point next db') :
    db.occurrenceOf (a.id, a.scheduleRevision, point.utcInstant) = none := by
  cases hslot : db.occurrenceOf (a.id, a.scheduleRevision, point.utcInstant) with
  | none => rfl
  | some o =>
      obtain ⟨ho, hkey⟩ := lookup_mem hslot
      obtain ⟨hid, hkey⟩ := Prod.mk.inj hkey
      obtain ⟨hrevision, hat⟩ := Prod.mk.inj hkey
      obtain ⟨b, hb, hfor⟩ := h.made o ho
      rw [hid, hround.found] at hb
      obtain rfl := Option.some.inj hb
      obtain ⟨stored, hstored, hle⟩ := hround.stored
      have hbefore := hfor.before hrevision stored hstored
      rw [hat] at hbefore
      exact absurd hbefore (not_lt.mpr hle)

theorem Change.truthful (hslots : Slotted clock db) (hs : Truthful db)
    (h : Change isoformat build clock db db') : Truthful db' := by
  cases h with
  | projectAdded => exact ⟨hs.ids, hs.told⟩
  | edited hedited =>
      cases hedited with
      | created _ _ _ => exact ⟨hs.ids, hs.told⟩
      | written _ => exact ⟨hs.ids, hs.told⟩
  | created _ => exact ⟨hs.ids, hs.told⟩
  | ran _ _ => exact ⟨hs.ids, hs.told⟩
  | turned _ _ _ hframed => exact hframed.truthful hs
  | claimed _ _ _ htakes => exact htakes.framed.truthful hs
  | linked _ _ hlinks =>
      have hopen := (holds_iff.mp hlinks.holds).2.1
      refine hs.put (lookup_mem hlinks.found).1 ?_ ?_ ?_ (by rw [hlinks.store]) (by rw [hlinks.store])
      · rfl
      · rfl
      · rw [hopen]
        rfl
  | round _ hround => exact hround.truthful (hslots.fresh hround) hs

theorem Change.notices_grow (h : Change isoformat build clock db db') :
    NoticesGrow db.notifications db'.notifications := by
  cases h with
  | projectAdded => exact .refl _
  | edited hedited =>
      cases hedited with
      | created _ _ _ => exact .refl _
      | written _ => exact .refl _
  | created _ => exact .refl _
  | ran _ _ => exact .refl _
  | turned _ _ _ hframed => exact hframed.notifications
  | claimed _ _ _ htakes => exact htakes.framed.notifications
  | linked _ _ hlinks =>
      rw [hlinks.store]
      exact .refl _
  | round _ hround => exact hround.notifications

/-- What holds of the notifications and of what they tell. -/
structure Informed (clock : Instant) (db : Tables) : Prop where
  slots : Slotted clock db
  truthful : Truthful db
  notices : Notices db.notifications

theorem informed (h : (Scheduler.machine zoneInfo isoformat build).Reachable s) :
    Informed s.clock s.db := by
  refine tables_invariant (I := Informed) ?_ (fun _ _ _ hle h => ⟨h.slots.later hle, h.truthful,
    h.notices⟩) (fun _ _ _ hrows h hchange => ⟨h.slots.change hrows hchange,
      hchange.truthful h.slots h.truthful, hchange.notices_grow.sound h.notices⟩) h
  refine ⟨⟨fun o ho => ?_, fun o ho => ?_, fun o ho => ?_⟩, ⟨List.nodup_nil, fun n hn => ?_⟩,
    List.nodup_nil, List.nodup_nil, fun n hn => ?_⟩
  · cases ho
  · cases ho
  · cases ho
  · cases hn
  · cases hn

/-- In every run of the scheduler, each notification is true of its occurrence: one that
tells of a failure, a missed slot or a result is of an occurrence that failed, was missed or
completed. Nothing is told twice of an occurrence, and what was told is never taken back. -/
theorem notifications_true (h : (Scheduler.machine zoneInfo isoformat build).Reachable s) :
    (∀ n ∈ s.db.notifications, ∃ o, s.db.occurrence? n.occurrenceId = some o ∧
      o.automationId = n.automationId ∧ Truth n.eventKind o.state) ∧
    (∀ n ∈ s.db.notifications, ∀ m ∈ s.db.notifications, n.occurrenceId = m.occurrenceId →
      n.eventKind = m.eventKind → n = m) ∧
    ∀ s', ((Scheduler.machine zoneInfo isoformat build).startingAt s).Reachable s' →
      s.db.notifications.IsPrefix s'.db.notifications ∧
      ∀ n ∈ s.db.notifications, n.eventKind ≠ "capacity_delayed" →
        s'.db.occurrence? n.occurrenceId = s.db.occurrence? n.occurrenceId := by
  have hs := informed h
  refine ⟨hs.truthful.told, fun n hn m hm hid hkind => ?_, fun s' h' => ⟨?_, fun n hn hkind => ?_⟩⟩
  · refine hs.notices.keys.inj hn hm ?_
    rw [hs.notices.form n hn, hs.notices.form m hm, hid, hkind]
  · refine tables_later (R := fun db db' => db.notifications.IsPrefix db'.notifications)
      (fun _ => List.prefix_refl _) List.IsPrefix.trans (fun _ _ _ _ hchange => ?_) h h'
    obtain ⟨new, hnew⟩ := hchange.notices_grow.added
    exact ⟨new, hnew.symm⟩
  · obtain ⟨o, ho, -, htruth⟩ := hs.truthful.told n hn
    have hover : o.state.isTerminal = true := by
      by_contra hopen
      exact hkind (htruth.of_open (Bool.not_eq_true _ ▸ hopen))
    obtain ⟨o', ho', -, -, -, hsame⟩ := occurrences_last h h' _ o ho
    rw [ho', ho, hsame hover]

def sampleTold (s : SchedulerState) : Bool :=
  s.db.notifications.any fun n => n.occurrenceId == 20 && n.eventKind == "occurrence_failed"

/-- The commit that links the run has no effect, and the operator is told of the failure. -/
theorem notifications_true_failed : ∃ s o, sampleScheduler.Reachable s ∧
    s.db.occurrence? 20 = some o ∧ o.state = .failed ∧
    ∀ s', (sampleScheduler.startingAt s).Reachable s' → s'.db.occurrence? 20 = some o := by
  obtain ⟨s, hs, htold⟩ := sampleScheduler.exists_reachable_of_exec
    (sampleBriefDue ++ sampleClaims 0 9 20 ++ [.move 0 (.link (.unacknowledged false) 30 31),
      .move 0 .read, .move 0 (.fail 92)])
    sampleTold (s := {}) rfl (by decide +kernel)
  obtain ⟨n, hn, htold⟩ := List.any_eq_true.mp htold
  rw [Bool.and_eq_true, beq_iff_eq, beq_iff_eq] at htold
  obtain ⟨hid, hkind⟩ := htold
  obtain ⟨htrue, -, hlater⟩ := notifications_true hs
  obtain ⟨o, ho, -, htruth⟩ := htrue n hn
  rw [hid] at ho
  refine ⟨s, o, hs, ho, ?_, fun s' h' => ?_⟩
  · rw [hkind] at htruth
    rcases htruth with heq | ⟨heq, -⟩ | ⟨heq, -⟩ | ⟨-, hfailed⟩
    · exact absurd heq (by decide)
    · exact absurd heq (by decide)
    · exact absurd heq (by decide)
    · exact hfailed
  · have hsame := (hlater s' h').2 n hn (by rw [hkind]; decide)
    rw [hid] at hsame
    exact hsame.trans ho

end Automations

end SecondBrain
