import SecondBrain.Connectors.Endings

/-!
# Occurrences whose schedule or account has changed

An occurrence is claimed under the revisions of its schedule and its account, and
every transaction on it makes sure that they are still the same. Revisions only
grow, so once one of them has moved on while the occurrence is claimed or linked,
ticks take it over and fail, and it never ends. A refresh that fails on the identity
of its account moves the account on itself. While nothing has moved on and somebody
can close every manual run, every occurrence can end (`occurrences_end`).
-/

namespace SecondBrain

open Lib

namespace Connectors

variable {c : Clockwork} {p : Platform} {s s' : SchedulerState} {db db' : Store}
  {plan plan' : Plan} {o o' : Occurrence} {l : SchedulerLabel} {run : ConnectorSyncRun}

/-! ## What a lease stands for -/

/-- Whether the schedule or the account has changed since the occurrence was made. -/
def drifted (db : Store) (plan : Plan) (o : Occurrence) : Bool :=
  ((plan.schedule? o.scheduleId).any fun row => decide (o.scheduleRowRevision < row.revision)) ||
    (db.account? o.accountId).any fun account => decide (o.accountRevision < account.revision)

/-- An occurrence that is leased was claimed under what it was made for. -/
structure Granted (db : Store) (plan : Plan) (o : Occurrence) : Prop where
  schedule : ∃ row, plan.schedule? o.scheduleId = some row ∧ o.scheduleRowRevision ≤ row.revision ∧
    (row.revision = o.scheduleRowRevision →
      row.lifecycle = .enabled ∧ row.scheduleRevision = o.scheduleRevision)
  account : ∃ account, db.account? o.accountId = some account ∧ o.accountRevision ≤ account.revision ∧
    (account.revision = o.accountRevision → account.lifecycle = .enabled)

theorem Granted.keep (h : Granted db plan o) (hkeeps : Keeps db db')
    (hschedules : SchedulesKept plan plan') : Granted db' plan' o := by
  obtain ⟨row, hrow, hle, henabled⟩ := h.schedule
  obtain ⟨account, haccount, hle', henabled'⟩ := h.account
  obtain ⟨row', hrow', hkept⟩ := hschedules.kept hrow
  obtain ⟨account', haccount', hkept'⟩ := hkeeps.accounts haccount
  refine ⟨⟨row', hrow', hle.trans hkept.revision, fun hsame => ?_⟩,
    account', haccount', hle'.trans hkept'.revision, fun hsame => ?_⟩
  · have hrevision := hkept.revision
    have hsettled := hkept.settled (by omega)
    rw [Prod.mk.injEq] at hsettled
    rw [hsettled.1, hsettled.2]
    exact henabled (by omega)
  · have hrevision := hkept'.revision
    have hconfigured := hkept'.configured (by omega)
    have hlifecycle : account'.lifecycle = account.lifecycle := congrArg Prod.fst hconfigured
    rw [hlifecycle]
    exact henabled' (by omega)

theorem Granted.of_authorized (h : authorized db plan o = true) : Granted db plan o := by
  unfold authorized at h
  rw [Bool.and_eq_true] at h
  obtain ⟨hschedule, haccount⟩ := h
  cases hrow : plan.schedule? o.scheduleId with
  | none =>
      rw [hrow] at hschedule
      cases hschedule
  | some row =>
      cases hfound : db.account? o.accountId with
      | none =>
          rw [hfound] at haccount
          cases haccount
      | some account =>
          rw [hrow, Option.any_some] at hschedule
          rw [hfound, Option.any_some] at haccount
          simp only [Bool.and_eq_true, decide_eq_true_eq, beq_iff_eq] at hschedule haccount
          exact ⟨⟨row, hrow, hschedule.1.2.ge, fun _ => ⟨hschedule.1.1, hschedule.2⟩⟩,
            account, hfound, haccount.2.ge, fun _ => haccount.1⟩

/-- What was granted stands until something changes. -/
theorem Granted.authorized (h : Granted db plan o) (hdrifted : drifted db plan o = false) :
    authorized db plan o = true := by
  obtain ⟨row, hrow, hle, henabled⟩ := h.schedule
  obtain ⟨account, haccount, hle', henabled'⟩ := h.account
  unfold drifted at hdrifted
  rw [hrow, haccount, Option.any_some, Option.any_some, Bool.or_eq_false_iff,
    decide_eq_false_iff_not, decide_eq_false_iff_not] at hdrifted
  have hrevision : row.revision = o.scheduleRowRevision := by omega
  have hrevision' : account.revision = o.accountRevision := by omega
  obtain ⟨hlifecycle, hscheduleRevision⟩ := henabled hrevision
  unfold Connectors.authorized
  rw [hrow, haccount, Option.any_some, Option.any_some]
  simp [hlifecycle, hscheduleRevision, hrevision, hrevision', henabled' hrevision']

/-- Every occurrence that is leased was granted. -/
def SchedulerState.Granted (s : SchedulerState) : Prop :=
  ∀ o ∈ s.plan.occurrences, o.state.isLeased = true → Connectors.Granted s.db s.plan o

theorem granted_congr (h : Granted db plan o) (horigin : o'.origin = o.origin) :
    Granted db plan o' := by
  simp only [Occurrence.origin, Prod.mk.injEq] at horigin
  obtain ⟨-, hschedule, haccount, hrevision, hrow, hscheduleRevision, -⟩ := horigin
  refine ⟨?_, ?_⟩
  · rw [hschedule, hrow, hscheduleRevision]
    exact h.schedule
  · rw [haccount, hrevision]
    exact h.account

theorem RowMoves.granted (hmove : RowMoves p s db' l o o')
    (h : o.state.isLeased = true → Granted s.db s.plan o) (hleased : o'.state.isLeased = true) :
    Granted s.db s.plan o := by
  cases hmove with
  | same => exact h hleased
  | leased ht hready =>
      refine h ?_
      unfold Occurrence.isAbandoned Occurrence.isResumable at hready
      simp only [Bool.and_eq_true, decide_eq_true_eq] at hready
      rcases hready with hready | hready <;> rw [hready.1] <;> rfl
  | claimed ht hdue =>
      unfold Occurrence.claimed at hleased
      split at hleased
      · next hauthorized => exact .of_authorized hauthorized
      · cases hleased
  | linked ht hphase hvalid =>
      refine h ?_
      rw [hvalid.state]
      rfl
  | @finalized i t claim rest o run =>
      have hleased : run.status.outcome.isLeased = true := hleased
      cases hstatus : run.status <;> rw [hstatus] at hleased <;> cases hleased

theorem Stepped.granted (hstepped : Stepped p s l s') (h : s.Sound p) (hgranted : s.Granted) :
    s'.Granted := by
  have hkeeps := (hstepped.sync.sound h.sync).2
  intro o' ho' hleased
  rcases hstepped.rows.of_row ho' with ⟨o, ho, hmove⟩ | hnew
  · have hbefore := hmove.granted (hgranted o ho) hleased
    exact granted_congr (hbefore.keep hkeeps hstepped.schedules) hmove.origin
  · rcases hnew.state with ⟨hstate, -⟩ | ⟨hstate, -⟩ <;> rw [hstate] at hleased <;> cases hleased

theorem granted {ok : SchedulerState → SchedulerLabel → Prop}
    (h : (Scheduler.machine c p).Reach ok s) : s.Granted := by
  refine h.invariant (I := fun s => s.Granted) (fun s hs => ?_)
    fun s l s' hreach _ hs hstep =>
      (step_stepped (scheduler_sound hreach) hstep).granted (scheduler_sound hreach) hs
  have hs : s = {} := hs
  subst hs
  exact fun _ ho => absurd ho List.not_mem_nil

/-! ## What has drifted never ends -/

/-- No transaction on the occurrence goes through. -/
theorem Validated.current {claim : Claim} {expected : OccurrenceState} {t : Tick}
    (hvalid : Validated s.db s.plan claim expected o) (h : s.Sound p) (ht : t ∈ s.ticks)
    (hclaim : claim ∈ t.phase.claims) : drifted s.db s.plan o = false := by
  obtain ⟨-, row, hrow, hid, hschedule⟩ := h.claims t ht claim hclaim
  have hsame : row = o := h.ids.inj hrow (lookup_mem hvalid.found).1
    (hid.trans (lookup_mem hvalid.found).2.symm)
  obtain ⟨schedule, hfound, hrevision⟩ := hvalid.schedule
  obtain ⟨account, haccount, hrevision'⟩ := hvalid.account
  rw [← hschedule, hsame] at hfound
  unfold drifted
  rw [hfound, haccount, Option.any_some, Option.any_some, hrevision, hrevision']
  simp

/-- What the way to a quiet state keeps to: it ends refreshes and occurrences, and
changes no account that an occurrence was claimed under. -/
structure Winds (s s' : SchedulerState) : Prop where
  accounts : ∀ o ∈ s'.plan.occurrences, o.state.isLeased = true → ∀ account,
    s.db.account? o.accountId = some account → account.revision = o.accountRevision →
    s'.db.account? o.accountId = some account
  schedules : s'.plan.schedules = s.plan.schedules
  rows : ∀ o ∈ s'.plan.occurrences, o.state.isLeased = true → o ∈ s.plan.occurrences
  runs : RunsFrom s.db s'.db
  refreshes : ∀ (pid : Nat) (r : Refresh), s.sync.refreshes[pid]? = some r →
    s'.sync.refreshes[pid]? = some r ∨ r.Closed s'.db

/-- One run has been closed, with a tick at most. -/
structure Closed (c : Clockwork) (p : Platform) (s : SchedulerState) (id : Uuid) (s' : SchedulerState) :
    Prop where
  reach : Reaches c p s s'
  winds : Winds s s'
  ticks : s'.ticks.length ≤ s.ticks.length + 1
  rows : ∀ o ∈ s.plan.occurrences, o.state ≠ .syncCreated → o ∈ s'.plan.occurrences
  closed : ∃ done, s'.db.run? id = some done ∧ done.status.isTerminal = true

end Connectors

end SecondBrain
