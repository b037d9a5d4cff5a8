import SecondBrain.AgentRuns.Soundness
import SecondBrain.AgentRuns.EventHistory

/-!
# Results and superseded executors

Recovery gives a stale invocation up and lets a new executor go on, without a
word to the old one. What the old one may do then is decided where it comes
back: its invocation no longer runs, so it leaves its loop, and everything it
does after that is asked of the run alone. While it is fenced there, a result is
stored only when every step has succeeded, once for each run, and a superseded
executor neither stores one nor fails the run another is at work on.

The invariant `Fits` ties the program counter of an executor to the rows: who
has left the loop of a run that still runs has lost its invocation, or every
step has succeeded.
-/

namespace SecondBrain

open Lib

/-- Recovery gave up the invocation the executor works on, or worked on last. -/
def Executor.superseded (e : Executor) (r : RunRecord) : Bool :=
  e.last.any fun l => r.reconciled l.invocationId

def Phase.atWork : Phase → Bool
  | .starting | .done => false
  | .reserving | .calling | .reloaded | .left | .synthesizing | .failing _
  | .completing => true

/-- Waiting for a tool, or back and about to finalise. -/
def Executor.inCall (e : Executor) : Prop := e.phase = .calling ∨ e.phase = .reloaded

/-- The provider is asked, or its failure is about to be recorded. -/
def Phase.asks : Phase → Bool
  | .synthesizing | .failing _ => true
  | .starting | .reserving | .calling | .reloaded | .left | .completing | .done => false

/-- At work on a run it may store a result of. -/
def Executor.working (e : Executor) : Prop := e.kind ≠ .recovery ∧ e.phase.atWork = true

structure Fits (e : Executor) (r : RunRecord) : Prop where
  starting : e.phase = .starting → e.last = none
  begun : e.phase.atWork = true → r.run.state.isEarly = false
  reserving : r.run.state = .running → e.phase = .reserving → ∀ l, e.last = some l →
    r.reconciled l.invocationId = false ∧
      ∃ i ∈ r.invocations, i.id = l.invocationId ∧ i.status.isActive = false
  calling : r.run.state = .running → e.inCall → ∃ l, e.last = some l ∧
    ∃ i ∈ r.invocations, i.id = l.invocationId ∧ i.stepId = l.stepId ∧
      (i.status = .running ∨ r.reconciled i.id = true)
  left : r.run.state = .running → e.phase = .left →
    e.superseded r = true ∨ r.allSucceeded
  asked : r.run.state = .running → e.phase.asks = true →
    e.superseded r = false ∧ r.allSucceeded

theorem Executor.superseded_iff {e : Executor} {r : RunRecord} :
    e.superseded r = true ↔ ∃ l, e.last = some l ∧ r.reconciled l.invocationId = true := by
  unfold Executor.superseded
  cases e.last with
  | none => simp
  | some l => simp

namespace Fits

variable {e : Executor} {r r' : RunRecord}

theorem superseded_congr (h : ∀ id, r'.reconciled id = r.reconciled id) :
    e.superseded r' = e.superseded r := by
  unfold Executor.superseded
  simp only [h]

/-- Nothing is asked of who is not at work. -/
theorem of_idle (hidle : e.phase.atWork = false) (hlast : e.phase = .starting → e.last = none) :
    Fits e r where
  starting := hlast
  begun h := by rw [hidle] at h; cases h
  reserving _ h := by rw [h] at hidle; cases hidle
  calling _ h := by rcases h with h | h <;> rw [h] at hidle <;> cases hidle
  left _ h := by rw [h] at hidle; cases hidle
  asked _ h := by
    cases hphase : e.phase
    all_goals
      rw [hphase] at h hidle
      first
        | (cases hidle; done)
        | cases h

/-- Nothing is asked of a run that is over. -/
theorem of_over (hover : r.run.state.isTerminal = true)
    (hlast : e.phase = .starting → e.last = none) : Fits e r where
  starting := hlast
  begun _ := by cases hstate : r.run.state <;> rw [hstate] at hover <;> first | rfl | cases hover
  reserving h := by rw [h] at hover; cases hover
  calling h := by rw [h] at hover; cases hover
  left h := by rw [h] at hover; cases hover
  asked h := by rw [h] at hover; cases hover

/-- Out of all calls, with what is asked of the phase. -/
theorem moved (hstarting : e.phase ≠ .starting) (hbegun : r.run.state.isEarly = false)
    (hreserving : e.phase ≠ .reserving) (hcall : ¬ e.inCall)
    (hleft : r.run.state = .running → e.phase = .left →
      e.superseded r = true ∨ r.allSucceeded)
    (hasked : r.run.state = .running → e.phase.asks = true →
      e.superseded r = false ∧ r.allSucceeded) : Fits e r where
  starting h := absurd h hstarting
  begun _ := hbegun
  reserving _ h := absurd h hreserving
  calling _ h := absurd h hcall
  left := hleft
  asked := hasked

theorem congr (h : Fits e r) (hsame : SameRows r r') : Fits e r' where
  starting := h.starting
  begun := by rw [hsame.state]; exact h.begun
  reserving := by
    rw [hsame.state, hsame.invocations]
    simpa only [hsame.reconciled] using h.reserving
  calling := by
    rw [hsame.state, hsame.invocations]
    simpa only [hsame.reconciled] using h.calling
  left := by
    rw [hsame.state, superseded_congr hsame.reconciled, RunRecord.allSucceeded, hsame.steps]
    exact h.left
  asked := by
    rw [hsame.state, superseded_congr hsame.reconciled, RunRecord.allSucceeded, hsame.steps]
    exact h.asked

theorem idle_of_early (h : Fits e r) (hearly : r.run.state.isEarly = true) :
    e.phase.atWork = false := by
  cases hwork : e.phase.atWork with
  | false => rfl
  | true => rw [h.begun hwork] at hearly; cases hearly

/-- Work of others fits too, unless it settles the very invocation. -/
theorem frame {k : Option Uuid} (h : Fits e r) (hr : Sound r) (hwork : Work k r r')
    (hother : ∀ id, k = some id → r.run.state = .running → e.inCall →
      ∀ l, e.last = some l → l.invocationId ≠ id) : Fits e r' := by
  cases hwork with
  | finished hover => exact .of_over hover h.starting
  | kept hstate hkept =>
      exact h.congr ⟨hstate, hkept.steps, hkept.invocations, hkept.reconciled⟩
  | early hearly => exact .of_idle (h.idle_of_early hearly) h.starting
  | claimed hready =>
      exact .of_idle (h.idle_of_early (by rw [hready]; rfl)) h.starting
  | @reserved _ _ _ step i f hrun hrun' hunmarked hstep hopen hidle hi hrunning hfresh hf
      hsteps hinvocations =>
      have hopen' : ¬ r.allSucceeded := by
        intro hall
        rw [hall step hstep] at hopen
        cases hopen
      refine ⟨h.starting, fun _ => by rw [hrun']; rfl, fun _ hphase l hl => ?_,
        fun _ hphase => ?_, fun _ hphase => ?_, fun _ hphase => ?_⟩
      · obtain ⟨hquiet, j, hj, hknown⟩ := h.reserving hrun hphase l hl
        rw [hunmarked.reconciled, hinvocations]
        exact ⟨hquiet, j, List.mem_append_left _ hj, hknown⟩
      · obtain ⟨l, hl, j, hj, hid, hjs, hstatus⟩ := h.calling hrun hphase
        rw [hinvocations]
        refine ⟨l, hl, j, List.mem_append_left _ hj, hid, hjs, ?_⟩
        rwa [hunmarked.reconciled]
      · rw [superseded_congr hunmarked.reconciled]
        exact .inl ((h.left hrun hphase).resolve_right hopen')
      · exact absurd (h.asked hrun hphase).2 hopen'
  | @settled _ _ i f g status hrun hrun' hunmarked hi hrunning hstatus hf hg hsteps
      hinvocations =>
      have hwork := hr.of_running hrun
      have hbusy : ¬ r.allSucceeded := by
        intro hall
        have := hwork.idle_of_allSucceeded hall hi
        rw [hrunning] at this
        cases this
      refine ⟨h.starting, fun _ => by rw [hrun']; rfl, fun _ hphase l hl => ?_,
        fun _ hphase => ?_, fun _ hphase => ?_, fun _ hphase => ?_⟩
      · obtain ⟨hquiet, j, hj, hid, hknown⟩ := h.reserving hrun hphase l hl
        rw [hunmarked.reconciled, hinvocations, ← hid]
        exact ⟨hid ▸ hquiet, hwork.inactive_update hi hg hj hknown⟩
      · obtain ⟨l, hl, j, hj, hid, hjs, hstatus⟩ := h.calling hrun hphase
        have hne : j.id ≠ i.id := by
          rw [hid]
          exact hother i.id rfl hrun hphase l hl
        rw [hinvocations]
        refine ⟨l, hl, j, mem_updateInvocation.mpr ⟨j, hj, if_neg hne⟩, hid, hjs, ?_⟩
        rwa [hunmarked.reconciled]
      · rw [superseded_congr hunmarked.reconciled]
        exact .inl ((h.left hrun hphase).resolve_right hbusy)
      · exact absurd (h.asked hrun hphase).2 hbusy
  | @givenUp _ _ _ i g hrun hrun' hi hactive hg hsteps hinvocations hresults hreconciled =>
      have hwork := hr.of_running hrun
      have hbusy : ¬ r.allSucceeded := by
        intro hall
        rw [hwork.idle_of_allSucceeded hall hi] at hactive
        cases hactive
      refine ⟨h.starting, fun _ => by rw [hrun']; rfl, fun _ hphase l hl => ?_,
        fun _ hphase => ?_, fun _ hphase => ?_, fun _ hphase => ?_⟩
      · obtain ⟨hquiet, j, hj, hid, hknown⟩ := h.reserving hrun hphase l hl
        have hne : i.id ≠ l.invocationId := by
          intro hsame
          rw [hwork.invocation_eq hi hj (hsame.trans hid.symm), hknown] at hactive
          cases hactive
        rw [hreconciled, hquiet, hinvocations, Bool.false_or, ← hid]
        exact ⟨beq_eq_false_iff_ne.mpr (hid ▸ hne), hwork.inactive_update hi hg hj hknown⟩
      · obtain ⟨l, hl, j, hj, hid, hjs, hstatus⟩ := h.calling hrun hphase
        rw [hinvocations]
        by_cases hsame : j.id = i.id
        · refine ⟨l, hl, g j, mem_updateInvocation.mpr ⟨j, hj, if_pos hsame⟩, ?_⟩
          rw [hwork.invocation_eq hj hi hsame] at hid hjs ⊢
          exact ⟨hg.1.trans hid, hg.2.1.trans hjs, .inr (by rw [hg.1, hreconciled]; simp)⟩
        · refine ⟨l, hl, j, mem_updateInvocation.mpr ⟨j, hj, if_neg hsame⟩, hid, hjs, ?_⟩
          rw [hreconciled]
          exact hstatus.imp_right fun h => by rw [h]; rfl
      · refine .inl ?_
        have hlost := (h.left hrun hphase).resolve_right hbusy
        obtain ⟨l, hl, hrec⟩ := Executor.superseded_iff.mp hlost
        exact Executor.superseded_iff.mpr ⟨l, hl, by rw [hreconciled, hrec]; rfl⟩
      · exact absurd (h.asked hrun hphase).2 hbusy

end Fits

end SecondBrain
