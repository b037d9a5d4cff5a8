import SecondBrain.AgentRuns.Work

/-!
# What the rows of a run at work have in common

Before it is claimed a run has no invocations. While it runs, its steps are
waiting, running or done, every invocation belongs to a step that was taken,
and an active one to a step that runs, which has no second. `Work` keeps all of
this (`Work.sound`), and nothing is said about a run that is over.
-/

namespace SecondBrain

open Lib

structure Fresh (r : RunRecord) : Prop where
  early : r.run.state.isEarly = true
  stepIds : (r.steps.map (·.id)).Nodup
  invocations : r.invocations = []
  results : r.results = 0
  reconciled : ∀ id, r.reconciled id = false

structure AtWork (r : RunRecord) : Prop where
  running : r.run.state = .running
  stepIds : (r.steps.map (·.id)).Nodup
  invocationIds : (r.invocations.map (·.id)).Nodup
  known : ∀ id, r.reconciled id = true →
    ∃ i ∈ r.invocations, i.id = id ∧ i.status.isActive = false
  live : ∀ s ∈ r.steps, s.status = .pending ∨ s.status = .running ∨ s.status = .succeeded
  owned : ∀ i ∈ r.invocations, ∃ s ∈ r.steps, s.id = i.stepId ∧ s.status ≠ .pending ∧
    (i.status.isActive = true → s.status = .running)
  single : ∀ i ∈ r.invocations, ∀ j ∈ r.invocations, i.stepId = j.stepId →
    i.status.isActive = true → j.status.isActive = true → i = j

inductive Sound (r : RunRecord) : Prop where
  | finished : r.run.state.isTerminal = true → Sound r
  | early : Fresh r → Sound r
  | atWork : AtWork r → Sound r

/-- Every step of the run has succeeded. -/
def RunRecord.allSucceeded (r : RunRecord) : Prop := ∀ s ∈ r.steps, s.status = .succeeded

/-- The run, its steps and its invocations look the same. -/
structure SameRows (r r' : RunRecord) : Prop where
  state : r'.run.state = r.run.state
  steps : r'.steps = r.steps
  invocations : r'.invocations = r.invocations
  reconciled : ∀ id, r'.reconciled id = r.reconciled id

section Rows

variable {r r' : RunRecord}

theorem Sound.of_running (h : Sound r) (hrun : r.run.state = .running) : AtWork r := by
  cases h with
  | finished h => rw [hrun] at h; cases h
  | early h => exact absurd h.early (by rw [hrun]; decide)
  | atWork h => exact h

theorem Sound.of_early (h : Sound r) (hearly : r.run.state.isEarly = true) : Fresh r := by
  cases h with
  | finished h => cases hstate : r.run.state <;> rw [hstate] at h hearly <;> cases h <;> cases hearly
  | early h => exact h
  | atWork h => rw [h.running] at hearly; cases hearly

theorem AtWork.congr (h : AtWork r) (hsame : SameRows r r') : AtWork r' where
  running := hsame.state.trans h.running
  stepIds := by rw [hsame.steps]; exact h.stepIds
  invocationIds := by rw [hsame.invocations]; exact h.invocationIds
  known := by
    intro id hid
    rw [hsame.reconciled] at hid
    rw [hsame.invocations]
    exact h.known id hid
  live := by rw [hsame.steps]; exact h.live
  owned := by rw [hsame.steps, hsame.invocations]; exact h.owned
  single := by rw [hsame.invocations]; exact h.single

theorem AtWork.step_eq (h : AtWork r) {s t : AgentStep} (hs : s ∈ r.steps)
    (ht : t ∈ r.steps) (hid : s.id = t.id) : s = t :=
  List.inj_on_of_nodup_map h.stepIds hs ht hid

theorem AtWork.invocation_eq (h : AtWork r) {i j : ToolInvocation}
    (hi : i ∈ r.invocations) (hj : j ∈ r.invocations) (hid : i.id = j.id) : i = j :=
  List.inj_on_of_nodup_map h.invocationIds hi hj hid

/-- Where every step has succeeded nobody is waiting for an invocation. -/
theorem AtWork.idle_of_allSucceeded (h : AtWork r) (hall : r.allSucceeded)
    {i : ToolInvocation} (hi : i ∈ r.invocations) : i.status.isActive = false := by
  obtain ⟨s, hs, -, -, hactive⟩ := h.owned i hi
  by_contra hstatus
  have hrunning := hactive (by simpa using hstatus)
  rw [hall s hs] at hrunning
  cases hrunning

theorem AtWork.allSucceeded_of_closed (h : AtWork r)
    (hclosed : ∀ s ∈ r.steps, s.status.isOpen = false) : r.allSucceeded := by
  intro s hs
  rcases h.live s hs with hpending | hrunning | hdone
  · have := hclosed s hs
    rw [hpending] at this
    cases this
  · have := hclosed s hs
    rw [hrunning] at this
    cases this
  · exact hdone

/-! ## Updated rows -/

theorem mem_updateStep {id : Uuid} {f : AgentStep → AgentStep} {s : AgentStep} :
    s ∈ (r.updateStep id f).steps ↔ ∃ t ∈ r.steps, (if t.id = id then f t else t) = s := by
  rw [RunRecord.updateStep, List.mem_map]

theorem mem_updateInvocation {id : Uuid} {g : ToolInvocation → ToolInvocation}
    {i : ToolInvocation} : i ∈ (r.updateInvocation id g).invocations ↔
      ∃ j ∈ r.invocations, (if j.id = id then g j else j) = i := by
  rw [RunRecord.updateInvocation, List.mem_map]

theorem updateStep_ids {id : Uuid} {f : AgentStep → AgentStep} (hf : ∀ s, (f s).id = s.id) :
    (r.updateStep id f).steps.map (·.id) = r.steps.map (·.id) := by
  rw [RunRecord.updateStep, List.map_map]
  refine List.map_congr_left fun s _ => ?_
  simp only [Function.comp_apply]
  split
  · exact hf s
  · rfl

/-- An invocation of the updated record is the updated one or another. -/
theorem AtWork.cases_updateInvocation (h : AtWork r) {i j : ToolInvocation}
    {g : ToolInvocation → ToolInvocation} (hi : i ∈ r.invocations)
    (hj : j ∈ (r.updateInvocation i.id g).invocations) :
    j = g i ∨ j ∈ r.invocations ∧ j.id ≠ i.id := by
  obtain ⟨k, hk, rfl⟩ := mem_updateInvocation.mp hj
  split
  · next hid => exact .inl (by rw [h.invocation_eq hk hi hid])
  · next hid => exact .inr ⟨hk, hid⟩

theorem AtWork.updateInvocation_ids (h : AtWork r) {i : ToolInvocation}
    {g : ToolInvocation → ToolInvocation} (hi : i ∈ r.invocations) (hg : (g i).id = i.id) :
    (r.updateInvocation i.id g).invocations.map (·.id) = r.invocations.map (·.id) := by
  rw [RunRecord.updateInvocation, List.map_map]
  refine List.map_congr_left fun j hj => ?_
  simp only [Function.comp_apply]
  split
  · next hid => rw [h.invocation_eq hj hi hid, hg]
  · rfl

/-- An active invocation of the updated record was there before. -/
theorem AtWork.active_of_update (h : AtWork r) {i j : ToolInvocation}
    {g : ToolInvocation → ToolInvocation} (hi : i ∈ r.invocations)
    (hg : (g i).status.isActive = false)
    (hj : j ∈ (r.updateInvocation i.id g).invocations) (hactive : j.status.isActive = true) :
    j ∈ r.invocations ∧ j.id ≠ i.id := by
  rcases h.cases_updateInvocation hi hj with rfl | hj
  · rw [hg] at hactive
    cases hactive
  · exact hj

/-- What is inactive stays so when another invocation becomes it. -/
theorem AtWork.inactive_update (h : AtWork r) {i j : ToolInvocation}
    {g : ToolInvocation → ToolInvocation} (hi : i ∈ r.invocations)
    (hg : (g i).id = i.id ∧ (g i).stepId = i.stepId ∧ (g i).status.isActive = false)
    (hj : j ∈ r.invocations) (hidle : j.status.isActive = false) :
    ∃ j' ∈ (r.updateInvocation i.id g).invocations,
      j'.id = j.id ∧ j'.status.isActive = false := by
  by_cases hid : j.id = i.id
  · refine ⟨g j, mem_updateInvocation.mpr ⟨j, hj, if_pos hid⟩, ?_⟩
    rw [h.invocation_eq hj hi hid]
    exact ⟨hg.1, hg.2.2⟩
  · exact ⟨j, mem_updateInvocation.mpr ⟨j, hj, if_neg hid⟩, rfl, hidle⟩

end Rows

/-! ## The changes of a run at work -/

section Changes

variable {r r' : RunRecord} {step : AgentStep} {i : ToolInvocation}
  {f : AgentStep → AgentStep} {g : ToolInvocation → ToolInvocation} {status : StepStatus}

theorem AtWork.reserve (h : AtWork r) (hrun : r'.run.state = .running)
    (hreconciled : ∀ id, r'.reconciled id = r.reconciled id) (hstep : step ∈ r.steps)
    (hopen : step.status.isOpen = true)
    (hidle : step.status = .running →
      ∀ j ∈ r.invocations, j.stepId = step.id → j.status.isActive = false)
    (hi : i.stepId = step.id) (hfresh : ∀ j ∈ r.invocations, j.id ≠ i.id)
    (hf : ∀ s, (f s).id = s.id ∧ (f s).status = .running)
    (hsteps : r'.steps = (r.updateStep step.id f).steps)
    (hinvocations : r'.invocations = r.invocations ++ [i]) : AtWork r' := by
  -- neither a waiting step nor one to be retried has an active invocation
  have hquiet : ∀ j ∈ r.invocations, j.stepId = step.id → j.status.isActive = false := by
    intro j hj hjs
    obtain ⟨s, hs, hsid, hpending, hactive⟩ := h.owned j hj
    obtain rfl := h.step_eq hs hstep (hsid.trans hjs)
    by_contra hstatus
    exact hstatus (hidle (hactive (by simpa using hstatus)) j hj hjs)
  refine ⟨hrun, ?_, ?_, ?_, ?_, ?_, ?_⟩
  · rw [hsteps, updateStep_ids fun s => (hf s).1]
    exact h.stepIds
  · rw [hinvocations, List.map_append, List.nodup_append]
    refine ⟨h.invocationIds, List.nodup_singleton _, ?_⟩
    intro a ha b hb
    obtain ⟨j, hj, rfl⟩ := List.mem_map.mp ha
    rw [List.map_singleton, List.mem_singleton] at hb
    exact hb ▸ hfresh j hj
  · intro id hid
    rw [hreconciled] at hid
    obtain ⟨j, hj, hknown⟩ := h.known id hid
    exact ⟨j, hinvocations ▸ List.mem_append_left _ hj, hknown⟩
  · intro s hs
    obtain ⟨t, ht, rfl⟩ := mem_updateStep.mp (hsteps ▸ hs)
    split
    · exact .inr (.inl (hf t).2)
    · exact h.live t ht
  · intro j hj
    rw [hinvocations, List.mem_append, List.mem_singleton] at hj
    rw [hsteps]
    rcases hj with hj | rfl
    · obtain ⟨s, hs, hsid, hpending, hactive⟩ := h.owned j hj
      by_cases hid : s.id = step.id
      · refine ⟨f s, mem_updateStep.mpr ⟨s, hs, if_pos hid⟩, ?_⟩
        rw [(hf s).1, (hf s).2]
        exact ⟨hsid, by decide, fun _ => rfl⟩
      · exact ⟨s, mem_updateStep.mpr ⟨s, hs, if_neg hid⟩, hsid, hpending, hactive⟩
    · refine ⟨f step, mem_updateStep.mpr ⟨step, hstep, if_pos rfl⟩, ?_⟩
      rw [(hf step).1, (hf step).2]
      exact ⟨hi.symm, by decide, fun _ => rfl⟩
  · intro j hj k hk hsame hja hka
    rw [hinvocations, List.mem_append, List.mem_singleton] at hj hk
    rcases hj with hj | rfl <;> rcases hk with hk | rfl
    · exact h.single j hj k hk hsame hja hka
    · rw [hquiet j hj (hsame.trans hi)] at hja
      cases hja
    · rw [hquiet k hk (hsame.symm.trans hi)] at hka
      cases hka
    · rfl

/-- What a change of one invocation keeps that makes it inactive. -/
theorem AtWork.known_update (h : AtWork r) (hi : i ∈ r.invocations)
    (hg : (g i).id = i.id ∧ (g i).stepId = i.stepId ∧ (g i).status.isActive = false)
    {id : Uuid} (hid : r.reconciled id = true ∨ i.id = id) :
    ∃ j ∈ (r.updateInvocation i.id g).invocations, j.id = id ∧ j.status.isActive = false := by
  rcases hid with hid | rfl
  · obtain ⟨j, hj, rfl, hknown⟩ := h.known id hid
    exact h.inactive_update hi hg hj hknown
  · exact ⟨g i, mem_updateInvocation.mpr ⟨i, hi, if_pos rfl⟩, hg.1, hg.2.2⟩

theorem AtWork.single_update (h : AtWork r) (hi : i ∈ r.invocations)
    (hg : (g i).status.isActive = false) :
    ∀ j ∈ (r.updateInvocation i.id g).invocations,
      ∀ k ∈ (r.updateInvocation i.id g).invocations, j.stepId = k.stepId →
        j.status.isActive = true → k.status.isActive = true → j = k := by
  intro j hj k hk hsame hja hka
  exact h.single j (h.active_of_update hi hg hj hja).1 k (h.active_of_update hi hg hk hka).1
    hsame hja hka

theorem AtWork.settle (h : AtWork r) (hrun : r'.run.state = .running)
    (hreconciled : ∀ id, r'.reconciled id = r.reconciled id) (hi : i ∈ r.invocations)
    (hactive : i.status.isActive = true) (hstatus : status = .running ∨ status = .succeeded)
    (hf : ∀ s, (f s).id = s.id ∧ (f s).status = status)
    (hg : (g i).id = i.id ∧ (g i).stepId = i.stepId ∧ (g i).status.isActive = false)
    (hsteps : r'.steps = (r.updateStep i.stepId f).steps)
    (hinvocations : r'.invocations = (r.updateInvocation i.id g).invocations) :
    AtWork r' := by
  have htaken : status ≠ .pending := by rcases hstatus with rfl | rfl <;> decide
  refine ⟨hrun, ?_, ?_, ?_, ?_, ?_, ?_⟩
  · rw [hsteps, updateStep_ids fun s => (hf s).1]
    exact h.stepIds
  · rw [hinvocations, h.updateInvocation_ids hi hg.1]
    exact h.invocationIds
  · intro id hid
    rw [hreconciled] at hid
    rw [hinvocations]
    exact h.known_update hi hg (.inl hid)
  · intro s hs
    obtain ⟨t, ht, rfl⟩ := mem_updateStep.mp (hsteps ▸ hs)
    split
    · rw [(hf t).2]
      exact .inr hstatus
    · exact h.live t ht
  · intro j hj
    rw [hinvocations] at hj
    rw [hsteps]
    rcases h.cases_updateInvocation hi hj with rfl | ⟨hj, hid⟩
    · obtain ⟨s, hs, hsid, -, -⟩ := h.owned i hi
      refine ⟨f s, mem_updateStep.mpr ⟨s, hs, if_pos hsid⟩, ?_⟩
      rw [(hf s).1, (hf s).2, hg.2.1, hg.2.2]
      exact ⟨hsid, htaken, fun h => nomatch h⟩
    · obtain ⟨s, hs, hsid, hpending, hrunning⟩ := h.owned j hj
      by_cases hown : s.id = i.stepId
      · -- the step of `i` has no other active invocation
        refine ⟨f s, mem_updateStep.mpr ⟨s, hs, if_pos hown⟩, ?_⟩
        rw [(hf s).1, (hf s).2]
        refine ⟨hsid, htaken, fun hja => ?_⟩
        have hsame := h.single j hj i hi (hsid.symm.trans hown) hja hactive
        exact absurd (congrArg ToolInvocation.id hsame) hid
      · exact ⟨s, mem_updateStep.mpr ⟨s, hs, if_neg hown⟩, hsid, hpending, hrunning⟩
  · rw [hinvocations]
    exact h.single_update hi hg.2.2

theorem AtWork.giveUp (h : AtWork r) (hrun : r'.run.state = .running)
    (hi : i ∈ r.invocations)
    (hg : (g i).id = i.id ∧ (g i).stepId = i.stepId ∧ (g i).status.isActive = false)
    (hsteps : r'.steps = r.steps)
    (hinvocations : r'.invocations = (r.updateInvocation i.id g).invocations)
    (hreconciled : ∀ id, r'.reconciled id = (r.reconciled id || i.id == id)) :
    AtWork r' := by
  refine ⟨hrun, by rw [hsteps]; exact h.stepIds, ?_, ?_, by rw [hsteps]; exact h.live, ?_, ?_⟩
  · rw [hinvocations, h.updateInvocation_ids hi hg.1]
    exact h.invocationIds
  · intro id hid
    rw [hreconciled, Bool.or_eq_true, beq_iff_eq] at hid
    rw [hinvocations]
    exact h.known_update hi hg hid
  · intro j hj
    rw [hinvocations] at hj
    rw [hsteps]
    rcases h.cases_updateInvocation hi hj with rfl | ⟨hj, -⟩
    · obtain ⟨s, hs, hsid, hpending, -⟩ := h.owned i hi
      refine ⟨s, hs, hsid.trans hg.2.1.symm, hpending, fun hactive => ?_⟩
      rw [hg.2.2] at hactive
      cases hactive
    · exact h.owned j hj
  · rw [hinvocations]
    exact h.single_update hi hg.2.2

end Changes

theorem Work.sound {k : Option Uuid} {r r' : RunRecord} (h : Work k r r') (hr : Sound r) :
    Sound r' := by
  cases h with
  | finished hover => exact .finished hover
  | kept hstate hkept =>
      have hsame : SameRows r r' :=
        ⟨hstate, hkept.steps, hkept.invocations, hkept.reconciled⟩
      cases hr with
      | finished h => exact .finished (hstate ▸ h)
      | early h =>
          exact .early ⟨hstate ▸ h.early, by rw [hkept.steps]; exact h.stepIds,
            hkept.invocations.trans h.invocations, hkept.results.trans h.results,
            fun id => (hkept.reconciled id).trans (h.reconciled id)⟩
      | atWork h => exact .atWork (h.congr hsame)
  | early hearly hearly' hunmarked hinvocations hsteps =>
      have h := hr.of_early hearly
      exact .early ⟨hearly', hsteps h.stepIds, hinvocations.trans h.invocations,
        hunmarked.results.trans h.results,
        fun id => (hunmarked.reconciled id).trans (h.reconciled id)⟩
  | claimed hready hrun hkept hpending =>
      have h := hr.of_early (by rw [hready]; rfl)
      have hnone : r'.invocations = [] := hkept.invocations.trans h.invocations
      refine .atWork ⟨hrun, by rw [hkept.steps]; exact h.stepIds, by simp [hnone], ?_, ?_, ?_, ?_⟩
      · intro id hid
        rw [hkept.reconciled, h.reconciled] at hid
        cases hid
      · rw [hkept.steps]
        exact fun s hs => .inl (hpending s hs)
      · simp [hnone]
      · simp [hnone]
  | reserved hrun hrun' hunmarked hstep hopen hidle hi _ hfresh hf hsteps hinvocations =>
      exact .atWork ((hr.of_running hrun).reserve hrun' hunmarked.reconciled hstep hopen
        hidle hi hfresh hf hsteps hinvocations)
  | settled hrun hrun' hunmarked hi hrunning hstatus hf hg hsteps hinvocations =>
      exact .atWork ((hr.of_running hrun).settle hrun' hunmarked.reconciled hi
        (by rw [hrunning]; rfl) hstatus hf hg hsteps hinvocations)
  | givenUp hrun hrun' hi _ hg hsteps hinvocations _ hreconciled =>
      exact .atWork ((hr.of_running hrun).giveUp hrun' hi hg hsteps hinvocations hreconciled)

theorem Stores.sound {r r' : RunRecord} (h : Stores r r') (hr : Sound r) : Sound r' := by
  cases h with
  | finished hover => exact .finished hover
  | stored hrun hrun' _ hreconciled hsteps hinvocations =>
      exact .atWork ((hr.of_running hrun).congr
        ⟨hrun'.trans hrun.symm, hsteps, hinvocations, hreconciled⟩)

end SecondBrain
