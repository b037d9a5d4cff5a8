import SecondBrain.AgentRuns.Order

/-!
# Every operation is a turn

Each operation of the agent runtime, on the record as it is, does to the rows
what `Turn` allows. The condition under which it leaves an ended run idle is the
operation's own: the public request and the deadline always do, a reservation
does for a run that was claimed with the tools it still has, a synthesis where
every step has succeeded, and recovery unless it is ambiguous.
-/

namespace SecondBrain

open Lib

section Operations

variable {build : Build} {B : Build → Prop} {clean : Prop} {r : RunRecord} {now : Instant}

theorem Turn.refl (r : RunRecord) : Turn B clean r r := .kept rfl rfl rfl

theorem appendAgentEvent_rows {e : AgentEvent} :
    Ensures (appendAgentEvent r e) fun r' =>
      r'.run = r.run ∧ r'.steps = r.steps ∧ r'.invocations = r.invocations := by
  intro r' h
  obtain ⟨-, rfl⟩ := appendAgentEvent_ok h
  exact ⟨rfl, rfl, rfl⟩

theorem transitionRun_rows (r : RunRecord) (expectedState : AgentRunState)
    (expectedRevision : Nat) (newState : AgentRunState) (now : Instant)
    (code : Option String) :
    Ensures (transitionRun r expectedState expectedRevision newState now code) fun r' =>
      r'.run.state = newState ∧ r'.steps = r.steps ∧ r'.invocations = r.invocations :=
  (transitionRun_kept r expectedState expectedRevision newState now code).mono
    fun _ h => ⟨h.1, h.2.steps, h.2.invocations⟩

/-- Rows were closed, and then the run ends without having completed. -/
theorem transitionRun_ended {r₀ : RunRecord} {expectedState newState : AgentRunState}
    {expectedRevision : Nat} {code : Option String} (hcloses : Closes r₀ r)
    (hterm : newState.isTerminal = true) (hdone : newState ≠ .completed)
    (hidle : clean → r₀.run.state.isTerminal = false → Idle r) :
    Ensures (transitionRun r expectedState expectedRevision newState now code)
      (Turn B clean r₀) := by
  refine (transitionRun_rows r _ _ _ _ _).mono fun r' h => ?_
  obtain ⟨hstate, hsteps, hinvocations⟩ := h
  have hsame : Closes r r' := .of_rows hsteps hinvocations
  refine .ended (hstate ▸ hterm) (hcloses.trans hsame) ?_ fun hc ht => hsame.idle (hidle hc ht)
  intro hcompleted
  exact absurd (hstate.symm.trans hcompleted) hdone

/-! ## Rows by their keys -/

theorem getStep_mem {id : Uuid} {s : AgentStep} (h : r.getStep id = some s) :
    s ∈ r.steps ∧ s.id = id :=
  ⟨List.mem_of_find?_eq_some h, by simpa using List.find?_some h⟩

theorem getInvocation_mem {id : Uuid} {i : ToolInvocation} (h : r.getInvocation id = some i) :
    i ∈ r.invocations ∧ i.id = id :=
  ⟨List.mem_of_find?_eq_some h, by simpa using List.find?_some h⟩

theorem ordinalOf_isSome {s : AgentStep} {id : Uuid} (hs : s ∈ r.steps) (hid : s.id = id) :
    (r.ordinalOf id).isSome = true := by
  rw [RunRecord.ordinalOf, Option.isSome_map, RunRecord.getStep, List.find?_isSome]
  exact ⟨s, hs, by simpa using hid⟩

/-- Every invocation is listed. -/
theorem Orderly.listed (hr : Orderly r) {i : ToolInvocation} (hi : i ∈ r.invocations) :
    i ∈ r.listStepInvocations := by
  obtain ⟨s, hs, hid⟩ := hr.owned i hi
  exact RunRecord.mem_listStepInvocations.mpr ⟨hi, ordinalOf_isSome hs hid⟩

theorem Orderly.listed_countP (hr : Orderly r) (p : ToolInvocation → Bool) :
    r.listStepInvocations.countP p = r.invocations.countP p := by
  have hall : r.invocations.filter (fun i => (r.ordinalOf i.stepId).isSome) = r.invocations := by
    rw [List.filter_eq_self]
    intro i hi
    obtain ⟨s, hs, hid⟩ := hr.owned i hi
    exact ordinalOf_isSome hs hid
  rw [RunRecord.listStepInvocations, hall]
  exact (List.perm_insertionSort _ _).countP_eq p

/-- Giving one step another status closes the rows, if it was open. -/
theorem closes_updateStep (hr : Orderly r) {step : AgentStep} {f : AgentStep → AgentStep}
    (hstep : step ∈ r.steps) (hf : step.Closes (f step)) :
    Closes r (r.updateStep step.id f) := by
  refine ⟨⟨_, rfl, fun s hs => ?_⟩, ⟨id, (List.map_id _).symm, fun i _ => .refl i⟩⟩
  split
  · next hid =>
      obtain rfl := hr.step_eq hs hstep hid
      exact hf
  · exact .refl s

theorem closes_updateInvocation (hr : Orderly r) {i : ToolInvocation}
    {g : ToolInvocation → ToolInvocation} (hi : i ∈ r.invocations) (hg : i.Ends (g i)) :
    Closes r (r.updateInvocation i.id g) := by
  refine ⟨⟨id, (List.map_id _).symm, fun s _ => .refl s⟩, ⟨_, rfl, fun j hj => ?_⟩⟩
  split
  · next hid =>
      obtain rfl := hr.invocation_eq hj hi hid
      exact hg
  · exact .refl j

/-! ## Cancellation and planning -/

theorem active_ne_succeeded {i : ToolInvocation} (h : i.status.isActive = true) :
    i.status ≠ .succeeded := by
  intro hstatus
  rw [hstatus] at h
  cases h

/-- The loop discards the active ones of the list. -/
theorem cancelInvocations_closes {b : RunRecord}
    {l : List ToolInvocation} (hl : ∀ i ∈ l, ∀ j ∈ b.invocations, j.id = i.id →
      i.status.isActive = true → j.status ≠ .succeeded) :
    Ensures (l.foldlM (cancelInvocation now) b) fun r' => r'.run = b.run ∧ Closes b r' ∧
      ∀ i ∈ l, i.status.isActive = true →
        ∀ j ∈ r'.invocations, j.id = i.id → j.status.isActive = false := by
  induction l generalizing b with
  | nil => exact Ensures.pure_iff.mpr ⟨rfl, .refl b, fun i hi => absurd hi List.not_mem_nil⟩
  | cons i rest ih =>
      rw [List.foldlM_cons]
      have hone : Ensures (cancelInvocation now b i) fun b' => b'.run = b.run ∧ Closes b b' ∧
          (i.status.isActive = true →
            ∀ j ∈ b'.invocations, j.id = i.id → j.status.isActive = false) := by
        unfold cancelInvocation
        refine .ite (fun hactive => ?_) fun hidle =>
          Ensures.ok_iff.mpr ⟨rfl, .refl b, fun h => absurd h hidle⟩
        refine appendAgentEvent_rows.mono fun b' h => ?_
        obtain ⟨hrun, hsteps, hinvocations⟩ := h
        refine ⟨hrun, ⟨⟨id, by rw [hsteps, List.map_id]; rfl, fun s _ => .refl s⟩,
          ⟨_, hinvocations, fun j hj => ?_⟩⟩, fun _ j hj hid => ?_⟩
        · split
          · next hid =>
              exact ⟨rfl, .inr ⟨hl i List.mem_cons_self j hj hid hactive, nofun, rfl⟩⟩
          · exact .refl j
        · rw [hinvocations] at hj
          obtain ⟨k, -, rfl⟩ := mem_updateInvocation.mp hj
          split
          · rfl
          · next hne =>
              rw [if_neg hne] at hid
              exact absurd hid hne
      refine hone.bind fun b' hb' => ?_
      obtain ⟨hrun, hcloses, hgone⟩ := hb'
      refine (ih (b := b') ?_).mono fun r' h => ?_
      · intro k hk j hj hid hactive hdone
        obtain ⟨j₀, hj₀, hends⟩ := hcloses.invocation_of hj
        exact hl k (List.mem_cons_of_mem i hk) j₀ hj₀ (hends.id_eq.symm.trans hid) hactive
          (hends.succeeded_iff.mp hdone)
      · obtain ⟨hrun', hcloses', hrest⟩ := h
        refine ⟨hrun'.trans hrun, hcloses.trans hcloses', fun k hk hactive j hj hid => ?_⟩
        rcases List.mem_cons.mp hk with rfl | hk
        · obtain ⟨j₀, hj₀, hends⟩ := hcloses'.invocation_of hj
          by_contra hstays
          have hbefore := hends.active (by simpa using hstays)
          rw [hgone hactive j₀ hj₀ (hends.id_eq.symm.trans hid)] at hbefore
          cases hbefore
        · exact hrest k hk hactive j hj hid

theorem cancelOpen_closes (s : AgentStep) :
    s.Closes (s.cancelOpen now) ∧ (s.cancelOpen now).status ≠ .running := by
  unfold AgentStep.cancelOpen
  split
  · next hopen => exact ⟨⟨rfl, .inr ⟨hopen, rfl⟩⟩, nofun⟩
  · next hclosed =>
      refine ⟨.refl s, fun hrunning => hclosed ?_⟩
      rw [hrunning]
      rfl

theorem closes_cancelOpen (r : RunRecord) :
    Closes r { r with steps := r.steps.map (·.cancelOpen now) } :=
  ⟨⟨_, rfl, fun s _ => (cancelOpen_closes s).1⟩, ⟨id, (List.map_id _).symm, fun i _ => .refl i⟩⟩

theorem cancelRun_turn (hr : Orderly r) (expectedRevision : Nat) :
    Ensures (cancelRun r expectedRevision now) (Turn B clean r) := by
  unfold cancelRun
  refine .ite (fun _ => Ensures.ok_iff.mpr (.refl r)) fun _ => ?_
  refine .ite (fun _ => .error _) fun _ => .ite (fun _ => .error _) fun _ => ?_
  refine (cancelInvocations_closes ?_).bind fun r' h => ?_
  · intro i hi j hj hid hactive
    obtain rfl := hr.invocation_eq hj (RunRecord.mem_listStepInvocations.mp hi).1 hid
    exact active_ne_succeeded hactive
  · obtain ⟨-, hcloses, hgone⟩ := h
    refine transitionRun_ended (hcloses.trans (closes_cancelOpen r')) rfl nofun fun _ _ => ?_
    refine ⟨fun s' hs' => ?_, fun i' hi' => ?_⟩
    · obtain ⟨s, -, rfl⟩ := List.mem_map.mp hs'
      exact (cancelOpen_closes s).2
    · obtain ⟨i, hi, hends⟩ := hcloses.invocation_of hi'
      by_contra hstays
      rw [Bool.not_eq_false] at hstays
      rw [hgone i (hr.listed hi) (hends.active hstays) i' hi' hends.id_eq] at hstays
      cases hstays

/-- An early run has nothing going on. -/
theorem Orderly.ended_early {expectedState newState : AgentRunState} {expectedRevision : Nat}
    {code : Option String} (hr : Orderly r) (hearly : r.run.state.isEarly = true)
    (hterm : newState.isTerminal = true) (hdone : newState ≠ .completed) :
    Ensures (transitionRun r expectedState expectedRevision newState now code)
      (Turn B clean r) :=
  transitionRun_ended (.refl r) hterm hdone fun _ _ => hr.idle_of_early hearly

theorem claimPlanning_turn (hr : Orderly r) (expectedRevision : Nat)
    (allowed : Option (List ToolIdentity)) :
    Ensures (claimPlanning build r expectedRevision allowed now)
      fun p => Turn B clean r p.2 := by
  unfold claimPlanning
  refine .ite (fun _ => .error _) fun _ => .ite (fun _ => ?_) fun _ => ?_
  · exact .ite (fun _ => Ensures.ok_iff.mpr (.refl r)) fun _ => .error _
  · refine .ite (fun _ => .error _) fun _ => .ite (fun _ => .error _) fun _ => ?_
    refine .ite (fun _ => .error _) fun _ => .ite (fun _ => .error _) fun hcreated => ?_
    rw [not_not] at hcreated
    refine (transitionRun_rows r _ _ .planning _ _).bind fun r' h => ?_
    obtain ⟨hstate, hsteps, hinvocations⟩ := h
    refine Ensures.pure_iff.mpr (.planned [] ?_ ?_ ?_ ?_ ?_ ?_ hinvocations)
    · rw [hcreated]
      rfl
    · rw [hstate]
      rfl
    · rw [hsteps, List.append_nil]
    · exact fun s hs => absurd hs List.not_mem_nil
    · rw [hsteps]
      exact hr.stepIds
    · rw [hsteps]
      exact hr.ordinals

/-- A row is added whose identifier and ordinal nobody has. -/
theorem insertAgentStep_keys {s : AgentStep} :
    Ensures (insertAgentStep r s) fun r' => r'.run = r.run ∧
      r'.steps = r.steps ++ [s] ∧ r'.invocations = r.invocations ∧
      ((r.steps.map (·.id)).Nodup → (r'.steps.map (·.id)).Nodup) ∧
      ((r.steps.map (·.ordinal)).Nodup → (r'.steps.map (·.ordinal)).Nodup) := by
  unfold insertAgentStep
  cases hadmitted : r.admitsStep s with
  | error e => exact .error _
  | ok _ =>
      have hfree : r.steps.any (fun t => t.ordinal == s.ordinal || t.id == s.id) = false := by
        unfold RunRecord.admitsStep at hadmitted
        simp only [] at hadmitted
        split at hadmitted
        · cases hadmitted
        · split at hadmitted
          · cases hadmitted
          · split at hadmitted
            · cases hadmitted
            · next h => simpa using h
      refine Ensures.ok_iff.mpr ⟨rfl, rfl, rfl, fun hnodup => ?_, fun hnodup => ?_⟩
      · rw [List.map_append, List.nodup_append]
        refine ⟨hnodup, List.nodup_singleton _, ?_⟩
        rintro id hid id' hid' rfl
        obtain ⟨t, ht, rfl⟩ := List.mem_map.mp hid
        rw [List.map_singleton, List.mem_singleton] at hid'
        have hother := List.any_eq_false.mp hfree t ht
        simp [hid'] at hother
      · rw [List.map_append, List.nodup_append]
        refine ⟨hnodup, List.nodup_singleton _, ?_⟩
        rintro k hk k' hk' rfl
        obtain ⟨t, ht, rfl⟩ := List.mem_map.mp hk
        rw [List.map_singleton, List.mem_singleton] at hk'
        have hother := List.any_eq_false.mp hfree t ht
        simp [hk'] at hother

theorem finalizePlan_turn (hr : Orderly r) (claim : PlanningClaim)
    (rows : List (ValidatedStep × Uuid)) :
    Ensures (finalizePlan r claim rows now) (Turn B clean r) := by
  unfold finalizePlan
  refine .ite (fun _ => .error _) fun hstate => ?_
  rw [not_or, not_not] at hstate
  let P : RunRecord → Prop := fun r' => r'.invocations = r.invocations ∧
    (∃ new, r'.steps = r.steps ++ new ∧ ∀ s ∈ new, s.status = .pending) ∧
    (r'.steps.map (·.id)).Nodup ∧ (r'.steps.map (·.ordinal)).Nodup
  refine Ensures.bind (P := P) ?_ fun r' hr' => ?_
  · refine .foldlM (fun b row hb => ?_)
      ⟨rfl, ⟨[], (List.append_nil _).symm, fun s hs => absurd hs List.not_mem_nil⟩, hr.stepIds,
        hr.ordinals⟩
    refine insertAgentStep_keys.mono fun b' hb' => ?_
    obtain ⟨hinvocations, ⟨new, hnew, hpending⟩, hids, hordinals⟩ := hb
    obtain ⟨-, hsteps, hinvocations', hids', hordinals'⟩ := hb'
    refine ⟨hinvocations'.trans hinvocations, ⟨new ++ [row.1.toRow row.2], ?_, ?_⟩,
      hids' hids, hordinals' hordinals⟩
    · rw [hsteps, hnew, List.append_assoc]
    · intro s hs
      rcases List.mem_append.mp hs with hs | hs
      · exact hpending s hs
      · rw [List.mem_singleton.mp hs]
        rfl
  · obtain ⟨hinvocations, ⟨new, hnew, hpending⟩, hids, hordinals⟩ := hr'
    refine (transitionRun_rows r' _ _ .ready _ _).mono fun r'' h => ?_
    obtain ⟨hready, hsteps, hinvocations'⟩ := h
    refine .planned new ?_ ?_ (hsteps.trans hnew) hpending ?_ ?_
      (hinvocations'.trans hinvocations)
    · rw [hstate.1]
      rfl
    · rw [hready]
      rfl
    · rw [hsteps]
      exact hids
    · rw [hsteps]
      exact hordinals

theorem finalizeFailure_turn (hr : Orderly r) (claim : PlanningClaim) (code : String) :
    Ensures (finalizeFailure r claim code now) fun p => Turn B clean r p.2 := by
  unfold finalizeFailure
  refine .ite (fun _ => Ensures.ok_iff.mpr (.refl r)) fun hstate => ?_
  rw [not_or, not_not] at hstate
  exact .answer (hr.ended_early (by rw [hstate.1]; rfl) rfl nofun)

/-! ## Execution -/

theorem claimExecution_turn (hr : Orderly r) (expectedRevision : Nat)
    (allowed : Option (List ToolIdentity)) :
    Ensures (claimExecution build r expectedRevision allowed now)
      fun p => Turn B clean r p.2 := by
  unfold claimExecution
  refine .ite (fun _ => .error _) fun _ => .ite (fun _ => ?_) fun _ => ?_
  · exact .ite (fun _ => Ensures.ok_iff.mpr (.refl r)) fun _ => .error _
  refine .ite (fun _ => ?_) fun _ => ?_
  · exact .ite (fun _ => .error _) fun _ => .error _
  refine .ite (fun _ => .error _) fun _ => .ite (fun _ => .error _) fun hready => ?_
  rw [not_not] at hready
  refine .ite (fun _ => .error _) fun _ => .ite (fun _ => .error _) fun hknown => ?_
  refine .ite (fun _ => ?_) fun _ => ?_
  · exact .answer (hr.ended_early (by rw [hready]; rfl) rfl nofun)
  · simp only []
    refine .ite (fun _ => .error _) fun _ => ?_
    refine (transitionRun_rows r _ _ .running _ _).bind fun r' h => Ensures.pure_iff.mpr ?_
    exact .claimed hready h.1 (by simpa using hknown) h.2.1 h.2.2

/-- Every invocation of a step that is there. -/
def Owned (r : RunRecord) : Prop := ∀ i ∈ r.invocations, ∃ s ∈ r.steps, s.id = i.stepId

theorem discardActive_closes (code : String) :
    Closes r (r.discardActive code now) ∧
      (Owned r → ∀ i ∈ (r.discardActive code now).invocations, i.status.isActive = false) := by
  refine ⟨⟨⟨id, (List.map_id _).symm, fun s _ => .refl s⟩, ⟨_, rfl, fun i _ => ?_⟩⟩,
    fun howned i' hi' => ?_⟩
  · split
    · next hactive => exact ⟨rfl, .inr ⟨active_ne_succeeded hactive.1, nofun, rfl⟩⟩
    · exact .refl i
  · obtain ⟨i, hi, rfl⟩ := List.mem_map.mp hi'
    obtain ⟨s, hs, hid⟩ := howned i hi
    split
    · rfl
    · next hidle =>
        rw [not_and] at hidle
        by_contra hactive
        exact hidle (by simpa using hactive) (ordinalOf_isSome hs hid)

theorem expireExecution_turn {r₀ : RunRecord} (hcloses : Closes r₀ r) (howned : Owned r) :
    Ensures (expireExecution r now) (Turn B clean r₀) := by
  unfold expireExecution
  simp only []
  obtain ⟨hdiscard, hidle⟩ : Closes r (r.discardActive "deadline_expired" now) ∧ _ :=
    discardActive_closes "deadline_expired"
  refine transitionRun_ended ((hcloses.trans hdiscard).trans (closes_cancelOpen _)) rfl nofun
    fun _ _ => ⟨fun s' hs' => ?_, hidle howned⟩
  obtain ⟨s, -, rfl⟩ := List.mem_map.mp hs'
  exact (cancelOpen_closes s).2

/-- The step is failed, and with it all that went on. -/
theorem failed_idle {step : AgentStep} {f : AgentStep → AgentStep}
    (hf : ∀ s, (f s).status = .failed)
    (hrunning : ∀ s ∈ r.steps, s.status = .running → s.id = step.id)
    (hquiet : ∀ i ∈ r.invocations, i.status.isActive = false) :
    Idle (r.updateStep step.id f) := by
  refine ⟨fun s' hs' => ?_, hquiet⟩
  obtain ⟨s, hs, rfl⟩ := mem_updateStep.mp hs'
  split
  · rw [hf]
    decide
  · next hne => exact fun hstatus => hne (hrunning s hs hstatus)

theorem failWithoutInvocation_turn (hr : Orderly r) {step : AgentStep} (hstep : step ∈ r.steps)
    (hopen : step.status.isOpen = true) (code : String)
    (hidle : clean → (∀ s ∈ r.steps, s.status = .running → s.id = step.id) ∧
      ∀ i ∈ r.invocations, i.status.isActive = false) :
    Ensures (failWithoutInvocation r step code now) (Turn B clean r) := by
  unfold failWithoutInvocation
  refine appendAgentEvent_rows.bind fun r' h => ?_
  obtain ⟨-, hsteps, hinvocations⟩ := h
  have hclose : step.Closes { step with
      status := .failed, startedAt := some now, finishedAt := some now } :=
    ⟨rfl, .inr ⟨hopen, rfl⟩⟩
  have hkept : Closes (r.updateStep step.id fun s =>
      { s with status := .failed, startedAt := some now, finishedAt := some now }) r' :=
    .of_rows hsteps hinvocations
  refine transitionRun_ended ((closes_updateStep hr hstep hclose).trans hkept) rfl nofun
    fun hc _ => hkept.idle ?_
  exact failed_idle (fun _ => rfl) (hidle hc).1 (hidle hc).2

theorem failActiveStep_turn {r₀ : RunRecord} (hcloses : Closes r₀ r) (hr : Orderly r)
    {step : AgentStep} (hstep : step ∈ r.steps) (hopen : step.status.isOpen = true)
    (code : String)
    (hidle : clean → (∀ s ∈ r.steps, s.status = .running → s.id = step.id) ∧
      ∀ i ∈ r.invocations, i.status.isActive = false) :
    Ensures (failActiveStep r step code now) (Turn B clean r₀) := by
  unfold failActiveStep
  have hclose : step.Closes { step with status := .failed, finishedAt := some now } :=
    ⟨rfl, .inr ⟨hopen, rfl⟩⟩
  refine transitionRun_ended (hcloses.trans (closes_updateStep hr hstep hclose)) rfl nofun
    fun hc _ => ?_
  exact failed_idle (fun _ => rfl) (hidle hc).1 (hidle hc).2

/-! ## Reserving -/

/-- In a list sorted by a key, nothing before what is found satisfies the test. -/
theorem find?_first {α : Type} (k : α → Nat) {p : α → Bool} {l : List α}
    (hsorted : l.Pairwise fun a b => k a ≤ k b) {a b : α} (h : l.find? p = some a)
    (hb : b ∈ l) (hlt : k b < k a) : p b = false := by
  obtain ⟨-, before, after, rfl, hnone⟩ := List.find?_eq_some_iff_append.mp h
  rcases List.mem_append.mp hb with hb | hb
  · simpa using hnone b hb
  · exfalso
    rw [List.pairwise_append, List.pairwise_cons] at hsorted
    rcases List.mem_cons.mp hb with rfl | hb
    · exact lt_irrefl _ hlt
    · have hle := hsorted.2.1.1 b hb
      omega

theorem listAgentSteps_sorted (r : RunRecord) :
    r.listAgentSteps.Pairwise fun a b => a.ordinal ≤ b.ordinal := by
  let before : AgentStep → AgentStep → Prop := fun a b =>
    a.ordinal < b.ordinal ∨ (a.ordinal = b.ordinal ∧ a.id.toNat ≤ b.id.toNat)
  have htotal : Std.Total before := ⟨fun a b => by
    show (_ ∨ _) ∨ (_ ∨ _)
    omega⟩
  have htrans : IsTrans AgentStep before := ⟨fun a b c hab hbc => by
    rcases hab with hab | hab <;> rcases hbc with hbc | hbc
    · exact .inl (hab.trans hbc)
    · exact .inl (by omega)
    · exact .inl (by omega)
    · exact .inr ⟨hab.1.trans hbc.1, hab.2.trans hbc.2⟩⟩
  refine (List.pairwise_insertionSort before r.steps).imp fun h => ?_
  rcases h with h | h <;> omega

/-- The step that is tried is the first open one, and no other runs. -/
theorem Orderly.first_open (hr : Orderly r) {step : AgentStep}
    (hfind : r.listAgentSteps.find? (·.status.isOpen) = some step) :
    step ∈ r.steps ∧ step.status.isOpen = true ∧
      (∀ s ∈ r.steps, s.ordinal < step.ordinal → s.status.isOpen = false) ∧
      ∀ s ∈ r.steps, s.status = .running → s = step := by
  have hmem := RunRecord.mem_listAgentSteps.mp (List.mem_of_find?_eq_some hfind)
  have hopen := List.find?_some hfind
  have hfirst : ∀ s ∈ r.steps, s.ordinal < step.ordinal → s.status.isOpen = false :=
    fun s hs hlt => find?_first (fun s : AgentStep => s.ordinal)
      (p := fun s : AgentStep => s.status.isOpen) (listAgentSteps_sorted r) hfind
      (RunRecord.mem_listAgentSteps.mpr hs) hlt
  refine ⟨hmem, hopen, hfirst, fun s hs hrunning => ?_⟩
  rcases lt_trichotomy s.ordinal step.ordinal with hlt | heq | hlt
  · have hclosed := hfirst s hs hlt
    rw [hrunning] at hclosed
    cases hclosed
  · exact List.inj_on_of_nodup_map hr.ordinals hs hmem heq
  · have hdone := hr.order step hmem s hs hlt (.inl hrunning)
    rw [hdone] at hopen
    cases hopen

/-- Where the invocations of that step are over, all are. -/
theorem Orderly.quiet_of_step (hr : Orderly r) (hrun : r.run.state = .running)
    {step : AgentStep} (honly : ∀ s ∈ r.steps, s.status = .running → s = step)
    (hquiet : step.status = .running →
      ∀ j ∈ r.invocations, j.stepId = step.id → j.status.isActive = false) :
    ∀ j ∈ r.invocations, j.status.isActive = false := by
  intro j hj
  by_contra hactive
  rw [Bool.not_eq_false] at hactive
  obtain ⟨s, hs, hid, hrunning⟩ := hr.busy hrun j hj hactive
  obtain rfl := honly s hs hrunning
  rw [hquiet hrunning j hj hid.symm] at hactive
  cases hactive

/-- An attempt that is allowed, or the code the run fails with: the step has no
invocation left that is active. -/
theorem nextAttempt_ok {step : AgentStep} {name : String} {version : Nat}
    {res : Except String Nat} (hr : Orderly r)
    (h : nextAttempt build r step name version = .ok res) :
    (step.status = .running →
      ∀ j ∈ r.invocations, j.stepId = step.id → j.status.isActive = false) ∧
    ∀ attempt, res = .ok attempt → attempt ≤ 1 ∧
      (0 < attempt → r.invocations.countP (0 < ·.attempt) < r.run.retryBudget) := by
  unfold nextAttempt at h
  split at h
  · next hrunning =>
      have hlisted : ∀ j ∈ r.invocations, j.stepId = step.id →
          j ∈ r.listStepInvocations.filter fun i => i.stepId == step.id := by
        intro j hj hjs
        rw [List.mem_filter]
        exact ⟨hr.listed hj, by simpa using hjs⟩
      split at h
      · next prior hprior =>
          split at h
          · cases h
          · next hover =>
              rw [not_or] at hover
              have hquiet : ∀ j ∈ r.invocations, j.stepId = step.id →
                  j.status.isActive = false := by
                intro j hj hjs
                have hthis := hlisted j hj hjs
                rw [hprior, List.mem_singleton] at hthis
                subst hthis
                revert hover
                cases j.status <;> simp [InvocationStatus.isActive]
              refine ⟨fun _ => hquiet, fun attempt hres => ?_⟩
              split at h
              · cases h
                cases hres
              · split at h
                · cases h
                  cases hres
                · next hbudget =>
                    cases h
                    cases hres
                    rw [hr.listed_countP] at hbudget
                    exact ⟨le_refl _, fun _ => by simpa using hbudget⟩
      · cases h
  · next hwaiting =>
      cases h
      refine ⟨fun hrunning => absurd hrunning hwaiting, fun attempt hres => ?_⟩
      cases hres
      exact ⟨Nat.zero_le _, fun h => absurd h (lt_irrefl 0)⟩

/-- What the policy found before it let a call through. -/
theorem resolveToolPolicy_ok {q : PolicyRequest} {policy : ResolvedToolPolicy}
    (h : resolveToolPolicy build q = .ok policy) :
    q.capturedRegistryVersion = build.registryVersion ∧
      q.totalCallsReserved < q.capturedRunToolCallBudget ∧
      ∃ d, build.getExact q.name q.version = some d ∧ q.toolCallsReserved < d.callsPerRun := by
  obtain ⟨d, hgranted⟩ := resolveToolPolicy_granted h
  exact ⟨hgranted.registryVersion, hgranted.total, d, hgranted.registered, hgranted.perTool⟩

theorem admitsInvocation_distinct {i : ToolInvocation} (h : r.admitsInvocation i = .ok ()) :
    ∀ j ∈ r.invocations, j.id ≠ i.id ∧ ¬ (j.stepId = i.stepId ∧ j.attempt = i.attempt) := by
  unfold RunRecord.admitsInvocation at h
  split at h
  · cases h
  split at h
  · cases h
  split at h
  · cases h
  next hfree =>
  intro j hj
  refine ⟨fun hid => hfree ?_, fun hkey => hfree ?_⟩
  · exact List.any_eq_true.mpr ⟨j, hj, by simp [hid]⟩
  · exact List.any_eq_true.mpr ⟨j, hj, by simp [hkey]⟩

theorem startInvocation_turn {step : AgentStep} {i : ToolInvocation}
    (hrun : r.run.state = .running)
    (hreserves : (∀ j ∈ r.invocations, j.id ≠ i.id ∧
      ¬ (j.stepId = i.stepId ∧ j.attempt = i.attempt)) → Reserves build r step i) :
    Ensures (startInvocation r step i now) (Turn (· = build) clean r) := by
  unfold startInvocation reserveToolInvocation
  cases hadmitted : r.admitsInvocation i with
  | error e => exact Ensures.bind (P := fun _ => False) (.error _) fun _ h => h.elim
  | ok _ =>
      refine Ensures.bind (Ensures.ok_iff.mpr rfl) fun r₁ hr₁ => ?_
      subst hr₁
      refine appendAgentEvent_rows.mono fun r' h => ?_
      obtain ⟨hsame, hsteps, hinvocations⟩ := h
      refine .reserved build step i _ rfl hrun (by rw [hsame]; exact hrun)
        (hreserves (admitsInvocation_distinct hadmitted)) ?_ hsteps hinvocations
      exact fun s => ⟨rfl, rfl⟩

/-- The tools of all steps are among those the executor may use. -/
def Permitted (allowed : Option (List ToolIdentity)) (r : RunRecord) : Prop :=
  ∀ s ∈ r.steps, ∀ name version, s.toolName = some name → s.toolVersion = some version →
    allowed.all (·.contains (name, version)) = true

theorem reserveNext_turn (hr : Orderly r) (allowed : Option (List ToolIdentity))
    (available : Bool) (id : Uuid) :
    Ensures (reserveNext build r allowed available now id)
      fun p => Turn (· = build) (Permitted allowed r) r p.2 := by
  unfold reserveNext
  refine .ite (fun _ => Ensures.ok_iff.mpr (.refl r)) fun hrun => ?_
  rw [not_not] at hrun
  refine .ite (fun _ => .error _) fun _ => .ite (fun _ => ?_) fun _ => ?_
  · exact .answer (expireExecution_turn (.refl r) hr.owned)
  split
  · exact Ensures.ok_iff.mpr (.refl r)
  · next step hfind =>
      obtain ⟨hstep, hopen, hfirst, honly⟩ := hr.first_open hfind
      refine .ite (fun hunknown => ?_) fun _ => .ite (fun _ => .error _) fun _ => ?_
      · rw [(hr.live hrun).1] at hunknown
        cases hunknown
      split
      · next name version hname hversion =>
          refine .ite (fun hdenied => ?_) fun _ => ?_
          · refine .answer (failWithoutInvocation_turn hr hstep hopen _ fun hpermitted => ?_)
            have hallowed := hpermitted step hstep name version hname hversion
            cases allowed with
            | none => cases hdenied
            | some tools =>
                rw [Option.any_some, Bool.not_eq_true'] at hdenied
                rw [Option.all_some, hdenied] at hallowed
                cases hallowed
          · refine .bind_any fun res hres => ?_
            obtain ⟨hquiet, hattempt⟩ := nextAttempt_ok hr hres
            have hidle : (∀ s ∈ r.steps, s.status = .running → s.id = step.id) ∧
                ∀ i ∈ r.invocations, i.status.isActive = false :=
              ⟨fun s hs hrunning => by rw [honly s hs hrunning],
                hr.quiet_of_step hrun honly hquiet⟩
            split
            · exact .answer (failActiveStep_turn (.refl r) hr hstep hopen _ fun _ => hidle)
            · next attempt =>
                obtain ⟨hle, hretry⟩ := hattempt attempt rfl
                unfold reserveAttempt
                split
                · exact .answer (failWithoutInvocation_turn hr hstep hopen _ fun _ => hidle)
                · next policy hpolicy =>
                    obtain ⟨hversion, htotal, d, hd, htool⟩ := resolveToolPolicy_ok hpolicy
                    refine (startInvocation_turn hrun fun hfresh => ?_).bind
                      fun r' h => Ensures.pure_iff.mpr h
                    exact ⟨hstep, hopen, hfirst, hquiet, rfl, rfl, hle, hfresh, hretry, htotal,
                      hversion, d, hd, htool⟩
      · exact .error _

/-! ## Finalising and completing -/

/-- What becomes of the invocation and of its step. -/
theorem settleInvocation_ends (definition : Option ToolDefinition) {i : ToolInvocation}
    (stepStatus : StepStatus) {output : Option ToolOutput} {code : Option String}
    (evidence : Option (List EvidenceReference)) (now : Instant)
    (hanswer : output.isSome = true ∨ code.isSome = true) :
    let p := settleInvocation definition i stepStatus output code evidence now
    p.1.still = i.still ∧
      (code = none ∧ p.1.status = .succeeded ∧ p.2 = .succeeded ∨
        code.isSome = true ∧ p.1.status ≠ .succeeded ∧ p.1.status.isActive = false ∧
          (p.2 = .running ∨ p.2 = .failed)) := by
  unfold settleInvocation
  split
  · refine ⟨rfl, .inr ⟨rfl, ?_⟩⟩
    simp only []
    refine ⟨?_, ?_, ?_⟩
    · split <;> nofun
    · split <;> rfl
    · split
      · exact .inl rfl
      · exact .inr rfl
  · exact ⟨rfl, .inl ⟨rfl, rfl, rfl⟩⟩
  · simp at hanswer

theorem recordResult_turn (hr : Orderly r) (hrun : r.run.state = .running) {step : AgentStep}
    {i : ToolInvocation} {output : Option ToolOutput} {code : Option String}
    {evidence : Option (List EvidenceReference)} (hstep : step ∈ r.steps)
    (hi : i ∈ r.invocations) (hactive : i.status = .running) (hown : step.id = i.stepId)
    (hanswer : output.isSome = true ∨ code.isSome = true) :
    Ensures (recordResult build r step i output code evidence now)
      fun p => Turn B clean r p.2 := by
  unfold recordResult
  simp only []
  refine .ite (fun _ => .error _) fun _ => ?_
  have hfinal := hanswer.imp_right
    (resultCode_isSome (build.getExact i.toolName i.toolVersion) output)
  generalize resultCode (build.getExact i.toolName i.toolVersion) output code = final
    at hfinal
  have hcases := settleInvocation_ends (build.getExact i.toolName i.toolVersion) (i := i)
    step.status evidence now hfinal
  generalize settleInvocation (build.getExact i.toolName i.toolVersion) i step.status output
    final evidence now = p at hcases
  obtain ⟨settled, status⟩ := p
  obtain ⟨hstill, hcases⟩ := hcases
  simp only [] at hstill hcases ⊢
  -- the step of a running invocation runs, and is the only one
  have hbusy : i.status.isActive = true := by rw [hactive]; rfl
  have hrunning : step.status = .running := by
    obtain ⟨s, hs, hid, hrunning⟩ := hr.busy hrun i hi hbusy
    rw [hr.step_eq hstep hs (hown.trans hid.symm), hrunning]
  refine appendAgentEvent_rows.bind fun r' h => ?_
  obtain ⟨hsame, hsteps, hinvocations⟩ := h
  have hstate : r'.run.state = .running := by rw [hsame]; exact hrun
  rcases hcases with ⟨hnone, hdone, rfl⟩ | ⟨hsome, hundone, hover, hstatus⟩
  · refine .ite (fun h => ?_) fun _ => Ensures.pure_iff.mpr ?_
    · rw [hnone] at h
      cases h.1
    · have hsteps' := hsteps
      rw [hown] at hsteps'
      exact .succeeded i (fun s => { s with
          status := .succeeded
          finishedAt := if StepStatus.succeeded = .running then s.finishedAt else some now })
        (fun _ => settled) hrun hstate hi hactive (fun _ => ⟨rfl, rfl⟩) hstill hdone hsteps'
        hinvocations
  · have hends : i.Ends settled :=
      ⟨hstill, .inr ⟨active_ne_succeeded hbusy, hundone, hover⟩⟩
    have hsettled := closes_updateInvocation hr (g := fun _ => settled) hi hends
    rcases hstatus with rfl | rfl
    · -- the step keeps running
      refine .ite (fun h => absurd h.2 nofun) fun _ => Ensures.pure_iff.mpr ?_
      have hkept : ∀ s ∈ r.steps, s.Closes (if s.id = step.id then { s with
          status := StepStatus.running
          finishedAt := if StepStatus.running = .running then s.finishedAt else some now }
          else s) := by
        intro s hs
        split
        · next hid =>
            obtain rfl := hr.step_eq hs hstep hid
            exact ⟨rfl, .inl hrunning.symm⟩
        · exact .refl s
      refine .eased hrun hstate ⟨⟨_, hsteps, hkept⟩, ?_⟩ fun s' hs' => ?_
      · obtain ⟨g, hg, hends⟩ := hsettled.invocations
        exact ⟨g, hinvocations.trans hg, hends⟩
      · rw [hsteps] at hs'
        obtain ⟨s, hs, rfl⟩ := mem_updateStep.mp hs'
        split
        · rfl
        · exact (hr.live hrun).2 s hs
    · refine .ite (fun _ => ?_) fun h => absurd ⟨hsome, rfl⟩ h
      have hclose : step.Closes { step with
          status := .failed
          finishedAt := if StepStatus.failed = .running then step.finishedAt else some now } :=
        ⟨rfl, .inr ⟨by rw [hrunning]; rfl, rfl⟩⟩
      have hstepCloses := closes_updateStep hr (f := fun s => { s with
        status := .failed
        finishedAt := if StepStatus.failed = .running then s.finishedAt else some now })
        hstep hclose
      have hboth : Closes r r' := by
        obtain ⟨f, hf, hcloses⟩ := hstepCloses.steps
        obtain ⟨g, hg, hends⟩ := hsettled.invocations
        exact ⟨⟨f, hsteps.trans hf, hcloses⟩, ⟨g, hinvocations.trans hg, hends⟩⟩
      refine .answer (transitionRun_ended hboth rfl nofun fun _ _ =>
        ⟨fun s' hs' => ?_, fun j' hj' => ?_⟩)
      · rw [hsteps] at hs'
        obtain ⟨s, hs, rfl⟩ := mem_updateStep.mp hs'
        split
        · nofun
        · next hne =>
            intro hstatus
            exact hne (congrArg AgentStep.id (hr.running_eq hs hstep hstatus hrunning))
      · rw [hinvocations] at hj'
        obtain ⟨j, hj, rfl⟩ := mem_updateInvocation.mp hj'
        split
        · exact hover
        · next hne =>
            by_contra hstays
            exact hne (congrArg ToolInvocation.id
              (hr.single j hj i hi (by simpa using hstays) hbusy))

/-- Finalising the invocation of the step it names. -/
theorem finalizeInvocation_turn (hr : Orderly r) {stepId invocationId : Uuid}
    {output : Option ToolOutput} {code : Option String}
    {evidence : Option (List EvidenceReference)}
    (hlink : ∀ i, r.getInvocation invocationId = some i → i.stepId = stepId)
    (hanswer : output.isSome = true ∨ code.isSome = true) :
    Ensures (finalizeInvocation build r stepId invocationId output code evidence now)
      fun p => Turn B clean r p.2 := by
  unfold finalizeInvocation
  split
  · next step i hgetStep hgetInvocation =>
      obtain ⟨hstep, hstepId⟩ := getStep_mem hgetStep
      obtain ⟨hi, hid⟩ := getInvocation_mem hgetInvocation
      have hown : step.id = i.stepId := hstepId.trans (hlink i hgetInvocation).symm
      refine .ite (fun _ => Ensures.ok_iff.mpr (.refl r)) fun hactive => ?_
      rw [not_not] at hactive
      have hbusy : i.status.isActive = true := by rw [hactive]; rfl
      have hdiscard : ∀ code : String, i.Ends { i with
          status := .discarded, safeErrorCode := some code, finishedAt := some now } :=
        fun code => ⟨rfl, .inr ⟨active_ne_succeeded hbusy, nofun, rfl⟩⟩
      refine .ite (fun hover => Ensures.ok_iff.mpr ?_) fun hrun => ?_
      · have hcloses := closes_updateInvocation hr (g := fun i => { i with
          status := .discarded
          safeErrorCode := some (if r.run.state = .cancelled then "cancellation_discard"
            else "tool_result_discarded")
          finishedAt := some now }) hi (hdiscard _)
        have hterm : r.run.state.isTerminal = true := by
          have hearly : r.run.state.isEarly = false := by
            by_contra hearly
            rw [Bool.not_eq_false] at hearly
            rw [(hr.early hearly).1] at hi
            cases hi
          have hserved := hr.served
          revert hover hearly hserved
          cases r.run.state <;> decide
        refine .ended hterm hcloses (fun hdone => ?_) fun _ hlive => ?_
        · exact hr.completed hdone
        · rw [hterm] at hlive
          cases hlive
      rw [not_not] at hrun
      refine .ite (fun _ => ?_) fun _ => ?_
      · have hcloses := closes_updateInvocation hr (g := fun i => { i with
          status := .discarded
          safeErrorCode := some "deadline_expired"
          finishedAt := some now }) hi (hdiscard _)
        refine .answer (expireExecution_turn hcloses fun j' hj' => ?_)
        obtain ⟨j, hj, hends⟩ := hcloses.invocation_of hj'
        obtain ⟨s, hs, hsid⟩ := hr.owned j hj
        exact ⟨s, hs, hsid.trans hends.stepId_eq.symm⟩
      · exact recordResult_turn hr hrun hstep hi hactive hown hanswer
  · exact Ensures.ok_iff.mpr (.refl r)

theorem completeRun_turn (hr : Orderly r) (brief watch : Bool) :
    Ensures (completeRun r brief watch now) (Turn B clean r) := by
  unfold completeRun
  refine .ite (fun _ => Ensures.ok_iff.mpr (.refl r)) fun hrun => ?_
  rw [not_not] at hrun
  refine .ite (fun _ => Ensures.ok_iff.mpr (.refl r)) fun hsteps => ?_
  have hall : r.allSucceeded := by
    intro s hs
    by_contra hstatus
    exact hsteps (.inr (List.any_eq_true.mpr ⟨s, hs, by simpa using hstatus⟩))
  have hidle := hr.idle_of_allSucceeded hrun hall
  split
  · exact transitionRun_ended (.refl r) rfl nofun fun _ _ => hidle
  · refine (transitionRun_rows r _ _ .completed _ _).mono fun r' h => ?_
    obtain ⟨hstate, hsteps', hinvocations⟩ := h
    have hsame : Closes r r' := .of_rows hsteps' hinvocations
    refine .ended (by rw [hstate]; rfl) hsame (fun _ => ?_) fun _ _ => hsame.idle hidle
    rw [RunRecord.allSucceeded, hsteps']
    exact hall

/-! ## Recovery -/

/-- Recovery finds a stale invocation that is not a pure read of a tool it knows
exactly, and cannot tell what became of it. -/
def ambiguous (build : Build) (r : RunRecord) (now : Instant) : Bool :=
  !isReservedAutomationAgentIdentity r.run.agentKind r.run.agentVersion &&
    r.run.state == .running && decide (now < r.run.runDeadline) &&
    match r.activeInvocations with
    | [i] => decide (staleAt build i ≤ now) && !exactPureReadDefinition build r.run
        (r.listAgentSteps.find? (·.id == i.stepId)) i
    | _ => false

theorem Orderly.active_iff (hr : Orderly r) {i : ToolInvocation} :
    i ∈ r.activeInvocations ↔ i ∈ r.invocations ∧ i.status.isActive = true := by
  rw [RunRecord.activeInvocations, List.mem_filter]
  exact ⟨fun h => ⟨(RunRecord.mem_listStepInvocations.mp h.1).1, h.2⟩,
    fun h => ⟨hr.listed h.1, h.2⟩⟩

/-- There is at most one active invocation. -/
theorem Orderly.active_le_one (hr : Orderly r) : r.activeInvocations.length ≤ 1 := by
  have hnodup : r.activeInvocations.Nodup := by
    have hrows := (hr.invocationIds.of_map _).filter fun i => (r.ordinalOf i.stepId).isSome
    exact ((List.perm_insertionSort _ _).nodup_iff.mpr hrows).filter _
  cases hactive : r.activeInvocations with
  | nil => exact Nat.zero_le 1
  | cons i rest =>
      cases rest with
      | nil => exact le_refl 1
      | cons j rest =>
          have hi := hr.active_iff.mp (hactive ▸ List.mem_cons_self)
          have hj := hr.active_iff.mp
            (hactive ▸ List.mem_cons_of_mem i List.mem_cons_self)
          have hsame := hr.single i hi.1 j hj.1 hi.2 hj.2
          rw [hactive, hsame] at hnodup
          exact absurd List.mem_cons_self (List.nodup_cons.mp hnodup).1

theorem find?_step {id : Uuid} {step : AgentStep}
    (h : r.listAgentSteps.find? (·.id == id) = some step) : step ∈ r.steps ∧ step.id = id :=
  ⟨RunRecord.mem_listAgentSteps.mp (List.mem_of_find?_eq_some h), by simpa using List.find?_some h⟩

variable (B clean) in
theorem discardStale_turn {i : ToolInvocation} (hr : Orderly r)
    (hrun : r.run.state = .running) (hi : i ∈ r.invocations)
    (hactive : i.status.isActive = true) :
    Ensures (discardStale r i now) fun r' => r'.run = r.run ∧ Closes r r' ∧
      r'.steps = r.steps ∧ (∀ j ∈ r'.invocations, j.status.isActive = false) ∧
      Turn B clean r r' := by
  unfold discardStale
  refine appendAgentEvent_rows.mono fun r' h => ?_
  obtain ⟨hsame, hsteps, hinvocations⟩ := h
  have hends : i.Ends { i with
      status := .discarded
      safeErrorCode := some "tool_timeout"
      startedAt := i.startedAt.or (some i.reservedAt)
      finishedAt := some now } :=
    ⟨rfl, .inr ⟨active_ne_succeeded hactive, nofun, rfl⟩⟩
  have hcloses : Closes r r' := (closes_updateInvocation hr (g := fun i => { i with
    status := .discarded
    safeErrorCode := some "tool_timeout"
    startedAt := i.startedAt.or (some i.reservedAt)
    finishedAt := some now }) hi hends).trans (.of_rows hsteps hinvocations)
  refine ⟨hsame, hcloses, hsteps, fun j' hj' => ?_, ?_⟩
  · rw [hinvocations] at hj'
    obtain ⟨j, hj, rfl⟩ := mem_updateInvocation.mp hj'
    split
    · rfl
    · next hne =>
        by_contra hstays
        exact hne (congrArg ToolInvocation.id
          (hr.single j hj i hi (by simpa using hstays) hactive))
  · refine .eased hrun (by rw [hsame]; exact hrun) hcloses fun s hs => ?_
    exact (hr.live hrun).2 s (hsteps ▸ hs)

theorem recoverActive_turn {i : ToolInvocation} (hr : Orderly r)
    (hreserved : isReservedAutomationAgentIdentity r.run.agentKind r.run.agentVersion = false)
    (hrun : r.run.state = .running) (hlive : now < r.run.runDeadline)
    (hone : r.activeInvocations = [i]) :
    Ensures (recoverActive build r i now)
      fun p => Turn B (ambiguous build r now = false) r p.2 := by
  have hi := hr.active_iff.mp (hone ▸ List.mem_singleton_self i)
  obtain ⟨hi, hactive⟩ := hi
  have hsure : ambiguous build r now = false → staleAt build i ≤ now →
      exactPureReadDefinition build r.run
        (r.listAgentSteps.find? (·.id == i.stepId)) i = true := by
    intro h hstale
    unfold ambiguous at h
    rw [hreserved, hrun, hone, decide_eq_true hlive] at h
    simpa [hstale] using h
  unfold recoverActive
  simp only []
  refine .ite (fun _ => Ensures.ok_iff.mpr (.refl r)) fun hstale => ?_
  rw [not_lt] at hstale
  refine .ite (fun _ => ?_) fun hunsure => ?_
  · refine (discardStale_turn B (ambiguous build r now = false) hr hrun hi hactive).bind
      fun r' h => ?_
    obtain ⟨hsame, hcloses, hsteps, hquiet, hturn⟩ := h
    have hr' : Orderly r' := hturn.orderly (by rw [hsame]) hr
    split
    · next s hfind =>
        obtain ⟨hs, hsid⟩ := find?_step hfind
        obtain ⟨t, ht, htid, hrunning⟩ := hr.busy hrun i hi hactive
        obtain rfl := hr.step_eq hs ht (hsid.trans htid.symm)
        refine .ite (fun _ => .answer ?_) fun _ => Ensures.pure_iff.mpr hturn
        refine failActiveStep_turn hcloses hr' (hsteps ▸ hs) (by rw [hrunning]; rfl) _
          fun _ => ⟨fun u hu hustatus => ?_, hquiet⟩
        rw [hr.running_eq (hsteps ▸ hu) hs hustatus hrunning]
    · exact .error _
  · split
    · exact .answer (transitionRun_ended (.refl r) rfl nofun
        fun hc _ => absurd (hsure hc hstale) hunsure)
    · next s hfind =>
        obtain ⟨hs, hsid⟩ := find?_step hfind
        obtain ⟨t, ht, htid, hrunning⟩ := hr.busy hrun i hi hactive
        obtain rfl := hr.step_eq hs ht (hsid.trans htid.symm)
        exact .answer (failActiveStep_turn (.refl r) hr hs (by rw [hrunning]; rfl) _
          fun hc => absurd (hsure hc hstale) hunsure)

theorem recoverIdle_turn (hr : Orderly r) (hnone : r.activeInvocations = []) :
    Ensures (recoverIdle r now) fun p => Turn B clean r p.2 := by
  have hquiet : ∀ i ∈ r.invocations, i.status.isActive = false := by
    intro i hi
    by_contra hactive
    have hlisted := hr.active_iff.mpr ⟨hi, by simpa using hactive⟩
    rw [hnone] at hlisted
    cases hlisted
  unfold recoverIdle
  simp only []
  refine .ite (fun hclosed => ?_) fun _ => .ite (fun _ => ?_) fun _ => ?_
  · refine .ite (fun _ => Ensures.ok_iff.mpr (.refl r)) fun _ => ?_
    refine .answer (transitionRun_ended (.refl r) rfl nofun fun _ _ =>
      ⟨fun s hs hrunning => ?_, hquiet⟩)
    have hlisted := RunRecord.mem_listAgentSteps.mpr hs
    rcases hclosed with hempty | hnone
    · rw [List.isEmpty_iff.mp hempty] at hlisted
      cases hlisted
    · have hover := List.any_eq_false.mp hnone s hlisted
      rw [hrunning] at hover
      exact hover rfl
  · split
    · exact .error _
    · next s hfind =>
        have hs := RunRecord.mem_listAgentSteps.mp (List.mem_of_find?_eq_some hfind)
        have hrunning : s.status = .running := by simpa using List.find?_some hfind
        refine .answer (failActiveStep_turn (.refl r) hr hs (by rw [hrunning]; rfl) _
          fun _ => ⟨fun t ht htstatus => ?_, hquiet⟩)
        rw [hr.running_eq ht hs htstatus hrunning]
  · exact Ensures.ok_iff.mpr (.refl r)

theorem prepareOne_turn (hr : Orderly r) :
    Ensures (prepareOne build r now)
      fun p => Turn B (ambiguous build r now = false) r p.2 := by
  unfold prepareOne
  refine .ite (fun _ => .error _) fun hreserved => ?_
  rw [Bool.not_eq_true] at hreserved
  refine .ite (fun _ => Ensures.ok_iff.mpr (.refl r)) fun _ => .ite (fun hplanning => ?_) fun _ => ?_
  · refine .answer (hr.ended_early ?_ rfl nofun)
    rcases hplanning.1 with hstate | hstate <;> rw [hstate] <;> rfl
  refine .ite (fun hready => ?_) fun _ => ?_
  · refine .ite (fun _ => ?_) fun _ => Ensures.ok_iff.mpr (.refl r)
    exact .answer (hr.ended_early (by rw [hready]; rfl) rfl nofun)
  refine .ite (fun _ => Ensures.ok_iff.mpr (.refl r)) fun hrun => ?_
  rw [not_not] at hrun
  refine .ite (fun _ => .answer (expireExecution_turn (.refl r) hr.owned)) fun hlive => ?_
  split
  · next hnone => exact recoverIdle_turn hr hnone
  · next i hone => exact recoverActive_turn hr hreserved hrun (not_le.mp hlive) hone
  · next i j rest hmany =>
      have hle := hr.active_le_one
      rw [hmany, List.length_cons, List.length_cons] at hle
      omega

/-! ## Synthesis -/

/-- A run that runs has all its steps done. -/
def Drained (r : RunRecord) : Prop := r.run.state = .running → r.allSucceeded

theorem Orderly.ended_drained {newState : AgentRunState} {code : Option String}
    (hr : Orderly r) (hrun : r.run.state = .running) (hterm : newState.isTerminal = true)
    (hdone : newState ≠ .completed) :
    Ensures (transitionRun r .running r.run.revision newState now code)
      (Turn B (Drained r) r) :=
  transitionRun_ended (.refl r) hterm hdone fun hc _ => hr.idle_of_allSucceeded hrun (hc hrun)

theorem failResult_turn (hr : Orderly r) (code : String) :
    Ensures (failResult r code now) (Turn B (Drained r) r) := by
  unfold failResult
  refine .ite (fun _ => Ensures.ok_iff.mpr (.refl r)) fun hrun => ?_
  exact hr.ended_drained (not_not.mp hrun) rfl nofun

theorem claimSynthesis_turn (hr : Orderly r) :
    Ensures (claimSynthesis r now) fun p => Turn B (Drained r) r p.2 := by
  unfold claimSynthesis
  refine .ite (fun _ => Ensures.ok_iff.mpr (.refl r)) fun hrun => ?_
  refine .ite (fun _ => Ensures.ok_iff.mpr (.refl r)) fun _ => ?_
  exact .answer (hr.ended_drained (not_not.mp hrun) rfl nofun)

theorem beginDailyBrief_turn (hr : Orderly r) (count : Nat) :
    Ensures (beginDailyBrief r count now) fun p => Turn B (Drained r) r p.2 := by
  unfold beginDailyBrief
  exact .ite (fun _ => .answer (failResult_turn hr _)) fun _ => Ensures.ok_iff.mpr (.refl r)

theorem beginProjectWatch_turn (hr : Orderly r) (valid : Bool) :
    Ensures (beginProjectWatch r valid now) fun p => Turn B (Drained r) r p.2 := by
  unfold beginProjectWatch
  exact .ite (fun _ => .answer (failResult_turn hr _)) fun _ => Ensures.ok_iff.mpr (.refl r)

/-- Whatever is stored beside them, the rows of the execution are the same. -/
theorem appendAgentEvent_turn {r₀ : RunRecord} {e : AgentEvent}
    (hrun : r.run = r₀.run) (hkept : Kept r₀ r) :
    Ensures (appendAgentEvent r e) (Turn B clean r₀) := by
  refine appendAgentEvent_rows.mono fun r' h => ?_
  exact .kept (by rw [h.1, hrun]) (h.2.1.trans hkept.steps) (h.2.2.trans hkept.invocations)

theorem persistResearchResult_turn (hr : Orderly r) (casefold : String → String)
    (current : String → Uuid → Option String) (evidence : List CollectedEvidence)
    (q : ResearchProviderResult) :
    Ensures (persistResearchResult casefold current r evidence q now)
      fun p => Turn B (Drained r) r p.2 := by
  unfold persistResearchResult
  refine .ite (fun _ => .error _) fun hrun => .ite (fun _ => ?_) fun _ => ?_
  · rw [not_or, not_not] at hrun
    exact .answer (hr.ended_drained hrun.2 rfl nofun)
  · refine .ite (fun _ => .error _) fun _ => .bind_any fun value _ => .answer ?_
    exact appendAgentEvent_turn rfl (.refl r)

theorem persistCuratorResult_turn (hr : Orderly r) (parse : PyValue → Option MemoryUpdate)
    (memories : Uuid → Option Memory) (casefold : String → String)
    (current : String → Uuid → Option String) (evidence : List CollectedEvidence)
    (q : CuratorProviderResult) (uuids : Nat → Uuid × Uuid) :
    Ensures (persistCuratorResult build parse memories casefold current r evidence q
      uuids now) fun p => Turn B (Drained r) r p.2 := by
  unfold persistCuratorResult
  refine .ite (fun _ => .error _) fun hrun => .ite (fun _ => ?_) fun _ => ?_
  · rw [not_or, not_not] at hrun
    exact .answer (hr.ended_drained hrun.2 rfl nofun)
  · refine .ite (fun _ => .error _) fun _ => .bind_any fun findings _ => ?_
    refine Ensures.bind (P := fun s => s.record.run = r.run ∧ Kept r s.record) ?_ fun s hs => ?_
    · refine .foldlM (fun b _ hb => ?_) ⟨rfl, .refl r⟩
      exact (propose_kept _ _ _ _ _ _).mono fun _ h => ⟨h.1.trans hb.1, hb.2.trans h.2⟩
    · simp only []
      refine .ite (fun _ => .error _) fun _ => .answer ?_
      exact appendAgentEvent_turn hs.1 hs.2

theorem persistDailyBriefResult_turn (casefold : String → String)
    (current : String → Uuid → Option String) (eventsCurrent : Bool)
    (evidence : List CollectedEvidence) (events : List Citation)
    (q : ResearchProviderResult) :
    Ensures (persistDailyBriefResult casefold current eventsCurrent r evidence events q now)
      (Turn B clean r) := by
  unfold persistDailyBriefResult
  refine .ite (fun _ => .error _) fun _ => .ite (fun _ => .error _) fun _ => ?_
  exact .bind_any fun value _ => appendAgentEvent_turn rfl (.refl r)

theorem persistProjectWatchResult_turn (changesCurrent : Bool) (window : ChangeWindow)
    (evidence : List Citation) (q : ProjectWatchProviderResult) :
    Ensures (persistProjectWatchResult changesCurrent r window evidence q now)
      (Turn B clean r) := by
  unfold persistProjectWatchResult
  refine .ite (fun _ => .error _) fun _ => .ite (fun _ => .error _) fun _ => ?_
  exact .bind_any fun value _ => appendAgentEvent_turn rfl (.refl r)

end Operations

end SecondBrain
