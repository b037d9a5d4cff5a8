import SecondBrain.AgentPlanning.Validation
import SecondBrain.AgentRuns.Admission
import SecondBrain.AgentRuns.Turns

/-!
# Which accepted plans are stored

The response contract counts characters, the columns of a step count the octets of the
stored text and refuse a NUL. The bounds of the contract imply those of every column but
one: ten texts of five hundred characters may take more octets than the evidence of a step
has room for. So an accepted plan is stored exactly where its texts have no NUL and the
evidence of every step fits (`plan_stored_iff`).
-/

namespace SecondBrain

open Lib Lib.Json AgentTools

/-! ## Rows that are admitted -/

/-- The columns of a step hold its values. -/
structure AgentStep.Fits (s : AgentStep) : Prop where
  input : s.normalizedInput.storable = true
  evidence : (Json.arr (s.expectedEvidence.map .str)).storable = true
  texts : ∀ text ∈ s.purpose :: s.successCondition :: s.stopCondition :: s.toolName.toList,
    nul ∉ text.toList
  widths : ∀ text ∈ [s.purpose, s.successCondition, s.stopCondition], text.length ≤ 1000
  toolName : ∀ name, s.toolName = some name → name.length ≤ 200
  inputSize : s.normalizedInput.storedLen ≤ maxInputOctets
  evidenceSize : (Json.arr (s.expectedEvidence.map .str)).storedLen ≤ maxEvidenceOctets

theorem admitsStep_iff {r : RunRecord} {s : AgentStep} :
    r.admitsStep s = .ok () ↔ s.Fits ∧ ∀ t ∈ r.steps, t.ordinal ≠ s.ordinal ∧ t.id ≠ s.id := by
  rw [RunRecord.admitsStep]
  constructor
  · intro h
    split at h
    · cases h
    next hdata =>
    split at h
    · cases h
    next hsize =>
    split at h
    · cases h
    next hfree =>
    simp only [not_or, Bool.not_eq_false, Bool.not_eq_true, List.any_eq_false,
      decide_eq_true_eq, not_lt, List.contains_iff_mem, Option.any_eq_false] at hdata
    rw [not_or, not_lt, not_lt] at hsize
    refine ⟨⟨hdata.1, hdata.2.1, hdata.2.2.1, hdata.2.2.2.1, ?_, hsize.1, hsize.2⟩,
      fun t ht => ?_⟩
    · intro name hname
      have := hdata.2.2.2.2
      rw [hname] at this
      simpa using this
    · have := List.any_eq_false.mp (Bool.eq_false_iff.mpr hfree) t ht
      simpa using this
  · intro ⟨hfits, hfree⟩
    rw [if_neg, if_neg, if_neg]
    · intro hany
      obtain ⟨t, ht, hclash⟩ := List.any_eq_true.mp hany
      have := hfree t ht
      simp [this.1, this.2] at hclash
    · rw [not_or, not_lt, not_lt]
      exact ⟨hfits.inputSize, hfits.evidenceSize⟩
    · rintro (h | h | h | h | h)
      · rw [hfits.input] at h
        cases h
      · rw [hfits.evidence] at h
        cases h
      · obtain ⟨text, htext, hnul⟩ := List.any_eq_true.mp h
        exact hfits.texts text htext (List.contains_iff_mem.mp hnul)
      · obtain ⟨text, htext, hlong⟩ := List.any_eq_true.mp h
        have := hfits.widths text htext
        rw [decide_eq_true_eq] at hlong
        omega
      · cases hname : s.toolName with
        | none =>
            rw [hname] at h
            cases h
        | some name =>
            have := hfits.toolName name hname
            rw [hname] at h
            simp only [Option.any_some, decide_eq_true_eq] at h
            omega

/-- Rows whose keys are distinct are inserted where they fit. -/
theorem insertRows_ok {r : RunRecord} {rows : List AgentStep}
    (hordinals : ((r.steps ++ rows).map (·.ordinal)).Nodup)
    (hids : ((r.steps ++ rows).map (·.id)).Nodup) (hfits : ∀ s ∈ rows, s.Fits) :
    rows.foldlM insertAgentStep r = .ok { r with steps := r.steps ++ rows } := by
  induction rows generalizing r with
  | nil =>
      rw [List.append_nil]
      rfl
  | cons s rest ih =>
      have hadmitted : r.admitsStep s = .ok () := by
        refine admitsStep_iff.mpr ⟨hfits s List.mem_cons_self, fun t ht => ⟨?_, ?_⟩⟩
        · rw [List.map_append, List.nodup_append] at hordinals
          exact hordinals.2.2 _ (List.mem_map_of_mem ht) _ (List.mem_map_of_mem List.mem_cons_self)
        · rw [List.map_append, List.nodup_append] at hids
          exact hids.2.2 _ (List.mem_map_of_mem ht) _ (List.mem_map_of_mem List.mem_cons_self)
      have hinsert : insertAgentStep r s = .ok { r with steps := r.steps ++ [s] } := by
        rw [insertAgentStep, hadmitted]
      have hsplit : r.steps ++ s :: rest = (r.steps ++ [s]) ++ rest := by
        rw [List.append_assoc, List.singleton_append]
      rw [hsplit] at hordinals hids
      rw [List.foldlM_cons, hinsert, hsplit]
      exact @ih { r with steps := r.steps ++ [s] } hordinals hids
        fun t ht => hfits t (List.mem_cons_of_mem _ ht)

/-- Rows that were inserted fit, and no two of them have one identifier. -/
theorem insertRows_inserted {r r' : RunRecord} {rows : List AgentStep}
    (h : rows.foldlM insertAgentStep r = .ok r') :
    r' = { r with steps := r.steps ++ rows } ∧ (∀ s ∈ rows, s.Fits) ∧
      ((r.steps.map (·.id)).Nodup → ((r.steps ++ rows).map (·.id)).Nodup) := by
  induction rows generalizing r with
  | nil =>
      cases h
      rw [List.append_nil]
      exact ⟨rfl, fun _ hs => absurd hs List.not_mem_nil, fun hids => hids⟩
  | cons s rest ih =>
      rw [List.foldlM_cons] at h
      obtain ⟨r₁, hinsert, h⟩ := bind_ok h
      have hkeys := (insertAgentStep_keys r₁ hinsert).2.2.2.1
      rw [insertAgentStep] at hinsert
      split at hinsert
      · cases hinsert
      next hadmitted =>
        cases hinsert
        obtain ⟨hrecord, hfits, hids⟩ := ih h
        rw [List.append_assoc, List.singleton_append] at hrecord hids
        refine ⟨hrecord, fun t ht => ?_, fun hstart => hids (hkeys hstart)⟩
        rcases List.mem_cons.mp ht with rfl | hrest
        · exact (admitsStep_iff.mp hadmitted).1
        · exact hfits t hrest

/-- One row that does not fit takes the transaction with it. -/
theorem insertRows_error {r : RunRecord} {rows : List AgentStep} {s : AgentStep} (hs : s ∈ rows)
    (hfits : ¬ s.Fits) : ∃ e, rows.foldlM insertAgentStep r = .error (.database e) := by
  induction rows generalizing r with
  | nil => cases hs
  | cons t rest ih =>
      rw [List.foldlM_cons]
      cases hadmitted : r.admitsStep t with
      | error e =>
          have hinsert : insertAgentStep r t = .error (.database e) := by
            rw [insertAgentStep, hadmitted]
          exact ⟨e, by rw [hinsert]; rfl⟩
      | ok _ =>
          have hinsert : insertAgentStep r t = .ok { r with steps := r.steps ++ [t] } := by
            rw [insertAgentStep, hadmitted]
          rcases List.mem_cons.mp hs with rfl | hrest
          · exact absurd (admitsStep_iff.mp hadmitted).1 hfits
          · obtain ⟨e, he⟩ := @ih { r with steps := r.steps ++ [t] } hrest
            exact ⟨e, by rw [hinsert]; exact he⟩

/-! ## Accepted steps -/

section

variable {v : ToolScalars} (hv : v.Lawful) {sha256 : String → String} {claim : PlanningClaim}
  {available : Bool} {allowed : Option (List ToolIdentity)}

/-- The texts of the step have no NUL, and its evidence fits its column. -/
structure ProposedPlanningStep.Storable (step : ProposedPlanningStep) : Prop where
  texts : ∀ text ∈ step.texts, nul ∉ text.toList
  query : QueryStorable (.obj step.candidateInput)
  evidence : (Json.arr (step.expectedEvidence.map fun e => .str e.text)).storedLen ≤
    maxEvidenceOctets

theorem storable_texts {texts : List String} :
    (Json.arr (texts.map .str)).storable = true ↔ ∀ text ∈ texts, nul ∉ text.toList := by
  rw [storable]
  induction texts with
  | nil => simp [storableItems]
  | cons text rest ih => simp [storableItems, storable, ih]

include hv

/-- Of an accepted step the database refuses what has a NUL, or too much evidence. -/
theorem row_fits_iff {before : List ValidatedStep} {step : ProposedPlanningStep}
    {row : ValidatedStep} (id : Uuid)
    (h : AcceptedStep (currentBuild v sha256) claim available allowed before step row) :
    (row.toRow id).Fits ↔ step.Storable := by
  obtain ⟨fields, rfl⟩ := h.row
  obtain ⟨resolved, hresolved, hnormalized⟩ := h.policy
  obtain ⟨d, hgranted⟩ := resolveToolPolicy_granted hresolved
  have hd := (getExact_some hgranted.registered).1
  have hinput := hgranted.input
  rw [hnormalized] at hinput
  have hstorable := registry_storable hv hd hinput
  have hsize := registry_takes hv hd _ _ hinput
  have hevidence : (validatedStep before.length step (.obj fields)).expectedEvidence.map Json.str
      = step.expectedEvidence.map fun e => .str e.text := List.map_map
  constructor
  · intro hfits
    refine ⟨fun text htext => ?_, hstorable.mp hfits.input, ?_⟩
    · have hlisted := storable_texts.mp hfits.evidence
      simp only [ProposedPlanningStep.texts, List.mem_cons] at htext
      rcases htext with rfl | rfl | rfl | htext
      · exact hfits.texts _ List.mem_cons_self
      · exact hfits.texts _ (List.mem_cons_of_mem _ List.mem_cons_self)
      · exact hfits.texts _ (List.mem_cons_of_mem _ (List.mem_cons_of_mem _ List.mem_cons_self))
      · exact hlisted text htext
    · rw [← hevidence]
      exact hfits.evidenceSize
  · intro hstep
    refine ⟨hstorable.mpr hstep.query, ?_, ?_, ?_, ?_, hsize, ?_⟩
    · refine storable_texts.mpr fun text htext => hstep.texts text ?_
      simp only [ProposedPlanningStep.texts, List.mem_cons]
      exact .inr (.inr (.inr htext))
    · intro text htext
      simp only [ValidatedStep.toRow, validatedStep, List.mem_cons, Option.toList_some,
        List.not_mem_nil, or_false] at htext
      rcases htext with rfl | rfl | rfl | rfl
      · exact hstep.texts _ (by simp [ProposedPlanningStep.texts])
      · exact hstep.texts _ (by simp [ProposedPlanningStep.texts])
      · exact hstep.texts _ (by simp [ProposedPlanningStep.texts])
      · intro hnul
        have hcharacter := List.all_eq_true.mp step.toolName_pattern _ hnul
        revert hcharacter
        decide
    · intro text htext
      simp only [ValidatedStep.toRow, validatedStep, List.mem_cons, List.not_mem_nil,
        or_false] at htext
      rcases htext with rfl | rfl | rfl
      · exact step.purpose.short
      · exact step.successCondition.short
      · exact step.stopCondition.short
    · intro name hname
      cases hname
      exact step.toolName_length.2
    · show (Json.arr (List.map Json.str _)).storedLen ≤ _
      rw [ValidatedStep.toRow, hevidence]
      exact hstep.evidence

/-! ## Plans -/

variable {forbiddenRequest : String → Bool} {plan : PlanningResult}
  {automatic : Option (List ToolIdentity)} {steps : List ValidatedStep} {ids : List Uuid}
  {r : RunRecord} {now : Instant}

omit hv in
theorem Accepted.ordinals {build : Build} {proposed : List ProposedPlanningStep}
    (h : Accepted build claim available allowed proposed steps) :
    steps.map (·.ordinal) = List.range steps.length := by
  induction h with
  | nil => rfl
  | snoc _ hstep ih =>
      obtain ⟨fields, rfl⟩ := hstep.row
      rw [List.map_append, ih, List.length_append, List.length_singleton, List.range_succ]
      rfl

/-- The rows of a plan, in the order they are inserted in. -/
def planRows (steps : List ValidatedStep) (ids : List Uuid) : List AgentStep :=
  (steps.zip ids).map fun row => row.1.toRow row.2

omit hv in
theorem insertPlan_eq :
    (steps.zip ids).foldlM (fun r row => insertAgentStep r (row.1.toRow row.2)) r =
      (planRows steps ids).foldlM insertAgentStep r := by
  rw [planRows, List.foldlM_map]

omit hv in
theorem planRows_ordinals (hlength : ids.length = steps.length) :
    (planRows steps ids).map (·.ordinal) = steps.map (·.ordinal) := by
  have hfst : (steps.zip ids).map (·.1) = steps := List.map_fst_zip (by omega)
  have hcolumn : (planRows steps ids).map (·.ordinal) =
      ((steps.zip ids).map (·.1)).map (·.ordinal) := by
    rw [planRows, List.map_map, List.map_map]
    rfl
  rw [hcolumn, hfst]

omit hv in
theorem planRows_ids (hlength : ids.length = steps.length) :
    (planRows steps ids).map (·.id) = ids := by
  have hsnd : (steps.zip ids).map (·.2) = ids := List.map_snd_zip (by omega)
  have hcolumn : (planRows steps ids).map (·.id) = (steps.zip ids).map (·.2) := by
    rw [planRows, List.map_map]
    rfl
  rw [hcolumn, hsnd]

omit hv in
/-- The plan of a claim is inserted only while the run is planned under it. -/
theorem finalizePlan_eq (hstate : r.run.state = .planning)
    (hrevision : r.run.revision = claim.planningRevision) (hsteps : r.steps = []) :
    finalizePlan r claim (steps.zip ids) now =
      (planRows steps ids).foldlM insertAgentStep r >>= fun r' =>
        transitionRun r' .planning claim.planningRevision .ready now := by
  rw [finalizePlan, if_neg, insertPlan_eq]
  rw [hsteps]
  simp [hstate, hrevision]

/-- A plan that fits is stored, and the run is ready. -/
theorem finalizePlan_stored
    (hvalid : validatePlan (currentBuild v sha256) forbiddenRequest claim plan available
      automatic = .ok steps)
    (hstate : r.run.state = .planning) (hrevision : r.run.revision = claim.planningRevision)
    (hcolumn : r.run.revision ≤ maxInteger) (hsteps : r.steps = []) (hids : ids.Nodup)
    (hlength : ids.length = steps.length) (hplan : ∀ step ∈ plan.steps, step.Storable) :
    ∃ r', finalizePlan r claim (steps.zip ids) now = .ok r' ∧ r'.run.state = .ready ∧
      r'.run.revision = r.run.revision + 1 := by
  obtain ⟨-, -, -, haccepted⟩ := validatePlan_ok hvalid
  have hordinals : ((r.steps ++ planRows steps ids).map (·.ordinal)).Nodup := by
    rw [hsteps, List.nil_append, planRows_ordinals hlength, haccepted.ordinals]
    exact List.nodup_range
  have hkeys : ((r.steps ++ planRows steps ids).map (·.id)).Nodup := by
    rw [hsteps, List.nil_append, planRows_ids hlength]
    exact hids
  have hfits : ∀ s ∈ planRows steps ids, s.Fits := by
    intro s hs
    obtain ⟨row, hrow, rfl⟩ := List.mem_map.mp hs
    obtain ⟨k, hk⟩ := List.getElem?_of_mem (List.of_mem_zip hrow).1
    obtain ⟨step, hstep, hone⟩ := haccepted.step hk
    exact (row_fits_iff hv row.2 hone).mpr (hplan step (List.mem_of_getElem? hstep))
  let stored : RunRecord := { r with steps := r.steps ++ planRows steps ids }
  have hlegal : AgentRunState.ready ∈ legalTransitions stored.run.state := by
    show _ ∈ legalTransitions r.run.state
    rw [hstate]
    decide
  have hmove := @transitionRun_eq_ok stored .ready now none hcolumn hlegal nofun
  rw [finalizePlan_eq hstate hrevision hsteps, insertRows_ok hordinals hkeys hfits, ← hstate,
    ← hrevision]
  exact ⟨_, hmove, rfl, rfl⟩

/-- A plan that does not fit fails on a constraint, and the run stays as it is. -/
theorem finalizePlan_refused
    (hvalid : validatePlan (currentBuild v sha256) forbiddenRequest claim plan available
      automatic = .ok steps)
    (hstate : r.run.state = .planning) (hrevision : r.run.revision = claim.planningRevision)
    (hsteps : r.steps = []) (hlength : ids.length = steps.length) {step : ProposedPlanningStep}
    (hstep : step ∈ plan.steps) (hplan : ¬ step.Storable) :
    ∃ e, finalizePlan r claim (steps.zip ids) now = .error (.database e) := by
  obtain ⟨-, -, -, haccepted⟩ := validatePlan_ok hvalid
  obtain ⟨k, hk⟩ := List.getElem?_of_mem hstep
  have hlt : k < steps.length := by
    rw [← haccepted.length_eq]
    exact (List.getElem?_eq_some_iff.mp hk).1
  have hlt' : k < ids.length := by omega
  obtain ⟨step', hstep', hone⟩ := haccepted.step (List.getElem?_eq_getElem hlt)
  obtain rfl : step' = step := by
    rw [hk] at hstep'
    exact (Option.some.inj hstep').symm
  have hpair : (steps.zip ids)[k]? = some (steps[k], ids[k]) :=
    List.getElem?_zip_eq_some.mpr ⟨List.getElem?_eq_getElem hlt, List.getElem?_eq_getElem hlt'⟩
  have hrow : steps[k].toRow ids[k] ∈ planRows steps ids :=
    List.mem_map.mpr ⟨_, List.mem_of_getElem? hpair, rfl⟩
  have hbad : ¬ (steps[k].toRow ids[k]).Fits := fun hfits =>
    hplan ((row_fits_iff hv ids[k] hone).mp hfits)
  obtain ⟨e, he⟩ := @insertRows_error r _ _ hrow hbad
  refine ⟨e, ?_⟩
  rw [finalizePlan_eq hstate hrevision hsteps, he]
  rfl

/-- An accepted plan is stored, and the run is ready, exactly where no text of it has a NUL
and the evidence of every step fits its column; otherwise a constraint refuses it. -/
theorem plan_stored_iff
    (hvalid : validatePlan (currentBuild v sha256) forbiddenRequest claim plan available
      automatic = .ok steps)
    (hstate : r.run.state = .planning) (hrevision : r.run.revision = claim.planningRevision)
    (hcolumn : r.run.revision ≤ maxInteger) (hsteps : r.steps = []) (hids : ids.Nodup)
    (hlength : ids.length = steps.length) :
    ((∃ r', finalizePlan r claim (steps.zip ids) now = .ok r' ∧ r'.run.state = .ready) ↔
      ∀ step ∈ plan.steps, step.Storable) ∧
    ((∃ e, finalizePlan r claim (steps.zip ids) now = .error (.database e)) ↔
      ¬ ∀ step ∈ plan.steps, step.Storable) := by
  by_cases hplan : ∀ step ∈ plan.steps, step.Storable
  · obtain ⟨r', hok, hready, -⟩ :=
      @finalizePlan_stored v hv _ _ _ _ _ _ _ _ _ now hvalid hstate hrevision hcolumn hsteps
        hids hlength hplan
    refine ⟨iff_of_true ⟨r', hok, hready⟩ hplan, iff_of_false ?_ (not_not.mpr hplan)⟩
    rintro ⟨e, he⟩
    rw [hok] at he
    cases he
  · obtain ⟨step, hstep, hbad⟩ : ∃ step ∈ plan.steps, ¬ step.Storable := by
      by_contra hnone
      exact hplan fun step hstep => by_contra fun hbad => hnone ⟨step, hstep, hbad⟩
    obtain ⟨e, he⟩ := @finalizePlan_refused v hv _ _ _ _ _ _ _ _ _ now hvalid hstate hrevision
      hsteps hlength step hstep hbad
    refine ⟨iff_of_false ?_ hplan, iff_of_true ⟨e, he⟩ hplan⟩
    rintro ⟨r', hok, -⟩
    rw [he] at hok
    cases hok

end

/-! ## A plan with too much evidence -/

section

def shortText {limit : Nat} (h : 5 ≤ limit) : BoundedText limit where
  text := "notes"
  stripped := by decide +kernel
  nonempty := by decide
  short := h

/-- One search, with some evidence. -/
def searchPlan (evidence : List (BoundedText 500))
    (h : 1 ≤ evidence.length ∧ evidence.length ≤ 10) : PlanningResult where
  goalSummary := "Find the notes"
  steps := [
    { purpose := shortText (by decide)
      toolName := "memory.search_explained"
      toolVersion := 1
      candidateInput :=
        [("query", .str "notes"), ("mode", .str "lexical"), ("filters", .obj []),
          ("pagination", .obj [("limit", .int 5), ("offset", .int 0)])]
      expectedEvidence := evidence
      successCondition := shortText (by decide)
      stopCondition := shortText (by decide)
      toolName_pattern := by decide
      toolName_length := by decide
      toolVersion_pos := Nat.one_pos
      evidence_length := h }]
  goalSummary_length := by decide
  steps_length := ⟨Nat.le_refl 1, Nat.le_add_left 1 11⟩

def plannedRun : AgentRun where
  id := 1
  projectId := none
  agentKind := "manual"
  agentVersion := "1"
  goalSummary := "Find the notes"
  registryVersion := AgentTools.registryVersion
  policyVersion := policyVersion
  state := .planning
  stepBudget := stepBudget
  toolCallBudget := toolCallBudget
  retryBudget := retryBudget
  planningDeadline := 600
  runDeadline := 600
  revision := 1
  correlationId := 2
  idempotencyKeyHash := "k"
  normalizedRequestFingerprint := "f"
  safeErrorCode := none
  createdAt := 0
  updatedAt := 0
  startedAt := none
  finishedAt := none

/-- Five hundred characters of four octets each. -/
def fullText : BoundedText 500 where
  text := String.ofList (List.replicate 500 '😀')
  stripped := by
    have hblank : isWhiteSpace '😀' = false := by decide
    have hends : (List.replicate 500 '😀').dropWhile isWhiteSpace = List.replicate 500 '😀' := by
      rw [List.dropWhile_eq_self_iff]
      intro hpos h
      rw [List.getElem_replicate, hblank] at h
      cases h
    rw [Schema.trim, String.toList_ofList, hends, List.rdropWhile, List.reverse_replicate, hends,
      List.reverse_replicate]
  nonempty := by
    rw [String.length_ofList, List.length_replicate]
    decide
  short := by
    rw [String.length_ofList, List.length_replicate]

def modestPlan : PlanningResult := searchPlan [shortText (by decide)] (by decide)

def crowdedPlan : PlanningResult :=
  searchPlan (List.replicate 10 fullText) (by simp)

theorem modestPlan_accepted :
    (validatePlan (currentBuild bareScalars id) (fun _ => false) (claimOf plannedRun 1) modestPlan
      false none).toOption.map List.length = some 1 := by
  decide +kernel

theorem crowdedPlan_accepted :
    (validatePlan (currentBuild bareScalars id) (fun _ => false) (claimOf plannedRun 1) crowdedPlan
      false none).toOption.map List.length = some 1 := by
  decide +kernel

theorem ok_of_length {x : Except PlanningRejection (List ValidatedStep)} {n : Nat}
    (h : x.toOption.map List.length = some n) : ∃ steps, x = .ok steps ∧ steps.length = n := by
  cases x with
  | error e => cases h
  | ok steps => exact ⟨steps, rfl, Option.some.inj h⟩

theorem storedLen_wide (n : Nat) :
    (Json.str (String.ofList (List.replicate n '😀'))).storedLen = 4 * n + 2 := by
  have hbody : octets ((List.replicate n '😀').flatMap escStored) = 4 * n := by
    have hescape : octets (escStored '😀') = 4 := by decide
    induction n with
    | zero => rfl
    | succ n ih =>
        rw [List.replicate_succ, List.flatMap_cons, octets_append, hescape, ih]
        omega
  have hquote : '"'.utf8Size = 1 := by decide
  rw [storedLen, render, quote, octets_cons, octets_append, octets_cons, octets_nil, hquote,
    String.toList_ofList]
  change 1 + (octets ((List.replicate n '😀').flatMap escStored) + _) = _
  rw [hbody]
  omega

theorem storedLen_fullText : (Json.str fullText.text).storedLen = 4 * 500 + 2 :=
  storedLen_wide 500

/-- An array takes at least what its items take. -/
theorem storedLen_items_le (items : List Json) :
    (items.map storedLen).sum ≤ (Json.arr items).storedLen := by
  have hitems : (items.map storedLen).sum ≤ octets (renderItems stored items) := by
    induction items with
    | nil => exact Nat.zero_le _
    | cons j rest ih =>
        cases rest with
        | nil => exact Nat.le_refl _
        | cons k more =>
            rw [List.map_cons, List.sum_cons, renderItems, octets_append, octets_append]
            change j.storedLen + _ ≤ j.storedLen + _ + _
            omega
  rw [storedLen, render, octets_cons, octets_append]
  omega

/-- Ten texts of five hundred characters are evidence that a step has no room for. -/
theorem crowdedPlan_unstorable : ¬ ∀ step ∈ crowdedPlan.steps, step.Storable := by
  intro h
  have hevidence := (h _ List.mem_cons_self).evidence
  have hitems := storedLen_items_le (List.replicate 10 (Json.str fullText.text))
  rw [List.map_replicate, List.sum_replicate, storedLen_fullText] at hitems
  have hten : (List.replicate 10 fullText).map (fun e => Json.str e.text) =
      List.replicate 10 (Json.str fullText.text) := List.map_replicate
  dsimp only at hevidence
  rw [hten] at hevidence
  have hlimit : ¬ 10 • (4 * 500 + 2) ≤ maxEvidenceOctets := by decide
  exact hlimit (Nat.le_trans hitems hevidence)

/-- The plan is accepted, and the database refuses its rows. -/
theorem crowdedPlan_refused : ∃ steps,
    validatePlan (currentBuild bareScalars id) (fun _ => false) (claimOf plannedRun 1) crowdedPlan
      false none = .ok steps ∧
    ∃ e, finalizePlan { run := plannedRun } (claimOf plannedRun 1) (steps.zip [7]) 0 =
      .error (.database e) := by
  obtain ⟨steps, hsteps, hlength⟩ := ok_of_length crowdedPlan_accepted
  refine ⟨steps, hsteps, ?_⟩
  obtain ⟨step, hstep, hbad⟩ : ∃ step ∈ crowdedPlan.steps, ¬ step.Storable := by
    by_contra hnone
    exact crowdedPlan_unstorable fun step hstep => by_contra fun hbad => hnone ⟨step, hstep, hbad⟩
  exact finalizePlan_refused bareScalars_lawful hsteps rfl rfl rfl hlength.symm hstep hbad

theorem modestPlan_stored_iff : ∃ steps,
    validatePlan (currentBuild bareScalars id) (fun _ => false) (claimOf plannedRun 1) modestPlan
      false none = .ok steps ∧
    ((∃ r', finalizePlan { run := plannedRun } (claimOf plannedRun 1) (steps.zip [7]) 0 = .ok r' ∧
        r'.run.state = .ready) ↔ ∀ step ∈ modestPlan.steps, step.Storable) ∧
    ((∃ e, finalizePlan { run := plannedRun } (claimOf plannedRun 1) (steps.zip [7]) 0 =
        .error (.database e)) ↔ ¬ ∀ step ∈ modestPlan.steps, step.Storable) := by
  obtain ⟨steps, hsteps, hlength⟩ := ok_of_length modestPlan_accepted
  refine ⟨steps, hsteps, ?_⟩
  exact plan_stored_iff bareScalars_lawful hsteps rfl rfl (by decide) rfl (by decide) hlength.symm

end

end SecondBrain
