import Mathlib.Data.Bool.AllAny
import SecondBrain.Agents.CuratorProposals

/-!
# When the result of a curator is accepted

A result that keeps to what was collected, speaks of targets as they are and would change them,
and stays within the limits, is stored exactly where no update sets a time or a reference, no
proposal cites a thing twice, and no two of its proposals come to the same one.
-/

namespace SecondBrain

open Lib Lib.Json Lib.Schema

/-! ## Texts -/

/-- The digest of a version. -/
def IsVersion (s : String) : Prop :=
  s.length = 64 ∧ ∀ c ∈ s.toList, c ∈ "0123456789abcdef".toList

theorem storable_text {s : String} : (Json.str s).storable = true ↔ nul ∉ s.toList := by
  simp [storable]

theorem storable_uuid (id : Uuid) : (Json.str id.text).storable = true := by
  rw [storable_text, Uuid.text, String.toList_ofList]
  intro hnul
  rcases Uuid.mem_chars hnul with hdash | hdigit
  · revert hdash
    decide
  · have hhex := (Uuid.mem_hexDigits hdigit).1.1
    revert hhex
    decide

theorem storable_version {s : String} (h : IsVersion s) : (Json.str s).storable = true := by
  rw [storable_text]
  intro hnul
  have := h.2 _ hnul
  revert this
  decide

theorem storable_safe {casefold : String → String} {s : String} (h : safeText casefold s = true) :
    (Json.str s).storable = true := by
  rw [storable_text]
  intro hnul
  rw [safeText, Bool.and_eq_true] at h
  have hcontrol : hasControl s = true := by
    rw [hasControl, List.any_eq_true]
    exact ⟨nul, hnul, by decide⟩
  rw [hcontrol] at h
  exact Bool.false_ne_true h.2

theorem storable_field (f : MemoryField) : (Json.str f.value).storable = true := by
  cases f <;> decide

theorem mem_intercalate {sep : String} {texts : List String} {ch : Char}
    (h : ch ∈ (sep.intercalate texts).toList) :
    ch ∈ sep.toList ∨ ∃ t ∈ texts, ch ∈ t.toList := by
  induction texts with
  | nil =>
      rw [String.intercalate_nil] at h
      simp at h
  | cons t rest ih =>
      cases rest with
      | nil =>
          rw [String.intercalate_singleton] at h
          exact .inr ⟨t, List.mem_cons_self, h⟩
      | cons u more =>
          rw [String.intercalate_cons_cons, String.toList_append, String.toList_append,
            List.mem_append, List.mem_append] at h
          rcases h with (h | h) | h
          · exact .inr ⟨t, List.mem_cons_self, h⟩
          · exact .inl h
          · rcases ih h with h | ⟨x, hx, h⟩
            · exact .inl h
            · exact .inr ⟨x, List.mem_cons_of_mem _ hx, h⟩

theorem previewOf_clean (u : MemoryUpdate) : nul ∉ (previewOf u).toList := by
  intro hnul
  rw [previewOf, String.toList_ofList] at hnul
  have hnul := List.mem_of_mem_take hnul
  rw [String.toList_append, List.mem_append] at hnul
  rcases hnul with hbegins | hfields
  · revert hbegins
    decide
  · rcases mem_intercalate hfields with hsep | ⟨t, ht, hnul⟩
    · revert hsep
      decide
    · rw [List.mem_insertionSort] at ht
      obtain ⟨⟨f, w⟩, -, rfl⟩ := List.mem_map.mp ht
      exact storable_text.mp (storable_field f) hnul

/-! ## Evidence -/

/-- What is read for an agent: of a kind it may cite, under a digest. -/
structure CollectedEvidence.Observed (item : CollectedEvidence) : Prop where
  kind : item.entityType ∈ allowedEvidenceTypes
  version : IsVersion item.version

theorem allowedEvidenceTypes_fit : ∀ kind ∈ allowedEvidenceTypes,
    kind.length ≤ 12 ∧ (Json.str kind).storable = true := by
  decide

/-- What is kept of references is cut from one of them, of an allowed kind. -/
theorem mem_safeEvidence {references : List EvidenceReference} {e : EvidenceReference}
    (h : e ∈ safeEvidence references) : allowedEvidenceTypes.contains e.entityType = true ∧
      ∃ e' ∈ references, e = { e' with version := e'.version.filter (·.length = 64) } := by
  have hfold : ∀ (references kept : List EvidenceReference), ∀ e ∈ references.foldl (fun kept e =>
      if !allowedEvidenceTypes.contains e.entityType ||
          kept.any (fun k => k.entityType == e.entityType && k.id == e.id) then kept
      else kept ++ [{ e with version := e.version.filter (·.length = 64) }]) kept,
      e ∈ kept ∨ allowedEvidenceTypes.contains e.entityType = true ∧ ∃ e' ∈ references,
        e = { e' with version := e'.version.filter (·.length = 64) } := by
    intro references
    induction references with
    | nil => exact fun kept e he => .inl he
    | cons x rest ih =>
        intro kept e he
        rw [List.foldl_cons] at he
        rcases ih _ e he with hkept | ⟨hkind, e', he', heq⟩
        · split at hkept
          · exact .inl hkept
          · next hnew =>
              rw [Bool.or_eq_true, not_or] at hnew
              rcases List.mem_append.mp hkept with hkept | hx
              · exact .inl hkept
              · rw [List.mem_singleton] at hx
                subst hx
                exact .inr ⟨by simpa using hnew.1, x, List.mem_cons_self, rfl⟩
        · exact .inr ⟨hkind, e', List.mem_cons_of_mem _ he', heq⟩
  rcases hfold references [] e (List.mem_of_mem_take h) with hnil | hfound
  · cases hnil
  · exact hfound

section

variable {refs : List CollectedEvidence} {e : EvidenceReference}

theorem toJson_fits (hobserved : ∀ item ∈ refs, item.Observed)
    (h : e ∈ safeEvidence (refs.map citedReference)) :
    e.toJson.storable = true ∧ e.toJson.storedLen + 2 ≤ 816 := by
  obtain ⟨-, e', he', rfl⟩ := mem_safeEvidence h
  obtain ⟨item, hitem, rfl⟩ := List.mem_map.mp he'
  obtain ⟨hkind, hversion⟩ := hobserved item hitem
  obtain ⟨hshort, hstorable⟩ := allowedEvidenceTypes_fit _ hkind
  have hid : item.entityId.text.length = 36 := by
    rw [Uuid.text, String.length_ofList, Uuid.length_chars]
  have hkept : (some item.version).filter (fun v => v.length = 64) = some item.version := by
    rw [Option.filter_some, if_pos (decide_eq_true hversion.1)]
  rw [citedReference, EvidenceReference.toJson]
  dsimp only
  rw [hkept]
  constructor
  · rw [storable_obj]
    intro x hx
    simp only [Option.toList_some, List.map_singleton, List.cons_append, List.nil_append,
      List.mem_cons, List.not_mem_nil, or_false] at hx
    rcases hx with rfl | rfl | rfl
    · exact ⟨show (Json.str "entity_type").storable = true by decide, hstorable⟩
    · exact ⟨show (Json.str "id").storable = true by decide, storable_uuid _⟩
    · exact ⟨show (Json.str "version").storable = true by decide, storable_version hversion⟩
  · refine Nat.le_trans (Nat.add_le_add_right (storedLen_obj_le _) 2) ?_
    have htype := storedLen_str_le item.entityType
    have htext := storedLen_str_le item.entityId.text
    have hdigest := storedLen_str_le item.version
    have hlength := hversion.1
    have hkey₁ : (Json.str "entity_type").storedLen = 13 := by decide
    have hkey₂ : (Json.str "id").storedLen = 4 := by decide
    have hkey₃ : (Json.str "version").storedLen = 9 := by decide
    simp only [Option.toList_some, List.map_cons, List.map_nil, List.cons_append,
      List.nil_append, List.sum_cons, List.sum_nil, hkey₁, hkey₂, hkey₃]
    omega

/-- What a proposal cites fits its column. -/
theorem safeEvidence_fits (hobserved : ∀ item ∈ refs, item.Observed) :
    (Json.arr ((safeEvidence (refs.map citedReference)).map (·.toJson))).storable = true ∧
      (Json.arr ((safeEvidence (refs.map citedReference)).map (·.toJson))).storedLen ≤
        maxEvidenceOctets := by
  have hlength : (safeEvidence (refs.map citedReference)).length ≤ 20 := by
    rw [safeEvidence, List.length_take]
    exact Nat.min_le_left _ _
  constructor
  · rw [storable_arr]
    intro j hj
    obtain ⟨e, he, rfl⟩ := List.mem_map.mp hj
    exact (toJson_fits hobserved he).1
  · refine Nat.le_trans (storedLen_arr_le _) ?_
    rw [List.map_map]
    have hsum := List.sum_le_card_nsmul
      ((safeEvidence (refs.map citedReference)).map ((fun j => j.storedLen + 2) ∘ (·.toJson))) 816
      (by
        intro n hn
        obtain ⟨e, he, rfl⟩ := List.mem_map.mp hn
        exact (toJson_fits hobserved he).2)
    rw [List.length_map, smul_eq_mul] at hsum
    have hlimit : maxEvidenceOctets = 16384 := rfl
    omega

end

/-! ## One proposal -/

/-- What is asked of a proposal: its texts are safe, what it cites was collected and its target
is among it, the target is a memory in the scope of the run as it was read, and would change. -/
structure CuratorProposal.Eligible (build : Build) (parse : PyValue → Option MemoryUpdate)
    (memories : Uuid → Option Memory) (casefold : String → String) (r : RunRecord)
    (evidence : List CollectedEvidence) (p : CuratorProposal) : Prop where
  safe : ∀ key text, (key, PyValue.str text) ∈ p.proposedInput → safeText casefold text = true
  collected : ∀ id ∈ p.evidence, ∃ item ∈ evidence, item.evidenceId = id
  target : p.targetEvidence ∈ p.evidence
  memory : ∀ item, collectedById evidence p.targetEvidence = some item →
    item.entityType = targetTypeMemory ∧ ∃ m, memories item.entityId = some m ∧
      m.id = item.entityId ∧ m.projectId = r.run.projectId ∧
      targetVersion build m = item.version ∧
      ∀ u, parse (.dict p.proposedInput) = some u → ∃ x ∈ u, m.value x.1 ≠ x.2

/-- The request a proposal is created by. -/
def curatorRequest (ordinal : Nat) (target : CollectedEvidence) (p : CuratorProposal)
    (refs : List CollectedEvidence) : ProposalRequest :=
  { stepOrdinal := ordinal
    actionType := actionTypeMemoryUpdate
    targetId := target.entityId
    proposedInput := .dict p.proposedInput
    validatedEvidence := some (refs.map citedReference)
    expectedTargetVersion := some target.version
    allowCurator := true }

/-- The approval a proposal would be stored as, under the two UUIDs its row would draw. -/
def curatorDraft (build : Build) (parse : PyValue → Option MemoryUpdate)
    (memories : Uuid → Option Memory) (r : RunRecord) (evidence : List CollectedEvidence)
    (now : Instant) (p : CuratorProposal × Uuid × Uuid) : Option ApprovalRequest := do
  let target ← collectedById evidence p.1.targetEvidence
  let refs ← resolveAll evidence p.1.evidence
  let step ← r.getStep target.stepId
  (draftProposal build parse memories r (curatorRequest step.ordinal target p.1 refs) now p.2.1
    p.2.2).toOption

section

variable {build : Build} {c : Coercions} {memories : Uuid → Option Memory}
  {casefold : String → String} {r : RunRecord} {evidence : List CollectedEvidence}
  {p : CuratorProposal} {u : MemoryUpdate}

theorem collectedById_some {id : String} {item : CollectedEvidence}
    (h : collectedById evidence id = some item) : item ∈ evidence ∧ item.evidenceId = id := by
  have hid := List.find?_some (p := fun e : CollectedEvidence => e.evidenceId == id) h
  exact ⟨List.mem_reverse.mp (List.mem_of_find?_eq_some h), beq_iff_eq.mp hid⟩

theorem collectedById_isSome {id : String} (h : ∃ item ∈ evidence, item.evidenceId = id) :
    ∃ item, collectedById evidence id = some item := by
  obtain ⟨item, hitem, hid⟩ := h
  rw [← Option.isSome_iff_exists, collectedById, List.find?_isSome]
  exact ⟨item, List.mem_reverse.mpr hitem, beq_iff_eq.mpr hid⟩

theorem resolveAll_isSome {ids : List String}
    (h : ∀ id ∈ ids, ∃ item ∈ evidence, item.evidenceId = id) :
    ∃ refs, resolveAll evidence ids = some refs := by
  induction ids with
  | nil => exact ⟨[], rfl⟩
  | cons id rest ih =>
      obtain ⟨item, hitem⟩ := collectedById_isSome (h id List.mem_cons_self)
      obtain ⟨refs, hrefs⟩ := ih fun x hx => h x (List.mem_cons_of_mem _ hx)
      refine ⟨item :: refs, ?_⟩
      unfold resolveAll at hrefs ⊢
      rw [List.mapM_cons, hitem, hrefs]
      rfl

theorem resolveAll_mem {ids : List String} {refs : List CollectedEvidence}
    {item : CollectedEvidence} (h : resolveAll evidence ids = some refs) (hitem : item ∈ refs) :
    item ∈ evidence := by
  obtain ⟨id, -, hid⟩ := mem_of_mapM h hitem
  exact (collectedById_some hid).1

theorem safeProposedFields_iff {fields : List (String × PyValue)} :
    safeProposedFields casefold fields = true ↔ ∀ x ∈ fields,
      safeText casefold x.1 = true ∧ safeProposedValue casefold x.2 = true := by
  induction fields with
  | nil => simp [safeProposedFields]
  | cons x rest ih =>
      rw [safeProposedFields, Bool.and_eq_true, Bool.and_eq_true, ih]
      simp

/-- A value with a safe text is safe where JSON has it. -/
theorem safeProposedValue_python {w : MemoryValue}
    (h : ∀ text, w.python = .str text → safeText casefold text = true) :
    safeProposedValue casefold w.python = w.python.isPlain := by
  cases w with
  | text t =>
      cases t with
      | none => rfl
      | some text => exact (h text rfl).trans rfl
  | score digits places => rfl
  | time t => cases t <;> rfl
  | ref id => cases id <;> rfl

/-- `casefold` leaves a text of small letters as it is. -/
def KeepsSmall (casefold : String → String) : Prop :=
  ∀ s : String, (∀ ch ∈ s.toList, ch.isLower = true ∨ ch = '_') → casefold s = s

theorem safeText_field (hcasefold : KeepsSmall casefold) (f : MemoryField) :
    safeText casefold f.value = true := by
  have hsmall : ∀ ch ∈ f.value.toList, ch.isLower = true ∨ ch = '_' := by
    cases f <;> exact List.all_iff_forall_prop.mp (by decide)
  rw [safeText, mentionsForbidden, hcasefold _ hsmall]
  cases f <;> decide

/-- The fields of an eligible proposal are safe where each is one that JSON has. -/
theorem safeProposedInput_iff (hcasefold : KeepsSmall casefold)
    (hinput : p.proposedInput = dumpPython u)
    (hsafe : ∀ key text, (key, PyValue.str text) ∈ p.proposedInput →
      safeText casefold text = true) :
    safeProposedValue casefold (.dict p.proposedInput) = true ↔
      ∀ y ∈ p.proposedInput, y.2.isPlain = true := by
  rw [safeProposedValue, safeProposedFields_iff]
  refine forall₂_congr fun y hy => ?_
  have hy' := hy
  rw [hinput] at hy'
  obtain ⟨⟨f, w⟩, -, rfl⟩ := List.mem_map.mp hy'
  rw [safeProposedValue_python fun text htext => hsafe f.value text (by rw [← htext]; exact hy)]
  exact and_iff_right (safeText_field hcasefold f)

variable {parse : PyValue → Option MemoryUpdate}

theorem validateProposal_ok_iff (hcasefold : KeepsSmall casefold)
    (hinput : p.proposedInput = dumpPython u)
    (hp : p.Eligible build parse memories casefold r evidence) :
    (∃ x, validateProposal casefold evidence p = .ok x) ↔
      p.evidence.Nodup ∧ ∀ y ∈ p.proposedInput, y.2.isPlain = true := by
  obtain ⟨target, htarget⟩ := collectedById_isSome (hp.collected _ hp.target)
  obtain ⟨refs, hrefs⟩ := resolveAll_isSome hp.collected
  obtain ⟨item, hmem, hitem⟩ := mapM_of_mem hrefs hp.target
  rw [htarget, Option.some.injEq] at hitem
  subst hitem
  have hkind := (hp.memory target htarget).1
  rw [← safeProposedInput_iff hcasefold hinput hp.safe, validateProposal, htarget, hrefs]
  dsimp only
  split
  · next hbad =>
      refine iff_of_false (fun ⟨x, hx⟩ => nomatch hx) ?_
      rintro ⟨hnodup, hsafe⟩
      rcases hbad with hbad | hbad | hbad | hbad
      · exact hbad hkind
      · exact hbad hmem
      · exact hbad hnodup
      · rw [hsafe] at hbad
        cases hbad
  · next hgood =>
      simp only [not_or, not_not] at hgood
      exact iff_of_true ⟨_, rfl⟩ ⟨hgood.2.2.1, by simpa using hgood.2.2.2⟩

theorem validateProposal_ok {x : CollectedEvidence × List CollectedEvidence}
    (h : validateProposal casefold evidence p = .ok x) :
    collectedById evidence p.targetEvidence = some x.1 ∧
      resolveAll evidence p.evidence = some x.2 := by
  rw [validateProposal] at h
  split at h
  · next htarget hrefs =>
      split at h
      · cases h
      · cases h
        exact ⟨htarget, hrefs⟩
  · cases h

theorem not_isResearch (h : isCurator r.run.agentKind r.run.agentVersion = true) :
    isResearch r.run.agentKind r.run.agentVersion = false := by
  rw [isCurator, Bool.and_eq_true, beq_iff_eq] at h
  rw [isResearch, h.1]
  rfl

/-- The dump of an update of safe texts that sets no time and no reference is stored. -/
theorem storable_dump (hsafe : ∀ key text, (key, PyValue.str text) ∈ dumpPython u →
      safeText casefold text = true)
    (hplain : ∀ y ∈ dumpPython u, y.2.isPlain = true) : (dumpUpdate u).storable = true := by
  rw [dumpUpdate, storable_obj]
  intro y hy
  obtain ⟨⟨f, w⟩, hmem, rfl⟩ := List.mem_map.mp hy
  have hdump : (f.value, w.python) ∈ dumpPython u :=
    List.mem_map_of_mem (f := fun e : MemoryField × MemoryValue => (e.1.value, e.2.python)) hmem
  refine ⟨storable_field f, ?_⟩
  cases w with
  | text t =>
      cases t with
      | none => rfl
      | some text => exact storable_safe (hsafe f.value text hdump)
  | score digits places => rfl
  | time t =>
      cases t with
      | none => rfl
      | some t => exact absurd (hplain _ hdump) Bool.false_ne_true
  | ref id =>
      cases id with
      | none => rfl
      | some id => exact absurd (hplain _ hdump) Bool.false_ne_true

variable {now : Instant} {approvalId executionId : Uuid}

/-- What a draft says of its target, which the result of the curator repeats. -/
def ApprovalRequest.announced (a : ApprovalRequest) : String × Uuid × String :=
  (a.actionType, a.targetPublicId, a.targetVersion)

/-- The draft of an eligible proposal. -/
theorem curatorDraft_some (now : Instant) (approvalId executionId : Uuid)
    (hcurator : isCurator r.run.agentKind r.run.agentVersion = true)
    (hsteps : ∀ item ∈ evidence, (r.getStep item.stepId).isSome = true)
    (hp : p.Eligible build parse memories casefold r evidence)
    (hu : parse (.dict p.proposedInput) = some u) :
    ∃ target refs a, collectedById evidence p.targetEvidence = some target ∧
      resolveAll evidence p.evidence = some refs ∧
      curatorDraft build parse memories r evidence now (p, approvalId, executionId) = some a ∧
      a.announced = (actionTypeMemoryUpdate, target.entityId, target.version) ∧
      a.id = approvalId ∧ (∃ st ∈ r.steps, st.id = a.stepId) ∧ a.createdAt < a.expiresAt ∧
      a.normalizedInput = dumpUpdate u ∧ a.preview = previewOf u ∧
      a.evidenceReferences = safeEvidence (refs.map citedReference) := by
  obtain ⟨target, htarget⟩ := collectedById_isSome (hp.collected _ hp.target)
  obtain ⟨refs, hrefs⟩ := resolveAll_isSome hp.collected
  obtain ⟨-, m, hm, hid, hscope, hversion, hchanged⟩ := hp.memory target htarget
  obtain ⟨step, hstep⟩ := Option.isSome_iff_exists.mp (hsteps _ (collectedById_some htarget).1)
  have hfind : (r.steps.find? (·.ordinal == step.ordinal)).isSome = true := by
    rw [List.find?_isSome]
    exact ⟨step, List.mem_of_find?_eq_some hstep, beq_self_eq_true _⟩
  obtain ⟨st, hst⟩ := Option.isSome_iff_exists.mp hfind
  have hupdate : normalizeMemoryUpdate parse (.dict p.proposedInput) m = .ok u := by
    obtain ⟨x, hx, hne⟩ := hchanged u hu
    rw [normalizeMemoryUpdate, hu]
    dsimp only
    rw [if_neg]
    intro hall
    exact hne (of_decide_eq_true (List.all_eq_true.mp hall x hx))
  have hdraft : draftProposal build parse memories r (curatorRequest step.ordinal target p refs)
      now approvalId executionId = .ok (newApproval st.id m.id (targetVersion build m)
        (proposalHash build m.id (targetVersion build m) (dumpUpdate u)) u
        (safeEvidence (refs.map citedReference)) now approvalId executionId) := by
    refine draftProposal_eq rfl (not_isResearch hcurator) hcurator hst hm hscope ?_ hupdate
    simp [curatorRequest, hversion]
  obtain ⟨hrow, hlifetime, -, -⟩ := draftProposal_ok hdraft
  refine ⟨target, refs, _, htarget, hrefs, ?_, ?_, rfl, hrow, hlifetime, rfl, rfl, rfl⟩
  · rw [curatorDraft, htarget, Option.bind_eq_bind, Option.bind_some, hrefs, Option.bind_eq_bind,
      Option.bind_some, hstep, Option.bind_eq_bind, Option.bind_some, hdraft]
    rfl
  · rw [ApprovalRequest.announced, ← hid, ← hversion]
    rfl

/-- It fits the columns of an approval if its input does. -/
theorem draft_fits {a : ApprovalRequest} {refs : List CollectedEvidence}
    (hobserved : ∀ item ∈ evidence, item.Observed)
    (hrefs : resolveAll evidence p.evidence = some refs)
    (hinput : a.normalizedInput = dumpUpdate u) (hpreview : a.preview = previewOf u)
    (hevidence : a.evidenceReferences = safeEvidence (refs.map citedReference))
    (hstorable : (dumpUpdate u).storable = true)
    (hsize : (dumpUpdate u).storedLen ≤ maxInputOctets)
    (hnew : ∀ b ∈ r.approvals, b.id ≠ a.id) : r.fits a = true := by
  have hcited := safeEvidence_fits fun item hitem => hobserved item (resolveAll_mem hrefs hitem)
  have hclean : (previewOf u).toList.contains nul = false := by
    rw [Bool.eq_false_iff, ne_eq, List.contains_iff_mem]
    exact previewOf_clean u
  rw [RunRecord.fits, hinput, hpreview, hevidence, hstorable, hcited.1, hclean, decide_eq_true hsize,
    decide_eq_true hcited.2]
  simpa using hnew

theorem draftProposal_congr {r' : RunRecord} {ordinal : Nat} {target : CollectedEvidence}
    {refs : List CollectedEvidence} (hrun : r'.run = r.run) (hsteps : r'.steps = r.steps) :
    draftProposal build parse memories r' (curatorRequest ordinal target p refs) now approvalId
        executionId =
      draftProposal build parse memories r (curatorRequest ordinal target p refs) now approvalId
        executionId := by
  unfold draftProposal
  rw [hrun, hsteps]
  rfl

/-- A valid proposal submits its draft. -/
theorem propose_eq {s : Proposing} {a : ApprovalRequest} {x : CollectedEvidence × List CollectedEvidence}
    {q : CuratorProposal × Uuid × Uuid} (hrun : s.record.run = r.run)
    (hsteps : s.record.steps = r.steps) (hvalid : validateProposal casefold evidence q.1 = .ok x)
    (hversion : IsVersion x.1.version)
    (hdraft : curatorDraft build parse memories r evidence now q = some a) :
    propose build parse memories casefold evidence now s q = submit build s a := by
  obtain ⟨target, refs⟩ := x
  obtain ⟨htarget, hrefs⟩ := validateProposal_ok hvalid
  obtain ⟨item, hitem, hdraft⟩ := Option.bind_eq_some_iff.mp hdraft
  obtain rfl := Option.some.inj (htarget.symm.trans hitem)
  obtain ⟨items, hitems, hdraft⟩ := Option.bind_eq_some_iff.mp hdraft
  obtain rfl := Option.some.inj (hrefs.symm.trans hitems)
  obtain ⟨step, hstep, hdraft⟩ := Option.bind_eq_some_iff.mp hdraft
  have hok : draftProposal build parse memories r (curatorRequest step.ordinal target q.1 refs) now
      q.2.1 q.2.2 = .ok a := by
    cases h : draftProposal build parse memories r (curatorRequest step.ordinal target q.1 refs)
        now q.2.1 q.2.2 with
    | error e =>
        rw [h] at hdraft
        cases hdraft
    | ok b =>
        rw [h] at hdraft
        cases hdraft
        rfl
  have hgood : ¬ (target.version.length ≠ 64 ∨
      target.version.toList.any (fun c => !"0123456789abcdef".toList.contains c) = true) := by
    rw [not_or, not_not, List.any_eq_true]
    refine ⟨hversion.1, fun ⟨ch, hch, hbad⟩ => ?_⟩
    rw [Bool.not_eq_true', Bool.eq_false_iff, ne_eq, List.contains_iff_mem] at hbad
    exact hbad (hversion.2 ch hch)
  have hcreate : createCuratorProposal build parse memories s.record step.ordinal
      actionTypeMemoryUpdate target.entityId target.version (.dict q.1.proposedInput)
      (refs.map citedReference) now q.2.1 q.2.2 = submitDraft build s.record a := by
    have hsame : draftProposal build parse memories s.record
        (curatorRequest step.ordinal target q.1 refs) now q.2.1 q.2.2 = .ok a :=
      (draftProposal_congr hrun hsteps).trans hok
    rw [createCuratorProposal, if_neg hgood, createProposal_eq]
    exact congrArg (fun draft => draft >>= submitDraft build s.record) hsame
  have hget : s.record.getStep target.stepId = some step := by
    rw [RunRecord.getStep, hsteps]
    exact hstep
  rw [propose, hvalid]
  simp only [Bind.bind, Except.bind, hget, hcreate, submit]

end

/-! ## The result -/

/-- A finding that can be stored: its text is safe, and it cites what was collected, once. -/
structure CuratorFinding.Sound (casefold : String → String) (evidence : List CollectedEvidence)
    (f : CuratorFinding) : Prop where
  safe : safeText casefold f.text = true
  once : f.evidence.Nodup
  collected : ∀ id ∈ f.evidence, ∃ item ∈ evidence, item.evidenceId = id

/-- What the approvals of a result say of their targets. -/
def announcedTargets (evidence : List CollectedEvidence) (proposals : List CuratorProposal) :
    List (String × Uuid × String) :=
  proposals.filterMap fun p => (collectedById evidence p.targetEvidence).map fun item =>
    (actionTypeMemoryUpdate, item.entityId, item.version)

/-- Each input fits its column, and what is stored of the result its own, whatever the
identifiers of the approvals are. -/
structure WithinLimits (c : Coercions) (casefold : String → String)
    (evidence : List CollectedEvidence) (q : CuratorProviderResult) : Prop where
  inputs : ∀ p ∈ q.proposals, ∀ u, updateOf c (.dict p.proposedInput) = some u →
    (dumpUpdate u).storedLen ≤ maxInputOctets
  result : ∀ findings approvals, q.findings.mapM (validateFinding casefold evidence) = .ok findings →
    approvals.map ApprovalRequest.announced = announcedTargets evidence q.proposals →
    (curatorJson findings approvals).dumpsLen ≤ maxCuratorText ∧
      (curatorJson findings approvals).storedLen ≤ maxEventMetadata

/-- The proposals with the UUIDs their rows would draw. -/
def numbered (proposals : List CuratorProposal) (uuids : Nat → Uuid × Uuid) :
    List (CuratorProposal × Uuid × Uuid) :=
  proposals.zipIdx.map fun (p, k) => (p, uuids k)

section

variable {build : Build} {c : Coercions} {memories : Uuid → Option Memory}
  {casefold : String → String} {r : RunRecord} {evidence : List CollectedEvidence}
  {v : StrictCuratorProviderResult} {q : CuratorProviderResult} {now : Instant}
  {parse : PyValue → Option MemoryUpdate} {uuids : Nat → Uuid × Uuid}
  {items : List (CuratorProposal × Uuid × Uuid)} {drafts : List ApprovalRequest}

theorem mapM_ok {α β ε : Type} {g : α → Except ε β} {xs : List α}
    (h : ∀ x ∈ xs, ∃ y, g x = .ok y) : ∃ ys, xs.mapM g = .ok ys := by
  induction xs with
  | nil => exact ⟨[], rfl⟩
  | cons x rest ih =>
      obtain ⟨y, hy⟩ := h x List.mem_cons_self
      obtain ⟨ys, hys⟩ := ih fun z hz => h z (List.mem_cons_of_mem _ hz)
      refine ⟨y :: ys, ?_⟩
      rw [List.mapM_cons, hy, hys]
      rfl

theorem mem_of_mapM_ok {α β ε : Type} {g : α → Except ε β} {xs : List α} {ys : List β} {y : β}
    (h : xs.mapM g = .ok ys) (hy : y ∈ ys) : ∃ x ∈ xs, g x = .ok y := by
  induction xs generalizing ys with
  | nil =>
      cases h
      cases hy
  | cons x rest ih =>
      rw [List.mapM_cons] at h
      obtain ⟨z, hz, h⟩ := bind_ok h
      obtain ⟨zs, hzs, h⟩ := bind_ok h
      cases h
      rcases List.mem_cons.mp hy with rfl | hy
      · exact ⟨x, List.mem_cons_self, hz⟩
      · obtain ⟨x', hx', hg⟩ := ih hzs hy
        exact ⟨x', List.mem_cons_of_mem _ hx', hg⟩

theorem validateFinding_ok {f : CuratorFinding} (h : f.Sound casefold evidence) :
    ∃ j, validateFinding casefold evidence f = .ok j := by
  obtain ⟨refs, hrefs⟩ := resolveAll_isSome h.collected
  refine ⟨findingJson f.text refs, ?_⟩
  rw [validateFinding, if_neg, hrefs]
  rw [h.safe, not_or, not_not]
  exact ⟨nofun, h.once⟩

theorem storable_finding (hobserved : ∀ item ∈ evidence, item.Observed) {f : CuratorFinding}
    {j : Json} (h : validateFinding casefold evidence f = .ok j) : j.storable = true := by
  rw [validateFinding] at h
  split at h
  · cases h
  next hgood =>
  rw [not_or, Bool.not_eq_false] at hgood
  split at h
  · cases h
  next refs hrefs =>
  cases h
  rw [findingJson, storable_obj]
  intro x hx
  simp only [List.mem_cons, List.not_mem_nil, or_false] at hx
  rcases hx with rfl | rfl
  · exact ⟨show (Json.str "text").storable = true by decide, storable_safe hgood.1⟩
  · refine ⟨show (Json.str "evidence").storable = true by decide, ?_⟩
    dsimp only
    rw [storable_arr]
    intro y hy
    obtain ⟨item, hitem, rfl⟩ := List.mem_map.mp hy
    obtain ⟨hkind, hversion⟩ := hobserved item (resolveAll_mem hrefs hitem)
    rw [storable_obj]
    intro z hz
    simp only [List.mem_cons, List.not_mem_nil, or_false] at hz
    rcases hz with rfl | rfl | rfl
    · exact ⟨show (Json.str "entity_type").storable = true by decide,
        (allowedEvidenceTypes_fit _ hkind).2⟩
    · exact ⟨show (Json.str "entity_id").storable = true by decide, storable_uuid _⟩
    · exact ⟨show (Json.str "version").storable = true by decide, storable_version hversion⟩

theorem storable_proposed {a : ApprovalRequest} {id : Uuid} {version : String}
    (h : a.announced = (actionTypeMemoryUpdate, id, version)) (hversion : IsVersion version) :
    (proposedJson a).storable = true := by
  simp only [ApprovalRequest.announced, Prod.mk.injEq] at h
  obtain ⟨haction, -, rfl⟩ := h
  rw [proposedJson, storable_obj]
  intro x hx
  simp only [List.mem_cons, List.not_mem_nil, or_false] at hx
  rcases hx with rfl | rfl | rfl | rfl
  · exact ⟨show (Json.str "approval_id").storable = true by decide, storable_uuid _⟩
  · refine ⟨show (Json.str "action_type").storable = true by decide, ?_⟩
    dsimp only
    rw [haction]
    decide
  · exact ⟨show (Json.str "target_id").storable = true by decide, storable_uuid _⟩
  · exact ⟨show (Json.str "target_version").storable = true by decide, storable_version hversion⟩

theorem storable_result {findings : List Json} {approvals : List ApprovalRequest}
    (hobserved : ∀ item ∈ evidence, item.Observed)
    (hfindings : q.findings.mapM (validateFinding casefold evidence) = .ok findings)
    (happrovals : approvals.map ApprovalRequest.announced = announcedTargets evidence q.proposals) :
    (curatorJson findings approvals).storable = true := by
  rw [curatorJson, storable_obj]
  intro x hx
  simp only [List.mem_cons, List.not_mem_nil, or_false] at hx
  rcases hx with rfl | rfl
  · refine ⟨show (Json.str "findings").storable = true by decide, storable_arr.mpr ?_⟩
    intro j hj
    obtain ⟨f, -, hf⟩ := mem_of_mapM_ok hfindings hj
    exact storable_finding hobserved hf
  · refine ⟨show (Json.str "proposed_actions").storable = true by decide, storable_arr.mpr ?_⟩
    intro j hj
    obtain ⟨a, ha, rfl⟩ := List.mem_map.mp hj
    have hannounced : a.announced ∈ announcedTargets evidence q.proposals := by
      rw [← happrovals]
      exact List.mem_map_of_mem ha
    obtain ⟨p, -, hp⟩ := List.mem_filterMap.mp hannounced
    obtain ⟨item, hitem, heq⟩ := Option.map_eq_some_iff.mp hp
    exact storable_proposed heq.symm (hobserved item (collectedById_some hitem).1).version

/-- What an event has to have to be stored under no hash and no keys. -/
theorem appendAgentEvent_result (r record : RunRecord) (now : Instant)
    (eventType code message : String) {value : Json} (hcode : code.length ≤ 100) (hstorable : value.storable = true)
    (hsize : value.storedLen ≤ maxEventMetadata) :
    ∃ r', appendAgentEvent record (resultEvent r eventType code message value now) = .ok r' := by
  have hadmitted : record.admitsEvent (resultEvent r eventType code message value now) = .ok () := by
    have htexts : ¬ ((resultEvent r eventType code message value now).metadata.storable = false ∨
        100 < (resultEvent r eventType code message value now).safeCode.length) := by
      rw [not_or, not_lt]
      exact ⟨by rw [resultEvent, hstorable]; nofun, hcode⟩
    have hsmall : ¬ maxEventMetadata <
        (resultEvent r eventType code message value now).metadata.storedLen := not_lt.mpr hsize
    unfold RunRecord.admitsEvent
    rw [if_neg htexts, if_neg hsmall]
    simp [resultEvent]
  rw [appendAgentEvent, hadmitted]
  exact ⟨_, rfl⟩

theorem announced_resolved {a : ApprovalRequest} : (r.resolved a).announced = a.announced := by
  cases hk : r.isKnown a with
  | false => rw [resolved_of_unknown hk]
  | true =>
      obtain ⟨-, haction, -, htarget, hversion, -⟩ := sameProposal_iff.mp (resolved_of_known hk).2.1
      rw [ApprovalRequest.announced, ApprovalRequest.announced, haction, htarget, hversion]

/-- A batch that goes through has validated each of its proposals. -/
theorem foldlM_propose_valid {s s' : Proposing}
    (h : items.foldlM (propose build parse memories casefold evidence now) s = .ok s') :
    ∀ p ∈ items, ∃ x, validateProposal casefold evidence p.1 = .ok x := by
  induction items generalizing s with
  | nil => exact nofun
  | cons p rest ih =>
      rw [List.foldlM_cons] at h
      obtain ⟨s₁, hs₁, h⟩ := bind_ok h
      intro p' hp'
      rcases List.mem_cons.mp hp' with rfl | hp'
      · obtain ⟨x, hx, -⟩ := bind_ok hs₁
        exact ⟨x, hx⟩
      · exact ih h p' hp'

theorem submit_keeps {s s' : Proposing} {a : ApprovalRequest} (h : submit build s a = .ok s') :
    s'.record.run = s.record.run ∧ s'.record.steps = s.record.steps := by
  cases hdraft : submitDraft build s.record a with
  | error e => exact absurd ⟨s', h⟩ (submit_refused hdraft)
  | ok x =>
      obtain ⟨⟨b, fresh⟩, record⟩ := x
      rw [submit_eq hdraft] at h
      split at h
      · cases h
      · cases h
        rw [submitDraft] at hdraft
        split at hdraft
        · cases hdraft
          exact ⟨rfl, rfl⟩
        · obtain ⟨r₁, hstore, hdraft⟩ := bind_ok hdraft
          cases hdraft
          rw [storeProposal_eq] at hstore
          obtain ⟨r₂, hinsert, happend⟩ := bind_ok hstore
          obtain ⟨-, rfl⟩ := appendAgentEvent_ok happend
          rw [insertApprovalRequest] at hinsert
          split at hinsert
          · cases hinsert
          · cases hinsert
            exact ⟨rfl, rfl⟩

/-- Valid proposals submit their drafts one after the other. -/
theorem foldlM_propose_eq (hobserved : ∀ item ∈ evidence, item.Observed)
    (hvalid : ∀ p ∈ items, ∃ x, validateProposal casefold evidence p.1 = .ok x)
    (hdrafts : items.mapM (curatorDraft build parse memories r evidence now) = some drafts)
    {s : Proposing} (hrun : s.record.run = r.run) (hsteps : s.record.steps = r.steps) :
    items.foldlM (propose build parse memories casefold evidence now) s =
      drafts.foldlM (submit build) s := by
  induction items generalizing drafts s with
  | nil =>
      cases hdrafts
      rfl
  | cons p rest ih =>
      rw [List.mapM_cons] at hdrafts
      obtain ⟨a, ha, hdrafts⟩ := Option.bind_eq_some_iff.mp hdrafts
      obtain ⟨tail, htail, hdrafts⟩ := Option.bind_eq_some_iff.mp hdrafts
      cases hdrafts
      obtain ⟨x, hx⟩ := hvalid p List.mem_cons_self
      have htarget := (validateProposal_ok hx).1
      have hversion := (hobserved x.1 (collectedById_some htarget).1).version
      rw [List.foldlM_cons, List.foldlM_cons, propose_eq hrun hsteps hx hversion ha]
      cases hsubmit : submit build s a with
      | error e => rfl
      | ok s₁ =>
          obtain ⟨hrun₁, hsteps₁⟩ := submit_keeps hsubmit
          exact ih (fun p' hp' => hvalid p' (List.mem_cons_of_mem _ hp')) htail
            (hrun₁.trans hrun) (hsteps₁.trans hsteps)

/-- Every eligible proposal has a draft, under the first of its UUIDs. -/
theorem drafts_exist (now : Instant)
    (hcurator : isCurator r.run.agentKind r.run.agentVersion = true)
    (hsteps : ∀ item ∈ evidence, (r.getStep item.stepId).isSome = true)
    (hitems : ∀ p ∈ items, p.1.Eligible build parse memories casefold r evidence ∧
      ∃ u, parse (.dict p.1.proposedInput) = some u) :
    ∃ drafts, items.mapM (curatorDraft build parse memories r evidence now) = some drafts ∧
      drafts.map (·.id) = items.map (·.2.1) ∧
      drafts.map ApprovalRequest.announced = announcedTargets evidence (items.map (·.1)) := by
  induction items with
  | nil => exact ⟨[], rfl, rfl, rfl⟩
  | cons p rest ih =>
      obtain ⟨hp, u, hu⟩ := hitems p List.mem_cons_self
      obtain ⟨target, -, a, htarget, -, ha, hannounced, hid, -⟩ :=
        curatorDraft_some now p.2.1 p.2.2 hcurator hsteps hp hu
      obtain ⟨drafts, hdrafts, hids, hall⟩ := ih fun p' hp' => hitems p' (List.mem_cons_of_mem _ hp')
      refine ⟨a :: drafts, ?_, ?_, ?_⟩
      · rw [List.mapM_cons, ha, hdrafts]
        rfl
      · rw [List.map_cons, List.map_cons, hids, hid]
      · rw [announcedTargets] at hall ⊢
        rw [List.map_cons, List.map_cons, List.filterMap_cons_some (by rw [htarget]; rfl), ← hall,
          hannounced]

/-- The drafts of proposals that are plain fit. -/
theorem drafts_fit (hobserved : ∀ item ∈ evidence, item.Observed)
    (hcurator : isCurator r.run.agentKind r.run.agentVersion = true)
    (hsteps : ∀ item ∈ evidence, (r.getStep item.stepId).isSome = true)
    (hitems : ∀ p ∈ items, p.1.Eligible build parse memories casefold r evidence ∧
      ∃ u, parse (.dict p.1.proposedInput) = some u ∧ p.1.proposedInput = dumpPython u ∧
        (dumpUpdate u).storedLen ≤ maxInputOctets)
    (hplain : ∀ p ∈ items, ∀ y ∈ p.1.proposedInput, y.2.isPlain = true)
    (hfresh : ∀ p ∈ items, ∀ b ∈ r.approvals, b.id ≠ p.2.1)
    (hdrafts : items.mapM (curatorDraft build parse memories r evidence now) = some drafts) :
    ∀ a ∈ drafts, Drafted r [] a := by
  intro a ha
  obtain ⟨p, hp, hdraft⟩ := mem_of_mapM hdrafts ha
  obtain ⟨heligible, u, hu, hinput, hsize⟩ := hitems p hp
  obtain ⟨-, refs, a', -, hrefs, hdraft', -, hid, hrow, hlifetime, hnormal, hpreview, hevidence⟩ :=
    curatorDraft_some now p.2.1 p.2.2 hcurator hsteps heligible hu
  obtain rfl := Option.some.inj (hdraft'.symm.trans hdraft)
  have hstorable : (dumpUpdate u).storable = true :=
    storable_dump (fun key text hmem => heligible.safe key text (by rw [hinput]; exact hmem))
      (fun y hy => hplain p hp y (by rw [hinput]; exact hy))
  refine ⟨?_, hrow, hlifetime, nofun⟩
  refine draft_fits hobserved hrefs hnormal hpreview hevidence hstorable hsize fun b hb => ?_
  rw [hid]
  exact hfresh p hp b hb

theorem mem_numbered {proposals : List CuratorProposal} {p : CuratorProposal × Uuid × Uuid}
    (h : p ∈ numbered proposals uuids) : p.1 ∈ proposals ∧ ∃ k, p.2 = uuids k := by
  obtain ⟨⟨p', k⟩, hmem, rfl⟩ := List.mem_map.mp h
  exact ⟨List.fst_mem_of_mem_zipIdx hmem, k, rfl⟩

theorem numbered_fst (proposals : List CuratorProposal) (uuids : Nat → Uuid × Uuid) :
    (numbered proposals uuids).map (·.1) = proposals := by
  rw [numbered, List.map_map]
  exact List.zipIdx_map_fst 0 proposals

theorem numbered_forall {proposals : List CuratorProposal} (P : CuratorProposal → Prop) :
    (∀ p ∈ numbered proposals uuids, P p.1) ↔ ∀ p ∈ proposals, P p := by
  constructor
  · intro h p hp
    rw [← numbered_fst proposals uuids] at hp
    obtain ⟨x, hx, rfl⟩ := List.mem_map.mp hp
    exact h x hx
  · exact fun h p hp => h _ (mem_numbered hp).1

theorem numbered_ids (proposals : List CuratorProposal)
    (huuids : ∀ j < proposals.length, ∀ k < proposals.length, (uuids j).1 = (uuids k).1 → j = k) :
    ((numbered proposals uuids).map (·.2.1)).Nodup := by
  have hpairs : (numbered proposals uuids).map (·.2.1) =
      (proposals.zipIdx.map (·.2)).map fun k => (uuids k).1 := by
    rw [numbered, List.map_map, List.map_map]
    rfl
  rw [hpairs, List.zipIdx_map_snd]
  refine List.Nodup.map_on (fun j hj k hk h => ?_) List.nodup_range'
  rw [List.mem_range'_1, Nat.zero_add] at hj hk
  exact huuids j hj.2 k hk.2 h

/-- Once admitted, a result is stored where its proposals are. -/
theorem persistCuratorResult_ok_iff {current : String → Uuid → Option String}
    (hcurator : isCurator r.run.agentKind r.run.agentVersion = true)
    (hrunning : r.run.state = .running) (hdeadline : now < r.run.runDeadline)
    (hcurrent : stillCurrent r current evidence = true)
    (hobserved : ∀ item ∈ evidence, item.Observed)
    (hfindings : ∀ f ∈ q.findings, f.Sound casefold evidence)
    (hlimits : WithinLimits c casefold evidence q)
    (hannounced : ∀ s', (numbered q.proposals uuids).foldlM
        (propose build parse memories casefold evidence now) { record := r } = .ok s' →
      s'.approvals.map ApprovalRequest.announced = announcedTargets evidence q.proposals) :
    (∃ r', persistCuratorResult build parse memories casefold current r evidence q uuids now =
        .ok (true, r')) ↔
      ∃ s', (numbered q.proposals uuids).foldlM
        (propose build parse memories casefold evidence now) { record := r } = .ok s' := by
  obtain ⟨findings, hjson⟩ := mapM_ok fun f hf => validateFinding_ok (hfindings f hf)
  unfold persistCuratorResult
  rw [if_neg (by rw [hcurator, hrunning]; simp), if_neg (not_le.mpr hdeadline),
    if_neg (by rw [hcurrent]; nofun), hjson]
  change (∃ r', (Except.bind ((numbered q.proposals uuids).foldlM _ _) _) = _) ↔ _
  cases hfold : (numbered q.proposals uuids).foldlM
      (propose build parse memories casefold evidence now) { record := r } with
  | error e => exact iff_of_false (fun ⟨_, h⟩ => nomatch h) (fun ⟨_, h⟩ => nomatch h)
  | ok s' =>
      have happrovals := hannounced s' hfold
      obtain ⟨htext, hsize⟩ := hlimits.result findings s'.approvals hjson happrovals
      have hstorable := storable_result hobserved hjson happrovals
      obtain ⟨r', happend⟩ := appendAgentEvent_result r s'.record now "curator.result"
        "curator_result" "bounded Curator advice produced" (by decide) hstorable hsize
      refine iff_of_true ⟨r', ?_⟩ ⟨s', rfl⟩
      simp only [Except.bind]
      rw [if_neg (not_lt.mpr htext)]
      simp only [Bind.bind, Except.bind, happend]
      rfl

/-- A result that keeps to what was collected and stays within the limits is accepted where no
update sets a time or a reference, nothing is cited twice by one proposal, and no two proposals
come to the same one. -/
theorem curator_result_accepted_iff {current : String → Uuid → Option String}
    (hq : translateCuratorResult c v = some q) (hcasefold : KeepsSmall casefold)
    (hcurator : isCurator r.run.agentKind r.run.agentVersion = true)
    (hrunning : r.run.state = .running) (hdeadline : now < r.run.runDeadline)
    (hcurrent : stillCurrent r current evidence = true)
    (hobserved : ∀ item ∈ evidence, item.Observed)
    (hfindings : ∀ f ∈ q.findings, f.Sound casefold evidence)
    (hproposals : ∀ p ∈ q.proposals,
      p.Eligible build (updateOf c) memories casefold r evidence)
    (hlimits : WithinLimits c casefold evidence q)
    (hids : (r.approvals.map (·.id)).Nodup)
    (huuids : ∀ j < q.proposals.length, ∀ k < q.proposals.length,
      (uuids j).1 = (uuids k).1 → j = k)
    (hfresh : ∀ k, ∀ b ∈ r.approvals, b.id ≠ (uuids k).1) :
    (∃ r', persistCuratorResult build (updateOf c) memories casefold current r evidence q uuids
        now = .ok (true, r')) ↔
      (∀ s ∈ v.proposals, s.evidence.Nodup ∧
        ∀ f ∈ s.updatedFields, s.proposedInput.isPlain f = true) ∧
      ∃ drafts, (numbered q.proposals uuids).mapM
          (curatorDraft build (updateOf c) memories r evidence now) = some drafts ∧
        (∀ a ∈ drafts, Open build r a) ∧ drafts.Pairwise (Apart build r) := by
  obtain ⟨htranslated, -⟩ := translateCuratorResult_some hq
  have hinput : ∀ p ∈ q.proposals, ∃ u, updateOf c (.dict p.proposedInput) = some u ∧
      p.proposedInput = dumpPython u := by
    intro p hp
    obtain ⟨s, -, hs⟩ := mem_of_mapM htranslated hp
    obtain ⟨-, selected, u, -, hu, heq⟩ := translateProposal_some hs
    exact ⟨u, heq ▸ updateOf_dumpPython hu, heq⟩
  have hsteps : ∀ item ∈ evidence, (r.getStep item.stepId).isSome = true := by
    intro item hitem
    have hitem := List.all_eq_true.mp hcurrent item hitem
    simp only [Bool.and_eq_true] at hitem
    exact hitem.1.1.2
  -- what the drafts are does not depend on whether they go through
  have hknown : ∀ p ∈ numbered q.proposals uuids,
      p.1.Eligible build (updateOf c) memories casefold r evidence ∧
        ∃ u, updateOf c (.dict p.1.proposedInput) = some u := by
    intro p hp
    obtain ⟨u, hu, -⟩ := hinput _ (mem_numbered hp).1
    exact ⟨hproposals _ (mem_numbered hp).1, u, hu⟩
  obtain ⟨drafts, hdrafts, hnames, htargets⟩ :=
    drafts_exist now hcurator hsteps hknown
  rw [numbered_fst] at htargets
  have hvalid : (∀ p ∈ numbered q.proposals uuids,
      ∃ x, validateProposal casefold evidence p.1 = .ok x) ↔
      ∀ s ∈ v.proposals, s.evidence.Nodup ∧
        ∀ f ∈ s.updatedFields, s.proposedInput.isPlain f = true := by
    rw [numbered_forall fun p => ∃ x, validateProposal casefold evidence p = .ok x]
    constructor
    · intro hall s hs
      obtain ⟨p, hp, htranslate⟩ := mapM_of_mem htranslated hs
      obtain ⟨u, -, heq⟩ := hinput p hp
      obtain ⟨honce, hplain⟩ :=
        (validateProposal_ok_iff hcasefold heq (hproposals p hp)).mp (hall p hp)
      rw [← translateProposal_evidence htranslate]
      exact ⟨honce, (selected_isPlain_iff htranslate).mp hplain⟩
    · intro hall p hp
      obtain ⟨s, hs, htranslate⟩ := mem_of_mapM htranslated hp
      obtain ⟨u, -, heq⟩ := hinput p hp
      obtain ⟨honce, hplain⟩ := hall s hs
      rw [← translateProposal_evidence htranslate] at honce
      exact (validateProposal_ok_iff hcasefold heq (hproposals p hp)).mpr
        ⟨honce, (selected_isPlain_iff htranslate).mpr hplain⟩
  have hsubmit : (∀ p ∈ numbered q.proposals uuids,
        ∃ x, validateProposal casefold evidence p.1 = .ok x) →
      ((∃ s', drafts.foldlM (submit build) { record := r } = .ok s') ↔
        (∀ a ∈ drafts, Open build r a) ∧ drafts.Pairwise (Apart build r)) ∧
      ∀ s', drafts.foldlM (submit build) { record := r } = .ok s' →
        Follows build r drafts s' := by
    intro hall
    have hmembers : ∀ p ∈ numbered q.proposals uuids,
        p.1.Eligible build (updateOf c) memories casefold r evidence ∧
          ∃ u, updateOf c (.dict p.1.proposedInput) = some u ∧
            p.1.proposedInput = dumpPython u ∧ (dumpUpdate u).storedLen ≤ maxInputOctets := by
      intro p hp
      obtain ⟨u, hu, heq⟩ := hinput _ (mem_numbered hp).1
      exact ⟨hproposals _ (mem_numbered hp).1, u, hu, heq,
        hlimits.inputs _ (mem_numbered hp).1 u hu⟩
    have hplain : ∀ p ∈ numbered q.proposals uuids, ∀ y ∈ p.1.proposedInput,
        y.2.isPlain = true := by
      intro p hp
      obtain ⟨heligible, u, -, heq, -⟩ := hmembers p hp
      exact ((validateProposal_ok_iff hcasefold heq heligible).mp (hall p hp)).2
    have hnewer : ∀ p ∈ numbered q.proposals uuids, ∀ b ∈ r.approvals, b.id ≠ p.2.1 := by
      intro p hp b hb
      obtain ⟨k, hk⟩ := (mem_numbered hp).2
      rw [hk]
      exact hfresh k b hb
    have hfits := drafts_fit hobserved hcurator hsteps hmembers hplain hnewer hdrafts
    have hnew : (drafts.map (·.id)).Nodup := hnames ▸ numbered_ids q.proposals huuids
    have hstart : Follows build r [] { record := r } := Follows.start
    obtain ⟨hiff, hfollows⟩ := submitAll_ok_iff hids hfits hnew hstart nofun nofun
    refine ⟨hiff.trans (and_congr_left' (forall₂_congr fun a _ => ?_)), hfollows⟩
    exact and_iff_left nofun
  have hrun : ∀ s', (numbered q.proposals uuids).foldlM
      (propose build (updateOf c) memories casefold evidence now) { record := r } = .ok s' →
      drafts.foldlM (submit build) { record := r } = .ok s' := fun s' h =>
    (foldlM_propose_eq hobserved (foldlM_propose_valid h) hdrafts rfl rfl).symm.trans h
  rw [persistCuratorResult_ok_iff hcurator hrunning hdeadline hcurrent hobserved hfindings hlimits
    fun s' hs' => ?_, ← hvalid]
  · constructor
    · rintro ⟨s', hs'⟩
      have hall := foldlM_propose_valid hs'
      exact ⟨hall, drafts, hdrafts, (hsubmit hall).1.mp ⟨s', hrun s' hs'⟩⟩
    · rintro ⟨hall, drafts', hdrafts', hclear⟩
      obtain rfl := Option.some.inj (hdrafts.symm.trans hdrafts')
      rw [foldlM_propose_eq hobserved hall hdrafts rfl rfl]
      exact (hsubmit hall).1.mpr hclear
  · have hfollows := (hsubmit (foldlM_propose_valid hs')).2 s' (hrun s' hs')
    rw [hfollows.answered, List.map_map, ← htargets]
    exact List.map_congr_left fun a _ => announced_resolved

end

/-! ## A title, with and without a date -/

def zeros (n : Nat) : String := String.ofList (List.replicate n '0')

theorem zeros_digits (n : Nat) : (zeros n).length = n ∧ ∀ ch ∈ (zeros n).toList, ch = '0' := by
  rw [zeros, String.length_ofList, String.toList_ofList, List.length_replicate]
  exact ⟨rfl, fun ch hch => List.eq_of_mem_replicate hch⟩

def curatedVersion : String := zeros 64

def curatedBuild : Build :=
  { registryVersion := "agent-tools-v1"
    registry := []
    sha256 := fun _ => curatedVersion }

def noCoercions : Coercions :=
  { float := fun _ => none
    datetime := fun _ => none
    uuid := fun _ => none }

def curatedMemory : Memory :=
  { id := 9, projectId := none, value := fun _ => .text none, updatedAt := 0 }

def curatedMemories (id : Uuid) : Option Memory := if id = 9 then some curatedMemory else none

def curatedItem : CollectedEvidence :=
  { evidenceId := "e1"
    entityType := targetTypeMemory
    entityId := 9
    version := curatedVersion
    runId := 1
    stepId := 7
    invocationId := 8 }

def curatedCurrent (_ : String) (id : Uuid) : Option String :=
  if id = 9 then some curatedVersion else none

/-- A run of the curator that has read the memory. -/
def curatedRecord : RunRecord :=
  { run :=
      { id := 1
        projectId := none
        agentKind := "memory_curator"
        agentVersion := "1"
        goalSummary := "Tidy up"
        registryVersion := "agent-tools-v1"
        policyVersion := policyVersion
        state := .running
        stepBudget := stepBudget
        toolCallBudget := toolCallBudget
        retryBudget := retryBudget
        planningDeadline := 600
        runDeadline := 600
        revision := 3
        correlationId := 2
        idempotencyKeyHash := "k"
        normalizedRequestFingerprint := "f"
        safeErrorCode := none
        createdAt := 0
        updatedAt := 0
        startedAt := some 0
        finishedAt := none }
    steps :=
      [{ id := 7
         ordinal := 0
         purpose := "look"
         toolName := some "memory.get"
         toolVersion := some 1
         normalizedInput := .null
         expectedEvidence := []
         successCondition := "read"
         stopCondition := "read"
         status := .succeeded
         startedAt := some 0
         finishedAt := some 0 }]
    invocations :=
      [{ id := 8
         stepId := 7
         attempt := 1
         toolName := "memory.get"
         toolVersion := 1
         authority := .read
         validatedInputHash := "h"
         validatedInput := .null
         idempotencyKeyHash := "i"
         status := .succeeded
         safeResultSummary := none
         evidenceReferences := []
         safeErrorCode := none
         reservedAt := 0
         startedAt := some 0
         finishedAt := some 0 }] }

theorem single_evidence : 1 ≤ ["e1"].length ∧ ["e1"].length ≤ 20 := by decide

/-- The memory is to be given a title, and perhaps the time of an event. -/
def curatedProposal (fields : List MemoryField) (eventTime : Option ProviderDatetime)
    (hfields : 1 ≤ fields.length ∧ fields.length ≤ 11) : StrictCuratorProposal :=
  { targetEvidence := "e1"
    updatedFields := fields
    proposedInput :=
      { content := none
        source := none
        title := some "new"
        summary := none
        memoryType := none
        importance := none
        confidence := none
        status := none
        eventTime := eventTime
        expiresAt := none
        supersedesId := none
        content_len := nofun
        source_len := nofun
        title_len := by
          intro s hs
          cases hs
          decide
        summary_len := nofun }
    evidence := ["e1"]
    updatedFields_len := hfields
    evidence_len := single_evidence }

def curatedAnswer (p : StrictCuratorProposal) : StrictCuratorProviderResult :=
  { findings := []
    proposals := [p]
    findings_len := Nat.zero_le _
    proposals_len := Nat.le_add_left 1 4 }

def titled : StrictCuratorProposal := curatedProposal [.title] none (by decide)

def dated : StrictCuratorProposal :=
  curatedProposal [.title, .eventTime] (some (.aware 0)) (by decide)

theorem titled_translated : ∃ p, translateProposal noCoercions titled = some p ∧
    p.targetEvidence = "e1" ∧ p.evidence = ["e1"] ∧ p.proposedInput = [("title", .str "new")] :=
  ⟨_, rfl, rfl, rfl, rfl⟩

theorem dated_translated : ∃ p, translateProposal noCoercions dated = some p ∧
    p.targetEvidence = "e1" ∧ p.evidence = ["e1"] ∧
    p.proposedInput = [("title", .str "new"), ("event_time", .time 0)] :=
  ⟨_, rfl, rfl, rfl, rfl⟩

theorem curatedAnswer_translated {s : StrictCuratorProposal} {p : CuratorProposal}
    (h : translateProposal noCoercions s = some p) :
    ∃ q, translateCuratorResult noCoercions (curatedAnswer s) = some q ∧ q.findings = [] ∧
      q.proposals = [p] := by
  have hall : (curatedAnswer s).proposals.mapM (translateProposal noCoercions) = some [p] := by
    change [s].mapM _ = _
    rw [List.mapM_cons, h]
    rfl
  cases hq : translateCuratorResult noCoercions (curatedAnswer s) with
  | none =>
      unfold translateCuratorResult at hq
      split at hq
      · next hnone =>
          rw [hall] at hnone
          cases hnone
      · cases hq
  | some q =>
      obtain ⟨hproposals, hfindings⟩ := translateCuratorResult_some hq
      exact ⟨q, rfl, hfindings, Option.some.inj (hproposals.symm.trans hall)⟩

theorem curatedVersion_isVersion : IsVersion curatedVersion := by
  obtain ⟨hlength, hdigits⟩ := zeros_digits 64
  refine ⟨hlength, fun ch hch => ?_⟩
  rw [hdigits ch hch]
  decide

theorem curatedItem_observed : ∀ item ∈ [curatedItem], item.Observed := by
  intro item hitem
  rw [List.mem_singleton.mp hitem]
  exact ⟨by decide, curatedVersion_isVersion⟩

section

variable {p : CuratorProposal} {q : CuratorProviderResult}

theorem curated_eligible (htarget : p.targetEvidence = "e1") (hevidence : p.evidence = ["e1"])
    (hsafe : ∀ key text, (key, PyValue.str text) ∈ p.proposedInput → text = "new")
    (htitle : ∀ u, updateOf noCoercions (.dict p.proposedInput) = some u →
      (MemoryField.title, MemoryValue.text (some "new")) ∈ u) :
    p.Eligible curatedBuild (updateOf noCoercions) curatedMemories id curatedRecord
      [curatedItem] where
  safe := fun key text h => by
    rw [hsafe key text h]
    decide
  collected := fun name hname => by
    rw [hevidence, List.mem_singleton] at hname
    exact ⟨curatedItem, List.mem_singleton_self _, hname.symm⟩
  target := by
    rw [htarget, hevidence]
    exact List.mem_singleton_self _
  memory := fun item hitem => by
    obtain ⟨hmem, -⟩ := collectedById_some hitem
    rw [List.mem_singleton.mp hmem]
    refine ⟨rfl, curatedMemory, rfl, rfl, rfl, rfl, fun u hu => ?_⟩
    exact ⟨_, htitle u hu, nofun⟩

/-- What the curator announces of one proposal is short. -/
theorem curated_announcement {a : ApprovalRequest}
    (h : a.announced = (actionTypeMemoryUpdate, 9, curatedVersion)) :
    (curatorJson [] [a]).dumpsLen ≤ maxCuratorText ∧
      (curatorJson [] [a]).storedLen ≤ maxEventMetadata := by
  simp only [ApprovalRequest.announced, Prod.mk.injEq] at h
  obtain ⟨haction, htarget, hversion⟩ := h
  have hjson : proposedJson a = .obj [("approval_id", .str a.id.text),
      ("action_type", .str actionTypeMemoryUpdate), ("target_id", .str (9 : Uuid).text),
      ("target_version", .str curatedVersion)] := by
    rw [proposedJson, haction, htarget, hversion]
  have htext : ∀ id : Uuid, id.text.length = 36 := fun id => by
    rw [Uuid.text, String.length_ofList, Uuid.length_chars]
  have hdigest := curatedVersion_isVersion.1
  rw [curatorJson, List.map_singleton]
  constructor
  · rw [hjson]
    have hid := Uuid.dumpsLen_text a.id
    have htarget := Uuid.dumpsLen_text 9
    have hzero : (Json.str curatedVersion).dumpsLen = 66 := by
      have hplain := dumpsLen_plain fun ch (hch : ch ∈ List.replicate 64 '0') => by
        rw [List.eq_of_mem_replicate hch]
        decide
      rwa [List.length_replicate] at hplain
    have hkeys : (Json.str "approval_id").dumpsLen = 13 ∧ (Json.str "action_type").dumpsLen = 13 ∧
        (Json.str "target_id").dumpsLen = 11 ∧ (Json.str "target_version").dumpsLen = 16 ∧
        (Json.str "findings").dumpsLen = 10 ∧ (Json.str "proposed_actions").dumpsLen = 18 ∧
        (Json.str actionTypeMemoryUpdate).dumpsLen = 15 := by decide
    obtain ⟨h₁, h₂, h₃, h₄, h₅, h₆, h₇⟩ := hkeys
    have hlimit : maxCuratorText = 12000 := rfl
    simp only [dumpsLen_obj, dumpsLen_arr, List.map_cons, List.map_nil, List.sum_cons,
      List.sum_nil, h₁, h₂, h₃, h₄, h₅, h₆, h₇, hid, htarget, hzero]
    omega
  · have hproposal := storedLen_obj_le [("approval_id", Json.str a.id.text),
      ("action_type", .str actionTypeMemoryUpdate), ("target_id", .str (9 : Uuid).text),
      ("target_version", .str curatedVersion)]
    rw [← hjson] at hproposal
    have hresult := storedLen_obj_le [("findings", Json.arr []),
      ("proposed_actions", .arr [proposedJson a])]
    have hactions := storedLen_arr_le [proposedJson a]
    have hnone := storedLen_arr_le []
    have hid := storedLen_str_le a.id.text
    have htarget := storedLen_str_le (9 : Uuid).text
    have hzero := storedLen_str_le curatedVersion
    have hkeys : (Json.str "approval_id").storedLen = 13 ∧
        (Json.str "action_type").storedLen = 13 ∧ (Json.str "target_id").storedLen = 11 ∧
        (Json.str "target_version").storedLen = 16 ∧ (Json.str "findings").storedLen = 10 ∧
        (Json.str "proposed_actions").storedLen = 18 ∧
        (Json.str actionTypeMemoryUpdate).storedLen = 15 := by decide
    obtain ⟨h₁, h₂, h₃, h₄, h₅, h₆, h₇⟩ := hkeys
    have hlimit : maxEventMetadata = 4096 := rfl
    rw [htext] at hid htarget
    rw [hdigest] at hzero
    simp only [List.map_cons, List.map_nil, List.sum_cons, List.sum_nil, h₁, h₂, h₃, h₄, h₅, h₆,
      h₇] at hproposal hresult hactions hnone
    omega

theorem curated_limits (hfindings : q.findings = []) (hproposals : q.proposals = [p])
    (htarget : p.targetEvidence = "e1")
    (hsize : ∀ u, updateOf noCoercions (.dict p.proposedInput) = some u →
      (dumpUpdate u).storedLen ≤ maxInputOctets) :
    WithinLimits noCoercions id [curatedItem] q where
  inputs := fun p' hp' => by
    rw [hproposals, List.mem_singleton] at hp'
    rw [hp']
    exact hsize
  result := fun findings approvals hjson hannounced => by
    rw [hfindings] at hjson
    cases hjson
    have htargets : announcedTargets [curatedItem] q.proposals =
        [(actionTypeMemoryUpdate, 9, curatedVersion)] := by
      rw [hproposals, announcedTargets, List.filterMap_cons, htarget]
      rfl
    rw [htargets] at hannounced
    obtain ⟨a, rfl, ha⟩ := List.map_eq_singleton_iff.mp hannounced
    exact curated_announcement ha

end

theorem curator_result_accepted_sample : ∃ q,
    translateCuratorResult noCoercions (curatedAnswer titled) = some q ∧
    ((∃ r', persistCuratorResult curatedBuild (updateOf noCoercions) curatedMemories id
        curatedCurrent curatedRecord [curatedItem] q (fun k => (k, k)) 1 = .ok (true, r')) ↔
      (∀ s ∈ (curatedAnswer titled).proposals, s.evidence.Nodup ∧
        ∀ f ∈ s.updatedFields, s.proposedInput.isPlain f = true) ∧
      ∃ drafts, (numbered q.proposals fun k => (k, k)).mapM
          (curatorDraft curatedBuild (updateOf noCoercions) curatedMemories curatedRecord
            [curatedItem] 1) = some drafts ∧
        (∀ a ∈ drafts, Open curatedBuild curatedRecord a) ∧
          drafts.Pairwise (Apart curatedBuild curatedRecord)) := by
  obtain ⟨p, hp, htarget, hevidence, hinput⟩ := titled_translated
  obtain ⟨q, hq, hfindings, hproposals⟩ := curatedAnswer_translated hp
  refine ⟨q, hq, ?_⟩
  have hupdate : updateOf noCoercions (.dict p.proposedInput) =
      some [(.title, .text (some "new"))] := by
    rw [hinput]
    rfl
  have heligible := curated_eligible htarget hevidence
    (fun key text h => by
      rw [hinput, List.mem_singleton, Prod.mk.injEq, PyValue.str.injEq] at h
      exact h.2)
    (fun u hu => by
      rw [hupdate, Option.some.injEq] at hu
      rw [← hu]
      exact List.mem_singleton_self _)
  have hlimits := curated_limits hfindings hproposals htarget fun u hu => by
    rw [hupdate, Option.some.injEq] at hu
    rw [← hu]
    decide
  refine curator_result_accepted_iff hq (fun _ _ => rfl) (by decide) rfl (by decide) (by decide)
    curatedItem_observed ?_ ?_ hlimits .nil ?_ (fun _ => nofun)
  · rw [hfindings]
    exact nofun
  · intro p' hp'
    rw [hproposals, List.mem_singleton] at hp'
    rw [hp']
    exact heligible
  · rw [hproposals]
    intro j hj k hk _
    rw [List.length_singleton] at hj hk
    omega

/-- An update that gives a title and the time of an event is refused. -/
theorem dated_update_refused : ∃ q,
    translateCuratorResult noCoercions (curatedAnswer dated) = some q ∧
    (∀ p ∈ q.proposals, p.Eligible curatedBuild (updateOf noCoercions) curatedMemories id
      curatedRecord [curatedItem] ∧ p.evidence.Nodup) ∧
    q.findings = [] ∧ WithinLimits noCoercions id [curatedItem] q ∧
    stillCurrent curatedRecord curatedCurrent [curatedItem] = true ∧
    persistCuratorResult curatedBuild (updateOf noCoercions) curatedMemories id curatedCurrent
      curatedRecord [curatedItem] q (fun k => (k, k)) 1 = .error .validation := by
  obtain ⟨p, hp, htarget, hevidence, hinput⟩ := dated_translated
  obtain ⟨q, hq, hfindings, hproposals⟩ := curatedAnswer_translated hp
  have hupdate : updateOf noCoercions (.dict p.proposedInput) =
      some [(.title, .text (some "new")), (.eventTime, .time (some 0))] := by
    rw [hinput]
    rfl
  have heligible := curated_eligible htarget hevidence
    (fun key text h => by
      rw [hinput] at h
      simp only [List.mem_cons, Prod.mk.injEq, PyValue.str.injEq, List.not_mem_nil, or_false] at h
      rcases h with ⟨-, rfl⟩ | ⟨-, h⟩
      · rfl
      · cases h)
    (fun u hu => by
      rw [hupdate, Option.some.injEq] at hu
      rw [← hu]
      exact List.mem_cons_self)
  have hlimits := curated_limits hfindings hproposals htarget fun u hu => by
    rw [hupdate, Option.some.injEq] at hu
    rw [← hu]
    decide
  have hcurrent : stillCurrent curatedRecord curatedCurrent [curatedItem] = true := by decide
  refine ⟨q, hq, fun p' hp' => ?_, hfindings, hlimits, hcurrent, ?_⟩
  · rw [hproposals, List.mem_singleton] at hp'
    rw [hp', hevidence]
    exact ⟨heligible, List.nodup_singleton _⟩
  · have hunsafe : validateProposal id [curatedItem] p = .error .validation := by
      have hvalue : safeProposedValue id (.dict p.proposedInput) = false := by
        rw [hinput]
        decide
      rw [validateProposal, htarget, hevidence]
      change (if _ ∨ _ ∨ _ ∨ _ then _ else _) = _
      rw [if_pos (.inr (.inr (.inr hvalue)))]
    unfold persistCuratorResult
    rw [if_neg (by decide), if_neg (by decide), if_neg (by rw [hcurrent]; nofun), hfindings,
      hproposals]
    change Except.bind (propose _ _ _ _ _ _ _ (p, 0, 0) >>= _) _ = _
    rw [propose, hunsafe]
    rfl

end SecondBrain
