import SecondBrain.Calendar.Model
import SecondBrain.Memories.HybridPages

/-!
# Answers from memories

The memories that a question retrieves are written one after the other under the labels
`M1`, `M2` and so on, each cut at its own size and all of them at one more. A provider
answers from that text and cites labels, which are checked against all the memories, those
that were cut off included. The label of a memory that the text ends before is thus accepted;
a citation is of what was shown exactly where the labels stay within the size
(`cited_blocks_shown_iff`).
-/

namespace SecondBrain.Answers

open Lib Memories
open Calendar (strip)

/-- A retrieved memory, with its score in each channel that found it. -/
structure ScoredMemory (F : Type) where
  memory : SearchedMemory
  lexicalScore : Option F
  semanticScore : Option F

/-! ## Retrieval -/

section

variable {V S D F : Type} [LinearOrder S] [LinearOrder D] [LinearOrder F] [Add F] [Zero F]

/-- `search_answer_evidence`; a semantic score is what the distance leaves of one. -/
def searchAnswerEvidence (index : Index V S D F) (table : MemoryTable) (similarity : D → S)
    (query : String) (mode : ExplainedSearchMode) (projectId : Option Uuid) (limit : Nat)
    (queryVector : Option V) : Except String (List (ScoredMemory S)) :=
  let active := ({ status := some .active, projectId := projectId } : StructuredFilters).passes
  match mode, queryVector with
  | .lexical, _ =>
      .ok <| ((newestFirst lexicalKey (lexicalMatches index table query active)).take limit).map
        fun row => ⟨row.1, some row.2, none⟩
  | _, none => .error "semantic retrieval requires a query vector"
  | .semantic, some vector =>
      .ok <| ((newestFirst semanticKey (semanticMatches index table vector active)).take limit).map
        fun row => ⟨row.1, none, some (similarity row.2)⟩
  | .hybrid, some vector =>
      let candidateLimit := min 1000 (max 100 (limit * 5))
      let ranked := finalRanked index table query vector active candidateLimit
      .ok <| (ranked.take limit).map fun row =>
        ⟨row.1, row.2.lexicalScore, row.2.semanticDistance.map similarity⟩

/-- A memory is retrieved once. -/
theorem searchAnswerEvidence_keyed {index : Index V S D F} {table : MemoryTable}
    {similarity : D → S} {query : String} {mode : ExplainedSearchMode} {projectId : Option Uuid}
    {limit : Nat} {queryVector : Option V} {evidence : List (ScoredMemory S)}
    (h : searchAnswerEvidence index table similarity query mode projectId limit queryVector =
      .ok evidence) : Keyed (·.memory.id) evidence := by
  have hsorted : ∀ {X κ : Type} [LinearOrder κ] (key : SearchedMemory × X → κ)
      (rows : List (SearchedMemory × X)), Keyed (·.1.id) rows →
      (((newestFirst key rows).take limit).map (·.1.id)).Nodup := by
    intro X κ _ key rows hkeyed
    refine List.Nodup.sublist ((List.take_sublist limit _).map _) ?_
    exact ((List.perm_insertionSort _ rows).map _).nodup_iff.mpr hkeyed
  cases mode with
  | lexical =>
      cases h
      rw [Keyed, List.map_map]
      exact hsorted lexicalKey _ lexicalMatches_keyed
  | semantic =>
      cases queryVector with
      | none => cases h
      | some vector =>
          cases h
          rw [Keyed, List.map_map]
          exact hsorted semanticKey _ semanticMatches_keyed
  | hybrid =>
      cases queryVector with
      | none => cases h
      | some vector =>
          cases h
          have hmemories : Keyed (·.id) ((fusedRows index table query vector
              ({ status := some .active, projectId := projectId } : StructuredFilters).passes
              (min 1000 (max 100 (limit * 5)))).map (·.1)) :=
            (fusedRows_perm.map _).nodup_iff.mpr (table.keyed.sublist (List.filter_sublist.map _))
          rw [Keyed, List.map_map] at hmemories
          rw [Keyed, List.map_map]
          exact hsorted finalKey _ hmemories

end

/-! ## The evidence text -/

section

variable {F : Type}

/-- `text[:n]` -/
def clip (n : Nat) (text : String) : String := String.ofList (text.toList.take n)

/-- `MAX_EVIDENCE_PER_MEMORY` -/
def maxEvidencePerMemory : Nat := 2000

/-- `MAX_EVIDENCE_CONTEXT` -/
def maxEvidenceContext : Nat := 12000

def label (index : Nat) : String := "M" ++ toString index

def block (index : Nat) (item : ScoredMemory F) : String :=
  label index ++ "\n" ++ clip maxEvidencePerMemory item.memory.content

/-- The loop of `build_evidence_context`. -/
def contextFrom (index : Nat) (context : String) : List (ScoredMemory F) → String
  | [] => context
  | item :: rest =>
      let separator := if context.isEmpty then "" else "\n\n"
      let remaining := maxEvidenceContext - context.length
      let context := context ++ clip remaining (separator ++ block index item)
      if context.length = maxEvidenceContext then context
      else contextFrom (index + 1) context rest

def buildEvidenceContext (evidence : List (ScoredMemory F)) : String := contextFrom 1 "" evidence

/-! ## Answers and citations -/

inductive AnswerStatus where
  | answered
  | insufficientEvidence
deriving DecidableEq, Repr

/-- What a provider answers, bounded and consistent in itself. -/
structure AnswerProviderResult where
  answerStatus : AnswerStatus
  answer : String
  citationLabels : List String
  bounded : answer ≠ "" ∧ answer.length ≤ 4000
  cites : answerStatus = .answered → citationLabels ≠ []
  silent : answerStatus = .insufficientEvidence → citationLabels = []

/-- `AnswerProviderResult.model_validate` -/
def AnswerProviderResult.validate (status : AnswerStatus) (answer : String)
    (citationLabels : List String) : Option AnswerProviderResult :=
  if h : (strip answer ≠ "" ∧ (strip answer).length ≤ 4000) ∧
      (status = .answered → citationLabels ≠ []) ∧
      (status = .insufficientEvidence → citationLabels = []) then
    some ⟨status, strip answer, citationLabels, h.1, h.2.1, h.2.2⟩
  else none

inductive AnswerError where
  | providerUnavailable
  | providerRequest
  | invalidResponse
  | value
deriving DecidableEq, Repr

/-- `AnswerProvider.answer`, from the question and the evidence text. -/
abbrev AnswerProvider := String → String → Except AnswerError AnswerProviderResult

def insufficientEvidenceMessage : String :=
  "The stored Memories do not provide enough evidence to answer this question."

structure ValidatedAnswer (F : Type) where
  answerStatus : AnswerStatus
  answer : String
  citations : List (ScoredMemory F)

/-- `{f"M{index}": item for index, item in enumerate(evidence, 1)}` -/
def mapping (evidence : List (ScoredMemory F)) : List (String × ScoredMemory F) :=
  (evidence.zipIdx 1).map fun row => (label row.2, row.1)

def answerFromEvidence (query : String) (evidence : List (ScoredMemory F))
    (provider : AnswerProvider) : Except AnswerError (ValidatedAnswer F) := do
  let result ← provider query (buildEvidenceContext evidence)
  match result.answerStatus with
  | .insufficientEvidence => .ok ⟨.insufficientEvidence, insufficientEvidenceMessage, []⟩
  | .answered =>
      if result.citationLabels.all fun l => (lookup (·.1) l (mapping evidence)).isSome then
        let citations := ((mapping evidence).filter fun row =>
          result.citationLabels.contains row.1).map (·.2)
        if citations.isEmpty then .error .invalidResponse
        else .ok ⟨.answered, result.answer, citations⟩
      else .error .invalidResponse

structure AnswerCitation (F : Type) where
  label : String
  rank : Nat
  memory : SearchedMemory
  lexicalScore : Option F
  semanticScore : Option F

structure AnswerRead (F : Type) where
  answerStatus : AnswerStatus
  answer : String
  searchMode : ExplainedSearchMode
  citations : List (AnswerCitation F)

/-- The citations that the route shows: the evidence whose memory was cited, under its rank. -/
def shownCitations (evidence citations : List (ScoredMemory F)) : List (AnswerCitation F) :=
  ((evidence.zipIdx 1).filter fun row =>
    citations.any fun item => item.memory.id == row.1.memory.id).map fun row =>
      ⟨label row.2, row.2, row.1.memory, row.1.lexicalScore, row.1.semanticScore⟩

/-- `create_answer` from the retrieved evidence on; an error is the status and its text. -/
def createAnswer (query : String) (searchMode : ExplainedSearchMode)
    (evidence : List (ScoredMemory F)) (provider : AnswerProvider) :
    Except (Nat × String) (AnswerRead F) :=
  if evidence.isEmpty then
    .ok ⟨.insufficientEvidence, insufficientEvidenceMessage, searchMode, []⟩
  else
    match answerFromEvidence query evidence provider with
    | .ok result =>
        .ok ⟨result.answerStatus, result.answer, searchMode,
          shownCitations evidence result.citations⟩
    | .error .providerUnavailable => .error (503, "answer provider unavailable")
    | .error _ => .error (502, "answer provider failed")

/-! ## What the text shows -/

/-- The blocks of the first `i` memories, each with the separator that follows it. -/
def before (evidence : List (ScoredMemory F)) (i : Nat) : List Char :=
  ((evidence.take i).zipIdx 1).flatMap fun row => (block row.2 row.1 ++ "\n\n").toList

/-- After the blocks before it, the text has the label of a memory and the beginning of its
content. -/
def Shown (evidence : List (ScoredMemory F)) (i : Nat) (item : ScoredMemory F) : Prop :=
  ∃ beginning rest : List Char,
    (buildEvidenceContext evidence).toList =
      before evidence i ++ (label (i + 1) ++ "\n").toList ++ beginning ++ rest ∧
    beginning <+: item.memory.content.toList ∧ (beginning = [] → item.memory.content = "")

/-- The size of the blocks before a memory's, with their separators. -/
def blockStart (evidence : List (ScoredMemory F)) (i : Nat) : Nat :=
  (((evidence.take i).zipIdx 1).map fun row => (label row.2).length + 1 +
    min maxEvidencePerMemory row.1.memory.content.length + 2).sum

/-- A memory's label and its first character come before the size of the text. -/
def Begins (evidence : List (ScoredMemory F)) (i : Nat) (item : ScoredMemory F) : Prop :=
  blockStart evidence i + (label (i + 1)).length + 1 + min 1 item.memory.content.length
    ≤ maxEvidenceContext

variable {evidence : List (ScoredMemory F)} {i : Nat} {item : ScoredMemory F}

@[simp] theorem toList_clip (n : Nat) (text : String) :
    (clip n text).toList = text.toList.take n := String.toList_ofList

theorem length_block (index : Nat) (item : ScoredMemory F) :
    (block index item).toList.length = (label index).length + 1 +
      min maxEvidencePerMemory item.memory.content.length := by
  rw [block, String.toList_append, String.toList_append, toList_clip, List.length_append,
    List.length_append, List.length_take, String.length_toList, String.length_toList]
  rfl

theorem length_before (evidence : List (ScoredMemory F)) (i : Nat) :
    (before evidence i).length = blockStart evidence i := by
  rw [before, blockStart, List.length_flatMap]
  refine congrArg List.sum (List.map_congr_left fun row _ => ?_)
  rw [String.toList_append, List.length_append, length_block]
  rfl

/-- The separator before the next block. -/
def separator (context : String) : String := if context.isEmpty then "" else "\n\n"

/-- What the loop would add after a block without a limit. -/
def added (index : Nat) : List (ScoredMemory F) → List Char
  | [] => []
  | item :: rest => ("\n\n" ++ block index item).toList ++ added (index + 1) rest

/-- One round adds a separator and a block, cut at the size of the text. -/
theorem toList_round (context addition : String) (h : context.length ≤ maxEvidenceContext) :
    (context ++ clip (maxEvidenceContext - context.length) addition).toList =
      (context.toList ++ addition.toList).take maxEvidenceContext := by
  rw [String.toList_append, toList_clip, List.take_append, String.length_toList,
    List.take_of_length_le (i := maxEvidenceContext) (by rw [String.length_toList]; exact h)]

/-- The loop cuts all that it would add at the size. -/
theorem contextFrom_cons (item : ScoredMemory F) (rest : List (ScoredMemory F)) (index : Nat)
    (context : String) (hlt : context.length < maxEvidenceContext) :
    (contextFrom index context (item :: rest)).toList =
      (context.toList ++ (separator context ++ block index item).toList ++
        added (index + 1) rest).take maxEvidenceContext := by
  induction rest generalizing item index context with
  | nil =>
      rw [contextFrom, ← separator, added, List.append_nil, ← toList_round _ _ hlt.le]
      simp only [contextFrom, ite_self]
  | cons next rest ih =>
      have hround := toList_round context (separator context ++ block index item) hlt.le
      have hlength := congrArg List.length hround
      rw [String.length_toList, List.length_take] at hlength
      rw [contextFrom, ← separator]
      split
      · rename_i hfull
        rw [hround]
        exact (List.take_append_of_le_length (by omega)).symm
      · rename_i hroom
        have hwhole : (context.toList ++ (separator context ++ block index item).toList).take
            maxEvidenceContext =
              context.toList ++ (separator context ++ block index item).toList := by
          refine List.take_of_length_le ?_
          omega
        have hblock : (separator context ++ block index item).toList ≠ [] := by
          have hpositive : 0 < (block index item).toList.length := by
            rw [length_block]
            omega
          rw [String.toList_append]
          intro hnil
          rw [(List.append_eq_nil_iff.mp hnil).2] at hpositive
          exact Nat.lt_irrefl 0 hpositive
        have hseparator : separator (context ++ clip (maxEvidenceContext - context.length)
            (separator context ++ block index item)) = "\n\n" := by
          rw [separator, if_neg]
          rw [String.isEmpty_iff, ← String.toList_inj, hround, hwhole]
          intro hnil
          exact hblock (List.append_eq_nil_iff.mp hnil).2
        rw [ih _ _ _ (by omega), hseparator, hround, hwhole, added]
        simp only [List.append_assoc]

/-- The text is the first part of all the blocks. -/
theorem buildEvidenceContext_eq (item : ScoredMemory F) (rest : List (ScoredMemory F)) :
    (buildEvidenceContext (item :: rest)).toList =
      ((block 1 item).toList ++ added 2 rest).take maxEvidenceContext := by
  rw [buildEvidenceContext, contextFrom_cons _ _ _ _ (by decide)]
  simp [separator]

/-- All the blocks, split at a memory's. -/
theorem blocks_split (first : ScoredMemory F) (rest : List (ScoredMemory F)) (index i : Nat)
    (h : (first :: rest)[i]? = some item) :
    ∃ tail, (block index first).toList ++ added (index + 1) rest =
      (((first :: rest).take i).zipIdx index).flatMap
          (fun row => (block row.2 row.1 ++ "\n\n").toList) ++
        ((block (index + i) item).toList ++ tail) := by
  induction i generalizing first rest index with
  | zero =>
      cases h
      exact ⟨added (index + 1) rest, rfl⟩
  | succ i ih =>
      cases rest with
      | nil => cases h
      | cons next rest =>
          obtain ⟨tail, htail⟩ := ih next rest (index + 1) h
          refine ⟨tail, ?_⟩
          have hindex : index + 1 + i = index + (i + 1) := by omega
          rw [hindex] at htail
          rw [added, String.toList_append, List.append_assoc, htail, List.take_succ_cons,
            List.zipIdx_cons, List.flatMap_cons, String.toList_append]
          simp only [List.append_assoc]

/-- The text shows a memory exactly where its block begins within the size. -/
theorem shown_iff (h : evidence[i]? = some item) :
    Shown evidence i item ↔ Begins evidence i item := by
  cases evidence with
  | nil => cases h
  | cons first rest =>
      obtain ⟨tail, htail⟩ := blocks_split first rest 1 i h
      have hlabel : (label (i + 1) ++ "\n").toList.length = (label (i + 1)).length + 1 := by
        rw [String.toList_append, List.length_append, String.length_toList]
        rfl
      have hstart := length_before (first :: rest) i
      have hcontent := String.length_toList (s := item.memory.content)
      rw [Begins, Shown, buildEvidenceContext_eq, htail, ← before, block, Nat.add_comm 1 i,
        String.toList_append, toList_clip]
      constructor
      · rintro ⟨beginning, rest, htext, hbegins, hempty⟩
        have hsize := congrArg List.length htext
        simp only [List.length_take, List.length_append, hlabel, hstart] at hsize
        have hone : min 1 item.memory.content.length ≤ beginning.length := by
          cases beginning with
          | nil => rw [hempty rfl]; rfl
          | cons c _ => rw [List.length_cons]; omega
        omega
      · intro hbegins
        have hroom : (before (first :: rest) i ++ (label (i + 1) ++ "\n").toList).length
            + min 1 item.memory.content.length ≤ maxEvidenceContext := by
          rw [List.length_append]
          omega
        obtain ⟨room, hsize⟩ := Nat.exists_eq_add_of_le (le_trans (Nat.le_add_right _ _) hroom)
        refine ⟨(item.memory.content.toList.take maxEvidencePerMemory).take room,
          tail.take (room - (item.memory.content.toList.take maxEvidencePerMemory).length), ?_,
          (List.take_prefix _ _).trans (List.take_prefix _ _), fun hnil => ?_⟩
        · rw [List.append_assoc, ← List.append_assoc (before _ _), hsize, List.take_length_add_append,
            List.take_append, ← List.append_assoc]
        · have hzero := congrArg List.length hnil
          rw [List.length_take, List.length_take, hcontent, maxEvidencePerMemory] at hzero
          rw [← String.length_eq_zero_iff]
          simp only [List.length_nil] at hzero
          omega

/-! ## What an answer cites -/

/-- The citations are of memories whose own block the text shows, in the order of the
evidence, and no two of them of one memory. -/
structure CitesShown (evidence : List (ScoredMemory F)) (citations : List (AnswerCitation F)) :
    Prop where
  shown : ∀ c ∈ citations, ∃ i item, evidence[i]? = some item ∧ c.label = label (i + 1) ∧
    c.rank = i + 1 ∧ c.memory = item.memory ∧ Shown evidence i item
  ordered : citations.Pairwise fun a b => a.rank < b.rank
  distinct : citations.Pairwise fun a b => a.memory.id ≠ b.memory.id

theorem label_injective {m n : Nat} (h : label m = label n) : m = n := by
  have hdigits : Nat.toDigits 10 m = Nat.toDigits 10 n := by
    have htext := congrArg String.toList h
    rw [label, label, String.toList_append, String.toList_append] at htext
    rw [← Nat.toList_repr, ← Nat.toList_repr]
    exact List.append_cancel_left htext
  rw [← Nat.ofDigitChars_ten_toDigits (n := m), hdigits, Nat.ofDigitChars_ten_toDigits]

/-- The labels tell the memories apart, so the mapping has an entry for each. -/
theorem mapping_keyed (evidence : List (ScoredMemory F)) : Keyed (·.1) (mapping evidence) := by
  have hlabels : (mapping evidence).map (·.1) =
      ((evidence.zipIdx 1).map (·.2)).map label := by
    rw [mapping, List.map_map, List.map_map]
    rfl
  rw [Keyed, hlabels, List.zipIdx_map_snd]
  exact List.Nodup.map (fun _ _ h => label_injective h) List.nodup_range'

variable {query : String} {provider : AnswerProvider} {result : AnswerProviderResult}
  {answer : ValidatedAnswer F}

/-- An accepted answer cites the memories of its labels, in the order of the evidence. -/
theorem answer_citations
    (hresult : provider query (buildEvidenceContext evidence) = .ok result)
    (h : answerFromEvidence query evidence provider = .ok answer) :
    answer.citations = ((evidence.zipIdx 1).filter fun row =>
      result.citationLabels.contains (label row.2)).map (·.1) := by
  have hmapping : ((mapping evidence).filter fun row => result.citationLabels.contains row.1).map
      (·.2) = ((evidence.zipIdx 1).filter fun row =>
        result.citationLabels.contains (label row.2)).map (·.1) := by
    rw [mapping, List.filter_map, List.map_map]
    rfl
  rw [answerFromEvidence, hresult] at h
  simp only [bind, Except.bind] at h
  split at h
  · rename_i hstatus
    cases h
    rw [result.silent hstatus]
    simp
  · split at h
    · split at h
      · cases h
      · cases h
        exact hmapping
    · cases h

theorem zipIdx_keyed (hkeyed : Keyed (·.memory.id) evidence) :
    Keyed (·.1.memory.id) (evidence.zipIdx 1) := by
  have hids : (evidence.zipIdx 1).map (·.1.memory.id) =
      ((evidence.zipIdx 1).map (·.1)).map (·.memory.id) := by
    rw [List.map_map]
    rfl
  rw [Keyed, hids, List.zipIdx_map_fst]
  exact hkeyed

/-- The route shows what the answer cites, each memory under its label. -/
theorem shownCitations_eq (hkeyed : Keyed (·.memory.id) evidence)
    (hresult : provider query (buildEvidenceContext evidence) = .ok result)
    (h : answerFromEvidence query evidence provider = .ok answer) :
    shownCitations evidence answer.citations = ((evidence.zipIdx 1).filter fun row =>
        result.citationLabels.contains (label row.2)).map fun row =>
      ⟨label row.2, row.2, row.1.memory, row.1.lexicalScore, row.1.semanticScore⟩ := by
  rw [shownCitations, answer_citations hresult h]
  refine congrArg (List.map _) (List.filter_congr fun row hrow => ?_)
  rw [Bool.eq_iff_iff, List.any_eq_true]
  constructor
  · rintro ⟨item, hitem, hid⟩
    obtain ⟨other, hother, rfl⟩ := List.mem_map.mp hitem
    obtain ⟨hin, hlabel⟩ := List.mem_filter.mp hother
    obtain rfl := (zipIdx_keyed hkeyed).inj hin hrow (beq_iff_eq.mp hid)
    exact hlabel
  · intro hlabel
    exact ⟨row.1, List.mem_map_of_mem (List.mem_filter.mpr ⟨hrow, hlabel⟩), beq_self_eq_true _⟩

theorem shownCitations_memory (hkeyed : Keyed (·.memory.id) evidence)
    (hresult : provider query (buildEvidenceContext evidence) = .ok result)
    (h : answerFromEvidence query evidence provider = .ok answer) :
    (shownCitations evidence answer.citations).map (·.memory)
      = answer.citations.map (·.memory) := by
  rw [shownCitations_eq hkeyed hresult h, answer_citations hresult h, List.map_map, List.map_map]
  rfl

theorem citesShown_iff (query : String) (provider : AnswerProvider)
    (hkeyed : Keyed (·.memory.id) evidence)
    (hresult : provider query (buildEvidenceContext evidence) = .ok result)
    (h : answerFromEvidence query evidence provider = .ok answer) :
    CitesShown evidence (shownCitations evidence answer.citations) ↔
      ∀ i item, evidence[i]? = some item → label (i + 1) ∈ result.citationLabels →
        Begins evidence i item := by
  rw [shownCitations_eq hkeyed hresult h]
  constructor
  · intro hcites i item hitem hlabel
    have hrow : (item, i + 1) ∈ (evidence.zipIdx 1).filter fun row =>
        result.citationLabels.contains (label row.2) := by
      refine List.mem_filter.mpr ⟨?_, List.contains_iff_mem.mpr hlabel⟩
      rw [List.mem_zipIdx_iff_le_and_getElem?_sub]
      exact ⟨Nat.le_add_left 1 i, hitem⟩
    obtain ⟨j, other, hother, -, hrank, -, hblock⟩ := hcites.shown _ (List.mem_map_of_mem hrow)
    obtain rfl : i = j := by
      dsimp only at hrank
      omega
    rw [hitem] at hother
    cases hother
    exact (shown_iff hitem).mp hblock
  · intro hbegins
    refine ⟨fun c hc => ?_, ?_, ?_⟩
    · obtain ⟨row, hrow, rfl⟩ := List.mem_map.mp hc
      obtain ⟨hin, hlabel⟩ := List.mem_filter.mp hrow
      obtain ⟨hle, hitem⟩ := List.mem_zipIdx_iff_le_and_getElem?_sub.mp hin
      have hindex : row.2 - 1 + 1 = row.2 := Nat.sub_add_cancel hle
      refine ⟨row.2 - 1, row.1, hitem, by rw [hindex], hindex.symm, rfl, (shown_iff hitem).mpr ?_⟩
      refine hbegins _ _ hitem ?_
      rw [hindex]
      exact List.contains_iff_mem.mp hlabel
    · rw [List.pairwise_map]
      have hranks : (evidence.zipIdx 1).Pairwise fun a b => a.2 < b.2 := by
        rw [← List.pairwise_map (f := Prod.snd) (R := fun a b => a < b), List.zipIdx_map_snd]
        exact List.pairwise_lt_range'
      exact hranks.sublist List.filter_sublist
    · rw [List.pairwise_map]
      have hids : (evidence.zipIdx 1).Pairwise fun a b => a.1.memory.id ≠ b.1.memory.id :=
        List.pairwise_map.mp (zipIdx_keyed hkeyed)
      exact hids.sublist List.filter_sublist

/-- The citations of an accepted answer are of what its provider was shown exactly where the
labels that it names have their blocks begin within the size of the text. -/
theorem cited_blocks_shown_iff (query : String) (provider : AnswerProvider)
    (hkeyed : Keyed (·.memory.id) evidence)
    (hresult : provider query (buildEvidenceContext evidence) = .ok result)
    (h : answerFromEvidence query evidence provider = .ok answer) :
    (shownCitations evidence answer.citations).map (·.memory) = answer.citations.map (·.memory) ∧
    (CitesShown evidence (shownCitations evidence answer.citations) ↔
      ∀ i item, evidence[i]? = some item → label (i + 1) ∈ result.citationLabels →
        Begins evidence i item) :=
  ⟨shownCitations_memory hkeyed hresult h, citesShown_iff query provider hkeyed hresult h⟩

/-! ## Seven long memories -/

/-- A provider that cites one label. -/
def citing (cited : String) : AnswerProvider := fun _ _ =>
  .ok ⟨.answered, "Steep it.", [cited], by decide, (fun _ h => nomatch h), (fun h => nomatch h)⟩

/-- The label of each memory of the evidence is accepted. -/
theorem accepts_label (query : String) (h : evidence[i]? = some item) :
    ∃ answer, answerFromEvidence query evidence (citing (label (i + 1))) = .ok answer := by
  have hrow : (label (i + 1), item) ∈ mapping evidence := by
    refine List.mem_map.mpr ⟨(item, i + 1), ?_, rfl⟩
    rw [List.mem_zipIdx_iff_le_and_getElem?_sub]
    exact ⟨Nat.le_add_left 1 i, h⟩
  have hcited : item ∈ ((mapping evidence).filter fun row =>
      [label (i + 1)].contains row.1).map (·.2) :=
    List.mem_map.mpr ⟨_, List.mem_filter.mpr ⟨hrow, by simp⟩, rfl⟩
  rw [answerFromEvidence, citing]
  simp only [bind, Except.bind, List.all_cons, List.all_nil, Bool.and_true]
  rw [(mapping_keyed evidence).lookup hrow, if_pos Option.isSome_some,
    if_neg (by simpa using List.ne_nil_of_mem hcited)]
  exact ⟨_, rfl⟩

def note (content : String) (i : Nat) : ScoredMemory Nat :=
  ⟨{ crowdedMemory i with content := content }, some 1, none⟩

/-- Seven memories of one content. -/
def notes (content : String) : List (ScoredMemory Nat) := (List.range 7).map (note content)

def textOf (n : Nat) : String := String.ofList (List.replicate n 'a')

/-- A content as long as is shown of one memory. -/
def longText : String := textOf maxEvidencePerMemory

theorem notes_keyed (content : String) : Keyed (·.memory.id) (notes content) := by
  have hids : (notes content).map (·.memory.id) = (List.range 7).map (BitVec.ofNat 128) := rfl
  rw [Keyed, hids]
  decide

theorem notes_getElem? (content : String) {i : Nat} (h : i < 7) :
    (notes content)[i]? = some (note content i) := by
  rw [notes, List.getElem?_map, List.getElem?_range h]
  rfl

theorem notes_before (content : String) (i : Nat) (h : i ≤ 7) :
    ((notes content).take i).zipIdx 1 = (List.range i).map fun j => (note content j, j + 1) := by
  interval_cases i <;> rfl

theorem length_textOf (n : Nat) : (textOf n).length = n := by
  rw [textOf, String.length_ofList, List.length_replicate]

theorem longText_length : longText.length = maxEvidencePerMemory := length_textOf _

theorem note_length (content : String) (i : Nat) :
    (note content i).memory.content.length = content.length := rfl

/-- The second block begins within the size. -/
theorem second_note_shown : ∃ answer,
    answerFromEvidence "tea" (notes longText) (citing (label 2)) = .ok answer ∧
      CitesShown (notes longText) (shownCitations (notes longText) answer.citations) := by
  have hitem := notes_getElem? longText (i := 1) (by decide)
  obtain ⟨answer, hanswer⟩ := accepts_label "tea" hitem
  have hiff := cited_blocks_shown_iff "tea" (citing (label 2)) (notes_keyed longText) rfl hanswer
  refine ⟨answer, hanswer, hiff.2.mpr fun i item hother hlabel => ?_⟩
  obtain rfl : i = 1 := by
    have hindex : i + 1 = 2 := label_injective (List.mem_singleton.mp hlabel)
    omega
  obtain rfl : note longText 1 = item := Option.some.inj (hitem.symm.trans hother)
  rw [Begins, blockStart, notes_before longText 1 (by decide), List.map_map, note_length, longText_length]
  simp only [Function.comp_def, note_length, longText_length]
  decide

/-- The seventh block would start behind the end of the text, and its label is accepted. -/
theorem seventh_note_unshown : ∃ answer,
    answerFromEvidence "tea" (notes longText) (citing (label 7)) = .ok answer ∧
      ¬ CitesShown (notes longText) (shownCitations (notes longText) answer.citations) := by
  have hitem := notes_getElem? longText (i := 6) (by decide)
  obtain ⟨answer, hanswer⟩ := accepts_label "tea" hitem
  refine ⟨answer, hanswer, fun hcites => ?_⟩
  have hiff := citesShown_iff "tea" (citing (label 7)) (notes_keyed longText) rfl hanswer
  have hbegins := hiff.mp hcites 6 _ hitem (List.mem_singleton_self _)
  rw [Begins, blockStart, notes_before longText 6 (by decide), List.map_map,
    note_length, longText_length] at hbegins
  simp only [Function.comp_def, note_length, longText_length] at hbegins
  exact absurd hbegins (by decide)

end

end SecondBrain.Answers
