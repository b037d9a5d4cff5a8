import Mathlib.Algebra.Order.Field.Rat
import Mathlib.Data.Finset.Sort
import Mathlib.Data.String.Basic
import SecondBrain.Lib.Paging
import SecondBrain.Memories.Search
import SecondBrain.MemoryQuality.Normalization

/-!
# Duplicates and similar memories

The candidates for a target come from three bounded queries: the memories of equal content,
those that share words with it, and those with a close embedding. A memory of equal content
that its own query cuts off may come back through the others, where it can only be told to
be similar. It is never shown as that: where the first query cuts one off, it has found as
many as the answer holds, and these come first (`duplicates_exact`).
-/

namespace SecondBrain.MemoryQuality

open Lib Knowledge Memories

/-! ## Candidates -/

structure StoredEmbedding (V : Type) where
  vector : V
  provider : String
  model : String
  dimensions : Nat

/-- What the database and the libraries compute of contents and embeddings. -/
structure QualityIndex (V S D : Type) where
  /-- `search_vector @@ websearch_to_tsquery('simple', query)` -/
  isMatch : String → SearchedMemory → Bool
  /-- `ts_rank_cd(search_vector, websearch_to_tsquery('simple', query))` -/
  lexicalScore : String → SearchedMemory → S
  embedding : SearchedMemory → Option (StoredEmbedding V)
  /-- `_usable_vector` -/
  usableVector : V → Bool
  /-- `cosine_distance`, in the order the database has for it -/
  distance : V → V → D
  /-- `1.0 - distance`, where that is a finite float -/
  similarity : D → Option ℚ
  /-- `_tokens`: the case-folded words of a content -/
  tokens : String → Finset String
  /-- `f"{value:.3f}"` -/
  fixed : ℚ → String

/-- `LEXICAL_SIMILARITY_THRESHOLD`; a quotient of two counts reaches the float where it
reaches this. -/
def lexicalSimilarityThreshold : ℚ := 3 / 5

/-- `SEMANTIC_SIMILARITY_THRESHOLD`, the float next to 0.85. -/
def semanticSimilarityThreshold : ℚ := 7656119366529843 / 2 ^ 53

/-- `MINIMUM_SHARED_TOKENS` -/
def minimumSharedTokens : Nat := 3

/-- `_SEARCH_POOL_LIMIT` -/
def searchPoolLimit : Nat := 250

/-- `_MAX_QUERY_TOKENS` -/
def maxQueryTokens : Nat := 100

inductive Classification where
  | exactDuplicate
  | similar
deriving DecidableEq, Repr

structure SimilarityCandidate where
  memory : SearchedMemory
  classification : Classification
  lexicalSimilarity : Option ℚ
  semanticSimilarity : Option ℚ
  reason : String

structure SimilarityCandidatePool where
  memories : List SearchedMemory
  exactIds : List Uuid
  semanticScores : List (Uuid × ℚ)

/-- `_lexical_similarity`: the share of common words, and how many they are. -/
def lexicalSimilarity (targetTokens candidateTokens : Finset String) : ℚ × Nat :=
  let shared := (targetTokens ∩ candidateTokens).card
  let union := (targetTokens ∪ candidateTokens).card
  (if union = 0 then 0 else shared / union, shared)

/-- `_lexical_query` -/
def lexicalQuery (tokens : Finset String) : Option String :=
  let selected := (tokens.sort (· ≤ ·)).take maxQueryTokens
  if selected.isEmpty then none else some (" OR ".intercalate selected)

/-- The candidates of each query: active memories of the target's project, but the target. -/
def inScope (target m : SearchedMemory) : Bool :=
  m.id != target.id && m.projectId == target.projectId && m.status == .active

/-- `id.asc()` -/
def byId (m : SearchedMemory) : ℕᵒᵈ := OrderDual.toDual m.id.toNat

/-- The entries of a dict by identifier, with one more row put in. -/
def putRow (candidates : List SearchedMemory) (row : SearchedMemory) : List SearchedMemory :=
  if candidates.any fun m => m.id == row.id then candidates else candidates ++ [row]

section

variable {V S D : Type} [LinearOrder S] [LinearOrder D] (search : QualityIndex V S D)
  (table : MemoryTable) (target : SearchedMemory)

/-- `list_exact_duplicate_candidates` -/
def listExactDuplicateCandidates (normalizedContent : String) (limit : Nat) :
    List SearchedMemory :=
  (newestFirst byId (table.rows.filter fun m =>
    inScope target m && databaseNormalized m.content == normalizedContent)).take limit

/-- `list_lexical_similarity_candidates` -/
def listLexicalSimilarityCandidates (query : String) (limit : Nat) : List SearchedMemory :=
  (newestFirst (fun m => toLex (search.lexicalScore query m, byId m))
    (table.rows.filter fun m => inScope target m && search.isMatch query m)).take limit

/-- `list_semantic_similarity_candidates` -/
def listSemanticSimilarityCandidates (embedding : StoredEmbedding V) (limit : Nat) :
    List (SearchedMemory × Option ℚ) :=
  let joined := (table.rows.filter (inScope target)).filterMap fun m =>
    (search.embedding m).bind fun stored =>
      if stored.provider = embedding.provider ∧ stored.model = embedding.model ∧
          stored.dimensions = embedding.dimensions then
        some (m, search.distance stored.vector embedding.vector)
      else none
  ((newestFirst (fun row => toLex (OrderDual.toDual row.2, byId row.1)) joined).take limit).map
    fun row => (row.1, search.similarity row.2)

/-- `collect_similarity_candidate_pool` -/
def collectSimilarityCandidatePool (exactLimit : Nat) : SimilarityCandidatePool :=
  let exactRows := listExactDuplicateCandidates table target
    (normalizeExactContent target.content) exactLimit
  let lexicalRows := match lexicalQuery (search.tokens target.content) with
    | none => []
    | some query => listLexicalSimilarityCandidates search table target query searchPoolLimit
  let semanticRows : List (SearchedMemory × ℚ) := match search.embedding target with
    | none => []
    | some embedding =>
        if search.usableVector embedding.vector then
          (listSemanticSimilarityCandidates search table target embedding
            searchPoolLimit).filterMap fun row => row.2.map fun score => (row.1, score)
        else []
  { memories := (exactRows ++ lexicalRows ++ semanticRows.map (·.1)).foldl putRow []
    exactIds := exactRows.map (·.id)
    semanticScores := semanticRows.map fun row => (row.1.id, row.2) }

/-- What `detect_similar_memories` makes of one candidate. -/
def classify (pool : SimilarityCandidatePool) (m : SearchedMemory) :
    Option SimilarityCandidate :=
  let shared := lexicalSimilarity (search.tokens target.content) (search.tokens m.content)
  let lexicalScore := shared.1
  let sharedTokens := shared.2
  let semanticScore := (lookup (·.1) m.id pool.semanticScores).map (·.2)
  if pool.exactIds.contains m.id then
    some ⟨m, .exactDuplicate, some lexicalScore, semanticScore,
      "content matches after surrounding/repeated whitespace normalization"⟩
  else
    let lexicalMatch := decide (minimumSharedTokens ≤ sharedTokens) &&
      decide (lexicalSimilarityThreshold ≤ lexicalScore)
    let semanticMatch := semanticScore.any fun score =>
      decide (semanticSimilarityThreshold ≤ score)
    if !lexicalMatch && !semanticMatch then none
    else
      let lexicalEvidence := if lexicalMatch then
          ["lexical token Jaccard " ++ search.fixed lexicalScore ++ " with " ++
            toString sharedTokens ++ " shared tokens"]
        else []
      let semanticEvidence := if semanticMatch then
          ["stored-embedding cosine similarity " ++ search.fixed (semanticScore.getD 0)]
        else []
      some ⟨m, .similar, some lexicalScore, semanticScore,
        "; ".intercalate (lexicalEvidence ++ semanticEvidence)⟩

/-- `_candidate_sort_key`, from the greatest down: exact duplicates, then by both scores. -/
def candidateSortKey (item : SimilarityCandidate) : Lex (Bool × Lex (ℚ × Lex (ℚ × ℕᵒᵈ))) :=
  toLex (decide (item.classification = .exactDuplicate),
    toLex (item.semanticSimilarity.getD (-1),
      toLex (item.lexicalSimilarity.getD (-1), byId item.memory)))

def detectSimilarMemories (limit : Nat) : List SimilarityCandidate :=
  let pool := collectSimilarityCandidatePool search table target limit
  (newestFirst candidateSortKey
    (pool.memories.filterMap (classify search target pool))).take limit

end

/-! ## The pool -/

section

variable {V S D : Type} [LinearOrder S] [LinearOrder D] {search : QualityIndex V S D}
  {table : MemoryTable} {target m : SearchedMemory} {limit : Nat}

/-- Active, of the target's project, and not the target. -/
structure Eligible (table : MemoryTable) (target m : SearchedMemory) : Prop where
  stored : m ∈ table.rows
  other : m.id ≠ target.id
  sameScope : m.projectId = target.projectId
  active : m.status = .active

theorem eligible_iff :
    Eligible table target m ↔ m ∈ table.rows.filter (inScope target) := by
  rw [List.mem_filter, inScope, Bool.and_eq_true, Bool.and_eq_true, bne_iff_ne, beq_iff_eq,
    beq_iff_eq]
  constructor
  · rintro ⟨hstored, hother, hscope, hactive⟩
    exact ⟨hstored, ⟨hother, hscope⟩, hactive⟩
  · rintro ⟨hstored, ⟨hother, hscope⟩, hactive⟩
    exact ⟨hstored, hother, hscope, hactive⟩

theorem mem_putRow_foldl {rows candidates : List SearchedMemory}
    (h : m ∈ rows.foldl putRow candidates) : m ∈ candidates ∨ m ∈ rows := by
  induction rows generalizing candidates with
  | nil => exact .inl h
  | cons row rest ih =>
      rcases ih h with hin | hin
      · rw [putRow] at hin
        split at hin
        · exact .inl hin
        · rcases List.mem_append.mp hin with hin | hin
          · exact .inl hin
          · rw [List.mem_singleton.mp hin]
            exact .inr (List.mem_cons_self ..)
      · exact .inr (List.mem_cons_of_mem _ hin)

theorem foldl_putRow_ids {rows candidates : List SearchedMemory} {id : Uuid}
    (h : id ∈ candidates.map (·.id) ∨ id ∈ rows.map (·.id)) :
    id ∈ (rows.foldl putRow candidates).map (·.id) := by
  induction rows generalizing candidates with
  | nil => exact h.resolve_right (by simp)
  | cons row rest ih =>
      refine ih ?_
      rw [putRow]
      rcases h with h | h
      · left
        split
        · exact h
        · rw [List.map_append]
          exact List.mem_append_left _ h
      · rw [List.map_cons] at h
        rcases List.mem_cons.mp h with rfl | h
        · left
          split
          · rename_i hin
            obtain ⟨other, hother, hid⟩ := List.any_eq_true.mp hin
            exact List.mem_map.mpr ⟨other, hother, beq_iff_eq.mp hid⟩
          · rw [List.map_append]
            exact List.mem_append_right _ (List.mem_singleton.mpr rfl)
        · exact .inr h

theorem mem_listExact {normalizedContent : String}
    (h : m ∈ listExactDuplicateCandidates table target normalizedContent limit) :
    Eligible table target m ∧ normalizeExactContent m.content = normalizedContent := by
  have hin := mem_newestFirst.mp (List.mem_of_mem_take h)
  rw [List.mem_filter, Bool.and_eq_true, beq_iff_eq, databaseNormalized_eq] at hin
  exact ⟨eligible_iff.mpr (List.mem_filter.mpr ⟨hin.1, hin.2.1⟩), hin.2.2⟩

omit [LinearOrder D] in
theorem mem_listLexical {query : String}
    (h : m ∈ listLexicalSimilarityCandidates search table target query limit) :
    Eligible table target m := by
  have hin := mem_newestFirst.mp (List.mem_of_mem_take h)
  rw [List.mem_filter, Bool.and_eq_true] at hin
  exact eligible_iff.mpr (List.mem_filter.mpr ⟨hin.1, hin.2.1⟩)

omit [LinearOrder S] in
theorem mem_listSemantic {embedding : StoredEmbedding V} {score : Option ℚ}
    (h : (m, score) ∈ listSemanticSimilarityCandidates search table target embedding limit) :
    Eligible table target m := by
  obtain ⟨row, hrow, heq⟩ := List.mem_map.mp h
  cases heq
  obtain ⟨stored, hstored, hjoin⟩ :=
    List.mem_filterMap.mp (mem_newestFirst.mp (List.mem_of_mem_take hrow))
  obtain ⟨e, -, hsome⟩ := Option.bind_eq_some_iff.mp hjoin
  split at hsome
  · cases hsome
    exact eligible_iff.mpr hstored
  · cases hsome

/-- Every candidate is an active memory of the target's project other than the target. -/
theorem pool_eligible
    (h : m ∈ (collectSimilarityCandidatePool search table target limit).memories) :
    Eligible table target m := by
  rcases mem_putRow_foldl h with hin | hin
  · cases hin
  rcases List.mem_append.mp hin with hin | hin
  · rcases List.mem_append.mp hin with hin | hin
    · exact (mem_listExact hin).1
    · split at hin
      · cases hin
      · exact mem_listLexical hin
  · obtain ⟨row, hrow, rfl⟩ := List.mem_map.mp hin
    split at hrow
    · cases hrow
    · split at hrow
      · obtain ⟨pair, hpair, hsome⟩ := List.mem_filterMap.mp hrow
        obtain ⟨score, hscore, rfl⟩ := Option.map_eq_some_iff.mp hsome
        exact mem_listSemantic hpair
      · cases hrow

/-- The rows of the query for equal contents are candidates. -/
theorem exact_in_pool (h : m ∈ listExactDuplicateCandidates table target
    (normalizeExactContent target.content) limit) :
    m ∈ (collectSimilarityCandidatePool search table target limit).memories := by
  have hid : m.id ∈
      (collectSimilarityCandidatePool search table target limit).memories.map (·.id) := by
    refine foldl_putRow_ids (.inr ?_)
    rw [List.map_append, List.map_append]
    exact List.mem_append_left _ (List.mem_append_left _ (List.mem_map_of_mem h))
  obtain ⟨other, hother, heq⟩ := List.mem_map.mp hid
  have hsame := table.keyed.inj (pool_eligible hother).stored (mem_listExact h).1.stored heq
  exact hsame ▸ hother

/-! ## The list -/

omit [LinearOrder S] [LinearOrder D] in
/-- A candidate is told to be a duplicate exactly where the query for equal contents has it. -/
theorem classify_spec {pool : SimilarityCandidatePool} {c : SimilarityCandidate}
    (h : classify search target pool m = some c) :
    c.memory = m ∧ (c.classification = .exactDuplicate ↔ m.id ∈ pool.exactIds) := by
  rw [classify] at h
  split at h
  · rename_i hexact
    cases h
    exact ⟨rfl, iff_of_true rfl (List.contains_iff_mem.mp hexact)⟩
  · rename_i hexact
    rw [List.contains_iff_mem] at hexact
    dsimp only at h
    split at h
    · cases h
    · cases h
      exact ⟨rfl, iff_of_false (fun heq => nomatch heq) hexact⟩

variable (search target) in
omit [LinearOrder S] [LinearOrder D] in
theorem classify_exact {pool : SimilarityCandidatePool} (h : m.id ∈ pool.exactIds) :
    ∃ c, classify search target pool m = some c ∧ c.memory = m ∧
      c.classification = .exactDuplicate := by
  rw [classify, if_pos (List.contains_iff_mem.mpr h)]
  exact ⟨_, rfl, rfl, rfl⟩

/-- The classified candidates, before the order and the cut. -/
def classified (search : QualityIndex V S D) (table : MemoryTable) (target : SearchedMemory)
    (limit : Nat) : List SimilarityCandidate :=
  (collectSimilarityCandidatePool search table target limit).memories.filterMap
    (classify search target (collectSimilarityCandidatePool search table target limit))

theorem mem_classified {c : SimilarityCandidate} (h : c ∈ classified search table target limit) :
    Eligible table target c.memory ∧ (c.classification = .exactDuplicate ↔
      c.memory ∈ listExactDuplicateCandidates table target
        (normalizeExactContent target.content) limit) := by
  obtain ⟨m, hm, hsome⟩ := List.mem_filterMap.mp h
  obtain ⟨rfl, hexact⟩ := classify_spec hsome
  refine ⟨pool_eligible hm, hexact.trans ?_⟩
  constructor
  · intro hid
    obtain ⟨other, hother, heq⟩ := List.mem_map.mp hid
    have hsame := table.keyed.inj (mem_listExact hother).1.stored (pool_eligible hm).stored heq
    exact hsame ▸ hother
  · exact List.mem_map_of_mem

variable (search) in
/-- Each row of the query for equal contents is classified as a duplicate. -/
theorem exact_classified (h : m ∈ listExactDuplicateCandidates table target
    (normalizeExactContent target.content) limit) :
    ∃ c ∈ classified search table target limit, c.memory = m ∧
      c.classification = .exactDuplicate := by
  have hid : m.id ∈ (collectSimilarityCandidatePool search table target limit).exactIds :=
    List.mem_map_of_mem h
  obtain ⟨c, hc, hmemory, hexact⟩ := classify_exact search target hid
  exact ⟨c, List.mem_filterMap.mpr ⟨m, exact_in_pool h, hc⟩, hmemory, hexact⟩

def isDuplicate (c : SimilarityCandidate) : Bool := decide (c.classification = .exactDuplicate)

theorem duplicates_first (l : List SimilarityCandidate) :
    (newestFirst candidateSortKey l).Pairwise fun a b =>
      isDuplicate b = true → isDuplicate a = true := by
  refine (newestFirst_pairwise candidateSortKey l).imp fun {a b} hle hb => ?_
  have hfirst : isDuplicate b ≤ isDuplicate a := Prod.Lex.monotone_fst _ _ hle
  rw [hb] at hfirst
  exact Bool.eq_true_of_true_le hfirst

variable (search) in
/-- Where the query for equal contents cuts a memory off, the rows that it has fill the list. -/
theorem duplicates_fill (h : Eligible table target m)
    (hequal : normalizeExactContent m.content = normalizeExactContent target.content)
    (hcut : m ∉ listExactDuplicateCandidates table target
      (normalizeExactContent target.content) limit) :
    limit ≤ ((newestFirst candidateSortKey (classified search table target limit)).filter
      isDuplicate).length := by
  have hfound : m ∈ newestFirst byId (table.rows.filter fun m => inScope target m &&
      databaseNormalized m.content == normalizeExactContent target.content) := by
    have hscope := List.mem_filter.mp (eligible_iff.mp h)
    rw [mem_newestFirst, List.mem_filter, hscope.2, databaseNormalized_eq, hequal]
    exact ⟨h.stored, by simp⟩
  have hlength : (listExactDuplicateCandidates table target
      (normalizeExactContent target.content) limit).length = limit := by
    rw [listExactDuplicateCandidates, List.length_take]
    refine Nat.min_eq_left ?_
    by_contra hshort
    refine hcut ?_
    rw [listExactDuplicateCandidates, List.take_of_length_le (by omega)]
    exact hfound
  have hnodup : (listExactDuplicateCandidates table target
      (normalizeExactContent target.content) limit).Nodup := by
    refine List.Nodup.sublist (List.take_sublist _ _) ?_
    exact (List.perm_insertionSort _ _).nodup_iff.mpr
      ((List.Nodup.of_map _ table.keyed).filter _)
  have hsubset : listExactDuplicateCandidates table target
      (normalizeExactContent target.content) limit ⊆
        ((newestFirst candidateSortKey (classified search table target limit)).filter
          isDuplicate).map (·.memory) := by
    intro row hrow
    obtain ⟨c, hc, hmemory, hexact⟩ := exact_classified search hrow
    refine List.mem_map.mpr ⟨c, List.mem_filter.mpr ⟨mem_newestFirst.mpr hc, ?_⟩, hmemory⟩
    exact decide_eq_true hexact
  have hle := (hnodup.subperm hsubset).length_le
  rw [hlength, List.length_map] at hle
  exact hle

/-- What a list of candidates for a target is. -/
structure ExactlyClassified (table : MemoryTable) (target : SearchedMemory) (limit : Nat)
    (listed : List SimilarityCandidate) : Prop where
  eligible : ∀ c ∈ listed, Eligible table target c.memory
  exact : ∀ c ∈ listed, c.classification = .exactDuplicate ↔
    normalizeExactContent c.memory.content = normalizeExactContent target.content
  first : listed.Pairwise fun a b => isDuplicate b = true → isDuplicate a = true
  bounded : listed.length ≤ limit
  complete : ∀ m, Eligible table target m →
    normalizeExactContent m.content = normalizeExactContent target.content →
    (∃ c ∈ listed, c.memory = m ∧ c.classification = .exactDuplicate) ∨
      listed.length = limit ∧ ∀ c ∈ listed, c.classification = .exactDuplicate

/-- Both normalizations are one, and a candidate is listed as a duplicate exactly where its
content is the target's: of the memories of equal content none is missing unless duplicates
fill the list. -/
theorem duplicates_exact (search : QualityIndex V S D) (table : MemoryTable)
    (target : SearchedMemory) (limit : Nat) :
    (∀ text, databaseNormalized text = normalizeExactContent text) ∧
      ExactlyClassified table target limit (detectSimilarMemories search table target limit) := by
  refine ⟨databaseNormalized_eq, ?_⟩
  have hlisted : detectSimilarMemories search table target limit =
      (newestFirst candidateSortKey (classified search table target limit)).take limit := rfl
  have hmem : ∀ c ∈ detectSimilarMemories search table target limit,
      c ∈ classified search table target limit :=
    fun c hc => mem_newestFirst.mp (List.mem_of_mem_take hc)
  have hfill : ∀ m, Eligible table target m →
      normalizeExactContent m.content = normalizeExactContent target.content →
      m ∉ listExactDuplicateCandidates table target (normalizeExactContent target.content) limit →
      ∀ c ∈ detectSimilarMemories search table target limit,
        c.classification = .exactDuplicate := by
    intro m hm hequal hcut c hc
    exact of_decide_eq_true
      (take_meets (duplicates_first _) (duplicates_fill search hm hequal hcut) c hc)
  constructor
  · intro c hc
    exact (mem_classified (hmem c hc)).1
  · intro c hc
    obtain ⟨heligible, hexact⟩ := mem_classified (hmem c hc)
    constructor
    · intro h
      exact (mem_listExact (hexact.mp h)).2
    · intro hequal
      by_cases hrow : c.memory ∈ listExactDuplicateCandidates table target
          (normalizeExactContent target.content) limit
      · exact hexact.mpr hrow
      · exact hfill c.memory heligible hequal hrow c hc
  · rw [hlisted]
    exact (duplicates_first _).sublist (List.take_sublist _ _)
  · rw [hlisted]
    exact List.length_take_le _ _
  · intro m hm hequal
    rw [hlisted]
    by_cases hrow : m ∈ listExactDuplicateCandidates table target
        (normalizeExactContent target.content) limit
    · obtain ⟨c, hc, hmemory, hexact⟩ := exact_classified search hrow
      have hsorted : c ∈ newestFirst candidateSortKey (classified search table target limit) :=
        mem_newestFirst.mpr hc
      have hfirst := duplicates_first (classified search table target limit)
      rw [← List.take_append_drop limit (newestFirst candidateSortKey
        (classified search table target limit))] at hsorted hfirst
      rcases List.mem_append.mp hsorted with hkept | hcut
      · exact .inl ⟨c, hkept, hmemory, hexact⟩
      · refine .inr ⟨?_, fun a ha => ?_⟩
        · have hlong := List.length_pos_of_mem hcut
          rw [List.length_drop] at hlong
          rw [List.length_take]
          omega
        · exact of_decide_eq_true ((List.pairwise_append.mp hfirst).2.2 a ha c hcut
            (decide_eq_true hexact))
    · refine .inr ⟨?_, hfill m hm hequal hrow⟩
      have hle := (duplicates_fill search hm hequal hrow).trans
        (List.length_filter_le _ _)
      rw [List.length_take]
      exact Nat.min_eq_left hle

end

end SecondBrain.MemoryQuality
