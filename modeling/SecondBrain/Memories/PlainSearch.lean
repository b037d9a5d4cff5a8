import SecondBrain.Memories.HybridPages

/-!
# The searches an explained search explains

Each mode of a search is written twice: once as a statement that sorts by the sort keys and
selects memories, and once with row numbers, scores and contributions to show. Both show the
same page (`explained_agrees`). For the lexical and the semantic mode that is a fact about
numbering what is sorted; the hybrid statement joins what it fused to the memories the other
way around, so its rows come in another order before they are sorted.
-/

namespace SecondBrain.Memories

open Lib Knowledge

section

variable {V S D F : Type} [LinearOrder S] [LinearOrder D] [LinearOrder F] [Add F] [Zero F]
  (index : Index V S D F) (table : MemoryTable)

/-- `list_memories` -/
def listMemories (query : Option String) (filters : StructuredFilters) (limit offset : Nat) :
    List SearchedMemory :=
  let ordered := match query with
    | some query =>
        newestFirst (fun m => toLex (index.lexicalScore query m, recency m))
          (table.rows.filter fun m => index.isMatch query m && filters.passes m)
    | none => newestFirst recency (table.rows.filter filters.passes)
  (ordered.drop offset).take limit

/-- `search_memories` -/
def searchMemories (queryVector : V) (filters : StructuredFilters) (limit offset : Nat) :
    List SearchedMemory :=
  let joined := semanticMatches index table queryVector filters.passes
  (((newestFirst semanticKey joined).map (·.1)).drop offset).take limit

/-- A channel of the plain statement: identifiers with their ranks. -/
def rankedIds {X : Type} (rows : List (RankedMemory X)) (candidateLimit : Nat) :
    List (Uuid × Nat) :=
  (rows.take candidateLimit).map fun row => (row.memory.id, row.rank)

/-- `coalesce(1.0 / (RRF_K + rank), 0.0)` over an outer join -/
def coalescedShare (ranks : List (Uuid × Nat)) (id : Uuid) : F :=
  ((lookup (·.1) id ranks).map fun row => index.reciprocal (rrfK + row.2)).getD 0

/-- The memories that join a fused candidate, with its `rrf_score`. -/
def joinedScores (query : String) (queryVector : V) (passes : SearchedMemory → Bool)
    (candidateLimit : Nat) : List (SearchedMemory × F) :=
  let lexical := rankedIds (lexicalRows index table query passes) candidateLimit
  let semantic := rankedIds (semanticRows index table queryVector passes) candidateLimit
  let ids := (lexical.map (·.1) ++ semantic.map (·.1)).dedup
  (table.rows.filter fun m => ids.contains m.id).map fun m =>
    (m, coalescedShare index lexical m.id + coalescedShare index semantic m.id)

/-- The statement of `search_memories_hybrid`: `rrf_score.desc(), created_at.desc(), id.asc()` -/
def hybridStatement (query : String) (queryVector : V) (filters : StructuredFilters)
    (limit offset : Nat) : List SearchedMemory :=
  let joined := joinedScores index table query queryVector filters.passes
    (hybridCandidateLimit limit offset)
  let ordered := newestFirst (fun row => toLex (row.2, recency row.1)) joined
  ((ordered.map (·.1)).drop offset).take limit

end

/-! ## One order, stated twice -/

section

variable {V S D F : Type} {index : Index V S D F} {table : MemoryTable} {query : String}
  {queryVector : V} {passes : SearchedMemory → Bool} {limit : Nat} {m : SearchedMemory}

theorem rankedIds_fst {X : Type} (rows : List (RankedMemory X)) :
    (rankedIds rows limit).map (·.1) = (rows.take limit).map (·.memory.id) := by
  rw [rankedIds, List.map_map]
  rfl

theorem lookup_rankedIds {X : Type} (rows : List (RankedMemory X)) (id : Uuid) :
    (lookup (·.1) id (rankedIds rows limit)).map (·.2)
      = (lookup (·.memory.id) id (rows.take limit)).map (·.rank) := by
  rw [rankedIds, lookup, lookup, List.find?_map, Option.map_map]
  rfl

theorem coalescedShare_eq [Zero F] {X : Type} {rows : List (RankedMemory X)}
    {place : Option Nat} {id : Uuid}
    (h : (lookup (·.memory.id) id (rows.take limit)).map (·.rank) = place.filter (· ≤ limit)) :
    coalescedShare index (rankedIds rows limit) id = contribution index limit place := by
  rw [← lookup_rankedIds] at h
  rw [coalescedShare, contribution, ← h, Option.map_map]
  rfl

theorem lexicalRows_memory [LinearOrder S] :
    (lexicalRows index table query passes).map (·.memory) =
      newestFirst (fun m => toLex (index.lexicalScore query m, recency m))
        (table.rows.filter fun m => index.isMatch query m && passes m) := by
  rw [lexicalRows, numbered_memory, lexicalMatches, newestFirst, newestFirst,
    ← List.map_insertionSort (r := fun a b : SearchedMemory =>
      toLex (index.lexicalScore query b, recency b) ≤ toLex (index.lexicalScore query a, recency a))]
  · rw [List.map_map]
    exact List.map_id _
  · intro a _ b _
    rfl

variable [LinearOrder S] [LinearOrder D] [Add F] [Zero F]

theorem joinedScores_fst :
    (joinedScores index table query queryVector passes limit).map (·.1) =
      candidates index table query queryVector passes limit := by
  rw [joinedScores, List.map_map, candidates]
  refine (List.map_id _).trans (List.filter_congr fun m hm => ?_)
  rw [Bool.eq_iff_iff, List.contains_iff_mem, rankedIds_fst, rankedIds_fst]
  exact mem_candidateIds hm

theorem joinedScores_score {row : SearchedMemory × F}
    (h : row ∈ joinedScores index table query queryVector passes limit) :
    row.2 = scoreWithin index table query queryVector passes limit row.1 := by
  obtain ⟨m, hm, rfl⟩ := List.mem_map.mp h
  have hrow : m ∈ table.rows := (List.mem_filter.mp hm).1
  rw [scoreWithin, ← coalescedShare_eq (lexical_window hrow),
    ← coalescedShare_eq (semantic_window hrow)]

variable [LinearOrder F]

/-- The plain statement sorts its join into the order the explained one numbers. -/
theorem joinedScores_order :
    (newestFirst (fun row => toLex (row.2, recency row.1))
        (joinedScores index table query queryVector passes limit)).map (·.1) =
      fusedOrder index table query queryVector passes limit := by
  have hmap : (newestFirst (fun row => toLex (row.2, recency row.1))
        (joinedScores index table query queryVector passes limit)).map (·.1) =
      newestFirst (keyWithin index table query queryVector passes limit)
        ((joinedScores index table query queryVector passes limit).map (·.1)) := by
    refine List.map_insertionSort _ _ _ _ fun a ha b hb => ?_
    dsimp only
    rw [joinedScores_score ha, joinedScores_score hb]
    rfl
  rw [hmap, joinedScores_fst, fusedOrder_eq]
  exact (newestFirst_perm fusedRows_perm fusedRows_nodup fusedRows_key).symm

/-- The statement shows what a stretch of the fused order shows. -/
theorem hybridStatement_eq (filters : StructuredFilters) (limit offset : Nat) :
    hybridStatement index table query queryVector filters limit offset =
      searchMemoriesHybrid index table query queryVector filters limit offset := by
  rw [hybridStatement, joinedScores_order, searchMemoriesHybrid, fusedOrder, List.map_take,
    List.map_drop]

end

/-! ## The pages -/

section

variable {V S D : Type} {index : Index V S D ℚ} {table : MemoryTable} {query : String}
  {queryVector : V} {passes : SearchedMemory → Bool} {limit : Nat}

/-- A page shows the memories of the plain one, numbered from the offset on. -/
structure Explains (plain : List SearchedMemory) (offset : Nat)
    (page : List (ExplainedResult S D ℚ)) : Prop where
  memories : page.map (·.memory) = plain
  ranks : page.map (·.rank) = (List.range plain.length).map fun i => offset + 1 + i

/-- What the channels that have a memory add up to. -/
def presentSum (row : ExplainedResult S D ℚ) : ℚ :=
  (row.lexicalContribution.toList ++ row.semanticContribution.toList).sum

/-- The scores of a hybrid page: a channel contributes where it ranks the memory, one of them
does, and the sums do not increase. -/
structure Fuses (index : Index V S D ℚ) (page : List (ExplainedResult S D ℚ)) : Prop where
  lexical : ∀ row ∈ page,
    row.lexicalContribution = row.lexicalRank.map fun rank => index.reciprocal (rrfK + rank)
  semantic : ∀ row ∈ page,
    row.semanticContribution = row.semanticRank.map fun rank => index.reciprocal (rrfK + rank)
  ranked : ∀ row ∈ page, row.lexicalRank.isSome ∨ row.semanticRank.isSome
  sums : ∀ row ∈ page, row.fusedScore = some (presentSum row)
  descending : page.Pairwise fun a b => presentSum b ≤ presentSum a

/-- Numbering what is sorted and showing a stretch of it shows that stretch, and its numbers. -/
theorem explains_numbered {X : Type} (rows : List (SearchedMemory × X)) (offset limit : Nat)
    (explain : RankedMemory X → ExplainedResult S D ℚ)
    (hmemory : ∀ row, (explain row).memory = row.memory)
    (hrank : ∀ row, (explain row).rank = row.rank) :
    Explains (((rows.map (·.1)).drop offset).take limit) offset
      ((((numbered rows).drop offset).take limit).map explain) := by
  constructor
  · rw [List.map_map, ← numbered_memory, ← List.map_drop, ← List.map_take]
    exact List.map_congr_left fun row _ => hmemory row
  · refine List.ext_getElem? fun i => ?_
    rw [List.map_map, List.getElem?_map, List.getElem?_map, List.length_take, List.length_drop,
      List.length_map, List.getElem?_take]
    by_cases hlt : i < limit ∧ offset + i < rows.length
    · rw [if_pos hlt.1, List.getElem?_drop, getElem?_numbered, List.getElem?_range (by omega),
        List.getElem?_eq_getElem hlt.2]
      simp only [Option.map_some, Function.comp_apply, hrank, Option.some.injEq]
      omega
    · rw [List.getElem?_eq_none (l := List.range _) (by rw [List.length_range]; omega)]
      split
      · rw [List.getElem?_drop, getElem?_numbered, List.getElem?_eq_none (by omega)]
        rfl
      · rfl

variable [LinearOrder S] [LinearOrder D]

/-- What a row of the final order says of its memory is what the windows fuse to. -/
theorem mem_finalRanked {row : SearchedMemory × FusedCandidate S D ℚ}
    (h : row ∈ finalRanked index table query queryVector passes limit) :
    ∃ id ∈ candidateIds index table query queryVector passes limit,
      row.2 = fuse index ((lexicalRows index table query passes).take limit)
        ((semanticRows index table queryVector passes).take limit) id := by
  rw [finalRanked, mem_newestFirst] at h
  obtain ⟨candidate, hcandidate, hrow⟩ := List.mem_filterMap.mp h
  obtain ⟨m, -, rfl⟩ := Option.map_eq_some_iff.mp hrow
  obtain ⟨id, hid, rfl⟩ := List.mem_map.mp hcandidate
  exact ⟨id, hid, rfl⟩

theorem mem_numbered {X : Type} {rows : List (SearchedMemory × X)} {row : RankedMemory X}
    (h : row ∈ numbered rows) : (row.memory, row.value) ∈ rows := by
  obtain ⟨pair, hpair, rfl⟩ := List.mem_map.mp h
  exact List.fst_mem_of_mem_zipIdx hpair

omit [LinearOrder S] [LinearOrder D] in
theorem presentSum_explain (row : RankedMemory (FusedCandidate S D ℚ)) :
    presentSum (explain row) =
      row.value.lexicalContribution.getD 0 + row.value.semanticContribution.getD 0 := by
  rw [presentSum, explain]
  cases row.value.lexicalContribution <;> cases row.value.semanticContribution <;> simp

theorem fused_sum {row : RankedMemory (FusedCandidate S D ℚ)}
    (h : row ∈ numbered (finalRanked index table query queryVector passes limit)) :
    row.value.fusedScore = presentSum (explain row) := by
  obtain ⟨id, -, hfuse⟩ := mem_finalRanked (mem_numbered h)
  have hvalue : row.value = _ := hfuse
  rw [presentSum_explain, hvalue]
  rfl

theorem numbered_descending :
    (numbered (finalRanked index table query queryVector passes limit)).Pairwise
      fun a b => b.value.fusedScore ≤ a.value.fusedScore := by
  rw [numbered, List.pairwise_map]
  have hsorted : ((finalRanked index table query queryVector passes limit).zipIdx 1).Pairwise
      fun a b => finalKey b.1 ≤ finalKey a.1 := by
    rw [← List.pairwise_map (f := Prod.fst) (R := fun a b => finalKey b ≤ finalKey a),
      List.zipIdx_map_fst]
    exact newestFirst_pairwise _ _
  exact hsorted.imp fun hle => Prod.Lex.monotone_fst _ _ hle

/-- The scores of a stretch of the final order. -/
theorem fuses_page (o k : Nat) :
    Fuses index ((((numbered (finalRanked index table query queryVector passes limit)).drop
      o).take k).map explain) := by
  have hmem : ∀ row ∈ ((numbered (finalRanked index table query queryVector passes
      limit)).drop o).take k, row ∈ numbered (finalRanked index table query queryVector passes
      limit) := fun row hrow => List.mem_of_mem_drop (List.mem_of_mem_take hrow)
  have hfuse : ∀ row ∈ ((numbered (finalRanked index table query queryVector passes
      limit)).drop o).take k, ∃ id ∈ candidateIds index table query queryVector passes limit,
      row.value = fuse index ((lexicalRows index table query passes).take limit)
        ((semanticRows index table queryVector passes).take limit) id :=
    fun row hrow => mem_finalRanked (mem_numbered (hmem row hrow))
  constructor
  · intro shown hshown
    obtain ⟨row, hrow, rfl⟩ := List.mem_map.mp hshown
    obtain ⟨id, -, hvalue⟩ := hfuse row hrow
    rw [explain, hvalue, fuse, Option.map_map]
    rfl
  · intro shown hshown
    obtain ⟨row, hrow, rfl⟩ := List.mem_map.mp hshown
    obtain ⟨id, -, hvalue⟩ := hfuse row hrow
    rw [explain, hvalue, fuse, Option.map_map]
    rfl
  · intro shown hshown
    obtain ⟨row, hrow, rfl⟩ := List.mem_map.mp hshown
    obtain ⟨id, hid, hvalue⟩ := hfuse row hrow
    rw [candidateIds, List.mem_dedup, List.mem_append, ← lookup_isSome, ← lookup_isSome] at hid
    rw [explain, hvalue, fuse, Option.isSome_map, Option.isSome_map]
    exact hid
  · intro shown hshown
    obtain ⟨row, hrow, rfl⟩ := List.mem_map.mp hshown
    rw [← fused_sum (hmem row hrow), explain]
  · have hsorted : (numbered (finalRanked index table query queryVector passes limit)).Pairwise
        fun a b => b.value.fusedScore ≤ a.value.fusedScore := numbered_descending
    rw [List.pairwise_map]
    refine (hsorted.sublist ((List.take_sublist k _).trans
      (List.drop_sublist o _))).imp_of_mem fun ha hb hle => ?_
    rw [← fused_sum (hmem _ ha), ← fused_sum (hmem _ hb)]
    exact hle

/-- Without the switch that leaves out what has a project, the filters are the plain ones. -/
theorem passesUnassigned_false (filters : StructuredFilters) :
    filters.passesUnassigned false = filters.passes := by
  funext m
  rw [StructuredFilters.passesUnassigned, Bool.not_false, Bool.true_or, Bool.and_true]

/-- In each mode an explained search shows the memories of the plain search in its order, with
ranks that go on from the offset; a hybrid row's score is what its channels add up to, and no
row has a greater one than the row before. -/
theorem explained_agrees (index : Index V S D ℚ) (table : MemoryTable) (query : String)
    (queryVector : V) (unused : Option V) (filters : StructuredFilters) (limit offset : Nat) :
    (∃ page, searchMemoriesExplained index table query .lexical unused filters false limit offset
        = .ok page ∧
      Explains (listMemories index table (some query) filters limit offset) offset page) ∧
    (∃ page, searchMemoriesExplained index table query .semantic (some queryVector) filters false
        limit offset = .ok page ∧
      Explains (searchMemories index table queryVector filters limit offset) offset page) ∧
    (∃ page, searchMemoriesExplained index table query .hybrid (some queryVector) filters false
        limit offset = .ok page ∧
      Explains (hybridStatement index table query queryVector filters limit offset) offset page ∧
      Fuses index page) := by
  refine ⟨⟨_, rfl, ?_⟩, ⟨_, rfl, ?_⟩, ⟨_, rfl, ?_, ?_⟩⟩
  · rw [passesUnassigned_false, listMemories, ← lexicalRows_memory, lexicalRows, numbered_memory]
    exact explains_numbered _ offset limit _ (fun _ => rfl) (fun _ => rfl)
  · rw [passesUnassigned_false]
    exact explains_numbered _ offset limit _ (fun _ => rfl) (fun _ => rfl)
  · rw [passesUnassigned_false, hybridStatement, joinedScores_order, fusedOrder]
    exact explains_numbered _ offset limit explain (fun _ => rfl) (fun _ => rfl)
  · rw [passesUnassigned_false]
    exact fuses_page offset limit

end

end SecondBrain.Memories
