import Mathlib.Data.List.Dedup
import Mathlib.Algebra.Order.Field.Rat
import SecondBrain.Lib.Paging
import SecondBrain.Memories.Search

/-!
# Walking through the pages of a hybrid search

The window that each channel gives its candidates from grows with the offset, and a rank
that comes into it adds to the score of its memory. What a page shows is therefore a
stretch of an order of its own. The place of a memory in it can be told from the ranks
alone, by counting (`getElem?_fusedOrder`), and a walk through the pages shows every memory
once exactly where no window lets another memory come first than the one before
(`hybrid_stable_iff`).
-/

namespace SecondBrain.Memories

open Lib Knowledge

/-! ## Channels -/

section

variable {X κ : Type} [LinearOrder κ] {key : SearchedMemory × X → κ}
  {rows : List (SearchedMemory × X)} {r : RankedMemory X} {id : Uuid} {limit i : Nat}

theorem recency_inj {a b : SearchedMemory} (h : recency a = recency b) : a.id = b.id := by
  have hid : a.id.toNat = b.id.toNat := congrArg (fun key => OrderDual.ofDual (ofLex key).2) h
  exact BitVec.eq_of_toNat_eq hid

theorem getElem?_numbered :
    (numbered rows)[i]? = rows[i]?.map fun row => ⟨row.1, 1 + i, row.2⟩ := by
  rw [numbered, List.getElem?_map, List.getElem?_zipIdx, Option.map_map]
  rfl

theorem numbered_memory : (numbered rows).map (·.memory) = rows.map (·.1) := by
  refine List.ext_getElem? fun i => ?_
  rw [List.getElem?_map, getElem?_numbered, List.getElem?_map, Option.map_map]
  rfl

theorem mem_take_numbered :
    r ∈ (numbered rows).take limit ↔
      ∃ i, rows[i]? = some (r.memory, r.value) ∧ r.rank = i + 1 ∧ i < limit := by
  rw [List.mem_iff_getElem?]
  constructor
  · rintro ⟨i, hi⟩
    rw [List.getElem?_take] at hi
    split at hi
    · rw [getElem?_numbered, Option.map_eq_some_iff] at hi
      obtain ⟨row, hrow, rfl⟩ := hi
      exact ⟨i, hrow, Nat.add_comm 1 i, by assumption⟩
    · cases hi
  · intro ⟨i, hrow, hrank, hlt⟩
    refine ⟨i, ?_⟩
    rw [List.getElem?_take_of_lt hlt, getElem?_numbered, hrow, Option.map_some, Nat.add_comm 1 i,
      ← hrank]

/-- The row of a window that an outer join finds is that of a memory of the channel, ranked
by the number of those ahead of it. -/
theorem lookup_window (hkeyed : Keyed (·.1.id) rows)
    (hkey : ∀ a ∈ rows, ∀ b ∈ rows, key a = key b → a = b) :
    lookup (·.memory.id) id ((numbered (newestFirst key rows)).take limit) = some r ↔
      (r.memory, r.value) ∈ rows ∧ r.memory.id = id ∧
        r.rank = ahead key rows (r.memory, r.value) + 1 ∧ r.rank ≤ limit := by
  have hnodup : rows.Nodup := List.Nodup.of_map _ hkeyed
  have hmem : ∀ r : RankedMemory X, r ∈ (numbered (newestFirst key rows)).take limit ↔
      (r.memory, r.value) ∈ rows ∧ r.rank = ahead key rows (r.memory, r.value) + 1 ∧
        r.rank ≤ limit := by
    intro r
    rw [mem_take_numbered]
    constructor
    · rintro ⟨i, hrow, hrank, hlt⟩
      obtain ⟨hin, hahead⟩ := (getElem?_newestFirst hnodup hkey).mp hrow
      exact ⟨hin, by omega, by omega⟩
    · intro ⟨hin, hrank, hle⟩
      exact ⟨_, (getElem?_newestFirst hnodup hkey).mpr ⟨hin, rfl⟩, hrank, by omega⟩
  have hwindow : Keyed (·.memory.id) ((numbered (newestFirst key rows)).take limit) := by
    have hids : (numbered (newestFirst key rows)).map (·.memory.id)
        = (newestFirst key rows).map (·.1.id) := by
      have hmemory := congrArg (List.map (·.id)) (@numbered_memory X (newestFirst key rows))
      rw [List.map_map, List.map_map] at hmemory
      exact hmemory
    rw [Keyed, List.map_take, hids]
    refine List.Nodup.sublist (List.take_sublist _ _) ?_
    exact ((List.perm_insertionSort _ rows).map _).nodup_iff.mpr hkeyed
  rw [hwindow.lookup_iff, hmem]
  constructor
  · rintro ⟨⟨hin, hrank, hle⟩, hid⟩
    exact ⟨hin, hid, hrank, hle⟩
  · rintro ⟨hin, hid, hrank, hle⟩
    exact ⟨⟨hin, hrank, hle⟩, hid⟩

end

/-! ## Places -/

section

variable {V S D F : Type} [LinearOrder S] [LinearOrder D] [LinearOrder F] [Add F] [Zero F]
  (index : Index V S D F) (table : MemoryTable) (query : String) (queryVector : V)
  (passes : SearchedMemory → Bool)

/-- The rank of a memory among those the words are found in: one more than the number of
those that come before it. -/
def lexicalPlace (m : SearchedMemory) : Option Nat :=
  if index.isMatch query m && passes m then
    some (ahead lexicalKey (lexicalMatches index table query passes)
      (m, index.lexicalScore query m) + 1)
  else none

/-- The rank of a memory among those with an embedding. -/
def semanticPlace (m : SearchedMemory) : Option Nat :=
  if passes m then
    (index.distance queryVector m).map fun distance =>
      ahead semanticKey (semanticMatches index table queryVector passes) (m, distance) + 1
  else none

/-- What a rank adds to the score, where the window has it. -/
def contribution (limit : Nat) (place : Option Nat) : F :=
  ((place.filter (· ≤ limit)).map fun rank => index.reciprocal (rrfK + rank)).getD 0

def scoreWithin (limit : Nat) (m : SearchedMemory) : F :=
  contribution index limit (lexicalPlace index table query passes m) +
    contribution index limit (semanticPlace index table queryVector passes m)

/-- A channel ranks the memory within the window. -/
def isCandidate (limit : Nat) (m : SearchedMemory) : Bool :=
  ((lexicalPlace index table query passes m).filter (· ≤ limit)).isSome ||
    ((semanticPlace index table queryVector passes m).filter (· ≤ limit)).isSome

def candidates (limit : Nat) : List SearchedMemory :=
  table.rows.filter (isCandidate index table query queryVector passes limit)

def keyWithin (limit : Nat) (m : SearchedMemory) : Lex (F × Recency) :=
  toLex (scoreWithin index table query queryVector passes limit m, recency m)

/-- The memory is one of the first `count` candidates: fewer of them come before it. -/
def ComesFirst (limit count : Nat) (m : SearchedMemory) : Prop :=
  m ∈ candidates index table query queryVector passes limit ∧
    ahead (keyWithin index table query queryVector passes limit)
      (candidates index table query queryVector passes limit) m < count

/-- Wherever there is a next page, the ranks that come into its window let the same memories
come before it. -/
def WindowsAgree (k : Nat) : Prop :=
  ∀ n, (n + 1) * k < (candidates index table query queryVector passes
      (hybridCandidateLimit k ((n + 1) * k))).length →
    ∀ m, ComesFirst index table query queryVector passes (hybridCandidateLimit k (n * k))
        ((n + 1) * k) m ↔
      ComesFirst index table query queryVector passes (hybridCandidateLimit k ((n + 1) * k))
        ((n + 1) * k) m

end

/-! ## The code's order is the order by places -/

section

variable {V S D F : Type} {index : Index V S D F} {table : MemoryTable} {query : String}
  {queryVector : V} {passes : SearchedMemory → Bool} {limit : Nat} {m : SearchedMemory}

theorem mem_lexicalMatches {score : S} :
    (m, score) ∈ lexicalMatches index table query passes ↔
      m ∈ table.rows ∧ (index.isMatch query m && passes m) = true ∧
        score = index.lexicalScore query m := by
  rw [lexicalMatches, List.mem_map]
  constructor
  · rintro ⟨other, hother, heq⟩
    cases heq
    exact ⟨(List.mem_filter.mp hother).1, (List.mem_filter.mp hother).2, rfl⟩
  · rintro ⟨hm, hfound, rfl⟩
    exact ⟨m, List.mem_filter.mpr ⟨hm, hfound⟩, rfl⟩

theorem mem_semanticMatches {distance : D} :
    (m, distance) ∈ semanticMatches index table queryVector passes ↔
      m ∈ table.rows ∧ passes m = true ∧ index.distance queryVector m = some distance := by
  rw [semanticMatches, List.mem_filterMap]
  constructor
  · rintro ⟨other, hother, heq⟩
    obtain ⟨hin, hpasses⟩ := List.mem_filter.mp hother
    obtain ⟨d, hd, hpair⟩ := Option.map_eq_some_iff.mp heq
    cases hpair
    exact ⟨hin, hpasses, hd⟩
  · rintro ⟨hm, hpasses, hd⟩
    exact ⟨m, List.mem_filter.mpr ⟨hm, hpasses⟩, by rw [hd]; rfl⟩

theorem lexicalMatches_keyed : Keyed (·.1.id) (lexicalMatches index table query passes) := by
  rw [Keyed, lexicalMatches, List.map_map]
  exact table.keyed.sublist (List.filter_sublist.map _)

theorem semanticMatches_fst (rows : List SearchedMemory) :
    (rows.filterMap fun m => (index.distance queryVector m).map fun d => (m, d)).map (·.1)
      = rows.filter fun m => (index.distance queryVector m).isSome := by
  induction rows with
  | nil => rfl
  | cons m rest ih =>
      cases hd : index.distance queryVector m with
      | none => simp [hd, ih]
      | some d => simp [hd, ih]

theorem semanticMatches_keyed :
    Keyed (·.1.id) (semanticMatches index table queryVector passes) := by
  have hids : (semanticMatches index table queryVector passes).map (·.1.id)
      = ((semanticMatches index table queryVector passes).map (·.1)).map (·.id) := by
    rw [List.map_map]
    rfl
  rw [Keyed, hids, semanticMatches, semanticMatches_fst]
  exact table.keyed.sublist ((List.filter_sublist.trans List.filter_sublist).map _)

theorem key_inj {X κ : Type} {key : SearchedMemory × X → κ} {rows : List (SearchedMemory × X)}
    (hkeyed : Keyed (·.1.id) rows)
    (hrecency : ∀ a b, key a = key b → recency a.1 = recency b.1) :
    ∀ a ∈ rows, ∀ b ∈ rows, key a = key b → a = b :=
  fun _ ha _ hb hkey => hkeyed.inj ha hb (recency_inj (hrecency _ _ hkey))

theorem lexicalKey_recency (a b : SearchedMemory × S) (h : lexicalKey a = lexicalKey b) :
    recency a.1 = recency b.1 := congrArg (fun key => (ofLex key).2) h

theorem semanticKey_recency (a b : SearchedMemory × D) (h : semanticKey a = semanticKey b) :
    recency a.1 = recency b.1 := congrArg (fun key => (ofLex key).2) h

theorem contribution_window [Zero F] {X : Type} {row : Option (RankedMemory X)}
    {place : Option Nat} (h : row.map (·.rank) = place.filter (· ≤ limit)) :
    (row.map fun row => index.reciprocal (rrfK + row.rank)).getD 0
      = contribution index limit place := by
  rw [contribution, ← h, Option.map_map]
  rfl

variable [LinearOrder S]

/-- The rank the lexical window has for a memory is its place, where the window has it. -/
theorem lexical_window (hm : m ∈ table.rows) :
    (lookup (·.memory.id) m.id ((lexicalRows index table query passes).take limit)).map (·.rank)
      = (lexicalPlace index table query passes m).filter (· ≤ limit) := by
  have hrow := @lookup_window S _ _ lexicalKey (lexicalMatches index table query passes)
  ext rank
  rw [Option.map_eq_some_iff, Option.filter_eq_some_iff, decide_eq_true_eq, lexicalPlace]
  constructor
  · rintro ⟨row, hlookup, rfl⟩
    obtain ⟨hin, hid, hrank, hle⟩ := (hrow lexicalMatches_keyed
      (key_inj lexicalMatches_keyed lexicalKey_recency)).mp hlookup
    obtain ⟨hmem, hfound, hvalue⟩ := mem_lexicalMatches.mp hin
    rw [table.keyed.inj hmem hm hid] at hfound hvalue hrank
    rw [hvalue] at hrank
    rw [if_pos hfound, hrank]
    exact ⟨rfl, by omega⟩
  · intro ⟨hplace, hle⟩
    split at hplace
    · rename_i hfound
      have hin := mem_lexicalMatches.mpr ⟨hm, hfound, rfl⟩
      refine ⟨⟨m, rank, index.lexicalScore query m⟩, ?_, rfl⟩
      exact (hrow lexicalMatches_keyed (key_inj lexicalMatches_keyed lexicalKey_recency)).mpr
        ⟨hin, rfl, (Option.some.inj hplace).symm, hle⟩
    · cases hplace

omit [LinearOrder S] in
theorem semantic_window [LinearOrder D] (hm : m ∈ table.rows) :
    (lookup (·.memory.id) m.id
        ((semanticRows index table queryVector passes).take limit)).map (·.rank)
      = (semanticPlace index table queryVector passes m).filter (· ≤ limit) := by
  have hrow := @lookup_window D _ _ semanticKey (semanticMatches index table queryVector passes)
  ext rank
  rw [Option.map_eq_some_iff, Option.filter_eq_some_iff, decide_eq_true_eq, semanticPlace]
  constructor
  · rintro ⟨row, hlookup, rfl⟩
    obtain ⟨hin, hid, hrank, hle⟩ := (hrow semanticMatches_keyed
      (key_inj semanticMatches_keyed semanticKey_recency)).mp hlookup
    obtain ⟨hmem, hpasses, hdistance⟩ := mem_semanticMatches.mp hin
    rw [table.keyed.inj hmem hm hid] at hpasses hdistance hrank
    rw [if_pos hpasses, hdistance, hrank]
    exact ⟨rfl, by omega⟩
  · intro ⟨hplace, hle⟩
    split at hplace
    · rename_i hpasses
      obtain ⟨distance, hdistance, hrank⟩ := Option.map_eq_some_iff.mp hplace
      have hin := mem_semanticMatches.mpr ⟨hm, hpasses, hdistance⟩
      refine ⟨⟨m, rank, distance⟩, ?_, rfl⟩
      exact (hrow semanticMatches_keyed (key_inj semanticMatches_keyed semanticKey_recency)).mpr
        ⟨hin, rfl, hrank.symm, hle⟩
    · cases hplace

end

/-! ## The fused order -/

section

variable {V S D F : Type} [LinearOrder S] [LinearOrder D]
  (index : Index V S D F) (table : MemoryTable) (query : String) (queryVector : V)
  (passes : SearchedMemory → Bool) (limit : Nat)

/-- The identifiers both windows give. -/
def candidateIds : List Uuid :=
  (((lexicalRows index table query passes).take limit).map (·.memory.id) ++
    ((semanticRows index table queryVector passes).take limit).map (·.memory.id)).dedup

/-- The rows that are put in the final order. -/
def fusedRows [Add F] [Zero F] : List (SearchedMemory × FusedCandidate S D F) :=
  (fusedCandidates index table query queryVector passes limit).filterMap fun row =>
    (lookup (·.id) row.memoryId table.rows).map fun m => (m, row)

/-- The memories in the order that the pages of one window are stretches of. -/
def fusedOrder [LinearOrder F] [Add F] [Zero F] : List SearchedMemory :=
  (finalRanked index table query queryVector passes limit).map (·.1)

variable {index table query queryVector passes limit} {m : SearchedMemory}

theorem mem_candidateIds (hm : m ∈ table.rows) :
    m.id ∈ candidateIds index table query queryVector passes limit ↔
      isCandidate index table query queryVector passes limit m = true := by
  have hlexical := congrArg Option.isSome
    (@lexical_window V S D F index table query passes limit m _ hm)
  have hsemantic := congrArg Option.isSome
    (@semantic_window V S D F index table queryVector passes limit m _ hm)
  rw [Option.isSome_map] at hlexical hsemantic
  rw [candidateIds, List.mem_dedup, List.mem_append, ← lookup_isSome, ← lookup_isSome, hlexical,
    hsemantic, isCandidate, Bool.or_eq_true]

theorem candidates_nodup :
    (candidates index table query queryVector passes limit).Nodup :=
  (List.Nodup.of_map _ table.keyed).filter _

variable [Add F] [Zero F]

theorem fusedRows_fst :
    (fusedRows index table query queryVector passes limit).map (·.1) =
      (candidateIds index table query queryVector passes limit).filterMap fun id =>
        lookup (·.id) id table.rows := by
  rw [fusedRows, fusedCandidates, List.filterMap_map, List.map_filterMap]
  refine List.filterMap_congr fun id _ => ?_
  rw [Function.comp_apply, Option.map_map]
  exact Option.map_id'

/-- The candidates with a memory are those that a channel ranks within the window. -/
theorem fusedRows_perm :
    ((fusedRows index table query queryVector passes limit).map (·.1)).Perm
      (candidates index table query queryVector passes limit) := by
  have hnodup : ((fusedRows index table query queryVector passes limit).map (·.1)).Nodup := by
    rw [fusedRows_fst]
    refine List.Nodup.filterMap (fun a b m ha hb => ?_) (List.nodup_dedup _)
    rw [← (lookup_mem ha).2, (lookup_mem hb).2]
  refine (List.perm_ext_iff_of_nodup hnodup candidates_nodup).mpr fun m => ?_
  rw [fusedRows_fst, List.mem_filterMap, candidates, List.mem_filter]
  constructor
  · rintro ⟨id, hid, hlookup⟩
    obtain ⟨hm, rfl⟩ := lookup_mem hlookup
    exact ⟨hm, (mem_candidateIds hm).mp hid⟩
  · intro ⟨hm, hcandidate⟩
    exact ⟨m.id, (mem_candidateIds hm).mpr hcandidate, table.keyed.lookup hm⟩

theorem fusedRows_nodup :
    ((fusedRows index table query queryVector passes limit).map (·.1)).Nodup :=
  fusedRows_perm.nodup_iff.mpr candidates_nodup

/-- A row is put in its place by the score its ranks within the window add up to. -/
theorem finalKey_eq {row : SearchedMemory × FusedCandidate S D F}
    (h : row ∈ fusedRows index table query queryVector passes limit) :
    finalKey row = keyWithin index table query queryVector passes limit row.1 := by
  obtain ⟨candidate, hcandidate, hrow⟩ := List.mem_filterMap.mp h
  obtain ⟨m, hlookup, rfl⟩ := Option.map_eq_some_iff.mp hrow
  obtain ⟨id, -, rfl⟩ := List.mem_map.mp hcandidate
  obtain ⟨hm, rfl⟩ := lookup_mem hlookup
  rw [finalKey, keyWithin, scoreWithin, ← contribution_window (lexical_window hm),
    ← contribution_window (semantic_window hm)]
  rfl

theorem fusedRows_key : ∀ a ∈ (fusedRows index table query queryVector passes limit).map (·.1),
    ∀ b ∈ (fusedRows index table query queryVector passes limit).map (·.1),
      keyWithin index table query queryVector passes limit a =
        keyWithin index table query queryVector passes limit b → a = b := by
  intro a ha b hb hkey
  have hin : ∀ m ∈ (fusedRows index table query queryVector passes limit).map (·.1),
      m ∈ table.rows := fun m hm => (List.mem_filter.mp (fusedRows_perm.mem_iff.mp hm)).1
  have hrecency : recency a = recency b := congrArg (fun key => (ofLex key).2) hkey
  exact table.keyed.inj (hin a ha) (hin b hb) (recency_inj hrecency)

variable [LinearOrder F]

theorem fusedOrder_eq :
    fusedOrder index table query queryVector passes limit =
      newestFirst (keyWithin index table query queryVector passes limit)
        ((fusedRows index table query queryVector passes limit).map (·.1)) := by
  refine List.map_insertionSort _ _ _ _ fun a ha b hb => ?_
  rw [finalKey_eq ha, finalKey_eq hb]

theorem fusedOrder_nodup : (fusedOrder index table query queryVector passes limit).Nodup := by
  rw [fusedOrder_eq]
  exact (List.perm_insertionSort _ _).nodup_iff.mpr fusedRows_nodup

theorem length_fusedOrder : (fusedOrder index table query queryVector passes limit).length
    = (candidates index table query queryVector passes limit).length := by
  rw [fusedOrder_eq, ← fusedRows_perm.length_eq]
  exact List.length_insertionSort _ _

/-- What comes first in the fused order is told by the ranks alone. -/
theorem mem_take_fusedOrder {count : Nat} :
    m ∈ (fusedOrder index table query queryVector passes limit).take count ↔
      ComesFirst index table query queryVector passes limit count m := by
  rw [fusedOrder_eq, mem_take_newestFirst fusedRows_nodup fusedRows_key,
    ahead_perm fusedRows_perm, fusedRows_perm.mem_iff, ComesFirst]

end

/-! ## The walk -/

section

variable {V S D F : Type} [LinearOrder S] [LinearOrder D] [LinearOrder F] [Add F] [Zero F]
  (index : Index V S D F) (table : MemoryTable) (query : String) (queryVector : V)
  (passes : SearchedMemory → Bool) (k : Nat)

/-- The order that the `n`-th page of `k` memories is a stretch of. -/
def orderOf (n : Nat) : List SearchedMemory :=
  fusedOrder index table query queryVector passes (hybridCandidateLimit k (n * k))

/-- A walk through explained pages: it is stable, its ranks go on from page to page, and
each stands for one memory. -/
structure StableRanks (pages : Nat → List (ExplainedResult S D F)) : Prop where
  walk : StableWalk (fun n => (pages n).map (·.memory))
    (orderOf index table query queryVector passes k)
  ranks : ∀ n i row, (pages n)[i]? = some row → row.rank = n * k + i + 1
  consistent : ∀ n n', ∀ a ∈ pages n, ∀ b ∈ pages n', a.memory = b.memory ↔ a.rank = b.rank

variable {index table query queryVector passes k} {n : Nat}

/-- The first memories are the same exactly where the windows agree. -/
theorem sameFirst_iff : SameFirst (orderOf index table query queryVector passes k) k ↔
    WindowsAgree index table query queryVector passes k := by
  constructor
  · intro h n hlength m
    by_cases hk : k = 0
    · subst hk
      simp [ComesFirst]
    · have hpage : pageOf (orderOf index table query queryVector passes k) k (n + 1) ≠ [] := by
        refine List.ne_nil_of_length_pos ?_
        rw [pageOf, List.length_take, List.length_drop, orderOf, length_fusedOrder]
        omega
      rw [← mem_take_fusedOrder, ← mem_take_fusedOrder]
      exact (h n hpage).mem_iff
  · intro h n hpage
    obtain ⟨hlength, -⟩ := offset_lt_length hpage
    rw [orderOf, length_fusedOrder] at hlength
    refine (List.perm_ext_iff_of_nodup (fusedOrder_nodup.sublist (List.take_sublist _ _))
      (fusedOrder_nodup.sublist (List.take_sublist _ _))).mpr fun m => ?_
    rw [mem_take_fusedOrder, mem_take_fusedOrder]
    exact h n hlength m

theorem stableWalk_iff :
    StableWalk (pageOf (orderOf index table query queryVector passes k) k)
      (orderOf index table query queryVector passes k) ↔
        WindowsAgree index table query queryVector passes k :=
  (stable_iff fun _ => fusedOrder_nodup).trans sameFirst_iff

theorem hybrid_page (filters : StructuredFilters) :
    searchMemoriesHybrid index table query queryVector filters k (n * k) =
      pageOf (orderOf index table query queryVector filters.passes k) k n := by
  rw [searchMemoriesHybrid, pageOf, orderOf, fusedOrder, List.map_take, List.map_drop]

/-- The pages of an explained search. -/
def explainedPage (index : Index V S D F) (table : MemoryTable) (query : String) (queryVector : V)
    (passes : SearchedMemory → Bool) (k n : Nat) : List (RankedMemory (FusedCandidate S D F)) :=
  ((numbered (finalRanked index table query queryVector passes
    (hybridCandidateLimit k (n * k)))).drop (n * k)).take k

theorem explainedPage_memory :
    (explainedPage index table query queryVector passes k n).map (·.memory) =
      pageOf (orderOf index table query queryVector passes k) k n := by
  rw [explainedPage, pageOf, orderOf, fusedOrder, List.map_take, List.map_drop, numbered_memory]

theorem explainedPage_rank {i : Nat} {row : RankedMemory (FusedCandidate S D F)}
    (h : (explainedPage index table query queryVector passes k n)[i]? = some row) :
    i < k ∧ row.rank = n * k + i + 1 := by
  rw [explainedPage, List.getElem?_take] at h
  split at h
  · rw [List.getElem?_drop, getElem?_numbered, Option.map_eq_some_iff] at h
    obtain ⟨pair, -, rfl⟩ := h
    exact ⟨by assumption, by dsimp only; omega⟩
  · cases h

/-- Where the walk is stable, a rank stands for one memory and a memory has one rank. -/
theorem ranks_consistent {n' : Nat} {a b : RankedMemory (FusedCandidate S D F)}
    (h : StableWalk (pageOf (orderOf index table query queryVector passes k) k)
      (orderOf index table query queryVector passes k))
    (ha : a ∈ explainedPage index table query queryVector passes k n)
    (hb : b ∈ explainedPage index table query queryVector passes k n') :
    a.memory = b.memory ↔ a.rank = b.rank := by
  obtain ⟨i, hi⟩ := List.getElem?_of_mem ha
  obtain ⟨j, hj⟩ := List.getElem?_of_mem hb
  obtain ⟨hik, hrank⟩ := explainedPage_rank hi
  obtain ⟨hjk, hrank'⟩ := explainedPage_rank hj
  have hmem : a.memory ∈ pageOf (orderOf index table query queryVector passes k) k n := by
    rw [← explainedPage_memory]
    exact List.mem_map_of_mem ha
  have hmem' : b.memory ∈ pageOf (orderOf index table query queryVector passes k) k n' := by
    rw [← explainedPage_memory]
    exact List.mem_map_of_mem hb
  constructor
  · intro heq
    rw [heq] at hmem
    have hpage : n = n' := by
      rcases Nat.lt_trichotomy n n' with hlt | rfl | hlt
      · exact ((h.distinct n').2 n hlt hmem hmem').elim
      · rfl
      · exact ((h.distinct n).2 n' hlt hmem' hmem).elim
    subst hpage
    have hnodup := (h.distinct n).1
    rw [← explainedPage_memory] at hnodup
    have hlt : i < ((explainedPage index table query queryVector passes k n).map
        (·.memory)).length := by
      rw [List.length_map]
      exact (List.getElem?_eq_some_iff.mp hi).1
    have hplace : i = j := by
      refine (List.getElem?_inj hlt hnodup).mp ?_
      rw [List.getElem?_map, List.getElem?_map, hi, hj, Option.map_some, Option.map_some, heq]
    omega
  · intro heq
    have hpage : n = n' := by
      rcases Nat.lt_trichotomy n n' with hlt | rfl | hlt
      · have := Nat.mul_le_mul_right k hlt
        rw [Nat.succ_mul] at this
        omega
      · rfl
      · have := Nat.mul_le_mul_right k hlt
        rw [Nat.succ_mul] at this
        omega
    subst hpage
    obtain rfl : i = j := by omega
    rw [hi] at hj
    exact congrArg (·.memory) (Option.some.inj hj)

/-- The row that is shown of a memory in the final order. -/
def explain (row : RankedMemory (FusedCandidate S D F)) : ExplainedResult S D F where
  rank := row.rank
  memory := row.memory
  lexicalRank := row.value.lexicalRank
  semanticRank := row.value.semanticRank
  lexicalScore := row.value.lexicalScore
  semanticDistance := row.value.semanticDistance
  lexicalContribution := row.value.lexicalContribution
  semanticContribution := row.value.semanticContribution
  fusedScore := some row.value.fusedScore

theorem explained_page (filters : StructuredFilters) (unassignedOnly : Bool) :
    searchMemoriesExplained index table query .hybrid (some queryVector) filters unassignedOnly k
        (n * k) =
      .ok ((explainedPage index table query queryVector
        (filters.passesUnassigned unassignedOnly) k n).map explain) := rfl

theorem stableRanks_iff :
    StableRanks index table query queryVector passes k
        (fun n => (explainedPage index table query queryVector passes k n).map explain) ↔
      WindowsAgree index table query queryVector passes k := by
  have hmemory : (fun n => ((explainedPage index table query queryVector passes k n).map
      explain).map (·.memory)) = pageOf (orderOf index table query queryVector passes k) k := by
    funext n
    rw [List.map_map, ← explainedPage_memory]
    rfl
  rw [← stableWalk_iff]
  constructor
  · intro h
    rw [← hmemory]
    exact h.walk
  · intro h
    refine ⟨hmemory ▸ h, fun n i row hrow => ?_, fun n n' a ha b hb => ?_⟩
    · rw [List.getElem?_map, Option.map_eq_some_iff] at hrow
      obtain ⟨shown, hshown, rfl⟩ := hrow
      exact (explainedPage_rank hshown).2
    · obtain ⟨shown, hshown, rfl⟩ := List.mem_map.mp ha
      obtain ⟨other, hother, rfl⟩ := List.mem_map.mp hb
      exact ranks_consistent h hshown hother

/-- A walk through the pages of a hybrid search, and of an explained one, is stable exactly
where from each window to the next the same memories come first. -/
theorem hybrid_stable_iff (index : Index V S D F) (table : MemoryTable) (query : String)
    (queryVector : V) (filters : StructuredFilters) (unassignedOnly : Bool) (k : Nat) :
    (StableWalk
        (fun n => searchMemoriesHybrid index table query queryVector filters k (n * k))
        (orderOf index table query queryVector filters.passes k) ↔
      WindowsAgree index table query queryVector filters.passes k) ∧
    ∃ pages : Nat → List (ExplainedResult S D F),
      (∀ n, searchMemoriesExplained index table query .hybrid (some queryVector) filters
        unassignedOnly k (n * k) = .ok (pages n)) ∧
      (StableRanks index table query queryVector (filters.passesUnassigned unassignedOnly) k
          pages ↔
        WindowsAgree index table query queryVector (filters.passesUnassigned unassignedOnly)
          k) := by
  constructor
  · have hpages : (fun n => searchMemoriesHybrid index table query queryVector filters k (n * k))
        = pageOf (orderOf index table query queryVector filters.passes k) k :=
      funext fun _ => hybrid_page filters
    rw [hpages]
    exact stableWalk_iff
  · refine ⟨fun n => (explainedPage index table query queryVector
      (filters.passesUnassigned unassignedOnly) k n).map explain, fun n => ?_, stableRanks_iff⟩
    exact explained_page filters unassignedOnly

end

/-! ## A walk that shows a memory twice -/

section

/-- The `i`-th of the sample's memories. -/
def crowdedMemory (i : Nat) : SearchedMemory where
  id := BitVec.ofNat 128 i
  projectId := none
  content := "a note on tea"
  source := none
  title := none
  summary := none
  memoryType := .semantic
  importance := ⟨5, 1, Score.half_le, Score.half_shortest⟩
  confidence := ⟨10, 1, Score.whole_le, Score.whole_shortest⟩
  status := .active
  eventTime := none
  expiresAt := none
  supersedesId := none
  createdAt := 0

theorem crowded_keyed : Keyed (·.id) ((List.range 125).map crowdedMemory) := by
  rw [Keyed, List.map_map]
  refine List.Nodup.map_on (fun i hi j hj hid => ?_) List.nodup_range
  have hnat : (BitVec.ofNat 128 i).toNat = (BitVec.ofNat 128 j).toNat :=
    congrArg BitVec.toNat hid
  rw [BitVec.toNat_ofNat, BitVec.toNat_ofNat] at hnat
  rw [List.mem_range] at hi hj
  omega

def crowdedTable : MemoryTable where
  rows := (List.range 125).map crowdedMemory
  keyed := crowded_keyed

/-- The words are found in the first hundred and one memories, less and less well; the
last twenty-five have embeddings, and one memory is the last of both. -/
def crowdedIndex : Index Unit Nat Nat ℚ where
  isMatch _ m := m.id.toNat ≤ 100
  lexicalScore _ m := 1000 - m.id.toNat
  distance _ m :=
    if m.id.toNat < 100 then none
    else if m.id.toNat = 100 then some 25 else some (m.id.toNat - 100)
  reciprocal n := 1 / n

theorem crowded_first_page :
    (searchMemoriesHybrid crowdedIndex crowdedTable "tea" () {} 20 (0 * 20))[19]? =
      some (crowdedMemory 110) := by decide +kernel

theorem crowded_second_page :
    (searchMemoriesHybrid crowdedIndex crowdedTable "tea" () {} 20 (1 * 20))[0]? =
      some (crowdedMemory 110) := by decide +kernel

/-- The window of the second page has the hundred and first rank, which puts the memory that
is last in both channels first: the last memory of the first page is shown again, and that
one is left out. -/
theorem crowded_walk_repeats :
    ¬ StableWalk (fun n => searchMemoriesHybrid crowdedIndex crowdedTable "tea" () {} 20 (n * 20))
      (orderOf crowdedIndex crowdedTable "tea" () (StructuredFilters.passes {}) 20) := by
  intro h
  exact (h.distinct 1).2 0 Nat.one_pos (List.mem_of_getElem? crowded_first_page)
    (List.mem_of_getElem? crowded_second_page)

end

end SecondBrain.Memories
