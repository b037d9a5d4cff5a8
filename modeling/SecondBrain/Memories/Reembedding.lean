import SecondBrain.Memories.Embeddings

/-!
# Batches of stale embeddings

The text the database hashes is the text the program hashes, so a row is selected as stale
exactly where the program would not find its identity (`stale_iff`), and a row that was written
is not selected again. As long as the memories stay what they are, the batches therefore work
through the stale rows in their order, a limit at a time, and one that is not answered changes
nothing (`reembedding_converges`).
-/

namespace SecondBrain

open Lib

namespace Memories

open Knowledge (MemoryStatus normalizePlainText joinLineEnds)

/-! ## The two texts -/

theorem replaceFrom_crlf (l : List Char) :
    replaceFrom ['\r', '\n'] ['\n'] 0 l = joinLineEnds l := by
  fun_induction joinLineEnds l with
  | case1 rest ih =>
      rw [← ih]
      rfl
  | case2 c rest hne ih =>
      rw [← ih, replaceFrom, if_neg]
      intro hbegins
      obtain ⟨rest', hrest⟩ := List.isPrefixOf_iff_prefix.mp hbegins
      cases hrest
      exact hne rest' rfl rfl
  | case3 => rfl

theorem replaceFrom_cr (l : List Char) :
    replaceFrom ['\r'] ['\n'] 0 l = l.map fun c => if c = '\r' then '\n' else c := by
  induction l with
  | nil => rfl
  | cons c rest ih =>
      rw [replaceFrom, List.map_cons, ← ih]
      by_cases hc : c = '\r'
      · simp [hc]
      · have hc' : ¬ '\r' = c := fun h => hc h.symm
        simp [hc, hc']

theorem normalizedSql_eq (column : Option String) :
    normalizedSql column = some (normalizePlainText (column.getD "")) := by
  simp only [normalizedSql, coalesceSql, replaceSql, Option.map_some, String.toList_ofList]
  rw [show "\r\n".toList = ['\r', '\n'] from rfl, show "\n".toList = ['\n'] from rfl,
    show "\r".toList = ['\r'] from rfl, replaceFrom_crlf, replaceFrom_cr, normalizePlainText]

theorem canonicalMemoryTextSql_eq (m : SearchedMemory) :
    canonicalMemoryTextSql m = some (canonicalMemoryText m) := by
  simp only [canonicalMemoryTextSql, normalizedSql_eq, concatSql, canonicalMemoryText]
  simp [String.join, String.append_assoc]

section

variable {F : Type} {sha256 : Sha256} {identity : EmbeddingIdentity}

/-- The database and the program agree on what is stale. -/
theorem stale_iff (m : SearchedMemory) (e : MemoryEmbedding F) :
    staleEmbeddingPredicate sha256 identity m e = some true ↔
      e.currentIdentity ≠ expectedIdentity sha256 identity m := by
  simp only [staleEmbeddingPredicate, currentHashSql, canonicalMemoryTextSql_eq, Option.map_some,
    differSql_some, orSql_some, MemoryEmbedding.currentIdentity, expectedIdentity,
    canonicalInputHash]
  simp only [Option.some.injEq, Bool.or_eq_true, decide_eq_true_eq, ne_eq, Prod.mk.injEq,
    EmbeddingIdentity.ext_iff]
  tauto

/-! ## What is pending -/

/-- A memory whose embedding a request for stale ones has to replace. -/
structure StaleIn (sha256 : Sha256) (identity : EmbeddingIdentity) (scope : EmbeddingScope)
    (t : EmbeddingTables F) (m : SearchedMemory) : Prop where
  stored : m ∈ t.memories.rows
  active : m.status = .active
  inScope : scope.passes m = true
  stale : ∃ e, t.embeddingOf m.id = some e ∧
    e.currentIdentity ≠ expectedIdentity sha256 identity m

/-- All that a request could select, in the order in which it is selected. -/
def pending (sha256 : Sha256) (identity : EmbeddingIdentity)
    (request : MemoryEmbeddingReembedRequest) (t : EmbeddingTables F) : List SearchedMemory :=
  newestFirst creationKey (t.memories.rows.filter fun m =>
    (t.embeddingOf m.id).any (selects sha256 identity request m))

variable {request : MemoryEmbeddingReembedRequest} {t t' : EmbeddingTables F}

theorem candidates_eq : selectReembeddingCandidates sha256 identity t request =
    (pending sha256 identity request t).take request.limit := rfl

theorem mem_pending (hstale : request.selection = .stale) {m : SearchedMemory} :
    m ∈ pending sha256 identity request t ↔ StaleIn sha256 identity request.scope t m := by
  rw [pending, mem_newestFirst, List.mem_filter, Option.any_eq_true]
  simp only [selects, hstale, Bool.and_eq_true, decide_eq_true_eq, stale_iff]
  constructor
  · rintro ⟨hmem, e, he, ⟨hactive, hscope⟩, hstale⟩
    exact ⟨hmem, hactive, hscope, e, he, hstale⟩
  · rintro ⟨hmem, hactive, hscope, e, he, hstale⟩
    exact ⟨hmem, e, he, ⟨hactive, hscope⟩, hstale⟩

theorem rows_nodup (t : EmbeddingTables F) : t.memories.rows.Nodup :=
  List.Nodup.of_map _ t.memories.keyed

theorem creationKey_inj (t : EmbeddingTables F) :
    ∀ a ∈ t.memories.rows, ∀ b ∈ t.memories.rows, creationKey a = creationKey b → a = b := by
  intro a ha b hb h
  have hid : a.id.toNat = b.id.toNat := congrArg (fun key => (ofLex (OrderDual.ofDual key)).2) h
  exact t.memories.keyed.inj ha hb (BitVec.eq_of_toNat_eq hid)

theorem pending_eq_filter : pending sha256 identity request t =
    (newestFirst creationKey t.memories.rows).filter fun m =>
      (t.embeddingOf m.id).any (selects sha256 identity request m) :=
  newestFirst_filter _ (rows_nodup t) (creationKey_inj t)

theorem sorted_nodup (t : EmbeddingTables F) : (newestFirst creationKey t.memories.rows).Nodup :=
  (List.perm_insertionSort _ _).nodup_iff.mpr (rows_nodup t)

theorem pending_nodup : (pending sha256 identity request t).Nodup := by
  rw [pending_eq_filter]
  exact (sorted_nodup t).filter _

/-- What is left of a list without its first elements. -/
theorem filter_not_mem_take {A : Type} [DecidableEq A] {l : List A} (hnodup : l.Nodup) (n : Nat) :
    l.filter (fun a => decide (a ∉ l.take n)) = l.drop n := by
  have hsplit := List.take_append_drop n l
  have hapart := (List.nodup_append'.mp (hsplit.symm ▸ hnodup)).2.2
  have hbefore : (l.take n).filter (fun a => decide (a ∉ l.take n)) = [] := by
    rw [List.filter_eq_nil_iff]
    intro a ha
    simpa using ha
  have hafter : (l.drop n).filter (fun a => decide (a ∉ l.take n)) = l.drop n := by
    rw [List.filter_eq_self]
    intro a ha
    exact decide_eq_true fun htake => hapart htake ha
  calc l.filter (fun a => decide (a ∉ l.take n))
      = (l.take n ++ l.drop n).filter (fun a => decide (a ∉ l.take n)) := by rw [hsplit]
    _ = l.drop n := by rw [List.filter_append, hbefore, hafter, List.nil_append]

/-! ## One batch -/

variable {settings : EmbeddingSettings} {floats : Floats F} {now writtenAt : Instant}

/-- A stripped text does not end in a blank. -/
theorem last_of_stripped {s : String} (hstrip : Calendar.strip s = s) {c : Char}
    (hlast : s.toList.getLast? = some c) : Calendar.isSpace c = false := by
  have hlist : s.toList.reverse =
      (s.toList.dropWhile Calendar.isSpace).reverse.dropWhile Calendar.isSpace := by
    have hstrip := congrArg String.toList hstrip
    rw [Calendar.strip, String.toList_ofList] at hstrip
    rw [← List.reverse_reverse (List.dropWhile _ _), hstrip]
  have hhead := List.head?_dropWhile_not Calendar.isSpace
    (s.toList.dropWhile Calendar.isSpace).reverse
  rw [← hlist, List.head?_reverse, hlast] at hhead
  simpa using hhead

/-- A name that ends in no blank is stored as it is, or not at all. -/
theorem storedText_stripped {length : Nat} {s stored : String} (hstrip : Calendar.strip s = s)
    (h : storedText length s = some stored) : stored = s := by
  rw [storedText] at h
  split at h
  · cases h
  split at h
  · exact (Option.some.inj h).symm
  split at h
  · next hlong hblank =>
      have hne : s.toList.drop length ≠ [] := by
        rwa [Ne, List.drop_eq_nil_iff, String.length_toList]
      obtain ⟨c, hlast⟩ := Option.ne_none_iff_exists'.mp (mt List.getLast?_eq_none_iff.mp hne)
      have hc : c = ' ' := by simpa using List.all_eq_true.mp hblank c (List.mem_of_getLast? hlast)
      have hall : s.toList.getLast? = some c := by
        rw [← List.take_append_drop length s.toList, List.getLast?_append, hlast]
        rfl
      have hspace := last_of_stripped hstrip hall
      rw [hc] at hspace
      cases hspace
  · cases h

theorem writtenRow_spec {row : MemoryEmbedding F} {vector : List F} {hash : String} :
    Ensures (writtenRow floats row settings.identity vector hash now writtenAt) fun written =>
      written.currentIdentity = (settings.identity, hash) ∧ written.memoryId = row.memoryId := by
  intro written h
  rw [writtenRow] at h
  split at h
  · next provider model single hprovider hmodel hsingle =>
      split at h
      · cases h
        have hopenai : storedText 50 "openai" = some "openai" := by decide
        have hprovider := Option.some.inj (hopenai.symm.trans hprovider)
        have hmodel := storedText_stripped settings.stripped hmodel
        rw [MemoryEmbedding.currentIdentity, ← hprovider, hmodel]
        exact ⟨rfl, rfl⟩
      · cases h
  · cases h

/-- What is expected of an embedding after the batch that replaced it. -/
def Renewed (sha256 : Sha256) (identity : EmbeddingIdentity) (t : EmbeddingTables F)
    (m : SearchedMemory) : Prop :=
  ∃ e, t.embeddingOf m.id = some e ∧ e.currentIdentity = expectedIdentity sha256 identity m

theorem embeddingOf_write {row : MemoryEmbedding F} {memoryId : Uuid}
    (h : (t.embeddingOf row.memoryId).isSome = true) :
    (t.write row).embeddingOf memoryId =
      if memoryId = row.memoryId then some row else t.embeddingOf memoryId := by
  split
  · next hid =>
      rw [hid]
      exact lookup_replace_self (lookup_isSome.mp h)
  · next hid => exact lookup_replace_ne hid

/-- What is held of a stale memory between its selection and its row. -/
structure ProducedOf (sha256 : Sha256) (m : SearchedMemory) (produced : Produced F) : Prop where
  memoryId : produced.memoryId = m.id
  hash : produced.hash = canonicalInputHash sha256 (canonicalMemoryText m)

theorem length_mapM {α β ε : Type} {f : α → Except ε β} {as : List α} :
    Ensures (as.mapM f) fun bs => bs.length = as.length := by
  induction as with
  | nil => exact Ensures.pure_iff.mpr rfl
  | cons a rest ih =>
      rw [List.mapM_cons]
      refine Ensures.bind_any fun b _ => ih.bind fun bs hbs => Ensures.pure_iff.mpr ?_
      rw [List.length_cons, List.length_cons, hbs]

theorem length_embedTexts {provider : EmbeddingProvider F} {texts : List String} :
    Ensures (embedTexts floats provider texts) fun vectors => vectors.length = texts.length := by
  refine Ensures.bind_any fun answer _ => ?_
  cases answer with
  | list vectors =>
      refine Ensures.ite (fun hlength => ?_) fun _ => Ensures.error _
      exact length_mapM.mono fun bs hbs => hbs.trans hlength
  | number | other => exact Ensures.error _

variable (sha256) in
theorem producedOf_spec {ms : List SearchedMemory} {vectors : List (List F)}
    (hlength : vectors.length = ms.length)
    (hpresent : ∀ m ∈ ms, (t.embeddingOf m.id).isSome = true) :
    List.Forall₂ (ProducedOf sha256) ms (producedOf sha256 t ms vectors) := by
  induction ms generalizing vectors with
  | nil => exact .nil
  | cons m rest ih =>
      cases vectors with
      | nil => cases hlength
      | cons vector vectors =>
          obtain ⟨hm, hrest⟩ := List.forall_mem_cons.mp hpresent
          obtain ⟨row, hrow⟩ := Option.isSome_iff_exists.mp hm
          simp only [producedOf, List.zip_cons_cons, List.filterMap_cons, hrow, Option.map_some]
          exact .cons ⟨rfl, rfl⟩ (ih (Nat.succ.inj hlength) hrest)

variable (sha256 identity t) in
theorem candidates_stale (hselection : request.selection = .stale) :
    ∀ m ∈ (pending sha256 identity request t).take request.limit,
      StaleIn sha256 identity request.scope t m :=
  fun _ hm => (mem_pending hselection).mp (List.mem_of_mem_take hm)

variable (sha256 identity t) in
theorem candidates_ids (hselection : request.selection = .stale) :
    (((pending sha256 identity request t).take request.limit).map (·.id)).Nodup := by
  refine (pending_nodup.sublist (List.take_sublist _ _)).map_on ?_
  intro a ha b hb h
  exact t.memories.keyed.inj (candidates_stale sha256 identity t hselection a ha).stored
    (candidates_stale sha256 identity t hselection b hb).stored h

theorem StaleIn.present {m : SearchedMemory} {scope : EmbeddingScope}
    (h : StaleIn sha256 identity scope t m) : (t.embeddingOf m.id).isSome = true := by
  obtain ⟨e, he, -⟩ := h.stale
  rw [he]
  rfl

/-- The memories whose embeddings a batch has updated. -/
def updatedIds (items : List ReembeddingItem) : List Uuid :=
  (items.filter (·.status = .updated)).map (·.memoryId)

/-- A batch has updated the embeddings of some memories, and nothing else. -/
structure Replaced (sha256 : Sha256) (identity : EmbeddingIdentity) (t : EmbeddingTables F)
    (ms : List SearchedMemory) (items : List ReembeddingItem) (t' : EmbeddingTables F) : Prop where
  memories : t'.memories = t.memories
  updated : updatedIds items = ms.map (·.id)
  renewed : ∀ m ∈ ms, Renewed sha256 identity t' m
  kept : ∀ id ∉ ms.map (·.id), t'.embeddingOf id = t.embeddingOf id

/-- What is pending after a batch is what it did not reach. -/
theorem pending_replaced (hselection : request.selection = .stale) {items : List ReembeddingItem}
    (h : Replaced sha256 identity t ((pending sha256 identity request t).take request.limit) items
      t') :
    pending sha256 identity request t' = (pending sha256 identity request t).drop request.limit := by
  have hstays : ∀ m ∈ newestFirst creationKey t.memories.rows,
      (t'.embeddingOf m.id).any (selects sha256 identity request m) =
        (decide (m ∉ (pending sha256 identity request t).take request.limit) &&
          (t.embeddingOf m.id).any (selects sha256 identity request m)) := by
    intro m hm
    have hm : m ∈ t.memories.rows := mem_newestFirst.mp hm
    by_cases hreached : m ∈ (pending sha256 identity request t).take request.limit
    · obtain ⟨e, he, hidentity⟩ := h.renewed m hreached
      have hfresh : ¬ staleEmbeddingPredicate sha256 identity m e = some true :=
        fun hstale => stale_iff m e |>.mp hstale hidentity
      simp [he, selects, hselection, hfresh, hreached]
    · have hid : m.id ∉ ((pending sha256 identity request t).take request.limit).map (·.id) := by
        intro hmem
        obtain ⟨m', hm', heq⟩ := List.mem_map.mp hmem
        have hstale := candidates_stale sha256 identity t hselection m' hm'
        exact hreached (t.memories.keyed.inj hstale.stored hm heq ▸ hm')
      rw [h.kept m.id hid]
      simp [hreached]
  rw [pending_eq_filter, h.memories, List.filter_congr hstays, ← List.filter_filter,
    ← pending_eq_filter]
  exact filter_not_mem_take pending_nodup _

/-! ## A batch that is served -/

/-- A vector that can be validated and stored. -/
structure Storable (floats : Floats F) (vector : List F) : Prop where
  length : vector.length = 1536
  finite : ∀ x ∈ vector, floats.finite x = true
  single : ∀ x ∈ vector, (floats.single x).isSome = true

/-- The provider is there under the identity of the settings, whose model has a name of a length
that can be stored, and answers the texts of memories with vectors that can be stored. -/
structure Serves (floats : Floats F) (settings : EmbeddingSettings) (memories : MemoryTable)
    (round : Round F) : Prop where
  named : settings.embeddingModel.length ≤ 100 ∧ hasNul settings.embeddingModel = false
  answers : ∃ provider, round.provider = .ok provider ∧ provider.identity = settings.identity ∧
    ∀ ms : List SearchedMemory, (∀ m ∈ ms, m ∈ memories.rows) → ∃ vectors : List (List F),
      provider.embedMany (ms.map canonicalMemoryText) =
          .ok (.list (vectors.map fun vector => .list (vector.map .number))) ∧
        vectors.length = ms.length ∧ ∀ vector ∈ vectors, Storable floats vector

theorem validateEmbedding_ok {vector : List F} (h : Storable floats vector) :
    validateEmbedding floats (.list (vector.map .number)) 1536 = .ok vector := by
  have hall : ∀ xs : List F, (∀ x ∈ xs, floats.finite x = true) →
      (xs.map Answer.number).mapM (validateNumber floats) = .ok xs := by
    intro xs hfinite
    induction xs with
    | nil => rfl
    | cons x rest ih =>
        obtain ⟨hx, hrest⟩ := List.forall_mem_cons.mp hfinite
        rw [List.map_cons, List.mapM_cons, ih hrest, validateNumber, if_pos hx]
        rfl
  rw [validateEmbedding, List.length_map, if_pos h.length, hall vector h.finite]

variable (floats) in
theorem embedTexts_ok {provider : EmbeddingProvider F} {texts : List String}
    {vectors : List (List F)} (hdimensions : provider.dimensions = 1536)
    (hanswer : provider.embedMany texts =
      .ok (.list (vectors.map fun vector => .list (vector.map .number))))
    (hlength : vectors.length = texts.length)
    (hstorable : ∀ vector ∈ vectors, Storable floats vector) :
    embedTexts floats provider texts = .ok vectors := by
  have hall : ∀ vs : List (List F), (∀ v ∈ vs, Storable floats v) →
      (vs.map fun v => Answer.list (v.map .number)).mapM
        (fun vector => validateEmbedding floats vector 1536) = .ok vs := by
    intro vs hvs
    induction vs with
    | nil => rfl
    | cons v rest ih =>
        obtain ⟨hv, hrest⟩ := List.forall_mem_cons.mp hvs
        rw [List.map_cons, List.mapM_cons, ih hrest, validateEmbedding_ok hv]
        rfl
  rw [embedTexts, hanswer]
  show (if _ then _ else _) = _
  rw [List.length_map, if_pos hlength, hdimensions, hall vectors hstorable]

theorem writtenRow_ok (row : MemoryEmbedding F) (now writtenAt : Instant) {vector : List F}
    (hash : String)
    (hnamed : settings.embeddingModel.length ≤ 100 ∧ hasNul settings.embeddingModel = false)
    (hstorable : Storable floats vector) :
    ∃ written, writtenRow floats row settings.identity vector hash now writtenAt = .ok written := by
  have hopenai : storedText 50 "openai" = some "openai" := by decide
  have hmodel : storedText 100 settings.embeddingModel = some settings.embeddingModel := by
    simp [storedText, hnamed]
  have hsingle : ∀ xs : List F, (∀ x ∈ xs, (floats.single x).isSome = true) →
      ∃ single, xs.mapM floats.single = some single := by
    intro xs hxs
    induction xs with
    | nil => exact ⟨[], rfl⟩
    | cons x rest ih =>
        obtain ⟨hx, hrest⟩ := List.forall_mem_cons.mp hxs
        obtain ⟨y, hy⟩ := Option.isSome_iff_exists.mp hx
        obtain ⟨ys, hys⟩ := ih hrest
        exact ⟨y :: ys, by simp [List.mapM_cons, hy, hys]⟩
  obtain ⟨single, hsingle⟩ := hsingle vector hstorable.single
  rw [writtenRow]
  simp [EmbeddingSettings.identity, hopenai, hmodel, hsingle, hstorable.length]

/-! ## The rows of a batch -/

variable [DecidableEq F]

variable (t floats now writtenAt) in
/-- A stale row that is still what it was is written. -/
theorem reembedOne_stale {m : SearchedMemory} {produced : Produced F} {locked : EmbeddingTables F}
    (hm : StaleIn sha256 identity request.scope locked m)
    (hproduced : ProducedOf sha256 m produced) :
    ∃ row, locked.embeddingOf m.id = some row ∧
      reembedOne floats sha256 locked .stale identity now writtenAt t produced = (do
        let written ← writtenRow floats row identity produced.vector
          (canonicalInputHash sha256 (canonicalMemoryText m)) now writtenAt
        return (⟨m.id, .updated, row.metadata, some written.metadata, none⟩,
          t.write written)) := by
  obtain ⟨row, hrow, hstale⟩ := hm.stale
  refine ⟨row, hrow, ?_⟩
  have hmemory : lookup (·.id) m.id locked.memories.rows = some m :=
    locked.memories.keyed.lookup hm.stored
  have hhash : (expectedIdentity sha256 identity m).2 =
      canonicalInputHash sha256 (canonicalMemoryText m) := rfl
  rw [reembedOne, hproduced.memoryId, hmemory, hproduced.hash]
  simp [hrow, hm.active, hhash, hstale]

variable (request) in
theorem reembedAll_spec {locked : EmbeddingTables F} {ms : List SearchedMemory}
    {produced : List (Produced F)} (hall : List.Forall₂ (ProducedOf sha256) ms produced)
    (hstale : ∀ m ∈ ms, StaleIn sha256 settings.identity request.scope locked m)
    (hids : (ms.map (·.id)).Nodup) (hpresent : ∀ m ∈ ms, (t.embeddingOf m.id).isSome = true) :
    Ensures (reembedAll floats sha256 locked .stale settings.identity now writtenAt produced t)
      fun result => Replaced sha256 settings.identity t ms result.1 result.2 := by
  induction hall generalizing t with
  | nil => exact Ensures.ok_iff.mpr ⟨rfl, rfl, by simp, fun _ _ => rfl⟩
  | @cons m first ms rest hfirst hrest ih =>
      obtain ⟨hm, hms⟩ := List.forall_mem_cons.mp hstale
      obtain ⟨hfresh, hids⟩ := List.nodup_cons.mp hids
      obtain ⟨row, hrow, hone⟩ := reembedOne_stale t floats now writtenAt hm hfirst
      rw [reembedAll, hone]
      intro result h
      obtain ⟨⟨item, t₁⟩, hwrite, h⟩ := bind_ok h
      obtain ⟨written, hwritten, hwrite⟩ := bind_ok hwrite
      cases hwrite
      obtain ⟨⟨items, t'⟩, hrest, h⟩ := bind_ok h
      cases h
      obtain ⟨hidentity, hid⟩ := writtenRow_spec _ hwritten
      have hid : written.memoryId = m.id := hid.trans (lookup_mem hrow).2
      have hsome : (t.embeddingOf written.memoryId).isSome = true :=
        hid ▸ hpresent m List.mem_cons_self
      have hafter := ih hms hids (t := t.write written) (fun m' hm' => by
        rw [embeddingOf_write hsome]
        split
        · rfl
        · exact hpresent m' (List.mem_cons_of_mem _ hm')) _ hrest
      refine ⟨hafter.memories, ?_, ?_, ?_⟩
      · rw [List.map_cons, ← hafter.updated]
        rfl
      · refine List.forall_mem_cons.mpr ⟨⟨written, ?_, hidentity⟩, hafter.renewed⟩
        rw [hafter.kept m.id hfresh, embeddingOf_write hsome, if_pos hid.symm]
      · intro id hnot
        rw [List.map_cons, List.mem_cons, not_or] at hnot
        rw [hafter.kept id hnot.2, embeddingOf_write hsome, if_neg (hid ▸ hnot.1)]

/-- A batch that is answered replaces the first of what is pending. -/
theorem reembedBatch_spec (hselection : request.selection = .stale) {round : Round F} :
    Ensures (reembedBatch floats sha256 settings.identity request t t round) fun result =>
      Replaced sha256 settings.identity t
        ((pending sha256 settings.identity request t).take request.limit) result.1 result.2 := by
  have hstale := candidates_stale sha256 settings.identity t hselection
  have hids := candidates_ids sha256 settings.identity t hselection
  rw [reembedBatch, candidates_eq]
  split
  · next hnone =>
      rw [hnone]
      exact Ensures.ok_iff.mpr ⟨rfl, rfl, by simp, fun _ _ => rfl⟩
  · refine Ensures.bind_any fun provider _ => Ensures.bind_any fun _ hchecked => ?_
    refine length_embedTexts.bind fun vectors hvectors => ?_
    rw [checkIdentity] at hchecked
    split at hchecked
    · next hidentity =>
        rw [List.length_map] at hvectors
        rw [hselection, hidentity]
        have hpresent := fun m hm => (hstale m hm).present
        exact reembedAll_spec request (producedOf_spec sha256 hvectors hpresent) hstale hids hpresent
    · cases hchecked

variable (request t now writtenAt) in
theorem reembedAll_ok {locked : EmbeddingTables F} {ms : List SearchedMemory}
    {produced : List (Produced F)} (hall : List.Forall₂ (ProducedOf sha256) ms produced)
    (hstale : ∀ m ∈ ms, StaleIn sha256 settings.identity request.scope locked m)
    (hnamed : settings.embeddingModel.length ≤ 100 ∧ hasNul settings.embeddingModel = false)
    (hstorable : ∀ p ∈ produced, Storable floats p.vector) :
    ∃ result, reembedAll floats sha256 locked .stale settings.identity now writtenAt produced t =
      .ok result := by
  induction hall generalizing t with
  | nil => exact ⟨_, rfl⟩
  | @cons m first ms rest hfirst hrest ih =>
      obtain ⟨hm, hms⟩ := List.forall_mem_cons.mp hstale
      obtain ⟨hvector, hvectors⟩ := List.forall_mem_cons.mp hstorable
      obtain ⟨row, -, hone⟩ := reembedOne_stale t floats now writtenAt hm hfirst
      obtain ⟨written, hwritten⟩ := writtenRow_ok row now writtenAt
        (canonicalInputHash sha256 (canonicalMemoryText m)) hnamed hvector
      obtain ⟨result, hresult⟩ := ih hms hvectors (t := t.write written)
      rw [hwritten] at hone
      rw [reembedAll, hone]
      simp only [bind, Except.bind, pure, Except.pure, hresult]
      exact ⟨_, rfl⟩

variable (sha256) in
/-- A batch that is served is answered. -/
theorem reembedBatch_ok (hselection : request.selection = .stale) {round : Round F}
    (h : Serves floats settings t.memories round) :
    ∃ result, reembedBatch floats sha256 settings.identity request t t round = .ok result := by
  have hstale := candidates_stale sha256 settings.identity t hselection
  obtain ⟨provider, hprovider, hidentity, hanswers⟩ := h.answers
  obtain ⟨vectors, hanswer, hlength, hstorable⟩ := hanswers _ fun m hm => (hstale m hm).stored
  have hdimensions : provider.dimensions = 1536 := congrArg EmbeddingIdentity.dimensions hidentity
  have hvectors := embedTexts_ok floats hdimensions hanswer
    (hlength.trans (List.length_map _).symm) hstorable
  have hall := producedOf_spec sha256 hlength fun m hm => (hstale m hm).present
  obtain ⟨result, hresult⟩ := reembedAll_ok request t round.now round.writtenAt
    hall hstale h.named fun p hp => by
      obtain ⟨⟨m, vector⟩, hmem, hp⟩ := List.mem_filterMap.mp hp
      obtain ⟨row, -, rfl⟩ := Option.map_eq_some_iff.mp hp
      exact hstorable _ (List.of_mem_zip hmem).2
  rw [reembedBatch, candidates_eq]
  split
  · exact ⟨_, rfl⟩
  · refine ⟨result, ?_⟩
    simp only [reembedCandidates, hprovider, bind, Except.bind, checkIdentity, if_pos hidentity,
      hvectors]
    rw [hselection, hidentity, hresult]

/-! ## Batch after batch -/

/-- The tables after some batches, one that fails having been rolled back, and the memories
whose embeddings they updated. -/
def runBatches (floats : Floats F) (sha256 : Sha256) (identity : EmbeddingIdentity)
    (request : MemoryEmbeddingReembedRequest) :
    List (Round F) → EmbeddingTables F → EmbeddingTables F × List Uuid
  | [], t => (t, [])
  | round :: rest, t =>
      match reembedBatch floats sha256 identity request t t round with
      | .error _ => runBatches floats sha256 identity request rest t
      | .ok (items, t') =>
          let (after, ids) := runBatches floats sha256 identity request rest t'
          (after, updatedIds items ++ ids)

/-- What some batches leave: they have come as far as `reached` in what was pending. -/
structure Progressed (sha256 : Sha256) (identity : EmbeddingIdentity)
    (request : MemoryEmbeddingReembedRequest) (t : EmbeddingTables F) (reached : Nat)
    (after : EmbeddingTables F) (ids : List Uuid) : Prop where
  memories : after.memories = t.memories
  updated : ids = ((pending sha256 identity request t).take reached).map (·.id)
  left : pending sha256 identity request after =
    (pending sha256 identity request t).drop reached
  kept : ∀ id ∉ ids, after.embeddingOf id = t.embeddingOf id

variable (sha256 settings floats t) in
theorem runBatches_progressed (hselection : request.selection = .stale) (rounds : List (Round F)) :
    ∃ reached, Progressed sha256 settings.identity request t reached
        (runBatches floats sha256 settings.identity request rounds t).1
        (runBatches floats sha256 settings.identity request rounds t).2 ∧
      ∀ served : List (Round F), served.Sublist rounds →
        (∀ round ∈ served, Serves floats settings t.memories round) →
        served.length * request.limit ≤ reached := by
  induction rounds generalizing t with
  | nil =>
      refine ⟨0, ⟨rfl, by simp [runBatches], rfl, fun _ _ => rfl⟩, fun served hserved _ => ?_⟩
      rw [List.sublist_nil.mp hserved]
      simp
  | cons round rest ih =>
      rw [runBatches]
      cases hbatch : reembedBatch floats sha256 settings.identity request t t round with
      | error e =>
          obtain ⟨reached, hprogress, hserved⟩ := ih (t := t)
          refine ⟨reached, hprogress, fun served hsub hserves => ?_⟩
          rcases List.sublist_cons_iff.mp hsub with hrest | ⟨served', rfl, -⟩
          · exact hserved served hrest hserves
          · obtain ⟨result, hresult⟩ := reembedBatch_ok sha256 hselection
              (hserves round List.mem_cons_self)
            cases hbatch.symm.trans hresult
      | ok result =>
          obtain ⟨items, t'⟩ := result
          have hreplaced := reembedBatch_spec hselection _ hbatch
          have hleft := pending_replaced hselection hreplaced
          obtain ⟨reached, hprogress, hserved⟩ := ih (t := t')
          refine ⟨request.limit + reached, ⟨?_, ?_, ?_, ?_⟩, ?_⟩
          · exact hprogress.memories.trans hreplaced.memories
          · show updatedIds items ++ _ = _
            rw [hprogress.updated, hreplaced.updated, hleft, ← List.map_append,
              List.take_add]
          · rw [hprogress.left, hleft, List.drop_drop]
          · intro id hid
            rw [List.mem_append, not_or] at hid
            rw [hprogress.kept id hid.2, hreplaced.kept id (hreplaced.updated ▸ hid.1)]
          · intro served hsub hserves
            have hmemories : t'.memories = t.memories := hreplaced.memories
            rcases List.sublist_cons_iff.mp hsub with hrest | ⟨served', rfl, hrest⟩
            · have hle := hserved served hrest (hmemories ▸ hserves)
              omega
            · have hle := hserved served' hrest fun r hr =>
                hmemories ▸ hserves r (List.mem_cons_of_mem _ hr)
              rw [List.length_cons, Nat.succ_mul]
              omega

omit [DecidableEq F] in
theorem Progressed.nodup {reached : Nat} {after : EmbeddingTables F} {ids : List Uuid}
    (hselection : request.selection = .stale)
    (h : Progressed sha256 identity request t reached after ids) : ids.Nodup := by
  rw [h.updated]
  refine (pending_nodup.sublist (List.take_sublist _ _)).map_on fun a ha b hb hid => ?_
  exact t.memories.keyed.inj ((mem_pending hselection).mp (List.mem_of_mem_take ha)).stored
    ((mem_pending hselection).mp (List.mem_of_mem_take hb)).stored hid

end

/-- **The database finds an embedding stale exactly where the program would not find its identity.
Batches of stale embeddings, some of which may fail, update each of those that are stale in their
scope at most once and leave all others as they are; when as many have been served as it takes,
each was updated once and nothing more is selected.** -/
theorem reembedding_converges {F : Type} [DecidableEq F] (floats : Floats F) (sha256 : Sha256)
    (settings : EmbeddingSettings) :
    (∀ (m : SearchedMemory) (e : MemoryEmbedding F),
      staleEmbeddingPredicate sha256 settings.identity m e = some true ↔
        e.currentIdentity ≠ expectedIdentity sha256 settings.identity m) ∧
    ∀ (t : EmbeddingTables F) (request : MemoryEmbeddingReembedRequest) (rounds : List (Round F)),
      request.selection = .stale →
      let run := runBatches floats sha256 settings.identity request rounds t
      (∀ id, run.2.count id ≤ 1) ∧
      (∀ id ∈ run.2, ∃ m, StaleIn sha256 settings.identity request.scope t m ∧ m.id = id) ∧
      (∀ id ∉ run.2, run.1.embeddingOf id = t.embeddingOf id) ∧
      ∀ served : List (Round F), served.Sublist rounds →
        (∀ round ∈ served, Serves floats settings t.memories round) →
        (pending sha256 settings.identity request t).length ≤ served.length * request.limit →
        (∀ m, StaleIn sha256 settings.identity request.scope t m → run.2.count m.id = 1) ∧
          selectReembeddingCandidates sha256 settings.identity run.1 request = [] := by
  refine ⟨stale_iff, fun t request rounds hselection => ?_⟩
  obtain ⟨reached, hprogress, hserved⟩ :=
    runBatches_progressed sha256 t settings floats hselection rounds
  refine ⟨?_, ?_, hprogress.kept, ?_⟩
  · exact List.nodup_iff_count_le_one.mp (hprogress.nodup hselection)
  · intro id hid
    rw [hprogress.updated] at hid
    obtain ⟨m, hm, rfl⟩ := List.mem_map.mp hid
    exact ⟨m, (mem_pending hselection).mp (List.mem_of_mem_take hm), rfl⟩
  · intro served hsub hserves hlength
    have hall : (pending sha256 settings.identity request t).length ≤ reached :=
      hlength.trans (hserved served hsub hserves)
    refine ⟨fun m hm => ?_, ?_⟩
    · refine List.count_eq_one_of_mem (hprogress.nodup hselection) ?_
      rw [hprogress.updated, List.take_of_length_le hall]
      exact List.mem_map_of_mem ((mem_pending hselection).mpr hm)
    · rw [candidates_eq, hprogress.left, List.drop_of_length_le hall, List.take_nil]

/-! ## One memory -/

def staleMemory : SearchedMemory where
  projectId := none
  content := "a note\r\non two lines"
  source := none
  title := none
  summary := none
  memoryType := .semantic
  importance := ⟨5, 1, Knowledge.Score.half_le, Knowledge.Score.half_shortest⟩
  confidence := ⟨10, 1, Knowledge.Score.whole_le, Knowledge.Score.whole_shortest⟩
  status := .active
  eventTime := none
  expiresAt := none
  supersedesId := none
  id := 1
  createdAt := 0

/-- The embedding of a text the memory does not have any more. -/
def staleTables : EmbeddingTables Unit where
  memories := ⟨[staleMemory], by simp [Keyed]⟩
  embeddings :=
    [{ provider := "openai", model := "text-embedding-3-small", dimensions := 1536, id := 2,
       memoryId := 1, embedding := [], inputHash := "old", embeddedAt := 0, createdAt := 0,
       updatedAt := 0 }]
  keyed := by simp [Keyed]

def defaultSettings : EmbeddingSettings where
  stripped := by decide
  nonblank := by decide

def unitFloats : Floats Unit := ⟨fun _ => true, some⟩

/-- The provider answers every text with the one vector. -/
def servedRound (vector : List Unit) : Round Unit where
  provider := .ok
    { name := "openai", model := "text-embedding-3-small", dimensions := 1536
      embedMany := fun texts => .ok (.list (texts.map fun _ => .list (vector.map .number))) }
  now := 1
  writtenAt := 1

theorem servedRound_serves {vector : List Unit} (h : vector.length = 1536) :
    Serves unitFloats defaultSettings staleTables.memories (servedRound vector) where
  named := by decide
  answers := by
    refine ⟨_, rfl, rfl, fun ms _ => ⟨ms.map fun _ => vector, ?_, List.length_map _, ?_⟩⟩
    · simp only [List.map_map]
      rfl
    · intro v hv
      obtain ⟨_, -, rfl⟩ := List.mem_map.mp hv
      exact ⟨h, fun _ _ => rfl, fun _ _ => rfl⟩

/-- One batch updates the one stale embedding, and the next has nothing to do. -/
theorem reembedding_converges_once :
    let request : MemoryEmbeddingReembedRequest :=
      { scope := .all, selection := .stale, limit_valid := by decide }
    let run := runBatches unitFloats (fun _ => "new") defaultSettings.identity request
      [servedRound (List.replicate 1536 ())] staleTables
    run.2.count staleMemory.id = 1 ∧
      selectReembeddingCandidates (fun _ => "new") defaultSettings.identity run.1 request = [] := by
  intro request run
  have hpending : (pending (fun _ => "new") defaultSettings.identity request staleTables).length
      ≤ 1 := by
    rw [pending_eq_filter]
    exact List.length_filter_le _ _
  obtain ⟨-, -, -, hserved⟩ := (reembedding_converges unitFloats (fun _ => "new")
    defaultSettings).2 staleTables request [servedRound (List.replicate 1536 ())] rfl
  obtain ⟨honce, hnone⟩ := hserved _ (List.Sublist.refl _)
    (List.forall_mem_singleton.mpr (servedRound_serves List.length_replicate))
    (hpending.trans (by decide))
  refine ⟨honce staleMemory ⟨List.mem_singleton_self _, rfl, rfl, _, rfl, ?_⟩, hnone⟩
  intro hsame
  have hhash : "old" = "new" := congrArg Prod.snd hsame
  exact absurd hhash (by decide)

end Memories

end SecondBrain
