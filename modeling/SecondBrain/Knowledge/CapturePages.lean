import SecondBrain.Lib.Keyset
import SecondBrain.ContextHub.Continuation

/-!
# Walking through the capture inbox

A page of the inbox has one row more than is shown, and where there is one, a cursor with the
position of the last row that is shown. The next page has the rows below that position, in an
order that ends with the identifier and so has no ties. A walk along the cursors shows every
matching capture once, in that order, exactly where each cursor is short enough to be read
(`inbox_walk_iff`).
-/

namespace SecondBrain.Knowledge

open Lib
open CaptureTokens (CaptureQueryRequest CursorFailure Float64 Rank decodeCursor encodeCursor)

/-- A row with its time as the driver reads it. -/
structure InboxRow extends CaptureItem where
  readAt : Aware
  readAt_instant : readAt.instant = createdAt
deriving DecidableEq

/-- The captures, told apart by the primary key, and the projects there are. -/
structure Inbox where
  rows : List InboxRow
  projects : List Uuid
  keyed : Keyed (·.id) rows

/-- What the database computes of a text, and how its floats are read and written. -/
structure InboxIndex (R : Type) where
  /-- `search_vector @@ plainto_tsquery('simple', query)` -/
  isMatch : String → CaptureItem → Bool
  /-- `ts_rank_cd(search_vector, plainto_tsquery('simple', query))` -/
  rank : String → CaptureItem → R
  /-- `float(rank)` -/
  float : R → Rank
  /-- `cast(rank, REAL)` -/
  real : Float64 → R

inductive QueryFailure where
  | cursor (failure : CursorFailure)
  | projectNotFound
  | assertion
deriving DecidableEq

/-- What a cursor says: a time, an identifier and a rank. -/
abbrev InboxPosition := Instant × Uuid × Option Float64

structure CapturePage where
  items : List CaptureItemProjection
  nextCursor : Option String

section

variable {R : Type} [LinearOrder R] (index : InboxIndex R) (inbox : Inbox)

/-- `created_at < :created_at OR (created_at = :created_at AND id < :id)` -/
def isOlder (createdAt : Instant) (itemId : Uuid) (item : InboxRow) : Bool :=
  decide (item.createdAt < createdAt) ||
    decide (item.createdAt = createdAt) && decide (item.id < itemId)

/-- `created_at DESC, id DESC` -/
def browseKey (item : InboxRow) : Lex (Instant × ℕ) := toLex (item.createdAt, item.id.toNat)

/-- `rank DESC, created_at DESC, id DESC` -/
def rankedKey (query : String) (item : InboxRow) : Lex (R × Lex (Instant × ℕ)) :=
  toLex (index.rank query item.toCaptureItem, browseKey item)

def queryCaptures (projectId : Option Uuid) (states : List CaptureState) (query : Option String)
    (pageSize : Nat) (position : Option InboxPosition) :
    Except QueryFailure (List (InboxRow × Option Rank)) :=
  let inScope := inbox.rows.filter fun item =>
    item.projectId == projectId && states.contains item.state
  match query with
  | none =>
      let rows := match position with
        | none => inScope
        | some (createdAt, itemId, _) => inScope.filter (isOlder createdAt itemId)
      .ok (((newestFirst browseKey rows).take (pageSize + 1)).map fun item => (item, none))
  | some query =>
      let found := inScope.filter fun item => index.isMatch query item.toCaptureItem
      let answer (rows : List InboxRow) : List (InboxRow × Option Rank) :=
        ((newestFirst (rankedKey index query) rows).take (pageSize + 1)).map fun item =>
          (item, some (index.float (index.rank query item.toCaptureItem)))
      match position with
      | none => .ok (answer found)
      | some (_, _, none) => .error .assertion
      | some (createdAt, itemId, some cursorRank) =>
          let boundRank := index.real cursorRank
          .ok (answer (found.filter fun item =>
            decide (index.rank query item.toCaptureItem < boundRank) ||
              decide (index.rank query item.toCaptureItem = boundRank) &&
                isOlder createdAt itemId item))

/-- What the route makes of the rows of a query. -/
def pageOfRows (r : Keyring) (request : CaptureQueryRequest) (secret : String)
    (draw : RandomBytes) (rows : List (InboxRow × Option Rank)) : CapturePage where
  items := (rows.take request.pageSize).map (·.1.toCaptureItemProjection)
  nextCursor := if request.pageSize < rows.length then
      (rows.take request.pageSize).getLast?.map fun row =>
        encodeCursor r request row.1.readAt row.1.id.text row.2 secret draw
    else none

/-- The route `query_captures`: `body` is the request with its cursor. -/
def capturePage (r : Keyring) (request : CaptureQueryRequest) (cursor : Option String)
    (secret : String) (draw : RandomBytes) : Except QueryFailure CapturePage := do
  let position ← match cursor with
    | none => pure none
    | some value =>
        if value = "" then pure none
        else match decodeCursor r value request secret with
          | .error failure => .error (.cursor failure)
          | .ok raw => pure (some
              ((raw.createdAt.1.number - raw.createdAt.2.val, Uuid.ofText raw.itemId, raw.rank) :
                InboxPosition))
  if request.projectId.any fun id => !inbox.projects.contains id then
    .error .projectNotFound
  else
    let rows ← queryCaptures index inbox request.projectId request.states request.query
      request.pageSize position
    .ok (pageOfRows r request secret draw rows)

/-- Following the cursors from a page on until there is none shows these captures. -/
inductive Walked (r : Keyring) (request : CaptureQueryRequest) (secret : String)
    (draws : Nat → RandomBytes) : Option String → Nat → List CaptureItemProjection → Prop
  | last {cursor : Option String} {n : Nat} {items : List CaptureItemProjection} :
      capturePage index inbox r request cursor secret (draws n) = .ok ⟨items, none⟩ →
      Walked r request secret draws cursor n items
  | more {cursor : Option String} {n : Nat} {items rest : List CaptureItemProjection}
      {next : String} :
      capturePage index inbox r request cursor secret (draws n) = .ok ⟨items, some next⟩ →
      Walked r request secret draws (some next) (n + 1) rest →
      Walked r request secret draws cursor n (items ++ rest)

end

/-! ## One order -/

section

variable {R : Type} [LinearOrder R] (index : InboxIndex R) (inbox : Inbox)
  (request : CaptureQueryRequest)

def isListed (item : InboxRow) : Bool :=
  item.projectId == request.projectId && request.states.contains item.state &&
    request.query.all fun query => index.isMatch query item.toCaptureItem

/-- The rank that is shown of a row. -/
def rankOf (item : InboxRow) : Option Rank :=
  request.query.map fun query => index.float (index.rank query item.toCaptureItem)

/-- The captures that a request asks for, in the order it documents. -/
def listed : List InboxRow :=
  match request.query with
  | none => newestFirst browseKey (inbox.rows.filter (isListed index request))
  | some query =>
      newestFirst (rankedKey index query) (inbox.rows.filter (isListed index request))

variable {index inbox request} {i : Nat} {c : InboxRow}

theorem isOlder_eq (b : InboxRow) :
    isOlder c.createdAt c.id b = decide (browseKey b < browseKey c) := by
  rw [isOlder, browseKey, browseKey, Bool.eq_iff_iff, Bool.or_eq_true, Bool.and_eq_true,
    decide_eq_true_eq, decide_eq_true_eq, decide_eq_true_eq, decide_eq_true_eq,
    Prod.Lex.toLex_lt_toLex, BitVec.lt_def]

theorem isBelow_eq (query : String) (b : InboxRow) :
    (decide (index.rank query b.toCaptureItem < index.rank query c.toCaptureItem) ||
      decide (index.rank query b.toCaptureItem = index.rank query c.toCaptureItem) &&
        isOlder c.createdAt c.id b) = decide (rankedKey index query b < rankedKey index query c) := by
  rw [isOlder_eq, rankedKey, rankedKey, Bool.eq_iff_iff, Bool.or_eq_true, Bool.and_eq_true,
    decide_eq_true_eq, decide_eq_true_eq, decide_eq_true_eq, decide_eq_true_eq,
    Prod.Lex.toLex_lt_toLex]

theorem browseKey_inj {a b : InboxRow} (ha : a ∈ inbox.rows) (hb : b ∈ inbox.rows)
    (h : browseKey a = browseKey b) : a = b := by
  have hid : a.id.toNat = b.id.toNat := congrArg (fun key => (ofLex key).2) h
  exact inbox.keyed.inj ha hb (BitVec.eq_of_toNat_eq hid)

omit [LinearOrder R] in
theorem rankedKey_inj {query : String} {a b : InboxRow} (ha : a ∈ inbox.rows)
    (hb : b ∈ inbox.rows) (h : rankedKey index query a = rankedKey index query b) : a = b :=
  browseKey_inj ha hb (congrArg (fun key => (ofLex key).2) h)

omit [LinearOrder R] in
theorem matching_nodup : (inbox.rows.filter (isListed index request)).Nodup :=
  (List.Nodup.of_map _ inbox.keyed).filter _

omit [LinearOrder R] in
/-- The rows that the statement keeps, without and with a query. -/
theorem isListed_eq (rows : List InboxRow) : rows.filter (isListed index request) =
    match request.query with
    | none => rows.filter fun item =>
        item.projectId == request.projectId && request.states.contains item.state
    | some query => (rows.filter fun item =>
        item.projectId == request.projectId && request.states.contains item.state).filter
          fun item => index.isMatch query item.toCaptureItem := by
  cases hquery : request.query with
  | none =>
      refine List.filter_congr fun item _ => ?_
      rw [isListed, hquery, Option.all_none, Bool.and_true]
  | some query =>
      dsimp only
      rw [List.filter_filter]
      refine List.filter_congr fun item _ => ?_
      rw [isListed, hquery, Option.all_some, Bool.and_comm]

theorem queryCaptures_first :
    queryCaptures index inbox request.projectId request.states request.query request.pageSize none
      = .ok (((listed index inbox request).take (request.pageSize + 1)).map fun item =>
          (item, rankOf index request item)) := by
  rw [listed, isListed_eq]
  cases hquery : request.query with
  | none => simp only [queryCaptures, rankOf, hquery, Option.map_none]
  | some query => simp only [queryCaptures, rankOf, hquery, Option.map_some]

/-- Below the position of a row there are the rows after it. -/
theorem queryCaptures_after (hcast : ∀ x, index.real (.decimal (index.float x)) = x)
    (h : (listed index inbox request)[i]? = some c) :
    queryCaptures index inbox request.projectId request.states request.query request.pageSize
        (some (c.createdAt, c.id, (rankOf index request c).map .decimal))
      = .ok ((((listed index inbox request).drop (i + 1)).take (request.pageSize + 1)).map
          fun item => (item, rankOf index request item)) := by
  have hmem : ∀ {a}, a ∈ inbox.rows.filter (isListed index request) → a ∈ inbox.rows :=
    List.mem_of_mem_filter
  cases hquery : request.query with
  | none =>
      have hlisted : listed index inbox request =
          newestFirst browseKey (inbox.rows.filter (isListed index request)) := by
        rw [listed, hquery]
      have hbelow := newestFirst_below matching_nodup
        (fun a ha b hb => browseKey_inj (hmem ha) (hmem hb)) (hlisted ▸ h)
      rw [hlisted, ← hbelow, isListed_eq, hquery]
      have holder : isOlder c.createdAt c.id = fun b => decide (browseKey b < browseKey c) :=
        funext isOlder_eq
      simp only [queryCaptures, rankOf, hquery, Option.map_none, holder]
  | some query =>
      have hlisted : listed index inbox request =
          newestFirst (rankedKey index query) (inbox.rows.filter (isListed index request)) := by
        rw [listed, hquery]
      have hbelow := newestFirst_below matching_nodup
        (fun a ha b hb => rankedKey_inj (hmem ha) (hmem hb)) (hlisted ▸ h)
      rw [hlisted, ← hbelow, isListed_eq, hquery]
      simp only [queryCaptures, rankOf, hquery, Option.map_some, hcast, isBelow_eq]

/-! ## One page -/

variable (index inbox request) in
/-- The cursor that a page with this row at its end has. -/
def cursorAt (r : Keyring) (secret : String) (draw : RandomBytes) (item : InboxRow) : String :=
  encodeCursor r request item.readAt item.id.text (rankOf index request item) secret draw

variable (index inbox request) in
/-- The page after the first `m` rows. -/
def pageFrom (r : Keyring) (secret : String) (draw : RandomBytes) (m : Nat) : CapturePage where
  items := (((listed index inbox request).drop m).take request.pageSize).map
    (·.toCaptureItemProjection)
  nextCursor :=
    if m + request.pageSize < (listed index inbox request).length then
      (listed index inbox request)[m + request.pageSize - 1]?.map
        (cursorAt index request r secret draw)
    else none

variable {r : Keyring} {v : ContextHub.Scalars} {secret : String} {draw draw' : RandomBytes}
  {m : Nat}

theorem pageOfRows_eq (m : Nat) :
    pageOfRows r request secret draw ((((listed index inbox request).drop m).take
        (request.pageSize + 1)).map fun item => (item, rankOf index request item))
      = pageFrom index inbox request r secret draw m := by
  have hpage := request.page_bounded.1
  have htake : (((listed index inbox request).drop m).take (request.pageSize + 1)).take
      request.pageSize = ((listed index inbox request).drop m).take request.pageSize := by
    rw [List.take_take, Nat.min_eq_left (Nat.le_succ _)]
  rw [pageOfRows, pageFrom, ← List.map_take, htake, List.map_map, List.length_map,
    List.length_take, List.length_drop]
  congr 1
  by_cases hmore : m + request.pageSize < (listed index inbox request).length
  · rw [if_pos (by omega), if_pos hmore, List.getLast?_map, Option.map_map,
      List.getLast?_eq_getElem?, List.length_take, List.length_drop, List.getElem?_take_of_lt
      (by omega), List.getElem?_drop]
    have hplace : m + (min request.pageSize ((listed index inbox request).length - m) - 1) =
        m + request.pageSize - 1 := by omega
    rw [hplace]
    rfl
  · rw [if_neg (by omega), if_neg hmore]

omit [LinearOrder R] in
theorem scope_found (hscope : ∀ id ∈ request.projectId, id ∈ inbox.projects) :
    (request.projectId.any fun id => !inbox.projects.contains id) = false := by
  cases hproject : request.projectId with
  | none => rfl
  | some id =>
      rw [Option.any_some, List.contains_iff_mem.mpr (hscope id hproject)]
      rfl

theorem capturePage_first (hscope : ∀ id ∈ request.projectId, id ∈ inbox.projects) :
    capturePage index inbox r request none secret draw =
      .ok (pageFrom index inbox request r secret draw 0) := by
  rw [capturePage, scope_found hscope, ← pageOfRows_eq, List.drop_zero]
  simp only [pure_bind, Bool.false_eq_true, if_false, queryCaptures_first]
  rfl

omit [LinearOrder R] in
theorem cursorAt_ne_empty (c : InboxRow) : cursorAt index request r secret draw c ≠ "" := by
  intro hempty
  have hlength := Sealed.length_token (r.seal (CaptureTokens.key r secret draw.salt) draw
    (CaptureTokens.payload (CaptureTokens.cursorData request c.readAt c.id.text
      (rankOf index request c))) (CaptureTokens.aad draw.salt))
  rw [← CaptureTokens.encodeCursor, ← cursorAt, hempty, String.length_empty] at hlength
  omega

/-- A cursor that fits continues after the row it was written for; one that does not is
refused. -/
theorem capturePage_after (hideal : r.aead.Ideal (ContextHub.Issued r v))
    (hcast : ∀ x, index.real (.decimal (index.float x)) = x)
    (hscope : ∀ id ∈ request.projectId, id ∈ inbox.projects)
    (h : (listed index inbox request)[i]? = some c) :
    capturePage index inbox r request (some (cursorAt index request r secret draw c)) secret draw' =
      if CaptureTokens.Fits request c.readAt (rankOf index request c) then
        .ok (pageFrom index inbox request r secret draw' (i + 1))
      else .error (.cursor .captureCursorError) := by
  have hvalid : CaptureTokens.ValidPosition request c.id.text (rankOf index request c) :=
    ⟨⟨c.id, rfl⟩, by rw [rankOf, Option.isSome_map]⟩
  have hdecode : decodeCursor r (encodeCursor r request c.readAt c.id.text
      (rankOf index request c) secret draw) request secret = _ :=
    CaptureTokens.decodeCursor_encodeCursor hideal hvalid (.capture secret draw hvalid) request
  rw [capturePage]
  dsimp only
  rw [if_neg (cursorAt_ne_empty c), cursorAt, hdecode]
  by_cases hfits : CaptureTokens.Fits request c.readAt (rankOf index request c)
  · have hinstant : c.readAt.wall.number - c.readAt.offset.val = c.createdAt := c.readAt_instant
    rw [if_pos ⟨hfits, rfl⟩, if_pos hfits, scope_found hscope, ← pageOfRows_eq]
    simp only [pure_bind, Bool.false_eq_true, if_false, hinstant, Uuid.ofText_text,
      queryCaptures_after hcast h]
    rfl
  · rw [if_neg fun hand => hfits hand.1, if_neg hfits]
    rfl

/-- The row at the end of each page but the last has a cursor that fits. -/
def CursorsFit (index : InboxIndex R) (inbox : Inbox) (request : CaptureQueryRequest) (m : Nat) :
    Prop :=
  ∀ j c, m + (j + 1) * request.pageSize < (listed index inbox request).length →
    (listed index inbox request)[m + (j + 1) * request.pageSize - 1]? = some c →
      CaptureTokens.Fits request c.readAt (rankOf index request c)

theorem CursorsFit.split (hmore : m + request.pageSize < (listed index inbox request).length)
    (hend : (listed index inbox request)[m + request.pageSize - 1]? = some c) :
    CursorsFit index inbox request m ↔ CaptureTokens.Fits request c.readAt (rankOf index request c) ∧
      CursorsFit index inbox request (m + request.pageSize) := by
  constructor
  · intro h
    refine ⟨h 0 c (by simpa using hmore) (by simpa using hend), fun j d hlt hd => ?_⟩
    have hplace : m + request.pageSize + (j + 1) * request.pageSize =
        m + (j + 1 + 1) * request.pageSize := by ring
    rw [hplace] at hlt hd
    exact h (j + 1) d hlt hd
  · rintro ⟨hfits, h⟩ j d hlt hd
    cases j with
    | zero =>
        rw [Nat.zero_add, Nat.one_mul, hend] at hd
        cases hd
        exact hfits
    | succ j =>
        have hplace : m + (j + 1 + 1) * request.pageSize =
            m + request.pageSize + (j + 1) * request.pageSize := by ring
        rw [hplace] at hlt hd
        exact h j d hlt hd

theorem CursorsFit.last (hend : ¬ m + request.pageSize < (listed index inbox request).length) :
    CursorsFit index inbox request m := by
  intro j c hlt
  have hle : request.pageSize ≤ (j + 1) * request.pageSize :=
    Nat.le_mul_of_pos_left _ (Nat.succ_pos j)
  omega

/-- A page that has no cursor is the end of a walk. -/
theorem walked_last (draws : Nat → RandomBytes) {n : Nat} {cursor : Option String}
    {items : List CaptureItemProjection}
    (hpage : capturePage index inbox r request cursor secret (draws n) =
      .ok (pageFrom index inbox request r secret (draws n) m))
    (hend : ¬ m + request.pageSize < (listed index inbox request).length) :
    Walked index inbox r request secret draws cursor n items ↔
      items = ((listed index inbox request).drop m).map (·.toCaptureItemProjection) := by
  have hshown : pageFrom index inbox request r secret (draws n) m =
      ⟨((listed index inbox request).drop m).map (·.toCaptureItemProjection), none⟩ := by
    rw [pageFrom, if_neg hend, List.take_of_length_le]
    rw [List.length_drop]
    omega
  rw [hshown] at hpage
  constructor
  · intro h
    cases h with
    | last hlast =>
        rw [hpage] at hlast
        cases hlast
        rfl
    | more hmore hrest =>
        rw [hpage] at hmore
        cases hmore
  · rintro rfl
    exact .last hpage

/-- From a page on, a walk shows what comes after the rows before it, and ends exactly where
its cursors fit. -/
theorem walked_iff (hideal : r.aead.Ideal (ContextHub.Issued r v))
    (hcast : ∀ x, index.real (.decimal (index.float x)) = x)
    (hscope : ∀ id ∈ request.projectId, id ∈ inbox.projects) (draws : Nat → RandomBytes)
    (rounds : Nat) (hrounds : (listed index inbox request).length ≤ m + rounds) {n : Nat}
    {cursor : Option String} {items : List CaptureItemProjection}
    (hpage : capturePage index inbox r request cursor secret (draws n) =
      .ok (pageFrom index inbox request r secret (draws n) m)) :
    Walked index inbox r request secret draws cursor n items ↔
      items = ((listed index inbox request).drop m).map (·.toCaptureItemProjection) ∧
        CursorsFit index inbox request m := by
  have hsize := request.page_bounded.1
  induction rounds generalizing m n cursor items with
  | zero =>
      rw [walked_last draws hpage (by omega)]
      exact (and_iff_left (CursorsFit.last (by omega))).symm
  | succ rounds ih =>
      by_cases hmore : m + request.pageSize < (listed index inbox request).length
      · obtain ⟨c, hend⟩ : ∃ c, (listed index inbox request)[m + request.pageSize - 1]? = some c :=
          ⟨_, List.getElem?_eq_getElem (by omega)⟩
        have hplace : m + request.pageSize - 1 + 1 = m + request.pageSize := by omega
        have hnext : capturePage index inbox r request
            (some (cursorAt index request r secret (draws n) c)) secret (draws (n + 1)) = _ :=
          capturePage_after hideal hcast hscope hend
        have hshown : pageFrom index inbox request r secret (draws n) m =
            ⟨(((listed index inbox request).drop m).take request.pageSize).map
              (·.toCaptureItemProjection), some (cursorAt index request r secret (draws n) c)⟩ := by
          rw [pageFrom, if_pos hmore, hend]
          rfl
        rw [hshown] at hpage
        rw [hplace] at hnext
        have hsplit : ((listed index inbox request).drop m).map (·.toCaptureItemProjection) =
            (((listed index inbox request).drop m).take request.pageSize).map
              (·.toCaptureItemProjection) ++ ((listed index inbox request).drop
                (m + request.pageSize)).map (·.toCaptureItemProjection) := by
          rw [← List.map_append, ← List.drop_drop, List.take_append_drop]
        rw [CursorsFit.split hmore hend]
        by_cases hfits : CaptureTokens.Fits request c.readAt (rankOf index request c)
        · rw [if_pos hfits] at hnext
          constructor
          · intro h
            cases h with
            | last hlast =>
                rw [hpage] at hlast
                cases hlast
            | more hnow hrest =>
                rw [hpage] at hnow
                cases hnow
                obtain ⟨rfl, hfit⟩ := (ih (by omega) hnext).mp hrest
                exact ⟨hsplit.symm, hfits, hfit⟩
          · rintro ⟨rfl, -, hfit⟩
            rw [hsplit]
            exact .more hpage ((ih (by omega) hnext).mpr ⟨rfl, hfit⟩)
        · rw [if_neg hfits] at hnext
          constructor
          · intro h
            cases h with
            | last hlast =>
                rw [hpage] at hlast
                cases hlast
            | more hnow hrest =>
                rw [hpage] at hnow
                cases hnow
                cases hrest with
                | last hlast =>
                    rw [hnext] at hlast
                    cases hlast
                | more hthen _ =>
                    rw [hnext] at hthen
                    cases hthen
          · rintro ⟨-, hfit, -⟩
            exact absurd hfit hfits
      · rw [walked_last draws hpage hmore]
        exact (and_iff_left (CursorsFit.last hmore)).symm

/-! ## The walk -/

/-- The order that is documented: by rank where there is a query, then by time and identifier,
each from the greatest down. -/
def ComesBefore (index : InboxIndex R) (request : CaptureQueryRequest) (a b : InboxRow) : Prop :=
  match request.query with
  | none => browseKey b < browseKey a
  | some query => rankedKey index query b < rankedKey index query a

/-- Every matching capture once, in the order that is documented. -/
structure Lists (index : InboxIndex R) (inbox : Inbox) (request : CaptureQueryRequest)
    (shown : List InboxRow) : Prop where
  complete : ∀ c, c ∈ shown ↔ c ∈ inbox.rows ∧ isListed index request c = true
  once : shown.Nodup
  ordered : shown.Pairwise (ComesBefore index request)

theorem listed_lists : Lists index inbox request (listed index inbox request) := by
  have hmem : ∀ {a}, a ∈ inbox.rows.filter (isListed index request) → a ∈ inbox.rows :=
    List.mem_of_mem_filter
  cases hquery : request.query with
  | none =>
      rw [listed, hquery]
      refine ⟨fun c => by rw [mem_newestFirst, List.mem_filter],
        (List.perm_insertionSort _ _).nodup_iff.mpr matching_nodup, ?_⟩
      refine (newestFirst_strict matching_nodup
        fun a ha b hb => browseKey_inj (hmem ha) (hmem hb)).imp fun h => ?_
      rw [ComesBefore, hquery]
      exact h
  | some query =>
      rw [listed, hquery]
      refine ⟨fun c => by rw [mem_newestFirst, List.mem_filter],
        (List.perm_insertionSort _ _).nodup_iff.mpr matching_nodup, ?_⟩
      refine (newestFirst_strict matching_nodup
        fun a ha b hb => rankedKey_inj (hmem ha) (hmem hb)).imp fun h => ?_
      rw [ComesBefore, hquery]
      exact h

/-- A walk from the first page on ends exactly where its cursors fit, and shows what the request
asks for. -/
theorem walked_first (hideal : r.aead.Ideal (ContextHub.Issued r v))
    (hcast : ∀ x, index.real (.decimal (index.float x)) = x)
    (hscope : ∀ id ∈ request.projectId, id ∈ inbox.projects) (draws : Nat → RandomBytes)
    {items : List CaptureItemProjection} :
    Walked index inbox r request secret draws none 0 items ↔
      items = (listed index inbox request).map (·.toCaptureItemProjection) ∧
        CursorsFit index inbox request 0 :=
  walked_iff hideal hcast hscope draws _ (Nat.le_add_left _ _) (capturePage_first hscope)

/-- Following the cursors of the inbox shows every matching capture once in the documented
order, exactly where the cursor of each page is short enough to be read. -/
theorem inbox_walk_iff (r : Keyring) (v : ContextHub.Scalars) (index : InboxIndex R)
    (inbox : Inbox) (request : CaptureQueryRequest) (secret : String) (draws : Nat → RandomBytes)
    (hideal : r.aead.Ideal (ContextHub.Issued r v))
    (hcast : ∀ x, index.real (.decimal (index.float x)) = x)
    (hscope : ∀ id ∈ request.projectId, id ∈ inbox.projects) :
    (∃ shown, Walked index inbox r request secret draws none 0
        (shown.map (·.toCaptureItemProjection)) ∧ Lists index inbox request shown) ↔
      CursorsFit index inbox request 0 := by
  constructor
  · rintro ⟨shown, hwalked, -⟩
    exact ((walked_first hideal hcast hscope draws).mp hwalked).2
  · intro hfit
    exact ⟨_, (walked_first hideal hcast hscope draws).mpr ⟨rfl, hfit⟩, listed_lists⟩

end

/-! ## Two captures on pages of one -/

section

def pagedItem (id : Uuid) : InboxRow where
  id := id
  projectId := none
  content := "tide tables"
  state := .pending
  revision := 1
  createdAt := ContextHub.sampleCreated.instant
  updatedAt := ContextHub.sampleCreated.instant
  idempotencyKeyHash := ""
  requestFingerprint := ""
  readAt := ContextHub.sampleCreated
  readAt_instant := rfl

def pagedInbox : Inbox where
  rows := [pagedItem 2, pagedItem 1]
  projects := []
  keyed := by
    rw [Keyed]
    decide

/-- The words are found in every capture, equally well. -/
def pagedIndex : InboxIndex Nat where
  isMatch _ _ := true
  rank _ _ := 1
  float n := ⟨n, 1, Nat.one_pos⟩
  real
    | .decimal rank => rank.digits
    | .nearest n => n.toNat

def pagedRequest (query : String) (hquery : CaptureTokens.NormalizedQuery query) :
    CaptureQueryRequest :=
  { ContextHub.captureRequest query hquery with
    pageSize := 1
    page_bounded := by decide }

theorem tide_normalized : CaptureTokens.NormalizedQuery "tide" where
  visible := by decide
  length := by decide
  bytes := by decide

theorem pagedInbox_listed (query : String) (hquery : CaptureTokens.NormalizedQuery query) :
    listed pagedIndex pagedInbox (pagedRequest query hquery) = [pagedItem 2, pagedItem 1] := by
  have hall : ∀ item ∈ pagedInbox.rows,
      isListed pagedIndex (pagedRequest query hquery) item = true := by
    intro item hitem
    rcases List.mem_cons.mp hitem with rfl | hitem
    · rfl
    · rw [List.mem_singleton.mp hitem]
      rfl
  have hlisted : listed pagedIndex pagedInbox (pagedRequest query hquery) =
      newestFirst (rankedKey pagedIndex query)
        (pagedInbox.rows.filter (isListed pagedIndex (pagedRequest query hquery))) := rfl
  rw [hlisted, List.filter_eq_self.mpr hall]
  refine List.Pairwise.insertionSort_eq (List.pairwise_pair.mpr ?_)
  rw [rankedKey, rankedKey, browseKey, browseKey, Prod.Lex.toLex_le_toLex,
    Prod.Lex.toLex_le_toLex]
  exact .inr ⟨rfl, .inr ⟨rfl, by decide⟩⟩

theorem pagedInbox_scope (query : String) (hquery : CaptureTokens.NormalizedQuery query) :
    ∀ id ∈ (pagedRequest query hquery).projectId, id ∈ pagedInbox.projects := by
  intro id hid
  have hnone : (pagedRequest query hquery).projectId = none := rfl
  rw [hnone] at hid
  cases hid

theorem pagedInbox_fits (query : String) (hquery : CaptureTokens.NormalizedQuery query) :
    CursorsFit pagedIndex pagedInbox (pagedRequest query hquery) 0 ↔
      CaptureTokens.Fits (pagedRequest query hquery) ContextHub.sampleCreated (some ContextHub.sampleRank) := by
  have hsize : (pagedRequest query hquery).pageSize = 1 := rfl
  have hread : (pagedItem 2).readAt = ContextHub.sampleCreated := rfl
  have hrank : rankOf pagedIndex (pagedRequest query hquery) (pagedItem 2) =
      some ContextHub.sampleRank := rfl
  have hfirst : ([pagedItem 2, pagedItem 1] : List InboxRow)[0]? = some (pagedItem 2) := rfl
  rw [CursorsFit, pagedInbox_listed, hsize]
  constructor
  · intro h
    have hfits := h 0 (pagedItem 2) (by decide) hfirst
    rw [hread, hrank] at hfits
    exact hfits
  · intro h j c hlt hc
    obtain rfl : j = 0 := by
      simp only [List.length_cons, List.length_nil] at hlt
      omega
    obtain rfl : pagedItem 2 = c := Option.some.inj (hfirst.symm.trans hc)
    rw [hread, hrank]
    exact h

theorem paged_variableWidth (query : String) (hquery : CaptureTokens.NormalizedQuery query) :
    CaptureTokens.variableWidth (pagedRequest query hquery) ContextHub.sampleCreated
      (some ContextHub.sampleRank) = Json.dumpsLen (.str query) + 88 := by
  have hcreated : Json.dumpsLen (.str ContextHub.sampleCreated.isoformat) = 27 := by decide
  have hrank : Json.dumpsLen (CaptureTokens.rankJson (some ContextHub.sampleRank)) = 3 := by decide
  have hsize : Json.dumpsLen (.int (1 : Nat)) = 1 := by decide
  have hstate : (CaptureTokens.stateValue .pending).length = 7 := by decide
  rw [CaptureTokens.variableWidth, hcreated, hrank]
  simp only [pagedRequest, ContextHub.captureRequest, Option.elim_some, hsize, Option.isSome_none,
    Option.isSome_some, Bool.false_eq_true, if_false, if_true, List.map_cons, List.map_nil,
    List.sum_cons, List.sum_nil, hstate]
  omega

/-- A short query is walked through. -/
theorem inbox_walk_sample : ∃ shown,
    Walked pagedIndex pagedInbox (ContextHub.sampleKeyring ContextHub.sampleScalars)
        (pagedRequest "tide" tide_normalized) "secret" (fun _ => ContextHub.sampleBytes) none 0
        (shown.map (·.toCaptureItemProjection)) ∧
      Lists pagedIndex pagedInbox (pagedRequest "tide" tide_normalized) shown := by
  refine (inbox_walk_iff _ _ _ _ _ _ _ ContextHub.sampleKeyring_ideal (fun _ => rfl)
    (pagedInbox_scope _ _)).mpr ((pagedInbox_fits _ _).mpr ?_)
  rw [CaptureTokens.Fits, paged_variableWidth]
  decide

/-- Two captures match a query that is long when it is escaped. The first page has a cursor,
and that is refused. -/
theorem inbox_walk_refused : ¬ ∃ shown,
    Walked pagedIndex pagedInbox (ContextHub.sampleKeyring ContextHub.sampleScalars)
        (pagedRequest (ContextHub.faces 200) ContextHub.faces_normalized) "secret"
        (fun _ => ContextHub.sampleBytes) none 0 (shown.map (·.toCaptureItemProjection)) ∧
      Lists pagedIndex pagedInbox
        (pagedRequest (ContextHub.faces 200) ContextHub.faces_normalized) shown := by
  rintro ⟨shown, hwalked, -⟩
  have hfit := ((walked_first ContextHub.sampleKeyring_ideal (fun _ => rfl)
    (pagedInbox_scope _ _) _).mp hwalked).2
  have hwidth := (pagedInbox_fits _ _).mp hfit
  rw [CaptureTokens.Fits, paged_variableWidth, ContextHub.dumpsLen_faces] at hwidth
  exact absurd hwidth (by decide)

end

end SecondBrain.Knowledge
