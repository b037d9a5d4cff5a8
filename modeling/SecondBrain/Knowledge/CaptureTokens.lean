import SecondBrain.Knowledge.Model
import SecondBrain.Lib.IsoFormat
import SecondBrain.Lib.Sealing
import SecondBrain.Uuids

/-!
# Cursors of the capture inbox

A cursor is the sealed text of the request it continues and of the position of the last
capture on the page: when it was created, its identifier, and its rank where the request
has a query. What the request is bound to is compared when the cursor is opened.
-/

namespace SecondBrain

open Lib

namespace Knowledge

namespace CaptureTokens

def domain : String := "second-brain:capture-inbox:cursor:v1"
def iterations : Nat := 100000
def maxCursorCharacters : Nat := 2048

/-- The exception of the cursors, and the one of a number beyond every float. -/
inductive CursorFailure where
  | captureCursorError
  | overflowError
deriving DecidableEq, Repr

def stateValue : CaptureState → String
  | .pending => "pending"
  | .processed => "processed"
  | .discarded => "discarded"

/-- The control characters. -/
def isControl (c : Char) : Bool :=
  decide (c.toNat < 32) || (decide (127 ≤ c.toNat) && decide (c.toNat ≤ 159))

/-- `normalize_query`, of a text that is trimmed. -/
structure NormalizedQuery (query : String) : Prop where
  visible : query.toList.all fun c => !isControl c
  length : 1 ≤ query.length ∧ query.length ≤ 200
  bytes : Json.octets query.toList ≤ 800

/-- The scope is a project, or what is in none. -/
structure CaptureQueryRequest where
  projectId : Option Uuid
  states : List CaptureState
  query : Option String
  pageSize : Nat
  states_unique : states ≠ [] ∧ states.Nodup
  query_normalized : ∀ text ∈ query, NormalizedQuery text
  page_bounded : 1 ≤ pageSize ∧ pageSize ≤ 50

/-- A non-negative float, by the decimal that spells it. -/
structure Rank where
  digits : Nat
  places : Nat
  places_pos : 0 < places
deriving DecidableEq

/-- A float that was read: as it is spelled, or the one nearest to a whole number. -/
inductive Float64 where
  | decimal (rank : Rank)
  | nearest (n : Int)
deriving DecidableEq

structure Position where
  createdAt : Wall × Offset
  itemId : String
  rank : Option Float64
deriving DecidableEq

/-! ## The token -/

variable (r : Keyring)

/-- `scope.model_dump(mode="json", exclude_none=True)`. -/
def scopeJson (projectId : Option Uuid) : Json :=
  match projectId with
  | some id => .obj [("project_id", .str id.text)]
  | none => .obj [("unassigned", .bool true)]

/-- `_request`. -/
def requestJson (request : CaptureQueryRequest) : Json :=
  .obj [("scope", scopeJson request.projectId), ("query", request.query.elim .null .str),
    ("states", Json.sortedTexts (request.states.map stateValue)),
    ("page_size", .int request.pageSize),
    ("ordering", .str (if request.query.any fun text => text ≠ "" then
      "lexical-rank-created-id-v1" else "created-id-v1"))]

/-- `_key`. -/
def key (secret : String) (salt : Bytes) : r.Key :=
  r.derive (utf8 secret) (utf8 (domain ++ ":") ++ salt) iterations

/-- `_aad`. -/
def aad (salt : Bytes) : Bytes :=
  utf8 (Json.obj [("domain", .str domain), ("iterations", .int iterations),
    ("salt", .str (String.ofList (Base64.padded (Base64.encode salt)))), ("v", .int 1)]).canonical

def rankJson (rank : Option Rank) : Json :=
  rank.elim .null fun value => .real value.digits value.places

def cursorData (request : CaptureQueryRequest) (createdAt : Aware) (itemId : String)
    (rank : Option Rank) : Json :=
  .obj [("v", .int 1), ("request", requestJson request),
    ("position", .obj [("created_at", .str createdAt.isoformat), ("id", .str itemId),
      ("rank", rankJson rank)])]

/-- The text that is sealed. -/
def payload (data : Json) : Bytes := utf8 data.canonical

def encodeCursor (request : CaptureQueryRequest) (createdAt : Aware) (itemId : String)
    (rank : Option Rank) (secret : String) (draw : RandomBytes) : String :=
  (r.seal (key r secret draw.salt) draw
    (payload (cursorData request createdAt itemId rank)) (aad draw.salt)).token

/-- `str` of a value, where a UUID can come of it. -/
def itemText : Json → Option String
  | .str s => some s
  | .int n => some (toString n)
  | _ => none

/-- The rank as a float, where it is a number or none. -/
def readRank (request : CaptureQueryRequest) (raw : Json) :
    Except CursorFailure (Option Float64) :=
  match raw with
  | .null => if request.query.isSome then .error .captureCursorError else .ok none
  | .int n =>
      if request.query.isNone then .error .captureCursorError
      else if 2 ^ 1024 - 2 ^ 970 ≤ n.natAbs then .error .overflowError
      else .ok (some (.nearest n))
  | .real digits places =>
      if request.query.isNone then .error .captureCursorError
      else if h : 0 < places then .ok (some (.decimal ⟨digits, places, h⟩))
      else .ok (some (.nearest digits))
  | _ => .error .captureCursorError

/-- What a cursor's data says under a request. -/
def readCursor (data : Json) (request : CaptureQueryRequest) : Except CursorFailure Position :=
  match data with
  | .obj fields =>
      if !Json.hasKeys fields ["v", "request", "position"] ||
          !(data.field? "v").any (fun j => Json.equal j (.int 1)) ||
          !(data.field? "request").any fun j => Json.equal j (requestJson request) then
        .error .captureCursorError
      else
        match data.field? "position" with
        | some (.obj position) =>
            if !Json.hasKeys position ["created_at", "id", "rank"] then .error .captureCursorError
            else
              match (Json.obj position).field? "created_at", (Json.obj position).field? "id",
                (Json.obj position).field? "rank" with
              | some (.str created), some id, some rank =>
                  match fromisoformat created, itemText id with
                  | some (wall, some offset), some text =>
                      if !Uuid.isUuid text then .error .captureCursorError
                      else (readRank request rank).map fun rank => ⟨(wall, offset), text, rank⟩
                  | _, _ => .error .captureCursorError
              | _, _, _ => .error .captureCursorError
        | _ => .error .captureCursorError
  | _ => .error .captureCursorError

def decodeCursor (value : String) (request : CaptureQueryRequest) (secret : String) :
    Except CursorFailure Position :=
  match Sealed.read value maxCursorCharacters with
  | none => .error .captureCursorError
  | some s =>
      match r.aead.decrypt (key r secret s.salt) s.nonce s.ciphertext (aad s.salt) with
      | none => .error .captureCursorError
      | some bytes =>
          match (ofUtf8? bytes).bind Json.loads with
          | none => .error .captureCursorError
          | some data => readCursor data request

/-! ## What is written is read -/

section

variable (request : CaptureQueryRequest)

theorem sortKeys_scopeJson (projectId : Option Uuid) :
    (scopeJson projectId).sortKeys = scopeJson projectId := by
  cases projectId with
  | none => rfl
  | some id => rfl

/-- The request with its fields in the order of their names. -/
def sortedRequest : Json :=
  .obj [("ordering", .str (if request.query.any fun text => text ≠ "" then
      "lexical-rank-created-id-v1" else "created-id-v1")),
    ("page_size", .int request.pageSize), ("query", request.query.elim .null .str),
    ("scope", scopeJson request.projectId),
    ("states", Json.sortedTexts (request.states.map stateValue))]

theorem sortKeys_query (query : Option String) :
    (query.elim Json.null .str).sortKeys = query.elim .null .str := by
  cases query with
  | none => rfl
  | some text => rfl

theorem sortKeys_requestJson : (requestJson request).sortKeys = sortedRequest request := by
  simp [requestJson, sortedRequest, Json.sortKeys, Json.sortFields, List.insertionSort,
    sortKeys_scopeJson, sortKeys_query]

theorem sortKeys_sortedRequest : (sortedRequest request).sortKeys = sortedRequest request := by
  simp [sortedRequest, Json.sortKeys, Json.sortFields, List.insertionSort,
    sortKeys_scopeJson, sortKeys_query]

theorem readable_scopeJson (projectId : Option Uuid) : (scopeJson projectId).Readable := by
  cases projectId with
  | none => simp [scopeJson, Json.Readable, Json.ReadableFields]
  | some id => simp [scopeJson, Json.Readable, Json.ReadableFields]

theorem readable_query (query : Option String) : Json.Readable (query.elim Json.null .str) := by
  cases query with
  | none => trivial
  | some text => trivial

theorem readable_sortedRequest : (sortedRequest request).Readable := by
  simp [sortedRequest, Json.Readable, Json.ReadableFields, readable_scopeJson, readable_query]

theorem worth_query (query : Option String) :
    (query.elim Json.null .str).worth = query.elim .null .str := by
  cases query with
  | none => rfl
  | some text => rfl

/-- The scope is told by its value. -/
theorem worth_scopeJson_injective {a b : Option Uuid}
    (h : (scopeJson a).worth = (scopeJson b).worth) : scopeJson a = scopeJson b := by
  cases a with
  | none =>
      cases b with
      | none => rfl
      | some id => simp [scopeJson, Json.worth, Json.worthFields] at h
  | some id =>
      cases b with
      | none => simp [scopeJson, Json.worth, Json.worthFields] at h
      | some id' =>
          simp only [scopeJson, Json.worth, Json.worthFields] at h ⊢
          exact h

/-- A request that was read equals another only where it is the other. -/
theorem equal_sortedRequest {request request' : CaptureQueryRequest} :
    Json.equal (sortedRequest request) (requestJson request') = true ↔
      requestJson request = requestJson request' := by
  rw [Json.equal, sortKeys_sortedRequest, sortKeys_requestJson, decide_eq_true_eq]
  constructor
  · intro h
    simp only [sortedRequest, Json.worth, Json.worthFields, worth_query,
      Json.worth_sortedTexts, Json.obj.injEq, List.cons.injEq, Prod.mk.injEq, true_and,
      and_true] at h
    obtain ⟨hordering, hsize, hquery, hscope, hstates⟩ := h
    simp only [requestJson, hordering, hsize, hquery, worth_scopeJson_injective hscope, hstates]
  · intro h
    rw [← sortKeys_requestJson, ← sortKeys_requestJson, h]

end

/-! ## What a cursor says -/

/-- The position of a capture: its identifier as text, and a rank where there is a query. -/
structure ValidPosition (request : CaptureQueryRequest) (itemId : String) (rank : Option Rank) :
    Prop where
  item : ∃ id : Uuid, itemId = id.text
  ranked : rank.isSome = request.query.isSome

section

variable (request : CaptureQueryRequest) (createdAt : Aware) (itemId : String)
  (rank : Option Rank)

/-- The data with its fields in the order of their names. -/
def sortedData : Json :=
  .obj [("position", .obj [("created_at", .str createdAt.isoformat), ("id", .str itemId),
      ("rank", rankJson rank)]),
    ("request", sortedRequest request), ("v", .int 1)]

theorem sortKeys_cursorData :
    (cursorData request createdAt itemId rank).sortKeys =
      sortedData request createdAt itemId rank := by
  have hrank : (rankJson rank).sortKeys = rankJson rank := by
    cases rank with
    | none => rfl
    | some value => rfl
  simp [cursorData, sortedData, Json.sortKeys, Json.sortFields, List.insertionSort,
    sortKeys_requestJson, hrank]

theorem readable_sortedData : (sortedData request createdAt itemId rank).Readable := by
  have hrank : (rankJson rank).Readable := by
    cases rank with
    | none => trivial
    | some value => exact value.places_pos
  simp [sortedData, Json.Readable, Json.ReadableFields, readable_sortedRequest, hrank]

theorem loads_payload :
    (ofUtf8? (payload (cursorData request createdAt itemId rank))).bind Json.loads =
      some (sortedData request createdAt itemId rank) := by
  rw [payload, ofUtf8?_utf8, Option.bind_some, Json.canonical, sortKeys_cursorData]
  exact Json.loads_render Json.compact_legible (readable_sortedData _ _ _ _)

theorem query_of_requestJson {request request' : CaptureQueryRequest}
    (h : requestJson request = requestJson request') : request.query = request'.query := by
  simp only [requestJson, Json.obj.injEq, List.cons.injEq, Prod.mk.injEq, true_and] at h
  have hquery := h.2.1
  cases hq : request.query with
  | none =>
      cases hq' : request'.query with
      | none => rfl
      | some text => simp [hq, hq'] at hquery
  | some text =>
      cases hq' : request'.query with
      | none => simp [hq, hq'] at hquery
      | some text' => simpa [hq, hq'] using hquery

theorem readRank_rankJson (hranked : rank.isSome = request.query.isSome) :
    readRank request (rankJson rank) = .ok (rank.map .decimal) := by
  cases rank with
  | none =>
      have hquery : request.query.isSome = false := hranked.symm
      rw [rankJson, Option.elim_none, readRank, hquery, if_neg Bool.false_ne_true]
      rfl
  | some value =>
      have hquery : request.query.isNone = false := by
        rw [Option.isNone_eq_false_iff]
        exact hranked.symm
      rw [rankJson, Option.elim_some, readRank, hquery, if_neg Bool.false_ne_true,
        dif_pos value.places_pos]
      rfl

/-- The data of a cursor is read under the requests that are its own. -/
theorem readCursor_sortedData (request' : CaptureQueryRequest)
    (hvalid : ValidPosition request itemId rank) :
    readCursor (sortedData request createdAt itemId rank) request' =
      if requestJson request = requestJson request' then
        .ok ⟨(createdAt.wall, createdAt.offset), itemId, rank.map .decimal⟩
      else .error .captureCursorError := by
  obtain ⟨⟨id, rfl⟩, hranked⟩ := hvalid
  have hkeys : ∀ a b c : Json, Json.hasKeys [("position", a), ("request", b), ("v", c)]
      ["v", "request", "position"] = true := fun _ _ _ => rfl
  have hkeys' : ∀ a b c : Json, Json.hasKeys [("created_at", a), ("id", b), ("rank", c)]
      ["created_at", "id", "rank"] = true := fun _ _ _ => rfl
  have hone : Json.equal (.int 1) (.int 1) = true := by decide
  by_cases h : requestJson request = requestJson request'
  · have hequal := equal_sortedRequest.mpr h
    have hread := readRank_rankJson request' rank (query_of_requestJson h ▸ hranked)
    rw [if_pos h]
    simp [readCursor, sortedData, Json.field?, hkeys, hkeys', hone, hequal, itemText,
      Aware.fromisoformat_isoformat, Uuid.isUuid_text, hread, Except.map]
  · have hequal : Json.equal (sortedRequest request) (requestJson request') = false :=
      Bool.eq_false_iff.mpr fun he => h (equal_sortedRequest.mp he)
    rw [if_neg h]
    simp [readCursor, sortedData, Json.field?, hkeys, hone, hequal]

/-- What is authenticated with the text. -/
def aadJson (salt : Bytes) : Json :=
  .obj [("domain", .str domain), ("iterations", .int iterations),
    ("salt", .str (String.ofList (Base64.padded (Base64.encode salt)))), ("v", .int 1)]

theorem aad_eq (salt : Bytes) :
    aad salt = utf8 (String.ofList (Json.render Json.compact (aadJson salt))) := by
  have hsort : (aadJson salt).sortKeys = aadJson salt := by
    simp [aadJson, Json.sortKeys, Json.sortFields, List.insertionSort]
  rw [aad, ← aadJson, Json.canonical, hsort]

theorem readable_aad (salt : Bytes) : (aadJson salt).Readable := by
  simp [aadJson, Json.Readable, Json.ReadableFields]

/-! ## The size of a cursor -/

/-- What of a cursor's text depends on what it is written from, in bytes. -/
def variableWidth : Nat :=
  Json.dumpsLen (request.query.elim .null .str) + Json.dumpsLen (.str createdAt.isoformat) +
    Json.dumpsLen (rankJson rank) + Json.dumpsLen (.int request.pageSize) +
    (if request.projectId.isSome then 53 else 19) + (if request.query.isSome then 28 else 15) +
    (request.states.map fun state => (stateValue state).length + 3).sum

theorem dumpsLen_scopeJson (projectId : Option Uuid) :
    Json.dumpsLen (scopeJson projectId) = if projectId.isSome then 53 else 19 := by
  cases projectId with
  | none => decide
  | some id =>
      have hkey : Json.dumpsLen (.str "project_id") = 12 := by decide
      simp [scopeJson, Json.dumpsLen_obj, hkey, Uuid.dumpsLen_text]

theorem dumpsLen_states (states : List CaptureState) (hne : states ≠ []) :
    Json.dumpsLen (Json.sortedTexts (states.map stateValue)) =
      1 + (states.map fun state => (stateValue state).length + 3).sum := by
  have hone : ∀ state, Json.dumpsLen (.str (stateValue state)) + 1 =
      (stateValue state).length + 3 := by
    intro state
    cases state <;> decide
  have hpos : 1 ≤ (states.map fun state => (stateValue state).length + 3).sum := by
    cases states with
    | nil => exact absurd rfl hne
    | cons state rest =>
        rw [List.map_cons, List.sum_cons]
        omega
  rw [Json.dumpsLen_sortedTexts, List.map_map]
  simp only [Function.comp_def, hone]
  omega

theorem dumpsLen_ordering (query : Option String) (h : ∀ text ∈ query, NormalizedQuery text) :
    Json.dumpsLen (.str (if query.any fun text => text ≠ "" then
      "lexical-rank-created-id-v1" else "created-id-v1")) =
        if query.isSome then 28 else 15 := by
  cases query with
  | none => decide
  | some text =>
      have hne : text ≠ "" := by
        rintro rfl
        exact absurd (h "" rfl).length.1 (by decide)
      have hany : (some text).any (fun text => decide (text ≠ "")) = true := by
        simp [hne]
      rw [if_pos hany, Option.isSome_some, if_pos rfl]
      decide

/-- The names of the fields, quoted. -/
theorem dumpsLen_names :
    (Json.dumpsLen (.str "position") = 10 ∧ Json.dumpsLen (.str "request") = 9 ∧
      Json.dumpsLen (.str "v") = 3 ∧ Json.dumpsLen (.int 1) = 1) ∧
    (Json.dumpsLen (.str "created_at") = 12 ∧ Json.dumpsLen (.str "id") = 4 ∧
      Json.dumpsLen (.str "rank") = 6) ∧
    Json.dumpsLen (.str "ordering") = 10 ∧ Json.dumpsLen (.str "page_size") = 11 ∧
      Json.dumpsLen (.str "query") = 7 ∧ Json.dumpsLen (.str "scope") = 7 ∧
      Json.dumpsLen (.str "states") = 8 := by decide

theorem length_payload (hvalid : ValidPosition request itemId rank) :
    (payload (cursorData request createdAt itemId rank)).length =
      variableWidth request createdAt rank + 152 := by
  obtain ⟨⟨id, rfl⟩, -⟩ := hvalid
  obtain ⟨⟨hposition, hrequest, hv, hone⟩, ⟨hcreated, hid, hrank⟩, hordering, hpage, hquery,
    hscope, hstates⟩ := dumpsLen_names
  have hoctets : (payload (cursorData request createdAt id.text rank)).length =
      Json.dumpsLen (sortedData request createdAt id.text rank) := by
    rw [payload, Json.canonical, length_utf8_ofList, sortKeys_cursorData]
    rfl
  rw [hoctets]
  simp only [sortedData, sortedRequest, Json.dumpsLen_obj, List.map_cons, List.map_nil,
    List.sum_cons, List.sum_nil, hposition, hrequest, hv, hone, hcreated, hid, hrank, hordering,
    hpage, hquery, hscope, hstates, Uuid.dumpsLen_text, dumpsLen_scopeJson,
    dumpsLen_ordering request.query request.query_normalized,
    dumpsLen_states request.states request.states_unique.1, variableWidth]
  omega

/-- A token of the inbox has at most as many characters as are read. -/
def Fits : Prop := variableWidth request createdAt rank ≤ 1340

instance : Decidable (Fits request createdAt rank) := Nat.decLe _ _

end

/-! ## What is issued is read -/

section

variable {r} {Issued : r.Key → Bytes → Bytes → Bytes → Prop} (hideal : r.aead.Ideal Issued)

include hideal

section

variable {request : CaptureQueryRequest} {createdAt : Aware} {itemId : String}
  {rank : Option Rank} {secret : String} {draw : RandomBytes}
  (hvalid : ValidPosition request itemId rank)

include hvalid

theorem length_encodeCursor_le :
    (encodeCursor r request createdAt itemId rank secret draw).length ≤ maxCursorCharacters ↔
      Fits request createdAt rank := by
  have hpayload := length_payload request createdAt itemId rank hvalid
  rw [encodeCursor, Sealed.length_token, Keyring.seal, hideal.size, hpayload, maxCursorCharacters,
    Fits]
  omega

theorem decodeCursor_encodeCursor
    (hissued : Issued (key r secret draw.salt) draw.nonce
      (payload (cursorData request createdAt itemId rank)) (aad draw.salt))
    (request' : CaptureQueryRequest) :
    decodeCursor r (encodeCursor r request createdAt itemId rank secret draw) request' secret =
      if Fits request createdAt rank ∧ requestJson request = requestJson request' then
        .ok ⟨(createdAt.wall, createdAt.offset), itemId, rank.map .decimal⟩
      else .error .captureCursorError := by
  have hfits : (encodeCursor r request createdAt itemId rank secret draw).length ≤
      maxCursorCharacters ↔ Fits request createdAt rank := length_encodeCursor_le hideal hvalid
  unfold decodeCursor
  by_cases h : Fits request createdAt rank
  · have htag : tagBytes < (r.seal (key r secret draw.salt) draw
        (payload (cursorData request createdAt itemId rank)) (aad draw.salt)).ciphertext.length := by
      rw [Keyring.seal, hideal.size, length_payload request createdAt itemId rank hvalid, tagBytes]
      omega
    rw [encodeCursor, Sealed.read_token htag (hfits.mpr h)]
    dsimp only [Keyring.seal]
    rw [hideal.opens hissued]
    dsimp only
    rw [loads_payload]
    dsimp only
    rw [readCursor_sortedData _ _ _ _ _ hvalid]
    simp only [h, true_and]
  · rw [Sealed.read_long (Nat.lt_of_not_le fun hle => h (hfits.mp hle))]
    simp only [h, false_and, if_false]

end

/-- What is sealed for the inbox are the data of its cursors. -/
def OnlyCursors (Issued : r.Key → Bytes → Bytes → Bytes → Prop) : Prop :=
  ∀ {k n p salt}, Issued k n p (aad salt) → ∃ request createdAt itemId rank,
    ValidPosition request itemId rank ∧ p = payload (cursorData request createdAt itemId rank)

/-- A text is read only as the cursor it is, and is else refused. -/
theorem decodeCursor_cases (honly : OnlyCursors Issued) (value : String)
    (request' : CaptureQueryRequest) (secret : String) :
    (∃ request createdAt itemId rank draw, ValidPosition request itemId rank ∧
      value = encodeCursor r request createdAt itemId rank secret draw ∧
      requestJson request = requestJson request' ∧
      decodeCursor r value request' secret =
        .ok ⟨(createdAt.wall, createdAt.offset), itemId, rank.map .decimal⟩) ∨
    decodeCursor r value request' secret = .error .captureCursorError := by
  unfold decodeCursor
  cases hread : Sealed.read value maxCursorCharacters with
  | none => exact .inr rfl
  | some s =>
      obtain ⟨hvalue, -, -⟩ := Sealed.token_of_read hread
      dsimp only
      cases hdecrypt : r.aead.decrypt (key r secret s.salt) s.nonce s.ciphertext (aad s.salt) with
      | none => exact .inr rfl
      | some bytes =>
          obtain ⟨hcipher, hissued⟩ := hideal.authentic hdecrypt
          obtain ⟨request, createdAt, itemId, rank, hvalid, rfl⟩ := honly hissued
          dsimp only
          rw [loads_payload]
          dsimp only
          rw [readCursor_sortedData _ _ _ _ _ hvalid]
          by_cases h : requestJson request = requestJson request'
          · rw [if_pos h]
            refine .inl ⟨request, createdAt, itemId, rank, s.toRandomBytes, hvalid, ?_, h, rfl⟩
            rw [hvalue, encodeCursor, Keyring.seal, ← hcipher]
          · rw [if_neg h]
            exact .inr rfl

end

end CaptureTokens

end Knowledge

end SecondBrain
