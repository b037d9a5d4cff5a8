import SecondBrain.ContextHub.Tokens
import SecondBrain.Uuids

/-!
# Cursors are read as they are written

The data of a cursor is read under the requests with its canonical form, and then as the
positions and the flags it was written from. Its size is a sum over what it is written from.
-/

namespace SecondBrain

open Lib

namespace ContextHub

variable (v : Scalars)

/-! ## Fields in the order of their names -/

theorem sortKeys_scope (scope : ContextScope) : scope.dump.sortKeys = scope.dump := by
  have hproject : (scope.projectId.elim Json.null fun id => .str id.text).sortKeys =
      scope.projectId.elim .null fun id => .str id.text := by
    cases scope.projectId with
    | none => rfl
    | some id => rfl
  simp [ContextScope.dump, Json.sortKeys, Json.sortFields, List.insertionSort, hproject]

theorem readable_scope (scope : ContextScope) : scope.dump.Readable := by
  have hproject : Json.Readable (scope.projectId.elim Json.null fun id => .str id.text) := by
    cases scope.projectId with
    | none => trivial
    | some id => trivial
  simp [ContextScope.dump, Json.Readable, Json.ReadableFields, hproject]

section

variable (request : ContextHubQuery)

def sortedRequest : Json :=
  .obj [("contract", .str contractVersion),
    ("families", Json.sortedTexts (request.families.map (·.value))),
    ("kinds", Json.sortedTexts (request.kinds.map (·.value))),
    ("ordering", .str orderingMode), ("page_size", .int request.pageSize),
    ("query", .str request.query), ("scope", request.scope.dump),
    ("states", Json.sortedTexts (request.states.map (·.value))),
    ("trust", Json.sortedTexts (request.trust.map (·.value)))]

theorem sortKeys_canonicalRequest :
    (canonicalRequest request).sortKeys = sortedRequest request := by
  simp [canonicalRequest, sortedRequest, Json.sortKeys, Json.sortFields, List.insertionSort,
    sortKeys_scope]

theorem sortKeys_sortedRequest : (sortedRequest request).sortKeys = sortedRequest request := by
  simp [sortedRequest, Json.sortKeys, Json.sortFields, List.insertionSort, sortKeys_scope]

theorem readable_sortedRequest : (sortedRequest request).Readable := by
  simp [sortedRequest, Json.Readable, Json.ReadableFields, readable_scope]

end

theorem worth_scope_injective {a b : ContextScope} (h : a.dump.worth = b.dump.worth) :
    a.dump = b.dump := by
  simp only [ContextScope.dump, Json.worth, Json.worthFields, Json.obj.injEq, List.cons.injEq,
    Prod.mk.injEq, true_and, and_true] at h ⊢
  obtain ⟨hproject, hunassigned⟩ := h
  constructor
  · cases ha : a.projectId <;> cases hb : b.projectId <;> simp_all [Json.worth]
  · cases ha : a.unassigned <;> cases hb : b.unassigned <;> simp_all

/-- A request that was read equals another only where it is the other. -/
theorem equal_sortedRequest {request request' : ContextHubQuery} :
    Json.equal (sortedRequest request) (canonicalRequest request') = true ↔
      canonicalRequest request = canonicalRequest request' := by
  rw [Json.equal, sortKeys_sortedRequest, sortKeys_canonicalRequest, decide_eq_true_eq]
  constructor
  · intro h
    simp only [sortedRequest, Json.worth, Json.worthFields, Json.worth_sortedTexts,
      Json.obj.injEq, List.cons.injEq, Prod.mk.injEq, true_and, and_true] at h
    obtain ⟨hfamilies, hkinds, hsize, hquery, hscope, hstates, htrust⟩ := h
    simp only [canonicalRequest, hfamilies, hkinds, hsize, hquery, worth_scope_injective hscope,
      hstates, htrust]
  · intro h
    rw [← sortKeys_canonicalRequest, ← sortKeys_canonicalRequest, h]

/-! ## Positions -/

def sortedPosition : ContextPosition → Json
  | .localSource p =>
      .obj [("chunk_id", .str p.chunkId.text), ("chunk_index", .int p.chunkIndex),
        ("family", .str ContextFamily.localSource.value),
        ("source_created_at", .str (v.datetimeText p.sourceCreatedAt)),
        ("source_id", .str p.sourceId.text)]
  | .github p =>
      .obj [("application_revision", .int p.applicationRevision),
        ("family", .str ContextFamily.github.value), ("revision_id", .str p.revisionId.text)]
  | .googleCalendar p =>
      .obj [("application_revision", .int p.applicationRevision),
        ("family", .str ContextFamily.googleCalendar.value),
        ("revision_id", .str p.revisionId.text)]

theorem sortKeys_position (p : ContextPosition) : (p.dump v).sortKeys = sortedPosition v p := by
  cases p <;>
    simp [ContextPosition.dump, sortedPosition, Json.sortKeys, Json.sortFields, List.insertionSort]

theorem readable_position (p : ContextPosition) : (sortedPosition v p).Readable := by
  cases p <;> simp [sortedPosition, Json.Readable, Json.ReadableFields]

variable {v}

/-- Its time, where it has one, is that of a clock. -/
def Dated : ContextPosition → Prop
  | .localSource p => ∃ w : Wall, p.sourceCreatedAt = w.number
  | _ => True

/-- What is dumped is validated as what it was dumped from. -/
theorem validate_sortedPosition (hv : v.Lawful) {p : ContextPosition} (hdated : Dated p) :
    ContextPosition.validate v (sortedPosition v p) = some p := by
  cases p with
  | localSource p =>
      obtain ⟨w, hw⟩ := hdated
      have htime : v.datetime (.str (v.datetimeText p.sourceCreatedAt)) =
          some p.sourceCreatedAt := hw ▸ hv.datetime w
      have hkeys : ∀ a b c d e : Json, Json.hasKeys [("chunk_id", a), ("chunk_index", b),
          ("family", c), ("source_created_at", d), ("source_id", e)]
          ["family", "source_created_at", "source_id", "chunk_index", "chunk_id"] = true :=
        fun _ _ _ _ _ => rfl
      simp [ContextPosition.validate, sortedPosition, Json.field?, hkeys, htime, hv.uuid, hv.int]
  | github p =>
      have hkeys : ∀ a b c : Json, Json.hasKeys [("application_revision", a), ("family", b),
          ("revision_id", c)] ["family", "application_revision", "revision_id"] = true :=
        fun _ _ _ => rfl
      simp [ContextPosition.validate, sortedPosition, Json.field?, hkeys, hv.uuid, hv.int]
  | googleCalendar p =>
      have hkeys : ∀ a b c : Json, Json.hasKeys [("application_revision", a), ("family", b),
          ("revision_id", c)] ["family", "application_revision", "revision_id"] = true :=
        fun _ _ _ => rfl
      simp [ContextPosition.validate, sortedPosition, Json.field?, hkeys, hv.uuid, hv.int]

/-! ## Maps over the families -/

/-- A position and a flag for each family of the request and for no other, the position one
of the family and of a time that a clock can show. -/
structure ValidMaps (request : ContextHubQuery) (positions : Positions) (exhausted : Flags) :
    Prop where
  placed : ∀ family, (positions family).isSome = request.families.contains family
  flagged : ∀ family, (exhausted family).isSome = request.families.contains family
  own : ∀ (family : ContextFamily) (p : ContextPosition),
    positions family = some (some p) → p.family = family ∧ Dated p

section

variable (v) (positions : Positions) (exhausted : Flags)

def groupOf (family : ContextFamily) : Json :=
  group v family ((exhausted family).getD false) ((positions family).getD none)

def sortedGroup (family : ContextFamily) : Json :=
  .obj [("exhausted", .bool ((exhausted family).getD false)), ("family", .str family.value),
    ("position", ((positions family).getD none).elim .null (sortedPosition v))]

theorem sortKeys_group (family : ContextFamily) :
    (groupOf v positions exhausted family).sortKeys = sortedGroup v positions exhausted family := by
  have hposition : (((positions family).getD none).elim Json.null
      (ContextPosition.dump v)).sortKeys =
        ((positions family).getD none).elim .null (sortedPosition v) := by
    cases (positions family).getD none with
    | none => rfl
    | some p => exact sortKeys_position v p
  simp [groupOf, group, sortedGroup, Json.sortKeys, Json.sortFields, List.insertionSort,
    hposition]

theorem readable_group (family : ContextFamily) :
    (sortedGroup v positions exhausted family).Readable := by
  have hposition : Json.Readable
      (((positions family).getD none).elim Json.null (sortedPosition v)) := by
    cases (positions family).getD none with
    | none => trivial
    | some p => exact readable_position v p
  simp [sortedGroup, Json.Readable, Json.ReadableFields, hposition]

theorem sortItems_groups (families : List ContextFamily) :
    Json.sortItems (families.map (groupOf v positions exhausted)) =
      families.map (sortedGroup v positions exhausted) := by
  induction families with
  | nil => rfl
  | cons family rest ih =>
      rw [List.map_cons, List.map_cons, Json.sortItems, ih, sortKeys_group]

theorem readable_groups (families : List ContextFamily) :
    Json.ReadableItems (families.map (sortedGroup v positions exhausted)) := by
  induction families with
  | nil => trivial
  | cons family rest ih => exact ⟨readable_group v positions exhausted family, ih⟩

end

section

variable {request : ContextHubQuery} {positions : Positions} {exhausted : Flags}
  (hvalid : ValidMaps request positions exhausted)

include hvalid

theorem ValidMaps.position {family : ContextFamily} (h : family ∈ request.families) :
    positions family = some ((positions family).getD none) := by
  have hsome := hvalid.placed family
  rw [List.contains_iff_mem.mpr h, Option.isSome_iff_exists] at hsome
  obtain ⟨position, hposition⟩ := hsome
  rw [hposition, Option.getD_some]

theorem ValidMaps.flag {family : ContextFamily} (h : family ∈ request.families) :
    exhausted family = some ((exhausted family).getD false) := by
  have hsome := hvalid.flagged family
  rw [List.contains_iff_mem.mpr h, Option.isSome_iff_exists] at hsome
  obtain ⟨flag, hflag⟩ := hsome
  rw [hflag, Option.getD_some]

theorem ValidMaps.outside {family : ContextFamily} (h : family ∉ request.families) :
    positions family = none ∧ exhausted family = none := by
  have hcontains : request.families.contains family = false := by
    simpa using h
  have hp := hvalid.placed family
  have he := hvalid.flagged family
  rw [hcontains, Option.isSome_eq_false_iff, Option.isNone_iff_eq_none] at hp he
  exact ⟨hp, he⟩

/-- One group, of a family that has not been read yet. -/
theorem readGroups_cons (hv : v.Lawful) {family : ContextFamily} {wanted : List ContextFamily}
    (hmem : family ∈ request.families) (hwanted : family ∈ wanted) {read : Positions}
    {flags : Flags} (hnew : read family = none) (rest : List Json) :
    readGroups v wanted (sortedGroup v positions exhausted family :: rest) read flags =
      readGroups v wanted rest (Function.update read family (positions family))
        (Function.update flags family (exhausted family)) := by
  have hposition := hvalid.position hmem
  have hflag := hvalid.flag hmem
  have hkeys : ∀ a b c : Json, Json.hasKeys [("exhausted", a), ("family", b), ("position", c)]
      ["family", "exhausted", "position"] = true := fun _ _ _ => rfl
  have hdumped : (if ((positions family).getD none).elim Json.null (sortedPosition v) = .null
      then some none
      else (ContextPosition.validate v
        (((positions family).getD none).elim .null (sortedPosition v))).map some) =
        some ((positions family).getD none) := by
    cases hp : (positions family).getD none with
    | none => rfl
    | some p =>
        have hne : sortedPosition v p ≠ .null := by cases p <;> simp [sortedPosition]
        rw [hp] at hposition
        rw [Option.elim_some, if_neg hne,
          validate_sortedPosition hv (hvalid.own family p hposition).2, Option.map_some]
  have hown : (((positions family).getD none).any fun p => p.family != family) = false := by
    cases hp : (positions family).getD none with
    | none => rfl
    | some p =>
        rw [hp] at hposition
        rw [Option.any_some, (hvalid.own family p hposition).1, bne_self_eq_false]
  rw [hposition, hflag]
  simp only [readGroups, sortedGroup, hkeys, Json.field?, List.find?_cons, Bool.not_true,
    Bool.false_eq_true, if_false, beq_self_eq_true, String.reduceBEq, Option.map_some,
    ContextFamily.ofValue?_value, hnew, Option.isSome_none, Bool.or_false, hdumped, hown,
    List.contains_iff_mem.mpr hwanted]

/-- The families that are still to be read are new, and are read one after another. -/
theorem readGroups_groups (hv : v.Lawful) {families wanted : List ContextFamily}
    (hnodup : families.Nodup) (hin : ∀ family ∈ families, family ∈ request.families)
    (hwanted : ∀ family ∈ families, family ∈ wanted) (read : Positions) (flags : Flags)
    (hnew : ∀ family ∈ families, read family = none) :
    readGroups v wanted (families.map (sortedGroup v positions exhausted)) read flags =
      .ok (fun family => if family ∈ families then positions family else read family,
        fun family => if family ∈ families then exhausted family else flags family) := by
  induction families generalizing read flags with
  | nil => simp [readGroups]
  | cons family rest ih =>
      obtain ⟨hfresh, hrest⟩ := List.nodup_cons.mp hnodup
      have hne : ∀ f ∈ rest, f ≠ family := fun f hf he => hfresh (he ▸ hf)
      rw [List.map_cons, readGroups_cons hvalid hv (hin family List.mem_cons_self)
        (hwanted family List.mem_cons_self) (hnew family List.mem_cons_self)]
      rw [ih hrest (fun f hf => hin f (List.mem_cons_of_mem _ hf))
        (fun f hf => hwanted f (List.mem_cons_of_mem _ hf)) _ _ fun f hf => by
          rw [Function.update_of_ne (hne f hf)]
          exact hnew f (List.mem_cons_of_mem _ hf)]
      congr 2
      · funext f
        by_cases hf : f = family
        · subst hf
          simp [hfresh]
        · simp [hf]
      · funext f
        by_cases hf : f = family
        · subst hf
          simp [hfresh]
        · simp [hf]

end

/-! ## The data of a cursor -/

section

variable (v) (request : ContextHubQuery) (positions : Positions) (exhausted : Flags)

def sortedData : Json :=
  .obj [("groups", .arr (request.families.map (sortedGroup v positions exhausted))),
    ("request", sortedRequest request), ("v", .int 1)]

theorem sortKeys_cursorData :
    (cursorData request (request.families.map (groupOf v positions exhausted))).sortKeys =
      sortedData v request positions exhausted := by
  simp [cursorData, sortedData, Json.sortKeys, Json.sortFields, List.insertionSort,
    sortKeys_canonicalRequest, sortItems_groups]

theorem readable_sortedData : (sortedData v request positions exhausted).Readable := by
  simp [sortedData, Json.Readable, Json.ReadableFields, readable_sortedRequest, readable_groups]

end

theorem sortedTexts_injective {a b : List String} (h : Json.sortedTexts a = Json.sortedTexts b) :
    a.Perm b := by
  have hmap := Json.arr.inj h
  have hsorted : a.insertionSort (· ≤ ·) = b.insertionSort (· ≤ ·) :=
    List.map_injective_iff.mpr (fun _ _ he => Json.str.inj he) hmap
  exact (List.perm_insertionSort (· ≤ ·) a).symm.trans
    (hsorted ▸ List.perm_insertionSort (· ≤ ·) b)

theorem value_injective : Function.Injective ContextFamily.value := by
  intro a b h
  have hb := ContextFamily.ofValue?_value b
  rw [← h, ContextFamily.ofValue?_value] at hb
  exact Option.some.inj hb

/-- Requests with one canonical form have the same families. -/
theorem families_perm {request request' : ContextHubQuery}
    (h : canonicalRequest request = canonicalRequest request') :
    request.families.Perm request'.families := by
  simp only [canonicalRequest, Json.obj.injEq, List.cons.injEq, Prod.mk.injEq, true_and] at h
  exact (List.map_perm_map_iff value_injective).mp (sortedTexts_injective h.2.2.1)

/-- The data of a cursor is read under the requests that are its own. -/
theorem readCursor_sortedData (hv : v.Lawful) {request : ContextHubQuery} {positions : Positions}
    {exhausted : Flags} (hvalid : ValidMaps request positions exhausted)
    (request' : ContextHubQuery) :
    readCursor v (sortedData v request positions exhausted) request' =
      if canonicalRequest request = canonicalRequest request' then .ok (positions, exhausted)
      else .error .contextTokenError := by
  have hkeys : ∀ a b c : Json, Json.hasKeys [("groups", a), ("request", b), ("v", c)]
      ["v", "request", "groups"] = true := fun _ _ _ => rfl
  have hone : Json.equal (.int 1) (.int 1) = true := by decide
  by_cases h : canonicalRequest request = canonicalRequest request'
  · have hperm := families_perm h
    have hequal := equal_sortedRequest.mpr h
    have hread := readGroups_groups hvalid hv request.compatible.families.2 (fun _ hf => hf)
      (fun _ hf => hperm.mem_iff.mp hf) (fun _ => none) (fun _ => none) (fun _ _ => rfl)
    have hpositions : (fun family => if family ∈ request.families then positions family else none) =
        positions := by
      funext family
      by_cases hf : family ∈ request.families
      · rw [if_pos hf]
      · rw [if_neg hf, (hvalid.outside hf).1]
    have hflags : (fun family => if family ∈ request.families then exhausted family else none) =
        exhausted := by
      funext family
      by_cases hf : family ∈ request.families
      · rw [if_pos hf]
      · rw [if_neg hf, (hvalid.outside hf).2]
    have hkept : (familyOrder.all fun family =>
        (positions family).isSome == request'.families.contains family) = true := by
      rw [List.all_eq_true]
      intro family _
      have hmem : request.families.contains family = request'.families.contains family :=
        Bool.eq_iff_iff.mpr (by
          rw [List.contains_iff_mem, List.contains_iff_mem, hperm.mem_iff])
      rw [hvalid.placed family, hmem, beq_self_eq_true]
    rw [hpositions, hflags] at hread
    rw [if_pos h]
    simp only [readCursor, sortedData, Json.field?, hkeys, hone, hequal, hread,
      List.find?_cons, beq_self_eq_true, String.reduceBEq, Option.map_some, Option.any_some,
      Bool.not_true, Bool.or_self, Bool.false_eq_true, if_false, List.length_map,
      hperm.length_eq, ne_eq, not_true_eq_false]
    exact if_pos hkept
  · have hequal : Json.equal (sortedRequest request) (canonicalRequest request') = false :=
      Bool.eq_false_iff.mpr fun he => h (equal_sortedRequest.mp he)
    rw [if_neg h]
    simp only [readCursor, sortedData, Json.field?, hkeys, hone, hequal, List.find?_cons,
      beq_self_eq_true, String.reduceBEq, Option.map_some, Option.any_some, Bool.not_true,
      Bool.or_self, Bool.false_eq_true, if_false, Bool.not_false, if_true]

/-! ## Sealed objects -/

/-- The object with its fields in the order of their names. -/
def wrapped (domain : String) (data : Json) : Json :=
  .obj [("data", data), ("domain", .str domain), ("iterations", .int pbkdf2Iterations),
    ("kdf", .str kdfName), ("token_version", .int tokenVersion)]

theorem payload_eq (domain : String) (value : Json) :
    payload domain value =
      utf8 (String.ofList (Json.render Json.compact (wrapped domain value.sortKeys))) := by
  have hsort : (Json.obj (metadata domain ++ [("data", value)])).sortKeys =
      wrapped domain value.sortKeys := by
    simp [metadata, wrapped, Json.sortKeys, Json.sortFields, List.insertionSort]
  rw [payload, Json.canonical, hsort]

theorem loads_payload {domain : String} {value : Json} (h : value.sortKeys.Readable) :
    (ofUtf8? (payload domain value)).bind Json.loads = some (wrapped domain value.sortKeys) := by
  rw [payload_eq, ofUtf8?_utf8, Option.bind_some]
  apply Json.loads_render Json.compact_legible
  simp [wrapped, Json.Readable, Json.ReadableFields, h]

theorem length_payload (domain : String) (value : Json) :
    (payload domain value).length = Json.dumpsLen (wrapped domain value.sortKeys) := by
  rw [payload_eq, length_utf8_ofList, Json.dumpsLen]

theorem unwrap_wrapped (domain : String) (fields : List (String × Json)) :
    unwrap (wrapped domain (.obj fields)) domain = .ok (.obj fields) := by
  have hkeys : ∀ a b c d e : Json, Json.hasKeys [("data", a), ("domain", b), ("iterations", c),
      ("kdf", d), ("token_version", e)]
      ["token_version", "domain", "kdf", "iterations", "data"] = true := fun _ _ _ _ _ => rfl
  have hequal : ∀ j : Json, Json.equal j j = true := fun j => decide_eq_true rfl
  simp only [unwrap, wrapped, metadata, hkeys, Json.field?, List.find?_cons, List.all_cons,
    List.all_nil, beq_self_eq_true, String.reduceBEq, Option.map_some, Option.any_some, hequal,
    Bool.and_self, Bool.not_true, Bool.or_self, Bool.false_eq_true, if_false]

/-- What is authenticated with the text, with its fields in the order of their names. -/
def sortedAad (domain : String) (salt : Bytes) : Json :=
  .obj [("domain", .str domain), ("iterations", .int pbkdf2Iterations), ("kdf", .str kdfName),
    ("salt", .str (String.ofList (Base64.padded (Base64.encode salt)))),
    ("token_version", .int tokenVersion)]

theorem aad_eq (domain : String) (salt : Bytes) :
    aad domain salt =
      utf8 (String.ofList (Json.render Json.compact (sortedAad domain salt))) := by
  have hsort : (Json.obj (metadata domain ++
      [("salt", .str (String.ofList (Base64.padded (Base64.encode salt))))])).sortKeys =
        sortedAad domain salt := by
    simp [metadata, sortedAad, Json.sortKeys, Json.sortFields, List.insertionSort]
  rw [aad, Json.canonical, hsort]

theorem readable_aad (domain : String) (salt : Bytes) : (sortedAad domain salt).Readable := by
  simp [sortedAad, Json.Readable, Json.ReadableFields]

/-- The data that are authenticated name the domain. -/
theorem aad_injective {domain domain' : String} {salt salt' : Bytes}
    (h : aad domain salt = aad domain' salt') : domain = domain' := by
  rw [aad_eq, aad_eq] at h
  have hjson := Json.render_injective Json.compact_legible (readable_aad _ _) (readable_aad _ _)
    (String.ofList_injective (utf8_injective h))
  simp only [sortedAad, Json.obj.injEq, List.cons.injEq, Prod.mk.injEq, true_and,
    Json.str.injEq] at hjson
  exact hjson.1

/-! ## The size of a cursor -/

/-- What a list of filters takes, with a quote at either end of each and what follows it. -/
def filterWidth (texts : List String) : Nat := max 1 (texts.map fun text => text.length + 3).sum

section

variable (v) (request : ContextHubQuery) (positions : Positions) (exhausted : Flags)

def positionWidth : Option ContextPosition → Nat
  | none => 4
  | some (.localSource p) =>
      162 + Json.dumpsLen (.int p.chunkIndex) +
        Json.dumpsLen (.str (v.datetimeText p.sourceCreatedAt))
  | some (.github p) => 96 + Json.dumpsLen (.int p.applicationRevision)
  | some (.googleCalendar p) => 105 + Json.dumpsLen (.int p.applicationRevision)

def groupWidth (family : ContextFamily) : Nat :=
  39 + (if (exhausted family).getD false then 4 else 5) + family.value.length +
    positionWidth v ((positions family).getD none)

/-- What of a cursor's text depends on what it is written from, in bytes. -/
def variableWidth : Nat :=
  Json.dumpsLen (.str request.query) + Json.dumpsLen (.int request.pageSize) +
    (if request.scope.projectId.isSome then 72 else 37) +
    filterWidth (request.families.map (·.value)) + filterWidth (request.kinds.map (·.value)) +
    filterWidth (request.trust.map (·.value)) + filterWidth (request.states.map (·.value)) +
    (request.families.map (groupWidth v positions exhausted)).sum

/-- A cursor has at most as many characters as are read. -/
def Fits : Prop := variableWidth v request positions exhausted ≤ 2745

instance : Decidable (Fits v request positions exhausted) := Nat.decLe _ _

end

theorem dumpsLen_filters (texts : List String)
    (h : ∀ text ∈ texts, Json.dumpsLen (.str text) = text.length + 2) :
    Json.dumpsLen (Json.sortedTexts texts) = 1 + filterWidth texts := by
  have hmap : texts.map (fun text => Json.dumpsLen (.str text) + 1) =
      texts.map fun text => text.length + 3 :=
    List.map_congr_left fun text ht => by rw [h text ht]
  rw [Json.dumpsLen_sortedTexts, hmap, filterWidth]

theorem dumpsLen_family (family : ContextFamily) :
    Json.dumpsLen (.str family.value) = family.value.length + 2 := by
  cases family <;> decide

theorem dumpsLen_families (families : List ContextFamily) :
    Json.dumpsLen (Json.sortedTexts (families.map (·.value))) =
      1 + filterWidth (families.map (·.value)) := by
  apply dumpsLen_filters
  intro text htext
  obtain ⟨family, -, rfl⟩ := List.mem_map.mp htext
  exact dumpsLen_family family

theorem dumpsLen_kinds (kinds : List ContextKind) :
    Json.dumpsLen (Json.sortedTexts (kinds.map (·.value))) =
      1 + filterWidth (kinds.map (·.value)) := by
  apply dumpsLen_filters
  intro text htext
  obtain ⟨kind, -, rfl⟩ := List.mem_map.mp htext
  cases kind <;> decide

theorem dumpsLen_trust (trust : List TrustLabel) :
    Json.dumpsLen (Json.sortedTexts (trust.map (·.value))) =
      1 + filterWidth (trust.map (·.value)) := by
  apply dumpsLen_filters
  intro text htext
  obtain ⟨label, -, rfl⟩ := List.mem_map.mp htext
  cases label <;> decide

theorem dumpsLen_states (states : List ContextState) :
    Json.dumpsLen (Json.sortedTexts (states.map (·.value))) =
      1 + filterWidth (states.map (·.value)) := by
  apply dumpsLen_filters
  intro text htext
  obtain ⟨state, -, rfl⟩ := List.mem_map.mp htext
  cases state <;> decide

theorem dumpsLen_scope (scope : ContextScope) :
    Json.dumpsLen scope.dump = if scope.projectId.isSome then 72 else 37 := by
  have hproject : Json.dumpsLen (.str "project_id") = 12 := by decide
  have hunassigned : Json.dumpsLen (.str "unassigned") = 12 := by decide
  have htrue : Json.dumpsLen (.bool true) = 4 := by decide
  have hfalse : Json.dumpsLen (.bool false) = 5 := by decide
  have hnull : Json.dumpsLen .null = 4 := by decide
  rw [ContextScope.dump, scope.exact_scope]
  cases scope.projectId with
  | none =>
      simp [Json.dumpsLen_obj, hproject, hunassigned, htrue, hnull]
  | some id =>
      simp [Json.dumpsLen_obj, hproject, hunassigned, hfalse, Uuid.dumpsLen_text]

/-- The names of the fields of positions and groups, quoted. -/
theorem dumpsLen_groupNames :
    (Json.dumpsLen (.str "chunk_id") = 10 ∧ Json.dumpsLen (.str "chunk_index") = 13 ∧
      Json.dumpsLen (.str "source_created_at") = 19 ∧ Json.dumpsLen (.str "source_id") = 11) ∧
    (Json.dumpsLen (.str "application_revision") = 22 ∧
      Json.dumpsLen (.str "revision_id") = 13) ∧
    Json.dumpsLen (.str "exhausted") = 11 ∧ Json.dumpsLen (.str "family") = 8 ∧
      Json.dumpsLen (.str "position") = 10 := by decide

theorem dumpsLen_position (position : Option ContextPosition) :
    Json.dumpsLen (position.elim .null (sortedPosition v)) = positionWidth v position := by
  obtain ⟨⟨hchunk, hindex, hcreated, hsource⟩, ⟨happlication, hrevision⟩, -, hfamily, -⟩ :=
    dumpsLen_groupNames
  have hlocal : Json.dumpsLen (.str ContextFamily.localSource.value) = 14 := by decide
  have hgithub : Json.dumpsLen (.str ContextFamily.github.value) = 8 := by decide
  have hcalendar : Json.dumpsLen (.str ContextFamily.googleCalendar.value) = 17 := by decide
  cases position with
  | none =>
      rw [Option.elim_none, positionWidth]
      decide
  | some p =>
      cases p with
      | localSource p =>
          simp only [Option.elim_some, sortedPosition, Json.dumpsLen_obj, List.map_cons,
            List.map_nil, List.sum_cons, List.sum_nil, hchunk, hindex, hcreated, hsource, hfamily,
            hlocal, Uuid.dumpsLen_text, positionWidth]
          omega
      | github p =>
          simp only [Option.elim_some, sortedPosition, Json.dumpsLen_obj, List.map_cons,
            List.map_nil, List.sum_cons, List.sum_nil, happlication, hrevision, hfamily, hgithub,
            Uuid.dumpsLen_text, positionWidth]
          omega
      | googleCalendar p =>
          simp only [Option.elim_some, sortedPosition, Json.dumpsLen_obj, List.map_cons,
            List.map_nil, List.sum_cons, List.sum_nil, happlication, hrevision, hfamily, hcalendar,
            Uuid.dumpsLen_text, positionWidth]
          omega

theorem dumpsLen_group (positions : Positions) (exhausted : Flags) (family : ContextFamily) :
    Json.dumpsLen (sortedGroup v positions exhausted family) + 1 =
      groupWidth v positions exhausted family := by
  obtain ⟨-, -, hexhausted, hfamily, hposition⟩ := dumpsLen_groupNames
  have hflag : ∀ flag, Json.dumpsLen (.bool flag) = if flag then 4 else 5 := by decide
  simp only [sortedGroup, Json.dumpsLen_obj, List.map_cons, List.map_nil, List.sum_cons,
    List.sum_nil, hexhausted, hfamily, hposition, hflag, dumpsLen_family, dumpsLen_position,
    groupWidth]
  omega

theorem dumpsLen_groups (request : ContextHubQuery) (positions : Positions) (exhausted : Flags) :
    Json.dumpsLen (.arr (request.families.map (sortedGroup v positions exhausted))) =
      1 + (request.families.map (groupWidth v positions exhausted)).sum := by
  have hmap : (request.families.map (sortedGroup v positions exhausted)).map
      (fun j => Json.dumpsLen j + 1) = request.families.map (groupWidth v positions exhausted) := by
    rw [List.map_map]
    exact List.map_congr_left fun family _ => dumpsLen_group positions exhausted family
  have hpos : 1 ≤ (request.families.map (groupWidth v positions exhausted)).sum := by
    obtain ⟨family, rest, hfamilies⟩ := List.exists_cons_of_ne_nil request.compatible.families.1
    rw [hfamilies, List.map_cons, List.sum_cons, groupWidth]
    omega
  rw [Json.dumpsLen_arr, hmap]
  omega

/-- The names of the fields of a request and of a cursor, quoted. -/
theorem dumpsLen_names :
    (Json.dumpsLen (.str "data") = 6 ∧ Json.dumpsLen (.str "domain") = 8 ∧
      Json.dumpsLen (.str cursorDomain) = 36 ∧ Json.dumpsLen (.str "iterations") = 12 ∧
      Json.dumpsLen (.int pbkdf2Iterations) = 6 ∧ Json.dumpsLen (.str "kdf") = 5 ∧
      Json.dumpsLen (.str kdfName) = 20 ∧ Json.dumpsLen (.str "token_version") = 15 ∧
      Json.dumpsLen (.int tokenVersion) = 1) ∧
    (Json.dumpsLen (.str "groups") = 8 ∧ Json.dumpsLen (.str "request") = 9 ∧
      Json.dumpsLen (.str "v") = 3 ∧ Json.dumpsLen (.int 1) = 1) ∧
    (Json.dumpsLen (.str "contract") = 10 ∧ Json.dumpsLen (.str contractVersion) = 16 ∧
      Json.dumpsLen (.str "families") = 10 ∧ Json.dumpsLen (.str "kinds") = 7 ∧
      Json.dumpsLen (.str "ordering") = 10 ∧ Json.dumpsLen (.str orderingMode) = 18) ∧
    Json.dumpsLen (.str "page_size") = 11 ∧ Json.dumpsLen (.str "query") = 7 ∧
      Json.dumpsLen (.str "scope") = 7 ∧ Json.dumpsLen (.str "states") = 8 ∧
      Json.dumpsLen (.str "trust") = 7 := by decide

theorem dumpsLen_wrapped (request : ContextHubQuery) (positions : Positions) (exhausted : Flags) :
    Json.dumpsLen (wrapped cursorDomain (sortedData v request positions exhausted)) =
      variableWidth v request positions exhausted + 283 := by
  obtain ⟨⟨hdata, hdomain, hcursor, hiterations, hcount, hkdf, hname, htoken, hversion⟩,
    ⟨hgroups, hrequest, hv, hone⟩, ⟨hcontract, hcontractV, hfamilies, hkinds, hordering, hmode⟩,
    hpage, hquery, hscope, hstates, htrust⟩ := dumpsLen_names
  simp only [wrapped, sortedData, sortedRequest, Json.dumpsLen_obj, List.map_cons, List.map_nil,
    List.sum_cons, List.sum_nil, hdata, hdomain, hcursor, hiterations, hcount, hkdf, hname, htoken,
    hversion, hgroups, hrequest, hv, hone, hcontract, hcontractV, hfamilies, hkinds, hordering,
    hmode, hpage, hquery, hscope, hstates, htrust, dumpsLen_groups, dumpsLen_families,
    dumpsLen_kinds, dumpsLen_trust, dumpsLen_states, dumpsLen_scope, variableWidth]
  omega

/-! ## What is issued is read -/

/-- The data that a cursor of these maps is sealed with. -/
def issuedData (v : Scalars) (request : ContextHubQuery) (positions : Positions)
    (exhausted : Flags) : Json :=
  cursorData request (request.families.map (groupOf v positions exhausted))

section

variable {r : Keyring} {request : ContextHubQuery} {positions : Positions} {exhausted : Flags}
  {secret : String} {draw : RandomBytes}

theorem mapM_dumpGroup (hvalid : ValidMaps request positions exhausted)
    {families : List ContextFamily} (hin : ∀ family ∈ families, family ∈ request.families) :
    families.mapM (dumpGroup v positions exhausted) =
      .ok (families.map (groupOf v positions exhausted)) := by
  induction families with
  | nil => rfl
  | cons family rest ih =>
      have hmem := hin family List.mem_cons_self
      have hgroup : dumpGroup v positions exhausted family =
          .ok (groupOf v positions exhausted family) := by
        rw [dumpGroup, hvalid.position hmem, hvalid.flag hmem, groupOf]
      rw [List.mapM_cons, ih fun f hf => hin f (List.mem_cons_of_mem _ hf), hgroup]
      rfl

theorem encodeCursor_eq (hvalid : ValidMaps request positions exhausted) :
    encodeCursor r v request positions exhausted secret draw =
      .ok (sealValue r (issuedData v request positions exhausted) cursorDomain secret draw).token :=
    by
  rw [encodeCursor, mapM_dumpGroup hvalid fun _ hf => hf]
  rfl

theorem loads_issued :
    (ofUtf8? (payload cursorDomain (issuedData v request positions exhausted))).bind Json.loads =
      some (wrapped cursorDomain (sortedData v request positions exhausted)) := by
  rw [issuedData, ← sortKeys_cursorData]
  apply loads_payload
  rw [sortKeys_cursorData]
  exact readable_sortedData v request positions exhausted

theorem unwrap_issued :
    unwrap (wrapped cursorDomain (sortedData v request positions exhausted)) cursorDomain =
      .ok (sortedData v request positions exhausted) :=
  unwrap_wrapped cursorDomain _

variable {Issued : r.Key → Bytes → Bytes → Bytes → Prop} (hideal : r.aead.Ideal Issued)

include hideal

theorem length_cursor_le :
    (sealValue r (issuedData v request positions exhausted) cursorDomain secret draw).token.length ≤
      maxCursorCharacters ↔ Fits v request positions exhausted := by
  have hpayload : (payload cursorDomain (issuedData v request positions exhausted)).length =
      variableWidth v request positions exhausted + 283 := by
    rw [length_payload, issuedData, sortKeys_cursorData, dumpsLen_wrapped]
  rw [Sealed.length_token, sealValue, Keyring.seal, hideal.size, hpayload, maxCursorCharacters,
    Fits]
  omega

theorem opened_cursor
    (hissued : Issued (key r secret cursorDomain draw.salt) draw.nonce
      (payload cursorDomain (issuedData v request positions exhausted))
      (aad cursorDomain draw.salt)) :
    opened r
      (sealValue r (issuedData v request positions exhausted) cursorDomain secret draw).token
      cursorDomain maxCursorCharacters secret =
        if Fits v request positions exhausted then .ok (sortedData v request positions exhausted)
        else .error .contextTokenError := by
  have hfits : (sealValue r (issuedData v request positions exhausted) cursorDomain secret
      draw).token.length ≤ maxCursorCharacters ↔ Fits v request positions exhausted :=
    length_cursor_le hideal
  unfold opened
  by_cases h : Fits v request positions exhausted
  · have htag : tagBytes < (sealValue r (issuedData v request positions exhausted) cursorDomain
        secret draw).ciphertext.length := by
      rw [sealValue, Keyring.seal, hideal.size, length_payload, issuedData, sortKeys_cursorData,
        dumpsLen_wrapped, tagBytes]
      omega
    rw [Sealed.read_token htag (hfits.mpr h), if_pos h]
    dsimp only [sealValue, Keyring.seal]
    rw [hideal.opens hissued]
    dsimp only
    rw [loads_issued]
    exact unwrap_issued
  · rw [Sealed.read_long (Nat.lt_of_not_le fun hle => h (hfits.mp hle)), if_neg h]

theorem decodeCursor_cursor (hv : v.Lawful) (hvalid : ValidMaps request positions exhausted)
    (hissued : Issued (key r secret cursorDomain draw.salt) draw.nonce
      (payload cursorDomain (issuedData v request positions exhausted))
      (aad cursorDomain draw.salt)) (request' : ContextHubQuery) :
    decodeCursor r v
      (sealValue r (issuedData v request positions exhausted) cursorDomain secret draw).token
      request' secret =
        if Fits v request positions exhausted ∧
            canonicalRequest request = canonicalRequest request' then .ok (positions, exhausted)
        else .error .contextTokenError := by
  rw [decodeCursor, opened_cursor hideal hissued]
  by_cases h : Fits v request positions exhausted
  · rw [if_pos h, Except.bind, readCursor_sortedData hv hvalid]
    simp only [h, true_and]
  · rw [if_neg h, Except.bind]
    simp only [h, false_and, if_false]

/-- What is sealed for cursors are the data of cursors. -/
def OnlyCursors (v : Scalars) (Issued : r.Key → Bytes → Bytes → Bytes → Prop) : Prop :=
  ∀ {k n p salt}, Issued k n p (aad cursorDomain salt) → ∃ request positions exhausted,
    ValidMaps request positions exhausted ∧
      p = payload cursorDomain (issuedData v request positions exhausted)

/-- A text is read only as the cursor it is, and is else refused. -/
theorem decodeCursor_cases (hv : v.Lawful) (honly : OnlyCursors v Issued) (value : String)
    (request' : ContextHubQuery) (secret : String) :
    (∃ request positions exhausted draw, ValidMaps request positions exhausted ∧
      encodeCursor r v request positions exhausted secret draw = .ok value ∧
      canonicalRequest request = canonicalRequest request' ∧
      decodeCursor r v value request' secret = .ok (positions, exhausted)) ∨
    decodeCursor r v value request' secret = .error .contextTokenError := by
  unfold decodeCursor opened
  cases hread : Sealed.read value maxCursorCharacters with
  | none => exact .inr rfl
  | some s =>
      obtain ⟨hvalue, -, -⟩ := Sealed.token_of_read hread
      dsimp only
      cases hdecrypt : r.aead.decrypt (key r secret cursorDomain s.salt) s.nonce s.ciphertext
        (aad cursorDomain s.salt) with
      | none => exact .inr rfl
      | some bytes =>
          obtain ⟨hcipher, hissued⟩ := hideal.authentic hdecrypt
          obtain ⟨request, positions, exhausted, hvalid, rfl⟩ := honly hissued
          dsimp only
          rw [loads_issued]
          dsimp only
          rw [unwrap_issued, Except.bind, readCursor_sortedData hv hvalid]
          by_cases h : canonicalRequest request = canonicalRequest request'
          · rw [if_pos h]
            refine .inl ⟨request, positions, exhausted, s.toRandomBytes, hvalid, ?_, h, rfl⟩
            rw [encodeCursor_eq hvalid, sealValue, Keyring.seal, ← hcipher, hvalue]
          · rw [if_neg h]
            exact .inr rfl

end

end ContextHub

end SecondBrain
