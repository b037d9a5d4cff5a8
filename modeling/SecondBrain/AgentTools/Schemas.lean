import SecondBrain.AgentTools.Policy
import SecondBrain.Knowledge.Model
import SecondBrain.Lib.Schema
import SecondBrain.Uuids

/-!
# The input schemas of the registered tools

Each tool names the fields of its input: an identifier, or the words, the mode, the filters
and the page of a search. What validates an identifier, a timestamp or a float, and how a
timestamp is dumped, is a parameter with the laws that are documented of it. The schemas
take their own dumps, and what they give fits the column it is stored in, but for a NUL
among the words of a search.
-/

namespace SecondBrain

open Lib Lib.Json Lib.Schema

namespace AgentTools

def registryVersion : String := "agent-tools-v1"

/-! ## Scalars -/

/-- How strict models validate scalars in JSON, and dump them. -/
structure ToolScalars where
  DateTime : Type
  datetime : Json → Option DateTime
  /-- It has a zone, and the zone an offset. -/
  isAware : DateTime → Bool
  /-- The first is later than the second. -/
  isAfter : DateTime → DateTime → Bool
  datetimeText : DateTime → String
  uuid : Json → Option Uuid
  /-- A float from 0 to 1. -/
  unitFloat : Json → Option Knowledge.Score

/-- What was validated is dumped so that it is validated as the same; a timestamp is a
short text, and no float has more decimal places. -/
structure ToolScalars.Lawful (v : ToolScalars) : Prop where
  datetime : ∀ j t, v.datetime j = some t → v.datetime (.str (v.datetimeText t)) = some t
  datetimeText : ∀ j t, v.datetime j = some t →
    (v.datetimeText t).length ≤ 40 ∧ nul ∉ (v.datetimeText t).toList
  uuid : ∀ j id, v.uuid j = some id → v.uuid (.str id.text) = some id
  unitFloat : ∀ j s, v.unitFloat j = some s → v.unitFloat (.real s.digits s.places) = some s
  places : ∀ j s, v.unitFloat j = some s → s.places ≤ 324

/-- The characters `strip_whitespace` takes off, those with the property `White_Space`. -/
def isWhiteSpace (c : Char) : Bool :=
  let n := c.toNat
  (9 ≤ n && n ≤ 13) || n == 32 || n == 0x85 || n == 0xa0 || n == 0x1680 ||
    (0x2000 ≤ n && n ≤ 0x200a) || n == 0x2028 || n == 0x2029 || n == 0x202f ||
    n == 0x205f || n == 0x3000

section

variable (v : ToolScalars)

def identifier : Reader := fun j => (v.uuid j).map fun id => .str id.text

/-- `require_timezone` is part of the field. -/
def timestamp : Reader := fun j =>
  (v.datetime j).bind fun t => if v.isAware t then some (.str (v.datetimeText t)) else none

def unitFloat : Reader := fun j => (v.unitFloat j).map fun s => .real s.digits s.places

/-! ## Inputs -/

/-- `ProjectGetInput`, `MemoryGetInput`, `SourceGetInput` and `SourceChunkGetInput`. -/
def identifierInput (name : String) : Reader := model [{ name := name, reader := identifier v }]

def projectGetInput : Reader := identifierInput v "project_id"

def memoryGetInput : Reader := identifierInput v "memory_id"

def sourceGetInput : Reader := identifierInput v "source_id"

def sourceChunkGetInput : Reader := identifierInput v "source_chunk_id"

def memoryTypes : List String :=
  ["working", "episodic", "semantic", "decision", "procedural", "preference", "temporary"]

def memoryStatuses : List String := ["active", "superseded", "invalid", "archived", "expired"]

def searchModes : List String := ["lexical", "semantic", "hybrid"]

/-- Where both bounds are given, the lower one does not exceed the upper one. -/
def inOrder {A : Type} (read : Json → Option A) (exceeds : A → A → Bool) (low high : String)
    (filters : Json) : Bool :=
  match (filters.field? low).bind read, (filters.field? high).bind read with
  | some a, some b => !exceeds a b
  | _, _ => true

def exceedsScore (a b : Knowledge.Score) : Bool :=
  b.digits * 10 ^ a.places < a.digits * 10 ^ b.places

/-- `require_ordered_ranges` -/
def orderedRanges (filters : Json) : Bool :=
  inOrder v.unitFloat exceedsScore "importance_min" "importance_max" filters &&
  inOrder v.unitFloat exceedsScore "confidence_min" "confidence_max" filters &&
  inOrder v.datetime v.isAfter "event_time_from" "event_time_to" filters &&
  inOrder v.datetime v.isAfter "created_at_from" "created_at_to" filters

/-- A field that may be left out, which is dumped as `null` then. -/
def optional (name : String) (reader : Reader) : Field where
  name := name
  reader := nullable reader
  default := some .null

def filterFields : List Field :=
  [optional "memory_type" (literal memoryTypes),
    optional "status" (literal memoryStatuses),
    optional "importance_min" (unitFloat v),
    optional "importance_max" (unitFloat v),
    optional "confidence_min" (unitFloat v),
    optional "confidence_max" (unitFloat v),
    optional "event_time_from" (timestamp v),
    optional "event_time_to" (timestamp v),
    optional "created_at_from" (timestamp v),
    optional "created_at_to" (timestamp v)]

def explainedSearchFilters : Reader := checked (model (filterFields v)) (orderedRanges v)

def paginationFields : List Field :=
  [{ name := "limit", reader := boundedInt (1 : Nat) (100 : Nat) },
    { name := "offset", reader := boundedInt (0 : Nat) (10000 : Nat) }]

def explainedSearchPagination : Reader := model paginationFields

def searchFields : List Field :=
  [{ name := "query", reader := boundedText isWhiteSpace 500 },
    { name := "mode", reader := literal searchModes },
    { name := "filters", reader := explainedSearchFilters v },
    { name := "pagination", reader := explainedSearchPagination }]

def memorySearchExplainedInput : Reader := model (searchFields v)

def emptyInput : Reader := model []

/-! ## The registry -/

/-- `_definition` -/
def definition (name : String) (inputSchema : Reader) (scope : ScopeMode := .exactRunScope)
    (provider : ProviderMode := .none) (network : NetworkMode := .none) : ToolDefinition where
  name := name
  version := 1
  timeoutSeconds := 10
  callsPerRun := 5
  scopeMode := scope
  providerMode := provider
  networkMode := network
  maxOutputBytes := 65536
  normalize := inputSchema

/-- `AGENT_TOOL_REGISTRY` -/
def agentToolRegistry : List ToolDefinition :=
  [definition "project.get" (projectGetInput v),
    definition "memory.get" (memoryGetInput v),
    definition "memory.search_explained" (memorySearchExplainedInput v) .exactRunScope
      .conditional .configuredProviderOnly,
    definition "source.get" (sourceGetInput v),
    definition "source_chunk.get" (sourceChunkGetInput v),
    definition "operations.diagnostics" emptyInput .operatorAggregate,
    definition "maintenance.audit" emptyInput .operatorAggregate]

/-- The code that has this registry. -/
def currentBuild (sha256 : String → String) : Build where
  registryVersion := registryVersion
  registry := agentToolRegistry v
  sha256 := sha256

end

/-! ## The schemas take their own dumps -/

section

variable {v : ToolScalars} (hv : v.Lawful)

theorem field_stable {name : String} {reader : Reader} (h : Stable reader) :
    Field.Stable { name := name, reader := reader } where
  reader := h
  default := fun _ hd => nomatch hd

theorem optional_stable {name : String} {reader : Reader} (h : Stable reader) :
    (optional name reader).Stable where
  reader := stable_nullable h
  default := by
    intro d hd
    cases hd
    rfl

include hv

theorem identifier_stable : Stable (identifier v) := by
  intro j n h
  obtain ⟨id, hid, rfl⟩ := Option.map_eq_some_iff.mp h
  rw [identifier, hv.uuid j id hid]
  rfl

theorem timestamp_stable : Stable (timestamp v) := by
  intro j n h
  obtain ⟨t, ht, h⟩ := Option.bind_eq_some_iff.mp h
  split at h
  · next haware =>
      cases h
      rw [timestamp, hv.datetime j t ht, Option.bind_some, if_pos haware]
  · cases h

theorem unitFloat_stable : Stable (unitFloat v) := by
  intro j n h
  obtain ⟨s, hs, rfl⟩ := Option.map_eq_some_iff.mp h
  rw [unitFloat, hv.unitFloat j s hs]
  rfl

theorem identifierInput_stable (name : String) : Stable (identifierInput v name) := by
  refine stable_model (List.nodup_singleton _) fun f hf => ?_
  rw [List.mem_singleton.mp hf]
  exact field_stable (identifier_stable hv)

theorem filterFields_stable : ∀ f ∈ filterFields v, f.Stable := by
  have hfloat := unitFloat_stable hv
  have htime := timestamp_stable hv
  intro f hf
  simp only [filterFields, List.mem_cons, List.not_mem_nil, or_false] at hf
  rcases hf with rfl | rfl | rfl | rfl | rfl | rfl | rfl | rfl | rfl | rfl
  · exact optional_stable (stable_literal _)
  · exact optional_stable (stable_literal _)
  all_goals first
    | exact optional_stable hfloat
    | exact optional_stable htime

theorem explainedSearchFilters_stable : Stable (explainedSearchFilters v) := by
  refine stable_checked _ (stable_model ?_ (filterFields_stable hv))
  show (List.map _ (filterFields v)).Nodup
  simp [filterFields, optional]

omit hv in
theorem paginationFields_stable : ∀ f ∈ paginationFields, f.Stable := by
  intro f hf
  simp only [paginationFields, List.mem_cons, List.not_mem_nil, or_false] at hf
  rcases hf with rfl | rfl
  · exact field_stable (stable_boundedInt _ _)
  · exact field_stable (stable_boundedInt _ _)

omit hv in
theorem explainedSearchPagination_stable : Stable explainedSearchPagination :=
  stable_model (by simp [paginationFields]) paginationFields_stable

theorem searchFields_stable : ∀ f ∈ searchFields v, f.Stable := by
  intro f hf
  simp only [searchFields, List.mem_cons, List.not_mem_nil, or_false] at hf
  rcases hf with rfl | rfl | rfl | rfl
  · exact field_stable (stable_boundedText _)
  · exact field_stable (stable_literal _)
  · exact field_stable (explainedSearchFilters_stable hv)
  · exact field_stable explainedSearchPagination_stable

theorem memorySearchExplainedInput_stable : Stable (memorySearchExplainedInput v) :=
  stable_model (by simp [searchFields]) (searchFields_stable hv)

omit hv in
theorem emptyInput_stable : Stable emptyInput :=
  stable_model List.nodup_nil fun _ hf => nomatch hf

/-- What a tool of the registry made of an input, it makes of that again. -/
theorem registry_stable {d : ToolDefinition} (hd : d ∈ agentToolRegistry v) :
    Stable d.normalize := by
  simp only [agentToolRegistry, List.mem_cons, List.not_mem_nil, or_false] at hd
  rcases hd with rfl | rfl | rfl | rfl | rfl | rfl | rfl
  · exact identifierInput_stable hv _
  · exact identifierInput_stable hv _
  · exact memorySearchExplainedInput_stable hv
  · exact identifierInput_stable hv _
  · exact identifierInput_stable hv _
  · exact emptyInput_stable
  · exact emptyInput_stable

/-! ## What the inputs take -/

omit hv in
theorem takes_identifier : Takes 256 (identifier v) := by
  intro j n h
  obtain ⟨id, -, rfl⟩ := Option.map_eq_some_iff.mp h
  have hlength : id.text.length = 36 := by
    rw [Uuid.text, String.length_ofList, Uuid.length_chars]
  have := storedLen_str_le id.text
  omega

theorem takes_timestamp : Takes 330 (timestamp v) := by
  intro j n h
  obtain ⟨t, ht, h⟩ := Option.bind_eq_some_iff.mp h
  split at h
  · cases h
    have hlength := (hv.datetimeText j t ht).1
    have := storedLen_str_le (v.datetimeText t)
    omega
  · cases h

theorem takes_unitFloat : Takes 330 (unitFloat v) := by
  intro j n h
  obtain ⟨s, hs, rfl⟩ := Option.map_eq_some_iff.mp h
  have hplaces := hv.places j s hs
  have hpos : 0 < s.places := by
    rcases s.shortest with hone | ⟨hone, -⟩
    · omega
    · omega
  have := storedLen_real_le s.le_one hpos
  omega

theorem takes_identifierInput (name : String) (hname : name.length ≤ 30) :
    Takes 65536 (identifierInput v name) := by
  have htext := storedLen_str_le name
  have hmodel : Takes (2 + 1 * (2 * 256)) (identifierInput v name) := by
    refine takes_model (fun f hf => ?_) (fun f hf => ?_) (fun f hf => ?_)
    · rw [List.mem_singleton.mp hf]
      exact field_stable (identifier_stable hv)
    · rw [List.mem_singleton.mp hf]
      exact takes_identifier
    · rw [List.mem_singleton.mp hf]
      dsimp only
      omega
  exact hmodel.mono (by decide)

omit hv in
theorem filterNames_fit : ∀ f ∈ filterFields v,
    (Json.str f.name).storedLen + 4 ≤ 330 ∧ (Json.str f.name).storable = true := by
  have hnames : (filterFields v).map (·.name) = ["memory_type", "status", "importance_min",
      "importance_max", "confidence_min", "confidence_max", "event_time_from", "event_time_to",
      "created_at_from", "created_at_to"] := rfl
  intro f hf
  have hname : f.name ∈ (filterFields v).map (·.name) := List.mem_map_of_mem hf
  rw [hnames] at hname
  revert hname
  generalize f.name = name
  revert name
  decide

omit hv in
theorem searchNames_fit : ∀ f ∈ searchFields v,
    (Json.str f.name).storedLen + 4 ≤ 330 ∧ (Json.str f.name).storable = true := by
  have hnames : (searchFields v).map (·.name) = ["query", "mode", "filters", "pagination"] := rfl
  intro f hf
  have hname : f.name ∈ (searchFields v).map (·.name) := List.mem_map_of_mem hf
  rw [hnames] at hname
  revert hname
  generalize f.name = name
  revert name
  decide

theorem takes_explainedSearchFilters : Takes 6602 (explainedSearchFilters v) := by
  have hfloat := takes_nullable (takes_unitFloat hv) (by decide)
  have htime := takes_nullable (takes_timestamp hv) (by decide)
  have htypes : Takes 330 (nullable (literal memoryTypes)) :=
    takes_nullable (takes_literal (by decide)) (by decide)
  have hstatuses : Takes 330 (nullable (literal memoryStatuses)) :=
    takes_nullable (takes_literal (by decide)) (by decide)
  have hmodel : Takes (2 + (filterFields v).length * (2 * 330)) (model (filterFields v)) := by
    refine takes_model (filterFields_stable hv) (fun f hf => ?_) fun f hf =>
      (filterNames_fit f hf).1
    simp only [filterFields, List.mem_cons, List.not_mem_nil, or_false] at hf
    rcases hf with rfl | rfl | rfl | rfl | rfl | rfl | rfl | rfl | rfl | rfl
    · exact htypes
    · exact hstatuses
    all_goals first
      | exact hfloat
      | exact htime
  have hlength : (filterFields v).length = 10 := rfl
  exact takes_checked (hmodel.mono (by omega))

omit hv in
theorem takes_explainedSearchPagination : Takes 1322 explainedSearchPagination := by
  have hmodel : Takes (2 + paginationFields.length * (2 * 330)) explainedSearchPagination := by
    refine takes_model paginationFields_stable (fun f hf => ?_) fun f hf => ?_
    · simp only [paginationFields, List.mem_cons, List.not_mem_nil, or_false] at hf
      rcases hf with rfl | rfl
      · exact (@takes_boundedInt 1 100 3 (by decide) (by decide)).mono (by decide)
      · exact (@takes_boundedInt 0 10000 5 (by decide) (by decide)).mono (by decide)
    · simp only [paginationFields, List.mem_cons, List.not_mem_nil, or_false] at hf
      rcases hf with rfl | rfl
      · decide
      · decide
  have hlength : paginationFields.length = 2 := rfl
  exact hmodel.mono (by omega)

theorem takes_memorySearchExplainedInput : Takes 65536 (memorySearchExplainedInput v) := by
  have hmodel : Takes (2 + (searchFields v).length * (2 * 6602))
      (memorySearchExplainedInput v) := by
    refine takes_model (searchFields_stable hv) (fun f hf => ?_) fun f hf =>
      Nat.le_trans (searchNames_fit f hf).1 (by omega)
    simp only [searchFields, List.mem_cons, List.not_mem_nil, or_false] at hf
    rcases hf with rfl | rfl | rfl | rfl
    · exact takes_boundedText.mono (by omega)
    · have hmodes : Takes 330 (literal searchModes) := takes_literal (by decide)
      exact hmodes.mono (by omega)
    · exact takes_explainedSearchFilters hv
    · exact takes_explainedSearchPagination.mono (by omega)
  have hlength : (searchFields v).length = 4 := rfl
  exact hmodel.mono (by omega)

omit hv in
theorem takes_emptyInput : Takes 65536 emptyInput := by
  have hmodel : Takes (2 + 0 * (2 * 0)) emptyInput :=
    takes_model (fun _ hf => nomatch hf) (fun _ hf => nomatch hf) fun _ hf => nomatch hf
  exact hmodel.mono (by decide)

/-- What a tool of the registry makes of an input is not too large for the column. -/
theorem registry_takes {d : ToolDefinition} (hd : d ∈ agentToolRegistry v) :
    Takes 65536 d.normalize := by
  simp only [agentToolRegistry, List.mem_cons, List.not_mem_nil, or_false] at hd
  rcases hd with rfl | rfl | rfl | rfl | rfl | rfl | rfl
  · exact takes_identifierInput hv _ (by decide)
  · exact takes_identifierInput hv _ (by decide)
  · exact takes_memorySearchExplainedInput hv
  · exact takes_identifierInput hv _ (by decide)
  · exact takes_identifierInput hv _ (by decide)
  · exact takes_emptyInput
  · exact takes_emptyInput

/-! ## What the inputs store -/

/-- The words of the input, if it has any, have no NUL. -/
def QueryStorable (input : Json) : Prop :=
  ∀ query, input.field? "query" = some (.str query) → nul ∉ query.toList

omit hv in
theorem clean_identifier : Clean (identifier v) := by
  intro j n h
  obtain ⟨id, -, rfl⟩ := Option.map_eq_some_iff.mp h
  rw [storable, Bool.not_eq_true', Bool.eq_false_iff, ne_eq, List.contains_iff_mem, Uuid.text,
    String.toList_ofList]
  intro hnul
  rcases Uuid.mem_chars hnul with hdash | hdigit
  · revert hdash
    decide
  · have hhex := (Uuid.mem_hexDigits hdigit).1.1
    revert hhex
    decide

theorem clean_timestamp : Clean (timestamp v) := by
  intro j n h
  obtain ⟨t, ht, h⟩ := Option.bind_eq_some_iff.mp h
  split at h
  · cases h
    rw [storable, Bool.not_eq_true', Bool.eq_false_iff, ne_eq, List.contains_iff_mem]
    exact (hv.datetimeText j t ht).2
  · cases h

omit hv in
theorem clean_unitFloat : Clean (unitFloat v) := by
  intro j n h
  obtain ⟨s, -, rfl⟩ := Option.map_eq_some_iff.mp h
  rfl

theorem storable_identifierInput {name : String} {j n : Json}
    (hname : (Json.str name).storable = true ∧ name ≠ "query")
    (h : identifierInput v name j = some n) : n.storable = true ↔ QueryStorable j := by
  have hclean : n.storable = true := by
    refine clean_model (fun f hf => ?_) (fun f hf => ?_) (fun f hf => ?_) j n h
    · rw [List.mem_singleton.mp hf]
      exact field_stable (identifier_stable hv)
    · rw [List.mem_singleton.mp hf]
      exact hname.1
    · rw [List.mem_singleton.mp hf]
      exact clean_identifier
  refine iff_of_true hclean fun query hquery => ?_
  have hnone := field?_of_model h (by simpa using hname.2.symm : "query" ∉ _)
  rw [hnone] at hquery
  cases hquery

theorem clean_explainedSearchFilters : Clean (explainedSearchFilters v) := by
  have hfloat := clean_nullable (@clean_unitFloat v)
  have htime := clean_nullable (clean_timestamp hv)
  refine clean_checked (clean_model (filterFields_stable hv)
    (fun f hf => (filterNames_fit f hf).2) fun f hf => ?_)
  simp only [filterFields, List.mem_cons, List.not_mem_nil, or_false] at hf
  rcases hf with rfl | rfl | rfl | rfl | rfl | rfl | rfl | rfl | rfl | rfl
  · exact clean_nullable (clean_literal (by decide))
  · exact clean_nullable (clean_literal (by decide))
  all_goals first
    | exact hfloat
    | exact htime

omit hv in
theorem clean_explainedSearchPagination : Clean explainedSearchPagination := by
  refine clean_model paginationFields_stable (fun f hf => ?_) fun f hf => ?_
  · simp only [paginationFields, List.mem_cons, List.not_mem_nil, or_false] at hf
    rcases hf with rfl | rfl
    · decide
    · decide
  · simp only [paginationFields, List.mem_cons, List.not_mem_nil, or_false] at hf
    rcases hf with rfl | rfl
    · exact clean_boundedInt
    · exact clean_boundedInt

theorem storable_memorySearchExplainedInput {j n : Json}
    (h : memorySearchExplainedInput v j = some n) : n.storable = true ↔ QueryStorable j := by
  have hclean : ∀ f ∈ searchFields v, f.name ≠ "query" → Clean f.reader := by
    intro f hf hne
    simp only [searchFields, List.mem_cons, List.not_mem_nil, or_false] at hf
    rcases hf with rfl | rfl | rfl | rfl
    · exact absurd rfl hne
    · exact clean_literal (by decide)
    · exact clean_explainedSearchFilters hv
    · exact clean_explainedSearchPagination
  have hquery : (⟨"query", boundedText isWhiteSpace 500, none⟩ : Field) ∈ searchFields v :=
    List.mem_cons_self
  rw [storable_model (fun f hf => (searchNames_fit f hf).2) h]
  constructor
  · intro hall query hgiven hnul
    have hread := hall _ hquery
    rw [readField, hgiven] at hread
    dsimp only [boundedText] at hread
    obtain ⟨-, -, hsome, -⟩ := model_some h
    have hvalid := hsome _ hquery
    rw [readField, hgiven] at hvalid
    dsimp only [boundedText] at hvalid
    split at hvalid
    · next hin =>
        rw [if_pos hin] at hread
        have hstored := hread _ rfl
        rw [storable, contains_trim (by decide), Bool.not_eq_true', Bool.eq_false_iff, ne_eq,
          List.contains_iff_mem] at hstored
        exact hstored hnul
    · cases hvalid
  · intro hstorable f hf value hvalue
    by_cases hname : f.name = "query"
    · have hf' : f = ⟨"query", boundedText isWhiteSpace 500, none⟩ := by
        simp only [searchFields, List.mem_cons, List.not_mem_nil, or_false] at hf
        rcases hf with rfl | rfl | rfl | rfl
        · rfl
        all_goals simp at hname
      rw [hf', readField] at hvalue
      dsimp only at hvalue
      split at hvalue
      · next given hgiven =>
          cases given with
          | str query =>
              rw [boundedText] at hvalue
              split at hvalue
              · cases hvalue
                rw [storable, contains_trim (by decide), Bool.not_eq_true', Bool.eq_false_iff,
                  ne_eq, List.contains_iff_mem]
                exact hstorable query hgiven
              · cases hvalue
          | null | bool _ | int _ | real _ _ | arr _ | obj _ => cases hvalue
      · cases hvalue
    · exact hclean f hf hname _ _ (readField_dump (searchFields_stable hv f hf) hvalue)

/-- What a tool of the registry makes of an input is stored, unless words have a NUL. -/
theorem registry_storable {d : ToolDefinition} (hd : d ∈ agentToolRegistry v) {j n : Json}
    (h : d.normalize j = some n) : n.storable = true ↔ QueryStorable j := by
  simp only [agentToolRegistry, List.mem_cons, List.not_mem_nil, or_false] at hd
  have hempty : emptyInput j = some n → (n.storable = true ↔ QueryStorable j) := by
    intro hread
    have hclean : Clean emptyInput :=
      clean_model (fun _ hf => nomatch hf) (fun _ hf => nomatch hf) fun _ hf => nomatch hf
    refine iff_of_true (hclean j n hread) fun query hquery => ?_
    rw [field?_of_model hread List.not_mem_nil] at hquery
    cases hquery
  rcases hd with rfl | rfl | rfl | rfl | rfl | rfl | rfl
  · exact storable_identifierInput hv (by decide) h
  · exact storable_identifierInput hv (by decide) h
  · exact storable_memorySearchExplainedInput hv h
  · exact storable_identifierInput hv (by decide) h
  · exact storable_identifierInput hv (by decide) h
  · exact hempty h
  · exact hempty h

/-! ## Identities -/

omit hv in
/-- A registered tool has its name and version 1. -/
theorem getExact_some {sha256 : String → String} {name : String} {version : Nat}
    {d : ToolDefinition} (h : (currentBuild v sha256).getExact name version = some d) :
    d ∈ agentToolRegistry v ∧ d.name = name ∧ version = 1 := by
  rw [Build.getExact] at h
  split at h
  · cases h
  · have hmem := List.mem_of_find?_eq_some h
    have hfound := List.find?_some h
    rw [Bool.and_eq_true, beq_iff_eq, beq_iff_eq] at hfound
    refine ⟨hmem, hfound.1, ?_⟩
    rw [← hfound.2]
    simp only [currentBuild, agentToolRegistry, List.mem_cons, List.not_mem_nil, or_false] at hmem
    rcases hmem with rfl | rfl | rfl | rfl | rfl | rfl | rfl
    all_goals rfl

end

/-- Scalars for inputs that have no timestamp, identifier or float. -/
def bareScalars : ToolScalars where
  DateTime := Empty
  datetime _ := none
  isAware := nofun
  isAfter := nofun
  datetimeText := nofun
  uuid _ := none
  unitFloat _ := none

theorem bareScalars_lawful : bareScalars.Lawful where
  datetime _ _ h := nomatch h
  datetimeText _ _ h := nomatch h
  uuid _ _ h := nomatch h
  unitFloat _ _ h := nomatch h
  places _ _ h := nomatch h

end AgentTools

end SecondBrain
