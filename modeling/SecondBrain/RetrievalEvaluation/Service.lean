import Mathlib.Algebra.Order.BigOperators.Group.List
import Mathlib.Algebra.Order.Field.Basic
import Mathlib.Algebra.Order.Field.Rat
import Mathlib.Data.Rat.Cast.Order
import Mathlib.Data.Finset.Card
import Mathlib.Order.Interval.Set.Defs
import SecondBrain.Answers.Service

/-!
# Measuring retrieval

A dataset of questions is put to the retriever in each mode a question names, and what comes
back is compared with the fixtures the question expects. A mode is then summed up over its
questions: precision over all of them, the ranks over those that expect something, the empty
answers over those that expect nothing. Each average but one is left out when it has nothing
to average. The share of hits is divided out unguarded, so that the evaluation goes through
where every mode that occurs has a question which expects something
(`evaluate_measures_iff`).

Numbers are exact rationals. The retriever may keep a state of its own between its calls.
-/

namespace SecondBrain.RetrievalEvaluation

open Lib Answers

inductive SearchMode where
  | lexical
  | semantic
  | hybrid
deriving DecidableEq, Repr

namespace SearchMode

def text : SearchMode → String
  | .lexical => "lexical"
  | .semantic => "semantic"
  | .hybrid => "hybrid"

/-- Modes are sorted as the texts they are. -/
def before (a b : SearchMode) : Prop := a.text ≤ b.text

instance : DecidableRel before := fun a b => inferInstanceAs (Decidable (a.text ≤ b.text))

end SearchMode

/-! ## The dataset -/

def lowerOrDigit (c : Char) : Bool := ('a' ≤ c && c ≤ 'z') || ('0' ≤ c && c ≤ '9')

def decimal (c : Char) : Bool := '0' ≤ c && c ≤ '9'

/-- `^[a-z0-9][a-z0-9_-]*$` -/
def caseIdPattern (s : String) : Bool :=
  match s.toList with
  | [] => false
  | c :: rest => lowerOrDigit c && rest.all fun d => lowerOrDigit d || d == '_' || d == '-'

/-- `^[1-9][0-9]*\.[0-9]+$` -/
def versionPattern (s : String) : Bool :=
  match s.toList with
  | [] => false
  | c :: rest =>
      decimal c && c != '0' &&
        match rest.dropWhile decimal with
        | '.' :: digits => !digits.isEmpty && digits.all decimal
        | _ => false

structure EvaluationCase where
  caseId : String
  query : String
  projectScope : Option String := none
  relevant : List String
  irrelevant : List String := []
  modes : List SearchMode
  limit : Nat

namespace EvaluationCase

/-- The constraints of the fields. -/
def fieldsValid (c : EvaluationCase) : Bool :=
  caseIdPattern c.caseId && 1 ≤ c.query.length && c.query.length ≤ 500 && !c.modes.isEmpty &&
    1 ≤ c.limit && c.limit ≤ 100

def validateKeys (c : EvaluationCase) : Except String Unit := do
  if c.relevant.toFinset.card ≠ c.relevant.length then
    throw "relevant fixture keys must be unique"
  if (c.relevant.toFinset ∩ c.irrelevant.toFinset).Nonempty then
    throw "relevant and irrelevant fixture keys must be disjoint"
  if c.modes.toFinset.card ≠ c.modes.length then
    throw "search modes must be unique"

end EvaluationCase

/-- A dataset that the model accepts. -/
structure EvaluationDataset where
  version : String
  cases : List EvaluationCase
  version_valid : versionPattern version
  cases_nonempty : cases ≠ []
  fields_valid : ∀ c ∈ cases, c.fieldsValid
  keys_valid : ∀ c ∈ cases, c.validateKeys = .ok ()
  ids_unique : Keyed (·.caseId) cases

/-! ## The metrics -/

inductive EvaluationError where
  | valueError (message : String)
  | zeroDivision
deriving DecidableEq, Repr

/-- Division by the length of a list, or by a rank. -/
def divide (a : ℚ) (n : Nat) : Except EvaluationError ℚ :=
  if n = 0 then .error .zeroDivision else .ok (a / n)

structure CaseMetrics where
  hitAtK : ℚ
  recallAtK : Option ℚ
  reciprocalRank : Option ℚ
  precisionAtK : ℚ
  noExpectedMatch : Option Bool

structure CaseResult where
  caseId : String
  mode : SearchMode
  limit : Nat
  expectedKeys : List String
  retrievedKeys : List String
  metrics : CaseMetrics

structure AggregateMetrics where
  caseCount : Nat
  hitAtK : ℚ
  recallAtK : Option ℚ
  meanReciprocalRank : Option ℚ
  precisionAtK : ℚ
  noRelevantCaseAccuracy : Option ℚ

structure ModeResult where
  mode : SearchMode
  metrics : AggregateMetrics
  thresholdPassed : Option Bool := none

structure EvaluationReport where
  datasetVersion : String
  caseCount : Nat
  caseResults : List CaseResult
  modes : List ModeResult
  baselinePassed : Option Bool := none

/-- The share of the list that matched, of an empty list nothing. -/
def precisionAt (matched retrieved : Nat) : Except EvaluationError ℚ :=
  if retrieved = 0 then .ok 0 else divide matched retrieved

/-- `next((rank for rank, key in enumerate(retrieved, start=1) if key in expected), None)` -/
def firstRank (expected : Finset String) (retrieved : List String) : Option Nat :=
  (retrieved.findIdx? (· ∈ expected)).map (· + 1)

def reciprocalOf : Option Nat → Except EvaluationError ℚ
  | some rank => divide 1 rank
  | none => .ok 0

def calculateMetrics (expected : Finset String) (retrieved : List String) :
    Except EvaluationError CaseMetrics := do
  let matched := retrieved.filter (· ∈ expected)
  let hit : ℚ := if matched.isEmpty then 0 else 1
  let precision ← precisionAt matched.length retrieved.length
  if expected = ∅ then
    return ⟨0, none, none, precision, some retrieved.isEmpty⟩
  let recalled ← divide matched.toFinset.card expected.card
  let reciprocal ← reciprocalOf (firstRank expected retrieved)
  return ⟨hit, some recalled, some reciprocal, precision, none⟩

/-- `_average` -/
def average (values : List ℚ) : Except EvaluationError (Option ℚ) :=
  if values.isEmpty then pure none else some <$> divide values.sum values.length

def aggregate (caseResults : List CaseResult) (mode : SearchMode) :
    Except EvaluationError ModeResult := do
  let selected := caseResults.filter (·.mode = mode)
  let relevant := (selected.filter (!·.expectedKeys.isEmpty)).map (·.metrics)
  let empty := (selected.filter (·.expectedKeys.isEmpty)).map (·.metrics)
  -- the one average over the questions that expect something which is not guarded
  let hit ← divide (relevant.map (·.hitAtK)).sum relevant.length
  let recalled ← average (relevant.filterMap (·.recallAtK))
  let meanRank ← average (relevant.filterMap (·.reciprocalRank))
  let precision ← divide (selected.map (·.metrics.precisionAtK)).sum selected.length
  let accuracy ← average (empty.map fun item => if item.noExpectedMatch = some true then 1 else 0)
  return { mode := mode, metrics := ⟨selected.length, hit, recalled, meanRank, precision, accuracy⟩ }

/-! ## The evaluation -/

/-- A retriever may be any callable: each call reads and leaves a state of its own. -/
abbrev Retriever (F σ : Type) :=
  String → SearchMode → Option Uuid → Nat → σ → List (ScoredMemory F) × σ

section

variable {F σ : Type} (fixtureIds projectIds : List (String × Uuid)) (retrieve : Retriever F σ)

/-- What a dictionary has under a key, its items being in the order of insertion. -/
def lookup (items : List (String × Uuid)) (key : String) : Option Uuid :=
  (items.find? (·.1 = key)).map (·.2)

/-- `reverse`: of two keys with one identifier the later stands. -/
def keyOf (id : Uuid) : Option String :=
  (fixtureIds.reverse.find? (·.2 = id)).map (·.1)

def EvaluationCase.unknownKeys (c : EvaluationCase) : List String :=
  (c.relevant ++ c.irrelevant).dedup.filter fun key => (lookup fixtureIds key).isNone

/-- The project of a case, or the message that one of its keys is not known. -/
def resolve (c : EvaluationCase) : Except EvaluationError (Option Uuid) :=
  if c.unknownKeys fixtureIds ≠ [] then
    let keys := (c.unknownKeys fixtureIds).insertionSort (· ≤ ·)
    .error (.valueError ("unknown fixture keys: " ++ ", ".intercalate keys))
  else match c.projectScope with
    | none => .ok none
    | some scope =>
        match lookup projectIds scope with
        | none => .error (.valueError ("unknown project scope: " ++ scope))
        | some id => .ok (if scope = "" then none else some id)

def evaluateModes (c : EvaluationCase) (projectId : Option Uuid) :
    List SearchMode → σ → Except EvaluationError (List CaseResult × σ)
  | [], s => .ok ([], s)
  | mode :: rest, s => do
      let (rows, s) := retrieve c.query mode projectId c.limit s
      let keys := rows.filterMap fun row => keyOf fixtureIds row.memory.id
      let metrics ← calculateMetrics c.relevant.toFinset keys
      let (results, s) ← evaluateModes c projectId rest s
      return (⟨c.caseId, mode, c.limit, c.relevant, keys, metrics⟩ :: results, s)

def evaluateCases : List EvaluationCase → σ → Except EvaluationError (List CaseResult × σ)
  | [], s => .ok ([], s)
  | c :: rest, s => do
      let projectId ← resolve fixtureIds projectIds c
      let (results, s) ← evaluateModes fixtureIds retrieve c projectId
        (c.modes.insertionSort SearchMode.before) s
      let (others, s) ← evaluateCases rest s
      return (results ++ others, s)

def orderedModes : List SearchMode := [.lexical, .semantic, .hybrid]

def evaluateDataset (dataset : EvaluationDataset) (s : σ) :
    Except EvaluationError EvaluationReport := do
  let cases := dataset.cases.insertionSort fun a b => a.caseId ≤ b.caseId
  let (results, _) ← evaluateCases fixtureIds projectIds retrieve cases s
  let modes ← (orderedModes.filter fun mode => results.any (·.mode = mode)).mapM
    (aggregate results)
  return {
    datasetVersion := dataset.version
    caseCount := dataset.cases.length
    caseResults := results
    modes := modes }

end

/-! ## Shares -/

/-- What a metric may be: a share of the whole. -/
abbrev Share : Set ℚ := Set.Icc 0 1

theorem divide_share {a n : Nat} (hle : a ≤ n) (hn : n ≠ 0) :
    ∃ x ∈ Share, divide a n = .ok x := by
  have hpos : (0 : ℚ) < n := by exact_mod_cast Nat.pos_of_ne_zero hn
  have hle : (a : ℚ) ≤ n := by exact_mod_cast hle
  exact ⟨a / n, ⟨div_nonneg a.cast_nonneg hpos.le, (div_le_one hpos).mpr hle⟩, by rw [divide, if_neg hn]⟩

theorem sum_share {values : List ℚ} (h : ∀ x ∈ values, x ∈ Share) :
    0 ≤ values.sum ∧ values.sum ≤ values.length := by
  have hle := List.sum_le_card_nsmul values 1 fun x hx => (h x hx).2
  exact ⟨List.sum_nonneg fun x hx => (h x hx).1, by simpa using hle⟩

/-- The mean of some shares is one. -/
theorem mean_share {values : List ℚ} (h : ∀ x ∈ values, x ∈ Share) (hne : values ≠ []) :
    ∃ x ∈ Share, divide values.sum values.length = .ok x := by
  have hn : values.length ≠ 0 := by simpa using hne
  have hpos : (0 : ℚ) < values.length := by exact_mod_cast Nat.pos_of_ne_zero hn
  obtain ⟨hnonneg, hle⟩ := sum_share h
  exact ⟨_, ⟨div_nonneg hnonneg hpos.le, (div_le_one hpos).mpr hle⟩, by rw [divide, if_neg hn]⟩

theorem average_share {values : List ℚ} (h : ∀ x ∈ values, x ∈ Share) :
    ∃ a, average values = .ok a ∧ ∀ x ∈ a, x ∈ Share := by
  cases hcase : values.isEmpty with
  | true => exact ⟨none, by simp [average, hcase, pure, Except.pure], by simp⟩
  | false =>
      obtain ⟨x, hx, hdivide⟩ := mean_share h (by simpa using hcase)
      refine ⟨some x, by simp [average, hcase, hdivide], ?_⟩
      intro y hy
      rwa [← Option.some.inj hy]

/-! ## The metrics of a case -/

structure CaseMetrics.Bounded (m : CaseMetrics) : Prop where
  hit : m.hitAtK ∈ Share
  recalled : ∀ x ∈ m.recallAtK, x ∈ Share
  reciprocal : ∀ x ∈ m.reciprocalRank, x ∈ Share
  precision : m.precisionAtK ∈ Share

theorem precisionAt_share {matched retrieved : Nat} (hle : matched ≤ retrieved) :
    ∃ x ∈ Share, precisionAt matched retrieved = .ok x := by
  rw [precisionAt]
  split
  · exact ⟨0, by simp, rfl⟩
  · next hne => exact divide_share hle hne

theorem reciprocalOf_share (expected : Finset String) (retrieved : List String) :
    ∃ x ∈ Share, reciprocalOf (firstRank expected retrieved) = .ok x := by
  rw [firstRank]
  cases retrieved.findIdx? (· ∈ expected) with
  | none => exact ⟨0, by simp, rfl⟩
  | some index =>
      simpa [reciprocalOf] using divide_share (a := 1) (n := index + 1) (by omega) (by omega)

/-- A case is measured whatever came back for it. -/
theorem calculateMetrics_bounded (expected : Finset String) (retrieved : List String) :
    ∃ m, calculateMetrics expected retrieved = .ok m ∧ m.Bounded := by
  obtain ⟨precision, hprecision, h1⟩ :=
    precisionAt_share (List.length_filter_le (· ∈ expected) retrieved)
  by_cases hexpected : expected = ∅
  · refine ⟨⟨0, none, none, precision, some retrieved.isEmpty⟩, ?_, by simp, ?_, ?_, hprecision⟩
    · simp only [calculateMetrics, h1, if_pos hexpected]; rfl
    · simp
    · simp
  have hcard : expected.card ≠ 0 := by simpa using hexpected
  have hmatched : (retrieved.filter (· ∈ expected)).toFinset.card ≤ expected.card := by
    refine Finset.card_le_card fun key hkey => ?_
    simpa using (List.mem_filter.mp (List.mem_toFinset.mp hkey)).2
  obtain ⟨recalled, hrecall, h2⟩ := divide_share hmatched hcard
  obtain ⟨reciprocal, hreciprocal, h3⟩ := reciprocalOf_share expected retrieved
  have hhit : (if (retrieved.filter (· ∈ expected)).isEmpty then 0 else 1 : ℚ) ∈ Share := by
    split <;> simp
  refine ⟨⟨_, some recalled, some reciprocal, precision, none⟩, ?_, hhit, ?_, ?_, hprecision⟩
  · simp only [calculateMetrics, h1, if_neg hexpected, h2, h3]; rfl
  · simpa using hrecall
  · simpa using hreciprocal

/-! ## The metrics of a mode -/

structure AggregateMetrics.Bounded (m : AggregateMetrics) : Prop where
  hit : m.hitAtK ∈ Share
  recalled : ∀ x ∈ m.recallAtK, x ∈ Share
  meanRank : ∀ x ∈ m.meanReciprocalRank, x ∈ Share
  precision : m.precisionAtK ∈ Share
  accuracy : ∀ x ∈ m.noRelevantCaseAccuracy, x ∈ Share

/-- Some case of the mode expects something. -/
def ExpectsIn (results : List CaseResult) (mode : SearchMode) : Prop :=
  ∃ r ∈ results, r.mode = mode ∧ r.expectedKeys ≠ []

theorem aggregate_expects {results : List CaseResult} {mode : SearchMode} {m : ModeResult}
    (h : aggregate results mode = .ok m) : ExpectsIn results mode := by
  rw [aggregate] at h
  obtain ⟨hit, hdivide, -⟩ := bind_ok h
  rw [divide] at hdivide
  split at hdivide
  · cases hdivide
  · next hlength =>
      rw [List.length_map, List.length_eq_zero_iff] at hlength
      obtain ⟨r, hr⟩ := List.exists_mem_of_ne_nil _ hlength
      obtain ⟨hselected, hexpected⟩ := List.mem_filter.mp hr
      obtain ⟨hmem, hmode⟩ := List.mem_filter.mp hselected
      exact ⟨r, hmem, by simpa using hmode, by simpa using hexpected⟩

theorem aggregate_bounded {results : List CaseResult} {mode : SearchMode}
    (hbounded : ∀ r ∈ results, r.metrics.Bounded) (hexpects : ExpectsIn results mode) :
    ∃ m, aggregate results mode = .ok m ∧ m.mode = mode ∧ m.metrics.Bounded := by
  obtain ⟨r, hr, hmode, hexpected⟩ := hexpects
  let selected := results.filter (·.mode = mode)
  let relevant := (selected.filter (!·.expectedKeys.isEmpty)).map (·.metrics)
  let empty := (selected.filter (·.expectedKeys.isEmpty)).map (·.metrics)
  have hselected : ∀ r ∈ selected, r.metrics.Bounded :=
    fun r hr => hbounded r (List.mem_filter.mp hr).1
  have hrelevant : ∀ item ∈ relevant, item.Bounded := by
    intro item hitem
    obtain ⟨r, hr, rfl⟩ := List.mem_map.mp hitem
    exact hselected r (List.mem_filter.mp hr).1
  have hmem : r ∈ selected := List.mem_filter.mpr ⟨hr, by simpa using hmode⟩
  have hmetrics : r.metrics ∈ relevant :=
    List.mem_map_of_mem (List.mem_filter.mpr ⟨hmem, by simpa using hexpected⟩)
  have hhits : ∀ x ∈ relevant.map (·.hitAtK), x ∈ Share := by
    intro x hx
    obtain ⟨item, hitem, rfl⟩ := List.mem_map.mp hx
    exact (hrelevant item hitem).hit
  have hrecalls : ∀ x ∈ relevant.filterMap (·.recallAtK), x ∈ Share := by
    intro x hx
    obtain ⟨item, hitem, hrecall⟩ := List.mem_filterMap.mp hx
    exact (hrelevant item hitem).recalled x hrecall
  have hranks : ∀ x ∈ relevant.filterMap (·.reciprocalRank), x ∈ Share := by
    intro x hx
    obtain ⟨item, hitem, hrank⟩ := List.mem_filterMap.mp hx
    exact (hrelevant item hitem).reciprocal x hrank
  have hprecisions : ∀ x ∈ selected.map (·.metrics.precisionAtK), x ∈ Share := by
    intro x hx
    obtain ⟨r, hr, rfl⟩ := List.mem_map.mp hx
    exact (hselected r hr).precision
  have haccuracies : ∀ x ∈ empty.map fun item : CaseMetrics =>
      (if item.noExpectedMatch = some true then 1 else 0 : ℚ), x ∈ Share := by
    intro x hx
    obtain ⟨item, -, rfl⟩ := List.mem_map.mp hx
    split <;> simp
  obtain ⟨hit, hhit, h1⟩ := mean_share hhits (List.ne_nil_of_mem (List.mem_map_of_mem hmetrics))
  obtain ⟨recalled, h2, hrecall⟩ := average_share hrecalls
  obtain ⟨meanRank, h3, hmeanRank⟩ := average_share hranks
  obtain ⟨precision, hprecision, h4⟩ :=
    mean_share hprecisions (List.ne_nil_of_mem (List.mem_map_of_mem hmem))
  obtain ⟨accuracy, h5, haccuracy⟩ := average_share haccuracies
  rw [List.length_map] at h1 h4
  refine ⟨⟨mode, ⟨selected.length, hit, recalled, meanRank, precision, accuracy⟩, none⟩, ?_, rfl,
    hhit, hrecall, hmeanRank, hprecision, haccuracy⟩
  simp only [aggregate]
  rw [h1, h2, h3, h4, h5]
  rfl

/-- A loop that went through has met every element. -/
theorem mapM_meets {ε α β : Type} {f : α → Except ε β} {as : List α} {bs : List β}
    (h : as.mapM f = .ok bs) : ∀ a ∈ as, ∃ b, f a = .ok b := by
  induction as generalizing bs with
  | nil => simp
  | cons a rest ih =>
      rw [List.mapM_cons] at h
      obtain ⟨b, hb, h⟩ := bind_ok h
      obtain ⟨bs', hrest, -⟩ := bind_ok h
      exact List.forall_mem_cons.mpr ⟨⟨b, hb⟩, ih hrest⟩

/-- A loop goes through where each element does, with what each of them gives. -/
theorem mapM_gives {ε α β : Type} {f : α → Except ε β} {P : α → β → Prop} {as : List α}
    (h : ∀ a ∈ as, ∃ b, f a = .ok b ∧ P a b) :
    ∃ bs, as.mapM f = .ok bs ∧ (∀ a ∈ as, ∃ b ∈ bs, P a b) ∧ ∀ b ∈ bs, ∃ a ∈ as, P a b := by
  induction as with
  | nil => exact ⟨[], rfl, by simp, by simp⟩
  | cons a rest ih =>
      obtain ⟨⟨b, hb, hP⟩, hrest⟩ := List.forall_mem_cons.mp h
      obtain ⟨bs, hbs, hright, hleft⟩ := ih hrest
      refine ⟨b :: bs, ?_, ?_, ?_⟩
      · rw [List.mapM_cons, hb, hbs]
        rfl
      · refine List.forall_mem_cons.mpr ⟨⟨b, List.mem_cons_self, hP⟩, fun a ha => ?_⟩
        obtain ⟨b', hb', hP'⟩ := hright a ha
        exact ⟨b', List.mem_cons_of_mem _ hb', hP'⟩
      · refine List.forall_mem_cons.mpr ⟨⟨a, List.mem_cons_self, hP⟩, fun b' hb' => ?_⟩
        obtain ⟨a', ha', hP'⟩ := hleft b' hb'
        exact ⟨a', List.mem_cons_of_mem _ ha', hP'⟩

/-! ## The runs over the cases -/

section

variable {F σ : Type} {fixtureIds projectIds : List (String × Uuid)} {retrieve : Retriever F σ}

/-- The fixtures and the project that a case names are there. -/
def EvaluationCase.Known (fixtureIds projectIds : List (String × Uuid)) (c : EvaluationCase) :
    Prop :=
  (∀ key ∈ c.relevant ++ c.irrelevant, (lookup fixtureIds key).isSome) ∧
    ∀ scope ∈ c.projectScope, (lookup projectIds scope).isSome

theorem unknownKeys_eq_nil {c : EvaluationCase} :
    c.unknownKeys fixtureIds = [] ↔
      ∀ key ∈ c.relevant ++ c.irrelevant, (lookup fixtureIds key).isSome := by
  simp only [EvaluationCase.unknownKeys, List.filter_eq_nil_iff, List.mem_dedup]
  simp [Option.isSome_iff_ne_none]

theorem resolve_ok_iff {c : EvaluationCase} :
    (∃ id, resolve fixtureIds projectIds c = .ok id) ↔ c.Known fixtureIds projectIds := by
  rw [EvaluationCase.Known, ← unknownKeys_eq_nil, resolve]
  by_cases hkeys : c.unknownKeys fixtureIds = []
  · rw [if_neg (by simpa using hkeys)]
    cases hscope : c.projectScope with
    | none => simp [hkeys]
    | some scope => cases hid : lookup projectIds scope <;> simp [hkeys, hid]
  · simp [hkeys]

/-- What the results of some cases and modes are, apart from what was retrieved. -/
structure Measured (results : List CaseResult) (asked : List (SearchMode × List String)) :
    Prop where
  asked : results.map (fun r => (r.mode, r.expectedKeys)) = asked
  bounded : ∀ r ∈ results, r.metrics.Bounded

theorem Measured.append {results results' : List CaseResult}
    {asked asked' : List (SearchMode × List String)} (h : Measured results asked)
    (h' : Measured results' asked') : Measured (results ++ results') (asked ++ asked') where
  asked := by rw [List.map_append, h.asked, h'.asked]
  bounded := fun r hr => (List.mem_append.mp hr).elim (h.bounded r) (h'.bounded r)

variable (fixtureIds retrieve) in
/-- The modes of a case all come back, in their order. -/
theorem evaluateModes_measured (c : EvaluationCase) (projectId : Option Uuid)
    (modes : List SearchMode) (s : σ) :
    ∃ results s', evaluateModes fixtureIds retrieve c projectId modes s = .ok (results, s') ∧
      Measured results (modes.map fun mode => (mode, c.relevant)) := by
  induction modes generalizing s with
  | nil => exact ⟨[], s, rfl, rfl, by simp⟩
  | cons mode rest ih =>
      let called := retrieve c.query mode projectId c.limit s
      let keys := called.1.filterMap fun row => keyOf fixtureIds row.memory.id
      obtain ⟨metrics, hmetrics, hbounded⟩ := calculateMetrics_bounded c.relevant.toFinset keys
      obtain ⟨results, s', hrest, hmeasured⟩ := ih called.2
      refine ⟨⟨c.caseId, mode, c.limit, c.relevant, keys, metrics⟩ :: results, s', ?_, ?_, ?_⟩
      · simp only [evaluateModes]
        rw [hmetrics, hrest]
        rfl
      · simp [hmeasured.asked]
      · intro r hr
        rcases List.mem_cons.mp hr with rfl | hr
        · exact hbounded
        · exact hmeasured.bounded r hr

/-- The modes a case is asked in, each with what the case expects. -/
def EvaluationCase.asked (c : EvaluationCase) : List (SearchMode × List String) :=
  (c.modes.insertionSort SearchMode.before).map fun mode => (mode, c.relevant)

variable (retrieve) in
theorem evaluateCases_measured {cases : List EvaluationCase}
    (hknown : ∀ c ∈ cases, c.Known fixtureIds projectIds) (s : σ) :
    ∃ results s', evaluateCases fixtureIds projectIds retrieve cases s = .ok (results, s') ∧
      Measured results (cases.flatMap (·.asked)) := by
  induction cases generalizing s with
  | nil => exact ⟨[], s, rfl, rfl, by simp⟩
  | cons c rest ih =>
      obtain ⟨hc, hrest⟩ := List.forall_mem_cons.mp hknown
      obtain ⟨projectId, hresolve⟩ := resolve_ok_iff.mpr hc
      obtain ⟨results, s₁, hmodes, hmeasured⟩ :=
        evaluateModes_measured fixtureIds retrieve c projectId
          (c.modes.insertionSort SearchMode.before) s
      obtain ⟨others, s₂, hothers, hmeasured'⟩ := ih hrest s₁
      refine ⟨results ++ others, s₂, ?_, hmeasured.append hmeasured'⟩
      simp [evaluateCases, hresolve, hmodes, hothers, bind, Except.bind, pure, Except.pure]

theorem evaluateCases_known {cases : List EvaluationCase} {s : σ}
    {answer : List CaseResult × σ}
    (h : evaluateCases fixtureIds projectIds retrieve cases s = .ok answer) :
    ∀ c ∈ cases, c.Known fixtureIds projectIds := by
  induction cases generalizing s answer with
  | nil => simp
  | cons c rest ih =>
      simp only [evaluateCases] at h
      obtain ⟨projectId, hresolve, h⟩ := bind_ok h
      obtain ⟨modes, -, h⟩ := bind_ok h
      obtain ⟨others, hothers, -⟩ := bind_ok h
      exact List.forall_mem_cons.mpr ⟨resolve_ok_iff.mp ⟨projectId, hresolve⟩, ih hothers⟩

end

/-! ## The whole evaluation -/

namespace EvaluationDataset

variable (dataset : EvaluationDataset)

/-- Every fixture key and every project scope of the dataset is in the dictionaries. -/
def Known (fixtureIds projectIds : List (String × Uuid)) : Prop :=
  ∀ c ∈ dataset.cases, c.Known fixtureIds projectIds

def Occurs (mode : SearchMode) : Prop := ∃ c ∈ dataset.cases, mode ∈ c.modes

/-- A case of the mode expects something. -/
def Expects (mode : SearchMode) : Prop := ∃ c ∈ dataset.cases, mode ∈ c.modes ∧ c.relevant ≠ []

end EvaluationDataset

/-- The report has each mode that occurs, and every metric in it is a share of the whole. -/
structure EvaluationReport.Measures (report : EvaluationReport) (dataset : EvaluationDataset) :
    Prop where
  modes : ∀ mode, dataset.Occurs mode → ∃ m ∈ report.modes, m.mode = mode
  cases : ∀ r ∈ report.caseResults, r.metrics.Bounded
  aggregates : ∀ m ∈ report.modes, m.metrics.Bounded

section

variable {F σ : Type} {fixtureIds projectIds : List (String × Uuid)} {retrieve : Retriever F σ}
  {dataset : EvaluationDataset} {s : σ} {results : List CaseResult}

/-- The cases in the order in which they are evaluated. -/
def EvaluationDataset.sortedCases (dataset : EvaluationDataset) : List EvaluationCase :=
  dataset.cases.insertionSort fun a b => a.caseId ≤ b.caseId

theorem mem_sortedCases {c : EvaluationCase} :
    c ∈ dataset.sortedCases ↔ c ∈ dataset.cases := List.mem_insertionSort _

theorem mem_asked {mode : SearchMode} {keys : List String} :
    (mode, keys) ∈ dataset.sortedCases.flatMap (·.asked) ↔
      ∃ c ∈ dataset.cases, mode ∈ c.modes ∧ keys = c.relevant := by
  simp only [List.mem_flatMap, mem_sortedCases, EvaluationCase.asked, List.mem_map,
    List.mem_insertionSort, Prod.mk.injEq]
  constructor
  · rintro ⟨c, hc, mode, hmode, rfl, rfl⟩
    exact ⟨c, hc, hmode, rfl⟩
  · rintro ⟨c, hc, hmode, rfl⟩
    exact ⟨c, hc, mode, hmode, rfl, rfl⟩

theorem Measured.occurs_iff (h : Measured results (dataset.sortedCases.flatMap (·.asked)))
    (mode : SearchMode) : dataset.Occurs mode ↔ ∃ r ∈ results, r.mode = mode := by
  have hasked : dataset.Occurs mode ↔
      ∃ keys, (mode, keys) ∈ dataset.sortedCases.flatMap (·.asked) := by
    simp only [mem_asked, EvaluationDataset.Occurs]
    exact ⟨fun ⟨c, hc, hmode⟩ => ⟨_, c, hc, hmode, rfl⟩, fun ⟨_, c, hc, hmode, _⟩ => ⟨c, hc, hmode⟩⟩
  rw [hasked, ← h.asked]
  simp [eq_comm]

theorem Measured.expects_iff (h : Measured results (dataset.sortedCases.flatMap (·.asked)))
    (mode : SearchMode) : dataset.Expects mode ↔ ExpectsIn results mode := by
  have hasked : dataset.Expects mode ↔
      ∃ keys ≠ [], (mode, keys) ∈ dataset.sortedCases.flatMap (·.asked) := by
    simp only [mem_asked, EvaluationDataset.Expects]
    constructor
    · rintro ⟨c, hc, hmode, hrelevant⟩
      exact ⟨_, hrelevant, c, hc, hmode, rfl⟩
    · rintro ⟨keys, hkeys, c, hc, hmode, rfl⟩
      exact ⟨c, hc, hmode, hkeys⟩
  rw [hasked, ← h.asked, ExpectsIn]
  constructor
  · rintro ⟨keys, hkeys, hmem⟩
    obtain ⟨r, hr, heq⟩ := List.mem_map.mp hmem
    cases heq
    exact ⟨r, hr, rfl, hkeys⟩
  · rintro ⟨r, hr, rfl, hkeys⟩
    exact ⟨_, hkeys, List.mem_map_of_mem hr⟩

/-- The modes that are summed up: those some result has. -/
theorem mem_summedModes {mode : SearchMode} :
    mode ∈ orderedModes.filter (fun mode => results.any (·.mode = mode)) ↔
      ∃ r ∈ results, r.mode = mode := by
  have hall : mode ∈ orderedModes := by cases mode <;> decide
  simp [hall]

end

/-- **An evaluation goes through, with every metric a share of the whole, exactly where the
dictionaries have what the dataset names and every mode that occurs has a case which expects
something.** -/
theorem evaluate_measures_iff {F σ : Type} (fixtureIds projectIds : List (String × Uuid))
    (retrieve : Retriever F σ) (dataset : EvaluationDataset) (s : σ) :
    (∃ report, evaluateDataset fixtureIds projectIds retrieve dataset s = .ok report ∧
      report.Measures dataset) ↔
      dataset.Known fixtureIds projectIds ∧
        ∀ mode, dataset.Occurs mode → dataset.Expects mode := by
  constructor
  · rintro ⟨report, h, -⟩
    simp only [evaluateDataset] at h
    obtain ⟨⟨results, s'⟩, hcases, h⟩ := bind_ok h
    obtain ⟨modes, haggregates, -⟩ := bind_ok h
    have hknown : dataset.Known fixtureIds projectIds :=
      fun c hc => evaluateCases_known hcases c (mem_sortedCases.mpr hc)
    obtain ⟨results', s'', hcases', hmeasured⟩ :=
      evaluateCases_measured retrieve (fun c hc => hknown c (mem_sortedCases.mp hc)) s
    cases hcases.symm.trans hcases'
    refine ⟨hknown, fun mode hoccurs => ?_⟩
    obtain ⟨m, hm⟩ := mapM_meets haggregates mode
      (mem_summedModes.mpr ((hmeasured.occurs_iff mode).mp hoccurs))
    exact (hmeasured.expects_iff mode).mpr (aggregate_expects hm)
  · rintro ⟨hknown, hexpects⟩
    obtain ⟨results, s', hcases, hmeasured⟩ :=
      evaluateCases_measured retrieve (fun c hc => hknown c (mem_sortedCases.mp hc)) s
    obtain ⟨modes, haggregates, hpresent, hbounded⟩ := mapM_gives fun mode hmode =>
      aggregate_bounded hmeasured.bounded ((hmeasured.expects_iff mode).mp
        (hexpects mode ((hmeasured.occurs_iff mode).mpr (mem_summedModes.mp hmode))))
    refine ⟨⟨dataset.version, dataset.cases.length, results, modes, none⟩, ?_, ?_,
      hmeasured.bounded, ?_⟩
    · simp only [evaluateDataset]
      rw [← EvaluationDataset.sortedCases, hcases]
      simp only [bind, Except.bind]
      rw [haggregates]
      rfl
    · intro mode hoccurs
      obtain ⟨m, hm, hmode, -⟩ :=
        hpresent mode (mem_summedModes.mpr ((hmeasured.occurs_iff mode).mp hoccurs))
      exact ⟨m, hm, hmode⟩
    · intro m hm
      obtain ⟨-, -, -, hm⟩ := hbounded m hm
      exact hm

/-- One question, for which nothing is expected. -/
def sampleCase : EvaluationCase where
  caseId := "absent"
  query := "orchid"
  relevant := []
  modes := [.lexical]
  limit := 1

def sampleDataset : EvaluationDataset where
  version := "1.0"
  cases := [sampleCase]
  version_valid := by decide
  cases_nonempty := by simp
  fields_valid := by simp only [List.forall_mem_singleton]; decide
  keys_valid := by simp only [List.forall_mem_singleton]; rfl
  ids_unique := by simp [Keyed]

/-- Nothing it names is missing, and the hits of no case are divided by their number. -/
theorem sampleDataset_divides_by_zero :
    sampleDataset.Known [] [] ∧
      evaluateDataset [] [] (fun _ _ _ _ s => (([] : List (ScoredMemory Unit)), s)) sampleDataset
        () = .error .zeroDivision := by
  refine ⟨?_, rfl⟩
  simp [EvaluationDataset.Known, EvaluationCase.Known, sampleDataset, sampleCase]

end SecondBrain.RetrievalEvaluation
