import SecondBrain.Knowledge.Model

/-!
# The Context Hub

One query lists items of three families: chunks of the sources that memories link to,
external items of repositories, and calendar events. A query is valid when it is built:
its filters name nothing twice and leave a family.
-/

namespace SecondBrain

open Lib

namespace ContextHub

inductive ContextFamily where
  | localSource
  | github
  | googleCalendar
deriving DecidableEq, Repr

/-- `FAMILY_ORDER`. -/
def familyOrder : List ContextFamily := [.localSource, .github, .googleCalendar]

inductive ContextKind where
  | sourceChunk
  | repository
  | issue
  | pullRequest
  | calendarEvent
deriving DecidableEq, Repr

inductive TrustLabel where
  | localAudited
  | quarantinedExternal
deriving DecidableEq, Repr

inductive ContextState where
  | extracted
  | current
  | stale
  | deleted
deriving DecidableEq, Repr

/-- `KIND_FAMILY`. -/
def ContextKind.family : ContextKind → ContextFamily
  | .sourceChunk => .localSource
  | .repository | .issue | .pullRequest => .github
  | .calendarEvent => .googleCalendar

/-- `STATE_FAMILIES`. -/
def ContextState.families : ContextState → List ContextFamily
  | .extracted => [.localSource]
  | .current | .stale => [.github, .googleCalendar]
  | .deleted => [.github]

/-- `TRUST_FAMILIES`. -/
def TrustLabel.families : TrustLabel → List ContextFamily
  | .localAudited => [.localSource]
  | .quarantinedExternal => [.github, .googleCalendar]

/-- One project, or what is in none. -/
structure ContextScope where
  projectId : Option Uuid
  unassigned : Bool
  exact_scope : unassigned = projectId.isNone
deriving DecidableEq

/-- `_scope_clause`. -/
def ContextScope.clause (scope : ContextScope) (column : Option Uuid) : Bool :=
  if scope.unassigned then column.isNone else column.isSome && column == scope.projectId

@[simp] theorem ContextScope.clause_iff {scope : ContextScope} {column : Option Uuid} :
    scope.clause column = true ↔ column = scope.projectId := by
  unfold clause
  rw [scope.exact_scope]
  cases scope.projectId with
  | none => simp
  | some id =>
      cases column with
      | none => simp
      | some id' => simp

def maxQueryCharacters : Nat := 256
def maxQueryBytes : Nat := 768
def maxPageSize : Nat := 50
def maxTitleCharacters : Nat := 500
def maxTextCharacters : Nat := 4000

/-- `MAX_FAMILY_WORK`. -/
def maxFamilyWork : Nat := 200

/-- `_bounded`. -/
def bounded (value : String) (limit : Nat) : String := String.ofList (value.toList.take limit)

/-- What a query asks for. -/
structure ContextFilters where
  families : List ContextFamily
  kinds : List ContextKind
  trust : List TrustLabel
  states : List ContextState
deriving DecidableEq

namespace ContextFilters

variable (f : ContextFilters)

/-- `_family_enabled`. -/
def enabled (family : ContextFamily) : Bool :=
  f.families.contains family &&
    (f.kinds.isEmpty || f.kinds.any fun kind => kind.family == family) &&
    (f.trust.isEmpty || f.trust.any fun label => label.families.contains family) &&
    (f.states.isEmpty || f.states.any fun state => state.families.contains family)

/-- `closed_compatible_filters`. -/
structure Compatible : Prop where
  families : f.families ≠ [] ∧ f.families.Nodup
  kinds : f.kinds.Nodup ∧ ∀ kind ∈ f.kinds, kind.family ∈ f.families
  trust : f.trust.Nodup ∧ ∀ label ∈ f.trust, ∃ family ∈ label.families, family ∈ f.families
  states : f.states.Nodup ∧ ∀ state ∈ f.states, ∃ family ∈ state.families, family ∈ f.families
  eligible : ∃ family ∈ f.families, f.enabled family = true

instance : Decidable f.Compatible :=
  decidable_of_iff
    ((f.families ≠ [] ∧ f.families.Nodup) ∧
      (f.kinds.Nodup ∧ ∀ kind ∈ f.kinds, kind.family ∈ f.families) ∧
      (f.trust.Nodup ∧ ∀ label ∈ f.trust, ∃ family ∈ label.families, family ∈ f.families) ∧
      (f.states.Nodup ∧ ∀ state ∈ f.states, ∃ family ∈ state.families, family ∈ f.families) ∧
      ∃ family ∈ f.families, f.enabled family = true)
    ⟨fun ⟨h1, h2, h3, h4, h5⟩ => ⟨h1, h2, h3, h4, h5⟩,
      fun ⟨h1, h2, h3, h4, h5⟩ => ⟨h1, h2, h3, h4, h5⟩⟩

end ContextFilters

structure ContextHubQuery extends ContextFilters where
  scope : ContextScope
  query : String
  pageSize : Nat
  compatible : toContextFilters.Compatible
  query_bounded : query.length ≤ maxQueryCharacters ∧ Json.octets query.toList ≤ maxQueryBytes
  page_bounded : 1 ≤ pageSize ∧ pageSize ≤ maxPageSize

/-! ## Items -/

structure LocalSourceProvenance where
  sourceId : Uuid
  documentId : Uuid
  chunkId : Uuid
  chunkIndex : Int
  contentHash : String
deriving DecidableEq

structure GitHubProvenance where
  accountId : Uuid
  externalResourceId : String
  externalItemId : String
  revisionId : Uuid
  applicationRevision : Nat
deriving DecidableEq

structure CalendarProvenance where
  accountRevisionId : Uuid
  calendarIdentityId : Uuid
  occurrenceKey : String
  eventRevisionId : Uuid
  applicationRevision : Nat
  evidenceSyncRunId : Uuid
deriving DecidableEq

inductive ContextProvenance where
  | localSource (p : LocalSourceProvenance)
  | github (p : GitHubProvenance)
  | googleCalendar (p : CalendarProvenance)
deriving DecidableEq

structure LocalSourcePosition where
  sourceCreatedAt : Instant
  sourceId : Uuid
  chunkIndex : Int
  chunkId : Uuid
deriving DecidableEq

structure GitHubPosition where
  applicationRevision : Int
  revisionId : Uuid
deriving DecidableEq

structure CalendarPosition where
  applicationRevision : Int
  revisionId : Uuid
deriving DecidableEq

inductive ContextPosition where
  | localSource (p : LocalSourcePosition)
  | github (p : GitHubPosition)
  | googleCalendar (p : CalendarPosition)
deriving DecidableEq

def ContextProvenance.family : ContextProvenance → ContextFamily
  | .localSource _ => .localSource
  | .github _ => .github
  | .googleCalendar _ => .googleCalendar

def ContextPosition.family : ContextPosition → ContextFamily
  | .localSource _ => .localSource
  | .github _ => .github
  | .googleCalendar _ => .googleCalendar

structure ContextItem where
  family : ContextFamily
  kind : ContextKind
  scope : ContextScope
  trust : TrustLabel
  state : ContextState
  title : String
  text : String
  provenance : ContextProvenance
  position : ContextPosition
deriving DecidableEq

end ContextHub

end SecondBrain
