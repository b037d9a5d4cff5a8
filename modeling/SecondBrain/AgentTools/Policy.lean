import SecondBrain.Basic

/-!
# The tool registry and the policy of one call

A registered tool is metadata: its limits, its modes and the schema its input
must meet. Validating an input against a schema is left to a function of the
definition, `normalize`, which gives the JSON dump of the validated input or
nothing. The policy is pure: it decides one call from the captured facts about
the run and the number of calls reserved so far, in the order the checks stand
in, and a rejection names the first check that failed.
-/

namespace SecondBrain

open Lib

/-- The authority columns of the database know three; the registry has `read`
only. -/
inductive Authority where
  | read
  | propose
  | execute
deriving DecidableEq, Repr

inductive ScopeMode where
  | exactRunScope
  | operatorAggregate
deriving DecidableEq, Repr

inductive ProviderMode where
  | none
  | conditional
deriving DecidableEq, Repr

inductive NetworkMode where
  | none
  | configuredProviderOnly
deriving DecidableEq, Repr

inductive IdempotencyClass where
  | pureRead
deriving DecidableEq, Repr

def maxTimeoutSeconds : Nat := 15

def maxCallsPerRun : Nat := 5

def maxOutputBytes : Nat := 65536

structure ToolDefinition where
  name : String
  version : Nat
  authority : Authority := .read
  timeoutSeconds : Nat := 10
  callsPerRun : Nat := 5
  scopeMode : ScopeMode := .exactRunScope
  providerMode : ProviderMode := .none
  networkMode : NetworkMode := .none
  maxOutputBytes : Nat := 65536
  idempotency : IdempotencyClass := .pureRead
  /-- Strict validation of a candidate input, then the dump of the result. -/
  normalize : Json → Option Json

/-- The code a process runs, as far as the database outlives it: a restart may
be onto another registry. `sha256` is the hash of the standard library. -/
structure Build where
  registryVersion : String
  registry : List ToolDefinition
  sha256 : String → String

def Build.getExact (build : Build) (name : String) (version : Nat) :
    Option ToolDefinition :=
  if version < 1 then none
  else build.registry.find? fun d => d.name == name && d.version == version

inductive PolicyRejectionCode where
  | registryVersionMismatch
  | unknownTool
  | invalidToolVersion
  | invalidInput
  | authorityDenied
  | scopeDenied
  | operatorCapabilityDenied
  | providerUnavailable
  | networkDenied
  | totalBudgetExhausted
  | toolBudgetExhausted
  | invalidRegistryDefinition
deriving DecidableEq, Repr

def PolicyRejectionCode.value : PolicyRejectionCode → String
  | .registryVersionMismatch => "registry_version_mismatch"
  | .unknownTool => "unknown_tool"
  | .invalidToolVersion => "invalid_tool_version"
  | .invalidInput => "invalid_input"
  | .authorityDenied => "authority_denied"
  | .scopeDenied => "scope_denied"
  | .operatorCapabilityDenied => "operator_capability_denied"
  | .providerUnavailable => "provider_unavailable"
  | .networkDenied => "network_denied"
  | .totalBudgetExhausted => "total_budget_exhausted"
  | .toolBudgetExhausted => "tool_budget_exhausted"
  | .invalidRegistryDefinition => "invalid_registry_definition"

structure ResolvedToolPolicy where
  name : String
  version : Nat
  authority : Authority
  normalizedInput : Json
  runProjectScope : Option Uuid
  scopeMode : ScopeMode
  providerMode : ProviderMode
  networkMode : NetworkMode
  timeoutSeconds : Nat
  maxOutputBytes : Nat
  remainingRunCalls : Nat
  remainingToolCalls : Nat

/-- What the caller captured about the run before asking. -/
structure PolicyRequest where
  name : String
  version : Nat
  requestedAuthority : Authority
  candidateInput : Json
  capturedRegistryVersion : String
  capturedRunProjectScope : Option Uuid
  capturedRunToolCallBudget : Nat
  totalCallsReserved : Nat
  toolCallsReserved : Nat
  configuredProviderAvailable : Bool
  operatorAggregateAllowed : Bool := false

/-- A lexical search needs no embedding provider, whatever its definition says. -/
def effectiveModes (d : ToolDefinition) (normalized : Json) :
    ProviderMode × NetworkMode :=
  match d.name == "memory.search_explained", normalized.field? "mode" with
  | true, some (.str "lexical") => (.none, .none)
  | _, _ => (d.providerMode, d.networkMode)

/-- `project.get` may only name the project of the run. -/
def projectInScope (d : ToolDefinition) (normalized : Json) (scope : Option Uuid) :
    Bool :=
  if d.name = "project.get" then
    match scope, normalized.field? "project_id" with
    | some project, some (.str text) => text == project.text
    | _, _ => false
  else true

def resolveToolPolicy (build : Build) (q : PolicyRequest) :
    Except PolicyRejectionCode ResolvedToolPolicy :=
  if q.capturedRegistryVersion ≠ build.registryVersion then
    .error .registryVersionMismatch
  else if q.version < 1 then .error .invalidToolVersion
  else match build.getExact q.name q.version with
  | none => .error .unknownTool
  | some d =>
      if q.requestedAuthority ≠ .read then .error .authorityDenied
      else match d.normalize q.candidateInput with
      | none => .error .invalidInput
      | some normalized =>
          let modes := effectiveModes d normalized
          if projectInScope d normalized q.capturedRunProjectScope = false then
            .error .scopeDenied
          else if d.scopeMode = .operatorAggregate ∧
              q.operatorAggregateAllowed = false then
            .error .operatorCapabilityDenied
          else if modes.1 = .conditional ∧
              q.configuredProviderAvailable = false then
            .error .providerUnavailable
          else if q.capturedRunToolCallBudget ≤ q.totalCallsReserved then
            .error .totalBudgetExhausted
          else if d.callsPerRun ≤ q.toolCallsReserved then
            .error .toolBudgetExhausted
          else if maxTimeoutSeconds < d.timeoutSeconds ∨
              SecondBrain.maxOutputBytes < d.maxOutputBytes then
            .error .invalidRegistryDefinition
          else .ok
            { name := d.name
              version := d.version
              authority := d.authority
              normalizedInput := normalized
              runProjectScope := q.capturedRunProjectScope
              scopeMode := d.scopeMode
              providerMode := modes.1
              networkMode := modes.2
              timeoutSeconds := d.timeoutSeconds
              maxOutputBytes := d.maxOutputBytes
              remainingRunCalls :=
                q.capturedRunToolCallBudget - q.totalCallsReserved - 1
              remainingToolCalls := d.callsPerRun - q.toolCallsReserved - 1 }

/-- Every check the policy makes of a call of the tool, whose input is validated as
`normalized`. -/
structure PolicyRequest.Granted (build : Build) (q : PolicyRequest) (d : ToolDefinition)
    (normalized : Json) : Prop where
  registryVersion : q.capturedRegistryVersion = build.registryVersion
  version : 1 ≤ q.version
  registered : build.getExact q.name q.version = some d
  authority : q.requestedAuthority = .read
  input : d.normalize q.candidateInput = some normalized
  inScope : projectInScope d normalized q.capturedRunProjectScope = true
  operator : d.scopeMode = .operatorAggregate → q.operatorAggregateAllowed = true
  provider : (effectiveModes d normalized).1 = .conditional → q.configuredProviderAvailable = true
  total : q.totalCallsReserved < q.capturedRunToolCallBudget
  perTool : q.toolCallsReserved < d.callsPerRun
  timeout : d.timeoutSeconds ≤ maxTimeoutSeconds
  output : d.maxOutputBytes ≤ SecondBrain.maxOutputBytes

theorem resolveToolPolicy_granted {build : Build} {q : PolicyRequest}
    {policy : ResolvedToolPolicy} (h : resolveToolPolicy build q = .ok policy) :
    ∃ d, q.Granted build d policy.normalizedInput := by
  unfold resolveToolPolicy at h
  split at h
  · cases h
  next hregistry =>
  split at h
  · cases h
  next hversion =>
  split at h
  · cases h
  next d hd =>
  split at h
  · cases h
  next hauthority =>
  split at h
  · cases h
  next normalized hnormalized =>
  simp only [] at h
  split at h
  · cases h
  next hscope =>
  split at h
  · cases h
  next hoperator =>
  split at h
  · cases h
  next hprovider =>
  split at h
  · cases h
  next htotal =>
  split at h
  · cases h
  next htool =>
  split at h
  · cases h
  next hlimits =>
  cases h
  rw [not_or, not_lt, not_lt] at hlimits
  exact ⟨d, {
    registryVersion := not_not.mp hregistry
    version := not_lt.mp hversion
    registered := hd
    authority := not_not.mp hauthority
    input := hnormalized
    inScope := by simpa using hscope
    operator := fun hmode => by simpa [hmode] using hoperator
    provider := fun hmode => by simpa [hmode] using hprovider
    total := not_le.mp htotal
    perTool := not_le.mp htool
    timeout := hlimits.1
    output := hlimits.2 }⟩

theorem PolicyRequest.Granted.resolve {build : Build} {q : PolicyRequest} {d : ToolDefinition}
    {normalized : Json} (h : q.Granted build d normalized) :
    ∃ policy, resolveToolPolicy build q = .ok policy ∧ policy.normalizedInput = normalized := by
  unfold resolveToolPolicy
  rw [if_neg (not_not.mpr h.registryVersion), if_neg (not_lt.mpr h.version)]
  simp only [h.registered, h.input]
  rw [if_neg (not_not.mpr h.authority), if_neg (by rw [h.inScope]; nofun), if_neg, if_neg,
    if_neg (not_le.mpr h.total), if_neg (not_le.mpr h.perTool), if_neg]
  · exact ⟨_, rfl, rfl⟩
  · rw [not_or, not_lt, not_lt]
    exact ⟨h.timeout, h.output⟩
  · rintro ⟨hmode, havailable⟩
    rw [h.provider hmode] at havailable
    cases havailable
  · rintro ⟨hmode, hallowed⟩
    rw [h.operator hmode] at hallowed
    cases hallowed

end SecondBrain
