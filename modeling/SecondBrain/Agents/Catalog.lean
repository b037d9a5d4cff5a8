import SecondBrain.Basic

/-!
# The code-owned agent identities

Four agents collect evidence and synthesise a result: Research and the Memory
Curator through the public execute request, Daily Brief and Project Watch
through the scheduler only. An identity is a kind with a version, and a version
of a known kind that the catalog does not hold is refused rather than treated
as an unknown kind.
-/

namespace SecondBrain

abbrev ToolIdentity := String × Nat

def researchTools : List ToolIdentity :=
  [("project.get", 1), ("memory.get", 1), ("memory.search_explained", 1),
    ("source.get", 1), ("source_chunk.get", 1)]

def curatorTools : List ToolIdentity :=
  [("memory.get", 1), ("memory.search_explained", 1)]

def isResearch (kind version : String) : Bool :=
  kind == "research" && version == "1"

def isUnknownResearch (kind version : String) : Bool :=
  kind == "research" && !isResearch kind version

def isCurator (kind version : String) : Bool :=
  kind == "memory_curator" && version == "1"

def isUnknownCurator (kind version : String) : Bool :=
  kind == "memory_curator" && !isCurator kind version

def isDailyBrief (kind version : String) : Bool :=
  kind == "daily_brief" && version == "1"

def isProjectWatch (kind version : String) : Bool :=
  kind == "project_watch" && version == "1"

/-- Exact fixed definition allowed to cross the unattended boundary. -/
structure AutomaticAgentDefinition where
  kind : String
  version : String
  authority : String := "read"
  registryVersion : String := "agent-tools-v1"
  allowedTools : List ToolIdentity := researchTools
  maxEvidence : Nat := 20
  maxClaims : Nat := 5
  maxCitations : Nat := 20
  codeOwned : Bool := true
deriving DecidableEq, Repr

def dailyBriefDefinition : AutomaticAgentDefinition :=
  { kind := "daily_brief", version := "1" }

def projectWatchDefinition : AutomaticAgentDefinition :=
  { kind := "project_watch", version := "1" }

def getAutomaticAgentDefinition (kind version : String) :
    Option AutomaticAgentDefinition :=
  if isDailyBrief kind version then some dailyBriefDefinition
  else if isProjectWatch kind version then some projectWatchDefinition
  else none

/-- `IMPLEMENTED_AUTOMATION_AGENT_IDENTITIES`. -/
def isImplementedAutomationIdentity (kind version : String) : Bool :=
  isDailyBrief kind version || isProjectWatch kind version

structure SchedulableAgent where
  kind : String
  version : String
  projectRequired : Bool
deriving DecidableEq, Repr

def getSchedulableAgent (kind version : String) : Option SchedulableAgent :=
  if isDailyBrief kind version then some ⟨"daily_brief", "1", false⟩
  else if isProjectWatch kind version then some ⟨"project_watch", "1", true⟩
  else none

def isReservedAutomationAgentKind (kind : String) : Bool :=
  kind == "daily_brief" || kind == "project_watch"

/-- A version of an automation family that is not installed. -/
def isReservedAutomationAgentIdentity (kind version : String) : Bool :=
  isReservedAutomationAgentKind kind && !isImplementedAutomationIdentity kind version

end SecondBrain
