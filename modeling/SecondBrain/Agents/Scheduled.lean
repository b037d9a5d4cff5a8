import SecondBrain.Agents.Research
import SecondBrain.Lib.Calendar

/-!
# Daily Brief and Project Watch: synthesis behind the scheduler

Both run the same three transactions. The first looks whether there is
something to synthesise: it fails the run when the evidence is unusable, leaves
a run alone that no longer runs, and otherwise hands over to the provider. The
second stores the result, the third fails the run with a safe code. Daily Brief
stores what Research would store, under its own event; Project Watch builds its
own value and bounds neither its length nor its characters.

Neither asks for the deadline again when it stores.
-/

namespace SecondBrain

open Lib

/-- Whether the provider is asked. -/
def beginDailyBrief (r : RunRecord) (evidenceCount : Nat) (now : Instant) :
    Except Fault (Bool × RunRecord) :=
  if dailyBriefDefinition.maxEvidence < evidenceCount then do
    let r' ← failResult r "daily_brief_evidence_invalid" now
    return (false, r')
  else .ok (r.run.state == .running, r)

/-- `events` are the occurrences shown beside the collected evidence, and
`eventsCurrent` whether each of them still is what was shown. -/
def persistDailyBriefResult (casefold : String → String)
    (current : String → Uuid → Option String) (eventsCurrent : Bool) (r : RunRecord)
    (evidence : List CollectedEvidence) (events : List Citation)
    (q : ResearchProviderResult) (now : Instant) : Except Fault RunRecord :=
  if isDailyBrief r.run.agentKind r.run.agentVersion = false ∨ r.run.state ≠ .running then
    .error .validation
  else if stillCurrent r current evidence = false ∨ eventsCurrent = false then
    .error .validation
  else do
    let value ← validateResult casefold q (evidence.map (·.toCitation) ++ events)
    appendAgentEvent r
      (resultEvent r "daily_brief.result" "daily_brief_result"
        "bounded Daily Brief result produced" value now)

/-! ## Project Watch -/

structure ChangeWindow where
  occurrenceId : Uuid
  projectId : Uuid
  lower : Instant
  upper : Instant
deriving DecidableEq, Repr

structure ProjectWatchClaim where
  text : String
  evidenceIds : List String
  text_len : 1 ≤ text.length ∧ text.length ≤ 500
  evidenceIds_len : 1 ≤ evidenceIds.length ∧ evidenceIds.length ≤ 20

structure ProjectWatchProviderResult where
  changesFound : Bool
  findings : List ProjectWatchClaim
  findings_len : findings.length ≤ 5

def ProjectWatchProviderResult.status (q : ProjectWatchProviderResult) : String :=
  if q.changesFound then "changes_found" else "no_meaningful_change"

/-- `windowValid` is whether the window was derived and its changes collected. -/
def beginProjectWatch (r : RunRecord) (windowValid : Bool) (now : Instant) :
    Except Fault (Bool × RunRecord) :=
  if windowValid = false then do
    let r' ← failResult r "project_watch_evidence_invalid" now
    return (false, r')
  else .ok (r.run.state == .running, r)

/-- The references of all findings in the order of their first use. -/
def extendUsed (used ids : List String) : List String :=
  used ++ ids.filter (!used.contains ·)

def watchFinding (evidence : List Citation) (state : List String × List Json)
    (f : ProjectWatchClaim) : Except Fault (List String × List Json) :=
  if ¬ f.evidenceIds.Nodup ∨ f.evidenceIds.any (fun id => (byId evidence id).isNone) then
    .error .validation
  else
    let used := extendUsed state.1 f.evidenceIds
    .ok (used, state.2 ++ [claimJson f.text (f.evidenceIds.map fun id => used.idxOf id + 1)])

def watchJson (status : String) (findings : List Json) (citations : List Citation)
    (window : ChangeWindow) : Json :=
  .obj [("status", .str status), ("findings", .arr findings),
    ("citations", citationsJson citations),
    ("window_start", .str (isoformat window.lower)),
    ("window_end", .str (isoformat window.upper))]

/-- The value an admitted result is stored as. -/
def watchValue (window : ChangeWindow) (evidence : List Citation)
    (q : ProjectWatchProviderResult) : Except Fault Json :=
  if q.changesFound = false then
    if q.findings ≠ [] then .error .validation
    else .ok (watchJson q.status [] [] window)
  else if q.findings = [] then .error .validation
  else do
    let (used, findings) ← q.findings.foldlM (watchFinding evidence) ([], [])
    if projectWatchDefinition.maxCitations < used.length then .error .validation
    else .ok (watchJson q.status findings (used.filterMap (byId evidence)) window)

def persistProjectWatchResult (changesCurrent : Bool) (r : RunRecord)
    (window : ChangeWindow) (evidence : List Citation) (q : ProjectWatchProviderResult)
    (now : Instant) : Except Fault RunRecord :=
  if isProjectWatch r.run.agentKind r.run.agentVersion = false ∨
      r.run.projectId = none ∨ r.run.state ≠ .running then .error .validation
  else if projectWatchDefinition.maxEvidence < evidence.length ∨ changesCurrent = false then
    .error .validation
  else do
    let value ← watchValue window evidence q
    appendAgentEvent r
      (resultEvent r "project_watch.result" "project_watch_result"
        "bounded Project Watch result produced" value now)

end SecondBrain
