import SecondBrain.AgentRuns.Executor

/-!
# Research: validating and storing a cited result

The provider answers outside any transaction, so everything it was shown is
looked at again before the answer is stored: the run still runs, each piece of
evidence still belongs to a succeeded invocation of the run and still has the
version it was read at. The answer is then rewritten with citations numbered in
the order of their first use, and the text of that value is bounded.

Claiming the synthesis and failing the run are the same three questions for
every evidence agent and stand here once.

`current` gives the version of an entity as the database has it, if it has one
in the scope of the run; `casefold` is the string method.
-/

namespace SecondBrain

open Lib

/-- What a citation points at, as it was shown to the provider. -/
structure Citation where
  evidenceId : String
  entityType : String
  entityId : Uuid
  version : String
deriving DecidableEq, Repr

/-- Evidence bound to the exact invocation that read it. -/
structure CollectedEvidence extends Citation where
  runId : Uuid
  stepId : Uuid
  invocationId : Uuid
deriving DecidableEq, Repr

structure ResearchClaim where
  text : String
  citations : List String
  text_len : 1 ≤ text.length ∧ text.length ≤ 500
  citations_len : 1 ≤ citations.length ∧ citations.length ≤ 20

/-- What the provider contract admits. An answer has claims and no
insufficiency, an insufficiency no claims. -/
structure ResearchProviderResult where
  answered : Bool
  claims : List ResearchClaim
  insufficiency : Option String
  claims_len : claims.length ≤ 5
  insufficiency_len : ∀ text ∈ insufficiency, 1 ≤ text.length ∧ text.length ≤ 1000
  consistent : if answered then claims ≠ [] ∧ insufficiency = none
    else claims = [] ∧ insufficiency ≠ none

def ResearchProviderResult.status (q : ResearchProviderResult) : String :=
  if q.answered then "answered" else "insufficient_evidence"

def forbiddenPublicText : List String :=
  ["password", "secret", "token", "api_key", "authorization", "bearer ", "://"]

def occursIn (marker text : String) : Bool := text.toList.tails.any marker.toList.isPrefixOf

def mentionsForbidden (casefold : String → String) (text : String) : Bool :=
  forbiddenPublicText.any (occursIn · (casefold text))

/-- Below the blank, except for the newline and the tab. -/
def hasControl (text : String) : Bool :=
  text.toList.any fun c => c.toNat < 32 && c != '\n' && c != '\t'

def byId (evidence : List Citation) (id : String) : Option Citation :=
  evidence.reverse.find? (·.evidenceId == id)

/-- The citations numbered so far, in the order of their numbers. -/
abbrev Numbering := List Citation

def Numbering.number (n : Numbering) (id : String) : Option Nat :=
  (n.findIdx? (·.evidenceId == id)).map (· + 1)

/-- Numbers one reference, giving it the next number at its first use. -/
def numberReference (evidence : List Citation) (state : Numbering × List Nat)
    (id : String) : Except Fault (Numbering × List Nat) :=
  match byId evidence id with
  | none => .error .validation
  | some item =>
      match state.1.number id with
      | some k => .ok (state.1, state.2 ++ [k])
      | none =>
          if state.1.length = 20 then .error .validation
          else .ok (state.1 ++ [item], state.2 ++ [state.1.length + 1])

def claimJson (text : String) (numbers : List Nat) : Json :=
  .obj [("text", .str text),
    ("citation_numbers", .arr (numbers.map fun n => .int (n : Int)))]

def citationJson (number : Nat) (c : Citation) : Json :=
  .obj [("number", .int (number : Int)), ("entity_type", .str c.entityType),
    ("entity_id", .str c.entityId.text), ("version", .str c.version)]

def citationsJson (n : Numbering) : Json :=
  .arr ((n.zipIdx 1).map fun (c, k) => citationJson k c)

/-- One claim: safe text, no reference twice, every reference known. -/
def validateClaim (casefold : String → String) (evidence : List Citation)
    (state : Numbering × List Json) (claim : ResearchClaim) :
    Except Fault (Numbering × List Json) :=
  if mentionsForbidden casefold claim.text || hasControl claim.text then .error .validation
  else if ¬ claim.citations.Nodup then .error .validation
  else do
    let (numbering, numbers) ←
      claim.citations.foldlM (numberReference evidence) (state.1, [])
    return (numbering, state.2 ++ [claimJson claim.text numbers])

def resultJson (q : ResearchProviderResult) (numbering : Numbering) (claims : List Json) :
    Json :=
  .obj [("status", .str q.status), ("claims", .arr claims),
    ("citations", citationsJson numbering),
    ("insufficiency", match q.insufficiency with
      | none => .null
      | some text => .str text)]

def maxResultText : Nat := 3500

def validateResult (casefold : String → String) (q : ResearchProviderResult)
    (evidence : List Citation) : Except Fault Json := do
  if evidence = [] ∧ q.answered = true then .error .validation
  else
    let (numbering, claims) ← q.claims.foldlM (validateClaim casefold evidence) ([], [])
    if q.insufficiency.any (mentionsForbidden casefold) then .error .validation
    else
      let value := resultJson q numbering claims
      if maxResultText < value.dumpsLen then .error .validation else .ok value

/-- Every item still belongs to a succeeded invocation of this run and has the
version it was read at. -/
def stillCurrent (r : RunRecord) (current : String → Uuid → Option String)
    (items : List CollectedEvidence) : Bool :=
  items.all fun item =>
    item.runId == r.run.id &&
      (r.getStep item.stepId).isSome &&
      (r.getInvocation item.invocationId).any (fun i =>
        i.stepId == item.stepId && i.status == .succeeded) &&
      current item.entityType item.entityId == some item.version

/-- The result event of an agent. -/
def resultEvent (r : RunRecord) (eventType code message : String) (value : Json)
    (now : Instant) : AgentEvent :=
  { eventType := eventType
    safeCode := code
    safeMessage := message
    metadata := value
    correlationId := r.run.correlationId
    occurredAt := now }

/-- Whether the result was stored: at the deadline the run expires instead. -/
def persistResearchResult (casefold : String → String)
    (current : String → Uuid → Option String) (r : RunRecord)
    (evidence : List CollectedEvidence) (q : ResearchProviderResult) (now : Instant) :
    Except Fault (Bool × RunRecord) :=
  if isResearch r.run.agentKind r.run.agentVersion = false ∨ r.run.state ≠ .running then
    .error .validation
  else if r.run.runDeadline ≤ now then do
    let r' ← transitionRun r .running r.run.revision .expired now (some "deadline_expired")
    return (false, r')
  else if stillCurrent r current evidence = false then .error .validation
  else do
    let value ← validateResult casefold q (evidence.map (·.toCitation))
    let r' ← appendAgentEvent r
      (resultEvent r "research.result" "research_result"
        "bounded Research result produced" value now)
    return (true, r')

/-! ## What every evidence agent asks before and after the provider -/

/-- Whether the provider may be asked: the run runs and is in time. -/
def claimSynthesis (r : RunRecord) (now : Instant) : Except Fault (Bool × RunRecord) :=
  if r.run.state ≠ .running then .ok (false, r)
  else if now < r.run.runDeadline then .ok (true, r)
  else do
    let r' ← transitionRun r .running r.run.revision .expired now (some "deadline_expired")
    return (false, r')

def failResult (r : RunRecord) (code : String) (now : Instant) : Except Fault RunRecord :=
  if r.run.state ≠ .running then .ok r
  else transitionRun r .running r.run.revision .failed now (some code)

end SecondBrain
