import SecondBrain.Lib.Machine
import SecondBrain.AgentRuns.Session
import SecondBrain.AgentRuns.Recovery
import SecondBrain.Agents.Curator
import SecondBrain.Agents.Scheduled

/-!
# The agent runtime as a machine

The state is the committed records and the executors at work on them; a step is
one committed transaction, or a process ending. Requests that are one
transaction, or whose transactions share nothing but arguments, are steps of
their own with any arguments. An executor runs a loop and then a synthesis over
many transactions, so it has a program counter, what it collected, and what its
session still holds.

There are three kinds. The public execute request keeps the objects its
variables refer to across commits. The scheduler's execution and the recovery
command expire them at each commit, but both read rows just before they lock
them: the scheduler reads the run whose state and revision it then claims with,
and both read the step and the invocation they are about to finalise. A step
names its clock reading, so nothing is assumed about the clocks of different
processes.
-/

namespace SecondBrain

open Lib

inductive EvidenceAgent where
  | research
  | curator
  | dailyBrief
  | projectWatch
deriving DecidableEq, Repr

def EvidenceAgent.value : EvidenceAgent → String
  | .research => "research"
  | .curator => "curator"
  | .dailyBrief => "daily_brief"
  | .projectWatch => "project_watch"

/-- The type of the event an agent's result is stored as. -/
def EvidenceAgent.resultType (a : EvidenceAgent) : String := a.value ++ ".result"

def evidenceAgent? (kind version : String) : Option EvidenceAgent :=
  if isResearch kind version then some .research
  else if isCurator kind version then some .curator
  else if isDailyBrief kind version then some .dailyBrief
  else if isProjectWatch kind version then some .projectWatch
  else none

/-- How asking the provider can go wrong. -/
inductive ProviderFailure where
  | unavailable
  | timeout
  | failed
  | invalid
deriving DecidableEq, Repr

def providerFailureCode (a : EvidenceAgent) : ProviderFailure → String
  | .unavailable => a.value ++ "_provider_unavailable"
  | .timeout => a.value ++ "_provider_timeout"
  | .failed => a.value ++ "_provider_failed"
  | .invalid => a.value ++ "_result_invalid"

/-- What a transaction finds in the other tables, with the string and schema
functions of the libraries. -/
structure World where
  projectExists : Uuid → Bool
  memories : Uuid → Option Memory
  current : String → Uuid → Option String
  parse : PyValue → Option MemoryUpdate
  casefold : String → String

/-- A provider's answer with what the storing transaction finds beside it. -/
inductive Synthesis where
  | research (q : ResearchProviderResult)
  | curator (q : CuratorProviderResult) (uuids : Nat → Uuid × Uuid)
  | dailyBrief (q : ResearchProviderResult) (events : List Citation)
      (eventsCurrent : Bool)
  | projectWatch (q : ProjectWatchProviderResult) (window : ChangeWindow)
      (evidence : List Citation) (changesCurrent : Bool)

inductive ExecutorKind where
  | request
  | scheduled
  | recovery
deriving DecidableEq, Repr

inductive Phase where
  /-- The scheduler has read the run and is about to claim it. -/
  | starting
  | reserving
  | calling
  /-- The rows to finalise were read, the run is not locked yet. -/
  | reloaded
  /-- The loop is over. -/
  | left
  | synthesizing
  | failing (code : String)
  | completing
  | done
deriving DecidableEq, Repr

structure Executor where
  kind : ExecutorKind
  build : Build
  runId : Uuid
  agentKind : String
  agentVersion : String
  phase : Phase
  allowedTools : Option (List ToolIdentity) := none
  /-- What the variables for the step and the invocation refer to. -/
  last : Option Reservation := none
  collected : List CollectedEvidence := []
  /-- Whether a variable refers to the run. -/
  holdsRun : Bool := false
  cache : Cache := .empty

/-- The executor a claim starts. -/
def ExecutionClaim.executor (claim : ExecutionClaim) (kind : ExecutorKind)
    (build : Build) : Executor :=
  { kind := kind
    build := build
    runId := claim.runId
    agentKind := claim.agentKind
    agentVersion := claim.agentVersion
    phase := .reserving }

/-- The agent the executor synthesises for: the public request for the two
public agents, the scheduler for its own two, recovery for none. -/
def Executor.synthesises (e : Executor) : Option EvidenceAgent :=
  match e.kind, evidenceAgent? e.agentKind e.agentVersion with
  | .request, some .research => some .research
  | .request, some .curator => some .curator
  | .scheduled, some .dailyBrief => some .dailyBrief
  | .scheduled, some .projectWatch => some .projectWatch
  | _, _ => none

/-- Project Watch collects its changes when it synthesises, not in the loop. -/
def Executor.collects (e : Executor) : Bool :=
  e.synthesises.any (· ≠ .projectWatch)

structure Runtime where
  runs : Runs := []
  executors : List Executor := []

inductive RuntimeStep where
  | create (build : Build) (world : World) (q : AgentRunCreate)
      (keyHash fingerprint : String) (now : Instant) (runId correlationId : Uuid)
  | transition (runId : Uuid) (expectedState : AgentRunState) (expectedRevision : Nat)
      (newState : AgentRunState) (now : Instant) (code : Option String)
  | cancel (runId : Uuid) (expectedRevision : Nat) (now : Instant)
  | claimPlan (build : Build) (runId : Uuid) (expectedRevision : Nat)
      (allowed : Option (List ToolIdentity)) (now : Instant)
  | freezePlan (claim : PlanningClaim) (rows : List (ValidatedStep × Uuid)) (now : Instant)
  | failPlan (claim : PlanningClaim) (code : String) (now : Instant)
  | propose (build : Build) (world : World) (runId : Uuid) (q : ProposalRequest)
      (now : Instant) (approvalId executionId : Uuid)
  | review (build : Build) (world : World) (runId approvalId : Uuid) (decision : Decision)
      (now : Instant)
  | execute (build : Build) (runId : Uuid) (expectedRevision : Nat) (now : Instant)
  | observe (build : Build) (runId : Uuid)
  | recover (build : Build) (runId : Uuid) (now : Instant)
  | claim (pid : Nat) (now : Instant)
  | reserve (pid : Nat) (providerAvailable : Bool) (now : Instant) (invocationId : Uuid)
  | reload (pid : Nat)
  | finalize (pid : Nat) (output : Option ToolOutput) (code : Option String)
      (observed : List (String × Uuid × String)) (now : Instant)
  | startSynthesis (pid : Nat) (windowValid : Bool) (now : Instant)
  | providerFails (pid : Nat) (failure : ProviderFailure)
  | persist (pid : Nat) (world : World) (synthesis : Synthesis) (now : Instant)
  | failSynthesis (pid : Nat) (now : Instant)
  | complete (pid : Nat) (now : Instant)
  | crash (pid : Nat)

/-- The executor whose session the transaction belongs to. -/
def RuntimeStep.pid? : RuntimeStep → Option Nat
  | .claim pid _ | .reserve pid _ _ _ | .reload pid | .finalize pid _ _ _ _
  | .startSynthesis pid _ _ | .providerFails pid _ | .persist pid _ _ _
  | .failSynthesis pid _ | .complete pid _ | .crash pid => some pid
  | .create .. | .transition .. | .cancel .. | .claimPlan .. | .freezePlan ..
  | .failPlan .. | .propose .. | .review .. | .execute .. | .observe ..
  | .recover .. => none

/-! ## Sessions of executors -/

/-- What is held when the transaction of a step begins. A request rolls back
before it finalises and before it fails a result, and expires everything before
it stores one. -/
def Executor.cacheFor (e : Executor) : RuntimeStep → Cache
  | .persist .. | .failSynthesis .. => .empty
  | .finalize .. => if e.kind = .request then .empty else e.cache
  | _ => e.cache

def retainStep (before : Cache) (r r' : RunRecord) (id : Uuid) : List AgentStep :=
  match r.getStep id, r'.getStep id with
  | some s, some s' =>
      if s'.status = s.status then [(before.steps.find? (·.id == id)).getD s'] else [s']
  | _, s' => s'.toList

def retainInvocation (before : Cache) (r r' : RunRecord) (id : Uuid) :
    List ToolInvocation :=
  match r.getInvocation id, r'.getInvocation id with
  | some i, some i' =>
      if i'.status = i.status then [(before.invocations.find? (·.id == id)).getD i']
      else [i']
  | _, i' => i'.toList

/-- What a request holds after a transaction that took the record from `r` to
`r'`: the run while a variable refers to it, and where the transaction loaded
them the step and the invocation. A copy stays what it was unless the
transaction changed the row. -/
def Executor.retain (e : Executor) (before : Cache) (r r' : RunRecord) (loadsRows : Bool) :
    Cache :=
  match e.kind with
  | .scheduled | .recovery => .empty
  | .request =>
      { run :=
          if e.holdsRun then
            some (if r'.run = r.run then before.run.getD r'.run else r'.run)
          else none
        steps :=
          if loadsRows then (e.last.map fun l => retainStep before r r' l.stepId).getD []
          else before.steps
        invocations :=
          if loadsRows then
            (e.last.map fun l => retainInvocation before r r' l.invocationId).getD []
          else before.invocations }

/-- `collect_output`: what was observed, bound to the exact invocation. -/
def collectOutput (runId : Uuid) (res : Reservation) (offset : Nat)
    (observed : List (String × Uuid × String)) : List CollectedEvidence :=
  (observed.zipIdx (offset + 1)).map fun ((entityType, entityId, version), k) =>
    { evidenceId := "e" ++ toString k
      entityType := entityType
      entityId := entityId
      version := version
      runId := runId
      stepId := res.stepId
      invocationId := res.invocationId }

/-- Whether evidence is collected from what a call answered. -/
def Executor.collectsFrom (e : Executor) (output : Option ToolOutput)
    (code : Option String) : Bool :=
  e.collects && output.isSome && code.isNone

def Executor.found (e : Executor) (last : Reservation) (output : Option ToolOutput)
    (code : Option String) (observed : List (String × Uuid × String)) :
    List CollectedEvidence :=
  if e.collectsFrom output code then
    collectOutput e.runId last e.collected.length observed
  else []

/-- What the invocation is to cite in place of the projection of its output. -/
def Executor.references (e : Executor) (output : Option ToolOutput)
    (code : Option String) (found : List CollectedEvidence) :
    Option (List EvidenceReference) :=
  if e.collectsFrom output code then
    some (found.map fun c =>
      { entityType := c.entityType, id := c.entityId, version := some c.version })
  else none

/-- Reading the run to collect from it puts it into a variable. -/
def Executor.absorb (e : Executor) (output : Option ToolOutput)
    (found : List CollectedEvidence) : Executor :=
  { e with
    collected := e.collected ++ found
    holdsRun := e.holdsRun || (e.collects && output.isSome) }

/-! ## Transactions of executors -/

/-- Looks before the provider is asked. -/
def Executor.startOp (e : Executor) (windowValid : Bool) (now : Instant) (r : RunRecord) :
    Except Fault (Bool × RunRecord) :=
  match e.synthesises with
  | some .research | some .curator => claimSynthesis r now
  | some .dailyBrief => beginDailyBrief r e.collected.length now
  | some .projectWatch => beginProjectWatch r windowValid now
  | none => .error .assertion

def Executor.persistOp (e : Executor) (w : World) (s : Synthesis) (now : Instant)
    (r : RunRecord) : Except Fault (Unit × RunRecord) :=
  match e.synthesises, s with
  | some .research, .research q => do
      let (_, r') ← persistResearchResult w.casefold w.current r e.collected q now
      return ((), r')
  | some .curator, .curator q uuids => do
      let (_, r') ← persistCuratorResult e.build w.parse w.memories w.casefold w.current r
        e.collected q uuids now
      return ((), r')
  | some .dailyBrief, .dailyBrief q events eventsCurrent => do
      let r' ← persistDailyBriefResult w.casefold w.current eventsCurrent r e.collected
        events q now
      return ((), r')
  | some .projectWatch, .projectWatch q window evidence changesCurrent => do
      let r' ← persistProjectWatchResult changesCurrent r window evidence q now
      return ((), r')
  | _, _ => .error .assertion

/-- The scheduler asks for the result it synthesised; the other two ask by the
identity of the run alone. -/
def Executor.completeOp (e : Executor) (now : Instant) (r : RunRecord) :
    Except Fault (Unit × RunRecord) := do
  let r' ← completeRun r (e.synthesises == some .dailyBrief)
    (e.synthesises == some .projectWatch) now
  return ((), r')

/-- A request finalises at once; the other two read the rows first. -/
def Executor.finalizesFrom (e : Executor) : Phase :=
  if e.kind = .request then .calling else .reloaded

/-! ## Steps -/

namespace Runtime

/-- A transaction of a session that holds nothing. -/
def onRun {α : Type} (s : Runtime) (id : Uuid)
    (op : RunRecord → Except Fault (α × RunRecord)) : Option (α × RunRecord) :=
  (s.runs.get id).bind fun r =>
    match transact .empty op r with
    | .ok p => some p
    | .error _ => none

def commit (s : Runtime) (r : RunRecord) : Runtime := { s with runs := s.runs.put r }

/-- An operation that answers the record alone. -/
def alone (op : RunRecord → Except Fault RunRecord) (r : RunRecord) :
    Except Fault (Unit × RunRecord) := do
  let r' ← op r
  return ((), r')

def request {α : Type} (s : Runtime) (id : Uuid)
    (op : RunRecord → Except Fault (α × RunRecord)) : Option Runtime :=
  (s.onRun id op).map fun p => s.commit p.2

/-- A claim that was granted starts an executor. -/
def spawn (s : Runtime) (kind : ExecutorKind) (build : Build)
    (p : Option ExecutionClaim × RunRecord) : Runtime :=
  match p.1 with
  | none => s.commit p.2
  | some claim =>
      { s.commit p.2 with executors := s.executors ++ [claim.executor kind build] }

/-- Runs the transaction of an executor's step. -/
def exec {α : Type} (s : Runtime) (e : Executor) (l : RuntimeStep)
    (op : RunRecord → Except Fault (α × RunRecord)) :
    Option (RunRecord × Except Fault (α × RunRecord)) :=
  (s.runs.get e.runId).map fun r => (r, transact (e.cacheFor l) op r)

def advance (s : Runtime) (pid : Nat) (r' : RunRecord) (e' : Executor) : Runtime :=
  { s.commit r' with executors := s.executors.set pid e' }

def settle (s : Runtime) (pid : Nat) (e' : Executor) : Runtime :=
  { s with executors := s.executors.set pid e' }

/-- A step of the executor `e` with number `pid`. An exception ends it, except
that a result which is refused is failed next. -/
def execStep (s : Runtime) (pid : Nat) (e : Executor) (l : RuntimeStep) : Option Runtime :=
  match l, e.phase with
  | .claim _ now, .starting => do
      let copy ← e.cache.run
      let (_, res) ← s.exec e l fun r =>
        claimExecution e.build r copy.revision e.allowedTools now
      match res with
      | .ok (some _, r') =>
          return s.advance pid r' { e with phase := .reserving, cache := .empty }
      | .ok (none, r') => return s.advance pid r' { e with phase := .done }
      | .error _ => return s.settle pid { e with phase := .done }
  | .reserve _ available now id, .reserving => do
      let (r, res) ← s.exec e l fun r =>
        reserveNext e.build r e.allowedTools available now id
      match res with
      | .ok (some next, r') =>
          let e' := { e with phase := .calling, last := some next }
          return s.advance pid r' { e' with cache := e'.retain e.cache r r' true }
      | .ok (none, r') =>
          return s.advance pid r'
            { e with phase := .left, cache := e.retain e.cache r r' true }
      | .error _ => return s.settle pid { e with phase := .done }
  | .reload _, .calling =>
      if e.kind = .request then none
      else do
        let r ← s.runs.get e.runId
        let res ← e.last
        return s.settle pid { e with
          phase := .reloaded
          cache :=
            { steps := (r.getStep res.stepId).toList
              invocations := (r.getInvocation res.invocationId).toList } }
  | .finalize _ output code observed now, phase =>
      -- a call answers an output or a code
      if phase ≠ e.finalizesFrom ∨ ¬ (output.isSome ∨ code.isSome) then none
      else do
        let last ← e.last
        let found := e.found last output code observed
        let e' := e.absorb output found
        let (r, res) ← s.exec e l fun r =>
          finalizeInvocation e.build r last.stepId last.invocationId output code
            (e.references output code found) now
        match res with
        | .ok (goOn, r') =>
            return s.advance pid r' { e' with
              phase := if goOn then .reserving else .left
              cache := e'.retain .empty r r' true }
        | .error _ => return s.settle pid { e' with phase := .done }
  | .startSynthesis _ windowValid now, .left =>
      if e.synthesises = none then none
      else do
        let (r, res) ← s.exec e l (e.startOp windowValid now)
        match res with
        | .ok (active, r') =>
            return s.advance pid r' { e with
              phase := if active then .synthesizing else .completing
              cache := e.retain e.cache r r' false }
        | .error _ => return s.settle pid { e with phase := .done }
  | .providerFails _ failure, .synthesizing => do
      let agent ← e.synthesises
      return s.settle pid { e with phase := .failing (providerFailureCode agent failure) }
  | .persist _ world synthesis now, .synthesizing => do
      let agent ← e.synthesises
      let (r, res) ← s.exec e l (e.persistOp world synthesis now)
      match res with
      | .ok (_, r') =>
          let cited := e.last.any fun l => e.collected.any (·.stepId == l.stepId)
          return s.advance pid r' { e with
            phase := .completing
            cache := e.retain .empty r r' cited }
      | .error .validation =>
          return s.settle pid { e with
            phase := .failing (providerFailureCode agent .invalid) }
      | .error _ => return s.settle pid { e with phase := .done }
  | .failSynthesis _ now, .failing code => do
      let (r, res) ← s.exec e l (alone (failResult · code now))
      match res with
      | .ok (_, r') =>
          return s.advance pid r' { e with
            phase := .completing
            cache := e.retain .empty r r' false }
      | .error _ => return s.settle pid { e with phase := .done }
  | .complete _ now, phase =>
      if phase ≠ .completing ∧ ¬ (phase = .left ∧ e.synthesises = none) then none
      else do
        let (_, res) ← s.exec e l (e.completeOp now)
        match res with
        | .ok (_, r') => return s.advance pid r' { e with phase := .done }
        | .error _ => return s.settle pid { e with phase := .done }
  | .crash _, _ => some (s.settle pid { e with phase := .done })
  | _, _ => none

def step (s : Runtime) (l : RuntimeStep) : Option Runtime :=
  match l with
  | .create build world q keyHash fingerprint now runId correlationId =>
      match createRun build s.runs world.projectExists q keyHash fingerprint now runId
          correlationId with
      | .ok (_, runs) => some { s with runs := runs }
      | .error _ => none
  | .transition runId expectedState expectedRevision newState now code =>
      s.request runId
        (alone (transitionRun · expectedState expectedRevision newState now code))
  | .cancel runId expectedRevision now =>
      s.request runId (alone (cancelRun · expectedRevision now))
  | .claimPlan build runId expectedRevision allowed now =>
      s.request runId (claimPlanning build · expectedRevision allowed now)
  | .freezePlan claim rows now =>
      s.request claim.runId (alone (finalizePlan · claim rows now))
  | .failPlan claim code now => s.request claim.runId (finalizeFailure · claim code now)
  | .propose build world runId q now approvalId executionId =>
      s.request runId
        (createProposal build world.parse world.memories · q now approvalId executionId)
  | .review build world runId approvalId decision now =>
      s.request runId (reviewProposal build world.memories · approvalId decision now)
  | .execute build runId expectedRevision now =>
      (s.onRun runId (claimExecution build · expectedRevision none now)).map
        (s.spawn .request build)
  | .recover build runId now =>
      (s.onRun runId (prepareOne build · now)).map (s.spawn .recovery build)
  | .observe build runId => do
      let r ← s.runs.get runId
      let definition ← getAutomaticAgentDefinition r.run.agentKind r.run.agentVersion
      if r.run.state ≠ .ready then none
      else some { s with executors := s.executors ++
        [{ kind := .scheduled
           build := build
           runId := runId
           agentKind := r.run.agentKind
           agentVersion := r.run.agentVersion
           phase := .starting
           allowedTools := some definition.allowedTools
           cache := { run := some r.run } }] }
  | l => do
      let pid ← l.pid?
      let e ← s.executors[pid]?
      s.execStep pid e l

/-- What the session of a step holds when its transaction begins. -/
def usedCache (s : Runtime) (l : RuntimeStep) : Cache :=
  ((l.pid?.bind (s.executors[·]?)).map (·.cacheFor l)).getD .empty

/-- Nothing is stored and nobody is at work. -/
def machine : Machine Runtime RuntimeStep where
  start s := s.runs = [] ∧ s.executors = []
  next := step

end Runtime

end SecondBrain
