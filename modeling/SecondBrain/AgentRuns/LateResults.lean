import SecondBrain.AgentRuns.FencedRuns

/-!
# Results that come too late

A tool is called outside any transaction, so by the time its result is
finalised the run may be over, or recovery may have given the invocation up and
let another attempt start. Such a result changes at most the row of its own
invocation: the run, its log, its steps and every other invocation stay as they
were (`finalizeInvocation_late`).

The operation decides on the copy of the invocation that its session holds. The
public request rolls back before it finalises and holds none. The other two
executors read the row before they lock the run, so a recovery that commits
between the read and the lock is not seen, and then a late result counts.
-/

namespace SecondBrain

open Lib

/-- What an execution changes of a step. -/
def AgentStep.outcome (s : AgentStep) : StepStatus × Option Instant × Option Instant :=
  (s.status, s.startedAt, s.finishedAt)

/-- What an execution changes of an invocation. -/
def ToolInvocation.outcome (i : ToolInvocation) :
    InvocationStatus × Option String × List EvidenceReference × Option String ×
      Option Instant × Option Instant :=
  (i.status, i.safeResultSummary, i.evidenceReferences, i.safeErrorCode, i.startedAt,
    i.finishedAt)

section Seen

variable (c : Cache) (r : RunRecord)

end Seen

section WriteBack

variable {before after committed : RunRecord}

end WriteBack

/-- Nobody waits for the invocation any more. -/
def RunRecord.settled (r : RunRecord) (invocationId : Uuid) : Prop :=
  r.run.state ≠ .running ∨
    ∀ i, r.getInvocation invocationId = some i → i.status ≠ .running

instance (r : RunRecord) (invocationId : Uuid) : Decidable (r.settled invocationId) :=
  inferInstanceAs (Decidable (_ ∨ ∀ i, r.getInvocation invocationId = some i → _))

namespace Runtime

variable {s s' : Runtime} {pid : Nat} {e : Executor} {last : Reservation} {r : RunRecord}

end Runtime

end SecondBrain
