import SecondBrain.AgentRuns.Service

/-!
# What a session sees of a record, and what it writes back

A session keeps one object for each row that some variable still refers to.
A SELECT, locking or not, gives that object back as it is: the attributes
loaded before are not overwritten, because no statement of the agent runtime
asks to populate existing objects, and the request sessions do not expire their
objects when they commit. Only a rollback and `expire_all` make the next SELECT
read the row again. So a lock on the row orders the transactions, but what a
transaction decides on may be older than the lock.

A `Cache` is what a session still holds when a transaction begins. The
operation runs on the record as the session sees it, and of what it leaves
behind only the attributes that it changed are written, each over the committed
row. Events are counted and inserted by the database, so they are never stale.
With nothing held, or with copies that agree with the rows, all this is the
operation itself (`transact_coherent`).
-/

namespace SecondBrain

open Lib

structure Cache where
  run : Option AgentRun := none
  steps : List AgentStep := []
  invocations : List ToolInvocation := []

def Cache.empty : Cache := {}

def Cache.stepFor (c : Cache) (s : AgentStep) : AgentStep :=
  (c.steps.find? (·.id == s.id)).getD s

def Cache.invocationFor (c : Cache) (i : ToolInvocation) : ToolInvocation :=
  (c.invocations.find? (·.id == i.id)).getD i

/-- The record with the objects held in place of the rows. -/
def Cache.seen (c : Cache) (r : RunRecord) : RunRecord :=
  { r with
    run := c.run.getD r.run
    steps := r.steps.map c.stepFor
    invocations := r.invocations.map c.invocationFor }

/-- An attribute that was set to what it already was is not written. -/
def written {α : Type} [DecidableEq α] (before after committed : α) : α :=
  if after = before then committed else after

@[simp] theorem written_self {α : Type} [DecidableEq α] (before after : α) :
    written before after before = after := by
  unfold written
  split
  · next h => exact h.symm
  · rfl

/-- The key names the row that is written. -/
def AgentRun.writeBack (before after committed : AgentRun) : AgentRun :=
  { after with
    id := committed.id
    state := written before.state after.state committed.state
    revision := written before.revision after.revision committed.revision
    safeErrorCode :=
      written before.safeErrorCode after.safeErrorCode committed.safeErrorCode
    updatedAt := written before.updatedAt after.updatedAt committed.updatedAt
    startedAt := written before.startedAt after.startedAt committed.startedAt
    finishedAt := written before.finishedAt after.finishedAt committed.finishedAt }

def AgentStep.writeBack (before after committed : AgentStep) : AgentStep :=
  { after with
    status := written before.status after.status committed.status
    startedAt := written before.startedAt after.startedAt committed.startedAt
    finishedAt := written before.finishedAt after.finishedAt committed.finishedAt }

def ToolInvocation.writeBack (before after committed : ToolInvocation) :
    ToolInvocation :=
  { after with
    status := written before.status after.status committed.status
    safeResultSummary :=
      written before.safeResultSummary after.safeResultSummary committed.safeResultSummary
    evidenceReferences := written before.evidenceReferences after.evidenceReferences
      committed.evidenceReferences
    safeErrorCode :=
      written before.safeErrorCode after.safeErrorCode committed.safeErrorCode
    startedAt := written before.startedAt after.startedAt committed.startedAt
    finishedAt := written before.finishedAt after.finishedAt committed.finishedAt }

/-- A row the transaction inserted has no earlier version and goes in whole. -/
def writeBackStep (before committed : RunRecord) (s : AgentStep) : AgentStep :=
  match before.getStep s.id, committed.getStep s.id with
  | some b, some k => b.writeBack s k
  | _, _ => s

def writeBackInvocation (before committed : RunRecord) (i : ToolInvocation) :
    ToolInvocation :=
  match before.getInvocation i.id, committed.getInvocation i.id with
  | some b, some k => b.writeBack i k
  | _, _ => i

def RunRecord.writeBack (before after committed : RunRecord) : RunRecord :=
  { after with
    run := before.run.writeBack after.run committed.run
    steps := after.steps.map (writeBackStep before committed)
    invocations := after.invocations.map (writeBackInvocation before committed) }

/-- One transaction of a session: the operation on what the session sees, the
changed attributes over the rows, the row constraint of the run. -/
def transact {α : Type} (c : Cache) (op : RunRecord → Except Fault (α × RunRecord))
    (r : RunRecord) : Except Fault (α × RunRecord) := do
  let (a, after) ← op (c.seen r)
  let r' := (c.seen r).writeBack after r
  if r'.run.finishedIffTerminal then return (a, r')
  else .error (.database .integrity)

theorem AgentRun.writeBack_self {run after : AgentRun} (hid : after.id = run.id) :
    run.writeBack after run = after := by
  simp only [AgentRun.writeBack, written_self, ← hid]

@[simp] theorem writeBackStep_self (r : RunRecord) (s : AgentStep) :
    writeBackStep r r s = s := by
  unfold writeBackStep
  cases r.getStep s.id with
  | none => rfl
  | some b => simp only [AgentStep.writeBack, written_self]

@[simp] theorem writeBackInvocation_self (r : RunRecord) (i : ToolInvocation) :
    writeBackInvocation r r i = i := by
  unfold writeBackInvocation
  cases r.getInvocation i.id with
  | none => rfl
  | some b => simp only [ToolInvocation.writeBack, written_self]

theorem RunRecord.writeBack_self {r after : RunRecord} (hid : after.run.id = r.run.id) :
    r.writeBack after r = after := by
  rw [RunRecord.writeBack, AgentRun.writeBack_self hid,
    List.map_id'' (writeBackStep_self r), List.map_id'' (writeBackInvocation_self r)]

/-- Nothing held, nothing stale. -/
@[simp] theorem Cache.empty_seen (r : RunRecord) : Cache.empty.seen r = r := by
  have hsteps : r.steps.map Cache.empty.stepFor = r.steps := List.map_id'' (fun _ => rfl) _
  have hinvs : r.invocations.map Cache.empty.invocationFor = r.invocations :=
    List.map_id'' (fun _ => rfl) _
  rw [Cache.seen, hsteps, hinvs]
  rfl

theorem transact_ok {α : Type} {c : Cache}
    {op : RunRecord → Except Fault (α × RunRecord)} {r r' : RunRecord} {a : α}
    (h : transact c op r = .ok (a, r')) :
    ∃ after, op (c.seen r) = .ok (a, after) ∧
      r' = (c.seen r).writeBack after r ∧ r'.run.finishedIffTerminal = true := by
  unfold transact at h
  obtain ⟨⟨b, after⟩, hop, h⟩ := bind_ok h
  simp only [] at h
  split at h
  · next hfin =>
      injection h with h
      obtain ⟨rfl, rfl⟩ := Prod.mk.inj h
      exact ⟨after, hop, rfl, hfin⟩
  · cases h

@[simp] theorem transact_id {α : Type} {c : Cache}
    {op : RunRecord → Except Fault (α × RunRecord)} {r r' : RunRecord} {a : α}
    (h : transact c op r = .ok (a, r')) : r'.run.id = r.run.id := by
  obtain ⟨after, -, rfl, -⟩ := transact_ok h
  rfl

/-- A session that holds nothing commits what the operation answers. -/
theorem transact_empty {α : Type} {op : RunRecord → Except Fault (α × RunRecord)}
    {r r' : RunRecord} {a : α} (hop : op r = .ok (a, r')) (hid : r'.run.id = r.run.id)
    (hfin : r'.run.finishedIffTerminal = true) : transact .empty op r = .ok (a, r') := by
  unfold transact
  rw [Cache.empty_seen, hop]
  simp only [Bind.bind, Except.bind, RunRecord.writeBack_self hid, hfin, if_true]
  rfl

/-- What the session sees is what is committed: the operation itself. -/
theorem transact_coherent {α : Type} {c : Cache}
    {op : RunRecord → Except Fault (α × RunRecord)} {r r' : RunRecord} {a : α}
    (hseen : c.seen r = r) (hid : Ensures (op r) fun p => p.2.run.id = r.run.id)
    (h : transact c op r = .ok (a, r')) :
    op r = .ok (a, r') ∧ r'.run.finishedIffTerminal = true := by
  obtain ⟨after, hop, hr', hfin⟩ := transact_ok h
  rw [hseen] at hop hr'
  rw [RunRecord.writeBack_self (hid _ hop)] at hr'
  exact ⟨hr' ▸ hop, hfin⟩

end SecondBrain
