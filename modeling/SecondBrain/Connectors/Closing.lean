import Mathlib.Data.Finset.Dedup
import Mathlib.Data.Finset.Order
import SecondBrain.Connectors.Settlement

/-!
# A refresh can always close its run

While a refresh is at work there is a way to its end, whatever phase it is in: the
secret is refused or the deadline passes, and a handler closes the run. On this
way no account is touched, unless the refresh is in the handler of an identity
failure already (`Closes`).
-/

namespace SecondBrain

open Lib

namespace Connectors

variable {p : Platform} {s s' : SyncState} {db db' : Store} {r r' : Refresh}
  {run : ConnectorSyncRun} {account : ConnectorAccount} {pid : Nat} {e : Fault} {now : Instant}

/-! ## Harmless faults -/

/-- Whether a handler disables the account. -/
def Fault.isIdentity : Fault → Bool
  | .transport code => decide (code ∈ identityFailures)
  | .credential _ | .database _ | .other => false

/-- Whether the refresh is about to disable its account. -/
def Refresh.disables (r : Refresh) : Bool :=
  match r.phase with
  | .failing e => e.isIdentity
  | _ => false

/-- The refresh alone can get to a state where its run is terminal. -/
structure Closes (p : Platform) (s : SyncState) (pid : Nat) (r : Refresh) (s' : SyncState) : Prop where
  reach : ((Sync.machine p).startingAt s).Reach (fun _ l => l.isOf pid = true) s'
  closed : r.Closed s'.db
  accounts : ∀ {id account}, s.db.account? id = some account →
    (r.disables = true → id = r.accountId → account.revision ≠ r.capturedRevision) →
    s'.db.account? id = some account
  runs : RunsFrom s.db s'.db
  refreshes : ∃ r', s'.refreshes = s.refreshes.set pid r' ∧ r'.phase = .returned

@[simp] theorem isOf_call {call : SyncCall} : (SyncLabel.call pid call).isOf pid = true :=
  beq_self_eq_true pid

theorem own_step {l : SyncLabel} (hstep : Sync.step p s l = some s') (hown : l.isOf pid = true) :
    ((Sync.machine p).startingAt s).Reach (fun _ l => l.isOf pid = true) s' :=
  .single hown hstep

theorem call_step {call : SyncCall} {outcome : Except Fault Progress}
    (hr : s.refreshes[pid]? = some r) (hattempt : attempt p s.db r call = some outcome) :
    Sync.step p s (.call pid call) = some (s.conclude pid r outcome) := by
  rw [Sync.step, hr]
  show (attempt p s.db r call >>= fun outcome => some (s.conclude pid r outcome)) = _
  rw [hattempt]
  rfl

/-- A call goes through, and the rest follows. -/
theorem Closes.after {call : SyncCall} {done : Progress} (h : s.Sound p)
    (hr : s.refreshes[pid]? = some r) (hattempt : attempt p s.db r call = some (.ok done))
    (haccounts : done.db.accounts = s.db.accounts) (hkept : done.refresh.runId = r.runId)
    (hharmless : done.refresh.disables = false)
    (hcloses : Closes p (s.conclude pid r (.ok done)) pid done.refresh s') : Closes p s pid r s' := by
  have hstep := call_step hr hattempt
  have hfirst : RunsFrom s.db done.db := (attempt_advances hattempt).runs_from h.tables
  obtain ⟨r', hr', hreturned⟩ := hcloses.refreshes
  refine ⟨(own_step hstep isOf_call).trans hcloses.reach, ?_, fun haccount _ => ?_,
    hfirst.trans hcloses.runs, r', ?_, hreturned⟩
  · obtain ⟨run, hrun, hterminal⟩ := hcloses.closed
    exact ⟨run, hkept ▸ hrun, hterminal⟩
  · refine hcloses.accounts ?_ fun hdisables => absurd (hharmless.symm.trans hdisables) nofun
    show done.db.account? _ = _
    rw [Store.account?, haccounts]
    exact haccount
  · rw [hr']
    exact List.set_set _

end Connectors

end SecondBrain
