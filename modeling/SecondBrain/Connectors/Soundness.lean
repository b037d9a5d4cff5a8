import SecondBrain.Connectors.Revisions

/-!
# What the connector tables keep to

No step takes a row back. What an account was created with and what a run was
claimed with stay as they are, a revision of an account only grows and nothing
that a refresh depends on changes under one revision, and a run that is terminal
stays terminal (`Keeps`). With this every refresh at work has its run and its
account, and the account it has loaded is one that could be claimed (`Sound`).
-/

namespace SecondBrain

open Lib

namespace Connectors

variable {p : Platform} {s s' : SyncState} {db db' : Store} {r : Refresh}
  {run run' : ConnectorSyncRun} {account account' : ConnectorAccount} {l : SyncLabel}

/-! ## What stays -/

/-- What a run was claimed with. -/
def ConnectorSyncRun.asClaimed (run : ConnectorSyncRun) : ConnectorSyncRun :=
  { run with
    status := .claimed
    itemsSeen := 0
    itemsCreated := 0
    itemsUnchanged := 0
    safeErrorCode := none
    reconciliationComplete := false
    startedAt := none
    completedAt := none }

/-- What an account was created with. -/
def ConnectorAccount.asCreated (account : ConnectorAccount) : ConnectorAccount :=
  { account with
    projectId := none
    resourceAllowlist := []
    lifecycle := .disabled
    validationStatus := .unvalidated
    revision := 0
    lastValidatedAt := none }

/-- What a refresh depends on. -/
def ConnectorAccount.configuration (account : ConnectorAccount) :
    Lifecycle × Option Uuid × List String :=
  (account.lifecycle, account.projectId, account.resourceAllowlist)

structure RunKept (run run' : ConnectorSyncRun) : Prop where
  claimed : run'.asClaimed = run.asClaimed
  terminal : run.status.isTerminal = true → run'.status.isTerminal = true

structure AccountKept (account account' : ConnectorAccount) : Prop where
  created : account'.asCreated = account.asCreated
  revision : account.revision ≤ account'.revision
  configured : account'.revision = account.revision → account'.configuration = account.configuration

structure Keeps (db db' : Store) : Prop where
  runs : ∀ {id run}, db.run? id = some run → ∃ run', db'.run? id = some run' ∧ RunKept run run'
  accounts : ∀ {id account}, db.account? id = some account →
    ∃ account', db'.account? id = some account' ∧ AccountKept account account'

theorem RunKept.refl (run : ConnectorSyncRun) : RunKept run run := ⟨rfl, id⟩

theorem AccountKept.refl (account : ConnectorAccount) : AccountKept account account :=
  ⟨rfl, le_rfl, fun _ => rfl⟩

theorem RunKept.trans {run'' : ConnectorSyncRun} (h : RunKept run run') (h' : RunKept run' run'') :
    RunKept run run'' :=
  ⟨h'.claimed.trans h.claimed, fun hrun => h'.terminal (h.terminal hrun)⟩

theorem AccountKept.changed (hcreated : account'.asCreated = account.asCreated)
    (hrevision : account'.revision = account.revision + 1) : AccountKept account account' :=
  ⟨hcreated, by omega, fun heq => absurd heq (by omega)⟩

theorem AccountKept.trans {account'' : ConnectorAccount} (h : AccountKept account account')
    (h' : AccountKept account' account'') : AccountKept account account'' := by
  refine ⟨h'.created.trans h.created, h.revision.trans h'.revision, fun hrevision => ?_⟩
  have hle := h.revision
  have hle' := h'.revision
  exact (h'.configured (by omega)).trans (h.configured (by omega))

theorem RunKept.id_eq (h : RunKept run run') : run'.id = run.id :=
  (congrArg (·.id) h.claimed : run'.asClaimed.id = run.asClaimed.id)

theorem RunKept.accountId_eq (h : RunKept run run') : run'.accountId = run.accountId :=
  (congrArg (·.accountId) h.claimed : run'.asClaimed.accountId = run.asClaimed.accountId)

theorem RunKept.accountRevision_eq (h : RunKept run run') :
    run'.accountRevision = run.accountRevision :=
  (congrArg (·.accountRevision) h.claimed :
    run'.asClaimed.accountRevision = run.asClaimed.accountRevision)

theorem AccountKept.id_eq (h : AccountKept account account') : account'.id = account.id :=
  (congrArg (·.id) h.created : account'.asCreated.id = account.asCreated.id)

theorem run?_replaceRun (hrun : db.run? run'.id = some run) :
    (db.replaceRun run').run? run'.id = some run' :=
  lookup_replace_self (List.mem_map.mpr ⟨run, lookup_mem hrun⟩)

theorem account?_replaceAccount (haccount : db.account? account'.id = some account) :
    (db.replaceAccount account').account? account'.id = some account' :=
  lookup_replace_self (List.mem_map.mpr ⟨account, lookup_mem haccount⟩)

namespace Keeps

theorem of_eq (hruns : db'.runs = db.runs) (haccounts : db'.accounts = db.accounts) :
    Keeps db db' := by
  refine ⟨fun {id run} h => ⟨run, ?_, .refl run⟩, fun {id account} h => ⟨account, ?_, .refl account⟩⟩
  · rw [Store.run?, hruns]
    exact h
  · rw [Store.account?, haccounts]
    exact h

theorem refl (db : Store) : Keeps db db := of_eq rfl rfl

theorem trans {db'' : Store} (h : Keeps db db') (h' : Keeps db' db'') : Keeps db db'' := by
  refine ⟨fun hrun => ?_, fun haccount => ?_⟩
  · obtain ⟨run', hrun', hkept⟩ := h.runs hrun
    obtain ⟨run'', hrun'', hkept'⟩ := h'.runs hrun'
    exact ⟨run'', hrun'', hkept.trans hkept'⟩
  · obtain ⟨account', haccount', hkept⟩ := h.accounts haccount
    obtain ⟨account'', haccount'', hkept'⟩ := h'.accounts haccount'
    exact ⟨account'', haccount'', hkept.trans hkept'⟩

theorem replaceRun (hrun : db.run? run'.id = some run) (hkept : RunKept run run') :
    Keeps db (db.replaceRun run') := by
  refine ⟨fun {id old} hold => ?_, (refl db).accounts⟩
  by_cases hid : id = run'.id
  · subst hid
    rw [hrun, Option.some.injEq] at hold
    subst hold
    exact ⟨run', run?_replaceRun hrun, hkept⟩
  · refine ⟨old, ?_, .refl old⟩
    rw [Store.run?, Store.replaceRun, lookup_replace_ne hid]
    exact hold

theorem replaceAccount (haccount : db.account? account'.id = some account)
    (hkept : AccountKept account account') : Keeps db (db.replaceAccount account') := by
  refine ⟨(refl db).runs, fun {id old} hold => ?_⟩
  by_cases hid : id = account'.id
  · subst hid
    rw [haccount, Option.some.injEq] at hold
    subst hold
    exact ⟨account', account?_replaceAccount haccount, hkept⟩
  · refine ⟨old, ?_, .refl old⟩
    rw [Store.account?, Store.replaceAccount, lookup_replace_ne hid]
    exact hold

theorem addRun (run' : ConnectorSyncRun) : Keeps db { db with runs := db.runs ++ [run'] } :=
  ⟨fun {_ run} h => ⟨run, lookup_append_of_some h _, .refl run⟩, (refl db).accounts⟩

theorem addAccount (account' : ConnectorAccount) :
    Keeps db { db with accounts := db.accounts ++ [account'] } :=
  ⟨(refl db).runs, fun {_ account} h => ⟨account, lookup_append_of_some h _, .refl account⟩⟩

end Keeps

/-! ## The tables -/

/-- Whether the account could be claimed if it was enabled. -/
def ConnectorAccount.usable (p : Platform) (account : ConnectorAccount) : Bool :=
  claimable p { account with lifecycle := .enabled }

structure Store.Sound (p : Platform) (db : Store) : Prop where
  accounts : Keyed (·.id) db.accounts
  runs : Keyed (·.id) db.runs
  usable : ∀ account ∈ db.accounts, account.usable p = true
  checked : ∀ run ∈ db.runs, run.Checked
  counted : ∀ run ∈ db.runs, run.itemsSeen = run.itemsCreated + run.itemsUnchanged
  owned : ∀ run ∈ db.runs, ∃ account, db.account? run.accountId = some account ∧
    run.accountRevision ≤ account.revision
  ordered : ∀ item ∈ db.items, item.ordered = true
  numbered : Numbered db.written

theorem Store.Sound.checked_of (h : db.Sound p) {id : Uuid} (hrun : db.run? id = some run) :
    run.Checked :=
  h.checked run (lookup_mem hrun).1

theorem Store.Sound.owned_of (h : db.Sound p) {id : Uuid} (hrun : db.run? id = some run) :
    ∃ account, db.account? run.accountId = some account ∧ run.accountRevision ≤ account.revision :=
  h.owned run (lookup_mem hrun).1

theorem Store.Sound.usable_of (h : db.Sound p) {id : Uuid} (haccount : db.account? id = some account) :
    account.usable p = true :=
  h.usable account (lookup_mem haccount).1

namespace Store.Sound

theorem replaceRun (h : db.Sound p) (hrun : db.run? run'.id = some run) (hkept : RunKept run run')
    (hchecked : run'.Checked) (hcounted : run'.itemsSeen = run'.itemsCreated + run'.itemsUnchanged) :
    (db.replaceRun run').Sound p := by
  refine ⟨h.accounts, h.runs.replace, h.usable, fun old hold => ?_, fun old hold => ?_,
    fun old hold => ?_, h.ordered, h.numbered⟩
  · rcases mem_replace.mp hold with ⟨rfl, -⟩ | ⟨hold, -⟩
    · exact hchecked
    · exact h.checked old hold
  · rcases mem_replace.mp hold with ⟨rfl, -⟩ | ⟨hold, -⟩
    · exact hcounted
    · exact h.counted old hold
  · rcases mem_replace.mp hold with ⟨rfl, -⟩ | ⟨hold, -⟩
    · rw [hkept.accountId_eq, hkept.accountRevision_eq]
      exact h.owned_of hrun
    · exact h.owned old hold

theorem replaceAccount (h : db.Sound p) (haccount : db.account? account'.id = some account)
    (hkept : AccountKept account account') (husable : account'.usable p = true) :
    (db.replaceAccount account').Sound p := by
  refine ⟨h.accounts.replace, h.runs, fun old hold => ?_, h.checked, h.counted, fun run hrun => ?_,
    h.ordered, h.numbered⟩
  · rcases mem_replace.mp hold with ⟨rfl, -⟩ | ⟨hold, -⟩
    · exact husable
    · exact h.usable old hold
  · obtain ⟨owner, howner, hle⟩ := h.owned run hrun
    obtain ⟨owner', howner', hkept'⟩ := (Keeps.replaceAccount haccount hkept).accounts howner
    exact ⟨owner', howner', hle.trans hkept'.revision⟩

theorem addRun (h : db.Sound p) (hfresh : run'.id ∉ db.runs.map (·.id)) (hchecked : run'.Checked)
    (hcounted : run'.itemsSeen = run'.itemsCreated + run'.itemsUnchanged)
    (howned : ∃ account, db.account? run'.accountId = some account ∧
      run'.accountRevision ≤ account.revision) :
    Store.Sound p { db with runs := db.runs ++ [run'] } := by
  refine ⟨h.accounts, h.runs.append hfresh, h.usable, fun old hold => ?_, fun old hold => ?_,
    fun old hold => ?_, h.ordered, h.numbered⟩
  · rcases List.mem_append.mp hold with hold | hold
    · exact h.checked old hold
    · exact List.mem_singleton.mp hold ▸ hchecked
  · rcases List.mem_append.mp hold with hold | hold
    · exact h.counted old hold
    · exact List.mem_singleton.mp hold ▸ hcounted
  · rcases List.mem_append.mp hold with hold | hold
    · exact h.owned old hold
    · exact List.mem_singleton.mp hold ▸ howned

theorem addAccount (h : db.Sound p) (hfresh : account'.id ∉ db.accounts.map (·.id))
    (husable : account'.usable p = true) :
    Store.Sound p { db with accounts := db.accounts ++ [account'] } := by
  refine ⟨h.accounts.append hfresh, h.runs, fun old hold => ?_, h.checked, h.counted,
    fun run hrun => ?_, h.ordered, h.numbered⟩
  · rcases List.mem_append.mp hold with hold | hold
    · exact h.usable old hold
    · exact List.mem_singleton.mp hold ▸ husable
  · obtain ⟨owner, howner, hle⟩ := h.owned run hrun
    exact ⟨owner, lookup_append_of_some howner _, hle⟩

/-- Items are another matter. -/
theorem items (h : db.Sound p) {items : List ExternalItem}
    (hordered : ∀ item ∈ items, item.ordered = true)
    (hnumbered : Numbered (Store.written { db with items := items })) :
    Store.Sound p { db with items := items } :=
  ⟨h.accounts, h.runs, h.usable, h.checked, h.counted, h.owned, hordered, hnumbered⟩

theorem projects (h : db.Sound p) (projects : List Uuid) :
    Store.Sound p { db with projects := projects } :=
  ⟨h.accounts, h.runs, h.usable, h.checked, h.counted, h.owned, h.ordered, h.numbered⟩

end Store.Sound

/-! ## What is written keeps to it -/

theorem usable_allowlist {allowlist : List String} {values : Option (List String)}
    (h : account.usable p = true) (hupdated : updatedAllowlist p account values = .ok allowlist)
    (hcreated : account'.asCreated = account.asCreated)
    (hallowlist : account'.resourceAllowlist = allowlist) : account'.usable p = true := by
  cases account with
  | mk id external fingerprint reference project names scope lifecycle status revision at' created =>
  cases account' with
  | mk id' external' fingerprint' reference' project' names' scope' lifecycle' status' revision'
      validated' created' =>
  cases hcreated
  cases hallowlist
  cases values with
  | none =>
      cases hupdated
      exact h
  | some values =>
      have hspec := repositories_spec _ hupdated
      simp only [ConnectorAccount.usable, claimable, validAccountValues, Bool.and_eq_true,
        decide_eq_true_eq] at h ⊢
      obtain ⟨hnodup, hpos, hle, hdistinct, hall⟩ := hspec
      exact ⟨⟨⟨⟨trivial, ⟨⟨h.1.1.1.2.1.1.1, hpos, hle⟩, hdistinct⟩, hall⟩, h.1.1.2⟩, h.1.2⟩, hnodup⟩

theorem Edited.tables {edit : AccountEdit} (hedited : Edited p db edit db') (h : db.Sound p) :
    Keeps db db' ∧ db'.Sound p := by
  cases hedited with
  | project => exact ⟨.of_eq rfl rfl, h.projects _⟩
  | created hid hfresh hvalid husable =>
      subst hid
      exact ⟨.addAccount _, h.addAccount hfresh husable⟩
  | updated haccount hdisabled hidle hallowlist =>
      obtain rfl := (lookup_mem haccount).2
      refine ⟨.replaceAccount haccount (.changed rfl rfl),
        h.replaceAccount haccount (.changed rfl rfl) ?_⟩
      exact usable_allowlist (h.usable_of haccount) hallowlist rfl rfl
  | transitioned haccount =>
      obtain rfl := (lookup_mem haccount).2
      have husable := h.usable_of haccount
      exact ⟨.replaceAccount haccount (.changed rfl rfl),
        h.replaceAccount haccount (.changed rfl rfl) husable⟩

theorem recordAll_ordered {seenAt : Instant} {items : List ExternalItem}
    (h : ∀ item ∈ db.items, item.ordered = true) :
    Ensures (recordAll p seenAt items db) fun x => ∀ item ∈ x.1.items, item.ordered = true := by
  refine recordAll_keeps (P := fun db' => ∀ item ∈ db'.items, item.ordered = true)
    (fun db₁ db₂ item created _ h _ hrecord => ?_) h
  cases hrecord with
  | replayed => exact h
  | created _ hordered _ =>
      intro row hrow
      rcases List.mem_append.mp hrow with hrow | hrow
      · exact h row hrow
      · exact List.mem_singleton.mp hrow ▸ hordered

/-- No more is created than is recorded. -/
theorem recordAll_created {seenAt : Instant} {items : List ExternalItem} :
    Ensures (recordAll p seenAt items db) fun x => x.2 ≤ items.length := by
  induction items generalizing db with
  | nil =>
      rw [recordAll]
      exact Ensures.ok_iff.mpr le_rfl
  | cons item rest ih =>
      rw [recordAll]
      refine .bind_any fun x _ => Ensures.bind ih fun y hy => Ensures.pure_iff.mpr ?_
      show y.2 + (if x.2 then 1 else 0) ≤ rest.length + 1
      split
      · omega
      · omega

@[simp] theorem pageItems_length {repoId : Nat} {resourceType : ResourceType} {now : Instant}
    {snapshots : List Snapshot} {ids : Nat → Uuid} :
    (pageItems p run repoId resourceType now snapshots ids).length = snapshots.length := by
  simp [pageItems]

theorem Persisted.tables {repo : ValidatedRepository} {resourceType : ResourceType}
    {snapshots : List Snapshot} {now : Instant} {ids : Nat → Uuid} {created : Nat}
    (hpersisted : Persisted p db r repo resourceType snapshots now ids run account db' created)
    (h : db.Sound p) :
    Keeps db (db'.replaceRun (run.counting snapshots.length created)) ∧
      (db'.replaceRun (run.counting snapshots.length created)).Sound p := by
  obtain ⟨new, hnew : db' = _⟩ := recordAll_frame _ hpersisted.recorded
  have hordered : ∀ item ∈ db'.items, item.ordered = true :=
    recordAll_ordered h.ordered _ hpersisted.recorded
  have hnumbered : Numbered db'.written := (recordAll_written h.numbered _ hpersisted.recorded).2
  have hcreated : created ≤ _ := recordAll_created _ hpersisted.recorded
  rw [pageItems_length] at hcreated
  have hcounts := h.counted run (lookup_mem hpersisted.found).1
  subst hnew
  have hsound : Store.Sound p { db with items := db.items ++ new } := h.items hordered hnumbered
  have hkept : RunKept run (run.counting snapshots.length created) := ⟨rfl, id⟩
  have hrun : Store.run? { db with items := db.items ++ new }
      (run.counting snapshots.length created).id = some run := by
    obtain hid := (lookup_mem hpersisted.found).2
    exact hid ▸ hpersisted.found
  have hitems : Keeps db { db with items := db.items ++ new } := .of_eq rfl rfl
  refine ⟨hitems.trans (.replaceRun hrun hkept),
    hsound.replaceRun hrun hkept hpersisted.checked ?_⟩
  show run.itemsSeen + snapshots.length =
    run.itemsCreated + created + (run.itemsUnchanged + (snapshots.length - created))
  omega

/-- A run at work is written anew, in the same transaction or alone. -/
theorem rewritten (h : db.Sound p) (hrun : db.run? r.runId = some run)
    (hchecked : run'.Checked) (hkept : RunKept run run')
    (hcounts : (run'.itemsSeen, run'.itemsCreated, run'.itemsUnchanged) =
      (run.itemsSeen, run.itemsCreated, run.itemsUnchanged)) :
    Keeps db (db.replaceRun run') ∧ (db.replaceRun run').Sound p := by
  have hid : run'.id = r.runId := hkept.id_eq.trans (lookup_mem hrun).2
  have hrun : db.run? run'.id = some run := hid ▸ hrun
  have hcounted := h.counted run (lookup_mem hrun).1
  refine ⟨.replaceRun hrun hkept, h.replaceRun hrun hkept hchecked ?_⟩
  simp only [Prod.mk.injEq] at hcounts
  omega

theorem reconcile_tables {observed : List (String × String)} {reconciledAt : Instant}
    (hreconcile : reconcileLatestItems db run observed reconciledAt = .ok db') (h : db.Sound p) :
    (∃ items, db' = { db with items := items }) ∧ db'.Sound p := by
  have hwritten := reconcile_written hreconcile
  unfold reconcileLatestItems at hreconcile
  simp only [] at hreconcile
  split at hreconcile
  · next hordered =>
      cases hreconcile
      refine ⟨⟨_, rfl⟩, h.items (List.all_eq_true.mp hordered) ?_⟩
      rw [hwritten]
      exact h.numbered
  · cases hreconcile

/-- A run that is marked as running was not terminal. -/
theorem started_kept {now : Instant} (hbefore : run.Checked)
    (hafter : { run with status := .running, startedAt := some now }.Checked) :
    RunKept run { run with status := .running, startedAt := some now } := by
  refine ⟨rfl, fun hterminal => ?_⟩
  have hcompleted := hbefore.completion
  have hrunning := hafter.completion
  rw [hterminal] at hcompleted
  rw [← hcompleted] at hrunning
  exact hrunning

theorem Advances.tables {call : SyncCall} {done : Progress} (hadvances : Advances p db r call done)
    (h : db.Sound p) : Keeps db done.db ∧ done.db.Sound p := by
  cases hadvances with
  | authorized | identified | validated => exact ⟨.refl db, h⟩
  | started hphase hrun haccount hchecked =>
      exact rewritten h hrun hchecked (started_kept (h.checked_of hrun) hchecked) rfl
  | confirmed hphase hrun haccount hrow =>
      obtain hid := (lookup_mem hrow).2
      rw [← hid] at hrow
      have husable := h.usable_of hrow
      exact ⟨.replaceAccount hrow ⟨rfl, le_rfl, fun _ => rfl⟩,
        h.replaceAccount hrow ⟨rfl, le_rfl, fun _ => rfl⟩ husable⟩
  | stored hphase hpersisted => exact hpersisted.tables h
  | paged hphase hsnapshots hpersisted => exact hpersisted.tables h
  | cutOff hphase hincomplete hrun hchecked =>
      exact rewritten h hrun hchecked ⟨rfl, fun _ => rfl⟩ rfl
  | finished hphase hcomplete hrun haccount hreconcile hchecked =>
      obtain ⟨⟨items, rfl⟩, hsound⟩ := reconcile_tables hreconcile h
      have htables := rewritten (r := r) hsound hrun hchecked ⟨rfl, fun _ => rfl⟩ rfl
      have hitems : Keeps db { db with items := items } := .of_eq rfl rfl
      exact ⟨hitems.trans htables.1, htables.2⟩

theorem AccountFenced.tables {code : String} (hfenced : AccountFenced db r code db')
    (h : db.Sound p) : Keeps db db' ∧ db'.Sound p := by
  cases hfenced with
  | unchanged => exact ⟨.refl db, h⟩
  | disabled hcode haccount hrevision =>
      obtain hid := (lookup_mem haccount).2
      rw [← hid] at haccount
      have husable := h.usable_of haccount
      exact ⟨.replaceAccount haccount (.changed rfl rfl),
        h.replaceAccount haccount (.changed rfl rfl) husable⟩

theorem AccountFenced.runs_eq {code : String} (hfenced : AccountFenced db r code db') :
    db'.runs = db.runs := by
  cases hfenced with
  | unchanged => rfl
  | disabled => rfl

theorem closing_terminal {e : Fault} {status : SyncStatus} {code : String}
    (h : closing e = some (status, code)) : status.isTerminal = true := by
  rcases closing_status h with rfl | rfl
  · rfl
  · rfl

theorem closeRun_tables {now : Instant} {e : Fault} (h : db.Sound p) :
    Ensures (closeRun db r now e) fun db' => Keeps db db' ∧ db'.Sound p := by
  refine closeRun_spec.mono fun db' hdb' => ?_
  obtain ⟨run, status, code, fenced, hclosing, hfenced, hrun, hchecked, rfl⟩ := hdb'
  have htables := hfenced.tables h
  have hrun : fenced.run? r.runId = some run := by
    rw [Store.run?, hfenced.runs_eq]
    exact hrun
  have hwritten := rewritten htables.2 hrun hchecked ⟨rfl, fun _ => closing_terminal hclosing⟩ rfl
  exact ⟨htables.1.trans hwritten.1, hwritten.2⟩

theorem Moves.tables (hmove : Moves p s l s') (h : s.db.Sound p) :
    Keeps s.db s'.db ∧ s'.db.Sound p := by
  cases hmove with
  | edited hedited => exact hedited.tables h
  | claimed hrun hclaimed =>
      subst hrun
      refine ⟨.addRun _, h.addRun hclaimed.fresh hclaimed.checked rfl ?_⟩
      exact ⟨_, hclaimed.found, le_rfl⟩
  | resumed | faulted | raised | stopped => exact ⟨.refl _, h⟩
  | advanced hr hattempt => exact (attempt_advances hattempt).tables h
  | settled hr hphase hdone => exact closeRun_tables h _ hdone

/-! ## Where runs come from -/

/-- No run comes from nowhere. -/
def RunsFrom (db db' : Store) : Prop :=
  ∀ run' ∈ db'.runs, ∃ run ∈ db.runs, run'.asClaimed = run.asClaimed

theorem RunsFrom.of_eq (h : db'.runs = db.runs) : RunsFrom db db' :=
  fun run' hrun' => ⟨run', h ▸ hrun', rfl⟩

theorem RunsFrom.trans {db'' : Store} (h : RunsFrom db db') (h' : RunsFrom db' db'') :
    RunsFrom db db'' := by
  intro run'' hrun''
  obtain ⟨run', hrun', hsame'⟩ := h' run'' hrun''
  obtain ⟨run, hrun, hsame⟩ := h run' hrun'
  exact ⟨run, hrun, hsame'.trans hsame⟩

theorem RunsFrom.replaceRun {base : Store} (hbase : base.runs = db.runs)
    (hrun : db.run? r.runId = some run) (hclaimed : run'.asClaimed = run.asClaimed) :
    RunsFrom db (base.replaceRun run') := by
  intro x hx
  rcases mem_replace.mp hx with ⟨rfl, -⟩ | ⟨hx, -⟩
  · exact ⟨run, (lookup_mem hrun).1, hclaimed⟩
  · exact ⟨x, hbase ▸ hx, rfl⟩

theorem Persisted.runs_from {repo : ValidatedRepository} {resourceType : ResourceType}
    {snapshots : List Snapshot} {now : Instant} {ids : Nat → Uuid} {created : Nat}
    (hpersisted : Persisted p db r repo resourceType snapshots now ids run account db' created) :
    RunsFrom db (db'.replaceRun (run.counting snapshots.length created)) := by
  obtain ⟨new, hnew : db' = _⟩ := recordAll_frame _ hpersisted.recorded
  have hruns : db'.runs = db.runs := by rw [hnew]
  exact .replaceRun hruns hpersisted.found rfl

theorem Advances.runs_from {call : SyncCall} {done : Progress}
    (hadvances : Advances p db r call done) (h : db.Sound p) : RunsFrom db done.db := by
  cases hadvances with
  | authorized | identified | validated | confirmed => exact .of_eq rfl
  | started hphase hrun => exact .replaceRun rfl hrun rfl
  | stored hphase hpersisted => exact hpersisted.runs_from
  | paged hphase hsnapshots hpersisted => exact hpersisted.runs_from
  | cutOff hphase hincomplete hrun => exact .replaceRun rfl hrun rfl
  | finished hphase hcomplete hrun haccount hreconcile =>
      obtain ⟨⟨items, rfl⟩, -⟩ := reconcile_tables hreconcile h
      exact .replaceRun rfl hrun rfl

/-- Only a claim makes a run. -/
theorem Moves.runs_from (hmove : Moves p s l s') (h : s.db.Sound p) :
    RunsFrom s.db s'.db ∨ ∃ account kind identity now id,
      l = .claim account.id account.revision kind identity now id ∧
        s'.db.runs = s.db.runs ++ [claimedRun account kind identity now id] := by
  cases hmove with
  | edited hedited =>
      refine .inl (.of_eq ?_)
      cases hedited <;> rfl
  | claimed hrun => exact .inr ⟨_, _, _, _, _, rfl, hrun ▸ rfl⟩
  | resumed | faulted | raised | stopped => exact .inl (.of_eq rfl)
  | advanced hr hattempt => exact .inl ((attempt_advances hattempt).runs_from h)
  | settled hr hphase hdone =>
      obtain ⟨run, status, code, fenced, -, hfenced, hrun, -, rfl⟩ := closeRun_spec _ hdone
      exact .inl (.replaceRun hfenced.runs_eq hrun rfl)

theorem empty_tables : Store.Sound p {} := by
  have hnone : ∀ {α : Type} {P : α → Prop}, ∀ a ∈ ([] : List α), P a :=
    fun _ ha => absurd ha List.not_mem_nil
  exact ⟨List.nodup_nil, List.nodup_nil, hnone, hnone, hnone, hnone, hnone, List.nodup_nil, .nil⟩

end Connectors

end SecondBrain
