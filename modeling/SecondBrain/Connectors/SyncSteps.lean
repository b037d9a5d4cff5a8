import SecondBrain.Connectors.Answers
import SecondBrain.Connectors.Sync

/-!
# What a step of a refresh does

A call goes through with all its effects or faults with none, so a step is told
by what each call writes when it goes through, and by what an edit, a claim and a
handler write (`step_moves`). All that is said of the refreshes is said of these
moves.
-/

namespace SecondBrain

open Lib

namespace Connectors

variable {p : Platform} {s s' : SyncState} {db db' : Store} {r r' : Refresh}
  {run : ConnectorSyncRun} {account : ConnectorAccount} {l : SyncLabel}

/-! ## Rows -/

theorem putRun_spec : Ensures (db.putRun run) fun db' =>
    run.Checked ∧ db' = db.replaceRun run := by
  unfold Store.putRun
  refine .ite (fun h => ?_) fun _ => .error _
  exact Ensures.ok_iff.mpr ⟨ConnectorSyncRun.checked_iff.mp h, rfl⟩

theorem putAccount_spec : Ensures (db.putAccount account) fun db' =>
    account.ordered = true ∧ db' = db.replaceAccount account := by
  unfold Store.putAccount
  exact .ite (fun h => Ensures.ok_iff.mpr ⟨h, rfl⟩) fun _ => .error _

theorem currentRun_spec : Ensures (currentRun db r) fun run => db.run? r.runId = some run := by
  unfold currentRun
  split
  · next run h => exact Ensures.ok_iff.mpr h
  · exact .error _

theorem capturedAccount_spec : Ensures (capturedAccount p db r run) fun account =>
    r.account? db = some account ∧ captured p account run = true := by
  unfold capturedAccount
  split
  · next account h => exact .ite (fun hc => Ensures.ok_iff.mpr ⟨h, hc⟩) fun _ => .error _
  · exact .error _

/-! ## Recording -/

/-- Recording an item finds the revision that has its content, or adds the next
one of its identity. -/
inductive Recorded (db : Store) (item : ExternalItem) (seenAt : Instant) : Store → Bool → Prop
  | replayed {stored : ExternalItem} :
      db.replayed? item = some stored → Recorded db item seenAt db false
  | created :
      db.replayed? item = none → (nextRevision db item seenAt).ordered = true →
      (∀ row ∈ db.items, row.id ≠ item.id) →
      Recorded db item seenAt { db with items := db.items ++ [nextRevision db item seenAt] } true

theorem insertItem_spec {row : ExternalItem} : Ensures (db.insertItem row) fun db' =>
    db' = { db with items := db.items ++ [row] } ∧ row.ordered = true ∧
      ∀ other ∈ db.items, other.id ≠ row.id := by
  unfold Store.insertItem
  refine .ite (fun _ => .error _) fun _ => .ite (fun _ => .error _) fun h => ?_
  have hordered : row.ordered = true := by
    by_contra hne
    exact h (.inr (.inr (.inl hne)))
  refine Ensures.ok_iff.mpr ⟨rfl, hordered, fun other hother hid => h ?_⟩
  refine .inr (.inr (.inr (List.any_eq_true.mpr ⟨other, hother, ?_⟩)))
  simp [hid]

theorem recordItemRevision_spec {item : ExternalItem} {seenAt : Instant} :
    Ensures (recordItemRevision p db item seenAt) fun x =>
      checkOwner db item = .ok () ∧ Recorded db item seenAt x.1 x.2 := by
  unfold recordItemRevision
  refine .bind_any fun _ _ => .bind_any fun _ howner => ?_
  cases hfind : db.replayed? item with
  | some stored => exact Ensures.pure_iff.mpr ⟨howner, .replayed hfind⟩
  | none =>
      refine insertItem_spec.bind fun db' h => Ensures.pure_iff.mpr ⟨howner, ?_⟩
      obtain ⟨rfl, hordered, hfresh⟩ := h
      exact .created hfind hordered hfresh

/-- What recording one item keeps, recording a page keeps. -/
theorem recordAll_keeps {P : Store → Prop} {seenAt : Instant} {items : List ExternalItem}
    (hrecord : ∀ db db' item created, item ∈ items → P db → checkOwner db item = .ok () →
      Recorded db item seenAt db' created → P db') (hdb : P db) :
    Ensures (recordAll p seenAt items db) fun x => P x.1 := by
  induction items generalizing db with
  | nil =>
      rw [recordAll]
      exact Ensures.ok_iff.mpr hdb
  | cons item rest ih =>
      rw [recordAll]
      refine recordItemRevision_spec.bind fun x hx => ?_
      have hnext := hrecord db x.1 item x.2 List.mem_cons_self hdb hx.1 hx.2
      refine Ensures.bind (ih (fun db db' item created hitem => hrecord db db' item created
        (List.mem_cons_of_mem _ hitem)) hnext) fun y hy => ?_
      exact Ensures.pure_iff.mpr hy

/-- Only items are added. -/
theorem recordAll_frame {seenAt : Instant} {items : List ExternalItem} :
    Ensures (recordAll p seenAt items db) fun x => ∃ new, x.1 = { db with items := db.items ++ new } := by
  refine recordAll_keeps (P := fun db' => ∃ new, db' = { db with items := db.items ++ new })
    (fun db₁ db₂ item created _ h _ hrecord => ?_) ⟨[], by rw [List.append_nil]⟩
  obtain ⟨new, rfl⟩ := h
  cases hrecord with
  | replayed => exact ⟨new, rfl⟩
  | created => exact ⟨_, by rw [List.append_assoc]⟩

/-! ## Calls -/

/-- What storing a page does. -/
structure Persisted (p : Platform) (db : Store) (r : Refresh) (repo : ValidatedRepository)
    (resourceType : ResourceType) (snapshots : List Snapshot) (now : Instant) (ids : Nat → Uuid)
    (run : ConnectorSyncRun) (account : ConnectorAccount) (db' : Store) (created : Nat) : Prop where
  found : db.run? r.runId = some run
  fenced : capturedAccount p db r run = .ok account
  recorded : recordAll p now (pageItems p run repo.repoId resourceType now snapshots ids) db =
    .ok (db', created)
  checked : (run.counting snapshots.length created).Checked

/-- Where a page that was stored leaves the refresh. -/
def persisted (r : Refresh) (repo : ValidatedRepository) (snapshots : List Snapshot)
    (run : ConnectorSyncRun) (account : ConnectorAccount) (db' : Store) (created : Nat) : Progress :=
  { db := db'.replaceRun (run.counting snapshots.length created)
    refresh := (r.committed account).observing repo.repoId snapshots }

theorem persistPage_spec {repo : ValidatedRepository} {resourceType : ResourceType}
    {snapshots : List Snapshot} {now : Instant} {ids : Nat → Uuid} :
    Ensures (persistPage p db r repo resourceType snapshots now ids) fun done =>
      ∃ run account db' created,
        Persisted p db r repo resourceType snapshots now ids run account db' created ∧
          done = persisted r repo snapshots run account db' created := by
  unfold persistPage
  refine currentRun_spec.bind fun run hrun => .bind_any fun account haccount => ?_
  refine .bind_any fun _ _ => .bind_any fun _ _ => .bind_any fun x hx => ?_
  refine putRun_spec.bind fun db' hdb' => Ensures.pure_iff.mpr ?_
  obtain ⟨hchecked, rfl⟩ := hdb'
  exact ⟨run, account, x.1, x.2, ⟨hrun, haccount, hx, hchecked⟩, rfl⟩

/-- What a call does that goes through. -/
inductive Advances (p : Platform) (db : Store) (r : Refresh) : SyncCall → Progress → Prop
  | authorized {secret transport : Except Fault Unit} {late : Bool} {run : ConnectorSyncRun}
      {account : ConnectorAccount} :
      r.phase = .authorizing → db.run? r.runId = some run →
      capturedAccount p db r run = .ok account →
      Advances p db r (.authorize secret transport late)
        { db := db
          refresh := { r with
            identity := account.externalAccountId
            names := account.resourceAllowlist
            phase := .starting } }
  | started {now : Instant} {run : ConnectorSyncRun} {account : ConnectorAccount} :
      r.phase = .starting → db.run? r.runId = some run →
      capturedAccount p db r run = .ok account →
      { run with status := .running, startedAt := some now }.Checked →
      Advances p db r (.start now)
        { db := db.replaceRun { run with status := .running, startedAt := some now }
          refresh := { r.committed account with phase := .identifying } }
  | identified {late : Bool} {user : Except Fault Json} :
      r.phase = .identifying →
      Advances p db r (.identify late user)
        { db := db, refresh := { r with phase := .validating r.names [] } }
  | validated {late : Bool} {data : Json} {names : List String}
      {done : List ValidatedRepository} {repo : ValidatedRepository} {run : ConnectorSyncRun}
      {account : ConnectorAccount} :
      r.phase = .validating (repo.name :: names) done → db.run? r.runId = some run →
      capturedAccount p db r run = .ok account →
      repositorySnapshot p data repo.name = .ok (repo.repoId, repo.snapshot) →
      Advances p db r (.validate late (.ok data))
        { db := db
          refresh := { r.committed account with phase := .validating names (done ++ [repo]) } }
  | confirmed {late : Bool} {now : Instant} {validated : List ValidatedRepository}
      {run : ConnectorSyncRun} {account row : ConnectorAccount} :
      r.phase = .validating [] validated → db.run? r.runId = some run →
      capturedAccount p db r run = .ok account → db.account? account.id = some row →
      Advances p db r (.confirm late now)
        { db := db.replaceAccount { row with
            validationStatus :=
              if account.validationStatus = .valid then row.validationStatus else .valid
            lastValidatedAt := some now }
          refresh := { r.committed (account.confirmed now) with phase := .storing validated } }
  | stored {late : Bool} {now : Instant} {ids : Nat → Uuid} {repo : ValidatedRepository}
      {rest : List ValidatedRepository} {run : ConnectorSyncRun} {account : ConnectorAccount}
      {db' : Store} {created : Nat} :
      r.phase = .storing (repo :: rest) →
      Persisted p db r repo .repository [repo.snapshot] now ids run account db' created →
      Advances p db r (.storeRepository late now ids)
        { persisted r repo [repo.snapshot] run account db' created with
          refresh := { (persisted r repo [repo.snapshot] run account db' created).refresh with
            phase := .paging repo rest .issue 1 } }
  | paged {late late' : Bool} {answer : GitHubPage} {now : Instant} {ids : Nat → Uuid}
      {repo : ValidatedRepository} {rest : List ValidatedRepository} {resourceType : ResourceType}
      {page : Nat} {snapshots : List Snapshot} {run : ConnectorSyncRun}
      {account : ConnectorAccount} {db' : Store} {created : Nat} :
      r.phase = .paging repo rest resourceType page →
      listSnapshots answer.value resourceType repo.repoId = .ok snapshots →
      Persisted p db r repo resourceType snapshots now ids run account db' created →
      Advances p db r (.readPage late late' (.ok answer) now ids)
        { persisted r repo snapshots run account db' created with
          refresh := (persisted r repo snapshots run account db' created).refresh.turned repo rest
            resourceType page answer.mayHaveMore }
  | cutOff {reconciledAt completedAt : Instant} {run : ConnectorSyncRun} :
      r.phase = .storing [] → r.incomplete = true → db.run? r.runId = some run →
      (run.finish .incomplete (some "github_pagination_ceiling") false completedAt).Checked →
      Advances p db r (.finish reconciledAt completedAt)
        { db := db.replaceRun
            (run.finish .incomplete (some "github_pagination_ceiling") false completedAt)
          refresh := { r with phase := .returned } }
  | finished {reconciledAt completedAt : Instant} {run : ConnectorSyncRun}
      {account : ConnectorAccount} {db' : Store} :
      r.phase = .storing [] → r.incomplete = false → db.run? r.runId = some run →
      capturedAccount p db r run = .ok account →
      reconcileLatestItems db run r.observedKeys reconciledAt = .ok db' →
      (run.finish .succeeded none true completedAt).Checked →
      Advances p db r (.finish reconciledAt completedAt)
        { db := db'.replaceRun (run.finish .succeeded none true completedAt)
          refresh := { r with phase := .returned } }

theorem authorize_advances {secret transport : Except Fault Unit} {late : Bool}
    (hphase : r.phase = .authorizing) :
    Ensures (authorize p db r secret transport late)
      (Advances p db r (.authorize secret transport late)) := by
  unfold authorize
  refine currentRun_spec.bind fun run hrun => .bind_any fun account haccount => ?_
  refine .bind_any fun _ _ => .bind_any fun _ _ => .bind_any fun _ _ => .bind_any fun _ _ => ?_
  exact Ensures.pure_iff.mpr (.authorized hphase hrun haccount)

theorem start_advances {now : Instant} (hphase : r.phase = .starting) :
    Ensures (start p db r now) (Advances p db r (.start now)) := by
  unfold start
  refine currentRun_spec.bind fun run hrun => .bind_any fun account haccount => ?_
  refine putRun_spec.bind fun db' hdb' => Ensures.pure_iff.mpr ?_
  obtain ⟨hchecked, rfl⟩ := hdb'
  exact .started hphase hrun haccount hchecked

theorem identify_advances {late : Bool} {user : Except Fault Json} (hphase : r.phase = .identifying) :
    Ensures (identify p db r late user) (Advances p db r (.identify late user)) := by
  unfold identify
  refine .bind_any fun _ _ => .bind_any fun _ _ => .bind_any fun _ _ => .bind_any fun _ _ => ?_
  refine .bind_any fun _ _ => Ensures.pure_iff.mpr ?_
  exact .identified hphase

theorem validate_advances {name : String} {names : List String}
    {validated : List ValidatedRepository} {late : Bool} {answer : Except Fault Json}
    (hphase : r.phase = .validating (name :: names) validated) :
    Ensures (validate p db r name names validated late answer)
      (Advances p db r (.validate late answer)) := by
  unfold validate
  refine .bind_any fun _ _ => currentRun_spec.bind fun run hrun => ?_
  refine .bind_any fun account haccount => ?_
  cases answer with
  | error e => exact fun _ h => nomatch h
  | ok data =>
      refine .bind_any fun _ hdata => .bind_any fun x hx => Ensures.pure_iff.mpr ?_
      cases hdata
      exact .validated hphase hrun haccount hx

theorem confirm_advances {validated : List ValidatedRepository} {late : Bool} {now : Instant}
    (hphase : r.phase = .validating [] validated) :
    Ensures (confirm p db r validated late now) (Advances p db r (.confirm late now)) := by
  unfold confirm
  refine .bind_any fun _ _ => currentRun_spec.bind fun run hrun => ?_
  refine .bind_any fun account haccount => ?_
  unfold confirmAccount
  split
  · next row hrow =>
      refine putAccount_spec.bind fun db' hdb' => Ensures.pure_iff.mpr ?_
      obtain ⟨-, rfl⟩ := hdb'
      exact .confirmed hphase hrun haccount hrow
  · exact fun _ h => nomatch h

theorem storeRepository_advances {repo : ValidatedRepository} {rest : List ValidatedRepository}
    {late : Bool} {now : Instant} {ids : Nat → Uuid} (hphase : r.phase = .storing (repo :: rest)) :
    Ensures (storeRepository p db r repo rest late now ids)
      (Advances p db r (.storeRepository late now ids)) := by
  unfold storeRepository
  refine .bind_any fun _ _ => persistPage_spec.bind fun done hdone => Ensures.pure_iff.mpr ?_
  obtain ⟨run, account, db', created, hpersisted, rfl⟩ := hdone
  exact .stored hphase hpersisted

theorem readPage_advances {repo : ValidatedRepository} {rest : List ValidatedRepository}
    {resourceType : ResourceType} {page : Nat} {late late' : Bool}
    {answer : Except Fault GitHubPage} {now : Instant} {ids : Nat → Uuid}
    (hphase : r.phase = .paging repo rest resourceType page) :
    Ensures (readPage p db r repo rest resourceType page late late' answer now ids)
      (Advances p db r (.readPage late late' answer now ids)) := by
  unfold readPage
  refine .bind_any fun _ _ => .bind_any fun _ _ => .bind_any fun _ _ => ?_
  cases answer with
  | error e => exact fun _ h => nomatch h
  | ok answer =>
      refine .bind_any fun _ hanswer => ?_
      cases hanswer
      refine .bind_any fun _ _ => .bind_any fun snapshots hsnapshots => .bind_any fun _ _ => ?_
      refine persistPage_spec.bind fun done hdone => Ensures.pure_iff.mpr ?_
      obtain ⟨run, account, db', created, hpersisted, rfl⟩ := hdone
      exact .paged hphase hsnapshots hpersisted

theorem finishIncomplete_advances {reconciledAt completedAt : Instant}
    (hphase : r.phase = .storing []) (hincomplete : r.incomplete = true) :
    Ensures (finishIncomplete db r completedAt)
      (Advances p db r (.finish reconciledAt completedAt)) := by
  unfold finishIncomplete
  refine currentRun_spec.bind fun run hrun => putRun_spec.bind fun db' hdb' => ?_
  obtain ⟨hchecked, rfl⟩ := hdb'
  exact Ensures.pure_iff.mpr (.cutOff hphase hincomplete hrun hchecked)

theorem finishComplete_advances {reconciledAt completedAt : Instant}
    (hphase : r.phase = .storing []) (hcomplete : r.incomplete = false) :
    Ensures (finishComplete p db r reconciledAt completedAt)
      (Advances p db r (.finish reconciledAt completedAt)) := by
  unfold finishComplete
  refine currentRun_spec.bind fun run hrun => .bind_any fun account haccount => ?_
  refine .bind_any fun db' hdb' => putRun_spec.bind fun db'' hdb'' => ?_
  obtain ⟨hchecked, rfl⟩ := hdb''
  exact Ensures.pure_iff.mpr (.finished hphase hcomplete hrun haccount hdb' hchecked)

theorem attempt_advances {call : SyncCall} {done : Progress}
    (h : attempt p db r call = some (.ok done)) : Advances p db r call done := by
  cases call with
  | authorize secret transport late =>
      rw [attempt] at h
      split at h
      · next hphase => exact authorize_advances hphase done (Option.some.inj h)
      · cases h
  | start now =>
      rw [attempt] at h
      split at h
      · next hphase => exact start_advances hphase done (Option.some.inj h)
      · cases h
  | identify late user =>
      rw [attempt] at h
      split at h
      · next hphase => exact identify_advances hphase done (Option.some.inj h)
      · cases h
  | validate late answer =>
      rw [attempt] at h
      split at h
      · next hphase => exact validate_advances hphase done (Option.some.inj h)
      · cases h
  | confirm late now =>
      rw [attempt] at h
      split at h
      · next hphase => exact confirm_advances hphase done (Option.some.inj h)
      · cases h
  | storeRepository late now ids =>
      rw [attempt] at h
      split at h
      · next hphase => exact storeRepository_advances hphase done (Option.some.inj h)
      · cases h
  | readPage late late' answer now ids =>
      rw [attempt] at h
      split at h
      · next hphase => exact readPage_advances hphase done (Option.some.inj h)
      · cases h
  | finish reconciledAt completedAt =>
      rw [attempt] at h
      split at h
      · next hphase =>
          rw [Option.some.injEq] at h
          split at h
          · next hincomplete => exact finishIncomplete_advances hphase hincomplete done h
          · next hcomplete =>
              exact finishComplete_advances hphase (Bool.eq_false_iff.mpr hcomplete) done h
      · cases h

/-! ## Edits -/

/-- What an edit writes. -/
inductive Edited (p : Platform) (db : Store) : AccountEdit → Store → Prop
  | project {id : Uuid} : Edited p db (.addProject id) { db with projects := db.projects ++ [id] }
  | created {request : ConnectorAccountCreate} {id : Uuid} {now : Instant}
      {account : ConnectorAccount} :
      account.id = id → id ∉ db.accounts.map (·.id) → validAccountValues account = true →
      claimable p { account with lifecycle := .enabled } = true →
      Edited p db (.create request id now) { db with accounts := db.accounts ++ [account] }
  | updated {accountId : Uuid} {request : ConnectorAccountUpdate} {account : ConnectorAccount}
      {allowlist : List String} :
      db.account? accountId = some account → account.lifecycle = .disabled →
      db.hasActiveSyncRun account.id = false →
      updatedAllowlist p account request.repositories = .ok allowlist →
      Edited p db (.update accountId request)
        (db.replaceAccount
          { account with
            projectId := request.scope.getD account.projectId
            resourceAllowlist := allowlist
            validationStatus := .unvalidated
            lastValidatedAt := none
            revision := account.revision + 1 })
  | transitioned {accountId : Uuid} {expectedRevision : Nat} {target : Lifecycle}
      {account : ConnectorAccount} :
      db.account? accountId = some account →
      Edited p db (.setLifecycle accountId expectedRevision target)
        (db.replaceAccount (account.withLifecycle target))

theorem lockExpected_spec {accountId : Uuid} {expectedRevision : Nat} :
    Ensures (lockExpected db accountId expectedRevision) fun account =>
      db.account? accountId = some account ∧ account.revision = expectedRevision := by
  unfold lockExpected
  split
  · exact .error _
  · next account h => exact .ite (fun hrev => Ensures.ok_iff.mpr ⟨h, hrev⟩) fun _ => .error _

theorem addAccount_spec : Ensures (db.addAccount account) fun db' =>
    account.id ∉ db.accounts.map (·.id) ∧ db' = { db with accounts := db.accounts ++ [account] } := by
  unfold Store.addAccount Store.insertAccount
  split
  · next db' h =>
      split at h
      · cases h
      · next hfresh =>
          cases h
          refine Ensures.ok_iff.mpr ⟨fun hmem => hfresh ?_, rfl⟩
          obtain ⟨other, hother, hid⟩ := List.mem_map.mp hmem
          exact List.any_eq_true.mpr ⟨other, hother, by simp [hid]⟩
  · exact .error _

theorem repositories_spec {values : List String} : Ensures (repositories p values) fun result =>
    (result.map p.casefold).Nodup ∧ 1 ≤ result.length ∧ result.length ≤ 32 ∧ result.Nodup ∧
      result.all (fun value => validResource value && safe value) = true := by
  unfold repositories
  exact .ite (fun h => Ensures.ok_iff.mpr h) fun _ => .error _

theorem createAccount_edited {request : ConnectorAccountCreate} {id : Uuid} {now : Instant} :
    Ensures (createAccount p db request id now) (Edited p db (.create request id now)) := by
  unfold createAccount
  refine repositories_spec.bind fun allowlist hallowlist => .bind_any fun _ _ => ?_
  refine .bind_any fun _ hvalid => addAccount_spec.mono fun db' hdb' => ?_
  obtain ⟨hfresh, rfl⟩ := hdb'
  unfold checkAccount at hvalid
  split at hvalid
  · next hok =>
      refine .created rfl hfresh hok ?_
      unfold validAccountValues at hok
      simp only [claimable, validAccountValues, hok, hallowlist.1, decide_true, Bool.and_true,
        beq_self_eq_true]
  · cases hvalid

theorem updateAccount_edited {accountId : Uuid} {request : ConnectorAccountUpdate} :
    Ensures (updateAccount p db accountId request) (Edited p db (.update accountId request)) := by
  unfold updateAccount
  refine lockExpected_spec.bind fun account haccount => .bind_any fun _ hconfigurable => ?_
  refine .bind_any fun _ _ => .bind_any fun allowlist hallowlist => Ensures.pure_iff.mpr ?_
  unfold checkConfigurable at hconfigurable
  split at hconfigurable
  · next h => exact .updated haccount.1 h.1 (by simpa using h.2) hallowlist
  · cases hconfigurable

theorem setLifecycle_edited {accountId : Uuid} {expectedRevision : Nat} {target : Lifecycle} :
    Ensures (setLifecycle db accountId expectedRevision target)
      (Edited p db (.setLifecycle accountId expectedRevision target)) := by
  unfold setLifecycle
  refine lockExpected_spec.bind fun account haccount => .bind_any fun _ _ => Ensures.pure_iff.mpr ?_
  exact .transitioned haccount.1

theorem applyEdit_edited {edit : AccountEdit} (h : applyEdit p db edit = .ok db') :
    Edited p db edit db' := by
  cases edit with
  | addProject id =>
      cases h
      exact .project
  | create request id now => exact createAccount_edited _ h
  | update accountId request => exact updateAccount_edited _ h
  | setLifecycle accountId expectedRevision target => exact setLifecycle_edited _ h

/-! ## Claims and handlers -/

/-- What a claim makes sure of. -/
structure Claimed (p : Platform) (db : Store) (account : ConnectorAccount) (run : ConnectorSyncRun) :
    Prop where
  found : db.account? account.id = some account
  claimable : claimable p account = true
  idle : db.hasActiveSyncRun account.id = false
  capacity : db.activeSyncCount < globalActiveSyncCap
  checked : run.Checked
  fresh : run.id ∉ db.runs.map (·.id)

theorem createSyncRun_spec : Ensures (createSyncRun db run) fun db' =>
    db' = { db with runs := db.runs ++ [run] } ∧ run.Checked ∧ run.id ∉ db.runs.map (·.id) := by
  unfold createSyncRun
  split
  · refine .ite (fun _ => .error _) fun _ => .ite (fun h => ?_) fun _ => .error _
    exact Ensures.ok_iff.mpr ⟨rfl, ConnectorSyncRun.checked_iff.mp h.1, h.2.1⟩
  · exact .error _

theorem addRun_spec : Ensures (db.addRun run) fun db' =>
    db' = { db with runs := db.runs ++ [run] } ∧ run.Checked ∧ run.id ∉ db.runs.map (·.id) := by
  unfold Store.addRun
  split
  · next db' h => exact Ensures.ok_iff.mpr (createSyncRun_spec _ h)
  · exact .error _
  · exact .error _

theorem claimWithTrigger_spec {accountId : Uuid} {expectedRevision : Nat} {kind : TriggerKind}
    {identity : String} {now : Instant} {id : Uuid} :
    Ensures (claimWithTrigger p db accountId expectedRevision kind identity now id) fun x =>
      ∃ account, account.id = accountId ∧ account.revision = expectedRevision ∧
        x.2 = claimedRun account kind identity now id ∧
        Claimed p db account x.2 ∧ x.1 = { db with runs := db.runs ++ [x.2] } := by
  unfold claimWithTrigger lockRevision
  split
  · exact fun _ h => nomatch h
  · next account haccount =>
      split
      · next hrevision =>
          refine .bind_any fun _ hlocked => .bind_any fun _ hclaimable => ?_
          cases hlocked
          refine addRun_spec.bind fun db' hdb' => Ensures.pure_iff.mpr ?_
          obtain ⟨rfl, hchecked, hfresh⟩ := hdb'
          have hid : account.id = accountId := (lookup_mem haccount).2
          unfold checkClaimable at hclaimable
          split at hclaimable
          · cases hclaimable
          · next hready =>
              split at hclaimable
              · cases hclaimable
              · next hcapacity =>
                  have hready := not_or.mp hready
                  refine ⟨account, hid, hrevision, rfl, ⟨?_, ?_, ?_, ?_, hchecked, hfresh⟩, rfl⟩
                  · exact hid ▸ haccount
                  · simpa using hready.1
                  · simpa using hready.2
                  · omega
      · exact fun _ h => nomatch h

/-- What a handler does to the account. -/
inductive AccountFenced (db : Store) (r : Refresh) (code : String) : Store → Prop
  | unchanged : AccountFenced db r code db
  | disabled {account : ConnectorAccount} :
      code ∈ identityFailures → db.account? r.accountId = some account →
      account.revision = r.capturedRevision →
      AccountFenced db r code (db.replaceAccount
        { account with
          lifecycle := .disabled
          validationStatus := .invalid
          lastValidatedAt := none
          revision := account.revision + 1 })

theorem fenceAccount_spec {code : String} :
    Ensures (fenceAccount db r code) (AccountFenced db r code) := by
  unfold fenceAccount
  split
  · next account haccount =>
      refine .ite (fun h => ?_) fun _ => Ensures.ok_iff.mpr .unchanged
      refine putAccount_spec.mono fun db' hdb' => ?_
      rw [hdb'.2]
      exact .disabled h.1 haccount h.2
  · exact Ensures.ok_iff.mpr .unchanged

/-- The status and the code that a run is closed with. -/
def closing : Fault → Option (SyncStatus × String)
  | .credential code => some (.failed, code)
  | .transport code => some (failureStatus code, code)
  | _ => none

theorem closing_status {e : Fault} {status : SyncStatus} {code : String}
    (h : closing e = some (status, code)) : status = .failed ∨ status = .incomplete := by
  cases e with
  | credential c =>
      cases h
      exact .inl rfl
  | transport c =>
      cases h
      unfold failureStatus
      split
      · exact .inr rfl
      · exact .inl rfl
  | database e => cases h
  | other => cases h

theorem closeRun_spec {now : Instant} {e : Fault} :
    Ensures (closeRun db r now e) fun db' => ∃ run status code fenced,
      closing e = some (status, code) ∧ AccountFenced db r code fenced ∧
        db.run? r.runId = some run ∧ (run.finish status (some code) false now).Checked ∧
        db' = fenced.replaceRun (run.finish status (some code) false now) := by
  cases e with
  | credential code =>
      rw [closeRun]
      refine currentRun_spec.bind fun run hrun => putRun_spec.mono fun db' hdb' => ?_
      exact ⟨run, _, _, db, rfl, .unchanged, hrun, hdb'⟩
  | transport code =>
      rw [closeRun]
      refine fenceAccount_spec.bind fun fenced hfenced => currentRun_spec.bind fun run hrun => ?_
      refine putRun_spec.mono fun db' hdb' => ?_
      have hsame : db.run? r.runId = some run := by
        cases hfenced with
        | unchanged => exact hrun
        | disabled => exact hrun
      exact ⟨run, _, _, fenced, rfl, hfenced, hsame, hdb'⟩
  | database e => exact .error _
  | other => exact .error _

/-! ## Steps -/

/-- What a step does. -/
inductive Moves (p : Platform) (s : SyncState) : SyncLabel → SyncState → Prop
  | edited {edit : AccountEdit} {db : Store} :
      Edited p s.db edit db → Moves p s (.edit edit) { s with db := db }
  | claimed {kind : TriggerKind} {identity : String} {now : Instant} {id : Uuid}
      {account : ConnectorAccount} {run : ConnectorSyncRun} :
      run = claimedRun account kind identity now id → Claimed p s.db account run →
      Moves p s (.claim account.id account.revision kind identity now id)
        { db := { s.db with runs := s.db.runs ++ [run] }
          refreshes := if kind = .manual then s.refreshes ++ [Refresh.of run] else s.refreshes }
  | resumed {run : ConnectorSyncRun} :
      s.db.run? run.id = some run → run.triggerKind = .scheduled →
      Moves p s (.resume run.id) { s with refreshes := s.refreshes ++ [Refresh.of run] }
  | advanced {pid : Nat} {call : SyncCall} {r : Refresh} {done : Progress} :
      s.refreshes[pid]? = some r → attempt p s.db r call = some (.ok done) →
      Moves p s (.call pid call)
        { db := done.db, refreshes := s.refreshes.set pid done.refresh }
  | faulted {pid : Nat} {call : SyncCall} {r : Refresh} {e : Fault} :
      s.refreshes[pid]? = some r → attempt p s.db r call = some (.error e) →
      Moves p s (.call pid call) { s with refreshes := s.refreshes.set pid (r.fault e) }
  | settled {pid : Nat} {now : Instant} {r : Refresh} {e : Fault} {db : Store} :
      s.refreshes[pid]? = some r → r.phase = .failing e → closeRun s.db r now e = .ok db →
      Moves p s (.settle pid now)
        { db := db, refreshes := s.refreshes.set pid { r with phase := .returned } }
  | raised {pid : Nat} {now : Instant} {r : Refresh} {e e' : Fault} :
      s.refreshes[pid]? = some r → r.phase = .failing e → closeRun s.db r now e = .error e' →
      Moves p s (.settle pid now)
        { s with refreshes := s.refreshes.set pid { r with phase := .raised } }
  | stopped {pid : Nat} {r : Refresh} :
      s.refreshes[pid]? = some r → r.phase.isOver = false →
      Moves p s (.stop pid) { s with refreshes := s.refreshes.set pid { r with phase := .stopped } }

theorem step_moves (h : Sync.step p s l = some s') : Moves p s l s' := by
  cases l with
  | edit edit =>
      rw [Sync.step] at h
      split at h
      · next db hedit =>
          cases h
          exact .edited (applyEdit_edited hedit)
      · cases h
  | claim accountId expectedRevision kind identity now id =>
      rw [Sync.step] at h
      split at h
      · next db run hclaim =>
          cases h
          obtain ⟨account, rfl, rfl, hrun, hclaimed, hdb⟩ := claimWithTrigger_spec _ hclaim
          have hdb : db = { s.db with runs := s.db.runs ++ [run] } := hdb
          rw [hdb]
          exact .claimed hrun hclaimed
      · cases h
  | resume runId =>
      rw [Sync.step] at h
      split at h
      · next run hrun =>
          split at h
          · next hkind =>
              cases h
              obtain rfl := (lookup_mem hrun).2
              exact .resumed hrun hkind
          · cases h
      · cases h
  | call pid call =>
      rw [Sync.step] at h
      obtain ⟨r, hr, h⟩ := bind_some h
      obtain ⟨outcome, houtcome, h⟩ := bind_some h
      cases h
      cases outcome with
      | ok done => exact .advanced hr houtcome
      | error e => exact .faulted hr houtcome
  | settle pid now =>
      rw [Sync.step] at h
      split at h
      · next r hr =>
          split at h
          · next e hphase =>
              cases h
              unfold SyncState.settle
              split
              · next hdone => exact .settled hr hphase hdone
              · next hdone => exact .raised hr hphase hdone
          · cases h
      · cases h
  | stop pid =>
      rw [Sync.step] at h
      split at h
      · next r hr =>
          split at h
          · cases h
          · next hover =>
              cases h
              exact .stopped hr (Bool.eq_false_iff.mpr hover)
      · cases h

end Connectors

end SecondBrain
