import SecondBrain.Connectors.Evidence

/-!
# When a refresh leaves its run terminal

A handler closes the run after every fault it knows. What it does not know leaves
the run as it is: an answer that ends in another exception, a title the database
cannot hold, a clock that has gone back. Where the answers and the clocks are not
of this kind (`Settles`), whatever a refresh fails with closes its run, and a
refresh that has returned or raised has left a terminal one (`refresh_closed`).
-/

namespace SecondBrain

open Lib

namespace Connectors

variable {p : Platform} {s s' : SyncState} {db db' : Store} {r r' : Refresh}
  {run run' : ConnectorSyncRun} {account : ConnectorAccount} {l : SyncLabel}

/-! ## The condition -/

/-- The refresh finds its run, and its account as the run was claimed for. -/
def Fenced (p : Platform) (db : Store) (r : Refresh) (run : ConnectorSyncRun)
    (account : ConnectorAccount) : Prop :=
  db.run? r.runId = some run ∧ capturedAccount p db r run = .ok account

/-- The database takes what is new of a page: there is no NUL in a text, the
identifiers are fresh, the clock is not behind the first time an identity was seen,
and the counters have not run out. -/
structure Fits (p : Platform) (db : Store) (run : ConnectorSyncRun) (items : List ExternalItem)
    (now : Instant) : Prop where
  texts : ∀ item ∈ items, item.texts.any hasNul = false
  fresh : ∀ item ∈ items, item.id ∉ db.items.map (·.id)
  distinct : (items.map (·.id)).Nodup
  clock : ∀ item ∈ items, db.replayed? item = none →
    ∀ row ∈ db.items, row.identity = item.identity → row.firstSeenAt ≤ now
  counters : run.itemsSeen + items.length ≤ 100000

/-- What is stored of a page fits, if the page gets that far. -/
def PageFits (p : Platform) (db : Store) (r : Refresh) (repo : ValidatedRepository)
    (resourceType : ResourceType) (snapshots : List Snapshot) (now : Instant) (ids : Nat → Uuid) :
    Prop :=
  ∀ run account, Fenced p db r run account → checkAllowed p account repo.name = .ok () →
    checkSameRepository p db r repo resourceType = .ok () →
    Fits p db run (pageItems p run repo.repoId resourceType now snapshots ids) now

/-- What the answers and the clocks of a call have to be like. -/
def SyncCall.Settles (p : Platform) (db : Store) (r : Refresh) : SyncCall → Prop
  | .authorize secret transport _ => Known secret ∧ Known transport
  | .start _ => True
  | .identify _ user => Known user
  | .validate _ answer => Known answer
  | .confirm late now => late = false → ∀ run account row, Fenced p db r run account →
      db.account? account.id = some row → row.createdAt ≤ now
  | .storeRepository late now ids => late = false → ∀ repo rest, r.phase = .storing (repo :: rest) →
      PageFits p db r repo .repository [repo.snapshot] now ids
  | .readPage _ _ answer now ids => Known answer ∧
      ∀ repo rest resourceType page data snapshots, r.phase = .paging repo rest resourceType page →
        answer = .ok data → listSnapshots data.value resourceType repo.repoId = .ok snapshots →
        checkCeiling r snapshots = .ok () →
        PageFits p db r repo resourceType snapshots now ids
  | .finish reconciledAt completedAt => ∀ run, db.run? r.runId = some run →
      run.createdAt ≤ completedAt ∧
        (r.incomplete = false → ∀ item ∈ db.items, db.inScope run item = true →
          item.identity.key ∈ r.observedKeys → item.state ≠ .current →
          item.firstSeenAt ≤ reconciledAt)

/-- What the answers and the clocks of a step have to be like. -/
def settles (p : Platform) (s : SyncState) : SyncLabel → Prop
  | .call pid call => ∀ r, s.refreshes[pid]? = some r → call.Settles p s.db r
  | .settle pid now => ∀ r run, s.refreshes[pid]? = some r → s.db.run? r.runId = some run →
      run.createdAt ≤ now
  | _ => True

/-! ## Faults that are known -/

theorem known_accountDrift : accountDrift.known = true := by decide +kernel

theorem known_deadline : Fault.known (.transport "github_deadline_ceiling") = true := by
  decide +kernel

theorem known_ceiling : Fault.known (.transport "github_item_ceiling") = true := by decide +kernel

theorem safeCode_pagination : safeCode "github_pagination_ceiling" = true := by decide +kernel

theorem checkDeadline_known {late : Bool} : Known (checkDeadline late) :=
  .ite (fun _ => FailsWith.error_iff.mpr known_deadline) fun _ => .ok _

theorem checkDeadline_ok {late : Bool} (h : checkDeadline late = .ok ()) : late = false := by
  cases late with
  | false => rfl
  | true => cases h

theorem checkCeiling_known {snapshots : List Snapshot} : Known (checkCeiling r snapshots) :=
  .ite (fun _ => FailsWith.error_iff.mpr known_ceiling) fun _ => .ok _

theorem capturedAccount_known : Known (capturedAccount p db r run) := by
  unfold capturedAccount
  split
  · exact .ite (fun _ => .ok _) fun _ => FailsWith.error_iff.mpr known_accountDrift
  · exact FailsWith.error_iff.mpr known_accountDrift

theorem checkAllowed_known {name : String} : Known (checkAllowed p account name) :=
  .ite (fun _ => .ok _) fun _ => FailsWith.error_iff.mpr known_accountDrift

theorem checkSameRepository_known {repo : ValidatedRepository} {resourceType : ResourceType} :
    Known (checkSameRepository p db r repo resourceType) :=
  .ite (fun _ => FailsWith.error_iff.mpr known_identityMismatch) fun _ => .ok _

theorem Refresh.Sound.currentRun_ok (h : r.Sound p db) :
    ∃ run, currentRun db r = .ok run ∧ db.run? r.runId = some run ∧ run.accountId = r.accountId ∧
      run.accountRevision = r.capturedRevision := by
  obtain ⟨run, hrun, haccount, hrevision⟩ := h.run
  refine ⟨run, ?_, hrun, haccount, hrevision⟩
  rw [currentRun, hrun]

theorem currentRun_known (h : r.Sound p db) : Known (currentRun db r) := by
  obtain ⟨run, hrun, -⟩ := h.currentRun_ok
  rw [hrun]
  exact .ok _

theorem putRun_ok (h : run.Checked) : db.putRun run = .ok (db.replaceRun run) :=
  if_pos (ConnectorSyncRun.checked_iff.mpr h)

/-! ## Storing a page -/

/-- No revision of the identity has the next number. -/
theorem lt_nextRevision {item row : ExternalItem} {seenAt : Instant} (hrow : row ∈ db.items)
    (hidentity : row.identity = item.identity) :
    row.applicationRevision < (nextRevision db item seenAt).applicationRevision := by
  show row.applicationRevision <
    (db.latestRevision item.identity).elim 1 (·.applicationRevision + 1)
  cases hlatest : db.latestRevision item.identity with
  | none =>
      rw [Store.latestRevision, latest_eq_none_iff] at hlatest
      have hother := hlatest row hrow
      rw [hidentity, beq_self_eq_true] at hother
      cases hother
  | some last =>
      obtain ⟨-, -, hle⟩ := latest_spec hlatest
      have hle := hle row hrow (by simpa using hidentity)
      exact Nat.lt_succ_of_le hle

theorem nextRevision_seen {item : ExternalItem} {seenAt : Instant}
    (hclock : ∀ row ∈ db.items, row.identity = item.identity → row.firstSeenAt ≤ seenAt) :
    (nextRevision db item seenAt).firstSeenAt ≤ seenAt := by
  show (db.latestRevision item.identity).elim seenAt (·.firstSeenAt) ≤ seenAt
  cases hlatest : db.latestRevision item.identity with
  | none => exact le_rfl
  | some row =>
      obtain ⟨hrow, hidentity, -⟩ := latest_spec hlatest
      exact hclock row hrow (by simpa using hidentity)

theorem insertItem_ok {item : ExternalItem} {seenAt : Instant} (hvalid : item.valid = true)
    (hreplayed : db.replayed? item = none) (htexts : item.texts.any hasNul = false)
    (hfresh : item.id ∉ db.items.map (·.id))
    (hclock : ∀ row ∈ db.items, row.identity = item.identity → row.firstSeenAt ≤ seenAt) :
    db.insertItem (nextRevision db item seenAt) =
      .ok { db with items := db.items ++ [nextRevision db item seenAt] } := by
  have hordered : (nextRevision db item seenAt).ordered = true :=
    decide_eq_true (nextRevision_seen hclock)
  have hpositive : ¬ (nextRevision db item seenAt).applicationRevision < 1 := by
    show ¬ (db.latestRevision item.identity).elim 1 (·.applicationRevision + 1) < 1
    cases db.latestRevision item.identity with
    | none => exact Nat.lt_irrefl 1
    | some row => exact Nat.not_lt.mpr (Nat.le_add_left 1 _)
  have hplain : ¬ (nextRevision db item seenAt).texts.any hasNul = true :=
    Bool.eq_false_iff.mp htexts
  rw [Store.insertItem, if_neg hplain]
  refine if_neg fun h => ?_
  rcases h with h | h | h | h
  · exact h hvalid
  · exact hpositive h
  · exact h hordered
  · obtain ⟨row, hrow, hclash⟩ := List.any_eq_true.mp h
    simp only [Bool.or_eq_true, Bool.and_eq_true, beq_iff_eq] at hclash
    rcases hclash with hid | ⟨hidentity, hnumber | hcontent⟩
    · exact hfresh (List.mem_map.mpr ⟨row, hrow, hid⟩)
    · exact absurd hnumber (lt_nextRevision hrow hidentity).ne
    · have hidentity : row.identity = item.identity := hidentity
      rw [Store.replayed?, List.find?_eq_none] at hreplayed
      exact hreplayed row (List.mem_filter.mpr ⟨hrow, by simpa using hidentity⟩) hcontent

/-- What an item of the run has to be like. -/
def Suitable (p : Platform) (db : Store) (item : ExternalItem) : Prop :=
  checkValues p item = .ok () ∧ checkOwner db item = .ok ()

theorem recordItemRevision_ok {item : ExternalItem} {seenAt : Instant} (hitem : Suitable p db item)
    (htexts : item.texts.any hasNul = false) (hfresh : item.id ∉ db.items.map (·.id))
    (hclock : db.replayed? item = none →
      ∀ row ∈ db.items, row.identity = item.identity → row.firstSeenAt ≤ seenAt) :
    ∃ x, recordItemRevision p db item seenAt = .ok x := by
  unfold recordItemRevision
  rw [hitem.1, hitem.2]
  cases hreplayed : db.replayed? item with
  | some stored => exact ⟨_, rfl⟩
  | none =>
      have hvalid : item.valid = true := by
        have hvalues := hitem.1
        unfold checkValues at hvalues
        split at hvalues
        · next h => exact h.1
        · cases hvalues
      have hinsert := insertItem_ok hvalid hreplayed htexts hfresh (hclock hreplayed)
      exact ⟨_, by show (db.insertItem _ >>= fun _ => _) = _; rw [hinsert]; rfl⟩

/-- A page that fits is stored. -/
theorem recordAll_ok {now : Instant} {items : List ExternalItem}
    (hitems : ∀ item ∈ items, Suitable p db item)
    (htexts : ∀ item ∈ items, item.texts.any hasNul = false)
    (hfresh : ∀ item ∈ items, item.id ∉ db.items.map (·.id)) (hdistinct : (items.map (·.id)).Nodup)
    (hclock : ∀ item ∈ items, db.replayed? item = none →
      ∀ row ∈ db.items, row.identity = item.identity → row.firstSeenAt ≤ now) :
    ∃ x, recordAll p now items db = .ok x := by
  induction items generalizing db with
  | nil => exact ⟨_, rfl⟩
  | cons item rest ih =>
      rw [List.map_cons, List.nodup_cons] at hdistinct
      obtain ⟨x, hx⟩ := recordItemRevision_ok (hitems item List.mem_cons_self)
        (htexts item List.mem_cons_self) (hfresh item List.mem_cons_self)
        (hclock item List.mem_cons_self)
      have hrecorded := (recordItemRevision_spec _ hx).2
      obtain ⟨db', created⟩ := x
      have hrest : ∃ y, recordAll p now rest db' = .ok y := by
        cases hrecorded with
        | replayed =>
            exact ih (fun other h => hitems other (List.mem_cons_of_mem _ h))
              (fun other h => htexts other (List.mem_cons_of_mem _ h))
              (fun other h => hfresh other (List.mem_cons_of_mem _ h)) hdistinct.2
              (fun other h => hclock other (List.mem_cons_of_mem _ h))
        | created _ hordered _ =>
            refine ih (fun other h => hitems other (List.mem_cons_of_mem _ h))
              (fun other h => htexts other (List.mem_cons_of_mem _ h)) (fun other h hmem => ?_)
              hdistinct.2 (fun other h hreplayed row hrow hidentity => ?_)
            · rw [List.map_append, List.mem_append, List.map_singleton, List.mem_singleton] at hmem
              rcases hmem with hmem | hsame
              · exact hfresh other (List.mem_cons_of_mem _ h) hmem
              · exact hdistinct.1 (List.mem_map.mpr ⟨other, h, hsame⟩)
            · rcases List.mem_append.mp hrow with hrow | hrow
              · refine hclock other (List.mem_cons_of_mem _ h) ?_ row hrow hidentity
                rw [Store.replayed?, Store.revisions, List.filter_append, List.find?_append,
                  Option.or_eq_none_iff] at hreplayed
                exact hreplayed.1
              · rw [List.mem_singleton.mp hrow]
                exact of_decide_eq_true hordered
      obtain ⟨y, hy⟩ := hrest
      rw [recordAll, hx]
      exact ⟨_, by show (recordAll p now rest db' >>= fun _ => _) = _; rw [hy]; rfl⟩

/-! ## Calls -/

theorem Fits.counting {items : List ExternalItem} {now : Instant} {created : Nat}
    (hfits : Fits p db run items now) (hdb : db.Sound p) (hrun : run ∈ db.runs)
    (hcreated : created ≤ items.length) : (run.counting items.length created).Checked := by
  have hchecked := hdb.checked run hrun
  have hcounted := hdb.counted run hrun
  have hcounters := hfits.counters
  refine ⟨hchecked.trigger, ?_, hchecked.error, hchecked.completion, hchecked.reconciliation,
    hchecked.order⟩
  show run.itemsSeen + items.length ≤ 100000 ∧ run.itemsCreated + created ≤ 100000 ∧
    run.itemsUnchanged + (items.length - created) ≤ 100000
  omega

theorem pageItems_suitable {repo : ValidatedRepository} {resourceType : ResourceType}
    {snapshots : List Snapshot} {now : Instant} {ids : Nat → Uuid}
    (hrun : db.run? run.id = some run) (hvalid : ∀ snapshot ∈ snapshots, snapshot.Valid repo.repoId) :
    ∀ item ∈ pageItems p run repo.repoId resourceType now snapshots ids, Suitable p db item := by
  intro item hitem
  obtain ⟨⟨snapshot, n⟩, hmem, rfl⟩ := List.mem_map.mp hitem
  have hsnapshot : validateItemValues (resourceId repo.repoId) snapshot.itemId snapshot.version
    snapshot.title snapshot.body = .ok () := hvalid snapshot (List.fst_mem_of_mem_zipIdx hmem)
  have hok : (snapshotItem p run repo.repoId resourceType now snapshot (ids n)).valid = true := by
    show (validateItemValues (resourceId repo.repoId) snapshot.itemId snapshot.version
      snapshot.title snapshot.body).isOk = true
    rw [hsnapshot]
    rfl
  have howner : checkOwner db (snapshotItem p run repo.repoId resourceType now snapshot (ids n)) =
      .ok () := by
    have hfound : db.run? (snapshotItem p run repo.repoId resourceType now snapshot
      (ids n)).createdSyncRunId = some run := hrun
    rw [checkOwner, hfound]
    exact if_pos ⟨rfl, rfl⟩
  exact ⟨if_pos ⟨hok, rfl⟩, howner⟩

theorem persistPage_known {repo : ValidatedRepository} {resourceType : ResourceType}
    {snapshots : List Snapshot} {now : Instant} {ids : Nat → Uuid} (hdb : db.Sound p)
    (h : r.Sound p db) (hvalid : ∀ snapshot ∈ snapshots, snapshot.Valid repo.repoId)
    (hfits : PageFits p db r repo resourceType snapshots now ids) :
    Known (persistPage p db r repo resourceType snapshots now ids) := by
  unfold persistPage
  refine (currentRun_known h).bind fun run hrun => capturedAccount_known.bind fun account haccount => ?_
  refine checkAllowed_known.bind fun _ hallowed => checkSameRepository_known.bind fun _ hsame => ?_
  have hrun := currentRun_spec _ hrun
  have hid : run.id = r.runId := (lookup_mem hrun).2
  have hfits := hfits run account ⟨hrun, haccount⟩ hallowed hsame
  obtain ⟨x, hx⟩ := recordAll_ok (p := p) (pageItems_suitable (hid ▸ hrun) hvalid) hfits.texts
    hfits.fresh hfits.distinct hfits.clock
  have hcreated := recordAll_created _ hx
  have hchecked := hfits.counting hdb (lookup_mem hrun).1 hcreated
  rw [pageItems_length] at hchecked
  rw [hx]
  show Known (x.1.putRun (run.counting snapshots.length x.2) >>= fun _ => _)
  rw [putRun_ok hchecked]
  exact .pure _

theorem authorize_known {secret transport : Except Fault Unit} {late : Bool} (hdb : db.Sound p)
    (h : r.Sound p db) (hsecret : Known secret) (htransport : Known transport) :
    Known (authorize p db r secret transport late) := by
  unfold authorize
  refine (currentRun_known h).bind fun run hrun => capturedAccount_known.bind fun account haccount => ?_
  have hseen := h.seen hdb (currentRun_spec _ hrun) haccount
  have hreference : checkReference account = .ok () := by
    have husable := hseen.usable
    simp only [ConnectorAccount.usable, claimable, validAccountValues, Bool.and_eq_true] at husable
    exact if_pos husable.1.1.1.2.1.1.1.1.2
  rw [hreference]
  refine FailsWith.bind (.ok _) fun _ _ => hsecret.bind fun _ _ => htransport.bind fun _ _ => ?_
  exact checkDeadline_known.bind fun _ _ => .pure _

/-- A run that is not terminal can be marked as running. -/
theorem start_known {now : Instant} (hdb : db.Sound p) (h : r.Sound p db) :
    FailsWith (start p db r now) fun e => e.known = true ∨
      e.isHandled = false ∧ ∃ run, db.run? r.runId = some run ∧ run.status.isTerminal = true := by
  unfold start
  refine ((currentRun_known h).mono fun _ => .inl).bind fun run hrun => ?_
  refine (capturedAccount_known.mono fun _ => .inl).bind fun account haccount => ?_
  have hrun := currentRun_spec _ hrun
  have hchecked := hdb.checked_of hrun
  by_cases hterminal : run.status.isTerminal = true
  · refine FailsWith.bind (.ite (fun _ => .ok _) fun _ => ?_) fun _ _ => .pure _
    exact FailsWith.error_iff.mpr (.inr ⟨rfl, run, hrun, hterminal⟩)
  · rw [Bool.not_eq_true] at hterminal
    have hcompletion := hchecked.completion
    rw [hterminal] at hcompletion
    have hrunning : { run with status := .running, startedAt := some now }.Checked := by
      refine ⟨hchecked.trigger, hchecked.counts, hchecked.error, hcompletion, fun hcomplete => ?_,
        hchecked.order⟩
      rw [hchecked.reconciliation hcomplete] at hterminal
      cases hterminal
    rw [putRun_ok hrunning]
    exact .pure _

theorem checkLogin_known {login : String} : Known (checkLogin p r login) :=
  .ite (fun _ => .ok _) fun _ => FailsWith.error_iff.mpr known_identityMismatch

theorem identify_known {late : Bool} {user : Except Fault Json} (huser : Known user) :
    Known (identify p db r late user) := by
  unfold identify
  refine checkDeadline_known.bind fun _ _ => huser.bind fun user _ => ?_
  refine requiredDict_known.bind fun user _ => string_known.bind fun login _ => ?_
  exact checkLogin_known.bind fun _ _ => .pure _

theorem validate_known {name : String} {names : List String} {validated : List ValidatedRepository}
    {late : Bool} {answer : Except Fault Json} (h : r.Sound p db) (hanswer : Known answer) :
    Known (validate p db r name names validated late answer) := by
  unfold validate
  refine checkDeadline_known.bind fun _ _ => (currentRun_known h).bind fun run _ => ?_
  refine capturedAccount_known.bind fun account _ => hanswer.bind fun data _ => ?_
  exact repositorySnapshot_known.bind fun x _ => .pure _

theorem confirm_known {validated : List ValidatedRepository} {late : Bool} {now : Instant}
    (hdb : db.Sound p) (h : r.Sound p db)
    (hclock : late = false → ∀ run account row, Fenced p db r run account →
      db.account? account.id = some row → row.createdAt ≤ now) :
    Known (confirm p db r validated late now) := by
  unfold confirm
  refine checkDeadline_known.bind fun _ hlate => (currentRun_known h).bind fun run hrun => ?_
  refine capturedAccount_known.bind fun account haccount => ?_
  have hrun := currentRun_spec _ hrun
  have hseen := h.seen hdb hrun haccount
  obtain ⟨run', hrun', howner, -⟩ := h.run
  obtain ⟨row, hrow, -⟩ := hdb.owned_of hrun'
  rw [howner, ← hseen.id] at hrow
  have hordered := hclock (checkDeadline_ok hlate) run account row ⟨hrun, haccount⟩ hrow
  have hput : ∃ db', confirmAccount db account now = .ok db' := by
    rw [confirmAccount, hrow]
    exact ⟨_, if_pos (decide_eq_true hordered)⟩
  obtain ⟨db', hput⟩ := hput
  rw [hput]
  exact .pure _

theorem storeRepository_known {repo : ValidatedRepository} {rest : List ValidatedRepository}
    {late : Bool} {now : Instant} {ids : Nat → Uuid} (hdb : db.Sound p) (h : r.Sound p db)
    (hvalid : repo.snapshot.Valid repo.repoId)
    (hfits : late = false → PageFits p db r repo .repository [repo.snapshot] now ids) :
    Known (storeRepository p db r repo rest late now ids) := by
  unfold storeRepository
  refine checkDeadline_known.bind fun _ hlate => ?_
  have hfits := hfits (checkDeadline_ok hlate)
  refine (persistPage_known hdb h (fun snapshot hsnapshot => ?_) hfits).bind fun done _ => .pure _
  exact List.mem_singleton.mp hsnapshot ▸ hvalid

theorem readPage_known {repo : ValidatedRepository} {rest : List ValidatedRepository}
    {resourceType : ResourceType} {page : Nat} {late late' : Bool}
    {answer : Except Fault GitHubPage} {now : Instant} {ids : Nat → Uuid} (hdb : db.Sound p)
    (h : r.Sound p db) (hanswer : Known answer)
    (hfits : ∀ data snapshots, answer = .ok data →
      listSnapshots data.value resourceType repo.repoId = .ok snapshots →
      checkCeiling r snapshots = .ok () →
      PageFits p db r repo resourceType snapshots now ids) :
    Known (readPage p db r repo rest resourceType page late late' answer now ids) := by
  unfold readPage
  refine checkDeadline_known.bind fun _ _ => (currentRun_known h).bind fun run _ => ?_
  refine capturedAccount_known.bind fun account _ => hanswer.bind fun data hdata => ?_
  refine checkDeadline_known.bind fun _ _ => listSnapshots_known.bind fun snapshots hsnapshots => ?_
  refine checkCeiling_known.bind fun _ hceiling => ?_
  have hvalid := listSnapshots_valid _ hsnapshots
  exact (persistPage_known hdb h hvalid (hfits data snapshots hdata hsnapshots hceiling)).bind
    fun done _ => .pure _

/-- A run is closed with a safe code after it was created. -/
theorem finish_checked {status : SyncStatus} {error : Option String} {complete : Bool}
    {now : Instant} (hchecked : run.Checked) (hterminal : status.isTerminal = true)
    (herror : ∀ code ∈ error, safeCode code = true)
    (hcomplete : complete = true → status = .succeeded) (hnow : run.createdAt ≤ now) :
    (run.finish status error complete now).Checked :=
  ⟨hchecked.trigger, hchecked.counts, herror, hterminal, hcomplete,
    fun _ ht => (Option.some.inj ht) ▸ hnow⟩

theorem finishIncomplete_known {completedAt : Instant} (hdb : db.Sound p) (h : r.Sound p db)
    (hclock : ∀ run, db.run? r.runId = some run → run.createdAt ≤ completedAt) :
    Known (finishIncomplete db r completedAt) := by
  unfold finishIncomplete
  refine (currentRun_known h).bind fun run hrun => ?_
  have hrun := currentRun_spec _ hrun
  have hchecked : (run.finish .incomplete (some "github_pagination_ceiling") false
      completedAt).Checked :=
    finish_checked (hdb.checked_of hrun) rfl (fun code hcode => (Option.some.inj hcode) ▸
      safeCode_pagination) nofun (hclock run hrun)
  rw [putRun_ok hchecked]
  exact .pure _

theorem reconciled_ordered {item : ExternalItem} {observed : List (String × String)}
    {reconciledAt : Instant} (h : item.ordered = true)
    (hclock : item.identity.key ∈ observed → item.state ≠ .current →
      item.firstSeenAt ≤ reconciledAt) :
    (item.reconciled run observed reconciledAt).ordered = true := by
  unfold ExternalItem.reconciled
  by_cases hmem : item.identity.key ∈ observed
  · simp only [if_pos hmem]
    by_cases hstate : item.state = .current
    · rw [if_pos hstate]
      exact h
    · rw [if_neg hstate, if_pos trivial]
      exact decide_eq_true (hclock hmem hstate)
  · simp only [if_neg hmem]
    by_cases hstate : item.state = .stale
    · rw [if_pos hstate]
      exact h
    · rw [if_neg hstate, if_neg (by decide)]
      exact h

theorem finishComplete_known {reconciledAt completedAt : Instant} (hdb : db.Sound p)
    (h : r.Sound p db) (hclock : ∀ run, db.run? r.runId = some run → run.createdAt ≤ completedAt ∧
      ∀ item ∈ db.items, db.inScope run item = true → item.identity.key ∈ r.observedKeys →
        item.state ≠ .current → item.firstSeenAt ≤ reconciledAt) :
    Known (finishComplete p db r reconciledAt completedAt) := by
  unfold finishComplete
  refine (currentRun_known h).bind fun run hrun => capturedAccount_known.bind fun account _ => ?_
  have hrun := currentRun_spec _ hrun
  obtain ⟨hcreated, hseen⟩ := hclock run hrun
  have hreconcile : ∃ db', reconcileLatestItems db run r.observedKeys reconciledAt = .ok db' := by
    unfold reconcileLatestItems
    refine ⟨_, if_pos (List.all_eq_true.mpr fun item' hitem' => ?_)⟩
    obtain ⟨item, hitem, rfl⟩ := List.mem_map.mp hitem'
    split
    · next hscope => exact reconciled_ordered (hdb.ordered item hitem) (hseen item hitem hscope)
    · exact hdb.ordered item hitem
  obtain ⟨db', hreconcile⟩ := hreconcile
  have hchecked : (run.finish .succeeded none true completedAt).Checked :=
    finish_checked (hdb.checked_of hrun) rfl nofun (fun _ => rfl) hcreated
  rw [hreconcile]
  show Known (db'.putRun (run.finish .succeeded none true completedAt) >>= fun _ => _)
  rw [putRun_ok hchecked]
  exact .pure _

/-- The run of the refresh is terminal. -/
def Refresh.Closed (db : Store) (r : Refresh) : Prop :=
  ∃ run, db.run? r.runId = some run ∧ run.status.isTerminal = true

/-- What a call fails with can be handled, or there is nothing left to handle. -/
theorem attempt_known {call : SyncCall} {e : Fault} (hdb : db.Sound p) (h : r.Sound p db)
    (hsettles : call.Settles p db r) (hattempt : attempt p db r call = some (.error e)) :
    e.known = true ∨ e.isHandled = false ∧ r.Closed db := by
  cases call with
  | authorize secret transport late =>
      rw [attempt] at hattempt
      split at hattempt
      · exact .inl (authorize_known hdb h hsettles.1 hsettles.2 e (Option.some.inj hattempt))
      · cases hattempt
  | start now =>
      rw [attempt] at hattempt
      split at hattempt
      · exact start_known hdb h e (Option.some.inj hattempt)
      · cases hattempt
  | identify late user =>
      rw [attempt] at hattempt
      split at hattempt
      · exact .inl (identify_known hsettles e (Option.some.inj hattempt))
      · cases hattempt
  | validate late answer =>
      rw [attempt] at hattempt
      split at hattempt
      · exact .inl (validate_known h hsettles e (Option.some.inj hattempt))
      · cases hattempt
  | confirm late now =>
      rw [attempt] at hattempt
      split at hattempt
      · exact .inl (confirm_known hdb h hsettles e (Option.some.inj hattempt))
      · cases hattempt
  | storeRepository late now ids =>
      rw [attempt] at hattempt
      split at hattempt
      · next repo rest hphase =>
          have hvalid := h.repositories repo (by rw [hphase]; exact List.mem_cons_self)
          have hfits := fun hlate => hsettles hlate repo rest hphase
          exact .inl (storeRepository_known hdb h hvalid hfits e (Option.some.inj hattempt))
      · cases hattempt
  | readPage late late' answer now ids =>
      rw [attempt] at hattempt
      split at hattempt
      · next repo rest resourceType page hphase =>
          have hfits := fun data snapshots => hsettles.2 repo rest resourceType page data snapshots hphase
          exact .inl (readPage_known hdb h hsettles.1 hfits e (Option.some.inj hattempt))
      · cases hattempt
  | finish reconciledAt completedAt =>
      rw [attempt] at hattempt
      split at hattempt
      · have hattempt := Option.some.inj hattempt
        split at hattempt
        · exact .inl (finishIncomplete_known hdb h (fun run hrun => (hsettles run hrun).1) e hattempt)
        · next hincomplete =>
            have hcomplete : r.incomplete = false := Bool.eq_false_iff.mpr hincomplete
            refine .inl (finishComplete_known hdb h (fun run hrun => ?_) e hattempt)
            exact ⟨(hsettles run hrun).1, (hsettles run hrun).2 hcomplete⟩
      · cases hattempt

/-! ## Runs of the machine -/

/-- A refresh in a handler can close its run, and one that is over has. -/
def Refresh.Settled (db : Store) (r : Refresh) : Prop :=
  match r.phase with
  | .failing e => e.known = true
  | .returned | .raised => r.Closed db
  | _ => True

theorem Refresh.Settled.keep (h : r.Settled db) (hkeeps : Keeps db db') : r.Settled db' := by
  have hclosed : r.Closed db → r.Closed db' := by
    intro ⟨run, hrun, hterminal⟩
    obtain ⟨run', hrun', hkept⟩ := hkeeps.runs hrun
    exact ⟨run', hrun', hkept.terminal hterminal⟩
  unfold Refresh.Settled at h ⊢
  cases hphase : r.phase with
  | failing e =>
      rw [hphase] at h
      exact h
  | returned | raised =>
      rw [hphase] at h
      exact hclosed h
  | authorizing | starting | identifying | validating | storing | paging | stopped => trivial

theorem Refresh.Settled.fault {e : Fault}
    (h : e.known = true ∨ e.isHandled = false ∧ r.Closed db) : (r.fault e).Settled db := by
  rw [Refresh.fault]
  by_cases hhandled : e.isHandled = true
  · rw [if_pos hhandled]
    rcases h with hknown | ⟨hraised, -⟩
    · exact hknown
    · rw [hhandled] at hraised
      cases hraised
  · rw [if_neg hhandled]
    rcases h with hknown | ⟨-, hclosed⟩
    · cases e with
      | transport | credential => exact absurd rfl hhandled
      | database | other => cases hknown
    · exact hclosed

/-- What a known fault is closed with is stored. -/
theorem closeRun_ok {e : Fault} {now : Instant} (hdb : db.Sound p) (h : r.Sound p db)
    (hknown : e.known = true) (hclock : ∀ run, db.run? r.runId = some run → run.createdAt ≤ now) :
    ∃ db', closeRun db r now e = .ok db' := by
  obtain ⟨run, hcurrent, hrun, -⟩ := h.currentRun_ok
  have hchecked : ∀ {status : SyncStatus} {code : String}, status.isTerminal = true →
      safeCode code = true → (run.finish status (some code) false now).Checked :=
    fun hterminal hcode => finish_checked (hdb.checked_of hrun) hterminal
      (fun _ h => (Option.some.inj h) ▸ hcode) nofun (hclock run hrun)
  cases e with
  | credential code =>
      rw [closeRun, hcurrent]
      exact ⟨_, putRun_ok (hchecked rfl hknown)⟩
  | transport code =>
      have hfenced : ∃ fenced, fenceAccount db r code = .ok fenced := by
        unfold fenceAccount
        split
        · split
          · exact ⟨_, if_pos rfl⟩
          · exact ⟨_, rfl⟩
        · exact ⟨_, rfl⟩
      obtain ⟨fenced, hfenced⟩ := hfenced
      have hruns := (fenceAccount_spec _ hfenced).runs_eq
      have hcurrent' : currentRun fenced r = .ok run := by
        rw [currentRun, Store.run?, hruns]
        rw [currentRun, Store.run?] at hcurrent
        exact hcurrent
      have hstatus : (failureStatus code).isTerminal = true :=
        closing_terminal (e := .transport code) rfl
      rw [closeRun, hfenced]
      show ∃ db', (currentRun fenced r >>= fun _ => _) = .ok db'
      rw [hcurrent']
      exact ⟨_, putRun_ok (hchecked hstatus hknown)⟩
  | database | other => cases hknown

theorem closed_replaceRun (hrun : db.run? r.runId = some run) (hid : run'.id = run.id)
    (hterminal : run'.status.isTerminal = true) : r.Closed (db.replaceRun run') := by
  have hsame : run'.id = r.runId := hid.trans (lookup_mem hrun).2
  refine ⟨run', ?_, hterminal⟩
  rw [← hsame] at hrun ⊢
  exact run?_replaceRun hrun

/-- A handler that goes through leaves a terminal run. -/
theorem closeRun_closed {e : Fault} {now : Instant} :
    Ensures (closeRun db r now e) fun db' => r.Closed db' := by
  refine closeRun_spec.mono fun db' hdb' => ?_
  obtain ⟨run, status, code, fenced, hclosing, hfenced, hrun, -, rfl⟩ := hdb'
  have hrun : fenced.run? r.runId = some run := by
    rw [Store.run?, hfenced.runs_eq]
    exact hrun
  exact closed_replaceRun hrun rfl (closing_terminal hclosing)

theorem Refresh.Settled.prepared (h : r.phase.isPrepared = true) : r.Settled db := by
  unfold Refresh.Settled
  cases hphase : r.phase with
  | failing | returned | raised =>
      rw [hphase] at h
      cases h
  | authorizing | starting | identifying | validating | storing | paging | stopped => trivial

theorem Advances.settled {call : SyncCall} {done : Progress}
    (hadvances : Advances p db r call done) (hdb : db.Sound p) : done.refresh.Settled done.db := by
  cases hadvances with
  | authorized | started | identified | validated | confirmed | stored => trivial
  | paged hphase hsnapshots hpersisted => exact .prepared turned_phase.1
  | cutOff hphase hincomplete hrun hchecked => exact closed_replaceRun hrun rfl rfl
  | finished hphase hcomplete hrun haccount hreconcile hchecked =>
      obtain ⟨⟨items, rfl⟩, -⟩ := reconcile_tables hreconcile hdb
      exact closed_replaceRun hrun rfl rfl

theorem Moves.keeps_settled (hmove : Moves p s l s') (h : s.Sound p) (hsettles : settles p s l)
    (hsettled : ∀ r ∈ s.refreshes, r.Settled s.db) : ∀ r ∈ s'.refreshes, r.Settled s'.db := by
  have hkeeps := (hmove.tables h.tables).1
  have hkept : ∀ r ∈ s.refreshes, r.Settled s'.db := fun r hr => (hsettled r hr).keep hkeeps
  have hset : ∀ {pid : Nat} {r' : Refresh}, r'.Settled s'.db →
      ∀ r ∈ s.refreshes.set pid r', r.Settled s'.db := by
    intro pid r' hr' r hr
    rcases List.mem_or_eq_of_mem_set hr with hr | rfl
    · exact hkept r hr
    · exact hr'
  cases hmove with
  | edited => exact hkept
  | @claimed kind =>
      intro r hr
      by_cases hkind : kind = .manual
      · rw [if_pos hkind] at hr
        rcases List.mem_append.mp hr with hr | hr
        · exact hkept r hr
        · rw [List.mem_singleton.mp hr]
          trivial
      · rw [if_neg hkind] at hr
        exact hkept r hr
  | resumed =>
      intro r hr
      rcases List.mem_append.mp hr with hr | hr
      · exact hkept r hr
      · rw [List.mem_singleton.mp hr]
        trivial
  | advanced hr hattempt => exact hset ((attempt_advances hattempt).settled h.tables)
  | faulted hr hattempt =>
      have hsound := h.refreshes _ (List.mem_of_getElem? hr)
      exact hset (.fault (attempt_known h.tables hsound (hsettles _ hr) hattempt))
  | settled hr hphase hdone =>
      have hclosed : Refresh.Closed _ _ := closeRun_closed _ hdone
      exact hset hclosed
  | raised hr hphase hdone =>
      have hmem := List.mem_of_getElem? hr
      have hknown := hsettled _ hmem
      rw [Refresh.Settled, hphase] at hknown
      obtain ⟨db', hok⟩ := closeRun_ok h.tables (h.refreshes _ hmem) hknown
        fun run hrun => hsettles _ run hr hrun
      rw [hok] at hdone
      cases hdone
  | stopped => exact hset trivial

theorem settled (h : (Sync.machine p).Reach (settles p) s) : ∀ r ∈ s.refreshes, r.Settled s.db := by
  refine h.invariant (I := fun s => ∀ r ∈ s.refreshes, r.Settled s.db) (fun s hs => ?_)
    fun s l s' hreach hok hs hstep => (step_moves hstep).keeps_settled (sound hreach) hok hs
  have hs : s = {} := hs
  subst hs
  exact fun _ hr => absurd hr List.not_mem_nil

/-! ## A refresh comes to an end -/

/-- How many calls are left when so many repositories are still to be stored. -/
def storingLeft (n : Nat) : Nat := (1 + 2 * maxDataPages) * n + 2

/-- How many calls are left at most. -/
def Refresh.left (r : Refresh) : Nat :=
  match r.phase with
  | .authorizing => 36 + storingLeft 32
  | .starting => 3 + r.names.length + storingLeft r.names.length
  | .identifying => 2 + r.names.length + storingLeft r.names.length
  | .validating names validated =>
      1 + names.length + storingLeft (names.length + validated.length)
  | .storing rest => storingLeft rest.length
  | .paging _ rest resourceType page =>
      (maxDataPages - page + 1) + (if resourceType = .issue then maxDataPages else 0) +
        storingLeft rest.length
  | .failing _ => 1
  | .returned | .raised | .stopped => 0

/-- The step is one of the refresh. -/
def SyncLabel.isOf (pid : Nat) : SyncLabel → Bool
  | .call q _ | .settle q _ => q == pid
  | _ => false

/-- Some call is due until the refresh is over. -/
theorem due {pid : Nat} (hr : s.refreshes[pid]? = some r) (hover : r.phase.isOver = false) :
    ∃ l s', l.isOf pid = true ∧ Sync.step p s l = some s' := by
  have hcall : ∀ call, (attempt p s.db r call).isSome = true →
      ∃ l s', l.isOf pid = true ∧ Sync.step p s l = some s' := by
    intro call hsome
    obtain ⟨outcome, houtcome⟩ := Option.isSome_iff_exists.mp hsome
    refine ⟨.call pid call, s.conclude pid r outcome, beq_self_eq_true pid, ?_⟩
    rw [Sync.step, hr]
    show (attempt p s.db r call >>= fun _ => _) = _
    rw [houtcome]
    rfl
  cases hphase : r.phase with
  | authorizing =>
      refine hcall (.authorize (.ok ()) (.ok ()) false) ?_
      rw [attempt, if_pos hphase]
      rfl
  | starting =>
      refine hcall (.start 0) ?_
      rw [attempt, if_pos hphase]
      rfl
  | identifying =>
      refine hcall (.identify false (.ok .null)) ?_
      rw [attempt, if_pos hphase]
      rfl
  | validating names validated =>
      cases names with
      | nil =>
          refine hcall (.confirm false 0) ?_
          rw [attempt, hphase]
          rfl
      | cons name names =>
          refine hcall (.validate false (.ok .null)) ?_
          rw [attempt, hphase]
          rfl
  | storing rest =>
      cases rest with
      | nil =>
          refine hcall (.finish 0 0) ?_
          rw [attempt, if_pos hphase]
          rfl
      | cons repo rest =>
          refine hcall (.storeRepository false 0 fun n => n) ?_
          rw [attempt, hphase]
          rfl
  | paging repo rest resourceType page =>
      refine hcall (.readPage false false (.ok { value := .null }) 0 fun n => n) ?_
      rw [attempt, hphase]
      rfl
  | failing e =>
      refine ⟨.settle pid 0, s.settle pid r e 0, beq_self_eq_true pid, ?_⟩
      rw [Sync.step, hr]
      dsimp only [bind, Option.bind]
      rw [hphase]
  | returned | raised | stopped =>
      rw [hphase] at hover
      cases hover

end Connectors

end SecondBrain
