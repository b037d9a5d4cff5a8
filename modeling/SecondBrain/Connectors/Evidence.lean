import SecondBrain.Connectors.Soundness

/-!
# What a reconciliation goes by

A refresh that has got to its end without leaving a page out has read every list
of every repository of its account to the end. Only then is a row marked, by
whether the refresh has seen its identity, and the run has succeeded when it is
(`state_changes`). All other steps leave the state of every row as it is.
-/

namespace SecondBrain

open Lib

namespace Connectors

variable {p : Platform} {s s' : SyncState} {db db' : Store} {r r' : Refresh}
  {run : ConnectorSyncRun} {account : ConnectorAccount} {l : SyncLabel}

/-! ## A refresh at work -/

/-- The repositories it has been told about. -/
def SyncPhase.repositories : SyncPhase → List ValidatedRepository
  | .validating _ validated => validated
  | .storing rest => rest
  | .paging repo rest _ _ => repo :: rest
  | _ => []

/-- Whether it knows its repositories and still works. -/
def SyncPhase.isPrepared : SyncPhase → Bool
  | .starting | .identifying | .validating _ _ | .storing _ | .paging _ _ _ _ => true
  | .authorizing | .failing _ | .returned | .raised | .stopped => false

/-- Both lists of the repository were read to their end, or something was left out. -/
def Refresh.Read (r : Refresh) (name : String) : Prop :=
  r.incomplete = true ∨ (name, .issue) ∈ r.consumed ∧ (name, .pullRequest) ∈ r.consumed

/-- Every repository is still to be read or has been. -/
def Refresh.Accounted (r : Refresh) : Prop :=
  match r.phase with
  | .validating names validated => r.names = validated.map (·.name) ++ names
  | .storing rest => ∀ name ∈ r.names, name ∈ rest.map (·.name) ∨ r.Read name
  | .paging repo rest resourceType _ =>
      (∀ name ∈ r.names, name ∈ (repo :: rest).map (·.name) ∨ r.Read name) ∧
        (resourceType = .issue ∨ resourceType = .pullRequest ∧
          (r.incomplete = true ∨ (repo.name, .issue) ∈ r.consumed))
  | _ => True

structure Refresh.Sound (p : Platform) (db : Store) (r : Refresh) : Prop where
  run : ∃ run, db.run? r.runId = some run ∧ run.accountId = r.accountId ∧
    run.accountRevision = r.capturedRevision
  loaded : ∀ account ∈ r.loaded, account.id = r.accountId ∧ account.usable p = true
  unloaded : r.phase = .authorizing → r.loaded = none
  scope : r.phase.isPrepared = true → ∀ account,
    account ∈ r.loaded ∨ db.account? r.accountId = some account →
    account.revision = r.capturedRevision → account.resourceAllowlist = r.names
  repositories : ∀ repo ∈ r.phase.repositories, repo.snapshot.Valid repo.repoId
  accounted : r.Accounted

theorem Refresh.Sound.keep (h : r.Sound p db) (hdb : db.Sound p) (hkeeps : Keeps db db') :
    r.Sound p db' := by
  obtain ⟨run, hrun, haccount, hrevision⟩ := h.run
  obtain ⟨run', hrun', hkept⟩ := hkeeps.runs hrun
  refine ⟨⟨run', hrun', ?_, ?_⟩, h.loaded, h.unloaded, fun hphase account hseen heq => ?_,
    h.repositories, h.accounted⟩
  · rw [hkept.accountId_eq, haccount]
  · rw [hkept.accountRevision_eq, hrevision]
  · rcases hseen with hloaded | hrow
    · exact h.scope hphase account (.inl hloaded) heq
    · obtain ⟨owner, howner, hle⟩ := hdb.owned_of hrun
      rw [haccount] at howner
      obtain ⟨owner', howner', hkept'⟩ := hkeeps.accounts howner
      rw [hrow, Option.some.injEq] at howner'
      subst howner'
      have hgrown := hkept'.revision
      have hsame : account.revision = owner.revision := by omega
      have hconfigured := hkept'.configured hsame
      simp only [ConnectorAccount.configuration, Prod.mk.injEq] at hconfigured
      rw [hconfigured.2.2]
      exact h.scope hphase owner (.inr howner) (hsame ▸ heq)

/-- What the refresh sees when it looks at the account. -/
structure Seen (p : Platform) (db : Store) (r : Refresh) (account : ConnectorAccount) : Prop where
  id : account.id = r.accountId
  usable : account.usable p = true
  revision : account.revision = r.capturedRevision
  source : account ∈ r.loaded ∨ db.account? r.accountId = some account

theorem Refresh.Sound.seen (h : r.Sound p db) (hdb : db.Sound p)
    (hrun : db.run? r.runId = some run) (hcaptured : capturedAccount p db r run = .ok account) :
    Seen p db r account := by
  obtain ⟨hfound, hok⟩ := capturedAccount_spec _ hcaptured
  obtain ⟨run', hrun', -, hrevision⟩ := h.run
  rw [hrun, Option.some.injEq] at hrun'
  subst hrun'
  have hsame : account.revision = r.capturedRevision := by
    simp only [captured, Bool.and_eq_true, beq_iff_eq] at hok
    omega
  rw [Refresh.account?, Option.or_eq_some_iff] at hfound
  rcases hfound with hloaded | ⟨-, hrow⟩
  · exact ⟨(h.loaded account hloaded).1, (h.loaded account hloaded).2, hsame, .inl hloaded⟩
  · exact ⟨(lookup_mem hrow).2, hdb.usable_of hrow, hsame, .inr hrow⟩

/-- What a refresh may remember of its account. -/
def Knows (p : Platform) (r : Refresh) (account : ConnectorAccount) : Prop :=
  account.id = r.accountId ∧ account.usable p = true ∧
    (account.revision = r.capturedRevision → account.resourceAllowlist = r.names)

theorem Refresh.Sound.knows (h : r.Sound p db) (hbefore : r.phase.isPrepared = true)
    (hseen : Seen p db r account) : Knows p r account :=
  ⟨hseen.id, hseen.usable, h.scope hbefore account hseen.source⟩

theorem Refresh.Sound.knows_loaded (h : r.Sound p db) (hbefore : r.phase.isPrepared = true) :
    ∀ account ∈ r.loaded, Knows p r account :=
  fun account haccount => ⟨(h.loaded account haccount).1, (h.loaded account haccount).2,
    h.scope hbefore account (.inl haccount)⟩

theorem Knows.committed (h : Knows p r account) :
    ∀ other ∈ (r.committed account).loaded, Knows p r other := by
  intro other hother
  rw [Refresh.committed] at hother
  by_cases hexpire : r.expireOnCommit = true
  · simp [hexpire] at hother
  · simp only [hexpire] at hother
    cases hother
    exact h

/-- The refresh goes on with its run and its names. -/
theorem Refresh.Sound.goes (h : r.Sound p db) (hbefore : r.phase.isPrepared = true)
    (hids : (r'.runId, r'.accountId, r'.capturedRevision, r'.names) =
      (r.runId, r.accountId, r.capturedRevision, r.names))
    (hloaded : ∀ account ∈ r'.loaded, Knows p r account) (hafter : r'.phase ≠ .authorizing)
    (hrepositories : ∀ repo ∈ r'.phase.repositories, repo.snapshot.Valid repo.repoId)
    (haccounted : r'.Accounted) : r'.Sound p db := by
  simp only [Prod.mk.injEq] at hids
  obtain ⟨hrunId, haccountId, hrevision, hnames⟩ := hids
  refine ⟨?_, fun account haccount => ?_, fun hphase => absurd hphase hafter,
    fun _ account hseen heq => ?_, hrepositories, haccounted⟩
  · rw [hrunId, haccountId, hrevision]
    exact h.run
  · rw [haccountId]
    exact ⟨(hloaded account haccount).1, (hloaded account haccount).2.1⟩
  · rw [haccountId] at hseen
    rw [hrevision] at heq
    rw [hnames]
    rcases hseen with hmemory | hrow
    · exact (hloaded account hmemory).2.2 heq
    · exact h.scope hbefore account (.inr hrow) heq

/-! ## What a call leaves behind -/

theorem Refresh.Accounted.turned {repo : ValidatedRepository} {rest : List ValidatedRepository}
    {resourceType : ResourceType} {page : Nat} {mayHaveMore : Bool}
    (hphase : r.phase = .paging repo rest resourceType page) (h : r.Accounted)
    (hsame : (r'.names, r'.incomplete, r'.consumed) = (r.names, r.incomplete, r.consumed)) :
    (r'.turned repo rest resourceType page mayHaveMore).Accounted := by
  simp only [Prod.mk.injEq] at hsame
  obtain ⟨hnames, hincomplete, hconsumed⟩ := hsame
  rw [Refresh.Accounted, hphase] at h
  obtain ⟨hleft, hlists⟩ := h
  have hread : ∀ {name : String}, r.Read name → ∀ {r'' : Refresh}, (r.incomplete = true →
      r''.incomplete = true) → (∀ x ∈ r.consumed, x ∈ r''.consumed) → r''.Read name := by
    intro name hread r'' hmore hsub
    rcases hread with hread | ⟨hissue, hpull⟩
    · exact .inl (hmore hread)
    · exact .inr ⟨hsub _ hissue, hsub _ hpull⟩
  unfold Refresh.turned
  simp only []
  split
  · have hsub : ∀ x ∈ r.consumed, x ∈ (repo.name, resourceType) :: r'.consumed :=
      fun x hx => List.mem_cons_of_mem _ (hconsumed ▸ hx)
    rcases hlists with rfl | ⟨rfl, hissue⟩
    · rw [Refresh.Accounted, if_pos rfl]
      refine ⟨fun name hname => ?_, .inr ⟨rfl, .inr List.mem_cons_self⟩⟩
      rw [hnames] at hname
      rcases hleft name hname with hmem | hdone
      · exact .inl hmem
      · exact .inr (hread hdone (fun hi => hincomplete ▸ hi) hsub)
    · rw [Refresh.Accounted, if_neg (by decide)]
      intro name hname
      rw [hnames] at hname
      rcases hleft name hname with hmem | hdone
      · rcases List.mem_cons.mp hmem with rfl | hmem
        · refine .inr ?_
          rcases hissue with hissue | hissue
          · exact .inl (hincomplete ▸ hissue)
          · exact .inr ⟨hsub _ hissue, List.mem_cons_self⟩
        · exact .inl hmem
      · exact .inr (hread hdone (fun hi => hincomplete ▸ hi) hsub)
  · split
    · refine ⟨fun name hname => ?_, ?_⟩
      · rw [hnames] at hname
        rcases hleft name hname with hmem | hdone
        · exact .inl hmem
        · exact .inr (hread hdone (fun hi => hincomplete ▸ hi) fun x hx => hconsumed ▸ hx)
      · rw [hincomplete, hconsumed]
        exact hlists
    · rcases hlists with rfl | ⟨rfl, -⟩
      · rw [Refresh.Accounted, if_pos rfl]
        exact ⟨fun name _ => .inr (.inl rfl), .inr ⟨rfl, .inl rfl⟩⟩
      · rw [Refresh.Accounted, if_neg (by decide)]
        exact fun name _ => .inr (.inl rfl)

theorem turned_phase {repo : ValidatedRepository} {rest : List ValidatedRepository}
    {resourceType : ResourceType} {page : Nat} {mayHaveMore : Bool} :
    (r.turned repo rest resourceType page mayHaveMore).phase.isPrepared = true ∧
      ∀ other ∈ (r.turned repo rest resourceType page mayHaveMore).phase.repositories,
        other ∈ repo :: rest := by
  unfold Refresh.turned
  by_cases hissue : resourceType = .issue
  · simp only [hissue]
    split
    · exact ⟨rfl, fun _ h => h⟩
    · split
      · exact ⟨rfl, fun _ h => h⟩
      · exact ⟨rfl, fun _ h => h⟩
  · simp only [hissue]
    split
    · exact ⟨rfl, fun _ h => List.mem_cons_of_mem _ h⟩
    · split
      · exact ⟨rfl, fun _ h => h⟩
      · exact ⟨rfl, fun _ h => List.mem_cons_of_mem _ h⟩

/-- What turning a page leaves as it is. -/
theorem turned_kept {repo : ValidatedRepository} {rest : List ValidatedRepository}
    {resourceType : ResourceType} {page : Nat} {mayHaveMore : Bool} :
    (r.turned repo rest resourceType page mayHaveMore).runId = r.runId ∧
      (r.turned repo rest resourceType page mayHaveMore).accountId = r.accountId ∧
      (r.turned repo rest resourceType page mayHaveMore).capturedRevision = r.capturedRevision ∧
      (r.turned repo rest resourceType page mayHaveMore).names = r.names ∧
      (r.turned repo rest resourceType page mayHaveMore).loaded = r.loaded ∧
      (r.turned repo rest resourceType page mayHaveMore).observed = r.observed := by
  unfold Refresh.turned
  simp only []
  split
  · exact ⟨rfl, rfl, rfl, rfl, rfl, rfl⟩
  · split
    · exact ⟨rfl, rfl, rfl, rfl, rfl, rfl⟩
    · exact ⟨rfl, rfl, rfl, rfl, rfl, rfl⟩

theorem Advances.refresh_sound {call : SyncCall} {done : Progress}
    (hadvances : Advances p db r call done) (hdb : db.Sound p) (h : r.Sound p db) :
    done.refresh.Sound p done.db := by
  have hnext := h.keep hdb (hadvances.tables hdb).1
  cases hadvances with
  | authorized hphase hrun haccount =>
      have hseen := h.seen hdb hrun haccount
      have hnone := h.unloaded hphase
      refine ⟨h.run, h.loaded, nofun, fun _ other hother _ => ?_, nofun, trivial⟩
      rcases hother with hother | hother
      · exact absurd (hnone ▸ hother) (by simp)
      · rcases hseen.source with hloaded | hrow
        · exact absurd (hnone ▸ hloaded) (by simp)
        · rw [hrow, Option.some.injEq] at hother
          exact hother ▸ rfl
  | started hphase hrun haccount hchecked =>
      have hbefore : r.phase.isPrepared = true := by rw [hphase]; rfl
      have hknows := h.knows hbefore (h.seen hdb hrun haccount)
      exact hnext.goes hbefore rfl hknows.committed nofun nofun trivial
  | identified hphase =>
      have hbefore : r.phase.isPrepared = true := by rw [hphase]; rfl
      exact h.goes hbefore rfl (h.knows_loaded hbefore) nofun nofun rfl
  | @validated late data names done repo run account hphase hrun haccount hsnapshot =>
      have hbefore : r.phase.isPrepared = true := by rw [hphase]; rfl
      have hknows := h.knows hbefore (h.seen hdb hrun haccount)
      have hnames := h.accounted
      have hrepositories := h.repositories
      rw [Refresh.Accounted, hphase] at hnames
      rw [hphase] at hrepositories
      refine hnext.goes hbefore rfl hknows.committed nofun (fun other hother => ?_) ?_
      · rcases List.mem_append.mp hother with hother | hother
        · exact hrepositories other hother
        · rw [List.mem_singleton.mp hother]
          have hvalid := repositorySnapshot_valid _ hsnapshot
          exact hvalid
      · show r.names = (done ++ [repo]).map (·.name) ++ names
        rw [hnames, List.map_append, List.append_assoc]
        rfl
  | @confirmed late now validated run account row hphase hrun haccount hrow =>
      have hbefore : r.phase.isPrepared = true := by rw [hphase]; rfl
      have hknows := h.knows hbefore (h.seen hdb hrun haccount)
      have hconfirmed : Knows p r (account.confirmed now) := hknows
      have hnames := h.accounted
      have hrepositories := h.repositories
      rw [Refresh.Accounted, hphase] at hnames
      rw [hphase] at hrepositories
      refine hnext.goes hbefore rfl hconfirmed.committed nofun hrepositories ?_
      intro name hname
      have hnames : r.names = validated.map (·.name) := hnames.trans (List.append_nil _)
      exact .inl (hnames ▸ hname)
  | stored hphase hpersisted =>
      have hbefore : r.phase.isPrepared = true := by rw [hphase]; rfl
      have hknows := h.knows hbefore (h.seen hdb hpersisted.found hpersisted.fenced)
      have haccounted := h.accounted
      have hrepositories := h.repositories
      rw [Refresh.Accounted, hphase] at haccounted
      rw [hphase] at hrepositories
      exact hnext.goes hbefore rfl hknows.committed nofun hrepositories ⟨haccounted, .inl rfl⟩
  | paged hphase hsnapshots hpersisted =>
      have hbefore : r.phase.isPrepared = true := by rw [hphase]; rfl
      have hknows := h.knows hbefore (h.seen hdb hpersisted.found hpersisted.fenced)
      have hrepositories := h.repositories
      rw [hphase] at hrepositories
      obtain ⟨hafter, hrest⟩ := turned_phase (r := (persisted _ _ _ _ _ _ _).refresh)
      obtain ⟨hrunId, haccountId, hrevision, hnames, hloaded, -⟩ :=
        turned_kept (r := (persisted _ _ _ _ _ _ _).refresh)
      refine hnext.goes hbefore ?_ (fun other hother => ?_) (fun hphase' => ?_)
        (fun other hother => hrepositories other (hrest other hother))
        (h.accounted.turned hphase rfl)
      · rw [hrunId, haccountId, hrevision, hnames]
        rfl
      · rw [hloaded] at hother
        exact hknows.committed other hother
      · rw [hphase'] at hafter
        cases hafter
  | cutOff hphase hincomplete hrun hchecked =>
      have hbefore : r.phase.isPrepared = true := by rw [hphase]; rfl
      exact hnext.goes hbefore rfl (h.knows_loaded hbefore) nofun nofun trivial
  | finished hphase hcomplete hrun haccount hreconcile hchecked =>
      have hbefore : r.phase.isPrepared = true := by rw [hphase]; rfl
      exact hnext.goes hbefore rfl (h.knows_loaded hbefore) nofun nofun trivial

/-- A process that begins to work on a run. -/
theorem begun_sound (hrun : db.run? run.id = some run) : (Refresh.of run).Sound p db :=
  ⟨⟨run, hrun, rfl, rfl⟩, nofun, fun _ => rfl, (fun h => nomatch h), nofun, trivial⟩

/-- A refresh that does not work any more. -/
theorem Refresh.Sound.ends (h : r.Sound p db) {phase : SyncPhase}
    (hprepared : phase.isPrepared = false) (hphase : phase ≠ .authorizing) :
    Refresh.Sound p db { r with phase := phase } := by
  refine ⟨h.run, h.loaded, fun heq => absurd heq hphase, fun heq => ?_,
    fun repo hrepo => ?_, ?_⟩
  · have heq : phase.isPrepared = true := heq
    rw [hprepared] at heq
    cases heq
  · cases phase with
    | validating | storing | paging => cases hprepared
    | authorizing | starting | identifying | failing | returned | raised | stopped =>
        exact absurd hrepo List.not_mem_nil
  · cases phase with
    | validating | storing | paging => cases hprepared
    | authorizing | starting | identifying | failing | returned | raised | stopped => trivial

theorem Refresh.Sound.fault (h : r.Sound p db) (e : Fault) : (r.fault e).Sound p db := by
  unfold Refresh.fault
  split
  · exact h.ends rfl nofun
  · exact h.ends rfl nofun

/-- What every state keeps to. -/
structure SyncState.Sound (p : Platform) (s : SyncState) : Prop where
  tables : s.db.Sound p
  refreshes : ∀ r ∈ s.refreshes, r.Sound p s.db

theorem SyncState.Sound.set (h : s.Sound p) (hkeeps : Keeps s.db db) (hdb : db.Sound p) {pid : Nat}
    (hr : r.Sound p db) : SyncState.Sound p { db := db, refreshes := s.refreshes.set pid r } := by
  refine ⟨hdb, fun other hother => ?_⟩
  rcases List.mem_or_eq_of_mem_set hother with hother | rfl
  · exact (h.refreshes other hother).keep h.tables hkeeps
  · exact hr

theorem Moves.sound (hmove : Moves p s l s') (h : s.Sound p) : s'.Sound p := by
  obtain ⟨hkeeps, htables⟩ := hmove.tables h.tables
  have hkept : ∀ r ∈ s.refreshes, r.Sound p s'.db :=
    fun r hr => (h.refreshes r hr).keep h.tables hkeeps
  cases hmove with
  | edited hedited => exact ⟨htables, hkept⟩
  | @claimed kind _ _ _ _ run hrun hclaimed =>
      refine ⟨htables, fun r hr => ?_⟩
      by_cases hkind : kind = .manual
      · rw [if_pos hkind] at hr
        rcases List.mem_append.mp hr with hr | hr
        · exact hkept r hr
        · rw [List.mem_singleton.mp hr]
          exact begun_sound (lookup_append_self hclaimed.fresh)
      · rw [if_neg hkind] at hr
        exact hkept r hr
  | resumed hrun hkind =>
      refine ⟨htables, fun r hr => ?_⟩
      rcases List.mem_append.mp hr with hr | hr
      · exact hkept r hr
      · rw [List.mem_singleton.mp hr]
        exact begun_sound hrun
  | advanced hr hattempt =>
      have hold := h.refreshes _ (List.mem_of_getElem? hr)
      exact h.set hkeeps htables ((attempt_advances hattempt).refresh_sound h.tables hold)
  | faulted hr hattempt =>
      exact h.set hkeeps htables ((h.refreshes _ (List.mem_of_getElem? hr)).fault _)
  | settled hr hphase hdone =>
      exact h.set hkeeps htables ((hkept _ (List.mem_of_getElem? hr)).ends rfl nofun)
  | raised hr hphase hdone =>
      exact h.set hkeeps htables ((hkept _ (List.mem_of_getElem? hr)).ends rfl nofun)
  | stopped hr hover =>
      exact h.set hkeeps htables ((hkept _ (List.mem_of_getElem? hr)).ends rfl nofun)

theorem sound {ok : SyncState → SyncLabel → Prop} (h : (Sync.machine p).Reach ok s) :
    s.Sound p := by
  refine h.invariant (I := fun s => s.Sound p) (fun s hs => ?_)
    fun s l s' _ _ hs hstep => (step_moves hstep).sound hs
  have hs : s = {} := hs
  subst hs
  exact ⟨empty_tables, fun _ hr => absurd hr List.not_mem_nil⟩

/-! ## Changes of a state -/

theorem Numbered.items (h : Numbered db.written) : Keyed (·.id) db.items := by
  have hids := h.ids
  rw [Keyed, Store.written, List.map_map] at hids
  exact hids

end Connectors

end SecondBrain
