import SecondBrain.Knowledge.CaptureRules
import SecondBrain.Knowledge.Evidence

/-!
# Reviews and promotions that happen once

A run at work has one request that may end it, and only a completed run has proposals. So
an extraction that is tried again removes none, and a proposal is there for good. A review
that has locked a proposal sees it as it is: whoever else writes the row waits. What was
decided of a proposal stays decided, and a promotion that finds the memory answers it
(`proposals_once`).
-/

namespace SecondBrain

open Lib

namespace Knowledge

/-! ## What stays -/

/-- What stays of a proposal while others write its row. -/
structure MemoryProposal.Follows (p p' : MemoryProposal) : Prop where
  candidate : p'.toCandidate = p.toCandidate
  id : p'.id = p.id
  runId : p'.runId = p.runId
  decided : p.reviewStatus ≠ .pending → p'.reviewStatus = p.reviewStatus ∧
    p'.reviewNote = p.reviewNote ∧ p'.reviewedAt = p.reviewedAt
  memoryId : ∀ m, p.memoryId = some m → p'.memoryId = some m

/-- Completed runs stay with their proposals. -/
structure Kept (db db' : Store) : Prop where
  run : ∀ r run, db.run? r = some run → run.runStatus = .completed → db'.run? r = some run
  ids : ∀ r run, db.run? r = some run → run.runStatus = .completed →
    (db'.proposalsOf r).map (·.id) = (db.proposalsOf r).map (·.id)
  follows : ∀ id p, db.proposal? id = some p → ∃ p', db'.proposal? id = some p' ∧ p.Follows p'

/-- The proposal was approved, and its memory is there and linked to its source. -/
structure Promoted (db : Store) (p : MemoryProposal) (memoryId : Uuid) : Prop where
  approved : p.reviewStatus = .approved
  memory : (db.memory? memoryId).isSome = true
  linked : ∃ source, db.sourceOf p = some source ∧ db.isLinked memoryId source.id = true

/-- What holds of the proposals of a store. -/
structure ProposalRows (db : Store) : Prop where
  proposals : Keyed (·.id) db.proposals
  runs : Keyed (·.id) db.runs
  completed : ∀ p ∈ db.proposals, ∃ run, db.run? p.runId = some run ∧ run.runStatus = .completed
  promoted : ∀ p ∈ db.proposals, ∀ m, p.memoryId = some m → Promoted db p m
  apart : ∀ p ∈ db.proposals, ∀ p' ∈ db.proposals, ∀ m,
    p.memoryId = some m → p'.memoryId = some m → p = p'

/-! ## Who is at work -/

/-- The run that the request is to end. -/
def Client.runId? : Client → Option Uuid
  | .extraction _ phase => phase.runId?
  | .capture _ _ | .source _ _ | .ingestion _ _ | .review _ _ | .memory _ _
  | .supersession _ _ => none

/-- The proposal that a review has locked. -/
def Client.holding? : Client → Option (ReviewRequest × LockedProposal)
  | .review q (.holding row) => some (q, row)
  | _ => none

/-- The proposal as the review has left it, if it has decided on it. -/
def Client.decided? : Client → Option MemoryProposal
  | .review _ (.answered (.ok (.reviewed ⟨p, .updated⟩))) => some p
  | _ => none

def Client.promoted? : Client → Option PromotionResult
  | .review _ (.answered (.ok (.promoted result))) => some result
  | _ => none

/-- What a request relies on while others move. -/
structure ClientFits (db : Store) (locks : Locks Row) (i : Nat) (c : Client) : Prop where
  run : ∀ r, c.runId? = some r → ∃ run, db.run? r = some run ∧ run.runStatus = .pending
  lock : ∀ q row, c.holding? = some (q, row) → locks (.proposal q.proposalId) = some i
  row : ∀ q row, c.holding? = some (q, row) →
    db.proposal? q.proposalId = some row.proposal ∧ row.runStatus = .completed ∧
      db.sourceOf row.proposal = some row.source
  decided : ∀ p, c.decided? = some p → ∃ p', db.proposal? p.id = some p' ∧
    p'.reviewStatus = p.reviewStatus ∧ p.reviewStatus ≠ .pending
  promoted : ∀ a, c.promoted? = some a → ∃ p, db.proposal? a.proposalId = some p ∧
    p.memoryId = some a.memory.id

/-- Two requests that cannot both be where they are. -/
inductive Client.Clashes (c c' : Client) : Prop
  | run {r : Uuid} : c.runId? = some r → c'.runId? = some r → Client.Clashes c c'
  | decided {p p' : MemoryProposal} :
      c.decided? = some p → c'.decided? = some p' → p.id = p'.id → Client.Clashes c c'
  | created {a b : PromotionResult} :
      c.promoted? = some a → c'.promoted? = some b → a.promotionStatus = .created →
      b.promotionStatus = .created → a.proposalId = b.proposalId → Client.Clashes c c'

theorem Client.Clashes.symm {c c' : Client} (h : c.Clashes c') : c'.Clashes c := by
  cases h with
  | run h h' => exact .run h' h
  | decided h h' hid => exact .decided h' h hid.symm
  | created h h' ha hb hid => exact .created h' h hb ha hid.symm

structure Library.ProposalsSound (s : Library) : Prop where
  rows : ProposalRows s.db
  fits : ∀ i c, s.clients[i]? = some c → ClientFits s.db s.locks i c
  apart : ∀ (i j : Nat) (c c' : Client), s.clients[i]? = some c → s.clients[j]? = some c' →
    c.Clashes c' → i = j

/-! ## Relations between stores -/

variable {sha256 : Sha256} {s s' : Library} {l : LibraryLabel} {db db' : Store}
  {locks locks' : Locks Row} {i j : Nat} {d : Draw} {p : MemoryProposal}

theorem MemoryProposal.Follows.refl (p : MemoryProposal) : p.Follows p :=
  ⟨rfl, rfl, rfl, fun _ => ⟨rfl, rfl, rfl⟩, fun _ h => h⟩

theorem MemoryProposal.Follows.trans {p' p'' : MemoryProposal} (h : p.Follows p')
    (h' : p'.Follows p'') : p.Follows p'' := by
  refine ⟨h'.candidate.trans h.candidate, h'.id.trans h.id, h'.runId.trans h.runId,
    fun hdecided => ?_, fun m hm => h'.memoryId m (h.memoryId m hm)⟩
  obtain ⟨hstatus, hnote, htime⟩ := h.decided hdecided
  obtain ⟨hstatus', hnote', htime'⟩ := h'.decided (hstatus ▸ hdecided)
  exact ⟨hstatus'.trans hstatus, hnote'.trans hnote, htime'.trans htime⟩

theorem Kept.refl (db : Store) : Kept db db :=
  ⟨fun _ _ h _ => h, fun _ _ _ _ => rfl, fun _ p h => ⟨p, h, .refl p⟩⟩

theorem Kept.trans {db'' : Store} (h : Kept db db') (h' : Kept db' db'') : Kept db db'' := by
  refine ⟨fun r run hrun hdone => h'.run r run (h.run r run hrun hdone) hdone,
    fun r run hrun hdone => ?_, fun id p hp => ?_⟩
  · exact (h'.ids r run (h.run r run hrun hdone) hdone).trans (h.ids r run hrun hdone)
  · obtain ⟨p', hp', hfollows⟩ := h.follows id p hp
    obtain ⟨p'', hp'', hfollows'⟩ := h'.follows id p' hp'
    exact ⟨p'', hp'', hfollows.trans hfollows'⟩

/-- What a request may do to the proposals and the runs that others are at work on. -/
structure Spares (db : Store) (locks : Locks Row) (i : Nat) (mine : Option Uuid) (db' : Store) :
    Prop where
  kept : Kept db db'
  pending : ∀ r run, db.run? r = some run → run.runStatus = .pending → mine ≠ some r →
    db'.run? r = some run
  locked : ∀ id p, db.proposal? id = some p → locks.grants i (.proposal id) = false →
    db'.proposal? id = some p

/-- The source of a proposal of a completed run stays its source. -/
theorem sourceOf_later (hgrows : Grows db db') (hkept : Kept db db') {p' : MemoryProposal}
    (hrun : ∃ run, db.run? p.runId = some run ∧ run.runStatus = .completed)
    (hsame : p'.runId = p.runId) {source : Source} (h : db.sourceOf p = some source) :
    db'.sourceOf p' = some source := by
  obtain ⟨run, hrun, hdone⟩ := hrun
  obtain ⟨run', hrun', h⟩ := bind_some h
  obtain rfl := Option.some.inj (hrun.symm.trans hrun')
  obtain ⟨document, hdocument, hsource⟩ := bind_some h
  obtain ⟨document', hdocument', hid⟩ := hgrows.documents _ document hdocument
  have hfound : db'.document? run.documentId = some document' := hdocument'
  have hkeep := hkept.run _ run hrun hdone
  simp only [Store.sourceOf, hsame, hkeep, hfound, Option.bind_eq_bind, Option.bind_some, hid]
  exact hgrows.source? hsource

/-- Memories and links are only added. -/
structure MemoriesGrow (db db' : Store) : Prop where
  memory : ∀ id, (db.memory? id).isSome = true → (db'.memory? id).isSome = true
  links : db.memorySources ⊆ db'.memorySources

theorem MemoriesGrow.of_eq (hmemories : db'.memories = db.memories)
    (hlinks : db'.memorySources = db.memorySources) : MemoriesGrow db db' := by
  refine ⟨fun id h => ?_, by rw [hlinks]; exact List.Subset.refl _⟩
  unfold Store.memory?
  rw [hmemories]
  exact h

/-- What is written of the row of a promoted proposal leaves it promoted. -/
theorem Promoted.later (hgrows : Grows db db') (hkept : Kept db db')
    (hmemories : MemoriesGrow db db') {p' : MemoryProposal} (hfollows : p.Follows p') {m : Uuid}
    (hrun : ∃ run, db.run? p.runId = some run ∧ run.runStatus = .completed)
    (h : Promoted db p m) : Promoted db' p' m := by
  obtain ⟨happroved, hmemory, source, hof, hlinked⟩ := h
  refine ⟨?_, hmemories.memory m hmemory, source,
    sourceOf_later hgrows hkept hrun hfollows.runId hof, ?_⟩
  · rw [(hfollows.decided (by rw [happroved]; decide)).1, happroved]
  · rw [Store.isLinked, List.any_eq_true] at hlinked ⊢
    obtain ⟨link, hlink, hsame⟩ := hlinked
    exact ⟨link, hmemories.links hlink, hsame⟩

/-! ## Rows that are written anew -/

/-- The proposals are each written anew or left, and completed runs are left. -/
structure Rewrites (db db' : Store) (f : MemoryProposal → MemoryProposal) : Prop where
  proposals : db'.proposals = db.proposals.map f
  follows : ∀ p ∈ db.proposals, p.Follows (f p)
  runs : Keyed (·.id) db'.runs
  done : ∀ r run, db.run? r = some run → run.runStatus = .completed → db'.run? r = some run

section

variable {f : MemoryProposal → MemoryProposal}

theorem Rewrites.keyed (h : Rewrites db db' f) (hrows : ProposalRows db) :
    Keyed (·.id) db'.proposals := by
  have hids : (db.proposals.map f).map (·.id) = db.proposals.map (·.id) := by
    rw [List.map_map]
    exact List.map_congr_left fun p hp => (h.follows p hp).id
  rw [Keyed, h.proposals, hids]
  exact hrows.proposals

theorem Rewrites.found (h : Rewrites db db' f) (hrows : ProposalRows db) {id : Uuid}
    (hp : db.proposal? id = some p) : db'.proposal? id = some (f p) := by
  obtain ⟨hmem, hid⟩ := lookup_mem hp
  refine (h.keyed hrows).lookup_iff.mpr ⟨?_, (h.follows p hmem).id.trans hid⟩
  rw [h.proposals]
  exact List.mem_map_of_mem hmem

theorem Rewrites.kept (h : Rewrites db db' f) (hrows : ProposalRows db) : Kept db db' := by
  refine ⟨h.done, fun r run _ _ => ?_, fun id p hp => ?_⟩
  · have hof : db'.proposalsOf r = (db.proposalsOf r).map f := by
      rw [Store.proposalsOf, h.proposals, List.filter_map, Store.proposalsOf]
      refine congrArg _ (List.filter_congr fun p hp => ?_)
      rw [Function.comp_apply, (h.follows p hp).runId]
    rw [hof, List.map_map]
    exact List.map_congr_left fun p hp => (h.follows p (List.mem_of_mem_filter hp)).id
  · exact ⟨f p, h.found hrows hp, h.follows p (lookup_mem hp).1⟩

/-- No proposal is given a memory. -/
theorem Rewrites.rows (h : Rewrites db db' f) (hrows : ProposalRows db) (hgrows : Grows db db')
    (hmemories : MemoriesGrow db db')
    (hsame : ∀ p ∈ db.proposals, (f p).memoryId = p.memoryId) : ProposalRows db' := by
  refine ⟨h.keyed hrows, h.runs, fun p' hp' => ?_, fun p' hp' m hm => ?_,
    fun a ha b hb m hma hmb => ?_⟩
  · rw [h.proposals] at hp'
    obtain ⟨p, hp, rfl⟩ := List.mem_map.mp hp'
    obtain ⟨run, hrun, hdone⟩ := hrows.completed p hp
    rw [(h.follows p hp).runId]
    exact ⟨run, h.done _ run hrun hdone, hdone⟩
  · rw [h.proposals] at hp'
    obtain ⟨p, hp, rfl⟩ := List.mem_map.mp hp'
    exact (hrows.promoted p hp m (hsame p hp ▸ hm)).later hgrows (h.kept hrows) hmemories
      (h.follows p hp) (hrows.completed p hp)
  · rw [h.proposals] at ha hb
    obtain ⟨p, hp, rfl⟩ := List.mem_map.mp ha
    obtain ⟨p', hp', rfl⟩ := List.mem_map.mp hb
    rw [hrows.apart p hp p' hp' m (hsame p hp ▸ hma) (hsame p' hp' ▸ hmb)]

theorem Rewrites.spares (h : Rewrites db db' f) (hrows : ProposalRows db) {mine : Option Uuid}
    (hpending : ∀ r run, db.run? r = some run → run.runStatus = .pending → mine ≠ some r →
      db'.run? r = some run)
    (hlocked : ∀ p ∈ db.proposals, locks.grants i (.proposal p.id) = false → f p = p) :
    Spares db locks i mine db' := by
  refine ⟨h.kept hrows, hpending, fun id p hp hlock => ?_⟩
  obtain ⟨hmem, rfl⟩ := lookup_mem hp
  rw [h.found hrows hp, hlocked p hmem hlock]

end

/-- The proposals and the runs are left. -/
theorem rewrites_aside (hrows : ProposalRows db) (hproposals : db'.proposals = db.proposals)
    (hruns : db'.runs = db.runs) : Rewrites db db' id := by
  refine ⟨by rw [hproposals, List.map_id], fun p _ => .refl p, by rw [hruns]; exact hrows.runs,
    fun r run hrun _ => ?_⟩
  unfold Store.run?
  rw [hruns]
  exact hrun

theorem spares_aside (hrows : ProposalRows db) (hproposals : db'.proposals = db.proposals)
    (hruns : db'.runs = db.runs) {mine : Option Uuid} : Spares db locks i mine db' := by
  refine (rewrites_aside hrows hproposals hruns).spares hrows (fun r run hrun _ _ => ?_)
    fun _ _ _ => rfl
  unfold Store.run?
  rw [hruns]
  exact hrun

theorem rows_aside (hrows : ProposalRows db) (hproposals : db'.proposals = db.proposals)
    (hruns : db'.runs = db.runs) (hgrows : Grows db db') (hmemories : MemoriesGrow db db') :
    ProposalRows db' :=
  (rewrites_aside hrows hproposals hruns).rows hrows hgrows hmemories fun _ _ => rfl

/-! ## What is written of the proposals -/

theorem citing_nil (db : Store) : db.citing [] = [] := by
  rw [Store.citing, List.filter_eq_nil_iff.mpr, List.map_nil]
  intro p _
  cases p.sourceChunkId <;> simp

theorem mem_citing {gone : List Uuid} (hp : p ∈ db.proposals) (h : p.without gone ≠ p) :
    p.id ∈ db.citing gone := by
  refine List.mem_map.mpr ⟨p, List.mem_filter.mpr ⟨hp, ?_⟩, rfl⟩
  by_contra hnone
  exact h (if_neg hnone)

theorem follows_without (p : MemoryProposal) (gone : List Uuid) : p.Follows (p.without gone) := by
  rw [MemoryProposal.without]
  split
  · exact ⟨rfl, rfl, rfl, fun _ => ⟨rfl, rfl, rfl⟩, fun _ h => h⟩
  · exact .refl p

theorem without_memoryId (p : MemoryProposal) (gone : List Uuid) :
    (p.without gone).memoryId = p.memoryId := by
  rw [MemoryProposal.without]
  split <;> rfl

/-- An ingestion takes chunks from proposals it has waited for. -/
theorem writeDocument_proposals {q : IngestRequest} {found : Option LoadedDocument}
    {ids : Nat → Uuid} {documentId : Uuid} {now : Instant} {outcome : IngestionOutcome}
    (h : writeDocument db q found ids documentId now = .ok (outcome, db')) :
    ∃ gone, db'.proposals = db.proposals.map (·.without gone) ∧
      db.citing gone ⊆ db.touched q found := by
  have hnil : db.citing [] ⊆ db.touched q found := by
    rw [citing_nil]
    exact List.nil_subset _
  cases found with
  | none =>
      obtain ⟨chunks, rfl⟩ := writeDocument_created h
      exact ⟨[], (map_without_nil _).symm, hnil⟩
  | some l =>
      unfold writeDocument at h
      dsimp only at h
      split at h
      · cases h
      next p hwrites =>
      obtain rfl := Except.ok.inj h
      split at hwrites
      · obtain ⟨-, rfl⟩ := Prod.mk.inj (Option.some.inj hwrites)
        exact ⟨[], (map_without_nil _).symm, hnil⟩
      split at hwrites
      · cases hwrites
      split at hwrites
      · cases hwrites
      split at hwrites
      · obtain ⟨-, rfl⟩ := Prod.mk.inj (Option.some.inj hwrites)
        exact ⟨[], (map_without_nil _).symm, hnil⟩
      · obtain ⟨stored, hstored, heq⟩ := Option.map_eq_some_iff.mp hwrites
        obtain ⟨-, rfl⟩ := Prod.mk.inj heq
        rw [insertChunks_eq hstored]
        exact ⟨l.gone q, rfl, List.Subset.refl _⟩

theorem run_put_ne {run : MemoryExtractionRun} {r : Uuid} (h : r ≠ run.id) :
    (db.putRun run).run? r = db.run? r :=
  lookup_replace_ne h

theorem run_put_self {run run' : MemoryExtractionRun} (hrun : db.run? run.id = some run)
    (hid : run'.id = run.id) : (db.putRun run').run? run.id = some run' := by
  have hmem : run'.id ∈ db.runs.map (·.id) := by
    rw [hid]
    exact List.mem_map_of_mem (lookup_mem hrun).1
  have hself : (db.putRun run').run? run'.id = some run' := lookup_replace_self hmem
  rw [hid] at hself
  exact hself

/-- The row of a run that is not completed is written anew. -/
theorem rewrites_putRun (hrows : ProposalRows db) {run run' : MemoryExtractionRun}
    (hrun : db.run? run.id = some run) (hid : run'.id = run.id)
    (hopen : run.runStatus ≠ .completed) : Rewrites db (db.putRun run') id := by
  refine ⟨(List.map_id _).symm, fun p _ => .refl p, hrows.runs.replace, fun r other hother hdone => ?_⟩
  have hne : r ≠ run'.id := by
    rintro rfl
    rw [hid, hrun] at hother
    obtain rfl := Option.some.inj hother
    exact hopen hdone
  exact (run_put_ne hne).trans hother

theorem insertProposals_keyed {proposals : List MemoryProposal}
    (h : db.insertProposals proposals = some db') (hkeyed : Keyed (·.id) db.proposals) :
    Keyed (·.id) db'.proposals := by
  induction proposals generalizing db with
  | nil =>
      obtain rfl := Option.some.inj h
      exact hkeyed
  | cons p rest ih =>
      rw [Store.insertProposals] at h
      split at h
      · next haccepts =>
          refine ih h (hkeyed.append ?_)
          simp only [Store.acceptsProposal, Bool.and_eq_true, Option.isNone_iff_eq_none] at haccepts
          exact lookup_eq_none.mp haccepts.1.1.1.1.1.1
      · cases h

theorem mem_proposalsFor {runId : Uuid} {x : Selection} {found : List (Nat × Candidate)}
    {ids : Nat → Uuid} (hp : p ∈ proposalsFor runId x found ids) :
    p.runId = runId ∧ p.memoryId = none := by
  obtain ⟨⟨f, n⟩, -, rfl⟩ := List.mem_map.mp hp
  exact ⟨rfl, rfl⟩

/-- Nothing is removed when what was proposed is stored: the run was not completed before. -/
theorem stored_spec (hrows : ProposalRows db) (locks : Locks Row) (i : Nat) {runId : Uuid}
    {run : MemoryExtractionRun}
    (hrun : db.run? runId = some run) (hpending : run.runStatus = .pending) {x : Selection}
    {found : List (Nat × Candidate)} {ids : Nat → Uuid} {now : Instant} {stored : Store}
    (hstored : ({ db with proposals := db.proposals.filter fun p => p.runId != runId } :
      Store).insertProposals (proposalsFor runId x found ids) = some stored) :
    ProposalRows (stored.putRun (run.completed now)) ∧
      Spares db locks i (some runId) (stored.putRun (run.completed now)) := by
  have hfilter : (db.proposals.filter fun p => p.runId != runId) = db.proposals := by
    refine List.filter_eq_self.mpr fun p hp => bne_iff_ne.mpr fun hsame => ?_
    obtain ⟨other, hother, hdone⟩ := hrows.completed p hp
    rw [hsame, hrun] at hother
    rw [← Option.some.inj hother, hpending] at hdone
    cases hdone
  rw [hfilter] at hstored
  have hkeyed := insertProposals_keyed hstored hrows.proposals
  obtain rfl := insertProposals_eq hstored
  have hid : run.id = runId := (lookup_mem hrun).2
  have hothers : ∀ r, r ≠ runId →
      ((({ db with proposals := db.proposals ++ proposalsFor runId x found ids } : Store).putRun
        (run.completed now)).run? r = db.run? r) :=
    fun r hne => lookup_replace_ne fun h => hne (h.trans hid)
  have hcompleted : ∀ r other, db.run? r = some other → other.runStatus = .completed →
      r ≠ runId := by
    rintro r other hother hdone rfl
    rw [← Option.some.inj (hrun.symm.trans hother), hpending] at hdone
    cases hdone
  have hkept : Kept db (({ db with
      proposals := db.proposals ++ proposalsFor runId x found ids } : Store).putRun
        (run.completed now)) := by
    refine ⟨fun r other hother hdone => ?_, fun r other hother hdone => ?_, fun id p hp => ?_⟩
    · exact (hothers r (hcompleted r other hother hdone)).trans hother
    · refine congrArg _ (List.filter_append _ _ |>.trans ?_)
      have hnone : (proposalsFor runId x found ids).filter (fun p => p.runId == r) = [] := by
        refine List.filter_eq_nil_iff.mpr fun p hp => ?_
        rw [(mem_proposalsFor hp).1, beq_iff_eq]
        exact fun h => hcompleted r other hother hdone h.symm
      rw [hnone, List.append_nil]
      rfl
    · exact ⟨p, lookup_append_of_some hp _, .refl p⟩
  have hself : (({ db with proposals := db.proposals ++ proposalsFor runId x found ids } :
      Store).putRun (run.completed now)).run? runId = some (run.completed now) := by
    subst hid
    have hfound : ({ db with proposals := db.proposals ++ proposalsFor run.id x found ids } :
        Store).run? run.id = some run := hrun
    exact run_put_self hfound rfl
  have hgrows : Grows db (({ db with
      proposals := db.proposals ++ proposalsFor runId x found ids } : Store).putRun
        (run.completed now)) := .of_eq rfl rfl rfl
  refine ⟨⟨hkeyed, hrows.runs.replace, fun p hp => ?_, fun p hp m hm => ?_,
    fun p hp p' hp' m hm hm' => ?_⟩, hkept, fun r other hother _ hne => ?_, fun id p hp _ => ?_⟩
  · rcases List.mem_append.mp hp with hp | hp
    · obtain ⟨other, hother, hdone⟩ := hrows.completed p hp
      exact ⟨other, hkept.run _ other hother hdone, hdone⟩
    · rw [(mem_proposalsFor hp).1]
      exact ⟨_, hself, rfl⟩
  · rcases List.mem_append.mp hp with hp | hp
    · exact (hrows.promoted p hp m hm).later hgrows hkept (.of_eq rfl rfl) (.refl p)
        (hrows.completed p hp)
    · rw [(mem_proposalsFor hp).2] at hm
      cases hm
  · rcases List.mem_append.mp hp with hp | hp
    · rcases List.mem_append.mp hp' with hp' | hp'
      · exact hrows.apart p hp p' hp' m hm hm'
      · rw [(mem_proposalsFor hp').2] at hm'
        cases hm'
    · rw [(mem_proposalsFor hp).2] at hm
      cases hm
  · exact (hothers r fun h => hne (congrArg some h.symm)).trans hother
  · exact lookup_append_of_some hp _

/-! ## Reviews -/

section

variable {current new : MemoryProposal}

/-- The row of a proposal that is locked is written anew. -/
theorem rewrites_put (hrows : ProposalRows db) (hcurrent : db.proposal? current.id = some current)
    (hfollows : current.Follows new) (hruns : db'.runs = db.runs)
    (hproposals : db'.proposals = replace (·.id) new db.proposals) :
    Rewrites db db' fun r => if r.id = new.id then new else r := by
  refine ⟨hproposals, fun p hp => ?_, by rw [hruns]; exact hrows.runs, fun r run hrun _ => ?_⟩
  · split
    · next hid =>
        obtain rfl : p = current := by
          refine hrows.proposals.inj hp (lookup_mem hcurrent).1 ?_
          exact hid.trans hfollows.id
        exact hfollows
    · exact .refl p
  · unfold Store.run?
    rw [hruns]
    exact hrun

theorem spares_put (hrows : ProposalRows db) (hcurrent : db.proposal? current.id = some current)
    (hfollows : current.Follows new) (hruns : db'.runs = db.runs)
    (hproposals : db'.proposals = replace (·.id) new db.proposals)
    (hlock : locks (.proposal current.id) = some i) {mine : Option Uuid} :
    Spares db locks i mine db' := by
  refine (rewrites_put hrows hcurrent hfollows hruns hproposals).spares hrows
    (fun r run hrun _ _ => ?_) fun p _ hlocked => if_neg fun hid => ?_
  · unfold Store.run?
    rw [hruns]
    exact hrun
  · rw [hid, hfollows.id, Locks.grants, hlock] at hlocked
    simp at hlocked

theorem follows_decided {decision : Decision} {note : Option String} {now : Instant}
    (hpending : current.reviewStatus = .pending) :
    current.Follows (current.decided decision note now) :=
  ⟨rfl, rfl, rfl, fun h => absurd hpending h, fun _ h => h⟩

theorem Decision.status_ne (decision : Decision) : decision.status ≠ .pending := by
  cases decision <;> decide

/-- A memory is inserted and linked for a proposal that has none. -/
structure PromotedNow (db db' : Store) (row : LockedProposal) (memoryId linkId : Uuid)
    (now : Instant) : Prop where
  current : db.proposal? row.proposal.id = some row.proposal
  approved : row.proposal.reviewStatus = .approved
  source : db.sourceOf row.proposal = some row.source
  fresh : db.memory? memoryId = none
  bare : row.proposal.memoryId = none
  store : db' = ({ db with
    memories := db.memories ++ [row.memory memoryId]
    memorySources := db.memorySources ++ [row.link memoryId linkId now] } : Store).putProposal
      { row.proposal with memoryId := some memoryId }

variable {row : LockedProposal} {memoryId linkId : Uuid} {now : Instant}

theorem PromotedNow.follows (h : PromotedNow db db' row memoryId linkId now) :
    row.proposal.Follows { row.proposal with memoryId := some memoryId } := by
  refine ⟨rfl, rfl, rfl, fun _ => ⟨rfl, rfl, rfl⟩, fun m hm => ?_⟩
  rw [h.bare] at hm
  cases hm

theorem PromotedNow.memories (h : PromotedNow db db' row memoryId linkId now) :
    MemoriesGrow db db' := by
  rw [h.store]
  refine ⟨fun id hid => ?_, List.subset_append_left _ _⟩
  obtain ⟨memory, hmemory⟩ := Option.isSome_iff_exists.mp hid
  have hkeep : lookup (·.id) id (db.memories ++ [row.memory memoryId]) = some memory :=
    lookup_append_of_some hmemory _
  exact Option.isSome_iff_exists.mpr ⟨memory, hkeep⟩

theorem PromotedNow.found (h : PromotedNow db db' row memoryId linkId now) :
    db'.proposal? row.proposal.id = some { row.proposal with memoryId := some memoryId } := by
  rw [h.store]
  let new := { row.proposal with memoryId := some memoryId }
  have hmem : new.id ∈ db.proposals.map (·.id) :=
    List.mem_map.mpr ⟨row.proposal, (lookup_mem h.current).1, rfl⟩
  exact lookup_replace_self hmem

theorem PromotedNow.rows (h : PromotedNow db db' row memoryId linkId now)
    (hrows : ProposalRows db) : ProposalRows db' := by
  have hwrites : Rewrites db db' _ := rewrites_put hrows h.current h.follows
    (by rw [h.store]; rfl) (by rw [h.store]; rfl)
  have hkept := hwrites.kept hrows
  have hgrows : Grows db db' := by
    rw [h.store]
    exact .of_eq rfl rfl rfl
  have hcases : ∀ p ∈ db'.proposals,
      p = { row.proposal with memoryId := some memoryId } ∨ p ∈ db.proposals := by
    intro p hp
    rw [h.store] at hp
    rcases mem_replace.mp hp with ⟨rfl, -⟩ | ⟨hp, -⟩
    · exact .inl rfl
    · exact .inr hp
  have hnew : ∀ p ∈ db.proposals, p.memoryId ≠ some memoryId := by
    intro p hp hm
    have hmemory := (hrows.promoted p hp memoryId hm).memory
    rw [h.fresh] at hmemory
    cases hmemory
  have hmem : row.proposal ∈ db.proposals := (lookup_mem h.current).1
  refine ⟨hwrites.keyed hrows, hwrites.runs, fun p hp => ?_, fun p hp m hm => ?_,
    fun p hp p' hp' m hm hm' => ?_⟩
  · rcases hcases p hp with rfl | hold
    · obtain ⟨run, hrun, hdone⟩ := hrows.completed _ hmem
      exact ⟨run, hkept.run _ run hrun hdone, hdone⟩
    · obtain ⟨run, hrun, hdone⟩ := hrows.completed p hold
      exact ⟨run, hkept.run _ run hrun hdone, hdone⟩
  · rcases hcases p hp with rfl | hold
    · obtain rfl := Option.some.inj hm
      refine ⟨h.approved, ?_, row.source,
        sourceOf_later hgrows hkept (hrows.completed _ hmem) rfl h.source, ?_⟩
      · rw [h.store]
        refine lookup_isSome.mpr ?_
        exact List.mem_map.mpr ⟨row.memory memoryId, List.mem_append_right _
          (List.mem_singleton_self _), rfl⟩
      · rw [h.store, Store.isLinked, List.any_eq_true]
        exact ⟨row.link memoryId linkId now, List.mem_append_right _ (List.mem_singleton_self _),
          by simp [LockedProposal.link]⟩
    · exact (hrows.promoted p hold m hm).later hgrows hkept h.memories (.refl p)
        (hrows.completed p hold)
  · rcases hcases p hp with rfl | hold
    · rcases hcases p' hp' with rfl | hold'
      · rfl
      · exact absurd (hm'.trans hm.symm) (hnew p' hold')
    · rcases hcases p' hp' with rfl | hold'
      · exact absurd (hm.trans hm'.symm) (hnew p hold)
      · exact hrows.apart p hold p' hold' m hm hm'

end

/-! ## Moves of clients -/

/-- The request is none that others have to mind. -/
structure Client.Idle (c : Client) : Prop where
  runId : c.runId? = none
  holding : c.holding? = none
  decided : c.decided? = none
  promoted : c.promoted? = none

theorem Client.Idle.fits {c : Client} (h : c.Idle) : ClientFits db locks i c := by
  refine ⟨fun r hr => ?_, fun q row hq => ?_, fun q row hq => ?_, fun p hp => ?_, fun a ha => ?_⟩
  · rw [h.runId] at hr
    cases hr
  · rw [h.holding] at hq
    cases hq
  · rw [h.holding] at hq
    cases hq
  · rw [h.decided] at hp
    cases hp
  · rw [h.promoted] at ha
    cases ha

theorem Client.Idle.not_clashes {c c' : Client} (h : c.Idle) : ¬ c.Clashes c' := by
  rintro (⟨hr, -⟩ | ⟨hp, -, -⟩ | ⟨ha, -, -, -, -⟩)
  · rw [h.runId] at hr
    cases hr
  · rw [h.decided] at hp
    cases hp
  · rw [h.promoted] at ha
    cases ha

/-- What another relies on is spared. -/
theorem ClientFits.later {c : Client} (h : ClientFits db locks j c) (hrows : ProposalRows db)
    {mine : Option Uuid} (hspares : Spares db locks i mine db') (hgrows : Grows db db')
    (hne : j ≠ i) (hmine : ∀ r, c.runId? = some r → mine ≠ some r)
    (hlocks : ∀ k, locks k = some j → locks' k = some j) : ClientFits db' locks' j c := by
  refine ⟨fun r hr => ?_, fun q row hq => hlocks _ (h.lock q row hq), fun q row hq => ?_,
    fun p hp => ?_, fun a ha => ?_⟩
  · obtain ⟨run, hrun, hpending⟩ := h.run r hr
    exact ⟨run, hspares.pending r run hrun hpending (hmine r hr), hpending⟩
  · obtain ⟨hfound, hdone, hsource⟩ := h.row q row hq
    have hlocked : locks.grants i (.proposal q.proposalId) = false := by
      rw [Bool.eq_false_iff]
      exact fun hgrants => hne (Locks.holder_of_grants hgrants (h.lock q row hq))
    refine ⟨hspares.locked _ _ hfound hlocked, hdone, ?_⟩
    exact sourceOf_later hgrows hspares.kept (hrows.completed _ (lookup_mem hfound).1) rfl hsource
  · obtain ⟨p', hp', hstatus, hne⟩ := h.decided p hp
    obtain ⟨p'', hp'', hfollows⟩ := hspares.kept.follows _ p' hp'
    exact ⟨p'', hp'', (hfollows.decided (hstatus ▸ hne)).1.trans hstatus, hne⟩
  · obtain ⟨p, hp, hm⟩ := h.promoted a ha
    obtain ⟨p', hp', hfollows⟩ := hspares.kept.follows _ p hp
    exact ⟨p', hp', hfollows.memoryId _ hm⟩

/-- A request moves and spares the others. -/
theorem Library.ProposalsSound.moved (hs : s.ProposalsSound) {client client' : Client}
    (hclient : s.clients[i]? = some client) (hrows : ProposalRows db')
    (hspares : Spares s.db s.locks i client.runId? db') (hgrows : Grows s.db db')
    (hlocks : ∀ j k, j ≠ i → s.locks k = some j → locks' k = some j)
    (hfits : ClientFits db' locks' i client')
    (hclash : ∀ j c, j ≠ i → s.clients[j]? = some c → ¬ client'.Clashes c) :
    (s.place i ⟨client', db', locks'⟩).ProposalsSound ∧ Kept s.db db' := by
  refine ⟨⟨hrows, fun j c hc => ?_, fun j k c c' hc hc' h => ?_⟩, hspares.kept⟩
  · rcases clients_place hc with ⟨rfl, rfl⟩ | ⟨hne, hold⟩
    · exact hfits
    · refine (hs.fits j c hold).later hs.rows hspares hgrows hne (fun r hr hmine => ?_)
        (fun k => hlocks j k hne)
      exact hne (hs.apart j i c client hold hclient (.run hr hmine))
  · rcases clients_place hc with ⟨rfl, rfl⟩ | ⟨hne, hold⟩
    · rcases clients_place hc' with ⟨rfl, -⟩ | ⟨hne', hold'⟩
      · rfl
      · exact absurd h (hclash k c' hne' hold')
    · rcases clients_place hc' with ⟨rfl, rfl⟩ | ⟨hne', hold'⟩
      · exact absurd h.symm (hclash j c hne hold)
      · exact hs.apart j k c c' hold hold' h

/-! ## Every move -/

/-- A capture writes neither runs nor proposals, nor memories. -/
theorem CaptureStep.frame {q : CaptureRequest} {phase phase' : CapturePhase}
    (h : CaptureStep sha256 db q phase phase' db') :
    ∃ sources captures documents chunks, db' = { db with
      sources := sources
      captures := captures
      documents := documents
      chunks := chunks } := by
  cases h with
  | stopped | invalid | contended | lost | conflict | replayed | refused =>
      exact ⟨db.sources, db.captures, db.documents, db.chunks, rfl⟩
  | created => exact ⟨db.sources, _, db.documents, db.chunks, rfl⟩
  | changed hchange =>
      cases hchange with
      | changed h =>
          rw [h.store]
          exact ⟨db.sources, _, db.documents, db.chunks, rfl⟩
      | converted h =>
          obtain ⟨document, chunks, hstore⟩ := h.store
          rw [hstore]
          exact ⟨_, _, _, _, rfl⟩
      | resolved => exact ⟨db.sources, db.captures, db.documents, db.chunks, rfl⟩

theorem memoriesGrow_put (db : Store) (memory : Memory) : MemoriesGrow db (db.putMemory memory) := by
  refine ⟨fun id h => ?_, List.Subset.refl _⟩
  refine lookup_isSome.mpr ?_
  rw [Store.putMemory, replace_keys]
  exact lookup_isSome.mp h

theorem MemoriesGrow.trans {db'' : Store} (h : MemoriesGrow db db') (h' : MemoriesGrow db' db'') :
    MemoriesGrow db db'' :=
  ⟨fun id hid => h'.memory id (h.memory id hid), List.Subset.trans h.links h'.links⟩

theorem Edits.memories (h : Edits db db') : MemoriesGrow db db' := by
  rcases h with rfl | ⟨old, new, -, -, rfl⟩
  · exact .of_eq rfl rfl
  · exact memoriesGrow_put db new

theorem MemoryWrite.memories {q : MemoryRequest} {answer : MemoryAnswer}
    (h : MemoryWrite db q answer db') : MemoriesGrow db db' := by
  cases h with
  | @created memory _ =>
      refine ⟨fun id hid => ?_, List.Subset.refl _⟩
      obtain ⟨old, hold⟩ := Option.isSome_iff_exists.mp hid
      exact Option.isSome_iff_exists.mpr ⟨old, lookup_append_of_some hold _⟩
  | linked => exact ⟨fun _ h => h, List.subset_append_left _ _⟩
  | expired hedits | refined hedits => exact hedits.memories

/-- A request that none have to mind has written neither runs nor proposals. -/
theorem Library.ProposalsSound.aside (hs : s.ProposalsSound) {client client' : Client}
    (hclient : s.clients[i]? = some client) (hidle : client'.Idle)
    (hproposals : db'.proposals = s.db.proposals) (hruns : db'.runs = s.db.runs)
    (hgrows : Grows s.db db') (hmemories : MemoriesGrow s.db db')
    (hlocks : ∀ j k, j ≠ i → s.locks k = some j → locks' k = some j) :
    (s.place i ⟨client', db', locks'⟩).ProposalsSound ∧ Kept s.db db' :=
  hs.moved hclient (rows_aside hs.rows hproposals hruns hgrows hmemories)
    (spares_aside hs.rows hproposals hruns) hgrows hlocks hidle.fits
    fun _ _ _ _ => hidle.not_clashes

/-- An ingestion writes the proposals that it takes chunks from, which nobody has locked. -/
theorem ingestion_sound (hs : s.ProposalsSound) {q : IngestRequest} {found : Option LoadedDocument}
    (hclient : s.clients[i]? = some (.ingestion q (.loaded found))) {ids : Nat → Uuid}
    {documentId : Uuid} {now : Instant} {outcome : IngestionOutcome}
    (hgranted : ∀ id ∈ s.db.touched q found, s.locks.grants i (.proposal id) = true)
    (hwrite : writeDocument s.db q found ids documentId now = .ok (outcome, db'))
    (hgrows : Grows s.db db') :
    (s.place i ⟨.ingestion q (.answered (.ok outcome)), db', s.locks⟩).ProposalsSound ∧
      Kept s.db db' := by
  obtain ⟨gone, hproposals, htouched⟩ := writeDocument_proposals hwrite
  obtain ⟨documents, chunks, gone', hframe⟩ := (writeDocument_spec hwrite).frame
  have hruns : db'.runs = s.db.runs := by rw [hframe]
  have hmemories : MemoriesGrow s.db db' := .of_eq (by rw [hframe]) (by rw [hframe])
  have hrun : ∀ r, db'.run? r = s.db.run? r := fun r => by rw [Store.run?, hruns]; rfl
  have hwrites : Rewrites s.db db' (·.without gone) := by
    refine ⟨hproposals, fun p _ => follows_without p gone, by rw [hruns]; exact hs.rows.runs,
      fun r run hfound _ => (hrun r).trans hfound⟩
  have hspares : Spares s.db s.locks i (Client.ingestion q (.loaded found)).runId? db' := by
    refine hwrites.spares hs.rows (fun r run hfound _ _ => (hrun r).trans hfound)
      fun p hp hlocked => ?_
    by_contra hne
    rw [hgranted p.id (htouched (mem_citing hp hne))] at hlocked
    cases hlocked
  have hidle : (Client.ingestion q (.answered (.ok outcome))).Idle := ⟨rfl, rfl, rfl, rfl⟩
  exact hs.moved hclient (hwrites.rows hs.rows hgrows hmemories fun p _ => without_memoryId p gone)
    hspares hgrows (fun _ _ _ h => h) hidle.fits fun _ _ _ _ => hidle.not_clashes

/-! ## Extractions -/

section

variable {q : GenerateRequest} {phase phase' : ExtractionPhase}

/-- All that others have to mind of an extraction is the run that it is to end. -/
theorem extraction_moved (hs : s.ProposalsSound)
    (hclient : s.clients[i]? = some (.extraction q phase)) (hrows : ProposalRows db')
    (hspares : Spares s.db s.locks i phase.runId? db') (hgrows : Grows s.db db')
    (hown : ∀ r, phase'.runId? = some r → ∃ run, db'.run? r = some run ∧ run.runStatus = .pending)
    (hclash : ∀ j c r, j ≠ i → s.clients[j]? = some c → phase'.runId? = some r →
      c.runId? ≠ some r) :
    (s.place i ⟨.extraction q phase', db', s.locks⟩).ProposalsSound ∧ Kept s.db db' := by
  refine hs.moved hclient hrows hspares hgrows (fun _ _ _ h => h) ⟨hown, ?_, ?_, ?_, ?_⟩
    fun j c hne hc h => ?_
  · rintro q' row ⟨⟩
  · rintro q' row ⟨⟩
  · rintro p ⟨⟩
  · rintro a ⟨⟩
  · cases h with
    | run hr hr' => exact hclash j c _ hne hc hr hr'
    | decided hp => cases hp
    | created ha => cases ha

theorem extraction_aside (hs : s.ProposalsSound)
    (hclient : s.clients[i]? = some (.extraction q phase)) (hnone : phase'.runId? = none) :
    (s.place i ⟨.extraction q phase', s.db, s.locks⟩).ProposalsSound ∧ Kept s.db s.db := by
  refine extraction_moved hs hclient hs.rows (spares_aside hs.rows rfl rfl) (.refl _)
    (fun r hr => ?_) fun j c r _ _ hr => ?_
  · rw [hnone] at hr
    cases hr
  · rw [hnone] at hr
    cases hr

/-- The extraction goes on with its run. -/
theorem extraction_kept (hs : s.ProposalsSound)
    (hclient : s.clients[i]? = some (.extraction q phase)) (hsame : phase'.runId? = phase.runId?) :
    (s.place i ⟨.extraction q phase', s.db, s.locks⟩).ProposalsSound ∧ Kept s.db s.db := by
  refine extraction_moved hs hclient hs.rows (spares_aside hs.rows rfl rfl) (.refl _)
    (fun r hr => ?_) fun j c r hne hc hr hr' => ?_
  · exact (hs.fits i _ hclient).run r (hsame.symm.trans hr)
  · exact hne (hs.apart j i c _ hc hclient (.run hr' (hsame.symm.trans hr)))

/-- Nobody is to end a failed run. -/
theorem extraction_retried (hs : s.ProposalsSound) {x : Selection}
    (hclient : s.clients[i]? = some (.extraction q (.selected x))) {run : MemoryExtractionRun}
    (hmem : run ∈ s.db.runs) (hfailed : run.runStatus = .failed) (now : Instant) :
    (s.place i ⟨.extraction q (.calling x run.id .retried), s.db.putRun (run.retried now),
      s.locks⟩).ProposalsSound ∧ Kept s.db (s.db.putRun (run.retried now)) := by
  have hfound : s.db.run? run.id = some run := hs.rows.runs.lookup hmem
  have hput : (s.db.putRun (run.retried now)).run? run.id = some (run.retried now) :=
    run_put_self hfound rfl
  have hwrites : Rewrites s.db (s.db.putRun (run.retried now)) id :=
    rewrites_putRun hs.rows hfound rfl (by rw [hfailed]; decide)
  have hgrows : Grows s.db (s.db.putRun (run.retried now)) := .of_eq rfl rfl rfl
  have hnot : ∀ other, s.db.run? run.id = some other → other.runStatus ≠ .pending := by
    intro other hother
    rw [hfound] at hother
    rw [← Option.some.inj hother, hfailed]
    decide
  refine extraction_moved hs hclient (hwrites.rows hs.rows hgrows (.of_eq rfl rfl) fun _ _ => rfl)
    (hwrites.spares hs.rows (fun r other hother hpending _ => ?_) fun _ _ _ => rfl) hgrows
    (fun r hr => ?_) fun j c r _ hc hr hr' => ?_
  · refine (run_put_ne fun h => ?_).trans hother
    obtain rfl : r = run.id := h
    exact hnot other hother hpending
  · obtain rfl := Option.some.inj hr
    exact ⟨_, hput, rfl⟩
  · obtain rfl := Option.some.inj hr
    obtain ⟨other, hother, hpending⟩ := (hs.fits j c hc).run _ hr'
    exact hnot other hother hpending

/-- Nobody is to end a run that is new. -/
theorem extraction_inserted (hs : s.ProposalsSound)
    (hclient : s.clients[i]? = some (.extraction q phase))
    {run : MemoryExtractionRun} (hid : s.db.run? run.id = none) (hpending : run.runStatus = .pending)
    (hown : phase'.runId? = some run.id) :
    (s.place i ⟨.extraction q phase', { s.db with runs := s.db.runs ++ [run] },
      s.locks⟩).ProposalsSound ∧ Kept s.db { s.db with runs := s.db.runs ++ [run] } := by
  have hfresh : run.id ∉ s.db.runs.map (·.id) := lookup_eq_none.mp hid
  have hkeeps : ∀ r other, s.db.run? r = some other →
      ({ s.db with runs := s.db.runs ++ [run] } : Store).run? r = some other :=
    fun r other hother => lookup_append_of_some hother _
  have hself : ({ s.db with runs := s.db.runs ++ [run] } : Store).run? run.id = some run :=
    lookup_append_self hfresh
  have hwrites : Rewrites s.db { s.db with runs := s.db.runs ++ [run] } id :=
    ⟨(List.map_id _).symm, fun p _ => .refl p, hs.rows.runs.append hfresh,
      fun r other hother _ => hkeeps r other hother⟩
  have hgrows : Grows s.db { s.db with runs := s.db.runs ++ [run] } := .of_eq rfl rfl rfl
  refine extraction_moved hs hclient (hwrites.rows hs.rows hgrows (.of_eq rfl rfl) fun _ _ => rfl)
    (hwrites.spares hs.rows (fun r other hother _ _ => hkeeps r other hother) fun _ _ _ => rfl)
    hgrows (fun r hr => ?_) fun j c r _ hc hr hr' => ?_
  · obtain rfl := Option.some.inj (hown.symm.trans hr)
    exact ⟨run, hself, hpending⟩
  · obtain rfl := Option.some.inj (hown.symm.trans hr)
    obtain ⟨other, hother, -⟩ := (hs.fits j c hc).run _ hr'
    rw [hid] at hother
    cases hother

/-- The run of the extraction has failed. -/
theorem extraction_failed (hs : s.ProposalsSound) {run : MemoryExtractionRun}
    (hclient : s.clients[i]? = some (.extraction q phase)) (hmine : phase.runId? = some run.id)
    (hrun : s.db.run? run.id = some run) (hpending : run.runStatus = .pending) {code : String}
    {now : Instant} (hdone : phase'.runId? = none) :
    (s.place i ⟨.extraction q phase', s.db.putRun (run.failed code now),
      s.locks⟩).ProposalsSound ∧ Kept s.db (s.db.putRun (run.failed code now)) := by
  have hwrites : Rewrites s.db (s.db.putRun (run.failed code now)) id :=
    rewrites_putRun hs.rows hrun rfl (by rw [hpending]; decide)
  have hgrows : Grows s.db (s.db.putRun (run.failed code now)) := .of_eq rfl rfl rfl
  refine extraction_moved hs hclient (hwrites.rows hs.rows hgrows (.of_eq rfl rfl) fun _ _ => rfl)
    (hwrites.spares hs.rows (fun r other hother _ hne => ?_) fun _ _ _ => rfl) hgrows
    (fun r hr => ?_) fun j c r _ _ hr => ?_
  · refine (run_put_ne fun h => ?_).trans hother
    obtain rfl : r = run.id := h
    exact hne hmine
  · rw [hdone] at hr
    cases hr
  · rw [hdone] at hr
    cases hr

/-- A step of an extraction. -/
theorem extraction_sound (hs : s.ProposalsSound)
    (hclient : s.clients[i]? = some (.extraction q phase))
    (h : ExtractionStep sha256 s.db q phase phase' db') :
    (s.place i ⟨.extraction q phase', db', s.locks⟩).ProposalsSound ∧ Kept s.db db' := by
  have hown := (hs.fits i _ hclient).run
  cases h with
  | refused | selected | absent | unchanged | unstored => exact extraction_aside hs hclient rfl
  | judged | misjudged => exact extraction_kept hs hclient rfl
  | retried hrun hfailed =>
      exact extraction_retried hs hclient (List.mem_of_find?_eq_some hrun) hfailed _
  | inserted _ hid => exact extraction_inserted hs hclient hid rfl rfl
  | @failed runId code e now =>
      obtain ⟨run, hrun, hpending⟩ := hown runId rfl
      obtain rfl : run.id = runId := (lookup_mem hrun).2
      rw [failRun, hrun]
      exact extraction_failed hs hclient rfl hrun hpending rfl
  | @stored x runId status found run ids now stored hrun hstored =>
      obtain ⟨run', hrun', hpending⟩ := hown runId rfl
      obtain rfl := Option.some.inj (hrun.symm.trans hrun')
      obtain ⟨hrows, hspares⟩ := stored_spec hs.rows s.locks i hrun hpending hstored
      have hgrows : Grows s.db (stored.putRun (run.completed now)) := by
        rw [insertProposals_eq hstored]
        exact .of_eq rfl rfl rfl
      refine extraction_moved hs hclient hrows hspares hgrows (fun r hr => ?_)
        fun j c r _ _ hr => ?_
      · cases hr
      · cases hr

end

/-! ## Reviews that have locked their proposal -/

section

variable {q : ReviewRequest} {row : LockedProposal}

theorem lockProposal_spec {id : Uuid} (h : db.lockProposal id = some row) :
    db.proposal? id = some row.proposal ∧ db.sourceOf row.proposal = some row.source ∧
      ∃ run, db.run? row.proposal.runId = some run ∧ row.runStatus = run.runStatus := by
  obtain ⟨proposal, hproposal, h⟩ := bind_some h
  obtain ⟨run, hrun, h⟩ := bind_some h
  obtain ⟨document, hdocument, h⟩ := bind_some h
  obtain ⟨source, hsource, h⟩ := bind_some h
  split at h
  · obtain rfl := Option.some.inj h
    refine ⟨hproposal, ?_, run, hrun, rfl⟩
    simp only [Store.sourceOf, hrun, hdocument, hsource, Option.bind_eq_bind, Option.bind_some]
  · cases h

/-- What others have to mind of an answered review is what it has decided or promoted. -/
theorem review_moved (hs : s.ProposalsSound)
    (hclient : s.clients[i]? = some (.review q (.holding row))) {answer : ReviewAnswer}
    (hrows : ProposalRows db') (hspares : Spares s.db s.locks i none db') (hgrows : Grows s.db db')
    (hdecided : ∀ p, answer = .reviewed ⟨p, .updated⟩ → ∃ p', db'.proposal? p.id = some p' ∧
      p'.reviewStatus = p.reviewStatus ∧ p.reviewStatus ≠ .pending)
    (hpromoted : ∀ a, answer = .promoted a → ∃ p, db'.proposal? a.proposalId = some p ∧
      p.memoryId = some a.memory.id)
    (hfirst : ∀ p, answer = .reviewed ⟨p, .updated⟩ → ∀ j c p', j ≠ i → s.clients[j]? = some c →
      c.decided? = some p' → p.id ≠ p'.id)
    (honce : ∀ a, answer = .promoted a → a.promotionStatus = .created → ∀ j c b, j ≠ i →
      s.clients[j]? = some c → c.promoted? = some b → a.proposalId ≠ b.proposalId) :
    (s.place i ⟨.review q (.answered (.ok answer)), db', s.locks.release i⟩).ProposalsSound ∧
      Kept s.db db' := by
  have hdec : ∀ p, (Client.review q (.answered (.ok answer))).decided? = some p →
      answer = .reviewed ⟨p, .updated⟩ := by
    intro p hp
    rcases answer with ⟨p', _ | _⟩ | a
    · rw [← Option.some.inj hp]
    · cases hp
    · cases hp
  have hprom : ∀ a, (Client.review q (.answered (.ok answer))).promoted? = some a →
      answer = .promoted a := by
    intro a ha
    cases answer with
    | reviewed r => cases ha
    | promoted b => rw [← Option.some.inj ha]
  refine hs.moved hclient hrows hspares hgrows (fun _ _ hne => Locks.release_keeps hne)
    ⟨?_, ?_, ?_, fun p hp => hdecided p (hdec p hp), fun a ha => hpromoted a (hprom a ha)⟩
    fun j c hne hc h => ?_
  · rintro r ⟨⟩
  · rintro q' row' ⟨⟩
  · rintro q' row' ⟨⟩
  · cases h with
    | run hr => cases hr
    | decided hp hp' hid => exact hfirst _ (hdec _ hp) j c _ hne hc hp' hid
    | created ha hb hstatus _ hid => exact honce _ (hprom _ ha) hstatus j c _ hne hc hb hid

/-- A proposal that is locked is written as it was decided, and it was pending. -/
theorem review_decided (hs : s.ProposalsSound)
    (hclient : s.clients[i]? = some (.review q (.holding row)))
    (hrow : s.db.proposal? row.proposal.id = some row.proposal)
    (hlock : s.locks (.proposal row.proposal.id) = some i)
    (hpending : row.proposal.reviewStatus = .pending) (decision : Decision)
    (note : Option String) (now : Instant) :
    (s.place i ⟨.review q (.answered (.ok
        (.reviewed ⟨row.proposal.decided decision note now, .updated⟩))),
      s.db.putProposal (row.proposal.decided decision note now), s.locks.release i⟩).ProposalsSound ∧
      Kept s.db (s.db.putProposal (row.proposal.decided decision note now)) := by
  have hfollows : row.proposal.Follows (row.proposal.decided decision note now) :=
    follows_decided hpending
  have hwrites := rewrites_put hs.rows hrow hfollows
    (rfl : (s.db.putProposal (row.proposal.decided decision note now)).runs = s.db.runs) rfl
  have hgrows : Grows s.db (s.db.putProposal (row.proposal.decided decision note now)) :=
    .of_eq rfl rfl rfl
  have hfound : (s.db.putProposal (row.proposal.decided decision note now)).proposal?
      row.proposal.id = some (row.proposal.decided decision note now) :=
    (hwrites.found hs.rows hrow).trans (congrArg some (if_pos rfl))
  have hspares : Spares s.db s.locks i none
      (s.db.putProposal (row.proposal.decided decision note now)) := by
    refine spares_put hs.rows hrow hfollows ?_ ?_ hlock
    · rfl
    · rfl
  refine review_moved hs hclient (hwrites.rows hs.rows hgrows (.of_eq rfl rfl) fun p hp => ?_)
    hspares hgrows (fun p hp => ?_) (fun a ha => ?_)
    (fun p hp j c p' _ hc hp' hid => ?_) fun a ha => ?_
  · split
    · next hid =>
        rw [hs.rows.proposals.inj hp (lookup_mem hrow).1 hid]
        rfl
    · rfl
  · obtain rfl : row.proposal.decided decision note now = p := by
      cases hp
      rfl
    exact ⟨_, hfound, rfl, decision.status_ne⟩
  · cases ha
  · obtain ⟨other, hother, hstatus, hdecided⟩ := (hs.fits j c hc).decided _ hp'
    have hsame : row.proposal.id = p'.id := by
      cases hp
      exact hid
    rw [← hsame, hrow] at hother
    rw [← hstatus, ← Option.some.inj hother] at hdecided
    exact hdecided hpending
  · cases ha

/-- A memory is inserted only for a proposal that has none. -/
theorem review_promoted (hs : s.ProposalsSound)
    (hclient : s.clients[i]? = some (.review q (.holding row))) {memoryId linkId : Uuid}
    {now : Instant} (h : PromotedNow s.db db' row memoryId linkId now)
    (hlock : s.locks (.proposal row.proposal.id) = some i) :
    (s.place i ⟨.review q (.answered (.ok
        (.promoted ⟨row.proposal.id, .created, row.memory memoryId⟩))), db',
      s.locks.release i⟩).ProposalsSound ∧ Kept s.db db' := by
  have hgrows : Grows s.db db' := by
    rw [h.store]
    exact .of_eq rfl rfl rfl
  refine review_moved hs hclient (h.rows hs.rows)
    (spares_put hs.rows h.current h.follows (by rw [h.store]; rfl) (by rw [h.store]; rfl) hlock)
    hgrows (fun p hp => ?_) (fun a ha => ?_) (fun p hp => ?_) fun a ha _ j c b _ hc hb hid => ?_
  · cases hp
  · cases ha
    exact ⟨_, h.found, rfl⟩
  · cases hp
  · obtain ⟨other, hother, hm⟩ := (hs.fits j c hc).promoted _ hb
    have hsame : row.proposal.id = b.proposalId := by
      cases ha
      exact hid
    rw [← hsame, h.current] at hother
    rw [← Option.some.inj hother, h.bare] at hm
    cases hm

/-- A promotion that finds the memory answers it. -/
theorem review_found (hs : s.ProposalsSound)
    (hclient : s.clients[i]? = some (.review q (.holding row)))
    (hrow : s.db.proposal? row.proposal.id = some row.proposal) {memory : Memory}
    (hfound : row.proposal.memoryId.bind s.db.memory? = some memory) :
    (s.place i ⟨.review q (.answered (.ok (.promoted ⟨row.proposal.id, .unchanged, memory⟩))), s.db,
      s.locks.release i⟩).ProposalsSound ∧ Kept s.db s.db := by
  refine review_moved hs hclient hs.rows (spares_aside hs.rows rfl rfl) (.refl _) (fun p hp => ?_)
    (fun a ha => ?_) (fun p hp => ?_) fun a ha hcreated => ?_
  · cases hp
  · cases ha
    obtain ⟨m, hm, hmemory⟩ := Option.bind_eq_some_iff.mp hfound
    have hid : memory.id = m := (lookup_mem hmemory).2
    exact ⟨_, hrow, hid ▸ hm⟩
  · cases hp
  · cases ha
    cases hcreated

theorem acceptsMemory_fresh {memory : Memory} (h : db.acceptsMemory memory = true) :
    db.memory? memory.id = none := by
  simp only [Store.acceptsMemory, Bool.and_eq_true, Option.isNone_iff_eq_none] at h
  exact h.1.1.1.1.1

/-- What a review does with the row it has locked. -/
theorem review_sound (hs : s.ProposalsSound)
    (hclient : s.clients[i]? = some (.review q (.holding row))) {answer : ReviewAnswer}
    (h : ReviewWrite s.db row q answer db') :
    (s.place i ⟨.review q (.answered (.ok answer)), db', s.locks.release i⟩).ProposalsSound ∧
      Kept s.db db' := by
  have hlock := (hs.fits i _ hclient).lock q row rfl
  obtain ⟨hrow, -, hsource⟩ := (hs.fits i _ hclient).row q row rfl
  rw [← (lookup_mem hrow).2] at hlock hrow
  cases h with
  | decided hpending hcurrent =>
      obtain rfl := Option.some.inj (hrow.symm.trans hcurrent)
      exact review_decided hs hclient hrow hlock hpending _ _ _
  | stands =>
      exact hs.aside hclient ⟨rfl, rfl, rfl, rfl⟩ rfl rfl (.refl _) (.of_eq rfl rfl)
        fun _ _ hne => Locks.release_keeps hne
  | promoted hnone happroved haccepts hinserted hcurrent =>
      obtain rfl := Option.some.inj (hrow.symm.trans hcurrent)
      refine review_promoted hs hclient ⟨hrow, happroved, hsource, acceptsMemory_fresh haccepts, ?_,
        by rw [hinserted]⟩ hlock
      cases hm : row.proposal.memoryId with
      | none => rfl
      | some m =>
          have hmemory := (hs.rows.promoted _ (lookup_mem hrow).1 m hm).memory
          rw [hm, Option.bind_some] at hnone
          rw [hnone] at hmemory
          cases hmemory
  | found hfound => exact review_found hs hclient hrow hfound

/-- A review locks its proposal as it is, of a run that is completed. -/
theorem review_held (hs : s.ProposalsSound) (hclient : s.clients[i]? = some (.review q .arrived))
    (hrow : s.db.lockProposal q.proposalId = some row)
    (hheld : s.locks.acquire i [.proposal q.proposalId] = some locks') :
    (s.place i ⟨.review q (.holding row), s.db, locks'⟩).ProposalsSound ∧ Kept s.db s.db := by
  obtain ⟨hproposal, hsource, run, hrun, hstatus⟩ := lockProposal_spec hrow
  obtain ⟨run', hrun', hdone⟩ := hs.rows.completed _ (lookup_mem hproposal).1
  obtain rfl := Option.some.inj (hrun.symm.trans hrun')
  refine hs.moved hclient hs.rows (spares_aside hs.rows rfl rfl) (.refl _)
    (fun _ _ _ => Locks.acquire_keeps hheld) ⟨?_, fun q' row' h => ?_, fun q' row' h => ?_, ?_, ?_⟩
    fun j c hne hc hclash => ?_
  · rintro r ⟨⟩
  · obtain ⟨rfl, rfl⟩ := Prod.mk.inj (Option.some.inj h)
    exact Locks.acquire_holds hheld (List.mem_singleton_self _)
  · obtain ⟨rfl, rfl⟩ := Prod.mk.inj (Option.some.inj h)
    exact ⟨hproposal, hstatus.trans hdone, hsource⟩
  · rintro p ⟨⟩
  · rintro a ⟨⟩
  · cases hclash with
    | run hr => cases hr
    | decided hp => cases hp
    | created ha => cases ha

end

/-! ## Every step -/

/-- A step of one request. -/
theorem clientMove_sound (hs : s.ProposalsSound) {client : Client} {m : Moved}
    (hclient : s.clients[i]? = some client) (h : ClientMove sha256 s.db s.locks i client m) :
    (s.place i m).ProposalsSound ∧ Kept s.db m.db := by
  have hgrows : Grows s.db m.db := (clientMove_inbox hclient h).later.grows
  cases h with
  | capture hstep =>
      obtain ⟨sources, captures, documents, chunks, rfl⟩ := hstep.frame
      exact hs.aside hclient ⟨rfl, rfl, rfl, rfl⟩ rfl rfl hgrows (.of_eq rfl rfl) fun _ _ _ h => h
  | sourceRefused | source | memoryRefused | supersessionRefused | supersessionTraced
  | reviewRefused | ingestion =>
      exact hs.aside hclient ⟨rfl, rfl, rfl, rfl⟩ rfl rfl hgrows (.of_eq rfl rfl) fun _ _ _ h => h
  | reviewFailed | supersessionEnded =>
      exact hs.aside hclient ⟨rfl, rfl, rfl, rfl⟩ rfl rfl hgrows (.of_eq rfl rfl)
        fun _ _ hne => Locks.release_keeps hne
  | supersessionHeld _ _ _ hheld | supersessionCompared hheld =>
      exact hs.aside hclient ⟨rfl, rfl, rfl, rfl⟩ rfl rfl hgrows (.of_eq rfl rfl)
        fun _ _ _ => Locks.acquire_keeps hheld
  | supersession =>
      exact hs.aside hclient ⟨rfl, rfl, rfl, rfl⟩ rfl rfl hgrows
        ((memoriesGrow_put _ _).trans (memoriesGrow_put _ _)) fun _ _ hne => Locks.release_keeps hne
  | memory _ hwrite =>
      obtain ⟨memories, links, hframe⟩ := hwrite.frame
      refine hs.aside hclient ⟨rfl, rfl, rfl, rfl⟩ ?_ ?_ hgrows hwrite.memories fun _ _ _ h => h
      · rw [hframe]
      · rw [hframe]
  | ingested hgranted hwrite => exact ingestion_sound hs hclient hgranted hwrite hgrows
  | extraction _ hstep => exact extraction_sound hs hclient hstep
  | reviewHeld hrow hheld => exact review_held hs hclient hrow hheld
  | review hwrite => exact review_sound hs hclient hwrite

theorem stopped_idle {client stopped : Client} (h : client.stopped = some stopped) :
    stopped.Idle := by
  have hidle : ∀ {c : Client}, c.Idle → some c = some stopped → stopped.Idle := by
    intro c hc heq
    rw [← Option.some.inj heq]
    exact hc
  cases client with
  | capture q phase =>
      cases phase with
      | answered => cases h
      | arrived | contended => exact hidle ⟨rfl, rfl, rfl, rfl⟩ h
  | source q answer =>
      cases answer with
      | some => cases h
      | none => exact hidle ⟨rfl, rfl, rfl, rfl⟩ h
  | ingestion q phase =>
      cases phase with
      | answered => cases h
      | arrived | loaded => exact hidle ⟨rfl, rfl, rfl, rfl⟩ h
  | extraction q phase =>
      cases phase with
      | answered => cases h
      | arrived | selected | absent | calling | failing | storing =>
          exact hidle ⟨rfl, rfl, rfl, rfl⟩ h
  | review q phase =>
      cases phase with
      | answered => cases h
      | arrived | holding => exact hidle ⟨rfl, rfl, rfl, rfl⟩ h
  | memory q answer =>
      cases answer with
      | some => cases h
      | none => exact hidle ⟨rfl, rfl, rfl, rfl⟩ h
  | supersession q phase =>
      cases phase with
      | answered => cases h
      | arrived | holding | compared | traced => exact hidle ⟨rfl, rfl, rfl, rfl⟩ h

theorem arrived_idle (q : Request) : q.client.Idle := by
  cases q <;> exact ⟨rfl, rfl, rfl, rfl⟩

theorem project_sound (hs : s.ProposalsSound) (id : Uuid) :
    ({ s with db := { s.db with projects := s.db.projects ++ [id] } } : Library).ProposalsSound ∧
      Kept s.db { s.db with projects := s.db.projects ++ [id] } := by
  have hgrows : Grows s.db { s.db with projects := s.db.projects ++ [id] } :=
    ⟨⟨[], (List.append_nil _).symm⟩, ⟨[id], rfl⟩, .refl _⟩
  have hspares : ∀ i, Spares s.db s.locks i none { s.db with projects := s.db.projects ++ [id] } := by
    intro i
    refine spares_aside hs.rows ?_ ?_
    · rfl
    · rfl
  refine ⟨⟨rows_aside hs.rows rfl rfl hgrows (.of_eq rfl rfl), fun i c hc => ?_, hs.apart⟩,
    (hspares 0).kept⟩
  refine (hs.fits i c hc).later hs.rows (hspares (i + 1)) hgrows
    (Nat.ne_of_lt (Nat.lt_succ_self i)) (fun r _ h => ?_) fun _ h => h
  cases h

theorem arrived_sound (hs : s.ProposalsSound) (q : Request) :
    ({ s with clients := s.clients ++ [q.client] } : Library).ProposalsSound := by
  have hold : ∀ {i : Nat} {c}, (s.clients ++ [q.client])[i]? = some c →
      s.clients[i]? = some c ∨ c = q.client := by
    intro i c hc
    rw [List.getElem?_append] at hc
    split at hc
    · exact .inl hc
    · rw [List.getElem?_singleton] at hc
      split at hc
      · exact .inr (Option.some.inj hc).symm
      · cases hc
  have hidle := arrived_idle q
  refine ⟨hs.rows, fun i c hc => ?_, fun i j c c' hc hc' hclash => ?_⟩
  · rcases hold hc with hc | rfl
    · exact hs.fits i c hc
    · exact hidle.fits
  · rcases hold hc with hc | rfl
    · rcases hold hc' with hc' | rfl
      · exact hs.apart i j c c' hc hc' hclash
      · exact absurd hclash.symm hidle.not_clashes
    · exact absurd hclash hidle.not_clashes

theorem proposalsSound_step (hs : s.ProposalsSound) (h : (library sha256).next s l = some s') :
    s'.ProposalsSound ∧ Kept s.db s'.db := by
  cases next_step h with
  | project => exact project_sound hs _
  | arrived => exact ⟨arrived_sound hs _, .refl _⟩
  | moved hclient hadvance => exact clientMove_sound hs hclient (advance_move hadvance)
  | stopped hclient hstopped =>
      exact hs.aside hclient (stopped_idle hstopped) rfl rfl (.refl _) (.of_eq rfl rfl)
        fun _ _ hne => Locks.release_keeps hne

theorem proposalsSound_reachable (h : (library sha256).Reachable s) : s.ProposalsSound := by
  refine h.invariant ?_ fun s l s' _ _ hs hstep => (proposalsSound_step hs hstep).1
  rintro s rfl
  refine ⟨⟨.nil, .nil, ?_, ?_, ?_⟩, ?_, ?_⟩
  · rintro p ⟨⟩
  · rintro p ⟨⟩
  · rintro p ⟨⟩
  · rintro i c ⟨⟩
  · rintro i j c c' ⟨⟩

theorem kept_later (hs : s.ProposalsSound) (h : ((library sha256).startingAt s).Reachable s') :
    Kept s.db s'.db := by
  refine Machine.later (R := fun a b : Library => Kept a.db b.db)
    (I := fun a : Library => a.ProposalsSound) (fun a => .refl a.db)
    (fun hab hbc => hab.trans hbc) ?_ hs h
  intro a l b ha hab
  obtain ⟨hb, hkept⟩ := proposalsSound_step ha hab
  exact ⟨hkept, hb⟩

/-! ## Exactly once -/

/-- The request has taken the proposal out of pending, and left it so. -/
def Library.Decided (s : Library) (i : Nat) (p : MemoryProposal) : Prop :=
  ∃ q, s.clients[i]? = some (.review q (.answered (.ok (.reviewed ⟨p, .updated⟩))))

/-- The request was given the memory of the proposal. -/
def Library.GivenMemory (s : Library) (i : Nat) (result : PromotionResult) : Prop :=
  ∃ q, s.clients[i]? = some (.review q (.answered (.ok (.promoted result))))

/-- A promotion of a proposal that has a memory writes nothing and answers the memory. -/
theorem promoted_again (hs : s.ProposalsSound) {id m : Uuid} {row : LockedProposal}
    {outcome : ProviderOutcome}
    (hclient : s.clients[i]? = some (.review (.promote id) (.holding row)))
    (hm : row.proposal.memoryId = some m)
    (h : (library sha256).next s (.step i d outcome) = some s') :
    s'.db = s.db ∧ ∃ memory, s.db.memory? m = some memory ∧ s'.clients[i]? =
      some (.review (.promote id) (.answered (.ok (.promoted ⟨id, .unchanged, memory⟩)))) := by
  obtain ⟨hrow, -, -⟩ := (hs.fits i _ hclient).row _ row rfl
  obtain ⟨hmem, hid⟩ := lookup_mem hrow
  obtain ⟨memory, hmemory⟩ := Option.isSome_iff_exists.mp (hs.rows.promoted _ hmem m hm).memory
  have hdecide : decideProposal s.db row d (.promote id) =
      .ok (.promoted ⟨id, .unchanged, memory⟩, s.db) := by
    have hpromote : promoteProposal s.db row d =
        .ok (⟨row.proposal.id, .unchanged, memory⟩, s.db) := by
      rw [promoteProposal, hm, Option.bind_some, hmemory]
    rw [decideProposal, hpromote, hid]
    rfl
  obtain ⟨client, hclient', h⟩ := bind_some h
  obtain rfl := Option.some.inj (hclient.symm.trans hclient')
  obtain ⟨moved, hmoved, h⟩ := bind_some h
  obtain rfl := Option.some.inj h
  dsimp only [advance, advanceReview] at hmoved
  rw [hdecide] at hmoved
  obtain rfl := Option.some.inj hmoved
  exact ⟨rfl, memory, hmemory, (onlyMoves_place hclient).self⟩

/-- Whatever extractions, ingestions, reviews and promotions are at work, a proposal is
taken out of pending by one request and keeps the decision. It has at most one memory,
and then it was approved and the memory is linked to its source. Promotions of it were
all given this memory, which one of them has inserted. A completed run keeps its
proposals. -/
theorem proposals_once (hs : (library sha256).Reachable s) :
    (∀ i j p p', s.Decided i p → s.Decided j p' → p.id = p'.id → i = j) ∧
    (∀ i p, s.Decided i p → p.reviewStatus ≠ .pending ∧
      ∃ p', s.db.proposal? p.id = some p' ∧ p'.reviewStatus = p.reviewStatus) ∧
    (∀ p ∈ s.db.proposals, ∀ m, p.memoryId = some m → Promoted s.db p m) ∧
    (∀ p ∈ s.db.proposals, ∀ p' ∈ s.db.proposals, ∀ m,
      p.memoryId = some m → p'.memoryId = some m → p = p') ∧
    (∀ i a, s.GivenMemory i a → ∃ p, s.db.proposal? a.proposalId = some p ∧
      p.memoryId = some a.memory.id) ∧
    (∀ i j a b, s.GivenMemory i a → s.GivenMemory j b → a.proposalId = b.proposalId →
      a.memory.id = b.memory.id ∧
        (a.promotionStatus = .created → b.promotionStatus = .created → i = j)) ∧
    (∀ i d outcome id row m s', s.clients[i]? = some (.review (.promote id) (.holding row)) →
      row.proposal.memoryId = some m → (library sha256).next s (.step i d outcome) = some s' →
      s'.db = s.db ∧ ∃ memory, s.db.memory? m = some memory ∧ s'.clients[i]? =
        some (.review (.promote id) (.answered (.ok (.promoted ⟨id, .unchanged, memory⟩))))) ∧
    ∀ s', ((library sha256).startingAt s).Reachable s' → Kept s.db s'.db := by
  have h := proposalsSound_reachable hs
  have hgiven : ∀ i a, s.GivenMemory i a → ∃ p, s.db.proposal? a.proposalId = some p ∧
      p.memoryId = some a.memory.id := by
    rintro i a ⟨q, hclient⟩
    exact (h.fits i _ hclient).promoted a rfl
  refine ⟨?_, ?_, h.rows.promoted, h.rows.apart, hgiven, ?_,
    fun i d outcome id row m s' => promoted_again h, fun s' => kept_later h⟩
  · rintro i j p p' ⟨q, hi⟩ ⟨q', hj⟩ hid
    exact h.apart i j _ _ hi hj (.decided rfl rfl hid)
  · rintro i p ⟨q, hi⟩
    obtain ⟨p', hp', hstatus, hdecided⟩ := (h.fits i _ hi).decided p rfl
    exact ⟨hdecided, p', hp', hstatus⟩
  · rintro i j a b hi hj hid
    obtain ⟨p, hp, hm⟩ := hgiven i a hi
    obtain ⟨p', hp', hm'⟩ := hgiven j b hj
    rw [hid, hp'] at hp
    obtain rfl := Option.some.inj hp
    refine ⟨Option.some.inj (hm.symm.trans hm'), fun ha hb => ?_⟩
    obtain ⟨q, hi⟩ := hi
    obtain ⟨q', hj⟩ := hj
    exact h.apart i j _ _ hi hj (.created rfl rfl ha hb hid)

/-- A text is ingested and read, and what was proposed is approved and promoted twice. -/
def samplePromotions : List LibraryLabel :=
  [.arrive (.source ⟨"note", "Note", none, none⟩), sampleStep 0 1,
    .arrive (.ingestion ⟨10, "ab\ncd", "text/plain", none, 5, [⟨0, "ab\ncd", 0, 5, "ab\ncd", none⟩]⟩),
    sampleStep 1 2, sampleStep 1 3,
    .arrive (.extraction { sampleGenerate with sourceId := 10 }), sampleStep 2 4, sampleStep 2 5,
    sampleStep 2 6, .step 2 (sampleDraw 7) sampleAnswer, sampleStep 2 8,
    .arrive (.review (.review 80 .approved none)), .arrive (.review (.promote 80)),
    .arrive (.review (.promote 80)), sampleStep 3 9, sampleStep 3 10, sampleStep 5 11,
    sampleStep 5 12, sampleStep 4 13, sampleStep 4 14]

/-- The promotion that came second was given what the other one has inserted. -/
theorem proposals_once_sample : ∃ s, (library id).Reachable s ∧
    ∃ a b, s.GivenMemory 5 a ∧ a.promotionStatus = .created ∧ s.GivenMemory 4 b ∧
      b.promotionStatus = .unchanged ∧ a.memory.id = b.memory.id ∧
      ∃ p ∈ s.db.proposals, Promoted s.db p a.memory.id := by
  let result (s : Library) (i : Nat) : Option PromotionResult :=
    s.clients[i]?.bind (·.promoted?)
  let p (s : Library) : Bool := (result s 5).any fun a => (result s 4).any fun b =>
    decide (a.proposalId = 80) && decide (b.proposalId = 80) &&
      decide (a.promotionStatus = .created) && decide (b.promotionStatus = .unchanged)
  obtain ⟨s, hs, hsample⟩ := Machine.exists_reachable_of_exec (library id) samplePromotions p
    (s := {}) rfl (by decide +kernel)
  obtain ⟨a, ha, hsample⟩ := (Option.any_eq_true _ _).mp hsample
  obtain ⟨b, hb, hsample⟩ := (Option.any_eq_true _ _).mp hsample
  simp only [Bool.and_eq_true, decide_eq_true_eq] at hsample
  obtain ⟨⟨⟨haid, hbid⟩, hcreated⟩, hunchanged⟩ := hsample
  have hgiven : ∀ {i c}, result s i = some c → s.GivenMemory i c := by
    intro i c hc
    obtain ⟨client, hclient, hc⟩ := Option.bind_eq_some_iff.mp hc
    unfold Client.promoted? at hc
    split at hc
    · rw [← Option.some.inj hc]
      exact ⟨_, hclient⟩
    · cases hc
  obtain ⟨-, -, hpromoted, -, hhas, hsame, -⟩ := proposals_once hs
  obtain ⟨p, hp, hm⟩ := hhas 5 a (hgiven ha)
  exact ⟨s, hs, a, b, hgiven ha, hcreated, hgiven hb, hunchanged,
    (hsame 5 4 a b (hgiven ha) (hgiven hb) (haid.trans hbid.symm)).1,
    p, (lookup_mem hp).1, hpromoted p (lookup_mem hp).1 _ hm⟩

end Knowledge

end SecondBrain
