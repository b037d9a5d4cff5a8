import SecondBrain.Knowledge.LibrarySteps

/-!
# The life of a capture

Whatever requests are at work, a change that goes through finds its capture at the
revision it was told and leaves it at the next one, so no two of them were told the
same. A capture that was made a source is never written again. It is the only one
that names the source, which is new when it is named.

The captures are told apart by the hash of the key they were created under, and what
they were created from is not written again, so that a creation that finds its key
taken is compared with the first one whatever has become of it.
-/

namespace SecondBrain

open Lib

namespace Knowledge

variable {sha256 : Sha256} {s s' : Library} {l : LibraryLabel} {db db' : Store} {i j : Nat}

/-! ## Answers -/

/-- The answer a request about a capture was given. -/
def Library.captureAnswer? (s : Library) (i : Nat) :
    Option (CaptureRequest × Except CaptureError CaptureAnswer) :=
  match s.clients[i]? with
  | some (.capture q (.answered answer)) => some (q, answer)
  | _ => none

/-- The capture as the request has left it, if it has changed it. -/
def CaptureAnswer.mutated? : CaptureAnswer → Option CaptureItemProjection
  | .changed item => some item
  | .converted result => some result.item
  | .created _ | .replayed _ | .resolved _ => none

/-- The capture and its source, if they were asked for. -/
def CaptureAnswer.conversion? : CaptureAnswer → Option CaptureConversionResult
  | .converted result | .resolved result => some result
  | .created _ | .replayed _ | .changed _ => none

/-- The request has changed the capture it names, which was at this revision. -/
def Library.Mutated (s : Library) (i : Nat) (q : CaptureRevision) (item : CaptureItemProjection) :
    Prop :=
  ∃ change answer, s.captureAnswer? i = some (.change q change, .ok answer) ∧
    answer.mutated? = some item

/-- The request was told the source of the capture. -/
def Library.GivenSource (s : Library) (i : Nat) (q : CaptureRevision)
    (result : CaptureConversionResult) : Prop :=
  ∃ change answer, s.captureAnswer? i = some (.change q change, .ok answer) ∧
    answer.conversion? = some result

/-- The request has made the capture a source. -/
def Library.Converted (s : Library) (i : Nat) (q : CaptureRevision)
    (result : CaptureConversionResult) : Prop :=
  ∃ change, s.captureAnswer? i = some (.change q change, .ok (.converted result))

theorem captureAnswer_eq {q : CaptureRequest} {answer : Except CaptureError CaptureAnswer} :
    s.captureAnswer? i = some (q, answer) ↔
      s.clients[i]? = some (.capture q (.answered answer)) := by
  unfold Library.captureAnswer?
  constructor
  · intro h
    split at h
    · next hclient =>
        obtain ⟨rfl, rfl⟩ := Prod.mk.inj (Option.some.inj h)
        exact hclient
    · cases h
  · intro h
    rw [h]

/-! ## Steps -/

/-- Sources and projects are only added, and documents stay those of their sources. -/
structure Grows (db db' : Store) : Prop where
  sources : ∃ new, db'.sources = db.sources ++ new
  projects : ∃ new, db'.projects = db.projects ++ new
  documents : KeepsDocuments db.documents db'.documents

theorem Grows.of_sources {new : List Source} (hsources : db'.sources = db.sources ++ new)
    (hprojects : db'.projects = db.projects)
    (hdocuments : KeepsDocuments db.documents db'.documents) : Grows db db' :=
  ⟨⟨new, hsources⟩, ⟨[], by rw [hprojects, List.append_nil]⟩, hdocuments⟩

theorem Grows.of_documents (hsources : db'.sources = db.sources)
    (hprojects : db'.projects = db.projects)
    (hdocuments : KeepsDocuments db.documents db'.documents) : Grows db db' :=
  .of_sources (by rw [hsources, List.append_nil]) hprojects hdocuments

theorem Grows.of_eq (hsources : db'.sources = db.sources) (hprojects : db'.projects = db.projects)
    (hdocuments : db'.documents = db.documents) : Grows db db' :=
  .of_documents hsources hprojects (hdocuments ▸ .refl _)

theorem Grows.refl (db : Store) : Grows db db := .of_eq rfl rfl rfl

theorem Grows.trans {db'' : Store} (h : Grows db db') (h' : Grows db' db'') : Grows db db'' := by
  obtain ⟨sources, hsources⟩ := h.sources
  obtain ⟨sources', hsources'⟩ := h'.sources
  obtain ⟨projects, hprojects⟩ := h.projects
  obtain ⟨projects', hprojects'⟩ := h'.projects
  refine ⟨⟨sources ++ sources', ?_⟩, ⟨projects ++ projects', ?_⟩, fun id document hd => ?_⟩
  · rw [hsources', hsources, List.append_assoc]
  · rw [hprojects', hprojects, List.append_assoc]
  · obtain ⟨document', hd', hsource⟩ := h.documents id document hd
    obtain ⟨document'', hd'', hsource'⟩ := h'.documents id document' hd'
    exact ⟨document'', hd'', hsource'.trans hsource⟩

theorem Grows.source? (h : Grows db db') {id : Uuid} {source : Source}
    (hfound : db.source? id = some source) : db'.source? id = some source := by
  obtain ⟨new, hnew⟩ := h.sources
  unfold Store.source?
  rw [hnew]
  exact lookup_append_of_some hfound new

theorem Grows.hasProject (h : Grows db db') {scope : Option Uuid}
    (hscope : db.hasProject scope = true) : db'.hasProject scope = true := by
  obtain ⟨new, hnew⟩ := h.projects
  unfold Store.hasProject at hscope ⊢
  rw [hnew]
  cases scope with
  | none => rfl
  | some id =>
      simp at hscope ⊢
      exact .inl hscope

/-- Every request is where it was, but the one that has moved. -/
structure OnlyMoves (s s' : Library) (i : Nat) (client : Client) : Prop where
  self : s'.clients[i]? = some client
  others : ∀ j, j ≠ i → s'.clients[j]? = s.clients[j]?

theorem OnlyMoves.client {client c : Client} (h : OnlyMoves s s' i client)
    (hc : s'.clients[j]? = some c) : j = i ∧ c = client ∨ j ≠ i ∧ s.clients[j]? = some c := by
  by_cases hj : j = i
  · subst hj
    rw [h.self] at hc
    exact .inl ⟨rfl, (Option.some.inj hc).symm⟩
  · rw [h.others j hj] at hc
    exact .inr ⟨hj, hc⟩

theorem onlyMoves_place {client : Client} {m : Moved} (hclient : s.clients[i]? = some client) :
    OnlyMoves s (s.place i m) i m.client := by
  constructor
  · show (s.clients.set i m.client)[i]? = some m.client
    rw [List.getElem?_set_self', hclient]
    rfl
  · intro j hj
    show (s.clients.set i m.client)[j]? = s.clients[j]?
    exact List.getElem?_set_ne fun heq => hj heq.symm

/-- The requests about captures are where they were, or have just arrived. -/
def InboxRests (s s' : Library) : Prop :=
  ∀ (j : Nat) (q : CaptureRequest) (phase : CapturePhase),
    s'.clients[j]? = some (.capture q phase) →
    s.clients[j]? = some (.capture q phase) ∨ phase = .arrived

/-- What a step does to the captures and to the requests about them. -/
inductive InboxStep (sha256 : Sha256) (s s' : Library) : Prop
  | aside :
      s'.db.captures = s.db.captures → Grows s.db s'.db → InboxRests s s' →
      InboxStep sha256 s s'
  | moved {i : Nat} {q : CaptureRequest} {phase phase' : CapturePhase} :
      s.clients[i]? = some (.capture q phase) → (∀ a, phase ≠ .answered a) →
      CaptureStep sha256 s.db q phase phase' s'.db → OnlyMoves s s' i (.capture q phase') →
      InboxStep sha256 s s'

/-- A request of another kind leaves the captures and the requests about them. -/
theorem inboxStep_aside {m : Moved} (hcaptures : m.db.captures = s.db.captures)
    (hgrows : Grows s.db m.db) (hclient : ∀ q phase, m.client ≠ .capture q phase) :
    InboxStep sha256 s (s.place i m) := by
  refine .aside hcaptures hgrows fun j q phase h => ?_
  rcases clients_place h with ⟨-, heq⟩ | ⟨-, hold⟩
  · exact absurd heq.symm (hclient q phase)
  · exact .inl hold

theorem clientMove_inbox {client : Client} {m : Moved} (hclient : s.clients[i]? = some client)
    (h : ClientMove sha256 s.db s.locks i client m) : InboxStep sha256 s (s.place i m) := by
  cases h with
  | capture hstep hopen => exact .moved hclient hopen hstep (onlyMoves_place hclient)
  | sourceRefused | ingestion | reviewRefused | reviewHeld | reviewFailed | memoryRefused
  | supersessionRefused | supersessionHeld | supersessionCompared | supersessionTraced
  | supersessionEnded =>
      exact inboxStep_aside rfl (.refl _) (by simp)
  | source => exact inboxStep_aside rfl (.of_sources rfl rfl (.refl _)) (by simp)
  | ingested _ hwrite =>
      obtain ⟨documents, chunks, gone, heq⟩ := (writeDocument_spec hwrite).frame
      refine inboxStep_aside (by rw [heq]) (.of_documents ?_ ?_ (writeDocument_spec hwrite).documents)
        (by simp)
      · rw [heq]
      · rw [heq]
  | extraction _ hstep =>
      obtain ⟨runs, proposals, heq⟩ := hstep.frame
      exact inboxStep_aside (by rw [heq]) (.of_eq (by rw [heq]) (by rw [heq]) (by rw [heq])) (by simp)
  | review hwrite =>
      obtain ⟨proposals, memories, links, heq⟩ := hwrite.frame
      exact inboxStep_aside (by rw [heq]) (.of_eq (by rw [heq]) (by rw [heq]) (by rw [heq])) (by simp)
  | memory _ hwrite =>
      obtain ⟨memories, links, heq⟩ := hwrite.frame
      exact inboxStep_aside (by rw [heq]) (.of_eq (by rw [heq]) (by rw [heq]) (by rw [heq])) (by simp)
  | supersession => exact inboxStep_aside rfl (.of_eq rfl rfl rfl) (by simp)

theorem arrived_of_client {q : Request} {c : CaptureRequest} {phase : CapturePhase}
    (h : q.client = .capture c phase) : phase = .arrived := by
  cases q with
  | capture q =>
      obtain ⟨-, rfl⟩ := Client.capture.inj h
      rfl
  | source | ingestion | extraction | review | memory | supersession => cases h

theorem stopped_capture {client stopped : Client} (h : client.stopped = some stopped)
    {q : CaptureRequest} {phase : CapturePhase} (hstopped : stopped = .capture q phase) :
    ∃ before, client = .capture q before ∧ (∀ a, before ≠ .answered a) ∧
      phase = .answered (.error .databaseUnavailable) := by
  subst hstopped
  cases client with
  | capture q' before =>
      cases before with
      | answered a => cases h
      | arrived | contended =>
          obtain ⟨rfl, rfl⟩ := Client.capture.inj (Option.some.inj h)
          exact ⟨_, rfl, fun a ha => (nomatch ha), rfl⟩
  | source q' answer => cases answer <;> cases h
  | ingestion q' before => cases before <;> cases h
  | extraction q' before => cases before <;> cases h
  | review q' before => cases before <;> cases h
  | memory q' answer => cases answer <;> cases h
  | supersession q' before => cases before <;> cases h

theorem inbox_step (h : (library sha256).next s l = some s') : InboxStep sha256 s s' := by
  cases next_step h with
  | project => exact .aside rfl ⟨⟨[], by simp⟩, ⟨_, rfl⟩, .refl _⟩ fun j q phase hq => .inl hq
  | arrived =>
      refine .aside rfl (.refl _) fun j q phase hq => ?_
      rw [List.getElem?_append] at hq
      split at hq
      · exact .inl hq
      · rw [List.getElem?_singleton] at hq
        split at hq
        · exact .inr (arrived_of_client (Option.some.inj hq))
        · cases hq
  | moved hclient hadvance => exact clientMove_inbox hclient (advance_move hadvance)
  | @stopped i client stopped hclient hstopped =>
      by_cases hkind : ∃ q phase, stopped = .capture q phase
      · obtain ⟨q, phase, hcapture⟩ := hkind
        obtain ⟨before, rfl, hopen, rfl⟩ := stopped_capture hstopped hcapture
        subst hcapture
        exact .moved hclient hopen .stopped (onlyMoves_place hclient)
      · exact inboxStep_aside rfl (.refl _) fun q phase heq => hkind ⟨q, phase, heq⟩

/-! ## Rows over time -/

/-- The source is in no capture. -/
def Unbound (db : Store) (sourceId : Uuid) : Prop :=
  ∀ c ∈ db.captures, c.resultingSourceId ≠ some sourceId

/-- What is later the case of the captures and the sources. -/
structure Later (db db' : Store) : Prop where
  grows : Grows db db'
  capture : ∀ {id c}, db.capture? id = some c → ∃ c', db'.capture? id = some c' ∧
    c.revision ≤ c'.revision ∧ c'.idempotencyKeyHash = c.idempotencyKeyHash ∧
    c'.requestFingerprint = c.requestFingerprint ∧ (c.state = .processed → c' = c)
  unbound : ∀ {x}, (db.source? x).isSome = true → Unbound db x → Unbound db' x

theorem Later.refl (db : Store) : Later db db :=
  ⟨.refl db, fun {_ c} h => ⟨c, h, Nat.le_refl _, rfl, rfl, fun _ => rfl⟩, fun _ h => h⟩

theorem Later.source (h : Later db db') {id : Uuid} {source : Source}
    (hfound : db.source? id = some source) : db'.source? id = some source :=
  h.grows.source? hfound

theorem Later.trans {db'' : Store} (h : Later db db') (h' : Later db' db'') : Later db db'' := by
  refine ⟨h.grows.trans h'.grows, fun {id c} hc => ?_, fun {x} hx hu => ?_⟩
  rotate_left
  · obtain ⟨source, hsource⟩ := Option.isSome_iff_exists.mp hx
    exact h'.unbound (by rw [h.source hsource]; rfl) (h.unbound hx hu)
  obtain ⟨c', hc', hrevision, hkey, hfingerprint, hfrozen⟩ := h.capture hc
  obtain ⟨c'', hc'', hrevision', hkey', hfingerprint', hfrozen'⟩ := h'.capture hc'
  refine ⟨c'', hc'', Nat.le_trans hrevision hrevision', hkey'.trans hkey,
    hfingerprint'.trans hfingerprint, fun hp => ?_⟩
  obtain rfl := hfrozen hp
  exact hfrozen' hp

theorem Later.of_eq (hgrows : Grows db db') (h : db'.captures = db.captures) :
    Later db db' := by
  refine ⟨hgrows, fun {id c} hc => ⟨c, ?_, Nat.le_refl _, rfl, rfl, fun _ => rfl⟩,
    fun {x} _ hu => ?_⟩
  · unfold Store.capture?
    rw [h]
    exact hc
  · unfold Unbound
    rw [h]
    exact hu

/-- A capture that is not processed is written, and sources are added. -/
theorem Later.write {q : CaptureRevision} {item new : CaptureItem} (hitem : Expected db q item)
    (hnew : Rewritten item new) (hstate : item.state ≠ .processed)
    (hrevision : new.revision = item.revision + 1)
    (hsource : ∀ x, new.resultingSourceId = some x →
      item.resultingSourceId = some x ∨ db.source? x = none)
    (hgrows : Grows db db') (h : db'.captures = replace (·.id) new db.captures) :
    Later db db' := by
  refine ⟨hgrows, fun {id c} hc => ?_, fun {x} hx hu c hc => ?_⟩
  rotate_left
  · rw [h, mem_replace] at hc
    rcases hc with ⟨rfl, -⟩ | ⟨hc, -⟩
    · intro hnewsource
      rcases hsource x hnewsource with hold | hnone
      · exact hu item (lookup_mem hitem.found).1 hold
      · rw [hnone] at hx
        cases hx
    · exact hu c hc
  have hid := hitem.id_eq
  have hnewid := hnew.id
  unfold Store.capture?
  rw [h]
  by_cases hsame : id = new.id
  · have hmem : new.id ∈ db.captures.map (·.id) := by
      rw [hnew.id, hid]
      exact lookup_isSome.mp (by
        have hfound : lookup (·.id) q.itemId db.captures = some item := hitem.found
        rw [hfound]
        rfl)
    have hold : c = item := by
      have hfound := hitem.found
      rw [← hid, ← hnewid, ← hsame, hc] at hfound
      exact Option.some.inj hfound
    subst hold hsame
    refine ⟨new, lookup_replace_self hmem, ?_, hnew.keyHash, hnew.fingerprint, fun hp => ?_⟩
    · rw [hrevision]
      exact Nat.le_succ _
    · exact absurd hp hstate
  · have hkeeps : lookup (fun c : CaptureItem => c.id) id
        (replace (fun c : CaptureItem => c.id) new db.captures) =
          lookup (fun c : CaptureItem => c.id) id db.captures := lookup_replace_ne hsame
    rw [hkeeps]
    exact ⟨c, hc, Nat.le_refl _, rfl, rfl, fun _ => rfl⟩

theorem Converted.grows {q : CaptureRevision} {result : CaptureConversionResult}
    {item new : CaptureItem} (h : Converted db q result item new db') : Grows db db' := by
  obtain ⟨document, chunks, hstore⟩ := h.store
  refine .of_sources (by rw [hstore]) (by rw [hstore]) ?_
  rw [hstore]
  exact keepsDocuments_append _

theorem ChangeStep.later {q : CaptureRevision} {answer : CaptureAnswer}
    (h : ChangeStep db q answer db') : Later db db' := by
  cases h with
  | changed h =>
      refine .write h.expected h.rewritten h.before h.revision (fun x hx => ?_)
        (.of_eq ?_ ?_ ?_) (by rw [h.store]; rfl)
      · exact .inl (h.resultingSourceId ▸ hx)
      · rw [h.store]; rfl
      · rw [h.store]; rfl
      · rw [h.store]; rfl
  | converted h =>
      obtain ⟨document, chunks, hstore⟩ := h.store
      have hstate := h.pending
      refine .write h.expected h.rewritten (by rw [hstate]; decide) h.revision (fun x hx => ?_)
        h.grows (by rw [hstore])
      rw [h.resultingSourceId] at hx
      exact .inr (Option.some.inj hx ▸ h.fresh)
  | resolved => exact .refl db

theorem CaptureStep.later {q : CaptureRequest} {phase phase' : CapturePhase}
    (h : CaptureStep sha256 db q phase phase' db') : Later db db' := by
  cases h with
  | stopped | invalid | contended | lost | conflict | replayed | refused => exact .refl db
  | created _ hfrom =>
      refine ⟨.of_eq rfl rfl rfl, fun {id c} hc => ⟨c, ?_, Nat.le_refl _, rfl, rfl, fun _ => rfl⟩,
        fun {x} _ hu c hc => ?_⟩
      · exact lookup_append_of_some hc _
      · rcases List.mem_append.mp hc with hc | hc
        · exact hu c hc
        · obtain rfl := List.mem_singleton.mp hc
          rw [hfrom.fresh.resultingSourceId]
          exact nofun
  | changed hchange => exact hchange.later

theorem InboxStep.later (h : InboxStep sha256 s s') : Later s.db s'.db := by
  cases h with
  | aside hcaptures hgrows => exact .of_eq hgrows hcaptures
  | moved _ _ hstep => exact hstep.later

theorem later_reachable (h : ((library sha256).startingAt s).Reachable s') : Later s.db s'.db := by
  refine Machine.later (R := fun a b : Library => Later a.db b.db) (I := fun _ => True)
    (fun a => .refl a.db) (fun hab hbc => hab.trans hbc) ?_ trivial h
  exact fun a l b _ hab => ⟨(inbox_step hab).later, trivial⟩

/-! ## The invariant -/

/-- What holds of the captures of a store. -/
structure CaptureRows (db : Store) : Prop where
  keyed : Keyed (·.id) db.captures
  keys : Keyed (·.idempotencyKeyHash) db.captures
  processedAt : ∀ c ∈ db.captures, c.state = .processed ↔ c.processedAt.isSome = true
  resultingSourceId : ∀ c ∈ db.captures, c.state = .processed ↔ c.resultingSourceId.isSome = true
  bound : ∀ c ∈ db.captures, ∀ x, c.resultingSourceId = some x → (db.source? x).isSome = true
  single : ∀ c ∈ db.captures, ∀ c' ∈ db.captures, ∀ x,
    c.resultingSourceId = some x → c'.resultingSourceId = some x → c = c'
  projectId : ∀ c ∈ db.captures, db.hasProject c.projectId = true

theorem CaptureRows.mem (h : CaptureRows db) {c : CaptureItem} :
    c ∈ db.captures ↔ db.capture? c.id = some c :=
  ⟨fun hc => h.keyed.lookup hc, fun hc => (lookup_mem hc).1⟩

theorem CaptureRows.of_eq (h : CaptureRows db) (hcaptures : db'.captures = db.captures)
    (hgrows : Grows db db') : CaptureRows db' := by
  refine ⟨?_, ?_, ?_, ?_, fun c hc x hx => ?_, ?_, fun c hc => ?_⟩
  · rw [hcaptures]; exact h.keyed
  · rw [hcaptures]; exact h.keys
  · rw [hcaptures]; exact h.processedAt
  · rw [hcaptures]; exact h.resultingSourceId
  · rw [hcaptures] at hc
    obtain ⟨source, hsource⟩ := Option.isSome_iff_exists.mp (h.bound c hc x hx)
    rw [hgrows.source? hsource]
    rfl
  · rw [hcaptures]; exact h.single
  · rw [hcaptures] at hc
    exact hgrows.hasProject (h.projectId c hc)

/-- A capture is written that was not processed, and names no source but a new one. -/
structure Wrote (db : Store) (q : CaptureRevision) (item new : CaptureItem) (db' : Store) :
    Prop where
  expected : Expected db q item
  rewritten : Rewritten item new
  before : item.state ≠ .processed
  revision : new.revision = item.revision + 1
  processedAt : new.state = .processed ↔ new.processedAt.isSome = true
  resultingSourceId : new.state = .processed ↔ new.resultingSourceId.isSome = true
  source : ∀ x, new.resultingSourceId = some x → db.source? x = none ∧ (db'.source? x).isSome = true
  projectId : db.hasProject new.projectId = true ∨ new.projectId = item.projectId
  grows : Grows db db'
  captures : db'.captures = replace (·.id) new db.captures

theorem Wrote.rows {q : CaptureRevision} {item new : CaptureItem} (hw : Wrote db q item new db')
    (h : CaptureRows db) : CaptureRows db' := by
  have hitem : item ∈ db.captures := (lookup_mem hw.expected.found).1
  have hid := hw.rewritten.id
  have hmem : ∀ c, c ∈ db'.captures ↔ c = new ∨ c ∈ db.captures ∧ c.id ≠ new.id := by
    intro c
    rw [hw.captures, mem_replace]
    constructor
    · intro hc
      rcases hc with ⟨hc, -⟩ | hc
      · exact .inl hc
      · exact .inr hc
    · intro hc
      rcases hc with hc | hc
      · exact .inl ⟨hc, hid ▸ List.mem_map_of_mem hitem⟩
      · exact .inr hc
  have hbefore : ∀ c ∈ db.captures, ∀ x, c.resultingSourceId = some x →
      new.resultingSourceId = some x → False := by
    intro c hc x hx hnew
    have hsome := h.bound c hc x hx
    rw [(hw.source x hnew).1] at hsome
    cases hsome
  refine ⟨?_, ?_, fun c hc => ?_, fun c hc => ?_, fun c hc x hx => ?_,
    fun c hc c' hc' x hx hx' => ?_, fun c hc => hw.grows.hasProject ?_⟩
  · rw [hw.captures]
    exact h.keyed.replace
  · have hkeys : db'.captures.map (·.idempotencyKeyHash) =
        db.captures.map (·.idempotencyKeyHash) := by
      rw [hw.captures, replace, List.map_map]
      refine List.map_congr_left fun c hc => ?_
      show (if c.id = new.id then new else c).idempotencyKeyHash = c.idempotencyKeyHash
      split
      · next hsame =>
          obtain rfl := h.keyed.inj hc hitem (hsame.trans hid)
          exact hw.rewritten.keyHash
      · rfl
    unfold Keyed
    rw [hkeys]
    exact h.keys
  · rcases (hmem c).mp hc with rfl | ⟨hc, -⟩
    · exact hw.processedAt
    · exact h.processedAt c hc
  · rcases (hmem c).mp hc with rfl | ⟨hc, -⟩
    · exact hw.resultingSourceId
    · exact h.resultingSourceId c hc
  · rcases (hmem c).mp hc with rfl | ⟨hc, -⟩
    · exact (hw.source x hx).2
    · obtain ⟨source, hsource⟩ := Option.isSome_iff_exists.mp (h.bound c hc x hx)
      rw [hw.grows.source? hsource]
      rfl
  · rcases (hmem c).mp hc with rfl | ⟨hc, -⟩
    · rcases (hmem c').mp hc' with rfl | ⟨hc', -⟩
      · rfl
      · exact (hbefore c' hc' x hx' hx).elim
    · rcases (hmem c').mp hc' with rfl | ⟨hc', -⟩
      · exact (hbefore c hc x hx hx').elim
      · exact h.single c hc c' hc' x hx hx'
  · rcases (hmem c).mp hc with rfl | ⟨hc, -⟩
    · rcases hw.projectId with hscope | hscope
      · exact hscope
      · rw [hscope]
        exact h.projectId item hitem
    · exact h.projectId c hc

theorem Wrote.found {q : CaptureRevision} {item new : CaptureItem}
    (h : Wrote db q item new db') : db'.capture? q.itemId = some new := by
  have hmem : new.id ∈ db.captures.map (·.id) := by
    rw [h.rewritten.id]
    exact List.mem_map_of_mem (lookup_mem h.expected.found).1
  unfold Store.capture?
  rw [h.captures, ← h.expected.id_eq, ← h.rewritten.id]
  exact lookup_replace_self hmem

theorem Changed.wrote {q : CaptureRevision} {projection : CaptureItemProjection}
    {item new : CaptureItem} (h : Changed db q projection item new db') (hrows : CaptureRows db) :
    Wrote db q item new db' := by
  have hitem : item ∈ db.captures := (lookup_mem h.expected.found).1
  have hnone : new.processedAt.isSome = false ∧ new.resultingSourceId.isSome = false := by
    rw [h.processedAt, h.resultingSourceId, ← Bool.not_eq_true, ← Bool.not_eq_true,
      ← hrows.processedAt item hitem, ← hrows.resultingSourceId item hitem]
    exact ⟨h.before, h.before⟩
  refine ⟨h.expected, h.rewritten, h.before, h.revision, ?_, ?_, fun x hx => ?_, ?_, ?_, ?_⟩
  · simp [h.after, hnone.1]
  · simp [h.after, hnone.2]
  · rw [hx] at hnone
    exact absurd hnone.2 (by simp)
  · exact h.projectId
  · exact .of_eq (by rw [h.store]; rfl) (by rw [h.store]; rfl) (by rw [h.store]; rfl)
  · rw [h.store]
    rfl

theorem Converted.source_found {q : CaptureRevision} {result : CaptureConversionResult}
    {item new : CaptureItem} (h : Converted db q result item new db') :
    db'.source? result.source.id = some result.source := by
  obtain ⟨document, chunks, hstore⟩ := h.store
  unfold Store.source?
  rw [hstore]
  exact lookup_append_self (lookup_eq_none.mp h.fresh)

theorem Converted.wrote {q : CaptureRevision} {result : CaptureConversionResult}
    {item new : CaptureItem} (h : Converted db q result item new db') :
    Wrote db q item new db' := by
  obtain ⟨document, chunks, hstore⟩ := h.store
  have hpending := h.pending
  refine ⟨h.expected, h.rewritten, by rw [hpending]; decide, h.revision, ?_, ?_, fun x hx => ?_,
    ?_, h.grows, by rw [hstore]⟩
  · simp [h.after, h.processedAt]
  · simp [h.after, h.resultingSourceId]
  · rw [h.resultingSourceId] at hx
    obtain rfl := Option.some.inj hx
    exact ⟨h.fresh, by rw [h.source_found]; rfl⟩
  · exact .inr h.projectId

/-- A change that has an effect writes its capture. -/
theorem ChangeStep.wrote {q : CaptureRevision} {answer : CaptureAnswer}
    {projection : CaptureItemProjection} (h : ChangeStep db q answer db') (hrows : CaptureRows db)
    (hmutated : answer.mutated? = some projection) :
    ∃ item new, Wrote db q item new db' ∧ projection = new.toCaptureItemProjection := by
  cases h with
  | changed h =>
      obtain rfl := Option.some.inj hmutated
      exact ⟨_, _, h.wrote hrows, h.answer_eq⟩
  | converted h =>
      obtain rfl := Option.some.inj hmutated
      exact ⟨_, _, h.wrote, h.answer_eq⟩
  | resolved => cases hmutated

theorem ChangeStep.yielded {q : CaptureRevision} {result : CaptureConversionResult}
    (h : ChangeStep db q (.converted result) db') : ∃ c, db'.capture? q.itemId = some c ∧
      c.state = .processed ∧ c.revision = q.revision + 1 := by
  cases h with
  | converted h =>
      refine ⟨_, h.wrote.found, h.after, ?_⟩
      rw [h.revision, h.expected.revision]

theorem ChangeStep.rows {q : CaptureRevision} {answer : CaptureAnswer}
    (h : ChangeStep db q answer db') (hrows : CaptureRows db) : CaptureRows db' := by
  cases h with
  | changed h => exact (h.wrote hrows).rows hrows
  | converted h => exact h.wrote.rows hrows
  | resolved => exact hrows

/-- The store holds the capture made a source, and the source. -/
def Store.Holds (db : Store) (id : Uuid) (result : CaptureConversionResult) : Prop :=
  ∃ c, db.capture? id = some c ∧ c.state = .processed ∧
    c.resultingSourceId = some result.source.id ∧
    db.source? result.source.id = some result.source

theorem Store.Holds.later {id : Uuid} {result : CaptureConversionResult} (h : db.Holds id result)
    (hlater : Later db db') : db'.Holds id result := by
  obtain ⟨c, hc, hp, hsource, hfound⟩ := h
  obtain ⟨c', hc', -, -, -, hfrozen⟩ := hlater.capture hc
  obtain rfl := hfrozen hp
  exact ⟨_, hc', hp, hsource, hlater.source hfound⟩

theorem ChangeStep.holds {q : CaptureRevision} {answer : CaptureAnswer}
    {result : CaptureConversionResult} (h : ChangeStep db q answer db')
    (hresult : answer.conversion? = some result) : db'.Holds q.itemId result := by
  cases h with
  | changed => cases hresult
  | converted h =>
      obtain rfl := Option.some.inj hresult
      exact ⟨_, h.wrote.found, h.after, h.resultingSourceId, h.source_found⟩
  | resolved h =>
      obtain rfl := Option.some.inj hresult
      exact ⟨_, h.found, h.processed, h.source, h.source_found⟩

/-- What holds of the captures, and of what was answered about them. -/
structure Library.CapturesSound (s : Library) : Prop where
  rows : CaptureRows s.db
  /-- No two requests have changed a capture at one revision. -/
  once : ∀ i j q q' item item', s.Mutated i q item → s.Mutated j q' item' →
    q.itemId = q'.itemId → q.revision = q'.revision → i = j
  /-- The source that was given is the one the capture names. -/
  given : ∀ i q result, s.GivenSource i q result → s.db.Holds q.itemId result
  /-- What was made a source is left at the next revision. -/
  yielded : ∀ i q result, s.Converted i q result → ∃ c, s.db.capture? q.itemId = some c ∧
    c.state = .processed ∧ c.revision = q.revision + 1
  /-- A revision at which a capture was changed is behind it. -/
  passed : ∀ i q item, s.Mutated i q item → ∃ c, s.db.capture? q.itemId = some c ∧
    q.revision < c.revision

theorem Library.Mutated.later {q : CaptureRevision} {c : CaptureItem} (h : Later s.db s'.db)
    (hc : s.db.capture? q.itemId = some c) (hlt : q.revision < c.revision) :
    ∃ c', s'.db.capture? q.itemId = some c' ∧ q.revision < c'.revision := by
  obtain ⟨c', hc', hle, -⟩ := h.capture hc
  exact ⟨c', hc', Nat.lt_of_lt_of_le hlt hle⟩

theorem Converted.later {q : CaptureRevision} (h : Later db db')
    (hc : ∃ c, db.capture? q.itemId = some c ∧ c.state = .processed ∧ c.revision = q.revision + 1) :
    ∃ c, db'.capture? q.itemId = some c ∧ c.state = .processed ∧ c.revision = q.revision + 1 := by
  obtain ⟨c, hc, hp, hrevision⟩ := hc
  obtain ⟨c', hc', -, -, -, hfrozen⟩ := h.capture hc
  obtain rfl := hfrozen hp
  exact ⟨_, hc', hp, hrevision⟩

/-- What the requests were answered before, and what the one that has moved is answered. -/
theorem captureAnswer_moved {q : CaptureRequest} {phase' : CapturePhase}
    (hplace : OnlyMoves s s' i (.capture q phase')) {r : CaptureRequest}
    {answer : Except CaptureError CaptureAnswer} (h : s'.captureAnswer? j = some (r, answer)) :
    j = i ∧ r = q ∧ phase' = .answered answer ∨ j ≠ i ∧ s.captureAnswer? j = some (r, answer) := by
  rcases hplace.client (captureAnswer_eq.mp h) with ⟨hj, hc⟩ | ⟨hj, hc⟩
  · obtain ⟨rfl, rfl⟩ := Client.capture.inj hc
    exact .inl ⟨hj, rfl, rfl⟩
  · exact .inr ⟨hj, captureAnswer_eq.mpr hc⟩

theorem capturesSound_aside (h : s.CapturesSound) (hcaptures : s'.db.captures = s.db.captures)
    (hgrows : Grows s.db s'.db) (hclients : InboxRests s s') : s'.CapturesSound := by
  have hlater : Later s.db s'.db := .of_eq hgrows hcaptures
  have hanswer : ∀ {j r a}, s'.captureAnswer? j = some (r, a) →
      s.captureAnswer? j = some (r, a) := by
    intro j r a hr
    rcases hclients j _ _ (captureAnswer_eq.mp hr) with hold | hnew
    · exact captureAnswer_eq.mpr hold
    · cases hnew
  have hmutated : ∀ {j q item}, s'.Mutated j q item → s.Mutated j q item :=
    fun ⟨change, a, ha, hitem⟩ => ⟨change, a, hanswer ha, hitem⟩
  refine ⟨h.rows.of_eq hcaptures hgrows,
    fun i j q q' item item' hi hj => h.once i j q q' item item' (hmutated hi) (hmutated hj),
    fun i q result hi => ?_, fun i q result hi => ?_, fun i q item hi => ?_⟩
  · obtain ⟨change, a, ha, hresult⟩ := hi
    exact (h.given i q result ⟨change, a, hanswer ha, hresult⟩).later hlater
  · obtain ⟨change, ha⟩ := hi
    exact Converted.later hlater (h.yielded i q result ⟨change, hanswer ha⟩)
  · obtain ⟨c, hc, hlt⟩ := h.passed i q item (hmutated hi)
    exact Library.Mutated.later hlater hc hlt

theorem Fresh.rows {item : CaptureItem} (h : CaptureRows db) (hfresh : item.Fresh)
    (hscope : db.hasProject item.projectId = true)
    (hid : db.capture? item.id = none) (hkey : db.captureOfKey item.idempotencyKeyHash = none) :
    CaptureRows { db with captures := db.captures ++ [item] } := by
  have hmem : ∀ {c}, c ∈ db.captures ++ [item] → c ∈ db.captures ∨ c = item := by
    intro c hc
    rcases List.mem_append.mp hc with hc | hc
    · exact .inl hc
    · exact .inr (List.mem_singleton.mp hc)
  have hnone : ∀ x, item.resultingSourceId ≠ some x := by
    intro x hx
    rw [hfresh.resultingSourceId] at hx
    cases hx
  refine ⟨h.keyed.append (lookup_eq_none.mp hid), h.keys.append (lookup_eq_none.mp hkey),
    fun c hc => ?_, fun c hc => ?_, fun c hc x hx => ?_, fun c hc c' hc' x hx hx' => ?_,
    fun c hc => ?_⟩
  · rcases hmem hc with hc | rfl
    · exact h.processedAt c hc
    · simp [hfresh.state, hfresh.processedAt]
  · rcases hmem hc with hc | rfl
    · exact h.resultingSourceId c hc
    · simp [hfresh.state, hfresh.resultingSourceId]
  · rcases hmem hc with hc | rfl
    · exact h.bound c hc x hx
    · exact absurd hx (hnone x)
  · rcases hmem hc with hc | rfl
    · rcases hmem hc' with hc' | rfl
      · exact h.single c hc c' hc' x hx hx'
      · exact absurd hx' (hnone x)
    · exact absurd hx (hnone x)
  · rcases hmem hc with hc | rfl
    · exact h.projectId c hc
    · exact hscope

/-- A step of a request that has changed nothing it is told of. -/
theorem capturesSound_quiet {q : CaptureRequest} {phase' : CapturePhase}
    (h : s.CapturesSound) (hrows : CaptureRows s'.db) (hlater : Later s.db s'.db)
    (hplace : OnlyMoves s s' i (.capture q phase'))
    (hquiet : ∀ answer, phase' = .answered (.ok answer) → answer.mutated? = none)
    (hgiven : ∀ r change result, q = .change r change → ∀ a, phase' = .answered (.ok a) →
      a.conversion? = some result → s'.db.Holds r.itemId result) : s'.CapturesSound := by
  have hmutated : ∀ {j q item}, s'.Mutated j q item → s.Mutated j q item := by
    intro j r item ⟨change, a, ha, hitem⟩
    rcases captureAnswer_moved hplace ha with ⟨-, -, hphase⟩ | ⟨-, hold⟩
    · rw [hquiet a hphase] at hitem
      cases hitem
    · exact ⟨change, a, hold, hitem⟩
  refine ⟨hrows,
    fun i j q q' item item' hi hj => h.once i j q q' item item' (hmutated hi) (hmutated hj),
    fun j r result hj => ?_, fun j r result hj => ?_, fun j r item hj => ?_⟩
  · obtain ⟨change, a, ha, hresult⟩ := hj
    rcases captureAnswer_moved hplace ha with ⟨-, hq, hphase⟩ | ⟨-, hold⟩
    · exact hgiven r change result hq.symm a hphase hresult
    · exact (h.given j r result ⟨change, a, hold, hresult⟩).later hlater
  · obtain ⟨change, ha⟩ := hj
    rcases captureAnswer_moved hplace ha with ⟨-, -, hphase⟩ | ⟨-, hold⟩
    · cases hquiet _ hphase
    · exact Converted.later hlater (h.yielded j r result ⟨change, hold⟩)
  · obtain ⟨c, hc, hlt⟩ := h.passed j r item (hmutated hj)
    exact Library.Mutated.later hlater hc hlt

/-- A step that changes a capture. -/
theorem capturesSound_change {q : CaptureRevision} {change : CaptureChange}
    {answer : CaptureAnswer} {projection : CaptureItemProjection}
    (h : s.CapturesSound) (hchange : ChangeStep s.db q answer s'.db)
    (hmutated : answer.mutated? = some projection)
    (hplace : OnlyMoves s s' i (.capture (.change q change) (.answered (.ok answer)))) :
    s'.CapturesSound := by
  obtain ⟨item, new, hwrote, hprojection⟩ := hchange.wrote h.rows hmutated
  have hlater := hchange.later
  have hitem := hwrote.expected.found
  /- Of the requests that have changed the capture only this one was told its revision. -/
  have hmoved : ∀ {j r it}, s'.Mutated j r it → j = i ∧ r = q ∨ j ≠ i ∧ s.Mutated j r it := by
    intro j r it ⟨ch, a, ha, hit⟩
    rcases captureAnswer_moved hplace ha with ⟨hj, hr, -⟩ | ⟨hj, hold⟩
    · exact .inl ⟨hj, (CaptureRequest.change.inj hr).1⟩
    · exact .inr ⟨hj, ch, a, hold, hit⟩
  have hbehind : ∀ {j r it}, s.Mutated j r it → r.itemId = q.itemId → r.revision ≠ q.revision := by
    intro j r it hj hid
    obtain ⟨c, hc, hlt⟩ := h.passed j r it hj
    rw [hid, hitem] at hc
    obtain rfl := Option.some.inj hc
    rw [hwrote.expected.revision] at hlt
    exact Nat.ne_of_lt hlt
  refine ⟨hwrote.rows h.rows, fun j k r r' it it' hj hk hid hrevision => ?_,
    fun j r result hj => ?_, fun j r result hj => ?_, fun j r it hj => ?_⟩
  · rcases hmoved hj with ⟨hji, rfl⟩ | ⟨hji, hj⟩
    · rcases hmoved hk with ⟨hki, -⟩ | ⟨hki, hk⟩
      · rw [hji, hki]
      · exact absurd hrevision.symm (hbehind hk hid.symm)
    · rcases hmoved hk with ⟨hki, rfl⟩ | ⟨hki, hk⟩
      · exact absurd hrevision (hbehind hj hid)
      · exact h.once j k r r' it it' hj hk hid hrevision
  · obtain ⟨ch, a, ha, hresult⟩ := hj
    rcases captureAnswer_moved hplace ha with ⟨-, hr, ha⟩ | ⟨-, hold⟩
    · obtain ⟨rfl, -⟩ := CaptureRequest.change.inj hr
      obtain rfl := Except.ok.inj (CapturePhase.answered.inj ha)
      exact hchange.holds hresult
    · exact (h.given j r result ⟨ch, a, hold, hresult⟩).later hlater
  · obtain ⟨ch, ha⟩ := hj
    rcases captureAnswer_moved hplace ha with ⟨-, hr, ha⟩ | ⟨-, hold⟩
    · obtain ⟨rfl, -⟩ := CaptureRequest.change.inj hr
      obtain rfl := Except.ok.inj (CapturePhase.answered.inj ha)
      exact hchange.yielded
    · exact Converted.later hlater (h.yielded j r result ⟨ch, hold⟩)
  · rcases hmoved hj with ⟨-, rfl⟩ | ⟨-, hj⟩
    · refine ⟨new, hwrote.found, ?_⟩
      rw [hwrote.revision, hwrote.expected.revision]
      exact Nat.lt_succ_self _
    · obtain ⟨c, hc, hlt⟩ := h.passed j r it hj
      exact Library.Mutated.later hlater hc hlt

theorem capturesSound_step (hstep : (library sha256).next s l = some s') (h : s.CapturesSound) :
    s'.CapturesSound := by
  cases inbox_step hstep with
  | aside hcaptures hgrows hclients => exact capturesSound_aside h hcaptures hgrows hclients
  | @moved i q phase phase' hclient hopen hmove hplace =>
      have hlater := hmove.later
      generalize hdb : s'.db = db' at hmove
      cases hmove with
      | stopped =>
          exact capturesSound_quiet h (hdb ▸ h.rows) hlater hplace (fun a ha => nomatch ha)
            fun r change result _ a ha => nomatch ha
      | invalid hcheck =>
          exact capturesSound_quiet h (hdb ▸ h.rows) hlater hplace (fun a ha => nomatch ha)
            fun r change result _ a ha => nomatch ha
      | created hcheck hfrom hkey hid =>
          refine capturesSound_quiet h ?_ hlater hplace (fun a ha => ?_)
            fun r change result hq => nomatch hq
          · rw [hdb]
            obtain ⟨-, -, hscope, -, -, hproject⟩ := checkCreate_spec _ hcheck
            refine Fresh.rows h.rows hfrom.fresh ?_ hid (hfrom.keyHash ▸ hkey)
            rw [hfrom.projectId, hproject]
            exact hscope
          · obtain rfl := Except.ok.inj (CapturePhase.answered.inj ha)
            rfl
      | contended hcheck hkey =>
          exact capturesSound_quiet h (hdb ▸ h.rows) hlater hplace (fun a ha => nomatch ha)
            fun r change result _ a ha => nomatch ha
      | lost hnone =>
          exact capturesSound_quiet h (hdb ▸ h.rows) hlater hplace (fun a ha => nomatch ha)
            fun r change result _ a ha => nomatch ha
      | conflict horiginal hne =>
          exact capturesSound_quiet h (hdb ▸ h.rows) hlater hplace (fun a ha => nomatch ha)
            fun r change result _ a ha => nomatch ha
      | replayed horiginal heq =>
          refine capturesSound_quiet h (hdb ▸ h.rows) hlater hplace (fun a ha => ?_)
            fun r change result hq => nomatch hq
          obtain rfl := Except.ok.inj (CapturePhase.answered.inj ha)
          rfl
      | refused =>
          exact capturesSound_quiet h (hdb ▸ h.rows) hlater hplace (fun a ha => nomatch ha)
            fun r change result _ a ha => nomatch ha
      | @changed q change answer db' hchange =>
          subst hdb
          cases hmutated : answer.mutated? with
          | some projection => exact capturesSound_change h hchange hmutated hplace
          | none =>
              have hrows : CaptureRows s'.db := hchange.rows h.rows
              refine capturesSound_quiet h hrows hlater hplace (fun a ha => ?_)
                fun r change result hq a ha hresult => ?_
              · obtain rfl := Except.ok.inj (CapturePhase.answered.inj ha)
                exact hmutated
              · obtain rfl := Except.ok.inj (CapturePhase.answered.inj ha)
                obtain ⟨rfl, -⟩ := CaptureRequest.change.inj hq
                exact hchange.holds hresult

theorem capturesSound_reachable (h : (library sha256).Reachable s) : s.CapturesSound := by
  refine h.invariant ?_ fun s l s' _ _ hs hstep => capturesSound_step hstep hs
  rintro s rfl
  exact ⟨⟨.nil, .nil, by simp, by simp, by simp, by simp, by simp⟩,
    fun i j q q' item item' ⟨_, _, h, _⟩ => (nomatch h),
    fun i q result ⟨_, _, h, _⟩ => (nomatch h), fun i q result ⟨_, h⟩ => (nomatch h),
    fun i q item ⟨_, _, h, _⟩ => (nomatch h)⟩

end Knowledge

end SecondBrain
