import SecondBrain.Knowledge.Captures
import SecondBrain.Knowledge.Writes

/-!
# What a step of a capture request does

A creation inserts a capture, or finds its key taken. A change that goes through
writes the one capture it names, at the revision it was told and in a state that is
not processed, and makes its revision one more. A conversion also adds the source,
and one of a capture that was made a source before writes nothing. All that is said
of captures is said of these steps.
-/

namespace SecondBrain

open Lib

namespace Knowledge

variable {sha256 : Sha256} {db db' : Store} {q : CaptureRevision} {item new : CaptureItem}
  {d : Draw}

/-! ## Rows -/

/-- A capture as it is created. -/
structure CaptureItem.Fresh (item : CaptureItem) : Prop where
  state : item.state = .pending
  revision : item.revision = 1
  processedAt : item.processedAt = none
  resultingSourceId : item.resultingSourceId = none

/-- The row that a change is about, as it found it. -/
structure Expected (db : Store) (q : CaptureRevision) (item : CaptureItem) : Prop where
  found : db.capture? q.itemId = some item
  scope : item.projectId = q.scope
  revision : item.revision = q.revision

theorem Expected.id_eq (h : Expected db q item) : item.id = q.itemId := (lookup_mem h.found).2

theorem lockScoped_spec : Ensures (lockScoped db q) fun item =>
    db.capture? q.itemId = some item ∧ item.projectId = q.scope := by
  unfold lockScoped
  refine .ite (fun _ => .error _) fun _ => ?_
  split
  · exact .error _
  · next item h =>
      obtain ⟨hfound, hscope⟩ := Option.filter_eq_some_iff.mp h
      exact Ensures.ok_iff.mpr ⟨hfound, by simpa using hscope⟩

theorem lockExpected_spec {expected : CaptureState} : Ensures (lockExpected db q expected)
    fun item => Expected db q item ∧ item.state = expected := by
  unfold lockExpected
  refine lockScoped_spec.bind fun item h => ?_
  by_cases hrevision : item.revision = q.revision
  · by_cases hstate : item.state = expected
    · simpa [hrevision, hstate] using
        (⟨h.1, h.2, hrevision⟩ : Expected db q item)
    · simp [hrevision, hstate]
      exact .error _
  · simp [hrevision]
    exact .error _

/-- What a change makes of its row, the revision left out. -/
structure Rewritten (item new : CaptureItem) : Prop where
  id : new.id = item.id
  createdAt : new.createdAt = item.createdAt
  keyHash : new.idempotencyKeyHash = item.idempotencyKeyHash
  fingerprint : new.requestFingerprint = item.requestFingerprint

/-- The row as a change leaves it. -/
def CaptureItem.next (item : CaptureItem) (now : Instant) : CaptureItem :=
  { item with revision := item.revision + 1, updatedAt := now }

theorem finishMutation_spec {now : Instant} : Ensures (finishMutation db item now) fun x =>
    x.1 = (item.next now).toCaptureItemProjection ∧ x.2 = db.putCapture (item.next now) := by
  unfold finishMutation
  exact .ite (fun _ => .error _) fun _ => Ensures.ok_iff.mpr ⟨rfl, rfl⟩

/-- What a change of a capture that is no conversion writes. -/
structure Changed (db : Store) (q : CaptureRevision) (answer : CaptureItemProjection)
    (item new : CaptureItem) (db' : Store) : Prop where
  expected : Expected db q item
  rewritten : Rewritten item new
  before : item.state ≠ .processed
  after : new.state ≠ .processed
  revision : new.revision = item.revision + 1
  processedAt : new.processedAt = item.processedAt
  resultingSourceId : new.resultingSourceId = item.resultingSourceId
  projectId : db.hasProject new.projectId = true ∨ new.projectId = item.projectId
  answer_eq : answer = new.toCaptureItemProjection
  store : db' = db.putCapture new

theorem editCapture_spec {content : String} : Ensures (editCapture db q content d.now) fun x =>
    ∃ item new, Changed db q x.1 item new x.2 := by
  unfold editCapture
  refine lockExpected_spec.bind fun item h => .bind_any fun content _ => ?_
  refine finishMutation_spec.mono fun x hx => ?_
  have hpending : item.state ≠ .processed := by
    rw [h.2]
    decide
  exact ⟨item, CaptureItem.next { item with content := content } d.now, h.1,
    ⟨rfl, rfl, rfl, rfl⟩, hpending, hpending, rfl, rfl, rfl, .inr rfl, hx.1, hx.2⟩

theorem reassignCapture_spec {target : Option Uuid} :
    Ensures (reassignCapture db q target d.now) fun x =>
      ∃ item new, Changed db q x.1 item new x.2 := by
  unfold reassignCapture
  refine .ite (fun _ => .error _) fun hproject => lockExpected_spec.bind fun item h => ?_
  refine finishMutation_spec.mono fun x hx => ?_
  have hpending : item.state ≠ .processed := by
    rw [h.2]
    decide
  have hscope : db.hasProject target = true := by simpa using hproject
  exact ⟨item, CaptureItem.next { item with projectId := target } d.now, h.1,
    ⟨rfl, rfl, rfl, rfl⟩, hpending, hpending, rfl, rfl, rfl, .inl hscope, hx.1, hx.2⟩

theorem transitionCapture_spec {expected target : CaptureState} (hexpected : expected ≠ .processed)
    (htarget : target ≠ .processed) :
    Ensures (transitionCapture db q expected target d.now) fun x =>
      ∃ item new, Changed db q x.1 item new x.2 := by
  unfold transitionCapture
  refine lockExpected_spec.bind fun item h => ?_
  refine finishMutation_spec.mono fun x hx => ?_
  exact ⟨item, CaptureItem.next { item with state := target } d.now, h.1,
    ⟨rfl, rfl, rfl, rfl⟩, h.2 ▸ hexpected, htarget, rfl, rfl, rfl, .inr rfl, hx.1, hx.2⟩

/-! ## Conversion -/

theorem createSource_spec {create : SourceCreate} {id : Uuid} {now : Instant}
    (h : createSource db create id now = some db') :
    db.source? id = none ∧ db' = { db with sources := db.sources ++ [create.source id now] } := by
  unfold createSource at h
  split at h
  · next hok =>
      simp only [Bool.and_eq_true] at hok
      exact ⟨Option.isNone_iff_eq_none.mp hok.1.1.1.1, (Option.some.inj h).symm⟩
  · cases h

/-- What a conversion writes: a new source with its document, and the capture that
names it. -/
structure Converted (db : Store) (q : CaptureRevision) (answer : CaptureConversionResult)
    (item new : CaptureItem) (db' : Store) : Prop where
  expected : Expected db q item
  rewritten : Rewritten item new
  pending : item.state = .pending
  after : new.state = .processed
  revision : new.revision = item.revision + 1
  content : new.content = item.content
  projectId : new.projectId = item.projectId
  processedAt : new.processedAt.isSome = true
  resultingSourceId : new.resultingSourceId = some answer.source.id
  answer_eq : answer.item = new.toCaptureItemProjection
  fresh : db.source? answer.source.id = none
  store : ∃ document chunks, db' =
    { db with
      sources := db.sources ++ [answer.source]
      documents := db.documents ++ [document]
      chunks := chunks
      captures := replace (·.id) new db.captures }
  named : answer.source.sourceType = "capture"

theorem convertPending_spec (h : Expected db q item) (hpending : item.state = .pending) :
    Ensures (convertPending sha256 db item d) fun x =>
      ∃ new, Converted db q x.1 item new x.2 := by
  unfold convertPending
  dsimp only
  split
  · exact .error _
  · exact .error _
  next created chunks hcreated hchunks =>
  obtain ⟨hfresh, rfl⟩ := createSource_spec hcreated
  split
  · exact .error _
  next outcome stored hstored =>
  obtain ⟨chunks, rfl⟩ := writeDocument_created hstored
  split
  · exact .error _
  next projection db' hfinish =>
  obtain ⟨hprojection, hdb'⟩ := finishMutation_spec _ hfinish
  refine Ensures.ok_iff.mpr ⟨(item.processed (d.ids 0) d.now).next d.now,
    ⟨h, ⟨rfl, rfl, rfl, rfl⟩, hpending, rfl, rfl, rfl, rfl, rfl, rfl,
    hprojection, hfresh, ?_, rfl⟩⟩
  exact ⟨_, chunks, hdb'⟩

/-- What a conversion finds that was done before. -/
structure Resolved (db : Store) (q : CaptureRevision) (answer : CaptureConversionResult)
    (item : CaptureItem) : Prop where
  found : db.capture? q.itemId = some item
  scope : item.projectId = q.scope
  processed : item.state = .processed
  revision : q.revision + 1 = item.revision ∨ q.revision = item.revision
  answer_eq : answer.item = item.toCaptureItemProjection
  source : item.resultingSourceId = some answer.source.id
  source_found : db.source? answer.source.id = some answer.source

theorem conversionOf_spec {scope : Option Uuid} : Ensures (conversionOf db item scope) fun r =>
    r.item = item.toCaptureItemProjection ∧ item.resultingSourceId = some r.source.id ∧
      db.source? r.source.id = some r.source := by
  unfold conversionOf
  split
  · exact .error _
  next sourceId hsource =>
  split
  · exact .error _
  next source hfound =>
  have hlookup := (Option.filter_eq_some_iff.mp hfound).1
  have hid : source.id = sourceId := (lookup_mem hlookup).2
  refine Ensures.ok_iff.mpr ⟨rfl, ?_, ?_⟩
  · rw [hsource, hid]
  · rw [hid]
    exact hlookup

/-- What a change that goes through does, and what it answers. -/
inductive ChangeStep (db : Store) (q : CaptureRevision) : CaptureAnswer → Store → Prop
  | changed {answer : CaptureItemProjection} {item new : CaptureItem} {db' : Store} :
      Changed db q answer item new db' → ChangeStep db q (.changed answer) db'
  | converted {answer : CaptureConversionResult} {item new : CaptureItem} {db' : Store} :
      Converted db q answer item new db' → ChangeStep db q (.converted answer) db'
  | resolved {answer : CaptureConversionResult} {item : CaptureItem} :
      Resolved db q answer item → ChangeStep db q (.resolved answer) db

theorem convertCapture_spec : Ensures (convertCapture sha256 db q d) fun x =>
    ChangeStep db q x.1 x.2 := by
  unfold convertCapture
  refine lockScoped_spec.bind fun item h => ?_
  by_cases hprocessed : item.state = .processed
  · rw [if_pos hprocessed]
    by_cases hrevision : q.revision + 1 ≠ item.revision ∧ q.revision ≠ item.revision
    · simp [hrevision]
      exact .error _
    · simp only [if_neg hrevision]
      refine conversionOf_spec.bind fun result hr => Ensures.pure_iff.mpr ?_
      refine .resolved (show Resolved db q _ item from
        ⟨h.1, h.2, hprocessed, ?_, hr.1, hr.2.1, hr.2.2⟩)
      omega
  · rw [if_neg hprocessed]
    by_cases hrevision : item.revision = q.revision
    · by_cases hpending : item.state = .pending
      · simp only [hrevision, hpending, ne_eq, not_true_eq_false, if_false]
        refine (convertPending_spec ⟨h.1, h.2, hrevision⟩ hpending).bind fun x hx =>
          Ensures.pure_iff.mpr ?_
        obtain ⟨new, hx⟩ := hx
        exact .converted hx
      · simp [hrevision, hpending]
        exact .error _
    · simp [hrevision]
      exact .error _

theorem changeCapture_spec {change : CaptureChange} :
    Ensures (changeCapture sha256 db q d change) fun x => ChangeStep db q x.1 x.2 := by
  cases change with
  | edit content =>
      refine editCapture_spec.bind fun x hx => Ensures.pure_iff.mpr ?_
      obtain ⟨item, new, hx⟩ := hx
      exact .changed hx
  | reassign target =>
      refine reassignCapture_spec.bind fun x hx => Ensures.pure_iff.mpr ?_
      obtain ⟨item, new, hx⟩ := hx
      exact .changed hx
  | discard =>
      refine (transitionCapture_spec (by decide) (by decide)).bind fun x hx =>
        Ensures.pure_iff.mpr ?_
      obtain ⟨item, new, hx⟩ := hx
      exact .changed hx
  | restore =>
      refine (transitionCapture_spec (by decide) (by decide)).bind fun x hx =>
        Ensures.pure_iff.mpr ?_
      obtain ⟨item, new, hx⟩ := hx
      exact .changed hx
  | convert => exact convertCapture_spec

/-! ## Creation -/

theorem checkCreate_spec {q : CaptureCreate} : Ensures (checkCreate sha256 db q) fun x =>
    normalizeCaptureContent q.content = .ok x.content ∧
      validateIdempotencyKey q.idempotencyKey = .ok q.idempotencyKey ∧
      db.hasProject q.projectId = true ∧ x.keyHash = sha256 q.idempotencyKey ∧
      x.fingerprint = requestFingerprint sha256 x.content q.projectId ∧ x.projectId = q.projectId := by
  unfold checkCreate
  refine .bind_any fun content hcontent => .bind_any fun key hkey => ?_
  have hsame : key = q.idempotencyKey := by
    unfold validateIdempotencyKey at hkey
    split at hkey
    · exact (Except.ok.inj hkey).symm
    · cases hkey
  subst hsame
  refine .ite (fun hproject => Ensures.pure_iff.mpr ?_) fun _ => .throw _
  exact ⟨hcontent, hkey, hproject, rfl, rfl, rfl⟩

/-- A creation that was checked, as its row has it. -/
structure CreatedFrom (x : CheckedCreate) (item : CaptureItem) : Prop where
  fresh : item.Fresh
  keyHash : item.idempotencyKeyHash = x.keyHash
  fingerprint : item.requestFingerprint = x.fingerprint
  projectId : item.projectId = x.projectId

theorem item_createdFrom (x : CheckedCreate) (id : Uuid) (now : Instant) :
    CreatedFrom x (x.item id now) := ⟨⟨rfl, rfl, rfl, rfl⟩, rfl, rfl, rfl⟩

/-- What a step of a request about a capture does. -/
inductive CaptureStep (sha256 : Sha256) (db : Store) :
    CaptureRequest → CapturePhase → CapturePhase → Store → Prop
  | stopped {q : CaptureRequest} {phase : CapturePhase} :
      CaptureStep sha256 db q phase (.answered (.error .databaseUnavailable)) db
  | invalid {q : CaptureCreate} {e : CaptureError} :
      checkCreate sha256 db q = .error e →
      CaptureStep sha256 db (.create q) .arrived (.answered (.error e)) db
  | created {q : CaptureCreate} {x : CheckedCreate} {item : CaptureItem} :
      checkCreate sha256 db q = .ok x → CreatedFrom x item → db.captureOfKey x.keyHash = none →
      db.capture? item.id = none →
      CaptureStep sha256 db (.create q) .arrived
        (.answered (.ok (.created item.toCaptureItemProjection)))
        { db with captures := db.captures ++ [item] }
  | contended {q : CaptureCreate} {x : CheckedCreate} :
      checkCreate sha256 db q = .ok x → (db.captureOfKey x.keyHash).isSome = true →
      CaptureStep sha256 db (.create q) .arrived (.contended x.keyHash x.fingerprint) db
  | lost {q : CaptureCreate} {keyHash fingerprint message : String} :
      db.captureOfKey keyHash = none →
      CaptureStep sha256 db (.create q) (.contended keyHash fingerprint)
        (.answered (.error (.raised message))) db
  | conflict {q : CaptureCreate} {keyHash fingerprint : String} {original : CaptureItem} :
      db.captureOfKey keyHash = some original → original.requestFingerprint ≠ fingerprint →
      CaptureStep sha256 db (.create q) (.contended keyHash fingerprint)
        (.answered (.error .idempotencyConflict)) db
  | replayed {q : CaptureCreate} {keyHash fingerprint : String} {original : CaptureItem} :
      db.captureOfKey keyHash = some original → original.requestFingerprint = fingerprint →
      CaptureStep sha256 db (.create q) (.contended keyHash fingerprint)
        (.answered (.ok (.replayed original.toCaptureItemProjection))) db
  | refused {q : CaptureRevision} {change : CaptureChange} {e : CaptureError} :
      CaptureStep sha256 db (.change q change) .arrived (.answered (.error e)) db
  | changed {q : CaptureRevision} {change : CaptureChange} {answer : CaptureAnswer} {db' : Store} :
      ChangeStep db q answer db' →
      CaptureStep sha256 db (.change q change) .arrived (.answered (.ok answer)) db'

theorem advanceCapture_step {q : CaptureRequest} {phase phase' : CapturePhase}
    (h : advanceCapture sha256 db d q phase = some (phase', db')) :
    CaptureStep sha256 db q phase phase' db' := by
  cases q with
  | create q =>
      cases phase with
      | answered answer => cases h
      | contended keyHash fingerprint =>
          unfold advanceCapture replayCreate at h
          dsimp only at h
          split at h
          · next hnone =>
              obtain ⟨rfl, rfl⟩ := Prod.mk.inj (Option.some.inj h)
              exact .lost hnone
          next original horiginal =>
          split at h
          · next hne =>
              obtain ⟨rfl, rfl⟩ := Prod.mk.inj (Option.some.inj h)
              exact .conflict horiginal hne
          · next heq =>
              obtain ⟨rfl, rfl⟩ := Prod.mk.inj (Option.some.inj h)
              exact .replayed horiginal (by simpa using heq)
      | arrived =>
          unfold advanceCapture at h
          dsimp only at h
          split at h
          · next e he =>
              obtain ⟨rfl, rfl⟩ := Prod.mk.inj (Option.some.inj h)
              exact .invalid he
          next x hx =>
          unfold insertCaptureOnNewKey at h
          by_cases hkey : (db.captureOfKey (x.item (d.ids 0) d.now).idempotencyKeyHash).isSome
          · rw [if_pos hkey] at h
            obtain ⟨rfl, rfl⟩ := Prod.mk.inj (Option.some.inj h)
            exact .contended hx hkey
          rw [if_neg hkey] at h
          by_cases hid : (db.capture? (x.item (d.ids 0) d.now).id).isSome
          · rw [if_pos hid] at h
            obtain ⟨rfl, rfl⟩ := Prod.mk.inj (Option.some.inj h)
            exact .stopped
          rw [if_neg hid] at h
          obtain ⟨rfl, rfl⟩ := Prod.mk.inj (Option.some.inj h)
          rw [Option.not_isSome_iff_eq_none] at hkey hid
          exact .created hx (item_createdFrom x _ _) hkey hid
  | change q change =>
      cases phase with
      | answered answer => cases h
      | contended keyHash fingerprint => cases h
      | arrived =>
          unfold advanceCapture settleCapture at h
          dsimp only at h
          split at h
          · obtain ⟨rfl, rfl⟩ := Prod.mk.inj (Option.some.inj h)
            exact .refused
          · next hchange =>
              obtain ⟨rfl, rfl⟩ := Prod.mk.inj (Option.some.inj h)
              exact .changed (changeCapture_spec _ hchange)

end Knowledge

end SecondBrain
