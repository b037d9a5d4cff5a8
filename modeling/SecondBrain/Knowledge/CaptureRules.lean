import SecondBrain.Knowledge.CaptureLife

/-!
# Captures change one revision at a time

In every state of every run, and of every step from there: a capture is written only by
a request that has found it at the revision it was told, in the scope it was told and
not processed, and of the requests that were told one revision only one goes through.
The others, and those that ask once more for the source of a processed capture, write
nothing.
-/

namespace SecondBrain

open Lib

namespace Knowledge

variable {sha256 : Sha256} {s s' : Library} {l : LibraryLabel} {i j : Nat}

/-! ## What a step answers -/

/-- The step has answered the request. -/
def AnsweredNow (s s' : Library) (i : Nat) (q : CaptureRequest)
    (answer : Except CaptureError CaptureAnswer) : Prop :=
  s.captureAnswer? i = none ∧ s'.captureAnswer? i = some (q, answer)

theorem answeredNow_step {q : CaptureRequest} {answer : Except CaptureError CaptureAnswer}
    (hstep : (library sha256).next s l = some s') (h : AnsweredNow s s' i q answer) :
    ∃ phase, s.clients[i]? = some (.capture q phase) ∧
      CaptureStep sha256 s.db q phase (.answered answer) s'.db := by
  have hclient := captureAnswer_eq.mp h.2
  cases inbox_step hstep with
  | aside hcaptures hgrows hclients =>
      rcases hclients i q _ hclient with hold | hnew
      · have hanswered := h.1
        rw [captureAnswer_eq.mpr hold] at hanswered
        cases hanswered
      · cases hnew
  | moved hbefore hopen hmove hplace =>
      rcases hplace.client hclient with ⟨rfl, hc⟩ | ⟨-, hold⟩
      · obtain ⟨rfl, rfl⟩ := Client.capture.inj hc
        exact ⟨_, hbefore, hmove⟩
      · have hanswered := h.1
        rw [captureAnswer_eq.mpr hold] at hanswered
        cases hanswered

/-- A request that is refused leaves everything as it was. -/
theorem CaptureStep.refused_db {q : CaptureRequest} {phase : CapturePhase} {db db' : Store}
    {e : CaptureError} (h : CaptureStep sha256 db q phase (.answered (.error e)) db') :
    db' = db := by
  cases h with
  | stopped | invalid | lost | conflict | refused => rfl

/-- A capture at the revision and in the scope that were told, and as it is left. -/
structure Passed (db : Store) (q : CaptureRevision) (item : CaptureItemProjection)
    (db' : Store) : Prop where
  passed : ∃ c c', db.capture? q.itemId = some c ∧ db'.capture? q.itemId = some c' ∧
    c.projectId = q.scope ∧ c.revision = q.revision ∧ c.state ≠ .processed ∧
    c'.revision = c.revision + 1 ∧ item = c'.toCaptureItemProjection
  others : ∀ id, id ≠ q.itemId → db'.capture? id = db.capture? id

theorem Wrote.passed {db db' : Store} {q : CaptureRevision} {item new : CaptureItem}
    (h : Wrote db q item new db') : Passed db q new.toCaptureItemProjection db' := by
  refine ⟨⟨item, new, h.expected.found, h.found, h.expected.scope, h.expected.revision, h.before,
    h.revision, rfl⟩, fun id hid => ?_⟩
  unfold Store.capture?
  rw [h.captures]
  have hne : id ≠ new.id := by
    rw [h.rewritten.id, h.expected.id_eq]
    exact hid
  exact lookup_replace_ne hne

theorem CaptureStep.passed {q : CaptureRevision} {change : CaptureChange} {phase : CapturePhase}
    {db db' : Store} {answer : CaptureAnswer} {item : CaptureItemProjection}
    (h : CaptureStep sha256 db (.change q change) phase (.answered (.ok answer)) db')
    (hrows : CaptureRows db) (hmutated : answer.mutated? = some item) :
    Passed db q item db' := by
  cases h with
  | changed hchange =>
      obtain ⟨old, new, hwrote, rfl⟩ := hchange.wrote hrows hmutated
      exact hwrote.passed

/-- A capture that is not the same after a step was changed by the request that has moved. -/
theorem capture_step (hstep : (library sha256).next s l = some s') {id : Uuid} {c : CaptureItem}
    (hc : s.db.capture? id = some c) (hrows : CaptureRows s.db) :
    s'.db.capture? id = some c ∨ ∃ i q change answer item, q.itemId = id ∧
      AnsweredNow s s' i (.change q change) (.ok answer) ∧ answer.mutated? = some item := by
  cases inbox_step hstep with
  | aside hcaptures =>
      left
      unfold Store.capture?
      rw [hcaptures]
      exact hc
  | @moved i q phase phase' hclient hopen hmove hplace =>
      have hnow : ∀ answer, phase' = .answered answer → AnsweredNow s s' i q answer := by
        intro answer hanswer
        refine ⟨?_, captureAnswer_eq.mpr (by rw [hplace.self, hanswer])⟩
        cases hold : s.captureAnswer? i with
        | none => rfl
        | some x =>
            have hx := captureAnswer_eq.mp (show s.captureAnswer? i = some (x.1, x.2) from hold)
            rw [hclient] at hx
            obtain ⟨-, rfl⟩ := Client.capture.inj (Option.some.inj hx)
            exact absurd rfl (hopen _)
      generalize hdb : s'.db = db' at hmove ⊢
      cases hmove with
      | stopped | invalid | contended | lost | conflict | replayed | refused => exact .inl hc
      | created => exact .inl (lookup_append_of_some hc _)
      | @changed q change answer db' hchange =>
          cases hmutated : answer.mutated? with
          | none =>
              cases hchange with
              | changed | converted => cases hmutated
              | resolved => exact .inl hc
          | some item =>
              by_cases hid : q.itemId = id
              · exact .inr ⟨i, q, change, answer, item, hid, hnow _ rfl, hmutated⟩
              · obtain ⟨old, new, hwrote, -⟩ := hchange.wrote hrows hmutated
                left
                rw [hwrote.passed.others id fun heq => hid heq.symm]
                exact hc

/-! ## Conversion again -/

/-- The source of a processed capture is found in the capture's scope. -/
theorem sourceForScope_processed (hrows : CaptureRows s.db) {c : CaptureItem} {x : Uuid}
    (hc : c ∈ s.db.captures) (hx : c.resultingSourceId = some x) :
    ∃ source, source.id = x ∧ s.db.sourceForScope x (.exactly c.projectId) = some source := by
  obtain ⟨source, hsource⟩ := Option.isSome_iff_exists.mp (hrows.bound c hc x hx)
  have hprocessed : c.state = .processed := by
    rw [hrows.resultingSourceId c hc, hx]
    rfl
  have hat := (hrows.processedAt c hc).mp hprocessed
  have hbinding : c ∈ s.db.bindings x := List.mem_filter.mpr ⟨hc, by simp [hx]⟩
  have hgrants : s.db.grantsAccess (.exactly c.projectId) x = true := by
    have hany : (s.db.bindings x).any
        (fun b => b.isProcessed && b.projectId == c.projectId) = true :=
      List.any_eq_true.mpr ⟨c, hbinding, by simp [CaptureItem.isProcessed, hprocessed, hat]⟩
    simp only [Store.grantsAccess, hany, Bool.or_true]
  exact ⟨source, (lookup_mem hsource).2, Option.filter_eq_some_iff.mpr ⟨hsource, hgrants⟩⟩

/-- A conversion of a capture that was made a source names that source, at the revision of
the capture and at the one before. -/
theorem convertCapture_again (hrows : CaptureRows s.db) {q : CaptureRevision} {d : Draw}
    {c : CaptureItem} (hc : s.db.capture? q.itemId = some c) (hprocessed : c.state = .processed)
    (hscope : c.projectId = q.scope)
    (hrevision : q.revision = c.revision ∨ q.revision + 1 = c.revision) :
    ∃ source, c.resultingSourceId = some source.id ∧ convertCapture sha256 s.db q d =
      .ok (.resolved ⟨c.toCaptureItemProjection, source⟩, s.db) := by
  have hmem : c ∈ s.db.captures := (lookup_mem hc).1
  obtain ⟨x, hx⟩ := Option.isSome_iff_exists.mp ((hrows.resultingSourceId c hmem).mp hprocessed)
  obtain ⟨source, rfl, hfound⟩ := sourceForScope_processed hrows hmem hx
  refine ⟨source, hx, ?_⟩
  have hproject : s.db.hasProject q.scope = true := hscope ▸ hrows.projectId c hmem
  have hlock : lockScoped s.db q = .ok c := by
    have hscoped : s.db.scopedCapture q.itemId q.scope = some c :=
      Option.filter_eq_some_iff.mpr ⟨hc, by simp [hscope]⟩
    unfold lockScoped
    rw [hproject, hscoped]
    rfl
  have hresult : conversionOf s.db c q.scope =
      .ok ⟨c.toCaptureItemProjection, source⟩ := by
    unfold conversionOf
    rw [hx]
    dsimp only
    rw [← hscope, hfound]
  have hnear : ¬(q.revision + 1 ≠ c.revision ∧ q.revision ≠ c.revision) := by omega
  unfold convertCapture
  rw [hlock]
  show (if c.state = .processed then _ else _) = _
  rw [if_pos hprocessed, if_neg hnear, hresult]
  rfl

/-! ## The rules -/

/-- What is so of the captures of a state, whatever was asked for. -/
structure CapturesHeld (s : Library) : Prop where
  processedAt : ∀ c ∈ s.db.captures, c.state = .processed ↔ c.processedAt.isSome = true
  resultingSourceId : ∀ c ∈ s.db.captures,
    c.state = .processed ↔ c.resultingSourceId.isSome = true
  /-- A source is bound to one capture. -/
  single : ∀ c ∈ s.db.captures, ∀ c' ∈ s.db.captures, ∀ x,
    c.resultingSourceId = some x → c'.resultingSourceId = some x → c = c'
  /-- Of the requests that were told one revision, one at most has changed the capture. -/
  once : ∀ i j q q' item item', s.Mutated i q item → s.Mutated j q' item' →
    q.itemId = q'.itemId → q.revision = q'.revision → i = j
  /-- A capture was made a source by one request at most. -/
  yields : ∀ i j q q' result result', s.Converted i q result → s.Converted j q' result' →
    q.itemId = q'.itemId → i = j
  /-- Whoever asked for the source of a capture was given the same one. -/
  same : ∀ i j q q' result result', s.GivenSource i q result → s.GivenSource j q' result' →
    q.itemId = q'.itemId → result.source = result'.source

/-- What a step from a state makes of the captures. -/
structure CapturesMoved (sha256 : Sha256) (s s' : Library) : Prop where
  /-- A change that goes through passes from the revision it was told to the next one. -/
  changed : ∀ i q change answer item, AnsweredNow s s' i (.change q change) (.ok answer) →
    answer.mutated? = some item → Passed s.db q item s'.db
  /-- A capture is written by such a change alone. -/
  kept : ∀ id c, s.db.capture? id = some c → s'.db.capture? id = some c ∨
    ∃ i q change answer item, q.itemId = id ∧
      AnsweredNow s s' i (.change q change) (.ok answer) ∧ answer.mutated? = some item
  refused : ∀ i q e, AnsweredNow s s' i q (.error e) → s'.db = s.db
  /-- A conversion once more writes nothing. -/
  resolved : ∀ i q change result, AnsweredNow s s' i (.change q change) (.ok (.resolved result)) →
    s'.db = s.db ∧ ∃ c, s.db.capture? q.itemId = some c ∧ c.state = .processed ∧
      (q.revision = c.revision ∨ q.revision + 1 = c.revision) ∧
      c.resultingSourceId = some result.source.id

theorem capturesMoved (hstep : (library sha256).next s l = some s') (h : s.CapturesSound) :
    CapturesMoved sha256 s s' := by
  refine ⟨fun i q change answer item hnow hmutated => ?_,
    fun id c hc => capture_step hstep hc h.rows, fun i q e hnow => ?_,
    fun i q change result hnow => ?_⟩
  · obtain ⟨phase, -, hmove⟩ := answeredNow_step hstep hnow
    exact hmove.passed h.rows hmutated
  · obtain ⟨phase, -, hmove⟩ := answeredNow_step hstep hnow
    exact hmove.refused_db
  · obtain ⟨phase, -, hmove⟩ := answeredNow_step hstep hnow
    generalize hdb : s'.db = db' at hmove ⊢
    cases hmove with
    | changed hchange =>
        cases hchange with
        | resolved hr =>
            refine ⟨rfl, _, hr.found, hr.processed, ?_, hr.source⟩
            exact hr.revision.symm

theorem captures_held (h : s.CapturesSound) : CapturesHeld s := by
  refine ⟨h.rows.processedAt, h.rows.resultingSourceId, h.rows.single, h.once,
    fun i j q q' result result' hi hj hid => ?_, fun i j q q' result result' hi hj hid => ?_⟩
  · obtain ⟨change, hi'⟩ := hi
    obtain ⟨change', hj'⟩ := hj
    obtain ⟨c, hc, -, hrevision⟩ := h.yielded i q result ⟨change, hi'⟩
    obtain ⟨c', hc', -, hrevision'⟩ := h.yielded j q' result' ⟨change', hj'⟩
    rw [hid, hc'] at hc
    obtain rfl := Option.some.inj hc
    refine h.once i j q q' result.item result'.item ⟨change, _, hi', rfl⟩ ⟨change', _, hj', rfl⟩
      hid ?_
    omega
  · obtain ⟨c, hc, -, hsource, hfound⟩ := h.given i q result hi
    obtain ⟨c', hc', -, hsource', hfound'⟩ := h.given j q' result' hj
    rw [hid, hc'] at hc
    obtain rfl := Option.some.inj hc
    rw [hsource] at hsource'
    rw [Option.some.inj hsource', hfound'] at hfound
    exact (Option.some.inj hfound).symm

/-- In every state of every run the captures are as their rules have them. So they are after
every step from there. A processed capture is the same in all that comes later, and a
conversion of it goes through without a write. -/
theorem captures_governed (hs : (library sha256).Reachable s) :
    CapturesHeld s ∧
    (∀ l s', (library sha256).next s l = some s' → CapturesMoved sha256 s s') ∧
    (∀ s', ((library sha256).startingAt s).Reachable s' → ∀ id c, s.db.capture? id = some c →
      c.state = .processed → s'.db.capture? id = some c) ∧
    ∀ q c d, s.db.capture? q.itemId = some c → c.state = .processed → c.projectId = q.scope →
      (q.revision = c.revision ∨ q.revision + 1 = c.revision) →
      ∃ source, c.resultingSourceId = some source.id ∧
        changeCapture sha256 s.db q d .convert =
          .ok (.resolved ⟨c.toCaptureItemProjection, source⟩, s.db) := by
  have h := capturesSound_reachable hs
  refine ⟨captures_held h, fun l s' hstep => capturesMoved hstep h,
    fun s' hlater id c hc hprocessed => ?_, fun q c d => convertCapture_again h.rows⟩
  obtain ⟨c', hc', -, -, -, hfrozen⟩ := (later_reachable hlater).capture hc
  rw [hc', hfrozen hprocessed]

/-! ## A run -/

def sampleDraw (n : Nat) : Draw := { now := n, ids := fun k => BitVec.ofNat 128 (n * 10 + k) }

def sampleStep (i n : Nat) : LibraryLabel := .step i (sampleDraw n) .raised

/-- A capture is created and edited, and a source is made of it twice. -/
def sampleInbox : List LibraryLabel :=
  [.arrive (.capture (.create ⟨"a note", "key-0001", none⟩)), sampleStep 0 1,
    .arrive (.capture (.change ⟨10, none, 1⟩ (.edit "a longer note"))), sampleStep 1 2,
    .arrive (.capture (.change ⟨10, none, 2⟩ .convert)), sampleStep 2 3,
    .arrive (.capture (.change ⟨10, none, 2⟩ .convert)), sampleStep 3 4]

/-- The second of the two requests with one revision is given the source of the first. -/
theorem captures_governed_sample : ∃ s, (library id).Reachable s ∧
    ∃ c, s.db.capture? 10 = some c ∧ c.state = .processed ∧ c.revision = 3 ∧
      ∃ source, c.resultingSourceId = some source.id ∧ changeCapture id s.db ⟨10, none, 2⟩
        (sampleDraw 5) .convert = .ok (.resolved ⟨c.toCaptureItemProjection, source⟩, s.db) := by
  let p (s : Library) : Bool := (s.db.capture? 10).any fun c : CaptureItem =>
    decide (c.state = .processed) && decide (c.revision = 3) && decide (c.projectId = none)
  obtain ⟨s, hs, hsample⟩ := Machine.exists_reachable_of_exec (library id) sampleInbox p (s := {})
    rfl (by decide +kernel)
  obtain ⟨c, hc, hsample⟩ := (Option.any_eq_true _ _).mp hsample
  simp only [Bool.and_eq_true, decide_eq_true_eq] at hsample
  obtain ⟨⟨hprocessed, hrevision⟩, hscope⟩ := hsample
  refine ⟨s, hs, c, hc, hprocessed, hrevision, ?_⟩
  exact (captures_governed hs).2.2.2 ⟨10, none, 2⟩ c (sampleDraw 5) hc hprocessed hscope
    (.inr hrevision.symm)

end Knowledge

end SecondBrain
