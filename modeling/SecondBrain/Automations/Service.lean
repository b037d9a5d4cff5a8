import SecondBrain.Automations.Rows

/-!
# What operators do with automations

An automation is drafted, enabled, paused and resumed, and cancelled in the end. Each of
these names the revision it was told and raises it by one. The next occurrence is computed
where an automation is enabled or resumed, or its schedule is changed while it is paused,
and it is later than the time that is read then. None of these looks at the occurrences.
-/

namespace SecondBrain

open Lib

namespace Automations

variable (zoneInfo : ZoneInfo)

/-! ## Requests -/

/-- What the schema of a schedule asks for. -/
def ScheduleDefinition.closedShape (d : ScheduleDefinition) : Bool :=
  !d.localAware && d.localTime % 60000000 == 0 &&
    decide (1 ≤ d.timezoneName.length ∧ d.timezoneName.length ≤ 255) &&
    decide (1 ≤ d.intervalCount ∧ d.intervalCount ≤ 365) &&
    d.weekdays.all (fun day => decide (1 ≤ day ∧ day ≤ 7)) && decide d.weekdays.Nodup &&
    match d.kind with
    | .oneTime => d.oneTimeLocalDate.isSome && d.weekdays.isEmpty
    | .daily => d.oneTimeLocalDate.isNone && d.weekdays.isEmpty
    | .weekly => d.oneTimeLocalDate.isNone && !d.weekdays.isEmpty
    | .other _ => false

structure AutomationCreate where
  label : String
  agentKind : String
  agentVersion : String := "1"
  projectId : Option Uuid := none
  executionMode : ExecutionMode := .createOnly
  schedule : ScheduleDefinition
  missedRunPolicy : Option MissedRunPolicy := none
  retryLimit : Nat := 3
  capacityLimit : Nat := 1

def validLabel (label : String) : Bool := decide (1 ≤ label.length ∧ label.length ≤ 200)

def validRetryLimit (limit : Nat) : Bool := decide (limit ≤ 3)

def validCapacityLimit (limit : Nat) : Bool := decide (1 ≤ limit ∧ limit ≤ 32)

/-- Whether the schema takes the request. -/
def AutomationCreate.valid (q : AutomationCreate) : Bool :=
  validLabel q.label && isReservedAutomationAgentKind q.agentKind && q.agentVersion == "1" &&
    q.schedule.closedShape && validRetryLimit q.retryLimit && validCapacityLimit q.capacityLimit

/-- `one_time_missed_default`. -/
def AutomationCreate.policy (q : AutomationCreate) : MissedRunPolicy :=
  q.missedRunPolicy.getD (if q.schedule.kind = .oneTime then .runOnce else .skip)

/-- A field that is not set is nothing, and one that is null is some nothing. -/
structure AutomationUpdate where
  expectedRevision : Nat
  label : Option String := none
  projectId : Option (Option Uuid) := none
  executionMode : Option (Option ExecutionMode) := none
  schedule : Option (Option ScheduleDefinition) := none
  missedRunPolicy : Option (Option MissedRunPolicy) := none
  retryLimit : Option (Option Nat) := none
  capacityLimit : Option (Option Nat) := none

namespace AutomationUpdate

variable (q : AutomationUpdate)

/-- Whether anything but the label is set. -/
def affectsDefinition : Bool :=
  q.projectId.isSome || q.executionMode.isSome || q.schedule.isSome || q.missedRunPolicy.isSome ||
    q.retryLimit.isSome || q.capacityLimit.isSome

/-- Whether the schema takes the request. -/
def valid : Bool :=
  (q.label.isSome || q.affectsDefinition) && q.label.all validLabel &&
    q.schedule.join.all ScheduleDefinition.closedShape && q.retryLimit.join.all validRetryLimit &&
    q.capacityLimit.join.all validCapacityLimit

/-- Whether a column that cannot be null is set to it. -/
def nullsColumn : Bool :=
  q.missedRunPolicy == some none || q.retryLimit == some none || q.capacityLimit == some none

end AutomationUpdate

/-! ## Checks -/

inductive LifecycleError where
  | notFound
  | revisionConflict
  | transitionConflict
  | definition (message : String)
  | schedule (e : ScheduleFault)
  | projectNotFound
  | executionUnavailable
  | assertion
  | integrity
deriving DecidableEq, Repr

/-- `_validate_scope_and_catalog`. -/
def validateScopeAndCatalog (db : Tables) (agentKind agentVersion : String)
    (projectId : Option Uuid) : Except LifecycleError Unit :=
  match getSchedulableAgent agentKind agentVersion with
  | none => .error (.definition "automation agent is not schedulable")
  | some entry =>
      if entry.projectRequired && projectId.isNone then
        .error (.definition "project_watch requires an exact Project scope")
      else if !db.hasProject projectId then .error .projectNotFound
      else .ok ()

/-- Whether a definition may run unattended. -/
def AutomaticAgentDefinition.readsOnly (d : AutomaticAgentDefinition) : Bool :=
  d.codeOwned && d.authority == "read" && !d.allowedTools.isEmpty

/-- `_validate_execution_mode`. -/
def validateExecutionMode (agentKind agentVersion : String) :
    ExecutionMode → Except LifecycleError Unit
  | .createOnly => .ok ()
  | .automaticReadOnly =>
      if (getAutomaticAgentDefinition agentKind agentVersion).any
          AutomaticAgentDefinition.readsOnly then .ok ()
      else .error .executionUnavailable

/-- `_lock_expected`. -/
def lockExpected (db : Tables) (id : Uuid) (expectedRevision : Nat) :
    Except LifecycleError AutomationRow :=
  match db.automation? id with
  | none => .error .notFound
  | some a => if a.revision ≠ expectedRevision then .error .revisionConflict else .ok a

def calculated {α : Type} : Except ScheduleFault α → Except LifecycleError α
  | .error e => .error (.schedule e)
  | .ok a => .ok a

/-- The next point, which has to be there. -/
def futurePoint (d : ScheduleDefinition) (now : Instant) : Except LifecycleError SchedulePoint := do
  match ← calculated (nextPoint zoneInfo d (some now) none) with
  | none => .error (.definition "schedule has no future occurrence")
  | some point => .ok point

/-- The weekdays are stored in their order. -/
def ScheduleDefinition.stored (d : ScheduleDefinition) : ScheduleDefinition :=
  { d with weekdays := d.weekdays.insertionSort (· ≤ ·) }

/-! ## Operations -/

def AutomationCreate.automation (q : AutomationCreate) (id : Uuid) : AutomationRow :=
  { id := id
    label := q.label
    agentKind := q.agentKind
    agentVersion := q.agentVersion
    projectId := q.projectId
    lifecycle := .draft
    revision := 0
    executionMode := q.executionMode
    scheduleRevision := 0
    definition := q.schedule.stored
    missedRunPolicy := q.policy
    retryLimit := q.retryLimit
    capacityLimit := q.capacityLimit }

def createAutomation (db : Tables) (q : AutomationCreate) (id : Uuid) :
    Except LifecycleError Tables := do
  calculated (validateDefinition zoneInfo q.schedule)
  validateScopeAndCatalog db q.agentKind q.agentVersion q.projectId
  validateExecutionMode q.agentKind q.agentVersion q.executionMode
  if (db.automation? id).isSome then throw .integrity
  else return { db with automations := db.automations ++ [q.automation id] }

/-- The row with what is set, but for the next occurrence. -/
def AutomationUpdate.apply (q : AutomationUpdate) (a : AutomationRow) : AutomationRow :=
  { a with
    label := q.label.getD a.label
    projectId := q.projectId.getD a.projectId
    executionMode := q.executionMode.join.getD a.executionMode
    definition := (q.schedule.join.map (·.stored)).getD a.definition
    missedRunPolicy := q.missedRunPolicy.join.getD a.missedRunPolicy
    retryLimit := q.retryLimit.join.getD a.retryLimit
    capacityLimit := q.capacityLimit.join.getD a.capacityLimit
    revision := a.revision + 1
    scheduleRevision := if q.schedule.isSome then a.scheduleRevision + 1 else a.scheduleRevision }

/-- The next occurrence of the updated row. A schedule that is set to null is not applied,
but the next occurrence is computed all the same. -/
def AutomationUpdate.next (q : AutomationUpdate) (a : AutomationRow) (now : Instant) :
    Except LifecycleError (Option Instant) :=
  if q.schedule.isNone then .ok a.nextOccurrenceAt
  else if a.lifecycle = .paused then
    (futurePoint zoneInfo (q.apply a).definition now).map fun point => some point.utcInstant
  else .ok none

def AutomationUpdate.checkSchedule (q : AutomationUpdate) : Except LifecycleError Unit :=
  match q.schedule.join with
  | some schedule => calculated (validateDefinition zoneInfo schedule)
  | none => .ok ()

def AutomationUpdate.checkMode (q : AutomationUpdate) (a : AutomationRow) :
    Except LifecycleError Unit :=
  match q.executionMode with
  | some none => .error .assertion
  | some (some mode) => validateExecutionMode a.agentKind a.agentVersion mode
  | none => .ok ()

def updateAutomation (db : Tables) (id : Uuid) (q : AutomationUpdate) (now : Instant) :
    Except LifecycleError Tables := do
  let a ← lockExpected db id q.expectedRevision
  if a.lifecycle = .cancelled then throw .transitionConflict
  else if q.affectsDefinition && !decide (a.lifecycle = .draft ∨ a.lifecycle = .paused) then
    throw .transitionConflict
  else
    validateScopeAndCatalog db a.agentKind a.agentVersion (q.projectId.getD a.projectId)
    q.checkSchedule zoneInfo
    q.checkMode a
    let next ← q.next zoneInfo a now
    if q.nullsColumn then throw .integrity
    else return db.putAutomation { q.apply a with nextOccurrenceAt := next }

def setExecutionMode (db : Tables) (id : Uuid) (expectedRevision : Nat) (mode : ExecutionMode) :
    Except LifecycleError Tables := do
  let a ← lockExpected db id expectedRevision
  if a.lifecycle = .cancelled then throw .transitionConflict
  else
    validateExecutionMode a.agentKind a.agentVersion mode
    return db.putAutomation { a with executionMode := mode, revision := a.revision + 1 }

/-- What `enable_automation` and `resume_automation` have in common. -/
def startAutomation (source : Lifecycle) (db : Tables) (id : Uuid) (expectedRevision : Nat)
    (now : Instant) : Except LifecycleError Tables := do
  let a ← lockExpected db id expectedRevision
  if a.lifecycle ≠ source then throw .transitionConflict
  else
    validateScopeAndCatalog db a.agentKind a.agentVersion a.projectId
    let point ← futurePoint zoneInfo a.definition now
    return db.putAutomation
      { a with
        lifecycle := .enabled
        nextOccurrenceAt := some point.utcInstant
        revision := a.revision + 1 }

def enableAutomation (db : Tables) (id : Uuid) (expectedRevision : Nat) (now : Instant) :
    Except LifecycleError Tables :=
  startAutomation zoneInfo .draft db id expectedRevision now

def pauseAutomation (db : Tables) (id : Uuid) (expectedRevision : Nat) :
    Except LifecycleError Tables := do
  let a ← lockExpected db id expectedRevision
  if a.lifecycle ≠ .enabled then throw .transitionConflict
  else return db.putAutomation { a with lifecycle := .paused, revision := a.revision + 1 }

def resumeAutomation (db : Tables) (id : Uuid) (expectedRevision : Nat) (now : Instant) :
    Except LifecycleError Tables :=
  startAutomation zoneInfo .paused db id expectedRevision now

def cancelAutomation (db : Tables) (id : Uuid) (expectedRevision : Nat) (now : Instant) :
    Except LifecycleError Tables := do
  let a ← lockExpected db id expectedRevision
  if a.lifecycle = .cancelled then throw .transitionConflict
  else
    return db.putAutomation
      { a with
        lifecycle := .cancelled
        cancelledAt := some now
        nextOccurrenceAt := none
        revision := a.revision + 1 }

inductive AutomationEdit where
  | create (q : AutomationCreate) (id : Uuid)
  | update (id : Uuid) (q : AutomationUpdate)
  | setExecutionMode (id : Uuid) (expectedRevision : Nat) (mode : ExecutionMode)
  | enable (id : Uuid) (expectedRevision : Nat)
  | pause (id : Uuid) (expectedRevision : Nat)
  | resume (id : Uuid) (expectedRevision : Nat)
  | cancel (id : Uuid) (expectedRevision : Nat)

def AutomationEdit.valid : AutomationEdit → Bool
  | .create q _ => q.valid
  | .update _ q => q.valid
  | .setExecutionMode _ _ _ | .enable _ _ | .pause _ _ | .resume _ _ | .cancel _ _ => true

def applyEdit (db : Tables) (now : Instant) : AutomationEdit → Except LifecycleError Tables
  | .create q id => createAutomation zoneInfo db q id
  | .update id q => updateAutomation zoneInfo db id q now
  | .setExecutionMode id expectedRevision mode => setExecutionMode db id expectedRevision mode
  | .enable id expectedRevision => enableAutomation zoneInfo db id expectedRevision now
  | .pause id expectedRevision => pauseAutomation db id expectedRevision
  | .resume id expectedRevision => resumeAutomation zoneInfo db id expectedRevision now
  | .cancel id expectedRevision => cancelAutomation db id expectedRevision now

/-! ## What they write -/

/-- An automation is written by one of the operations. -/
structure Rewritten (db : Tables) (now : Instant) (a a' : AutomationRow) : Prop where
  found : db.automation? a.id = some a
  id : a'.id = a.id
  agent : a'.agentKind = a.agentKind ∧ a'.agentVersion = a.agentVersion
  open_ : a.lifecycle ≠ .cancelled
  revision : a'.revision = a.revision + 1
  scheduleRevision : a.scheduleRevision ≤ a'.scheduleRevision
  next : a'.nextOccurrenceAt = none ∨ (∃ t, a'.nextOccurrenceAt = some t ∧ now < t) ∨
    a'.nextOccurrenceAt = a.nextOccurrenceAt ∧ a'.scheduleRevision = a.scheduleRevision

/-- What an operation writes. -/
inductive Edited (db : Tables) (now : Instant) : Tables → Prop
  | created {a : AutomationRow} :
      db.automation? a.id = none → a.lifecycle = .draft → a.nextOccurrenceAt = none →
      Edited db now { db with automations := db.automations ++ [a] }
  | written {a a' : AutomationRow} :
      Rewritten db now a a' → Edited db now (db.putAutomation a')

section

variable {zoneInfo} {db db' : Tables} {now : Instant} {id : Uuid} {expectedRevision : Nat}

theorem lockExpected_ok {a : AutomationRow} (h : lockExpected db id expectedRevision = .ok a) :
    db.automation? a.id = some a := by
  unfold lockExpected at h
  split at h
  · cases h
  next hfound =>
  split at h
  · cases h
  · obtain rfl := Except.ok.inj h
    rw [(lookup_mem hfound).2]
    exact hfound

theorem futurePoint_later {d : ScheduleDefinition} {point : SchedulePoint}
    (h : futurePoint zoneInfo d now = .ok point) : now < point.utcInstant := by
  unfold futurePoint at h
  obtain ⟨found, hfound, h⟩ := bind_ok h
  split at h
  · cases h
  · obtain rfl := Except.ok.inj h
    cases hnext : nextPoint zoneInfo d (some now) none with
    | error e =>
        rw [hnext] at hfound
        cases hfound
    | ok answer =>
        rw [hnext] at hfound
        rw [Except.ok.inj hfound] at hnext
        exact nextPoint_later hnext

theorem update_next {q : AutomationUpdate} {a : AutomationRow} {next : Option Instant}
    (h : q.next zoneInfo a now = .ok next) :
    next = none ∨ (∃ t, next = some t ∧ now < t) ∨
      next = a.nextOccurrenceAt ∧ (q.apply a).scheduleRevision = a.scheduleRevision := by
  unfold AutomationUpdate.next at h
  split at h
  · next hschedule =>
      refine .inr (.inr ⟨(Except.ok.inj h).symm, if_neg ?_⟩)
      rw [Option.isNone_iff_eq_none.mp hschedule]
      exact Bool.false_ne_true
  · split at h
    · cases hpoint : futurePoint zoneInfo (q.apply a).definition now with
      | error e =>
          rw [hpoint] at h
          cases h
      | ok point =>
          rw [hpoint] at h
          exact .inr (.inl ⟨_, (Except.ok.inj h).symm, futurePoint_later hpoint⟩)
    · exact .inl (Except.ok.inj h).symm

theorem updateAutomation_spec {q : AutomationUpdate}
    (h : updateAutomation zoneInfo db id q now = .ok db') : Edited db now db' := by
  unfold updateAutomation at h
  obtain ⟨a, ha, h⟩ := bind_ok h
  split at h
  · cases h
  next hopen =>
  split at h
  · cases h
  obtain ⟨-, -, h⟩ := bind_ok h
  obtain ⟨-, -, h⟩ := bind_ok h
  obtain ⟨-, -, h⟩ := bind_ok h
  obtain ⟨next, hnext, h⟩ := bind_ok h
  split at h
  · cases h
  obtain rfl := Except.ok.inj h
  refine .written (a := a) ⟨lockExpected_ok ha, rfl, ⟨rfl, rfl⟩, hopen, rfl, ?_, update_next hnext⟩
  dsimp only [AutomationUpdate.apply]
  split
  · exact Nat.le_succ _
  · exact Nat.le_refl _

theorem startAutomation_spec {source : Lifecycle} (hsource : source ≠ .cancelled)
    (h : startAutomation zoneInfo source db id expectedRevision now = .ok db') :
    Edited db now db' := by
  unfold startAutomation at h
  obtain ⟨a, ha, h⟩ := bind_ok h
  split at h
  · cases h
  next hlifecycle =>
  obtain ⟨-, -, h⟩ := bind_ok h
  obtain ⟨point, hpoint, h⟩ := bind_ok h
  obtain rfl := Except.ok.inj h
  exact .written (a := a) ⟨lockExpected_ok ha, rfl, ⟨rfl, rfl⟩,
    by rw [not_not.mp hlifecycle]; exact hsource, rfl, Nat.le_refl _,
    .inr (.inl ⟨_, rfl, futurePoint_later hpoint⟩)⟩

theorem applyEdit_spec {edit : AutomationEdit} (h : applyEdit zoneInfo db now edit = .ok db') :
    Edited db now db' := by
  cases edit with
  | create q id =>
      have h : createAutomation zoneInfo db q id = .ok db' := h
      unfold createAutomation at h
      obtain ⟨-, -, h⟩ := bind_ok h
      obtain ⟨-, -, h⟩ := bind_ok h
      obtain ⟨-, -, h⟩ := bind_ok h
      split at h
      · cases h
      next hfresh =>
      obtain rfl := Except.ok.inj h
      have hnone : db.automation? id = none := by simpa using hfresh
      exact .created (a := q.automation id) hnone rfl rfl
  | update id q => exact updateAutomation_spec h
  | setExecutionMode id expectedRevision mode =>
      have h : setExecutionMode db id expectedRevision mode = .ok db' := h
      unfold setExecutionMode at h
      obtain ⟨a, ha, h⟩ := bind_ok h
      split at h
      · cases h
      next hopen =>
      obtain ⟨-, -, h⟩ := bind_ok h
      obtain rfl := Except.ok.inj h
      exact .written (a := a) ⟨lockExpected_ok ha, rfl, ⟨rfl, rfl⟩, hopen, rfl, Nat.le_refl _,
        .inr (.inr ⟨rfl, rfl⟩)⟩
  | enable id expectedRevision => exact startAutomation_spec (by decide) h
  | pause id expectedRevision =>
      have h : pauseAutomation db id expectedRevision = .ok db' := h
      unfold pauseAutomation at h
      obtain ⟨a, ha, h⟩ := bind_ok h
      split at h
      · cases h
      next hlifecycle =>
      obtain rfl := Except.ok.inj h
      exact .written (a := a) ⟨lockExpected_ok ha, rfl, ⟨rfl, rfl⟩,
        by rw [not_not.mp hlifecycle]; decide, rfl, Nat.le_refl _, .inr (.inr ⟨rfl, rfl⟩)⟩
  | resume id expectedRevision => exact startAutomation_spec (by decide) h
  | cancel id expectedRevision =>
      have h : cancelAutomation db id expectedRevision now = .ok db' := h
      unfold cancelAutomation at h
      obtain ⟨a, ha, h⟩ := bind_ok h
      split at h
      · cases h
      next hopen =>
      obtain rfl := Except.ok.inj h
      exact .written (a := a) ⟨lockExpected_ok ha, rfl, ⟨rfl, rfl⟩, hopen, rfl, Nat.le_refl _,
        .inl rfl⟩

end

end Automations

end SecondBrain
