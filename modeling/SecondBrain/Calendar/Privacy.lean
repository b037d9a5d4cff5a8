import SecondBrain.Calendar.LocalTimes
import SecondBrain.Calendar.Sync

/-!
# What a summary shows through

The summary of an item is read for the title alone, and the title of a private event or
of one of a special type is a fixed label. So two items that differ in their summaries
only are stored alike, but for one case: `confidential` is let through as a visibility
and the event is then not private.

What is accepted always fits the checks of its table. That an event ends after it starts
is compared on the wall clock where both times are of one zone, and the instants are in
the same order because the clock of a regular zone shows each of the two once.
-/

namespace SecondBrain

open Lib

namespace Calendar

variable {p : Platform} {a b item : Json} {run : CalendarSyncRun} {seenAt : Instant}

/-! ## Summaries apart -/

/-- What an item says apart from its summary. -/
structure Rest where
  eventType : EventType
  eventId : String
  etag : String
  updated : Aware
  timing : Timing Aware
  isPrivate : Bool
  series : Option (String × Moment Aware)
  key : String
  zone : Option String

def restOf (p : Platform) (item : Json) : Except Fault Rest := do
  checkKeys item
  checkStatus item
  let eventType ← eventTypeOf item
  let eventId ← string (item.field? "id")
  let etag ← string (item.field? "etag")
  let updated ← instant p (item.field? "updated") none
  let (start, startZone) ← temporal p (item.field? "start")
  let (stop, endZone) ← temporal p (item.field? "end")
  let when ← timing start stop
  let isPrivate ← privacyOf item
  let series ← recurrence p item start
  let identity ← identityOf eventId series
  return ⟨eventType, eventId, etag, updated, when, isPrivate, series, identity.key,
    startZone <|> endZone⟩

/-- The record of an item with this title. -/
def Rest.record (p : Platform) (run : CalendarSyncRun) (seenAt : Instant) (r : Rest)
    (title : String) : EventRevision Aware :=
  { accountRevisionId := run.accountRevisionId
    calendarIdentityId := run.calendarIdentityId
    syncRunId := run.id
    projectId := run.projectId
    providerEventId := r.eventId
    recurrence := r.series
    occurrenceKey := r.key
    providerEtag := r.etag
    providerUpdatedAt := r.updated
    applicationRevision := 1
    contentHash :=
      p.sha256 (contentJson r.eventType title r.timing r.zone r.isPrivate).canonical
    eventType := r.eventType
    title := title
    timing := r.timing
    sourceTimezone := r.zone
    isPrivate := r.isPrivate
    firstSeenAt := seenAt
    lastSeenAt := seenAt }

/-- The title an item has, if its type and privacy are these. -/
def titleFor (eventType : EventType) (isPrivate : Bool) (item : Json) : Option String :=
  (summaryOf item).toOption.bind (eventLabel eventType isPrivate)

theorem titleOf_toOption (eventType : EventType) (isPrivate : Bool) (summary : String) :
    (titleOf eventType isPrivate summary).toOption = eventLabel eventType isPrivate summary := by
  unfold titleOf
  cases eventLabel eventType isPrivate summary with
  | none => rfl
  | some title => rfl

/-- What is computed alike up to here, and from here on with the same to be done. -/
theorem toOption_step {α β γ : Type} {x : Except Fault α} {f : α → Except Fault γ}
    {g : α → Except Fault β} {k : β → Option γ}
    (h : ∀ y, (f y).toOption = (g y).toOption.bind k) :
    (x >>= f).toOption = (x >>= g).toOption.bind k := by
  cases x with
  | error e => rfl
  | ok y => exact h y

/-- An item is accepted if the rest is and there is a title. -/
theorem normalized_toOption :
    (normalized p item run seenAt).toOption = (restOf p item).toOption.bind fun r =>
      (titleFor r.eventType r.isPrivate item).map (r.record p run seenAt) := by
  unfold normalized restOf
  refine toOption_step fun _ => toOption_step fun _ => toOption_step fun eventType => ?_
  refine toOption_step fun eventId => toOption_step fun etag => toOption_step fun updated => ?_
  refine toOption_step fun start => toOption_step fun stop => toOption_step fun when => ?_
  refine toOption_step fun isPrivate => ?_
  cases hsummary : summaryOf item with
  | error e =>
      cases recurrence p item start.1 with
      | error e => rfl
      | ok series =>
          show none = (identityOf eventId series >>= _).toOption.bind _
          cases identityOf eventId series with
          | error e => rfl
          | ok identity =>
              show none = (titleFor eventType isPrivate item).map _
              rw [titleFor, hsummary]
              rfl
  | ok summary =>
      have htitle : titleFor eventType isPrivate item =
          (titleOf eventType isPrivate summary).toOption := by
        rw [titleFor, hsummary, titleOf_toOption]
        rfl
      show (titleOf eventType isPrivate summary >>= _).toOption = _
      cases hlabel : titleOf eventType isPrivate summary with
      | error e =>
          rw [hlabel] at htitle
          cases recurrence p item start.1 with
          | error e => rfl
          | ok series =>
              show none = (identityOf eventId series >>= _).toOption.bind _
              cases identityOf eventId series with
              | error e => rfl
              | ok identity =>
                  show none = (titleFor eventType isPrivate item).map _
                  rw [htitle]
                  rfl
      | ok title =>
          rw [hlabel] at htitle
          show (recurrence p item start.1 >>= _).toOption = _
          refine toOption_step fun series => toOption_step fun identity => ?_
          show _ = (titleFor eventType isPrivate item).map _
          rw [htitle]
          rfl

/-! ## Items alike -/

/-- The items differ in their summaries only, and these are texts or left out. -/
structure Alike (a b : Json) : Prop where
  objects : ∃ fields fields', a = .obj fields ∧ b = .obj fields'
  fields : ∀ key, key ≠ "summary" → a.field? key = b.field? key
  summaries : ∃ s s', summaryOf a = .ok s ∧ summaryOf b = .ok s'

/-- The event is private or confidential, or of a special type. -/
def Hidden (item : Json) : Prop :=
  item.field? "visibility" = some (.str "private") ∨
    item.field? "visibility" = some (.str "confidential") ∨
    ∃ eventType, eventTypeOf item = .ok eventType ∧ eventType ≠ .default

/-- The two items are those of a confidential event of no special type, which is taken for
an ordinary one and has two titles. -/
structure Leaks (p : Platform) (a b : Json) : Prop where
  confidential : a.field? "visibility" = some (.str "confidential")
  ordinary : eventTypeOf a = .ok .default
  accepted : ∃ r, restOf p a = .ok r
  titles : titleFor .default false a ≠ titleFor .default false b

theorem checkKeys_ok_iff {fields : List (String × Json)} :
    checkKeys (.obj fields) = .ok () ↔
      ∀ key, key ∉ eventKeys → (Json.obj fields).field? key = none := by
  unfold checkKeys
  have hiff : fields.all (fun f => decide (f.1 ∈ eventKeys)) = true ↔
      ∀ key, key ∉ eventKeys → (Json.obj fields).field? key = none := by
    rw [List.all_eq_true]
    constructor
    · intro h key hkey
      rw [Json.field?, Option.map_eq_none_iff, List.find?_eq_none]
      intro f hf hsame
      have hin := of_decide_eq_true (h f hf)
      rw [beq_iff_eq.mp hsame] at hin
      exact hkey hin
    · intro h f hf
      by_contra hnot
      have hnone := h f.1 fun hin => hnot (decide_eq_true hin)
      rw [Json.field?, Option.map_eq_none_iff, List.find?_eq_none] at hnone
      exact hnone f hf (beq_self_eq_true f.1)
  by_cases h : fields.all (fun f => decide (f.1 ∈ eventKeys)) = true
  · exact iff_of_true (if_pos h) (hiff.mp h)
  · refine iff_of_false (fun heq => ?_) fun hfields => h (hiff.mpr hfields)
    have hbad := (if_neg h).symm.trans heq
    cases hbad

theorem Alike.checkKeys_eq (h : Alike a b) : checkKeys a = checkKeys b := by
  obtain ⟨fields, fields', rfl, rfl⟩ := h.objects
  have hsame : checkKeys (.obj fields) = .ok () ↔ checkKeys (.obj fields') = .ok () := by
    rw [checkKeys_ok_iff, checkKeys_ok_iff]
    refine forall_congr' fun key => ?_
    by_cases hkey : key = "summary"
    · subst hkey
      exact ⟨fun _ hnot => absurd (by decide) hnot, fun _ hnot => absurd (by decide) hnot⟩
    · rw [h.fields key hkey]
  have hcases : ∀ fields, checkKeys (.obj fields) = .ok () ∨
      checkKeys (.obj fields) = .error invalidEvent := by
    intro fields
    unfold checkKeys
    by_cases h : fields.all (fun f => decide (f.1 ∈ eventKeys)) = true
    · exact .inl (if_pos h)
    · exact .inr (if_neg h)
  rcases hcases fields with hok | hbad
  · rw [hok, hsame.mp hok]
  · rcases hcases fields' with hok' | hbad'
    · rw [hsame.mpr hok'] at hbad
      cases hbad
    · rw [hbad, hbad']

theorem Alike.restOf_eq (h : Alike a b) : restOf p a = restOf p b := by
  have hfields : ∀ key, key ≠ "summary" → a.field? key = b.field? key := h.fields
  have hstatus : checkStatus a = checkStatus b := by
    unfold checkStatus
    rw [hfields _ (by decide)]
  have htype : eventTypeOf a = eventTypeOf b := by
    unfold eventTypeOf
    rw [hfields _ (by decide)]
  have hprivacy : privacyOf a = privacyOf b := by
    unfold privacyOf
    rw [hfields _ (by decide)]
  have hrecurrence : ∀ start, recurrence p a start = recurrence p b start := by
    intro start
    unfold recurrence
    rw [hfields "recurringEventId" (by decide), hfields "originalStartTime" (by decide)]
  unfold restOf
  simp only [h.checkKeys_eq, hstatus, htype, hprivacy, hrecurrence, hfields "id" (by decide),
    hfields "etag" (by decide), hfields "updated" (by decide), hfields "start" (by decide),
    hfields "end" (by decide)]

/-- What the accepted parts of an item are. -/
structure Rest.Of (p : Platform) (item : Json) (r : Rest) : Prop where
  eventType : eventTypeOf item = .ok r.eventType
  eventId : string (item.field? "id") = .ok r.eventId
  timing : ∃ start stop, temporal p (item.field? "start") = .ok start ∧
    temporal p (item.field? "end") = .ok stop ∧ Calendar.timing start.1 stop.1 = .ok r.timing
  privacy : privacyOf item = .ok r.isPrivate
  key : ∃ identity, identityOf r.eventId r.series = .ok identity ∧ r.key = identity.key

theorem restOf_parts : Ensures (restOf p item) (Rest.Of p item) := by
  intro r h
  unfold restOf at h
  obtain ⟨-, -, h⟩ := bind_ok h
  obtain ⟨-, -, h⟩ := bind_ok h
  obtain ⟨eventType, htype, h⟩ := bind_ok h
  obtain ⟨eventId, hid, h⟩ := bind_ok h
  obtain ⟨etag, -, h⟩ := bind_ok h
  obtain ⟨updated, -, h⟩ := bind_ok h
  obtain ⟨start, hstart, h⟩ := bind_ok h
  obtain ⟨stop, hstop, h⟩ := bind_ok h
  obtain ⟨when, hwhen, h⟩ := bind_ok h
  obtain ⟨isPrivate, hprivacy, h⟩ := bind_ok h
  obtain ⟨series, -, h⟩ := bind_ok h
  obtain ⟨identity, hidentity, h⟩ := bind_ok h
  obtain rfl := Except.ok.inj h
  exact ⟨htype, hid, ⟨start, stop, hstart, hstop, hwhen⟩, hprivacy, identity, hidentity, rfl⟩

/-- The label that does not depend on the title. -/
def fixedLabel (eventType : EventType) (isPrivate : Bool) : Option String :=
  if isPrivate then some "Busy" else eventType.label?

theorem eventLabel_fixed {eventType : EventType} {isPrivate : Bool} {label : String}
    (h : fixedLabel eventType isPrivate = some label) (summary : String) :
    eventLabel eventType isPrivate summary = some label := by
  unfold fixedLabel at h
  unfold eventLabel
  split
  · next hprivate => rwa [if_pos hprivate] at h
  · next hprivate =>
      rw [if_neg hprivate] at h
      rw [h]

/-- A fixed label is the title, whatever the summary. -/
theorem titleFor_fixed {eventType : EventType} {isPrivate : Bool}
    (hfixed : isPrivate = true ∨ eventType ≠ .default) (h : Alike a b) :
    titleFor eventType isPrivate a = titleFor eventType isPrivate b := by
  have hlabel : ∃ label, fixedLabel eventType isPrivate = some label := by
    rcases hfixed with hprivate | hspecial
    · exact ⟨"Busy", if_pos hprivate⟩
    · cases isPrivate with
      | true => exact ⟨"Busy", rfl⟩
      | false =>
          cases eventType with
          | default => exact absurd rfl hspecial
          | focusTime | outOfOffice | workingLocation | birthday => exact ⟨_, rfl⟩
  obtain ⟨label, hlabel⟩ := hlabel
  obtain ⟨s, s', hs, hs'⟩ := h.summaries
  unfold titleFor
  rw [hs, hs']
  exact (eventLabel_fixed hlabel s).trans (eventLabel_fixed hlabel s').symm

/-- Hidden events with other summaries are the same record, or none, but for those that are
confidential and taken for ordinary ones. -/
theorem normalized_alike (hhidden : Hidden a) (h : Alike a b) :
    (normalized p a run seenAt).toOption = (normalized p b run seenAt).toOption ↔
      ¬ Leaks p a b := by
  rw [normalized_toOption, normalized_toOption, ← h.restOf_eq]
  cases hrest : restOf p a with
  | error e =>
      refine iff_of_true rfl fun hleaks => ?_
      obtain ⟨r, hr⟩ := hleaks.accepted
      rw [hrest] at hr
      cases hr
  | ok r =>
      obtain ⟨htype, -, -, hprivacy, -⟩ := restOf_parts r hrest
      have htitles : (titleFor r.eventType r.isPrivate a).map (r.record p run seenAt) =
          (titleFor r.eventType r.isPrivate b).map (r.record p run seenAt) ↔
            titleFor r.eventType r.isPrivate a = titleFor r.eventType r.isPrivate b := by
        refine ⟨fun heq => ?_, congrArg _⟩
        refine Option.map_injective (fun t t' heq => ?_) heq
        exact congrArg EventRevision.title heq
      show _ = _ ↔ _
      refine htitles.trans ?_
      by_cases hfixed : r.isPrivate = true ∨ r.eventType ≠ .default
      · refine iff_of_true (titleFor_fixed hfixed h) fun hleaks => ?_
        rcases hfixed with hpriv | hspecial
        · unfold privacyOf at hprivacy
          rw [hleaks.confidential, hpriv] at hprivacy
          exact absurd hprivacy (by decide)
        · exact hspecial (Except.ok.inj (htype.symm.trans hleaks.ordinary))
      · rw [not_or, Bool.not_eq_true, not_not] at hfixed
        have hconfidential : a.field? "visibility" = some (.str "confidential") := by
          rcases hhidden with hpriv | hconf | ⟨eventType, hother, hspecial⟩
          · unfold privacyOf at hprivacy
            rw [hpriv, hfixed.1] at hprivacy
            exact absurd hprivacy (by decide)
          · exact hconf
          · rw [htype] at hother
            exact absurd ((Except.ok.inj hother).symm.trans hfixed.2) hspecial
        rw [hfixed.1, hfixed.2]
        refine ⟨fun heq hleaks => hleaks.titles heq, fun hno => ?_⟩
        by_contra hne
        exact hno ⟨hconfidential, hfixed.2 ▸ htype, ⟨r, hrest⟩, hne⟩

/-! ## Pages alike -/

/-- The items are the same, or those of a hidden event with another summary. -/
def SameShown (p : Platform) (a b : Json) : Prop := a = b ∨ Hidden a ∧ Alike a b ∧ ¬ Leaks p a b

theorem toOption_bind {α β : Type} {x y : Except Fault α} {f g : α → Except Fault β}
    (hxy : x.toOption = y.toOption) (hfg : ∀ a, (f a).toOption = (g a).toOption) :
    (x >>= f).toOption = (y >>= g).toOption := by
  cases x with
  | error e =>
      cases y with
      | error e' => rfl
      | ok b => cases hxy
  | ok a =>
      cases y with
      | error e' => cases hxy
      | ok b =>
          obtain rfl := Option.some.inj hxy
          exact hfg a

theorem mapM_alike {items items' : List Json} (h : List.Forall₂ (SameShown p) items items') :
    (items.mapM fun item => normalized p item run seenAt).toOption =
      (items'.mapM fun item => normalized p item run seenAt).toOption := by
  induction h with
  | nil => rfl
  | cons hsame _ ih =>
      rw [List.mapM_cons, List.mapM_cons]
      refine toOption_bind ?_ fun x => toOption_bind ih fun xs => rfl
      rcases hsame with rfl | ⟨hhidden, halike, hno⟩
      · rfl
      · exact (normalized_alike hhidden halike).mpr hno

/-- Pages that differ in the summaries of hidden events leave the same tables behind. -/
theorem readPage_alike {db : Store} {accepted : List AcceptedEvent} {r : Refresh} {n total : Nat}
    {tokens : List String} {late : Bool} {page page' : CalendarPage} {now : Instant}
    {ids : Nat → Uuid × Uuid} (htoken : page.nextPageToken = page'.nextPageToken)
    (hitems : List.Forall₂ (SameShown p) page.items page'.items) :
    (readPage p db accepted r n tokens total late (.ok page) now ids).toOption =
      (readPage p db accepted r n tokens total late (.ok page') now ids).toOption := by
  unfold readPage
  refine toOption_bind rfl fun _ => ?_
  show (checkPage r total page >>= _).toOption = (checkPage r total page' >>= _).toOption
  have hpage : checkPage r total page = checkPage r total page' := by
    unfold checkPage
    rw [hitems.length_eq]
  rw [hpage, htoken]
  refine toOption_bind rfl fun _ => toOption_bind rfl fun owner => ?_
  exact toOption_bind (mapM_alike hitems) fun _ => rfl

/-! ## What is accepted fits the table -/

theorem utf8ByteSize_le (s : String) : s.utf8ByteSize ≤ 4 * s.length := by
  have hlist : ∀ l : List Char, (String.ofList l).utf8ByteSize ≤ 4 * l.length := by
    intro l
    induction l with
    | nil => exact Nat.le_of_eq rfl
    | cons c rest ih =>
        have hc := Char.utf8Size_le_four c
        rw [String.ofList_cons, String.utf8ByteSize_append, String.utf8ByteSize_singleton,
          List.length_cons]
        omega
  have h := hlist s.toList
  rwa [String.ofList_toList, String.length_toList] at h

theorem string_bounds {raw : Option Json} :
    Ensures (string raw) fun s => 1 ≤ s.length ∧ s.length ≤ 1024 := by
  unfold string
  split
  · next value =>
      refine .ite (fun _ => .error _) fun h => Ensures.ok_iff.mpr ?_
      rw [not_or, String.isEmpty_iff] at h
      have hne : value.length ≠ 0 := fun hzero => h.1 (String.length_eq_zero_iff.mp hzero)
      omega
  · exact .error _

/-- A time that names a zone is shown once by its clock. -/
def Placed (p : Platform) (t : Aware) : Prop :=
  ∀ name, t.zone = some name → ∃ z, p.zoneInfo name = .found z ∧
    ∀ u, z.fromUtc u = t.wall.number ↔ u = t.instant

theorem instant_placed (hp : RegularZones p) {raw : Option Json} {name : Option String} :
    Ensures (instant p raw name) (Placed p) := by
  intro x hx name' hname'
  cases (local_time_exact hp x).mp hx with
  | own hvalue hparsed => cases hname'
  | only hvalue hparsed hname hzone hfits honly =>
      obtain ⟨-, -, hnamed⟩ := hname
      obtain rfl := Option.some.inj (hnamed.symm.trans hname')
      exact ⟨_, hzone, honly⟩

theorem Placed.lt (hp : RegularZones p) {s t : Aware} (hs : Placed p s) (ht : Placed p t)
    (h : t.le s = false) : s.instant < t.instant := by
  unfold Aware.le at h
  split at h
  · next hzones =>
      obtain ⟨hsome, hsame⟩ := hzones
      obtain ⟨name, hname⟩ := Option.isSome_iff_exists.mp hsome
      obtain ⟨z, hz, hshown⟩ := ht name hname
      obtain ⟨z', hz', hshown'⟩ := hs name (hsame.symm.trans hname)
      obtain rfl := ZoneLookup.found.inj (hz.symm.trans hz')
      have hlt : s.wall.number < t.wall.number := by
        have hle := of_decide_eq_false h
        omega
      have hap := (hp name z hz).apart
      have hfirst := Zone.firstAt_of_only hap fun u => z.fromUtc_eq u ▸ hshown' u
      have hsecond := Zone.firstAt_of_only hap fun u => z.fromUtc_eq u ▸ hshown u
      have hle := hfirst.mono hsecond (by omega)
      have hne : s.instant ≠ t.instant := by
        intro heq
        have hclock := (hshown' s.instant).mpr rfl
        have hclock' := (hshown t.instant).mpr rfl
        rw [heq] at hclock
        omega
      omega
  · have hle := of_decide_eq_false h
    omega

/-- The date or the time of `_temporal`, when the zone beside it was read. -/
def momentIn (p : Platform) (value : Json) (zone : Option String) :
    Except Fault (Moment Aware × Option String) :=
  match value.field? "date", value.field? "dateTime" with
  | some _, some _ => .error invalidEvent
  | some d, none => do
      let text ← string (some d)
      match dateFromIsoformat text with
      | some d => return (.date d, zone)
      | none => .error invalidEvent
  | none, some t => do
      let t ← instant p (some t) zone
      return (.time t, zone)
  | none, none => .error invalidEvent

theorem momentIn_placed (hp : RegularZones p) {value : Json} (zone : Option String) :
    Ensures (momentIn p value zone) fun x => ∀ t, x.1 = .time t → Placed p t := by
  unfold momentIn
  split
  · exact .error _
  · refine .bind_any fun text _ => ?_
    split
    · refine Ensures.pure_iff.mpr fun t heq => ?_
      cases heq
    · exact .error _
  · refine (instant_placed hp).bind fun t ht => Ensures.pure_iff.mpr fun t' heq => ?_
    rwa [← Moment.time.inj heq]
  · exact .error _

theorem temporal_placed (hp : RegularZones p) {value : Option Json} :
    Ensures (temporal p value) fun x => ∀ t, x.1 = .time t → Placed p t := by
  unfold temporal
  split
  · next fields =>
      dsimp only
      refine .ite (fun _ => .error _) fun _ => ?_
      split
      · exact momentIn_placed hp none
      · exact momentIn_placed hp none
      · next name _ =>
          exact .ite (fun _ => .error _) fun _ => momentIn_placed hp (some name)
      · exact .error _
  · exact .error _

theorem timing_ends (hp : RegularZones p) {start stop : Moment Aware}
    (hstart : ∀ t, start = .time t → Placed p t) (hstop : ∀ t, stop = .time t → Placed p t) :
    Ensures (timing start stop) fun when => (when.map Aware.instant).ends = true := by
  cases start with
  | date s =>
      cases stop with
      | time t => exact .error _
      | date t =>
          unfold timing
          refine .ite (fun _ => .error _) fun h => ?_
          rw [Ensures.ok_iff]
          exact decide_eq_true (by omega)
  | time s =>
      cases stop with
      | date t => exact .error _
      | time t =>
          unfold timing
          refine .ite (fun _ => .error _) fun h => ?_
          rw [Ensures.ok_iff]
          exact decide_eq_true ((hstart s rfl).lt hp (hstop t rfl) (Bool.not_eq_true _ |>.mp h))

/-- What a title has to be for the table. -/
def titleFits (eventType : EventType) (isPrivate : Bool) (title : String) : Bool :=
  decide (1 ≤ title.length ∧ title.length ≤ 500) && decide (title.utf8ByteSize ≤ 2000) &&
    if isPrivate then title == "Busy"
    else decide (eventType = .default) || specialTitles.contains title

theorem titleFor_fits {eventType : EventType} {isPrivate : Bool} {title : String}
    (h : titleFor eventType isPrivate item = some title) :
    titleFits eventType isPrivate title = true := by
  obtain ⟨summary, -, hlabel⟩ := Option.bind_eq_some_iff.mp h
  unfold eventLabel at hlabel
  split at hlabel
  · next hprivate =>
      obtain rfl := Option.some.inj hlabel
      rw [hprivate]
      cases eventType with
      | default | focusTime | outOfOffice | workingLocation | birthday => decide
  next hprivate =>
  rw [Bool.not_eq_true] at hprivate
  split at hlabel
  · next label hspecial =>
      obtain rfl := Option.some.inj hlabel
      rw [hprivate]
      cases eventType with
      | default => cases hspecial
      | focusTime | outOfOffice | workingLocation | birthday =>
          obtain rfl := Option.some.inj hspecial
          decide
  next hdefault =>
  dsimp only at hlabel
  split at hlabel
  · next hallowed =>
      obtain rfl := Option.some.inj hlabel
      unfold titleAllowed at hallowed
      simp only [Bool.and_eq_true, decide_eq_true_eq, Bool.not_eq_true',
        String.isEmpty_eq_false_iff]
        at hallowed
      obtain ⟨⟨⟨hne, hlength⟩, hbytes⟩, -⟩ := hallowed
      have hpos : (strip summary).length ≠ 0 :=
        fun hzero => hne (String.length_eq_zero_iff.mp hzero)
      have htype : eventType = .default := by
        cases eventType with
        | default => rfl
        | focusTime | outOfOffice | workingLocation | birthday => cases hdefault
      unfold titleFits
      rw [hprivate, htype, decide_eq_true ⟨by omega, hlength⟩, decide_eq_true hbytes]
      rfl
  · cases hlabel

theorem length_offsetChars_le (o : Offset) : (offsetChars o).length ≤ 16 := by
  unfold offsetChars clockChars
  split <;> split <;> simp <;> split <;> simp

/-- The key of an accepted item is short enough. -/
theorem key_bounds {eventId : String} {series : Option (String × Moment Aware)} :
    Ensures (identityOf eventId series) fun identity =>
      1 ≤ identity.key.length ∧ identity.key.length ≤ 2200 := by
  intro identity h
  have hkey := identityOf_key identity h
  rw [hkey]
  unfold identityOf occurrenceIdentity at h
  by_cases hid : eventId.isEmpty = true ∨ 1024 < eventId.length
  · rw [if_pos hid] at h
    cases h
  rw [if_neg hid] at h
  cases series with
  | none =>
      unfold occurrenceKey
      rw [String.length_append, show "event:".length = 6 from rfl]
      omega
  | some named =>
      obtain ⟨series, start⟩ := named
      simp only [Option.map_some] at h
      by_cases hseries : series.isEmpty = true ∨ 1024 < series.length
      · rw [if_pos hseries] at h
        cases h
      unfold occurrenceKey
      cases start with
      | date d =>
          have hlength : d.isoformat.length = 10 := by
            rw [Date.isoformat, String.length_ofList, Date.length_chars]
          simp only [String.length_append, hlength, show "series:".length = 7 from rfl,
            show ":date:".length = 6 from rfl]
          omega
      | time t =>
          have hlength : t.isoformatMicroseconds.length ≤ 42 := by
            have hoffset := length_offsetChars_le t.offset
            rw [Aware.isoformatMicroseconds, String.length_ofList, Aware.chars, List.length_append,
              Wall.length_chars]
            omega
          simp only [String.length_append, show "series:".length = 7 from rfl,
            show ":instant:".length = 9 from rfl]
          omega

/-- Whatever an item is, it is refused, or its record fits every check of the table. -/
theorem normalized_checked (hp : RegularZones p) :
    Ensures (normalized p item run seenAt) fun x => x.stored.checked = true := by
  intro x hx
  have hparts : (normalized p item run seenAt).toOption = _ := normalized_toOption
  rw [hx] at hparts
  obtain ⟨r, hr, hrecord⟩ := Option.bind_eq_some_iff.mp hparts.symm
  obtain ⟨title, htitle, rfl⟩ := Option.map_eq_some_iff.mp hrecord
  have hrest : restOf p item = .ok r := by
    cases h : restOf p item with
    | error e => rw [h] at hr; cases hr
    | ok r' => rw [h] at hr; exact congrArg Except.ok (Option.some.inj hr)
  obtain ⟨-, hid, ⟨start, stop, hstart, hstop, hwhen⟩, -, identity, hidentity, hkey⟩ :=
    restOf_parts r hrest
  have hidlength : 1 ≤ r.eventId.length ∧ r.eventId.length ≤ 1024 := string_bounds r.eventId hid
  have hidbytes := utf8ByteSize_le r.eventId
  have hkeylength : 1 ≤ r.key.length ∧ r.key.length ≤ 2200 := by
    rw [hkey]
    exact key_bounds identity hidentity
  have hkeybytes := utf8ByteSize_le r.key
  have hplaced := temporal_placed hp start hstart
  have hends := timing_ends hp hplaced (temporal_placed hp stop hstop) r.timing hwhen
  have hfits := titleFor_fits htitle
  unfold titleFits at hfits
  simp only [Bool.and_eq_true, decide_eq_true_eq] at hfits
  obtain ⟨⟨htitlelength, htitlebytes⟩, hminimized⟩ := hfits
  unfold EventRevision.checked
  simp only [Bool.and_eq_true, decide_eq_true_eq]
  exact ⟨⟨⟨⟨⟨⟨⟨⟨⟨hidlength, show r.eventId.utf8ByteSize ≤ 4096 by omega⟩, hkeylength⟩,
    show r.key.utf8ByteSize ≤ 8800 by omega⟩, Nat.le_refl 1⟩, htitlelength⟩, htitlebytes⟩, hends⟩,
    hminimized⟩, Int.le_refl _⟩

/-- Of two hidden events that differ in their summaries the same is stored, unless they are
confidential and have two titles; pages of such events leave the same tables behind, for
every query; and every record that is made fits the checks of its table. -/
theorem private_events_alike (hp : RegularZones p) :
    (∀ a b run seenAt, Hidden a → Alike a b →
      ((normalized p a run seenAt).toOption = (normalized p b run seenAt).toOption ↔
        ¬ Leaks p a b)) ∧
      (∀ db accepted r n tokens total late page page' now ids,
        page.nextPageToken = page'.nextPageToken →
        List.Forall₂ (SameShown p) page.items page'.items →
        (readPage p db accepted r n tokens total late (.ok page) now ids).toOption =
          (readPage p db accepted r n tokens total late (.ok page') now ids).toOption) ∧
      ∀ item run seenAt x, normalized p item run seenAt = .ok x → x.stored.checked = true :=
  ⟨fun _ _ _ _ hhidden h => normalized_alike hhidden h,
    fun _ _ _ _ _ _ _ _ _ _ _ htoken hitems => readPage_alike htoken hitems,
    fun _ _ _ => normalized_checked hp⟩

/-- An event of no special type. -/
def visibleItem (visibility summary : String) : Json :=
  .obj
    [("summary", .str summary),
      ("id", .str "single"),
      ("status", .str "confirmed"),
      ("eventType", .str "default"),
      ("visibility", .str visibility),
      ("etag", .str "1"),
      ("updated", .str "2026-09-01T00:00:00Z"),
      ("start", .obj [("dateTime", .str "2026-09-04T09:00:00+03:00")]),
      ("end", .obj [("dateTime", .str "2026-09-04T10:00:00+03:00")])]

theorem field?_cons_ne {key name : String} {value : Json} {fields : List (String × Json)}
    (h : key ≠ name) :
    (Json.obj ((name, value) :: fields)).field? key = (Json.obj fields).field? key := by
  have hother : ¬ (name == key) = true := fun heq => h (beq_iff_eq.mp heq).symm
  exact congrArg (Option.map Prod.snd) (List.find?_cons_of_neg hother)

theorem visibleItem_alike (visibility summary summary' : String) :
    Alike (visibleItem visibility summary) (visibleItem visibility summary') := by
  refine ⟨⟨_, _, rfl, rfl⟩, fun key hkey => ?_, summary, summary', rfl, rfl⟩
  exact (field?_cons_ne hkey).trans (field?_cons_ne hkey).symm

theorem samplePlatform_regular : RegularZones samplePlatform := nofun

theorem private_events_alike_sample :
    (normalized samplePlatform (visibleItem "private" "Lunch") sampleSyncRun 0).toOption =
        (normalized samplePlatform (visibleItem "private" "Interview") sampleSyncRun 0).toOption ∧
      ∃ x, normalized samplePlatform (visibleItem "private" "Lunch") sampleSyncRun 0 = .ok x ∧
        x.stored.checked = true := by
  obtain ⟨hsame, -, hchecked⟩ := private_events_alike samplePlatform_regular
  have hno : ¬ Leaks samplePlatform (visibleItem "private" "Lunch")
      (visibleItem "private" "Interview") := fun h => absurd h.confidential (by decide)
  refine ⟨(hsame _ _ sampleSyncRun 0 (.inl rfl) (visibleItem_alike _ _ _)).mpr hno, ?_⟩
  have hok : (normalized samplePlatform (visibleItem "private" "Lunch") sampleSyncRun
      0).toOption.isSome = true := by decide +kernel
  cases hx : normalized samplePlatform (visibleItem "private" "Lunch") sampleSyncRun 0 with
  | error e => rw [hx] at hok; cases hok
  | ok x => exact ⟨x, rfl, hchecked _ _ _ x hx⟩

/-- The summary of a confidential event is stored as its title. -/
theorem confidential_summary_stored :
    Hidden (visibleItem "confidential" "Lunch") ∧
      Alike (visibleItem "confidential" "Lunch") (visibleItem "confidential" "Interview") ∧
      ((normalized samplePlatform (visibleItem "confidential" "Lunch") sampleSyncRun
          0).toOption.map (·.title) = some "Lunch" ∧
        (normalized samplePlatform (visibleItem "confidential" "Interview") sampleSyncRun
          0).toOption.map (·.title) = some "Interview") :=
  ⟨.inr (.inl rfl), visibleItem_alike _ _ _, by decide +kernel, by decide +kernel⟩

end Calendar

end SecondBrain
