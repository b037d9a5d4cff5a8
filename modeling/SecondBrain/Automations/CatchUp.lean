import Mathlib.Data.Int.LeastGreatest
import Mathlib.Data.Set.Card
import SecondBrain.Automations.NextPoint
import SecondBrain.Connectors.Scheduler

/-!
# Catching up

After a downtime both schedulers go from the stored slot on to the last that is due. The
one for refreshes asks for the next point of each slot, so that every slot is met. The one
for automations goes on from the local date that the slot is shown on. Where a gap carries a
slot over midnight, that is a date later, and the slot of that date is passed over.
-/

namespace SecondBrain

open Lib

namespace Automations

variable (zoneInfo : ZoneInfo)

/-! ## The automation scheduler -/

inductive CatchUpFault where
  /-- `SchedulerValidationError`. -/
  | validation
  | schedule (e : ScheduleFault)
deriving DecidableEq, Repr

/-- `_scheduled_point`. -/
def scheduledPoint (d : ScheduleDefinition) (scheduledAt : Int) :
    Except ScheduleFault SchedulePoint := do
  let z ← zoneOf zoneInfo d.timezoneName
  let shown := z.fromUtc scheduledAt
  if ¬ representable shown then .error .overflow
  else return {
    localDate := shown / 86400000000
    localTime := shown % 86400000000
    timezoneName := d.timezoneName
    utcOffsetMinutes := (shown - scheduledAt) / 60000000
    utcInstant := scheduledAt }

/-- The loop of `_latest_due_and_future`. -/
def latestAndFollowing (d : ScheduleDefinition) (now : Int) :
    Nat → SchedulePoint → Except CatchUpFault (SchedulePoint × Option SchedulePoint)
  | 0, _ => .error .validation
  | rounds + 1, latest =>
      match nextPoint zoneInfo d (some latest.utcInstant) (some latest) with
      | .error e => .error (.schedule e)
      | .ok none => .ok (latest, none)
      | .ok (some following) =>
          if now < following.utcInstant then .ok (latest, some following)
          else latestAndFollowing d now rounds following

/-- `MAX_LOOKBACK`, of seven days. -/
def maxLookback : Int := 604800000000

/-- `_latest_due_and_future`. -/
def latestDueAndFuture (d : ScheduleDefinition) (nextOccurrenceAt : Option Int) (now : Int) :
    Except CatchUpFault (SchedulePoint × Option SchedulePoint × Bool) :=
  match nextOccurrenceAt with
  | none => .error .validation
  | some scheduledAt =>
      match scheduledPoint zoneInfo d scheduledAt with
      | .error e => .error (.schedule e)
      | .ok point =>
          match latestAndFollowing zoneInfo d now 1000000 point with
          | .error e => .error e
          | .ok (latest, following) =>
              .ok (latest, following, decide (point.utcInstant < now - maxLookback))

variable {zoneInfo} {z : Zone} {d : ScheduleDefinition} {after date day t : Int}
  {point : SchedulePoint}

/-! ## Progress -/

theorem search_later {forward : Int → Int} {step : Int} {rounds : Nat}
    {answer : Option SchedulePoint}
    (h : search zoneInfo d after forward step rounds date = .ok answer) :
    ∃ point, answer = some point ∧ after < point.utcInstant := by
  induction rounds generalizing date with
  | zero => cases h
  | succ rounds ih =>
      rw [search] at h
      obtain ⟨next, -, h⟩ := bind_ok h
      obtain ⟨result, -, h⟩ := bind_ok h
      split at h
      · next hlater => exact ⟨result, (Except.ok.inj h).symm, hlater⟩
      · obtain ⟨step, -, h⟩ := bind_ok h
        exact ih h

/-- A next point is after its reference. -/
theorem nextPoint_later {prior : Option SchedulePoint}
    (h : nextPoint zoneInfo d (some after) prior = .ok (some point)) :
    after < point.utcInstant := by
  have hsearch : ∀ {forward step rounds date},
      search zoneInfo d after forward step rounds date = .ok (some point) →
        after < point.utcInstant := by
    intro forward step rounds date h
    obtain ⟨result, hsome, hlater⟩ := search_later h
    cases hsome
    exact hlater
  rw [nextPoint] at h
  obtain ⟨-, -, h⟩ := bind_ok h
  dsimp only at h
  split at h
  · cases h
  split at h
  · obtain ⟨result, -, h⟩ := bind_ok h
    have hsome := Except.ok.inj h
    split at hsome
    · next hlater =>
        cases hsome
        exact hlater
    · cases hsome
  obtain ⟨zone, -, h⟩ := bind_ok h
  split at h
  · split at h
    · cases h
    · split at h
      · exact hsearch h
      · exact hsearch h
  · split at h
    · obtain ⟨next, -, h⟩ := bind_ok h
      exact hsearch h
    · obtain ⟨next, -, h⟩ := bind_ok h
      exact hsearch h

end Automations

/-! ## The refresh scheduler -/

namespace Connectors

def ScheduleKind.calculated : ScheduleKind → Automations.ScheduleKind
  | .oneTime => .oneTime
  | .daily => .daily
  | .weekly => .weekly

/-- `definition`: every interval is one. -/
def ScheduleDefinition.calculated (d : ScheduleDefinition) (h : d.localTime < 1440) :
    Automations.ScheduleDefinition :=
  { kind := d.kind.calculated
    timezoneName := d.timezoneName
    localTime := d.localTime * 60000000
    oneTimeLocalDate := d.oneTimeLocalDate
    weekdays := d.weekdays.map Int.ofNat
    intervalCount := 1
    localTime_lt := by omega }

/-- The slots that the schedules are calculated to have. -/
def clockwork (zoneInfo : Automations.ZoneInfo) (isoformat : Instant → String) : Clockwork where
  nextPoint d after :=
    if h : d.localTime < 1440 then
      match Automations.nextPoint zoneInfo (d.calculated h) (some after) none with
      | .error _ => .error ()
      | .ok point => .ok (point.map (·.utcInstant))
    else .error ()
  isoformat := isoformat
  progress := by
    intro d t slot h
    split at h
    · split at h
      · cases h
      · next hpoint =>
          obtain ⟨point, rfl, rfl⟩ := Option.map_eq_some_iff.mp (Except.ok.inj h)
          exact Automations.nextPoint_later hpoint
    · cases h

end Connectors

namespace Automations

variable {zoneInfo : ZoneInfo} {z : Zone} {d : ScheduleDefinition} {point : SchedulePoint}
  {after bound now date day day' s t t' v N : Int}

/-! ## Where a slot is shown -/

/-- The point of a slot. -/
def pointAt (z : Zone) (d : ScheduleDefinition) (t : Int) : SchedulePoint :=
  { localDate := localDate z t
    localTime := z.fromUtc t % 86400000000
    timezoneName := d.timezoneName
    utcOffsetMinutes := (z.fromUtc t - t) / 60000000
    utcInstant := t }

theorem zoneOf_found (hzone : zoneInfo d.timezoneName = .found z) :
    zoneOf zoneInfo d.timezoneName = .ok z := by
  rw [zoneOf, hzone]

theorem pointOn_eq (hzone : zoneInfo d.timezoneName = .found z)
    (h : pointOn zoneInfo d day = .ok point) : point = pointAt z d point.utcInstant := by
  rw [pointOn] at h
  obtain ⟨zone, hsame, h⟩ := bind_ok h
  rw [zoneOf_found hzone] at hsame
  obtain rfl := Except.ok.inj hsame
  obtain ⟨⟨shown, offset⟩, hresolve, h⟩ := bind_ok h
  obtain ⟨-, hvalid⟩ := resolveLocal_ok hresolve
  obtain ⟨-, hback⟩ := validFold_some hvalid
  cases h
  simp only [pointAt, localDate, hback, Int.sub_sub_self]

/-- A slot and the local time that it is shown at can be held. -/
theorem Resolves.representable (h : Resolves z d day t) :
    representable t = true ∧ representable (z.fromUtc t) = true := by
  obtain ⟨shown, offset, hresolve, rfl⟩ := h
  obtain ⟨-, hvalid⟩ := resolveLocal_ok hresolve
  have hoffset := (validFold_some hvalid).1
  rw [validFold] at hvalid
  split at hvalid
  · cases hvalid
  · next hfits =>
      rw [← hoffset, not_or, not_or, not_not, not_not, not_not] at hfits
      exact hfits.2

/-- A slot is shown on its date or on the next one. -/
theorem Resolves.shown_on (hz : z.Regular) (h : Resolves z d day t) :
    day ≤ localDate z t ∧ localDate z t ≤ day + 1 := by
  obtain ⟨shown, hslot⟩ := h.slotAt hz
  have hwithin := hslot.within
  have htime := d.localTime_lt
  rw [ScheduleDefinition.wall] at hwithin
  rw [localDate, hslot.exact]
  omega

/-- Nothing before a slot is shown on a later date. -/
theorem Resolves.localDate_le (hz : z.Regular) (h : Resolves z d day t) (hv : v < t) :
    localDate z v ≤ localDate z t := by
  obtain ⟨shown, hslot⟩ := h.slotAt hz
  have hearlier := hslot.first.earlier v hv
  rw [← Zone.fromUtc_eq] at hearlier
  rw [localDate, localDate, hslot.exact]
  omega

/-- A later slot is not of a date before the one that a slot is shown on. -/
theorem Resolves.date_from (hz : z.Regular) (h : Resolves z d day t) (h' : Resolves z d day' t')
    (hlt : t < t') : localDate z t ≤ day' := by
  by_contra hbefore
  have hshown := h.shown_on hz
  have hle := h'.mono hz h (by omega)
  omega

/-- The slot of a date after the one that a slot is shown on is later. -/
theorem Resolves.lt_of_date (hz : z.Regular) (h : Resolves z d day t) (h' : Resolves z d day' t')
    (hlt : localDate z t < day') : t < t' := by
  have hshown := h.shown_on hz
  have hshown' := h'.shown_on hz
  have hle := h.mono hz h' (by omega)
  by_contra hnot
  obtain rfl : t = t' := by omega
  omega

/-! ## The first date whose slot is later -/

/-- From a date on, the listed dates resolve to instants up to a bound until one resolves to
`t`, which is later. -/
def FirstLater (z : Zone) (d : ScheduleDefinition) (bound date t : Int) : Prop :=
  ∃ day, date ≤ day ∧ Listed d day ∧ Resolves z d day t ∧ bound < t ∧
    ∀ day', Listed d day' → date ≤ day' → day' < day → ∃ t' ≤ bound, Resolves z d day' t'

theorem FirstLater.least (hz : z.Regular) (h : FirstLater z d bound date t)
    (hlisted : Listed d day') (hdate : date ≤ day') (hresolves : Resolves z d day' t')
    (hlater : bound < t') : t ≤ t' := by
  obtain ⟨day, hfrom, -, hslot, hbound, hbefore⟩ := h
  by_cases hlt : day' < day
  · obtain ⟨u, hu, hsame⟩ := hbefore day' hlisted hdate hlt
    have heq := hsame.unique hresolves
    omega
  · exact hslot.mono hz hresolves (by omega)

theorem FirstLater.unique (hz : z.Regular) (h : FirstLater z d bound date t)
    (h' : FirstLater z d bound date t') : t = t' := by
  have hle : ∀ {u v}, FirstLater z d bound date u → FirstLater z d bound date v → u ≤ v := by
    intro u v hu hv
    obtain ⟨day, hfrom, hlisted, hslot, hbound, -⟩ := hv
    exact hu.least hz hlisted hfrom hslot hbound
  have hfirst := hle h h'
  have hsecond := hle h' h
  omega

theorem FirstLater.isSlot (h : FirstLater z d bound date t) : IsSlot z d t ∧ bound < t := by
  obtain ⟨day, -, hlisted, hslot, hbound, -⟩ := h
  exact ⟨⟨day, hlisted, hslot⟩, hbound⟩

/-- With a smaller bound there is a first date too. -/
theorem FirstLater.exists_first (h : FirstLater z d now date N) (hle : bound ≤ now) :
    ∃ t, FirstLater z d bound date t := by
  obtain ⟨last, hfrom, hlisted, hslot, hbound, hbefore⟩ := h
  obtain ⟨day, ⟨hday, hdate, t, ht, hlater⟩, hleast⟩ := Int.exists_least_of_bdd
    (P := fun day => Listed d day ∧ date ≤ day ∧ ∃ t, Resolves z d day t ∧ bound < t)
    ⟨date, fun day h => h.2.1⟩ ⟨last, hlisted, hfrom, N, hslot, by omega⟩
  refine ⟨t, day, hdate, hday, ht, hlater, fun day' hday' hdate' hlt => ?_⟩
  have hlast := hleast last ⟨hlisted, hfrom, N, hslot, by omega⟩
  obtain ⟨t', ht', hresolves⟩ := hbefore day' hday' hdate' (by omega)
  refine ⟨t', ?_, hresolves⟩
  by_contra hnot
  have hle' := hleast day' ⟨hday', hdate', t', hresolves, by omega⟩
  omega

theorem FirstLater.of_past (h : FirstLater z d bound date t) (hle : bound ≤ now) (hlater : now < t) :
    FirstLater z d now date t := by
  obtain ⟨day, hfrom, hlisted, hslot, -, hbefore⟩ := h
  refine ⟨day, hfrom, hlisted, hslot, hlater, fun day' hday' hdate hlt => ?_⟩
  obtain ⟨t', hearly, hslot'⟩ := hbefore day' hday' hdate hlt
  exact ⟨t', by omega, hslot'⟩

/-- From a slot that was found the search for a later bound goes on as from before it. -/
theorem FirstLater.advance (hz : z.Regular) (h : FirstLater z d v date t) (hnow : t ≤ now) :
    FirstLater z d now date N ↔ FirstLater z d now (localDate z t) N := by
  obtain ⟨day, hfrom, -, hslot, hv, hbefore⟩ := h
  have hshown := hslot.shown_on hz
  constructor
  · rintro ⟨last, -, hlisted, hlast, hbound, hprior⟩
    refine ⟨last, hslot.date_from hz hlast (by omega), hlisted, hlast, hbound, ?_⟩
    exact fun day' hday' hdate hlt => hprior day' hday' (by omega) hlt
  · rintro ⟨last, hdate, hlisted, hlast, hbound, hprior⟩
    refine ⟨last, by omega, hlisted, hlast, hbound, fun day' hday' hdate' hlt => ?_⟩
    rcases Int.lt_trichotomy day' day with hearly | rfl | hlate
    · obtain ⟨u, hu, hresolves⟩ := hbefore day' hday' hdate' hearly
      exact ⟨u, by omega, hresolves⟩
    · exact ⟨t, hnow, hslot⟩
    · exact hprior day' hday' (by omega) hlt

/-- A first later date from the one that a slot is shown on has the next slot. -/
theorem FirstLater.next (hz : z.Regular) (hslot : IsSlot z d t) (hle : t ≤ bound)
    (h : FirstLater z d bound (localDate z t) s) : IsLeast {u | IsSlot z d u ∧ bound < u} s := by
  refine ⟨h.isSlot, ?_⟩
  rintro u ⟨⟨day, hlisted, hday⟩, hlater⟩
  obtain ⟨own, -, hown⟩ := hslot
  exact h.least hz hlisted (hown.date_from hz hday (by omega)) hday hlater

theorem FirstLater.of_slot (hz : z.Regular) (hslot : IsSlot z d t) (hle : t ≤ bound)
    (hdate : date ≤ localDate z t) (h : FirstLater z d bound date s) :
    FirstLater z d bound (localDate z t) s := by
  obtain ⟨day, hfrom, hlisted, hday, hlater, hbefore⟩ := h
  obtain ⟨own, -, hown⟩ := hslot
  refine ⟨day, hown.date_from hz hday (by omega), hlisted, hday, hlater, ?_⟩
  exact fun day' hday' hdate' hlt => hbefore day' hday' (by omega) hlt

/-! ## What the search finds -/

theorem hit_iff_firstLater (hzone : zoneInfo d.timezoneName = .found z) :
    (∃ day, Hit zoneInfo d after date point day) ↔
      point = pointAt z d point.utcInstant ∧ FirstLater z d after date point.utcInstant := by
  have hresolves : ∀ {day t}, (∃ p, pointOn zoneInfo d day = .ok p ∧ p.utcInstant = t) ↔
      Resolves z d day t := pointOn_iff hzone
  constructor
  · rintro ⟨day, hit⟩
    refine ⟨pointOn_eq hzone hit.found, day, hit.from_date, hit.listed,
      hresolves.mp ⟨point, hit.found, rfl⟩, hit.later, fun day' hday' hdate hlt => ?_⟩
    obtain ⟨point', hfound, hearly⟩ := hit.before day' hday' hdate hlt
    exact ⟨_, hearly, hresolves.mp ⟨point', hfound, rfl⟩⟩
  · rintro ⟨hpoint, day, hdate, hlisted, hslot, hlater, hbefore⟩
    obtain ⟨found, hfound, hsame⟩ := hresolves.mpr hslot
    have heq : found = point := by
      rw [pointOn_eq hzone hfound, hsame]
      exact hpoint.symm
    subst heq
    refine ⟨day, hdate, hlisted, hfound, hlater, fun day' hday' hdate' hlt => ?_⟩
    obtain ⟨t', hearly, hslot'⟩ := hbefore day' hday' hdate' hlt
    obtain ⟨point', hfound', rfl⟩ := hresolves.mpr hslot'
    exact ⟨point', hfound', hearly⟩

/-- The search comes to a first hit within its rounds. -/
theorem search_hit {forward : Int → Int} (hforward : MovesForward d forward) {rounds : Nat}
    (hit : Hit zoneInfo d after date point day) (hfirst : firstDay ≤ date)
    (hrounds : day - date < rounds) :
    search zoneInfo d after forward 1 rounds date = .ok (some point) := by
  induction rounds generalizing date with
  | zero =>
      have hfrom := hit.from_date
      omega
  | succ rounds ih =>
      have hfrom := hit.from_date
      have hlast := hit.listed.1.2
      have hbound := hforward.bound date
      have hle : date + forward date ≤ day := by
        by_contra hpast
        exact hforward.skipped date day hfrom (by omega) hit.listed
      have hrange : firstDay ≤ date + forward date ∧ date + forward date ≤ lastDay := by omega
      have hnext : Listed d (date + forward date) := hforward.listed date hrange.1 hrange.2
      rw [search, plusDays_eq hrange]
      show (pointOn zoneInfo d (date + forward date) >>= _) = _
      by_cases hsame : date + forward date = day
      · rw [hsame, hit.found]
        exact if_pos hit.later
      · obtain ⟨point', hfound, hearly⟩ := hit.before _ hnext (by omega) (by omega)
        rw [hfound]
        show ite (after < point'.utcInstant) _ _ = _
        rw [if_neg (by omega), plusDays_eq (by omega)]
        refine ih ⟨by omega, hit.listed, hit.found, hit.later, fun day' hday' hdate hlt => ?_⟩
          (by omega) (by omega)
        exact hit.before day' hday' (by omega) hlt

/-- A first hit is within days of the reference. -/
theorem Hit.near (hzone : zoneInfo d.timezoneName = .found z) (hz : z.Regular)
    {forward : Int → Int} (hforward : MovesForward d forward)
    (hit : Hit zoneInfo d after date point day) (hdate : date ≤ localDate z after + 1)
    (hfirst : firstDay ≤ localDate z after) : day ≤ localDate z after + 9 := by
  by_contra hfar
  have hbound := hforward.bound (localDate z after + 3)
  have hlast := hit.listed.1.2
  have hlisted := hforward.listed (localDate z after + 3) (by omega) (by omega)
  obtain ⟨point', hfound, hearly⟩ := hit.before _ hlisted (by omega) (by omega)
  have hresolves : Resolves z d _ _ := (pointOn_iff hzone).mp ⟨point', hfound, rfl⟩
  have hlater : after < point'.utcInstant := hresolves.past hz (by omega)
  omega

theorem localDate_first (h : representable (z.fromUtc after) = true) :
    firstDay ≤ localDate z after := by
  rw [Lib.representable, decide_eq_true_eq] at h
  rw [firstDay, localDate]
  omega

/-- How a daily or weekly definition searches. -/
theorem validateDefinition_forward (hvalid : validateDefinition zoneInfo d = .ok ())
    (hdate : d.oneTimeLocalDate = none) :
    (d.kind = .daily ∧ MovesForward d fun _ => 0) ∨
      d.kind = .weekly ∧ d.weekdays ≠ [] ∧ (∀ weekday ∈ d.weekdays, 1 ≤ weekday ∧ weekday ≤ 7) ∧
        MovesForward d (daysForward d.weekdays) := by
  rcases validateDefinition_ok hvalid with ⟨-, hsome⟩ | ⟨-, hkind | ⟨hkind, hweekdays, hrange⟩⟩
  · rw [hdate] at hsome
    cases hsome
  · exact .inl ⟨hkind, daily_forward hkind⟩
  · exact .inr ⟨hkind, hweekdays, hrange, weekly_forward hkind hweekdays hrange⟩

/-- Without a prior point: the first later date, from the local date of the reference on. -/
theorem nextPoint_first (hvalid : validateDefinition zoneInfo d = .ok ())
    (hzone : zoneInfo d.timezoneName = .found z) (hz : z.Regular)
    (hdate : d.oneTimeLocalDate = none) (hafter : representable after = true)
    {answer : Option SchedulePoint} :
    nextPoint zoneInfo d (some after) none = .ok answer ↔
      representable (z.fromUtc after) = true ∧ ∃ point, answer = some point ∧
        point = pointAt z d point.utcInstant ∧
          FirstLater z d after (localDate z after) point.utcInstant := by
  by_cases hlocal : representable (z.fromUtc after) = true
  · obtain ⟨forward, rounds, hforward, hrounds, hsearch⟩ :=
      nextPoint_search hvalid hzone hdate hafter hlocal
    rw [hsearch, and_iff_right hlocal]
    constructor
    · intro h
      obtain ⟨point, day, hanswer, hit⟩ := search_ok hforward h
      exact ⟨point, hanswer, (hit_iff_firstLater hzone).mp ⟨day, hit⟩⟩
    · rintro ⟨point, rfl, hfound⟩
      obtain ⟨day, hit⟩ := (hit_iff_firstLater hzone).mpr hfound
      have hnear := hit.near hzone hz hforward (by omega) (localDate_first hlocal)
      exact search_hit hforward hit (localDate_first hlocal) (by omega)
  · refine ⟨fun h => ?_, fun h => absurd h.1 hlocal⟩
    rw [nextPoint, hvalid] at h
    replace h : ite _ _ _ = _ := h
    rw [if_neg (not_not.mpr hafter), hdate] at h
    obtain ⟨zone, hsame, h⟩ := bind_ok h
    rw [zoneOf_found hzone] at hsame
    obtain rfl := Except.ok.inj hsame
    rw [if_pos hlocal] at h
    cases h

/-- After a prior point a weekly definition without an interval goes to the next weekday that is
listed. -/
theorem daysAfterPrior_least (hrange : ∀ weekday ∈ d.weekdays, 1 ≤ weekday ∧ weekday ≤ 7)
    (hsome : d.weekdays ≠ []) (hinterval : d.intervalCount = 1) :
    1 ≤ daysAfterPrior d date ∧ ∀ weekday ∈ d.weekdays,
      daysAfterPrior d date ≤ (weekday - isoWeekday date - 1) % 7 + 1 := by
  have hmem : ∀ weekday, weekday ∈ d.weekdays.insertionSort (· ≤ ·) ↔ weekday ∈ d.weekdays :=
    fun weekday => List.mem_insertionSort _
  have hsorted := List.pairwise_insertionSort (· ≤ ·) d.weekdays
  have hweekday := isoWeekday_le date
  rw [daysAfterPrior, hinterval]
  generalize d.weekdays.insertionSort (· ≤ ·) = sorted at hmem hsorted
  split
  · next later hfind =>
      obtain ⟨hlater, early, late, rfl, hearly⟩ := List.find?_eq_some_iff_append.mp hfind
      have hafter : (isoWeekday date : Int) < later := of_decide_eq_true hlater
      refine ⟨by omega, fun weekday hweekday => ?_⟩
      have hbound := hrange weekday hweekday
      have hbound' := hrange later ((hmem later).mp (by simp))
      rcases List.mem_append.mp ((hmem weekday).mpr hweekday) with hday | hday
      · have hnot := hearly weekday hday
        simp at hnot
        omega
      · have hle : later ≤ weekday := by
          rcases List.mem_cons.mp hday with rfl | hday
          · exact Int.le_refl _
          · exact (List.pairwise_cons.mp (List.pairwise_append.mp hsorted).2.1).1 weekday hday
        omega
  · next hfind =>
      rw [List.find?_eq_none] at hfind
      cases sorted with
      | nil =>
          obtain ⟨weekday, hweekday⟩ := List.exists_mem_of_ne_nil _ hsome
          cases (hmem weekday).mpr hweekday
      | cons first rest =>
          have hfirst := hrange first ((hmem first).mp List.mem_cons_self)
          show 1 ≤ 7 - (isoWeekday date : Int) + first + 7 * (1 - 1) ∧ _
          refine ⟨by omega, fun weekday hweekday => ?_⟩
          have hbound := hrange weekday hweekday
          have hday := (hmem weekday).mpr hweekday
          have hnot := hfind weekday hday
          simp at hnot
          have hle : first ≤ weekday := by
            rcases List.mem_cons.mp hday with rfl | hday
            · exact Int.le_refl _
            · exact (List.pairwise_cons.mp hsorted).1 weekday hday
          show 7 - (isoWeekday date : Int) + first + 7 * (1 - 1) ≤ _
          omega

theorem weekly_skips {n : Int} (hkind : d.kind = .weekly)
    (hleast : ∀ weekday ∈ d.weekdays, n ≤ (weekday - isoWeekday date - 1) % 7 + 1)
    (hlt : date < day) (hbefore : day < date + n) : ¬ Listed d day := by
  intro h
  have hday := h.2
  rw [hkind] at hday
  have hle := hleast _ hday
  rw [isoWeekday, isoWeekday] at hle
  omega

/-- Dates that are not listed make no difference before the first later one. -/
theorem FirstLater.skip (hle : date ≤ day') (hskip : ∀ day, date ≤ day → day < day' → ¬ Listed d day) :
    FirstLater z d bound date t ↔ FirstLater z d bound day' t := by
  constructor
  · rintro ⟨day, hdate, hlisted, hslot, hlater, hbefore⟩
    refine ⟨day, ?_, hlisted, hslot, hlater, fun other hother hfrom hlt => ?_⟩
    · by_contra hearly
      exact hskip day hdate (by omega) hlisted
    · exact hbefore other hother (by omega) hlt
  · rintro ⟨day, hdate, hlisted, hslot, hlater, hbefore⟩
    refine ⟨day, by omega, hlisted, hslot, hlater, fun other hother hfrom hlt => ?_⟩
    refine hbefore other hother ?_ hlt
    by_contra hearly
    exact hskip other hfrom (by omega) hother

/-- After the point of a slot: the first later date after the one that it is shown on. -/
theorem nextPoint_after_prior (hvalid : validateDefinition zoneInfo d = .ok ())
    (hzone : zoneInfo d.timezoneName = .found z) (hz : z.Regular)
    (hdate : d.oneTimeLocalDate = none) (hinterval : d.intervalCount = 1)
    (hafter : representable after = true) (hlocal : representable (z.fromUtc after) = true)
    {answer : Option SchedulePoint} :
    nextPoint zoneInfo d (some after) (some (pointAt z d after)) = .ok answer ↔
      ∃ point, answer = some point ∧ point = pointAt z d point.utcInstant ∧
        FirstLater z d after (localDate z after + 1) point.utcInstant := by
  have hfirst := localDate_first hlocal
  have hsearch : ∀ {forward rounds} (n : Int), MovesForward d forward → 367 ≤ rounds →
      1 ≤ n → (∀ day, localDate z after + 1 ≤ day → day < localDate z after + n → ¬ Listed d day) →
      ((plusDays (localDate z after) n >>= fun date =>
          search zoneInfo d after forward 1 rounds date) = .ok answer ↔
        ∃ point, answer = some point ∧ point = pointAt z d point.utcInstant ∧
          FirstLater z d after (localDate z after + 1) point.utcInstant) := by
    intro forward rounds n hforward hrounds hn hskip
    constructor
    · intro h
      obtain ⟨start, hstart, h⟩ := bind_ok h
      obtain ⟨rfl, -⟩ := plusDays_ok hstart
      obtain ⟨point, day, hanswer, hit⟩ := search_ok hforward h
      obtain ⟨hpoint, hfound⟩ := (hit_iff_firstLater hzone).mp ⟨day, hit⟩
      exact ⟨point, hanswer, hpoint, (FirstLater.skip (by omega) hskip).mpr hfound⟩
    · rintro ⟨point, rfl, hpoint, hfound⟩
      obtain ⟨day, hit⟩ := (hit_iff_firstLater hzone).mpr ⟨hpoint, hfound⟩
      have hnear := hit.near hzone hz hforward (by omega) hfirst
      have hfrom : localDate z after + n ≤ day := by
        by_contra hearly
        exact hskip day hit.from_date (by omega) hit.listed
      have hlast := hit.listed.1.2
      rw [plusDays_eq (by omega)]
      refine search_hit hforward ⟨hfrom, hit.listed, hit.found, hit.later, ?_⟩ (by omega) (by omega)
      exact fun day' hday' hdate' hlt => hit.before day' hday' (by omega) hlt
  rw [nextPoint, hvalid]
  show ite _ _ _ = _ ↔ _
  rw [if_neg (not_not.mpr hafter), hdate]
  show (zoneOf zoneInfo d.timezoneName >>= _) = _ ↔ _
  rw [zoneOf_found hzone]
  rcases validateDefinition_forward hvalid hdate with
    ⟨hkind, hforward⟩ | ⟨hkind, hsome, hrange, hforward⟩
  · rw [hkind, hinterval]
    exact hsearch 1 hforward (Nat.le_refl _) (by omega) fun day hle hlt => by omega
  · have hprior := @daysAfterPrior_least d (localDate z after) hrange hsome hinterval
    rw [hkind]
    exact hsearch _ hforward (by omega) hprior.1 fun day hle hlt =>
      weekly_skips hkind hprior.2 (by omega) hlt

/-! ## Slots that are passed over -/

/-- A gap carries a slot over midnight, and the later slot `t'` is of no date after the one
that the slot is shown on. -/
def Onto (z : Zone) (d : ScheduleDefinition) (t t' : Int) : Prop :=
  IsSlot z d t ∧ IsSlot z d t' ∧ t < t' ∧
    ∀ day, Listed d day → Resolves z d day t' → day ≤ localDate z t

/-- From a stored slot on, a slot is passed over where the slot before it is carried onto its
date and is not passed over itself. -/
def PassedOver (z : Zone) (d : ScheduleDefinition) (stored t : Int) : Prop :=
  ∃ p, ∃ _ : stored ≤ p ∧ p < t, Onto z d p t ∧ ¬ PassedOver z d stored p
termination_by (t - stored).toNat
decreasing_by omega

variable {stored p : Int}

theorem passedOver_iff :
    PassedOver z d stored t ↔ ∃ p, stored ≤ p ∧ Onto z d p t ∧ ¬ PassedOver z d stored p := by
  rw [PassedOver]
  constructor
  · rintro ⟨p, hrange, honto, hpassed⟩
    exact ⟨p, hrange.1, honto, hpassed⟩
  · rintro ⟨p, hrange, honto, hpassed⟩
    exact ⟨p, ⟨hrange, honto.2.2.1⟩, honto, hpassed⟩

/-- The slot that another is carried onto the date of is the next one. -/
theorem Onto.next (hz : z.Regular) (h : Onto z d t s) : IsLeast {u | IsSlot z d u ∧ t < u} s := by
  obtain ⟨⟨own, -, hown⟩, hs, hlt, hdates⟩ := h
  refine ⟨⟨hs, hlt⟩, ?_⟩
  rintro u ⟨⟨day, -, hday⟩, hlater⟩
  obtain ⟨date, hlisted, hdate⟩ := hs
  have hfrom := hown.date_from hz hday hlater
  have hle := hdates date hlisted hdate
  exact hdate.mono hz hday (by omega)

/-- There is one slot before a slot. -/
theorem before_unique (ht : IsSlot z d t) (hp : IsSlot z d p)
    (hnext : IsLeast {u | IsSlot z d u ∧ t < u} s) (hnext' : IsLeast {u | IsSlot z d u ∧ p < u} s) :
    p = t := by
  have hlt := hnext.1.2
  have hlt' := hnext'.1.2
  rcases Int.lt_trichotomy p t with hless | heq | hgreater
  · have hle := hnext'.2 ⟨ht, hless⟩
    omega
  · exact heq
  · have hle := hnext.2 ⟨hp, hgreater⟩
    omega

theorem passedOver_next (hz : z.Regular) (ht : IsSlot z d t)
    (hnext : IsLeast {u | IsSlot z d u ∧ t < u} s) :
    PassedOver z d stored s ↔ stored ≤ t ∧ Onto z d t s ∧ ¬ PassedOver z d stored t := by
  rw [passedOver_iff]
  constructor
  · rintro ⟨p, hp, honto, hpassed⟩
    obtain rfl := before_unique ht honto.1 hnext (honto.next hz)
    exact ⟨hp, honto, hpassed⟩
  · rintro ⟨hstored, honto, hpassed⟩
    exact ⟨t, hstored, honto, hpassed⟩

/-- The next slot is of a date after the one that a slot is shown on, or the slot is carried
onto its date. -/
theorem onto_or_later (hz : z.Regular) (ht : IsSlot z d t)
    (h : FirstLater z d t (localDate z t) s) :
    Onto z d t s ∨ FirstLater z d t (localDate z t + 1) s := by
  by_cases honto : Onto z d t s
  · exact .inl honto
  refine .inr ?_
  obtain ⟨hs, hlater⟩ := h.isSlot
  obtain ⟨late, hlate, hslot', hpast⟩ :
      ∃ late, Listed d late ∧ Resolves z d late s ∧ localDate z t < late := by
    by_contra hnone
    refine honto ⟨ht, hs, hlater, fun day hday hslot => ?_⟩
    by_contra hpast
    exact hnone ⟨day, hday, hslot, by omega⟩
  obtain ⟨day, hfrom, hlisted, hslot, -, hbefore⟩ := h
  by_cases hsame : day = localDate z t
  · -- A slot of this date and of a later one is of this date and of the next.
    have hshown := hslot.shown_on hz
    have hshown' := hslot'.shown_on hz
    refine ⟨late, by omega, hlate, hslot', hlater, fun day' hday' hfrom' hlt => ?_⟩
    omega
  · exact ⟨day, by omega, hlisted, hslot, hlater, fun day' hday' hfrom' hlt =>
      hbefore day' hday' (by omega) hlt⟩

theorem Onto.not_later (h : Onto z d t s) : ¬ FirstLater z d t (localDate z t + 1) s := by
  rintro ⟨day, hfrom, hlisted, hslot, -⟩
  have hle := h.2.2.2 day hlisted hslot
  omega

/-- After a slot that is carried onto the date of the next comes the one after that. -/
theorem Onto.skips {u : Int} (hz : z.Regular) (h : Onto z d t s)
    (hnext : FirstLater z d s (localDate z s) u) : FirstLater z d t (localDate z t + 1) u := by
  have hleast := h.next hz
  obtain ⟨⟨own, -, hown⟩, ⟨date, hlisted, hdate⟩, hlt, hdates⟩ := h
  have hupto := hdates date hlisted hdate
  have hon := hown.date_from hz hdate hlt
  have hshown := hdate.shown_on hz
  obtain ⟨day, hfrom, hday, hslot, hlater, hbefore⟩ := hnext
  have hpast : localDate z t < day := by
    by_contra hearly
    have hle := hslot.mono hz hdate (by omega)
    omega
  refine ⟨day, by omega, hday, hslot, by omega, fun day' hday' hfrom' hlt' => ?_⟩
  obtain ⟨t', hle, hslot'⟩ := hbefore day' hday' (by omega) hlt'
  have hlate := hown.lt_of_date hz hslot' (by omega)
  have hge := hleast.2 ⟨⟨day', hday', hslot'⟩, hlate⟩
  obtain rfl : t' = s := by omega
  have hle' := hdates day' hday' hslot'
  omega

/-! ## The refreshes -/

/-- A connector definition of more than one date, in a zone that is known. -/
structure Recurring (zoneInfo : ZoneInfo) (z : Zone) (row : Connectors.ScheduleDefinition)
    (d : ScheduleDefinition) : Prop where
  time : ∃ h, d = row.calculated h
  valid : validateDefinition zoneInfo d = .ok ()
  zone : zoneInfo d.timezoneName = .found z
  regular : z.Regular
  date : d.oneTimeLocalDate = none

variable {row : Connectors.ScheduleDefinition} {schedule : Connectors.RefreshSchedule}
  {isoformat : Instant → String}

theorem Recurring.interval (h : Recurring zoneInfo z row d) : d.intervalCount = 1 := by
  obtain ⟨htime, rfl⟩ := h.time
  rfl

theorem Recurring.next (h : Recurring zoneInfo z row d) (hafter : representable after = true)
    {answer : Option Int} :
    (Connectors.clockwork zoneInfo isoformat).nextPoint row after = .ok answer ↔
      representable (z.fromUtc after) = true ∧
        ∃ t, answer = some t ∧ FirstLater z d after (localDate z after) t := by
  have hfirst : ∀ answer, nextPoint zoneInfo d (some after) none = .ok answer ↔ _ := fun answer =>
    nextPoint_first h.valid h.zone h.regular h.date hafter
  obtain ⟨htime, rfl⟩ := h.time
  show (dite _ _ _ = _) ↔ _
  rw [dif_pos htime]
  constructor
  · intro hnext
    split at hnext
    · cases hnext
    · next point hpoint =>
        obtain ⟨hlocal, found, rfl, -, hfound⟩ := (hfirst _).mp hpoint
        cases hnext
        exact ⟨hlocal, _, rfl, hfound⟩
  · rintro ⟨hlocal, t, rfl, hfound⟩
    rw [(hfirst _).mpr ⟨hlocal, pointAt z _ t, rfl, rfl, hfound⟩]
    rfl

/-- The latest slot up to now. -/
def Latest (z : Zone) (d : ScheduleDefinition) (now t : Int) : Prop :=
  IsGreatest {u | IsSlot z d u ∧ u ≤ now} t

/-- A slot whose next one is after now is the latest. -/
theorem latest_of_next (ht : IsSlot z d t) (hnow : t ≤ now)
    (hnext : IsLeast {u | IsSlot z d u ∧ t < u} s) (hlater : now < s) : Latest z d now t := by
  refine ⟨⟨ht, hnow⟩, fun u hu => ?_⟩
  by_contra hnot
  have hle := hnext.2 ⟨hu.1, by omega⟩
  have hpast := hu.2
  omega

/-- From a slot on the loop comes to the latest one, and to the first later date. -/
theorem Recurring.latestFrom (h : Recurring zoneInfo z row d) {fuel : Nat} (ht : IsSlot z d t)
    (hnow : t ≤ now) (hfuel : (now - t).toNat < fuel) {latest : Int} {following : Option Int} :
    Connectors.latestFrom (Connectors.clockwork zoneInfo isoformat) row now fuel t =
        .ok (latest, following) ↔
      Latest z d now latest ∧
        ∃ N, following = some N ∧ FirstLater z d now (localDate z t) N := by
  have hz := h.regular
  induction fuel generalizing t with
  | zero => omega
  | succ fuel ih =>
      obtain ⟨own, -, hown⟩ := id ht
      have hfits := hown.representable
      rw [Connectors.latestFrom]
      constructor
      · intro hwalk
        split at hwalk
        · cases hwalk
        · next hnone =>
            obtain ⟨-, s, hsome, -⟩ := (h.next hfits.1).mp hnone
            cases hsome
        · next following' hsome =>
            obtain ⟨-, s, hs, hfound⟩ := (h.next hfits.1).mp hsome
            obtain rfl := (Option.some.inj hs).symm
            have hlater := hfound.isSlot
            split at hwalk
            · next hdue =>
                have hle : s ≤ now := hdue
                obtain ⟨hlatest, N, hN, hrest⟩ := (ih hlater.1 hle (by omega)).mp hwalk
                exact ⟨hlatest, N, hN, (hfound.advance hz hle).mpr hrest⟩
            · next hdue =>
                have hgt : ¬ s ≤ now := hdue
                obtain ⟨rfl, rfl⟩ := Prod.mk.inj (Except.ok.inj hwalk)
                exact ⟨latest_of_next ht hnow (hfound.next hz ht (Int.le_refl _)) (by omega), _, rfl,
                  hfound.of_past hnow (by omega)⟩
      · rintro ⟨hlatest, N, rfl, hN⟩
        obtain ⟨s, hfound⟩ := hN.exists_first hnow
        rw [(h.next hfits.1).mpr ⟨hfits.2, s, rfl, hfound⟩]
        have hlater := hfound.isSlot
        show ite (s ≤ now) _ _ = _
        by_cases hle : s ≤ now
        · rw [if_pos hle]
          exact (ih hlater.1 hle (by omega)).mpr ⟨hlatest, N, rfl, (hfound.advance hz hle).mp hN⟩
        · rw [if_neg hle]
          obtain rfl := hlatest.unique (latest_of_next ht hnow (hfound.next hz ht (Int.le_refl _)) (by omega))
          rw [(hfound.of_past hnow (by omega)).unique hz hN]

/-! ## The automations -/

/-- The slots from the stored one up to now that are not passed over. -/
def Visited (z : Zone) (d : ScheduleDefinition) (stored now : Int) : Set Int :=
  {u | IsSlot z d u ∧ stored ≤ u ∧ u ≤ now ∧ ¬ PassedOver z d stored u}

/-- One more from an element on than from the next one on. -/
theorem encard_from {S : Set Int} {rounds : Nat} (ht : t ∈ S) (hlt : t < s)
    (hnext : ∀ u ∈ S, t < u → s ≤ u) :
    {u | u ∈ S ∧ t ≤ u}.encard ≤ (rounds + 1 : Nat) ↔ {u | u ∈ S ∧ s ≤ u}.encard ≤ rounds := by
  have hinsert : {u | u ∈ S ∧ t ≤ u} = insert t {u | u ∈ S ∧ s ≤ u} := by
    ext u
    rw [Set.mem_insert_iff]
    constructor
    · rintro ⟨hu, hle⟩
      by_cases hsame : u = t
      · exact .inl hsame
      · exact .inr ⟨hu, hnext u hu (by omega)⟩
    · rintro (rfl | ⟨hu, hle⟩)
      · exact ⟨ht, Int.le_refl _⟩
      · exact ⟨hu, by omega⟩
  have hnot : t ∉ {u | u ∈ S ∧ s ≤ u} := fun h => by
    have hle : s ≤ t := h.2
    omega
  rw [hinsert, Set.encard_insert_of_notMem hnot, Nat.cast_add, Nat.cast_one]
  exact ENat.add_le_add_iff_right ENat.one_ne_top

theorem Recurring.afterPrior (h : Recurring zoneInfo z row d) (ht : IsSlot z d t)
    {answer : Option SchedulePoint} :
    nextPoint zoneInfo d (some t) (some (pointAt z d t)) = .ok answer ↔
      ∃ u, answer = some (pointAt z d u) ∧ FirstLater z d t (localDate z t + 1) u := by
  obtain ⟨own, -, hown⟩ := ht
  have hfits := hown.representable
  rw [nextPoint_after_prior h.valid h.zone h.regular h.date h.interval hfits.1 hfits.2]
  constructor
  · rintro ⟨point, rfl, hpoint, hfound⟩
    exact ⟨point.utcInstant, congrArg some hpoint, hfound⟩
  · rintro ⟨u, rfl, hfound⟩
    exact ⟨pointAt z d u, rfl, rfl, hfound⟩

/-- The answer of the loop: the latest slot and the next one. -/
def Answers (answer : Except CatchUpFault (SchedulePoint × Option SchedulePoint)) (latest N : Int) :
    Prop :=
  ∃ point future, answer = .ok (point, some future) ∧ point.utcInstant = latest ∧
    future.utcInstant = N

/-- From a slot that is not passed over the loop comes to the latest slot and the next one
exactly where its rounds are enough, and where neither of the two is passed over. -/
theorem Recurring.latestAndFollowing (h : Recurring zoneInfo z row d) {rounds : Nat} {G : Int}
    (ht : t ∈ Visited z d stored now) (hN : FirstLater z d now (localDate z t) N)
    (hG : Latest z d now G) :
    Answers (latestAndFollowing zoneInfo d now rounds (pointAt z d t)) G N ↔
      {u | u ∈ Visited z d stored now ∧ t ≤ u}.encard ≤ rounds ∧
        ¬ PassedOver z d stored G ∧ ∀ s, ¬ Onto z d G s := by
  have hz := h.regular
  induction rounds generalizing t with
  | zero =>
      constructor
      · rintro ⟨point, future, hanswer, -⟩
        cases hanswer
      · rintro ⟨hcount, -⟩
        have hmem : t ∈ {u | u ∈ Visited z d stored now ∧ t ≤ u} := ⟨ht, Int.le_refl _⟩
        rw [Set.encard_eq_zero.mp (nonpos_iff_eq_zero.mp hcount)] at hmem
        cases hmem
  | succ rounds ih =>
      obtain ⟨hslot, hstored, hnow, hpassed⟩ := id ht
      obtain ⟨s, hs⟩ := hN.exists_first hnow
      have hnext := hs.next hz hslot (Int.le_refl _)
      obtain ⟨hsSlot, hlt⟩ := hs.isSlot
      have hgo : ∀ u, FirstLater z d t (localDate z t + 1) u →
          Automations.latestAndFollowing zoneInfo d now (rounds + 1) (pointAt z d t) =
            if now < u then .ok (pointAt z d t, some (pointAt z d u))
            else Automations.latestAndFollowing zoneInfo d now rounds (pointAt z d u) := by
        intro u hu
        rw [Automations.latestAndFollowing]
        show (match nextPoint zoneInfo d (some t) (some (pointAt z d t)) with
          | .error e => _ | .ok none => _ | .ok (some following) => _) = _
        rw [(h.afterPrior hslot).mpr ⟨u, rfl, hu⟩]
        rfl
      have hpast : now < s → G = t ∧ N = s := fun hlater =>
        ⟨hG.unique (latest_of_next hslot hnow hnext hlater),
          hN.unique hz (hs.of_past hnow hlater)⟩
      rcases onto_or_later hz hslot hs with honto | hlater
      · have hover : PassedOver z d stored s :=
          (passedOver_next hz hslot hnext).mpr ⟨hstored, honto, hpassed⟩
        by_cases hle : s ≤ now
        · -- The walk goes on with the slot after the one that is passed over.
          have hN' := (hs.advance hz hle).mp hN
          obtain ⟨u, hu⟩ := hN'.exists_first hle
          have hnext' := hu.next hz hsSlot (Int.le_refl _)
          obtain ⟨huSlot, hlt'⟩ := hu.isSlot
          rw [hgo u (honto.skips hz hu)]
          by_cases hend : now < u
          · rw [if_pos hend]
            obtain rfl := hG.unique (latest_of_next hsSlot hle hnext' hend)
            constructor
            · rintro ⟨point, future, hanswer, hpoint, -⟩
              cases hanswer
              have hsame : t = G := hpoint
              omega
            · exact fun hcond => absurd hover hcond.2.1
          · rw [if_neg hend]
            have hvisited : u ∈ Visited z d stored now := by
              refine ⟨huSlot, by omega, by omega, fun hpassed' => ?_⟩
              exact ((passedOver_next hz hsSlot hnext').mp hpassed').2.2 hover
            have hrest := (hu.advance hz (by omega : u ≤ now)).mp hN'
            have hskip : ∀ v ∈ Visited z d stored now, t < v → u ≤ v := by
              intro v hv hafter
              have hge := hnext.2 ⟨hv.1, hafter⟩
              by_cases hsame : v = s
              · subst hsame
                exact absurd hover hv.2.2.2
              · exact hnext'.2 ⟨hv.1, by omega⟩
            refine (ih hvisited hrest).trans ?_
            rw [encard_from ht (by omega) hskip]
        · obtain ⟨rfl, rfl⟩ := hpast (by omega)
          constructor
          · rintro ⟨point, future, hanswer, -, hfuture⟩
            rw [Automations.latestAndFollowing] at hanswer
            split at hanswer
            · cases hanswer
            · cases hanswer
            · next following hfollowing =>
                obtain ⟨u, hu, hfound⟩ := (h.afterPrior hslot).mp hfollowing
                cases hu
                obtain ⟨huSlot, hgreater⟩ := hfound.isSlot
                by_cases hend : now < u
                · replace hanswer : ite (now < u) _ _ = _ := hanswer
                  rw [if_pos hend] at hanswer
                  cases hanswer
                  obtain rfl : u = N := hfuture
                  exact absurd hfound honto.not_later
                · have hmost := hG.2 ⟨huSlot, by omega⟩
                  omega
          · exact fun hcond => absurd honto (hcond.2.2 N)
      · have hnot : ∀ s', ¬ Onto z d t s' := by
          intro s' honto
          obtain rfl := hnext.unique (honto.next hz)
          exact honto.not_later hlater
        rw [hgo s hlater]
        by_cases hend : now < s
        · obtain ⟨rfl, rfl⟩ := hpast hend
          rw [if_pos hend]
          refine ⟨fun _ => ⟨?_, hpassed, hnot⟩, fun _ => ⟨_, _, rfl, rfl, rfl⟩⟩
          rw [encard_from ht hlt fun v hv hafter => hnext.2 ⟨hv.1, hafter⟩]
          have hempty : {u | u ∈ Visited z d stored now ∧ N ≤ u} = ∅ := by
            refine Set.eq_empty_of_forall_notMem fun u hu => ?_
            have hupto := hu.1.2.2.1
            have hfrom : N ≤ u := hu.2
            omega
          rw [hempty, Set.encard_empty]
          exact bot_le
        · rw [if_neg hend]
          have hvisited : s ∈ Visited z d stored now := by
            refine ⟨hsSlot, by omega, by omega, fun hpassed' => ?_⟩
            exact hnot s ((passedOver_next hz hslot hnext).mp hpassed').2.1
          have hrest := (hs.advance hz (by omega : s ≤ now)).mp hN
          refine (ih hvisited hrest).trans ?_
          rw [encard_from ht hlt fun v hv hafter => hnext.2 ⟨hv.1, hafter⟩]

/-! ## Both schedulers -/

/-- What follows now: the least later slot, or there is none. -/
def Follows (z : Zone) (d : ScheduleDefinition) (now : Int) : Option Int → Prop
  | some N => IsLeast {u | IsSlot z d u ∧ now < u} N
  | none => ∀ u, IsSlot z d u → u ≤ now

/-- The refresh scheduler answers the latest slot and what follows, and the automation
scheduler answers the same. -/
def CatchesUp (z : Zone) (d : ScheduleDefinition) (now : Int)
    (answer : Except Connectors.SchedulerError (Int × Option Int))
    (other : Except CatchUpFault (SchedulePoint × Option SchedulePoint × Bool)) : Prop :=
  ∃ latest following, answer = .ok (latest, following) ∧ Latest z d now latest ∧
    Follows z d now following ∧ ∃ point future old, other = .ok (point, future, old) ∧
      point.utcInstant = latest ∧ future.map (·.utcInstant) = following

/-- When both schedulers come from a stored slot of a daily or weekly definition to the same. -/
structure Walkable (z : Zone) (d : ScheduleDefinition) (stored now : Int) : Prop where
  /-- The instant just before the stored slot and its local time can be held. -/
  reference : representable (stored - 1) = true ∧ representable (z.fromUtc (stored - 1)) = true
  /-- The listed dates resolve, until one is after now. -/
  resolves : ∃ N, FirstLater z d now (localDate z (stored - 1)) N
  /-- Of the dates from the local date just before the stored slot on, one has a slot from the
  stored one up to now. -/
  seen : ∃ day t, Listed d day ∧ localDate z (stored - 1) ≤ day ∧ Resolves z d day t ∧
    stored ≤ t ∧ t ≤ now
  /-- Neither the latest slot nor the one after it is passed over. -/
  kept : ∀ t, Latest z d now t → ¬ PassedOver z d stored t ∧ ∀ s, ¬ Onto z d t s
  /-- The rounds are enough for the slots that are not passed over. -/
  rounds : (Visited z d stored now).encard ≤ 1000000

def Agreeable (z : Zone) (d : ScheduleDefinition) (stored now : Int) : Prop :=
  match d.oneTimeLocalDate with
  | some _ => representable (stored - 1) = true
  | none => Walkable z d stored now

theorem clockwork_held {answer : Option Instant}
    (h : (Connectors.clockwork zoneInfo isoformat).nextPoint row after = .ok answer) :
    representable after = true := by
  replace h : dite _ _ _ = _ := h
  split at h
  · split at h
    · cases h
    · next hpoint =>
        rw [nextPoint] at hpoint
        obtain ⟨-, -, hpoint⟩ := bind_ok hpoint
        by_contra hnot
        rw [if_pos hnot] at hpoint
        cases hpoint
  · cases h

theorem latestFrom_le {c : Connectors.Clockwork} {fuel : Nat} {latest : Instant}
    {following : Option Instant}
    (h : Connectors.latestFrom c row now fuel t = .ok (latest, following)) :
    t ≤ (latest : Int) := by
  induction fuel generalizing t with
  | zero =>
      cases h
      exact Int.le_refl _
  | succ fuel ih =>
      rw [Connectors.latestFrom] at h
      split at h
      · cases h
      · cases h
        exact Int.le_refl _
      · next s hs =>
          have hlt : t < (s : Int) := c.progress hs
          split at h
          · have hle := ih h
            omega
          · cases h
            exact Int.le_refl _

theorem scheduledPoint_slot (hzone : zoneInfo d.timezoneName = .found z) (ht : IsSlot z d t) :
    scheduledPoint zoneInfo d t = .ok (pointAt z d t) := by
  obtain ⟨own, -, hown⟩ := ht
  rw [scheduledPoint, zoneOf_found hzone]
  exact if_neg (not_not.mpr hown.representable.2)

theorem not_passedOver_self : ¬ PassedOver z d stored stored := by
  intro h
  obtain ⟨p, hle, honto, -⟩ := passedOver_iff.mp h
  have hlt := honto.2.2.1
  omega

theorem exists_latest (ht : IsSlot z d t) (hnow : t ≤ now) : ∃ G, Latest z d now G := by
  obtain ⟨G, hG, hmost⟩ := Int.exists_greatest_of_bdd
    (P := fun u => IsSlot z d u ∧ u ≤ now) ⟨now, fun u h => h.2⟩ ⟨t, ht, hnow⟩
  exact ⟨G, hG, fun u hu => hmost u hu⟩

/-- What the automation scheduler answers from a stored slot. -/
theorem Recurring.latestDueAndFuture (h : Recurring zoneInfo z row d)
    (ht : IsSlot z d stored) (hnow : stored ≤ now)
    (hN : FirstLater z d now (localDate z stored) N) {G : Int} (hG : Latest z d now G) :
    (∃ point future old, latestDueAndFuture zoneInfo d (some stored) now =
        .ok (point, future, old) ∧ point.utcInstant = G ∧ future.map (·.utcInstant) = some N) ↔
      (Visited z d stored now).encard ≤ 1000000 ∧
        ¬ PassedOver z d stored G ∧ ∀ s, ¬ Onto z d G s := by
  have hvisited : stored ∈ Visited z d stored now :=
    ⟨ht, Int.le_refl _, hnow, not_passedOver_self⟩
  have hwalk : Answers
      (Automations.latestAndFollowing zoneInfo d now 1000000 (pointAt z d stored)) G N ↔ _ :=
    h.latestAndFollowing hvisited hN hG
  have hall : {u | u ∈ Visited z d stored now ∧ stored ≤ u} = Visited z d stored now :=
    Set.ext fun u => ⟨fun hu => hu.1, fun hu => ⟨hu, hu.2.1⟩⟩
  rw [hall] at hwalk
  refine Iff.trans ?_ hwalk
  rw [Automations.latestDueAndFuture, scheduledPoint_slot h.zone ht]
  dsimp only
  constructor
  · rintro ⟨point, future, old, hanswer, hpoint, hfuture⟩
    obtain ⟨following, rfl, hfollowing⟩ := Option.map_eq_some_iff.mp hfuture
    refine ⟨point, following, ?_, hpoint, hfollowing⟩
    split at hanswer
    · cases hanswer
    · next heq =>
        cases hanswer
        exact heq
  · rintro ⟨point, future, hanswer, hpoint, hfuture⟩
    rw [hanswer]
    exact ⟨point, some future, _, rfl, hpoint, congrArg some hfuture⟩

theorem recurring_catchUp (h : Recurring zoneInfo z schedule.definition d)
    (ht : IsSlot z d stored) (hnow : stored ≤ now) :
    CatchesUp z d now
        (Connectors.latestDue (Connectors.clockwork zoneInfo isoformat) schedule stored now)
        (latestDueAndFuture zoneInfo d (some stored) now) ↔
      Walkable z d stored now := by
  have hz := h.regular
  obtain ⟨own, -, hown⟩ := id ht
  have hbefore : localDate z (stored - 1) ≤ localDate z stored :=
    hown.localDate_le hz (by omega)
  rw [Connectors.latestDue]
  constructor
  · rintro ⟨latest, following, hanswer, hlatest, -, hother⟩
    split at hanswer
    · next slot hslot =>
        have hfits := clockwork_held hslot
        obtain ⟨hlocal, s, hs, hfound⟩ := (h.next hfits).mp hslot
        obtain rfl := (Option.some.inj hs).symm
        obtain ⟨hsSlot, hlater⟩ := hfound.isSlot
        have hle : s ≤ latest := latestFrom_le hanswer
        have hupto : latest ≤ now := hlatest.1.2
        obtain ⟨-, N, rfl, hN⟩ :=
          (h.latestFrom hsSlot (by omega : s ≤ now) (Nat.lt_succ_self _)).mp hanswer
        have hall := (hfound.advance hz (by omega)).mpr hN
        obtain ⟨hrounds, hpassed, honto⟩ := (h.latestDueAndFuture ht hnow
          (hall.of_slot hz ht hnow hbefore) hlatest).mp hother
        obtain ⟨day, hfrom, hlisted, hday, -, -⟩ := hfound
        refine ⟨⟨hfits, hlocal⟩, ⟨N, hall⟩, ⟨day, s, hlisted, hfrom, hday, by omega, by omega⟩,
          fun t hmost => ?_, hrounds⟩
        obtain rfl := hlatest.unique hmost
        exact ⟨hpassed, honto⟩
    · cases hanswer
    · cases hanswer
  · rintro ⟨⟨hfits, hlocal⟩, ⟨N, hall⟩, ⟨day, t, hlisted, hfrom, hday, hge, hle⟩, hkept, hrounds⟩
    obtain ⟨s, hfound⟩ := hall.exists_first (by omega : stored - 1 ≤ now)
    obtain ⟨hsSlot, hlater⟩ := hfound.isSlot
    have hfirst := hfound.least hz hlisted hfrom hday (by omega)
    have hN := (hfound.advance hz (by omega : s ≤ now)).mp hall
    have hN' := hall.of_slot hz ht hnow hbefore
    obtain ⟨G, hG⟩ := exists_latest ht hnow
    have hkeptG := hkept G hG
    have hnext : (Connectors.clockwork zoneInfo isoformat).nextPoint schedule.definition
        (stored - 1) = .ok (some s) := (h.next hfits).mpr ⟨hlocal, s, rfl, hfound⟩
    rw [hnext]
    refine ⟨G, some N, ?_, hG, hN'.next hz ht hnow, ?_⟩
    · exact (h.latestFrom hsSlot (by omega) (Nat.lt_succ_self _)).mpr ⟨hG, N, rfl, hN⟩
    · exact (h.latestDueAndFuture ht hnow hN' hG).mpr ⟨hrounds, hkeptG⟩

theorem oneTime_catchUp (htime : schedule.definition.localTime < 1440)
    (hvalid : validateDefinition zoneInfo (schedule.definition.calculated htime) = .ok ())
    (hzone : zoneInfo schedule.definition.timezoneName = .found z) {one : Date}
    (hdate : schedule.definition.oneTimeLocalDate = some one)
    (ht : IsSlot z (schedule.definition.calculated htime) stored) (hnow : stored ≤ now) :
    CatchesUp z (schedule.definition.calculated htime) now
        (Connectors.latestDue (Connectors.clockwork zoneInfo isoformat) schedule stored now)
        (latestDueAndFuture zoneInfo (schedule.definition.calculated htime) (some stored) now) ↔
      representable (stored - 1) = true := by
  have hslot : ∀ t, IsSlot z _ t ↔ Resolves z _ one.number t := fun t => isSlot_oneTime hvalid hdate
  have hown := (hslot stored).mp ht
  have hfits := hown.representable
  obtain ⟨point, hpoint, hsame⟩ := (pointOn_iff hzone).mpr hown
  have hnext : ∀ {after prior}, representable after = true →
      nextPoint zoneInfo (schedule.definition.calculated htime) (some after) prior =
        .ok (if after < stored then some point else none) := by
    intro after prior hafter
    rw [nextPoint_oneTime hvalid hafter hdate, hpoint, ← hsame]
    rfl
  have hclock : ∀ {after : Int}, representable after = true →
      (Connectors.clockwork zoneInfo isoformat).nextPoint schedule.definition after =
        .ok (if after < stored then some stored else none) := by
    intro after hafter
    show dite _ _ _ = _
    rw [dif_pos htime, hnext hafter]
    by_cases hlt : after < stored
    · rw [if_pos hlt, if_pos hlt, ← hsame]
      rfl
    · rw [if_neg hlt, if_neg hlt]
      rfl
  constructor
  · rintro ⟨latest, following, hanswer, -⟩
    rw [Connectors.latestDue] at hanswer
    split at hanswer
    · next hslot => exact clockwork_held hslot
    · cases hanswer
    · cases hanswer
  · intro hbefore
    have hwalk : latestAndFollowing zoneInfo (schedule.definition.calculated htime) now
        (999999 + 1) (pointAt z (schedule.definition.calculated htime) stored) =
          .ok (pointAt z (schedule.definition.calculated htime) stored, none) := by
      rw [latestAndFollowing]
      show (match nextPoint zoneInfo _ (some stored) _ with
        | .error e => _ | .ok none => _ | .ok (some following) => _) = _
      rw [hnext hfits.1, if_neg (by omega)]
    refine ⟨stored, none, ?_, ⟨⟨ht, hnow⟩, ?_⟩, ?_,
      pointAt z (schedule.definition.calculated htime) stored, none, ?_⟩
    · rw [Connectors.latestDue, hclock hbefore, if_pos (by omega)]
      show Connectors.latestFrom _ _ _ (_ + 1) stored = _
      rw [Connectors.latestFrom, hclock hfits.1, if_neg (by omega)]
    · exact fun u hu => Int.le_of_eq (((hslot u).mp hu.1).unique hown)
    · intro u hu
      have heq := ((hslot u).mp hu).unique hown
      omega
    · refine ⟨decide (stored < now - maxLookback), ?_, rfl, rfl⟩
      rw [latestDueAndFuture, scheduledPoint_slot hzone ht]
      show (match latestAndFollowing zoneInfo _ now (999999 + 1) _ with
        | .error e => _ | .ok (latest, following) => _) = _
      rw [hwalk]
      rfl

/-- From a stored slot that is due, the refresh scheduler comes to the latest slot and the
next one, and the automation scheduler to the same, exactly where the dates resolve, the
search from just before the stored slot sees one that is due, the rounds are enough, and no
gap over midnight makes the automation scheduler pass over one of the two. -/
theorem catch_up_iff (htime : schedule.definition.localTime < 1440)
    (hvalid : validateDefinition zoneInfo (schedule.definition.calculated htime) = .ok ())
    (hzone : zoneInfo schedule.definition.timezoneName = .found z) (hz : z.Regular)
    (ht : IsSlot z (schedule.definition.calculated htime) stored) (hnow : stored ≤ now) :
    CatchesUp z (schedule.definition.calculated htime) now
        (Connectors.latestDue (Connectors.clockwork zoneInfo isoformat) schedule stored now)
        (latestDueAndFuture zoneInfo (schedule.definition.calculated htime) (some stored) now) ↔
      Agreeable z (schedule.definition.calculated htime) stored now := by
  rw [Agreeable]
  cases hdate : (schedule.definition.calculated htime).oneTimeLocalDate with
  | some one => exact oneTime_catchUp htime hvalid hzone hdate ht hnow
  | none => exact recurring_catchUp ⟨⟨htime, rfl⟩, hvalid, hzone, hz, hdate⟩ ht hnow

/-- A daily schedule. -/
def dailyRefresh (timezoneName : String) (localTime : Nat) : Connectors.RefreshSchedule :=
  { id := 1
    accountId := 1
    definition := { kind := .daily, timezoneName := timezoneName, localTime := localTime }
    missedRunPolicy := .skip }

/-- At noon every day, two days after the slot of the first day of 2026. -/
theorem catch_up_noon :
    CatchesUp utcZone ((dailyRefresh "UTC" 720).definition.calculated (by decide))
      1767445200000000
      (Connectors.latestDue (Connectors.clockwork (fun _ => .found utcZone) fun _ => "")
        (dailyRefresh "UTC" 720) 1767268800000000 1767445200000000)
      (latestDueAndFuture (fun _ => .found utcZone)
        ((dailyRefresh "UTC" 720).definition.calculated (by decide)) (some 1767268800000000)
        1767445200000000) := by
  have hslot : ∀ {day t}, Resolves utcZone
      ((dailyRefresh "UTC" 720).definition.calculated (by decide)) day t →
        firstDay ≤ day ∧ day ≤ lastDay → t = day * 86400000000 + 43200000000 :=
    fun h hday => h.unique (utc_resolves hday)
  have hon : ∀ day : Int, firstDay ≤ day ∧ day ≤ lastDay → IsSlot utcZone
      ((dailyRefresh "UTC" 720).definition.calculated (by decide))
        (day * 86400000000 + 43200000000) :=
    fun day hday => ⟨day, ⟨hday, trivial⟩, utc_resolves hday⟩
  have hnever : ∀ t s, ¬ Onto utcZone
      ((dailyRefresh "UTC" 720).definition.calculated (by decide)) t s := by
    rintro t s ⟨⟨day, hday, ht⟩, ⟨day', hday', hs⟩, hlt, hdates⟩
    have hle := hdates day' hday' hs
    have hslot' := hslot hs hday'.1
    rw [hslot ht hday.1, localDate, utc_fromUtc] at hle
    rw [hslot ht hday.1, hslot'] at hlt
    omega
  refine (catch_up_iff (by decide) (by rfl) rfl ⟨by decide, rfl⟩ (hon 20454 (by decide))
    (by decide)).mpr ?_
  refine ⟨by decide, ⟨1767528000000000, 20457, by decide, ⟨by decide, trivial⟩,
    utc_resolves (by decide), by decide, fun day hday hfrom hlt => ?_⟩, ?_, fun t ht => ?_, ?_⟩
  · refine ⟨_, ?_, utc_resolves hday.1⟩
    show day * 86400000000 + 43200000000 ≤ 1767445200000000
    omega
  · exact ⟨20454, _, ⟨by decide, trivial⟩, by decide, utc_resolves (by decide), by decide,
      by decide⟩
  · refine ⟨fun hpassed => ?_, hnever t⟩
    obtain ⟨p, -, honto, -⟩ := passedOver_iff.mp hpassed
    exact hnever p t honto
  · have hthree : Visited utcZone ((dailyRefresh "UTC" 720).definition.calculated (by decide))
        1767268800000000 1767445200000000 ⊆
          ({1767268800000000, 1767355200000000, 1767441600000000} : Finset Int) := by
      rintro u ⟨⟨day, hday, hu⟩, hge, hle, -⟩
      have hslot' := hslot hu hday.1
      simp
      omega
    refine (Set.encard_le_encard hthree).trans ?_
    rw [Set.encard_coe_eq_coe_finsetCard]
    exact Nat.cast_le.mpr (by decide)

/-- Its clock is set forward by an hour at 23:00 of 2026-03-28, as that of Nuuk. -/
def nuukZone : Zone :=
  { first := -7200000000
    transitions := [(1774746000000000, -3600000000)] }

/-- Half past eleven of that day is resolved to midnight, and the automation scheduler goes on
with the day after the next. -/
theorem slot_after_gap_passed_over :
    nuukZone.Regular ∧
      IsSlot nuukZone ((dailyRefresh "America/Nuuk" 1410).definition.calculated (by decide))
        1774746000000000 ∧
      ¬ CatchesUp nuukZone
        ((dailyRefresh "America/Nuuk" 1410).definition.calculated (by decide)) 1774746000000000
        (Connectors.latestDue (Connectors.clockwork (fun _ => .found nuukZone) fun _ => "")
          (dailyRefresh "America/Nuuk" 1410) 1774746000000000 1774746000000000)
        (latestDueAndFuture (fun _ => .found nuukZone)
          ((dailyRefresh "America/Nuuk" 1410).definition.calculated (by decide))
          (some 1774746000000000) 1774746000000000) := by
  refine ⟨⟨by decide, rfl⟩, ⟨20540, ⟨by decide, trivial⟩, 1774742400000000, -3600000000,
    by decide +kernel, rfl⟩, ?_⟩
  rintro ⟨latest, following, hanswer, -, -, point, future, old, hother, -, hfuture⟩
  have hrefresh : Connectors.latestDue
      (Connectors.clockwork (fun _ => .found nuukZone) fun _ => "")
      (dailyRefresh "America/Nuuk" 1410) 1774746000000000 1774746000000000 =
        .ok (1774746000000000, some 1774830600000000) := by decide +kernel
  have hautomation : latestDueAndFuture (fun _ => .found nuukZone)
      ((dailyRefresh "America/Nuuk" 1410).definition.calculated (by decide))
      (some 1774746000000000) 1774746000000000 =
        .ok (pointAt nuukZone ((dailyRefresh "America/Nuuk" 1410).definition.calculated
            (by decide)) 1774746000000000,
          some (pointAt nuukZone ((dailyRefresh "America/Nuuk" 1410).definition.calculated
            (by decide)) 1774917000000000), false) := by decide +kernel
  rw [hrefresh] at hanswer
  rw [hautomation] at hother
  cases hanswer
  cases hother
  cases hfuture

end Automations

end SecondBrain
