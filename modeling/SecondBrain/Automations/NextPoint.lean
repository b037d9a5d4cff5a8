import SecondBrain.Automations.Schedule

/-!
# The least slot after a reference

In a regular zone a later date is never resolved to an earlier instant, because the minutes
that are tried after a local time do not go past the same time of the next day. So the first
hit of the search is the least of the dates it goes through, and it comes within days of the
reference. What it can miss are dates before the local date of the reference: where a gap
over midnight ends off the minute, one of them is resolved to the next full minute, and that
may still lie after the reference.
-/

namespace SecondBrain

open Lib

namespace Automations

open Calendar (ZoneLookup)

variable {zoneInfo : ZoneInfo} {z : Zone} {d : ScheduleDefinition} 
  {after t t' day day' date wall shown offset : Int}

/-! ## Slots -/

/-- The instant that a definition has on a date. -/
def Resolves (z : Zone) (d : ScheduleDefinition) (day : Int) (t : Int) : Prop :=
  ∃ shown offset, resolveLocal z (d.wall day) = .ok (shown, offset) ∧ t = shown - offset

/-- The dates of a definition. -/
def Listed (d : ScheduleDefinition) (day : Int) : Prop :=
  (firstDay ≤ day ∧ day ≤ lastDay) ∧
    match d.kind with
    | .oneTime => ∃ date, d.oneTimeLocalDate = some date ∧ date.number = day
    | .daily => True
    | .weekly => (isoWeekday day : Int) ∈ d.weekdays
    | .other _ => False

def IsSlot (z : Zone) (d : ScheduleDefinition) (t : Int) : Prop :=
  ∃ day, Listed d day ∧ Resolves z d day t

/-- The answer is the least slot after the reference, or there is a date only and its slot is
not after it. -/
def LeastLater (z : Zone) (d : ScheduleDefinition) (after : Int)
    (answer : Except ScheduleFault (Option SchedulePoint)) : Prop :=
  (∃ point, answer = .ok (some point) ∧
      IsLeast {t | IsSlot z d t ∧ after < t} point.utcInstant) ∨
    answer = .ok none ∧ d.kind = .oneTime ∧ ∃ t, IsSlot z d t ∧ t ≤ after

/-- The local date of a reference. -/
def localDate (z : Zone) (after : Int) : Int := z.fromUtc after / 86400000000

/-- When the search of a daily or weekly definition meets every slot. -/
structure Searchable (z : Zone) (d : ScheduleDefinition) (after : Int) : Prop where
  /-- The local time of the reference can be held. -/
  reference : representable (z.fromUtc after) = true
  /-- The listed dates resolve, until one is after the reference. -/
  resolves : ∀ day, Listed d day → localDate z after ≤ day →
    (∀ day', Listed d day' → localDate z after ≤ day' → day' < day →
      ∃ t ≤ after, Resolves z d day' t) → ∃ t, Resolves z d day t
  /-- A slot after the reference is one of the dates from its local date on. -/
  carried : ∀ day t, Listed d day → day < localDate z after → Resolves z d day t → after < t →
    ∃ day', Listed d day' ∧ localDate z after ≤ day' ∧ Resolves z d day' t

/-- When the next point is the least slot after the reference. -/
def Answerable (z : Zone) (d : ScheduleDefinition) (after : Int) : Prop :=
  match d.oneTimeLocalDate with
  | some date => ∃ t, Resolves z d date.number t
  | none => Searchable z d after

/-! ## Resolving -/

theorem Resolves.unique (h : Resolves z d day t) (h' : Resolves z d day t') : t = t' := by
  obtain ⟨shown, offset, hresolve, rfl⟩ := h
  obtain ⟨shown', offset', hresolve', rfl⟩ := h'
  rw [hresolve] at hresolve'
  cases hresolve'
  rfl

theorem validFold_some (h : validFold z shown false = .ok (some offset)) :
    offset = z.utcoffset false shown ∧ z.fromUtc (shown - offset) = shown := by
  unfold validFold at h
  dsimp only at h
  split at h
  · cases h
  · have hsome := Except.ok.inj h
    split at hsome
    · next hback =>
        obtain rfl := Option.some.inj hsome
        exact ⟨rfl, hback⟩
    · cases hsome

/-- The minutes tried end at most a day later. -/
theorem resolveFrom_ok {rounds : Nat} (h : resolveFrom z rounds wall = .ok (shown, offset)) :
    (wall ≤ shown ∧ shown ≤ wall + rounds * 60000000) ∧
      validFold z shown false = .ok (some offset) := by
  induction rounds generalizing wall with
  | zero => cases h
  | succ rounds ih =>
      rw [resolveFrom] at h
      split at h
      · cases h
      split at h
      · cases h
      · next hvalid =>
          cases h
          exact ⟨by omega, hvalid⟩
      · obtain ⟨hbounds, hvalid⟩ := ih h
        exact ⟨by omega, hvalid⟩

theorem resolveLocal_ok (h : resolveLocal z wall = .ok (shown, offset)) :
    (wall ≤ shown ∧ shown ≤ wall + 86400000000) ∧
      validFold z shown false = .ok (some offset) := by
  unfold resolveLocal at h
  split at h
  · cases h
  · next hvalid =>
      cases h
      exact ⟨by omega, hvalid⟩
  · obtain ⟨hbounds, hvalid⟩ := resolveFrom_ok h
    exact ⟨by omega, hvalid⟩

/-- What a date is resolved to: the first instant of a local time within a day. -/
structure SlotAt (z : Zone) (wall shown : Int) (t : Int) : Prop where
  within : wall ≤ shown ∧ shown ≤ wall + 86400000000
  first : Zone.FirstAt z.first z.transitions shown t
  exact : z.fromUtc t = shown

theorem Resolves.slotAt (hz : z.Regular) (h : Resolves z d day t) :
    ∃ shown, SlotAt z (d.wall day) shown t := by
  obtain ⟨shown, offset, hresolve, rfl⟩ := h
  obtain ⟨hwithin, hvalid⟩ := resolveLocal_ok hresolve
  obtain ⟨hoffset, hback⟩ := validFold_some hvalid
  rw [Zone.utcoffset_eq] at hoffset
  refine ⟨shown, hwithin, ?_, hback⟩
  cases Zone.shown hz.apart shown with
  | once fold first only =>
      rw [hoffset, fold false]
      exact first
  | twice early late back first both =>
      rw [hoffset, early]
      exact first
  | @never T first past =>
      rw [Zone.fromUtc_eq] at hback
      by_cases hT : T ≤ shown - offset
      · have hpast := past _ hT
        omega
      · have hearlier := first.earlier (shown - offset) (by omega)
        omega

/-- A later date is not resolved to an earlier instant. -/
theorem Resolves.mono (hz : z.Regular) (h : Resolves z d day t) (h' : Resolves z d day' t')
    (hle : day ≤ day') : t ≤ t' := by
  by_cases hsame : day = day'
  · subst hsame
    exact Int.le_of_eq (h.unique h')
  · obtain ⟨shown, hslot⟩ := h.slotAt hz
    obtain ⟨shown', hslot'⟩ := h'.slotAt hz
    have hwithin := hslot.within
    have hwithin' := hslot'.within
    unfold ScheduleDefinition.wall at hwithin hwithin'
    exact hslot.first.mono hslot'.first (by omega)

/-- Three days after the local date of the reference its instant is past. -/
theorem Resolves.past (hz : z.Regular) (h : Resolves z d day t)
    (hday : localDate z after + 3 ≤ day) : after < t := by
  obtain ⟨shown, hslot⟩ := h.slotAt hz
  have hwithin := hslot.within.1
  have hrange := hz.fromUtc_range after
  have hrange' := hz.fromUtc_range t
  rw [hslot.exact] at hrange'
  unfold ScheduleDefinition.wall at hwithin
  unfold localDate at hday
  omega

theorem pointOn_iff (hzone : zoneInfo d.timezoneName = .found z) :
    (∃ point, pointOn zoneInfo d day = .ok point ∧ point.utcInstant = t) ↔ Resolves z d day t := by
  have hz : zoneOf zoneInfo d.timezoneName = .ok z := by
    unfold zoneOf
    rw [hzone]
  unfold pointOn
  rw [hz]
  show (∃ point, (resolveLocal z (d.wall day) >>= _) = _ ∧ _) ↔ _
  constructor
  · rintro ⟨point, hpoint, rfl⟩
    obtain ⟨⟨shown, offset⟩, hresolve, hpoint⟩ := bind_ok hpoint
    cases hpoint
    exact ⟨shown, offset, hresolve, rfl⟩
  · rintro ⟨shown, offset, hresolve, rfl⟩
    rw [hresolve]
    exact ⟨_, rfl, rfl⟩

/-! ## Searching -/

/-- The date moves forward to the next that is listed, within a week. -/
structure MovesForward (d : ScheduleDefinition) (forward : Int → Int) : Prop where
  bound : ∀ date, 0 ≤ forward date ∧ forward date ≤ 6
  listed : ∀ date, firstDay ≤ date + forward date → date + forward date ≤ lastDay →
    Listed d (date + forward date)
  skipped : ∀ date day, date ≤ day → day < date + forward date → ¬ Listed d day

/-- The first listed date whose point is after the reference. -/
structure Hit (zoneInfo : ZoneInfo) (d : ScheduleDefinition) (after date : Int)
    (point : SchedulePoint) (day : Int) : Prop where
  from_date : date ≤ day
  listed : Listed d day
  found : pointOn zoneInfo d day = .ok point
  later : after < point.utcInstant
  before : ∀ day', Listed d day' → date ≤ day' → day' < day →
    ∃ point', pointOn zoneInfo d day' = .ok point' ∧ point'.utcInstant ≤ after

theorem plusDays_ok {n : Int} (h : plusDays date n = .ok day) :
    day = date + n ∧ firstDay ≤ day ∧ day ≤ lastDay := by
  unfold plusDays at h
  split at h
  · next hrange =>
      obtain rfl := Except.ok.inj h
      exact ⟨rfl, hrange⟩
  · cases h

theorem plusDays_eq {n : Int} (h : firstDay ≤ date + n ∧ date + n ≤ lastDay) :
    plusDays date n = .ok (date + n) := if_pos h

/-- What the search answers is a first hit. -/
theorem search_ok {forward : Int → Int} (hforward : MovesForward d forward) {rounds : Nat}
    {answer : Option SchedulePoint}
    (h : search zoneInfo d after forward 1 rounds date = .ok answer) :
    ∃ point day, answer = some point ∧ Hit zoneInfo d after date point day := by
  induction rounds generalizing date with
  | zero => cases h
  | succ rounds ih =>
      rw [search] at h
      obtain ⟨next, hnext, h⟩ := bind_ok h
      obtain ⟨result, hresult, h⟩ := bind_ok h
      obtain ⟨rfl, hrange⟩ := plusDays_ok hnext
      have hlisted := hforward.listed date hrange.1 hrange.2
      have hbound := hforward.bound date
      split at h
      · next hlater =>
          obtain rfl := Except.ok.inj h
          refine ⟨result, _, rfl, by omega, hlisted, hresult, hlater, fun day' hday' hle hlt => ?_⟩
          exact absurd hday' (hforward.skipped date day' hle hlt)
      · next hearly =>
          obtain ⟨step, hstep, h⟩ := bind_ok h
          obtain ⟨rfl, -⟩ := plusDays_ok hstep
          obtain ⟨point, day, hanswer, hit⟩ := ih h
          have hfrom := hit.from_date
          refine ⟨point, day, hanswer, by omega, hit.listed, hit.found, hit.later,
            fun day' hday' hle hlt => ?_⟩
          by_cases hskip : day' < date + forward date
          · exact absurd hday' (hforward.skipped date day' hle hskip)
          by_cases hsame : day' = date + forward date
          · subst hsame
            exact ⟨result, hresult, by omega⟩
          · exact hit.before day' hday' (by omega) hlt

/-- The search comes to an end where the listed dates resolve until one is past. -/
theorem search_total {forward : Int → Int} (hforward : MovesForward d forward) {target : Int}
    {rounds : Nat} (hdate : firstDay ≤ date ∧ date ≤ target) (hlast : target + 7 ≤ lastDay)
    (hrounds : target - date < rounds)
    (hpast : ∀ day point, target ≤ day → pointOn zoneInfo d day = .ok point →
      after < point.utcInstant)
    (hresolves : ∀ day, Listed d day → date ≤ day →
      (∀ day', Listed d day' → date ≤ day' → day' < day →
        ∃ point, pointOn zoneInfo d day' = .ok point ∧ point.utcInstant ≤ after) →
      ∃ point, pointOn zoneInfo d day = .ok point) :
    ∃ point, search zoneInfo d after forward 1 rounds date = .ok (some point) := by
  induction rounds generalizing date with
  | zero => omega
  | succ rounds ih =>
      have hbound := hforward.bound date
      have hrange : firstDay ≤ date + forward date ∧ date + forward date ≤ lastDay := by omega
      have hlisted := hforward.listed date hrange.1 hrange.2
      obtain ⟨result, hresult⟩ := hresolves _ hlisted (by omega) fun day' hday' hle hlt =>
        absurd hday' (hforward.skipped date day' hle hlt)
      rw [search, plusDays_eq hrange]
      show ∃ point, (pointOn zoneInfo d (date + forward date) >>= _) = _
      rw [hresult]
      show ∃ point, ite (after < result.utcInstant) _ _ = _
      by_cases hlater : after < result.utcInstant
      · exact ⟨result, if_pos hlater⟩
      · rw [if_neg hlater]
        have hbefore : date + forward date < target := by
          by_contra hge
          exact hlater (hpast _ result (by omega) hresult)
        rw [plusDays_eq (by omega)]
        refine ih (by omega) (by omega) fun day hday hle hprior => ?_
        refine hresolves day hday (by omega) fun day' hday' hle' hlt => ?_
        by_cases hskip : day' < date + forward date
        · exact absurd hday' (hforward.skipped date day' hle' hskip)
        by_cases hsame : day' = date + forward date
        · subst hsame
          exact ⟨result, hresult, by omega⟩
        · exact hprior day' hday' (by omega) hlt

/-! ## Definitions -/

/-- What a valid definition is. -/
theorem validateDefinition_ok (h : validateDefinition zoneInfo d = .ok ()) :
    (d.kind = .oneTime ∧ d.oneTimeLocalDate.isSome = true) ∨
      d.oneTimeLocalDate = none ∧ (d.kind = .daily ∨ d.kind = .weekly ∧ d.weekdays ≠ [] ∧
        ∀ weekday ∈ d.weekdays, 1 ≤ weekday ∧ weekday ≤ 7) := by
  unfold validateDefinition at h
  obtain ⟨-, -, h⟩ := bind_ok h
  split at h
  · cases h
  split at h
  · cases h
  split at h
  · cases h
  split at h
  · next hkind =>
      split at h
      · cases h
      · next hfields =>
          rw [not_or, Option.isNone_iff_eq_none] at hfields
          exact .inl ⟨hkind, Option.isSome_iff_ne_none.mpr hfields.1⟩
  · next hkind =>
      split at h
      · cases h
      · next hfields =>
          rw [not_or, Bool.not_eq_true, Option.isSome_eq_false_iff, Option.isNone_iff_eq_none]
            at hfields
          exact .inr ⟨hfields.1, .inl hkind⟩
  · next hkind =>
      split at h
      · cases h
      next hdate =>
      split at h
      · cases h
      next hweekdays =>
      rw [Bool.not_eq_true, Option.isSome_eq_false_iff, Option.isNone_iff_eq_none] at hdate
      rw [not_or, Bool.not_eq_true, List.any_eq_false] at hweekdays
      refine .inr ⟨hdate, .inr ⟨hkind, hweekdays.1, fun weekday hmem => ?_⟩⟩
      have hrange := hweekdays.2 weekday hmem
      rw [decide_eq_true_eq] at hrange
      omega
  · cases h

theorem daily_forward (hkind : d.kind = .daily) : MovesForward d fun _ => 0 := by
  refine ⟨fun _ => by omega, fun date hfirst hlast => ⟨⟨hfirst, hlast⟩, ?_⟩,
    fun date day hle hlt => ?_⟩
  · rw [hkind]
    trivial
  · omega

theorem weekly_forward (hkind : d.kind = .weekly) (hsome : d.weekdays ≠ [])
    (hrange : ∀ weekday ∈ d.weekdays, 1 ≤ weekday ∧ weekday ≤ 7) :
    MovesForward d (daysForward d.weekdays) := by
  have hleast : ∀ date, ∃ weekday ∈ d.weekdays,
      daysForward d.weekdays date = (weekday - isoWeekday date) % 7 ∧
      ∀ other ∈ d.weekdays, daysForward d.weekdays date ≤ (other - isoWeekday date) % 7 := by
    intro date
    unfold daysForward
    cases hmin : (d.weekdays.map fun day : Int => (day - isoWeekday date) % 7).min? with
    | none => exact absurd (List.map_eq_nil_iff.mp (List.min?_eq_none_iff.mp hmin)) hsome
    | some least =>
        rw [List.min?_eq_some_iff] at hmin
        obtain ⟨weekday, hmem, rfl⟩ := List.mem_map.mp hmin.1
        exact ⟨weekday, hmem, rfl, fun other hother => hmin.2 _ (List.mem_map_of_mem hother)⟩
  refine ⟨fun date => ?_, fun date hfirst hlast => ⟨⟨hfirst, hlast⟩, ?_⟩,
    fun date day hle hlt h => ?_⟩
  · obtain ⟨weekday, -, heq, -⟩ := hleast date
    omega
  · obtain ⟨weekday, hmem, heq, -⟩ := hleast date
    rw [hkind]
    have hweekday := hrange weekday hmem
    show (isoWeekday (date + daysForward d.weekdays date) : Int) ∈ d.weekdays
    have hsame : (isoWeekday (date + daysForward d.weekdays date) : Int) = weekday := by
      rw [heq]
      unfold isoWeekday
      omega
    rw [hsame]
    exact hmem
  · obtain ⟨weekday, -, -, hall⟩ := hleast date
    have hmem := h.2
    rw [hkind] at hmem
    have hother := hall _ hmem
    unfold isoWeekday at hother
    omega

/-- The search that a definition of more than one date does. -/
theorem nextPoint_search (hvalid : validateDefinition zoneInfo d = .ok ())
    (hzone : zoneInfo d.timezoneName = .found z) (hdate : d.oneTimeLocalDate = none)
    (hafter : representable after = true) (hlocal : representable (z.fromUtc after) = true) :
    ∃ forward rounds, MovesForward d forward ∧ 367 ≤ rounds ∧
      nextPoint zoneInfo d (some after) none =
        search zoneInfo d after forward 1 rounds (localDate z after) := by
  have hz : zoneOf zoneInfo d.timezoneName = .ok z := by
    unfold zoneOf
    rw [hzone]
  unfold nextPoint
  rw [hvalid, hdate, hz]
  show ∃ forward rounds, _ ∧ _ ∧ ite _ _ (ite _ _ _) = _
  rw [if_neg (not_not.mpr hafter), if_neg (not_not.mpr hlocal)]
  rcases validateDefinition_ok hvalid with ⟨-, hsome⟩ | ⟨-, hkind | ⟨hkind, hweekdays, hrange⟩⟩
  · rw [hdate] at hsome
    cases hsome
  · rw [hkind]
    exact ⟨_, 367, daily_forward hkind, Nat.le_refl _, rfl⟩
  · rw [hkind]
    exact ⟨_, 370, weekly_forward hkind hweekdays hrange, by omega, rfl⟩

/-! ## One date -/

theorem nextPoint_oneTime (hvalid : validateDefinition zoneInfo d = .ok ())
    (hafter : representable after = true) {one : Date} (hdate : d.oneTimeLocalDate = some one)
    {prior : Option SchedulePoint} :
    nextPoint zoneInfo d (some after) prior =
      (pointOn zoneInfo d one.number).map fun result =>
        if after < result.utcInstant then some result else none := by
  unfold nextPoint
  rw [hvalid, hdate]
  show ite _ _ _ = _
  rw [if_neg (not_not.mpr hafter)]
  show (pointOn zoneInfo d one.number >>= _) = _
  cases pointOn zoneInfo d one.number with
  | error e => rfl
  | ok result => rfl

theorem kind_oneTime (hvalid : validateDefinition zoneInfo d = .ok ()) {one : Date}
    (hdate : d.oneTimeLocalDate = some one) : d.kind = .oneTime := by
  rcases validateDefinition_ok hvalid with ⟨hkind, -⟩ | ⟨hnone, -⟩
  · exact hkind
  · rw [hdate] at hnone
    cases hnone

theorem isSlot_oneTime (hvalid : validateDefinition zoneInfo d = .ok ()) {one : Date}
    (hdate : d.oneTimeLocalDate = some one) : IsSlot z d t ↔ Resolves z d one.number t := by
  have hkind := kind_oneTime hvalid hdate
  constructor
  · rintro ⟨day, hlisted, hresolves⟩
    have hday := hlisted.2
    rw [hkind] at hday
    obtain ⟨other, hother, rfl⟩ := hday
    obtain rfl := Option.some.inj (hdate.symm.trans hother)
    exact hresolves
  · intro h
    refine ⟨one.number, ⟨one.number_range, ?_⟩, h⟩
    rw [hkind]
    exact ⟨one, hdate, rfl⟩

theorem oneTime_least (hvalid : validateDefinition zoneInfo d = .ok ())
    (hzone : zoneInfo d.timezoneName = .found z) (hafter : representable after = true) {one : Date}
    (hdate : d.oneTimeLocalDate = some one) :
    LeastLater z d after (nextPoint zoneInfo d (some after) none) ↔
      ∃ t, Resolves z d one.number t := by
  have hkind := kind_oneTime hvalid hdate
  have hslot : ∀ t, IsSlot z d t ↔ Resolves z d one.number t :=
    fun t => isSlot_oneTime hvalid hdate
  rw [nextPoint_oneTime hvalid hafter hdate]
  constructor
  · intro h
    cases hpoint : pointOn zoneInfo d one.number with
    | error e =>
        rw [hpoint] at h
        rcases h with ⟨point, hanswer, -⟩ | ⟨hanswer, -⟩
        · cases hanswer
        · cases hanswer
    | ok point => exact ⟨_, (pointOn_iff hzone).mp ⟨point, hpoint, rfl⟩⟩
  · rintro ⟨t, h⟩
    obtain ⟨point, hpoint, rfl⟩ := (pointOn_iff hzone).mpr h
    rw [hpoint]
    by_cases hlater : after < point.utcInstant
    · refine .inl ⟨point, congrArg Except.ok (if_pos hlater), ⟨(hslot _).mpr h, hlater⟩, ?_⟩
      intro t ht
      exact Int.le_of_eq (h.unique ((hslot t).mp ht.1))
    · refine .inr ⟨congrArg Except.ok (if_neg hlater), hkind, _, (hslot _).mpr h, ?_⟩
      omega

/-! ## Many dates -/

/-- What the first hit leaves out are dates before the local date of the reference. -/
theorem Hit.least (hzone : zoneInfo d.timezoneName = .found z) (hz : z.Regular)
    {point : SchedulePoint} (hit : Hit zoneInfo d after date point day)
    (hday' : Listed d day') (hle : date ≤ day') (h : Resolves z d day' t) (hlater : after < t) :
    point.utcInstant ≤ t := by
  by_cases hlt : day' < day
  · obtain ⟨point', hpoint', hearly⟩ := hit.before day' hday' hle hlt
    have hsame := h.unique ((pointOn_iff hzone).mp ⟨point', hpoint', rfl⟩)
    omega
  · have hfound := (pointOn_iff hzone).mp ⟨point, hit.found, rfl⟩
    exact hfound.mono hz h (by omega)

theorem recurring_least (hvalid : validateDefinition zoneInfo d = .ok ())
    (hzone : zoneInfo d.timezoneName = .found z) (hz : z.Regular)
    (hafter : representable after = true) (hyear : after < 253370764800000000)
    (hdate : d.oneTimeLocalDate = none) :
    LeastLater z d after (nextPoint zoneInfo d (some after) none) ↔ Searchable z d after := by
  have hpoint : ∀ {day point}, pointOn zoneInfo d day = .ok point →
      Resolves z d day point.utcInstant := fun h => (pointOn_iff hzone).mp ⟨_, h, rfl⟩
  constructor
  · intro h
    have hfound : ∃ point, nextPoint zoneInfo d (some after) none = .ok (some point) ∧
        IsLeast {t | IsSlot z d t ∧ after < t} point.utcInstant := by
      rcases h with hfound | ⟨-, hkind, -⟩
      · exact hfound
      · rcases validateDefinition_ok hvalid with ⟨-, hsome⟩ | ⟨-, hother | ⟨hother, -⟩⟩
        · rw [hdate] at hsome
          cases hsome
        · rw [hkind] at hother
          cases hother
        · rw [hkind] at hother
          cases hother
    obtain ⟨point, hanswer, hleast⟩ := hfound
    have hlocal : representable (z.fromUtc after) = true := by
      by_contra hnot
      unfold nextPoint at hanswer
      obtain ⟨-, -, hanswer⟩ := bind_ok hanswer
      dsimp only at hanswer
      rw [if_neg (not_not.mpr hafter), hdate] at hanswer
      obtain ⟨z', hz', hanswer⟩ := bind_ok hanswer
      have hsame : zoneOf zoneInfo d.timezoneName = .ok z := by
        unfold zoneOf
        rw [hzone]
      obtain rfl := Except.ok.inj (hsame.symm.trans hz')
      rw [if_pos hnot] at hanswer
      cases hanswer
    obtain ⟨forward, rounds, hforward, -, hsearch⟩ :=
      nextPoint_search hvalid hzone hdate hafter hlocal
    rw [hsearch] at hanswer
    obtain ⟨point', day, hsome, hit⟩ := search_ok hforward hanswer
    obtain rfl := Option.some.inj hsome
    refine ⟨hlocal, fun other hother hle hprior => ?_,
      fun other t hother hlt hresolves hlater => ?_⟩
    · rcases Int.lt_trichotomy other day with hlt | rfl | hgt
      · obtain ⟨point', hpoint', -⟩ := hit.before other hother hle hlt
        exact ⟨_, hpoint hpoint'⟩
      · exact ⟨_, hpoint hit.found⟩
      · obtain ⟨t, hearly, hresolves⟩ := hprior day hit.listed hit.from_date hgt
        have hsame := hresolves.unique (hpoint hit.found)
        have hlater := hit.later
        omega
    · have hfrom := hit.from_date
      have hle := hleast.2 ⟨⟨other, hother, hresolves⟩, hlater⟩
      have hge := hresolves.mono hz (hpoint hit.found) (by omega)
      obtain rfl : t = point.utcInstant := by omega
      exact ⟨day, hit.listed, hit.from_date, hpoint hit.found⟩
  · intro h
    obtain ⟨forward, rounds, hforward, hrounds, hsearch⟩ :=
      nextPoint_search hvalid hzone hdate hafter h.reference
    have hrange := hz.fromUtc_range after
    have hlow := h.reference
    unfold representable at hlow
    rw [decide_eq_true_eq] at hlow
    have htotal : ∃ point, search zoneInfo d after forward 1 rounds (localDate z after) =
        .ok (some point) := by
      refine @search_total _ _ _ _ _ hforward (localDate z after + 3) _ ?_ ?_ (by omega) ?_ ?_
      · unfold localDate firstDay
        omega
      · unfold localDate lastDay
        omega
      · exact fun day point hle hfound => (hpoint hfound).past hz hle
      · intro day hlisted hle hprior
        obtain ⟨t, hresolves⟩ := h.resolves day hlisted hle fun day' hday' hle' hlt => by
          obtain ⟨point, hfound, hearly⟩ := hprior day' hday' hle' hlt
          exact ⟨_, hearly, hpoint hfound⟩
        obtain ⟨point, hfound, -⟩ := (pointOn_iff hzone).mpr hresolves
        exact ⟨point, hfound⟩
    obtain ⟨point, hanswer⟩ := htotal
    obtain ⟨point', day, hsome, hit⟩ := search_ok hforward hanswer
    obtain rfl := Option.some.inj hsome
    refine .inl ⟨point, hsearch.trans hanswer, ⟨⟨day, hit.listed, hpoint hit.found⟩, hit.later⟩, ?_⟩
    rintro t ⟨⟨other, hother, hresolves⟩, hlater⟩
    by_cases hle : localDate z after ≤ other
    · exact hit.least hzone hz hother hle hresolves hlater
    · obtain ⟨day', hday', hle', hresolves'⟩ :=
        h.carried other t hother (by omega) hresolves hlater
      exact hit.least hzone hz hday' hle' hresolves' hlater

/-- The next point without a prior is the least slot after the reference, or tells that the
one slot is not after it, exactly where the dates that are searched resolve and no date before
them has a slot of its own after the reference. -/
theorem nextPoint_least (hvalid : validateDefinition zoneInfo d = .ok ())
    (hzone : zoneInfo d.timezoneName = .found z) (hz : z.Regular)
    (hafter : representable after = true) (hyear : after < 253370764800000000) :
    LeastLater z d after (nextPoint zoneInfo d (some after) none) ↔ Answerable z d after := by
  unfold Answerable
  cases hdate : d.oneTimeLocalDate with
  | some one => exact oneTime_least hvalid hzone hafter hdate
  | none => exact recurring_least hvalid hzone hz hafter hyear hdate

def sampleDaily (localTime : Nat) (h : localTime < 86400000000) : ScheduleDefinition :=
  { kind := .daily
    timezoneName := "UTC"
    localTime := localTime
    localTime_lt := h }

def utcZone : Zone := { first := 0, transitions := [] }

theorem utc_fromUtc (u : Int) : utcZone.fromUtc u = u := Int.add_zero u

theorem utc_resolves (hday : firstDay ≤ day ∧ day ≤ lastDay) :
    Resolves utcZone d day (d.wall day) := by
  have htime := d.localTime_lt
  have hfits : representable (d.wall day) = true := by
    rw [representable, decide_eq_true_eq, ScheduleDefinition.wall]
    rw [firstDay, lastDay] at hday
    omega
  have hoffset : ∀ fold wall, utcZone.utcoffset fold wall = 0 := fun _ _ => rfl
  have hback : validFold utcZone (d.wall day) false = .ok (some 0) := by
    simp [validFold, hoffset, utc_fromUtc, hfits]
  refine ⟨d.wall day, 0, ?_, (Int.sub_zero _).symm⟩
  rw [resolveLocal, hback]

/-- At noon every day, from the evening of the first day of 2026 on. -/
theorem nextPoint_least_noon :
    LeastLater utcZone (sampleDaily 43200000000 (by decide)) 1767294000000000
      (nextPoint (fun _ => .found utcZone) (sampleDaily 43200000000 (by decide))
        (some 1767294000000000) none) := by
  refine (nextPoint_least (by rfl) rfl ⟨by decide, rfl⟩ (by decide) (by decide)).mpr ?_
  have hresolves : ∀ day, firstDay ≤ day ∧ day ≤ lastDay →
      Resolves utcZone (sampleDaily 43200000000 (by decide)) day
        (day * 86400000000 + 43200000000) := fun day hrange => utc_resolves hrange
  refine ⟨by decide, fun day hlisted _ _ => ⟨_, hresolves day hlisted.1⟩, ?_⟩
  intro day t hlisted hlt hresolved hlater
  have hsame := hresolved.unique (hresolves day hlisted.1)
  rw [localDate, utc_fromUtc] at hlt
  omega

/-- Its clock is set forward by an hour and half a minute, over midnight. -/
def nightZone : Zone :=
  { first := 0
    transitions := [(1767310200000000, 3630000000)] }

/-- A quarter to midnight is resolved to the first full minute that the clock shows, and from
half a minute before that the next point is a day later. -/
theorem slot_of_the_day_before_missed :
    nightZone.Regular ∧ ∃ point t,
      nextPoint (fun _ => .found nightZone) (sampleDaily 85500000000 (by decide))
          (some 1767310215000000) none = .ok (some point) ∧
        IsSlot nightZone (sampleDaily 85500000000 (by decide)) t ∧ 1767310215000000 < t ∧
        t < point.utcInstant := by
  refine ⟨⟨by decide, by decide⟩, ⟨20455, 85500000000, "UTC", 60, 1767393870000000⟩,
    1767310230000000, by decide +kernel, ⟨20454, ⟨by decide, trivial⟩, ?_⟩, by decide, by decide⟩
  exact ⟨1767313860000000, 3630000000, by decide +kernel, rfl⟩

end Automations

end SecondBrain
