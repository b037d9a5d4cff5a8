import Mathlib.Data.List.Sort
import Mathlib.Order.Bounds.Basic
import SecondBrain.Calendar.Events
import SecondBrain.Lib.Zones

/-!
# Schedules

A schedule is a local time on one date, on every date or on some weekdays. A date and the
local time are resolved to an instant, over the minutes that follow where the clock does
not show the time, and the next point is the first that is after a reference, on the dates
from that of the reference or of a prior point on.
-/

namespace SecondBrain

open Lib

namespace Automations

open Calendar (ZoneLookup)

inductive ScheduleFault where
  /-- `ScheduleCalculationError`. -/
  | calculation (message : String)
  /-- A date or a time that cannot be held. -/
  | overflow
deriving DecidableEq, Repr

inductive ScheduleKind where
  | oneTime
  | daily
  | weekly
  | other (kind : String)
deriving DecidableEq, Repr

structure ScheduleDefinition where
  kind : ScheduleKind
  timezoneName : String
  /-- The microseconds of the day that have passed. -/
  localTime : Nat
  /-- Whether the local time names a zone of its own. -/
  localAware : Bool := false
  oneTimeLocalDate : Option Date := none
  weekdays : List Int := []
  intervalCount : Int := 1
  localTime_lt : localTime < 86400000000

structure SchedulePoint where
  /-- The number of the day from 1970-01-01, as dates are counted here. -/
  localDate : Int
  localTime : Int
  timezoneName : String
  utcOffsetMinutes : Int
  utcInstant : Int
deriving DecidableEq

/-- The zones of the platform. -/
abbrev ZoneInfo := String → ZoneLookup

variable (zoneInfo : ZoneInfo)

/-- `_zone`. -/
def zoneOf (name : String) : Except ScheduleFault Zone :=
  match zoneInfo name with
  | .found z => .ok z
  | .notFound | .malformed => .error (.calculation "unknown IANA timezone")

/-! ## Local times -/

/-- `_valid_fold`: the offset, if the local time comes back. -/
def validFold (z : Zone) (wall : Int) (fold : Bool) : Except ScheduleFault (Option Int) :=
  let offset := z.utcoffset fold wall
  if ¬ (-86400000000 < offset ∧ offset < 86400000000) ∨ ¬ representable (wall - offset) ∨
      ¬ representable (z.fromUtc (wall - offset)) then .error .overflow
  else .ok (if z.fromUtc (wall - offset) = wall then some offset else none)

/-- The minutes after a local time that does not come back. -/
def resolveFrom (z : Zone) : Nat → Int → Except ScheduleFault (Int × Int)
  | 0, _ => .error (.calculation "nonexistent local time did not resolve")
  | rounds + 1, candidate =>
      if ¬ representable (candidate + 60000000) then .error .overflow
      else match validFold z (candidate + 60000000) false with
        | .error e => .error e
        | .ok (some offset) => .ok (candidate + 60000000, offset)
        | .ok none => resolveFrom z rounds (candidate + 60000000)

/-- `_resolve_local`: a local time that is shown, and its offset. -/
def resolveLocal (z : Zone) (wall : Int) : Except ScheduleFault (Int × Int) :=
  match validFold z wall false with
  | .error e => .error e
  | .ok (some offset) => .ok (wall, offset)
  | .ok none => resolveFrom z 1440 wall

/-- The local time of a definition on a date. -/
def ScheduleDefinition.wall (d : ScheduleDefinition) (date : Int) : Int :=
  date * 86400000000 + d.localTime

/-- `_point`. -/
def pointOn (d : ScheduleDefinition) (date : Int) : Except ScheduleFault SchedulePoint := do
  let z ← zoneOf zoneInfo d.timezoneName
  let (wall, offset) ← resolveLocal z (d.wall date)
  return {
    localDate := wall / 86400000000
    localTime := wall % 86400000000
    timezoneName := d.timezoneName
    utcOffsetMinutes := offset / 60000000
    utcInstant := wall - offset }

/-! ## Definitions -/

/-- `validate_definition`. -/
def validateDefinition (d : ScheduleDefinition) : Except ScheduleFault Unit := do
  let _ ← zoneOf zoneInfo d.timezoneName
  if d.localAware then .error (.calculation "local wall time must not include timezone")
  else if d.localTime % 60000000 ≠ 0 then
    .error (.calculation "seconds-level schedules are not supported")
  else if ¬ (1 ≤ d.intervalCount ∧ d.intervalCount ≤ 365) then
    .error (.calculation "interval count is outside approved bounds")
  else match d.kind with
    | .oneTime =>
        if d.oneTimeLocalDate.isNone ∨ d.weekdays ≠ [] then
          .error (.calculation "invalid one-time schedule fields")
        else .ok ()
    | .daily =>
        if d.oneTimeLocalDate.isSome ∨ d.weekdays ≠ [] then
          .error (.calculation "invalid daily schedule fields")
        else .ok ()
    | .weekly =>
        if d.oneTimeLocalDate.isSome then .error (.calculation "invalid weekly schedule fields")
        else if d.weekdays = [] ∨ d.weekdays.any (fun day => day < 1 ∨ 7 < day) then
          .error (.calculation "weekly schedule requires weekdays 1 through 7")
        else if ¬ d.weekdays.Nodup then .error (.calculation "weekly weekdays must be unique")
        else .ok ()
    | .other _ => .error (.calculation "unsupported schedule kind")

/-! ## The next point -/

def firstDay : Int := -719162

def lastDay : Int := 2932896

/-- `date + timedelta(days=n)`. -/
def plusDays (date : Int) (n : Int) : Except ScheduleFault Int :=
  if firstDay ≤ date + n ∧ date + n ≤ lastDay then .ok (date + n) else .error .overflow

/-- The loop over dates: the date moves forward to one that is listed, and by a step where
its point is not after the reference. -/
def search (d : ScheduleDefinition) (after : Int) (forward : Int → Int) (step : Int) :
    Nat → Int → Except ScheduleFault (Option SchedulePoint)
  | 0, _ => .error (.calculation "schedule calculation did not progress")
  | rounds + 1, date => do
      let date ← plusDays date (forward date)
      let result ← pointOn zoneInfo d date
      if after < result.utcInstant then return some result
      else
        let date ← plusDays date step
        search d after forward step rounds date

/-- How many days it is to the next weekday that is listed. -/
def daysForward (weekdays : List Int) (date : Int) : Int :=
  ((weekdays.map fun day : Int => (day - isoWeekday date) % 7).min?).getD 0

/-- How far a weekly schedule moves on from the date of a prior point. -/
def daysAfterPrior (d : ScheduleDefinition) (date : Int) : Int :=
  let weekdays := d.weekdays.insertionSort (· ≤ ·)
  match weekdays.find? fun day => decide ((isoWeekday date : Int) < day) with
  | some later => later - isoWeekday date
  | none => (7 - isoWeekday date) + weekdays.headD 0 + 7 * (d.intervalCount - 1)

/-- `next_point`. A reference that is no aware time is nothing. -/
def nextPoint (d : ScheduleDefinition) (afterUtc : Option Int) (prior : Option SchedulePoint) :
    Except ScheduleFault (Option SchedulePoint) := do
  validateDefinition zoneInfo d
  match afterUtc with
  | none => .error (.calculation "reference instant must be timezone-aware")
  | some after =>
      if ¬ representable after then .error .overflow
      else match d.oneTimeLocalDate with
        | some date =>
            let result ← pointOn zoneInfo d date.number
            return if after < result.utcInstant then some result else none
        | none => do
            let z ← zoneOf zoneInfo d.timezoneName
            match prior with
            | none =>
                if ¬ representable (z.fromUtc after) then .error .overflow
                else
                  let date := z.fromUtc after / 86400000000
                  match d.kind with
                  | .daily => search zoneInfo d after (fun _ => 0) 1 367 date
                  | _ => search zoneInfo d after (daysForward d.weekdays) 1 370 date
            | some point =>
                match d.kind with
                | .daily => do
                    let date ← plusDays point.localDate d.intervalCount
                    search zoneInfo d after (fun _ => 0) d.intervalCount 367 date
                | _ => do
                    let date ← plusDays point.localDate (daysAfterPrior d point.localDate)
                    search zoneInfo d after (daysForward d.weekdays) 1 370 date

/-- The points of `preview`, from a cursor and the point before it. -/
def previewFrom (d : ScheduleDefinition) :
    Nat → Int → Option SchedulePoint → Except ScheduleFault (List SchedulePoint)
  | 0, _, _ => .ok []
  | count + 1, cursor, prior => do
      match ← nextPoint zoneInfo d (some cursor) prior with
      | none => return []
      | some point =>
          if point.utcInstant ≤ cursor then
            .error (.calculation "schedule calculation did not progress")
          else
            let rest ← previewFrom d count point.utcInstant (some point)
            return point :: rest

/-- `preview`, from an aware time on. -/
def preview (d : ScheduleDefinition) (after : Int) (count : Int) :
    Except ScheduleFault (List SchedulePoint) :=
  if ¬ (1 ≤ count ∧ count ≤ 10) then
    .error (.calculation "preview count is outside approved bounds")
  else previewFrom zoneInfo d count.toNat after none

end Automations

end SecondBrain
