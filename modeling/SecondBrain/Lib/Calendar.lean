import Mathlib.Tactic.Common

/-!
# Instants and the texts they are written as

Days count from 1970-01-01, instants are microseconds from its start in UTC.
The civil date of a day is found in the 400-year cycle of the Gregorian
calendar, years starting in March so that the leap day is the last of a year.
-/

namespace Lib

/-- The number of the day, 1 for Monday to 7 for Sunday. -/
def isoWeekday (day : Int) : Nat := ((day + 3) % 7).toNat + 1

theorem isoWeekday_pos (day : Int) : 1 ≤ isoWeekday day := Nat.le_add_left 1 _

theorem isoWeekday_le (day : Int) : isoWeekday day ≤ 7 := by
  unfold isoWeekday
  omega

/-- Year, month and day of the month. -/
def civil (day : Int) : Int × Nat × Nat :=
  let z := day + 719468
  let era := z / 146097
  let doe := (z % 146097).toNat
  let yoe := (doe - doe / 1460 + doe / 36524 - doe / 146096) / 365
  let doy := doe - (365 * yoe + yoe / 4 - yoe / 100)
  let mp := (5 * doy + 2) / 153
  let month := if mp < 10 then mp + 3 else mp - 9
  (Int.ofNat yoe + era * 400 + (if month ≤ 2 then 1 else 0), month,
    doy - (153 * mp + 2) / 5 + 1)

def padded (width n : Nat) : String :=
  let text := toString n
  "".pushn '0' (width - text.length) ++ text

/-- The date and time of day, with the microseconds only where there are any. -/
def isoBase (t : Int) : String :=
  let micros := (t % 1000000).toNat
  let secs := (t / 1000000 % 86400).toNat
  let (year, month, day) := civil (t / 86400000000)
  padded 4 year.toNat ++ "-" ++ padded 2 month ++ "-" ++ padded 2 day ++ "T" ++
    padded 2 (secs / 3600) ++ ":" ++ padded 2 (secs / 60 % 60) ++ ":" ++
    padded 2 (secs % 60) ++ (if micros = 0 then "" else "." ++ padded 6 micros)

/-- `datetime.isoformat` of an instant in UTC. -/
def isoformat (t : Int) : String := isoBase t ++ "+00:00"

example : isoformat 1709210096000007 = "2024-02-29T12:34:56.000007+00:00" := by
  decide +kernel

end Lib
