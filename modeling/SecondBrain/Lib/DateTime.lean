import SecondBrain.Lib.Calendar
import Mathlib.Data.List.Basic
import Mathlib.Tactic.IntervalCases
import Mathlib.Tactic.SplitIfs

/-!
# Dates, aware times and zones

A date and a time of day are written in a fixed number of digits, and an offset
in one of three lengths, so the text of an aware time tells its wall clock and
its offset (`Aware.chars_injective`). It does not tell an instant: one instant
has a text for every offset.

A zone is the list of its transitions. What a wall clock shows once, twice or
never is decided the way PEP 495 says, by the transitions as the wall clock sees
them before and after each.
-/

namespace Lib

/-! ## Dates -/

def isLeap (year : Nat) : Bool :=
  decide (year % 4 = 0 ∧ (year % 100 ≠ 0 ∨ year % 400 = 0))

def daysInMonth (year month : Nat) : Nat :=
  match month with
  | 2 => if isLeap year then 29 else 28
  | 4 | 6 | 9 | 11 => 30
  | _ => 31

def daysBeforeYear (year : Nat) : Nat :=
  365 * (year - 1) + (year - 1) / 4 - (year - 1) / 100 + (year - 1) / 400

/-- The days of the year before the first of the month. -/
def daysBeforeMonth (year : Nat) : Nat → Nat
  | 0 => 0
  | month + 1 => if month = 0 then 0 else daysBeforeMonth year month + daysInMonth year month

structure Date where
  year : Nat
  month : Nat
  day : Nat
  year_range : 1 ≤ year ∧ year ≤ 9999
  month_range : 1 ≤ month ∧ month ≤ 12
  day_range : 1 ≤ day ∧ day ≤ daysInMonth year month
deriving DecidableEq

namespace Date

def of? (year month day : Nat) : Option Date :=
  if h : (1 ≤ year ∧ year ≤ 9999) ∧ (1 ≤ month ∧ month ≤ 12) ∧
      1 ≤ day ∧ day ≤ daysInMonth year month then
    some ⟨year, month, day, h.1, h.2.1, h.2.2⟩
  else none

/-- The number of the day from 1970-01-01. -/
def number (d : Date) : Int :=
  daysBeforeYear d.year + daysBeforeMonth d.year d.month + d.day - 719163

end Date

/-- Blocks that do not overlap: a place in one of them says which it is. -/
theorem blocks_injective {f g : Nat → Nat} (hstep : ∀ n, 1 ≤ n → f n + g n ≤ f (n + 1))
    {m n a b : Nat} (hm : 1 ≤ m) (hn : 1 ≤ n) (ha : 1 ≤ a ∧ a ≤ g m) (hb : 1 ≤ b ∧ b ≤ g n)
    (h : f m + a = f n + b) : m = n ∧ a = b := by
  have later : ∀ k, 1 ≤ k → ∀ j, f k + g k ≤ f (k + 1 + j) := by
    intro k hk j
    induction j with
    | zero => exact hstep k hk
    | succ j ih =>
        have hnext := hstep (k + 1 + j) (by omega)
        rw [show k + 1 + (j + 1) = k + 1 + j + 1 by omega]
        omega
  rcases Nat.lt_trichotomy m n with hlt | heq | hgt
  · have hlater := later m hm (n - m - 1)
    rw [show m + 1 + (n - m - 1) = n by omega] at hlater
    omega
  · subst heq
    exact ⟨rfl, by omega⟩
  · have hlater := later n hn (m - n - 1)
    rw [show n + 1 + (m - n - 1) = m by omega] at hlater
    omega

def daysInYear (year : Nat) : Nat := if isLeap year then 366 else 365

theorem daysBeforeYear_succ {year : Nat} (h : 1 ≤ year) :
    daysBeforeYear year + daysInYear year = daysBeforeYear (year + 1) := by
  obtain ⟨z, rfl⟩ : ∃ z, year = z + 1 := ⟨year - 1, by omega⟩
  have step : ∀ k, 0 < k → (z + 1) / k = z / k + if (z + 1) % k = 0 then 1 else 0 := by
    intro k hk
    rw [Nat.succ_div]
    simp only [Nat.dvd_iff_mod_eq_zero]
  have h4 : (z + 1) % 100 = 0 → (z + 1) % 4 = 0 := by omega
  have h100 : (z + 1) % 400 = 0 → (z + 1) % 100 = 0 := by omega
  have hless : z / 100 ≤ z / 4 := by omega
  simp only [daysBeforeYear, daysInYear, isLeap, decide_eq_true_eq, Nat.add_sub_cancel,
    step 4 (by omega), step 100 (by omega), step 400 (by omega)]
  generalize z / 4 = a at *
  generalize z / 100 = b at *
  generalize z / 400 = c at *
  split_ifs <;> omega

theorem daysBeforeMonth_succ (year : Nat) {month : Nat} (h : 1 ≤ month) :
    daysBeforeMonth year month + daysInMonth year month = daysBeforeMonth year (month + 1) := by
  rw [daysBeforeMonth, if_neg (by omega)]

theorem daysBeforeMonth_le (year : Nat) {month : Nat} (h : 1 ≤ month ∧ month ≤ 12) :
    daysBeforeMonth year month + daysInMonth year month ≤ daysInYear year := by
  obtain ⟨hlow, hhigh⟩ := h
  cases hleap : isLeap year <;> interval_cases month <;>
    simp [daysBeforeMonth, daysInMonth, daysInYear, hleap]

theorem Date.number_injective {a b : Date} (h : a.number = b.number) : a = b := by
  unfold Date.number at h
  have ha := daysBeforeMonth_le a.year a.month_range
  have hb := daysBeforeMonth_le b.year b.month_range
  have haday := a.day_range
  have hbday := b.day_range
  have hyear := blocks_injective (f := daysBeforeYear) (g := daysInYear)
    (fun n hn => Nat.le_of_eq (daysBeforeYear_succ hn)) a.year_range.1 b.year_range.1
    (a := daysBeforeMonth a.year a.month + a.day) (b := daysBeforeMonth b.year b.month + b.day)
    (by omega) (by omega) (by omega)
  have hmonth := blocks_injective (f := daysBeforeMonth a.year) (g := daysInMonth a.year)
    (fun n hn => Nat.le_of_eq (daysBeforeMonth_succ a.year hn)) a.month_range.1
    b.month_range.1 haday (hyear.1 ▸ hbday) (hyear.1 ▸ hyear.2)
  cases a
  cases b
  obtain ⟨rfl, -⟩ := hyear
  obtain ⟨rfl, rfl⟩ := hmonth
  rfl

/-! ## Digits -/

/-- The last `width` decimal digits of `n`, most significant first. -/
def digits : Nat → Nat → List Char
  | 0, _ => []
  | width + 1, n => digits width (n / 10) ++ [(n % 10).digitChar]

@[simp] theorem length_digits (width n : Nat) : (digits width n).length = width := by
  induction width generalizing n with
  | zero => rfl
  | succ width ih => rw [digits, List.length_append, ih]; rfl

theorem mem_digits {width n : Nat} {c : Char} (h : c ∈ digits width n) : c.isDigit = true := by
  have all : ∀ k < 10, k.digitChar.isDigit = true := by decide
  induction width generalizing n with
  | zero => cases h
  | succ width ih =>
      rw [digits, List.mem_append, List.mem_singleton] at h
      rcases h with h | rfl
      · exact ih h
      · exact all _ (Nat.mod_lt _ (by decide))

theorem digits_injective {width a b : Nat} (ha : a < 10 ^ width) (hb : b < 10 ^ width)
    (h : digits width a = digits width b) : a = b := by
  have all : ∀ j < 10, ∀ k < 10, j.digitChar = k.digitChar → j = k := by decide
  induction width generalizing a b with
  | zero => omega
  | succ width ih =>
      rw [digits, digits] at h
      obtain ⟨hhigh, hlow⟩ := List.append_inj' h rfl
      have hlow := all _ (Nat.mod_lt _ (by decide)) _ (Nat.mod_lt _ (by decide))
        (List.cons.inj hlow).1
      have hhigh := ih (by omega) (by omega) hhigh
      omega

/-- A block of digits of known length and what follows it. -/
theorem digits_append_injective {width a b : Nat} (ha : a < 10 ^ width) (hb : b < 10 ^ width)
    {as bs : List Char} (h : digits width a ++ as = digits width b ++ bs) : a = b ∧ as = bs := by
  obtain ⟨hdigits, hrest⟩ := List.append_inj h (by simp)
  exact ⟨digits_injective ha hb hdigits, hrest⟩

def Date.chars (d : Date) : List Char :=
  digits 4 d.year ++ '-' :: (digits 2 d.month ++ '-' :: digits 2 d.day)

def Date.isoformat (d : Date) : String := String.ofList d.chars

@[simp] theorem Date.length_chars (d : Date) : d.chars.length = 10 := by simp [Date.chars]

theorem daysInMonth_le (year month : Nat) : daysInMonth year month ≤ 31 := by
  unfold daysInMonth
  split <;> (try split) <;> omega

theorem Date.chars_injective {a b : Date} (h : a.chars = b.chars) : a = b := by
  have haday := a.day_range.2.trans (daysInMonth_le _ _)
  have hbday := b.day_range.2.trans (daysInMonth_le _ _)
  have hamonth := a.month_range
  have hbmonth := b.month_range
  have hayear := a.year_range
  have hbyear := b.year_range
  unfold Date.chars at h
  obtain ⟨hyear, h⟩ := digits_append_injective (by omega) (by omega) h
  obtain ⟨hmonth, h⟩ := digits_append_injective (by omega) (by omega) (List.cons.inj h).2
  have hday := digits_injective (by omega) (by omega) (List.cons.inj h).2
  cases a
  cases b
  subst hyear hmonth hday
  rfl

/-! ## Wall clocks -/

/-- A date and the microseconds of the day that have passed. -/
structure Wall where
  date : Date
  micros : Nat
  micros_lt : micros < 86400000000
deriving DecidableEq

namespace Wall

/-- Microseconds from the start of 1970 as the same clock shows it. -/
def number (w : Wall) : Int := w.date.number * 86400000000 + w.micros

theorem number_injective {a b : Wall} (h : a.number = b.number) : a = b := by
  unfold number at h
  have ha := a.micros_lt
  have hb := b.micros_lt
  have hdate : a.date.number = b.date.number := by omega
  have hmicros : a.micros = b.micros := by omega
  cases a
  cases b
  obtain rfl := Date.number_injective hdate
  subst hmicros
  rfl

/-- `timespec="microseconds"`. -/
def chars (w : Wall) : List Char :=
  w.date.chars ++ 'T' :: (digits 2 (w.micros / 3600000000) ++
    ':' :: (digits 2 (w.micros / 60000000 % 60) ++
      ':' :: (digits 2 (w.micros / 1000000 % 60) ++ '.' :: digits 6 (w.micros % 1000000))))

@[simp] theorem length_chars (w : Wall) : w.chars.length = 26 := by simp [chars]

theorem chars_injective {a b : Wall} (h : a.chars = b.chars) : a = b := by
  have ha := a.micros_lt
  have hb := b.micros_lt
  unfold chars at h
  obtain ⟨hdate, h⟩ := List.append_inj h (by simp)
  obtain ⟨hhour, h⟩ := digits_append_injective (by omega) (by omega) (List.cons.inj h).2
  obtain ⟨hminute, h⟩ := digits_append_injective (by omega) (by omega) (List.cons.inj h).2
  obtain ⟨hsecond, h⟩ := digits_append_injective (by omega) (by omega) (List.cons.inj h).2
  have hmicro := digits_injective (by omega) (by omega) (List.cons.inj h).2
  have hmicros : a.micros = b.micros := by omega
  cases a
  cases b
  obtain rfl := Date.chars_injective hdate
  subst hmicros
  rfl

end Wall

/-! ## Aware times -/

/-- Microseconds east of UTC, less than a day. -/
abbrev Offset := { o : Int // -86400000000 < o ∧ o < 86400000000 }

def Offset.utc : Offset := ⟨0, by decide⟩

/-- Hours and minutes, then seconds and their fraction where there are any. -/
def clockChars (n : Nat) : List Char :=
  digits 2 (n / 3600000000) ++ ':' :: (digits 2 (n / 60000000 % 60) ++
    if n % 60000000 = 0 then []
    else ':' :: (digits 2 (n / 1000000 % 60) ++
      if n % 1000000 = 0 then [] else '.' :: digits 6 (n % 1000000)))

theorem clockChars_injective {m n : Nat} (hm : m < 86400000000) (hn : n < 86400000000)
    (h : clockChars m = clockChars n) : m = n := by
  unfold clockChars at h
  obtain ⟨hhour, h⟩ := digits_append_injective (by omega) (by omega) h
  obtain ⟨hminute, h⟩ := digits_append_injective (by omega) (by omega) (List.cons.inj h).2
  by_cases hms : m % 60000000 = 0 <;> by_cases hns : n % 60000000 = 0 <;>
    simp only [hms, hns, if_true, if_false] at h
  · omega
  · cases h
  · cases h
  obtain ⟨hsecond, h⟩ := digits_append_injective (by omega) (by omega) (List.cons.inj h).2
  by_cases hmf : m % 1000000 = 0 <;> by_cases hnf : n % 1000000 = 0 <;>
    simp only [hmf, hnf, if_true, if_false] at h
  · omega
  · cases h
  · cases h
  have hmicro := digits_injective (by omega) (by omega) (List.cons.inj h).2
  omega

def offsetChars (o : Offset) : List Char :=
  (if o.val < 0 then '-' else '+') :: clockChars o.val.natAbs

theorem offsetChars_injective {a b : Offset} (h : offsetChars a = offsetChars b) : a = b := by
  have ha := a.property
  have hb := b.property
  obtain ⟨hsign, hclock⟩ := List.cons.inj h
  have habs := clockChars_injective (by omega) (by omega) hclock
  apply Subtype.ext
  split at hsign <;> split at hsign <;> first | omega | cases hsign

/-- An aware `datetime`. The key is that of the zone object it carries, if it
carries one. -/
structure Aware where
  wall : Wall
  offset : Offset
  zone : Option String := none
deriving DecidableEq

namespace Aware

/-- Microseconds from the epoch. -/
def instant (t : Aware) : Int := t.wall.number - t.offset.val

/-- `isoformat(timespec="microseconds")`. -/
def chars (t : Aware) : List Char := t.wall.chars ++ offsetChars t.offset

def isoformatMicroseconds (t : Aware) : String := String.ofList t.chars

/-- `isoformat()` leaves microseconds out where there are none. -/
def isoformat (t : Aware) : String :=
  String.ofList ((if t.wall.micros % 1000000 = 0 then t.wall.chars.take 19 else t.wall.chars) ++
    offsetChars t.offset)

theorem chars_injective {a b : Aware} (h : a.chars = b.chars) :
    a.wall = b.wall ∧ a.offset = b.offset := by
  unfold chars at h
  obtain ⟨hwall, hoffset⟩ := List.append_inj h (by simp)
  exact ⟨Wall.chars_injective hwall, offsetChars_injective hoffset⟩

/-- One instant has one text for each offset. -/
theorem chars_eq_iff {a b : Aware} :
    a.chars = b.chars ↔ a.instant = b.instant ∧ a.offset = b.offset := by
  constructor
  · intro h
    obtain ⟨hwall, hoffset⟩ := chars_injective h
    exact ⟨by rw [instant, instant, hwall, hoffset], hoffset⟩
  · rintro ⟨hinstant, hoffset⟩
    unfold instant at hinstant
    rw [hoffset] at hinstant
    have hwall : a.wall = b.wall := Wall.number_injective (by omega)
    rw [chars, chars, hwall, hoffset]

/-- `a <= b`: within one zone by the wall clock. -/
def le (a b : Aware) : Bool :=
  if a.zone.isSome ∧ a.zone = b.zone then decide (a.wall.number ≤ b.wall.number)
  else decide (a.instant ≤ b.instant)

end Aware

/-! ## Zones -/

structure Zone where
  /-- The offset before all transitions. -/
  first : Int
  /-- The instants of the transitions with the offset from then on, in order. -/
  transitions : List (Int × Int)

namespace Zone

def offsetAt (z : Zone) (t : Int) : Int :=
  (((z.transitions.takeWhile (·.1 ≤ t)).getLast?).map (·.2)).getD z.first

/-- The transitions as the wall clock shows them. With `fold` unset a time that
comes twice is the first one, so the later of the two clocks counts. -/
def walls (fold : Bool) (before : Int) : List (Int × Int) → List (Int × Int)
  | [] => []
  | (t, after) :: rest =>
      (t + if fold then min before after else max before after, after) ::
        walls fold after rest

/-- `utcoffset` of a wall clock in the zone. -/
def utcoffset (z : Zone) (fold : Bool) (wall : Int) : Int :=
  ((((walls fold z.first z.transitions).takeWhile (·.1 ≤ wall)).getLast?).map (·.2)).getD
    z.first

def fromUtc (z : Zone) (t : Int) : Int := t + z.offsetAt t

end Zone

/-- What a `datetime` can hold. -/
def representable (t : Int) : Bool :=
  decide (-62135596800000000 ≤ t ∧ t < 253402300800000000)

end Lib
