import SecondBrain.Lib.DateTime

/-!
# Reading dates and times

`date.fromisoformat` and `datetime.fromisoformat`: any ISO 8601 format but
fractional hours or minutes, reduced or extended dates and ordinal dates. A week
date is read as well. Any one character may separate the date from the time, so
where the date ends is told by its own shape.
-/

namespace Lib

/-- Exactly `n` digits and what follows them. -/
def takeDigits (n : Nat) (text : List Char) : Option (Nat × List Char) :=
  let head := text.take n
  if head.length = n ∧ head.all (·.isDigit) then
    some (head.foldl (fun value c => 10 * value + (c.toNat - 48)) 0, text.drop n)
  else none

/-- The text after the character, which has to be there. -/
def skip (c : Char) : List Char → Option (List Char)
  | d :: rest => if d = c then some rest else none
  | [] => none

def skipIf (present : Bool) (c : Char) (text : List Char) : Option (List Char) :=
  if present then skip c text else some text

/-- The date of a week and a weekday of the ISO year. -/
def isoWeekDate (year week day : Nat) : Option Date :=
  let firstDay : Int := daysBeforeYear year + 1 - 719163
  let firstWeekday := isoWeekday firstDay
  let long := firstWeekday = 4 ∨ firstWeekday = 3 ∧ isLeap year
  if year < 1 ∨ 9999 < year ∨ week < 1 ∨ 53 < week ∨ (week = 53 ∧ ¬ long) ∨ day < 1 ∨ 7 < day then
    none
  else
    let monday := firstDay - (firstWeekday - 1) + (if 4 < firstWeekday then 7 else 0)
    let (y, m, d) := civil (monday + (week - 1) * 7 + (day - 1))
    if y < 0 then none else Date.of? y.toNat m d

/-- A whole text of seven, eight or ten characters. -/
def parseDate (text : List Char) : Option Date := do
  let (year, rest) ← takeDigits 4 text
  let separated := rest.head? == some '-'
  let rest ← skipIf separated '-' rest
  if rest.head? = some 'W' then
    let (week, rest) ← takeDigits 2 rest.tail
    if rest = [] then isoWeekDate year week 1
    else
      let rest ← skipIf separated '-' rest
      let (day, rest) ← takeDigits 1 rest
      if rest = [] then isoWeekDate year week day else none
  else
    let (month, rest) ← takeDigits 2 rest
    let rest ← skipIf separated '-' rest
    let (day, rest) ← takeDigits 2 rest
    if rest = [] then Date.of? year month day else none

def dateFromIsoformat (text : String) : Option Date :=
  let chars := text.toList
  if chars.length = 7 ∨ chars.length = 8 ∨ chars.length = 10 then parseDate chars else none

/-- Where the date ends. -/
def separatorAt (text : List Char) : Option Nat :=
  let digitAt (k : Nat) : Bool := (text[k]?).any (·.isDigit)
  if text.length < 7 then none
  else if text.length = 7 then some 7
  else if text[4]? = some '-' then
    if text[5]? = some 'W' then
      if text[8]? = some '-' then
        if text.length = 9 then none
        -- a digit after it: the hyphen is the one before the day, or separates
        else if digitAt 10 then some 8
        else some 10
      else some 8
    else some 10
  else if text[4]? = some 'W' then
    let last := 7 + ((text.drop 7).takeWhile (·.isDigit)).length
    if last < 9 then some last
    else if last % 2 = 0 then some 7
    else some 8
  else some 8

/-- The digits of a fraction of a second, of which six count. -/
def parseFraction (text : List Char) : Option Nat :=
  if text = [] ∨ ¬ text.all (·.isDigit) then none
  else
    let counted := text.take 6
    (takeDigits counted.length counted).map fun p => p.1 * 10 ^ (6 - counted.length)

/-- Hours, minutes, seconds and microseconds as they stand there. -/
def parseClock (text : List Char) : Option (Nat × Nat × Nat × Nat) := do
  let (hour, rest) ← takeDigits 2 text
  if rest = [] then return (hour, 0, 0, 0)
  let separated := rest.head? == some ':'
  let rest ← skipIf separated ':' rest
  let (minute, rest) ← takeDigits 2 rest
  if rest = [] then return (hour, minute, 0, 0)
  let rest ← skipIf separated ':' rest
  let (second, rest) ← takeDigits 2 rest
  match rest with
  | [] => return (hour, minute, second, 0)
  | mark :: fraction =>
      if mark = '.' ∨ mark = ',' then
        let micros ← parseFraction fraction
        return (hour, minute, second, micros)
      else none

def clockMicros (h m s us : Nat) : Nat := ((h * 60 + m) * 60 + s) * 1000000 + us

def parseOffset (negative : Bool) (text : List Char) : Option Offset := do
  let (h, m, s, us) ← parseClock text
  let n : Int := clockMicros h m s us
  let n := if negative then -n else n
  if range : -86400000000 < n ∧ n < 86400000000 then some ⟨n, range⟩ else none

/-- The time of day, and the offset where there is one. -/
def parseTime (text : List Char) : Option (Nat × Option Offset) := do
  let clock := text.takeWhile fun c => c ≠ '+' ∧ c ≠ '-' ∧ c ≠ 'Z'
  let (h, m, s, us) ← parseClock clock
  if 24 ≤ h ∨ 60 ≤ m ∨ 60 ≤ s then none
  else
    match text.drop clock.length with
    | [] => some (clockMicros h m s us, none)
    | 'Z' :: rest => if rest = [] then some (clockMicros h m s us, some Offset.utc) else none
    | sign :: rest => do
        let offset ← parseOffset (sign == '-') rest
        some (clockMicros h m s us, some offset)

/-- The wall clock, with the offset where the text has one. -/
def fromisoformat (text : String) : Option (Wall × Option Offset) := do
  let chars := text.toList
  let place ← separatorAt chars
  let date ← parseDate (chars.take place)
  let rest := chars.drop (place + 1)
  let (micros, offset) ← if rest = [] then some (0, none) else parseTime rest
  if h : micros < 86400000000 then some (⟨date, micros, h⟩, offset) else none

example : (fromisoformat "2026-09-04T09:00:00.5+03:00").map
    (fun p => (Aware.isoformat ⟨p.1, p.2.getD Offset.utc, none⟩)) =
      some "2026-09-04T09:00:00.500000+03:00" := by decide +kernel

example : (dateFromIsoformat "2026W361").map Date.isoformat = some "2026-08-31" := by
  decide +kernel

/-! ## What is written is read -/

theorem foldl_digits {width n : Nat} (h : n < 10 ^ width) (acc : Nat) :
    (digits width n).foldl (fun value c => 10 * value + (c.toNat - 48)) acc =
      acc * 10 ^ width + n := by
  have all : ∀ k < 10, k.digitChar.toNat - 48 = k := by decide
  induction width generalizing n with
  | zero =>
      have hzero : n = 0 := by simpa using h
      rw [hzero, digits, List.foldl_nil, Nat.pow_zero, Nat.mul_one, Nat.add_zero]
  | succ width ih =>
      rw [digits, List.foldl_append, ih (by omega), List.foldl_cons, List.foldl_nil,
        all _ (Nat.mod_lt _ (by decide)), Nat.pow_succ, ← Nat.mul_assoc]
      omega

theorem takeDigits_digits {width n : Nat} (h : n < 10 ^ width) (rest : List Char) :
    takeDigits width (digits width n ++ rest) = some (n, rest) := by
  have hall : (digits width n).all (·.isDigit) = true :=
    List.all_eq_true.mpr fun c hc => mem_digits hc
  rw [takeDigits, List.take_left' (length_digits width n), List.drop_left' (length_digits width n)]
  simp only [length_digits, hall, foldl_digits h, Nat.zero_mul, Nat.zero_add, and_self, if_true]

theorem skip_self (c : Char) (rest : List Char) : skip c (c :: rest) = some rest := if_pos rfl

theorem skipIf_self (c : Char) (rest : List Char) :
    skipIf true c (c :: rest) = some rest := skip_self c rest

theorem of?_eq (d : Date) : Date.of? d.year d.month d.day = some d :=
  dif_pos ⟨d.year_range, d.month_range, d.day_range⟩

/-- A month is no week. -/
theorem head_digits_ne {width n : Nat} (hwidth : 0 < width) (rest : List Char) {c : Char}
    (hc : c.isDigit = false) : (digits width n ++ rest).head? ≠ some c := by
  cases hd : digits width n with
  | nil =>
      have hlength := length_digits width n
      rw [hd, List.length_nil] at hlength
      omega
  | cons d more =>
      intro h
      obtain rfl : d = c := by simpa using h
      have hdigit := @mem_digits width n d (hd ▸ List.mem_cons_self)
      rw [hc] at hdigit
      cases hdigit

theorem parseDate_chars (d : Date) : parseDate d.chars = some d := by
  have hday := d.day_range.2.trans (daysInMonth_le _ _)
  have hmonth := d.month_range
  have hyear := d.year_range
  have hweek : (digits 2 d.month ++ '-' :: digits 2 d.day).head? ≠ some 'W' :=
    head_digits_ne (by decide) _ (by decide)
  have hlast : takeDigits 2 (digits 2 d.day) = some (d.day, []) := by
    have hnil := @takeDigits_digits 2 d.day (by omega) []
    rwa [List.append_nil] at hnil
  unfold parseDate Date.chars
  rw [takeDigits_digits (by omega)]
  simp only [Option.bind_eq_bind, Option.bind_some, List.head?_cons, beq_self_eq_true,
    skipIf_self, hweek, if_false, takeDigits_digits (show d.month < 10 ^ 2 by omega), hlast,
    if_true, of?_eq]

theorem digits_ne_nil {width n : Nat} (hwidth : 0 < width) : digits width n ≠ [] := by
  intro h
  have hlength := length_digits width n
  rw [h, List.length_nil] at hlength
  omega

theorem parseFraction_digits {us : Nat} (h : us < 10 ^ 6) :
    parseFraction (digits 6 us) = some us := by
  have hall : (digits 6 us).all (·.isDigit) = true :=
    List.all_eq_true.mpr fun c hc => mem_digits hc
  have htake : (digits 6 us).take 6 = digits 6 us := List.take_of_length_le (by simp)
  have hread : takeDigits 6 (digits 6 us) = some (us, []) := by
    have hnil := takeDigits_digits h []
    rwa [List.append_nil] at hnil
  unfold parseFraction
  rw [if_neg (fun hor => hor.elim (digits_ne_nil (by decide)) fun hn => hn hall), htake]
  simp only [length_digits, hread, Option.map_some, Nat.sub_self, Nat.pow_zero, Nat.mul_one]

theorem takeDigits_two {n : Nat} (h : n < 100) : takeDigits 2 (digits 2 n) = some (n, []) := by
  have hnil := @takeDigits_digits 2 n h []
  rwa [List.append_nil] at hnil

/-- Hours and minutes, with what may follow them. -/
theorem parseClock_minutes {h m : Nat} (hh : h < 100) (hm : m < 100) :
    parseClock (digits 2 h ++ ':' :: digits 2 m) = some (h, m, 0, 0) := by
  unfold parseClock
  rw [takeDigits_digits hh]
  simp only [Option.bind_eq_bind, Option.bind_some, List.head?_cons, beq_self_eq_true,
    skipIf_self, takeDigits_two hm, reduceCtorEq, if_false, if_true, Option.pure_def]

theorem parseClock_seconds {h m s : Nat} (hh : h < 100) (hm : m < 100) (hs : s < 100) :
    parseClock (digits 2 h ++ ':' :: (digits 2 m ++ ':' :: digits 2 s)) = some (h, m, s, 0) := by
  unfold parseClock
  rw [takeDigits_digits hh]
  simp only [Option.bind_eq_bind, Option.bind_some, List.head?_cons, beq_self_eq_true,
    skipIf_self, @takeDigits_digits 2 m hm, takeDigits_two hs, reduceCtorEq, if_false,
    Option.pure_def]

theorem parseClock_micros {h m s us : Nat} (hh : h < 100) (hm : m < 100) (hs : s < 100)
    (hus : us < 10 ^ 6) :
    parseClock (digits 2 h ++ ':' :: (digits 2 m ++ ':' :: (digits 2 s ++ '.' :: digits 6 us))) =
      some (h, m, s, us) := by
  unfold parseClock
  rw [takeDigits_digits hh]
  simp only [Option.bind_eq_bind, Option.bind_some, List.head?_cons, beq_self_eq_true,
    skipIf_self, @takeDigits_digits 2 m hm, @takeDigits_digits 2 s hs,
    parseFraction_digits hus, reduceCtorEq, if_false, true_or, if_true, Option.pure_def]

/-- The clock of an offset. -/
theorem parseClock_clockChars {n : Nat} (h : n < 86400000000) :
    parseClock (clockChars n) =
      some (n / 3600000000, n / 60000000 % 60, n / 1000000 % 60, n % 1000000) := by
  unfold clockChars
  by_cases hminutes : n % 60000000 = 0
  · rw [if_pos hminutes, List.append_nil, parseClock_minutes (by omega) (by omega)]
    rw [show n / 1000000 % 60 = 0 by omega, show n % 1000000 = 0 by omega]
  · rw [if_neg hminutes]
    by_cases hseconds : n % 1000000 = 0
    · rw [if_pos hseconds, List.append_nil, parseClock_seconds (by omega) (by omega) (by omega),
        hseconds]
    · rw [if_neg hseconds, parseClock_micros (by omega) (by omega) (by omega) (by omega)]

theorem clockMicros_eq (n : Nat) :
    clockMicros (n / 3600000000) (n / 60000000 % 60) (n / 1000000 % 60) (n % 1000000) = n := by
  unfold clockMicros
  omega

theorem parseOffset_clockChars (o : Offset) :
    parseOffset (decide (o.val < 0)) (clockChars o.val.natAbs) = some o := by
  have ho := o.property
  unfold parseOffset
  rw [parseClock_clockChars (by omega)]
  simp only [Option.bind_eq_bind, Option.bind_some, clockMicros_eq]
  by_cases hneg : o.val < 0
  · have hval : -(o.val.natAbs : Int) = o.val := by omega
    simp only [hneg, decide_true, if_true, hval, ho, and_self, dite_true]
  · have hval : (o.val.natAbs : Int) = o.val := by omega
    simp only [hneg, decide_false, Bool.false_eq_true, if_false, hval, ho, and_self, dite_true]

/-- A clock with no sign in it, and the offset after it. -/
theorem parseTime_append {clock : List Char} {h m s us : Nat}
    (hclock : ∀ c ∈ clock, c ≠ '+' ∧ c ≠ '-' ∧ c ≠ 'Z')
    (hparse : parseClock clock = some (h, m, s, us)) (hh : h < 24) (hm : m < 60) (hs : s < 60)
    (o : Offset) :
    parseTime (clock ++ offsetChars o) = some (clockMicros h m s us, some o) := by
  have hsplit : (clock ++ offsetChars o).takeWhile (fun c => c ≠ '+' ∧ c ≠ '-' ∧ c ≠ 'Z') =
      clock := by
    rw [List.takeWhile_append_of_pos fun c hc => decide_eq_true (hclock c hc)]
    unfold offsetChars
    by_cases hneg : o.val < 0
    · rw [if_pos hneg]
      exact List.append_nil _
    · rw [if_neg hneg]
      exact List.append_nil _
  have hoffset := parseOffset_clockChars o
  unfold parseTime
  rw [hsplit]
  simp only [hparse, Option.bind_eq_bind, Option.bind_some, List.drop_left]
  rw [if_neg (by omega)]
  unfold offsetChars
  by_cases hneg : o.val < 0
  · rw [decide_eq_true hneg] at hoffset
    rw [if_pos hneg]
    change (parseOffset true _).bind _ = _
    rw [hoffset]
    rfl
  · rw [decide_eq_false hneg] at hoffset
    rw [if_neg hneg]
    change (parseOffset false _).bind _ = _
    rw [hoffset]
    rfl

theorem not_sign_of_isDigit {c : Char} (h : c.isDigit = true) : c ≠ '+' ∧ c ≠ '-' ∧ c ≠ 'Z' :=
  ⟨fun he => absurd (he ▸ h) (by decide), fun he => absurd (he ▸ h) (by decide),
    fun he => absurd (he ▸ h) (by decide)⟩

namespace Aware

/-- The time of day, with microseconds where there are any. -/
def clockText (micros : Nat) : List Char :=
  digits 2 (micros / 3600000000) ++ ':' :: (digits 2 (micros / 60000000 % 60) ++
    ':' :: (digits 2 (micros / 1000000 % 60) ++
      if micros % 1000000 = 0 then [] else '.' :: digits 6 (micros % 1000000)))

theorem isoformat_eq (t : Aware) :
    t.isoformat = String.ofList (t.wall.date.chars ++ 'T' :: (clockText t.wall.micros ++
      offsetChars t.offset)) := by
  unfold isoformat clockText Wall.chars
  by_cases hwhole : t.wall.micros % 1000000 = 0
  · rw [if_pos hwhole, if_pos hwhole]
    rfl
  · rw [if_neg hwhole, if_neg hwhole]
    simp only [List.append_assoc, List.cons_append]

theorem clockText_no_sign {micros : Nat} :
    ∀ c ∈ clockText micros, c ≠ '+' ∧ c ≠ '-' ∧ c ≠ 'Z' := by
  intro c hc
  have hcolon : ':' ≠ '+' ∧ ':' ≠ '-' ∧ ':' ≠ 'Z' := by decide
  have hpoint : '.' ≠ '+' ∧ '.' ≠ '-' ∧ '.' ≠ 'Z' := by decide
  simp only [clockText, List.mem_append, List.mem_cons] at hc
  rcases hc with hc | rfl | hc | rfl | hc | hc
  · exact not_sign_of_isDigit (mem_digits hc)
  · exact hcolon
  · exact not_sign_of_isDigit (mem_digits hc)
  · exact hcolon
  · exact not_sign_of_isDigit (mem_digits hc)
  · split at hc
    · cases hc
    · rcases List.mem_cons.mp hc with rfl | hc
      · exact hpoint
      · exact not_sign_of_isDigit (mem_digits hc)

theorem parseClock_clockText {micros : Nat} (h : micros < 86400000000) :
    parseClock (clockText micros) = some (micros / 3600000000, micros / 60000000 % 60,
      micros / 1000000 % 60, micros % 1000000) := by
  unfold clockText
  by_cases hwhole : micros % 1000000 = 0
  · rw [if_pos hwhole, List.append_nil, parseClock_seconds (by omega) (by omega) (by omega),
      hwhole]
  · rw [if_neg hwhole, parseClock_micros (by omega) (by omega) (by omega) (by omega)]

theorem parseTime_clockText {micros : Nat} (h : micros < 86400000000) (o : Offset) :
    parseTime (clockText micros ++ offsetChars o) = some (micros, some o) := by
  rw [parseTime_append clockText_no_sign (parseClock_clockText h) (by omega) (by omega) (by omega),
    clockMicros_eq]

/-- The date ends before the separator. -/
theorem separatorAt_chars (d : Date) (rest : List Char) :
    separatorAt (d.chars ++ 'T' :: rest) = some 10 := by
  have hlength : (d.chars ++ 'T' :: rest).length = 11 + rest.length := by
    rw [List.length_append, List.length_cons, Date.length_chars]
    omega
  have hhyphen : (d.chars ++ 'T' :: rest)[4]? = some '-' := by
    rw [List.getElem?_append_left (by simp), Date.chars,
      List.getElem?_append_right (by simp), length_digits]
    rfl
  have hmonth : (d.chars ++ 'T' :: rest)[5]? ≠ some 'W' := by
    rw [List.getElem?_append_left (by simp), Date.chars,
      List.getElem?_append_right (by simp), length_digits]
    have hhead := @head_digits_ne 2 d.month (by decide) ('-' :: digits 2 d.day) 'W' (by decide)
    rwa [List.head?_eq_getElem?] at hhead
  unfold separatorAt
  simp only [hlength, hhyphen, hmonth, if_false, if_true]
  rw [if_neg (by omega), if_neg (by omega)]

theorem fromisoformat_isoformat (t : Aware) :
    fromisoformat t.isoformat = some (t.wall, some t.offset) := by
  have hmicros := t.wall.micros_lt
  have htake : (t.wall.date.chars ++ 'T' :: (clockText t.wall.micros ++ offsetChars t.offset)).take
      10 = t.wall.date.chars := List.take_left' (Date.length_chars _)
  have hdrop : (t.wall.date.chars ++ 'T' :: (clockText t.wall.micros ++ offsetChars t.offset)).drop
      (10 + 1) = clockText t.wall.micros ++ offsetChars t.offset := by
    rw [← List.drop_drop, List.drop_left' (Date.length_chars _)]
    rfl
  have hne : clockText t.wall.micros ++ offsetChars t.offset ≠ [] := by
    unfold offsetChars
    simp
  unfold fromisoformat
  rw [isoformat_eq, String.toList_ofList]
  simp only [separatorAt_chars, Option.bind_eq_bind, Option.bind_some, htake, parseDate_chars,
    hdrop, hne, if_false, parseTime_clockText hmicros, hmicros, dite_true]

end Aware

end Lib
