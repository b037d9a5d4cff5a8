import SecondBrain.Lib.DateTime

/-!
# What the clock of a zone shows

A transition sets the clock forward, over times that it never shows, or back, over
times that it shows twice. Where two transitions do not touch the same times (`apart`),
a local time is of one of three kinds (`Shown`): the offsets that the two folds give are
the same and it is shown once, they differ and it is shown twice, or it is shown never.
In each of them there is a first instant at which the clock has come as far, and that
order of the instants is the order of the local times.
-/

namespace Lib

theorem Date.number_range (d : Date) : -719162 ≤ d.number ∧ d.number ≤ 2932896 := by
  have hmonth := daysBeforeMonth_le d.year d.month_range
  have hyear := daysBeforeYear_succ d.year_range.1
  have hrange := d.year_range
  have hday := d.day_range
  have hlast : daysBeforeYear (d.year + 1) ≤ 3652059 := by
    unfold daysBeforeYear
    omega
  unfold number
  omega

theorem Wall.number_representable (wall : Wall) : representable wall.number = true := by
  have hdate := wall.date.number_range
  have hmicros := wall.micros_lt
  unfold representable number
  rw [decide_eq_true_eq]
  omega

/-- What is in force at `u`: the value of the last entry that is not after it. -/
def settled (first : Int) : List (Int × Int) → Int → Int
  | [], _ => first
  | (t, after) :: rest, u => if t ≤ u then settled after rest u else first

theorem getLast_takeWhile_eq (first : Int) (l : List (Int × Int)) (u : Int) :
    (((l.takeWhile (·.1 ≤ u)).getLast?).map (·.2)).getD first = settled first l u := by
  induction l generalizing first with
  | nil => rfl
  | cons entry rest ih =>
      obtain ⟨t, after⟩ := entry
      rw [settled, ← ih after]
      by_cases h : t ≤ u
      · rw [if_pos h, List.takeWhile_cons_of_pos (by simpa using h)]
        cases hrest : rest.takeWhile (·.1 ≤ u) with
        | nil => rfl
        | cons next others =>
            rw [List.getLast?_cons_cons, List.getLast?_cons]
            rfl
      · rw [if_neg h, List.takeWhile_cons_of_neg (by simpa using h)]
        rfl

namespace Zone

/-! ## Transitions -/

/-- What the clock shows, from an offset and its transitions on. -/
def clock (before : Int) (ts : List (Int × Int)) (u : Int) : Int := u + settled before ts u

/-- The offset of a local time. -/
def localOffset (fold : Bool) (before : Int) (ts : List (Int × Int)) (w : Int) : Int :=
  settled before (walls fold before ts) w

theorem fromUtc_eq (z : Zone) (u : Int) : z.fromUtc u = clock z.first z.transitions u := by
  unfold fromUtc offsetAt clock
  rw [getLast_takeWhile_eq]

theorem utcoffset_eq (z : Zone) (fold : Bool) (w : Int) :
    z.utcoffset fold w = localOffset fold z.first z.transitions w := by
  unfold utcoffset localOffset
  rw [getLast_takeWhile_eq]

/-- No two transitions touch the same local times. -/
def apart (before : Int) : List (Int × Int) → Bool
  | [] => true
  | (t, after) :: rest =>
      (rest.head?.all fun next => decide (t + max before after ≤ next.1 + min after next.2)) &&
        apart after rest

variable {before t after : Int} {ts rest : List (Int × Int)} {u v w T : Int}

theorem clock_of_lt (h : u < t) : clock before ((t, after) :: rest) u = u + before := by
  unfold clock
  rw [settled, if_neg (by omega)]

theorem clock_of_le (h : t ≤ u) :
    clock before ((t, after) :: rest) u = clock after rest u := by
  unfold clock
  rw [settled, if_pos h]

theorem apart_cons (h : apart before ((t, after) :: rest) = true) :
    (∀ next ∈ rest.head?, t + max before after ≤ next.1 + min after next.2) ∧
      apart after rest = true := by
  unfold apart at h
  rw [Bool.and_eq_true_iff] at h
  refine ⟨fun next hnext => ?_, h.2⟩
  have hall := h.1
  rw [hnext] at hall
  exact of_decide_eq_true hall

/-- The clock runs on while it shows times that the transition touches. -/
theorem clock_of_lt_rest (h : apart before ((t, after) :: rest) = true)
    (hu : u + after < t + max before after) : clock after rest u = u + after := by
  cases rest with
  | nil => rfl
  | cons next others =>
      have hnext := (apart_cons h).1 next rfl
      exact clock_of_lt (by omega)

/-- After a transition the clock does not come back behind where it was set. -/
theorem le_clock (h : apart before ((t, after) :: rest) = true) (hu : t ≤ u) :
    t + after ≤ clock after rest u := by
  induction rest generalizing before t after with
  | nil =>
      show t + after ≤ u + after
      omega
  | cons next others ih =>
      obtain ⟨t', after'⟩ := next
      obtain ⟨hnext, hrest⟩ := apart_cons h
      have hnext : t + max before after ≤ t' + min after after' := hnext _ rfl
      by_cases h' : t' ≤ u
      · rw [clock_of_le h']
        have hlater := ih hrest h'
        omega
      · rw [clock_of_lt (by omega)]
        omega

/-! ## Local times -/

/-- `T` is the first instant at which the clock has come as far as `w`. -/
structure FirstAt (before : Int) (ts : List (Int × Int)) (w T : Int) : Prop where
  earlier : ∀ v < T, clock before ts v < w
  reached : w ≤ clock before ts T

theorem FirstAt.mono {w' T' : Int} (h : FirstAt before ts w T) (h' : FirstAt before ts w' T')
    (hle : w ≤ w') : T ≤ T' := by
  by_contra hlt
  have hearlier := h.earlier T' (by omega)
  have hreached := h'.reached
  omega

/-- An instant at which the clock has come as far is not before the first. -/
theorem FirstAt.le (h : FirstAt before ts w T) (hu : w ≤ clock before ts u) : T ≤ u := by
  by_contra hlt
  have hearlier := h.earlier u (by omega)
  omega

/-- How often the clock shows a local time, and what the folds say of it. -/
inductive Shown (before : Int) (ts : List (Int × Int)) (w : Int) : Prop
  | once {o : Int} (fold : ∀ fold, localOffset fold before ts w = o)
      (first : FirstAt before ts w (w - o))
      (only : ∀ u, clock before ts u = w ↔ u = w - o)
  | twice {o o' : Int} (early : localOffset false before ts w = o)
      (late : localOffset true before ts w = o') (back : o' < o)
      (first : FirstAt before ts w (w - o))
      (shown : clock before ts (w - o) = w ∧ clock before ts (w - o') = w)
  | never {T : Int} (first : FirstAt before ts w T) (past : ∀ u, T ≤ u → w < clock before ts u)

theorem localOffset_cons (fold : Bool) :
    localOffset fold before ((t, after) :: rest) w =
      if t + (if fold then min before after else max before after) ≤ w then
        localOffset fold after rest w
      else before := rfl

theorem localOffset_of_lt {fold : Bool} (h : w < t + min before after) :
    localOffset fold before ((t, after) :: rest) w = before := by
  rw [localOffset_cons, if_neg]
  split <;> omega

theorem localOffset_of_le {fold : Bool} (h : t + max before after ≤ w) :
    localOffset fold before ((t, after) :: rest) w = localOffset fold after rest w := by
  rw [localOffset_cons, if_pos]
  split <;> omega

/-- From the rest, for local times that this transition does not touch. -/
theorem FirstAt.cons (hap : apart before ((t, after) :: rest) = true)
    (hw : t + max before after ≤ w) (h : FirstAt after rest w T) :
    t ≤ T ∧ FirstAt before ((t, after) :: rest) w T := by
  have hle : t ≤ T := by
    by_contra hlt
    have hreached := h.reached
    rw [clock_of_lt_rest hap (by omega)] at hreached
    omega
  refine ⟨hle, fun v hv => ?_, ?_⟩
  · by_cases hvt : t ≤ v
    · rw [clock_of_le hvt]
      exact h.earlier v hv
    · rw [clock_of_lt (by omega)]
      omega
  · rw [clock_of_le hle]
    exact h.reached

/-- A local time that the transition does not touch is not shown before it. -/
theorem clock_eq_cons (hap : apart before ((t, after) :: rest) = true)
    (hw : t + max before after ≤ w) :
    clock before ((t, after) :: rest) u = w ↔ clock after rest u = w := by
  by_cases hu : t ≤ u
  · rw [clock_of_le hu]
  · rw [clock_of_lt (by omega), clock_of_lt_rest hap (by omega)]
    omega

theorem Shown.cons (hap : apart before ((t, after) :: rest) = true)
    (hw : t + max before after ≤ w) (h : Shown after rest w) :
    Shown before ((t, after) :: rest) w := by
  cases h with
  | once fold first only =>
      refine .once (fun f => (localOffset_of_le hw).trans (fold f)) (first.cons hap hw).2 ?_
      exact fun u => (clock_eq_cons hap hw).trans (only u)
  | twice early late back first shown =>
      refine .twice ((localOffset_of_le hw).trans early) ((localOffset_of_le hw).trans late) back
        (first.cons hap hw).2 ?_
      exact ⟨(clock_eq_cons hap hw).mpr shown.1, (clock_eq_cons hap hw).mpr shown.2⟩
  | never first past =>
      obtain ⟨hle, hfirst⟩ := first.cons hap hw
      refine .never hfirst fun u hu => ?_
      rw [clock_of_le (by omega)]
      exact past u hu

/-- Before the transition, at the offset before it. -/
theorem firstAt_before (h : w < t + before) :
    FirstAt before ((t, after) :: rest) w (w - before) := by
  refine ⟨fun v hv => ?_, ?_⟩
  · rw [clock_of_lt (by omega)]
    omega
  · rw [clock_of_lt (by omega)]
    omega

theorem localOffset_rest (hap : apart before ((t, after) :: rest) = true) {fold : Bool}
    (hw : w < t + max before after) : localOffset fold after rest w = after := by
  cases rest with
  | nil => rfl
  | cons next others =>
      have hnext := (apart_cons hap).1 next rfl
      exact localOffset_of_lt (by omega)

/-- Every local time is of one of the kinds. -/
theorem shown (h : apart before ts = true) (w : Int) : Shown before ts w := by
  induction ts generalizing before with
  | nil =>
      have hclock : ∀ u, clock before [] u = u + before := fun _ => rfl
      refine .once (fun _ => rfl) ⟨fun v hv => ?_, ?_⟩ fun u => ?_
      · rw [hclock]; omega
      · rw [hclock]; omega
      · rw [hclock]; omega
  | cons next rest ih =>
      obtain ⟨t, after⟩ := next
      by_cases hlow : w < t + min before after
      · refine .once (fun _ => localOffset_of_lt hlow) (firstAt_before (by omega)) fun u => ?_
        by_cases hu : t ≤ u
        · have hpast := le_clock h hu
          rw [clock_of_le hu]
          omega
        · rw [clock_of_lt (by omega)]
          omega
      by_cases hhigh : t + max before after ≤ w
      · exact (ih (apart_cons h).2).cons h hhigh
      by_cases hback : after < before
      · -- The clock is set back over the time.
        refine @Shown.twice _ _ _ before after ?_ ?_ hback (firstAt_before (by omega))
          ⟨?_, ?_⟩
        · rw [localOffset_cons, if_neg (by simp; omega)]
        · rw [localOffset_cons, if_pos (by simp; omega)]
          exact localOffset_rest h (by omega)
        · rw [clock_of_lt (by omega)]
          omega
        · rw [clock_of_le (by omega), clock_of_lt_rest h (by omega)]
          omega
      · -- The clock is set forward over it.
        refine .never (T := t) ⟨fun v hv => ?_, ?_⟩ fun u hu => ?_
        · rw [clock_of_lt hv]
          omega
        · have hpast := le_clock h (Int.le_refl t)
          rw [clock_of_le (Int.le_refl t)]
          omega
        · have hpast := le_clock h hu
          rw [clock_of_le hu]
          omega

/-- A time that is shown once is reached when it is shown. -/
theorem firstAt_of_only (h : apart before ts = true) (honly : ∀ u, clock before ts u = w ↔ u = T) :
    FirstAt before ts w T := by
  cases shown h w with
  | once fold first only =>
      rw [(honly _).mp ((only _).mpr rfl)] at first
      exact first
  | twice early late back first shown =>
      have hfirst := (honly _).mp shown.1
      have hsecond := (honly _).mp shown.2
      omega
  | @never T' first past =>
      have hshown := (honly T).mpr rfl
      by_cases hT : T' ≤ T
      · have hpast := past T hT
        omega
      · have hearlier := first.earlier T (by omega)
        omega

/-! ## Regular zones -/

/-- Offsets of less than a day, and transitions that do not touch the same times. -/
structure Regular (z : Zone) : Prop where
  offset : ∀ o ∈ z.first :: z.transitions.map (·.2), -86400000000 < o ∧ o < 86400000000
  apart : Zone.apart z.first z.transitions = true

theorem settled_mem (first : Int) (l : List (Int × Int)) (u : Int) :
    settled first l u ∈ first :: l.map (·.2) := by
  induction l generalizing first with
  | nil => exact List.mem_cons_self
  | cons entry rest ih =>
      rw [settled]
      split
      · exact List.mem_cons_of_mem _ (ih entry.2)
      · exact List.mem_cons_self

theorem walls_values (fold : Bool) (before : Int) (ts : List (Int × Int)) :
    (walls fold before ts).map (·.2) = ts.map (·.2) := by
  induction ts generalizing before with
  | nil => rfl
  | cons entry rest ih =>
      rw [walls, List.map_cons, List.map_cons, ih]

variable {z : Zone}

theorem Regular.utcoffset_range (h : Regular z) (fold : Bool) (w : Int) :
    -86400000000 < z.utcoffset fold w ∧ z.utcoffset fold w < 86400000000 := by
  refine h.offset _ ?_
  rw [utcoffset_eq, localOffset, ← walls_values fold z.first]
  exact settled_mem _ _ _

theorem Regular.fromUtc_range (h : Regular z) (u : Int) :
    u - 86400000000 < z.fromUtc u ∧ z.fromUtc u < u + 86400000000 := by
  have hoffset := h.offset _ (settled_mem z.first z.transitions u)
  rw [fromUtc_eq, clock]
  omega

end Zone

end Lib
