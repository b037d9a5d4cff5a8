import SecondBrain.Calendar.Model

/-!
# Occurrence identity

A standalone event is known by its id, an occurrence of a series by the id of
the series and its original start. The key spells this out with a word before
the start and none of the letters of that word in it, so whatever characters the
ids have, a key is read back from its end (`occurrenceKey_eq_iff`). An original
start that is a time is spelled with its offset.
-/

namespace SecondBrain

open Lib

namespace Calendar

structure OccurrenceIdentity where
  recurrence : Option (String × Moment Aware)
  key : String
deriving DecidableEq

/-- The key of an event, or of an occurrence of a series. -/
def occurrenceKey (eventId : String) : Option (String × Moment Aware) → String
  | none => "event:" ++ eventId
  | some (series, .time t) => "series:" ++ series ++ ":instant:" ++ t.isoformatMicroseconds
  | some (series, .date d) => "series:" ++ series ++ ":date:" ++ d.isoformat

/-- No answer is a `ValueError`. -/
def occurrenceIdentity (eventId : String) (recurringSeriesId : Option String)
    (originalStart : Option (Moment Aware)) : Option OccurrenceIdentity :=
  if eventId.isEmpty ∨ 1024 < eventId.length then none
  else match recurringSeriesId, originalStart with
    | none, some _ => none
    | none, none => some ⟨none, occurrenceKey eventId none⟩
    | some series, start =>
        if series.isEmpty ∨ 1024 < series.length then none
        else start.map fun s => ⟨some (series, s), occurrenceKey eventId (some (series, s))⟩

/-- What an occurrence is, however its start is written. -/
inductive Occurrence where
  | event (id : String)
  | date (series : String) (d : Date)
  | instant (series : String) (t : Instant)
deriving DecidableEq

def occurrence (eventId : String) : Option (String × Moment Aware) → Occurrence
  | none => .event eventId
  | some (series, .date d) => .date series d
  | some (series, .time t) => .instant series t.instant

/-- One instant as the start of one series, with two offsets. -/
def writtenApart : Option (String × Moment Aware) → Option (String × Moment Aware) → Prop
  | some (series, .time t), some (series', .time t') =>
      series = series' ∧ t.instant = t'.instant ∧ t.offset ≠ t'.offset
  | _, _ => False

/-- Two spellings of one start are of one occurrence. -/
theorem occurrence_of_apart {a b : String} {p q : Option (String × Moment Aware)}
    (h : writtenApart p q) : occurrence a p = occurrence b q := by
  match p, q with
  | some (_, .time _), some (_, .time _) =>
      obtain ⟨rfl, hinstant, -⟩ := h
      rw [occurrence, occurrence, hinstant]
  | none, _ | some (_, .date _), _ | some (_, .time _), none
  | some (_, .time _), some (_, .date _) => exact h.elim

/-! ## Reading a key back -/

/-- The last place of a character splits a text in one way. -/
theorem append_cons_inj {α : Type} {x : α} {l m r t : List α} (hr : x ∉ r) (ht : x ∉ t)
    (h : l ++ x :: r = m ++ x :: t) : l = m ∧ r = t := by
  rcases List.append_eq_append_iff.mp h with ⟨a, rfl, hx⟩ | ⟨a, rfl, hx⟩
  · cases a with
    | nil => exact ⟨(List.append_nil l).symm, (List.cons.inj hx).2⟩
    | cons y a =>
        have hin : x ∈ r := by
          rw [(List.cons.inj hx).2]
          exact List.mem_append_right _ List.mem_cons_self
        exact absurd hin hr
  · cases a with
    | nil => exact ⟨List.append_nil m, (List.cons.inj hx).2.symm⟩
    | cons y a =>
        have hin : x ∈ t := by
          rw [(List.cons.inj hx).2]
          exact List.mem_append_right _ List.mem_cons_self
        exact absurd hin ht

/-- What a start is spelled with. -/
def isStartChar (c : Char) : Bool := c.isDigit || c ∈ ['-', ':', '.', '+', 'T']

theorem digits_start {width n : Nat} {c : Char} (h : c ∈ digits width n) :
    isStartChar c = true := by
  rw [isStartChar, mem_digits h]
  rfl

theorem date_start {d : Date} {c : Char} (h : c ∈ d.chars) : isStartChar c = true := by
  simp only [Date.chars, List.mem_append, List.mem_cons] at h
  rcases h with h | rfl | h | rfl | h <;> first | exact digits_start h | rfl

theorem clock_start {n : Nat} {c : Char} (h : c ∈ clockChars n) : isStartChar c = true := by
  simp only [clockChars, List.mem_append, List.mem_cons] at h
  rcases h with h | rfl | h | h
  · exact digits_start h
  · rfl
  · exact digits_start h
  split at h
  · cases h
  rw [List.mem_cons, List.mem_append] at h
  rcases h with rfl | h | h
  · rfl
  · exact digits_start h
  split at h
  · cases h
  rcases List.mem_cons.mp h with rfl | h
  · rfl
  · exact digits_start h

theorem aware_start {t : Aware} {c : Char} (h : c ∈ t.chars) : isStartChar c = true := by
  simp only [Aware.chars, Wall.chars, offsetChars, List.mem_append, List.mem_cons] at h
  rcases h with (h | rfl | h | rfl | h | rfl | h | rfl | h) | h | h
  · exact date_start h
  · rfl
  · exact digits_start h
  · rfl
  · exact digits_start h
  · rfl
  · exact digits_start h
  · rfl
  · exact digits_start h
  · rw [h]
    split <;> rfl
  · exact clock_start h

theorem not_mem_of_start {l : List Char} (hl : ∀ c ∈ l, isStartChar c = true) {x : Char}
    (hx : isStartChar x = false) : x ∉ l := by
  intro hmem
  rw [hl x hmem] at hx
  cases hx

/-- A key as characters, cut after the last `t` of the word in it. -/
theorem key_time (eventId series : String) (t : Aware) :
    (occurrenceKey eventId (some (series, .time t))).toList =
      ("series:".toList ++ series.toList ++ ":instan".toList) ++ 't' :: (':' :: t.chars) := by
  simp [occurrenceKey, Aware.isoformatMicroseconds]

theorem key_date (eventId series : String) (d : Date) :
    (occurrenceKey eventId (some (series, .date d))).toList =
      ("series:".toList ++ series.toList ++ ":da".toList) ++ 't' :: ('e' :: ':' :: d.chars) := by
  simp [occurrenceKey, Date.isoformat]

theorem series_of_start {s t : String} {word : List Char}
    (h : "series:".toList ++ s.toList ++ word = "series:".toList ++ t.toList ++ word) : s = t := by
  rw [List.append_assoc, List.append_assoc] at h
  exact String.toList_injective (List.append_cancel_right (List.append_cancel_left h))

theorem not_mem_time (t : Aware) : 't' ∉ ':' :: t.chars :=
  not_mem_of_start (fun c hc => by
    rcases List.mem_cons.mp hc with rfl | hc
    · rfl
    · exact aware_start hc) rfl

theorem not_mem_date (d : Date) : 't' ∉ 'e' :: ':' :: d.chars := by
  intro h
  rcases List.mem_cons.mp h with h | h
  · cases h
  · refine not_mem_of_start (fun c hc => ?_) rfl h
    rcases List.mem_cons.mp hc with rfl | hc
    · rfl
    · exact date_start hc

/-- Two keys are one exactly when both tell of one occurrence and do not write
its start with two offsets. -/
theorem occurrenceKey_eq_iff {a b : String} {p q : Option (String × Moment Aware)} :
    occurrenceKey a p = occurrenceKey b q ↔
      occurrence a p = occurrence b q ∧ ¬ writtenApart p q := by
  rw [← String.toList_inj]
  match p, q with
  | none, none =>
      simp [occurrenceKey, occurrence, writtenApart, String.toList_inj]
  | none, some (_, .date _) | none, some (_, .time _) | some (_, .date _), none
  | some (_, .time _), none =>
      simp [occurrenceKey, occurrence]
  | some (s, .date d), some (t, .date e) =>
      rw [key_date, key_date]
      simp only [occurrence, writtenApart, Occurrence.date.injEq, not_false_eq_true, and_true]
      constructor
      · intro h
        obtain ⟨hseries, hstart⟩ := append_cons_inj (not_mem_date d) (not_mem_date e) h
        exact ⟨series_of_start hseries,
          Date.chars_injective (List.cons.inj (List.cons.inj hstart).2).2⟩
      · rintro ⟨rfl, rfl⟩
        rfl
  | some (s, .date d), some (t, .time u) =>
      rw [key_date, key_time]
      refine ⟨fun h => ?_, fun h => nomatch h.1⟩
      have hstart := (append_cons_inj (not_mem_date d) (not_mem_time u) h).2
      exact absurd (List.cons.inj hstart).1 (by decide)
  | some (s, .time u), some (t, .date d) =>
      rw [key_date, key_time]
      refine ⟨fun h => ?_, fun h => nomatch h.1⟩
      have hstart := (append_cons_inj (not_mem_time u) (not_mem_date d) h).2
      exact absurd (List.cons.inj hstart).1 (by decide)
  | some (s, .time u), some (t, .time v) =>
      rw [key_time, key_time]
      simp only [occurrence, writtenApart, Occurrence.instant.injEq]
      constructor
      · intro h
        obtain ⟨hseries, hstart⟩ := append_cons_inj (not_mem_time u) (not_mem_time v) h
        obtain ⟨hinstant, hoffset⟩ := Aware.chars_eq_iff.mp (List.cons.inj hstart).2
        exact ⟨⟨series_of_start hseries, hinstant⟩, fun hapart => hapart.2.2 hoffset⟩
      · rintro ⟨⟨rfl, hinstant⟩, happart⟩
        have hoffset : u.offset = v.offset := by
          by_contra hne
          exact happart ⟨rfl, hinstant, hne⟩
        rw [Aware.chars_eq_iff.mpr ⟨hinstant, hoffset⟩]

end Calendar

end SecondBrain
