import Mathlib.Data.List.DropRight

/-!
# Runs of blanks

A text is trimmed at its ends, its runs of blanks are made one, or it is cut at them. What
counts as a blank is a parameter. Trimming and making one of each run can be done in either
order (`trim_collapse`), as long as what a run becomes is a blank itself.
-/

namespace Lib

namespace Blanks

variable {α : Type} (blank : α → Bool)

/-- A text without the blanks at its ends. -/
def trim (text : List α) : List α := (text.dropWhile blank).rdropWhile blank

/-- Every run of blanks is `one`. -/
def collapse (one : α) : List α → List α
  | [] => []
  | c :: rest =>
      if blank c then
        if rest.head?.any blank then collapse one rest else one :: collapse one rest
      else c :: collapse one rest

/-- What there is between the runs of blanks, and before the first and after the last. -/
def pieces : List α → List (List α)
  | [] => [[]]
  | c :: rest =>
      if blank c then
        if rest.head?.any blank then pieces rest else [] :: pieces rest
      else (pieces rest).modifyHead (c :: ·)

variable {blank} {one : α} {text : List α} {c : α}

theorem collapse_dropWhile (hone : blank one = true) :
    collapse blank one (text.dropWhile blank) = (collapse blank one text).dropWhile blank := by
  induction text with
  | nil => rfl
  | cons c rest ih =>
      rw [List.dropWhile_cons, collapse]
      by_cases hc : blank c = true
      · rw [if_pos hc, if_pos hc, ih]
        by_cases hnext : rest.head?.any blank = true
        · rw [if_pos hnext]
        · rw [if_neg hnext, List.dropWhile_cons_of_pos hone]
      · rw [if_neg hc, if_neg hc, List.dropWhile_cons_of_neg hc, collapse, if_neg hc]

/-- What a text is made when one more character comes at its end. -/
theorem collapse_concat : collapse blank one (text ++ [c]) =
    if blank c then
      if text.getLast?.any blank then collapse blank one text else collapse blank one text ++ [one]
    else collapse blank one text ++ [c] := by
  induction text with
  | nil =>
      by_cases hc : blank c = true
      · simp [collapse, hc]
      · simp [collapse, hc]
  | cons b rest ih =>
      rw [List.cons_append, collapse, ih, collapse]
      cases rest with
      | nil =>
          by_cases hb : blank b = true
          · by_cases hc : blank c = true
            · simp [collapse, hb, hc]
            · simp [collapse, hb, hc]
          · by_cases hc : blank c = true
            · simp [collapse, hb, hc]
            · simp [collapse, hb, hc]
      | cons a tail =>
          rw [List.getLast?_cons_cons, List.cons_append, List.head?_cons, List.head?_cons]
          by_cases hc : blank c = true
          · by_cases hlast : (a :: tail).getLast?.any blank = true
            · simp only [if_pos hc, if_pos hlast]
            · simp only [if_pos hc, if_neg hlast]
              split
              · split
                · rfl
                · rfl
              · rfl
          · simp only [if_neg hc]
            split
            · split
              · rfl
              · rfl
            · rfl

theorem collapse_rdropWhile (hone : blank one = true) :
    collapse blank one (text.rdropWhile blank) = (collapse blank one text).rdropWhile blank := by
  induction text using List.reverseRecOn with
  | nil => rfl
  | append_singleton rest c ih =>
      rw [collapse_concat]
      by_cases hc : blank c = true
      · rw [List.rdropWhile_concat_pos _ _ _ hc, if_pos hc, ih]
        split
        · rfl
        · rw [List.rdropWhile_concat_pos _ _ _ hone]
      · rw [List.rdropWhile_concat_neg _ _ _ hc, if_neg hc, List.rdropWhile_concat_neg _ _ _ hc,
          collapse_concat, if_neg hc]

/-- The ends can be trimmed before the runs are made one, or after. -/
theorem trim_collapse (hone : blank one = true) :
    trim blank (collapse blank one text) = collapse blank one (trim blank text) := by
  rw [trim, trim, ← collapse_dropWhile hone, collapse_rdropWhile hone]

end Blanks

end Lib
