import Mathlib.Data.List.Nodup

/-!
# Rows with a key

A table is a list of rows, in the order they were inserted in, and a key tells
them apart (`Keyed`). Writing a row anew replaces the one with its key. The
lemmas say what a lookup finds and who is in the table after that, so that a
program's statements are not unfolded to lists again.
-/

namespace Lib

variable {α κ : Type} [DecidableEq κ] {key : α → κ} {rows : List α} {row r : α} {k : κ}

/-- The key tells the rows apart. -/
def Keyed (key : α → κ) (rows : List α) : Prop := (rows.map key).Nodup

def lookup (key : α → κ) (k : κ) (rows : List α) : Option α := rows.find? fun r => key r == k

/-- The row is written in the place of the one with its key. -/
def replace (key : α → κ) (row : α) (rows : List α) : List α :=
  rows.map fun r => if key r = key row then row else r

theorem lookup_mem (h : lookup key k rows = some r) : r ∈ rows ∧ key r = k :=
  ⟨List.mem_of_find?_eq_some h, by simpa using List.find?_some h⟩

theorem lookup_isSome : (lookup key k rows).isSome = true ↔ k ∈ rows.map key := by
  simp [lookup, List.mem_map]

theorem lookup_eq_none : lookup key k rows = none ↔ k ∉ rows.map key := by
  rw [← lookup_isSome, Bool.not_eq_true, Option.isSome_eq_false_iff, Option.isNone_iff_eq_none]

omit [DecidableEq κ] in
theorem Keyed.inj (h : Keyed key rows) {a b : α} (ha : a ∈ rows) (hb : b ∈ rows)
    (hkey : key a = key b) : a = b :=
  List.inj_on_of_nodup_map h ha hb hkey

theorem Keyed.lookup (h : Keyed key rows) (hr : r ∈ rows) : lookup key (key r) rows = some r := by
  have hsome : (Lib.lookup key (key r) rows).isSome = true :=
    lookup_isSome.mpr (List.mem_map_of_mem hr)
  obtain ⟨other, hother⟩ := Option.isSome_iff_exists.mp hsome
  obtain ⟨hmem, hkey⟩ := lookup_mem hother
  rw [hother, h.inj hmem hr hkey]

theorem Keyed.lookup_iff (h : Keyed key rows) :
    Lib.lookup key k rows = some r ↔ r ∈ rows ∧ key r = k :=
  ⟨lookup_mem, fun ⟨hr, hk⟩ => hk ▸ h.lookup hr⟩

@[simp] theorem replace_keys : (replace key row rows).map key = rows.map key := by
  rw [replace, List.map_map]
  refine List.map_congr_left fun r _ => ?_
  by_cases h : key r = key row
  · simp [h]
  · simp [h]

theorem Keyed.replace (h : Keyed key rows) : Keyed key (replace key row rows) := by
  rw [Keyed, replace_keys]
  exact h

omit [DecidableEq κ] in
theorem Keyed.append (h : Keyed key rows) (hfresh : key row ∉ rows.map key) :
    Keyed key (rows ++ [row]) := by
  rw [Keyed, List.map_append, List.map_singleton, List.nodup_append]
  refine ⟨h, List.nodup_singleton _, fun a ha b hb hab => hfresh ?_⟩
  rw [List.mem_singleton] at hb
  exact hb ▸ hab ▸ ha

theorem mem_replace : r ∈ replace key row rows ↔
    r = row ∧ key row ∈ rows.map key ∨ r ∈ rows ∧ key r ≠ key row := by
  rw [replace]
  simp only [List.mem_map]
  constructor
  · intro ⟨old, hold, h⟩
    by_cases hkey : key old = key row
    · rw [if_pos hkey] at h
      exact .inl ⟨h.symm, old, hold, hkey⟩
    · rw [if_neg hkey] at h
      exact .inr ⟨h ▸ hold, h ▸ hkey⟩
  · intro h
    rcases h with ⟨rfl, old, hold, hkey⟩ | ⟨hr, hkey⟩
    · exact ⟨old, hold, if_pos hkey⟩
    · exact ⟨r, hr, if_neg hkey⟩

theorem replace_of_not_mem (h : key row ∉ rows.map key) : replace key row rows = rows := by
  rw [replace]
  refine (List.map_congr_left fun r hr => if_neg fun hkey => h ?_).trans (List.map_id _)
  exact hkey ▸ List.mem_map_of_mem hr

theorem lookup_replace_ne (hne : k ≠ key row) :
    lookup key k (replace key row rows) = lookup key k rows := by
  induction rows with
  | nil => rfl
  | cons r rest ih =>
      rw [replace, List.map_cons]
      by_cases hr : key r = key row
      · have hk : ¬ key r = k := fun h => hne (h.symm.trans hr)
        have hk' : ¬ key row = k := fun h => hne h.symm
        rw [if_pos hr, lookup, lookup, List.find?_cons_of_neg (by simpa using hk'),
          List.find?_cons_of_neg (by simpa using hk)]
        exact ih
      · rw [if_neg hr]
        by_cases hk : key r = k
        · rw [lookup, lookup, List.find?_cons_of_pos (by simpa using hk),
            List.find?_cons_of_pos (by simpa using hk)]
        · rw [lookup, lookup, List.find?_cons_of_neg (by simpa using hk),
            List.find?_cons_of_neg (by simpa using hk)]
          exact ih

theorem lookup_replace_self (h : key row ∈ rows.map key) :
    lookup key (key row) (replace key row rows) = some row := by
  have hsome : (lookup key (key row) (replace key row rows)).isSome = true := by
    rw [lookup_isSome, replace_keys]
    exact h
  obtain ⟨r, hr⟩ := Option.isSome_iff_exists.mp hsome
  obtain ⟨hmem, hkey⟩ := lookup_mem hr
  rcases mem_replace.mp hmem with ⟨rfl, -⟩ | ⟨-, hne⟩
  · exact hr
  · exact absurd hkey hne

theorem lookup_append_of_some (h : lookup key k rows = some r) (new : List α) :
    lookup key k (rows ++ new) = some r := by
  rw [lookup, List.find?_append]
  rw [lookup] at h
  rw [h]
  rfl

theorem lookup_append_self (h : key row ∉ rows.map key) :
    lookup key (key row) (rows ++ [row]) = some row := by
  rw [lookup, List.find?_append]
  have hnone := lookup_eq_none.mpr h
  rw [lookup] at hnone
  rw [hnone, Option.none_or]
  simp

end Lib
