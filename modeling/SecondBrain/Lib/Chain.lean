import SecondBrain.Lib.Latest

/-!
# Chains of revisions

Rows that say one after the other what is known of something: each belongs to a
group, carries a number, and has a content. In a chain the rows of every group
are numbered from one on without a gap, in the order they were stored in, and no
two of them say the same (`Chained`). A row that takes the number after the
latest of its group and says something new keeps this (`Chained.append`), and is
the latest from then on.
-/

namespace Lib

variable {α ι γ : Type} [DecidableEq ι] {group : α → ι} {number : α → Nat} {content : α → γ}
  {rows : List α} {row a b : α}

def members (group : α → ι) (i : ι) (rows : List α) : List α := rows.filter fun r => group r == i

structure Chained (group : α → ι) (number : α → Nat) (content : α → γ) (rows : List α) : Prop where
  numbers : ∀ i, (members group i rows).map number = List.range' 1 (members group i rows).length
  contents : ∀ i, ((members group i rows).map content).Nodup

theorem mem_members {i : ι} : a ∈ members group i rows ↔ a ∈ rows ∧ group a = i := by
  simp [members]

theorem members_append (i : ι) : members group i (rows ++ [row]) =
    members group i rows ++ if group row = i then [row] else [] := by
  rw [members, List.filter_append, members]
  by_cases h : group row = i
  · simp [h]
  · simp [h]

theorem Chained.nil : Chained group number content [] :=
  ⟨fun _ => rfl, fun _ => List.nodup_nil⟩

/-- The number of the latest row of the group, or nothing. -/
theorem Chained.latest (h : Chained group number content rows) (i : ι) :
    (Lib.latest number (fun r => group r == i) rows).elim 1 (number · + 1) =
      (members group i rows).length + 1 :=
  latest_numbered (h.numbers i)

theorem Chained.append (h : Chained group number content rows)
    (hnumber : number row =
      (Lib.latest number (fun r => group r == group row) rows).elim 1 (number · + 1))
    (hcontent : ∀ r ∈ members group (group row) rows, content r ≠ content row) :
    Chained group number content (rows ++ [row]) := by
  refine ⟨fun i => ?_, fun i => ?_⟩
  · rw [members_append]
    by_cases hi : group row = i
    · subst hi
      rw [if_pos rfl, List.map_append, h.numbers, List.map_singleton, hnumber, h.latest,
        List.length_append, List.length_singleton, List.range'_1_concat, Nat.add_comm 1]
    · rw [if_neg hi, List.append_nil]
      exact h.numbers i
  · rw [members_append]
    by_cases hi : group row = i
    · subst hi
      rw [if_pos rfl, List.map_append, List.nodup_append]
      refine ⟨h.contents _, List.nodup_singleton _, fun a ha b hb => ?_⟩
      obtain ⟨r, hr, rfl⟩ := List.mem_map.mp ha
      rw [List.map_singleton, List.mem_singleton] at hb
      exact hb ▸ hcontent r hr
    · rw [if_neg hi, List.append_nil]
      exact h.contents i

theorem Chained.number_inj (h : Chained group number content rows) (ha : a ∈ rows) (hb : b ∈ rows)
    (hgroup : group a = group b) (hnumber : number a = number b) : a = b := by
  have hnodup : ((members group (group b) rows).map number).Nodup := by
    rw [h.numbers]
    exact List.nodup_range'
  exact List.inj_on_of_nodup_map hnodup (mem_members.mpr ⟨ha, hgroup⟩) (mem_members.mpr ⟨hb, rfl⟩)
    hnumber

theorem Chained.number_le (h : Chained group number content rows) (ha : a ∈ rows) :
    1 ≤ number a ∧ number a ≤ (members group (group a) rows).length := by
  have hmem : number a ∈ (members group (group a) rows).map number :=
    List.mem_map_of_mem (mem_members.mpr ⟨ha, rfl⟩)
  rw [h.numbers, List.mem_range'_1] at hmem
  omega

/-- A row that is added with the next number is later than those before it. -/
theorem Chained.lt_next (h : Chained group number content rows) (ha : a ∈ rows)
    (hgroup : group a = group row)
    (hnumber : number row =
      (Lib.latest number (fun r => group r == group row) rows).elim 1 (number · + 1)) :
    number a < number row := by
  have hle := (h.number_le ha).2
  rw [h.latest] at hnumber
  rw [hgroup] at hle
  omega

end Lib
