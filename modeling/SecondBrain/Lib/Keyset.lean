import SecondBrain.Lib.Paging

/-!
# Continuing below a key

A page can say where it ended by the key of its last row. The next one is then the first of
the rows with a smaller key. Where the key tells the rows apart these are the rows that come
after it in the order (`newestFirst_below`), however the ties of a part of the key fall, and
pages that are continued so are stretches of one order.
-/

namespace Lib

variable {α κ : Type} [LinearOrder κ] {key : α → κ} {l : List α}

/-- Rows left out before they are sorted are left out of the order. -/
theorem newestFirst_filter (p : α → Bool) (hnodup : l.Nodup)
    (hkey : ∀ a ∈ l, ∀ b ∈ l, key a = key b → a = b) :
    newestFirst key (l.filter p) = (newestFirst key l).filter p := by
  have hperm : (l.filter p).Perm ((newestFirst key l).filter p) :=
    ((List.perm_insertionSort _ l).symm).filter p
  rw [newestFirst_perm hperm (hnodup.filter p) fun a ha b hb =>
    hkey a (List.mem_of_mem_filter ha) b (List.mem_of_mem_filter hb)]
  exact ((newestFirst_pairwise key l).sublist List.filter_sublist).insertionSort_eq

theorem newestFirst_strict (hnodup : l.Nodup)
    (hkey : ∀ a ∈ l, ∀ b ∈ l, key a = key b → a = b) :
    (newestFirst key l).Pairwise fun a b => key b < key a := by
  have hsorted : (newestFirst key l).Nodup := (List.perm_insertionSort _ l).nodup_iff.mpr hnodup
  refine ((newestFirst_pairwise key l).and hsorted).imp_of_mem fun {a b} ha hb h => ?_
  refine lt_of_le_of_ne h.1 fun heq => h.2 ?_
  exact (hkey b (mem_newestFirst.mp hb) a (mem_newestFirst.mp ha) heq).symm

/-- In a descending list the rows below the one at a place are those after it. -/
theorem filter_below {i : Nat} {a : α} (hstrict : l.Pairwise fun a b => key b < key a)
    (h : l[i]? = some a) : l.filter (fun b => key b < key a) = l.drop (i + 1) := by
  obtain ⟨hlt, hget⟩ := List.getElem?_eq_some_iff.mp h
  have hsplit : l = l.take i ++ a :: l.drop (i + 1) := by
    rw [← hget, List.getElem_cons_drop, List.take_append_drop]
  have hpairs := hstrict
  rw [hsplit, List.pairwise_append, List.pairwise_cons] at hpairs
  have hbefore : (l.take i).filter (fun b => key b < key a) = [] := by
    rw [List.filter_eq_nil_iff]
    intro b hb
    have hlt : key a < key b := hpairs.2.2 b hb a (List.mem_cons_self ..)
    simpa using hlt.le
  have hafter : (l.drop (i + 1)).filter (fun b => key b < key a) = l.drop (i + 1) := by
    rw [List.filter_eq_self]
    intro b hb
    exact decide_eq_true (hpairs.2.1.1 b hb)
  nth_rewrite 1 [hsplit]
  rw [List.filter_append, List.filter_cons, if_neg (by simp), hbefore, hafter, List.nil_append]

/-- The rows below the key of one, sorted, are those that come after it. -/
theorem newestFirst_below {i : Nat} {a : α} (hnodup : l.Nodup)
    (hkey : ∀ a ∈ l, ∀ b ∈ l, key a = key b → a = b)
    (h : (newestFirst key l)[i]? = some a) :
    newestFirst key (l.filter fun b => key b < key a) = (newestFirst key l).drop (i + 1) := by
  rw [newestFirst_filter _ hnodup hkey]
  exact filter_below (newestFirst_strict hnodup hkey) h

end Lib
