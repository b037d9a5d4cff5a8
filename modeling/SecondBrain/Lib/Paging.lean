import Mathlib.Data.List.Perm.Subperm
import Mathlib.Data.List.Nodup
import SecondBrain.Lib.Latest

/-!
# Walking through pages of an order

A page is a stretch of an order of rows. Where the order is another one for every page, a
walk through the pages may show a row twice or leave one out. It does neither exactly where
from each page to the next the same rows come first, up to where the next page starts
(`stable_iff`): then the rows of the pages before are those that come before the page.

Where a key orders the rows, the place of a row is the number of rows ahead of it
(`getElem?_newestFirst`), so what comes first can be told without sorting.
-/

namespace Lib

variable {α : Type} {order : Nat → List α} {k n : Nat}

/-- The `n`-th page of `k` rows, of its own order. -/
def pageOf (order : Nat → List α) (k n : Nat) : List α := ((order n).drop (n * k)).take k

/-- The rows of the pages before the `n`-th. -/
def walked (order : Nat → List α) (k n : Nat) : List α :=
  (List.range n).flatMap (pageOf order k)

/-- Before a row, an order has the other. -/
def RanksBefore (l : List α) (b a : α) : Prop :=
  ∃ i j : Nat, i < j ∧ l[i]? = some b ∧ l[j]? = some a

/-- No row is shown twice, and none is left out that its page's order has before one that
is shown. -/
structure StableWalk (page order : Nat → List α) : Prop where
  distinct : ∀ n, (page n).Nodup ∧ ∀ m, m < n → (page m).Disjoint (page n)
  complete : ∀ n, ∀ a ∈ page n, ∀ b, RanksBefore (order n) b a → ∃ m ≤ n, b ∈ page m

/-- The same rows come first in one order and in the next, up to the next page. -/
def SameFirst (order : Nat → List α) (k : Nat) : Prop :=
  ∀ n, pageOf order k (n + 1) ≠ [] →
    ((order n).take ((n + 1) * k)).Perm ((order (n + 1)).take ((n + 1) * k))

theorem walked_succ : walked order k (n + 1) = walked order k n ++ pageOf order k n := by
  rw [walked, List.range_succ, List.flatMap_append, List.flatMap_singleton, walked]

theorem mem_walked {a : α} : a ∈ walked order k n ↔ ∃ m < n, a ∈ pageOf order k m := by
  simp only [walked, List.mem_flatMap, List.mem_range]

theorem length_walked_le : (walked order k n).length ≤ n * k := by
  induction n with
  | zero => simp [walked]
  | succ n ih =>
      have hpage : (pageOf order k n).length ≤ k := List.length_take_le _ _
      rw [walked_succ, List.length_append, Nat.succ_mul]
      omega

theorem take_succ_page :
    (order n).take ((n + 1) * k) = (order n).take (n * k) ++ pageOf order k n := by
  rw [Nat.succ_mul, List.take_add, pageOf]

/-- A page that shows something has its full offset before it. -/
theorem offset_lt_length (h : pageOf order k n ≠ []) : n * k < (order n).length ∧ 0 < k := by
  constructor
  · by_contra hle
    refine h ?_
    rw [pageOf, List.drop_eq_nil_of_le (by omega), List.take_nil]
  · by_contra hzero
    obtain rfl : k = 0 := by omega
    exact h (List.take_zero)

/-- The row at a place of the page is the row at its place of the order. -/
theorem getElem?_page {p : Nat} {a : α} (h : (pageOf order k n)[p]? = some a) :
    p < k ∧ (order n)[n * k + p]? = some a := by
  rw [pageOf, List.getElem?_take] at h
  split at h
  · exact ⟨by assumption, by rw [List.getElem?_drop] at h; exact h⟩
  · cases h

theorem disjoint_take_page (hnodup : (order n).Nodup) :
    ((order n).take (n * k)).Disjoint (pageOf order k n) := by
  have hsplit : ((order n).take (n * k) ++ pageOf order k n).Nodup := by
    rw [← take_succ_page]
    exact hnodup.sublist (List.take_sublist _ _)
  exact List.disjoint_of_nodup_append hsplit

theorem mem_take_of_before (hnodup : (order n).Nodup) {a b : α} (ha : a ∈ pageOf order k n)
    (h : RanksBefore (order n) b a) : b ∈ (order n).take (n * k) ∨ b ∈ pageOf order k n := by
  obtain ⟨i, j, hlt, hb, ha'⟩ := h
  rw [← List.mem_append, ← take_succ_page]
  obtain ⟨p, hplace⟩ := List.getElem?_of_mem ha
  obtain ⟨hpk, hp⟩ := getElem?_page hplace
  have hj : j = n * k + p := by
    have hjlt : j < (order n).length := (List.getElem?_eq_some_iff.mp ha').1
    exact (List.getElem?_inj hjlt hnodup).mp (ha'.trans hp.symm)
  have htake : ((order n).take ((n + 1) * k))[i]? = some b := by
    rw [List.getElem?_take_of_lt (by rw [Nat.succ_mul]; omega)]
    exact hb
  exact List.mem_of_getElem? htake

/-- A row before the page is ranked before each row of the page. -/
theorem before_of_mem_take {a b : α} (hb : b ∈ (order n).take (n * k))
    (ha : a ∈ pageOf order k n) : RanksBefore (order n) b a := by
  obtain ⟨i, hi⟩ := List.getElem?_of_mem hb
  obtain ⟨p, hplace⟩ := List.getElem?_of_mem ha
  obtain ⟨-, hp⟩ := getElem?_page hplace
  rw [List.getElem?_take] at hi
  split at hi
  · exact ⟨i, n * k + p, by omega, hi, hp⟩
  · cases hi

/-- In a stable walk the rows of the pages before are those that come before the page. -/
theorem StableWalk.walked_perm (hnodup : ∀ n, (order n).Nodup)
    (h : StableWalk (pageOf order k) order)
    (hpage : pageOf order k n ≠ []) : (walked order k n).Perm ((order n).take (n * k)) := by
  obtain ⟨hlength, -⟩ := offset_lt_length hpage
  obtain ⟨a, ha⟩ := List.exists_mem_of_ne_nil _ hpage
  have hsubset : (order n).take (n * k) ⊆ walked order k n := by
    intro b hb
    obtain ⟨m, hle, hm⟩ := h.complete n a ha b (before_of_mem_take hb ha)
    have hne : m ≠ n := by
      rintro rfl
      exact disjoint_take_page (hnodup m) hb hm
    exact mem_walked.mpr ⟨m, by omega, hm⟩
  have htake : ((order n).take (n * k)).Nodup := (hnodup n).sublist (List.take_sublist _ _)
  refine ((htake.subperm hsubset).perm_of_length_le ?_).symm
  rw [List.length_take_of_le (by omega)]
  exact length_walked_le

theorem SameFirst.walked_perm (h : SameFirst order k) (hpage : pageOf order k n ≠ []) :
    (walked order k n).Perm ((order n).take (n * k)) := by
  induction n with
  | zero => simp [walked]
  | succ n ih =>
      obtain ⟨hlength, hk⟩ := offset_lt_length hpage
      have hsame := h n hpage
      have hprior : pageOf order k n ≠ [] := by
        have heq := hsame.length_eq
        rw [List.length_take, List.length_take] at heq
        rw [Nat.succ_mul] at heq hlength
        refine List.ne_nil_of_length_pos ?_
        rw [pageOf, List.length_take, List.length_drop]
        omega
      rw [walked_succ]
      refine ((ih hprior).append_right _).trans ?_
      rw [← take_succ_page]
      exact hsame

theorem stable_iff (hnodup : ∀ n, (order n).Nodup) :
    StableWalk (pageOf order k) order ↔ SameFirst order k := by
  constructor
  · intro h n hpage
    have hwalked := h.walked_perm hnodup hpage
    obtain ⟨hlength, hk⟩ := offset_lt_length hpage
    have hprior : pageOf order k n ≠ [] := by
      have heq := hwalked.length_eq
      have hle : (walked order k n).length ≤ n * k := length_walked_le
      rw [walked_succ, List.length_append, List.length_take_of_le (by omega), Nat.succ_mul] at heq
      exact List.ne_nil_of_length_pos (by omega)
    rw [walked_succ] at hwalked
    rw [take_succ_page]
    exact (((h.walked_perm hnodup hprior).append_right _).symm).trans hwalked
  · intro h
    refine ⟨fun n => ⟨?_, fun m hlt a ha ha' => ?_⟩, fun n a ha b hbefore => ?_⟩
    · exact ((hnodup n).sublist (List.drop_sublist _ _)).sublist (List.take_sublist _ _)
    · have hwalked := h.walked_perm (List.ne_nil_of_mem ha')
      have hin := hwalked.mem_iff.mp (mem_walked.mpr ⟨m, hlt, ha⟩)
      exact disjoint_take_page (hnodup n) hin ha'
    · rcases mem_take_of_before (hnodup n) ha hbefore with hb | hb
      · have hwalked := h.walked_perm (List.ne_nil_of_mem ha)
        obtain ⟨m, hlt, hm⟩ := mem_walked.mp (hwalked.mem_iff.mpr hb)
        exact ⟨m, by omega, hm⟩
      · exact ⟨n, Nat.le_refl n, hb⟩

/-- Where the rows that meet a condition come first, a stretch from the top that they fill has
no others. -/
theorem take_meets {p : α → Bool} {l : List α} {n : Nat}
    (hfirst : l.Pairwise fun a b => p b = true → p a = true)
    (hcount : n ≤ (l.filter p).length) : ∀ a ∈ l.take n, p a = true := by
  induction l generalizing n with
  | nil => simp
  | cons b rest ih =>
      obtain ⟨hhead, htail⟩ := List.pairwise_cons.mp hfirst
      cases n with
      | zero => simp
      | succ n =>
          have hb : p b = true := by
            by_contra hfalse
            rw [List.filter_cons, if_neg hfalse] at hcount
            obtain ⟨c, hc⟩ := List.exists_mem_of_length_pos
              (Nat.lt_of_lt_of_le (Nat.succ_pos n) hcount)
            obtain ⟨hrest, hmeets⟩ := List.mem_filter.mp hc
            exact hfalse (hhead c hrest hmeets)
          rw [List.filter_cons, if_pos hb, List.length_cons] at hcount
          intro a ha
          rw [List.take_succ_cons] at ha
          rcases List.mem_cons.mp ha with rfl | ha
          · exact hb
          · exact ih htail (by omega) a ha

/-! ## Orders by a key -/

variable {κ : Type} [LinearOrder κ] {key : α → κ} {l m : List α} {a : α}

/-- How many rows come before one. -/
def ahead (key : α → κ) (l : List α) (a : α) : Nat := (l.filter fun b => key a < key b).length

theorem ahead_perm (h : l.Perm m) : ahead key l a = ahead key m a := (h.filter _).length_eq

/-- A row's place in the order is the number of rows ahead of it. -/
theorem getElem?_newestFirst (hnodup : l.Nodup)
    (hkey : ∀ b ∈ l, ∀ c ∈ l, key b = key c → b = c) {i : Nat} :
    (newestFirst key l)[i]? = some a ↔ a ∈ l ∧ ahead key l a = i := by
  have hperm : (newestFirst key l).Perm l := List.perm_insertionSort _ l
  have hsorted : (newestFirst key l).Nodup := hperm.nodup_iff.mpr hnodup
  have hplace : ∀ j, (newestFirst key l)[j]? = some a → ahead key l a = j := by
    intro j hj
    obtain ⟨hlt, hget⟩ := List.getElem?_eq_some_iff.mp hj
    have hsplit : newestFirst key l
        = (newestFirst key l).take j ++ a :: (newestFirst key l).drop (j + 1) := by
      rw [← hget, List.getElem_cons_drop, List.take_append_drop]
    have hpairs := newestFirst_pairwise key l
    rw [hsplit, List.pairwise_append, List.pairwise_cons] at hpairs
    rw [hsplit, List.nodup_append'] at hsorted
    rw [← ahead_perm hperm, ahead, hsplit, List.filter_append, List.filter_cons,
      if_neg (by simp), List.length_append]
    have hbefore : ((newestFirst key l).take j).filter (fun b => key a < key b)
        = (newestFirst key l).take j := by
      rw [List.filter_eq_self]
      intro b hb
      have hle : key a ≤ key b := hpairs.2.2 b hb a (List.mem_cons_self ..)
      have hne : key a ≠ key b := by
        intro heq
        have hal : a ∈ l := mem_newestFirst.mp (List.mem_of_getElem? hj)
        have hbl : b ∈ l := mem_newestFirst.mp (List.mem_of_mem_take hb)
        obtain rfl := hkey a hal b hbl heq
        exact hsorted.2.2 hb (List.mem_cons_self ..)
      exact decide_eq_true (lt_of_le_of_ne hle hne)
    have hafter : ((newestFirst key l).drop (j + 1)).filter (fun b => key a < key b) = [] := by
      rw [List.filter_eq_nil_iff]
      intro b hb
      have hle : key b ≤ key a := hpairs.2.1.1 b hb
      simpa using hle
    rw [hbefore, hafter, List.length_take, List.length_nil]
    omega
  constructor
  · intro h
    exact ⟨mem_newestFirst.mp (List.mem_of_getElem? h), hplace i h⟩
  · rintro ⟨ha, rfl⟩
    have hmem : a ∈ newestFirst key l := mem_newestFirst.mpr ha
    obtain ⟨j, hj⟩ := List.getElem?_of_mem hmem
    rw [hplace j hj]
    exact hj

/-- The order does not depend on how the rows are listed. -/
theorem newestFirst_perm (h : l.Perm m) (hnodup : l.Nodup)
    (hkey : ∀ b ∈ l, ∀ c ∈ l, key b = key c → b = c) : newestFirst key l = newestFirst key m := by
  have hkey' : ∀ b ∈ m, ∀ c ∈ m, key b = key c → b = c :=
    fun b hb c hc => hkey b (h.mem_iff.mpr hb) c (h.mem_iff.mpr hc)
  ext i a
  rw [getElem?_newestFirst hnodup hkey, getElem?_newestFirst (h.nodup_iff.mp hnodup) hkey',
    h.mem_iff, ahead_perm h]

theorem mem_take_newestFirst (hnodup : l.Nodup)
    (hkey : ∀ b ∈ l, ∀ c ∈ l, key b = key c → b = c) {i : Nat} :
    a ∈ (newestFirst key l).take i ↔ a ∈ l ∧ ahead key l a < i := by
  rw [List.mem_iff_getElem?]
  constructor
  · rintro ⟨j, hj⟩
    rw [List.getElem?_take] at hj
    split at hj
    · obtain ⟨ha, hplace⟩ := (getElem?_newestFirst hnodup hkey).mp hj
      exact ⟨ha, by omega⟩
    · cases hj
  · intro ⟨ha, hlt⟩
    refine ⟨ahead key l a, ?_⟩
    rw [List.getElem?_take_of_lt hlt]
    exact (getElem?_newestFirst hnodup hkey).mpr ⟨ha, rfl⟩

end Lib
