import Mathlib.Data.List.Sort
import Mathlib.Data.Prod.Lex

/-!
# The latest element

A query that sorts its rows by a key, newest first, and stops at the first that
meets a condition finds the latest of those that meet it. Where the key tells
the rows apart this is a property of the set of rows (`latest_eq_some_iff`), so
neither the order in which a database yields them nor rows that do not meet the
condition make a difference (`latest_congr`).
-/

namespace Lib

variable {α κ : Type} [LinearOrder κ] {key : α → κ} {p q : α → Bool} {l m : List α} {a : α}

def newestFirst (key : α → κ) (l : List α) : List α :=
  l.insertionSort fun a b => key b ≤ key a

@[simp] theorem mem_newestFirst : a ∈ newestFirst key l ↔ a ∈ l := List.mem_insertionSort _

theorem newestFirst_pairwise (key : α → κ) (l : List α) :
    (newestFirst key l).Pairwise fun a b => key b ≤ key a := by
  have htotal : Std.Total fun a b : α => key b ≤ key a := ⟨fun a b => le_total (key b) (key a)⟩
  have htrans : IsTrans α fun a b => key b ≤ key a := ⟨fun a b c hab hbc => hbc.trans hab⟩
  exact List.pairwise_insertionSort _ l

def latest (key : α → κ) (p : α → Bool) (l : List α) : Option α := (newestFirst key l).find? p

theorem latest_spec (h : latest key p l = some a) :
    a ∈ l ∧ p a = true ∧ ∀ b ∈ l, p b = true → key b ≤ key a := by
  refine ⟨mem_newestFirst.mp (List.mem_of_find?_eq_some h), List.find?_some h, fun b hb hpb => ?_⟩
  obtain ⟨-, before, after, hsplit, hnone⟩ := List.find?_eq_some_iff_append.mp h
  have hsorted := newestFirst_pairwise key l
  have hmem : b ∈ before ++ a :: after := hsplit ▸ mem_newestFirst.mpr hb
  rw [hsplit, List.pairwise_append] at hsorted
  rcases List.mem_append.mp hmem with hb | hb
  · have hskipped := hnone b hb
    rw [hpb] at hskipped
    cases hskipped
  · rcases List.mem_cons.mp hb with rfl | hb
    · exact le_rfl
    · exact (List.pairwise_cons.mp hsorted.2.1).1 b hb

theorem latest_isSome (ha : a ∈ l) (hpa : p a = true) : (latest key p l).isSome = true := by
  rw [latest, List.find?_isSome]
  exact ⟨a, mem_newestFirst.mpr ha, hpa⟩

theorem latest_eq_some_iff (hkey : ∀ b ∈ l, ∀ c ∈ l, key b = key c → b = c) :
    latest key p l = some a ↔ a ∈ l ∧ p a = true ∧ ∀ b ∈ l, p b = true → key b ≤ key a := by
  refine ⟨latest_spec, fun ⟨ha, hpa, hmax⟩ => ?_⟩
  have hsome : (latest key p l).isSome = true := latest_isSome ha hpa
  obtain ⟨b, hb⟩ := Option.isSome_iff_exists.mp hsome
  obtain ⟨hbl, hpb, hbmax⟩ := latest_spec hb
  rw [hb, hkey b hbl a ha (le_antisymm (hmax b hbl hpb) (hbmax a ha hpa))]

theorem latest_eq_none_iff : latest key p l = none ↔ ∀ a ∈ l, p a = false := by
  rw [latest, List.find?_eq_none]
  simp only [mem_newestFirst, Bool.not_eq_true]

/-- Where the elements are numbered from one on, the next number is the one after
the latest. -/
theorem latest_numbered {number : α → Nat} {n : Nat}
    (h : (l.filter p).map number = List.range' 1 n) :
    (latest number p l).elim 1 (number · + 1) = n + 1 := by
  have hmem : ∀ {k : Nat}, (∃ a ∈ l, p a = true ∧ number a = k) ↔ 1 ≤ k ∧ k < 1 + n := by
    intro k
    rw [← List.mem_range'_1, ← h]
    simp only [List.mem_map, List.mem_filter, and_assoc]
  cases hlatest : latest number p l with
  | none =>
      rw [latest_eq_none_iff] at hlatest
      by_contra hne
      have hpos : 1 ≤ n := by
        simp only [Option.elim_none] at hne
        omega
      obtain ⟨a, ha, hpa, -⟩ := hmem.mpr ⟨hpos, by omega⟩
      rw [hlatest a ha] at hpa
      cases hpa
  | some a =>
      obtain ⟨ha, hpa, hmax⟩ := latest_spec hlatest
      have hbound := hmem.mp ⟨a, ha, hpa, rfl⟩
      obtain ⟨b, hb, hpb, hlast⟩ := hmem.mpr (show 1 ≤ n ∧ n < 1 + n by omega)
      have hle := hmax b hb hpb
      simp only [Option.elim_some]
      omega

/-- The latest of what is read off the elements. -/
theorem latest_map {β : Type} (f : β → α) (l : List β) :
    latest key p (l.map f) = (latest (fun b => key (f b)) (fun b => p (f b)) l).map f := by
  have hsorted : newestFirst key (l.map f) = (newestFirst (fun b => key (f b)) l).map f := by
    rw [newestFirst, newestFirst,
      List.map_insertionSort (fun a b : β => key (f b) ≤ key (f a)) (fun a b : α => key b ≤ key a)
        f l fun a _ b _ => Iff.rfl]
  rw [latest, hsorted, List.find?_map]
  rfl

/-- What counts is who meets the condition. -/
theorem latest_congr (hkey : ∀ b ∈ l, ∀ c ∈ l, key b = key c → b = c)
    (hsame : ∀ a, a ∈ m ∧ q a = true ↔ a ∈ l ∧ p a = true) :
    latest key q m = latest key p l := by
  cases hm : latest key q m with
  | none =>
      symm
      rw [latest_eq_none_iff] at hm ⊢
      intro a ha
      by_contra hpa
      obtain ⟨ham, hqa⟩ := (hsame a).mpr ⟨ha, by simpa using hpa⟩
      rw [hm a ham] at hqa
      cases hqa
  | some a =>
      symm
      obtain ⟨ha, hqa, hmax⟩ := latest_spec hm
      obtain ⟨hal, hpa⟩ := (hsame a).mp ⟨ha, hqa⟩
      refine (latest_eq_some_iff hkey).mpr ⟨hal, hpa, fun b hb hpb => ?_⟩
      obtain ⟨hbm, hqb⟩ := (hsame b).mpr ⟨hb, hpb⟩
      exact hmax b hbm hqb

end Lib
