import Mathlib.Tactic.Common

/-!
# Row locks

A transaction that has locked a row is the only one to change it until it ends,
and another one that wants the row waits. A table of locks says who holds a key.
Taking keys is refused while somebody else holds one of them, so a key never has
two holders, and what others hold is not touched by taking or giving back.
-/

namespace Lib

variable {κ : Type} [DecidableEq κ]

/-- Who holds a key. -/
abbrev Locks (κ : Type) := κ → Option Nat

namespace Locks

variable {l l' : Locks κ} {i j : Nat} {k : κ} {ks : List κ}

def free : Locks κ := fun _ => none

/-- Nobody but `i` holds the key. -/
def grants (l : Locks κ) (i : Nat) (k : κ) : Bool := l k == none || l k == some i

def acquire (l : Locks κ) (i : Nat) (ks : List κ) : Option (Locks κ) :=
  if ks.all (l.grants i) then some fun k => if k ∈ ks then some i else l k else none

def release (l : Locks κ) (i : Nat) : Locks κ := fun k => if l k = some i then none else l k

theorem acquire_holds (h : l.acquire i ks = some l') (hk : k ∈ ks) : l' k = some i := by
  unfold acquire at h
  split at h
  · obtain rfl := Option.some.inj h
    exact if_pos hk
  · cases h

theorem acquire_keeps (h : l.acquire i ks = some l') (hk : l k = some j) : l' k = some j := by
  unfold acquire at h
  split at h
  · next hall =>
      obtain rfl := Option.some.inj h
      by_cases hmem : k ∈ ks
      · have hgrants := List.all_eq_true.mp hall k hmem
        unfold grants at hgrants
        rw [hk] at hgrants
        have hsame : j = i := by simpa using hgrants
        show (if k ∈ ks then some i else l k) = some j
        rw [if_pos hmem, hsame]
      · exact (if_neg hmem).trans hk
  · cases h

omit [DecidableEq κ] in
theorem release_keeps (hne : j ≠ i) (hk : l k = some j) : l.release i k = some j := by
  unfold release
  rw [hk, if_neg fun h => hne (Option.some.inj h)]

omit [DecidableEq κ] in
/-- Nobody but the holder is granted a key. -/
theorem holder_of_grants (h : l.grants i k = true) (hk : l k = some j) : j = i := by
  unfold grants at h
  rw [hk] at h
  simpa using h

end Locks

end Lib
