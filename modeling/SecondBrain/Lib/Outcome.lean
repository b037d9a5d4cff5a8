import Mathlib.Tactic.Common

/-!
# What a fallible computation ensures

A transaction that raises is rolled back, so what it did before raising is not
seen by anybody and its specification only speaks about the success path.
`Ensures x P` says that: if `x` returns, its value has `P`.

The rules below follow the shape of the program: a `bind` is proved from its
two parts through a fact about the value that is passed on, a conditional from
its branches, a loop over a list from an invariant of its accumulator. `bind_ok`
is the same rule read backwards, for a hypothesis that the whole succeeded.
`FailsWith x P` is about the other path, for a caller that handles some failures
and not others: if `x` fails, its error has `P`.
-/

namespace Lib

universe u v

variable {ε α β : Type u}

def Ensures (x : Except ε α) (P : α → Prop) : Prop := ∀ a, x = .ok a → P a

namespace Ensures

variable {x : Except ε α} {f : α → Except ε β} {P P' : α → Prop} {Q : β → Prop}

@[simp] theorem ok_iff {a : α} : Ensures (.ok a : Except ε α) P ↔ P a :=
  ⟨fun h => h a rfl, fun h _ e => Except.ok.inj e ▸ h⟩

@[simp] theorem pure_iff {a : α} : Ensures (pure a : Except ε α) P ↔ P a := ok_iff

@[simp] theorem error (e : ε) : Ensures (.error e : Except ε α) P :=
  fun _ h => nomatch h

@[simp] theorem throw (e : ε) : Ensures (throw e : Except ε α) P := error e

theorem bind (hx : Ensures x P) (hf : ∀ a, P a → Ensures (f a) Q) :
    Ensures (x >>= f) Q := by
  cases x with
  | error e => exact fun _ h => nomatch h
  | ok a => exact hf a (hx a rfl)

/-- The first part may be any computation: the rest is what has to be shown. -/
theorem bind_any (hf : ∀ a, x = .ok a → Ensures (f a) Q) : Ensures (x >>= f) Q :=
  bind (P := fun a => x = .ok a) (fun _ h => h) hf

/-- A last part that only adds to the value of the first. -/
theorem answer {g : α → β} (hx : Ensures x P) :
    Ensures (do let a ← x; return (g a, a)) fun p => P p.2 := by
  cases x with
  | error e => exact fun _ h => nomatch h
  | ok a => exact fun _ h => Except.ok.inj h ▸ hx a rfl

theorem mono (hx : Ensures x P) (h : ∀ a, P a → P' a) : Ensures x P' :=
  fun a e => h a (hx a e)

theorem and (hx : Ensures x P) (hx' : Ensures x P') :
    Ensures x fun a => P a ∧ P' a :=
  fun a e => ⟨hx a e, hx' a e⟩

theorem trivial : Ensures x fun _ => True := fun _ _ => True.intro

theorem ite {c : Prop} [Decidable c] {y : Except ε α} (ht : c → Ensures x P)
    (hf : ¬ c → Ensures y P) : Ensures (if c then x else y) P := by
  split
  · next h => exact ht h
  · next h => exact hf h

/-- A loop keeps what one round keeps, at the elements of the list. -/
theorem foldlM_mem {step : β → α → Except ε β} {I : β → Prop} {as : List α} {b : β}
    (hstep : ∀ b, ∀ a ∈ as, I b → Ensures (step b a) I) (hb : I b) :
    Ensures (as.foldlM step b) I := by
  induction as generalizing b with
  | nil => exact pure_iff.mpr hb
  | cons a rest ih =>
      rw [List.foldlM_cons]
      refine bind (hstep b a List.mem_cons_self hb) fun b' hb' => ?_
      exact ih (fun b a ha => hstep b a (List.mem_cons_of_mem _ ha)) hb'

/-- A loop keeps what one round keeps. -/
theorem foldlM {step : β → α → Except ε β} {I : β → Prop}
    (hstep : ∀ b a, I b → Ensures (step b a) I) {as : List α} {b : β} (hb : I b) :
    Ensures (as.foldlM step b) I :=
  foldlM_mem (fun b a _ => hstep b a) hb

end Ensures

/-- What the failures of a computation have in common. -/
def FailsWith (x : Except ε α) (P : ε → Prop) : Prop := ∀ e, x = .error e → P e

namespace FailsWith

variable {x : Except ε α} {f : α → Except ε β} {P P' : ε → Prop}

@[simp] theorem ok (a : α) : FailsWith (.ok a : Except ε α) P := fun _ h => nomatch h

@[simp] theorem pure (a : α) : FailsWith (pure a : Except ε α) P := ok a

@[simp] theorem error_iff {e : ε} : FailsWith (.error e : Except ε α) P ↔ P e :=
  ⟨fun h => h e rfl, fun h _ heq => Except.error.inj heq ▸ h⟩

/-- The rest only runs after the first part has gone through. -/
theorem bind (hx : FailsWith x P) (hf : ∀ a, x = .ok a → FailsWith (f a) P) :
    FailsWith (x >>= f) P := by
  cases x with
  | error e => exact fun _ h => Except.error.inj h ▸ hx e rfl
  | ok a => exact hf a rfl

theorem ite {c : Prop} [Decidable c] {y : Except ε α} (ht : c → FailsWith x P)
    (hf : ¬ c → FailsWith y P) : FailsWith (if c then x else y) P := by
  split
  · next h => exact ht h
  · next h => exact hf h

theorem mono (hx : FailsWith x P) (h : ∀ e, P e → P' e) : FailsWith x P' :=
  fun e he => h e (hx e he)

end FailsWith

theorem bind_ok {x : Except ε α} {f : α → Except ε β} {b : β}
    (h : (x >>= f) = .ok b) : ∃ a, x = .ok a ∧ f a = .ok b := by
  cases x with
  | error e => cases h
  | ok a => exact ⟨a, rfl, h⟩

theorem bind_some {x : Option α} {f : α → Option β} {b : β}
    (h : (x >>= f) = some b) : ∃ a, x = some a ∧ f a = some b :=
  Option.bind_eq_some_iff.mp h

end Lib
