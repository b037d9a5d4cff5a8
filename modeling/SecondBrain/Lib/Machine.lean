import Mathlib.Logic.Relation

/-!
# Runs of a labelled machine

A concurrent program is modelled by a machine: a set of start states and a
partial step function. The label names the step and carries every choice the
step leaves open (which process moves, which fresh identifier it draws, where
it fails), so a run is the list of its labels and can be replayed by
evaluation.

`Reach ok` is the set of states met by the runs whose every step satisfies
`ok`, a condition read off the state before the step. With `ok` trivially true
it is plain reachability; with a real condition it is what a claim of the form
"as long as no step does X" is about. An invariant needs proving once per step
and holds of every run by `Reach.invariant`.
-/

namespace Lib

universe u v

structure Machine (σ : Type u) (ι : Type v) where
  start : σ → Prop
  next : σ → ι → Option σ

namespace Machine

variable {σ : Type u} {ι : Type v} {M : Machine σ ι} {ok ok' : σ → ι → Prop}

inductive Reach (M : Machine σ ι) (ok : σ → ι → Prop) : σ → Prop where
  | start {s : σ} : M.start s → Reach M ok s
  | step {s s' : σ} {l : ι} :
      Reach M ok s → ok s l → M.next s l = some s' → Reach M ok s'

/-- Every state of every run. -/
abbrev Reachable (M : Machine σ ι) : σ → Prop := M.Reach fun _ _ => True

/-- What the start states have and every admitted step keeps holds of every
state met. The step may use that the state before it was itself met. -/
theorem Reach.invariant {I : σ → Prop} (hstart : ∀ s, M.start s → I s)
    (hstep : ∀ s l s', M.Reach ok s → ok s l → I s → M.next s l = some s' → I s')
    {s : σ} (h : M.Reach ok s) : I s := by
  induction h with
  | start h0 => exact hstart _ h0
  | step hr hok hn ih => exact hstep _ _ _ hr hok ih hn

theorem Reach.mono (hle : ∀ s l, ok s l → ok' s l) {s : σ} (h : M.Reach ok s) :
    M.Reach ok' s := by
  induction h with
  | start h0 => exact .start h0
  | step _ hok hn ih => exact .step ih (hle _ _ hok) hn

theorem Reach.reachable {s : σ} (h : M.Reach ok s) : M.Reachable s :=
  h.mono fun _ _ _ => trivial

/-- The machine whose runs are what can still happen in `s`. -/
def startingAt (M : Machine σ ι) (s : σ) : Machine σ ι := { M with start := (· = s) }

/-- A run, and what happens after it. -/
theorem Reach.append {s t : σ} (h : M.Reach ok s) (h' : (M.startingAt s).Reach ok t) :
    M.Reach ok t := by
  induction h' with
  | start h0 =>
      have h0 : _ = s := h0
      exact h0 ▸ h
  | step _ hok hn ih => exact .step ih hok hn

theorem Reach.trans {s t u : σ} (h : (M.startingAt s).Reach ok t)
    (h' : (M.startingAt t).Reach ok u) : (M.startingAt s).Reach ok u :=
  h.append (M := M.startingAt s) h'

theorem Reach.single {s s' : σ} {l : ι} (hok : ok s l) (h : M.next s l = some s') :
    (M.startingAt s).Reach ok s' :=
  .step (.start rfl) hok h

/-- A relation that every step from a state of `I` is in, and that is reflexive
and transitive, holds from `s` to whatever comes later. -/
theorem later {R : σ → σ → Prop} {I : σ → Prop} (hrefl : ∀ s, R s s)
    (htrans : ∀ {a b c}, R a b → R b c → R a c)
    (hstep : ∀ s l s', I s → M.next s l = some s' → R s s' ∧ I s') {s s' : σ} (hs : I s)
    (h : (M.startingAt s).Reachable s') : R s s' := by
  refine (h.invariant (I := fun t => R s t ∧ I t) ?_ ?_).1
  · rintro t rfl
    exact ⟨hrefl t, hs⟩
  · intro t l t' _ _ ht hnext
    obtain ⟨hr, hi⟩ := hstep t l t' ht.2 hnext
    exact ⟨htrans ht.1 hr, hi⟩

/-- Replays a list of labels, refusing a step that `ok` does not admit. -/
def execWith (M : Machine σ ι) (ok : σ → ι → Bool) : σ → List ι → Option σ
  | s, [] => some s
  | s, l :: rest =>
      if ok s l then (M.next s l).bind fun s' => execWith M ok s' rest else none

/-- Replays a list of labels. -/
def exec (M : Machine σ ι) : σ → List ι → Option σ := M.execWith fun _ _ => true

theorem Reach.execWith {okb : σ → ι → Bool} :
    ∀ {ls : List ι} {s s' : σ}, M.Reach (fun s l => okb s l = true) s →
      M.execWith okb s ls = some s' → M.Reach (fun s l => okb s l = true) s' := by
  intro ls
  induction ls with
  | nil =>
      intro s s' hs h
      rw [Machine.execWith, Option.some.injEq] at h
      exact h ▸ hs
  | cons l rest ih =>
      intro s s' hs h
      rw [Machine.execWith] at h
      split at h
      · next hok =>
          obtain ⟨mid, hmid, h⟩ := Option.bind_eq_some_iff.mp h
          exact ih (.step hs hok hmid) h
      · cases h

theorem Reach.exec {ls : List ι} {s s' : σ} (hs : M.Reachable s)
    (h : M.exec s ls = some s') : M.Reachable s' := by
  have hrun : M.execWith (fun _ _ => true) s ls = some s' := h
  exact ((hs.mono fun _ _ _ => rfl).execWith hrun).reachable

/-- A replayed run that ends where `p` holds. -/
theorem exists_reach_of_execWith (M : Machine σ ι) (okb : σ → ι → Bool) (ls : List ι)
    (p : σ → Bool) {s : σ} (hs : M.start s)
    (h : (M.execWith okb s ls).any p = true) :
    ∃ s', M.Reach (fun s l => okb s l = true) s' ∧ p s' = true := by
  cases hx : M.execWith okb s ls with
  | none => rw [hx] at h; cases h
  | some s' =>
      rw [hx, Option.any_some] at h
      exact ⟨s', Reach.execWith (.start hs) hx, h⟩

theorem exists_reachable_of_exec (M : Machine σ ι) (ls : List ι) (p : σ → Bool) {s : σ}
    (hs : M.start s) (h : (M.exec s ls).any p = true) :
    ∃ s', M.Reachable s' ∧ p s' = true := by
  obtain ⟨s', hr, hp⟩ := exists_reach_of_execWith M (fun _ _ => true) ls p hs h
  exact ⟨s', hr.reachable, hp⟩

end Machine

end Lib
