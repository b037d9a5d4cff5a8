import Mathlib.Logic.Relation

/-!
# Links that form chains

A relation links a thing to what it comes after. Its links form simple chains
that never meet when nothing comes after two things, nothing has two that come
after it, and no chain closes. Linking something nothing comes after, and that
comes after nothing, to the end of a chain keeps this.
-/

namespace Lib

variable {α : Type} {r r' : α → α → Prop} {a b x y : α}

structure Chains (r : α → α → Prop) : Prop where
  before : ∀ {a b b'}, r a b → r a b' → b = b'
  after : ∀ {a a' b}, r a b → r a' b → a = a'
  acyclic : ∀ a, ¬ Relation.TransGen r a a

theorem Chains.mono (h : Chains r) (hle : ∀ {x y}, r' x y → r x y) : Chains r' :=
  ⟨fun hb hb' => h.before (hle hb) (hle hb'), fun ha ha' => h.after (hle ha) (hle ha'),
    fun a ha => h.acyclic a (Relation.TransGen.mono (fun _ _ => hle) a a ha)⟩

/-- The links, and one more from `a` to `b`. -/
def linked (r : α → α → Prop) (a b x y : α) : Prop := r x y ∨ x = a ∧ y = b

/-- The new link is only ever the first of a path, since nothing leads to its start. -/
theorem transGen_linked (hstart : ∀ x, ¬ r x a) (h : Relation.TransGen (linked r a b) x y) :
    Relation.TransGen r x y ∨ x = a := by
  induction h with
  | single hxy =>
      rcases hxy with hxy | ⟨hx, -⟩
      · exact .inl (.single hxy)
      · exact .inr hx
  | tail _ hmid ih =>
      rcases ih with hpath | hx
      · rcases hmid with hmid | ⟨rfl, -⟩
        · exact .inl (hpath.tail hmid)
        · obtain ⟨z, -, hz⟩ := Relation.TransGen.tail'_iff.mp hpath
          exact absurd hz (hstart z)
      · exact .inr hx

theorem Chains.link (h : Chains r) (hne : a ≠ b) (hstart : ∀ x, ¬ r x a) (hlone : ∀ x, ¬ r a x)
    (hend : ∀ x, ¬ r x b) : Chains (linked r a b) := by
  refine ⟨fun {x y y'} hy hy' => ?_, fun {x x' y} hx hx' => ?_, fun x hx => ?_⟩
  · rcases hy with hy | ⟨rfl, rfl⟩
    · rcases hy' with hy' | ⟨rfl, -⟩
      · exact h.before hy hy'
      · exact absurd hy (hlone y)
    · rcases hy' with hy' | ⟨-, rfl⟩
      · exact absurd hy' (hlone y')
      · rfl
  · rcases hx with hx | ⟨rfl, rfl⟩
    · rcases hx' with hx' | ⟨-, rfl⟩
      · exact h.after hx hx'
      · exact absurd hx (hend x)
    · rcases hx' with hx' | ⟨rfl, -⟩
      · exact absurd hx' (hend x')
      · rfl
  · rcases transGen_linked hstart hx with hpath | rfl
    · exact h.acyclic x hpath
    · obtain ⟨z, -, hz⟩ := Relation.TransGen.tail'_iff.mp hx
      rcases hz with hz | ⟨-, hsame⟩
      · exact hstart z hz
      · exact hne hsame

end Lib
