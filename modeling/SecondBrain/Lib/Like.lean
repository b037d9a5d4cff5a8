import Mathlib.Data.List.Infix
import Mathlib.Data.List.Induction

/-!
# SQL patterns

In a pattern `%` stands for any text, `_` for one character, and `\` takes the
character after it literally; a pattern that ends in its escape means nothing.
Case does not matter to `ilike`: it folds text and pattern, character by
character, before it compares them.

A text between two `%` is looked for literally exactly where none of its
characters means anything (`ilike_between_iff`, `exists_ilike_between`).
-/

namespace Lib

namespace Like

inductive Token where
  | literal (c : Char)
  | one
  | many
deriving DecidableEq

/-- The characters that mean something in a pattern. -/
def isSpecial (c : Char) : Bool := c == '%' || c == '_' || c == '\\'

def token (c : Char) : Token :=
  if c = '%' then .many else if c = '_' then .one else .literal c

def parse : List Char → Option (List Token)
  | [] => some []
  | ['\\'] => none
  | '\\' :: c :: rest => (parse rest).map (.literal c :: ·)
  | c :: rest => (parse rest).map (token c :: ·)

/-- The pattern stands for the whole of the text. -/
def covers : List Token → List Char → Bool
  | [], text => text.isEmpty
  | .literal c :: p, d :: text => c == d && covers p text
  | .literal _ :: _, [] => false
  | .one :: p, _ :: text => covers p text
  | .one :: _, [] => false
  | .many :: p, text => text.tails.any (covers p)

def like (text pattern : List Char) : Option Bool := (parse pattern).map (covers · text)

theorem token_of_plain {c : Char} (h : isSpecial c = false) : token c = .literal c := by
  simp only [isSpecial, Bool.or_eq_false_iff, beq_eq_false_iff_ne] at h
  rw [token, if_neg h.1.1, if_neg h.1.2]

theorem parse_cons {c : Char} (rest : List Char) (h : c ≠ '\\') :
    parse (c :: rest) = (parse rest).map (token c :: ·) := by
  rw [parse]
  · exact fun hc _ => h hc
  · exact fun _ _ hc _ => h hc

theorem covers_many {p : List Token} {text : List Char} :
    covers (.many :: p) text = true ↔ ∃ s, s <:+ text ∧ covers p s = true := by
  simp only [covers, List.any_eq_true, List.mem_tails]

/-! ## Texts that mean themselves -/

theorem parse_plain_append {s : List Char} (h : ∀ c ∈ s, isSpecial c = false)
    (rest : List Char) :
    parse (s ++ rest) = (parse rest).map (s.map .literal ++ ·) := by
  induction s with
  | nil => simp
  | cons c s ih =>
      have hc := h c List.mem_cons_self
      have hescape : c ≠ '\\' := by
        rintro rfl
        cases hc
      rw [List.cons_append, parse_cons _ hescape, ih fun d hd => h d (List.mem_cons_of_mem c hd),
        token_of_plain hc, Option.map_map]
      rfl

theorem covers_literals_many {s text : List Char} :
    covers (s.map .literal ++ [.many]) text = true ↔ s <+: text := by
  induction s generalizing text with
  | nil =>
      rw [List.map_nil, List.nil_append, covers_many]
      exact iff_of_true ⟨[], List.nil_suffix, rfl⟩ List.nil_prefix
  | cons c s ih =>
      cases text with
      | nil => simp [covers]
      | cons d text =>
          rw [List.map_cons, List.cons_append, covers, Bool.and_eq_true, beq_iff_eq, ih,
            List.cons_prefix_cons]

/-- Between two `%` a plain text is looked for as it is. -/
theorem like_between_iff {s text : List Char} (h : ∀ c ∈ s, isSpecial c = false) :
    like text ('%' :: s ++ ['%']) = some true ↔ s <:+: text := by
  have hparse : parse ('%' :: s ++ ['%']) = some (.many :: (s.map .literal ++ [.many])) := by
    rw [List.cons_append, parse_cons _ (by decide), parse_plain_append h,
      parse_cons _ (by decide)]
    rfl
  rw [like, hparse, Option.map_some, Option.some.injEq, covers_many]
  simp only [covers_literals_many, List.infix_iff_prefix_suffix, and_comm]

/-! ## The shortest text of a pattern -/

/-- What a pattern stands for when `%` is nothing and `_` is `x`. -/
def least (x : Char) : List Token → List Char
  | [] => []
  | .literal c :: p => c :: least x p
  | .one :: p => x :: least x p
  | .many :: p => least x p

theorem covers_least (x : Char) (p : List Token) : covers p (least x p) = true := by
  induction p with
  | nil => rfl
  | cons k p ih =>
      cases k with
      | literal c => simpa [covers, least] using ih
      | one => exact ih
      | many => exact covers_many.mpr ⟨_, List.suffix_rfl, ih⟩

/-- A pattern that may stand for nothing may stand for anything, or is empty. -/
theorem covers_of_least_eq_nil {x : Char} {p : List Token} (h : least x p = []) (hp : p ≠ [])
    (text : List Char) : covers p text = true := by
  induction p with
  | nil => exact absurd rfl hp
  | cons k p ih =>
      cases k with
      | literal c => cases h
      | one => cases h
      | many =>
          cases p with
          | nil => exact covers_many.mpr ⟨[], List.nil_suffix, rfl⟩
          | cons k p => exact covers_many.mpr ⟨text, List.suffix_rfl, ih h nofun⟩

/-- The pattern that ends in `%` after a text is read, and its shortest text is not longer
than that text. It is that text only if nothing in it means anything. -/
theorem least_parse (x : Char) (hx : x ≠ '_') (s : List Char) :
    ∃ p, parse (s ++ ['%']) = some p ∧ p ≠ [] ∧ (least x p).length ≤ s.length ∧
      (least x p = s → ∀ c ∈ s, isSpecial c = false) := by
  fun_induction parse s with
  | case1 => exact ⟨[.many], rfl, nofun, Nat.le_refl _, fun _ => nofun⟩
  | case2 =>
      refine ⟨[.literal '%'], rfl, nofun, Nat.le_refl _, fun h => ?_⟩
      cases h
  | case3 c rest ih =>
      obtain ⟨p, hp, -, hlength, -⟩ := ih
      refine ⟨.literal c :: p, ?_, nofun, ?_, fun h => ?_⟩
      · show parse ('\\' :: c :: (rest ++ ['%'])) = _
        rw [parse, hp, Option.map_some]
      · simp only [least, List.length_cons]
        omega
      · have := congrArg List.length h
        simp only [least, List.length_cons] at this
        omega
  | case4 c rest hlast hescape ih =>
      obtain ⟨p, hp, -, hlength, hsame⟩ := ih
      have hc : c ≠ '\\' := by
        rintro rfl
        cases rest with
        | nil => exact hlast rfl rfl
        | cons d rest => exact hescape d rest rfl rfl
      refine ⟨token c :: p, ?_, nofun, ?_⟩
      · rw [List.cons_append, parse_cons _ hc, hp, Option.map_some]
      by_cases hmany : c = '%'
      · subst hmany
        refine ⟨Nat.le_succ_of_le hlength, fun h => ?_⟩
        have := congrArg List.length h
        simp only [token, least, if_pos, List.length_cons] at this
        omega
      by_cases hone : c = '_'
      · subst hone
        refine ⟨Nat.succ_le_succ hlength, fun h => ?_⟩
        exact absurd (List.cons.inj h).1 hx
      · rw [token, if_neg hmany, if_neg hone]
        refine ⟨Nat.succ_le_succ hlength, fun h d hd => ?_⟩
        rcases List.mem_cons.mp hd with rfl | hd
        · simp [isSpecial, hmany, hone, hc]
        · exact hsame (List.cons.inj h).2 d hd

theorem mem_least {x c : Char} {p : List Token} (h : c ∈ least x p) :
    c = x ∨ .literal c ∈ p := by
  induction p with
  | nil => cases h
  | cons k p ih =>
      cases k with
      | literal d =>
          rcases List.mem_cons.mp h with rfl | h
          · exact .inr List.mem_cons_self
          · exact (ih h).imp id (List.mem_cons_of_mem _)
      | one =>
          rcases List.mem_cons.mp h with rfl | h
          · exact .inl rfl
          · exact (ih h).imp id (List.mem_cons_of_mem _)
      | many => exact (ih h).imp id (List.mem_cons_of_mem _)

theorem mem_of_literal {s : List Char} {p : List Token} {c : Char} (hp : parse s = some p)
    (h : .literal c ∈ p) : c ∈ s := by
  fun_induction parse s generalizing p with
  | case1 =>
      cases hp
      cases h
  | case2 => cases hp
  | case3 d rest ih =>
      obtain ⟨p', hp', rfl⟩ := Option.map_eq_some_iff.mp hp
      rcases List.mem_cons.mp h with hd | h
      · cases hd
        exact List.mem_cons_of_mem _ List.mem_cons_self
      · exact List.mem_cons_of_mem _ (List.mem_cons_of_mem _ (ih hp' h))
  | case4 d rest _ _ ih =>
      obtain ⟨p', hp', rfl⟩ := Option.map_eq_some_iff.mp hp
      rcases List.mem_cons.mp h with hd | h
      · unfold token at hd
        split at hd
        · cases hd
        · split at hd
          · cases hd
          · cases hd
            exact List.mem_cons_self
      · exact List.mem_cons_of_mem _ (ih hp' h)

theorem mem_of_covers {c : Char} {p : List Token} {text : List Char}
    (h : covers p text = true) (hc : .literal c ∈ p) : c ∈ text := by
  induction p generalizing text with
  | nil => cases hc
  | cons k p ih =>
      cases k with
      | many =>
          obtain ⟨s, hs, hcovers⟩ := covers_many.mp h
          exact hs.subset (ih hcovers ((List.mem_cons.mp hc).resolve_left nofun))
      | one =>
          cases text with
          | nil => cases h
          | cons d text =>
              exact List.mem_cons_of_mem d (ih h ((List.mem_cons.mp hc).resolve_left nofun))
      | literal d =>
          cases text with
          | nil => cases h
          | cons d' text =>
              obtain ⟨hd, hcovers⟩ := Bool.and_eq_true_iff.mp h
              rw [beq_iff_eq] at hd
              rcases List.mem_cons.mp hc with hsame | hc
              · cases hsame
                exact hd ▸ List.mem_cons_self
              · exact List.mem_cons_of_mem d' (ih hcovers hc)

theorem literal_mem_of_mem {s : List Char} {p : List Token} {c : Char} (hp : parse s = some p)
    (hc : c ∈ s) (hplain : isSpecial c = false) : .literal c ∈ p := by
  fun_induction parse s generalizing p with
  | case1 => cases hc
  | case2 => cases hp
  | case3 d rest ih =>
      obtain ⟨p', hp', rfl⟩ := Option.map_eq_some_iff.mp hp
      rcases List.mem_cons.mp hc with rfl | hc
      · cases hplain
      · rcases List.mem_cons.mp hc with rfl | hc
        · exact List.mem_cons_self
        · exact List.mem_cons_of_mem _ (ih hp' hc)
  | case4 d rest _ _ ih =>
      obtain ⟨p', hp', rfl⟩ := Option.map_eq_some_iff.mp hp
      rcases List.mem_cons.mp hc with rfl | hc
      · rw [token_of_plain hplain]
        exact List.mem_cons_self
      · exact List.mem_cons_of_mem _ (ih hp' hc)

/-! ## Without regard to case -/

/-- A folding of characters that leaves those with a meaning alone and makes no other
character one of them, nor the character that no text holds. -/
structure Folding where
  lower : Char → Char
  special : ∀ m c, isSpecial m = true → (lower c = m ↔ c = m)
  nul : ∀ c, lower c = '\x00' ↔ c = '\x00'

/-- Below the small letters, `Char.toLower` only moves the great ones. -/
theorem toLower_eq_iff {c m : Char} (hm : m.toNat < 65 ∨ 90 < m.toNat) (hm' : m.toNat < 97) :
    c.toLower = m ↔ c = m := by
  unfold Char.toLower
  split
  · next h =>
      have hlow : 65 ≤ c.toNat := h.1
      have hhigh : c.toNat ≤ 90 := h.2
      have hval : (c.val + ('a'.val - 'A'.val)).toNat = c.toNat + 32 := by
        rw [UInt32.toNat_add]
        exact Nat.mod_eq_of_lt (show c.toNat + 32 < 2 ^ 32 by omega)
      constructor
      · intro hsame
        have : m.toNat = c.toNat + 32 := hsame ▸ hval
        omega
      · rintro rfl
        omega
  · rfl

/-- The folding of the letters of ASCII. -/
def Folding.ascii : Folding where
  lower := Char.toLower
  special m c h := by
    simp only [isSpecial, Bool.or_eq_true, beq_iff_eq] at h
    rcases h with (rfl | rfl) | rfl <;> exact toLower_eq_iff (by decide) (by decide)
  nul c := toLower_eq_iff (by decide) (by decide)

namespace Folding

variable (f : Folding)

def fold (s : List Char) : List Char := s.map f.lower

def foldToken : Token → Token
  | .literal c => .literal (f.lower c)
  | .one => .one
  | .many => .many

/-- `text ILIKE pattern`. -/
def ilike (text pattern : String) : Bool :=
  like (f.fold text.toList) (f.fold pattern.toList) == some true

/-- The text has the other in it, whatever the case. -/
def Contains (text part : String) : Prop := f.fold part.toList <:+: f.fold text.toList

variable {f}

theorem lower_eq_iff {m c : Char} (h : isSpecial m = true) : f.lower c = m ↔ c = m :=
  f.special m c h

theorem lower_special {c : Char} (h : isSpecial c = true) : f.lower c = c :=
  (f.special c c h).mpr rfl

theorem isSpecial_lower (c : Char) : isSpecial (f.lower c) = isSpecial c := by
  cases h : isSpecial (f.lower c) with
  | true =>
      have hc := (lower_eq_iff h).mp rfl
      rw [hc, h]
  | false =>
      cases hc : isSpecial c with
      | true =>
          rw [lower_special hc, hc] at h
          cases h
      | false => rfl

theorem token_lower (c : Char) : token (f.lower c) = f.foldToken (token c) := by
  have hmany : f.lower c = '%' ↔ c = '%' := lower_eq_iff rfl
  have hone : f.lower c = '_' ↔ c = '_' := lower_eq_iff rfl
  simp only [token, hmany, hone]
  split
  · rfl
  · split <;> rfl

theorem parse_fold (s : List Char) : parse (f.fold s) = (parse s).map (List.map f.foldToken) := by
  fun_induction parse s with
  | case1 => rfl
  | case2 =>
      show parse [f.lower '\\'] = _
      rw [lower_special rfl]
      rfl
  | case3 c rest ih =>
      show parse (f.lower '\\' :: f.lower c :: f.fold rest) = _
      rw [lower_special rfl, parse, ih, Option.map_map, Option.map_map]
      rfl
  | case4 c rest hlast hescape ih =>
      have hc : c ≠ '\\' := by
        rintro rfl
        cases rest with
        | nil => exact hlast rfl rfl
        | cons d rest => exact hescape d rest rfl rfl
      have hlower : f.lower c ≠ '\\' := fun h => hc ((lower_eq_iff rfl).mp h)
      show parse (f.lower c :: f.fold rest) = _
      rw [parse_cons _ hlower, ih, Option.map_map, Option.map_map, token_lower]
      rfl

theorem fold_between (s : List Char) :
    f.fold ('%' :: s ++ ['%']) = '%' :: f.fold s ++ ['%'] := by
  have h : f.lower '%' = '%' := lower_special rfl
  simp [fold, h]

/-- A text without special characters is looked for as it is. -/
theorem ilike_between_iff {text part : String} (h : ∀ c ∈ part.toList, isSpecial c = false) :
    f.ilike text ("%" ++ part ++ "%") = true ↔ f.Contains text part := by
  have hpattern : ("%" ++ part ++ "%").toList = '%' :: part.toList ++ ['%'] := by simp
  have hfold : ∀ c ∈ f.fold part.toList, isSpecial c = false := by
    intro c hc
    obtain ⟨d, hd, rfl⟩ := List.mem_map.mp hc
    rw [isSpecial_lower]
    exact h d hd
  rw [ilike, hpattern, fold_between, beq_iff_eq, like_between_iff hfold]
  rfl

theorem fold_least (x : Char) (p : List Token) :
    f.fold (least x p) = least (f.lower x) (p.map f.foldToken) := by
  induction p with
  | nil => rfl
  | cons k p ih =>
      cases k with
      | literal c => exact congrArg (f.lower c :: ·) ih
      | one => exact congrArg (f.lower x :: ·) ih
      | many => exact ih

/-- What is folded keeps its length. -/
theorem fold_eq_of_infix {s t : List Char} (hlength : t.length ≤ s.length)
    (h : f.fold s <:+: f.fold t) : f.fold t = f.fold s := by
  refine (h.eq_of_length_le ?_).symm
  rwa [fold, fold, List.length_map, List.length_map]

theorem ilike_of_covers {text part : String} {p : List Token}
    (hp : parse (part.toList ++ ['%']) = some p)
    (h : covers (p.map f.foldToken) (f.fold text.toList) = true) :
    f.ilike text ("%" ++ part ++ "%") = true := by
  have hpattern : ("%" ++ part ++ "%").toList = '%' :: (part.toList ++ ['%']) := by simp
  have hmany : f.fold ('%' :: (part.toList ++ ['%'])) = '%' :: f.fold (part.toList ++ ['%']) :=
    congrArg (· :: _) (lower_special rfl)
  rw [ilike, hpattern, hmany, like, parse_cons _ (by decide), parse_fold, hp]
  exact beq_iff_eq.mpr (congrArg some (covers_many.mpr ⟨_, List.suffix_rfl, h⟩))

/-- The shortest text of the pattern does not contain what the pattern was made of. -/
theorem not_contains_least {part : String} {p : List Token} {c : Char}
    (hp : parse (part.toList ++ ['%']) = some p) (hc : c ∈ part.toList)
    (hspecial : isSpecial c = true) (hlength : (least 'x' p).length ≤ part.toList.length) :
    ¬ f.Contains (String.ofList (least 'x' p)) part := by
  intro hinside
  rw [Contains, String.toList_ofList] at hinside
  have hx : f.lower 'x' ≠ '_' := by
    rw [ne_eq, lower_eq_iff rfl]
    decide
  obtain ⟨p', hp', -, -, hplain⟩ := least_parse (f.lower 'x') hx (f.fold part.toList)
  have hfold : f.fold (part.toList ++ ['%']) = f.fold part.toList ++ ['%'] := by
    simp [fold, lower_special (f := f) (c := '%') rfl]
  rw [← hfold, parse_fold, hp, Option.map_some, Option.some.injEq] at hp'
  have hsame := fold_eq_of_infix hlength hinside
  rw [fold_least, hp'] at hsame
  have hnone := hplain hsame (f.lower c) (List.mem_map_of_mem hc)
  rw [lower_special hspecial, hspecial] at hnone
  cases hnone

/-- A character of the pattern that means itself is in every text it is found in. -/
theorem mem_of_ilike {text part : String} {c : Char} (hc : c ∈ part.toList)
    (hplain : isSpecial c = false) (h : f.ilike text ("%" ++ part ++ "%") = true) :
    f.lower c ∈ f.fold text.toList := by
  have hpattern : c ∈ ("%" ++ part ++ "%").toList := by simp [hc]
  obtain ⟨p, hp, hcovers⟩ := Option.map_eq_some_iff.mp (beq_iff_eq.mp h)
  refine mem_of_covers hcovers (literal_mem_of_mem hp (List.mem_map_of_mem hpattern) ?_)
  rw [isSpecial_lower, hplain]

theorem not_contains_of_not_mem {text part : String} {c : Char} (hc : c ∈ part.toList)
    (h : f.lower c ∉ f.fold text.toList) : ¬ f.Contains text part := fun hinside =>
  h (hinside.subset (List.mem_map_of_mem hc))

/-- A special character is in a text only as itself. -/
theorem special_mem_fold {c : Char} {s : List Char} (h : isSpecial c = true) :
    c ∈ f.fold s ↔ c ∈ s := by
  simp only [fold, List.mem_map, lower_eq_iff h, exists_eq_right]

theorem nul_mem_fold {s : List Char} : '\x00' ∈ f.fold s ↔ '\x00' ∈ s := by
  simp only [fold, List.mem_map, f.nul, exists_eq_right]

/-- A text with a special character is found where it is not, in a text that is not longer. -/
theorem exists_ilike_between {part : String} (h : ∃ c ∈ part.toList, isSpecial c = true) :
    ∃ text : String, text ≠ "" ∧ text.length ≤ part.length ∧
      (∀ c ∈ text.toList, c ∈ part.toList ∨ c = '%' ∨ c = 'x') ∧
      f.ilike text ("%" ++ part ++ "%") = true ∧ ¬ f.Contains text part := by
  obtain ⟨c, hc, hspecial⟩ := h
  obtain ⟨p, hp, hne, hlength, -⟩ := least_parse 'x' (by decide) part.toList
  by_cases hnil : least 'x' p = []
  · have hleast : least (f.lower 'x') (p.map f.foldToken) = [] := by
      rw [← fold_least, hnil]
      rfl
    refine ⟨"x", by decide, List.length_pos_of_mem hc, ?_, ilike_of_covers hp ?_,
      not_contains_of_not_mem hc ?_⟩
    · intro d hd
      exact .inr (.inr (List.mem_singleton.mp hd))
    · exact covers_of_least_eq_nil hleast (by simpa using hne) _
    · rw [lower_special hspecial, special_mem_fold hspecial]
      intro hx
      rw [List.mem_singleton.mp hx] at hspecial
      cases hspecial
  · refine ⟨String.ofList (least 'x' p), ?_, ?_, ?_, ilike_of_covers hp ?_,
      not_contains_least hp hc hspecial hlength⟩
    · intro hempty
      exact hnil (by simpa using congrArg String.toList hempty)
    · rw [String.length_ofList]
      exact hlength
    · intro d hd
      rw [String.toList_ofList] at hd
      rcases mem_least hd with rfl | hliteral
      · exact .inr (.inr rfl)
      · rcases List.mem_append.mp (mem_of_literal hp hliteral) with hd | hd
        · exact .inl hd
        · exact .inr (.inl (List.mem_singleton.mp hd))
    · rw [String.toList_ofList, fold_least]
      exact covers_least _ _

end Folding

end Like

end Lib
