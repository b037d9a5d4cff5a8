import Mathlib.Tactic.Ring
import SecondBrain.Basic
import SecondBrain.Lib.JsonMeasure

/-!
# The text of a UUID

What `uuid.UUID` takes for one: thirty-two digits, wherever hyphens stand, in braces or
after a prefix. The text of an identifier is taken for one, and stands for itself in JSON.
-/

namespace SecondBrain

open Lib

namespace Uuid

/-- Every occurrence taken out, from the left. -/
def removeAll (pattern text : List Char) : List Char :=
  match text with
  | [] => []
  | c :: rest =>
      if pattern ≠ [] ∧ pattern.isPrefixOf (c :: rest) then
        removeAll pattern (rest.drop (pattern.length - 1))
      else c :: removeAll pattern rest
termination_by text.length
decreasing_by
  · rw [List.length_drop, List.length_cons]
    omega
  · exact Nat.lt_succ_self _

def isHex (c : Char) : Bool :=
  c.isDigit || (decide ('a' ≤ c) && decide (c ≤ 'f')) || (decide ('A' ≤ c) && decide (c ≤ 'F'))

def isBrace (c : Char) : Bool := c == '{' || c == '}'

/-- `uuid.UUID(text)` raises nothing. -/
def isUuid (text : String) : Bool :=
  let plain := removeAll ['u', 'u', 'i', 'd', ':'] (removeAll ['u', 'r', 'n', ':'] text.toList)
  let bare := ((plain.dropWhile isBrace).reverse.dropWhile isBrace).reverse
  let hex := bare.filter fun c => c != '-'
  decide (hex.length = 32) && hex.all isHex

theorem mem_hexDigits {width n : Nat} {c : Char} (h : c ∈ hexDigits width n) :
    (isHex c = true ∧ c ≠ '-') ∧ (c ≠ 'u' ∧ isBrace c = false) ∧
      Json.escAscii c = [c] ∧ c.utf8Size = 1 := by
  have all : ∀ k < 16, (isHex k.digitChar = true ∧ k.digitChar ≠ '-') ∧
      (k.digitChar ≠ 'u' ∧ isBrace k.digitChar = false) ∧
      Json.escAscii k.digitChar = [k.digitChar] ∧ k.digitChar.utf8Size = 1 := by decide
  induction width generalizing n with
  | zero => cases h
  | succ width ih =>
      rw [hexDigits, List.mem_append, List.mem_singleton] at h
      rcases h with h | rfl
      · exact ih h
      · exact all _ (Nat.mod_lt _ (by decide))

theorem mem_chars {id : Uuid} {c : Char} (h : c ∈ id.chars) :
    c = '-' ∨ c ∈ hexDigits 32 id.toNat := by
  have htake : ∀ (l : List Char) n, c ∈ l.take n → c ∈ l := fun l n => List.mem_of_mem_take
  have hdrop : ∀ (l : List Char) n, c ∈ l.drop n → c ∈ l := fun l n => List.mem_of_mem_drop
  simp only [Uuid.chars, List.mem_append, List.mem_cons] at h
  rcases h with h | rfl | h | rfl | h | rfl | h | rfl | h
  · exact .inr (htake _ _ h)
  · exact .inl rfl
  · exact .inr (hdrop _ _ (htake _ _ h))
  · exact .inl rfl
  · exact .inr (hdrop _ _ (htake _ _ h))
  · exact .inl rfl
  · exact .inr (hdrop _ _ (htake _ _ h))
  · exact .inl rfl
  · exact .inr (hdrop _ _ h)

theorem removeAll_self {c : Char} {pattern text : List Char} (h : c ∉ text) :
    removeAll (c :: pattern) text = text := by
  induction text with
  | nil => rw [removeAll]
  | cons d rest ih =>
      have hne : ¬ ((c :: pattern) ≠ [] ∧ (c :: pattern).isPrefixOf (d :: rest) = true) := by
        rintro ⟨-, hstarts⟩
        rw [List.isPrefixOf, Bool.and_eq_true, beq_iff_eq] at hstarts
        exact h (hstarts.1 ▸ List.mem_cons_self)
      rw [removeAll, if_neg hne, ih fun hmem => h (List.mem_cons_of_mem _ hmem)]

theorem dropWhile_self {p : Char → Bool} {text : List Char} (h : ∀ c ∈ text, p c = false) :
    text.dropWhile p = text := by
  cases text with
  | nil => rfl
  | cons c rest => rw [List.dropWhile_cons, h c List.mem_cons_self, if_neg Bool.false_ne_true]

theorem filter_chars (id : Uuid) : id.chars.filter (fun c => c != '-') = hexDigits 32 id.toNat := by
  have hself : ∀ l : List Char, (∀ c ∈ l, c ∈ hexDigits 32 id.toNat) →
      l.filter (fun c => c != '-') = l := by
    intro l hl
    rw [List.filter_eq_self]
    intro c hc
    exact bne_iff_ne.mpr (mem_hexDigits (hl c hc)).1.2
  have hcons : ∀ l : List Char, ('-' :: l).filter (fun c => c != '-') =
      l.filter fun c => c != '-' := fun l => rfl
  rw [Uuid.chars]
  simp only [List.filter_append, hcons]
  rw [hself _ fun c => List.mem_of_mem_take,
    hself _ fun c hc => List.mem_of_mem_drop (List.mem_of_mem_take hc),
    hself _ fun c hc => List.mem_of_mem_drop (List.mem_of_mem_take hc),
    hself _ fun c hc => List.mem_of_mem_drop (List.mem_of_mem_take hc),
    hself _ fun c => List.mem_of_mem_drop]
  exact groups_append _

/-- The digits of a text that is taken for a UUID. -/
def hexOf (text : String) : List Char :=
  let plain := removeAll ['u', 'u', 'i', 'd', ':'] (removeAll ['u', 'r', 'n', ':'] text.toList)
  let bare := ((plain.dropWhile isBrace).reverse.dropWhile isBrace).reverse
  bare.filter fun c => c != '-'

theorem hexOf_text (id : Uuid) : hexOf id.text = hexDigits 32 id.toNat := by
  have hplain : ∀ c ∈ id.chars, c ≠ 'u' ∧ isBrace c = false := by
    intro c hc
    rcases mem_chars hc with rfl | hhex
    · decide
    · exact (mem_hexDigits hhex).2.1
  have hu : 'u' ∉ id.chars := fun h => (hplain _ h).1 rfl
  have hbrace : ∀ c ∈ id.chars, isBrace c = false := fun c hc => (hplain c hc).2
  have hrev : ∀ c ∈ id.chars.reverse, isBrace c = false :=
    fun c hc => hbrace c (List.mem_reverse.mp hc)
  rw [hexOf, Uuid.text, String.toList_ofList]
  simp only [removeAll_self hu, dropWhile_self hbrace, dropWhile_self hrev, List.reverse_reverse,
    filter_chars]

theorem isUuid_text (id : Uuid) : isUuid id.text = true := by
  have hhex : (hexDigits 32 id.toNat).all isHex = true :=
    List.all_eq_true.mpr fun c hc => (mem_hexDigits hc).1.1
  have hdigits : isUuid id.text =
      (decide ((hexOf id.text).length = 32) && (hexOf id.text).all isHex) := rfl
  rw [hdigits, hexOf_text, length_hexDigits, hhex]
  rfl

def hexValue (c : Char) : Nat :=
  if c.isDigit then c.toNat - 48 else if 'a' ≤ c then c.toNat - 87 else c.toNat - 55

/-- `uuid.UUID(text)`, of a text that is one. -/
def ofText (text : String) : Uuid :=
  BitVec.ofNat 128 ((hexOf text).foldl (fun n c => n * 16 + hexValue c) 0)

theorem foldl_hexDigits (width n start : Nat) :
    (hexDigits width n).foldl (fun n c => n * 16 + hexValue c) start =
      start * 16 ^ width + n % 16 ^ width := by
  have all : ∀ k < 16, hexValue k.digitChar = k := by decide
  induction width generalizing n start with
  | zero => simp [hexDigits, Nat.mod_one]
  | succ width ih =>
      rw [hexDigits, List.foldl_append, ih, List.foldl_cons, List.foldl_nil,
        all _ (Nat.mod_lt _ (by decide)), Nat.pow_succ', Nat.mod_mul, Nat.add_mul]
      ring

theorem ofText_text (id : Uuid) : ofText id.text = id := by
  rw [ofText, hexOf_text, foldl_hexDigits]
  refine BitVec.eq_of_toNat_eq ?_
  have hlt := id.isLt
  rw [BitVec.toNat_ofNat]
  omega

theorem dumpsLen_text (id : Uuid) : Json.dumpsLen (.str id.text) = 38 := by
  rw [Uuid.text, Json.dumpsLen_plain, length_chars]
  intro c hc
  rcases mem_chars hc with rfl | hhex
  · decide
  · exact (mem_hexDigits hhex).2.2

end Uuid

end SecondBrain
