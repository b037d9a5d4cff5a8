import SecondBrain.Lib.JsonReader

/-!
# JSON values compared and measured

Two values that were read are equal where their numbers have the same value and their
objects the same fields, in whatever order. The compact text of a value has a length that
is a sum over its parts, whatever the order of the parts.
-/

namespace Lib

namespace Json

/-! ## Equality -/

/-- A float in lowest terms, or the whole number it is. -/
def lowestTerms : Nat → Nat → Json
  | digits, 0 => .int digits
  | digits, places + 1 =>
      if digits % 10 = 0 then lowestTerms (digits / 10) places else .real digits (places + 1)

mutual

/-- Every number as its value; a boolean is a number. -/
def worth : Json → Json
  | .null => .null
  | .bool b => .int (if b then 1 else 0)
  | .int n => .int n
  | .real digits places => lowestTerms digits places
  | .str s => .str s
  | .arr items => .arr (worthItems items)
  | .obj fields => .obj (worthFields fields)

def worthItems : List Json → List Json
  | [] => []
  | j :: rest => worth j :: worthItems rest

def worthFields : List (String × Json) → List (String × Json)
  | [] => []
  | (key, j) :: rest => (key, worth j) :: worthFields rest

end

/-- `a == b`. -/
def equal (a b : Json) : Bool := decide (a.sortKeys.worth = b.sortKeys.worth)

/-- Some texts in order. -/
def sortedTexts (texts : List String) : Json :=
  .arr ((texts.insertionSort (· ≤ ·)).map .str)

@[simp] theorem sortKeys_sortedTexts (texts : List String) :
    (sortedTexts texts).sortKeys = sortedTexts texts := by
  rw [sortedTexts, sortKeys]
  induction texts.insertionSort (· ≤ ·) with
  | nil => rfl
  | cons text rest ih => rw [List.map_cons, sortItems, Json.arr.inj ih, sortKeys]

@[simp] theorem worth_sortedTexts (texts : List String) :
    (sortedTexts texts).worth = sortedTexts texts := by
  rw [sortedTexts, worth]
  induction texts.insertionSort (· ≤ ·) with
  | nil => rfl
  | cons text rest ih => rw [List.map_cons, worthItems, Json.arr.inj ih, worth]

@[simp] theorem readable_sortedTexts (texts : List String) : Readable (sortedTexts texts) := by
  rw [sortedTexts, Readable]
  induction texts.insertionSort (· ≤ ·) with
  | nil => trivial
  | cons text rest ih => exact ⟨trivial, ih⟩

/-- The fields have these names and no others. -/
def hasKeys (fields : List (String × Json)) (keys : List String) : Bool :=
  (fields.all fun f => keys.contains f.1) && keys.all fun key => fields.any fun f => f.1 == key

/-! ## Length -/

theorem dumpsLen_str (s : String) :
    dumpsLen (.str s) = 2 + octets (s.toList.flatMap escAscii) := by
  rw [dumpsLen, render, quote, octets_cons, octets_append]
  simp only [octets_cons, octets_nil, compact]
  rw [show '"'.utf8Size = 1 by decide]
  omega

theorem octets_renderItems (items : List Json) (h : items ≠ []) :
    octets (renderItems compact items) + 1 = (items.map fun j => dumpsLen j + 1).sum := by
  induction items with
  | nil => exact absurd rfl h
  | cons j rest ih =>
      cases rest with
      | nil => rw [renderItems, List.map_cons, List.map_nil, List.sum_cons, List.sum_nil]; rfl
      | cons k more =>
          have hcomma : octets compact.comma = 1 := by decide
          rw [renderItems, octets_append, octets_append, hcomma, List.map_cons, List.sum_cons,
            ← ih (List.cons_ne_nil _ _), dumpsLen]
          omega

theorem octets_renderFields (fields : List (String × Json)) (h : fields ≠ []) :
    octets (renderFields compact fields) + 1 =
      (fields.map fun f => dumpsLen (.str f.1) + dumpsLen f.2 + 2).sum := by
  have hcomma : octets compact.comma = 1 := by decide
  have hcolon : octets compact.colon = 1 := by decide
  have hkey : ∀ key : String, octets (quote compact key) = dumpsLen (.str key) := fun _ => rfl
  induction fields with
  | nil => exact absurd rfl h
  | cons f rest ih =>
      obtain ⟨key, j⟩ := f
      cases rest with
      | nil =>
          rw [renderFields, octets_append, octets_append, hcolon, hkey, List.map_cons,
            List.map_nil, List.sum_cons, List.sum_nil]
          change _ + _ + dumpsLen j + 1 = dumpsLen (.str key) + dumpsLen j + 2 + 0
          omega
      | cons g more =>
          obtain ⟨key', k⟩ := g
          rw [renderFields, octets_append, octets_append, octets_append, octets_append, hcomma,
            hcolon, hkey, List.map_cons, List.sum_cons, ← ih (List.cons_ne_nil _ _)]
          change _ + _ + dumpsLen j + _ + _ + 1 = dumpsLen (.str key) + dumpsLen j + 2 + _
          omega

theorem dumpsLen_arr (items : List Json) :
    dumpsLen (.arr items) = 1 + max 1 (items.map fun j => dumpsLen j + 1).sum := by
  have hopen : '['.utf8Size = 1 := by decide
  have hclose : ']'.utf8Size = 1 := by decide
  rw [dumpsLen, render, octets_cons, octets_append, octets_cons, octets_nil, hopen, hclose]
  by_cases h : items = []
  · subst h
    rfl
  · rw [← octets_renderItems items h]
    omega

theorem dumpsLen_obj (fields : List (String × Json)) :
    dumpsLen (.obj fields) =
      1 + max 1 (fields.map fun f => dumpsLen (.str f.1) + dumpsLen f.2 + 2).sum := by
  have hopen : '{'.utf8Size = 1 := by decide
  have hclose : '}'.utf8Size = 1 := by decide
  rw [dumpsLen, render, octets_cons, octets_append, octets_cons, octets_nil, hopen, hclose]
  by_cases h : fields = []
  · subst h
    rfl
  · rw [← octets_renderFields fields h]
    omega

/-- A text of characters that stand for themselves. -/
theorem dumpsLen_plain {text : List Char}
    (h : ∀ c ∈ text, escAscii c = [c] ∧ c.utf8Size = 1) :
    dumpsLen (.str (String.ofList text)) = text.length + 2 := by
  rw [dumpsLen_str, String.toList_ofList]
  induction text with
  | nil => rfl
  | cons c rest ih =>
      obtain ⟨hc, hsize⟩ := h c List.mem_cons_self
      have hrest := ih fun d hd => h d (List.mem_cons_of_mem _ hd)
      rw [List.flatMap_cons, hc, List.singleton_append, octets_cons, hsize, List.length_cons]
      omega

/-- The order of the texts does not change how much they take. -/
theorem dumpsLen_sortedTexts (texts : List String) :
    dumpsLen (sortedTexts texts) =
      1 + max 1 (texts.map fun text => dumpsLen (.str text) + 1).sum := by
  rw [sortedTexts, dumpsLen_arr, List.map_map]
  have hperm := (List.perm_insertionSort (· ≤ ·) texts).map
    ((fun j => dumpsLen j + 1) ∘ Json.str)
  rw [hperm.sum_eq]
  rfl

end Json

end Lib
