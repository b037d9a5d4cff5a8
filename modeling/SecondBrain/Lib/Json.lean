import Mathlib.Data.List.Sort
import Mathlib.Algebra.GroupWithZero.Nat
import Mathlib.Algebra.Order.BigOperators.Group.List

/-!
# JSON values and the two texts a database client meets

A value is written twice on its way to a `jsonb` column. The client writes it
compactly with every non-ASCII character escaped, and the size limits a program
checks are read off that text. The server stores the value and prints it back
with a blank after each comma and colon and with non-ASCII characters as they
are, and a size constraint on the column is read off this second text. The two
lengths differ in both directions: a blank costs one octet the client did not
count, an escape costs octets the server does not.

`render` writes both, given a `Style`. The comparison `octets_stored_le` bounds
the second length by the first plus the number of separators, which is what a
program needs to know whose check is on one text and whose constraint is on the
other.
-/

namespace Lib

inductive Json where
  | null
  | bool (b : Bool)
  | int (n : Int)
  /-- A non-negative binary float, as the decimal `digits * 10 ^ -places` its
  shortest representation spells. -/
  | real (digits places : Nat)
  | str (s : String)
  | arr (items : List Json)
  | obj (fields : List (String × Json))

namespace Json

def nul : Char := Char.ofNat 0

def octets (text : List Char) : Nat := (text.map Char.utf8Size).sum

@[simp] theorem octets_nil : octets [] = 0 := rfl

@[simp] theorem octets_cons (c : Char) (text : List Char) :
    octets (c :: text) = c.utf8Size + octets text := by
  simp only [octets, List.map_cons, List.sum_cons]

@[simp] theorem octets_append (a b : List Char) :
    octets (a ++ b) = octets a + octets b := by
  simp only [octets, List.map_append, List.sum_append]

/-- A character takes at most four bytes. -/
theorem octets_le (text : List Char) : octets text ≤ 4 * text.length := by
  induction text with
  | nil => exact Nat.zero_le _
  | cons c rest ih =>
      have hc := Char.utf8Size_le_four c
      rw [octets_cons, List.length_cons]
      omega

/-- How one of the two writers spells the parts it may choose. -/
structure Style where
  esc : Char → List Char
  real : Nat → Nat → List Char
  comma : List Char
  colon : List Char

def hex4 (n : Nat) : List Char :=
  [(n / 4096 % 16).digitChar, (n / 256 % 16).digitChar, (n / 16 % 16).digitChar,
    (n % 16).digitChar]

def unicodeEscape (n : Nat) : List Char := '\\' :: 'u' :: hex4 n

/-- The two-character escapes both writers share. -/
def shortEscape (c : Char) : Option (List Char) :=
  if c = '"' then some ['\\', '"']
  else if c = '\\' then some ['\\', '\\']
  else if c.toNat = 8 then some ['\\', 'b']
  else if c.toNat = 12 then some ['\\', 'f']
  else if c = '\n' then some ['\\', 'n']
  else if c = '\r' then some ['\\', 'r']
  else if c = '\t' then some ['\\', 't']
  else none

/-- A character in a string the client writes: printable ASCII stands for
itself, anything else is escaped, beyond the basic plane as a surrogate pair. -/
def escAscii (c : Char) : List Char :=
  match shortEscape c with
  | some text => text
  | none =>
      if 32 ≤ c.toNat ∧ c.toNat ≤ 126 then [c]
      else if c.toNat < 65536 then unicodeEscape c.toNat
      else unicodeEscape (55296 + (c.toNat - 65536) / 1024) ++
        unicodeEscape (56320 + (c.toNat - 65536) % 1024)

/-- A character in a string the server prints: only control characters are
escaped. -/
def escStored (c : Char) : List Char :=
  match shortEscape c with
  | some text => text
  | none => if c.toNat < 32 then unicodeEscape c.toNat else [c]

def fixedText (digits places : Nat) : List Char :=
  Nat.toDigits 10 (digits / 10 ^ places) ++ '.' ::
    (List.replicate (places - (Nat.toDigits 10 (digits % 10 ^ places)).length) '0' ++
      Nat.toDigits 10 (digits % 10 ^ places))

/-- The client turns to the exponent form below a ten-thousandth. -/
def shortestText (digits places : Nat) : List Char :=
  let all := Nat.toDigits 10 digits
  let power := places - (all.length - 1)
  if digits = 0 ∨ power ≤ 4 then fixedText digits places
  else
    (match all with
      | [] => []
      | [d] => [d]
      | d :: rest => d :: '.' :: rest) ++
      'e' :: '-' :: (if power < 10 then ['0'] else []) ++ Nat.toDigits 10 power

/-- What the client sends, `json.dumps` with the separators `","` and `":"`. -/
def compact : Style := ⟨escAscii, shortestText, [','], [':']⟩

/-- What the server prints for the stored value cast to text. -/
def stored : Style := ⟨escStored, fixedText, [',', ' '], [':', ' ']⟩

/-- What the client writes with `ensure_ascii` off. -/
def plain : Style := ⟨escStored, shortestText, [','], [':']⟩

def quote (st : Style) (s : String) : List Char :=
  '"' :: (s.toList.flatMap st.esc ++ ['"'])

mutual

def render (st : Style) : Json → List Char
  | .null => ['n', 'u', 'l', 'l']
  | .bool true => ['t', 'r', 'u', 'e']
  | .bool false => ['f', 'a', 'l', 's', 'e']
  | .int n => (toString n).toList
  | .real digits places => st.real digits places
  | .str s => quote st s
  | .arr items => '[' :: (renderItems st items ++ [']'])
  | .obj fields => '{' :: (renderFields st fields ++ ['}'])

def renderItems (st : Style) : List Json → List Char
  | [] => []
  | [j] => render st j
  | j :: k :: rest => render st j ++ st.comma ++ renderItems st (k :: rest)

def renderFields (st : Style) : List (String × Json) → List Char
  | [] => []
  | [(key, j)] => quote st key ++ st.colon ++ render st j
  | (key, j) :: next :: rest =>
      quote st key ++ st.colon ++ render st j ++ st.comma ++
        renderFields st (next :: rest)

end

/-- The number of bytes of the text the client writes. -/
def dumpsLen (j : Json) : Nat := octets (render compact j)

/-- `octet_length` of the stored value cast to text. -/
def storedLen (j : Json) : Nat := octets (render stored j)

mutual

/-- The server stores every text but one with a NUL character in it. -/
def storable : Json → Bool
  | .str s => !s.toList.contains nul
  | .arr items => storableItems items
  | .obj fields => storableFields fields
  | .null | .bool _ | .int _ | .real _ _ => true

def storableItems : List Json → Bool
  | [] => true
  | j :: rest => storable j && storableItems rest

def storableFields : List (String × Json) → Bool
  | [] => true
  | (key, j) :: rest =>
      !key.toList.contains nul && storable j && storableFields rest

end

mutual

/-- Commas and colons: what the second text spends a blank on. -/
def separators : Json → Nat
  | .arr items => itemSeparators items
  | .obj fields => fieldSeparators fields
  | .null | .bool _ | .int _ | .real _ _ | .str _ => 0

def itemSeparators : List Json → Nat
  | [] => 0
  | [j] => separators j
  | j :: k :: rest => separators j + 1 + itemSeparators (k :: rest)

def fieldSeparators : List (String × Json) → Nat
  | [] => 0
  | [(_, j)] => 1 + separators j
  | (_, j) :: next :: rest => 1 + separators j + 1 + fieldSeparators (next :: rest)

end

mutual

/-- No float anywhere: floats are the one part the second text may spell
longer than the first by more than a blank. -/
def exact : Json → Bool
  | .real _ _ => false
  | .arr items => exactItems items
  | .obj fields => exactFields fields
  | .null | .bool _ | .int _ | .str _ => true

def exactItems : List Json → Bool
  | [] => true
  | j :: rest => exact j && exactItems rest

def exactFields : List (String × Json) → Bool
  | [] => true
  | (_, j) :: rest => exact j && exactFields rest

end

mutual

/-- `sort_keys`: the fields of every object in the order of their names. -/
def sortKeys : Json → Json
  | .arr items => .arr (sortItems items)
  | .obj fields => .obj ((sortFields fields).insertionSort fun a b => a.1 ≤ b.1)
  | .null => .null
  | .bool b => .bool b
  | .int n => .int n
  | .real digits places => .real digits places
  | .str s => .str s

def sortItems : List Json → List Json
  | [] => []
  | j :: rest => sortKeys j :: sortItems rest

def sortFields : List (String × Json) → List (String × Json)
  | [] => []
  | (key, j) :: rest => (key, sortKeys j) :: sortFields rest

end

/-- The text whose hash identifies a value: sorted keys, no blanks, ASCII. -/
def canonical (j : Json) : String := String.ofList (render compact (sortKeys j))

/-- The same with `ensure_ascii` off. -/
def dumps (j : Json) : String := String.ofList (render plain (sortKeys j))

def field? (j : Json) (key : String) : Option Json :=
  match j with
  | .obj fields => (fields.find? fun f => f.1 == key).map Prod.snd
  | _ => none

/-! ## Equality -/

mutual

/-- Equality of values, field by field in their order. -/
def same : Json → Json → Bool
  | .null, .null => true
  | .bool a, .bool b => a == b
  | .int a, .int b => a == b
  | .real a m, .real b n => a == b && m == n
  | .str a, .str b => a == b
  | .arr a, .arr b => sameItems a b
  | .obj a, .obj b => sameFields a b
  | _, _ => false

def sameItems : List Json → List Json → Bool
  | [], [] => true
  | a :: as, b :: bs => same a b && sameItems as bs
  | _, _ => false

def sameFields : List (String × Json) → List (String × Json) → Bool
  | [], [] => true
  | (k, a) :: as, (l, b) :: bs => k == l && same a b && sameFields as bs
  | _, _ => false

end

mutual

theorem same_iff : ∀ a b : Json, same a b = true ↔ a = b
  | .null, b | .bool _, b | .int _, b | .real _ _, b | .str _, b => by
      cases b <;> simp [same]
  | .arr as, b => by
      cases b <;> simp [same, sameItems_iff as]
  | .obj as, b => by
      cases b <;> simp [same, sameFields_iff as]

theorem sameItems_iff : ∀ as bs : List Json, sameItems as bs = true ↔ as = bs
  | [], bs => by cases bs <;> simp [sameItems]
  | a :: as, bs => by
      cases bs <;> simp [sameItems, same_iff a, sameItems_iff as]

theorem sameFields_iff :
    ∀ as bs : List (String × Json), sameFields as bs = true ↔ as = bs
  | [], bs => by cases bs <;> simp [sameFields]
  | (k, a) :: as, bs => by
      cases bs with
      | nil => simp [sameFields]
      | cons b bs =>
          simp [sameFields, same_iff a, sameFields_iff as, Prod.ext_iff, and_assoc]

end

instance : DecidableEq Json := fun a b => decidable_of_iff _ (same_iff a b)

/-! ## The two lengths compared -/

theorem le_octets_unicodeEscape (n : Nat) : 6 ≤ octets (unicodeEscape n) := by
  have h : ∀ c : Char, 1 ≤ c.utf8Size := Char.utf8Size_pos
  simp only [unicodeEscape, hex4, octets_cons, octets_nil]
  have := h '\\'
  have := h 'u'
  have := h (n / 4096 % 16).digitChar
  have := h (n / 256 % 16).digitChar
  have := h (n / 16 % 16).digitChar
  have := h (n % 16).digitChar
  omega

/-- An escape never spells a character shorter than the character itself. -/
theorem octets_escStored_le (c : Char) :
    octets (escStored c) ≤ octets (escAscii c) := by
  unfold escStored escAscii
  cases shortEscape c with
  | some text => exact Nat.le_refl _
  | none =>
      simp only []
      by_cases hlow : c.toNat < 32
      · rw [if_pos hlow, if_neg (by omega), if_pos (by omega)]
      · rw [if_neg hlow]
        by_cases hascii : 32 ≤ c.toNat ∧ c.toNat ≤ 126
        · rw [if_pos hascii]
        · rw [if_neg hascii]
          have hc : octets [c] ≤ 4 := by
            simpa only [octets_cons, octets_nil, Nat.add_zero] using
              Char.utf8Size_le_four c
          split
          · exact Nat.le_trans hc
              (Nat.le_trans (by decide) (le_octets_unicodeEscape _))
          · rw [octets_append]
            have := le_octets_unicodeEscape (55296 + (c.toNat - 65536) / 1024)
            omega

theorem octets_flatMap_le {f g : Char → List Char}
    (h : ∀ c, octets (f c) ≤ octets (g c)) (text : List Char) :
    octets (text.flatMap f) ≤ octets (text.flatMap g) := by
  induction text with
  | nil => exact Nat.le_refl _
  | cons c rest ih =>
      rw [List.flatMap_cons, List.flatMap_cons, octets_append, octets_append]
      exact Nat.add_le_add (h c) ih

theorem octets_quote_le (s : String) :
    octets (quote stored s) ≤ octets (quote compact s) := by
  simp only [quote, octets_cons, octets_append, octets_nil]
  have := octets_flatMap_le octets_escStored_le s.toList
  exact Nat.add_le_add_left (Nat.add_le_add_right this _) _

theorem octets_comma_stored : octets stored.comma = octets compact.comma + 1 := by
  decide

theorem octets_colon_stored : octets stored.colon = octets compact.colon + 1 := by
  decide

mutual

theorem octets_render_le : ∀ j : Json, exact j = true →
    octets (render stored j) ≤ octets (render compact j) + separators j
  | .null, _ | .bool true, _ | .bool false, _ | .int _, _ => by
      simp only [render]
      exact Nat.le_add_right _ _
  | .real _ _, h => by
      rw [exact] at h
      cases h
  | .str s, _ => by
      simp only [render, separators, Nat.add_zero]
      exact octets_quote_le s
  | .arr items, h => by
      rw [exact] at h
      have := octets_renderItems_le items h
      simp only [render, separators, octets_cons, octets_append, octets_nil]
      omega
  | .obj fields, h => by
      rw [exact] at h
      have := octets_renderFields_le fields h
      simp only [render, separators, octets_cons, octets_append, octets_nil]
      omega

theorem octets_renderItems_le : ∀ items : List Json, exactItems items = true →
    octets (renderItems stored items)
      ≤ octets (renderItems compact items) + itemSeparators items
  | [], _ => Nat.le_refl _
  | [j], h => by
      rw [exactItems, exactItems, Bool.and_true] at h
      simp only [renderItems, itemSeparators]
      exact octets_render_le j h
  | j :: k :: rest, h => by
      rw [exactItems, Bool.and_eq_true] at h
      have hj := octets_render_le j h.1
      have hrest := octets_renderItems_le (k :: rest) h.2
      have hcomma := octets_comma_stored
      rw [renderItems, renderItems, itemSeparators]
      simp only [octets_append]
      omega

theorem octets_renderFields_le : ∀ fields : List (String × Json),
    exactFields fields = true →
    octets (renderFields stored fields)
      ≤ octets (renderFields compact fields) + fieldSeparators fields
  | [], _ => Nat.le_refl _
  | [(key, j)], h => by
      rw [exactFields, exactFields, Bool.and_true] at h
      have hj := octets_render_le j h
      have hkey := octets_quote_le key
      have hcolon := octets_colon_stored
      simp only [renderFields, fieldSeparators, octets_append]
      omega
  | (key, j) :: next :: rest, h => by
      rw [exactFields, Bool.and_eq_true] at h
      have hj := octets_render_le j h.1
      have hrest := octets_renderFields_le (next :: rest) h.2
      have hkey := octets_quote_le key
      have hcolon := octets_colon_stored
      have hcomma := octets_comma_stored
      rw [renderFields, renderFields, fieldSeparators]
      simp only [octets_append]
      omega

end

/-- The stored text is at most one octet a separator longer than the text the
client counted. -/
theorem storedLen_le (j : Json) (h : j.exact = true) :
    j.storedLen ≤ j.dumpsLen + j.separators :=
  octets_render_le j h

end Json

end Lib
