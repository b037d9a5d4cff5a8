import Mathlib.Data.Bool.AllAny
import SecondBrain.Lib.CodePoints
import SecondBrain.Lib.JsonReader

/-!
# JSON as an interpreter reads and writes it

`loads` takes bytes in any of the encodings of Unicode and answers a value of
any type: a number may be a float, also one that is no number, and half a
character may stand in a text. `dumps` writes ASCII. What the floats are, and
how deep arrays and objects may be nested, is the interpreter's.

A text is read back from what is written of it with its halves put together
(`readChars_escape`), and an object of texts and integers field by field
(`readFields_render`).
-/

namespace Lib

namespace PythonJson

open CodePoint

inductive Value (F : Type) where
  | null
  | bool (b : Bool)
  | int (n : Int)
  | float (x : F)
  | str (s : Text)
  | list (items : List (Value F))
  | dict (fields : List (Text × Value F))

/-- What a program finds in its interpreter. -/
structure Interpreter (F : Type) where
  /-- `float(text)`. -/
  float : List Char → F
  /-- How a float is spelled in JSON. -/
  repr : F → List Char
  lt : F → Int → Bool
  eq : F → Int → Bool
  maxDepth : Nat
  maxDepth_pos : 0 < maxDepth

/-- The most digits an integer is read from or written with. -/
def maxStrDigits : Nat := 4300

inductive ReadError where
  /-- `ValueError`, with its subclasses. -/
  | value
  /-- `RecursionError`. -/
  | recursion
deriving DecidableEq

/-! ## Writing -/

def escape : CodePoint → List Char
  | .scalar c => Json.escAscii c
  | .surrogate n => Json.unicodeEscape (0xD800 + n)

def quote (s : Text) : List Char := '"' :: (s.flatMap escape ++ ['"'])

/-- The order of texts, code point by code point. -/
def keyLe : Text → Text → Bool
  | [], _ => true
  | _ :: _, [] => false
  | a :: s, b :: t => decide (a.toNat < b.toNat) || a.toNat == b.toNat && keyLe s t

/-- `json.dumps` of the fields with `sort_keys`, once their values are written. -/
def fieldTexts (fields : List (Text × List Char)) : List (List Char) :=
  (fields.insertionSort fun a b => keyLe a.1 b.1).map fun f => quote f.1 ++ ':' :: f.2

mutual

/-- `json.dumps`, compact and sorted. -/
def render {F : Type} (I : Interpreter F) : Value F → List Char
  | .null => "null".toList
  | .bool true => "true".toList
  | .bool false => "false".toList
  | .int n => (toString n).toList
  | .float x => I.repr x
  | .str s => quote s
  | .list items => '[' :: ([','].intercalate (renderItems I items) ++ [']'])
  | .dict fields => '{' :: ([','].intercalate (fieldTexts (renderFields I fields)) ++ ['}'])

def renderItems {F : Type} (I : Interpreter F) : List (Value F) → List (List Char)
  | [] => []
  | v :: rest => render I v :: renderItems I rest

def renderFields {F : Type} (I : Interpreter F) : List (Text × Value F) → List (Text × List Char)
  | [] => []
  | (key, v) :: rest => (key, render I v) :: renderFields I rest

end

mutual

/-- No integer is too long to be written. -/
def spellable {F : Type} : Value F → Bool
  | .null | .bool _ | .float _ | .str _ => true
  | .int n => decide ((Nat.toDigits 10 n.natAbs).length ≤ maxStrDigits)
  | .list items => spellableItems items
  | .dict fields => spellableFields fields

def spellableItems {F : Type} : List (Value F) → Bool
  | [] => true
  | v :: rest => spellable v && spellableItems rest

def spellableFields {F : Type} : List (Text × Value F) → Bool
  | [] => true
  | (_, v) :: rest => spellable v && spellableFields rest

end

/-! ## Reading strings -/

def isBlank : CodePoint → Bool
  | .scalar c => Json.isBlank c
  | .surrogate _ => false

def skipBlanks (text : Text) : Text := text.dropWhile isBlank

def readHex4 : Text → Option (Nat × Text)
  | .scalar a :: .scalar b :: .scalar c :: .scalar d :: rest => do
      let a ← Json.hexValue a
      let b ← Json.hexValue b
      let c ← Json.hexValue c
      let d ← Json.hexValue d
      return (a * 4096 + b * 256 + c * 16 + d, rest)
  | _ => none

/-- The escape of a second half. -/
def readLow : Text → Option (Nat × Text)
  | .scalar '\\' :: .scalar 'u' :: rest =>
      (readHex4 rest).filter fun p => decide (0xDC00 ≤ p.1 ∧ p.1 < 0xE000)
  | _ => none

/-- One code point of a string: a first half is joined with the second half
whose escape follows its own. -/
def readChar : Text → Option (CodePoint × Text)
  | .scalar '\\' :: .scalar 'u' :: rest => do
      let (n, rest) ← readHex4 rest
      match (if 0xD800 ≤ n ∧ n < 0xDC00 then readLow rest else none) with
      | some (low, rest) => return (join n low, rest)
      | none => (ofNat n).map fun a => (a, rest)
  | .scalar '\\' :: .scalar c :: rest => (Json.unescape c).map fun c => (.scalar c, rest)
  | .scalar c :: rest =>
      if c.toNat < 32 ∨ c = '\\' then none else some (.scalar c, rest)
  | .surrogate n :: rest => some (.surrogate n, rest)
  | [] => none

/-- The rest of a string, after its first quote. -/
def readChars : Nat → Text → Option (Text × Text)
  | 0, _ => none
  | _ + 1, .scalar '"' :: rest => some ([], rest)
  | fuel + 1, text => do
      let (a, rest) ← readChar text
      let (s, rest) ← readChars fuel rest
      return (a :: s, rest)

def readString (text : Text) : Option (Text × Text) := readChars (text.length + 1) text

/-! ## Reading numbers and words -/

def readDigits : Text → List Char × Text
  | .scalar c :: rest =>
      if c.isDigit then (c :: (readDigits rest).1, (readDigits rest).2)
      else ([], .scalar c :: rest)
  | rest => ([], rest)

def readSign : Text → List Char × Text
  | .scalar '-' :: rest => (['-'], rest)
  | rest => ([], rest)

/-- After a zero no other digit belongs to the number. -/
def readWhole : Text → List Char × Text
  | .scalar '0' :: rest => (['0'], rest)
  | rest => readDigits rest

def readFraction : Text → List Char × Text
  | .scalar '.' :: rest =>
      match readDigits rest with
      | ([], _) => ([], .scalar '.' :: rest)
      | (ds, more) => ('.' :: ds, more)
  | rest => ([], rest)

def readExponentSign : Text → List Char × Text
  | .scalar '-' :: rest => (['-'], rest)
  | .scalar '+' :: rest => (['+'], rest)
  | rest => ([], rest)

def readExponent : Text → List Char × Text
  | .scalar c :: rest =>
      if c = 'e' ∨ c = 'E' then
        match readDigits (readExponentSign rest).2 with
        | ([], _) => ([], .scalar c :: rest)
        | (ds, more) => (c :: ((readExponentSign rest).1 ++ ds), more)
      else ([], .scalar c :: rest)
  | rest => ([], rest)

/-- `int(text)` of a sign and digits. -/
def intOf (sign ds : List Char) : Int :=
  if sign = [] then (Nat.ofDigitChars 10 ds 0 : Nat) else -(Nat.ofDigitChars 10 ds 0 : Nat)

def readNumber {F : Type} (I : Interpreter F) (text : Text) : Option (Value F × Text) :=
  let (sign, text) := readSign text
  let (ds, text) := readWhole text
  let (fraction, text) := readFraction text
  let (exponent, text) := readExponent text
  if ds = [] then none
  else if fraction = [] ∧ exponent = [] then
    if maxStrDigits < ds.length then none else some (.int (intOf sign ds), text)
  else some (.float (I.float (sign ++ ds ++ fraction ++ exponent)), text)

def word (w : String) (text : Text) : Option Text :=
  if (ofChars w.toList).isPrefixOf text then some (text.drop w.length) else none

/-- A value that is no string, array or object. -/
def readAtom {F : Type} (I : Interpreter F) (text : Text) : Option (Value F × Text) :=
  ((word "null" text).map ((.null, ·)))
    <|> ((word "true" text).map ((.bool true, ·)))
    <|> ((word "false" text).map ((.bool false, ·)))
    <|> ((word "NaN" text).map ((.float (I.float "NaN".toList), ·)))
    <|> ((word "Infinity" text).map ((.float (I.float "Infinity".toList), ·)))
    <|> ((word "-Infinity" text).map ((.float (I.float "-Infinity".toList), ·)))
    <|> readNumber I text

/-! ## Reading values -/

/-- What is not read is a `ValueError`. -/
def orValueError {α : Type} : Option α → Except ReadError α
  | some a => .ok a
  | none => .error .value

/-- A field of an object: one with its name is written over. -/
def putField {F : Type} (fields : List (Text × Value F)) (f : Text × Value F) :
    List (Text × Value F) :=
  if fields.any (·.1 == f.1) then fields.map fun g => if g.1 == f.1 then (g.1, f.2) else g
  else fields ++ [f]

def dictOf {F : Type} (fields : List (Text × Value F)) : List (Text × Value F) :=
  fields.foldl putField []

mutual

/-- A value with at most `depth` arrays and objects in one another. -/
def readValue {F : Type} (I : Interpreter F) :
    Nat → Nat → Text → Except ReadError (Value F × Text)
  | _, 0, _ => .error .value
  | _, _ + 1, .scalar '"' :: rest =>
      orValueError ((readString rest).map fun p => (.str p.1, p.2))
  | 0, _ + 1, .scalar '[' :: _ => .error .recursion
  | depth + 1, fuel + 1, .scalar '[' :: rest =>
      match skipBlanks rest with
      | .scalar ']' :: rest => .ok (.list [], rest)
      | text => (readItems I depth fuel text).map fun p => (.list p.1, p.2)
  | 0, _ + 1, .scalar '{' :: _ => .error .recursion
  | depth + 1, fuel + 1, .scalar '{' :: rest =>
      match skipBlanks rest with
      | .scalar '}' :: rest => .ok (.dict [], rest)
      | text => (readFields I depth fuel text).map fun p => (.dict (dictOf p.1), p.2)
  | _, _ + 1, text => orValueError (readAtom I text)

/-- The values of an array that is not empty, up to its bracket. -/
def readItems {F : Type} (I : Interpreter F) :
    Nat → Nat → Text → Except ReadError (List (Value F) × Text)
  | _, 0, _ => .error .value
  | depth, fuel + 1, text => do
      let (v, rest) ← readValue I depth fuel text
      match skipBlanks rest with
      | .scalar ']' :: rest => return ([v], rest)
      | .scalar ',' :: rest =>
          let (items, rest) ← readItems I depth fuel (skipBlanks rest)
          return (v :: items, rest)
      | _ => .error .value

/-- The fields of an object that is not empty, as they are written. -/
def readFields {F : Type} (I : Interpreter F) :
    Nat → Nat → Text → Except ReadError (List (Text × Value F) × Text)
  | depth, fuel + 1, .scalar '"' :: rest => do
      let (key, rest) ← orValueError (readString rest)
      match skipBlanks rest with
      | .scalar ':' :: rest =>
          let (v, rest) ← readValue I depth fuel (skipBlanks rest)
          match skipBlanks rest with
          | .scalar '}' :: rest => return ([(key, v)], rest)
          | .scalar ',' :: rest =>
              let (fields, rest) ← readFields I depth fuel (skipBlanks rest)
              return ((key, v) :: fields, rest)
          | _ => .error .value
      | _ => .error .value
  | _, _, _ => .error .value

end

def loadsText {F : Type} (I : Interpreter F) (text : Text) : Except ReadError (Value F) :=
  match readValue I I.maxDepth (2 * text.length + 1) (skipBlanks text) with
  | .error e => .error e
  | .ok (v, rest) => if skipBlanks rest = [] then .ok v else .error .value

/-- `json.loads` of bytes. -/
def loads {F : Type} (I : Interpreter F) (bytes : List UInt8) : Except ReadError (Value F) :=
  match Encoding.decodeJson bytes with
  | none => .error .value
  | some text => loadsText I text

/-! ## Strings come back with their halves joined -/

@[simp] theorem ofChars_append (a b : List Char) : ofChars (a ++ b) = ofChars a ++ ofChars b :=
  List.map_append

@[simp] theorem ofChars_cons (c : Char) (cs : List Char) :
    ofChars (c :: cs) = .scalar c :: ofChars cs := rfl

theorem readHex4_hex4 {n : Nat} (h : n < 65536) (rest : Text) :
    readHex4 (ofChars (Json.hex4 n) ++ rest) = some (n, rest) := by
  have hd : ∀ k, Json.hexValue (k % 16).digitChar = some (k % 16) := fun k =>
    Json.hexValue_digitChar (Nat.mod_lt k (by decide))
  show (do
    let a ← Json.hexValue (n / 4096 % 16).digitChar
    let b ← Json.hexValue (n / 256 % 16).digitChar
    let c ← Json.hexValue (n / 16 % 16).digitChar
    let d ← Json.hexValue (n % 16).digitChar
    return (a * 4096 + b * 256 + c * 16 + d, rest)) = some (n, rest)
  rw [hd, hd, hd, hd]
  show some (n / 4096 % 16 * 4096 + n / 256 % 16 * 256 + n / 16 % 16 * 16 + n % 16, rest) = _
  have hn : n / 4096 % 16 * 4096 + n / 256 % 16 * 256 + n / 16 % 16 * 16 + n % 16 = n := by
    omega
  rw [hn]

theorem readLow_unicodeEscape {n : Nat} (h : n < 65536) (rest : Text) :
    readLow (ofChars (Json.unicodeEscape n) ++ rest) =
      if 0xDC00 ≤ n ∧ n < 0xE000 then some (n, rest) else none := by
  show (readHex4 (ofChars (Json.hex4 n) ++ rest)).filter _ = _
  rw [readHex4_hex4 h, Option.filter_some]
  simp only [decide_eq_true_eq]

theorem readChar_unicodeEscape {n : Nat} (h : n < 65536) (rest : Text) :
    readChar (ofChars (Json.unicodeEscape n) ++ rest) =
      match (if 0xD800 ≤ n ∧ n < 0xDC00 then readLow rest else none) with
      | some (low, rest) => some (join n low, rest)
      | none => (ofNat n).map fun a => (a, rest) := by
  show (readHex4 (ofChars (Json.hex4 n) ++ rest)).bind _ = _
  rw [readHex4_hex4 h]
  rfl

theorem ofNat_toNat (a : CodePoint) : ofNat a.toNat = some a := by
  cases a with
  | scalar c =>
      have hvalid : c.toNat.isValidChar := c.valid
      show ofNat c.toNat = _
      rw [ofNat, if_pos hvalid, Char.ofNat_toNat]
  | surrogate n =>
      have hn := n.isLt
      have hinvalid : ¬ (0xD800 + n.val).isValidChar := by
        rintro (hlow | ⟨hhigh, -⟩) <;> omega
      show ofNat (0xD800 + n.val) = _
      rw [ofNat, if_neg hinvalid, dif_pos (by omega)]
      simp

/-- A second half alone, or a first half that no second one follows. -/
theorem readChar_surrogate (n : Fin 2048) {rest : Text}
    (h : n.val < 1024 → readLow rest = none) :
    readChar (ofChars (Json.unicodeEscape (0xD800 + n.val)) ++ rest) =
      some (.surrogate n, rest) := by
  have hn := n.isLt
  have hnone : (if 0xD800 ≤ 0xD800 + n.val ∧ 0xD800 + n.val < 0xDC00 then readLow rest
      else none) = none := by
    split
    · exact h (by omega)
    · rfl
  rw [readChar_unicodeEscape (by omega), hnone]
  exact congrArg (Option.map _) (ofNat_toNat (.surrogate n))

theorem readChar_shortEscape {c : Char} {text : List Char} (h : Json.shortEscape c = some text)
    (rest : Text) : readChar (ofChars text ++ rest) = some (.scalar c, rest) := by
  unfold Json.shortEscape at h
  split at h
  · next hc => obtain rfl := Option.some.inj h; subst hc; rfl
  split at h
  · next hc => obtain rfl := Option.some.inj h; subst hc; rfl
  split at h
  · next hc => obtain rfl := Option.some.inj h; rw [Json.toNat_eq hc]; rfl
  split at h
  · next hc => obtain rfl := Option.some.inj h; rw [Json.toNat_eq hc]; rfl
  split at h
  · next hc => obtain rfl := Option.some.inj h; subst hc; rfl
  split at h
  · next hc => obtain rfl := Option.some.inj h; subst hc; rfl
  split at h
  · next hc => obtain rfl := Option.some.inj h; subst hc; rfl
  · cases h

theorem ne_backslash {c : Char} (h : Json.shortEscape c = none) : c ≠ '\\' := by
  rintro rfl
  cases h

theorem readChar_plain {c : Char} (hslash : c ≠ '\\') (hlow : ¬ c.toNat < 32) (rest : Text) :
    readChar (.scalar c :: rest) = some (.scalar c, rest) := by
  rw [readChar, if_neg (not_or.mpr ⟨hlow, hslash⟩)]
  · exact fun _ _ hc => hslash hc
  · exact fun _ _ _ hc => hslash hc

theorem join_halves {c : Char} (h : ¬ c.toNat < 65536) :
    join (0xD800 + (c.toNat - 65536) / 1024) (0xDC00 + (c.toNat - 65536) % 1024) = .scalar c := by
  have hbound : c.toNat < 1114112 := by
    rcases c.valid with hlow | hhigh
    · exact Nat.lt_trans hlow (by decide)
    · exact hhigh.2
  have hn : 0x10000 + (0xD800 + (c.toNat - 65536) / 1024 - 0xD800) * 1024 +
      (0xDC00 + (c.toNat - 65536) % 1024 - 0xDC00) = c.toNat := by omega
  rw [join, hn, Char.ofNat_toNat]

/-- A character comes back from its escape. -/
theorem readChar_escAscii (c : Char) (rest : Text) :
    readChar (ofChars (Json.escAscii c) ++ rest) = some (.scalar c, rest) := by
  unfold Json.escAscii
  cases hshort : Json.shortEscape c with
  | some text => exact readChar_shortEscape hshort rest
  | none =>
      show readChar (ofChars (if _ then _ else if _ then _ else _) ++ rest) = _
      split
      · next h => exact readChar_plain (ne_backslash hshort) (by omega) rest
      split
      · next h =>
          have hscalar : ¬ (0xD800 ≤ c.toNat ∧ c.toNat < 0xDC00) := by
            rcases c.valid with hlow | ⟨hhigh, -⟩
            · exact fun hc => absurd hc.1 (not_le.mpr hlow)
            · exact fun hc => by
                have : 57343 < c.toNat := hhigh
                omega
          rw [readChar_unicodeEscape h, if_neg hscalar]
          exact congrArg (Option.map _) (ofNat_toNat (.scalar c))
      · next h =>
          have hbound : c.toNat < 1114112 := by
            rcases c.valid with hlow | hhigh
            · exact Nat.lt_trans hlow (by decide)
            · exact hhigh.2
          rw [ofChars_append, List.append_assoc, readChar_unicodeEscape (by omega),
            if_pos (by omega), readLow_unicodeEscape (by omega), if_pos (by omega)]
          exact congrArg (some <| Prod.mk · rest) (join_halves h)

theorem readLow_of_ne {c : Char} (h : c ≠ '\\') (rest : Text) :
    readLow (.scalar c :: rest) = none := by
  rw [readLow]
  intro _ hc
  exact h (CodePoint.scalar.inj (List.cons.inj hc).1)

theorem shortEscape_second {c : Char} {text : List Char} (h : Json.shortEscape c = some text) :
    ∃ d, text = ['\\', d] ∧ d ≠ 'u' := by
  unfold Json.shortEscape at h
  repeat' split at h
  all_goals first
    | exact ⟨_, (Option.some.inj h).symm, by decide⟩
    | cases h

/-- Only a second half is read as one. -/
theorem readLow_escape {a : CodePoint} (h : a.isLow = false) (rest : Text) :
    readLow (ofChars (escape a) ++ rest) = none := by
  cases a with
  | surrogate n =>
      have hn : n.val < 1024 := by simpa [isLow] using h
      show readLow (ofChars (Json.unicodeEscape (0xD800 + n.val)) ++ rest) = none
      rw [readLow_unicodeEscape (by omega), if_neg (by omega)]
  | scalar c =>
      show readLow (ofChars (Json.escAscii c) ++ rest) = none
      unfold Json.escAscii
      cases hshort : Json.shortEscape c with
      | some text =>
          obtain ⟨d, rfl, hd⟩ := shortEscape_second hshort
          show readLow (.scalar '\\' :: .scalar d :: rest) = none
          rw [readLow]
          intro _ hc
          exact hd (CodePoint.scalar.inj (List.cons.inj (List.cons.inj hc).2).1)
      | none =>
          show readLow (ofChars (if _ then _ else if _ then _ else _) ++ rest) = _
          split
          · exact readLow_of_ne (ne_backslash hshort) rest
          split
          · next hc =>
              have hscalar : ¬ (0xDC00 ≤ c.toNat ∧ c.toNat < 0xE000) := by
                rcases c.valid with hlow | ⟨hhigh, -⟩
                · have : c.toNat < 0xD800 := hlow
                  omega
                · have : 57343 < c.toNat := hhigh
                  omega
              rw [readLow_unicodeEscape hc, if_neg hscalar]
          · next hc =>
              have hbound : c.toNat < 1114112 := by
                rcases c.valid with hlow | hhigh
                · exact Nat.lt_trans hlow (by decide)
                · exact hhigh.2
              rw [ofChars_append, List.append_assoc, readLow_unicodeEscape (by omega),
                if_neg (by omega)]

theorem escape_head (a : CodePoint) : ∃ d more, escape a = d :: more ∧ d ≠ '"' := by
  cases a with
  | scalar c => exact Json.escAscii_head c
  | surrogate n => exact ⟨'\\', _, rfl, by decide⟩

theorem readChars_step {a b : CodePoint} {tail tail' : Text} {fuel : Nat}
    (h : readChar (ofChars (escape a) ++ tail) = some (b, tail')) :
    readChars (fuel + 1) (ofChars (escape a) ++ tail) =
      (readChars fuel tail').bind fun p => some (b :: p.1, p.2) := by
  obtain ⟨d, more, hhead, hd⟩ := escape_head a
  rw [hhead] at h ⊢
  rw [readChars]
  · show (readChar (.scalar d :: (ofChars more ++ tail))).bind _ = _
    rw [show readChar (.scalar d :: (ofChars more ++ tail)) = _ from h]
    rfl
  · intro _ hc
    exact hd (CodePoint.scalar.inj (List.cons.inj hc).1)

theorem readLow_quote (rest : Text) : readLow (.scalar '"' :: rest) = none :=
  readLow_of_ne (by decide) rest

/-- A code point comes back from its escape, unless it is a first half before a second. -/
theorem readChar_escape {a : CodePoint} {tail : Text} (h : a.isHigh = true → readLow tail = none) :
    readChar (ofChars (escape a) ++ tail) = some (a, tail) := by
  cases a with
  | scalar c => exact readChar_escAscii c tail
  | surrogate n => exact readChar_surrogate n fun hn => h (decide_eq_true hn)

/-- The escapes of two halves are read as the character. -/
theorem readChar_pair {a b : CodePoint} (ha : a.isHigh = true) (hb : b.isLow = true)
    (tail : Text) : readChar (ofChars (escape a) ++ (ofChars (escape b) ++ tail)) =
      some (join a.toNat b.toNat, tail) := by
  cases a with
  | scalar c => cases ha
  | surrogate n =>
      cases b with
      | scalar c => cases hb
      | surrogate k =>
          have hn : n.val < 1024 := of_decide_eq_true ha
          have hk : 1024 ≤ k.val := of_decide_eq_true hb
          have hlt := k.isLt
          show readChar (ofChars (Json.unicodeEscape (0xD800 + n.val)) ++
            (ofChars (Json.unicodeEscape (0xD800 + k.val)) ++ tail)) = _
          rw [readChar_unicodeEscape (by omega), if_pos (by omega),
            readLow_unicodeEscape (by omega), if_pos (by omega)]
          rfl

/-- What is read of a string is the string, with its halves joined. -/
theorem readChars_escape (s : Text) (rest : Text) {fuel : Nat} (h : s.length < fuel) :
    readChars fuel (ofChars (s.flatMap escape) ++ .scalar '"' :: rest) = some (merge s, rest) := by
  obtain ⟨fuel, rfl⟩ : ∃ n, fuel = n + 1 := Nat.exists_eq_succ_of_ne_zero (by omega)
  fun_induction merge s generalizing fuel with
  | case1 => rfl
  | case2 a =>
      obtain ⟨fuel, rfl⟩ : ∃ n, fuel = n + 1 := Nat.exists_eq_succ_of_ne_zero (by
        rw [List.length_singleton] at h
        omega)
      rw [List.flatMap_singleton, readChars_step (readChar_escape fun _ => readLow_quote rest)]
      rfl
  | case3 a b more hpair ih =>
      rw [Bool.and_eq_true] at hpair
      simp only [List.length_cons] at h
      obtain ⟨fuel, rfl⟩ : ∃ n, fuel = n + 1 := Nat.exists_eq_succ_of_ne_zero (by omega)
      rw [List.flatMap_cons, List.flatMap_cons, ofChars_append, ofChars_append,
        List.append_assoc, List.append_assoc,
        readChars_step (readChar_pair hpair.1 hpair.2 _), ih fuel (by omega)]
      rfl
  | case4 a b more hpair ih =>
      simp only [List.length_cons] at h ih
      obtain ⟨fuel, rfl⟩ : ∃ n, fuel = n + 1 := Nat.exists_eq_succ_of_ne_zero (by omega)
      have hlow : a.isHigh = true →
          readLow (ofChars ((b :: more).flatMap escape) ++ .scalar '"' :: rest) = none := by
        intro ha
        rw [ha, Bool.true_and, Bool.not_eq_true] at hpair
        rw [List.flatMap_cons, ofChars_append, List.append_assoc]
        exact readLow_escape hpair _
      rw [List.flatMap_cons, ofChars_append, List.append_assoc,
        readChars_step (readChar_escape hlow), ih fuel (by omega)]
      rfl

theorem length_le_escape (s : Text) : s.length ≤ (ofChars (s.flatMap escape)).length := by
  induction s with
  | nil => exact Nat.zero_le _
  | cons a s ih =>
      obtain ⟨d, more, hhead, -⟩ := escape_head a
      rw [List.flatMap_cons, hhead, List.length_cons, ofChars_append, List.length_append]
      simp only [ofChars_cons, List.length_cons]
      omega

theorem readString_escape (s : Text) (rest : Text) :
    readString (ofChars (s.flatMap escape) ++ .scalar '"' :: rest) = some (merge s, rest) := by
  have := length_le_escape s
  exact readChars_escape s rest (by simp only [List.length_append, List.length_cons]; omega)

theorem digitChar_lt (k : Nat) : (k % 16).digitChar.toNat < 128 := by
  have all : ∀ n < 16, n.digitChar.toNat < 128 := by decide
  exact all _ (Nat.mod_lt k (by decide))

theorem unicodeEscape_lt (n : Nat) : ∀ c ∈ Json.unicodeEscape n, c.toNat < 128 := by
  intro c hc
  simp only [Json.unicodeEscape, Json.hex4, List.mem_cons, List.not_mem_nil, or_false] at hc
  rcases hc with rfl | rfl | rfl | rfl | rfl | rfl
  · decide
  · decide
  all_goals exact digitChar_lt _

/-- What is written is ASCII. -/
theorem escape_lt (a : CodePoint) : ∀ c ∈ escape a, c.toNat < 128 := by
  cases a with
  | surrogate n => exact unicodeEscape_lt _
  | scalar c =>
      show ∀ d ∈ Json.escAscii c, d.toNat < 128
      unfold Json.escAscii
      cases hshort : Json.shortEscape c with
      | some text =>
          show ∀ d ∈ text, d.toNat < 128
          unfold Json.shortEscape at hshort
          repeat' split at hshort
          all_goals first
            | (obtain rfl := Option.some.inj hshort; exact List.all_iff_forall_prop.mp (by decide))
            | cases hshort
      | none =>
          dsimp only
          split
          · intro d hd
            rw [List.mem_singleton.mp hd]
            omega
          split
          · exact unicodeEscape_lt _
          · intro d hd
            exact (List.mem_append.mp hd).elim (unicodeEscape_lt _ d) (unicodeEscape_lt _ d)

theorem quote_lt (s : Text) : ∀ c ∈ quote s, c.toNat < 128 := by
  intro c hc
  simp only [quote, List.mem_cons, List.mem_append, List.mem_flatMap, List.not_mem_nil,
    or_false] at hc
  rcases hc with rfl | ⟨a, -, hc⟩ | rfl
  · decide
  · exact escape_lt a c hc
  · decide

/-! ## Fields come back -/

/-- A text that goes on after a field. -/
def Ends (rest : Text) : Prop := ∃ c more, rest = .scalar c :: more ∧ (c = ',' ∨ c = '}')

/-- The value is read as the other from what is written of it. -/
structure Reads {F : Type} (I : Interpreter F) (v v' : Value F) : Prop where
  ascii : ∀ c ∈ render I v, c.toNat < 128
  head : ∃ c more, render I v = c :: more ∧ Json.isBlank c = false
  read : ∀ depth fuel rest, Ends rest →
    readValue I depth (fuel + 1) (ofChars (render I v) ++ rest) = .ok (v', rest)

theorem readDigits_append {ds : List Char} (hds : ∀ c ∈ ds, c.isDigit = true) {rest : Text}
    (h : Ends rest) : readDigits (ofChars ds ++ rest) = (ds, rest) := by
  induction ds with
  | nil =>
      obtain ⟨c, more, rfl, hc⟩ := h
      have hdigit : c.isDigit = false := by
        rcases hc with rfl | rfl <;> rfl
      show readDigits (.scalar c :: more) = _
      rw [readDigits, hdigit]
      rfl
  | cons d ds ih =>
      have hd := hds d List.mem_cons_self
      show readDigits (.scalar d :: (ofChars ds ++ rest)) = _
      rw [readDigits, hd, if_pos rfl, ih fun c hc => hds c (List.mem_cons_of_mem d hc)]

variable {F : Type} {I : Interpreter F}

theorem readAtom_digits {d : Char} (hd : d.isDigit = true) (more : Text) :
    readAtom I (.scalar d :: more) = readNumber I (.scalar d :: more) := by
  have hword : ∀ (w : String) (c : Char) (cs : List Char), w.toList = c :: cs →
      c.isDigit = false → word w (.scalar d :: more) = none := by
    intro w c cs hchars hc
    rw [word, hchars, if_neg]
    intro hbegins
    have hsame : c = d := by
      simpa [ofChars, List.isPrefixOf] using (Bool.and_eq_true_iff.mp hbegins).1
    rw [hsame, hd] at hc
    cases hc
  rw [readAtom, hword "null" _ _ rfl rfl, hword "true" _ _ rfl rfl, hword "false" _ _ rfl rfl,
    hword "NaN" _ _ rfl rfl, hword "Infinity" _ _ rfl rfl, hword "-Infinity" _ _ rfl rfl]
  rfl

theorem readWhole_append {ds : List Char} (hds : Json.Whole ds) {rest : Text} (h : Ends rest) :
    readWhole (ofChars ds ++ rest) = (ds, rest) := by
  cases ds with
  | nil => exact absurd rfl hds.ne_nil
  | cons d more =>
      by_cases hzero : d = '0'
      · subst hzero
        cases more with
        | nil => rfl
        | cons c more => exact absurd rfl (hds.no_zero c more)
      · rw [← readDigits_append hds.digits h]
        show readWhole (.scalar d :: (ofChars more ++ rest)) = _
        rw [readWhole]
        · rfl
        · intro _ hc
          exact hzero (CodePoint.scalar.inj (List.cons.inj hc).1)

theorem readSign_digit {d : Char} (hd : d.isDigit = true) (more : Text) :
    readSign (.scalar d :: more) = ([], .scalar d :: more) := by
  rw [readSign]
  intro _ hc
  rw [CodePoint.scalar.inj (List.cons.inj hc).1] at hd
  cases hd

theorem readFraction_ends {rest : Text} (h : Ends rest) : readFraction rest = ([], rest) := by
  obtain ⟨c, more, rfl, rfl | rfl⟩ := h <;> rfl

theorem readExponent_ends {rest : Text} (h : Ends rest) : readExponent rest = ([], rest) := by
  obtain ⟨c, more, rfl, rfl | rfl⟩ := h <;> rfl

theorem readNumber_nat {n : Nat} (hn : (Nat.toDigits 10 n).length ≤ maxStrDigits) {rest : Text}
    (h : Ends rest) : readNumber I (ofChars (Nat.toDigits 10 n) ++ rest) = some (.int n, rest) := by
  have hwhole := Json.whole_toDigits n
  have hsign : readSign (ofChars (Nat.toDigits 10 n) ++ rest) =
      ([], ofChars (Nat.toDigits 10 n) ++ rest) := by
    cases hds : Nat.toDigits 10 n with
    | nil => exact absurd hds hwhole.ne_nil
    | cons d more =>
        rw [hds] at hwhole
        exact readSign_digit (hwhole.digits d List.mem_cons_self) _
  rw [readNumber, hsign]
  dsimp only
  rw [readWhole_append hwhole h]
  dsimp only
  rw [readFraction_ends h]
  dsimp only
  rw [readExponent_ends h]
  dsimp only
  rw [if_neg hwhole.ne_nil, if_pos ⟨rfl, rfl⟩, if_neg (not_lt.mpr hn), intOf, if_pos rfl,
    Nat.ofDigitChars_ten_toDigits]

theorem readValue_atom {c : Char} (hc : c ≠ '"' ∧ c ≠ '[' ∧ c ≠ '{') (depth fuel : Nat)
    (rest : Text) : readValue I depth (fuel + 1) (.scalar c :: rest) =
      orValueError (readAtom I (.scalar c :: rest)) := by
  rw [readValue]
  all_goals
    intros
    simp_all

theorem reads_nat {n : Nat} (hn : (Nat.toDigits 10 n).length ≤ maxStrDigits) :
    Reads I (.int n) (.int n) := by
  have htext : render I (.int (n : Int)) = Nat.toDigits 10 n := by
    rw [render]
    exact Nat.toList_repr
  obtain ⟨d, more, hds⟩ := List.exists_cons_of_ne_nil (Json.whole_toDigits n).ne_nil
  have hd : d.isDigit = true :=
    (Json.whole_toDigits n).digits d (hds ▸ List.mem_cons_self)
  have hother : d ≠ '"' ∧ d ≠ '[' ∧ d ≠ '{' := by
    refine ⟨?_, ?_, ?_⟩
    all_goals
      rintro rfl
      cases hd
  constructor
  · rw [htext]
    intro c hc
    have hdigit := Json.isDigit_toDigits c hc
    simp only [Char.isDigit, Bool.and_eq_true, decide_eq_true_eq] at hdigit
    exact Nat.lt_of_le_of_lt hdigit.2 (by decide)
  · rw [htext, hds]
    exact ⟨d, more, rfl, Json.isBlank_of_isDigit hd⟩
  · intro depth fuel rest h
    have hnumber := readNumber_nat (I := I) hn h
    rw [htext, hds]
    rw [hds] at hnumber
    show readValue I depth (fuel + 1) (.scalar d :: (ofChars more ++ rest)) = _
    rw [readValue_atom hother, readAtom_digits hd]
    exact congrArg orValueError hnumber

theorem reads_true : Reads I (.bool true) (.bool true) := by
  constructor
  · rw [render]
    exact List.all_iff_forall_prop.mp (by decide)
  · exact ⟨'t', _, rfl, rfl⟩
  · intro depth fuel rest _
    show readValue I depth (fuel + 1) (.scalar 't' :: (ofChars ['r', 'u', 'e'] ++ rest)) = _
    rw [readValue_atom (by decide)]
    rfl

theorem reads_str (s : Text) : Reads I (.str s) (.str (merge s)) := by
  constructor
  · rw [render]
    exact quote_lt s
  · exact ⟨'"', _, by rw [render, quote], rfl⟩
  · intro depth fuel rest _
    rw [render, quote]
    show readValue I depth (fuel + 1)
      (.scalar '"' :: (ofChars (s.flatMap escape ++ ['"']) ++ rest)) = _
    rw [readValue, ofChars_append, List.append_assoc]
    exact congrArg (fun r => orValueError (Option.map _ r)) (readString_escape s rest)

def fieldText (I : Interpreter F) (f : Text × Value F) : List Char :=
  quote f.1 ++ ':' :: render I f.2

theorem fieldTexts_one (f : Text × Value F) :
    [','].intercalate ([f].map (fieldText I)) = fieldText I f :=
  List.intercalate_singleton

theorem fieldTexts_more (f g : Text × Value F) (fields : List (Text × Value F)) :
    [','].intercalate ((f :: g :: fields).map (fieldText I)) =
      fieldText I f ++ ',' :: [','].intercalate ((g :: fields).map (fieldText I)) := by
  simp [List.intercalate]

/-- After a field there is its end, or the next one. -/
theorem readFields_step {f f' : Text × Value F} (hkey : f'.1 = merge f.1)
    (hvalue : Reads I f.2 f'.2) {tail : Text} (htail : Ends tail) (depth fuel : Nat) :
    readFields I depth (fuel + 2) (ofChars (fieldText I f) ++ tail) =
      match skipBlanks tail with
      | .scalar '}' :: rest => .ok ([f'], rest)
      | .scalar ',' :: rest =>
          (readFields I depth (fuel + 1) (skipBlanks rest)).map fun p => (f' :: p.1, p.2)
      | _ => .error .value := by
  obtain ⟨c, more, hhead, hblank⟩ := hvalue.head
  have hfirst : skipBlanks (ofChars (render I f.2) ++ tail) = ofChars (render I f.2) ++ tail := by
    rw [hhead, skipBlanks]
    show List.dropWhile isBlank (.scalar c :: (ofChars more ++ tail)) = _
    rw [List.dropWhile_cons_of_neg]
    · rfl
    · simp [isBlank, hblank]
  have hcolon : ∀ more : Text, skipBlanks (.scalar ':' :: more) = .scalar ':' :: more :=
    fun _ => rfl
  have htext : ofChars (fieldText I f) ++ tail =
      .scalar '"' :: (ofChars (f.1.flatMap escape) ++
        .scalar '"' :: .scalar ':' :: (ofChars (render I f.2) ++ tail)) := by
    simp [fieldText, quote]
  rw [htext, readFields, readString_escape]
  simp only [orValueError, bind, Except.bind, pure, Except.pure, hcolon, hfirst,
    hvalue.read depth fuel tail htail, ← hkey]
  obtain ⟨d, rest, rfl, rfl | rfl⟩ := htail
  · have hcomma : skipBlanks (.scalar ',' :: rest) = .scalar ',' :: rest := rfl
    rw [hcomma]
    cases readFields I depth (fuel + 1) (skipBlanks rest) <;> rfl
  · rfl

/-- The fields of an object that is not empty come back, one after the other. -/
theorem readFields_render {fields fields' : List (Text × Value F)}
    (h : List.Forall₂ (fun f f' => f'.1 = merge f.1 ∧ Reads I f.2 f'.2) fields fields')
    (hne : fields ≠ []) (depth : Nat) (rest : Text) (fuel : Nat) (hfuel : fields.length < fuel) :
    readFields I depth fuel
      (ofChars ([','].intercalate (fields.map (fieldText I))) ++ .scalar '}' :: rest) =
        .ok (fields', rest) := by
  induction h generalizing fuel with
  | nil => exact absurd rfl hne
  | @cons f f' fields fields' hf hrest ih =>
      simp only [List.length_cons] at hfuel
      obtain ⟨fuel, rfl⟩ : ∃ n, fuel = n + 2 := ⟨fuel - 2, by omega⟩
      cases hrest with
      | nil =>
          rw [fieldTexts_one, readFields_step hf.1 hf.2 ⟨'}', rest, rfl, .inr rfl⟩]
          rfl
      | @cons g g' fields fields' hg hrest =>
          have hmore := ih nofun (fuel + 1) (by omega)
          have hstart : ∀ more : Text,
              skipBlanks (ofChars ([','].intercalate ((g :: fields).map (fieldText I))) ++ more) =
                ofChars ([','].intercalate ((g :: fields).map (fieldText I))) ++ more := by
            intro more
            cases fields <;> rfl
          have hcomma : ∀ more : Text, skipBlanks (.scalar ',' :: more) = .scalar ',' :: more :=
            fun _ => rfl
          rw [fieldTexts_more, ofChars_append, List.append_assoc, ofChars_cons, List.cons_append,
            readFields_step hf.1 hf.2 ⟨',', _, rfl, .inl rfl⟩, hcomma]
          show (readFields I depth (fuel + 1) (skipBlanks _)).map _ = _
          rw [hstart, hmore]
          rfl

/-- The text of an object. -/
def objectText (I : Interpreter F) (fields : List (Text × Value F)) : List Char :=
  '{' :: ([','].intercalate (fields.map (fieldText I)) ++ ['}'])

theorem fieldText_cons (f : Text × Value F) : ∃ more, fieldText I f = '"' :: more := ⟨_, rfl⟩

theorem length_le_intercalate (fields : List (Text × Value F)) :
    fields.length ≤ ([','].intercalate (fields.map (fieldText I))).length := by
  induction fields with
  | nil => exact Nat.zero_le _
  | cons f fields ih =>
      obtain ⟨more, hf⟩ := fieldText_cons (I := I) f
      cases fields with
      | nil =>
          rw [fieldTexts_one, hf, List.length_singleton, List.length_cons]
          omega
      | cons g fields =>
          rw [fieldTexts_more, List.length_append]
          simp only [List.length_cons] at ih ⊢
          omega

theorem loadsText_object {fields fields' : List (Text × Value F)}
    (h : List.Forall₂ (fun f f' => f'.1 = merge f.1 ∧ Reads I f.2 f'.2) fields fields')
    (hne : fields ≠ []) :
    loadsText I (ofChars (objectText I fields)) = .ok (.dict (dictOf fields')) := by
  obtain ⟨depth, hdepth⟩ := Nat.exists_eq_succ_of_ne_zero (Nat.pos_iff_ne_zero.mp I.maxDepth_pos)
  have hlength := length_le_intercalate (I := I) fields
  have htext : ofChars (objectText I fields) = .scalar '{' ::
      (ofChars ([','].intercalate (fields.map (fieldText I))) ++ [.scalar '}']) := by
    simp [objectText, ofChars]
  have hstart : ∃ more, ofChars ([','].intercalate (fields.map (fieldText I))) ++
      [.scalar '}'] = .scalar '"' :: more := by
    cases fields with
    | nil => exact absurd rfl hne
    | cons f fields => cases fields <;> exact ⟨_, rfl⟩
  have hfields := readFields_render h hne depth []
    (2 * (ofChars (objectText I fields)).length) (by
      rw [htext, List.length_cons, List.length_append, ofChars, List.length_map]
      omega)
  obtain ⟨more, hstart⟩ := hstart
  have hvalue : readValue I I.maxDepth (2 * (ofChars (objectText I fields)).length + 1)
      (skipBlanks (ofChars (objectText I fields))) = .ok (.dict (dictOf fields'), []) := by
    rw [hstart] at hfields
    rw [hdepth, htext, hstart]
    rw [htext, hstart] at hfields
    show (readFields I depth _ (.scalar '"' :: more)).map _ = _
    rw [hfields]
    rfl
  rw [loadsText, hvalue]
  rfl

theorem fieldText_lt {f : Text × Value F} {v' : Value F} (h : Reads I f.2 v') :
    ∀ c ∈ fieldText I f, c.toNat < 128 := by
  intro c hc
  rcases List.mem_append.mp hc with hc | hc
  · exact quote_lt f.1 c hc
  · rcases List.mem_cons.mp hc with rfl | hc
    · decide
    · exact h.ascii c hc

theorem objectText_lt {fields fields' : List (Text × Value F)}
    (h : List.Forall₂ (fun f f' => f'.1 = merge f.1 ∧ Reads I f.2 f'.2) fields fields') :
    ∀ c ∈ objectText I fields, c.toNat < 128 := by
  have hmore : ∀ c ∈ [','].intercalate (fields.map (fieldText I)), c.toNat < 128 := by
    induction h with
    | nil => exact fun _ hc => nomatch hc
    | @cons f f' fields fields' hf hrest ih =>
        intro c hc
        cases hrest with
        | nil =>
            rw [fieldTexts_one] at hc
            exact fieldText_lt hf.2 c hc
        | @cons g g' fields fields' hg hrest =>
            rw [fieldTexts_more] at hc
            rcases List.mem_append.mp hc with hc | hc
            · exact fieldText_lt hf.2 c hc
            · rcases List.mem_cons.mp hc with rfl | hc
              · decide
              · exact ih c hc
  intro c hc
  rcases List.mem_cons.mp hc with rfl | hc
  · decide
  · rcases List.mem_append.mp hc with hc | hc
    · exact hmore c hc
    · rw [List.mem_singleton.mp hc]
      decide

end PythonJson

end Lib
