import SecondBrain.Lib.Json

/-!
# Reading JSON

The reader takes a value off the front of a text and returns what is left. It
skips blanks where JSON allows them, reads both spellings of a character, and a
field that is written twice has its last value. It knows the numbers the writers
spell: integers, and floats that are not negative.

What a writer writes is read back (`loads_render`), whatever the writer chose to
escape and wherever it put a blank, and so two values with one text are the same.
-/

namespace Lib

namespace Json

def isBlank (c : Char) : Bool := c == ' ' || c == '\t' || c == '\n' || c == '\r'

def skipBlanks (text : List Char) : List Char := text.dropWhile isBlank

/-! ## Strings -/

def hexValue (c : Char) : Option Nat :=
  if '0' ≤ c ∧ c ≤ '9' then some (c.toNat - 48)
  else if 'a' ≤ c ∧ c ≤ 'f' then some (c.toNat - 87)
  else if 'A' ≤ c ∧ c ≤ 'F' then some (c.toNat - 55)
  else none

def readHex4 : List Char → Option (Nat × List Char)
  | a :: b :: c :: d :: rest => do
      let a ← hexValue a
      let b ← hexValue b
      let c ← hexValue c
      let d ← hexValue d
      return (a * 4096 + b * 256 + c * 16 + d, rest)
  | _ => none

/-- The second half of a character beyond the basic plane. -/
def readLow (high : Nat) : List Char → Option (Char × List Char)
  | '\\' :: 'u' :: rest => do
      let (low, rest) ← readHex4 rest
      if 56320 ≤ low ∧ low < 57344 then
        return (Char.ofNat (65536 + (high - 55296) * 1024 + (low - 56320)), rest)
      else none
  | _ => none

def unescape (c : Char) : Option Char :=
  if c = '"' ∨ c = '\\' ∨ c = '/' then some c
  else if c = 'b' then some (Char.ofNat 8)
  else if c = 'f' then some (Char.ofNat 12)
  else if c = 'n' then some '\n'
  else if c = 'r' then some '\r'
  else if c = 't' then some '\t'
  else none

/-- One character of a string. A half of a character alone is none. -/
def readChar : List Char → Option (Char × List Char)
  | '\\' :: 'u' :: rest => do
      let (n, rest) ← readHex4 rest
      if 55296 ≤ n ∧ n < 56320 then readLow n rest
      else if 56320 ≤ n ∧ n < 57344 then none
      else return (Char.ofNat n, rest)
  | '\\' :: c :: rest => (unescape c).map fun c => (c, rest)
  | c :: rest => if c.toNat < 32 then none else some (c, rest)
  | [] => none

/-- The rest of a string, after its first quote. -/
def readChars : Nat → List Char → Option (List Char × List Char)
  | 0, _ => none
  | _ + 1, '"' :: rest => some ([], rest)
  | fuel + 1, text => do
      let (c, rest) ← readChar text
      let (cs, rest) ← readChars fuel rest
      return (c :: cs, rest)

/-! ## Numbers -/

def readDigits (text : List Char) : List Char × List Char := text.span Char.isDigit

/-- The digits before the point: no zero stands before another digit. -/
def readWhole (text : List Char) : Option (List Char × List Char) :=
  match readDigits text with
  | ([], _) => none
  | ('0' :: _ :: _, _) => none
  | p => some p

/-- A negative exponent, if there is one. -/
def readExponent : List Char → Option (Nat × List Char)
  | 'e' :: '-' :: rest =>
      match readDigits rest with
      | ([], _) => none
      | (ds, rest) => some (Nat.ofDigitChars 10 ds 0, rest)
  | text => some (0, text)

def readNumber : List Char → Option (Json × List Char)
  | '-' :: rest => do
      let (ds, rest) ← readWhole rest
      return (.int (-(Nat.ofDigitChars 10 ds 0 : Nat)), rest)
  | text => do
      let (ds, rest) ← readWhole text
      match rest with
      | '.' :: rest =>
          match readDigits rest with
          | ([], _) => none
          | (frac, rest) =>
              let (power, rest) ← readExponent rest
              return (.real (Nat.ofDigitChars 10 (ds ++ frac) 0) (frac.length + power), rest)
      | 'e' :: _ =>
          let (power, rest) ← readExponent rest
          return (.real (Nat.ofDigitChars 10 ds 0) power, rest)
      | rest => return (.int (Nat.ofDigitChars 10 ds 0), rest)

/-! ## Values -/

/-- A field of an object: one with its name is written over. -/
def putField (fields : List (String × Json)) (key : String) (j : Json) : List (String × Json) :=
  if fields.any (·.1 == key) then
    fields.map fun f => if f.1 == key then (key, j) else f
  else fields ++ [(key, j)]

mutual

def readValue : Nat → List Char → Option (Json × List Char)
  | 0, _ => none
  | fuel + 1, text =>
      match skipBlanks text with
      | 'n' :: 'u' :: 'l' :: 'l' :: rest => some (.null, rest)
      | 't' :: 'r' :: 'u' :: 'e' :: rest => some (.bool true, rest)
      | 'f' :: 'a' :: 'l' :: 's' :: 'e' :: rest => some (.bool false, rest)
      | '"' :: rest => do
          let (cs, rest) ← readChars (rest.length + 1) rest
          return (.str (String.ofList cs), rest)
      | '[' :: rest =>
          match skipBlanks rest with
          | ']' :: rest => some (.arr [], rest)
          | _ => do
              let (items, rest) ← readItems fuel rest
              return (.arr items, rest)
      | '{' :: rest =>
          match skipBlanks rest with
          | '}' :: rest => some (.obj [], rest)
          | _ => do
              let (fields, rest) ← readFields fuel [] rest
              return (.obj fields, rest)
      | text => readNumber text

/-- The values of a list that is not empty, up to its bracket. -/
def readItems : Nat → List Char → Option (List Json × List Char)
  | 0, _ => none
  | fuel + 1, text => do
      let (j, rest) ← readValue fuel text
      match skipBlanks rest with
      | ']' :: rest => return ([j], rest)
      | ',' :: rest =>
          let (items, rest) ← readItems fuel rest
          return (j :: items, rest)
      | _ => none

/-- The fields of an object that is not empty, after those there are. -/
def readFields : Nat → List (String × Json) → List Char →
    Option (List (String × Json) × List Char)
  | 0, _, _ => none
  | fuel + 1, fields, text =>
      match skipBlanks text with
      | '"' :: rest => do
          let (cs, rest) ← readChars (rest.length + 1) rest
          match skipBlanks rest with
          | ':' :: rest =>
              let (j, rest) ← readValue fuel rest
              let fields := putField fields (String.ofList cs) j
              match skipBlanks rest with
              | '}' :: rest => return (fields, rest)
              | ',' :: rest => readFields fuel fields rest
              | _ => none
          | _ => none
      | _ => none

end

/-- `json.loads`. -/
def loads (text : String) : Option Json :=
  match readValue (2 * text.toList.length + 1) text.toList with
  | some (j, rest) => if skipBlanks rest = [] then some j else none
  | none => none

/-! ## What is written is read -/

theorem hexValue_digitChar {n : Nat} (h : n < 16) : hexValue n.digitChar = some n := by
  have all : ∀ n < 16, hexValue n.digitChar = some n := by decide
  exact all n h

theorem readHex4_hex4 {n : Nat} (h : n < 65536) (rest : List Char) :
    readHex4 (hex4 n ++ rest) = some (n, rest) := by
  have hd : ∀ k, hexValue (k % 16).digitChar = some (k % 16) := fun k =>
    hexValue_digitChar (Nat.mod_lt k (by decide))
  show (do
    let a ← hexValue (n / 4096 % 16).digitChar
    let b ← hexValue (n / 256 % 16).digitChar
    let c ← hexValue (n / 16 % 16).digitChar
    let d ← hexValue (n % 16).digitChar
    return (a * 4096 + b * 256 + c * 16 + d, rest)) = some (n, rest)
  rw [hd, hd, hd, hd]
  show some (n / 4096 % 16 * 4096 + n / 256 % 16 * 256 + n / 16 % 16 * 16 + n % 16, rest) = _
  have hn : n / 4096 % 16 * 4096 + n / 256 % 16 * 256 + n / 16 % 16 * 16 + n % 16 = n := by
    omega
  rw [hn]

/-- An escape that is no half of a character. -/
theorem readChar_unicodeEscape {c : Char} (h : c.toNat < 65536) (rest : List Char) :
    readChar (unicodeEscape c.toNat ++ rest) = some (c, rest) := by
  have hvalid := c.valid
  have hscalar : c.toNat < 55296 ∨ 57343 < c.toNat := by
    rcases hvalid with hlow | hhigh
    · exact .inl hlow
    · exact .inr hhigh.1
  show (do
    let (n, rest) ← readHex4 (hex4 c.toNat ++ rest)
    if 55296 ≤ n ∧ n < 56320 then readLow n rest
    else if 56320 ≤ n ∧ n < 57344 then none
    else return (Char.ofNat n, rest)) = some (c, rest)
  rw [readHex4_hex4 h]
  show (if 55296 ≤ c.toNat ∧ c.toNat < 56320 then readLow c.toNat rest
    else if 56320 ≤ c.toNat ∧ c.toNat < 57344 then none
    else some (Char.ofNat c.toNat, rest)) = some (c, rest)
  rw [if_neg (by omega), if_neg (by omega), Char.ofNat_toNat]

theorem readLow_unicodeEscape {high low : Nat} (h : 56320 ≤ low) (h' : low < 57344)
    (rest : List Char) : readLow high (unicodeEscape low ++ rest) =
      some (Char.ofNat (65536 + (high - 55296) * 1024 + (low - 56320)), rest) := by
  show (do
    let (low, rest) ← readHex4 (hex4 low ++ rest)
    if 56320 ≤ low ∧ low < 57344 then
      return (Char.ofNat (65536 + (high - 55296) * 1024 + (low - 56320)), rest)
    else none) = _
  rw [readHex4_hex4 (Nat.lt_trans h' (by decide))]
  exact if_pos ⟨h, h'⟩

theorem readChar_high {high : Nat} (h : 55296 ≤ high) (h' : high < 56320) (rest : List Char) :
    readChar (unicodeEscape high ++ rest) = readLow high rest := by
  show (do
    let (n, rest) ← readHex4 (hex4 high ++ rest)
    if 55296 ≤ n ∧ n < 56320 then readLow n rest
    else if 56320 ≤ n ∧ n < 57344 then none
    else return (Char.ofNat n, rest)) = _
  rw [readHex4_hex4 (Nat.lt_trans h' (by decide))]
  exact if_pos ⟨h, h'⟩

/-- Two halves that make a character. -/
theorem readChar_pair {c : Char} (h : ¬ c.toNat < 65536) (rest : List Char) :
    readChar (unicodeEscape (55296 + (c.toNat - 65536) / 1024) ++
      unicodeEscape (56320 + (c.toNat - 65536) % 1024) ++ rest) = some (c, rest) := by
  have hbound : c.toNat < 1114112 := by
    rcases c.valid with hlow | hhigh
    · exact Nat.lt_trans hlow (by decide)
    · exact hhigh.2
  rw [List.append_assoc, readChar_high (by omega) (by omega),
    readLow_unicodeEscape (by omega) (by omega)]
  have hn : 65536 + (55296 + (c.toNat - 65536) / 1024 - 55296) * 1024 +
      (56320 + (c.toNat - 65536) % 1024 - 56320) = c.toNat := by omega
  rw [hn, Char.ofNat_toNat]

theorem toNat_eq {c : Char} {n : Nat} (h : c.toNat = n) : c = Char.ofNat n := by
  rw [← h, Char.ofNat_toNat]

theorem readChar_shortEscape {c : Char} {text : List Char} (h : shortEscape c = some text)
    (rest : List Char) : readChar (text ++ rest) = some (c, rest) := by
  unfold shortEscape at h
  split at h
  · next hc => obtain rfl := Option.some.inj h; subst hc; rfl
  split at h
  · next hc => obtain rfl := Option.some.inj h; subst hc; rfl
  split at h
  · next hc => obtain rfl := Option.some.inj h; rw [toNat_eq hc]; rfl
  split at h
  · next hc => obtain rfl := Option.some.inj h; rw [toNat_eq hc]; rfl
  split at h
  · next hc => obtain rfl := Option.some.inj h; subst hc; rfl
  split at h
  · next hc => obtain rfl := Option.some.inj h; subst hc; rfl
  split at h
  · next hc => obtain rfl := Option.some.inj h; subst hc; rfl
  · cases h

/-- A character that needs no escape. -/
theorem readChar_plain {c : Char} (hshort : shortEscape c = none) (hlow : ¬ c.toNat < 32)
    (rest : List Char) : readChar (c :: rest) = some (c, rest) := by
  have hslash : c ≠ '\\' := by
    rintro rfl
    cases hshort
  unfold readChar
  split
  · next h => exact absurd (List.cons.inj h).1 hslash
  · next h => exact absurd (List.cons.inj h).1 hslash
  · next h =>
      obtain ⟨rfl, rfl⟩ := List.cons.inj h
      rw [if_neg hlow]
  · next h => cases h

theorem readChar_escAscii (c : Char) (rest : List Char) :
    readChar (escAscii c ++ rest) = some (c, rest) := by
  unfold escAscii
  cases hshort : shortEscape c with
  | some text => exact readChar_shortEscape hshort rest
  | none =>
      show readChar ((if _ then _ else if _ then _ else _) ++ rest) = _
      split
      · next h => exact readChar_plain hshort (by omega) rest
      split
      · next h => exact readChar_unicodeEscape h rest
      · next h => exact readChar_pair h rest

/-- A text that does not go on with a number. -/
def Stops (text : List Char) : Prop :=
  ∀ c ∈ text.head?, c.isDigit = false ∧ c ≠ '.' ∧ c ≠ 'e'

theorem stops_nil : Stops [] := fun _ h => nomatch h

theorem stops_cons {c : Char} {rest : List Char} (h : c.isDigit = false) (hpoint : c ≠ '.')
    (hexp : c ≠ 'e') : Stops (c :: rest) := by
  intro d hd
  obtain rfl := Option.some.inj hd
  exact ⟨h, hpoint, hexp⟩

theorem readDigits_append {ds rest : List Char} (hds : ∀ c ∈ ds, c.isDigit = true)
    (hrest : ∀ c ∈ rest.head?, c.isDigit = false) : readDigits (ds ++ rest) = (ds, rest) := by
  unfold readDigits
  rw [List.span_eq_takeWhile_dropWhile, List.takeWhile_append_of_pos hds,
    List.dropWhile_append_of_pos hds]
  cases rest with
  | nil => simp
  | cons c more =>
      have hc := hrest c rfl
      rw [List.takeWhile_cons_of_neg (by simp [hc]), List.dropWhile_cons_of_neg (by simp [hc]),
        List.append_nil]

theorem isDigit_toDigits {n : Nat} : ∀ c ∈ Nat.toDigits 10 n, c.isDigit = true :=
  fun _ h => Nat.isDigit_of_mem_toDigits (by decide) (by decide) h

/-- Only zero is written with a zero in front. -/
theorem toDigits_head {n : Nat} {c : Char} {rest : List Char} (h : Nat.toDigits 10 n = '0' :: c :: rest) :
    False := by
  induction n using Nat.strongRecOn generalizing c rest with
  | _ n ih =>
      rcases Nat.lt_or_ge n 10 with hn | hn
      · rw [Nat.toDigits_of_lt_base hn] at h
        exact absurd (List.cons.inj h).2 (by simp)
      · rw [Nat.toDigits_of_base_le (by decide) hn] at h
        have hpos : 0 < n / 10 := Nat.div_pos hn (by decide)
        cases hd : Nat.toDigits 10 (n / 10) with
        | nil => exact absurd hd Nat.toDigits_ne_nil
        | cons d more =>
            rw [hd] at h
            cases more with
            | nil =>
                have hzero : d = '0' := (List.cons.inj h).1
                have hval := @Nat.ofDigitChars_ten_toDigits (n / 10)
                rw [hd, hzero] at hval
                have : (0 : Nat) = n / 10 := hval
                omega
            | cons e more =>
                have hzero : d = '0' := (List.cons.inj h).1
                exact ih (n / 10) (by omega) (hzero ▸ hd)

/-- The digits a number can start with. -/
structure Whole (ds : List Char) : Prop where
  ne_nil : ds ≠ []
  digits : ∀ c ∈ ds, c.isDigit = true
  no_zero : ∀ c more, ds ≠ '0' :: c :: more

theorem whole_toDigits (n : Nat) : Whole (Nat.toDigits 10 n) :=
  ⟨Nat.toDigits_ne_nil, isDigit_toDigits, fun _ _ h => toDigits_head h⟩

theorem readWhole_append {ds rest : List Char} (h : Whole ds)
    (hrest : ∀ c ∈ rest.head?, c.isDigit = false) : readWhole (ds ++ rest) = some (ds, rest) := by
  unfold readWhole
  rw [readDigits_append h.digits hrest]
  split
  · next heq => exact absurd (Prod.mk.inj heq).1 h.ne_nil
  · next heq => exact absurd (Prod.mk.inj heq).1 (h.no_zero _ _)
  · rfl

/-- A number that starts with digits is not negative. -/
theorem readNumber_eq {ds text : List Char} (h : Whole ds) :
    readNumber (ds ++ text) = (do
      let (ds, rest) ← readWhole (ds ++ text)
      match rest with
      | '.' :: rest =>
          match readDigits rest with
          | ([], _) => none
          | (frac, rest) =>
              let (power, rest) ← readExponent rest
              return (.real (Nat.ofDigitChars 10 (ds ++ frac) 0) (frac.length + power), rest)
      | 'e' :: _ =>
          let (power, rest) ← readExponent rest
          return (.real (Nat.ofDigitChars 10 ds 0) power, rest)
      | rest => return (.int (Nat.ofDigitChars 10 ds 0), rest)) := by
  cases ds with
  | nil => exact absurd rfl h.ne_nil
  | cons d ds =>
      have hdigit := h.digits d List.mem_cons_self
      rw [List.cons_append, readNumber.eq_2]
      intro rest hminus
      rw [(List.cons.inj hminus).1] at hdigit
      cases hdigit

theorem readNumber_nat {n : Nat} {rest : List Char} (h : Stops rest) :
    readNumber (Nat.toDigits 10 n ++ rest) = some (.int n, rest) := by
  rw [readNumber_eq (whole_toDigits n), readWhole_append (whole_toDigits n) fun c hc => (h c hc).1]
  show (match rest with
    | '.' :: rest => _
    | 'e' :: _ => _
    | rest => some (Json.int (Nat.ofDigitChars 10 (Nat.toDigits 10 n) 0 : Nat), rest)) = _
  split
  · exact absurd rfl (h '.' rfl).2.1
  · exact absurd rfl (h 'e' rfl).2.2
  · rw [Nat.ofDigitChars_ten_toDigits]

theorem readNumber_int {n : Int} {rest : List Char} (h : Stops rest) :
    readNumber ((toString n).toList ++ rest) = some (.int n, rest) := by
  cases n with
  | ofNat n =>
      have htext : (toString (Int.ofNat n)).toList = Nat.toDigits 10 n := Nat.toList_repr
      rw [htext]
      exact readNumber_nat h
  | negSucc n =>
      have htext : (toString (Int.negSucc n)).toList = '-' :: Nat.toDigits 10 (n + 1) := by
        show ("-" ++ Nat.repr (n + 1)).toList = _
        rw [String.toList_append, Nat.toList_repr]
        rfl
      rw [htext]
      show (do
        let (ds, rest) ← readWhole (Nat.toDigits 10 (n + 1) ++ rest)
        return (Json.int (-(Nat.ofDigitChars 10 ds 0 : Nat)), rest)) = _
      rw [readWhole_append (whole_toDigits _) fun c hc => (h c hc).1]
      show some (Json.int (-(Nat.ofDigitChars 10 (Nat.toDigits 10 (n + 1)) 0 : Nat)), rest) = _
      rw [Nat.ofDigitChars_ten_toDigits]
      rfl

theorem readExponent_none {rest : List Char} (h : Stops rest) : readExponent rest = some (0, rest) := by
  unfold readExponent
  split
  · exact absurd rfl (h 'e' rfl).2.2
  · rfl

/-- A number with a point, and an exponent or none. -/
theorem readNumber_point {whole frac more rest : List Char} {power : Nat} (hwhole : Whole whole)
    (hfrac : ∀ c ∈ frac, c.isDigit = true) (hne : frac ≠ [])
    (hmore : ∀ c ∈ more.head?, c.isDigit = false) (hexp : readExponent more = some (power, rest)) :
    readNumber (whole ++ '.' :: (frac ++ more)) =
      some (.real (Nat.ofDigitChars 10 (whole ++ frac) 0) (frac.length + power), rest) := by
  have hpoint : ∀ c ∈ ('.' :: (frac ++ more)).head?, c.isDigit = false := by
    intro c hc
    obtain rfl := Option.some.inj hc
    rfl
  rw [readNumber_eq hwhole, readWhole_append hwhole hpoint]
  show (match readDigits (frac ++ more) with
    | ([], _) => none
    | (frac, rest) => (do
        let (power, rest) ← readExponent rest
        return (Json.real (Nat.ofDigitChars 10 (whole ++ frac) 0) (frac.length + power), rest))) = _
  rw [readDigits_append hfrac hmore]
  cases frac with
  | nil => exact absurd rfl hne
  | cons c cs =>
      show (do
        let (power, rest) ← readExponent more
        return (Json.real (Nat.ofDigitChars 10 (whole ++ c :: cs) 0) ((c :: cs).length + power),
          rest)) = _
      rw [hexp]
      rfl

theorem readNumber_exponent {whole more rest : List Char} {power : Nat} (hwhole : Whole whole)
    (hexp : readExponent ('e' :: more) = some (power, rest)) :
    readNumber (whole ++ 'e' :: more) = some (.real (Nat.ofDigitChars 10 whole 0) power, rest) := by
  have hhead : ∀ c ∈ ('e' :: more).head?, c.isDigit = false := by
    intro c hc
    obtain rfl := Option.some.inj hc
    rfl
  rw [readNumber_eq hwhole, readWhole_append hwhole hhead]
  show (do
    let (power, rest) ← readExponent ('e' :: more)
    return (Json.real (Nat.ofDigitChars 10 whole 0) power, rest)) = _
  rw [hexp]
  rfl

theorem length_toDigits_le {n p : Nat} (hp : 0 < p) (h : n < 10 ^ p) :
    (Nat.toDigits 10 n).length ≤ p := (Nat.length_toDigits_le_iff (by decide) hp).mpr h

theorem readNumber_fixedText {d p : Nat} {rest : List Char} (hp : 0 < p) (h : Stops rest) :
    readNumber (fixedText d p ++ rest) = some (.real d p, rest) := by
  have hlt : d % 10 ^ p < 10 ^ p := Nat.mod_lt _ (Nat.pow_pos (by decide))
  have hlen := length_toDigits_le hp hlt
  unfold fixedText
  rw [List.append_assoc, List.cons_append]
  rw [readNumber_point (whole_toDigits (d / 10 ^ p)) (fun c hc => ?_) (fun hnil => ?_)
    (fun c hc => (h c hc).1) (readExponent_none h)]
  · have hvalue : Nat.ofDigitChars 10 (Nat.toDigits 10 (d / 10 ^ p) ++
        (List.replicate (p - (Nat.toDigits 10 (d % 10 ^ p)).length) '0' ++
          Nat.toDigits 10 (d % 10 ^ p))) 0 = d := by
      rw [Nat.ofDigitChars_append, Nat.ofDigitChars_ten_toDigits, Nat.ofDigitChars_append,
        Nat.ofDigitChars_replicate_zero, Nat.ofDigitChars_eq_ofDigitChars_zero,
        Nat.ofDigitChars_ten_toDigits, ← Nat.mul_assoc, ← Nat.pow_add,
        Nat.add_sub_cancel' hlen]
      exact Nat.div_add_mod d (10 ^ p)
    have hplaces : (List.replicate (p - (Nat.toDigits 10 (d % 10 ^ p)).length) '0' ++
        Nat.toDigits 10 (d % 10 ^ p)).length = p := by
      rw [List.length_append, List.length_replicate]
      omega
    rw [hvalue, hplaces, Nat.add_zero]
  · rcases List.mem_append.mp hc with hc | hc
    · rw [List.eq_of_mem_replicate hc]
      rfl
    · exact isDigit_toDigits c hc
  · exact Nat.toDigits_ne_nil (List.append_eq_nil_iff.mp hnil).2

/-- The exponent of a number that is below a ten-thousandth. -/
theorem readExponent_power {power : Nat} {rest : List Char} (h : Stops rest) :
    readExponent ('e' :: '-' :: ((if power < 10 then ['0'] else []) ++ Nat.toDigits 10 power ++ rest)) =
      some (power, rest) := by
  have hdigits : ∀ c ∈ (if power < 10 then ['0'] else []) ++ Nat.toDigits 10 power,
      c.isDigit = true := by
    intro c hc
    rcases List.mem_append.mp hc with hc | hc
    · split at hc
      · rw [List.mem_singleton.mp hc]
        rfl
      · cases hc
    · exact isDigit_toDigits c hc
  have hvalue : Nat.ofDigitChars 10 ((if power < 10 then ['0'] else []) ++ Nat.toDigits 10 power) 0 =
      power := by
    rw [Nat.ofDigitChars_append]
    split
    · exact Nat.ofDigitChars_ten_toDigits
    · exact Nat.ofDigitChars_ten_toDigits
  show (match readDigits ((if power < 10 then ['0'] else []) ++ Nat.toDigits 10 power ++ rest) with
    | ([], _) => none
    | (ds, rest) => some (Nat.ofDigitChars 10 ds 0, rest)) = _
  rw [readDigits_append hdigits fun c hc => (h c hc).1]
  split
  · next heq => exact absurd (List.append_eq_nil_iff.mp (Prod.mk.inj heq).1).2 Nat.toDigits_ne_nil
  · next heq =>
      obtain ⟨rfl, rfl⟩ := Prod.mk.inj heq
      rw [hvalue]

theorem readNumber_shortestText {d p : Nat} {rest : List Char} (hp : 0 < p) (h : Stops rest) :
    readNumber (shortestText d p ++ rest) = some (.real d p, rest) := by
  unfold shortestText
  show readNumber ((if d = 0 ∨ p - ((Nat.toDigits 10 d).length - 1) ≤ 4 then _ else _) ++ rest) = _
  by_cases hfixed : d = 0 ∨ p - ((Nat.toDigits 10 d).length - 1) ≤ 4
  · rw [if_pos hfixed]
    exact readNumber_fixedText hp h
  rw [if_neg hfixed]
  have hvalue : Nat.ofDigitChars 10 (Nat.toDigits 10 d) 0 = d := Nat.ofDigitChars_ten_toDigits
  have hwhole := whole_toDigits d
  cases hd : Nat.toDigits 10 d with
  | nil => exact absurd hd Nat.toDigits_ne_nil
  | cons c cs =>
      rw [hd] at hvalue hfixed hwhole
      cases cs with
      | nil =>
          have hexp := @readExponent_power p _ h
          have hread := readNumber_exponent hwhole hexp
          rw [hvalue] at hread
          exact hread
      | cons e more =>
          have hc := hwhole.digits c List.mem_cons_self
          have hsingle : Whole [c] :=
            ⟨List.cons_ne_nil _ _, fun x hx => List.mem_singleton.mp hx ▸ hc,
              fun _ _ heq => nomatch (List.cons.inj heq).2⟩
          have hexp := @readExponent_power (p - ((c :: e :: more).length - 1)) _ h
          have hread := readNumber_point hsingle
            (fun x hx => hwhole.digits x (List.mem_cons_of_mem _ hx)) (List.cons_ne_nil e more)
            (fun x hx => by obtain rfl := Option.some.inj hx; rfl) hexp
          have hplaces : (e :: more).length + (p - ((c :: e :: more).length - 1)) = p := by
            simp only [List.length_cons] at hfixed ⊢
            omega
          rw [hplaces] at hread
          have happ : [c] ++ e :: more = c :: e :: more := rfl
          rw [happ, hvalue] at hread
          simpa using hread

/-! ## Values -/

/-- A writer whose texts can be read. -/
structure Style.Legible (st : Style) : Prop where
  char : ∀ c rest, readChar (st.esc c ++ rest) = some (c, rest)
  head : ∀ c, ∃ d more, st.esc c = d :: more ∧ d ≠ '"'
  real : ∀ d p rest, 0 < p → Stops rest → readNumber (st.real d p ++ rest) = some (.real d p, rest)
  whole : ∀ d p, ∃ c more, st.real d p = c :: more ∧ c.isDigit = true
  comma : ∃ blanks, st.comma = ',' :: blanks ∧ ∀ c ∈ blanks, isBlank c = true
  colon : ∃ blanks, st.colon = ':' :: blanks ∧ ∀ c ∈ blanks, isBlank c = true

theorem shortEscape_head {c : Char} {text : List Char} (h : shortEscape c = some text) :
    ∃ more, text = '\\' :: more := by
  unfold shortEscape at h
  repeat' split at h
  all_goals first
    | exact ⟨_, (Option.some.inj h).symm⟩
    | cases h

theorem escAscii_head (c : Char) : ∃ d more, escAscii c = d :: more ∧ d ≠ '"' := by
  unfold escAscii
  cases hshort : shortEscape c with
  | some text =>
      obtain ⟨more, rfl⟩ := shortEscape_head hshort
      exact ⟨'\\', more, rfl, by decide⟩
  | none =>
      have hquote : c ≠ '"' := by
        rintro rfl
        cases hshort
      dsimp only
      split
      · exact ⟨c, [], rfl, hquote⟩
      split
      · exact ⟨'\\', _, rfl, by decide⟩
      · exact ⟨'\\', _, rfl, by decide⟩

theorem fixedText_head (d p : Nat) : ∃ c more, fixedText d p = c :: more ∧ c.isDigit = true := by
  unfold fixedText
  cases h : Nat.toDigits 10 (d / 10 ^ p) with
  | nil => exact absurd h Nat.toDigits_ne_nil
  | cons c more => exact ⟨c, _, rfl, isDigit_toDigits c (h ▸ List.mem_cons_self)⟩

theorem shortestText_head (d p : Nat) : ∃ c more, shortestText d p = c :: more ∧ c.isDigit = true := by
  unfold shortestText
  dsimp only
  split
  · exact fixedText_head d p
  · cases h : Nat.toDigits 10 d with
    | nil => exact absurd h Nat.toDigits_ne_nil
    | cons c cs =>
        have hc := isDigit_toDigits c (h ▸ List.mem_cons_self)
        cases cs with
        | nil => exact ⟨c, _, rfl, hc⟩
        | cons e more => exact ⟨c, _, rfl, hc⟩

theorem compact_legible : compact.Legible :=
  ⟨readChar_escAscii, escAscii_head, fun _ _ _ => readNumber_shortestText, shortestText_head,
    ⟨[], rfl, fun _ h => nomatch h⟩, ⟨[], rfl, fun _ h => nomatch h⟩⟩

mutual

/-- A value as a reader makes it: no field twice, and a digit after every point. -/
def Readable : Json → Prop
  | .real _ places => 0 < places
  | .arr items => ReadableItems items
  | .obj fields => (fields.map Prod.fst).Nodup ∧ ReadableFields fields
  | .null | .bool _ | .int _ | .str _ => True

def ReadableItems : List Json → Prop
  | [] => True
  | j :: rest => Readable j ∧ ReadableItems rest

def ReadableFields : List (String × Json) → Prop
  | [] => True
  | (_, j) :: rest => Readable j ∧ ReadableFields rest

end

section

variable {st : Style} (hst : st.Legible)

include hst

theorem readChars_quote {cs rest : List Char} {fuel : Nat} (h : cs.length < fuel) :
    readChars fuel (cs.flatMap st.esc ++ '"' :: rest) = some (cs, rest) := by
  induction cs generalizing fuel with
  | nil =>
      cases fuel with
      | zero => exact absurd h (by simp)
      | succ fuel => rfl
  | cons c cs ih =>
      cases fuel with
      | zero => exact absurd h (by simp)
      | succ fuel =>
          obtain ⟨d, more, hd, hne⟩ := hst.head c
          have hchar := hst.char c (cs.flatMap st.esc ++ '"' :: rest)
          have htext : (c :: cs).flatMap st.esc ++ '"' :: rest =
              st.esc c ++ (cs.flatMap st.esc ++ '"' :: rest) := by
            rw [List.flatMap_cons, List.append_assoc]
          rw [htext]
          rw [hd] at hchar ⊢
          rw [List.cons_append, readChars.eq_3 _ _ fun _ heq => hne (List.cons.inj heq).1]
          rw [List.cons_append] at hchar
          rw [hchar]
          show (do
            let (cs, rest) ← readChars fuel (cs.flatMap st.esc ++ '"' :: rest)
            return (c :: cs, rest)) = _
          rw [ih (Nat.lt_of_succ_lt_succ h)]
          rfl

theorem length_le_flatMap (cs : List Char) : cs.length ≤ (cs.flatMap st.esc).length := by
  induction cs with
  | nil => exact Nat.le_refl _
  | cons c cs ih =>
      obtain ⟨d, more, hd, -⟩ := hst.head c
      rw [List.flatMap_cons, List.length_append, hd, List.length_cons, List.length_cons]
      omega

/-- A string is read whole, with as much fuel as there is text. -/
theorem readChars_string (s : String) (rest : List Char) :
    readChars ((s.toList.flatMap st.esc ++ '"' :: rest).length + 1)
      (s.toList.flatMap st.esc ++ '"' :: rest) = some (s.toList, rest) := by
  refine readChars_quote hst ?_
  have h := length_le_flatMap hst s.toList
  rw [List.length_append]
  omega

end

theorem skipBlanks_append {blanks text : List Char} (h : ∀ c ∈ blanks, isBlank c = true) :
    skipBlanks (blanks ++ text) = skipBlanks text := List.dropWhile_append_of_pos h

theorem skipBlanks_cons {c : Char} {text : List Char} (h : isBlank c = false) :
    skipBlanks (c :: text) = c :: text := List.dropWhile_cons_of_neg (by simp [h])

theorem readValue_blanks {blanks text : List Char} (h : ∀ c ∈ blanks, isBlank c = true)
    (fuel : Nat) : readValue fuel (blanks ++ text) = readValue fuel text := by
  cases fuel with
  | zero => rw [readValue, readValue]
  | succ fuel => rw [readValue, readValue, skipBlanks_append h]

theorem isBlank_of_isDigit {c : Char} (h : c.isDigit = true) : isBlank c = false := by
  unfold isBlank
  simp only [Bool.or_eq_false_iff, beq_eq_false_iff_ne]
  refine ⟨⟨⟨?_, ?_⟩, ?_⟩, ?_⟩
  all_goals
    rintro rfl
    cases h

/-- What starts like a number is read as one. -/
theorem readValue_number {c : Char} {more : List Char} (h : c.isDigit = true ∨ c = '-')
    (fuel : Nat) : readValue (fuel + 1) (c :: more) = readNumber (c :: more) := by
  have hblank : isBlank c = false := by
    rcases h with h | rfl
    · exact isBlank_of_isDigit h
    · rfl
  rw [readValue, skipBlanks_cons hblank]
  split
  all_goals first
    | rfl
    | next heq =>
        rw [(List.cons.inj heq).1] at h
        rcases h with h | h
        · cases h
        · cases h

/-- The first character of a value is no blank and ends no list. -/
theorem render_head {st : Style} (hst : st.Legible) (j : Json) :
    ∃ c more, render st j = c :: more ∧ isBlank c = false ∧ c ≠ ']' := by
  cases j with
  | null => exact ⟨'n', _, rfl, rfl, by decide⟩
  | bool b =>
      cases b with
      | true => exact ⟨'t', _, rfl, rfl, by decide⟩
      | false => exact ⟨'f', _, rfl, rfl, by decide⟩
  | int n =>
      cases n with
      | ofNat n =>
          have htext : render st (.int (Int.ofNat n)) = Nat.toDigits 10 n := Nat.toList_repr
          cases h : Nat.toDigits 10 n with
          | nil => exact absurd h Nat.toDigits_ne_nil
          | cons c more =>
              have hc := isDigit_toDigits c (h ▸ List.mem_cons_self)
              refine ⟨c, more, htext.trans h, isBlank_of_isDigit hc, ?_⟩
              rintro rfl
              cases hc
      | negSucc n =>
          have htext : render st (.int (Int.negSucc n)) = '-' :: Nat.toDigits 10 (n + 1) := by
            show ("-" ++ Nat.repr (n + 1)).toList = _
            rw [String.toList_append, Nat.toList_repr]
            rfl
          exact ⟨'-', _, htext, rfl, by decide⟩
  | real d p =>
      obtain ⟨c, more, htext, hc⟩ := hst.whole d p
      refine ⟨c, more, htext, isBlank_of_isDigit hc, ?_⟩
      rintro rfl
      cases hc
  | str s => exact ⟨'"', _, rfl, rfl, by decide⟩
  | arr items => exact ⟨'[', _, rfl, rfl, by decide⟩
  | obj fields => exact ⟨'{', _, rfl, rfl, by decide⟩

theorem putField_append {before : List (String × Json)} {key : String} (j : Json)
    (h : key ∉ before.map Prod.fst) : putField before key j = before ++ [(key, j)] := by
  unfold putField
  refine if_neg fun hany => h ?_
  obtain ⟨f, hf, hkey⟩ := List.any_eq_true.mp hany
  exact List.mem_map.mpr ⟨f, hf, by simpa using hkey⟩

theorem stops_comma (st : Style) (hst : st.Legible) (text : List Char) :
    Stops (st.comma ++ text) := by
  obtain ⟨blanks, hcomma, -⟩ := hst.comma
  rw [hcomma]
  exact stops_cons rfl (by decide) (by decide)

/-- A value is read, and what follows it is left. -/
def Reads (st : Style) (j : Json) : Prop :=
  ∀ fuel rest, Stops rest → 2 * (render st j).length < fuel →
    readValue fuel (render st j ++ rest) = some (j, rest)

section

variable {st : Style} (hst : st.Legible)

include hst

theorem reads_str (s : String) : Reads st (.str s) := by
  intro fuel rest _ hfuel
  cases fuel with
  | zero => exact absurd hfuel (by omega)
  | succ fuel =>
      have htext : render st (.str s) ++ rest =
          '"' :: (s.toList.flatMap st.esc ++ '"' :: rest) := by
        rw [render, quote, List.cons_append, List.append_assoc]
        rfl
      rw [htext, readValue, skipBlanks_cons rfl]
      show (do
        let (cs, rest) ← readChars ((s.toList.flatMap st.esc ++ '"' :: rest).length + 1)
          (s.toList.flatMap st.esc ++ '"' :: rest)
        return (Json.str (String.ofList cs), rest)) = _
      rw [readChars_string hst]
      show some (Json.str (String.ofList s.toList), rest) = _
      rw [String.ofList_toList]

omit hst in
theorem reads_number {j : Json} (h : ∃ c more, render st j = c :: more ∧ (c.isDigit = true ∨ c = '-'))
    (hread : ∀ rest, Stops rest → readNumber (render st j ++ rest) = some (j, rest)) :
    Reads st j := by
  intro fuel rest hrest hfuel
  cases fuel with
  | zero => exact absurd hfuel (by omega)
  | succ fuel =>
      obtain ⟨c, more, htext, hc⟩ := h
      rw [← hread rest hrest, htext, List.cons_append, readValue_number hc]

omit hst in
theorem reads_int (n : Int) : Reads st (.int n) := by
  refine reads_number ?_ fun rest hrest => readNumber_int hrest
  cases n with
  | ofNat n =>
      have htext : render st (.int (Int.ofNat n)) = Nat.toDigits 10 n := Nat.toList_repr
      cases h : Nat.toDigits 10 n with
      | nil => exact absurd h Nat.toDigits_ne_nil
      | cons c more =>
          exact ⟨c, more, htext.trans h, .inl (isDigit_toDigits c (h ▸ List.mem_cons_self))⟩
  | negSucc n =>
      refine ⟨'-', Nat.toDigits 10 (n + 1), ?_, .inr rfl⟩
      show ("-" ++ Nat.repr (n + 1)).toList = _
      rw [String.toList_append, Nat.toList_repr]
      rfl

theorem reads_real {d p : Nat} (h : 0 < p) : Reads st (.real d p) := by
  obtain ⟨c, more, htext, hc⟩ := hst.whole d p
  exact reads_number ⟨c, more, htext, .inl hc⟩ fun rest hrest => hst.real d p rest h hrest

/-- The values of a list, when each of them is read. -/
theorem readItems_render : ∀ {items : List Json}, items ≠ [] → (∀ j ∈ items, Reads st j) →
    ∀ fuel rest, 2 * (renderItems st items).length + 1 < fuel →
      readItems fuel (renderItems st items ++ ']' :: rest) = some (items, rest)
  | [], hne, _, _, _, _ => absurd rfl hne
  | [j], _, hreads, fuel, rest, hfuel => by
      cases fuel with
      | zero => exact absurd hfuel (by omega)
      | succ fuel =>
          rw [renderItems] at hfuel ⊢
          rw [readItems, hreads j List.mem_cons_self fuel _ (stops_cons rfl (by decide) (by decide))
            (by omega)]
          show (match skipBlanks (']' :: rest) with
            | ']' :: rest => some ([j], rest)
            | ',' :: rest => (do
                let (items, rest) ← readItems fuel rest
                return (j :: items, rest))
            | _ => none) = _
          rw [skipBlanks_cons rfl]
          rfl
  | j :: k :: more, _, hreads, fuel, rest, hfuel => by
      cases fuel with
      | zero => exact absurd hfuel (by omega)
      | succ fuel =>
          obtain ⟨c, cs, hhead, -, -⟩ := render_head hst j
          have hpos : 0 < (render st j).length := by
            rw [hhead]
            exact Nat.succ_pos _
          obtain ⟨blanks, hcomma, hblanks⟩ := hst.comma
          have htext : renderItems st (j :: k :: more) ++ ']' :: rest =
              render st j ++ (',' :: (blanks ++ (renderItems st (k :: more) ++ ']' :: rest))) := by
            rw [renderItems, hcomma]
            simp only [List.append_assoc, List.cons_append]
          have hlength : (renderItems st (j :: k :: more)).length =
              (render st j).length + (blanks.length + 1) + (renderItems st (k :: more)).length := by
            rw [renderItems, hcomma, List.length_append, List.length_append, List.length_cons]
          have ih := readItems_render (List.cons_ne_nil k more)
            (fun x hx => hreads x (List.mem_cons_of_mem _ hx)) fuel rest (by omega)
          rw [htext, readItems, hreads j List.mem_cons_self fuel _
            (stops_cons rfl (by decide) (by decide)) (by omega)]
          show (match skipBlanks (',' :: (blanks ++ (renderItems st (k :: more) ++ ']' :: rest))) with
            | ']' :: rest => some ([j], rest)
            | ',' :: rest => (do
                let (items, rest) ← readItems fuel rest
                return (j :: items, rest))
            | _ => none) = _
          rw [skipBlanks_cons rfl]
          show (do
            let (items, rest) ← readItems fuel
              (blanks ++ (renderItems st (k :: more) ++ ']' :: rest))
            return (j :: items, rest)) = _
          have hskip : readItems fuel (blanks ++ (renderItems st (k :: more) ++ ']' :: rest)) =
              readItems fuel (renderItems st (k :: more) ++ ']' :: rest) := by
            cases fuel with
            | zero => rw [readItems, readItems]
            | succ fuel => rw [readItems, readItems, readValue_blanks hblanks]
          rw [hskip, ih]
          rfl

/-- The fields of an object, after those that were read before. -/
theorem readFields_render : ∀ {fields : List (String × Json)} {before : List (String × Json)},
    fields ≠ [] → ((before ++ fields).map Prod.fst).Nodup → (∀ f ∈ fields, Reads st f.2) →
    ∀ fuel rest, 2 * (renderFields st fields).length + 1 < fuel →
      readFields fuel before (renderFields st fields ++ '}' :: rest) =
        some (before ++ fields, rest)
  | [], _, hne, _, _, _, _, _ => absurd rfl hne
  | (key, j) :: more, before, _, hnodup, hreads, fuel, rest, hfuel => by
      obtain ⟨colons, hcolon, hcolons⟩ := hst.colon
      obtain ⟨blanks, hcomma, hblanks⟩ := hst.comma
      have hfresh : key ∉ before.map Prod.fst := by
        intro hkey
        rw [List.map_append, List.map_cons] at hnodup
        exact (List.disjoint_of_nodup_append hnodup) hkey List.mem_cons_self
      cases fuel with
      | zero => exact absurd hfuel (by omega)
      | succ fuel =>
          /- What follows the value: the end, or the next field. -/
          have hstart : ∀ tail, Stops tail → 2 * (render st j).length < fuel →
              readFields (fuel + 1) before (quote st key ++ st.colon ++ render st j ++ tail) =
                match skipBlanks tail with
                | '}' :: rest => some (before ++ [(key, j)], rest)
                | ',' :: rest => readFields fuel (before ++ [(key, j)]) rest
                | _ => none := by
            intro tail htail hlength
            have htext : quote st key ++ st.colon ++ render st j ++ tail =
                '"' :: (key.toList.flatMap st.esc ++
                  '"' :: (':' :: (colons ++ (render st j ++ tail)))) := by
              rw [quote, hcolon]
              simp only [List.append_assoc, List.cons_append, List.nil_append]
            rw [htext, readFields, skipBlanks_cons rfl]
            show (do
              let (cs, rest) ← readChars ((key.toList.flatMap st.esc ++
                '"' :: (':' :: (colons ++ (render st j ++ tail)))).length + 1)
                (key.toList.flatMap st.esc ++ '"' :: (':' :: (colons ++ (render st j ++ tail))))
              match skipBlanks rest with
              | ':' :: rest => (do
                  let (j, rest) ← readValue fuel rest
                  let fields := putField before (String.ofList cs) j
                  match skipBlanks rest with
                  | '}' :: rest => return (fields, rest)
                  | ',' :: rest => readFields fuel fields rest
                  | _ => none)
              | _ => none) = _
            rw [readChars_string hst]
            show (match skipBlanks (':' :: (colons ++ (render st j ++ tail))) with
              | ':' :: rest => (do
                  let (j, rest) ← readValue fuel rest
                  let fields := putField before (String.ofList key.toList) j
                  match skipBlanks rest with
                  | '}' :: rest => return (fields, rest)
                  | ',' :: rest => readFields fuel fields rest
                  | _ => none)
              | _ => none) = _
            rw [skipBlanks_cons rfl]
            show (do
              let (j, rest) ← readValue fuel (colons ++ (render st j ++ tail))
              let fields := putField before (String.ofList key.toList) j
              match skipBlanks rest with
              | '}' :: rest => return (fields, rest)
              | ',' :: rest => readFields fuel fields rest
              | _ => none) = _
            rw [readValue_blanks hcolons, hreads _ List.mem_cons_self fuel tail htail hlength]
            show (match skipBlanks tail with
              | '}' :: rest => some (putField before (String.ofList key.toList) j, rest)
              | ',' :: rest => readFields fuel (putField before (String.ofList key.toList) j) rest
              | _ => none) = _
            rw [String.ofList_toList, putField_append j hfresh]
          cases more with
          | nil =>
              rw [renderFields] at hfuel ⊢
              rw [hstart _ (stops_cons rfl (by decide) (by decide)) (by
                rw [List.length_append, List.length_append] at hfuel
                omega), skipBlanks_cons rfl]
              rfl
          | cons next more =>
              have htext : renderFields st ((key, j) :: next :: more) ++ '}' :: rest =
                  quote st key ++ st.colon ++ render st j ++
                    (',' :: (blanks ++ (renderFields st (next :: more) ++ '}' :: rest))) := by
                rw [renderFields, hcomma]
                simp only [List.append_assoc, List.cons_append]
              have hlength : (renderFields st ((key, j) :: next :: more)).length =
                  (quote st key).length + st.colon.length + (render st j).length +
                    (blanks.length + 1) + (renderFields st (next :: more)).length := by
                rw [renderFields, hcomma]
                simp only [List.length_append, List.length_cons]
              have ih := @readFields_render (next :: more) (before ++ [(key, j)])
                (List.cons_ne_nil next more) (by rwa [List.append_assoc])
                (fun x hx => hreads x (List.mem_cons_of_mem _ hx)) fuel rest (by omega)
              have hskip : readFields fuel (before ++ [(key, j)])
                    (blanks ++ (renderFields st (next :: more) ++ '}' :: rest)) =
                  readFields fuel (before ++ [(key, j)])
                    (renderFields st (next :: more) ++ '}' :: rest) := by
                cases fuel with
                | zero => rw [readFields, readFields]
                | succ fuel => rw [readFields, readFields, skipBlanks_append hblanks]
              rw [htext, hstart _ (stops_cons rfl (by decide) (by decide)) (by omega),
                skipBlanks_cons rfl]
              show readFields fuel (before ++ [(key, j)])
                (blanks ++ (renderFields st (next :: more) ++ '}' :: rest)) = _
              rw [hskip, ih, List.append_assoc]
              rfl

end

mutual

theorem reads_render {st : Style} (hst : st.Legible) : ∀ {j : Json}, Readable j → Reads st j
  | .null, _ => by
      intro fuel rest _ hfuel
      cases fuel with
      | zero => exact absurd hfuel (by omega)
      | succ fuel => rfl
  | .bool true, _ => by
      intro fuel rest _ hfuel
      cases fuel with
      | zero => exact absurd hfuel (by omega)
      | succ fuel => rfl
  | .bool false, _ => by
      intro fuel rest _ hfuel
      cases fuel with
      | zero => exact absurd hfuel (by omega)
      | succ fuel => rfl
  | .int n, _ => reads_int n
  | .real _ _, h => reads_real hst (by rwa [Readable] at h)
  | .str s, _ => reads_str hst s
  | .arr [], _ => by
      intro fuel rest _ hfuel
      cases fuel with
      | zero => exact absurd hfuel (by omega)
      | succ fuel => rfl
  | .arr (j :: more), h => by
      have hreads : ∀ k ∈ j :: more, Reads st k := reads_items hst (by rwa [Readable] at h)
      intro fuel rest _ hfuel
      cases fuel with
      | zero => exact absurd hfuel (by omega)
      | succ fuel =>
          have htext : render st (.arr (j :: more)) ++ rest =
              '[' :: (renderItems st (j :: more) ++ ']' :: rest) := by
            rw [render]
            simp only [List.append_assoc, List.cons_append, List.nil_append]
          have hlength : (render st (.arr (j :: more))).length =
              (renderItems st (j :: more)).length + 2 := by
            rw [render, List.length_cons, List.length_append]
            rfl
          obtain ⟨c, cs, hhead, hblank, hbracket⟩ := render_head hst j
          have hfirst : ∃ text, renderItems st (j :: more) ++ ']' :: rest = c :: text := by
            cases more with
            | nil => exact ⟨_, by rw [renderItems, hhead, List.cons_append]⟩
            | cons k more =>
                exact ⟨_, by rw [renderItems, hhead, List.cons_append, List.cons_append,
                  List.cons_append]⟩
          obtain ⟨text, hfirst⟩ := hfirst
          have hitems := readItems_render hst (List.cons_ne_nil j more) hreads fuel rest (by omega)
          rw [htext, readValue, skipBlanks_cons rfl]
          show (match skipBlanks (renderItems st (j :: more) ++ ']' :: rest) with
            | ']' :: rest => some (Json.arr [], rest)
            | _ => (do
                let (items, rest) ← readItems fuel (renderItems st (j :: more) ++ ']' :: rest)
                return (Json.arr items, rest))) = _
          rw [hitems, hfirst, skipBlanks_cons hblank]
          split
          · next heq => exact absurd (List.cons.inj heq).1 hbracket
          · rfl
  | .obj [], _ => by
      intro fuel rest _ hfuel
      cases fuel with
      | zero => exact absurd hfuel (by omega)
      | succ fuel => rfl
  | .obj ((key, j) :: more), h => by
      rw [Readable] at h
      have hreads := reads_fields hst h.2
      intro fuel rest _ hfuel
      cases fuel with
      | zero => exact absurd hfuel (by omega)
      | succ fuel =>
          have htext : render st (.obj ((key, j) :: more)) ++ rest =
              '{' :: (renderFields st ((key, j) :: more) ++ '}' :: rest) := by
            rw [render]
            simp only [List.append_assoc, List.cons_append, List.nil_append]
          have hlength : (render st (.obj ((key, j) :: more))).length =
              (renderFields st ((key, j) :: more)).length + 2 := by
            rw [render, List.length_cons, List.length_append]
            rfl
          have hfirst : ∃ text, renderFields st ((key, j) :: more) ++ '}' :: rest = '"' :: text := by
            cases more with
            | nil =>
                exact ⟨_, by rw [renderFields, quote, List.cons_append, List.cons_append,
                  List.cons_append]⟩
            | cons next more =>
                exact ⟨_, by rw [renderFields, quote, List.cons_append, List.cons_append,
                  List.cons_append, List.cons_append, List.cons_append]⟩
          obtain ⟨text, hfirst⟩ := hfirst
          have hfields := @readFields_render st hst ((key, j) :: more) []
            (List.cons_ne_nil (key, j) more)
            h.1 hreads fuel rest (by omega)
          rw [htext, readValue, skipBlanks_cons rfl]
          show (match skipBlanks (renderFields st ((key, j) :: more) ++ '}' :: rest) with
            | '}' :: rest => some (Json.obj [], rest)
            | _ => (do
                let (fields, rest) ← readFields fuel []
                  (renderFields st ((key, j) :: more) ++ '}' :: rest)
                return (Json.obj fields, rest))) = _
          rw [hfields, hfirst, skipBlanks_cons rfl]
          rfl

theorem reads_items {st : Style} (hst : st.Legible) :
    ∀ {items : List Json}, ReadableItems items → ∀ j ∈ items, Reads st j
  | [], _, _, hj => nomatch hj
  | j :: more, h, k, hk => by
      rw [ReadableItems] at h
      rcases List.mem_cons.mp hk with hk | hk
      · exact hk ▸ reads_render hst h.1
      · exact reads_items hst h.2 k hk

theorem reads_fields {st : Style} (hst : st.Legible) :
    ∀ {fields : List (String × Json)}, ReadableFields fields →
    ∀ f ∈ fields, Reads st f.2
  | [], _, _, hf => nomatch hf
  | (key, j) :: more, h, f, hf => by
      rw [ReadableFields] at h
      rcases List.mem_cons.mp hf with hf | hf
      · have hread : Reads st j := reads_render hst h.1
        exact hf ▸ hread
      · exact reads_fields hst h.2 f hf

end

variable {st : Style} (hst : st.Legible)

include hst

theorem loads_render {j : Json} (h : Readable j) :
    loads (String.ofList (render st j)) = some j := by
  unfold loads
  have hread := reads_render hst h (2 * (render st j).length + 1) [] stops_nil (Nat.lt_succ_self _)
  rw [List.append_nil] at hread
  rw [String.toList_ofList, hread]
  rfl

/-- Two values with one text are the same. -/
theorem render_injective {j k : Json} (hj : Readable j) (hk : Readable k)
    (h : render st j = render st k) : j = k := by
  have hread := loads_render hst hj
  rw [h, loads_render hst hk] at hread
  exact (Option.some.inj hread).symm

end Json

end Lib
