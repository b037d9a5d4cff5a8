import Mathlib.Tactic.Common

/-!
# Base64 in the alphabet for addresses

Three bytes are four symbols of six bits. A text is written without padding; before it is
read it is padded again. A reader takes the symbols of the ordinary alphabet as well, and
does not look at the bits that a last symbol has too many. So a text is canonical where it
is the one that its bytes are written as, and that text is read as its bytes.
-/

namespace Lib

namespace Base64

/-- The symbol of six bits. -/
def symbol (n : Nat) : Char :=
  if n < 26 then Char.ofNat (65 + n)
  else if n < 52 then Char.ofNat (97 + (n - 26))
  else if n < 62 then Char.ofNat (48 + (n - 52))
  else if n = 62 then '-'
  else '_'

/-- What a symbol stands for. -/
def value (c : Char) : Option Nat :=
  let n := c.toNat
  if 65 ≤ n ∧ n ≤ 90 then some (n - 65)
  else if 97 ≤ n ∧ n ≤ 122 then some (n - 97 + 26)
  else if 48 ≤ n ∧ n ≤ 57 then some (n - 48 + 52)
  else if c = '-' ∨ c = '+' then some 62
  else if c = '_' ∨ c = '/' then some 63
  else none

@[simp] theorem value_symbol {n : Nat} (h : n < 64) : value (symbol n) = some n := by
  have all : ∀ n < 64, value (symbol n) = some n := by decide
  exact all n h

theorem symbol_ne_pad {n : Nat} (h : n < 64) : symbol n ≠ '=' := by
  have all : ∀ n < 64, symbol n ≠ '=' := by decide
  exact all n h

/-- The text of some bytes, without padding. -/
def encode : List UInt8 → List Char
  | [] => []
  | [a] => [symbol (a.toNat / 4), symbol (a.toNat % 4 * 16)]
  | [a, b] =>
      [symbol (a.toNat / 4), symbol (a.toNat % 4 * 16 + b.toNat / 16), symbol (b.toNat % 16 * 4)]
  | a :: b :: c :: rest =>
      symbol (a.toNat / 4) :: symbol (a.toNat % 4 * 16 + b.toNat / 16) ::
        symbol (b.toNat % 16 * 4 + c.toNat / 64) :: symbol (c.toNat % 64) :: encode rest

/-- What makes the length of the text a multiple of four. -/
def padding (length : Nat) : List Char := List.replicate ((4 - length % 4) % 4) '='

def padded (text : List Char) : List Char := text ++ padding text.length

/-- The bytes of four symbols, of which the last may be padding at the end of a text. -/
def group (a b c d : Char) (last : Bool) : Option (List UInt8) :=
  if last && d == '=' then
    if c == '=' then do
      let x ← value a
      let y ← value b
      return [UInt8.ofNat (x * 4 + y / 16)]
    else do
      let x ← value a
      let y ← value b
      let z ← value c
      return [UInt8.ofNat (x * 4 + y / 16), UInt8.ofNat (y % 16 * 16 + z / 4)]
  else do
    let x ← value a
    let y ← value b
    let z ← value c
    let w ← value d
    return [UInt8.ofNat (x * 4 + y / 16), UInt8.ofNat (y % 16 * 16 + z / 4),
      UInt8.ofNat (z % 4 * 64 + w)]

/-- The bytes of a padded text. -/
def decode : List Char → Option (List UInt8)
  | [] => some []
  | a :: b :: c :: d :: rest => do
      let head ← group a b c d rest.isEmpty
      let tail ← decode rest
      return head ++ tail
  | _ => none

/-! ## What is written is read -/

theorem ofNat_eq {n : Nat} {a : UInt8} (h : n = a.toNat) : UInt8.ofNat n = a := by
  rw [h]
  exact UInt8.ofNat_toNat

theorem length_encode (bytes : List UInt8) :
    (encode bytes).length = (4 * bytes.length + 2) / 3 := by
  induction bytes using encode.induct with
  | case1 => rfl
  | case2 a => simp only [encode, List.length_cons, List.length_nil]
  | case3 a b => simp only [encode, List.length_cons, List.length_nil]
  | case4 a b c rest ih =>
      simp only [encode, List.length_cons, ih]
      omega

theorem padding_succ (n : Nat) : padding (n + 4) = padding n := by
  unfold padding
  rw [Nat.add_mod_right]

/-- The four symbols of three bytes. -/
theorem group_three (a b c : UInt8) (last : Bool) :
    group (symbol (a.toNat / 4)) (symbol (a.toNat % 4 * 16 + b.toNat / 16))
      (symbol (b.toNat % 16 * 4 + c.toNat / 64)) (symbol (c.toNat % 64)) last =
        some [a, b, c] := by
  have ha := a.toNat_lt
  have hb := b.toNat_lt
  have hc := c.toNat_lt
  have hpad : (symbol (c.toNat % 64) == '=') = false :=
    beq_false_of_ne (symbol_ne_pad (by omega))
  rw [group, hpad, Bool.and_false, if_neg Bool.false_ne_true, value_symbol (by omega),
    value_symbol (by omega), value_symbol (by omega), value_symbol (by omega)]
  have h1 : UInt8.ofNat (a.toNat / 4 * 4 + (a.toNat % 4 * 16 + b.toNat / 16) / 16) = a :=
    ofNat_eq (by omega)
  have h2 : UInt8.ofNat ((a.toNat % 4 * 16 + b.toNat / 16) % 16 * 16 +
      (b.toNat % 16 * 4 + c.toNat / 64) / 4) = b := ofNat_eq (by omega)
  have h3 : UInt8.ofNat ((b.toNat % 16 * 4 + c.toNat / 64) % 4 * 64 + c.toNat % 64) = c :=
    ofNat_eq (by omega)
  simp only [Option.bind_eq_bind, Option.bind_some, Option.pure_def, h1, h2, h3]

/-- The three symbols of two bytes at the end. -/
theorem group_two (a b : UInt8) :
    group (symbol (a.toNat / 4)) (symbol (a.toNat % 4 * 16 + b.toNat / 16))
      (symbol (b.toNat % 16 * 4)) '=' true = some [a, b] := by
  have ha := a.toNat_lt
  have hb := b.toNat_lt
  have hpad : (symbol (b.toNat % 16 * 4) == '=') = false :=
    beq_false_of_ne (symbol_ne_pad (by omega))
  have hlast : (true && '=' == '=') = true := by decide
  rw [group, if_pos hlast, hpad, if_neg Bool.false_ne_true, value_symbol (by omega),
    value_symbol (by omega), value_symbol (by omega)]
  have h1 : UInt8.ofNat (a.toNat / 4 * 4 + (a.toNat % 4 * 16 + b.toNat / 16) / 16) = a :=
    ofNat_eq (by omega)
  have h2 : UInt8.ofNat ((a.toNat % 4 * 16 + b.toNat / 16) % 16 * 16 +
      b.toNat % 16 * 4 / 4) = b := ofNat_eq (by omega)
  simp only [Option.bind_eq_bind, Option.bind_some, Option.pure_def, h1, h2]

/-- The two symbols of one byte at the end. -/
theorem group_one (a : UInt8) :
    group (symbol (a.toNat / 4)) (symbol (a.toNat % 4 * 16)) '=' '=' true = some [a] := by
  have ha := a.toNat_lt
  have hlast : (true && '=' == '=') = true := by decide
  rw [group, if_pos hlast, if_pos (beq_self_eq_true _), value_symbol (by omega), value_symbol (by omega)]
  have h1 : UInt8.ofNat (a.toNat / 4 * 4 + a.toNat % 4 * 16 / 16) = a := ofNat_eq (by omega)
  simp only [Option.bind_eq_bind, Option.bind_some, Option.pure_def, h1]

theorem decode_encode (bytes : List UInt8) : decode (padded (encode bytes)) = some bytes := by
  induction bytes using encode.induct with
  | case1 => rfl
  | case2 a =>
      have h : padded (encode [a]) =
        [symbol (a.toNat / 4), symbol (a.toNat % 4 * 16), '=', '='] := rfl
      rw [h, decode, List.isEmpty_nil, group_one]
      rfl
  | case3 a b =>
      have h : padded (encode [a, b]) =
        [symbol (a.toNat / 4), symbol (a.toNat % 4 * 16 + b.toNat / 16),
          symbol (b.toNat % 16 * 4), '='] := rfl
      rw [h, decode, List.isEmpty_nil, group_two]
      rfl
  | case4 a b c rest ih =>
      have h : padded (encode (a :: b :: c :: rest)) =
          symbol (a.toNat / 4) :: symbol (a.toNat % 4 * 16 + b.toNat / 16) ::
            symbol (b.toNat % 16 * 4 + c.toNat / 64) :: symbol (c.toNat % 64) ::
              padded (encode rest) := by
        simp only [padded, encode, List.length_cons, List.cons_append]
        rw [padding_succ]
      rw [h, decode, group_three, ih]
      rfl

theorem encode_injective {a b : List UInt8} (h : encode a = encode b) : a = b := by
  have hread := decode_encode a
  rw [h, decode_encode] at hread
  exact (Option.some.inj hread).symm

end Base64

end Lib
