import Mathlib.Data.List.Basic

/-!
# Texts of code points

A text here is a sequence of code points in which half a character may stand
alone, as it does where a decoder passes the surrogates of its bytes on. Two
halves side by side are two code points; what reads escapes puts them together
(`merge`), so a text comes back from its escapes only if it has no such pair
(`merge_eq_iff`).

The decoders are those of UTF-8, UTF-16 and UTF-32, and the encoding of a JSON
document is told from its first bytes.
-/

namespace Lib

inductive CodePoint where
  | scalar (c : Char)
  /-- Half a character: `0xD800 + n`. -/
  | surrogate (n : Fin 2048)
deriving DecidableEq

abbrev Text := List CodePoint

namespace CodePoint

def toNat : CodePoint → Nat
  | .scalar c => c.toNat
  | .surrogate n => 0xD800 + n

def ofNat (n : Nat) : Option CodePoint :=
  if n.isValidChar then some (.scalar (Char.ofNat n))
  else if h : n - 0xD800 < 2048 then some (.surrogate ⟨n - 0xD800, h⟩)
  else none

def isHigh : CodePoint → Bool
  | .scalar _ => false
  | .surrogate n => decide (n.val < 1024)

def isLow : CodePoint → Bool
  | .scalar _ => false
  | .surrogate n => decide (1024 ≤ n.val)

/-- The character of two halves. -/
def join (high low : Nat) : CodePoint :=
  .scalar (Char.ofNat (0x10000 + (high - 0xD800) * 1024 + (low - 0xDC00)))

/-- Two halves of one character become the character. -/
def merge : Text → Text
  | [] => []
  | [a] => [a]
  | a :: b :: rest =>
      if a.isHigh && b.isLow then join a.toNat b.toNat :: merge rest else a :: merge (b :: rest)

/-- Two halves of one character stand side by side. -/
def hasPair : Text → Bool
  | [] => false
  | [_] => false
  | a :: b :: rest => a.isHigh && b.isLow || hasPair (b :: rest)

/-- A text of characters. -/
def ofChars (cs : List Char) : Text := cs.map .scalar

theorem length_merge_le (text : Text) : (merge text).length ≤ text.length := by
  fun_induction merge text with
  | case1 => exact Nat.le_refl _
  | case2 => exact Nat.le_refl _
  | case3 a b rest h ih => exact Nat.succ_le_succ (Nat.le_succ_of_le ih)
  | case4 a b rest h ih => exact Nat.succ_le_succ ih

/-- A text is what its halves make exactly where no two of them make a character. -/
theorem merge_eq_iff (text : Text) : merge text = text ↔ hasPair text = false := by
  fun_induction merge text with
  | case1 => exact iff_of_true rfl rfl
  | case2 => exact iff_of_true rfl rfl
  | case3 a b rest h ih =>
      rw [hasPair, h, Bool.true_or]
      refine iff_of_false (fun hsame => ?_) nofun
      have hlength := congrArg List.length hsame
      have := length_merge_le rest
      simp only [List.length_cons] at hlength
      omega
  | case4 a b rest h ih =>
      rw [Bool.not_eq_true] at h
      rw [hasPair, h, Bool.false_or, List.cons.injEq, ← ih]
      exact and_iff_right rfl

theorem merge_ofChars (cs : List Char) : merge (ofChars cs) = ofChars cs := by
  rw [merge_eq_iff]
  induction cs with
  | nil => rfl
  | cons c cs ih =>
      cases cs with
      | nil => rfl
      | cons d cs => exact ih

end CodePoint

/-! ## Encodings -/

namespace Encoding

open CodePoint

/-- How many bytes follow the first one of a character, its own bits, and the
least code point that is spelled with so many. -/
def lead (n : Nat) : Option (Nat × Nat × Nat) :=
  if n < 0x80 then some (0, n, 0)
  else if 0xC0 ≤ n ∧ n < 0xE0 then some (1, n - 0xC0, 0x80)
  else if 0xE0 ≤ n ∧ n < 0xF0 then some (2, n - 0xE0, 0x800)
  else if 0xF0 ≤ n ∧ n < 0xF8 then some (3, n - 0xF0, 0x10000)
  else none

/-- UTF-8, with surrogates passed on. After the first byte of a character the
state says how many more there are, the bits so far and the least code point. -/
def utf8From : Option (Nat × Nat × Nat) → List UInt8 → Option Text
  | none, [] => some []
  | some _, [] => none
  | none, b :: rest =>
      match lead b.toNat with
      | none => none
      | some (0, n, _) => (utf8From none rest).bind fun text => (ofNat n).map (· :: text)
      | some (more + 1, n, least) => utf8From (some (more, n, least)) rest
  | some (more, n, least), b :: rest =>
      if 0x80 ≤ b.toNat ∧ b.toNat < 0xC0 then
        let n := n * 64 + (b.toNat - 0x80)
        match more with
        | 0 =>
            if n < least then none
            else (utf8From none rest).bind fun text => (ofNat n).map (· :: text)
        | more + 1 => utf8From (some (more, n, least)) rest
      else none

def utf8 (bytes : List UInt8) : Option Text := utf8From none bytes

/-- UTF-16: the units are joined where they are halves of a character. -/
def units (big : Bool) : List UInt8 → Option Text
  | [] => some []
  | [_] => none
  | a :: b :: rest =>
      let n := if big then a.toNat * 256 + b.toNat else b.toNat * 256 + a.toNat
      (units big rest).bind fun text => (ofNat n).map (· :: text)

def utf16 (big : Bool) (bytes : List UInt8) : Option Text := (units big bytes).map merge

def utf32 (big : Bool) : List UInt8 → Option Text
  | [] => some []
  | a :: b :: c :: d :: rest =>
      let n :=
        if big then ((a.toNat * 256 + b.toNat) * 256 + c.toNat) * 256 + d.toNat
        else ((d.toNat * 256 + c.toNat) * 256 + b.toNat) * 256 + a.toNat
      (utf32 big rest).bind fun text => (ofNat n).map (· :: text)
  | _ => none

/-- The text of a JSON document: by its byte order mark, else by where its first
bytes are zero. -/
def decodeJson (bytes : List UInt8) : Option Text :=
  match bytes with
  | 0 :: 0 :: 0xFE :: 0xFF :: rest => utf32 true rest
  | 0xFF :: 0xFE :: 0 :: 0 :: rest => utf32 false rest
  | 0xFE :: 0xFF :: rest => utf16 true rest
  | 0xFF :: 0xFE :: rest => utf16 false rest
  | 0xEF :: 0xBB :: 0xBF :: rest => utf8 rest
  | a :: b :: c :: d :: _ =>
      if a = 0 then (if b = 0 then utf32 true bytes else utf16 true bytes)
      else if b = 0 then
        (if c = 0 ∧ d = 0 then utf32 false bytes else utf16 false bytes)
      else utf8 bytes
  | [a, b] =>
      if a = 0 then utf16 true bytes
      else if b = 0 then utf16 false bytes
      else utf8 bytes
  | _ => utf8 bytes

/-- The bytes of a text in ASCII. -/
def ascii (cs : List Char) : List UInt8 := cs.map fun c => UInt8.ofNat c.toNat

theorem utf8_ascii {cs : List Char} (h : ∀ c ∈ cs, c.toNat < 128) :
    utf8 (ascii cs) = some (ofChars cs) := by
  induction cs with
  | nil => rfl
  | cons c cs ih =>
      have hc := h c List.mem_cons_self
      have hbyte : (UInt8.ofNat c.toNat).toNat = c.toNat := by
        rw [UInt8.toNat_ofNat', Nat.mod_eq_of_lt (Nat.lt_trans hc (by decide))]
      have hlead : lead c.toNat = some (0, c.toNat, 0) := if_pos hc
      have hscalar : CodePoint.ofNat c.toNat = some (.scalar c) := by
        have hvalid : c.toNat.isValidChar := c.valid
        rw [CodePoint.ofNat, if_pos hvalid, Char.ofNat_toNat]
      have hrest := ih fun d hd => h d (List.mem_cons_of_mem c hd)
      show (match lead (UInt8.ofNat c.toNat).toNat with
        | none => none
        | some (0, n, _) => (utf8From none (ascii cs)).bind fun text =>
            (CodePoint.ofNat n).map (· :: text)
        | some (more + 1, n, least) => utf8From (some (more, n, least)) (ascii cs)) = _
      rw [hbyte, hlead]
      show (utf8 (ascii cs)).bind _ = _
      rw [hrest, Option.bind_some, hscalar]
      rfl

end Encoding

end Lib
