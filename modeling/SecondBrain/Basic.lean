import SecondBrain.Lib.Json
import SecondBrain.Lib.Outcome

/-!
# Identifiers, instants and database errors

What every table shares. An identifier is a 128-bit UUID; its text is the
spelling the keys and hashes are built from. An instant is a number of
microseconds from the epoch, so that comparing two of them is comparing
integers, and every timestamp the code reads is aware and in UTC.
-/

namespace SecondBrain

open Lib

abbrev Uuid := BitVec 128

instance : LawfulBEq Uuid := inferInstance

/-- Microseconds since 1970-01-01T00:00:00 UTC. -/
abbrev Instant := Int

abbrev Duration := Int

def seconds (n : Int) : Duration := n * 1000000

def minutes (n : Int) : Duration := seconds (n * 60)

def hours (n : Int) : Duration := minutes (n * 60)

def days (n : Int) : Duration := hours (n * 24)

/-! ## Texts -/

/-- The last `width` hexadecimal digits of `n`, most significant first. -/
def hexDigits : Nat → Nat → List Char
  | 0, _ => []
  | width + 1, n => hexDigits width (n / 16) ++ [(n % 16).digitChar]

@[simp] theorem length_hexDigits (width n : Nat) :
    (hexDigits width n).length = width := by
  induction width generalizing n with
  | zero => rfl
  | succ width ih => rw [hexDigits, List.length_append, ih]; rfl

theorem digitChar_inj {a b : Nat} (ha : a < 16) (hb : b < 16)
    (h : a.digitChar = b.digitChar) : a = b := by
  have all : ∀ a < 16, ∀ b < 16, a.digitChar = b.digitChar → a = b := by decide
  exact all a ha b hb h

theorem hexDigits_inj {width a b : Nat} (ha : a < 16 ^ width) (hb : b < 16 ^ width)
    (h : hexDigits width a = hexDigits width b) : a = b := by
  induction width generalizing a b with
  | zero => omega
  | succ width ih =>
      rw [hexDigits, hexDigits] at h
      obtain ⟨hhigh, hlow⟩ := List.append_inj' h rfl
      have hlow := digitChar_inj (Nat.mod_lt _ (by decide)) (Nat.mod_lt _ (by decide))
        (List.cons.inj hlow).1
      have hhigh := ih (by omega) (by omega) hhigh
      omega

/-- `str` of a UUID: its 32 digits in groups of 8, 4, 4, 4 and 12. -/
def Uuid.chars (id : Uuid) : List Char :=
  let hex := hexDigits 32 id.toNat
  hex.take 8 ++ '-' :: ((hex.drop 8).take 4 ++ '-' :: ((hex.drop 12).take 4 ++
    '-' :: ((hex.drop 16).take 4 ++ '-' :: hex.drop 20)))

def Uuid.text (id : Uuid) : String := String.ofList id.chars

@[simp] theorem Uuid.length_chars (id : Uuid) : id.chars.length = 36 := by
  simp [Uuid.chars]

theorem groups_append (l : List Char) :
    l.take 8 ++ ((l.drop 8).take 4 ++ ((l.drop 12).take 4 ++
      ((l.drop 16).take 4 ++ l.drop 20))) = l := by
  have glue : ∀ n k : Nat, (l.drop n).take k ++ l.drop (n + k) = l.drop n := by
    intro n k
    rw [← List.drop_drop, List.take_append_drop]
  rw [glue 16 4, glue 12 4, glue 8 4, List.take_append_drop]

theorem Uuid.chars_injective {a b : Uuid} (h : a.chars = b.chars) : a = b := by
  have hdigits : hexDigits 32 a.toNat = hexDigits 32 b.toNat := by
    rw [Uuid.chars, Uuid.chars] at h
    obtain ⟨h1, h⟩ := List.append_inj h (by simp)
    obtain ⟨h2, h⟩ := List.append_inj (List.cons.inj h).2 (by simp)
    obtain ⟨h3, h⟩ := List.append_inj (List.cons.inj h).2 (by simp)
    obtain ⟨h4, h⟩ := List.append_inj (List.cons.inj h).2 (by simp)
    have h5 := (List.cons.inj h).2
    rw [← groups_append (hexDigits 32 a.toNat), h1, h2, h3, h4, h5, groups_append]
  exact BitVec.eq_of_toNat_eq
    (hexDigits_inj (by simpa using a.isLt) (by simpa using b.isLt) hdigits)

theorem Uuid.text_injective {a b : Uuid} (h : a.text = b.text) : a = b :=
  Uuid.chars_injective (String.ofList_injective h)

/-- A text column cannot hold this character. -/
def hasNul (s : String) : Bool := s.toList.contains (Char.ofNat 0)

/-! ## Errors -/

/-- How the database refuses a statement: a constraint, a value a column type
cannot hold, or a failure of the server or the connection. -/
inductive DatabaseError where
  | integrity
  | data
  | operational
deriving DecidableEq, Repr

end SecondBrain
