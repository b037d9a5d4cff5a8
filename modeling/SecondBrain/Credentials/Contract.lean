import Mathlib.Tactic.Common

/-!
# Credential references

A reference names a secret in the credential store and says nothing else about
it. Both providers accept one form of reference only.
-/

namespace SecondBrain

/-- `_REFERENCE_PATTERN`. -/
def referencePattern : List (Char → Bool) :=
  let hex (c : Char) : Bool := decide (('0' ≤ c ∧ c ≤ '9') ∨ ('a' ≤ c ∧ c ≤ 'f'))
  let exactly (s : String) : List (Char → Bool) := s.toList.map fun c => (· == c)
  exactly "sbcred:v1:" ++ List.replicate 8 hex ++ exactly "-" ++ List.replicate 4 hex ++
    exactly "-4" ++ List.replicate 3 hex ++ exactly "-" ++
    [fun c => "89ab".toList.contains c] ++ List.replicate 3 hex ++ exactly "-" ++
    List.replicate 12 hex

def validCredentialReference (value : String) : Bool :=
  value.toList.length == referencePattern.length &&
    (referencePattern.zip value.toList).all fun (holds, c) => holds c

end SecondBrain
