import SecondBrain.Lib.Blanks

/-!
# Normalized contents

Two contents are the same when they differ in blanks only. The comparison is made twice, by
the program for one content and by the database for a table of them: one trims before it
makes each run of blanks one, the other after (`databaseNormalized_eq`).
-/

namespace SecondBrain.MemoryQuality

open Lib

/-- The characters `EXACT_WHITESPACE_PATTERN` and `_ASCII_WHITESPACE` list. -/
def isAsciiWhitespace (c : Char) : Bool :=
  c ∈ [' ', '\t', '\n', '\r', Char.ofNat 12, Char.ofNat 11]

def normalizeExactContent (content : String) : String :=
  String.ofList (Blanks.collapse isAsciiWhitespace ' '
    (Blanks.trim isAsciiWhitespace content.toList))

/-- `btrim(regexp_replace(content, EXACT_WHITESPACE_PATTERN, ' ', 'g'), ' \t\n\r\f\v')` -/
def databaseNormalized (content : String) : String :=
  String.ofList (Blanks.trim isAsciiWhitespace
    (Blanks.collapse isAsciiWhitespace ' ' content.toList))

theorem databaseNormalized_eq (content : String) :
    databaseNormalized content = normalizeExactContent content := by
  rw [databaseNormalized, normalizeExactContent, Blanks.trim_collapse (by decide)]

example : normalizeExactContent "\t two  words\n" = "two words" := by decide

end SecondBrain.MemoryQuality
