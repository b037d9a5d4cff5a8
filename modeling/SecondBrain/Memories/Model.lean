import SecondBrain.Lib.Calendar
import SecondBrain.Basic

/-!
# Memories as the approval service reads them

A memory's columns are addressed by name, because a proposal changes any
subset of them. The version of a memory is a hash over all the columns a
proposal can see, so an edit of any of them, or of the timestamp every edit
moves, gives another version.
-/

namespace SecondBrain

open Lib

inductive MemoryField where
  | content
  | source
  | title
  | summary
  | memoryType
  | importance
  | confidence
  | status
  | eventTime
  | expiresAt
  | supersedesId
deriving DecidableEq, Repr

def MemoryField.value : MemoryField → String
  | .content => "content"
  | .source => "source"
  | .title => "title"
  | .summary => "summary"
  | .memoryType => "memory_type"
  | .importance => "importance"
  | .confidence => "confidence"
  | .status => "status"
  | .eventTime => "event_time"
  | .expiresAt => "expires_at"
  | .supersedesId => "supersedes_id"

/-- A column's value; a score is the decimal its shortest spelling gives. -/
inductive MemoryValue where
  | text (s : Option String)
  | score (digits places : Nat)
  | time (t : Option Instant)
  | ref (id : Option Uuid)
deriving DecidableEq, Repr

/-- The spelling in `target_version`: times as `isoformat` gives them. -/
def MemoryValue.versionJson : MemoryValue → Json
  | .text none | .time none | .ref none => .null
  | .text (some s) => .str s
  | .score digits places => .real digits places
  | .time (some t) => .str (isoformat t)
  | .ref (some id) => .str id.text

/-- The spelling in a dump of an update: times end in `Z`. -/
def MemoryValue.dumpJson : MemoryValue → Json
  | .time (some t) => .str (isoBase t ++ "Z")
  | v => v.versionJson

/-- A Python value as a proposal carries it: what JSON has, and the instants and
UUIDs that an earlier validation made of it. -/
inductive PyValue where
  | none
  | bool (b : Bool)
  | int (n : Int)
  | real (digits places : Nat)
  | str (s : String)
  | list (items : List PyValue)
  | dict (fields : List (String × PyValue))
  | time (t : Instant)
  | uuid (id : Uuid)

structure Memory where
  id : Uuid
  projectId : Option Uuid
  value : MemoryField → MemoryValue
  updatedAt : Instant

def Memory.versionPayload (m : Memory) : Json :=
  .obj
    ([("id", .str m.id.text),
      ("project_id", match m.projectId with
        | none => .null
        | some id => .str id.text)] ++
      [MemoryField.content, .source, .title, .summary, .memoryType, .importance,
        .confidence, .status, .eventTime, .expiresAt, .supersedesId].map
        (fun f => (f.value, (m.value f).versionJson)) ++
      [("updated_at", .str (isoformat m.updatedAt))])

/-- A validated partial update: the fields that were set, with their values. -/
abbrev MemoryUpdate := List (MemoryField × MemoryValue)

/-- `model_dump(mode="json", exclude_unset=True)`. -/
def dumpUpdate (u : MemoryUpdate) : Json :=
  .obj (u.map fun (f, v) => (f.value, v.dumpJson))

end SecondBrain
