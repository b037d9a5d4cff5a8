import SecondBrain.Lib.Schema
import SecondBrain.AgentTools.Schemas
import SecondBrain.Calendar.Model
import SecondBrain.Memories.Model

/-!
# Partial updates of a memory

An update names any of the fields and gives each a value: texts are trimmed and bounded, a
score is from 0 to 1, a time has an offset, and what every memory has cannot be taken away.
What is validated is dumped as Python values so that it is validated as the same again.
-/

namespace SecondBrain

open Lib

open Calendar (strip isSpace)

open AgentTools (isWhiteSpace memoryTypes memoryStatuses)

namespace MemoryField

def all : List MemoryField :=
  [.content, .source, .title, .summary, .memoryType, .importance, .confidence, .status,
    .eventTime, .expiresAt, .supersedesId]

theorem mem_all (f : MemoryField) : f ∈ all := by cases f <;> decide

theorem value_injective {f g : MemoryField} (h : f.value = g.value) : f = g := by
  revert h
  cases f <;> cases g <;> decide

/-- The fields that `require_update_field` does not let be null. -/
def isRequired : MemoryField → Bool
  | .content | .memoryType | .importance | .confidence | .status => true
  | _ => false

end MemoryField

/-- How lax validation reads what is not of the type of the field; a time without an offset
is nothing. -/
structure Coercions where
  float : PyValue → Option Knowledge.Score
  datetime : PyValue → Option Instant
  uuid : PyValue → Option Uuid

/-! ## Values -/

/-- A text that is trimmed and then has at least one character. -/
def readText (limit : Nat) : PyValue → Option MemoryValue
  | .none => some (.text none)
  | .str s =>
      let text := Schema.trim isWhiteSpace s
      if 1 ≤ text.length ∧ text.length ≤ limit then some (.text (some text)) else none
  | _ => none

/-- `trim_update_text`: a text of blanks only is no text. -/
def readTrimmed (limit : Nat) : PyValue → Option MemoryValue
  | .none => some (.text none)
  | .str s =>
      let text := strip s
      if text = "" then some (.text none)
      else if text.length ≤ limit then some (.text (some text)) else none
  | _ => none

def readLiteral (values : List String) : PyValue → Option MemoryValue
  | .none => some (.text none)
  | .str s => if s ∈ values then some (.text (some s)) else none
  | _ => none

/-- Null is no score, which both fields of the kind would be refused for. -/
def readScore (c : Coercions) : PyValue → Option MemoryValue
  | .none => none
  | .real digits places => if digits ≤ 10 ^ places then some (.score digits places) else none
  | v => (c.float v).map fun s => .score s.digits s.places

/-- `require_update_timezone` is part of the field. -/
def readTime (c : Coercions) : PyValue → Option MemoryValue
  | .none => some (.time none)
  | .time t => some (.time (some t))
  | v => (c.datetime v).map fun t => .time (some t)

def readRef (c : Coercions) : PyValue → Option MemoryValue
  | .none => some (.ref none)
  | .uuid id => some (.ref (some id))
  | v => (c.uuid v).map fun id => .ref (some id)

def MemoryField.read (c : Coercions) : MemoryField → PyValue → Option MemoryValue
  | .content => readText 16000
  | .source => readText 100
  | .title => readTrimmed 255
  | .summary => readTrimmed 4000
  | .memoryType => readLiteral memoryTypes
  | .importance => readScore c
  | .confidence => readScore c
  | .status => readLiteral memoryStatuses
  | .eventTime => readTime c
  | .expiresAt => readTime c
  | .supersedesId => readRef c

def MemoryValue.isNull : MemoryValue → Bool
  | .text none | .time none | .ref none => true
  | _ => false

/-- The value of a field that was set. -/
def MemoryField.check (c : Coercions) (f : MemoryField) (v : PyValue) : Option MemoryValue :=
  (f.read c v).filter fun w => !(f.isRequired && w.isNull)

/-- `model_dump(mode="python")`, of one value. -/
def MemoryValue.python : MemoryValue → PyValue
  | .text none | .time none | .ref none => .none
  | .text (some s) => .str s
  | .score digits places => .real digits places
  | .time (some t) => .time t
  | .ref (some id) => .uuid id

/-! ## Updates -/

def fieldValue (fields : List (String × PyValue)) (f : MemoryField) : Option PyValue :=
  (fields.find? fun x => x.1 == f.value).map (·.2)

/-- The fields that are set, in the order of the model. -/
def readFields (c : Coercions) (fields : List (String × PyValue)) :
    List MemoryField → Option MemoryUpdate
  | [] => some []
  | f :: rest =>
      match fieldValue fields f with
      | none => readFields c fields rest
      | some v => do
          let w ← f.check c v
          let u ← readFields c fields rest
          return (f, w) :: u

/-- `MemoryUpdate.model_validate`. -/
def updateOf (c : Coercions) : PyValue → Option MemoryUpdate
  | .dict fields =>
      if fields.all fun x => MemoryField.all.any fun f => f.value == x.1 then
        (readFields c fields MemoryField.all).filter fun u => !u.isEmpty
      else none
  | _ => none

/-- `model_dump(mode="python", exclude_unset=True)`. -/
def dumpPython (u : MemoryUpdate) : List (String × PyValue) :=
  u.map fun (f, v) => (f.value, v.python)

/-! ## What is validated stays valid -/

section

variable {c : Coercions} {f : MemoryField} {v : PyValue} {w : MemoryValue} {limit : Nat}

theorem strip_strip (s : String) : strip (strip s) = strip s := Schema.trim_trim s

theorem readText_python (h : readText limit v = some w) : readText limit w.python = some w := by
  cases v with
  | none =>
      cases h
      rfl
  | str s =>
      simp only [readText] at h
      split at h
      · next hin =>
          cases h
          simp only [MemoryValue.python, readText]
          rw [Schema.trim_trim, if_pos hin]
      · cases h
  | _ => cases h

theorem readTrimmed_python (h : readTrimmed limit v = some w) :
    readTrimmed limit w.python = some w := by
  cases v with
  | none =>
      cases h
      rfl
  | str s =>
      simp only [readTrimmed] at h
      split at h
      · cases h
        rfl
      · next hne =>
          split at h
          · next hle =>
              cases h
              simp only [MemoryValue.python, readTrimmed]
              rw [strip_strip, if_neg hne, if_pos hle]
          · cases h
  | _ => cases h

theorem readLiteral_python {values : List String} (h : readLiteral values v = some w) :
    readLiteral values w.python = some w := by
  cases v with
  | none =>
      cases h
      rfl
  | str s =>
      simp only [readLiteral] at h
      split at h
      · next hin =>
          cases h
          simp only [MemoryValue.python, readLiteral]
          rw [if_pos hin]
      · cases h
  | _ => cases h

theorem readScore_python (h : readScore c v = some w) : readScore c w.python = some w := by
  have hscore : ∀ s : Knowledge.Score,
      readScore c (MemoryValue.score s.digits s.places).python =
        some (.score s.digits s.places) := fun s => if_pos s.le_one
  cases v with
  | none => cases h
  | real digits places =>
      simp only [readScore] at h
      split at h
      · next hle =>
          cases h
          exact if_pos hle
      · cases h
  | _ =>
      obtain ⟨s, -, rfl⟩ := Option.map_eq_some_iff.mp h
      exact hscore s

theorem readTime_python (h : readTime c v = some w) : readTime c w.python = some w := by
  cases v with
  | none | time t =>
      cases h
      rfl
  | _ =>
      obtain ⟨t, -, rfl⟩ := Option.map_eq_some_iff.mp h
      rfl

theorem readRef_python (h : readRef c v = some w) : readRef c w.python = some w := by
  cases v with
  | none | uuid id =>
      cases h
      rfl
  | _ =>
      obtain ⟨id, -, rfl⟩ := Option.map_eq_some_iff.mp h
      rfl

/-! The readers tell the kinds of columns apart. -/

theorem readText_some (h : readText limit v = some w) : ∃ t, w = .text t := by
  cases v with
  | none => exact ⟨none, (Option.some.inj h).symm⟩
  | str s =>
      simp only [readText] at h
      split at h
      · exact ⟨_, (Option.some.inj h).symm⟩
      · cases h
  | _ => cases h

theorem readTrimmed_some (h : readTrimmed limit v = some w) : ∃ t, w = .text t := by
  cases v with
  | none => exact ⟨none, (Option.some.inj h).symm⟩
  | str s =>
      simp only [readTrimmed] at h
      split at h
      · exact ⟨none, (Option.some.inj h).symm⟩
      · split at h
        · exact ⟨_, (Option.some.inj h).symm⟩
        · cases h
  | _ => cases h

theorem readLiteral_some {values : List String} (h : readLiteral values v = some w) :
    ∃ t, w = .text t := by
  cases v with
  | none => exact ⟨none, (Option.some.inj h).symm⟩
  | str s =>
      simp only [readLiteral] at h
      split at h
      · exact ⟨_, (Option.some.inj h).symm⟩
      · cases h
  | _ => cases h

theorem readScore_some (h : readScore c v = some w) : ∃ digits places, w = .score digits places := by
  cases v with
  | none => cases h
  | real digits places =>
      simp only [readScore] at h
      split at h
      · exact ⟨digits, places, (Option.some.inj h).symm⟩
      · cases h
  | _ =>
      obtain ⟨s, -, rfl⟩ := Option.map_eq_some_iff.mp h
      exact ⟨_, _, rfl⟩

theorem read_python (h : f.read c v = some w) : f.read c w.python = some w := by
  cases f with
  | content | source => exact readText_python h
  | title | summary => exact readTrimmed_python h
  | memoryType | status => exact readLiteral_python h
  | importance | confidence => exact readScore_python h
  | eventTime | expiresAt => exact readTime_python h
  | supersedesId => exact readRef_python h

theorem check_python (h : f.check c v = some w) : f.check c w.python = some w := by
  obtain ⟨hread, hkept⟩ := Option.filter_eq_some_iff.mp h
  exact Option.filter_eq_some_iff.mpr ⟨read_python hread, hkept⟩

variable {fields given : List (String × PyValue)} {fs : List MemoryField} {u : MemoryUpdate}

/-- The value an update gives a field. -/
def updated (u : MemoryUpdate) (f : MemoryField) : Option MemoryValue :=
  (u.find? fun x => x.1 == f).map (·.2)

theorem updated_cons_self : updated ((f, w) :: u) f = some w := by
  simp [updated]

theorem updated_cons_of_ne {g : MemoryField} (h : g ≠ f) :
    updated ((f, w) :: u) g = updated u g := by
  simp [updated, Ne.symm h]

theorem readFields_keys (h : readFields c fields fs = some u) :
    u.map (·.1) = fs.filter fun f => (fieldValue fields f).isSome := by
  induction fs generalizing u with
  | nil =>
      cases h
      rfl
  | cons f rest ih =>
      rw [readFields] at h
      cases hv : fieldValue fields f with
      | none =>
          rw [hv] at h
          rw [ih h, List.filter_cons_of_neg (by simp [hv])]
      | some v =>
          rw [hv] at h
          obtain ⟨w, -, h⟩ := Option.bind_eq_some_iff.mp h
          obtain ⟨u', hu', h⟩ := Option.bind_eq_some_iff.mp h
          cases h
          rw [List.map_cons, ih hu', List.filter_cons_of_pos (by simp [hv])]

/-- Each field that is set was checked. -/
theorem readFields_mem (h : readFields c fields fs = some u) (hmem : (f, w) ∈ u) :
    ∃ v, fieldValue fields f = some v ∧ f.check c v = some w := by
  induction fs generalizing u with
  | nil =>
      cases h
      cases hmem
  | cons g rest ih =>
      rw [readFields] at h
      cases hv : fieldValue fields g with
      | none =>
          rw [hv] at h
          exact ih h hmem
      | some v =>
          rw [hv] at h
          obtain ⟨w', hcheck, h⟩ := Option.bind_eq_some_iff.mp h
          obtain ⟨u', hu', h⟩ := Option.bind_eq_some_iff.mp h
          cases h
          rcases List.mem_cons.mp hmem with heq | hmem
          · cases heq
            exact ⟨v, hv, hcheck⟩
          · exact ih hu' hmem

/-- Whatever gives each field the value it was read as is read as the same. -/
theorem readFields_python (h : readFields c fields fs = some u) (hnodup : fs.Nodup)
    (hgiven : ∀ f ∈ fs, fieldValue given f = (updated u f).map (·.python)) :
    readFields c given fs = some u := by
  induction fs generalizing u with
  | nil => exact h
  | cons f rest ih =>
      obtain ⟨hnew, hrest⟩ := List.nodup_cons.mp hnodup
      have hf := hgiven f List.mem_cons_self
      rw [readFields] at h ⊢
      cases hv : fieldValue fields f with
      | none =>
          rw [hv] at h
          have hnone : updated u f = none := by
            have hkeys := readFields_keys h
            rw [updated, Option.map_eq_none_iff, List.find?_eq_none]
            intro x hx heq
            have hmem : x.1 ∈ u.map (·.1) := List.mem_map_of_mem hx
            rw [hkeys, beq_iff_eq.mp heq] at hmem
            exact hnew (List.mem_filter.mp hmem).1
          rw [hf, hnone]
          exact ih h hrest fun g hg => hgiven g (List.mem_cons_of_mem _ hg)
      | some v =>
          rw [hv] at h
          obtain ⟨w, hcheck, h⟩ := Option.bind_eq_some_iff.mp h
          obtain ⟨u', hu', h⟩ := Option.bind_eq_some_iff.mp h
          cases h
          rw [hf, updated_cons_self]
          have htail := ih hu' hrest fun g hg => by
            have hne : g ≠ f := fun heq => hnew (heq ▸ hg)
            rw [hgiven g (List.mem_cons_of_mem _ hg), updated_cons_of_ne hne]
          simp only [Option.map_some, check_python hcheck, htail]
          rfl

theorem fieldValue_dumpPython (u : MemoryUpdate) (f : MemoryField) :
    fieldValue (dumpPython u) f = (updated u f).map (·.python) := by
  have hvalue : ∀ x : MemoryField × MemoryValue, (x.1.value == f.value) = (x.1 == f) := by
    intro x
    rw [Bool.eq_iff_iff, beq_iff_eq, beq_iff_eq]
    exact ⟨MemoryField.value_injective, fun h => by rw [h]⟩
  induction u with
  | nil => rfl
  | cons x rest ih =>
      have hx := hvalue x
      obtain ⟨g, w⟩ := x
      by_cases hg : g = f
      · subst hg
        simp [fieldValue, dumpPython, updated]
      · have hne : (g.value == f.value) = false := by
          rw [hx]
          exact beq_false_of_ne hg
        have hfield : fieldValue (dumpPython ((g, w) :: rest)) f = fieldValue (dumpPython rest) f := by
          simp only [fieldValue, dumpPython, List.map_cons, List.find?_cons, hne]
        rw [hfield, ih, updated_cons_of_ne (Ne.symm hg)]

theorem updateOf_some (h : updateOf c v = some u) : ∃ fields, v = .dict fields ∧
    readFields c fields MemoryField.all = some u ∧ u ≠ [] := by
  cases v with
  | dict fields =>
      rw [updateOf] at h
      split at h
      · obtain ⟨hread, hne⟩ := Option.filter_eq_some_iff.mp h
        exact ⟨fields, rfl, hread, by simpa using hne⟩
      · cases h
  | _ => cases h

/-- An update is read from its dump as it is. -/
theorem updateOf_dumpPython (h : updateOf c v = some u) :
    updateOf c (.dict (dumpPython u)) = some u := by
  obtain ⟨fields, -, hread, hne⟩ := updateOf_some h
  have hknown : (dumpPython u).all (fun x => MemoryField.all.any fun f => f.value == x.1) =
      true := by
    rw [List.all_eq_true]
    intro x hx
    obtain ⟨⟨f, w⟩, -, rfl⟩ := List.mem_map.mp hx
    exact List.any_eq_true.mpr ⟨f, f.mem_all, beq_self_eq_true _⟩
  rw [updateOf, if_pos hknown, readFields_python hread (by decide) fun f _ =>
    fieldValue_dumpPython u f, Option.filter_some, if_pos (by simpa using hne)]

end

end SecondBrain
