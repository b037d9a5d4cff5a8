import Mathlib.Algebra.Group.Action.Defs
import Mathlib.Algebra.Order.Ring.Nat
import Mathlib.Data.List.DropRight
import SecondBrain.Lib.Json

/-!
# Schemas that read what they wrote

A reader validates a value and gives the dump of what it stands for. It is stable where it
takes its own dumps and gives them back: then a value that was validated, stored and read
again is validated to the same. A model reads each of its fields, and has no others; the
combinators keep stability (`stable_model`) and a bound on the stored text of what they
give (`takes_model`).
-/

namespace Lib

namespace Schema

open Json

/-- Strict validation, then the dump of the result. -/
abbrev Reader := Json → Option Json

/-- A dump is valid, as what it was dumped from. -/
def Stable (r : Reader) : Prop := ∀ j n, r j = some n → r n = some n

/-- The stored text of a dump takes at most `size` octets. -/
def Takes (size : Nat) (r : Reader) : Prop := ∀ j n, r j = some n → n.storedLen ≤ size

/-- A text column or a `jsonb` column stores every dump. -/
def Clean (r : Reader) : Prop := ∀ j n, r j = some n → n.storable = true

theorem Takes.mono {r : Reader} {a b : Nat} (h : Takes a r) (hle : a ≤ b) : Takes b r :=
  fun j n hn => Nat.le_trans (h j n hn) hle

/-! ## Scalars -/

/-- A text without what is trimmed off its ends. -/
def trim (blank : Char → Bool) (s : String) : String :=
  String.ofList ((s.toList.dropWhile blank).rdropWhile blank)

/-- One of some texts. -/
def literal (values : List String) : Reader
  | .str s => if values.contains s then some (.str s) else none
  | _ => none

def boundedInt (low high : Int) : Reader
  | .int n => if low ≤ n ∧ n ≤ high then some (.int n) else none
  | _ => none

/-- A text that is trimmed, and then has at least one character and at most `limit`. -/
def boundedText (blank : Char → Bool) (limit : Nat) : Reader
  | .str s =>
      if 1 ≤ (trim blank s).length ∧ (trim blank s).length ≤ limit then
        some (.str (trim blank s))
      else none
  | _ => none

def nullable (r : Reader) : Reader
  | .null => some .null
  | j => r j

/-- A reader with a check of the value it gives. -/
def checked (r : Reader) (check : Json → Bool) : Reader := fun j =>
  (r j).bind fun n => if check n then some n else none

variable {blank : Char → Bool}

theorem trim_trim (s : String) : trim blank (trim blank s) = trim blank s := by
  rw [trim, trim, String.toList_ofList]
  have hends : ((s.toList.dropWhile blank).rdropWhile blank).dropWhile blank =
      (s.toList.dropWhile blank).rdropWhile blank := by
    have hstart := List.rdropWhile_prefix blank (s.toList.dropWhile blank)
    have hself := List.dropWhile_eq_self_iff.mp (@List.dropWhile_idempotent _ blank s.toList)
    rw [List.dropWhile_eq_self_iff]
    intro hpos hblank
    rw [hstart.getElem hpos] at hblank
    exact hself (Nat.lt_of_lt_of_le hpos hstart.length_le) hblank
  rw [hends, List.rdropWhile_idempotent]

theorem stable_literal (values : List String) : Stable (literal values) := by
  intro j n h
  cases j with
  | str s =>
      rw [literal] at h
      split at h
      · next hin =>
          cases h
          rw [literal, if_pos hin]
      · cases h
  | null | bool _ | int _ | real _ _ | arr _ | obj _ => cases h

theorem stable_boundedInt (low high : Int) : Stable (boundedInt low high) := by
  intro j n h
  cases j with
  | int k =>
      rw [boundedInt] at h
      split at h
      · next hin =>
          cases h
          rw [boundedInt, if_pos hin]
      · cases h
  | null | bool _ | str _ | real _ _ | arr _ | obj _ => cases h

theorem stable_boundedText (limit : Nat) : Stable (boundedText blank limit) := by
  intro j n h
  cases j with
  | str s =>
      rw [boundedText] at h
      split at h
      · next hin =>
          cases h
          rw [boundedText, trim_trim, if_pos hin]
      · cases h
  | null | bool _ | int _ | real _ _ | arr _ | obj _ => cases h

theorem nullable_of_ne {r : Reader} {j : Json} (h : j ≠ .null) : nullable r j = r j := by
  cases j with
  | null => exact absurd rfl h
  | bool _ | int _ | str _ | real _ _ | arr _ | obj _ => rfl

theorem stable_nullable {r : Reader} (h : Stable r) : Stable (nullable r) := by
  intro j n hn
  by_cases hj : j = .null
  · subst hj
    cases hn
    rfl
  · rw [nullable_of_ne hj] at hn
    by_cases hnull : n = .null
    · rw [hnull]
      rfl
    · rw [nullable_of_ne hnull]
      exact h j n hn

theorem checked_some {r : Reader} {check : Json → Bool} {j n : Json}
    (h : checked r check j = some n) : r j = some n ∧ check n = true := by
  obtain ⟨m, hm, hcheck⟩ := Option.bind_eq_some_iff.mp h
  split at hcheck
  · next hpass =>
      cases hcheck
      exact ⟨hm, hpass⟩
  · cases hcheck

theorem stable_checked {r : Reader} (check : Json → Bool) (h : Stable r) :
    Stable (checked r check) := by
  intro j n hn
  obtain ⟨hr, hcheck⟩ := checked_some hn
  rw [checked, h j n hr, Option.bind_some, if_pos hcheck]

/-! ## Models -/

structure Field where
  name : String
  reader : Reader
  /-- What is dumped where the field is not given; a required field has none. -/
  default : Option Json := none

def readField (given : Json) (f : Field) : Option Json :=
  match given.field? f.name with
  | some value => f.reader value
  | none => f.default

def readFields (given : Json) : List Field → Option (List (String × Json))
  | [] => some []
  | f :: rest => do
      let value ← readField given f
      let values ← readFields given rest
      return (f.name, value) :: values

/-- A model without extra fields. -/
def model (fields : List Field) : Reader
  | .obj given =>
      if given.all fun g => (fields.map (·.name)).contains g.1 then
        (readFields (.obj given) fields).map .obj
      else none
  | _ => none

/-- The reader takes its own dumps, and its default is one. -/
structure Field.Stable (f : Field) : Prop where
  reader : Schema.Stable f.reader
  default : ∀ d, f.default = some d → f.reader d = some d

theorem readFields_some {given : Json} {fields : List Field} {out : List (String × Json)}
    (h : readFields given fields = some out) :
    (∀ f ∈ fields, (readField given f).isSome = true) ∧
      out = fields.map fun f => (f.name, (readField given f).getD .null) := by
  induction fields generalizing out with
  | nil =>
      cases h
      exact ⟨fun f hf => (List.not_mem_nil hf).elim, rfl⟩
  | cons f rest ih =>
      obtain ⟨value, hvalue, h⟩ := Option.bind_eq_some_iff.mp h
      obtain ⟨values, hvalues, h⟩ := Option.bind_eq_some_iff.mp h
      cases h
      obtain ⟨hsome, rfl⟩ := ih hvalues
      refine ⟨fun g hg => ?_, ?_⟩
      · rcases List.mem_cons.mp hg with rfl | hg
        · rw [hvalue]
          rfl
        · exact hsome g hg
      · rw [List.map_cons, hvalue]
        rfl

theorem readFields_eq {given : Json} {fields : List Field} {value : Field → Json}
    (h : ∀ f ∈ fields, readField given f = some (value f)) :
    readFields given fields = some (fields.map fun f => (f.name, value f)) := by
  induction fields with
  | nil => rfl
  | cons f rest ih =>
      rw [readFields, h f List.mem_cons_self, ih fun g hg => h g (List.mem_cons_of_mem _ hg)]
      rfl

theorem field?_map {fields : List Field} {f : Field} {value : Field → Json}
    (hnodup : (fields.map (·.name)).Nodup) (hf : f ∈ fields) :
    (Json.obj (fields.map fun f => (f.name, value f))).field? f.name = some (value f) := by
  rw [field?]
  induction fields with
  | nil => cases hf
  | cons g rest ih =>
      obtain ⟨hnotin, hrest⟩ := List.nodup_cons.mp hnodup
      rw [List.map_cons, List.find?_cons]
      rcases List.mem_cons.mp hf with rfl | hf
      · rw [beq_self_eq_true]
        rfl
      · have hne : (g.name == f.name) = false := by
          rw [beq_eq_false_iff_ne]
          intro heq
          exact hnotin (List.mem_map.mpr ⟨f, hf, heq.symm⟩)
        rw [hne]
        exact ih hrest hf

/-- A field that a model read gave a dump of its reader. -/
theorem readField_dump {given : Json} {f : Field} {n : Json} (hf : f.Stable)
    (h : readField given f = some n) : f.reader n = some n := by
  rw [readField] at h
  split at h
  · exact hf.reader _ _ h
  · exact hf.default _ h

theorem model_some {fields : List Field} {j n : Json} (h : model fields j = some n) :
    ∃ given, j = .obj given ∧
      (∀ f ∈ fields, (readField j f).isSome = true) ∧
      n = .obj (fields.map fun f => (f.name, (readField j f).getD .null)) := by
  cases j with
  | obj given =>
      rw [model] at h
      split at h
      · obtain ⟨out, hout, rfl⟩ := Option.map_eq_some_iff.mp h
        obtain ⟨hsome, rfl⟩ := readFields_some hout
        exact ⟨given, rfl, hsome, rfl⟩
      · cases h
  | null | bool _ | int _ | str _ | real _ _ | arr _ => cases h

/-- A model has no other fields than its own. -/
theorem field?_of_model {fields : List Field} {j n : Json} {key : String}
    (h : model fields j = some n) (hkey : key ∉ fields.map (·.name)) : j.field? key = none := by
  cases j with
  | obj given =>
      rw [model] at h
      split at h
      · next hnames =>
          rw [field?, Option.map_eq_none_iff, List.find?_eq_none]
          intro g hg heq
          have hname := List.contains_iff_mem.mp (List.all_eq_true.mp hnames g hg)
          exact hkey (beq_iff_eq.mp heq ▸ hname)
      · cases h
  | null | bool _ | int _ | str _ | real _ _ | arr _ => rfl

theorem stable_model {fields : List Field} (hnodup : (fields.map (·.name)).Nodup)
    (hfields : ∀ f ∈ fields, f.Stable) : Stable (model fields) := by
  intro j n h
  obtain ⟨given, -, hsome, rfl⟩ := model_some h
  have hread : ∀ f ∈ fields, readField
      (.obj (fields.map fun f => (f.name, (readField j f).getD .null))) f =
        some ((readField j f).getD .null) := by
    intro f hf
    obtain ⟨value, hvalue⟩ := Option.isSome_iff_exists.mp (hsome f hf)
    have hdump := readField_dump (hfields f hf) hvalue
    rw [readField, field?_map hnodup hf, hvalue, Option.getD_some]
    exact hdump
  rw [model, if_pos, readFields_eq hread]
  · rfl
  · rw [List.all_eq_true]
    intro g hg
    obtain ⟨f, hf, rfl⟩ := List.mem_map.mp hg
    rw [List.contains_iff_mem]
    exact List.mem_map_of_mem hf

/-! ## What a dump takes -/

theorem octets_escStored_le_six (c : Char) : octets (escStored c) ≤ 6 := by
  have hshort : ∀ text, shortEscape c = some text → octets text ≤ 6 := by
    intro text htext
    rw [shortEscape] at htext
    repeat' split at htext
    all_goals first
      | cases htext
        decide
      | cases htext
  rw [escStored]
  split
  · next text htext => exact hshort text htext
  · split
    · have hdigit : ∀ n : Nat, n < 16 → n.digitChar.utf8Size = 1 := by decide
      rw [unicodeEscape, hex4]
      simp only [octets_cons, octets_nil]
      rw [hdigit _ (Nat.mod_lt _ (by decide)), hdigit _ (Nat.mod_lt _ (by decide)),
        hdigit _ (Nat.mod_lt _ (by decide)), hdigit _ (Nat.mod_lt _ (by decide))]
      decide
    · rw [octets_cons, octets_nil]
      have := Char.utf8Size_le_four c
      omega

theorem octets_toDigits (n : Nat) : octets (Nat.toDigits 10 n) = (Nat.toDigits 10 n).length := by
  have hdigits : ∀ c ∈ Nat.toDigits 10 n, c.utf8Size = 1 := by
    intro c hc
    have hdigit := Nat.isDigit_of_mem_toDigits (by decide) (by decide) hc
    rw [Char.isDigit, Bool.and_eq_true, decide_eq_true_eq, decide_eq_true_eq] at hdigit
    exact Char.utf8Size_eq_one_iff.mpr (Nat.le_trans hdigit.2 (by decide))
  rw [octets, List.map_congr_left hdigits, List.map_const', List.sum_replicate, smul_eq_mul,
    Nat.mul_one]

/-- A float from 0 to 1 with `places` decimal places. -/
theorem storedLen_real_le {digits places : Nat} (hone : digits ≤ 10 ^ places)
    (hplaces : 0 < places) : (Json.real digits places).storedLen ≤ places + 2 := by
  have hpos : 0 < 10 ^ places := Nat.pow_pos (by decide)
  have hwhole : (Nat.toDigits 10 (digits / 10 ^ places)).length ≤ 1 := by
    refine (Nat.length_toDigits_le_iff (by decide) Nat.one_pos).mpr ?_
    have hle : digits / 10 ^ places ≤ 10 ^ places / 10 ^ places := Nat.div_le_div_right hone
    rw [Nat.div_self hpos] at hle
    omega
  have hfraction : (Nat.toDigits 10 (digits % 10 ^ places)).length ≤ places :=
    (Nat.length_toDigits_le_iff (by decide) hplaces).mpr (Nat.mod_lt _ hpos)
  have hzeros : ∀ k : Nat, octets (List.replicate k '0') = k := by
    intro k
    rw [octets, List.map_replicate, List.sum_replicate, smul_eq_mul, show '0'.utf8Size = 1 from rfl,
      Nat.mul_one]
  have hpoint : '.'.utf8Size = 1 := by decide
  rw [storedLen, render]
  change octets (fixedText digits places) ≤ _
  rw [fixedText, octets_append, octets_cons, octets_append, hzeros, octets_toDigits,
    octets_toDigits, hpoint]
  omega

theorem storedLen_str_le (s : String) : (Json.str s).storedLen ≤ 2 + 6 * s.length := by
  have hbody : ∀ text : List Char, octets (text.flatMap escStored) ≤ 6 * text.length := by
    intro text
    induction text with
    | nil => exact Nat.zero_le _
    | cons c rest ih =>
        have hc := octets_escStored_le_six c
        rw [List.flatMap_cons, octets_append, List.length_cons]
        omega
  have hquote : '"'.utf8Size = 1 := by decide
  have := hbody s.toList
  rw [storedLen, render, quote, octets_cons, octets_append, octets_cons, octets_nil, hquote,
    ← String.length_toList]
  change 1 + (octets (s.toList.flatMap escStored) + _) ≤ _
  omega

theorem storedLen_obj_le (fields : List (String × Json)) :
    (Json.obj fields).storedLen ≤
      2 + (fields.map fun f => (Json.str f.1).storedLen + f.2.storedLen + 4).sum := by
  have hcomma : octets stored.comma = 2 := by decide
  have hcolon : octets stored.colon = 2 := by decide
  have hopen : '{'.utf8Size = 1 := by decide
  have hclose : '}'.utf8Size = 1 := by decide
  have hfields : octets (renderFields stored fields) ≤
      (fields.map fun f => (Json.str f.1).storedLen + f.2.storedLen + 4).sum := by
    induction fields with
    | nil => exact Nat.le_refl _
    | cons f rest ih =>
        obtain ⟨key, value⟩ := f
        have hkey : octets (quote stored key) = (Json.str key).storedLen := rfl
        have hvalue : octets (render stored value) = value.storedLen := rfl
        cases rest with
        | nil =>
            rw [renderFields, octets_append, octets_append, hcolon, hkey, hvalue, List.map_cons,
              List.sum_cons]
            dsimp only
            omega
        | cons g more =>
            obtain ⟨key', value'⟩ := g
            rw [renderFields, octets_append, octets_append, octets_append, octets_append, hcolon,
              hcomma, hkey, hvalue, List.map_cons, List.sum_cons]
            dsimp only at ih ⊢
            omega
  rw [storedLen, render, octets_cons, octets_append, octets_cons, octets_nil, hopen, hclose]
  omega

theorem storedLen_arr_le (items : List Json) :
    (Json.arr items).storedLen ≤ 2 + (items.map fun j => j.storedLen + 2).sum := by
  have hcomma : octets stored.comma = 2 := by decide
  have hopen : '['.utf8Size = 1 := by decide
  have hclose : ']'.utf8Size = 1 := by decide
  have hitems : octets (renderItems stored items) ≤ (items.map fun j => j.storedLen + 2).sum := by
    induction items with
    | nil => exact Nat.le_refl _
    | cons j rest ih =>
        have hvalue : octets (render stored j) = j.storedLen := rfl
        cases rest with
        | nil =>
            rw [renderItems, hvalue, List.map_cons, List.sum_cons]
            omega
        | cons k more =>
            rw [renderItems, octets_append, octets_append, hcomma, hvalue, List.map_cons,
              List.sum_cons]
            omega
  rw [storedLen, render, octets_cons, octets_append, octets_cons, octets_nil, hopen, hclose]
  omega

theorem takes_literal {values : List String} {size : Nat}
    (h : ∀ value ∈ values, (Json.str value).storedLen ≤ size) : Takes size (literal values) := by
  intro j n hn
  cases j with
  | str s =>
      rw [literal] at hn
      split at hn
      · next hin =>
          cases hn
          exact h s (List.contains_iff_mem.mp hin)
      · cases hn
  | null | bool _ | int _ | real _ _ | arr _ | obj _ => cases hn

theorem takes_boundedText {limit : Nat} : Takes (2 + 6 * limit) (boundedText blank limit) := by
  intro j n hn
  cases j with
  | str s =>
      rw [boundedText] at hn
      split at hn
      · next hin =>
          cases hn
          have := storedLen_str_le (trim blank s)
          omega
      · cases hn
  | null | bool _ | int _ | real _ _ | arr _ | obj _ => cases hn

/-- A whole number of at most `k` digits. -/
theorem takes_boundedInt {low high k : Nat} (hk : 0 < k) (h : high < 10 ^ k) :
    Takes k (boundedInt low high) := by
  intro j n hn
  cases j with
  | int i =>
      rw [boundedInt] at hn
      split at hn
      · next hin =>
          cases hn
          obtain ⟨m, rfl⟩ := Int.eq_ofNat_of_zero_le (show 0 ≤ i by omega)
          have hlength : (Nat.toDigits 10 m).length ≤ k :=
            (Nat.length_toDigits_le_iff (by decide) hk).mpr (by omega)
          have htext : (toString (m : Int)).toList = Nat.toDigits 10 m := by
            show (String.ofList (Nat.toDigits 10 m)).toList = _
            rw [String.toList_ofList]
          rw [storedLen, render]
          change octets (toString (m : Int)).toList ≤ k
          rw [htext, octets_toDigits]
          exact hlength
      · cases hn
  | null | bool _ | str _ | real _ _ | arr _ | obj _ => cases hn

theorem takes_nullable {r : Reader} {size : Nat} (h : Takes size r) (hsize : 4 ≤ size) :
    Takes size (nullable r) := by
  intro j n hn
  by_cases hj : j = .null
  · subst hj
    cases hn
    exact hsize
  · rw [nullable_of_ne hj] at hn
    exact h j n hn

theorem takes_checked {r : Reader} {check : Json → Bool} {size : Nat} (h : Takes size r) :
    Takes size (checked r check) := fun j n hn => h j n (checked_some hn).1

/-- What a model gives takes as much as its fields. -/
theorem takes_model {fields : List Field} {size : Nat} (hfields : ∀ f ∈ fields, f.Stable)
    (hsize : ∀ f ∈ fields, Takes size f.reader)
    (hname : ∀ f ∈ fields, (Json.str f.name).storedLen + 4 ≤ size) :
    Takes (2 + fields.length * (2 * size)) (model fields) := by
  intro j n h
  obtain ⟨given, -, hsome, rfl⟩ := model_some h
  refine Nat.le_trans (storedLen_obj_le _) (Nat.add_le_add_left ?_ 2)
  rw [List.map_map]
  refine Nat.le_trans (List.sum_le_card_nsmul _ (2 * size) fun k hk => ?_) ?_
  · obtain ⟨f, hf, rfl⟩ := List.mem_map.mp hk
    obtain ⟨value, hvalue⟩ := Option.isSome_iff_exists.mp (hsome f hf)
    have hle := hsize f hf _ _ (readField_dump (hfields f hf) hvalue)
    have := hname f hf
    rw [Function.comp_apply, hvalue, Option.getD_some]
    dsimp only
    omega
  · rw [List.length_map, smul_eq_mul]

/-! ## What is stored -/

theorem clean_literal {values : List String}
    (h : ∀ value ∈ values, (Json.str value).storable = true) : Clean (literal values) := by
  intro j n hn
  cases j with
  | str s =>
      rw [literal] at hn
      split at hn
      · next hin =>
          cases hn
          exact h s (List.contains_iff_mem.mp hin)
      · cases hn
  | null | bool _ | int _ | real _ _ | arr _ | obj _ => cases hn

theorem clean_boundedInt {low high : Int} : Clean (boundedInt low high) := by
  intro j n hn
  cases j with
  | int i =>
      rw [boundedInt] at hn
      split at hn
      · cases hn
        rfl
      · cases hn
  | null | bool _ | str _ | real _ _ | arr _ | obj _ => cases hn

theorem clean_nullable {r : Reader} (h : Clean r) : Clean (nullable r) := by
  intro j n hn
  by_cases hj : j = .null
  · subst hj
    cases hn
    rfl
  · rw [nullable_of_ne hj] at hn
    exact h j n hn

theorem clean_checked {r : Reader} {check : Json → Bool} (h : Clean r) :
    Clean (checked r check) := fun j n hn => h j n (checked_some hn).1

theorem storable_obj {fields : List (String × Json)} :
    (Json.obj fields).storable = true ↔
      ∀ f ∈ fields, (Json.str f.1).storable = true ∧ f.2.storable = true := by
  rw [storable]
  induction fields with
  | nil => simp [storableFields]
  | cons f rest ih =>
      obtain ⟨key, value⟩ := f
      rw [storableFields, Bool.and_eq_true, Bool.and_eq_true, ih]
      simp [storable]

theorem storable_arr {items : List Json} :
    (Json.arr items).storable = true ↔ ∀ j ∈ items, j.storable = true := by
  rw [storable]
  induction items with
  | nil => simp [storableItems]
  | cons j rest ih =>
      rw [storableItems, Bool.and_eq_true, ih]
      simp

/-- What a model gives is stored where what its fields give is. -/
theorem storable_model {fields : List Field} {j n : Json}
    (hname : ∀ f ∈ fields, (Json.str f.name).storable = true) (h : model fields j = some n) :
    n.storable = true ↔ ∀ f ∈ fields, ∀ value, readField j f = some value →
      value.storable = true := by
  obtain ⟨given, -, hsome, rfl⟩ := model_some h
  rw [storable_obj]
  constructor
  · intro hall f hf value hvalue
    have := (hall _ (List.mem_map_of_mem hf)).2
    rw [hvalue] at this
    exact this
  · intro hall g hg
    obtain ⟨f, hf, rfl⟩ := List.mem_map.mp hg
    obtain ⟨value, hvalue⟩ := Option.isSome_iff_exists.mp (hsome f hf)
    refine ⟨hname f hf, ?_⟩
    dsimp only
    rw [hvalue]
    exact hall f hf value hvalue

theorem clean_model {fields : List Field} (hfields : ∀ f ∈ fields, f.Stable)
    (hname : ∀ f ∈ fields, (Json.str f.name).storable = true)
    (hclean : ∀ f ∈ fields, Clean f.reader) : Clean (model fields) := by
  intro j n h
  rw [storable_model hname h]
  intro f hf value hvalue
  exact hclean f hf _ _ (readField_dump (hfields f hf) hvalue)

/-- Trimming takes off blanks only, so it leaves what else the text has. -/
theorem contains_trim {s : String} {c : Char} (hc : blank c = false) :
    (trim blank s).toList.contains c = s.toList.contains c := by
  have hdrop : ∀ l : List Char, c ∈ l.dropWhile blank ↔ c ∈ l := by
    intro l
    refine ⟨fun h => (List.dropWhile_suffix blank).subset h, fun h => ?_⟩
    rw [← List.takeWhile_append_dropWhile (p := blank) (l := l), List.mem_append] at h
    rcases h with hblank | hrest
    · rw [List.mem_takeWhile_imp hblank] at hc
      cases hc
    · exact hrest
  rw [Bool.eq_iff_iff, List.contains_iff_mem, List.contains_iff_mem, trim, String.toList_ofList,
    List.rdropWhile, List.mem_reverse, hdrop, List.mem_reverse, hdrop]

end Schema

end Lib
