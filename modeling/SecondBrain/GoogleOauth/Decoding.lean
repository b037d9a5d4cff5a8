import Mathlib.Data.List.Infix
import SecondBrain.GoogleOauth.Envelope
import SecondBrain.Lib.PythonJson

/-!
# What an envelope is decoded from

Decoding goes through a reader of values of any type and checks them by what
many types answer: a length, a comparison, membership in a text. So an envelope
that is decoded may hold a float for a number, and an array or an object for a
text. `Slips` tells the byte strings that get through so, and those that are
nested too deep to be read; on every other one decoding is strict
(`envelope_strict_iff`).
-/

namespace SecondBrain

open Lib Lib.CodePoint Lib.PythonJson

namespace GoogleOauth

/-- An envelope of fields of any type. -/
structure LooseEnvelope (F : Type) where
  refreshToken : Value F
  accountFingerprint : Value F
  generation : Value F
  version : Value F

/-- What the methods of the envelope raise. -/
inductive EnvelopeError where
  /-- `GoogleOAuthError`. -/
  | oauth
  | typeError
  | valueError
  | recursion
deriving DecidableEq

namespace LooseEnvelope

variable {F : Type} (I : Interpreter F)

def key (name : String) : Text := ofChars name.toList

def payload (e : LooseEnvelope F) : Value F :=
  .dict
    [(key "version", e.version), (key "generation", e.generation),
      (key "refresh_token", e.refreshToken), (key "account_fingerprint", e.accountFingerprint)]

/-- `len(value)`, where the value has one. -/
def len? : Value F → Option Nat
  | .str s => some s.length
  | .list items => some items.length
  | .dict fields => some fields.length
  | .null | .bool _ | .int _ | .float _ => none

/-- `not value`. -/
def isFalsy : Value F → Bool
  | .null => true
  | .bool b => !b
  | .int n => n == 0
  | .float x => I.eq x 0
  | .str s => s.isEmpty
  | .list items => items.isEmpty
  | .dict fields => fields.isEmpty

def encode (e : LooseEnvelope F) : Except EnvelopeError (List UInt8) :=
  if isFalsy I e.refreshToken then .error .oauth
  else match len? e.refreshToken with
    | none => .error .typeError
    | some n =>
        if 4096 < n then .error .oauth
        else if spellable e.payload = false then .error .valueError
        else
          let payload := Encoding.ascii (render I e.payload)
          if maxEnvelopeBytes < payload.length then .error .oauth
          else .ok payload

/-- `value == 1`. -/
def isOne : Value F → Bool
  | .int n => n == 1
  | .bool b => b
  | .float x => I.eq x 1
  | .null | .str _ | .list _ | .dict _ => false

/-- `value < 1`, where the two can be compared. -/
def isBelowOne? : Value F → Option Bool
  | .int n => some (decide (n < 1))
  | .bool b => some !b
  | .float x => some (I.lt x 1)
  | .null | .str _ | .list _ | .dict _ => none

/-- What a loop over the value goes through, where it is texts. -/
def parts? : Value F → Option (List Text)
  | .str s => some (s.map ([·]))
  | .list items => items.mapM fun v =>
      match v with
      | .str s => some s
      | _ => none
  | .dict fields => some (fields.map (·.1))
  | .null | .bool _ | .int _ | .float _ => none

def hexDigits : Text := key "0123456789abcdef"

/-- The checks of `decode`; what cannot be compared fails them. -/
def passes (e : LooseEnvelope F) : Bool :=
  isOne I e.version && isBelowOne? I e.generation == some false &&
    len? e.accountFingerprint == some 64 &&
    (parts? e.accountFingerprint).any fun parts => parts.all fun c => decide (c <:+: hexDigits)

def field? (fields : List (Text × Value F)) (name : String) : Option (Value F) :=
  (fields.find? fun f => f.1 == key name).map (·.2)

def names : List String := ["version", "generation", "refresh_token", "account_fingerprint"]

/-- The envelope of an object with just these fields. -/
def ofFields (fields : List (Text × Value F)) : Option (LooseEnvelope F) :=
  if fields.all fun f => (names.map key).contains f.1 then do
    let version ← field? fields "version"
    let generation ← field? fields "generation"
    let token ← field? fields "refresh_token"
    let fingerprint ← field? fields "account_fingerprint"
    return ⟨token, fingerprint, generation, version⟩
  else none

def decode (value : List UInt8) : Except EnvelopeError (LooseEnvelope F) :=
  if value = [] ∨ maxEnvelopeBytes < value.length then .error .oauth
  else
    match loads I value with
    | .error .recursion => .error .recursion
    | .error .value => .error .oauth
    | .ok (.dict fields) =>
        match ofFields fields with
        | none => .error .oauth
        | some e =>
            if passes I e then
              match e.encode I with
              | .ok _ => .ok e
              | .error _ => .error .oauth
            else .error .oauth
    | .ok _ => .error .oauth

/-! ## Strict decoding -/

/-- `isinstance(value, int)`. -/
def isInt : Value F → Bool
  | .int _ | .bool _ => true
  | .null | .float _ | .str _ | .list _ | .dict _ => false

structure Strict (e : LooseEnvelope F) : Prop where
  token : ∃ s, e.refreshToken = .str s ∧ s ≠ [] ∧ s.length ≤ 4096
  fingerprint : ∃ s, e.accountFingerprint = .str s ∧ s.length = 64 ∧ ∀ a ∈ s, a ∈ hexDigits
  generation : isInt e.generation = true
  version : isInt e.version = true

/-- An envelope as the application makes them. -/
structure Valid (e : LooseEnvelope F) : Prop extends Strict e where
  first : isOne I e.version = true
  counted : isBelowOne? I e.generation = some false

/-- Decoding raises its own error, or answers an envelope that is strict and is decoded
from what it is encoded as. -/
def DecodesStrictly (value : List UInt8) : Prop :=
  decode I value = .error .oauth ∨
    ∃ e, decode I value = .ok e ∧ e.Strict ∧
      ∃ bytes, e.encode I = .ok bytes ∧ decode I bytes = .ok e

/-- The token is a text that comes back from its escapes. -/
def Returns (e : LooseEnvelope F) : Prop :=
  ∀ s, e.refreshToken = .str s → hasPair s = false

/-- The fields are of their types, and the token is such a text. -/
structure Typed (e : LooseEnvelope F) : Prop where
  token : ∃ s, e.refreshToken = .str s ∧ hasPair s = false
  fingerprint : ∃ s, e.accountFingerprint = .str s
  generation : isInt e.generation = true
  version : isInt e.version = true

/-- The token has a length within its bound, and the payload can be written within its own. -/
def Fits (e : LooseEnvelope F) : Prop :=
  (∃ n, len? e.refreshToken = some n ∧ 0 < n ∧ n ≤ 4096) ∧ spellable e.payload = true ∧
    (render I e.payload).length ≤ maxEnvelopeBytes

/-- The envelope that the bytes are read as, before it is checked. -/
def read? (value : List UInt8) : Option (LooseEnvelope F) :=
  match loads I value with
  | .ok (.dict fields) => ofFields fields
  | _ => none

/-- The bytes are nested too deep, or hold an envelope that passes with a field of another
type or a token that does not come back. -/
def Slips (value : List UInt8) : Prop :=
  value ≠ [] ∧ value.length ≤ maxEnvelopeBytes ∧
    (loads I value = .error .recursion ∨
      ∃ e, read? I value = some e ∧ e.passes I = true ∧ e.Fits I ∧ ¬ e.Typed)

/-! ## What the two methods do -/

variable {I} {e : LooseEnvelope F} {value bytes : List UInt8}

theorem isFalsy_of_len {v : Value F} {n : Nat} (h : len? v = some n) :
    isFalsy I v = true ↔ n = 0 := by
  cases v <;> simp [len?] at h
  all_goals
    subst h
    simp [isFalsy]

theorem encode_eq_ok_iff :
    e.encode I = .ok bytes ↔ e.Fits I ∧ bytes = Encoding.ascii (render I e.payload) := by
  have hlength : (Encoding.ascii (render I e.payload)).length = (render I e.payload).length :=
    List.length_map _
  rw [encode, Fits]
  cases hlen : len? e.refreshToken with
  | none =>
      refine iff_of_false (fun h => ?_) nofun
      split at h <;> cases h
  | some n =>
      by_cases hzero : n = 0
      · rw [if_pos ((isFalsy_of_len hlen).mpr hzero)]
        refine iff_of_false nofun ?_
        rintro ⟨⟨⟨m, hm, hpos, -⟩, -⟩, -⟩
        obtain rfl := Option.some.inj hm
        omega
      rw [if_neg fun h => hzero ((isFalsy_of_len hlen).mp h)]
      dsimp only
      by_cases hlong : 4096 < n
      · rw [if_pos hlong]
        refine iff_of_false nofun ?_
        rintro ⟨⟨⟨m, hm, -, hle⟩, -⟩, -⟩
        obtain rfl := Option.some.inj hm
        omega
      rw [if_neg hlong]
      cases hspell : spellable e.payload with
      | false => exact iff_of_false nofun nofun
      | true =>
          rw [if_neg nofun, hlength]
          by_cases hbig : maxEnvelopeBytes < (render I e.payload).length
          · rw [if_pos hbig]
            refine iff_of_false nofun ?_
            rintro ⟨⟨-, -, hle⟩, -⟩
            omega
          · rw [if_neg hbig, Except.ok.injEq]
            constructor
            · exact fun h => ⟨⟨⟨n, rfl, by omega, by omega⟩, rfl, by omega⟩, h.symm⟩
            · exact fun h => h.2.symm

theorem encode_ok_iff : (∃ bytes, e.encode I = .ok bytes) ↔ e.Fits I := by
  constructor
  · rintro ⟨bytes, h⟩
    exact (encode_eq_ok_iff.mp h).1
  · exact fun h => ⟨_, encode_eq_ok_iff.mpr ⟨h, rfl⟩⟩

/-- What decoding answers is what was read, where that passes and fits. -/
theorem decode_eq_ok_iff :
    decode I value = .ok e ↔
      (value ≠ [] ∧ value.length ≤ maxEnvelopeBytes) ∧ read? I value = some e ∧
        e.passes I = true ∧ e.Fits I := by
  rw [decode, read?]
  by_cases hsize : value = [] ∨ maxEnvelopeBytes < value.length
  · rw [if_pos hsize]
    refine iff_of_false nofun ?_
    rintro ⟨⟨hne, hle⟩, -⟩
    exact hsize.elim hne (Nat.not_lt.mpr hle)
  have hsize' : value ≠ [] ∧ value.length ≤ maxEnvelopeBytes :=
    ⟨fun h => hsize (.inl h), Nat.le_of_not_lt fun h => hsize (.inr h)⟩
  rw [if_neg hsize, and_iff_right hsize']
  rcases loads I value with error | v
  · cases error <;> exact iff_of_false nofun nofun
  cases v with
  | dict fields =>
      dsimp only
      cases ofFields fields with
      | none => exact iff_of_false nofun nofun
      | some found =>
          dsimp only
          rw [Option.some.injEq]
          by_cases hpass : found.passes I = true
          · rw [if_pos hpass]
            cases hencode : found.encode I with
            | ok bytes =>
                have hfits := encode_ok_iff.mp ⟨bytes, hencode⟩
                rw [Except.ok.injEq]
                constructor
                · rintro rfl
                  exact ⟨rfl, hpass, hfits⟩
                · exact And.left
            | error failure =>
                refine iff_of_false nofun ?_
                rintro ⟨rfl, -, hfits⟩
                obtain ⟨bytes, h⟩ := encode_ok_iff.mpr hfits
                cases hencode.symm.trans h
          · rw [if_neg hpass]
            refine iff_of_false nofun ?_
            rintro ⟨rfl, h, -⟩
            exact hpass h
  | null | bool b | int n | float x | str s | list items => exact iff_of_false nofun nofun

/-- The one other thing that decoding raises. -/
theorem decode_error {error : EnvelopeError} (h : decode I value = .error error) :
    error = .oauth ∨ error = .recursion ∧ (value ≠ [] ∧ value.length ≤ maxEnvelopeBytes) ∧
      loads I value = .error .recursion := by
  rw [decode] at h
  by_cases hsize : value = [] ∨ maxEnvelopeBytes < value.length
  · rw [if_pos hsize] at h
    cases h
    exact .inl rfl
  have hsize' : value ≠ [] ∧ value.length ≤ maxEnvelopeBytes :=
    ⟨fun h => hsize (.inl h), Nat.le_of_not_lt fun h => hsize (.inr h)⟩
  rw [if_neg hsize] at h
  rcases hloads : loads I value with failure | v
  · rw [hloads] at h
    cases failure with
    | value =>
        cases h
        exact .inl rfl
    | recursion =>
        cases h
        exact .inr ⟨rfl, hsize', rfl⟩
  · rw [hloads] at h
    left
    cases v with
    | dict fields =>
        dsimp only at h
        repeat' split at h
        all_goals
          cases h
          try rfl
    | null | bool b | int n | float x | str s | list items =>
        cases h
        rfl

theorem decode_recursion (hsize : value ≠ [] ∧ value.length ≤ maxEnvelopeBytes)
    (h : loads I value = .error .recursion) : decode I value = .error .recursion := by
  rw [decode, if_neg fun hc => hc.elim hsize.1 (Nat.not_lt.mpr hsize.2), h]

/-! ## What is written comes back -/

/-- The fields of the payload in the order of their names. -/
def sortedFields (e : LooseEnvelope F) : List (Text × Value F) :=
  [(key "account_fingerprint", e.accountFingerprint), (key "generation", e.generation),
    (key "refresh_token", e.refreshToken), (key "version", e.version)]

theorem render_payload : render I e.payload = objectText I e.sortedFields := rfl

theorem dictOf_sortedFields : dictOf e.sortedFields = e.sortedFields := rfl

theorem ofFields_sortedFields : ofFields e.sortedFields = some e := rfl

theorem spellable_payload (h : spellable e.payload = true) : spellable e.generation = true := by
  rw [payload, spellable, spellableFields, spellableFields, Bool.and_eq_true,
    Bool.and_eq_true] at h
  exact h.2.1

theorem mem_hexDigits {a : CodePoint} (h : a ∈ hexDigits) : ∃ c, a = .scalar c := by
  obtain ⟨c, -, rfl⟩ := List.mem_map.mp h
  exact ⟨c, rfl⟩

theorem hasPair_of_hex {s : Text} (h : ∀ a ∈ s, a ∈ hexDigits) : hasPair s = false := by
  rw [← merge_eq_iff]
  have hchars : ∃ cs, s = ofChars cs := by
    induction s with
    | nil => exact ⟨[], rfl⟩
    | cons a s ih =>
        obtain ⟨cs, rfl⟩ := ih fun b hb => h b (List.mem_cons_of_mem a hb)
        obtain ⟨c, rfl⟩ := mem_hexDigits (h a List.mem_cons_self)
        exact ⟨c :: cs, rfl⟩
  obtain ⟨cs, rfl⟩ := hchars
  exact merge_ofChars cs

/-- A number that is counted from one comes back. -/
theorem reads_counted {v : Value F} (hint : isInt v = true)
    (hcounted : isBelowOne? I v = some false) (hspell : spellable v = true) : Reads I v v := by
  cases v with
  | bool b =>
      cases b with
      | false => cases hcounted
      | true => exact reads_true
  | int n =>
      rw [isBelowOne?, Option.some.injEq, decide_eq_false_iff_not] at hcounted
      rw [spellable, decide_eq_true_eq] at hspell
      obtain ⟨k, rfl⟩ := Int.eq_ofNat_of_zero_le (by omega : 0 ≤ n)
      exact reads_nat hspell
  | null | float x | str s | list items | dict fields => cases hint

theorem reads_version {v : Value F} (hint : isInt v = true) (hone : isOne I v = true) :
    Reads I v v := by
  cases v with
  | bool b =>
      cases b with
      | false => cases hone
      | true => exact reads_true
  | int n =>
      obtain rfl : n = 1 := by simpa [isOne] using hone
      exact reads_nat (n := 1) (by decide)
  | null | float x | str s | list items | dict fields => cases hint

/-- An envelope with another token. -/
def withToken (e : LooseEnvelope F) (s : Text) : LooseEnvelope F := { e with refreshToken := .str s }

theorem loads_encode (hvalid : e.Valid I) (hfits : e.Fits I) {s : Text}
    (htoken : e.refreshToken = .str s) :
    loads I (Encoding.ascii (render I e.payload)) =
      .ok (.dict (e.withToken (merge s)).sortedFields) := by
  obtain ⟨f, hfinger, -, hhex⟩ := hvalid.fingerprint
  have hfields : List.Forall₂ (fun f f' => f'.1 = merge f.1 ∧ Reads I f.2 f'.2) e.sortedFields
      (e.withToken (merge s)).sortedFields := by
    have hsame : Reads I e.accountFingerprint e.accountFingerprint := by
      have hreads := reads_str (I := I) f
      rw [(merge_eq_iff f).mpr (hasPair_of_hex hhex)] at hreads
      rw [hfinger]
      exact hreads
    have htext : Reads I e.refreshToken (.str (merge s)) := htoken ▸ reads_str s
    exact .cons ⟨(merge_ofChars _).symm, hsame⟩ <|
      .cons ⟨(merge_ofChars _).symm, reads_counted hvalid.generation hvalid.counted
        (spellable_payload hfits.2.1)⟩ <|
      .cons ⟨(merge_ofChars _).symm, htext⟩ <|
      .cons ⟨(merge_ofChars _).symm, reads_version hvalid.version hvalid.first⟩ .nil
  have hascii := objectText_lt hfields
  have hstart : ∃ more, objectText I e.sortedFields = '{' :: '"' :: 'a' :: 'c' :: more := ⟨_, rfl⟩
  obtain ⟨more, hstart⟩ := hstart
  have hdecode : Encoding.decodeJson (Encoding.ascii (objectText I e.sortedFields)) =
      Encoding.utf8 (Encoding.ascii (objectText I e.sortedFields)) := by
    rw [hstart]
    rfl
  rw [render_payload, loads, hdecode, Encoding.utf8_ascii hascii]
  show loadsText I _ = _
  rw [loadsText_object hfields (List.cons_ne_nil _ _), dictOf_sortedFields]

theorem read?_encode (hvalid : e.Valid I) {s : Text} (htoken : e.refreshToken = .str s)
    (h : e.encode I = .ok bytes) : read? I bytes = some (e.withToken (merge s)) := by
  obtain ⟨hfits, rfl⟩ := encode_eq_ok_iff.mp h
  rw [read?, loads_encode hvalid hfits htoken]
  exact ofFields_sortedFields

theorem typed_of_strict (h : e.Strict) (hreturns : e.Returns) : e.Typed := by
  obtain ⟨s, htoken, -, -⟩ := h.token
  obtain ⟨f, hfinger, -, -⟩ := h.fingerprint
  exact ⟨⟨s, htoken, hreturns s htoken⟩, ⟨f, hfinger⟩, h.generation, h.version⟩

theorem returns_of_typed (h : e.Typed) : e.Returns := by
  obtain ⟨s, htoken, hpair⟩ := h.token
  intro t ht
  obtain rfl := Value.str.inj (htoken.symm.trans ht)
  exact hpair

theorem passes_iff :
    e.passes I = true ↔
      isOne I e.version = true ∧ isBelowOne? I e.generation = some false ∧
        len? e.accountFingerprint = some 64 ∧
        ∃ parts, parts? e.accountFingerprint = some parts ∧ ∀ c ∈ parts, c <:+: hexDigits := by
  simp only [passes, Bool.and_eq_true, beq_iff_eq, Option.any_eq_true, List.all_eq_true,
    decide_eq_true_eq, and_assoc]

/-- A text of hash length passes where its characters are the digits. -/
theorem passes_str_iff {f : Text} (hfinger : e.accountFingerprint = .str f) :
    e.passes I = true ↔
      isOne I e.version = true ∧ isBelowOne? I e.generation = some false ∧ f.length = 64 ∧
        ∀ a ∈ f, a ∈ hexDigits := by
  rw [passes_iff, hfinger, len?, Option.some.injEq]
  have hparts : (∃ parts, parts? (.str f : Value F) = some parts ∧ ∀ c ∈ parts, c <:+: hexDigits) ↔
      ∀ a ∈ f, a ∈ hexDigits := by
    constructor
    · rintro ⟨parts, hparts, hall⟩ a ha
      obtain rfl := Option.some.inj hparts
      exact (List.singleton_infix_iff a _).mp (hall [a] (List.mem_map.mpr ⟨a, ha, rfl⟩))
    · intro hall
      refine ⟨_, rfl, fun c hc => ?_⟩
      obtain ⟨a, ha, rfl⟩ := List.mem_map.mp hc
      exact (List.singleton_infix_iff a _).mpr (hall a ha)
  rw [hparts]

theorem passes_of_valid (h : e.Valid I) : e.passes I = true := by
  obtain ⟨f, hfinger, hlength, hhex⟩ := h.fingerprint
  exact (passes_str_iff hfinger).mpr ⟨h.first, h.counted, hlength, hhex⟩

/-- What is read with fields of their types is valid if it passes and fits. -/
theorem valid_of_passes (htyped : e.Typed) (hpass : e.passes I = true) (hfits : e.Fits I) :
    e.Valid I := by
  obtain ⟨s, htoken, -⟩ := htyped.token
  obtain ⟨f, hfinger⟩ := htyped.fingerprint
  obtain ⟨hfirst, hcounted, hlength, hhex⟩ := (passes_str_iff hfinger).mp hpass
  obtain ⟨n, hlen, hpos, hle⟩ := hfits.1
  rw [htoken] at hlen
  obtain rfl : s.length = n := Option.some.inj hlen
  exact ⟨⟨⟨s, htoken, List.ne_nil_of_length_pos hpos, hle⟩, ⟨f, hfinger, hlength, hhex⟩,
    htyped.generation, htyped.version⟩, hfirst, hcounted⟩

theorem valid_of_strict (h : e.Strict) (hpass : e.passes I = true) : e.Valid I := by
  obtain ⟨f, hfinger, -, -⟩ := h.fingerprint
  obtain ⟨hfirst, hcounted, -⟩ := (passes_str_iff hfinger).mp hpass
  exact ⟨h, hfirst, hcounted⟩

theorem withToken_eq_iff {s : Text} (htoken : e.refreshToken = .str s) :
    e.withToken (merge s) = e ↔ e.Returns := by
  have hsame : e.withToken (merge s) = e ↔ merge s = s := by
    constructor
    · intro h
      exact Value.str.inj ((congrArg LooseEnvelope.refreshToken h).trans htoken)
    · intro h
      rw [withToken, h, ← htoken]
  rw [hsame, merge_eq_iff]
  constructor
  · intro h t ht
    obtain rfl := Value.str.inj (htoken.symm.trans ht)
    exact h
  · exact fun h => h s htoken

/-- A valid envelope is decoded from what it is encoded as if its token comes back. -/
theorem decode_encode_iff (hvalid : e.Valid I) (h : e.encode I = .ok bytes) :
    decode I bytes = .ok e ↔ e.Returns := by
  obtain ⟨s, htoken, -, -⟩ := hvalid.token
  obtain ⟨hfits, hbytes⟩ := encode_eq_ok_iff.mp h
  have hsize : bytes ≠ [] ∧ bytes.length ≤ maxEnvelopeBytes := by
    rw [hbytes]
    refine ⟨fun hnil => ?_, ?_⟩
    · rw [render_payload] at hnil
      cases hnil
    · rw [Encoding.ascii, List.length_map]
      exact hfits.2.2
  rw [decode_eq_ok_iff, read?_encode hvalid htoken h, Option.some.injEq, withToken_eq_iff htoken,
    and_iff_right hsize]
  exact and_iff_left ⟨passes_of_valid hvalid, hfits⟩

/-- Decoding is strict on the bytes that do not slip through. -/
theorem decodesStrictly_iff (value : List UInt8) : DecodesStrictly I value ↔ ¬ Slips I value := by
  constructor
  · rintro hstrict ⟨hne, hle, hdeep | ⟨e, hread, hpass, hfits, htyped⟩⟩
    · have hraised := decode_recursion ⟨hne, hle⟩ hdeep
      rcases hstrict with h | ⟨e, h, -⟩
      · cases hraised.symm.trans h
      · cases hraised.symm.trans h
    · have hok := decode_eq_ok_iff.mpr ⟨⟨hne, hle⟩, hread, hpass, hfits⟩
      rcases hstrict with h | ⟨e', h, hstrict, bytes, hencode, hdecode⟩
      · cases hok.symm.trans h
      · obtain rfl := Except.ok.inj (hok.symm.trans h)
        have hvalid := valid_of_strict hstrict hpass
        exact htyped (typed_of_strict hstrict ((decode_encode_iff hvalid hencode).mp hdecode))
  · intro hslip
    cases hdecode : decode I value with
    | error failure =>
        rcases decode_error hdecode with rfl | ⟨-, hsize, hdeep⟩
        · exact .inl hdecode
        · exact absurd ⟨hsize.1, hsize.2, .inl hdeep⟩ hslip
    | ok e =>
        obtain ⟨hsize, hread, hpass, hfits⟩ := decode_eq_ok_iff.mp hdecode
        have htyped : e.Typed := by
          by_contra htyped
          exact hslip ⟨hsize.1, hsize.2, .inr ⟨e, hread, hpass, hfits, htyped⟩⟩
        have hvalid := valid_of_passes htyped hpass hfits
        obtain ⟨bytes, hencode⟩ := encode_ok_iff.mpr hfits
        exact .inr ⟨e, hdecode, hvalid.toStrict, bytes, hencode,
          (decode_encode_iff hvalid hencode).mpr (returns_of_typed htyped)⟩

/-- A valid envelope comes back unless its token holds two halves of a character side by
side, and decoding is strict on every byte string but those that slip through. -/
theorem envelope_strict_iff (I : Interpreter F) :
    (∀ (e : LooseEnvelope F) (bytes : List UInt8), e.Valid I → e.encode I = .ok bytes →
      (decode I bytes = .ok e ↔ e.Returns)) ∧
    ∀ value : List UInt8, DecodesStrictly I value ↔ ¬ Slips I value :=
  ⟨fun _ _ => decode_encode_iff, decodesStrictly_iff⟩

/-! ## Envelopes of texts and integers -/

/-- The envelope with the fields of one of texts and integers. -/
def ofTyped (e : GoogleCredentialEnvelope) : LooseEnvelope F :=
  ⟨.str (key e.refreshToken), .str (key e.accountFingerprint), .int e.generation, .int e.version⟩

theorem quote_key (s : String) : quote (key s) = Json.quote Json.compact s := by
  rw [quote, key, ofChars, List.flatMap_map]
  rfl

theorem render_ofTyped (e : GoogleCredentialEnvelope) :
    render I (ofTyped e).payload = Json.render Json.compact e.json := by
  rw [render_payload, objectText, sortedFields]
  simp [fieldText, quote_key, List.intercalate, render, ofTyped, GoogleCredentialEnvelope.json,
    Json.render, Json.renderFields, Json.compact]

theorem length_le_octets (text : List Char) : text.length ≤ Json.octets text := by
  induction text with
  | nil => exact Nat.le_refl _
  | cons c rest ih =>
      have hc := Char.utf8Size_pos c
      rw [Json.octets_cons, List.length_cons]
      omega

theorem length_key (s : String) : (key s).length = s.length :=
  List.length_map _

theorem token_of_encode {e : GoogleCredentialEnvelope} {text : String} (h : e.encode = .ok text) :
    e.refreshToken ≠ "" ∧ e.refreshToken.length ≤ 4096 := by
  have htoken : ¬ (e.refreshToken = "" ∨ 4096 < e.refreshToken.length) := by
    intro hc
    rw [GoogleCredentialEnvelope.encode, if_pos hc] at h
    cases h
  exact ⟨fun hc => htoken (.inl hc), Nat.le_of_not_lt fun hc => htoken (.inr hc)⟩

theorem encode_ofTyped {e : GoogleCredentialEnvelope} {text : String} (h : e.encode = .ok text)
    (hspell : spellable (ofTyped e : LooseEnvelope F).payload = true) :
    (ofTyped e).encode I = .ok (Encoding.ascii text.toList) := by
  have htext := GoogleCredentialEnvelope.encode_eq h
  obtain ⟨-, hle⟩ := GoogleCredentialEnvelope.encode_bounded h
  rw [htext, String.toList_ofList] at hle
  obtain ⟨hne, hshort⟩ := token_of_encode h
  rw [encode_eq_ok_iff, htext, String.toList_ofList, render_ofTyped]
  refine ⟨⟨⟨e.refreshToken.length, ?_, ?_, hshort⟩, hspell, ?_⟩, rfl⟩
  · rw [ofTyped, len?, length_key]
  · rw [Nat.pos_iff_ne_zero, ne_eq, String.length_eq_zero_iff]
    exact hne
  · rw [render_ofTyped]
    exact Nat.le_trans (length_le_octets _) hle

theorem valid_ofTyped {e : GoogleCredentialEnvelope} {text : String} (h : e.encode = .ok text)
    (hform : e.wellFormed = true) : (ofTyped e : LooseEnvelope F).Valid I := by
  obtain ⟨hne, hshort⟩ := token_of_encode h
  simp only [GoogleCredentialEnvelope.wellFormed, Bool.and_eq_true, decide_eq_true_eq,
    List.all_eq_true, List.contains_iff_mem] at hform
  obtain ⟨⟨⟨hversion, hgeneration⟩, hlength⟩, hhex⟩ := hform
  refine ⟨⟨⟨key e.refreshToken, rfl, ?_, ?_⟩, ⟨key e.accountFingerprint, rfl, ?_, ?_⟩, rfl, rfl⟩,
    ?_, ?_⟩
  · rw [← List.length_pos_iff, length_key, Nat.pos_iff_ne_zero, ne_eq, String.length_eq_zero_iff]
    exact hne
  · rw [length_key]
    exact hshort
  · rw [length_key]
    exact hlength
  · intro a ha
    obtain ⟨c, hc, rfl⟩ := List.mem_map.mp ha
    exact List.mem_map.mpr ⟨c, hhex c hc, rfl⟩
  · rw [ofTyped, isOne, hversion]
    rfl
  · rw [ofTyped, isBelowOne?, decide_eq_false (Int.not_lt.mpr hgeneration)]

/-- What is written of an envelope of texts and integers is decoded as that envelope. -/
theorem decode_ofTyped {e : GoogleCredentialEnvelope} {text : String} (h : e.encode = .ok text)
    (hform : e.wellFormed = true)
    (hspell : spellable (ofTyped e : LooseEnvelope F).payload = true) :
    decode I (Encoding.ascii text.toList) = .ok (ofTyped e) := by
  rw [decode_encode_iff (valid_ofTyped h hform) (encode_ofTyped h hspell)]
  intro s hs
  obtain rfl := Value.str.inj hs
  exact (merge_eq_iff _).mp (merge_ofChars _)

/-! ## Bytes that slip through -/

namespace Sample

/-- The samples hold no float. -/
def interpreter : Interpreter Unit where
  float _ := ()
  repr _ := "0.0".toList
  lt _ _ := false
  eq _ _ := false
  maxDepth := 1000
  maxDepth_pos := by decide

def fingerprint : String := String.ofList (List.replicate 64 'a')

/-- A credential with a list where the refresh token stands. -/
def listToken : List UInt8 :=
  Encoding.ascii ("\x7b\"version\":1,\"generation\":1,\"refresh_token\":[\"t\"],".toList ++
    "\"account_fingerprint\":\"".toList ++ fingerprint.toList ++ "\"\x7d".toList)

def isList : Value Unit → Bool
  | .list _ => true
  | _ => false

end Sample

/-- The list has a length, so it passes for a token. -/
theorem list_token_decoded : ¬ DecodesStrictly Sample.interpreter Sample.listToken := by
  have hlist : (decode Sample.interpreter Sample.listToken).toOption.any
      (Sample.isList ·.refreshToken) = true := by
    decide +kernel
  rintro (h | ⟨e, h, hstrict, -⟩)
  · rw [h] at hlist
    cases hlist
  · obtain ⟨s, htoken, -, -⟩ := hstrict.token
    rw [h] at hlist
    simp [Except.toOption, Sample.isList, htoken] at hlist

end LooseEnvelope

end GoogleOauth

end SecondBrain
