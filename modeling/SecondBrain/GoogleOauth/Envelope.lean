import SecondBrain.Basic
import SecondBrain.Lib.JsonReader

/-!
# The credential envelope

What is kept of an account under its reference: the refresh token, the fingerprint of
the account and the generation, which counts the writes. It is kept as a text, and a text
that is written is read as the envelope it was written from.
-/

namespace SecondBrain

open Lib

namespace GoogleOauth

/-- The failures of the authorization, by their codes. -/
inductive GoogleOAuthError where
  | failed
  | timeout
  | identityInvalid
  | scopeInvalid
  | replay
  | providerFailed
deriving DecidableEq, Repr

structure GoogleCredentialEnvelope where
  refreshToken : String
  accountFingerprint : String
  generation : Int := 1
  version : Int := 1
deriving DecidableEq

/-- `MAX_ENVELOPE_BYTES`. -/
def maxEnvelopeBytes : Nat := 8192

namespace GoogleCredentialEnvelope

def json (e : GoogleCredentialEnvelope) : Json :=
  .obj
    [("account_fingerprint", .str e.accountFingerprint), ("generation", .int e.generation),
      ("refresh_token", .str e.refreshToken), ("version", .int e.version)]

def encode (e : GoogleCredentialEnvelope) : Except GoogleOAuthError String :=
  if e.refreshToken = "" ∨ 4096 < e.refreshToken.length then .error .failed
  else
    let payload := e.json.canonical
    if maxEnvelopeBytes < Json.octets payload.toList then .error .failed
    else .ok payload

/-- The fingerprint is a hash in lower case, and the numbers are in range. -/
def wellFormed (e : GoogleCredentialEnvelope) : Bool :=
  decide (e.version = 1) && decide (1 ≤ e.generation) &&
    decide (e.accountFingerprint.length = 64) &&
    e.accountFingerprint.toList.all fun c => "0123456789abcdef".toList.contains c

/-- The envelope that an object has the fields of. -/
def ofFields (fields : List (String × Json)) : Option GoogleCredentialEnvelope :=
  let keys := ["version", "generation", "refresh_token", "account_fingerprint"]
  if (fields.all fun f => keys.contains f.1) && keys.all fun k => fields.any fun f => f.1 == k then
    match (Json.obj fields).field? "version", (Json.obj fields).field? "generation",
      (Json.obj fields).field? "refresh_token", (Json.obj fields).field? "account_fingerprint" with
    | some (.int version), some (.int generation), some (.str token), some (.str fingerprint) =>
        some ⟨token, fingerprint, generation, version⟩
    | _, _, _, _ => none
  else none

def decode (value : String) : Except GoogleOAuthError GoogleCredentialEnvelope :=
  if value = "" ∨ maxEnvelopeBytes < Json.octets value.toList then .error .failed
  else
    match Json.loads value with
    | some (.obj fields) =>
        match ofFields fields with
        | some e =>
            if e.wellFormed then
              match e.encode with
              | .ok _ => .ok e
              | .error failure => .error failure
            else .error .failed
        | none => .error .failed
    | _ => .error .failed

/-! ## What is written is read -/

theorem readable_json (e : GoogleCredentialEnvelope) : Json.Readable e.json := by
  simp [json, Json.Readable, Json.ReadableFields]

theorem sortKeys_json (e : GoogleCredentialEnvelope) : e.json.sortKeys = e.json := by
  simp [json, Json.sortKeys, Json.sortFields, List.insertionSort]

theorem encode_eq {e : GoogleCredentialEnvelope} {text : String} (h : e.encode = .ok text) :
    text = String.ofList (Json.render Json.compact e.json) := by
  unfold encode at h
  split at h
  · cases h
  · dsimp only at h
    split at h
    · cases h
    · rw [← Except.ok.inj h, Json.canonical, sortKeys_json]

theorem loads_encode {e : GoogleCredentialEnvelope} {text : String} (h : e.encode = .ok text) :
    Json.loads text = some e.json := by
  rw [encode_eq h]
  exact Json.loads_render Json.compact_legible (readable_json e)

theorem ofFields_json (e : GoogleCredentialEnvelope) {fields : List (String × Json)}
    (h : e.json = .obj fields) : ofFields fields = some e := by
  obtain rfl := Json.obj.inj h
  rfl

/-- A text that an envelope was written as is read as that envelope, if at all. -/
theorem decode_encode {e e' : GoogleCredentialEnvelope} {text : String} (h : e.encode = .ok text)
    (hread : decode text = .ok e') : e' = e := by
  unfold decode at hread
  split at hread
  · cases hread
  rw [loads_encode h] at hread
  dsimp only [json] at hread
  rw [ofFields_json e rfl] at hread
  dsimp only at hread
  split at hread
  · split at hread
    · exact (Except.ok.inj hread).symm
    · cases hread
  · cases hread

theorem encode_bounded {e : GoogleCredentialEnvelope} {text : String} (h : e.encode = .ok text) :
    text ≠ "" ∧ Json.octets text.toList ≤ maxEnvelopeBytes := by
  have heq := encode_eq h
  unfold encode at h
  split at h
  · cases h
  · dsimp only at h
    split at h
    · cases h
    · next hle =>
        obtain rfl := Except.ok.inj h
        refine ⟨fun hempty => ?_, Nat.le_of_not_lt hle⟩
        rw [heq] at hempty
        have hchars := congrArg String.toList hempty
        rw [String.toList_ofList, json, Json.render] at hchars
        cases hchars

theorem decode_ok {e : GoogleCredentialEnvelope} {text : String} (h : e.encode = .ok text)
    (hform : e.wellFormed = true) : decode text = .ok e := by
  obtain ⟨hne, hle⟩ := encode_bounded h
  unfold decode
  rw [if_neg fun hc => hc.elim hne (Nat.not_lt.mpr hle)]
  rw [loads_encode h]
  dsimp only [json]
  rw [ofFields_json e rfl]
  dsimp only
  rw [if_pos hform, h]

theorem decode_wellFormed {e : GoogleCredentialEnvelope} {text : String}
    (h : decode text = .ok e) : e.wellFormed = true := by
  unfold decode at h
  split at h
  · cases h
  split at h
  · split at h
    · split at h
      · next hform =>
          split at h
          · obtain rfl := Except.ok.inj h
            exact hform
          · cases h
      · cases h
    · cases h
  · cases h

end GoogleCredentialEnvelope

end GoogleOauth

end SecondBrain
