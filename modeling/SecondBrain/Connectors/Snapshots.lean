import Mathlib.Data.List.Infix
import SecondBrain.Lib.IsoFormat
import SecondBrain.Credentials.Contract
import SecondBrain.Connectors.Model

/-!
# Reading snapshots

What the provider answers is never repaired. A page is accepted as a whole or
fails with a code. A snapshot is what is kept of a repository, an issue or a
pull request: the identity, a version made of the time of the last update, a
title, and a body that is the canonical text of a few fields.
-/

namespace SecondBrain

open Lib

namespace Connectors

/-- The platform: its digest, its case folding and the database's. -/
structure Platform where
  sha256 : List UInt8 → String
  casefold : String → String
  lower : String → String

/-! ## Values -/

def secretMarkers : List String :=
  ["ghp_", "github_pat_", "bearer ", "authorization", "password", "client_secret",
    "refresh_token", "access_token", "cookie"]

/-- `_safe`. It is asked about ASCII texts only. -/
def safe (value : String) : Bool :=
  secretMarkers.all fun marker =>
    !decide (marker.toList <:+: value.toList.map Char.toLower)

def isLower (c : Char) : Bool := decide ('a' ≤ c ∧ c ≤ 'z')

def isAlnum (c : Char) : Bool := isLower c || decide ('A' ≤ c ∧ c ≤ 'Z') || c.isDigit

/-- One character, and up to so many more. -/
def word (first other : Char → Bool) (more : Nat) : List Char → Bool
  | [] => false
  | c :: rest => first c && decide (rest.length ≤ more) && rest.all other

/-- `_IDENTITY`. -/
def safeIdentity (value : String) : Bool :=
  word isAlnum (fun c => isAlnum c || ":._-".toList.contains c) 254 value.toList && safe value

/-- `_SAFE_CODE`. -/
def safeCode (value : String) : Bool :=
  word isLower (fun c => isLower c || c.isDigit || c == '_') 99 value.toList && safe value

/-- `_RESOURCE`. -/
def validResource (value : String) : Bool :=
  let part := word isAlnum (fun c => isAlnum c || "._-".toList.contains c) 99
  match value.toList.span (· ≠ '/') with
  | (owner, _ :: name) => part owner && part name
  | (_, []) => false

/-- `_SHA256`. -/
def isDigest (value : String) : Bool :=
  value.toList.length == 64 && value.toList.all fun c => c.isDigit || decide ('a' ≤ c ∧ c ≤ 'f')

/-- `validate_account_values`. -/
def validAccountValues (account : ConnectorAccount) : Bool :=
  safeIdentity account.externalAccountId && isDigest account.externalAccountFingerprint &&
    validCredentialReference account.credentialReference &&
    isDigest account.grantedScopeFingerprint &&
    decide (1 ≤ account.resourceAllowlist.length ∧ account.resourceAllowlist.length ≤ 32) &&
    decide account.resourceAllowlist.Nodup &&
    account.resourceAllowlist.all fun value => validResource value && safe value

def encode (s : String) : List UInt8 := s.toUTF8.data.toList

/-- `_external_fingerprint`. -/
def externalFingerprint (p : Platform) (identity : String) : String :=
  p.sha256 (encode ("github\n" ++ identity))

def applicationReadPolicy : List String := ["metadata_read", "issues_read", "pull_requests_read"]

def grantedScopeFingerprint (p : Platform) (scopeNames : List String) : String :=
  p.sha256 (encode ("\n".intercalate (scopeNames.insertionSort (· ≤ ·))))

/-- `to_bytes(8, "big")`. -/
def bigEndian8 (n : Nat) : List UInt8 :=
  (List.range 8).map fun i => UInt8.ofNat (n / 256 ^ (7 - i))

def snapshotContentHash (p : Platform) (title body : String) : String :=
  p.sha256 (bigEndian8 (encode title).length ++ encode title ++ encode body)

/-! ## Items -/

structure Snapshot where
  itemId : String
  title : String
  body : String
  version : String
deriving DecidableEq

/-- Whether a limit is passed, or something else is wrong. -/
inductive ItemDefect where
  | oversized
  | invalid
deriving DecidableEq, Repr

def resourceId (repoId : Nat) : String := "github_repo:" ++ toString repoId

/-- `validate_item_values`, but for the digest. -/
def validateItemValues (externalResourceId externalItemId version title body : String) :
    Except ItemDefect Unit :=
  if ¬ safeIdentity externalResourceId ∨ ¬ safeIdentity externalItemId then .error .invalid
  else if ¬ (1 ≤ version.length ∧ version.length ≤ 255) ∨ ¬ safe version then .error .invalid
  else if 500 < title.length ∨ 2000 < title.utf8ByteSize then .error .oversized
  else if 20000 < body.length ∨ 80000 < body.utf8ByteSize then .error .oversized
  else .ok ()

def invalidResponse : Fault := .transport "github_invalid_response"

def identityMismatch : Fault := .transport "github_identity_mismatch"

/-- `_validated_snapshot`. -/
def validatedSnapshot (repoId : Nat) (snapshot : Snapshot) : Except Fault Snapshot :=
  match validateItemValues (resourceId repoId) snapshot.itemId snapshot.version snapshot.title
      snapshot.body with
  | .ok () => .ok snapshot
  | .error .oversized => .error (.transport "github_item_oversized")
  | .error .invalid => .error invalidResponse

/-! ## Fields -/

def requiredDict : Json → Except Fault Json
  | .obj fields => .ok (.obj fields)
  | _ => .error invalidResponse

def integer : Option Json → Except Fault Nat
  | some (.int n) => if 1 ≤ n then .ok n.toNat else .error invalidResponse
  | _ => .error invalidResponse

def string : Option Json → Except Fault String
  | some (.str value) => .ok value
  | _ => .error invalidResponse

/-- `_string` with `optional`: nothing stands for the empty text. -/
def optionalString : Option Json → Except Fault String
  | none | some .null => .ok ""
  | value => string value

/-- One or two digits up to the mark, in either case. -/
def shortNumber (mark : Char) (text : List Char) : Option (Nat × List Char) :=
  let (head, rest) := text.span fun c => c.toLower ≠ mark
  match head, rest with
  | [a], _ :: rest => (takeDigits 1 [a]).map fun n => (n.1, rest)
  | [a, b], _ :: rest => (takeDigits 2 [a, b]).map fun n => (n.1, rest)
  | _, _ => none

/-- A day may have a blank for its first digit. -/
def shortDay (text : List Char) : Option (Nat × List Char) :=
  match text with
  | ' ' :: rest => do
      let (day, after) ← shortNumber 't' rest
      if rest.length = after.length + 2 then some (day, after) else none
  | _ => shortNumber 't' text

/-- `strptime` with `%Y-%m-%dT%H:%M:%SZ`, and back. -/
def timestampText (text : List Char) : Option (List Char) := do
  let (year, rest) ← takeDigits 4 text
  let rest ← skip '-' rest
  let (month, rest) ← shortNumber '-' rest
  let (day, rest) ← shortDay rest
  let (hour, rest) ← shortNumber ':' rest
  let (minute, rest) ← shortNumber ':' rest
  let (second, rest) ← shortNumber 'z' rest
  let date ← Date.of? year month day
  if hour < 24 ∧ minute < 60 ∧ second < 60 ∧ rest = [] then
    some (date.chars ++ 'T' :: (digits 2 hour ++ ':' :: (digits 2 minute ++ ':' ::
      (digits 2 second ++ ['Z']))))
  else none

def githubTimestamp (value : Option Json) : Except Fault String := do
  let timestamp ← string value
  match timestampText timestamp.toList with
  | some text => return String.ofList text
  | none => throw invalidResponse

/-! ## Pages -/

def checkFullName (p : Platform) (fullName expected : String) : Except Fault Unit :=
  if p.casefold fullName = p.casefold expected then .ok () else .error identityMismatch

/-- The fields of a repository that its body is made of. -/
def repositoryBody (value : Json) : Except Fault Json :=
  match value.field? "archived", (value.field? "description").getD .null, value.field? "private" with
  | some (.bool archived), .null, some (.bool isPrivate) =>
      .ok (.obj [("archived", .bool archived), ("description", .null),
        ("private", .bool isPrivate)])
  | some (.bool archived), .str description, some (.bool isPrivate) =>
      .ok (.obj [("archived", .bool archived), ("description", .str description),
        ("private", .bool isPrivate)])
  | _, _, _ => .error invalidResponse

/-- `_repository_snapshot`: the number of the repository, and the snapshot. -/
def repositorySnapshot (p : Platform) (data : Json) (expected : String) :
    Except Fault (Nat × Snapshot) := do
  let value ← requiredDict data
  let repoId ← integer (value.field? "id")
  let fullName ← string (value.field? "full_name")
  checkFullName p fullName expected
  let updatedAt ← githubTimestamp (value.field? "updated_at")
  let normalized ← repositoryBody value
  let snapshot ← validatedSnapshot repoId
    { itemId := resourceId repoId
      title := fullName
      body := normalized.dumps
      version := updatedAt ++ ":" ++ toString repoId }
  return (repoId, snapshot)

def checkUnseen (seen : List Nat) (id : Nat) : Except Fault Unit :=
  if id ∈ seen then .error invalidResponse else .ok ()

def checkOpen (state : String) : Except Fault Unit :=
  if state = "open" ∨ state = "closed" then .ok () else .error invalidResponse

def ResourceType.label : ResourceType → String
  | .repository => "repo"
  | .issue => "issue"
  | .pullRequest => "pull"

/-- One entry of a list, with its number. -/
def listSnapshot (value : Json) (resourceType : ResourceType) (repoId : Nat) (seen : List Nat) :
    Except Fault (Nat × Snapshot) := do
  let id ← integer (value.field? "id")
  checkUnseen seen id
  let title ← string (value.field? "title")
  let body ← optionalString (value.field? "body")
  let state ← string (value.field? "state")
  checkOpen state
  let updatedAt ← githubTimestamp (value.field? "updated_at")
  let number ← integer (value.field? "number")
  let snapshot ← validatedSnapshot repoId
    { itemId := "github_" ++ resourceType.label ++ ":" ++ toString id
      title := title
      body := (Json.obj [("body", .str body), ("number", .int number),
        ("state", .str state)]).dumps
      version := updatedAt ++ ":" ++ toString id }
  return (id, snapshot)

/-- The provider lists a pull request among the issues as well. -/
def listed (resourceType : ResourceType) (value : Json) : Bool :=
  !(resourceType == .issue && (value.field? "pull_request").isSome)

/-- The entries of a list, one after the other. -/
def snapshotsFrom (resourceType : ResourceType) (repoId : Nat) :
    List Nat → List Json → Except Fault (List Snapshot)
  | _, [] => .ok []
  | seen, raw :: rest => do
      let value ← requiredDict raw
      if listed resourceType value then
        let (id, snapshot) ← listSnapshot value resourceType repoId seen
        let snapshots ← snapshotsFrom resourceType repoId (id :: seen) rest
        return snapshot :: snapshots
      else snapshotsFrom resourceType repoId seen rest

/-- `_list_snapshots`. -/
def listSnapshots (data : Json) (resourceType : ResourceType) (repoId : Nat) :
    Except Fault (List Snapshot) :=
  match data with
  | .arr items => snapshotsFrom resourceType repoId [] items
  | _ => .error invalidResponse

end Connectors

end SecondBrain
