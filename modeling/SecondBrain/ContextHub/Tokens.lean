import SecondBrain.ContextHub.Model
import SecondBrain.Lib.DateTime
import SecondBrain.Lib.JsonMeasure
import SecondBrain.Lib.JsonReader
import SecondBrain.Lib.Sealing

/-!
# Cursors and reopen identities

A token is the sealed text of an object: what it is for, and its data. A cursor carries the
request it continues, in a canonical form, and where each family of the request is; what
it is bound to is compared when it is opened. The size of a cursor is only looked at then.
-/

namespace SecondBrain

open Lib

namespace ContextHub

def contractVersion : String := "context-hub-v1"
def orderingMode : String := "family-native-v1"
def maxCursorCharacters : Nat := 4096
def maxReopenIdCharacters : Nat := 4096

def cursorDomain : String := "second-brain:context-hub:cursor:v1"
def reopenDomain : String := "second-brain:context-hub:reopen:v1"
def tokenVersion : Int := 1
def kdfName : String := "pbkdf2-hmac-sha256"
def pbkdf2Iterations : Nat := 100000

/-- The exception of the tokens, and the one of a map without a key. -/
inductive TokenFailure where
  | contextTokenError
  | keyError
deriving DecidableEq, Repr

/-! ## Values as texts -/

def ContextFamily.value : ContextFamily → String
  | .localSource => "local_source"
  | .github => "github"
  | .googleCalendar => "google_calendar"

/-- `ContextFamily(value)`. -/
def ContextFamily.ofValue? (value : String) : Option ContextFamily :=
  familyOrder.find? fun family => family.value == value

def ContextKind.value : ContextKind → String
  | .sourceChunk => "source_chunk"
  | .repository => "repository"
  | .issue => "issue"
  | .pullRequest => "pull_request"
  | .calendarEvent => "calendar_event"

def TrustLabel.value : TrustLabel → String
  | .localAudited => "local_audited"
  | .quarantinedExternal => "quarantined_external"

def ContextState.value : ContextState → String
  | .extracted => "extracted"
  | .current => "current"
  | .stale => "stale"
  | .deleted => "deleted"

@[simp] theorem ContextFamily.ofValue?_value (family : ContextFamily) :
    ContextFamily.ofValue? family.value = some family := by
  cases family <;> decide

/-- How the scalar values of a model are dumped as JSON and validated. -/
structure Scalars where
  datetimeText : Instant → String
  datetime : Json → Option Instant
  uuid : Json → Option Uuid
  int : Json → Option Int

/-- What is dumped is valid, as what it was dumped from; an instant is that of a clock. -/
structure Scalars.Lawful (v : Scalars) : Prop where
  datetime : ∀ w : Wall, v.datetime (.str (v.datetimeText w.number)) = some w.number
  uuid : ∀ id : Uuid, v.uuid (.str id.text) = some id
  int : ∀ n, v.int (.int n) = some n

variable (r : Keyring) (v : Scalars)

/-! ## Models -/

/-- `ContextScope.model_dump(mode="json")`. -/
def ContextScope.dump (scope : ContextScope) : Json :=
  .obj [("project_id", scope.projectId.elim .null fun id => .str id.text),
    ("unassigned", .bool scope.unassigned)]

/-- `ContextPosition.model_dump(mode="json")`. -/
def ContextPosition.dump : ContextPosition → Json
  | .localSource p =>
      .obj [("family", .str ContextFamily.localSource.value),
        ("source_created_at", .str (v.datetimeText p.sourceCreatedAt)),
        ("source_id", .str p.sourceId.text), ("chunk_index", .int p.chunkIndex),
        ("chunk_id", .str p.chunkId.text)]
  | .github p =>
      .obj [("family", .str ContextFamily.github.value),
        ("application_revision", .int p.applicationRevision),
        ("revision_id", .str p.revisionId.text)]
  | .googleCalendar p =>
      .obj [("family", .str ContextFamily.googleCalendar.value),
        ("application_revision", .int p.applicationRevision),
        ("revision_id", .str p.revisionId.text)]

/-- `_POSITION_ADAPTER.validate_python`: the family tells the model, which has all of its
fields and no other. -/
def ContextPosition.validate (raw : Json) : Option ContextPosition := do
  let .obj fields := raw | none
  let .str tag ← raw.field? "family" | none
  match ← ContextFamily.ofValue? tag with
  | .localSource =>
      if Json.hasKeys fields
          ["family", "source_created_at", "source_id", "chunk_index", "chunk_id"] then
        return .localSource
          { sourceCreatedAt := ← v.datetime (← raw.field? "source_created_at")
            sourceId := ← v.uuid (← raw.field? "source_id")
            chunkIndex := ← v.int (← raw.field? "chunk_index")
            chunkId := ← v.uuid (← raw.field? "chunk_id") }
      else none
  | .github =>
      if Json.hasKeys fields ["family", "application_revision", "revision_id"] then
        return .github
          { applicationRevision := ← v.int (← raw.field? "application_revision")
            revisionId := ← v.uuid (← raw.field? "revision_id") }
      else none
  | .googleCalendar =>
      if Json.hasKeys fields ["family", "application_revision", "revision_id"] then
        return .googleCalendar
          { applicationRevision := ← v.int (← raw.field? "application_revision")
            revisionId := ← v.uuid (← raw.field? "revision_id") }
      else none

/-- `ContextProvenance.model_dump(mode="json")`. -/
def ContextProvenance.dump : ContextProvenance → Json
  | .localSource p =>
      .obj [("family", .str ContextFamily.localSource.value), ("source_id", .str p.sourceId.text),
        ("document_id", .str p.documentId.text), ("chunk_id", .str p.chunkId.text),
        ("chunk_index", .int p.chunkIndex), ("content_hash", .str p.contentHash)]
  | .github p =>
      .obj [("family", .str ContextFamily.github.value), ("account_id", .str p.accountId.text),
        ("external_resource_id", .str p.externalResourceId),
        ("external_item_id", .str p.externalItemId), ("revision_id", .str p.revisionId.text),
        ("application_revision", .int p.applicationRevision)]
  | .googleCalendar p =>
      .obj [("family", .str ContextFamily.googleCalendar.value),
        ("account_revision_id", .str p.accountRevisionId.text),
        ("calendar_identity_id", .str p.calendarIdentityId.text),
        ("occurrence_key", .str p.occurrenceKey),
        ("event_revision_id", .str p.eventRevisionId.text),
        ("application_revision", .int p.applicationRevision),
        ("evidence_sync_run_id", .str p.evidenceSyncRunId.text),
        ("evidence_version", .str "calendar-observations-v1")]

/-! ## Sealed objects -/

/-- `_metadata`. -/
def metadata (domain : String) : List (String × Json) :=
  [("token_version", .int tokenVersion), ("domain", .str domain), ("kdf", .str kdfName),
    ("iterations", .int pbkdf2Iterations)]

/-- `_key`. -/
def key (secret domain : String) (salt : Bytes) : r.Key :=
  r.derive (utf8 secret) (utf8 (domain ++ ":") ++ salt) pbkdf2Iterations

/-- `_aad`. -/
def aad (domain : String) (salt : Bytes) : Bytes :=
  utf8 (Json.obj (metadata domain ++
    [("salt", .str (String.ofList (Base64.padded (Base64.encode salt))))])).canonical

/-- The text that is sealed. -/
def payload (domain : String) (value : Json) : Bytes :=
  utf8 (Json.obj (metadata domain ++ [("data", value)])).canonical

/-- `_seal`. -/
def sealValue (value : Json) (domain secret : String) (draw : RandomBytes) : Sealed :=
  r.seal (key r secret domain draw.salt) draw (payload domain value) (aad domain draw.salt)

/-- The data of an object of the domain. -/
def unwrap (decoded : Json) (domain : String) : Except TokenFailure Json :=
  match decoded with
  | .obj fields =>
      if !Json.hasKeys fields ["token_version", "domain", "kdf", "iterations", "data"] ||
          !(metadata domain).all fun m =>
            (decoded.field? m.1).any fun j => Json.equal j m.2 then
        .error .contextTokenError
      else
        match decoded.field? "data" with
        | some (.obj data) => .ok (.obj data)
        | _ => .error .contextTokenError
  | _ => .error .contextTokenError

/-- `_open`. -/
def opened (value domain : String) (maximum : Nat) (secret : String) :
    Except TokenFailure Json :=
  match Sealed.read value maximum with
  | none => .error .contextTokenError
  | some s =>
      match r.aead.decrypt (key r secret domain s.salt) s.nonce s.ciphertext
        (aad domain s.salt) with
      | none => .error .contextTokenError
      | some bytes =>
          match (ofUtf8? bytes).bind Json.loads with
          | none => .error .contextTokenError
          | some decoded => unwrap decoded domain

/-! ## Cursors -/

/-- A dictionary over the families. -/
abbrev FamilyMap (α : Type) := ContextFamily → Option α

abbrev Positions := FamilyMap (Option ContextPosition)

abbrev Flags := FamilyMap Bool

def canonicalRequest (request : ContextHubQuery) : Json :=
  .obj [("contract", .str contractVersion), ("scope", request.scope.dump),
    ("query", .str request.query), ("families", Json.sortedTexts (request.families.map (·.value))),
    ("kinds", Json.sortedTexts (request.kinds.map (·.value))),
    ("trust", Json.sortedTexts (request.trust.map (·.value))),
    ("states", Json.sortedTexts (request.states.map (·.value))),
    ("page_size", .int request.pageSize), ("ordering", .str orderingMode)]

def group (family : ContextFamily) (exhausted : Bool) (position : Option ContextPosition) :
    Json :=
  .obj [("family", .str family.value), ("exhausted", .bool exhausted),
    ("position", position.elim .null (ContextPosition.dump v))]

def cursorData (request : ContextHubQuery) (groups : List Json) : Json :=
  .obj [("v", .int 1), ("request", canonicalRequest request), ("groups", .arr groups)]

/-- The group of a family, which has to be a key of both maps. -/
def dumpGroup (positions : Positions) (exhausted : Flags) (family : ContextFamily) :
    Except TokenFailure Json :=
  match positions family, exhausted family with
  | some position, some flag => .ok (group v family flag position)
  | _, _ => .error .keyError

def encodeCursor (request : ContextHubQuery) (positions : Positions) (exhausted : Flags)
    (secret : String) (draw : RandomBytes) : Except TokenFailure String := do
  let groups ← request.families.mapM (dumpGroup v positions exhausted)
  return (sealValue r (cursorData request groups) cursorDomain secret draw).token

/-- One group after another, with what has been read of the others. -/
def readGroups (families : List ContextFamily) :
    List Json → Positions → Flags → Except TokenFailure (Positions × Flags)
  | [], positions, exhausted => .ok (positions, exhausted)
  | raw :: rest, positions, exhausted =>
      match raw with
      | .obj fields =>
          if !Json.hasKeys fields ["family", "exhausted", "position"] then
            .error .contextTokenError
          else
            match raw.field? "family", raw.field? "exhausted", raw.field? "position" with
            | some (.str tag), some (.bool flag), some dumped =>
                match ContextFamily.ofValue? tag with
                | none => .error .contextTokenError
                | some family =>
                    if !families.contains family || (positions family).isSome then
                      .error .contextTokenError
                    else
                      match if dumped = .null then some none
                        else (ContextPosition.validate v dumped).map some with
                      | none => .error .contextTokenError
                      | some position =>
                          if position.any fun p => p.family != family then
                            .error .contextTokenError
                          else
                            readGroups families rest
                              (Function.update positions family (some position))
                              (Function.update exhausted family (some flag))
            | _, _, _ => .error .contextTokenError
      | _ => .error .contextTokenError

/-- What a cursor's data says under a request. -/
def readCursor (data : Json) (request : ContextHubQuery) :
    Except TokenFailure (Positions × Flags) :=
  match data with
  | .obj fields =>
      if !Json.hasKeys fields ["v", "request", "groups"] ||
          !(data.field? "v").any fun j => Json.equal j (.int 1) then
        .error .contextTokenError
      else if !(data.field? "request").any fun j => Json.equal j (canonicalRequest request) then
        .error .contextTokenError
      else
        match data.field? "groups" with
        | some (.arr groups) =>
            if groups.length ≠ request.families.length then .error .contextTokenError
            else do
              let (positions, exhausted) ←
                readGroups v request.families groups (fun _ => none) (fun _ => none)
              if familyOrder.all fun family =>
                  (positions family).isSome == request.families.contains family then
                return (positions, exhausted)
              else .error .contextTokenError
        | _ => .error .contextTokenError
  | _ => .error .contextTokenError

def decodeCursor (value : String) (request : ContextHubQuery) (secret : String) :
    Except TokenFailure (Positions × Flags) :=
  (opened r value cursorDomain maxCursorCharacters secret).bind fun data =>
    readCursor v data request

/-! ## Reopen identities -/

def reopenData (scope : ContextScope) (provenance : ContextProvenance) : Json :=
  .obj [("v", .int 1), ("scope", scope.dump), ("provenance", provenance.dump)]

def encodeReopen (scope : ContextScope) (provenance : ContextProvenance) (secret : String)
    (draw : RandomBytes) : String :=
  (sealValue r (reopenData scope provenance) reopenDomain secret draw).token

end ContextHub

end SecondBrain
