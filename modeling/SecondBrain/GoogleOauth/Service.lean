import SecondBrain.Calendar.Model
import SecondBrain.GoogleOauth.Envelope
import SecondBrain.Lib.Machine

/-!
# The credential under one reference

Any number of calls refresh, reauthorize and revoke one credential. A call reads it, talks
to the provider for as long as that takes and writes what it made of the answer. The write
and the read before it are made under the lock of the reference. A revocation takes no
lock. A read or a write of the store is one step, and may fail.
-/

namespace SecondBrain

open Lib

namespace GoogleOauth

inductive CredentialStoreError where
  | error
  | missing
  | locked
  | unavailable
deriving DecidableEq, Repr

inductive ServiceError where
  | oauth (e : GoogleOAuthError)
  | store (e : CredentialStoreError)
  /-- An exception that nothing here handles. -/
  | raised
deriving DecidableEq, Repr

/-! ## The store -/

/-- `_MAX_SECRET_BYTES`. -/
def maxSecretBytes : Nat := 2560

/-- What the store of the platform takes. -/
def windowsTakes (secret : String) : Bool :=
  !secret.isEmpty && decide (Json.octets secret.toList ≤ maxSecretBytes)

/-- The store of the tests takes everything. -/
def fakeTakes (_ : String) : Bool := true

variable (takes : String → Bool)

/-- `read`. -/
def readSecret (fault : Option CredentialStoreError) (secret : Option String) :
    Except ServiceError String :=
  match fault, secret with
  | some e, _ => .error (.store e)
  | none, none => .error (.store .missing)
  | none, some text => .ok text

/-- `replace`: only what is there is replaced. -/
def replaceSecret (fault : Option CredentialStoreError) (secret : Option String) (new : String) :
    Except ServiceError String :=
  match fault, secret with
  | some e, _ => .error (.store e)
  | none, none => .error (.store .missing)
  | none, some _ => if takes new then .ok new else .error (.store .error)

/-- `revoke`: whether the credential is gone. -/
def revokeSecret (fault : Option CredentialStoreError) (secret : Option String) : Bool :=
  fault.isNone && secret.isSome

/-! ## The provider -/

structure TokenResponse where
  accessToken : String
  scope : String
  refreshToken : Option String
deriving DecidableEq

/-- How a call of the provider ends. -/
inductive ProviderAnswer where
  | failed (e : GoogleOAuthError)
  | raised
  | tokens (response : TokenResponse)
  /-- `_authorize_envelope` was gone through. -/
  | authorized (refreshToken accountFingerprint : String)
  | done
deriving DecidableEq

def scopes : List String := ["openid", "https://www.googleapis.com/auth/calendar.events.readonly"]

/-- `_validate_scopes`. -/
def validScopes (scope : String) : Bool :=
  let words := ((scope.toList.splitOnP Calendar.isSpace).filter (· ≠ [])).map String.ofList
  (words.all fun w => scopes.contains w) && scopes.all fun w => words.contains w

/-- The envelope of a new authorization. -/
def envelope (refreshToken accountFingerprint : String) : GoogleCredentialEnvelope :=
  { refreshToken := refreshToken, accountFingerprint := accountFingerprint }

/-! ## Calls -/

inductive RefreshPhase where
  | arrived
  | started (original : GoogleCredentialEnvelope)
  | exchanged (original : GoogleCredentialEnvelope) (accessToken encoded : String)
  | holding (original : GoogleCredentialEnvelope) (accessToken encoded : String)
  | compared (original : GoogleCredentialEnvelope) (accessToken encoded : String)
  | answered (answer : Except ServiceError String)

structure AuthorizationResult where
  accountFingerprint : String
deriving DecidableEq

inductive ReauthorizePhase where
  | arrived
  | authorized (candidate : GoogleCredentialEnvelope)
  | holding (candidate : GoogleCredentialEnvelope)
  | compared (current : GoogleCredentialEnvelope) (encoded : String)
  | answered (answer : Except ServiceError AuthorizationResult)

structure RevocationResult where
  providerRevoked : Bool
  localDeleted : Bool
deriving DecidableEq

inductive RevokePhase where
  | arrived
  | read (envelope : GoogleCredentialEnvelope)
  | told (providerRevoked : Bool)
  | answered (answer : Except ServiceError RevocationResult)

inductive Call where
  | refresh (phase : RefreshPhase)
  | reauthorize (phase : ReauthorizePhase)
  | revoke (phase : RevokePhase)

/-- What the store holds under the reference, whether it was ever installed, who has the
lock, and the calls. -/
structure Vault where
  secret : Option String := none
  installed : Bool := false
  lock : Option Nat := none
  calls : List Call := []

/-- What a step makes of a call and of what it shares. -/
structure Moved where
  call : Call
  secret : Option String
  lock : Option Nat

/-- `decode` of what was read. -/
def readEnvelope (fault : Option CredentialStoreError) (secret : Option String) :
    Except ServiceError GoogleCredentialEnvelope := do
  let text ← readSecret fault secret
  match GoogleCredentialEnvelope.decode text with
  | .ok e => return e
  | .error failure => throw (.oauth failure)

/-- The envelope that a refresh writes. -/
def GoogleCredentialEnvelope.rotated (original : GoogleCredentialEnvelope)
    (refreshToken : Option String) : GoogleCredentialEnvelope :=
  { refreshToken := (refreshToken.filter (· ≠ "")).getD original.refreshToken
    accountFingerprint := original.accountFingerprint
    generation := original.generation + 1 }

/-- `refresh`, from the answer of the provider to the lock. -/
def exchange (original : GoogleCredentialEnvelope) :
    ProviderAnswer → Except ServiceError (String × String)
  | .failed e => .error (.oauth e)
  | .tokens response =>
      if validScopes response.scope then
        match (original.rotated response.refreshToken).encode with
        | .ok encoded => .ok (response.accessToken, encoded)
        | .error failure => .error (.oauth failure)
      else .error (.oauth .scopeInvalid)
  | .raised | .authorized _ _ | .done => .error .raised

variable (i : Nat) (secret : Option String) (lock : Option Nat)
  (fault : Option CredentialStoreError) (answer : ProviderAnswer)

/-- The lock is free, and is taken. -/
def acquire (call : Call) : Option Moved :=
  if lock.isNone then some ⟨call, secret, some i⟩ else none

def advanceRefresh : RefreshPhase → Option Moved
  | .arrived =>
      match readEnvelope fault secret with
      | .error e => some ⟨.refresh (.answered (.error e)), secret, lock⟩
      | .ok original => some ⟨.refresh (.started original), secret, lock⟩
  | .started original =>
      match exchange original answer with
      | .error e => some ⟨.refresh (.answered (.error e)), secret, lock⟩
      | .ok (accessToken, encoded) =>
          some ⟨.refresh (.exchanged original accessToken encoded), secret, lock⟩
  | .exchanged original accessToken encoded =>
      acquire i secret lock (.refresh (.holding original accessToken encoded))
  | .holding original accessToken encoded =>
      match readEnvelope fault secret with
      | .error e => some ⟨.refresh (.answered (.error e)), secret, none⟩
      | .ok current =>
          if current.generation ≠ original.generation then
            some ⟨.refresh (.answered (.error (.oauth .replay))), secret, none⟩
          else some ⟨.refresh (.compared original accessToken encoded), secret, lock⟩
  | .compared _ accessToken encoded =>
      match replaceSecret takes fault secret encoded with
      | .error e => some ⟨.refresh (.answered (.error e)), secret, none⟩
      | .ok text => some ⟨.refresh (.answered (.ok accessToken)), some text, none⟩
  | .answered _ => none

/-- The envelope that a reauthorization writes. -/
def GoogleCredentialEnvelope.renewed (current candidate : GoogleCredentialEnvelope) :
    GoogleCredentialEnvelope :=
  { refreshToken := candidate.refreshToken
    accountFingerprint := current.accountFingerprint
    generation := current.generation + 1 }

def advanceReauthorize : ReauthorizePhase → Option Moved
  | .arrived =>
      match answer with
      | .authorized refreshToken accountFingerprint =>
          some ⟨.reauthorize (.authorized (envelope refreshToken accountFingerprint)), secret, lock⟩
      | .failed e => some ⟨.reauthorize (.answered (.error (.oauth e))), secret, lock⟩
      | .raised | .tokens _ | .done =>
          some ⟨.reauthorize (.answered (.error .raised)), secret, lock⟩
  | .authorized candidate => acquire i secret lock (.reauthorize (.holding candidate))
  | .holding candidate =>
      match readEnvelope fault secret with
      | .error e => some ⟨.reauthorize (.answered (.error e)), secret, none⟩
      | .ok current =>
          if candidate.accountFingerprint ≠ current.accountFingerprint then
            some ⟨.reauthorize (.answered (.error (.oauth .identityInvalid))), secret, none⟩
          else
            match (current.renewed candidate).encode with
            | .error failure =>
                some ⟨.reauthorize (.answered (.error (.oauth failure))), secret, none⟩
            | .ok encoded => some ⟨.reauthorize (.compared current encoded), secret, lock⟩
  | .compared current encoded =>
      match replaceSecret takes fault secret encoded with
      | .error e => some ⟨.reauthorize (.answered (.error e)), secret, none⟩
      | .ok text =>
          some ⟨.reauthorize (.answered (.ok ⟨current.accountFingerprint⟩)), some text, none⟩
  | .answered _ => none

def advanceRevoke : RevokePhase → Option Moved
  | .arrived =>
      match readEnvelope fault secret with
      | .error e => some ⟨.revoke (.answered (.error e)), secret, lock⟩
      | .ok envelope => some ⟨.revoke (.read envelope), secret, lock⟩
  | .read _ =>
      match answer with
      | .done => some ⟨.revoke (.told true), secret, lock⟩
      | .failed .providerFailed => some ⟨.revoke (.told false), secret, lock⟩
      | .failed e => some ⟨.revoke (.answered (.error (.oauth e))), secret, lock⟩
      | .raised | .tokens _ | .authorized _ _ =>
          some ⟨.revoke (.answered (.error .raised)), secret, lock⟩
  | .told providerRevoked =>
      if revokeSecret fault secret then
        some ⟨.revoke (.answered (.ok ⟨providerRevoked, true⟩)), none, lock⟩
      else some ⟨.revoke (.answered (.ok ⟨providerRevoked, false⟩)), secret, lock⟩
  | .answered _ => none

def advance : Call → Option Moved
  | .refresh phase => advanceRefresh takes i secret lock fault answer phase
  | .reauthorize phase => advanceReauthorize takes i secret lock fault answer phase
  | .revoke phase => advanceRevoke secret lock fault answer phase

/-- The call as it is when its thread has ended, if it was at work. -/
def Call.stopped : Call → Option Call
  | .refresh (.answered _) => none
  | .refresh _ => some (.refresh (.answered (.error .raised)))
  | .reauthorize (.answered _) => none
  | .reauthorize _ => some (.reauthorize (.answered (.error .raised)))
  | .revoke (.answered _) => none
  | .revoke _ => some (.revoke (.answered (.error .raised)))

/-- A call that has just come. -/
inductive Request where
  | refresh
  | reauthorize
  | revoke
deriving DecidableEq, Repr

def Request.call : Request → Call
  | .refresh => .refresh .arrived
  | .reauthorize => .reauthorize .arrived
  | .revoke => .revoke .arrived

inductive VaultLabel where
  /-- `authorize`: the reference is new, and the envelope is installed under it. -/
  | install (refreshToken accountFingerprint : String)
  | arrive (q : Request)
  | step (i : Nat) (fault : Option CredentialStoreError) (answer : ProviderAnswer)
  | stop (i : Nat)

def Vault.place (v : Vault) (i : Nat) (m : Moved) : Vault :=
  { v with secret := m.secret, lock := m.lock, calls := v.calls.set i m.call }

def Vault.next (v : Vault) : VaultLabel → Option Vault
  | .install refreshToken accountFingerprint =>
      match (envelope refreshToken accountFingerprint).encode with
      | .ok text =>
          if v.installed || !takes text then none
          else some { v with secret := some text, installed := true }
      | .error _ => none
  | .arrive q => some { v with calls := v.calls ++ [q.call] }
  | .step i fault answer => do
      let call ← v.calls[i]?
      let moved ← advance takes i v.secret v.lock fault answer call
      return v.place i moved
  | .stop i => do
      let call ← v.calls[i]?
      let stopped ← call.stopped
      return v.place i ⟨stopped, v.secret, if v.lock = some i then none else v.lock⟩

/-- It starts with nothing. -/
def vault : Machine Vault VaultLabel where
  start v := v = {}
  next := Vault.next takes

end GoogleOauth

end SecondBrain
