import SecondBrain.GoogleOauth.Service

/-!
# Generations fence the writes

A write is made under the lock, by a call that has read the credential since it took the
lock. So what it replaces is what it has read, and the generation it writes is the next
one. A revocation may come in between, and then there is nothing to replace.
-/

namespace SecondBrain

open Lib

namespace GoogleOauth

variable {takes : String → Bool} {v v' : Vault} {i j : Nat} {l : VaultLabel}

/-! ## Moves -/

/-- The store holds the envelope. -/
def Holds (secret : Option String) (e : GoogleCredentialEnvelope) : Prop :=
  ∃ text, secret = some text ∧ GoogleCredentialEnvelope.decode text = .ok e

theorem Holds.unique {secret : Option String} {e e' : GoogleCredentialEnvelope}
    (h : Holds secret e) (h' : Holds secret e') : e' = e := by
  obtain ⟨text, rfl, hread⟩ := h
  obtain ⟨text', htext, hread'⟩ := h'
  obtain rfl := Option.some.inj htext
  rw [hread] at hread'
  exact (Except.ok.inj hread').symm

/-- The text is that of an envelope of the same account with the next generation. -/
def Succeeds (original : GoogleCredentialEnvelope) (text : String) : Prop :=
  ∃ e, GoogleCredentialEnvelope.decode text = .ok e ∧ e.generation = original.generation + 1 ∧
    e.accountFingerprint = original.accountFingerprint

theorem readEnvelope_holds {fault : Option CredentialStoreError} {secret : Option String}
    {e : GoogleCredentialEnvelope} (h : readEnvelope fault secret = .ok e) : Holds secret e := by
  unfold readEnvelope readSecret at h
  cases fault with
  | some failure => cases h
  | none =>
      cases secret with
      | none => cases h
      | some text =>
          cases hread : GoogleCredentialEnvelope.decode text with
          | error failure =>
              simp only [bind, Except.bind, hread] at h
              cases h
          | ok read =>
              simp only [bind, Except.bind, hread] at h
              obtain rfl := Except.ok.inj h
              exact ⟨text, rfl, hread⟩

theorem Holds.wellFormed {secret : Option String} {e : GoogleCredentialEnvelope}
    (h : Holds secret e) : e.wellFormed = true := by
  obtain ⟨text, -, hread⟩ := h
  exact GoogleCredentialEnvelope.decode_wellFormed hread

/-- The next envelope of an account is well formed where the one before is. -/
theorem wellFormed_next {e : GoogleCredentialEnvelope} (h : e.wellFormed = true)
    (refreshToken : String) :
    GoogleCredentialEnvelope.wellFormed
      { refreshToken := refreshToken
        accountFingerprint := e.accountFingerprint
        generation := e.generation + 1 } = true := by
  unfold GoogleCredentialEnvelope.wellFormed at h ⊢
  simp only [Bool.and_eq_true, decide_eq_true_eq] at h ⊢
  obtain ⟨⟨⟨-, hgeneration⟩, hlength⟩, hhex⟩ := h
  exact ⟨⟨⟨trivial, by omega⟩, hlength⟩, hhex⟩

theorem succeeds_encode {e : GoogleCredentialEnvelope} (h : e.wellFormed = true)
    {refreshToken text : String}
    (hencode : GoogleCredentialEnvelope.encode
      { refreshToken := refreshToken
        accountFingerprint := e.accountFingerprint
        generation := e.generation + 1 } = .ok text) : Succeeds e text :=
  ⟨_, GoogleCredentialEnvelope.decode_ok hencode (wellFormed_next h refreshToken), rfl, rfl⟩

/-- The call shares nothing with the others and has read nothing. -/
def Call.free : Call → Bool
  | .refresh .arrived | .refresh (.answered _) => true
  | .reauthorize .arrived | .reauthorize (.authorized _) | .reauthorize (.answered _) => true
  | .revoke _ => true
  | .refresh _ | .reauthorize _ => false

/-- The call is between taking the lock and releasing it. -/
def Call.locking : Call → Bool
  | .refresh (.holding _ _ _) | .refresh (.compared _ _ _) => true
  | .reauthorize (.holding _) | .reauthorize (.compared _ _) => true
  | .refresh _ | .reauthorize _ | .revoke _ => false

/-- The call was answered that it has written. -/
def Call.wrote : Call → Bool
  | .refresh (.answered (.ok _)) | .reauthorize (.answered (.ok _)) => true
  | .refresh _ | .reauthorize _ | .revoke _ => false

/-- The call was answered that it has deleted the credential. -/
def Call.deleted : Call → Bool
  | .revoke (.answered (.ok result)) => result.localDeleted
  | .refresh _ | .reauthorize _ | .revoke _ => false

/-- A refresh comes to an end without a write. -/
def Call.Fails (call call' : Call) : Prop :=
  ∀ phase, call = .refresh phase → ∃ e, call' = .refresh (.answered (.error e))

/-- The moves of a call. -/
inductive CallMove (v : Vault) (i : Nat) : Call → Moved → Prop
  | rest {call call' : Call} :
      call'.free = true → call'.wrote = false → call'.deleted = false → call.Fails call' →
      CallMove v i call ⟨call', v.secret, v.lock⟩
  | released {call call' : Call} :
      call.locking = true → call'.free = true → call'.wrote = false → call'.deleted = false →
      call.Fails call' → CallMove v i call ⟨call', v.secret, none⟩
  | deleted {providerRevoked : Bool} :
      v.secret.isSome = true →
      CallMove v i (.revoke (.told providerRevoked))
        ⟨.revoke (.answered (.ok ⟨providerRevoked, true⟩)), none, v.lock⟩
  | started {original : GoogleCredentialEnvelope} :
      Holds v.secret original →
      CallMove v i (.refresh .arrived) ⟨.refresh (.started original), v.secret, v.lock⟩
  | exchanged {original : GoogleCredentialEnvelope} {accessToken text refreshToken : String} :
      GoogleCredentialEnvelope.encode
        { refreshToken := refreshToken
          accountFingerprint := original.accountFingerprint
          generation := original.generation + 1 } = .ok text →
      CallMove v i (.refresh (.started original))
        ⟨.refresh (.exchanged original accessToken text), v.secret, v.lock⟩
  | locked {original : GoogleCredentialEnvelope} {accessToken text : String} :
      v.lock = none →
      CallMove v i (.refresh (.exchanged original accessToken text))
        ⟨.refresh (.holding original accessToken text), v.secret, some i⟩
  | lockedAuthorized {candidate : GoogleCredentialEnvelope} :
      v.lock = none →
      CallMove v i (.reauthorize (.authorized candidate))
        ⟨.reauthorize (.holding candidate), v.secret, some i⟩
  | compared {original current : GoogleCredentialEnvelope} {accessToken text : String} :
      Holds v.secret current → current.generation = original.generation →
      CallMove v i (.refresh (.holding original accessToken text))
        ⟨.refresh (.compared original accessToken text), v.secret, v.lock⟩
  | comparedAuthorized {candidate current : GoogleCredentialEnvelope} {text : String} :
      Holds v.secret current → Succeeds current text →
      CallMove v i (.reauthorize (.holding candidate))
        ⟨.reauthorize (.compared current text), v.secret, v.lock⟩
  | refreshed {original : GoogleCredentialEnvelope} {accessToken text : String} :
      v.secret.isSome = true →
      CallMove v i (.refresh (.compared original accessToken text))
        ⟨.refresh (.answered (.ok accessToken)), some text, none⟩
  | reauthorized {current : GoogleCredentialEnvelope} {text : String} :
      v.secret.isSome = true →
      CallMove v i (.reauthorize (.compared current text))
        ⟨.reauthorize (.answered (.ok ⟨current.accountFingerprint⟩)), some text, none⟩

theorem acquire_some {secret : Option String} {lock : Option Nat} {call : Call} {m : Moved}
    (h : acquire i secret lock call = some m) : lock = none ∧ m = ⟨call, secret, some i⟩ := by
  unfold acquire at h
  split at h
  · next hnone => exact ⟨Option.isNone_iff_eq_none.mp hnone, (Option.some.inj h).symm⟩
  · cases h

theorem replaceSecret_some {fault : Option CredentialStoreError} {secret : Option String}
    {new text : String} (h : replaceSecret takes fault secret new = .ok text) :
    secret.isSome = true ∧ text = new := by
  unfold replaceSecret at h
  split at h
  · cases h
  · cases h
  · split at h
    · exact ⟨rfl, (Except.ok.inj h).symm⟩
    · cases h

theorem exchange_ok {original : GoogleCredentialEnvelope} {answer : ProviderAnswer}
    {accessToken text : String} (h : exchange original answer = .ok (accessToken, text)) :
    ∃ refreshToken, GoogleCredentialEnvelope.encode
      { refreshToken := refreshToken
        accountFingerprint := original.accountFingerprint
        generation := original.generation + 1 } = .ok text := by
  unfold exchange at h
  split at h
  · cases h
  · split at h
    · split at h
      · next hencode =>
          obtain ⟨-, rfl⟩ := Prod.mk.inj (Except.ok.inj h)
          exact ⟨_, hencode⟩
      · cases h
    · cases h
  all_goals cases h

section

variable {fault : Option CredentialStoreError} {answer : ProviderAnswer} {m : Moved}

theorem advanceRefresh_move {phase : RefreshPhase}
    (h : advanceRefresh takes i v.secret v.lock fault answer phase = some m) :
    CallMove v i (.refresh phase) m := by
  cases phase with
  | arrived =>
      unfold advanceRefresh at h
      dsimp only at h
      split at h
      · obtain rfl := Option.some.inj h
        exact .rest rfl rfl rfl fun _ _ => ⟨_, rfl⟩
      · next hread =>
          obtain rfl := Option.some.inj h
          exact .started (readEnvelope_holds hread)
  | started original =>
      unfold advanceRefresh at h
      dsimp only at h
      split at h
      · obtain rfl := Option.some.inj h
        exact .rest rfl rfl rfl fun _ _ => ⟨_, rfl⟩
      · next hexchange =>
          obtain rfl := Option.some.inj h
          obtain ⟨refreshToken, hencode⟩ := exchange_ok hexchange
          exact .exchanged hencode
  | exchanged original accessToken text =>
      obtain ⟨hnone, rfl⟩ := acquire_some h
      exact .locked hnone
  | holding original accessToken text =>
      unfold advanceRefresh at h
      dsimp only at h
      split at h
      · obtain rfl := Option.some.inj h
        exact .released rfl rfl rfl rfl fun _ _ => ⟨_, rfl⟩
      next hread =>
      split at h
      · obtain rfl := Option.some.inj h
        exact .released rfl rfl rfl rfl fun _ _ => ⟨_, rfl⟩
      · next hgeneration =>
          obtain rfl := Option.some.inj h
          exact .compared (readEnvelope_holds hread) (by simpa using hgeneration)
  | compared original accessToken text =>
      unfold advanceRefresh at h
      dsimp only at h
      split at h
      · obtain rfl := Option.some.inj h
        exact .released rfl rfl rfl rfl fun _ _ => ⟨_, rfl⟩
      · next hreplace =>
          obtain rfl := Option.some.inj h
          obtain ⟨hsome, rfl⟩ := replaceSecret_some hreplace
          exact .refreshed hsome
  | answered answer => cases h

theorem advanceReauthorize_move {phase : ReauthorizePhase}
    (h : advanceReauthorize takes i v.secret v.lock fault answer phase = some m) :
    CallMove v i (.reauthorize phase) m := by
  cases phase with
  | arrived =>
      unfold advanceReauthorize at h
      dsimp only at h
      split at h <;> obtain rfl := Option.some.inj h <;> exact .rest rfl rfl rfl nofun
  | authorized candidate =>
      obtain ⟨hnone, rfl⟩ := acquire_some h
      exact .lockedAuthorized hnone
  | holding candidate =>
      unfold advanceReauthorize at h
      dsimp only at h
      split at h
      · obtain rfl := Option.some.inj h
        exact .released rfl rfl rfl rfl nofun
      next hread =>
      split at h
      · obtain rfl := Option.some.inj h
        exact .released rfl rfl rfl rfl nofun
      split at h
      · obtain rfl := Option.some.inj h
        exact .released rfl rfl rfl rfl nofun
      · next hencode =>
          obtain rfl := Option.some.inj h
          have hholds := readEnvelope_holds hread
          exact .comparedAuthorized hholds (succeeds_encode hholds.wellFormed hencode)
  | compared current text =>
      unfold advanceReauthorize at h
      dsimp only at h
      split at h
      · obtain rfl := Option.some.inj h
        exact .released rfl rfl rfl rfl nofun
      · next hreplace =>
          obtain rfl := Option.some.inj h
          obtain ⟨hsome, rfl⟩ := replaceSecret_some hreplace
          exact .reauthorized hsome
  | answered answer => cases h

theorem advanceRevoke_move {phase : RevokePhase}
    (h : advanceRevoke v.secret v.lock fault answer phase = some m) :
    CallMove v i (.revoke phase) m := by
  cases phase with
  | arrived =>
      unfold advanceRevoke at h
      dsimp only at h
      split at h <;> obtain rfl := Option.some.inj h <;> exact .rest rfl rfl rfl nofun
  | read original =>
      unfold advanceRevoke at h
      dsimp only at h
      split at h <;> obtain rfl := Option.some.inj h <;> exact .rest rfl rfl rfl nofun
  | told providerRevoked =>
      unfold advanceRevoke at h
      dsimp only at h
      split at h
      · next hgone =>
          obtain rfl := Option.some.inj h
          exact .deleted (Bool.and_eq_true_iff.mp hgone).2
      · obtain rfl := Option.some.inj h
        exact .rest rfl rfl rfl nofun
  | answered answer => cases h

theorem advance_move {call : Call}
    (h : advance takes i v.secret v.lock fault answer call = some m) : CallMove v i call m := by
  cases call with
  | refresh phase => exact advanceRefresh_move h
  | reauthorize phase => exact advanceReauthorize_move h
  | revoke phase => exact advanceRevoke_move h

end

/-! ## The invariant -/

/-- What was read is what is held, or what is held has a later generation. -/
def Read (v : Vault) (original : GoogleCredentialEnvelope) : Prop :=
  v.installed = true ∧ original.wellFormed = true ∧ ∀ e, Holds v.secret e →
    e = original ∨ original.generation < e.generation

/-- What was read since the lock was taken is held, unless it was revoked. -/
def Current (v : Vault) (original : GoogleCredentialEnvelope) : Prop :=
  v.installed = true ∧ (v.secret = none ∨ Holds v.secret original)

/-- What holds of a call in the course of its work. -/
def CallSound (v : Vault) (i : Nat) : Call → Prop
  | .refresh (.started original) => Read v original
  | .refresh (.exchanged original _ text) => Read v original ∧ Succeeds original text
  | .refresh (.holding original _ text) =>
      Read v original ∧ Succeeds original text ∧ v.lock = some i
  | .refresh (.compared original _ text) =>
      Current v original ∧ Succeeds original text ∧ v.lock = some i
  | .reauthorize (.holding _) => v.lock = some i
  | .reauthorize (.compared current text) =>
      Current v current ∧ Succeeds current text ∧ v.lock = some i
  | .refresh .arrived | .refresh (.answered _) => True
  | .reauthorize .arrived | .reauthorize (.authorized _) | .reauthorize (.answered _) => True
  | .revoke (.answered (.ok result)) =>
      result.localDeleted = true → v.installed = true ∧ v.secret = none
  | .revoke _ => True

structure Vault.Sound (v : Vault) : Prop where
  installed : v.secret.isSome = true → v.installed = true
  calls : ∀ j call, v.calls[j]? = some call → CallSound v j call

/-- What becomes of the store in a step. -/
inductive Turn (v v' : Vault) : Prop
  | same : v'.secret = v.secret → Turn v v'
  | gone : v'.secret = none → Turn v v'
  | first {e : GoogleCredentialEnvelope} {text : String} :
      v.installed = false → v.secret = none → v'.secret = some text → e.encode = .ok text →
      e.generation = 1 → Turn v v'
  | next {original : GoogleCredentialEnvelope} {text : String} :
      Holds v.secret original → Succeeds original text → v'.secret = some text → Turn v v'

theorem Read.turn {original : GoogleCredentialEnvelope} (h : Read v original)
    (hturn : Turn v v') (hinstalled : v'.installed = v.installed) : Read v' original := by
  refine ⟨hinstalled ▸ h.1, h.2.1, fun e he => ?_⟩
  cases hturn with
  | same hsame => exact h.2.2 e (hsame ▸ he)
  | gone hgone =>
      obtain ⟨text, htext, -⟩ := he
      rw [hgone] at htext
      cases htext
  | first hfirst =>
      rw [h.1] at hfirst
      cases hfirst
  | next hholds hsucceeds hwritten =>
      obtain ⟨e', hread, hgeneration, -⟩ := hsucceeds
      have heq : e = e' := Holds.unique ⟨_, hwritten, hread⟩ he
      right
      rcases h.2.2 _ hholds with rfl | hlt
      · rw [heq, hgeneration]
        omega
      · rw [heq, hgeneration]
        omega

/-- A call that has not moved, where the lock was not its own or is still. -/
theorem CallSound.turn {call : Call} (h : CallSound v j call) (hturn : Turn v v')
    (hinstalled : v'.installed = v.installed)
    (hlock : v.lock = some j → v'.lock = some j ∧ (v'.secret = v.secret ∨ v'.secret = none))
    (hdeleted : v.installed = true → v.secret = none → v'.secret = none) :
    CallSound v' j call := by
  have hcurrent : ∀ {original}, Current v original → v.lock = some j → Current v' original := by
    intro original hc hj
    rcases (hlock hj).2 with hsame | hnone
    · unfold Current
      rw [hsame, hinstalled]
      exact hc
    · exact ⟨hinstalled ▸ hc.1, .inl hnone⟩
  cases call with
  | refresh phase =>
      cases phase with
      | arrived | answered => trivial
      | started => exact Read.turn h hturn hinstalled
      | exchanged => exact ⟨h.1.turn hturn hinstalled, h.2⟩
      | holding => exact ⟨h.1.turn hturn hinstalled, h.2.1, (hlock h.2.2).1⟩
      | compared => exact ⟨hcurrent h.1 h.2.2, h.2.1, (hlock h.2.2).1⟩
  | reauthorize phase =>
      cases phase with
      | arrived | authorized | answered => trivial
      | holding => exact (hlock h).1
      | compared => exact ⟨hcurrent h.1 h.2.2, h.2.1, (hlock h.2.2).1⟩
  | revoke phase =>
      cases phase with
      | arrived | read | told => trivial
      | answered answer =>
          cases answer with
          | error => trivial
          | ok result =>
              intro hlocal
              obtain ⟨hin, hnone⟩ := h hlocal
              exact ⟨hinstalled ▸ hin, hdeleted hin hnone⟩

/-! ## Steps -/

inductive VaultStep (takes : String → Bool) (v v' : Vault) : Prop
  | installed {e : GoogleCredentialEnvelope} {text : String} :
      v.installed = false → e.encode = .ok text → e.generation = 1 →
      v' = { v with secret := some text, installed := true } → VaultStep takes v v'
  | arrived {q : Request} : v' = { v with calls := v.calls ++ [q.call] } → VaultStep takes v v'
  | moved {i : Nat} {call : Call} {m : Moved} :
      v.calls[i]? = some call → CallMove v i call m → v' = v.place i m → VaultStep takes v v'
  | stopped {i : Nat} {call call' : Call} :
      v.calls[i]? = some call → call'.free = true → call'.wrote = false → call'.deleted = false →
      call.Fails call' →
      v' = v.place i ⟨call', v.secret, if v.lock = some i then none else v.lock⟩ →
      VaultStep takes v v'

theorem stopped_free {call call' : Call} (h : call.stopped = some call') :
    call'.free = true ∧ call'.wrote = false ∧ call'.deleted = false ∧ call.Fails call' := by
  cases call with
  | refresh phase =>
      cases phase with
      | answered => cases h
      | arrived | started | exchanged | holding | compared =>
          obtain rfl := Option.some.inj h
          exact ⟨rfl, rfl, rfl, fun _ _ => ⟨_, rfl⟩⟩
  | reauthorize phase =>
      cases phase with
      | answered => cases h
      | arrived | authorized | holding | compared =>
          obtain rfl := Option.some.inj h
          exact ⟨rfl, rfl, rfl, nofun⟩
  | revoke phase =>
      cases phase with
      | answered => cases h
      | arrived | read | told =>
          obtain rfl := Option.some.inj h
          exact ⟨rfl, rfl, rfl, nofun⟩

theorem vault_step (h : (vault takes).next v l = some v') : VaultStep takes v v' := by
  cases l with
  | install refreshToken accountFingerprint =>
      have h : v.next takes (.install refreshToken accountFingerprint) = some v' := h
      unfold Vault.next at h
      dsimp only at h
      split at h
      · next hencode =>
          split at h
          · cases h
          · next hfree =>
              simp only [Bool.or_eq_true, not_or, Bool.not_eq_true] at hfree
              exact .installed hfree.1 hencode rfl (Option.some.inj h).symm
      · cases h
  | arrive q => exact .arrived (Option.some.inj h).symm
  | step i fault answer =>
      obtain ⟨call, hcall, h⟩ := Option.bind_eq_some_iff.mp h
      obtain ⟨moved, hmoved, h⟩ := Option.bind_eq_some_iff.mp h
      exact .moved hcall (advance_move hmoved) (Option.some.inj h).symm
  | stop i =>
      obtain ⟨call, hcall, h⟩ := Option.bind_eq_some_iff.mp h
      obtain ⟨stopped, hstopped, h⟩ := Option.bind_eq_some_iff.mp h
      obtain ⟨hfree, hwrote, hdeleted, hfails⟩ := stopped_free hstopped
      exact .stopped hcall hfree hwrote hdeleted hfails (Option.some.inj h).symm

theorem calls_place {m : Moved} {call : Call} (h : (v.place i m).calls[j]? = some call) :
    j = i ∧ call = m.call ∨ j ≠ i ∧ v.calls[j]? = some call := by
  have h : (v.calls.set i m.call)[j]? = some call := h
  by_cases hj : i = j
  · subst hj
    rw [List.getElem?_set_self'] at h
    obtain ⟨x, -, hx⟩ := Option.map_eq_some_iff.mp h
    exact .inl ⟨rfl, hx.symm⟩
  · rw [List.getElem?_set_ne hj] at h
    exact .inr ⟨fun heq => hj heq.symm, h⟩

/-- What a move makes of the store. -/
theorem CallMove.turn {call : Call} {m : Moved} (h : CallMove v i call m)
    (hsound : CallSound v i call) : Turn v (v.place i m) := by
  have hcurrent : ∀ {original text}, Current v original → v.secret.isSome = true →
      Succeeds original text → (v.place i m).secret = some text → Turn v (v.place i m) := by
    intro original text hc hsome hsucceeds hwritten
    rcases hc.2 with hnone | hholds
    · rw [hnone] at hsome
      cases hsome
    · exact .next hholds hsucceeds hwritten
  cases h with
  | rest | released | started | exchanged | locked | lockedAuthorized | compared
  | comparedAuthorized => exact .same rfl
  | deleted => exact .gone rfl
  | refreshed hsome => exact hcurrent hsound.1 hsome hsound.2.1 rfl
  | reauthorized hsome => exact hcurrent hsound.1 hsome hsound.2.1 rfl

/-- A call that is about to write has the lock. -/
theorem CallSound.locking {call : Call} (h : CallSound v i call) (hlocking : call.locking = true) :
    v.lock = some i := by
  cases call with
  | refresh phase =>
      cases phase with
      | arrived | started | exchanged | answered => cases hlocking
      | holding => exact h.2.2
      | compared => exact h.2.2
  | reauthorize phase =>
      cases phase with
      | arrived | authorized | answered => cases hlocking
      | holding => exact h
      | compared => exact h.2.2
  | revoke => cases hlocking

theorem CallSound.free {call : Call} (hfree : call.free = true) (hdeleted : call.deleted = false) :
    CallSound v i call := by
  cases call with
  | refresh phase =>
      cases phase with
      | arrived | answered => trivial
      | started | exchanged | holding | compared => cases hfree
  | reauthorize phase =>
      cases phase with
      | arrived | authorized | answered => trivial
      | holding | compared => cases hfree
  | revoke phase =>
      cases phase with
      | arrived | read | told => trivial
      | answered answer =>
          cases answer with
          | error => trivial
          | ok result =>
              intro hlocal
              have hdeleted : result.localDeleted = false := hdeleted
              rw [hlocal] at hdeleted
              cases hdeleted

/-- The lock is taken from nobody, and nothing is written while another call has it. -/
theorem CallMove.keeps {call : Call} {m : Moved} (h : CallMove v i call m)
    (hsound : CallSound v i call) (hj : j ≠ i) (hlock : v.lock = some j) :
    m.lock = some j ∧ (m.secret = v.secret ∨ m.secret = none) := by
  have hother : v.lock ≠ some i := by
    rw [hlock]
    intro heq
    exact hj (Option.some.inj heq)
  cases h with
  | rest | started | exchanged | compared | comparedAuthorized => exact ⟨hlock, .inl rfl⟩
  | deleted => exact ⟨hlock, .inr rfl⟩
  | locked hnone | lockedAuthorized hnone =>
      rw [hnone] at hlock
      cases hlock
  | released hlocking => exact absurd (hsound.locking hlocking) hother
  | refreshed => exact absurd hsound.2.2 hother
  | reauthorized => exact absurd hsound.2.2 hother

/-- What a call that has moved has come to. -/
theorem CallMove.sound {call : Call} {m : Moved} (h : CallMove v i call m) (hv : v.Sound)
    (hsound : CallSound v i call) : CallSound (v.place i m) i m.call := by
  have hread : ∀ {original}, Holds v.secret original → Read v original := by
    intro original hholds
    have hsome : v.secret.isSome = true := by
      obtain ⟨text, htext, -⟩ := hholds
      rw [htext]
      rfl
    exact ⟨hv.installed hsome, hholds.wellFormed, fun e he => .inl (hholds.unique he)⟩
  cases h with
  | rest hfree _ hdeleted => exact .free hfree hdeleted
  | released _ hfree _ hdeleted => exact .free hfree hdeleted
  | deleted hsome => exact fun _ => ⟨hv.installed hsome, rfl⟩
  | started hholds => exact hread hholds
  | exchanged hencode => exact ⟨hsound, succeeds_encode hsound.2.1 hencode⟩
  | locked => exact ⟨hsound.1, hsound.2, rfl⟩
  | lockedAuthorized => exact rfl
  | compared hholds hgeneration =>
      refine ⟨⟨(hread hholds).1, .inr ?_⟩, hsound.2⟩
      rcases hsound.1.2.2 _ hholds with rfl | hlt
      · exact hholds
      · omega
  | comparedAuthorized hholds hsucceeds =>
      exact ⟨⟨(hread hholds).1, .inr hholds⟩, hsucceeds, hsound⟩
  | refreshed | reauthorized => trivial

/-- A move leaves an empty store empty. -/
theorem CallMove.empty {call : Call} {m : Moved} (h : CallMove v i call m)
    (hnone : v.secret = none) : m.secret = none := by
  cases h with
  | rest | released | started | exchanged | locked | lockedAuthorized | compared
  | comparedAuthorized => exact hnone
  | deleted => rfl
  | refreshed hsome | reauthorized hsome =>
      rw [hnone] at hsome
      cases hsome

theorem sound_place {m : Moved} {call : Call} (hv : v.Sound) (hturn : Turn v (v.place i m))
    (hempty : v.secret = none → m.secret = none)
    (hkeeps : ∀ {j}, j ≠ i → v.lock = some j →
      m.lock = some j ∧ (m.secret = v.secret ∨ m.secret = none))
    (hcall : v.calls[i]? = some call) (hmoved : CallSound (v.place i m) i m.call) :
    (v.place i m).Sound := by
  constructor
  · intro hsome
    refine hv.installed ?_
    cases hsecret : v.secret with
    | some text => rfl
    | none =>
        have hsome : m.secret.isSome = true := hsome
        rw [hempty hsecret] at hsome
        cases hsome
  · intro j other hother
    rcases calls_place hother with ⟨rfl, rfl⟩ | ⟨hj, hold⟩
    · exact hmoved
    · exact (hv.calls j other hold).turn hturn rfl (hkeeps hj) fun _ => hempty

/-- Before the credential is installed no call has read it. -/
theorem CallSound.install {call : Call} {text : String} (h : CallSound v j call)
    (hfree : v.installed = false) :
    CallSound { v with secret := some text, installed := true } j call := by
  have hnot : v.installed ≠ true := by
    rw [hfree]
    decide
  cases call with
  | refresh phase =>
      cases phase with
      | arrived | answered => trivial
      | started => exact absurd h.1 hnot
      | exchanged | holding | compared => exact absurd h.1.1 hnot
  | reauthorize phase =>
      cases phase with
      | arrived | authorized | answered => trivial
      | holding => exact h
      | compared => exact absurd h.1.1 hnot
  | revoke phase =>
      cases phase with
      | arrived | read | told => trivial
      | answered answer =>
          cases answer with
          | error => trivial
          | ok result => exact fun hlocal => absurd (h hlocal).1 hnot

theorem sound_step (hstep : (vault takes).next v l = some v') (hv : v.Sound) : v'.Sound := by
  cases vault_step hstep with
  | installed hfree hencode hgeneration heq =>
      subst heq
      have hnone : v.secret = none := by
        cases hsecret : v.secret with
        | none => rfl
        | some text =>
            rw [hv.installed (by rw [hsecret]; rfl)] at hfree
            cases hfree
      exact ⟨fun _ => rfl, fun j call hcall => (hv.calls j call hcall).install hfree⟩
  | arrived heq =>
      subst heq
      refine ⟨hv.installed, fun j call hcall => ?_⟩
      rw [List.getElem?_append] at hcall
      split at hcall
      · exact hv.calls j call hcall
      · rw [List.getElem?_singleton] at hcall
        split at hcall
        · obtain rfl := Option.some.inj hcall
          rename_i q _ _
          cases q <;> trivial
        · cases hcall
  | moved hcall hmove heq =>
      subst heq
      have hsound := hv.calls _ _ hcall
      exact sound_place hv (hmove.turn hsound) hmove.empty (hmove.keeps hsound) hcall
        (hmove.sound hv hsound)
  | @stopped i call call' hcall hfree hwrote hdeleted _ heq =>
      subst heq
      refine sound_place hv (.same rfl) (fun hnone => hnone) (fun {j} hj hlock => ?_) hcall
        (.free hfree hdeleted)
      have hother : v.lock ≠ some i := by
        rw [hlock]
        intro heq
        exact hj (Option.some.inj heq)
      exact ⟨by rw [if_neg hother, hlock], .inl rfl⟩

theorem sound_reachable (h : (vault takes).Reachable v) : v.Sound := by
  refine h.invariant ?_ fun v l v' _ _ hv hstep => sound_step hstep hv
  rintro v rfl
  exact ⟨fun hsome => (nomatch hsome), fun j call hcall => (nomatch hcall)⟩

/-! ## Writes -/

/-- The envelope that is held is replaced by the next one of its account. -/
def Succeeded (v v' : Vault) : Prop :=
  ∃ e e', Holds v.secret e ∧ Holds v'.secret e' ∧ e'.generation = e.generation + 1 ∧
    e'.accountFingerprint = e.accountFingerprint

/-- The call was answered in this step that it has written. -/
def WroteNow (v v' : Vault) (i : Nat) : Prop :=
  (∀ call, v.calls[i]? = some call → call.wrote = false) ∧
    ∃ call, v'.calls[i]? = some call ∧ call.wrote = true

/-- What a refresh has read. -/
def RefreshPhase.original? : RefreshPhase → Option GoogleCredentialEnvelope
  | .started original | .exchanged original _ _ | .holding original _ _
  | .compared original _ _ => some original
  | .arrived | .answered _ => none

/-- What a step does to the credential. -/
structure Fenced (v v' : Vault) : Prop where
  /-- A write that succeeds makes the generation one more. -/
  write : ∀ i, WroteNow v v' i → Succeeded v v'
  /-- What is held changes by such a write, by a revocation and when it is installed. -/
  change : v'.secret = v.secret ∨ v'.secret = none ∨ v.installed = false ∨ ∃ i, WroteNow v v' i
  /-- A refresh replaces what it has read. -/
  refresh : ∀ (i : Nat) (phase : RefreshPhase) (original : GoogleCredentialEnvelope)
    (accessToken : String), v.calls[i]? = some (.refresh phase) →
    phase.original? = some original →
    v'.calls[i]? = some (.refresh (.answered (.ok accessToken))) → Holds v.secret original

theorem Current.holds {original : GoogleCredentialEnvelope} (h : Current v original)
    (hsome : v.secret.isSome = true) : Holds v.secret original := by
  rcases h.2 with hnone | hholds
  · rw [hnone] at hsome
    cases hsome
  · exact hholds

theorem Current.succeeded {original : GoogleCredentialEnvelope} {text : String}
    (h : Current v original) (hsome : v.secret.isSome = true) (hsucceeds : Succeeds original text)
    (hwritten : v'.secret = some text) : Succeeded v v' := by
  obtain ⟨e, hread, hgeneration, hfingerprint⟩ := hsucceeds
  exact ⟨original, e, h.holds hsome, ⟨text, hwritten, hread⟩, hgeneration, hfingerprint⟩

theorem calls_place_self {m : Moved} {call : Call} (hcall : v.calls[i]? = some call) :
    (v.place i m).calls[i]? = some m.call := by
  show (v.calls.set i m.call)[i]? = some m.call
  rw [List.getElem?_set_self', hcall]
  rfl

/-- A call that is not answered to have written after the step has not written in it. -/
theorem not_wroteNow {m : Moved} (hwrote : m.call.wrote = false) :
    ¬WroteNow v (v.place i m) j := by
  rintro ⟨hbefore, call, hcall, hafter⟩
  rcases calls_place hcall with ⟨-, rfl⟩ | ⟨-, hold⟩
  · rw [hwrote] at hafter
    cases hafter
  · rw [hbefore call hold] at hafter
    cases hafter

theorem fenced_quiet {m : Moved} (hwrote : m.call.wrote = false)
    (hsecret : m.secret = v.secret ∨ m.secret = none) : Fenced v (v.place i m) := by
  refine ⟨fun j hj => absurd hj (not_wroteNow hwrote), ?_,
    fun j phase original accessToken hbefore horiginal hafter => ?_⟩
  · rcases hsecret with hsame | hnone
    · exact .inl hsame
    · exact .inr (.inl hnone)
  · rcases calls_place hafter with ⟨-, hcall⟩ | ⟨-, hold⟩
    · rw [← hcall] at hwrote
      cases hwrote
    · rw [hold] at hbefore
      obtain rfl := Call.refresh.inj (Option.some.inj hbefore)
      cases horiginal

/-- A step that writes what succeeds what the call has read. -/
theorem fenced_write {m : Moved} {call : Call} (hcall : v.calls[i]? = some call)
    (hsucceeded : Succeeded v (v.place i m)) (hbefore : call.wrote = false)
    (hafter : m.call.wrote = true)
    (hread : ∀ (phase : RefreshPhase) (original : GoogleCredentialEnvelope),
      call = .refresh phase → phase.original? = some original →
      Holds v.secret original) : Fenced v (v.place i m) := by
  have hwrote : WroteNow v (v.place i m) i := by
    refine ⟨fun other hother => ?_, m.call, calls_place_self hcall, hafter⟩
    rw [hcall] at hother
    obtain rfl := Option.some.inj hother
    exact hbefore
  refine ⟨fun _ _ => hsucceeded, .inr (.inr (.inr ⟨i, hwrote⟩)),
    fun j phase original accessToken hj horiginal hanswered => ?_⟩
  rcases calls_place hanswered with ⟨rfl, -⟩ | ⟨-, hold⟩
  · rw [hcall] at hj
    exact hread phase original (Option.some.inj hj) horiginal
  · rw [hold] at hj
    obtain rfl := Call.refresh.inj (Option.some.inj hj)
    cases horiginal

theorem fenced_step (hstep : (vault takes).next v l = some v') (hv : v.Sound) : Fenced v v' := by
  cases vault_step hstep with
  | installed hfree hencode hgeneration heq =>
      subst heq
      refine ⟨fun i hwrote => ?_, .inr (.inr (.inl hfree)),
        fun i phase original accessToken hbefore horiginal hafter => ?_⟩
      · obtain ⟨hbefore, call, hcall, hafter⟩ := hwrote
        rw [hbefore call hcall] at hafter
        cases hafter
      · have hafter : v.calls[i]? = some (.refresh (.answered (.ok accessToken))) := hafter
        rw [hafter] at hbefore
        obtain rfl := Call.refresh.inj (Option.some.inj hbefore)
        cases horiginal
  | @arrived q heq =>
      subst heq
      have hanswered : ∀ {j : Nat} {call : Call}, (v.calls ++ [q.call])[j]? = some call →
          call.wrote = true →
          v.calls[j]? = some call := by
        intro j call hcall hwrote
        rw [List.getElem?_append] at hcall
        split at hcall
        · exact hcall
        · rw [List.getElem?_singleton] at hcall
          split at hcall
          · obtain rfl := Option.some.inj hcall
            cases q <;> cases hwrote
          · cases hcall
      refine ⟨fun i hwrote => ?_, .inl rfl,
        fun i phase original accessToken hbefore horiginal hafter => ?_⟩
      · obtain ⟨hbefore, call, hcall, hafter⟩ := hwrote
        rw [hbefore call (hanswered hcall hafter)] at hafter
        cases hafter
      · rw [hanswered hafter rfl] at hbefore
        obtain rfl := Call.refresh.inj (Option.some.inj hbefore)
        cases horiginal
  | stopped hcall hfree hwrote hdeleted _ heq =>
      subst heq
      exact fenced_quiet hwrote (.inl rfl)
  | moved hcall hmove heq =>
      subst heq
      have hsound := hv.calls _ _ hcall
      cases hmove with
      | rest _ hwrote => exact fenced_quiet hwrote (.inl rfl)
      | released _ _ hwrote => exact fenced_quiet hwrote (.inl rfl)
      | deleted => exact fenced_quiet rfl (.inr rfl)
      | started | exchanged | locked | lockedAuthorized | compared | comparedAuthorized =>
          exact fenced_quiet rfl (.inl rfl)
      | refreshed hsome =>
          refine fenced_write hcall (hsound.1.succeeded hsome hsound.2.1 rfl) rfl rfl
            fun phase original hphase horiginal => ?_
          obtain rfl := Call.refresh.inj hphase
          obtain rfl := Option.some.inj horiginal
          exact hsound.1.holds hsome
      | reauthorized hsome =>
          exact fenced_write hcall (hsound.1.succeeded hsome hsound.2.1 rfl) rfl rfl
            fun phase original hphase => nomatch hphase

/-! ## Runs -/

theorem turn_step (hstep : (vault takes).next v l = some v') (hv : v.Sound) :
    Turn v v' ∧ (v.installed = true → v'.installed = true) := by
  cases vault_step hstep with
  | installed hfree hencode hgeneration heq =>
      subst heq
      have hnone : v.secret = none := by
        cases hsecret : v.secret with
        | none => rfl
        | some text =>
            rw [hv.installed (by rw [hsecret]; rfl)] at hfree
            cases hfree
      exact ⟨.first hfree hnone rfl hencode hgeneration, fun _ => rfl⟩
  | arrived heq =>
      subst heq
      exact ⟨.same rfl, fun h => h⟩
  | moved hcall hmove heq =>
      subst heq
      exact ⟨hmove.turn (hv.calls _ _ hcall), fun h => h⟩
  | stopped _ _ _ _ _ heq =>
      subst heq
      exact ⟨.same rfl, fun h => h⟩

/-- What is held, if anything, is of the account and not before the generation. -/
def Follows (e : GoogleCredentialEnvelope) (v : Vault) : Prop :=
  v.installed = true ∧ ∀ e', Holds v.secret e' →
    e'.accountFingerprint = e.accountFingerprint ∧ e.generation ≤ e'.generation

theorem follows_step {e : GoogleCredentialEnvelope} (h : Follows e v) (hturn : Turn v v')
    (hinstalled : v.installed = true → v'.installed = true) : Follows e v' := by
  refine ⟨hinstalled h.1, fun e' he' => ?_⟩
  cases hturn with
  | same hsame => exact h.2 e' (hsame ▸ he')
  | gone hgone =>
      obtain ⟨text, htext, -⟩ := he'
      rw [hgone] at htext
      cases htext
  | first hfree =>
      rw [h.1] at hfree
      cases hfree
  | next hholds hsucceeds hwritten =>
      obtain ⟨new, hread, hgeneration, hfingerprint⟩ := hsucceeds
      obtain rfl := Holds.unique ⟨_, hwritten, hread⟩ he'
      obtain ⟨hsame, hle⟩ := h.2 _ hholds
      exact ⟨hfingerprint.trans hsame, by omega⟩

/-- Nothing is held, and nothing is installed any more. -/
def Revoked (v : Vault) : Prop := v.installed = true ∧ v.secret = none

theorem revoked_step (h : Revoked v) (hturn : Turn v v')
    (hinstalled : v.installed = true → v'.installed = true) : Revoked v' := by
  refine ⟨hinstalled h.1, ?_⟩
  cases hturn with
  | same hsame => rw [hsame, h.2]
  | gone hgone => exact hgone
  | first hfree =>
      rw [h.1] at hfree
      cases hfree
  | next hholds =>
      obtain ⟨text, htext, -⟩ := hholds
      rw [h.2] at htext
      cases htext

/-- What is held, if anything, is later than what was read. -/
def Lapsed (original : GoogleCredentialEnvelope) (v : Vault) : Prop :=
  v.installed = true ∧ ∀ e, Holds v.secret e → original.generation < e.generation

theorem lapsed_step {original : GoogleCredentialEnvelope} (h : Lapsed original v)
    (hturn : Turn v v') (hinstalled : v.installed = true → v'.installed = true) :
    Lapsed original v' := by
  refine ⟨hinstalled h.1, fun e he => ?_⟩
  cases hturn with
  | same hsame => exact h.2 e (hsame ▸ he)
  | gone hgone =>
      obtain ⟨text, htext, -⟩ := he
      rw [hgone] at htext
      cases htext
  | first hfree =>
      rw [h.1] at hfree
      cases hfree
  | next hholds hsucceeds hwritten =>
      obtain ⟨new, hread, hgeneration, -⟩ := hsucceeds
      obtain rfl := Holds.unique ⟨_, hwritten, hread⟩ he
      have hlt := h.2 _ hholds
      omega

/-- The refresh has failed, or works on with what has lapsed. -/
def RefreshPhase.Overtaken (v : Vault) : RefreshPhase → Prop
  | .started original | .exchanged original _ _ | .holding original _ _
  | .compared original _ _ => Lapsed original v
  | .answered (.error _) => True
  | .arrived | .answered (.ok _) => False

theorem RefreshPhase.Overtaken.later {phase : RefreshPhase} (h : phase.Overtaken v)
    (hturn : Turn v v') (hinstalled : v.installed = true → v'.installed = true) :
    phase.Overtaken v' := by
  cases phase with
  | started | exchanged | holding | compared => exact lapsed_step h hturn hinstalled
  | arrived => exact h
  | answered answer =>
      cases answer with
      | error => trivial
      | ok => exact h

/-- A refresh that was overtaken does not write. -/
theorem CallMove.overtaken {phase : RefreshPhase} {m : Moved}
    (h : CallMove v i (.refresh phase) m) (hsound : CallSound v i (.refresh phase))
    (hphase : phase.Overtaken v) :
    ∃ phase', m.call = .refresh phase' ∧ phase'.Overtaken (v.place i m) := by
  have hlater := hphase.later (h.turn hsound) fun hinstalled => hinstalled
  cases h with
  | rest _ _ _ hfails | released _ _ _ _ hfails =>
      obtain ⟨e, rfl⟩ := hfails phase rfl
      exact ⟨_, rfl, trivial⟩
  | started => exact hphase.elim
  | exchanged | locked | compared => exact ⟨_, rfl, hlater⟩
  | refreshed hsome =>
      have hlt := hphase.2 _ (hsound.1.holds hsome)
      omega

/-- The refresh was overtaken. -/
def Overtaken (i : Nat) (v : Vault) : Prop :=
  ∃ phase, v.calls[i]? = some (.refresh phase) ∧ phase.Overtaken v

theorem overtaken_step (hstep : (vault takes).next v l = some v') (hv : v.Sound)
    (h : Overtaken i v) : Overtaken i v' := by
  obtain ⟨phase, hi, hphase⟩ := h
  have hlater := hphase.later (turn_step hstep hv).1 (turn_step hstep hv).2
  cases vault_step hstep with
  | installed _ _ _ heq =>
      subst heq
      exact ⟨phase, hi, hlater⟩
  | @arrived q heq =>
      subst heq
      refine ⟨phase, ?_, hlater⟩
      show (v.calls ++ [q.call])[i]? = _
      rw [List.getElem?_append_left (List.getElem?_eq_some_iff.mp hi).1]
      exact hi
  | @moved j call m hcall hmove heq =>
      subst heq
      by_cases hj : i = j
      · subst hj
        rw [hi] at hcall
        obtain rfl := Option.some.inj hcall
        obtain ⟨phase', hm, hphase'⟩ := hmove.overtaken (hv.calls i _ hi) hphase
        exact ⟨phase', by rw [calls_place_self hi, hm], hphase'⟩
      · exact ⟨phase, by rw [← hi]; exact List.getElem?_set_ne fun heq => hj heq.symm, hlater⟩
  | @stopped j call call' hcall _ _ _ hfails heq =>
      subst heq
      by_cases hj : i = j
      · subst hj
        rw [hi] at hcall
        obtain rfl := Option.some.inj hcall
        obtain ⟨e, rfl⟩ := hfails phase rfl
        exact ⟨_, calls_place_self hi, trivial⟩
      · exact ⟨phase, by rw [← hi]; exact List.getElem?_set_ne fun heq => hj heq.symm, hlater⟩

/-- What a step keeps of a sound state holds of all that comes later. -/
theorem later_holds {P : Vault → Prop} (hv : (vault takes).Reachable v)
    (hstep : ∀ v l v', v.Sound → (vault takes).next v l = some v' → P v → P v') (h : P v)
    (hlater : ((vault takes).startingAt v).Reachable v') : P v' := by
  refine (hlater.invariant (I := fun v' => v'.Sound ∧ P v') ?_ ?_).2
  · rintro v' rfl
    exact ⟨sound_reachable hv, h⟩
  · intro a l b _ _ ha hnext
    exact ⟨sound_step hnext ha.1, hstep a l b ha.1 hnext ha.2⟩

/-- In every state of every run: a write that succeeds makes the generation one more, and a
refresh replaces what it has read. The account never changes and the generation never falls.
A refresh that has read what was replaced since is not answered. What was revoked stays
revoked. -/
theorem credential_fenced (hv : (vault takes).Reachable v) :
    (∀ l v', (vault takes).next v l = some v' → Fenced v v') ∧
    (∀ v', ((vault takes).startingAt v).Reachable v' → ∀ e e', Holds v.secret e →
      Holds v'.secret e' → e'.accountFingerprint = e.accountFingerprint ∧
        e.generation ≤ e'.generation) ∧
    (∀ (i : Nat) (phase : RefreshPhase) (original e : GoogleCredentialEnvelope),
      v.calls[i]? = some (.refresh phase) → phase.original? = some original →
      Holds v.secret e → e.generation ≠ original.generation →
      ∀ v', ((vault takes).startingAt v).Reachable v' → ∀ accessToken : String,
        v'.calls[i]? ≠ some (.refresh (.answered (.ok accessToken)))) ∧
    ∀ (i : Nat) (result : RevocationResult),
      v.calls[i]? = some (.revoke (.answered (.ok result))) → result.localDeleted = true →
      ∀ v', ((vault takes).startingAt v).Reachable v' → v'.secret = none := by
  have hsound := sound_reachable hv
  refine ⟨fun l v' hstep => fenced_step hstep hsound, fun v' hlater e e' he he' => ?_,
    fun i phase original e hi horiginal he hne v' hlater accessToken hanswered => ?_,
    fun i result hi hlocal v' hlater => ?_⟩
  · have hfollows : Follows e v := by
      obtain ⟨text, htext, hread⟩ := he
      refine ⟨hsound.installed (by rw [htext]; rfl), fun other hother => ?_⟩
      obtain rfl := Holds.unique ⟨text, htext, hread⟩ hother
      exact ⟨rfl, Int.le_refl _⟩
    refine (later_holds hv (P := Follows e) (fun a l b ha hnext h => ?_) hfollows hlater).2 e' he'
    exact follows_step h (turn_step hnext ha).1 (turn_step hnext ha).2
  · have hovertaken : Overtaken i v := by
      refine ⟨phase, hi, ?_⟩
      have hcall := hsound.calls i _ hi
      have hlapsed : Read v original → Lapsed original v := by
        intro hread
        refine ⟨hread.1, fun other hother => ?_⟩
        obtain rfl := Holds.unique he hother
        rcases hread.2.2 _ he with rfl | hlt
        · exact absurd rfl hne
        · exact hlt
      cases phase with
      | arrived | answered => cases horiginal
      | started =>
          obtain rfl := Option.some.inj horiginal
          exact hlapsed hcall
      | exchanged | holding =>
          obtain rfl := Option.some.inj horiginal
          exact hlapsed hcall.1
      | compared =>
          obtain rfl := Option.some.inj horiginal
          have hsome : v.secret.isSome = true := by
            obtain ⟨text, htext, -⟩ := he
            rw [htext]
            rfl
          obtain rfl := Holds.unique he (hcall.1.holds hsome)
          exact absurd rfl hne
    obtain ⟨phase', hphase', hover⟩ := later_holds hv (P := Overtaken i)
      (fun a l b ha hnext h => overtaken_step hnext ha h) hovertaken hlater
    rw [hphase'] at hanswered
    obtain rfl := Call.refresh.inj (Option.some.inj hanswered)
    exact hover
  · have hrevoked : Revoked v := hsound.calls i _ hi hlocal
    refine (later_holds hv (P := Revoked) (fun a l b ha hnext h => ?_) hrevoked hlater).2
    exact revoked_step h (turn_step hnext ha).1 (turn_step hnext ha).2

/-! ## A run -/

/-- The credential is installed, and revoked. -/
def sampleCalls : List VaultLabel :=
  [.install "token-1" (String.ofList (List.replicate 64 'a')), .arrive .revoke, .step 0 none .done,
    .step 0 none (.failed .providerFailed), .step 0 none .done]

def Vault.revocation? (v : Vault) (i : Nat) : Option RevocationResult :=
  match v.calls[i]? with
  | some (.revoke (.answered (.ok result))) => some result
  | _ => none

/-- The provider was not reached, and nothing restores the credential. -/
theorem credential_fenced_revoked : ∃ v, (vault windowsTakes).Reachable v ∧
    v.revocation? 0 = some ⟨false, true⟩ ∧
    ∀ v', ((vault windowsTakes).startingAt v).Reachable v' → v'.secret = none := by
  obtain ⟨v, hv, hsample⟩ := Machine.exists_reachable_of_exec (vault windowsTakes) sampleCalls
    (fun v => decide (v.revocation? 0 = some ⟨false, true⟩)) (s := {}) rfl (by decide +kernel)
  have hrevoked := of_decide_eq_true hsample
  have hcall : v.calls[0]? = some (.revoke (.answered (.ok ⟨false, true⟩))) := by
    unfold Vault.revocation? at hrevoked
    split at hrevoked
    · next hcall =>
        rw [Option.some.inj hrevoked] at hcall
        exact hcall
    · cases hrevoked
  exact ⟨v, hv, hrevoked, (credential_fenced hv).2.2.2 0 _ hcall rfl⟩

end GoogleOauth

end SecondBrain
