import SecondBrain.ContextHub.Cursors
import SecondBrain.Knowledge.CaptureTokens

/-!
# Cursors continue the request they were written for

The hub and the capture inbox seal under one secret, each in its own domain. With an
encryption that is ideal for what the two of them seal, a cursor is read as what it was
written from under the requests with its canonical form, and nothing else is read: but the
writers bound what they write by nothing, and the readers read no more than so many
characters.
-/

namespace SecondBrain

open Lib

namespace ContextHub

open Knowledge

/-- What is sealed: cursors of the hub, reopen identities, cursors of the inbox. -/
inductive Issued (r : Keyring) (v : Scalars) : r.Key → Bytes → Bytes → Bytes → Prop
  | cursor (secret : String) (draw : RandomBytes) {request : ContextHubQuery}
      {positions : Positions} {exhausted : Flags} (hvalid : ValidMaps request positions exhausted) :
      Issued r v (key r secret cursorDomain draw.salt) draw.nonce
        (payload cursorDomain (issuedData v request positions exhausted))
        (aad cursorDomain draw.salt)
  | reopen (secret : String) (draw : RandomBytes) (scope : ContextScope)
      (provenance : ContextProvenance) :
      Issued r v (key r secret reopenDomain draw.salt) draw.nonce
        (payload reopenDomain (reopenData scope provenance)) (aad reopenDomain draw.salt)
  | capture (secret : String) (draw : RandomBytes)
      {request : CaptureTokens.CaptureQueryRequest} {createdAt : Aware}
      {itemId : String} {rank : Option CaptureTokens.Rank}
      (hvalid : CaptureTokens.ValidPosition request itemId rank) :
      Issued r v (CaptureTokens.key r secret draw.salt) draw.nonce
        (CaptureTokens.payload
          (CaptureTokens.cursorData request createdAt itemId rank))
        (CaptureTokens.aad draw.salt)

/-- The two contracts authenticate different data. -/
theorem capture_aad_ne (domain : String) (salt salt' : Bytes) :
    CaptureTokens.aad salt ≠ aad domain salt' := by
  intro h
  rw [aad_eq, CaptureTokens.aad_eq] at h
  have hjson := Json.render_injective Json.compact_legible (CaptureTokens.readable_aad _)
    (readable_aad _ _) (String.ofList_injective (utf8_injective h))
  simp [CaptureTokens.aadJson, sortedAad] at hjson

variable {r : Keyring} {v : Scalars}

theorem onlyCursors : OnlyCursors v (Issued r v) := by
  intro k n p salt h
  generalize haad : aad cursorDomain salt = d at h
  cases h with
  | cursor secret draw hvalid => exact ⟨_, _, _, hvalid, rfl⟩
  | reopen secret draw scope provenance =>
      exact absurd (aad_injective haad) (by decide)
  | capture secret draw hvalid => exact absurd haad.symm (capture_aad_ne _ _ _)

theorem onlyCaptureCursors : CaptureTokens.OnlyCursors (Issued r v) := by
  intro k n p salt h
  generalize haad : CaptureTokens.aad salt = d at h
  cases h with
  | cursor secret draw hvalid => exact absurd haad (capture_aad_ne _ _ _)
  | reopen secret draw scope provenance => exact absurd haad (capture_aad_ne _ _ _)
  | capture secret draw hvalid => exact ⟨_, _, _, _, hvalid, rfl⟩

/-- A cursor is read as what it was written from where it fits, under the requests with its
canonical form; whatever else is read is refused as no cursor, and what is read is one. -/
theorem cursors_continue (hv : v.Lawful) (hideal : r.aead.Ideal (Issued r v)) (secret : String) :
    (∀ (request : ContextHubQuery) (positions : Positions) (exhausted : Flags)
      (draw : RandomBytes), ValidMaps request positions exhausted →
      ∃ token, encodeCursor r v request positions exhausted secret draw = .ok token ∧
        ∀ request' : ContextHubQuery,
          decodeCursor r v token request' secret = .ok (positions, exhausted) ↔
            canonicalRequest request = canonicalRequest request' ∧
              Fits v request positions exhausted) ∧
    (∀ (value : String) (request' : ContextHubQuery),
      (∃ request positions exhausted draw, ValidMaps request positions exhausted ∧
        encodeCursor r v request positions exhausted secret draw = .ok value ∧
        canonicalRequest request = canonicalRequest request' ∧
        decodeCursor r v value request' secret = .ok (positions, exhausted)) ∨
      decodeCursor r v value request' secret = .error .contextTokenError) ∧
    (∀ (request : CaptureTokens.CaptureQueryRequest) (createdAt : Aware) (itemId : String)
      (rank : Option CaptureTokens.Rank) (draw : RandomBytes),
      CaptureTokens.ValidPosition request itemId rank →
      ∀ request' : CaptureTokens.CaptureQueryRequest,
        CaptureTokens.decodeCursor r
          (CaptureTokens.encodeCursor r request createdAt itemId rank secret draw) request' secret =
            .ok ⟨(createdAt.wall, createdAt.offset), itemId, rank.map .decimal⟩ ↔
          CaptureTokens.requestJson request = CaptureTokens.requestJson request' ∧
            CaptureTokens.Fits request createdAt rank) ∧
    ∀ (value : String) (request' : CaptureTokens.CaptureQueryRequest),
      (∃ request createdAt itemId rank draw, CaptureTokens.ValidPosition request itemId rank ∧
        value = CaptureTokens.encodeCursor r request createdAt itemId rank secret draw ∧
        CaptureTokens.requestJson request = CaptureTokens.requestJson request' ∧
        CaptureTokens.decodeCursor r value request' secret =
          .ok ⟨(createdAt.wall, createdAt.offset), itemId, rank.map .decimal⟩) ∨
      CaptureTokens.decodeCursor r value request' secret = .error .captureCursorError := by
  refine ⟨?_, ?_, ?_, ?_⟩
  · intro request positions exhausted draw hvalid
    refine ⟨_, encodeCursor_eq hvalid, fun request' => ?_⟩
    rw [decodeCursor_cursor hideal hv hvalid (.cursor secret draw hvalid)]
    by_cases h : Fits v request positions exhausted ∧
        canonicalRequest request = canonicalRequest request'
    · rw [if_pos h]
      exact ⟨fun _ => ⟨h.2, h.1⟩, fun _ => rfl⟩
    · rw [if_neg h]
      exact ⟨fun he => (nomatch he), fun he => absurd ⟨he.2, he.1⟩ h⟩
  · exact fun value request' => decodeCursor_cases hideal hv onlyCursors value request' secret
  · intro request createdAt itemId rank draw hvalid request'
    rw [CaptureTokens.decodeCursor_encodeCursor hideal hvalid (.capture secret draw hvalid)]
    by_cases h : CaptureTokens.Fits request createdAt rank ∧
        CaptureTokens.requestJson request = CaptureTokens.requestJson request'
    · rw [if_pos h]
      exact ⟨fun _ => ⟨h.2, h.1⟩, fun _ => rfl⟩
    · rw [if_neg h]
      exact ⟨fun he => (nomatch he), fun he => absurd ⟨he.2, he.1⟩ h⟩
  · exact fun value request' =>
      CaptureTokens.decodeCursor_cases hideal onlyCaptureCursors value request' secret

/-! ## A cursor that is too long -/

/-- The text of an instant in UTC. -/
def zuluText (w : Wall) : String :=
  String.ofList (w.date.chars ++ 'T' :: (Aware.clockText w.micros ++ ['Z']))

open Classical in
/-- Scalars that are dumped as their usual texts and found again by them. -/
noncomputable def sampleScalars : Scalars where
  datetimeText t := if h : ∃ w : Wall, w.number = t then zuluText h.choose else ""
  datetime raw := if h : ∃ w : Wall, raw = .str (zuluText w) then some h.choose.number else none
  uuid raw := if h : ∃ id : Uuid, raw = .str id.text then some h.choose else none
  int
    | .int n => some n
    | _ => none

theorem zuluText_injective {a b : Wall} (h : zuluText a = zuluText b) : a = b := by
  have hchars := String.ofList_injective h
  have hread : ∀ w : Wall, fromisoformat (String.ofList (w.date.chars ++ 'T' ::
      (Aware.clockText w.micros ++ offsetChars Offset.utc))) = some (w, some Offset.utc) := by
    intro w
    have hiso := Aware.fromisoformat_isoformat ⟨w, Offset.utc, none⟩
    rwa [Aware.isoformat_eq] at hiso
  have hsplit : ∀ w : Wall, w.date.chars ++ 'T' :: (Aware.clockText w.micros ++ ['Z']) =
      (w.date.chars ++ 'T' :: Aware.clockText w.micros) ++ ['Z'] := by
    intro w
    rw [List.append_assoc, List.cons_append]
  rw [hsplit, hsplit] at hchars
  have hbase := List.append_cancel_right hchars
  have ha := hread a
  have hb := hread b
  have hsame : a.date.chars ++ 'T' :: (Aware.clockText a.micros ++ offsetChars Offset.utc) =
      b.date.chars ++ 'T' :: (Aware.clockText b.micros ++ offsetChars Offset.utc) := by
    rw [← List.cons_append, ← List.append_assoc, hbase, List.append_assoc, List.cons_append]
  rw [hsame, hb] at ha
  exact ((Prod.mk.inj (Option.some.inj ha)).1).symm

theorem sampleScalars_lawful : sampleScalars.Lawful where
  datetime w := by
    have hw : ∃ w' : Wall, w'.number = w.number := ⟨w, rfl⟩
    have htext : sampleScalars.datetimeText w.number = zuluText w := by
      dsimp only [sampleScalars]
      rw [dif_pos hw, Wall.number_injective hw.choose_spec]
    have hread : ∃ w' : Wall, Json.str (zuluText w) = .str (zuluText w') := ⟨w, rfl⟩
    rw [htext]
    dsimp only [sampleScalars]
    rw [dif_pos hread, ← zuluText_injective (Json.str.inj hread.choose_spec)]
  uuid id := by
    have hid : ∃ id' : Uuid, Json.str id.text = .str id'.text := ⟨id, rfl⟩
    dsimp only [sampleScalars]
    rw [dif_pos hid, ← Uuid.text_injective (Json.str.inj hid.choose_spec)]
  int n := rfl

/-- A key is what it is derived from. -/
def sampleDerivation (aead : Aead (Bytes × Bytes × Nat)) : Keyring where
  Key := Bytes × Bytes × Nat
  derive secret salt rounds := (secret, salt, rounds)
  aead := aead

/-- What is issued does not depend on how it is encrypted. -/
theorem issued_derivation {a b : Aead (Bytes × Bytes × Nat)} {k : (sampleDerivation a).Key}
    {n p d : Bytes} (h : Issued (sampleDerivation a) v k n p d) :
    Issued (sampleDerivation b) v k n p d := by
  cases h with
  | cursor secret draw hvalid => exact .cursor (r := sampleDerivation b) secret draw hvalid
  | reopen secret draw scope provenance =>
      exact .reopen (r := sampleDerivation b) secret draw scope provenance
  | capture secret draw hvalid => exact .capture (r := sampleDerivation b) secret draw hvalid

/-- No encryption. -/
def plainAead : Aead (Bytes × Bytes × Nat) := ⟨fun _ _ p _ => p, fun _ _ _ _ => none⟩

/-- Encryption that opens what is issued and nothing else. -/
noncomputable def sampleKeyring (v : Scalars) : Keyring :=
  sampleDerivation (Aead.idealOf (Issued (sampleDerivation plainAead) v))

theorem sampleKeyring_ideal : (sampleKeyring v).aead.Ideal (Issued (sampleKeyring v) v) where
  opens h := (Aead.idealOf_ideal _).opens (issued_derivation h)
  authentic h :=
    have hopen := (Aead.idealOf_ideal _).authentic h
    ⟨hopen.1, issued_derivation (a := plainAead) hopen.2⟩
  size := (Aead.idealOf_ideal _).size

/-- No random bytes at all. -/
def sampleBytes : RandomBytes :=
  ⟨List.replicate saltBytes 0, List.replicate nonceBytes 0, List.length_replicate,
    List.length_replicate⟩

/-- Every family, for what is in no project. -/
theorem sampleRequest_compatible :
    ContextFilters.Compatible ⟨familyOrder, [], [], []⟩ := by decide

theorem sampleRequest_page : 1 ≤ 20 ∧ 20 ≤ maxPageSize := by decide

def sampleRequest (query : String)
    (hquery : query.length ≤ maxQueryCharacters ∧ Json.octets query.toList ≤ maxQueryBytes) :
    ContextHubQuery where
  families := familyOrder
  kinds := []
  trust := []
  states := []
  scope := ⟨none, true, rfl⟩
  query := query
  pageSize := 20
  compatible := sampleRequest_compatible
  query_bounded := hquery
  page_bounded := sampleRequest_page

/-- The first family is read to its end, and had nothing; the others go on. -/
def samplePositions : Positions
  | .localSource => some none
  | .github => some (some (.github ⟨7, 3⟩))
  | .googleCalendar => some (some (.googleCalendar ⟨9, 4⟩))

def sampleFlags : Flags
  | .localSource => some true
  | .github => some false
  | .googleCalendar => some false

/-- So many characters of four bytes each, each of which is escaped as twelve. -/
def faces (n : Nat) : String := String.ofList (List.replicate n '😀')

theorem length_faces (n : Nat) : (faces n).length = n := by
  rw [faces, String.length_ofList, List.length_replicate]

theorem octets_faces (n : Nat) : Json.octets (faces n).toList = 4 * n := by
  rw [faces, String.toList_ofList]
  induction n with
  | zero => rfl
  | succ n ih =>
      rw [List.replicate_succ, Json.octets_cons, ih, show '😀'.utf8Size = 4 by decide]
      omega

theorem dumpsLen_faces (n : Nat) : Json.dumpsLen (.str (faces n)) = 12 * n + 2 := by
  have hface : Json.octets (Json.escAscii '😀') = 12 := by decide
  rw [Json.dumpsLen_str, faces, String.toList_ofList]
  induction n with
  | zero => rfl
  | succ n ih =>
      rw [List.replicate_succ, List.flatMap_cons, Json.octets_append, hface]
      omega

def longRequest : ContextHubQuery :=
  sampleRequest (faces 192) (by rw [length_faces, octets_faces]; decide)

theorem sampleMaps_valid {query : String} {hquery} :
    ValidMaps (sampleRequest query hquery) samplePositions sampleFlags where
  placed family := by cases family <;> rfl
  flagged family := by cases family <;> rfl
  own family p h := by
    cases family with
    | localSource => cases h
    | github =>
        cases h
        exact ⟨rfl, trivial⟩
    | googleCalendar =>
        cases h
        exact ⟨rfl, trivial⟩

theorem variableWidth_sample {query : String} {hquery} :
    variableWidth sampleScalars (sampleRequest query hquery) samplePositions sampleFlags =
      Json.dumpsLen (.str query) + 455 := by
  have hsize : Json.dumpsLen (.int (20 : Nat)) = 2 := by decide
  have hfilters : filterWidth (familyOrder.map (·.value)) = 42 := by decide
  have hnone : filterWidth [] = 1 := by decide
  have hgithub : Json.dumpsLen (.int 7) = 1 := by decide
  have hcalendar : Json.dumpsLen (.int 9) = 1 := by decide
  have hgroups : familyOrder.map (groupWidth sampleScalars samplePositions sampleFlags) =
      [59, 147, 165] := by
    have hlengths : "local_source".length = 12 ∧ "github".length = 6 ∧
        "google_calendar".length = 15 := by decide
    simp [familyOrder, groupWidth, samplePositions, sampleFlags, positionWidth,
      ContextFamily.value, hgithub, hcalendar, hlengths]
  simp only [variableWidth, sampleRequest, hsize, hfilters, hgroups, hnone, List.map_nil,
    Option.isSome_none, Bool.false_eq_true, if_false, List.sum_cons, List.sum_nil]
  omega

theorem long_not_fits : ¬ Fits sampleScalars longRequest samplePositions sampleFlags := by
  rw [Fits, longRequest, variableWidth_sample, dumpsLen_faces]
  decide

/-- A query of the captures that is a page of such characters. -/
def captureRequest (query : String) (hquery : CaptureTokens.NormalizedQuery query) :
    CaptureTokens.CaptureQueryRequest where
  projectId := none
  states := [.pending]
  query := some query
  pageSize := 25
  states_unique := by decide
  query_normalized text h := by
    cases h
    exact hquery
  page_bounded := by decide

def sampleCreated : Aware := ⟨⟨⟨2026, 9, 4, by decide, by decide, by decide⟩, 0, by decide⟩,
  Offset.utc, none⟩

def sampleRank : CaptureTokens.Rank := ⟨1, 1, by decide⟩

theorem faces_normalized : CaptureTokens.NormalizedQuery (faces 200) where
  visible := by
    rw [faces, String.toList_ofList, List.all_replicate]
    decide
  length := by
    rw [length_faces]
    decide
  bytes := by rw [octets_faces]

def longCaptureRequest : CaptureTokens.CaptureQueryRequest :=
  captureRequest (faces 200) faces_normalized

theorem le_variableWidth (query : String) (hquery : CaptureTokens.NormalizedQuery query) :
    Json.dumpsLen (.str query) ≤
      CaptureTokens.variableWidth (captureRequest query hquery) sampleCreated
        (some sampleRank) := by
  simp only [CaptureTokens.variableWidth, captureRequest, Option.elim_some]
  omega

theorem longCapture_not_fits :
    ¬ CaptureTokens.Fits longCaptureRequest sampleCreated (some sampleRank) := by
  have hwidth := le_variableWidth (faces 200) faces_normalized
  rw [dumpsLen_faces] at hwidth
  intro h
  exact absurd (hwidth.trans h) (by decide)

/-- The two cursors that are written for these requests are refused. -/
theorem cursors_continue_refused :
    (∃ token, encodeCursor (sampleKeyring sampleScalars) sampleScalars longRequest samplePositions
        sampleFlags "secret" sampleBytes = .ok token ∧
      decodeCursor (sampleKeyring sampleScalars) sampleScalars token longRequest "secret" =
        .error .contextTokenError) ∧
    CaptureTokens.decodeCursor (sampleKeyring sampleScalars)
      (CaptureTokens.encodeCursor (sampleKeyring sampleScalars)
        longCaptureRequest sampleCreated (Uuid.text 5)
        (some sampleRank) "secret" sampleBytes)
      longCaptureRequest "secret" =
        .error .captureCursorError := by
  have hideal := sampleKeyring_ideal (v := sampleScalars)
  have hmaps : ValidMaps longRequest samplePositions sampleFlags := sampleMaps_valid
  have hposition : CaptureTokens.ValidPosition
      longCaptureRequest (Uuid.text 5) (some sampleRank) :=
    ⟨⟨5, rfl⟩, rfl⟩
  constructor
  · refine ⟨_, encodeCursor_eq hmaps, ?_⟩
    rw [decodeCursor_cursor hideal sampleScalars_lawful hmaps (.cursor "secret" sampleBytes hmaps),
      if_neg fun h => long_not_fits h.1]
  · rw [CaptureTokens.decodeCursor_encodeCursor hideal hposition
      (.capture "secret" sampleBytes hposition), if_neg fun h => longCapture_not_fits h.1]

/-- A short query is continued. -/
theorem cursors_continue_sample :
    ∃ token, encodeCursor (sampleKeyring sampleScalars) sampleScalars
        (sampleRequest "tide" (by decide)) samplePositions sampleFlags "secret" sampleBytes =
          .ok token ∧
      decodeCursor (sampleKeyring sampleScalars) sampleScalars token
        (sampleRequest "tide" (by decide)) "secret" = .ok (samplePositions, sampleFlags) := by
  obtain ⟨token, hencode, hdecode⟩ :=
    (cursors_continue sampleScalars_lawful sampleKeyring_ideal "secret").1
      (sampleRequest "tide" (by decide)) samplePositions sampleFlags sampleBytes sampleMaps_valid
  refine ⟨token, hencode, (hdecode _).mpr ⟨rfl, ?_⟩⟩
  rw [Fits, variableWidth_sample]
  decide

end ContextHub

end SecondBrain
