import SecondBrain.Calendar.Accounts
import SecondBrain.Calendar.Privacy
import SecondBrain.Lib.Paging

/-!
# Calendars of two accounts

Every request that is answered appends one revision with calendars of its own. Those of a
lifecycle change are the ones the account has; those of a creation and of an update were
compared with a page of the listing. So the latest configurations stay apart in every run in
which that page shows an account that a request conflicts with whenever there is one.
-/

namespace SecondBrain

open Lib

namespace Calendar

variable {t t' : AccountTables} {row : AccountRow} {calendarIds : List String}

/-! ## What a request writes -/

/-- No two accounts have a calendar in common. -/
def AccountTables.Unshared (t : AccountTables) : Prop :=
  ∀ a ∈ t.latestRows, ∀ b ∈ t.latestRows, a.configurationId ≠ b.configurationId →
    ∀ id ∈ t.calendarIds a, id ∉ t.calendarIds b

/-- Every calendar belongs to a revision. -/
def AccountTables.Owned (t : AccountTables) : Prop :=
  ∀ c ∈ t.identities, ∃ row ∈ t.rows, c.accountRevisionId = row.id

/-- One revision is added to the tables, with the calendars it selects. -/
structure Appended (t : AccountTables) (row : AccountRow) (calendarIds : List String)
    (t' : AccountTables) : Prop where
  rows : t'.rows = t.rows ++ [row]
  fresh : ∀ r ∈ t.rows, r.id ≠ row.id
  identities : ∃ calendars : List CalendarIdentity, t'.identities = t.identities ++ calendars ∧
    (∀ c ∈ calendars, c.accountRevisionId = row.id) ∧
    calendars.map (·.providerCalendarId) = calendarIds

theorem calendars_ids {draws : Draws} :
    (row.calendars calendarIds draws).map (·.providerCalendarId) = calendarIds := by
  refine List.ext_getElem (by simp [AccountRow.calendars]) fun i _ _ => ?_
  simp [AccountRow.calendars]

theorem appendRevision_spec {previous : Option AccountRow} {fingerprint reference : String}
    {projectId : Option Uuid} {lifecycle : Lifecycle} {draws : Draws} :
    Ensures (appendRevision t previous fingerprint reference projectId lifecycle calendarIds draws)
      fun t' => ∃ row, Appended t row calendarIds t' ∧
        ∀ p ∈ previous, row.configurationId = p.configurationId := by
  intro t' h
  simp only [appendRevision] at h
  split at h
  · cases h
  split at h
  · cases h
  next hchecked =>
    rw [not_not, addable] at hchecked
    obtain ⟨-, hchecked⟩ := hchecked
    simp only [Bool.and_eq_true, List.all_eq_true] at hchecked
    obtain ⟨⟨⟨hrows, -⟩, -⟩, -⟩ := hchecked
    cases h
    refine ⟨_, ⟨rfl, ?_, _, rfl, ?_, ?_⟩, ?_⟩
    · intro r hr
      simpa using (hrows _ (List.mem_map_of_mem hr)).1
    · intro c hc
      obtain ⟨i, hi, rfl⟩ := List.mem_mapIdx.mp hc
      rfl
    · exact calendars_ids
    · intro p hp
      cases hp
      rfl

namespace Appended

/-- The calendars of the revisions that were there are the same. -/
theorem calendarIds_of_mem (h : Appended t row calendarIds t') {r : AccountRow} (hr : r ∈ t.rows) :
    t'.calendarIds r = t.calendarIds r := by
  obtain ⟨calendars, hidentities, howner, -⟩ := h.identities
  have hnone : calendars.filter (·.accountRevisionId == r.id) = [] := by
    rw [List.filter_eq_nil_iff]
    intro c hc
    rw [howner c hc, beq_iff_eq]
    exact fun hid => h.fresh r hr hid.symm
  rw [AccountTables.calendarIds, hidentities, List.filter_append, hnone, List.append_nil]
  rfl

theorem calendarIds_self (h : Appended t row calendarIds t') (howned : t.Owned) :
    t'.calendarIds row = calendarIds := by
  obtain ⟨calendars, hidentities, howner, hids⟩ := h.identities
  have hnone : t.identities.filter (·.accountRevisionId == row.id) = [] := by
    rw [List.filter_eq_nil_iff]
    intro c hc
    obtain ⟨r, hr, hid⟩ := howned c hc
    simpa [hid] using h.fresh r hr
  have hall : calendars.filter (·.accountRevisionId == row.id) = calendars := by
    rw [List.filter_eq_self]
    intro c hc
    rw [howner c hc, beq_self_eq_true]
  rw [AccountTables.calendarIds, hidentities, List.filter_append, hnone, hall, List.nil_append,
    hids]

theorem owned (h : Appended t row calendarIds t') (howned : t.Owned) : t'.Owned := by
  obtain ⟨calendars, hidentities, howner, -⟩ := h.identities
  intro c hc
  rw [hidentities, List.mem_append] at hc
  rw [h.rows]
  rcases hc with hc | hc
  · obtain ⟨r, hr, hid⟩ := howned c hc
    exact ⟨r, List.mem_append_left _ hr, hid⟩
  · exact ⟨row, by simp, howner c hc⟩

/-- What is latest is the new revision, or was latest before. -/
theorem latestRows (h : Appended t row calendarIds t') {r : AccountRow} (hr : r ∈ t'.latestRows) :
    r = row ∨ r ∈ t.rows ∧ r ∈ t.latestRows := by
  rw [AccountTables.latestRows, h.rows, List.mem_filter, List.mem_append,
    List.mem_singleton, List.all_append, Bool.and_eq_true] at hr
  obtain ⟨hmem | hmem, hlatest, -⟩ := hr
  · exact .inr ⟨hmem, List.mem_filter.mpr ⟨hmem, hlatest⟩⟩
  · exact .inl hmem

/-- The accounts stay apart where the new revision is apart from the others. -/
theorem unshared (h : Appended t row calendarIds t') (howned : t.Owned) (hunshared : t.Unshared)
    (hapart : ∀ r ∈ t.latestRows, row.configurationId ≠ r.configurationId →
      ∀ id ∈ t.calendarIds r, id ∉ calendarIds) : t'.Unshared := by
  intro a ha b hb hne id hida hidb
  rcases h.latestRows ha with rfl | ⟨harow, ha⟩
  · rcases h.latestRows hb with rfl | ⟨hbrow, hb⟩
    · exact hne rfl
    · rw [h.calendarIds_self howned] at hida
      rw [h.calendarIds_of_mem hbrow] at hidb
      exact hapart b hb hne id hidb hida
  · rw [h.calendarIds_of_mem harow] at hida
    rcases h.latestRows hb with rfl | ⟨hbrow, hb⟩
    · rw [h.calendarIds_self howned] at hidb
      exact hapart a ha (Ne.symm hne) id hida hidb
    · rw [h.calendarIds_of_mem hbrow] at hidb
      exact hunshared a ha b hb hne id hida hidb

end Appended

/-! ## What a request asks for -/

namespace AccountCall

/-- The calendars a request names. -/
def requested : AccountCall → List String
  | create request _ _ => request.calendarIds
  | update _ request _ _ => request.calendarIds.getD []
  | setLifecycle .. | revoke .. => []

/-- The account a request is about, if there is one already. -/
def account : AccountCall → Option Uuid
  | create .. => none
  | update accountId .. | setLifecycle accountId .. | revoke accountId .. => some accountId

end AccountCall

/-- The configuration of another account has a calendar that the request names. -/
def Conflicts (t : AccountTables) (c : AccountCall) (row : AccountRow) : Prop :=
  c.account ≠ some row.configurationId ∧ ∃ id ∈ t.calendarIds row, id ∈ c.requested

/-- If there is an account that a request conflicts with, there is one on the page. -/
def InSight (t : AccountTables) : AccountLabel → Prop
  | .call c => (∃ row ∈ t.latestRows, Conflicts t c row) →
      ∃ row ∈ t.listAccounts 100 0, Conflicts t c row
  | .project _ => True

theorem checkCalendarIds_spec {values : List String} :
    Ensures (checkCalendarIds values) fun ids => ∀ id, id ∈ ids ↔ id ∈ values := by
  intro ids h
  rw [checkCalendarIds] at h
  split at h
  · cases h
  split at h
  · cases h
  split at h
  · cases h
  · cases h
    exact fun id => List.mem_insertionSort _

theorem getAccount_spec {accountId : Uuid} :
    Ensures (getAccount t accountId) fun row =>
      row ∈ t.latestRows ∧ row.configurationId = accountId := by
  intro row h
  rw [getAccount] at h
  split at h
  · cases h
  · next found hfound =>
      cases h
      exact ⟨List.mem_of_find?_eq_some hfound, by simpa using List.find?_some hfound⟩

theorem ensureUnique_spec {account : Option Uuid} :
    Ensures (ensureUnique t calendarIds account) fun _ =>
      ∀ row ∈ t.listAccounts 100 0, account ≠ some row.configurationId →
        ∀ id ∈ t.calendarIds row, id ∉ calendarIds := by
  intro _ h row hrow hne id hid hmem
  rw [ensureUnique] at h
  split at h
  · cases h
  · next hnone =>
      refine hnone (List.any_eq_true.mpr ⟨row, hrow, ?_⟩)
      simpa using ⟨hne, id, hid, hmem⟩

/-! ## What a request leaves -/

/-- An answered request appends one revision; its account has none of the calendars of the
others that the page shows, nor of any other where they are the ones it had. -/
structure Answered (t : AccountTables) (c : AccountCall) (t' : AccountTables) : Prop where
  appended : ∃ row calendarIds, Appended t row calendarIds t' ∧
    (∀ id ∈ c.account, row.configurationId = id) ∧
    ((∃ previous ∈ t.latestRows, previous.configurationId = row.configurationId ∧
        ∀ id ∈ calendarIds, id ∈ t.calendarIds previous) ∨
      (∀ id ∈ calendarIds, id ∈ c.requested))
  unseen : ∀ row ∈ t.listAccounts 100 0, ¬ Conflicts t c row

/-- A lifecycle change keeps the calendars of the account. -/
theorem appendRevision_kept {previous : AccountRow} {fingerprint reference : String}
    {projectId : Option Uuid} {lifecycle : Lifecycle} {draws : Draws} {c : AccountCall}
    (hprevious : previous ∈ t.latestRows ∧ c.account = some previous.configurationId)
    (hrequested : c.requested = []) :
    Ensures (appendRevision t (some previous) fingerprint reference projectId lifecycle
      (t.calendarIds previous) draws) (Answered t c) := by
  refine appendRevision_spec.mono fun t' ⟨row, happended, hid⟩ => ⟨?_, ?_⟩
  · have hid := hid previous rfl
    refine ⟨row, _, happended, ?_, .inl ⟨previous, hprevious.1, hid.symm, fun _ h => h⟩⟩
    intro id h
    rw [hprevious.2, Option.mem_some_iff] at h
    rw [hid, h]
  · intro row _ ⟨_, id, _, hmem⟩
    rw [hrequested] at hmem
    cases hmem

theorem answerCall_spec {c : AccountCall} : Ensures (answerCall t c) (Answered t c) := by
  cases c with
  | create request answer draws =>
      refine checkCalendarIds_spec.bind fun ids hids => Ensures.bind_any fun reference _ => ?_
      refine ensureUnique_spec.bind fun _ hunique => Ensures.bind_any fun projectId _ => ?_
      refine appendRevision_spec.mono fun t' ⟨row, happended, _⟩ => ⟨?_, ?_⟩
      · exact ⟨row, ids, happended, by simp [AccountCall.account], .inr fun id => (hids id).mp⟩
      · intro row hrow ⟨hne, id, hid, hmem⟩
        exact hunique row hrow hne id hid ((hids id).mpr hmem)
  | update accountId request answer draws =>
      refine getAccount_spec.bind fun previous ⟨hprevious, hid⟩ => ?_
      refine Ensures.bind_any fun _ _ => Ensures.bind_any fun _ _ => ?_
      refine checkCalendarIds_spec.bind fun ids hids => Ensures.bind_any fun _ _ => ?_
      refine ensureUnique_spec.bind fun _ hunique => Ensures.bind_any fun projectId _ => ?_
      refine appendRevision_spec.mono fun t' ⟨row, happended, hrow⟩ => ⟨?_, ?_⟩
      · have hrow := (hrow previous rfl).trans hid
        refine ⟨row, ids, happended, fun id h => hrow.trans (Option.some.inj h), ?_⟩
        by_cases hrequested : request.calendarIds.getD [] = []
        · refine .inl ⟨previous, hprevious, hid.trans hrow.symm, fun id h => ?_⟩
          rw [hids, requestedOr, if_pos hrequested] at h
          exact h
        · refine .inr fun id h => ?_
          rw [hids, requestedOr, if_neg hrequested] at h
          exact h
      · intro row hrow ⟨hne, id, hid, hmem⟩
        refine hunique row hrow hne id hid ((hids id).mpr ?_)
        have hrequested : request.calendarIds.getD [] ≠ [] := List.ne_nil_of_mem hmem
        rwa [requestedOr, if_neg hrequested]
  | setLifecycle accountId expectedRevision target answer draws =>
      refine getAccount_spec.bind fun previous ⟨hprevious, hid⟩ => ?_
      refine Ensures.bind_any fun _ _ => Ensures.bind_any fun _ _ => ?_
      refine Ensures.bind_any fun reference _ => ?_
      exact appendRevision_kept ⟨hprevious, congrArg some hid.symm⟩ rfl
  | revoke accountId expectedRevision draws =>
      refine getAccount_spec.bind fun previous ⟨hprevious, hid⟩ => ?_
      refine Ensures.bind_any fun _ _ => Ensures.bind_any fun _ _ => ?_
      exact appendRevision_kept ⟨hprevious, congrArg some hid.symm⟩ rfl

/-- A request that does not conflict with an account it does not see leaves the accounts apart. -/
theorem Answered.unshared {c : AccountCall} (h : Answered t c t') (howned : t.Owned)
    (hunshared : t.Unshared) (hsight : InSight t (.call c)) : t'.Unshared := by
  have hnone : ∀ row ∈ t.latestRows, ¬ Conflicts t c row := by
    intro row hrow hconflict
    obtain ⟨seen, hseen, hconflict⟩ := hsight ⟨row, hrow, hconflict⟩
    exact h.unseen seen hseen hconflict
  obtain ⟨row, calendarIds, happended, hid, hkept | hrequested⟩ := h.appended
  · obtain ⟨previous, hprevious, hsame, hkept⟩ := hkept
    refine happended.unshared howned hunshared fun r hr hne id hmem hid => ?_
    exact hunshared r hr previous hprevious (hsame ▸ Ne.symm hne) id hmem (hkept id hid)
  · refine happended.unshared howned hunshared fun r hr hne id hmem hid' => ?_
    refine hnone r hr ⟨fun hself => hne (hid _ hself), id, hmem, hrequested id hid'⟩

theorem next_of_ok {c : AccountCall} (h : answerCall t c = .ok t') :
    accounts.next t (.call c) = some t' := by
  simp only [accounts, h]

theorem next_of_error {c : AccountCall} {e : AccountError} (h : answerCall t c = .error e) :
    accounts.next t (.call c) = some t := by
  simp only [accounts, h]

/-- A request that conflicts with an account on the page is refused. -/
theorem answerCall_refused {c : AccountCall}
    (h : ∃ row ∈ t.listAccounts 100 0, Conflicts t c row) : ∃ e, answerCall t c = .error e := by
  obtain ⟨row, hrow, hconflict⟩ := h
  cases hanswer : answerCall t c with
  | error e => exact ⟨e, rfl⟩
  | ok t' => exact absurd hconflict ((answerCall_spec _ hanswer).unseen row hrow)

/-! ## Runs -/

structure Separate (t : AccountTables) : Prop where
  owned : t.Owned
  unshared : t.Unshared

theorem separate_of_reach (h : accounts.Reach InSight t) : Separate t := by
  refine h.invariant ?_ ?_
  · rintro t rfl
    exact ⟨(fun c hc => by cases hc), fun a ha => by cases ha⟩
  · intro t l t' _ hsight ht hnext
    cases l with
    | project id =>
        cases hnext
        exact ⟨ht.owned, ht.unshared⟩
    | call c =>
        simp only [accounts] at hnext
        split at hnext
        · next answer hanswer =>
            cases hnext
            have hspec := answerCall_spec _ hanswer
            obtain ⟨row, calendarIds, happended, -⟩ := hspec.appended
            exact ⟨happended.owned ht.owned, hspec.unshared ht.owned ht.unshared hsight⟩
        · cases hnext
          exact ht

/-- **In every run of requests in which the page that is looked at shows an account whenever
there is one that the request conflicts with, no two accounts ever have a calendar in common,
and a request that conflicts with an account is refused and writes nothing.** -/
theorem calendars_unshared {t : AccountTables} (h : accounts.Reach InSight t) :
    t.Unshared ∧ ∀ c, InSight t (.call c) → (∃ row ∈ t.latestRows, Conflicts t c row) →
      (∃ e, answerCall t c = .error e) ∧ accounts.next t (.call c) = some t := by
  refine ⟨(separate_of_reach h).unshared, fun c hsight hconflict => ?_⟩
  obtain ⟨e, he⟩ := answerCall_refused (hsight hconflict)
  exact ⟨⟨e, he⟩, next_of_error he⟩

/-! ## The hundred and first account -/

def listedReference : String := "sbcred:v1:00000000-0000-4000-8000-000000000000"

def listedFingerprint : String :=
  "0000000000000000000000000000000000000000000000000000000000000000"

/-- As many letters as the number says, and one more. -/
def listedCalendar (n : Nat) : String := String.ofList (List.replicate (n + 1) 'a')

def listedDraws (n : Nat) : Draws :=
  ⟨BitVec.ofNat 128 n, BitVec.ofNat 128 n, fun _ => BitVec.ofNat 128 n, n⟩

/-- The creation of an account at the instant `n`, with the calendar `k`. -/
def listedCreate (n k : Nat) : AccountCall :=
  .create ⟨listedReference, listedFingerprint, .unassigned, [listedCalendar k]⟩
    (.ok ⟨"authorized", listedReference, listedFingerprint, 1⟩) (listedDraws n)

def listedRow (n : Nat) : AccountRow :=
  accountRevision none listedFingerprint listedReference none .enabled (listedDraws n)

def listedIdentity (n k : Nat) : CalendarIdentity :=
  ⟨BitVec.ofNat 128 n, BitVec.ofNat 128 n, listedFingerprint, listedCalendar k⟩

/-- The tables after the creation of `n` accounts, each with the calendar of its number. -/
def listedTables (n : Nat) : AccountTables where
  rows := (List.range n).map listedRow
  identities := (List.range n).map fun i => listedIdentity i i

theorem listedCalendar_inj {i j : Nat} (h : listedCalendar i = listedCalendar j) : i = j := by
  have hlength := congrArg String.length h
  simpa [listedCalendar] using hlength

theorem listedId_inj {i j : Nat} (hi : i < 1000) (hj : j < 1000)
    (h : BitVec.ofNat 128 i = BitVec.ofNat 128 j) : i = j := by
  have hnat := congrArg BitVec.toNat h
  rw [BitVec.toNat_ofNat, BitVec.toNat_ofNat, Nat.mod_eq_of_lt (by omega),
    Nat.mod_eq_of_lt (by omega)] at hnat
  exact hnat

theorem length_sampleCalendar (k : Nat) : (listedCalendar k).length = k + 1 := by
  simp [listedCalendar]

theorem listedCalendar_checked {k : Nat} (hk : k < 1000) :
    checkCalendarIds [listedCalendar k] = .ok [listedCalendar k] := by
  have hstrip : strip (listedCalendar k) = listedCalendar k := by
    have hkept : (List.replicate (k + 1) 'a').dropWhile isSpace = List.replicate (k + 1) 'a' := rfl
    rw [strip, listedCalendar, String.toList_ofList, hkept, List.reverse_replicate, hkept,
      List.reverse_replicate]
  have hlength := length_sampleCalendar k
  have hbytes := utf8ByteSize_le (listedCalendar k)
  have hne : listedCalendar k ≠ "" := by
    intro h
    rw [h] at hlength
    simp at hlength
  have hsmall : (listedCalendar k).utf8ByteSize ≤ 4096 := by omega
  simp [checkCalendarIds, hstrip, hne, hsmall]

theorem mem_sampleTables {n : Nat} {row : AccountRow} (h : row ∈ (listedTables n).rows) :
    ∃ i < n, row = listedRow i := by
  obtain ⟨i, hi, rfl⟩ := List.mem_map.mp h
  exact ⟨i, List.mem_range.mp hi, rfl⟩

theorem listedTables_calendarIds {n i : Nat} (hn : n ≤ 1000) (hi : i < n) {id : String}
    (h : id ∈ (listedTables n).calendarIds (listedRow i)) : id = listedCalendar i := by
  obtain ⟨c, hc, rfl⟩ := List.mem_map.mp h
  obtain ⟨hmem, howner⟩ := List.mem_filter.mp hc
  obtain ⟨j, hj, rfl⟩ := List.mem_map.mp hmem
  have hj := List.mem_range.mp hj
  have hsame : j = i := listedId_inj (by omega) (by omega) (beq_iff_eq.mp howner)
  rw [hsame]
  rfl

theorem mem_listAccounts {n : Nat} {row : AccountRow} {limit offset : Nat}
    (h : row ∈ (listedTables n).listAccounts limit offset) : ∃ i < n, row = listedRow i := by
  have hlatest := mem_newestFirst.mp (List.mem_of_mem_drop (List.mem_of_mem_take h))
  exact mem_sampleTables (List.mem_filter.mp hlatest).1

theorem listedReference_valid : validCredentialReference listedReference = true := by
  decide +kernel

theorem listedRow_checked {n k : Nat} (hk : k < 1000) :
    accountChecked (listedRow n) [listedCalendar k] = true := by
  have hlength := length_sampleCalendar k
  have hbytes := utf8ByteSize_le (listedCalendar k)
  have hfingerprint : fingerprintPattern listedFingerprint = true := by decide +kernel
  simp only [accountChecked, listedRow, accountRevision, hfingerprint, listedReference_valid,
    hlength, List.all_cons, List.all_nil]
  simp
  omega

theorem listedRow_addable {n k : Nat} (hn : n < 1000) :
    addable (listedTables n).store (listedRow n).toCalendarAccountRevision [listedIdentity n k]
      = true := by
  have hne : ∀ i < n, BitVec.ofNat 128 i ≠ BitVec.ofNat 128 n := by
    intro i hi h
    have hsame := listedId_inj (by omega) hn h
    omega
  simp only [addable, AccountTables.store, listedTables, Bool.and_eq_true, List.all_eq_true,
    List.mem_map, List.mem_range]
  refine ⟨⟨⟨?_, ?_⟩, by simp⟩, by simp⟩
  · rintro _ ⟨_, ⟨i, hi, rfl⟩, rfl⟩
    simpa [listedRow, accountRevision, listedDraws] using hne i hi
  · intro c hc
    rw [List.mem_singleton.mp hc]
    refine ⟨by simp [listedIdentity, listedRow, accountRevision, listedDraws], ?_⟩
    rintro _ ⟨i, hi, rfl⟩
    simpa [listedIdentity] using hne i hi

/-- A creation goes through if no account on the page has the calendar. -/
theorem listedCreate_ok {n k : Nat} (hn : n < 1000) (hk : k < 1000)
    (hunseen : ∀ i < n, listedRow i ∈ (listedTables n).listAccounts 100 0 → i ≠ k) :
    answerCall (listedTables n) (listedCreate n k) = .ok
      { listedTables n with
        rows := (listedTables n).rows ++ [listedRow n]
        identities := (listedTables n).identities ++ [listedIdentity n k] } := by
  have hunique : ensureUnique (listedTables n) [listedCalendar k] none = .ok () := by
    rw [ensureUnique, if_neg]
    intro hany
    obtain ⟨row, hrow, hshared⟩ := List.any_eq_true.mp hany
    obtain ⟨i, hi, rfl⟩ := mem_listAccounts hrow
    obtain ⟨-, id, hid, hmem⟩ := of_decide_eq_true hshared
    rw [listedTables_calendarIds (by omega) hi hid, List.mem_singleton] at hmem
    exact hunseen i hi hrow (listedCalendar_inj hmem)
  have hauthorized : checkAuthorization
      (.ok ⟨"authorized", listedReference, listedFingerprint, 1⟩) listedReference
      listedFingerprint = .ok listedReference := by
    simp [checkAuthorization, listedReference_valid]
  have hnul : [listedCalendar k].any hasNul = false := by
    simp [hasNul, listedCalendar, List.mem_replicate]
  have hcalendars : (listedRow n).calendars [listedCalendar k] (listedDraws n) =
      [listedIdentity n k] := rfl
  have happended : appendRevision (listedTables n) none listedFingerprint listedReference none
      .enabled [listedCalendar k] (listedDraws n) = .ok
      { listedTables n with
        rows := (listedTables n).rows ++ [listedRow n]
        identities := (listedTables n).identities ++ [listedIdentity n k] } := by
    simp only [appendRevision]
    rw [← listedRow, hcalendars, if_neg, if_neg]
    · simpa using ⟨listedRow_checked hk, listedRow_addable hn⟩
    · rw [hnul]
      simp [listedRow, accountRevision]
  simp only [answerCall, listedCreate, createAccount]
  rw [listedCalendar_checked hk]
  simp only [bind, Except.bind, hauthorized, hunique, projectIdOf]
  exact happended

theorem listedTables_next {n : Nat} (hn : n < 1000) :
    accounts.next (listedTables n) (.call (listedCreate n n)) = some (listedTables (n + 1)) := by
  rw [next_of_ok (listedCreate_ok hn hn fun i hi _ => by omega)]
  simp [listedTables, List.range_succ]

/-- As many accounts as one likes are created, none of which conflicts with another. -/
theorem listedTables_reach {n : Nat} (hn : n ≤ 1000) : accounts.Reach InSight (listedTables n) := by
  induction n with
  | zero => exact .start rfl
  | succ n ih =>
      refine .step (ih (by omega)) ?_ (listedTables_next (by omega))
      rintro ⟨row, hrow, -, id, hid, hmem⟩
      obtain ⟨i, hi, rfl⟩ := mem_sampleTables (List.mem_filter.mp hrow).1
      rw [listedTables_calendarIds (by omega) hi hid] at hmem
      have hsame := listedCalendar_inj (List.mem_singleton.mp hmem)
      omega

/-- Of two accounts both are on the page, and the calendar of the first is not given again. -/
theorem calendars_unshared_two :
    (listedTables 2).Unshared ∧
      accounts.next (listedTables 2) (.call (listedCreate 2 0)) = some (listedTables 2) := by
  have hconflict : Conflicts (listedTables 2) (listedCreate 2 0) (listedRow 0) :=
    ⟨by simp [AccountCall.account, listedCreate], listedCalendar 0, by decide, by decide⟩
  have hlatest : listedRow 0 ∈ (listedTables 2).latestRows := by decide
  have hpage : listedRow 0 ∈ (listedTables 2).listAccounts 100 0 := by decide
  obtain ⟨hunshared, hrefused⟩ := calendars_unshared (listedTables_reach (n := 2) (by omega))
  exact ⟨hunshared, (hrefused _ (fun _ => ⟨_, hpage, hconflict⟩) ⟨_, hlatest, hconflict⟩).2⟩

theorem latestRows_of_first {t : AccountTables}
    (h : ∀ row ∈ t.rows, row.configurationRevision = 1) : t.latestRows = t.rows := by
  rw [AccountTables.latestRows, List.filter_eq_self]
  intro row hrow
  rw [List.all_eq_true]
  intro other hother
  simp [h row hrow, h other hother]

theorem listedTables_latestRows (n : Nat) : (listedTables n).latestRows = (listedTables n).rows := by
  refine latestRows_of_first fun row hrow => ?_
  obtain ⟨i, -, rfl⟩ := mem_sampleTables hrow
  rfl

theorem listedRow_key {i j : Nat} (h : accountKey (listedRow i) = accountKey (listedRow j)) :
    i = j := by
  have hinstant : (i : Int) = j := congrArg (fun key => (ofLex key).1) h
  exact_mod_cast hinstant

/-- Of a hundred and one accounts the first is past the page. -/
theorem listedRow_zero_unseen : listedRow 0 ∉ (listedTables 101).listAccounts 100 0 := by
  have hnodup : (listedTables 101).rows.Nodup :=
    List.nodup_range.map fun i j h => listedRow_key (congrArg accountKey h)
  have hkey : ∀ a ∈ (listedTables 101).rows, ∀ b ∈ (listedTables 101).rows,
      accountKey a = accountKey b → a = b := by
    intro a ha b hb h
    obtain ⟨i, -, rfl⟩ := mem_sampleTables ha
    obtain ⟨j, -, rfl⟩ := mem_sampleTables hb
    rw [listedRow_key h]
  rw [AccountTables.listAccounts, List.drop_zero, listedTables_latestRows,
    mem_take_newestFirst hnodup hkey]
  rintro ⟨-, hahead⟩
  have hlater : ∀ i : Nat, decide (accountKey (listedRow 0) < accountKey (listedRow i)) =
      decide (0 < i) := by
    intro i
    rw [decide_eq_decide, Prod.Lex.lt_iff]
    constructor
    · rintro (hlt | ⟨hinstant, hid⟩)
      · exact Int.natCast_pos.mp hlt
      · have hzero : i = 0 := by exact_mod_cast (show (0 : Int) = i from hinstant).symm
        subst hzero
        exact absurd hid (lt_irrefl _)
    · exact fun hpos => .inl (Int.natCast_pos.mpr hpos)
  rw [ahead, listedTables, List.filter_map, List.length_map] at hahead
  simp only [Function.comp_def, hlater] at hahead
  revert hahead
  decide

/-- The tables in which the calendar of the first account is selected once more. -/
def sharedTables : AccountTables :=
  { listedTables 101 with
    rows := (listedTables 101).rows ++ [listedRow 101]
    identities := (listedTables 101).identities ++ [listedIdentity 101 0] }

theorem sharedTables_next :
    accounts.next (listedTables 101) (.call (listedCreate 101 0)) = some sharedTables := by
  have hunseen : ∀ i < 101, listedRow i ∈ (listedTables 101).listAccounts 100 0 → i ≠ 0 := by
    intro i _ hseen hzero
    rw [hzero] at hseen
    exact listedRow_zero_unseen hseen
  rw [next_of_ok (listedCreate_ok (by omega) (by omega) hunseen), sharedTables]

theorem oldest_calendar_shared : ∃ t, accounts.Reachable t ∧ ¬ t.Unshared := by
  have hreach : accounts.Reachable (listedTables 101) :=
    (listedTables_reach (by omega)).reachable
  refine ⟨sharedTables, hreach.step trivial sharedTables_next, fun hunshared => ?_⟩
  have hrows : ∀ i ≤ 101, listedRow i ∈ sharedTables.rows := by
    intro i hi
    have hrange : sharedTables.rows = (List.range 102).map listedRow := by
      simp [sharedTables, listedTables, List.range_succ (n := 101)]
    rw [hrange]
    exact List.mem_map_of_mem (List.mem_range.mpr (by omega))
  have hlatest : sharedTables.latestRows = sharedTables.rows := by
    refine latestRows_of_first fun row hrow => ?_
    rcases List.mem_append.mp hrow with hrow | hrow
    · obtain ⟨i, -, rfl⟩ := mem_sampleTables hrow
      rfl
    · rw [List.mem_singleton.mp hrow]
      rfl
  refine hunshared (listedRow 0) (hlatest ▸ hrows 0 (by omega)) (listedRow 101)
    (hlatest ▸ hrows 101 (by omega)) ?_ (listedCalendar 0) ?_ ?_
  · decide
  · refine List.mem_map.mpr ⟨listedIdentity 0 0, List.mem_filter.mpr ⟨?_, by decide⟩, rfl⟩
    exact List.mem_append_left _ (List.mem_map_of_mem (List.mem_range.mpr (by omega)))
  · refine List.mem_map.mpr ⟨listedIdentity 101 0, List.mem_filter.mpr ⟨?_, by decide⟩, rfl⟩
    exact List.mem_append_right _ (List.mem_singleton_self _)

end Calendar

end SecondBrain
