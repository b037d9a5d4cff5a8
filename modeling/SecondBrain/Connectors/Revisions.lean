import SecondBrain.Lib.Chain
import SecondBrain.Connectors.SyncSteps

/-!
# The revisions of an identity

Whatever pages are read in whatever runs, and wherever they fail, what was
written of an item stays: a step adds revisions after those that are there or
adds none, and a reconciliation touches the state of a row, with the run and the
time it was last seen by, and nothing else (`revision_chain`).
-/

namespace SecondBrain

open Lib

namespace Connectors

variable {p : Platform} {s s' : SyncState} {db db' : Store} {l : SyncLabel}
  {run : ConnectorSyncRun}

/-- What is written once. -/
def Store.written (db : Store) : List ItemRevision := db.items.map (·.toItemRevision)

def ItemRevision.content (r : ItemRevision) : String × String :=
  (r.providerSourceVersion, r.contentHash)

/-- The revisions of every identity are numbered without a gap, no two have one
version and one digest, and rows are told apart by their identifiers. -/
structure Numbered (written : List ItemRevision) : Prop where
  ids : Keyed (·.id) written
  chained : Chained (·.identity) (·.applicationRevision) ItemRevision.content written

/-! ## What the operations write -/

theorem reconciled_revision {item : ExternalItem} {observed : List (String × String)}
    {reconciledAt : Instant} :
    (item.reconciled run observed reconciledAt).toItemRevision = item.toItemRevision := by
  unfold ExternalItem.reconciled
  by_cases hstate : item.state = if item.identity.key ∈ observed then .current else .stale
  · rw [if_pos hstate]
  · rw [if_neg hstate]
    split
    · rfl
    · rfl

theorem reconcile_written {observed : List (String × String)} {reconciledAt : Instant}
    (h : reconcileLatestItems db run observed reconciledAt = .ok db') :
    db'.written = db.written := by
  unfold reconcileLatestItems at h
  simp only [] at h
  split at h
  · cases h
    rw [Store.written, Store.written, List.map_map]
    refine List.map_congr_left fun item _ => ?_
    rw [Function.comp_apply]
    split
    · exact reconciled_revision
    · rfl
  · cases h

theorem latest_written (db : Store) (identity : Identity) :
    (latest (·.applicationRevision) (fun r => r.identity == identity) db.written).elim 1
        (·.applicationRevision + 1) =
      (db.latestRevision identity).elim 1 (·.applicationRevision + 1) := by
  rw [Store.written, latest_map, Option.elim_map, Store.latestRevision]
  rfl

theorem recorded_written {item : ExternalItem} {seenAt : Instant} {created : Bool}
    (h : Recorded db item seenAt db' created) (hdb : Numbered db.written) :
    db.written <+: db'.written ∧ Numbered db'.written := by
  cases h with
  | replayed => exact ⟨List.prefix_rfl, hdb⟩
  | created hreplayed hordered hfresh =>
      have hwritten : Store.written { db with items := db.items ++ [nextRevision db item seenAt] } =
          db.written ++ [(nextRevision db item seenAt).toItemRevision] := by
        rw [Store.written, List.map_append, List.map_singleton]
        rfl
      rw [hwritten]
      refine ⟨List.prefix_append _ _, hdb.ids.append fun hmem => ?_, hdb.chained.append ?_ ?_⟩
      · obtain ⟨r, hr, hid⟩ := List.mem_map.mp hmem
        obtain ⟨old, hold, rfl⟩ := List.mem_map.mp hr
        exact hfresh old hold hid
      · exact (latest_written db item.identity).symm
      · intro r hr hsame
        obtain ⟨hr, hidentity : r.identity = item.identity⟩ := mem_members.mp hr
        obtain ⟨old, hold, rfl⟩ := List.mem_map.mp hr
        rw [Store.replayed?, List.find?_eq_none] at hreplayed
        refine hreplayed old (List.mem_filter.mpr ⟨hold, by simpa using hidentity⟩) ?_
        have hsame := Prod.mk.inj hsame
        rw [ItemRevision.sameContent, Bool.and_eq_true, beq_iff_eq, beq_iff_eq]
        exact hsame

theorem recordAll_written {seenAt : Instant} {items : List ExternalItem}
    (hdb : Numbered db.written) :
    Ensures (recordAll p seenAt items db) fun x =>
      db.written <+: x.1.written ∧ Numbered x.1.written := by
  refine recordAll_keeps (P := fun db' => db.written <+: db'.written ∧ Numbered db'.written)
    (fun db₁ db₂ item created _ h _ hrecord => ?_) ⟨List.prefix_rfl, hdb⟩
  have hnext := recorded_written hrecord h.2
  exact ⟨h.1.trans hnext.1, hnext.2⟩

/-- What a step writes comes after what was written before. -/
theorem Moves.written (hmove : Moves p s l s') (h : Numbered s.db.written) :
    s.db.written <+: s'.db.written ∧ Numbered s'.db.written := by
  have hsame : s'.db.written = s.db.written → s.db.written <+: s'.db.written ∧
      Numbered s'.db.written := by
    intro heq
    rw [heq]
    exact ⟨List.prefix_rfl, h⟩
  cases hmove with
  | edited hedited => cases hedited <;> exact hsame rfl
  | claimed | resumed | faulted | raised | stopped => exact hsame rfl
  | advanced hr hattempt =>
      have hadvances := attempt_advances hattempt
      cases hadvances with
      | authorized | started | identified | validated | confirmed | cutOff => exact hsame rfl
      | stored hphase hpersisted => exact recordAll_written h _ hpersisted.recorded
      | paged hphase hsnapshots hpersisted => exact recordAll_written h _ hpersisted.recorded
      | finished hphase hcomplete hrun haccount hreconcile =>
          have hwritten := reconcile_written hreconcile
          exact hsame hwritten
  | settled hr hphase hdone =>
      obtain ⟨run, status, code, fenced, -, hfenced, -, -, rfl⟩ := closeRun_spec _ hdone
      cases hfenced with
      | unchanged => exact hsame rfl
      | disabled => exact hsame rfl

theorem numbered {ok : SyncState → SyncLabel → Prop} (h : (Sync.machine p).Reach ok s) :
    Numbered s.db.written := by
  refine h.invariant (I := fun s => Numbered s.db.written) (fun s hs => ?_)
    fun s l s' _ _ hs hstep => ((step_moves hstep).written hs).2
  have hs : s = {} := hs
  subst hs
  exact ⟨List.nodup_nil, .nil⟩

def samplePlatform : Platform where
  sha256 bytes :=
    if bytes.length % 2 = 0 then "00000000000000000000000000000000000000000000000000000000000000a0"
    else "00000000000000000000000000000000000000000000000000000000000000a1"
  casefold s := String.ofList (s.toList.map Char.toLower)
  lower s := String.ofList (s.toList.map Char.toLower)

def sampleRequest : ConnectorAccountCreate :=
  { externalAccountIdentity := "o"
    credentialReference := "sbcred:v1:00000000-0000-4000-8000-000000000000"
    scope := none
    repositories := ["a/b"] }

def sampleRepository : Json :=
  .obj [("id", .int 7), ("full_name", .str "a/b"), ("updated_at", .str "2026-09-04T00:00:00Z"),
    ("archived", .bool false), ("private", .bool true)]

def sampleIssue (id : Int) (title : String) : Json :=
  .obj [("id", .int id), ("title", .str title), ("body", .null), ("state", .str "open"),
    ("updated_at", .str "2026-09-04T00:00:00Z"), ("number", .int id)]

def sampleSetup : List SyncLabel :=
  [.edit (.create sampleRequest 1 0), .edit (.setLifecycle 1 0 .enabled)]

/-- A refresh of the account at one of its revisions, up to its first page. -/
def sampleStart (pid revision : Nat) (t : Instant) : List SyncLabel :=
  [.claim 1 revision .manual "operator_manual_refresh" t (BitVec.ofNat 128 (100 * pid)),
    .call pid (.authorize (.ok ()) (.ok ()) false), .call pid (.start t),
    .call pid (.identify false (.ok (.obj [("login", .str "o")]))),
    .call pid (.validate false (.ok sampleRepository)), .call pid (.confirm false t),
    .call pid (.storeRepository false t fun _ => BitVec.ofNat 128 (100 * pid + 1))]

def samplePage (pid : Nat) (t : Instant) (items : List Json) : SyncLabel :=
  .call pid (.readPage false false (.ok ⟨.arr items, false⟩) t fun n =>
    BitVec.ofNat 128 (100 * pid + 10 + n))

def sampleRefresh (pid revision : Nat) (t : Instant) (issues : List Json) : List SyncLabel :=
  sampleStart pid revision t ++
    [samplePage pid t issues, samplePage pid t [], .call pid (.finish t t)]

end Connectors

end SecondBrain
