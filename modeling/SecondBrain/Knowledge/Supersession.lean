import SecondBrain.Knowledge.Promotions
import SecondBrain.Lib.Succession

/-!
# What supersedes what

A supersession holds its two memories while it reads who supersedes the older one and what
that one supersedes itself. As long as no creation names a memory that it supersedes, both
are at the end of what they are in: the replacement is active, so that nothing supersedes
it, and a memory that is superseded is never made active again. So the link that is
written makes one chain longer, whatever is read of the others meanwhile.
-/

namespace SecondBrain

open Lib

namespace Knowledge

variable {sha256 : Sha256} {s s' : Library} {l : LibraryLabel} {db db' : Store}
  {locks locks' : Locks Row} {i j : Nat} {d : Draw} {outcome : ProviderOutcome}
  {client : Client} {m : Moved} {pair : LockedPair} {memory old new : Memory} {x y k : Uuid}

/-! ## Links -/

/-- The one memory supersedes the other. -/
def Store.Follows (db : Store) (x y : Uuid) : Prop :=
  ∃ m ∈ db.memories, m.id = x ∧ m.supersedesId = some y

/-- What holds of the memories and of what they supersede. -/
structure Succession (db : Store) : Prop where
  ids : Keyed (·.id) db.memories
  chains : Chains db.Follows
  older : ∀ m ∈ db.memories, ∀ y, m.supersedesId = some y →
    ∃ o, db.memory? y = some o ∧ o.projectId = m.projectId ∧ o.status = .superseded

theorem Succession.followed (h : Succession db) (hfollows : db.Follows x y) :
    ∃ o, db.memory? y = some o ∧ o.status = .superseded := by
  obtain ⟨m, hm, -, hlink⟩ := hfollows
  obtain ⟨o, ho, -, hstatus⟩ := h.older m hm y hlink
  exact ⟨o, ho, hstatus⟩

/-- Nothing supersedes an active memory. -/
theorem Succession.free (h : Succession db) (hm : db.memory? y = some memory)
    (hactive : memory.status = .active) : ¬ db.Follows x y := by
  intro hfollows
  obtain ⟨o, ho, hstatus⟩ := h.followed hfollows
  obtain rfl := Option.some.inj (hm.symm.trans ho)
  rw [hactive] at hstatus
  cases hstatus

theorem Succession.of_eq (hmemories : db'.memories = db.memories) (h : Succession db) :
    Succession db' := by
  refine ⟨hmemories ▸ h.ids, h.chains.mono fun {x y} hfollows => ?_, fun m hm y hlink => ?_⟩
  · obtain ⟨m, hm, hlink⟩ := hfollows
    exact ⟨m, hmemories ▸ hm, hlink⟩
  · rw [Store.memory?, hmemories]
    exact h.older m (hmemories ▸ hm) y hlink

/-! ## Who holds which memories -/

/-- A request has locked two memories, and they are as it has read them. -/
structure PairHeld (db : Store) (locks : Locks Row) (i : Nat) (pair : LockedPair) : Prop where
  apart : pair.older.id ≠ pair.replacement.id
  older : db.memory? pair.older.id = some pair.older
  replacement : db.memory? pair.replacement.id = some pair.replacement
  olderHeld : locks (.memory pair.older.id) = some i
  replacementHeld : locks (.memory pair.replacement.id) = some i

/-- The memories that a supersession has locked. -/
def Client.pair? : Client → Option LockedPair
  | .supersession _ (.holding pair) | .supersession _ (.compared pair _)
  | .supersession _ (.traced pair _ _) => some pair
  | _ => none

/-- What a supersession has read of the successors of the older memory. -/
def Client.compared? : Client → Option (LockedPair × List Memory)
  | .supersession _ (.compared pair successors) | .supersession _ (.traced pair successors _) =>
      some (pair, successors)
  | _ => none

/-- A creation that names a memory it supersedes. -/
def MemoryRequest.names : MemoryRequest → Bool
  | .create q => q.supersedesId.isSome
  | .link _ | .expire _ | .refine _ _ _ => false

/-- What a request relies on while others move. -/
structure HoldsPair (db : Store) (locks : Locks Row) (i : Nat) (c : Client) : Prop where
  pair : ∀ pair, c.pair? = some pair → PairHeld db locks i pair
  compared : ∀ pair, c.compared? = some (pair, []) → ∀ x, ¬ db.Follows x pair.older.id
  plain : ∀ q, c = .memory q none → q.names = false

/-! ## What a move writes -/

/-- The memories after a move. -/
inductive MemoriesMove (db : Store) (locks : Locks Row) (i : Nat) (db' : Store) : Prop
  | kept : db'.memories = db.memories → MemoriesMove db locks i db'
  | added {m : Memory} :
      db.memory? m.id = none → m.supersedesId = none → db'.memories = db.memories ++ [m] →
      MemoriesMove db locks i db'
  | edited {old new : Memory} :
      db.memory? old.id = some old → old.Edited new →
      locks.grants i (.memory old.id) = true → db'.memories = replace (·.id) new db.memories →
      MemoriesMove db locks i db'
  | superseded {pair : LockedPair} :
      PairHeld db locks i pair → pair.older.projectId = pair.replacement.projectId →
      pair.older.status = .active → pair.replacement.status = .active →
      pair.replacement.supersedesId = none → (∀ x, ¬ db.Follows x pair.older.id) →
      db'.memories = replace (·.id) pair.applied.replacement
        (replace (·.id) pair.applied.older db.memories) →
      MemoriesMove db locks i db'

/-- The row of the request is the only one that is written. -/
theorem answerMemory_others {q : MemoryRequest} : Ensures (answerMemory db d q) fun x =>
    ∀ k m, k ∉ q.rows → db.memory? k = some m → x.2.memory? k = some m := by
  cases q with
  | create q =>
      refine createMemory_spec.bind fun x hx => Ensures.pure_iff.mpr fun k m _ hm => ?_
      rw [hx.2.2]
      exact lookup_append_of_some hm _
  | link q =>
      refine linkSource_spec.bind fun x hx => Ensures.pure_iff.mpr fun k m _ hm => ?_
      rw [hx]
      exact hm
  | expire id =>
      refine Ensures.bind (P := fun x => ∀ k m, k ≠ id → db.memory? k = some m →
        x.2.2.memory? k = some m) ?_ fun x hx => Ensures.pure_iff.mpr fun k m hk => hx k m (by
          simpa [MemoryRequest.rows] using hk)
      unfold expireMemory
      split
      · exact .error _
      next memory hfound =>
      split
      · exact .error _
      · exact Ensures.ok_iff.mpr fun _ _ _ hm => hm
      · refine Ensures.ok_iff.mpr fun k m hk hm => (lookup_replace_ne ?_).trans hm
        exact fun heq => hk (heq.trans (lookup_mem hfound).2)
  | refine id confidence importance =>
      refine Ensures.bind (P := fun x => ∀ k m, k ≠ id → db.memory? k = some m →
        x.2.2.memory? k = some m) ?_ fun x hx => Ensures.pure_iff.mpr fun k m hk => hx k m (by
          simpa [MemoryRequest.rows] using hk)
      unfold refineMemory
      split
      · exact .error _
      next memory hfound =>
      split
      · exact .error _
      · exact Ensures.ok_iff.mpr fun _ _ _ hm => hm
      · refine Ensures.ok_iff.mpr fun k m hk hm => (lookup_replace_ne ?_).trans hm
        exact fun heq => hk (heq.trans (lookup_mem hfound).2)

theorem acceptsMemory_free (h : db.acceptsMemory memory = true) : db.memory? memory.id = none := by
  unfold Store.acceptsMemory at h
  simp only [Bool.and_eq_true, Option.isNone_iff_eq_none] at h
  exact h.1.1.1.1.1

/-- A row that is edited is one that the request was granted. -/
theorem edited_move (hids : Keyed (·.id) db.memories) {q : MemoryRequest}
    (hgranted : ∀ id ∈ q.rows, locks.grants i (.memory id) = true) (hedits : Edits db db')
    (hothers : ∀ k m, k ∉ q.rows → db.memory? k = some m → db'.memory? k = some m) :
    MemoriesMove db locks i db' := by
  rcases hedits with rfl | ⟨old, new, hold, hedit, rfl⟩
  · exact .kept rfl
  by_cases hrow : old.id ∈ q.rows
  · exact .edited hold hedit (hgranted _ hrow) rfl
  -- Nothing but the row of the request is written, so the row is as it was.
  · have hsame := hothers _ _ hrow hold
    have hself : (db.putMemory new).memory? new.id = some new := by
      refine lookup_replace_self ?_
      rw [hedit.id]
      exact List.mem_map_of_mem (lookup_mem hold).1
    rw [hedit.id, hsame] at hself
    have hnew : new = old := (Option.some.inj hself).symm
    refine .kept ((List.map_congr_left fun r hr => ?_).trans (List.map_id _))
    rw [hnew]
    split
    · next hid => exact (hids.inj hr (lookup_mem hold).1 hid).symm
    · rfl

theorem classify_updated {successors : List Memory} {cycle : Bool}
    (h : classifySupersession pair successors cycle = .ok .updated) :
    pair.older.projectId = pair.replacement.projectId ∧ pair.older.status = .active ∧
      pair.replacement.status = .active ∧ pair.replacement.supersedesId = none ∧
      successors = [] := by
  unfold classifySupersession at h
  dsimp only at h
  split at h
  · split at h <;> cases h
  split at h
  · cases h
  split at h
  · split at h <;> cases h
  split at h
  · cases h
  next hproject =>
  split at h
  · cases h
  next hactive =>
  split at h
  · cases h
  next hlone =>
  split at h
  · cases h
  next hfree =>
  rw [not_not] at hproject hlone hfree
  rw [not_or, not_not, not_not] at hactive
  exact ⟨hproject, hactive.1, hactive.2, hlone, hfree⟩

theorem memory_move (hids : Keyed (·.id) db.memories) {q : MemoryRequest}
    (hplain : q.names = false) (h : advanceMemory db locks i d q none = some m) :
    MemoriesMove db locks i m.db := by
  unfold advanceMemory at h
  dsimp only at h
  split at h
  · next hgranted =>
      have hgranted := List.all_eq_true.mp hgranted
      split at h
      · obtain rfl := Option.some.inj h
        exact .kept rfl
      next answer db' hanswer =>
      obtain rfl := Option.some.inj h
      have hothers := answerMemory_others _ hanswer
      cases answerMemory_spec _ hanswer with
      | @created q memory hmemory haccepts =>
          have hnone : memory.supersedesId = none := by
            have hq : q.supersedesId.isSome = false := hplain
            rw [← hmemory] at hq
            exact Option.isNone_iff_eq_none.mp (Option.isSome_eq_false_iff.mp hq)
          exact .added (acceptsMemory_free haccepts) hnone rfl
      | linked => exact .kept rfl
      | expired hedits => exact edited_move hids hgranted hedits hothers
      | refined hedits => exact edited_move hids hgranted hedits hothers
  · cases h

theorem review_move {row : LockedProposal} {q : ReviewRequest} {answer : ReviewAnswer}
    (h : ReviewWrite db row q answer db') : MemoriesMove db locks i db' := by
  cases h with
  | decided => exact .kept rfl
  | stands => exact .kept rfl
  | found => exact .kept rfl
  | promoted _ _ haccepts hinserted _ =>
      subst hinserted
      exact .added (acceptsMemory_free haccepts) rfl rfl

theorem advance_memories (hids : Keyed (·.id) db.memories) (hfits : HoldsPair db locks i client)
    (h : advance sha256 db locks i d outcome client = some m) : MemoriesMove db locks i m.db := by
  have hmove := advance_move h
  cases hmove with
  | capture hstep _ =>
      obtain ⟨sources, captures, documents, chunks, rfl⟩ := hstep.frame
      exact .kept rfl
  | ingested _ hwrite =>
      obtain ⟨documents, chunks, gone, hframe⟩ := (writeDocument_spec hwrite).frame
      exact .kept (by rw [hframe])
  | extraction _ hstep =>
      obtain ⟨runs, proposals, rfl⟩ := hstep.frame
      exact .kept rfl
  | review hwrite => exact review_move hwrite
  | memory => exact memory_move hids (hfits.plain _ rfl) h
  | supersession hclass =>
      obtain ⟨hproject, holder, hreplacement, hlone, rfl⟩ := classify_updated hclass
      exact .superseded (hfits.pair _ rfl) hproject holder hreplacement hlone
        (hfits.compared _ rfl) rfl
  | _ => exact .kept rfl

/-! ## What others have read stays -/

/-- A row that somebody else has locked is as it was. -/
theorem MemoriesMove.locked (h : MemoriesMove db locks i db') (hj : j ≠ i)
    (hlock : locks (.memory k) = some j) (hm : db.memory? k = some memory) :
    db'.memory? k = some memory := by
  have hmine : ∀ {id}, locks.grants i (.memory id) = true → k ≠ id := by
    rintro id hgranted rfl
    exact hj (Locks.holder_of_grants hgranted hlock)
  have hheld : ∀ {id}, locks (.memory id) = some i → k ≠ id := by
    rintro id hid rfl
    exact hj (Option.some.inj (hlock.symm.trans hid))
  unfold Store.memory?
  cases h with
  | kept hmemories =>
      rw [hmemories]
      exact hm
  | added _ _ hmemories =>
      rw [hmemories]
      exact lookup_append_of_some hm _
  | edited _ hedit hgranted hmemories =>
      rw [hmemories, lookup_replace_ne fun heq => hmine hgranted (heq.trans hedit.id)]
      exact hm
  | @superseded pair hpair _ _ _ _ _ hmemories =>
      have hreplaced : k ≠ pair.applied.replacement.id := hheld hpair.replacementHeld
      have holder : k ≠ pair.applied.older.id := hheld hpair.olderHeld
      rw [hmemories, lookup_replace_ne hreplaced, lookup_replace_ne holder]
      exact hm

/-- A link is an old one, or that of the two memories that the request holds. -/
theorem MemoriesMove.follows (h : MemoriesMove db locks i db') (hfollows : db'.Follows x y) :
    db.Follows x y ∨ ∃ pair, PairHeld db locks i pair ∧ x = pair.replacement.id ∧
      y = pair.older.id := by
  obtain ⟨m, hm, hid, hlink⟩ := hfollows
  cases h with
  | kept hmemories => exact .inl ⟨m, hmemories ▸ hm, hid, hlink⟩
  | @added new _ hnone hmemories =>
      rw [hmemories] at hm
      rcases List.mem_append.mp hm with hm | hm
      · exact .inl ⟨m, hm, hid, hlink⟩
      · rw [List.mem_singleton.mp hm, hnone] at hlink
        cases hlink
  | edited hold hedit _ hmemories =>
      rw [hmemories] at hm
      rcases mem_replace.mp hm with ⟨rfl, -⟩ | ⟨hm, -⟩
      · exact .inl ⟨_, (lookup_mem hold).1, hedit.id.symm.trans hid,
          hedit.supersedesId.symm.trans hlink⟩
      · exact .inl ⟨m, hm, hid, hlink⟩
  | @superseded pair hpair _ _ _ _ _ hmemories =>
      rw [hmemories] at hm
      rcases mem_replace.mp hm with ⟨rfl, -⟩ | ⟨hm, -⟩
      · exact .inr ⟨pair, hpair, hid.symm, (Option.some.inj hlink).symm⟩
      rcases mem_replace.mp hm with ⟨rfl, -⟩ | ⟨hm, -⟩
      · exact .inl ⟨pair.older, (lookup_mem hpair.older).1, hid, hlink⟩
      · exact .inl ⟨m, hm, hid, hlink⟩

theorem compared_pair {successors : List Memory} (h : client.compared? = some (pair, successors)) :
    client.pair? = some pair := by
  unfold Client.compared? at h
  split at h
  · obtain ⟨rfl, -⟩ := Prod.mk.inj (Option.some.inj h)
    rfl
  · obtain ⟨rfl, -⟩ := Prod.mk.inj (Option.some.inj h)
    rfl
  · cases h

/-- What another request relies on. -/
theorem HoldsPair.later (h : HoldsPair db locks j client) (hmove : MemoriesMove db locks i db')
    (hj : j ≠ i) (hlocks : ∀ k, locks k = some j → locks' k = some j) :
    HoldsPair db' locks' j client := by
  refine ⟨fun pair hpair => ?_, fun pair hpair x hfollows => ?_, h.plain⟩
  · obtain ⟨hne, holder, hreplacement, holderHeld, hreplacementHeld⟩ := h.pair pair hpair
    exact ⟨hne, hmove.locked hj holderHeld holder, hmove.locked hj hreplacementHeld hreplacement,
      hlocks _ holderHeld, hlocks _ hreplacementHeld⟩
  · rcases hmove.follows hfollows with hold | ⟨mine, hmine, -, hsame⟩
    · exact h.compared pair hpair x hold
    · have hlock := (h.pair pair (compared_pair hpair)).olderHeld
      rw [hsame, hmine.olderHeld] at hlock
      exact hj (Option.some.inj hlock).symm

/-! ## One step -/

/-- A new memory supersedes nothing. -/
theorem Succession.added (h : Succession db) (hfresh : db.memory? new.id = none)
    (hnone : new.supersedesId = none) (hmemories : db'.memories = db.memories ++ [new]) :
    Succession db' := by
  have hrows : ∀ m ∈ db'.memories, ∀ y, m.supersedesId = some y → m ∈ db.memories := by
    intro m hm y hlink
    rw [hmemories] at hm
    rcases List.mem_append.mp hm with hm | hm
    · exact hm
    · rw [List.mem_singleton.mp hm, hnone] at hlink
      cases hlink
  refine ⟨?_, h.chains.mono fun {x y} hfollows => ?_, fun m hm y hlink => ?_⟩
  · rw [hmemories]
    exact h.ids.append (lookup_eq_none.mp hfresh)
  · obtain ⟨m, hm, hid, hlink⟩ := hfollows
    exact ⟨m, hrows m hm y hlink, hid, hlink⟩
  · obtain ⟨o, ho, hrest⟩ := h.older m (hrows m hm y hlink) y hlink
    refine ⟨o, ?_, hrest⟩
    rw [Store.memory?, hmemories]
    exact lookup_append_of_some ho _

/-- The row of an active memory is written anew, and it supersedes what it did. -/
theorem Succession.edited (h : Succession db) (hold : db.memory? old.id = some old)
    (hedit : old.Edited new) (hmemories : db'.memories = replace (·.id) new db.memories) :
    Succession db' := by
  have hrows : ∀ m ∈ db'.memories, ∃ m' ∈ db.memories, m'.id = m.id ∧
      m'.supersedesId = m.supersedesId ∧ m'.projectId = m.projectId := by
    intro m hm
    rw [hmemories] at hm
    rcases mem_replace.mp hm with ⟨rfl, -⟩ | ⟨hm, -⟩
    · exact ⟨old, (lookup_mem hold).1, hedit.id.symm, hedit.supersedesId.symm,
        hedit.projectId.symm⟩
    · exact ⟨m, hm, rfl, rfl, rfl⟩
  refine ⟨?_, h.chains.mono fun {x y} hfollows => ?_, fun m hm y hlink => ?_⟩
  · rw [hmemories]
    exact h.ids.replace
  · obtain ⟨m, hm, hid, hlink⟩ := hfollows
    obtain ⟨m', hm', hid', hlink', -⟩ := hrows m hm
    exact ⟨m', hm', hid'.trans hid, hlink'.trans hlink⟩
  · obtain ⟨m', hm', -, hlink', hproject⟩ := hrows m hm
    obtain ⟨o, ho, hsame, hstatus⟩ := h.older m' hm' y (hlink'.trans hlink)
    refine ⟨o, ?_, hsame.trans hproject, hstatus⟩
    have hne : y ≠ new.id := by
      rintro rfl
      rw [hedit.id, hold] at ho
      rw [← Option.some.inj ho, hedit.active.1] at hstatus
      cases hstatus
    rw [Store.memory?, hmemories, lookup_replace_ne hne]
    exact ho

/-- Nothing supersedes the replacement, which is active, and it is put at the end of the
chain of the older memory. -/
theorem Succession.superseded (h : Succession db) (hpair : PairHeld db locks i pair)
    (hproject : pair.older.projectId = pair.replacement.projectId)
    (hreplacement : pair.replacement.status = .active)
    (hlone : pair.replacement.supersedesId = none) (hend : ∀ x, ¬ db.Follows x pair.older.id)
    (hmemories : db'.memories = replace (·.id) pair.applied.replacement
      (replace (·.id) pair.applied.older db.memories)) : Succession db' := by
  have hrows : ∀ m ∈ db'.memories, m = pair.applied.replacement ∨
      ∃ m' ∈ db.memories, m'.id = m.id ∧ m'.supersedesId = m.supersedesId ∧
        m'.projectId = m.projectId := by
    intro m hm
    rw [hmemories] at hm
    rcases mem_replace.mp hm with ⟨rfl, -⟩ | ⟨hm, -⟩
    · exact .inl rfl
    rcases mem_replace.mp hm with ⟨rfl, -⟩ | ⟨hm, -⟩
    · exact .inr ⟨pair.older, (lookup_mem hpair.older).1, rfl, rfl, rfl⟩
    · exact .inr ⟨m, hm, rfl, rfl, rfl⟩
  have holder : db'.memory? pair.older.id = some pair.applied.older := by
    have hself : pair.applied.older.id ∈ db.memories.map (·.id) := by
      refine List.mem_map.mpr ⟨pair.older, (lookup_mem hpair.older).1, ?_⟩
      rfl
    have hne : pair.older.id ≠ pair.applied.replacement.id := hpair.apart
    rw [Store.memory?, hmemories, lookup_replace_ne hne]
    exact lookup_replace_self hself
  have hstart : ∀ x, ¬ db.Follows x pair.replacement.id := fun x =>
    h.free hpair.replacement hreplacement
  have hnone : ∀ y, ¬ db.Follows pair.replacement.id y := by
    rintro y ⟨m, hm, hid, hlink⟩
    rw [h.ids.inj hm (lookup_mem hpair.replacement).1 hid, hlone] at hlink
    cases hlink
  refine ⟨?_, ?_, fun m hm y hlink => ?_⟩
  · rw [hmemories]
    exact h.ids.replace.replace
  · refine (h.chains.link hpair.apart.symm hstart hnone hend).mono fun {x y} hfollows => ?_
    obtain ⟨m, hm, hid, hlink⟩ := hfollows
    rcases hrows m hm with rfl | ⟨m', hm', hid', hlink', -⟩
    · exact .inr ⟨hid.symm, (Option.some.inj hlink).symm⟩
    · exact .inl ⟨m', hm', hid'.trans hid, hlink'.trans hlink⟩
  · rcases hrows m hm with rfl | ⟨m', hm', -, hlink', hproject'⟩
    · obtain rfl := Option.some.inj hlink
      exact ⟨_, holder, hproject, rfl⟩
    · obtain ⟨o, ho, hsame, hstatus⟩ := h.older m' hm' y (hlink'.trans hlink)
      have hold : y ≠ pair.applied.replacement.id := by
        rintro rfl
        exact hstart m'.id ⟨m', hm', rfl, hlink'.trans hlink⟩
      have hnew : y ≠ pair.applied.older.id := by
        rintro rfl
        exact hend m'.id ⟨m', hm', rfl, hlink'.trans hlink⟩
      refine ⟨o, ?_, hsame.trans hproject', hstatus⟩
      rw [Store.memory?, hmemories, lookup_replace_ne hold, lookup_replace_ne hnew]
      exact ho

/-- The chains after what a request has written. -/
theorem Succession.moved (h : Succession db) (hmove : MemoriesMove db locks i db') :
    Succession db' := by
  cases hmove with
  | kept hmemories => exact h.of_eq hmemories
  | @added new hfresh hnone hmemories => exact h.added hfresh hnone hmemories
  | edited hold hedit _ hmemories => exact h.edited hold hedit hmemories
  | superseded hpair hproject _ hreplacement hlone hfree hmemories =>
      exact h.superseded hpair hproject hreplacement hlone hfree hmemories

/-- What the request relies on itself after its move. -/
theorem HoldsPair.advanced (h : HoldsPair db locks i client)
    (hmove : ClientMove sha256 db locks i client m) : HoldsPair m.db m.locks i m.client := by
  have hnone : ∀ {c : Client}, c.pair? = none → c.compared? = none →
      (∀ q, c ≠ .memory q none) → HoldsPair m.db m.locks i c := by
    intro c hpair hcompared hmemory
    refine ⟨fun pair hp => ?_, fun pair hp => ?_, fun q hq => absurd hq (hmemory q)⟩
    · rw [hpair] at hp
      cases hp
    · rw [hcompared] at hp
      cases hp
  cases hmove with
  | @supersessionHeld q pair held hne holder hreplacement hheld =>
      have hid : pair.older.id = q.memoryId := (lookup_mem holder).2
      have hid' : pair.replacement.id = q.replacementId := (lookup_mem hreplacement).2
      refine ⟨fun pair' hp => ?_, ?_, ?_⟩
      · obtain rfl := Option.some.inj hp
        refine ⟨by rw [hid, hid']; exact hne, by rw [hid]; exact holder,
          by rw [hid']; exact hreplacement, ?_, ?_⟩
        · rw [hid]
          exact Locks.acquire_holds hheld (List.mem_cons_self ..)
        · rw [hid']
          exact Locks.acquire_holds hheld (List.mem_cons_of_mem _ (List.mem_singleton_self _))
      · rintro pair' ⟨⟩
      · rintro q' ⟨⟩
  | @supersessionCompared q pair held hheld =>
      obtain ⟨hne, holder, hreplacement, holderHeld, hreplacementHeld⟩ := h.pair pair rfl
      refine ⟨fun pair' hp => ?_, fun pair' hp x hfollows => ?_, ?_⟩
      · obtain rfl := Option.some.inj hp
        exact ⟨hne, holder, hreplacement, Locks.acquire_keeps hheld holderHeld,
          Locks.acquire_keeps hheld hreplacementHeld⟩
      · obtain ⟨rfl, hnil⟩ := Prod.mk.inj (Option.some.inj hp)
        obtain ⟨m, hm, -, hlink⟩ := hfollows
        have hmem : m ∈ db.successors pair.older.id := by
          simpa [Store.successors] using ⟨hm, hlink⟩
        rw [hnil] at hmem
        cases hmem
      · rintro q' ⟨⟩
  | supersessionTraced =>
      refine ⟨fun pair hp => h.pair pair hp, fun pair hp => h.compared pair hp, ?_⟩
      rintro q' ⟨⟩
  | _ => exact hnone rfl rfl (by rintro q ⟨⟩)

/-- Links stay, and what is superseded stays so. -/
structure LinksKept (db db' : Store) : Prop where
  follows : ∀ x y, db.Follows x y → db'.Follows x y
  superseded : ∀ k m, db.memory? k = some m → m.status = .superseded →
    ∃ m', db'.memory? k = some m' ∧ m'.status = .superseded

theorem LinksKept.refl (db : Store) : LinksKept db db :=
  ⟨fun _ _ h => h, fun _ m hm hstatus => ⟨m, hm, hstatus⟩⟩

theorem LinksKept.trans {db'' : Store} (h : LinksKept db db') (h' : LinksKept db' db'') :
    LinksKept db db'' := by
  refine ⟨fun x y hfollows => h'.follows x y (h.follows x y hfollows), fun k m hm hstatus => ?_⟩
  obtain ⟨m', hm', hstatus'⟩ := h.superseded k m hm hstatus
  exact h'.superseded k m' hm' hstatus'

theorem LinksKept.of_eq (hmemories : db'.memories = db.memories) : LinksKept db db' := by
  refine ⟨fun x y hfollows => ?_, fun k m hm hstatus => ⟨m, ?_, hstatus⟩⟩
  · obtain ⟨m, hm, hid, hlink⟩ := hfollows
    exact ⟨m, hmemories ▸ hm, hid, hlink⟩
  · rw [Store.memory?, hmemories]
    exact hm

/-- A row that is written anew was active and keeps its link. -/
theorem LinksKept.replaced (hids : Keyed (·.id) db.memories)
    (hold : db.memory? new.id = some old) (hactive : old.status = .active)
    (hlink : ∀ y, old.supersedesId = some y → new.supersedesId = some y) :
    LinksKept db (db.putMemory new) := by
  have hmem : new.id ∈ db.memories.map (·.id) := by
    rw [← (lookup_mem hold).2]
    exact List.mem_map_of_mem (lookup_mem hold).1
  refine ⟨?_, fun k m hm hstatus => ⟨m, ?_, hstatus⟩⟩
  · rintro x y ⟨m, hm, hid, hy⟩
    by_cases hsame : m.id = new.id
    · obtain rfl := hids.inj hm (lookup_mem hold).1 (hsame.trans (lookup_mem hold).2.symm)
      exact ⟨new, mem_replace.mpr (.inl ⟨rfl, hmem⟩), hsame.symm.trans hid, hlink y hy⟩
    · exact ⟨m, mem_replace.mpr (.inr ⟨hm, hsame⟩), hid, hy⟩
  · refine (lookup_replace_ne ?_).trans hm
    rintro rfl
    rw [← Option.some.inj (hold.symm.trans hm), hactive] at hstatus
    cases hstatus

theorem MemoriesMove.links (hids : Keyed (·.id) db.memories) (h : MemoriesMove db locks i db') :
    LinksKept db db' := by
  cases h with
  | kept hmemories => exact .of_eq hmemories
  | @added new _ _ hmemories =>
      refine ⟨fun x y hfollows => ?_, fun k m hm hstatus => ⟨m, ?_, hstatus⟩⟩
      · obtain ⟨m, hm, hid, hlink⟩ := hfollows
        exact ⟨m, hmemories ▸ List.mem_append_left _ hm, hid, hlink⟩
      · rw [Store.memory?, hmemories]
        exact lookup_append_of_some hm _
  | @edited old new hold hedit _ hmemories =>
      have hnew : db.memory? new.id = some old := by
        rw [hedit.id]
        exact hold
      refine (LinksKept.replaced hids hnew hedit.active.1 fun y hy => ?_).trans (.of_eq hmemories)
      rw [hedit.supersedesId]
      exact hy
  | @superseded pair hpair _ holder hreplacement hlone _ hmemories =>
      have hfirst : LinksKept db (db.putMemory pair.applied.older) :=
        .replaced hids hpair.older holder fun _ hy => hy
      have hne : pair.replacement.id ≠ pair.applied.older.id := hpair.apart.symm
      have hfound : (db.putMemory pair.applied.older).memory? pair.applied.replacement.id =
          some pair.replacement := (lookup_replace_ne hne).trans hpair.replacement
      refine (hfirst.trans (.replaced hids.replace hfound hreplacement fun y hy => ?_)).trans
        (.of_eq hmemories)
      rw [hlone] at hy
      cases hy

/-! ## Every run -/

structure Library.LinksSound (s : Library) : Prop where
  rows : Succession s.db
  fits : ∀ i c, s.clients[i]? = some c → HoldsPair s.db s.locks i c

/-- The step is not a creation that names a memory it supersedes. -/
def Library.LinksByHand (_ : Library) : LibraryLabel → Bool
  | .arrive (.memory q) => !q.names
  | .project _ | .arrive _ | .step _ _ _ | .stop _ => true

theorem Library.LinksSound.moved (hs : s.LinksSound) (hmove : MemoriesMove s.db s.locks i m.db)
    (hlocks : ∀ j k, j ≠ i → s.locks k = some j → m.locks k = some j)
    (hown : HoldsPair m.db m.locks i m.client) :
    (s.place i m).LinksSound ∧ LinksKept s.db m.db := by
  refine ⟨⟨hs.rows.moved hmove, fun j c hc => ?_⟩, hmove.links hs.rows.ids⟩
  rcases clients_place hc with ⟨rfl, rfl⟩ | ⟨hne, hc⟩
  · exact hown
  · exact (hs.fits j c hc).later hmove hne fun k => hlocks j k hne

/-- Others keep what they have locked. -/
theorem clientMove_locks (h : ClientMove sha256 db locks i client m) {k : Row} (hj : j ≠ i)
    (hk : locks k = some j) : m.locks k = some j := by
  cases h with
  | reviewHeld _ hheld | supersessionHeld _ _ _ hheld | supersessionCompared hheld =>
      exact Locks.acquire_keeps hheld hk
  | reviewFailed | review | supersessionEnded | supersession => exact Locks.release_keeps hj hk
  | _ => exact hk

theorem stopped_holds {stopped : Client} (h : client.stopped = some stopped) :
    HoldsPair db locks i stopped := by
  have hidle : stopped.pair? = none ∧ stopped.compared? = none ∧
      ∀ q, stopped ≠ .memory q none := by
    unfold Client.stopped at h
    split at h <;> cases h
    all_goals
      refine ⟨rfl, rfl, ?_⟩
      rintro q ⟨⟩
  refine ⟨fun pair hp => ?_, fun pair hp => ?_, fun q hq => absurd hq (hidle.2.2 q)⟩
  · rw [hidle.1] at hp
    cases hp
  · rw [hidle.2.1] at hp
    cases hp

theorem arrived_holds {q : Request} (hq : s.LinksByHand (.arrive q) = true) :
    HoldsPair db locks i q.client := by
  cases q with
  | memory q =>
      refine ⟨?_, ?_, fun q' hq' => ?_⟩
      · rintro pair ⟨⟩
      · rintro pair ⟨⟩
      · obtain rfl := (Client.memory.inj hq').1
        have hplain : (!q.names) = true := hq
        simpa using hplain
  | _ =>
      refine ⟨?_, ?_, ?_⟩
      · rintro pair ⟨⟩
      · rintro pair ⟨⟩
      · rintro q' ⟨⟩

theorem linksSound_step (hs : s.LinksSound) (hok : s.LinksByHand l = true)
    (h : (library sha256).next s l = some s') : s'.LinksSound ∧ LinksKept s.db s'.db := by
  cases next_step h with
  | @project id =>
      have hmove : ∀ i, MemoriesMove s.db s.locks i
          { s.db with projects := s.db.projects ++ [id] } := fun _ => .kept rfl
      exact ⟨⟨hs.rows.moved (hmove 0), fun i c hc => (hs.fits i c hc).later (hmove (i + 1))
        (Nat.ne_of_lt (Nat.lt_succ_self i)) fun _ h => h⟩, (hmove 0).links hs.rows.ids⟩
  | @arrived q =>
      refine ⟨⟨hs.rows, fun i c hc => ?_⟩, .refl _⟩
      have hc : (s.clients ++ [q.client])[i]? = some c := hc
      rw [List.getElem?_append] at hc
      split at hc
      · exact hs.fits i c hc
      · rw [List.getElem?_singleton] at hc
        split at hc
        · obtain rfl := Option.some.inj hc
          exact arrived_holds hok
        · cases hc
  | @moved i d outcome client m hclient hadvance =>
      have hmove := advance_move hadvance
      have hfits := hs.fits i client hclient
      exact hs.moved (advance_memories hs.rows.ids hfits hadvance)
        (fun j k hne hk => clientMove_locks hmove hne hk) (hfits.advanced hmove)
  | @stopped i client stopped hclient hstopped =>
      exact hs.moved (m := ⟨stopped, s.db, s.locks.release i⟩) (.kept rfl)
        (fun j k hne hk => Locks.release_keeps hne hk) (stopped_holds hstopped)

theorem linksSound_reach
    (h : (library sha256).Reach (fun s l => s.LinksByHand l = true) s) : s.LinksSound := by
  refine h.invariant ?_ fun s l s' _ hok hs hstep => (linksSound_step hs hok hstep).1
  rintro s rfl
  refine ⟨⟨.nil, ⟨?_, ?_, fun x hx => ?_⟩, ?_⟩, ?_⟩
  · rintro a b b' ⟨m, ⟨⟩, -⟩
  · rintro a a' b ⟨m, ⟨⟩, -⟩
  · obtain ⟨y, -, m, ⟨⟩, -⟩ := Relation.TransGen.tail'_iff.mp hx
  · rintro m ⟨⟩
  · rintro i c ⟨⟩

theorem links_later (hs : s.LinksSound)
    (h : ((library sha256).startingAt s).Reach (fun s l => s.LinksByHand l = true) s') :
    LinksKept s.db s'.db := by
  refine (h.invariant (I := fun t => LinksKept s.db t.db ∧ t.LinksSound) ?_ ?_).1
  · rintro t rfl
    exact ⟨.refl _, hs⟩
  · intro t l t' _ hok ht hnext
    obtain ⟨hsound, hkept⟩ := linksSound_step ht.2 hok hnext
    exact ⟨ht.1.trans hkept, hsound⟩

/-- As long as no creation names a memory it supersedes: whatever supersessions, expirations,
refinements and promotions are at work, what supersedes what forms simple chains that never
meet. A link joins two memories of one project, of which the older one is superseded, and
both stay so. -/
theorem supersessions_chain
    (hs : (library sha256).Reach (fun s l => s.LinksByHand l = true) s) :
    Chains s.db.Follows ∧
    (∀ m ∈ s.db.memories, ∀ y, m.supersedesId = some y → ∃ o, s.db.memory? y = some o ∧
      o.projectId = m.projectId ∧ o.status = .superseded) ∧
    ∀ s', ((library sha256).startingAt s).Reach (fun s l => s.LinksByHand l = true) s' →
      LinksKept s.db s'.db := by
  have h := linksSound_reach hs
  exact ⟨h.rows.chains, h.rows.older, fun s' => links_later h⟩

def sampleMemory (content : String) : MemoryRequest :=
  .create ⟨none, content, none, none, none, .semantic, sampleScore, sampleScore, .active, none,
    none, none⟩

/-- Two supersessions each want the memory that the other one has, and the second waits. -/
def sampleSupersessions : List LibraryLabel :=
  [.arrive (.memory (sampleMemory "a")), .arrive (.memory (sampleMemory "b")),
    .arrive (.memory (sampleMemory "c")), sampleStep 0 1, sampleStep 1 2, sampleStep 2 3,
    .arrive (.supersession ⟨10, 20⟩), .arrive (.supersession ⟨20, 30⟩), sampleStep 3 4,
    sampleStep 3 5, sampleStep 3 6, sampleStep 3 7, sampleStep 4 8, sampleStep 4 9,
    sampleStep 4 10, sampleStep 4 11]

/-- A chain of three memories. -/
theorem supersessions_chain_three : ∃ s : Library, Chains s.db.Follows ∧
    s.db.Follows 20 10 ∧ s.db.Follows 30 20 ∧
    ∀ s', ((library id).startingAt s).Reach (fun s l => s.LinksByHand l = true) s' →
      s'.db.Follows 20 10 := by
  let linked (s : Library) (x y : Uuid) : Bool :=
    s.db.memories.any fun m => m.id == x && m.supersedesId == some y
  let p (s : Library) : Bool := linked s 20 10 && linked s 30 20
  obtain ⟨s, hs, hsample⟩ := Machine.exists_reach_of_execWith (library id) Library.LinksByHand
    sampleSupersessions p (s := {}) rfl (by decide +kernel)
  have hfollows : ∀ x y, linked s x y = true → s.db.Follows x y := by
    intro x y h
    obtain ⟨m, hm, h⟩ := List.any_eq_true.mp h
    simp only [Bool.and_eq_true, beq_iff_eq] at h
    exact ⟨m, hm, h⟩
  obtain ⟨hfirst, hsecond⟩ := (Bool.and_eq_true _ _).mp hsample
  obtain ⟨hchains, -, hkept⟩ := supersessions_chain hs
  exact ⟨s, hchains, hfollows 20 10 hfirst, hfollows 30 20 hsecond,
    fun s' hs' => (hkept s' hs').follows 20 10 (hfollows 20 10 hfirst)⟩

end Knowledge

end SecondBrain
