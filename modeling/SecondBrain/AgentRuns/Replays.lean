import SecondBrain.AgentRuns.EventHistory
import SecondBrain.AgentRuns.Proposals
import SecondBrain.AgentRuns.Admission

/-!
# What is read off the first thousand events

Two decisions are reconstructed from the log of a run: whether a request to
execute it is a replay of the one that was granted, and whether the result an
agent owes was stored. Both read the thousand events with the smallest numbers.
The numbers of a log are always contiguous, so these are its first thousand,
and the decision is right exactly when the event it is about is one of them.
Approvals append to the log of a run that is ready or running and have no bound
of their own, so a log can be longer.
-/

namespace SecondBrain

open Lib

/-! ## The numbers of a log -/

def Numbered (r : RunRecord) : Prop :=
  r.events.map (·.sequence) = List.range r.events.length

namespace Numbered

theorem elementary {r r' : RunRecord} (h : Elementary r r') (hr : Numbered r) :
    Numbered r' := by
  unfold Numbered
  cases h with
  | rows _ hevents =>
      rw [hevents]
      exact hr
  | noted e _ _ hevents | moved _ _ _ _ _ hevents =>
      rw [hevents]
      exact sequences_concat hr

/-- Numbers are given by the database, so they do not depend on what the
session sees. -/
theorem changed {c : Cache} {r r' : RunRecord} (h : Changed c r r') (hr : Numbered r) :
    Numbered r' := by
  obtain ⟨after, hevolves, rfl⟩ := h.evolution
  have hseen : Numbered (c.seen r) := hr
  have hafter : Numbered after := hevolves.keeps (fun _ _ => elementary) hseen
  exact hafter

/-- The events with the smallest numbers are the first of the log. -/
theorem listAgentEvents {r : RunRecord} (hr : Numbered r) (limit : Nat) :
    r.listAgentEvents limit = r.events.take limit := by
  have hsorted : r.events.Pairwise fun a b => a.sequence ≤ b.sequence := by
    have hrange : (r.events.map (·.sequence)).Pairwise (· ≤ ·) := by
      rw [hr]
      exact List.pairwise_le_range
    exact List.pairwise_map.mp hrange
  rw [RunRecord.listAgentEvents, hsorted.insertionSort_eq]

end Numbered

theorem find?_take {α : Type} (p : α → Bool) (l : List α) (n : Nat) :
    (l.take n).find? p = if l.findIdx p < n then l.find? p else none := by
  induction l generalizing n with
  | nil => rw [List.take_nil, List.find?_nil, ite_self]
  | cons a rest ih =>
      cases n with
      | zero => simp
      | succ n =>
          cases hp : p a with
          | true => simp [hp, List.findIdx_cons]
          | false => simp [hp, List.findIdx_cons, ih]

theorem any_take {α : Type} (p : α → Bool) (l : List α) (n : Nat) :
    (l.take n).any p = (decide (l.findIdx p < n) && l.any p) := by
  induction l generalizing n with
  | nil => simp
  | cons a rest ih =>
      cases n with
      | zero => simp
      | succ n =>
          cases hp : p a with
          | true => simp [hp, List.findIdx_cons]
          | false => simp [hp, List.findIdx_cons, ih]

/-! ## The request that started the execution -/

/-- The event of the move from ready to running. -/
def AgentEvent.startsExecution (e : AgentEvent) : Bool :=
  e.eventType == "agent_run.state_changed" &&
    (match e.metadata.field? "previous_state", e.metadata.field? "new_state" with
      | some (.str previous), some (.str new) =>
          previous == AgentRunState.ready.value && new == AgentRunState.running.value
      | _, _ => false)

/-- The run was first executed by a request that carried the revision `m`. -/
def RunRecord.startedWith (r : RunRecord) (m : Nat) : Prop :=
  ∃ e, r.events.find? (·.startsExecution) = some e ∧
    e.metadata.field? "resulting_revision" = some (.int (m + 1))

theorem originalClaimRevision_eq {r : RunRecord} {m : Nat} (hr : Numbered r)
    (hm : r.startedWith m) :
    originalClaimRevision r =
      if r.events.findIdx (·.startsExecution) < 1000 then some (m : Int) else none := by
  obtain ⟨e, he, hrevision⟩ := hm
  change ((r.listAgentEvents 1000).find? AgentEvent.startsExecution).bind _ = _
  rw [hr.listAgentEvents, find?_take]
  split
  · rw [he, Option.bind_some, hrevision]
    simp
  · rfl

/-- The log only grows, so what started the execution stays what it was. -/
theorem RunRecord.startedWith.append {r r' : RunRecord} {m : Nat} (hm : r.startedWith m)
    (hlog : r.events <+: r'.events) : r'.startedWith m := by
  obtain ⟨e, he, hrevision⟩ := hm
  obtain ⟨later, hlater⟩ := hlog
  refine ⟨e, ?_, hrevision⟩
  rw [← hlater, List.find?_append, he, Option.some_or]

/-- The first claim that is granted is by the request that starts the execution. -/
theorem claimExecution_starts {r r' : RunRecord} {m : Nat} {build : Build}
    {allowed : Option (List ToolIdentity)} {now : Instant} {claim : ExecutionClaim}
    (hnone : r.events.find? (·.startsExecution) = none)
    (h : claimExecution build r m allowed now = .ok (some claim, r')) :
    r'.startedWith m := by
  unfold claimExecution at h
  split at h
  · cases h
  split at h
  · split at h <;> cases h
  split at h
  · split at h <;> cases h
  split at h
  · cases h
  next hrevision =>
  split at h
  · cases h
  next hstate =>
  split at h
  · cases h
  split at h
  · cases h
  split at h
  · obtain ⟨r₁, -, h⟩ := bind_ok h
    cases h
  · simp only [] at h
    split at h
    · cases h
    · obtain ⟨r₁, hmove, h⟩ := bind_ok h
      cases h
      obtain ⟨hready, -, -, -, rfl⟩ := transitionRun_ok hmove
      rw [not_not] at hrevision
      refine ⟨{ stateChangedEvent r.run .running now with sequence := r.nextSequence }, ?_, ?_⟩
      · rw [List.find?_append, hnone, Option.none_or, List.find?_singleton, if_pos]
        simp [AgentEvent.startsExecution, stateChangedEvent, stateMetadata, Json.field?,
          hready, AgentRunState.value]
      · simp [stateChangedEvent, stateMetadata, Json.field?, hrevision]

/-- On a run that is over, the request is answered as a replay, and any other
as a conflict, exactly when the move is among the events that are read. -/
theorem claimExecution_replays {r : RunRecord} {m : Nat} {build : Build}
    {allowed : Option (List ToolIdentity)} {now : Instant} (hr : Numbered r)
    (hover : r.run.state.isTerminal = true) (hm : r.startedWith m)
    (hagent : ¬ (r.run.needsScheduler ∧ allowed = none)) :
    (∀ m', claimExecution build r m' allowed now =
        if m' = m then .ok (none, r) else .error .revisionConflict) ↔
      r.events.findIdx (·.startsExecution) < 1000 := by
  have hclaim : ∀ m', claimExecution build r m' allowed now =
      if originalClaimRevision r = some (m' : Int) then .ok (none, r)
      else .error .revisionConflict := by
    intro m'
    rw [claimExecution, if_neg hagent, if_pos hover]
  rw [originalClaimRevision_eq hr hm] at hclaim
  constructor
  · intro h
    by_contra hlong
    have hm' := h m
    rw [hclaim, if_neg hlong, if_pos rfl, if_neg (by simp)] at hm'
    cases hm'
  · intro hshort m'
    rw [hclaim, if_pos hshort]
    by_cases hsame : m' = m
    · rw [if_pos hsame, if_pos (by rw [hsame])]
    · rw [if_neg hsame, if_neg]
      rw [Option.some.injEq]
      omega

/-! ## The result that completes a run -/

/-- The two scheduled results are asked for where the run is of that agent. -/
def asksOwn (run : AgentRun) (brief watch : Bool) : Prop :=
  (brief = true → isDailyBrief run.agentKind run.agentVersion = true) ∧
    (watch = true → isProjectWatch run.agentKind run.agentVersion = true)

def RunRecord.stored (r : RunRecord) (duty : ResultDuty) : Prop :=
  ∃ e ∈ r.events, e.eventType = duty.eventType

/-- An agent owes one result. -/
theorem resultDuties_singleton {run : AgentRun} {brief watch : Bool} {duty : ResultDuty}
    (hasks : asksOwn run brief watch) (hduty : duty ∈ resultDuties run brief watch) :
    resultDuties run brief watch = [duty] := by
  obtain ⟨hbrief, hwatch⟩ := hasks
  unfold isDailyBrief at hbrief
  unfold isProjectWatch at hwatch
  unfold resultDuties isResearch isCurator at *
  by_cases hresearch : run.agentKind = "research"
  · cases brief <;> cases watch <;> simp_all
  · by_cases hcurator : run.agentKind = "memory_curator"
    · cases brief <;> cases watch <;> simp_all
    · cases brief <;> cases watch <;> simp_all

theorem fulfils_eq {r : RunRecord} {duty : ResultDuty} (hr : Numbered r)
    (hstored : r.stored duty) :
    r.fulfils duty = decide (r.events.findIdx (·.eventType == duty.eventType) < 1000) := by
  obtain ⟨e, he, htype⟩ := hstored
  have hany : r.events.any (·.eventType == duty.eventType) = true :=
    List.any_eq_true.mpr ⟨e, he, beq_iff_eq.mpr htype⟩
  rw [RunRecord.fulfils, hr.listAgentEvents, any_take, hany, Bool.and_true]

/-- A run whose steps have all succeeded and whose result was stored completes,
and is not failed for the lack of it, exactly when the event of the result is
among those that are read. -/
theorem completeRun_completes {r : RunRecord} {brief watch : Bool} {duty : ResultDuty}
    {now : Instant} (hr : Numbered r) (hrun : r.run.state = .running)
    (hrev : r.run.revision ≤ maxInteger) (hsteps : r.steps ≠ [])
    (hdone : ∀ s ∈ r.steps, s.status = .succeeded) (hasks : asksOwn r.run brief watch)
    (hduty : duty ∈ resultDuties r.run brief watch) (hstored : r.stored duty) :
    (∃ r', completeRun r brief watch now = .ok r' ∧ r'.run.state = .completed) ↔
      r.events.findIdx (·.eventType == duty.eventType) < 1000 := by
  have hopen : ¬ (r.steps.isEmpty ∨ r.steps.any (·.status ≠ .succeeded)) := by
    rw [not_or, List.isEmpty_iff]
    refine ⟨hsteps, fun hany => ?_⟩
    obtain ⟨s, hs, hstatus⟩ := List.any_eq_true.mp hany
    exact absurd (hdone s hs) (by simpa using hstatus)
  have hmove : ∀ (newState : AgentRunState) (code : Option String),
      newState ∈ legalTransitions .running → newState ≠ .expired →
      ∃ r', transitionRun r .running r.run.revision newState now code = .ok r' ∧
        r'.run.state = newState := by
    intro newState code hlegal hexpired
    have hok := transitionRun_eq_ok now code hrev (hrun ▸ hlegal) fun h => absurd h hexpired
    rw [hrun] at hok
    exact ⟨_, hok, rfl⟩
  rw [completeRun, if_neg (not_not.mpr hrun), if_neg hopen, resultDuties_singleton hasks hduty,
    List.find?_singleton, fulfils_eq hr hstored]
  by_cases hshort : r.events.findIdx (·.eventType == duty.eventType) < 1000
  · simp only [hshort, decide_true, Bool.not_true, Bool.false_eq_true, if_false, iff_true]
    exact hmove .completed none (by decide) nofun
  · simp only [hshort, decide_false, Bool.not_false, if_true, iff_false]
    rintro ⟨r', hr', hstate⟩
    obtain ⟨r'', hr'', hfailed⟩ := hmove .failed (some duty.missingCode) (by decide) nofun
    rw [hr'', Except.ok.injEq] at hr'
    rw [← hr', hfailed] at hstate
    cases hstate

namespace Runtime

variable {s s' : Runtime} {l : RuntimeStep}

theorem numbered_step (h : s.step l = some s') (hruns : ∀ r ∈ s.runs, Numbered r) :
    ∀ r ∈ s'.runs, Numbered r := by
  rcases step_effect h with hsame | ⟨_, _, _, _, _, _, _, _, _, hs'⟩ |
    ⟨id, r, r', hr, hchanged, -, hs'⟩
  · rw [hsame]
    exact hruns
  · intro x hx
    rw [hs', List.mem_append, List.mem_singleton] at hx
    rcases hx with hx | rfl
    · exact hruns x hx
    · exact rfl
  · intro x hx
    rw [hs'] at hx
    rcases Runs.mem_put hx with rfl | hx
    · exact (hruns r (Runs.mem_of_get hr)).changed hchanged
    · exact hruns x hx

/-- The numbers of every log are contiguous, through every run. -/
theorem numbered_of_reachable (h : machine.Reachable s) : ∀ r ∈ s.runs, Numbered r := by
  refine h.invariant (I := fun s => ∀ r ∈ s.runs, Numbered r) ?_ ?_
  · intro s hs
    rw [hs.1]
    exact fun _ hr => absurd hr List.not_mem_nil
  · exact fun s l s' _ _ ih hnext => numbered_step hnext ih

/-- What is read off the log is right exactly when the event it is about is one
of the first thousand: the start of the execution for a request that replays
it, the result for a completion. -/
theorem log_read_whole (h : machine.Reachable s) {r : RunRecord} (hr : r ∈ s.runs) :
    (∀ (m : Nat) (build : Build) (allowed : Option (List ToolIdentity)) (now : Instant),
        r.run.state.isTerminal = true → r.startedWith m →
        ¬ (r.run.needsScheduler ∧ allowed = none) →
        ((∀ m', claimExecution build r m' allowed now =
            if m' = m then .ok (none, r) else .error .revisionConflict) ↔
          r.events.findIdx (·.startsExecution) < 1000)) ∧
      ∀ (brief watch : Bool) (duty : ResultDuty) (now : Instant),
        r.run.state = .running → r.run.revision ≤ maxInteger → r.steps ≠ [] →
        (∀ s ∈ r.steps, s.status = .succeeded) → asksOwn r.run brief watch →
        duty ∈ resultDuties r.run brief watch → r.stored duty →
        ((∃ r', completeRun r brief watch now = .ok r' ∧ r'.run.state = .completed) ↔
          r.events.findIdx (·.eventType == duty.eventType) < 1000) := by
  have hnumbered := numbered_of_reachable h r hr
  refine ⟨fun m build allowed now hover hm hagent => ?_,
    fun brief watch duty now hrun hrev hsteps hdone hasks hduty hstored => ?_⟩
  · exact claimExecution_replays hnumbered hover hm hagent
  · exact completeRun_completes hnumbered hrun hrev hsteps hdone hasks hduty hstored

theorem log_read_whole_sample :
    ∃ s, machine.Reachable s ∧ ∃ r ∈ s.runs, r.run.state = .completed ∧
      claimExecution sampleBuild r 2 none 10 = .ok (none, r) := by
  obtain ⟨s, hs, hdone⟩ := Machine.exists_reachable_of_exec machine
    (sampleResearch ++ [.complete 0 9])
    (fun s => s.runs.any fun r => r.run.state = .completed &&
      (r.events.find? (·.startsExecution)).any (fun e =>
        e.metadata.field? "resulting_revision" == some (.int 3)) &&
      decide (r.events.findIdx (·.startsExecution) < 1000) && !r.run.needsScheduler)
    (s := {}) ⟨rfl, rfl⟩ (by decide +kernel)
  obtain ⟨r, hr, hdone⟩ := List.any_eq_true.mp hdone
  simp only [Bool.and_eq_true, decide_eq_true_eq, Bool.not_eq_true', Option.any_eq_true,
    beq_iff_eq] at hdone
  obtain ⟨⟨⟨hstate, e, he, hrevision⟩, hshort⟩, hpublic⟩ := hdone
  have hreplay := ((log_read_whole hs hr).1 2 sampleBuild none 10 (by rw [hstate]; rfl)
    ⟨e, he, hrevision⟩ fun h => by rw [hpublic] at h; cases h.1).mpr hshort
  exact ⟨s, hs, r, hr, hstate, (hreplay 2).trans (if_pos rfl)⟩

/-! ## A log of any length -/

section Crowd

open Json

/-- A content of any length. -/
def padded (n : Nat) : String := String.ofList (List.replicate n 'x')

def paddedUpdate (n : Nat) : MemoryUpdate := [(.content, .text (some (padded n)))]

def paddedHash (n : Nat) : String :=
  proposalHash deskBuild 9 (targetVersion deskBuild deskMemory) (dumpUpdate (paddedUpdate n))

def escapedLength (text : List Char) : Nat := (text.flatMap escAscii).length

theorem escapedLength_append (a b : List Char) :
    escapedLength (a ++ b) = escapedLength a + escapedLength b := by
  rw [escapedLength, List.flatMap_append, List.length_append]
  rfl

theorem escapedLength_cons (c : Char) (text : List Char) :
    escapedLength (c :: text) = (escAscii c).length + escapedLength text :=
  escapedLength_append [c] text ▸ by simp [escapedLength]

theorem flatMap_padding {esc : Char → List Char} (hesc : esc 'x' = ['x']) (n : Nat) :
    (List.replicate n 'x').flatMap esc = List.replicate n 'x' := by
  induction n with
  | zero => rfl
  | succ n ih =>
      rw [List.replicate_succ, List.flatMap_cons, ih, hesc]
      rfl

theorem escapedLength_padding (n : Nat) : escapedLength (List.replicate n 'x') = n := by
  rw [escapedLength, flatMap_padding rfl, List.length_replicate]

/-- The content shows in the text that is hashed. -/
theorem escapedLength_paddedHash (n : Nat) :
    escapedLength (paddedHash n).toList = escapedLength (paddedHash 0).toList + n := by
  have htext : ∀ k, (paddedHash k).toList = render compact
      (.obj [("action_type", .str actionTypeMemoryUpdate),
        ("normalized_input", .obj [("content", .str (padded k))]),
        ("target_id", .str (Uuid.text 9)), ("target_type", .str targetTypeMemory),
        ("target_version", .str (targetVersion deskBuild deskMemory))]) := by
    intro k
    have hsorted : sortKeys (proposalPayload 9 (targetVersion deskBuild deskMemory)
        (dumpUpdate (paddedUpdate k))) = .obj [("action_type", .str actionTypeMemoryUpdate),
          ("normalized_input", .obj [("content", .str (padded k))]),
          ("target_id", .str (Uuid.text 9)), ("target_type", .str targetTypeMemory),
          ("target_version", .str (targetVersion deskBuild deskMemory))] := by
      simp [proposalPayload, dumpUpdate, paddedUpdate, MemoryField.value, MemoryValue.dumpJson,
        MemoryValue.versionJson, sortKeys, sortFields, List.insertionSort, List.orderedInsert]
    rw [← hsorted]
    exact String.toList_ofList
  have hquote : ∀ k, quote compact (padded k) = '"' :: (List.replicate k 'x' ++ ['"']) := by
    intro k
    rw [quote, padded, String.toList_ofList]
    exact congrArg (fun l => '"' :: (l ++ ['"'])) (flatMap_padding rfl k)
  rw [htext, htext]
  simp only [render, renderFields, hquote, escapedLength_append, escapedLength_cons,
    escapedLength_padding]
  omega

theorem length_createdHash (proposal : String) :
    (createdHash deskBuild proposal).toList.length =
      (createdHash deskBuild "").toList.length + escapedLength proposal.toList := by
  have htext : ∀ p, (createdHash deskBuild p).toList =
      render compact (.obj [("event", .str "created"), ("proposal", .str p)]) := by
    intro p
    have hsorted : sortKeys (.obj [("event", .str "created"), ("proposal", .str p)]) =
        .obj [("event", .str "created"), ("proposal", .str p)] := by
      simp [sortKeys, sortFields, List.insertionSort]
    rw [← hsorted]
    exact String.toList_ofList
  have hquote : ∀ p : String, (quote compact p).length = escapedLength p.toList + 2 := by
    intro p
    rw [quote, List.length_cons, List.length_append]
    rfl
  rw [htext, htext]
  simp only [render, renderFields, List.length_cons, List.length_append, hquote]
  have hempty : escapedLength "".toList = 0 := rfl
  omega

theorem createdHash_padded_injective {m n : Nat}
    (h : createdHash deskBuild (paddedHash m) = createdHash deskBuild (paddedHash n)) :
    m = n := by
  have hm := length_createdHash (paddedHash m)
  have hn := length_createdHash (paddedHash n)
  rw [h, hn, escapedLength_paddedHash m, escapedLength_paddedHash n] at hm
  omega

/-- The run of the desk after its plan was frozen. -/
def deskReadyRun : AgentRun :=
  (((newRun deskBuild ⟨none, "manual", "1", "goal"⟩ "key" "print" 0 1 2).run.move
    .planning 1 none).move .ready 2 none)

def deskSteps : List AgentStep := [(deskStep 0).toRow 7, (deskStep 1).toRow 8]

/-- What the `n`-th proposal is stored as. -/
def paddedApproval (n : Nat) : ApprovalRequest :=
  newApproval 7 9 (targetVersion deskBuild deskMemory) (paddedHash n) (paddedUpdate n) [] 3
    (BitVec.ofNat 128 n) 21

/-- A ready run with `n` proposals, all different. -/
structure Crowded (n : Nat) (r : RunRecord) : Prop where
  run : r.run = deskReadyRun
  steps : r.steps = deskSteps
  invocations : r.invocations = []
  approvals : ∀ b ∈ r.approvals, ∃ k < n, b.proposalHash = paddedHash k ∧
    b.id = BitVec.ofNat 128 k
  hashes : ∀ e ∈ r.events, ∀ hash, e.eventIdempotencyHash = some hash →
    ∃ k < n, hash = createdHash deskBuild (paddedHash k)
  quiet : ∀ e ∈ r.events, e.startsExecution = false
  length : r.events.length = n + 3

theorem Crowded.fits {n : Nat} {r : RunRecord} (hr : Crowded n r) (hn : n ≤ 1000) :
    r.fits (paddedApproval n) = true := by
  have hinput : (paddedApproval n).normalizedInput = .obj [("content", .str (padded n))] := rfl
  have hclean : (padded n).toList.contains nul = false := by
    rw [padded, String.toList_ofList, ← Bool.not_eq_true, List.contains_iff_mem]
    exact fun h => absurd (List.eq_of_mem_replicate h) (by decide)
  have hquote : octets (quote stored (padded n)) = n + 2 := by
    have hsize : octets (List.replicate n 'x') = n := by
      rw [octets, List.map_replicate, List.sum_replicate]
      exact Nat.mul_one n
    rw [quote, padded, String.toList_ofList, flatMap_padding rfl, octets_cons, octets_append, hsize]
    have hmark : '"'.utf8Size = 1 := by decide
    rw [octets_cons, octets_nil, hmark]
    omega
  have hsmall : (paddedApproval n).normalizedInput.storedLen ≤ maxInputOctets := by
    have hkey : octets (quote stored "content") = 9 ∧ octets stored.colon = 2 ∧
        '{'.utf8Size = 1 ∧ '}'.utf8Size = 1 := by decide
    rw [hinput, storedLen]
    simp only [render, renderFields, octets_append, octets_cons, octets_nil, hquote, hkey]
    unfold maxInputOctets
    omega
  have hstorable : (paddedApproval n).normalizedInput.storable = true := by
    rw [hinput]
    simp only [storable, storableFields, hclean]
    decide
  have hrest : (Json.arr []).storable = true ∧
      (Json.arr []).storedLen ≤ maxEvidenceOctets ∧
      (previewOf (paddedUpdate n)).toList.contains nul = false :=
    ⟨rfl, by decide, by
      show (previewOf [(MemoryField.content, MemoryValue.text none)]).toList.contains nul = false
      decide +kernel⟩
  have hnew : r.approvals.all (·.id ≠ (paddedApproval n).id) = true := by
    rw [List.all_eq_true]
    intro b hb
    obtain ⟨k, hk, -, hid⟩ := hr.approvals b hb
    rw [decide_eq_true_eq, hid]
    intro hsame
    have hnat := congrArg BitVec.toNat hsame
    change (BitVec.ofNat 128 k).toNat = (BitVec.ofNat 128 n).toNat at hnat
    rw [BitVec.toNat_ofNat, BitVec.toNat_ofNat] at hnat
    omega
  unfold RunRecord.fits
  simp only [Bool.and_eq_true, decide_eq_true_eq, Bool.not_eq_true']
  exact ⟨⟨⟨⟨⟨hstorable, hrest.1⟩, hrest.2.2⟩, hsmall⟩, hrest.2.1⟩, hnew⟩

variable {n : Nat} {r : RunRecord} {s : Runtime}

theorem Crowded.draft (hr : Crowded n r) (k : Nat) :
    draftProposal deskBuild deskWorld.parse deskWorld.memories r (deskProposal 0 (padded k)) 3
      (BitVec.ofNat 128 k) 21 = .ok (paddedApproval k) := by
  have hstep : r.steps.find? (·.ordinal == 0) = some ((deskStep 0).toRow 7) := by
    rw [hr.steps]
    rfl
  have hevidence : r.stepEvidence 7 = [] := by
    rw [RunRecord.stepEvidence, hr.invocations]
    rfl
  have hchange : normalizeMemoryUpdate deskWorld.parse (.str (padded k)) deskMemory =
      .ok (paddedUpdate k) := by
    simp [normalizeMemoryUpdate, deskWorld, deskMemory, paddedUpdate]
  have htarget : deskWorld.memories (deskProposal 0 (padded k)).targetId = some deskMemory := rfl
  rw [draftProposal_eq rfl (by rw [hr.run]; rfl) (by rw [hr.run]; rfl) hstep htarget
    (by rw [hr.run]; rfl) rfl hchange]
  show Except.ok (newApproval 7 9 _ (paddedHash k) (paddedUpdate k)
    (safeEvidence (r.stepEvidence 7)) 3 (BitVec.ofNat 128 k) 21) = _
  rw [hevidence]
  rfl

/-- One more proposal goes in. -/
theorem Crowded.propose (hr : Crowded n r) (hn : n ≤ 1000) (hget : s.runs.get 1 = some r) :
    ∃ s', machine.next s (.propose deskBuild deskWorld 1 (deskProposal 0 (padded n)) 3
        (BitVec.ofNat 128 n) 21) = some s' ∧
      ∃ r', s'.runs.get 1 = some r' ∧ Crowded (n + 1) r' := by
  have hhash : r.hasEventHash (createdHash deskBuild (paddedHash n)) = false := by
    rw [RunRecord.hasEventHash, List.any_eq_false]
    intro e he hsame
    obtain ⟨k, hk, heq⟩ := hr.hashes e he _ (by simpa using hsame)
    exact absurd (createdHash_padded_injective heq) (by omega)
  have hnone : r.approvals.any (paddedApproval n).sameProposal = false := by
    rw [List.any_eq_false]
    intro b hb hsame
    obtain ⟨k, hk, heq, -⟩ := hr.approvals b hb
    have hproposal : paddedHash n = b.proposalHash := by
      simp only [ApprovalRequest.sameProposal, Bool.and_eq_true, beq_iff_eq] at hsame
      exact hsame.2
    exact absurd (createdHash_padded_injective (congrArg _ (hproposal.trans heq))) (by omega)
  have hfin : r.run.finishedIffTerminal = true := by
    rw [hr.run]
    rfl
  refine ⟨_, step_propose hget (hr.draft n) (hr.fits hn) hnone hhash hfin,
    r.withProposal deskBuild (paddedApproval n), ?_, ?_⟩
  · have hid : r.run.id = 1 := Runs.get_id hget
    have hput : (r.withProposal deskBuild (paddedApproval n)).run.id = 1 := hid
    exact (Runs.get_put hget hput 1).trans (if_pos rfl)
  · refine ⟨hr.run, hr.steps, hr.invocations, ?_, ?_, ?_, ?_⟩
    · intro b hb
      rcases List.mem_append.mp hb with hb | hb
      · obtain ⟨k, hk, heq⟩ := hr.approvals b hb
        exact ⟨k, by omega, heq⟩
      · rw [List.mem_singleton.mp hb]
        exact ⟨n, by omega, rfl, rfl⟩
    · intro e he hash hsome
      rcases List.mem_append.mp he with he | he
      · obtain ⟨k, hk, heq⟩ := hr.hashes e he hash hsome
        exact ⟨k, by omega, heq⟩
      · rw [List.mem_singleton.mp he] at hsome
        exact ⟨n, by omega, (Option.some.inj hsome).symm⟩
    · intro e he
      rcases List.mem_append.mp he with he | he
      · exact hr.quiet e he
      · rw [List.mem_singleton.mp he]
        rfl
    · rw [RunRecord.withProposal, List.length_append, hr.length, List.length_singleton]

def deskFrozen (r : RunRecord) : Bool :=
  decide (r.run = deskReadyRun) && decide (r.steps = deskSteps) &&
    decide (r.invocations = []) && r.approvals.isEmpty &&
    r.events.all (fun e => e.eventIdempotencyHash.isNone && !e.startsExecution) &&
    r.events.length == 3

theorem crowded_reachable (n : Nat) (hn : n ≤ 1000) :
    ∃ s, machine.Reachable s ∧ ∃ r, s.runs.get 1 = some r ∧ Crowded n r := by
  induction n with
  | zero =>
      obtain ⟨s, hs, hready⟩ := Machine.exists_reachable_of_exec machine deskRun
        (fun s => (s.runs.get 1).any deskFrozen) (s := {}) ⟨rfl, rfl⟩ (by decide +kernel)
      rw [Option.any_eq_true] at hready
      obtain ⟨r, hr, hready⟩ := hready
      simp only [deskFrozen, Bool.and_eq_true, decide_eq_true_eq, List.isEmpty_iff,
        List.all_eq_true, beq_iff_eq, Option.isNone_iff_eq_none, Bool.not_eq_true'] at hready
      obtain ⟨⟨⟨⟨⟨hrun, hsteps⟩, hinvocations⟩, happrovals⟩, hevents⟩, hlength⟩ := hready
      refine ⟨s, hs, r, hr, hrun, hsteps, hinvocations, ?_, ?_, ?_, hlength⟩
      · rw [happrovals]
        exact fun b hb => absurd hb List.not_mem_nil
      · intro e he hash hsome
        rw [(hevents e he).1] at hsome
        cases hsome
      · exact fun e he => (hevents e he).2
  | succ n ih =>
      obtain ⟨s, hs, r, hr, hcrowded⟩ := ih (by omega)
      obtain ⟨s', hnext, r', hr', hcrowded'⟩ := hcrowded.propose (by omega) hr
      exact ⟨s', .step hs trivial hnext, r', hr', hcrowded'⟩

/-- A ready run whose execution starts. -/
def executed (r : RunRecord) : RunRecord :=
  { r with
    run := r.run.move .running 5 none
    events := r.events ++
      [{ stateChangedEvent r.run .running 5 with sequence := r.nextSequence }] }

theorem Crowded.execute (hr : Crowded n r) (hget : s.runs.get 1 = some r) :
    ∃ s', machine.next s (.execute deskBuild 1 2 5) = some s' ∧
      s'.runs.get 1 = some (executed r) := by
  have hstate : r.run.state = .ready := by
    rw [hr.run]
    rfl
  have hrevision : r.run.revision = 2 := by
    rw [hr.run]
    rfl
  have hlist : r.listAgentSteps = deskSteps := by
    rw [RunRecord.listAgentSteps, hr.steps]
    decide +kernel
  have hplan : ¬ (deskSteps.isEmpty ∨ deskReadyRun.stepBudget < deskSteps.length ∨
      deskSteps.map (·.ordinal) ≠ List.range deskSteps.length ∨
      deskSteps.any (·.status ≠ .pending) ∨
      deskSteps.any fun s => !hasValidTool deskBuild deskReadyRun none s) := by
    decide +kernel
  have hmove : transitionRun r .ready r.run.revision .running 5 = .ok (executed r) := by
    rw [← hstate]
    exact transitionRun_eq_ok 5 none (by rw [hrevision]; decide) (by rw [hstate]; decide)
      fun h => by cases h
  have hclaim : claimExecution deskBuild r 2 none 5 =
      .ok (some (executionClaimOf r.run), executed r) := by
    unfold claimExecution
    rw [if_neg (by rw [hr.run]; decide), hstate, if_neg (by decide), if_neg (by decide),
      if_neg (not_not.mpr hrevision), if_neg (not_not.mpr rfl),
      if_neg (by rw [hr.run]; decide +kernel), if_neg (by rw [hr.run]; decide),
      if_neg (by rw [hr.run]; decide), hlist]
    simp only []
    rw [if_neg (by rw [hr.run]; exact hplan), hmove]
    rfl
  have hcommit : transact .empty (fun r => claimExecution deskBuild r 2 none 5) r =
      .ok (some (executionClaimOf r.run), executed r) :=
    transact_empty hclaim rfl (by rw [executed, hr.run]; rfl)
  refine ⟨s.spawn .request deskBuild (some (executionClaimOf r.run), executed r), ?_, ?_⟩
  · show (s.onRun 1 _).map _ = _
    rw [onRun, hget, Option.bind_some, hcommit]
    rfl
  · have hid : r.run.id = 1 := Runs.get_id hget
    have hput : (executed r).run.id = 1 := hid
    exact (Runs.get_put hget hput 1).trans (if_pos rfl)

theorem Crowded.cancel (hr : Crowded n r) (hget : s.runs.get 1 = some (executed r)) :
    ∃ s', machine.next s (.cancel 1 3 6) = some s' ∧
      ∃ r', s'.runs.get 1 = some r' ∧ r'.run.state = .cancelled ∧
        r'.run.needsScheduler = false ∧ (executed r).events <+: r'.events := by
  have hrun : (executed r).run = deskReadyRun.move .running 5 none := by
    rw [executed, hr.run]
  have hlive : (executed r).listStepInvocations = [] := by
    show List.insertionSort _ (r.invocations.filter _) = []
    rw [hr.invocations]
    rfl
  let r' : RunRecord :=
    { executed r with
      run := (executed r).run.move .cancelled 6 none
      steps := (executed r).steps.map (·.cancelOpen 6)
      events := (executed r).events ++ [{ stateChangedEvent (executed r).run .cancelled 6 with
        sequence := (executed r).nextSequence }] }
  have hmove : cancelRun (executed r) 3 6 = .ok r' := by
    unfold cancelRun
    rw [if_neg (by rw [hrun]; decide), if_neg (by rw [hrun]; decide),
      if_neg (by rw [hrun]; decide), hlive, List.foldlM_nil]
    have hrevision : (executed r).run.revision = 3 := by
      rw [hrun]
      rfl
    have hlegal : AgentRunState.cancelled ∈ legalTransitions (executed r).run.state := by
      rw [hrun]
      decide
    have hok := transitionRun_eq_ok
      (r := { executed r with steps := (executed r).steps.map (·.cancelOpen 6) }) 6 none
      (by rw [hrevision]; decide) hlegal fun h => by cases h
    rw [hrevision] at hok
    exact hok
  have hfin : r'.run.finishedIffTerminal = true := by
    show ((executed r).run.move .cancelled 6 none).finishedIffTerminal = true
    rw [hrun]
    rfl
  have hcommit : transact .empty (alone (cancelRun · 3 6)) (executed r) = .ok ((), r') :=
    transact_empty (by rw [alone, hmove]; rfl) rfl hfin
  refine ⟨s.commit r', ?_, r', ?_, rfl, ?_, List.prefix_append _ _⟩
  · show s.request 1 _ = _
    rw [request, onRun, hget, Option.bind_some, hcommit]
    rfl
  · have hid : (executed r).run.id = 1 := Runs.get_id hget
    have hput : r'.run.id = 1 := hid
    exact (Runs.get_put hget hput 1).trans (if_pos rfl)
  · show ((executed r).run.move .cancelled 6 none).needsScheduler = false
    rw [hrun]
    decide

/-- A run with a thousand proposals is executed and cancelled, and then the
request that executed it is taken for another. -/
theorem crowded_replay_refused :
    ∃ s, machine.Reachable s ∧ ∃ r ∈ s.runs, r.run.state = .cancelled ∧ r.startedWith 2 ∧
      claimExecution deskBuild r 2 none 7 = .error .revisionConflict := by
  obtain ⟨s, hs, r, hr, hcrowded⟩ := crowded_reachable 1000 le_rfl
  obtain ⟨s₁, hnext₁, hr₁⟩ := hcrowded.execute hr
  obtain ⟨s₂, hnext₂, r₂, hr₂, hstate, hpublic, hlog⟩ := hcrowded.cancel hr₁
  have hs₂ : machine.Reachable s₂ := .step (.step hs trivial hnext₁) trivial hnext₂
  have hmem : r₂ ∈ s₂.runs := Runs.mem_of_get hr₂
  have hnone : r.events.find? (·.startsExecution) = none := by
    rw [List.find?_eq_none]
    exact fun e he => by rw [hcrowded.quiet e he]; nofun
  have hstarted : (executed r).startedWith 2 := by
    refine ⟨{ stateChangedEvent r.run .running 5 with sequence := r.nextSequence }, ?_, ?_⟩
    · rw [executed, List.find?_append, hnone, Option.none_or, List.find?_singleton,
        hcrowded.run]
      rfl
    · show Json.field? (stateChangedEvent r.run .running 5).metadata _ = _
      rw [hcrowded.run]
      rfl
  have hlate : ¬ r₂.events.findIdx (·.startsExecution) < 1000 := by
    intro hshort
    obtain ⟨e, he, -⟩ := hstarted.append hlog
    have hfind := find?_take (·.startsExecution) r₂.events 1000
    rw [if_pos hshort, he] at hfind
    have hfirst : r₂.events.take 1000 = r.events.take 1000 := by
      obtain ⟨later, hlater⟩ := hlog
      rw [← hlater, executed, List.append_assoc]
      exact List.take_append_of_le_length (by rw [hcrowded.length]; omega)
    rw [hfirst] at hfind
    have hquiet := hcrowded.quiet e (List.mem_of_mem_take (List.mem_of_find?_eq_some hfind))
    rw [List.find?_some hfind] at hquiet
    cases hquiet
  refine ⟨s₂, hs₂, r₂, hmem, hstate, hstarted.append hlog, ?_⟩
  rw [claimExecution, if_neg (by rw [hpublic]; nofun), if_pos (by rw [hstate]; rfl), if_neg]
  rw [originalClaimRevision_eq (numbered_of_reachable hs₂ r₂ hmem) (hstarted.append hlog),
    if_neg hlate]
  nofun

end Crowd

end Runtime

end SecondBrain
