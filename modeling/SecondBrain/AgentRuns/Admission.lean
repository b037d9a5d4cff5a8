import SecondBrain.AgentRuns.Service

/-!
# Events the constraints always admit

An event that names rows of its run and carries no hash is refused for its
metadata only, and the metadata of a move is three short fields. So a legal move of a
run whose revision fits its column never fails on the event it appends.
-/

namespace SecondBrain

open Lib Lib.Json

/-- An `Integer` column. -/
def maxInteger : Nat := 2147483647

theorem octets_revision_le {n : Nat} (hn : n ≤ maxInteger + 1) :
    octets (toString (n : Int)).toList ≤ 40 := by
  have hlen : n.repr.length ≤ 10 := by
    rw [Nat.length_repr_le_iff (by decide)]
    exact Nat.lt_of_le_of_lt hn (by decide)
  have htext : (toString (n : Int)).toList.length = n.repr.length := rfl
  have := octets_le (toString (n : Int)).toList
  omega

theorem octets_value_le (s : AgentRunState) : octets (quote stored s.value) ≤ 19 := by
  cases s <;> decide

theorem storedLen_stateMetadata_le (previous : Option AgentRunState) (new : AgentRunState)
    {n : Nat} (hn : n ≤ maxInteger + 1) :
    (stateMetadata previous new n).storedLen ≤ maxEventMetadata := by
  have hnew := octets_value_le new
  have hrevision := octets_revision_le hn
  have hkeys : octets (quote stored "previous_state") = 16 ∧
      octets (quote stored "new_state") = 11 ∧
      octets (quote stored "resulting_revision") = 20 := by decide
  have hends : octets stored.comma = 2 ∧ octets stored.colon = 2 ∧
      '{'.utf8Size = 1 ∧ '}'.utf8Size = 1 ∧ octets (render stored .null) = 4 := by decide
  unfold maxEventMetadata
  cases previous with
  | none =>
      simp only [storedLen, stateMetadata, render, renderFields, octets_append, octets_cons,
        octets_nil] at *
      omega
  | some s =>
      have hprevious := octets_value_le s
      simp only [storedLen, stateMetadata, render, renderFields, octets_append, octets_cons,
        octets_nil] at *
      omega

theorem storable_stateMetadata (previous : Option AgentRunState) (new : AgentRunState)
    (n : Nat) : (stateMetadata previous new n).storable = true := by
  have hvalue : ∀ s : AgentRunState, s.value.toList.contains nul = false := by
    intro s
    cases s <;> decide
  have hkeys : "previous_state".toList.contains nul = false ∧
      "new_state".toList.contains nul = false ∧
      "resulting_revision".toList.contains nul = false := by decide
  cases previous with
  | none => simp only [stateMetadata, storable, storableFields, hvalue, hkeys, Bool.not_false,
      Bool.and_self]
  | some s => simp only [stateMetadata, storable, storableFields, hvalue, hkeys,
      Bool.not_false, Bool.and_self]

/-- An event without a hash is admitted where its metadata is small and its rows exist. -/
theorem admitsEvent_ok {r : RunRecord} {e : AgentEvent} (hdata : e.metadata.storable = true)
    (hcode : e.safeCode.length ≤ 100) (hsize : e.metadata.storedLen ≤ maxEventMetadata)
    (hstep : ∀ id, e.stepId = some id → ∃ s ∈ r.steps, s.id = id)
    (hinvocation : ∀ id, e.invocationId = some id → ∃ i ∈ r.invocations, i.id = id)
    (happroval : e.approvalId = none) (hhash : e.eventIdempotencyHash = none) :
    r.admitsEvent e = .ok () := by
  rw [RunRecord.admitsEvent, if_neg, if_neg, if_neg, if_neg]
  · rw [hhash]
    nofun
  · rintro (hmissing | hmissing | hmissing)
    · obtain ⟨id, hid, hall⟩ := (Option.any_eq_true _ _).mp hmissing
      obtain ⟨s, hs, hsame⟩ := hstep id hid
      simpa [hsame] using List.all_eq_true.mp hall s hs
    · obtain ⟨id, hid, hall⟩ := (Option.any_eq_true _ _).mp hmissing
      obtain ⟨i, hi, hsame⟩ := hinvocation id hid
      simpa [hsame] using List.all_eq_true.mp hall i hi
    · rw [happroval] at hmissing
      cases hmissing
  · exact Nat.not_lt.mpr hsize
  · rw [hdata, not_or, Nat.not_lt]
    exact ⟨nofun, hcode⟩

theorem admitsEvent_stateChanged (r : RunRecord) {run : AgentRun}
    (newState : AgentRunState) (now : Instant) (hrev : run.revision ≤ maxInteger) :
    r.admitsEvent (stateChangedEvent run newState now) = .ok () := by
  have hsize := storedLen_stateMetadata_le (some run.state) newState
    (Nat.succ_le_succ hrev)
  have hstorable := storable_stateMetadata (some run.state) newState (run.revision + 1)
  unfold RunRecord.admitsEvent
  rw [if_neg, if_neg, if_neg, if_neg]
  · simp [stateChangedEvent]
  · simp [stateChangedEvent]
  · exact not_lt.mpr hsize
  · have hcode : ¬ 100 < "agent_run_state_changed".length := by decide
    rw [not_or]
    exact ⟨by rw [stateChangedEvent, hstorable]; nofun, hcode⟩

/-- A legal move of a run whose revision fits its column is made. -/
theorem transitionRun_eq_ok {r : RunRecord} {newState : AgentRunState} (now : Instant)
    (code : Option String) (hrev : r.run.revision ≤ maxInteger)
    (hlegal : newState ∈ legalTransitions r.run.state)
    (hdeadline : newState = .expired → r.run.expiryDeadline ≤ now) :
    transitionRun r r.run.state r.run.revision newState now code = .ok { r with
      run := r.run.move newState now code
      events := r.events ++
        [{ stateChangedEvent r.run newState now with sequence := r.nextSequence }] } := by
  have hadmitted : ({ r with run := r.run.move newState now code } : RunRecord).admitsEvent
      (stateChangedEvent r.run newState now) = .ok () := admitsEvent_stateChanged _ _ _ hrev
  unfold transitionRun
  rw [if_neg, if_neg, if_neg, appendAgentEvent, hadmitted]
  · rfl
  · rintro ⟨hexpired, hlt⟩
    exact absurd (hdeadline hexpired) (not_le.mpr hlt)
  · exact not_not.mpr rfl
  · rw [not_or, not_not, not_not]
    exact ⟨rfl, hlegal⟩

end SecondBrain
