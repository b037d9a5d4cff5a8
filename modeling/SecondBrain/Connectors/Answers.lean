import SecondBrain.Lib.Outcome
import SecondBrain.Connectors.Snapshots

/-!
# What reading an answer ends in

However an answer of the provider looks, reading it ends in snapshots within the
limits or in a fault that the handlers of a refresh know, under a code that a run
can be closed with.
-/

namespace SecondBrain

open Lib

namespace Connectors

variable {p : Platform}

/-- Whether a run can be closed with the fault. -/
def Fault.known : Fault → Bool
  | .transport code | .credential code => safeCode code
  | .database _ | .other => false

def Snapshot.Valid (repoId : Nat) (snapshot : Snapshot) : Prop :=
  validateItemValues (resourceId repoId) snapshot.itemId snapshot.version snapshot.title
    snapshot.body = .ok ()

/-! ## The codes -/

theorem known_invalidResponse : invalidResponse.known = true := by decide +kernel

theorem known_identityMismatch : identityMismatch.known = true := by decide +kernel

theorem known_oversized : Fault.known (.transport "github_item_oversized") = true := by
  decide +kernel

/-! ## Fields -/

abbrev Known {α : Type} (x : Except Fault α) : Prop := FailsWith x fun e => e.known = true

theorem requiredDict_known {value : Json} : Known (requiredDict value) := by
  cases value with
  | obj fields => exact .ok _
  | null | bool | int | real | str | arr =>
      exact FailsWith.error_iff.mpr known_invalidResponse

theorem integer_known {value : Option Json} : Known (integer value) := by
  unfold integer
  split
  · exact .ite (fun _ => .ok _) fun _ => FailsWith.error_iff.mpr known_invalidResponse
  · exact FailsWith.error_iff.mpr known_invalidResponse

theorem string_known {value : Option Json} : Known (string value) := by
  unfold string
  split
  · exact .ok _
  · exact FailsWith.error_iff.mpr known_invalidResponse

theorem optionalString_known {value : Option Json} : Known (optionalString value) := by
  unfold optionalString
  split
  · exact .ok _
  · exact .ok _
  · exact string_known

theorem githubTimestamp_known {value : Option Json} : Known (githubTimestamp value) := by
  unfold githubTimestamp
  refine string_known.bind fun timestamp _ => ?_
  split
  · exact .pure _
  · exact FailsWith.error_iff.mpr known_invalidResponse

/-! ## Snapshots -/

theorem validatedSnapshot_known {repoId : Nat} {snapshot : Snapshot} :
    Known (validatedSnapshot repoId snapshot) := by
  unfold validatedSnapshot
  split
  · exact .ok _
  · exact FailsWith.error_iff.mpr known_oversized
  · exact FailsWith.error_iff.mpr known_invalidResponse

theorem validatedSnapshot_valid {repoId : Nat} {snapshot : Snapshot} :
    Ensures (validatedSnapshot repoId snapshot) (·.Valid repoId) := by
  unfold validatedSnapshot
  split
  · next h => exact Ensures.ok_iff.mpr h
  · exact .error _
  · exact .error _

theorem checkFullName_known {fullName expected : String} :
    Known (checkFullName p fullName expected) :=
  .ite (fun _ => .ok _) fun _ => FailsWith.error_iff.mpr known_identityMismatch

theorem repositoryBody_known {value : Json} : Known (repositoryBody value) := by
  unfold repositoryBody
  split
  · exact .ok _
  · exact .ok _
  · exact FailsWith.error_iff.mpr known_invalidResponse

theorem repositorySnapshot_known {data : Json} {expected : String} :
    Known (repositorySnapshot p data expected) := by
  unfold repositorySnapshot
  refine requiredDict_known.bind fun value _ => integer_known.bind fun repoId _ => ?_
  refine string_known.bind fun fullName _ => checkFullName_known.bind fun _ _ => ?_
  refine githubTimestamp_known.bind fun updatedAt _ => repositoryBody_known.bind fun body _ => ?_
  exact validatedSnapshot_known.bind fun snapshot _ => .pure _

theorem repositorySnapshot_valid {data : Json} {expected : String} :
    Ensures (repositorySnapshot p data expected) fun x => x.2.Valid x.1 := by
  unfold repositorySnapshot
  refine .bind_any fun _ _ => .bind_any fun repoId _ => .bind_any fun _ _ => ?_
  refine .bind_any fun _ _ => .bind_any fun _ _ => .bind_any fun _ _ => ?_
  exact validatedSnapshot_valid.bind fun snapshot h => Ensures.pure_iff.mpr h

theorem listSnapshot_known {value : Json} {resourceType : ResourceType} {repoId : Nat}
    {seen : List Nat} : Known (listSnapshot value resourceType repoId seen) := by
  unfold listSnapshot checkUnseen checkOpen
  refine integer_known.bind fun id _ => FailsWith.bind (.ite (fun _ => ?_) fun _ => .ok _) fun _ _ => ?_
  · exact FailsWith.error_iff.mpr known_invalidResponse
  refine string_known.bind fun title _ => optionalString_known.bind fun body _ => ?_
  refine string_known.bind fun state _ => FailsWith.bind (.ite (fun _ => .ok _) fun _ => ?_) fun _ _ => ?_
  · exact FailsWith.error_iff.mpr known_invalidResponse
  refine githubTimestamp_known.bind fun updatedAt _ => integer_known.bind fun number _ => ?_
  exact validatedSnapshot_known.bind fun snapshot _ => .pure _

theorem listSnapshot_valid {value : Json} {resourceType : ResourceType} {repoId : Nat}
    {seen : List Nat} :
    Ensures (listSnapshot value resourceType repoId seen) fun x => x.2.Valid repoId := by
  unfold listSnapshot
  refine .bind_any fun _ _ => .bind_any fun _ _ => .bind_any fun _ _ => .bind_any fun _ _ => ?_
  refine .bind_any fun _ _ => .bind_any fun _ _ => .bind_any fun _ _ => .bind_any fun _ _ => ?_
  exact validatedSnapshot_valid.bind fun snapshot h => Ensures.pure_iff.mpr h

/-! ## Lists -/

theorem snapshotsFrom_known {resourceType : ResourceType} {repoId : Nat} {seen : List Nat}
    {items : List Json} : Known (snapshotsFrom resourceType repoId seen items) := by
  induction items generalizing seen with
  | nil => exact .ok _
  | cons raw rest ih =>
      rw [snapshotsFrom]
      refine requiredDict_known.bind fun value _ => .ite (fun _ => ?_) fun _ => ih
      exact listSnapshot_known.bind fun x _ => FailsWith.bind ih fun _ _ => .pure _

theorem snapshotsFrom_valid {resourceType : ResourceType} {repoId : Nat} {seen : List Nat}
    {items : List Json} :
    Ensures (snapshotsFrom resourceType repoId seen items) fun snapshots =>
      ∀ snapshot ∈ snapshots, snapshot.Valid repoId := by
  induction items generalizing seen with
  | nil => exact Ensures.ok_iff.mpr fun _ h => absurd h List.not_mem_nil
  | cons raw rest ih =>
      rw [snapshotsFrom]
      refine .bind_any fun value _ => .ite (fun _ => ?_) fun _ => ih
      refine listSnapshot_valid.bind fun x hx => Ensures.bind ih fun snapshots hrest => ?_
      exact Ensures.pure_iff.mpr (List.forall_mem_cons.mpr ⟨hx, hrest⟩)

theorem listSnapshots_known {data : Json} {resourceType : ResourceType} {repoId : Nat} :
    Known (listSnapshots data resourceType repoId) := by
  cases data with
  | arr items => exact snapshotsFrom_known
  | null | bool | int | real | str | obj =>
      exact FailsWith.error_iff.mpr known_invalidResponse

theorem listSnapshots_valid {data : Json} {resourceType : ResourceType} {repoId : Nat} :
    Ensures (listSnapshots data resourceType repoId) fun snapshots =>
      ∀ snapshot ∈ snapshots, snapshot.Valid repoId := by
  cases data with
  | arr items => exact snapshotsFrom_valid
  | null | bool | int | real | str | obj => exact .error _

end Connectors

end SecondBrain
