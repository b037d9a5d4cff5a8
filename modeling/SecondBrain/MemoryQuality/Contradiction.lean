import Mathlib.Tactic.Common
import SecondBrain.MemoryQuality.Normalization

/-!
# Opposing states

Two texts are split into words, and a supported pair of markers is looked for that stand at
one position of each, with the same words around them. The pairs are tried in the order they
are listed in, and each of them in both directions. Two directions of one pair never agree
(`opposed_once`), so that the texts can be swapped.
-/

namespace SecondBrain.MemoryQuality

open Lib

inductive EvidenceType where
  | explicitNegation
  | opposingBooleanState
deriving DecidableEq, Repr

abbrev Marker := List String

/-- Two markers that oppose each other, and what they are evidence of. -/
structure MarkerPair where
  evidenceType : EvidenceType
  left : Marker
  right : Marker
deriving DecidableEq

/-- `_NEGATION_PAIRS` -/
def negationPairs : List MarkerPair :=
  [⟨.explicitNegation, ["is"], ["is", "not"]⟩,
    ⟨.explicitNegation, ["are"], ["are", "not"]⟩,
    ⟨.explicitNegation, ["was"], ["was", "not"]⟩,
    ⟨.explicitNegation, ["were"], ["were", "not"]⟩,
    ⟨.explicitNegation, ["can"], ["cannot"]⟩,
    ⟨.explicitNegation, ["can"], ["can", "not"]⟩]

/-- `_BOOLEAN_PAIRS` -/
def booleanPairs : List MarkerPair :=
  [⟨.opposingBooleanState, ["enabled"], ["disabled"]⟩,
    ⟨.opposingBooleanState, ["active"], ["inactive"]⟩,
    ⟨.opposingBooleanState, ["true"], ["false"]⟩,
    ⟨.opposingBooleanState, ["on"], ["off"]⟩,
    ⟨.opposingBooleanState, ["available"], ["unavailable"]⟩]

/-- The pairs in the order they are tried in. -/
def supportedPairs : List MarkerPair := negationPairs ++ booleanPairs

structure OpposingStates where
  evidenceType : EvidenceType
  targetState : String
  candidateState : String
deriving DecidableEq, Repr

/-! ## Words -/

/-- `_SURROUNDING_PUNCTUATION` -/
def surroundingPunctuation : List Char := ".,;:!?()[]\x7b\x7d\"'".toList

/-- `token.strip(_SURROUNDING_PUNCTUATION)` -/
def stripPunctuation (token : List Char) : List Char :=
  Blanks.trim (fun c => decide (c ∈ surroundingPunctuation)) token

variable (casefold : String → String)

/-- `_normalized_tokens` -/
def normalizedTokens (content : String) : List String :=
  ((Blanks.pieces isAsciiWhitespace content.toList).map stripPunctuation).filterMap fun token =>
    if token = [] then none else some (casefold (String.ofList token))

/-! ## The search -/

/-- `_anchor_without` -/
def anchorWithout (tokens : List String) (position : Nat) (marker : Marker) :
    Option (List String) :=
  if (tokens.drop position).take marker.length ≠ marker then none
  else some (tokens.take position ++ tokens.drop (position + marker.length))

/-- The anchors are there, and are the same. -/
def sameAnchor (target candidate : List String) (position : Nat)
    (targetMarker candidateMarker : Marker) : Bool :=
  match anchorWithout target position targetMarker,
      anchorWithout candidate position candidateMarker with
  | some targetAnchor, some candidateAnchor => targetAnchor == candidateAnchor
  | _, _ => false

/-- The positions of the target, for one direction of a pair. -/
def directionStates (target candidate : List String) (evidenceType : EvidenceType)
    (targetMarker candidateMarker : Marker) : Option OpposingStates :=
  if (List.range target.length).any fun position =>
      sameAnchor target candidate position targetMarker candidateMarker then
    some {
      evidenceType := evidenceType
      targetState := " ".intercalate targetMarker
      candidateState := " ".intercalate candidateMarker }
  else none

/-- Both directions of a pair. -/
def pairStates (target candidate : List String) (pair : MarkerPair) : Option OpposingStates :=
  (directionStates target candidate pair.evidenceType pair.left pair.right).or
    (directionStates target candidate pair.evidenceType pair.right pair.left)

/-- `detect_opposing_states` -/
def detectOpposingStates (targetContent candidateContent : String) : Option OpposingStates :=
  let target := normalizedTokens casefold targetContent
  let candidate := normalizedTokens casefold candidateContent
  supportedPairs.findSome? (pairStates target candidate)

/-! ## One position -/

/-- One marker stands in the target and the other in the candidate at this position, and
without them the same words are left. -/
def OpposedAt (target candidate : List String) (position : Nat)
    (targetMarker candidateMarker : Marker) : Prop :=
  ∃ before after, before.length = position ∧ target = before ++ targetMarker ++ after ∧
    candidate = before ++ candidateMarker ++ after

def Opposed (target candidate : List String) (targetMarker candidateMarker : Marker) : Prop :=
  ∃ position, OpposedAt target candidate position targetMarker candidateMarker

variable {casefold} {target candidate : List String} {position : Nat}
  {targetMarker candidateMarker left right : Marker}

theorem OpposedAt.swap (h : OpposedAt target candidate position left right) :
    OpposedAt candidate target position right left := by
  obtain ⟨before, after, hlength, htarget, hcandidate⟩ := h
  exact ⟨before, after, hlength, hcandidate, htarget⟩

theorem Opposed.swap (h : Opposed target candidate left right) :
    Opposed candidate target right left := by
  obtain ⟨position, h⟩ := h
  exact ⟨position, h.swap⟩

theorem opposed_comm : Opposed target candidate left right ↔ Opposed candidate target right left :=
  ⟨Opposed.swap, Opposed.swap⟩

theorem anchorWithout_some {tokens anchor : List String} {marker : Marker}
    (h : anchorWithout tokens position marker = some anchor) (hne : marker ≠ []) :
    ∃ before after, before.length = position ∧ tokens = before ++ marker ++ after ∧
      anchor = before ++ after := by
  rw [anchorWithout] at h
  split at h
  · cases h
  next hmarker =>
  have hmarker : (tokens.drop position).take marker.length = marker := not_not.mp hmarker
  refine ⟨tokens.take position, tokens.drop (position + marker.length), ?_, ?_,
    (Option.some.inj h).symm⟩
  · have hlength := congrArg List.length hmarker
    rw [List.length_take, List.length_drop] at hlength
    have hpos := List.length_pos_iff.mpr hne
    rw [List.length_take]
    omega
  · have hrest := (List.take_append_drop marker.length (tokens.drop position)).symm
    rw [hmarker, List.drop_drop] at hrest
    rw [List.append_assoc, ← hrest, List.take_append_drop]

theorem anchorWithout_append {before after : List String} {marker : Marker} :
    anchorWithout (before ++ marker ++ after) before.length marker = some (before ++ after) := by
  have hrest : (before ++ marker ++ after).drop before.length = marker ++ after := by
    rw [List.append_assoc, List.drop_left]
  rw [anchorWithout, hrest, List.take_left, if_neg (not_not.mpr rfl), ← List.drop_drop, hrest,
    List.drop_left, List.append_assoc, List.take_left]

theorem sameAnchor_iff (htarget : targetMarker ≠ []) (hcandidate : candidateMarker ≠ []) :
    sameAnchor target candidate position targetMarker candidateMarker = true ↔
      OpposedAt target candidate position targetMarker candidateMarker := by
  rw [sameAnchor]
  constructor
  · intro h
    split at h
    · next anchor anchor' hanchor hanchor' =>
        obtain ⟨before, after, hlength, htokens, rfl⟩ := anchorWithout_some hanchor htarget
        obtain ⟨before', after', hlength', htokens', hsame⟩ := anchorWithout_some hanchor' hcandidate
        rw [hsame, beq_iff_eq] at h
        obtain ⟨rfl, rfl⟩ := List.append_inj h (hlength.trans hlength'.symm)
        exact ⟨before, after, hlength, htokens, htokens'⟩
    · cases h
  · rintro ⟨before, after, rfl, rfl, rfl⟩
    rw [anchorWithout_append, anchorWithout_append]
    exact beq_self_eq_true _

theorem anyPosition_iff (htarget : targetMarker ≠ []) (hcandidate : candidateMarker ≠ []) :
    ((List.range target.length).any fun position =>
      sameAnchor target candidate position targetMarker candidateMarker) = true ↔
        Opposed target candidate targetMarker candidateMarker := by
  rw [List.any_eq_true]
  constructor
  · rintro ⟨position, -, h⟩
    exact ⟨position, (sameAnchor_iff htarget hcandidate).mp h⟩
  · rintro ⟨position, h⟩
    refine ⟨position, List.mem_range.mpr ?_, (sameAnchor_iff htarget hcandidate).mpr h⟩
    obtain ⟨before, after, rfl, rfl, -⟩ := h
    have hpos := List.length_pos_iff.mpr htarget
    rw [List.length_append, List.length_append]
    omega

/-! ## One pair -/

/-- The states of one direction of a pair. -/
def statesOf (evidenceType : EvidenceType) (targetMarker candidateMarker : Marker) :
    OpposingStates where
  evidenceType := evidenceType
  targetState := " ".intercalate targetMarker
  candidateState := " ".intercalate candidateMarker

def OpposingStates.swap (states : OpposingStates) : OpposingStates where
  evidenceType := states.evidenceType
  targetState := states.candidateState
  candidateState := states.targetState

/-- One marker of the pair is in the target and the other in the candidate. -/
def MarkerPair.Opposes (pair : MarkerPair) (target candidate : List String) : Prop :=
  Opposed target candidate pair.left pair.right ∨ Opposed target candidate pair.right pair.left

/-- The states that the pair shows in the direction in which it opposes. -/
def MarkerPair.Shows (pair : MarkerPair) (target candidate : List String)
    (states : OpposingStates) : Prop :=
  Opposed target candidate pair.left pair.right ∧
      states = statesOf pair.evidenceType pair.left pair.right ∨
    Opposed target candidate pair.right pair.left ∧
      states = statesOf pair.evidenceType pair.right pair.left

/-- What keeps the two directions of a pair apart: the markers take different numbers of
words, or they are two words. -/
structure MarkerPair.Proper (pair : MarkerPair) : Prop where
  left : pair.left ≠ []
  right : pair.right ≠ []
  apart : pair.left.length ≠ pair.right.length ∨
    pair.left.length = 1 ∧ pair.right.length = 1 ∧ pair.left ≠ pair.right

theorem supportedPairs_proper {pair : MarkerPair} (h : pair ∈ supportedPairs) : pair.Proper := by
  have hleft : ∀ pair ∈ supportedPairs, pair.left ≠ [] := by decide
  have hright : ∀ pair ∈ supportedPairs, pair.right ≠ [] := by decide
  have hapart : ∀ pair ∈ supportedPairs, pair.left.length ≠ pair.right.length ∨
      pair.left.length = 1 ∧ pair.right.length = 1 ∧ pair.left ≠ pair.right := by decide
  exact ⟨hleft pair h, hright pair h, hapart pair h⟩

theorem OpposedAt.length_eq (h : OpposedAt target candidate position left right) :
    target.length + right.length = candidate.length + left.length := by
  obtain ⟨before, after, -, rfl, rfl⟩ := h
  simp only [List.length_append]
  omega

/-- Two words at one position are all that the sequences differ in. -/
theorem OpposedAt.elsewhere {l r : String} (h : OpposedAt target candidate position [l] [r])
    {i : Nat} (hi : i ≠ position) : target[i]? = candidate[i]? := by
  obtain ⟨before, after, rfl, rfl, rfl⟩ := h
  simp only [List.append_assoc, List.getElem?_append]
  by_cases hbefore : i < before.length
  · rw [if_pos hbefore, if_pos hbefore]
  · have hone : ¬ i - before.length < 1 := by omega
    rw [if_neg hbefore, if_neg hbefore]
    simp only [List.length_singleton, if_neg hone]

theorem OpposedAt.here {l r : String} (h : OpposedAt target candidate position [l] [r]) :
    target[position]? = some l := by
  obtain ⟨before, after, rfl, rfl, -⟩ := h
  rw [List.append_assoc, List.getElem?_append_right (Nat.le_refl _), Nat.sub_self]
  rfl

/-- A pair does not oppose two sequences in both directions. -/
theorem opposed_once {pair : MarkerPair} (hproper : pair.Proper)
    (h : Opposed target candidate pair.left pair.right) :
    ¬ Opposed target candidate pair.right pair.left := by
  obtain ⟨p, h⟩ := h
  rintro ⟨q, h'⟩
  have hlength := h.length_eq
  have hlength' := h'.length_eq
  rcases hproper.apart with hne | ⟨hleft, hright, hne⟩
  · omega
  · obtain ⟨l, hl⟩ := List.length_eq_one_iff.mp hleft
    obtain ⟨r, hr⟩ := List.length_eq_one_iff.mp hright
    rw [hl, hr] at h h' hne
    have hq := h'.here
    by_cases hsame : q = p
    · rw [hsame, h.here] at hq
      exact hne (by rw [Option.some.inj hq])
    · rw [h.elsewhere hsame, h'.swap.here] at hq
      exact hne (by rw [Option.some.inj hq])

theorem directionStates_some {evidenceType : EvidenceType} {states : OpposingStates}
    (htarget : targetMarker ≠ []) (hcandidate : candidateMarker ≠ []) :
    directionStates target candidate evidenceType targetMarker candidateMarker = some states ↔
      Opposed target candidate targetMarker candidateMarker ∧
        states = statesOf evidenceType targetMarker candidateMarker := by
  rw [← anyPosition_iff htarget hcandidate, directionStates]
  split
  · next h =>
      rw [Option.some.injEq]
      exact ⟨fun hstates => ⟨h, hstates.symm⟩, fun hstates => hstates.2.symm⟩
  · next h => exact iff_of_false nofun fun hstates => h hstates.1

theorem pairStates_some {pair : MarkerPair} (hproper : pair.Proper) {states : OpposingStates} :
    pairStates target candidate pair = some states ↔ pair.Shows target candidate states := by
  rw [pairStates, Option.or_eq_some_iff, MarkerPair.Shows,
    directionStates_some hproper.left hproper.right]
  constructor
  · rintro (h | ⟨-, h⟩)
    · exact .inl h
    · exact .inr ((directionStates_some hproper.right hproper.left).mp h)
  · rintro (h | h)
    · exact .inl h
    · refine .inr ⟨?_, (directionStates_some hproper.right hproper.left).mpr h⟩
      rw [Option.eq_none_iff_forall_ne_some]
      intro other hother
      exact opposed_once hproper ((directionStates_some hproper.left hproper.right).mp hother).1 h.1

theorem pairStates_none {pair : MarkerPair} (hproper : pair.Proper) :
    pairStates target candidate pair = none ↔ ¬ pair.Opposes target candidate := by
  rw [Option.eq_none_iff_forall_ne_some]
  constructor
  · rintro h (hopposed | hopposed)
    · exact h _ ((pairStates_some hproper).mpr (.inl ⟨hopposed, rfl⟩))
    · exact h _ ((pairStates_some hproper).mpr (.inr ⟨hopposed, rfl⟩))
  · intro h states hstates
    rcases (pairStates_some hproper).mp hstates with hshown | hshown
    · exact h (.inl hshown.1)
    · exact h (.inr hshown.1)

theorem shows_swap {pair : MarkerPair} {states : OpposingStates}
    (h : pair.Shows target candidate states) : pair.Shows candidate target states.swap := by
  rcases h with ⟨hopposed, rfl⟩ | ⟨hopposed, rfl⟩
  · exact .inr ⟨hopposed.swap, rfl⟩
  · exact .inl ⟨hopposed.swap, rfl⟩

theorem pairStates_swap {pair : MarkerPair} (hproper : pair.Proper) :
    pairStates candidate target pair = (pairStates target candidate pair).map (·.swap) := by
  cases h : pairStates target candidate pair with
  | none =>
      rw [pairStates_none hproper] at h
      rw [Option.map_none, pairStates_none hproper, MarkerPair.Opposes, opposed_comm, or_comm,
        opposed_comm]
      exact h
  | some states =>
      rw [pairStates_some hproper] at h
      exact (pairStates_some hproper).mpr (shows_swap h)

/-! ## All pairs -/

/-- The first of the pairs that opposes, with the states it shows. -/
def FirstShown (target candidate : List String) (states : OpposingStates) : Prop :=
  ∃ earlier pair later, supportedPairs = earlier ++ pair :: later ∧
    (∀ other ∈ earlier, ¬ other.Opposes target candidate) ∧ pair.Shows target candidate states

theorem findStates_swap (pairs : List MarkerPair) (hproper : ∀ pair ∈ pairs, pair.Proper) :
    pairs.findSome? (pairStates candidate target) =
      (pairs.findSome? (pairStates target candidate)).map (·.swap) := by
  induction pairs with
  | nil => rfl
  | cons pair rest ih =>
      rw [List.findSome?_cons, List.findSome?_cons,
        pairStates_swap (hproper pair List.mem_cons_self)]
      cases pairStates target candidate pair with
      | none => exact ih fun other hother => hproper other (List.mem_cons_of_mem _ hother)
      | some states => rfl

/-- Two texts have opposing states exactly where a supported pair opposes their words. The
states are those of the first such pair, and trade places with the texts. -/
theorem opposing_states_exact (casefold : String → String)
    (targetContent candidateContent : String) :
    ((detectOpposingStates casefold targetContent candidateContent).isSome = true ↔
        ∃ pair ∈ supportedPairs, pair.Opposes (normalizedTokens casefold targetContent)
          (normalizedTokens casefold candidateContent)) ∧
      (∀ states, detectOpposingStates casefold targetContent candidateContent = some states ↔
        FirstShown (normalizedTokens casefold targetContent)
          (normalizedTokens casefold candidateContent) states) ∧
      detectOpposingStates casefold candidateContent targetContent =
        (detectOpposingStates casefold targetContent candidateContent).map (·.swap) := by
  refine ⟨?_, fun states => ?_, findStates_swap _ fun pair => supportedPairs_proper⟩
  · show (supportedPairs.findSome? (pairStates _ _)).isSome = true ↔ _
    rw [List.findSome?_isSome_iff]
    refine exists_congr fun pair => and_congr_right fun hpair => ?_
    rw [Option.isSome_iff_ne_none, Ne, pairStates_none (supportedPairs_proper hpair), not_not]
  · show supportedPairs.findSome? (pairStates _ _) = some states ↔ _
    rw [List.findSome?_eq_some_iff]
    constructor
    · rintro ⟨earlier, pair, later, hpairs, hstates, hnone⟩
      have hproper : ∀ other ∈ earlier ++ pair :: later, other.Proper := by
        intro other hother
        rw [← hpairs] at hother
        exact supportedPairs_proper hother
      refine ⟨earlier, pair, later, hpairs, fun other hother => ?_, ?_⟩
      · exact (pairStates_none (hproper other (List.mem_append_left _ hother))).mp (hnone other hother)
      · exact (pairStates_some (hproper pair (by simp))).mp hstates
    · rintro ⟨earlier, pair, later, hpairs, hnone, hshown⟩
      have hproper : ∀ other ∈ earlier ++ pair :: later, other.Proper := by
        intro other hother
        rw [← hpairs] at hother
        exact supportedPairs_proper hother
      refine ⟨earlier, pair, later, hpairs, ?_, fun other hother => ?_⟩
      · exact (pairStates_some (hproper pair (by simp))).mpr hshown
      · exact (pairStates_none (hproper other (List.mem_append_left _ hother))).mpr (hnone other hother)

example : detectOpposingStates id "the cache is enabled." "the  cache is \"disabled\"" =
    some ⟨.opposingBooleanState, "enabled", "disabled"⟩ := by
  decide +kernel

end SecondBrain.MemoryQuality
