import SecondBrain.Calendar.Events
import SecondBrain.Lib.Zones

/-!
# Times without an offset

A time that names no offset is read in the zone that is named beside it. It is tried with
both folds, and accepted where the offsets that bring it back are one and the same. In a
zone whose transitions do not touch the same times, those are the times that the clock of
the zone shows exactly once.
-/

namespace SecondBrain

open Lib

namespace Calendar

/-! ## What is accepted -/

/-- Every zone that is found is regular. -/
def RegularZones (p : Platform) : Prop := ∀ name z, p.zoneInfo name = .found z → z.Regular

/-- A `Z` is read as an offset of zero. -/
def withoutZ (value : String) : String :=
  String.ofList (value.toList.flatMap fun c => if c = 'Z' then "+00:00".toList else [c])

/-- What a provider's time means: with an offset its own instant, and without one the only
instant at which the clock of the zone shows it. -/
inductive Denotes (p : Platform) (raw : Option Json) (timezoneName : Option String) :
    Aware → Prop
  | own {value : String} {wall : Wall} {offset : Offset} (hvalue : string raw = .ok value)
      (hparsed : fromisoformat (withoutZ value) = some (wall, some offset)) :
      Denotes p raw timezoneName { wall := wall, offset := offset }
  | only {value name : String} {z : Zone} {x : Aware} (hvalue : string raw = .ok value)
      (hparsed : fromisoformat (withoutZ value) = some (x.wall, none))
      (hname : timezoneName = some name ∧ name ≠ "" ∧ x.zone = some name)
      (hzone : p.zoneInfo name = .found z) (hfits : representable x.instant = true)
      (honly : ∀ t, z.fromUtc t = x.wall.number ↔ t = x.instant) :
      Denotes p raw timezoneName x

variable {p : Platform} {z : Zone} {wall : Wall}

/-! ## The folds -/

/-- Whether the time can be converted with this fold. -/
def converts (z : Zone) (wall : Wall) (fold : Bool) : Bool :=
  let offset := z.utcoffset fold wall.number
  decide (-86400000000 < offset ∧ offset < 86400000000) &&
    representable (wall.number - offset) && representable (z.fromUtc (wall.number - offset))

theorem converts_iff {fold : Bool} :
    converts z wall fold = true ↔
      ¬ (¬ (-86400000000 < z.utcoffset fold wall.number ∧
          z.utcoffset fold wall.number < 86400000000) ∨
        ¬ representable (wall.number - z.utcoffset fold wall.number) ∨
        ¬ representable (z.fromUtc (wall.number - z.utcoffset fold wall.number))) := by
  unfold converts
  rw [Bool.and_eq_true_iff, Bool.and_eq_true_iff, decide_eq_true_eq]
  tauto

theorem candidates_eq (folds : List Bool) :
    candidates z wall folds =
      if folds.all (converts z wall) then
        .ok ((folds.map (z.utcoffset · wall.number)).filter fun offset =>
          decide (z.fromUtc (wall.number - offset) = wall.number))
      else .error .other := by
  induction folds with
  | nil => rfl
  | cons fold folds ih =>
      rw [candidates, List.all_cons, ih]
      by_cases hfits : converts z wall fold = true
      · rw [if_neg (converts_iff.mp hfits), hfits, Bool.true_and]
        by_cases hrest : folds.all (converts z wall) = true
        · rw [if_pos hrest, if_pos hrest, List.map_cons, List.filter_cons]
          by_cases hback : z.fromUtc (wall.number - z.utcoffset fold wall.number) = wall.number
          · rw [if_pos (decide_eq_true hback)]
            show Except.ok (if _ then _ else _) = _
            rw [if_pos hback]
          · rw [if_neg (by simpa using hback)]
            show Except.ok (if _ then _ else _) = _
            rw [if_neg hback]
        · rw [if_neg hrest, if_neg hrest]
          rfl
      · rw [if_pos (by_contra fun h => hfits (converts_iff.mpr h)), if_neg (by simp [hfits])]

/-- What becomes of a time that is read in a zone. -/
def inZone (z : Zone) (name : String) (wall : Wall) : Except Fault Aware :=
  match candidates z wall [false, true] with
  | .error e => .error e
  | .ok [] => .error invalidEvent
  | .ok (offset :: rest) =>
      if rest.any (· ≠ offset) then .error invalidEvent
      else if h : -86400000000 < offset ∧ offset < 86400000000 then
        .ok { wall := wall, offset := ⟨offset, h⟩, zone := some name }
      else .error .other

/-- A time in a zone, and the only instant that shows it. -/
structure OnlyIn (z : Zone) (name : String) (wall : Wall) (x : Aware) : Prop where
  shows : x.wall = wall
  named : x.zone = some name
  fits : representable x.instant = true
  only : ∀ t, z.fromUtc t = wall.number ↔ t = x.instant

theorem inZone_ok {name : String} {x : Aware} (h : inZone z name wall = .ok x) :
    (∀ fold, converts z wall fold = true) ∧
      ∃ offset rest, candidates z wall [false, true] = .ok (offset :: rest) ∧
        (∀ o ∈ rest, o = offset) ∧ x.wall = wall ∧ x.offset.val = offset ∧ x.zone = some name := by
  unfold inZone at h
  split at h
  · cases h
  · cases h
  next offset rest hcandidates =>
  split at h
  · cases h
  next hsame =>
  split at h
  · cases h
    have hall : [false, true].all (converts z wall) = true := by
      by_contra hnot
      rw [candidates_eq, if_neg hnot] at hcandidates
      cases hcandidates
    simp only [List.all_cons, List.all_nil, Bool.and_true, Bool.and_eq_true_iff] at hall
    refine ⟨fun fold => ?_, offset, rest, hcandidates, by simpa using hsame, rfl, rfl, rfl⟩
    cases fold with
    | false => exact hall.1
    | true => exact hall.2
  · cases h

theorem candidates_of_converts (h : ∀ fold, converts z wall fold = true) :
    candidates z wall [false, true] =
      .ok (([false, true].map (z.utcoffset · wall.number)).filter fun offset =>
        decide (z.fromUtc (wall.number - offset) = wall.number)) := by
  rw [candidates_eq, if_pos (List.all_eq_true.mpr fun fold _ => h fold)]

/-- In a regular zone the folds tell the times that are shown exactly once. -/
theorem inZone_iff (hz : z.Regular) {name : String} {x : Aware} :
    inZone z name wall = .ok x ↔ OnlyIn z name wall x := by
  have hclock : ∀ t, z.fromUtc t = Zone.clock z.first z.transitions t := z.fromUtc_eq
  have hoffset : ∀ fold, z.utcoffset fold wall.number =
      Zone.localOffset fold z.first z.transitions wall.number := fun fold => z.utcoffset_eq fold _
  cases Zone.shown hz.apart wall.number with
  | @once o fold first only =>
      have honly : ∀ t, z.fromUtc t = wall.number ↔ t = wall.number - o := fun t => by
        rw [hclock]
        exact only t
      have hfold : ∀ fold, z.utcoffset fold wall.number = o := fun f => (hoffset f).trans (fold f)
      have hback : z.fromUtc (wall.number - o) = wall.number := (honly _).mpr rfl
      constructor
      · intro h
        obtain ⟨hconverts, offset, rest, hcandidates, -, hwall, hvalue, hzone⟩ := inZone_ok h
        rw [candidates_of_converts hconverts] at hcandidates
        simp only [List.map_cons, List.map_nil, hfold, List.filter_cons, List.filter_nil, hback,
          decide_true, if_true, Except.ok.injEq, List.cons.injEq] at hcandidates
        have hinstant : x.instant = wall.number - o := by
          rw [Aware.instant, hwall, hvalue, hcandidates.1]
        have hfits := (Bool.and_eq_true_iff.mp (Bool.and_eq_true_iff.mp (hconverts false)).1).2
        refine ⟨hwall, hzone, ?_, fun t => ?_⟩
        · rw [hinstant, ← hfold false]
          exact hfits
        · rw [hinstant]
          exact honly t
      · intro h
        have hinstant : x.instant = wall.number - o := (honly _).mp ((h.only _).mpr rfl)
        have hvalue : x.offset.val = o := by
          have hsub := hinstant
          rw [Aware.instant, h.shows] at hsub
          omega
        have hconverts : ∀ fold, converts z wall fold = true := by
          intro fold
          unfold converts
          dsimp only
          rw [hfold, hback, wall.number_representable, ← hinstant, h.fits, ← hvalue]
          simpa using x.offset.property
        unfold inZone
        rw [candidates_of_converts hconverts]
        simp only [List.map_cons, List.map_nil, hfold, List.filter_cons, List.filter_nil, hback,
          decide_true, if_true]
        rw [if_neg (by simp), dif_pos (hvalue ▸ x.offset.property)]
        obtain ⟨xwall, xoffset, xzone⟩ := x
        obtain rfl : xwall = wall := h.shows
        obtain rfl : xzone = some name := h.named
        congr 2
        exact Subtype.ext hvalue.symm
  | @twice o o' early late back first shown =>
      constructor
      · intro h
        obtain ⟨hconverts, offset, rest, hcandidates, hsame, -⟩ := inZone_ok h
        rw [candidates_of_converts hconverts] at hcandidates
        simp only [List.map_cons, List.map_nil, hoffset, early, late, List.filter_cons,
          List.filter_nil, hclock, shown.1, shown.2, decide_true, if_true, Except.ok.injEq,
          List.cons.injEq] at hcandidates
        have heq := hsame o' (by rw [← hcandidates.2]; exact List.mem_cons_self)
        omega
      · intro h
        have hfirst := (h.only _).mp ((hclock _).trans shown.1)
        have hsecond := (h.only _).mp ((hclock _).trans shown.2)
        omega
  | @never T first past =>
      have hnever : ∀ t, z.fromUtc t ≠ wall.number := by
        intro t ht
        rw [hclock] at ht
        by_cases hT : T ≤ t
        · have hpast := past t hT
          omega
        · have hearlier := first.earlier t (by omega)
          omega
      constructor
      · intro h
        obtain ⟨hconverts, offset, rest, hcandidates, -⟩ := inZone_ok h
        rw [candidates_of_converts hconverts] at hcandidates
        simp [hnever] at hcandidates
      · exact fun h => absurd ((h.only _).mpr rfl) (hnever _)

variable {raw : Option Json} {timezoneName : Option String} {value : String}

/-- What becomes of a time that was parsed. -/
def placed (p : Platform) (timezoneName : Option String) :
    Option (Wall × Option Offset) → Except Fault Aware
  | none => .error invalidEvent
  | some (wall, some offset) => .ok { wall := wall, offset := offset }
  | some (wall, none) =>
      match timezoneName with
      | none => .error invalidEvent
      | some name =>
          if name.isEmpty then .error invalidEvent
          else match p.zoneInfo name with
            | .notFound => .error invalidEvent
            | .malformed => .error .other
            | .found z => inZone z name wall

theorem instant_eq (hvalue : string raw = .ok value) :
    instant p raw timezoneName = placed p timezoneName (fromisoformat (withoutZ value)) := by
  unfold instant withoutZ
  rw [hvalue]
  dsimp only [bind, Except.bind]
  generalize fromisoformat _ = parsed
  cases parsed with
  | none => rfl
  | some parsed =>
  obtain ⟨wall, offset⟩ := parsed
  cases offset with
  | some offset => rfl
  | none =>
  cases timezoneName with
  | none => rfl
  | some name =>
  unfold placed
  dsimp only
  split
  · rfl
  cases p.zoneInfo name with
  | notFound => rfl
  | malformed => rfl
  | found z =>
  unfold inZone
  dsimp only
  cases candidates z wall [false, true] with
  | error e => rfl
  | ok offsets =>
  cases offsets with
  | nil => rfl
  | cons offset rest => rfl

theorem placed_ok {parsed : Option (Wall × Option Offset)} {x : Aware}
    (h : placed p timezoneName parsed = .ok x) :
    (∃ wall offset, parsed = some (wall, some offset) ∧ x = { wall := wall, offset := offset }) ∨
      ∃ wall name z, parsed = some (wall, none) ∧ (timezoneName = some name ∧ name ≠ "") ∧
        p.zoneInfo name = .found z ∧ inZone z name wall = .ok x := by
  unfold placed at h
  split at h
  · cases h
  · next wall offset => exact .inl ⟨wall, offset, rfl, (Except.ok.inj h).symm⟩
  next wall =>
  split at h
  · cases h
  next name =>
  split at h
  · cases h
  next hname =>
  split at h
  · cases h
  · cases h
  next z hzone =>
  refine .inr ⟨wall, name, z, rfl, ⟨rfl, fun heq => hname ?_⟩, hzone, h⟩
  rw [heq]
  rfl

/-- A time with an offset is its own instant, and one without an offset is accepted exactly
where the clock of its zone shows it once, as the instant at which it does. -/
theorem local_time_exact (hp : RegularZones p) (x : Aware) :
    instant p raw timezoneName = .ok x ↔ Denotes p raw timezoneName x := by
  constructor
  · intro h
    cases hvalue : string raw with
    | error e =>
        unfold instant at h
        rw [hvalue] at h
        cases h
    | ok value =>
    rw [instant_eq hvalue] at h
    rcases placed_ok h with ⟨wall, offset, hparsed, rfl⟩ |
    ⟨wall, name, z, hparsed, hname, hzone, hx⟩
    · exact .own hvalue hparsed
    · obtain ⟨rfl, hnamed, hfits, honly⟩ := (inZone_iff (hp name z hzone)).mp hx
      exact .only hvalue hparsed ⟨hname.1, hname.2, hnamed⟩ hzone hfits honly
  · intro h
    cases h with
    | own hvalue hparsed => rw [instant_eq hvalue, hparsed, placed]
    | @only value name z _ hvalue hparsed hname hzone hfits honly =>
        obtain ⟨rfl, hname, hnamed⟩ := hname
        rw [instant_eq hvalue, hparsed, placed, if_neg (by simpa using hname), hzone]
        exact (inZone_iff (hp name z hzone)).mpr ⟨rfl, hnamed, hfits, honly⟩

/-- A zone that sets its clock an hour forward and, half a year later, back. -/
def sampleZone : Zone :=
  { first := 3600000000
    transitions := [(1774746000000000, 7200000000), (1792890000000000, 3600000000)] }

def zonePlatform (z : Zone) : Platform :=
  { zoneInfo := fun _ => .found z
    sha256 := id }

theorem sampleZone_regular : RegularZones (zonePlatform sampleZone) := by
  intro name z h
  obtain rfl := ZoneLookup.found.inj h
  exact ⟨by decide, by decide⟩

theorem local_time_exact_sample :
    ∃ x, instant (zonePlatform sampleZone) (some (.str "2026-07-01T12:00:00"))
        (some "Europe/Rome") =
        .ok x ∧
      Denotes (zonePlatform sampleZone) (some (.str "2026-07-01T12:00:00")) (some "Europe/Rome")
        x := by
  have hok : (instant (zonePlatform sampleZone) (some (.str "2026-07-01T12:00:00"))
      (some "Europe/Rome")).toOption.isSome = true := by decide +kernel
  obtain ⟨x, hx⟩ := Option.isSome_iff_exists.mp hok
  have hx : instant (zonePlatform sampleZone) (some (.str "2026-07-01T12:00:00"))
      (some "Europe/Rome") = .ok x := by
    cases h : instant (zonePlatform sampleZone) (some (.str "2026-07-01T12:00:00"))
        (some "Europe/Rome") with
    | error e => rw [h] at hx; cases hx
    | ok y => rw [h] at hx; exact congrArg Except.ok (Option.some.inj hx)
  exact ⟨x, hx, (local_time_exact sampleZone_regular x).mp hx⟩

/-- Its transitions touch the same local times, on two folds. -/
def crossedZone : Zone :=
  { first := 0
    transitions := [(0, 7200000000), (1800000000, 1800000000), (7200000000, -2880000000),
      (8280000000, 3600000000)] }

/-- A time that the clock shows once is refused. -/
theorem crossed_time_refused :
    (∃ x, Denotes (zonePlatform crossedZone) (some (.str "1970-01-01T01:42:00")) (some "Crossed")
      x) ∧
      instant (zonePlatform crossedZone) (some (.str "1970-01-01T01:42:00")) (some "Crossed") =
        .error invalidEvent := by
  have hparsed : fromisoformat (withoutZ "1970-01-01T01:42:00") =
      some (⟨⟨1970, 1, 1, by decide, by decide, by decide⟩, 6120000000, by decide⟩, none) := by
    decide +kernel
  refine ⟨⟨⟨⟨⟨1970, 1, 1, by decide, by decide, by decide⟩, 6120000000, by decide⟩,
    ⟨1800000000, by decide⟩, some "Crossed"⟩, ?_⟩, by decide +kernel⟩
  refine .only rfl hparsed ⟨rfl, by decide, rfl⟩ rfl (by decide) fun t => ?_
  have hwall : (Wall.mk ⟨1970, 1, 1, by decide, by decide, by decide⟩ 6120000000 (by decide)).number
      = 6120000000 := by decide
  rw [Zone.fromUtc_eq, Aware.instant, hwall, Zone.clock, crossedZone]
  simp only [settled]
  split_ifs <;> omega

end Calendar

end SecondBrain
