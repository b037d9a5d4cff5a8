import SecondBrain.Lib.Outcome
import SecondBrain.Lib.Table

/-!
# Tables whose rows are written once

A transaction that writes some rows of a table, each of them once, relates every row of the
table before it to the row with its key after it: the row was written, and has gone a step,
or it is left (`Turned`). A loop over rows with different keys, where each round writes the row it is
given, is such a transaction (`Turned.foldlM`), so that what is known of a round is known
of the loop.
-/

namespace Lib

variable {α κ : Type} [DecidableEq κ] {key : α → κ} {R R' : α → α → Prop} {keys keys' : List κ}
  {rows rows' rows'' : List α} {r r' : α} {k : κ}

theorem lookup_map {f : α → α} (hf : ∀ r ∈ rows, key (f r) = key r) :
    lookup key k (rows.map f) = (lookup key k rows).map f := by
  induction rows with
  | nil => rfl
  | cons r rest ih =>
      have hkey := hf r List.mem_cons_self
      rw [List.map_cons, lookup, lookup]
      by_cases hk : key r = k
      · rw [List.find?_cons_of_pos (by simpa [hkey] using hk),
          List.find?_cons_of_pos (by simpa using hk)]
        rfl
      · rw [List.find?_cons_of_neg (by simpa [hkey] using hk),
          List.find?_cons_of_neg (by simpa using hk)]
        exact ih fun r' hr' => hf r' (List.mem_cons_of_mem _ hr')

/-- The rows with one of the keys go one step, and the others are left. -/
def Turned (key : α → κ) (R : α → α → Prop) (keys : List κ) (rows rows' : List α) : Prop :=
  ∃ f : α → α, rows' = rows.map f ∧
    ∀ r ∈ rows, key (f r) = key r ∧ (key r ∉ keys → f r = r) ∧ (key r ∈ keys → R r (f r))

namespace Turned

omit [DecidableEq κ] in
theorem refl (hR : ∀ r ∈ rows, key r ∈ keys → R r r) : Turned key R keys rows rows :=
  ⟨id, (List.map_id _).symm, fun r hr => ⟨rfl, fun _ => rfl, hR r hr⟩⟩

omit [DecidableEq κ] in
theorem mono (hle : ∀ r ∈ rows, ∀ r', R r r' → R' r r') (h : Turned key R keys rows rows') :
    Turned key R' keys rows rows' := by
  obtain ⟨f, hrows, hf⟩ := h
  refine ⟨f, hrows, fun r hr => ⟨(hf r hr).1, (hf r hr).2.1, fun hin => ?_⟩⟩
  exact hle r hr (f r) ((hf r hr).2.2 hin)

/-- One row is written anew. -/
theorem replace (hkeyed : Keyed key rows) (hrow : r ∈ rows) (hkey : key r' = key r) (hR : R r r') :
    Turned key R [key r] rows (Lib.replace key r' rows) := by
  refine ⟨fun x => if key x = key r' then r' else x, rfl, fun x hx => ?_⟩
  by_cases hsame : key x = key r'
  · obtain rfl : x = r := hkeyed.inj hx hrow (hsame.trans hkey)
    dsimp only
    rw [if_pos hsame]
    exact ⟨hkey, fun h => absurd (List.mem_singleton_self _) h, fun _ => hR⟩
  · dsimp only
    rw [if_neg hsame]
    refine ⟨rfl, fun _ => rfl, fun hin => ?_⟩
    exact absurd ((List.mem_singleton.mp hin).trans hkey.symm) hsame

omit [DecidableEq κ] in
/-- Two transactions that write different rows. -/
theorem trans (hdisjoint : ∀ k ∈ keys, k ∉ keys') (h : Turned key R keys rows rows')
    (h' : Turned key R keys' rows' rows'') : Turned key R (keys ++ keys') rows rows'' := by
  obtain ⟨f, hrows, hf⟩ := h
  obtain ⟨g, hrows', hg⟩ := h'
  refine ⟨g ∘ f, by rw [hrows', hrows, List.map_map], fun r hr => ?_⟩
  have hmem : f r ∈ rows' := by
    rw [hrows]
    exact List.mem_map_of_mem hr
  obtain ⟨hfkey, hfkeep, hfR⟩ := hf r hr
  obtain ⟨hgkey, hgkeep, hgR⟩ := hg (f r) hmem
  rw [hfkey] at hgkeep hgR
  refine ⟨hgkey.trans hfkey, fun hnot => ?_, fun hin => ?_⟩
  · rw [List.mem_append, not_or] at hnot
    rw [Function.comp_apply, hgkeep hnot.2, hfkeep hnot.1]
  · rw [Function.comp_apply]
    by_cases hfirst : key r ∈ keys
    · rw [hgkeep (hdisjoint _ hfirst)]
      exact hfR hfirst
    · have hsecond := (List.mem_append.mp hin).resolve_left hfirst
      rw [hfkeep hfirst] at hgR ⊢
      exact hgR hsecond

omit [DecidableEq κ] in
theorem keys_eq (h : Turned key R keys rows rows') : rows'.map key = rows.map key := by
  obtain ⟨f, rfl, hf⟩ := h
  rw [List.map_map]
  exact List.map_congr_left fun r hr => (hf r hr).1

omit [DecidableEq κ] in
theorem keyed (h : Turned key R keys rows rows') (hkeyed : Keyed key rows) : Keyed key rows' := by
  rw [Keyed, h.keys_eq]
  exact hkeyed

omit [DecidableEq κ] in
/-- A row is left or has gone a step. -/
theorem steps (h : Turned key R keys rows rows') : ∃ f : α → α, rows' = rows.map f ∧
    ∀ r ∈ rows, key (f r) = key r ∧ (f r = r ∨ R r (f r)) := by
  obtain ⟨f, hrows, hf⟩ := h
  refine ⟨f, hrows, fun r hr => ⟨(hf r hr).1, ?_⟩⟩
  by_cases hin : key r ∈ keys
  · exact .inr ((hf r hr).2.2 hin)
  · exact .inl ((hf r hr).2.1 hin)

omit [DecidableEq κ] in
/-- What no step changes stays. -/
theorem map_eq {β : Type} {g : α → β} (hg : ∀ r ∈ rows, ∀ r', R r r' → g r' = g r)
    (h : Turned key R keys rows rows') : rows'.map g = rows.map g := by
  obtain ⟨f, rfl, hf⟩ := h.steps
  rw [List.map_map]
  refine List.map_congr_left fun r hr => ?_
  rcases (hf r hr).2 with hsame | hR
  · rw [Function.comp_apply, hsame]
  · exact hg r hr _ hR

omit [DecidableEq κ] in
theorem mem (h : Turned key R keys rows rows') (hr : r' ∈ rows') :
    ∃ r ∈ rows, key r' = key r ∧ (r' = r ∨ R r r') := by
  obtain ⟨f, rfl, hf⟩ := h.steps
  obtain ⟨r, hmem, rfl⟩ := List.mem_map.mp hr
  exact ⟨r, hmem, hf r hmem⟩

omit [DecidableEq κ] in
theorem kept (h : Turned key R keys rows rows') (hr : r ∈ rows) (hnot : key r ∉ keys) :
    r ∈ rows' := by
  obtain ⟨f, rfl, hf⟩ := h
  rw [← (hf r hr).2.1 hnot]
  exact List.mem_map_of_mem hr

theorem lookup_some (h : Turned key R keys rows rows') (hr : Lib.lookup key k rows = some r) :
    ∃ r', Lib.lookup key k rows' = some r' ∧ (r' = r ∨ R r r') := by
  obtain ⟨f, rfl, hf⟩ := h.steps
  obtain ⟨hmem, -⟩ := lookup_mem hr
  refine ⟨f r, ?_, (hf r hmem).2⟩
  rw [lookup_map fun x hx => (hf x hx).1, hr]
  rfl

/-- A row that is written has gone its step. -/
theorem lookup_turned (h : Turned key R keys rows rows') (hr : Lib.lookup key k rows = some r)
    (hin : k ∈ keys) : ∃ r', Lib.lookup key k rows' = some r' ∧ R r r' := by
  obtain ⟨f, rfl, hf⟩ := h
  obtain ⟨hmem, rfl⟩ := lookup_mem hr
  refine ⟨f r, ?_, (hf r hmem).2.2 hin⟩
  rw [lookup_map fun x hx => (hf x hx).1, hr]
  rfl

theorem lookup_kept (h : Turned key R keys rows rows') (hr : Lib.lookup key k rows = some r)
    (hnot : k ∉ keys) : Lib.lookup key k rows' = some r := by
  obtain ⟨f, rfl, hf⟩ := h
  obtain ⟨hmem, rfl⟩ := lookup_mem hr
  rw [lookup_map fun x hx => (hf x hx).1, hr, Option.map_some, (hf r hmem).2.1 hnot]

omit [DecidableEq κ] in
/-- No more rows are counted where no step begins to count. -/
theorem countP_le {p : α → Bool} (hp : ∀ r ∈ rows, ∀ r', R r r' → p r' = true → p r = true)
    (h : Turned key R keys rows rows') : rows'.countP p ≤ rows.countP p := by
  obtain ⟨f, rfl, hf⟩ := h.steps
  rw [List.countP_map]
  refine List.countP_mono_left fun r hr hpf => ?_
  rcases (hf r hr).2 with hsame | hR
  · rw [Function.comp_apply, hsame] at hpf
    exact hpf
  · exact hp r hr _ hR hpf

/-- No more rows begin to count than are written. -/
theorem countP_le_add {p : α → Bool} (hkeyed : Keyed key rows)
    (h : Turned key R keys rows rows') : rows'.countP p ≤ rows.countP p + keys.length := by
  obtain ⟨f, rfl, hf⟩ := h
  let written := rows.filter fun r => decide (key r ∈ keys)
  let left := rows.filter fun r => !decide (key r ∈ keys)
  have hwritten : written.length ≤ keys.length := by
    rw [← List.length_map key]
    refine List.Nodup.length_le_of_subset (hkeyed.sublist (List.filter_sublist.map key)) ?_
    intro k hk
    obtain ⟨r, hr, rfl⟩ := List.mem_map.mp hk
    exact of_decide_eq_true (List.mem_filter.mp hr).2
  have hleft : left.countP (p ∘ f) ≤ rows.countP p := by
    refine Nat.le_trans (List.countP_mono_left fun r hr hpf => ?_) List.filter_sublist.countP_le
    obtain ⟨hmem, hnot⟩ := List.mem_filter.mp hr
    rw [Bool.not_eq_true', decide_eq_false_iff_not] at hnot
    rw [Function.comp_apply, (hf r hmem).2.1 hnot] at hpf
    exact hpf
  calc (rows.map f).countP p = rows.countP (p ∘ f) := List.countP_map
    _ = written.countP (p ∘ f) + left.countP (p ∘ f) := by
        rw [List.countP_eq_countP_filter_add rows (p ∘ f) fun r => decide (key r ∈ keys)]
    _ ≤ rows.countP p + keys.length := by
        have hall := List.countP_le_length (p := p ∘ f) (l := written)
        omega

section

variable {σ ε ξ : Type} {f : σ → List α} {I : σ → Prop} {step : σ → ξ → Except ε σ}
  {g : ξ → α} {xs : List ξ} {s s' : σ}

omit [DecidableEq κ] in
/-- A loop over rows with different keys, of which each round writes its own and keeps what
the loop relies on. -/
theorem foldlM (hnodup : (xs.map fun x => key (g x)).Nodup) (hkeyed : Keyed key (f s))
    (hmem : ∀ x ∈ xs, g x ∈ f s) (hs : I s)
    (hstep : ∀ t t' x, x ∈ xs → I t → Keyed key (f t) → g x ∈ f t → step t x = .ok t' →
      Turned key R [key (g x)] (f t) (f t') ∧ I t')
    (h : xs.foldlM step s = .ok s') :
    Turned key R (xs.map fun x => key (g x)) (f s) (f s') ∧ I s' := by
  induction xs generalizing s with
  | nil =>
      obtain rfl := Except.ok.inj h
      refine ⟨refl fun r _ hin => ?_, hs⟩
      cases hin
  | cons x rest ih =>
      rw [List.foldlM_cons] at h
      obtain ⟨t, ht, h⟩ := bind_ok h
      rw [List.map_cons, List.nodup_cons] at hnodup
      obtain ⟨hround, hkept⟩ :=
        hstep s t x List.mem_cons_self hs hkeyed (hmem x List.mem_cons_self) ht
      have hrest := ih hnodup.2 (hround.keyed hkeyed) (fun y hy => ?_) hkept
        (fun t t' y hy => hstep t t' y (List.mem_cons_of_mem _ hy)) h
      · refine ⟨hround.trans (fun k hk => ?_) hrest.1, hrest.2⟩
        rw [List.mem_singleton.mp hk]
        exact hnodup.1
      · refine hround.kept (hmem y (List.mem_cons_of_mem _ hy)) fun hin => hnodup.1 ?_
        rw [← List.mem_singleton.mp hin]
        exact List.mem_map.mpr ⟨y, hy, rfl⟩

end

end Turned

end Lib
