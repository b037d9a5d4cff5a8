import SecondBrain.AgentRuns.Fencing

/-!
# Fencing over whole runs of the runtime

The invariant of the machine puts the pieces together: the rows of every run
are sound, every executor fits its run, no two of them wait for one invocation,
and at most one of those at work on a run may store its result. A step changes
one run by one piece of work and moves at most one executor (`Inv.update`).

The condition `fenced` is what the code does not see to: that a session decides
on the rows as they are, and that an executor whose invocation was given up
does not go on with a run that others are at work on.
-/

namespace SecondBrain

open Lib

/-! ## The condition -/

/-- What the session sees of the record is the record. -/
def Cache.current (c : Cache) (r : RunRecord) : Bool :=
  c.run.all (· == r.run) && r.steps.all (fun s => c.stepFor s == s) &&
    r.invocations.all fun i => c.invocationFor i == i

theorem Cache.seen_of_current {c : Cache} {r : RunRecord} (h : c.current r = true) :
    c.seen r = r := by
  unfold Cache.current at h
  simp only [Bool.and_eq_true, List.all_eq_true, beq_iff_eq] at h
  obtain ⟨⟨hrun, hsteps⟩, hinvocations⟩ := h
  have hsame : c.run.getD r.run = r.run := by
    cases hc : c.run with
    | none => rfl
    | some run => rw [hc, Option.all_some, beq_iff_eq] at hrun; exact hrun
  rw [Cache.seen, hsame, List.map_congr_left hsteps, List.map_congr_left hinvocations,
    List.map_id', List.map_id']

/-- The step of an executor is a transaction, not a move of its own. -/
def RuntimeStep.transacts : RuntimeStep → Bool
  | .claim .. | .reserve .. | .finalize .. | .startSynthesis .. | .persist ..
  | .failSynthesis .. | .complete .. => true
  | _ => false

/-- A duty is left that a completion would fail the run for. -/
def RunRecord.missesResult (r : RunRecord) (e : Executor) : Bool :=
  (resultDuties r.run (e.synthesises == some .dailyBrief)
    (e.synthesises == some .projectWatch)).any (!r.fulfils ·)

namespace Runtime

/-- Another executor is at work on the run. -/
def othersAtWork (s : Runtime) (pid : Nat) (runId : Uuid) : Bool :=
  (s.executors.zipIdx).any fun (e, q) => q != pid && e.runId == runId && e.phase.atWork

/-- An executor that lost its invocation goes on with the run: it turns to the
provider though the run runs and is in time, or it would fail the run for a
missing result while another is at work on it. -/
def oversteps (s : Runtime) (pid : Nat) (e : Executor) (l : RuntimeStep) (r : RunRecord) :
    Bool :=
  e.superseded r && r.run.state == .running &&
    match l with
    | .startSynthesis _ _ now => !(e.kind == .request && decide (r.run.runDeadline ≤ now))
    | .complete _ _ =>
        s.othersAtWork pid e.runId && !r.steps.isEmpty &&
          r.steps.all (·.status == .succeeded) && r.missesResult e
    | _ => false

theorem oversteps_startSynthesis {s : Runtime} {pid n : Nat} {e : Executor} {r : RunRecord}
    {valid : Bool} {now : Instant} (hlost : e.superseded r = true) (hrun : r.run.state = .running)
    (h : s.oversteps pid e (.startSynthesis n valid now) r = false) :
    e.kind = .request ∧ r.run.runDeadline ≤ now := by
  rw [oversteps, hlost, hrun] at h
  simpa using h

def fenced (s : Runtime) (l : RuntimeStep) : Bool :=
  match l.pid? with
  | none => true
  | some pid =>
      match s.executors[pid]? with
      | none => true
      | some e =>
          match s.runs.get e.runId with
          | none => true
          | some r =>
              (!l.transacts || r.run.state.isTerminal || (e.cacheFor l).current r) &&
                !s.oversteps pid e l r

/-- A request or a command, not a bare call of `transition_run`. -/
def served : Machine Runtime RuntimeStep where
  start s := s.runs = [] ∧ s.executors = []
  next s l :=
    match l with
    | .transition .. => none
    | l => s.step l

/-! ## The invariant -/

structure Inv (s : Runtime) : Prop where
  rows : ∀ (id : Uuid) (r : RunRecord), s.runs.get id = some r →
    Sound r ∧ r.run.finishedIffTerminal = true
  known : ∀ (p : Nat) (e : Executor), s.executors[p]? = some e →
    (s.runs.get e.runId).isSome = true
  fits : ∀ (p : Nat) (e : Executor) (r : RunRecord), s.executors[p]? = some e →
    s.runs.get e.runId = some r → Fits e r
  apart : ∀ (p q : Nat) (a b : Executor) (l m : Reservation) (r : RunRecord),
    s.executors[p]? = some a → s.executors[q]? = some b → a.runId = b.runId →
    s.runs.get a.runId = some r → r.run.state = .running → a.inCall → b.inCall →
    a.last = some l → b.last = some m → l.invocationId = m.invocationId → p = q
  sole : ∀ (p q : Nat) (a b : Executor), s.executors[p]? = some a →
    s.executors[q]? = some b → a.runId = b.runId → a.working → b.working → p = q
  results : ∀ (id : Uuid) (r : RunRecord), s.runs.get id = some r →
    r.results = 0 ∨ r.results = 1 ∧ ∀ (p : Nat) (e : Executor), s.executors[p]? = some e →
      e.runId = id → e.working → e.phase = .completing

variable {s s' : Runtime} {l : RuntimeStep} {pid : Nat} {new : Option Executor}
  {id : Uuid} {r r' : RunRecord}

/-- One run is changed, and one executor comes or moves, or none. -/
structure Moves (s : Runtime) (pid : Nat) (new : Option Executor) (id : Uuid)
    (r' : RunRecord) (s' : Runtime) : Prop where
  runs : ∀ id', s'.runs.get id' = if id' = id then some r' else s.runs.get id'
  executors : ∀ (q : Nat) (e : Executor), s'.executors[q]? = some e →
    q ≠ pid ∧ s.executors[q]? = some e ∨ q = pid ∧ new = some e
  owner : ∀ e ∈ new, e.runId = id

theorem Inv.update (h : Inv s) (hm : Moves s pid new id r' s')
    (hr : s.runs.get id = some r) (hsound : Sound r')
    (hfin : r'.run.finishedIffTerminal = true)
    (hrunning : r'.run.state = .running →
      r.run.state = .running ∨ r.run.state.isEarly = true)
    (hframe : ∀ (q : Nat) (e : Executor), q ≠ pid → s.executors[q]? = some e → e.runId = id → Fits e r')
    (hfits : ∀ e ∈ new, Fits e r')
    (hapart : r'.run.state = .running → ∀ e ∈ new, e.inCall → ∀ l, e.last = some l →
      ∀ (q : Nat) (b : Executor) (m : Reservation), q ≠ pid → s.executors[q]? = some b →
        b.runId = id → b.inCall →
        b.last = some m → l.invocationId ≠ m.invocationId)
    (hsole : ∀ e ∈ new, e.working →
      ∀ (q : Nat) (b : Executor), q ≠ pid → s.executors[q]? = some b → b.runId = id →
        ¬ b.working)
    (hresults : r'.results = 0 ∨ r'.results = 1 ∧
      (∀ (q : Nat) (e : Executor), q ≠ pid → s.executors[q]? = some e → e.runId = id →
        e.working → e.phase = .completing) ∧
      ∀ e ∈ new, e.working → e.phase = .completing) : Inv s' := by
  refine ⟨?_, ?_, ?_, ?_, ?_, ?_⟩
  · intro id' q hq
    rw [hm.runs] at hq
    split at hq
    · cases hq
      exact ⟨hsound, hfin⟩
    · exact h.rows id' q hq
  · intro p e he
    rw [hm.runs]
    split
    · rfl
    · next hne =>
        rcases hm.executors p e he with ⟨-, he⟩ | ⟨-, he⟩
        · exact h.known p e he
        · exact absurd (hm.owner e he) hne
  · intro p e q he hq
    rw [hm.runs] at hq
    rcases hm.executors p e he with ⟨hp, he⟩ | ⟨-, he⟩
    · split at hq
      · next hid =>
          cases hq
          exact hframe p e hp he hid
      · exact h.fits p e q he hq
    · rw [if_pos (hm.owner e he)] at hq
      cases hq
      exact hfits e he
  · intro p q a b la lb x ha hb hsame hx hrun hacall hbcall hal hbl hinv
    rw [hm.runs] at hx
    rcases hm.executors p a ha with ⟨hp, ha'⟩ | ⟨rfl, ha'⟩ <;>
      rcases hm.executors q b hb with ⟨hq, hb'⟩ | ⟨rfl, hb'⟩
    · by_cases hid : a.runId = id
      · rw [if_pos hid] at hx
        cases hx
        rcases hrunning hrun with hold | hearly
        · exact h.apart p q a b la lb r ha' hb' hsame (hid ▸ hr) hold hacall hbcall hal hbl hinv
        · have hidle := (h.fits p a r ha' (hid ▸ hr)).idle_of_early hearly
          rcases hacall with hphase | hphase <;> rw [hphase] at hidle <;> cases hidle
      · rw [if_neg hid] at hx
        exact h.apart p q a b la lb x ha' hb' hsame hx hrun hacall hbcall hal hbl hinv
    · have hid := hm.owner b hb'
      rw [if_pos (hsame.trans hid)] at hx
      cases hx
      exact absurd hinv.symm
        (hapart hrun b hb' hbcall lb hbl p a la hp ha' (hsame.trans hid) hacall hal)
    · have hid := hm.owner a ha'
      rw [if_pos hid] at hx
      cases hx
      exact absurd hinv
        (hapart hrun a ha' hacall la hal q b lb hq hb' (hsame.symm.trans hid) hbcall hbl)
    · rfl
  · intro p q a b ha hb hsame haw hbw
    rcases hm.executors p a ha with ⟨hp, ha'⟩ | ⟨rfl, ha'⟩ <;>
      rcases hm.executors q b hb with ⟨hq, hb'⟩ | ⟨rfl, hb'⟩
    · exact h.sole p q a b ha' hb' hsame haw hbw
    · exact absurd haw (hsole b hb' hbw p a hp ha' (hsame.trans (hm.owner b hb')))
    · exact absurd hbw (hsole a ha' haw q b hq hb' (hsame.symm.trans (hm.owner a ha')))
    · rfl
  · intro id' x hx
    rw [hm.runs] at hx
    split at hx
    · next hid =>
        cases hx
        refine hresults.imp_right fun ⟨hone, hothers, hnew⟩ => ⟨hone, fun p e he hown hw => ?_⟩
        rcases hm.executors p e he with ⟨hp, he'⟩ | ⟨-, he'⟩
        · exact hothers p e hp he' (hown.trans hid) hw
        · exact hnew e he' hw
    · next hid =>
        refine (h.results id' x hx).imp_right fun ⟨hone, hothers⟩ => ⟨hone, fun p e he hown hw => ?_⟩
        rcases hm.executors p e he with ⟨-, he'⟩ | ⟨-, he'⟩
        · exact hothers p e he' hown hw
        · exact absurd (hown.symm.trans (hm.owner e he')) hid

/-! ## Work on one run -/

theorem running_before {k : Option Uuid} (h : Work k r r')
    (hrun : r'.run.state = .running) :
    r.run.state = .running ∨ r.run.state.isEarly = true := by
  cases h with
  | finished hover => rw [hrun] at hover; cases hover
  | kept hstate => exact .inl (hstate ▸ hrun)
  | early hearly => exact .inr hearly
  | claimed hready => exact .inr (by rw [hready]; rfl)
  | reserved hold | settled hold | givenUp hold => exact .inl hold

/-- Where the executor that comes or moves was before, if it may store a result:
it is the first on this run, or was at work on it short of completing. -/
def ComesFrom (s : Runtime) (pid : Nat) (id : Uuid) (r : RunRecord) : Prop :=
  r.run.state.isEarly = true ∨ ∃ e, s.executors[pid]? = some e ∧ e.runId = id ∧ e.working ∧
    e.phase ≠ .completing

theorem ComesFrom.alone (h : Inv s) (hr : s.runs.get id = some r)
    (hfrom : s.ComesFrom pid id r) :
    ∀ (q : Nat) (b : Executor), q ≠ pid → s.executors[q]? = some b → b.runId = id →
      ¬ b.working := by
  intro q b hq hb hown hworking
  rcases hfrom with hearly | ⟨e, he, hown', hw, -⟩
  · have hidle := (h.fits q b r hb (hown ▸ hr)).idle_of_early hearly
    rw [hworking.2] at hidle
    cases hidle
  · exact hq (h.sole q pid b e hb he (hown.trans hown'.symm) hworking hw)

theorem ComesFrom.unstored (h : Inv s) (hr : s.runs.get id = some r)
    (hfrom : s.ComesFrom pid id r) : r.results = 0 := by
  rcases hfrom with hearly | ⟨e, he, hown, hw, hphase⟩
  · exact ((h.rows id r hr).1.of_early hearly).results
  · refine (h.results id r hr).resolve_right fun ⟨_, hall⟩ => ?_
    exact hphase (hall pid e he hown hw)

/-- The invocation the executor that moves waits for: the one it waited for
before, or one nobody has. -/
def Waits (s : Runtime) (pid : Nat) (id : Uuid) (r : RunRecord) (l : Reservation) : Prop :=
  r.run.state = .running ∧ ((∀ j ∈ r.invocations, j.id ≠ l.invocationId) ∨
    ∃ e, s.executors[pid]? = some e ∧ e.runId = id ∧ e.inCall ∧ e.last = some l)

theorem Waits.apart (h : Inv s) (hr : s.runs.get id = some r) {l : Reservation}
    (hwaits : s.Waits pid id r l) :
    ∀ (q : Nat) (b : Executor) (m : Reservation), q ≠ pid → s.executors[q]? = some b →
      b.runId = id → b.inCall → b.last = some m → l.invocationId ≠ m.invocationId := by
  intro q b m hq hb hown hcall hm hsame
  obtain ⟨hrun, hfresh | ⟨e, he, hown', hcall', hl⟩⟩ := hwaits
  · obtain ⟨l', hl', i, hi, hid, -⟩ := (h.fits q b r hb (hown ▸ hr)).calling hrun hcall
    rw [hm, Option.some.injEq] at hl'
    exact hfresh i hi (by rw [hid, hsame, hl'])
  · exact hq (h.apart q pid b e m l r hb he (hown.trans hown'.symm) (hown ▸ hr) hrun hcall
      hcall' hm hl hsame.symm)

theorem Inv.work (h : Inv s) (hm : Moves s pid new id r' s') (hr : s.runs.get id = some r)
    (hfin : r'.run.finishedIffTerminal = true) {k : Option Uuid} (hwork : Work k r r')
    (hsettles : ∀ inv, k = some inv → r.run.state = .running →
      ∃ l, l.invocationId = inv ∧ s.Waits pid id r l)
    (hfits : ∀ e ∈ new, Fits e r')
    (hwaits : r'.run.state = .running → ∀ e ∈ new, e.inCall → ∀ l, e.last = some l →
      s.Waits pid id r l)
    (hfrom : ∀ e ∈ new, e.working → s.ComesFrom pid id r) : Inv s' := by
  have hsound := (h.rows id r hr).1
  refine h.update hm hr (hwork.sound hsound) hfin (running_before hwork) ?_ hfits ?_ ?_ ?_
  · intro q e hq he hown
    refine (h.fits q e r he (hown ▸ hr)).frame hsound hwork ?_
    intro inv hk hrun hcall m hmine
    obtain ⟨l, rfl, hw⟩ := hsettles inv hk hrun
    exact (hw.apart h hr q e m hq he hown hcall hmine).symm
  · exact fun hrun e he hcall l hl => (hwaits hrun e he hcall l hl).apart h hr
  · exact fun e he hw => (hfrom e he hw).alone h hr
  · rw [hwork.results]
    refine (h.results id r hr).imp_right fun ⟨hone, hall⟩ => ⟨hone, ?_, ?_⟩
    · exact fun q e _ he hown hw => hall q e he hown hw
    · intro e he hw
      rw [(hfrom e he hw).unstored h hr] at hone
      cases hone

/-- Storing a result is what nobody else is at work to do. -/
theorem Inv.store {e e' : Executor} (h : Inv s) (hm : Moves s pid (some e') id r' s')
    (hr : s.runs.get id = some r) (hfin : r'.run.finishedIffTerminal = true)
    (hstores : Stores r r') (he : s.executors[pid]? = some e) (hown : e.runId = id)
    (hworking : e.working) (hphase : e.phase ≠ .completing)
    (hphase' : e'.phase = .completing) : Inv s' := by
  have hsound := (h.rows id r hr).1
  have hfrom : s.ComesFrom pid id r := .inr ⟨e, he, hown, hworking, hphase⟩
  have hfits : ∀ x : Executor, (x.phase = .starting → x.last = none) →
      Fits x r → Fits x r' := by
    intro x hlast hx
    cases hstores with
    | finished hover => exact .of_over hover hlast
    | stored hrun hrun' _ hreconciled hsteps hinvocations =>
        exact hx.congr ⟨hrun'.trans hrun.symm, hsteps, hinvocations, hreconciled⟩
  refine h.update hm hr (hstores.sound hsound) hfin ?_ ?_ ?_ ?_ ?_ ?_
  · intro hrun'
    cases hstores with
    | finished hover => rw [hrun'] at hover; cases hover
    | stored hrun => exact .inl hrun
  · intro q x hq hx hxown
    have hxr := h.fits q x r hx (hxown ▸ hr)
    exact hfits x hxr.starting hxr
  · rintro x ⟨⟩
    refine ⟨fun h => ?_, fun _ => ?_, fun _ h => ?_, fun _ h => ?_, fun _ h => ?_, fun _ h => ?_⟩
    · rw [hphase'] at h; cases h
    · cases hstores with
      | finished hover =>
          cases hstate : r'.run.state <;> rw [hstate] at hover <;> first | rfl | cases hover
      | stored _ hrun' => rw [hrun']; rfl
    · rw [hphase'] at h; cases h
    · rcases h with h | h <;> rw [hphase'] at h <;> cases h
    · rw [hphase'] at h; cases h
    · rw [hphase'] at h; cases h
  · rintro - x ⟨⟩ (hcall | hcall) <;> rw [hphase'] at hcall <;> cases hcall
  · rintro x ⟨⟩ -
    exact hfrom.alone h hr
  · have hnone := hfrom.unstored h hr
    cases hstores with
    | finished _ hresults => exact .inl (hresults.trans hnone)
    | stored _ _ hresults =>
        refine .inr ⟨by rw [hresults, hnone], ?_, ?_⟩
        · exact fun q x hq hx hxown hw => absurd hw (hfrom.alone h hr q x hq hx hxown)
        · rintro x ⟨⟩ -
          exact hphase'

/-! ## The changes a step makes -/

theorem executors_set {e' : Executor} (hexec : s'.executors = s.executors.set pid e')
    (q : Nat) (x : Executor) (hx : s'.executors[q]? = some x) :
    q ≠ pid ∧ s.executors[q]? = some x ∨ q = pid ∧ some e' = some x := by
  rw [hexec, List.getElem?_set] at hx
  split at hx
  · next hq =>
      split at hx
      · exact .inr ⟨hq.symm, hx⟩
      · cases hx
  · next hq => exact .inl ⟨Ne.symm hq, hx⟩

theorem moves_advance {e e' : Executor}
    (hr : s.runs.get e.runId = some r) (hid : r'.run.id = r.run.id)
    (hown : e'.runId = e.runId) : Moves s pid (some e') e.runId r' (s.advance pid r' e') where
  runs := Runs.get_put hr (hid.trans (Runs.get_id hr))
  executors := executors_set rfl
  owner := by
    rintro x ⟨⟩
    exact hown

theorem moves_settle {e e' : Executor} (hr : s.runs.get e.runId = some r)
    (hown : e'.runId = e.runId) : Moves s pid (some e') e.runId r (s.settle pid e') where
  runs id' := by
    split
    · next h => rw [h]; exact hr
    · rfl
  executors := executors_set rfl
  owner := by
    rintro x ⟨⟩
    exact hown

theorem ne_length {q : Nat} {e : Executor} (h : s.executors[q]? = some e) :
    q ≠ s.executors.length := by
  rintro rfl
  rw [List.getElem?_eq_none (le_refl _)] at h
  cases h

theorem moves_commit (hr : s.runs.get id = some r) (hid : r'.run.id = r.run.id) :
    Moves s s.executors.length none id r' (s.commit r') where
  runs := Runs.get_put hr (hid.trans (Runs.get_id hr))
  executors _ _ hx := .inl ⟨ne_length hx, hx⟩
  owner := by rintro x ⟨⟩

theorem executors_append {e : Executor} (hexec : s'.executors = s.executors ++ [e])
    (q : Nat) (x : Executor) (hx : s'.executors[q]? = some x) :
    q ≠ s.executors.length ∧ s.executors[q]? = some x ∨
      q = s.executors.length ∧ some e = some x := by
  rw [hexec] at hx
  by_cases hq : q < s.executors.length
  · rw [List.getElem?_append_left hq] at hx
    exact .inl ⟨Nat.ne_of_lt hq, hx⟩
  · rw [List.getElem?_append_right (not_lt.mp hq)] at hx
    obtain ⟨hlt, rfl⟩ := List.getElem?_eq_some_iff.mp hx
    rw [List.length_singleton, Nat.lt_one_iff] at hlt
    refine .inr ⟨by omega, ?_⟩
    simp only [hlt, List.getElem_cons_zero]

theorem moves_append {e : Executor} (hruns : s'.runs = s.runs.put r')
    (hexec : s'.executors = s.executors ++ [e]) (hr : s.runs.get id = some r)
    (hid : r'.run.id = r.run.id) (hown : e.runId = id) :
    Moves s s.executors.length (some e) id r' s' where
  runs id' := by rw [hruns]; exact Runs.get_put hr (hid.trans (Runs.get_id hr)) id'
  executors := executors_append hexec
  owner := by
    rintro x ⟨⟩
    exact hown

/-! ## Steps of executors -/

section Executors

variable {e e' : Executor}

/-- On a run that is not over, the operation ran on the row as it is. -/
theorem Ran.ok_of_live {α : Type} {op : RunRecord → Except Fault (α × RunRecord)} {a : α}
    (h : s.Ran e l op r a r')
    (hok : (r.run.state.isTerminal || (e.cacheFor l).current r) = true)
    (hevolves : ∀ r, Ensures (op r) fun p => Evolves r p.2)
    (hlive : r.run.state.isTerminal = false) : op r = .ok (a, r') := by
  rw [hlive, Bool.false_or] at hok
  exact (transact_coherent (Cache.seen_of_current hok)
    ((hevolves r).mono fun _ h => h.id_eq) h.committed).1

/-- No result comes of an operation that stores none, whatever it saw. -/
theorem Ran.results {α : Type} {op : RunRecord → Except Fault (α × RunRecord)} {a : α}
    (h : s.Ran e l op r a r')
    (hresults : ∀ r, Ensures (op r) fun p => p.2.results = r.results) :
    r'.results = r.results := by
  obtain ⟨after, hop, rfl, -⟩ := transact_ok h.committed
  exact hresults _ _ hop

/-- A transaction of an executor found the run over and left it so, or it is
the operation on the row as it is. -/
theorem Ran.over_or_ok {α : Type} {op : RunRecord → Except Fault (α × RunRecord)} {a : α}
    (h : s.Ran e l op r a r') (hr : r.run.finishedIffTerminal = true)
    (hok : (r.run.state.isTerminal || (e.cacheFor l).current r) = true)
    (hevolves : ∀ r, Ensures (op r) fun p => Evolves r p.2)
    (hresults : ∀ r, Ensures (op r) fun p => p.2.results = r.results) :
    r'.run.state.isTerminal = true ∧ r'.results = r.results ∨
      r.run.state.isTerminal = false ∧ op r = .ok (a, r') := by
  cases hover : r.run.state.isTerminal with
  | true => exact .inl ⟨(h.changed hevolves).over hr hover, h.results hresults⟩
  | false => exact .inr ⟨rfl, h.ok_of_live hok hevolves hover⟩

theorem Ran.finished {α : Type} {op : RunRecord → Except Fault (α × RunRecord)} {a : α}
    (h : s.Ran e l op r a r') : r'.run.finishedIffTerminal = true := by
  obtain ⟨-, -, -, hfin⟩ := transact_ok h.committed
  exact hfin

/-- On a run that is over an executor may do what it likes but complete twice. -/
theorem Inv.over (h : Inv s) (he : s.executors[pid]? = some e)
    (hm : Moves s pid (some e') e.runId r' s') (hr : s.runs.get e.runId = some r)
    (hfin : r'.run.finishedIffTerminal = true) (hover : r'.run.state.isTerminal = true)
    (hresults : r'.results = r.results) (hkind : e'.kind = e.kind)
    (hphase : e'.phase.atWork = true → e.phase.atWork = true ∧ e.phase ≠ .completing)
    (hstarting : e'.phase ≠ .starting) : Inv s' := by
  refine h.work hm hr hfin (k := none) (.finished hover hresults) ?_ ?_ ?_ ?_
  · exact fun inv h => nomatch h
  · rintro x ⟨⟩
    exact .of_over hover fun h => absurd h hstarting
  · intro hrun
    rw [hrun] at hover
    cases hover
  · rintro x ⟨⟩ ⟨hx, hw⟩
    exact .inr ⟨e, he, rfl, ⟨hkind ▸ hx, (hphase hw).1⟩, (hphase hw).2⟩

/-- A piece of work that moves the executor out of or past all calls. -/
theorem Inv.works (h : Inv s) (he : s.executors[pid]? = some e)
    (hm : Moves s pid (some e') e.runId r' s') (hr : s.runs.get e.runId = some r)
    (hfin : r'.run.finishedIffTerminal = true) (hwork : Work none r r')
    (hfits : Fits e' r') (hkind : e'.kind = e.kind) (hcall : ¬ e'.inCall)
    (hphase : e'.phase.atWork = true → e.phase.atWork = true ∧ e.phase ≠ .completing) :
    Inv s' := by
  refine h.work hm hr hfin hwork ?_ ?_ ?_ ?_
  · exact fun inv h => nomatch h
  · rintro x ⟨⟩
    exact hfits
  · rintro - x ⟨⟩ hx
    exact absurd hx hcall
  · rintro x ⟨⟩ ⟨hx, hw⟩
    exact .inr ⟨e, he, rfl, ⟨hkind ▸ hx, (hphase hw).1⟩, (hphase hw).2⟩

theorem Inv.ends (h : Inv s) (hm : Moves s pid (some e') id r' s')
    (hr : s.runs.get id = some r) (hfin : r'.run.finishedIffTerminal = true)
    (hwork : Work none r r') (hdone : e'.phase = .done) : Inv s' := by
  have hidle : e'.phase.atWork = false := by rw [hdone]; rfl
  refine h.work hm hr hfin hwork ?_ ?_ ?_ ?_
  · exact fun inv h => nomatch h
  · rintro x ⟨⟩
    exact .of_idle hidle fun h => by rw [hdone] at h; cases h
  · rintro - x ⟨⟩ (hx | hx) <;> rw [hdone] at hx <;> cases hx
  · rintro x ⟨⟩ ⟨-, hw⟩
    rw [hidle] at hw
    cases hw

theorem not_early {k : Option Uuid} (h : Work k r r') (hr : r.run.state.isEarly = false) :
    r'.run.state.isEarly = false := by
  cases h with
  | finished hover =>
      cases hstate : r'.run.state <;> rw [hstate] at hover <;> first | rfl | cases hover
  | kept hstate => rw [hstate]; exact hr
  | early hearly => rw [hr] at hearly; cases hearly
  | claimed _ hrun | reserved _ hrun | settled _ hrun | givenUp _ hrun => rw [hrun]; rfl

/-- An executor at work on a run that is not over finds it running. -/
theorem running_of_atWork (h : Inv s) (he : s.executors[pid]? = some e)
    (hr : s.runs.get e.runId = some r) (hwork : e.phase.atWork = true)
    (hover : r.run.state.isTerminal = false) : AtWork r := by
  cases (h.rows _ r hr).1 with
  | finished h => rw [hover] at h; cases h
  | early hfresh =>
      have := (h.fits pid e r he hr).begun hwork
      rw [hfresh.early] at this
      cases this
  | atWork h => exact h

theorem claimed_running {n : Nat} {now : Instant} {copy : AgentRun}
    {claim : ExecutionClaim}
    (h : s.Ran e (.claim n now)
      (fun r => claimExecution e.build r copy.revision e.allowedTools now) r (some claim) r') :
    r'.run.state = .running := by
  obtain ⟨after, hop, rfl, -⟩ := transact_ok h.committed
  obtain ⟨-, hclaim⟩ := claimExecution_work (k := none) _ _ _ hop
  obtain ⟨-, hready, hrun⟩ := hclaim claim rfl
  show written _ _ _ = _
  rw [written, if_neg (by rw [hrun, hready]; decide), hrun]

/-- The rows an executor in a call is about to finalise. -/
theorem names_of_inCall (hr : AtWork r) {l : Reservation} {i : ToolInvocation}
    (hi : i ∈ r.invocations) (hid : i.id = l.invocationId) (hstep : i.stepId = l.stepId) :
    Names r l.stepId l.invocationId ∧ r.getInvocation l.invocationId = some i := by
  have hfind : r.getInvocation l.invocationId = some i := by
    cases hget : r.getInvocation l.invocationId with
    | none =>
        rw [RunRecord.getInvocation, List.find?_eq_none] at hget
        exact absurd (by simpa using hid) (hget i hi)
    | some j =>
        have hj := List.find?_some hget
        rw [hr.invocation_eq (List.mem_of_find?_eq_some hget) hi
          ((beq_iff_eq.mp hj).trans hid.symm)]
  obtain ⟨s, hs, hsid, -⟩ := hr.owned i hi
  have hfindStep : r.getStep l.stepId = some s := by
    cases hget : r.getStep l.stepId with
    | none =>
        rw [RunRecord.getStep, List.find?_eq_none] at hget
        exact absurd (by simpa using hsid.trans hstep) (hget s hs)
    | some t =>
        have ht := List.find?_some hget
        rw [hr.step_eq (List.mem_of_find?_eq_some hget) hs
          ((beq_iff_eq.mp ht).trans (hsid.trans hstep).symm)]
  exact ⟨⟨s, hs, i, hi, hfindStep, hfind, hsid, hid⟩, hfind⟩

/-- Past the deadline the public request does not turn to the provider. -/
def Late (e : Executor) (r : RunRecord) (now : Instant) (p : Bool × RunRecord) : Prop :=
  e.kind = .request → r.run.state = .running → r.run.runDeadline ≤ now →
    p.1 = false ∧ p.2.run.state ≠ .failed

theorem claimSynthesis_late {now : Instant} : Ensures (claimSynthesis r now) (Late e r now) := by
  unfold claimSynthesis
  refine .ite (fun h => Ensures.ok_iff.mpr fun _ hrun => absurd hrun h) fun _ => ?_
  refine .ite (fun h => Ensures.ok_iff.mpr fun _ _ hlate => absurd h (not_lt.mpr hlate))
    fun _ => ?_
  refine (transitionRun_kept r _ _ .expired _ _).bind fun r' h => Ensures.pure_iff.mpr ?_
  intro _ _ _
  exact ⟨rfl, by rw [h.1]; nofun⟩

theorem startOp_begins {valid : Bool} {now : Instant} :
    Ensures (e.startOp valid now r) fun p => Begins none r p ∧ Late e r now p := by
  unfold Executor.startOp
  cases hagent : e.synthesises with
  | none => exact .error _
  | some a =>
      cases a with
      | research => exact claimSynthesis_begins.and claimSynthesis_late
      | curator => exact claimSynthesis_begins.and claimSynthesis_late
      | dailyBrief =>
          refine (beginDailyBrief_begins _).mono fun p h => ⟨h, fun hkind => ?_⟩
          rcases synthesises_of_request hkind hagent with h | h <;> cases h
      | projectWatch =>
          refine (beginProjectWatch_begins _).mono fun p h => ⟨h, fun hkind => ?_⟩
          rcases synthesises_of_request hkind hagent with h | h <;> cases h

theorem persistOp_stores {w : World} {q : Synthesis} {now : Instant} :
    Ensures (e.persistOp w q now r) fun p => Stores r p.2 ∧ e.kind ≠ .recovery := by
  have hkind : ∀ a, e.synthesises = some a → e.kind ≠ .recovery := by
    intro a ha hk
    unfold Executor.synthesises at ha
    rw [hk] at ha
    simp at ha
  unfold Executor.persistOp
  split
  · next h =>
      exact (persistResearchResult_stores _ _ _ _).bind fun _ h' =>
        Ensures.pure_iff.mpr ⟨h', hkind _ h⟩
  · next h =>
      exact (persistCuratorResult_stores _ _ _ _ _ _ _).bind fun _ h' =>
        Ensures.pure_iff.mpr ⟨h', hkind _ h⟩
  · next h =>
      exact (persistDailyBriefResult_stores _ _ _ _ _ _).bind fun _ h' =>
        Ensures.pure_iff.mpr ⟨h', hkind _ h⟩
  · next h =>
      exact (persistProjectWatchResult_stores _ _ _ _).bind fun _ h' =>
        Ensures.pure_iff.mpr ⟨h', hkind _ h⟩
  · exact .error _

theorem failOp_work {code : String} {now : Instant} :
    Ensures (alone (failResult · code now) r) fun p => Work none r p.2 :=
  Ensures.answer (failResult_work code)

theorem completeOp_work {now : Instant} :
    Ensures (e.completeOp now r) fun p => Work none r p.2 :=
  Ensures.answer (completeRun_work _ _)

/-- A step of a fenced executor keeps the invariant. -/
theorem Inv.execStep (h : Inv s) (he : s.executors[pid]? = some e)
    (hok : ∀ r, s.runs.get e.runId = some r →
      (l.transacts = true → (r.run.state.isTerminal || (e.cacheFor l).current r) = true) ∧
        ∀ n valid now, l = .startSynthesis n valid now → s.oversteps pid e l r = false)
    (hmove : ExecMove s pid e l s') : Inv s' := by
  obtain ⟨r, hr⟩ := Option.isSome_iff_exists.mp (h.known pid e he)
  have hfin := (h.rows _ r hr).2
  have hfit := h.fits pid e r he hr
  obtain ⟨hcurrent, hstep⟩ := hok r hr
  have same : ∀ {r₁ : RunRecord}, s.runs.get e.runId = some r₁ → r = r₁ := fun h₁ =>
    Option.some.inj (hr.symm.trans h₁)
  have put : ∀ {α : Type} {op : RunRecord → Except Fault (α × RunRecord)} {a : α}
      {r' : RunRecord} {e' : Executor}, s.Ran e l op r a r' → e'.runId = e.runId →
      Moves s pid (some e') e.runId r' (s.advance pid r' e') := fun hran hown =>
    moves_advance hr (transact_id hran.committed) hown
  cases hmove with
  | @claimed _ _ _ _ r' claim hphase hcopy hran =>
      obtain rfl := same hran.found
      rcases hran.over_or_ok hfin (hcurrent rfl) (fun _ => evolves_of_plain (claimExecution_routine .plain _ _))
        (fun _ => (claimExecution_work (k := none) _ _).mono fun _ h => h.1.results) with
        ⟨hover, -⟩ | ⟨-, hop⟩
      · rw [claimed_running hran] at hover
        cases hover
      · obtain ⟨hwork, hclaim⟩ := claimExecution_work (k := none) _ _ _ hop
        obtain ⟨-, hready, -⟩ := hclaim _ rfl
        refine h.work (put hran rfl) hr hran.finished hwork ?_ ?_ ?_ ?_
        · exact nofun
        · rintro x ⟨⟩
          have hbegun : r'.run.state.isEarly = false := by rw [claimed_running hran]; rfl
          refine ⟨nofun, fun _ => hbegun, fun _ _ m hm => ?_, fun _ hx => ?_, nofun, nofun⟩
          · have hnone := hfit.starting hphase
            rw [show e.last = some m from hm] at hnone
            cases hnone
          · rcases hx with hx | hx <;> cases hx
        · rintro - x ⟨⟩ (hx | hx) <;> cases hx
        · rintro x ⟨⟩ -
          exact .inl (by rw [hready]; rfl)
  | notClaimed hphase hcopy hran =>
      obtain rfl := same hran.found
      rcases hran.over_or_ok hfin (hcurrent rfl) (fun _ => evolves_of_plain (claimExecution_routine .plain _ _))
        (fun _ => (claimExecution_work (k := none) _ _).mono fun _ h => h.1.results) with
        ⟨hover, hresults⟩ | ⟨-, hop⟩
      · exact h.ends (put hran rfl) hr hran.finished (.finished hover hresults) rfl
      · exact h.ends (put hran rfl) hr hran.finished (claimExecution_work _ _ _ hop).1 rfl
  | @reserved _ _ _ _ _ r' next _ hphase hran =>
      obtain rfl := same hran.found
      have hatWork : e.phase.atWork = true := by rw [hphase]; rfl
      rcases hran.over_or_ok hfin (hcurrent rfl) (fun _ => evolves_of_plain (reserveNext_routine .plain _ _ _))
        (fun _ => (reserveNext_work (k := none) _ _ _).mono fun _ h => h.1.results) with
        ⟨hover, hresults⟩ | ⟨hlive, hop⟩
      · exact h.over he (put hran rfl) hr hran.finished hover hresults rfl
          (fun _ => ⟨hatWork, by rw [hphase]; exact nofun⟩) nofun
      · obtain ⟨hwork, hrun', hfresh, i, hi, hid, hstepId, hrunning⟩ :=
          reserveNext_work (k := none) _ _ _ _ hop
        have hrow := running_of_atWork h he hr hatWork hlive
        refine h.work (put hran rfl) hr hran.finished hwork ?_ ?_ ?_ ?_
        · exact nofun
        · rintro x ⟨⟩
          have hbegun : r'.run.state.isEarly = false := not_early hwork (hfit.begun hatWork)
          exact ⟨nofun, fun _ => hbegun, nofun,
            fun _ _ => ⟨_, rfl, i, hi, hid, hstepId, .inl hrunning⟩, nofun, nofun⟩
        · rintro - x ⟨⟩ - m hm
          cases hm
          exact ⟨hrow.running, .inl hfresh⟩
        · rintro x ⟨⟩ ⟨hx, -⟩
          exact .inr ⟨e, he, rfl, ⟨hx, hatWork⟩, by rw [hphase]; exact nofun⟩
  | @drained _ _ _ _ _ r' _ hphase hran =>
      obtain rfl := same hran.found
      have hatWork : e.phase.atWork = true := by rw [hphase]; rfl
      have hfrom : e.phase.atWork = true ∧ e.phase ≠ .completing :=
        ⟨hatWork, by rw [hphase]; exact nofun⟩
      rcases hran.over_or_ok hfin (hcurrent rfl) (fun _ => evolves_of_plain (reserveNext_routine .plain _ _ _))
        (fun _ => (reserveNext_work (k := none) _ _ _).mono fun _ h => h.1.results) with
        ⟨hover, hresults⟩ | ⟨hlive, hop⟩
      · exact h.over he (put hran rfl) hr hran.finished hover hresults rfl (fun _ => hfrom)
          nofun
      · obtain ⟨hwork, hclosed⟩ := reserveNext_work (k := none) _ _ _ _ hop
        have hrow := running_of_atWork h he hr hatWork hlive
        refine h.works he (put hran rfl) hr hran.finished hwork ?_ rfl ?_ fun _ => hfrom
        · refine .moved nofun (not_early hwork (hfit.begun hatWork)) nofun
            (fun h => h.elim nofun nofun) (fun hrun _ => .inr ?_) nofun
          obtain ⟨hsame, hnone⟩ := hclosed hrun
          have hsame : r' = r := hsame
          exact hsame ▸ hrow.allSucceeded_of_closed hnone
        · exact fun h => h.elim nofun nofun
  | reloaded hphase =>
      have hcall : e.inCall := .inl hphase
      have hatWork : e.phase.atWork = true := by rw [hphase]; rfl
      refine h.work (moves_settle hr rfl) hr hfin (.refl none r) nofun ?_ ?_ ?_
      · rintro x ⟨⟩
        exact ⟨nofun, fun _ => hfit.begun hatWork, nofun,
          fun hrun _ => hfit.calling hrun hcall, nofun, nofun⟩
      · rintro hrun x ⟨⟩ - m hm
        exact ⟨hrun, .inr ⟨e, he, rfl, hcall, hm⟩⟩
      · rintro x ⟨⟩ ⟨hx, -⟩
        exact .inr ⟨e, he, rfl, ⟨hx, hatWork⟩, by rw [hphase]; nofun⟩
  | @finalized _ output _ _ _ last _ r' goOn found _ hphase hanswer hlast hran =>
      obtain rfl := same hran.found
      have hcall : e.inCall := by
        rw [Executor.inCall, hphase, Executor.finalizesFrom]
        split
        · exact .inl rfl
        · exact .inr rfl
      have hfrom : e.phase.atWork = true ∧ e.phase ≠ .completing := by
        rcases hcall with hcall | hcall <;> rw [hcall] <;> exact ⟨rfl, nofun⟩
      rcases hran.over_or_ok hfin (hcurrent rfl)
          (fun _ => evolves_of_plain (finalizeInvocation_routine .plain _ _ _ _ _))
        (fun _ => finalizeInvocation_results _ _ _ _ _) with ⟨hover, hresults⟩ | ⟨hlive, hop⟩
      · refine h.over he (put hran rfl) hr hran.finished hover hresults rfl (fun _ => hfrom) ?_
        cases goOn <;> nofun
      · have hrow := running_of_atWork h he hr hfrom.1 hlive
        obtain ⟨l, hl, i, hi, hid, hstepId, hstatus⟩ := hfit.calling hrow.running hcall
        obtain rfl : last = l := Option.some.inj (hlast.symm.trans hl)
        obtain ⟨hnames, hget⟩ := names_of_inCall hrow hi hid hstepId
        obtain ⟨hwork, hquits, hgoes⟩ :=
          finalizeInvocation_work hrow.running hnames hanswer _ hop
        have hbegun : r'.run.state.isEarly = false := not_early hwork (hfit.begun hfrom.1)
        have hidle : ¬ ({ e.absorb output found with
            phase := if goOn then Phase.reserving else .left } : Executor).inCall := by
          cases goOn <;> exact fun h => h.elim nofun nofun
        refine h.work (put hran rfl) hr hran.finished hwork ?_ ?_ ?_ ?_
        · rintro inv ⟨⟩ -
          exact ⟨last, rfl, hrow.running, .inr ⟨e, he, rfl, hcall, hlast⟩⟩
        · rintro x ⟨⟩
          cases goOn with
          | true =>
              -- the invocation was running, so it had not been given up
              obtain ⟨⟨hunmarked, j, hj, hjid, hidle⟩, i', hi', hrunning⟩ := hgoes rfl
              rw [hget, Option.some.injEq] at hi'
              subst hi'
              have hkept : r.reconciled last.invocationId = false := by
                by_contra hrec
                obtain ⟨k, hk, hkid, hquiet⟩ := hrow.known _ (by simpa using hrec)
                rw [hrow.invocation_eq hk hi (hkid.trans hid.symm), hrunning] at hquiet
                cases hquiet
              refine ⟨nofun, fun _ => hbegun, fun _ _ m hm => ?_, fun _ h => h.elim nofun nofun,
                nofun, nofun⟩
              obtain rfl : last = m := Option.some.inj (hlast.symm.trans hm)
              exact ⟨by rw [hunmarked.reconciled]; exact hkept, j, hj, hjid, hidle⟩
          | false =>
              refine .moved nofun hbegun nofun hidle (fun hrun _ => .inl ?_) nofun
              rcases hquits rfl with hover | ⟨hsame, hgone⟩
              · rw [hrun] at hover
                cases hover
              · have hrec := hstatus.resolve_left (hgone i hget)
                have hsame : r' = r := hsame
                exact Executor.superseded_iff.mpr ⟨last, hlast, by rwa [hsame, ← hid]⟩
        · rintro - x ⟨⟩ hx
          exact absurd hx hidle
        · rintro x ⟨⟩ ⟨hx, -⟩
          exact .inr ⟨e, he, rfl, ⟨hx, hfrom.1⟩, hfrom.2⟩
  | @started _ _ _ _ r' active _ hphase hagent hran =>
      obtain rfl := same hran.found
      have hfrom : e.phase.atWork = true ∧ e.phase ≠ .completing := by
        rw [hphase]; exact ⟨rfl, nofun⟩
      rcases hran.over_or_ok hfin (hcurrent rfl) (fun _ => evolves_of_plain (startOp_routine .plain))
        (fun _ => startOp_begins.mono fun _ h => h.1.1.results) with
        ⟨hover, hresults⟩ | ⟨hlive, hop⟩
      · refine h.over he (put hran rfl) hr hran.finished hover hresults rfl (fun _ => hfrom) ?_
        cases active <;> nofun
      · obtain ⟨⟨hwork, hactive⟩, hlate⟩ := startOp_begins _ hop
        have hbegun : r'.run.state.isEarly = false := not_early hwork (hfit.begun hfrom.1)
        refine h.works he (put hran rfl) hr hran.finished hwork ?_ rfl ?_ fun _ => hfrom
        · cases active with
          | false => exact .moved nofun hbegun nofun (fun h => h.elim nofun nofun) nofun nofun
          | true =>
              refine .moved nofun hbegun nofun (fun h => h.elim nofun nofun) nofun
                fun hrun _ => ?_
              obtain ⟨hsame, hrun⟩ := hactive rfl
              obtain rfl : r' = r := hsame
              have hmine : e.superseded r' = false := by
                by_contra hlost
                rw [Bool.not_eq_false] at hlost
                obtain ⟨hkind, hdeadline⟩ := oversteps_startSynthesis hlost hrun (hstep _ _ _ rfl)
                cases (hlate hkind hrun hdeadline).1
              refine ⟨hmine, (hfit.left hrun hphase).resolve_left ?_⟩
              rw [hmine]
              nofun
        · cases active <;> exact fun h => h.elim nofun nofun
  | unanswered hphase | refused hphase =>
      have hfrom : e.phase.atWork = true ∧ e.phase ≠ .completing := by
        rw [hphase]; exact ⟨rfl, nofun⟩
      refine h.works he (moves_settle hr rfl) hr hfin (.refl none r) ?_ rfl
        (fun h => h.elim nofun nofun) fun _ => hfrom
      exact .moved nofun (hfit.begun hfrom.1) nofun (fun h => h.elim nofun nofun) nofun
        fun hrun _ => hfit.asked hrun (by rw [hphase]; rfl)
  | persisted hphase hran =>
      obtain rfl := same hran.found
      have hop := (transact_coherent (Cache.empty_seen r)
        ((evolves_of_files persistOp_files).mono fun _ h => h.id_eq) hran.committed).1
      obtain ⟨hstores, hkind⟩ := persistOp_stores _ hop
      exact h.store (put hran rfl) hr hran.finished hstores he rfl
        ⟨hkind, by rw [hphase]; rfl⟩ (by rw [hphase]; nofun) rfl
  | failed hphase hran =>
      obtain rfl := same hran.found
      have hfrom : e.phase.atWork = true ∧ e.phase ≠ .completing := by
        rw [hphase]; exact ⟨rfl, nofun⟩
      rcases hran.over_or_ok hfin (hcurrent rfl) (fun _ => evolves_of_plain (alone_ensures (failResult_routine .plain _)))
        (fun _ => failOp_work.mono fun _ h => h.results) with ⟨hover, hresults⟩ | ⟨hlive, hop⟩
      · exact h.over he (put hran rfl) hr hran.finished hover hresults rfl (fun _ => hfrom) nofun
      · have hwork := failOp_work _ hop
        refine h.works he (put hran rfl) hr hran.finished hwork ?_ rfl
          (fun h => h.elim nofun nofun) fun _ => hfrom
        exact .moved nofun (not_early hwork (hfit.begun hfrom.1)) nofun
          (fun h => h.elim nofun nofun) nofun nofun
  | completed hphase hran =>
      obtain rfl := same hran.found
      rcases hran.over_or_ok hfin (hcurrent rfl) (fun _ => evolves_of_plain (completeOp_routine .plain))
        (fun _ => completeOp_work.mono fun _ h => h.results) with ⟨hover, hresults⟩ | ⟨-, hop⟩
      · exact h.ends (put hran rfl) hr hran.finished (.finished hover hresults) rfl
      · exact h.ends (put hran rfl) hr hran.finished (completeOp_work _ hop) rfl
  | ended hdone hown => exact h.ends (moves_settle hr hown) hr hfin (.refl none r) hdone

end Executors

end Runtime

end SecondBrain
