import Mathlib.Data.List.TakeWhile
import SecondBrain.Knowledge.Ingestion

/-!
# What the chunks of a text are

The windows of a text start a fixed stride apart, and the last is the first that
reaches the end. The loop goes through them in this order and numbers those that
are not blank (`chunksFrom_windows`), so the chunks can be told from the windows,
without the loop: a character that is no blank is in a window, and that window is
a chunk.
-/

namespace SecondBrain

open Lib

namespace Knowledge

open Calendar (strip isSpace)

variable {sha256 : Sha256} {text : String} {size overlap : Nat}

/-! ## Blanks -/

theorem strip_eq_empty {s : String} : strip s = "" ↔ ∀ c ∈ s.toList, isSpace c = true := by
  have hempty : strip s = "" ↔
      (s.toList.dropWhile isSpace).reverse.dropWhile isSpace = [] := by
    unfold strip
    constructor
    · intro h
      have h := congrArg String.toList h
      rw [String.toList_ofList] at h
      exact List.reverse_eq_nil_iff.mp h
    · intro h
      rw [h]
      rfl
  rw [hempty, List.dropWhile_eq_nil_iff]
  constructor
  · intro h
    cases hrest : s.toList.dropWhile isSpace with
    | nil => exact List.dropWhile_eq_nil_iff.mp hrest
    | cons c rest =>
        have hc : isSpace c = false := by
          have hhead := List.head_dropWhile_not isSpace (l := s.toList) (by rw [hrest]; simp)
          simpa [hrest] using hhead
        have hblank := h c (by rw [hrest]; simp)
        rw [hc] at hblank
        cases hblank
  · intro h c hc
    exact h c ((List.dropWhile_suffix isSpace).subset (List.mem_reverse.mp hc))

theorem length_slice {start stop : Nat} (h : stop ≤ text.length) :
    (slice text start stop).length = stop - start := by
  rw [slice, String.length_ofList, List.length_take, List.length_drop, String.length_toList]
  omega

/-- A character between the two offsets is in the slice. -/
theorem mem_slice {start stop i : Nat} {c : Char} (h : start ≤ i ∧ i < stop)
    (hc : text.toList[i]? = some c) : c ∈ (slice text start stop).toList := by
  rw [slice, String.toList_ofList]
  refine List.mem_of_getElem? (i := i - start) ?_
  rw [List.getElem?_take_of_lt (by omega), List.getElem?_drop,
    show start + (i - start) = i by omega]
  exact hc

/-! ## Windows -/

/-- How many windows a text of this length has. -/
def windowCount (length size overlap : Nat) : Nat :=
  if length = 0 then 0 else (length - size + (size - overlap) - 1) / (size - overlap) + 1

/-- Where the `k`-th window starts and stops. -/
def window (length size overlap k : Nat) : Nat × Nat :=
  (k * (size - overlap), min (k * (size - overlap) + size) length)

/-- The windows from the `k`-th on. -/
def windowsFrom (length size overlap k : Nat) : List (Nat × Nat) :=
  (List.range' k (windowCount length size overlap - k)).map (window length size overlap)

def isBlank (text : String) (w : Nat × Nat) : Bool := decide (strip (slice text w.1 w.2) = "")

/-- The windows of a text that are not blank. -/
def filledWindows (text : String) (size overlap : Nat) : List (Nat × Nat) :=
  (windowsFrom text.length size overlap 0).filter fun w => !isBlank text w

/-- The chunks of these windows, numbered from `n` on. -/
def windowChunks (sha256 : Sha256) (text : String) (ws : List (Nat × Nat)) (n : Nat) :
    List TextChunk :=
  (ws.zipIdx n).map fun (w, index) => windowChunk sha256 text w.1 w.2 index

theorem lt_windowCount {length k : Nat} (h : overlap < size) :
    k + 1 < windowCount length size overlap ↔ k * (size - overlap) + size < length := by
  unfold windowCount
  split
  · omega
  · obtain ⟨stride, hstride⟩ : ∃ stride, size - overlap = stride := ⟨_, rfl⟩
    rw [hstride, Nat.succ_lt_succ_iff, Nat.lt_iff_add_one_le,
      Nat.le_div_iff_mul_le (by omega : 0 < stride), Nat.add_one_mul]
    omega

theorem windowCount_pos {length : Nat} : 0 < windowCount length size overlap ↔ 0 < length := by
  unfold windowCount
  split
  · omega
  · exact iff_of_true (Nat.succ_pos _) (by omega)

/-- Every window starts inside the text. -/
theorem window_start {length k : Nat} (h : overlap < size)
    (hk : k < windowCount length size overlap) : k * (size - overlap) < length := by
  cases k with
  | zero =>
      have hpos := windowCount_pos.mp hk
      omega
  | succ k =>
      have hlast := (lt_windowCount h).mp hk
      rw [Nat.add_one_mul]
      omega

theorem windowCount_le {length : Nat} (h : overlap < size) :
    windowCount length size overlap ≤ length := by
  cases hcount : windowCount length size overlap with
  | zero => exact Nat.zero_le _
  | succ n =>
    have hstart := @window_start _ _ length n h (by omega)
    have hgrows : n * 1 ≤ n * (size - overlap) := Nat.mul_le_mul_left n (by omega)
    omega

theorem windowsFrom_cons {length k : Nat} (hk : k < windowCount length size overlap) :
    windowsFrom length size overlap k =
      window length size overlap k :: windowsFrom length size overlap (k + 1) := by
  unfold windowsFrom
  rw [show windowCount length size overlap - k =
    windowCount length size overlap - (k + 1) + 1 by omega, List.range'_succ, List.map_cons]

theorem windowsFrom_end {length k : Nat} (hk : windowCount length size overlap ≤ k) :
    windowsFrom length size overlap k = [] := by
  unfold windowsFrom
  rw [show windowCount length size overlap - k = 0 by omega]
  rfl

/-! ## The loop -/

/-- The loop from the `k`-th window on, with the chunks there are. -/
theorem chunksFrom_windows (h : overlap < size) {rounds k : Nat} {chunks : List TextChunk}
    (hrounds : windowCount text.length size overlap - k ≤ rounds)
    (hk : k < windowCount text.length size overlap) (hchunks : chunks.length ≤ maxChunks) :
    chunksFrom sha256 text size overlap rounds (k * (size - overlap)) chunks =
      let filled := (windowsFrom text.length size overlap k).filter fun w => !isBlank text w
      if maxChunks < chunks.length + filled.length then
        .error "text produces more than 10000 chunks"
      else .ok (chunks ++ windowChunks sha256 text filled chunks.length) := by
  induction rounds generalizing k chunks with
  | zero => omega
  | succ rounds ih =>
      have hstart := window_start h hk
      rw [chunksFrom, if_neg (by omega), windowsFrom_cons hk, List.filter_cons]
      generalize hstop : min (k * (size - overlap) + size) text.length = stop
      have hwindow : window text.length size overlap k = (k * (size - overlap), stop) := by
        rw [window, hstop]
      -- what the loop does after this window, with the chunks there are then
      have hrest : ∀ cs : List TextChunk, cs.length ≤ maxChunks →
          (if stop = text.length then .ok cs
            else if stop - overlap ≤ k * (size - overlap) then
              .error "chunk settings do not permit forward progress"
            else chunksFrom sha256 text size overlap rounds (stop - overlap) cs) =
          let filled := (windowsFrom text.length size overlap (k + 1)).filter
            fun w => !isBlank text w
          if maxChunks < cs.length + filled.length then
            .error "text produces more than 10000 chunks"
          else .ok (cs ++ windowChunks sha256 text filled cs.length) := by
        intro cs hcs
        by_cases hlast : k + 1 < windowCount text.length size overlap
        · have hinside := (lt_windowCount h).mp hlast
          have hnext : stop - overlap = (k + 1) * (size - overlap) := by
            rw [Nat.add_one_mul]
            omega
          rw [Nat.add_one_mul] at hnext
          rw [if_neg (by omega), if_neg (by omega), hnext, ← Nat.add_one_mul]
          exact ih (by omega) hlast hcs
        · have houtside : ¬ k * (size - overlap) + size < text.length :=
            fun hin => hlast ((lt_windowCount h).mpr hin)
          rw [if_pos (by omega), windowsFrom_end (by omega)]
          have hroom : ¬ maxChunks < cs.length := by omega
          simp [hroom, windowChunks]
      simp only [hwindow]
      by_cases hblank : strip (slice text (k * (size - overlap)) stop) = ""
      · have hskip : isBlank text (k * (size - overlap), stop) = true := decide_eq_true hblank
        rw [if_neg (fun hfull => hfull.1 hblank), hskip]
        simp only [if_pos hblank]
        exact hrest chunks hchunks
      · have hkeep : isBlank text (k * (size - overlap), stop) = false := decide_eq_false hblank
        rw [hkeep]
        simp only [if_neg hblank]
        by_cases hfull : maxChunks ≤ chunks.length
        · rw [if_pos ⟨hblank, hfull⟩]
          exact (if_pos (by simp; omega)).symm
        · have hlonger : (chunks ++ [windowChunk sha256 text (k * (size - overlap)) stop
              chunks.length]).length = chunks.length + 1 := List.length_append
          rw [if_neg (fun hboth => hfull hboth.2), hrest _ (by omega), hlonger]
          simp [windowChunks, Nat.add_assoc, Nat.add_comm 1]

/-- The loop ends in as many rounds as there are characters, and what it ends with. -/
theorem chunksFrom_eq (h : overlap < size) {rounds : Nat} (hrounds : text.length ≤ rounds) :
    chunksFrom sha256 text size overlap rounds 0 [] =
      if maxChunks < (filledWindows text size overlap).length then
        .error "text produces more than 10000 chunks"
      else .ok (windowChunks sha256 text (filledWindows text size overlap) 0) := by
  have hcount : windowCount text.length size overlap ≤ text.length := windowCount_le h
  by_cases hpos : 0 < windowCount text.length size overlap
  · have hloop := @chunksFrom_windows sha256 text _ _ h rounds 0 [] (by omega) hpos
      (Nat.zero_le _)
    rw [Nat.zero_mul] at hloop
    simp only [List.length_nil, Nat.zero_add, List.nil_append] at hloop
    exact hloop
  · have hlength : text.length = 0 := by
      have hnone : ¬ 0 < text.length := fun hin => hpos (windowCount_pos.mpr hin)
      omega
    have hnone : filledWindows text size overlap = [] := by
      unfold filledWindows
      rw [windowsFrom_end (by omega)]
      rfl
    rw [hnone]
    cases rounds with
    | zero => rfl
    | succ rounds =>
        rw [chunksFrom, if_pos (by omega)]
        rfl

/-! ## Chunks -/

theorem mem_filledWindows {w : Nat × Nat} :
    w ∈ filledWindows text size overlap ↔ isBlank text w = false ∧
      ∃ k < windowCount text.length size overlap, w = window text.length size overlap k := by
  unfold filledWindows windowsFrom
  rw [List.mem_filter, List.mem_map, Bool.not_eq_true', Nat.sub_zero]
  simp only [List.mem_range'_1, Nat.zero_le, true_and, Nat.zero_add]
  constructor
  · rintro ⟨⟨k, hk, rfl⟩, hblank⟩
    exact ⟨hblank, k, hk, rfl⟩
  · rintro ⟨hblank, k, hk, rfl⟩
    exact ⟨⟨k, hk, rfl⟩, hblank⟩

/-- A character is in a window. -/
theorem exists_window (h : overlap < size) {length i : Nat} (hi : i < length) :
    ∃ k < windowCount length size overlap,
      (window length size overlap k).1 ≤ i ∧ i < (window length size overlap k).2 := by
  have hpos : 0 < windowCount length size overlap := windowCount_pos.mpr (by omega)
  have hstride : 0 < size - overlap := by omega
  have hmod := Nat.div_add_mod i (size - overlap)
  have hrest := Nat.mod_lt i hstride
  rw [Nat.mul_comm] at hmod
  by_cases hin : i / (size - overlap) < windowCount length size overlap
  · refine ⟨i / (size - overlap), hin, ?_, ?_⟩
    · show i / (size - overlap) * (size - overlap) ≤ i
      omega
    · show i < min (i / (size - overlap) * (size - overlap) + size) length
      omega
  · obtain ⟨k, hk⟩ : ∃ k, windowCount length size overlap = k + 1 :=
      ⟨windowCount length size overlap - 1, by omega⟩
    have hlast : ¬ k * (size - overlap) + size < length := fun hbefore => by
      have hmore := (lt_windowCount h).mpr hbefore
      omega
    have hle : k * (size - overlap) ≤ i / (size - overlap) * (size - overlap) :=
      Nat.mul_le_mul_right _ (by omega)
    refine ⟨k, by omega, ?_, ?_⟩
    · show k * (size - overlap) ≤ i
      omega
    · show i < min (k * (size - overlap) + size) length
      omega

/-- The chunks cut the text up: numbered, exact, bounded and not blank, and no
character but a blank is left out. -/
structure Cuts (text : String) (size : Nat) (chunks : List TextChunk) : Prop where
  numbered : chunks.map (·.chunkIndex) = List.range chunks.length
  exact : ∀ c ∈ chunks, c.charStart < c.charEnd ∧ c.charEnd ≤ text.length ∧
    c.content = slice text c.charStart c.charEnd
  bounded : ∀ c ∈ chunks, c.content.length ≤ size
  filled : ∀ c ∈ chunks, ∃ x ∈ c.content.toList, isSpace x = false
  increasing : chunks.Pairwise fun a b => a.charStart < b.charStart
  covered : ∀ i x, text.toList[i]? = some x → isSpace x = false →
    ∃ c ∈ chunks, c.charStart ≤ i ∧ i < c.charEnd

theorem mem_windowChunks {ws : List (Nat × Nat)} {n : Nat} {c : TextChunk}
    (hc : c ∈ windowChunks sha256 text ws n) :
    ∃ w ∈ ws, ∃ index, c = windowChunk sha256 text w.1 w.2 index := by
  obtain ⟨⟨w, index⟩, hw, rfl⟩ := List.mem_map.mp hc
  exact ⟨w, List.fst_mem_of_mem_zipIdx hw, index, rfl⟩

theorem exists_nonblank {s : String} (h : strip s ≠ "") : ∃ x ∈ s.toList, isSpace x = false := by
  by_contra hnone
  refine h (strip_eq_empty.mpr fun c hc => ?_)
  by_contra hspace
  exact hnone ⟨c, hc, by simpa using hspace⟩

theorem windowChunks_cut (h : overlap < size) :
    Cuts text size (windowChunks sha256 text (filledWindows text size overlap) 0) := by
  have hchunk : ∀ c ∈ windowChunks sha256 text (filledWindows text size overlap) 0,
      ∃ k < windowCount text.length size overlap, isBlank text (window text.length size overlap k) =
        false ∧ ∃ index, c = windowChunk sha256 text (k * (size - overlap))
          (min (k * (size - overlap) + size) text.length) index := by
    intro c hc
    obtain ⟨w, hw, index, rfl⟩ := mem_windowChunks hc
    obtain ⟨hblank, k, hk, rfl⟩ := mem_filledWindows.mp hw
    exact ⟨k, hk, hblank, index, rfl⟩
  refine ⟨?_, fun c hc => ?_, fun c hc => ?_, fun c hc => ?_, ?_, fun i x hx hspace => ?_⟩
  · unfold windowChunks
    rw [List.map_map, List.length_map, List.length_zipIdx, List.range_eq_range',
      ← List.zipIdx_map_snd 0]
    rfl
  · obtain ⟨k, hk, -, index, rfl⟩ := hchunk c hc
    have hstart := window_start h hk
    refine ⟨?_, Nat.min_le_right _ _, rfl⟩
    show k * (size - overlap) < min (k * (size - overlap) + size) text.length
    omega
  · obtain ⟨k, -, -, index, rfl⟩ := hchunk c hc
    show (slice text _ _).length ≤ size
    rw [length_slice (Nat.min_le_right _ _)]
    omega
  · obtain ⟨k, -, hblank, index, rfl⟩ := hchunk c hc
    exact exists_nonblank (of_decide_eq_false hblank)
  · unfold windowChunks
    rw [List.pairwise_map]
    have hstarts : (filledWindows text size overlap).Pairwise fun v w => v.1 < w.1 := by
      refine List.Pairwise.filter _ ?_
      unfold windowsFrom
      rw [List.pairwise_map]
      refine (List.pairwise_lt_range' (s := 0)).imp fun {a b} hab => ?_
      show a * (size - overlap) < b * (size - overlap)
      exact Nat.mul_lt_mul_of_pos_right hab (by omega)
    rw [← List.zipIdx_map_fst 0 (filledWindows text size overlap), List.pairwise_map] at hstarts
    exact hstarts
  · obtain ⟨hi, -⟩ := List.getElem?_eq_some_iff.mp hx
    rw [String.length_toList] at hi
    obtain ⟨k, hk, hin⟩ := exists_window h hi
    have hblank : isBlank text (window text.length size overlap k) = false := by
      refine decide_eq_false fun hblank => ?_
      have hspaces := strip_eq_empty.mp hblank x (mem_slice hin hx)
      rw [hspace] at hspaces
      cases hspaces
    have hmem := mem_filledWindows.mpr ⟨hblank, k, hk, rfl⟩
    obtain ⟨n, hn⟩ := List.mem_iff_getElem?.mp hmem
    have hindexed : (window text.length size overlap k, n) ∈
        (filledWindows text size overlap).zipIdx 0 := by
      rw [List.mem_zipIdx_iff_getElem?]
      exact hn
    exact ⟨_, List.mem_map.mpr ⟨_, hindexed, rfl⟩, hin⟩

/-! ## `chunk_text` -/

theorem chunkText_eq (h : overlap < size) :
    chunkText sha256 text size overlap =
      if maxChunks < (filledWindows text size overlap).length then
        .error "text produces more than 10000 chunks"
      else if filledWindows text size overlap = [] then
        .error "text must contain a non-whitespace character"
      else .ok (windowChunks sha256 text (filledWindows text size overlap) 0) := by
  unfold chunkText
  rw [if_neg (by omega), chunksFrom_eq h (Nat.le_refl _)]
  by_cases hmany : maxChunks < (filledWindows text size overlap).length
  · rw [if_pos hmany, if_pos hmany]
  · rw [if_neg hmany, if_neg hmany]
    cases filledWindows text size overlap with
    | nil => rfl
    | cons w ws =>
        rw [if_neg (List.cons_ne_nil w ws)]
        rfl

theorem filledWindows_eq_nil (h : overlap < size) :
    filledWindows text size overlap = [] ↔ ∀ c ∈ text.toList, isSpace c = true := by
  constructor
  · intro hnone c hc
    by_contra hspace
    obtain ⟨i, hi⟩ := List.mem_iff_getElem?.mp hc
    obtain ⟨chunk, hchunk, -⟩ := (@windowChunks_cut id text _ _ h).covered i c hi
      (by simpa using hspace)
    rw [hnone] at hchunk
    cases hchunk
  · intro hall
    rw [List.eq_nil_iff_forall_not_mem]
    intro w hw
    obtain ⟨hblank, -⟩ := mem_filledWindows.mp hw
    obtain ⟨x, hx, hspace⟩ := exists_nonblank (of_decide_eq_false hblank)
    rw [slice, String.toList_ofList] at hx
    rw [hall x (List.mem_of_mem_drop (List.mem_of_mem_take hx))] at hspace
    cases hspace

/-- The loop ends after no more rounds than the text has characters, it raises exactly
where there is nothing or too much to cut, and else what it returns cuts the text up. -/
theorem chunkText_cuts (sha256 : Sha256) (text : String) (h : overlap < size) :
    (∀ rounds, text.length ≤ rounds → chunksFrom sha256 text size overlap rounds 0 [] =
      chunksFrom sha256 text size overlap text.length 0 []) ∧
    ((∃ message, chunkText sha256 text size overlap = .error message) ↔
      (∀ c ∈ text.toList, isSpace c = true) ∨
        maxChunks < (filledWindows text size overlap).length) ∧
    ∀ chunks, chunkText sha256 text size overlap = .ok chunks → Cuts text size chunks := by
  refine ⟨fun rounds hrounds => ?_, ?_, fun chunks hchunks => ?_⟩
  · rw [chunksFrom_eq h hrounds, chunksFrom_eq h (Nat.le_refl _)]
  · rw [chunkText_eq h, ← filledWindows_eq_nil h]
    split
    · next hmany => simp [hmany]
    · next hfew =>
        split
        · next hnone => simp [hnone]
        · next hsome => simp [hfew, hsome]
  · rw [chunkText_eq h] at hchunks
    split at hchunks
    · cases hchunks
    · split at hchunks
      · cases hchunks
      · cases hchunks
        exact windowChunks_cut h

/-- A text whose second window is blank has two chunks. -/
theorem chunkText_cuts_sample : ∃ chunks, chunkText id "ab    c" 3 1 = .ok chunks ∧
    Cuts "ab    c" 3 chunks := by
  have hok : (chunkText id "ab    c" 3 1).toOption.isSome = true := by decide +kernel
  obtain ⟨chunks, hchunks⟩ := Option.isSome_iff_exists.mp hok
  cases hresult : chunkText id "ab    c" 3 1 with
  | error message =>
      rw [hresult] at hchunks
      cases hchunks
  | ok found =>
      exact ⟨found, rfl, (chunkText_cuts id "ab    c" (by decide)).2.2 found hresult⟩

end Knowledge

end SecondBrain
