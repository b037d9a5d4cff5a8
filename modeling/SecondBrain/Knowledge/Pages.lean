import Mathlib.Data.List.Chain
import SecondBrain.Knowledge.Chunking

/-!
# Pages

The texts of the pages of a PDF are joined with two line ends between them, and where
each of them is in the joined text is counted along. A chunk is located by the pages
whose own text it overlaps, so one that lies in separators or in blank pages has no
locator.
-/

namespace SecondBrain

open Lib

namespace Knowledge

open Calendar (strip)

/-! ## Extraction -/

/-- Where the text of a page is in the joined text. -/
structure PageRange where
  pageNumber : Nat
  start : Nat
  stop : Nat
deriving DecidableEq

inductive DocumentFault where
  | tooLarge
  | unsupportedType
  | extraction (message : String)
  | noExtractableText
deriving DecidableEq, Repr

structure ExtractedDocument where
  text : String
  mediaType : String
  originalFilename : String
  byteSize : Nat
  pageRanges : List PageRange := []

/-- A file as a PDF reader shows it. -/
structure PdfFile where
  isEncrypted : Bool
  /-- What `extract_text` gives for each page. -/
  pages : List (Option String)

/-- `MAX_PDF_PAGES`. -/
def maxPdfPages : Nat := 1000

/-- `MAX_EXTRACTED_BYTES`. -/
def maxExtractedBytes : Nat := 5000000

/-- `_check_extracted_size`. -/
def checkExtractedSize (text : String) : Except DocumentFault Unit :=
  if maxExtractedBytes < text.utf8ByteSize then .error .tooLarge
  else if strip text = "" then .error .noExtractableText
  else .ok ()

def pageText (page : Option String) : String := normalizePlainText (page.getD "")

/-- The loop over the pages, from this page number and this cursor on. -/
def pageRangesFrom (count : Nat) : Nat → Nat → List String → List PageRange
  | _, _, [] => []
  | number, cursor, text :: rest =>
      { pageNumber := number, start := cursor, stop := cursor + text.length } ::
        pageRangesFrom count (number + 1)
          (cursor + text.length + if number < count then 2 else 0) rest

def pageRanges (texts : List String) : List PageRange := pageRangesFrom texts.length 1 0 texts

/-- `"\n\n".join(texts)`. -/
def joinPages : List String → String
  | [] => ""
  | [text] => text
  | text :: rest => text ++ "\n\n" ++ joinPages rest

/-- `_extract_pdf`. Nothing stands for a file that cannot be read. -/
def extractPdf (file : Option PdfFile) (filename : String) (byteSize : Nat) :
    Except DocumentFault ExtractedDocument :=
  match file with
  | none => .error (.extraction "PDF extraction failed")
  | some file =>
      if file.isEncrypted then .error (.extraction "encrypted PDF")
      else if maxPdfPages < file.pages.length then
        .error (.extraction "PDF page limit exceeded")
      else do
        let texts := file.pages.map pageText
        checkExtractedSize (joinPages texts)
        return {
          text := joinPages texts
          mediaType := "application/pdf"
          originalFilename := filename
          byteSize := byteSize
          pageRanges := pageRanges texts }

/-! ## Locators -/

/-- Whether the text of the page and the chunk have a character in common. -/
def PageRange.overlaps (page : PageRange) (chunk : TextChunk) : Bool :=
  decide (max chunk.charStart page.start < min chunk.charEnd page.stop)

def pageLocator : List Nat → Option String
  | [] => none
  | [page] => some ("page " ++ toString page)
  | page :: rest => some ("pages " ++ toString page ++ "-" ++ toString (rest.getLastD page))

/-- `assign_page_locators`. -/
def assignPageLocators (chunks : List TextChunk) (ranges : List PageRange) : List TextChunk :=
  chunks.map fun chunk =>
    { chunk with
      locator := pageLocator ((ranges.filter (·.overlaps chunk)).map (·.pageNumber)) }

/-! ## What the ranges are -/

variable {text : String} {texts : List String} {ranges : List PageRange}

/-- The ranges are numbered and each is of the text of its page, and between two of
them is one separator, from the cursor to the end of the text. -/
structure TilesFrom (text : String) (number cursor : Nat) (texts : List String)
    (ranges : List PageRange) : Prop where
  numbered : ranges.map (·.pageNumber) = List.range' number texts.length
  own : List.Forall₂ (fun range own => range.start ≤ range.stop ∧ range.stop ≤ text.length ∧
    slice text range.start range.stop = own) ranges texts
  first : ∀ range ∈ ranges.head?, range.start = cursor
  separated : ranges.IsChain fun a b =>
    b.start = a.stop + 2 ∧ slice text a.stop b.start = "\n\n"
  last : ∀ range ∈ ranges.getLast?, range.stop = text.length

theorem slice_of_drop {own rest : String} {cursor : Nat}
    (h : text.toList.drop cursor = own.toList ++ rest.toList) :
    slice text cursor (cursor + own.length) = own := by
  rw [slice, h, Nat.add_sub_cancel_left, ← String.length_toList, List.take_left]
  exact String.ofList_toList

theorem pageRangesFrom_tiles {count number cursor : Nat}
    (hcount : number + texts.length = count + 1)
    (hcursor : cursor ≤ text.length) (hdrop : text.toList.drop cursor = (joinPages texts).toList) :
    TilesFrom text number cursor texts (pageRangesFrom count number cursor texts) := by
  induction texts generalizing number cursor with
  | nil => exact ⟨rfl, .nil, nofun, .nil, nofun⟩
  | cons own rest ih =>
      have htotal : text.length = cursor + (joinPages (own :: rest)).length := by
        have hlength := congrArg List.length hdrop
        rw [List.length_drop, String.length_toList, String.length_toList] at hlength
        omega
      cases rest with
      | nil =>
          have hlast : text.toList.drop cursor = own.toList ++ "".toList := by
            rw [hdrop]
            simp [joinPages]
          have hown := slice_of_drop hlast
          have hend : cursor + own.length = text.length := htotal.symm
          refine ⟨rfl, .cons ⟨by simp, by simp; omega, hown⟩ .nil, fun r hr => ?_, .singleton _,
            fun r hr => ?_⟩
          · cases hr
            rfl
          · cases hr
            exact hend
      | cons next rest =>
          have hjoin : joinPages (own :: next :: rest) =
              own ++ "\n\n" ++ joinPages (next :: rest) := rfl
          have hlonger : (joinPages (own :: next :: rest)).length =
              own.length + 2 + (joinPages (next :: rest)).length := by
            rw [hjoin, String.length_append, String.length_append]
            rfl
          have hown : slice text cursor (cursor + own.length) = own := by
            refine @slice_of_drop _ own ("\n\n" ++ joinPages (next :: rest)) _ ?_
            rw [hdrop, hjoin]
            simp
          have hgap : text.toList.drop (cursor + own.length) =
              "\n\n".toList ++ (joinPages (next :: rest)).toList := by
            rw [← List.drop_drop, hdrop, hjoin, ← String.length_toList]
            simp
          have hsep : slice text (cursor + own.length) (cursor + own.length + 2) = "\n\n" :=
            @slice_of_drop _ "\n\n" _ _ hgap
          have hrest : text.toList.drop (cursor + own.length + 2) =
              (joinPages (next :: rest)).toList := by
            rw [← List.drop_drop, hgap]
            rfl
          have hcount' : number + 1 + (next :: rest).length = count + 1 := by
            rw [List.length_cons] at hcount
            omega
          have htail := ih hcount' (by omega) hrest
          rw [pageRangesFrom, if_pos (by rw [List.length_cons] at hcount'; omega)]
          refine ⟨?_, ?_, fun r hr => ?_, ?_, fun r hr => ?_⟩
          · rw [List.map_cons, htail.numbered]
            rfl
          · exact .cons ⟨by simp, by simp; omega, hown⟩ htail.own
          · cases hr
            rfl
          · rw [List.isChain_cons]
            refine ⟨fun r hr => ?_, htail.separated⟩
            have hfirst := htail.first r hr
            rw [hfirst]
            exact ⟨rfl, hsep⟩
          · refine htail.last r ?_
            rw [pageRangesFrom, List.getLast?_cons_cons] at hr
            rw [pageRangesFrom]
            exact hr

theorem pageRanges_tile (texts : List String) :
    TilesFrom (joinPages texts) 1 0 texts (pageRanges texts) :=
  pageRangesFrom_tiles (by omega) (Nat.zero_le _) rfl

/-! ## What the locators are -/

/-- A character that is both of the page and of the chunk. -/
def PageRange.Shares (page : PageRange) (chunk : TextChunk) : Prop :=
  ∃ i, (page.start ≤ i ∧ i < page.stop) ∧ chunk.charStart ≤ i ∧ i < chunk.charEnd

theorem PageRange.overlaps_iff {page : PageRange} {chunk : TextChunk} :
    page.overlaps chunk = true ↔ page.Shares chunk := by
  unfold overlaps Shares
  rw [decide_eq_true_eq]
  constructor
  · intro h
    exact ⟨max chunk.charStart page.start, by omega, by omega⟩
  · rintro ⟨i, hpage, hchunk⟩
    omega

/-- The chunk is located at the first and the last page that it shares text with. -/
structure Located (ranges : List PageRange) (chunk located : TextChunk) : Prop where
  same : located = { chunk with locator := located.locator }
  exact : (∀ page ∈ ranges, ¬ page.Shares chunk) ∧ located.locator = none ∨
    ∃ first ∈ ranges, ∃ last ∈ ranges, first.Shares chunk ∧ last.Shares chunk ∧
      (∀ page ∈ ranges, page.Shares chunk →
        first.pageNumber ≤ page.pageNumber ∧ page.pageNumber ≤ last.pageNumber) ∧
      located.locator = some (if first.pageNumber = last.pageNumber
        then "page " ++ toString first.pageNumber
        else "pages " ++ toString first.pageNumber ++ "-" ++ toString last.pageNumber)

theorem getLastD_map {α β : Type} (f : α → β) (l : List α) (a : α) :
    (l.map f).getLastD (f a) = f (l.getLastD a) := by
  induction l generalizing a with
  | nil => rfl
  | cons b l ih => rw [List.map_cons, List.getLastD_cons, List.getLastD_cons, ih]

/-- The numbers rise up to the last one. -/
theorem le_getLastD {first : PageRange} {rest : List PageRange}
    (h : (first :: rest).Pairwise fun a b => a.pageNumber < b.pageNumber) :
    ∀ page ∈ first :: rest, page.pageNumber ≤ (rest.getLastD first).pageNumber := by
  induction rest generalizing first with
  | nil =>
      intro page hpage
      rw [List.mem_singleton.mp hpage]
      exact Nat.le_refl _
  | cons next rest ih =>
      obtain ⟨hfirst, hrest⟩ := List.pairwise_cons.mp h
      intro page hpage
      rw [List.getLastD_cons]
      rcases List.mem_cons.mp hpage with rfl | hpage
      · have hnext := ih hrest next List.mem_cons_self
        have hless := hfirst next List.mem_cons_self
        omega
      · exact ih hrest page hpage

theorem pageLocator_located (hsorted : ranges.Pairwise fun a b => a.pageNumber < b.pageNumber)
    (chunk : TextChunk) :
    Located ranges chunk { chunk with
      locator := pageLocator ((ranges.filter (·.overlaps chunk)).map (·.pageNumber)) } := by
  refine ⟨rfl, ?_⟩
  have hmem : ∀ page, page ∈ ranges.filter (·.overlaps chunk) ↔
      page ∈ ranges ∧ page.Shares chunk := by
    intro page
    rw [List.mem_filter, PageRange.overlaps_iff]
  have hpages := hsorted.filter fun page => page.overlaps chunk
  cases hfound : ranges.filter (·.overlaps chunk) with
  | nil =>
      rw [hfound] at hmem
      exact .inl ⟨fun page hpage hshares =>
        List.not_mem_nil ((hmem page).mpr ⟨hpage, hshares⟩), rfl⟩
  | cons first rest =>
      rw [hfound] at hmem hpages
      have hbefore := le_getLastD hpages
      generalize hlasteq : rest.getLastD first = last at hbefore
      have hlast : last ∈ first :: rest := hlasteq ▸ List.getLastD_mem_cons
      obtain ⟨hfirstmem, hfirst⟩ := (hmem first).mp List.mem_cons_self
      obtain ⟨hlastmem, hlastshares⟩ := (hmem last).mp hlast
      refine .inr ⟨first, hfirstmem, last, hlastmem, hfirst, hlastshares, ?_, ?_⟩
      · intro page hpage hshares
        have hin := (hmem page).mpr ⟨hpage, hshares⟩
        refine ⟨?_, hbefore page hin⟩
        rcases List.mem_cons.mp hin with rfl | hin
        · exact Nat.le_refl _
        · exact Nat.le_of_lt ((List.pairwise_cons.mp hpages).1 page hin)
      · show pageLocator (first.pageNumber :: rest.map (·.pageNumber)) = _
        cases rest with
        | nil =>
            have hsame : first = last := hlasteq
            rw [hsame, if_pos rfl]
            rfl
        | cons next rest =>
            have hless : first.pageNumber < last.pageNumber := by
              have hnext := (List.pairwise_cons.mp hpages).1 next List.mem_cons_self
              have hle := hbefore next (List.mem_cons_of_mem _ List.mem_cons_self)
              omega
            rw [if_neg (Nat.ne_of_lt hless), ← hlasteq]
            rw [List.map_cons, pageLocator, ← List.map_cons, getLastD_map]
            simp

/-- The ranges that are read with the pages of a file tile their joined text up to the
separators, and a chunk is located at the first and the last page whose text it
overlaps, whatever the pages and the chunks are. -/
theorem page_locators_exact (file : PdfFile) (filename : String) (byteSize : Nat)
    (chunks : List TextChunk) :
    let texts := file.pages.map pageText
    TilesFrom (joinPages texts) 1 0 texts (pageRanges texts) ∧
      List.Forall₂ (Located (pageRanges texts)) chunks
        (assignPageLocators chunks (pageRanges texts)) ∧
      Ensures (extractPdf (some file) filename byteSize) fun document =>
        document.text = joinPages texts ∧ document.pageRanges = pageRanges texts := by
  intro texts
  have htiles := pageRanges_tile texts
  have hsorted : (pageRanges texts).Pairwise fun a b => a.pageNumber < b.pageNumber := by
    rw [← List.pairwise_map (f := fun page : PageRange => page.pageNumber) (R := (· < ·)),
      htiles.numbered]
    exact List.pairwise_lt_range'
  refine ⟨htiles, ?_, ?_⟩
  · unfold assignPageLocators
    rw [List.forall₂_map_right_iff]
    exact List.forall₂_same.mpr fun chunk _ => pageLocator_located hsorted chunk
  · unfold extractPdf
    split
    · next heq => cases heq
    · next heq =>
        cases heq
        refine .ite (fun _ => .error _) fun _ => .ite (fun _ => .error _) fun _ => ?_
        exact .bind_any fun _ _ => Ensures.pure_iff.mpr ⟨rfl, rfl⟩

/-- A chunk from the first page to the third, with a blank page in between. -/
example : (assignPageLocators [windowChunk id "ab\n\n\n\ncd" 1 7 0]
    (pageRanges ["ab", "", "cd"])).map (·.locator) = [some "pages 1-3"] := by
  decide +kernel

end Knowledge

end SecondBrain
