import OrcaValidator.Library.Interpreter
import OrcaValidator.Library.Path
import OrcaValidator.Ocr.Extract
import OrcaValidator.Ocr.Render

/-!
# The reader

`read_document`: a file becomes text, by the reader for its extension.  What PyMuPDF,
python-docx and the decoder make of the bytes of a file, and what tesseract makes of a page
rendered at some resolution, are parameters.
-/

namespace OrcaValidator

open Library

variable [Interpreter]

/-- An `OCRResult` with the provenance of its pages. -/
structure ReadResult extends OCRResult where
  pages : List Json

/-- What python-docx finds in a document: paragraphs, and tables as rows of cells. -/
structure WordDocument where
  paragraphs : List Text
  tables : List (List (List Text))

/-- The libraries that read a file, by its bytes and its extension; one that cannot be
imported is the exception of its import.  A page may turn out to be unreadable. -/
structure Readers where
  fitz : Except PyException
    (Bytes → Text → Except PyException (List (Except PyException FitzPage)))
  docx : Except PyException (Bytes → Text → Except PyException WordDocument)
  /-- `open(path, encoding="utf-8", errors="replace").read()`. -/
  decode : Bytes → Text

/-- What tesseract reads off a page that is rendered at a resolution: nothing if it is not
installed or fails. -/
abbrev Tesseract := FitzPage → ℤ → Option Text

namespace ReadResult

/-- A document that could not be read. -/
def failure (error : Text) (pages : List Json := []) : ReadResult := ⟨⟨[], some error⟩, pages⟩

/-- A document that was read. -/
def success (rawText : Text) (pages : List Json) : ReadResult := ⟨⟨rawText, none⟩, pages⟩

/-- The parts that a parsed document is used for. -/
def SameReading (left right : ReadResult) : Prop :=
  left.ok = right.ok ∧ left.rawText = right.rawText ∧ left.pages = right.pages

end ReadResult

/-- `{"page": …, "method": …, "chars": …}`. -/
def provenance (page : ℕ) (method text : Text) : Json :=
  .obj [("page".toList, .int page), ("method".toList, .str method),
    ("chars".toList, .int text.length)]

/-! ## The three readers -/

/-- A plain text document. -/
def readText (readers : Readers) (bytes : Bytes) : ReadResult :=
  let raw := Text.strip (readers.decode bytes)
  if raw = [] then .failure "empty text document".toList
  else .success raw [provenance 0 "text".toList raw]

/-- A Word document: its paragraphs and the rows of its tables. -/
def readDocx (readers : Readers) (bytes : Bytes) (extension : Text) :
    Except PyException ReadResult :=
  match readers.docx with
  | .error missing => .ok (.failure ("python-docx not available: ".toList ++ missing.message))
  | .ok openDocument => do
      let document ← openDocument bytes extension
      let parts := document.paragraphs ++
        document.tables.flatten.map (List.intercalate "\t".toList)
      let raw := Text.strip (List.intercalate "\n".toList parts)
      return if raw = [] then .failure "no text extracted from .docx".toList
        else .success raw [provenance 0 "docx".toList raw]

/-- The most pages that are read.  `MAX_PAGES`. -/
def maxPages : ℕ := 100

/-- From this length on, embedded text needs no recognition.  `_MIN_EMBEDDED_CHARS`. -/
def minEmbeddedChars : ℕ := 20

/-- A page without enough embedded text is sent to OCR. -/
def FitzPage.ImageOnly (page : FitzPage) : Prop :=
  (Text.strip page.text).length < minEmbeddedChars

instance (page : FitzPage) : Decidable page.ImageOnly := inferInstanceAs (Decidable (_ < _))

/-- The text that is recognized on the image of a page. -/
def ocrPageImage (tesseract : Tesseract) (page : FitzPage) (dpi : ℤ) : Option Text :=
  tesseract page (renderDpi page dpi)

/-- The text of a page, and the method it was read with. -/
def pageReading (tesseract : Tesseract) (dpi : ℤ) (page : FitzPage) : Text × Text :=
  if page.ImageOnly then
    match ocrPageImage tesseract page dpi with
    | some text => (text, "tesseract".toList)
    | none => (page.text, "embedded".toList)
  else (page.text, "embedded".toList)

/-- The loop of `_read_fitz`: the texts and the provenance of the pages from an index on. -/
def readPages (tesseract : Tesseract) (dpi : ℤ) :
    ℕ → List (Except PyException FitzPage) → Except PyException (List Text × List Json)
  | _, [] => .ok ([], [])
  | index, opened :: rest => do
      let page ← opened
      let (text, method) := pageReading tesseract dpi page
      let (texts, pages) ← readPages tesseract dpi (index + 1) rest
      return (text :: texts, provenance index method text :: pages)

/-- `"\n\n".join(texts).strip()`. -/
def joinPages (texts : List Text) : Text :=
  Text.strip (List.intercalate "\n\n".toList texts)

/-- `_read_fitz`, once the document is open. -/
def readDocumentPages (tesseract : Tesseract) (dpi : ℤ)
    (document : List (Except PyException FitzPage)) : Except PyException ReadResult :=
  if maxPages < document.length then
    .ok (.failure ("document exceeds the ".toList ++ (toString maxPages).toList ++
      "-page limit (".toList ++ (toString document.length).toList ++ " pages)".toList))
  else do
    let (texts, pages) ← readPages tesseract dpi 0 document
    let raw := joinPages texts
    return if raw = [] then
        .failure "no text could be extracted (embedded or OCR)".toList pages
      else .success raw pages

/-- A document that PyMuPDF opens. -/
def readFitz (readers : Readers) (tesseract : Tesseract) (bytes : Bytes) (extension : Text)
    (dpi : ℤ) : Except PyException ReadResult :=
  match readers.fitz with
  | .error missing => .ok (.failure ("PyMuPDF (fitz) not available: ".toList ++ missing.message))
  | .ok openDocument => do
      let document ← openDocument bytes extension
      readDocumentPages tesseract dpi document

/-! ## Dispatch -/

/-- `_FITZ_EXTS`. -/
def fitzExtensions : List Text :=
  ["pdf".toList, "png".toList, "jpg".toList, "jpeg".toList, "tif".toList, "tiff".toList,
    "bmp".toList, "gif".toList, "webp".toList, "epub".toList, "xps".toList, "fb2".toList,
    "cbz".toList, "svg".toList]

/-- `_TEXT_EXTS`. -/
def textExtensions : List Text :=
  ["txt".toList, "md".toList, "markdown".toList, "text".toList, "csv".toList, "log".toList,
    "rtf".toList]

/-- `os.path.splitext(file_path)[1].lower().lstrip(".")`. -/
def documentExtension (path : Text) : Text :=
  (Interpreter.lower (Path.extension path)).dropWhile (· == '.')

/-- The files that are opened with PyMuPDF. -/
def OpenedByFitz (extension : Text) : Prop :=
  extension ≠ "docx".toList ∧ extension ∉ textExtensions ∧
    (extension ∈ fitzExtensions ∨ extension = [])

instance (extension : Text) : Decidable (OpenedByFitz extension) :=
  inferInstanceAs (Decidable (_ ∧ _ ∧ _))

/-- The `try` block of `read_document`. -/
def dispatch (readers : Readers) (tesseract : Tesseract) (bytes : Bytes) (extension : Text)
    (dpi : ℤ) : Except PyException ReadResult :=
  if extension = "docx".toList then readDocx readers bytes extension
  else if extension ∈ textExtensions then .ok (readText readers bytes)
  else if extension ∈ fitzExtensions ∨ extension = [] then
    readFitz readers tesseract bytes extension dpi
  else .ok (.failure ("unsupported document type: .".toList ++ extension))

/-- `read_document`, of a file at a path with its bytes. -/
def readDocument (readers : Readers) (tesseract : Tesseract) (path : Text) (bytes : Bytes)
    (dpi : ℤ) : ReadResult :=
  let extension := documentExtension path
  match dispatch readers tesseract bytes extension dpi with
  | .ok result => result
  | .error exception =>
      .failure ("could not read document (.".toList ++
        (if extension = [] then "unknown".toList else extension) ++ "): ".toList ++
        exception.message)

/-! ## Where the resolution counts -/

/-- The pages that a file is read from, if it is read with PyMuPDF and to its end. -/
def ReadsPages (readers : Readers) (bytes : Bytes) (extension : Text)
    (pages : List FitzPage) : Prop :=
  OpenedByFitz extension ∧ ∃ openDocument, readers.fitz = .ok openDocument ∧
    openDocument bytes extension = .ok (pages.map .ok) ∧ pages.length ≤ maxPages

/-- Every page that is sent to OCR is rendered at the same resolution. -/
def SameResolutions (readers : Readers) (bytes : Bytes) (extension : Text)
    (dpi otherDpi : ℤ) : Prop :=
  ∀ pages, ReadsPages readers bytes extension pages → ∀ page ∈ pages, page.ImageOnly →
    renderDpi page dpi = renderDpi page otherDpi

omit [Interpreter]

/-- The provenance of pages that can all be read, from an index on. -/
def provenances (tesseract : Tesseract) (dpi : ℤ) : ℕ → List FitzPage → List Json
  | _, [] => []
  | index, page :: rest =>
      provenance index (pageReading tesseract dpi page).2 (pageReading tesseract dpi page).1 ::
        provenances tesseract dpi (index + 1) rest

theorem readPages_map_ok (tesseract : Tesseract) (dpi : ℤ) (index : ℕ)
    (pages : List FitzPage) :
    readPages tesseract dpi index (pages.map .ok) =
      .ok (pages.map fun page => (pageReading tesseract dpi page).1,
        provenances tesseract dpi index pages) := by
  induction pages generalizing index with
  | nil => rfl
  | cons page rest ih =>
      rw [List.map_cons, readPages, ih]
      rfl

/-- A document has a page that cannot be read, whatever the resolution, or has none. -/
theorem readable_or (document : List (Except PyException FitzPage)) :
    (∃ pages : List FitzPage, document = pages.map .ok) ∨
      ∃ exception, ∀ tesseract dpi index,
        readPages tesseract dpi index document = .error exception := by
  induction document with
  | nil => exact Or.inl ⟨[], rfl⟩
  | cons opened rest ih =>
      cases opened with
      | error exception => exact Or.inr ⟨exception, fun _ _ _ => rfl⟩
      | ok page =>
          rcases ih with ⟨pages, rfl⟩ | ⟨exception, raised⟩
          · exact Or.inl ⟨page :: pages, rfl⟩
          · refine Or.inr ⟨exception, fun tesseract dpi index => ?_⟩
            rw [readPages, raised]
            rfl

theorem pageReading_eq {page : FitzPage} {dpi otherDpi : ℤ} (tesseract : Tesseract)
    (same : page.ImageOnly → renderDpi page dpi = renderDpi page otherDpi) :
    pageReading tesseract dpi page = pageReading tesseract otherDpi page := by
  unfold pageReading
  split
  · next imageOnly => rw [ocrPageImage, ocrPageImage, same imageOnly]
  · rfl

theorem provenances_eq {pages : List FitzPage} {dpi otherDpi : ℤ} {tesseract : Tesseract}
    (same : ∀ page ∈ pages, pageReading tesseract dpi page = pageReading tesseract otherDpi page)
    (index : ℕ) :
    provenances tesseract dpi index pages = provenances tesseract otherDpi index pages := by
  induction pages generalizing index with
  | nil => rfl
  | cons page rest ih =>
      rw [List.forall_mem_cons] at same
      rw [provenances, provenances, same.1, ih same.2]

/-- The provenance tells the lengths of the page texts. -/
theorem length_pageReading_of_provenances {pages : List FitzPage} {dpi otherDpi : ℤ}
    {tesseract : Tesseract} {index : ℕ}
    (same : provenances tesseract dpi index pages = provenances tesseract otherDpi index pages)
    {page : FitzPage} (member : page ∈ pages) :
    (pageReading tesseract dpi page).1.length = (pageReading tesseract otherDpi page).1.length := by
  induction pages generalizing index with
  | nil => cases member
  | cons first rest ih =>
      rw [provenances, provenances, List.cons.injEq] at same
      rcases List.mem_cons.mp member with rfl | later
      · have sources := same.1
        simp only [provenance, Json.obj.injEq, List.cons.injEq, Prod.mk.injEq, Json.int.injEq,
          Nat.cast_inj] at sources
        exact sources.2.2.1.2
      · exact ih same.2 later

theorem readDocumentPages_eq {document : List (Except PyException FitzPage)}
    {dpi otherDpi : ℤ} (tesseract : Tesseract)
    (same : ∀ pages : List FitzPage, document = pages.map .ok → pages.length ≤ maxPages →
      ∀ page ∈ pages, page.ImageOnly → renderDpi page dpi = renderDpi page otherDpi) :
    readDocumentPages tesseract dpi document = readDocumentPages tesseract otherDpi document := by
  unfold readDocumentPages
  split
  · rfl
  · next few =>
      rcases readable_or document with ⟨pages, rfl⟩ | ⟨exception, raised⟩
      · rw [List.length_map, not_lt] at few
        have texts {page : FitzPage} (member : page ∈ pages) :=
          pageReading_eq tesseract (same pages rfl few page member)
        have listed : pages.map (fun page => (pageReading tesseract dpi page).1) =
            pages.map fun page => (pageReading tesseract otherDpi page).1 :=
          List.map_congr_left fun page member => congrArg Prod.fst (texts member)
        rw [readPages_map_ok, readPages_map_ok, listed, provenances_eq fun _ => texts]
      · rw [raised, raised]

theorem readFitz_eq {readers : Readers} {bytes : Bytes} {extension : Text} {dpi otherDpi : ℤ}
    (byFitz : OpenedByFitz extension)
    (same : SameResolutions readers bytes extension dpi otherDpi) (tesseract : Tesseract) :
    readFitz readers tesseract bytes extension dpi =
      readFitz readers tesseract bytes extension otherDpi := by
  unfold readFitz
  cases imported : readers.fitz with
  | error missing => rfl
  | ok openDocument =>
      dsimp only
      cases opened : openDocument bytes extension with
      | error exception => rfl
      | ok document =>
          apply readDocumentPages_eq
          rintro pages rfl few
          exact same pages ⟨byFitz, openDocument, imported, opened, few⟩

theorem dispatch_eq {readers : Readers} {bytes : Bytes} {extension : Text} {dpi otherDpi : ℤ}
    (same : SameResolutions readers bytes extension dpi otherDpi) (tesseract : Tesseract) :
    dispatch readers tesseract bytes extension dpi =
      dispatch readers tesseract bytes extension otherDpi := by
  unfold dispatch
  split_ifs with isDocx isText isFitz
  · rfl
  · rfl
  · exact readFitz_eq ⟨isDocx, isText, isFitz⟩ same tesseract
  · rfl

/-- The provenance of the pages that are read comes with the result, text or no text. -/
theorem dispatch_of_readsPages {readers : Readers} {bytes : Bytes} {extension : Text}
    {pages : List FitzPage} (reads : ReadsPages readers bytes extension pages)
    (tesseract : Tesseract) (dpi : ℤ) :
    ∃ result, dispatch readers tesseract bytes extension dpi = .ok result ∧
      result.pages = provenances tesseract dpi 0 pages := by
  rcases reads with ⟨⟨isDocx, isText, isFitz⟩, openDocument, imported, opened, few⟩
  have small : ¬maxPages < (pages.map (@Except.ok PyException FitzPage)).length := by
    rwa [List.length_map, not_lt]
  have read : dispatch readers tesseract bytes extension dpi =
      readDocumentPages tesseract dpi (pages.map .ok) := by
    rw [dispatch, if_neg isDocx, if_neg isText, if_pos isFitz, readFitz, imported]
    dsimp only
    rw [opened]
    rfl
  rw [read, readDocumentPages, if_neg small, readPages_map_ok]
  refine ⟨_, rfl, ?_⟩
  split <;> rfl

/-- A result only depends on the extension of the path. -/
theorem readDocument_eq [Interpreter] {readers : Readers} {tesseract : Tesseract}
    {path otherPath : Text} {bytes : Bytes} {dpi otherDpi : ℤ}
    (extension : documentExtension otherPath = documentExtension path)
    (same : SameResolutions readers bytes (documentExtension path) otherDpi dpi) :
    readDocument readers tesseract otherPath bytes otherDpi =
      readDocument readers tesseract path bytes dpi := by
  rw [readDocument, readDocument, extension, dispatch_eq same]

theorem pages_readDocument [Interpreter] {readers : Readers} {path : Text} {bytes : Bytes}
    {pages : List FitzPage} (reads : ReadsPages readers bytes (documentExtension path) pages)
    (tesseract : Tesseract) (dpi : ℤ) :
    (readDocument readers tesseract path bytes dpi).pages =
      provenances tesseract dpi 0 pages := by
  rcases dispatch_of_readsPages reads tesseract dpi with ⟨result, read, sources⟩
  rw [readDocument, read, ← sources]

end OrcaValidator
