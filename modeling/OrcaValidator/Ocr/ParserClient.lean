import OrcaValidator.Ocr.Reader

/-!
# The parser service

`parse_document` reads a stored blob in the same process, or has the isolated parser service
read it: the service gets the bytes under the base name of the blob, writes them to a
temporary file and answers with an object that the client makes a result of again.
-/

namespace OrcaValidator

open Library

section Parsing

variable [Interpreter]

/-- The suffix that `submit_document` stores an upload under. -/
def uploadSuffix (filename : Text) : Text :=
  let suffix := Interpreter.lower (Path.extension filename)
  if suffix = [] then ".pdf".toList else suffix

/-! ## The service -/

/-- `{"ok": …, "raw_text": …, "pages": …, "error": …}`. -/
def replyOf (result : ReadResult) : Dict Text Json :=
  Dict.ofList [("ok".toList, .bool result.ok), ("raw_text".toList, .str result.rawText),
    ("pages".toList, .arr result.pages), ("error".toList, (result.error.map .str).getD .null)]

/-- Where `/parse` writes what it was sent under a file name. -/
def temporaryPath (temporary : Path.Stem) (filename : Text) : Text :=
  let suffix := Interpreter.lower (Path.extension filename)
  temporary.path (if suffix = [] then ".bin".toList else suffix)

/-- The object that `/parse` answers with, when its temporary file has a given stem. -/
def parse (readers : Readers) (tesseract : Tesseract) (temporary : Path.Stem)
    (filename : Text) (bytes : Bytes) : Dict Text Json :=
  replyOf (readDocument readers tesseract (temporaryPath temporary filename) bytes 200)

/-! ## The client -/

/-- `OCRResult(raw_text=…, pages=…, error=…)` of the object that the service sent; nothing if
a value is not of the type that `OCRResult` declares. -/
def resultOfReply (reply : Dict Text Json) : Option ReadResult :=
  match (reply.get? "raw_text".toList).getD (.str []),
      Json.orElse (reply.get? "pages".toList) (.arr []),
      (reply.get? "error".toList).getD .null with
  | .str rawText, .arr pages, .null => some ⟨⟨rawText, none⟩, pages⟩
  | .str rawText, .arr pages, .str error => some ⟨⟨rawText, some error⟩, pages⟩
  | _, _, _ => none

/-- A request for a URL with a named file, up to the object in the reply. -/
abbrev Post := Text → Text → Bytes → Except PyException (Dict Text Json)

/-- The client of the parser service, or the parser itself where no service is configured;
none for a reply that cannot be used. -/
def parseDocument (readers : Readers) (tesseract : Tesseract) (post : Post) (parserUrl : Text)
    (blobPath : Text) (bytes : Bytes) (dpi : ℤ) : Option ReadResult :=
  if parserUrl = [] then some (readDocument readers tesseract blobPath bytes dpi)
  else
    match post (parserUrl ++ "/parse".toList) (Path.basename blobPath) bytes with
    | .error exception =>
        some (.failure ("parser service error: ".toList ++ exception.message))
    | .ok reply => resultOfReply reply

/-- The service behind a URL can be reached, and runs `/parse` with the same libraries. -/
def Reaches (post : Post) (parserUrl : Text) (readers : Readers) (tesseract : Tesseract) : Prop :=
  ∀ filename bytes, ∃ temporary, post (parserUrl ++ "/parse".toList) filename bytes =
    .ok (parse readers tesseract temporary filename bytes)

/-! ## What the client makes of the reply -/

omit [Interpreter] in
theorem orElse_arr (items : List Json) :
    Json.orElse (some (.arr items)) (.arr []) = .arr items := by
  cases items with
  | nil => rfl
  | cons first rest => rfl

omit [Interpreter] in
/-- The client gets back what the service read. -/
theorem resultOfReply_replyOf (result : ReadResult) :
    resultOfReply (replyOf result) = some result := by
  have rawText : (replyOf result).get? "raw_text".toList = some (.str result.rawText) := by
    simp only [replyOf, Dict.ofList, Dict.get?_update]
    rfl
  have pages : (replyOf result).get? "pages".toList = some (.arr result.pages) := by
    simp only [replyOf, Dict.ofList, Dict.get?_update]
    rfl
  have error : (replyOf result).get? "error".toList =
      some ((result.error.map .str).getD .null) := by
    simp only [replyOf, Dict.ofList, Dict.get?_update]
    rfl
  rw [resultOfReply, rawText, pages, error, orElse_arr]
  rcases result with ⟨⟨text, failure⟩, sources⟩
  cases failure with
  | none => rfl
  | some message => rfl

/-! ## Suffixes on their way -/

theorem isSuffix_lower (lowers : Interpreter.LowersSuffixes) {suffix : Text}
    (clean : Path.IsSuffix suffix) : Path.IsSuffix (Interpreter.lower suffix) := by
  rcases clean with ⟨body, rfl, noDot, noSlash⟩
  exact ⟨_, lowers.lower_dot body,
    fun member => noDot (lowers.mem_of_mem_lower body '.' (Or.inl rfl) member),
    fun member => noSlash (lowers.mem_of_mem_lower body '/' (Or.inr rfl) member)⟩

theorem isSuffix_uploadSuffix (lowers : Interpreter.LowersSuffixes) (filename : Text) :
    Path.IsSuffix (uploadSuffix filename) := by
  unfold uploadSuffix
  by_cases none : Path.extension filename = []
  · have empty : Interpreter.lower (Path.extension filename) = [] := by
      rw [none, Interpreter.lower_ascii [] (by simp)]
      rfl
    rw [if_pos empty]
    exact ⟨"pdf".toList, rfl, by decide, by decide⟩
  · have clean := isSuffix_lower lowers (Path.isSuffix_extension none)
    rcases clean with ⟨body, whole, marks⟩
    rw [whole, if_neg (by simp)]
    exact ⟨body, rfl, marks⟩

/-- The service sees the extension that the blob has. -/
theorem documentExtension_temporary (lowers : Interpreter.LowersSuffixes)
    (blob temporary : Path.Stem)
    {suffix : Text} (clean : Path.IsSuffix suffix) :
    documentExtension (temporary.path (Interpreter.lower suffix)) =
      documentExtension (blob.path suffix) := by
  rw [documentExtension, documentExtension, blob.extension_path clean,
    temporary.extension_path (isSuffix_lower lowers clean), lowers.lower_lower]

/-- The result of the service, if it can be reached, is what the reader makes of the blob at
200 dots per inch. -/
theorem parseDocument_remote (lowers : Interpreter.LowersSuffixes) {readers : Readers}
    {tesseract : Tesseract} {post : Post} {parserUrl : Text} (configured : parserUrl ≠ [])
    (reaches : Reaches post parserUrl readers tesseract) (blob : Path.Stem) {suffix : Text}
    (clean : Path.IsSuffix suffix) (bytes : Bytes) (dpi : ℤ) :
    ∃ path, documentExtension path = documentExtension (blob.path suffix) ∧
      parseDocument readers tesseract post parserUrl (blob.path suffix) bytes dpi =
        some (readDocument readers tesseract path bytes 200) := by
  rcases reaches (Path.basename (blob.path suffix)) bytes with ⟨temporary, answered⟩
  have nonempty : Interpreter.lower suffix ≠ [] := by
    rcases isSuffix_lower lowers clean with ⟨body, whole, _⟩
    simp [whole]
  have path : temporaryPath temporary (Path.basename (blob.path suffix)) =
      temporary.path (Interpreter.lower suffix) := by
    rw [temporaryPath, blob.basename_path clean, blob.extension_name clean]
    exact congrArg _ (if_neg nonempty)
  refine ⟨_, documentExtension_temporary lowers blob temporary clean, ?_⟩
  rw [parseDocument, if_neg configured, answered]
  dsimp only
  rw [parse, path, resultOfReply_replyOf]

/-! ## Agreement -/

/-- Both ways of parsing give a result, and they agree on what it is used for. -/
def Agree (readers : Readers) (tesseract : Tesseract) (post : Post) (parserUrl blobPath : Text)
    (bytes : Bytes) (dpi : ℤ) : Prop :=
  ∃ remote inProcess,
    parseDocument readers tesseract post parserUrl blobPath bytes dpi = some remote ∧
    parseDocument readers tesseract post [] blobPath bytes dpi = some inProcess ∧
    remote.SameReading inProcess

/-- An OCR that only reads a letter at one resolution tells resolutions apart. -/
def readsLetterAt (resolution : ℤ) : Tesseract :=
  fun _ dpi => some (if dpi = resolution then ['a'] else [])

omit [Interpreter] in
theorem length_readsLetterAt {page : FitzPage} (imageOnly : page.ImageOnly)
    (resolution dpi : ℤ) :
    (pageReading (readsLetterAt resolution) dpi page).1.length =
      if renderDpi page dpi = resolution then 1 else 0 := by
  rw [pageReading, if_pos imageOnly, ocrPageImage]
  by_cases chosen : renderDpi page dpi = resolution <;> simp [readsLetterAt, chosen]

/-- The service agrees with parsing in the process, whatever tesseract reads, exactly if every
page that is sent to OCR is rendered at the same resolution under the setting and under 200. -/
theorem parseDocument_agrees_iff (lowers : Interpreter.LowersSuffixes) {readers : Readers}
    {blob : Path.Stem} {filename parserUrl : Text} {bytes : Bytes} {dpi : ℤ}
    (configured : parserUrl ≠ []) :
    (∀ tesseract post, Reaches post parserUrl readers tesseract →
      Agree readers tesseract post parserUrl (blob.path (uploadSuffix filename)) bytes dpi) ↔
      SameResolutions readers bytes (documentExtension (blob.path (uploadSuffix filename)))
        200 dpi := by
  have clean := isSuffix_uploadSuffix lowers filename
  constructor
  · intro agree pages reads page member imageOnly
    by_contra differ
    let tesseract := readsLetterAt (renderDpi page dpi)
    have reaches : Reaches (fun _ name sent => .ok (parse readers tesseract blob name sent))
        parserUrl readers tesseract := fun _ _ => ⟨blob, rfl⟩
    rcases agree tesseract _ reaches with ⟨remote, inProcess, remotely, locally, _, _, sources⟩
    rcases parseDocument_remote lowers configured reaches blob clean bytes dpi with
      ⟨path, extension, read⟩
    rw [read, Option.some.injEq] at remotely
    rw [parseDocument, if_pos rfl, Option.some.injEq] at locally
    rw [← remotely, ← locally, pages_readDocument reads,
      pages_readDocument (extension ▸ reads)] at sources
    have lengths := length_pageReading_of_provenances sources member
    rw [length_readsLetterAt imageOnly, length_readsLetterAt imageOnly, if_pos rfl,
      if_neg differ] at lengths
    exact absurd lengths (by decide)
  · intro same tesseract post reaches
    rcases parseDocument_remote lowers configured reaches blob clean bytes dpi with
      ⟨path, extension, read⟩
    refine ⟨_, _, read, if_pos rfl, ?_⟩
    rw [readDocument_eq extension same]
    exact ⟨rfl, rfl, rfl⟩

end Parsing

section Example

attribute [local instance] Interpreter.ascii

/-- Every file is one scanned letter, without any embedded text. -/
def scannedLetter : Readers where
  fitz := .ok fun _ _ => .ok [.ok ⟨[], 612, 792, []⟩]
  docx := .error ⟨"ImportError".toList, "No module named 'docx'".toList⟩
  decode := fun _ => []

/-- The path of an uploaded file up to its suffix. -/
def blobStem : Path.Stem := ⟨"data/blobs".toList, "c0ffee".toList, by decide, by decide⟩

theorem parseDocument_agrees_iff_letter :
    (∀ tesseract post, Reaches post "http://parser:9000".toList scannedLetter tesseract →
      Agree scannedLetter tesseract post "http://parser:9000".toList
        (blobStem.path (uploadSuffix "Scan.PDF".toList)) [1] 300) ↔
      SameResolutions scannedLetter [1]
        (documentExtension (blobStem.path (uploadSuffix "Scan.PDF".toList))) 200 300 :=
  parseDocument_agrees_iff Interpreter.ascii_lowersSuffixes (by decide)

/-- With `OCR_DPI` at 300, what can only be read at 300 is lost on the way to the service. -/
theorem parseDocument_disagrees :
    ¬∀ (readers : Readers) (tesseract : Tesseract) (post : Post) (blob : Path.Stem)
      (filename parserUrl : Text) (bytes : Bytes) (dpi : ℤ), parserUrl ≠ [] →
      Reaches post parserUrl readers tesseract →
      Agree readers tesseract post parserUrl (blob.path (uploadSuffix filename)) bytes dpi := by
  intro agree
  let post : Post := fun _ name sent =>
    .ok (parse scannedLetter (readsLetterAt 300) blobStem name sent)
  rcases agree scannedLetter (readsLetterAt 300) post blobStem "Scan.PDF".toList
      "http://parser:9000".toList [1] 300 (by decide) (fun _ _ => ⟨blobStem, rfl⟩) with
    ⟨remote, inProcess, remotely, locally, _, same, _⟩
  have differ : (parseDocument scannedLetter (readsLetterAt 300) post
        "http://parser:9000".toList (blobStem.path (uploadSuffix "Scan.PDF".toList)) [1] 300).map
          (·.rawText) ≠
      (parseDocument scannedLetter (readsLetterAt 300) post []
        (blobStem.path (uploadSuffix "Scan.PDF".toList)) [1] 300).map (·.rawText) := by
    decide +kernel
  rw [remotely, locally] at differ
  exact differ (congrArg some same)

end Example

end OrcaValidator
