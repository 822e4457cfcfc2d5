import OrcaValidator.Library.Files
import OrcaValidator.Ocr.ParserClient
import OrcaValidator.Pipeline.Ownership

/-!
# Blob storage

`LocalBlobStore` under a running deployment.  A request to `submit_document` writes its upload
to a file of a new name, under the suffix of the name it was uploaded with, before it inserts
the document that refers to the file; requests are served side by side, a write may fail and a
process may stop halfway.

Every document that is in the database refers to a file of its own, which holds the bytes that
were uploaded from then on, and is read as the uploaded file would be.
-/

namespace OrcaValidator

open Library System

section Store

/-! ## The store -/

/-- A digit of `uuid4().hex`. -/
def isHexDigit (char : Char) : Bool := "0123456789abcdef".toList.contains char

/-- `uuid.uuid4().hex`. -/
structure Hex where
  digits : Text
  length : digits.length = 32
  hex : digits.all isHexDigit = true
  deriving DecidableEq

/-- `f"{uuid.uuid4().hex}{suffix}"`. -/
def blobKey (hex : Hex) (suffix : Text) : Text := hex.digits ++ suffix

/-- `LocalBlobStore.path`, below a root that has a name. -/
def blobPath (root key : Text) : Text := root ++ '/' :: key

theorem plain_of_isHexDigit {char : Char} (digit : isHexDigit char = true) :
    (char != '.' && char != '/') = true := by
  have each : "0123456789abcdef".toList.all (fun char => char != '.' && char != '/') = true := by
    decide
  rw [isHexDigit, List.contains_iff_mem] at digit
  exact List.all_eq_true.mp each char digit

/-- The path under which an upload is stored, up to its suffix. -/
def Hex.stem (hex : Hex) (root : Text) : Path.Stem where
  directory := root
  name := hex.digits
  nonempty := by
    intro empty
    have length := hex.length
    rw [empty] at length
    cases length
  plain := List.all_eq_true.mpr fun char member =>
    plain_of_isHexDigit (List.all_eq_true.mp hex.hex char member)

theorem blobPath_blobKey (root suffix : Text) (hex : Hex) :
    blobPath root (blobKey hex suffix) = (hex.stem root).path suffix := rfl

variable [Interpreter]

/-- What a request to `/documents` brings. -/
structure Received where
  docType : Text
  temperature : ℚ
  data : Bytes
  subject : Text
  filename : Text
  deriving DecidableEq

namespace Received

/-- The key that the upload is stored under. -/
def key (received : Received) (hex : Hex) : Text := blobKey hex (uploadSuffix received.filename)

/-- The upload that is submitted once its file is written. -/
def upload (received : Received) (blobRef : Text) : Upload :=
  ⟨received.docType, received.temperature, received.data, received.subject, blobRef⟩

/-- Nothing is stored for a request that is refused. -/
def Acceptable (received : Received) : Prop :=
  received.docType ∈ supportedDocTypes ∧ received.data ≠ []

instance (received : Received) : Decidable received.Acceptable :=
  inferInstanceAs (Decidable (_ ∧ _))

/-- The name to read the upload under: its own, if it has a suffix. -/
def readName (received : Received) : Text :=
  if Path.extension received.filename = [] then "upload.pdf".toList else received.filename

end Received

/-! ## Reading what is stored -/

/-- A file is read as a PDF if the upload had no suffix, and else as the upload itself. -/
theorem documentExtension_blobPath (lowers : Interpreter.LowersSuffixes) (root : Text)
    (received : Received) (hex : Hex) :
    documentExtension (blobPath root (received.key hex)) =
      documentExtension received.readName := by
  have clean := isSuffix_uploadSuffix lowers received.filename
  rw [Received.key, blobPath_blobKey, documentExtension, Path.Stem.extension_path _ clean,
    documentExtension, Received.readName, uploadSuffix]
  by_cases none : Path.extension received.filename = []
  · have empty : Interpreter.lower (Path.extension received.filename) = [] := by
      rw [none, Interpreter.lower_ascii [] (by simp)]
      rfl
    have named : Path.extension "upload.pdf".toList = ".pdf".toList := by decide
    rw [if_pos empty, if_pos none, named]
  · have nonempty : Interpreter.lower (Path.extension received.filename) ≠ [] := by
      rcases isSuffix_lower lowers (Path.isSuffix_extension none) with ⟨body, whole, _⟩
      simp [whole]
    rw [if_neg nonempty, if_neg none, lowers.lower_lower]

theorem readDocument_of_extension {path other : Text}
    (extension : documentExtension other = documentExtension path) (readers : Readers)
    (tesseract : Tesseract) (bytes : Bytes) (dpi : ℤ) :
    readDocument readers tesseract other bytes dpi =
      readDocument readers tesseract path bytes dpi :=
  readDocument_eq extension fun _ _ _ _ _ => rfl

/-- Parsing the file gives what reading the upload gives, in the process at the resolution of
the setting and in the service at 200 dots per inch. -/
structure ParsedAs (path : Text) (received : Received) : Prop where
  inProcess : ∀ readers tesseract post dpi,
    parseDocument readers tesseract post [] path received.data dpi =
      some (readDocument readers tesseract received.readName received.data dpi)
  remote : ∀ {readers tesseract post parserUrl} (dpi : ℤ), parserUrl ≠ [] →
    Reaches post parserUrl readers tesseract →
    parseDocument readers tesseract post parserUrl path received.data dpi =
      some (readDocument readers tesseract received.readName received.data 200)

theorem parsedAs_blobPath (lowers : Interpreter.LowersSuffixes) (root : Text)
    (received : Received) (hex : Hex) :
    ParsedAs (blobPath root (received.key hex)) received where
  inProcess := by
    intro readers tesseract post dpi
    rw [parseDocument, if_pos rfl]
    exact congrArg some (readDocument_of_extension
      (documentExtension_blobPath lowers root received hex) readers tesseract _ dpi)
  remote := by
    intro readers tesseract post parserUrl dpi configured reaches
    have clean := isSuffix_uploadSuffix lowers received.filename
    rcases parseDocument_remote lowers configured reaches (hex.stem root) clean received.data dpi
      with ⟨path, extension, read⟩
    have named : documentExtension path = documentExtension received.readName :=
      extension.trans (documentExtension_blobPath lowers root received hex)
    rw [← readDocument_of_extension named]
    exact read

end Store

/-! ## Submissions under way -/

/-- How far a request to `submit_document` is. -/
inductive Submission (Process : Type) where
  | idle
  /-- Its file is open for writing. -/
  | writing (process : Process) (received : Received) (hex : Hex)
  /-- `put` has returned the key. -/
  | stored (process : Process) (received : Received) (hex : Hex)
  deriving DecidableEq

namespace Submission

variable {Process : Type}

/-- The process that serves the request. -/
def process : Submission Process → Option Process
  | idle => none
  | writing process _ _ | stored process _ _ => some process

end Submission

/-- A deployment, the files of its blob store, and the uploads under way. -/
structure Archive [Interpreter] {Content Definition : Type}
    (tools : MachineTools Content Definition) (Process Task Request : Type) where
  deployment : Deployment tools Process Task
  files : Files Text UInt8 Request
  submissions : Request → Submission Process

/-- The steps of uploads, with those of the deployment. -/
inductive ArchiveStep (Content Process Task Request : Type) where
  | receive (request : Request) (process : Process) (received : Received) (hex : Hex)
  | write (request : Request) (count : ℕ)
  | finish (request : Request)
  | fail (request : Request)
  | commit (request : Request) (documentId runId : UUID)
  | stop (process : Process)
  | deploy (label : DeploymentStep Content Process Task)

/-- A step of the deployment that neither submits a document nor stops a process. -/
def DeploymentStep.Ordinary {Content Process Task : Type} :
    DeploymentStep Content Process Task → Bool
  | .submit .. | .stop .. => false
  | _ => true

namespace Archive

section Model

variable [Interpreter] {Content Definition Process Task Request : Type} [DecidableEq Process]
  [DecidableEq Task] [DecidableEq Request] {tools : MachineTools Content Definition}

/-- How far the upload is now. -/
def setSubmission (archive : Archive tools Process Task Request) (request : Request)
    (submission : Submission Process) : Archive tools Process Task Request :=
  { archive with submissions := Function.update archive.submissions request submission }

/-- The requests that the process serves. -/
def serves (archive : Archive tools Process Task Request) (process : Process)
    (request : Request) : Bool :=
  (archive.submissions request).process = some process

/-- The process is gone, and the requests that it served with it. -/
def stopped (archive : Archive tools Process Task Request) (process : Process) :
    Archive tools Process Task Request where
  deployment := archive.deployment.stopped process
  files := archive.files.closeAll (archive.serves process)
  submissions := fun request =>
    if archive.serves process request then .idle else archive.submissions request

/-- One step of the deployment and its store. -/
def step (archive : Archive tools Process Task Request) :
    ArchiveStep Content Process Task Request → Option (Archive tools Process Task Request)
  | .receive request process received hex =>
      match archive.submissions request with
      | .idle =>
          if (archive.deployment.kind process).any (· ≠ .worker) ∧ received.Acceptable then
            (archive.files.step (.create request (received.key hex) received.data)).map
              fun files => { archive with files := files }.setSubmission request
                (.writing process received hex)
          else none
      | _ => none
  | .write request count =>
      match archive.submissions request with
      | .writing .. =>
          (archive.files.step (.write request count)).map
            fun files => { archive with files := files }
      | _ => none
  | .finish request =>
      match archive.submissions request with
      | .writing process received hex =>
          (archive.files.step (.close request)).map
            fun files => { archive with files := files }.setSubmission request
              (.stored process received hex)
      | _ => none
  | .fail request =>
      (archive.files.step (.abandon (· = request))).map
        fun files => { archive with files := files }.setSubmission request .idle
  | .commit request documentId runId =>
      match archive.submissions request with
      | .stored process received hex =>
          (archive.deployment.step (.submit process (received.upload (received.key hex))
            documentId runId)).map
              fun deployment => { archive with deployment := deployment }.setSubmission request
                .idle
      | _ => none
  | .stop process => some (archive.stopped process)
  | .deploy label =>
      if label.Ordinary then
        (archive.deployment.step label).map
          fun deployment => { archive with deployment := deployment }
      else none

/-- Nothing has been started, received or stored yet. -/
structure Blank (archive : Archive tools Process Task Request) : Prop where
  deployment : archive.deployment.Blank
  files : ∀ name, archive.files.contents name = none
  writers : ∀ request, archive.files.writers request = none
  submissions : ∀ request, archive.submissions request = .idle

variable (Process Task Request tools) in
/-- The uploads to a deployment that starts without any, in an empty directory. -/
def system : System (Archive tools Process Task Request)
    (ArchiveStep Content Process Task Request) where
  initial := Blank
  step := step

variable {before after : Archive tools Process Task Request}
  {label : ArchiveStep Content Process Task Request}

/-! ## What every step keeps -/

/-- Files that are stored, for requests or for documents, are complete and differ. -/
structure Kept (archive : Archive tools Process Task Request) : Prop where
  tidy : archive.files.Tidy
  writing : ∀ {request process received hex},
    archive.submissions request = .writing process received hex →
    received.Acceptable ∧ ∃ written, archive.files.writers request =
      some ⟨received.key hex, received.data, written⟩
  stored : ∀ {request process received hex},
    archive.submissions request = .stored process received hex →
    received.Acceptable ∧ archive.files.Complete (received.key hex) received.data
  documents : ∀ {id document}, archive.deployment.db.documents id = some document →
    ∃ data, archive.files.Complete document.blobRef data
  separate : ∀ {first second process process' received received' hex hex'},
    archive.submissions first = .stored process received hex →
    archive.submissions second = .stored process' received' hex' →
    received.key hex = received'.key hex' → first = second
  unused : ∀ {request process received hex id document},
    archive.submissions request = .stored process received hex →
    archive.deployment.db.documents id = some document → document.blobRef ≠ received.key hex
  apart : ∀ {first second left right}, archive.deployment.db.documents first = some left →
    archive.deployment.db.documents second = some right → left.blobRef = right.blobRef →
    first = second

/-- The document refers to a file with the upload, and to no file of another document. -/
structure Refers (archive : Archive tools Process Task Request) (documentId : UUID)
    (received : Received) (hex : Hex) : Prop where
  row : ∃ document, archive.deployment.db.documents documentId = some document ∧
    document.identity = (received.subject, received.docType, received.key hex)
  complete : archive.files.Complete (received.key hex) received.data

omit [DecidableEq Process] [DecidableEq Task] [DecidableEq Request] in
theorem Blank.kept (blank : Blank before) : Kept before where
  tidy := by
    constructor
    · intro writer opened found
      cases (blank.writers writer).symm.trans found
    · intro first second left right found
      cases (blank.writers first).symm.trans found
  writing := fun found => by cases (blank.submissions _).symm.trans found
  stored := fun found => by cases (blank.submissions _).symm.trans found
  documents := fun found => by cases (blank.deployment.documents _).symm.trans found
  separate := fun found => by cases (blank.submissions _).symm.trans found
  unused := fun found => by cases (blank.submissions _).symm.trans found
  apart := fun found => by cases (blank.deployment.documents _).symm.trans found

/-! ## Requests at work -/

/-- What becomes of a request while files are written. -/
inductive Turns (before after : Archive tools Process Task Request) (request : Request) : Prop
  | stays (submission : after.submissions request = before.submissions request)
      (writers : after.files.writers request = before.files.writers request)
  | ends (submission : after.submissions request = .idle)
  | writes {process : Process} {received : Received} {hex : Hex} {written : ℕ}
      (acceptable : received.Acceptable)
      (submission : after.submissions request = .writing process received hex)
      (writers : after.files.writers request = some ⟨received.key hex, received.data, written⟩)
  | stores {process : Process} {received : Received} {hex : Hex}
      (earlier : before.submissions request = .writing process received hex)
      (submission : after.submissions request = .stored process received hex)
      (complete : after.files.Complete (received.key hex) received.data)

omit [DecidableEq Process] [DecidableEq Task] [DecidableEq Request] in
/-- A file that is being written is not one of those that are complete. -/
theorem Kept.writing_ne (kept : Kept before) {request : Request} {process : Process}
    {received : Received} {hex : Hex}
    (writing : before.submissions request = .writing process received hex) {name : Text}
    {data : Bytes} (complete : before.files.Complete name data) : received.key hex ≠ name := by
  rcases kept.writing writing with ⟨_, written, opened⟩
  exact complete.closed opened

omit [DecidableEq Process] [DecidableEq Task] [DecidableEq Request] in
/-- Where a request that has stored its file comes from. -/
theorem Turns.stored {request : Request} (turns : Turns before after request)
    {process : Process} {received : Received} {hex : Hex}
    (stored : after.submissions request = .stored process received hex) :
    before.submissions request = .stored process received hex ∨
      (before.submissions request = .writing process received hex ∧
        after.files.Complete (received.key hex) received.data) := by
  cases turns with
  | stays submission writers => exact .inl (submission ▸ stored)
  | ends submission => cases submission.symm.trans stored
  | writes acceptable submission writers => cases submission.symm.trans stored
  | stores earlier submission complete =>
      cases submission.symm.trans stored
      exact .inr ⟨earlier, complete⟩

omit [DecidableEq Process] [DecidableEq Task] in
theorem Kept.turns (kept : Kept before) {fileLabel : FileStep Text UInt8 Request}
    (stepped : before.files.step fileLabel = some after.files)
    (db : after.deployment.db = before.deployment.db)
    (turns : ∀ request, Turns before after request) : Kept after where
  tidy := kept.tidy.step stepped
  writing := by
    intro request process received hex writing
    cases turns request with
    | stays submission writers =>
        rw [submission] at writing
        rw [writers]
        exact kept.writing writing
    | ends submission => cases submission.symm.trans writing
    | writes acceptable submission writers =>
        cases submission.symm.trans writing
        exact ⟨acceptable, _, writers⟩
    | stores earlier submission complete => cases submission.symm.trans writing
  stored := by
    intro request process received hex stored
    rcases (turns request).stored stored with earlier | ⟨earlier, complete⟩
    · exact (kept.stored earlier).imp_right fun complete => complete.step stepped
    · exact ⟨(kept.writing earlier).1, complete⟩
  documents := by
    intro id document found
    rw [db] at found
    exact (kept.documents found).imp fun data complete => complete.step stepped
  separate := by
    intro first second process process' received received' hex hex' inFirst inSecond shared
    rcases (turns first).stored inFirst with earlier | ⟨writing, _⟩
    · rcases (turns second).stored inSecond with earlier' | ⟨writing', _⟩
      · exact kept.separate earlier earlier' shared
      · exact absurd shared.symm (kept.writing_ne writing' (kept.stored earlier).2)
    · rcases (turns second).stored inSecond with earlier' | ⟨writing', _⟩
      · exact absurd shared (kept.writing_ne writing (kept.stored earlier').2)
      · rcases (kept.writing writing).2 with ⟨_, opened⟩
        rcases (kept.writing writing').2 with ⟨_, opened'⟩
        exact kept.tidy.apart opened opened' shared
  unused := by
    intro request process received hex id document inRequest found
    rw [db] at found
    rcases (turns request).stored inRequest with earlier | ⟨writing, _⟩
    · exact kept.unused earlier found
    · rcases kept.documents found with ⟨data, complete⟩
      exact (kept.writing_ne writing complete).symm
  apart := by
    intro first second left right inFirst inSecond
    rw [db] at inFirst inSecond
    exact kept.apart inFirst inSecond

omit [DecidableEq Process] [DecidableEq Task] in
theorem Refers.turns {documentId : UUID} {received : Received} {hex : Hex}
    (refers : Refers before documentId received hex) {fileLabel : FileStep Text UInt8 Request}
    (stepped : before.files.step fileLabel = some after.files)
    (db : after.deployment.db = before.deployment.db) : Refers after documentId received hex where
  row := db ▸ refers.row
  complete := refers.complete.step stepped

omit [DecidableEq Process] [DecidableEq Task] in
/-- One request changes its file. -/
theorem turns_setSubmission {request other : Request} {files : Files Text UInt8 Request}
    {fileLabel : FileStep Text UInt8 Request} {submission : Submission Process}
    (stepped : before.files.step fileLabel = some files)
    (concerned : fileLabel.Concerns other → other = request)
    (own : Turns before ({ before with files := files }.setSubmission request submission)
      request) :
    Turns before ({ before with files := files }.setSubmission request submission) other := by
  by_cases same : other = request
  · exact same ▸ own
  · exact .stays (Function.update_of_ne same ..)
      (Files.writers_of_step stepped fun concerns => same (concerned concerns))

/-! ## What a step does -/

/-- What a step does to the files and to the documents. -/
inductive Shifts (before after : Archive tools Process Task Request) : Prop
  | files {fileLabel : FileStep Text UInt8 Request}
      (stepped : before.files.step fileLabel = some after.files)
      (db : after.deployment.db = before.deployment.db)
      (turns : ∀ request, Turns before after request)
  | submits {request : Request} {process : Process} {received : Received} {hex : Hex}
      {documentId : UUID}
      (stored : before.submissions request = .stored process received hex)
      (files : after.files = before.files)
      (submissions : after.submissions = Function.update before.submissions request .idle)
      (fresh : before.deployment.db.documents documentId = none)
      (documents : after.deployment.db.documents = Function.update
        before.deployment.db.documents documentId
          (some (submittedDocument (received.upload (received.key hex)))))
  | deploys (files : after.files = before.files)
      (submissions : after.submissions = before.submissions)
      (identity : IdentityKept before.deployment.db after.deployment.db)
      (documents : ∀ {id document}, after.deployment.db.documents id = some document →
        ∃ earlier, before.deployment.db.documents id = some earlier ∧
          document.identity = earlier.identity)

omit [Interpreter] in
theorem documents_of_update {earlier later : Database ContractState} {documentId id : UUID}
    {change : Document → Document} {document : Document}
    (documents : later.documents = Function.update earlier.documents documentId
      ((earlier.documents documentId).map change))
    (same : ∀ document, (change document).identity = document.identity)
    (found : later.documents id = some document) :
    ∃ row, earlier.documents id = some row ∧ document.identity = row.identity := by
  rw [documents] at found
  by_cases own : id = documentId
  · subst own
    rw [Function.update_self] at found
    rcases Option.map_eq_some_iff.mp found with ⟨row, present, rfl⟩
    exact ⟨row, present, same row⟩
  · rw [Function.update_of_ne own] at found
    exact ⟨document, found, rfl⟩

theorem Call.Moves.documents {earlier later : Database ContractState} {runId : UUID}
    {call next : Call} {label : CallStep}
    (moves : Call.Moves runId earlier call label later next) {id : UUID} {document : Document}
    (found : later.documents id = some document) :
    ∃ row, earlier.documents id = some row ∧ document.identity = row.identity := by
  cases moves with
  | claims claimable =>
      refine documents_of_update rfl ?_ found
      exact fun _ => rfl
  | finishes stored =>
      unfold commitResult at stored
      split at stored
      · cases stored
      · cases stored
        refine documents_of_update rfl ?_ found
        exact fun _ => rfl
  | keeps same noClaim claimed active waiting => exact ⟨document, same.documents ▸ found, rfl⟩

/-- Only a submission brings a document. -/
theorem documents_of_step {earlier later : Deployment tools Process Task}
    {label : DeploymentStep Content Process Task} (taken : earlier.step label = some later)
    (ordinary : label.Ordinary = true) {id : UUID} {document : Document}
    (found : later.db.documents id = some document) :
    ∃ row, earlier.db.documents id = some row ∧ document.identity = row.identity := by
  cases Deployment.progresses_of_step taken with
  | idles noMove db custody waiting tasks => exact ⟨document, db ▸ found, rfl⟩
  | submits move freshDocument freshRun accepted custody waiting tasks => cases ordinary
  | hands noMove db custody waited waiting tasks => exact ⟨document, db ▸ found, rfl⟩
  | calls present taken custody waiting tasks =>
      exact Call.Moves.documents (Call.moves_of_step taken) found

omit [DecidableEq Process] [DecidableEq Task] [DecidableEq Request] in
theorem not_refused {received : Received} (acceptable : received.Acceptable) (blobRef : Text)
    (verified : Dict Text Text) (documentId runId : UUID) (db : Database ContractState)
    (error : PyException) :
    submitDocument verified (received.upload blobRef) documentId runId db ≠ .error error := by
  intro refused
  have only : received.docType = "contract".toList := List.mem_singleton.mp acceptable.1
  have known : Dict.find received.docType machineIds = some "contract_validation".toList := by
    rw [only]
    rfl
  rw [submitDocument, if_neg (by simpa [Received.upload] using acceptable.1),
    if_neg (by simpa [Received.upload] using acceptable.2)] at refused
  simp only [Received.upload, known] at refused
  cases refused

/-- An upload that is acceptable is inserted under its key. -/
theorem documents_of_submit {earlier later : Deployment tools Process Task} {process : Process}
    {received : Received} {blobRef : Text} {documentId runId : UUID}
    (acceptable : received.Acceptable)
    (taken : earlier.step (.submit process (received.upload blobRef) documentId runId) =
      some later) :
    earlier.db.documents documentId = none ∧
      later.db.documents = Function.update earlier.db.documents documentId
        (some (submittedDocument (received.upload blobRef))) := by
  rw [Deployment.step] at taken
  split at taken
  · cases taken
  · split at taken
    · next running present fresh =>
        split at taken
        · next refused => exact absurd refused (not_refused acceptable blobRef _ _ _ _ _)
        · next db accepted =>
            cases taken
            rcases exists_submitted accepted with ⟨machineId, _, rfl⟩
            exact ⟨fresh.2.1, rfl⟩
    · cases taken

theorem Kept.shifts (kept : Kept before) (taken : step before label = some after) :
    Shifts before after := by
  cases label with
  | receive request process received hex =>
      rw [step] at taken
      split at taken
      · split at taken
        · next ready =>
            rcases Option.map_eq_some_iff.mp taken with ⟨files, stepped, rfl⟩
            refine .files stepped rfl fun other => turns_setSubmission stepped id ?_
            exact .writes ready.2 (Function.update_self ..) (Files.writers_of_create stepped)
        · cases taken
      · cases taken
  | write request count =>
      rw [step] at taken
      split at taken
      · next process received hex writing =>
          rcases Option.map_eq_some_iff.mp taken with ⟨files, stepped, rfl⟩
          refine .files stepped rfl ?_
          intro other
          by_cases same : other = request
          · subst same
            rcases kept.writing writing with ⟨acceptable, _, opened⟩
            rcases Files.exists_written opened stepped with ⟨written, opened'⟩
            exact .writes acceptable writing opened'
          · exact .stays rfl (Files.writers_of_step stepped same)
      · cases taken
  | finish request =>
      rw [step] at taken
      split at taken
      · next process received hex writing =>
          rcases Option.map_eq_some_iff.mp taken with ⟨files, stepped, rfl⟩
          refine .files stepped rfl fun other => turns_setSubmission stepped id ?_
          rcases kept.writing writing with ⟨_, written, opened⟩
          exact .stores writing (Function.update_self ..)
            (kept.tidy.complete_of_close opened stepped)
      · cases taken
  | fail request =>
      rw [step] at taken
      rcases Option.map_eq_some_iff.mp taken with ⟨files, stepped, rfl⟩
      refine .files stepped rfl fun other => turns_setSubmission stepped ?_ ?_
      · exact fun concerned => by simpa [FileStep.Concerns] using concerned
      · exact .ends (Function.update_self ..)
  | commit request documentId runId =>
      rw [step] at taken
      split at taken
      · next process received hex stored =>
          rcases Option.map_eq_some_iff.mp taken with ⟨deployment, stepped, rfl⟩
          rcases documents_of_submit (kept.stored stored).1 stepped with ⟨fresh, documents⟩
          exact .submits stored rfl rfl fresh documents
      · cases taken
  | stop process =>
      cases taken
      have stepped : before.files.step (.abandon (before.serves process)) =
        some (before.stopped process).files := rfl
      refine .files stepped rfl ?_
      intro request
      by_cases served : before.serves process request = true
      · exact .ends (if_pos served)
      · exact .stays (if_neg served) (if_neg served)
  | deploy label =>
      rw [step] at taken
      split at taken
      · next ordinary =>
          rcases Option.map_eq_some_iff.mp taken with ⟨deployment, stepped, rfl⟩
          exact .deploys rfl rfl (Deployment.identityKept_of_step stepped)
            (documents_of_step stepped ordinary)
      · cases taken

omit [DecidableEq Process] [DecidableEq Task] in
/-- The file of a request that commits is no other request's, and no earlier document's. -/
theorem Kept.submits (kept : Kept before) {request : Request} {process : Process}
    {received : Received} {hex : Hex} {documentId : UUID}
    (stored : before.submissions request = .stored process received hex)
    (files : after.files = before.files)
    (submissions : after.submissions = Function.update before.submissions request .idle)
    (documents : after.deployment.db.documents = Function.update
      before.deployment.db.documents documentId
        (some (submittedDocument (received.upload (received.key hex))))) : Kept after := by
  have earlier : ∀ {other submission}, after.submissions other = submission →
      submission ≠ .idle → other ≠ request ∧ before.submissions other = submission := by
    intro other submission found busy
    rw [submissions] at found
    by_cases same : other = request
    · subst same
      rw [Function.update_self] at found
      exact absurd found.symm busy
    · rw [Function.update_of_ne same] at found
      exact ⟨same, found⟩
  have rows : ∀ {id document}, after.deployment.db.documents id = some document →
      (id = documentId ∧ document.blobRef = received.key hex) ∨
        (id ≠ documentId ∧ before.deployment.db.documents id = some document) := by
    intro id document found
    rw [documents] at found
    by_cases same : id = documentId
    · subst same
      rw [Function.update_self] at found
      cases found
      exact .inl ⟨rfl, rfl⟩
    · rw [Function.update_of_ne same] at found
      exact .inr ⟨same, found⟩
  constructor
  · exact files ▸ kept.tidy
  · intro other process received hex writing
    rw [files]
    exact kept.writing (earlier writing (by simp)).2
  · intro other process received hex inOther
    rw [files]
    exact kept.stored (earlier inOther (by simp)).2
  · intro id document found
    rw [files]
    rcases rows found with ⟨_, own⟩ | ⟨_, present⟩
    · exact ⟨received.data, own ▸ (kept.stored stored).2⟩
    · exact kept.documents present
  · intro first second _ _ _ _ _ _ inFirst inSecond
    exact kept.separate (earlier inFirst (by simp)).2 (earlier inSecond (by simp)).2
  · intro other process' received' hex' id document inOther found
    rcases earlier inOther (by simp) with ⟨differ, inOther⟩
    rcases rows found with ⟨_, own⟩ | ⟨_, present⟩
    · rw [own]
      exact fun shared => differ (kept.separate stored inOther shared).symm
    · exact kept.unused inOther present
  · intro first second left right inFirst inSecond shared
    rcases rows inFirst with ⟨rfl, own⟩ | ⟨_, present⟩
    · rcases rows inSecond with ⟨rfl, _⟩ | ⟨_, present'⟩
      · rfl
      · exact absurd (shared.symm.trans own) (kept.unused stored present')
    · rcases rows inSecond with ⟨rfl, own⟩ | ⟨_, present'⟩
      · exact absurd (shared.trans own) (kept.unused stored present)
      · exact kept.apart present present' shared

omit [DecidableEq Process] [DecidableEq Task] [DecidableEq Request] in
theorem Kept.deploys (kept : Kept before) (files : after.files = before.files)
    (submissions : after.submissions = before.submissions)
    (documents : ∀ {id document}, after.deployment.db.documents id = some document →
      ∃ earlier, before.deployment.db.documents id = some earlier ∧
        document.identity = earlier.identity) : Kept after := by
  have rows : ∀ {id document}, after.deployment.db.documents id = some document →
      ∃ earlier, before.deployment.db.documents id = some earlier ∧
        document.blobRef = earlier.blobRef := by
    intro id document found
    rcases documents found with ⟨earlier, present, same⟩
    exact ⟨earlier, present, congrArg (fun identity => identity.2.2) same⟩
  constructor
  · exact files ▸ kept.tidy
  · rw [files, submissions]
    exact kept.writing
  · rw [files, submissions]
    exact kept.stored
  · intro id document found
    rcases rows found with ⟨earlier, present, same⟩
    rw [files, same]
    exact kept.documents present
  · rw [submissions]
    exact kept.separate
  · intro request process received hex id document stored found
    rcases rows found with ⟨earlier, present, same⟩
    rw [submissions] at stored
    rw [same]
    exact kept.unused stored present
  · intro first second left right inFirst inSecond shared
    rcases rows inFirst with ⟨earlier, present, same⟩
    rcases rows inSecond with ⟨earlier', present', same'⟩
    exact kept.apart present present' (same.symm.trans (shared.trans same'))

theorem Kept.step (kept : Kept before) (taken : Archive.step before label = some after) :
    Kept after := by
  cases kept.shifts taken with
  | files stepped db turns => exact kept.turns stepped db turns
  | submits stored files submissions fresh documents =>
      exact kept.submits stored files submissions documents
  | deploys files submissions identity documents => exact kept.deploys files submissions documents

/-- A document keeps the file that it was submitted with. -/
theorem Refers.step {documentId : UUID} {received : Received} {hex : Hex}
    (refers : Refers before documentId received hex) (kept : Kept before)
    (taken : Archive.step before label = some after) : Refers after documentId received hex := by
  rcases refers.row with ⟨document, present, same⟩
  cases kept.shifts taken with
  | files stepped db turns => exact refers.turns stepped db
  | @submits _ _ _ _ other stored files submissions fresh documents =>
      have differ : documentId ≠ other := by
        rintro rfl
        rw [fresh] at present
        cases present
      refine ⟨⟨document, ?_, same⟩, files ▸ refers.complete⟩
      rw [documents, Function.update_of_ne differ, present]
  | deploys files submissions identity documents =>
      rcases identity.documents present with ⟨row, present', same'⟩
      exact ⟨⟨row, present', same'.trans same⟩, files ▸ refers.complete⟩

/-- A document that is inserted refers to its upload. -/
theorem refers_of_commit (kept : Kept before) {request : Request} {process : Process}
    {received : Received} {hex : Hex} {documentId runId : UUID}
    (stored : before.submissions request = .stored process received hex)
    (taken : Archive.step before (.commit request documentId runId) = some after) :
    Refers after documentId received hex := by
  rw [Archive.step, stored] at taken
  rcases Option.map_eq_some_iff.mp taken with ⟨deployment, stepped, rfl⟩
  rcases documents_of_submit (kept.stored stored).1 stepped with ⟨_, documents⟩
  refine ⟨⟨submittedDocument (received.upload (received.key hex)), ?_, rfl⟩, (kept.stored stored).2⟩
  rw [setSubmission, documents, Function.update_self]

/-- Whatever requests, processes and writes come in between: a document that was submitted has
the row that was submitted, refers to a file of its own that holds the uploaded bytes, and is
parsed as the uploaded file. -/
theorem parsed_of_commit (lowers : Interpreter.LowersSuffixes) (root : Text)
    {start committing committed final : Archive tools Process Task Request}
    {labels later : List (ArchiveStep Content Process Task Request)} (blank : Blank start)
    (first : (system Process Task Request tools).Executes start labels committing)
    {request : Request} {process : Process} {received : Received} {hex : Hex}
    {documentId runId : UUID}
    (stored : committing.submissions request = .stored process received hex)
    (taken : Archive.step committing (.commit request documentId runId) = some committed)
    (second : (system Process Task Request tools).Executes committed later final) :
    ∃ document, final.deployment.db.documents documentId = some document ∧
      document.owner = received.subject ∧ document.docType = received.docType ∧
      final.files.contents document.blobRef = some received.data ∧
      ParsedAs (blobPath root document.blobRef) received ∧
      ∀ other row, final.deployment.db.documents other = some row →
        row.blobRef = document.blobRef → other = documentId := by
  have kept := first.keeps Kept Kept.step blank.kept
  have refers := refers_of_commit kept stored taken
  rcases second.keeps (fun archive => Kept archive ∧ Refers archive documentId received hex)
      (fun holds taken => ⟨holds.1.step taken, holds.2.step holds.1 taken⟩)
      ⟨kept.step taken, refers⟩ with ⟨keptFinal, ⟨⟨document, present, same⟩, complete⟩⟩
  simp only [Document.identity, Prod.mk.injEq] at same
  refine ⟨document, present, same.1, same.2.1, ?_, ?_, ?_⟩
  · rw [same.2.2]
    exact complete.holds
  · rw [same.2.2]
    exact parsedAs_blobPath lowers root received hex
  · exact fun other row found shared => keptFinal.apart found present shared

end Model

section Closed

open Deployment (MachineFile sampleTools)

attribute [local instance] Interpreter.ascii

/-- No file, no upload and no process. -/
def freshArchive : Archive sampleTools ℕ Unit Bool where
  deployment := Deployment.freshDeployment
  files := ⟨fun _ => none, fun _ => none⟩
  submissions := fun _ => .idle

theorem blank_freshArchive : Blank freshArchive where
  deployment := Deployment.blank_freshDeployment
  files := fun _ => rfl
  writers := fun _ => rfl
  submissions := fun _ => rfl

/-- An upload whose name has its suffix in capitals. -/
def sampleReceived : Received :=
  ⟨"contract".toList, 1 / 2, [37, 80], "api-key-subject".toList, "Lease.PDF".toList⟩

/-- The name for its file. -/
def sampleHex : Hex := ⟨"0123456789abcdef0123456789abcdef".toList, by decide, by decide⟩

/-- A name for another file. -/
def otherHex : Hex := ⟨"fedcba9876543210fedcba9876543210".toList, by decide, by decide⟩

/-- Two uploads are written side by side; one of them is written to its end. -/
def storingSteps : List (ArchiveStep MachineFile ℕ Unit Bool) :=
  [.deploy (.start 0 (Deployment.sampleStartup (.api false) .published)),
    .receive true 0 sampleReceived sampleHex, .receive false 0 sampleReceived otherHex,
    .write true 1, .write false 1, .write true 1, .finish true]

/-- The other upload fails, and the process stops once the run is started. -/
def stoppingSteps : List (ArchiveStep MachineFile ℕ Unit Bool) :=
  [.fail false, .deploy (.background 0 () "run".toList), .deploy (.call () .readRun), .stop 0]

theorem parsed_of_commit_stoppingSteps : ∃ final : Archive sampleTools ℕ Unit Bool,
    (system ℕ Unit Bool sampleTools).Executes freshArchive
        (storingSteps ++ .commit true "document".toList "run".toList :: stoppingSteps) final ∧
      ∃ document, final.deployment.db.documents "document".toList = some document ∧
        document.owner = sampleReceived.subject ∧ document.docType = sampleReceived.docType ∧
        final.files.contents document.blobRef = some sampleReceived.data ∧
        ParsedAs (blobPath "data/blobs".toList document.blobRef) sampleReceived ∧
        ∀ other row, final.deployment.db.documents other = some row →
          row.blobRef = document.blobRef → other = "document".toList := by
  have runs : (((system ℕ Unit Bool sampleTools).execute freshArchive storingSteps).bind
      fun committing =>
        (step committing (.commit true "document".toList "run".toList)).bind fun committed =>
          ((system ℕ Unit Bool sampleTools).execute committed stoppingSteps).map fun _ =>
            committing.submissions true) = some (.stored 0 sampleReceived sampleHex) := by
    decide +kernel
  rcases Option.bind_eq_some_iff.mp runs with ⟨committing, first, runs⟩
  rcases Option.bind_eq_some_iff.mp runs with ⟨committed, taken, runs⟩
  rcases Option.map_eq_some_iff.mp runs with ⟨final, second, stored⟩
  refine ⟨final, ?_, ?_⟩
  · exact (executes_of_execute first).append (.step taken trivial (executes_of_execute second))
  · exact parsed_of_commit Interpreter.ascii_lowersSuffixes "data/blobs".toList
      blank_freshArchive (executes_of_execute first) stored taken (executes_of_execute second)

end Closed

end Archive

end OrcaValidator
