import Mathlib.Data.List.Sort
import OrcaValidator.Library.Interpreter

/-!
# The verification gate

`verification.py`, the loading of the machine package and the start-up of a process.  An API
process verifies the files of `MACHINES_DIR` before it serves; a worker process verifies
nothing; and both parse the machine that they run from the directory of the package.

A start-up covers the machine that its process runs when the gate has seen the very content
that was parsed, and has recorded its hash under the name of the machine.
-/

namespace OrcaValidator

open Library

/-- How the verifier has ended. -/
structure CompletedProcess where
  returncode : ℤ
  stdout : Text
  stderr : Text

/-- The tools that are applied to the content of a machine file. -/
structure MachineTools (Content Definition : Type) where
  parseOrcaMd : Content → Except PyException Definition
  /-- `subprocess.run([*_orca_cli(), "verify", path])`. -/
  orcaVerify : Content → Except PyException CompletedProcess
  /-- `hashlib.sha256(content).hexdigest()`. -/
  sha256 : Content → Text
  hexadecimal : ∀ content, ∀ digit ∈ sha256 content, digit ∈ "0123456789abcdef".toList

/-- The files of a directory, by their names. -/
abbrev Directory (Content : Type) := Dict Text Content

/-- The processes of the service.  Only the API can do without Redis. -/
inductive ProcessKind where
  | api (useRedisQueue : Bool)
  | worker
  deriving DecidableEq

/-- What a process finds when it starts: its settings, the files of `MACHINES_DIR`, and the
files in the directory of the package `machines`. -/
structure Startup (Content : Type) where
  kind : ProcessKind
  machinesDirName : Text
  machinesDir : Directory Content
  packageName : Text
  package : Directory Content

/-- The file of the one machine of the package. -/
def contractFile : Text := "contract_validation.orca.md".toList

/-- `first < second`, by the code points of the characters. -/
def precedes (first second : Text) : Bool :=
  first.lex second fun left right => decide (left.toNat < right.toNat)

/-- `sorted(directory.glob("*.orca.md"))`. -/
def machineFiles {Content : Type} (directory : Directory Content) : List (Text × Content) :=
  (directory.entries.filter fun file => ".orca.md".toList.isSuffixOf file.1).insertionSort
    fun first second => precedes second.1 first.1 = false

/-- What the gate raises. -/
def verificationError (message : Text) : PyException :=
  ⟨"MachineVerificationError".toList, message⟩

section Tools

variable {Content Definition : Type} (tools : MachineTools Content Definition)

/-- `verify_machine_file`. -/
def verifyMachineFile (content : Content) : Except PyException (Bool × Text) :=
  match tools.orcaVerify content with
  | .ok process => .ok (process.returncode = 0, Text.strip (process.stdout ++ process.stderr))
  | .error error =>
      if error.className = "FileNotFoundError".toList then
        .error (verificationError ("ORCA verifier CLI not available (".toList ++ error.message ++
          "); cannot enforce the verification gate.".toList))
      else .error error

/-- `machine_hash`. -/
def machineHash (content : Content) : Text := (tools.sha256 content).take 32

/-- The loop of `verify_machines_dir`, on the dictionary and the list that it fills. -/
def verifyInto (collected : Dict Text Text × List Text) (file : Text × Content) :
    Except PyException (Dict Text Text × List Text) := do
  let (ok, out) ← verifyMachineFile tools file.2
  if ok then return (collected.1.set file.1 (machineHash tools file.2), collected.2)
  else return (collected.1, collected.2 ++ [file.1 ++ ":\n".toList ++ out])

/-- `verify_machines_dir`. -/
def verifyMachinesDir [Interpreter] (name : Text) (directory : Directory Content) :
    Except PyException (Dict Text Text) :=
  if machineFiles directory = [] then
    .error (verificationError ("No *.orca.md machines found in ".toList ++
      Interpreter.repr (.str name)))
  else do
    let (verified, failures) ← (machineFiles directory).foldlM (verifyInto tools) (∅, [])
    if failures = [] then return verified
    else .error (verificationError
      ("ORCA machine verification failed — refusing to boot:\n\n".toList ++
        List.intercalate "\n\n".toList failures))

/-- `_load("contract_validation.orca.md")`, with the content that it parses. -/
def loadMachine [Interpreter] (startup : Startup Content) :
    Except PyException (Content × Definition) :=
  match startup.package.get? contractFile with
  | none => .error ⟨"FileNotFoundError".toList, "[Errno 2] No such file or directory: ".toList ++
      Interpreter.repr (.str (startup.packageName ++ "/".toList ++ contractFile))⟩
  | some source => do
      let definition ← tools.parseOrcaMd source
      return (source, definition)

/-- What is left in `VERIFIED_MACHINES`: `lifespan` fills it, and `main` of the worker does
not. -/
def gate [Interpreter] (startup : Startup Content) : Except PyException (Dict Text Text) :=
  match startup.kind with
  | .api _ => verifyMachinesDir tools startup.machinesDirName startup.machinesDir
  | .worker => .ok ∅

/-- A process that has started. -/
structure ServerProcess [Interpreter] where
  startup : Startup Content
  /-- The content that the definition was parsed from. -/
  source : Content
  definition : Definition
  verified : Dict Text Text
  loaded : loadMachine tools startup = .ok (source, definition)
  gated : gate tools startup = .ok verified

/-- The process that starts, unless its imports or its gate raise. -/
def boot [Interpreter] (startup : Startup Content) : Except PyException (ServerProcess tools) :=
  match loaded : loadMachine tools startup with
  | .error error => .error error
  | .ok (source, definition) =>
      match gated : gate tools startup with
      | .error error => .error error
      | .ok verified => .ok ⟨startup, source, definition, verified, loaded, gated⟩

/-! ## What the gate has seen -/

/-- The verifier accepts the file. -/
def Accepts (content : Content) : Prop := ∃ out, verifyMachineFile tools content = .ok (true, out)

/-- The contents that the verifier is run on while the process starts. -/
def Startup.checked (startup : Startup Content) : List Content :=
  match startup.kind with
  | .api _ => (machineFiles startup.machinesDir).map Prod.snd
  | .worker => []

/-- The file was among those that the gate has checked, and the verifier accepts it. -/
def AcceptedAtStartup (startup : Startup Content) (content : Content) : Prop :=
  content ∈ startup.checked ∧ Accepts tools content

/-- An API process starts with the content of the package's machine among the files of
`MACHINES_DIR`, and with a file of the same hash under the machine's name. -/
def Startup.Covers (startup : Startup Content) : Prop :=
  startup.kind ≠ .worker ∧ ∃ source named, startup.package.get? contractFile = some source ∧
    source ∈ (machineFiles startup.machinesDir).map Prod.snd ∧
    startup.machinesDir.get? contractFile = some named ∧
    machineHash tools named = machineHash tools source

end Tools

section Directories

variable {Content : Type} {directory : Directory Content}

theorem machineFiles_perm : (machineFiles directory).Perm
    (directory.entries.filter fun file => ".orca.md".toList.isSuffixOf file.1) :=
  List.perm_insertionSort _ _

theorem nodup_machineFiles : ((machineFiles directory).map Prod.fst).Nodup := by
  refine (machineFiles_perm.map Prod.fst).nodup_iff.mpr ?_
  exact directory.nodup.sublist (List.filter_sublist.map Prod.fst)

/-- The machine's file is a machine file. -/
theorem find_contractFile :
    Dict.find contractFile (machineFiles directory) = directory.get? contractFile := by
  have ends : ".orca.md".toList.isSuffixOf contractFile = true := by decide
  refine Option.ext fun content => ?_
  rw [Dict.find_eq_some_iff nodup_machineFiles, machineFiles_perm.mem_iff, List.mem_filter,
    Dict.get?_eq_some_iff]
  exact and_iff_left ends

end Directories

section Gate

variable [Interpreter] {Content Definition : Type} {tools : MachineTools Content Definition}

omit [Interpreter] in
theorem machineHash_ne_unknown (content : Content) :
    machineHash tools content ≠ "unknown".toList := by
  intro unknown
  have first : 'u' ∈ machineHash tools content := by
    rw [unknown]
    decide
  have digit := tools.hexadecimal content 'u' (List.mem_of_mem_take first)
  exact absurd digit (by decide)

omit [Interpreter] in
/-- The loop collects no failure exactly when the verifier accepts every file, and then it
records the hash of each. -/
theorem foldlM_verifyInto {files : List (Text × Content)} {collected : Dict Text Text × List Text}
    {verified : Dict Text Text} :
    files.foldlM (verifyInto tools) collected = .ok (verified, []) ↔
      collected.2 = [] ∧ (∀ file ∈ files, Accepts tools file.2) ∧
        verified = collected.1.update
          (files.map fun file => (file.1, machineHash tools file.2)) := by
  induction files generalizing collected with
  | nil =>
      rcases collected with ⟨dict, failures⟩
      constructor
      · rintro ⟨⟩
        exact ⟨rfl, by simp, rfl⟩
      · rintro ⟨rfl, _, rfl⟩
        rfl
  | cons file files ih =>
      rw [List.foldlM_cons, List.forall_mem_cons, List.map_cons, Dict.update_cons]
      cases ran : verifyMachineFile tools file.2 with
      | error error =>
          refine iff_of_false ?_ ?_
          · simp only [verifyInto, ran]
            rintro ⟨⟩
          · rintro ⟨_, ⟨⟨out, accepted⟩, _⟩, _⟩
            cases ran.symm.trans accepted
      | ok outcome =>
          rcases outcome with ⟨ok, out⟩
          cases ok with
          | true =>
              have accepted : Accepts tools file.2 := ⟨out, ran⟩
              simp only [verifyInto, ran, accepted, true_and]
              exact ih
          | false =>
              refine iff_of_false ?_ ?_
              · simp only [verifyInto, ran]
                intro collects
                have none := (ih.mp collects).1
                simp at none
              · rintro ⟨_, ⟨⟨other, accepted⟩, _⟩, _⟩
                cases ran.symm.trans accepted

/-- A directory passes exactly when it has machine files and the verifier accepts them all. -/
theorem verifyMachinesDir_ok_iff {name : Text} {directory : Directory Content}
    {verified : Dict Text Text} :
    verifyMachinesDir tools name directory = .ok verified ↔
      machineFiles directory ≠ [] ∧ (∀ file ∈ machineFiles directory, Accepts tools file.2) ∧
        verified = Dict.ofList
          ((machineFiles directory).map fun file => (file.1, machineHash tools file.2)) := by
  have loop := @foldlM_verifyInto _ _ tools (machineFiles directory) (∅, []) verified
  simp only [true_and] at loop
  rw [Dict.ofList, ← loop]
  unfold verifyMachinesDir
  split
  · next none =>
      exact iff_of_false (by rintro ⟨⟩) fun both => both.1 none
  · next listed =>
      simp only [ne_eq, listed, not_false_eq_true, true_and]
      cases (machineFiles directory).foldlM (verifyInto tools) (∅, []) with
      | error error => exact iff_of_false (by rintro ⟨⟩) (by rintro ⟨⟩)
      | ok collected =>
          rcases collected with ⟨filled, failures⟩
          by_cases passed : failures = []
          · subst passed
            constructor
            · rintro ⟨⟩
              rfl
            · rintro ⟨⟩
              rfl
          · refine iff_of_false ?_ ?_
            · simp only [bind, Except.bind, if_neg passed]
              rintro ⟨⟩
            · rintro ⟨⟩
              exact passed rfl

omit [Interpreter] in
/-- Only API processes verify anything. -/
theorem AcceptedAtStartup.api {startup : Startup Content} {content : Content}
    (accepted : AcceptedAtStartup tools startup content) : startup.kind ≠ .worker := by
  intro worker
  have checked := accepted.1
  simp [Startup.checked, worker] at checked

namespace ServerProcess

variable (process : ServerProcess tools)

/-- `VERIFIED_MACHINES.get("contract_validation.orca.md", "unknown")`. -/
def recordedHash : Text := (process.verified.get? contractFile).getD "unknown".toList

theorem package_source : process.startup.package.get? contractFile = some process.source := by
  have loaded := process.loaded
  unfold loadMachine at loaded
  split at loaded
  · cases loaded
  · next source found =>
      cases parsed : tools.parseOrcaMd source with
      | error error =>
          rw [parsed] at loaded
          cases loaded
      | ok definition =>
          rw [parsed] at loaded
          cases loaded
          exact found

/-- What an API process has verified: every machine file, by the hash of its content. -/
theorem gated_api (api : process.startup.kind ≠ .worker) :
    (∀ file ∈ machineFiles process.startup.machinesDir, Accepts tools file.2) ∧
      process.verified.get? contractFile =
        (process.startup.machinesDir.get? contractFile).map (machineHash tools) := by
  have gated := process.gated
  unfold gate at gated
  split at gated
  · rcases verifyMachinesDir_ok_iff.mp gated with ⟨_, accepted, verified⟩
    refine ⟨accepted, ?_⟩
    have nodup : (((machineFiles process.startup.machinesDir).map fun file =>
        (file.1, machineHash tools file.2)).map Prod.fst).Nodup := by
      rw [List.map_map]
      exact nodup_machineFiles
    rw [verified, ← @find_contractFile _ process.startup.machinesDir]
    refine Option.ext fun hash => ?_
    rw [Dict.ofList, Dict.get?_update, Dict.get?_empty, Option.or_none,
      Dict.find_eq_some_iff (by rwa [List.map_reverse, List.nodup_reverse]), List.mem_reverse,
      List.mem_map]
    constructor
    · rintro ⟨⟨name, content⟩, member, same⟩
      obtain ⟨rfl, rfl⟩ := Prod.mk.inj same
      rw [(Dict.find_eq_some_iff nodup_machineFiles).mpr member, Option.map_some]
    · intro found
      rcases Option.map_eq_some_iff.mp found with ⟨content, present, rfl⟩
      exact ⟨_, (Dict.find_eq_some_iff nodup_machineFiles).mp present, rfl⟩
  · next worker => exact absurd worker api

/-- The machine of a process was accepted, and its hash is recorded, exactly when the start-up
covers it. -/
theorem covers_iff : AcceptedAtStartup tools process.startup process.source ∧
    process.recordedHash = machineHash tools process.source ↔ process.startup.Covers tools := by
  have package := process.package_source
  constructor
  · rintro ⟨accepted, recorded⟩
    have api := accepted.api
    have checked := accepted.1
    have hash := (process.gated_api api).2
    rw [recordedHash, hash] at recorded
    refine ⟨api, process.source, ?_⟩
    cases named : process.startup.machinesDir.get? contractFile with
    | none =>
        rw [named] at recorded
        exact absurd recorded.symm (machineHash_ne_unknown _)
    | some content =>
        rw [named] at recorded
        refine ⟨content, package, ?_, rfl, recorded⟩
        unfold Startup.checked at checked
        split at checked
        · exact checked
        · cases checked
  · rintro ⟨api, source, named, found, member, present, same⟩
    obtain rfl : source = process.source := Option.some.inj (found.symm.trans package)
    rcases process.gated_api api with ⟨accepted, hash⟩
    refine ⟨⟨?_, ?_⟩, ?_⟩
    · unfold Startup.checked
      split
      · exact member
      · next worker => exact absurd worker api
    · rcases List.mem_map.mp member with ⟨file, listed, content⟩
      rw [← content]
      exact accepted file listed
    · rw [recordedHash, hash, present]
      exact same

end ServerProcess

end Gate

end OrcaValidator
