import OrcaValidator.Api.Documents
import OrcaValidator.Pipeline.Deployment

/-!
# The machines of a process

`list_machines` and `get_machine` show `VERIFIED_MACHINES`.  What an API process shows is what
its gate has accepted, file by file and in the same order, and a run is attributed to the hash
that is shown for its machine.
-/

namespace OrcaValidator

open Library

/-- An entry of `GET /machines`. -/
structure MachineSummary where
  machineId : Text
  verified : Bool
  hash : Text
  docType : Option Text

/-- The answer of `get_machine`. -/
structure MachineDetail where
  machineId : Text
  docType : Option Text
  verified : Bool
  hash : Text
  mermaid : Option Text

/-- What the name of a machine's file ends with. -/
def orcaSuffix : Text := ".orca.md".toList

/-- `_stem`. -/
def stem (filename : Text) : Text :=
  if orcaSuffix.isSuffixOf filename then filename.take (filename.length - orcaSuffix.length)
  else filename

/-- `_doc_type_for`. -/
def docTypeFor (machineId : Text) : Option Text :=
  (machineIds.find? fun entry => entry.2 = machineId).map Prod.fst

/-- The order of `sorted`, on pairs of which no two have the same name. -/
def NameLe {Value : Type} (first second : Text × Value) : Prop :=
  precedes second.1 first.1 = false

instance {Value : Type} : DecidableRel (@NameLe Value) := fun _ _ =>
  inferInstanceAs (Decidable (_ = _))

/-- The entry for a machine of `VERIFIED_MACHINES`. -/
def machineSummary (file : Text × Text) : MachineSummary :=
  ⟨stem file.1, true, file.2, docTypeFor (stem file.1)⟩

/-- `list_machines`. -/
def listMachines (verified : Dict Text Text) : List MachineSummary :=
  (verified.entries.insertionSort NameLe).map machineSummary

/-- `mermaid_for`, over the files in `machines` at that time. -/
def mermaidFor {Content : Type} (compile : Content → Except PyException CompletedProcess)
    (machines : Directory Content) (machineId : Text) : Option Text :=
  match machines.get? (machineId ++ orcaSuffix) with
  | none => none
  | some content =>
      match compile content with
      | .error _ => none
      | .ok process =>
          let diagram := Text.strip process.stdout
          if process.returncode = 0 ∧ diagram ≠ [] then some diagram else none

/-- The answer to a request for a machine that has not been verified. -/
def machineNotFound : PyException := httpException 404 "machine not found".toList

/-- `get_machine`. -/
def getMachine (verified : Dict Text Text) (mermaid : Text → Option Text) (machineId : Text) :
    Except PyException MachineDetail :=
  match verified.get? (machineId ++ orcaSuffix) with
  | none => .error machineNotFound
  | some hash => .ok ⟨machineId, docTypeFor machineId, true, hash, mermaid machineId⟩

/-! ## Names -/

theorem stem_append (machineId : Text) : stem (machineId ++ orcaSuffix) = machineId := by
  have ends : orcaSuffix.isSuffixOf (machineId ++ orcaSuffix) = true :=
    List.isSuffixOf_iff_suffix.mpr (List.suffix_append _ _)
  rw [stem, if_pos ends]
  simp

theorem stem_append_suffix {filename : Text} (ends : orcaSuffix.isSuffixOf filename = true) :
    stem filename ++ orcaSuffix = filename := by
  rcases List.isSuffixOf_iff_suffix.mp ends with ⟨machineId, rfl⟩
  rw [stem_append]

theorem nameLe_iff {Value : Type} {first second : Text × Value} :
    NameLe first second ↔ ¬List.Lex (fun left right : Char => left < right) second.1 first.1 := by
  have same : (fun left right : Char => decide (left.toNat < right.toNat)) =
      fun left right => decide (left < right) := by
    funext left right
    exact decide_eq_decide.mpr Iff.rfl
  unfold NameLe precedes
  rw [same, List.lex_eq_false_iff_not_lex]
  simp only [decide_eq_true_eq]

instance {Value : Type} : Std.Total (@NameLe Value) where
  total := by
    intro first second
    rw [nameLe_iff, nameLe_iff]
    have asymmetric : ∀ one other : Char, ¬one < other ∨ ¬other < one := by
      intro one other
      by_cases less : one < other
      · exact .inr (Std.Asymm.asymm _ _ less)
      · exact .inl less
    exact List.not_lex_total asymmetric _ _

instance {Value : Type} : IsTrans (Text × Value) NameLe where
  trans := by
    intro first second third left right
    rw [nameLe_iff] at *
    exact @List.le_trans Char _ _ _ _ first.1 second.1 third.1 left right

/-! ## What an API process shows -/

section Api

variable [Interpreter] {Content Definition : Type} {tools : MachineTools Content Definition}
  (process : ServerProcess tools)

/-- What a process shows of a file that its gate has accepted. -/
def acceptedSummary (tools : MachineTools Content Definition) (file : Text × Content) :
    MachineSummary :=
  machineSummary (file.1, machineHash tools file.2)

theorem entries_verified (api : process.startup.kind ≠ .worker) :
    process.verified.entries = (machineFiles process.startup.machinesDir).map fun file =>
      (file.1, machineHash tools file.2) := by
  have gated := process.gated
  unfold gate at gated
  split at gated
  · rw [(verifyMachinesDir_ok_iff.mp gated).2.2]
    refine Dict.entries_ofList ?_
    rw [List.map_map]
    exact nodup_machineFiles
  · next worker => exact absurd worker api

omit [Interpreter] in
/-- The gate has sorted its files by their names. -/
theorem sorted_machineFiles (directory : Directory Content) :
    (machineFiles directory).Pairwise NameLe := List.pairwise_insertionSort NameLe _

/-- The listing is the machine files of the gate, in their order. -/
theorem listMachines_eq (api : process.startup.kind ≠ .worker) :
    listMachines process.verified =
      (machineFiles process.startup.machinesDir).map (acceptedSummary tools) := by
  have sorted : ((machineFiles process.startup.machinesDir).map fun file =>
      (file.1, machineHash tools file.2)).Pairwise NameLe := by
    rw [List.pairwise_map]
    exact sorted_machineFiles process.startup.machinesDir
  rw [listMachines, entries_verified process api, sorted.insertionSort_eq, List.map_map]
  rfl

omit [Interpreter] in
theorem mem_machineFiles {directory : Directory Content} {machineId : Text} {content : Content} :
    (machineId ++ orcaSuffix, content) ∈ machineFiles directory ↔
      directory.get? (machineId ++ orcaSuffix) = some content := by
  have ends : orcaSuffix.isSuffixOf (machineId ++ orcaSuffix) = true :=
    List.isSuffixOf_iff_suffix.mpr (List.suffix_append _ _)
  rw [machineFiles_perm.mem_iff, List.mem_filter, Dict.get?_eq_some_iff]
  exact and_iff_left ends

/-- The gate records a machine exactly when it has its file. -/
theorem get?_verified (api : process.startup.kind ≠ .worker) (machineId : Text) :
    process.verified.get? (machineId ++ orcaSuffix) =
      (process.startup.machinesDir.get? (machineId ++ orcaSuffix)).map (machineHash tools) := by
  refine Option.ext fun hash => ?_
  rw [Dict.get?_eq_some_iff, entries_verified process api, List.mem_map, Option.map_eq_some_iff]
  constructor
  · rintro ⟨⟨name, content⟩, listed, same⟩
    obtain ⟨rfl, rfl⟩ := Prod.mk.inj same
    exact ⟨content, mem_machineFiles.mp listed, rfl⟩
  · rintro ⟨content, present, rfl⟩
    exact ⟨(machineId ++ orcaSuffix, content), mem_machineFiles.mpr present, rfl⟩

/-- What the API says of a machine that it does not know. -/
structure Hidden (mermaid : Text → Option Text) (machineId : Text) : Prop where
  unlisted : machineId ∉ (listMachines process.verified).map MachineSummary.machineId
  detail : getMachine process.verified mermaid machineId = .error machineNotFound
  attributed : ∀ upload documentId,
    (submittedRun process.verified upload documentId machineId).machineHash = "unknown".toList

/-- What the API says of the machine in a file that its gate has accepted: it lists it once, and
everywhere under the hash of the file. -/
structure Shown (mermaid : Text → Option Text) (machineId : Text) (content : Content) : Prop where
  accepted : AcceptedAtStartup tools process.startup content
  listed : ∃ earlier later, listMachines process.verified = earlier ++
    ⟨machineId, true, machineHash tools content, docTypeFor machineId⟩ :: later ∧
      ∀ summary ∈ earlier ++ later, summary.machineId ≠ machineId
  detail : getMachine process.verified mermaid machineId = .ok
    ⟨machineId, docTypeFor machineId, true, machineHash tools content, mermaid machineId⟩
  attributed : ∀ upload documentId,
    (submittedRun process.verified upload documentId machineId).machineHash =
      machineHash tools content

omit [Interpreter] in
theorem ends_of_mem {directory : Directory Content} {file : Text × Content}
    (listed : file ∈ machineFiles directory) : stem file.1 ++ orcaSuffix = file.1 :=
  stem_append_suffix (List.mem_filter.mp (machineFiles_perm.mem_iff.mp listed)).2

/-- The files of the listed machines. -/
theorem names_listMachines (api : process.startup.kind ≠ .worker) :
    ((listMachines process.verified).map fun summary => summary.machineId ++ orcaSuffix) =
      (machineFiles process.startup.machinesDir).map Prod.fst := by
  rw [listMachines_eq process api, List.map_map]
  refine List.map_congr_left fun file listed => ?_
  exact (ends_of_mem listed : stem file.1 ++ orcaSuffix = file.1)

theorem nodup_listMachines (api : process.startup.kind ≠ .worker) :
    ((listMachines process.verified).map MachineSummary.machineId).Nodup := by
  refine List.Nodup.of_map (· ++ orcaSuffix) ?_
  rw [List.map_map]
  exact (names_listMachines process api).symm ▸ nodup_machineFiles

theorem Hidden.of_absent (api : process.startup.kind ≠ .worker) (mermaid : Text → Option Text)
    {machineId : Text}
    (absent : process.startup.machinesDir.get? (machineId ++ orcaSuffix) = none) :
    Hidden process mermaid machineId := by
  have unverified : process.verified.get? (machineId ++ orcaSuffix) = none := by
    rw [get?_verified process api, absent, Option.map_none]
  refine ⟨?_, ?_, ?_⟩
  · intro listed
    rcases List.mem_map.mp listed with ⟨summary, isListed, rfl⟩
    have named : summary.machineId ++ orcaSuffix ∈
        (machineFiles process.startup.machinesDir).map Prod.fst := by
      rw [← names_listMachines process api]
      exact List.mem_map.mpr ⟨summary, isListed, rfl⟩
    rcases List.mem_map.mp named with ⟨⟨name, content⟩, present, rfl⟩
    cases absent.symm.trans (mem_machineFiles.mp present)
  · rw [getMachine, unverified]
  · intro upload documentId
    change (process.verified.get? (machineId ++ orcaSuffix)).getD "unknown".toList = _
    rw [unverified]
    rfl

theorem Shown.of_present (api : process.startup.kind ≠ .worker) (mermaid : Text → Option Text)
    {machineId : Text} {content : Content}
    (present : process.startup.machinesDir.get? (machineId ++ orcaSuffix) = some content) :
    Shown process mermaid machineId content := by
  have verified : process.verified.get? (machineId ++ orcaSuffix) =
      some (machineHash tools content) := by
    rw [get?_verified process api, present, Option.map_some]
  have file := mem_machineFiles.mpr present
  refine ⟨⟨?_, (process.gated_api api).1 _ file⟩, ?_, ?_, ?_⟩
  · unfold Startup.checked
    split
    · exact List.mem_map.mpr ⟨_, file, rfl⟩
    · next worker => exact absurd worker api
  · have listed : ⟨machineId, true, machineHash tools content, docTypeFor machineId⟩ ∈
        listMachines process.verified := by
      rw [listMachines_eq process api]
      refine List.mem_map.mpr ⟨_, file, ?_⟩
      rw [acceptedSummary, machineSummary, stem_append]
    rcases List.append_of_mem listed with ⟨earlier, later, split⟩
    refine ⟨earlier, later, split, ?_⟩
    have nodup := nodup_listMachines process api
    rw [split, List.map_append, List.map_cons, List.nodup_middle, List.nodup_cons,
      ← List.map_append] at nodup
    intro summary member same
    exact nodup.1 (List.mem_map.mpr ⟨summary, member, same⟩)
  · rw [getMachine, verified]
  · intro upload documentId
    change (process.verified.get? (machineId ++ orcaSuffix)).getD "unknown".toList = _
    rw [verified]
    rfl

/-- What an API process says of machines: the listing, the details and the runs that are
submitted agree on each of them, and they know exactly the files that the gate has accepted, in
the order of their names. -/
theorem machines_of_api (api : process.startup.kind ≠ .worker) (mermaid : Text → Option Text) :
    ((listMachines process.verified).map fun summary =>
        summary.machineId ++ orcaSuffix).Pairwise (fun one other => precedes other one = false) ∧
      ∀ machineId, match process.startup.machinesDir.get? (machineId ++ orcaSuffix) with
        | none => Hidden process mermaid machineId
        | some content => Shown process mermaid machineId content := by
  refine ⟨?_, fun machineId => ?_⟩
  · rw [names_listMachines process api, List.pairwise_map]
    exact sorted_machineFiles _
  · split
    · next absent => exact .of_absent process api mermaid absent
    · next content present => exact .of_present process api mermaid present

end Api

section Sample

open Deployment

attribute [local instance] Interpreter.ascii

/-- A compiler that draws nothing. -/
def noDiagram (_ : MachineFile) : Except PyException CompletedProcess := .ok ⟨0, [], []⟩

/-- Two machine files that do not stand in the order of their names. -/
def twoMachines : Directory MachineFile :=
  ⟨[("ingestion.orca.md".toList, .published), (contractFile, .published)], by decide⟩

/-- An API process that is started over them. -/
def twoMachinesStartup : Startup MachineFile :=
  { sampleStartup (.api true) .published with machinesDir := twoMachines }

theorem machines_of_api_published : ∃ process : ServerProcess sampleTools,
    boot sampleTools twoMachinesStartup = .ok process ∧
      (listMachines process.verified).map MachineSummary.machineId =
        ["contract_validation".toList, "ingestion".toList] ∧
      ((listMachines process.verified).map fun summary =>
        summary.machineId ++ orcaSuffix).Pairwise (fun one other => precedes other one = false) ∧
      Shown process (mermaidFor noDiagram twoMachines) "contract_validation".toList .published ∧
      Shown process (mermaidFor noDiagram twoMachines) "ingestion".toList .published ∧
      Hidden process (mermaidFor noDiagram twoMachines) "ai_assessment".toList := by
  have starts : ∃ process : ServerProcess sampleTools,
      boot sampleTools twoMachinesStartup = .ok process ∧
        process.startup = twoMachinesStartup ∧
        (listMachines process.verified).map MachineSummary.machineId =
          ["contract_validation".toList, "ingestion".toList] := by
    refine ⟨_, rfl, rfl, ?_⟩
    decide +kernel
  rcases starts with ⟨process, booted, same, names⟩
  have api : process.startup.kind ≠ .worker := by
    rw [same]
    rintro ⟨⟩
  rcases machines_of_api process api (mermaidFor noDiagram twoMachines) with ⟨sorted, known⟩
  have contract := known "contract_validation".toList
  have ingestion := known "ingestion".toList
  have hidden := known "ai_assessment".toList
  rw [same] at contract ingestion hidden
  exact ⟨process, booted, names, sorted, contract, ingestion, hidden⟩

end Sample

end OrcaValidator
