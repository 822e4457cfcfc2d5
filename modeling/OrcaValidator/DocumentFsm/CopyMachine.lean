import OrcaValidator.DocumentFsm.VerificationCopy

/-!
# The machine of the verification copy

What the verifier is shown is meant to be the document's machine, with every row that leaves
a composite hoisted out of it.  The copy is cut from the text at a literal heading, so it is
that machine only when the states stand above the heading and the rows below it; and every
row is hoisted by one level, so a row out of nested composites still leaves the outer one.
-/

namespace OrcaValidator

open Library

namespace DocumentMachine

variable {machine : DocumentMachine}

/-- Hoisting one by one what was not seen before is hoisting all and dropping repetitions. -/
theorem hoistAll_eq (seen transitions : List Transition) :
    machine.hoistAll seen transitions =
      ((transitions.map machine.hoist).filter fun hoisted => hoisted ∉ seen).eraseDups := by
  induction transitions generalizing seen with
  | nil => simp [hoistAll]
  | cons transition rest ih =>
      rw [hoistAll, List.map_cons]
      by_cases known : machine.hoist transition ∈ seen
      · rw [if_pos known, ih, List.filter_cons_of_neg (by simpa using known)]
      · rw [if_neg known, ih, List.filter_cons_of_pos (by simpa using known),
          List.eraseDups_cons, List.filter_filter]
        refine congrArg (fun later => machine.hoist transition :: List.eraseDups later) ?_
        refine List.filter_congr ?_
        intro hoisted _
        by_cases same : hoisted = machine.hoist transition
        · simp [same]
        · simp [same]

theorem leaves_eq_none_iff {source target : Text} :
    machine.leaves source target = none ↔ ∀ parent, machine.parentOf source = some parent →
      target = parent ∨ machine.parentOf target = some parent := by
  unfold leaves
  cases found : machine.parentOf source with
  | none => simp
  | some parent =>
      simp only [ite_eq_right_iff, reduceCtorEq, imp_false, Option.some.injEq, forall_eq']
      constructor
      · intro inside
        by_contra outside
        rcases not_or.mp outside with ⟨other, elsewhere⟩
        exact inside ⟨elsewhere, other⟩
      · rintro inside ⟨elsewhere, other⟩
        exact inside.elim other elsewhere

/-- A row that leaves no composite is hoisted to itself. -/
theorem hoist_eq_self {transition : Transition}
    (stays : machine.leaves transition.source transition.target = none) :
    machine.hoist transition = transition := by
  rw [hoist, copySource, stays, Option.getD_none]

end DocumentMachine

/-! ## The same machine -/

/-- A list is kept whole by a filter in front of which others are put exactly when there are
no others and the filter drops nothing. -/
theorem append_filter_eq_self_iff {α : Type} {others items : List α} {kept : α → Bool}
    (each : ∀ item ∈ others, kept item = true) :
    others ++ items.filter kept = items ↔ others = [] ∧ ∀ item ∈ items, kept item = true := by
  constructor
  · intro same
    have all : ∀ item ∈ items, kept item = true := by
      intro item member
      rw [← same] at member
      rcases List.mem_append.mp member with other | own
      · exact each item other
      · exact (List.mem_filter.mp own).2
    refine ⟨?_, all⟩
    rw [List.filter_eq_self.mpr all] at same
    exact List.append_left_eq_self.mp same
  · rintro ⟨rfl, all⟩
    rw [List.nil_append, List.filter_eq_self.mpr all]

section SameMachine

variable [Interpreter]

/-- The copy has the states of the text, and its transitions are those of the text, hoisted
and without repetitions. -/
structure SameUpToHoisting (text : Text) : Prop where
  states : (parseMachine (normalizeForVerification text)).states.map DocumentState.outline =
    (parseMachine text).states.map DocumentState.outline
  transitions : (parseMachine (normalizeForVerification text)).transitions =
    ((parseMachine text).transitions.map (parseMachine text).hoist).eraseDups

/-- The states of the text stand above its first `## transitions` and the rows below, and no
composite that a row leaves has the name of the table's first column. -/
structure CutAtTable (text : Text) : Prop where
  states : (headMachine text).states.map DocumentState.outline =
    (parseMachine text).states.map DocumentState.outline
  rows : (headMachine text).rows = []
  named : ∀ row ∈ (parseMachine text).rows, ∀ composite,
    (parseMachine text).leaves row.source row.target = some composite →
      Interpreter.lower composite ≠ "source".toList

/-- What the copy has besides the rows of its head are the hoisted transitions, unless their
source has become the header of a table. -/
theorem transitions_copy {text : Text} (nested : (parseMachine text).Nested) :
    (parseMachine (normalizeForVerification text)).transitions =
      (headMachine text).transitions ++
        ((parseMachine text).hoistAll [] (parseMachine text).transitions).filter
          fun transition => isSource transition.source := by
  have same : DocumentRow.transition ∘ (fun transition : Transition =>
      (⟨transition.source, transition.event, [], transition.target⟩ : DocumentRow)) = id := rfl
  rw [DocumentMachine.transitions, rows_copy nested, List.map_append, List.map_map, same,
    List.map_id]
  rfl

theorem isSource_copySource {text : Text} {row : DocumentRow}
    (member : row ∈ (parseMachine text).rows) :
    isSource ((parseMachine text).copySource row.source row.target) = true ↔
      ∀ composite, (parseMachine text).leaves row.source row.target = some composite →
        Interpreter.lower composite ≠ "source".toList := by
  unfold DocumentMachine.copySource
  cases left : (parseMachine text).leaves row.source row.target with
  | none =>
      rw [Option.getD_none]
      refine iff_of_true (cleanCell_of_mem_rows member).2.2.2 ?_
      rintro composite ⟨⟩
  | some composite =>
      rw [Option.getD_some, (isId_of_leaves left).isSource]
      constructor
      · rintro named _ ⟨⟩
        exact of_decide_eq_true named
      · intro named
        exact decide_eq_true (named composite rfl)

/-- The copy is the machine of the text up to hoisting exactly when the heading at which it is
cut separates the states from the rows. -/
theorem sameUpToHoisting_iff {text : Text} (nested : (parseMachine text).Nested) :
    SameUpToHoisting text ↔ CutAtTable text := by
  have whole : ((parseMachine text).transitions.map (parseMachine text).hoist).eraseDups =
      (parseMachine text).hoistAll [] (parseMachine text).transitions := by
    rw [DocumentMachine.hoistAll_eq]
    simp
  have sources : ∀ transition ∈ (headMachine text).transitions,
      isSource transition.source = true := by
    intro transition member
    rcases List.mem_map.mp member with ⟨row, rowMem, rfl⟩
    exact (cleanCell_of_mem_rows rowMem).2.2.2
  have transitions : (parseMachine (normalizeForVerification text)).transitions =
      ((parseMachine text).transitions.map (parseMachine text).hoist).eraseDups ↔
      (headMachine text).rows = [] ∧ ∀ row ∈ (parseMachine text).rows,
        isSource ((parseMachine text).copySource row.source row.target) = true := by
    rw [transitions_copy nested, whole, append_filter_eq_self_iff sources]
    refine and_congr List.map_eq_nil_iff ?_
    constructor
    · intro each row member
      refine each ((parseMachine text).hoist row.transition) (mem_hoistAll.mpr ⟨by simp, ?_⟩)
      exact ⟨row.transition, List.mem_map_of_mem member, rfl⟩
    · intro each transition member
      rcases (mem_hoistAll.mp member).2 with ⟨original, originalMem, rfl⟩
      rcases List.mem_map.mp originalMem with ⟨row, rowMem, rfl⟩
      exact each row rowMem
  constructor
  · intro same
    rcases transitions.mp same.transitions with ⟨rows, named⟩
    refine ⟨(outlines_copy nested).symm.trans same.states, rows, ?_⟩
    intro row member
    exact (isSource_copySource member).mp (named row member)
  · intro cut
    refine ⟨(outlines_copy nested).trans cut.states, transitions.mpr ⟨cut.rows, ?_⟩⟩
    intro row member
    exact (isSource_copySource member).mpr (cut.named row member)

end SameMachine

section

attribute [local instance] Interpreter.ascii

/-- A composite that is declared below the table. -/
def lateComposite : Text := List.intercalate "\n".toList [
  "# machine Late".toList,
  "## state a [initial]".toList,
  "## transitions".toList,
  "| Source | Event | Guard".toList ++ " | Target | Action |".toList,
  "|---|---|---|---|---|".toList,
  "| a | GO | | p | |".toList,
  "## state p".toList,
  "### state x [initial]".toList,
  "- ignore: *".toList]

/-- The copy has lost the composite. -/
theorem not_sameUpToHoisting_lateComposite :
    (parseMachine lateComposite).Nested ∧ ¬SameUpToHoisting lateComposite := by
  refine ⟨by decide +kernel, ?_⟩
  intro same
  have states : (parseMachine (normalizeForVerification lateComposite)).states.map
      DocumentState.outline ≠ (parseMachine lateComposite).states.map DocumentState.outline := by
    decide +kernel
  exact states same.states

theorem sameUpToHoisting_overlookedExit : SameUpToHoisting overlookedExit := by
  have none : (headMachine overlookedExit).rows = [] := by decide +kernel
  exact (sameUpToHoisting_iff nested_overlookedExit).mpr
    ⟨laidOut_overlookedExit.states, none, laidOut_overlookedExit.named⟩

end

/-! ## Every depth -/

section EveryDepth

variable [Interpreter]

/-- Every row of the copy whose source lies in a composite targets the composite or one of
its children, so that another normalization leaves every row as it is. -/
structure HoistedWhole (text : Text) : Prop where
  settled : ∀ row ∈ (parseMachine (normalizeForVerification text)).rows, ∀ parent,
    (parseMachine (normalizeForVerification text)).parentOf row.source = some parent →
      row.target = parent ∨
        (parseMachine (normalizeForVerification text)).parentOf row.target = some parent
  unchanged : ∀ transition ∈ (parseMachine (normalizeForVerification text)).transitions,
    (parseMachine (normalizeForVerification text)).hoist transition = transition

/-- Among the states above the first `## transitions`, no row that stands there leaves a
composite, nor does a row that stays in its composite in the text; and where a row leaves a
composite in the text, the composite is at the top, or the row targets its parent or a child
of its parent. -/
structure LeavesOnce (text : Text) : Prop where
  above : ∀ row ∈ (headMachine text).rows,
    (headMachine text).leaves row.source row.target = none
  staying : ∀ row ∈ (parseMachine text).rows,
    (parseMachine text).leaves row.source row.target = none →
      (headMachine text).leaves row.source row.target = none
  leaving : ∀ row ∈ (parseMachine text).rows, ∀ composite,
    (parseMachine text).leaves row.source row.target = some composite →
    Interpreter.lower composite ≠ "source".toList → ∀ outer,
    (headMachine text).parentOf composite = some outer →
      row.target = outer ∨ (headMachine text).parentOf row.target = some outer

theorem parentOf_copy {text : Text} (nested : (parseMachine text).Nested) (id : Text) :
    (parseMachine (normalizeForVerification text)).parentOf id =
      (headMachine text).parentOf id :=
  congrFun (congrArg Hierarchy.parent
    (DocumentMachine.hierarchy_eq_of_outlines (outlines_copy nested))) id

/-- A copy is settled exactly when no row that it has left from the text leaves a composite. -/
theorem settled_copy_iff {text : Text} (nested : (parseMachine text).Nested) :
    (∀ row ∈ (parseMachine (normalizeForVerification text)).rows,
      (headMachine text).leaves row.source row.target = none) ↔ LeavesOnce text := by
  constructor
  · intro settled
    constructor
    · intro row member
      exact settled row ((mem_rows_copy nested).mpr (.inl member))
    · intro row member stays
      have source : (parseMachine text).copySource row.source row.target = row.source := by
        rw [DocumentMachine.copySource, stays, Option.getD_none]
      have kept := mem_rows_copy_of_mem nested member
        (by rw [source]; exact (cleanCell_of_mem_rows member).2.2.2)
      have inside := settled _ kept
      rwa [source] at inside
    · intro row member composite left named outer found
      have source : (parseMachine text).copySource row.source row.target = composite := by
        rw [DocumentMachine.copySource, left, Option.getD_some]
      have kept := mem_rows_copy_of_mem nested member
        (by rw [source, (isId_of_leaves left).isSource]; exact decide_eq_true named)
      have inside := settled _ kept
      rw [source] at inside
      exact DocumentMachine.leaves_eq_none_iff.mp inside outer found
  · intro once row member
    rcases (mem_rows_copy nested).mp member with above | ⟨original, originalMem, source, rfl⟩
    · exact once.above row above
    · have named := (isSource_copySource originalMem).mp source
      cases left : (parseMachine text).leaves original.source original.target with
      | none =>
          rw [DocumentMachine.copySource, left, Option.getD_none]
          exact once.staying original originalMem left
      | some composite =>
          rw [DocumentMachine.copySource, left, Option.getD_some]
          exact DocumentMachine.leaves_eq_none_iff.mpr
            (once.leaving original originalMem composite left (named composite left))

/-- The hoisting is complete exactly when no row has two nested composites to leave. -/
theorem hoistedWhole_iff (text : Text) :
    HoistedWhole text ↔ ((parseMachine text).Nested → LeavesOnce text) := by
  by_cases nested : (parseMachine text).Nested
  · have parent := parentOf_copy nested
    have leaves : ∀ source target,
        (parseMachine (normalizeForVerification text)).leaves source target =
          (headMachine text).leaves source target := by
      intro source target
      simp only [DocumentMachine.leaves, parent]
    rw [← settled_copy_iff nested]
    constructor
    · intro whole _ row member
      rw [← leaves]
      exact DocumentMachine.leaves_eq_none_iff.mpr (whole.settled row member)
    · intro settled
      constructor
      · intro row member
        have inside := settled nested row member
        rw [← leaves] at inside
        exact DocumentMachine.leaves_eq_none_iff.mp inside
      · intro transition member
        rcases List.mem_map.mp member with ⟨row, rowMem, rfl⟩
        have inside := settled nested row rowMem
        rw [← leaves] at inside
        exact DocumentMachine.hoist_eq_self inside
  · have flat : normalizeForVerification text = text := if_neg nested
    have none : ∀ id, (parseMachine text).parentOf id = none := by
      intro id
      refine Option.eq_none_iff_forall_ne_some.mpr ?_
      intro parent found
      rcases Option.bind_eq_some_iff.mp found with ⟨state, first, isParent⟩
      have member := List.mem_reverse.mp (List.mem_of_find?_eq_some first)
      exact nested ⟨state, member, by simp [isParent]⟩
    refine iff_of_true ⟨?_, ?_⟩ fun isNested => absurd isNested nested
    · rw [flat]
      intro row _ parent found
      cases (none row.source).symm.trans found
    · rw [flat]
      intro transition _
      refine DocumentMachine.hoist_eq_self (DocumentMachine.leaves_eq_none_iff.mpr ?_)
      intro parent found
      cases (none transition.source).symm.trans found

end EveryDepth

section

attribute [local instance] Interpreter.ascii

/-- A row that leaves two composites, one within the other. -/
def deepExit : Text := List.intercalate "\n".toList [
  "# machine Deep".toList,
  "## state p [initial]".toList,
  "### state q [initial]".toList,
  "#### state x [initial]".toList,
  "## state z [final]".toList,
  "## transitions".toList,
  "| Source | Event | Guard".toList ++ " | Target | Action |".toList,
  "|---|---|---|---|---|".toList,
  "| x | OUT | | z | |".toList]

/-- What the parser reads in it. -/
def deepMachine : DocumentMachine where
  states := [
    { id := "p".toList, label := "P".toList, initial := true, final := false, parent := none },
    { id := "q".toList, label := "Q".toList, initial := true, final := false,
      parent := some "p".toList },
    { id := "x".toList, label := "X".toList, initial := true, final := false,
      parent := some "q".toList },
    { id := "z".toList, label := "Z".toList, initial := false, final := true, parent := none }]
  rows := [⟨"x".toList, "OUT".toList, [], "z".toList⟩]

theorem parse_deepExit : parseMachine deepExit = deepMachine := by
  decide +kernel

theorem parse_copy_deepExit : parseMachine (normalizeForVerification deepExit) =
    { deepMachine with rows := [⟨"q".toList, "OUT".toList, [], "z".toList⟩] } := by
  decide +kernel

/-- In the copy the inner composite leaves the outer one. -/
theorem not_hoistedWhole_deepExit :
    ((parseMachine deepExit).states.map DocumentState.id).Nodup ∧ ¬HoistedWhole deepExit := by
  refine ⟨?_, ?_⟩
  · rw [parse_deepExit]
    decide
  intro whole
  have settled := whole.settled
  rw [parse_copy_deepExit] at settled
  have outside := settled ⟨"q".toList, "OUT".toList, [], "z".toList⟩ (by decide) "p".toList
    (by decide)
  exact absurd outside (by decide)

end

end OrcaValidator
