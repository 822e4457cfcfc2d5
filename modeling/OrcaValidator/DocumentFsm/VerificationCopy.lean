import OrcaValidator.DocumentFsm.Normalize
import OrcaValidator.Library.Statechart

/-!
# What the verification copy preserves

The verifier is shown the copy and its verdict is reported for the document.  The copy
is the document's machine with its exits hoisted, so it can do whatever the machine can
do; it may also leave a composite from a child that had no such exit, and a guard that
told two rows apart is gone.  For each of the three properties that the rewriting is
meant to preserve, this file proves for exactly which machines it does.
-/

namespace OrcaValidator

open Library

namespace DocumentMachine

variable (machine : DocumentMachine)

/-- The states of a machine as the states of a statechart. -/
def hierarchy : Hierarchy Text where
  Declared := fun id => ∃ state ∈ machine.states, state.id = id
  parent := machine.parentOf
  Initial := fun id => ∃ state ∈ machine.states, state.id = id ∧ state.initial = true
  Final := fun id => ∃ state ∈ machine.states, state.id = id ∧ state.final = true

/-- The transitions of a machine as the table of a statechart. -/
def table : Table Text := fun source target =>
  ∃ row ∈ machine.rows, row.source = source ∧ row.target = target

/-- A state is reachable under the UML reading of the table. -/
def Reachable (id : Text) : Prop := machine.hierarchy.Reachable machine.table id

/-- A row is enabled while the leaf is active. -/
def Enabled (leaf : Text) : Prop := machine.hierarchy.Enabled machine.table leaf

/-- No two rows have the same source, event and guard cells and different targets. -/
def Deterministic : Prop :=
  ∀ left ∈ machine.rows, ∀ right ∈ machine.rows, left.source = right.source →
    left.event = right.event → left.guard = right.guard → left.target = right.target

instance (id : Text) : Decidable (machine.hierarchy.Declared id) :=
  inferInstanceAs (Decidable (∃ state ∈ machine.states, state.id = id))

instance (id : Text) : Decidable (machine.hierarchy.Initial id) :=
  inferInstanceAs (Decidable (∃ state ∈ machine.states, state.id = id ∧ state.initial = true))

instance (id : Text) : Decidable (machine.hierarchy.Final id) :=
  inferInstanceAs (Decidable (∃ state ∈ machine.states, state.id = id ∧ state.final = true))

instance (source target : Text) : Decidable (machine.table source target) :=
  inferInstanceAs (Decidable (∃ row ∈ machine.rows, row.source = source ∧ row.target = target))

instance : Decidable machine.Deterministic :=
  inferInstanceAs (Decidable (∀ left ∈ machine.rows, ∀ right ∈ machine.rows, _ → _ → _ → _))

variable {machine}

/-- The forest is that of the states' outlines. -/
theorem hierarchy_eq_of_outlines {other : DocumentMachine}
    (same : machine.states.map DocumentState.outline =
      other.states.map DocumentState.outline) : machine.hierarchy = other.hierarchy := by
  have byOutline (machine : DocumentMachine) (holds : Text × Bool × Bool × Option Text → Prop) :
      (∃ state ∈ machine.states, holds state.outline) ↔
        ∃ outline ∈ machine.states.map DocumentState.outline, holds outline := by
    simp
  have parent (machine : DocumentMachine) (id : Text) : machine.parentOf id =
      ((machine.states.map DocumentState.outline).reverse.find?
        fun outline => outline.1 = id).bind fun outline => outline.2.2.2 := by
    rw [parentOf, ← List.map_reverse, List.find?_map, Option.bind_map]
    rfl
  ext id
  · have declared := byOutline machine fun outline => outline.1 = id
    rw [same, ← byOutline other] at declared
    exact declared
  · change _ ∈ machine.parentOf id ↔ _ ∈ other.parentOf id
    rw [parent machine, parent other, same]
  · have initial := byOutline machine fun outline => outline.1 = id ∧ outline.2.1 = true
    rw [same, ← byOutline other] at initial
    exact initial
  · have final := byOutline machine fun outline => outline.1 = id ∧ outline.2.2.1 = true
    rw [same, ← byOutline other] at final
    exact final

theorem leaves_eq_some_iff {source target composite : Text} :
    machine.leaves source target = some composite ↔
      machine.hierarchy.Leaves source target composite := by
  unfold leaves
  constructor
  · intro left
    split at left
    · next parent found =>
        split at left
        · next outside =>
            obtain rfl := Option.some.inj left
            exact ⟨found, outside.1, outside.2⟩
        · cases left
    · cases left
  · rintro ⟨parent, outside, other⟩
    change machine.parentOf source = some composite at parent
    change machine.parentOf target ≠ some composite at outside
    simp [parent, outside, other]

end DocumentMachine

section Hoisting

variable [Interpreter]

/-- The rows above the first `## transitions` of the text, which the copy keeps as they
are, are rows of the text. -/
def RowsKept (text : Text) : Prop :=
  ∀ row ∈ (headMachine text).rows, row ∈ (parseMachine text).rows

/-- The text is laid out as the prompt asks: the states stand above the transitions, and
no composite that a row leaves has the name of the table's first column, which would make
its rows headers. -/
structure LaidOut (text : Text) : Prop where
  states : (headMachine text).states.map DocumentState.outline =
    (parseMachine text).states.map DocumentState.outline
  rows : RowsKept text
  named : ∀ row ∈ (parseMachine text).rows, ∀ composite,
    (parseMachine text).leaves row.source row.target = some composite →
      Interpreter.lower composite ≠ "source".toList

theorem hierarchy_copy {text : Text} (nested : (parseMachine text).Nested)
    (laidOut : LaidOut text) :
    (parseMachine (normalizeForVerification text)).hierarchy =
      (parseMachine text).hierarchy :=
  DocumentMachine.hierarchy_eq_of_outlines ((outlines_copy nested).trans laidOut.states)

theorem mem_rows_copy {text : Text} (nested : (parseMachine text).Nested) {row : DocumentRow} :
    row ∈ (parseMachine (normalizeForVerification text)).rows ↔
      row ∈ (headMachine text).rows ∨ ∃ original ∈ (parseMachine text).rows,
        isSource ((parseMachine text).copySource original.source original.target) = true ∧
        row = ⟨(parseMachine text).copySource original.source original.target,
          original.event, [], original.target⟩ := by
  rw [rows_copy nested, List.mem_append]
  refine or_congr Iff.rfl ?_
  simp only [List.mem_map, List.mem_filter, mem_hoistAll, List.not_mem_nil, not_false_eq_true,
    true_and, DocumentMachine.transitions]
  constructor
  · rintro ⟨_, ⟨⟨_, ⟨original, member, rfl⟩, rfl⟩, source⟩, rfl⟩
    exact ⟨original, member, source, rfl⟩
  · rintro ⟨original, member, source, rfl⟩
    exact ⟨_, ⟨⟨_, ⟨original, member, rfl⟩, rfl⟩, source⟩, rfl⟩

theorem mem_rows_copy_of_mem {text : Text} (nested : (parseMachine text).Nested)
    {row : DocumentRow} (member : row ∈ (parseMachine text).rows)
    (source : isSource ((parseMachine text).copySource row.source row.target) = true) :
    ⟨(parseMachine text).copySource row.source row.target, row.event, [], row.target⟩ ∈
      (parseMachine (normalizeForVerification text)).rows :=
  (mem_rows_copy nested).mpr (.inr ⟨row, member, source, rfl⟩)

/-- The copy of a laid out text is the text's machine, hoisted. -/
theorem hoisted_copy {text : Text} (nested : (parseMachine text).Nested)
    (laidOut : LaidOut text) :
    (parseMachine text).hierarchy.Hoisted (parseMachine text).table
      (parseMachine (normalizeForVerification text)).table where
  sound := by
    rintro source target ⟨row, member, rfl, rfl⟩
    rcases (mem_rows_copy nested).mp member with kept | ⟨original, originalMem, _, rfl⟩
    · exact .inl ⟨row, laidOut.rows row kept, rfl, rfl⟩
    · cases left : (parseMachine text).leaves original.source original.target with
      | none => exact .inl ⟨original, originalMem, by simp [DocumentMachine.copySource, left], rfl⟩
      | some composite =>
          refine .inr ⟨original.source, ⟨original, originalMem, rfl, rfl⟩, ?_⟩
          simpa [DocumentMachine.copySource, left] using
            DocumentMachine.leaves_eq_some_iff.mp left
  staying := by
    rintro source target ⟨row, member, rfl, rfl⟩ stays
    have none : (parseMachine text).leaves row.source row.target = none := by
      cases left : (parseMachine text).leaves row.source row.target with
      | none => rfl
      | some composite =>
          exact absurd (DocumentMachine.leaves_eq_some_iff.mp left) (stays composite)
    refine ⟨_, mem_rows_copy_of_mem nested member ?_, ?_, rfl⟩
    · simpa [DocumentMachine.copySource, none] using (cleanCell_of_mem_rows member).2.2.2
    · simp [DocumentMachine.copySource, none]
  leaving := by
    rintro source target composite ⟨row, member, rfl, rfl⟩ leaves
    have left := DocumentMachine.leaves_eq_some_iff.mpr leaves
    refine ⟨_, mem_rows_copy_of_mem nested member ?_, ?_, rfl⟩
    · have kept : isSource composite = true := by
        rw [(isId_of_leaves left).isSource]
        exact decide_eq_true (laidOut.named row member composite left)
      simpa only [DocumentMachine.copySource, left, Option.getD_some] using kept
    · simp [DocumentMachine.copySource, left]

end Hoisting

/-! ## A machine with an overlooked exit -/

/-- A composite whose only exits start at a child that nothing leads to. -/
def overlookedExit : Text := List.intercalate "\n".toList [
  "# machine Overlooked".toList,
  "## state a [initial]".toList,
  "## state p".toList,
  "### state x [initial]".toList,
  "### state y".toList,
  "## state z [final]".toList,
  "## transitions".toList,
  "| Source | Event | Guard".toList ++ " | Target | Action |".toList,
  "|---|---|---|---|---|".toList,
  "| a | GO | | p | |".toList,
  "| y | OUT | large | z | |".toList,
  "| y | OUT | small | a | |".toList]

/-- What the parser reads in it. -/
def overlookedMachine : DocumentMachine where
  states := [
    { id := "a".toList, label := "A".toList, initial := true, final := false, parent := none },
    { id := "p".toList, label := "P".toList, initial := false, final := false, parent := none },
    { id := "x".toList, label := "X".toList, initial := true, final := false,
      parent := some "p".toList },
    { id := "y".toList, label := "Y".toList, initial := false, final := false,
      parent := some "p".toList },
    { id := "z".toList, label := "Z".toList, initial := false, final := true, parent := none }]
  rows := [
    ⟨"a".toList, "GO".toList, [], "p".toList⟩,
    ⟨"y".toList, "OUT".toList, "large".toList, "z".toList⟩,
    ⟨"y".toList, "OUT".toList, "small".toList, "a".toList⟩]

namespace Overlooked

theorem parentOf_eq_some {id parent : Text} :
    overlookedMachine.hierarchy.parent id = some parent ↔
      (id = "x".toList ∨ id = "y".toList) ∧ parent = "p".toList := by
  constructor
  · intro found
    rcases Option.bind_eq_some_iff.mp found with ⟨state, first, isParent⟩
    have member := List.mem_of_find?_eq_some first
    obtain rfl : state.id = id := by simpa using List.find?_some first
    exact (by decide : ∀ state ∈ overlookedMachine.states.reverse, ∀ parent ∈ state.parent,
      (state.id = "x".toList ∨ state.id = "y".toList) ∧ parent = "p".toList)
      state member parent isParent
  · rintro ⟨rfl | rfl, rfl⟩ <;> decide

theorem within_of_x {ancestor : Text}
    (within : overlookedMachine.hierarchy.Within "x".toList ancestor) :
    ancestor = "x".toList ∨ ancestor = "p".toList := by
  cases within with
  | refl => exact .inl rfl
  | inside isChild within =>
      obtain ⟨_, rfl⟩ := parentOf_eq_some.mp isChild
      cases within with
      | refl => exact .inr rfl
      | inside isChild within => exact absurd (parentOf_eq_some.mp isChild).1 (by decide)

theorem within_of_a {ancestor : Text}
    (within : overlookedMachine.hierarchy.Within "a".toList ancestor) :
    ancestor = "a".toList := by
  cases within with
  | refl => rfl
  | inside isChild within => exact absurd (parentOf_eq_some.mp isChild).1 (by decide)

theorem leaf_of_ne {state : Text} (declared : overlookedMachine.hierarchy.Declared state)
    (other : state ≠ "p".toList) : overlookedMachine.hierarchy.Leaf state := by
  refine ⟨declared, ?_⟩
  rintro ⟨child, isChild⟩
  exact other (parentOf_eq_some.mp isChild).2

theorem leaf_x : overlookedMachine.hierarchy.Leaf "x".toList :=
  leaf_of_ne (by decide) (by decide)

theorem leaf_z : overlookedMachine.hierarchy.Leaf "z".toList :=
  leaf_of_ne (by decide) (by decide)

theorem leaf_of_enters_a {leaf : Text}
    (enters : overlookedMachine.hierarchy.Enters "a".toList leaf) : leaf = "a".toList := by
  cases enters with
  | leaf isLeaf => rfl
  | child isChild initial enters => exact absurd (parentOf_eq_some.mp isChild).2 (by decide)

theorem leaf_of_enters_p {leaf : Text}
    (enters : overlookedMachine.hierarchy.Enters "p".toList leaf) : leaf = "x".toList := by
  cases enters with
  | leaf isLeaf => exact absurd ⟨"x".toList, parentOf_eq_some.mpr (by decide)⟩ isLeaf.2
  | child isChild initial enters =>
      rcases (parentOf_eq_some.mp isChild).1 with rfl | rfl
      · cases enters with
        | leaf isLeaf => rfl
        | child isChild initial enters =>
            exact absurd (parentOf_eq_some.mp isChild).2 (by decide)
      · exact absurd initial (by decide)

theorem row_cases {source target : Text} (row : overlookedMachine.table source target) :
    (source = "a".toList ∧ target = "p".toList) ∨ source = "y".toList := by
  rcases row with ⟨row, member, rfl, rfl⟩
  revert row
  decide

theorem active_cases {leaf : Text}
    (reachable : overlookedMachine.hierarchy.ReachableLeaf overlookedMachine.table leaf) :
    leaf = "a".toList ∨ leaf = "x".toList := by
  induction reachable with
  | start declared top initial enters =>
      rcases initial with ⟨state, member, rfl, initial⟩
      rcases (by decide : ∀ state ∈ overlookedMachine.states, state.initial = true →
        state.id = "a".toList ∨ state.id = "x".toList) state member initial with same | same
      · rw [same] at enters
        exact .inl (leaf_of_enters_a enters)
      · rw [same] at top
        exact absurd top (by decide)
  | step reachable row within enters ih =>
      rcases row_cases row with ⟨rfl, rfl⟩ | rfl
      · exact .inr (leaf_of_enters_p enters)
      · rcases ih with rfl | rfl
        · exact absurd (within_of_a within) (by decide)
        · exact absurd (within_of_x within) (by decide)

theorem not_reachable_y : ¬overlookedMachine.Reachable "y".toList := by
  rintro ⟨leaf, reachable, within⟩
  rcases active_cases reachable with rfl | rfl
  · exact absurd (within_of_a within) (by decide)
  · exact absurd (within_of_x within) (by decide)

theorem reachable_p : overlookedMachine.Reachable "p".toList := by
  have entered : overlookedMachine.hierarchy.Enters "p".toList "x".toList :=
    .child (parentOf_eq_some.mpr (by decide)) (by decide) (.leaf leaf_x)
  have leaf : overlookedMachine.hierarchy.Leaf "a".toList :=
    leaf_of_ne (by decide) (by decide)
  have start : overlookedMachine.hierarchy.ReachableLeaf overlookedMachine.table "a".toList :=
    .start (by decide) (by decide) (by decide) (.leaf leaf)
  exact ⟨"x".toList, .step start (by decide) (.refl _) entered,
    .inside (parentOf_eq_some.mpr (by decide)) (.refl _)⟩

theorem leaves_p : overlookedMachine.hierarchy.Leaves "y".toList "z".toList "p".toList :=
  DocumentMachine.leaves_eq_some_iff.mp (by decide)

end Overlooked

section

attribute [local instance] Interpreter.ascii

theorem parse_overlookedExit : parseMachine overlookedExit = overlookedMachine := by
  decide +kernel

theorem nested_overlookedExit : (parseMachine overlookedExit).Nested := by
  rw [parse_overlookedExit]
  decide

theorem laidOut_overlookedExit : LaidOut overlookedExit := by
  have head : (headMachine overlookedExit).states.map DocumentState.outline =
      overlookedMachine.states.map DocumentState.outline ∧
      (headMachine overlookedExit).rows = [] := by decide +kernel
  constructor
  · rw [parse_overlookedExit]
    exact head.1
  · intro row member
    rw [head.2] at member
    cases member
  · rw [parse_overlookedExit]
    decide +kernel

end

/-! ## Reachability -/

section Reachability

variable [Interpreter]

/-- The copy has the same reachable states as the text. -/
def ReachabilityPreserved (text : Text) : Prop :=
  ∀ state, (parseMachine (normalizeForVerification text)).Reachable state ↔
    (parseMachine text).Reachable state

/-- Reachability is preserved exactly when the exits of unreachable children are covered. -/
theorem reachabilityPreserved_iff {text : Text} (nested : (parseMachine text).Nested)
    (laidOut : LaidOut text) :
    ReachabilityPreserved text ↔
      (parseMachine text).hierarchy.ExitsCovered (parseMachine text).table := by
  unfold ReachabilityPreserved DocumentMachine.Reachable
  rw [hierarchy_copy nested laidOut]
  exact (hoisted_copy nested laidOut).reachable_iff

end Reachability

section

attribute [local instance] Interpreter.ascii

/-- The copy reaches `z` and the document does not. -/
theorem not_reachabilityPreserved_overlookedExit : ¬ReachabilityPreserved overlookedExit := by
  intro preserved
  unfold ReachabilityPreserved DocumentMachine.Reachable at preserved
  rw [hierarchy_copy nested_overlookedExit laidOut_overlookedExit] at preserved
  have covered := (hoisted_copy nested_overlookedExit laidOut_overlookedExit).reachable_iff.mp
    preserved
  rw [parse_overlookedExit] at covered
  have active := covered _ _ _ (by decide) Overlooked.leaves_p Overlooked.reachable_p
    Overlooked.not_reachable_y "z".toList (.leaf Overlooked.leaf_z)
  exact absurd (Overlooked.active_cases active) (by decide)

theorem reachabilityPreserved_overlookedExit :
    ReachabilityPreserved overlookedExit ↔
      (parseMachine overlookedExit).hierarchy.ExitsCovered (parseMachine overlookedExit).table :=
  reachabilityPreserved_iff nested_overlookedExit laidOut_overlookedExit

end

/-! ## Deadlock -/

section Deadlock

variable [Interpreter]

/-- A leaf that is not final is stuck in the text exactly when it is stuck in the copy. -/
def DeadlocksPreserved (text : Text) : Prop :=
  ∀ leaf, (parseMachine text).hierarchy.Leaf leaf → ¬(parseMachine text).hierarchy.Final leaf →
    (¬(parseMachine text).Enabled leaf ↔
      ¬(parseMachine (normalizeForVerification text)).Enabled leaf)

/-- Deadlocks are preserved exactly when no leaf inherits its only exit. -/
theorem deadlocksPreserved_iff {text : Text} (nested : (parseMachine text).Nested)
    (laidOut : LaidOut text) :
    DeadlocksPreserved text ↔
      (parseMachine text).hierarchy.ExitsInherited (parseMachine text).table := by
  unfold DeadlocksPreserved DocumentMachine.Enabled
  rw [hierarchy_copy nested laidOut]
  exact (hoisted_copy nested laidOut).stuck_iff

end Deadlock

section

attribute [local instance] Interpreter.ascii

/-- The document is stuck in `x`, and the copy lets it leave. -/
theorem not_deadlocksPreserved_overlookedExit : ¬DeadlocksPreserved overlookedExit := by
  intro preserved
  unfold DeadlocksPreserved DocumentMachine.Enabled at preserved
  rw [hierarchy_copy nested_overlookedExit laidOut_overlookedExit] at preserved
  have inherited := (hoisted_copy nested_overlookedExit laidOut_overlookedExit).stuck_iff.mp
    preserved
  rw [parse_overlookedExit] at inherited
  rcases inherited "y".toList "z".toList "p".toList (by decide) Overlooked.leaves_p "x".toList
    Overlooked.leaf_x (by decide)
    (.inside (Overlooked.parentOf_eq_some.mpr (by decide)) (.refl _)) with
    ⟨source, target, row, within⟩
  rcases Overlooked.within_of_x within with rfl | rfl <;>
    rcases Overlooked.row_cases row with ⟨same, _⟩ | same <;> exact absurd same (by decide)

theorem deadlocksPreserved_overlookedExit :
    DeadlocksPreserved overlookedExit ↔
      (parseMachine overlookedExit).hierarchy.ExitsInherited
        (parseMachine overlookedExit).table :=
  deadlocksPreserved_iff nested_overlookedExit laidOut_overlookedExit

end

/-! ## Determinism -/

section Determinism

variable [Interpreter]

/-- A deterministic table has a deterministic copy. -/
def DeterminismPreserved (text : Text) : Prop :=
  (parseMachine text).Deterministic →
    (parseMachine (normalizeForVerification text)).Deterministic

/-- Nothing in the copy clashes: neither two rows of the text that get the same source, nor
two rows above the first `## transitions`, which the copy keeps with their guards, nor a
guardless one of those with a row of the text. -/
structure ClashFree (text : Text) : Prop where
  rows : ∀ left ∈ (parseMachine text).rows, ∀ right ∈ (parseMachine text).rows,
    (parseMachine text).copySource left.source left.target =
      (parseMachine text).copySource right.source right.target →
    isSource ((parseMachine text).copySource left.source left.target) = true →
    left.event = right.event → left.target = right.target
  above : (headMachine text).Deterministic
  across : ∀ left ∈ (headMachine text).rows, left.guard = [] →
    ∀ right ∈ (parseMachine text).rows,
    left.source = (parseMachine text).copySource right.source right.target →
    left.event = right.event → left.target = right.target

/-- The copy is deterministic exactly when hoisting rows and dropping their guards makes no
two of them clash. -/
theorem deterministic_copy_iff {text : Text} (nested : (parseMachine text).Nested) :
    (parseMachine (normalizeForVerification text)).Deterministic ↔ ClashFree text := by
  constructor
  · intro copied
    constructor
    · intro left leftMem right rightMem source isSource event
      have leftCopy := mem_rows_copy_of_mem nested leftMem isSource
      have rightCopy := mem_rows_copy_of_mem nested rightMem (source ▸ isSource)
      have same := copied _ leftCopy _ rightCopy source event rfl
      exact same
    · intro left leftMem right rightMem
      exact copied left ((mem_rows_copy nested).mpr (.inl leftMem)) right
        ((mem_rows_copy nested).mpr (.inl rightMem))
    · intro left leftMem noGuard right rightMem source event
      have isSource := (cleanCell_of_mem_rows leftMem).2.2.2
      have leftCopy := (mem_rows_copy nested).mpr (.inl leftMem)
      have rightCopy := mem_rows_copy_of_mem nested rightMem (source ▸ isSource)
      have same := copied _ leftCopy _ rightCopy source event noGuard
      exact same
  · intro free left leftMem right rightMem source event guard
    rcases (mem_rows_copy nested).mp leftMem with leftKept | ⟨first, firstMem, isSource, rfl⟩ <;>
      rcases (mem_rows_copy nested).mp rightMem with rightKept | ⟨second, secondMem, _, rfl⟩
    · exact free.above left leftKept right rightKept source event guard
    · exact free.across left leftKept guard second secondMem source event
    · exact (free.across right rightKept guard.symm first firstMem source.symm event.symm).symm
    · exact free.rows first firstMem second secondMem source isSource event

/-- Determinism is preserved exactly by the deterministic tables that are free of clashes. -/
theorem determinismPreserved_iff {text : Text} (nested : (parseMachine text).Nested) :
    DeterminismPreserved text ↔ ((parseMachine text).Deterministic → ClashFree text) :=
  forall_congr' fun _ => deterministic_copy_iff nested

end Determinism

section

attribute [local instance] Interpreter.ascii

/-- Two exits that only their guards tell apart become one source with two targets. -/
theorem not_determinismPreserved_overlookedExit : ¬DeterminismPreserved overlookedExit := by
  intro preserved
  exact absurd (preserved (by decide +kernel)) (by decide +kernel)

theorem determinismPreserved_overlookedExit :
    DeterminismPreserved overlookedExit ↔
      ((parseMachine overlookedExit).Deterministic → ClashFree overlookedExit) :=
  determinismPreserved_iff nested_overlookedExit

end

end OrcaValidator
