import Mathlib.Tactic.ByContra

/-!
# Hierarchical state machines

States nested in composite states, with the UML reading of a transition table: the
active configuration is a leaf together with its ancestors, entering a composite enters
its initial child, and a row is enabled when its source is the active leaf or one of its
ancestors.  Guards are ignored, so a row can always be taken.

A table is *hoisted* when its rows that leave the composite of their source start at the
composite instead.  Hoisting keeps every run of the machine, since a composite is active
whenever one of its children is; what it may add is characterized exactly, for
reachability and for deadlock.
-/

namespace Library

universe u

/-- The states of a statechart, each in its parent if it has one. -/
@[ext]
structure Hierarchy (State : Type u) where
  Declared : State → Prop
  parent : State → Option State
  Initial : State → Prop
  Final : State → Prop

/-- The source and the target of each row of a transition table. -/
abbrev Table (State : Type u) := State → State → Prop

namespace Hierarchy

variable {State : Type u} (tree : Hierarchy State)

/-- The state has a child. -/
def Composite (state : State) : Prop := ∃ child, tree.parent child = some state

/-- The state is declared and has no child. -/
def Leaf (state : State) : Prop := tree.Declared state ∧ ¬tree.Composite state

/-- A state is its ancestor, or lies somewhere below it. -/
inductive Within : State → State → Prop where
  | refl (state : State) : Within state state
  | inside {child parent ancestor : State} (isChild : tree.parent child = some parent)
      (within : Within parent ancestor) : Within child ancestor

/-- Entering a state ends in a leaf: the state itself, or a leaf of its initial child. -/
inductive Enters : State → State → Prop where
  | leaf {state : State} (isLeaf : tree.Leaf state) : Enters state state
  | child {state child leaf : State} (isChild : tree.parent child = some state)
      (initial : tree.Initial child) (enters : Enters child leaf) : Enters state leaf

/-- Some row of the table is enabled while this leaf is active. -/
def Enabled (table : Table State) (leaf : State) : Prop :=
  ∃ source target, table source target ∧ tree.Within leaf source

/-- The leaves that can become active. -/
inductive ReachableLeaf (table : Table State) : State → Prop where
  | start {state leaf : State} (declared : tree.Declared state)
      (top : tree.parent state = none) (initial : tree.Initial state)
      (enters : tree.Enters state leaf) : ReachableLeaf table leaf
  | step {leaf source target next : State} (reachable : ReachableLeaf table leaf)
      (row : table source target) (within : tree.Within leaf source)
      (enters : tree.Enters target next) : ReachableLeaf table next

/-- A state is reachable when it is active in some reachable configuration. -/
def Reachable (table : Table State) (state : State) : Prop :=
  ∃ leaf, tree.ReachableLeaf table leaf ∧ tree.Within leaf state

/-- A row from `source` to `target` leaves the composite of its source: the target is
neither the composite nor one of its children. -/
structure Leaves (source target composite : State) : Prop where
  parent : tree.parent source = some composite
  outside : tree.parent target ≠ some composite
  other : target ≠ composite

/-- The second table is the first one hoisted; rows of the first may be kept besides. -/
structure Hoisted (table copy : Table State) : Prop where
  sound : ∀ {source target}, copy source target → table source target ∨
    ∃ child, table child target ∧ tree.Leaves child target source
  staying : ∀ {source target}, table source target →
    (∀ composite, ¬tree.Leaves source target composite) → copy source target
  leaving : ∀ {source target composite}, table source target →
    tree.Leaves source target composite → copy composite target

variable {tree} {table copy : Table State}

theorem Enters.isLeaf {state leaf : State} (enters : tree.Enters state leaf) :
    tree.Leaf leaf := by
  induction enters with
  | leaf isLeaf => exact isLeaf
  | child isChild initial enters ih => exact ih

theorem Within.eq_of_leaf {state leaf : State} (within : tree.Within state leaf)
    (isLeaf : tree.Leaf leaf) : state = leaf := by
  induction within with
  | refl state => rfl
  | inside isChild within ih =>
      obtain rfl := ih isLeaf
      exact absurd ⟨_, isChild⟩ isLeaf.2

/-- A row that is enabled stays enabled when the table is hoisted, perhaps at the
composite. -/
theorem Hoisted.row {leaf source target : State} (hoisted : tree.Hoisted table copy)
    (row : table source target) (within : tree.Within leaf source) :
    ∃ ancestor, copy ancestor target ∧ tree.Within leaf ancestor := by
  by_cases leaves : ∃ composite, tree.Leaves source target composite
  · rcases leaves with ⟨composite, leaves⟩
    refine ⟨composite, hoisted.leaving row leaves, ?_⟩
    clear row
    induction within with
    | refl state => exact .inside leaves.parent (.refl composite)
    | inside isChild within ih => exact .inside isChild (ih leaves)
  · exact ⟨source, hoisted.staying row (not_exists.mp leaves), within⟩

theorem Hoisted.enabled {leaf : State} (hoisted : tree.Hoisted table copy)
    (enabled : tree.Enabled table leaf) : tree.Enabled copy leaf := by
  rcases enabled with ⟨source, target, row, within⟩
  rcases hoisted.row row within with ⟨ancestor, hoistedRow, ancestorWithin⟩
  exact ⟨ancestor, target, hoistedRow, ancestorWithin⟩

theorem Hoisted.reachableLeaf {leaf : State} (hoisted : tree.Hoisted table copy)
    (reachable : tree.ReachableLeaf table leaf) : tree.ReachableLeaf copy leaf := by
  induction reachable with
  | start declared top initial enters => exact .start declared top initial enters
  | step reachable row within enters ih =>
      rcases hoisted.row row within with ⟨ancestor, hoistedRow, ancestorWithin⟩
      exact .step ih hoistedRow ancestorWithin enters

/-! ## What hoisting adds -/

/-- Wherever a composite can be active although the child that leaves it never is, what
the child's row enters is reachable anyway. -/
def ExitsCovered (tree : Hierarchy State) (table : Table State) : Prop :=
  ∀ child target composite, table child target → tree.Leaves child target composite →
    tree.Reachable table composite → ¬tree.Reachable table child →
    ∀ leaf, tree.Enters target leaf → tree.ReachableLeaf table leaf

theorem Hoisted.reachableLeaf_of_covered {leaf : State} (hoisted : tree.Hoisted table copy)
    (covered : tree.ExitsCovered table) (reachable : tree.ReachableLeaf copy leaf) :
    tree.ReachableLeaf table leaf := by
  induction reachable with
  | start declared top initial enters => exact .start declared top initial enters
  | @step leaf source target next _ row within enters ih =>
      rcases hoisted.sound row with kept | ⟨child, original, leaves⟩
      · exact .step ih kept within enters
      · by_cases active : tree.Reachable table child
        · rcases active with ⟨start, startReachable, startWithin⟩
          exact .step startReachable original startWithin enters
        · exact covered child target source original leaves ⟨leaf, ih, within⟩ active next enters

/-- Hoisting changes no reachability exactly when its exits are covered. -/
theorem Hoisted.reachable_iff (hoisted : tree.Hoisted table copy) :
    (∀ state, tree.Reachable copy state ↔ tree.Reachable table state) ↔
      tree.ExitsCovered table := by
  constructor
  · intro same child target composite row leaves active _ next enters
    rcases active with ⟨leaf, leafReachable, within⟩
    have entered : tree.Reachable copy next :=
      ⟨next, .step (hoisted.reachableLeaf leafReachable) (hoisted.leaving row leaves) within
        enters, .refl next⟩
    rcases (same next).mp entered with ⟨other, otherReachable, otherWithin⟩
    rwa [← otherWithin.eq_of_leaf enters.isLeaf]
  · intro covered state
    constructor
    · rintro ⟨leaf, reachable, within⟩
      exact ⟨leaf, hoisted.reachableLeaf_of_covered covered reachable, within⟩
    · rintro ⟨leaf, reachable, within⟩
      exact ⟨leaf, hoisted.reachableLeaf reachable, within⟩

/-- Every leaf of a composite that some row leaves has an enabled row anyway, if it is not
final. -/
def ExitsInherited (tree : Hierarchy State) (table : Table State) : Prop :=
  ∀ child target composite, table child target → tree.Leaves child target composite →
    ∀ leaf, tree.Leaf leaf → ¬tree.Final leaf → tree.Within leaf composite →
      tree.Enabled table leaf

/-- Hoisting unlocks no leaf exactly when its exits are inherited by leaves that can move
anyway. -/
theorem Hoisted.stuck_iff (hoisted : tree.Hoisted table copy) :
    (∀ leaf, tree.Leaf leaf → ¬tree.Final leaf →
      (¬tree.Enabled table leaf ↔ ¬tree.Enabled copy leaf)) ↔ tree.ExitsInherited table := by
  constructor
  · intro same child target composite row leaves leaf isLeaf notFinal within
    by_contra stuck
    exact (same leaf isLeaf notFinal).mp stuck
      ⟨composite, target, hoisted.leaving row leaves, within⟩
  · intro inherited leaf isLeaf notFinal
    refine not_congr ⟨hoisted.enabled, ?_⟩
    rintro ⟨source, target, row, within⟩
    rcases hoisted.sound row with kept | ⟨child, original, leaves⟩
    · exact ⟨source, target, kept, within⟩
    · exact inherited child target source original leaves leaf isLeaf notFinal within

end Hierarchy

end Library
