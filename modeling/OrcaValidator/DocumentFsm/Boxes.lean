import Mathlib.Data.List.Perm.Basic
import OrcaValidator.DocumentFsm.CopyMachine
import OrcaValidator.DocumentFsm.Mermaid

/-!
# What the diagram shows

The lines of a diagram are read back with the box that encloses each of them.  Its edges are
the transitions of the machine, whatever the text was.  Its boxes are the tree of the parents
only where no composite lies within another one: the boxes stand one after the other, and a
composite within a composite is declared as a leaf there and as a box at the top level.
-/

namespace OrcaValidator

open Library

/-- The boxes that are open after a line. -/
def MermaidLine.after (boxes : List Text) : MermaidLine → List Text
  | opens _ id => id :: boxes
  | closes => boxes.tail
  | _ => boxes

/-- Every line with the box that directly encloses it, given the open boxes. -/
def enclosed (boxes : List Text) : List MermaidLine → List (Option Text × MermaidLine)
  | [] => []
  | line :: lines => (boxes.head?, line) :: enclosed (line.after boxes) lines

/-- An edge line, with the box that encloses it. -/
def edgeOf : Option Text × MermaidLine → Option (Option Text × Transition)
  | (box, .edge _ transition) => some (box, transition)
  | _ => none

/-- The edges of a diagram, each with the box in which it is drawn. -/
def drawnEdges (lines : List MermaidLine) : List (Option Text × Transition) :=
  (enclosed [] lines).filterMap edgeOf

theorem enclosed_append_plain (boxes : List Text) {lines : List MermaidLine}
    (plain : ∀ line ∈ lines, line.Plain) (rest : List MermaidLine) :
    enclosed boxes (lines ++ rest) =
      lines.map (fun line => (boxes.head?, line)) ++ enclosed boxes rest := by
  induction lines with
  | nil => rfl
  | cons line lines ih =>
      rw [List.forall_mem_cons] at plain
      have same : line.after boxes = boxes := by
        cases line with
        | opens label id => exact plain.1.elim
        | closes => exact plain.1.elim
        | _ => rfl
      rw [List.cons_append, enclosed, same, ih plain.2]
      rfl

/-- A box with plain lines in it. -/
theorem enclosed_box (boxes : List Text) (label id : Text) {body : List MermaidLine}
    (plain : ∀ line ∈ body, line.Plain) (rest : List MermaidLine) :
    enclosed boxes (.opens label id :: (body ++ [.closes]) ++ rest) =
      (boxes.head?, .opens label id) :: body.map (fun line => (some id, line)) ++
        (some id, .closes) :: enclosed boxes rest := by
  rw [List.cons_append, List.append_assoc, enclosed]
  change _ :: enclosed (id :: boxes) (body ++ ([.closes] ++ rest)) = _
  rw [enclosed_append_plain (id :: boxes) plain]
  rfl

theorem plain_stateLines {indent : Text} {labelled marked : List DocumentState} :
    ∀ line ∈ stateLines indent labelled marked, line.Plain := by
  intro line member
  simp only [stateLines, List.mem_append, List.mem_map] at member
  rcases member with (⟨_, _, rfl⟩ | ⟨_, _, rfl⟩) | ⟨_, _, rfl⟩ <;> trivial

theorem plain_edges {indent : Text} {transitions : List Transition} :
    ∀ line ∈ transitions.map (MermaidLine.edge indent), line.Plain := by
  intro line member
  rcases List.mem_map.mp member with ⟨_, _, rfl⟩
  trivial

namespace DocumentMachine

/-- The lines within the box of a composite. -/
def body (machine : DocumentMachine) (composite : Text) : List MermaidLine :=
  stateLines deep (machine.kids composite) (machine.kids composite) ++
    (machine.within (some composite)).map (.edge deep)

/-- The lines above all boxes. -/
def preamble (machine : DocumentMachine) : List MermaidLine :=
  [.verbatim "stateDiagram-v2".toList, .verbatim "  direction LR".toList, .verbatim []] ++
    stateLines shallow (machine.outer.filter fun state => state.id ∉ machine.composites)
      machine.outer

/-- The label line of a composite's box. -/
def opening (machine : DocumentMachine) (composite : Text) : MermaidLine :=
  .opens (((machine.byId.get? composite).map DocumentState.label).getD []) composite

theorem plain_body (machine : DocumentMachine) (composite : Text) :
    ∀ line ∈ machine.body composite, line.Plain :=
  List.forall_mem_append.mpr ⟨plain_stateLines, plain_edges⟩

theorem plain_preamble (machine : DocumentMachine) : ∀ line ∈ machine.preamble, line.Plain := by
  refine List.forall_mem_append.mpr ⟨?_, plain_stateLines⟩
  intro line member
  simp only [List.mem_cons, List.not_mem_nil, or_false] at member
  rcases member with rfl | rfl | rfl <;> trivial

/-- The lines of a composite's box, each with the box that encloses it. -/
def boxEnclosed (machine : DocumentMachine) (composite : Text) :
    List (Option Text × MermaidLine) :=
  (none, machine.opening composite) ::
    (machine.body composite).map (fun line => (some composite, line)) ++
      [(some composite, .closes)]

theorem enclosed_boxes (machine : DocumentMachine) (composites : List Text)
    (rest : List MermaidLine) :
    enclosed [] (composites.flatMap machine.box ++ rest) =
      composites.flatMap machine.boxEnclosed ++ enclosed [] rest := by
  induction composites with
  | nil => rfl
  | cons composite composites ih =>
      rw [List.flatMap_cons, List.flatMap_cons, List.append_assoc, List.append_assoc, ← ih]
      refine (enclosed_box [] _ composite (machine.plain_body composite) _).trans ?_
      simp [boxEnclosed, opening]

theorem diagram_eq (machine : DocumentMachine) :
    machine.diagram = machine.preamble ++
      ((machine.composites.mergeSort codePointsLe).flatMap machine.box ++
        (machine.within none).map (.edge shallow)) := by
  rw [diagram, preamble, List.append_assoc]

/-- Where every line of the diagram stands. -/
theorem enclosed_diagram (machine : DocumentMachine) :
    enclosed [] machine.diagram =
      machine.preamble.map (fun line => (none, line)) ++
        (machine.composites.mergeSort codePointsLe).flatMap machine.boxEnclosed ++
        (machine.within none).map fun transition => (none, .edge shallow transition) := by
  have last := enclosed_append_plain [] (@plain_edges shallow (machine.within none)) []
  rw [List.append_nil] at last
  rw [diagram_eq, enclosed_append_plain [] machine.plain_preamble, enclosed_boxes, last, enclosed,
    List.append_nil, List.map_map]
  simp [Function.comp_def]

/-! ## Every transition is drawn once -/

theorem perm_filter_mem {α κ : Type} [DecidableEq κ] (items : List α) (key : α → κ)
    {keys : List κ} (distinct : keys.Nodup) :
    (keys.flatMap fun one => items.filter fun item => key item = one).Perm
      (items.filter fun item => key item ∈ keys) := by
  induction keys with
  | nil => simp
  | cons one keys ih =>
      have absent := (List.nodup_cons.mp distinct).1
      have parts := List.filter_append_perm (fun item => decide (key item = one))
        (items.filter fun item => key item ∈ one :: keys)
      have first : (items.filter fun item => key item ∈ one :: keys).filter
          (fun item => key item = one) = items.filter fun item => key item = one := by
        rw [List.filter_filter]
        apply List.filter_congr
        intro item _
        by_cases same : key item = one
        · simp [same]
        · simp [same]
      have others : (items.filter fun item => key item ∈ one :: keys).filter
          (fun item => !decide (key item = one)) = items.filter fun item => key item ∈ keys := by
        rw [List.filter_filter]
        apply List.filter_congr
        intro item _
        by_cases same : key item = one
        · simp [same, absent]
        · simp [same]
      rw [first, others] at parts
      rw [List.flatMap_cons]
      exact (List.Perm.append_left _ (ih (List.nodup_cons.mp distinct).2)).trans parts

/-- Items sorted by distinct keys, one key after the other, are all the items. -/
theorem perm_flatMap_filter {α κ : Type} [DecidableEq κ] (items : List α) (key : α → κ)
    {keys : List κ} (distinct : keys.Nodup) (covered : ∀ item ∈ items, key item ∈ keys) :
    (keys.flatMap fun one => items.filter fun item => key item = one).Perm items := by
  have all : (items.filter fun item => key item ∈ keys) = items := by
    apply List.filter_eq_self.mpr
    intro item member
    exact decide_eq_true (covered item member)
  exact (perm_filter_mem items key distinct).trans (.of_eq all)

theorem perm_filter_append {α : Type} (items : List α) (first : α → Prop) [DecidablePred first] :
    ((items.filter fun item => first item) ++ items.filter fun item => ¬first item).Perm
      items := by
  have parts := List.filter_append_perm (fun item => decide (first item)) items
  simpa only [decide_not] using parts

/-- A transition with the composite in whose box it belongs. -/
def homed (machine : DocumentMachine) (transition : Transition) : Option Text × Transition :=
  (machine.home transition, transition)

/-- Where edges may stand: in the box of a composite, or at the top level. -/
def places (machine : DocumentMachine) : List (Option Text) :=
  (machine.composites.mergeSort codePointsLe).map some ++ [none]

theorem mem_places (machine : DocumentMachine) (transition : Transition) :
    machine.home transition ∈ machine.places := by
  apply List.mem_append.mpr
  cases inside : machine.home transition with
  | none => exact .inr List.mem_cons_self
  | some composite =>
      have member := (List.mergeSort_perm machine.composites codePointsLe).mem_iff.mpr
        (home_mem_composites inside)
      exact .inl (List.mem_map_of_mem member)

theorem nodup_places (machine : DocumentMachine) : machine.places.Nodup := by
  have sorted := (List.mergeSort_perm machine.composites codePointsLe).nodup_iff.mpr
    machine.nodup_composites
  apply List.nodup_append.mpr
  refine ⟨sorted.map fun _ _ same => Option.some.inj same, List.nodup_singleton _, ?_⟩
  intro one member other last same
  rcases List.mem_map.mp member with ⟨composite, _, rfl⟩
  rw [← same] at last
  cases List.mem_singleton.mp last

theorem filter_homed (machine : DocumentMachine) (place : Option Text) :
    (machine.transitions.map machine.homed).filter (fun edge => edge.1 = place) =
      (machine.within place).map fun transition => (place, transition) := by
  rw [List.filter_map, within]
  apply List.map_congr_left
  intro transition member
  have same : machine.home transition = place :=
    of_decide_eq_true (List.mem_filter.mp member).2
  rw [homed, same]

theorem filterMap_placed {β : Type} {reading : Option Text × MermaidLine → Option β}
    (box : Option Text) {lines : List MermaidLine}
    (unread : ∀ line ∈ lines, reading (box, line) = none) :
    (lines.map fun line => (box, line)).filterMap reading = [] := by
  apply List.filterMap_eq_nil_iff.mpr
  intro placed member
  rcases List.mem_map.mp member with ⟨line, isLine, rfl⟩
  exact unread line isLine

theorem edgeOf_stateLines (box : Option Text) {indent : Text}
    {labelled marked : List DocumentState} :
    ((stateLines indent labelled marked).map fun line => (box, line)).filterMap edgeOf = [] := by
  apply filterMap_placed
  intro line member
  simp only [stateLines, List.mem_append, List.mem_map] at member
  rcases member with (⟨_, _, rfl⟩ | ⟨_, _, rfl⟩) | ⟨_, _, rfl⟩ <;> rfl

theorem edgeOf_edges (box : Option Text) (indent : Text) (transitions : List Transition) :
    (transitions.map fun transition => (box, MermaidLine.edge indent transition)).filterMap edgeOf =
      transitions.map fun transition => (box, transition) := by
  rw [List.filterMap_map, ← List.filterMap_eq_map]
  rfl

theorem edgeOf_body (machine : DocumentMachine) (composite : Text) :
    ((machine.body composite).map fun line => (some composite, line)).filterMap edgeOf =
      (machine.within (some composite)).map fun transition => (some composite, transition) := by
  rw [body, List.map_append, List.filterMap_append, edgeOf_stateLines, List.nil_append,
    List.map_map]
  exact edgeOf_edges (some composite) deep _

theorem edgeOf_preamble (machine : DocumentMachine) :
    (machine.preamble.map fun line => (none, line)).filterMap edgeOf = [] := by
  rw [preamble, List.map_append, List.filterMap_append, edgeOf_stateLines]
  rfl

theorem drawnEdges_diagram (machine : DocumentMachine) :
    drawnEdges machine.diagram =
      machine.places.flatMap fun place =>
        (machine.transitions.map machine.homed).filter fun edge => edge.1 = place := by
  have boxes : ((machine.composites.mergeSort codePointsLe).flatMap machine.boxEnclosed).filterMap
      edgeOf = ((machine.composites.mergeSort codePointsLe).map some).flatMap fun place =>
        (machine.transitions.map machine.homed).filter fun edge => edge.1 = place := by
    rw [List.filterMap_flatMap, List.flatMap_map]
    apply List.flatMap_congr
    intro composite _
    rw [filter_homed, ← edgeOf_body, boxEnclosed, List.cons_append, List.filterMap_cons_none rfl,
      List.filterMap_append]
    exact List.append_nil _
  rw [drawnEdges, enclosed_diagram, List.filterMap_append, List.filterMap_append, edgeOf_preamble,
    boxes, edgeOf_edges, places, List.flatMap_append, List.flatMap_singleton, filter_homed,
    List.nil_append]

theorem perm_drawnEdges (machine : DocumentMachine) :
    (drawnEdges machine.diagram).Perm (machine.transitions.map machine.homed) := by
  rw [drawnEdges_diagram]
  apply perm_flatMap_filter _ Prod.fst machine.nodup_places
  intro edge member
  rcases List.mem_map.mp member with ⟨transition, _, rfl⟩
  exact machine.mem_places transition

end DocumentMachine

section

variable [Interpreter]

/-- The diagram of a text with a state in it is drawn, and shows every transition once: in the
box of a composite when both ends have it as their parent, at the top level otherwise. -/
theorem drawnEdges_buildMermaid {text : Text} (stated : (parseMachine text).states ≠ []) :
    ∃ lines, (parseMachine text).mermaidLines = .ok lines ∧
      buildMermaid text = .ok (some (joinLines lines)) ∧
      (drawnEdges lines).Perm ((parseMachine text).transitions.map fun transition =>
        ((parseMachine text).home transition, transition)) :=
  ⟨_, DocumentMachine.mermaidLines_eq (parentsDeclared_parseMachine text), buildMermaid_eq stated,
    (parseMachine text).perm_drawnEdges⟩

end

section

attribute [local instance] Interpreter.ascii

/-- A diagram with a row into a composite and two rows out of it. -/
theorem drawnEdges_overlookedExit :
    (parseMachine overlookedExit).states ≠ [] ∧
      ∃ lines, (parseMachine overlookedExit).mermaidLines = .ok lines ∧
        buildMermaid overlookedExit = .ok (some (joinLines lines)) ∧
        (drawnEdges lines).Perm ((parseMachine overlookedExit).transitions.map fun transition =>
          ((parseMachine overlookedExit).home transition, transition)) := by
  have stated : (parseMachine overlookedExit).states ≠ [] := by
    rw [parse_overlookedExit]
    decide
  exact ⟨stated, drawnEdges_buildMermaid stated⟩

end

/-! ## Every state is declared once -/

/-- A declaration of a state: the box it stands in, the id, and whether it is a box itself. -/
def declarationOf : Option Text × MermaidLine → Option (Option Text × Text × Bool)
  | (box, .label _ id _) => some (box, id, false)
  | (box, .opens _ id) => some (box, id, true)
  | _ => none

/-- The declarations among the lines, each with the box it stands in. -/
def declarations (lines : List MermaidLine) : List (Option Text × Text × Bool) :=
  (enclosed [] lines).filterMap declarationOf

/-- No more boxes are closed than are open, and in the end none is open. -/
def Balanced : List Text → List MermaidLine → Prop
  | boxes, [] => boxes = []
  | boxes, line :: lines => (line = .closes → boxes ≠ []) ∧ Balanced (line.after boxes) lines

/-- The declaration of a state that the tree of the parents asks for. -/
def DocumentMachine.declaration (machine : DocumentMachine) (state : DocumentState) :
    Option Text × Text × Bool :=
  (state.parent, state.id, decide (state.id ∈ machine.composites))

/-- The tree of the boxes is the tree of the parents. -/
structure DocumentMachine.Mirrored (machine : DocumentMachine) (lines : List MermaidLine) :
    Prop where
  declared : (declarations lines).Perm (machine.states.map machine.declaration)
  closed : Balanced [] lines

theorem balanced_append_plain (boxes : List Text) {lines : List MermaidLine}
    (plain : ∀ line ∈ lines, line.Plain) (rest : List MermaidLine) :
    Balanced boxes (lines ++ rest) ↔ Balanced boxes rest := by
  induction lines with
  | nil => rfl
  | cons line lines ih =>
      rw [List.forall_mem_cons] at plain
      rw [List.cons_append, Balanced, ← ih plain.2]
      cases line with
      | opens label id => exact plain.1.elim
      | closes => exact plain.1.elim
      | _ => simp [MermaidLine.after]

namespace DocumentMachine

theorem balanced_box (machine : DocumentMachine) (composite : Text) (rest : List MermaidLine) :
    Balanced [] (machine.box composite ++ rest) ↔ Balanced [] rest := by
  have whole : machine.box composite ++ rest =
      machine.opening composite :: (machine.body composite ++ .closes :: rest) := by
    simp [box, body, opening]
  rw [whole, Balanced]
  change (_ → _) ∧ Balanced [composite] (machine.body composite ++ .closes :: rest) ↔ _
  rw [balanced_append_plain [composite] (machine.plain_body composite)]
  simp [Balanced, MermaidLine.after, opening]

theorem balanced_boxes (machine : DocumentMachine) (composites : List Text)
    (rest : List MermaidLine) :
    Balanced [] (composites.flatMap machine.box ++ rest) ↔ Balanced [] rest := by
  induction composites with
  | nil => rfl
  | cons composite composites ih =>
      rw [List.flatMap_cons, List.append_assoc, balanced_box, ih]

theorem balanced_diagram (machine : DocumentMachine) : Balanced [] machine.diagram := by
  have last := balanced_append_plain [] (@plain_edges shallow (machine.within none)) []
  rw [List.append_nil] at last
  rw [diagram_eq, balanced_append_plain [] machine.plain_preamble, balanced_boxes, last]
  rfl

theorem declarationOf_stateLines (box : Option Text) {indent : Text}
    {labelled marked : List DocumentState} :
    ((stateLines indent labelled marked).map fun line => (box, line)).filterMap declarationOf =
      labelled.map fun state => (box, state.id, false) := by
  have labels : ((labelled.map fun state => MermaidLine.label indent state.id state.label).map
      fun line => (box, line)).filterMap declarationOf =
        labelled.map fun state => (box, state.id, false) := by
    rw [List.map_map, List.filterMap_map, ← List.filterMap_eq_map]
    rfl
  rw [stateLines, List.append_assoc, List.map_append, List.filterMap_append, labels,
    filterMap_placed, List.append_nil]
  intro line member
  simp only [List.mem_append, List.mem_map] at member
  rcases member with ⟨_, _, rfl⟩ | ⟨_, _, rfl⟩ <;> rfl

theorem declarationOf_edges (box : Option Text) (indent : Text) (transitions : List Transition) :
    (transitions.map fun transition => (box, MermaidLine.edge indent transition)).filterMap
      declarationOf = [] := by
  apply List.filterMap_eq_nil_iff.mpr
  intro placed member
  rcases List.mem_map.mp member with ⟨_, _, rfl⟩
  rfl

/-- What the boxes declare: the composites at the top level and their children as leaves. -/
def boxed (machine : DocumentMachine) (composite : Text) : List (Option Text × Text × Bool) :=
  (none, composite, true) ::
    (machine.kids composite).map fun state => (some composite, state.id, false)

theorem declarationOf_body (machine : DocumentMachine) (composite : Text) :
    ((machine.body composite).map fun line => (some composite, line)).filterMap declarationOf =
      (machine.kids composite).map fun state => (some composite, state.id, false) := by
  rw [body, List.map_append, List.filterMap_append, declarationOf_stateLines, List.map_map]
  refine (congrArg _ (declarationOf_edges (some composite) deep _)).trans ?_
  rw [List.append_nil]

theorem declarations_diagram (machine : DocumentMachine) :
    declarations machine.diagram =
      ((machine.outer.filter fun state => state.id ∉ machine.composites).map fun state =>
        (none, state.id, false)) ++
        (machine.composites.mergeSort codePointsLe).flatMap machine.boxed := by
  have boxes : ((machine.composites.mergeSort codePointsLe).flatMap machine.boxEnclosed).filterMap
      declarationOf = (machine.composites.mergeSort codePointsLe).flatMap machine.boxed := by
    rw [List.filterMap_flatMap]
    apply List.flatMap_congr
    intro composite _
    have opened : declarationOf (none, machine.opening composite) =
        some (none, composite, true) := rfl
    rw [boxEnclosed, List.cons_append, List.filterMap_cons_some opened, List.filterMap_append,
      declarationOf_body, boxed]
    exact congrArg _ (List.append_nil _)
  have first : (machine.preamble.map fun line => (none, line)).filterMap declarationOf =
      (machine.outer.filter fun state => state.id ∉ machine.composites).map fun state =>
        (none, state.id, false) := by
    rw [preamble, List.map_append, List.filterMap_append, declarationOf_stateLines]
    rfl
  rw [declarations, enclosed_diagram, List.filterMap_append, List.filterMap_append, first, boxes,
    declarationOf_edges, List.append_nil]

/-- No composite lies within another one. -/
def Shallow (machine : DocumentMachine) : Prop :=
  ∀ state ∈ machine.states, state.id ∈ machine.composites → state.parent = none

instance (machine : DocumentMachine) : Decidable machine.Shallow :=
  inferInstanceAs (Decidable (∀ state ∈ machine.states,
    state.id ∈ machine.composites → state.parent = none))

theorem shallow_of_mirrored {machine : DocumentMachine}
    (mirrored : machine.Mirrored machine.diagram) : machine.Shallow := by
  intro state member composite
  by_contra inner
  rcases Option.ne_none_iff_exists'.mp inner with ⟨parent, isParent⟩
  -- in the box of its parent a state is declared as a leaf
  have leaf : (some parent, state.id, false) ∈ declarations machine.diagram := by
    rw [declarations_diagram]
    apply List.mem_append_right
    apply List.mem_flatMap.mpr
    refine ⟨parent, ?_, List.mem_cons_of_mem _ ?_⟩
    · exact (List.mergeSort_perm _ _).mem_iff.mpr (mem_composites.mpr ⟨state, member, isParent⟩)
    · apply List.mem_map.mpr
      exact ⟨state, List.mem_filter.mpr ⟨member, decide_eq_true isParent⟩, rfl⟩
  rcases List.mem_map.mp (mirrored.declared.mem_iff.mp leaf) with ⟨other, _, same⟩
  have sameId : other.id = state.id := congrArg (fun declared => declared.2.1) same
  have isLeaf : decide (other.id ∈ machine.composites) = false :=
    congrArg (fun declared => declared.2.2) same
  rw [sameId] at isLeaf
  exact of_decide_eq_false isLeaf composite

/-- Sorted by their composites, the children of all composites are the states with a parent. -/
theorem perm_kids (machine : DocumentMachine) :
    ((machine.composites.mergeSort codePointsLe).flatMap machine.kids).Perm
      (machine.states.filter fun state => state.parent ≠ none) := by
  have sorted := List.mergeSort_perm machine.composites codePointsLe
  have distinct : ((machine.composites.mergeSort codePointsLe).map some).Nodup :=
    (sorted.nodup_iff.mpr machine.nodup_composites).map fun _ _ same => Option.some.inj same
  have parts := perm_flatMap_filter (machine.states.filter fun state => state.parent ≠ none)
    DocumentState.parent distinct (by
      intro state member
      rcases List.mem_filter.mp member with ⟨isState, inner⟩
      rcases Option.ne_none_iff_exists'.mp (of_decide_eq_true inner) with ⟨parent, isParent⟩
      rw [isParent]
      apply List.mem_map_of_mem
      exact sorted.mem_iff.mpr (mem_composites.mpr ⟨state, isState, isParent⟩))
  rw [List.flatMap_map] at parts
  refine (List.Perm.of_eq ?_).trans parts
  apply List.flatMap_congr
  intro composite _
  rw [kids, List.filter_filter]
  apply List.filter_congr
  intro state _
  by_cases inside : state.parent = some composite
  · simp [inside]
  · simp [inside]

theorem perm_composites {machine : DocumentMachine} (declared : machine.ParentsDeclared)
    (distinct : (machine.states.map DocumentState.id).Nodup) (flat : machine.Shallow) :
    (machine.composites.mergeSort codePointsLe).Perm
      ((machine.outer.filter fun state => state.id ∈ machine.composites).map DocumentState.id) := by
  have sorted := List.mergeSort_perm machine.composites codePointsLe
  have parts : ((machine.outer.filter fun state => state.id ∈ machine.composites).map
      DocumentState.id).Nodup := by
    have part : (machine.outer.filter fun state => state.id ∈ machine.composites).Sublist
        machine.states := List.filter_sublist.trans List.filter_sublist
    exact List.Nodup.sublist (part.map DocumentState.id) distinct
  apply (List.perm_ext_iff_of_nodup (sorted.nodup_iff.mpr machine.nodup_composites) parts).mpr
  intro composite
  rw [sorted.mem_iff]
  constructor
  · intro member
    rcases mem_composites.mp member with ⟨child, isState, isChild⟩
    rcases declared child isState composite isChild with ⟨state, isOuter, rfl⟩
    apply List.mem_map_of_mem
    refine List.mem_filter.mpr ⟨List.mem_filter.mpr ⟨isOuter, ?_⟩, decide_eq_true member⟩
    exact decide_eq_true (flat state isOuter member)
  · intro member
    rcases List.mem_map.mp member with ⟨state, isOuter, rfl⟩
    exact of_decide_eq_true (List.mem_filter.mp isOuter).2

theorem declaration_of_kid {machine : DocumentMachine} (flat : machine.Shallow)
    {composite : Text} {state : DocumentState} (kid : state ∈ machine.kids composite) :
    machine.declaration state = (some composite, state.id, false) := by
  rcases List.mem_filter.mp kid with ⟨member, inside⟩
  have isParent : state.parent = some composite := of_decide_eq_true inside
  have leaf : state.id ∉ machine.composites := by
    intro isComposite
    rw [flat state member isComposite] at isParent
    cases isParent
  rw [declaration, isParent, decide_eq_false leaf]

theorem perm_boxed {machine : DocumentMachine} (declared : machine.ParentsDeclared)
    (distinct : (machine.states.map DocumentState.id).Nodup) (flat : machine.Shallow) :
    ((machine.composites.mergeSort codePointsLe).flatMap machine.boxed).Perm
      ((machine.outer.filter fun state => state.id ∈ machine.composites).map machine.declaration ++
        (machine.states.filter fun state => state.parent ≠ none).map machine.declaration) := by
  have apart := List.map_append_flatMap_perm (machine.composites.mergeSort codePointsLe)
    (fun composite => ((none, composite, true) : Option Text × Text × Bool)) fun composite =>
      (machine.kids composite).map fun state => (some composite, state.id, false)
  have boxes : ((machine.composites.mergeSort codePointsLe).map fun composite =>
      ((none, composite, true) : Option Text × Text × Bool)).Perm
      ((machine.outer.filter fun state => state.id ∈ machine.composites).map
        machine.declaration) := by
    refine ((perm_composites declared distinct flat).map _).trans (.of_eq ?_)
    rw [List.map_map]
    apply List.map_congr_left
    intro state member
    rcases List.mem_filter.mp member with ⟨isOuter, isComposite⟩
    have top : state.parent = none := of_decide_eq_true (List.mem_filter.mp isOuter).2
    rw [declaration, top, isComposite]
    rfl
  have leaves : ((machine.composites.mergeSort codePointsLe).flatMap fun composite =>
      (machine.kids composite).map fun state => (some composite, state.id, false)) =
      ((machine.composites.mergeSort codePointsLe).flatMap machine.kids).map
        machine.declaration := by
    rw [List.map_flatMap]
    apply List.flatMap_congr
    intro composite _
    apply List.map_congr_left
    intro state kid
    exact (declaration_of_kid flat kid).symm
  refine apart.symm.trans (boxes.append ?_)
  rw [leaves]
  exact machine.perm_kids.map machine.declaration

theorem perm_declaration (machine : DocumentMachine) :
    ((machine.outer.filter fun state => state.id ∉ machine.composites).map machine.declaration ++
      ((machine.outer.filter fun state => state.id ∈ machine.composites).map machine.declaration ++
        (machine.states.filter fun state => state.parent ≠ none).map machine.declaration)).Perm
      (machine.states.map machine.declaration) := by
  have states := perm_filter_append machine.states fun state => state.parent = none
  have outermost := perm_filter_append machine.outer fun state => state.id ∈ machine.composites
  rw [← List.map_append, ← List.map_append]
  apply List.Perm.map
  rw [← List.append_assoc]
  exact ((List.perm_append_comm.trans outermost).append_right _).trans states

theorem mirrored_of_shallow {machine : DocumentMachine} (declared : machine.ParentsDeclared)
    (distinct : (machine.states.map DocumentState.id).Nodup) (flat : machine.Shallow) :
    machine.Mirrored machine.diagram := by
  refine ⟨?_, machine.balanced_diagram⟩
  have leaves : ((machine.outer.filter fun state => state.id ∉ machine.composites).map
      fun state => ((none, state.id, false) : Option Text × Text × Bool)) =
      (machine.outer.filter fun state => state.id ∉ machine.composites).map
        machine.declaration := by
    apply List.map_congr_left
    intro state member
    rcases List.mem_filter.mp member with ⟨isOuter, isLeaf⟩
    have top : state.parent = none := of_decide_eq_true (List.mem_filter.mp isOuter).2
    rw [declaration, top, decide_eq_false (of_decide_eq_true isLeaf)]
  rw [declarations_diagram, leaves]
  exact ((perm_boxed declared distinct flat).append_left _).trans machine.perm_declaration

end DocumentMachine

section

variable [Interpreter]

/-- The diagram of a text with a state in it is drawn, and its boxes are the tree of the
parents. -/
def BoxesMirrorParents (text : Text) : Prop :=
  ∃ lines, (parseMachine text).mermaidLines = .ok lines ∧
    ((parseMachine text).states ≠ [] → buildMermaid text = .ok (some (joinLines lines))) ∧
    (parseMachine text).Mirrored lines

/-- The boxes mirror the parents exactly if no composite lies within another one. -/
theorem boxesMirrorParents_iff {text : Text}
    (distinct : ((parseMachine text).states.map DocumentState.id).Nodup) :
    BoxesMirrorParents text ↔ (parseMachine text).Shallow := by
  have drawn := DocumentMachine.mermaidLines_eq (parentsDeclared_parseMachine text)
  constructor
  · rintro ⟨lines, known, _, mirrored⟩
    rw [drawn] at known
    cases known
    exact DocumentMachine.shallow_of_mirrored mirrored
  · intro flat
    refine ⟨_, drawn, buildMermaid_eq, ?_⟩
    exact DocumentMachine.mirrored_of_shallow (parentsDeclared_parseMachine text) distinct flat

end

section

attribute [local instance] Interpreter.ascii

theorem boxesMirrorParents_overlookedExit :
    ((parseMachine overlookedExit).states.map DocumentState.id).Nodup ∧
      BoxesMirrorParents overlookedExit := by
  have distinct : ((parseMachine overlookedExit).states.map DocumentState.id).Nodup := by
    rw [parse_overlookedExit]
    decide
  refine ⟨distinct, (boxesMirrorParents_iff distinct).mpr ?_⟩
  rw [parse_overlookedExit]
  decide

/-- The inner composite is declared twice: as a leaf of the outer one, and as a box of its own
at the top level. -/
theorem not_boxesMirrorParents_deepExit :
    ((parseMachine deepExit).states.map DocumentState.id).Nodup ∧
      ¬BoxesMirrorParents deepExit := by
  refine ⟨?_, ?_⟩
  · rw [parse_deepExit]
    decide
  rintro ⟨lines, known, _, mirrored⟩
  rw [DocumentMachine.mermaidLines_eq (parentsDeclared_parseMachine deepExit)] at known
  cases known
  have flat := DocumentMachine.shallow_of_mirrored mirrored
  rw [parse_deepExit] at flat
  exact absurd flat (by decide)

end

end OrcaValidator
