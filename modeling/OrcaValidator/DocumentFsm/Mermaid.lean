import OrcaValidator.DocumentFsm.Normalize
import OrcaValidator.Library.Dict

/-!
# The diagram

`_build_mermaid`: the lines of the state diagram that is drawn of a parsed machine.  Every
composite has a box with its children and the transitions between them; whatever else there
is stands at the top level.
-/

namespace OrcaValidator

open Library

/-- A line of the diagram. -/
inductive MermaidLine where
  | verbatim (line : Text)
  | label (indent id label : Text)
  | initial (indent id : Text)
  | final (indent id : Text)
  | edge (indent : Text) (transition : Transition)
  | opens (label id : Text)
  | closes
  deriving DecidableEq

namespace MermaidLine

/-- A line of the diagram as text. -/
def render : MermaidLine → Text
  | verbatim line => line
  | label indent id named => indent ++ id ++ " : ".toList ++ named
  | initial indent id => indent ++ "[*] --> ".toList ++ id
  | final indent id => indent ++ id ++ " --> [*]".toList
  | edge indent transition => indent ++ transition.source ++ " --> ".toList ++ transition.target ++
      if transition.event = [] then [] else " : ".toList ++ transition.event
  | opens named id => "  state \"".toList ++ named ++ "\" as ".toList ++ id ++ " \x7b".toList
  | closes => "  \x7d".toList

/-- The lines that neither open nor close a box. -/
def Plain : MermaidLine → Prop
  | opens _ _ | closes => False
  | _ => True

end MermaidLine

/-- One level of indentation, and two. -/
def shallow : Text := "  ".toList

/-- The indent within a box. -/
def deep : Text := "    ".toList

/-- The labels, the initial marks and the final marks of some states. -/
def stateLines (indent : Text) (labelled marked : List DocumentState) : List MermaidLine :=
  (labelled.map fun state => .label indent state.id state.label) ++
    ((marked.filter DocumentState.initial).map fun state => .initial indent state.id) ++
    (marked.filter DocumentState.final).map fun state => .final indent state.id

namespace DocumentMachine

/-- `by_id`. -/
def byId (machine : DocumentMachine) : Dict Text DocumentState :=
  Dict.ofList (machine.states.map fun state => (state.id, state))

/-- `children.setdefault(s["parent"], []).append(s)`. -/
def addChild (children : Dict Text (List DocumentState)) (state : DocumentState) :
    Dict Text (List DocumentState) :=
  match state.parent with
  | some parent => children.set parent ((children.get? parent).getD [] ++ [state])
  | none => children

/-- The composites with their children.  `children` of `build_mermaid`. -/
def children (machine : DocumentMachine) : Dict Text (List DocumentState) :=
  machine.states.foldl addChild ∅

/-- `set(children)`. -/
def composites (machine : DocumentMachine) : List Text :=
  machine.children.entries.map Prod.fst

/-- The composite that both ends of a transition have as their parent. -/
def home (machine : DocumentMachine) (transition : Transition) : Option Text :=
  match machine.parentOf transition.source with
  | some parent => if machine.parentOf transition.target = some parent then some parent else none
  | none => none

end DocumentMachine

/-- The order of `sorted` on strings: by code points, from the left. -/
def codePointsLe : Text → Text → Bool
  | [], _ => true
  | _ :: _, [] => false
  | left :: lefts, right :: rights =>
      left.toNat < right.toNat || left.toNat == right.toNat && codePointsLe lefts rights

section

variable [Interpreter]

/-- `items[key]`. -/
def itemOf {Value : Type} (items : Dict Text Value) (key : Text) : Except PyException Value :=
  match items.get? key with
  | some value => .ok value
  | none => .error ⟨"KeyError".toList, Interpreter.repr (.str key)⟩

namespace DocumentMachine

/-- One round of the loop over the transitions. -/
def place (machine : DocumentMachine)
    (placed : Dict Text (List Transition) × List Transition) (transition : Transition) :
    Except PyException (Dict Text (List Transition) × List Transition) :=
  match machine.home transition with
  | some parent => do
      let bucket ← itemOf placed.1 parent
      return (placed.1.set parent (bucket ++ [transition]), placed.2)
  | none => return (placed.1, placed.2 ++ [transition])

/-- The transitions within each composite, and those at the top level. -/
def distribute (machine : DocumentMachine) :
    Except PyException (Dict Text (List Transition) × List Transition) :=
  machine.transitions.foldlM machine.place
    (Dict.ofList (machine.composites.map fun composite => (composite, [])), [])

/-- The box of a composite. -/
def boxLines (machine : DocumentMachine) (internal : Dict Text (List Transition))
    (composite : Text) : Except PyException (List MermaidLine) := do
  let state ← itemOf machine.byId composite
  let kids ← itemOf machine.children composite
  let transitions ← itemOf internal composite
  return .opens state.label composite ::
    (stateLines deep kids kids ++ transitions.map (.edge deep) ++ [.closes])

/-- The lines that `_build_mermaid` emits. -/
def mermaidLines (machine : DocumentMachine) : Except PyException (List MermaidLine) := do
  let (internal, toplevel) ← machine.distribute
  let outer := machine.states.filter fun state => state.parent = none
  let boxes ← (machine.composites.mergeSort codePointsLe).mapM (machine.boxLines internal)
  return [.verbatim "stateDiagram-v2".toList, .verbatim "  direction LR".toList, .verbatim []] ++
    stateLines shallow (outer.filter fun state => state.id ∉ machine.composites) outer ++
    boxes.flatten ++ toplevel.map (.edge shallow)

end DocumentMachine

/-- `"\n".join(out)`. -/
def joinLines (lines : List MermaidLine) : Text :=
  List.intercalate "\n".toList (lines.map MermaidLine.render)

/-- `_build_mermaid`. -/
def buildMermaid (text : Text) : Except PyException (Option Text) :=
  let machine := parseMachine text
  if machine.states = [] then .ok none
  else do
    let lines ← machine.mermaidLines
    return some (joinLines lines)

end

/-! ## The dictionaries -/

namespace DocumentMachine

/-- The children of a composite, in the order of their headings. -/
def kids (machine : DocumentMachine) (composite : Text) : List DocumentState :=
  machine.states.filter fun state => state.parent = some composite

theorem find_map_id (id : Text) (states : List DocumentState) :
    Dict.find id (states.map fun state => (state.id, state)) =
      states.find? fun state => state.id = id := by
  induction states with
  | nil => rfl
  | cons state states ih =>
      by_cases same : state.id = id
      · simp [Dict.find, same]
      · simp [Dict.find, same, ih]

theorem find_map_const {Value : Type} {key : Text} {keys : List Text} (member : key ∈ keys)
    (value : Value) : Dict.find key (keys.map fun other => (other, value)) = some value := by
  induction keys with
  | nil => cases member
  | cons first keys ih =>
      by_cases same : first = key
      · simp [Dict.find, same]
      · simp [Dict.find, same, ih ((List.mem_cons.mp member).resolve_left (Ne.symm same))]

theorem get?_byId (machine : DocumentMachine) (id : Text) :
    machine.byId.get? id = machine.states.reverse.find? fun state => state.id = id := by
  rw [byId, Dict.ofList, Dict.get?_update, Dict.get?_empty, Option.or_none, ← List.map_reverse,
    find_map_id]

/-- `parent_of` looks a state up in `by_id`. -/
theorem parentOf_eq_byId (machine : DocumentMachine) (id : Text) :
    machine.parentOf id = (machine.byId.get? id).bind DocumentState.parent := by
  rw [get?_byId, parentOf]

theorem exists_get?_byId {machine : DocumentMachine} {id : Text}
    (declared : ∃ state ∈ machine.states, state.id = id) :
    ∃ state, machine.byId.get? id = some state := by
  rw [get?_byId]
  apply Option.isSome_iff_exists.mp
  rcases declared with ⟨state, member, same⟩
  apply List.find?_isSome.mpr
  exact ⟨state, List.mem_reverse.mpr member, by simpa using same⟩

theorem get?_foldl_addChild (states : List DocumentState)
    (children : Dict Text (List DocumentState)) (composite : Text) :
    (states.foldl addChild children).get? composite =
      if (states.filter fun state => state.parent = some composite) = []
      then children.get? composite
      else some ((children.get? composite).getD [] ++
        states.filter fun state => state.parent = some composite) := by
  induction states generalizing children with
  | nil => simp
  | cons state states ih =>
      rw [List.foldl_cons, ih]
      unfold addChild
      cases parent : state.parent with
      | none => simp [parent]
      | some other =>
          by_cases same : other = composite
          · subst same
            simp [parent]
          · have differ : composite ≠ other := Ne.symm same
            simp [parent, same, Dict.get?_set_of_ne _ differ]

theorem get?_children (machine : DocumentMachine) (composite : Text) :
    machine.children.get? composite =
      if machine.kids composite = [] then none else some (machine.kids composite) := by
  rw [children, get?_foldl_addChild]
  rfl

theorem mem_composites {machine : DocumentMachine} {composite : Text} :
    composite ∈ machine.composites ↔
      ∃ state ∈ machine.states, state.parent = some composite := by
  have absent : machine.children.get? composite = none ↔ composite ∉ machine.composites :=
    Dict.find_eq_none_iff
  rw [get?_children] at absent
  rw [← not_iff_not, ← absent]
  by_cases none : machine.kids composite = []
  · rw [if_pos none]
    rw [kids, List.filter_eq_nil_iff] at none
    simpa using none
  · rw [if_neg none]
    rw [kids, List.filter_eq_nil_iff] at none
    simpa using none

theorem nodup_composites (machine : DocumentMachine) : machine.composites.Nodup :=
  machine.children.nodup

theorem home_mem_composites {machine : DocumentMachine} {transition : Transition}
    {composite : Text} (inside : machine.home transition = some composite) :
    composite ∈ machine.composites := by
  unfold home at inside
  cases found : machine.parentOf transition.source with
  | none => simp [found] at inside
  | some parent =>
      rw [found] at inside
      have same : parent = composite := by
        by_cases both : machine.parentOf transition.target = some parent
        · simpa [both] using inside
        · simp [both] at inside
      rcases Option.bind_eq_some_iff.mp found with ⟨state, first, isParent⟩
      refine mem_composites.mpr ⟨state, ?_, same ▸ isParent⟩
      exact List.mem_reverse.mp (List.mem_of_find?_eq_some first)

/-- A parent of a state is a state. -/
def ParentsDeclared (machine : DocumentMachine) : Prop :=
  ∀ state ∈ machine.states, ∀ parent ∈ state.parent, ∃ other ∈ machine.states, other.id = parent

/-- The transitions that have their home in a composite, or at the top level. -/
def within (machine : DocumentMachine) (composite : Option Text) : List Transition :=
  machine.transitions.filter fun transition => machine.home transition = composite

end DocumentMachine

/-! ## Every lookup succeeds -/

section

variable [Interpreter]

namespace DocumentMachine

theorem itemOf_eq_ok {Value : Type} {items : Dict Text Value} {key : Text}
    {value : Value} (known : items.get? key = some value) : itemOf items key = .ok value := by
  rw [itemOf, known]

theorem place_of_none {machine : DocumentMachine} {transition : Transition}
    (outside : machine.home transition = none)
    (placed : Dict Text (List Transition) × List Transition) :
    machine.place placed transition = .ok (placed.1, placed.2 ++ [transition]) := by
  rw [place, outside]
  rfl

theorem place_of_some {machine : DocumentMachine} {transition : Transition} {composite : Text}
    (inside : machine.home transition = some composite)
    {placed : Dict Text (List Transition) × List Transition} {bucket : List Transition}
    (known : placed.1.get? composite = some bucket) :
    machine.place placed transition =
      .ok (placed.1.set composite (bucket ++ [transition]), placed.2) := by
  simp only [place, inside, itemOf_eq_ok known]
  rfl

/-- The loop over the transitions, started where every composite has its bucket. -/
theorem foldlM_place {machine : DocumentMachine} (transitions : List Transition)
    {internal : Dict Text (List Transition)} (toplevel : List Transition)
    (buckets : ∀ composite ∈ machine.composites, ∃ bucket, internal.get? composite = some bucket) :
    ∃ internal', transitions.foldlM machine.place (internal, toplevel) =
        .ok (internal', toplevel ++ transitions.filter fun transition =>
          machine.home transition = none) ∧
      ∀ composite, internal'.get? composite = (internal.get? composite).map fun bucket =>
        bucket ++ transitions.filter fun transition =>
          machine.home transition = some composite := by
  induction transitions generalizing internal toplevel with
  | nil => exact ⟨internal, by simp [pure, Except.pure], by simp⟩
  | cons transition transitions ih =>
      rw [List.foldlM_cons]
      cases inside : machine.home transition with
      | none =>
          rcases ih (toplevel ++ [transition]) buckets with ⟨internal', rest, filled⟩
          refine ⟨internal', ?_, fun composite => ?_⟩
          · rw [place_of_none inside]
            refine rest.trans ?_
            simp [inside]
          · rw [filled composite]
            simp [inside]
      | some home =>
          rcases buckets home (home_mem_composites inside) with ⟨bucket, known⟩
          have buckets' : ∀ composite ∈ machine.composites,
              ∃ bucket', (internal.set home (bucket ++ [transition])).get? composite =
                some bucket' := by
            intro composite member
            rw [Dict.get?_set]
            by_cases same : composite = home
            · exact ⟨_, if_pos same⟩
            · rw [if_neg same]
              exact buckets composite member
          rcases ih toplevel buckets' with ⟨internal', rest, filled⟩
          refine ⟨internal', ?_, fun composite => ?_⟩
          · rw [place_of_some inside known]
            refine rest.trans ?_
            simp [inside]
          · rw [filled composite, Dict.get?_set]
            by_cases same : composite = home
            · subst same
              simp [inside, known]
            · simp [inside, same, Ne.symm same]

theorem distribute_eq (machine : DocumentMachine) :
    ∃ internal, machine.distribute = .ok (internal, machine.within none) ∧
      ∀ composite ∈ machine.composites,
        internal.get? composite = some (machine.within (some composite)) := by
  have empty : ∀ composite ∈ machine.composites,
      (Dict.ofList (machine.composites.map fun composite =>
        (composite, ([] : List Transition)))).get? composite = some [] := by
    intro composite member
    rw [Dict.ofList, Dict.get?_update, Dict.get?_empty, Option.or_none, ← List.map_reverse]
    exact find_map_const (List.mem_reverse.mpr member) []
  rcases foldlM_place machine.transitions [] fun composite member => ⟨[], empty composite member⟩
    with ⟨internal, distributed, buckets⟩
  refine ⟨internal, distributed, ?_⟩
  intro composite member
  rw [buckets composite, empty composite member]
  rfl

/-- The box of a composite, without the lookups. -/
def box (machine : DocumentMachine) (composite : Text) : List MermaidLine :=
  .opens (((machine.byId.get? composite).map DocumentState.label).getD []) composite ::
    (stateLines deep (machine.kids composite) (machine.kids composite) ++
      (machine.within (some composite)).map (.edge deep) ++ [.closes])

/-- The states outside all composites. -/
def outer (machine : DocumentMachine) : List DocumentState :=
  machine.states.filter fun state => state.parent = none

/-- The whole diagram, without the lookups. -/
def diagram (machine : DocumentMachine) : List MermaidLine :=
  [.verbatim "stateDiagram-v2".toList, .verbatim "  direction LR".toList, .verbatim []] ++
    stateLines shallow (machine.outer.filter fun state => state.id ∉ machine.composites)
      machine.outer ++
    (machine.composites.mergeSort codePointsLe).flatMap machine.box ++
    (machine.within none).map (.edge shallow)

theorem boxLines_eq {machine : DocumentMachine} (declared : machine.ParentsDeclared)
    {internal : Dict Text (List Transition)} {composite : Text}
    (member : composite ∈ machine.composites)
    (bucket : internal.get? composite = some (machine.within (some composite))) :
    machine.boxLines internal composite = .ok (machine.box composite) := by
  rcases mem_composites.mp member with ⟨child, isState, isChild⟩
  rcases exists_get?_byId (declared child isState composite isChild) with ⟨state, known⟩
  have children : machine.children.get? composite = some (machine.kids composite) := by
    rw [get?_children, if_neg]
    exact List.ne_nil_of_mem (List.mem_filter.mpr ⟨isState, by simpa using isChild⟩)
  simp only [boxLines, itemOf_eq_ok known, itemOf_eq_ok children, itemOf_eq_ok bucket, box, known]
  rfl

omit [Interpreter] in
theorem mapM_eq_ok {α β : Type} {action : α → Except PyException β} {result : α → β}
    {items : List α} (each : ∀ item ∈ items, action item = .ok (result item)) :
    items.mapM action = .ok (items.map result) := by
  induction items with
  | nil => rfl
  | cons item items ih =>
      rw [List.forall_mem_cons] at each
      rw [List.mapM_cons, each.1, ih each.2]
      rfl

/-- The diagram of a machine whose parents are states is drawn without a failing lookup. -/
theorem mermaidLines_eq {machine : DocumentMachine} (declared : machine.ParentsDeclared) :
    machine.mermaidLines = .ok machine.diagram := by
  rcases distribute_eq machine with ⟨internal, distributed, buckets⟩
  have boxes : (machine.composites.mergeSort codePointsLe).mapM (machine.boxLines internal) =
      .ok ((machine.composites.mergeSort codePointsLe).map machine.box) := by
    apply mapM_eq_ok
    intro composite member
    have isComposite := (List.mergeSort_perm _ _).mem_iff.mp member
    exact boxLines_eq declared isComposite (buckets composite isComposite)
  simp only [mermaidLines, distributed, boxes, bind, Except.bind, pure, Except.pure]
  rw [diagram, List.flatMap_def]
  rfl

end DocumentMachine

theorem parent_mem_parseLines {stack : List (ℕ × Text)} {lines : List Text}
    {state : DocumentState} (member : state ∈ (parseLines stack lines).states) {parent : Text}
    (isParent : parent ∈ state.parent) :
    parent ∈ stack.map Prod.snd ∨
      ∃ other ∈ (parseLines stack lines).states, other.id = parent := by
  induction lines generalizing stack with
  | nil => simp [parseLines] at member
  | cons line rest ih =>
      unfold parseLines at member ⊢
      cases matched : matchHeading line with
      | none =>
          cases read : tableRow line <;> simp only [matched, read] at member ⊢ <;> exact ih member
      | some heading =>
          have closed : ∀ open' ∈ closeHeadings heading.1 stack,
              open'.2 ∈ stack.map Prod.snd := fun open' within =>
            List.mem_map_of_mem ((List.dropWhile_suffix _).subset within)
          simp only [matched] at member ⊢
          rcases List.mem_cons.mp member with rfl | later
          · rcases Option.map_eq_some_iff.mp isParent with ⟨open', first, rfl⟩
            exact .inl (closed open' (List.mem_of_head? first))
          · rcases ih later with opened | ⟨other, declared, same⟩
            · rcases List.mem_map.mp opened with ⟨open', within, same⟩
              rcases List.mem_cons.mp within with rfl | before
              · exact .inr ⟨_, List.mem_cons_self, same⟩
              · exact .inl (same ▸ closed open' before)
            · exact .inr ⟨other, List.mem_cons_of_mem _ declared, same⟩

/-- The parent of a parsed state is a parsed state. -/
theorem parentsDeclared_parseMachine (text : Text) : (parseMachine text).ParentsDeclared := by
  intro state member parent isParent
  rcases parent_mem_parseLines member isParent with opened | declared
  · cases opened
  · exact declared

theorem buildMermaid_eq {text : Text} (stated : (parseMachine text).states ≠ []) :
    buildMermaid text = .ok (some (joinLines (parseMachine text).diagram)) := by
  simp only [buildMermaid, if_neg stated,
    DocumentMachine.mermaidLines_eq (parentsDeclared_parseMachine text)]
  rfl

end

end OrcaValidator
