import OrcaValidator.DocumentFsm.Parse
import OrcaValidator.Library.NearestSmaller

/-!
# The nesting of the headings

The stack of `_parse_machine` against what it is for: the parent of a state is the nearest
state heading before its own with a smaller level.
-/

namespace OrcaValidator

open Library

/-- The levels and the ids of the state headings. -/
def stateHeadings (lines : List Text) : List (ℕ × Text) :=
  lines.filterMap fun line => (matchHeading line).map fun heading => (heading.1, heading.2.1)

/-- The headings of a text. -/
def headingsOf (text : Text) : List (ℕ × Text) := stateHeadings (Text.splitlines text)

/-- The level of the heading at a position. -/
abbrev headingLevel (text : Text) : Fin (headingsOf text).length → ℕ := keyAt (headingsOf text)

/-- What the parent of the state at a position is. -/
structure ParentRecorded (text : Text) (position : Fin (headingsOf text).length)
    (parent : Option Text) : Prop where
  nearest : ∀ earlier, NearestSmaller (headingLevel text) earlier position →
    parent = some ((headingsOf text).get earlier).2
  root : (∀ earlier < position, headingLevel text position ≤ headingLevel text earlier) →
    parent = none

section Parsed

variable [Interpreter]

/-- The loop reads the headings in their order, and records the parents that the stack
algorithm finds for them, whatever the other lines are. -/
theorem states_parseLines (stack : List (ℕ × Text)) (lines : List Text) :
    (parseLines stack lines).states.map DocumentState.id = (stateHeadings lines).map Prod.snd ∧
      (parseLines stack lines).states.map DocumentState.parent =
        nest stack (stateHeadings lines) := by
  induction lines generalizing stack with
  | nil => exact ⟨rfl, rfl⟩
  | cons line lines ih =>
      unfold parseLines
      rw [stateHeadings, List.filterMap_cons]
      cases found : matchHeading line with
      | none => cases tableRow line <;> exact ih stack
      | some heading =>
          rcases heading with ⟨level, id, ann⟩
          rcases ih ((level, id) :: closeHeadings level stack) with ⟨ids, parents⟩
          exact ⟨congrArg (id :: ·) ids, congrArg (_ :: ·) parents⟩

/-- The parent that is recorded for a state is the nearest heading before it with a smaller
level, and the headings are a forest whose levels decrease towards its roots. -/
theorem parentRecorded_parseMachine (text : Text) :
    (parseMachine text).states.map DocumentState.id = (headingsOf text).map Prod.snd ∧
      (∀ (position : Fin (headingsOf text).length) (state : DocumentState),
        (parseMachine text).states[position.val]? = some state →
          ParentRecorded text position state.parent) ∧
      DecreasingForest (NearestSmaller (headingLevel text)) (headingLevel text) := by
  rcases states_parseLines [] (Text.splitlines text) with ⟨ids, parents⟩
  refine ⟨ids, fun position state present => ?_, nearestSmaller_forest _⟩
  have recorded : state.parent = (((headingsOf text).take position).reverse.find? fun other =>
      other.1 < headingLevel text position).map Prod.snd := by
    have read : ((parseMachine text).states.map DocumentState.parent)[position.val]? =
        some state.parent := by
      rw [List.getElem?_map, present]
      rfl
    have here : (headingsOf text)[position.val]? = some ((headingsOf text).get position) :=
      List.getElem?_eq_getElem position.isLt
    rw [parseMachine, parents] at read
    have computed := getElem?_nest [] (headingsOf text) position.val
    rw [here, List.append_nil] at computed
    exact Option.some.inj (read.symm.trans computed)
  constructor
  · intro earlier smaller
    rw [recorded, find?_of_nearestSmaller smaller]
    rfl
  · intro least
    rw [recorded, find?_eq_none_of_le least]
    rfl

end Parsed

end OrcaValidator
