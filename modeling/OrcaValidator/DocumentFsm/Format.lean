import OrcaValidator.DocumentFsm.Normalize

/-!
# The format of a machine

`_FSM_FORMAT` shows the model how a machine is written: its name and its events, a section
for every state, one heading level deeper than the section of its parent, and a table of the
transitions.  What is written so is read back by `_parse_machine`, whatever the machine is.

A reader finds the parent of a state by the levels of the headings above it and its label by
looking a few lines ahead; it goes neither past the state's own section in the one search nor
past the sections that are open in the other.
-/

namespace OrcaValidator

open Library

/-! ## Writing -/

/-- The line under a heading that names a state. -/
structure IsDescription (text : Text) : Prop where
  nonempty : text ≠ []
  stripped : Text.strip text = text
  oneLine : ∀ char ∈ text, Text.isLineBreak char = false
  short : text.length ≤ 52
  noQuote : '"' ∉ text
  noColon : ':' ∉ text

/-- The section of a state. -/
structure StateSection where
  id : Text
  description : Option Text
  initial : Bool
  final : Bool
  ignores : Bool
  isId : IsId id
  described : ∀ text ∈ description, IsDescription text

namespace StateSection

/-- What stands in the brackets of a heading. -/
def marks (state : StateSection) : Text :=
  match state.initial, state.final with
  | true, true => "initial, final".toList
  | true, false => "initial".toList
  | false, true => "final".toList
  | false, false => []

/-- The marks of a heading, in brackets if there are any. -/
def bracketed (state : StateSection) : Text :=
  if state.marks = [] then [] else " [".toList ++ state.marks ++ "]".toList

/-- The heading of a state. -/
def heading (state : StateSection) (level : ℕ) : Text :=
  List.replicate level '#' ++ " state ".toList ++ state.id ++ state.bracketed

/-- The lines under the heading. -/
def body (state : StateSection) : List Text :=
  (state.description.toList.map fun text => "> ".toList ++ text) ++
    if state.ignores then ["- ignore: *".toList] else []

/-- The section of a state: its heading and the lines under it. -/
def lines (state : StateSection) (level : ℕ) : List Text :=
  [] :: state.heading level :: state.body

/-- The description, or else the humanized id. -/
def label (state : StateSection) : Text :=
  state.description.getD ((humanize state.id).take 52)

/-- The state as it is to be read. -/
def documentState (state : StateSection) (parent : Option Text) : DocumentState where
  id := state.id
  label := state.label
  initial := state.initial
  final := state.final
  parent := parent

end StateSection

/-- Some states, each with the states within it. -/
inductive Forest where
  | nil
  | node (state : StateSection) (children siblings : Forest)

namespace Forest

/-- The sections of the states, from this heading level on. -/
def lines (level : ℕ) : Forest → List Text
  | nil => []
  | node state children siblings =>
      state.lines level ++ (children.lines (level + 1) ++ siblings.lines level)

/-- The states as they are to be read, in the order of their headings. -/
def states (parent : Option Text) : Forest → List DocumentState
  | nil => []
  | node state children siblings =>
      state.documentState parent :: (children.states (some state.id) ++ siblings.states parent)

/-- The ids of a forest, in the order of their headings. -/
def ids : Forest → List Text
  | nil => []
  | node state children siblings => state.id :: (children.ids ++ siblings.ids)

end Forest

/-- A cell between its bars: a blank when there is nothing in it. -/
def cellText (cell : Text) : Text := if cell = [] then [' '] else padded cell

/-- A row of the table, with its guard and its action. -/
structure TableRow where
  source : Text
  event : Text
  guard : Text
  target : Text
  action : Text
  clean : ∀ cell ∈ [source, event, guard, target, action], CleanCell cell

namespace TableRow

/-- The five cells of a row. -/
def cells (row : TableRow) : List Text :=
  [row.source, row.event, row.guard, row.target, row.action]

/-- A row as it is printed. -/
def line (row : TableRow) : Text := barred (row.cells.map cellText)

/-- The transition of a row, without its guard and its action. -/
def transition (row : TableRow) : Transition := ⟨row.source, row.event, row.target⟩

/-- The row as it is to be read. -/
def documentRow (row : TableRow) : DocumentRow := ⟨row.source, row.event, row.guard, row.target⟩

end TableRow

section

variable [Interpreter]

/-- A machine as it is written.  A row starts at one of its states, which is not named like
the first column. -/
structure WrittenMachine where
  name : Text
  events : List Text
  forest : Forest
  table : List TableRow
  oneLine : ∀ text ∈ name :: events, ∀ char ∈ text, Text.isLineBreak char = false
  sources : ∀ row ∈ table, row.source ∈ forest.ids ∧
    Interpreter.lower row.source ≠ "source".toList

namespace WrittenMachine

variable (machine : WrittenMachine)

/-- The lines in front of the states. -/
def preamble : List Text :=
  ["# machine ".toList ++ machine.name, [], "## events".toList] ++
    machine.events.map fun event => "- ".toList ++ event

/-- The heading of the table, its header and its rows. -/
def tableLines : List Text := tableHeader ++ machine.table.map TableRow.line

/-- The lines of a whole machine. -/
def lines : List Text := machine.preamble ++ (machine.forest.lines 2 ++ machine.tableLines)

/-- The text of a machine. -/
def text : Text := List.intercalate "\n".toList machine.lines ++ "\n".toList

end WrittenMachine

/-! ## Headings -/

section Headings

omit [Interpreter]

theorem headingText_hashes {level : ℕ} (positive : 0 < level) (rest : Text) :
    headingText (List.replicate level '#' ++ ' ' :: rest) =
      some (level, Text.lstrip (' ' :: rest)) := by
  have hashes : ∀ char ∈ List.replicate level '#', (char == '#') = true := by
    intro char member
    rw [List.eq_of_mem_replicate member]
    rfl
  have blank : Text.isSpace ' ' = true := by decide
  have nonzero : level ≠ 0 := by omega
  simp only [headingText, List.takeWhile_append_of_pos hashes,
    List.dropWhile_append_of_pos hashes]
  simp [nonzero, blank]

theorem matchAnn_bracketed (state : StateSection) :
    matchAnn state.bracketed = some state.marks := by
  unfold StateSection.bracketed StateSection.marks
  cases state.initial <;> cases state.final <;> decide +kernel

theorem initial_marks (state : StateSection) :
    decide ("initial".toList <:+: state.marks) = state.initial := by
  unfold StateSection.marks
  cases state.initial <;> cases state.final <;> decide +kernel

theorem final_marks (state : StateSection) :
    decide ("final".toList <:+: state.marks) = state.final := by
  unfold StateSection.marks
  cases state.initial <;> cases state.final <;> decide +kernel

theorem head?_bracketed (state : StateSection) : ∀ char ∈ state.bracketed.head?, char = ' ' := by
  have checked : (state.bracketed.head?.all fun char => decide (char = ' ')) = true := by
    unfold StateSection.bracketed StateSection.marks
    cases state.initial <;> cases state.final <;> decide +kernel
  intro char first
  rw [Option.mem_def.mp first] at checked
  exact of_decide_eq_true checked

theorem takeWhile_id {id rest : Text} (isId : IsId id) (ends : ∀ char ∈ rest.head?, char = ' ') :
    (id ++ rest).takeWhile isIdChar = id ∧ (id ++ rest).dropWhile isIdChar = rest := by
  rw [List.takeWhile_append_of_pos isId.chars, List.dropWhile_append_of_pos isId.chars]
  cases rest with
  | nil => simp
  | cons char rest =>
      obtain rfl := ends char rfl
      have stops : isIdChar ' ' = false := by decide
      simp [stops]

theorem head?_id {id : Text} (isId : IsId id) (rest : Text) :
    ∀ char ∈ (id ++ rest).head?, Text.isSpace char = false := by
  rcases List.exists_cons_of_ne_nil isId.nonempty with ⟨first, others, rfl⟩
  rintro char ⟨⟩
  exact isSpace_of_isIdChar (isId.chars first List.mem_cons_self)

theorem headingText_heading (state : StateSection) {level : ℕ} (positive : 0 < level) :
    headingText (state.heading level) =
      some (level, "state".toList ++ ' ' :: (state.id ++ state.bracketed)) := by
  have whole : state.heading level =
      List.replicate level '#' ++ ' ' :: ("state".toList ++ ' ' :: (state.id ++ state.bracketed)) := by
    simp [StateSection.heading]
  rw [whole, headingText_hashes positive, Text.lstrip_cons_blank, Text.lstrip_eq_self]
  rintro char ⟨⟩
  decide

/-- A heading is read as it was written. -/
theorem matchHeading_heading (state : StateSection) {level : ℕ} (positive : 0 < level) :
    matchHeading (state.heading level) = some (level, state.id, state.marks) := by
  have leads : "state".toList.isPrefixOf
      ("state".toList ++ ' ' :: (state.id ++ state.bracketed)) = true :=
    List.isPrefixOf_iff_prefix.mpr (List.prefix_append _ _)
  have blank : (' ' :: (state.id ++ state.bracketed)).head?.any Text.isSpace = true := by
    change Text.isSpace ' ' = true
    decide
  have named := Text.lstrip_eq_self (head?_id state.isId state.bracketed)
  rcases takeWhile_id state.isId (head?_bracketed state) with ⟨taken, left⟩
  rw [matchHeading, headingText_heading state positive]
  simp only [leads, if_true, List.drop_left, Text.lstrip_cons_blank, named, taken, left, blank,
    true_and, if_pos state.isId.nonempty, matchAnn_bracketed, Option.map_some]

theorem startsState_heading (state : StateSection) {level : ℕ} (positive : 0 < level) :
    startsState (state.heading level) = true := by
  rw [startsState, headingText_heading state positive]
  exact List.isPrefixOf_iff_prefix.mpr (List.prefix_append _ _)

end Headings

/-! ## Labels -/

section Labels

omit [Interpreter]

/-- No search for a description finds one here. -/
def Silent (lines : List Text) : Prop := ∀ count, description (lines.take count) = []

/-- The line holds no description. -/
def NoDescription (line : Text) : Prop := (Text.strip line).head? ≠ some '>'

theorem description_cons {line : Text} (none : NoDescription line) (lines : List Text) :
    description (line :: lines) = if startsState line then [] else description lines := by
  rw [description]
  split
  · rfl
  · split
    · next text found =>
        rw [NoDescription, found] at none
        exact absurd rfl none
    · rfl

theorem silent_cons {line : Text} {lines : List Text} (none : NoDescription line)
    (silent : startsState line = true ∨ Silent lines) : Silent (line :: lines) := by
  intro count
  cases count with
  | zero => rfl
  | succ count =>
      rw [List.take_succ_cons, description_cons none]
      rcases silent with starts | later
      · rw [if_pos starts]
      · rw [later count, ite_self]

theorem silent_of_noDescription {lines : List Text} (none : ∀ line ∈ lines, NoDescription line) :
    Silent lines := by
  induction lines with
  | nil =>
      intro count
      rw [List.take_nil]
      rfl
  | cons line lines ih =>
      rw [List.forall_mem_cons] at none
      exact silent_cons none.1 (.inr (ih none.2))

theorem noDescription_of_head? {line : Text} {char : Char} (first : line.head? = some char)
    (solid : Text.isSpace char = false) (other : char ≠ '>') : NoDescription line := by
  rw [NoDescription, Text.head?_strip first solid]
  exact fun same => other (Option.some.inj same)

/-- A description is read as it was written. -/
theorem description_written {text : Text} (isDescription : IsDescription text)
    (lines : List Text) : description (("> ".toList ++ text) :: lines) = text := by
  have last : ∀ char ∈ ('>' :: ' ' :: text).getLast?, Text.isSpace char = false := by
    intro char member
    apply Text.isSpace_getLast_strip text
    rw [isDescription.stripped]
    rwa [List.getLast?_cons_of_ne_nil (by simp),
      List.getLast?_cons_of_ne_nil isDescription.nonempty] at member
  have line : Text.strip ('>' :: ' ' :: text) = '>' :: ' ' :: text := by
    apply Text.strip_eq_self _ last
    rintro char ⟨⟩
    decide
  have inner : Text.strip (' ' :: text) = text := by
    rw [Text.strip, Text.lstrip_cons_blank]
    exact isDescription.stripped
  have kept : text.filter (fun char => char ≠ '"' ∧ char ≠ ':') = text := by
    apply List.filter_eq_self.mpr
    intro char member
    apply decide_eq_true
    refine ⟨?_, ?_⟩
    · rintro rfl
      exact isDescription.noQuote member
    · rintro rfl
      exact isDescription.noColon member
  have outside : startsState ('>' :: ' ' :: text) = false := rfl
  change description (('>' :: ' ' :: text) :: lines) = text
  rw [description, outside, line]
  change (Text.strip ((' ' :: text).dropWhile (· == '>'))).filter
    (fun char => char ≠ '"' ∧ char ≠ ':') = text
  rw [List.dropWhile_cons_of_neg (by decide), inner, kept]

theorem noDescription_nil : NoDescription [] := by
  intro starts
  cases starts

theorem noDescription_ignore : NoDescription "- ignore: *".toList :=
  noDescription_of_head? rfl (by decide) (by decide)

theorem noDescription_heading (state : StateSection) {level : ℕ} (positive : 0 < level) :
    NoDescription (state.heading level) := by
  apply noDescription_of_head? (head?_of_headingText (headingText_heading state positive))
  · decide
  · decide

theorem stateLabel_eq (id : Text) {following : List Text} {found : Text}
    (searched : description (following.take 3) = found) :
    stateLabel id following = (if found = [] then humanize id else found).take 52 := by
  subst searched
  rfl

/-- The search for the label of a state stays in its section when nothing comes up behind. -/
theorem stateLabel_body (state : StateSection) {rest : List Text} (silent : Silent rest) :
    stateLabel state.id (state.body ++ rest) = state.label := by
  cases written : state.description with
  | none =>
      have quiet : Silent (state.body ++ rest) := by
        rw [StateSection.body, written]
        cases state.ignores with
        | true => exact silent_cons noDescription_ignore (.inr silent)
        | false => exact silent
      rw [stateLabel_eq state.id (quiet 3), if_pos rfl, StateSection.label, written]
      rfl
  | some text =>
      have isDescription := state.described text written
      have starts : state.body ++ rest = ("> ".toList ++ text) ::
          ((if state.ignores then ["- ignore: *".toList] else []) ++ rest) := by
        rw [StateSection.body, written]
        rfl
      have found : description ((state.body ++ rest).take 3) = text := by
        rw [starts, List.take_succ_cons]
        exact description_written isDescription _
      rw [stateLabel_eq state.id found, if_neg isDescription.nonempty,
        List.take_of_length_le isDescription.short, StateSection.label, written]
      rfl

theorem silent_forest {level : ℕ} (positive : 0 < level) (forest : Forest) {rest : List Text}
    (silent : Silent rest) : Silent (forest.lines level ++ rest) := by
  cases forest with
  | nil => exact silent
  | node state children siblings =>
      apply silent_cons noDescription_nil
      right
      apply silent_cons (noDescription_heading state positive)
      exact .inl (startsState_heading state positive)

end Labels

/-! ## Sections -/

section Sections

omit [Interpreter] in
theorem matchHeading_of_head? {line : Text} (other : line.head? ≠ some '#') :
    matchHeading line = none := by
  cases matched : matchHeading line with
  | none => rfl
  | some heading => exact absurd (head?_of_matchHeading matched) other

omit [Interpreter] in
theorem matchHeading_body (state : StateSection) : ∀ line ∈ state.body,
    matchHeading line = none := by
  intro line member
  apply matchHeading_of_head?
  rcases List.mem_append.mp member with described | ignored
  · rcases List.mem_map.mp described with ⟨text, _, rfl⟩
    simp
  · cases ignores : state.ignores with
    | true =>
        rw [ignores] at ignored
        obtain rfl := List.mem_singleton.mp ignored
        decide
    | false =>
        rw [ignores] at ignored
        cases ignored

/-- Lines that are no headings add no state and leave the open headings as they are. -/
theorem states_parseLines_append (stack : List (ℕ × Text)) {lines : List Text}
    (plain : ∀ line ∈ lines, matchHeading line = none) (rest : List Text) :
    (parseLines stack (lines ++ rest)).states = (parseLines stack rest).states := by
  induction lines with
  | nil => rfl
  | cons line lines ih =>
      rw [List.forall_mem_cons] at plain
      rw [List.cons_append, ← ih plain.2]
      conv_lhs => unfold parseLines
      cases tableRow line <;> simp only [plain.1]

omit [Interpreter] in
theorem closeHeadings_closeHeadings {level deeper : ℕ} (le : level ≤ deeper)
    (stack : List (ℕ × Text)) :
    closeHeadings level (closeHeadings deeper stack) = closeHeadings level stack := by
  induction stack with
  | nil => rfl
  | cons heading stack ih =>
      by_cases closed : deeper ≤ heading.1
      · have both : level ≤ heading.1 := by omega
        simpa [closeHeadings, closed, both] using ih
      · simp [closeHeadings, closed]

/-- The sections of a forest, read where the headings of its level are closed, give its states
and leave headings open that a heading of its level closes. -/
theorem states_parseLines_forest (forest : Forest) {level : ℕ} (positive : 0 < level)
    {stack opened : List (ℕ × Text)} (closes : closeHeadings level stack = opened)
    {rest : List Text} (silent : Silent rest) :
    ∃ stack', closeHeadings level stack' = opened ∧
      (parseLines stack (forest.lines level ++ rest)).states =
        forest.states (opened.head?.map Prod.snd) ++ (parseLines stack' rest).states := by
  induction forest generalizing level stack opened rest with
  | nil => exact ⟨stack, closes, rfl⟩
  | node state children siblings inner next =>
      -- the children are read under the state, the siblings where it is closed
      have later : Silent (siblings.lines level ++ rest) := silent_forest positive siblings silent
      have within : Silent (children.lines (level + 1) ++ (siblings.lines level ++ rest)) :=
        silent_forest (Nat.succ_pos level) children later
      have under : closeHeadings (level + 1) ((level, state.id) :: opened) =
          (level, state.id) :: opened := by
        simp [closeHeadings]
      rcases inner (Nat.succ_pos level) under later with ⟨deeper, closesDeeper, children'⟩
      have behind : closeHeadings level deeper = opened := by
        have again : closeHeadings level opened = opened := by
          rw [← closes, closeHeadings_closeHeadings (Nat.le_refl level)]
        have itself : closeHeadings level ((level, state.id) :: opened) =
            closeHeadings level opened := by
          simp [closeHeadings]
        rw [← closeHeadings_closeHeadings (Nat.le_succ level), closesDeeper, itself, again]
      rcases next positive behind silent with ⟨last, closesLast, siblings'⟩
      refine ⟨last, closesLast, ?_⟩
      have whole : (Forest.node state children siblings).lines level ++ rest =
          [[]] ++ (state.heading level :: (state.body ++
            (children.lines (level + 1) ++ (siblings.lines level ++ rest)))) := by
        simp [Forest.lines, StateSection.lines]
      rw [whole, states_parseLines_append _ (by decide), parseLines,
        matchHeading_heading state positive]
      simp only [closes, stateLabel_body state within, initial_marks, final_marks,
        states_parseLines_append _ (matchHeading_body state), children', siblings']
      simp [Forest.states, StateSection.documentState]

end Sections

/-! ## The table -/

section Table

omit [Interpreter] in
theorem strip_cellText {cell : Text} (clean : CleanCell cell) :
    Text.strip (cellText cell) = cell := by
  unfold cellText
  by_cases empty : cell = []
  · rw [if_pos empty, empty]
    decide
  · rw [if_neg empty]
    exact Text.strip_padded clean.stripped

omit [Interpreter] in
/-- What stands in a cell is a blank or the padded text. -/
theorem cellText_cases (cell : Text) : cellText cell = [' '] ∨ cellText cell = padded cell := by
  unfold cellText
  split
  · exact .inl rfl
  · exact .inr rfl

omit [Interpreter] in
theorem tableCells_line (row : TableRow) : tableCells row.line = some row.cells := by
  rw [TableRow.line, tableCells_barred]
  · rw [List.map_map]
    refine congrArg some ((List.map_congr_left fun cell member => ?_).trans (List.map_id _))
    exact strip_cellText (row.clean cell member)
  · intro printed member
    rcases List.mem_map.mp member with ⟨cell, cellMem, rfl⟩
    rcases cellText_cases cell with blank | whole
    · rw [blank]
      decide
    · rw [whole]
      exact not_mem_padded (row.clean cell cellMem)
  · simp [TableRow.cells, List.intercalate]

omit [Interpreter] in
theorem noArrow_line (row : TableRow) : ¬"-->".toList <:+: row.line := by
  intro found
  rcases exists_infix_of_barred (by decide) (by decide) found with ⟨printed, member, within⟩
  rcases List.mem_map.mp member with ⟨cell, cellMem, rfl⟩
  rcases cellText_cases cell with blank | whole
  · rw [blank] at within
    exact absurd within (by decide)
  · rw [whole] at within
    exact noArrow_padded (row.clean cell cellMem) within

omit [Interpreter] in
theorem oneLine_line (row : TableRow) : ∀ char ∈ row.line, Text.isLineBreak char = false := by
  apply oneLine_barred
  intro printed member
  rcases List.mem_map.mp member with ⟨cell, cellMem, rfl⟩
  rcases cellText_cases cell with blank | whole
  · rw [blank]
    exact Text.forall_of_all (by decide)
  · rw [whole]
    exact oneLine_padded (row.clean cell cellMem)

omit [Interpreter] in
theorem isId_of_mem_ids {forest : Forest} {id : Text} (member : id ∈ forest.ids) : IsId id := by
  induction forest with
  | nil => cases member
  | node state children siblings inner next =>
      rcases List.mem_cons.mp member with rfl | later
      · exact state.isId
      · exact (List.mem_append.mp later).elim inner next

theorem tableRow_line (machine : WrittenMachine) {row : TableRow} (member : row ∈ machine.table) :
    tableRow row.line = some row.documentRow := by
  rcases machine.sources row member with ⟨declared, other⟩
  have isSource : isSource row.source = true := by
    rw [(isId_of_mem_ids declared).isSource]
    exact decide_eq_true other
  rw [tableRow, if_neg (noArrow_line row), tableCells_line row]
  exact if_pos isSource

theorem tableRow_of_head? {line : Text} (other : line.head? ≠ some '|') :
    tableRow line = none := by
  apply tableRow_eq_none _ rfl
  intro cells read
  exact absurd (head?_of_tableCells read) other

end Table

/-! ## The whole text -/

section Whole

/-- One line that no row of a table starts. -/
structure PlainLine (line : Text) : Prop where
  noRow : line.head? ≠ some '|'
  oneLine : ∀ char ∈ line, Text.isLineBreak char = false

section

omit [Interpreter]

theorem plainLine_append {lead rest : Text} (plain : PlainLine lead) (nonempty : lead ≠ [])
    (oneLine : ∀ char ∈ rest, Text.isLineBreak char = false) : PlainLine (lead ++ rest) := by
  refine ⟨?_, List.forall_mem_append.mpr ⟨plain.oneLine, oneLine⟩⟩
  rw [List.head?_append_of_ne_nil _ nonempty]
  exact plain.noRow

theorem plainLine_heading (state : StateSection) {level : ℕ} (positive : 0 < level) :
    PlainLine (state.heading level) := by
  constructor
  · rw [head?_of_headingText (headingText_heading state positive)]
    decide
  · have hashes : ∀ char ∈ List.replicate level '#', Text.isLineBreak char = false := by
      intro char member
      rw [List.eq_of_mem_replicate member]
      decide
    have bracketed : ∀ char ∈ state.bracketed, Text.isLineBreak char = false := by
      apply Text.forall_of_all
      unfold StateSection.bracketed StateSection.marks
      cases state.initial <;> cases state.final <;> decide +kernel
    rw [StateSection.heading]
    refine List.forall_mem_append.mpr ⟨List.forall_mem_append.mpr
      ⟨List.forall_mem_append.mpr ⟨hashes, ?_⟩, state.isId.cleanCell.oneLine⟩, bracketed⟩
    exact Text.forall_of_all (by decide)

theorem plainLine_body (state : StateSection) : ∀ line ∈ state.body, PlainLine line := by
  intro line member
  rcases List.mem_append.mp member with described | ignored
  · rcases List.mem_map.mp described with ⟨text, written, rfl⟩
    have isDescription := state.described text (Option.mem_toList.mp written)
    exact plainLine_append ⟨by decide, Text.forall_of_all (by decide)⟩ (by decide)
      isDescription.oneLine
  · cases ignores : state.ignores with
    | true =>
        rw [ignores] at ignored
        obtain rfl := List.mem_singleton.mp ignored
        exact ⟨by decide, Text.forall_of_all (by decide)⟩
    | false =>
        rw [ignores] at ignored
        cases ignored

theorem plainLine_nil : PlainLine [] := ⟨by decide, by simp⟩

theorem plainLine_forest (forest : Forest) {level : ℕ} (positive : 0 < level) :
    ∀ line ∈ forest.lines level, PlainLine line := by
  induction forest generalizing level with
  | nil => simp [Forest.lines]
  | node state children siblings inner next =>
      intro line member
      rcases List.mem_append.mp member with own | later
      · rcases List.mem_cons.mp own with rfl | own
        · exact plainLine_nil
        rcases List.mem_cons.mp own with rfl | below
        · exact plainLine_heading state positive
        · exact plainLine_body state line below
      · rcases List.mem_append.mp later with within | behind
        · exact inner (Nat.succ_pos level) line within
        · exact next positive line behind

end

namespace WrittenMachine

variable (machine : WrittenMachine)

theorem plainLine_preamble : ∀ line ∈ machine.preamble, PlainLine line := by
  intro line member
  rcases List.mem_append.mp member with fixed | event
  · simp only [List.mem_cons, List.not_mem_nil, or_false] at fixed
    rcases fixed with rfl | rfl | rfl
    · exact plainLine_append ⟨by decide, Text.forall_of_all (by decide)⟩ (by decide)
        (machine.oneLine _ List.mem_cons_self)
    · exact plainLine_nil
    · exact ⟨by decide, Text.forall_of_all (by decide)⟩
  · rcases List.mem_map.mp event with ⟨text, isEvent, rfl⟩
    exact plainLine_append ⟨by decide, Text.forall_of_all (by decide)⟩ (by decide)
      (machine.oneLine _ (List.mem_cons_of_mem _ isEvent))

theorem oneLine_lines : ∀ line ∈ machine.lines, ∀ char ∈ line, Text.isLineBreak char = false := by
  intro line member
  rcases List.mem_append.mp member with first | later
  · exact (machine.plainLine_preamble line first).oneLine
  rcases List.mem_append.mp later with states | table
  · exact (plainLine_forest machine.forest (by decide) line states).oneLine
  rcases List.mem_append.mp table with fixed | row
  · have clean : ∀ line ∈ tableHeader,
        (line.all fun char => decide (Text.isLineBreak char = false)) = true := by decide
    exact Text.forall_of_all (clean line fixed)
  · rcases List.mem_map.mp row with ⟨written, _, rfl⟩
    exact oneLine_line written

/-- The reader sees the lines that were written. -/
theorem splitlines_text : Text.splitlines machine.text = machine.lines :=
  Text.splitlines_intercalate machine.lines machine.oneLine_lines (by simp [lines, preamble])

omit [Interpreter] in
theorem matchHeading_name (name : Text) :
    matchHeading ("# machine ".toList ++ name) = none := by
  have read := headingText_hashes (by decide : 0 < 1) ("machine ".toList ++ name)
  rw [Text.lstrip_cons_blank] at read
  change headingText ("# machine ".toList ++ name) = _ at read
  rw [matchHeading, read]
  rfl

theorem matchHeading_preamble : ∀ line ∈ machine.preamble, matchHeading line = none := by
  intro line member
  rcases List.mem_append.mp member with fixed | event
  · simp only [List.mem_cons, List.not_mem_nil, or_false] at fixed
    rcases fixed with rfl | rfl | rfl
    · exact matchHeading_name machine.name
    · decide
    · decide
  · rcases List.mem_map.mp event with ⟨text, _, rfl⟩
    apply matchHeading_of_head?
    simp

theorem matchHeading_tableLines : ∀ line ∈ machine.tableLines, matchHeading line = none := by
  intro line member
  rcases List.mem_append.mp member with fixed | row
  · exact (by decide : ∀ line ∈ tableHeader, matchHeading line = none) line fixed
  · rcases List.mem_map.mp row with ⟨row, _, rfl⟩
    apply matchHeading_of_head?
    simp [TableRow.line, barred]

theorem silent_tableLines : Silent machine.tableLines := by
  apply silent_of_noDescription
  intro line member
  rcases List.mem_append.mp member with fixed | row
  · exact (by decide : ∀ line ∈ tableHeader, (Text.strip line).head? ≠ some '>') line fixed
  · rcases List.mem_map.mp row with ⟨row, _, rfl⟩
    exact noDescription_of_head? rfl (by decide) (by decide)

theorem states_text : (parseMachine machine.text).states = machine.forest.states none := by
  have closes : closeHeadings 2 [] = [] := rfl
  rcases states_parseLines_forest machine.forest (by decide) closes machine.silent_tableLines with
    ⟨stack, _, read⟩
  rw [parseMachine, splitlines_text, lines,
    states_parseLines_append [] machine.matchHeading_preamble, read,
    states_parseLines_plain stack machine.matchHeading_tableLines, List.append_nil]
  rfl

theorem rows_text : (parseMachine machine.text).rows = machine.table.map TableRow.documentRow := by
  have skipped : ∀ lines : List Text, (∀ line ∈ lines, PlainLine line) →
      lines.filterMap tableRow = [] := by
    intro lines plain
    apply List.filterMap_eq_nil_iff.mpr
    intro line member
    exact tableRow_of_head? (plain line member).noRow
  have read : (machine.table.map TableRow.line).filterMap tableRow =
      machine.table.map TableRow.documentRow := by
    rw [List.filterMap_map, ← List.filterMap_eq_map]
    apply List.filterMap_congr
    intro row member
    exact tableRow_line machine member
  rw [parseMachine, splitlines_text, rows_parseLines, lines, List.filterMap_append,
    List.filterMap_append, skipped _ machine.plainLine_preamble,
    skipped _ (plainLine_forest machine.forest (by decide)), tableLines, List.filterMap_append,
    filterMap_tableHeader, read]
  rfl

end WrittenMachine

end Whole

/-- What is written in the format is read back: the states in the order of their headings, with
their parents, marks and labels, and the transitions in the order of the table. -/
theorem parseMachine_text (machine : WrittenMachine) :
    (parseMachine machine.text).states = machine.forest.states none ∧
      (parseMachine machine.text).transitions = machine.table.map TableRow.transition := by
  refine ⟨machine.states_text, ?_⟩
  rw [DocumentMachine.transitions, machine.rows_text, List.map_map]
  rfl

end

section

attribute [local instance] Interpreter.ascii

/-- A licence that can come into dispute while it is active. -/
def licence : WrittenMachine where
  name := "Licence".toList
  events := ["DISPUTE".toList, "TERMINATE".toList]
  forest := .node {
      id := "active".toList
      description := some "Active".toList
      initial := true
      final := false
      ignores := true
      isId := ⟨by decide, Text.forall_of_all (by decide)⟩
      described := by
        rintro text ⟨⟩
        exact ⟨by decide, by decide, Text.forall_of_all (by decide), by decide, by decide,
          by decide⟩ }
    (.node {
        id := "in_dispute".toList
        description := none
        initial := true
        final := false
        ignores := false
        isId := ⟨by decide, Text.forall_of_all (by decide)⟩
        described := by simp }
      .nil .nil)
    (.node {
        id := "terminated".toList
        description := none
        initial := false
        final := true
        ignores := false
        isId := ⟨by decide, Text.forall_of_all (by decide)⟩
        described := by simp }
      .nil .nil)
  table := [{
    source := "active".toList
    event := "TERMINATE".toList
    guard := []
    target := "terminated".toList
    action := []
    clean := by
      have clean : ∀ cell ∈ ["active".toList, "TERMINATE".toList, [], "terminated".toList, []],
          Text.strip cell = cell ∧ '|' ∉ cell ∧ ¬"-->".toList <:+: cell ∧
            (cell.all fun char => decide (Text.isLineBreak char = false)) = true := by
        decide +kernel
      intro cell member
      rcases clean cell member with ⟨stripped, noBar, noArrow, oneLine⟩
      exact ⟨stripped, noBar, noArrow, Text.forall_of_all oneLine⟩ }]
  oneLine := by
    have clean : ∀ text ∈ ["Licence".toList, "DISPUTE".toList, "TERMINATE".toList],
        (text.all fun char => decide (Text.isLineBreak char = false)) = true := by decide
    exact fun text member => Text.forall_of_all (clean text member)
  sources := by decide +kernel

example : licence.lines = [
    "# machine Licence".toList, [], "## events".toList, "- DISPUTE".toList,
    "- TERMINATE".toList, [],
    "## state active [initial]".toList, "> Active".toList, "- ignore: *".toList, [],
    "### state in_dispute [initial]".toList, [],
    "## state terminated [final]".toList, [],
    "## transitions".toList, "| Source | Event | Guard | Target | Action |".toList,
    "|---|---|---|---|---|".toList,
    "| active | TERMINATE | | terminated | |".toList] := by
  decide +kernel

end

end OrcaValidator
