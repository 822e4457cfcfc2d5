import OrcaValidator.DocumentFsm.Parse

/-!
# The verification copy

`_normalize_for_verification` rewrites the table of a nested machine: a row that leaves
the composite of its source is hoisted to the composite, repeated rows are dropped, and
the table is printed again under the part of the text that stands above its first
`## transitions`.  What the parser reads in the copy is derived here from what it reads
in the text.
-/

namespace OrcaValidator

open Library

/-- A transition as `_parse_machine` returns it. -/
structure Transition where
  source : Text
  event : Text
  target : Text
  deriving DecidableEq

/-- What is left of a row when its guard and its action are dropped. -/
def DocumentRow.transition (row : DocumentRow) : Transition :=
  ⟨row.source, row.event, row.target⟩

namespace DocumentMachine

/-- The transitions of a machine, in the order of its table. -/
def transitions (machine : DocumentMachine) : List Transition :=
  machine.rows.map DocumentRow.transition

/-- Some state has a parent, so that the text is normalized at all. -/
def Nested (machine : DocumentMachine) : Prop :=
  ∃ state ∈ machine.states, state.parent.isSome

instance (machine : DocumentMachine) : Decidable machine.Nested :=
  inferInstanceAs (Decidable (∃ state ∈ machine.states, state.parent.isSome))

/-- The composite that a row from `source` to `target` leaves, if it leaves one. -/
def leaves (machine : DocumentMachine) (source target : Text) : Option Text :=
  match machine.parentOf source with
  | some parent =>
      if machine.parentOf target ≠ some parent ∧ target ≠ parent then some parent else none
  | none => none

/-- The source of a transition in the copy: the composite it leaves, else its own. -/
def copySource (machine : DocumentMachine) (source target : Text) : Text :=
  (machine.leaves source target).getD source

/-- A transition of the copy. -/
def hoist (machine : DocumentMachine) (transition : Transition) : Transition :=
  { transition with source := machine.copySource transition.source transition.target }

/-- The loop over the transitions: each one hoisted, unless it was seen before. -/
def hoistAll (machine : DocumentMachine) (seen : List Transition) :
    List Transition → List Transition
  | [] => []
  | transition :: rest =>
      let hoisted := machine.hoist transition
      if hoisted ∈ seen then machine.hoistAll seen rest
      else hoisted :: machine.hoistAll (hoisted :: seen) rest

end DocumentMachine

/-- `f"| {s} | {e} | | {t} | |"`. -/
def printTransition (transition : Transition) : Text :=
  "| ".toList ++ transition.source ++ " | ".toList ++ transition.event ++ " | | ".toList ++
    transition.target ++ " | |".toList

/-- The part of a text that the copy keeps. -/
def copyHead (text : Text) : Text :=
  Text.rstrip (Text.beforeFirst "## transitions".toList text)

/-- The lines of the copy for the verifier: the head, the header and a row for each transition. -/
def copyLines (text : Text) (transitions : List Transition) : List Text :=
  [copyHead text, [], "## transitions".toList,
    "| Source | Event | Guard | Target | Action |".toList, "|---|---|---|---|---|".toList] ++
    transitions.map printTransition

variable [Interpreter]

/-- `_normalize_for_verification`. -/
def normalizeForVerification (text : Text) : Text :=
  let machine := parseMachine text
  if machine.Nested then
    List.intercalate "\n".toList
      (copyLines text (machine.hoistAll [] machine.transitions)) ++ "\n".toList
  else text

/-! ## Reading line by line -/

omit [Interpreter] in
theorem head?_of_headingText {line : Text} {heading : ℕ × Text}
    (matched : headingText line = some heading) : line.head? = some '#' := by
  cases line with
  | nil => simp [headingText] at matched
  | cons char rest =>
      by_cases hash : char = '#'
      · simp [hash]
      · simp [headingText, hash] at matched

omit [Interpreter] in
theorem head?_of_matchHeading {line : Text} {heading : ℕ × Text × Text}
    (matched : matchHeading line = some heading) : line.head? = some '#' := by
  unfold matchHeading at matched
  cases read : headingText line with
  | none => simp [read] at matched
  | some found => exact head?_of_headingText read

omit [Interpreter] in
theorem head?_of_tableCells {line : Text} {cells : List Text}
    (matched : tableCells line = some cells) : line.head? = some '|' := by
  unfold tableCells at matched
  split at matched
  · next rest stripped =>
      rcases Text.prefix_rstrip line with ⟨blank, split⟩
      rw [← split, stripped]
      rfl
  · cases matched

/-- A line is no row when its first cell is no source. -/
theorem tableRow_eq_none {line : Text} (cells : Option (List Text))
    (read : tableCells line = cells)
    (dropped : ∀ found ∈ cells, ∀ source ∈ found.head?, isSource source = false) :
    tableRow line = none := by
  subst read
  unfold tableRow
  split
  · rfl
  · split
    · next source event guard target others read =>
        rw [dropped _ read source rfl]
        rfl
    · rfl

theorem tableRow_eq_none_of_heading {line : Text} {heading : ℕ × Text × Text}
    (matched : matchHeading line = some heading) : tableRow line = none := by
  apply tableRow_eq_none _ rfl
  intro cells read
  have bar := head?_of_tableCells read
  rw [head?_of_matchHeading matched] at bar
  exact absurd bar (by decide)

/-- The rows do not depend on the open headings. -/
theorem rows_parseLines (stack : List (ℕ × Text)) (lines : List Text) :
    (parseLines stack lines).rows = lines.filterMap tableRow := by
  induction lines generalizing stack with
  | nil => rfl
  | cons line rest ih =>
      unfold parseLines
      cases matched : matchHeading line with
      | some heading => simp [tableRow_eq_none_of_heading matched, ih]
      | none => cases read : tableRow line <;> simp [read, ih]

/-- What the hierarchy keeps of a state: everything but its label. -/
def DocumentState.outline (state : DocumentState) : Text × Bool × Bool × Option Text :=
  (state.id, state.initial, state.final, state.parent)

theorem states_parseLines_plain (stack : List (ℕ × Text)) {lines : List Text}
    (plain : ∀ line ∈ lines, matchHeading line = none) :
    (parseLines stack lines).states = [] := by
  induction lines with
  | nil => rfl
  | cons line rest ih =>
      have none := plain line (by simp)
      have later := ih fun other member => plain other (by simp [member])
      unfold parseLines
      cases read : tableRow line <;> simpa only [none, read] using later

/-- Lines without a state heading add no state. -/
theorem outlines_parseLines_append (stack : List (ℕ × Text)) (lines : List Text)
    {more : List Text} (plain : ∀ line ∈ more, matchHeading line = none) :
    (parseLines stack (lines ++ more)).states.map DocumentState.outline =
      (parseLines stack lines).states.map DocumentState.outline := by
  induction lines generalizing stack with
  | nil => simp [states_parseLines_plain stack plain, parseLines]
  | cons line rest ih =>
      simp only [List.cons_append]
      unfold parseLines
      cases matched : matchHeading line with
      | some heading => simp [ih, DocumentState.outline]
      | none => cases read : tableRow line <;> simp [ih]

/-! ## Cells -/

/-- A text that comes back from a table unchanged when it is printed into a cell. -/
structure CleanCell (cell : Text) : Prop where
  stripped : Text.strip cell = cell
  noBar : '|' ∉ cell
  noArrow : ¬"-->".toList <:+: cell
  oneLine : ∀ char ∈ cell, Text.isLineBreak char = false

omit [Interpreter] in
theorem cleanCell_of_tableCells {line cell : Text} {cells : List Text}
    (read : tableCells line = some cells) (noArrow : ¬"-->".toList <:+: line)
    (oneLine : ∀ char ∈ line, Text.isLineBreak char = false) (member : cell ∈ cells) :
    CleanCell cell := by
  unfold tableCells at read
  split at read
  · next rest stripped =>
      split at read
      · next bounded =>
          obtain rfl := Option.some.inj read
          rcases List.mem_map.mp member with ⟨piece, pieceMem, rfl⟩
          rcases Text.infix_of_mem_splitOn pieceMem with ⟨within, noBar⟩
          have part : Text.strip piece <:+: line :=
            (Text.strip_infix piece).trans (within.trans
              ((List.dropLast_prefix rest).isInfix.trans
                ((List.suffix_cons '|' rest).isInfix.trans
                  (stripped ▸ (Text.prefix_rstrip line).isInfix))))
          refine ⟨Text.strip_strip piece, ?_, ?_, ?_⟩
          · exact fun bar => noBar ((Text.strip_infix piece).subset bar)
          · exact fun arrow => noArrow (arrow.trans part)
          · exact fun char charMem => oneLine char (part.subset charMem)
      · cases read
  · cases read

theorem cleanCell_of_tableRow {line : Text} {row : DocumentRow}
    (read : tableRow line = some row)
    (oneLine : ∀ char ∈ line, Text.isLineBreak char = false) :
    CleanCell row.source ∧ CleanCell row.event ∧ CleanCell row.target ∧
      isSource row.source = true := by
  unfold tableRow at read
  split at read
  · cases read
  · next noArrow =>
      split at read
      · next source event guard target others cells =>
          split at read
          · next kept =>
              obtain rfl := Option.some.inj read
              have clean (cell : Text) (member : cell ∈ source :: event :: guard :: target :: others) :
                  CleanCell cell := cleanCell_of_tableCells cells noArrow oneLine member
              exact ⟨clean _ (by simp), clean _ (by simp), clean _ (by simp), kept⟩
          · cases read
      · cases read

/-! ## What is printed is read back -/

/-- A cell between two blanks. -/
def padded (cell : Text) : Text := ' ' :: (cell ++ [' '])

/-- The printed cells of a transition, up to the last bar. -/
def printedCells (transition : Transition) : Text :=
  padded transition.source ++ '|' :: (padded transition.event ++ '|' :: ([' '] ++
    '|' :: (padded transition.target ++ '|' :: [' '])))

omit [Interpreter] in
theorem printTransition_eq (transition : Transition) :
    printTransition transition = '|' :: (printedCells transition ++ ['|']) := by
  change ['|', ' '] ++ transition.source ++ [' ', '|', ' '] ++ transition.event ++
    [' ', '|', ' ', '|', ' '] ++ transition.target ++ [' ', '|', ' ', '|'] = _
  simp only [printedCells, padded, List.append_assoc, List.cons_append, List.nil_append]

/-- A table line with these texts between its bars. -/
def barred (cells : List Text) : Text := '|' :: (List.intercalate ['|'] cells ++ ['|'])

omit [Interpreter] in
theorem printTransition_eq_barred (transition : Transition) :
    printTransition transition = barred [padded transition.source, padded transition.event, [' '],
      padded transition.target, [' ']] := by
  rw [printTransition_eq]
  simp [barred, printedCells, List.intercalate]

omit [Interpreter] in
theorem tableCells_barred {cells : List Text} (noBar : ∀ cell ∈ cells, '|' ∉ cell)
    (nonempty : List.intercalate ['|'] cells ≠ []) :
    tableCells (barred cells) = some (cells.map Text.strip) := by
  have some' : cells ≠ [] := by
    rintro rfl
    exact nonempty rfl
  have stripped : Text.rstrip (barred cells) = barred cells := by
    apply Text.rstrip_eq_self
    intro char last
    rw [barred, ← List.cons_append, List.getLast?_concat] at last
    obtain rfl := Option.some.inj last
    decide
  rw [tableCells, stripped, barred]
  simp only [List.getLast?_concat, List.dropLast_concat, true_and, if_pos nonempty,
    List.splitOn_intercalate '|' noBar some']

omit [Interpreter] in
/-- What holds no bar itself stands in one of the cells. -/
theorem exists_infix_of_barred {needle : Text} {cells : List Text} (nonempty : needle ≠ [])
    (foreign : '|' ∉ needle) (found : needle <:+: barred cells) :
    ∃ cell ∈ cells, needle <:+: cell := by
  have within := Text.infix_of_concat foreign (Text.infix_of_cons foreign found)
  apply Text.exists_infix_of_intercalate nonempty (by simp) _ within
  intro char member
  obtain rfl := List.mem_singleton.mp member
  exact foreign

omit [Interpreter] in
theorem oneLine_barred {cells : List Text}
    (inside : ∀ cell ∈ cells, ∀ char ∈ cell, Text.isLineBreak char = false) :
    ∀ char ∈ barred cells, Text.isLineBreak char = false := by
  intro char member
  by_cases bar : char = '|'
  · rw [bar]
    decide
  · have alone : [char] <:+: barred cells := (List.singleton_infix_iff _ _).mpr member
    rcases exists_infix_of_barred (by simp) (by simpa using Ne.symm bar) alone with
      ⟨cell, cellMem, within⟩
    exact inside cell cellMem char ((List.singleton_infix_iff _ _).mp within)

omit [Interpreter] in
theorem not_mem_padded {cell : Text} (clean : CleanCell cell) : '|' ∉ padded cell := by
  simp [padded, clean.noBar]

omit [Interpreter] in
theorem noArrow_padded {cell : Text} (clean : CleanCell cell) :
    ¬"-->".toList <:+: padded cell := by
  intro found
  have blank : ' ' ∉ "-->".toList := by decide
  exact clean.noArrow (Text.infix_of_concat blank (Text.infix_of_cons blank found))

omit [Interpreter] in
theorem oneLine_padded {cell : Text} (clean : CleanCell cell) :
    ∀ char ∈ padded cell, Text.isLineBreak char = false := by
  have blank : Text.isLineBreak ' ' = false := by decide
  simpa [padded, or_imp, forall_and, blank] using clean.oneLine

omit [Interpreter] in
theorem noArrow_printTransition {transition : Transition} (source : CleanCell transition.source)
    (event : CleanCell transition.event) (target : CleanCell transition.target) :
    ¬"-->".toList <:+: printTransition transition := by
  have blank : ¬"-->".toList <:+: [' '] := by decide
  intro found
  rw [printTransition_eq_barred] at found
  rcases exists_infix_of_barred (by decide) (by decide) found with ⟨cell, member, within⟩
  simp only [List.mem_cons, List.not_mem_nil, or_false] at member
  rcases member with rfl | rfl | rfl | rfl | rfl
  · exact noArrow_padded source within
  · exact noArrow_padded event within
  · exact blank within
  · exact noArrow_padded target within
  · exact blank within

omit [Interpreter] in
theorem tableCells_printTransition {transition : Transition}
    (source : CleanCell transition.source) (event : CleanCell transition.event)
    (target : CleanCell transition.target) :
    tableCells (printTransition transition) =
      some [transition.source, transition.event, [], transition.target, []] := by
  have blank : Text.strip [' '] = [] := by decide
  rw [printTransition_eq_barred, tableCells_barred]
  · simp only [List.map_cons, List.map_nil, padded, Text.strip_padded source.stripped,
      Text.strip_padded event.stripped, Text.strip_padded target.stripped, blank]
  · intro cell member
    simp only [List.mem_cons, List.not_mem_nil, or_false] at member
    rcases member with rfl | rfl | rfl | rfl | rfl
    · exact not_mem_padded source
    · exact not_mem_padded event
    · decide
    · exact not_mem_padded target
    · decide
  · simp [List.intercalate, padded]

/-- A printed transition is read back, without its guard, unless its source has come to be
the header of a table. -/
theorem tableRow_printTransition {transition : Transition}
    (source : CleanCell transition.source) (event : CleanCell transition.event)
    (target : CleanCell transition.target) :
    tableRow (printTransition transition) =
      if isSource transition.source then
        some ⟨transition.source, transition.event, [], transition.target⟩
      else none := by
  unfold tableRow
  rw [if_neg (noArrow_printTransition source event target),
    tableCells_printTransition source event target]

/-! ## Ids -/

/-- A text that the parser takes for the id of a state. -/
structure IsId (id : Text) : Prop where
  nonempty : id ≠ []
  chars : ∀ char ∈ id, isIdChar char = true

omit [Interpreter] in
theorem isId_of_matchHeading {line : Text} {heading : ℕ × Text × Text}
    (matched : matchHeading line = some heading) : IsId heading.2.1 := by
  unfold matchHeading at matched
  split at matched
  · split at matched
    · dsimp only at matched
      split at matched
      · next named =>
          rcases Option.map_eq_some_iff.mp matched with ⟨ann, _, rfl⟩
          exact ⟨named.2, fun char member => List.mem_takeWhile_imp member⟩
      · cases matched
    · cases matched
  · cases matched

theorem isId_of_mem_states {stack : List (ℕ × Text)} {lines : List Text}
    {state : DocumentState} (opened : ∀ heading ∈ stack, IsId heading.2)
    (member : state ∈ (parseLines stack lines).states) :
    IsId state.id ∧ ∀ parent ∈ state.parent, IsId parent := by
  induction lines generalizing stack with
  | nil => simp [parseLines] at member
  | cons line rest ih =>
      unfold parseLines at member
      cases matched : matchHeading line with
      | none =>
          cases read : tableRow line <;> simp only [matched, read] at member <;>
            exact ih opened member
      | some heading =>
          have id := isId_of_matchHeading matched
          have closed : ∀ open' ∈ closeHeadings heading.1 stack, IsId open'.2 :=
            fun open' within => opened open' ((List.dropWhile_suffix _).subset within)
          simp only [matched] at member
          rcases List.mem_cons.mp member with rfl | later
          · refine ⟨id, ?_⟩
            intro parent isParent
            rcases Option.map_eq_some_iff.mp isParent with ⟨open', first, rfl⟩
            exact closed open' (List.mem_of_head? first)
          · refine ih (fun open' within => ?_) later
            rcases List.mem_cons.mp within with rfl | before
            · exact id
            · exact closed open' before

omit [Interpreter] in
theorem isSpace_of_isIdChar {char : Char} (idChar : isIdChar char = true) :
    Text.isSpace char = false := by
  simp only [isIdChar, Bool.or_eq_true, beq_iff_eq] at idChar
  rcases idChar with alphanum | rfl
  · exact Interpreter.isSpace_of_isAlphanum alphanum
  · decide

omit [Interpreter] in
theorem IsId.cleanCell {id : Text} (isId : IsId id) : CleanCell id := by
  have space (char : Char) (member : char ∈ id) : Text.isSpace char = false :=
    isSpace_of_isIdChar (isId.chars char member)
  have dash : '-' ∉ id := fun member => absurd (isId.chars _ member) (by decide)
  refine ⟨Text.strip_eq_self ?_ ?_, ?_, ?_, ?_⟩
  · exact fun char first => space char (List.mem_of_head? first)
  · exact fun char last => space char (List.mem_of_getLast? last)
  · exact fun member => absurd (isId.chars _ member) (by decide)
  · exact fun arrow => dash (arrow.subset (by decide))
  · intro char member
    by_contra breaks
    have blank := Text.isSpace_of_isLineBreak (by simpa using breaks)
    simp [space char member] at blank

/-- An id is a source unless it is the header's word. -/
theorem IsId.isSource {id : Text} (isId : IsId id) :
    isSource id = decide (Interpreter.lower id ≠ "source".toList) := by
  have char : (id.any fun char => decide (char ∉ "-: ".toList)) = true := by
    rcases List.exists_mem_of_ne_nil _ isId.nonempty with ⟨char, member⟩
    refine List.any_eq_true.mpr ⟨char, member, decide_eq_true fun dash => ?_⟩
    have idChar := isId.chars char member
    have three : char = '-' ∨ char = ':' ∨ char = ' ' := by simpa using dash
    rcases three with rfl | rfl | rfl <;> exact absurd idChar (by decide)
  simp only [OrcaValidator.isSource, char, Bool.and_true, isId.nonempty, ne_eq,
    not_false_eq_true, decide_true, Bool.true_and]

/-! ## What the parser reads in the copy -/

theorem isId_of_parentOf {text : Text} {id parent : Text}
    (found : (parseMachine text).parentOf id = some parent) : IsId parent := by
  rcases Option.bind_eq_some_iff.mp found with ⟨state, first, isParent⟩
  have member : state ∈ (parseMachine text).states :=
    List.mem_reverse.mp (List.mem_of_find?_eq_some first)
  exact (isId_of_mem_states (by simp) member).2 parent isParent

theorem isId_of_leaves {text : Text} {source target composite : Text}
    (left : (parseMachine text).leaves source target = some composite) : IsId composite := by
  unfold DocumentMachine.leaves at left
  split at left
  · next parent found =>
      split at left
      · obtain rfl := Option.some.inj left
        exact isId_of_parentOf found
      · cases left
  · cases left

theorem cleanCell_of_mem_rows {text : Text} {row : DocumentRow}
    (member : row ∈ (parseMachine text).rows) :
    CleanCell row.source ∧ CleanCell row.event ∧ CleanCell row.target ∧
      isSource row.source = true := by
  rw [parseMachine, rows_parseLines] at member
  rcases List.mem_filterMap.mp member with ⟨line, lineMem, read⟩
  exact cleanCell_of_tableRow read fun char charMem =>
    Text.isLineBreak_of_mem_splitlines lineMem charMem

omit [Interpreter] in
theorem mem_hoistAll {machine : DocumentMachine} {seen transitions : List Transition}
    {transition : Transition} :
    transition ∈ machine.hoistAll seen transitions ↔
      transition ∉ seen ∧ ∃ original ∈ transitions, machine.hoist original = transition := by
  induction transitions generalizing seen with
  | nil => simp [DocumentMachine.hoistAll]
  | cons first rest ih =>
      unfold DocumentMachine.hoistAll
      by_cases known : machine.hoist first ∈ seen
      · simp only [known, if_true, ih, List.mem_cons, exists_eq_or_imp]
        constructor
        · exact fun ⟨fresh, later⟩ => ⟨fresh, .inr later⟩
        · rintro ⟨fresh, rfl | later⟩
          · exact absurd known fresh
          · exact ⟨fresh, later⟩
      · simp only [known, if_false, List.mem_cons, ih, exists_eq_or_imp, not_or]
        constructor
        · rintro (rfl | ⟨⟨_, fresh⟩, later⟩)
          · exact ⟨known, .inl rfl⟩
          · exact ⟨fresh, .inr later⟩
        · rintro ⟨fresh, rfl | later⟩
          · exact .inl rfl
          · by_cases same : transition = machine.hoist first
            · exact .inl same
            · exact .inr ⟨⟨same, fresh⟩, later⟩

theorem cleanCell_of_mem_hoistAll {text : Text} {transition : Transition}
    (member : transition ∈ (parseMachine text).hoistAll [] (parseMachine text).transitions) :
    CleanCell transition.source ∧ CleanCell transition.event ∧ CleanCell transition.target := by
  rcases (mem_hoistAll.mp member).2 with ⟨original, originalMem, rfl⟩
  rcases List.mem_map.mp originalMem with ⟨row, rowMem, rfl⟩
  rcases cleanCell_of_mem_rows rowMem with ⟨source, event, target, _⟩
  refine ⟨?_, event, target⟩
  simp only [DocumentMachine.hoist, DocumentMachine.copySource]
  cases left : (parseMachine text).leaves row.transition.source row.transition.target with
  | none => exact source
  | some composite => exact (isId_of_leaves left).cleanCell

/-- The lines of the head.  The empty head is one empty line. -/
def headLines (text : Text) : List Text :=
  if copyHead text = [] then [[]] else Text.splitlines (copyHead text)

omit [Interpreter] in
theorem isLineBreak_printTransition {transition : Transition}
    (source : CleanCell transition.source) (event : CleanCell transition.event)
    (target : CleanCell transition.target) :
    ∀ char ∈ printTransition transition, Text.isLineBreak char = false := by
  rw [printTransition_eq_barred]
  apply oneLine_barred
  intro cell member
  simp only [List.mem_cons, List.not_mem_nil, or_false] at member
  rcases member with rfl | rfl | rfl | rfl | rfl
  · exact oneLine_padded source
  · exact oneLine_padded event
  · exact Text.forall_of_all (by decide)
  · exact oneLine_padded target
  · exact Text.forall_of_all (by decide)

/-- The header of the printed table. -/
def tableHeader : List Text :=
  [[], "## transitions".toList, "| Source | Event | Guard | Target | Action |".toList,
    "|---|---|---|---|---|".toList]

theorem splitlines_copy {text : Text} (nested : (parseMachine text).Nested) :
    Text.splitlines (normalizeForVerification text) =
      headLines text ++ (tableHeader ++
        ((parseMachine text).hoistAll [] (parseMachine text).transitions).map
          printTransition) := by
  generalize hoisted : (parseMachine text).hoistAll [] (parseMachine text).transitions = all
  have rest := Text.splitlines_intercalate (tableHeader ++ all.map printTransition)
    (by
      intro line member
      rcases List.mem_append.mp member with fixed | printed
      · have clean : ∀ line ∈ tableHeader,
            (line.all fun char => decide (Text.isLineBreak char = false)) = true := by decide
        exact Text.forall_of_all (clean line fixed)
      · rcases List.mem_map.mp printed with ⟨transition, transitionMem, rfl⟩
        rw [← hoisted] at transitionMem
        rcases cleanCell_of_mem_hoistAll transitionMem with ⟨source, event, target⟩
        exact isLineBreak_printTransition source event target)
    (by simp [tableHeader])
  have joined : normalizeForVerification text = copyHead text ++
      '\n' :: (List.intercalate ['\n'] (tableHeader ++ all.map printTransition) ++ ['\n']) := by
    simp [normalizeForVerification, nested, hoisted, copyLines, tableHeader, List.intercalate]
  rw [joined]
  unfold headLines
  by_cases empty : copyHead text = []
  · rw [if_pos empty, empty, List.nil_append,
      Text.splitlines_cons_of_break (by decide) (by simp), rest]
    rfl
  · rw [if_neg empty, Text.splitlines_append_newline empty, rest]
    intro char last
    by_contra breaks
    have space := Text.isSpace_of_isLineBreak (by simpa using breaks)
    rw [List.getLast?_eq_some_getLast empty, Option.mem_def, Option.some.injEq] at last
    rw [← last] at space
    exact absurd (space.symm.trans (Text.isSpace_getLast_rstrip empty)) (by decide)

/-- The machine that the parser reads in the head of the copy. -/
def headMachine (text : Text) : DocumentMachine := parseMachine (copyHead text)

theorem parseLines_headLines (text : Text) :
    parseLines [] (headLines text) = headMachine text := by
  unfold headLines headMachine parseMachine
  split
  · next empty =>
      rw [empty]
      rfl
  · rfl

theorem isSource_header : isSource "Source".toList = false := by
  have lowered : Interpreter.lower "Source".toList = "source".toList := by
    rw [Interpreter.lower_ascii _ (Text.forall_of_all (by decide))]
    decide
  unfold isSource
  rw [lowered]
  decide

theorem isSource_rule : isSource "---".toList = false := by
  have dashes : ("---".toList.any fun char => decide (char ∉ "-: ".toList)) = false := by decide
  unfold isSource
  rw [dashes, Bool.and_false]

/-- The lines between the head and the rows are not rows themselves. -/
theorem filterMap_tableHeader : tableHeader.filterMap tableRow = [] := by
  have blank : tableRow [] = none :=
    tableRow_eq_none none (by decide) (by simp)
  have heading : tableRow "## transitions".toList = none :=
    tableRow_eq_none none (by decide) (by simp)
  have names : tableRow "| Source | Event | Guard | Target | Action |".toList = none := by
    refine tableRow_eq_none (some ["Source".toList, "Event".toList, "Guard".toList,
      "Target".toList, "Action".toList]) (by decide +kernel) ?_
    rintro _ ⟨⟩ _ ⟨⟩
    exact isSource_header
  have rule : tableRow "|---|---|---|---|---|".toList = none := by
    refine tableRow_eq_none (some ["---".toList, "---".toList, "---".toList,
      "---".toList, "---".toList]) (by decide +kernel) ?_
    rintro _ ⟨⟩ _ ⟨⟩
    exact isSource_rule
  simp only [tableHeader, List.filterMap_cons, blank, heading, names, rule, List.filterMap_nil]

/-- The rows of the copy: those that its head keeps, and the hoisted ones without guard. -/
theorem rows_copy {text : Text} (nested : (parseMachine text).Nested) :
    (parseMachine (normalizeForVerification text)).rows =
      (headMachine text).rows ++
        (((parseMachine text).hoistAll [] (parseMachine text).transitions).filter
          fun transition => isSource transition.source).map fun transition =>
            ⟨transition.source, transition.event, [], transition.target⟩ := by
  have head : (headLines text).filterMap tableRow = (headMachine text).rows := by
    rw [← parseLines_headLines, rows_parseLines]
  have printed : ∀ transitions : List Transition,
      (∀ transition ∈ transitions, CleanCell transition.source ∧
        CleanCell transition.event ∧ CleanCell transition.target) →
      (transitions.map printTransition).filterMap tableRow =
        (transitions.filter fun transition => isSource transition.source).map
          fun transition => ⟨transition.source, transition.event, [], transition.target⟩ := by
    intro transitions
    induction transitions with
    | nil => exact fun _ => rfl
    | cons first rest ih =>
        intro clean
        rcases clean first (by simp) with ⟨source, event, target⟩
        have later := ih fun transition member => clean transition (by simp [member])
        rw [List.map_cons, List.filterMap_cons, tableRow_printTransition source event target]
        cases kept : isSource first.source <;> simp [kept, later]
  rw [parseMachine, splitlines_copy nested, rows_parseLines, List.filterMap_append,
    List.filterMap_append, head, filterMap_tableHeader, List.nil_append,
    printed _ fun _ => cleanCell_of_mem_hoistAll]

theorem outlines_copy {text : Text} (nested : (parseMachine text).Nested) :
    (parseMachine (normalizeForVerification text)).states.map DocumentState.outline =
      (headMachine text).states.map DocumentState.outline := by
  have plain : ∀ line ∈ tableHeader ++
      ((parseMachine text).hoistAll [] (parseMachine text).transitions).map printTransition,
      matchHeading line = none := by
    intro line member
    rcases List.mem_append.mp member with fixed | printed
    · exact (by decide : ∀ line ∈ tableHeader, matchHeading line = none) line fixed
    · rcases List.mem_map.mp printed with ⟨transition, _, rfl⟩
      cases matched : matchHeading (printTransition transition) with
      | none => rfl
      | some heading =>
          have hash := head?_of_matchHeading matched
          rw [printTransition_eq] at hash
          exact absurd hash (by simp)
  rw [parseMachine, splitlines_copy nested, outlines_parseLines_append _ _ plain,
    parseLines_headLines]

end OrcaValidator
