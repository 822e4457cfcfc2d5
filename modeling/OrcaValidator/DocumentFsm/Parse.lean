import Mathlib.Data.List.Basic
import OrcaValidator.Library.Interpreter

/-!
# Parsing an extracted machine

`_parse_machine`: the states of an `.orca.md` text, with the hierarchy that the levels
of their headings express, and the rows of its transition table.  Every line is read on
its own, so the parser skips whatever it does not recognize; the levels of the open
headings are the only thing it carries from one line to the next.
-/

namespace OrcaValidator

open Library

/-- A state of a document's machine.  An entry of `states` in `parse_machine`. -/
structure DocumentState where
  id : Text
  label : Text
  initial : Bool
  final : Bool
  parent : Option Text
  deriving DecidableEq

/-- A row of the transition table.  `_parse_machine` keeps source, event and target; the
guard cell is kept here for what is said about the table. -/
structure DocumentRow where
  source : Text
  event : Text
  guard : Text
  target : Text
  deriving DecidableEq

/-- What `parse_machine` returns: the states and the transitions. -/
structure DocumentMachine where
  states : List DocumentState
  rows : List DocumentRow
  deriving DecidableEq

/-! ## Lines -/

/-- The class `[A-Za-z0-9_]`. -/
def isIdChar (char : Char) : Bool := char.isAlphanum || char == '_'

/-- The level of a heading and what follows its white space: `^(#+)\s+`. -/
def headingText (line : Text) : Option (ℕ × Text) :=
  let level := (line.takeWhile (· == '#')).length
  let rest := line.dropWhile (· == '#')
  if level = 0 ∨ ¬rest.head?.any Text.isSpace then none
  else some (level, Text.lstrip rest)

/-- `^#+\s+state`: a line at which the search for a description stops. -/
def startsState (line : Text) : Bool :=
  match headingText line with
  | some (_, rest) => "state".toList.isPrefixOf rest
  | none => false

/-- `\s*(?:\[([^\]]*)\])?\s*$`: the annotation of a heading, empty when there is none. -/
def matchAnn (text : Text) : Option Text :=
  match Text.lstrip text with
  | [] => some []
  | '[' :: rest =>
      match rest.dropWhile (· != ']') with
      | ']' :: after => if (Text.lstrip after).isEmpty then some (rest.takeWhile (· != ']')) else none
      | _ => none
  | _ => none

/-- The level, the id and the annotation of a state heading. -/
def matchHeading (line : Text) : Option (ℕ × Text × Text) :=
  match headingText line with
  | some (level, text) =>
      if "state".toList.isPrefixOf text then
        let named := text.drop "state".toList.length
        let id := (Text.lstrip named).takeWhile isIdChar
        if named.head?.any Text.isSpace ∧ id ≠ [] then
          (matchAnn ((Text.lstrip named).dropWhile isIdChar)).map fun ann =>
            (level, id, ann)
        else none
      else none
  | none => none

/-- The cells of a table line: `^\|(.+)\|\s*$`, split at its bars. -/
def tableCells (line : Text) : Option (List Text) :=
  match Text.rstrip line with
  | '|' :: rest =>
      if rest.getLast? = some '|' ∧ rest.dropLast ≠ [] then
        some ((rest.dropLast.splitOn '|').map Text.strip)
      else none
  | _ => none

section Tables

variable [Interpreter]

/-- A source cell that is not the header of the table and not its separator line. -/
def isSource (cell : Text) : Bool :=
  cell ≠ [] && Interpreter.lower cell ≠ "source".toList &&
    cell.any fun char => char ∉ "-: ".toList

/-- The row of a table line. -/
def tableRow (line : Text) : Option DocumentRow :=
  if "-->".toList <:+: line then none
  else match tableCells line with
    | some (source :: event :: guard :: target :: _) =>
        if isSource source then some ⟨source, event, guard, target⟩ else none
    | _ => none

end Tables

/-! ## Labels -/

/-- `str.title` on the text of an id. -/
def title (text : Text) : Text :=
  go false text
where
  /-- `inside` says whether the character before was a letter. -/
  go (inside : Bool) : Text → Text
    | [] => []
    | char :: rest =>
        (if inside then char.toLower else char.toUpper) :: go char.isAlpha rest

/-- Drop one of the suffixes that say no more than that the id is a state. -/
def dropKindSuffix (id : Text) : Text :=
  match ["_state".toList, "_phase".toList, "_status".toList, "_st".toList].find?
      (·.isSuffixOf id) with
  | some suffix => id.take (id.length - suffix.length)
  | none => id

/-- `_humanize`. -/
def humanize (id : Text) : Text :=
  let words := title (Text.strip ((dropKindSuffix id).map fun char =>
    if char = '_' then ' ' else char))
  if words = [] then id else words

/-- The description under a heading, in the next three lines. -/
def description : List Text → Text
  | [] => []
  | line :: rest =>
      if startsState line then []
      else match Text.strip line with
        | '>' :: text =>
            (Text.strip (text.dropWhile (· == '>'))).filter fun char => char ≠ '"' ∧ char ≠ ':'
        | _ => description rest

/-- `(label or _humanize(sid))[:52]`. -/
def stateLabel (id : Text) (following : List Text) : Text :=
  let label := description (following.take 3)
  (if label = [] then humanize id else label).take 52

/-! ## The machine -/

/-- The open headings, innermost first, after the headings of this level or a deeper one
have been closed. -/
def closeHeadings (level : ℕ) (stack : List (ℕ × Text)) : List (ℕ × Text) :=
  stack.dropWhile fun open' => level ≤ open'.1

variable [Interpreter]

/-- The loop of `_parse_machine`. -/
def parseLines (stack : List (ℕ × Text)) : List Text → DocumentMachine
  | [] => ⟨[], []⟩
  | line :: rest =>
      match matchHeading line with
      | some (level, id, ann) =>
          let stack := closeHeadings level stack
          let machine := parseLines ((level, id) :: stack) rest
          let state : DocumentState := {
            id := id
            label := stateLabel id rest
            initial := "initial".toList <:+: ann
            final := "final".toList <:+: ann
            parent := stack.head?.map Prod.snd }
          ⟨state :: machine.states, machine.rows⟩
      | none =>
          let machine := parseLines stack rest
          match tableRow line with
          | some row => ⟨machine.states, row :: machine.rows⟩
          | none => machine

/-- `_parse_machine`. -/
def parseMachine (text : Text) : DocumentMachine := parseLines [] (Text.splitlines text)

/-- `parent_of`: the parent of the last state with this id. -/
def DocumentMachine.parentOf (machine : DocumentMachine) (id : Text) : Option Text :=
  (machine.states.reverse.find? fun state => state.id = id).bind DocumentState.parent

end OrcaValidator
