import Mathlib.Data.List.Forall2
import OrcaValidator.Library.Enclosed

/-!
# The Word export

`markdown_to_docx`: Markdown is rendered line by line, to headings, bullets and other
paragraphs.  What stands between two `**` becomes a bold run, except in headings.

`Renders` says what a line is in the document, by the characters of the paragraph and
whether each is bold, without the runs that they are divided into.
-/

namespace OrcaValidator

open Library

/-! ## The document -/

/-- The styles of paragraphs that `markdown_to_docx` uses. -/
inductive DocxStyle where
  | title
  | heading (level : ℕ)
  | listBullet
  | normal

/-- A run of a paragraph. -/
structure DocxRun where
  text : Text
  bold : Bool

/-- A paragraph of the Word document. -/
structure Paragraph where
  style : DocxStyle
  runs : List DocxRun

/-- `doc.add_paragraph`; a text is its first run. -/
def addParagraph (style : DocxStyle) (text : Text) : Paragraph :=
  ⟨style, if text = [] then [] else [⟨text, false⟩]⟩

/-- `doc.add_heading`. -/
def addHeading (text : Text) (level : ℕ) : Paragraph :=
  addParagraph (if level = 0 then .title else .heading level) text

/-! ## Lines -/

/-- `^(#{1,6})\s+(.*)`: the level of a heading and its text. -/
def docxHeading (line : Text) : Option (ℕ × Text) :=
  let level := (line.takeWhile (· == '#')).length
  let rest := line.dropWhile (· == '#')
  if level = 0 ∨ 6 < level ∨ ¬rest.head?.any Text.isSpace then none
  else some (level, (Text.lstrip rest).takeWhile (· != '\n'))

/-- The text behind a match of `^[-*]\s+`. -/
def docxBullet (line : Text) : Option Text :=
  match line with
  | mark :: rest =>
      if (mark = '-' ∨ mark = '*') ∧ rest.head?.any Text.isSpace then some (Text.lstrip rest)
      else none
  | [] => none

/-- `\*\*(.+?)\*\*`. -/
def emphasis : Pattern := Pattern.enclosed "**".toList "**".toList

/-- The runs that `_add_runs` adds. -/
def addRuns (text : Text) : List DocxRun :=
  (emphasis.split text).zipIdx.filterMap fun (seg, i) =>
    if seg = [] then none else some ⟨seg, i % 2 == 1⟩

/-- The paragraph for a line of Markdown.  The body of the loop of `markdown_to_docx`. -/
def docxParagraph (raw : Text) : Paragraph :=
  let line := Text.rstrip raw
  if line = [] then addParagraph .normal []
  else match docxHeading line with
    | some (level, text) => addHeading text (min level 4)
    | none =>
        match docxBullet line with
        | some text => ⟨.listBullet, addRuns text⟩
        | none => ⟨.normal, addRuns line⟩

/-- `markdown_to_docx`. -/
def markdownToDocx (md : Option Text) (title : Text) : List Paragraph :=
  addHeading title 0 :: (Text.splitlines (md.getD [])).map docxParagraph

/-! ## What a line says -/

/-- The characters of a paragraph, each with whether it is bold. -/
def Paragraph.chars (paragraph : Paragraph) : List (Char × Bool) :=
  paragraph.runs.flatMap fun run => run.text.map (·, run.bold)

/-- A text with white space before it. -/
structure Spaced (gap text : Text) : Prop where
  proper : gap ≠ []
  space : ∀ char ∈ gap, Text.isSpace char = true
  visible : ∀ char ∈ text.head?, Text.isSpace char = false

/-- One to six `#`, white space, and the text of the heading. -/
structure IsHeading (line marks text : Text) : Prop where
  marked : ∀ char ∈ marks, char = '#'
  level : 1 ≤ marks.length ∧ marks.length ≤ 6
  spaced : ∃ gap, line = marks ++ (gap ++ text) ∧ Spaced gap text

/-- A `-` or `*`, white space, and the text of the bullet. -/
def IsBullet (line text : Text) : Prop :=
  ∃ mark gap, line = mark :: (gap ++ text) ∧ (mark = '-' ∨ mark = '*') ∧ Spaced gap text

/-- What a paragraph has of a line: all of it but white space at its end, the marker, and,
outside of headings, the `**` of its pairs. -/
inductive Renders (raw : Text) (paragraph : Paragraph) : Prop
  | heading {marks text : Text} (line : IsHeading (Text.rstrip raw) marks text)
      (style : paragraph.style = .heading (min marks.length 4))
      (chars : paragraph.chars = text.map (·, false))
  | bullet {text : Text} (line : IsBullet (Text.rstrip raw) text)
      (style : paragraph.style = .listBullet)
      (chars : Enclosure "**".toList "**".toList text paragraph.chars)
  | plain (noHeading : ∀ marks text, ¬IsHeading (Text.rstrip raw) marks text)
      (noBullet : ∀ text, ¬IsBullet (Text.rstrip raw) text)
      (style : paragraph.style = .normal)
      (chars : Enclosure "**".toList "**".toList (Text.rstrip raw) paragraph.chars)

theorem chars_addParagraph (style : DocxStyle) (text : Text) :
    (addParagraph style text).chars = text.map (·, false) := by
  cases text with
  | nil => rfl
  | cons char rest => simp [addParagraph, Paragraph.chars]

/-! ## Runs -/

/-- Leaving out the empty pieces leaves out no character. -/
theorem flatMap_runs (pieces : List Text) (start : ℕ) :
    ((pieces.zipIdx start).filterMap fun (seg, i) =>
        if seg = [] then none else some (⟨seg, i % 2 == 1⟩ : DocxRun)).flatMap
      (fun run => run.text.map (·, run.bold)) = Pattern.alternate (start % 2 == 1) pieces := by
  induction pieces generalizing start with
  | nil => rfl
  | cons piece pieces ih =>
      have parity : (!(start % 2 == 1)) = ((start + 1) % 2 == 1) := by
        rcases Nat.mod_two_eq_zero_or_one start with even | odd
        · simp [Nat.add_mod, even]
        · simp [Nat.add_mod, odd]
      rw [Pattern.alternate, parity, ← ih, List.zipIdx_cons]
      cases piece with
      | nil => simp
      | cons char rest => simp

theorem enclosure_addRuns (style : DocxStyle) {text : Text} (line : '\n' ∉ text) :
    Enclosure "**".toList "**".toList text (Paragraph.chars ⟨style, addRuns text⟩) := by
  have runs : Paragraph.chars ⟨style, addRuns text⟩ =
      Pattern.alternate false (emphasis.split text) := flatMap_runs _ 0
  rw [runs]
  exact Pattern.enclosure_split line

/-! ## Markers -/

theorem spaced_lstrip {rest : Text} (space : rest.head?.any Text.isSpace = true) :
    ∃ gap, rest = gap ++ Text.lstrip rest ∧ Spaced gap (Text.lstrip rest) := by
  exact ⟨rest.takeWhile Text.isSpace, (Text.gap_append_lstrip rest).symm,
    Text.gap_ne_nil space, fun char => Text.isSpace_of_mem_gap,
    fun char => Text.isSpace_head_lstrip⟩

theorem Spaced.lstrip {gap text : Text} (spaced : Spaced gap text) :
    Text.lstrip (gap ++ text) = text ∧ (gap ++ text).head?.any Text.isSpace = true := by
  rcases spaced with ⟨proper, space, visible⟩
  constructor
  · rw [Text.lstrip, List.dropWhile_append_of_pos space]
    exact Text.lstrip_eq_self visible
  · cases gap with
    | nil => exact absurd rfl proper
    | cons char gap => simpa using space char

theorem isHeading_of_docxHeading {line text : Text} {level : ℕ} (oneLine : '\n' ∉ line)
    (found : docxHeading line = some (level, text)) :
    ∃ marks, IsHeading line marks text ∧ marks.length = level := by
  simp only [docxHeading] at found
  split at found
  · cases found
  · next fits =>
      obtain ⟨rfl, rfl⟩ := Prod.mk.inj (Option.some.inj found)
      simp only [not_or, not_not] at fits
      rcases fits with ⟨some', six, space⟩
      rcases spaced_lstrip space with ⟨gap, split, spaced⟩
      have parts : line = line.takeWhile (· == '#') ++ (gap ++
          Text.lstrip (line.dropWhile (· == '#'))) := by
        rw [← split, List.takeWhile_append_dropWhile]
      have whole : (Text.lstrip (line.dropWhile (· == '#'))).takeWhile (· != '\n') =
          Text.lstrip (line.dropWhile (· == '#')) := by
        apply List.takeWhile_eq_self_iff.mpr
        intro char member
        have inLine : char ∈ line := by
          rw [parts]
          simp [member]
        simpa using fun same : char = '\n' => oneLine (same ▸ inLine)
      rw [whole]
      refine ⟨_, ⟨fun char member => ?_, by omega, gap, parts, spaced⟩, rfl⟩
      simpa using List.mem_takeWhile_imp member

theorem not_isHeading_of_docxHeading {line : Text} (none : docxHeading line = none)
    (marks text : Text) : ¬IsHeading line marks text := by
  rintro ⟨marked, level, gap, rfl, spaced⟩
  have space := spaced.lstrip.2
  have hashes : (marks ++ (gap ++ text)).takeWhile (· == '#') = marks ∧
      (marks ++ (gap ++ text)).dropWhile (· == '#') = gap ++ text := by
    have passed : ∀ char ∈ marks, (char == '#') = true := by simpa using marked
    rw [List.takeWhile_append_of_pos passed, List.dropWhile_append_of_pos passed]
    cases gap with
    | nil => exact absurd rfl spaced.proper
    | cons first gap =>
        have other : (first == '#') = false := by
          rw [beq_eq_false_iff_ne]
          rintro rfl
          exact absurd (spaced.space '#' List.mem_cons_self) (by decide)
        simp [other]
  simp only [docxHeading, hashes, space, not_true_eq_false, or_false] at none
  split at none
  · omega
  · cases none

theorem isBullet_of_docxBullet {line text : Text} (found : docxBullet line = some text) :
    IsBullet line text := by
  cases line with
  | nil => cases found
  | cons mark rest =>
      simp only [docxBullet] at found
      split at found
      · next marked =>
          cases found
          rcases spaced_lstrip marked.2 with ⟨gap, split, spaced⟩
          exact ⟨mark, gap, congrArg (mark :: ·) split, marked.1, spaced⟩
      · cases found

theorem not_isBullet_of_docxBullet {line : Text} (none : docxBullet line = none) (text : Text) :
    ¬IsBullet line text := by
  rintro ⟨mark, gap, rfl, marked, spaced⟩
  simp only [docxBullet, marked, spaced.lstrip.2, and_self, if_true, reduceCtorEq] at none

theorem renders_docxParagraph {raw : Text} (oneLine : '\n' ∉ raw) :
    Renders raw (docxParagraph raw) := by
  have lineOneLine : '\n' ∉ Text.rstrip raw :=
    fun member => oneLine ((Text.prefix_rstrip raw).subset member)
  simp only [docxParagraph]
  split
  · next empty =>
      refine .plain ?_ ?_ rfl ?_
      all_goals rw [empty]
      · exact not_isHeading_of_docxHeading rfl
      · exact not_isBullet_of_docxBullet rfl
      · exact enclosure_addRuns .normal List.not_mem_nil
  · split
    · next level text found =>
        rcases isHeading_of_docxHeading lineOneLine found with ⟨marks, heading, rfl⟩
        refine .heading heading ?_ (chars_addParagraph _ _)
        have proper : min marks.length 4 ≠ 0 := by
          have level := heading.level
          omega
        simp only [addHeading, addParagraph, if_neg proper]
    · next noHeading =>
        split
        · next text found =>
            have bullet := isBullet_of_docxBullet found
            refine .bullet bullet rfl (enclosure_addRuns _ ?_)
            rcases bullet with ⟨mark, gap, split, _, _⟩
            rw [split] at lineOneLine
            exact fun member => lineOneLine (by simp [member])
        · next noBullet =>
            exact .plain (not_isHeading_of_docxHeading noHeading)
              (not_isBullet_of_docxBullet noBullet) rfl (enclosure_addRuns _ lineOneLine)

/-- The export loses no text: behind the title there is one paragraph for each line, with
its characters in their order, bold where they lie in a pair of `**`. -/
theorem markdownToDocx_renders (md : Option Text) (title : Text) :
    ∃ heading paragraphs, markdownToDocx md title = heading :: paragraphs ∧
      heading.style = .title ∧ heading.chars = title.map (·, false) ∧
      List.Forall₂ Renders (Text.splitlines (md.getD [])) paragraphs := by
  refine ⟨_, _, rfl, rfl, chars_addParagraph _ _, ?_⟩
  rw [List.forall₂_map_right_iff, List.forall₂_same]
  intro raw lineMem
  apply renders_docxParagraph
  intro newline
  exact absurd (Text.isLineBreak_of_mem_splitlines lineMem newline) (by decide)

end OrcaValidator
