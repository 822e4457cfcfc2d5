import OrcaValidator.Library.Regex

/-!
# Reflowing

The words of a text stay as they are and every run of white space may become another one,
as when the lines of a text are wrapped elsewhere.  Which characters count as white space
is a parameter: a part of what `str.isspace` says that has at least the blank and the
newline.
-/

namespace Library

/-- A class of white space. -/
structure Blanks where
  isBlank : Char → Bool
  space : isBlank ' ' = true
  newline : isBlank '\n' = true
  isSpace_of_isBlank : ∀ char, isBlank char = true → Text.isSpace char = true

namespace Blanks

variable {blanks : Blanks}

/-- A non-empty run of white space. -/
def Run (blanks : Blanks) (run : Text) : Prop :=
  run ≠ [] ∧ ∀ char ∈ run, blanks.isBlank char = true

/-- The second text is the first one with some runs of white space replaced by others. -/
inductive Reflow (blanks : Blanks) : Text → Text → Prop
  | refl (text : Text) : Reflow blanks text text
  | run (left : Text) {before after right right' : Text} (old : blanks.Run before)
      (new : blanks.Run after) (rest : Reflow blanks right right') :
      Reflow blanks (left ++ (before ++ right)) (left ++ (after ++ right'))

/-- Whether a blank stands there. -/
def blankAt (blanks : Blanks) (char : Option Char) : Bool := char.any blanks.isBlank

/-- The text with one character in the place of each run of white space. -/
def fill (blanks : Blanks) (filler : Char) : Text → Text
  | [] => []
  | char :: rest =>
      if blanks.isBlank char = true then
        if blanks.blankAt rest.head? = true then fill blanks filler rest
        else filler :: fill blanks filler rest
      else char :: fill blanks filler rest

theorem Run.singleton {char : Char} (blank : blanks.isBlank char = true) : blanks.Run [char] :=
  ⟨by simp, by simpa using blank⟩

theorem Run.cons {char : Char} {run : Text} (blank : blanks.isBlank char = true)
    (spaces : blanks.Run run) : blanks.Run (char :: run) :=
  ⟨by simp, List.forall_mem_cons.mpr ⟨blank, spaces.2⟩⟩

theorem Run.blankAt_getLast? {run : Text} (spaces : blanks.Run run) :
    blanks.blankAt run.getLast? = true := by
  rw [List.getLast?_eq_some_getLast spaces.1]
  exact spaces.2 _ (List.getLast_mem spaces.1)

theorem Run.blankAt_head? {run : Text} (spaces : blanks.Run run) (right : Text) :
    blanks.blankAt (run ++ right).head? = true := by
  cases run with
  | nil => exact absurd rfl spaces.1
  | cons char run => exact spaces.2 char List.mem_cons_self

theorem fill_cons_of_blank (filler : Char) {char : Char} {rest : Text}
    (blank : blanks.isBlank char = true) :
    blanks.fill filler (char :: rest) =
      if blanks.blankAt rest.head? = true then blanks.fill filler rest
      else filler :: blanks.fill filler rest := if_pos blank

theorem fill_cons_of_not_blank (filler : Char) {char : Char} {rest : Text}
    (visible : ¬blanks.isBlank char = true) :
    blanks.fill filler (char :: rest) = char :: blanks.fill filler rest := if_neg visible

theorem fill_run (filler : Char) {run : Text} (spaces : blanks.Run run) (right : Text) :
    blanks.fill filler (run ++ right) =
      if blanks.blankAt right.head? = true then blanks.fill filler right
      else filler :: blanks.fill filler right := by
  rcases spaces with ⟨nonempty, spaces⟩
  induction run with
  | nil => exact absurd rfl nonempty
  | cons char run ih =>
      rw [List.forall_mem_cons] at spaces
      rw [List.cons_append, fill_cons_of_blank filler spaces.1]
      cases run with
      | nil => rfl
      | cons next run =>
          have more : blanks.blankAt (next :: run ++ right).head? = true := spaces.2 next (by simp)
          rw [if_pos more, ih (by simp) spaces.2]

/-- Beside a character that is no white space, a text can be filled in two parts. -/
theorem fill_append (filler : Char) {left right : Text}
    (apart : blanks.blankAt left.getLast? = false ∨ blanks.blankAt right.head? = false) :
    blanks.fill filler (left ++ right) = blanks.fill filler left ++ blanks.fill filler right := by
  induction left with
  | nil => rfl
  | cons char rest ih =>
      rw [List.cons_append]
      cases rest with
      | nil =>
          by_cases blank : blanks.isBlank char = true
          · have next : blanks.blankAt right.head? = false := by
              refine apart.resolve_left ?_
              rw [List.getLast?_singleton, show blanks.blankAt (some char) = true from blank]
              decide
            rw [fill_cons_of_blank filler blank, List.nil_append, next, if_neg (by decide),
              fill_cons_of_blank filler blank]
            rfl
          · rw [fill_cons_of_not_blank filler blank, fill_cons_of_not_blank filler blank]
            rfl
      | cons next rest =>
          rw [List.getLast?_cons_cons] at apart
          by_cases blank : blanks.isBlank char = true
          · rw [fill_cons_of_blank filler blank, fill_cons_of_blank filler blank, ih apart]
            by_cases more : blanks.blankAt (next :: rest).head? = true
            · rw [if_pos more]
              exact if_pos more
            · rw [if_neg more]
              exact if_neg more
          · rw [fill_cons_of_not_blank filler blank, fill_cons_of_not_blank filler blank, ih apart]
            rfl

/-- What follows counts only by whether it goes on with white space and by how it fills. -/
theorem fill_append_congr (filler : Char) (left : Text) {right right' : Text}
    (head : blanks.blankAt right.head? = blanks.blankAt right'.head?)
    (same : blanks.fill filler right = blanks.fill filler right') :
    blanks.fill filler (left ++ right) = blanks.fill filler (left ++ right') := by
  induction left with
  | nil => exact same
  | cons char rest ih =>
      rw [List.cons_append, List.cons_append]
      by_cases blank : blanks.isBlank char = true
      · have next : blanks.blankAt (rest ++ right).head? =
            blanks.blankAt (rest ++ right').head? := by
          cases rest with
          | nil => exact head
          | cons next rest => rfl
        rw [fill_cons_of_blank filler blank, fill_cons_of_blank filler blank, next, ih]
      · rw [fill_cons_of_not_blank filler blank, fill_cons_of_not_blank filler blank, ih]

theorem fill_of_visible (filler : Char) {text : Text}
    (visible : ∀ char ∈ text, ¬blanks.isBlank char = true) : blanks.fill filler text = text := by
  induction text with
  | nil => rfl
  | cons char rest ih =>
      rw [List.forall_mem_cons] at visible
      rw [fill_cons_of_not_blank filler visible.1, ih visible.2]

/-- The first run of white space, if there is one. -/
theorem exists_run (blanks : Blanks) (text : Text) :
    (∀ char ∈ text, ¬blanks.isBlank char = true) ∨
      ∃ left run right, text = left ++ (run ++ right) ∧
        (∀ char ∈ left, ¬blanks.isBlank char = true) ∧ blanks.Run run ∧
        blanks.blankAt right.head? = false := by
  induction text with
  | nil => exact .inl (by simp)
  | cons char rest ih =>
      by_cases blank : blanks.isBlank char = true
      · by_cases next : blanks.blankAt rest.head? = true
        · rcases ih with visible | ⟨left, run, right, rfl, visible, spaces, ends⟩
          · cases rest with
            | nil => cases next
            | cons first rest => exact absurd next (visible first List.mem_cons_self)
          · cases left with
            | nil => exact .inr ⟨[], char :: run, right, rfl, by simp, spaces.cons blank, ends⟩
            | cons first left => exact absurd next (visible first List.mem_cons_self)
        · exact .inr ⟨[], [char], rest, rfl, by simp, Run.singleton blank,
            Bool.not_eq_true _ ▸ next⟩
      · rcases ih with visible | ⟨left, run, right, rfl, visible, spaces, ends⟩
        · exact .inl (List.forall_mem_cons.mpr ⟨blank, visible⟩)
        · exact .inr ⟨char :: left, run, right, rfl,
            List.forall_mem_cons.mpr ⟨blank, visible⟩, spaces, ends⟩

theorem blankAt_of_forall {text : Text} {char : Option Char}
    (visible : ∀ char ∈ text, ¬blanks.isBlank char = true) (member : ∀ c ∈ char, c ∈ text) :
    blanks.blankAt char = false := by
  cases char with
  | none => rfl
  | some char => exact Bool.not_eq_true _ ▸ visible char (member char rfl)

theorem fill_split (filler : Char) {left run right : Text}
    (visible : ∀ char ∈ left, ¬blanks.isBlank char = true) (spaces : blanks.Run run)
    (next : blanks.blankAt right.head? = false) :
    blanks.fill filler (left ++ (run ++ right)) =
      left ++ filler :: blanks.fill filler right := by
  have last := blankAt_of_forall visible fun _ => List.mem_of_mem_getLast?
  rw [fill_append filler (.inl last), fill_of_visible filler visible, fill_run filler spaces,
    next, if_neg (by decide)]

theorem eq_of_mem_fill {filler char : Char} {text : Text} (blank : blanks.isBlank char = true)
    (member : char ∈ blanks.fill filler text) : char = filler := by
  induction text with
  | nil => cases member
  | cons first rest ih =>
      unfold fill at member
      split at member
      · split at member
        · exact ih member
        · exact (List.mem_cons.mp member).elim id ih
      · rename_i visible
        rcases List.mem_cons.mp member with rfl | later
        · exact absurd blank visible
        · exact ih later

namespace Reflow

theorem symm {text text' : Text} (reflow : blanks.Reflow text text') :
    blanks.Reflow text' text := by
  induction reflow with
  | refl text => exact .refl text
  | run left old new _ ih => exact .run left new old ih

theorem keep {text text' : Text} (char : Char) (reflow : blanks.Reflow text text') :
    blanks.Reflow (char :: text) (char :: text') := by
  cases reflow with
  | refl text => exact .refl _
  | run left old new rest => exact .run (char :: left) old new rest

/-- One more blank in front of a run. -/
theorem widen {text text' : Text} {char : Char} (blank : blanks.isBlank char = true)
    (next : blanks.blankAt text.head? = true) (reflow : blanks.Reflow text text') :
    blanks.Reflow (char :: text) text' := by
  cases reflow with
  | refl text =>
      cases text with
      | nil => cases next
      | cons first rest =>
          exact .run [] (Run.cons blank (Run.singleton next)) (Run.singleton next) (.refl rest)
  | run left old new rest =>
      cases left with
      | nil => exact .run [] (Run.cons blank old) new rest
      | cons first left =>
          exact .run [] (Run.cons blank (Run.singleton next)) (Run.singleton next)
            (.run left old new rest)

theorem eq_nil {text : Text} (reflow : blanks.Reflow [] text) : text = [] := by
  generalize start : ([] : Text) = empty at reflow
  cases reflow with
  | refl text => rfl
  | run left old new rest =>
      have none := List.append_eq_nil_iff.mp start.symm
      exact absurd (List.append_eq_nil_iff.mp none.2).1 old.1

theorem blankAt_head? {text text' : Text} (reflow : blanks.Reflow text text') :
    blanks.blankAt text.head? = blanks.blankAt text'.head? := by
  cases reflow with
  | refl text => rfl
  | run left old new rest =>
      cases left with
      | nil =>
          rw [List.nil_append, List.nil_append, old.blankAt_head?, new.blankAt_head?]
      | cons first left => rfl

/-- Filling in one and the same character undoes a reflow. -/
theorem fill_eq {text text' : Text} (reflow : blanks.Reflow text text') (filler : Char) :
    blanks.fill filler text = blanks.fill filler text' := by
  induction reflow with
  | refl text => rfl
  | @run left before after right right' old new rest ih =>
      have head : blanks.blankAt (before ++ right).head? = blanks.blankAt (after ++ right').head? :=
        (old.blankAt_head? right).trans (new.blankAt_head? right').symm
      refine fill_append_congr filler left head ?_
      rw [fill_run filler old, fill_run filler new, rest.blankAt_head?, ih]

/-- A character that is no white space stays where it is. -/
theorem split_cons {left right text : Text} {char : Char}
    (visible : ¬blanks.isBlank char = true) (reflow : blanks.Reflow (left ++ char :: right) text) :
    ∃ left' right', text = left' ++ char :: right' ∧ blanks.Reflow left left' ∧
      blanks.Reflow right right' := by
  generalize whole : left ++ char :: right = start at reflow
  induction reflow generalizing left with
  | refl text => exact ⟨left, right, whole.symm, .refl left, .refl right⟩
  | @run early before after late late' old new rest ih =>
      have foreign : char ∉ before := fun member => visible (old.2 char member)
      rcases List.append_eq_append_iff.mp whole with ⟨gap, rfl, tail⟩ | ⟨gap, rfl, tail⟩
      · cases gap with
        | nil =>
            cases before with
            | nil => exact absurd rfl old.1
            | cons first before =>
                obtain ⟨rfl, _⟩ := List.cons.inj tail
                exact absurd List.mem_cons_self foreign
        | cons first gap =>
            obtain ⟨rfl, rfl⟩ := List.cons.inj tail
            exact ⟨left, gap ++ (after ++ late'), List.append_assoc _ _ _, .refl left,
              .run gap old new rest⟩
      · have later : ∃ passed, gap = before ++ passed ∧ passed ++ char :: right = late := by
          rcases List.append_eq_append_iff.mp tail with
            ⟨passed, rfl, split⟩ | ⟨inner, rfl, split⟩
          · exact ⟨passed, rfl, split.symm⟩
          · cases inner with
            | nil => exact ⟨[], by simp, split⟩
            | cons first inner =>
                obtain ⟨rfl, _⟩ := List.cons.inj split
                exact absurd (by simp) foreign
        rcases later with ⟨passed, rfl, split⟩
        rcases ih split with ⟨left', right', rfl, lefts, rights⟩
        refine ⟨early ++ (after ++ left'), right', by simp, .run early old new lefts, rights⟩

end Reflow

/-- The filled text is a reflow of the text. -/
theorem reflow_fill {filler : Char} (blank : blanks.isBlank filler = true) (text : Text) :
    blanks.Reflow text (blanks.fill filler text) := by
  induction text with
  | nil => exact .refl []
  | cons char rest ih =>
      unfold fill
      by_cases here : blanks.isBlank char = true
      · rw [if_pos here]
        by_cases next : blanks.blankAt rest.head? = true
        · rw [if_pos next]
          exact ih.widen here next
        · rw [if_neg next]
          exact .run [] (Run.singleton here) (Run.singleton blank) ih
      · rw [if_neg here]
        exact ih.keep char

/-- A phrase without white space. -/
def Solid (blanks : Blanks) (phrase : Text) : Prop :=
  phrase ≠ [] ∧ ∀ char ∈ phrase, ¬blanks.isBlank char = true

namespace Reflow

theorem split_solid {phrase right text : Text}
    (visible : ∀ char ∈ phrase, ¬blanks.isBlank char = true)
    (reflow : blanks.Reflow (phrase ++ right) text) :
    ∃ right', text = phrase ++ right' ∧ blanks.Reflow right right' := by
  induction phrase generalizing text with
  | nil => exact ⟨text, rfl, reflow⟩
  | cons char phrase ih =>
      rw [List.forall_mem_cons] at visible
      have whole : blanks.Reflow ([] ++ char :: (phrase ++ right)) text := reflow
      rcases whole.split_cons visible.1 with ⟨left', rest', rfl, before, rest⟩
      rcases ih visible.2 rest with ⟨right', rfl, after⟩
      rw [before.eq_nil]
      exact ⟨right', rfl, after⟩

/-- A phrase without white space stays in one piece. -/
theorem split_phrase {left phrase right text : Text} (solid : blanks.Solid phrase)
    (reflow : blanks.Reflow (left ++ (phrase ++ right)) text) :
    ∃ left' right', text = left' ++ (phrase ++ right') ∧ blanks.Reflow left left' ∧
      blanks.Reflow right right' := by
  rcases solid with ⟨nonempty, visible⟩
  cases phrase with
  | nil => exact absurd rfl nonempty
  | cons char phrase =>
      rw [List.forall_mem_cons] at visible
      rcases reflow.split_cons visible.1 with ⟨left', rest', rfl, before, rest⟩
      rcases rest.split_solid visible.2 with ⟨right', rfl, after⟩
      exact ⟨left', right', rfl, before, after⟩

theorem infix_solid {phrase text text' : Text} (solid : blanks.Solid phrase)
    (reflow : blanks.Reflow text text') (occurs : phrase <:+: text) : phrase <:+: text' := by
  rcases occurs with ⟨left, right, rfl⟩
  rw [List.append_assoc] at reflow
  rcases reflow.split_phrase solid with ⟨left', right', rfl, _, _⟩
  exact ⟨left', right', List.append_assoc _ _ _⟩

end Reflow

/-- A phrase whose words have one blank between them. -/
structure Spaced (blanks : Blanks) (phrase : Text) : Prop where
  filled : blanks.fill ' ' phrase = phrase
  first : blanks.blankAt phrase.head? = false
  last : blanks.blankAt phrase.getLast? = false
  proper : phrase ≠ []

theorem not_isBlank_of_not_isSpace {char : Char} (visible : Text.isSpace char = false) :
    ¬blanks.isBlank char = true := by
  intro blank
  rw [blanks.isSpace_of_isBlank char blank] at visible
  cases visible

theorem solid_of_visible {phrase : Text}
    (visible : phrase ≠ [] ∧ phrase.all (fun char => !Text.isSpace char) = true) :
    blanks.Solid phrase := by
  refine ⟨visible.1, fun char member => not_isBlank_of_not_isSpace ?_⟩
  simpa using List.all_eq_true.mp visible.2 char member

theorem fill_of_single {text : Text} (spaces : ∀ char ∈ text, Text.isSpace char = true → char = ' ')
    (single : ¬[' ', ' '] <:+: text) : blanks.fill ' ' text = text := by
  induction text with
  | nil => rfl
  | cons char rest ih =>
      rw [List.forall_mem_cons] at spaces
      rw [List.infix_cons_iff, not_or] at single
      have later := ih spaces.2 single.2
      by_cases blank : blanks.isBlank char = true
      · obtain rfl := spaces.1 (blanks.isSpace_of_isBlank char blank)
        have next : ¬blanks.blankAt rest.head? = true := by
          intro more
          cases rest with
          | nil => cases more
          | cons second rest =>
              obtain rfl := spaces.2 second List.mem_cons_self
                (blanks.isSpace_of_isBlank second more)
              exact single.1 ⟨rest, rfl⟩
        rw [fill_cons_of_blank ' ' blank, if_neg next, later]
      · rw [fill_cons_of_not_blank ' ' blank, later]

/-- Words with one blank between them and no other white space, whatever counts as white
space. -/
structure SingleSpaced (phrase : Text) : Prop where
  spaces : phrase.all (fun char => !Text.isSpace char || char == ' ') = true
  single : ¬[' ', ' '] <:+: phrase
  first : phrase.head?.any (fun char => !Text.isSpace char) = true
  last : phrase.getLast?.any (fun char => !Text.isSpace char) = true

instance (phrase : Text) : Decidable (SingleSpaced phrase) :=
  decidable_of_iff (phrase.all (fun char => !Text.isSpace char || char == ' ') = true ∧
    ¬[' ', ' '] <:+: phrase ∧ phrase.head?.any (fun char => !Text.isSpace char) = true ∧
    phrase.getLast?.any (fun char => !Text.isSpace char) = true)
    ⟨fun all => ⟨all.1, all.2.1, all.2.2.1, all.2.2.2⟩,
      fun single => ⟨single.spaces, single.single, single.first, single.last⟩⟩

theorem blankAt_of_visible {char : Option Char}
    (visible : char.any (fun char => !Text.isSpace char) = true) : blanks.blankAt char = false := by
  cases char with
  | none => rfl
  | some char =>
      simp only [Option.any_some, Bool.not_eq_true'] at visible
      exact Bool.not_eq_true _ ▸ not_isBlank_of_not_isSpace visible

theorem SingleSpaced.spaced {phrase : Text} (single : SingleSpaced phrase) :
    blanks.Spaced phrase := by
  have spaces : ∀ char ∈ phrase, Text.isSpace char = true → char = ' ' := by
    intro char member space
    have checked := List.all_eq_true.mp single.spaces char member
    simpa [space] using checked
  refine ⟨fill_of_single spaces single.single, blankAt_of_visible single.first,
    blankAt_of_visible single.last, ?_⟩
  rintro rfl
  cases single.first

theorem Spaced.fill_eq {phrase : Text} (spaced : blanks.Spaced phrase) (left right : Text) :
    blanks.fill ' ' (left ++ (phrase ++ right)) =
      blanks.fill ' ' left ++ (phrase ++ blanks.fill ' ' right) := by
  have head : blanks.blankAt (phrase ++ right).head? = false := by
    cases phrase with
    | nil => exact absurd rfl spaced.proper
    | cons char phrase => exact spaced.first
  rw [fill_append ' ' (.inr head), fill_append ' ' (.inl spaced.last), spaced.filled]

theorem Spaced.infix_fill {phrase text : Text} (spaced : blanks.Spaced phrase)
    (occurs : phrase <:+: text) : phrase <:+: blanks.fill ' ' text := by
  rcases occurs with ⟨left, right, rfl⟩
  rw [List.append_assoc, spaced.fill_eq]
  exact ⟨_, _, List.append_assoc _ _ _⟩

section

variable [Interpreter]

theorem isWordAt_of_blankAt {char : Option Char} (blank : blanks.blankAt char = true) :
    Regex.isWordAt char = false := by
  cases char with
  | none => cases blank
  | some char =>
      exact Interpreter.isWord_of_isSpace char (blanks.isSpace_of_isBlank char blank)

namespace Reflow

theorem isWordAt_head? {text text' : Text} (reflow : blanks.Reflow text text') :
    Regex.isWordAt text.head? = Regex.isWordAt text'.head? := by
  cases reflow with
  | refl text => rfl
  | run left old new rest =>
      cases left with
      | nil =>
          rw [List.nil_append, List.nil_append, isWordAt_of_blankAt (old.blankAt_head? _),
            isWordAt_of_blankAt (new.blankAt_head? _)]
      | cons first left => rfl

theorem isWordAt_getLast? {text text' : Text} (reflow : blanks.Reflow text text') :
    Regex.isWordAt text.getLast? = Regex.isWordAt text'.getLast? := by
  induction reflow with
  | refl text => rfl
  | @run left before after right right' old new rest ih =>
      have endsBlank : ∀ run : Text, blanks.Run run →
          Regex.isWordAt (run.getLast?.or left.getLast?) = false := by
        intro run spaces
        have last := spaces.blankAt_getLast?
        cases found : run.getLast? with
        | none =>
            rw [found] at last
            cases last
        | some char =>
            rw [found] at last
            exact isWordAt_of_blankAt last
      simp only [List.getLast?_append, Option.or_assoc]
      by_cases empty : right = []
      · subst empty
        rw [rest.eq_nil]
        exact (endsBlank before old).trans (endsBlank after new).symm
      · have empty' : right' ≠ [] := by
          rintro rfl
          exact empty rest.symm.eq_nil
        rw [List.getLast?_eq_some_getLast empty, List.getLast?_eq_some_getLast empty'] at ih ⊢
        exact ih

theorem stands {phrase text text' : Text} (solid : blanks.Solid phrase)
    (reflow : blanks.Reflow text text') (occurs : Regex.Stands phrase text) :
    Regex.Stands phrase text' := by
  rcases occurs with ⟨left, right, rfl, before, after⟩
  rcases reflow.split_phrase solid with ⟨left', right', rfl, lefts, rights⟩
  refine ⟨left', right', rfl, ?_, ?_⟩
  · rw [← lefts.isWordAt_getLast?, before]
  · rw [← rights.isWordAt_head?, after]

theorem starts {stem text text' : Text} (solid : blanks.Solid stem)
    (reflow : blanks.Reflow text text') (occurs : Regex.Starts stem text) :
    Regex.Starts stem text' := by
  rcases occurs with ⟨left, right, rfl, before⟩
  rcases reflow.split_phrase solid with ⟨left', right', rfl, lefts, _⟩
  refine ⟨left', right', rfl, ?_⟩
  rw [← lefts.isWordAt_getLast?, before]

end Reflow

theorem Spaced.stands_fill {phrase text : Text} (spaced : blanks.Spaced phrase)
    (occurs : Regex.Stands phrase text) : Regex.Stands phrase (blanks.fill ' ' text) := by
  rcases occurs with ⟨left, right, rfl, before, after⟩
  refine ⟨blanks.fill ' ' left, blanks.fill ' ' right, spaced.fill_eq left right, ?_, ?_⟩
  · rw [← (reflow_fill blanks.space left).isWordAt_getLast?, before]
  · rw [← (reflow_fill blanks.space right).isWordAt_head?, after]

/-! ## Lower case -/

theorem lower_run (lowers : Interpreter.LowersWords) (left : Text) {run : Text}
    (spaces : blanks.Run run) (right : Text) :
    Interpreter.lower (left ++ (run ++ right)) =
      Interpreter.lower left ++ (run ++ Interpreter.lower right) := by
  rcases spaces with ⟨nonempty, spaces⟩
  induction run generalizing left with
  | nil => exact absurd rfl nonempty
  | cons char run ih =>
      rw [List.forall_mem_cons] at spaces
      have space := blanks.isSpace_of_isBlank char spaces.1
      rw [List.cons_append, lowers.lower_append_cons left char _ space]
      cases run with
      | nil => rfl
      | cons next run =>
          have rest := ih [] (List.cons_ne_nil next run) spaces.2
          rw [List.nil_append, Interpreter.lower_nil, List.nil_append] at rest
          rw [rest]
          rfl

theorem Reflow.lower (lowers : Interpreter.LowersWords) {text text' : Text}
    (reflow : blanks.Reflow text text') :
    blanks.Reflow (Interpreter.lower text) (Interpreter.lower text') := by
  induction reflow with
  | refl text => exact .refl _
  | run left old new _ ih =>
      rw [lower_run lowers left old, lower_run lowers left new]
      exact .run _ old new ih

theorem not_isBlank_lower (lowers : Interpreter.LowersWords) {text : Text}
    (visible : ∀ char ∈ text, ¬blanks.isBlank char = true) :
    ∀ char ∈ Interpreter.lower text, ¬blanks.isBlank char = true := by
  intro char member blank
  exact visible char
    (lowers.mem_of_mem_lower text char (blanks.isSpace_of_isBlank char blank) member) blank

theorem blankAt_head?_lower (lowers : Interpreter.LowersWords) {text : Text}
    (visible : blanks.blankAt text.head? = false) :
    blanks.blankAt (Interpreter.lower text).head? = false := by
  rcases blanks.exists_run text with inside | ⟨left, run, right, rfl, inside, spaces, _⟩
  · exact blankAt_of_forall (not_isBlank_lower lowers inside) fun _ => List.mem_of_mem_head?
  · cases left with
    | nil =>
        rw [List.nil_append, spaces.blankAt_head?] at visible
        cases visible
    | cons first left =>
        have proper := lowers.lower_ne_nil (first :: left) (List.cons_ne_nil first left)
        rw [lower_run lowers _ spaces, List.head?_append_of_ne_nil _ proper]
        exact blankAt_of_forall (not_isBlank_lower lowers inside) fun _ => List.mem_of_mem_head?

/-- Lower case and filling commute. -/
theorem lower_fill (lowers : Interpreter.LowersWords) {filler : Char}
    (blank : blanks.isBlank filler = true) (text : Text) :
    Interpreter.lower (blanks.fill filler text) = blanks.fill filler (Interpreter.lower text) := by
  induction count : text.length using Nat.strong_induction_on generalizing text with
  | _ size ih =>
      rcases blanks.exists_run text with visible | ⟨left, run, right, rfl, visible, spaces, next⟩
      · rw [fill_of_visible filler visible,
          fill_of_visible filler (not_isBlank_lower lowers visible)]
      · have shorter : right.length < size := by
          have proper := List.length_pos_of_ne_nil spaces.1
          simp only [List.length_append] at count
          omega
        have rest := ih right.length shorter right rfl
        have space := blanks.isSpace_of_isBlank filler blank
        rw [fill_split filler visible spaces next, lowers.lower_append_cons left filler _ space,
          rest, lower_run lowers left spaces, fill_split filler (not_isBlank_lower lowers visible)
            spaces (blankAt_head?_lower lowers next)]

end

end Blanks

end Library
