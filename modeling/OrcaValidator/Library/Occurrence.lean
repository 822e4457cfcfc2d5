import OrcaValidator.Library.Regex

/-!
# Occurrences in a text made of parts

A phrase without a newline does not reach over a newline, and white space around a text
neither makes nor breaks an occurrence of a phrase that begins and ends visibly.  So a
search for such phrases in a text of parts, with empty lines between them, is a search in
the parts.
-/

namespace Library

namespace Regex

/-- A phrase stands in a text between neighbours that are admitted. -/
def Occurs (opens closes : Option Char → Prop) (phrase text : Text) : Prop :=
  ∃ left right, text = left ++ (phrase ++ right) ∧ opens left.getLast? ∧ closes right.head?

/-- A neighbour that an end of the text and all white space is. -/
structure AdmitsEdges (neighbour : Option Char → Prop) : Prop where
  edge : neighbour none
  space : ∀ char, Text.isSpace char = true → neighbour (some char)

/-- What is found in a text exactly if it is found on one side of a newline, whatever white
space there is around the text. -/
structure FoundInParts (finds : Text → Prop) : Prop where
  nil : ¬finds []
  newline : ∀ left right, finds (left ++ '\n' :: right) ↔ finds left ∨ finds right
  lead : ∀ char text, Text.isSpace char = true → (finds (char :: text) ↔ finds text)
  trail : ∀ char text, Text.isSpace char = true → (finds (text ++ [char]) ↔ finds text)

/-! ## Occurrences on one side of a character -/

section Sides

variable {opens closes : Option Char → Prop} {phrase left right : Text} {char : Char}

theorem getLast?_append_cons (nonempty : right ≠ []) :
    (left ++ char :: right).getLast? = right.getLast? := by
  rw [List.append_cons, List.getLast?_append_of_ne_nil _ nonempty]

theorem AdmitsEdges.getLast?_of_append_cons (admits : AdmitsEdges opens)
    (holds : opens (left ++ char :: right).getLast?) : opens right.getLast? := by
  by_cases empty : right = []
  · rw [empty]
    exact admits.edge
  · rwa [getLast?_append_cons empty] at holds

theorem AdmitsEdges.getLast?_append_cons (admits : AdmitsEdges opens)
    (space : Text.isSpace char = true) (holds : opens right.getLast?) :
    opens (left ++ char :: right).getLast? := by
  by_cases empty : right = []
  · rw [empty, List.getLast?_concat]
    exact admits.space char space
  · rwa [Regex.getLast?_append_cons empty]

theorem AdmitsEdges.head?_of_append_cons (admits : AdmitsEdges closes)
    (holds : closes (left ++ char :: right).head?) : closes left.head? := by
  cases left with
  | nil => exact admits.edge
  | cons first rest => exact holds

theorem AdmitsEdges.head?_append_cons (admits : AdmitsEdges closes)
    (space : Text.isSpace char = true) (holds : closes left.head?) :
    closes (left ++ char :: right).head? := by
  cases left with
  | nil => exact admits.space char space
  | cons first rest => exact holds

/-- A phrase occurs on one side of a white space character that none of its occurrences
covers. -/
theorem occurs_append_cons_iff (opening : AdmitsEdges opens) (closing : AdmitsEdges closes)
    (space : Text.isSpace char = true) (nonempty : phrase ≠ [])
    (clear : ∀ before after, phrase = before ++ char :: after →
      ¬(before <:+ left ∧ after <+: right)) :
    Occurs opens closes phrase (left ++ char :: right) ↔
      Occurs opens closes phrase left ∨ Occurs opens closes phrase right := by
  constructor
  · rintro ⟨lead, rest, split, before, after⟩
    rcases List.append_eq_append_iff.mp split with ⟨middle, rfl, covers⟩ | ⟨middle, rfl, covers⟩
    · rcases List.cons_eq_append_iff.mp covers with ⟨rfl, whole⟩ | ⟨others, rfl, rfl⟩
      · rcases List.append_eq_cons_iff.mp whole with ⟨empty, _⟩ | ⟨others, rfl, rfl⟩
        · exact absurd empty nonempty
        · exact absurd ⟨List.nil_suffix, List.prefix_append _ _⟩ (clear [] others rfl)
      · exact Or.inr ⟨others, rest, rfl, opening.getLast?_of_append_cons before, after⟩
    · rcases List.append_eq_append_iff.mp covers with ⟨more, rfl, rfl⟩ | ⟨more, rfl, behind⟩
      · exact Or.inl ⟨lead, more, rfl, before, closing.head?_of_append_cons after⟩
      · rcases List.cons_eq_append_iff.mp behind with ⟨rfl, _⟩ | ⟨others, rfl, rfl⟩
        · exact Or.inl ⟨lead, [], by simp, before, closing.edge⟩
        · exact absurd ⟨List.suffix_append _ _, List.prefix_append _ _⟩
            (clear middle others rfl)
  · rintro (⟨lead, rest, rfl, before, after⟩ | ⟨lead, rest, rfl, before, after⟩)
    · refine ⟨lead, rest ++ char :: right, by simp, before, ?_⟩
      exact closing.head?_append_cons space after
    · refine ⟨left ++ char :: lead, rest, by simp, ?_, after⟩
      exact opening.getLast?_append_cons space before

end Sides

/-! ## Phrases -/

/-- A phrase that begins and ends visibly, on one line. -/
structure Inline (phrase : Text) : Prop where
  nonempty : phrase ≠ []
  first : ∀ char, phrase.head? = some char → Text.isSpace char = false
  last : ∀ char, phrase.getLast? = some char → Text.isSpace char = false
  oneLine : '\n' ∉ phrase

theorem Inline.foundInParts {opens closes : Option Char → Prop} (opening : AdmitsEdges opens)
    (closing : AdmitsEdges closes) {phrase : Text} (inline : Inline phrase) :
    FoundInParts (Occurs opens closes phrase) := by
  have nil : ¬Occurs opens closes phrase [] := by
    rintro ⟨left, right, split, _, _⟩
    have empty := List.append_eq_nil_iff.mp (List.append_eq_nil_iff.mp split.symm).2
    exact inline.nonempty empty.1
  refine ⟨nil, fun left right => ?_, fun char text space => ?_, fun char text space => ?_⟩
  · refine occurs_append_cons_iff opening closing (by decide) inline.nonempty ?_
    rintro before after rfl
    exact absurd (by simp) inline.oneLine
  · have sides := @occurs_append_cons_iff opens closes phrase [] text char opening closing space
      inline.nonempty ?_
    · rw [List.nil_append] at sides
      exact sides.trans (or_iff_right nil)
    · rintro before after rfl ⟨ends, _⟩
      rw [List.suffix_nil.mp ends] at inline
      exact absurd space (by simp [inline.first char rfl])
  · have sides := @occurs_append_cons_iff opens closes phrase text [] char opening closing space
      inline.nonempty ?_
    · exact sides.trans (or_iff_left nil)
    · rintro before after rfl ⟨_, starts⟩
      rw [List.prefix_nil.mp starts] at inline
      exact absurd space (by simp [inline.last char (by simp)])

/-! ## Texts made of parts -/

theorem intercalate_emptyLine (text next : Text) (others : List Text) :
    List.intercalate "\n\n".toList (text :: next :: others) =
      text ++ '\n' :: '\n' :: List.intercalate "\n\n".toList (next :: others) := by
  rw [List.intercalate_cons_cons, List.append_assoc]
  rfl

namespace FoundInParts

variable {finds : Text → Prop}

theorem exists_mem {phrases : List Text} {finds : Text → Text → Prop}
    (each : ∀ phrase ∈ phrases, FoundInParts (finds phrase)) :
    FoundInParts fun text => ∃ phrase ∈ phrases, finds phrase text := by
  refine ⟨?_, fun left right => ?_, fun char text space => ?_, fun char text space => ?_⟩
  · rintro ⟨phrase, member, found⟩
    exact (each phrase member).nil found
  · constructor
    · rintro ⟨phrase, member, found⟩
      rcases ((each phrase member).newline left right).mp found with before | after
      · exact Or.inl ⟨phrase, member, before⟩
      · exact Or.inr ⟨phrase, member, after⟩
    · rintro (⟨phrase, member, found⟩ | ⟨phrase, member, found⟩)
      · exact ⟨phrase, member, ((each phrase member).newline left right).mpr (Or.inl found)⟩
      · exact ⟨phrase, member, ((each phrase member).newline left right).mpr (Or.inr found)⟩
  · exact exists_congr fun phrase => and_congr_right fun member =>
      (each phrase member).lead char text space
  · exact exists_congr fun phrase => and_congr_right fun member =>
      (each phrase member).trail char text space

theorem or {others : Text → Prop} (parts : FoundInParts finds) (more : FoundInParts others) :
    FoundInParts fun text => finds text ∨ others text := by
  refine ⟨?_, fun left right => ?_, fun char text space => ?_, fun char text space => ?_⟩
  · exact fun found => found.elim parts.nil more.nil
  · rw [parts.newline, more.newline, or_or_or_comm]
  · rw [parts.lead char text space, more.lead char text space]
  · rw [parts.trail char text space, more.trail char text space]

theorem of_iff {found : Text → Prop} (parts : FoundInParts finds)
    (same : ∀ text, found text ↔ finds text) : FoundInParts found := by
  have equal : found = finds := funext fun text => propext (same text)
  rwa [equal]

theorem lead_append (parts : FoundInParts finds) {lead : Text} (text : Text)
    (blank : ∀ char ∈ lead, Text.isSpace char = true) : finds (lead ++ text) ↔ finds text := by
  induction lead with
  | nil => exact Iff.rfl
  | cons char rest ih =>
      rw [List.forall_mem_cons] at blank
      rw [List.cons_append, parts.lead char _ blank.1, ih blank.2]

theorem append_trail (parts : FoundInParts finds) {trail : Text} (text : Text)
    (blank : ∀ char ∈ trail, Text.isSpace char = true) : finds (text ++ trail) ↔ finds text := by
  induction trail using List.reverseRecOn with
  | nil => rw [List.append_nil]
  | append_singleton rest char ih =>
      rw [List.forall_mem_append, List.forall_mem_singleton] at blank
      rw [← List.append_assoc, parts.trail char _ blank.2, ih blank.1]

/-- In parts with empty lines between them, what is found is found in one of the parts. -/
theorem intercalate (parts : FoundInParts finds) (texts : List Text) :
    finds (List.intercalate "\n\n".toList texts) ↔ ∃ text ∈ texts, finds text := by
  induction texts with
  | nil => simpa using parts.nil
  | cons text rest ih =>
      cases rest with
      | nil => simp
      | cons next others =>
          rw [intercalate_emptyLine, parts.newline, parts.lead '\n' _ (by decide), ih]
          exact (List.exists_mem_cons_iff ..).symm

end FoundInParts

end Regex

end Library
