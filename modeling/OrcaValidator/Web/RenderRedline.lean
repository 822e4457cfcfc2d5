import OrcaValidator.Export.Download

/-!
# The redline on the page

`renderRedline` of `web/app/page.tsx`: the text is split at its spans, a span becomes a
`<del>` or an `<ins>` element with what is between its markers, and stray markers are
removed from the pieces between the spans.

A redline reads as a leading text and spans that are each followed by a text, and the page
shows it the way it reads.
-/

namespace OrcaValidator

open Library

/-! ## The page -/

theorem delOpen_ne_nil : "\x7b--".toList ≠ [] := by decide

theorem insOpen_ne_nil : "\x7b++".toList ≠ [] := by decide

/-- The expression at which the text is split. -/
def spanMarkup : Pattern :=
  (Pattern.between "\x7b--".toList "--\x7d".toList
      (fun inner => "\x7b--".toList ++ inner ++ "--\x7d".toList) delOpen_ne_nil).orElse
    (Pattern.between "\x7b++".toList "++\x7d".toList
      (fun inner => "\x7b++".toList ++ inner ++ "++\x7d".toList) insOpen_ne_nil)

/-- The elements that a redline is rendered to. -/
inductive Element where
  | del (text : Text)
  | ins (text : Text)
  | span (text : Text)

/-- What is between the markers of a piece that consists of them and a text. -/
def unwrap (opening closing piece : Text) : Option Text :=
  let behind := piece.drop opening.length
  if opening.isPrefixOf piece ∧ closing.isSuffixOf behind then
    some (behind.take (behind.length - closing.length))
  else none

/-- What one piece of the split text is rendered to. -/
def renderPiece (piece : Text) : Element :=
  match unwrap "\x7b--".toList "--\x7d".toList piece with
  | some removed => .del removed
  | none =>
      match unwrap "\x7b++".toList "++\x7d".toList piece with
      | some added => .ins added
      | none => .span (stray.sub piece)

/-- `renderRedline`. -/
def renderRedline (text : Text) : List Element := (spanMarkup.split text).map renderPiece

/-- The text of an element that is not struck out. -/
def Element.accepted : Element → Text
  | .del _ => []
  | .ins text | .span text => text

/-- What the page shows as accepted. -/
def pageText (text : Text) : Text := (renderRedline text).flatMap Element.accepted

/-! ## How a redline reads -/

/-- A span of a redline, with what is between its markers. -/
inductive Span where
  | deleted (text : Text)
  | inserted (text : Text)

/-- A span with its markers. -/
def Span.source : Span → Text
  | .deleted text => "\x7b--".toList ++ text ++ "--\x7d".toList
  | .inserted text => "\x7b++".toList ++ text ++ "++\x7d".toList

/-- A text begins with a span. -/
def SpanStarts (text : Text) : Prop := ∃ span : Span, span.source <+: text

/-- A redline reads as a leading text and spans that are each followed by a text.  A
marker opens a span when one that closes it follows, and the first of those does. -/
inductive Reads : Text → Text → List (Span × Text) → Prop where
  | nil : Reads [] [] []
  | char {char : Char} {rest lead : Text} {spans : List (Span × Text)}
      (outside : ¬SpanStarts (char :: rest)) (reads : Reads rest lead spans) :
      Reads (char :: rest) (char :: lead) spans
  | deleted {rest inner after lead : Text} {spans : List (Span × Text)}
      (closes : Text.breakOn "--\x7d".toList rest = some (inner, after))
      (reads : Reads after lead spans) :
      Reads ("\x7b--".toList ++ rest) [] ((.deleted inner, lead) :: spans)
  | inserted {rest inner after lead : Text} {spans : List (Span × Text)}
      (closes : Text.breakOn "++\x7d".toList rest = some (inner, after))
      (reads : Reads after lead spans) :
      Reads ("\x7b++".toList ++ rest) [] ((.inserted inner, lead) :: spans)

/-! ## What the page shows of a reading -/

section Page

variable {text rest lead inner after opening closing piece : Text} {span : Span}
  {spans : List (Span × Text)}

theorem closes_of_infix (within : closing <:+: text) :
    ∃ inner after, Text.breakOn closing text = some (inner, after) := by
  cases found : Text.breakOn closing text with
  | none => exact absurd within (Text.breakOn_eq_none_iff.mp found)
  | some parts => exact ⟨parts.1, parts.2, rfl⟩

/-- Where a span starts, one of the two kinds is opened and closed. -/
theorem spanStarts_iff : SpanStarts text ↔
    (∃ rest, text = "\x7b--".toList ++ rest ∧ "--\x7d".toList <:+: rest) ∨
      ∃ rest, text = "\x7b++".toList ++ rest ∧ "++\x7d".toList <:+: rest := by
  constructor
  · rintro ⟨span, behind, rfl⟩
    cases span with
    | deleted inner => exact .inl ⟨inner ++ "--\x7d".toList ++ behind, by simp [Span.source],
        (List.infix_append inner _ behind)⟩
    | inserted inner => exact .inr ⟨inner ++ "++\x7d".toList ++ behind, by simp [Span.source],
        (List.infix_append inner _ behind)⟩
  · rintro (⟨rest, rfl, inner, behind, rfl⟩ | ⟨rest, rfl, inner, behind, rfl⟩)
    · exact ⟨.deleted inner, behind, by simp [Span.source]⟩
    · exact ⟨.inserted inner, behind, by simp [Span.source]⟩

theorem spanMarkup_deleted (closes : Text.breakOn "--\x7d".toList rest = some (inner, after)) :
    spanMarkup.step ("\x7b--".toList ++ rest) = some ((Span.deleted inner).source, after) := by
  simp only [spanMarkup, Pattern.orElse]
  rw [Pattern.between_of_lead (List.prefix_append _ _), List.drop_left, closes]
  rfl

theorem spanMarkup_inserted (closes : Text.breakOn "++\x7d".toList rest = some (inner, after)) :
    spanMarkup.step ("\x7b++".toList ++ rest) = some ((Span.inserted inner).source, after) := by
  have other : ¬"\x7b--".toList <+: "\x7b++".toList ++ rest := by simp
  simp only [spanMarkup, Pattern.orElse]
  rw [Pattern.between_of_not_lead other, Pattern.between_of_lead (List.prefix_append _ _),
    List.drop_left, closes]
  rfl

theorem spanMarkup_none (outside : ¬SpanStarts text) : spanMarkup.step text = none := by
  rw [spanStarts_iff, not_or] at outside
  simp only [spanMarkup, Pattern.orElse]
  rw [Pattern.between_of_not_closed outside.1, Pattern.between_of_not_closed outside.2]
  rfl

theorem Reads.prefix (reads : Reads text lead spans) : lead <+: text := by
  induction reads with
  | nil => exact List.prefix_refl _
  | char outside reads ih => exact List.cons_prefix_cons.mpr ⟨rfl, ih⟩
  | deleted closes reads ih => exact List.nil_prefix
  | inserted closes reads ih => exact List.nil_prefix

theorem split_of_reads (reads : Reads text lead spans) :
    spanMarkup.split text =
      lead :: spans.flatMap fun item => [item.1.source, item.2] := by
  induction reads with
  | nil => rfl
  | char outside reads ih =>
      rw [Pattern.split_of_none (spanMarkup_none outside), ih]
      rfl
  | deleted closes reads ih =>
      rw [Pattern.split_of_step (spanMarkup_deleted closes), ih]
      rfl
  | inserted closes reads ih =>
      rw [Pattern.split_of_step (spanMarkup_inserted closes), ih]
      rfl

theorem unwrap_append (inner : Text) :
    unwrap opening closing (opening ++ inner ++ closing) = some inner := by
  simp [unwrap]

theorem eq_of_unwrap (found : unwrap opening closing piece = some inner) :
    piece = opening ++ inner ++ closing := by
  simp only [unwrap] at found
  split at found
  · next both =>
      rcases List.isPrefixOf_iff_prefix.mp both.1 with ⟨behind, rfl⟩
      rw [List.drop_left] at both found
      rcases List.isSuffixOf_iff_suffix.mp both.2 with ⟨front, rfl⟩
      simp at found
      simp [found]
  · cases found

/-- The texts between the spans are not spans themselves. -/
theorem unwrap_of_reads (reads : Reads text lead spans) (span : Text → Span)
    (source : ∀ inner, (span inner).source = opening ++ inner ++ closing)
    (nonempty : opening ≠ []) :
    ∀ plain ∈ lead :: spans.map Prod.snd, unwrap opening closing plain = none := by
  have empty : unwrap opening closing [] = none := by
    cases opening with
    | nil => exact absurd rfl nonempty
    | cons first others => simp [unwrap]
  induction reads with
  | nil => simpa using empty
  | @char first rest lead spans outside reads ih =>
      intro plain member
      rcases List.mem_cons.mp member with rfl | later
      · cases found : unwrap opening closing (first :: lead) with
        | none => rfl
        | some inner =>
            have starts : SpanStarts (first :: rest) := by
              refine ⟨span inner, ?_⟩
              rw [source, ← eq_of_unwrap found]
              exact List.cons_prefix_cons.mpr ⟨rfl, reads.prefix⟩
            exact absurd starts outside
      · exact ih plain (List.mem_cons_of_mem _ later)
  | deleted closes reads ih =>
      intro plain member
      rcases List.mem_cons.mp member with rfl | later
      · exact empty
      · exact ih plain later
  | inserted closes reads ih =>
      intro plain member
      rcases List.mem_cons.mp member with rfl | later
      · exact empty
      · exact ih plain later

/-- What a span is rendered to. -/
def Span.element : Span → Element
  | .deleted text => .del text
  | .inserted text => .ins text

/-- What is left of a span when the revision is accepted. -/
def Span.accepted : Span → Text
  | .deleted _ => []
  | .inserted text => text

theorem Span.accepted_element (span : Span) : span.element.accepted = span.accepted := by
  cases span <;> rfl

theorem renderPiece_source (span : Span) : renderPiece span.source = span.element := by
  cases span with
  | deleted inner =>
      simp only [renderPiece, Span.source, unwrap_append]
      rfl
  | inserted inner =>
      have other : unwrap "\x7b--".toList "--\x7d".toList (Span.inserted inner).source = none := by
        simp [unwrap, Span.source]
      rw [Span.source] at other
      simp only [renderPiece, Span.source, unwrap_append, other]
      rfl

/-- The elements that a redline is rendered to, by the way it reads. -/
theorem renderRedline_of_reads (reads : Reads text lead spans) :
    renderRedline text = .span (stray.sub lead) ::
      spans.flatMap fun item => [item.1.element, .span (stray.sub item.2)] := by
  have plain : ∀ piece ∈ lead :: spans.map Prod.snd,
      renderPiece piece = .span (stray.sub piece) := by
    intro piece member
    rw [renderPiece, unwrap_of_reads reads .deleted (fun _ => rfl) (by decide) piece member,
      unwrap_of_reads reads .inserted (fun _ => rfl) (by decide) piece member]
  rw [renderRedline, split_of_reads reads, List.map_cons, plain lead (by simp),
    List.map_flatMap]
  congr 1
  apply List.flatMap_congr
  intro item member
  simp [renderPiece_source, plain item.2 (by simp [List.mem_map_of_mem member])]

/-- What the page shows as accepted of the spans and of what follows them. -/
def shown (spans : List (Span × Text)) : Text :=
  spans.flatMap fun item => item.1.accepted ++ stray.sub item.2

/-- The page strips what is between the spans, and shows insertions as they are. -/
theorem pageText_of_reads (reads : Reads text lead spans) :
    pageText text = stray.sub lead ++ shown spans := by
  rw [pageText, renderRedline_of_reads reads, List.flatMap_cons, List.flatMap_assoc, shown]
  congr 1
  apply List.flatMap_congr
  intro item _
  rw [← Span.accepted_element]
  simp [Element.accepted]

theorem exists_reads (text : Text) : ∃ lead spans, Reads text lead spans := by
  induction length : text.length using Nat.strong_induction_on generalizing text with
  | _ length' ih =>
      subst length
      cases text with
      | nil => exact ⟨[], [], .nil⟩
      | cons char rest =>
          have later : ∀ {opening closing behind inner after : Text}, opening ≠ [] →
              char :: rest = opening ++ behind →
              Text.breakOn closing behind = some (inner, after) →
              ∃ lead spans, Reads after lead spans := by
            intro opening closing behind inner after proper whole closes
            have marked := List.length_pos_iff.mpr proper
            have total := congrArg List.length whole
            have shorter := congrArg List.length (Text.eq_of_breakOn closes)
            simp only [List.length_cons, List.length_append] at total shorter
            exact ih after.length (by simp only [List.length_cons]; omega) after rfl
          by_cases starts : SpanStarts (char :: rest)
          · rcases spanStarts_iff.mp starts with ⟨behind, whole, within⟩ | ⟨behind, whole, within⟩
            · rcases closes_of_infix within with ⟨inner, after, closes⟩
              rcases later delOpen_ne_nil whole closes with ⟨lead, spans, reads⟩
              rw [whole]
              exact ⟨_, _, .deleted closes reads⟩
            · rcases closes_of_infix within with ⟨inner, after, closes⟩
              rcases later insOpen_ne_nil whole closes with ⟨lead, spans, reads⟩
              rw [whole]
              exact ⟨_, _, .inserted closes reads⟩
          · rcases ih rest.length (by simp) rest rfl with ⟨lead, spans, reads⟩
            exact ⟨_, _, .char starts reads⟩

end Page

end OrcaValidator
