import OrcaValidator.Export.Tokens
import OrcaValidator.Llm.Revise
import OrcaValidator.Web.RenderRedline

/-!
# Both sides of a redline

A model that marks every change, as it is asked to, makes a redline of each section that can
be read in two ways: without what it deletes, and without what it inserts.  `revise_contract`
puts the sections together so that the download and the page give the first reading of the
whole, and the page, with what is struck out and without what is inserted, the document.
-/

namespace OrcaValidator

open Library

/-! ## Segments -/

/-- What is left of a segment when the revision is rejected. -/
def Segment.original : Segment → Text
  | .plain text | .deleted text => text
  | .inserted _ => []

/-- No brace is in the text. -/
def BracelessText (text : Text) : Prop := '\x7b' ∉ text ∧ '\x7d' ∉ text

instance : DecidablePred BracelessText := fun _ => inferInstanceAs (Decidable (_ ∧ _))

/-- No text of the segments has a brace. -/
def Braceless (segments : List Segment) : Prop :=
  ∀ segment ∈ segments, BracelessText segment.text

/-- The text marks changes to a source, the words of which it leaves as they are. -/
def RedlineOf (source text : Text) : Prop :=
  ∃ segments, Braceless segments ∧ text = segments.flatMap Segment.encode ∧
    Text.visibleChars (segments.flatMap Segment.original) = Text.visibleChars source

theorem RedlineOf.append {source more text later : Text} (first : RedlineOf source text)
    (second : RedlineOf more later) : RedlineOf (source ++ more) (text ++ later) := by
  rcases first with ⟨segments, braceless, rfl, same⟩
  rcases second with ⟨others, braceless', rfl, same'⟩
  refine ⟨segments ++ others, ?_, by rw [List.flatMap_append], ?_⟩
  · exact List.forall_mem_append.mpr ⟨braceless, braceless'⟩
  · rw [List.flatMap_append, Text.visibleChars_append, Text.visibleChars_append, same, same']

theorem redlineOf_nil : RedlineOf [] [] := ⟨[], by simp [Braceless], rfl, rfl⟩

theorem redlineOf_sectionBreak : RedlineOf [] sectionBreak := by
  refine ⟨[.plain sectionBreak], ?_, rfl, by decide⟩
  intro segment member
  rw [List.mem_singleton.mp member]
  decide

theorem redlineOf_truncationNote : RedlineOf [] truncationNote := by
  refine ⟨[.inserted ("[Note: the document was very long; this redline covers its ".toList ++
    "first portion.]".toList)], ?_, by decide, by decide⟩
  intro segment member
  rw [List.mem_singleton.mp member]
  decide

/-- A redline of a text with something in it is not empty. -/
theorem RedlineOf.ne_nil {source text : Text} (redline : RedlineOf source text)
    (visible : Text.visibleChars source ≠ []) : text ≠ [] := by
  rcases redline with ⟨segments, _, rfl, same⟩
  intro empty
  apply visible
  rw [← same]
  have nothing : segments.flatMap Segment.original = [] := by
    rw [List.flatMap_eq_nil_iff] at empty ⊢
    intro segment member
    have encoded := empty segment member
    cases segment with
    | plain text => exact encoded
    | deleted text => simp [Segment.encode] at encoded
    | inserted text => rfl
  rw [nothing]
  rfl

/-! ## The page -/

/-- The text of an element that is not an insertion. -/
def Element.original : Element → Text
  | .del text | .span text => text
  | .ins _ => []

/-- The page without what is inserted. -/
def originalText (redline : Text) : Text := (renderRedline redline).flatMap Element.original

theorem not_spanStarts_of_ne {char : Char} (rest : Text) (plain : char ≠ '\x7b') :
    ¬SpanStarts (char :: rest) := by
  rintro ⟨span, later, whole⟩
  cases span <;> exact plain (List.cons.inj whole).1.symm

/-- A marker is closed by the first one that a text without braces is followed by. -/
theorem breakOn_closing {sign : Char} (other : sign ≠ '\x7d') {text : Text}
    (plain : '\x7d' ∉ text) (rest : Text) :
    Text.breakOn [sign, sign, '\x7d'] (text ++ ([sign, sign, '\x7d'] ++ rest)) =
      some (text, rest) := by
  rw [Text.breakOn_append_left ?_, Text.breakOn_lead (by simp)]
  · simp
  · intro later ends nonempty lead
    have absent : '\x7d' ∉ later := fun member => plain (ends.subset member)
    rcases later with _ | ⟨first, _ | ⟨second, _ | ⟨third, more⟩⟩⟩
    · exact nonempty rfl
    · simp [List.cons_prefix_cons, other.symm] at lead
    · simp [List.cons_prefix_cons, other.symm] at lead
    · simp only [List.cons_append, List.cons_prefix_cons] at lead
      rw [lead.2.2.1] at absent
      exact absent (by simp)

theorem stray_of_braceless {text : Text} (braceless : BracelessText text) :
    stray.sub text = text := by
  apply stray_of_unmarked
  intro marker within
  have braced : '\x7b' ∈ marker.text ∨ '\x7d' ∈ marker.text := by
    cases marker <;> decide
  rcases braced with opens | closes
  · exact braceless.1 (within.subset opens)
  · exact braceless.2 (within.subset closes)

/-- What the span holds of the original: the deleted text. -/
def Span.original : Span → Text
  | .deleted text => text
  | .inserted _ => []

theorem original_element (span : Span) : span.element.original = span.original := by
  cases span <;> rfl

/-- A text in which no marker can begin leads a reading. -/
theorem Reads.append {rest lead : Text} {spans : List (Span × Text)} (reads : Reads rest lead spans)
    {text : Text} (plain : '\x7b' ∉ text) : Reads (text ++ rest) (text ++ lead) spans := by
  induction text with
  | nil => exact reads
  | cons char text ih =>
      rw [List.mem_cons, not_or] at plain
      exact .char (not_spanStarts_of_ne _ (Ne.symm plain.1)) (ih plain.2)

/-- Segments without braces are read as what they are. -/
theorem exists_reads_encode {segments : List Segment} (braceless : Braceless segments) :
    ∃ lead spans, Reads (segments.flatMap Segment.encode) lead spans ∧
      BracelessText lead ∧ (∀ item ∈ spans, BracelessText item.2) ∧
      lead ++ spans.flatMap (fun item => item.1.original ++ item.2) =
        segments.flatMap Segment.original ∧
      lead ++ spans.flatMap (fun item => item.1.accepted ++ item.2) =
        segments.flatMap Segment.accepted := by
  induction segments with
  | nil => exact ⟨[], [], .nil, by simp [BracelessText], by simp, rfl, rfl⟩
  | cons segment rest ih =>
      rcases List.forall_mem_cons.mp braceless with ⟨first, others⟩
      rcases ih others with ⟨lead, spans, reads, plain, plains, original, accepted⟩
      cases segment with
      | plain text =>
          have own : BracelessText text := first
          refine ⟨text ++ lead, spans, reads.append own.1, ?_, plains, ?_, ?_⟩
          · exact ⟨by simp [own.1, plain.1], by simp [own.2, plain.2]⟩
          · simp [← original, Segment.original]
          · simp [← accepted, Segment.accepted]
      | deleted text =>
          refine ⟨[], (.deleted text, lead) :: spans, ?_, by simp [BracelessText], ?_, ?_, ?_⟩
          · have closes := breakOn_closing (show '-' ≠ '\x7d' by decide) first.2
              (rest.flatMap Segment.encode)
            have read := Reads.deleted closes reads
            simpa [Segment.encode, Segment.text] using read
          · exact List.forall_mem_cons.mpr ⟨plain, plains⟩
          · simp [← original, Span.original, Segment.original]
          · simp [← accepted, Span.accepted, Segment.accepted]
      | inserted text =>
          refine ⟨[], (.inserted text, lead) :: spans, ?_, by simp [BracelessText], ?_, ?_, ?_⟩
          · have closes := breakOn_closing (show '+' ≠ '\x7d' by decide) first.2
              (rest.flatMap Segment.encode)
            have read := Reads.inserted closes reads
            simpa [Segment.encode, Segment.text] using read
          · exact List.forall_mem_cons.mpr ⟨plain, plains⟩
          · simp [← original, Span.original, Segment.original]
          · simp [← accepted, Span.accepted, Segment.accepted]

/-- The page shows both sides of a redline, and accepts what the download does. -/
theorem page_of_braceless {segments : List Segment} (braceless : Braceless segments) :
    pageText (segments.flatMap Segment.encode) = segments.flatMap Segment.accepted ∧
      originalText (segments.flatMap Segment.encode) = segments.flatMap Segment.original := by
  rcases exists_reads_encode braceless with
    ⟨lead, spans, reads, plain, plains, original, accepted⟩
  have kept : ∀ side : Span → Text,
      spans.flatMap (fun item => side item.1 ++ stray.sub item.2) =
        spans.flatMap fun item => side item.1 ++ item.2 := by
    intro side
    apply List.flatMap_congr
    intro item member
    rw [stray_of_braceless (plains item member)]
  constructor
  · rw [pageText_of_reads reads, stray_of_braceless plain, shown, kept, accepted]
  · rw [originalText, renderRedline_of_reads reads, List.flatMap_cons, List.flatMap_assoc,
      ← original, ← kept Span.original]
    have shown : ∀ item : Span × Text, [item.1.element, .span (stray.sub item.2)].flatMap
        Element.original = item.1.original ++ stray.sub item.2 := by
      intro item
      rw [← original_element]
      simp [Element.original]
    simp only [shown]
    rw [Element.original, stray_of_braceless plain]

/-! ## Putting sections together -/

/-- A text that is not empty, and neither begins nor ends with white space. -/
def Trimmed (text : Text) : Prop := text ≠ [] ∧ Text.strip text = text

theorem Trimmed.append {left right : Text} (first : Trimmed left) (second : Trimmed right)
    (middle : Text) : Trimmed (left ++ middle ++ right) := by
  refine ⟨by simp [first.1], Text.strip_eq_self ?_ ?_⟩
  · intro char lead
    rw [List.append_assoc, List.head?_append_of_ne_nil _ first.1, ← first.2] at lead
    exact Text.isSpace_head_strip lead
  · intro char last
    rw [List.getLast?_append_of_ne_nil _ second.1, ← second.2] at last
    exact Text.isSpace_getLast_strip right last

theorem RedlineOf.sections {chunks parts : List Text}
    (redlines : List.Forall₂ RedlineOf chunks parts) :
    RedlineOf chunks.flatten (List.intercalate sectionBreak parts) := by
  induction redlines with
  | nil => exact redlineOf_nil
  | @cons chunk part chunks parts first rest ih =>
      cases rest with
      | nil => simpa using first
      | cons second others =>
          rw [List.flatten_cons, List.intercalate_cons_cons]
          have joined := (first.append redlineOf_sectionBreak).append ih
          rwa [List.append_nil] at joined

theorem trimmed_sections {parts : List Text} (nonempty : parts ≠ [])
    (trimmed : ∀ part ∈ parts, Trimmed part) :
    Trimmed (List.intercalate sectionBreak parts) := by
  induction parts with
  | nil => exact absurd rfl nonempty
  | cons part rest ih =>
      rcases List.forall_mem_cons.mp trimmed with ⟨first, others⟩
      cases rest with
      | nil => simpa using first
      | cons second later =>
          rw [List.intercalate_cons_cons]
          exact first.append (ih (by simp) others) sectionBreak

theorem RedlineOf.addition {source text later : Text} (redline : RedlineOf source text)
    (added : RedlineOf [] later) : RedlineOf source (text ++ sectionBreak ++ later) := by
  have joined := (redline.append redlineOf_sectionBreak).append added
  rwa [List.append_nil, List.append_nil] at joined

/-! ## A model that marks every change -/

/-- Whatever the model answers with, it marks its changes to a section that has no braces, and
drafts nothing but insertions. -/
structure Faithful (chat : Chat) : Prop where
  revises : ∀ {sent temperature chunk reply}, BracelessText chunk →
    chat (sent ++ [revisePrompt temperature chunk]) = .ok reply →
    RedlineOf chunk (Text.strip reply)
  drafts : ∀ {sent user temperature reply},
    chat (sent ++ [⟨additionsSystem, user, 2400, temperature⟩]) = .ok reply →
    RedlineOf [] (Text.strip reply)

section Revise

variable [Interpreter] {chat : Chat}

omit [Interpreter] in
theorem reviseChunks_ensures (faithful : Faithful chat) (temperature : ℚ) {chunks : List Text}
    (braceless : ∀ chunk ∈ chunks, BracelessText chunk) (sent : List Prompt) :
    (reviseChunks chat temperature chunks).Ensures sent
      (fun parts _ => List.Forall₂ RedlineOf chunks parts ∧
        ∀ part ∈ parts, Text.strip part = part)
      (fun _ _ => True) := by
  induction chunks generalizing sent with
  | nil => exact Effect.Ensures.pure ⟨.nil, by simp⟩
  | cons chunk chunks ih =>
      rcases List.forall_mem_cons.mp braceless with ⟨plain, others⟩
      refine Effect.Ensures.bind (Effect.Ensures.bind ((ask_ensures chat _ sent).weaken ?_ ?_))
      · rintro reply after ⟨rfl, answered⟩
        refine Effect.Ensures.pure (Effect.Ensures.bind ((ih others _).weaken ?_ ?_))
        · rintro parts later ⟨redlines, stripped⟩
          exact Effect.Ensures.pure ⟨.cons (faithful.revises plain answered) redlines,
            List.forall_mem_cons.mpr ⟨Text.strip_strip reply, stripped⟩⟩
        · exact fun _ _ _ => trivial
      · exact fun _ _ _ => trivial

theorem draftAdditions_ensures_insertions (faithful : Faithful chat) (missing : Json)
    (temperature : ℚ) (sent : List Prompt) :
    (draftAdditions chat missing temperature).Ensures sent
      (fun additions _ => RedlineOf [] additions ∧ Text.strip additions = additions)
      (fun _ _ => True) := by
  unfold draftAdditions
  split
  · exact Effect.Ensures.pure ⟨redlineOf_nil, rfl⟩
  · refine Effect.Ensures.bind (Effect.Ensures.lift (fun items _ => ?_) fun _ _ => trivial)
    refine Effect.Ensures.bind ((ask_ensures chat _ sent).weaken ?_ fun _ _ _ => trivial)
    rintro reply after ⟨rfl, answered⟩
    exact Effect.Ensures.pure ⟨faithful.drafts answered, Text.strip_strip reply⟩

omit [Interpreter] in
theorem ne_nil_of_redlines {chunks parts : List Text}
    (redlines : List.Forall₂ RedlineOf chunks parts)
    (visible : ∀ chunk ∈ chunks, Text.visibleChars chunk ≠ []) : ∀ part ∈ parts, part ≠ [] := by
  induction redlines with
  | nil => simp
  | cons first rest ih =>
      rcases List.forall_mem_cons.mp visible with ⟨own, others⟩
      exact List.forall_mem_cons.mpr ⟨first.ne_nil own, ih others⟩

/-- A redline of some chunks, trimmed. -/
def SectionsOf (chunks : List Text) (redline : Text) : Prop :=
  RedlineOf chunks.flatten redline ∧ Trimmed redline

omit [Interpreter] in
theorem sectionsOf_assembled {chunks parts : List Text} (nonempty : chunks ≠ [])
    (redlines : List.Forall₂ RedlineOf chunks parts)
    (visible : ∀ chunk ∈ chunks, Text.visibleChars chunk ≠ [])
    (stripped : ∀ part ∈ parts, Text.strip part = part) :
    SectionsOf chunks (assembleSections parts) := by
  have full := ne_nil_of_redlines redlines visible
  have some : parts ≠ [] := by
    rintro rfl
    exact nonempty (List.forall₂_nil_right_iff.mp redlines)
  rw [SectionsOf, assembleSections_of_nonempty full]
  exact ⟨.sections redlines,
    trimmed_sections some fun part member => ⟨full part member, stripped part member⟩⟩

omit [Interpreter] in
theorem SectionsOf.addition {chunks : List Text} {redline later : Text}
    (sections : SectionsOf chunks redline) (added : RedlineOf [] later) (trimmed : Trimmed later) :
    SectionsOf chunks (redline ++ sectionBreak ++ later) :=
  ⟨sections.1.addition added, sections.2.append trimmed sectionBreak⟩

/-- What is put together from the sections is a redline of the chunks that were revised. -/
theorem redlineOf_sections (faithful : Faithful chat) {chunks : List Text}
    (nonempty : chunks ≠ []) (braceless : ∀ chunk ∈ chunks, BracelessText chunk)
    (visible : ∀ chunk ∈ chunks, Text.visibleChars chunk ≠ []) (analysis : Json)
    (temperature : ℚ) :
    (reviseSections chat chunks analysis temperature).Ensures []
      (fun redline _ => RedlineOf (chunks.take maxChunks).flatten redline)
      (fun _ _ => True) := by
  have plain : ∀ chunk ∈ chunks.take maxChunks, BracelessText chunk :=
    fun chunk member => braceless chunk (List.mem_of_mem_take member)
  have revised : chunks.take maxChunks ≠ [] := by
    simpa [List.take_eq_nil_iff, maxChunks] using nonempty
  refine Effect.Ensures.bind ((reviseChunks_ensures faithful temperature plain []).weaken ?_
    fun _ _ _ => trivial)
  rintro parts sent ⟨redlines, stripped⟩
  refine Effect.Ensures.bind (Effect.Ensures.lift (fun missing _ => ?_) fun _ _ => trivial)
  refine Effect.Ensures.bind ((draftAdditions_ensures_insertions faithful _ temperature
    sent).weaken ?_ fun _ _ _ => trivial)
  rintro additions after ⟨drafted, strippedAdditions⟩
  refine Effect.Ensures.pure ?_
  have assembled := sectionsOf_assembled revised redlines
    (fun chunk member => visible chunk (List.mem_of_mem_take member)) stripped
  have note : Trimmed truncationNote := ⟨by decide, by decide +kernel⟩
  have noted : SectionsOf (chunks.take maxChunks)
      (if maxChunks < chunks.length then assembleSections parts ++ sectionBreak ++ truncationNote
        else assembleSections parts) := by
    split
    · exact assembled.addition redlineOf_truncationNote note
    · exact assembled
  have whole : SectionsOf (chunks.take maxChunks)
      (if additions = [] then
        (if maxChunks < chunks.length then assembleSections parts ++ sectionBreak ++ truncationNote
          else assembleSections parts)
        else (if maxChunks < chunks.length then
          assembleSections parts ++ sectionBreak ++ truncationNote
          else assembleSections parts) ++ sectionBreak ++ additions) := by
    by_cases none : additions = []
    · rw [if_pos none]
      exact noted
    · rw [if_neg none]
      exact noted.addition drafted ⟨none, strippedAdditions⟩
  rw [whole.2.2]
  exact whole.1

omit [Interpreter] in
/-- A chunk of a text without braces has none. -/
theorem braceless_of_mem {text chunk : Text} {chunks : List Text} (braceless : BracelessText text)
    (words : Text.visibleChars chunks.flatten = Text.visibleChars text) (member : chunk ∈ chunks) :
    BracelessText chunk := by
  have within : ∀ brace, Text.isSpace brace = false → brace ∈ chunk → brace ∈ text := by
    intro brace inside inChunk
    have shown : brace ∈ Text.visibleChars chunks.flatten :=
      List.mem_filter.mpr ⟨List.mem_flatten.mpr ⟨chunk, member, inChunk⟩, by simp [inside]⟩
    rw [words] at shown
    exact (List.mem_filter.mp shown).1
  exact ⟨mt (within _ (by decide)) braceless.1, mt (within _ (by decide)) braceless.2⟩

/-- With a model that marks every change, the download and the page show the revision, and the
page without its insertions shows the words of the document: all of them if it fits, and else
those that it begins with. -/
theorem sides_of_redline (faithful : Faithful chat) {text : Text}
    (readable : Text.strip text ≠ []) (braceless : BracelessText text) {analysis : Json}
    {temperature : ℚ} {revise : Effect (List Prompt) PyException Text} {redline : Text}
    (returned : reviseContract chat text analysis temperature = some revise)
    (ended : (revise []).1 = .ok redline) :
    ∃ segments : List Segment, redline = segments.flatMap Segment.encode ∧
      cleanRevision (some redline) = segments.flatMap Segment.accepted ∧
      pageText redline = segments.flatMap Segment.accepted ∧
      originalText redline = segments.flatMap Segment.original ∧
      Text.visibleChars (originalText redline) <+: Text.visibleChars text ∧
      (FitsTwelve text → Text.visibleChars (originalText redline) = Text.visibleChars text) := by
  rcases splitLoop_strip_chunking (show 0 < chunkChars by decide) readable with
    ⟨chunks, loop, split, chunking⟩
  have words : Text.visibleChars chunks.flatten = Text.visibleChars text := by
    rw [chunking.woven.visibleChars, Text.visibleChars_strip]
  have visible : ∀ chunk ∈ chunks, Text.visibleChars chunk ≠ [] := by
    intro chunk member vanished
    rcases chunking.visible chunk member with ⟨first, lead, inside⟩
    have blank := Text.visibleChars_eq_nil_iff.mp vanished first (List.mem_of_mem_head? lead)
    rw [inside] at blank
    exact absurd blank (by simp)
  have plain : ∀ chunk ∈ chunks, BracelessText chunk := fun chunk member =>
    braceless_of_mem braceless words member
  rw [reviseContract, split, Option.map_some, Option.some.injEq] at returned
  rw [← returned] at ended
  rcases (redlineOf_sections faithful chunking.woven.ne_nil plain visible analysis
    temperature).ok ended with ⟨segments, own, rfl, same⟩
  rcases page_of_braceless own with ⟨accepted, original⟩
  have cut : chunks.flatten = (chunks.take maxChunks).flatten ++
      (chunks.drop maxChunks).flatten := by
    rw [← List.flatten_append, List.take_append_drop]
  refine ⟨segments, rfl, cleanRevision_segments own, accepted, original, ?_, ?_⟩
  · rw [original, same, ← words, cut, Text.visibleChars_append]
    exact List.prefix_append _ _
  · intro fits
    have few : chunks.length ≤ maxChunks :=
      (length_splitLoop_le_iff readable (Text.strip_strip text) loop).mpr fits
    rw [original, same, List.take_of_length_le few, words]

end Revise

section Closed

attribute [local instance] Interpreter.ascii

/-- A section between inserted brackets. -/
def bracketed (chunk : Text) : List Segment :=
  [.inserted "[".toList, .plain chunk, .inserted "]".toList]

/-- A model that puts sections without braces between brackets, and drafts nothing. -/
def bracketing : Chat := fun sent =>
  match sent.getLast? with
  | none => .error ⟨"ValueError".toList, []⟩
  | some prompt =>
      if prompt.system = reviseSystem ∧ BracelessText prompt.user then
        .ok ((bracketed prompt.user).flatMap Segment.encode)
      else .error ⟨"ValueError".toList, []⟩

theorem strip_bracketed (chunk : Text) : Text.strip ((bracketed chunk).flatMap Segment.encode) =
    (bracketed chunk).flatMap Segment.encode := by
  have whole : (bracketed chunk).flatMap Segment.encode =
      "\x7b++[++\x7d".toList ++ chunk ++ "\x7b++]++\x7d".toList := by
    simp [bracketed, Segment.encode]
  have opening : Trimmed "\x7b++[++\x7d".toList := ⟨by decide, by decide⟩
  have closing : Trimmed "\x7b++]++\x7d".toList := ⟨by decide, by decide⟩
  rw [whole]
  exact (opening.append closing chunk).2

theorem redlineOf_bracketed {chunk : Text} (braceless : BracelessText chunk) :
    RedlineOf chunk ((bracketed chunk).flatMap Segment.encode) := by
  refine ⟨bracketed chunk, ?_, rfl, by simp [bracketed, Segment.original]⟩
  intro segment member
  simp only [bracketed, List.mem_cons, List.not_mem_nil, or_false] at member
  rcases member with rfl | rfl | rfl
  · exact (by decide : BracelessText "[".toList)
  · exact braceless
  · exact (by decide : BracelessText "]".toList)

theorem faithful_bracketing : Faithful bracketing where
  revises := by
    intro sent temperature chunk reply braceless answered
    have asked : bracketing (sent ++ [revisePrompt temperature chunk]) =
        .ok ((bracketed chunk).flatMap Segment.encode) := by
      rw [bracketing, List.getLast?_concat]
      exact if_pos ⟨rfl, braceless⟩
    rw [asked] at answered
    cases answered
    rw [strip_bracketed]
    exact redlineOf_bracketed braceless
  drafts := by
    intro sent user temperature reply answered
    have other : additionsSystem ≠ reviseSystem := by decide +kernel
    rw [bracketing, List.getLast?_concat] at answered
    simp [other] at answered

theorem sides_of_redline_lease : ∃ revise redline,
    reviseContract bracketing "A lease of two rooms.".toList (.obj []) 0 = some revise ∧
      (revise []).1 = .ok redline ∧
      ∃ segments : List Segment, redline = segments.flatMap Segment.encode ∧
        cleanRevision (some redline) = segments.flatMap Segment.accepted ∧
        pageText redline = segments.flatMap Segment.accepted ∧
        originalText redline = segments.flatMap Segment.original ∧
        Text.visibleChars (originalText redline) <+:
          Text.visibleChars "A lease of two rooms.".toList ∧
        (FitsTwelve "A lease of two rooms.".toList → Text.visibleChars (originalText redline) =
          Text.visibleChars "A lease of two rooms.".toList) := by
  have runs : ((reviseContract bracketing "A lease of two rooms.".toList (.obj []) 0).map
      fun revise => (revise []).1.isOk) = some true := by decide +kernel
  rcases Option.map_eq_some_iff.mp runs with ⟨revise, returned, isOk⟩
  cases ended : (revise []).1 with
  | error reason =>
      rw [ended] at isOk
      cases isOk
  | ok redline =>
      exact ⟨revise, redline, returned, ended,
        sides_of_redline faithful_bracketing (by decide) (by decide) returned ended⟩

end Closed

end OrcaValidator
