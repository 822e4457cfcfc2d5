import OrcaValidator.Export.Seams
import OrcaValidator.Web.RenderRedline

/-!
# The page and the download

The page resolves a redline span by span, the download in three passes over the whole text.
They agree when no inserted text holds a marker, what the deletions leave is paired to the same
insertions, and the texts that are kept read put end to end as they do one by one: what is
inside an insertion is shown as it is on the page, while the passes of the download go through
it, and through what the earlier ones put together.

That nothing less will do is a matter of length.  No pass of the download leaves more
characters than the texts that the page keeps have when they are stripped one by one, and each
of the three conditions is what keeps it from leaving fewer.  Only markers that share
characters can make up for others.
-/

namespace OrcaValidator

open Library

/-! ## Where they agree -/

/-- The texts that are kept of a span and of what follows it. -/
def keptOf : Span × Text → List Text
  | (.deleted _, text) => [text]
  | (.inserted added, text) => [added, text]

/-- The texts that are kept, put together where only deletions separate them. -/
def joined (text : Text) : List (Span × Text) → List Text
  | [] => [text]
  | (.deleted _, next) :: rest => joined (text ++ next) rest
  | (.inserted added, next) :: rest => text :: added :: joined next rest

/-- In what the deletions leave, the download finds the insertions that the page shows. -/
def FindsInsertions (redline lead : Text) (spans : List (Span × Text)) : Prop :=
  insertion.split (deletion.sub redline) = joined lead spans

/-- No inserted text holds a marker. -/
def Unmarked (spans : List (Span × Text)) : Prop :=
  ∀ item ∈ spans, ∀ marker : Marker, ¬marker.text <:+: item.1.accepted

/-- The download finds the insertions of the page, none of them holds a marker, and the texts
that are kept make none up. -/
def Resolvable (redline : Text) : Prop :=
  ∃ lead spans, Reads redline lead spans ∧ FindsInsertions redline lead spans ∧
    Unmarked spans ∧ Seamless (lead :: spans.flatMap keptOf)

section Agree

variable {text lead : Text} {spans : List (Span × Text)}

/-- The kept texts behind the leading one, stripped one by one. -/
def stripped (spans : List (Span × Text)) : Text := (spans.flatMap keptOf).flatMap stray.sub

theorem flatten_joined (lead : Text) (spans : List (Span × Text)) :
    (joined lead spans).flatten = (lead :: spans.flatMap keptOf).flatten := by
  induction spans generalizing lead with
  | nil => rfl
  | cons item rest ih =>
      rcases item with ⟨span, text⟩
      cases span with
      | deleted removed => simp [joined, keptOf, ih]
      | inserted added => simp [joined, keptOf, ih]

theorem cleanRevision_of_finds (finds : FindsInsertions text lead spans) :
    cleanRevision (some text) = stray.sub (lead :: spans.flatMap keptOf).flatten := by
  rw [cleanRevision_some, ← @Pattern.flatten_split insertion, finds, flatten_joined]

theorem stripped_of_unmarked (unmarked : Unmarked spans) : stripped spans = shown spans := by
  rw [stripped, shown, List.flatMap_assoc]
  apply List.flatMap_congr
  rintro ⟨span, kept⟩ member
  cases span with
  | deleted removed => simp [keptOf, Span.accepted]
  | inserted added =>
      have own : ∀ marker : Marker, ¬marker.text <:+: added := unmarked _ member
      simp [keptOf, Span.accepted, stray_of_unmarked own]

/-- A redline whose insertions hold no marker and whose kept texts make none up is shown
as it is downloaded. -/
theorem pageText_of_resolvable (resolvable : Resolvable text) :
    pageText text = cleanRevision (some text) := by
  rcases resolvable with ⟨lead, spans, reads, finds, unmarked, seamless⟩
  rw [cleanRevision_of_finds finds, seamless_iff.mp seamless, List.flatMap_cons, ← stripped,
    stripped_of_unmarked unmarked, pageText_of_reads reads]

end Agree

/-! ## Where the insertions are found -/

section Found

variable {text lead : Text} {spans : List (Span × Text)}

theorem length_stripped_le (spans : List (Span × Text)) :
    (stripped spans).length ≤ (shown spans).length := by
  induction spans with
  | nil => exact Nat.le_refl _
  | cons item rest ih =>
      rcases item with ⟨span, kept⟩
      cases span with
      | deleted removed => simpa [stripped, shown, keptOf, Span.accepted] using ih
      | inserted added =>
          have own := length_stray_le added
          simp only [stripped, shown, keptOf, Span.accepted, List.flatMap_cons,
            List.flatMap_append, List.length_append, List.flatMap_nil, List.length_nil] at ih ⊢
          omega

/-- A marker in an insertion makes the page show more than the download can hold. -/
theorem unmarked_of_length (enough : (shown spans).length ≤ (stripped spans).length) :
    Unmarked spans := by
  induction spans with
  | nil => simp [Unmarked]
  | cons item rest ih =>
      rcases item with ⟨span, kept⟩
      have later := length_stripped_le rest
      cases span with
      | deleted removed =>
          refine List.forall_mem_cons.mpr ⟨fun marker found => ?_, ih ?_⟩
          · exact marker.text_ne_nil (List.infix_nil.mp found)
          · simpa [stripped, shown, keptOf, Span.accepted] using enough
      | inserted added =>
          have own := length_stray_le added
          simp only [stripped, shown, keptOf, Span.accepted, List.flatMap_cons,
            List.flatMap_append, List.length_append, List.flatMap_nil, List.length_nil]
            at ih enough later
          refine List.forall_mem_cons.mpr ⟨fun marker found => ?_, ih (by omega)⟩
          have less : (stray.sub added).length < added.length := length_stray_lt found
          omega

theorem length_clean_le (finds : FindsInsertions text lead spans) :
    (cleanRevision (some text)).length ≤ (stray.sub lead).length + (stripped spans).length := by
  have bound := length_stray_flatten_le (lead :: spans.flatMap keptOf)
  rwa [← cleanRevision_of_finds finds, List.flatMap_cons, List.length_append] at bound

theorem resolvable_of_finds (reads : Reads text lead spans)
    (finds : FindsInsertions text lead spans)
    (same : pageText text = cleanRevision (some text)) : Resolvable text := by
  have bound := length_clean_le finds
  rw [← same, pageText_of_reads reads, List.length_append] at bound
  have unmarked : Unmarked spans := unmarked_of_length (by omega)
  refine ⟨lead, spans, reads, finds, unmarked, seamless_iff.mpr ?_⟩
  rw [← cleanRevision_of_finds finds, ← same, pageText_of_reads reads, List.flatMap_cons,
    ← stripped, stripped_of_unmarked unmarked]

end Found

/-! ## What the deletions leave -/

section Deletions

variable {text rest lead inner after : Text} {span : Span} {spans : List (Span × Text)}
  {count more : ℕ}

/-- The spans with their markers, and what follows them. -/
def sources (spans : List (Span × Text)) : Text :=
  spans.flatMap fun item => item.1.source ++ item.2

theorem Reads.eq (reads : Reads text lead spans) : text = lead ++ sources spans := by
  induction reads with
  | nil => rfl
  | char outside reads ih => rw [List.cons_append, ← ih]
  | deleted closes reads ih =>
      rw [Text.eq_of_breakOn closes, ih]
      simp [sources, Span.source]
  | inserted closes reads ih =>
      rw [Text.eq_of_breakOn closes, ih]
      simp [sources, Span.source]

theorem Reads.suffix {front back : Text} (reads : Reads text (front ++ back) spans) :
    Reads (back ++ sources spans) back spans := by
  induction front generalizing text with
  | nil =>
      have whole := reads.eq
      rw [List.nil_append] at reads whole
      rwa [← whole]
  | cons char front ih =>
      rw [List.cons_append] at reads
      cases reads with
      | char outside reads => exact ih reads

theorem Reads.later (reads : Reads text lead spans) : Reads (sources spans) [] spans := by
  rw [← List.append_nil lead] at reads
  exact reads.suffix

theorem Reads.next (reads : Reads text [] ((span, lead) :: spans)) :
    Reads (lead ++ sources spans) lead spans := by
  cases reads with
  | deleted closes reads => exact reads.eq ▸ reads
  | inserted closes reads => exact reads.eq ▸ reads

theorem Reads.closes_deleted (reads : Reads text [] ((.deleted inner, lead) :: spans)) :
    text = "\x7b--".toList ++ (inner ++ ("--\x7d".toList ++ (lead ++ sources spans))) ∧
      Text.breakOn "--\x7d".toList (inner ++ ("--\x7d".toList ++ (lead ++ sources spans))) =
        some (inner, lead ++ sources spans) := by
  cases reads with
  | @deleted rest _ after _ _ closes reads =>
      have split := Text.eq_of_breakOn closes
      rw [List.append_assoc] at split
      rw [← reads.eq, ← split]
      exact ⟨rfl, closes⟩

theorem deletion_lead (reads : Reads text lead spans) :
    deletion.sub text = lead ++ deletion.sub (sources spans) := by
  have whole := reads.eq
  induction reads with
  | nil => rfl
  | @char first rest lead spans outside reads ih =>
      have unmatched : deletion.step (first :: rest) = none :=
        Pattern.between_of_not_closed (not_or.mp (spanStarts_iff.not.mp outside)).1
      rw [Pattern.sub_of_none unmatched, ih reads.eq]
      rfl
  | deleted closes reads ih => rw [whole, List.nil_append, List.nil_append]
  | inserted closes reads ih => rw [whole, List.nil_append, List.nil_append]

theorem deletion_deleted (reads : Reads text [] ((.deleted inner, lead) :: spans)) :
    deletion.sub text = deletion.sub (lead ++ sources spans) := by
  rcases reads.closes_deleted with ⟨rfl, closes⟩
  have matched : deletion.step ("\x7b--".toList ++
      (inner ++ ("--\x7d".toList ++ (lead ++ sources spans)))) =
        some ([], lead ++ sources spans) := by
    rw [deletion, Pattern.between_of_lead (List.prefix_append _ _), List.drop_left, closes]
    rfl
  rw [Pattern.sub_of_step matched, List.nil_append]

theorem deletion_insOpen (text : Text) :
    deletion.sub ("\x7b++".toList ++ text) = "\x7b++".toList ++ deletion.sub text := by
  have unmatched : deletion.step ('\x7b' :: ("++".toList ++ text)) = none := by
    apply Pattern.between_of_not_lead
    simp
  have signs : deletion.sub ("++".toList ++ text) = "++".toList ++ deletion.sub text :=
    Pattern.sub_between_separator (by simp)
  have whole : "\x7b++".toList ++ text = '\x7b' :: ("++".toList ++ text) := rfl
  rw [whole, Pattern.sub_of_none unmatched, signs]
  rfl

theorem deletion_insClose (text : Text) :
    deletion.sub ("++\x7d".toList ++ text) = "++\x7d".toList ++ deletion.sub text :=
  Pattern.sub_between_separator (by simp)

/-- A text that begins in a reading, outside of its spans or in an insertion, and how many
characters there are at most in what is kept of it, stripped. -/
inductive KeepsAtMost : Text → ℕ → Prop where
  | outside {text lead : Text} {spans : List (Span × Text)} {count : ℕ}
      (reads : Reads text lead spans)
      (atMost : (stray.sub lead).length + (stripped spans).length ≤ count) :
      KeepsAtMost text count
  | inside {added after lead : Text} {spans : List (Span × Text)} {count : ℕ}
      (reads : Reads after lead spans)
      (atMost : (stray.sub added).length +
        ((stray.sub lead).length + (stripped spans).length) ≤ count) :
      KeepsAtMost (added ++ ("++\x7d".toList ++ after)) count

theorem KeepsAtMost.mono (keeps : KeepsAtMost text count) (atMost : count ≤ more) :
    KeepsAtMost text more := by
  cases keeps with
  | outside reads bound => exact .outside reads (bound.trans atMost)
  | inside reads bound => exact .inside reads (bound.trans atMost)

/-- No deletion's opening marker shares characters with a closing one. -/
def DeletionsOverlap (text : Text) : Prop :=
  Pattern.Overlapping "\x7b--".toList "--\x7d".toList text

theorem length_stripped_deleted :
    (stripped ((.deleted inner, lead) :: spans)).length =
      (stray.sub lead).length + (stripped spans).length := by
  simp [stripped, keptOf]

theorem length_stripped_inserted :
    (stripped ((.inserted inner, lead) :: spans)).length =
      (stray.sub inner).length + ((stray.sub lead).length + (stripped spans).length) := by
  simp [stripped, keptOf]

theorem length_stray_closed (before after : Text) :
    (stray.sub (before ++ "--\x7d".toList ++ after)).length =
      (stray.sub (before ++ "--\x7d".toList)).length + (stray.sub after).length := by
  rw [stray_of_lex_append (lex_append_of_closed (by simp)), List.length_append]

theorem behind_over_insertion (unclosed : ¬"--\x7d".toList <:+: inner) (text : Text) :
    Text.behind "--\x7d".toList (inner ++ ("++\x7d".toList ++ text)) =
      Text.behind "--\x7d".toList text := by
  have past : Text.behind "--\x7d".toList (inner ++ '+' :: ("+\x7d".toList ++ text)) =
      Text.behind "--\x7d".toList ("+\x7d".toList ++ text) :=
    Text.behind_append_cons (by decide) (by decide) unclosed
  refine past.trans ?_
  rw [show "+\x7d".toList ++ text = '+' :: '\x7d' :: text from rfl,
    Text.behind_of_not_lead (by simp), Text.behind_of_not_lead (by simp)]

/-- A closing marker in the leading text. -/
theorem keepsAtMost_behind_lead (reads : Reads text lead spans)
    (closed : "--\x7d".toList <:+: lead) (found : Text.behind "--\x7d".toList text = some after) :
    KeepsAtMost after ((stray.sub lead).length + (stripped spans).length) := by
  rcases Text.behind_append_of_infix closed (sources spans) with ⟨before, behind, rfl, here⟩
  rw [← reads.eq, found, Option.some.injEq] at here
  rw [here, length_stray_closed]
  exact .outside reads.suffix (by omega)

theorem sources_inserted (inner lead : Text) (spans : List (Span × Text)) :
    sources ((.inserted inner, lead) :: spans) =
      "\x7b++".toList ++ (inner ++ ("++\x7d".toList ++ (lead ++ sources spans))) := by
  simp [sources, Span.source]

theorem exists_sources_eq (item : Span × Text) (spans : List (Span × Text)) :
    ∃ tail, sources (item :: spans) = '\x7b' :: tail := by
  rcases item with ⟨span, text⟩
  cases span with
  | deleted inner => exact ⟨_, rfl⟩
  | inserted inner => exact ⟨_, rfl⟩

/-- No closing marker begins in a text and ends in the span behind it. -/
theorem behind_sources (unclosed : ¬"--\x7d".toList <:+: lead) (item : Span × Text)
    (spans : List (Span × Text)) :
    Text.behind "--\x7d".toList (lead ++ sources (item :: spans)) =
      Text.behind "--\x7d".toList (sources (item :: spans)) := by
  rcases exists_sources_eq item spans with ⟨tail, whole⟩
  have past : Text.behind "--\x7d".toList (lead ++ '\x7b' :: tail) =
      Text.behind "--\x7d".toList tail :=
    Text.behind_append_cons (by decide) (by decide) unclosed
  rw [whole, past, Text.behind_of_not_lead (by simp)]

/-- Where a deletion that is open ends, no more is kept than before. -/
theorem keepsAtMost_behind (reads : Reads text lead spans) (clear : ¬DeletionsOverlap text)
    (found : Text.behind "--\x7d".toList text = some after) :
    KeepsAtMost after ((stray.sub lead).length + (stripped spans).length) := by
  induction spans generalizing text lead with
  | nil =>
      have whole := reads.eq
      rw [sources, List.flatMap_nil, List.append_nil] at whole
      refine keepsAtMost_behind_lead reads ?_ found
      by_contra unclosed
      rw [whole, Text.behind, Text.breakOn_eq_none_iff.mpr unclosed] at found
      cases found
  | cons item rest ih =>
      by_cases closed : "--\x7d".toList <:+: lead
      · exact keepsAtMost_behind_lead reads closed found
      · rw [reads.eq, behind_sources closed] at found
        have within : sources (item :: rest) <:+: text := by
          rw [reads.eq]
          exact (List.suffix_append _ _).isInfix
        have later := reads.later
        rcases item with ⟨span, next⟩
        cases span with
        | deleted inner =>
            rcases later.closes_deleted with ⟨whole, closes⟩
            have first := Pattern.behind_drop_opening (by decide)
              (fun overlap => clear (Pattern.Overlapping.mono overlap within))
              ⟨_, whole.symm⟩
            rw [found, whole, List.drop_left, Text.behind, closes] at first
            obtain rfl : next ++ sources rest = after := by simpa using first
            rw [length_stripped_deleted]
            exact .outside later.next (by omega)
        | inserted inner =>
            rw [sources_inserted, Text.behind_append (by decide) (by simp)] at found
            rw [length_stripped_inserted]
            by_cases inInsertion : "--\x7d".toList <:+: inner
            · rcases Text.behind_append_of_infix inInsertion
                ("++\x7d".toList ++ (next ++ sources rest)) with ⟨before, behind, rfl, here⟩
              rw [found, Option.some.injEq] at here
              rw [here, length_stray_closed]
              exact .inside later.next (by omega)
            · rw [behind_over_insertion inInsertion] at found
              have inner : next ++ sources rest <:+: text := by
                rw [sources_inserted] at within
                exact (List.suffix_append_of_suffix (List.suffix_append_of_suffix
                  (List.suffix_append _ _))).isInfix.trans within
              refine (ih later.next (fun overlap => clear (overlap.mono inner)) found).mono ?_
              omega

/-- A deletion that is opened in an insertion. -/
theorem length_deletion_opened {opened behind : Text} (reads : Reads after lead spans)
    (clear : ¬DeletionsOverlap (opened ++ ("++\x7d".toList ++ after)))
    (found : Text.behind "--\x7d".toList (opened ++ ("++\x7d".toList ++ after)) = some behind)
    (shorter : ∀ {count}, ¬DeletionsOverlap behind → KeepsAtMost behind count →
      (stray.sub (deletion.sub behind)).length ≤ count) :
    (stray.sub (deletion.sub behind)).length ≤
      (stray.sub opened).length + ((stray.sub lead).length + (stripped spans).length) := by
  have clearBehind : ¬DeletionsOverlap behind := by
    rcases Text.eq_of_behind found with ⟨before, whole⟩
    rw [whole] at clear
    exact fun overlap => clear (overlap.mono (List.suffix_append _ _).isInfix)
  by_cases closed : "--\x7d".toList <:+: opened
  · rcases Text.behind_append_of_infix closed ("++\x7d".toList ++ after) with
      ⟨before, rest, rfl, here⟩
    rw [found, Option.some.injEq] at here
    have keeps : KeepsAtMost behind ((stray.sub rest).length +
        ((stray.sub lead).length + (stripped spans).length)) := by
      rw [here]
      exact .inside reads (Nat.le_refl _)
    have bound := shorter clearBehind keeps
    rw [length_stray_closed]
    omega
  · rw [behind_over_insertion closed] at found
    have clearAfter : ¬DeletionsOverlap after := fun overlap => clear
      (overlap.mono (List.suffix_append_of_suffix (List.suffix_append _ _)).isInfix)
    have bound := shorter clearBehind (keepsAtMost_behind reads clearAfter found)
    omega

/-- The deletions on a text that begins in an insertion, of which some is passed already. -/
theorem length_deletion_inside {passed added : Text} (reads : Reads after lead spans)
    (clear : ¬DeletionsOverlap (added ++ ("++\x7d".toList ++ after)))
    (shorter : ∀ {text count}, text.length < (added ++ ("++\x7d".toList ++ after)).length →
      ¬DeletionsOverlap text → KeepsAtMost text count →
        (stray.sub (deletion.sub text)).length ≤ count) :
    (stray.sub (passed ++ deletion.sub (added ++ ("++\x7d".toList ++ after)))).length ≤
      (stray.sub (passed ++ added)).length +
        ((stray.sub lead).length + (stripped spans).length) := by
  induction added generalizing passed with
  | nil =>
      have clearAfter : ¬DeletionsOverlap after := fun overlap => clear
        (overlap.mono (List.suffix_append_of_suffix (List.suffix_append _ _)).isInfix)
      have rest := shorter (by simp only [List.length_append]; simp) clearAfter
        (.outside reads (Nat.le_refl _))
      have step := length_stray_append_le passed (Marker.insClose.text ++ deletion.sub after)
      rw [stray_marker] at step
      rw [List.nil_append, deletion_insClose, List.append_nil]
      exact step.trans (Nat.add_le_add_left rest _)
  | cons char added ih =>
      rw [List.cons_append] at clear shorter ⊢
      cases matched : deletion.step (char :: (added ++ ("++\x7d".toList ++ after))) with
      | none =>
          have within : added ++ ("++\x7d".toList ++ after) <:+:
              char :: (added ++ ("++\x7d".toList ++ after)) := (List.suffix_cons _ _).isInfix
          have inner := @ih (passed ++ [char]) (fun overlap => clear (overlap.mono within))
            fun short => shorter (by simp only [List.length_cons]; omega)
          rw [Pattern.sub_of_none matched]
          simpa using inner
      | some found =>
          rcases found with ⟨replacement, behind⟩
          rcases Pattern.eq_of_between matched with ⟨inner, split, closes, rfl⟩
          have opens : "\x7b--".toList <+: char :: added := by
            have lead : "\x7b--".toList <+:
                (char :: added) ++ '+' :: ("+\x7d".toList ++ after) := ⟨_, split.symm⟩
            exact Text.prefix_of_append_cons (by decide) lead
          rcases opens with ⟨opened, whole⟩
          have whole' : char :: (added ++ ("++\x7d".toList ++ after)) =
              "\x7b--".toList ++ (opened ++ ("++\x7d".toList ++ after)) := by
            rw [← List.cons_append, ← whole, List.append_assoc]
          rw [whole', List.append_cancel_left_eq] at split
          have kept : stray.sub (passed ++ char :: added) =
              stray.sub passed ++ stray.sub opened := by
            rw [← whole]
            exact @stray_append_opening .delOpen (.inl rfl) passed opened
          have found : Text.behind "--\x7d".toList (opened ++ ("++\x7d".toList ++ after)) =
              some behind := by
            rw [split, Text.behind, closes]
            rfl
          rw [whole'] at clear
          have bound := length_deletion_opened reads
            (fun overlap => clear (overlap.mono (List.suffix_append _ _).isInfix)) found
            (shorter (deletion.shorter matched))
          have step := length_stray_append_le passed (deletion.sub behind)
          rw [Pattern.sub_of_some matched, List.nil_append, kept, List.length_append]
          omega

/-- What the deletions leave is, once it is stripped, not longer than the texts that the page
keeps are when they are stripped one by one. -/
theorem length_deletion_le (clear : ¬DeletionsOverlap text) (keeps : KeepsAtMost text count) :
    (stray.sub (deletion.sub text)).length ≤ count := by
  induction length : text.length using Nat.strong_induction_on generalizing text count with
  | _ length' ih =>
      subst length
      cases keeps with
      | @inside added after lead spans count reads atMost =>
          have bound := @length_deletion_inside _ _ _ [] added reads clear
            fun short clear keeps => ih _ short clear keeps rfl
          rw [List.nil_append, List.nil_append] at bound
          omega
      | @outside _ lead spans count reads atMost =>
          have step := length_stray_append_le lead (deletion.sub (sources spans))
          have whole := reads.eq
          have later := reads.later
          have clearLater : ¬DeletionsOverlap (sources spans) := fun overlap => clear
            (overlap.mono (whole ▸ (List.suffix_append _ _).isInfix))
          rw [deletion_lead reads]
          cases spans with
          | nil => simpa [sources] using step.trans atMost
          | cons item rest =>
              rcases item with ⟨span, next⟩
              cases span with
              | deleted inner =>
                  have split := later.closes_deleted.1
                  have clearNext : ¬DeletionsOverlap (next ++ sources rest) := by
                    rw [split] at clearLater
                    exact fun overlap => clearLater (overlap.mono (List.suffix_append_of_suffix
                      (List.suffix_append_of_suffix (List.suffix_append _ _))).isInfix)
                  have shorter : (next ++ sources rest).length < text.length := by
                    have opening : 0 < "\x7b--".toList.length := by decide
                    rw [whole, split]
                    simp only [List.length_append]
                    omega
                  have bound := ih _ shorter clearNext (.outside later.next (Nat.le_refl _)) rfl
                  rw [deletion_deleted later] at step ⊢
                  rw [length_stripped_deleted] at atMost
                  omega
              | inserted inner =>
                  have split := sources_inserted inner next rest
                  rw [split] at clearLater whole step ⊢
                  have clearInside : ¬DeletionsOverlap
                      (inner ++ ("++\x7d".toList ++ (next ++ sources rest))) := fun overlap =>
                    clearLater (overlap.mono (List.suffix_append _ _).isInfix)
                  have shorter : (inner ++ ("++\x7d".toList ++ (next ++ sources rest))).length <
                      text.length := by
                    have opening : 0 < "\x7b++".toList.length := by decide
                    rw [whole]
                    simp only [List.length_append]
                    omega
                  have bound := ih _ shorter clearInside (.inside later.next (Nat.le_refl _)) rfl
                  have opened : ∀ text, stray.sub ("\x7b++".toList ++ text) = stray.sub text :=
                    stray_marker .insOpen
                  rw [deletion_insOpen, opened] at step
                  rw [deletion_insOpen]
                  rw [length_stripped_inserted] at atMost
                  omega

end Deletions

/-! ## What the insertions leave -/

section Insertions

variable {text rest lead inner after : Text} {spans : List (Span × Text)} {marker : Marker}

/-- The markers of an insertion are two that the last pass would find. -/
theorem length_stray_insertion (before added after : Text) :
    (stray.sub (before ++ added)).length + (stray.sub after).length ≤
      (stray.sub
        (before ++ ("\x7b++".toList ++ (added ++ ("++\x7d".toList ++ after))))).length := by
  have opened : stray.sub (before ++ ("\x7b++".toList ++ (added ++ ("++\x7d".toList ++ after)))) =
      stray.sub before ++ stray.sub (added ++ ("++\x7d".toList ++ after)) :=
    @stray_append_opening .insOpen (.inr rfl) before _
  have closed : stray.sub (added ++ ("++\x7d".toList ++ after)) =
      stray.sub (added ++ "++\x7d".toList) ++ stray.sub after := by
    rw [← List.append_assoc]
    exact stray_of_lex_append (lex_append_of_closed (by simp))
  have kept : (stray.sub added).length ≤ (stray.sub (added ++ "++\x7d".toList)).length :=
    length_stray_le_append_marker added .insClose
  have step := length_stray_append_le before added
  rw [opened, closed, List.length_append, List.length_append]
  omega

/-- The second pass takes no more than the last one would. -/
theorem length_insertion_le (before text : Text) :
    (stray.sub (before ++ insertion.sub text)).length ≤ (stray.sub (before ++ text)).length := by
  induction length : text.length using Nat.strong_induction_on generalizing before text with
  | _ length' ih =>
      subst length
      cases text with
      | nil => exact Nat.le_refl _
      | cons char rest =>
          cases matched : insertion.step (char :: rest) with
          | none =>
              have bound := ih rest.length (by simp) (before ++ [char]) rest rfl
              rw [Pattern.sub_of_none matched]
              simpa using bound
          | some found =>
              rcases found with ⟨replacement, after⟩
              have bound := ih after.length (insertion.shorter matched) (before ++ replacement)
                after rfl
              rcases Pattern.eq_of_between matched with ⟨added, split, _, rfl⟩
              have taken := length_stray_insertion before replacement after
              have step := length_stray_append_le (before ++ replacement) after
              rw [Pattern.sub_of_some matched, split, ← List.append_assoc before]
              omega

/-- The texts that the deletions leave, one for each insertion and one for each text. -/
def leftOf : Span × Text → List Text
  | (.deleted _, text) => [text]
  | (.inserted added, text) => [(Span.inserted added).source, text]

/-- No place where the marker stands begins in one of the texts and ends in the next ones. -/
def Unbroken (marker : Marker) : List Text → Prop
  | [] => True
  | text :: rest =>
      (∀ front back, marker.text = front ++ back → front ≠ [] → back ≠ [] → front <:+ text →
        ¬back <+: rest.flatten) ∧ Unbroken marker rest

theorem Unbroken.suffix {front back : Text} {pieces : List Text}
    (unbroken : Unbroken marker ((front ++ back) :: pieces)) : Unbroken marker (back :: pieces) :=
  ⟨fun first second same nonempty proper ends =>
    unbroken.1 first second same nonempty proper (ends.trans (List.suffix_append _ _)),
    unbroken.2⟩

/-- A marker of texts that break none lies in one of them. -/
theorem Unbroken.exists_infix {pieces : List Text} (unbroken : Unbroken marker pieces)
    (found : marker.text <:+: pieces.flatten) : ∃ piece ∈ pieces, marker.text <:+: piece := by
  induction pieces with
  | nil => exact absurd (List.infix_nil.mp found) marker.text_ne_nil
  | cons piece rest ih =>
      rcases List.infix_append_iff_ne_nil.mp found with here | later | across
      · exact ⟨piece, by simp, here⟩
      · rcases ih unbroken.2 later with ⟨other, member, within⟩
        exact ⟨other, by simp [member], within⟩
      · rcases across with ⟨front, back, frontNonempty, backNonempty, same, ends, starts⟩
        exact absurd starts (unbroken.1 front back same frontNonempty backNonempty ends)

/-- Texts that lose nothing by being put end to end break no marker of an insertion. -/
theorem unbroken_of_length {pieces : List Text} (clear : ¬InsertionsOverlap pieces.flatten)
    (enough : (pieces.flatMap stray.sub).length ≤ (stray.sub pieces.flatten).length)
    (isInsertion : marker = .insOpen ∨ marker = .insClose) : Unbroken marker pieces := by
  induction pieces with
  | nil => trivial
  | cons piece rest ih =>
      have step := length_stray_append_le piece rest.flatten
      have later := length_stray_flatten_le rest
      rw [List.flatMap_cons, List.length_append, List.flatten_cons] at enough
      rw [List.flatten_cons] at clear
      refine ⟨?_, ih (fun overlap => clear (overlap.mono (List.suffix_append _ _).isInfix))
        (by omega)⟩
      intro front back spelled begins ends inPiece inRest
      have less := length_stray_lt_of_across isInsertion spelled begins ends clear inPiece inRest
      omega

/-- No deletion starts in an insertion without markers. -/
theorem deletion_inserted (added more : Text) (unmarked : ¬"\x7b--".toList <:+: added) :
    deletion.sub ((Span.inserted added).source ++ more) =
      (Span.inserted added).source ++ deletion.sub more := by
  apply Pattern.sub_append_of_none
  intro later ends nonempty
  apply Pattern.between_of_not_lead
  intro lead
  have plus : '+' ∉ "\x7b--".toList := by decide
  have last : ∃ front, later = front ++ ['\x7d'] ∧
      front <:+ '\x7b' :: '+' :: '+' :: (added ++ ['+', '+']) := by
    have whole : (Span.inserted added).source =
        ('\x7b' :: '+' :: '+' :: (added ++ ['+', '+'])) ++ ['\x7d'] := by
      simp [Span.source]
    rw [whole] at ends
    rcases List.suffix_concat_iff.mp ends with empty | ⟨front, same, suffix⟩
    · exact absurd empty nonempty
    · exact ⟨front, same, suffix⟩
  rcases last with ⟨front, rfl, suffix⟩
  rw [List.append_assoc] at lead
  have within : "\x7b--".toList <:+: '\x7b' :: '+' :: '+' :: (added ++ ['+', '+']) :=
    (Text.prefix_of_append_cons (by decide) lead).isInfix.trans suffix.isInfix
  have cut : "\x7b--".toList <:+: ['\x7b'] ++ '+' :: '+' :: (added ++ ['+', '+']) := within
  rcases Text.infix_of_append_cons plus cut with short | later
  · exact absurd short (by decide)
  · rcases Text.infix_of_append_cons plus (Text.infix_of_cons plus later) with inAdded | short
    · exact unmarked inAdded
    · exact absurd short (by decide)

theorem deletion_of_reads (reads : Reads text lead spans) (unmarked : Unmarked spans) :
    deletion.sub text = (lead :: spans.flatMap leftOf).flatten := by
  induction reads with
  | nil => rfl
  | @char first rest lead spans outside reads ih =>
      have unmatched : deletion.step (first :: rest) = none :=
        Pattern.between_of_not_closed (not_or.mp (spanStarts_iff.not.mp outside)).1
      rw [Pattern.sub_of_none unmatched, ih unmarked]
      rfl
  | @deleted rest inner after lead spans closes reads ih =>
      have matched : deletion.step ("\x7b--".toList ++ rest) = some ([], after) := by
        rw [deletion, Pattern.between_of_lead (List.prefix_append _ _), List.drop_left, closes]
        rfl
      rw [Pattern.sub_of_step matched, ih (List.forall_mem_cons.mp unmarked).2]
      rfl
  | @inserted rest inner after lead spans closes reads ih =>
      rcases List.forall_mem_cons.mp unmarked with ⟨own, others⟩
      have clear : ¬"\x7b--".toList <:+: inner := own .delOpen
      have whole : "\x7b++".toList ++ rest = (Span.inserted inner).source ++ after := by
        rw [Text.eq_of_breakOn closes]
        simp [Span.source]
      rw [whole, deletion_inserted inner after clear, ih others]
      simp [leftOf]

theorem infix_of_mem_left {piece : Text} (member : piece ∈ spans.flatMap leftOf) :
    piece <:+: sources spans := by
  rcases List.mem_flatMap.mp member with ⟨⟨span, text⟩, isItem, inItem⟩
  have within : span.source ++ text <:+: sources spans := by
    rcases List.append_of_mem isItem with ⟨before, after, rfl⟩
    exact ⟨sources before, sources after, by simp [sources]⟩
  cases span with
  | deleted removed =>
      rw [List.mem_singleton.mp inItem]
      exact (List.suffix_append _ _).isInfix.trans within
  | inserted added =>
      rcases List.mem_pair.mp inItem with rfl | rfl
      · exact (List.prefix_append _ _).isInfix.trans within
      · exact (List.suffix_append _ _).isInfix.trans within

/-- Where no span starts, the insertions find nothing in what the deletions left. -/
theorem insertion_none {first : Char} (outside : ¬SpanStarts (first :: rest))
    (reads : Reads rest lead spans)
    (opens : Unbroken .insOpen ((first :: lead) :: spans.flatMap leftOf))
    (closes : Unbroken .insClose ((first :: lead) :: spans.flatMap leftOf)) :
    insertion.step (first :: (lead :: spans.flatMap leftOf).flatten) = none := by
  apply Pattern.between_of_not_closed
  rintro ⟨behind, whole, within⟩
  have starts : Marker.insOpen.text <+: (first :: lead) ++ (spans.flatMap leftOf).flatten :=
    ⟨behind, whole.symm⟩
  have inLead : Marker.insOpen.text <+: first :: lead := by
    rcases List.prefix_or_prefix_of_prefix starts (List.prefix_append _ _) with
      here | ⟨back, across⟩
    · exact here
    · by_cases empty : back = []
      · rw [← across, empty, List.append_nil]
      · rw [← across, List.prefix_append_right_inj] at starts
        exact absurd starts (opens.1 _ back across.symm (by simp) empty (List.suffix_refl _))
  rcases inLead with ⟨third, split⟩
  rw [← split] at closes
  have remains : behind = (third :: spans.flatMap leftOf).flatten := by
    have same : Marker.insOpen.text ++ (third :: spans.flatMap leftOf).flatten =
        Marker.insOpen.text ++ behind := by
      rw [List.flatten_cons, ← List.append_assoc, split]
      exact whole
    exact (List.append_cancel_left same).symm
  rw [remains] at within
  rcases closes.suffix.exists_infix within with ⟨piece, member, found⟩
  apply outside
  rw [spanStarts_iff, reads.eq]
  refine .inr ⟨third ++ sources spans, ?_, ?_⟩
  · rw [← List.cons_append, ← split, List.append_assoc]
    rfl
  · rcases List.mem_cons.mp member with rfl | later
    · exact List.IsInfix.trans found (List.prefix_append _ _).isInfix
    · exact (found.trans (infix_of_mem_left later)).trans (List.suffix_append _ _).isInfix

theorem joined_cons (char : Char) (lead : Text) (spans : List (Span × Text)) :
    joined (char :: lead) spans = Pattern.pushChar char (joined lead spans) := by
  induction spans generalizing lead with
  | nil => rfl
  | cons item rest ih =>
      rcases item with ⟨span, text⟩
      cases span with
      | deleted removed => exact ih (lead ++ text)
      | inserted added => rfl

/-- If no marker of an insertion is broken, the insertions of the page are found. -/
theorem insertion_split (reads : Reads text lead spans)
    (opens : Unbroken .insOpen (lead :: spans.flatMap leftOf))
    (closes : Unbroken .insClose (lead :: spans.flatMap leftOf)) :
    insertion.split (lead :: spans.flatMap leftOf).flatten = joined lead spans := by
  induction reads with
  | nil => rfl
  | @char first rest lead spans outside reads ih =>
      have unmatched := insertion_none outside reads opens closes
      have later := ih (@Unbroken.suffix _ [first] lead _ opens)
        (@Unbroken.suffix _ [first] lead _ closes)
      rw [joined_cons, ← later]
      exact Pattern.split_of_none unmatched
  | deleted closed reads ih => exact ih opens.2 closes.2
  | @inserted rest inner after lead spans closed reads ih =>
      have matched : insertion.step ("\x7b++".toList ++
          (inner ++ ("++\x7d".toList ++ (lead :: spans.flatMap leftOf).flatten))) =
            some (inner, (lead :: spans.flatMap leftOf).flatten) := by
        rw [insertion, Pattern.between_of_lead (List.prefix_append _ _), List.drop_left,
          Text.breakOn_replace (by decide) _ closed]
        rfl
      have whole : ([] :: ((Span.inserted inner, lead) :: spans).flatMap leftOf).flatten =
          "\x7b++".toList ++
            (inner ++ ("++\x7d".toList ++ (lead :: spans.flatMap leftOf).flatten)) := by
        simp [leftOf, Span.source]
      rw [whole, Pattern.split_of_step matched, ih opens.2.2 closes.2.2]
      rfl

theorem length_left_le (spans : List (Span × Text)) :
    ((spans.flatMap leftOf).flatMap stray.sub).length ≤ (stripped spans).length := by
  induction spans with
  | nil => exact Nat.le_refl _
  | cons item rest ih =>
      rcases item with ⟨span, text⟩
      cases span with
      | deleted removed =>
          rw [length_stripped_deleted]
          simpa [leftOf] using ih
      | inserted added =>
          have opened : stray.sub (Span.inserted added).source =
              stray.sub (added ++ Marker.insClose.text) := by
            rw [Span.source, List.append_assoc]
            exact stray_marker .insOpen _
          have closed := length_stray_append_le added Marker.insClose.text
          have nothing : stray.sub Marker.insClose.text = [] := by decide
          rw [nothing, List.length_nil] at closed
          rw [length_stripped_inserted]
          simp only [leftOf, List.flatMap_cons, List.flatMap_append, List.flatMap_nil,
            List.length_append, List.length_nil, opened] at ih ⊢
          omega

/-- If nothing goes lost on the way, the insertions of the page are found. -/
theorem finds_of_length (reads : Reads text lead spans) (unmarked : Unmarked spans)
    (clear : ¬InsertionsOverlap (deletion.sub text))
    (enough : (stray.sub lead).length + (stripped spans).length ≤
      (stray.sub (deletion.sub text)).length) : FindsInsertions text lead spans := by
  have left := length_left_le spans
  rw [FindsInsertions]
  rw [deletion_of_reads reads unmarked] at clear enough ⊢
  have pieces : ((lead :: spans.flatMap leftOf).flatMap stray.sub).length ≤
      (stray.sub (lead :: spans.flatMap leftOf).flatten).length := by
    rw [List.flatMap_cons, List.length_append]
    omega
  exact insertion_split reads (unbroken_of_length clear pieces (.inl rfl))
    (unbroken_of_length clear pieces (.inr rfl))

end Insertions

/-! ## Where no markers overlap -/

/-- No deletion's opening marker shares characters with a closing one, and no insertion's does
when the deletions are made. -/
structure MarkersDisjoint (redline : Text) : Prop where
  deletions : ¬DeletionsOverlap redline
  insertions : ¬InsertionsOverlap (deletion.sub redline)

theorem resolvable_of_disjoint {text : Text} (disjoint : MarkersDisjoint text)
    (same : pageText text = cleanRevision (some text)) : Resolvable text := by
  rcases exists_reads text with ⟨lead, spans, reads⟩
  have deleted := length_deletion_le disjoint.deletions (.outside reads (Nat.le_refl _))
  have inserted := length_insertion_le [] (deletion.sub text)
  have page := congrArg List.length same
  rw [cleanRevision_some, pageText_of_reads reads, List.length_append] at page
  rw [List.nil_append, List.nil_append] at inserted
  have unmarked : Unmarked spans := unmarked_of_length (by omega)
  have finds : FindsInsertions text lead spans := by
    refine finds_of_length reads unmarked disjoint.insertions ?_
    rw [stripped_of_unmarked unmarked]
    omega
  exact resolvable_of_finds reads finds same

/-- The insertions that the download finds in a redline are the ones that the page shows. -/
def InsertionsFound (redline : Text) : Prop :=
  ∃ lead spans, Reads redline lead spans ∧ FindsInsertions redline lead spans

/-- The page and the download agree on every resolvable redline, and on no other one in which
the same insertions are found or no markers overlap. -/
theorem pageText_eq_cleanRevision (text : Text) :
    (Resolvable text → pageText text = cleanRevision (some text)) ∧
      (InsertionsFound text ∨ MarkersDisjoint text →
        (pageText text = cleanRevision (some text) ↔ Resolvable text)) := by
  refine ⟨pageText_of_resolvable, fun either => ⟨fun same => ?_, pageText_of_resolvable⟩⟩
  rcases either with ⟨lead, spans, reads, finds⟩ | disjoint
  · exact resolvable_of_finds reads finds same
  · exact resolvable_of_disjoint disjoint same

-- Overlapping markers can make up for each other: the insertions pair a marker that the page
-- takes for a brace, and leave one that shares characters with the next.
example : pageText "\x7b++\x7b++\x7b--y--\x7d\x7d--\x7d".toList =
    cleanRevision (some "\x7b++\x7b++\x7b--y--\x7d\x7d--\x7d".toList) := by
  decide +kernel

/-- A deletion inside an insertion is shown with its markers, and downloaded without. -/
theorem pageText_nested :
    pageText "\x7b++a\x7b--b--\x7dc++\x7d".toList = "a\x7b--b--\x7dc".toList ∧
      cleanRevision (some "\x7b++a\x7b--b--\x7dc++\x7d".toList) = "ac".toList ∧
      pageText "\x7b++a\x7b--b--\x7dc++\x7d".toList ≠
        cleanRevision (some "\x7b++a\x7b--b--\x7dc++\x7d".toList) := by
  decide +kernel

end OrcaValidator
