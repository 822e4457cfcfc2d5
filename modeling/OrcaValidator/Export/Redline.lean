import OrcaValidator.Library.Markup

/-!
# The accepted revision

`clean_revision`: deletions are dropped, insertions are kept without their markers, and
whatever markers are left over are removed.  The redline is assembled from the replies
for the sections of the document, and each of the three passes runs over the whole of
it.

A deletion that one section leaves open reaches for the closing marker of a later one and
takes along what stands between them.  An insertion that does so only loses its markers,
which the last pass would remove anyway; this makes a difference only where a marker is
put together from the characters around them.
-/

namespace OrcaValidator

open Library

/-- `_DEL`, replaced by nothing. -/
def deletion : Pattern :=
  Pattern.between "\x7b--".toList "--\x7d".toList (fun _ => []) (by decide)

/-- `_INS`, replaced by what was added. -/
def insertion : Pattern :=
  Pattern.between "\x7b++".toList "++\x7d".toList (fun added => added) (by decide)

/-- `_STRAY`. -/
def stray : Pattern :=
  Pattern.markers ["\x7b--".toList, "--\x7d".toList, "\x7b++".toList, "++\x7d".toList] (by decide)

/-- `clean_revision`. -/
def cleanRevision (redline : Option Text) : Text :=
  match redline with
  | none => []
  | some text => if text = [] then [] else stray.sub (insertion.sub (deletion.sub text))

/-- What stands between two sections. -/
def sectionBreak : Text := "\n\n".toList

/-- `"\n\n".join(p for p in parts if p)`. -/
def assembleSections (parts : List Text) : Text :=
  List.intercalate sectionBreak (parts.filter fun part => part ≠ [])

/-- The text leaves a deletion open. -/
def OpenDeletion (part : Text) : Prop :=
  Pattern.LeavesOpen "\x7b--".toList "--\x7d".toList (fun _ => []) (by decide) part

/-- The text leaves an insertion open. -/
def OpenInsertion (part : Text) : Prop :=
  Pattern.LeavesOpen "\x7b++".toList "++\x7d".toList (fun added => added) (by decide) part

/-- No insertion marker follows a character that another marker could go on from. -/
def InsertionsApart (part : Text) : Prop :=
  Pattern.Apart "\x7b++".toList "++\x7d".toList "\x7b-+".toList part

/-- No section that leaves a deletion open is followed by one that closes it.  The same
holds of insertions in what the deletions leave of each section, or their markers stand
apart there. -/
structure Independent (sections : List Text) : Prop where
  deletions : sections.Pairwise fun earlier later =>
    OpenDeletion earlier → ¬"--\x7d".toList <:+: later
  insertions : ((sections.map deletion.sub).Pairwise fun earlier later =>
      OpenInsertion earlier → ¬"++\x7d".toList <:+: later) ∨
    ∀ part ∈ sections, InsertionsApart (deletion.sub part)

/-- A section in which no two markers share a character or touch. -/
structure Tidy (part : Text) : Prop where
  deletions : ∀ shared ∈ ["\x7b--\x7d".toList, "\x7b---\x7d".toList], ¬shared <:+: part
  insertions : InsertionsApart (deletion.sub part)

instance (part : Text) : Decidable (InsertionsApart part) :=
  inferInstanceAs (Decidable (Pattern.Apart _ _ _ _))

instance (part : Text) : Decidable (Tidy part) :=
  decidable_of_iff ((∀ shared ∈ ["\x7b--\x7d".toList, "\x7b---\x7d".toList],
    ¬shared <:+: part) ∧ InsertionsApart (deletion.sub part))
    ⟨fun both => ⟨both.1, both.2⟩, fun tidy => ⟨tidy.deletions, tidy.insertions⟩⟩

/-- The sections of a redline are resolved independently. -/
def Sectionwise (sections : List Text) : Prop :=
  cleanRevision (some (assembleSections sections)) =
    List.intercalate sectionBreak (sections.map fun part => cleanRevision (some part))

instance : DecidablePred Sectionwise := fun _ => inferInstanceAs (Decidable (_ = _))

theorem cleanRevision_some (text : Text) :
    cleanRevision (some text) = stray.sub (insertion.sub (deletion.sub text)) := by
  cases text with
  | nil => rfl
  | cons char rest => rfl

theorem assembleSections_of_nonempty {sections : List Text}
    (nonempty : ∀ part ∈ sections, part ≠ []) :
    assembleSections sections = List.intercalate sectionBreak sections := by
  have whole : sections.filter (fun part => part ≠ []) = sections :=
    List.filter_eq_self.mpr fun part member => decide_eq_true (nonempty part member)
  rw [assembleSections, whole]

theorem stray_intercalate (parts : List Text) :
    stray.sub (List.intercalate sectionBreak parts) =
      List.intercalate sectionBreak (parts.map stray.sub) :=
  Pattern.sub_markers_intercalate _ (by decide) (Text.forall_of_all (by decide))

/-- Insertion markers that stand apart are all removed, paired or not. -/
theorem stray_insertion {text : Text} (apart : InsertionsApart text) :
    stray.sub (insertion.sub text) = stray.sub text :=
  Pattern.sub_markers_sub_between (by decide) (by decide) (by decide) (by decide) apart

theorem insertionsApart_intercalate {parts : List Text}
    (apart : ∀ part ∈ parts, InsertionsApart part) :
    InsertionsApart (List.intercalate sectionBreak parts) := by
  have newline : ∀ char ∈ sectionBreak, char = '\n' := Text.forall_of_all (by decide)
  have jointForeign : '\n' ∉ "\x7b-+".toList := by decide
  have markerForeign : ∀ marker ∈ ["\x7b++".toList, "++\x7d".toList], '\n' ∉ marker := by decide
  intro marker member joint jointMem found
  have foreign : ∀ char ∈ sectionBreak, char ∉ joint :: marker := by
    intro char charMem
    rw [newline char charMem, List.mem_cons, not_or]
    refine ⟨?_, markerForeign marker member⟩
    rintro rfl
    exact jointForeign jointMem
  rcases Text.exists_infix_of_intercalate (by simp) (by decide) foreign found with
    ⟨part, partMem, within⟩
  exact apart part partMem marker member joint jointMem within

theorem sectionwise_of_independent {sections : List Text}
    (nonempty : ∀ part ∈ sections, part ≠ []) (independent : Independent sections) :
    Sectionwise sections := by
  have proper : sectionBreak ≠ [] := by decide
  have deletions : deletion.sub (List.intercalate sectionBreak sections) =
      List.intercalate sectionBreak (sections.map deletion.sub) :=
    Pattern.sub_between_intercalate (by decide) proper (Text.forall_of_all (by decide))
      (Text.forall_of_all (by decide)) independent.deletions
  have insertions : stray.sub (insertion.sub
        (List.intercalate sectionBreak (sections.map deletion.sub))) =
      List.intercalate sectionBreak
        ((sections.map deletion.sub).map fun part => stray.sub (insertion.sub part)) := by
    rcases independent.insertions with closed | apart
    · have passed : insertion.sub (List.intercalate sectionBreak (sections.map deletion.sub)) =
          List.intercalate sectionBreak ((sections.map deletion.sub).map insertion.sub) :=
        Pattern.sub_between_intercalate (by decide) proper (Text.forall_of_all (by decide))
          (Text.forall_of_all (by decide)) closed
      rw [passed, stray_intercalate, List.map_map]
      rfl
    · have each : ∀ part ∈ sections.map deletion.sub, InsertionsApart part := by
        intro part member
        rcases List.mem_map.mp member with ⟨original, originalMem, rfl⟩
        exact apart original originalMem
      rw [stray_insertion (insertionsApart_intercalate each), stray_intercalate]
      congr 1
      apply List.map_congr_left
      intro part member
      exact (stray_insertion (each part member)).symm
  rw [Sectionwise, assembleSections_of_nonempty nonempty, cleanRevision_some, deletions,
    insertions, List.map_map]
  simp only [Function.comp_def, cleanRevision_some]

/-- After the deletions no newline is lost. -/
theorem count_cleanRevision (text : Text) :
    (cleanRevision (some text)).count '\n' = (deletion.sub text).count '\n' := by
  rw [cleanRevision_some, stray, Pattern.count_sub_markers (by decide), insertion,
    Pattern.count_sub_between (by decide) (by decide)]

theorem not_overlapping_of_tidy {part : Text} (tidy : Tidy part) :
    ¬Pattern.Overlapping "\x7b--".toList "--\x7d".toList part := by
  rintro ⟨front, shared, back, nonempty, first, last, found⟩
  have opening : front ++ shared = ['\x7b', '-', '-'] := first.symm
  have closing : shared ++ back = ['-', '-', '\x7d'] := last.symm
  rcases List.append_eq_cons_iff.mp opening with ⟨rfl, rfl⟩ | ⟨behind, rfl, dashes⟩
  · simp at closing
  rcases List.append_eq_cons_iff.mp dashes.symm with ⟨rfl, rfl⟩ | ⟨behind, rfl, dash⟩
  · obtain rfl : back = ['\x7d'] := by simpa using closing
    exact tidy.deletions _ (by simp) found
  rcases List.append_eq_cons_iff.mp dash.symm with ⟨rfl, rfl⟩ | ⟨behind, rfl, nothing⟩
  · obtain rfl : back = ['-', '\x7d'] := by simpa using closing
    exact tidy.deletions _ (by simp) found
  · exact nonempty (List.append_eq_nil_iff.mp nothing.symm).2

theorem independent_of_sectionwise {sections : List Text}
    (nonempty : ∀ part ∈ sections, part ≠ []) (tidy : ∀ part ∈ sections, Tidy part)
    (sectionwise : Sectionwise sections) : Independent sections := by
  refine ⟨?_, .inr fun part member => (tidy part member).insertions⟩
  have clear : ∀ part ∈ sections,
      ¬Pattern.Overlapping "\x7b--".toList "--\x7d".toList part := by
    intro part member
    exact not_overlapping_of_tidy (tidy part member)
  have separated : (sections.Pairwise fun earlier later =>
        OpenDeletion earlier → ¬"--\x7d".toList <:+: later) ∨
      (deletion.sub (List.intercalate sectionBreak sections)).count '\n' <
        (List.intercalate sectionBreak (sections.map deletion.sub)).count '\n' :=
    Pattern.count_sub_intercalate (by decide) (by decide) (Text.forall_of_all (by decide))
      (by decide) (Text.forall_of_all (by decide)) (Text.forall_of_all (by decide)) clear
  rcases separated with apart | lost
  · exact apart
  · have counts := congrArg (List.count '\n') sectionwise
    rw [assembleSections_of_nonempty nonempty, count_cleanRevision] at counts
    have kept : (List.intercalate sectionBreak
        (sections.map fun part => cleanRevision (some part))).count '\n' =
        (List.intercalate sectionBreak (sections.map deletion.sub)).count '\n' := by
      apply Text.count_intercalate_congr
      simp only [List.map_map, Function.comp_def, count_cleanRevision]
    rw [counts, kept] at lost
    exact absurd lost (Nat.lt_irrefl _)

/-- Independent sections are resolved one by one, and for tidy sections nothing less will
do. -/
theorem cleanRevision_assembleSections {sections : List Text}
    (nonempty : ∀ part ∈ sections, part ≠ []) :
    (Independent sections → Sectionwise sections) ∧
      ((∀ part ∈ sections, Tidy part) → Sectionwise sections → Independent sections) :=
  ⟨sectionwise_of_independent nonempty, independent_of_sectionwise nonempty⟩

-- Markers that share characters can make up for a deletion across sections: the second
-- section opens one on its own and closes one in the joined text.
example : Sectionwise ["\x7b--".toList, "\x7b--\x7d\n\n--\x7d".toList] := by decide +kernel

/-- A deletion that is cut off in one section swallows the start of the next one. -/
theorem cleanRevision_swallows_section :
    (∀ part ∈ ["Fee: \x7b--ten".toList, "Term: one--\x7d year".toList], part ≠ []) ∧
      ¬Sectionwise ["Fee: \x7b--ten".toList, "Term: one--\x7d year".toList] := by
  decide +kernel

/-- An insertion that is cut off in one section and closed in the next does no harm. -/
theorem cleanRevision_assembleSections_insertion :
    Independent ["Fee: \x7b++ten".toList, "\x7b--one--\x7d two++\x7d years".toList] ∧
      Sectionwise ["Fee: \x7b++ten".toList, "\x7b--one--\x7d two++\x7d years".toList] := by
  have nonempty : ∀ part ∈ ["Fee: \x7b++ten".toList, "\x7b--one--\x7d two++\x7d years".toList],
      part ≠ [] := by
    decide
  have tidy : ∀ part ∈ ["Fee: \x7b++ten".toList, "\x7b--one--\x7d two++\x7d years".toList],
      Tidy part := by
    decide +kernel
  rcases cleanRevision_assembleSections nonempty with ⟨enough, needed⟩
  have independent := needed tidy (by decide +kernel)
  exact ⟨independent, enough independent⟩

end OrcaValidator
