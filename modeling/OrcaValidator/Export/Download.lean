import OrcaValidator.Export.Tokens

/-!
# What is left in a download

The last pass of `clean_revision` goes over the text once, from left to right.  The markers it
removes may stand between the characters of another one, and then the text that is downloaded
holds a marker.  No other seam does: a marker that is put together by the deletions or the
insertions is there when the last pass starts.
-/

namespace OrcaValidator

open Library

/-- The download of a redline holds no marker, and cleaning it again changes nothing. -/
structure CleanDownload (redline : Text) : Prop where
  unmarked : ∀ marker : Marker, ¬marker.text <:+: cleanRevision (some redline)
  settled : cleanRevision (some (cleanRevision (some redline))) = cleanRevision (some redline)

/-- The three characters of a marker stand in this order, with markers between them only. -/
def Scattered (tokens : List Token) : Prop :=
  ∃ marker : Marker, ∃ first second third, marker.text = [first, second, third] ∧
    ∃ between behind : List Marker,
      .char first :: (between.map .marker ++ .char second :: (behind.map .marker ++
        [.char third])) <:+: tokens

/-- The deletions are cut out, the insertions put in place, and what there is then is read from
the left: the markers in it scatter none. -/
def StraysApart (redline : Text) : Prop :=
  ¬Scattered (lex (insertion.sub (deletion.sub redline)))

/-- The character that a token is, if it is no marker. -/
def Token.char? : Token → Option Char
  | .char value => some value
  | .marker _ => none

section

variable {text redline : Text} {tokens : List Token}

/-- The last pass keeps the characters that are read as such. -/
theorem sub_stray_eq (text : Text) : stray.sub text = (lex text).filterMap Token.char? := by
  have lead : ∀ (marker : Marker) (rest : Text),
      stray.sub (marker.text ++ rest) = stray.sub rest := fun marker rest =>
    Pattern.sub_markers_lead marker.text_mem (by decide)
  fun_induction lex text with
  | case1 rest ih => exact (lead .delOpen rest).trans ih
  | case2 rest ih => exact (lead .delClose rest).trans ih
  | case3 rest ih => exact (lead .insOpen rest).trans ih
  | case4 rest ih => exact (lead .insClose rest).trans ih
  | case5 char rest first second third fourth ih =>
      have unmatched : stray.step (char :: rest) = none := by
        apply stray_eq_none_iff.mpr
        rintro marker ⟨behind, whole⟩
        cases marker with
        | delOpen =>
            cases whole
            exact first behind rfl rfl
        | delClose =>
            cases whole
            exact second behind rfl rfl
        | insOpen =>
            cases whole
            exact third behind rfl rfl
        | insClose =>
            cases whole
            exact fourth behind rfl rfl
      rw [Pattern.sub_of_none unmatched, ih]
      rfl
  | case6 => rfl

theorem char?_eq_none_iff {token : Token} :
    token.char? = none ↔ ∃ marker, token = .marker marker := by
  cases token with
  | char value => simp [Token.char?]
  | marker value => simp [Token.char?]

theorem eq_of_char?_eq_some {token : Token} {char : Char} (read : token.char? = some char) :
    token = .char char := by
  cases token with
  | char value => rw [Option.some.inj read]
  | marker value => cases read

theorem filterMap_char?_markers (markers : List Marker) :
    (markers.map Token.marker).filterMap Token.char? = [] := by
  apply List.filterMap_eq_nil_iff.mpr
  intro token member
  rcases List.mem_map.mp member with ⟨marker, _, rfl⟩
  rfl

/-- The first character that is read stands behind markers. -/
theorem eq_of_filterMap_char? {char : Char} {rest : Text}
    (read : tokens.filterMap Token.char? = char :: rest) :
    ∃ (markers : List Marker) (later : List Token),
      tokens = markers.map .marker ++ .char char :: later ∧
        later.filterMap Token.char? = rest := by
  rcases List.filterMap_eq_cons_iff.mp read with
    ⟨skipped, token, later, rfl, unread, first, others⟩
  have markers : ∃ markers : List Marker, skipped = markers.map .marker := by
    clear read
    induction skipped with
    | nil => exact ⟨[], rfl⟩
    | cons head tail ih =>
        rw [List.forall_mem_cons] at unread
        rcases char?_eq_none_iff.mp unread.1 with ⟨marker, rfl⟩
        rcases ih unread.2 with ⟨markers, rfl⟩
        exact ⟨marker :: markers, rfl⟩
  rcases markers with ⟨markers, rfl⟩
  exact ⟨markers, later, by rw [eq_of_char?_eq_some first], others⟩

theorem exists_text_eq (marker : Marker) :
    ∃ first second third, marker.text = [first, second, third] := by
  cases marker <;> exact ⟨_, _, _, rfl⟩

/-- The characters of a list of tokens spell a marker where the markers in it scatter one. -/
theorem scattered_iff :
    Scattered tokens ↔ ∃ marker : Marker, marker.text <:+: tokens.filterMap Token.char? := by
  constructor
  · rintro ⟨marker, first, second, third, spelled, between, behind, found⟩
    refine ⟨marker, ?_⟩
    have chars := found.filterMap Token.char?
    have word : (Token.char first :: (between.map .marker ++ Token.char second ::
        (behind.map .marker ++ [Token.char third]))).filterMap Token.char? =
          [first, second, third] := by
      simp only [List.filterMap_cons, List.filterMap_append, filterMap_char?_markers,
        Token.char?, List.nil_append, List.filterMap_nil]
    rwa [word, ← spelled] at chars
  · rintro ⟨marker, before, after, whole⟩
    rcases exists_text_eq marker with ⟨first, second, third, spelled⟩
    rw [spelled, List.append_assoc] at whole
    rcases List.filterMap_eq_append_iff.mp whole.symm with ⟨lead, rest, rfl, _, word⟩
    rcases eq_of_filterMap_char? word with ⟨skipped, afterFirst, rfl, ending⟩
    rcases eq_of_filterMap_char? ending with ⟨between, afterSecond, rfl, last⟩
    rcases eq_of_filterMap_char? last with ⟨behind, afterThird, rfl, _⟩
    refine ⟨marker, first, second, third, spelled, between, behind,
      lead ++ skipped.map .marker, afterThird, ?_⟩
    simp

theorem sub_between_eq_self {opening closing : Text} {keep : Text → Text}
    {nonempty : opening ≠ []} (unopened : ¬opening <:+: text) :
    (Pattern.between opening closing keep nonempty).sub text = text := by
  apply Pattern.sub_eq_self
  intro later ends _
  apply Pattern.between_of_not_lead
  exact fun lead => unopened (lead.isInfix.trans ends.isInfix)

theorem stray_of_unmarked (unmarked : ∀ marker : Marker, ¬marker.text <:+: text) :
    stray.sub text = text := by
  apply Pattern.sub_eq_self
  intro later ends _
  apply stray_eq_none_iff.mpr
  intro marker lead
  exact unmarked marker (lead.isInfix.trans ends.isInfix)

/-- A text without markers is its own download. -/
theorem cleanRevision_of_unmarked (unmarked : ∀ marker : Marker, ¬marker.text <:+: text) :
    cleanRevision (some text) = text := by
  have deletions : deletion.sub text = text := sub_between_eq_self (unmarked .delOpen)
  have insertions : insertion.sub text = text := sub_between_eq_self (unmarked .insOpen)
  rw [cleanRevision_some, deletions, insertions, stray_of_unmarked unmarked]

theorem cleanDownload_of_unmarked
    (unmarked : ∀ marker : Marker, ¬marker.text <:+: cleanRevision (some redline)) :
    CleanDownload redline :=
  ⟨unmarked, cleanRevision_of_unmarked unmarked⟩

/-- Where no stray brace stands close to a marker, the download is clean. -/
theorem cleanDownload_of_bracesApart (apart : BracesApart redline) : CleanDownload redline :=
  cleanDownload_of_unmarked (cleanRevision_unmarked apart)

end

/-- A download is clean when the stray markers of the redline scatter none. -/
theorem cleanDownload_iff (redline : Text) : CleanDownload redline ↔ StraysApart redline := by
  rw [StraysApart, scattered_iff, ← sub_stray_eq, ← cleanRevision_some, not_exists]
  exact ⟨CleanDownload.unmarked, cleanDownload_of_unmarked⟩

/-- One stray marker within another one. -/
theorem not_cleanDownload_nested : ¬CleanDownload "\x7b\x7b----".toList := by
  intro clean
  apply clean.unmarked .delOpen
  decide +kernel

end OrcaValidator
