import OrcaValidator.Llm.Chunks

/-!
# Chunk boundaries

Where `_split_into_chunks` cuts: at the last paragraph break of a window if that is in its
second half, and inside a word only where the word fills the second half.
-/

namespace OrcaValidator

open Library

/-- The characters of a word, as the cuts see them. -/
def isWordChar (char : Char) : Bool := char != ' ' && char != '\n'

/-- A maximal run of characters other than blank and newline. -/
structure WordRun (left run right : Text) : Prop where
  inside : ∀ char ∈ run, isWordChar char = true
  begins : ∀ char, left.getLast? = some char → isWordChar char = false
  ends : ∀ char, right.head? = some char → isWordChar char = false

/-- A cut strictly inside a word is only made where the word is longer than half a chunk. -/
def RespectsWords (maxChars : Nat) (text : Text) (place : Nat) : Prop :=
  ∀ left run right, text = left ++ run ++ right → WordRun left run right →
    left.length < place → place < left.length + run.length → maxChars / 2 < run.length

/-- With a paragraph break in the second half of the window, the cut is made at the last one. -/
def CutsAtParagraph (maxChars : Nat) (remaining : Text) (place : Nat) : Prop :=
  ∀ paragraph, "\n\n".toList <+: (remaining.take maxChars).drop paragraph →
    maxChars ≤ 2 * paragraph →
    paragraph ≤ place ∧ "\n\n".toList <+: (remaining.take maxChars).drop place

/-- How the chunks of a text follow each other in what remains of it after `before`. -/
inductive CutsWell (maxChars : Nat) (text : Text) : Text → Text → List Text → Prop
  | last {before chunk : Text} : CutsWell maxChars text before chunk [chunk]
  | cut {before chunk gap after : Text} {chunks : List Text}
      (blank : ∀ char ∈ gap, Text.isSpace char = true)
      (words : RespectsWords maxChars text (before ++ chunk).length)
      (paragraph : CutsAtParagraph maxChars (chunk ++ gap ++ after) chunk.length)
      (later : CutsWell maxChars text (before ++ chunk ++ gap) after chunks) :
      CutsWell maxChars text before (chunk ++ gap ++ after) (chunk :: chunks)

/-! ## One window -/

theorem eq_blank_or_newline {char : Char} (breaks : isWordChar char = false) :
    char = ' ' ∨ char = '\n' := by
  simpa [isWordChar, or_iff_not_imp_left] using breaks

/-- A window is cut at its last paragraph break, at a blank or newline, or at its very end,
and then its second half is without either. -/
theorem breakPosition_cases (maxChars : Nat) (window : Text) :
    (∃ char, window[(breakPosition maxChars window).toNat]? = some char ∧
        isWordChar char = false) ∨
      (breakPosition maxChars window = maxChars ∧
        ∀ place char, maxChars ≤ 2 * place → window[place]? = some char →
          isWordChar char = true) := by
  have later {char : Char} {place : Nat} (found : window[place]? = some char) :
      (place : Int) ≤ Text.rfind [char] window :=
    Text.le_rfind (by simp) (Text.singleton_prefix_drop_iff.mpr found)
  have line := @Text.prefix_drop_rfind "\n".toList window
  have word := @Text.prefix_drop_rfind " ".toList window
  simp only [breakPosition]
  split_ifs with noParagraph noLine noWord
  · right
    refine ⟨rfl, fun place char far found => ?_⟩
    have bound := later found
    by_contra blank
    rcases eq_blank_or_newline (by simpa using blank) with rfl | rfl
    · change (place : Int) ≤ Text.rfind " ".toList window at bound
      omega
    · change (place : Int) ≤ Text.rfind "\n".toList window at bound
      omega
  · exact Or.inl ⟨' ', Text.singleton_prefix_drop_iff.mp (word (by omega)), by decide⟩
  · exact Or.inl ⟨'\n', Text.singleton_prefix_drop_iff.mp (line (by omega)), by decide⟩
  · have paragraph := @Text.prefix_drop_rfind "\n\n".toList window (by omega)
    left
    refine ⟨'\n', Text.singleton_prefix_drop_iff.mp (List.IsPrefix.trans ?_ paragraph), by decide⟩
    exact ⟨['\n'], rfl⟩

theorem breakPosition_paragraph {maxChars paragraph : Nat} {window : Text}
    (found : "\n\n".toList <+: window.drop paragraph) (far : maxChars ≤ 2 * paragraph) :
    (paragraph : Int) ≤ breakPosition maxChars window ∧
      "\n\n".toList <+: window.drop (breakPosition maxChars window).toNat := by
  have bound := Text.le_rfind (by simp) found
  have chosen : breakPosition maxChars window = Text.rfind "\n\n".toList window := by
    simp only [breakPosition]
    split_ifs <;> omega
  rw [chosen]
  exact ⟨bound, Text.prefix_drop_rfind (by omega)⟩

/-! ## One round -/

theorem getElem?_window {remaining : Text} {maxChars place : Nat} {char : Char}
    (before trail : Text) (found : (remaining.take maxChars)[place]? = some char) :
    (before ++ remaining ++ trail)[before.length + place]? = some char := by
  rw [List.getElem?_take] at found
  split_ifs at found with near
  rw [List.append_assoc, List.getElem?_append_right (by omega), Nat.add_sub_cancel_left]
  rw [List.getElem?_eq_some_iff] at found
  rcases found with ⟨bound, value⟩
  rw [List.getElem?_append_left bound, List.getElem?_eq_getElem bound, value]

theorem WordRun.isWordChar_of_getElem? {left run right : Text} (word : WordRun left run right)
    {place : Nat} {char : Char} (after : left.length ≤ place)
    (before : place < left.length + run.length)
    (found : (left ++ run ++ right)[place]? = some char) : isWordChar char = true := by
  rw [List.getElem?_append_left (by simpa using before), List.getElem?_append_right after] at found
  exact word.inside char (List.mem_of_getElem? found)

theorem WordRun.not_isWordChar_before {left run right : Text} (word : WordRun left run right)
    {place : Nat} {char : Char} (last : place + 1 = left.length)
    (found : (left ++ run ++ right)[place]? = some char) : isWordChar char = false := by
  rw [List.append_assoc, List.getElem?_append_left (by omega)] at found
  apply word.begins
  rwa [List.getLast?_eq_getElem?, ← last]

/-- A cut at the end of the window, with neither blank nor newline in its second half, only
splits a word that begins in its first half. -/
theorem respectsWords_cut {maxChars : Nat} {before remaining trail : Text}
    (long : maxChars < remaining.length) :
    RespectsWords maxChars (before ++ remaining ++ trail)
      (before.length + cutLength maxChars remaining) := by
  intro left run right whole word begun unfinished
  have bounds := cutLength_bounds maxChars remaining
  rcases breakPosition_cases maxChars (remaining.take maxChars) with
    ⟨char, found, blank⟩ | ⟨atEnd, unbroken⟩
  · have inText := getElem?_window before trail found
    rw [whole] at inText
    have inWord := word.isWordChar_of_getElem? (by omega) unfinished inText
    rw [blank] at inWord
    exact absurd inWord (by simp)
  · have far : cutLength maxChars remaining = maxChars := by
      rw [cutLength, atEnd, Int.toNat_natCast]
    by_contra short
    have placed : left.length - 1 - before.length < (remaining.take maxChars).length := by
      rw [List.length_take]
      omega
    have found := List.getElem?_eq_getElem placed
    have inText := getElem?_window before trail found
    rw [whole] at inText
    have outside := word.not_isWordChar_before (by omega) inText
    rw [unbroken _ _ (by omega) found] at outside
    exact absurd outside (by simp)

theorem cutsAtParagraph_cut (maxChars : Nat) (remaining : Text) :
    CutsAtParagraph maxChars remaining (cutLength maxChars remaining) := by
  intro paragraph found far
  rcases breakPosition_paragraph found far with ⟨bound, atBreak⟩
  refine ⟨?_, atBreak⟩
  unfold cutLength
  omega

/-! ## The whole loop -/

theorem splitLoop_cutsWell {maxChars fuel : Nat} {text before remaining trail : Text}
    {chunks : List Text} (whole : text = before ++ remaining ++ trail)
    (nonempty : remaining ≠ []) (stripped : Text.strip remaining = remaining)
    (split : splitLoop maxChars fuel remaining = some chunks) :
    CutsWell maxChars text before remaining chunks := by
  induction fuel generalizing before remaining chunks with
  | zero => simp [splitLoop] at split
  | succ fuel ih =>
      rw [splitLoop] at split
      split_ifs at split with long
      · rcases Option.map_eq_some_iff.mp split with ⟨others, later, rfl⟩
        rcases afterCut_spec stripped long with ⟨left, trimmed, gap, blank, made⟩
        have size := length_take_cutLength long
        have words : RespectsWords maxChars text
            (before ++ remaining.take (cutLength maxChars remaining)).length := by
          rw [List.length_append, size, whole]
          exact respectsWords_cut long
        have paragraph := cutsAtParagraph_cut maxChars remaining
        have rest : CutsWell maxChars text
            (before ++ remaining.take (cutLength maxChars remaining) ++ gap)
            (afterCut maxChars remaining) others := by
          refine ih ?_ left trimmed later
          have joined := congrArg (before ++ · ++ trail) made
          simpa only [List.append_assoc] using whole.trans joined.symm
        have cut := CutsWell.cut blank words (by rwa [made, size]) rest
        rwa [made] at cut
      · simp only [Option.some.injEq] at split
        rw [← split]
        exact CutsWell.last

/-- Every text is cut well. -/
theorem splitIntoChunks_cutsWell {maxChars : Nat} (text : Text) (positive : 2 ≤ maxChars) :
    ∃ chunks lead body trail, splitIntoChunks text maxChars = some chunks ∧
      text = lead ++ body ++ trail ∧ (∀ char ∈ lead ++ trail, Text.isSpace char = true) ∧
      CutsWell maxChars text lead body chunks := by
  by_cases empty : Text.strip text = []
  · refine ⟨[text], [], text, [], ?_, by simp, by simp, CutsWell.last⟩
    rw [splitIntoChunks, empty, splitLoop, if_neg (by simp)]
    rfl
  · have round : 0 < maxChars := by omega
    rcases splitLoop_strip_chunking round empty with ⟨chunks, split, result, _⟩
    rcases Text.exists_around_strip text with ⟨lead, trail, leading, trailing, whole⟩
    refine ⟨chunks, lead, Text.strip text, trail, result, whole, ?_, ?_⟩
    · intro char member
      exact (List.mem_append.mp member).elim (leading char) (trailing char)
    · exact splitLoop_cutsWell whole empty (Text.strip_strip text) split

theorem splitIntoChunks_cutsWell_words :
    ∃ chunks lead body trail, splitIntoChunks " ab\tcd\n\nefgh ".toList 5 = some chunks ∧
      " ab\tcd\n\nefgh ".toList = lead ++ body ++ trail ∧
      (∀ char ∈ lead ++ trail, Text.isSpace char = true) ∧
      CutsWell 5 " ab\tcd\n\nefgh ".toList lead body chunks :=
  splitIntoChunks_cutsWell _ (by decide)

end OrcaValidator
