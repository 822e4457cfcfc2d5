import OrcaValidator.Library.Text

/-!
# Chunks

`_split_into_chunks`: a long document is cut into pieces that the model can take one by
one, at the last paragraph break, line break or blank in the second half of each window.
-/

namespace OrcaValidator

open Library

/-- Where a window is cut; the comparisons with `max_chars * 0.5` are doubled. -/
def breakPosition (maxChars : Nat) (window : Text) : Int :=
  let brk := Text.rfind "\n\n".toList window
  let brk := if 2 * brk < maxChars then Text.rfind "\n".toList window else brk
  let brk := if 2 * brk < maxChars then Text.rfind " ".toList window else brk
  if 2 * brk < maxChars then maxChars else brk

/-- The length of the chunk that is cut off a text that is too long. -/
def cutLength (maxChars : Nat) (remaining : Text) : Nat :=
  (breakPosition maxChars (remaining.take maxChars)).toNat

/-- `remaining[brk:].lstrip()`. -/
def afterCut (maxChars : Nat) (remaining : Text) : Text :=
  Text.lstrip (remaining.drop (cutLength maxChars remaining))

/-- The loop of `_split_into_chunks` with the last chunk, if it is over within `fuel` rounds. -/
def splitLoop (maxChars : Nat) : Nat → Text → Option (List Text)
  | 0, _ => none
  | fuel + 1, remaining =>
      if maxChars < remaining.length then
        (splitLoop maxChars fuel (afterCut maxChars remaining)).map
          (remaining.take (cutLength maxChars remaining) :: ·)
      else some (if remaining = [] then [] else [remaining])

/-- `_split_into_chunks`.  A round that cuts nothing off leaves the same text to the next
one, so that a loop which takes more rounds than there are characters never ends. -/
def splitIntoChunks (text : Text) (maxChars : Nat) : Option (List Text) :=
  (splitLoop maxChars (text.length + 1) (Text.strip text)).map
    fun chunks => if chunks = [] then [text] else chunks

/-- The chunks, with white space between them, make up the text. -/
def Woven (chunks : List Text) (text : Text) : Prop :=
  ∃ gaps : List Text, gaps.length + 1 = chunks.length ∧
    (∀ gap ∈ gaps, ∀ char ∈ gap, Text.isSpace char = true) ∧
    text = (List.zipWith (· ++ ·) chunks (gaps ++ [[]])).flatten

/-- A text taken apart into chunks of at most `maxChars` characters, of which only the last
may have less than half of that. -/
structure Chunking (maxChars : Nat) (text : Text) (chunks : List Text) : Prop where
  woven : Woven chunks text
  visible : ∀ chunk ∈ chunks, ∃ char, chunk.head? = some char ∧ Text.isSpace char = false
  bounded : ∀ chunk ∈ chunks, chunk.length ≤ maxChars
  large : ∀ chunk ∈ chunks.dropLast, maxChars ≤ 2 * chunk.length

/-! ## One round -/

theorem breakPosition_bounds {maxChars : Nat} {window : Text}
    (fits : window.length ≤ maxChars) :
    maxChars ≤ 2 * breakPosition maxChars window ∧ breakPosition maxChars window ≤ maxChars := by
  have paragraph := Text.rfind_le_length "\n\n".toList window
  have line := Text.rfind_le_length "\n".toList window
  have word := Text.rfind_le_length " ".toList window
  simp only [breakPosition]
  split_ifs <;> omega

theorem cutLength_bounds (maxChars : Nat) (remaining : Text) :
    maxChars ≤ 2 * cutLength maxChars remaining ∧ cutLength maxChars remaining ≤ maxChars := by
  have fits : (remaining.take maxChars).length ≤ maxChars := List.length_take_le _ _
  have bounds := breakPosition_bounds fits
  unfold cutLength
  omega

/-- What a round leaves of a stripped text is stripped, and only white space is lost. -/
theorem afterCut_spec {maxChars : Nat} {remaining : Text}
    (stripped : Text.strip remaining = remaining) (long : maxChars < remaining.length) :
    afterCut maxChars remaining ≠ [] ∧
      Text.strip (afterCut maxChars remaining) = afterCut maxChars remaining ∧
      ∃ gap : Text, (∀ char ∈ gap, Text.isSpace char = true) ∧
        remaining.take (cutLength maxChars remaining) ++ gap ++ afterCut maxChars remaining =
          remaining := by
  have bounds := cutLength_bounds maxChars remaining
  have later : remaining.drop (cutLength maxChars remaining) ≠ [] := by
    apply List.ne_nil_of_length_pos
    rw [List.length_drop]
    omega
  rcases Text.lstrip_of_suffix stripped (List.drop_suffix _ _) later with ⟨nonempty, trimmed⟩
  refine ⟨nonempty, trimmed, (remaining.drop (cutLength maxChars remaining)).takeWhile
    Text.isSpace, fun char => Text.isSpace_of_mem_gap, ?_⟩
  rw [afterCut, List.append_assoc, Text.gap_append_lstrip, List.take_append_drop]

theorem length_afterCut (maxChars : Nat) (remaining : Text) :
    (afterCut maxChars remaining).length ≤ remaining.length - cutLength maxChars remaining := by
  have shorter := (List.dropWhile_suffix (l := remaining.drop (cutLength maxChars remaining))
    Text.isSpace).length_le
  rwa [List.length_drop] at shorter

/-! ## The whole loop -/

theorem Woven.singleton (text : Text) : Woven [text] text :=
  ⟨[], rfl, by simp, by simp⟩

theorem Woven.cons {chunks : List Text} {rest gap : Text} (woven : Woven chunks rest)
    (blank : ∀ char ∈ gap, Text.isSpace char = true) (chunk : Text) :
    Woven (chunk :: chunks) (chunk ++ gap ++ rest) := by
  rcases woven with ⟨gaps, count, blanks, whole⟩
  refine ⟨gap :: gaps, by simp [count], List.forall_mem_cons.mpr ⟨blank, blanks⟩, ?_⟩
  rw [whole]
  simp

theorem Woven.ne_nil {chunks : List Text} {text : Text} (woven : Woven chunks text) :
    chunks ≠ [] := by
  rcases woven with ⟨gaps, count, _⟩
  apply List.ne_nil_of_length_pos
  omega

theorem Chunking.singleton {maxChars : Nat} {text : Text} (nonempty : text ≠ [])
    (stripped : Text.strip text = text) (short : text.length ≤ maxChars) :
    Chunking maxChars text [text] := by
  refine ⟨Woven.singleton text, ?_, by simpa using short, by simp⟩
  intro chunk member
  rw [List.mem_singleton.mp member]
  cases text with
  | nil => exact absurd rfl nonempty
  | cons char rest =>
      refine ⟨char, rfl, @Text.isSpace_head_strip (char :: rest) char ?_⟩
      rw [stripped]
      rfl

theorem length_take_cutLength {maxChars : Nat} {remaining : Text}
    (long : maxChars < remaining.length) :
    (remaining.take (cutLength maxChars remaining)).length = cutLength maxChars remaining := by
  have bounds := cutLength_bounds maxChars remaining
  rw [List.length_take]
  omega

/-- One round in front of the chunks of what it leaves. -/
theorem Chunking.cut {maxChars : Nat} {remaining : Text} {chunks : List Text}
    (positive : 0 < maxChars) (stripped : Text.strip remaining = remaining)
    (long : maxChars < remaining.length)
    (later : Chunking maxChars (afterCut maxChars remaining) chunks) :
    Chunking maxChars remaining (remaining.take (cutLength maxChars remaining) :: chunks) := by
  have bounds := cutLength_bounds maxChars remaining
  have size := length_take_cutLength long
  rcases afterCut_spec stripped long with ⟨_, _, gap, blank, whole⟩
  refine ⟨?_, List.forall_mem_cons.mpr ⟨?_, later.visible⟩,
    List.forall_mem_cons.mpr ⟨by omega, later.bounded⟩, ?_⟩
  · have woven := later.woven.cons blank (remaining.take (cutLength maxChars remaining))
    rwa [whole] at woven
  · cases remaining with
    | nil => simp at long
    | cons char rest =>
        refine ⟨char, ?_, @Text.isSpace_head_strip (char :: rest) char ?_⟩
        · rw [List.head?_take, if_neg (by omega)]
          rfl
        · rw [stripped]
          rfl
  · rw [List.dropLast_cons_of_ne_nil later.woven.ne_nil, List.forall_mem_cons]
    exact ⟨by omega, later.large⟩

theorem splitLoop_chunking {maxChars fuel : Nat} {remaining : Text} (positive : 0 < maxChars)
    (nonempty : remaining ≠ []) (stripped : Text.strip remaining = remaining)
    (enough : remaining.length < fuel) :
    ∃ chunks, splitLoop maxChars fuel remaining = some chunks ∧
      Chunking maxChars remaining chunks := by
  induction fuel generalizing remaining with
  | zero => omega
  | succ fuel ih =>
      by_cases long : maxChars < remaining.length
      · have bounds := cutLength_bounds maxChars remaining
        have shorter := length_afterCut maxChars remaining
        rcases afterCut_spec stripped long with ⟨later, trimmed, _⟩
        rcases ih later trimmed (by omega) with ⟨chunks, split, chunking⟩
        refine ⟨_, ?_, chunking.cut positive stripped long⟩
        rw [splitLoop, if_pos long, split]
        rfl
      · refine ⟨[remaining], ?_, Chunking.singleton nonempty stripped (by omega)⟩
        rw [splitLoop, if_neg long, if_neg nonempty]

/-- The loop on a stripped text is over within the rounds that `splitIntoChunks` gives it. -/
theorem splitLoop_strip_chunking {text : Text} {maxChars : Nat} (positive : 0 < maxChars)
    (nonempty : Text.strip text ≠ []) :
    ∃ chunks, splitLoop maxChars (text.length + 1) (Text.strip text) = some chunks ∧
      splitIntoChunks text maxChars = some chunks ∧
      Chunking maxChars (Text.strip text) chunks := by
  have enough : (Text.strip text).length < text.length + 1 := by
    have shorter := (Text.strip_infix text).length_le
    omega
  rcases splitLoop_chunking positive nonempty (Text.strip_strip text) enough with
    ⟨chunks, split, chunking⟩
  refine ⟨chunks, split, ?_, chunking⟩
  rw [splitIntoChunks, split, Option.map_some, if_neg chunking.woven.ne_nil]

/-- Chunking ends and loses nothing but white space between the chunks. -/
theorem splitIntoChunks_chunking {text : Text} {maxChars : Nat}
    (visible : ∃ char ∈ text, Text.isSpace char = false) (positive : 1 ≤ maxChars) :
    ∃ chunks, splitIntoChunks text maxChars = some chunks ∧
      Chunking maxChars (Text.strip text) chunks := by
  have nonempty : Text.strip text ≠ [] := by
    intro empty
    rcases visible with ⟨char, member, inside⟩
    rw [Text.strip_eq_nil_iff.mp empty char member] at inside
    exact absurd inside (by simp)
  rcases splitLoop_strip_chunking positive nonempty with ⟨chunks, _, split, chunking⟩
  exact ⟨chunks, split, chunking⟩

theorem splitIntoChunks_chunking_words :
    ∃ chunks, splitIntoChunks " ab cd\n\nef ".toList 5 = some chunks ∧
      Chunking 5 (Text.strip " ab cd\n\nef ".toList) chunks :=
  splitIntoChunks_chunking ⟨'a', by decide, by decide⟩ (by decide)

example : splitIntoChunks " ab cd\n\nef ".toList 5 =
    some ["ab cd".toList, "ef".toList] := by decide +kernel

end OrcaValidator
