import OrcaValidator.Library.Json

/-!
# The interpreter's tables

Three things a Python program uses come from the interpreter's own tables: how a
value prints, the lower case of a string and the class `\w` of `re`.
They are the fields of a class, with the laws that fix them on ASCII, so that a
development holds for whatever Unicode version the interpreter was built with.
-/

namespace Library

/-- The character tables and the printer of a Python interpreter. -/
class Interpreter where
  /-- `repr(value)`. -/
  repr : Json → Text
  /-- `text.lower()`. -/
  lower : Text → Text
  /-- Membership in the regex class `\w`. -/
  isWord : Char → Bool
  lower_ascii : ∀ text : Text, (∀ char ∈ text, char.toNat < 128) →
    lower text = text.map Char.toLower
  isWord_ascii : ∀ char : Char, char.toNat < 128 →
    isWord char = (char.isAlphanum || char == '_')
  isWord_of_isSpace : ∀ char : Char, Text.isSpace char = true → isWord char = false

namespace Interpreter

theorem isSpace_of_isAlphanum {char : Char} (alphanum : char.isAlphanum = true) :
    Text.isSpace char = false := by
  have ranges : (decide (char.val ≥ 'A'.val ∧ char.val ≤ 'Z'.val) ||
      (decide (char.val ≥ 'a'.val) && decide (char.val ≤ 'z'.val)) ||
      (decide (char.val ≥ '0'.val) && decide (char.val ≤ '9'.val))) = true := alphanum
  simp only [Bool.or_eq_true, Bool.and_eq_true, decide_eq_true_eq, UInt32.le_iff_toNat_le,
    ge_iff_le] at ranges
  change ((65 ≤ char.toNat ∧ char.toNat ≤ 90) ∨ (97 ≤ char.toNat ∧ char.toNat ≤ 122)) ∨
    (48 ≤ char.toNat ∧ char.toNat ≤ 57) at ranges
  simp only [Text.isSpace, Bool.or_eq_false_iff, Bool.and_eq_false_iff, beq_eq_false_iff_ne,
    decide_eq_false_iff_not]
  omega

theorem not_isSpace_of_letter {char : Char}
    (letter : (65 ≤ char.toNat ∧ char.toNat ≤ 90) ∨ (97 ≤ char.toNat ∧ char.toNat ≤ 122)) :
    ¬Text.isSpace char = true := by
  simp only [Text.isSpace, Bool.or_eq_true, Bool.and_eq_true, beq_iff_eq, decide_eq_true_eq]
  omega

theorem toLower_of_isSpace {char : Char} (space : Text.isSpace char = true) :
    char.toLower = char := by
  apply dif_neg
  intro upper
  simp only [UInt32.le_iff_toNat_le, ge_iff_le] at upper
  change 65 ≤ char.toNat ∧ char.toNat ≤ 90 at upper
  exact not_isSpace_of_letter (.inl upper) space

/-- The letters are where lower case changes and ends. -/
theorem toLower_eq_self_or (char : Char) :
    char.toLower = char ∨ (97 ≤ char.toLower.toNat ∧ char.toLower.toNat ≤ 122) := by
  by_cases upper : char.val ≥ 'A'.val ∧ char.val ≤ 'Z'.val
  · right
    have lower : char.toLower.toNat = (char.val + ('a'.val - 'A'.val)).toNat :=
      congrArg Char.toNat (dif_pos upper)
    simp only [UInt32.le_iff_toNat_le, ge_iff_le, UInt32.toNat_add] at upper lower
    change 65 ≤ char.toNat ∧ char.toNat ≤ 90 at upper
    change char.toLower.toNat = (char.toNat + 32) % 2 ^ 32 at lower
    omega
  · exact Or.inl (dif_neg upper)

/-- Lower case makes no white space. -/
theorem eq_of_isSpace_toLower {char : Char} (space : Text.isSpace char.toLower = true) :
    char.toLower = char := by
  rcases toLower_eq_self_or char with same | letter
  · exact same
  · exact absurd space (not_isSpace_of_letter (Or.inr letter))

/-- An interpreter that knows ASCII only. -/
@[reducible]
def ascii : Interpreter where
  repr := fun _ => []
  lower := fun text => text.map Char.toLower
  isWord := fun char => char.toNat < 128 && (char.isAlphanum || char == '_')
  lower_ascii := fun _ _ => rfl
  isWord_ascii := fun char low => by simp [low]
  isWord_of_isSpace := fun char space => by
    by_contra word
    simp only [Bool.not_eq_false, Bool.and_eq_true, Bool.or_eq_true, beq_iff_eq] at word
    rcases word with ⟨_, alphanum | rfl⟩
    · simp [isSpace_of_isAlphanum alphanum] at space
    · exact absurd space (by decide)

variable [Interpreter]

theorem lower_nil : lower [] = [] := lower_ascii [] (by simp)

/-- `lower` takes a text word by word: what it makes of a word depends on no other word, is
no empty text and has no white space. -/
structure LowersWords : Prop where
  lower_append_cons : ∀ (left : Text) (char : Char) (right : Text),
    Text.isSpace char = true → lower (left ++ char :: right) = lower left ++ char :: lower right
  mem_of_mem_lower : ∀ (text : Text) (char : Char),
    Text.isSpace char = true → char ∈ lower text → char ∈ text
  lower_ne_nil : ∀ text : Text, text ≠ [] → lower text ≠ []

theorem LowersWords.lower_lead (lowers : LowersWords) {lead : Text} (text : Text)
    (blank : ∀ char ∈ lead, Text.isSpace char = true) :
    lower (lead ++ text) = lead ++ lower text := by
  induction lead with
  | nil => rfl
  | cons char rest ih =>
      rw [List.forall_mem_cons] at blank
      have first := lowers.lower_append_cons [] char (rest ++ text) blank.1
      rw [lower_nil, ih blank.2] at first
      exact first

theorem LowersWords.lower_trail (lowers : LowersWords) {trail : Text} (text : Text)
    (blank : ∀ char ∈ trail, Text.isSpace char = true) :
    lower (text ++ trail) = lower text ++ trail := by
  induction trail using List.reverseRecOn with
  | nil => rw [List.append_nil, List.append_nil]
  | append_singleton rest char ih =>
      rw [List.forall_mem_append, List.forall_mem_singleton] at blank
      rw [← List.append_assoc, lowers.lower_append_cons _ char [] blank.2, ih blank.1, lower_nil,
        List.append_assoc]

omit [Interpreter] in
theorem ascii_lowersWords : @LowersWords ascii := by
  refine @LowersWords.mk ascii ?_ ?_ ?_
  · intro left char right space
    change (left ++ char :: right).map Char.toLower = _
    rw [List.map_append, List.map_cons, toLower_of_isSpace space]
    rfl
  · intro text char space member
    rcases List.mem_map.mp member with ⟨other, within, rfl⟩
    rwa [eq_of_isSpace_toLower space]
  · intro text nonempty empty
    exact nonempty (List.map_eq_nil_iff.mp empty)

/-- What `lower` does to the suffix of a file name: the dot stays in front, no dot or slash
comes up behind it, and lower case stays as it is. -/
structure LowersSuffixes : Prop where
  lower_dot : ∀ body, lower ('.' :: body) = '.' :: lower body
  mem_of_mem_lower : ∀ (text : Text) (char : Char), char = '.' ∨ char = '/' →
    char ∈ lower text → char ∈ text
  lower_lower : ∀ text, lower (lower text) = lower text

omit [Interpreter] in
theorem toLower_toLower (char : Char) : char.toLower.toLower = char.toLower := by
  rcases toLower_eq_self_or char with same | letter
  · rw [same, same]
  · apply dif_neg
    intro upper
    simp only [UInt32.le_iff_toNat_le, ge_iff_le] at upper
    change 65 ≤ char.toLower.toNat ∧ char.toLower.toNat ≤ 90 at upper
    omega

omit [Interpreter] in
theorem ascii_lowersSuffixes : @LowersSuffixes ascii := by
  refine @LowersSuffixes.mk ascii (fun _ => rfl) ?_ ?_
  · intro text char mark member
    rcases List.mem_map.mp member with ⟨other, within, rfl⟩
    rcases toLower_eq_self_or other with same | letter
    · rwa [same]
    · rcases mark with dot | slash
      · rw [dot] at letter
        exact absurd letter (by decide)
      · rw [slash] at letter
        exact absurd letter (by decide)
  · intro text
    change (text.map Char.toLower).map Char.toLower = text.map Char.toLower
    rw [List.map_map]
    exact List.map_congr_left fun char _ => toLower_toLower char

/-- `str(value)`: a string is its own text. -/
def str : Json → Text
  | .str value => value
  | .null => "None".toList
  | .bool value => if value then "True".toList else "False".toList
  | .int value => (toString value).toList
  | other => repr other

end Interpreter

end Library
