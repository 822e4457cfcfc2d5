import OrcaValidator.Library.Interpreter

/-!
# Regular expressions

The fragment of `re` that a keyword search needs: characters, the class `\w`, the
word boundary `\b`, sequence, alternatives and repetition.  Whether `re.search`
finds a match does not depend on the order in which alternatives are tried, so a
pattern denotes the set of positions at which a match can end.
-/

namespace Library

/-- Regular expressions over characters, with `\w` and `\b`. -/
inductive Regex where
  | empty
  | exactly (char : Char)
  | word
  | boundary
  | seq (first second : Regex)
  | alt (left right : Regex)
  | star (body : Regex)

namespace Regex

/-- The expression for a text as it is. -/
def literal (text : Text) : Regex := text.foldr (fun char rest => .seq (.exactly char) rest) .empty

/-- A pattern that matches one of `patterns`; there is at least one. -/
def anyOf (first : Regex) (others : List Regex) : Regex := others.foldl .alt first

/-- A place in the subject: the character before it, and the text from there on. -/
abbrev Position := Option Char × Text

/-- Zero or more steps, at most `fuel` of them. -/
def repeated (step : Position → List Position) : Nat → Position → List Position
  | 0, position => [position]
  | fuel + 1, position => position :: (step position).flatMap (repeated step fuel)

variable [Interpreter]

/-- Whether a word character stands there. -/
def isWordAt (char : Option Char) : Bool := char.any Interpreter.isWord

/-- Where a match that starts at a position can end.  A repetition needs no more rounds
than there are characters left. -/
def ends : Regex → Position → List Position
  | .empty, position => [position]
  | .exactly expected, (_, char :: rest) => if char = expected then [(some char, rest)] else []
  | .exactly _, (_, []) => []
  | .word, (_, char :: rest) => if Interpreter.isWord char then [(some char, rest)] else []
  | .word, (_, []) => []
  | .boundary, (before, rest) =>
      if isWordAt before != isWordAt rest.head? then [(before, rest)] else []
  | .seq first second, position => (ends first position).flatMap (ends second)
  | .alt left right, position => ends left position ++ ends right position
  | .star body, position => repeated (ends body) position.2.length position

/-- Whether some match starts in the text after `before`. -/
def searchFrom (pattern : Regex) (before : Option Char) : Text → Bool
  | [] => !(pattern.ends (before, [])).isEmpty
  | char :: rest =>
      !(pattern.ends (before, char :: rest)).isEmpty || searchFrom pattern (some char) rest

/-- `bool(re.search(pattern, text))`. -/
def search (pattern : Regex) (text : Text) : Bool := searchFrom pattern none text

/-! ## What a search finds -/

theorem mem_ends_seq {first second : Regex} {position finish : Position} :
    finish ∈ ends (.seq first second) position ↔
      ∃ middle ∈ ends first position, finish ∈ ends second middle := List.mem_flatMap

theorem mem_ends_boundary {position finish : Position} :
    finish ∈ ends .boundary position ↔
      finish = position ∧ isWordAt position.1 ≠ isWordAt position.2.head? := by
  rcases position with ⟨before, rest⟩
  simp only [ends, bne_iff_ne]
  split <;> simp_all

theorem mem_ends_anyOf {first : Regex} {others : List Regex} {position finish : Position} :
    finish ∈ ends (anyOf first others) position ↔
      ∃ pattern ∈ first :: others, finish ∈ ends pattern position := by
  unfold anyOf
  induction others generalizing first with
  | nil => simp
  | cons other others ih =>
      rw [List.foldl_cons, ih]
      simp only [List.exists_mem_cons_iff, ends, List.mem_append, or_assoc]

/-- A literal matches exactly where it stands. -/
theorem mem_ends_literal {text rest : Text} {before : Option Char} {finish : Position} :
    finish ∈ ends (literal text) (before, rest) ↔
      ∃ after, rest = text ++ after ∧ finish = (text.getLast?.or before, after) := by
  induction text generalizing before rest with
  | nil => simp [literal, ends]
  | cons char text ih =>
      rw [show literal (char :: text) = .seq (.exactly char) (literal text) from rfl, mem_ends_seq]
      cases rest with
      | nil => simp [ends]
      | cons head rest =>
          by_cases same : head = char
          · subst same
            simp only [ends, if_true, List.mem_singleton, exists_eq_left, ih, List.cons_append,
              List.cons.injEq, true_and, List.getLast?_cons]
            cases text.getLast? <;> simp
          · simp [ends, same]

omit [Interpreter] in
theorem getLast?_cons_or (char : Char) (text : Text) (before : Option Char) :
    (char :: text).getLast?.or before = text.getLast?.or (some char) := by
  rw [List.getLast?_cons]
  cases text.getLast? <;> rfl

theorem searchFrom_iff {pattern : Regex} {before : Option Char} {text : Text} :
    searchFrom pattern before text = true ↔
      ∃ left right, text = left ++ right ∧
        ∃ finish, finish ∈ ends pattern (left.getLast?.or before, right) := by
  have nonempty : ∀ finishes : List Position,
      (!finishes.isEmpty) = true ↔ ∃ finish, finish ∈ finishes := by
    intro finishes
    cases finishes <;> simp
  induction text generalizing before with
  | nil =>
      rw [searchFrom, nonempty]
      constructor
      · exact fun here => ⟨[], [], rfl, here⟩
      · rintro ⟨left, right, split, here⟩
        obtain ⟨rfl, rfl⟩ := List.append_eq_nil_iff.mp split.symm
        exact here
  | cons char rest ih =>
      rw [searchFrom, Bool.or_eq_true, nonempty]
      constructor
      · rintro (here | later)
        · exact ⟨[], char :: rest, rfl, here⟩
        · rcases ih.mp later with ⟨left, right, rfl, matched⟩
          refine ⟨char :: left, right, rfl, ?_⟩
          rwa [getLast?_cons_or]
      · rintro ⟨left, right, split, matched⟩
        cases left with
        | nil =>
            obtain rfl : char :: rest = right := split
            exact .inl matched
        | cons first left =>
            obtain ⟨rfl, rfl⟩ := List.cons.inj split
            rw [getLast?_cons_or] at matched
            exact .inr (ih.mpr ⟨left, right, rfl, matched⟩)

theorem search_iff {pattern : Regex} {text : Text} :
    search pattern text = true ↔ ∃ left right, text = left ++ right ∧
      ∃ finish, finish ∈ ends pattern (left.getLast?, right) := by
  rw [search, searchFrom_iff]
  simp

theorem mem_ends_phrases {first : Text} {others : List Text} {position finish : Position} :
    finish ∈ ends (anyOf (literal first) (others.map literal)) position ↔
      ∃ phrase ∈ first :: others, finish ∈ ends (literal phrase) position := by
  rw [mem_ends_anyOf, ← List.map_cons]
  simp only [List.mem_map, exists_exists_and_eq_and]

theorem mem_ends_literal_append {first second : Text} {position finish : Position} :
    finish ∈ ends (literal (first ++ second)) position ↔
      finish ∈ ends (.seq (literal first) (literal second)) position := by
  rcases position with ⟨before, rest⟩
  simp only [mem_ends_seq, mem_ends_literal, Prod.exists]
  constructor
  · rintro ⟨after, rfl, rfl⟩
    refine ⟨_, _, ⟨second ++ after, by simp, rfl⟩, after, rfl, ?_⟩
    rw [List.getLast?_append, Option.or_assoc]
  · rintro ⟨_, _, ⟨middle, rfl, same⟩, after, rfl, rfl⟩
    obtain ⟨rfl, rfl⟩ := Prod.mk.inj same
    refine ⟨after, by simp, ?_⟩
    rw [List.getLast?_append, Option.or_assoc]

theorem mem_ends_stem {stem first : Text} {others : List Text} {position finish : Position} :
    finish ∈ ends (.seq (literal stem) (anyOf (literal first) (others.map literal))) position ↔
      ∃ suffix ∈ first :: others, finish ∈ ends (literal (stem ++ suffix)) position := by
  simp only [mem_ends_literal_append, mem_ends_seq, mem_ends_phrases]
  constructor
  · rintro ⟨middle, begins, suffix, member, goes⟩
    exact ⟨suffix, member, middle, begins, goes⟩
  · rintro ⟨suffix, member, middle, begins, goes⟩
    exact ⟨middle, begins, suffix, member, goes⟩

/-- A phrase that begins and ends with a letter. -/
def Wordly (phrase : Text) : Prop :=
  isWordAt phrase.head? = true ∧ isWordAt phrase.getLast? = true

/-- A letter or a digit of ASCII. -/
def lettered (char : Option Char) : Bool :=
  char.any fun char => char.toNat < 128 && char.isAlphanum

theorem isWordAt_of_lettered {char : Option Char} (letter : lettered char = true) :
    isWordAt char = true := by
  cases char with
  | none => cases letter
  | some char =>
      simp only [lettered, Option.any_some, Bool.and_eq_true, decide_eq_true_eq] at letter
      simp [isWordAt, Interpreter.isWord_ascii char letter.1, letter.2]

theorem wordly_of_lettered {phrases : List Text} (letters : (phrases.all fun phrase =>
    lettered phrase.head? && lettered phrase.getLast?) = true) :
    ∀ phrase ∈ phrases, Wordly phrase := by
  intro phrase member
  have letter := List.all_eq_true.mp letters phrase member
  rw [Bool.and_eq_true] at letter
  exact ⟨isWordAt_of_lettered letter.1, isWordAt_of_lettered letter.2⟩

/-- A phrase stands in a text, with no letter before or after it. -/
def Stands (phrase text : Text) : Prop :=
  ∃ left right, text = left ++ (phrase ++ right) ∧ isWordAt left.getLast? = false ∧
    isWordAt right.head? = false

/-- A word of a text begins with a stem. -/
def Starts (stem text : Text) : Prop :=
  ∃ left right, text = left ++ (stem ++ right) ∧ isWordAt left.getLast? = false

theorem isWordAt_or {char other : Option Char} (word : isWordAt char = true) :
    isWordAt (char.or other) = true := by
  cases char with
  | none => cases word
  | some char => exact word

/-- Where a longer phrase stands, so does its end behind something that is no letter. -/
theorem Stands.suffix {lead phrase text : Text} (gap : isWordAt lead.getLast? = false)
    (proper : lead ≠ []) (stands : Stands (lead ++ phrase) text) : Stands phrase text := by
  rcases stands with ⟨left, right, rfl, before, after⟩
  refine ⟨left ++ lead, right, by simp, ?_, after⟩
  rwa [List.getLast?_append_of_ne_nil _ proper]

/-- Likewise its beginning before something that is no letter. -/
theorem Stands.lead {phrase tail text : Text} (gap : isWordAt tail.head? = false)
    (proper : tail ≠ []) (stands : Stands (phrase ++ tail) text) : Stands phrase text := by
  rcases stands with ⟨left, right, rfl, before, after⟩
  refine ⟨left, tail ++ right, by simp, before, ?_⟩
  rwa [List.head?_append_of_ne_nil _ proper]

theorem mem_ends_bounded {body : Regex} {position finish : Position} :
    finish ∈ ends (.seq .boundary (.seq body .boundary)) position ↔
      isWordAt position.1 ≠ isWordAt position.2.head? ∧ finish ∈ ends body position ∧
        isWordAt finish.1 ≠ isWordAt finish.2.head? := by
  simp only [mem_ends_seq, mem_ends_boundary]
  constructor
  · rintro ⟨_, ⟨rfl, opens⟩, _, matched, rfl, closes⟩
    exact ⟨opens, matched, closes⟩
  · rintro ⟨opens, matched, closes⟩
    exact ⟨_, ⟨rfl, opens⟩, _, matched, rfl, closes⟩

/-- What is searched for as whole words is found where one of the phrases stands. -/
theorem search_bounded_iff {body : Regex} {phrases : List Text}
    (alternatives : ∀ position finish, finish ∈ ends body position ↔
      ∃ phrase ∈ phrases, finish ∈ ends (literal phrase) position)
    (wordly : ∀ phrase ∈ phrases, Wordly phrase) {text : Text} :
    search (.seq .boundary (.seq body .boundary)) text = true ↔
      ∃ phrase ∈ phrases, Stands phrase text := by
  simp only [search_iff, mem_ends_bounded, alternatives]
  constructor
  · rintro ⟨left, right, rfl, finish, opens, ⟨phrase, member, matched⟩, closes⟩
    rcases wordly phrase member with ⟨first, last⟩
    rcases mem_ends_literal.mp matched with ⟨after, rfl, rfl⟩
    rw [List.head?_append, isWordAt_or first] at opens
    rw [isWordAt_or last] at closes
    exact ⟨phrase, member, left, after, rfl, by simpa using opens, by simpa using closes.symm⟩
  · rintro ⟨phrase, member, left, right, rfl, before, after⟩
    rcases wordly phrase member with ⟨first, last⟩
    refine ⟨left, _, rfl, _, ?_, ⟨phrase, member, mem_ends_literal.mpr ⟨right, rfl, rfl⟩⟩, ?_⟩
    · rw [List.head?_append, isWordAt_or first, before]
      decide
    · rw [isWordAt_or last, after]
      decide

/-- Behind a letter, a word can be read up to its end. -/
theorem exists_word_end {before : Option Char} (text : Text) (within : isWordAt before = true) :
    ∃ finish, finish ∈ ends (.star .word) (before, text) ∧
      isWordAt finish.1 ≠ isWordAt finish.2.head? := by
  induction text generalizing before with
  | nil =>
      refine ⟨(before, []), List.mem_singleton.mpr rfl, ?_⟩
      rw [within]
      change true ≠ false
      decide
  | cons char rest ih =>
      by_cases word : Interpreter.isWord char = true
      · rcases @ih (some char) word with ⟨finish, reads, closes⟩
        refine ⟨finish, ?_, closes⟩
        have step : ends .word (before, char :: rest) = [(some char, rest)] := if_pos word
        change finish ∈ (before, char :: rest) ::
          (ends .word (before, char :: rest)).flatMap (repeated (ends .word) rest.length)
        rw [step, List.flatMap_singleton]
        exact List.mem_cons_of_mem _ reads
      · refine ⟨(before, char :: rest), List.mem_cons_self, ?_⟩
        rw [within]
        exact fun same => word same.symm

/-- What is searched for as the stem of a word is found where one of the stems starts a
word. -/
theorem search_stem_iff {body : Regex} {stems : List Text}
    (alternatives : ∀ position finish, finish ∈ ends body position ↔
      ∃ stem ∈ stems, finish ∈ ends (literal stem) position)
    (wordly : ∀ stem ∈ stems, Wordly stem) {text : Text} :
    search (.seq .boundary (.seq (.seq body (.star .word)) .boundary)) text = true ↔
      ∃ stem ∈ stems, Starts stem text := by
  simp only [search_iff, mem_ends_bounded]
  constructor
  · rintro ⟨left, right, rfl, finish, opens, matched, _⟩
    rcases mem_ends_seq.mp matched with ⟨middle, begins, _⟩
    rcases (alternatives _ _).mp begins with ⟨stem, member, stands⟩
    rcases mem_ends_literal.mp stands with ⟨after, rfl, rfl⟩
    rw [List.head?_append, isWordAt_or (wordly stem member).1] at opens
    exact ⟨stem, member, left, after, rfl, by simpa using opens⟩
  · rintro ⟨stem, member, left, right, rfl, before⟩
    rcases wordly stem member with ⟨first, last⟩
    rcases exists_word_end right (@isWordAt_or _ _ left.getLast? last) with
      ⟨finish, reads, closes⟩
    refine ⟨left, _, rfl, finish, ?_, mem_ends_seq.mpr ⟨_, (alternatives _ _).mpr ⟨stem, member,
      mem_ends_literal.mpr ⟨right, rfl, rfl⟩⟩, reads⟩, closes⟩
    rw [List.head?_append, isWordAt_or first, before]
    decide

/-- What is searched for anywhere is found where one of the phrases occurs. -/
theorem search_phrases_iff {first : Text} {others : List Text} {text : Text} :
    search (anyOf (literal first) (others.map literal)) text = true ↔
      ∃ phrase ∈ first :: others, phrase <:+: text := by
  simp only [search_iff, mem_ends_phrases]
  constructor
  · rintro ⟨left, right, rfl, finish, phrase, member, matched⟩
    rcases mem_ends_literal.mp matched with ⟨after, rfl, _⟩
    exact ⟨phrase, member, left, after, List.append_assoc _ _ _⟩
  · rintro ⟨phrase, member, left, right, rfl⟩
    exact ⟨left, phrase ++ right, List.append_assoc _ _ _, _, phrase, member,
      mem_ends_literal.mpr ⟨right, rfl, rfl⟩⟩

end Regex

end Library
