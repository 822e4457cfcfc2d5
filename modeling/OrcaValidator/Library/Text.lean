import Mathlib.Data.List.DropRight
import Mathlib.Data.List.Infix

/-!
# Text

Strings as sequences of characters, with the operations of Python's `str` that a
text-processing program relies on: white space and stripping, line breaking,
searching and cutting at a separator.

White space and line boundaries are the fixed sets of code points that
`str.isspace` (equally the class `\s` of `re`) and `str.splitlines` use.
-/

namespace Library

/-- A string, as the sequence of its characters. -/
abbrev Text := List Char

namespace Text

instance decidableMem (text : Text) (texts : List Text) : Decidable (text ∈ texts) :=
  List.instDecidableMemOfLawfulBEq text texts

/-- `str.isspace` on one character, which is also membership in the regex class `\s`. -/
def isSpace (char : Char) : Bool :=
  (9 ≤ char.toNat && char.toNat ≤ 13) || (28 ≤ char.toNat && char.toNat ≤ 32) ||
    char.toNat == 0x85 || char.toNat == 0xa0 || char.toNat == 0x1680 ||
    (0x2000 ≤ char.toNat && char.toNat ≤ 0x200a) || char.toNat == 0x2028 ||
    char.toNat == 0x2029 || char.toNat == 0x202f || char.toNat == 0x205f ||
    char.toNat == 0x3000

/-- The characters at which `str.splitlines` ends a line. -/
def isLineBreak (char : Char) : Bool :=
  (10 ≤ char.toNat && char.toNat ≤ 13) || (28 ≤ char.toNat && char.toNat ≤ 30) ||
    char.toNat == 0x85 || char.toNat == 0x2028 || char.toNat == 0x2029

theorem isSpace_of_isLineBreak {char : Char} (breaks : isLineBreak char = true) :
    isSpace char = true := by
  simp only [isLineBreak, isSpace, Bool.or_eq_true, Bool.and_eq_true, decide_eq_true_eq,
    beq_iff_eq] at breaks ⊢
  omega

/-- The text without its leading white space. -/
def lstrip (text : Text) : Text := text.dropWhile isSpace

/-- The text without its trailing white space. -/
def rstrip (text : Text) : Text := text.rdropWhile isSpace

/-- The text without the white space around it. -/
def strip (text : Text) : Text := rstrip (lstrip text)

@[simp]
theorem rstrip_nil : rstrip [] = [] := rfl

@[simp]
theorem strip_nil : strip [] = [] := rfl

theorem prefix_rstrip (text : Text) : rstrip text <+: text := List.rdropWhile_prefix isSpace text

theorem isSpace_getLast_rstrip {text : Text} (nonempty : rstrip text ≠ []) :
    isSpace ((rstrip text).getLast nonempty) = false :=
  Bool.not_eq_true _ ▸ List.rdropWhile_last_not isSpace text nonempty

theorem lstrip_eq_self {text : Text} (first : ∀ char ∈ text.head?, isSpace char = false) :
    lstrip text = text := by
  cases text with
  | nil => rfl
  | cons char rest => simpa [lstrip] using first char (by simp)

/-- Stripping removes nothing from a text whose two ends are no white space. -/
theorem strip_eq_self {text : Text} (first : ∀ char ∈ text.head?, isSpace char = false)
    (last : ∀ char ∈ text.getLast?, isSpace char = false) : strip text = text := by
  rw [strip, lstrip_eq_self first]
  apply List.rdropWhile_eq_self_iff.mpr
  intro nonempty
  simpa using last (text.getLast nonempty) (by simp [List.getLast?_eq_some_getLast nonempty])

theorem isSpace_head_strip {text : Text} {char : Char} (first : char ∈ (strip text).head?) :
    isSpace char = false := by
  rcases prefix_rstrip (lstrip text) with ⟨suffix, split⟩
  change rstrip (lstrip text) ++ suffix = text.dropWhile isSpace at split
  have lead : (text.dropWhile isSpace).head? = some char := by
    rw [← split, List.head?_append]
    simp [show (rstrip (lstrip text)).head? = some char from first]
  simpa [lead] using List.head?_dropWhile_not isSpace text

theorem isSpace_getLast_strip (text : Text) {char : Char}
    (last : char ∈ (strip text).getLast?) : isSpace char = false := by
  have nonempty : strip text ≠ [] := by
    intro empty
    simp [empty] at last
  rw [List.getLast?_eq_some_getLast nonempty, Option.mem_def, Option.some.injEq] at last
  rw [← last]
  exact isSpace_getLast_rstrip nonempty

@[simp]
theorem strip_strip (text : Text) : strip (strip text) = strip text :=
  strip_eq_self (fun _ first => isSpace_head_strip first)
    (fun _ last => isSpace_getLast_strip _ last)

theorem rstrip_eq_self {text : Text} (last : ∀ char ∈ text.getLast?, isSpace char = false) :
    rstrip text = text := by
  apply List.rdropWhile_eq_self_iff.mpr
  intro nonempty
  simpa using last (text.getLast nonempty) (by simp [List.getLast?_eq_some_getLast nonempty])

theorem rstrip_append_space (text : Text) {char : Char} (space : isSpace char = true) :
    rstrip (text ++ [char]) = rstrip text := by
  simp [rstrip, space]

/-- A blank on each side of a stripped text is stripped off again. -/
theorem strip_padded {text : Text} (stripped : strip text = text) :
    strip (' ' :: (text ++ [' '])) = text := by
  have blank : isSpace ' ' = true := by decide
  cases text with
  | nil => decide
  | cons first rest =>
      have lead : isSpace first = false := isSpace_head_strip (by rw [stripped]; simp)
      have left : lstrip (' ' :: (first :: rest ++ [' '])) = first :: rest ++ [' '] := by
        simp [lstrip, blank, lead]
      rw [strip, left, rstrip_append_space _ blank]
      refine rstrip_eq_self fun char last => isSpace_getLast_strip (first :: rest) ?_
      rw [stripped]
      exact last

theorem strip_infix (text : Text) : strip text <:+: text :=
  (prefix_rstrip (lstrip text)).isInfix.trans (List.dropWhile_suffix isSpace).isInfix

theorem isSpace_of_mem_gap {text : Text} {char : Char} (member : char ∈ text.takeWhile isSpace) :
    isSpace char = true := List.mem_takeWhile_imp member

theorem gap_append_lstrip (text : Text) : text.takeWhile isSpace ++ lstrip text = text :=
  List.takeWhile_append_dropWhile

theorem gap_ne_nil {text : Text} (space : text.head?.any isSpace = true) :
    text.takeWhile isSpace ≠ [] := by
  cases text with
  | nil => cases space
  | cons char rest =>
      have first : isSpace char = true := by simpa using space
      simp [first]

theorem isSpace_head_lstrip {text : Text} {char : Char} (first : char ∈ (lstrip text).head?) :
    isSpace char = false := by
  have lead := List.head?_dropWhile_not isSpace text
  rw [show (text.dropWhile isSpace).head? = some char from first] at lead
  simpa using lead

/-- The end of a stripped text, from its first character that is no white space on, is
stripped. -/
theorem lstrip_of_suffix {text later : Text} (stripped : strip text = text)
    (ends : later <:+ text) (nonempty : later ≠ []) :
    lstrip later ≠ [] ∧ strip (lstrip later) = lstrip later := by
  have last : ∀ char ∈ later.getLast?, isSpace char = false := by
    intro char member
    refine isSpace_getLast_strip text ?_
    rcases ends with ⟨before, split⟩
    rw [stripped, ← split, List.getLast?_append, member]
    rfl
  have remains : lstrip later ≠ [] := by
    intro empty
    have blank : isSpace (later.getLast nonempty) = true :=
      List.dropWhile_eq_nil_iff.mp empty _ (List.getLast_mem nonempty)
    rw [last _ (List.getLast?_eq_some_getLast nonempty)] at blank
    exact absurd blank (by simp)
  refine ⟨remains, strip_eq_self (fun _ => isSpace_head_lstrip) ?_⟩
  intro char member
  refine last char ?_
  rw [← gap_append_lstrip later, List.getLast?_append, member]
  rfl

/-- What is in front of a stripped text keeps it whole. -/
theorem strip_append {left body : Text} (stripped : strip body = body) (nonempty : body ≠ []) :
    strip (left ++ body) = lstrip left ++ body := by
  have first : lstrip body = body :=
    lstrip_eq_self fun char first => isSpace_head_strip (by rwa [stripped])
  have leads : lstrip (left ++ body) = lstrip left ++ body := by
    rw [lstrip, List.dropWhile_append]
    split
    · next empty =>
        rw [List.isEmpty_iff] at empty
        rw [lstrip, empty, List.nil_append]
        exact first
    · rfl
  rw [strip, leads]
  apply rstrip_eq_self
  intro char last
  apply isSpace_getLast_strip body
  rw [stripped]
  simpa [List.getLast?_append, List.getLast?_eq_some_getLast nonempty] using last

/-- Around what `strip` leaves there is only white space. -/
theorem exists_around_strip (text : Text) :
    ∃ lead trail, (∀ char ∈ lead, isSpace char = true) ∧ (∀ char ∈ trail, isSpace char = true) ∧
      text = lead ++ strip text ++ trail := by
  refine ⟨text.takeWhile isSpace, (lstrip text).rtakeWhile isSpace,
    fun char => isSpace_of_mem_gap, fun char => List.mem_rtakeWhile_imp, ?_⟩
  have trimmed : strip text ++ (lstrip text).rtakeWhile isSpace = lstrip text :=
    List.rdropWhile_append_rtakeWhile
  rw [List.append_assoc, trimmed, gap_append_lstrip]

theorem strip_eq_nil_iff {text : Text} :
    strip text = [] ↔ ∀ char ∈ text, isSpace char = true := by
  constructor
  · intro empty char member
    rw [← gap_append_lstrip text, List.mem_append] at member
    rcases member with gap | later
    · exact isSpace_of_mem_gap gap
    · exact List.rdropWhile_eq_nil_iff.mp empty char later
  · intro blank
    exact List.rdropWhile_eq_nil_iff.mpr fun char member =>
      blank char ((List.dropWhile_suffix isSpace).subset member)

theorem head?_strip {text : Text} {char : Char} (first : text.head? = some char)
    (solid : isSpace char = false) : (strip text).head? = some char := by
  have lead : lstrip text = text := by
    apply lstrip_eq_self
    rintro other found
    rw [first] at found
    exact Option.some.inj found ▸ solid
  have remains : strip text ≠ [] := by
    intro empty
    have blank := strip_eq_nil_iff.mp empty char (List.mem_of_head? first)
    rw [solid] at blank
    cases blank
  have starts := prefix_rstrip (lstrip text)
  change strip text <+: lstrip text at starts
  rcases List.exists_cons_of_ne_nil remains with ⟨start, others, whole⟩
  rw [whole, lead] at starts
  rcases starts with ⟨behind, rfl⟩
  rw [whole]
  exact first

theorem lstrip_cons_blank (text : Text) : lstrip (' ' :: text) = lstrip text :=
  List.dropWhile_cons_of_pos (by decide)

/-- The characters of a text that are no white space. -/
def visibleChars (text : Text) : Text := text.filter fun char => !isSpace char

theorem visibleChars_append (left right : Text) :
    visibleChars (left ++ right) = visibleChars left ++ visibleChars right :=
  List.filter_append left right

theorem visibleChars_eq_nil_iff {text : Text} :
    visibleChars text = [] ↔ ∀ char ∈ text, isSpace char = true := by
  simp [visibleChars]

theorem visibleChars_lstrip (text : Text) : visibleChars (lstrip text) = visibleChars text := by
  have gap : visibleChars (text.takeWhile isSpace) = [] :=
    visibleChars_eq_nil_iff.mpr fun _ => isSpace_of_mem_gap
  conv_rhs => rw [← gap_append_lstrip text, visibleChars_append, gap, List.nil_append]

theorem visibleChars_rstrip (text : Text) : visibleChars (rstrip text) = visibleChars text := by
  have gap : visibleChars (text.rtakeWhile isSpace) = [] :=
    visibleChars_eq_nil_iff.mpr fun _ => List.mem_rtakeWhile_imp
  have whole : rstrip text ++ text.rtakeWhile isSpace = text :=
    List.rdropWhile_append_rtakeWhile
  conv_rhs => rw [← whole, visibleChars_append, gap, List.append_nil]

theorem visibleChars_strip (text : Text) : visibleChars (strip text) = visibleChars text := by
  rw [strip, visibleChars_rstrip, visibleChars_lstrip]

/-! ## Searching -/

theorem infix_of_mem_splitOn {piece text : Text} {separator : Char}
    (member : piece ∈ text.splitOn separator) : piece <:+: text ∧ separator ∉ piece := by
  have pieces : ∀ head tail, text.splitOn separator = head :: tail →
      (head <+: text ∧ separator ∉ head) ∧
        ∀ other ∈ tail, other <:+: text ∧ separator ∉ other := by
    clear member
    induction text with
    | nil =>
        intro head tail split
        obtain ⟨rfl, rfl⟩ : [] = head ∧ [] = tail := by simpa using split
        simp
    | cons char rest ih =>
        intro head tail split
        rw [List.splitOn_cons_eq_if_modifyHead] at split
        cases pieces : rest.splitOn separator with
        | nil => exact absurd pieces (List.splitOn_ne_nil separator rest)
        | cons first others =>
            rcases ih first others pieces with ⟨⟨lead, clean⟩, later⟩
            have further : ∀ other ∈ others, other <:+: char :: rest ∧ separator ∉ other :=
              fun other member => ⟨(later other member).1.trans (List.suffix_cons _ _).isInfix,
                (later other member).2⟩
            rw [pieces] at split
            by_cases same : char = separator
            · obtain ⟨rfl, rfl⟩ : [] = head ∧ first :: others = tail := by
                simpa [same] using split
              refine ⟨by simp, ?_⟩
              intro other member
              rcases List.mem_cons.mp member with rfl | later
              · exact ⟨lead.isInfix.trans (List.suffix_cons _ _).isInfix, clean⟩
              · exact further other later
            · obtain ⟨rfl, rfl⟩ : char :: first = head ∧ others = tail := by
                simpa [same] using split
              refine ⟨⟨?_, ?_⟩, further⟩
              · exact (List.prefix_cons_inj char).mpr lead
              · simp [Ne.symm same, clean]
  cases split : text.splitOn separator with
  | nil => exact absurd split (List.splitOn_ne_nil separator text)
  | cons head tail =>
      rcases pieces head tail split with ⟨⟨lead, clean⟩, later⟩
      rw [split] at member
      rcases List.mem_cons.mp member with rfl | within
      · exact ⟨lead.isInfix, clean⟩
      · exact later piece within

/-- To check the characters of a closed text, check its list. -/
theorem forall_of_all {text : Text} {holds : Char → Prop} [DecidablePred holds]
    (checked : text.all (fun char => decide (holds char)) = true) :
    ∀ char ∈ text, holds char := by
  simpa using checked

/-- A text without the character `separator` occurs in a text cut at that character only
within one of the two parts. -/
theorem infix_of_append_cons {needle left right : Text} {separator : Char}
    (foreign : separator ∉ needle) (found : needle <:+: left ++ separator :: right) :
    needle <:+: left ∨ needle <:+: right := by
  rcases found with ⟨before, after, split⟩
  rw [List.append_assoc] at split
  rcases List.append_eq_append_iff.mp split with
    ⟨gap, rfl, rest⟩ | ⟨gap, rfl, rest⟩
  · rcases List.append_eq_append_iff.mp rest with ⟨inner, rfl, tail⟩ | ⟨inner, within, tail⟩
    · exact .inl ⟨before, inner, by simp⟩
    · cases inner with
      | nil => exact .inl ⟨before, [], by simp [within]⟩
      | cons char inner =>
          obtain ⟨rfl, _⟩ := List.cons.inj tail
          exact absurd (by simp [within]) foreign
  · cases gap with
    | nil =>
        cases needle with
        | nil => exact .inl (List.nil_infix)
        | cons char needle =>
            obtain ⟨rfl, _⟩ := List.cons.inj rest
            exact absurd (by simp) foreign
    | cons char gap =>
        obtain ⟨rfl, tail⟩ := List.cons.inj rest
        exact .inr ⟨gap, after, by simp [tail]⟩

theorem infix_of_cons {needle right : Text} {separator : Char} (foreign : separator ∉ needle)
    (found : needle <:+: separator :: right) : needle <:+: right := by
  have cut : needle <:+: [] ++ separator :: right := found
  rcases infix_of_append_cons foreign cut with empty | within
  · exact (List.infix_nil.mp empty) ▸ List.nil_infix
  · exact within

theorem infix_of_concat {needle left : Text} {separator : Char} (foreign : separator ∉ needle)
    (found : needle <:+: left ++ [separator]) : needle <:+: left := by
  rcases infix_of_append_cons foreign found with within | empty
  · exact within
  · exact (List.infix_nil.mp empty) ▸ List.nil_infix

/-- The same for a cut at a separator none of whose characters occurs in the needle. -/
theorem infix_of_append_append {needle left separator right : Text} (nonempty : needle ≠ [])
    (proper : separator ≠ []) (foreign : ∀ char ∈ separator, char ∉ needle)
    (found : needle <:+: left ++ (separator ++ right)) :
    needle <:+: left ∨ needle <:+: right := by
  induction separator generalizing left with
  | nil => exact absurd rfl proper
  | cons char rest ih =>
      rcases infix_of_append_cons (foreign char (by simp)) found with inLeft | later
      · exact .inl inLeft
      · by_cases last : rest = []
        · subst last
          exact .inr later
        · have whole : needle <:+: [] ++ (rest ++ right) := later
          rcases ih last (fun other member => foreign other (by simp [member])) whole with
            empty | inRight
          · exact absurd (List.infix_nil.mp empty) nonempty
          · exact .inr inRight

/-- What stands in a joined text stands in one of the parts. -/
theorem exists_infix_of_intercalate {needle separator : Text} {parts : List Text}
    (nonempty : needle ≠ []) (proper : separator ≠ [])
    (foreign : ∀ char ∈ separator, char ∉ needle)
    (found : needle <:+: List.intercalate separator parts) :
    ∃ part ∈ parts, needle <:+: part := by
  induction parts with
  | nil => exact absurd (List.infix_nil.mp found) nonempty
  | cons part rest ih =>
      cases rest with
      | nil => exact ⟨part, by simp, by simpa [List.intercalate] using found⟩
      | cons next rest =>
          rw [List.intercalate_cons_cons, List.append_assoc] at found
          rcases infix_of_append_append nonempty proper foreign found with here | later
          · exact ⟨part, by simp, here⟩
          · rcases ih later with ⟨other, member, within⟩
            exact ⟨other, by simp [member], within⟩

/-- A prefix without the character at which a text is continued is a prefix of the text. -/
theorem prefix_of_append_cons {lead text more : Text} {char : Char} (foreign : char ∉ lead)
    (isPrefix : lead <+: text ++ char :: more) : lead <+: text := by
  have next : text ++ [char] <+: text ++ char :: more := ⟨more, by simp⟩
  rcases List.prefix_or_prefix_of_prefix isPrefix next with short | long
  · rcases List.prefix_concat_iff.mp short with rfl | within
    · exact absurd (by simp) foreign
    · exact within
  · exact absurd (long.subset (by simp)) foreign

/-- `str.partition`: the text before and after the first occurrence of a separator. -/
def breakOn (separator : Text) : Text → Option (Text × Text)
  | [] => if separator.isEmpty then some ([], []) else none
  | char :: rest =>
      if separator.isPrefixOf (char :: rest) then
        some ([], (char :: rest).drop separator.length)
      else (breakOn separator rest).map fun parts => (char :: parts.1, parts.2)

theorem breakOn_eq_none_iff {separator text : Text} :
    breakOn separator text = none ↔ ¬separator <:+: text := by
  induction text with
  | nil => cases separator <;> simp [breakOn]
  | cons char rest ih =>
      unfold breakOn
      rw [List.infix_cons_iff]
      by_cases here : separator <+: char :: rest
      · simp [List.isPrefixOf_iff_prefix.mpr here, here]
      · have elsewhere : separator.isPrefixOf (char :: rest) = false := by
          simpa [← List.isPrefixOf_iff_prefix] using here
        simp [elsewhere, here, ih]

/-- A separator is found at the start of a text or, if it does not stand there, behind its
first character. -/
theorem breakOn_cons_cases {separator rest before after : Text} {char : Char}
    (found : breakOn separator (char :: rest) = some (before, after)) :
    (before = [] ∧ char :: rest = separator ++ after) ∨
      (¬separator <+: char :: rest ∧
        ∃ front, before = char :: front ∧ breakOn separator rest = some (front, after)) := by
  unfold breakOn at found
  by_cases here : separator.isPrefixOf (char :: rest) = true
  · rcases List.isPrefixOf_iff_prefix.mp here with ⟨tail, split⟩
    simp only [here, if_true, Option.some.injEq, Prod.mk.injEq] at found
    rcases found with ⟨rfl, rfl⟩
    exact Or.inl ⟨rfl, by rw [← split, List.drop_left]⟩
  · rw [if_neg here] at found
    rcases Option.map_eq_some_iff.mp found with ⟨⟨front, last⟩, later, same⟩
    cases same
    exact Or.inr ⟨fun lead => here (List.isPrefixOf_iff_prefix.mpr lead), front, rfl, later⟩

theorem breakOn_of_not_prefix {separator rest : Text} {char : Char}
    (elsewhere : ¬separator <+: char :: rest) :
    breakOn separator (char :: rest) =
      (breakOn separator rest).map fun parts => (char :: parts.1, parts.2) := by
  rw [breakOn, if_neg (by rwa [List.isPrefixOf_iff_prefix])]

theorem breakOn_lead {separator : Text} (nonempty : separator ≠ []) (more : Text) :
    breakOn separator (separator ++ more) = some ([], more) := by
  cases separator with
  | nil => exact absurd rfl nonempty
  | cons first others =>
      have lead : (first :: others).isPrefixOf (first :: (others ++ more)) = true :=
        List.isPrefixOf_iff_prefix.mpr (List.prefix_append (first :: others) more)
      rw [List.cons_append, breakOn, if_pos lead, ← List.cons_append, List.drop_left]

theorem eq_of_breakOn {separator text before after : Text}
    (found : breakOn separator text = some (before, after)) :
    text = before ++ separator ++ after := by
  induction text generalizing before with
  | nil =>
      cases separator with
      | nil =>
          obtain ⟨rfl, rfl⟩ : [] = before ∧ [] = after := by simpa [breakOn] using found
          rfl
      | cons first others => simp [breakOn] at found
  | cons char rest ih =>
      rcases breakOn_cons_cases found with ⟨rfl, split⟩ | ⟨_, front, rfl, later⟩
      · exact split
      · rw [ih later]
        simp

/-- What follows a text does not change its first occurrence of a separator. -/
theorem breakOn_append {separator text before after : Text} (more : Text)
    (found : breakOn separator text = some (before, after)) :
    breakOn separator (text ++ more) = some (before, after ++ more) := by
  induction text generalizing before with
  | nil =>
      cases separator with
      | nil =>
          obtain ⟨rfl, rfl⟩ : [] = before ∧ [] = after := by simpa [breakOn] using found
          cases more <;> simp [breakOn]
      | cons first others => simp [breakOn] at found
  | cons char rest ih =>
      rcases breakOn_cons_cases found with ⟨rfl, split⟩ | ⟨elsewhere, front, rfl, later⟩
      · cases separator with
        | nil =>
            rw [split]
            cases after <;> simp [breakOn] at split ⊢
        | cons first others =>
            rw [split, List.append_assoc]
            exact breakOn_lead (List.cons_ne_nil _ _) _
      · have further : ¬separator <+: char :: (rest ++ more) := by
          intro lead
          have long : separator.length ≤ (char :: rest).length := by
            rw [eq_of_breakOn later]
            simp only [List.length_cons, List.length_append]
            omega
          exact elsewhere (List.prefix_of_prefix_length_le lead
            (List.prefix_append (char :: rest) more) long)
        rw [List.cons_append, breakOn_of_not_prefix further, ih later]
        rfl

/-- A text in which the separator does not start is passed over. -/
theorem breakOn_append_left {separator text more : Text}
    (absent : ∀ later, later <:+ text → later ≠ [] → ¬separator <+: later ++ more) :
    breakOn separator (text ++ more) =
      (breakOn separator more).map fun parts => (text ++ parts.1, parts.2) := by
  induction text with
  | nil => simp
  | cons char rest ih =>
      have notLead := absent (char :: rest) (List.suffix_refl _) (by simp)
      rw [List.cons_append, ← List.isPrefixOf_iff_prefix] at notLead
      rw [List.cons_append, breakOn, if_neg notLead,
        ih fun later ends => absent later (ends.trans (List.suffix_cons char rest)),
        Option.map_map]
      rfl

/-- What follows the first occurrence of a separator can be replaced. -/
theorem breakOn_replace {separator text before after : Text} (nonempty : separator ≠ [])
    (more : Text) (found : breakOn separator text = some (before, after)) :
    breakOn separator (before ++ (separator ++ more)) = some (before, more) := by
  induction text generalizing before with
  | nil =>
      cases separator with
      | nil => exact absurd rfl nonempty
      | cons first others => simp [breakOn] at found
  | cons char rest ih =>
      rcases breakOn_cons_cases found with ⟨rfl, _⟩ | ⟨elsewhere, front, rfl, later⟩
      · exact breakOn_lead nonempty more
      · have notLead : ¬separator <+: char :: (front ++ (separator ++ more)) := by
          intro lead
          have within : char :: (front ++ separator) <+: char :: rest := by
            rw [eq_of_breakOn later]
            exact ⟨after, by simp⟩
          have short : separator <+: char :: (front ++ separator) :=
            List.prefix_of_prefix_length_le lead ⟨more, by simp⟩ (by simp; omega)
          exact elsewhere (short.trans within)
        rw [List.cons_append, breakOn_of_not_prefix notLead, ih later]
        rfl

/-- `text.split(separator)[0]`. -/
def beforeFirst (separator text : Text) : Text :=
  match breakOn separator text with
  | some parts => parts.1
  | none => text

/-- `str.rfind`: where the last occurrence of a needle begins, or -1. -/
def rfind (needle : Text) : Text → Int
  | [] => if needle.isEmpty then 0 else -1
  | char :: rest =>
      if 0 ≤ rfind needle rest then rfind needle rest + 1
      else if needle.isPrefixOf (char :: rest) then 0 else -1

theorem rfind_le_length (needle text : Text) : rfind needle text ≤ text.length := by
  induction text with
  | nil =>
      unfold rfind
      split <;> simp
  | cons char rest ih =>
      unfold rfind
      simp only [List.length_cons]
      split_ifs <;> omega

theorem neg_one_le_rfind (needle text : Text) : -1 ≤ rfind needle text := by
  induction text with
  | nil =>
      unfold rfind
      split <;> simp
  | cons char rest ih =>
      unfold rfind
      split_ifs <;> omega

/-- `rfind` finds an occurrence. -/
theorem prefix_drop_rfind {needle text : Text} (found : 0 ≤ rfind needle text) :
    needle <+: text.drop (rfind needle text).toNat := by
  induction text with
  | nil =>
      cases needle with
      | nil => exact List.nil_prefix
      | cons first others => simp [rfind] at found
  | cons char rest ih =>
      rw [rfind] at found ⊢
      split_ifs at found ⊢ with later first
      · have place : (rfind needle rest + 1).toNat = (rfind needle rest).toNat + 1 := by omega
        rw [place, List.drop_succ_cons]
        exact ih later
      · simpa using first
      · omega

/-- No occurrence begins after the one that `rfind` finds. -/
theorem le_rfind {needle text : Text} {place : Nat} (nonempty : needle ≠ [])
    (found : needle <+: text.drop place) : (place : Int) ≤ rfind needle text := by
  induction text generalizing place with
  | nil =>
      rw [List.drop_nil, List.prefix_nil] at found
      exact absurd found nonempty
  | cons char rest ih =>
      rw [rfind]
      cases place with
      | zero =>
          split_ifs with later first
          · push_cast
            omega
          · simp
          · exact absurd (List.isPrefixOf_iff_prefix.mpr found) first
      | succ place =>
          have later := ih found
          rw [if_pos (by omega)]
          push_cast
          omega

theorem singleton_prefix_drop_iff {text : Text} {place : Nat} {char : Char} :
    [char] <+: text.drop place ↔ text[place]? = some char := by
  rw [← List.head?_drop]
  cases text.drop place with
  | nil => simp
  | cons first rest => simp [eq_comm]

theorem rfind_of_not_infix {needle text : Text} (absent : ¬needle <:+: text) :
    rfind needle text = -1 := by
  induction text with
  | nil =>
      cases needle with
      | nil => exact absurd List.nil_infix absent
      | cons first others => rfl
  | cons char rest ih =>
      rw [List.infix_cons_iff, not_or, ← List.isPrefixOf_iff_prefix] at absent
      rw [rfind, ih absent.2, if_neg (by omega), if_neg absent.1]

theorem rfind_append_left {needle text : Text} (found : 0 ≤ rfind needle text) (left : Text) :
    rfind needle (left ++ text) = left.length + rfind needle text := by
  induction left with
  | nil => simp
  | cons char rest ih =>
      have later : 0 ≤ rfind needle (rest ++ text) := by
        rw [ih]
        omega
      rw [List.cons_append, rfind, if_pos later, ih, List.length_cons]
      push_cast
      omega

/-! ## Lines -/

/-- `str.splitlines`: a carriage return and the newline after it are one boundary, and a
boundary at the end opens no further line. -/
def splitlines : Text → List Text
  | [] => []
  | '\r' :: '\n' :: rest => [] :: splitlines rest
  | char :: rest =>
      if isLineBreak char then [] :: splitlines rest
      else match splitlines rest with
        | [] => [[char]]
        | line :: lines => (char :: line) :: lines

theorem splitlines_cons_of_not_break {char : Char} {rest : Text}
    (inside : isLineBreak char = false) :
    splitlines (char :: rest) = match splitlines rest with
      | [] => [[char]]
      | line :: lines => (char :: line) :: lines := by
  have notReturn : char ≠ '\r' := by
    rintro rfl
    exact absurd inside (by decide)
  rw [splitlines]
  · simp [inside]
  · rintro other rfl
    exact absurd rfl notReturn

theorem splitlines_cons_of_break {char : Char} {rest : Text} (breaks : isLineBreak char = true)
    (single : char = '\r' → rest.head? ≠ some '\n') :
    splitlines (char :: rest) = [] :: splitlines rest := by
  rw [splitlines]
  · simp [breaks]
  · rintro other rfl rfl
    exact single rfl rfl

theorem splitlines_ne_nil {text : Text} (nonempty : text ≠ []) : splitlines text ≠ [] := by
  fun_cases splitlines text <;> simp_all

theorem isLineBreak_of_mem_splitlines {text line : Text} {char : Char}
    (lineMem : line ∈ splitlines text) (charMem : char ∈ line) : isLineBreak char = false := by
  fun_induction splitlines text generalizing line with
  | case1 => simp at lineMem
  | case2 rest ih =>
      rcases List.mem_cons.mp lineMem with rfl | later
      · simp at charMem
      · exact ih later charMem
  | case3 first rest notPair breaks ih =>
      rcases List.mem_cons.mp lineMem with rfl | later
      · simp at charMem
      · exact ih later charMem
  | case4 first rest notPair inside none ih =>
      obtain rfl : line = [first] := by simpa using lineMem
      obtain rfl : char = first := by simpa using charMem
      simpa using inside
  | case5 first rest notPair inside here lines split ih =>
      rcases List.mem_cons.mp lineMem with rfl | later
      · rcases List.mem_cons.mp charMem with rfl | within
        · simpa using inside
        · exact ih (by simp [split]) within
      · exact ih (by simp [split, later]) charMem

/-- A newline after a text that does not end in a boundary ends its last line. -/
theorem splitlines_append_newline {text : Text} (nonempty : text ≠ [])
    (last : ∀ char ∈ text.getLast?, isLineBreak char = false) (rest : Text) :
    splitlines (text ++ '\n' :: rest) = splitlines text ++ splitlines rest := by
  fun_induction splitlines text with
  | case1 => exact absurd rfl nonempty
  | case2 tail ih =>
      by_cases empty : tail = []
      · subst empty
        exact absurd (last '\n' (by simp)) (by decide)
      · have rest := ih empty (by
          simpa [List.getLast?_cons_of_ne_nil, empty] using last)
        simp only [List.cons_append, splitlines, rest]
  | case3 first tail notPair breaks ih =>
      by_cases empty : tail = []
      · subst empty
        exact absurd (last first (by simp)) (by simp [breaks])
      · have rest := ih empty (by simpa [List.getLast?_cons_of_ne_nil, empty] using last)
        rw [List.cons_append, splitlines_cons_of_break breaks, rest, List.cons_append]
        rintro rfl
        cases tail with
        | nil => exact absurd rfl empty
        | cons second tail =>
            intro head
            obtain rfl : second = '\n' := by simpa using head
            exact notPair tail rfl rfl
  | case4 first tail notPair inside none ih =>
      obtain rfl : tail = [] := by
        by_contra nonempty
        exact splitlines_ne_nil nonempty none
      rw [List.cons_append, splitlines_cons_of_not_break (by simpa using inside),
        List.nil_append, splitlines_cons_of_break (by decide) (by simp)]
      rfl
  | case5 first tail notPair inside here lines split ih =>
      have nonempty : tail ≠ [] := by
        rintro rfl
        simp [splitlines] at split
      have rest := ih nonempty (by simpa [List.getLast?_cons_of_ne_nil, nonempty] using last)
      rw [List.cons_append, splitlines_cons_of_not_break (by simpa using inside), rest, split]
      rfl

theorem splitlines_line {line : Text} (inside : ∀ char ∈ line, isLineBreak char = false)
    (rest : Text) : splitlines (line ++ '\n' :: rest) = line :: splitlines rest := by
  induction line with
  | nil => exact splitlines_cons_of_break (by decide) (by simp)
  | cons char tail ih =>
      rw [List.cons_append, splitlines_cons_of_not_break (inside char (by simp)),
        ih fun other member => inside other (by simp [member])]

theorem splitlines_intercalate (lines : List Text)
    (inside : ∀ line ∈ lines, ∀ char ∈ line, isLineBreak char = false) (nonempty : lines ≠ []) :
    splitlines (List.intercalate ['\n'] lines ++ ['\n']) = lines := by
  induction lines with
  | nil => exact absurd rfl nonempty
  | cons line rest ih =>
      have first := inside line (by simp)
      cases rest with
      | nil => simpa [List.intercalate, splitlines] using splitlines_line first []
      | cons next rest =>
          have later := ih (fun other member => inside other (by simp [member])) (by simp)
          have joined : List.intercalate ['\n'] (line :: next :: rest) ++ ['\n'] =
              line ++ '\n' :: (List.intercalate ['\n'] (next :: rest) ++ ['\n']) := by
            simp [List.intercalate]
          rw [joined, splitlines_line first, later]

end Text

end Library
