import Mathlib.Data.Rat.Defs
import OrcaValidator.Library.Effect
import OrcaValidator.Library.Regex
import OrcaValidator.Library.Substitution

/-!
# The extracted machine

`extract_state_machine`: what the model replies is freed of code fences, and its header is
given the keyword `machine` where it lacks it.

A fence is removed with the letters behind it.  Whatever else its info string has stays in
front of the machine, where the header is then looked for.
-/

namespace OrcaValidator

open Library

/-! ## Fences -/

/-- What a code fence begins with. -/
def fence : Text := "```".toList

/-- `\n?`. -/
def dropNewline : Text → Text
  | '\n' :: rest => rest
  | text => text

theorem length_dropNewline_le (text : Text) : (dropNewline text).length ≤ text.length := by
  fun_cases dropNewline text <;> simp

/-- Remove a match of ```` ^```[a-zA-Z]*\n? ````. -/
def dropOpeningFence (md : Text) : Text :=
  if fence.isPrefixOf md then dropNewline ((md.drop fence.length).dropWhile Char.isAlpha)
  else md

/-- ```` \n?```$ ````, replaced by nothing; a newline may stand behind the `$`. -/
def closingFence : Pattern where
  step := fun text =>
    if dropNewline text = fence then some ([], [])
    else if dropNewline text = fence ++ ['\n'] then some ([], ['\n'])
    else none
  shorter := by
    intro text replacement after matched
    have long := length_dropNewline_le text
    split at matched
    · next whole =>
        cases matched
        rw [whole] at long
        exact lt_of_lt_of_le (by decide) long
    · split at matched
      · next whole =>
          cases matched
          rw [whole] at long
          exact lt_of_lt_of_le (by decide) long
      · cases matched

/-- A machine between code fences. -/
def fenced (info body : Text) : Text :=
  fence ++ (info ++ ('\n' :: (body ++ ('\n' :: fence))))

/-- Letters of ASCII, and white space behind them. -/
def PlainInfo (info : Text) : Prop :=
  ∀ char ∈ info.dropWhile Char.isAlpha, Text.isSpace char = true

theorem step_closingFence_append {text : Text} (nonempty : text ≠ []) :
    closingFence.step (text ++ '\n' :: fence) = none := by
  have newline : ('\n' : Char) ≠ '`' := by decide
  have rest : ∃ more, dropNewline (text ++ '\n' :: fence) = more ++ '\n' :: fence := by
    cases text with
    | nil => exact absurd rfl nonempty
    | cons char text =>
        by_cases first : char = '\n'
        · exact ⟨text, by rw [first]; rfl⟩
        · exact ⟨char :: text, by simp [dropNewline, first]⟩
  rcases rest with ⟨more, rest⟩
  have notFence : more ++ '\n' :: fence ≠ fence := by
    intro same
    have lengths := congrArg List.length same
    simp only [List.length_append, List.length_cons] at lengths
    omega
  have notBroken : more ++ '\n' :: fence ≠ fence ++ ['\n'] := by
    intro same
    have lasts := congrArg List.getLast? same
    simp [fence] at lasts
  simp only [closingFence, rest, if_neg notFence, if_neg notBroken]

theorem sub_closingFence (text : Text) :
    closingFence.sub (text ++ '\n' :: fence) = text := by
  have found : closingFence.sub ('\n' :: fence) = [] := by
    rw [@Pattern.sub_of_some closingFence '\n' fence [] [] rfl]
    rfl
  rw [Pattern.sub_append_of_none fun later _ => step_closingFence_append, found, List.append_nil]

/-- The opening fence goes, and with it the letters behind it. -/
theorem dropOpeningFence_fenced (info body : Text) :
    ∃ left, dropOpeningFence (fenced info body) = left ++ (body ++ '\n' :: fence) ∧
      Text.visibleChars left = Text.visibleChars (info.dropWhile Char.isAlpha) := by
  have lead : fence.isPrefixOf (fenced info body) = true :=
    List.isPrefixOf_iff_prefix.mpr (List.prefix_append _ _)
  have blank : Text.visibleChars ['\n'] = [] := rfl
  rw [dropOpeningFence, if_pos lead, fenced, List.drop_left, List.dropWhile_append]
  cases info.dropWhile Char.isAlpha with
  | nil => exact ⟨[], rfl, rfl⟩
  | cons first more =>
      by_cases newline : first = '\n'
      · refine ⟨more ++ ['\n'], by simp [newline, dropNewline], ?_⟩
        rw [newline, Text.visibleChars_append, blank, List.append_nil]
        rfl
      · refine ⟨first :: more ++ ['\n'], by simp [newline, dropNewline], ?_⟩
        rw [Text.visibleChars_append, blank, List.append_nil]

theorem strip_fenced (info body : Text) : Text.strip (fenced info body) = fenced info body := by
  apply Text.strip_eq_self
  · intro char first
    obtain rfl : '`' = char := by simpa [fenced, fence] using first
    decide
  · intro char last
    have ends : fenced info body = "```".toList ++ (info ++ ('\n' :: (body ++ "\n``".toList))) ++
        ['`'] := by simp [fenced, fence]
    rw [ends, List.getLast?_concat] at last
    cases last
    decide

/-! ## The header -/

/-- Whether a lower-case letter, or another character, matches under `re.IGNORECASE`. -/
def ignoresCase (letter char : Char) : Bool :=
  char.toLower == letter || (letter == 'i' && (char == 'İ' || char == 'ı'))

/-- What follows a word at the start of a text, up to letter case. -/
def afterWord : Text → Text → Option Text
  | [], text => some text
  | letter :: word, char :: rest => if ignoresCase letter char then afterWord word rest else none
  | _ :: _, [] => none

/-- The word by which a header is known. -/
def machineWord : Text := "machine".toList

/-- What a header is repaired with. -/
def machineLead : Text := "# machine ".toList

/-- A text starts with `# machine`, up to letter case. -/
def StartsMachine (text : Text) : Prop := (afterWord "# machine".toList text).isSome = true

theorem not_isSpace_of_ignoresCase {char : Char} (same : ignoresCase 'm' char = true) :
    Text.isSpace char = false := by
  by_contra space
  rw [Bool.not_eq_false] at space
  simp only [ignoresCase, Interpreter.toLower_of_isSpace space] at same
  obtain rfl : char = 'm' := by simpa using same
  exact absurd space (by decide)

/-- In a text with white space behind its `#`, that is the blank, with the word behind it. -/
theorem startsMachine_cons {space : Char} {rest : Text} (blank : Text.isSpace space = true) :
    StartsMachine ('#' :: space :: rest) ↔
      space = ' ' ∧ (afterWord machineWord rest).isSome = true := by
  have lower := Interpreter.toLower_of_isSpace blank
  have unfolded : afterWord "# machine".toList ('#' :: space :: rest) =
      if ignoresCase ' ' space = true then afterWord machineWord rest else none := rfl
  have same : ignoresCase ' ' space = true ↔ space = ' ' := by simp [ignoresCase, lower]
  rw [StartsMachine, unfolded]
  by_cases equal : space = ' '
  · rw [if_pos (same.mpr equal)]
    exact ⟨fun starts => ⟨equal, starts⟩, And.right⟩
  · rw [if_neg (mt same.mp equal)]
    exact iff_of_false nofun fun both => equal both.1

theorem length_visibleChars_header {gap : Text} (rest : Text)
    (space : ∀ char ∈ gap, Text.isSpace char = true) :
    (Text.visibleChars ('#' :: (gap ++ rest))).length = 1 + (Text.visibleChars rest).length := by
  have blank := Text.visibleChars_eq_nil_iff.mpr space
  rw [← List.singleton_append, Text.visibleChars_append, Text.visibleChars_append, blank,
    List.length_append]
  rfl

theorem length_visibleChars_keyword (rest : Text) :
    (Text.visibleChars (machineLead ++ rest)).length =
      8 + (Text.visibleChars rest).length := by
  rw [Text.visibleChars_append, List.length_append]
  rfl

section Replies

variable [Interpreter]

/-- `re.match(r"^#\s+machine\b", md, re.IGNORECASE)`. -/
def hasKeyword (md : Text) : Bool :=
  match md with
  | '#' :: rest =>
      rest.head?.any Text.isSpace &&
        (afterWord machineWord (Text.lstrip rest)).any fun after =>
          !Regex.isWordAt after.head?
  | _ => false

/-- Give a header the keyword. -/
def repairHeader (md : Text) : Text :=
  if hasKeyword md then md
  else match md with
    | '#' :: rest =>
        if rest.head?.any Text.isSpace then machineLead ++ Text.lstrip rest else md
    | _ => md

/-- What `extract_state_machine` makes of a reply. -/
def machineOfReply (reply : Text) : Text :=
  let md := Text.strip reply
  let md := if fence.isPrefixOf md then closingFence.sub (dropOpeningFence md) else md
  Text.strip (repairHeader (Text.strip md))

/-! ## Fenced machines -/

/-- Fences with this info string are harmless, and the machine has its header. -/
structure FencesHarmless (info body : Text) : Prop where
  same : machineOfReply (fenced info body) = machineOfReply body
  header : ∀ space rest, body = '#' :: space :: rest → Text.isSpace space = true →
    StartsMachine (machineOfReply body)

/-- If the header has the keyword, there is one blank before it. -/
def OneBlank (body : Text) : Prop :=
  hasKeyword body = true → ∃ rest, body = '#' :: ' ' :: rest ∧
    ∀ char ∈ rest.head?, Text.isSpace char = false

/-! ## Without the fences -/

/-- Of a fenced machine, what the fence leaves of its info string stays in front. -/
theorem machineOfReply_fenced {body : Text} (stripped : Text.strip body = body)
    (nonempty : body ≠ []) (info : Text) :
    ∃ left, machineOfReply (fenced info body) = Text.strip (repairHeader (left ++ body)) ∧
      Text.visibleChars left = Text.visibleChars (info.dropWhile Char.isAlpha) ∧
      Text.strip (left ++ body) = left ++ body := by
  rcases dropOpeningFence_fenced info body with ⟨left, opened, visible⟩
  have lead : fence.isPrefixOf (fenced info body) = true :=
    List.isPrefixOf_iff_prefix.mpr (List.prefix_append _ _)
  have whole := @Text.strip_append left body stripped nonempty
  refine ⟨Text.lstrip left, ?_, by rw [Text.visibleChars_lstrip, visible], ?_⟩
  · simp only [machineOfReply, strip_fenced, if_pos lead, opened]
    rw [← List.append_assoc, sub_closingFence, whole]
  · rw [← whole, Text.strip_strip]

theorem machineOfReply_unfenced {body : Text} (stripped : Text.strip body = body)
    (lead : body.head? = some '#') : machineOfReply body = Text.strip (repairHeader body) := by
  have unfenced : ¬fence.isPrefixOf body = true := by
    rw [List.isPrefixOf_iff_prefix]
    rintro ⟨rest, rfl⟩
    simp [fence] at lead
  simp only [machineOfReply, stripped, if_neg unfenced]

/-! ## The repair -/

/-- A header that is repaired, or stays as it is. -/
theorem repairHeader_cases (md : Text) :
    repairHeader md = md ∨ ∃ gap rest, md = '#' :: (gap ++ rest) ∧
      (∀ char ∈ gap, Text.isSpace char = true) ∧ gap ≠ [] ∧
      repairHeader md = machineLead ++ rest := by
  fun_cases repairHeader md with
  | case1 => exact Or.inl rfl
  | case2 rest space _ =>
      exact Or.inr ⟨rest.takeWhile Text.isSpace, Text.lstrip rest,
        congrArg ('#' :: ·) (Text.gap_append_lstrip rest).symm,
        fun char => Text.isSpace_of_mem_gap, Text.gap_ne_nil space, rfl⟩
  | case3 => exact Or.inl rfl
  | case4 => exact Or.inl rfl

theorem strip_repairHeader {md : Text} (stripped : Text.strip md = md) :
    Text.strip (repairHeader md) = repairHeader md := by
  rcases repairHeader_cases md with same | ⟨gap, rest, rfl, space, proper, repaired⟩
  · rw [same, stripped]
  · have visible : rest ≠ [] := by
      rintro rfl
      have blank : Text.isSpace (gap.getLast proper) = false := by
        apply Text.isSpace_getLast_strip ('#' :: (gap ++ []))
        rw [stripped, List.append_nil, List.getLast?_cons, List.getLast?_eq_some_getLast proper]
        rfl
      rw [space _ (List.getLast_mem proper)] at blank
      cases blank
    rw [repaired]
    apply Text.strip_eq_self
    · intro char first
      have head : (machineLead ++ rest).head? = some '#' := rfl
      rw [head] at first
      cases first
      decide
    · intro char last
      apply Text.isSpace_getLast_strip ('#' :: (gap ++ rest))
      rw [List.getLast?_append, List.getLast?_eq_some_getLast visible] at last
      rw [stripped, ← List.cons_append, List.getLast?_append,
        List.getLast?_eq_some_getLast visible]
      exact last

/-- A machine behind something that can be seen is not repaired to what it is itself. -/
theorem repairHeader_append_ne {left body : Text} (visible : Text.visibleChars left ≠ []) :
    repairHeader (left ++ body) ≠ repairHeader body := by
  have more : 0 < (Text.visibleChars left).length := List.length_pos_iff.mpr visible
  have whole : (Text.visibleChars (left ++ body)).length =
      (Text.visibleChars left).length + (Text.visibleChars body).length := by
    rw [Text.visibleChars_append, List.length_append]
  intro same
  have lengths := congrArg List.length (congrArg Text.visibleChars same)
  rcases repairHeader_cases body with kept | ⟨gap, rest, split, space, _, repaired⟩
  · rcases repairHeader_cases (left ++ body) with
      kept' | ⟨gap', rest', split', space', _, repaired'⟩
    · rw [kept, kept'] at lengths
      omega
    · rw [kept, repaired', length_visibleChars_keyword] at lengths
      rw [split', length_visibleChars_header rest' space'] at whole
      omega
  · rcases repairHeader_cases (left ++ body) with
      kept' | ⟨gap', rest', split', space', _, repaired'⟩
    · -- the `#` of the machine would be the one of its header
      rw [kept', repaired, split, ← List.cons_append, ← List.append_assoc] at same
      have leads := List.append_cancel_right same
      cases left with
      | nil => exact visible rfl
      | cons first left =>
          have parts : machineLead = '#' :: " machine ".toList := rfl
          rw [parts, List.cons_append] at leads
          have hash : '#' ∈ " machine ".toList := by
            rw [← (List.cons.inj leads).2]
            exact List.mem_append_right _ List.mem_cons_self
          exact absurd hash (by decide)
    · rw [repaired, repaired'] at same
      have tails := List.append_cancel_left same
      rw [split', length_visibleChars_header rest' space', split,
        length_visibleChars_header rest space, tails] at whole
      omega

/-! ## The header of the result -/

theorem exists_space_of_hasKeyword {body : Text} (keyword : hasKeyword body = true) :
    ∃ space rest after, body = '#' :: space :: rest ∧ Text.isSpace space = true ∧
      afterWord machineWord (Text.lstrip (space :: rest)) = some after := by
  fun_cases hasKeyword body with
  | case1 rest =>
      simp only [hasKeyword, Bool.and_eq_true] at keyword
      cases rest with
      | nil => cases keyword.1
      | cons space rest =>
          rcases (Option.any_eq_true _ _).mp keyword.2 with ⟨after, found, _⟩
          exact ⟨space, rest, after, rfl, by simpa using keyword.1, found⟩
  | case2 => simp [hasKeyword] at keyword

/-- The machine has its header, unless the keyword is not where it is put in a repair. -/
theorem startsMachine_iff {body : Text} {space : Char} {rest : Text}
    (header : body = '#' :: space :: rest) (blank : Text.isSpace space = true) :
    StartsMachine (repairHeader body) ↔ OneBlank body := by
  by_cases keyword : hasKeyword body = true
  · have kept : repairHeader body = body := by simp only [repairHeader, if_pos keyword]
    rw [kept]
    simp only [OneBlank, keyword, true_implies]
    rcases exists_space_of_hasKeyword keyword with ⟨_, _, after, same, _, found⟩
    obtain ⟨rfl, rfl⟩ := List.cons.inj (List.cons.inj (header.symm.trans same)).2
    rw [header, startsMachine_cons blank]
    constructor
    · rintro ⟨rfl, starts⟩
      refine ⟨rest, rfl, fun char first => ?_⟩
      cases rest with
      | nil => cases first
      | cons other rest =>
          cases first
          have unfolded : afterWord machineWord (char :: rest) =
              if ignoresCase 'm' char = true then afterWord machineWord.tail rest else none := rfl
          rw [unfolded] at starts
          split at starts
          · next same => exact not_isSpace_of_ignoresCase same
          · cases starts
    · rintro ⟨rest', same', visible⟩
      obtain ⟨rfl, rfl⟩ := List.cons.inj (List.cons.inj same').2
      have stripped := Text.lstrip_cons_blank rest
      rw [stripped, Text.lstrip_eq_self visible] at found
      exact ⟨rfl, Option.isSome_iff_exists.mpr ⟨after, found⟩⟩
  · have repaired : repairHeader body = machineLead ++ Text.lstrip (space :: rest) := by
      rw [header] at keyword ⊢
      simp [repairHeader, keyword, blank]
    refine iff_of_true ?_ fun has => absurd has keyword
    rw [repaired]
    rfl

/-- Fences are harmless, and the machine has its header, exactly if their info string has
nothing but white space behind its letters, and the keyword of the header, if it has one,
stands behind one blank. -/
theorem fencesHarmless_iff {info body : Text} (lead : body.head? = some '#')
    (stripped : Text.strip body = body) :
    FencesHarmless info body ↔ PlainInfo info ∧ OneBlank body := by
  have nonempty : body ≠ [] := by
    rintro rfl
    cases lead
  rcases machineOfReply_fenced stripped nonempty info with ⟨left, outcome, visible, whole⟩
  have unfenced := machineOfReply_unfenced stripped lead
  rw [strip_repairHeader stripped] at unfenced
  rw [strip_repairHeader whole] at outcome
  have plain : PlainInfo info ↔ Text.visibleChars left = [] := by
    rw [visible, Text.visibleChars_eq_nil_iff]
    rfl
  constructor
  · rintro ⟨same, header⟩
    refine ⟨?_, fun keyword => ?_⟩
    · rw [plain]
      by_contra seen
      rw [outcome, unfenced] at same
      exact repairHeader_append_ne seen same
    · rcases exists_space_of_hasKeyword keyword with ⟨space, rest, _, split, blank, _⟩
      have starts := header space rest split blank
      rw [unfenced] at starts
      exact (startsMachine_iff split blank).mp starts keyword
  · rintro ⟨plainInfo, oneBlank⟩
    refine ⟨?_, fun space rest split blank => ?_⟩
    · have gone : left ++ body = body := by
        have blank := Text.visibleChars_eq_nil_iff.mp (plain.mp plainInfo)
        have nothing : Text.lstrip left = [] := List.dropWhile_eq_nil_iff.mpr blank
        rw [← whole, Text.strip_append stripped nonempty, nothing, List.nil_append]
      rw [outcome, unfenced, gone]
    · rw [unfenced]
      exact (startsMachine_iff split blank).mpr oneBlank

end Replies

section Fences

attribute [local instance] Interpreter.ascii

/-- A machine without the keyword. -/
def leaseMachine : Text := "# Lease\n\n## state signed [initial]".toList

theorem fencesHarmless_iff_lease : FencesHarmless "orca".toList leaseMachine :=
  (fencesHarmless_iff rfl (by decide +kernel)).mpr
    ⟨Text.forall_of_all (by decide), fun keyword => by cases keyword⟩

/-- The rest of the info string stays in front of the header, which is not repaired. -/
theorem not_fencesHarmless_lease :
    (leaseMachine.head? = some '#' ∧ Text.strip leaseMachine = leaseMachine ∧
      '`' ∉ leaseMachine) ∧ ¬FencesHarmless "orca.md".toList leaseMachine := by
  refine ⟨by decide +kernel, fun harmless => ?_⟩
  have same := harmless.same
  revert same
  decide +kernel

end Fences

end OrcaValidator
