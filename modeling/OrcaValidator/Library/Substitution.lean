import OrcaValidator.Library.Text

/-!
# Substitution of patterns

`re.sub`: the leftmost match of a pattern is replaced, and the search goes on behind it.
A pattern says how a match at the start of a text is replaced and what text follows it.
Two kinds are provided: a span between two markers, closed by the first closing marker
after the opening one, and a set of literal markers.

The question answered here is when substitution can be done part by part.  A span is
closed by whatever closing marker comes first, so an opening marker that its own part
leaves open reaches for one in a later part; without such a pair, the parts are
independent.
-/

namespace Library

/-- A pattern with its replacement: where a text starts with a match, the replacement of
the match and the text behind it. -/
structure Pattern where
  step : Text → Option (Text × Text)
  shorter : ∀ {text replacement after}, step text = some (replacement, after) →
    after.length < text.length

namespace Pattern

variable (pattern : Pattern)

/-- The loop of the substitution, which stops at the end of the text or of the fuel. -/
def subFuel : ℕ → Text → Text
  | 0, text => text
  | _ + 1, [] => []
  | fuel + 1, char :: rest =>
      match pattern.step (char :: rest) with
      | some (replacement, after) => replacement ++ subFuel fuel after
      | none => char :: subFuel fuel rest

/-- `re.sub`. -/
def sub (text : Text) : Text := pattern.subFuel text.length text

/-- The substitution, started somewhere in a text, arrives at a later position. -/
inductive Arrives : Text → Text → Prop where
  | here (text : Text) : Arrives text text
  | keep {char : Char} {rest later : Text} (unmatched : pattern.step (char :: rest) = none)
      (arrives : Arrives rest later) : Arrives (char :: rest) later
  | replace {char : Char} {rest replacement after later : Text}
      (matched : pattern.step (char :: rest) = some (replacement, after))
      (arrives : Arrives after later) : Arrives (char :: rest) later

variable {pattern}

/-- A loop over a text that goes on behind each match does not depend on its fuel, if there is
as much as there is text. -/
theorem fuel_eq_fuel {Result : Type} {loop : ℕ → Text → Result} (keep : Char → Result → Result)
    (replace : Text → Result → Result) (ends : ∀ fuel other, loop fuel [] = loop other [])
    (keeps : ∀ {fuel char rest}, pattern.step (char :: rest) = none →
      loop (fuel + 1) (char :: rest) = keep char (loop fuel rest))
    (replaces : ∀ {fuel char rest replacement after},
      pattern.step (char :: rest) = some (replacement, after) →
        loop (fuel + 1) (char :: rest) = replace replacement (loop fuel after))
    {fuel other : ℕ} {text : Text} (enough : text.length ≤ fuel)
    (otherEnough : text.length ≤ other) : loop fuel text = loop other text := by
  induction fuel generalizing other text with
  | zero =>
      obtain rfl : text = [] := by simpa using enough
      exact ends 0 other
  | succ fuel ih =>
      cases text with
      | nil => exact ends (fuel + 1) other
      | cons char rest =>
          cases other with
          | zero => simp at otherEnough
          | succ other =>
              simp only [List.length_cons, Nat.add_le_add_iff_right] at enough otherEnough
              cases matched : pattern.step (char :: rest) with
              | none => rw [keeps matched, keeps matched, ih enough otherEnough]
              | some found =>
                  have shorter := pattern.shorter matched
                  simp only [List.length_cons] at shorter
                  have inner : loop fuel found.2 = loop other found.2 :=
                    ih (by omega) (by omega)
                  rw [replaces matched, replaces matched, inner]

theorem subFuel_eq_subFuel {fuel other : ℕ} {text : Text} (enough : text.length ≤ fuel)
    (otherEnough : text.length ≤ other) :
    pattern.subFuel fuel text = pattern.subFuel other text := by
  refine @fuel_eq_fuel pattern _ _ List.cons (fun replacement later => replacement ++ later) ?_
    (fun unmatched => ?_) (fun matched => ?_) _ _ _ enough otherEnough
  · intro fuel other
    cases fuel <;> cases other <;> rfl
  · rw [subFuel, unmatched]
  · rw [subFuel, matched]

@[simp]
theorem sub_nil : pattern.sub [] = [] := rfl

theorem sub_of_none {char : Char} {rest : Text} (unmatched : pattern.step (char :: rest) = none) :
    pattern.sub (char :: rest) = char :: pattern.sub rest := by
  simp only [sub, List.length_cons, subFuel, unmatched]

theorem sub_of_some {char : Char} {rest replacement after : Text}
    (matched : pattern.step (char :: rest) = some (replacement, after)) :
    pattern.sub (char :: rest) = replacement ++ pattern.sub after := by
  have shorter := pattern.shorter matched
  simp only [List.length_cons] at shorter
  simp only [sub, List.length_cons, subFuel, matched]
  rw [subFuel_eq_subFuel (by omega) (Nat.le_refl _)]

theorem sub_of_step {text replacement after : Text}
    (matched : pattern.step text = some (replacement, after)) :
    pattern.sub text = replacement ++ pattern.sub after := by
  cases text with
  | nil => exact absurd (pattern.shorter matched) (by simp)
  | cons char rest => exact sub_of_some matched

/-- A text in which nothing matches is passed over. -/
theorem sub_append_of_none {text more : Text}
    (unmatched : ∀ later, later <:+ text → later ≠ [] → pattern.step (later ++ more) = none) :
    pattern.sub (text ++ more) = text ++ pattern.sub more := by
  induction text with
  | nil => rfl
  | cons char rest ih =>
      have start := unmatched (char :: rest) (List.suffix_refl _) (by simp)
      rw [List.cons_append] at start ⊢
      rw [sub_of_none start, List.cons_append,
        ih fun later ends => unmatched later (ends.trans (List.suffix_cons char rest))]

theorem sub_eq_self {text : Text}
    (unmatched : ∀ later, later <:+ text → later ≠ [] → pattern.step later = none) :
    pattern.sub text = text := by
  have passed := @sub_append_of_none pattern text [] (by simpa using unmatched)
  simpa using passed

/-- A text that is followed by another is substituted on its own when no match at a
position that the substitution arrives at depends on what follows. -/
theorem sub_append {text more : Text}
    (independent : ∀ later, pattern.Arrives text later → later ≠ [] →
      pattern.step (later ++ more) =
        (pattern.step later).map fun found => (found.1, found.2 ++ more)) :
    pattern.sub (text ++ more) = pattern.sub text ++ pattern.sub more := by
  induction length : text.length using Nat.strong_induction_on generalizing text with
  | _ length' ih =>
      subst length
      cases text with
      | nil => rfl
      | cons char rest =>
          have start := independent _ (.here _) (by simp)
          rw [List.cons_append] at start ⊢
          cases matched : pattern.step (char :: rest) with
          | none =>
              rw [matched] at start
              rw [sub_of_none start, sub_of_none matched, List.cons_append]
              congr 1
              exact ih _ (by simp) (fun later arrives =>
                independent later (.keep matched arrives)) rfl
          | some found =>
              rw [matched] at start
              rcases found with ⟨replacement, after⟩
              rw [sub_of_some start, sub_of_some matched, List.append_assoc]
              congr 1
              exact ih _ (pattern.shorter matched) (fun later arrives =>
                independent later (.replace matched arrives)) rfl

/-! ## Splitting -/

section Split

/-- Put a character in front of the first piece. -/
def pushChar (char : Char) : List Text → List Text
  | [] => [[char]]
  | piece :: pieces => (char :: piece) :: pieces

variable (pattern) in
/-- The loop of the split, which stops at the end of the text or of the fuel. -/
def splitFuel : ℕ → Text → List Text
  | 0, text => [text]
  | _ + 1, [] => [[]]
  | fuel + 1, char :: rest =>
      match pattern.step (char :: rest) with
      | some (matched, after) => [] :: matched :: splitFuel fuel after
      | none => pushChar char (splitFuel fuel rest)

variable (pattern) in
/-- `text.split` with a captured pattern: the pieces between the matches, and the matches
as the pattern replaces them. -/
def split (text : Text) : List Text := pattern.splitFuel text.length text

theorem splitFuel_eq_splitFuel {fuel other : ℕ} {text : Text} (enough : text.length ≤ fuel)
    (otherEnough : text.length ≤ other) :
    pattern.splitFuel fuel text = pattern.splitFuel other text := by
  refine @fuel_eq_fuel pattern _ _ pushChar (fun piece pieces => [] :: piece :: pieces) ?_
    (fun unmatched => ?_) (fun matched => ?_) _ _ _ enough otherEnough
  · intro fuel other
    cases fuel <;> cases other <;> rfl
  · rw [splitFuel, unmatched]
  · rw [splitFuel, matched]

theorem split_of_none {char : Char} {rest : Text}
    (unmatched : pattern.step (char :: rest) = none) :
    pattern.split (char :: rest) = pushChar char (pattern.split rest) := by
  simp only [split, List.length_cons, splitFuel, unmatched]

theorem split_of_step {text matched after : Text}
    (found : pattern.step text = some (matched, after)) :
    pattern.split text = [] :: matched :: pattern.split after := by
  cases text with
  | nil => exact absurd (pattern.shorter found) (by simp)
  | cons char rest =>
      have shorter := pattern.shorter found
      simp only [List.length_cons] at shorter
      simp only [split, List.length_cons, splitFuel, found]
      rw [splitFuel_eq_splitFuel (by omega) (Nat.le_refl _)]

theorem flatten_pushChar (char : Char) (pieces : List Text) :
    (pushChar char pieces).flatten = char :: pieces.flatten := by
  cases pieces <;> rfl

/-- The pieces, put end to end, are the text after substitution. -/
theorem flatten_split (text : Text) : (pattern.split text).flatten = pattern.sub text := by
  induction length : text.length using Nat.strong_induction_on generalizing text with
  | _ length' ih =>
      subst length
      cases text with
      | nil => rfl
      | cons char rest =>
          cases matched : pattern.step (char :: rest) with
          | none =>
              rw [split_of_none matched, sub_of_none matched, flatten_pushChar,
                ih rest.length (by simp) rest rfl]
          | some found =>
              rcases found with ⟨replacement, after⟩
              rw [split_of_step matched, sub_of_some matched, List.flatten_cons,
                List.flatten_cons, ih after.length (pattern.shorter matched) after rfl]
              rfl

end Split

/-- The first of two patterns that matches. -/
def orElse (first second : Pattern) : Pattern where
  step := fun text => (first.step text).or (second.step text)
  shorter := by
    intro text replacement after matched
    rcases Option.or_eq_some_iff.mp matched with found | ⟨_, found⟩
    · exact first.shorter found
    · exact second.shorter found

/-! ## Spans between markers -/

/-- A span from an opening marker to the first closing marker behind it. -/
def between (opening closing : Text) (keep : Text → Text) (nonempty : opening ≠ []) :
    Pattern where
  step := fun text =>
    if opening.isPrefixOf text then
      (Text.breakOn closing (text.drop opening.length)).map fun parts =>
        (keep parts.1, parts.2)
    else none
  shorter := by
    intro text replacement after matched
    split at matched
    · next lead =>
        rcases Option.map_eq_some_iff.mp matched with ⟨⟨inner, behind⟩, found, same⟩
        obtain ⟨_, rfl⟩ := Prod.mk.inj same
        have lengths := congrArg List.length (Text.eq_of_breakOn found)
        have long := (List.isPrefixOf_iff_prefix.mp lead).length_le
        have positive := List.length_pos_iff.mpr nonempty
        simp only [List.length_drop, List.length_append] at lengths ⊢
        omega
    · cases matched

/-- Literal markers, which are removed. -/
def markers (literals : List Text) (nonempty : ∀ literal ∈ literals, literal ≠ []) :
    Pattern where
  step := fun text =>
    (literals.find? fun literal => literal.isPrefixOf text).map fun literal =>
      ([], text.drop literal.length)
  shorter := by
    intro text replacement after matched
    rcases Option.map_eq_some_iff.mp matched with ⟨literal, found, same⟩
    obtain ⟨_, rfl⟩ := Prod.mk.inj same
    have positive := List.length_pos_iff.mpr
      (nonempty literal (List.mem_of_find?_eq_some found))
    have lead : literal <+: text := by simpa using List.find?_some found
    have long := lead.length_le
    simp only [List.length_drop]
    omega

section Parts

variable {opening closing separator : Text} {keep : Text → Text} {nonempty : opening ≠ []}

/-- The substitution arrives at an opening marker that nothing behind it closes. -/
def LeavesOpen (opening closing : Text) (keep : Text → Text) (nonempty : opening ≠ [])
    (text : Text) : Prop :=
  ∃ later, (between opening closing keep nonempty).Arrives text later ∧ opening <+: later ∧
    ¬closing <:+: later.drop opening.length

theorem between_of_lead {text : Text} (lead : opening <+: text) :
    (between opening closing keep nonempty).step text =
      (Text.breakOn closing (text.drop opening.length)).map fun parts =>
        (keep parts.1, parts.2) := by
  simp only [between, List.isPrefixOf_iff_prefix.mpr lead, if_true]

theorem between_of_not_lead {text : Text} (notLead : ¬opening <+: text) :
    (between opening closing keep nonempty).step text = none := by
  simp only [between, List.isPrefixOf_iff_prefix, notLead, if_false]

theorem between_of_not_closed {text : Text}
    (absent : ¬∃ rest, text = opening ++ rest ∧ closing <:+: rest) :
    (between opening closing keep nonempty).step text = none := by
  by_cases lead : opening <+: text
  · rcases lead with ⟨rest, rfl⟩
    rw [between_of_lead (List.prefix_append _ _), List.drop_left,
      Text.breakOn_eq_none_iff.mpr fun within => absent ⟨rest, rfl, within⟩]
    rfl
  · exact between_of_not_lead lead

theorem eq_of_between {text replacement after : Text}
    (matched : (between opening closing keep nonempty).step text = some (replacement, after)) :
    ∃ inner, text = opening ++ (inner ++ (closing ++ after)) ∧
      Text.breakOn closing (inner ++ (closing ++ after)) = some (inner, after) ∧
      replacement = keep inner := by
  by_cases lead : opening <+: text
  · rcases lead with ⟨rest, rfl⟩
    rw [between_of_lead (List.prefix_append _ _), List.drop_left] at matched
    rcases Option.map_eq_some_iff.mp matched with ⟨⟨inner, later⟩, found, same⟩
    cases same
    have split := Text.eq_of_breakOn found
    rw [List.append_assoc] at split
    exact ⟨inner, by rw [split], split ▸ found, rfl⟩
  · rw [between_of_not_lead lead] at matched
    cases matched

/-- A part whose spans are all closed, or that no closing marker follows, is substituted
on its own when the next character belongs to neither marker. -/
theorem sub_between_append {text more : Text} {char : Char} (outside : char ∉ opening)
    (foreign : char ∉ closing)
    (apart : LeavesOpen opening closing keep nonempty text → ¬closing <:+: more) :
    (between opening closing keep nonempty).sub (text ++ char :: more) =
      (between opening closing keep nonempty).sub text ++
        (between opening closing keep nonempty).sub (char :: more) := by
  apply sub_append
  intro later arrives _
  by_cases lead : opening <+: later
  · have further : opening <+: later ++ char :: more := lead.trans (List.prefix_append _ _)
    have behind : (later ++ char :: more).drop opening.length =
        later.drop opening.length ++ char :: more :=
      List.drop_append_of_le_length lead.length_le
    rw [between_of_lead lead, between_of_lead further, behind]
    cases found : Text.breakOn closing (later.drop opening.length) with
    | some parts => simp [Text.breakOn_append _ found]
    | none =>
        have unclosed := Text.breakOn_eq_none_iff.mp found
        have never : Text.breakOn closing (later.drop opening.length ++ char :: more) = none := by
          apply Text.breakOn_eq_none_iff.mpr
          intro within
          rcases Text.infix_of_append_cons foreign within with inPart | after
          · exact unclosed inPart
          · exact apart ⟨later, arrives, lead, unclosed⟩ after
        simp [never]
  · have notFurther : ¬opening <+: later ++ char :: more := by
      intro further
      exact lead (Text.prefix_of_append_cons outside further)
    rw [between_of_not_lead lead, between_of_not_lead notFurther, Option.map_none]

theorem sub_between_cons {char : Char} {more : Text} (outside : char ∉ opening.head?) :
    (between opening closing keep nonempty).sub (char :: more) =
      char :: (between opening closing keep nonempty).sub more := by
  apply sub_of_none
  apply between_of_not_lead
  intro lead
  cases opening with
  | nil => exact nonempty rfl
  | cons first others =>
      obtain ⟨rfl, _⟩ := List.cons_prefix_cons.mp lead
      exact outside rfl

theorem sub_between_separator {more : Text} (outside : ∀ char ∈ separator, char ∉ opening.head?) :
    (between opening closing keep nonempty).sub (separator ++ more) =
      separator ++ (between opening closing keep nonempty).sub more := by
  induction separator with
  | nil => rfl
  | cons char rest ih =>
      rw [List.cons_append, sub_between_cons (outside char (by simp)),
        ih fun other member => outside other (by simp [member]), List.cons_append]

/-- A part is substituted on its own when the separator belongs to neither marker. -/
theorem sub_between_separated {part more : Text} (closes : closing ≠ [])
    (proper : separator ≠ []) (outside : ∀ char ∈ separator, char ∉ opening)
    (foreign : ∀ char ∈ separator, char ∉ closing)
    (apart : LeavesOpen opening closing keep nonempty part → ¬closing <:+: more) :
    (between opening closing keep nonempty).sub (part ++ (separator ++ more)) =
      (between opening closing keep nonempty).sub part ++
        (separator ++ (between opening closing keep nonempty).sub more) := by
  have passed : (between opening closing keep nonempty).sub (separator ++ more) =
      separator ++ (between opening closing keep nonempty).sub more := by
    apply sub_between_separator
    intro char member first
    exact outside char member (List.mem_of_mem_head? first)
  rw [← passed]
  cases separator with
  | nil => exact absurd rfl proper
  | cons char behind =>
      apply sub_between_append (outside char (by simp)) (foreign char (by simp))
      intro leavesOpen within
      have whole : closing <:+: [] ++ ((char :: behind) ++ more) :=
        within.trans (List.suffix_cons char _).isInfix
      rcases Text.infix_of_append_append closes proper foreign whole with empty | later
      · exact closes (List.infix_nil.mp empty)
      · exact apart leavesOpen later

/-- Joined parts are substituted one by one when no part that leaves a marker open is
followed by one with a closing marker. -/
theorem sub_between_intercalate {parts : List Text} (closes : closing ≠ [])
    (proper : separator ≠ []) (outside : ∀ char ∈ separator, char ∉ opening)
    (foreign : ∀ char ∈ separator, char ∉ closing)
    (apart : parts.Pairwise fun earlier later =>
      LeavesOpen opening closing keep nonempty earlier → ¬closing <:+: later) :
    (between opening closing keep nonempty).sub (List.intercalate separator parts) =
      List.intercalate separator (parts.map (between opening closing keep nonempty).sub) := by
  induction parts with
  | nil => rfl
  | cons part rest ih =>
      cases rest with
      | nil => simp [List.intercalate]
      | cons next rest =>
          rcases List.pairwise_cons.mp apart with ⟨first, others⟩
          rw [List.intercalate_cons_cons, List.map_cons, List.map_cons,
            List.intercalate_cons_cons, ← List.map_cons, ← ih others, List.append_assoc,
            List.append_assoc]
          apply sub_between_separated closes proper outside foreign
          intro leavesOpen within
          rcases Text.exists_infix_of_intercalate closes proper foreign within with
            ⟨other, member, inOther⟩
          exact first other member leavesOpen inOther

end Parts

/-! ## Literal markers -/

section Literals

variable {literals : List Text} {nonempty : ∀ literal ∈ literals, literal ≠ []}
  {separator : Text}

theorem markers_eq_none_iff {text : Text} :
    (markers literals nonempty).step text = none ↔ ∀ literal ∈ literals, ¬literal <+: text := by
  simp [markers]

theorem markers_append {text more : Text}
    (inText : ∀ literal ∈ literals, literal <+: text ++ more → literal <+: text) :
    (markers literals nonempty).step (text ++ more) =
      ((markers literals nonempty).step text).map fun found => (found.1, found.2 ++ more) := by
  have same : literals.find? (fun literal => literal.isPrefixOf (text ++ more)) =
      literals.find? (fun literal => literal.isPrefixOf text) := by
    rw [← List.head?_filter, ← List.head?_filter]
    refine congrArg List.head? (List.filter_congr fun literal member => ?_)
    rw [Bool.eq_iff_iff, List.isPrefixOf_iff_prefix, List.isPrefixOf_iff_prefix]
    exact ⟨inText literal member, fun lead => lead.trans (List.prefix_append _ _)⟩
  simp only [markers, same, Option.map_map]
  cases found : literals.find? (fun literal => literal.isPrefixOf text) with
  | none => rfl
  | some literal =>
      have lead : literal <+: text := by simpa using List.find?_some found
      simp [List.drop_append_of_le_length lead.length_le]

/-- Markers are removed part by part, whatever the parts are. -/
theorem sub_markers_append {text more : Text} {char : Char}
    (outside : ∀ literal ∈ literals, char ∉ literal) :
    (markers literals nonempty).sub (text ++ char :: more) =
      (markers literals nonempty).sub text ++ (markers literals nonempty).sub (char :: more) := by
  apply sub_append
  intro later _ _
  apply markers_append
  intro literal member
  exact Text.prefix_of_append_cons (outside literal member)

theorem sub_markers_separator {more : Text}
    (outside : ∀ char ∈ separator, ∀ literal ∈ literals, char ∉ literal) :
    (markers literals nonempty).sub (separator ++ more) =
      separator ++ (markers literals nonempty).sub more := by
  induction separator with
  | nil => rfl
  | cons char rest ih =>
      have unmatched : (markers literals nonempty).step (char :: (rest ++ more)) = none := by
        refine markers_eq_none_iff.mpr fun literal member lead => ?_
        have empty : literal <+: [] :=
          Text.prefix_of_append_cons (outside char (by simp) literal member) lead
        exact nonempty literal member (List.prefix_nil.mp empty)
      rw [List.cons_append, sub_of_none unmatched,
        ih fun other otherMem => outside other (by simp [otherMem]), List.cons_append]

theorem sub_markers_intercalate (parts : List Text) (proper : separator ≠ [])
    (outside : ∀ char ∈ separator, ∀ literal ∈ literals, char ∉ literal) :
    (markers literals nonempty).sub (List.intercalate separator parts) =
      List.intercalate separator (parts.map (markers literals nonempty).sub) := by
  induction parts with
  | nil => rfl
  | cons part rest ih =>
      cases rest with
      | nil => simp [List.intercalate]
      | cons next rest =>
          rw [List.intercalate_cons_cons, List.map_cons, List.map_cons,
            List.intercalate_cons_cons, ← List.map_cons, ← ih]
          cases separator with
          | nil => exact absurd rfl proper
          | cons char behind =>
              rw [List.append_assoc, List.cons_append,
                sub_markers_append (outside char (by simp)), ← List.cons_append,
                sub_markers_separator outside, List.append_assoc]

end Literals

end Pattern

end Library
