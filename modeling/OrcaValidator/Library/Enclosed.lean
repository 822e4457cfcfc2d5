import OrcaValidator.Library.Substitution

/-!
# Enclosed text

What `re.split` makes of a text at a pattern `opening(.+?)closing`: marks that enclose
something are dropped, and the pieces lie alternately outside and inside of them.

`Enclosure` says which characters are inside without the pattern: the pair that starts
leftmost is taken, with the first closing mark that leaves something between the two, and
the text behind it is read in the same way.
-/

namespace Library

namespace Text

/-- Nothing before the first occurrence of a separator is cut off at another. -/
theorem breakOn_shortest {separator text before after front behind : Text}
    (found : breakOn separator text = some (before, after))
    (split : text = front ++ (separator ++ behind)) : before.length ≤ front.length := by
  induction text generalizing before front with
  | nil =>
      have whole := congrArg List.length (eq_of_breakOn found)
      simp only [List.length_nil, List.length_append] at whole
      omega
  | cons char rest ih =>
      rcases breakOn_cons_cases found with ⟨rfl, _⟩ | ⟨elsewhere, first, rfl, later⟩
      · exact Nat.zero_le _
      · cases front with
        | nil =>
            rw [split] at elsewhere
            exact absurd (List.prefix_append _ _) elsewhere
        | cons other front =>
            have shorter := ih later (List.cons.inj split).2
            simp only [List.length_cons]
            omega

end Text

/-! ## Pairs of marks -/

/-- A text starts with two marks that enclose something, and no closing mark before the
second one does. -/
structure StartsPair (opening closing text inner behind : Text) : Prop where
  split : text = opening ++ (inner ++ (closing ++ behind))
  proper : inner ≠ []
  shortest : ∀ {other later}, text = opening ++ (other ++ (closing ++ later)) → other ≠ [] →
    inner.length ≤ other.length

/-- The characters of a text without the marks of its pairs, each with whether it lies
inside a pair. -/
inductive Enclosure (opening closing : Text) : Text → List (Char × Bool) → Prop
  | plain {text : Text}
      (absent : ∀ later, later <:+ text → ∀ inner behind,
        ¬StartsPair opening closing later inner behind) :
      Enclosure opening closing text (text.map (·, false))
  | pair {lead later inner behind : Text} {rest : List (Char × Bool)}
      (leftmost : ∀ front back, lead ++ later = front ++ back → front.length < lead.length →
        ∀ inner behind, ¬StartsPair opening closing back inner behind)
      (starts : StartsPair opening closing later inner behind)
      (enclosure : Enclosure opening closing behind rest) :
      Enclosure opening closing (lead ++ later)
        (lead.map (·, false) ++ (inner.map (·, true) ++ rest))

namespace Pattern

/-- `opening(.+?)closing`. -/
def enclosed (opening closing : Text) : Pattern where
  step := fun text =>
    if opening.isPrefixOf text then
      match text.drop opening.length with
      | [] => none
      | first :: rest =>
          match Text.breakOn closing rest with
          | none => none
          | some (more, behind) =>
              -- the dot matches everything but a newline
              if '\n' ∈ first :: more then none else some (first :: more, behind)
    else none
  shorter := by
    intro text inner behind matched
    split at matched
    · next lead =>
        split at matched
        · cases matched
        · next first rest drop =>
            split at matched
            · cases matched
            · next more behind' found =>
                split at matched
                · cases matched
                · obtain ⟨_, rfl⟩ := Prod.mk.inj (Option.some.inj matched)
                  have inside := congrArg List.length (Text.eq_of_breakOn found)
                  have outside := congrArg List.length drop
                  simp only [List.length_append, List.length_drop, List.length_cons]
                    at inside outside
                  omega
    · cases matched

variable {opening closing : Text}

/-- On a single line, the pattern matches where a pair starts. -/
theorem enclosed_step_iff {text inner behind : Text} (line : '\n' ∉ text) :
    (enclosed opening closing).step text = some (inner, behind) ↔
      StartsPair opening closing text inner behind := by
  simp only [enclosed]
  constructor
  · intro matched
    split at matched
    · next lead =>
        rcases List.isPrefixOf_iff_prefix.mp lead with ⟨tail, rfl⟩
        rw [List.drop_left] at matched
        split at matched
        · cases matched
        · next first rest =>
            split at matched
            · cases matched
            · next more behind' found =>
                split at matched
                · cases matched
                · cases matched
                  have split := Text.eq_of_breakOn found
                  refine ⟨by simp [split], List.cons_ne_nil _ _, ?_⟩
                  intro other later same proper
                  cases other with
                  | nil => exact absurd rfl proper
                  | cons head other =>
                      have tails := (List.cons.inj (List.append_cancel_left same)).2
                      have shorter := Text.breakOn_shortest found tails
                      simpa using shorter
    · cases matched
  · rintro ⟨rfl, proper, shortest⟩
    cases inner with
    | nil => exact absurd rfl proper
    | cons first inner =>
        have lead : opening.isPrefixOf (opening ++ (first :: inner ++ (closing ++ behind))) =
            true := List.isPrefixOf_iff_prefix.mpr (List.prefix_append _ _)
        rw [if_pos lead, List.drop_left, List.cons_append]
        have closes : closing <:+: inner ++ (closing ++ behind) :=
          ⟨inner, behind, by simp⟩
        cases found : Text.breakOn closing (inner ++ (closing ++ behind)) with
        | none => exact absurd closes (Text.breakOn_eq_none_iff.mp found)
        | some parts =>
            rcases parts with ⟨more, after⟩
            have split := Text.eq_of_breakOn found
            have shorter := Text.breakOn_shortest found rfl
            have longer := @shortest (first :: more) after (by simp [split])
              (List.cons_ne_nil _ _)
            rw [List.append_assoc] at split
            have same := List.append_inj split (by simp at longer; omega)
            have inLine : '\n' ∉ first :: inner := by
              intro member
              exact line (by simp at member ⊢; tauto)
            simp only [found, ← same.1, ← List.append_cancel_left same.2, inLine, if_false]

/-! ## The pieces of a split -/

/-- The pieces of a split lie alternately outside and inside of the matches. -/
def alternate (inside : Bool) : List Text → List (Char × Bool)
  | [] => []
  | piece :: pieces => piece.map (·, inside) ++ alternate (!inside) pieces

theorem step_nil (pattern : Pattern) : pattern.step [] = none := by
  cases found : pattern.step [] with
  | none => rfl
  | some parts => exact absurd (pattern.shorter found) (Nat.not_lt_zero _)

/-- A split finds no match, or the leftmost one. -/
theorem split_cases (pattern : Pattern) (text : Text) :
    (pattern.split text = [text] ∧ ∀ later, later <:+ text → pattern.step later = none) ∨
      ∃ lead later inner behind, text = lead ++ later ∧
        pattern.step later = some (inner, behind) ∧
        (∀ front back, text = front ++ back → front.length < lead.length →
          pattern.step back = none) ∧
        pattern.split text = lead :: inner :: pattern.split behind := by
  induction text with
  | nil =>
      refine Or.inl ⟨rfl, fun later ends => ?_⟩
      rw [List.suffix_nil.mp ends]
      exact pattern.step_nil
  | cons char rest ih =>
      cases found : pattern.step (char :: rest) with
      | some parts =>
          rcases parts with ⟨inner, behind⟩
          exact Or.inr ⟨[], char :: rest, inner, behind, rfl, found,
            fun _ _ _ short => absurd short (Nat.not_lt_zero _), split_of_step found⟩
      | none =>
          rw [split_of_none found]
          rcases ih with ⟨whole, absent⟩ | ⟨lead, later, inner, behind, rfl, here, first, split⟩
          · refine Or.inl ⟨by rw [whole]; rfl, fun later ends => ?_⟩
            rcases List.suffix_cons_iff.mp ends with rfl | within
            · exact found
            · exact absent later within
          · refine Or.inr ⟨char :: lead, later, inner, behind, rfl, here, ?_, by rw [split]; rfl⟩
            intro front back same short
            cases front with
            | nil =>
                rw [List.nil_append] at same
                rw [← same]
                exact found
            | cons other front =>
                apply first front back (List.cons.inj same).2
                simpa using short

/-- What is inside the odd pieces of a split is what pairs of marks enclose. -/
theorem enclosure_split {text : Text} (line : '\n' ∉ text) :
    Enclosure opening closing text (alternate false ((enclosed opening closing).split text)) := by
  induction length : text.length using Nat.strong_induction_on generalizing text with
  | _ length' ih =>
      subst length
      rcases split_cases (enclosed opening closing) text with
        ⟨whole, absent⟩ | ⟨lead, later, inner, behind, rfl, here, first, split⟩
      · rw [whole]
        have unpaired : ∀ later, later <:+ text → ∀ inner behind,
            ¬StartsPair opening closing later inner behind := by
          intro later ends inner behind starts
          have found := (enclosed_step_iff fun member => line (ends.subset member)).mpr starts
          rw [absent later ends] at found
          cases found
        simpa [alternate] using Enclosure.plain unpaired
      · have laterLine : '\n' ∉ later := fun member => line (List.mem_append_right _ member)
        have starts := (enclosed_step_iff laterLine).mp here
        have behindEnds : behind <:+ later :=
          ⟨opening ++ (inner ++ closing), by simp [starts.split]⟩
        have behindLine : '\n' ∉ behind := fun member => laterLine (behindEnds.subset member)
        have shorter := (enclosed opening closing).shorter here
        rw [split]
        refine Enclosure.pair ?_ starts (ih _ (by simp; omega) behindLine rfl)
        intro front back same short inner' behind' other
        have backLine : '\n' ∉ back := by
          intro member
          rw [same] at line
          exact line (List.mem_append_right _ member)
        have found := (enclosed_step_iff backLine).mpr other
        rw [first front back same short] at found
        cases found

end Pattern

end Library
