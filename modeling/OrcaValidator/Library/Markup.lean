import OrcaValidator.Library.Substitution
import Mathlib.Data.List.Count

/-!
# Markup in joined texts

What becomes of marked spans when texts are joined before their markup is resolved.

Where the spans are erased, a span that is opened in one part and closed in a later one
takes the separator between them along, so the joined text loses characters that the
parts on their own keep; counting a character of the separator tells the two apart.  Where
only the markers are dropped, a stray marker is as good as a paired one, as long as the
characters around it cannot be put together to a marker.
-/

namespace Library

namespace Text

/-- The text after the first occurrence of a separator. -/
def behind (separator text : Text) : Option Text := (breakOn separator text).map Prod.snd

theorem behind_of_lead {separator text : Text} (proper : separator ≠ [])
    (lead : separator <+: text) : behind separator text = some (text.drop separator.length) := by
  cases text with
  | nil => exact absurd (List.prefix_nil.mp lead) proper
  | cons char rest =>
      unfold behind breakOn
      rw [if_pos (List.isPrefixOf_iff_prefix.mpr lead)]
      rfl

theorem behind_of_not_lead {separator rest : Text} {char : Char}
    (notLead : ¬separator <+: char :: rest) :
    behind separator (char :: rest) = behind separator rest := by
  have elsewhere : ¬separator.isPrefixOf (char :: rest) = true := by
    rwa [List.isPrefixOf_iff_prefix]
  rw [behind, behind, breakOn, if_neg elsewhere, Option.map_map]
  rfl

theorem exists_behind {separator text : Text} (within : separator <:+: text) :
    ∃ after, behind separator text = some after := by
  cases found : breakOn separator text with
  | none => exact absurd within (breakOn_eq_none_iff.mp found)
  | some parts => exact ⟨parts.2, by rw [behind, found]; rfl⟩

/-- A text in which the separator does not start is passed over. -/
theorem behind_drop {separator text : Text} {count : ℕ}
    (free : ∀ skip < count, ¬separator <+: text.drop skip) :
    behind separator (text.drop count) = behind separator text := by
  induction count with
  | zero => rfl
  | succ count ih =>
      rw [← ih fun skip short => free skip (by omega)]
      have notLead := free count (by omega)
      rw [← List.drop_drop]
      cases dropped : text.drop count with
      | nil => rfl
      | cons char rest =>
          rw [dropped] at notLead
          exact (behind_of_not_lead notLead).symm

theorem behind_append_cons {separator left right : Text} {char : Char}
    (foreign : char ∉ separator) (proper : separator ≠ []) (absent : ¬separator <:+: left) :
    behind separator (left ++ char :: right) = behind separator right := by
  induction left with
  | nil =>
      apply behind_of_not_lead
      intro lead
      cases separator with
      | nil => exact proper rfl
      | cons first others =>
          obtain ⟨rfl, _⟩ := List.cons_prefix_cons.mp lead
          exact foreign (by simp)
  | cons first rest ih =>
      have notLead : ¬separator <+: first :: (rest ++ char :: right) := by
        intro lead
        have inLeft : separator <+: first :: rest := prefix_of_append_cons foreign lead
        exact absent inLeft.isInfix
      rw [List.cons_append, behind_of_not_lead notLead]
      apply ih
      intro within
      exact absent (within.trans (List.suffix_cons first rest).isInfix)

theorem behind_append {separator left right : Text} (proper : separator ≠ [])
    (foreign : ∀ char ∈ left, char ∉ separator) :
    behind separator (left ++ right) = behind separator right := by
  induction left with
  | nil => rfl
  | cons char rest ih =>
      have here : behind separator ([] ++ char :: (rest ++ right)) =
          behind separator (rest ++ right) :=
        behind_append_cons (foreign char (by simp)) proper (by simpa using proper)
      rw [List.cons_append, ← ih fun other member => foreign other (by simp [member])]
      exact here

theorem eq_of_behind {separator text after : Text} (found : behind separator text = some after) :
    ∃ before, text = before ++ separator ++ after := by
  rcases Option.map_eq_some_iff.mp found with ⟨⟨before, _⟩, split, rfl⟩
  exact ⟨before, eq_of_breakOn split⟩

/-- A separator in the first of two texts is found there. -/
theorem behind_append_of_infix {separator left : Text} (within : separator <:+: left)
    (right : Text) : ∃ before after, left = before ++ separator ++ after ∧
      behind separator (left ++ right) = some (after ++ right) := by
  cases found : breakOn separator left with
  | none => exact absurd within (breakOn_eq_none_iff.mp found)
  | some parts =>
      refine ⟨parts.1, parts.2, eq_of_breakOn found, ?_⟩
      rw [behind, breakOn_append right found]
      rfl

theorem infix_intercalate {separator part : Text} {parts : List Text} (member : part ∈ parts) :
    part <:+: List.intercalate separator parts := by
  induction parts with
  | nil => cases member
  | cons first rest ih =>
      cases rest with
      | nil =>
          obtain rfl : part = first := by simpa using member
          simp [List.intercalate]
      | cons next rest =>
          rw [List.intercalate_cons_cons]
          rcases List.mem_cons.mp member with rfl | later
          · exact ⟨[], separator ++ List.intercalate separator (next :: rest), by simp⟩
          · exact (ih later).trans (List.suffix_append _ _).isInfix

theorem count_intercalate_congr {separator : Text} {char : Char} {parts others : List Text}
    (same : parts.map (List.count char) = others.map (List.count char)) :
    (List.intercalate separator parts).count char =
      (List.intercalate separator others).count char := by
  induction parts generalizing others with
  | nil =>
      rw [List.map_nil, eq_comm, List.map_eq_nil_iff] at same
      rw [same]
  | cons part rest ih =>
      cases others with
      | nil => cases same
      | cons other others =>
          rcases List.cons.inj same with ⟨first, later⟩
          cases rest with
          | nil =>
              obtain rfl : others = [] := by simpa using later
              simpa [List.intercalate] using first
          | cons next rest =>
              cases others with
              | nil => cases later
              | cons further others =>
                  rw [List.intercalate_cons_cons, List.intercalate_cons_cons]
                  simp only [List.count_append, first, ih later]

end Text

namespace Pattern

/-- A substitution keeps the number of a character that every replacement keeps. -/
theorem count_sub {pattern : Pattern} {char : Char}
    (steps : ∀ text replacement after, pattern.step text = some (replacement, after) →
      text.count char = replacement.count char + after.count char) (text : Text) :
    (pattern.sub text).count char = text.count char := by
  induction length : text.length using Nat.strong_induction_on generalizing text with
  | _ length' ih =>
      subst length
      cases text with
      | nil => rfl
      | cons first rest =>
          cases matched : pattern.step (first :: rest) with
          | none =>
              rw [sub_of_none matched, List.count_cons, List.count_cons, ih _ (by simp) rest rfl]
          | some found =>
              rcases found with ⟨replacement, after⟩
              rw [sub_of_some matched, List.count_append, steps _ _ _ matched,
                ih _ (pattern.shorter matched) after rfl]

theorem count_sub_between {opening closing : Text} {nonempty : opening ≠ []} {char : Char}
    (outside : char ∉ opening) (foreign : char ∉ closing) (text : Text) :
    ((between opening closing (fun kept => kept) nonempty).sub text).count char =
      text.count char := by
  apply count_sub
  intro text replacement after matched
  rcases eq_of_between matched with ⟨inner, rfl, _, rfl⟩
  simp [List.count_eq_zero_of_not_mem outside, List.count_eq_zero_of_not_mem foreign]

theorem count_sub_markers {literals : List Text} {nonempty : ∀ literal ∈ literals, literal ≠ []}
    {char : Char} (outside : ∀ literal ∈ literals, char ∉ literal) (text : Text) :
    ((markers literals nonempty).sub text).count char = text.count char := by
  apply count_sub
  intro text replacement after matched
  rcases Option.map_eq_some_iff.mp matched with ⟨literal, found, same⟩
  obtain ⟨rfl, rfl⟩ := Prod.mk.inj same
  have lead : literal <+: text := by simpa using List.find?_some found
  have foreign := outside literal (List.mem_of_find?_eq_some found)
  rcases lead with ⟨rest, rfl⟩
  simp [List.count_eq_zero_of_not_mem foreign]

/-! ## Erased spans -/

/-- The opening and the closing marker of a text share some of its characters. -/
def Overlapping (opening closing text : Text) : Prop :=
  ∃ front shared back, shared ≠ [] ∧ opening = front ++ shared ∧ closing = shared ++ back ∧
    front ++ shared ++ back <:+: text

section Erased

variable {opening closing separator : Text} {nonempty : opening ≠ []} {char : Char}

theorem Overlapping.mono {text more : Text} (overlapping : Overlapping opening closing text)
    (within : text <:+: more) : Overlapping opening closing more := by
  rcases overlapping with ⟨front, shared, back, proper, first, last, found⟩
  exact ⟨front, shared, back, proper, first, last, found.trans within⟩

/-- Where the markers do not overlap, the first closing marker behind an opening one is
the first one of the text. -/
theorem behind_drop_opening {text : Text} (short : ¬closing <:+: opening)
    (clear : ¬Overlapping opening closing text) (lead : opening <+: text) :
    Text.behind closing (text.drop opening.length) = Text.behind closing text := by
  apply Text.behind_drop
  intro skip inOpening closes
  rcases lead with ⟨rest, rfl⟩
  rw [List.drop_append_of_le_length (Nat.le_of_lt inOpening)] at closes
  rcases List.prefix_or_prefix_of_prefix closes (List.prefix_append _ rest) with
    within | ⟨back, last⟩
  · exact short (within.isInfix.trans (List.drop_suffix skip opening).isInfix)
  · rw [← last, List.prefix_append_right_inj] at closes
    apply clear
    refine ⟨opening.take skip, opening.drop skip, back, ?_, ?_, last.symm, ?_⟩
    · simpa using inOpening
    · exact (List.take_append_drop skip opening).symm
    · rw [List.take_append_drop]
      exact ((List.prefix_append_right_inj opening).mpr closes).isInfix

theorem sub_erase_of_lead {text after : Text} (lead : opening <+: text)
    (closes : Text.behind closing (text.drop opening.length) = some after) :
    (between opening closing (fun _ => []) nonempty).sub text =
      (between opening closing (fun _ => []) nonempty).sub after := by
  cases text with
  | nil => exact absurd (List.prefix_nil.mp lead) nonempty
  | cons first rest =>
      rcases Option.map_eq_some_iff.mp closes with ⟨⟨inner, later⟩, found, rfl⟩
      have matched : (between opening closing (fun _ => []) nonempty).step (first :: rest) =
          some ([], later) := by
        rw [between_of_lead lead, found]
        rfl
      rw [sub_of_some matched, List.nil_append]

/-- Text that a span takes along up to the first closing marker is lost. -/
theorem count_behind_le {text after : Text} (short : ¬closing <:+: opening)
    (outside : ∀ char ∈ closing, char ∉ opening.head?) (closes : closing ≠ [])
    (clear : ¬Overlapping opening closing text) (found : Text.behind closing text = some after) :
    ((between opening closing (fun _ => []) nonempty).sub after).count char ≤
      ((between opening closing (fun _ => []) nonempty).sub text).count char := by
  induction text with
  | nil =>
      have absent : ¬closing <:+: [] := by simpa using closes
      rw [Text.behind, Text.breakOn_eq_none_iff.mpr absent] at found
      cases found
  | cons first rest ih =>
      by_cases closed : closing <+: first :: rest
      · rw [Text.behind_of_lead closes closed, Option.some.injEq] at found
        rcases closed with ⟨behind, split⟩
        rw [← split, List.drop_left] at found
        rw [← split, sub_between_separator outside, found, List.count_append]
        exact Nat.le_add_left _ _
      · by_cases lead : opening <+: first :: rest
        · rw [← behind_drop_opening short clear lead] at found
          rw [sub_erase_of_lead lead found]
        · rw [Text.behind_of_not_lead closed] at found
          rw [sub_of_none (between_of_not_lead lead), List.count_cons]
          have inner := ih (fun overlapping => clear
            (overlapping.mono (List.suffix_cons first rest).isInfix)) found
          omega

/-- An open span reaches over the end of its part. -/
theorem sub_erase_append {part more after : Text} {next : Char} (closes : closing ≠ [])
    (foreign : next ∉ closing) (lead : opening <+: part)
    (unclosed : ¬closing <:+: part.drop opening.length)
    (found : Text.behind closing more = some after) :
    (between opening closing (fun _ => []) nonempty).sub (part ++ next :: more) =
      (between opening closing (fun _ => []) nonempty).sub after := by
  apply sub_erase_of_lead (lead.trans (List.prefix_append _ _))
  rw [List.drop_append_of_le_length lead.length_le,
    Text.behind_append_cons foreign closes unclosed, found]

/-- A part that leaves a marker open, followed by a text that closes it. -/
theorem count_sub_append_le {part more after : Text} {next : Char} (closes : closing ≠ [])
    (outside : next ∉ opening) (foreign : next ∉ closing)
    (leavesOpen : LeavesOpen opening closing (fun _ => []) nonempty part)
    (found : Text.behind closing more = some after) :
    ((between opening closing (fun _ => []) nonempty).sub (part ++ next :: more)).count char ≤
      ((between opening closing (fun _ => []) nonempty).sub part).count char +
        ((between opening closing (fun _ => []) nonempty).sub after).count char := by
  rcases leavesOpen with ⟨later, arrives, lead, unclosed⟩
  induction arrives with
  | here text =>
      rw [sub_erase_append closes foreign lead unclosed found]
      exact Nat.le_add_left _ _
  | @keep first rest later unmatched arrives ih =>
      by_cases here : opening <+: first :: rest
      · have absent : ¬closing <:+: (first :: rest).drop opening.length := by
          rw [between_of_lead here, Option.map_eq_none_iff] at unmatched
          exact Text.breakOn_eq_none_iff.mp unmatched
        rw [sub_erase_append closes foreign here absent found]
        exact Nat.le_add_left _ _
      · have notFurther : ¬opening <+: first :: (rest ++ next :: more) := by
          intro further
          exact here (Text.prefix_of_append_cons outside further)
        rw [List.cons_append, sub_of_none (between_of_not_lead notFurther),
          sub_of_none (between_of_not_lead here), List.count_cons, List.count_cons]
        have inner := ih lead unclosed
        omega
  | @replace first rest replacement behind later matched arrives ih =>
      have here : opening <+: first :: rest := by
        by_contra notLead
        rw [between_of_not_lead notLead] at matched
        cases matched
      rw [between_of_lead here] at matched
      rcases Option.map_eq_some_iff.mp matched with ⟨⟨inner, tail⟩, closed, same⟩
      obtain ⟨_, rfl⟩ := Prod.mk.inj same
      have further : opening <+: first :: rest ++ next :: more :=
        here.trans (List.prefix_append _ _)
      have alone : Text.behind closing ((first :: rest).drop opening.length) = some tail := by
        rw [Text.behind, closed]
        rfl
      have joined : Text.behind closing ((first :: rest ++ next :: more).drop opening.length) =
          some (tail ++ next :: more) := by
        rw [List.drop_append_of_le_length here.length_le, Text.behind,
          Text.breakOn_append _ closed]
        rfl
      rw [sub_erase_of_lead here alone, sub_erase_of_lead further joined]
      exact ih lead unclosed

theorem not_overlapping_intercalate {parts : List Text} (proper : separator ≠ [])
    (outside : ∀ char ∈ separator, char ∉ opening) (foreign : ∀ char ∈ separator, char ∉ closing)
    (clear : ∀ part ∈ parts, ¬Overlapping opening closing part) :
    ¬Overlapping opening closing (List.intercalate separator parts) := by
  rintro ⟨front, shared, back, nonempty, rfl, rfl, found⟩
  have within : front ++ shared ++ back ≠ [] := by simp [nonempty]
  have apart : ∀ char ∈ separator, char ∉ front ++ shared ++ back := by
    intro char member
    have first := outside char member
    have last := foreign char member
    simp only [List.mem_append, not_or] at first last ⊢
    exact ⟨first, last.2⟩
  rcases Text.exists_infix_of_intercalate within proper apart found with ⟨part, member, inPart⟩
  exact clear part member ⟨front, shared, back, nonempty, rfl, rfl, inPart⟩

/-- When markers do not overlap, joined parts are substituted one by one, or a separator
goes lost. -/
theorem count_sub_intercalate {parts : List Text} (short : ¬closing <:+: opening)
    (closes : closing ≠ []) (starts : ∀ char ∈ closing, char ∉ opening.head?)
    (proper : char ∈ separator) (outside : ∀ char ∈ separator, char ∉ opening)
    (foreign : ∀ char ∈ separator, char ∉ closing)
    (clear : ∀ part ∈ parts, ¬Overlapping opening closing part) :
    (parts.Pairwise fun earlier later =>
        LeavesOpen opening closing (fun _ => []) nonempty earlier → ¬closing <:+: later) ∨
      ((between opening closing (fun _ => []) nonempty).sub
          (List.intercalate separator parts)).count char <
        (List.intercalate separator
          (parts.map (between opening closing (fun _ => []) nonempty).sub)).count char := by
  have separates : separator ≠ [] := List.ne_nil_of_mem proper
  induction parts with
  | nil => exact .inl .nil
  | cons part rest ih =>
      have later := ih fun other member => clear other (List.mem_cons_of_mem _ member)
      cases rest with
      | nil => exact .inl (List.pairwise_singleton _ _)
      | cons next rest =>
          rw [List.intercalate_cons_cons, List.map_cons, List.map_cons,
            List.intercalate_cons_cons, ← List.map_cons, List.append_assoc, List.append_assoc]
          have atMost : ((between opening closing (fun _ => []) nonempty).sub
                (List.intercalate separator (next :: rest))).count char ≤
              (List.intercalate separator ((next :: rest).map
                (between opening closing (fun _ => []) nonempty).sub)).count char := by
            rcases later with apart | less
            · rw [sub_between_intercalate closes separates outside foreign apart]
            · exact Nat.le_of_lt less
          by_cases crossed : LeavesOpen opening closing (fun _ => []) nonempty part ∧
              closing <:+: List.intercalate separator (next :: rest)
          · -- The span takes the separator along.
            right
            rcases crossed with ⟨leavesOpen, within⟩
            rcases Text.exists_behind within with ⟨after, found⟩
            have restClear : ¬Overlapping opening closing
                (List.intercalate separator (next :: rest)) :=
              not_overlapping_intercalate separates outside foreign fun other member =>
                clear other (List.mem_cons_of_mem _ member)
            have inRest : ((between opening closing (fun _ => []) nonempty).sub after).count char ≤
                ((between opening closing (fun _ => []) nonempty).sub
                  (List.intercalate separator (next :: rest))).count char :=
              count_behind_le short starts closes restClear found
            have kept : 0 < separator.count char := List.count_pos_iff.mpr proper
            cases separator with
            | nil => exact absurd rfl separates
            | cons first others =>
                have further : Text.behind closing
                    (others ++ List.intercalate (first :: others) (next :: rest)) =
                      some after := by
                  rw [Text.behind_append closes fun other member =>
                    foreign other (List.mem_cons_of_mem _ member), found]
                have bound : ((between opening closing (fun _ => []) nonempty).sub
                      (part ++ (first :: others ++
                        List.intercalate (first :: others) (next :: rest)))).count char ≤
                    ((between opening closing (fun _ => []) nonempty).sub part).count char +
                      ((between opening closing (fun _ => []) nonempty).sub after).count char :=
                  count_sub_append_le closes (outside first List.mem_cons_self)
                    (foreign first List.mem_cons_self) leavesOpen further
                rw [List.count_append, List.count_append]
                omega
          · rw [sub_between_separated closes separates outside foreign fun leavesOpen within =>
              crossed ⟨leavesOpen, within⟩]
            simp only [List.count_append]
            rcases later with apart | less
            · left
              refine List.pairwise_cons.mpr ⟨?_, apart⟩
              intro other member leavesOpen within
              exact crossed ⟨leavesOpen, within.trans (Text.infix_intercalate member)⟩
            · right
              omega

end Erased

/-! ## Dropped markers -/

/-- No marker of the text follows a character that another marker could go on from. -/
def Apart (opening closing joints text : Text) : Prop :=
  ∀ marker ∈ [opening, closing], ∀ char ∈ joints, ¬char :: marker <:+: text

instance (opening closing joints text : Text) :
    Decidable (Apart opening closing joints text) :=
  decidable_of_iff ([opening, closing].all fun marker => joints.all fun char =>
    decide ¬char :: marker <:+: text) (by simp [Apart])

section Dropped

variable {opening closing joints : Text} {keep : Text → Text} {nonempty : opening ≠ []}
  {literals : List Text} {proper : ∀ literal ∈ literals, literal ≠ []}

/-- A substitution finds nothing, or its first span lies in the text. -/
theorem sub_between_cases (text : Text) :
    (between opening closing keep nonempty).sub text = text ∨
      ∃ before inner after, text = before ++ (opening ++ (inner ++ (closing ++ after))) ∧
        (between opening closing keep nonempty).sub text =
          before ++ (keep inner ++ (between opening closing keep nonempty).sub after) := by
  induction text with
  | nil => exact .inl rfl
  | cons first rest ih =>
      cases matched : (between opening closing keep nonempty).step (first :: rest) with
      | none =>
          rw [sub_of_none matched]
          rcases ih with same | ⟨before, inner, after, split, result⟩
          · left
            rw [same]
          · right
            refine ⟨first :: before, inner, after, ?_, ?_⟩
            · rw [split, List.cons_append]
            · rw [result, List.cons_append]
      | some found =>
          right
          have lead : opening <+: first :: rest := by
            by_contra notLead
            rw [between_of_not_lead notLead] at matched
            cases matched
          rw [sub_of_some matched]
          rw [between_of_lead lead] at matched
          rcases Option.map_eq_some_iff.mp matched with ⟨⟨inner, after⟩, closed, rfl⟩
          have split := Text.eq_of_breakOn closed
          rcases lead with ⟨behind, whole⟩
          rw [← whole, List.drop_left] at split
          refine ⟨[], inner, after, ?_, rfl⟩
          rw [← whole, split, List.nil_append, List.append_assoc]

theorem suffix_of_arrives {text later : Text}
    (arrives : (markers literals proper).Arrives text later) : later <:+ text := by
  induction arrives with
  | here text => exact List.suffix_refl text
  | keep unmatched arrives ih => exact ih.trans (List.suffix_cons _ _)
  | replace matched arrives ih =>
      rcases Option.map_eq_some_iff.mp matched with ⟨literal, found, same⟩
      obtain ⟨_, rfl⟩ := Prod.mk.inj same
      exact ih.trans (List.drop_suffix _ _)

/-- A text that does not end in the beginning of a marker is substituted on its own. -/
theorem sub_markers_split {left right : Text}
    (joins : ∀ literal ∈ literals, literal.dropLast ⊆ joints)
    (settled : ∀ char ∈ left.getLast?, char ∉ joints) :
    (markers literals proper).sub (left ++ right) =
      (markers literals proper).sub left ++ (markers literals proper).sub right := by
  apply sub_append
  intro later arrives laterNonempty
  apply markers_append
  intro literal member lead
  rcases List.prefix_or_prefix_of_prefix lead (List.prefix_append later right) with
    within | ⟨back, split⟩
  · exact within
  · cases back with
    | nil => rw [← split, List.append_nil]
    | cons char others =>
        have begun : later.getLast laterNonempty ∈ literal.dropLast := by
          rw [← split, List.dropLast_append_cons]
          exact List.mem_append_left _ (List.getLast_mem laterNonempty)
        have last : later.getLast laterNonempty ∈ left.getLast? := by
          rcases suffix_of_arrives arrives with ⟨before, whole⟩
          rw [← whole, List.getLast?_append, List.getLast?_eq_some_getLast laterNonempty]
          rfl
        exact absurd (joins literal member begun) (settled _ last)

theorem sub_markers_lead {literal more : Text} (member : literal ∈ literals)
    (distinct : ∀ first ∈ literals, ∀ second ∈ literals, first <+: second → first = second) :
    (markers literals proper).sub (literal ++ more) = (markers literals proper).sub more := by
  have start : (markers literals proper).step (literal ++ more) = some ([], more) := by
    cases found : literals.find? (fun other => other.isPrefixOf (literal ++ more)) with
    | none =>
        have never := List.find?_eq_none.mp found literal member
        simp at never
    | some other =>
        have lead : other <+: literal ++ more := by simpa using List.find?_some found
        have otherMember := List.mem_of_find?_eq_some found
        have same : other = literal := by
          rcases List.prefix_or_prefix_of_prefix lead (List.prefix_append literal more) with
            shorter | longer
          · exact distinct other otherMember literal member shorter
          · exact (distinct literal member other otherMember longer).symm
        simp only [markers, found, Option.map_some, same, List.drop_left]
  cases literal with
  | nil => exact absurd rfl (proper [] member)
  | cons char rest =>
      rw [List.cons_append] at start ⊢
      rw [sub_of_some start, List.nil_append]

theorem Apart.settled {marker before after : Text} (apart : Apart opening closing joints
    (before ++ (marker ++ after))) (member : marker ∈ [opening, closing]) :
    ∀ char ∈ before.getLast?, char ∉ joints := by
  intro char last joint
  rcases List.getLast?_eq_some_iff.mp last with ⟨front, rfl⟩
  exact apart marker member char joint ⟨front, after, by simp⟩

theorem Apart.mono {text more : Text} (apart : Apart opening closing joints more)
    (within : text <:+: more) : Apart opening closing joints text := by
  intro marker member char joint found
  exact apart marker member char joint (found.trans within)

/-- Where stray markers are removed anyway, it does not matter which of the markers were
paired. -/
theorem sub_markers_sub_between {text : Text} (opens : opening ∈ literals)
    (closes : closing ∈ literals)
    (distinct : ∀ first ∈ literals, ∀ second ∈ literals, first <+: second → first = second)
    (joins : ∀ literal ∈ literals, literal.dropLast ⊆ joints)
    (apart : Apart opening closing joints text) :
    (markers literals proper).sub
        ((between opening closing (fun kept => kept) nonempty).sub text) =
      (markers literals proper).sub text := by
  induction length : text.length using Nat.strong_induction_on generalizing text with
  | _ length' ih =>
      subst length
      rcases @sub_between_cases opening closing (fun kept => kept) nonempty text with
        same | ⟨before, inner, after, rfl, result⟩
      · rw [same]
      · have behindOpening : Apart opening closing joints (inner ++ (closing ++ after)) :=
          apart.mono (((List.suffix_append _ _).trans (List.suffix_append _ _)).isInfix)
        have rest := ih after.length (by
            have positive := List.length_pos_iff.mpr nonempty
            simp only [List.length_append]
            omega)
          (behindOpening.mono (((List.suffix_append _ _).trans (List.suffix_append _ _)).isInfix))
          rfl
        have settledBefore := apart.settled (by simp)
        have settledInner := behindOpening.settled (by simp)
        rw [result, sub_markers_split joins settledBefore, sub_markers_split joins settledInner,
          sub_markers_split joins settledBefore, sub_markers_lead opens distinct,
          sub_markers_split joins settledInner, sub_markers_lead closes distinct, rest]

end Dropped

end Pattern

end Library
