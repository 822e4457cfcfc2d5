import OrcaValidator.Export.Download

/-!
# Markers at the seam of two texts

Two texts that are put end to end are read one after the other, or the reading finds a marker
that begins in the first and ends in the second.  Such a marker costs three characters, which
shows in the length of what the last pass leaves, unless it takes the place of another one
that it shares characters with.  Then the text goes on with another character.

So the texts between markers are stripped one by one exactly where they are read one by one.
-/

namespace OrcaValidator

open Library

/-! ## Reading on -/

section Seam

variable {first second text before front back after : Text} {char : Char} {marker other : Marker}

/-- A text begins with a marker, or with a character that is read as such. -/
theorem lex_cons_cases (char : Char) (rest : Text) :
    (∃ marker after, char :: rest = Marker.text marker ++ after ∧
        lex (char :: rest) = .marker marker :: lex after) ∨
      (∀ marker : Marker, ¬marker.text <+: char :: rest) ∧
        lex (char :: rest) = .char char :: lex rest := by
  by_cases marked : ∃ marker : Marker, marker.text <+: char :: rest
  · rcases marked with ⟨marker, after, whole⟩
    exact .inl ⟨marker, after, whole.symm, by rw [← whole, lex_marker]⟩
  · have unmarked : ∀ marker : Marker, ¬marker.text <+: char :: rest := not_exists.mp marked
    refine .inr ⟨unmarked, lex.eq_5 char rest ?_ ?_ ?_ ?_⟩
    · rintro more rfl rfl
      exact unmarked .delOpen ⟨more, rfl⟩
    · rintro more rfl rfl
      exact unmarked .delClose ⟨more, rfl⟩
    · rintro more rfl rfl
      exact unmarked .insOpen ⟨more, rfl⟩
    · rintro more rfl rfl
      exact unmarked .insClose ⟨more, rfl⟩

theorem lex_of_unmarked (unmarked : ∀ marker : Marker, ¬marker.text <:+: text) :
    lex text = text.map .char := by
  induction text with
  | nil => rfl
  | cons char rest ih =>
      rcases lex_cons_cases char rest with ⟨marker, after, whole, _⟩ | ⟨_, reads⟩
      · exact absurd (whole ▸ (List.prefix_append _ _).isInfix) (unmarked marker)
      · rw [reads, ih fun marker found =>
          unmarked marker (found.trans (List.suffix_cons char rest).isInfix)]
        rfl

/-- A part of a marker is read character by character. -/
theorem lex_of_short (short : text.length < 3) : lex text = text.map .char := by
  apply lex_of_unmarked
  intro marker found
  have long := found.length_le
  rw [marker.length_text] at long
  omega

/-- The reading of two texts finds a marker that begins in the first one and ends in the
second. -/
inductive MarkerAcross : Text → Text → Prop where
  | mk (marker : Marker) (before front back after : Text) (spelled : marker.text = front ++ back)
      (begins : front ≠ []) (ends : back ≠ [])
      (reads : lex (before ++ (marker.text ++ after)) = lex before ++ .marker marker :: lex after)
      (alone : lex (before ++ front) = lex before ++ front.map .char) :
      MarkerAcross (before ++ front) (back ++ after)

theorem length_of_spelled (spelled : marker.text = front ++ back) :
    front.length + back.length = 3 := by
  rw [← List.length_append, ← spelled, marker.length_text]

theorem lex_char (unmarked : ∀ marker : Marker, ¬marker.text <+: char :: text) :
    lex (char :: text) = .char char :: lex text := by
  rcases lex_cons_cases char text with ⟨marker, after, whole, _⟩ | ⟨_, reads⟩
  · exact absurd ⟨after, whole.symm⟩ (unmarked marker)
  · exact reads

theorem MarkerAcross.marker_append (across : MarkerAcross first second) :
    MarkerAcross (marker.text ++ first) second := by
  cases across with
  | mk other before front back after spelled begins ends reads alone =>
      rw [← List.append_assoc]
      refine .mk other (marker.text ++ before) front back after spelled begins ends ?_ ?_
      · rw [List.append_assoc, lex_marker, reads, lex_marker, List.cons_append]
      · rw [List.append_assoc, lex_marker, alone, lex_marker, List.cons_append]

theorem MarkerAcross.cons (across : MarkerAcross first second)
    (unmarked : ∀ marker : Marker, ¬marker.text <+: char :: (first ++ second)) :
    MarkerAcross (char :: first) second := by
  cases across with
  | mk other before front back after spelled begins ends reads alone =>
      have none : ∀ {part : Text}, part <+: before ++ (other.text ++ after) →
          lex (char :: part) = .char char :: lex part := by
        intro part lead
        apply lex_char
        intro marker found
        apply unmarked marker
        refine found.trans (List.cons_prefix_cons.mpr ⟨rfl, ?_⟩)
        rwa [List.append_assoc, ← List.append_assoc front, ← spelled]
      rw [← List.cons_append]
      refine .mk other (char :: before) front back after spelled begins ends ?_ ?_
      · rw [List.cons_append, none (List.prefix_refl _), reads, none (List.prefix_append _ _),
          List.cons_append]
      · rw [List.cons_append, none ?_, alone, none (List.prefix_append _ _), List.cons_append]
        rw [List.prefix_append_right_inj, spelled, List.append_assoc]
        exact List.prefix_append _ _

/-- Two texts are read one after the other, or a marker lies across. -/
theorem lex_append_or (first second : Text) :
    lex (first ++ second) = lex first ++ lex second ∨ MarkerAcross first second := by
  induction length : first.length using Nat.strong_induction_on generalizing first with
  | _ length' ih =>
      subst length
      cases first with
      | nil => exact .inl rfl
      | cons char rest =>
          by_cases marked : ∃ marker : Marker, marker.text <+: char :: (rest ++ second)
          · rcases marked with ⟨marker, lead⟩
            have lead' : marker.text <+: (char :: rest) ++ second := lead
            rcases List.prefix_or_prefix_of_prefix lead' (List.prefix_append _ _) with
              ⟨more, inFirst⟩ | ⟨back, across⟩
            · have shorter : more.length < (char :: rest).length := by
                rw [← inFirst, List.length_append, marker.length_text]
                omega
              rw [← inFirst, List.append_assoc, lex_marker, lex_marker, List.cons_append]
              rcases ih more.length shorter more rfl with apart | across
              · exact .inl (by rw [apart])
              · exact .inr across.marker_append
            · by_cases empty : back = []
              · rw [empty, List.append_nil] at across
                have alone := lex_marker marker []
                rw [List.append_nil] at alone
                rw [across, lex_marker, alone]
                exact .inl rfl
              · rw [← across, List.prefix_append_right_inj] at lead'
                rcases lead' with ⟨after, rfl⟩
                right
                have short := length_of_spelled across.symm
                have nonempty := List.length_pos_iff.mpr empty
                exact .mk marker [] (char :: rest) back after across.symm (by simp) empty
                  (lex_marker marker after) (lex_of_short (by rw [List.nil_append]; omega))
          · have unmarked := not_exists.mp marked
            have inFirst : lex (char :: rest) = .char char :: lex rest :=
              lex_char fun marker found =>
                unmarked marker (found.trans (List.prefix_append (char :: rest) second))
            rcases ih rest.length (by simp) rest rfl with apart | across
            · left
              rw [List.cons_append, lex_char unmarked, apart, inFirst, List.cons_append]
            · exact .inr (across.cons unmarked)

/-- A text whose last character is a closing brace begins no marker that another text ends. -/
theorem lex_append_of_closed (closed : first.getLast? = some '\x7d') :
    lex (first ++ second) = lex first ++ lex second := by
  rcases lex_append_or first second with apart | across
  · exact apart
  · cases across with
    | mk marker before front back after spelled begins ends reads alone =>
        rw [List.getLast?_append_of_ne_nil _ begins] at closed
        have cut := length_of_spelled spelled
        have last : ∀ marker ∈ Marker.all, ∀ place ∈ [1, 2],
            (marker.text.take place).getLast? ≠ some '\x7d' := by decide
        have inside : front.length ∈ [1, 2] := by
          have frontPositive := List.length_pos_iff.mpr begins
          have backPositive := List.length_pos_iff.mpr ends
          rw [List.mem_pair]
          omega
        refine absurd ?_ (last marker marker.mem_all _ inside)
        rw [spelled, List.take_left]
        exact closed

/-! ## What the last pass leaves -/

theorem stray_of_lex_append (apart : lex (first ++ second) = lex first ++ lex second) :
    stray.sub (first ++ second) = stray.sub first ++ stray.sub second := by
  rw [sub_stray_eq, sub_stray_eq, sub_stray_eq, apart, List.filterMap_append]

theorem stray_of_short (short : text.length < 3) : stray.sub text = text := by
  apply stray_of_unmarked
  intro marker found
  have long := found.length_le
  rw [marker.length_text] at long
  omega

theorem stray_marker (marker : Marker) (text : Text) :
    stray.sub (marker.text ++ text) = stray.sub text := by
  rw [sub_stray_eq, lex_marker, sub_stray_eq]
  rfl

theorem stray_across
    (reads : lex (before ++ (marker.text ++ after)) = lex before ++ .marker marker :: lex after) :
    stray.sub (before ++ (marker.text ++ after)) = stray.sub before ++ stray.sub after := by
  rw [sub_stray_eq, reads, sub_stray_eq, sub_stray_eq, List.filterMap_append]
  rfl

theorem stray_alone (alone : lex (before ++ front) = lex before ++ front.map .char) :
    stray.sub (before ++ front) = stray.sub before ++ front := by
  rw [sub_stray_eq, alone, sub_stray_eq, List.filterMap_append, List.filterMap_map]
  simp [Function.comp_def, Token.char?]

/-- Stripping two texts that are put end to end leaves no more than stripping each. -/
theorem length_stray_append_le (first second : Text) :
    (stray.sub (first ++ second)).length ≤
      (stray.sub first).length + (stray.sub second).length := by
  induction length : second.length using Nat.strong_induction_on generalizing first second with
  | _ length' ih =>
      subst length
      rcases lex_append_or first second with apart | across
      · rw [stray_of_lex_append apart, List.length_append]
      · cases across with
        | mk marker before front back after spelled begins ends reads alone =>
            have cut := length_of_spelled spelled
            have backPositive := List.length_pos_iff.mpr ends
            have whole : before ++ front ++ (back ++ after) = before ++ (marker.text ++ after) := by
              rw [spelled, List.append_assoc, List.append_assoc]
            rw [whole, stray_across reads, stray_alone alone, List.length_append,
              List.length_append]
            have remains : (stray.sub after).length ≤
                front.length + (stray.sub (back ++ after)).length := by
              rcases lex_append_or back after with apart | across
              · rw [stray_of_lex_append apart, List.length_append]
                omega
              · cases across with
                | mk other before' front' back' after' spelled' begins' ends' reads' alone' =>
                    have cut' := length_of_spelled spelled'
                    have frontPositive := List.length_pos_iff.mpr begins
                    have shared := List.length_pos_iff.mpr begins'
                    have shorter := List.length_pos_iff.mpr ends'
                    rw [List.length_append] at cut
                    have bound := ih after'.length
                      (by simp only [List.length_append]; omega) back' after' rfl
                    rw [stray_of_short (show back'.length < 3 by omega)] at bound
                    rw [List.append_assoc, ← List.append_assoc front', ← spelled',
                      stray_across reads', List.length_append,
                      stray_of_short (show before'.length < 3 by omega)]
                    omega
            omega

/-- Where two markers share characters, the first one opens what the second one closes. -/
theorem shared_cases : ∀ marker ∈ Marker.all, ∀ other ∈ Marker.all, ∀ shared ∈ [1, 2],
    marker.text.drop (3 - shared) = other.text.take shared →
      ((marker, other) = (.delOpen, .delClose) ∨ (marker, other) = (.insOpen, .insClose)) ∧
        marker.text.head? = some '\x7b' ∧
        other.text.drop shared ∈ ["\x7d".toList, "-\x7d".toList, "+\x7d".toList] := by
  decide

/-- The end of a marker that begins another one. -/
theorem overlap_cases {shared : Text} (first : marker.text = front ++ shared)
    (last : other.text = shared ++ back) (begins : front ≠ []) (shares : shared ≠ []) :
    ((marker, other) = (.delOpen, .delClose) ∨ (marker, other) = (.insOpen, .insClose)) ∧
      front.head? = some '\x7b' ∧ back ∈ ["\x7d".toList, "-\x7d".toList, "+\x7d".toList] := by
  have cut := length_of_spelled first
  have frontPositive := List.length_pos_iff.mpr begins
  have sharedPositive := List.length_pos_iff.mpr shares
  have inside : shared.length ∈ [1, 2] := by
    rw [List.mem_pair]
    omega
  have same : marker.text.drop (3 - shared.length) = other.text.take shared.length := by
    rw [first, last, List.take_left, show 3 - shared.length = front.length by omega,
      List.drop_left]
  have found := shared_cases marker marker.mem_all other other.mem_all _ inside same
  rwa [first, last, List.drop_left, List.head?_append_of_ne_nil _ begins] at found

/-- A text that begins with the end of a closing marker goes on with it. -/
theorem stray_of_remainder
    (member : back ∈ ["\x7d".toList, "-\x7d".toList, "+\x7d".toList]) :
    ∃ sign rest, sign ≠ '\x7b' ∧ stray.sub (back ++ after) = sign :: rest := by
  have unmarked : ∀ marker : Marker, ∀ back ∈ ["\x7d".toList, "-\x7d".toList, "+\x7d".toList],
      ¬marker.text <+: back ++ after := by
    intro marker back member lead
    simp only [List.mem_cons, List.not_mem_nil, or_false] at member
    rcases member with rfl | rfl | rfl <;> cases marker <;> simp [Marker.text] at lead
  have none : stray.step (back ++ after) = none :=
    stray_eq_none_iff.mpr fun marker => unmarked marker back member
  simp only [List.mem_cons, List.not_mem_nil, or_false] at member
  rcases member with rfl | rfl | rfl
  · exact ⟨'\x7d', _, by decide, Pattern.sub_of_none none⟩
  · exact ⟨'-', _, by decide, Pattern.sub_of_none none⟩
  · exact ⟨'+', _, by decide, Pattern.sub_of_none none⟩

/-- A marker that lies across shortens what is left, or puts another character where the first
text ends in an opening brace. -/
theorem MarkerAcross.stray_cases (across : MarkerAcross first second) :
    (stray.sub (first ++ second)).length <
        (stray.sub first).length + (stray.sub second).length ∨
      ∃ kept sign rest, sign ≠ '\x7b' ∧ stray.sub (first ++ second) = kept ++ sign :: rest ∧
        kept ++ ['\x7b'] <+: stray.sub first := by
  cases across with
  | mk marker before front back after spelled begins ends reads alone =>
      have cut := length_of_spelled spelled
      have whole : before ++ front ++ (back ++ after) = before ++ (marker.text ++ after) := by
        rw [spelled, List.append_assoc, List.append_assoc]
      rw [whole, stray_across reads, stray_alone alone]
      rcases lex_append_or back after with apart | across
      · left
        have frontPositive := List.length_pos_iff.mpr begins
        rw [stray_of_lex_append apart, stray_of_short (show back.length < 3 by omega)]
        simp only [List.length_append]
        omega
      · right
        cases across with
        | mk other before' shared back' after' spelled' begins' ends' reads' alone' =>
            have first : marker.text = (front ++ before') ++ shared := by
              rw [spelled, List.append_assoc]
            rcases overlap_cases first spelled' (by simp [begins]) begins' with
              ⟨_, opened, remainder⟩
            rcases @stray_of_remainder back' after' remainder with ⟨sign, rest, other, goesOn⟩
            refine ⟨stray.sub before, sign, rest, other, by rw [goesOn], ?_⟩
            rw [List.head?_append_of_ne_nil _ begins] at opened
            rw [List.prefix_append_right_inj]
            cases front with
            | nil => exact absurd rfl begins
            | cons char more =>
                rw [List.head?_cons, Option.some.injEq] at opened
                exact List.cons_prefix_cons.mpr ⟨opened.symm, List.nil_prefix⟩

/-- A marker behind a text takes nothing from it. -/
theorem length_stray_le_append_marker (text : Text) (marker : Marker) :
    (stray.sub text).length ≤ (stray.sub (text ++ marker.text)).length := by
  rcases lex_append_or text marker.text with apart | across
  · rw [stray_of_lex_append apart, List.length_append]
    omega
  · generalize whole : marker.text = closing at across ⊢
    cases across with
    | mk other before front back after spelled begins ends reads alone =>
        have cut := length_of_spelled spelled
        have remains := length_of_spelled whole
        have positive := List.length_pos_iff.mpr ends
        rw [List.append_assoc, ← List.append_assoc front, ← spelled, stray_across reads,
          stray_alone alone, stray_of_short (show after.length < 3 by omega), List.length_append,
          List.length_append]
        omega

theorem length_stray_le (text : Text) : (stray.sub text).length ≤ text.length := by
  induction text with
  | nil => exact Nat.le_refl _
  | cons char rest ih =>
      have step := length_stray_append_le [char] rest
      rw [stray_of_short (show [char].length < 3 by simp), List.singleton_append] at step
      simp only [List.length_cons, List.length_nil] at step ⊢
      omega

theorem length_stray_lt (marked : marker.text <:+: text) :
    (stray.sub text).length < text.length := by
  rcases marked with ⟨before, after, rfl⟩
  have step := length_stray_append_le before (marker.text ++ after)
  have early := length_stray_le before
  have late := length_stray_le after
  rw [stray_marker] at step
  simp only [List.append_assoc, List.length_append, marker.length_text] at step ⊢
  omega

/-! ## Texts put end to end -/

/-- Texts read put end to end as they do one by one. -/
def Seamless (pieces : List Text) : Prop := lex pieces.flatten = pieces.flatMap lex

instance : DecidablePred Seamless := fun _ => inferInstanceAs (Decidable (_ = _))

theorem length_stray_flatten_le (pieces : List Text) :
    (stray.sub pieces.flatten).length ≤ (pieces.flatMap stray.sub).length := by
  induction pieces with
  | nil => exact Nat.le_refl _
  | cons piece rest ih =>
      have step := length_stray_append_le piece rest.flatten
      rw [List.flatten_cons, List.flatMap_cons, List.length_append]
      omega

/-- Texts are stripped of their markers one by one exactly if they read one by one. -/
theorem seamless_iff {pieces : List Text} :
    Seamless pieces ↔ stray.sub pieces.flatten = pieces.flatMap stray.sub := by
  constructor
  · intro seamless
    rw [sub_stray_eq, seamless, List.filterMap_flatMap]
    exact List.flatMap_congr fun piece _ => (sub_stray_eq piece).symm
  · intro stripped
    induction pieces with
    | nil => rfl
    | cons piece rest ih =>
        rw [List.flatten_cons, List.flatMap_cons] at stripped
        rw [Seamless, List.flatten_cons, List.flatMap_cons]
        have later := length_stray_flatten_le rest
        rcases lex_append_or piece rest.flatten with apart | across
        · rw [stray_of_lex_append apart, List.append_cancel_left_eq] at stripped
          rw [apart, ih stripped]
        · exfalso
          rcases across.stray_cases with shorter | ⟨kept, sign, more, other, goesOn, lead⟩
          · rw [stripped, List.length_append] at shorter
            omega
          · rw [goesOn] at stripped
            have here : kept ++ [sign] <+: kept ++ sign :: more := by simp
            rw [stripped] at here
            have same : kept ++ [sign] = kept ++ ['\x7b'] :=
              (List.prefix_of_prefix_length_le here (lead.trans (List.prefix_append _ _))
                (by simp)).eq_of_length (by simp)
            rw [List.append_cancel_left_eq, List.cons.injEq] at same
            exact other same.1

/-- Somewhere a marker that opens an insertion shares characters with one that closes it. -/
def InsertionsOverlap (text : Text) : Prop :=
  Pattern.Overlapping Marker.insOpen.text Marker.insClose.text text

/-- What stands before a marker is read on its own, unless another marker in it shares
characters with that one. -/
theorem lex_append_marker_or (lead : second <+: marker.text ++ after) :
    lex (before ++ second) = lex before ++ lex second ∨
      ∃ (other : Marker) (front shared back : Text), front <:+ before ∧ front ≠ [] ∧
        shared ≠ [] ∧ other.text = front ++ shared ∧ marker.text = shared ++ back := by
  rcases lex_append_or before second with apart | across
  · exact .inl apart
  · right
    cases across with
    | mk other before' front shared behind spelled begins shares reads alone =>
        have cut := length_of_spelled spelled
        have frontPositive := List.length_pos_iff.mpr begins
        have within : shared <+: marker.text := by
          refine List.prefix_of_prefix_length_le ((List.prefix_append _ _).trans lead)
            (List.prefix_append _ after) ?_
          rw [marker.length_text]
          omega
        rcases within with ⟨back, whole⟩
        exact ⟨other, front, shared, back, List.suffix_append _ _, begins, shares, spelled,
          whole.symm⟩

/-- What stands before an opening marker is read on its own. -/
theorem lex_append_opening (opens : marker = .delOpen ∨ marker = .insOpen) (before after : Text) :
    lex (before ++ (marker.text ++ after)) = lex before ++ .marker marker :: lex after := by
  have lead : marker.text ++ after <+: marker.text ++ after := List.prefix_refl _
  rcases @lex_append_marker_or _ before _ _ lead with
    apart | ⟨other, front, shared, back, _, begins, shares, spelled, whole⟩
  · rw [apart, lex_marker]
  · rcases overlap_cases spelled whole begins shares with ⟨same | same, _, _⟩ <;>
      rcases opens with rfl | rfl <;> cases same

theorem stray_append_opening (opens : marker = .delOpen ∨ marker = .insOpen)
    (before after : Text) :
    stray.sub (before ++ (marker.text ++ after)) = stray.sub before ++ stray.sub after :=
  stray_across (lex_append_opening opens before after)

/-- What stands before a marker of an insertion is read on its own. -/
theorem lex_append_marker (isInsertion : marker = .insOpen ∨ marker = .insClose)
    (clear : ¬InsertionsOverlap (before ++ (marker.text ++ after)))
    (lead : second <+: marker.text ++ after) :
    lex (before ++ second) = lex before ++ lex second := by
  rcases @lex_append_marker_or _ before _ _ lead with
    apart | ⟨other, front, shared, back, ⟨early, rfl⟩, begins, shares, spelled, whole⟩
  · exact apart
  · exfalso
    rcases overlap_cases spelled whole begins shares with ⟨same | same, _, _⟩
    · rcases isInsertion with rfl | rfl <;> cases same
    · cases same
      refine clear ⟨front, shared, back, shares, spelled, whole, early, after, ?_⟩
      rw [whole]
      simp

/-- What is left of a marker of an insertion is read on its own. -/
theorem lex_append_of_marker (isInsertion : marker = .insOpen ∨ marker = .insClose)
    (spelled : marker.text = front ++ back) (begins : front ≠ [])
    (clear : ¬InsertionsOverlap (before ++ (marker.text ++ after))) :
    lex (back ++ after) = lex back ++ lex after := by
  rcases lex_append_or back after with apart | across
  · exact apart
  · exfalso
    cases across with
    | mk other before' shared back' after' spelled' shares ends reads alone =>
        have first : marker.text = (front ++ before') ++ shared := by
          rw [spelled, List.append_assoc]
        rcases overlap_cases first spelled' (by simp [begins]) shares with ⟨kinds, _, _⟩
        rcases kinds with same | same
        · rcases isInsertion with rfl | rfl <;> cases same
        · cases same
          refine clear ⟨front ++ before', shared, back', shares, first, spelled', before, after',
            ?_⟩
          rw [spelled]
          simp

/-- A marker of an insertion that lies across two texts is read as such. -/
theorem length_stray_lt_of_across (isInsertion : marker = .insOpen ∨ marker = .insClose)
    (spelled : marker.text = front ++ back) (begins : front ≠ []) (ends : back ≠ [])
    (clear : ¬InsertionsOverlap (first ++ second)) (inFirst : front <:+ first)
    (inSecond : back <+: second) :
    (stray.sub (first ++ second)).length <
      (stray.sub first).length + (stray.sub second).length := by
  rcases inFirst with ⟨before, rfl⟩
  rcases inSecond with ⟨after, rfl⟩
  have cut := length_of_spelled spelled
  have frontPositive := List.length_pos_iff.mpr begins
  have backPositive := List.length_pos_iff.mpr ends
  have whole : before ++ front ++ (back ++ after) = before ++ (marker.text ++ after) := by
    rw [spelled, List.append_assoc, List.append_assoc]
  rw [whole] at clear ⊢
  have found : lex (before ++ (marker.text ++ after)) =
      lex before ++ .marker marker :: lex after := by
    rw [lex_append_marker isInsertion clear (List.prefix_refl _), lex_marker]
  have beginning : front <+: marker.text ++ after := by
    rw [spelled, List.append_assoc]
    exact List.prefix_append _ _
  rw [stray_across found, stray_of_lex_append (lex_append_marker isInsertion clear beginning),
    stray_of_lex_append (lex_append_of_marker isInsertion spelled begins clear),
    stray_of_short (show front.length < 3 by omega), stray_of_short (show back.length < 3 by omega)]
  simp only [List.length_append]
  omega

end Seam

end OrcaValidator
