import OrcaValidator.Export.Redline

/-!
# Redlines as characters and markers

A text in which no stray brace stands next to a marker, or one sign away from it, can be
read as a list of characters and markers in one way only: no marker shares a character
with another one, and taking markers away never puts one together.  On such texts each
pass of `clean_revision` works on the list, and the whole of it drops the deleted spans
and then every marker that is left.
-/

namespace OrcaValidator

open Library

/-- The four markers of a redline. -/
inductive Marker where
  | delOpen
  | delClose
  | insOpen
  | insClose
  deriving DecidableEq

namespace Marker

/-- How a marker is spelled. -/
def text : Marker → Text
  | .delOpen => ['\x7b', '-', '-']
  | .delClose => ['-', '-', '\x7d']
  | .insOpen => ['\x7b', '+', '+']
  | .insClose => ['+', '+', '\x7d']

/-- The markers in the order of the last pass. -/
def all : List Marker := [.delOpen, .delClose, .insOpen, .insClose]

theorem mem_all (marker : Marker) : marker ∈ all := by cases marker <;> decide

@[simp]
theorem length_text (marker : Marker) : marker.text.length = 3 := by cases marker <;> rfl

theorem text_injective {marker other : Marker} (same : marker.text = other.text) :
    marker = other := by
  cases marker <;> cases other <;> first | rfl | simp [text] at same

theorem text_ne_nil (marker : Marker) : marker.text ≠ [] := by cases marker <;> simp [text]

theorem eq_of_suffix {marker : Marker} {later : Text} (ends : later <:+ marker.text)
    (nonempty : later ≠ []) :
    later = marker.text ∨ ∃ skip, (skip = 1 ∨ skip = 2) ∧ later = marker.text.drop skip := by
  have positive := List.length_pos_iff.mpr nonempty
  have short := ends.length_le
  have dropped := List.suffix_iff_eq_drop.mp ends
  rw [length_text] at short dropped
  by_cases whole : later.length = 3
  · left
    rwa [whole, Nat.sub_self, List.drop_zero] at dropped
  · exact .inr ⟨3 - later.length, by omega, dropped⟩

end Marker

/-- A marker that is read as one, or a single character. -/
inductive Token where
  | char (value : Char)
  | marker (value : Marker)
  deriving DecidableEq

namespace Token

/-- How a token is spelled. -/
def text : Token → Text
  | .char value => [value]
  | .marker value => value.text

end Token

/-- The text that is spelled by tokens. -/
def render (tokens : List Token) : Text := tokens.flatMap Token.text

@[simp]
theorem render_nil : render [] = [] := rfl

@[simp]
theorem render_cons (token : Token) (tokens : List Token) :
    render (token :: tokens) = token.text ++ render tokens := rfl

@[simp]
theorem render_append (first second : List Token) :
    render (first ++ second) = render first ++ render second := by
  simp [render]

theorem render_map_char (text : Text) : render (text.map Token.char) = text := by
  induction text with
  | nil => rfl
  | cons char rest ih => simp [ih, Token.text]

/-- What may stand between a stray brace and a marker that it is too close to. -/
def gaps : List Text := [[], ['-'], ['+']]

/-- What no list of tokens may contain: a stray brace close to a marker, and a marker
spelled out in characters. -/
def clashes : List (List Token) :=
  (Marker.all.flatMap fun marker => gaps.flatMap fun gap =>
    [.char '\x7b' :: (gap.map .char ++ [.marker marker]),
      .marker marker :: (gap.map .char ++ [.char '\x7d'])]) ++
  Marker.all.map fun marker => marker.text.map Token.char

/-- There are no clashes, so that the text of the tokens is read as these tokens. -/
def Solid (tokens : List Token) : Prop := ∀ clash ∈ clashes, ¬clash <:+: tokens

instance (tokens : List Token) : Decidable (Solid tokens) :=
  inferInstanceAs (Decidable (∀ clash ∈ clashes, ¬clash <:+: tokens))

section Solid

variable {tokens rest : List Token} {token : Token} {marker other : Marker}

theorem prefix_render_marker : marker.text <+: other.text ++ render rest ↔ marker = other := by
  constructor
  · intro lead
    have same : marker.text <+: other.text :=
      List.prefix_of_prefix_length_le lead (List.prefix_append _ _) (by simp)
    exact Marker.text_injective (same.eq_of_length (by simp))
  · rintro rfl
    exact List.prefix_append _ _

namespace Solid

theorem of_infix {part : List Token} (solid : Solid tokens) (within : part <:+: tokens) :
    Solid part := fun clash member found => solid clash member (found.trans within)

theorem tail (solid : Solid (token :: rest)) : Solid rest :=
  solid.of_infix (List.suffix_cons token rest).isInfix

theorem not_prefix {clash : List Token} (solid : Solid (clash ++ rest))
    (member : clash ∈ clashes) : False :=
  solid clash member (List.prefix_append clash rest).isInfix

/-- A list that starts with a character is not a text that starts with a marker. -/
theorem not_prefix_char {char : Char} (solid : Solid (.char char :: rest)) :
    ¬marker.text <+: render (.char char :: rest) := by
  intro lead
  cases rest with
  | nil => simpa [Token.text] using lead.length_le
  | cons second rest =>
      cases second with
      | marker second =>
          have clash : Solid ([.char char, .marker second] ++ rest) := solid
          have joined : ∀ marker second : Marker, marker.text <+: char :: second.text →
              [.char char, .marker second] ∈ clashes := by
            intro marker second lead
            cases marker <;> cases second <;> simp [Marker.text] at lead <;> subst lead <;> decide
          refine clash.not_prefix (joined marker second ?_)
          refine List.prefix_of_prefix_length_le lead ?_ (by simp)
          exact ⟨render rest, by simp [Token.text]⟩
      | char second =>
          cases rest with
          | nil => simpa [Token.text] using lead.length_le
          | cons third rest =>
              have clash : Solid ([.char char, .char second, third] ++ rest) := solid
              have joined : marker.text <+: char :: second :: third.text →
                  [.char char, .char second, third] ∈ clashes := by
                intro lead
                cases third with
                | char third =>
                    cases marker <;> simp [Marker.text, Token.text] at lead <;>
                      rcases lead with ⟨rfl, rfl, rfl⟩ <;> decide
                | marker third =>
                    cases marker <;> cases third <;> simp [Marker.text, Token.text] at lead <;>
                      rcases lead with ⟨rfl, rfl⟩ <;> decide
              refine clash.not_prefix (joined ?_)
              refine List.prefix_of_prefix_length_le lead ?_ ?_
              · exact ⟨render rest, by simp [Token.text]⟩
              · cases third <;> simp [Token.text]

theorem head_of_render {char : Char} {text : Text} (foreign : char ∉ ['\x7b', '-', '+'])
    (starts : char :: text <+: render tokens) :
    ∃ rest, tokens = .char char :: rest ∧ text <+: render rest := by
  cases tokens with
  | nil => simp at starts
  | cons token rest =>
      cases token with
      | char first =>
          rw [render_cons] at starts
          rcases List.cons_prefix_cons.mp starts with ⟨rfl, later⟩
          exact ⟨rest, rfl, later⟩
      | marker first =>
          exfalso
          apply foreign
          cases first <;> simp [Token.text, Marker.text] at starts <;> simp [starts.1]

/-- No marker starts inside another one. -/
theorem not_prefix_inside (solid : Solid (.marker other :: rest)) {skip : ℕ}
    (inside : skip = 1 ∨ skip = 2) :
    ¬marker.text <+: other.text.drop skip ++ render rest := by
  have foreign : '\x7d' ∉ ['\x7b', '-', '+'] := by decide
  have touching : ¬['\x7d'] <+: render rest := by
    intro starts
    rcases head_of_render foreign starts with ⟨later, rfl, _⟩
    have clash : Solid ([.marker other, .char '\x7d'] ++ later) := solid
    exact clash.not_prefix (by cases other <;> decide)
  have near : ∀ sign ∈ ['-', '+'], ¬[sign, '\x7d'] <+: render rest := by
    intro sign isSign starts
    cases rest with
    | nil => simp at starts
    | cons token rest =>
        cases token with
        | char first =>
            rw [render_cons] at starts
            rcases List.cons_prefix_cons.mp starts with ⟨rfl, closes⟩
            rcases head_of_render foreign closes with ⟨later, rfl, _⟩
            have clash : Solid ([.marker other, .char sign, .char '\x7d'] ++ later) := solid
            refine clash.not_prefix ?_
            rcases List.mem_pair.mp isSign with rfl | rfl <;> cases other <;> decide
        | marker first =>
            cases first <;> simp [Token.text, Marker.text] at starts
  intro lead
  rcases inside with rfl | rfl
  · cases marker <;> cases other <;> simp [Marker.text] at lead <;>
      exact touching (by simpa using lead)
  · cases marker <;> cases other <;> simp [Marker.text] at lead <;>
      first
      | exact near '-' (by simp) (by simpa using lead)
      | exact near '+' (by simp) (by simpa using lead)

/-- A marker starts in a token only if it is that token. -/
theorem not_prefix_of_ne {later : Text} (solid : Solid (token :: rest))
    (differ : token ≠ .marker marker) (ends : later <:+ token.text) (nonempty : later ≠ []) :
    ¬marker.text <+: later ++ render rest := by
  cases token with
  | char value =>
      have whole : later = [value] := by
        rcases List.suffix_cons_iff.mp ends with same | empty
        · exact same
        · exact absurd (List.suffix_nil.mp empty) nonempty
      subst whole
      exact solid.not_prefix_char
  | marker value =>
      rcases Marker.eq_of_suffix ends nonempty with rfl | ⟨skip, inside, rfl⟩
      · rw [prefix_render_marker]
        rintro rfl
        exact differ rfl
      · exact solid.not_prefix_inside inside

/-- A clash cut in two leaves a half that clashes with any marker. -/
theorem clash_of_cut : ∀ clash ∈ clashes, ∀ cut ∈ [1, 2], cut < clash.length →
    (∀ marker ∈ Marker.all, ∃ other ∈ clashes, other <:+ clash.take cut ++ [.marker marker]) ∨
      ∀ marker ∈ Marker.all, ∃ other ∈ clashes, other <+: .marker marker :: clash.drop cut := by
  decide +kernel

/-- Where a marker stood on either side, taking out what is between puts nothing
together. -/
theorem join {before after : List Token} {first last : Marker}
    (left : Solid (before ++ [.marker first])) (right : Solid (.marker last :: after)) :
    Solid (before ++ after) := by
  intro clash member found
  rcases List.infix_append_iff_ne_nil.mp found with inLeft | inRight | across
  · exact left clash member (inLeft.trans (List.prefix_append _ _).isInfix)
  · exact right clash member (inRight.trans (List.suffix_cons _ _).isInfix)
  · rcases across with ⟨front, back, frontNonempty, backNonempty, rfl, ends, starts⟩
    have short : (front ++ back).length ≤ 3 := by
      have bound : ∀ clash ∈ clashes, clash.length ≤ 3 := by decide
      exact bound _ member
    have frontPositive := List.length_pos_iff.mpr frontNonempty
    have backPositive := List.length_pos_iff.mpr backNonempty
    rw [List.length_append] at short
    have cut : front.length ∈ [1, 2] := by
      rw [List.mem_pair]
      omega
    rcases clash_of_cut _ member front.length cut (by rw [List.length_append]; omega) with
      broken | broken
    · rcases broken first (Marker.mem_all first) with ⟨other, otherMember, suffix⟩
      rw [List.take_left] at suffix
      apply left other otherMember
      rcases ends with ⟨earlier, rfl⟩
      exact suffix.isInfix.trans ⟨earlier, [], by simp⟩
    · rcases broken last (Marker.mem_all last) with ⟨other, otherMember, lead⟩
      rw [List.drop_left] at lead
      apply right other otherMember
      rcases starts with ⟨later, rfl⟩
      exact lead.isInfix.trans ⟨[], later, by simp⟩

end Solid

end Solid

/-! ## The passes on tokens -/

/-- The tokens before and after the first marker of a kind. -/
def breakAt (closing : Marker) : List Token → Option (List Token × List Token)
  | [] => none
  | token :: rest =>
      if token = .marker closing then some ([], rest)
      else (breakAt closing rest).map fun parts => (token :: parts.1, parts.2)

/-- Resolve the spans between two markers, and keep or drop what is inside; `inside` says
that a span is open. -/
def resolve (opening closing : Marker) (keep : Bool) (inside : Bool) :
    List Token → List Token
  | [] => []
  | token :: rest =>
      if inside then
        if token = .marker closing then resolve opening closing keep false rest
        else if keep then token :: resolve opening closing keep true rest
        else resolve opening closing keep true rest
      else if token = .marker opening ∧ .marker closing ∈ rest then
        resolve opening closing keep true rest
      else token :: resolve opening closing keep false rest

/-- The token is a character. -/
def Token.isChar : Token → Bool
  | .char _ => true
  | .marker _ => false

section Passes

variable {tokens rest inner after : List Token} {opening closing marker other : Marker}
  {keep : Bool}

theorem breakAt_eq_none_iff : breakAt closing tokens = none ↔ .marker closing ∉ tokens := by
  induction tokens with
  | nil => simp [breakAt]
  | cons token rest ih =>
      by_cases closes : token = .marker closing
      · simp [breakAt, closes]
      · simp [breakAt, closes, ih, Ne.symm closes]

/-- The closing marker is the first token, or found behind it. -/
theorem breakAt_cons_cases {token : Token}
    (found : breakAt closing (token :: tokens) = some (inner, after)) :
    (token = .marker closing ∧ inner = [] ∧ after = tokens) ∨
      (token ≠ .marker closing ∧
        ∃ first, inner = token :: first ∧ breakAt closing tokens = some (first, after)) := by
  by_cases closes : token = .marker closing
  · simp only [breakAt, closes, if_true, Option.some.injEq, Prod.mk.injEq] at found
    exact Or.inl ⟨closes, found.1.symm, found.2.symm⟩
  · rw [breakAt, if_neg closes] at found
    rcases Option.map_eq_some_iff.mp found with ⟨⟨first, last⟩, later, same⟩
    cases same
    exact Or.inr ⟨closes, first, rfl, later⟩

theorem eq_of_breakAt (found : breakAt closing tokens = some (inner, after)) :
    tokens = inner ++ .marker closing :: after := by
  induction tokens generalizing inner with
  | nil => simp [breakAt] at found
  | cons token rest ih =>
      rcases breakAt_cons_cases found with ⟨rfl, rfl, rfl⟩ | ⟨_, first, rfl, later⟩
      · rfl
      · rw [ih later]
        rfl

theorem resolve_inside (found : breakAt closing tokens = some (inner, after)) :
    resolve opening closing keep true tokens =
      (if keep then inner else []) ++ resolve opening closing keep false after := by
  induction tokens generalizing inner with
  | nil => simp [breakAt] at found
  | cons token rest ih =>
      rcases breakAt_cons_cases found with ⟨rfl, rfl, rfl⟩ | ⟨open', first, rfl, later⟩
      · simp [resolve]
      · cases keep <;> simp [resolve, open', ih later]

theorem breakOn_render (solid : Solid tokens) :
    Text.breakOn closing.text (render tokens) =
      (breakAt closing tokens).map fun parts => (render parts.1, render parts.2) := by
  induction tokens with
  | nil => exact Text.breakOn_eq_none_iff.mpr (by simpa using closing.text_ne_nil)
  | cons token rest ih =>
      by_cases closes : token = .marker closing
      · subst closes
        rw [render_cons, Token.text, Text.breakOn_lead closing.text_ne_nil, breakAt, if_pos rfl]
        rfl
      · rw [render_cons, Text.breakOn_append_left fun later => solid.not_prefix_of_ne closes,
          ih solid.tail, breakAt, if_neg closes, Option.map_map, Option.map_map]
        rfl

theorem suffix_of_breakAt (found : breakAt closing tokens = some (inner, after)) :
    after <:+ tokens := by
  rw [eq_of_breakAt found]
  exact (List.suffix_cons _ _).trans (List.suffix_append _ _)

/-- A substitution of spans works on the tokens. -/
theorem sub_between_render {keepText : Text → Text} (solid : Solid tokens)
    (kept : ∀ inner, keepText (render inner) = render (if keep then inner else [])) :
    (Pattern.between opening.text closing.text keepText opening.text_ne_nil).sub
        (render tokens) = render (resolve opening closing keep false tokens) := by
  induction length : tokens.length using Nat.strong_induction_on generalizing tokens with
  | _ length' ih =>
      subst length
      cases tokens with
      | nil => rfl
      | cons token rest =>
          by_cases span : token = .marker opening ∧ .marker closing ∈ rest
          · rcases span with ⟨rfl, closes⟩
            cases found : breakAt closing rest with
            | none => exact absurd closes (breakAt_eq_none_iff.mp found)
            | some parts =>
                rcases parts with ⟨inner, after⟩
                have lead : opening.text <+: opening.text ++ render rest :=
                  List.prefix_append _ _
                have matched : (Pattern.between opening.text closing.text keepText
                    opening.text_ne_nil).step (opening.text ++ render rest) =
                      some (keepText (render inner), render after) := by
                  rw [Pattern.between_of_lead lead, List.drop_left, breakOn_render solid.tail,
                    found]
                  rfl
                have behind := suffix_of_breakAt found
                have shorter := behind.length_le
                rw [render_cons, Token.text, Pattern.sub_of_step matched, kept,
                  ih _ (Nat.lt_succ_of_le shorter) (solid.tail.of_infix behind.isInfix) rfl,
                  resolve]
                simp [closes, resolve_inside found]
          · have unmatched : ∀ later, later <:+ token.text → later ≠ [] →
                (Pattern.between opening.text closing.text keepText opening.text_ne_nil).step
                  (later ++ render rest) = none := by
              intro later ends nonempty
              by_cases opens : token = .marker opening
              · subst opens
                have open' : breakAt closing rest = none :=
                  breakAt_eq_none_iff.mpr fun closes => span ⟨rfl, closes⟩
                rcases Marker.eq_of_suffix ends nonempty with rfl | ⟨skip, inside, rfl⟩
                · rw [Pattern.between_of_lead (List.prefix_append _ _), List.drop_left,
                    breakOn_render solid.tail, open']
                  rfl
                · exact Pattern.between_of_not_lead (solid.not_prefix_inside inside)
              · exact Pattern.between_of_not_lead (solid.not_prefix_of_ne opens ends nonempty)
            rw [render_cons, Pattern.sub_append_of_none unmatched, ih _ (by simp) solid.tail rfl,
              resolve]
            simp [span]

theorem exists_marker_of_mem {literal : Text}
    (member : literal ∈ ["\x7b--".toList, "--\x7d".toList, "\x7b++".toList, "++\x7d".toList]) :
    ∃ marker : Marker, literal = marker.text := by
  simp only [List.mem_cons, List.not_mem_nil, or_false] at member
  rcases member with rfl | rfl | rfl | rfl
  · exact ⟨.delOpen, rfl⟩
  · exact ⟨.delClose, rfl⟩
  · exact ⟨.insOpen, rfl⟩
  · exact ⟨.insClose, rfl⟩

theorem Marker.text_mem (marker : Marker) :
    marker.text ∈ ["\x7b--".toList, "--\x7d".toList, "\x7b++".toList, "++\x7d".toList] := by
  cases marker <;> decide

theorem stray_eq_none_iff {text : Text} :
    stray.step text = none ↔ ∀ marker : Marker, ¬marker.text <+: text := by
  rw [stray, Pattern.markers_eq_none_iff]
  constructor
  · exact fun none marker => none marker.text marker.text_mem
  · intro none literal member
    rcases exists_marker_of_mem member with ⟨marker, rfl⟩
    exact none marker

/-- The last pass drops every marker. -/
theorem sub_stray_render (solid : Solid tokens) :
    stray.sub (render tokens) = render (tokens.filter Token.isChar) := by
  induction tokens with
  | nil => rfl
  | cons token rest ih =>
      cases token with
      | char value =>
          have unmatched : ∀ later, later <:+ [value] → later ≠ [] →
              stray.step (later ++ render rest) = none := by
            intro later ends nonempty
            apply stray_eq_none_iff.mpr
            intro marker
            exact solid.not_prefix_of_ne (by simp) ends nonempty
          rw [render_cons, Token.text, Pattern.sub_append_of_none unmatched, ih solid.tail]
          rfl
      | marker value =>
          rw [render_cons, Token.text, stray, Pattern.sub_markers_lead value.text_mem (by decide),
            ← stray, ih solid.tail]
          rfl

/-- Resolving spans keeps a list solid, whatever stands before it. -/
theorem Solid.resolve {before : List Token} (solid : Solid (before ++ tokens)) :
    Solid (before ++ resolve opening closing keep false tokens) := by
  induction length : tokens.length using Nat.strong_induction_on generalizing before tokens with
  | _ length' ih =>
      subst length
      cases tokens with
      | nil => exact solid
      | cons token rest =>
          by_cases span : token = .marker opening ∧ .marker closing ∈ rest
          · rcases span with ⟨rfl, closes⟩
            cases found : breakAt closing rest with
            | none => exact absurd closes (breakAt_eq_none_iff.mp found)
            | some parts =>
                rcases parts with ⟨inner, after⟩
                have shorter := (suffix_of_breakAt found).length_le
                have whole := eq_of_breakAt found
                subst whole
                have starts : Solid (before ++ [.marker opening]) :=
                  solid.of_infix ⟨[], inner ++ .marker closing :: after, by simp⟩
                have opened : Solid (before ++ (inner ++ .marker closing :: after)) :=
                  starts.join (solid.of_infix (List.suffix_append before _).isInfix)
                have closed : Solid (.marker closing :: after) :=
                  opened.of_infix ⟨before ++ inner, [], by simp⟩
                rw [OrcaValidator.resolve]
                simp only [closes, resolve_inside found, Bool.false_eq_true, if_false, true_and,
                  if_true]
                cases keep with
                | false => exact ih _ (Nat.lt_succ_of_le shorter) (starts.join closed) rfl
                | true =>
                    have ends : Solid ((before ++ inner) ++ [.marker closing]) :=
                      opened.of_infix ⟨[], after, by simp⟩
                    rw [if_pos rfl, ← List.append_assoc]
                    exact ih _ (Nat.lt_succ_of_le shorter) (ends.join closed) rfl
          · rw [OrcaValidator.resolve]
            simp only [span, Bool.false_eq_true, if_false]
            have later : Solid ((before ++ [token]) ++ rest) := by simpa using solid
            simpa using ih rest.length (by simp) later rfl

theorem filter_resolve (inside : Bool) :
    (resolve opening closing true inside tokens).filter Token.isChar =
      tokens.filter Token.isChar := by
  induction tokens generalizing inside with
  | nil => rfl
  | cons token rest ih =>
      unfold resolve
      cases inside with
      | true =>
          by_cases closes : token = .marker closing
          · simp [closes, ih, Token.isChar]
          · simp [closes, ih, List.filter_cons]
      | false =>
          by_cases span : token = .marker opening ∧ .marker closing ∈ rest
          · simp [span, ih, Token.isChar]
          · simp [span, ih, List.filter_cons]

end Passes

/-- What `clean_revision` does to a text that reads in one way only. -/
theorem cleanRevision_render {tokens : List Token} (solid : Solid tokens) :
    cleanRevision (some (render tokens)) =
      render ((resolve .delOpen .delClose false false tokens).filter Token.isChar) := by
  have deleted : deletion.sub (render tokens) =
      render (resolve .delOpen .delClose false false tokens) :=
    @sub_between_render tokens .delOpen .delClose false (fun _ => []) solid fun _ => rfl
  have solid' : Solid (resolve .delOpen .delClose false false tokens) := by
    simpa using @Solid.resolve tokens .delOpen .delClose false [] solid
  have inserted : insertion.sub (render (resolve .delOpen .delClose false false tokens)) =
      render (resolve .insOpen .insClose true false
        (resolve .delOpen .delClose false false tokens)) :=
    @sub_between_render _ .insOpen .insClose true (fun added => added) solid' fun _ => rfl
  have solid'' : Solid (resolve .insOpen .insClose true false
      (resolve .delOpen .delClose false false tokens)) := by
    simpa using @Solid.resolve _ .insOpen .insClose true [] solid'
  rw [cleanRevision_some, deleted, inserted, sub_stray_render solid'', filter_resolve]

/-! ## Reading a text -/

/-- The markers of a text, and the characters between them. -/
def lex : Text → List Token
  | '\x7b' :: '-' :: '-' :: rest => .marker .delOpen :: lex rest
  | '-' :: '-' :: '\x7d' :: rest => .marker .delClose :: lex rest
  | '\x7b' :: '+' :: '+' :: rest => .marker .insOpen :: lex rest
  | '+' :: '+' :: '\x7d' :: rest => .marker .insClose :: lex rest
  | char :: rest => .char char :: lex rest
  | [] => []

/-- No stray brace stands next to a marker, or one sign away from it. -/
def BracesApart (text : Text) : Prop :=
  ∀ marker : Marker, ∀ gap ∈ gaps,
    ¬ ('\x7b' :: (gap ++ marker.text)) <:+: text ∧ ¬marker.text ++ (gap ++ ['\x7d']) <:+: text

section Lex

variable {text part : Text} {tokens : List Token}

theorem BracesApart.of_infix (apart : BracesApart text) (within : part <:+: text) :
    BracesApart part := fun marker gap member =>
  ⟨fun found => (apart marker gap member).1 (found.trans within),
    fun found => (apart marker gap member).2 (found.trans within)⟩

theorem render_lex (text : Text) : render (lex text) = text := by
  fun_induction lex text with
  | case1 rest ih => simp [ih, Token.text, Marker.text]
  | case2 rest ih => simp [ih, Token.text, Marker.text]
  | case3 rest ih => simp [ih, Token.text, Marker.text]
  | case4 rest ih => simp [ih, Token.text, Marker.text]
  | case5 char rest _ _ _ _ ih => simp [ih, Token.text]
  | case6 => rfl

theorem lex_marker (marker : Marker) (rest : Text) :
    lex (marker.text ++ rest) = .marker marker :: lex rest := by
  cases marker <;> rfl

theorem exists_lex_of_suffix (ends : tokens <:+ lex text) : ∃ rest, tokens = lex rest := by
  fun_induction lex text with
  | case1 rest ih =>
      rcases List.suffix_cons_iff.mp ends with whole | later
      · exact ⟨_, whole.trans (lex_marker .delOpen rest).symm⟩
      · exact ih later
  | case2 rest ih =>
      rcases List.suffix_cons_iff.mp ends with whole | later
      · exact ⟨_, whole.trans (lex_marker .delClose rest).symm⟩
      · exact ih later
  | case3 rest ih =>
      rcases List.suffix_cons_iff.mp ends with whole | later
      · exact ⟨_, whole.trans (lex_marker .insOpen rest).symm⟩
      · exact ih later
  | case4 rest ih =>
      rcases List.suffix_cons_iff.mp ends with whole | later
      · exact ⟨_, whole.trans (lex_marker .insClose rest).symm⟩
      · exact ih later
  | case5 char rest noDelOpen noDelClose noInsOpen noInsClose ih =>
      rcases List.suffix_cons_iff.mp ends with whole | later
      · exact ⟨char :: rest,
          whole.trans (lex.eq_5 char rest noDelOpen noDelClose noInsOpen noInsClose).symm⟩
      · exact ih later
  | case6 => exact ⟨[], List.suffix_nil.mp ends⟩

/-- A text whose braces stand apart reads as characters and markers in one way only. -/
theorem solid_lex (apart : BracesApart text) : Solid (lex text) := by
  intro clash member found
  rcases List.mem_append.mp member with close | spelled
  · have within : render clash <:+: text := by
      rcases found with ⟨before, after, whole⟩
      refine ⟨render before, render after, ?_⟩
      rw [← render_append, ← render_append, whole, render_lex]
    rcases List.mem_flatMap.mp close with ⟨marker, _, close⟩
    rcases List.mem_flatMap.mp close with ⟨gap, isGap, close⟩
    rcases List.mem_pair.mp close with rfl | rfl
    · apply (apart marker gap isGap).1
      simpa [render_map_char, Token.text] using within
    · apply (apart marker gap isGap).2
      simpa [render_map_char, Token.text] using within
  · rcases List.mem_map.mp spelled with ⟨marker, _, rfl⟩
    rcases List.infix_iff_prefix_suffix.mp found with ⟨tail, ⟨more, rfl⟩, ends⟩
    rcases exists_lex_of_suffix ends with ⟨rest, same⟩
    have whole : rest = marker.text ++ render more := by
      rw [← render_lex rest, ← same, render_append, render_map_char]
    rw [whole, lex_marker] at same
    cases marker <;> cases same

theorem not_infix_render {marker : Marker} (solid : Solid tokens)
    (unmarked : ∀ token ∈ tokens, token.isChar = true) : ¬marker.text <:+: render tokens := by
  induction tokens with
  | nil =>
      intro found
      exact marker.text_ne_nil (List.infix_nil.mp found)
  | cons token rest ih =>
      intro found
      cases token with
      | char value =>
          rcases List.infix_cons_iff.mp found with lead | later
          · exact solid.not_prefix_char lead
          · exact ih solid.tail (fun token member =>
              unmarked token (List.mem_cons_of_mem _ member)) later
      | marker value => exact absurd (unmarked (.marker value) (by simp)) (by simp [Token.isChar])

theorem Solid.filter {before : List Token} (solid : Solid (before ++ tokens)) :
    Solid (before ++ tokens.filter Token.isChar) := by
  induction tokens generalizing before with
  | nil => exact solid
  | cons token rest ih =>
      cases token with
      | char value =>
          have later : Solid ((before ++ [.char value]) ++ rest) := by simpa using solid
          simpa [Token.isChar, List.filter_cons] using ih later
      | marker value =>
          have starts : Solid (before ++ [.marker value]) := solid.of_infix ⟨[], rest, by simp⟩
          have later : Solid (before ++ rest) :=
            starts.join (solid.of_infix (List.suffix_append before _).isInfix)
          simpa [Token.isChar] using ih later

/-- A cleaned text holds no marker. -/
theorem cleanRevision_unmarked (apart : BracesApart text) (marker : Marker) :
    ¬marker.text <:+: cleanRevision (some text) := by
  have solid := solid_lex apart
  have resolved : Solid (resolve .delOpen .delClose false false (lex text)) := by
    simpa using @Solid.resolve (lex text) .delOpen .delClose false [] solid
  have cleaned := cleanRevision_render solid
  rw [render_lex] at cleaned
  rw [cleaned]
  refine not_infix_render ?_ ?_
  · simpa using @Solid.filter _ [] resolved
  · intro token member
    exact (List.mem_filter.mp member).2

end Lex

/-! ## Well-formed redlines -/

/-- A piece of a redline: untouched, deleted or inserted. -/
inductive Segment where
  | plain (text : Text)
  | deleted (text : Text)
  | inserted (text : Text)

namespace Segment

/-- The text of a segment without its markers. -/
def text : Segment → Text
  | .plain text | .deleted text | .inserted text => text

/-- How the model is asked to mark a segment. -/
def encode : Segment → Text
  | .plain text => text
  | .deleted text => "\x7b--".toList ++ text ++ "--\x7d".toList
  | .inserted text => "\x7b++".toList ++ text ++ "++\x7d".toList

/-- What is left of a segment when the revision is accepted. -/
def accepted : Segment → Text
  | .plain text => text
  | .deleted _ => []
  | .inserted text => text

/-- The tokens of a segment, its markers among them. -/
def tokens : Segment → List Token
  | .plain text => text.map .char
  | .deleted text => .marker .delOpen :: (text.map .char ++ [.marker .delClose])
  | .inserted text => .marker .insOpen :: (text.map .char ++ [.marker .insClose])

theorem render_tokens (segment : Segment) : render segment.tokens = segment.encode := by
  cases segment <;> simp [tokens, encode, render_map_char, Token.text, Marker.text]

end Segment

theorem render_flatMap_tokens (segments : List Segment) :
    render (segments.flatMap Segment.tokens) = segments.flatMap Segment.encode := by
  induction segments with
  | nil => rfl
  | cons segment rest ih => simp [Segment.render_tokens, ih]

/-- Every clash contains a brace that is not part of a marker. -/
theorem solid_of_braceless {tokens : List Token} (opening : .char '\x7b' ∉ tokens)
    (closing : .char '\x7d' ∉ tokens) : Solid tokens := by
  intro clash member found
  have braced : ∀ clash ∈ clashes, .char '\x7b' ∈ clash ∨ .char '\x7d' ∈ clash := by decide
  rcases braced clash member with opens | closes
  · exact opening (found.subset opens)
  · exact closing (found.subset closes)

theorem resolve_chars (opening closing : Marker) (text : Text) (rest : List Token) :
    resolve opening closing false false (text.map .char ++ rest) =
      text.map .char ++ resolve opening closing false false rest := by
  induction text with
  | nil => rfl
  | cons char text ih => simp [resolve, ih]

theorem breakAt_chars (closing : Marker) (text : Text) (rest : List Token) :
    breakAt closing (text.map .char ++ .marker closing :: rest) =
      some (text.map .char, rest) := by
  induction text with
  | nil => simp [breakAt]
  | cons char text ih => simp [breakAt, ih]

theorem filter_resolve_tokens (segments : List Segment) :
    (resolve .delOpen .delClose false false (segments.flatMap Segment.tokens)).filter
        Token.isChar = (segments.flatMap Segment.accepted).map .char := by
  have chars : ∀ text : Text, (text.map Token.char).filter Token.isChar = text.map .char := by
    intro text
    simp [List.filter_map, Function.comp_def, Token.isChar]
  induction segments with
  | nil => rfl
  | cons segment rest ih =>
      rw [List.flatMap_cons, List.flatMap_cons, List.map_append, ← ih]
      cases segment with
      | plain text =>
          simp only [Segment.tokens, Segment.accepted]
          rw [resolve_chars, List.filter_append, chars]
      | deleted text =>
          simp only [Segment.tokens, Segment.accepted, List.cons_append, List.append_assoc,
            List.nil_append, List.map_nil]
          rw [resolve]
          simp [resolve_inside (breakAt_chars .delClose text _)]
      | inserted text =>
          simp only [Segment.tokens, Segment.accepted, List.cons_append, List.append_assoc,
            List.nil_append]
          simp [resolve, resolve_chars, chars, Token.isChar]

theorem cleanRevision_segments {segments : List Segment}
    (braceless : ∀ segment ∈ segments, '\x7b' ∉ segment.text ∧ '\x7d' ∉ segment.text) :
    cleanRevision (some (segments.flatMap Segment.encode)) =
      segments.flatMap Segment.accepted := by
  have absent : ∀ brace, (∀ segment ∈ segments, brace ∉ segment.text) →
      .char brace ∉ segments.flatMap Segment.tokens := by
    intro brace foreign member
    rcases List.mem_flatMap.mp member with ⟨segment, segmentMem, within⟩
    apply foreign segment segmentMem
    cases segment <;> simpa [Segment.tokens, Segment.text] using within
  have solid : Solid (segments.flatMap Segment.tokens) :=
    solid_of_braceless (absent _ fun segment member => (braceless segment member).1)
      (absent _ fun segment member => (braceless segment member).2)
  rw [← render_flatMap_tokens, cleanRevision_render solid, filter_resolve_tokens,
    render_map_char]

/-- Encoding segments whose texts contain no brace and cleaning the redline leaves the
plain and the inserted texts in order. -/
theorem cleanRevision_encode (segments : List Segment)
    (braceless : ∀ segment ∈ segments, '\x7b' ∉ segment.text ∧ '\x7d' ∉ segment.text) :
    cleanRevision (some (segments.flatMap Segment.encode)) =
      segments.flatMap Segment.accepted := cleanRevision_segments braceless

/-- Texts that end in the signs of their own markers. -/
theorem cleanRevision_encode_signs :
    cleanRevision (some ([Segment.plain "Fee-".toList, .deleted "ten--".toList,
        .inserted "++".toList, .plain "+".toList].flatMap Segment.encode)) =
      [Segment.plain "Fee-".toList, .deleted "ten--".toList, .inserted "++".toList,
        .plain "+".toList].flatMap Segment.accepted :=
  cleanRevision_encode _ (by decide)

end OrcaValidator
