import Mathlib.Data.Rat.Defs
import Mathlib.Logic.Function.Iterate
import OrcaValidator.Export.Redline
import OrcaValidator.Library.Effect
import OrcaValidator.Library.Interpreter
import OrcaValidator.Llm.Chunks

/-!
# The redline

`revise_contract`: the document goes to the model chunk by chunk, at most twelve chunks of
it, and the drafted additions follow.  The state of the effects is the list of the prompts
sent so far, and the model answers each of them by what it was asked before.
-/

namespace OrcaValidator

open Library

/-- What `_revise_chunk` and `_draft_additions` give `_chat`. -/
structure Prompt where
  system : Text
  user : Text
  maxTokens : Nat
  temperature : ℚ

/-- `_chat`, by the prompts sent so far, of which the last is to be answered. -/
abbrev Chat := List Prompt → Except PyException Text

/-- `_CHUNK_CHARS`. -/
def chunkChars : Nat := 8000

/-- `_MAX_CHUNKS`. -/
def maxChunks : Nat := 12

/-- `_REVISE_SYS`. -/
def reviseSystem : Text :=
  "You are an editor producing a REDLINE of ONE SECTION of a longer document. ".toList ++
  "Improve wording, fix problems, and tighten weak or ambiguous language in this ".toList ++
  "section, preserving its meaning. Mark EVERY change inline: wrap text you REMOVE in ".toList ++
  "\x7b--double-minus braces--\x7d and text you ADD in \x7b++double-plus braces++\x7d. ".toList ++
  "Leave unchanged text exactly as-is, with no markers. Use no other change notation. ".toList ++
  "Output ONLY the redlined section — no preamble, no explanation.".toList

/-- The system prompt of `_draft_additions`. -/
def additionsSystem : Text :=
  "Draft formal clauses for each item below as new document language. Wrap EACH drafted ".toList ++
  "clause entirely in \x7b++double-plus braces++\x7d so it renders as an addition. Output ".toList ++
  "only the clauses.".toList

/-- Send a prompt and wait for the content of the reply. -/
def ask (chat : Chat) (prompt : Prompt) : Effect (List Prompt) PyException Text := do
  Effect.modify (· ++ [prompt])
  Effect.lift (chat (← Effect.read))

/-- What `_revise_chunk` asks. -/
def revisePrompt (temperature : ℚ) (chunk : Text) : Prompt :=
  ⟨reviseSystem, chunk, 4096, temperature⟩

/-- `_revise_chunk`. -/
def reviseChunk (chat : Chat) (temperature : ℚ) (chunk : Text) :
    Effect (List Prompt) PyException Text := do
  return Text.strip (← ask chat (revisePrompt temperature chunk))

/-- The loop over the chunks. -/
def reviseChunks (chat : Chat) (temperature : ℚ) :
    List Text → Effect (List Prompt) PyException (List Text)
  | [] => pure []
  | chunk :: chunks => do
      let part ← reviseChunk chat temperature chunk
      let parts ← reviseChunks chat temperature chunks
      return part :: parts

section

variable [Interpreter]

/-- `[str(m) for m in missing[:12]]`. -/
def missingItems : Json → Except PyException (List Text)
  | .arr items => .ok ((items.take 12).map Interpreter.str)
  | .str value => .ok ((value.take 12).map fun char => [char])
  | .obj _ => .error ⟨"TypeError".toList, "unhashable type: 'slice'".toList⟩
  | other => .error ⟨"TypeError".toList,
      "'".toList ++ other.typeName ++ "' object is not subscriptable".toList⟩

/-- `_draft_additions`. -/
def draftAdditions (chat : Chat) (missing : Json) (temperature : ℚ) :
    Effect (List Prompt) PyException Text :=
  if missing.truthy = false then pure []
  else do
    let items ← Effect.lift (missingItems missing)
    let user := "Draft additions for:\n- ".toList ++ List.intercalate "\n- ".toList items
    return Text.strip (← ask chat ⟨additionsSystem, user, 2400, temperature⟩)

/-- The note that follows the redline of a document of which only a part was revised. -/
def truncationNote : Text :=
  ("\x7b++[Note: the document was very long; this redline covers its first portion.]++\x7d").toList

/-- `revise_contract`, from the chunks on. -/
def reviseSections (chat : Chat) (chunks : List Text) (analysis : Json) (temperature : ℚ) :
    Effect (List Prompt) PyException Text := do
  let parts ← reviseChunks chat temperature (chunks.take maxChunks)
  let redline := assembleSections parts
  let redline := if maxChunks < chunks.length then redline ++ sectionBreak ++ truncationNote
    else redline
  let missing ← Effect.lift (analysis.get "missing_or_weak_clauses".toList)
  let additions ← draftAdditions chat (Json.orElse missing (.arr [])) temperature
  return Text.strip (if additions = [] then redline else redline ++ sectionBreak ++ additions)

/-- `revise_contract`; `none` if chunking never ends. -/
def reviseContract (chat : Chat) (text : Text) (analysis : Json) (temperature : ℚ) :
    Option (Effect (List Prompt) PyException Text) :=
  (splitIntoChunks text chunkChars).map fun chunks =>
    reviseSections chat chunks analysis temperature

/-- The chunks that were submitted for revision. -/
def submittedChunks (prompts : List Prompt) : List Text :=
  (prompts.filter fun prompt => prompt.system = reviseSystem).map Prompt.user

/-- The whole document is submitted for revision, and no note says otherwise: the note's
text stands in the redline only if a reply contains it. -/
structure CoversWhole (chat : Chat) (text : Text) (analysis : Json) (temperature : ℚ)
    (revise : Effect (List Prompt) PyException Text) : Prop where
  returned : reviseContract chat text analysis temperature = some revise
  submitted : Text.visibleChars (submittedChunks (revise []).2).flatten = Text.visibleChars text
  unnoted : ∀ redline, (revise []).1 = .ok redline → truncationNote <:+: redline →
    ∃ sent reply, chat sent = .ok reply ∧ truncationNote <:+: reply

/-- Eleven cuts leave no more of the text than the twelfth chunk holds. -/
def FitsTwelve (text : Text) : Prop :=
  ((afterCut chunkChars)^[maxChunks - 1] (Text.strip text)).length ≤ chunkChars

/-! ## What is submitted -/

/-- A text that comes from the model. -/
def FromReply (chat : Chat) (text : Text) : Prop :=
  ∃ sent reply, chat sent = .ok reply ∧ text = Text.strip reply

omit [Interpreter] in
theorem ask_apply (chat : Chat) (prompt : Prompt) (sent : List Prompt) :
    ask chat prompt sent = (chat (sent ++ [prompt]), sent ++ [prompt]) := rfl

omit [Interpreter] in
theorem submittedChunks_append (earlier later : List Prompt) :
    submittedChunks (earlier ++ later) = submittedChunks earlier ++ submittedChunks later := by
  simp [submittedChunks]

omit [Interpreter] in
theorem submittedChunks_revise (temperature : ℚ) (chunks : List Text) :
    submittedChunks (chunks.map (revisePrompt temperature)) = chunks := by
  induction chunks with
  | nil => rfl
  | cons chunk chunks ih =>
      rw [List.map_cons, ← List.singleton_append, submittedChunks_append, ih]
      simp [submittedChunks, revisePrompt]

omit [Interpreter] in
theorem reviseChunk_of_answers {chat : Chat} (answers : ∀ sent, ∃ reply, chat sent = .ok reply)
    (temperature : ℚ) (chunk : Text) (sent : List Prompt) :
    ∃ part, reviseChunk chat temperature chunk sent =
      (.ok part, sent ++ [revisePrompt temperature chunk]) ∧ FromReply chat part := by
  rcases answers (sent ++ [revisePrompt temperature chunk]) with ⟨reply, answered⟩
  refine ⟨Text.strip reply, ?_, _, reply, answered, rfl⟩
  rw [reviseChunk, Effect.bind_apply, ask_apply, answered]
  rfl

omit [Interpreter] in
/-- As long as the model answers, the loop submits every chunk it is given. -/
theorem reviseChunks_of_answers {chat : Chat} (answers : ∀ sent, ∃ reply, chat sent = .ok reply)
    (temperature : ℚ) (chunks : List Text) (sent : List Prompt) :
    ∃ parts, reviseChunks chat temperature chunks sent =
      (.ok parts, sent ++ chunks.map (revisePrompt temperature)) ∧
        ∀ part ∈ parts, FromReply chat part := by
  induction chunks generalizing sent with
  | nil => exact ⟨[], by simp [reviseChunks], by simp⟩
  | cons chunk chunks ih =>
      rcases reviseChunk_of_answers answers temperature chunk sent with ⟨part, first, replied⟩
      rcases ih (sent ++ [revisePrompt temperature chunk]) with ⟨parts, later, repliedLater⟩
      refine ⟨part :: parts, ?_, List.forall_mem_cons.mpr ⟨replied, repliedLater⟩⟩
      rw [reviseChunks, Effect.bind_apply, first]
      simp only
      rw [Effect.bind_apply, later]
      simp

omit [Interpreter] in
theorem ask_ensures (chat : Chat) (prompt : Prompt) (sent : List Prompt) :
    (ask chat prompt).Ensures sent
      (fun reply after => after = sent ++ [prompt] ∧ chat after = .ok reply)
      (fun _ after => after = sent ++ [prompt]) := by
  unfold Effect.Ensures
  rw [ask_apply]
  cases answered : chat (sent ++ [prompt]) with
  | ok reply => exact ⟨rfl, answered⟩
  | error reason => rfl

omit [Interpreter] in
theorem submittedChunks_append_additions (sent : List Prompt) (user : Text) (maxTokens : Nat)
    (temperature : ℚ) :
    submittedChunks (sent ++ [⟨additionsSystem, user, maxTokens, temperature⟩]) =
      submittedChunks sent := by
  have other : additionsSystem ≠ reviseSystem := by decide +kernel
  rw [submittedChunks_append]
  simp [submittedChunks, other]

/-- Drafting the additions submits no chunk. -/
theorem draftAdditions_ensures (chat : Chat) (missing : Json) (temperature : ℚ)
    (sent : List Prompt) :
    (draftAdditions chat missing temperature).Ensures sent
      (fun additions after => submittedChunks after = submittedChunks sent ∧
        (additions = [] ∨ FromReply chat additions))
      (fun _ after => submittedChunks after = submittedChunks sent) := by
  unfold draftAdditions
  split
  · exact Effect.Ensures.pure ⟨rfl, .inl rfl⟩
  · refine Effect.Ensures.bind (Effect.Ensures.lift (fun items sliced => ?_) fun _ _ => rfl)
    refine Effect.Ensures.bind ((ask_ensures chat _ sent).weaken ?_ ?_)
    · rintro reply after ⟨rfl, answered⟩
      exact Effect.Ensures.pure ⟨submittedChunks_append_additions sent _ _ _,
        .inr ⟨_, reply, answered, rfl⟩⟩
    · rintro reason after rfl
      exact submittedChunks_append_additions sent _ _ _

omit [Interpreter] in
/-- The note in a redline to which it was not added comes from a reply. -/
theorem exists_reply_of_note {chat : Chat} {parts : List Text} {additions : Text}
    (replied : ∀ part ∈ parts, FromReply chat part)
    (drafted : additions = [] ∨ FromReply chat additions)
    (noted : truncationNote <:+: Text.strip (if additions = [] then assembleSections parts
      else assembleSections parts ++ sectionBreak ++ additions)) :
    ∃ sent reply, chat sent = .ok reply ∧ truncationNote <:+: reply := by
  have nonempty : truncationNote ≠ [] := by decide +kernel
  have proper : sectionBreak ≠ [] := by decide +kernel
  have foreign : ∀ char ∈ sectionBreak, char ∉ truncationNote :=
    Text.forall_of_all (by decide +kernel)
  have ofReply : ∀ text, FromReply chat text → truncationNote <:+: text →
      ∃ sent reply, chat sent = .ok reply ∧ truncationNote <:+: reply := by
    rintro text ⟨sent, reply, answered, rfl⟩ within
    exact ⟨sent, reply, answered, within.trans (Text.strip_infix reply)⟩
  have ofParts : truncationNote <:+: assembleSections parts →
      ∃ sent reply, chat sent = .ok reply ∧ truncationNote <:+: reply := by
    intro within
    rcases Text.exists_infix_of_intercalate nonempty proper foreign within with
      ⟨part, member, inPart⟩
    exact ofReply part (replied part (List.mem_of_mem_filter member)) inPart
  have within := noted.trans (Text.strip_infix _)
  by_cases none : additions = []
  · rw [if_pos none] at within
    exact ofParts within
  · rw [if_neg none, List.append_assoc] at within
    rcases Text.infix_of_append_append nonempty proper foreign within with inParts | inAdditions
    · exact ofParts inParts
    · exact ofReply additions (drafted.resolve_left none) inAdditions

/-- What `revise_contract` submits of its chunks, as long as the model answers. -/
theorem reviseSections_ensures {chat : Chat} (answers : ∀ sent, ∃ reply, chat sent = .ok reply)
    (chunks : List Text) (analysis : Json) (temperature : ℚ) :
    (reviseSections chat chunks analysis temperature).Ensures []
      (fun redline after => submittedChunks after = chunks.take maxChunks ∧
        (chunks.length ≤ maxChunks → truncationNote <:+: redline →
          ∃ sent reply, chat sent = .ok reply ∧ truncationNote <:+: reply))
      (fun _ after => submittedChunks after = chunks.take maxChunks) := by
  rcases reviseChunks_of_answers answers temperature (chunks.take maxChunks) [] with
    ⟨parts, ran, replied⟩
  have submitted : submittedChunks ([] ++ (chunks.take maxChunks).map (revisePrompt temperature)) =
      chunks.take maxChunks := submittedChunks_revise temperature _
  refine Effect.Ensures.bind (Effect.Ensures.of_ok ran ?_)
  refine Effect.Ensures.bind (Effect.Ensures.lift (fun missing _ => ?_) fun _ _ => submitted)
  refine Effect.Ensures.bind ((draftAdditions_ensures chat _ temperature _).weaken ?_ ?_)
  · rintro additions after ⟨same, drafted⟩
    refine Effect.Ensures.pure ⟨same.trans submitted, fun few noted => ?_⟩
    rw [if_neg (Nat.not_lt.mpr few)] at noted
    exact exists_reply_of_note replied drafted noted
  · intro reason after same
    exact same.trans submitted

end

/-! ## The cap -/

/-- Each cut takes half a window at least. -/
theorem length_iterate_afterCut (maxChars rounds : Nat) (remaining : Text) :
    2 * ((afterCut maxChars)^[rounds] remaining).length ≤
      2 * remaining.length - rounds * maxChars := by
  induction rounds generalizing remaining with
  | zero => simp
  | succ rounds ih =>
      rw [Function.iterate_succ_apply, Nat.succ_mul rounds]
      have shorter := length_afterCut maxChars remaining
      have bounds := cutLength_bounds maxChars remaining
      have rest := ih (afterCut maxChars remaining)
      omega

theorem splitLoop_eq_some {maxChars fuel : Nat} {remaining : Text} {chunks : List Text}
    (nonempty : remaining ≠ []) (split : splitLoop maxChars fuel remaining = some chunks) :
    remaining.length ≤ maxChars ∧ chunks = [remaining] ∨
      maxChars < remaining.length ∧ ∃ fuel later,
        splitLoop maxChars fuel (afterCut maxChars remaining) = some later ∧
          chunks = remaining.take (cutLength maxChars remaining) :: later := by
  cases fuel with
  | zero => exact absurd split (by simp [splitLoop])
  | succ fuel =>
      rw [splitLoop] at split
      by_cases long : maxChars < remaining.length
      · rw [if_pos long] at split
        rcases Option.map_eq_some_iff.mp split with ⟨later, rest, rfl⟩
        exact .inr ⟨long, fuel, later, rest, rfl⟩
      · rw [if_neg long, if_neg nonempty] at split
        exact .inl ⟨by omega, (Option.some.inj split).symm⟩

theorem splitLoop_ne_nil {maxChars fuel : Nat} {remaining : Text} {chunks : List Text}
    (nonempty : remaining ≠ []) (split : splitLoop maxChars fuel remaining = some chunks) :
    chunks ≠ [] := by
  rcases splitLoop_eq_some nonempty split with ⟨_, rfl⟩ | ⟨_, _, later, _, rfl⟩ <;> simp

/-- The loop makes at most one chunk more than the rounds after which what is left is one
chunk. -/
theorem length_splitLoop_le_iff {maxChars fuel rounds : Nat} {remaining : Text}
    {chunks : List Text} (nonempty : remaining ≠ [])
    (stripped : Text.strip remaining = remaining)
    (split : splitLoop maxChars fuel remaining = some chunks) :
    chunks.length ≤ rounds + 1 ↔ ((afterCut maxChars)^[rounds] remaining).length ≤ maxChars := by
  induction rounds generalizing fuel remaining chunks with
  | zero =>
      rcases splitLoop_eq_some nonempty split with ⟨short, rfl⟩ | ⟨long, _, later, rest, rfl⟩
      · simp [short]
      · have further := splitLoop_ne_nil (afterCut_spec stripped long).1 rest
        have count := List.length_pos_of_ne_nil further
        simp only [List.length_cons, Function.iterate_zero, id_eq]
        omega
  | succ rounds ih =>
      rw [Function.iterate_succ_apply]
      rcases splitLoop_eq_some nonempty split with ⟨short, rfl⟩ | ⟨long, _, later, rest, rfl⟩
      · have shorter := length_iterate_afterCut maxChars rounds (afterCut maxChars remaining)
        have once := length_afterCut maxChars remaining
        refine iff_of_true (by simp) (by omega)
      · rcases afterCut_spec stripped long with ⟨remains, trimmed, _⟩
        rw [List.length_cons, Nat.add_le_add_iff_right]
        exact ih remains trimmed rest

/-- Every text of at most 52,000 characters fits. -/
theorem fitsTwelve_of_length_le {text : Text} (short : text.length ≤ 52000) :
    FitsTwelve text := by
  have cuts := length_iterate_afterCut chunkChars (maxChunks - 1) (Text.strip text)
  have stripped := (Text.strip_infix text).length_le
  unfold FitsTwelve
  simp only [chunkChars, maxChunks] at cuts ⊢
  omega

theorem Woven.visibleChars {chunks : List Text} {text : Text} (woven : Woven chunks text) :
    Text.visibleChars chunks.flatten = Text.visibleChars text := by
  rcases woven with ⟨gaps, count, blank, rfl⟩
  induction chunks generalizing gaps with
  | nil => simp at count
  | cons chunk chunks ih =>
      cases gaps with
      | nil =>
          have single : chunks = [] := by simpa using count.symm
          simp [single]
      | cons gap gaps =>
          rw [List.forall_mem_cons] at blank
          have rest := ih gaps (by simpa using count) blank.2
          have gone := Text.visibleChars_eq_nil_iff.mpr blank.1
          simp only [List.flatten_cons, List.cons_append, List.zipWith_cons_cons,
            Text.visibleChars_append, rest, gone, List.append_nil]

/-- What `revise_contract` takes its chunks from. -/
theorem splitIntoChunks_spec (text : Text) :
    ∃ chunks, splitIntoChunks text chunkChars = some chunks ∧
      Text.visibleChars chunks.flatten = Text.visibleChars text ∧
      (∀ chunk ∈ chunks.drop maxChunks, Text.visibleChars chunk ≠ []) ∧
      (chunks.length ≤ maxChunks ↔ FitsTwelve text) := by
  by_cases blank : ∀ char ∈ text, Text.isSpace char = true
  · have empty := Text.strip_eq_nil_iff.mpr blank
    refine ⟨[text], ?_, by simp, by simp [maxChunks], ?_⟩
    · rw [splitIntoChunks, empty]
      rfl
    · have cuts := length_iterate_afterCut chunkChars (maxChunks - 1) []
      rw [FitsTwelve, empty]
      refine iff_of_true (by simp [maxChunks]) ?_
      simp only [List.length_nil] at cuts
      omega
  · have nonempty : Text.strip text ≠ [] := mt Text.strip_eq_nil_iff.mp blank
    have positive : 0 < chunkChars := by decide
    rcases splitLoop_strip_chunking positive nonempty with ⟨chunks, loop, split, chunking⟩
    refine ⟨chunks, split, ?_, ?_, ?_⟩
    · rw [chunking.woven.visibleChars, Text.visibleChars_strip]
    · intro chunk later vanished
      rcases chunking.visible chunk (List.mem_of_mem_drop later) with ⟨first, lead, inside⟩
      have blank := Text.visibleChars_eq_nil_iff.mp vanished first (List.mem_of_mem_head? lead)
      rw [inside] at blank
      exact absurd blank (by simp)
    · exact length_splitLoop_le_iff nonempty (Text.strip_strip text) loop

section

variable [Interpreter]

/-- What is covered as a whole was submitted in twelve chunks. -/
theorem fitsTwelve_of_coversWhole {chat : Chat} (answers : ∀ sent, ∃ reply, chat sent = .ok reply)
    {text : Text} {analysis : Json} {temperature : ℚ}
    {revise : Effect (List Prompt) PyException Text}
    (covers : CoversWhole chat text analysis temperature revise) : FitsTwelve text := by
  rcases splitIntoChunks_spec text with ⟨chunks, split, whole, later, count⟩
  have returned := covers.returned
  rw [reviseContract, split, Option.map_some, Option.some.injEq] at returned
  have submitted : submittedChunks (revise []).2 = chunks.take maxChunks := by
    rw [← returned]
    exact ((reviseSections_ensures answers chunks analysis temperature).weaken
      (fun _ _ holds => holds.1) fun _ _ holds => holds).after
  have cut : chunks.flatten = (chunks.take maxChunks).flatten ++
      (chunks.drop maxChunks).flatten := by
    rw [← List.flatten_append, List.take_append_drop]
  have all := covers.submitted
  rw [submitted, ← whole, cut, Text.visibleChars_append, List.self_eq_append_right,
    Text.visibleChars_eq_nil_iff] at all
  apply count.mp
  by_contra many
  have further : chunks.drop maxChunks ≠ [] := by
    apply List.ne_nil_of_length_pos
    rw [List.length_drop]
    omega
  rcases List.exists_mem_of_ne_nil _ further with ⟨chunk, member⟩
  apply later chunk member
  apply Text.visibleChars_eq_nil_iff.mpr
  intro char inside
  exact all char (List.mem_flatten.mpr ⟨chunk, member, inside⟩)

theorem exists_coversWhole {chat : Chat} (answers : ∀ sent, ∃ reply, chat sent = .ok reply)
    {text : Text} (fits : FitsTwelve text) (analysis : Json) (temperature : ℚ) :
    ∃ revise, CoversWhole chat text analysis temperature revise := by
  rcases splitIntoChunks_spec text with ⟨chunks, split, whole, _, count⟩
  have few := count.mpr fits
  have ensures := reviseSections_ensures answers chunks analysis temperature
  refine ⟨reviseSections chat chunks analysis temperature, ?_, ?_, ?_⟩
  · rw [reviseContract, split, Option.map_some]
  · have submitted := (ensures.weaken (fun _ _ holds => holds.1) fun _ _ holds => holds).after
    rw [submitted, List.take_of_length_le few, whole]
  · intro redline ended noted
    exact (ensures.ok ended).2 few noted

/-- The whole document is covered exactly if it fits in twelve chunks. -/
theorem coversWhole_iff {chat : Chat} (answers : ∀ sent, ∃ reply, chat sent = .ok reply)
    (text : Text) (analysis : Json) (temperature : ℚ) :
    (∃ revise, CoversWhole chat text analysis temperature revise) ↔ FitsTwelve text := by
  constructor
  · rintro ⟨revise, covers⟩
    exact fitsTwelve_of_coversWhole answers covers
  · intro fits
    exact exists_coversWhole answers fits analysis temperature

end

/-! ## Short paragraphs -/

/-- A paragraph that leaves no room for another one in its chunk. -/
def paragraph : Text := List.replicate 4100 'a'

/-- Paragraphs of a little more than half a window, with empty lines between them. -/
def paragraphs : Nat → Text
  | 0 => paragraph
  | more + 1 => paragraph ++ "\n\n".toList ++ paragraphs more

theorem length_paragraph : paragraph.length = 4100 := List.length_replicate

theorem paragraphs_eq (more : Nat) : ∃ rest, paragraphs more = paragraph ++ rest := by
  cases more with
  | zero => exact ⟨[], (List.append_nil _).symm⟩
  | succ more => exact ⟨"\n\n".toList ++ paragraphs more, List.append_assoc _ _ _⟩

theorem length_paragraphs (more : Nat) :
    (paragraphs more).length = 4102 * more + 4100 := by
  induction more with
  | zero => exact length_paragraph
  | succ more ih =>
      have gap : "\n\n".toList.length = 2 := by decide
      rw [paragraphs, List.length_append, List.length_append, length_paragraph, gap, ih]
      omega

theorem take_paragraphs (more : Nat) :
    (paragraphs (more + 1)).take chunkChars =
      paragraph ++ ('\n' :: '\n' :: List.replicate 3898 'a') := by
  rcases paragraphs_eq more with ⟨rest, lead⟩
  have second : (paragraphs more).take 3898 = List.replicate 3898 'a' := by
    rw [lead, List.take_append_of_le_length (by rw [length_paragraph]; decide), paragraph,
      List.take_replicate]
    rfl
  have whole : paragraphs (more + 1) = paragraph ++ ('\n' :: '\n' :: paragraphs more) :=
    List.append_assoc _ _ _
  have long : paragraph.length ≤ chunkChars := by
    rw [length_paragraph]
    decide
  have left : chunkChars - paragraph.length = 3898 + 1 + 1 := by
    rw [length_paragraph, chunkChars]
  rw [whole, List.take_append, List.take_of_length_le long, left, List.take_succ_cons,
    List.take_succ_cons, second]

theorem rfind_paragraph (count : Nat) :
    Text.rfind "\n\n".toList (paragraph ++ ('\n' :: '\n' :: List.replicate count 'a')) = 4100 := by
  have absent : ¬"\n\n".toList <:+: '\n' :: List.replicate count 'a' := by
    intro found
    have twice := found.sublist.count_le '\n'
    rw [List.count_cons_self, List.count_replicate, if_neg (by decide)] at twice
    exact absurd twice (by decide)
  have start : Text.rfind "\n\n".toList ('\n' :: '\n' :: List.replicate count 'a') = 0 := by
    rw [Text.rfind, Text.rfind_of_not_infix absent]
    rfl
  rw [Text.rfind_append_left (Int.le_of_eq start.symm), start, length_paragraph]
  rfl

/-- The window ends within the second paragraph, and the break before that is far enough. -/
theorem cutLength_paragraphs (more : Nat) :
    cutLength chunkChars (paragraphs (more + 1)) = 4100 := by
  rw [cutLength, take_paragraphs, breakPosition, rfind_paragraph]
  rfl

theorem head_paragraphs (more : Nat) : ∃ rest, paragraphs more = 'a' :: rest := by
  rcases paragraphs_eq more with ⟨rest, lead⟩
  exact ⟨List.replicate 4099 'a' ++ rest, lead⟩

theorem afterCut_paragraphs (more : Nat) :
    afterCut chunkChars (paragraphs (more + 1)) = paragraphs more := by
  rcases head_paragraphs more with ⟨rest, lead⟩
  rw [afterCut, cutLength_paragraphs, paragraphs, List.append_assoc, ← length_paragraph,
    List.drop_left, lead]
  rfl

theorem getLast?_paragraphs (more : Nat) : (paragraphs more).getLast? = some 'a' := by
  induction more with
  | zero => rw [paragraphs, paragraph, List.getLast?_replicate, if_neg (by decide)]
  | succ more ih => rw [paragraphs, List.getLast?_append, ih, Option.some_or]

theorem strip_paragraphs (more : Nat) : Text.strip (paragraphs more) = paragraphs more := by
  rcases head_paragraphs more with ⟨rest, lead⟩
  apply Text.strip_eq_self
  · intro char first
    obtain rfl : 'a' = char := by simpa [lead] using first
    decide
  · intro char last
    obtain rfl : 'a' = char := by simpa [getLast?_paragraphs] using last
    decide

theorem iterate_afterCut_paragraphs (rounds more : Nat) :
    (afterCut chunkChars)^[rounds] (paragraphs (rounds + more)) = paragraphs more := by
  induction rounds with
  | zero => rw [Nat.zero_add, Function.iterate_zero, id_eq]
  | succ rounds ih =>
      rw [Function.iterate_succ_apply, Nat.add_right_comm, afterCut_paragraphs, ih]

/-- A model that sends back what it is asked. -/
def echo : Chat := fun sent => .ok ((sent.getLast?.map Prompt.user).getD [])

section

attribute [local instance] Interpreter.ascii

theorem coversWhole_iff_lease :
    (∃ revise, CoversWhole echo "A lease.".toList (.obj []) 0 revise) ↔
      FitsTwelve "A lease.".toList :=
  coversWhole_iff (fun _ => ⟨_, rfl⟩) _ _ _

/-- Thirteen such paragraphs, some 53,000 characters, are not covered as a whole. -/
theorem not_coversWhole_paragraphs :
    (paragraphs 12).length ≤ maxChunks * chunkChars ∧
      ¬∃ revise, CoversWhole echo (paragraphs 12) (.obj []) 0 revise := by
  constructor
  · rw [length_paragraphs]
    decide
  · rintro ⟨revise, covers⟩
    have fits := fitsTwelve_of_coversWhole (fun _ => ⟨_, rfl⟩) covers
    have left := iterate_afterCut_paragraphs (maxChunks - 1) 1
    rw [FitsTwelve, strip_paragraphs, show 12 = maxChunks - 1 + 1 from rfl, left,
      length_paragraphs] at fits
    exact absurd fits (by decide)

end

end OrcaValidator
