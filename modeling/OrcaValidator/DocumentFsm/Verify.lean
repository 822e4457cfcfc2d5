import OrcaValidator.DocumentFsm.Mermaid
import OrcaValidator.DocumentFsm.Normalize
import OrcaValidator.Library.Scratch
import OrcaValidator.Library.Transition
import OrcaValidator.Orca.Verification

/-!
# Verifying a document's machine

`verify_and_compile` runs in a thread of its own for each document.  The threads share a
directory of temporary files, in which each creates one, runs the verifier on it and removes
it again; any of them may be interrupted by an exception or go down with its process.

Whatever the threads do in between, each returns what the verifier says about the copy of its
own machine, and no other file changes.
-/

namespace OrcaValidator

open Library System

section Verify

variable [Interpreter]

/-- `orca_md and "## state" in orca_md`. -/
def DescribesStates (orcaMd : Text) : Prop := "## state".toList <:+: orcaMd

omit [Interpreter] in
instance (orcaMd : Text) : Decidable (DescribesStates orcaMd) :=
  inferInstanceAs (Decidable (_ <:+: _))

/-- What `verify_and_compile` returns. -/
def documentFsm (orcaMd : Text) (mermaid : Option Text) (verified : Bool) (report : Text) : Json :=
  .obj [("orca_md".toList, .str orcaMd), ("mermaid".toList, (mermaid.map .str).getD .null),
    ("verified".toList, .bool verified), ("report".toList, .str report)]

/-- The answer for a text that describes no states. -/
def noStateMachine (orcaMd : Text) : Json :=
  documentFsm orcaMd none false
    "no state machine could be extracted from the document".toList

/-- The result of a copy that could not be written, or on which the verifier did not end. -/
def verificationFailed (orcaMd : Text) (error : PyException) : Json :=
  documentFsm orcaMd none false ("error: ".toList ++ error.message)

/-- The result of a verifier that has ended. -/
def verificationEnded (orcaMd : Text) (process : CompletedProcess) : Json :=
  documentFsm orcaMd ((buildMermaid orcaMd).toOption.join) (process.returncode = 0)
    (Text.strip (process.stdout ++ process.stderr))

/-- What a thread returns after the `finally` block. -/
def verificationResult (orcaMd : Text) : Except PyException CompletedProcess → Json
  | .error error => verificationFailed orcaMd error
  | .ok process => verificationEnded orcaMd process

/-- Where a call of `verify_and_compile` stands. -/
inductive VerifyCall where
  | idle
  | called (orcaMd : Text)
  | created (orcaMd path : Text)
  | written (orcaMd path : Text)
  | ended (orcaMd path : Text) (outcome : Except PyException CompletedProcess)
  | returned (orcaMd : Text) (result : Except PyException Json)

/-- The temporary file that the call holds. -/
def VerifyCall.path? : VerifyCall → Option Text
  | created _ path | written _ path | ended _ path _ => some path
  | _ => none

/-- The steps of the calls: what each statement of `verify_and_compile` can do, failures
included. -/
inductive VerifyStep (Thread Circumstance : Type) where
  | call (thread : Thread) (orcaMd : Text)
  | mkstemp (thread : Thread) (path : Text)
  | mkstempRaises (thread : Thread) (error : PyException)
  | write (thread : Thread)
  /-- The copy is not written whole. -/
  | writeRaises (thread : Thread) (count : ℕ) (error : PyException)
  | verify (thread : Thread) (circumstance : Circumstance)
  | unlink (thread : Thread) (removes : Bool)
  /-- Some threads go down with their process. -/
  | die (gone : Thread → Bool)

/-- The temporary files and the calls, one for each thread. -/
structure Verifying (Thread : Type) where
  files : Text → Option Text
  calls : Thread → VerifyCall

namespace Verifying

variable {Thread Circumstance : Type} [DecidableEq Thread]

/-- Where the call of the thread is now. -/
def setCall (state : Verifying Thread) (thread : Thread) (call : VerifyCall) :
    Verifying Thread :=
  { state with calls := Function.update state.calls thread call }

/-- The content of a file, or none where it is unlinked. -/
def setFile (state : Verifying Thread) (path : Text) (content : Option Text) :
    Verifying Thread :=
  { state with files := Function.update state.files path content }

/-- What the verifier does with a file of some content: it may depend on circumstances whether
it ends, and how. -/
abbrev DocumentVerifier (Circumstance : Type) :=
  Circumstance → Text → Except PyException CompletedProcess

/-- One step.  A path of `mkstemp` is new, and `finally` unlinks it whatever has happened. -/
def step (verifier : DocumentVerifier Circumstance) (state : Verifying Thread) :
    VerifyStep Thread Circumstance → Option (Verifying Thread)
  | .call thread orcaMd =>
      match state.calls thread with
      | .idle | .returned _ _ => some (state.setCall thread
          (if DescribesStates orcaMd then .called orcaMd
            else .returned orcaMd (.ok (noStateMachine orcaMd))))
      | _ => none
  | .mkstemp thread path =>
      match state.calls thread, state.files path with
      | .called orcaMd, none =>
          some ((state.setFile path (some [])).setCall thread (.created orcaMd path))
      | _, _ => none
  | .mkstempRaises thread error =>
      match state.calls thread with
      | .called orcaMd => some (state.setCall thread (.returned orcaMd (.error error)))
      | _ => none
  | .write thread =>
      match state.calls thread with
      | .created orcaMd path =>
          some ((state.setFile path (some (normalizeForVerification orcaMd))).setCall thread
            (.written orcaMd path))
      | _ => none
  | .writeRaises thread count error =>
      match state.calls thread with
      | .created orcaMd path =>
          some ((state.setFile path (some ((normalizeForVerification orcaMd).take count))).setCall
            thread (.ended orcaMd path (.error error)))
      | _ => none
  | .verify thread circumstance =>
      match state.calls thread with
      | .written orcaMd path =>
          (state.files path).map fun content =>
            state.setCall thread (.ended orcaMd path (verifier circumstance content))
      | _ => none
  | .unlink thread removes =>
      match state.calls thread with
      | .ended orcaMd path outcome =>
          some ((if removes then state.setFile path none else state).setCall thread
            (.returned orcaMd (.ok (verificationResult orcaMd outcome))))
      | _ => none
  | .die gone =>
      some { state with calls := fun thread => if gone thread then .idle else state.calls thread }

/-- Calls over one directory, none of which has begun. -/
def system (verifier : DocumentVerifier Circumstance) :
    System (Verifying Thread) (VerifyStep Thread Circumstance) where
  initial := fun state => ∀ thread, state.calls thread = .idle
  step := step verifier

end Verifying

/-! ## What the calls know -/

open Verifying

/-- The results that a call may return: no machine, no temporary file, a verification that
failed, or what the verifier said about the copy. -/
inductive Earned {Circumstance : Type} (verifier : DocumentVerifier Circumstance)
    (orcaMd : Text) : Except PyException Json → Prop
  | noMachine (undescribed : ¬DescribesStates orcaMd) :
      Earned verifier orcaMd (.ok (noStateMachine orcaMd))
  | noFile (error : PyException) (describes : DescribesStates orcaMd) :
      Earned verifier orcaMd (.error error)
  | failed (error : PyException) (describes : DescribesStates orcaMd) :
      Earned verifier orcaMd (.ok (verificationFailed orcaMd error))
  | ended (circumstance : Circumstance) (process : CompletedProcess)
      (describes : DescribesStates orcaMd)
      (ran : verifier circumstance (normalizeForVerification orcaMd) = .ok process) :
      Earned verifier orcaMd (.ok (verificationEnded orcaMd process))

section Threads

variable {Thread Circumstance : Type} {verifier : DocumentVerifier Circumstance}
  {files files' start : Text → Option Text}

/-- What a call knows about its file and about the verifier. -/
def VerifyCall.Sound (verifier : DocumentVerifier Circumstance) (files : Text → Option Text) :
    VerifyCall → Prop
  | idle => True
  | called orcaMd | created orcaMd _ => DescribesStates orcaMd
  | written orcaMd path =>
      DescribesStates orcaMd ∧ files path = some (normalizeForVerification orcaMd)
  | ended orcaMd _ outcome => DescribesStates orcaMd ∧ ∀ process, outcome = .ok process →
      ∃ circumstance, verifier circumstance (normalizeForVerification orcaMd) = .ok process
  | returned orcaMd result => Earned verifier orcaMd result

/-- A call looks at no file but its own. -/
theorem VerifyCall.Sound.frame {call : VerifyCall} (sound : call.Sound verifier files)
    (same : ∀ path, call.path? = some path → files' path = files path) :
    call.Sound verifier files' := by
  cases call with
  | idle => trivial
  | called orcaMd => exact sound
  | created orcaMd path => exact sound
  | written orcaMd path => exact ⟨sound.1, (same path rfl).trans sound.2⟩
  | ended orcaMd path outcome => exact sound
  | returned orcaMd result => exact sound

/-- The result of a verification that has ended is earned. -/
theorem earned_verificationResult {orcaMd path : Text} {outcome : Except PyException CompletedProcess}
    (sound : (VerifyCall.ended orcaMd path outcome).Sound verifier files) :
    Earned verifier orcaMd (.ok (verificationResult orcaMd outcome)) := by
  cases outcome with
  | error error => exact .failed error sound.1
  | ok process =>
      rcases sound.2 process rfl with ⟨circumstance, ran⟩
      exact .ended circumstance process sound.1 ran

namespace Verifying

/-- The file that each thread holds. -/
def held (state : Verifying Thread) (thread : Thread) : Option Text :=
  (state.calls thread).path?

/-- Where the files were when the threads began, each call is sound, and each works on a file of
its own, that was not there before. -/
structure Sound (verifier : DocumentVerifier Circumstance) (start : Text → Option Text)
    (state : Verifying Thread) : Prop where
  isPrivate : Private state.files state.held
  calls : ∀ thread, (state.calls thread).Sound verifier state.files
  kept : ∀ {path}, start path ≠ none → state.files path = start path
  fresh : ∀ {thread path}, state.held thread = some path → start path = none

variable [DecidableEq Thread] {state next : Verifying Thread} {thread : Thread} {path : Text}
  {call : VerifyCall}

omit [Interpreter] in
theorem held_setCall (other : Thread) : (state.setCall thread call).held other =
    if other = thread then call.path? else state.held other := by
  unfold held setCall
  by_cases same : other = thread
  · simp [same]
  · simp [same]

omit [Interpreter] in
/-- Another thread holds what it held before. -/
theorem held_of_ne {other : Thread} (differ : other ≠ thread) :
    (state.setCall thread call).held other = state.held other := by
  rw [held_setCall, if_neg differ]

/-- A call goes on without touching its file. -/
theorem Sound.moves (sound : Sound verifier start state)
    (fewer : ∀ path, call.path? = some path → state.held thread = some path)
    (callSound : call.Sound verifier state.files) :
    Sound verifier start (state.setCall thread call) where
  isPrivate := by
    refine sound.isPrivate.forget ?_
    intro other path holds
    rw [held_setCall] at holds
    split at holds
    · next same => rw [same]; exact fewer path holds
    · exact holds
  calls := by
    intro other
    by_cases same : other = thread
    · subst same
      simpa [setCall] using callSound
    · simpa [setCall, same] using sound.calls other
  kept := sound.kept
  fresh := by
    intro other path holds
    rw [held_setCall] at holds
    split at holds
    · exact sound.fresh (fewer path holds)
    · exact sound.fresh holds

/-- A call creates its file, or writes it. -/
theorem Sound.writes (sound : Sound verifier start state) {content : Text}
    (mine : state.files path = none ∨ state.held thread = some path)
    (holds : call.path? = some path)
    (callSound : call.Sound verifier (Function.update state.files path (some content))) :
    Sound verifier start ((state.setFile path (some content)).setCall thread call) := by
  have unused : start path = none := by
    by_contra used
    rcases mine with unused | mine
    · exact used ((sound.kept used).symm.trans unused)
    · exact used (sound.fresh mine)
  have others : ∀ {other path'},
      ((state.setFile path (some content)).setCall thread call).held other = some path' →
        (other = thread ∧ path' = path) ∨ (other ≠ thread ∧ state.held other = some path') := by
    intro other path' held
    by_cases same : other = thread
    · rw [held_setCall, if_pos same, holds] at held
      exact .inl ⟨same, (Option.some.inj held).symm⟩
    · rw [held_of_ne same] at held
      exact .inr ⟨same, held⟩
  refine ⟨sound.isPrivate.write others mine, ?_, ?_, ?_⟩
  · intro other
    by_cases same : other = thread
    · subst same
      simpa [setCall, setFile] using callSound
    · have frame : (state.calls other).Sound verifier
          (Function.update state.files path (some content)) := by
        refine (sound.calls other).frame fun path' held => Function.update_of_ne ?_ _ _
        rintro rfl
        rcases mine with unused | mine
        · exact sound.isPrivate.present held unused
        · exact same (sound.isPrivate.own held mine)
      simpa [setCall, setFile, same] using frame
  · intro path' used
    have apart : path' ≠ path := by
      rintro rfl
      exact used unused
    exact (Function.update_of_ne apart _ _).trans (sound.kept used)
  · intro other path' held
    rcases others held with ⟨_, rfl⟩ | ⟨_, held⟩
    · exact unused
    · exact sound.fresh held

/-- A call removes its file. -/
theorem Sound.removes (sound : Sound verifier start state)
    (mine : state.held thread = some path) (none : call.path? = none)
    (callSound : ∀ files, call.Sound verifier files) :
    Sound verifier start ((state.setFile path Option.none).setCall thread call) := by
  have others : ∀ {other path'},
      ((state.setFile path Option.none).setCall thread call).held other = some path' →
        other ≠ thread ∧ state.held other = some path' := by
    intro other path' held
    by_cases same : other = thread
    · rw [held_setCall, if_pos same, none] at held
      cases held
    · rw [held_of_ne same] at held
      exact ⟨same, held⟩
  refine ⟨sound.isPrivate.remove others mine, ?_, ?_, ?_⟩
  · intro other
    by_cases same : other = thread
    · subst same
      simpa [setCall] using callSound _
    · have frame : (state.calls other).Sound verifier
          (Function.update state.files path Option.none) :=
        (sound.calls other).frame fun path' held =>
          Function.update_of_ne (sound.isPrivate.ne_of_held same mine held) _ _
      simpa [setCall, setFile, same] using frame
  · intro path' used
    have apart : path' ≠ path := by
      rintro rfl
      exact used (sound.fresh mine)
    exact (Function.update_of_ne apart _ _).trans (sound.kept used)
  · exact fun held => sound.fresh (others held).2

omit [DecidableEq Thread] in
theorem Sound.dies (sound : Sound verifier start state) (gone : Thread → Bool) :
    Sound verifier start
      { state with calls := fun thread => if gone thread then .idle else state.calls thread } where
  isPrivate := by
    refine sound.isPrivate.forget fun {other path} holds => ?_
    unfold held at holds ⊢
    dsimp only at holds
    split at holds
    · cases holds
    · exact holds
  calls := by
    intro other
    dsimp only
    split
    · trivial
    · exact sound.calls other
  kept := sound.kept
  fresh := by
    intro other path holds
    unfold held at holds
    dsimp only at holds
    split at holds
    · cases holds
    · exact sound.fresh holds

theorem Sound.step {label : VerifyStep Thread Circumstance} (sound : Sound verifier start state)
    (taken : Verifying.step verifier state label = some next) : Sound verifier start next := by
  cases label with
  | call thread orcaMd =>
      have begins : Sound verifier start (state.setCall thread (if DescribesStates orcaMd
          then .called orcaMd else .returned orcaMd (.ok (noStateMachine orcaMd)))) := by
        by_cases describes : DescribesStates orcaMd
        · rw [if_pos describes]
          exact sound.moves (by rintro _ ⟨⟩) describes
        · rw [if_neg describes]
          exact sound.moves (by rintro _ ⟨⟩) (.noMachine describes)
      rw [Verifying.step] at taken
      split at taken <;> cases taken <;> exact begins
  | mkstemp thread path =>
      rw [Verifying.step] at taken
      split at taken
      · next orcaMd called unused =>
          cases taken
          have describes : (VerifyCall.called orcaMd).Sound verifier state.files :=
            called ▸ sound.calls thread
          exact sound.writes (.inl unused) rfl describes
      · cases taken
  | mkstempRaises thread error =>
      rw [Verifying.step] at taken
      split at taken
      · next orcaMd called =>
          cases taken
          have describes : (VerifyCall.called orcaMd).Sound verifier state.files :=
            called ▸ sound.calls thread
          exact sound.moves (by rintro _ ⟨⟩) (.noFile error describes)
      · cases taken
  | write thread =>
      rw [Verifying.step] at taken
      split at taken
      · next orcaMd path created =>
          cases taken
          have describes : (VerifyCall.created orcaMd path).Sound verifier state.files :=
            created ▸ sound.calls thread
          exact sound.writes (.inr (congrArg VerifyCall.path? created)) rfl
            ⟨describes, Function.update_self ..⟩
      · cases taken
  | writeRaises thread count error =>
      rw [Verifying.step] at taken
      split at taken
      · next orcaMd path created =>
          cases taken
          have describes : (VerifyCall.created orcaMd path).Sound verifier state.files :=
            created ▸ sound.calls thread
          exact sound.writes (.inr (congrArg VerifyCall.path? created)) rfl
            ⟨describes, by rintro _ ⟨⟩⟩
      · cases taken
  | verify thread circumstance =>
      rw [Verifying.step] at taken
      split at taken
      · next orcaMd path written =>
          have mine : state.held thread = some path := congrArg VerifyCall.path? written
          have copied : (VerifyCall.written orcaMd path).Sound verifier state.files :=
            written ▸ sound.calls thread
          rw [copied.2] at taken
          cases taken
          refine sound.moves ?_ ⟨copied.1, fun process ran => ⟨circumstance, ran⟩⟩
          rintro _ ⟨⟩
          exact mine
      · cases taken
  | unlink thread removes =>
      rw [Verifying.step] at taken
      split at taken
      · next orcaMd path outcome ended =>
          cases taken
          have mine : state.held thread = some path := congrArg VerifyCall.path? ended
          have ran : (VerifyCall.ended orcaMd path outcome).Sound verifier state.files :=
            ended ▸ sound.calls thread
          cases removes with
          | true => exact sound.removes mine rfl fun _ => earned_verificationResult ran
          | false => exact sound.moves (by rintro _ ⟨⟩) (earned_verificationResult ran)
      · cases taken
  | die gone =>
      cases taken
      exact sound.dies gone

/-! ## What the threads leave behind -/

/-- The thread neither goes down nor fails to remove its file. -/
def Tidies : VerifyStep Thread Circumstance → Prop
  | .unlink _ removes => removes = true
  | .die _ => False
  | _ => True

/-- The only files that are new are those that are still held. -/
def Tidy (start : Text → Option Text) (state : Verifying Thread) : Prop :=
  ∀ path, state.files path = start path ∨ ∃ thread, state.held thread = some path

omit [Interpreter] in
theorem Tidy.moves (tidy : Tidy start state) (same : state.held thread = call.path?) :
    Tidy start (state.setCall thread call) := by
  intro path
  rcases tidy path with unchanged | ⟨other, held⟩
  · exact .inl unchanged
  · refine .inr ⟨other, ?_⟩
    rw [held_setCall]
    split
    · next isThread => rw [← same, ← isThread, held]
    · exact held

omit [Interpreter] in
theorem Tidy.writes (tidy : Tidy start state) {content : Option Text}
    (mine : ∀ path', state.held thread = some path' → path' = path)
    (holds : call.path? = some path) :
    Tidy start ((state.setFile path content).setCall thread call) := by
  intro path'
  by_cases same : path' = path
  · exact .inr ⟨thread, by rw [held_setCall, if_pos rfl, holds, same]⟩
  · rcases tidy path' with unchanged | ⟨other, held⟩
    · exact .inl ((Function.update_of_ne same _ _).trans unchanged)
    · refine .inr ⟨other, ?_⟩
      rw [held_of_ne]
      · exact held
      · rintro rfl
        exact same (mine path' held)

omit [Interpreter] in
theorem Tidy.removes (tidy : Tidy start state) (mine : state.held thread = some path)
    (new : start path = none) :
    Tidy start ((state.setFile path none).setCall thread call) := by
  intro path'
  by_cases same : path' = path
  · exact .inl (by rw [same, new]; exact Function.update_self ..)
  · rcases tidy path' with unchanged | ⟨other, held⟩
    · exact .inl ((Function.update_of_ne same _ _).trans unchanged)
    · refine .inr ⟨other, ?_⟩
      rw [held_of_ne]
      · exact held
      · rintro rfl
        exact same (Option.some.inj (held.symm.trans mine))

theorem Tidy.step {label : VerifyStep Thread Circumstance} (tidy : Tidy start state)
    (sound : Sound verifier start state) (tidies : Tidies label)
    (taken : Verifying.step verifier state label = some next) : Tidy start next := by
  cases label with
  | call thread orcaMd =>
      have begins (idle : state.held thread = none) :
          Tidy start (state.setCall thread (if DescribesStates orcaMd
            then .called orcaMd else .returned orcaMd (.ok (noStateMachine orcaMd)))) := by
        refine tidy.moves ?_
        rw [idle]
        split <;> rfl
      rw [Verifying.step] at taken
      split at taken
      · next idle =>
          cases taken
          exact begins (congrArg VerifyCall.path? idle)
      · next returned =>
          cases taken
          exact begins (congrArg VerifyCall.path? returned)
      · cases taken
  | mkstemp thread path =>
      rw [Verifying.step] at taken
      split at taken
      · next orcaMd called unused =>
          cases taken
          refine tidy.writes ?_ rfl
          intro path' held
          cases held.symm.trans (congrArg VerifyCall.path? called)
      · cases taken
  | mkstempRaises thread error =>
      rw [Verifying.step] at taken
      split at taken
      · next orcaMd called =>
          cases taken
          have idle : state.held thread = none := congrArg VerifyCall.path? called
          exact tidy.moves idle
      · cases taken
  | write thread =>
      rw [Verifying.step] at taken
      split at taken
      · next orcaMd path created =>
          cases taken
          refine tidy.writes ?_ rfl
          intro path' held
          exact Option.some.inj (held.symm.trans (congrArg VerifyCall.path? created))
      · cases taken
  | writeRaises thread count error =>
      rw [Verifying.step] at taken
      split at taken
      · next orcaMd path created =>
          cases taken
          refine tidy.writes ?_ rfl
          intro path' held
          exact Option.some.inj (held.symm.trans (congrArg VerifyCall.path? created))
      · cases taken
  | verify thread circumstance =>
      rw [Verifying.step] at taken
      split at taken
      · next orcaMd path written =>
          rcases Option.map_eq_some_iff.mp taken with ⟨content, _, rfl⟩
          have mine : state.held thread = some path := congrArg VerifyCall.path? written
          exact tidy.moves mine
      · cases taken
  | unlink thread removes =>
      obtain rfl : removes = true := tidies
      rw [Verifying.step] at taken
      split at taken
      · next orcaMd path outcome ended =>
          cases taken
          have mine : state.held thread = some path := congrArg VerifyCall.path? ended
          exact tidy.removes mine (sound.fresh mine)
      · cases taken
  | die gone => exact tidies.elim

omit [DecidableEq Thread] in
theorem Sound.of_idle (idle : ∀ thread, state.calls thread = .idle) :
    Sound verifier state.files state := by
  have none : ∀ thread, state.held thread = Option.none := fun thread =>
    congrArg VerifyCall.path? (idle thread)
  refine ⟨⟨?_, ?_⟩, ?_, fun _ => rfl, ?_⟩
  · intro thread path held
    cases held.symm.trans (none thread)
  · intro first second path held
    cases held.symm.trans (none first)
  · intro thread
    rw [idle thread]
    trivial
  · intro thread path held
    cases held.symm.trans (none thread)

/-- Whatever the threads do in between, each call returns a result that is earned: it is what
the verifier said about the copy of the call's own machine, if it says `verified`.  No file that
was there is touched, and none is left by threads that could remove theirs. -/
theorem earned_of_executes {start reached : Verifying Thread}
    {labels : List (VerifyStep Thread Circumstance)}
    (idle : ∀ thread, start.calls thread = .idle)
    (executes : (system verifier).Executes start labels reached) :
    (∀ thread orcaMd result, reached.calls thread = .returned orcaMd result →
      Earned verifier orcaMd result) ∧
    (∀ path, start.files path ≠ none → reached.files path = start.files path) ∧
    ((∀ label ∈ labels, Tidies label) → (∀ thread, reached.held thread = none) →
      reached.files = start.files) := by
  have initial : Sound verifier start.files start := .of_idle idle
  have sound : Sound verifier start.files reached :=
    executes.keeps (Sound verifier start.files) (fun sound taken => sound.step taken) initial
  refine ⟨?_, fun path => sound.kept, ?_⟩
  · intro thread orcaMd result returned
    have known := sound.calls thread
    rw [returned] at known
    exact known
  · intro tidies released
    have tidy := (executes.restrict tidies).transfer
      (fun state => Sound verifier start.files state ∧ Tidy start.files state)
      (fun both taken tidies => ⟨⟨both.1.step taken, both.2.step both.1 tidies taken⟩, trivial⟩)
      ⟨initial, fun path => .inl rfl⟩
    funext path
    rcases tidy.1.2 path with unchanged | ⟨thread, held⟩
    · exact unchanged
    · cases held.symm.trans (released thread)

end Verifying

end Threads

end Verify

section Sample

attribute [local instance] Interpreter.ascii

/-- A machine of one state. -/
def oneState : Text := "# machine One\n\n## state only [initial, final]\n".toList

/-- A verifier that may run out of time. -/
def sampleVerifier (inTime : Bool) (_ : Text) : Except PyException CompletedProcess :=
  if inTime then .ok ⟨0, "verified".toList, []⟩
  else .error ⟨"TimeoutExpired".toList, "timed out after 60 seconds".toList⟩

/-- No file and no call. -/
def quietThreads : Verifying Bool := ⟨fun _ => none, fun _ => .idle⟩

/-- Two threads, one of which does not get its copy onto the disk. -/
def interleaving : List (VerifyStep Bool Bool) :=
  [.call true oneState, .call false oneState, .mkstemp true "/tmp/a.orca.md".toList,
    .mkstemp false "/tmp/b.orca.md".toList, .write true,
    .writeRaises false 3 ⟨"OSError".toList, "No space left on device".toList⟩,
    .verify true true, .unlink false true, .unlink true true]

theorem earned_of_executes_interleaving : ∃ reached process,
    (Verifying.system sampleVerifier).execute quietThreads interleaving = some reached ∧
      reached.calls true = .returned oneState (.ok (verificationEnded oneState process)) ∧
      Earned sampleVerifier oneState (.ok (verificationEnded oneState process)) ∧
      reached.files = quietThreads.files := by
  have executed : ∃ reached,
      (Verifying.system sampleVerifier).execute quietThreads interleaving = some reached ∧
        reached.calls true = .returned oneState (.ok (verificationEnded oneState
          ⟨0, "verified".toList, []⟩)) ∧ reached.held true = none ∧ reached.held false = none :=
    ⟨_, rfl, rfl, rfl, rfl⟩
  rcases executed with ⟨reached, executed, returned, first, second⟩
  have idle : ∀ thread, quietThreads.calls thread = .idle := fun _ => rfl
  have tidies : ∀ label ∈ interleaving, Verifying.Tidies label := by
    simp [interleaving, Verifying.Tidies]
  have released : ∀ thread, reached.held thread = none := by
    intro thread
    cases thread with
    | true => exact first
    | false => exact second
  have known := Verifying.earned_of_executes idle
    (executes_of_execute executed)
  exact ⟨reached, _, executed, returned, known.1 true oneState _ returned, known.2.2 tidies released⟩

end Sample

end OrcaValidator
