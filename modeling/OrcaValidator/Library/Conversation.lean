import Mathlib
import OrcaValidator.Library.Effect

/-!
# Conversations

Computations that put questions to someone who answers each by all that has been asked so
far, or refuses to.  The state of such an effect is the list of its questions, and a refusal
is an exception.

`Asks` bounds what an effect asks, by the number of its questions and by their sizes, and says
that a refusal is the end of it; there is a rule for each way to put effects together.
-/

namespace Library

universe u v w

/-- Someone who answers the last of some questions, or raises. -/
abbrev Oracle (Question : Type u) (Error : Type v) (Answer : Type w) :=
  List Question → Except Error Answer

namespace Conversation

variable {Question : Type u} {Error : Type v} {Answer : Type w} {α β : Type w}
  {oracle : Oracle Question Error Answer}

/-- Ask one more question. -/
def put (oracle : Oracle Question Error Answer) (question : Question) :
    Effect (List Question) Error Answer := fun asked =>
  (oracle (asked ++ [question]), asked ++ [question])

/-- Every question has been answered. -/
def Answered (oracle : Oracle Question Error Answer) (asked : List Question) : Prop :=
  ∀ earlier, earlier ≠ [] → earlier <+: asked → ∃ answer, oracle earlier = .ok answer

/-- Every question but perhaps the last has been answered. -/
def RefusedLast (oracle : Oracle Question Error Answer) (asked : List Question) : Prop :=
  ∀ earlier, earlier ≠ [] → earlier <+: asked → earlier ≠ asked →
    ∃ answer, oracle earlier = .ok answer

theorem Answered.refusedLast {asked : List Question} (answered : Answered oracle asked) :
    RefusedLast oracle asked :=
  fun earlier proper before _ => answered earlier proper before

theorem answered_nil : Answered oracle ([] : List Question) :=
  fun _ proper before => absurd (List.prefix_nil.mp before) proper

theorem Answered.refusedLast_append {asked : List Question} (answered : Answered oracle asked)
    (question : Question) : RefusedLast oracle (asked ++ [question]) := by
  intro earlier proper before differ
  refine answered earlier proper ?_
  rcases List.prefix_concat_iff.mp before with same | before
  · exact absurd same differ
  · exact before

theorem Answered.append {asked : List Question} (answered : Answered oracle asked)
    {question : Question} {answer : Answer} (replied : oracle (asked ++ [question]) = .ok answer) :
    Answered oracle (asked ++ [question]) := by
  intro earlier proper before
  rcases List.prefix_concat_iff.mp before with rfl | before
  · exact ⟨answer, replied⟩
  · exact answered earlier proper before

/-! ## What is asked -/

/-- What has been asked in between: at most so many questions, of so much size together, and
only allowed ones. -/
def Grows (allowed : Question → Prop) (size : Question → ℕ) (count total : ℕ)
    (before after : List Question) : Prop :=
  ∃ more, after = before ++ more ∧ more.length ≤ count ∧ (more.map size).sum ≤ total ∧
    ∀ question ∈ more, allowed question

variable {allowed : Question → Prop} {size : Question → ℕ} {count count' total total' : ℕ}

theorem Grows.refl (asked : List Question) : Grows allowed size count total asked asked :=
  ⟨[], by simp⟩

theorem Grows.mono {before after : List Question}
    (grows : Grows allowed size count total before after) (more : count ≤ count')
    (larger : total ≤ total') : Grows allowed size count' total' before after := by
  rcases grows with ⟨asked, same, few, small, all⟩
  exact ⟨asked, same, Nat.le_trans few more, Nat.le_trans small larger, all⟩

theorem Grows.imp {allowed' : Question → Prop} {before after : List Question}
    (grows : Grows allowed size count total before after)
    (implies : ∀ question, allowed question → allowed' question) :
    Grows allowed' size count total before after := by
  rcases grows with ⟨asked, same, few, small, all⟩
  exact ⟨asked, same, few, small, fun question isAsked => implies question (all question isAsked)⟩

theorem Grows.trans {before middle after : List Question}
    (first : Grows allowed size count total before middle)
    (second : Grows allowed size count' total' middle after) :
    Grows allowed size (count + count') (total + total') before after := by
  rcases first with ⟨asked, rfl, few, small, all⟩
  rcases second with ⟨asked', rfl, few', small', all'⟩
  refine ⟨asked ++ asked', List.append_assoc .., ?_, ?_, List.forall_mem_append.mpr ⟨all, all'⟩⟩
  · rw [List.length_append]
    omega
  · rw [List.map_append, List.sum_append]
    omega

/-- The effect asks no more than this, and nothing more once it has been refused. -/
def Asks (oracle : Oracle Question Error Answer) (allowed : Question → Prop)
    (size : Question → ℕ) (count total : ℕ) (action : Effect (List Question) Error α) : Prop :=
  ∀ asked, Answered oracle asked → action.Ensures asked
    (fun _ after => Grows allowed size count total asked after ∧ Answered oracle after)
    (fun _ after => Grows allowed size count total asked after ∧ RefusedLast oracle after)

namespace Asks

theorem mono {action : Effect (List Question) Error α}
    (asks : Asks oracle allowed size count total action) (more : count ≤ count')
    (larger : total ≤ total') : Asks oracle allowed size count' total' action :=
  fun asked answered => (asks asked answered).weaken
    (fun _ _ grows => ⟨grows.1.mono more larger, grows.2⟩)
    (fun _ _ grows => ⟨grows.1.mono more larger, grows.2⟩)

theorem lift (outcome : Except Error α) :
    Asks oracle allowed size 0 0 (Effect.lift outcome : Effect (List Question) Error α) :=
  fun asked answered => .lift (fun _ _ => ⟨.refl asked, answered⟩)
    fun _ _ => ⟨.refl asked, answered.refusedLast⟩

theorem pure (value : α) :
    Asks oracle allowed size 0 0 (Pure.pure value : Effect (List Question) Error α) :=
  lift (.ok value)

theorem put {question : Question} (isAllowed : allowed question) :
    Asks oracle allowed size 1 (size question) (put oracle question) := by
  intro asked answered
  have grows : Grows allowed size 1 (size question) asked (asked ++ [question]) :=
    ⟨[question], rfl, by simp, by simp, by simpa using isAllowed⟩
  unfold Effect.Ensures Conversation.put
  cases replied : oracle (asked ++ [question]) with
  | ok answer => exact ⟨grows, answered.append replied⟩
  | error reason => exact ⟨grows, answered.refusedLast_append question⟩

theorem bind {first : Effect (List Question) Error α} {next : α → Effect (List Question) Error β}
    (asks : Asks oracle allowed size count total first)
    (asksNext : ∀ value, Asks oracle allowed size count' total' (next value)) :
    Asks oracle allowed size (count + count') (total + total') (first >>= next) := by
  intro asked answered
  refine Effect.Ensures.bind ((asks asked answered).weaken ?_ ?_)
  · rintro value middle ⟨grows, answered'⟩
    exact (asksNext value middle answered').weaken
      (fun _ _ grows' => ⟨grows.trans grows'.1, grows'.2⟩)
      (fun _ _ grows' => ⟨grows.trans grows'.1, grows'.2⟩)
  · rintro reason middle ⟨grows, refused⟩
    exact ⟨grows.mono (Nat.le_add_right _ _) (Nat.le_add_right _ _), refused⟩

theorem ite {condition : Prop} [Decidable condition] {yes no : Effect (List Question) Error α}
    (asks : condition → Asks oracle allowed size count total yes)
    (asks' : ¬condition → Asks oracle allowed size count total no) :
    Asks oracle allowed size count total (if condition then yes else no) := by
  by_cases holds : condition
  · rw [if_pos holds]
    exact asks holds
  · rw [if_neg holds]
    exact asks' holds

/-- Whoever catches the refusal may not ask on, but learns from the value that there was none. -/
theorem caught {action : Effect (List Question) Error α} {handler : Error → α}
    {asked : List Question} (asks : Asks oracle allowed size count total action)
    (answered : Answered oracle asked) :
    (Effect.catching action fun reason => Pure.pure (handler reason)).Ensures asked
      (fun value after => Grows allowed size count total asked after ∧ RefusedLast oracle after ∧
        ((∀ reason, value ≠ handler reason) → Answered oracle after))
      (fun _ _ => False) := by
  refine .catching ((asks asked answered).weaken ?_ ?_)
  · exact fun value after grows => ⟨grows.1, grows.2.refusedLast, fun _ => grows.2⟩
  · exact fun reason after grows =>
      .pure ⟨grows.1, grows.2, fun unhandled => absurd rfl (unhandled reason)⟩

end Asks

end Conversation

end Library
