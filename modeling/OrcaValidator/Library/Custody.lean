import Mathlib.Data.List.Nodup
import Mathlib.Logic.Function.Basic

/-!
# Custody

Places that hold tokens.  A token is handed from place to place, or lost, but never copied:
`Exclusive` says that no token is held twice, by one place or by two, and every rule below is
a way to change what the places hold that keeps it so.
-/

namespace Library

universe u v

/-- What each place holds. -/
abbrev Custody (Place : Type u) (Token : Type v) := Place → List Token

namespace Custody

variable {Place : Type u} {Token : Type v}

/-- Some place holds the token. -/
def Held (custody : Custody Place Token) (token : Token) : Prop :=
  ∃ place, token ∈ custody place

/-- Every token is in one place at most, and there once. -/
structure Exclusive (custody : Custody Place Token) : Prop where
  nodup : ∀ place, (custody place).Nodup
  only : ∀ {token first second}, token ∈ custody first → token ∈ custody second → first = second

variable {before after : Custody Place Token} {token : Token}

theorem exclusive_of_empty (empty : ∀ place, before place = []) : Exclusive before where
  nodup := by
    intro place
    rw [empty place]
    exact List.nodup_nil
  only := by
    intro token first second member
    rw [empty first] at member
    cases member

/-- Tokens may be lost. -/
theorem Exclusive.loses (exclusive : Exclusive before)
    (kept : ∀ place, (after place).Sublist (before place)) : Exclusive after where
  nodup := fun place => (exclusive.nodup place).sublist (kept place)
  only := fun first second => exclusive.only ((kept _).subset first) ((kept _).subset second)

section Places

variable [DecidableEq Place]

/-- One more token in a place. -/
def receive (custody : Custody Place Token) (place : Place) (token : Token) :
    Custody Place Token :=
  Function.update custody place (token :: custody place)

/-- One place holds these tokens instead. -/
def keep (custody : Custody Place Token) (place : Place) (rest : List Token) :
    Custody Place Token :=
  Function.update custody place rest

theorem mem_receive {place other : Place} {another : Token} :
    another ∈ before.receive place token other ↔
      another ∈ before other ∨ (other = place ∧ another = token) := by
  unfold receive
  by_cases same : other = place
  · subst same
    simp [or_comm]
  · simp [same]

/-- A token that no place holds may be received anywhere. -/
theorem Exclusive.receives (exclusive : Exclusive before) (fresh : ¬before.Held token)
    (place : Place) : Exclusive (before.receive place token) where
  nodup := by
    intro other
    unfold receive
    by_cases same : other = place
    · subst same
      rw [Function.update_self]
      exact List.nodup_cons.mpr ⟨fun member => fresh ⟨other, member⟩, exclusive.nodup other⟩
    · rw [Function.update_of_ne same]
      exact exclusive.nodup other
  only := by
    intro another first second inFirst inSecond
    rcases mem_receive.mp inFirst with held | ⟨rfl, rfl⟩
    · rcases mem_receive.mp inSecond with held' | ⟨rfl, rfl⟩
      · exact exclusive.only held held'
      · exact absurd ⟨first, held⟩ fresh
    · rcases mem_receive.mp inSecond with held | ⟨rfl, _⟩
      · exact absurd ⟨second, held⟩ fresh
      · rfl

variable {source target : Place} {rest : List Token}

theorem Exclusive.keeps (exclusive : Exclusive before)
    (some : (before source).Perm (token :: rest)) : Exclusive (before.keep source rest) where
  nodup := by
    intro place
    unfold keep
    by_cases same : place = source
    · subst same
      rw [Function.update_self]
      exact (List.nodup_cons.mp (some.nodup_iff.mp (exclusive.nodup place))).2
    · rw [Function.update_of_ne same]
      exact exclusive.nodup place
  only := by
    have earlier : ∀ {another place}, another ∈ before.keep source rest place →
        another ∈ before place := by
      intro another place member
      unfold keep at member
      by_cases same : place = source
      · subst same
        rw [Function.update_self] at member
        exact some.symm.subset (List.mem_cons_of_mem _ member)
      · rwa [Function.update_of_ne same] at member
    intro another first second inFirst inSecond
    exact exclusive.only (earlier inFirst) (earlier inSecond)

/-- What a place has given away is held nowhere. -/
theorem Exclusive.not_held (exclusive : Exclusive before)
    (some : (before source).Perm (token :: rest)) : ¬(before.keep source rest).Held token := by
  rintro ⟨place, member⟩
  unfold keep at member
  have own : token ∈ before source := some.symm.subset List.mem_cons_self
  by_cases same : place = source
  · subst same
    rw [Function.update_self] at member
    exact (List.nodup_cons.mp (some.nodup_iff.mp (exclusive.nodup place))).1 member
  · rw [Function.update_of_ne same] at member
    exact same (exclusive.only member own)

/-- A token may be handed over. -/
theorem Exclusive.hands (exclusive : Exclusive before)
    (some : (before source).Perm (token :: rest)) (target : Place) :
    Exclusive ((before.keep source rest).receive target token) :=
  (exclusive.keeps some).receives (exclusive.not_held some) target

/-- What may become of the tokens: some are lost, or a place receives one that no place holds,
or hands one over. -/
inductive Steps (before after : Custody Place Token) : Prop
  | loses (kept : ∀ place, (after place).Sublist (before place))
  | receives (token : Token) (place : Place) (fresh : ¬before.Held token)
      (same : after = before.receive place token)
  | hands (token : Token) (source : Place) (rest : List Token)
      (some : (before source).Perm (token :: rest)) (target : Place)
      (same : after = (before.keep source rest).receive target token)

theorem Steps.refl (custody : Custody Place Token) : Steps custody custody :=
  .loses fun _ => List.Sublist.refl _

/-- A place may lose tokens. -/
theorem Steps.keep {kept : List Token} (sublist : kept.Sublist (before source)) :
    Steps before (before.keep source kept) := by
  refine .loses fun place => ?_
  unfold Custody.keep
  by_cases same : place = source
  · subst same
    rwa [Function.update_self]
  · rw [Function.update_of_ne same]

theorem Exclusive.step (exclusive : Exclusive before) (steps : Steps before after) :
    Exclusive after := by
  cases steps with
  | loses kept => exact exclusive.loses kept
  | receives token place fresh same =>
      rw [same]
      exact exclusive.receives fresh place
  | hands token source rest some target same =>
      rw [same]
      exact exclusive.hands some target

end Places

end Custody

end Library
