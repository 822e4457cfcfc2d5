import Mathlib.Logic.Function.Basic

/-!
# Files of one's own

Users that each create a file under a name that is not in use, write it, read it and remove
it again.  A file stays its user's own: whatever the others do, it holds what its user has
written, and nothing but their own files changes.
-/

namespace Library

universe u v w

variable {Name : Type u} {Content : Type v} {User : Type w}

/-- Each user that holds a file finds it there, and no other user holds it. -/
structure Private (contents : Name → Option Content) (held : User → Option Name) : Prop where
  present : ∀ {user name}, held user = some name → contents name ≠ none
  own : ∀ {first second name}, held first = some name → held second = some name →
    first = second

namespace Private

variable {contents : Name → Option Content} {held held' : User → Option Name} {user other : User}
  {name : Name} {content : Content}

/-- Users may lose track of their files. -/
theorem forget (isPrivate : Private contents held)
    (fewer : ∀ {user name}, held' user = some name → held user = some name) :
    Private contents held' where
  present := fun holds => isPrivate.present (fewer holds)
  own := fun first second => isPrivate.own (fewer first) (fewer second)

variable [DecidableEq Name]

/-- A user creates a file, or writes its own. -/
theorem write (isPrivate : Private contents held)
    (others : ∀ {user' name'}, held' user' = some name' →
      (user' = user ∧ name' = name) ∨ (user' ≠ user ∧ held user' = some name'))
    (mine : contents name = none ∨ held user = some name) :
    Private (Function.update contents name (some content)) held' where
  present := by
    intro user' name' holds
    by_cases same : name' = name
    · simp [same]
    · rw [Function.update_of_ne same]
      rcases others holds with ⟨_, rfl⟩ | ⟨_, held⟩
      · exact absurd rfl same
      · exact isPrivate.present held
  own := by
    have never : ∀ {user'}, user' ≠ user → held user' = some name → False := by
      intro user' differ held
      rcases mine with unused | mine
      · exact isPrivate.present held unused
      · exact differ (isPrivate.own held mine)
    intro first second name' firstHolds secondHolds
    rcases others firstHolds with ⟨rfl, rfl⟩ | ⟨differ, firstHeld⟩
    · rcases others secondHolds with ⟨rfl, _⟩ | ⟨differ, secondHeld⟩
      · rfl
      · exact (never differ secondHeld).elim
    · rcases others secondHolds with ⟨rfl, rfl⟩ | ⟨_, secondHeld⟩
      · exact (never differ firstHeld).elim
      · exact isPrivate.own firstHeld secondHeld

/-- A user removes its file. -/
theorem remove (isPrivate : Private contents held)
    (others : ∀ {user' name'}, held' user' = some name' → user' ≠ user ∧ held user' = some name')
    (mine : held user = some name) : Private (Function.update contents name none) held' where
  present := by
    intro user' name' holds
    rcases others holds with ⟨differ, held⟩
    have apart : name' ≠ name := by
      rintro rfl
      exact differ (isPrivate.own held mine)
    rw [Function.update_of_ne apart]
    exact isPrivate.present held
  own := fun first second => isPrivate.own (others first).2 (others second).2

omit [DecidableEq Name] in
/-- The file of one user is not that of another. -/
theorem ne_of_held {name' : Name} (isPrivate : Private contents held) (differ : other ≠ user)
    (mine : held user = some name) (holds : held other = some name') : name' ≠ name := by
  rintro rfl
  exact differ (isPrivate.own holds mine)

end Private

end Library
