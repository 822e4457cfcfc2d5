import Mathlib.Data.List.TakeDrop
import Mathlib.Logic.Function.Basic

/-!
# Files that are written once

Writers that each create a file under an unused name and write a content to it, a part at a
time and all of them at once.  A writer may give up halfway, which leaves a file that is not
complete.

A file that a writer has closed holds what it was to hold, and keeps it whatever the other
writers do.
-/

namespace Library

/-- A file that is being written: what it is to hold, and how much of it is written. -/
structure OpenFile (Name Byte : Type) where
  name : Name
  content : List Byte
  written : ℕ

/-- What is in the files, and what is being written to them. -/
structure Files (Name Byte Writer : Type) where
  contents : Name → Option (List Byte)
  writers : Writer → Option (OpenFile Name Byte)

/-- The steps of writers: a new file, some more bytes, the end, or no more of it. -/
inductive FileStep (Name Byte Writer : Type) where
  | create (writer : Writer) (name : Name) (content : List Byte)
  | write (writer : Writer) (count : ℕ)
  | close (writer : Writer)
  | abandon (gone : Writer → Bool)

/-- The step is one of this writer. -/
def FileStep.Concerns {Name Byte Writer : Type} (writer : Writer) :
    FileStep Name Byte Writer → Prop
  | .create other _ _ | .write other _ | .close other => writer = other
  | .abandon gone => gone writer = true

namespace Files

variable {Name Byte Writer : Type} [DecidableEq Name] [DecidableEq Writer]

/-- A writer has written a part of its file. -/
def write (files : Files Name Byte Writer) (writer : Writer) (opened : OpenFile Name Byte) :
    Files Name Byte Writer where
  contents := Function.update files.contents opened.name
    (some (opened.content.take opened.written))
  writers := Function.update files.writers writer (some opened)

/-- Some writers no longer have a file open. -/
def closeAll (files : Files Name Byte Writer) (gone : Writer → Bool) :
    Files Name Byte Writer where
  contents := files.contents
  writers := fun writer => if gone writer then none else files.writers writer

/-- One step.  A file is created under a name that is free, and written from its beginning. -/
def step (files : Files Name Byte Writer) :
    FileStep Name Byte Writer → Option (Files Name Byte Writer)
  | .create writer name content =>
      if (files.writers writer).isNone ∧ (files.contents name).isNone then
        some (files.write writer ⟨name, content, 0⟩)
      else none
  | .write writer count =>
      match files.writers writer with
      | none => none
      | some opened =>
          some (files.write writer { opened with written := opened.written + count })
  | .close writer =>
      match files.writers writer with
      | none => none
      | some opened =>
          if opened.content.length ≤ opened.written then
            some (files.closeAll (· = writer))
          else none
  | .abandon gone =>
      some (files.closeAll gone)

/-- Every open file holds what has been written to it, and has one writer. -/
structure Tidy (files : Files Name Byte Writer) : Prop where
  holds : ∀ {writer opened}, files.writers writer = some opened →
    files.contents opened.name = some (opened.content.take opened.written)
  apart : ∀ {first second left right}, files.writers first = some left →
    files.writers second = some right → left.name = right.name → first = second

/-- The file holds this content, and nobody is writing to it. -/
structure Complete (files : Files Name Byte Writer) (name : Name) (content : List Byte) :
    Prop where
  holds : files.contents name = some content
  closed : ∀ {writer opened}, files.writers writer = some opened → opened.name ≠ name

variable {before after : Files Name Byte Writer} {label : FileStep Name Byte Writer}
  {name : Name} {content : List Byte}

omit [DecidableEq Name] [DecidableEq Writer] in
theorem writers_of_closeAll {gone : Writer → Bool} {writer : Writer}
    {opened : OpenFile Name Byte}
    (found : (before.closeAll gone).writers writer = some opened) :
    before.writers writer = some opened ∧ gone writer = false := by
  simp only [closeAll] at found
  split at found
  · cases found
  · next remains => exact ⟨found, by simpa using remains⟩

omit [DecidableEq Name] [DecidableEq Writer] in
theorem Tidy.closeAll (tidy : Tidy before) (gone : Writer → Bool) :
    Tidy (before.closeAll gone) where
  holds := fun found => tidy.holds (writers_of_closeAll found).1
  apart := fun first second =>
    tidy.apart (writers_of_closeAll first).1 (writers_of_closeAll second).1

omit [DecidableEq Name] [DecidableEq Writer] in
theorem Complete.closeAll (complete : Complete before name content) (gone : Writer → Bool) :
    Complete (before.closeAll gone) name content where
  holds := complete.holds
  closed := fun found => complete.closed (writers_of_closeAll found).1

theorem writers_of_write {writer other : Writer} {opened found : OpenFile Name Byte}
    (entry : (before.write writer opened).writers other = some found) :
    (other = writer ∧ found = opened) ∨ (other ≠ writer ∧ before.writers other = some found) := by
  simp only [write] at entry
  by_cases same : other = writer
  · subst same
    rw [Function.update_self] at entry
    exact .inl ⟨rfl, (Option.some.inj entry).symm⟩
  · rw [Function.update_of_ne same] at entry
    exact .inr ⟨same, entry⟩

/-- One writer goes on with a file that no other has open. -/
theorem Tidy.write (tidy : Tidy before) {writer : Writer} {opened : OpenFile Name Byte}
    (own : ∀ {other found}, before.writers other = some found → found.name = opened.name →
      other = writer) : Tidy (before.write writer opened) where
  holds := by
    intro other found entry
    simp only [Files.write]
    rcases writers_of_write entry with ⟨_, rfl⟩ | ⟨differ, earlier⟩
    · exact Function.update_self ..
    · have elsewhere : found.name ≠ opened.name := fun shared => differ (own earlier shared)
      rw [Function.update_of_ne elsewhere]
      exact tidy.holds earlier
  apart := by
    intro first second left right inFirst inSecond shared
    rcases writers_of_write inFirst with ⟨rfl, rfl⟩ | ⟨_, earlier⟩
    · rcases writers_of_write inSecond with ⟨rfl, _⟩ | ⟨_, earlier⟩
      · rfl
      · exact (own earlier shared.symm).symm
    · rcases writers_of_write inSecond with ⟨rfl, rfl⟩ | ⟨_, earlier'⟩
      · exact own earlier shared
      · exact tidy.apart earlier earlier' shared

theorem Complete.write (complete : Complete before name content) (writer : Writer)
    {opened : OpenFile Name Byte} (other : opened.name ≠ name) :
    Complete (before.write writer opened) name content where
  holds := (Function.update_of_ne other.symm ..).trans complete.holds
  closed := by
    intro someone found entry
    rcases writers_of_write entry with ⟨_, rfl⟩ | ⟨_, earlier⟩
    · exact other
    · exact complete.closed earlier

theorem writers_of_create {writer : Writer}
    (taken : before.step (.create writer name content) = some after) :
    after.writers writer = some ⟨name, content, 0⟩ := by
  rw [step] at taken
  split at taken
  · cases taken
    exact Function.update_self ..
  · cases taken

/-- A writer that goes on has the same file open. -/
theorem exists_written {writer : Writer} {count : ℕ} {opened : OpenFile Name Byte}
    (entry : before.writers writer = some opened)
    (taken : before.step (.write writer count) = some after) :
    ∃ written, after.writers writer = some ⟨opened.name, opened.content, written⟩ := by
  rw [step, entry] at taken
  cases taken
  exact ⟨_, Function.update_self ..⟩

/-- The other writers go on as before. -/
theorem writers_of_step {writer : Writer} (taken : before.step label = some after)
    (other : ¬label.Concerns writer) : after.writers writer = before.writers writer := by
  cases label with
  | create own name content =>
      rw [step] at taken
      split at taken
      · cases taken
        exact Function.update_of_ne other ..
      · cases taken
  | write own count =>
      rw [step] at taken
      split at taken
      · cases taken
      · cases taken
        exact Function.update_of_ne other ..
  | close own =>
      rw [step] at taken
      split at taken
      · cases taken
      · split at taken
        · cases taken
          exact if_neg (by simpa [FileStep.Concerns] using other)
        · cases taken
  | abandon gone =>
      cases taken
      exact if_neg other

theorem Tidy.step (tidy : Tidy before) (taken : before.step label = some after) : Tidy after := by
  cases label with
  | create writer name content =>
      rw [Files.step] at taken
      split at taken
      · next fresh =>
          cases taken
          apply tidy.write
          intro other found entry shared
          have absent := fresh.2
          rw [show name = found.name from shared.symm, tidy.holds entry] at absent
          cases absent
      · cases taken
  | write writer count =>
      rw [Files.step] at taken
      split at taken
      · cases taken
      · next opened entry =>
          cases taken
          apply tidy.write
          exact fun found shared => tidy.apart found entry shared
  | close writer =>
      rw [Files.step] at taken
      split at taken
      · cases taken
      · split at taken
        · cases taken
          exact tidy.closeAll _
        · cases taken
  | abandon gone =>
      cases taken
      exact tidy.closeAll gone

/-- What is complete stays as it is. -/
theorem Complete.step (complete : Complete before name content)
    (taken : before.step label = some after) : Complete after name content := by
  cases label with
  | create writer fresh whole =>
      rw [Files.step] at taken
      split at taken
      · next absent =>
          cases taken
          apply complete.write
          rintro rfl
          rw [complete.holds] at absent
          cases absent.2
      · cases taken
  | write writer count =>
      rw [Files.step] at taken
      split at taken
      · cases taken
      · next opened entry =>
          cases taken
          have other : opened.name ≠ name := complete.closed entry
          exact complete.write writer other
  | close writer =>
      rw [Files.step] at taken
      split at taken
      · cases taken
      · split at taken
        · cases taken
          exact complete.closeAll _
        · cases taken
  | abandon gone =>
      cases taken
      exact complete.closeAll gone

/-- A file that its writer closes is complete. -/
theorem Tidy.complete_of_close (tidy : Tidy before) {writer : Writer}
    {opened : OpenFile Name Byte} (entry : before.writers writer = some opened)
    (taken : before.step (.close writer) = some after) :
    Complete after opened.name opened.content := by
  rw [Files.step, entry] at taken
  simp only at taken
  split at taken
  · next whole =>
      cases taken
      refine ⟨?_, ?_⟩
      · rw [← List.take_of_length_le whole]
        exact tidy.holds entry
      · intro other found inOther shared
        rcases writers_of_closeAll inOther with ⟨earlier, remains⟩
        obtain rfl := tidy.apart earlier entry shared
        simp at remains
  · cases taken

end Files

end Library
