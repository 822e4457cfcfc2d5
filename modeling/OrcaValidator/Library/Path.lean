import OrcaValidator.Library.Text

/-!
# File names

`os.path.splitext` and `os.path.basename` on a system that separates with a slash.
-/

namespace Library

namespace Path

/-- `os.path.splitext(path)[1]`: from the last dot of the last component, unless only dots
stand before it. -/
def extension (path : Text) : Text :=
  let slash := Text.rfind ['/'] path
  let dot := Text.rfind ['.'] path
  if slash < dot ∧ ((path.take dot.toNat).drop (slash + 1).toNat).any (· != '.') then
    path.drop dot.toNat
  else []

/-- `os.path.basename(path)`. -/
def basename (path : Text) : Text := path.drop (Text.rfind ['/'] path + 1).toNat

/-- The suffix of a file name: a dot, and no other dot or slash after it. -/
def IsSuffix (suffix : Text) : Prop :=
  ∃ body, suffix = '.' :: body ∧ '.' ∉ body ∧ '/' ∉ body

/-- A file in a directory, before its suffix. -/
structure Stem where
  directory : Text
  name : Text
  nonempty : name ≠ []
  plain : name.all (fun char => char != '.' && char != '/') = true

namespace Stem

/-- The path of a stem with a suffix. -/
def path (stem : Stem) (suffix : Text) : Text := stem.directory ++ '/' :: (stem.name ++ suffix)

theorem not_mem_name (stem : Stem) : '.' ∉ stem.name ∧ '/' ∉ stem.name := by
  have plain := List.all_eq_true.mp stem.plain
  constructor
  · intro member
    exact absurd (plain '.' member) (by decide)
  · intro member
    exact absurd (plain '/' member) (by decide)

end Stem

/-! ## The last dot and the last slash -/

theorem rfind_singleton_of_not_mem {char : Char} {text : Text} (absent : char ∉ text) :
    Text.rfind [char] text = -1 := by
  apply Text.rfind_of_not_infix
  intro within
  exact absent (within.subset (List.mem_singleton_self char))

theorem rfind_singleton_append_cons {char : Char} {right : Text} (absent : char ∉ right)
    (left : Text) : Text.rfind [char] (left ++ char :: right) = left.length := by
  have first : Text.rfind [char] (char :: right) = 0 := by
    simp [Text.rfind, rfind_singleton_of_not_mem absent]
  rw [Text.rfind_append_left (by omega), first, Int.add_zero]

theorem not_mem_drop_rfind (char : Char) (text : Text) :
    char ∉ text.drop (Text.rfind [char] text + 1).toNat := by
  intro member
  rcases List.mem_iff_getElem?.mp member with ⟨place, found⟩
  rw [List.getElem?_drop] at found
  have bound := Text.le_rfind (by simp) (Text.singleton_prefix_drop_iff.mpr found)
  omega

theorem drop_rfind_singleton {char : Char} {text : Text} (found : 0 ≤ Text.rfind [char] text) :
    text.drop (Text.rfind [char] text).toNat =
      char :: text.drop (Text.rfind [char] text + 1).toNat := by
  rcases Text.prefix_drop_rfind found with ⟨rest, whole⟩
  have next : (Text.rfind [char] text + 1).toNat = 1 + (Text.rfind [char] text).toNat := by omega
  rw [next, Nat.add_comm, ← List.drop_drop, ← whole]
  rfl

/-! ## Suffixes -/

theorem isSuffix_extension {path : Text} (present : extension path ≠ []) :
    IsSuffix (extension path) := by
  simp only [extension] at present ⊢
  split_ifs at present ⊢ with place
  · have slash := Text.neg_one_le_rfind ['/'] path
    refine ⟨_, drop_rfind_singleton (by omega), not_mem_drop_rfind '.' path, ?_⟩
    intro member
    apply not_mem_drop_rfind '/' path
    have later : (Text.rfind ['/'] path + 1).toNat ≤
        (Text.rfind ['.'] path + 1).toNat := by omega
    exact (List.drop_subset_drop_left path later) member
  · exact absurd rfl present

/-- The suffix of a component that only has the dot of its suffix. -/
theorem extension_append {lead name suffix : Text} (clean : IsSuffix suffix)
    (leads : lead = [] ∨ ∃ directory, lead = directory ++ ['/'])
    (nonempty : name ≠ []) (plain : '.' ∉ name ∧ '/' ∉ name) :
    extension (lead ++ name ++ suffix) = suffix := by
  rcases clean with ⟨body, rfl, noDot, noSlash⟩
  have dot : Text.rfind ['.'] (lead ++ name ++ '.' :: body) = (lead ++ name).length :=
    rfind_singleton_append_cons noDot _
  have slash : Text.rfind ['/'] (lead ++ name ++ '.' :: body) + 1 = lead.length := by
    have clear : '/' ∉ name ++ '.' :: body := by simp [plain.2, noSlash]
    rcases leads with rfl | ⟨directory, rfl⟩
    · rw [List.append_assoc, List.nil_append, rfind_singleton_of_not_mem clear]
      rfl
    · rw [List.append_assoc, List.append_assoc, List.singleton_append,
        rfind_singleton_append_cons clear, List.length_append]
      rfl
  have between : (name.any (· != '.')) = true := by
    cases name with
    | nil => exact absurd rfl nonempty
    | cons first rest =>
        have other : first ≠ '.' := fun same => plain.1 (same ▸ List.mem_cons_self)
        simp [other]
  have before : Text.rfind ['/'] (lead ++ name ++ '.' :: body) < (lead ++ name).length := by
    rw [List.length_append]
    omega
  simp only [extension]
  rw [dot, slash, Int.toNat_natCast, Int.toNat_natCast, List.take_left, List.drop_left,
    List.drop_left, if_pos ⟨before, between⟩]

theorem Stem.extension_path (stem : Stem) {suffix : Text} (clean : IsSuffix suffix) :
    extension (stem.path suffix) = suffix := by
  have whole : stem.path suffix = stem.directory ++ ['/'] ++ stem.name ++ suffix := by
    simp [Stem.path]
  rw [whole]
  exact extension_append clean (Or.inr ⟨stem.directory, rfl⟩) stem.nonempty stem.not_mem_name

theorem Stem.basename_path (stem : Stem) {suffix : Text} (clean : IsSuffix suffix) :
    basename (stem.path suffix) = stem.name ++ suffix := by
  rcases clean with ⟨body, rfl, noDot, noSlash⟩
  have clear : '/' ∉ stem.name ++ '.' :: body := by simp [stem.not_mem_name.2, noSlash]
  have slash : Text.rfind ['/'] (stem.path ('.' :: body)) = stem.directory.length :=
    rfind_singleton_append_cons clear stem.directory
  have split : stem.path ('.' :: body) =
      (stem.directory ++ ['/']) ++ (stem.name ++ '.' :: body) := by simp [Stem.path]
  have place : ((stem.directory.length : Int) + 1).toNat = (stem.directory ++ ['/']).length := by
    simp
  rw [basename, slash, place, split, List.drop_left]

theorem Stem.extension_name (stem : Stem) {suffix : Text} (clean : IsSuffix suffix) :
    extension (stem.name ++ suffix) = suffix :=
  @extension_append [] stem.name suffix clean (Or.inl rfl) stem.nonempty stem.not_mem_name

end Path

end Library
