import OrcaValidator.Library.Json

/-!
# What PostgreSQL stores

A `TEXT` value holds no U+0000, and a `JSONB` value neither that character, in a string or a
key, nor a number that is not finite.
-/

namespace Library

namespace Text

/-- A text that PostgreSQL takes: one without the zero character. -/
def Storable (text : Text) : Prop := '\x00' ∉ text

instance (text : Text) : Decidable text.Storable := inferInstanceAs (Decidable (_ ∉ _))

theorem Storable.append {left right : Text} (leftStorable : left.Storable)
    (rightStorable : right.Storable) : Storable (left ++ right) := by
  intro present
  rcases List.mem_append.mp present with here | here
  · exact leftStorable here
  · exact rightStorable here

theorem Storable.take {text : Text} (storable : text.Storable) (count : ℕ) :
    Storable (text.take count) :=
  fun present => storable (List.mem_of_mem_take present)

end Text

/-- `math.isfinite`. -/
def Binary64.Finite : Binary64 → Prop
  | .finite _ _ _ => True
  | _ => False

namespace Json

mutual

/-- A value that JSONB takes: its numbers are finite and its texts have no zero character. -/
def Storable : Json → Prop
  | .null | .bool _ | .int _ => True
  | .float value => value.Finite
  | .str value => Text.Storable value
  | .arr items => StorableItems items
  | .obj members => StorableMembers members

/-- All items can be stored. -/
def StorableItems : List Json → Prop
  | [] => True
  | item :: items => item.Storable ∧ StorableItems items

/-- All members can be stored, with their keys. -/
def StorableMembers : List (Text × Json) → Prop
  | [] => True
  | (key, value) :: members =>
      (Text.Storable key ∧ value.Storable) ∧ StorableMembers members

end

theorem storable_arr_iff {items : List Json} :
    (Json.arr items).Storable ↔ ∀ item ∈ items, item.Storable := by
  rw [Storable]
  induction items with
  | nil => simp [StorableItems]
  | cons item items ih => rw [StorableItems, ih, List.forall_mem_cons]

theorem storable_obj_iff {members : List (Text × Json)} :
    (Json.obj members).Storable ↔
      ∀ member ∈ members, Text.Storable member.1 ∧ member.2.Storable := by
  rw [Storable]
  induction members with
  | nil => simp [StorableMembers]
  | cons member members ih => rw [StorableMembers, ih, List.forall_mem_cons]

@[simp]
theorem storable_str_iff {value : Text} : (Json.str value).Storable ↔ value.Storable := by
  rw [Storable]

@[simp]
theorem storable_null : Json.null.Storable := trivial

end Json

namespace Dict

/-- The dictionary as a `JSONB` object. -/
def Storable (dict : Dict Text Json) : Prop := (Json.obj dict.entries).Storable

namespace Storable

variable {dict : Dict Text Json}

theorem empty : Storable ∅ := trivial

theorem set (storable : dict.Storable) {key : Text} {value : Json} (keyStorable : key.Storable)
    (valueStorable : value.Storable) : (dict.set key value).Storable := by
  rw [Dict.Storable, Json.storable_obj_iff] at storable ⊢
  intro item member
  rcases mem_assign member with rfl | old
  · exact ⟨keyStorable, valueStorable⟩
  · exact storable item old

theorem get? (storable : dict.Storable) {key : Text} {value : Json}
    (found : dict.get? key = some value) : value.Storable :=
  (Json.storable_obj_iff.mp storable _ (get?_eq_some_iff.mp found)).2

theorem update (storable : dict.Storable) {items : List (Text × Json)}
    (items_storable : (Json.obj items).Storable) : (dict.update items).Storable := by
  rw [Json.storable_obj_iff] at items_storable
  induction items generalizing dict with
  | nil => exact storable
  | cons item items ih =>
      rw [List.forall_mem_cons] at items_storable
      exact ih (storable.set items_storable.1.1 items_storable.1.2) items_storable.2

end Storable

end Dict

end Library
