import Mathlib.Data.List.Induction
import Mathlib.Data.List.Nodup

/-!
# Insertion-ordered dictionaries

A finite map that remembers the order in which its keys were first inserted, as
Python's `dict` does: assigning to a present key keeps its position, assigning to
a new key appends it.  A dictionary carries the proof that its keys are distinct,
so that its list of entries and its lookup function determine one another.
-/

namespace Library

universe u v

/-- A dictionary from `Key` to `Value`, in insertion order. -/
structure Dict (Key : Type u) (Value : Type v) where
  /-- The items, oldest key first. -/
  entries : List (Key × Value)
  /-- No key occurs twice. -/
  nodup : (entries.map Prod.fst).Nodup

namespace Dict

variable {Key : Type u} {Value : Type v}

@[ext]
theorem ext {left right : Dict Key Value} (same : left.entries = right.entries) :
    left = right := by
  cases left
  cases right
  simpa using same

instance [DecidableEq Key] [DecidableEq Value] : DecidableEq (Dict Key Value) :=
  fun left right => decidable_of_iff (left.entries = right.entries)
    ⟨Dict.ext, fun equal => congrArg _ equal⟩

/-- The dictionary without keys. -/
def empty : Dict Key Value := ⟨[], by simp⟩

instance : EmptyCollection (Dict Key Value) := ⟨empty⟩

@[simp]
theorem entries_empty : (∅ : Dict Key Value).entries = [] := rfl

section Lookup

variable [DecidableEq Key]

/-- The value of a key. -/
def find (key : Key) : List (Key × Value) → Option Value
  | [] => none
  | (present, value) :: rest => if present = key then some value else find key rest

/-- `dict.get`. -/
def get? (dict : Dict Key Value) (key : Key) : Option Value := find key dict.entries

/-- The entries with a new value for a key, in its place or at the end. -/
def assign (key : Key) (value : Value) : List (Key × Value) → List (Key × Value)
  | [] => [(key, value)]
  | (present, old) :: rest =>
      if present = key then (present, value) :: rest
      else (present, old) :: assign key value rest

theorem find_eq_none_iff {key : Key} {items : List (Key × Value)} :
    find key items = none ↔ key ∉ items.map Prod.fst := by
  induction items with
  | nil => simp [find]
  | cons item rest ih =>
      by_cases same : item.1 = key
      · simp [find, same]
      · simp [find, same, ih, Ne.symm same]

theorem find_eq_some_iff {key : Key} {value : Value} {items : List (Key × Value)}
    (nodup : (items.map Prod.fst).Nodup) :
    find key items = some value ↔ (key, value) ∈ items := by
  induction items with
  | nil => simp [find]
  | cons item rest ih =>
      rcases item with ⟨present, old⟩
      simp only [List.map_cons, List.nodup_cons] at nodup
      by_cases same : present = key
      · subst present
        have absent : (key, value) ∉ rest := fun mem =>
          nodup.1 (List.mem_map_of_mem (f := Prod.fst) mem)
        simp [find, absent, eq_comm]
      · simp [find, same, ih nodup.2, Ne.symm same]

theorem find_append (key : Key) (left right : List (Key × Value)) :
    find key (left ++ right) = (find key left).or (find key right) := by
  induction left with
  | nil => rfl
  | cons item rest ih =>
      by_cases same : item.1 = key
      · simp [find, same]
      · simp [find, same, ih]

theorem find_eq_some_iff_append {key : Key} {value : Value} {items : List (Key × Value)} :
    find key items = some value ↔ ∃ before after,
      items = before ++ (key, value) :: after ∧ key ∉ before.map Prod.fst := by
  constructor
  · intro found
    induction items with
    | nil => simp [find] at found
    | cons item rest ih =>
        rcases item with ⟨present, old⟩
        by_cases same : present = key
        · subst present
          obtain rfl : old = value := by simpa [find] using found
          exact ⟨[], rest, rfl, by simp⟩
        · rcases ih (by simpa [find, same] using found) with ⟨before, after, rfl, absent⟩
          exact ⟨(present, old) :: before, after, rfl, by simp [absent, Ne.symm same]⟩
  · rintro ⟨before, after, rfl, absent⟩
    rw [find_append, find_eq_none_iff.mpr absent]
    simp [find]

theorem find_filter {key : Key} {kept : Key × Value → Bool} {items : List (Key × Value)}
    (keeps : ∀ value, kept (key, value) = true) :
    find key (items.filter kept) = find key items := by
  induction items with
  | nil => rfl
  | cons item rest ih =>
      by_cases same : item.1 = key
      · subst same
        simp [find, keeps item.2]
      · by_cases keep : kept item = true <;> simp [find, same, keep, ih]

theorem assign_ne_nil (key : Key) (value : Value) (items : List (Key × Value)) :
    assign key value items ≠ [] := by
  cases items with
  | nil => simp [assign]
  | cons item rest =>
      unfold assign
      split <;> simp

theorem find_assign (key other : Key) (value : Value) (items : List (Key × Value)) :
    find other (assign key value items) =
      if other = key then some value else find other items := by
  induction items with
  | nil =>
      by_cases same : other = key
      · simp [assign, find, same]
      · simp [assign, find, same, Ne.symm same]
  | cons item rest ih =>
      rcases item with ⟨present, old⟩
      by_cases target : present = key
      · subst present
        by_cases same : other = key
        · simp [assign, find, same]
        · simp [assign, find, same, Ne.symm same]
      · by_cases here : present = other
        · subst present
          simp [assign, find, target]
        · simp [assign, find, target, here, ih]

theorem keys_assign (key : Key) (value : Value) (items : List (Key × Value)) :
    (assign key value items).map Prod.fst =
      if key ∈ items.map Prod.fst then items.map Prod.fst
      else items.map Prod.fst ++ [key] := by
  induction items with
  | nil => simp [assign]
  | cons item rest ih =>
      by_cases target : item.1 = key
      · simp [assign, target]
      · by_cases later : key ∈ rest.map Prod.fst
        · simp only [assign, target, if_false, List.map_cons, ih, later, if_true,
            List.mem_cons, or_true]
        · simp only [assign, target, if_false, List.map_cons, ih, later, List.mem_cons,
            Ne.symm target, or_false, List.cons_append]

theorem mem_assign {key : Key} {value : Value}
    {items : List (Key × Value)} {item : Key × Value}
    (member : item ∈ assign key value items) : item = (key, value) ∨ item ∈ items := by
  induction items with
  | nil => exact .inl (List.mem_singleton.mp member)
  | cons first rest ih =>
      rw [assign] at member
      split at member
      · next same =>
          rcases List.mem_cons.mp member with rfl | later
          · exact .inl (by rw [same])
          · exact .inr (List.mem_cons_of_mem _ later)
      · rcases List.mem_cons.mp member with rfl | later
        · exact .inr List.mem_cons_self
        · rcases ih later with here | there
          · exact .inl here
          · exact .inr (List.mem_cons_of_mem _ there)

/-- `dict[key] = value`. -/
def set (dict : Dict Key Value) (key : Key) (value : Value) : Dict Key Value where
  entries := assign key value dict.entries
  nodup := by
    rw [keys_assign]
    split
    · exact dict.nodup
    · next absent => exact dict.nodup.append (by simp) (by simpa using absent)

@[simp]
theorem get?_empty (key : Key) : (∅ : Dict Key Value).get? key = none := rfl

theorem get?_set (dict : Dict Key Value) (key other : Key) (value : Value) :
    (dict.set key value).get? other = if other = key then some value else dict.get? other :=
  find_assign key other value dict.entries

@[simp]
theorem get?_set_self (dict : Dict Key Value) (key : Key) (value : Value) :
    (dict.set key value).get? key = some value := by
  simp [get?_set]

theorem get?_set_of_ne (dict : Dict Key Value) {key other : Key} (differ : other ≠ key)
    (value : Value) : (dict.set key value).get? other = dict.get? other := by
  simp [get?_set, differ]

theorem get?_eq_some_iff {dict : Dict Key Value} {key : Key} {value : Value} :
    dict.get? key = some value ↔ (key, value) ∈ dict.entries :=
  find_eq_some_iff dict.nodup

/-- `dict.update(items)`: one assignment after the other. -/
def update (dict : Dict Key Value) (items : List (Key × Value)) : Dict Key Value :=
  items.foldl (fun current item => current.set item.1 item.2) dict

/-- The dictionary of a list of items; the last item of a key wins. -/
def ofList (items : List (Key × Value)) : Dict Key Value := update ∅ items

@[simp]
theorem update_nil (dict : Dict Key Value) : dict.update [] = dict := rfl

@[simp]
theorem update_cons (dict : Dict Key Value) (item : Key × Value) (items : List (Key × Value)) :
    dict.update (item :: items) = (dict.set item.1 item.2).update items := rfl

theorem get?_update (dict : Dict Key Value) (items : List (Key × Value)) (key : Key) :
    (dict.update items).get? key = (find key items.reverse).or (dict.get? key) := by
  induction items using List.reverseRecOn generalizing dict with
  | nil => simp [find]
  | append_singleton items item ih =>
      have unfolded : dict.update (items ++ [item]) = (dict.update items).set item.1 item.2 := by
        simp [update]
      rw [unfolded, get?_set, ih]
      by_cases same : key = item.1
      · simp [find, same]
      · simp [find, same, Ne.symm same]

/-- A new key is assigned at the end. -/
theorem assign_of_absent {key : Key} (value : Value) {items : List (Key × Value)}
    (absent : key ∉ items.map Prod.fst) : assign key value items = items ++ [(key, value)] := by
  induction items with
  | nil => rfl
  | cons item rest ih =>
      rw [List.map_cons, List.mem_cons, not_or] at absent
      rw [assign, if_neg (Ne.symm absent.1), ih absent.2]
      rfl

/-- An update with new keys appends its items. -/
theorem entries_update {dict : Dict Key Value} {items : List (Key × Value)}
    (nodup : ((dict.entries ++ items).map Prod.fst).Nodup) :
    (dict.update items).entries = dict.entries ++ items := by
  induction items generalizing dict with
  | nil => exact (List.append_nil _).symm
  | cons item rest ih =>
      have absent : item.1 ∉ dict.entries.map Prod.fst := by
        intro present
        rw [List.map_append, List.map_cons] at nodup
        exact (List.nodup_append.mp nodup).2.2 _ present _ List.mem_cons_self rfl
      have entries : (dict.set item.1 item.2).entries = dict.entries ++ [item] :=
        assign_of_absent item.2 absent
      have split : dict.entries ++ item :: rest = dict.entries ++ [item] ++ rest := by simp
      rw [update_cons, ih, entries, ← split]
      rw [entries, ← split]
      exact nodup

theorem entries_ofList {items : List (Key × Value)} (nodup : (items.map Prod.fst).Nodup) :
    (ofList items).entries = items := entries_update nodup

theorem update_append (dict : Dict Key Value) (items later : List (Key × Value)) :
    dict.update (items ++ later) = (dict.update items).update later := by
  simp [update, List.foldl_append]

/-- Two dictionaries with the same keys in the same order and the same values are equal. -/
theorem ext_get? {left right : Dict Key Value}
    (keys : left.entries.map Prod.fst = right.entries.map Prod.fst)
    (values : ∀ key, left.get? key = right.get? key) : left = right := by
  have listed : ∀ dict : Dict Key Value, dict.entries =
      (dict.entries.map Prod.fst).filterMap fun key => (dict.get? key).map (key, ·) := by
    intro dict
    have each : ∀ item ∈ dict.entries,
        (dict.get? item.1).map (item.1, ·) = some item := by
      intro item member
      rw [get?_eq_some_iff.mpr member]
      rfl
    rw [List.filterMap_map]
    exact (List.filterMap_congr each).trans List.filterMap_some |>.symm
  apply Dict.ext
  rw [listed left, listed right, keys]
  apply List.filterMap_congr
  intro key _
  rw [values]

/-- An update changes nothing if the last value of each key in it is there already. -/
theorem update_eq_self_iff {dict : Dict Key Value} {items : List (Key × Value)} :
    dict.update items = dict ↔
      ∀ key value, find key items.reverse = some value → dict.get? key = some value := by
  constructor
  · intro same key value last
    rw [← same, get?_update, last]
    rfl
  · intro present
    have known : ∀ item ∈ items, item.1 ∈ dict.entries.map Prod.fst := by
      intro item member
      by_contra absent
      have missing : dict.get? item.1 = none := find_eq_none_iff.mpr absent
      cases last : find item.1 items.reverse with
      | none =>
          rw [find_eq_none_iff, List.map_reverse, List.mem_reverse] at last
          exact last (List.mem_map_of_mem member)
      | some value => simp [present item.1 value last] at missing
    have keys : (dict.update items).entries.map Prod.fst = dict.entries.map Prod.fst := by
      clear present
      induction items using List.reverseRecOn with
      | nil => rfl
      | append_singleton items item ih =>
          have earlier := ih fun item member => known item (List.mem_append_left _ member)
          rw [update_append, update_cons, update_nil]
          refine (keys_assign _ _ _).trans ?_
          rw [earlier, if_pos (known item (by simp))]
    apply ext_get? keys
    intro key
    rw [get?_update]
    cases last : find key items.reverse with
    | none => rfl
    | some value => exact (present key value last).symm

theorem update_self (dict : Dict Key Value) : dict.update dict.entries = dict := by
  apply update_eq_self_iff.mpr
  intro key value last
  have reversed : ((dict.entries.reverse).map Prod.fst).Nodup := by
    rw [List.map_reverse]
    exact List.nodup_reverse.mpr dict.nodup
  have member := (find_eq_some_iff reversed).mp last
  exact get?_eq_some_iff.mpr (List.mem_reverse.mp member)

end Lookup

/-- The keys whose value is `false`, in order. -/
def falseKeys (dict : Dict Key Bool) : List Key :=
  dict.entries.filterMap fun item => if item.2 then none else some item.1

theorem mem_falseKeys [DecidableEq Key] {dict : Dict Key Bool} {key : Key} :
    key ∈ dict.falseKeys ↔ dict.get? key = some false := by
  rw [get?_eq_some_iff]
  constructor
  · intro present
    obtain ⟨⟨name, value⟩, mem, kept⟩ := List.mem_filterMap.mp present
    cases value with
    | true => simp at kept
    | false => simpa [← (by simpa using kept : name = key)] using mem
  · intro mem
    exact List.mem_filterMap.mpr ⟨(key, false), mem, rfl⟩

theorem falseKeys_eq_nil_iff {dict : Dict Key Bool} :
    dict.falseKeys = [] ↔ ∀ item ∈ dict.entries, item.2 = true := by
  simp [falseKeys, List.filterMap_eq_nil_iff]

end Dict

end Library
