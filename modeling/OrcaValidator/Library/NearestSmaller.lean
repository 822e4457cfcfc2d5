import Mathlib.Data.List.Basic
import Mathlib.Logic.Relation
import Mathlib.Order.Fin.Basic

/-!
# Nearest smaller keys

Positions with keys, such as the headings of a document with their levels: the parent of a
position is the nearest one before it with a smaller key.  This makes a forest, whose keys
decrease towards the roots.

The parents are found in one pass with a stack, from which each entry first pops those with
a key that is not smaller.  What is left on it are the entries that no later one has
closed, and the search for a smaller key finds the same entry among these as among all.
-/

namespace Library

universe u v

/-! ## The relation -/

section Positions

variable {Position : Type u} {Key : Type v}

/-- Every node has at most one parent, and the keys decrease from a node to its
ancestors, so that none is an ancestor of itself. -/
structure DecreasingForest [Preorder Key] (parent : Position → Position → Prop)
    (key : Position → Key) : Prop where
  unique : ∀ {first second child}, parent first child → parent second child → first = second
  decreasing : ∀ {ancestor node}, Relation.TransGen parent ancestor node → key ancestor < key node
  acyclic : ∀ node, ¬Relation.TransGen parent node node

variable [LinearOrder Position] [LinearOrder Key] {key : Position → Key}

/-- The nearest position before another one with a smaller key. -/
structure NearestSmaller (key : Position → Key) (nearest position : Position) : Prop where
  earlier : nearest < position
  smaller : key nearest < key position
  between : ∀ {middle}, nearest < middle → middle < position → key position ≤ key middle

theorem NearestSmaller.not_lt {first second position : Position}
    (one : NearestSmaller key first position) (other : NearestSmaller key second position) :
    ¬first < second := by
  intro less
  exact absurd other.smaller (one.between less other.earlier).not_gt

theorem nearestSmaller_forest (key : Position → Key) :
    DecreasingForest (NearestSmaller key) key := by
  have decreasing : ∀ {ancestor node}, Relation.TransGen (NearestSmaller key) ancestor node →
      key ancestor < key node := by
    intro ancestor node chain
    induction chain with
    | single last => exact last.smaller
    | tail _ last ih => exact ih.trans last.smaller
  refine ⟨fun one other => ?_, decreasing, fun node cycle => (decreasing cycle).false⟩
  exact le_antisymm (not_lt.mp (other.not_lt one)) (not_lt.mp (one.not_lt other))

end Positions

/-! ## The stack -/

section Stack

variable {Key : Type u} {Value : Type v} [LinearOrder Key]

/-- The entries that no later one has closed, the latest first, as they are given. -/
def unclosed : List (Key × Value) → List (Key × Value)
  | [] => []
  | entry :: past => entry :: (unclosed past).filter fun other => other.1 < entry.1

/-- The values of the parents, for entries from the first to the last. -/
def nest (stack : List (Key × Value)) : List (Key × Value) → List (Option Value)
  | [] => []
  | (key, value) :: rest =>
      let stack := stack.dropWhile fun open' => key ≤ open'.1
      stack.head?.map Prod.snd :: nest ((key, value) :: stack) rest

theorem pairwise_unclosed (past : List (Key × Value)) :
    (unclosed past).Pairwise fun later earlier => earlier.1 < later.1 := by
  induction past with
  | nil => exact List.Pairwise.nil
  | cons entry past ih =>
      rw [unclosed, List.pairwise_cons]
      refine ⟨fun other member => ?_, ih.filter _⟩
      simpa using (List.mem_filter.mp member).2

/-- Popping leaves the entries with smaller keys. -/
theorem dropWhile_eq_filter {stack : List (Key × Value)} (key : Key)
    (sorted : stack.Pairwise fun later earlier => earlier.1 < later.1) :
    stack.dropWhile (fun open' => key ≤ open'.1) = stack.filter fun other => other.1 < key := by
  induction stack with
  | nil => rfl
  | cons entry stack ih =>
      rcases List.pairwise_cons.mp sorted with ⟨first, rest⟩
      by_cases closes : key ≤ entry.1
      · rw [List.dropWhile_cons_of_pos (by simpa using closes),
          List.filter_cons_of_neg (by simpa using closes), ih rest]
      · rw [List.dropWhile_cons_of_neg (by simpa using closes)]
        symm
        apply List.filter_eq_self.mpr
        intro other member
        rw [decide_eq_true_eq]
        rcases List.mem_cons.mp member with rfl | later
        · exact not_le.mp closes
        · exact (first other later).trans (not_le.mp closes)

theorem push_unclosed (key : Key) (value : Value) (past : List (Key × Value)) :
    (key, value) :: (unclosed past).dropWhile (fun open' => key ≤ open'.1) =
      unclosed ((key, value) :: past) := by
  rw [dropWhile_eq_filter key (pairwise_unclosed past), unclosed]

/-- What is closed hides no smaller key. -/
theorem find?_unclosed (key : Key) (past : List (Key × Value)) :
    (unclosed past).find? (fun other => other.1 < key) =
      past.find? fun other => other.1 < key := by
  induction past with
  | nil => rfl
  | cons entry past ih =>
      rw [unclosed, List.find?_cons, List.find?_cons]
      by_cases here : entry.1 < key
      · simp [here]
      · have within : ∀ other : Key × Value,
            (other.1 < entry.1 ∧ other.1 < key) ↔ other.1 < key := by
          intro other
          exact and_iff_right_of_imp fun below => below.trans_le (not_lt.mp here)
        simp only [here, decide_false, List.find?_filter, decide_eq_true_eq, within, ih]

/-- Each entry gets the value of the nearest smaller one before it. -/
theorem getElem?_nest (past entries : List (Key × Value)) (position : ℕ) :
    (nest (unclosed past) entries)[position]? = entries[position]?.map fun entry =>
      (((entries.take position).reverse ++ past).find? fun other =>
        other.1 < entry.1).map Prod.snd := by
  induction entries generalizing past position with
  | nil => rfl
  | cons entry entries ih =>
      rcases entry with ⟨key, value⟩
      cases position with
      | zero =>
          have top : ((unclosed past).dropWhile fun open' => key ≤ open'.1).head? =
              past.find? fun other => other.1 < key := by
            rw [dropWhile_eq_filter key (pairwise_unclosed past), List.head?_filter,
              find?_unclosed]
          simp [nest, top]
      | succ position =>
          simp only [nest, push_unclosed, List.getElem?_cons_succ, ih, List.take_succ_cons,
            List.reverse_cons, List.append_assoc, List.singleton_append]

variable (entries : List (Key × Value))

/-- The key at a position. -/
def keyAt (position : Fin entries.length) : Key := (entries.get position).1

variable {entries}

/-- The search backwards from a position ends at the nearest smaller key. -/
theorem find?_of_nearestSmaller {nearest position : Fin entries.length}
    (smaller : NearestSmaller (keyAt entries) nearest position) :
    (entries.take position).reverse.find? (fun other => other.1 < keyAt entries position) =
      some (entries.get nearest) := by
  have less : nearest.val < position.val := smaller.earlier
  have long := position.isLt
  have split : entries.take position = entries.take nearest ++
      entries.get nearest :: (entries.take position).drop (nearest + 1) := by
    have inside : nearest.val < (entries.take position).length := by
      rw [List.length_take]
      omega
    have cut := List.take_append_drop nearest.val (entries.take position)
    rw [List.drop_eq_getElem_cons inside, List.take_take, Nat.min_eq_left less.le,
      List.getElem_take] at cut
    exact cut.symm
  rw [List.find?_eq_some_iff_append]
  refine ⟨decide_eq_true smaller.smaller, ((entries.take position).drop (nearest + 1)).reverse,
    (entries.take nearest).reverse, (congrArg List.reverse split).trans (by simp), ?_⟩
  intro entry member
  rw [List.mem_reverse] at member
  rcases List.mem_iff_getElem.mp member with ⟨place, bound, rfl⟩
  rw [List.getElem_drop, List.getElem_take]
  rw [List.length_drop, List.length_take] at bound
  have after : nearest < (⟨nearest.val + 1 + place, by omega⟩ : Fin entries.length) :=
    Fin.lt_def.mpr (by dsimp only; omega)
  have least := smaller.between after (Fin.lt_def.mpr (by dsimp only; omega))
  rw [Bool.not_eq_true', decide_eq_false_iff_not, not_lt]
  exact least

theorem find?_eq_none_of_le {position : Fin entries.length}
    (least : ∀ earlier < position, keyAt entries position ≤ keyAt entries earlier) :
    (entries.take position).reverse.find? (fun other => other.1 < keyAt entries position) =
      none := by
  rw [List.find?_eq_none]
  intro entry member
  rw [List.mem_reverse, List.mem_take_iff_getElem] at member
  rcases member with ⟨place, bound, rfl⟩
  have inside := least ⟨place, by omega⟩ (Fin.lt_def.mpr (by dsimp only; omega))
  rw [decide_eq_true_eq, not_lt]
  exact inside

end Stack

end Library
