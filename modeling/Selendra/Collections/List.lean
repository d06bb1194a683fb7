import Mathlib

/-! # Lists

General facts about lists that the proofs of the model use and the library does not state:
how numbering the elements of a list by position goes with dropping a prefix, and the list
an ordered set of its items iterates (`sortedDedup`). -/

namespace List

variable {α β : Type*}

/-- Dropping a prefix of a list numbered by position numbers what is left from where it
starts. -/
theorem drop_mapIdx (l : List α) (f : Nat → α → β) (k : Nat) :
    (l.mapIdx f).drop k = (l.drop k).mapIdx fun i => f (i + k) := by
  apply List.ext_getElem
  · simp
  · intro i h₁ h₂
    simp only [List.getElem_drop, List.getElem_mapIdx, Nat.add_comm k i]

section SortedDedup

variable [LinearOrder α]

/-- The distinct items of a list in ascending order: what collecting it into an ordered set
(a `BTreeSet`, or the keys of a `BTreeMap`) and iterating that gives. -/
def sortedDedup (l : List α) : List α := l.dedup.insertionSort (· ≤ ·)

@[simp] theorem mem_sortedDedup {l : List α} {a : α} : a ∈ l.sortedDedup ↔ a ∈ l := by
  rw [sortedDedup, List.mem_insertionSort, List.mem_dedup]

theorem sortedDedup_perm (l : List α) : l.sortedDedup.Perm l.dedup := List.perm_insertionSort _ _

theorem nodup_sortedDedup (l : List α) : l.sortedDedup.Nodup :=
  (sortedDedup_perm l).nodup_iff.mpr (List.nodup_dedup l)

/-- Ascending, each item once. -/
theorem pairwise_lt_sortedDedup (l : List α) : l.sortedDedup.Pairwise (· < ·) :=
  ((List.pairwise_insertionSort _ _).and (nodup_sortedDedup l)).imp fun h => lt_of_le_of_ne h.1 h.2

example : [3, 1, 3, 2].sortedDedup = [1, 2, 3] := by decide

theorem length_sortedDedup_le (l : List α) : l.sortedDedup.length ≤ l.length :=
  (sortedDedup_perm l).length_eq ▸ (List.dedup_sublist l).length_le

/-- The set of a list is as large as the list exactly when it has no duplicates. -/
theorem length_sortedDedup_eq_iff {l : List α} : l.sortedDedup.length = l.length ↔ l.Nodup := by
  rw [(sortedDedup_perm l).length_eq, (List.dedup_sublist l).length_eq, List.dedup_eq_self]

end SortedDedup

end List
