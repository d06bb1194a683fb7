import Mathlib
import Selendra.Collections.Map

/-! # Hash sets, and maps of sets

`HashSet<α>` as its elements without duplicates; their order stands for the set's
unspecified iteration order. Removing an element then removes it, which a plain list with
`List.erase` does only when it holds it once.

A map whose values hold sets (`HashMap<K, HashSet<V>>`, or a record with such a field) stores
a relation: `AList.Adj f l a b` says that `b` is in the set `f` reads from the value at `a`.
Two such maps that store one relation from both ends are kept in step by code that updates
both; the lemmas below say how each map operation changes the relation, so that the code's
invariants can be stated on relations and not on the maps. -/

structure HashSet (α : Type*) where
  toList : List α
  nodup : toList.Nodup

namespace HashSet

variable {α : Type*}

instance : Membership α (HashSet α) := ⟨fun s a => a ∈ s.toList⟩

instance : EmptyCollection (HashSet α) := ⟨⟨[], List.nodup_nil⟩⟩

def isEmpty (s : HashSet α) : Bool := s.toList.isEmpty

theorem mem_def {s : HashSet α} {a : α} : a ∈ s ↔ a ∈ s.toList := Iff.rfl

@[simp] theorem notMem_empty (a : α) : a ∉ (∅ : HashSet α) := List.not_mem_nil

@[simp] theorem isEmpty_empty : (∅ : HashSet α).isEmpty = true := rfl

theorem isEmpty_iff {s : HashSet α} : s.isEmpty = true ↔ ∀ a, a ∉ s := by
  rw [isEmpty, List.isEmpty_iff, List.eq_nil_iff_forall_not_mem]
  rfl

/-- A set that is not empty has an element. -/
theorem exists_mem_of_isEmpty_eq_false {s : HashSet α} (h : s.isEmpty = false) : ∃ a, a ∈ s := by
  cases hl : s.toList with
  | nil => simp [isEmpty, hl] at h
  | cons a l => exact ⟨a, by rw [mem_def, hl]; exact List.mem_cons_self⟩

theorem isEmpty_eq_false {s : HashSet α} {a : α} (h : a ∈ s) : s.isEmpty = false := by
  cases hs : s.isEmpty
  · rfl
  · exact absurd h (isEmpty_iff.mp hs a)

def filter (p : α → Bool) (s : HashSet α) : HashSet α := ⟨s.toList.filter p, s.nodup.filter p⟩

@[simp] theorem mem_filter {p : α → Bool} {s : HashSet α} {a : α} :
    a ∈ s.filter p ↔ a ∈ s ∧ p a = true :=
  List.mem_filter

variable [DecidableEq α]

instance (a : α) (s : HashSet α) : Decidable (a ∈ s) := inferInstanceAs (Decidable (a ∈ s.toList))

def insert (s : HashSet α) (a : α) : HashSet α := ⟨s.toList.insert a, s.nodup.insert⟩

def erase (s : HashSet α) (a : α) : HashSet α := ⟨s.toList.erase a, s.nodup.erase a⟩

/-- `collect()` into a set: the elements of the list, each once. -/
def ofList (l : List α) : HashSet α := ⟨l.dedup, List.nodup_dedup l⟩

@[simp] theorem mem_ofList {l : List α} {a : α} : a ∈ ofList l ↔ a ∈ l :=
  List.mem_dedup

@[simp] theorem mem_insert {s : HashSet α} {a b : α} : b ∈ s.insert a ↔ b = a ∨ b ∈ s :=
  List.mem_insert_iff

@[simp] theorem mem_erase {s : HashSet α} {a b : α} : b ∈ s.erase a ↔ b ≠ a ∧ b ∈ s :=
  s.nodup.mem_erase_iff

theorem isEmpty_insert (s : HashSet α) (a : α) : (s.insert a).isEmpty = false :=
  isEmpty_eq_false (mem_insert.mpr (Or.inl rfl))

/-- An element is all that a set holds when removing it empties the set. -/
theorem eq_of_isEmpty_erase {s : HashSet α} {a b : α} (h : (s.erase a).isEmpty = true)
    (hb : b ∈ s) : b = a := by
  by_contra hne
  exact isEmpty_iff.mp h b (mem_erase.mpr ⟨hne, hb⟩)

end HashSet

namespace AList

variable {α β V : Type*} [DecidableEq α] (f : V → HashSet β)

/-- The relation a map of sets stores: `b` is in the set at `a`. -/
def Adj (l : AList (fun _ : α => V)) (a : α) (b : β) : Prop :=
  ∃ v, l.lookup a = some v ∧ b ∈ f v

variable {f} {l : AList (fun _ : α => V)} {a a' : α} {b : β} {v : V}

theorem adj_of_lookup (h : l.lookup a = some v) : Adj f l a b ↔ b ∈ f v := by
  simp [Adj, h]

theorem not_adj_of_lookup (h : l.lookup a = none) : ¬ Adj f l a b := by
  simp [Adj, h]

theorem adj_insert : Adj f (l.insert a v) a' b ↔ if a' = a then b ∈ f v else Adj f l a' b := by
  split
  · rename_i h
    subst h
    exact adj_of_lookup (lookup_insert l)
  · rename_i h
    simp only [Adj, lookup_insert_ne h]

theorem adj_erase : Adj f (l.erase a) a' b ↔ a' ≠ a ∧ Adj f l a' b := by
  by_cases h : a' = a
  · subst h
    simp [not_adj_of_lookup (lookup_erase a' l)]
  · simp only [Adj, lookup_erase_ne h, ne_eq, h, not_false_eq_true, true_and]

section Sets

variable [DecidableEq β] {l : AList (fun _ : α => HashSet β)} {a x : α} {b y : β} {v : HashSet β}

/-- Adding `b` to the set at `a`, creating it if missing, adds the one pair. -/
theorem adj_insert_getD :
    Adj id (l.insert a (((l.lookup a).getD ∅).insert b)) x y ↔ Adj id l x y ∨ (x = a ∧ y = b) := by
  rw [adj_insert]
  split
  · rename_i hx
    subst hx
    rw [id, HashSet.mem_insert]
    cases h : l.lookup x with
    | none => simp [not_adj_of_lookup h, or_comm]
    | some w => simp [adj_of_lookup h, or_comm]
  · rename_i hx
    simp [hx]

/-- Taking `b` out of the set at `a` and putting the rest back removes the one pair. -/
theorem adj_insert_erase (h : l.lookup a = some v) :
    Adj id ((l.erase a).insert a (v.erase b)) x y ↔ Adj id l x y ∧ ¬(x = a ∧ y = b) := by
  rw [adj_insert]
  split
  · rename_i hx
    subst hx
    rw [adj_of_lookup h, id, HashSet.mem_erase]
    simp only [true_and]
    exact and_comm
  · rename_i hx
    simp [adj_erase, hx]

/-- When taking `b` out of the set at `a` empties it, dropping the key removes the one
pair. -/
theorem adj_erase_of_erase_isEmpty (h : l.lookup a = some v) (he : (v.erase b).isEmpty = true) :
    Adj id (l.erase a) x y ↔ Adj id l x y ∧ ¬(x = a ∧ y = b) := by
  rw [adj_erase]
  constructor
  · rintro ⟨hne, hadj⟩
    exact ⟨hadj, fun hx => hne hx.1⟩
  · rintro ⟨hadj, hn⟩
    refine ⟨fun hx => hn ⟨hx, ?_⟩, hadj⟩
    subst hx
    exact HashSet.eq_of_isEmpty_erase he ((adj_of_lookup h).mp hadj)

end Sets

end AList

/-- A relation stored from both ends, `S` and the converse of `R`, while the pairs `(x, b)`
with `x` in `a :: L` are still to be removed from `S`: removing `(a, b)` leaves those with `x`
in `L`. The loops that unlink one key from every set holding it step so. -/
theorem mirror_remove {α β : Type*} {R S S' : α → β → Prop} {a : α} {b : β} {L : List α}
    (hS : ∀ x y, S x y ↔ R x y ∨ (y = b ∧ x ∈ a :: L)) (hb : ∀ x, ¬ R x b) (ha : a ∉ L)
    (hS' : ∀ x y, S' x y ↔ S x y ∧ ¬(x = a ∧ y = b)) :
    ∀ x y, S' x y ↔ R x y ∨ (y = b ∧ x ∈ L) := by
  intro x y
  rw [hS', hS]
  constructor
  · rintro ⟨hr | ⟨rfl, hx⟩, hne⟩
    · exact Or.inl hr
    · rcases List.mem_cons.mp hx with rfl | hx
      · exact absurd ⟨rfl, rfl⟩ hne
      · exact Or.inr ⟨rfl, hx⟩
  · rintro (hr | ⟨rfl, hx⟩)
    · refine ⟨Or.inl hr, ?_⟩
      rintro ⟨rfl, rfl⟩
      exact hb x hr
    · refine ⟨Or.inr ⟨rfl, List.mem_cons_of_mem a hx⟩, ?_⟩
      rintro ⟨rfl, -⟩
      exact ha hx
