import Mathlib

/-! # Hash maps and hash sets

`HashMap<K, V>` is modelled by Mathlib's `AList` and `HashSet<K>` by a `List` with
`List.insert`; the order of the entries stands for the unspecified iteration order of
the Rust collections, and no result below depends on it. This file adds the two
operations the code uses beyond Mathlib's API: `retain` (`HashMap::retain`) and
`Iterator::max_by_key`. -/

namespace AList

variable {α : Type*} {β : α → Type*} [DecidableEq α]

/-- `HashMap::retain`: keep the entries on which `p` holds, in their order. -/
def retain (p : (a : α) → β a → Bool) (s : AList β) : AList β :=
  ⟨s.entries.filter (fun e => p e.1 e.2), s.nodupKeys.sublist List.filter_sublist⟩

@[simp] theorem lookup_retain (p : (a : α) → β a → Bool) (s : AList β) (a : α) :
    (s.retain p).lookup a = (s.lookup a).filter (p a) := by
  apply Option.ext
  intro b
  rw [Option.filter_eq_some_iff, ← Option.mem_def, ← Option.mem_def, mem_lookup_iff,
    mem_lookup_iff]
  simp [retain, List.mem_filter]

theorem mem_retain {p : (a : α) → β a → Bool} {s : AList β} {a : α} :
    a ∈ s.retain p ↔ ∃ b, s.lookup a = some b ∧ p a b = true := by
  rw [← lookup_isSome, lookup_retain]
  cases s.lookup a <;> simp [Option.filter]

omit [DecidableEq α] in
theorem keys_filterMap_sublist (f : (a : α) → β a → Option (β a)) : ∀ l : List (Sigma β),
    (l.filterMap fun e => (f e.1 e.2).map (Sigma.mk e.1)).keys.Sublist l.keys
  | [] => List.Sublist.slnil
  | e :: l => by
    rw [List.filterMap_cons, List.keys_cons]
    cases f e.1 e.2 with
    | none => exact (keys_filterMap_sublist f l).cons e.1
    | some b => exact (keys_filterMap_sublist f l).cons_cons e.1

/-- `HashMap::retain` with a closure that also changes the values it keeps: `f` gives the
new value of an entry, or `none` to drop it. -/
def retainMap (f : (a : α) → β a → Option (β a)) (s : AList β) : AList β :=
  ⟨s.entries.filterMap (fun e => (f e.1 e.2).map (Sigma.mk e.1)),
    List.Nodup.sublist (keys_filterMap_sublist f s.entries) s.nodupKeys⟩

/-- The entry at a key, and the map with that key erased, are the map's entries. -/
theorem perm_erase_of_lookup {V : Type*} {l : AList (fun _ : α => V)} {a : α} {v : V}
    (h : l.lookup a = some v) : (⟨a, v⟩ :: (l.erase a).entries).Perm l.entries := by
  have hmem : a ∈ l.entries.keys := mem_keys.mp (lookup_isSome.mp (by simp [h]))
  obtain ⟨b, l₁, l₂, -, he, hk⟩ := List.exists_of_kerase hmem
  have hb : b = v := by
    have hin : (⟨a, b⟩ : Sigma fun _ : α => V) ∈ l.entries := by simp [he]
    rw [← mem_lookup_iff, h] at hin
    exact (Option.some.inj hin).symm
  subst hb
  change (⟨a, b⟩ :: l.entries.kerase a).Perm l.entries
  rw [hk, he]
  exact List.perm_middle.symm

/-- A key is in the map exactly when it has a value there. -/
theorem mem_iff_lookup {s : AList β} {a : α} : a ∈ s ↔ ∃ b, s.lookup a = some b := by
  rw [← lookup_isSome, Option.isSome_iff_exists]

/-- What a lookup finds after an insert: the inserted value at its key, the old ones
elsewhere. -/
theorem lookup_insert_eq_some {V : Type*} {s : AList (fun _ : α => V)} {a a' : α} {v v' : V} :
    (s.insert a v).lookup a' = some v' ↔ a' = a ∧ v = v' ∨ a' ≠ a ∧ s.lookup a' = some v' := by
  by_cases h : a' = a
  · subst h
    simp [lookup_insert]
  · simp [lookup_insert_ne h, h]

omit [DecidableEq α] in
/-- A map whose keys are among the keys of another, both without duplicates, is no longer. -/
theorem keys_length_le {s t : AList β} (h : ∀ a, a ∈ s → a ∈ t) :
    s.keys.length ≤ t.keys.length :=
  s.keys_nodup.length_le_of_subset fun a ha => mem_keys.mp (h a (mem_keys.mpr ha))

theorem keys_length_erase {s : AList β} {a : α} (h : a ∈ s) :
    (s.erase a).keys.length + 1 = s.keys.length := by
  rw [keys_erase, List.length_erase_of_mem (mem_keys.mp h)]
  have : 0 < s.keys.length := List.length_pos_of_mem (mem_keys.mp h)
  omega


/-- Counting the entries of a map after a key not in it was inserted. -/
theorem countP_insert_of_notMem {V : Type*} {s : AList (fun _ : α => V)} {a : α} (v : V)
    (h : a ∉ s) (p : (Σ _ : α, V) → Bool) :
    (s.insert a v).entries.countP p = s.entries.countP p + if p ⟨a, v⟩ then 1 else 0 := by
  rw [entries_insert_of_notMem h, List.countP_cons]

/-- Counting the entries of a map, the one at a key apart. -/
theorem countP_erase_of_lookup {V : Type*} {s : AList (fun _ : α => V)} {a : α} {v : V}
    (h : s.lookup a = some v) (p : (Σ _ : α, V) → Bool) :
    s.entries.countP p = (s.erase a).entries.countP p + if p ⟨a, v⟩ then 1 else 0 := by
  rw [← (perm_erase_of_lookup h).countP_eq p, List.countP_cons]

end AList

namespace List

variable {α γ : Type*} [LinearOrder γ]

/-- `Iterator::max_by_key`: the last element with the greatest key, `none` on an empty
list (`cmp::max_by` keeps the second of two equal elements). -/
def maxByKey (f : α → γ) : List α → Option α
  | [] => none
  | a :: l => some (l.foldl (fun best x => if f best ≤ f x then x else best) a)

theorem foldl_maxBy_mem (f : α → γ) :
    ∀ (l : List α) (a : α), l.foldl (fun best x => if f best ≤ f x then x else best) a ∈ a :: l
  | [], a => mem_singleton_self a
  | x :: l, a => by
    rw [foldl_cons]
    by_cases hx : f a ≤ f x
    · rw [if_pos hx]
      exact mem_cons_of_mem a (foldl_maxBy_mem f l x)
    · rw [if_neg hx]
      rcases mem_cons.mp (foldl_maxBy_mem f l a) with h | h
      · rw [h]
        exact mem_cons_self
      · exact mem_cons_of_mem a (mem_cons_of_mem x h)

theorem maxByKey_mem {f : α → γ} {l : List α} {a : α} (h : l.maxByKey f = some a) : a ∈ l := by
  cases l with
  | nil => cases h
  | cons b l =>
    simp only [maxByKey, Option.some.injEq] at h
    exact h ▸ foldl_maxBy_mem f l b

end List
