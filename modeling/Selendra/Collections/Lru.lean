import Mathlib

/-! # A least-recently-used cache

The `lru` crate's `LruCache` as the code uses it. Its state is a capacity and its entries, from
the most to the least recently used: `new` and `clear` leave no entries, and the cache iterates
its keys in that order. What `put`, `get` and `contains` do to the entries is the crate's own
code, and a parameter here, `LruCache.Ops`, whose fields are the facts the proofs use: `put`
adds its entry and may drop others, `get` only reorders the entries and finds a cached value,
and `contains` finds a cached key.

The crate's documented policy, with `put` and `get` making their key the most recent one and
`put` dropping the least recent entry past the capacity, is the instance `LruCache.listOps`,
which the runs on concrete inputs use. -/

structure LruCache (K V : Type) where
  cap : Nat
  entries : List (K × V)

namespace LruCache

variable {K V : Type}

def new (cap : Nat) : LruCache K V := ⟨cap, []⟩

def clear (c : LruCache K V) : LruCache K V := { c with entries := [] }

/-- The keys, from the most recently used one (`LruCache::iter`). -/
def keys (c : LruCache K V) : List K := c.entries.map Prod.fst

/-- `LruCache::put`, `LruCache::get` (which returns the value and may reorder) and
`LruCache::contains` of the crate, with what the proofs use of them. -/
class Ops (K V : Type) where
  put : LruCache K V → K → V → LruCache K V
  get : LruCache K V → K → Option V × LruCache K V
  contains : LruCache K V → K → Bool
  entries_put {c : LruCache K V} {k : K} {v : V} {e : K × V} :
    e ∈ (put c k v).entries → e = (k, v) ∨ e ∈ c.entries
  entries_get {c : LruCache K V} {k : K} {e : K × V} : e ∈ (get c k).2.entries → e ∈ c.entries
  mem_of_get {c : LruCache K V} {k : K} {v : V} : (get c k).1 = some v → (k, v) ∈ c.entries
  exists_of_contains {c : LruCache K V} {k : K} : contains c k = true → ∃ v, (k, v) ∈ c.entries

section Ops

variable [Ops K V]

def put (c : LruCache K V) (k : K) (v : V) : LruCache K V := Ops.put c k v

def get (c : LruCache K V) (k : K) : Option V × LruCache K V := Ops.get c k

def contains (c : LruCache K V) (k : K) : Bool := Ops.contains c k

/-- `put` adds its entry and may drop others. -/
theorem entries_put {c : LruCache K V} {k : K} {v : V} {e : K × V} (h : e ∈ (c.put k v).entries) :
    e = (k, v) ∨ e ∈ c.entries :=
  Ops.entries_put h

/-- `get` only reorders the entries. -/
theorem entries_get {c : LruCache K V} {k : K} {e : K × V} (h : e ∈ (c.get k).2.entries) :
    e ∈ c.entries :=
  Ops.entries_get h

/-- A value `get` finds is cached at its key. -/
theorem mem_of_get {c : LruCache K V} {k : K} {v : V} (h : (c.get k).1 = some v) :
    (k, v) ∈ c.entries :=
  Ops.mem_of_get h

/-- A key the cache contains has an entry. -/
theorem exists_of_contains {c : LruCache K V} {k : K} (h : c.contains k = true) :
    ∃ v, (k, v) ∈ c.entries :=
  Ops.exists_of_contains h

end Ops

/-! ## The crate's policy on the list of entries -/

section List

variable [DecidableEq K]

/-- `put` makes its key the most recent one and drops the least recent entry past the
capacity. -/
def listPut (c : LruCache K V) (k : K) (v : V) : LruCache K V :=
  { c with entries := ((k, v) :: c.entries.filter (fun e => e.1 ≠ k)).take c.cap }

/-- `get` returns the value at the key, which becomes the most recently used one. -/
def listGet (c : LruCache K V) (k : K) : Option V × LruCache K V :=
  match c.entries.find? (fun e => e.1 = k) with
  | none => (none, c)
  | some e => (some e.2, { c with entries := e :: c.entries.filter (fun e => e.1 ≠ k) })

/-- `contains` leaves the order of the entries as it is. -/
def listContains (c : LruCache K V) (k : K) : Bool := (c.entries.find? (fun e => e.1 = k)).isSome

theorem entries_listPut {c : LruCache K V} {k : K} {v : V} {e : K × V}
    (h : e ∈ (c.listPut k v).entries) : e = (k, v) ∨ e ∈ c.entries := by
  simp only [listPut] at h
  rcases List.mem_cons.mp (List.mem_of_mem_take h) with rfl | h
  · exact Or.inl rfl
  · exact Or.inr (List.mem_of_mem_filter h)

theorem entries_listGet {c : LruCache K V} {k : K} {e : K × V} (h : e ∈ (c.listGet k).2.entries) :
    e ∈ c.entries := by
  simp only [listGet] at h
  split at h
  · exact h
  · rename_i e' he'
    rcases List.mem_cons.mp h with rfl | h
    · exact List.mem_of_find?_eq_some he'
    · exact List.mem_of_mem_filter h

theorem mem_of_listGet {c : LruCache K V} {k : K} {v : V} (h : (c.listGet k).1 = some v) :
    (k, v) ∈ c.entries := by
  simp only [listGet] at h
  split at h
  · cases h
  · rename_i e he
    cases h
    have hk : e.1 = k := by simpa using List.find?_some he
    rw [← hk]
    exact List.mem_of_find?_eq_some he

theorem exists_of_listContains {c : LruCache K V} {k : K} (h : c.listContains k = true) :
    ∃ v, (k, v) ∈ c.entries := by
  obtain ⟨e, he⟩ := Option.isSome_iff_exists.mp h
  have hk : e.1 = k := by simpa using List.find?_some he
  exact ⟨e.2, hk ▸ List.mem_of_find?_eq_some he⟩

end List

instance listOps [DecidableEq K] : Ops K V where
  put := listPut
  get := listGet
  contains := listContains
  entries_put := entries_listPut
  entries_get := entries_listGet
  mem_of_get := mem_of_listGet
  exists_of_contains := exists_of_listContains

end LruCache
