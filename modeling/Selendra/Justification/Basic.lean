import Mathlib

/-! # Signature sets and justifications

`SignatureSet` of `abft/mod.rs` wraps the signature set of `aleph_bft_crypto`: a node map of
a declared size holding an optional signature for each node index, so every index below the
size appears at most once. `iter` lists the signatures held, with their indices, in
increasing order of index. `AlephJustification` of `justification/mod.rs` is either such a
set from the committee or one signature of the emergency finalizer; `Signature` of
`crypto.rs` is a wrapper of an authority signature, and both are `S` here. -/

namespace Selendra

/-- A node map of optional signatures; its declared size is the length of the map. -/
structure SignatureSet (S : Type) where
  entries : List (Option S)
deriving DecidableEq, Repr

inductive AlephJustification (S : Type)
  | committeeMultisignature (multisignature : SignatureSet S)
  | emergencySignature (signature : S)
deriving DecidableEq, Repr

namespace SignatureSet

variable {S : Type}

def size (s : SignatureSet S) : Nat := s.entries.length

def withSize (len : Nat) : SignatureSet S := ⟨List.replicate len none⟩

/-- The signatures held with their node indices. -/
def iter (s : SignatureSet S) : List (Nat × S) :=
  s.entries.zipIdx.filterMap fun e => e.1.map fun sgn => (e.2, sgn)

/-- `add_signature`: the signature put at the index. The code indexes the node map there and
panics past its size; `List.set` leaves the set as it is, and the conversion below only adds
at indices below the size. -/
def addSignature (s : SignatureSet S) (signature : S) (index : Nat) : SignatureSet S :=
  ⟨s.entries.set index (some signature)⟩

/-- The node indices that hold a signature. -/
def indices (s : SignatureSet S) : Finset Nat := (s.iter.map Prod.fst).toFinset

theorem mem_iter {s : SignatureSet S} {i : Nat} {sgn : S} :
    (i, sgn) ∈ s.iter ↔ s.entries[i]? = some (some sgn) := by
  constructor
  · intro h
    obtain ⟨⟨e, j⟩, hmem, he⟩ := List.mem_filterMap.mp h
    obtain ⟨sgn', rfl, hpair⟩ := Option.map_eq_some_iff.mp he
    simp only [Prod.mk.injEq] at hpair
    obtain ⟨rfl, rfl⟩ := hpair
    exact List.mem_zipIdx_iff_getElem?.mp hmem
  · intro h
    apply List.mem_filterMap.mpr
    exact ⟨(some sgn, i), List.mem_zipIdx_iff_getElem?.mpr h, rfl⟩

/-- An index holds one signature at most. -/
theorem eq_of_mem_iter {s : SignatureSet S} {i : Nat} {sgn sgn' : S}
    (h : (i, sgn) ∈ s.iter) (h' : (i, sgn') ∈ s.iter) : sgn = sgn' := by
  have hs := mem_iter.mp h
  rw [mem_iter.mp h'] at hs
  simpa using hs.symm

theorem iter_nodup (s : SignatureSet S) : s.iter.Nodup := by
  -- the zipped entries are told apart by their indices
  have hzip : s.entries.zipIdx.Nodup := by
    apply List.Nodup.of_map Prod.snd
    rw [List.zipIdx_map_snd]
    exact List.nodup_range'
  apply hzip.filterMap
  intro a a' b hb hb'
  obtain ⟨sgn, ha, rfl⟩ := Option.map_eq_some_iff.mp hb
  obtain ⟨sgn', ha', hpair⟩ := Option.map_eq_some_iff.mp hb'
  simp only [Prod.mk.injEq] at hpair
  obtain ⟨hi, rfl⟩ := hpair
  exact Prod.ext (ha.trans ha'.symm) hi.symm

/-- The count of `iter` is the number of indices that hold a signature. -/
theorem card_indices (s : SignatureSet S) : s.indices.card = s.iter.length := by
  rw [indices, List.toFinset_card_of_nodup, List.length_map]
  apply (iter_nodup s).map_on
  rintro ⟨i, sgn⟩ hx ⟨j, sgn'⟩ hy (rfl : i = j)
  rw [eq_of_mem_iter hx hy]

theorem mem_indices {s : SignatureSet S} {i : Nat} :
    i ∈ s.indices ↔ ∃ sgn, (i, sgn) ∈ s.iter := by
  simp [indices]

/-- The count of `iter` is the number of entries that hold a signature. -/
theorem length_iter (s : SignatureSet S) : s.iter.length = s.entries.countP Option.isSome := by
  rw [iter, List.length_filterMap_eq_countP]
  -- both count the entries that hold a signature, the zipped ones by their first component
  have hmap : s.entries.zipIdx.map Prod.fst = s.entries := by simp
  conv_rhs => rw [← hmap]
  rw [List.countP_map]
  apply List.countP_congr
  rintro ⟨o, i⟩ _
  cases o <;> simp

/-- A set without signatures is a node map of `none`s. -/
theorem entries_eq_replicate_of_length_iter {s : SignatureSet S} (h : s.iter.length = 0) :
    s.entries = List.replicate s.size none := by
  rw [length_iter, List.countP_eq_zero] at h
  apply List.eq_replicate_iff.mpr
  refine ⟨rfl, fun e he => ?_⟩
  cases e with
  | none => rfl
  | some a => exact absurd rfl (h (some a) he)

/-- Moving every signature of a set into an empty set of the same size, through `g`, maps
the node map. The induction runs over the entries from a start index, with the entries before
it already moved and those after it still empty. -/
theorem foldl_addSignature_zipIdx {T : Type} (g : S → T) :
    ∀ (l : List (Option S)) (done : List (Option T)),
      ((l.zipIdx done.length).filterMap fun e => e.1.map fun sgn => (e.2, sgn)).foldl
          (fun (acc : SignatureSet T) p => acc.addSignature (g p.2) p.1)
          ⟨done ++ List.replicate l.length none⟩ =
        ⟨done ++ l.map (Option.map g)⟩
  | [], done => by simp
  | none :: l, done => by
    have ih := foldl_addSignature_zipIdx g l (done ++ [none])
    simp only [List.length_append, List.length_singleton, List.append_assoc,
      List.singleton_append] at ih
    simp [List.zipIdx_cons, List.replicate_succ, ih]
  | some a :: l, done => by
    have ih := foldl_addSignature_zipIdx g l (done ++ [some (g a)])
    simp only [List.length_append, List.length_singleton, List.append_assoc,
      List.singleton_append] at ih
    have hstep : (⟨done ++ none :: List.replicate l.length none⟩ : SignatureSet T).addSignature
        (g a) done.length = ⟨done ++ some (g a) :: List.replicate l.length none⟩ := by
      rw [addSignature, List.set_append_right _ _ (Nat.le_refl _), Nat.sub_self,
        List.set_cons_zero]
    simp only [List.length_cons, List.zipIdx_cons, List.replicate_succ, List.filterMap_cons,
      Option.map_some, List.foldl_cons, List.map_cons]
    rw [hstep, ih]

theorem foldl_addSignature_iter {T : Type} (g : S → T) (s : SignatureSet S) :
    s.iter.foldl (fun (acc : SignatureSet T) p => acc.addSignature (g p.2) p.1) (withSize s.size) =
      ⟨s.entries.map (Option.map g)⟩ := by
  have h := foldl_addSignature_zipIdx g s.entries []
  simpa [iter, withSize, size] using h

example : (SignatureSet.mk [some 7, none, some 9]).iter = [(0, 7), (2, 9)] := by decide

end SignatureSet

end Selendra
