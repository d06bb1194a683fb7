import Selendra.Sync.Forest.Bounds

/-! # How the vertices hang together

Besides its bounds, the forest keeps a picture of the block tree. Each vertex with a parent
is recorded among that parent's children, or in `root_children` if the parent is the root;
an imported vertex's parent is imported or the root; the imported leaves are the root or
imported vertices, under their own ids, and no imported vertex has a leaf as parent; the
favourite is the root or imported; and an importable vertex's parent, if a vertex, is
wanted.

`Shaped` gathers the parts that hold in every state a method passes through. `LinkedBut`
and `RequiredBut` are the other two, with a list of vertices excused: a method breaks them
for the one vertex it works on and repairs them before it returns. This module says what
each elementary update does to them: changing vertices in place (`SameShape`), adding a
vertex, and removing vertices. -/

namespace Selendra.Sync.Forest

set_option linter.unusedSectionVars false

variable {I H J : Type} [DecidableEq I] [LruCache.Ops I Unit] [Header H] [Justification J H]

/-- `k` is recorded as a child of `p`: in `root_children` if `p` is the root, otherwise
among the children of `p`'s vertex. -/
def Link (f : Forest I H J) (k p : BlockId) : Prop :=
  (p = Header.id f.root ∧ k ∈ f.rootChildren) ∨
    ∃ w, f.vertices.lookup p = some w ∧ k ∈ w.children

/-- Every vertex with a parent, except those of `pending`, is recorded as its child. -/
def LinkedBut (f : Forest I H J) (pending : List BlockId) : Prop :=
  ∀ k v p, k ∉ pending → f.vertices.lookup k = some v → v.vertex.parent = some p →
    f.Link k p

/-- The edge from `k` to `p` respects requiredness: if `k` is importable with parent `p`
and `p` is a vertex, `p` is wanted. -/
def RequiredEdge (f : Forest I H J) (k p : BlockId) : Prop :=
  ∀ v w, f.vertices.lookup k = some v → v.vertex.importable = true →
    v.vertex.parent = some p → f.vertices.lookup p = some w → w.vertex.Wanted

/-- Every edge, except those from `pending`, respects requiredness. -/
def RequiredBut (f : Forest I H J) (pending : List BlockId) : Prop :=
  ∀ k p, k ∉ pending → f.RequiredEdge k p

/-- What holds of the vertices, the imported leaves and the favourite in every state the
methods pass through. -/
structure Shaped (f : Forest I H J) : Prop where
  hasParent : ∀ k v, f.vertices.lookup k = some v → v.vertex.header.isSome →
    v.vertex.parent.isSome
  childParent : ∀ c w d, f.vertices.lookup c = some w → d ∈ w.children →
    ∃ h : H, Header.id h = d ∧ Header.parentId h = some c
  importedParent : ∀ k v p w, f.vertices.lookup k = some v → v.vertex.imported = true →
    v.vertex.parent = some p → f.vertices.lookup p = some w → w.vertex.imported = true
  leafKeys : ∀ k h, f.importedLeaves.lookup k = some h → Header.id h = k ∧
    (k = Header.id f.root ∨ ∃ v, f.vertices.lookup k = some v ∧ v.vertex.imported = true)
  leafParent : ∀ k v p, f.vertices.lookup k = some v → v.vertex.imported = true →
    v.vertex.parent = some p → p ∉ f.importedLeaves
  favourite : Header.id f.favourite = Header.id f.root ∨
    ∃ v, f.vertices.lookup (Header.id f.favourite) = some v ∧ v.vertex.imported = true

/-- The picture of the block tree the forest keeps between calls. -/
structure Consistent (f : Forest I H J) : Prop where
  shaped : f.Shaped
  linked : f.LinkedBut []
  required : f.RequiredBut []

/-! ## Changing vertices in place -/

/-- `w` is the vertex `v` of block `k` with only its importance, its peers, its
justification or its children changed: the same block in the same place, at least as
wanted, and every new child has `k` for parent. -/
structure Reshape (k : BlockId) (v w : VertexWithChildren I H J) : Prop where
  same : v.vertex.Same w.vertex
  children : v.children ⊆ w.children
  newChildren : ∀ d ∈ w.children, d ∈ v.children ∨
    ∃ h : H, Header.id h = d ∧ Header.parentId h = some k
  wanted : v.vertex.Wanted → w.vertex.Wanted

theorem Reshape.refl (k : BlockId) (v : VertexWithChildren I H J) : Reshape k v v :=
  ⟨Vertex.Same.refl _, fun _ h => h, fun _ h => Or.inl h, id⟩

theorem Reshape.trans {k : BlockId} {v₁ v₂ v₃ : VertexWithChildren I H J}
    (h₁ : Reshape k v₁ v₂) (h₂ : Reshape k v₂ v₃) : Reshape k v₁ v₃ where
  same := h₁.same.trans h₂.same
  children _ h := h₂.children (h₁.children h)
  newChildren d hd := by
    rcases h₂.newChildren d hd with hd | hd
    · exact h₁.newChildren d hd
    · exact Or.inr hd
  wanted := h₂.wanted ∘ h₁.wanted

/-- A vertex changed in place, with its children: the same shape and only more wanted. -/
theorem Reshape.of_vertex {k : BlockId} (v : VertexWithChildren I H J) {w : Vertex I H J}
    (hs : v.vertex.Same w) (hw : v.vertex.Wanted → w.Wanted) :
    Reshape k v { v with vertex := w } :=
  ⟨hs, fun _ h => h, fun _ h => Or.inl h, hw⟩

/-- `g` is `f` with its vertices changed in place, and the root, its children, the leaves
and the favourite kept. -/
structure SameShape (f g : Forest I H J) : Prop where
  mem : ∀ k, k ∈ g.vertices ↔ k ∈ f.vertices
  reshape : ∀ k v w, f.vertices.lookup k = some v → g.vertices.lookup k = some w →
    Reshape k v w
  root : g.root = f.root
  rootChildren : g.rootChildren = f.rootChildren
  importedLeaves : g.importedLeaves = f.importedLeaves
  favourite : g.favourite = f.favourite

namespace SameShape

variable {f g h : Forest I H J}

theorem refl (f : Forest I H J) : SameShape f f := by
  refine ⟨fun _ => Iff.rfl, ?_, rfl, rfl, rfl, rfl⟩
  intro k v w hv hw
  rw [hv] at hw
  cases hw
  exact Reshape.refl k v

theorem lookup (s : SameShape f g) {k : BlockId} {w : VertexWithChildren I H J}
    (hw : g.vertices.lookup k = some w) : ∃ v, f.vertices.lookup k = some v ∧ Reshape k v w := by
  obtain ⟨v, hv⟩ := AList.mem_iff_lookup.mp ((s.mem k).mp (mem_of_lookup hw))
  exact ⟨v, hv, s.reshape k v w hv hw⟩

theorem lookup_of (s : SameShape f g) {k : BlockId} {v : VertexWithChildren I H J}
    (hv : f.vertices.lookup k = some v) : ∃ w, g.vertices.lookup k = some w ∧ Reshape k v w := by
  obtain ⟨w, hw⟩ := AList.mem_iff_lookup.mp ((s.mem k).mpr (mem_of_lookup hv))
  exact ⟨w, hw, s.reshape k v w hv hw⟩

theorem trans (s₁ : SameShape f g) (s₂ : SameShape g h) : SameShape f h where
  mem k := (s₂.mem k).trans (s₁.mem k)
  reshape k v w hv hw := by
    obtain ⟨u, hu, r₂⟩ := s₂.lookup hw
    exact (s₁.reshape k v u hv hu).trans r₂
  root := s₂.root.trans s₁.root
  rootChildren := s₂.rootChildren.trans s₁.rootChildren
  importedLeaves := s₂.importedLeaves.trans s₁.importedLeaves
  favourite := s₂.favourite.trans s₁.favourite

theorem setVertex {k : BlockId} {v w : VertexWithChildren I H J}
    (hv : f.vertices.lookup k = some v) (r : Reshape k v w) : SameShape f (f.setVertex k w) where
  mem k' := by
    simp only [setVertex_vertices, AList.mem_insert]
    constructor
    · rintro (rfl | h)
      · exact mem_of_lookup hv
      · exact h
    · exact Or.inr
  reshape k' v' w' hv' hw' := by
    by_cases hk : k' = k
    · subst hk
      rw [hv] at hv'
      cases hv'
      rw [lookup_setVertex_self] at hw'
      cases hw'
      exact r
    · rw [lookup_setVertex_ne _ _ _ hk, hv'] at hw'
      cases hw'
      exact Reshape.refl k' v'
  root := rfl
  rootChildren := rfl
  importedLeaves := rfl
  favourite := rfl

/-- Whether an imported vertex exists at `k` does not change. -/
theorem imported_iff (s : SameShape f g) (k : BlockId) :
    (∃ v, f.vertices.lookup k = some v ∧ v.vertex.imported = true) ↔
      ∃ w, g.vertices.lookup k = some w ∧ w.vertex.imported = true := by
  constructor
  · rintro ⟨v, hv, hi⟩
    obtain ⟨w, hw, r⟩ := s.lookup_of hv
    exact ⟨w, hw, r.same.imported.trans hi⟩
  · rintro ⟨w, hw, hi⟩
    obtain ⟨v, hv, r⟩ := s.lookup hw
    exact ⟨v, hv, r.same.imported.symm.trans hi⟩

theorem link (s : SameShape f g) {k p : BlockId} (hl : f.Link k p) : g.Link k p := by
  rcases hl with ⟨hp, hk⟩ | ⟨u, hu, hk⟩
  · exact Or.inl ⟨s.root ▸ hp, s.rootChildren ▸ hk⟩
  · obtain ⟨u', hu', r⟩ := s.lookup_of hu
    exact Or.inr ⟨u', hu', r.children hk⟩

end SameShape

theorem Shaped.sameShape {f g : Forest I H J} (hs : f.Shaped) (s : SameShape f g) :
    g.Shaped where
  hasParent k w hw hh := by
    obtain ⟨v, hv, r⟩ := s.lookup hw
    rw [r.same.parent]
    exact hs.hasParent k v hv (r.same.header ▸ hh)
  childParent c w d hw hd := by
    obtain ⟨v, hv, r⟩ := s.lookup hw
    rcases r.newChildren d hd with hd | hd
    · exact hs.childParent c v d hv hd
    · exact hd
  importedParent k w p u hw hi hp hu := by
    obtain ⟨v, hv, r⟩ := s.lookup hw
    obtain ⟨v', hv', r'⟩ := s.lookup hu
    rw [r'.same.imported]
    exact hs.importedParent k v p v' hv (r.same.imported ▸ hi) (r.same.parent ▸ hp) hv'
  leafKeys k h hl := by
    rw [s.importedLeaves] at hl
    obtain ⟨hk, hr | hv⟩ := hs.leafKeys k h hl
    · exact ⟨hk, Or.inl (s.root ▸ hr)⟩
    · exact ⟨hk, Or.inr ((s.imported_iff k).mp hv)⟩
  leafParent k w p hw hi hp := by
    obtain ⟨v, hv, r⟩ := s.lookup hw
    rw [s.importedLeaves]
    exact hs.leafParent k v p hv (r.same.imported ▸ hi) (r.same.parent ▸ hp)
  favourite := by
    rw [s.favourite, s.root]
    rcases hs.favourite with h | h
    · exact Or.inl h
    · exact Or.inr ((s.imported_iff _).mp h)

theorem LinkedBut.sameShape {f g : Forest I H J} {pending : List BlockId}
    (hl : f.LinkedBut pending) (s : SameShape f g) : g.LinkedBut pending := by
  intro k w p hk hw hp
  obtain ⟨v, hv, r⟩ := s.lookup hw
  exact s.link (hl k v p hk hv (r.same.parent ▸ hp))

/-- Changing vertices in place keeps requiredness if no vertex becomes importable. -/
theorem RequiredBut.sameShape {f g : Forest I H J} {pending : List BlockId}
    (hr : f.RequiredBut pending) (s : SameShape f g)
    (hi : ∀ k v w, f.vertices.lookup k = some v → g.vertices.lookup k = some w →
      w.vertex.importable = true → v.vertex.importable = true) : g.RequiredBut pending := by
  intro k p hk w u hw himp hp hu
  obtain ⟨v, hv, r⟩ := s.lookup hw
  obtain ⟨v', hv', r'⟩ := s.lookup hu
  exact r'.wanted (hr k p hk v v' hv (hi k v w hv hw himp) (r.same.parent ▸ hp) hv')

/-! ## Updates the picture does not see, and excused vertices -/

section Excuses

variable {f g : Forest I H J} {pending : List BlockId}

theorem Shaped.congr (hs : f.Shaped) (hv : g.vertices = f.vertices) (hr : g.root = f.root)
    (hl : g.importedLeaves = f.importedLeaves) (hf : g.favourite = f.favourite) : g.Shaped := by
  obtain ⟨h₁, h₂, h₃, h₄, h₅, h₆⟩ := hs
  exact ⟨hv ▸ h₁, hv ▸ h₂, hv ▸ h₃, hv ▸ hr ▸ hl ▸ h₄, hv ▸ hl ▸ h₅, hv ▸ hr ▸ hf ▸ h₆⟩

theorem LinkedBut.congr (hl : f.LinkedBut pending) (hv : g.vertices = f.vertices)
    (hr : g.root = f.root) (hc : g.rootChildren = f.rootChildren) : g.LinkedBut pending := by
  intro k v p hk hkv hp
  rw [Link, hv, hr, hc]
  exact hl k v p hk (hv ▸ hkv) hp

theorem RequiredBut.congr (hr : f.RequiredBut pending) (hv : g.vertices = f.vertices) :
    g.RequiredBut pending := by
  intro k p hk v w hkv himp hp hw
  exact hr k p hk v w (hv ▸ hkv) himp hp (hv ▸ hw)

theorem SameShape.congr (hv : g.vertices = f.vertices) (hr : g.root = f.root)
    (hc : g.rootChildren = f.rootChildren) (hl : g.importedLeaves = f.importedLeaves)
    (hf : g.favourite = f.favourite) : SameShape f g where
  mem k := by rw [hv]
  reshape k v w hv' hw := by
    rw [hv, hv'] at hw
    cases hw
    exact Reshape.refl k v
  root := hr
  rootChildren := hc
  importedLeaves := hl
  favourite := hf

theorem Consistent.congr (hc : f.Consistent) (hv : g.vertices = f.vertices)
    (hr : g.root = f.root) (hrc : g.rootChildren = f.rootChildren)
    (hl : g.importedLeaves = f.importedLeaves) (hf : g.favourite = f.favourite) :
    g.Consistent :=
  ⟨hc.shaped.congr hv hr hl hf, hc.linked.congr hv hr hrc, hc.required.congr hv⟩

theorem LinkedBut.weaken (hl : f.LinkedBut []) : f.LinkedBut pending :=
  fun k v p _ => hl k v p (List.not_mem_nil)

theorem RequiredBut.weaken (hr : f.RequiredBut []) : f.RequiredBut pending :=
  fun k p _ => hr k p (List.not_mem_nil)

/-- The excused vertex is linked after all. -/
theorem LinkedBut.nil {k : BlockId} (hl : f.LinkedBut [k])
    (hk : ∀ v p, f.vertices.lookup k = some v → v.vertex.parent = some p → f.Link k p) :
    f.LinkedBut [] := by
  intro k' v p _ hv hp
  by_cases hkk : k' = k
  · subst hkk
    exact hk v p hv hp
  · exact hl k' v p (by simpa using hkk) hv hp

/-- The excused vertex's edges respect requiredness after all. -/
theorem RequiredBut.nil {k : BlockId} (hr : f.RequiredBut [k]) (hk : ∀ p, f.RequiredEdge k p) :
    f.RequiredBut [] := by
  intro k' p _
  by_cases hkk : k' = k
  · subst hkk
    exact hk p
  · exact hr k' p (by simpa using hkk)

/-- A block that is neither a vertex nor the root is nobody's recorded parent. -/
theorem LinkedBut.no_parent (hl : f.LinkedBut pending) {k : BlockId}
    (hk : f.vertices.lookup k = none) (hroot : k ≠ Header.id f.root) :
    ∀ k' v, k' ∉ pending → f.vertices.lookup k' = some v → v.vertex.parent ≠ some k := by
  intro k' v hk' hv hp
  rcases hl k' v k hk' hv hp with ⟨h, -⟩ | ⟨u, hu, -⟩
  · exact hroot h
  · rw [hk] at hu
    cases hu

end Excuses

/-! ## Writing one vertex -/

section Write

variable {f : Forest I H J} {k : BlockId} {v w : VertexWithChildren I H J}
  {pending : List BlockId}

theorem Link.setVertex {k' p : BlockId} (hl : f.Link k' p) (hv : f.vertices.lookup k = some v)
    (hc : v.children ⊆ w.children) : (f.setVertex k w).Link k' p := by
  rcases hl with h | ⟨u, hu, hk'⟩
  · exact Or.inl h
  · by_cases hp : p = k
    · subst hp
      rw [hv] at hu
      cases hu
      exact Or.inr ⟨w, lookup_setVertex_self _ _ _, hc hk'⟩
    · exact Or.inr ⟨u, by rw [lookup_setVertex_ne _ _ _ hp, hu], hk'⟩

/-- Writing a vertex excuses its own link and keeps the others, if it keeps its children. -/
theorem LinkedBut.setVertex_pending (hl : f.LinkedBut pending)
    (hv : f.vertices.lookup k = some v) (hc : v.children ⊆ w.children) :
    (f.setVertex k w).LinkedBut (k :: pending) := by
  intro k' u p hk' hu hp
  have hkk : k' ≠ k := fun h => hk' (h ▸ List.mem_cons_self)
  rw [lookup_setVertex_ne _ _ _ hkk] at hu
  exact (hl k' u p (fun h => hk' (List.mem_cons_of_mem k h)) hu hp).setVertex hv hc

theorem RequiredEdge.setVertex {k' p : BlockId} (he : f.RequiredEdge k' p) (hk' : k' ≠ k)
    (hv : f.vertices.lookup k = some v) (hw : v.vertex.Wanted → w.vertex.Wanted) :
    (f.setVertex k w).RequiredEdge k' p := by
  intro u u' hu himp hp hu'
  rw [lookup_setVertex_ne _ _ _ hk'] at hu
  by_cases hpk : p = k
  · subst hpk
    rw [lookup_setVertex_self] at hu'
    cases hu'
    exact hw (he u v hu himp hp hv)
  · rw [lookup_setVertex_ne _ _ _ hpk] at hu'
    exact he u u' hu himp hp hu'

/-- Writing a vertex excuses its own edge and keeps the others, if it stays as wanted. -/
theorem RequiredBut.setVertex_pending (hr : f.RequiredBut pending)
    (hv : f.vertices.lookup k = some v) (hw : v.vertex.Wanted → w.vertex.Wanted) :
    (f.setVertex k w).RequiredBut (k :: pending) := by
  intro k' p hk'
  have hkk : k' ≠ k := fun h => hk' (h ▸ List.mem_cons_self)
  exact (hr k' p (fun h => hk' (List.mem_cons_of_mem k h))).setVertex hkk hv hw

/-- Writing a vertex whose own edge respects requiredness. -/
theorem RequiredBut.setVertex_edge (hr : f.RequiredBut pending)
    (hv : f.vertices.lookup k = some v) (hw : v.vertex.Wanted → w.vertex.Wanted)
    (hedge : ∀ p, (f.setVertex k w).RequiredEdge k p) : (f.setVertex k w).RequiredBut pending := by
  intro k' p hk'
  by_cases hkk : k' = k
  · subst hkk
    exact hedge p
  · exact (hr k' p hk').setVertex hkk hv hw

/-- Marking the vertex `x` wanted repairs the edges into it from the excused vertices, whose
parent it is, and excuses its own edge. -/
theorem RequiredBut.setVertex_wanted {x : BlockId} (hr : f.RequiredBut pending)
    (hpend : ∀ c ∈ pending, ∀ u, f.vertices.lookup c = some u → u.vertex.parent = some x)
    (hv : f.vertices.lookup x = some v) (hw : w.vertex.Wanted) :
    (f.setVertex x w).RequiredBut [x] := by
  intro k' p hk'
  have hkx : k' ≠ x := by simpa using hk'
  by_cases hpx : p = x
  · subst hpx
    intro u u' _ _ _ hu'
    rw [lookup_setVertex_self] at hu'
    cases hu'
    exact hw
  · by_cases hpend' : k' ∈ pending
    · intro u u' hu _ hp _
      rw [lookup_setVertex_ne _ _ _ hkx] at hu
      rw [hpend k' hpend' u hu] at hp
      exact absurd (Option.some.inj hp).symm hpx
    · exact (hr k' p hpend').setVertex hkx hv (fun _ => hw)

theorem imported_setVertex_iff (hv : f.vertices.lookup k = some v)
    (hi : w.vertex.imported = v.vertex.imported) (k' : BlockId) :
    (∃ u, (f.setVertex k w).vertices.lookup k' = some u ∧ u.vertex.imported = true) ↔
      ∃ u, f.vertices.lookup k' = some u ∧ u.vertex.imported = true := by
  by_cases hk : k' = k
  · subst hk
    rw [lookup_setVertex_self, hv]
    simp [hi]
  · rw [lookup_setVertex_ne _ _ _ hk]

/-- Writing a vertex with its children and importedness kept, and its parent too if it is
imported: the shape stays. -/
theorem Shaped.setVertex_reparent (hs : f.Shaped) (hv : f.vertices.lookup k = some v)
    (hc : w.children = v.children) (hi : w.vertex.imported = v.vertex.imported)
    (hpar : v.vertex.imported = true → w.vertex.parent = v.vertex.parent)
    (hhp : w.vertex.header.isSome → w.vertex.parent.isSome) : (f.setVertex k w).Shaped where
  hasParent k' u hu hh := by
    by_cases hk : k' = k
    · subst hk
      rw [lookup_setVertex_self] at hu
      cases hu
      exact hhp hh
    · rw [lookup_setVertex_ne _ _ _ hk] at hu
      exact hs.hasParent k' u hu hh
  childParent c u d hu hd := by
    by_cases hk : c = k
    · subst hk
      rw [lookup_setVertex_self] at hu
      cases hu
      exact hs.childParent c v d hv (hc ▸ hd)
    · rw [lookup_setVertex_ne _ _ _ hk] at hu
      exact hs.childParent c u d hu hd
  importedParent k' u p u' hu hui hp hu' := by
    -- the edge's two ends, read in `f`
    have hfrom : ∃ x, f.vertices.lookup k' = some x ∧ x.vertex.imported = true ∧
        x.vertex.parent = some p := by
      by_cases hk : k' = k
      · subst hk
        rw [lookup_setVertex_self] at hu
        cases hu
        have hvi : v.vertex.imported = true := hi ▸ hui
        exact ⟨v, hv, hvi, (hpar hvi) ▸ hp⟩
      · rw [lookup_setVertex_ne _ _ _ hk] at hu
        exact ⟨u, hu, hui, hp⟩
    obtain ⟨x, hx, hxi, hxp⟩ := hfrom
    by_cases hpk : p = k
    · subst hpk
      rw [lookup_setVertex_self] at hu'
      cases hu'
      rw [hi]
      exact hs.importedParent k' x p v hx hxi hxp hv
    · rw [lookup_setVertex_ne _ _ _ hpk] at hu'
      exact hs.importedParent k' x p u' hx hxi hxp hu'
  leafKeys k' h hl := by
    obtain ⟨hk, hr | hu⟩ := hs.leafKeys k' h hl
    · exact ⟨hk, Or.inl hr⟩
    · exact ⟨hk, Or.inr ((imported_setVertex_iff hv hi k').mpr hu)⟩
  leafParent k' u p hu hui hp := by
    by_cases hk : k' = k
    · subst hk
      rw [lookup_setVertex_self] at hu
      cases hu
      have hvi : v.vertex.imported = true := hi ▸ hui
      exact hs.leafParent k' v p hv hvi ((hpar hvi) ▸ hp)
    · rw [lookup_setVertex_ne _ _ _ hk] at hu
      exact hs.leafParent k' u p hu hui hp
  favourite := by
    rcases hs.favourite with h | h
    · exact Or.inl h
    · exact Or.inr ((imported_setVertex_iff hv hi _).mpr h)

end Write

/-! ## Adding a vertex -/

section New

variable {f : Forest I H J} {k : BlockId} {w : VertexWithChildren I H J}

/-- A vertex for a block that is neither a vertex nor the root, with no header yet and
children that name it as parent, where no imported vertex names it as parent. -/
theorem Shaped.setVertex_new (hs : f.Shaped) (hl : f.vertices.lookup k = none)
    (hroot : k ≠ Header.id f.root)
    (hno : ∀ k' v, f.vertices.lookup k' = some v → v.vertex.imported = true →
      v.vertex.parent ≠ some k)
    (hh : w.vertex.header = none) (hi : w.vertex.imported = false)
    (hc : ∀ d ∈ w.children, ∃ h : H, Header.id h = d ∧ Header.parentId h = some k) :
    (f.setVertex k w).Shaped := by
  -- what is imported at a block other than `k` is what was imported in `f`
  have himp : ∀ k', (∃ v, f.vertices.lookup k' = some v ∧ v.vertex.imported = true) →
      ∃ v, (f.setVertex k w).vertices.lookup k' = some v ∧ v.vertex.imported = true := by
    rintro k' ⟨v, hv, hvi⟩
    have hk' : k' ≠ k := by
      rintro rfl
      rw [hl] at hv
      cases hv
    exact ⟨v, by rw [lookup_setVertex_ne _ _ _ hk', hv], hvi⟩
  constructor
  · intro k' v hv hvh
    by_cases hk : k' = k
    · subst hk
      rw [lookup_setVertex_self] at hv
      cases hv
      simp [hh] at hvh
    · rw [lookup_setVertex_ne _ _ _ hk] at hv
      exact hs.hasParent k' v hv hvh
  · intro c u d hu hd
    by_cases hck : c = k
    · subst hck
      rw [lookup_setVertex_self] at hu
      cases hu
      exact hc d hd
    · rw [lookup_setVertex_ne _ _ _ hck] at hu
      exact hs.childParent c u d hu hd
  · intro k' v p u hv hvi hp hu
    have hk' : k' ≠ k := by
      rintro rfl
      rw [lookup_setVertex_self] at hv
      cases hv
      rw [hi] at hvi
      cases hvi
    rw [lookup_setVertex_ne _ _ _ hk'] at hv
    have hpk : p ≠ k := fun h => hno k' v hv hvi (h ▸ hp)
    rw [lookup_setVertex_ne _ _ _ hpk] at hu
    exact hs.importedParent k' v p u hv hvi hp hu
  · intro k' h hlk
    obtain ⟨hk, hr | hv⟩ := hs.leafKeys k' h hlk
    · exact ⟨hk, Or.inl hr⟩
    · exact ⟨hk, Or.inr (himp k' hv)⟩
  · intro k' v p hv hvi hp
    have hk' : k' ≠ k := by
      rintro rfl
      rw [lookup_setVertex_self] at hv
      cases hv
      rw [hi] at hvi
      cases hvi
    rw [lookup_setVertex_ne _ _ _ hk'] at hv
    exact hs.leafParent k' v p hv hvi hp
  · rcases hs.favourite with h | h
    · exact Or.inl h
    · exact Or.inr (himp _ h)

/-- A parentless new vertex leaves the other links as they were. -/
theorem LinkedBut.setVertex_new {pending : List BlockId} (hlb : f.LinkedBut pending)
    (hl : f.vertices.lookup k = none) (hp : w.vertex.parent = none) :
    (f.setVertex k w).LinkedBut pending := by
  intro k' v p hk' hv hvp
  have hkk : k' ≠ k := by
    rintro rfl
    rw [lookup_setVertex_self] at hv
    cases hv
    rw [hp] at hvp
    cases hvp
  rw [lookup_setVertex_ne _ _ _ hkk] at hv
  rcases hlb k' v p hk' hv hvp with h | ⟨u, hu, hc⟩
  · exact Or.inl h
  · have hpk : p ≠ k := by
      rintro rfl
      rw [hl] at hu
      cases hu
    exact Or.inr ⟨u, by rw [lookup_setVertex_ne _ _ _ hpk, hu], hc⟩

/-- A new vertex that is not importable, where no importable vertex outside `pending`
names it as parent. -/
theorem RequiredBut.setVertex_new {pending : List BlockId} (hr : f.RequiredBut pending)
    (hl : f.vertices.lookup k = none) (hw : w.vertex.importable = false)
    (hno : ∀ k' v, k' ∉ pending → f.vertices.lookup k' = some v →
      v.vertex.importable = true → v.vertex.parent ≠ some k) :
    (f.setVertex k w).RequiredBut pending := by
  intro k' p hk' v u hv himp hp hu
  have hkk : k' ≠ k := by
    rintro rfl
    rw [lookup_setVertex_self] at hv
    cases hv
    rw [hw] at himp
    cases himp
  rw [lookup_setVertex_ne _ _ _ hkk] at hv
  have hpk : p ≠ k := fun h => hno k' v hk' hv himp (h ▸ hp)
  rw [lookup_setVertex_ne _ _ _ hpk] at hu
  exact hr k' p hk' v u hv himp hp hu

end New

/-! ## Removing vertices -/

section Removal

variable {f g : Forest I H J}

theorem Link.removed (r : Removed f g) (c : Closed f g) {k p : BlockId} (hl : f.Link k p)
    (hk : k ∈ g.vertices) : g.Link k p := by
  rcases hl with ⟨hp, hc⟩ | ⟨u, hu, hc⟩
  · exact Or.inl ⟨r.root ▸ hp, r.rootChildren ▸ hc⟩
  · by_cases hpg : p ∈ g.vertices
    · obtain ⟨u', hu'⟩ := AList.mem_iff_lookup.mp hpg
      have : u' = u := Option.some.inj ((r.lookup p u' hu').symm.trans hu)
      exact Or.inr ⟨u', hu', this ▸ hc⟩
    -- a removed vertex took its children with it
    · exact absurd hk (c p u k hu hpg hc)

theorem LinkedBut.removed {pending : List BlockId} (hl : f.LinkedBut pending) (r : Removed f g)
    (c : Closed f g) : g.LinkedBut pending := by
  intro k v p hk hv hp
  exact (hl k v p hk (r.lookup k v hv) hp).removed r c (mem_of_lookup hv)

theorem RequiredBut.removed {pending : List BlockId} (hr : f.RequiredBut pending)
    (r : Removed f g) : g.RequiredBut pending := by
  intro k p hk v w hv himp hp hw
  exact hr k p hk v w (r.lookup k v hv) himp hp (r.lookup p w hw)

/-- Removing vertices keeps the shape, if the favourite is still the root or imported. -/
theorem Shaped.removed (hs : f.Shaped) (r : Removed f g)
    (hfav : Header.id g.favourite = Header.id g.root ∨
      ∃ v, g.vertices.lookup (Header.id g.favourite) = some v ∧ v.vertex.imported = true) :
    g.Shaped where
  hasParent k v hv := hs.hasParent k v (r.lookup k v hv)
  childParent c w d hw := hs.childParent c w d (r.lookup c w hw)
  importedParent k v p w hv hi hp hw :=
    hs.importedParent k v p w (r.lookup k v hv) hi hp (r.lookup p w hw)
  leafKeys k h hl := by
    rw [r.importedLeaves] at hl
    split at hl
    · cases hl
    · rename_i hkg
      obtain ⟨hk, hr | ⟨v, hv, hi⟩⟩ := hs.leafKeys k h hl
      · exact ⟨hk, Or.inl (r.root ▸ hr)⟩
      · -- the leaf's vertex was not removed, or its leaf entry went with it
        have hkv : k ∈ g.vertices := by
          by_contra hn
          exact hkg ⟨mem_of_lookup hv, hn⟩
        obtain ⟨v', hv'⟩ := AList.mem_iff_lookup.mp hkv
        have : v' = v := Option.some.inj ((r.lookup k v' hv').symm.trans hv)
        exact ⟨hk, Or.inr ⟨v', hv', this ▸ hi⟩⟩
  leafParent k v p hv hi hp hpl := by
    have hpl' := AList.mem_iff_lookup.mp hpl
    rw [r.importedLeaves] at hpl'
    split at hpl'
    · obtain ⟨_, h⟩ := hpl'
      cases h
    · exact hs.leafParent k v p (r.lookup k v hv) hi hp (AList.mem_iff_lookup.mpr hpl')
  favourite := hfav

end Removal

end Selendra.Sync.Forest
