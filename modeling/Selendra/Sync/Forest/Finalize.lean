import Selendra.Sync.Forest.Connected

/-! # Finalization, and the picture of every reachable forest

`try_finalize` moves the root up to a justified imported block: the block's vertex leaves
the map, its children become the root's, and `prune_level` removes every block at or below
its number before `pick_favourite` replaces a favourite left behind. In between, only the
links of the blocks about to be pruned and the favourite are out of place (`Finalized`);
the pruning and the new favourite put them back, so `Consistent` holds of every reachable
forest. From it: every imported block descends from the root through imported blocks, and
each finalized block descends from the root it replaces. -/

namespace Selendra.Sync.Forest

set_option linter.unusedSectionVars false

variable {I H J : Type} [DecidableEq I] [LruCache.Ops I Unit] [Header H] [Justification J H]

/-! ## Descent from the root -/

/-- `k` is the root, or an imported vertex whose parent descends from the root. -/
inductive Descends (f : Forest I H J) : BlockId → Prop
  | root : Descends f (Header.id f.root)
  | child {k p : BlockId} {v : VertexWithChildren I H J} : f.vertices.lookup k = some v →
      v.vertex.imported = true → v.vertex.parent = some p → Descends f p → Descends f k

/-- A descent that does not start at the root passes through an imported child of it. -/
theorem Descends.root_child {f : Forest I H J} {k : BlockId} (hd : f.Descends k)
    (hk : k ≠ Header.id f.root) : ∃ k' v, f.vertices.lookup k' = some v ∧
      v.vertex.imported = true ∧ v.vertex.parent = some (Header.id f.root) := by
  induction hd with
  | root => exact absurd rfl hk
  | @child k p v hv hvi hp _ ih =>
    by_cases hpr : p = Header.id f.root
    · exact ⟨k, v, hv, hvi, hpr ▸ hp⟩
    · exact ih hpr

/-! ## Choosing the favourite -/

/-- `pick_favourite` keeps a favourite that is the root or a vertex, and otherwise takes
the imported leaf of the highest number, or the root if there is none. -/
theorem favourite_pickFavourite {f : Forest I H J}
    (hl : ∀ k h, f.importedLeaves.lookup k = some h → Header.id h = k ∧
      (k = Header.id f.root ∨ ∃ v, f.vertices.lookup k = some v ∧ v.vertex.imported = true))
    (hf : ∀ v, f.vertices.lookup (Header.id f.favourite) = some v → v.vertex.imported = true) :
    Header.id f.pickFavourite.favourite = Header.id f.root ∨
      ∃ v, f.vertices.lookup (Header.id f.pickFavourite.favourite) = some v ∧
        v.vertex.imported = true := by
  have hleaf : Header.id (((f.importedLeaves.entries.maxByKey (fun e => e.1.number)).map
      (·.2)).getD f.root) = Header.id f.root ∨ ∃ v, f.vertices.lookup (Header.id
      (((f.importedLeaves.entries.maxByKey (fun e => e.1.number)).map (·.2)).getD f.root)) =
        some v ∧ v.vertex.imported = true := by
    cases hm : f.importedLeaves.entries.maxByKey (fun e => e.1.number) with
    | none => exact Or.inl rfl
    | some e =>
      have he : f.importedLeaves.lookup e.1 = some e.2 :=
        AList.mem_lookup_iff.mpr (List.maxByKey_mem hm)
      obtain ⟨hid, hr | hv⟩ := hl e.1 e.2 he
      · exact Or.inl (hid.trans hr)
      · refine Or.inr ?_
        simp only [Option.map_some, Option.getD_some]
        rw [hid]
        exact hv
  unfold pickFavourite
  cases hg : f.get (Header.id f.favourite) with
  | special s =>
    cases s with
    | highestFinalized =>
      exact Or.inl ((specialState_highestFinalized _ _).mp ((get_eq_special _ _ _).mp hg))
    | hopelessFork => exact hleaf
    | belowMinimal => exact hleaf
    | tooNew => exact hleaf
  | candidate v =>
    have hv := ((get_eq_candidate _ _ _).mp hg).2
    exact Or.inr ⟨v, hv, hf v hv⟩
  | unknown => exact hleaf

/-! ## The forest between the move of the root and the pruning -/

/-- The forest `try_finalize` hands to `prune_level`: shaped apart from its favourite, which
is the root or imported if it is a vertex at all, and linked apart from blocks at or below
the root's number, which the pruning removes. -/
structure Finalized (f : Forest I H J) : Prop where
  shaped : ({ f with favourite := f.root } : Forest I H J).Shaped
  favourite : ∀ v, f.vertices.lookup (Header.id f.favourite) = some v →
    v.vertex.imported = true
  linked : ∀ k v p, f.vertices.lookup k = some v → v.vertex.parent = some p →
    f.Link k p ∨ k.number ≤ (Header.id f.root).number
  required : f.RequiredBut []

section Finalized

variable {g g' : Forest I H J}

theorem Finalized.congr (hg : g.Finalized) (hv : g'.vertices = g.vertices)
    (hr : g'.root = g.root) (hrc : g'.rootChildren = g.rootChildren)
    (hl : g'.importedLeaves = g.importedLeaves) (hf : g'.favourite = g.favourite) :
    g'.Finalized where
  shaped := hg.shaped.congr hv hr hl hr
  favourite v hv' := hg.favourite v (by rw [← hf, ← hv]; exact hv')
  linked k v p hv' hp := by
    rw [hv] at hv'
    rcases hg.linked k v p hv' hp with hl' | hlow
    · refine Or.inl ?_
      rcases hl' with ⟨hp', hc⟩ | ⟨w, hw, hc⟩
      · exact Or.inl ⟨hr ▸ hp', hrc ▸ hc⟩
      · exact Or.inr ⟨w, hv ▸ hw, hc⟩
    · exact Or.inr (hr ▸ hlow)
  required := hg.required.congr hv

/-- Removing vertices keeps a forest finalized; a removed vertex took its children along. -/
theorem Finalized.removed (hg : g.Finalized) (r : Removed g g') (c : Closed g g') :
    g'.Finalized where
  shaped := hg.shaped.removed ⟨r.lookup, r.compostBin, r.importedLeaves, r.root,
    r.rootChildren, r.root, r.highestJustified, r.justifiedBlocks⟩ (Or.inl rfl)
  favourite v hv := hg.favourite v (by rw [← r.favourite]; exact r.lookup _ v hv)
  linked k v p hv hp := by
    rcases hg.linked k v p (r.lookup k v hv) hp with hl | hlow
    · exact Or.inl (hl.removed r c (mem_of_lookup hv))
    · exact Or.inr (r.root ▸ hlow)
  required := hg.required.removed r

/-- With every link in place, `pick_favourite` completes the picture. -/
theorem Finalized.pickFavourite (hg : g.Finalized) (hl : g.LinkedBut []) :
    g.pickFavourite.Consistent := by
  have hfav := favourite_pickFavourite (f := g) hg.shaped.leafKeys hg.favourite
  obtain ⟨favourite, h⟩ := pickFavourite_eq g
  rw [h] at hfav ⊢
  obtain ⟨h₁, h₂, h₃, h₄, h₅, -⟩ := hg.shaped
  exact ⟨⟨h₁, h₂, h₃, h₄, h₅, hfav⟩, hl, hg.required⟩

/-- `prune_level` at the root's number removes every block whose link may be missing. -/
theorem Finalized.pruneLevel (hg : g.Finalized) :
    (g.pruneLevel (Header.id g.root).number).Consistent := by
  unfold Forest.pruneLevel
  obtain ⟨r, c, gone, -⟩ := foldl_prune_pruned
    (g.vertices.keys.filter (·.number ≤ (Header.id g.root).number)) g
  have hg' := hg.removed r c
  refine Finalized.pickFavourite (hg'.congr rfl rfl rfl rfl rfl) ?_
  intro k v p _ hv hp
  rcases hg'.linked k v p hv hp with hl | hlow
  · exact hl
  · -- a block at or below the root's number was pruned
    refine absurd (mem_of_lookup hv) (gone k ?_)
    simp only [List.mem_filter, decide_eq_true_eq]
    exact ⟨r.mem (mem_of_lookup hv), r.root ▸ hlow⟩

end Finalized

/-! ## `try_finalize` -/

/-- What `try_finalize` returns with a justification: the new root is that justification's
header, and the header's block was an imported vertex. -/
theorem tryFinalize_some {f g : Forest I H J} (hb : f.Bounded) {number : Nat} {j : J}
    (h : f.tryFinalize number = .ok (some j, g)) : g.root = Justification.header j ∧
      ∃ v, f.vertices.lookup (Header.id (Justification.header j)) = some v ∧
        v.vertex.imported = true := by
  rcases tryFinalize_cases f h with h | ⟨id, v, j', hj, hv, hr, h⟩
  · cases h
  · simp only [Prod.mk.injEq, Option.some.injEq] at h
    obtain ⟨rfl, rfl⟩ := h
    refine ⟨root_pruneLevel _ _, v, ?_,
      Vertex.justifiedBlock_imported (hb.justifiedVertex number id v hj hv)⟩
    -- the justification is of the vertex's own header
    rw [(hb.describes id v hv _ (Vertex.header_of_ready hr)).1]
    exact hv

theorem consistent_empty (topFinalized : H) : (empty topFinalized : Forest I H J).Consistent where
  shaped :=
    { hasParent := fun _ _ h => by simp [empty] at h
      childParent := fun _ _ _ h => by simp [empty] at h
      importedParent := fun _ _ _ _ h => by simp [empty] at h
      leafKeys := fun _ _ h => by simp [empty] at h
      leafParent := fun _ _ _ h => by simp [empty] at h
      favourite := Or.inl rfl }
  linked _ _ _ _ h := by simp [empty] at h
  required _ _ _ _ _ h := by simp [empty] at h

/-- An imported vertex is recorded as a child of its parent, which is the root or an
imported vertex. -/
theorem Consistent.imported_link {f : Forest I H J} (hc : f.Consistent) {k : BlockId}
    {v : VertexWithChildren I H J} (hv : f.vertices.lookup k = some v)
    (hvi : v.vertex.imported = true) : ∃ p, v.vertex.parent = some p ∧
      ((p = Header.id f.root ∧ k ∈ f.rootChildren) ∨
        ∃ w, f.vertices.lookup p = some w ∧ w.vertex.imported = true ∧ k ∈ w.children) := by
  obtain ⟨p, hp⟩ := Option.isSome_iff_exists.mp
    (hc.shaped.hasParent k v hv (Vertex.header_isSome_of_imported hvi))
  refine ⟨p, hp, ?_⟩
  rcases hc.linked k v p List.not_mem_nil hv hp with hr | ⟨w, hw, hkw⟩
  · exact Or.inl hr
  · exact Or.inr ⟨w, hw, hc.shaped.importedParent k v p w hv hvi hp hw, hkw⟩

section Laws

variable (laws : HeaderLaws H)
include laws

/-- Every imported vertex descends from the root: its parent is one block lower, and is
the root or an imported vertex. -/
theorem Consistent.descends {f : Forest I H J} (hb : f.Bounded) (hc : f.Consistent)
    {k : BlockId} {v : VertexWithChildren I H J} (hv : f.vertices.lookup k = some v)
    (hvi : v.vertex.imported = true) : f.Descends k := by
  -- on the block number, which the parent lowers by one
  induction hn : k.number using Nat.strong_induction_on generalizing k v with
  | _ n ih =>
    obtain ⟨p, hp, ⟨hpr, -⟩ | ⟨w, hw, hwi, -⟩⟩ := hc.imported_link hv hvi
    · rw [hpr] at hp
      exact .child hv hvi hp .root
    · have hnum : p.number + 1 = k.number := (hb.describes k v hv).parent_number laws hp
      exact .child hv hvi hp (ih p.number (by omega) hw hwi rfl)

/-- Once a block is imported the root has an imported child, so the root is no leaf. -/
theorem Consistent.root_not_leaf {f : Forest I H J} (hb : f.Bounded) (hc : f.Consistent)
    {x : BlockId} {V : VertexWithChildren I H J} (hv : f.vertices.lookup x = some V)
    (hVi : V.vertex.imported = true) : Header.id f.root ∉ f.importedLeaves := by
  have hx : x ≠ Header.id f.root := fun h => hb.root_not_mem (h ▸ mem_of_lookup hv)
  obtain ⟨k, v, hk, hvi, hp⟩ := (hc.descends laws hb hv hVi).root_child hx
  exact hc.shaped.leafParent k v _ hk hvi hp

/-- Moving the root up to the imported block `x`: only the children of the old root lose
their link, and they lie at or below `x`. -/
theorem Consistent.finalized {f : Forest I H J} (hb : f.Bounded) (hc : f.Consistent)
    {x : BlockId} {V : VertexWithChildren I H J} {R : H} (hv : f.vertices.lookup x = some V)
    (hVi : V.vertex.imported = true) (hR : V.vertex.header = some R) :
    ({ f with vertices := f.vertices.erase x, root := R, rootChildren := V.children } :
      Forest I H J).Finalized := by
  have hs := hc.shaped
  have hk : Header.id R = x := (hb.describes x V hv R hR).1
  have hroot := hc.root_not_leaf laws hb hv hVi
  have hsub : ∀ k u, (f.vertices.erase x).lookup k = some u →
      k ≠ x ∧ f.vertices.lookup k = some u := by
    intro k u hu
    by_cases hkx : k = x
    · subst hkx
      rw [AList.lookup_erase] at hu
      cases hu
    · rw [AList.lookup_erase_ne hkx] at hu
      exact ⟨hkx, hu⟩
  refine ⟨⟨?_, ?_, ?_, ?_, ?_, Or.inl rfl⟩, ?_, ?_, ?_⟩
  · intro k u hu
    exact hs.hasParent k u (hsub k u hu).2
  · intro c w d hw
    exact hs.childParent c w d (hsub c w hw).2
  · intro k u p w hu hui hup hw
    exact hs.importedParent k u p w (hsub k u hu).2 hui hup (hsub p w hw).2
  · intro k h hl
    obtain ⟨hid, hr | ⟨u, hu, hui⟩⟩ := hs.leafKeys k h hl
    · exact absurd (hr ▸ AList.mem_iff_lookup.mpr ⟨h, hl⟩) hroot
    · by_cases hkx : k = x
      · exact ⟨hid, Or.inl (hkx.trans hk.symm)⟩
      · exact ⟨hid, Or.inr ⟨u, by rw [AList.lookup_erase_ne hkx]; exact hu, hui⟩⟩
  · intro k u p hu hui hup
    exact hs.leafParent k u p (hsub k u hu).2 hui hup
  · -- the old favourite is the old root, no vertex, or an imported vertex
    intro u hu
    rcases hs.favourite with hf | ⟨u', hu', hui⟩
    · rw [hf] at hu
      exact absurd (mem_of_lookup (hsub _ u hu).2) hb.root_not_mem
    · rw [Option.some.inj ((hsub _ u hu).2.symm.trans hu')]
      exact hui
  · intro k u p hu hup
    obtain ⟨hkx, hu⟩ := hsub k u hu
    rcases hc.linked k u p List.not_mem_nil hu hup with ⟨hp, -⟩ | ⟨w, hw, hkw⟩
    · -- a child of the old root is one above it, so not above `x`
      have hnum : p.number + 1 = k.number := (hb.describes k u hu).parent_number laws hup
      have hlt := hb.above x (mem_of_lookup hv)
      refine Or.inr ?_
      simp only [hk]
      rw [hp] at hnum
      omega
    · refine Or.inl ?_
      by_cases hpx : p = x
      · -- a child of `x` is now a child of the root
        subst hpx
        rw [hv] at hw
        cases hw
        exact Or.inl ⟨hk.symm, hkw⟩
      · exact Or.inr ⟨w, by rw [AList.lookup_erase_ne hpx]; exact hw, hkw⟩
  · intro k p _ u w hu hui hup hw
    exact hc.required k p List.not_mem_nil u w (hsub k u hu).2 hui hup (hsub p w hw).2

theorem tryFinalize_consistent {f : Forest I H J} (hb : f.Bounded) (hc : f.Consistent)
    {number : Nat} {r : Option J × Forest I H J} (h : f.tryFinalize number = .ok r) :
    r.2.Consistent := by
  rcases tryFinalize_cases f h with rfl | ⟨id, v, j, hj, hv, hr, rfl⟩
  · exact hc
  · -- the finalized vertex is an imported justified block
    have hvi := Vertex.justifiedBlock_imported (hb.justifiedVertex number id v hj hv)
    exact (hc.finalized laws hb hv hvi (Vertex.header_of_ready hr)).pruneLevel

theorem Consistent.step {f g : Forest I H J} (hb : f.Bounded) (hc : f.Consistent)
    (hs : Step f g) : g.Consistent := by
  cases hs with
  | updateHeader header holder required =>
    exact updateHeader_consistent laws hb hc header holder required
  | updateBody header => exact updateBody_consistent laws hb hc header
  | updateJustification j holder => exact updateJustification_consistent laws hb hc j holder
  | tryFinalize number r h => exact tryFinalize_consistent laws hb hc h

theorem Reachable.consistent {f : Forest I H J} (hf : f.Reachable) : f.Consistent := by
  induction hf with
  | empty topFinalized => exact consistent_empty topFinalized
  | step hr hs ih => exact ih.step laws hr.bounded hs

end Laws

/-- In every reachable forest each imported vertex is recorded as a child of its parent,
which is the root or an imported vertex; so every imported vertex descends from the root
through imported vertices, the favourite and the imported leaves are the root or imported,
and the block `try_finalize` finalizes descends from the root it replaces. -/
theorem reachable_imported_descend (laws : HeaderLaws H) {f : Forest I H J}
    (hf : f.Reachable) :
    (∀ k v, f.vertices.lookup k = some v → v.vertex.imported = true →
      ∃ p, v.vertex.parent = some p ∧ ((p = Header.id f.root ∧ k ∈ f.rootChildren) ∨
        ∃ w, f.vertices.lookup p = some w ∧ w.vertex.imported = true ∧ k ∈ w.children)) ∧
    (∀ k v, f.vertices.lookup k = some v → v.vertex.imported = true → f.Descends k) ∧
    (Header.id f.favourite = Header.id f.root ∨
      ∃ v, f.vertices.lookup (Header.id f.favourite) = some v ∧ v.vertex.imported = true) ∧
    (∀ k h, f.importedLeaves.lookup k = some h →
      k = Header.id f.root ∨ ∃ v, f.vertices.lookup k = some v ∧ v.vertex.imported = true) ∧
    (∀ number j g, f.tryFinalize number = .ok (some j, g) →
      g.root = Justification.header j ∧ f.Descends (Header.id g.root)) := by
  have hb := hf.bounded
  have hc := hf.consistent laws
  refine ⟨fun k v hv hvi => hc.imported_link hv hvi,
    fun k v hv hvi => hc.descends laws hb hv hvi, hc.shaped.favourite,
    fun k h hl => (hc.shaped.leafKeys k h hl).2, ?_⟩
  intro number j g h
  obtain ⟨hr, v, hv, hvi⟩ := tryFinalize_some hb h
  exact ⟨hr, hr ▸ hc.descends laws hb hv hvi⟩

/-- Block 1 imported over the genesis descends from it. -/
theorem reachable_imported_descend_after_import :
    HeaderLaws ChainHeader ∧
    ((empty ⟨0⟩ : Forest Nat ChainHeader (SubstrateJustification ChainHeader Unit))
      |>.updateBody ⟨1⟩).2.Reachable ∧
    ∃ v,
      ((empty ⟨0⟩ : Forest Nat ChainHeader (SubstrateJustification ChainHeader Unit))
        |>.updateBody ⟨1⟩).2.vertices.lookup ⟨1, 1⟩ = some v ∧ v.vertex.imported = true ∧
      ((empty ⟨0⟩ : Forest Nat ChainHeader (SubstrateJustification ChainHeader Unit))
        |>.updateBody ⟨1⟩).2.Descends ⟨1, 1⟩ := by
  have hf := Reachable.step (.empty _) (.updateBody (I := Nat) (J := SubstrateJustification
    ChainHeader Unit) (empty ⟨0⟩) ⟨1⟩)
  have h1 : (((empty ⟨0⟩ : Forest Nat ChainHeader (SubstrateJustification ChainHeader Unit))
      |>.updateBody ⟨1⟩).2.vertices.lookup ⟨1, 1⟩).map (·.vertex.imported) = some true := by
    decide
  obtain ⟨v, hv, hvi⟩ := Option.map_eq_some_iff.mp h1
  exact ⟨ChainHeader.headerLaws, hf, v, hv, hvi,
    (reachable_imported_descend ChainHeader.headerLaws hf).2.1 _ v hv hvi⟩

/-- In every reachable forest requiredness is closed under known parents: the parent of an
importable vertex, if it is a vertex, is importable or imported. -/
theorem reachable_required_closed (laws : HeaderLaws H) {f : Forest I H J}
    (hf : f.Reachable) :
    ∀ k p v w, f.vertices.lookup k = some v → v.vertex.importable = true →
      v.vertex.parent = some p → f.vertices.lookup p = some w →
      w.vertex.importable = true ∨ w.vertex.imported = true := by
  intro k p v w hv hi hp hw
  exact (hf.consistent laws).required k p List.not_mem_nil v w hv hi hp hw

/-- A justification of block 2 arriving first makes block 2 importable and requires its
parent, block 1, known from the justification's header only. -/
theorem reachable_required_closed_after_justification :
    HeaderLaws ChainHeader ∧
    ((empty ⟨0⟩ : Forest Nat ChainHeader (SubstrateJustification ChainHeader Unit))
      |>.updateJustification ⟨⟨2⟩, .genesis⟩ none).2.Reachable ∧
    ∃ v w,
      ((empty ⟨0⟩ : Forest Nat ChainHeader (SubstrateJustification ChainHeader Unit))
        |>.updateJustification ⟨⟨2⟩, .genesis⟩ none).2.vertices.lookup ⟨2, 2⟩ = some v ∧
      v.vertex.importable = true ∧ v.vertex.parent = some ⟨1, 1⟩ ∧
      ((empty ⟨0⟩ : Forest Nat ChainHeader (SubstrateJustification ChainHeader Unit))
        |>.updateJustification ⟨⟨2⟩, .genesis⟩ none).2.vertices.lookup ⟨1, 1⟩ = some w ∧
      (w.vertex.importable = true ∨ w.vertex.imported = true) := by
  have hf := Reachable.step (.empty _) (.updateJustification (I := Nat) (empty ⟨0⟩)
    (⟨⟨2⟩, .genesis⟩ : SubstrateJustification ChainHeader Unit) none)
  have h2 : (((empty ⟨0⟩ : Forest Nat ChainHeader (SubstrateJustification ChainHeader Unit))
      |>.updateJustification ⟨⟨2⟩, .genesis⟩ none).2.vertices.lookup ⟨2, 2⟩).map
        (fun v => (v.vertex.importable, v.vertex.parent)) = some (true, some ⟨1, 1⟩) := by
    decide
  have h1 : (((empty ⟨0⟩ : Forest Nat ChainHeader (SubstrateJustification ChainHeader Unit))
      |>.updateJustification ⟨⟨2⟩, .genesis⟩ none).2.vertices.lookup ⟨1, 1⟩).isSome := by
    decide
  obtain ⟨v, hv, hvi⟩ := Option.map_eq_some_iff.mp h2
  obtain ⟨w, hw⟩ := Option.isSome_iff_exists.mp h1
  simp only [Prod.mk.injEq] at hvi
  exact ⟨ChainHeader.headerLaws, hf, v, w, hv, hvi.1, hvi.2, hw,
    reachable_required_closed ChainHeader.headerLaws hf _ _ v w hv hvi.1 hvi.2 hw⟩

end Selendra.Sync.Forest
