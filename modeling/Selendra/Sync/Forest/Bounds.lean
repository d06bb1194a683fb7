import Selendra.Sync.Forest.Prune

/-! # The forest keeps its bounds and its justified-block cache

Every vertex lies above the root, at most `MAX_DEPTH` above it, and outside the compost
bin; every entry of `justified_blocks` sits at its block's number and points at an
imported justified vertex, or at a composted block, which can never become a vertex
again while the entry stands: the compost bin loses the block only in `prune_level`,
which drops the entry with it. Hence `try_finalize` never reaches its `panic!`.

The invariant is `Bounded`. It survives each elementary update of the forest
(`Bounded.setVertex`, `Bounded.removed`, `Bounded.insertJustified`), and each method is
a sequence of those. -/

namespace Selendra.Sync.Forest

set_option linter.unusedSectionVars false

variable {I H J : Type} [DecidableEq I] [LruCache.Ops I Unit] [Header H] [Justification J H]

structure Bounded (f : Forest I H J) : Prop where
  above : ∀ k, k ∈ f.vertices → (Header.id f.root).number < k.number
  within : ∀ k, k ∈ f.vertices → k.number ≤ (Header.id f.root).number + MAX_DEPTH
  fresh : ∀ k, k ∈ f.vertices → k ∉ f.compostBin
  describes : ∀ k v, f.vertices.lookup k = some v → v.vertex.Describes k
  justifiedNumber : ∀ n id, f.justifiedBlocks.lookup n = some id → id.number = n
  justifiedVertex : ∀ n id v, f.justifiedBlocks.lookup n = some id →
    f.vertices.lookup id = some v → v.vertex.justifiedBlock = true
  justifiedKnown : ∀ n id, f.justifiedBlocks.lookup n = some id →
    id ∈ f.vertices ∨ id ∈ f.compostBin

theorem mem_of_lookup {f : Forest I H J} {k : BlockId} {v : VertexWithChildren I H J}
    (h : f.vertices.lookup k = some v) : k ∈ f.vertices :=
  AList.mem_iff_lookup.mpr ⟨v, h⟩

theorem bounded_empty (topFinalized : H) : (empty topFinalized : Forest I H J).Bounded where
  above _ h := absurd h (AList.notMem_empty _)
  within _ h := absurd h (AList.notMem_empty _)
  fresh _ h := absurd h (AList.notMem_empty _)
  describes _ _ h := by simp [empty] at h
  justifiedNumber _ _ h := by simp [empty] at h
  justifiedVertex _ _ _ h := by simp [empty] at h
  justifiedKnown _ _ h := by simp [empty] at h

namespace Bounded

variable {f g : Forest I H J}

theorem specialState_none (hb : f.Bounded) {k : BlockId} (hk : k ∈ f.vertices) :
    f.specialState k = none :=
  (specialState_eq_none f k).mpr ⟨hb.above k hk, hb.within k hk, hb.fresh k hk⟩

/-- A block in a special state is not a vertex. -/
theorem lookup_of_special (hb : f.Bounded) {k : BlockId} (hk : f.specialState k ≠ none) :
    f.vertices.lookup k = none :=
  AList.lookup_eq_none.mpr fun h => hk (hb.specialState_none h)

theorem root_not_mem (hb : f.Bounded) : Header.id f.root ∉ f.vertices := fun h =>
  (Nat.lt_irrefl _) (hb.above _ h)

/-- Only the vertices, the root, the compost bin and the cache matter. -/
theorem congr (hb : f.Bounded) (hv : g.vertices = f.vertices) (hr : g.root = f.root)
    (hc : g.compostBin = f.compostBin) (hj : g.justifiedBlocks = f.justifiedBlocks) :
    g.Bounded where
  above k hk := hr ▸ hb.above k (hv ▸ hk)
  within k hk := hr ▸ hb.within k (hv ▸ hk)
  fresh k hk := hc ▸ hb.fresh k (hv ▸ hk)
  describes k v h := hb.describes k v (hv ▸ h)
  justifiedNumber n id h := hb.justifiedNumber n id (hj ▸ h)
  justifiedVertex n id v h₁ h₂ := hb.justifiedVertex n id v (hj ▸ h₁) (hv ▸ h₂)
  justifiedKnown n id h := hv ▸ hc ▸ hb.justifiedKnown n id (hj ▸ h)

/-- Writing a vertex: either one already there, or a new block the forest accepts. -/
theorem setVertex (hb : f.Bounded) {k : BlockId} {w : VertexWithChildren I H J}
    (hk : k ∈ f.vertices ∨ f.specialState k = none)
    (hj : ∀ n, f.justifiedBlocks.lookup n = some k → w.vertex.justifiedBlock = true)
    (hd : w.vertex.Describes k) : (f.setVertex k w).Bounded := by
  have hk' : (Header.id f.root).number < k.number ∧
      k.number ≤ (Header.id f.root).number + MAX_DEPTH ∧ k ∉ f.compostBin := by
    rcases hk with hk | hk
    · exact ⟨hb.above k hk, hb.within k hk, hb.fresh k hk⟩
    · exact (specialState_eq_none f k).mp hk
  have hmem : ∀ k', k' ∈ (f.setVertex k w).vertices ↔ k' = k ∨ k' ∈ f.vertices := by
    intro k'
    simp [AList.mem_insert]
  constructor
  · intro k' h
    rcases (hmem k').mp h with rfl | h
    · exact hk'.1
    · exact hb.above k' h
  · intro k' h
    rcases (hmem k').mp h with rfl | h
    · exact hk'.2.1
    · exact hb.within k' h
  · intro k' h
    rcases (hmem k').mp h with rfl | h
    · exact hk'.2.2
    · exact hb.fresh k' h
  · intro k' v h
    by_cases hkk : k' = k
    · subst hkk
      simp only [setVertex_vertices, AList.lookup_insert, Option.some.injEq] at h
      exact h ▸ hd
    · rw [setVertex_vertices, AList.lookup_insert_ne hkk] at h
      exact hb.describes k' v h
  · exact hb.justifiedNumber
  · intro n id v h₁ h₂
    by_cases hkk : id = k
    · subst hkk
      simp only [setVertex_vertices, AList.lookup_insert, Option.some.injEq] at h₂
      exact h₂ ▸ hj n h₁
    · rw [setVertex_vertices, AList.lookup_insert_ne hkk] at h₂
      exact hb.justifiedVertex n id v h₁ h₂
  · intro n id h
    rcases hb.justifiedKnown n id h with h | h
    · exact Or.inl ((hmem id).mpr (Or.inr h))
    · exact Or.inr h

/-- Writing a grown version of a vertex that is there. -/
theorem setVertex_grown (hb : f.Bounded) {k : BlockId} {v w : VertexWithChildren I H J}
    (hv : f.vertices.lookup k = some v) (hg : v.vertex.Grows w.vertex)
    (hd : w.vertex.Describes k) : (f.setVertex k w).Bounded :=
  hb.setVertex (Or.inl (mem_of_lookup hv))
    (fun n h => hg.justifiedBlock (hb.justifiedVertex n k v h hv)) hd

/-- Writing a vertex for a block that is not there: no cache entry can point at it. -/
theorem setVertex_new (hb : f.Bounded) {k : BlockId} {w : VertexWithChildren I H J}
    (hs : f.specialState k = none) (hl : f.vertices.lookup k = none)
    (hd : w.vertex.Describes k) : (f.setVertex k w).Bounded := by
  refine hb.setVertex (Or.inr hs) ?_ hd
  intro n h
  rcases hb.justifiedKnown n k h with h | h
  · exact absurd (AList.lookup_eq_none.mp hl) (not_not.mpr h)
  · exact absurd h ((specialState_eq_none f k).mp hs).2.2

/-- Removing vertices into the compost bin: an entry whose vertex goes is composted. -/
theorem removed (hb : f.Bounded) (r : Removed f g) : g.Bounded where
  above k hk := r.root ▸ hb.above k (r.mem hk)
  within k hk := r.root ▸ hb.within k (r.mem hk)
  fresh k hk := by
    rw [r.compostBin]
    rintro (h | ⟨_, h⟩)
    · exact hb.fresh k (r.mem hk) h
    · exact h hk
  describes k v h := hb.describes k v (r.lookup k v h)
  justifiedNumber n id h := hb.justifiedNumber n id (r.justifiedBlocks ▸ h)
  justifiedVertex n id v h₁ h₂ :=
    hb.justifiedVertex n id v (r.justifiedBlocks ▸ h₁) (r.lookup id v h₂)
  justifiedKnown n id h := by
    rw [r.compostBin]
    by_cases hg : id ∈ g.vertices
    · exact Or.inl hg
    · rcases hb.justifiedKnown n id (r.justifiedBlocks ▸ h) with h | h
      · exact Or.inr (Or.inr ⟨h, hg⟩)
      · exact Or.inr (Or.inl h)

/-- Caching a vertex that is an imported justified block, at its own number. -/
theorem insertJustified (hb : f.Bounded) {id : BlockId} {v : VertexWithChildren I H J}
    (hv : f.vertices.lookup id = some v) (hj : v.vertex.justifiedBlock = true) :
    ({ f with justifiedBlocks := f.justifiedBlocks.insert id.number id } : Forest I H J).Bounded where
  above := hb.above
  within := hb.within
  fresh := hb.fresh
  describes := hb.describes
  justifiedNumber n id' h := by
    by_cases hn : n = id.number
    · subst hn
      simp only [AList.lookup_insert, Option.some.injEq] at h
      rw [← h]
    · rw [AList.lookup_insert_ne hn] at h
      exact hb.justifiedNumber n id' h
  justifiedVertex n id' v' h₁ h₂ := by
    by_cases hn : n = id.number
    · subst hn
      simp only [AList.lookup_insert, Option.some.injEq] at h₁
      subst h₁
      rw [hv] at h₂
      cases h₂
      exact hj
    · rw [AList.lookup_insert_ne hn] at h₁
      exact hb.justifiedVertex n id' v' h₁ h₂
  justifiedKnown n id' h := by
    by_cases hn : n = id.number
    · subst hn
      simp only [AList.lookup_insert, Option.some.injEq] at h
      exact Or.inl (h ▸ mem_of_lookup hv)
    · rw [AList.lookup_insert_ne hn] at h
      exact hb.justifiedKnown n id' h

/-- `if justified then cache it`, as `update_body` and `update_justification` do right after
writing the vertex. -/
theorem insertJustifiedIf (hb : f.Bounded) {id : BlockId} {v : VertexWithChildren I H J}
    (hv : f.vertices.lookup id = some v) :
    (if v.vertex.justifiedBlock then
      { f with justifiedBlocks := f.justifiedBlocks.insert id.number id } else f).Bounded := by
  split
  · exact hb.insertJustified hv ‹_›
  · exact hb

/-- The favourite and the imported leaves are not part of the invariant. -/
theorem favouriteLeaves (hb : f.Bounded) (c : Prop) [Decidable c] (h : H)
    (l : AList (fun _ : BlockId => H)) :
    ({ (if c then { f with favourite := h } else f) with importedLeaves := l } :
      Forest I H J).Bounded := by
  split <;> exact hb.congr rfl rfl rfl rfl

/-! ## Each method keeps the invariant -/

theorem setRequiredWith : ∀ (n : Nat) {f : Forest I H J} (id : BlockId), f.Bounded →
    (Forest.setRequiredWith n f id).Bounded
  | 0, f, _, hb => by simpa only [Forest.setRequiredWith] using hb
  | n + 1, f, id, hb => by
    unfold Forest.setRequiredWith
    cases hg : f.get id with
    | candidate w =>
      obtain ⟨-, hl⟩ := (get_eq_candidate f id w).mp hg
      dsimp only
      have hb' := hb.setVertex_grown (w := { w with vertex := w.vertex.setRequired.2 }) hl
        (Vertex.grows_setRequired w.vertex)
        (Vertex.describes_setRequired w.vertex (hb.describes id w hl))
      cases hs : w.vertex.setRequired with
      | mk b v =>
        rw [hs] at hb'
        cases b with
        | false => exact hb
        | true =>
          dsimp only
          cases hp : v.parent with
          | none => exact hb'
          | some p => exact setRequiredWith n p hb'
    | special s => exact hb
    | unknown => exact hb

theorem setRequired (hb : f.Bounded) (id : BlockId) : (f.setRequired id).Bounded :=
  setRequiredWith _ id hb

theorem setExplicitlyRequired (hb : f.Bounded) (id : BlockId) :
    (f.setExplicitlyRequired id).2.Bounded := by
  unfold Forest.setExplicitlyRequired
  cases hg : f.get id with
  | candidate w =>
    obtain ⟨-, hl⟩ := (get_eq_candidate f id w).mp hg
    dsimp only
    have hb' := hb.setVertex_grown (w := { w with vertex := w.vertex.setExplicitlyRequired.2 }) hl
      (Vertex.grows_setExplicitlyRequired w.vertex)
      (Vertex.describes_setExplicitlyRequired w.vertex (hb.describes id w hl))
    cases hs : w.vertex.setExplicitlyRequired with
    | mk b v =>
      rw [hs] at hb'
      cases b with
      | false => exact hb
      | true =>
        dsimp only
        cases hp : v.parent with
        | none => exact hb'
        | some p => exact hb'.setRequired p
  | special s => exact hb
  | unknown => exact hb

theorem connectParent (hb : f.Bounded) (id : BlockId) : (f.connectParent id).Bounded := by
  unfold Forest.connectParent
  cases hg : f.get id with
  | candidate w =>
    dsimp only
    cases hp : w.vertex.parent with
    | none => exact hb
    | some p =>
      dsimp only
      cases hgp : f.get p with
      | unknown =>
        obtain ⟨hs, hl⟩ := (get_eq_unknown f p).mp hgp
        dsimp only
        have hb' := hb.setVertex_new (w := VertexWithChildren.new.addChild id) hs hl
          (Vertex.describes_new p)
        split
        · exact hb'.setRequired p
        · exact hb'
      | special s =>
        cases s with
        | highestFinalized => exact hb.congr rfl rfl rfl rfl
        | hopelessFork => exact hb.removed (prune_pruned f id).removed
        | belowMinimal => exact hb.removed (prune_pruned f id).removed
        | tooNew => exact hb
      | candidate q =>
        obtain ⟨-, hl⟩ := (get_eq_candidate f p q).mp hgp
        dsimp only
        have hb' := hb.setVertex_grown (w := q.addChild id) hl (Vertex.Grows.refl _)
          (hb.describes p q hl)
        split
        · exact hb'.setRequired p
        · exact hb'
  | special s => exact hb
  | unknown => exact hb

theorem insertId (hb : f.Bounded) (id : BlockId) (holder : Option I) :
    (f.insertId id holder).2.Bounded := by
  unfold Forest.insertId
  cases hs : f.specialState id with
  | some s => cases s <;> exact hb
  | none =>
    dsimp only
    cases hl : f.vertices.lookup id with
    | none =>
      exact hb.setVertex_new hs hl
        (Vertex.describes_addBlockHolder _ holder (Vertex.describes_new id))
    | some w =>
      exact hb.setVertex_grown hl (Vertex.grows_addBlockHolder _ holder)
        (Vertex.describes_addBlockHolder _ holder (hb.describes id w hl))

theorem insertHeaderAt (hb : f.Bounded) {id : BlockId} {header : H} (hk : Header.id header = id)
    (holder : Option I) : (f.insertHeaderAt id header holder).2.Bounded := by
  unfold Forest.insertHeaderAt
  cases hg : f.get id with
  | candidate w =>
    obtain ⟨-, hl⟩ := (get_eq_candidate f id w).mp hg
    exact (hb.setVertex_grown hl (Vertex.grows_insertHeader _ header holder)
      (Vertex.describes_insertHeader _ holder hk (hb.describes id w hl))).connectParent id
  | special s => exact hb
  | unknown => exact hb

theorem updateHeader (hb : f.Bounded) (header : H) (holder : Option I) (required : Bool) :
    (f.updateHeader header holder required).2.Bounded := by
  rcases updateHeader_cases f header holder required with h | h | ⟨p, g, -, hi, h | h⟩ <;>
    rw [h]
  · exact hb
  · exact hb.insertId _ holder
  all_goals
    have hg : g.Bounded := by simpa only [hi] using hb.insertId (Header.id header) holder
  · exact hg.insertHeaderAt rfl holder
  · exact (hg.insertHeaderAt rfl holder).setExplicitlyRequired _

theorem markImported (hb : f.Bounded) {id : BlockId} {header : H} (hk : Header.id header = id)
    (parentId : BlockId) : (f.markImported id parentId header).2.Bounded := by
  unfold Forest.markImported
  cases hg : f.get id with
  | candidate w =>
    obtain ⟨-, hl⟩ := (get_eq_candidate f id w).mp hg
    have hb₁ := (hb.setVertex_grown (w := { w with vertex := (w.vertex.insertBody header).2 }) hl
      (Vertex.grows_insertBody _ header)
      (Vertex.describes_insertBody _ hk (hb.describes id w hl))).insertJustifiedIf
      (lookup_setVertex_self f id _)
    dsimp only
    by_cases hi : (w.vertex.insertBody header).1 = true
    · rw [if_pos hi]
      exact hb₁.favouriteLeaves _ _ _
    · rw [if_neg hi]
      exact hb₁
  | special s => exact hb
  | unknown => exact hb

theorem updateBody (hb : f.Bounded) (header : H) : (f.updateBody header).2.Bounded := by
  rcases updateBody_cases f header with h | h | ⟨p, u, g, -, hu, -, h⟩ <;> rw [h]
  · exact hb
  · exact hb.updateHeader header none false
  · have hg : g.Bounded := by simpa only [hu] using hb.updateHeader header none false
    exact hg.markImported rfl p

theorem tryUpdateHighestJustified (hb : f.Bounded) (header : H) :
    (f.tryUpdateHighestJustified header).2.Bounded := by
  unfold Forest.tryUpdateHighestJustified
  split
  · exact hb.congr rfl rfl rfl rfl
  · exact hb

theorem insertJustificationAt (hb : f.Bounded) {id parentId : BlockId} {j : J}
    (hk : Header.id (Justification.header j) = id)
    (hp : Header.parentId (Justification.header j) = some parentId) (holder : Option I) :
    (f.insertJustificationAt id parentId j holder).2.Bounded := by
  unfold Forest.insertJustificationAt
  cases hg : f.get id with
  | candidate w =>
    obtain ⟨-, hl⟩ := (get_eq_candidate f id w).mp hg
    have hb₁ := (hb.setVertex_grown
      (w := { w with vertex := w.vertex.insertJustification parentId j holder }) hl
      (Vertex.grows_insertJustification _ parentId j holder)
      (Vertex.describes_insertJustification _ holder hk hp (hb.describes id w hl))).insertJustifiedIf
      (lookup_setVertex_self f id _)
    exact hb₁.tryUpdateHighestJustified _
  | special s => exact hb
  | unknown => exact hb

theorem updateJustification (hb : f.Bounded) (j : J) (holder : Option I) :
    (f.updateJustification j holder).2.Bounded := by
  rcases updateJustification_cases f j holder with h | h | ⟨p, u, g, hp, hu, h⟩ <;> rw [h]
  · exact hb
  · exact hb.updateHeader _ none false
  · have hg : g.Bounded := by simpa only [hu] using hb.updateHeader (Justification.header j) none false
    exact (hg.setRequired p).insertJustificationAt rfl hp holder

theorem pickFavourite (hb : f.Bounded) : f.pickFavourite.Bounded := by
  obtain ⟨favourite, h⟩ := pickFavourite_eq f
  rw [h]
  exact hb.congr rfl rfl rfl rfl

end Bounded

/-! ## Finalization

Between setting the new root and `prune_level`, the vertices at or below the new root (its
siblings and their descendants) are still there, and so are the cache entries at those
numbers: `Unsettled` is `Bounded` without those two parts, and `prune_level` at the root's
number restores them. -/

/-- The invariant, except for the vertices and cache entries at or below the root. -/
structure Unsettled (f : Forest I H J) : Prop where
  within : ∀ k, k ∈ f.vertices → k.number ≤ (Header.id f.root).number + MAX_DEPTH
  fresh : ∀ k, k ∈ f.vertices → k ∉ f.compostBin
  describes : ∀ k v, f.vertices.lookup k = some v → v.vertex.Describes k
  justifiedNumber : ∀ n id, f.justifiedBlocks.lookup n = some id → id.number = n
  justifiedVertex : ∀ n id v, f.justifiedBlocks.lookup n = some id →
    f.vertices.lookup id = some v → v.vertex.justifiedBlock = true
  justifiedKnown : ∀ n id, f.justifiedBlocks.lookup n = some id →
    (Header.id f.root).number < n → id ∈ f.vertices ∨ id ∈ f.compostBin

/-- `try_finalize` before `prune_level`: the finalized vertex is removed and its header made
the root. -/
theorem Bounded.unsettled {f : Forest I H J} (hb : f.Bounded) {id : BlockId}
    {v : VertexWithChildren I H J} {root : H} (hv : f.vertices.lookup id = some v)
    (hr : v.vertex.header = some root) (children : List BlockId) :
    ({ f with vertices := f.vertices.erase id, root := root, rootChildren := children } :
      Forest I H J).Unsettled := by
  have hk : Header.id root = id := (hb.describes id v hv root hr).1
  have hlt : (Header.id f.root).number < id.number := hb.above id (mem_of_lookup hv)
  have hlookup : ∀ k w, (f.vertices.erase id).lookup k = some w → f.vertices.lookup k = some w := by
    intro k w h
    by_cases hki : k = id
    · subst hki
      simp at h
    · rwa [AList.lookup_erase_ne hki] at h
  constructor
  · intro k h
    have := hb.within k (AList.mem_erase.mp h).2
    dsimp only
    rw [hk]
    omega
  · intro k h
    exact hb.fresh k (AList.mem_erase.mp h).2
  · intro k w h
    exact hb.describes k w (hlookup k w h)
  · exact hb.justifiedNumber
  · intro n id' w h₁ h₂
    exact hb.justifiedVertex n id' w h₁ (hlookup id' w h₂)
  · intro n id' h hn
    dsimp only at hn
    rw [hk] at hn
    rcases hb.justifiedKnown n id' h with h' | h'
    · -- the entry is above the new root, so it is not the finalized block
      have hne : id' ≠ id := by
        rintro rfl
        have := hb.justifiedNumber n id' h
        omega
      exact Or.inl (AList.mem_erase.mpr ⟨hne, h'⟩)
    · exact Or.inr h'

/-- `prune_level` at the root's number removes exactly what `Unsettled` allows. -/
theorem Unsettled.pruneLevel {f : Forest I H J} (hu : f.Unsettled) :
    (f.pruneLevel (Header.id f.root).number).Bounded := by
  unfold Forest.pruneLevel
  apply Bounded.pickFavourite
  obtain ⟨r, -, gone⟩ := foldl_prune_pruned
    (f.vertices.keys.filter (·.number ≤ (Header.id f.root).number)) f
  -- a vertex left by the pruning lies above the root
  have hleft : ∀ k, k ∈ ((f.vertices.keys.filter (·.number ≤ (Header.id f.root).number)).foldl
      prune f).vertices → (Header.id f.root).number < k.number := by
    intro k hk
    by_contra hle
    refine gone k ?_ hk
    simp only [List.mem_filter, decide_eq_true_eq]
    exact ⟨r.mem hk, by omega⟩
  constructor
  · intro k hk
    rw [r.root]
    exact hleft k hk
  · intro k hk
    rw [r.root]
    exact hu.within k (r.mem hk)
  · intro k hk hc
    rcases (r.compostBin k).mp (List.mem_filter.mp hc).1 with hc | ⟨-, hc⟩
    · exact hu.fresh k (r.mem hk) hc
    · exact hc hk
  · intro k v h
    exact hu.describes k v (r.lookup k v h)
  · intro n id h
    rw [AList.lookup_retain, Option.filter_eq_some_iff, r.justifiedBlocks] at h
    exact hu.justifiedNumber n id h.1
  · intro n id v h₁ h₂
    rw [AList.lookup_retain, Option.filter_eq_some_iff, r.justifiedBlocks] at h₁
    exact hu.justifiedVertex n id v h₁.1 (r.lookup id v h₂)
  · intro n id h
    rw [AList.lookup_retain, Option.filter_eq_some_iff, r.justifiedBlocks] at h
    obtain ⟨h, hn⟩ := h
    simp only [gt_iff_lt, decide_eq_true_eq] at hn
    have hnum := hu.justifiedNumber n id h
    by_cases hk : id ∈ ((f.vertices.keys.filter (·.number ≤ (Header.id f.root).number)).foldl
        prune f).vertices
    · exact Or.inl hk
    · -- pruned or composted before: either way in the compost bin, above the level
      refine Or.inr (List.mem_filter.mpr ⟨(r.compostBin id).mpr ?_, by simp [hnum, hn]⟩)
      rcases hu.justifiedKnown n id h hn with h' | h'
      · exact Or.inr ⟨h', hk⟩
      · exact Or.inl h'

namespace Bounded

variable {f g : Forest I H J}

/-- The entry `try_finalize` takes from the cache is an imported justified vertex, if it is
a vertex at all: the `panic!` is never reached. -/
theorem tryFinalize_ok (hb : f.Bounded) (number : Nat) : ∃ r, f.tryFinalize number = .ok r := by
  unfold Forest.tryFinalize
  cases hj : f.justifiedBlocks.lookup number with
  | none => exact ⟨_, rfl⟩
  | some id =>
    dsimp only
    cases hv : f.vertices.lookup id with
    | none => exact ⟨_, rfl⟩
    | some v =>
      obtain ⟨j, p, -, hready⟩ :=
        Vertex.ready_of_justifiedBlock (hb.justifiedVertex number id v hj hv)
      dsimp only
      rw [hready]
      exact ⟨_, rfl⟩

theorem tryFinalize (hb : f.Bounded) {number : Nat} {r : Option J × Forest I H J}
    (h : f.tryFinalize number = .ok r) : r.2.Bounded := by
  rcases tryFinalize_cases f h with rfl | ⟨id, v, j, -, hv, hr, rfl⟩
  · exact hb
  · exact (hb.unsettled hv (Vertex.header_of_ready hr) v.children).pruneLevel

/-- A justification `try_finalize` returns is of the block at the number asked for. -/
theorem tryFinalize_some_number (hb : f.Bounded) {number : Nat} {j : J}
    (h : f.tryFinalize number = .ok (some j, g)) :
    (Header.id (Justification.header j)).number = number := by
  rcases tryFinalize_cases f h with h | ⟨id, v, j', hj, hv, hr, h⟩
  · cases h
  · simp only [Prod.mk.injEq, Option.some.injEq] at h
    obtain ⟨rfl, -⟩ := h
    have hid : Header.id (Justification.header j) = id :=
      (hb.describes id v hv _ (Vertex.header_of_ready hr)).1
    exact hid ▸ hb.justifiedNumber number id hj

theorem step (hb : f.Bounded) (hs : Step f g) : g.Bounded := by
  cases hs with
  | updateHeader header holder required => exact hb.updateHeader header holder required
  | updateBody header => exact hb.updateBody header
  | updateJustification j holder => exact hb.updateJustification j holder
  | tryFinalize number r h => exact hb.tryFinalize h

end Bounded

theorem Reachable.bounded {f : Forest I H J} (h : f.Reachable) : f.Bounded := by
  induction h with
  | empty t => exact bounded_empty t
  | step _ hs ih => exact ih.step hs

/-- In every reachable forest, each vertex lies in the window above the root and outside
the compost bin, each entry of `justified_blocks` sits at its block's number and names, if
a vertex, an imported justified one; so `try_finalize` always returns. -/
theorem reachable_cache_consistent {f : Forest I H J} (hf : f.Reachable) :
    (∀ k, k ∈ f.vertices → (Header.id f.root).number < k.number ∧
      k.number ≤ (Header.id f.root).number + MAX_DEPTH ∧ k ∉ f.compostBin) ∧
    (∀ n id, f.justifiedBlocks.lookup n = some id → id.number = n ∧
      ∀ v, f.vertices.lookup id = some v → ∃ j p, v.vertex.inner = .justification true j p) ∧
    (∀ number, ∃ r, f.tryFinalize number = .ok r) := by
  have hb := hf.bounded
  refine ⟨fun k hk => ⟨hb.above k hk, hb.within k hk, hb.fresh k hk⟩, ?_, hb.tryFinalize_ok⟩
  intro n id h
  refine ⟨hb.justifiedNumber n id h, fun v hv => ?_⟩
  obtain ⟨j, p, hinner, -⟩ := Vertex.ready_of_justifiedBlock (hb.justifiedVertex n id v h hv)
  exact ⟨j, p, hinner⟩

theorem reachable_cache_consistent_after_import :
    ((empty ⟨0, 0, 0⟩ : Forest Nat SubstrateHeader
      (SubstrateJustification SubstrateHeader Unit)).updateBody ⟨1, 1, 0⟩).2.Reachable ∧
    ∃ r, ((empty ⟨0, 0, 0⟩ : Forest Nat SubstrateHeader
      (SubstrateJustification SubstrateHeader Unit)).updateBody ⟨1, 1, 0⟩).2.tryFinalize 1 = .ok r :=
  have hf := Reachable.step (.empty _) (.updateBody _ _)
  ⟨hf, (reachable_cache_consistent hf).2.2 1⟩

end Selendra.Sync.Forest
