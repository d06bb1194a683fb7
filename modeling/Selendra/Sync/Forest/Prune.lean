import Selendra.Sync.Forest.Basic

/-! # What pruning removes

`prune` removes a vertex and, recursively, every vertex among the children of a removed
one; removed blocks go to the compost bin and out of the imported leaves, and nothing
else changes. `Removed f g` is the frame half of that (`g` is `f` with vertices removed
that way), `Closed f g` the recursive half (a removed vertex takes its children with
it). Both compose, so the statement for one `prune` carries over to the `foldl`s of
`prune` and `prune_level`. The fuel `prune` passes, the number of vertices, is enough:
every recursive call that finds its vertex removes it. -/

namespace Selendra.Sync.Forest

set_option linter.unusedSectionVars false

variable {I H J : Type} [DecidableEq I] [LruCache.Ops I Unit] [Header H] [Justification J H]

/-- `g` is `f` with some vertices removed into the compost bin and out of the imported
leaves, and nothing else changed. -/
structure Removed (f g : Forest I H J) : Prop where
  lookup : ∀ k v, g.vertices.lookup k = some v → f.vertices.lookup k = some v
  compostBin : ∀ k, k ∈ g.compostBin ↔ k ∈ f.compostBin ∨ (k ∈ f.vertices ∧ k ∉ g.vertices)
  importedLeaves : ∀ k, g.importedLeaves.lookup k =
    if k ∈ f.vertices ∧ k ∉ g.vertices then none else f.importedLeaves.lookup k
  root : g.root = f.root
  rootChildren : g.rootChildren = f.rootChildren
  favourite : g.favourite = f.favourite
  highestJustified : g.highestJustified = f.highestJustified
  justifiedBlocks : g.justifiedBlocks = f.justifiedBlocks

/-- A vertex removed between `f` and `g` took the children it had in `f` with it. -/
def Closed (f g : Forest I H J) : Prop :=
  ∀ k v c, f.vertices.lookup k = some v → k ∉ g.vertices → c ∈ v.children → c ∉ g.vertices

theorem Removed.mem {f g : Forest I H J} (r : Removed f g) {k : BlockId} (h : k ∈ g.vertices) :
    k ∈ f.vertices := by
  obtain ⟨v, hv⟩ := AList.mem_iff_lookup.mp h
  exact AList.mem_iff_lookup.mpr ⟨v, r.lookup k v hv⟩

theorem Removed.keys_length_le {f g : Forest I H J} (r : Removed f g) :
    g.vertices.keys.length ≤ f.vertices.keys.length :=
  AList.keys_length_le fun _ => r.mem

theorem Removed.refl (f : Forest I H J) : Removed f f where
  lookup _ _ h := h
  compostBin k := by
    constructor
    · exact Or.inl
    · rintro (h | ⟨h₁, h₂⟩)
      · exact h
      · exact absurd h₁ h₂
  importedLeaves k := by
    by_cases h : k ∈ f.vertices <;> simp [h]
  root := rfl
  rootChildren := rfl
  favourite := rfl
  highestJustified := rfl
  justifiedBlocks := rfl

theorem Removed.trans {f g h : Forest I H J} (r₁ : Removed f g) (r₂ : Removed g h) :
    Removed f h where
  lookup k v hv := r₁.lookup k v (r₂.lookup k v hv)
  compostBin k := by
    rw [r₂.compostBin, r₁.compostBin]
    constructor
    · rintro ((h₁ | ⟨h₁, h₂⟩) | ⟨h₁, h₂⟩)
      · exact Or.inl h₁
      · exact Or.inr ⟨h₁, fun h₃ => h₂ (r₂.mem h₃)⟩
      · exact Or.inr ⟨r₁.mem h₁, h₂⟩
    · rintro (h₁ | ⟨h₁, h₂⟩)
      · exact Or.inl (Or.inl h₁)
      · by_cases hg : k ∈ g.vertices
        · exact Or.inr ⟨hg, h₂⟩
        · exact Or.inl (Or.inr ⟨h₁, hg⟩)
  importedLeaves k := by
    rw [r₂.importedLeaves, r₁.importedLeaves]
    by_cases hh : k ∈ h.vertices
    · simp [hh, r₂.mem hh]
    · by_cases hg : k ∈ g.vertices
      · simp [hh, hg, r₁.mem hg]
      · by_cases hf : k ∈ f.vertices <;> simp [hh, hg, hf]
  root := r₂.root.trans r₁.root
  rootChildren := r₂.rootChildren.trans r₁.rootChildren
  favourite := r₂.favourite.trans r₁.favourite
  highestJustified := r₂.highestJustified.trans r₁.highestJustified
  justifiedBlocks := r₂.justifiedBlocks.trans r₁.justifiedBlocks

theorem Closed.refl (f : Forest I H J) : Closed f f := by
  intro k v c hv hk
  exact absurd (AList.mem_iff_lookup.mpr ⟨v, hv⟩ : k ∈ f.vertices) hk

/-- Closedness composes: a vertex removed in the second step had, in `g`, the children it
had in `f`. -/
theorem Closed.trans {f g h : Forest I H J} (r₁ : Removed f g) (r₂ : Removed g h)
    (c₁ : Closed f g) (c₂ : Closed g h) : Closed f h := by
  intro k v c hv hk hc
  by_cases hg : k ∈ g.vertices
  · obtain ⟨w, hw⟩ := AList.mem_iff_lookup.mp hg
    have hwv : w = v := Option.some.inj ((r₁.lookup k w hw).symm.trans hv)
    subst hwv
    exact c₂ k w c hw hk hc
  · exact fun hch => c₁ k v c hv hg hc (r₂.mem hch)

/-- The blocks pruning `ids` may reach in `f`: those blocks and, recursively, the children of
a vertex reached. -/
inductive Reach (f : Forest I H J) (ids : List BlockId) : BlockId → Prop
  | base {k : BlockId} : k ∈ ids → Reach f ids k
  | child {c k : BlockId} {w : VertexWithChildren I H J} : Reach f ids c →
      f.vertices.lookup c = some w → k ∈ w.children → Reach f ids k

/-- Reaching in a forest with fewer vertices, from blocks reached in the larger one. -/
theorem Reach.mono {f g : Forest I H J} {ids ids' : List BlockId}
    (hl : ∀ c w, g.vertices.lookup c = some w → f.vertices.lookup c = some w)
    (hb : ∀ k ∈ ids, Reach f ids' k) {k : BlockId} (h : Reach g ids k) : Reach f ids' k := by
  induction h with
  | base hk => exact hb _ hk
  | child _ hw hk ih => exact .child ih (hl _ _ hw) hk

/-- What pruning the blocks `ids` leaves: `g` is `f` with a child-closed set of vertices
removed, among them every vertex of `ids`, and only vertices reached from `ids`. -/
structure PrunedFrom (f g : Forest I H J) (ids : List BlockId) : Prop where
  removed : Removed f g
  closed : Closed f g
  gone : ∀ id ∈ ids, id ∉ g.vertices
  reach : ∀ k, k ∈ f.vertices → k ∉ g.vertices → Reach f ids k

theorem PrunedFrom.refl (f : Forest I H J) {ids : List BlockId}
    (h : ∀ id ∈ ids, id ∉ f.vertices) : PrunedFrom f f ids :=
  ⟨Removed.refl f, Closed.refl f, h, fun _ hk hk' => absurd hk hk'⟩

/-- The first step of `prune`: the vertex itself removed and composted. -/
def removeVertex (f : Forest I H J) (id : BlockId) : Forest I H J :=
  { f with
    vertices := f.vertices.erase id
    importedLeaves := f.importedLeaves.erase id
    compostBin := f.compostBin.insert id }

theorem removed_removeVertex (f : Forest I H J) {id : BlockId} (hid : id ∈ f.vertices) :
    Removed f (f.removeVertex id) where
  lookup k v hv := by
    by_cases hk : k = id
    · subst hk
      simp [removeVertex] at hv
    · rwa [removeVertex, AList.lookup_erase_ne hk] at hv
  compostBin k := by
    by_cases hk : k = id
    · subst hk
      simp [removeVertex, hid]
    · simp [removeVertex, hk]
  importedLeaves k := by
    by_cases hk : k = id
    · subst hk
      simp [removeVertex, hid]
    · simp [removeVertex, hk, AList.lookup_erase_ne hk]
  root := rfl
  rootChildren := rfl
  favourite := rfl
  highestJustified := rfl
  justifiedBlocks := rfl

/-- A `foldl` of an operation that prunes its block prunes every block of the list. -/
theorem foldl_pruned (n : Nat) (op : Forest I H J → BlockId → Forest I H J)
    (hop : ∀ g c, g.vertices.keys.length ≤ n → PrunedFrom g (op g c) [c]) :
    ∀ (cs : List BlockId) (g : Forest I H J), g.vertices.keys.length ≤ n →
      PrunedFrom g (cs.foldl op g) cs
  | [], g, _ => PrunedFrom.refl g (by simp)
  | c :: cs, g, hg => by
    obtain ⟨r₁, c₁, h₁, e₁⟩ := hop g c hg
    obtain ⟨r₂, c₂, h₂, e₂⟩ := foldl_pruned n op hop cs (op g c) (r₁.keys_length_le.trans hg)
    refine ⟨r₁.trans r₂, c₁.trans r₁ r₂ c₂, ?_, ?_⟩
    · intro id hid
      rcases List.mem_cons.mp hid with rfl | hid
      · exact fun hm => h₁ id (List.mem_singleton_self _) (r₂.mem hm)
      · exact h₂ id hid
    · intro k hk hk'
      by_cases hc : k ∈ (op g c).vertices
      -- removed by the later prunings, from blocks that are still in `g`
      · exact (e₂ k hc hk').mono r₁.lookup
          (fun k hk => .base (List.mem_cons_of_mem c hk))
      · exact (e₁ k hk hc).mono (fun _ _ h => h)
          (fun k hk => .base (List.mem_cons.mpr (Or.inl (List.mem_singleton.mp hk))))

/-- With one unit of fuel per vertex, `prune` removes its block and everything below. -/
theorem pruneWith_pruned : ∀ (n : Nat) (f : Forest I H J) (id : BlockId),
    f.vertices.keys.length ≤ n → PrunedFrom f (f.pruneWith n id) [id]
  | 0, f, id, hn => by
    have hid : id ∉ f.vertices := fun h => by
      have := List.length_pos_of_mem (AList.mem_keys.mp h)
      omega
    simp only [pruneWith]
    exact PrunedFrom.refl f (by simpa using hid)
  | n + 1, f, id, hn => by
    cases hv : f.vertices.lookup id with
    | none =>
      have hid : id ∉ f.vertices := AList.lookup_eq_none.mp hv
      simp only [pruneWith, hv]
      exact PrunedFrom.refl f (by simpa using hid)
    | some v =>
      have hid : id ∈ f.vertices := AList.mem_iff_lookup.mpr ⟨v, hv⟩
      have r₀ := removed_removeVertex f hid
      have hlen : (f.removeVertex id).vertices.keys.length ≤ n := by
        have := AList.keys_length_erase hid
        simp only [removeVertex]
        omega
      -- the children are pruned one after the other, each with the fuel left
      obtain ⟨r, c, hc, e⟩ := foldl_pruned n (fun g c => g.pruneWith n c)
        (fun g c hg => pruneWith_pruned n g c hg) v.children _ hlen
      simp only [pruneWith, hv]
      refine ⟨r₀.trans r, ?_, ?_, ?_⟩
      · intro k w c' hw hk hc'
        by_cases hkid : k = id
        · subst hkid
          rw [hv] at hw
          cases hw
          exact hc c' hc'
        · have hw₀ : (f.removeVertex id).vertices.lookup k = some w := by
            rw [removeVertex, AList.lookup_erase_ne hkid, hw]
          exact c k w c' hw₀ hk hc'
      · intro id' hid'
        rw [List.mem_singleton.mp hid']
        exact fun hm => (by simp [removeVertex] : id ∉ (f.removeVertex id).vertices) (r.mem hm)
      · intro k hk hk'
        by_cases hkid : k = id
        · exact .base (List.mem_singleton.mpr hkid)
        · -- reached from a child of the removed vertex
          have hk₀ : k ∈ (f.removeVertex id).vertices := by
            simpa [removeVertex, AList.mem_erase, hkid] using hk
          exact (e k hk₀ hk').mono r₀.lookup
            (fun c hc => .child (.base (List.mem_singleton_self id)) hv hc)

theorem prune_pruned (f : Forest I H J) (id : BlockId) : PrunedFrom f (f.prune id) [id] :=
  pruneWith_pruned _ f id le_rfl

theorem foldl_prune_pruned (ids : List BlockId) (f : Forest I H J) :
    PrunedFrom f (ids.foldl prune f) ids :=
  foldl_pruned f.vertices.keys.length prune (fun g c _ => prune_pruned g c) ids f le_rfl

/-- `prune_level` keeps the root. -/
theorem root_pruneLevel (f : Forest I H J) (level : Nat) : (f.pruneLevel level).root = f.root := by
  simp only [pruneLevel, pickFavourite_root]
  exact (foldl_prune_pruned _ f).removed.root

/-- `prune_level` only removes vertices. -/
theorem keys_length_pruneLevel (f : Forest I H J) (level : Nat) :
    (f.pruneLevel level).vertices.keys.length ≤ f.vertices.keys.length := by
  simp only [pruneLevel, pickFavourite_vertices]
  exact (foldl_prune_pruned _ f).removed.keys_length_le

/-- `try_finalize` that finalizes a block takes at least its vertex out of the forest. -/
theorem keys_length_tryFinalize {f g : Forest I H J} {number : Nat} {j : J}
    (h : f.tryFinalize number = .ok (some j, g)) :
    g.vertices.keys.length < f.vertices.keys.length := by
  rcases tryFinalize_cases f h with h | ⟨id, v, j', -, hv, -, h⟩
  · cases h
  · simp only [Prod.mk.injEq, Option.some.injEq] at h
    obtain ⟨rfl, rfl⟩ := h
    have hmem : id ∈ f.vertices := AList.mem_iff_lookup.mpr ⟨v, hv⟩
    calc _ ≤ (f.vertices.erase id).keys.length := keys_length_pruneLevel _ _
      _ < f.vertices.keys.length := by
        have herase := AList.keys_length_erase hmem
        omega

end Selendra.Sync.Forest
