import Selendra.Sync.Forest.Links

/-! # Every method keeps the picture of the block tree

Each method of the forest is shown to keep `Consistent`, the picture of the block tree of
`Links`, assuming the header laws: a header's parent is one block lower, and two headers of
one block name the same parent. The two parts a method may break for a moment are repaired
where the code repairs them: `connect_parent` records a new header's vertex among its
parent's children and, if it is importable, requires the parent; `set_required` walks up
from a newly wanted vertex until it meets one that was wanted already. -/

namespace Selendra.Sync.Forest

set_option linter.unusedSectionVars false

variable {I H J : Type} [DecidableEq I] [LruCache.Ops I Unit] [Header H] [Justification J H]

/-! ## Raising requiredness -/

theorem sameShape_setRequiredWith : ∀ (n : Nat) (f : Forest I H J) (x : BlockId),
    SameShape f (f.setRequiredWith n x)
  | 0, f, _ => by
    simp only [setRequiredWith]
    exact SameShape.refl f
  | n + 1, f, x => by
    unfold setRequiredWith
    cases hg : f.get x with
    | candidate w =>
      obtain ⟨-, hl⟩ := (get_eq_candidate f x w).mp hg
      dsimp only
      have s₁ := SameShape.setVertex hl (Reshape.of_vertex (k := x) w
        (Vertex.same_setRequired w.vertex) (Vertex.grows_setRequired w.vertex).wanted)
      cases hs : w.vertex.setRequired with
      | mk b v =>
        rw [hs] at s₁
        cases b with
        | false => exact SameShape.refl f
        | true =>
          dsimp only
          cases hp : v.parent with
          | none => exact s₁
          | some p => exact s₁.trans (sameShape_setRequiredWith n _ p)
    | special s => exact SameShape.refl f
    | unknown => exact SameShape.refl f

theorem sameShape_setExplicitlyRequired (f : Forest I H J) (x : BlockId) :
    SameShape f (f.setExplicitlyRequired x).2 := by
  unfold setExplicitlyRequired
  cases hg : f.get x with
  | candidate w =>
    obtain ⟨-, hl⟩ := (get_eq_candidate f x w).mp hg
    dsimp only
    have s₁ := SameShape.setVertex hl (Reshape.of_vertex (k := x) w
      (Vertex.same_setExplicitlyRequired w.vertex) (Vertex.grows_setExplicitlyRequired w.vertex).wanted)
    cases hs : w.vertex.setExplicitlyRequired with
    | mk b v =>
      rw [hs] at s₁
      cases b with
      | false => exact SameShape.refl f
      | true =>
        dsimp only
        cases hp : v.parent with
        | none => exact s₁
        | some p => exact s₁.trans (sameShape_setRequiredWith _ _ p)
  | special s => exact SameShape.refl f
  | unknown => exact SameShape.refl f

/-- A vertex that `set_required` does not change was wanted already. -/
theorem wanted_of_setRequired_false {w : Vertex I H J} {v : Vertex I H J}
    (hs : w.setRequired = (false, v)) : w.Wanted := by
  have h₁ := Vertex.setRequired_of_false w (by rw [hs])
  have h₂ := Vertex.wanted_setRequired w
  rwa [h₁] at h₂

/-- After `set_required x`, the vertex `x`, if there is one, is wanted. -/
theorem wanted_setRequiredWith (n : Nat) {f : Forest I H J} {x : BlockId}
    {w u : VertexWithChildren I H J} (hx : f.get x = .candidate w)
    (hu : (f.setRequiredWith (n + 1) x).vertices.lookup x = some u) : u.vertex.Wanted := by
  obtain ⟨-, hl⟩ := (get_eq_candidate f x w).mp hx
  unfold setRequiredWith at hu
  rw [hx] at hu
  dsimp only at hu
  cases hs : w.vertex.setRequired with
  | mk b v =>
    rw [hs] at hu
    cases b with
    | false =>
      rw [hl] at hu
      cases hu
      exact wanted_of_setRequired_false hs
    | true =>
      have hv : v.Wanted := by
        have := Vertex.wanted_setRequired w.vertex
        rwa [hs] at this
      have h₁ := lookup_setVertex_self f x { w with vertex := v }
      dsimp only at hu
      cases hp : v.parent with
      | none =>
        rw [hp] at hu
        rw [h₁] at hu
        cases hu
        exact hv
      | some p =>
        rw [hp] at hu
        -- the walk up from the parent only raises requiredness
        obtain ⟨u', hu', r⟩ := (sameShape_setRequiredWith n _ p).lookup_of h₁
        rw [hu'] at hu
        cases hu
        exact r.wanted hv

/-- Excused edges that all lead into a wanted vertex, or into no vertex, are fine. -/
theorem RequiredBut.of_into {f : Forest I H J} {pending : List BlockId} {x : BlockId}
    (hr : f.RequiredBut pending)
    (hpend : ∀ c ∈ pending, ∀ u, f.vertices.lookup c = some u → u.vertex.parent = some x)
    (hx : ∀ w, f.vertices.lookup x = some w → w.vertex.Wanted) : f.RequiredBut [] := by
  intro k p _
  by_cases hk : k ∈ pending
  · intro u w hu _ hp hw
    rw [hpend k hk u hu] at hp
    cases hp
    exact hx w hw
  · exact hr k p hk

/-- Recording `k` in `root_children` keeps every link. -/
theorem Link.insertRootChild {f : Forest I H J} {k k' p : BlockId} (hl : f.Link k' p) :
    ({ f with rootChildren := f.rootChildren.insert k } : Forest I H J).Link k' p := by
  rcases hl with ⟨hp, hk⟩ | h
  · exact Or.inl ⟨hp, List.mem_insert_of_mem hk⟩
  · exact Or.inr h

theorem insertId_consistent {f : Forest I H J} (hc : f.Consistent) (id : BlockId)
    (holder : Option I) : (f.insertId id holder).2.Consistent := by
  unfold insertId
  cases hs : f.specialState id with
  | some s => cases s <;> exact hc
  | none =>
    dsimp only
    cases hl : f.vertices.lookup id with
    | none =>
      -- a new vertex: nothing names it as parent yet
      have hroot : id ≠ Header.id f.root := fun h =>
        absurd ((specialState_highestFinalized f id).mpr h) (by rw [hs]; simp)
      have hno := hc.linked.no_parent hl hroot
      exact ⟨hc.shaped.setVertex_new hl hroot (fun k v hv _ => hno k v List.not_mem_nil hv)
          rfl rfl (fun d hd => absurd hd List.not_mem_nil),
        hc.linked.setVertex_new hl rfl,
        hc.required.setVertex_new hl rfl (fun k v hk hv _ => hno k v hk hv)⟩
    | some w =>
      -- a new peer only
      have s₁ := SameShape.setVertex hl (Reshape.of_vertex (k := id) w
        (Vertex.same_addBlockHolder w.vertex holder)
        (Vertex.grows_addBlockHolder w.vertex holder).wanted)
      refine ⟨hc.shaped.sameShape s₁, hc.linked.sameShape s₁,
        hc.required.sameShape s₁ (fun k u u' hu hu' himp => ?_)⟩
      by_cases hk : k = id
      · subst hk
        rw [hl] at hu
        cases hu
        rw [lookup_setVertex_self] at hu'
        cases hu'
        rwa [Vertex.importable_addBlockHolder] at himp
      · rw [lookup_setVertex_ne _ _ _ hk, hu] at hu'
        cases hu'
        exact himp

/-! ## The header a method leaves at its block -/

/-- `connect_parent` changes the vertices it keeps only in place. -/
theorem same_connectParent (f : Forest I H J) (k : BlockId) {k' : BlockId}
    {v w : VertexWithChildren I H J} (hv : f.vertices.lookup k' = some v)
    (hw : (f.connectParent k).vertices.lookup k' = some w) : v.vertex.Same w.vertex := by
  -- the parent's vertex, written with one more child, changes only its children
  have hwrite : ∀ {p : BlockId} (u : VertexWithChildren I H J),
      f.vertices.lookup p = some u ∨ f.vertices.lookup p = none →
      (u = VertexWithChildren.new ∨ f.vertices.lookup p = some u) →
      ∀ g, SameShape (f.setVertex p (u.addChild k)) g ∨ g = f.setVertex p (u.addChild k) →
      g.vertices.lookup k' = some w → v.vertex.Same w.vertex := by
    intro p u hpu hnew g hg hgw
    obtain ⟨w', hw', hs⟩ : ∃ w', (f.setVertex p (u.addChild k)).vertices.lookup k' = some w' ∧
        w'.vertex.Same w.vertex := by
      rcases hg with hg | rfl
      · obtain ⟨w', hw', r⟩ := hg.lookup hgw
        exact ⟨w', hw', r.same⟩
      · exact ⟨w, hgw, Vertex.Same.refl _⟩
    by_cases hkp : k' = p
    · subst hkp
      rw [lookup_setVertex_self] at hw'
      cases hw'
      rcases hnew with rfl | hu
      · rcases hpu with hu | hu <;> rw [hv] at hu <;> cases hu
        exact hs
      · rw [hv] at hu
        cases hu
        exact hs
    · rw [lookup_setVertex_ne _ _ _ hkp, hv] at hw'
      cases hw'
      exact hs
  unfold connectParent at hw
  cases hg : f.get k with
  | candidate u =>
    rw [hg] at hw
    dsimp only at hw
    cases hp : u.vertex.parent with
    | none =>
      rw [hp, hv] at hw
      cases hw
      exact Vertex.Same.refl _
    | some p =>
      rw [hp] at hw
      dsimp only at hw
      cases hgp : f.get p with
      | unknown =>
        rw [hgp] at hw
        dsimp only at hw
        have hpn := ((get_eq_unknown f p).mp hgp).2
        split at hw
        · exact hwrite _ (Or.inr hpn) (Or.inl rfl) _
            (Or.inl (sameShape_setRequiredWith _ _ p)) hw
        · exact hwrite _ (Or.inr hpn) (Or.inl rfl) _ (Or.inr rfl) hw
      | candidate q =>
        rw [hgp] at hw
        dsimp only at hw
        have hpq := ((get_eq_candidate f p q).mp hgp).2
        split at hw
        · exact hwrite _ (Or.inl hpq) (Or.inr hpq) _
            (Or.inl (sameShape_setRequiredWith _ _ p)) hw
        · exact hwrite _ (Or.inl hpq) (Or.inr hpq) _ (Or.inr rfl) hw
      | special s =>
        rw [hgp] at hw
        have hkeep : f.vertices.lookup k' = some w → v.vertex.Same w.vertex := fun h => by
          rw [hv] at h
          cases h
          exact Vertex.Same.refl _
        cases s with
        | hopelessFork => exact hkeep ((prune_pruned f k).removed.lookup k' w hw)
        | belowMinimal => exact hkeep ((prune_pruned f k).removed.lookup k' w hw)
        | highestFinalized => exact hkeep hw
        | tooNew => exact hkeep hw
  | special s =>
    rw [hg, hv] at hw
    cases hw
    exact Vertex.Same.refl _
  | unknown =>
    rw [hg, hv] at hw
    cases hw
    exact Vertex.Same.refl _

/-- The vertex of block `k`, if there is one, has a header. -/
def HeaderAt (f : Forest I H J) (k : BlockId) : Prop :=
  ∀ v, f.vertices.lookup k = some v → v.vertex.header.isSome

theorem HeaderAt.sameShape {f g : Forest I H J} {k : BlockId} (hh : f.HeaderAt k)
    (s : SameShape f g) : g.HeaderAt k := by
  intro w hw
  obtain ⟨v, hv, r⟩ := s.lookup hw
  rw [r.same.header]
  exact hh v hv

theorem headerAt_insertHeaderAt {f : Forest I H J} (hb : f.Bounded) (k : BlockId) (header : H)
    (holder : Option I) : (f.insertHeaderAt k header holder).2.HeaderAt k := by
  unfold insertHeaderAt
  cases hg : f.get k with
  | candidate v =>
    obtain ⟨-, hv⟩ := (get_eq_candidate f k v).mp hg
    dsimp only
    intro w hw
    have hs := same_connectParent _ k (lookup_setVertex_self f k _) hw
    rw [hs.header]
    exact Vertex.header_isSome_insertHeader v.vertex header holder
  | special s =>
    intro w hw
    rw [hb.lookup_of_special (by rw [(get_eq_special f k s).mp hg]; simp)] at hw
    cases hw
  | unknown =>
    intro w hw
    rw [((get_eq_unknown f k).mp hg).2] at hw
    cases hw

/-- After a successful `update_header`, the block's vertex, if any, has a header. -/
theorem headerAt_updateHeader {f g : Forest I H J} (hb : f.Bounded) {header : H}
    {holder : Option I} {required : Bool} {u : Bool}
    (h : f.updateHeader header holder required = (.ok u, g)) : g.HeaderAt (Header.id header) := by
  obtain ⟨p, g₀, -, hi, hg | hg⟩ := updateHeader_ok f h <;> subst hg
  all_goals
    have hb₀ : g₀.Bounded := by simpa only [hi] using hb.insertId (Header.id header) holder
  · exact headerAt_insertHeaderAt hb₀ _ header holder
  · exact (headerAt_insertHeaderAt hb₀ _ header holder).sameShape
      (sameShape_setExplicitlyRequired _ _)

/-! ## Importing a block -/

/-- The state `update_body` leaves: the vertex `k`, not imported before, now imported with the
parent `p` it had, the leaf `p` replaced by `k`, and the favourite moved to `k` if it was
`p`. -/
theorem consistent_importLeaf {f G : Forest I H J} (hc : f.Consistent) {k p : BlockId}
    {v W : VertexWithChildren I H J} {header : H} (hv : f.vertices.lookup k = some v)
    (hvi : v.vertex.imported = false) (hvp : v.vertex.parent = some p)
    (hWi : W.vertex.imported = true) (hWn : W.vertex.importable = false)
    (hWp : W.vertex.parent = some p) (hWc : W.children = v.children) (hk : Header.id header = k)
    (hpk : p ≠ k) (hparent : ∀ u, f.vertices.lookup p = some u → u.vertex.imported = true)
    (hGv : G.vertices = (f.setVertex k W).vertices) (hGr : G.root = f.root)
    (hGc : G.rootChildren = f.rootChildren)
    (hGl : G.importedLeaves = (f.importedLeaves.erase p).insert k header)
    (hGf : G.favourite = f.favourite ∨ G.favourite = header) : G.Consistent := by
  have hs := hc.shaped
  -- reading the vertices of `G`
  have hGk : G.vertices.lookup k = some W := by rw [hGv, lookup_setVertex_self]
  have hGne : ∀ {k'}, k' ≠ k → G.vertices.lookup k' = f.vertices.lookup k' := fun h => by
    rw [hGv, lookup_setVertex_ne _ _ _ h]
  -- no imported vertex has `k`, which was not imported, as parent
  have hnok : ∀ k' u, f.vertices.lookup k' = some u → u.vertex.imported = true →
      u.vertex.parent ≠ some k := by
    intro k' u hu hui hup
    rw [hs.importedParent k' u k v hu hui hup hv] at hvi
    cases hvi
  have hvk : ∀ k', (∃ u, f.vertices.lookup k' = some u ∧ u.vertex.imported = true) →
      ∃ u, G.vertices.lookup k' = some u ∧ u.vertex.imported = true := by
    rintro k' ⟨u, hu, hui⟩
    have hk' : k' ≠ k := by
      rintro rfl
      rw [hv] at hu
      cases hu
      rw [hvi] at hui
      cases hui
    exact ⟨u, by rw [hGne hk', hu], hui⟩
  refine ⟨⟨?_, ?_, ?_, ?_, ?_, ?_⟩, ?_, ?_⟩
  · intro k' u hu hh
    by_cases hk' : k' = k
    · subst hk'
      rw [hGk] at hu
      cases hu
      rw [hWp]
      rfl
    · rw [hGne hk'] at hu
      exact hs.hasParent k' u hu hh
  · intro c u d hu hd
    by_cases hck : c = k
    · subst hck
      rw [hGk] at hu
      cases hu
      exact hs.childParent c v d hv (hWc ▸ hd)
    · rw [hGne hck] at hu
      exact hs.childParent c u d hu hd
  · intro k' u p' u' hu hui hup hu'
    by_cases hk' : k' = k
    · -- the new import: its parent passed the check
      subst hk'
      rw [hGk] at hu
      cases hu
      rw [hWp] at hup
      cases hup
      rw [hGne hpk] at hu'
      exact hparent u' hu'
    · rw [hGne hk'] at hu
      by_cases hpk' : p' = k
      · exact absurd (hpk' ▸ hup) (hnok k' u hu hui)
      · rw [hGne hpk'] at hu'
        exact hs.importedParent k' u p' u' hu hui hup hu'
  · intro k'' h hl
    rw [hGl] at hl
    by_cases hk'' : k'' = k
    · subst hk''
      rw [AList.lookup_insert] at hl
      cases hl
      exact ⟨hk, Or.inr ⟨W, hGk, hWi⟩⟩
    · rw [AList.lookup_insert_ne hk''] at hl
      have hkp : k'' ≠ p := by
        rintro rfl
        simp at hl
      rw [AList.lookup_erase_ne hkp] at hl
      obtain ⟨hid, hr | hu⟩ := hs.leafKeys k'' h hl
      · exact ⟨hid, Or.inl (hGr ▸ hr)⟩
      · exact ⟨hid, Or.inr (hvk k'' hu)⟩
  · intro k' u p' hu hui hup hmem
    rw [hGl, AList.mem_insert, AList.mem_erase] at hmem
    by_cases hk' : k' = k
    · subst hk'
      rw [hGk] at hu
      cases hu
      rw [hWp] at hup
      cases hup
      rcases hmem with h | ⟨h, -⟩
      · exact hpk h
      · exact h rfl
    · rw [hGne hk'] at hu
      rcases hmem with h | ⟨-, h⟩
      · exact hnok k' u hu hui (h ▸ hup)
      · exact hs.leafParent k' u p' hu hui hup h
  · rcases hGf with hf | hf <;> rw [hf, hGr]
    · rcases hs.favourite with h | h
      · exact Or.inl h
      · exact Or.inr (hvk _ h)
    · rw [hk]
      exact Or.inr ⟨W, hGk, hWi⟩
  · -- `k` keeps its parent and its children, so every link stays
    refine ((hc.linked.setVertex_pending (w := W) hv (hWc ▸ fun _ h => h)).nil
      (fun u p' hu hup => ?_)).congr hGv hGr hGc
    rw [lookup_setVertex_self] at hu
    cases hu
    rw [hWp] at hup
    cases hup
    exact (hc.linked k v p List.not_mem_nil hv hvp).setVertex hv (hWc ▸ fun _ h => h)
  · -- an imported vertex is wanted and not importable
    refine (hc.required.setVertex_edge hv (fun _ => Or.inr hWi)
      (fun p' u u' hu himp _ _ => ?_)).congr hGv
    rw [lookup_setVertex_self] at hu
    cases hu
    rw [hWn] at himp
    cases himp

theorem consistent_tryUpdateHighestJustified {f : Forest I H J} (hc : f.Consistent) (h : H) :
    (f.tryUpdateHighestJustified h).2.Consistent := by
  unfold tryUpdateHighestJustified
  split
  · exact hc.congr rfl rfl rfl rfl rfl
  · exact hc

theorem consistent_insertJustifiedIf {f : Forest I H J} (hc : f.Consistent) (c : Bool)
    (n : Nat) (id : BlockId) :
    (if c then { f with justifiedBlocks := f.justifiedBlocks.insert n id } else f).Consistent := by
  split
  · exact hc.congr rfl rfl rfl rfl rfl
  · exact hc

section Laws

variable (laws : HeaderLaws H)
include laws

/-- `set_required x` repairs the excused edges, which lead into `x`: it makes `x` wanted,
which excuses `x`'s own edge, and goes on to the parent; the fuel, one more than the
block number, lasts since each parent is one block lower. -/
theorem requiredBut_setRequiredWith : ∀ (n : Nat) {f : Forest I H J} {x : BlockId}
    {pending : List BlockId}, f.Bounded → f.RequiredBut pending →
    (∀ c ∈ pending, ∀ u, f.vertices.lookup c = some u → u.vertex.parent = some x) →
    x.number + 1 ≤ n → (f.setRequiredWith n x).RequiredBut []
  | 0, _, _, _, _, _, _, hn => absurd hn (by omega)
  | n + 1, f, x, pending, hb, hr, hpend, hn => by
    unfold setRequiredWith
    cases hg : f.get x with
    | candidate w =>
      obtain ⟨-, hl⟩ := (get_eq_candidate f x w).mp hg
      dsimp only
      have hb₁ := hb.setVertex_grown (w := { w with vertex := w.vertex.setRequired.2 }) hl
        (Vertex.grows_setRequired w.vertex)
        (Vertex.describes_setRequired w.vertex (hb.describes x w hl))
      have hw₁ := Vertex.wanted_setRequired w.vertex
      cases hs : w.vertex.setRequired with
      | mk b v =>
        rw [hs] at hb₁ hw₁
        cases b with
        | false =>
          refine hr.of_into hpend (fun u hu => ?_)
          rw [hl] at hu
          cases hu
          exact wanted_of_setRequired_false hs
        | true =>
          have hr₁ := hr.setVertex_wanted (w := { w with vertex := v }) hpend hl hw₁
          have h₁ := lookup_setVertex_self f x { w with vertex := v }
          dsimp only
          cases hp : v.parent with
          | none =>
            refine hr₁.nil (fun p u u' hu _ hup _ => ?_)
            rw [h₁] at hu
            cases hu
            rw [hp] at hup
            cases hup
          | some p =>
            have hnum : p.number + 1 = x.number :=
              (hb₁.describes x _ h₁).parent_number laws hp
            refine requiredBut_setRequiredWith n hb₁ hr₁ (fun c hc u hu => ?_) (by omega)
            rw [List.mem_singleton.mp hc, h₁] at hu
            cases hu
            exact hp
    | special s =>
      refine hr.of_into hpend (fun u hu => ?_)
      rw [hb.lookup_of_special (by rw [(get_eq_special f x s).mp hg]; simp)] at hu
      cases hu
    | unknown =>
      refine hr.of_into hpend (fun u hu => ?_)
      rw [((get_eq_unknown f x).mp hg).2] at hu
      cases hu

theorem requiredBut_setRequired {f : Forest I H J} {x : BlockId} {pending : List BlockId}
    (hb : f.Bounded) (hr : f.RequiredBut pending)
    (hpend : ∀ c ∈ pending, ∀ u, f.vertices.lookup c = some u → u.vertex.parent = some x) :
    (f.setRequired x).RequiredBut [] :=
  requiredBut_setRequiredWith laws _ hb hr hpend le_rfl

theorem requiredBut_setExplicitlyRequired {f : Forest I H J} (hb : f.Bounded)
    (hr : f.RequiredBut []) (x : BlockId) : (f.setExplicitlyRequired x).2.RequiredBut [] := by
  unfold setExplicitlyRequired
  cases hg : f.get x with
  | candidate w =>
    obtain ⟨-, hl⟩ := (get_eq_candidate f x w).mp hg
    dsimp only
    have hb₁ := hb.setVertex_grown (w := { w with vertex := w.vertex.setExplicitlyRequired.2 }) hl
      (Vertex.grows_setExplicitlyRequired w.vertex)
      (Vertex.describes_setExplicitlyRequired w.vertex (hb.describes x w hl))
    have hw₁ := Vertex.wanted_setExplicitlyRequired w.vertex
    cases hs : w.vertex.setExplicitlyRequired with
    | mk b v =>
      rw [hs] at hb₁ hw₁
      cases b with
      | false => exact hr
      | true =>
        have hr₁ := hr.setVertex_wanted (w := { w with vertex := v })
          (fun c hc => absurd hc List.not_mem_nil) hl hw₁
        have h₁ := lookup_setVertex_self f x { w with vertex := v }
        dsimp only
        cases hp : v.parent with
        | none =>
          refine hr₁.nil (fun p u u' hu _ hup _ => ?_)
          rw [h₁] at hu
          cases hu
          rw [hp] at hup
          cases hup
        | some p =>
          refine requiredBut_setRequired laws hb₁ hr₁ (fun c hc u hu => ?_)
          rw [List.mem_singleton.mp hc, h₁] at hu
          cases hu
          exact hp
  | special s => exact hr
  | unknown => exact hr

theorem consistent_setExplicitlyRequired {f : Forest I H J} (hb : f.Bounded)
    (hc : f.Consistent) (x : BlockId) : (f.setExplicitlyRequired x).2.Consistent :=
  ⟨hc.shaped.sameShape (sameShape_setExplicitlyRequired f x),
    hc.linked.sameShape (sameShape_setExplicitlyRequired f x),
    requiredBut_setExplicitlyRequired laws hb hc.required x⟩

/-- In a shaped forest, nothing reached from a vertex that is not imported is imported: an
imported child would have it for parent. -/
theorem Shaped.not_imported_of_reach {f : Forest I H J} (hb : f.Bounded) (hs : f.Shaped)
    {k : BlockId} (hk : ∀ v, f.vertices.lookup k = some v → v.vertex.imported = false) :
    ∀ d, Reach f [k] d → ∀ u, f.vertices.lookup d = some u → u.vertex.imported = false := by
  intro d hd
  induction hd with
  | base hd =>
    rw [List.mem_singleton.mp hd]
    exact hk
  | @child c d w _ hw hdc ih =>
    intro u hu
    by_contra hui
    have hui : u.vertex.imported = true := by simpa using hui
    obtain ⟨h, hhd, hhp⟩ := hs.childParent c w d hw hdc
    have hpar : u.vertex.parent = some c :=
      ((hb.describes d u hu).parent_of_id laws (Vertex.header_isSome_of_imported hui) hhd).trans hhp
    have := ih w hw
    rw [hs.importedParent d u c w hu hui hpar hw] at this
    cases this

/-- Pruning a block that is not imported, the one vertex that may be unlinked. -/
theorem prune_consistent {f : Forest I H J} {k : BlockId} {v : VertexWithChildren I H J}
    (hb : f.Bounded) (hs : f.Shaped) (hl : f.LinkedBut [k]) (hr : f.RequiredBut [k])
    (hv : f.vertices.lookup k = some v) (hvi : v.vertex.imported = false) :
    (f.prune k).Consistent := by
  obtain ⟨r, c, gone, reach⟩ := prune_pruned f k
  have hgone : (f.prune k).vertices.lookup k = none :=
    AList.lookup_eq_none.mpr (gone k (List.mem_singleton_self k))
  refine ⟨hs.removed r ?_, (hl.removed r c).nil (fun u p hu _ => ?_),
    (hr.removed r).nil (fun p u u' hu _ _ _ => ?_)⟩
  · -- the favourite is not pruned: nothing imported is reached from `k`
    rw [r.favourite, r.root]
    rcases hs.favourite with hf | ⟨u, hu, hui⟩
    · exact Or.inl hf
    · refine Or.inr ⟨u, ?_, hui⟩
      by_cases hm : Header.id f.favourite ∈ (f.prune k).vertices
      · obtain ⟨u', hu'⟩ := AList.mem_iff_lookup.mp hm
        rw [hu', Option.some.inj ((r.lookup _ u' hu').symm.trans hu)]
      · have hk : ∀ w, f.vertices.lookup k = some w → w.vertex.imported = false := by
          intro w hw
          rw [hv] at hw
          cases hw
          exact hvi
        have := hs.not_imported_of_reach laws hb hk _ (reach _ (mem_of_lookup hu) hm) u hu
        rw [hui] at this
        cases this
  · rw [hgone] at hu
    cases hu
  · rw [hgone] at hu
    cases hu

/-- The end of `connect_parent`: `k` is linked, and an importable `k` requires its parent. -/
theorem consistent_requireParent {g : Forest I H J} {k p : BlockId}
    {v : VertexWithChildren I H J} (hb : g.Bounded) (hs : g.Shaped) (hl : g.LinkedBut [])
    (hr : g.RequiredBut [k]) (hv : g.vertices.lookup k = some v) (hp : v.vertex.parent = some p) :
    (if v.vertex.importable then g.setRequired p else g).Consistent := by
  split
  · refine ⟨hs.sameShape (sameShape_setRequiredWith _ _ p),
      hl.sameShape (sameShape_setRequiredWith _ _ p),
      requiredBut_setRequired laws hb hr (fun c hc u hu => ?_)⟩
    rw [List.mem_singleton.mp hc, hv] at hu
    cases hu
    exact hp
  · rename_i himp
    refine ⟨hs, hl, hr.nil (fun p' u u' hu hui _ _ => ?_)⟩
    rw [hv] at hu
    cases hu
    exact absurd hui himp

/-- `connect_parent k` on a forest where only `k`, which has a header, may be unlinked and
have an edge against requiredness, and is linked if imported: it restores both. -/
theorem connectParent_consistent {f : Forest I H J} {k : BlockId} {v : VertexWithChildren I H J}
    (hb : f.Bounded) (hs : f.Shaped) (hl : f.LinkedBut [k]) (hr : f.RequiredBut [k])
    (hv : f.vertices.lookup k = some v) (hh : v.vertex.header.isSome)
    (hkl : ∀ p, v.vertex.parent = some p → v.vertex.imported = true → f.Link k p) :
    (f.connectParent k).Consistent := by
  have hg : f.get k = .candidate v :=
    (get_eq_candidate f k v).mpr ⟨hb.specialState_none (mem_of_lookup hv), hv⟩
  obtain ⟨p, hp⟩ := Option.isSome_iff_exists.mp (hs.hasParent k v hv hh)
  obtain ⟨h, hvh⟩ := Option.isSome_iff_exists.mp hh
  have hd := hb.describes k v hv
  obtain ⟨hkid, hpar⟩ := hd h hvh
  have hchild : ∃ h : H, Header.id h = k ∧ Header.parentId h = some p := ⟨h, hkid, hpar ▸ hp⟩
  have hnum : p.number + 1 = k.number := hd.parent_number laws hp
  have hpk : p ≠ k := fun h => by rw [h] at hnum; omega
  -- an imported `k` is linked, so a parent that is neither the root nor a vertex means `k`
  -- is not imported
  have hvi : p ≠ Header.id f.root → f.vertices.lookup p = none → v.vertex.imported = false := by
    intro hproot hpnot
    by_contra hvi
    rcases hkl p hp (by simpa using hvi) with ⟨hpr, -⟩ | ⟨u', hu', -⟩
    · exact hproot hpr
    · rw [hpnot] at hu'
      cases hu'
  unfold connectParent
  rw [hg]
  dsimp only
  rw [hp]
  dsimp only
  cases hgp : f.get p with
  | unknown =>
    dsimp only
    obtain ⟨hsp, hlp⟩ := (get_eq_unknown f p).mp hgp
    have hproot : p ≠ Header.id f.root := fun h =>
      absurd ((specialState_highestFinalized f p).mpr h) (by rw [hsp]; simp)
    have hno := hl.no_parent hlp hproot
    have hk₁ : (f.setVertex p (VertexWithChildren.new.addChild k)).vertices.lookup k = some v := by
      rw [lookup_setVertex_ne _ _ _ hpk.symm, hv]
    -- the parent's new vertex has `k` for its only child
    have hs₁ : (f.setVertex p (VertexWithChildren.new.addChild k)).Shaped := by
      refine hs.setVertex_new hlp hproot (fun k' u hu hui hup => ?_) rfl rfl ?_
      · by_cases hkk : k' = k
        · subst hkk
          rw [hv] at hu
          cases hu
          rw [hvi hproot hlp] at hui
          cases hui
        · exact hno k' u (by simpa using hkk) hu hup
      · intro d hd
        simp only [VertexWithChildren.addChild, VertexWithChildren.new, List.insert_nil,
          List.mem_singleton] at hd
        exact hd ▸ hchild
    have hl₁ : (f.setVertex p (VertexWithChildren.new.addChild k)).LinkedBut [] := by
      refine (hl.setVertex_new hlp rfl).nil (fun u p' hu hup => ?_)
      rw [hk₁] at hu
      cases hu
      rw [hp] at hup
      cases hup
      exact Or.inr ⟨_, lookup_setVertex_self _ _ _, by simp [VertexWithChildren.addChild]⟩
    exact consistent_requireParent laws (hb.setVertex_new hsp hlp (Vertex.describes_new p)) hs₁
      hl₁ (hr.setVertex_new hlp rfl (fun k' u hk' hu _ => hno k' u hk' hu)) hk₁ hp
  | special s =>
    have hsp := (get_eq_special f p s).mp hgp
    have hpnot : f.vertices.lookup p = none := hb.lookup_of_special (by rw [hsp]; simp)
    have hproot : s ≠ .highestFinalized → p ≠ Header.id f.root := fun hs h =>
      hs (Option.some.inj (hsp.symm.trans ((specialState_highestFinalized f p).mpr h)))
    cases s with
    | highestFinalized =>
      have hproot : p = Header.id f.root := (specialState_highestFinalized f p).mp hsp
      dsimp only
      refine ⟨hs.congr rfl rfl rfl rfl, ?_, ?_⟩
      · intro k' u p' _ hu hup
        by_cases hkk : k' = k
        · subst hkk
          rw [hv] at hu
          cases hu
          rw [hp] at hup
          cases hup
          exact Or.inl ⟨hproot, List.mem_insert_self⟩
        · exact (hl k' u p' (by simpa using hkk) hu hup).insertRootChild
      · refine (hr.nil (fun p' u u' hu _ hup hu' => ?_)).congr rfl
        rw [hv] at hu
        cases hu
        rw [hp] at hup
        cases hup
        rw [hpnot] at hu'
        cases hu'
    | hopelessFork =>
      exact prune_consistent laws hb hs hl hr hv (hvi (hproot (by simp)) hpnot)
    | belowMinimal =>
      exact prune_consistent laws hb hs hl hr hv (hvi (hproot (by simp)) hpnot)
    | tooNew =>
      -- the parent of a vertex inside the window is inside it too
      have := specialState_tooNew f p hsp
      have := hb.within k (mem_of_lookup hv)
      omega
  | candidate q =>
    dsimp only
    obtain ⟨-, hlq⟩ := (get_eq_candidate f p q).mp hgp
    have hk₁ : (f.setVertex p (q.addChild k)).vertices.lookup k = some v := by
      rw [lookup_setVertex_ne _ _ _ hpk.symm, hv]
    have s₁ : SameShape f (f.setVertex p (q.addChild k)) := by
      refine SameShape.setVertex hlq ⟨Vertex.Same.refl _, fun _ h => List.mem_insert_of_mem h,
        fun d hd => ?_, id⟩
      rcases List.mem_insert_iff.mp hd with rfl | hd
      · exact Or.inr hchild
      · exact Or.inl hd
    have hl₁ : (f.setVertex p (q.addChild k)).LinkedBut [] := by
      refine (hl.sameShape s₁).nil (fun u p' hu hup => ?_)
      rw [hk₁] at hu
      cases hu
      rw [hp] at hup
      cases hup
      exact Or.inr ⟨q.addChild k, lookup_setVertex_self _ _ _, List.mem_insert_self⟩
    have hr₁ : (f.setVertex p (q.addChild k)).RequiredBut [k] := by
      refine hr.sameShape s₁ (fun k' u u' hu hu' himp => ?_)
      by_cases hkp : k' = p
      · subst hkp
        rw [hlq] at hu
        cases hu
        rw [lookup_setVertex_self] at hu'
        cases hu'
        exact himp
      · rw [lookup_setVertex_ne _ _ _ hkp, hu] at hu'
        cases hu'
        exact himp
    exact consistent_requireParent laws
      (hb.setVertex_grown (w := q.addChild k) hlq (Vertex.Grows.refl _) (hb.describes p q hlq))
      (hs.sameShape s₁) hl₁ hr₁ hk₁ hp

/-- The header is written into the vertex, which is then connected to its parent. -/
theorem insertHeaderAt_consistent {f : Forest I H J} (hb : f.Bounded) (hc : f.Consistent)
    {k : BlockId} {header : H} (hk : Header.id header = k) {p : BlockId}
    (hp : Header.parentId header = some p) (holder : Option I) :
    (f.insertHeaderAt k header holder).2.Consistent := by
  unfold insertHeaderAt
  cases hg : f.get k with
  | candidate v =>
    obtain ⟨-, hv⟩ := (get_eq_candidate f k v).mp hg
    dsimp only
    let w : VertexWithChildren I H J := { v with vertex := (v.vertex.insertHeader header holder).2 }
    -- a vertex that had a header keeps it, and its parent, and gains a peer only
    have hkeep : v.vertex.header.isSome → w.vertex = v.vertex.addBlockHolder holder :=
      Vertex.insertHeader_of_header v.vertex header holder
    have hpar : v.vertex.imported = true → w.vertex.parent = v.vertex.parent := fun hi => by
      rw [hkeep (Vertex.header_isSome_of_imported hi)]
      exact (Vertex.same_addBlockHolder v.vertex holder).parent
    have hwp : w.vertex.parent.isSome := by
      cases hvh : v.vertex.header with
      | none =>
        rw [Vertex.parent_insertHeader_of_none v.vertex header holder hvh, hp]
        rfl
      | some h =>
        have hh : v.vertex.header.isSome := by rw [hvh]; rfl
        rw [hkeep hh, (Vertex.same_addBlockHolder v.vertex holder).parent]
        exact hc.shaped.hasParent k v hv hh
    have hs₁ : (f.setVertex k w).Shaped :=
      hc.shaped.setVertex_reparent hv rfl (Vertex.imported_insertHeader v.vertex header holder)
        hpar (fun _ => hwp)
    have hb₁ := hb.setVertex_grown (w := w) hv (Vertex.grows_insertHeader v.vertex header holder)
      (Vertex.describes_insertHeader v.vertex holder hk (hb.describes k v hv))
    have hl₁ := hc.linked.setVertex_pending (w := w) hv (fun _ h => h)
    have hr₁ := hc.required.setVertex_pending (w := w) hv
      (Vertex.grows_insertHeader v.vertex header holder).wanted
    refine connectParent_consistent laws hb₁ hs₁ hl₁ hr₁ (lookup_setVertex_self f k w)
      (Vertex.header_isSome_insertHeader v.vertex header holder) (fun p' hp' hi => ?_)
    -- an imported vertex had its header, and so its link
    have hvi : v.vertex.imported = true := by
      rwa [Vertex.imported_insertHeader] at hi
    rw [hpar hvi] at hp'
    exact (hc.linked k v p' List.not_mem_nil hv hp').setVertex hv (fun _ h => h)
  | special s => exact hc
  | unknown => exact hc

theorem updateHeader_consistent {f : Forest I H J} (hb : f.Bounded) (hc : f.Consistent)
    (header : H) (holder : Option I) (required : Bool) :
    (f.updateHeader header holder required).2.Consistent := by
  rcases updateHeader_cases f header holder required with h | h | ⟨p, g, hp, hi, h | h⟩ <;>
    rw [h]
  · exact hc
  · exact insertId_consistent hc _ holder
  all_goals
    have hbg : g.Bounded := by simpa only [hi] using hb.insertId (Header.id header) holder
    have hcg : g.Consistent := by
      simpa only [hi] using insertId_consistent hc (Header.id header) holder
  · exact insertHeaderAt_consistent laws hbg hcg rfl hp holder
  · exact consistent_setExplicitlyRequired laws (hbg.insertHeaderAt rfl holder)
      (insertHeaderAt_consistent laws hbg hcg rfl hp holder) _

/-! ## The methods that import and justify -/

theorem markImported_consistent {f : Forest I H J} (hb : f.Bounded) (hc : f.Consistent)
    {k p : BlockId} {header : H} (hk : Header.id header = k) (hp : Header.parentId header = some p)
    (hhk : f.HeaderAt k) (hparent : ∀ u, f.vertices.lookup p = some u → u.vertex.imported = true) :
    (f.markImported k p header).2.Consistent := by
  unfold markImported
  cases hg : f.get k with
  | candidate v =>
    obtain ⟨-, hv⟩ := (get_eq_candidate f k v).mp hg
    have hvh := hhk v hv
    have hd := hb.describes k v hv
    have hvp : v.vertex.parent = some p := (hd.parent_of_id laws hvh hk).trans hp
    have hpk : p ≠ k := fun h => by
      have := hd.parent_number laws hvp
      rw [h] at this
      omega
    dsimp only
    by_cases hvi : v.vertex.imported = true
    · -- imported already: only the cache may change
      rw [Vertex.insertBody_fst, hvi, Vertex.insertBody_of_imported _ _ hvi]
      simp only [Bool.not_true, Bool.false_eq_true, if_false]
      have s₁ : SameShape f (f.setVertex k { v with vertex := v.vertex }) :=
        SameShape.setVertex hv (Reshape.refl k v)
      have hc₁ : (f.setVertex k { v with vertex := v.vertex }).Consistent := by
        refine ⟨hc.shaped.sameShape s₁, hc.linked.sameShape s₁,
          hc.required.sameShape s₁ (fun k' u u' hu hu' himp => ?_)⟩
        obtain ⟨u'', hu'', r⟩ := s₁.lookup_of hu
        rw [hu'] at hu''
        cases hu''
        by_cases hkk : k' = k
        · subst hkk
          rw [hv] at hu
          cases hu
          rw [lookup_setVertex_self] at hu'
          cases hu'
          exact himp
        · rw [lookup_setVertex_ne _ _ _ hkk, hu] at hu'
          cases hu'
          exact himp
      exact consistent_insertJustifiedIf hc₁ _ _ _
    · have hvf : v.vertex.imported = false := by simpa using hvi
      rw [Vertex.insertBody_fst, hvf]
      simp only [Bool.not_false, if_true]
      have hWp : (v.vertex.insertBody header).2.parent = some p := by
        rcases Vertex.parent_insertBody v.vertex header with h | h
        · rw [h, hvp]
        · rw [h, hp]
      exact consistent_importLeaf (W := { v with vertex := (v.vertex.insertBody header).2 }) hc hv
        hvf hvp (Vertex.imported_insertBody v.vertex header)
        (Vertex.importable_insertBody v.vertex header) hWp rfl hk hpk hparent
        (by split <;> split <;> rfl) (by split <;> split <;> rfl) (by split <;> split <;> rfl)
        (by split <;> split <;> rfl) (by split <;> split <;> simp)
  | special s => exact hc
  | unknown => exact hc

theorem updateBody_consistent {f : Forest I H J} (hb : f.Bounded) (hc : f.Consistent)
    (header : H) : (f.updateBody header).2.Consistent := by
  rcases updateBody_cases f header with h | h | ⟨p, u, g, hp, hu, hpar, h⟩ <;> rw [h]
  · exact hc
  · exact updateHeader_consistent laws hb hc header none false
  · have hbg : g.Bounded := by simpa only [hu] using hb.updateHeader header none false
    have hcg : g.Consistent := by
      simpa only [hu] using updateHeader_consistent laws hb hc header none false
    refine markImported_consistent laws hbg hcg rfl hp (headerAt_updateHeader hb hu)
      (fun w hw => ?_)
    rcases hpar with hpar | ⟨v, hpv, hvi⟩
    · -- the root is no vertex
      have hpr := (specialState_highestFinalized g p).mp ((get_eq_special g p _).mp hpar)
      exact absurd (hpr ▸ mem_of_lookup hw) hbg.root_not_mem
    · rw [((get_eq_candidate g p v).mp hpv).2] at hw
      cases hw
      exact hvi

theorem insertJustificationAt_consistent {f : Forest I H J} (hb : f.Bounded)
    (hc : f.Consistent) {k p : BlockId} {j : J} (hk : Header.id (Justification.header j) = k)
    (hp : Header.parentId (Justification.header j) = some p) (hhk : f.HeaderAt k)
    (hpw : ∀ u, f.vertices.lookup p = some u → u.vertex.Wanted) (holder : Option I) :
    (f.insertJustificationAt k p j holder).2.Consistent := by
  unfold insertJustificationAt
  cases hg : f.get k with
  | candidate v =>
    obtain ⟨-, hv⟩ := (get_eq_candidate f k v).mp hg
    have hvh := hhk v hv
    have hd := hb.describes k v hv
    have hvp : v.vertex.parent = some p := (hd.parent_of_id laws hvh hk).trans hp
    have hpk : p ≠ k := fun h => by
      have := hd.parent_number laws hvp
      rw [h] at this
      omega
    dsimp only
    have hsame := Vertex.same_insertJustification v.vertex j holder hvh hvp
    have hwant := Vertex.wanted_insertJustification v.vertex p j holder
    have s₁ := SameShape.setVertex hv (Reshape.of_vertex (k := k) v hsame (fun _ => hwant))
    -- the block is now wanted, and its parent was required just before
    have hc₁ : (f.setVertex k { v with vertex := v.vertex.insertJustification p j holder }).Consistent := by
      refine ⟨hc.shaped.sameShape s₁, hc.linked.sameShape s₁,
        hc.required.setVertex_edge hv (fun _ => hwant) (fun p' u u' hu _ hup hu' => ?_)⟩
      rw [lookup_setVertex_self] at hu
      cases hu
      rw [hsame.parent, hvp] at hup
      cases hup
      rw [lookup_setVertex_ne _ _ _ hpk] at hu'
      exact hpw u' hu'
    exact consistent_tryUpdateHighestJustified (consistent_insertJustifiedIf hc₁ _ _ _) _
  | special s => exact hc
  | unknown => exact hc

theorem updateJustification_consistent {f : Forest I H J} (hb : f.Bounded) (hc : f.Consistent)
    (j : J) (holder : Option I) : (f.updateJustification j holder).2.Consistent := by
  rcases updateJustification_cases f j holder with h | h | ⟨p, u, g, hp, hu, h⟩ <;> rw [h]
  · exact hc
  · exact updateHeader_consistent laws hb hc _ none false
  · have hbg : g.Bounded := by
      simpa only [hu] using hb.updateHeader (Justification.header j) none false
    have hcg : g.Consistent := by
      simpa only [hu] using updateHeader_consistent laws hb hc (Justification.header j) none false
    have s := sameShape_setRequiredWith (p.number + 1) g p
    have hc₁ : (g.setRequired p).Consistent :=
      ⟨hcg.shaped.sameShape s, hcg.linked.sameShape s,
        requiredBut_setRequired laws hbg hcg.required (fun c hc => absurd hc List.not_mem_nil)⟩
    refine insertJustificationAt_consistent laws (hbg.setRequired p) hc₁ rfl hp
      ((headerAt_updateHeader hb hu).sameShape s) (fun w hw => ?_) holder
    -- `set_required p` left `p` wanted, if it is a vertex
    cases hgp : g.get p with
    | candidate q => exact wanted_setRequiredWith p.number hgp hw
    | special st =>
      have hn := hbg.lookup_of_special (k := p) (by rw [(get_eq_special g p st).mp hgp]; simp)
      exact absurd ((s.mem p).mp (mem_of_lookup hw)) (AList.lookup_eq_none.mp hn)
    | unknown =>
      exact absurd ((s.mem p).mp (mem_of_lookup hw))
        (AList.lookup_eq_none.mp ((get_eq_unknown g p).mp hgp).2)

end Laws

end Selendra.Sync.Forest
