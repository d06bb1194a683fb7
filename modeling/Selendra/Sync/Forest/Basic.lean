import Selendra.Sync.Forest.Vertex
import Selendra.Collections.Map

/-! # The sync forest

`sync/forest/mod.rs`: the blocks above the last finalized one (the root) that sync knows
anything about, each a vertex with the set of its known children, together with the
caches of justified blocks and of imported leaves, the favourite block and the compost
bin of pruned blocks. Every mutating method returns its Rust result together with the
new forest; an error leaves whatever the method changed before it failed.

The two recursions of the code, `prune` down the children and `set_required` up the
parents, are bounded by fuel: `prune` gets one unit per vertex, which each removal uses
up, and `set_required` one per block number, which each step to a parent lowers
(`Describes.parent_number`). The modules that follow prove that the fuel never runs out. -/

namespace Selendra.Sync

set_option linter.unusedSectionVars false

variable {I H J : Type} [DecidableEq I] [LruCache.Ops I Unit] [Header H] [Justification J H]

inductive SpecialState where
  | hopelessFork
  | belowMinimal
  | highestFinalized
  | tooNew
deriving DecidableEq, Repr

/-- What can go wrong when inserting data into the forest. -/
inductive Error where
  | headerMissingParentId
  | incorrectParentState
  | incorrectVertexState
  | parentNotImported
  | tooNew
deriving DecidableEq, Repr

structure VertexWithChildren (I H J : Type) where
  vertex : Vertex I H J
  children : List BlockId

namespace VertexWithChildren

def new : VertexWithChildren I H J := ⟨Vertex.new, []⟩

def addChild (v : VertexWithChildren I H J) (child : BlockId) : VertexWithChildren I H J :=
  { v with children := v.children.insert child }

end VertexWithChildren

/-- How deep the forest can be: two sessions ahead. -/
def MAX_DEPTH : Nat := 1800

structure Forest (I H J : Type) where
  vertices : AList (fun _ : BlockId => VertexWithChildren I H J)
  highestJustified : H
  justifiedBlocks : AList (fun _ : Nat => BlockId)
  importedLeaves : AList (fun _ : BlockId => H)
  favourite : H
  root : H
  rootChildren : List BlockId
  compostBin : List BlockId

/-- `VertexHandle` (and `VertexHandleMut`, whose entries are written back with `setVertex`). -/
inductive VertexHandle (I H J : Type) where
  | special (state : SpecialState)
  | unknown
  | candidate (vertex : VertexWithChildren I H J)

namespace Forest

/-- The forest `Forest::new` builds from the top finalized header before it populates it
with `update_body` of the chain status' descendants. -/
def empty (topFinalized : H) : Forest I H J where
  vertices := ∅
  highestJustified := topFinalized
  justifiedBlocks := ∅
  importedLeaves := ∅
  favourite := topFinalized
  root := topFinalized
  rootChildren := []
  compostBin := []

def specialState (f : Forest I H J) (id : BlockId) : Option SpecialState :=
  if id = Header.id f.root then some .highestFinalized
  else if id.number ≤ (Header.id f.root).number then some .belowMinimal
  else if id.number > (Header.id f.root).number + MAX_DEPTH then some .tooNew
  else if id ∈ f.compostBin then some .hopelessFork
  else none

def get (f : Forest I H J) (id : BlockId) : VertexHandle I H J :=
  match f.specialState id with
  | some state => .special state
  | none =>
    match f.vertices.lookup id with
    | some vertex => .candidate vertex
    | none => .unknown

def setVertex (f : Forest I H J) (id : BlockId) (vertex : VertexWithChildren I H J) :
    Forest I H J :=
  { f with vertices := f.vertices.insert id vertex }

/-- `prune` with its recursion bounded by `fuel`. -/
def pruneWith : Nat → Forest I H J → BlockId → Forest I H J
  | 0, f, _ => f
  | fuel + 1, f, id =>
    match f.vertices.lookup id with
    | some vertex =>
      vertex.children.foldl (pruneWith fuel)
        { f with
          vertices := f.vertices.erase id
          importedLeaves := f.importedLeaves.erase id
          compostBin := f.compostBin.insert id }
    | none => f

/-- Removes the vertex and, recursively, its children, composting them. -/
def prune (f : Forest I H J) (id : BlockId) : Forest I H J :=
  pruneWith f.vertices.keys.length f id

/-- `set_required` with its recursion bounded by `fuel`. -/
def setRequiredWith : Nat → Forest I H J → BlockId → Forest I H J
  | 0, f, _ => f
  | fuel + 1, f, id =>
    match f.get id with
    | .candidate vertex =>
      match vertex.vertex.setRequired with
      | (true, v) =>
        let f := f.setVertex id { vertex with vertex := v }
        match v.parent with
        | some parentId => setRequiredWith fuel f parentId
        | none => f
      | (false, _) => f
    | _ => f

/-- Marks the vertex required and, while that changes anything, its ancestors. -/
def setRequired (f : Forest I H J) (id : BlockId) : Forest I H J :=
  setRequiredWith (id.number + 1) f id

def setExplicitlyRequired (f : Forest I H J) (id : BlockId) : Bool × Forest I H J :=
  match f.get id with
  | .candidate vertex =>
    match vertex.vertex.setExplicitlyRequired with
    | (true, v) =>
      let f := f.setVertex id { vertex with vertex := v }
      (true, match v.parent with
        | some parentId => f.setRequired parentId
        | none => f)
    | (false, _) => (false, f)
  | _ => (false, f)

def connectParent (f : Forest I H J) (id : BlockId) : Forest I H J :=
  match f.get id with
  | .candidate vertex =>
    let required := vertex.vertex.importable
    match vertex.vertex.parent with
    | some parentId =>
      match f.get parentId with
      | .unknown =>
        let f := f.setVertex parentId (VertexWithChildren.new.addChild id)
        if required then f.setRequired parentId else f
      | .special .highestFinalized => { f with rootChildren := f.rootChildren.insert id }
      | .candidate parent =>
        let f := f.setVertex parentId (parent.addChild id)
        if required then f.setRequired parentId else f
      | .special .hopelessFork | .special .belowMinimal => f.prune id
      -- should not happen
      | .special .tooNew => f
    | none => f
  | _ => f

def insertId (f : Forest I H J) (id : BlockId) (holder : Option I) :
    Except Error Unit × Forest I H J :=
  match f.specialState id with
  | some .tooNew => (.error .tooNew, f)
  | some _ => (.ok (), f)
  | none =>
    let vertex := (f.vertices.lookup id).getD VertexWithChildren.new
    (.ok (), f.setVertex id { vertex with vertex := vertex.vertex.addBlockHolder holder })

def processHeader (header : H) : Except Error (BlockId × BlockId) :=
  match Header.parentId header with
  | some parentId => .ok (Header.id header, parentId)
  | none => .error .headerMissingParentId

/-- The part of `update_header` after `insert_id`: the header written into the vertex,
which is then connected to its parent. Returns whether the header is new (`true` when
there is no vertex, as the code then leaves `new_above` alone). -/
def insertHeaderAt (f : Forest I H J) (id : BlockId) (header : H) (holder : Option I) :
    Bool × Forest I H J :=
  match f.get id with
  | .candidate vertex =>
    let inserted := vertex.vertex.insertHeader header holder
    (inserted.1, (f.setVertex id { vertex with vertex := inserted.2 }).connectParent id)
  | _ => (true, f)

/-- Returns, if `required` is set, whether the block became newly explicitly required,
and otherwise whether it is a new header with a number above the favourite block. -/
def updateHeader (f : Forest I H J) (header : H) (holder : Option I) (required : Bool) :
    Except Error Bool × Forest I H J :=
  match processHeader header with
  | .error e => (.error e, f)
  | .ok (id, _) =>
    let newAbove := decide ((Header.id f.favourite).number < id.number)
    match f.insertId id holder with
    | (.error e, f) => (.error e, f)
    | (.ok (), f) =>
      let inserted := f.insertHeaderAt id header holder
      if required then
        let explicit := inserted.2.setExplicitlyRequired id
        (.ok explicit.1, explicit.2)
      else (.ok (newAbove && inserted.1), inserted.2)

/-- The part of `update_body` after the parent check: the vertex marked imported, the
justified-block cache, the favourite and the imported leaves updated. -/
def markImported (f : Forest I H J) (id parentId : BlockId) (header : H) :
    Except Error Unit × Forest I H J :=
  match f.get id with
  | .candidate vertex =>
    let inserted := vertex.vertex.insertBody header
    let f := f.setVertex id { vertex with vertex := inserted.2 }
    let f :=
      if inserted.2.justifiedBlock then
        { f with justifiedBlocks := f.justifiedBlocks.insert id.number id }
      else f
    let f :=
      if inserted.1 then
        let f := if parentId = Header.id f.favourite then { f with favourite := header } else f
        { f with importedLeaves := (f.importedLeaves.erase parentId).insert id header }
      else f
    (.ok (), f)
  | _ => (.error .incorrectVertexState, f)

/-- Marks the block imported; fails unless its parent is imported or the root. -/
def updateBody (f : Forest I H J) (header : H) : Except Error Unit × Forest I H J :=
  match processHeader header with
  | .error e => (.error e, f)
  | .ok (id, parentId) =>
    match f.updateHeader header none false with
    | (.error e, f) => (.error e, f)
    | (.ok _, f) =>
      match f.get parentId with
      | .candidate parent =>
        if parent.vertex.imported then f.markImported id parentId header
        else (.error .parentNotImported, f)
      | .special .highestFinalized => f.markImported id parentId header
      | _ => (.error .incorrectParentState, f)

def tryUpdateHighestJustified (f : Forest I H J) (header : H) : Bool × Forest I H J :=
  if (Header.id f.highestJustified).number < (Header.id header).number then
    (true, { f with highestJustified := header })
  else (false, f)

/-- The last part of `update_justification`: the justification written into the vertex,
the justified-block cache and the highest justified header updated. -/
def insertJustificationAt (f : Forest I H J) (id parentId : BlockId) (justification : J)
    (holder : Option I) : Bool × Forest I H J :=
  match f.get id with
  | .candidate vertex =>
    let v := vertex.vertex.insertJustification parentId justification holder
    let f := f.setVertex id { vertex with vertex := v }
    let f :=
      if v.justifiedBlock then { f with justifiedBlocks := f.justifiedBlocks.insert id.number id }
      else f
    f.tryUpdateHighestJustified (Justification.header justification)
  | _ => (false, f)

/-- Returns whether the vertex became the new highest justified block. -/
def updateJustification (f : Forest I H J) (justification : J) (holder : Option I) :
    Except Error Bool × Forest I H J :=
  let header := Justification.header justification
  -- the genesis block
  if (Header.id header).number = 0 then (.ok false, f)
  else
    match processHeader header with
    | .error e => (.error e, f)
    | .ok (id, parentId) =>
      match f.updateHeader header none false with
      | (.error e, f) => (.error e, f)
      | (.ok _, f) =>
        let inserted := (f.setRequired parentId).insertJustificationAt id parentId justification holder
        (.ok inserted.1, inserted.2)

/-- Keeps a favourite that is the root or a vertex, otherwise takes the highest imported
leaf, or the root if there is none. -/
def pickFavourite (f : Forest I H J) : Forest I H J :=
  match f.get (Header.id f.favourite) with
  | .special .highestFinalized | .candidate _ => f
  | _ =>
    { f with
      favourite := ((f.importedLeaves.entries.maxByKey (fun e => e.1.number)).map (·.2)).getD
        f.root }

def pruneLevel (f : Forest I H J) (level : Nat) : Forest I H J :=
  let toPrune := f.vertices.keys.filter (·.number ≤ level)
  let f := toPrune.foldl prune f
  let f :=
    { f with
      compostBin := f.compostBin.filter (·.number > level)
      justifiedBlocks := f.justifiedBlocks.retain (fun k _ => k > level) }
  f.pickFavourite

def PANIC_CACHE_CORRUPTED : String :=
  "Block sync justified_blocks cache corrupted, please restart the Node and contact the developers"

/-- Attempts to finalize one block, returning its justification; the `panic!` of the code
is the error. -/
def tryFinalize (f : Forest I H J) (number : Nat) :
    Except String (Option J × Forest I H J) :=
  match f.justifiedBlocks.lookup number with
  | some id =>
    match f.vertices.lookup id with
    | some vertex =>
      match vertex.vertex.ready with
      | .ok justification =>
        let f :=
          { f with
            vertices := f.vertices.erase id
            root := Justification.header justification
            rootChildren := vertex.children }
        .ok (some justification, f.pruneLevel (Header.id f.root).number)
      | .error _ => .error PANIC_CACHE_CORRUPTED
    | none => .ok (none, f)
  | none => .ok (none, f)

/-- One call of a mutating method of `Forest`, errors included. -/
inductive Step : Forest I H J → Forest I H J → Prop
  | updateHeader (f : Forest I H J) (header : H) (holder : Option I) (required : Bool) :
      Step f (f.updateHeader header holder required).2
  | updateBody (f : Forest I H J) (header : H) : Step f (f.updateBody header).2
  | updateJustification (f : Forest I H J) (justification : J) (holder : Option I) :
      Step f (f.updateJustification justification holder).2
  | tryFinalize (f : Forest I H J) (number : Nat) (r : Option J × Forest I H J) :
      f.tryFinalize number = .ok r → Step f r.2

/-- The forests reachable from `Forest::new`: `new` itself only calls `update_body`. -/
inductive Reachable : Forest I H J → Prop
  | empty (topFinalized : H) : Reachable (empty topFinalized)
  | step {f f' : Forest I H J} : Reachable f → Step f f' → Reachable f'

end Forest

end Selendra.Sync

namespace Selendra.Sync.Forest

set_option linter.unusedSectionVars false

variable {I H J : Type} [DecidableEq I] [LruCache.Ops I Unit] [Header H] [Justification J H]

/-! ## The views of a forest after its elementary updates -/

section Lemmas

variable (f : Forest I H J) (id : BlockId) (v : VertexWithChildren I H J)

@[simp] theorem setVertex_vertices : (f.setVertex id v).vertices = f.vertices.insert id v := rfl
@[simp] theorem setVertex_root : (f.setVertex id v).root = f.root := rfl
@[simp] theorem setVertex_compostBin : (f.setVertex id v).compostBin = f.compostBin := rfl
@[simp] theorem setVertex_justifiedBlocks :
    (f.setVertex id v).justifiedBlocks = f.justifiedBlocks := rfl
@[simp] theorem setVertex_importedLeaves :
    (f.setVertex id v).importedLeaves = f.importedLeaves := rfl
@[simp] theorem setVertex_favourite : (f.setVertex id v).favourite = f.favourite := rfl
@[simp] theorem setVertex_rootChildren : (f.setVertex id v).rootChildren = f.rootChildren := rfl
@[simp] theorem setVertex_highestJustified :
    (f.setVertex id v).highestJustified = f.highestJustified := rfl

theorem lookup_setVertex_self : (f.setVertex id v).vertices.lookup id = some v := by
  simp

theorem lookup_setVertex_ne {k : BlockId} (h : k ≠ id) :
    (f.setVertex id v).vertices.lookup k = f.vertices.lookup k :=
  AList.lookup_insert_ne h

theorem specialState_eq_none : f.specialState id = none ↔
    (Header.id f.root).number < id.number ∧
      id.number ≤ (Header.id f.root).number + MAX_DEPTH ∧ id ∉ f.compostBin := by
  unfold specialState
  by_cases h₁ : id = Header.id f.root
  · subst h₁
    simp
  · by_cases h₂ : id.number ≤ (Header.id f.root).number
    · simp only [h₁, h₂, if_true, if_false, reduceCtorEq, false_iff]
      omega
    · by_cases h₃ : id.number > (Header.id f.root).number + MAX_DEPTH
      · simp only [h₁, h₂, h₃, if_true, if_false, reduceCtorEq, false_iff]
        omega
      · by_cases h₄ : id ∈ f.compostBin <;> simp [h₁, h₂, h₃, h₄]; omega

theorem specialState_highestFinalized :
    f.specialState id = some .highestFinalized ↔ id = Header.id f.root := by
  unfold specialState
  by_cases h₁ : id = Header.id f.root
  · simp [h₁]
  · simp only [h₁, if_false]
    split_ifs <;> simp

theorem specialState_tooNew (h : f.specialState id = some .tooNew) :
    (Header.id f.root).number + MAX_DEPTH < id.number := by
  unfold specialState at h
  split_ifs at h with h₁ h₂ h₃ <;> cases h
  omega

theorem get_eq_candidate : f.get id = .candidate v ↔
    f.specialState id = none ∧ f.vertices.lookup id = some v := by
  unfold get
  cases f.specialState id <;> cases f.vertices.lookup id <;> simp

theorem get_eq_unknown : f.get id = .unknown ↔
    f.specialState id = none ∧ f.vertices.lookup id = none := by
  unfold get
  cases f.specialState id <;> cases f.vertices.lookup id <;> simp

theorem get_eq_special (s : SpecialState) : f.get id = .special s ↔ f.specialState id = some s := by
  unfold get
  cases f.specialState id <;> cases f.vertices.lookup id <;> simp

/-- `pick_favourite` writes the favourite only. -/
theorem pickFavourite_eq : ∃ favourite, f.pickFavourite = { f with favourite := favourite } := by
  unfold pickFavourite
  split
  · exact ⟨f.favourite, rfl⟩
  · exact ⟨f.favourite, rfl⟩
  · exact ⟨_, rfl⟩

theorem pickFavourite_root : f.pickFavourite.root = f.root := by
  obtain ⟨favourite, h⟩ := pickFavourite_eq f
  rw [h]

theorem pickFavourite_vertices : f.pickFavourite.vertices = f.vertices := by
  obtain ⟨favourite, h⟩ := pickFavourite_eq f
  rw [h]

end Lemmas

/-! ## What each method can do

Each mutating method runs a few parts one after the other and stops at the first error.
These lemmas say once which states it can end in, so that no invariant proof unfolds the
methods again. -/

section Cases

variable (f : Forest I H J)

theorem updateHeader_cases (header : H) (holder : Option I) (required : Bool) :
    (f.updateHeader header holder required).2 = f ∨
    (f.updateHeader header holder required).2 = (f.insertId (Header.id header) holder).2 ∨
    ∃ p g, Header.parentId header = some p ∧ f.insertId (Header.id header) holder = (.ok (), g) ∧
      ((f.updateHeader header holder required).2 = (g.insertHeaderAt (Header.id header) header holder).2 ∨
       (f.updateHeader header holder required).2 =
        ((g.insertHeaderAt (Header.id header) header holder).2.setExplicitlyRequired
          (Header.id header)).2) := by
  unfold updateHeader processHeader
  cases hp : Header.parentId header with
  | none => exact Or.inl rfl
  | some p =>
    dsimp only
    cases hi : f.insertId (Header.id header) holder with
    | mk r g =>
      cases r with
      | error e => exact Or.inr (Or.inl rfl)
      | ok u =>
        cases u
        refine Or.inr (Or.inr ⟨p, g, rfl, rfl, ?_⟩)
        cases required
        · exact Or.inl rfl
        · exact Or.inr rfl

/-- What `update_header` did when it succeeded. -/
theorem updateHeader_ok {header : H} {holder : Option I} {required : Bool} {u : Bool}
    {g : Forest I H J} (h : f.updateHeader header holder required = (.ok u, g)) :
    ∃ p g₀, Header.parentId header = some p ∧ f.insertId (Header.id header) holder = (.ok (), g₀) ∧
      (g = (g₀.insertHeaderAt (Header.id header) header holder).2 ∨
       g = ((g₀.insertHeaderAt (Header.id header) header holder).2.setExplicitlyRequired
          (Header.id header)).2) := by
  unfold updateHeader processHeader at h
  cases hp : Header.parentId header with
  | none => simp [hp] at h
  | some p =>
    simp only [hp] at h
    cases hi : f.insertId (Header.id header) holder with
    | mk r g₀ =>
      rw [hi] at h
      cases r with
      | error e => simp at h
      | ok v =>
        cases v
        refine ⟨p, g₀, rfl, rfl, ?_⟩
        cases required
        · exact Or.inl (Prod.mk.inj h).2.symm
        · exact Or.inr (Prod.mk.inj h).2.symm

theorem updateBody_cases (header : H) :
    (f.updateBody header).2 = f ∨
    (f.updateBody header).2 = (f.updateHeader header none false).2 ∨
    ∃ p u g, Header.parentId header = some p ∧ f.updateHeader header none false = (.ok u, g) ∧
      (g.get p = .special .highestFinalized ∨
        ∃ v, g.get p = .candidate v ∧ v.vertex.imported = true) ∧
      (f.updateBody header).2 = (g.markImported (Header.id header) p header).2 := by
  unfold updateBody processHeader
  cases hp : Header.parentId header with
  | none => exact Or.inl rfl
  | some p =>
    dsimp only
    cases hu : f.updateHeader header none false with
    | mk r g =>
      cases r with
      | error e => exact Or.inr (Or.inl rfl)
      | ok u =>
        dsimp only
        -- the parent check: an imported vertex or the root, otherwise an error
        cases hgp : g.get p with
        | candidate v =>
          dsimp only
          by_cases hv : v.vertex.imported = true
          · rw [if_pos hv]
            exact Or.inr (Or.inr ⟨p, u, g, rfl, rfl, Or.inr ⟨v, hgp, hv⟩, rfl⟩)
          · rw [if_neg hv]
            exact Or.inr (Or.inl rfl)
        | special s =>
          cases s with
          | highestFinalized => exact Or.inr (Or.inr ⟨p, u, g, rfl, rfl, Or.inl hgp, rfl⟩)
          | _ => exact Or.inr (Or.inl rfl)
        | unknown => exact Or.inr (Or.inl rfl)

theorem updateJustification_cases (justification : J) (holder : Option I) :
    (f.updateJustification justification holder).2 = f ∨
    (f.updateJustification justification holder).2 =
      (f.updateHeader (Justification.header justification) none false).2 ∨
    ∃ p u g, Header.parentId (Justification.header justification) = some p ∧
      f.updateHeader (Justification.header justification) none false = (.ok u, g) ∧
      (f.updateJustification justification holder).2 =
        ((g.setRequired p).insertJustificationAt (Header.id (Justification.header justification)) p
          justification holder).2 := by
  unfold updateJustification
  dsimp only
  split
  · exact Or.inl rfl
  · unfold processHeader
    cases hp : Header.parentId (Justification.header justification) with
    | none => exact Or.inl rfl
    | some p =>
      dsimp only
      cases hu : f.updateHeader (Justification.header justification) none false with
      | mk r g =>
        cases r with
        | error e => exact Or.inr (Or.inl rfl)
        | ok u => exact Or.inr (Or.inr ⟨p, u, g, rfl, rfl, rfl⟩)

/-- What `try_finalize` did when it did not panic: nothing, or it made the header of the
ready vertex that the cache names at the number the root. -/
theorem tryFinalize_cases {number : Nat} {r : Option J × Forest I H J}
    (h : f.tryFinalize number = .ok r) :
    r = (none, f) ∨ ∃ id v j, f.justifiedBlocks.lookup number = some id ∧
      f.vertices.lookup id = some v ∧ v.vertex.ready = .ok j ∧
      r = (some j, Forest.pruneLevel
        { f with
          vertices := f.vertices.erase id
          root := Justification.header j
          rootChildren := v.children }
        (Header.id (Justification.header j)).number) := by
  unfold tryFinalize at h
  cases hj : f.justifiedBlocks.lookup number with
  | none =>
    simp only [hj, Except.ok.injEq] at h
    exact Or.inl h.symm
  | some id =>
    cases hv : f.vertices.lookup id with
    | none =>
      simp only [hj, hv, Except.ok.injEq] at h
      exact Or.inl h.symm
    | some v =>
      cases hr : v.vertex.ready with
      | error w => simp only [hj, hv, hr, reduceCtorEq] at h
      | ok j =>
        simp only [hj, hv, hr, Except.ok.injEq] at h
        exact Or.inr ⟨id, v, j, rfl, hv, hr, h.symm⟩

/-- `try_finalize` that finalizes nothing changes nothing. -/
theorem tryFinalize_none {number : Nat} {g : Forest I H J}
    (h : f.tryFinalize number = .ok (none, g)) : g = f := by
  rcases tryFinalize_cases f h with h | ⟨id, v, j, -, -, -, h⟩
  · exact (Prod.mk.inj h).2
  · cases h

end Cases

end Selendra.Sync.Forest
