import Selendra.Sync.Forest.Knowledge

/-! # What else the handler asks the forest, and where the root moves

The queries of `sync/forest/mod.rs` the sync handler makes besides a request's:
`importable`, `skippable` and `behind_finalization`.

No method of the forest moves its root but `try_finalize`, which makes the header of the block
it finalizes the root; in a bounded forest that block is a vertex, so above the old root. So
along every step of a bounded forest the root only goes up (`Step.root_le`), and a block
`try_finalize` hands out lies above the root it replaces (`tryFinalize_above_root`). -/

namespace Selendra.Sync.Forest

set_option linter.unusedSectionVars false

variable {I H J : Type} [DecidableEq I] [LruCache.Ops I Unit] [Header H] [Justification J H]

/-- Whether we would like to eventually import this block: a vertex we want, or a child of the
favourite block. -/
def importable (f : Forest I H J) (id : BlockId) : Bool :=
  match f.get id with
  | .candidate vertex =>
    vertex.vertex.importable || vertex.vertex.parent == some (Header.id f.favourite)
  | _ => false

/-- Whether a block can be left out of a response: it is finalized, or imported. -/
def skippable (f : Forest I H J) (id : BlockId) : Bool :=
  match f.get id with
  | .special .belowMinimal | .special .highestFinalized => true
  | .candidate vertex => vertex.vertex.imported
  | _ => false

/-- How far the highest justified block is above the root (`saturating_sub`). -/
def behindFinalization (f : Forest I H J) : Nat :=
  (Header.id f.highestJustified).number - (Header.id f.root).number

/-! ## The methods that keep the root -/

section Root

variable (f : Forest I H J) (id : BlockId)

theorem root_prune : (f.prune id).root = f.root := (prune_pruned f id).removed.root

theorem root_setRequiredWith : ∀ (n : Nat) (f : Forest I H J) (id : BlockId),
    (setRequiredWith n f id).root = f.root
  | 0, _, _ => rfl
  | n + 1, f, id => by
    unfold setRequiredWith
    cases f.get id with
    | candidate vertex =>
      dsimp only
      cases vertex.vertex.setRequired with
      | mk changed v =>
        cases changed with
        | false => rfl
        | true =>
          dsimp only
          cases v.parent with
          | none => rfl
          | some p => exact root_setRequiredWith n _ p
    | special s => rfl
    | unknown => rfl

theorem root_setRequired : (f.setRequired id).root = f.root := root_setRequiredWith _ f id

theorem root_setExplicitlyRequired : (f.setExplicitlyRequired id).2.root = f.root := by
  unfold setExplicitlyRequired
  cases f.get id with
  | candidate vertex =>
    dsimp only
    cases vertex.vertex.setExplicitlyRequired with
    | mk changed v =>
      cases changed with
      | false => rfl
      | true =>
        dsimp only
        cases v.parent with
        | none => rfl
        | some p => exact root_setRequired _ p
  | special s => rfl
  | unknown => rfl

theorem root_connectParent : (f.connectParent id).root = f.root := by
  unfold connectParent
  cases f.get id with
  | candidate vertex =>
    dsimp only
    cases vertex.vertex.parent with
    | none => rfl
    | some p =>
      dsimp only
      cases f.get p with
      | unknown =>
        dsimp only
        split
        · exact root_setRequired _ p
        · rfl
      | candidate parent =>
        dsimp only
        split
        · exact root_setRequired _ p
        · rfl
      | special s =>
        cases s with
        | highestFinalized => rfl
        | hopelessFork => exact root_prune f id
        | belowMinimal => exact root_prune f id
        | tooNew => rfl
  | special s => rfl
  | unknown => rfl

theorem root_insertId (holder : Option I) : (f.insertId id holder).2.root = f.root := by
  unfold insertId
  cases f.specialState id with
  | some s => cases s <;> rfl
  | none => rfl

theorem root_insertHeaderAt (header : H) (holder : Option I) :
    (f.insertHeaderAt id header holder).2.root = f.root := by
  unfold insertHeaderAt
  cases f.get id with
  | candidate vertex => exact root_connectParent _ id
  | special s => rfl
  | unknown => rfl

theorem root_updateHeader (header : H) (holder : Option I) (required : Bool) :
    (f.updateHeader header holder required).2.root = f.root := by
  rcases updateHeader_cases f header holder required with h | h | ⟨p, g, -, hi, h | h⟩ <;>
    rw [h]
  · exact root_insertId f _ holder
  all_goals
    have hg : g.root = f.root := by
      simpa only [hi] using root_insertId f (Header.id header) holder
  · rw [root_insertHeaderAt, hg]
  · rw [root_setExplicitlyRequired, root_insertHeaderAt, hg]

theorem root_markImported (parentId : BlockId) (header : H) :
    (f.markImported id parentId header).2.root = f.root := by
  unfold markImported
  cases f.get id with
  | candidate vertex =>
    dsimp only
    split <;> split <;> (try split) <;> rfl
  | special s => rfl
  | unknown => rfl

theorem root_updateBody (header : H) : (f.updateBody header).2.root = f.root := by
  rcases updateBody_cases f header with h | h | ⟨p, u, g, -, hu, -, h⟩ <;> rw [h]
  · exact root_updateHeader f header none false
  · have hg : g.root = f.root := by simpa only [hu] using root_updateHeader f header none false
    rw [root_markImported, hg]

theorem root_insertJustificationAt (parentId : BlockId) (justification : J) (holder : Option I) :
    (f.insertJustificationAt id parentId justification holder).2.root = f.root := by
  unfold insertJustificationAt tryUpdateHighestJustified
  cases f.get id with
  | candidate vertex =>
    dsimp only
    split <;> split <;> rfl
  | special s => rfl
  | unknown => rfl

theorem root_updateJustification (justification : J) (holder : Option I) :
    (f.updateJustification justification holder).2.root = f.root := by
  rcases updateJustification_cases f justification holder with h | h | ⟨p, u, g, -, hu, h⟩ <;>
    rw [h]
  · exact root_updateHeader f _ none false
  · have hg : g.root = f.root := by
      simpa only [hu] using root_updateHeader f (Justification.header justification) none false
    rw [root_insertJustificationAt, root_setRequired, hg]

end Root

/-! ## Finalization moves the root up -/

section Finalize

variable {f g : Forest I H J}

/-- A block `try_finalize` finalizes lies above the root, and becomes the root. -/
theorem tryFinalize_above_root (hb : f.Bounded) {number : Nat} {j : J}
    (h : f.tryFinalize number = .ok (some j, g)) :
    (Header.id f.root).number < (Header.id (Justification.header j)).number ∧
      g.root = Justification.header j := by
  obtain ⟨hroot, v, hv, -⟩ := tryFinalize_some hb h
  exact ⟨hb.above _ (mem_of_lookup hv), hroot⟩

/-- Along a step of a bounded forest the root never goes down. -/
theorem Step.root_le (hb : f.Bounded) (hs : Step f g) :
    (Header.id f.root).number ≤ (Header.id g.root).number := by
  cases hs with
  | updateHeader header holder required => rw [root_updateHeader]
  | updateBody header => rw [root_updateBody]
  | updateJustification justification holder => rw [root_updateJustification]
  | tryFinalize number r ht =>
    obtain ⟨j?, g⟩ := r
    cases j? with
    | none => rw [tryFinalize_none f ht]
    | some j =>
      obtain ⟨hlt, hroot⟩ := tryFinalize_above_root hb ht
      show _ ≤ (Header.id g.root).number
      rw [hroot]
      exact hlt.le

end Finalize

end Selendra.Sync.Forest
