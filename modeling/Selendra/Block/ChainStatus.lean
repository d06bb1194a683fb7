import Selendra.Block.Basic

/-! # What the database knows about the chain

The `Block` trait and the `ChainStatus` trait of `block/mod.rs`, with the answers it gives:
`BlockStatus` and `FinalizationStatus`. A chain status is a record of the queries the sync
handler makes, each answering with a result or the chain status' own error. `Consistent`
says that a block asked for by id is the block of that id. -/

namespace Selendra

/-- A block; the sync code reads only its header. -/
class Block (B : Type) (H : outParam Type) where
  header : B → H

/-- The status of a block in the database. -/
inductive BlockStatus (J H : Type) where
  /-- The block is justified and thus finalized. -/
  | justified (j : J)
  /-- The block is present, might be finalized if a descendant is justified. -/
  | present (h : H)
  /-- The block is not known. -/
  | unknown

/-- The finalization status of a block. -/
inductive FinalizationStatus (J H : Type) where
  | finalizedWithJustification (j : J)
  | finalizedByDescendant (h : H)
  | notFinalized

/-- The queries of `ChainStatus` the request handler makes (`best_block` and `children`
are not among them). -/
structure ChainStatus (B J H E : Type) where
  statusOf : BlockId → Except E (BlockStatus J H)
  block : BlockId → Except E (Option B)
  finalizedAt : Nat → Except E (FinalizationStatus J H)
  topFinalized : Except E J

/-- Asked for a block by its id, the chain status answers with that block. -/
structure ChainStatus.Consistent {B J H E : Type} [Header H] [Justification J H] [Block B H]
    (cs : ChainStatus B J H E) : Prop where
  justified : ∀ id j, cs.statusOf id = .ok (.justified j) → Header.id (Justification.header j) = id
  present : ∀ id h, cs.statusOf id = .ok (.present h) → Header.id h = id
  block : ∀ id b, cs.block id = .ok (some b) → Header.id (Block.header b) = id

/-- The Substrate block as the sync code reads it: by its header. -/
structure SubstrateBlock (H : Type) where
  header : H

instance {H : Type} : Block (SubstrateBlock H) H where
  header b := b.header

/-- A chain status holding the one chain of blocks `0, …, top` of `ChainHeader`s, with the
genesis justified. -/
def ChainStatus.line (top : Nat) :
    ChainStatus (SubstrateBlock ChainHeader) (SubstrateJustification ChainHeader Unit)
      ChainHeader Unit where
  statusOf id := .ok (if id.hash = id.number ∧ id.number ≤ top then .present ⟨id.number⟩
    else .unknown)
  block id := .ok (if id.hash = id.number ∧ id.number ≤ top then some ⟨⟨id.number⟩⟩ else none)
  finalizedAt _ := .ok .notFinalized
  topFinalized := .ok ⟨⟨0⟩, .genesis⟩

theorem ChainStatus.line_consistent (top : Nat) : (ChainStatus.line top).Consistent where
  justified id j h := by
    simp only [ChainStatus.line, Except.ok.injEq] at h
    split_ifs at h
  present id h hs := by
    simp only [ChainStatus.line, Except.ok.injEq] at hs
    split_ifs at hs with hc
    cases hs
    obtain ⟨hash, number⟩ := id
    simp only at hc
    simp [Header.id, hc.1]
  block id b hb := by
    simp only [ChainStatus.line, Except.ok.injEq] at hb
    split_ifs at hb with hc
    cases hb
    obtain ⟨hash, number⟩ := id
    simp only at hc
    simp [Header.id, Block.header, hc.1]

end Selendra
