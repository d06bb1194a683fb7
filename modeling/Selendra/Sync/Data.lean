import Selendra.Block.ChainStatus

/-! # The messages of the sync protocol

The parts of `sync/data.rs` the request handler reads and writes: the state a node
broadcasts, the request it sends and the items of a response. A justification travels in
its unverified form; the model does not tell the two apart, as the code reads only the
header of either. -/

namespace Selendra.Sync

/-- Additional information about the branch connecting the top finalized block with a
given one. -/
inductive BranchKnowledge where
  /-- The id of the oldest known ancestor if none of them are imported. -/
  | lowestId (id : BlockId)
  /-- The id of the top imported ancestor if any of them is imported. -/
  | topImported (id : BlockId)
deriving DecidableEq, Repr

/-- One of the items of a response. -/
inductive ResponseItem (B J H : Type) where
  | justification (j : J)
  | header (h : H)
  | block (b : B)

/-- The state a node broadcasts. -/
structure State (J H : Type) where
  topJustification : J
  favouriteBlock : H

structure Request (J H : Type) where
  target : H
  branchKnowledge : BranchKnowledge
  state : State J H

end Selendra.Sync
