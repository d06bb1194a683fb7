import Selendra.Block.Basic

/-! # What the data availability check knows of the chain

`data_io/chain_info.rs`. The trait `ChainInfoProvider` answers four queries about the chain.
`SubstrateChainInfoProvider` asks the client, seen here through the `HeaderBackend` trait of
`block/mod.rs`. `CachedChainInfoProvider` puts caches in front of another provider. Its LRU
caches are not modelled: each holds an answer the inner provider gave before, which is the
answer it gives now as long as the chain only grows, the setting of `Extends` below. What
is modelled is its one check of its own: no finalized block above the highest finalized one.
`AuxFinalizationChainInfoProvider` also counts as finalized the blocks below a block the
consensus has decided, found by walking down parent links.

`Extends c c'` says that `c'` reports a later state of the chain than `c`: every block
imported in `c` is imported in `c'` with the same parent, and the finalized chain of `c` is
a prefix of that of `c'`. -/

namespace Selendra.DataIo

/-- The four queries; the code's `Result<_, ()>` is `Option`. -/
class ChainInfoProvider (C : Type) where
  isBlockImported : C → BlockId → Bool
  getFinalizedAt : C → Nat → Option BlockId
  getParentHash : C → BlockId → Option Nat
  getHighestFinalized : C → BlockId

open ChainInfoProvider

/-- The client's answers at one moment, through the `HeaderBackend` trait; `E` is its error
type. -/
structure HeaderBackend (H E : Type) where
  header : BlockId → Except E (Option H)
  headerOfFinalizedAt : Nat → Except E (Option H)
  topFinalizedId : BlockId

structure SubstrateChainInfoProvider (H E : Type) where
  client : HeaderBackend H E

namespace SubstrateChainInfoProvider

variable {H E : Type} [Header H] (c : SubstrateChainInfoProvider H E)

def isBlockImported (block : BlockId) : Bool :=
  match c.client.header block with
  | .ok maybeHeader => maybeHeader.isSome
  | .error _ => false

def getFinalizedAt (number : Nat) : Option BlockId :=
  match c.client.headerOfFinalizedAt number with
  | .ok (some header) => some (Header.id header)
  | _ => none

def getParentHash (block : BlockId) : Option Nat :=
  match c.client.header block with
  | .ok (some header) => (Header.parentId header).map BlockId.hash
  | _ => none

def getHighestFinalized : BlockId := c.client.topFinalizedId

instance : ChainInfoProvider (SubstrateChainInfoProvider H E) where
  isBlockImported := isBlockImported
  getFinalizedAt := getFinalizedAt
  getParentHash := getParentHash
  getHighestFinalized := getHighestFinalized

end SubstrateChainInfoProvider

structure CachedChainInfoProvider (C : Type) where
  chainInfoProvider : C

namespace CachedChainInfoProvider

variable {C : Type} [ChainInfoProvider C] (c : CachedChainInfoProvider C)

/-- A number above the highest finalized block has no finalized block, whatever the inner
provider says. -/
def getFinalizedAt (num : Nat) : Option BlockId :=
  if (ChainInfoProvider.getHighestFinalized c.chainInfoProvider).number < num then none
  else ChainInfoProvider.getFinalizedAt c.chainInfoProvider num

instance : ChainInfoProvider (CachedChainInfoProvider C) where
  isBlockImported c := ChainInfoProvider.isBlockImported c.chainInfoProvider
  getFinalizedAt := getFinalizedAt
  getParentHash c := ChainInfoProvider.getParentHash c.chainInfoProvider
  getHighestFinalized c := ChainInfoProvider.getHighestFinalized c.chainInfoProvider

end CachedChainInfoProvider

structure AuxFinalizationChainInfoProvider (C : Type) where
  auxFinalized : BlockId
  chainInfoProvider : C

namespace AuxFinalizationChainInfoProvider

variable {C : Type} [ChainInfoProvider C] (c : AuxFinalizationChainInfoProvider C)

def new (chainInfoProvider : C) (auxFinalized : BlockId) : AuxFinalizationChainInfoProvider C :=
  ⟨auxFinalized, chainInfoProvider⟩

def updateAuxFinalized (auxFinalized : BlockId) : AuxFinalizationChainInfoProvider C :=
  { c with auxFinalized := auxFinalized }

/-- The `while` loop of `get_finalized_at`: `steps` parent links down from `curr`, each one
block lower; the loop runs exactly the difference of the numbers. -/
def walkDown (inner : C) : Nat → BlockId → Option BlockId
  | 0, curr => some curr
  | steps + 1, curr =>
    match ChainInfoProvider.getParentHash inner curr with
    | none => none
    | some parentHash => walkDown inner steps ⟨parentHash, curr.number - 1⟩

def getFinalizedAt (num : Nat) : Option BlockId :=
  let highestFinalizedInner := ChainInfoProvider.getHighestFinalized c.chainInfoProvider
  if num ≤ highestFinalizedInner.number then
    ChainInfoProvider.getFinalizedAt c.chainInfoProvider num
  else if num > c.auxFinalized.number then none
  else walkDown c.chainInfoProvider (c.auxFinalized.number - num) c.auxFinalized

def getHighestFinalized : BlockId :=
  let highestFinalizedInner := ChainInfoProvider.getHighestFinalized c.chainInfoProvider
  if c.auxFinalized.number > highestFinalizedInner.number then c.auxFinalized
  else highestFinalizedInner

instance : ChainInfoProvider (AuxFinalizationChainInfoProvider C) where
  isBlockImported c := ChainInfoProvider.isBlockImported c.chainInfoProvider
  getFinalizedAt := getFinalizedAt
  getParentHash c := ChainInfoProvider.getParentHash c.chainInfoProvider
  getHighestFinalized := getHighestFinalized

end AuxFinalizationChainInfoProvider

/-- `c` reports no finalized block above its highest finalized one, as the client does and
`CachedChainInfoProvider` makes sure of. -/
def FinalizedBelowHighest {C : Type} [ChainInfoProvider C] (c : C) : Prop :=
  ∀ n b, getFinalizedAt c n = some b → n ≤ (getHighestFinalized c).number

theorem CachedChainInfoProvider.finalizedBelowHighest {C : Type} [ChainInfoProvider C]
    (c : CachedChainInfoProvider C) : FinalizedBelowHighest c := by
  intro n b h
  change CachedChainInfoProvider.getFinalizedAt c n = some b at h
  unfold CachedChainInfoProvider.getFinalizedAt at h
  split_ifs at h with hlt
  exact Nat.le_of_not_lt hlt

/-- The aux-finalized block only ever raises the highest finalized block. -/
theorem AuxFinalizationChainInfoProvider.highest_inner_le {C : Type} [ChainInfoProvider C]
    (c : AuxFinalizationChainInfoProvider C) :
    (ChainInfoProvider.getHighestFinalized c.chainInfoProvider).number ≤
      (ChainInfoProvider.getHighestFinalized c).number := by
  change _ ≤ (AuxFinalizationChainInfoProvider.getHighestFinalized c).number
  unfold AuxFinalizationChainInfoProvider.getHighestFinalized
  dsimp only
  split_ifs with h
  · exact Nat.le_of_lt h
  · exact Nat.le_refl _

/-- `c'` reports a later state of the chain than `c`. -/
structure Extends {C C' : Type} [ChainInfoProvider C] [ChainInfoProvider C'] (c : C) (c' : C') :
    Prop where
  imported : ∀ b, isBlockImported c b = true → isBlockImported c' b = true
  parent : ∀ b h, getParentHash c b = some h → getParentHash c' b = some h
  finalized : ∀ n b, getFinalizedAt c n = some b → getFinalizedAt c' n = some b
  highest : (getHighestFinalized c).number ≤ (getHighestFinalized c').number

namespace Extends

variable {C C' C'' : Type} [ChainInfoProvider C] [ChainInfoProvider C'] [ChainInfoProvider C'']

theorem refl (c : C) : Extends c c := ⟨fun _ h => h, fun _ _ h => h, fun _ _ h => h, Nat.le_refl _⟩

theorem trans {c : C} {c' : C'} {c'' : C''} (h : Extends c c') (h' : Extends c' c'') :
    Extends c c'' where
  imported b hb := h'.imported b (h.imported b hb)
  parent b p hb := h'.parent b p (h.parent b p hb)
  finalized n b hb := h'.finalized n b (h.finalized n b hb)
  highest := Nat.le_trans h.highest h'.highest

variable {c : C} {c' : C'}

/-- The cache answers no more than the provider behind it. -/
theorem cached_left (h : Extends c c') : Extends (CachedChainInfoProvider.mk c) c' where
  imported := h.imported
  parent := h.parent
  finalized n b hb := by
    change CachedChainInfoProvider.getFinalizedAt ⟨c⟩ n = some b at hb
    unfold CachedChainInfoProvider.getFinalizedAt at hb
    split_ifs at hb
    exact h.finalized n b hb
  highest := h.highest

/-- A later state seen through the cache is still later, as long as the earlier state
reports no finalized block above its highest. -/
theorem cached (h : Extends c c') (hc : FinalizedBelowHighest c) :
    Extends c (CachedChainInfoProvider.mk c') where
  imported := h.imported
  parent := h.parent
  finalized n b hb := by
    change CachedChainInfoProvider.getFinalizedAt ⟨c'⟩ n = some b
    unfold CachedChainInfoProvider.getFinalizedAt
    rw [if_neg (Nat.not_lt.mpr (Nat.le_trans (hc n b hb) h.highest))]
    exact h.finalized n b hb
  highest := h.highest

/-- The same for the aux-finalized layer: up to the highest block the provider behind it
finalized it answers as that provider, and above it it only adds finalized blocks. -/
theorem auxFinalization (h : Extends c c') (hc : FinalizedBelowHighest c)
    (auxFinalized : BlockId) : Extends c (AuxFinalizationChainInfoProvider.mk auxFinalized c') where
  imported := h.imported
  parent := h.parent
  finalized n b hb := by
    change AuxFinalizationChainInfoProvider.getFinalizedAt ⟨auxFinalized, c'⟩ n = some b
    unfold AuxFinalizationChainInfoProvider.getFinalizedAt
    rw [if_pos (Nat.le_trans (hc n b hb) h.highest)]
    exact h.finalized n b hb
  highest := Nat.le_trans h.highest (AuxFinalizationChainInfoProvider.highest_inner_le ⟨auxFinalized, c'⟩)

end Extends

end Selendra.DataIo
