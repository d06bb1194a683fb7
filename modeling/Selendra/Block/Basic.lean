import Mathlib

/-! # Blocks, headers and justifications

`BlockId` and the `Header` and `Justification` traits of `block/mod.rs`, over which the
sync subsystem is generic, and the Substrate header that instantiates them
(`block/substrate/mod.rs`). Block numbers are `u32` in the code; nothing modelled here
comes near its limit, so they are `Nat`; block hashes (`H256`) are `Nat` too, as only
their equality matters. -/

namespace Selendra

/-- The identifier of a block, the least amount of knowledge we can have about it. -/
structure BlockId where
  hash : Nat
  number : Nat
deriving DecidableEq, Repr

/-- A block is its hash at its height. -/
theorem BlockId.eq_of_hash_number {a b : BlockId} (hh : a.hash = b.hash)
    (hn : a.number = b.number) : a = b := by
  cases a
  cases b
  simp only [BlockId.mk.injEq]
  exact ⟨hh, hn⟩

/-- The header of a block, containing information about the parent relation. -/
class Header (H : Type) where
  id : H → BlockId
  parentId : H → Option BlockId

/-- A header as it comes over the network, before verification: only its id is read. -/
class UnverifiedHeader (UH : Type) where
  id : UH → BlockId

/-- The headers modelled here are their own unverified version (`type Unverified = Self`, as
for the Substrate and mock headers). -/
instance (priority := low) {H : Type} [Header H] : UnverifiedHeader H where
  id := Header.id

/-- A verified justification of a block, including its header. -/
class Justification (J : Type) (H : outParam Type) where
  header : J → H

/-- The Substrate header as far as the traits read it; `hash` is the hash Substrate
computes over the header's encoding. -/
structure SubstrateHeader where
  hash : Nat
  number : Nat
  parentHash : Nat
deriving DecidableEq, Repr

/-- `parent_id` is `number.checked_sub(1)` with the parent hash: the genesis header has none. -/
instance : Header SubstrateHeader where
  id h := ⟨h.hash, h.number⟩
  parentId h := if h.number = 0 then none else some ⟨h.parentHash, h.number - 1⟩

/-- `InnerJustification`: a committee justification, or the virtual one of the genesis
block; the committee justification is a parameter here. -/
inductive InnerJustification (A : Type) where
  | alephJustification (justification : A)
  | genesis
deriving DecidableEq, Repr

/-- The Substrate justification: a justification with the header it justifies. -/
structure SubstrateJustification (H A : Type) where
  header : H
  innerJustification : InnerJustification A
deriving DecidableEq, Repr

instance {H A : Type} : Justification (SubstrateJustification H A) H where
  header j := j.header

/-- What the code relies on about the headers it is given: the parent is one block
lower (the Substrate implementation above), and a block hash identifies its header, so
two headers with one id name one parent (the collision resistance of Substrate's hash,
which `BlockId` being "the identifier of a block" takes for granted). -/
structure HeaderLaws (H : Type) [Header H] : Prop where
  parent_number : ∀ (h : H) p, Header.parentId h = some p → p.number + 1 = (Header.id h).number
  parent_determined : ∀ h h' : H, Header.id h = Header.id h' → Header.parentId h = Header.parentId h'

theorem SubstrateHeader.parent_number (h : SubstrateHeader) (p : BlockId)
    (hp : Header.parentId h = some p) : p.number + 1 = (Header.id h).number := by
  simp only [Header.parentId] at hp
  split at hp
  · cases hp
  · rename_i hn
    cases hp
    exact Nat.sub_add_cancel (Nat.pos_of_ne_zero hn)

/-- The headers of one chain, block `n` having hash `n`, as the `MockHeader`s of one
`random_branch` from the genesis are up to the hash values; they keep the laws. -/
structure ChainHeader where
  number : Nat
deriving DecidableEq, Repr

instance : Header ChainHeader where
  id h := ⟨h.number, h.number⟩
  parentId h := if h.number = 0 then none else some ⟨h.number - 1, h.number - 1⟩

theorem ChainHeader.headerLaws : HeaderLaws ChainHeader where
  parent_number h p hp := by
    simp only [Header.parentId] at hp
    split at hp
    · cases hp
    · cases hp
      simp only [Header.id]
      omega
  parent_determined h h' hid := by
    simp only [Header.id, BlockId.mk.injEq] at hid
    simp only [Header.parentId, hid.2]

end Selendra
