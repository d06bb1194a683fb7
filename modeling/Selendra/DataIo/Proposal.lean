import Selendra.Block.Basic
import Selendra.Session.Basic
import Selendra.Collections.List

/-! # Proposals

`data_io/proposal.rs` and the data types of `data_io/mod.rs`. A node proposes a branch of
at most `MAX_DATA_BRANCH_LEN` blocks: the header of its top block and the hashes of the
blocks below it, the lowest first. `validate_bounds` checks the numbers that the rest of
the code subtracts from each other. A validated proposal carries those two bounds as fields,
so that `number_below_branch` and `number_bottom_block` are exact differences; the session
bounds it also checks depend on the session and are stated by `validateBounds_ok`. -/

namespace Selendra.DataIo

/-- The maximum number of blocks above the last finalized allowed in a proposal. -/
def maxDataBranchLen : Nat := 7

structure UnvalidatedAlephProposal (UH : Type) where
  head : UH
  tail : List Nat
deriving DecidableEq, Repr

/-- The data ordered by the Aleph consensus. -/
structure AlephData (UH : Type) where
  headProposal : UnvalidatedAlephProposal UH
deriving DecidableEq, Repr

/-- A network message of the consensus, as far as the data availability check reads it. -/
class AlephNetworkMessage (M : Type) (UH : outParam Type) where
  includedData : M → List (AlephData UH)

/-- `TestData` of `testing/data_store.rs`: a list of data is a message carrying it. -/
instance {UH : Type} : AlephNetworkMessage (List (AlephData UH)) UH := ⟨id⟩

inductive ValidationError where
  | branchTooLong (branchSize : Nat)
  | blockNumberOutOfBounds (branchSize blockNumber : Nat)
  | blockOutsideSessionBoundaries (sessionStart sessionEnd topBlock bottomBlock : Nat)
deriving DecidableEq, Repr

/-- A proposal that passed `validate_bounds`: at most `MAX_DATA_BRANCH_LEN` blocks, none of
them the genesis block. -/
structure AlephProposal (UH : Type) [UnverifiedHeader UH] where
  head : UH
  tail : List Nat
  branch_le : tail.length + 1 ≤ maxDataBranchLen
  branch_lt_number : tail.length + 1 ≤ (UnverifiedHeader.id head).number
deriving DecidableEq

variable {UH : Type} [UnverifiedHeader UH]

namespace UnvalidatedAlephProposal

def new (head : UH) (tail : List Nat) : UnvalidatedAlephProposal UH := ⟨head, tail⟩

/-- The highest block in the branch. -/
def topBlock (p : UnvalidatedAlephProposal UH) : BlockId := UnverifiedHeader.id p.head

def topNumber (p : UnvalidatedAlephProposal UH) : Nat := p.topBlock.number

def branchLen (p : UnvalidatedAlephProposal UH) : Nat := p.tail.length + 1

/-- The branch length is at most `MAX_DATA_BRANCH_LEN`, so the `usize` to `u32` conversions
of the code are exact here. -/
def validateBounds (p : UnvalidatedAlephProposal UH) (sessionBoundaries : SessionBoundaries) :
    Except ValidationError (AlephProposal UH) :=
  if hlen : p.branchLen > maxDataBranchLen then .error (.branchTooLong p.branchLen)
  else if hnum : p.topNumber < p.branchLen then
    -- this also excludes branches starting at the genesis block
    .error (.blockNumberOutOfBounds p.branchLen p.topNumber)
  else
    let bottomBlock := p.topNumber - (p.branchLen - 1)
    let topBlock := p.topNumber
    let sessionStart := sessionBoundaries.firstBlock
    let sessionEnd := sessionBoundaries.lastBlock
    if sessionStart > bottomBlock ∨ topBlock > sessionEnd then
      .error (.blockOutsideSessionBoundaries sessionStart sessionEnd topBlock bottomBlock)
    else .ok ⟨p.head, p.tail, Nat.le_of_not_gt hlen, Nat.le_of_not_gt hnum⟩

/-- What `validate_bounds` accepts: a short branch above the genesis block, all of it within
the session; the validated proposal is the same branch. -/
theorem validateBounds_ok {p : UnvalidatedAlephProposal UH} {sb : SessionBoundaries}
    {q : AlephProposal UH} :
    p.validateBounds sb = .ok q ↔
      p.branchLen ≤ maxDataBranchLen ∧ p.branchLen ≤ p.topNumber ∧
      sb.firstBlock ≤ p.topNumber - (p.branchLen - 1) ∧ p.topNumber ≤ sb.lastBlock ∧
      q.head = p.head ∧ q.tail = p.tail := by
  unfold validateBounds
  by_cases hlen : p.branchLen > maxDataBranchLen
  · simp only [hlen, dite_true, reduceCtorEq, false_iff]
    omega
  · by_cases hnum : p.topNumber < p.branchLen
    · simp only [hlen, hnum, dite_false, dite_true, reduceCtorEq, false_iff]
      omega
    · simp only [hlen, hnum, dite_false]
      split
      · simp only [reduceCtorEq, false_iff]
        omega
      · constructor
        · rintro ⟨⟩
          exact ⟨by omega, by omega, by omega, by omega, rfl, rfl⟩
        · rintro ⟨-, -, -, -, hh, ht⟩
          cases q
          cases hh
          cases ht
          rfl

end UnvalidatedAlephProposal

namespace AlephProposal

/-- The length of the branch. -/
def len (p : AlephProposal UH) : Nat := p.tail.length + 1

def topBlockHeader (p : AlephProposal UH) : UH := p.head

/-- The highest block in the branch. -/
def topBlock (p : AlephProposal UH) : BlockId := UnverifiedHeader.id p.topBlockHeader

def numberTopBlock (p : AlephProposal UH) : Nat := p.topBlock.number

/-- The number one below the lowest block in the branch. -/
def numberBelowBranch (p : AlephProposal UH) : Nat := p.numberTopBlock - p.len

/-- The number of the lowest block in the branch. -/
def numberBottomBlock (p : AlephProposal UH) : Nat := p.numberTopBlock - (p.len - 1)

/-- The lowest block in the branch. -/
def bottomBlock (p : AlephProposal UH) : BlockId :=
  match p.tail.head? with
  | some hash => ⟨hash, p.numberBottomBlock⟩
  | none => p.topBlock

/-- The block of the branch at a height. The code indexes the tail there, which would panic
past its end: `none` stands for that panic, `some none` for a height outside the branch. -/
def blockAtNum (p : AlephProposal UH) (num : Nat) : Option (Option BlockId) :=
  if num = p.numberTopBlock then some (some p.topBlock)
  else if p.numberBottomBlock ≤ num ∧ num < p.numberTopBlock then
    match p.tail[num - p.numberBottomBlock]? with
    | some hash => some (some ⟨hash, num⟩)
    | none => none
  else some none

/-- The blocks of the branch from `num` up: the whole branch if `num` is below it, none if
`num` is above it. -/
def blocksFromNum (p : AlephProposal UH) (num : Nat) : List BlockId :=
  let num := max num p.numberBottomBlock
  ((p.tail ++ [(UnverifiedHeader.id p.head).hash]).drop (num - p.numberBottomBlock)).mapIdx
    fun index hash => ⟨hash, num + index⟩

/-- The lowest block is one above the number below the branch. -/
theorem numberBelowBranch_add_one (p : AlephProposal UH) :
    p.numberBelowBranch + 1 = p.numberBottomBlock := by
  have := p.branch_lt_number
  simp only [numberBelowBranch, numberBottomBlock, numberTopBlock, topBlock, topBlockHeader,
    len] at *
  omega

/-- The branch spans the numbers from its bottom to its top block. -/
theorem numberBottomBlock_add_length (p : AlephProposal UH) :
    p.numberBottomBlock + p.tail.length = p.numberTopBlock := by
  have := p.branch_lt_number
  simp only [numberBottomBlock, numberTopBlock, topBlock, topBlockHeader, len] at *
  omega

/-- The ids of the branch from its bottom block up, as the code's comments describe them: the
hashes of the tail at consecutive heights from the bottom, then the top block. -/
def branchIds (p : AlephProposal UH) : List BlockId :=
  p.tail.mapIdx (fun index hash => ⟨hash, p.numberBottomBlock + index⟩) ++ [p.topBlock]

/-- The hashes of the branch numbered from its bottom are its ids. -/
theorem mapIdx_hashes (p : AlephProposal UH) :
    (p.tail ++ [(UnverifiedHeader.id p.head).hash]).mapIdx
      (fun index hash => (⟨hash, p.numberBottomBlock + index⟩ : BlockId)) = p.branchIds := by
  rw [List.mapIdx_append, branchIds]
  congr 1
  simp only [List.mapIdx_cons, List.mapIdx_nil, Nat.zero_add, numberBottomBlock_add_length]
  rfl

/-- `blocks_from_num` skips the blocks of the branch below `num`. -/
theorem blocksFromNum_eq_drop (p : AlephProposal UH) (num : Nat) :
    p.blocksFromNum num = p.branchIds.drop (num - p.numberBottomBlock) := by
  rw [← mapIdx_hashes, List.drop_mapIdx, blocksFromNum]
  -- from `max num bottom` up the index counts from `num - bottom`
  have hmax : max num p.numberBottomBlock - p.numberBottomBlock = num - p.numberBottomBlock := by
    omega
  rw [hmax]
  congr 1
  funext index hash
  rw [BlockId.mk.injEq]
  exact ⟨rfl, by omega⟩

/-- The heights of `blocks_from_num`: from `num`, or the bottom of the branch, to its top. -/
theorem map_number_blocksFromNum (p : AlephProposal UH) (num : Nat) :
    (p.blocksFromNum num).map BlockId.number =
      List.range' (max num p.numberBottomBlock) (p.numberTopBlock + 1 - max num p.numberBottomBlock) := by
  have hlen := p.numberBottomBlock_add_length
  apply List.ext_getElem
  · simp only [blocksFromNum, List.length_map, List.length_mapIdx, List.length_drop,
      List.length_append, List.length_singleton, List.length_range']
    omega
  · intro i h₁ h₂
    simp only [blocksFromNum, List.getElem_map, List.getElem_mapIdx, List.getElem_range',
      Nat.one_mul]

/-- The lowest block is the first id of the branch. -/
theorem head?_branchIds (p : AlephProposal UH) : p.branchIds.head? = some p.bottomBlock := by
  unfold branchIds bottomBlock
  cases p.tail with
  | nil => rfl
  | cons hash rest => simp [List.mapIdx_cons]

theorem blockAtNum_top (p : AlephProposal UH) :
    p.blockAtNum p.numberTopBlock = some (some p.topBlock) := by
  simp [blockAtNum]

/-- Below the top, `block_at_num` reads the tail; the index is within it. -/
theorem blockAtNum_tail (p : AlephProposal UH) {i : Nat} (hi : i < p.tail.length) :
    p.blockAtNum (p.numberBottomBlock + i) = some (some ⟨p.tail[i], p.numberBottomBlock + i⟩) := by
  have hlen := p.numberBottomBlock_add_length
  unfold blockAtNum
  rw [if_neg (by omega), if_pos ⟨by omega, by omega⟩, Nat.add_sub_cancel_left,
    List.getElem?_eq_getElem hi]

theorem blockAtNum_outside (p : AlephProposal UH) {num : Nat}
    (h : num < p.numberBottomBlock ∨ p.numberTopBlock < num) : p.blockAtNum num = some none := by
  have hlen := p.numberBottomBlock_add_length
  unfold blockAtNum
  rw [if_neg (by omega), if_neg (by omega)]

/-- `block_at_num` never panics: every height of the branch but the top indexes the tail. -/
theorem blockAtNum_ne_none (p : AlephProposal UH) (num : Nat) : p.blockAtNum num ≠ none := by
  have hlen := p.numberBottomBlock_add_length
  by_cases htop : num = p.numberTopBlock
  · rw [htop, blockAtNum_top]
    exact Option.some_ne_none _
  by_cases hin : p.numberBottomBlock ≤ num ∧ num < p.numberTopBlock
  · obtain ⟨i, rfl⟩ := Nat.exists_eq_add_of_le hin.1
    rw [blockAtNum_tail p (by omega)]
    exact Option.some_ne_none _
  · rw [blockAtNum_outside p (by omega)]
    exact Option.some_ne_none _

/-- Every id of the branch is the block `block_at_num` gives at its height. -/
theorem blockAtNum_of_mem_branchIds (p : AlephProposal UH) {b : BlockId} (hb : b ∈ p.branchIds) :
    p.blockAtNum b.number = some (some b) := by
  rw [branchIds, List.mem_append, List.mem_mapIdx, List.mem_singleton] at hb
  rcases hb with ⟨i, hi, rfl⟩ | rfl
  · exact p.blockAtNum_tail hi
  · exact p.blockAtNum_top

/-- What a validated proposal's accessors compute, whatever the proposer sent: the
subtractions of the heights are exact, `block_at_num` never indexes past the tail and is empty
outside the branch, and `blocks_from_num` lists the branch's ids from a height up, in order,
each the block `block_at_num` gives at its height. -/
theorem validateBounds_accessors (up : UnvalidatedAlephProposal UH) (sb : SessionBoundaries)
    (p : AlephProposal UH) (h : up.validateBounds sb = .ok p) :
    p.head = up.head ∧ p.tail = up.tail ∧
    p.len ≤ p.numberTopBlock ∧ p.numberBelowBranch + p.len = p.numberTopBlock ∧
    p.numberBottomBlock + (p.len - 1) = p.numberTopBlock ∧
    p.numberBelowBranch + 1 = p.numberBottomBlock ∧
    (∀ num, p.blockAtNum num ≠ none) ∧
    (∀ num, num < p.numberBottomBlock ∨ p.numberTopBlock < num → p.blockAtNum num = some none) ∧
    ∀ num, p.blocksFromNum num = p.branchIds.drop (num - p.numberBottomBlock) ∧
      (p.blocksFromNum num).map BlockId.number =
        List.range' (max num p.numberBottomBlock)
          (p.numberTopBlock + 1 - max num p.numberBottomBlock) ∧
      ∀ b ∈ p.blocksFromNum num, p.blockAtNum b.number = some (some b) := by
  obtain ⟨-, -, -, -, hhead, htail⟩ := UnvalidatedAlephProposal.validateBounds_ok.mp h
  have hlen := p.numberBottomBlock_add_length
  have hbelow := p.numberBelowBranch_add_one
  refine ⟨hhead, htail, by simp only [len]; omega, by simp only [len]; omega,
    by simp only [len]; omega, hbelow, p.blockAtNum_ne_none, fun _ h => p.blockAtNum_outside h,
    fun num => ⟨p.blocksFromNum_eq_drop num, p.map_number_blocksFromNum num, ?_⟩⟩
  intro b hb
  rw [blocksFromNum_eq_drop] at hb
  exact p.blockAtNum_of_mem_branchIds (List.mem_of_mem_drop hb)

/-- A branch of blocks 1 to 3 in the session of blocks 0 to 10. -/
theorem validateBounds_accessors_sample :
    (UnvalidatedAlephProposal.new (⟨5, 3, 0⟩ : SubstrateHeader) [1, 2]).validateBounds ⟨0, 10⟩ =
      .ok ⟨⟨5, 3, 0⟩, [1, 2], by decide, by decide⟩ ∧
    ∀ num, (⟨⟨5, 3, 0⟩, [1, 2], by decide, by decide⟩ : AlephProposal SubstrateHeader).blockAtNum
      num ≠ none := by
  have h : (UnvalidatedAlephProposal.new (⟨5, 3, 0⟩ : SubstrateHeader) [1, 2]).validateBounds
      ⟨0, 10⟩ = .ok ⟨⟨5, 3, 0⟩, [1, 2], by decide, by decide⟩ := by decide
  exact ⟨h, (validateBounds_accessors _ _ _ h).2.2.2.2.2.2.1⟩

end AlephProposal

inductive PendingProposalStatus where
  | pendingTopBlock
  | topBlockImportedButIncorrectBranch
  | topBlockImportedButNotFinalizedAncestor
deriving DecidableEq, Repr

inductive ProposalStatus where
  | finalize (blocks : List BlockId)
  | ignore
  | pending (status : PendingProposalStatus)
deriving DecidableEq, Repr

/-- The statuses on which the data store lets a proposal through, the arm
`Finalize(_) | Ignore` of its matches. -/
def ProposalStatus.isAvailable : ProposalStatus → Bool
  | .finalize _ => true
  | .ignore => true
  | .pending _ => false

@[simp] theorem ProposalStatus.isAvailable_pending (s : PendingProposalStatus) :
    (ProposalStatus.pending s).isAvailable = false := rfl

end Selendra.DataIo
