import Selendra.DataIo.Proposal
import Selendra.DataIo.ChainInfo

/-! # The status of a proposal

`get_proposal_status` of `data_io/status_provider.rs` and the three chain checks it makes.
A proposal is to be ignored once its top block is finalized or a block of its branch
conflicts with a finalized one (a hopeless fork); it is to be finalized once its top block is
imported, its branch is a chain of parent links, and the block below it is finalized; until
then it is pending, for one of three reasons. The previous status saves repeating the checks
already passed, and the header is verified only the first time. -/

namespace Selendra.DataIo

variable {C UH : Type} [ChainInfoProvider C] [UnverifiedHeader UH]

open ChainInfoProvider

/-- The loop of `is_hopeless_fork` from the `i`-th block of the branch on: a conflict with
a finalized block makes the fork hopeless, an unknown finalized block ends the search. -/
def hopelessFrom (chainInfoProvider : C) (bottomNum : Nat) : Nat → List BlockId → Bool
  | _, [] => false
  | i, id :: ids =>
    match getFinalizedAt chainInfoProvider (bottomNum + i) with
    | some finalizedBlock =>
      if finalizedBlock.hash ≠ id.hash then true
      else hopelessFrom chainInfoProvider bottomNum (i + 1) ids
    | none => false

def isHopelessFork (chainInfoProvider : C) (proposal : AlephProposal UH) : Bool :=
  let bottomNum := proposal.numberBottomBlock
  hopelessFrom chainInfoProvider bottomNum 0 (proposal.blocksFromNum bottomNum)

def isAncestorFinalized (chainInfoProvider : C) (proposal : AlephProposal UH) : Bool :=
  match getParentHash chainInfoProvider proposal.bottomBlock with
  | none => false
  | some parentHash =>
    match getFinalizedAt chainInfoProvider proposal.numberBelowBranch with
    | none => false
    | some finalized => parentHash == finalized.hash

/-- The subsequent blocks of the branch are in the parent-child relation. -/
def isBranchAncestryCorrect (chainInfoProvider : C) (proposal : AlephProposal UH) : Bool :=
  let bottomNum := proposal.numberBottomBlock
  ((proposal.blocksFromNum bottomNum).zip (proposal.blocksFromNum (bottomNum + 1))).all
    fun (parent, current) =>
      match getParentHash chainInfoProvider current with
      | some parentHash => parentHash == parent.hash
      | none => false

/-- The status a proposal seen for the first time starts from: an incorrect header is
equivalent to a broken branch, as the blocks it stands for may never be acquired. -/
def initialStatus (headerVerifier : UH → Bool) (proposal : AlephProposal UH) : ProposalStatus :=
  if headerVerifier proposal.topBlockHeader then .pending .pendingTopBlock
  else .pending .topBlockImportedButIncorrectBranch

/-- The final `match` of `get_proposal_status`: the checks still to pass from the old
status. -/
def nextStatus (chainInfoProvider : C) (proposal : AlephProposal UH)
    (currentHighestFinalized : Nat) : ProposalStatus → ProposalStatus
  | .pending .pendingTopBlock =>
    if isBlockImported chainInfoProvider proposal.topBlock then
      -- an imported top block also has the number the proposal claims
      if isBranchAncestryCorrect chainInfoProvider proposal then
        if isAncestorFinalized chainInfoProvider proposal then
          .finalize (proposal.blocksFromNum (currentHighestFinalized + 1))
        else .pending .topBlockImportedButNotFinalizedAncestor
      else .pending .topBlockImportedButIncorrectBranch
    else .pending .pendingTopBlock
  | .pending .topBlockImportedButNotFinalizedAncestor =>
    if isAncestorFinalized chainInfoProvider proposal then
      .finalize (proposal.blocksFromNum (currentHighestFinalized + 1))
    else .pending .topBlockImportedButNotFinalizedAncestor
  | .pending .topBlockImportedButIncorrectBranch => .pending .topBlockImportedButIncorrectBranch
  | status => status

/-- The header verifier is `headerVerifier`, its verdict on a header
(`verify_header(header, false).is_ok()`). -/
def getProposalStatus (chainInfoProvider : C) (headerVerifier : UH → Bool)
    (proposal : AlephProposal UH) (oldStatus : Option ProposalStatus) : ProposalStatus :=
  let currentHighestFinalized := (getHighestFinalized chainInfoProvider).number
  if currentHighestFinalized ≥ proposal.numberTopBlock then .ignore
  else if isHopelessFork chainInfoProvider proposal then .ignore
  else
    nextStatus chainInfoProvider proposal currentHighestFinalized
      (oldStatus.getD (initialStatus headerVerifier proposal))

/-! ## A growing chain

Every check that lets a proposal through stays passed at a later state of the chain, as a
finalized block, an imported block and a parent link are never taken back. A status reached
at earlier states therefore says what a fresh check at a later state finds (`Promises`): the
interpreter checks anew what the data store let through. -/

section Growth

variable {C' : Type} [ChainInfoProvider C'] {c : C} {c' : C'} {headerVerifier : UH → Bool}
  {p : AlephProposal UH}

theorem hopelessFrom_of_extends (hext : Extends c c') (bottomNum : Nat) :
    ∀ i ids, hopelessFrom c bottomNum i ids = true → hopelessFrom c' bottomNum i ids = true
  | _, [] => fun h => by simp [hopelessFrom] at h
  | i, id :: ids => fun h => by
    unfold hopelessFrom at h ⊢
    -- the block finalized at this height in `c` is the one `c'` reports
    cases hf : getFinalizedAt c (bottomNum + i) with
    | none => simp [hf] at h
    | some finalizedBlock =>
      rw [hf] at h
      rw [hext.finalized _ _ hf]
      dsimp only at h ⊢
      by_cases hne : finalizedBlock.hash ≠ id.hash
      · rw [if_pos hne]
      · rw [if_neg hne] at h ⊢
        exact hopelessFrom_of_extends hext bottomNum (i + 1) ids h

theorem isHopelessFork_of_extends (hext : Extends c c') (h : isHopelessFork c p = true) :
    isHopelessFork c' p = true :=
  hopelessFrom_of_extends hext _ 0 _ h

theorem isBranchAncestryCorrect_of_extends (hext : Extends c c')
    (h : isBranchAncestryCorrect c p = true) : isBranchAncestryCorrect c' p = true := by
  unfold isBranchAncestryCorrect at h ⊢
  rw [List.all_eq_true] at h ⊢
  rintro ⟨parent, current⟩ hmem
  have hlink := h (parent, current) hmem
  dsimp only at hlink ⊢
  cases hp : getParentHash c current with
  | none => simp [hp] at hlink
  | some parentHash =>
    rw [hp] at hlink
    rw [hext.parent _ _ hp]
    exact hlink

theorem isAncestorFinalized_of_extends (hext : Extends c c')
    (h : isAncestorFinalized c p = true) : isAncestorFinalized c' p = true := by
  unfold isAncestorFinalized at h ⊢
  cases hp : getParentHash c p.bottomBlock with
  | none => simp [hp] at h
  | some parentHash =>
    cases hf : getFinalizedAt c p.numberBelowBranch with
    | none => simp [hp, hf] at h
    | some finalized =>
      simp only [hp, hf] at h
      simp only [hext.parent _ _ hp, hext.finalized _ _ hf, h]

/-- A fresh check finds a proposal available once its header is correct and the three checks
of a top block pass, whatever the highest finalized block is. -/
theorem getProposalStatus_available_of_checks (hv : headerVerifier p.topBlockHeader = true)
    (himp : isBlockImported c' p.topBlock = true) (hbr : isBranchAncestryCorrect c' p = true)
    (hanc : isAncestorFinalized c' p = true) :
    (getProposalStatus c' headerVerifier p none).isAvailable = true := by
  unfold getProposalStatus
  dsimp only
  split_ifs
  · rfl
  · rfl
  · rw [Option.getD_none, initialStatus, if_pos hv]
    simp only [nextStatus, himp, hbr, hanc, if_true]
    rfl

/-- Once `c` ignores a proposal, whatever its old status, so does a fresh check at `c'`. -/
theorem getProposalStatus_available_of_ignored (hext : Extends c c')
    (h : (getHighestFinalized c).number ≥ p.numberTopBlock ∨ isHopelessFork c p = true) :
    (getProposalStatus c' headerVerifier p none).isAvailable = true := by
  unfold getProposalStatus
  dsimp only
  split_ifs with htop hhope
  · rfl
  · rfl
  · exfalso
    rcases h with h | h
    · exact htop (Nat.le_trans h hext.highest)
    · exact hhope (isHopelessFork_of_extends hext h)

/-- What a status found at earlier states of the chain promises for a fresh check at `c'`
with the same verifier: an available status stays available, a pending one keeps the checks
it has passed. -/
def Promises (c' : C') (headerVerifier : UH → Bool) (p : AlephProposal UH) :
    ProposalStatus → Prop
  | .pending .pendingTopBlock => headerVerifier p.topBlockHeader = true
  | .pending .topBlockImportedButNotFinalizedAncestor =>
    headerVerifier p.topBlockHeader = true ∧ isBlockImported c' p.topBlock = true ∧
      isBranchAncestryCorrect c' p = true
  | .pending .topBlockImportedButIncorrectBranch => True
  | _ => (getProposalStatus c' headerVerifier p none).isAvailable = true

omit [ChainInfoProvider C] in
theorem Promises.available {status : ProposalStatus} (h : Promises c' headerVerifier p status)
    (ha : status.isAvailable = true) :
    (getProposalStatus c' headerVerifier p none).isAvailable = true := by
  cases status with
  | finalize _ => exact h
  | ignore => exact h
  | pending _ => simp at ha

omit [ChainInfoProvider C] in
theorem promises_initialStatus : Promises c' headerVerifier p (initialStatus headerVerifier p) := by
  unfold initialStatus
  split_ifs with hv
  · exact hv
  · trivial

/-- One check at `c`: the checks a pending status passes there hold at `c'` as well. -/
theorem promises_nextStatus (hext : Extends c c') (n : Nat) :
    ∀ status, Promises c' headerVerifier p status →
      Promises c' headerVerifier p (nextStatus c p n status)
  | .pending .pendingTopBlock, hv => by
    simp only [nextStatus]
    split_ifs with himp hbr hanc
    · exact getProposalStatus_available_of_checks hv (hext.imported _ himp)
        (isBranchAncestryCorrect_of_extends hext hbr) (isAncestorFinalized_of_extends hext hanc)
    · exact ⟨hv, hext.imported _ himp, isBranchAncestryCorrect_of_extends hext hbr⟩
    · trivial
    · exact hv
  | .pending .topBlockImportedButNotFinalizedAncestor, ⟨hv, himp, hbr⟩ => by
    simp only [nextStatus]
    split_ifs with hanc
    · exact getProposalStatus_available_of_checks hv himp hbr
        (isAncestorFinalized_of_extends hext hanc)
    · exact ⟨hv, himp, hbr⟩
  | .pending .topBlockImportedButIncorrectBranch, h => h
  | .finalize _, h => h
  | .ignore, h => h

/-- A check at `c` from an old status that promised something at `c'` gives a status that
does too. -/
theorem promises_getProposalStatus (hext : Extends c c') (oldStatus : Option ProposalStatus)
    (hold : ∀ status ∈ oldStatus, Promises c' headerVerifier p status) :
    Promises c' headerVerifier p (getProposalStatus c headerVerifier p oldStatus) := by
  unfold getProposalStatus
  dsimp only
  split_ifs with htop hhope
  · exact getProposalStatus_available_of_ignored hext (.inl htop)
  · exact getProposalStatus_available_of_ignored hext (.inr hhope)
  · apply promises_nextStatus hext
    cases oldStatus with
    | none => exact promises_initialStatus
    | some status => exact hold status rfl

/-- Availability is monotone under the growth of the chain. -/
theorem getProposalStatus_available_of_extends (hext : Extends c c')
    (h : (getProposalStatus c headerVerifier p none).isAvailable = true) :
    (getProposalStatus c' headerVerifier p none).isAvailable = true :=
  (promises_getProposalStatus hext none fun _ hs => absurd hs (Option.not_mem_none _)).available h

end Growth

end Selendra.DataIo
