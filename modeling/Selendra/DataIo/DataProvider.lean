import Selendra.DataIo.StatusProvider

/-! # What an honest node proposes

`data_io/data_provider.rs`. A node proposes the branch from one block above the highest
finalized block up to its best block in the session, cut to its lowest `MAX_DATA_BRANCH_LEN`
blocks: `get_proposal` walks down parent links from the best block and gives the highest block
kept as the head, and the hashes of the others, lowest first, as the tail. The client is a
`HeaderBackend`; the code's panics (`expect` and `assert!`) are `none` here, and so is a walk
that runs out of the fuel its height gives it, as it takes one step a height on a chain whose
parents are one block lower (`HeaderLaws`).

On such a chain the proposal of a best block above the finalized one passes
`validate_bounds`, and `get_proposal_status` finalizes exactly its blocks once they are
imported (`getProposal_honest`). -/

namespace Selendra.DataIo

variable {H E : Type} [Header H]

/-- The loop of `reduce_header_to_num`, for at most `fuel` rounds. -/
def reduceHeaderToNumLoop (client : HeaderBackend H E) (num : Nat) : Nat → H → Option H
  | 0, currHeader => if (Header.id currHeader).number > num then none else some currHeader
  | fuel + 1, currHeader =>
    if (Header.id currHeader).number > num then
      match Header.parentId currHeader with
      | none => none
      | some parent =>
        match client.header parent with
        | .ok (some header) => reduceHeaderToNumLoop client num fuel header
        | _ => none
    else some currHeader

/-- Reduce a header to the height `num`, by traversing down via parents. -/
def reduceHeaderToNum (client : HeaderBackend H E) (header : H) (num : Nat) : Option H :=
  if (Header.id header).number ≥ num then
    reduceHeaderToNumLoop client num (Header.id header).number header
  else none

/-- The parent of a block, if the client knows the block; `none` where the code panics, on an
error of the client. -/
def getParent (client : HeaderBackend H E) (block : BlockId) : Option (Option BlockId) :=
  if block.number = 0 then some none
  else
    match client.header block with
    | .ok (some header) => some (Header.parentId header)
    | .ok none => some none
    | .error _ => none

inductive ProposalPreparationError where
  | missingHeader
  | bestContradictsFinalized
deriving DecidableEq, Repr

/-- The `while` loop of `get_proposal`, for at most `fuel` rounds: down from `currBlock` to the
height of `finalizedBlock`, keeping the blocks at most `MAX_DATA_BRANCH_LEN` above it, in the
order met. -/
def getProposalLoop (client : HeaderBackend H E) (finalizedBlock : BlockId) :
    Nat → BlockId → List BlockId → Option (BlockId × List BlockId)
  | 0, currBlock, branch =>
    if currBlock.number > finalizedBlock.number then none else some (currBlock, branch)
  | fuel + 1, currBlock, branch =>
    if currBlock.number > finalizedBlock.number then
      let branch :=
        if currBlock.number - finalizedBlock.number ≤ maxDataBranchLen then branch ++ [currBlock]
        else branch
      match getParent client currBlock with
      | some (some parent) => getProposalLoop client finalizedBlock fuel parent branch
      | _ => none
    else some (currBlock, branch)

/-- The proposal of the branch from above `finalizedBlock` to `bestBlock`; `Ok(None)` when the
two are one block. -/
def getProposal (client : HeaderBackend H E) (bestBlock finalizedBlock : BlockId) :
    Option (Except ProposalPreparationError (Option (AlephData H))) := do
  let (currBlock, branch) ←
    getProposalLoop client finalizedBlock bestBlock.number bestBlock []
  if currBlock = finalizedBlock then
    match branch with
    | [] => return .ok none
    | headId :: rest =>
      match client.header headId with
      | .ok (some head) =>
        return .ok (some ⟨UnvalidatedAlephProposal.new head (rest.reverse.map BlockId.hash)⟩)
      | _ => return .error .missingHeader
  else return .error .bestContradictsFinalized

/-! ## Chains of headers -/

/-- `hs` are the headers the client holds from `b` down to `f`, `f` excluded, each a child of
the next. -/
inductive Descends (client : HeaderBackend H E) : BlockId → BlockId → List H → Prop
  | here (f : BlockId) : Descends client f f []
  | parent {p f : BlockId} {rest : List H} (h : H)
      (hb : client.header (Header.id h) = .ok (some h)) (hp : Header.parentId h = some p)
      (hd : Descends client p f rest) : Descends client (Header.id h) f (h :: rest)

namespace Descends

variable {client : HeaderBackend H E} {b f : BlockId} {hs : List H}

theorem header (hd : Descends client b f hs) : ∀ h ∈ hs, client.header (Header.id h) = .ok (some h) := by
  induction hd with
  | here => intro h hh; exact absurd hh List.not_mem_nil
  | parent h hb _ _ ih =>
    intro h' hh'
    rcases List.mem_cons.mp hh' with rfl | hh'
    · exact hb
    · exact ih h' hh'

/-- What is left of a chain below its top blocks is a chain. -/
theorem drop (hd : Descends client b f hs) : ∀ k, ∃ b', Descends client b' f (hs.drop k) := by
  induction hd with
  | here f => exact fun _ => ⟨f, by rw [List.drop_nil]; exact .here f⟩
  | parent h hb hp hd ih =>
    intro k
    cases k with
    | zero => exact ⟨_, .parent h hb hp hd⟩
    | succ k => exact ih k

theorem top_eq {h : H} {rest : List H} (hd : Descends client b f (h :: rest)) : b = Header.id h := by
  cases hd
  rfl

variable (laws : HeaderLaws H)
include laws

/-- A chain is one block a height. -/
theorem number (hd : Descends client b f hs) : b.number = f.number + hs.length := by
  induction hd with
  | here => rfl
  | parent h _ hp _ ih =>
    have := laws.parent_number h _ hp
    simp only [List.length_cons]
    omega

/-- The `j`-th block of a chain from the top is `j` blocks below it. -/
theorem getElem_number (hd : Descends client b f hs) :
    ∀ j (hj : j < hs.length), (Header.id hs[j]).number = f.number + (hs.length - j) := by
  induction hd with
  | here => intro j hj; simp at hj
  | parent h _ hp hd ih =>
    intro j hj
    cases j with
    | zero =>
      have := laws.parent_number h _ hp
      have := hd.number laws
      simp only [List.getElem_cons_zero, List.length_cons]
      omega
    | succ j =>
      simp only [List.getElem_cons_succ, List.length_cons]
      rw [ih j (by simpa using hj)]
      omega

end Descends

namespace Descends

variable {client : HeaderBackend H E} {b f : BlockId} {hs : List H}

/-- Each block of a chain but the lowest is a child of the next. -/
theorem getElem_parent (hd : Descends client b f hs) :
    ∀ j (hj : j + 1 < hs.length), Header.parentId hs[j] = some (Header.id hs[j + 1]) := by
  induction hd with
  | here => intro j hj; simp at hj
  | @parent _ _ rest h _ hp hd ih =>
    intro j hj
    cases j with
    | zero =>
      cases rest with
      | nil => simp at hj
      | cons r rest =>
        simp only [List.getElem_cons_zero, List.getElem_cons_succ]
        rw [hp, hd.top_eq]
    | succ j =>
      simp only [List.getElem_cons_succ]
      exact ih j (by simpa using hj)

/-- The lowest block of a chain is a child of `f`. -/
theorem getElem_last_parent (hd : Descends client b f hs) (hj : 0 < hs.length) :
    Header.parentId hs[hs.length - 1] = some f := by
  induction hd with
  | here => simp at hj
  | @parent _ _ rest h _ hp hd ih =>
    cases rest with
    | nil =>
      cases hd
      exact hp
    | cons r rest =>
      simp only [List.length_cons, Nat.add_sub_cancel, List.getElem_cons_succ]
      exact ih (by simp)

end Descends

/-! ## The proposal of an honest node -/

section Honest

variable {client : HeaderBackend H E} (laws : HeaderLaws H)
include laws

/-- On a chain the loop of `get_proposal` walks down to `f`, one block a round, and keeps the
lowest `MAX_DATA_BRANCH_LEN` blocks, highest first. -/
theorem getProposalLoop_descends {b f : BlockId} {hs : List H} (hd : Descends client b f hs) :
    ∀ fuel branch, hs.length ≤ fuel →
      getProposalLoop client f fuel b branch =
        some (f, branch ++ (hs.drop (hs.length - maxDataBranchLen)).map Header.id) := by
  induction hd with
  | here f =>
    intro fuel branch _
    cases fuel <;> simp [getProposalLoop]
  | @parent p f rest h hb hp hd ih =>
    intro fuel branch hfuel
    obtain ⟨fuel, rfl⟩ : ∃ fuel', fuel = fuel' + 1 :=
      ⟨fuel - 1, by simp only [List.length_cons] at hfuel; omega⟩
    have hnum := laws.parent_number h p hp
    have hpnum := hd.number laws
    -- the block is above `f`, and the client gives its parent
    have hparent : getParent client (Header.id h) = some (some p) := by
      rw [getParent, if_neg (by omega), hb]
      exact congrArg some hp
    rw [getProposalLoop, if_pos (by omega)]
    simp only [hparent]
    rw [ih fuel _ (by simp only [List.length_cons] at hfuel; omega)]
    -- the block is kept exactly when it is among the lowest
    by_cases hlow : (Header.id h).number - f.number ≤ maxDataBranchLen
    · rw [if_pos hlow, List.length_cons, Nat.sub_eq_zero_of_le (by omega),
        Nat.sub_eq_zero_of_le (by omega)]
      simp
    · rw [if_neg hlow, List.length_cons,
        show rest.length + 1 - maxDataBranchLen = rest.length - maxDataBranchLen + 1 by omega,
        List.drop_succ_cons]

/-- The proposal of a best block on a chain above `f`: the highest of the lowest
`MAX_DATA_BRANCH_LEN` blocks as the head, the hashes of the others, lowest first, as the
tail. -/
theorem getProposal_descends {b f : BlockId} {hs : List H} (hd : Descends client b f hs)
    {hTop : H} {rest : List H} (hlow : hs.drop (hs.length - maxDataBranchLen) = hTop :: rest) :
    getProposal client b f = some (.ok (some
      ⟨UnvalidatedAlephProposal.new hTop ((rest.map Header.id).reverse.map BlockId.hash)⟩)) := by
  have hmem : hTop ∈ hs := List.mem_of_mem_drop (by rw [hlow]; exact List.mem_cons_self)
  have hhead := hd.header hTop hmem
  unfold getProposal
  rw [getProposalLoop_descends laws hd b.number [] (by rw [hd.number laws]; omega), hlow]
  simp [hhead]

end Honest

/-! ## The proposal of a short chain

The branch of at most `MAX_DATA_BRANCH_LEN` blocks above `f` that `get_proposal` proposes, read
back through the accessors of the validated proposal. -/

section Chain

variable {client : HeaderBackend H E} (laws : HeaderLaws H) {f : BlockId} {hTop : H}
  {rest : List H} (hc : Descends client (Header.id hTop) f (hTop :: rest))
  {p : AlephProposal H} (hhead : p.head = hTop)
  (htail : p.tail = (rest.map Header.id).reverse.map BlockId.hash)
include laws hc hhead

theorem numberTopBlock_of_descends : p.numberTopBlock = f.number + (rest.length + 1) := by
  rw [AlephProposal.numberTopBlock, AlephProposal.topBlock, AlephProposal.topBlockHeader, hhead]
  exact hc.number laws

include htail

theorem numberBottomBlock_of_descends : p.numberBottomBlock = f.number + 1 := by
  have htop := numberTopBlock_of_descends laws hc hhead
  have hlen : p.tail.length = rest.length := by simp [htail]
  simp only [AlephProposal.numberBottomBlock, AlephProposal.len, hlen, htop]
  omega

/-- The ids of the proposal are the blocks of the chain, from the bottom up. -/
theorem branchIds_of_descends : p.branchIds = ((hTop :: rest).map Header.id).reverse := by
  have hbottom := numberBottomBlock_of_descends laws hc hhead htail
  rw [AlephProposal.branchIds, List.map_cons, List.reverse_cons]
  congr 1
  · -- the `i`-th hash of the tail is the block `i + 1` above `f`
    apply List.ext_getElem
    · simp [htail]
    · intro i h₁ h₂
      have hi : i < rest.length := by simpa using h₂
      have hnum := hc.getElem_number laws (rest.length - 1 - i + 1) (by simp; omega)
      simp only [List.getElem_cons_succ, List.length_cons] at hnum
      simp only [List.getElem_mapIdx, htail, List.getElem_map, List.getElem_reverse,
        List.length_map, hbottom]
      rw [BlockId.mk.injEq]
      exact ⟨rfl, by rw [hnum]; omega⟩
  · rw [AlephProposal.topBlock, AlephProposal.topBlockHeader, hhead]
    rfl

/-- Each id of the proposal but the lowest has the one below it as its parent, at a state that
has the chain's blocks with their parents. -/
theorem getParentHash_branchIds {C : Type} [ChainInfoProvider C] (c : C)
    (hknown : ∀ h ∈ hTop :: rest,
      ChainInfoProvider.getParentHash c (Header.id h) = (Header.parentId h).map BlockId.hash) :
    ∀ j (hj : j + 1 < p.branchIds.length),
      ChainInfoProvider.getParentHash c p.branchIds[j + 1] = some p.branchIds[j].hash := by
  have hids := branchIds_of_descends laws hc hhead htail
  intro j hj
  have hj' : j + 1 < rest.length + 1 := by simpa [hids] using hj
  -- from the top, the block is the child of the one below it
  have hparent := hc.getElem_parent (rest.length - 1 - j) (by simp; omega)
  simp only [hids, List.getElem_reverse, List.getElem_map, List.length_map, List.length_cons]
  rw [hknown _ (List.getElem_mem _)]
  simp only [show rest.length + 1 - 1 - (j + 1) = rest.length - 1 - j by omega,
    show rest.length + 1 - 1 - j = rest.length - 1 - j + 1 by omega, hparent, Option.map_some]

/-- Once the chain's blocks are imported with their parents and `f` is the highest finalized
block, a fresh check of the proposal finalizes exactly its blocks. -/
theorem getProposalStatus_of_descends {C : Type} [ChainInfoProvider C] (c : C)
    (headerVerifier : H → Bool) (hv : headerVerifier hTop = true) (hbelow : FinalizedBelowHighest c)
    (hhigh : ChainInfoProvider.getHighestFinalized c = f)
    (hfin : ChainInfoProvider.getFinalizedAt c f.number = some f)
    (hknown : ∀ h ∈ hTop :: rest, ChainInfoProvider.isBlockImported c (Header.id h) = true ∧
      ChainInfoProvider.getParentHash c (Header.id h) = (Header.parentId h).map BlockId.hash) :
    getProposalStatus c headerVerifier p none = .finalize p.branchIds := by
  have htop := numberTopBlock_of_descends laws hc hhead
  have hbottom := numberBottomBlock_of_descends laws hc hhead htail
  have hids := branchIds_of_descends laws hc hhead htail
  have hall : p.blocksFromNum p.numberBottomBlock = p.branchIds := by
    rw [p.blocksFromNum_eq_drop, Nat.sub_self, List.drop_zero]
  obtain ⟨lowest, higher, hcons⟩ : ∃ lowest higher, p.branchIds = lowest :: higher :=
    List.exists_cons_of_ne_nil (by simp [hids])
  -- nothing above `f` is finalized, so the branch is no hopeless fork
  have hfork : isHopelessFork c p = false := by
    have hnone : ChainInfoProvider.getFinalizedAt c (p.numberBottomBlock + 0) = none := by
      cases h : ChainInfoProvider.getFinalizedAt c (p.numberBottomBlock + 0) with
      | none => rfl
      | some x =>
        have := hbelow _ x h
        rw [hhigh] at this
        omega
    simp only [isHopelessFork, hall, hcons, hopelessFrom, hnone]
  have hancestry : isBranchAncestryCorrect c p = true := by
    unfold isBranchAncestryCorrect
    dsimp only
    rw [hall, p.blocksFromNum_eq_drop, show p.numberBottomBlock + 1 - p.numberBottomBlock = 1 by omega,
      List.all_eq_true]
    intro x hx
    obtain ⟨j, hj, rfl⟩ := List.mem_iff_getElem.mp hx
    simp only [List.length_zip, List.length_drop] at hj
    simp only [List.getElem_zip, List.getElem_drop, Nat.add_comm 1 j]
    rw [getParentHash_branchIds laws hc hhead htail c (fun h hh => (hknown h hh).2) j (by omega)]
    exact beq_self_eq_true _
  have hancestor : isAncestorFinalized c p = true := by
    have hbelowBranch : p.numberBelowBranch = f.number := by
      have := p.numberBelowBranch_add_one
      omega
    have hlowest : p.bottomBlock = Header.id (hTop :: rest)[rest.length] := by
      have hfirst := p.head?_branchIds
      rw [hids, List.head?_reverse, List.getLast?_eq_getElem?] at hfirst
      simp only [List.length_map, List.length_cons, Nat.add_sub_cancel, List.getElem?_map,
        List.getElem?_eq_getElem (show rest.length < (hTop :: rest).length by simp),
        Option.map_some, Option.some.injEq] at hfirst
      exact hfirst.symm
    have hparent := hc.getElem_last_parent (by simp)
    simp only [List.length_cons, Nat.add_sub_cancel] at hparent
    unfold isAncestorFinalized
    rw [hlowest, (hknown _ (List.getElem_mem _)).2, hparent, Option.map_some, hbelowBranch, hfin]
    exact beq_self_eq_true _
  have himported : ChainInfoProvider.isBlockImported c p.topBlock = true := by
    rw [AlephProposal.topBlock, AlephProposal.topBlockHeader, hhead]
    exact (hknown hTop List.mem_cons_self).1
  unfold getProposalStatus
  rw [hhigh, if_neg (by omega), hfork, if_neg Bool.false_ne_true, Option.getD_none,
    initialStatus, AlephProposal.topBlockHeader, hhead, if_pos hv, nextStatus, if_pos himported,
    if_pos hancestry, if_pos hancestor, ← hbottom, hall]

end Chain

/-- Honest proposals are accepted. On a chain whose parents are one block lower, the proposal of
a best block `b` above the finalized block `f`, in the session, is the branch of the chain's
blocks from one above `f` to `min b (f + MAX_DATA_BRANCH_LEN)`. It passes `validate_bounds`, and
once its blocks are imported with their parents and `f` is the highest finalized block,
`get_proposal_status` finalizes exactly those blocks, from the bottom up. -/
theorem getProposal_honest {C : Type} [ChainInfoProvider C] (laws : HeaderLaws H)
    (client : HeaderBackend H E) (sessionBoundaries : SessionBoundaries) (b f : BlockId)
    (hs : List H) (hd : Descends client b f hs) (hlt : f.number < b.number)
    (hfirst : sessionBoundaries.firstBlock ≤ f.number + 1)
    (hlast : b.number ≤ sessionBoundaries.lastBlock) :
    ∃ p : AlephProposal H,
      getProposal client b f = some (.ok (some ⟨UnvalidatedAlephProposal.new p.head p.tail⟩)) ∧
      (UnvalidatedAlephProposal.new p.head p.tail).validateBounds sessionBoundaries = .ok p ∧
      p.numberBottomBlock = f.number + 1 ∧
      p.numberTopBlock = min b.number (f.number + maxDataBranchLen) ∧
      p.branchIds = ((hs.drop (hs.length - maxDataBranchLen)).map Header.id).reverse ∧
      ∀ (c : C) (headerVerifier : H → Bool), headerVerifier p.head = true →
        FinalizedBelowHighest c → ChainInfoProvider.getHighestFinalized c = f →
        ChainInfoProvider.getFinalizedAt c f.number = some f →
        (∀ h ∈ hs.drop (hs.length - maxDataBranchLen),
          ChainInfoProvider.isBlockImported c (Header.id h) = true ∧
          ChainInfoProvider.getParentHash c (Header.id h) = (Header.parentId h).map BlockId.hash) →
        getProposalStatus c headerVerifier p none = .finalize p.branchIds := by
  have hlen := hd.number laws
  -- the lowest blocks of the chain: at least one, at most `MAX_DATA_BRANCH_LEN`
  obtain ⟨hTop, rest, hlow⟩ : ∃ hTop rest, hs.drop (hs.length - maxDataBranchLen) = hTop :: rest :=
    List.exists_cons_of_ne_nil (by rw [ne_eq, List.drop_eq_nil_iff]; unfold maxDataBranchLen; omega)
  have hshort : rest.length + 1 = min hs.length maxDataBranchLen := by
    have := congrArg List.length hlow
    simp only [List.length_drop, List.length_cons] at this
    unfold maxDataBranchLen at this ⊢
    omega
  obtain ⟨b', hb'⟩ := hd.drop (hs.length - maxDataBranchLen)
  rw [hlow] at hb'
  have htop := hb'.top_eq
  subst htop
  have hnum := hb'.number laws
  simp only [List.length_cons] at hnum
  obtain ⟨p, hhead, htail⟩ : ∃ p : AlephProposal H,
      p.head = hTop ∧ p.tail = (rest.map Header.id).reverse.map BlockId.hash :=
    ⟨⟨hTop, (rest.map Header.id).reverse.map BlockId.hash,
      by simp only [List.length_map, List.length_reverse]; omega,
      by simp only [List.length_map, List.length_reverse]; exact hnum ▸ by omega⟩, rfl, rfl⟩
  have hbottom := numberBottomBlock_of_descends laws hb' hhead htail
  have htopNum : (UnverifiedHeader.id p.head).number = f.number + (rest.length + 1) :=
    numberTopBlock_of_descends laws hb' hhead
  have htailLen : p.tail.length = rest.length := by simp [htail]
  refine ⟨p, hhead ▸ htail ▸ getProposal_descends laws hd hlow, ?_, hbottom, by
    simp only [AlephProposal.numberTopBlock, AlephProposal.topBlock, AlephProposal.topBlockHeader]
    omega, ?_, ?_⟩
  · -- the branch is short, above the genesis block, and within the session
    refine UnvalidatedAlephProposal.validateBounds_ok.mpr ⟨?_, ?_, ?_, ?_, rfl, rfl⟩ <;>
      simp only [UnvalidatedAlephProposal.branchLen, UnvalidatedAlephProposal.topNumber,
        UnvalidatedAlephProposal.topBlock, UnvalidatedAlephProposal.new, htopNum, htailLen] <;>
      omega
  · rw [branchIds_of_descends laws hb' hhead htail, hlow]
  · intro c headerVerifier hv hbelow hhigh hfin hknown
    rw [hlow] at hknown
    exact getProposalStatus_of_descends laws hb' hhead htail c headerVerifier (hhead ▸ hv) hbelow
      hhigh hfin hknown

/-- The client holding the one chain of `ChainHeader`s from the genesis to `top`, finalized up
to `fin`. -/
def lineClient (top fin : Nat) : HeaderBackend ChainHeader Unit where
  header id := .ok (if id.hash = id.number ∧ id.number ≤ top then some ⟨id.number⟩ else none)
  headerOfFinalizedAt n := .ok (if n ≤ fin then some ⟨n⟩ else none)
  topFinalizedId := ⟨fin, fin⟩

theorem lineClient_finalizedBelowHighest (top fin : Nat) :
    FinalizedBelowHighest (SubstrateChainInfoProvider.mk (lineClient top fin)) := by
  intro n b h
  change SubstrateChainInfoProvider.getFinalizedAt _ n = some b at h
  simp only [SubstrateChainInfoProvider.getFinalizedAt, lineClient] at h
  split_ifs at h with hn
  exact hn

/-- The best block 3 over the genesis, in the session of blocks 0 to 10. -/
theorem getProposal_honest_on_line :
    HeaderLaws ChainHeader ∧ Descends (lineClient 3 0) ⟨3, 3⟩ ⟨0, 0⟩ [⟨3⟩, ⟨2⟩, ⟨1⟩] ∧
    ∃ p : AlephProposal ChainHeader,
      (UnvalidatedAlephProposal.new p.head p.tail).validateBounds ⟨0, 10⟩ = .ok p ∧
      getProposalStatus (SubstrateChainInfoProvider.mk (lineClient 3 0)) (fun _ => true) p none =
        .finalize p.branchIds := by
  have hd : Descends (lineClient 3 0) ⟨3, 3⟩ ⟨0, 0⟩ [⟨3⟩, ⟨2⟩, ⟨1⟩] :=
    .parent (⟨3⟩ : ChainHeader) rfl rfl
      (.parent (⟨2⟩ : ChainHeader) rfl rfl (.parent (⟨1⟩ : ChainHeader) rfl rfl (.here _)))
  obtain ⟨p, -, hvalid, -, -, -, hstatus⟩ :=
    getProposal_honest (C := SubstrateChainInfoProvider ChainHeader Unit) ChainHeader.headerLaws
      (lineClient 3 0) ⟨0, 10⟩ ⟨3, 3⟩ ⟨0, 0⟩ _ hd (by decide) (by decide) (by decide)
  exact ⟨ChainHeader.headerLaws, hd, p, hvalid,
    hstatus _ _ rfl (lineClient_finalizedBelowHighest 3 0) rfl rfl (by decide)⟩

end Selendra.DataIo
