import Selendra.DataIo.DataStoreRelease

/-! # The data interpreter

`data_io/data_interpreter.rs`. `OrderedDataInterpreter` turns the data that the consensus
ordered into blocks to finalize: it checks the proposal of each data anew, on the client seen
through an aux-finalized layer (the blocks it finalized itself count as finalized before the
client catches up) and a cache, and sends the blocks of a `Finalize` status on. It panics on a
pending status; `none` stands for that panic here, as for the `expect`s of `new`.

The data store let a data through only once its checks had found the proposal available, on
the client at earlier moments. A finalized or imported block or a parent link is never taken
back, and the interpreter's two layers only add finalized blocks, so the fresh check finds the
proposal available as well: the interpreter never panics on data that came through the store
(`runEvents_dataFinalized_isSome`). -/

namespace Selendra.DataIo

open ChainInfoProvider

/-- `InterpretersChainInfoProvider<CIP>`. -/
abbrev InterpretersChainInfoProvider (C : Type) :=
  CachedChainInfoProvider (AuxFinalizationChainInfoProvider C)

/-- The interpreter; the blocks sent down `blocks_to_finalize_tx` are kept, oldest first. -/
structure OrderedDataInterpreter (C UH : Type) where
  chainInfoProvider : InterpretersChainInfoProvider C
  verifier : UH → Bool
  lastFinalizedByAleph : BlockId
  sessionBoundaries : SessionBoundaries
  blocksToFinalize : List BlockId

variable {C UH : Type} [ChainInfoProvider C] [UnverifiedHeader UH]

/-- The last block of the previous session, or the genesis block in session 0; `none` where
the code's `expect` panics. -/
def getLastBlockPrevSession (sessionBoundaries : SessionBoundaries) (chainInfo : C) :
    Option BlockId :=
  if sessionBoundaries.firstBlock > 0 then
    getFinalizedAt chainInfo (sessionBoundaries.firstBlock - 1)
  else getFinalizedAt chainInfo 0

namespace OrderedDataInterpreter

def new (chainInfo : C) (verifier : UH → Bool) (sessionBoundaries : SessionBoundaries) :
    Option (OrderedDataInterpreter C UH) := do
  let lastFinalizedByAleph ← getLastBlockPrevSession sessionBoundaries chainInfo
  let chainInfoProvider := AuxFinalizationChainInfoProvider.new chainInfo lastFinalizedByAleph
  return {
    chainInfoProvider := ⟨chainInfoProvider⟩
    verifier := verifier
    lastFinalizedByAleph := lastFinalizedByAleph
    sessionBoundaries := sessionBoundaries
    blocksToFinalize := [] }

/-- The client behind the interpreter's two layers. -/
def client (i : OrderedDataInterpreter C UH) : C :=
  i.chainInfoProvider.chainInfoProvider.chainInfoProvider

def setLastFinalized (i : OrderedDataInterpreter C UH) (block : BlockId) :
    OrderedDataInterpreter C UH :=
  { i with lastFinalizedByAleph := block }

/-- An unbounded send; it fails only on a closed channel, which the code logs. -/
def sendBlockToFinalize (i : OrderedDataInterpreter C UH) (block : BlockId) :
    OrderedDataInterpreter C UH :=
  { i with blocksToFinalize := i.blocksToFinalize ++ [block] }

/-- The blocks a data finalizes; `none` where the code panics, on a pending proposal. -/
def blocksToFinalizeFromData (i : OrderedDataInterpreter C UH) (newData : AlephData UH) :
    Option (List BlockId) :=
  match newData.headProposal.validateBounds i.sessionBoundaries with
  | .error _ => some []
  | .ok proposal =>
    match getProposalStatus i.chainInfoProvider i.verifier proposal none with
    | .finalize blocks => some blocks
    | .ignore => some []
    | .pending _ => none

/-- One round of the loop of `data_finalized`. -/
def finalizeBlock (i : OrderedDataInterpreter C UH) (block : BlockId) :
    OrderedDataInterpreter C UH :=
  let i := i.setLastFinalized block
  let i := { i with
    chainInfoProvider := ⟨i.chainInfoProvider.chainInfoProvider.updateAuxFinalized block⟩ }
  i.sendBlockToFinalize block

def dataFinalized (i : OrderedDataInterpreter C UH) (data : AlephData UH) :
    Option (OrderedDataInterpreter C UH) :=
  (i.blocksToFinalizeFromData data).map fun blocks => blocks.foldl finalizeBlock i

/-- The interpreter panics on a data exactly when the proposal validates and its fresh status
is pending. -/
theorem blocksToFinalizeFromData_isSome_iff (i : OrderedDataInterpreter C UH)
    (data : AlephData UH) :
    (i.blocksToFinalizeFromData data).isSome = true ↔
      ∀ p, data.headProposal.validateBounds i.sessionBoundaries = .ok p →
        (getProposalStatus i.chainInfoProvider i.verifier p none).isAvailable = true := by
  unfold blocksToFinalizeFromData
  cases hp : data.headProposal.validateBounds i.sessionBoundaries with
  | error _ => simp
  | ok p =>
    simp only [Except.ok.injEq, forall_eq']
    cases getProposalStatus i.chainInfoProvider i.verifier p none <;> rfl

omit [ChainInfoProvider C] [UnverifiedHeader UH] in
/-- Finalizing blocks changes neither the client nor what the checks read. -/
theorem foldl_finalizeBlock_reads :
    ∀ (blocks : List BlockId) (i : OrderedDataInterpreter C UH),
      (blocks.foldl finalizeBlock i).client = i.client ∧
        (blocks.foldl finalizeBlock i).verifier = i.verifier ∧
        (blocks.foldl finalizeBlock i).sessionBoundaries = i.sessionBoundaries
  | [], _ => ⟨rfl, rfl, rfl⟩
  | block :: blocks, i => foldl_finalizeBlock_reads blocks (i.finalizeBlock block)

end OrderedDataInterpreter

/-- The interpreter's provider over a later state of the client is later than the data store's
provider, whatever block it counts as aux-finalized: the store's cache reports no finalized
block above its highest, and there the aux-finalized layer answers as the client. -/
theorem Extends.interpreters {C' : Type} [ChainInfoProvider C'] {c : C} {c' : C'}
    (h : Extends c c') (auxFinalized : BlockId) :
    Extends (CachedChainInfoProvider.mk c)
      (CachedChainInfoProvider.mk (AuxFinalizationChainInfoProvider.mk auxFinalized c')) :=
  (h.cached_left.auxFinalization (CachedChainInfoProvider.finalizedBelowHighest _)
    auxFinalized).cached (CachedChainInfoProvider.finalizedBelowHighest _)

namespace DataStore

variable {C' M : Type} [ChainInfoProvider C']

/-- A status the checks of a run reached keeps its promise at a later state `c'` of the chain
than every state of the run, with the verifier of the run. -/
theorem Reached.promises {run : List (Env C UH × Event M)} {c' : C'} {headerVerifier : UH → Bool}
    (hrun : ∀ e ∈ run, Extends e.1.chainInfoProvider c' ∧ e.1.verifier = headerVerifier)
    {p : AlephProposal UH} {status : ProposalStatus} (h : Reached run p status) :
    Promises c' headerVerifier p status := by
  -- on the derivation of the status: each check starts from statuses already reached
  induction h with
  | check e oldStatus he _ ih =>
    obtain ⟨hext, hv⟩ := hrun e he
    rw [hv]
    exact promises_getProposalStatus hext oldStatus ih

/-- A proposal the run cleared is available to a fresh check at a later state. -/
theorem Cleared.available {run : List (Env C UH × Event M)} {c' : C'}
    {headerVerifier : UH → Bool}
    (hrun : ∀ e ∈ run, Extends e.1.chainInfoProvider c' ∧ e.1.verifier = headerVerifier)
    {p : AlephProposal UH} (hp : Cleared (Reached run) p) :
    (getProposalStatus c' headerVerifier p none).isAvailable = true := by
  obtain ⟨status, hreached, havailable⟩ := hp
  exact (hreached.promises hrun).available havailable

end DataStore

open DataStore OrderedDataInterpreter

section Interpret

variable {K M : Type} [ChainInfoProvider K] [DecidableEq UH]
  [LruCache.Ops (AlephProposal UH) ProposalStatus] [AlephNetworkMessage M UH]

/-- The interpreter reads, at a later state than every event of the store's run, the client the
store read, with the store's verifier. -/
def ReadsLater (run : List (Env (CachedChainInfoProvider C) UH × Event M))
    (i : OrderedDataInterpreter K UH) : Prop :=
  ∀ e ∈ run, Extends e.1.chainInfoProvider.chainInfoProvider i.client ∧ e.1.verifier = i.verifier

/-- One data of a message the store sent: the interpreter does not panic on it. -/
theorem runEvents_blocksToFinalizeFromData_isSome (topFinalizedId : BlockId)
    (config : DataStoreConfig) {run : List (Env (CachedChainInfoProvider C) UH × Event M)}
    {i : OrderedDataInterpreter K UH} (hrun : ReadsLater run i) {message : M}
    (hm : message ∈
      ((new i.sessionBoundaries topFinalizedId config : DataStore UH M).runEvents run).messagesForAleph)
    {data : AlephData UH} (hd : data ∈ AlephNetworkMessage.includedData message) :
    (i.blocksToFinalizeFromData data).isSome = true := by
  have h := history_runEvents i.sessionBoundaries topFinalizedId config run
  rw [blocksToFinalizeFromData_isSome_iff]
  intro p hp
  -- the store sent the message once `p` had an available status
  have hcleared : Cleared (Reached run) p :=
    h.released.sent message hm p ⟨data, hd, by rw [h.sessionBoundaries]; exact hp⟩
  refine hcleared.available fun e he => ⟨?_, (hrun e he).2⟩
  exact (hrun e he).1.interpreters _

/-- Every data of the messages the store sent, interpreted in order, finalizes without a
panic, provided the interpreter reads a later state of the client than the store did at every
event, with the same verifier and session. -/
theorem runEvents_dataFinalized_isSome (topFinalizedId : BlockId) (config : DataStoreConfig)
    (run : List (Env (CachedChainInfoProvider C) UH × Event M))
    (i : OrderedDataInterpreter K UH) (hrun : ReadsLater run i) (datas : List (AlephData UH))
    (hdatas : ∀ data ∈ datas, ∃ message ∈
      ((new i.sessionBoundaries topFinalizedId config : DataStore UH M).runEvents run).messagesForAleph,
      data ∈ AlephNetworkMessage.includedData message) :
    (datas.foldlM dataFinalized i).isSome = true := by
  -- the invariant of the loop: the interpreter reads what it read at the start
  let P := fun i' : OrderedDataInterpreter K UH =>
    ReadsLater run i' ∧ i'.sessionBoundaries = i.sessionBoundaries
  have hstep : ∀ i', P i' → ∀ data ∈ datas, ∃ i'', i'.dataFinalized data = some i'' ∧ P i'' := by
    rintro i' ⟨hread, hsb⟩ data hd
    obtain ⟨message, hm, hdm⟩ := hdatas data hd
    rw [← hsb] at hm
    obtain ⟨blocks, hblocks⟩ := Option.isSome_iff_exists.mp
      (runEvents_blocksToFinalizeFromData_isSome topFinalizedId config hread hm hdm)
    obtain ⟨hclient, hverifier, hsb'⟩ := foldl_finalizeBlock_reads blocks i'
    refine ⟨blocks.foldl finalizeBlock i', by rw [dataFinalized, hblocks]; rfl, ?_, ?_⟩
    · intro e he
      rw [hclient, hverifier]
      exact hread e he
    · rw [hsb', hsb]
  obtain ⟨i', hi', -⟩ := Option.foldlM_inv P hstep ⟨hrun, rfl⟩
  rw [hi']
  rfl

/-- Availability is monotone under the growth of the chain: a proposal that a first check
finds `Finalize` or `Ignore` stays so at every later state. So the interpreter, which checks the
data anew on a later state of the client, never meets a pending proposal in the data that the
store let through. -/
theorem proposalStatus_available_monotone {A D : Type} [ChainInfoProvider A] [ChainInfoProvider D] :
    (∀ (c : A) (c' : D), Extends c c' → ∀ (headerVerifier : UH → Bool) (p : AlephProposal UH),
      (getProposalStatus c headerVerifier p none).isAvailable = true →
        (getProposalStatus c' headerVerifier p none).isAvailable = true) ∧
    (∀ (topFinalizedId : BlockId) (config : DataStoreConfig)
      (run : List (Env (CachedChainInfoProvider C) UH × Event M))
      (i : OrderedDataInterpreter K UH), ReadsLater run i →
      ∀ datas : List (AlephData UH), (∀ data ∈ datas, ∃ message ∈
        ((new i.sessionBoundaries topFinalizedId config : DataStore UH M).runEvents run).messagesForAleph,
        data ∈ AlephNetworkMessage.includedData message) →
      (datas.foldlM dataFinalized i).isSome = true) :=
  ⟨fun _ _ hext _ _ h => getProposalStatus_available_of_extends hext h,
    fun topFinalizedId config run i hrun datas hdatas =>
      runEvents_dataFinalized_isSome topFinalizedId config run i hrun datas hdatas⟩

end Interpret

section Sample

/-- A client whose chain is finalized up to block 5, with no header it can read. -/
def sampleClient : SubstrateChainInfoProvider SubstrateHeader Unit :=
  ⟨⟨fun _ => .ok none, fun _ => .ok none, ⟨0, 5⟩⟩⟩

/-- A data proposing block 1 alone, and its proposal. -/
def sampleData : AlephData SubstrateHeader := ⟨⟨⟨1, 1, 0⟩, []⟩⟩

def sampleProposal : AlephProposal SubstrateHeader := ⟨⟨1, 1, 0⟩, [], by decide, by decide⟩

/-- The store receives one message of that data, reading the client through its cache. -/
def sampleRun : List (Env (CachedChainInfoProvider (SubstrateChainInfoProvider SubstrateHeader Unit))
    SubstrateHeader × Event (List (AlephData SubstrateHeader))) :=
  [(⟨⟨sampleClient⟩, fun _ => true, 0⟩, .messageReceived [sampleData])]

def sampleInterpreter :
    OrderedDataInterpreter (SubstrateChainInfoProvider SubstrateHeader Unit) SubstrateHeader :=
  ⟨⟨⟨⟨0, 0⟩, sampleClient⟩⟩, fun _ => true, ⟨0, 0⟩, ⟨0, 10⟩, []⟩

theorem proposalStatus_available_monotone_sample :
    (getProposalStatus (CachedChainInfoProvider.mk sampleClient) (fun _ => true) sampleProposal
      none).isAvailable = true ∧
    (getProposalStatus sampleInterpreter.chainInfoProvider (fun _ => true) sampleProposal
      none).isAvailable = true ∧
    ReadsLater sampleRun sampleInterpreter ∧
    ((new sampleInterpreter.sessionBoundaries ⟨0, 5⟩ DataStoreConfig.default :
      DataStore SubstrateHeader (List (AlephData SubstrateHeader))).runEvents
        sampleRun).messagesForAleph = [[sampleData]] ∧
    ([sampleData].foldlM dataFinalized sampleInterpreter).isSome = true := by
  have havailable : (getProposalStatus (CachedChainInfoProvider.mk sampleClient) (fun _ => true)
      sampleProposal none).isAvailable = true := by decide
  have hread : ReadsLater sampleRun sampleInterpreter := by
    intro e he
    rw [sampleRun, List.mem_singleton] at he
    subst he
    exact ⟨Extends.refl _, rfl⟩
  have hsent : ((new sampleInterpreter.sessionBoundaries ⟨0, 5⟩ DataStoreConfig.default :
      DataStore SubstrateHeader (List (AlephData SubstrateHeader))).runEvents
        sampleRun).messagesForAleph = [[sampleData]] := by decide
  obtain ⟨hmonotone, hinterpret⟩ := proposalStatus_available_monotone
    (A := CachedChainInfoProvider (SubstrateChainInfoProvider SubstrateHeader Unit))
    (D := InterpretersChainInfoProvider (SubstrateChainInfoProvider SubstrateHeader Unit))
    (C := SubstrateChainInfoProvider SubstrateHeader Unit)
    (K := SubstrateChainInfoProvider SubstrateHeader Unit) (M := List (AlephData SubstrateHeader))
  refine ⟨havailable, hmonotone _ _ ((Extends.refl sampleClient).interpreters ⟨0, 0⟩) _ _
    havailable, hread, hsent, hinterpret ⟨0, 5⟩ DataStoreConfig.default _ _ hread _ ?_⟩
  intro data hd
  rw [List.mem_singleton] at hd
  subst hd
  exact ⟨[sampleData], by rw [hsent]; exact List.mem_singleton_self _, List.mem_singleton_self _⟩

end Sample

end Selendra.DataIo
