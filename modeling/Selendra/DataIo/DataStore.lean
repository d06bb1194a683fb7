import Selendra.DataIo.StatusProvider
import Selendra.Collections.HashSet
import Selendra.Collections.Lru

/-! # The data store

`DataStore` of `data_io/data_store.rs`, the data availability proxy in front of the
consensus. A message from the network is passed on (to `messages_for_aleph`) once every
proposal in it is available: to be finalized or ignored, as `get_proposal_status` says.
Until then the message waits under a fresh id, and the store keeps the dependencies from
both ends: each pending message lists the proposals it waits for, and each pending proposal
the messages waiting for it. Chain events bump the proposals registered for them, and when
a proposal becomes available it is removed from every message waiting for it, releasing
those that wait for nothing more. Pruning drops the oldest messages while the store holds
more than its limits.

Each method is a function of the state. What the store reads from outside during an event
(its chain info provider, its header verifier, the clock) is an `Env`, given anew at every
event: the chain may change between any two events. Time is in milliseconds. The block
requester's requests are kept as the list of headers requested, the logs are left out. -/

namespace Selendra.DataIo

/-- A `u64` counter; it would take 2^64 messages to wrap. -/
abbrev MessageId := Nat

inductive ChainEvent where
  | imported (id : BlockId)
  | finalized (number : Nat)
deriving DecidableEq, Repr

structure PendingProposalInfo where
  /-- Which messages are held because of this proposal. -/
  messages : HashSet MessageId
  /-- When a message with this proposal was first seen. -/
  firstOccurrence : Nat
  status : ProposalStatus

def PendingProposalInfo.new (status : ProposalStatus) (now : Nat) : PendingProposalInfo :=
  ⟨∅, now, status⟩

structure PendingMessageInfo (UH M : Type) [UnverifiedHeader UH] where
  message : M
  /-- The proposals the message still waits for. -/
  pendingProposals : HashSet (AlephProposal UH)

def PendingMessageInfo.new {UH M : Type} [UnverifiedHeader UH] (message : M) :
    PendingMessageInfo UH M :=
  ⟨message, ∅⟩

/-- The limits of the store; `periodic_maintenance_interval`, read only by the event loop's
timer, is left out. -/
structure DataStoreConfig where
  maxTriggersPending : Nat
  maxProposalsPending : Nat
  maxMessagesPending : Nat
  availableProposalsCacheCapacity : Nat
  availableProposalsCacheCapacity_pos : 0 < availableProposalsCacheCapacity
  /-- How long after a proposal is first seen its missing block is requested. -/
  requestBlockAfter : Nat

def DataStoreConfig.default : DataStoreConfig where
  maxTriggersPending := 80000
  maxProposalsPending := 80000
  maxMessagesPending := 40000
  availableProposalsCacheCapacity := 8000
  availableProposalsCacheCapacity_pos := by decide
  requestBlockAfter := 20000

/-- What the store reads from outside during one event. -/
structure Env (C UH : Type) where
  chainInfoProvider : C
  /-- The header verifier's verdict on a header. -/
  verifier : UH → Bool
  now : Nat

structure DataStore (UH M : Type) [UnverifiedHeader UH] where
  nextFreeId : MessageId
  pendingProposals : AList (fun _ : AlephProposal UH => PendingProposalInfo)
  eventTriggers : AList (fun _ : ChainEvent => HashSet (AlephProposal UH))
  /-- A `BTreeMap`: the message with the lowest id is the one pruned first. -/
  pendingMessages : AList (fun _ : MessageId => PendingMessageInfo UH M)
  availableProposalsCache : LruCache (AlephProposal UH) ProposalStatus
  numTriggersRegisteredSinceLastPruning : Nat
  highestFinalizedNum : Nat
  sessionBoundaries : SessionBoundaries
  config : DataStoreConfig
  /-- What was sent to the consensus, in order. -/
  messagesForAleph : List M
  /-- The headers whose blocks were requested, in order. -/
  requestedBlocks : List UH

namespace DataStore

variable {C UH M : Type} [ChainInfoProvider C] [UnverifiedHeader UH] [DecidableEq UH]
  [LruCache.Ops (AlephProposal UH) ProposalStatus]

open ChainInfoProvider

/-- The store `DataStore::new` builds; `topFinalizedId` is what the header backend gives as
its top finalized block. -/
def new (sessionBoundaries : SessionBoundaries) (topFinalizedId : BlockId)
    (config : DataStoreConfig) : DataStore UH M where
  nextFreeId := 0
  pendingProposals := ∅
  eventTriggers := ∅
  pendingMessages := ∅
  availableProposalsCache := LruCache.new config.availableProposalsCacheCapacity
  numTriggersRegisteredSinceLastPruning := 0
  highestFinalizedNum := topFinalizedId.number
  sessionBoundaries := sessionBoundaries
  config := config
  messagesForAleph := []
  requestedBlocks := []

section Methods

variable (env : Env C UH)

/-- The status of a proposal; only an available status (`Finalize(_) | Ignore`) is cached, as
a pending one may change. -/
def checkProposalAvailability (s : DataStore UH M) (proposal : AlephProposal UH)
    (oldStatus : Option ProposalStatus) : ProposalStatus × DataStore UH M :=
  match s.availableProposalsCache.get proposal with
  | (some status, cache) => (status, { s with availableProposalsCache := cache })
  | (none, cache) =>
    let status := getProposalStatus env.chainInfoProvider env.verifier proposal oldStatus
    if status.isAvailable then
      (status, { s with availableProposalsCache := cache.put proposal status })
    else (status, { s with availableProposalsCache := cache })

/-- `event_triggers.entry(event).or_default().insert(proposal)`. -/
def addTrigger (s : DataStore UH M) (event : ChainEvent) (proposal : AlephProposal UH) :
    DataStore UH M :=
  { s with
    eventTriggers := s.eventTriggers.insert event
      (((s.eventTriggers.lookup event).getD ∅).insert proposal) }

def registerBlockImportTrigger (s : DataStore UH M) (proposal : AlephProposal UH)
    (block : BlockId) : DataStore UH M :=
  let s := { s with
    numTriggersRegisteredSinceLastPruning := s.numTriggersRegisteredSinceLastPruning + 1 }
  s.addTrigger (.imported block) proposal

def registerFinalityTrigger (s : DataStore UH M) (proposal : AlephProposal UH) (number : Nat) :
    DataStore UH M :=
  let s := { s with
    numTriggersRegisteredSinceLastPruning := s.numTriggersRegisteredSinceLastPruning + 1 }
  if number > s.highestFinalizedNum then s.addTrigger (.finalized number) proposal else s

def registerNextFinalityTrigger (s : DataStore UH M) (proposal : AlephProposal UH) :
    DataStore UH M :=
  if s.highestFinalizedNum < proposal.numberBelowBranch then
    s.registerFinalityTrigger proposal proposal.numberBelowBranch
  else if s.highestFinalizedNum < proposal.numberTopBlock then
    s.registerFinalityTrigger proposal (s.highestFinalizedNum + 1)
  else s

def onMessageDependenciesResolved (s : DataStore UH M) (message : M) : DataStore UH M :=
  { s with messagesForAleph := s.messagesForAleph ++ [message] }

/-- A proposal became available: the message no longer waits for it, and is sent once it
waits for nothing. -/
def removeProposalFromPendingMessage (s : DataStore UH M) (proposal : AlephProposal UH)
    (id : MessageId) : DataStore UH M :=
  match s.pendingMessages.lookup id with
  | none => s
  | some messageInfo =>
    let s := { s with pendingMessages := s.pendingMessages.erase id }
    let messageInfo :=
      { messageInfo with pendingProposals := messageInfo.pendingProposals.erase proposal }
    if messageInfo.pendingProposals.isEmpty then s.onMessageDependenciesResolved messageInfo.message
    else { s with pendingMessages := s.pendingMessages.insert id messageInfo }

def onProposalAvailable (s : DataStore UH M) (proposal : AlephProposal UH) : DataStore UH M :=
  match s.pendingProposals.lookup proposal with
  | none => s
  | some proposalInfo =>
    proposalInfo.messages.toList.foldl (fun s id => s.removeProposalFromPendingMessage proposal id)
      { s with pendingProposals := s.pendingProposals.erase proposal }

/-- A new availability check of a pending proposal, and whether it made the proposal
available. -/
def bumpProposal (s : DataStore UH M) (proposal : AlephProposal UH) : Bool × DataStore UH M :=
  match s.pendingProposals.lookup proposal with
  -- it may have become available by an earlier bump
  | none => (false, s)
  | some info =>
    let (newStatus, s) := s.checkProposalAvailability env proposal (some info.status)
    let s := { s with
      pendingProposals := s.pendingProposals.insert proposal { info with status := newStatus } }
    match newStatus with
    -- its block import trigger was registered when it was added
    | .pending .pendingTopBlock => (false, s.registerNextFinalityTrigger proposal)
    -- malicious: it can still get through, at a maintenance
    | .pending .topBlockImportedButIncorrectBranch => (false, s)
    -- honest, and this node is behind in finalization
    | .pending .topBlockImportedButNotFinalizedAncestor =>
      (false, s.registerNextFinalityTrigger proposal)
    | .finalize _ | .ignore => (true, s.onProposalAvailable proposal)

/-- `event_triggers.remove(event)`, and a bump of each proposal it held: the body of
`on_block_imported` and of the loop of `on_block_finalized`. -/
def activateTriggers (s : DataStore UH M) (event : ChainEvent) : DataStore UH M :=
  match s.eventTriggers.lookup event with
  | none => s
  | some proposalsToBump =>
    proposalsToBump.toList.foldl (fun s proposal => (s.bumpProposal env proposal).2)
      { s with eventTriggers := s.eventTriggers.erase event }

/-- The finality triggers of every number up to the new finalized block fire, as the
finality import queue may skip numbers. -/
def onBlockFinalized (s : DataStore UH M) (block : BlockId) : DataStore UH M :=
  if s.highestFinalizedNum < block.number then
    let oldNum := s.highestFinalizedNum
    let newNum := block.number
    (List.range' (oldNum + 1) (newNum - oldNum)).foldl
      (fun s num => s.activateTriggers env (.finalized num))
      { s with highestFinalizedNum := newNum }
  else s

def onBlockImported (s : DataStore UH M) (block : BlockId) : DataStore UH M :=
  s.activateTriggers env (.imported block)

/-- Our highest finalized block, from the chain info provider directly. -/
def updateHighestFinalized (s : DataStore UH M) : DataStore UH M :=
  let highestFinalized := getHighestFinalized env.chainInfoProvider
  (s.onBlockImported env highestFinalized).onBlockFinalized env highestFinalized

def requestBlock (s : DataStore UH M) (header : UH) : DataStore UH M :=
  { s with requestedBlocks := s.requestedBlocks ++ [header] }

/-- One round of the loop of `run_maintenance`: a bump, and for a proposal pending long
enough whose top block is missing, a request for it. -/
def maintainProposal (s : DataStore UH M) (proposal : AlephProposal UH)
    (firstOccurrence : Nat) : DataStore UH M :=
  match s.bumpProposal env proposal with
  | (true, s) => s
  | (false, s) =>
    if firstOccurrence ≤ env.now ∧ s.config.requestBlockAfter ≤ env.now - firstOccurrence then
      if isBlockImported env.chainInfoProvider proposal.topBlock then s
      else s.requestBlock proposal.topBlockHeader
    else s

def runMaintenance (s : DataStore UH M) : DataStore UH M :=
  let s := s.updateHighestFinalized env
  let proposalsWithTimestamps := s.pendingProposals.entries.map fun e => (e.1, e.2.firstOccurrence)
  proposalsWithTimestamps.foldl (fun s e => s.maintainProposal env e.1 e.2) s

/-- The last lines of `add_message_proposal_dependency`: the message joins the proposal's
messages and the proposal the message's pending proposals. The entry exists where it is
called (the `expect` of the code); without it nothing changes. -/
def linkMessage (s : DataStore UH M) (proposal : AlephProposal UH)
    (messageInfo : PendingMessageInfo UH M) (id : MessageId) :
    DataStore UH M × PendingMessageInfo UH M :=
  match s.pendingProposals.lookup proposal with
  | some proposalInfo =>
    let proposalInfo := { proposalInfo with messages := proposalInfo.messages.insert id }
    ({ s with pendingProposals := s.pendingProposals.insert proposal proposalInfo },
      { messageInfo with pendingProposals := messageInfo.pendingProposals.insert proposal })
  | none => (s, messageInfo)

/-- A proposal of a new message: a new one that is not available becomes pending, with the
triggers that may change its status, and is linked to the message. -/
def addMessageProposalDependency (s : DataStore UH M) (proposal : AlephProposal UH)
    (messageInfo : PendingMessageInfo UH M) (id : MessageId) :
    DataStore UH M × PendingMessageInfo UH M :=
  if proposal ∈ s.pendingProposals then s.linkMessage proposal messageInfo id
  else
    let (status, s) := s.checkProposalAvailability env proposal none
    let s' := { s with
      pendingProposals := s.pendingProposals.insert proposal (PendingProposalInfo.new status env.now) }
    match status with
    | .pending .pendingTopBlock =>
      ((s'.registerBlockImportTrigger proposal proposal.topBlock).registerNextFinalityTrigger
        proposal).linkMessage proposal messageInfo id
    -- it can only get through as a hopeless fork, which only a finalization can reveal
    | .pending .topBlockImportedButIncorrectBranch =>
      (s'.registerNextFinalityTrigger proposal).linkMessage proposal messageInfo id
    | .pending .topBlockImportedButNotFinalizedAncestor =>
      (s'.registerNextFinalityTrigger proposal).linkMessage proposal messageInfo id
    -- available: no dependency
    | .finalize _ | .ignore => (s, messageInfo)

def assignFreshMessageId (s : DataStore UH M) : MessageId × DataStore UH M :=
  (s.nextFreeId, { s with nextFreeId := s.nextFreeId + 1 })

def removeMessageIdFromPendingProposal (s : DataStore UH M) (proposal : AlephProposal UH)
    (id : MessageId) : DataStore UH M :=
  match s.pendingProposals.lookup proposal with
  | some proposalInfo =>
    let proposalInfo := { proposalInfo with messages := proposalInfo.messages.erase id }
    if proposalInfo.messages.isEmpty then
      { s with pendingProposals := s.pendingProposals.erase proposal }
    else { s with pendingProposals := s.pendingProposals.insert proposal proposalInfo }
  | none => s

/-- Drops the message with the lowest id, unlinking it from its proposals; false when there
is no message. -/
def pruneSingleMessage (s : DataStore UH M) : Bool × DataStore UH M :=
  match s.pendingMessages.keys.min? with
  | some id =>
    match s.pendingMessages.lookup id with
    | some messageInfo =>
      (true, messageInfo.pendingProposals.toList.foldl
        (fun s proposal => s.removeMessageIdFromPendingProposal proposal id)
        { s with pendingMessages := s.pendingMessages.erase id })
    | none => (false, s)
  | none => (false, s)

omit [LruCache.Ops (AlephProposal UH) ProposalStatus] in
@[simp] theorem pendingMessages_removeMessageIdFromPendingProposal (s : DataStore UH M)
    (proposal : AlephProposal UH) (id : MessageId) :
    (s.removeMessageIdFromPendingProposal proposal id).pendingMessages = s.pendingMessages := by
  unfold removeMessageIdFromPendingProposal
  split
  · dsimp only
    split <;> rfl
  · rfl

omit [LruCache.Ops (AlephProposal UH) ProposalStatus] in
/-- A successful prune drops a message, so the loop of `prune_pending_messages` ends. -/
theorem pendingMessages_length_pruneSingleMessage {s s' : DataStore UH M}
    (h : s.pruneSingleMessage = (true, s')) :
    s'.pendingMessages.keys.length < s.pendingMessages.keys.length := by
  unfold pruneSingleMessage at h
  split at h
  · rename_i id hid
    split at h
    · cases h
      have hfold : ∀ (l : List (AlephProposal UH)) (t : DataStore UH M),
          (l.foldl (fun s proposal => s.removeMessageIdFromPendingProposal proposal id) t).pendingMessages
            = t.pendingMessages := by
        intro l
        induction l with
        | nil => intro t; rfl
        | cons p l ih =>
          intro t
          rw [List.foldl_cons, ih, pendingMessages_removeMessageIdFromPendingProposal]
      rw [hfold]
      show (s.pendingMessages.erase id).keys.length < s.pendingMessages.keys.length
      have hmem : id ∈ s.pendingMessages := AList.mem_keys.mpr (List.min?_mem hid)
      have := AList.keys_length_erase hmem
      omega
    · cases h
  · cases h

/-- Prunes messages, the oldest first, while the store holds more messages or proposals
than its limits, or until there is nothing to prune. -/
def prunePendingMessages (s : DataStore UH M) : DataStore UH M :=
  if s.config.maxMessagesPending < s.pendingMessages.keys.length ∨
      s.config.maxProposalsPending < s.pendingProposals.keys.length then
    match _hprune : s.pruneSingleMessage with
    | (true, s') => s'.prunePendingMessages
    -- pruning failed: moving on
    | (false, s') => s'
  else s
termination_by s.pendingMessages.keys.length
decreasing_by exact pendingMessages_length_pruneSingleMessage _hprune

/-- Once enough triggers were registered, drops from them the proposals that are no longer
pending, and the events left with none. -/
def pruneTriggers (s : DataStore UH M) : DataStore UH M :=
  if s.numTriggersRegisteredSinceLastPruning > s.config.maxTriggersPending then
    { s with
      eventTriggers := s.eventTriggers.retainMap fun _ proposalSet =>
        let proposalSet := proposalSet.filter fun proposal => decide (proposal ∈ s.pendingProposals)
        if proposalSet.isEmpty then none else some proposalSet
      numTriggersRegisteredSinceLastPruning := 0 }
  else s

variable [AlephNetworkMessage M UH]

/-- A message is dropped if one of its proposals is not within the session's bounds;
otherwise it gets a fresh id and is sent at once, or waits for its pending proposals. -/
def onMessageReceived (s : DataStore UH M) (message : M) : DataStore UH M :=
  match (AlephNetworkMessage.includedData message).mapM
      (fun data => data.headProposal.validateBounds s.sessionBoundaries) with
  | .error _ => s
  | .ok proposals =>
    let (messageId, s) := s.assignFreshMessageId
    let (s, messageInfo) := proposals.foldl
      (fun acc proposal => acc.1.addMessageProposalDependency env proposal acc.2 messageId)
      (s, PendingMessageInfo.new message)
    if messageInfo.pendingProposals.isEmpty then s.onMessageDependenciesResolved message
    else { s with pendingMessages := s.pendingMessages.insert messageId messageInfo }

end Methods

variable [AlephNetworkMessage M UH]

/-- What the event loop of `DataStore::run` reacts to, and the two prunes it runs before
each of them. -/
inductive Event (M : Type) where
  | messageReceived (message : M)
  | blockImported (block : BlockId)
  | blockFinalized (block : BlockId)
  | maintenance
  | prunePendingMessages
  | pruneTriggers

def step (env : Env C UH) (s : DataStore UH M) : Event M → DataStore UH M
  | .messageReceived message => s.onMessageReceived env message
  | .blockImported block => s.onBlockImported env block
  | .blockFinalized block => s.onBlockFinalized env block
  | .maintenance => s.runMaintenance env
  | .prunePendingMessages => s.prunePendingMessages
  | .pruneTriggers => s.pruneTriggers

/-- The store after a run: the events in order, each with what the store read during it. -/
def runEvents (s : DataStore UH M) (run : List (Env C UH × Event M)) : DataStore UH M :=
  run.foldl (fun s e => s.step e.1 e.2) s

end DataStore

end Selendra.DataIo
