import Selendra.DataIo.DataStoreLinks
import Mathlib

/-! # The accounts of the data store

Where every message goes: a message the store received is sent (to `messages_for_aleph`),
pending, or dropped by pruning; nothing else adds a message to either. `outstanding` is the
multiset of the messages sent and pending, and `Accounted s t received` says that from `s`
to `t` it grew by at most `received`: the store never sends a message twice, nor one it did
not receive. Each event is accounted for with what it received, and keeps the session's
bounds and the store's limits.

The changes that keep the pending messages and what was sent are `Quiet`; every `Frame`
of the links is one. -/

namespace Selendra.DataIo

namespace DataStore

variable {C UH M : Type} [ChainInfoProvider C] [UnverifiedHeader UH]

/-- The messages pending, in the order of their ids. -/
def waitingMessages (s : DataStore UH M) : List M :=
  s.pendingMessages.entries.map fun e => e.2.message

/-- The messages sent and those still pending. -/
def outstanding (s : DataStore UH M) : Multiset M :=
  (s.messagesForAleph : Multiset M) + (s.waitingMessages : Multiset M)

@[simp] theorem messagesForAleph_onMessageDependenciesResolved (s : DataStore UH M) (message : M) :
    (s.onMessageDependenciesResolved message).messagesForAleph = s.messagesForAleph ++ [message] :=
  rfl

@[simp] theorem waitingMessages_onMessageDependenciesResolved (s : DataStore UH M) (message : M) :
    (s.onMessageDependenciesResolved message).waitingMessages = s.waitingMessages :=
  rfl

/-- A change that the accounts do not see: the pending messages, what was sent, the bounds
and the limits stay. -/
structure Quiet (s t : DataStore UH M) : Prop where
  pendingMessages : t.pendingMessages = s.pendingMessages
  messagesForAleph : t.messagesForAleph = s.messagesForAleph
  sessionBoundaries : t.sessionBoundaries = s.sessionBoundaries
  config : t.config = s.config

/-- From `s` to `t` the store sent or kept only what it had or `received`, and kept its
bounds and limits. -/
structure Accounted (s t : DataStore UH M) (received : Multiset M) : Prop where
  outstanding : t.outstanding ≤ s.outstanding + received
  sessionBoundaries : t.sessionBoundaries = s.sessionBoundaries
  config : t.config = s.config

section Relations

variable {s t u : DataStore UH M}

theorem Quiet.refl (s : DataStore UH M) : Quiet s s := ⟨rfl, rfl, rfl, rfl⟩

theorem Quiet.trans (h : Quiet s t) (h' : Quiet t u) : Quiet s u where
  pendingMessages := h'.pendingMessages.trans h.pendingMessages
  messagesForAleph := h'.messagesForAleph.trans h.messagesForAleph
  sessionBoundaries := h'.sessionBoundaries.trans h.sessionBoundaries
  config := h'.config.trans h.config

/-- A change of the pending proposals alone. -/
theorem quiet_pendingProposals
    (pendingProposals : AList (fun _ : AlephProposal UH => PendingProposalInfo)) :
    Quiet s { s with pendingProposals := pendingProposals } :=
  ⟨rfl, rfl, rfl, rfl⟩

theorem accounted_setPendingProposals
    (pendingProposals : AList (fun _ : AlephProposal UH => PendingProposalInfo)) :
    Accounted s { s with pendingProposals := pendingProposals } 0 :=
  ⟨(Multiset.add_zero _).ge, rfl, rfl⟩

theorem Quiet.outstanding_eq (h : Quiet s t) : t.outstanding = s.outstanding := by
  rw [outstanding, outstanding, waitingMessages, waitingMessages, h.pendingMessages,
    h.messagesForAleph]

theorem Accounted.refl (s : DataStore UH M) : Accounted s s 0 :=
  ⟨(Multiset.add_zero _).ge, rfl, rfl⟩

theorem Accounted.trans {a b : Multiset M} (h : Accounted s t a) (h' : Accounted t u b) :
    Accounted s u (a + b) where
  outstanding := calc
    u.outstanding ≤ t.outstanding + b := h'.outstanding
    _ ≤ s.outstanding + a + b := Multiset.add_le_add_right h.outstanding
    _ = s.outstanding + (a + b) := Multiset.add_assoc _ _ _
  sessionBoundaries := h'.sessionBoundaries.trans h.sessionBoundaries
  config := h'.config.trans h.config

theorem Accounted.trans_zero {a : Multiset M} (h : Accounted s t a) (h' : Accounted t u 0) :
    Accounted s u a :=
  Multiset.add_zero a ▸ h.trans h'

theorem Quiet.accounted (h : Quiet s t) : Accounted s t 0 :=
  ⟨by rw [h.outstanding_eq, Multiset.add_zero], h.sessionBoundaries, h.config⟩

end Relations

/-- The message at a key and the pending messages without it make up the pending messages. -/
theorem waitingMessages_erase (s : DataStore UH M) {id : MessageId} {info : PendingMessageInfo UH M}
    (h : s.pendingMessages.lookup id = some info) :
    (((s.pendingMessages.erase id).entries.map fun e => e.2.message : List M) : Multiset M) +
      {info.message} = ((s.pendingMessages.entries.map fun e => e.2.message : List M) : Multiset M) := by
  have hperm := (AList.perm_erase_of_lookup h).map fun e => e.2.message
  rw [← Multiset.coe_eq_coe.mpr hperm, List.map_cons, ← Multiset.cons_coe, ← Multiset.singleton_add,
    Multiset.add_comm]

/-- Dropping a pending message only drops it from the accounts. -/
theorem accounted_erase (s : DataStore UH M) (id : MessageId) :
    Accounted s { s with pendingMessages := s.pendingMessages.erase id } 0 := by
  refine ⟨?_, rfl, rfl⟩
  rw [Multiset.add_zero]
  exact Multiset.add_le_add_left (Multiset.coe_le.mpr
    ((List.kerase_sublist id s.pendingMessages.entries).map _).subperm)

theorem Bookkeeping.quiet {s t : DataStore UH M} (h : Bookkeeping s t) : Quiet s t :=
  ⟨h.pendingMessages, h.messagesForAleph, h.sessionBoundaries, h.config⟩

variable [DecidableEq UH]

theorem Frame.quiet {env : Env C UH} {s t : DataStore UH M} (h : Frame env s t) : Quiet s t :=
  ⟨h.pendingMessages, h.messagesForAleph, h.sessionBoundaries, h.config⟩

/-! ## A proposal becomes available -/

section Available

variable (s : DataStore UH M) (p : AlephProposal UH)

theorem outstanding_removeProposalFromPendingMessage (m : MessageId) :
    (s.removeProposalFromPendingMessage p m).outstanding = s.outstanding := by
  unfold removeProposalFromPendingMessage
  split
  · rfl
  · rename_i info hm
    dsimp only
    split
    · -- sent: the message moves from the pending ones to those sent
      simp only [outstanding, waitingMessages, onMessageDependenciesResolved]
      rw [← waitingMessages_erase s hm, ← Multiset.coe_add, Multiset.coe_singleton,
        Multiset.add_assoc, Multiset.add_comm {info.message}]
    · have hnot : m ∉ s.pendingMessages.erase m := fun h => (AList.mem_erase.mp h).1 rfl
      simp only [outstanding, waitingMessages, AList.entries_insert_of_notMem hnot, List.map_cons]
      rw [← Multiset.cons_coe, ← Multiset.singleton_add, Multiset.add_comm {info.message},
        waitingMessages_erase s hm]

theorem accounted_removeProposalFromPendingMessage (m : MessageId) :
    Accounted s (s.removeProposalFromPendingMessage p m) 0 :=
  ⟨by rw [outstanding_removeProposalFromPendingMessage, Multiset.add_zero], by simp, by simp⟩

theorem accounted_onProposalAvailable : Accounted s (s.onProposalAvailable p) 0 := by
  unfold DataStore.onProposalAvailable
  split
  · exact Accounted.refl s
  · exact List.foldlRecOn (motive := fun t => Accounted s t 0) _ _ (accounted_setPendingProposals _)
      fun t ht m _ => ht.trans_zero (accounted_removeProposalFromPendingMessage t p m)

end Available

/-! ## Bumps, and the events made of them -/

section Bump

variable [LruCache.Ops (AlephProposal UH) ProposalStatus]
  (env : Env C UH) (s : DataStore UH M) (p : AlephProposal UH)

theorem accounted_bumpProposal : Accounted s (s.bumpProposal env p).2 0 := by
  rcases bumpProposal_cases env s p with ⟨-, hb⟩ | ⟨info, t, hp, rfl, ⟨-, hb⟩ | ⟨u, hu, hb⟩⟩
  · rw [hb]
    exact Accounted.refl s
  · rw [hb]
    exact (frame_recordStatus env s p hp _).quiet.accounted.trans_zero (accounted_onProposalAvailable _ p)
  · rw [hb]
    exact ((frame_recordStatus env s p hp _).quiet.trans hu.quiet).accounted

theorem bumpClosed_accounted : BumpClosed env (fun t : DataStore UH M => Accounted s t 0) :=
  ⟨fun h ht => ht.trans_zero h.quiet.accounted, fun t q ht => ht.trans_zero (accounted_bumpProposal env t q)⟩

theorem accounted_activateTriggers (event : ChainEvent) :
    Accounted s (s.activateTriggers env event) 0 :=
  (bumpClosed_accounted env s).activateTriggers (Accounted.refl s) event

theorem accounted_onBlockFinalized (block : BlockId) :
    Accounted s (s.onBlockFinalized env block) 0 :=
  (bumpClosed_accounted env s).onBlockFinalized (Accounted.refl s) block

theorem accounted_runMaintenance : Accounted s (s.runMaintenance env) 0 :=
  (bumpClosed_accounted env s).runMaintenance (Accounted.refl s)

end Bump

/-! ## A new message -/

section Receive

variable [LruCache.Ops (AlephProposal UH) ProposalStatus] (env : Env C UH) (s : DataStore UH M)
  (p : AlephProposal UH)

omit [LruCache.Ops (AlephProposal UH) ProposalStatus] in
theorem quiet_linkMessage (messageInfo : PendingMessageInfo UH M) (id : MessageId) :
    Quiet s (s.linkMessage p messageInfo id).1 ∧
      (s.linkMessage p messageInfo id).2.message = messageInfo.message := by
  unfold linkMessage
  split
  · exact ⟨quiet_pendingProposals _, rfl⟩
  · exact ⟨Quiet.refl s, rfl⟩

theorem quiet_addMessageProposalDependency (messageInfo : PendingMessageInfo UH M) (id : MessageId) :
    Quiet s (s.addMessageProposalDependency env p messageInfo id).1 ∧
      (s.addMessageProposalDependency env p messageInfo id).2.message = messageInfo.message := by
  rcases addMessageProposalDependency_cases s p env messageInfo id with
    ⟨-, -, heq⟩ | ⟨-, -, heq⟩ | ⟨-, u, hu, heq⟩ <;> rw [heq]
  · exact quiet_linkMessage s p messageInfo id
  · exact ⟨(frame_checkProposalAvailability env s p none).quiet, rfl⟩
  · have hq := ((frame_checkProposalAvailability env s p none).quiet.trans
      (quiet_pendingProposals _)).trans hu.quiet
    obtain ⟨hl, hm⟩ := quiet_linkMessage u p messageInfo id
    exact ⟨hq.trans hl, hm⟩

/-- The loop of `on_message_received` is quiet, and leaves the message in its info. -/
theorem quiet_foldl_addMessageProposalDependency (id : MessageId) :
    ∀ (l : List (AlephProposal UH)) (acc : DataStore UH M × PendingMessageInfo UH M),
      Quiet acc.1
          (l.foldl (fun acc proposal => acc.1.addMessageProposalDependency env proposal acc.2 id) acc).1 ∧
        (l.foldl (fun acc proposal => acc.1.addMessageProposalDependency env proposal acc.2 id)
          acc).2.message = acc.2.message
  | [], _ => ⟨Quiet.refl _, rfl⟩
  | p :: l, acc => by
    obtain ⟨hq, hm⟩ := quiet_addMessageProposalDependency env acc.1 p acc.2 id
    obtain ⟨hq', hm'⟩ := quiet_foldl_addMessageProposalDependency id l _
    exact ⟨hq.trans hq', hm'.trans hm⟩

end Receive

/-! ## Pruning -/

section Prune

variable (s : DataStore UH M)

theorem accounted_pruneSingleMessage : Accounted s s.pruneSingleMessage.2 0 := by
  unfold DataStore.pruneSingleMessage
  split
  · split
    · exact List.foldlRecOn (motive := fun t => Accounted s t 0) _ _ (accounted_erase s _)
        fun t ht q _ => by
          rw [removeMessageIdFromPendingProposal_eq]
          exact ht.trans_zero (accounted_setPendingProposals _)
    · exact Accounted.refl s
  · exact Accounted.refl s

theorem accounted_prunePendingMessages : Accounted s s.prunePendingMessages 0 :=
  (prunePendingMessages_rec (fun t => Accounted s t 0) (fun {t t'} ht h => by
    have := ht.trans_zero (accounted_pruneSingleMessage t)
    rwa [h] at this) s (Accounted.refl s)).1

end Prune

/-! ## Every event -/

variable [LruCache.Ops (AlephProposal UH) ProposalStatus] [AlephNetworkMessage M UH]

section Step

variable (env : Env C UH)

/-- A new message adds itself to the messages sent or pending, and nothing else. -/
theorem accounted_onMessageReceived {s : DataStore UH M} (hl : s.Linked) (message : M) :
    Accounted s (s.onMessageReceived env message) {message} := by
  unfold DataStore.onMessageReceived
  split
  · exact ⟨Multiset.le_add_right _ _, rfl, rfl⟩
  · rename_i proposals _
    dsimp only [assignFreshMessageId]
    have hq := quiet_foldl_addMessageProposalDependency env s.nextFreeId proposals
      ({ s with nextFreeId := s.nextFreeId + 1 }, PendingMessageInfo.new message)
    generalize proposals.foldl _ _ = r at hq
    obtain ⟨t, info⟩ := r
    obtain ⟨hq, hmsg⟩ := hq
    have ht : t.outstanding = s.outstanding := hq.outstanding_eq
    dsimp only [PendingMessageInfo.new] at hmsg ⊢
    split
    · refine ⟨le_of_eq ?_, hq.sessionBoundaries, hq.config⟩
      simp only [outstanding, messagesForAleph_onMessageDependenciesResolved,
        waitingMessages_onMessageDependenciesResolved] at ht ⊢
      rw [← ht, ← Multiset.coe_add, Multiset.coe_singleton, Multiset.add_assoc,
        Multiset.add_comm {message}, ← Multiset.add_assoc]
    · -- the fresh id is not pending yet
      have hnot : s.nextFreeId ∉ t.pendingMessages := by
        rw [hq.pendingMessages]
        exact fun h => Nat.lt_irrefl _ (hl.fresh _ h)
      refine ⟨le_of_eq ?_, hq.sessionBoundaries, hq.config⟩
      simp only [outstanding, waitingMessages, AList.entries_insert_of_notMem hnot,
        List.map_cons] at ht ⊢
      rw [hmsg, ← Multiset.cons_coe, ← Multiset.singleton_add, Multiset.add_comm {message},
        ← Multiset.add_assoc, ht]

/-- The messages an event brings. -/
def Event.receivedMessages : Event M → List M
  | .messageReceived message => [message]
  | _ => []

theorem accounted_step {s : DataStore UH M} (hl : s.Linked) :
    ∀ event : Event M, Accounted s (s.step env event) (event.receivedMessages : Multiset M)
  | .messageReceived message => by
    rw [Event.receivedMessages, Multiset.coe_singleton]
    exact accounted_onMessageReceived env hl message
  | .blockImported _ => accounted_activateTriggers env s _
  | .blockFinalized _ => accounted_onBlockFinalized env s _
  | .maintenance => accounted_runMaintenance env s
  | .prunePendingMessages => accounted_prunePendingMessages s
  | .pruneTriggers => (bookkeeping_pruneTriggers s).quiet.accounted

end Step

/-- The messages received during a run, in order. -/
def received (run : List (Env C UH × Event M)) : List M :=
  run.flatMap fun e => e.2.receivedMessages

omit [ChainInfoProvider C] [UnverifiedHeader UH] [DecidableEq UH] [AlephNetworkMessage M UH] in
theorem received_append (run : List (Env C UH × Event M)) (e : Env C UH × Event M) :
    received (run ++ [e]) = received run ++ e.2.receivedMessages := by
  simp [received]

end DataStore

end Selendra.DataIo
