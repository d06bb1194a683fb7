import Selendra.DataIo.DataStore

/-! # The dependency graph of the data store

The store keeps one relation twice: `pending_messages` says which proposals a message waits
for (`Waits`), `pending_proposals` which messages a proposal holds (`Holds`). `Linked` is
what every method keeps: the two are converse to each other, no pending message waits for
nothing, no pending proposal holds nothing, and every pending message has an id below the
next free one.

The links are made by `add_message_proposal_dependency` for a message not yet stored
(`Attaching`) and undone from either end: `on_proposal_available` walks from a proposal to its
messages (`Detaching`), `prune_single_message` from a message to its proposals (`Unlinking`).
Every other change leaves the relation alone (`Frame`). -/

namespace Selendra.DataIo

namespace DataStore

variable {C UH M : Type} [ChainInfoProvider C] [UnverifiedHeader UH] [DecidableEq UH]

/-- Message `m` waits for proposal `p`. -/
def Waits (s : DataStore UH M) (m : MessageId) (p : AlephProposal UH) : Prop :=
  AList.Adj PendingMessageInfo.pendingProposals s.pendingMessages m p

/-- Proposal `p` holds message `m`. -/
def Holds (s : DataStore UH M) (p : AlephProposal UH) (m : MessageId) : Prop :=
  AList.Adj PendingProposalInfo.messages s.pendingProposals p m

structure Linked (s : DataStore UH M) : Prop where
  mirrored : ∀ m p, s.Waits m p ↔ s.Holds p m
  messages_waiting : ∀ m info, s.pendingMessages.lookup m = some info →
    info.pendingProposals.isEmpty = false
  proposals_holding : ∀ p info, s.pendingProposals.lookup p = some info →
    info.messages.isEmpty = false
  fresh : ∀ m, m ∈ s.pendingMessages → m < s.nextFreeId

/-! ## Changes that leave the links alone -/

/-- `t` differs from `s` at most in the bookkeeping of the event loop: the triggers, their
counter, the highest finalized number and the requests. -/
structure Bookkeeping (s t : DataStore UH M) : Prop where
  nextFreeId : t.nextFreeId = s.nextFreeId
  pendingProposals : t.pendingProposals = s.pendingProposals
  pendingMessages : t.pendingMessages = s.pendingMessages
  availableProposalsCache : t.availableProposalsCache = s.availableProposalsCache
  messagesForAleph : t.messagesForAleph = s.messagesForAleph
  sessionBoundaries : t.sessionBoundaries = s.sessionBoundaries
  config : t.config = s.config

/-- An entry the cache may gain during an event read through `env`: an available status
that `get_proposal_status` gave for its proposal. -/
def Checked (env : Env C UH) (e : AlephProposal UH × ProposalStatus) : Prop :=
  (∃ oldStatus, e.2 = getProposalStatus env.chainInfoProvider env.verifier e.1 oldStatus) ∧
    e.2.isAvailable = true

/-- `t` differs from `s`, during an event read through `env`, at most in what the links and
the accounting of messages do not read: the triggers, the counters, the statuses and times
of pending proposals, the requests, and the cache, which gains only checked entries. -/
structure Frame (env : Env C UH) (s t : DataStore UH M) : Prop where
  pendingMessages : t.pendingMessages = s.pendingMessages
  messages : ∀ p, (t.pendingProposals.lookup p).map PendingProposalInfo.messages =
    (s.pendingProposals.lookup p).map PendingProposalInfo.messages
  nextFreeId : t.nextFreeId = s.nextFreeId
  messagesForAleph : t.messagesForAleph = s.messagesForAleph
  sessionBoundaries : t.sessionBoundaries = s.sessionBoundaries
  config : t.config = s.config
  cache : ∀ e ∈ t.availableProposalsCache.entries,
    e ∈ s.availableProposalsCache.entries ∨ Checked env e

namespace Frame

variable {env : Env C UH} {s t u : DataStore UH M}

theorem refl (s : DataStore UH M) : Frame env s s :=
  ⟨rfl, fun _ => rfl, rfl, rfl, rfl, rfl, fun _ h => Or.inl h⟩

theorem trans (h : Frame env s t) (h' : Frame env t u) : Frame env s u where
  pendingMessages := h'.pendingMessages.trans h.pendingMessages
  messages p := (h'.messages p).trans (h.messages p)
  nextFreeId := h'.nextFreeId.trans h.nextFreeId
  messagesForAleph := h'.messagesForAleph.trans h.messagesForAleph
  sessionBoundaries := h'.sessionBoundaries.trans h.sessionBoundaries
  config := h'.config.trans h.config
  cache e he := (h'.cache e he).elim (h.cache e) Or.inr

/-- A pending proposal stays pending, with its messages. -/
theorem lookup_some (h : Frame env s t) {p : AlephProposal UH} {info : PendingProposalInfo}
    (hp : s.pendingProposals.lookup p = some info) :
    ∃ info', t.pendingProposals.lookup p = some info' ∧ info'.messages = info.messages := by
  have := h.messages p
  rw [hp] at this
  cases ht : t.pendingProposals.lookup p with
  | none => rw [ht] at this; cases this
  | some info' =>
    rw [ht] at this
    exact ⟨info', rfl, Option.some.inj this⟩

/-- A pending proposal was pending before, with the same messages. -/
theorem lookup_of (h : Frame env s t) {p : AlephProposal UH} {info : PendingProposalInfo}
    (ht : t.pendingProposals.lookup p = some info) :
    ∃ info', s.pendingProposals.lookup p = some info' ∧ info'.messages = info.messages := by
  have := h.messages p
  rw [ht] at this
  obtain ⟨info', hs, he⟩ := Option.map_eq_some_iff.mp this.symm
  exact ⟨info', hs, he⟩

theorem lookup_none (h : Frame env s t) {p : AlephProposal UH}
    (hp : s.pendingProposals.lookup p = none) : t.pendingProposals.lookup p = none := by
  have := h.messages p
  rw [hp] at this
  exact Option.map_eq_none_iff.mp this

theorem holds_iff (h : Frame env s t) (p : AlephProposal UH) (m : MessageId) :
    t.Holds p m ↔ s.Holds p m := by
  cases hp : s.pendingProposals.lookup p with
  | none => simp only [Holds, AList.not_adj_of_lookup hp, AList.not_adj_of_lookup (h.lookup_none hp)]
  | some info =>
    obtain ⟨info', ht, he⟩ := h.lookup_some hp
    rw [Holds, Holds, AList.adj_of_lookup ht, AList.adj_of_lookup hp, he]

theorem waits_iff (h : Frame env s t) (m : MessageId) (p : AlephProposal UH) :
    t.Waits m p ↔ s.Waits m p := by
  rw [Waits, Waits, h.pendingMessages]

theorem linked (h : Frame env s t) (hs : s.Linked) : t.Linked where
  mirrored m p := by rw [h.waits_iff, h.holds_iff]; exact hs.mirrored m p
  messages_waiting m info hm := hs.messages_waiting m info (h.pendingMessages ▸ hm)
  proposals_holding p info hp := by
    cases hsp : s.pendingProposals.lookup p with
    | none => rw [h.lookup_none hsp] at hp; cases hp
    | some info' =>
      obtain ⟨info'', ht, he⟩ := h.lookup_some hsp
      rw [hp] at ht
      cases ht
      rw [he]
      exact hs.proposals_holding p info' hsp
  fresh m hm := h.nextFreeId ▸ hs.fresh m (h.pendingMessages ▸ hm)

end Frame

namespace Bookkeeping

variable {s t u : DataStore UH M}

omit [DecidableEq UH] in
theorem refl (s : DataStore UH M) : Bookkeeping s s := ⟨rfl, rfl, rfl, rfl, rfl, rfl, rfl⟩

omit [DecidableEq UH] in
theorem trans (h : Bookkeeping s t) (h' : Bookkeeping t u) : Bookkeeping s u where
  nextFreeId := h'.nextFreeId.trans h.nextFreeId
  pendingProposals := h'.pendingProposals.trans h.pendingProposals
  pendingMessages := h'.pendingMessages.trans h.pendingMessages
  availableProposalsCache := h'.availableProposalsCache.trans h.availableProposalsCache
  messagesForAleph := h'.messagesForAleph.trans h.messagesForAleph
  sessionBoundaries := h'.sessionBoundaries.trans h.sessionBoundaries
  config := h'.config.trans h.config

theorem frame {env : Env C UH} (h : Bookkeeping s t) : Frame env s t where
  pendingMessages := h.pendingMessages
  messages p := by rw [h.pendingProposals]
  nextFreeId := h.nextFreeId
  messagesForAleph := h.messagesForAleph
  sessionBoundaries := h.sessionBoundaries
  config := h.config
  cache e he := Or.inl (h.availableProposalsCache ▸ he)

theorem linked (h : Bookkeeping s t) (hs : s.Linked) : t.Linked where
  mirrored m p := by rw [Waits, Holds, h.pendingMessages, h.pendingProposals]; exact hs.mirrored m p
  messages_waiting := by rw [h.pendingMessages]; exact hs.messages_waiting
  proposals_holding := by rw [h.pendingProposals]; exact hs.proposals_holding
  fresh := by rw [h.pendingMessages, h.nextFreeId]; exact hs.fresh

end Bookkeeping

section Bookkeepings

variable (s : DataStore UH M) (p : AlephProposal UH)

theorem bookkeeping_registerBlockImportTrigger (block : BlockId) :
    Bookkeeping s (s.registerBlockImportTrigger p block) :=
  ⟨rfl, rfl, rfl, rfl, rfl, rfl, rfl⟩

theorem bookkeeping_registerFinalityTrigger (number : Nat) :
    Bookkeeping s (s.registerFinalityTrigger p number) := by
  unfold registerFinalityTrigger
  dsimp only
  split
  · exact ⟨rfl, rfl, rfl, rfl, rfl, rfl, rfl⟩
  · exact ⟨rfl, rfl, rfl, rfl, rfl, rfl, rfl⟩

theorem bookkeeping_registerNextFinalityTrigger : Bookkeeping s (s.registerNextFinalityTrigger p) := by
  unfold registerNextFinalityTrigger
  split
  · exact bookkeeping_registerFinalityTrigger s p _
  · split
    · exact bookkeeping_registerFinalityTrigger s p _
    · exact ⟨rfl, rfl, rfl, rfl, rfl, rfl, rfl⟩

omit [DecidableEq UH] in
theorem bookkeeping_requestBlock (header : UH) : Bookkeeping s (s.requestBlock header) :=
  ⟨rfl, rfl, rfl, rfl, rfl, rfl, rfl⟩

omit [DecidableEq UH] in
theorem bookkeeping_eventTriggers
    (eventTriggers : AList (fun _ : ChainEvent => HashSet (AlephProposal UH))) :
    Bookkeeping s { s with eventTriggers := eventTriggers } :=
  ⟨rfl, rfl, rfl, rfl, rfl, rfl, rfl⟩

omit [DecidableEq UH] in
theorem bookkeeping_highestFinalizedNum (n : Nat) : Bookkeeping s { s with highestFinalizedNum := n } :=
  ⟨rfl, rfl, rfl, rfl, rfl, rfl, rfl⟩

theorem bookkeeping_pruneTriggers : Bookkeeping s s.pruneTriggers := by
  unfold pruneTriggers
  split
  · exact ⟨rfl, rfl, rfl, rfl, rfl, rfl, rfl⟩
  · exact ⟨rfl, rfl, rfl, rfl, rfl, rfl, rfl⟩

end Bookkeepings

section Frames

variable [LruCache.Ops (AlephProposal UH) ProposalStatus] (env : Env C UH) (s : DataStore UH M)
  (p : AlephProposal UH)

omit [LruCache.Ops (AlephProposal UH) ProposalStatus] in
/-- A new status for a pending proposal, its messages kept. -/
theorem frame_setStatus {info : PendingProposalInfo} (hp : s.pendingProposals.lookup p = some info)
    (status : ProposalStatus) :
    Frame env s { s with pendingProposals := s.pendingProposals.insert p { info with status := status } } where
  pendingMessages := rfl
  messages q := by
    by_cases hq : q = p
    · subst hq
      simp [AList.lookup_insert, hp]
    · simp [AList.lookup_insert_ne hq]
  nextFreeId := rfl
  messagesForAleph := rfl
  sessionBoundaries := rfl
  config := rfl
  cache _ h := Or.inl h

/-- The status check changes the cache only, by a checked entry. -/
theorem frame_checkProposalAvailability (oldStatus : Option ProposalStatus) :
    Frame env s (s.checkProposalAvailability env p oldStatus).2 := by
  unfold checkProposalAvailability
  split
  · rename_i status cache hget
    refine ⟨rfl, fun _ => rfl, rfl, rfl, rfl, rfl, fun e he => Or.inl ?_⟩
    have : cache = (s.availableProposalsCache.get p).2 := by rw [hget]
    exact LruCache.entries_get (this ▸ he)
  · rename_i cache hget
    have hc : cache = (s.availableProposalsCache.get p).2 := by rw [hget]
    dsimp only
    split
    · rename_i havailable
      refine ⟨rfl, fun _ => rfl, rfl, rfl, rfl, rfl, fun e he => ?_⟩
      rcases LruCache.entries_put he with rfl | he
      · exact Or.inr ⟨⟨oldStatus, rfl⟩, havailable⟩
      · exact Or.inl (LruCache.entries_get (hc ▸ he))
    · exact ⟨rfl, fun _ => rfl, rfl, rfl, rfl, rfl, fun e he => Or.inl (LruCache.entries_get (hc ▸ he))⟩

-- the linter misses the instance the statement's `checkProposalAvailability` takes
set_option linter.unusedSectionVars false in
@[simp] theorem pendingProposals_checkProposalAvailability (oldStatus : Option ProposalStatus) :
    (s.checkProposalAvailability env p oldStatus).2.pendingProposals = s.pendingProposals := by
  unfold checkProposalAvailability
  split
  · rfl
  · dsimp only
    split <;> rfl

end Frames


/-! ## A proposal becomes available -/

section Available

variable (s : DataStore UH M) (p : AlephProposal UH)

/-- `remove_proposal_from_pending_message` changes the pending messages and what was sent,
nothing else. -/
theorem removeProposalFromPendingMessage_eq (m : MessageId) :
    s.removeProposalFromPendingMessage p m =
      { s with
        pendingMessages := (s.removeProposalFromPendingMessage p m).pendingMessages
        messagesForAleph := (s.removeProposalFromPendingMessage p m).messagesForAleph } := by
  unfold removeProposalFromPendingMessage
  split
  · rfl
  · dsimp only
    split <;> rfl

@[simp] theorem pendingProposals_removeProposalFromPendingMessage (m : MessageId) :
    (s.removeProposalFromPendingMessage p m).pendingProposals = s.pendingProposals := by
  rw [removeProposalFromPendingMessage_eq]

@[simp] theorem nextFreeId_removeProposalFromPendingMessage (m : MessageId) :
    (s.removeProposalFromPendingMessage p m).nextFreeId = s.nextFreeId := by
  rw [removeProposalFromPendingMessage_eq]

@[simp] theorem availableProposalsCache_removeProposalFromPendingMessage (m : MessageId) :
    (s.removeProposalFromPendingMessage p m).availableProposalsCache = s.availableProposalsCache := by
  rw [removeProposalFromPendingMessage_eq]

@[simp] theorem sessionBoundaries_removeProposalFromPendingMessage (m : MessageId) :
    (s.removeProposalFromPendingMessage p m).sessionBoundaries = s.sessionBoundaries := by
  rw [removeProposalFromPendingMessage_eq]

@[simp] theorem config_removeProposalFromPendingMessage (m : MessageId) :
    (s.removeProposalFromPendingMessage p m).config = s.config := by
  rw [removeProposalFromPendingMessage_eq]

/-- The message stops waiting for the proposal; sent, it stops waiting at all, but then it
waited for nothing else. -/
theorem waits_removeProposalFromPendingMessage {m : MessageId} {info : PendingMessageInfo UH M}
    (h : s.pendingMessages.lookup m = some info) (m' : MessageId) (q : AlephProposal UH) :
    (s.removeProposalFromPendingMessage p m).Waits m' q ↔ s.Waits m' q ∧ ¬(m' = m ∧ q = p) := by
  unfold removeProposalFromPendingMessage
  rw [h]
  dsimp only
  split
  · rename_i hempty
    simp only [Waits, onMessageDependenciesResolved, AList.adj_erase]
    constructor
    · rintro ⟨hne, hw⟩
      exact ⟨hw, fun hm => hne hm.1⟩
    · rintro ⟨hw, hn⟩
      refine ⟨fun hm => hn ⟨hm, ?_⟩, hw⟩
      subst hm
      exact HashSet.eq_of_isEmpty_erase hempty ((AList.adj_of_lookup h).mp hw)
  · simp only [Waits, AList.adj_insert]
    split
    · rename_i hm
      subst hm
      rw [AList.adj_of_lookup h, HashSet.mem_erase]
      simp only [true_and]
      exact and_comm
    · rename_i hm
      rw [AList.adj_erase]
      simp [hm]

theorem messages_waiting_removeProposalFromPendingMessage (m : MessageId)
    (hs : ∀ m info, s.pendingMessages.lookup m = some info → info.pendingProposals.isEmpty = false) :
    ∀ m' info, (s.removeProposalFromPendingMessage p m).pendingMessages.lookup m' = some info →
      info.pendingProposals.isEmpty = false := by
  unfold removeProposalFromPendingMessage
  split
  · exact hs
  · dsimp only
    split
    · intro m' info hm'
      simp only [onMessageDependenciesResolved] at hm'
      by_cases hne : m' = m
      · subst hne
        rw [AList.lookup_erase] at hm'
        cases hm'
      · rw [AList.lookup_erase_ne hne] at hm'
        exact hs m' info hm'
    · rename_i hnonempty
      intro m' info hm'
      by_cases hne : m' = m
      · subst hne
        rw [AList.lookup_insert] at hm'
        cases hm'
        simpa using hnonempty
      · rw [AList.lookup_insert_ne hne, AList.lookup_erase_ne hne] at hm'
        exact hs m' info hm'

theorem mem_removeProposalFromPendingMessage {m m' : MessageId}
    (h : m' ∈ (s.removeProposalFromPendingMessage p m).pendingMessages) : m' ∈ s.pendingMessages := by
  revert h
  unfold removeProposalFromPendingMessage
  split
  · exact id
  · dsimp only
    split
    · exact fun h => (AList.mem_erase.mp h).2
    · intro h
      rcases (AList.mem_insert _).mp h with rfl | h
      · exact AList.mem_iff_lookup.mpr ⟨_, by assumption⟩
      · exact (AList.mem_erase.mp h).2

/-- The loop of `on_proposal_available` with the messages `L` still to visit: the proposal
is no longer pending, and the messages of `L`, only they, still wait for it. -/
structure Detaching (L : List MessageId) (s : DataStore UH M) : Prop where
  gone : s.pendingProposals.lookup p = none
  mirrored : ∀ m q, s.Waits m q ↔ s.Holds q m ∨ (q = p ∧ m ∈ L)
  nodup : L.Nodup
  messages_waiting : ∀ m info, s.pendingMessages.lookup m = some info →
    info.pendingProposals.isEmpty = false
  proposals_holding : ∀ q info, s.pendingProposals.lookup q = some info →
    info.messages.isEmpty = false
  fresh : ∀ m, m ∈ s.pendingMessages → m < s.nextFreeId

variable {p}

theorem Detaching.step {m : MessageId} {L : List MessageId} (h : Detaching p (m :: L) s) :
    Detaching p L (s.removeProposalFromPendingMessage p m) := by
  obtain ⟨info, hm, -⟩ : s.Waits m p := (h.mirrored m p).mpr (Or.inr ⟨rfl, List.mem_cons_self⟩)
  have hholds : ∀ q m', (s.removeProposalFromPendingMessage p m).Holds q m' ↔ s.Holds q m' := by
    intro q m'
    simp only [Holds, pendingProposals_removeProposalFromPendingMessage]
  refine ⟨by simpa using h.gone, ?_, (List.nodup_cons.mp h.nodup).2, ?_, ?_, ?_⟩
  · intro m' q
    rw [hholds]
    exact mirror_remove (R := fun m' q => s.Holds q m') h.mirrored
      (fun x => AList.not_adj_of_lookup h.gone) (List.nodup_cons.mp h.nodup).1
      (waits_removeProposalFromPendingMessage s p hm) m' q
  · exact messages_waiting_removeProposalFromPendingMessage s p m h.messages_waiting
  · simpa using h.proposals_holding
  · intro m' hm'
    rw [nextFreeId_removeProposalFromPendingMessage]
    exact h.fresh m' (mem_removeProposalFromPendingMessage s p hm')

theorem Detaching.foldl : ∀ (L : List MessageId) (s : DataStore UH M), Detaching p L s →
    Detaching p [] (L.foldl (fun s id => s.removeProposalFromPendingMessage p id) s)
  | [], _, h => h
  | _ :: L, s, h => Detaching.foldl L _ (Detaching.step s h)

theorem Detaching.linked (h : Detaching p [] s) : s.Linked where
  mirrored m q := by simpa using h.mirrored m q
  messages_waiting := h.messages_waiting
  proposals_holding := h.proposals_holding
  fresh := h.fresh

variable {s}

theorem Linked.detaching (hs : s.Linked) {info : PendingProposalInfo}
    (hp : s.pendingProposals.lookup p = some info) :
    Detaching p info.messages.toList { s with pendingProposals := s.pendingProposals.erase p } where
  gone := AList.lookup_erase p _
  mirrored m q := by
    simp only [Holds, AList.adj_erase]
    rw [show ({ s with pendingProposals := s.pendingProposals.erase p } : DataStore UH M).Waits m q
      ↔ s.Waits m q from Iff.rfl, hs.mirrored]
    by_cases hq : q = p
    · subst hq
      simp only [Holds, AList.adj_of_lookup hp, HashSet.mem_def]
      simp
    · simp [hq, Holds]
  nodup := info.messages.nodup
  messages_waiting := hs.messages_waiting
  proposals_holding q info' hq := by
    by_cases hne : q = p
    · subst hne
      rw [AList.lookup_erase] at hq
      cases hq
    · rw [AList.lookup_erase_ne hne] at hq
      exact hs.proposals_holding q info' hq
  fresh := hs.fresh

theorem Linked.onProposalAvailable (hs : s.Linked) : (s.onProposalAvailable p).Linked := by
  unfold DataStore.onProposalAvailable
  split
  · exact hs
  · rename_i info hp
    exact (Detaching.foldl _ _ (hs.detaching hp)).linked

end Available

/-! ## Bumps, and the events that cause them -/

section Bump

variable [LruCache.Ops (AlephProposal UH) ProposalStatus] (env : Env C UH) (s : DataStore UH M)
  (p : AlephProposal UH)

/-- What a bump does: nothing to a proposal no longer pending; otherwise it records the status
the check gives, then either the status is available and `on_proposal_available` follows, or
only triggers are registered. -/
theorem bumpProposal_cases :
    (s.pendingProposals.lookup p = none ∧ s.bumpProposal env p = (false, s)) ∨
      ∃ info t, s.pendingProposals.lookup p = some info ∧
        t = { (s.checkProposalAvailability env p (some info.status)).2 with
          pendingProposals := (s.checkProposalAvailability env p (some info.status)).2.pendingProposals.insert
            p { info with status := (s.checkProposalAvailability env p (some info.status)).1 } } ∧
        (((s.checkProposalAvailability env p (some info.status)).1.isAvailable = true ∧
            s.bumpProposal env p = (true, t.onProposalAvailable p)) ∨
          ∃ u, Bookkeeping t u ∧ s.bumpProposal env p = (false, u)) := by
  unfold bumpProposal
  split
  · rename_i hp
    exact Or.inl ⟨hp, rfl⟩
  · rename_i info hp
    refine Or.inr ⟨info, _, hp, rfl, ?_⟩
    generalize s.checkProposalAvailability env p (some info.status) = r
    obtain ⟨status, t⟩ := r
    dsimp only
    cases status with
    | pending reason =>
      right
      cases reason with
      | pendingTopBlock => exact ⟨_, bookkeeping_registerNextFinalityTrigger _ p, rfl⟩
      | topBlockImportedButIncorrectBranch => exact ⟨_, ⟨rfl, rfl, rfl, rfl, rfl, rfl, rfl⟩, rfl⟩
      | topBlockImportedButNotFinalizedAncestor =>
        exact ⟨_, bookkeeping_registerNextFinalityTrigger _ p, rfl⟩
    | finalize blocks => exact Or.inl ⟨rfl, rfl⟩
    | ignore => exact Or.inl ⟨rfl, rfl⟩

/-- The status check and the new status together change no link. -/
theorem frame_recordStatus {info : PendingProposalInfo} (hp : s.pendingProposals.lookup p = some info)
    (oldStatus : Option ProposalStatus) :
    Frame env s { (s.checkProposalAvailability env p oldStatus).2 with
      pendingProposals := (s.checkProposalAvailability env p oldStatus).2.pendingProposals.insert
        p { info with status := (s.checkProposalAvailability env p oldStatus).1 } } :=
  (frame_checkProposalAvailability env s p oldStatus).trans
    (frame_setStatus env _ p (by rw [pendingProposals_checkProposalAvailability, hp]) _)

variable {env s}

theorem Linked.bumpProposal (hs : s.Linked) : (s.bumpProposal env p).2.Linked := by
  rcases bumpProposal_cases env s p with ⟨-, hb⟩ | ⟨info, t, hp, rfl, ⟨-, hb⟩ | ⟨u, hu, hb⟩⟩
  · rw [hb]
    exact hs
  · rw [hb]
    exact ((frame_recordStatus env s p hp _).linked hs).onProposalAvailable
  · rw [hb]
    exact hu.linked ((frame_recordStatus env s p hp _).linked hs)

section Rules

/-- A property that bookkeeping keeps and bumps keep: the events made of bumps keep it. -/
structure BumpClosed (env : Env C UH) (P : DataStore UH M → Prop) : Prop where
  bookkeeping : ∀ {t u : DataStore UH M}, Bookkeeping t u → P t → P u
  bump : ∀ t p, P t → P (t.bumpProposal env p).2

variable {P : DataStore UH M → Prop} (hP : BumpClosed env P)
include hP

theorem BumpClosed.activateTriggers (hs : P s) (event : ChainEvent) :
    P (s.activateTriggers env event) := by
  unfold DataStore.activateTriggers
  split
  · exact hs
  · exact List.foldlRecOn _ _ (hP.bookkeeping (bookkeeping_eventTriggers s _) hs)
      fun t ht q _ => hP.bump t q ht

theorem BumpClosed.onBlockFinalized (hs : P s) (block : BlockId) : P (s.onBlockFinalized env block) := by
  unfold DataStore.onBlockFinalized
  split
  · exact List.foldlRecOn _ _ (hP.bookkeeping (bookkeeping_highestFinalizedNum s _) hs)
      fun t ht _ _ => hP.activateTriggers ht _
  · exact hs

theorem BumpClosed.runMaintenance (hs : P s) : P (s.runMaintenance env) := by
  have hu : P (s.updateHighestFinalized env) := hP.onBlockFinalized (hP.activateTriggers hs _) _
  refine List.foldlRecOn _ _ hu fun t ht e _ => ?_
  have hb := hP.bump t e.1 ht
  unfold maintainProposal
  split
  · rename_i t' hr
    rwa [hr] at hb
  · rename_i t' hr
    rw [hr] at hb
    -- a request for the missing top block is bookkeeping
    split
    · split
      · exact hb
      · exact hP.bookkeeping (bookkeeping_requestBlock t' _) hb
    · exact hb

end Rules

theorem bumpClosed_linked : BumpClosed env (Linked : DataStore UH M → Prop) :=
  ⟨fun h ht => h.linked ht, fun _ p ht => ht.bumpProposal p⟩

theorem Linked.activateTriggers (hs : s.Linked) (event : ChainEvent) :
    (s.activateTriggers env event).Linked :=
  bumpClosed_linked.activateTriggers hs event

theorem Linked.onBlockFinalized (hs : s.Linked) (block : BlockId) :
    (s.onBlockFinalized env block).Linked :=
  bumpClosed_linked.onBlockFinalized hs block

theorem Linked.runMaintenance (hs : s.Linked) : (s.runMaintenance env).Linked :=
  bumpClosed_linked.runMaintenance hs

end Bump

/-! ## A new message -/

section Receive

variable [LruCache.Ops (AlephProposal UH) ProposalStatus]
  (s : DataStore UH M) (p : AlephProposal UH)

omit [LruCache.Ops (AlephProposal UH) ProposalStatus] in
theorem linkMessage_of_lookup {info : PendingProposalInfo} (hp : s.pendingProposals.lookup p = some info)
    (messageInfo : PendingMessageInfo UH M) (id : MessageId) :
    s.linkMessage p messageInfo id =
      ({ s with pendingProposals :=
          (s.pendingProposals.insert p { info with messages := info.messages.insert id }) },
        { messageInfo with pendingProposals := messageInfo.pendingProposals.insert p }) := by
  unfold linkMessage
  rw [hp]

/-- What a proposal of a new message does: a pending proposal is linked to the message; a new
one is checked and, unless its status is available, recorded, given its triggers and linked. -/
theorem addMessageProposalDependency_cases (env : Env C UH) (messageInfo : PendingMessageInfo UH M)
    (id : MessageId) :
    (∃ info, s.pendingProposals.lookup p = some info ∧
        s.addMessageProposalDependency env p messageInfo id = s.linkMessage p messageInfo id) ∨
      (p ∉ s.pendingProposals ∧ (s.checkProposalAvailability env p none).1.isAvailable = true ∧
        s.addMessageProposalDependency env p messageInfo id =
          ((s.checkProposalAvailability env p none).2, messageInfo)) ∨
      (p ∉ s.pendingProposals ∧ ∃ u, Bookkeeping { (s.checkProposalAvailability env p none).2 with
          pendingProposals := (s.checkProposalAvailability env p none).2.pendingProposals.insert p
            (PendingProposalInfo.new (s.checkProposalAvailability env p none).1 env.now) } u ∧
        s.addMessageProposalDependency env p messageInfo id = u.linkMessage p messageInfo id) := by
  unfold addMessageProposalDependency
  split
  · rename_i hmem
    obtain ⟨info, hp⟩ := AList.mem_iff_lookup.mp hmem
    exact Or.inl ⟨info, hp, rfl⟩
  · rename_i hmem
    generalize s.checkProposalAvailability env p none = r
    obtain ⟨status, t⟩ := r
    dsimp only
    cases status with
    | pending reason =>
      refine Or.inr (Or.inr ⟨hmem, ?_⟩)
      cases reason with
      | pendingTopBlock =>
        exact ⟨_, (bookkeeping_registerBlockImportTrigger _ p _).trans
          (bookkeeping_registerNextFinalityTrigger _ p), rfl⟩
      | topBlockImportedButIncorrectBranch => exact ⟨_, bookkeeping_registerNextFinalityTrigger _ p, rfl⟩
      | topBlockImportedButNotFinalizedAncestor =>
        exact ⟨_, bookkeeping_registerNextFinalityTrigger _ p, rfl⟩
    | finalize blocks => exact Or.inr (Or.inl ⟨hmem, rfl, rfl⟩)
    | ignore => exact Or.inr (Or.inl ⟨hmem, rfl, rfl⟩)

/-- The loop of `on_message_received` for the message with the fresh id `id`, not stored yet:
the proposals holding `id` are those its `messageInfo` waits for. -/
structure Attaching (id : MessageId) (messageInfo : PendingMessageInfo UH M) (s : DataStore UH M) :
    Prop where
  mirrored : ∀ m q, s.Waits m q ∨ (m = id ∧ q ∈ messageInfo.pendingProposals) ↔ s.Holds q m
  messages_waiting : ∀ m info, s.pendingMessages.lookup m = some info →
    info.pendingProposals.isEmpty = false
  proposals_holding : ∀ q info, s.pendingProposals.lookup q = some info →
    info.messages.isEmpty = false
  fresh : ∀ m, m ∈ s.pendingMessages → m < id
  next : s.nextFreeId = id + 1

variable {s p} {id : MessageId} {messageInfo : PendingMessageInfo UH M}

omit [LruCache.Ops (AlephProposal UH) ProposalStatus] in
theorem Attaching.frame {env : Env C UH} {t : DataStore UH M} (h : Attaching id messageInfo s)
    (ht : Frame env s t) : Attaching id messageInfo t where
  mirrored m q := by rw [ht.waits_iff, ht.holds_iff]; exact h.mirrored m q
  messages_waiting m info hm := h.messages_waiting m info (ht.pendingMessages ▸ hm)
  proposals_holding q info hq := by
    obtain ⟨info', hs, he⟩ := ht.lookup_of hq
    rw [← he]
    exact h.proposals_holding q info' hs
  fresh m hm := h.fresh m (ht.pendingMessages ▸ hm)
  next := ht.nextFreeId.trans h.next

omit [LruCache.Ops (AlephProposal UH) ProposalStatus] in
/-- Linking `p` to the message: the relation gains the pair, on both ends. -/
theorem Attaching.link_of {t : DataStore UH M} {messageInfo' : PendingMessageInfo UH M}
    (h : Attaching id messageInfo s) (hholds : ∀ q m, t.Holds q m ↔ s.Holds q m ∨ (q = p ∧ m = id))
    (hinfo : messageInfo'.pendingProposals = messageInfo.pendingProposals.insert p)
    (hpm : t.pendingMessages = s.pendingMessages) (hnext : t.nextFreeId = s.nextFreeId)
    (hheld : ∀ q info, t.pendingProposals.lookup q = some info → info.messages.isEmpty = false) :
    Attaching id messageInfo' t where
  mirrored m q := by
    rw [hholds, ← h.mirrored, hinfo, HashSet.mem_insert,
      show t.Waits m q ↔ s.Waits m q by rw [Waits, Waits, hpm]]
    constructor
    · rintro (hw | ⟨rfl, rfl | hq⟩)
      · exact Or.inl (Or.inl hw)
      · exact Or.inr ⟨rfl, rfl⟩
      · exact Or.inl (Or.inr ⟨rfl, hq⟩)
    · rintro ((hw | ⟨rfl, hq⟩) | ⟨rfl, rfl⟩)
      · exact Or.inl hw
      · exact Or.inr ⟨rfl, Or.inr hq⟩
      · exact Or.inr ⟨rfl, Or.inl rfl⟩
  messages_waiting m info hm := h.messages_waiting m info (hpm ▸ hm)
  proposals_holding := hheld
  fresh m hm := h.fresh m (hpm ▸ hm)
  next := hnext.trans h.next

omit [LruCache.Ops (AlephProposal UH) ProposalStatus] in
/-- The proposal's entry after the link holds the message; the others are as before. -/
theorem proposals_holding_link {t : DataStore UH M} {info : PendingProposalInfo}
    (ht : ∀ q info, q ≠ p → t.pendingProposals.lookup q = some info → info.messages.isEmpty = false) :
    ∀ q info', (t.pendingProposals.insert p { info with messages := info.messages.insert id }).lookup q
      = some info' → info'.messages.isEmpty = false := by
  intro q info' hq
  by_cases hne : q = p
  · subst hne
    rw [AList.lookup_insert] at hq
    cases hq
    exact HashSet.isEmpty_insert _ _
  · rw [AList.lookup_insert_ne hne] at hq
    exact ht q info' hne hq

omit [LruCache.Ops (AlephProposal UH) ProposalStatus] in
theorem Attaching.link {info : PendingProposalInfo} (h : Attaching id messageInfo s)
    (hp : s.pendingProposals.lookup p = some info) :
    Attaching id (s.linkMessage p messageInfo id).2 (s.linkMessage p messageInfo id).1 := by
  rw [linkMessage_of_lookup s p hp]
  refine h.link_of (fun q m => ?_) rfl rfl rfl
    (proposals_holding_link fun q info' _ hq => h.proposals_holding q info' hq)
  simp only [Holds, AList.adj_insert]
  split
  · rename_i hq
    subst hq
    rw [AList.adj_of_lookup hp, HashSet.mem_insert]
    tauto
  · rename_i hq
    simp [hq]

omit [LruCache.Ops (AlephProposal UH) ProposalStatus] in
/-- A new pending proposal, after the quiet changes that register its triggers, linked to
the message. -/
theorem Attaching.linkNew {env : Env C UH} {s₁ u : DataStore UH M} (h : Attaching id messageInfo s)
    (hp : s.pendingProposals.lookup p = none) (h₁ : Frame env s s₁) (status : ProposalStatus)
    (now : Nat)
    (hu : Frame env { s₁ with
      pendingProposals := s₁.pendingProposals.insert p (PendingProposalInfo.new status now) } u) :
    Attaching id (u.linkMessage p messageInfo id).2 (u.linkMessage p messageInfo id).1 := by
  obtain ⟨info, hlook, hmsg⟩ := hu.lookup_some (AList.lookup_insert s₁.pendingProposals)
  rw [linkMessage_of_lookup u p hlook]
  have hold : ∀ q m, q ≠ p → (u.Holds q m ↔ s.Holds q m) := by
    intro q m hq
    rw [hu.holds_iff, ← h₁.holds_iff]
    simp only [Holds, AList.adj_insert, hq, if_false]
  refine h.link_of (fun q m => ?_) rfl (hu.pendingMessages.trans h₁.pendingMessages)
    (hu.nextFreeId.trans h₁.nextFreeId) (proposals_holding_link fun q info' hne hq => ?_)
  · simp only [Holds, AList.adj_insert]
    split
    · rename_i hq
      subst hq
      rw [hmsg, HashSet.mem_insert]
      simp [PendingProposalInfo.new, AList.not_adj_of_lookup hp]
    · rename_i hq
      simp only [hq, false_and, or_false]
      exact hold q m hq
  · obtain ⟨info₂, hs₂, he₂⟩ := hu.lookup_of hq
    rw [AList.lookup_insert_ne hne] at hs₂
    obtain ⟨info₁, hs₁, he₁⟩ := h₁.lookup_of hs₂
    rw [← he₂, ← he₁]
    exact h.proposals_holding q info₁ hs₁

theorem Attaching.addMessageProposalDependency (env : Env C UH) (h : Attaching id messageInfo s)
    (p : AlephProposal UH) :
    Attaching id (s.addMessageProposalDependency env p messageInfo id).2
      (s.addMessageProposalDependency env p messageInfo id).1 := by
  rcases addMessageProposalDependency_cases s p env messageInfo id with
    ⟨info, hp, heq⟩ | ⟨-, -, heq⟩ | ⟨hmem, u, hu, heq⟩ <;> rw [heq]
  · exact h.link hp
  · exact h.frame (frame_checkProposalAvailability env s p none)
  · exact h.linkNew (AList.lookup_eq_none.mpr hmem) (frame_checkProposalAvailability env s p none)
      _ env.now hu.frame

theorem Attaching.foldl (env : Env C UH) : ∀ (l : List (AlephProposal UH))
    (acc : DataStore UH M × PendingMessageInfo UH M), Attaching id acc.2 acc.1 →
    Attaching id (l.foldl (fun acc proposal => acc.1.addMessageProposalDependency env proposal acc.2 id) acc).2
      (l.foldl (fun acc proposal => acc.1.addMessageProposalDependency env proposal acc.2 id) acc).1
  | [], _, h => h
  | p :: l, _, h => Attaching.foldl env l _ (h.addMessageProposalDependency env p)

theorem Linked.onMessageReceived (env : Env C UH) (hs : s.Linked) (message : M)
    [AlephNetworkMessage M UH] : (s.onMessageReceived env message).Linked := by
  unfold DataStore.onMessageReceived
  split
  · exact hs
  · rename_i proposals _
    dsimp only [assignFreshMessageId]
    have hstart : Attaching s.nextFreeId (PendingMessageInfo.new message)
        { s with nextFreeId := s.nextFreeId + 1 } :=
      ⟨fun m q => by simpa [PendingMessageInfo.new, Waits, Holds] using hs.mirrored m q,
        hs.messages_waiting, hs.proposals_holding, hs.fresh, rfl⟩
    have hfold := Attaching.foldl env proposals
      ({ s with nextFreeId := s.nextFreeId + 1 }, PendingMessageInfo.new message) hstart
    generalize proposals.foldl _ _ = r at hfold
    obtain ⟨t, info⟩ := r
    dsimp only at hfold ⊢
    split
    · rename_i hempty
      have ht : t.Linked := ⟨fun m q => ?_, hfold.messages_waiting, hfold.proposals_holding,
        fun m hm => by rw [hfold.next]; exact Nat.lt_succ_of_lt (hfold.fresh m hm)⟩
      · -- sending the message changes nothing the links read
        exact ⟨ht.mirrored, ht.messages_waiting, ht.proposals_holding, ht.fresh⟩
      · rw [← hfold.mirrored]
        simp [HashSet.isEmpty_iff.mp hempty q]
    · rename_i hnonempty
      have hnot : ∀ q, ¬ t.Waits s.nextFreeId q := by
        rintro q ⟨i, hi, -⟩
        exact Nat.lt_irrefl _ (hfold.fresh _ (AList.mem_iff_lookup.mpr ⟨i, hi⟩))
      refine ⟨fun m q => ?_, fun m info' hm => ?_, hfold.proposals_holding, fun m hm => ?_⟩
      · show AList.Adj _ (t.pendingMessages.insert s.nextFreeId info) m q ↔ t.Holds q m
        rw [AList.adj_insert, ← hfold.mirrored]
        split
        · rename_i hm
          subst hm
          simp [hnot]
        · rename_i hm
          simp [hm, Waits]
      · by_cases hne : m = s.nextFreeId
        · subst hne
          simp only [AList.lookup_insert] at hm
          cases hm
          simpa using hnonempty
        · simp only [AList.lookup_insert_ne hne] at hm
          exact hfold.messages_waiting m info' hm
      · show m < t.nextFreeId
        rw [hfold.next]
        rcases (AList.mem_insert _).mp hm with rfl | hm
        · exact Nat.lt_succ_self _
        · exact Nat.lt_succ_of_lt (hfold.fresh m hm)

end Receive

/-! ## Pruning -/

section Prune

variable (s : DataStore UH M) (p : AlephProposal UH) (id : MessageId)

/-- `remove_message_id_from_pending_proposal` changes the pending proposals, nothing else. -/
theorem removeMessageIdFromPendingProposal_eq :
    s.removeMessageIdFromPendingProposal p id =
      { s with pendingProposals := (s.removeMessageIdFromPendingProposal p id).pendingProposals } := by
  unfold removeMessageIdFromPendingProposal
  split
  · dsimp only
    split <;> rfl
  · rfl

@[simp] theorem nextFreeId_removeMessageIdFromPendingProposal :
    (s.removeMessageIdFromPendingProposal p id).nextFreeId = s.nextFreeId := by
  rw [removeMessageIdFromPendingProposal_eq]

@[simp] theorem messagesForAleph_removeMessageIdFromPendingProposal :
    (s.removeMessageIdFromPendingProposal p id).messagesForAleph = s.messagesForAleph := by
  rw [removeMessageIdFromPendingProposal_eq]

@[simp] theorem availableProposalsCache_removeMessageIdFromPendingProposal :
    (s.removeMessageIdFromPendingProposal p id).availableProposalsCache =
      s.availableProposalsCache := by
  rw [removeMessageIdFromPendingProposal_eq]

@[simp] theorem sessionBoundaries_removeMessageIdFromPendingProposal :
    (s.removeMessageIdFromPendingProposal p id).sessionBoundaries = s.sessionBoundaries := by
  rw [removeMessageIdFromPendingProposal_eq]

@[simp] theorem config_removeMessageIdFromPendingProposal :
    (s.removeMessageIdFromPendingProposal p id).config = s.config := by
  rw [removeMessageIdFromPendingProposal_eq]

/-- The proposal stops holding the message; left holding nothing, it is dropped. -/
theorem holds_removeMessageIdFromPendingProposal {info : PendingProposalInfo}
    (h : s.pendingProposals.lookup p = some info) (q : AlephProposal UH) (m : MessageId) :
    (s.removeMessageIdFromPendingProposal p id).Holds q m ↔ s.Holds q m ∧ ¬(q = p ∧ m = id) := by
  unfold removeMessageIdFromPendingProposal
  rw [h]
  dsimp only
  split
  · rename_i hempty
    simp only [Holds, AList.adj_erase]
    constructor
    · rintro ⟨hne, hh⟩
      exact ⟨hh, fun hq => hne hq.1⟩
    · rintro ⟨hh, hn⟩
      refine ⟨fun hq => hn ⟨hq, ?_⟩, hh⟩
      subst hq
      exact HashSet.eq_of_isEmpty_erase hempty ((AList.adj_of_lookup h).mp hh)
  · simp only [Holds, AList.adj_insert]
    split
    · rename_i hq
      subst hq
      rw [AList.adj_of_lookup h, HashSet.mem_erase]
      simp only [true_and]
      exact and_comm
    · rename_i hq
      simp [hq]

theorem proposals_holding_removeMessageIdFromPendingProposal
    (hs : ∀ q info, s.pendingProposals.lookup q = some info → info.messages.isEmpty = false) :
    ∀ q info, (s.removeMessageIdFromPendingProposal p id).pendingProposals.lookup q = some info →
      info.messages.isEmpty = false := by
  unfold removeMessageIdFromPendingProposal
  split
  · dsimp only
    split
    · intro q info hq
      by_cases hne : q = p
      · subst hne
        rw [AList.lookup_erase] at hq
        cases hq
      · rw [AList.lookup_erase_ne hne] at hq
        exact hs q info hq
    · rename_i hnonempty
      intro q info hq
      by_cases hne : q = p
      · subst hne
        rw [AList.lookup_insert] at hq
        cases hq
        simpa using hnonempty
      · rw [AList.lookup_insert_ne hne] at hq
        exact hs q info hq
  · exact hs

/-- The loop of `prune_single_message` with the proposals `L` still to visit: the message is
no longer pending, and the proposals of `L`, only they, still hold it. -/
structure Unlinking (L : List (AlephProposal UH)) (s : DataStore UH M) : Prop where
  gone : s.pendingMessages.lookup id = none
  mirrored : ∀ q m, s.Holds q m ↔ s.Waits m q ∨ (m = id ∧ q ∈ L)
  nodup : L.Nodup
  messages_waiting : ∀ m info, s.pendingMessages.lookup m = some info →
    info.pendingProposals.isEmpty = false
  proposals_holding : ∀ q info, s.pendingProposals.lookup q = some info →
    info.messages.isEmpty = false
  fresh : ∀ m, m ∈ s.pendingMessages → m < s.nextFreeId

variable {id}

theorem Unlinking.step {L : List (AlephProposal UH)} (h : Unlinking id (p :: L) s) :
    Unlinking id L (s.removeMessageIdFromPendingProposal p id) := by
  obtain ⟨info, hp, -⟩ : s.Holds p id := (h.mirrored p id).mpr (Or.inr ⟨rfl, List.mem_cons_self⟩)
  have hwaits : ∀ m q, (s.removeMessageIdFromPendingProposal p id).Waits m q ↔ s.Waits m q := by
    intro m q
    simp only [Waits, pendingMessages_removeMessageIdFromPendingProposal]
  refine ⟨by simpa using h.gone, ?_, (List.nodup_cons.mp h.nodup).2, ?_, ?_, ?_⟩
  · intro q m
    rw [hwaits]
    exact mirror_remove (R := fun q m => s.Waits m q) h.mirrored
      (fun x => AList.not_adj_of_lookup h.gone) (List.nodup_cons.mp h.nodup).1
      (holds_removeMessageIdFromPendingProposal s p id hp) q m
  · simpa using h.messages_waiting
  · exact proposals_holding_removeMessageIdFromPendingProposal s p id h.proposals_holding
  · simpa using h.fresh

theorem Unlinking.foldl : ∀ (L : List (AlephProposal UH)) (s : DataStore UH M), Unlinking id L s →
    Unlinking id [] (L.foldl (fun s proposal => s.removeMessageIdFromPendingProposal proposal id) s)
  | [], _, h => h
  | _ :: L, s, h => Unlinking.foldl L _ (Unlinking.step s _ h)

theorem Unlinking.linked {s : DataStore UH M} (h : Unlinking id [] s) : s.Linked where
  mirrored m q := by simpa using (h.mirrored q m).symm
  messages_waiting := h.messages_waiting
  proposals_holding := h.proposals_holding
  fresh := h.fresh

variable {s}

theorem Linked.unlinking (hs : s.Linked) {info : PendingMessageInfo UH M}
    (hm : s.pendingMessages.lookup id = some info) :
    Unlinking id info.pendingProposals.toList { s with pendingMessages := s.pendingMessages.erase id } where
  gone := AList.lookup_erase id _
  mirrored q m := by
    simp only [Waits, AList.adj_erase]
    rw [show ({ s with pendingMessages := s.pendingMessages.erase id } : DataStore UH M).Holds q m
      ↔ s.Holds q m from Iff.rfl, ← hs.mirrored]
    by_cases hq : m = id
    · subst hq
      simp only [Waits, AList.adj_of_lookup hm, HashSet.mem_def]
      simp
    · simp [hq, Waits]
  nodup := info.pendingProposals.nodup
  messages_waiting m info' hm' := by
    by_cases hne : m = id
    · subst hne
      rw [AList.lookup_erase] at hm'
      cases hm'
    · rw [AList.lookup_erase_ne hne] at hm'
      exact hs.messages_waiting m info' hm'
  proposals_holding := hs.proposals_holding
  fresh m hm' := hs.fresh m (AList.mem_erase.mp hm').2

theorem Linked.pruneSingleMessage (hs : s.Linked) : s.pruneSingleMessage.2.Linked := by
  unfold DataStore.pruneSingleMessage
  split
  · split
    · rename_i id _ info hm
      exact (Unlinking.foldl _ _ (hs.unlinking hm)).linked
    · exact hs
  · exact hs

theorem config_pruneSingleMessage (s : DataStore UH M) : s.pruneSingleMessage.2.config = s.config := by
  have hfold : ∀ (l : List (AlephProposal UH)) (id : MessageId) (t : DataStore UH M),
      (l.foldl (fun s proposal => s.removeMessageIdFromPendingProposal proposal id) t).config =
        t.config := by
    intro l id
    induction l with
    | nil => intro t; rfl
    | cons p l ih =>
      intro t
      rw [List.foldl_cons, ih, config_removeMessageIdFromPendingProposal]
  unfold DataStore.pruneSingleMessage
  split
  · split
    · exact hfold _ _ _
    · rfl
  · rfl

/-- Pruning fails only on a store without messages. -/
theorem pruneSingleMessage_false {s' : DataStore UH M} (h : s.pruneSingleMessage = (false, s')) :
    s' = s ∧ s.pendingMessages.keys = [] := by
  unfold DataStore.pruneSingleMessage at h
  split at h
  · rename_i id hid
    split at h
    · cases h
    · rename_i hnone
      have := AList.mem_keys.mpr (List.min?_mem hid)
      rw [← AList.lookup_isSome, hnone] at this
      cases this
  · rename_i hnone
    cases h
    exact ⟨rfl, List.min?_eq_none_iff.mp hnone⟩

/-- Without messages there are no proposals: each holds a message. -/
theorem Linked.pendingProposals_eq_nil (hs : s.Linked) (h : s.pendingMessages.keys = []) :
    s.pendingProposals.keys = [] := by
  rw [List.eq_nil_iff_forall_not_mem]
  intro p hp
  obtain ⟨info, hinfo⟩ := AList.mem_iff_lookup.mp (AList.mem_keys.mpr hp)
  obtain ⟨m, hm⟩ := HashSet.exists_mem_of_isEmpty_eq_false (hs.proposals_holding p info hinfo)
  obtain ⟨info', hinfo', -⟩ := (hs.mirrored m p).mpr ⟨info, hinfo, hm⟩
  have hmem : m ∈ s.pendingMessages.keys :=
    AList.mem_keys.mp (AList.lookup_isSome.mp (by simp [hinfo']))
  rw [h] at hmem
  cases hmem

/-- The loop of `prune_pending_messages`: what every successful prune keeps holds of the
result, which is within the limits or holds no message. -/
theorem prunePendingMessages_rec (P : DataStore UH M → Prop)
    (hstep : ∀ {t t' : DataStore UH M}, P t → t.pruneSingleMessage = (true, t') → P t') :
    ∀ s : DataStore UH M, P s → P s.prunePendingMessages ∧
      ((s.prunePendingMessages.pendingMessages.keys.length ≤
          s.prunePendingMessages.config.maxMessagesPending ∧
        s.prunePendingMessages.pendingProposals.keys.length ≤
          s.prunePendingMessages.config.maxProposalsPending) ∨
        s.prunePendingMessages.pendingMessages.keys = []) := by
  intro s hs
  -- on the number of messages, which every successful prune lowers
  induction hn : s.pendingMessages.keys.length using Nat.strong_induction_on generalizing s with
  | _ n ih =>
    rw [DataStore.prunePendingMessages]
    split
    · split
      · rename_i s' hprune
        exact ih _ (hn ▸ pendingMessages_length_pruneSingleMessage hprune) s' (hstep hs hprune) rfl
      · rename_i s' hprune
        obtain ⟨rfl, hnil⟩ := pruneSingleMessage_false hprune
        exact ⟨hs, Or.inr hnil⟩
    · rename_i hcond
      simp only [not_or, not_lt] at hcond
      exact ⟨hs, Or.inl hcond⟩

theorem Linked.prunePendingMessages (hs : s.Linked) : s.prunePendingMessages.Linked ∧
    s.prunePendingMessages.config = s.config ∧
    s.prunePendingMessages.pendingMessages.keys.length ≤ s.config.maxMessagesPending ∧
    s.prunePendingMessages.pendingProposals.keys.length ≤ s.config.maxProposalsPending := by
  have hstep : ∀ {t t' : DataStore UH M}, t.Linked ∧ t.config = s.config →
      t.pruneSingleMessage = (true, t') → t'.Linked ∧ t'.config = s.config := by
    intro t t' ht hprune
    have hl := ht.1.pruneSingleMessage
    have hc := config_pruneSingleMessage t
    rw [hprune] at hl hc
    exact ⟨hl, hc.trans ht.2⟩
  obtain ⟨⟨hl, hc⟩, hbound⟩ := prunePendingMessages_rec _ hstep s ⟨hs, rfl⟩
  refine ⟨hl, hc, ?_⟩
  rw [← hc]
  rcases hbound with hbound | hnil
  · exact hbound
  · -- no message is left, hence no proposal
    rw [hnil, hl.pendingProposals_eq_nil hnil]
    exact ⟨Nat.zero_le _, Nat.zero_le _⟩

end Prune

/-! ## Every event -/

theorem linked_new (sessionBoundaries : SessionBoundaries) (topFinalizedId : BlockId)
    (config : DataStoreConfig) : (new sessionBoundaries topFinalizedId config : DataStore UH M).Linked where
  mirrored m p := by simp [Waits, Holds, new, AList.Adj, AList.lookup_empty]
  messages_waiting m info h := by simp [new, AList.lookup_empty] at h
  proposals_holding p info h := by simp [new, AList.lookup_empty] at h
  fresh m h := absurd h (AList.notMem_empty m)

variable [LruCache.Ops (AlephProposal UH) ProposalStatus] [AlephNetworkMessage M UH]

theorem Linked.step {s : DataStore UH M} (hs : s.Linked) (env : Env C UH) :
    ∀ event : Event M, (s.step env event).Linked
  | .messageReceived message => hs.onMessageReceived env message
  | .blockImported _ => hs.activateTriggers _
  | .blockFinalized _ => hs.onBlockFinalized _
  | .maintenance => hs.runMaintenance
  | .prunePendingMessages => hs.prunePendingMessages.1
  | .pruneTriggers => (bookkeeping_pruneTriggers s).linked hs

theorem Linked.runEvents : ∀ (run : List (Env C UH × Event M)) {s : DataStore UH M}, s.Linked →
    (s.runEvents run).Linked
  | [], _, hs => hs
  | e :: run, _, hs => Linked.runEvents run (hs.step e.1 e.2)

end DataStore

end Selendra.DataIo
