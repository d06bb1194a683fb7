import Selendra.DataIo.DataStoreAccounts
import Selendra.Control.Loop
import Mathlib

/-! # What the data store lets through

A message is sent only once every proposal in it has reached an available status,
`Finalize` or `Ignore`, by the checks the store made. The checks are `get_proposal_status`,
each from the status the proposal had before (or none, the first time), on the chain and with
the verifier of some event; a status read from the cache counts, as the cache only ever holds
statuses so reached. `Reached run` is the set of statuses the checks of a run can reach, and
`Released T` says what a store keeps of it for any set `T` of statuses closed under the checks
of an event (`Closed`).

Over a whole run from `DataStore::new` (`History`): the links stay consistent, what was sent
was released, no received message is sent twice, and pruning brings the store within its
limits. -/

namespace Selendra.DataIo

namespace DataStore

variable {C UH M : Type} [ChainInfoProvider C] [UnverifiedHeader UH] [DecidableEq UH]

/-- `p` has an available status in `T`. -/
def Cleared (T : AlephProposal UH → ProposalStatus → Prop) (p : AlephProposal UH) : Prop :=
  ∃ status, T p status ∧ status.isAvailable = true

/-- `T` holds every status that `get_proposal_status` gives during an event read through `env`,
from no old status or from one in `T`. -/
def Closed (env : Env C UH) (T : AlephProposal UH → ProposalStatus → Prop) : Prop :=
  ∀ p oldStatus, (∀ status ∈ oldStatus, T p status) →
    T p (getProposalStatus env.chainInfoProvider env.verifier p oldStatus)

/-- A change that keeps the messages, and whose new cache entries and statuses are in `T`. -/
structure Steady (T : AlephProposal UH → ProposalStatus → Prop) (s t : DataStore UH M) : Prop where
  quiet : Quiet s t
  cache : ∀ e ∈ t.availableProposalsCache.entries,
    e ∈ s.availableProposalsCache.entries ∨ (T e.1 e.2 ∧ e.2.isAvailable = true)
  statuses : ∀ p info, t.pendingProposals.lookup p = some info →
    (∃ info₀, s.pendingProposals.lookup p = some info₀ ∧ info.status = info₀.status) ∨ T p info.status

section Steady

variable {T T' : AlephProposal UH → ProposalStatus → Prop} {s t u : DataStore UH M}

omit [DecidableEq UH] in
theorem Cleared.mono {p : AlephProposal UH} (hp : Cleared T p) (h : ∀ p status, T p status → T' p status) :
    Cleared T' p := by
  obtain ⟨status, hstatus, havailable⟩ := hp
  exact ⟨status, h p status hstatus, havailable⟩

theorem Steady.refl (s : DataStore UH M) : Steady T s s :=
  ⟨Quiet.refl s, fun _ h => Or.inl h, fun _ info h => Or.inl ⟨info, h, rfl⟩⟩

theorem Steady.trans (h : Steady T s t) (h' : Steady T t u) : Steady T s u where
  quiet := h.quiet.trans h'.quiet
  cache e he := (h'.cache e he).elim (h.cache e) Or.inr
  statuses p info hp := by
    rcases h'.statuses p info hp with ⟨info₁, h₁, heq₁⟩ | hT
    · rcases h.statuses p info₁ h₁ with ⟨info₀, h₀, heq₀⟩ | hT
      · exact Or.inl ⟨info₀, h₀, heq₁.trans heq₀⟩
      · exact Or.inr (heq₁ ▸ hT)
    · exact Or.inr hT

theorem Bookkeeping.steady (h : Bookkeeping s t) : Steady T s t where
  quiet := h.quiet
  cache _ he := Or.inl (h.availableProposalsCache ▸ he)
  statuses _ info hp := Or.inl ⟨info, h.pendingProposals ▸ hp, rfl⟩

/-- A change of the pending proposals alone, each status an old one or one of `T`. -/
theorem steady_pendingProposals
    (pendingProposals : AList (fun _ : AlephProposal UH => PendingProposalInfo))
    (h : ∀ p info, pendingProposals.lookup p = some info →
      (∃ info₀, s.pendingProposals.lookup p = some info₀ ∧ info.status = info₀.status) ∨
        T p info.status) :
    Steady T s { s with pendingProposals := pendingProposals } :=
  ⟨quiet_pendingProposals _, fun _ he => Or.inl he, h⟩

theorem steady_insert {p : AlephProposal UH} {v : PendingProposalInfo}
    (hv : (∃ info₀, s.pendingProposals.lookup p = some info₀ ∧ v.status = info₀.status) ∨ T p v.status) :
    Steady T s { s with pendingProposals := s.pendingProposals.insert p v } := by
  refine steady_pendingProposals _ fun q info hq => ?_
  by_cases hne : q = p
  · subst hne
    rw [AList.lookup_insert] at hq
    cases hq
    exact hv
  · rw [AList.lookup_insert_ne hne] at hq
    exact Or.inl ⟨info, hq, rfl⟩

theorem steady_erase (p : AlephProposal UH) :
    Steady T s { s with pendingProposals := s.pendingProposals.erase p } := by
  refine steady_pendingProposals _ fun q info hq => ?_
  have hne : q ≠ p := by
    rintro rfl
    rw [AList.lookup_erase] at hq
    cases hq
  rw [AList.lookup_erase_ne hne] at hq
  exact Or.inl ⟨info, hq, rfl⟩

end Steady

variable [AlephNetworkMessage M UH]

/-- `p` is a proposal of `message` within the session's bounds: one that
`on_message_received` finds in it. -/
def Proposes (sessionBoundaries : SessionBoundaries) (message : M) (p : AlephProposal UH) : Prop :=
  ∃ data ∈ AlephNetworkMessage.includedData message,
    data.headProposal.validateBounds sessionBoundaries = .ok p

/-- What `s` keeps of the checks: the messages sent are cleared, each pending message waits
for those of its proposals not cleared, and the cache and the pending proposals hold statuses
of `T` only, the cache available ones. -/
structure Released (T : AlephProposal UH → ProposalStatus → Prop) (s : DataStore UH M) : Prop where
  sent : ∀ message ∈ s.messagesForAleph, ∀ p, Proposes s.sessionBoundaries message p → Cleared T p
  waiting : ∀ m info, s.pendingMessages.lookup m = some info →
    ∀ p, Proposes s.sessionBoundaries info.message p → p ∈ info.pendingProposals ∨ Cleared T p
  cached : ∀ e ∈ s.availableProposalsCache.entries, T e.1 e.2 ∧ e.2.isAvailable = true
  statuses : ∀ p info, s.pendingProposals.lookup p = some info → T p info.status

section Relations

variable {T T' : AlephProposal UH → ProposalStatus → Prop} {s t : DataStore UH M}

theorem Released.mono (hs : s.Released T) (h : ∀ p status, T p status → T' p status) :
    s.Released T' where
  sent message hm p hp := (hs.sent message hm p hp).mono h
  waiting m info hm p hp := (hs.waiting m info hm p hp).imp_right fun hc => hc.mono h
  cached e he := ⟨h _ _ (hs.cached e he).1, (hs.cached e he).2⟩
  statuses p info hp := h _ _ (hs.statuses p info hp)

theorem Steady.released (h : Steady T s t) (hs : s.Released T) : t.Released T where
  sent message hm := by
    rw [h.quiet.sessionBoundaries]
    exact hs.sent message (h.quiet.messagesForAleph ▸ hm)
  waiting m info hm := by
    rw [h.quiet.sessionBoundaries]
    exact hs.waiting m info (h.quiet.pendingMessages ▸ hm)
  cached e he := (h.cache e he).elim (hs.cached e) id
  statuses p info hp := by
    rcases h.statuses p info hp with ⟨info₀, h₀, heq⟩ | hT
    · rw [heq]
      exact hs.statuses p info₀ h₀
    · exact hT

end Relations

/-! ## The status checks -/

section Check

variable [LruCache.Ops (AlephProposal UH) ProposalStatus]
  (env : Env C UH) {T : AlephProposal UH → ProposalStatus → Prop} (hT : Closed env T)
  {s : DataStore UH M} (hs : s.Released T) (p : AlephProposal UH)
include hT hs

/-- A check from an old status of `T` gives a status of `T`, from the cache or anew, and caches
only such a status. -/
theorem steady_checkProposalAvailability {oldStatus : Option ProposalStatus}
    (hold : ∀ status ∈ oldStatus, T p status) :
    Steady T s (s.checkProposalAvailability env p oldStatus).2 ∧
      T p (s.checkProposalAvailability env p oldStatus).1 := by
  unfold checkProposalAvailability
  split
  · rename_i status cache hget
    have hc : cache = (s.availableProposalsCache.get p).2 := by rw [hget]
    have hstatus : (s.availableProposalsCache.get p).1 = some status := by rw [hget]
    exact ⟨⟨⟨rfl, rfl, rfl, rfl⟩, fun e he => Or.inl (LruCache.entries_get (hc ▸ he)),
      fun q info hq => Or.inl ⟨info, hq, rfl⟩⟩, (hs.cached _ (LruCache.mem_of_get hstatus)).1⟩
  · rename_i cache hget
    have hc : cache = (s.availableProposalsCache.get p).2 := by rw [hget]
    have hnew := hT p oldStatus hold
    dsimp only
    split
    · rename_i havailable
      refine ⟨⟨⟨rfl, rfl, rfl, rfl⟩, fun e he => ?_, fun q info hq => Or.inl ⟨info, hq, rfl⟩⟩, hnew⟩
      rcases LruCache.entries_put he with rfl | he
      · exact Or.inr ⟨hnew, havailable⟩
      · exact Or.inl (LruCache.entries_get (hc ▸ he))
    · exact ⟨⟨⟨rfl, rfl, rfl, rfl⟩, fun e he => Or.inl (LruCache.entries_get (hc ▸ he)),
        fun q info hq => Or.inl ⟨info, hq, rfl⟩⟩, hnew⟩

/-- The check of a pending proposal from its status, and the status it gives recorded. -/
theorem steady_recordStatus {info : PendingProposalInfo} (hp : s.pendingProposals.lookup p = some info) :
    Steady T s { (s.checkProposalAvailability env p (some info.status)).2 with
      pendingProposals := (s.checkProposalAvailability env p (some info.status)).2.pendingProposals.insert
        p { info with status := (s.checkProposalAvailability env p (some info.status)).1 } } ∧
      T p (s.checkProposalAvailability env p (some info.status)).1 := by
  obtain ⟨hc, hstatus⟩ := steady_checkProposalAvailability env hT hs p fun status h => by
    rw [← Option.mem_some_iff.mp h]
    exact hs.statuses p info hp
  exact ⟨hc.trans (steady_insert (Or.inr hstatus)), hstatus⟩

end Check

/-! ## A proposal becomes available -/

section Available

variable {T : AlephProposal UH → ProposalStatus → Prop} (s : DataStore UH M) (p : AlephProposal UH)

theorem Released.removeProposalFromPendingMessage (hs : s.Released T) (hp : Cleared T p)
    (m : MessageId) : (s.removeProposalFromPendingMessage p m).Released T := by
  unfold DataStore.removeProposalFromPendingMessage
  split
  · exact hs
  · rename_i info hm
    dsimp only
    split
    · rename_i hempty
      refine ⟨fun message hmsg q hq => ?_, fun m' info' hm' q hq => ?_, hs.cached, hs.statuses⟩
      · simp only [onMessageDependenciesResolved, List.mem_append, List.mem_singleton] at hmsg
        rcases hmsg with hmsg | rfl
        · exact hs.sent message hmsg q hq
        · -- sent now: of its proposals, it waited at most for `p`
          rcases hs.waiting m info hm q hq with hq' | hq'
          · by_cases hqp : q = p
            · exact hqp ▸ hp
            · exact absurd (HashSet.mem_erase.mpr ⟨hqp, hq'⟩) (HashSet.isEmpty_iff.mp hempty q)
          · exact hq'
      · simp only [onMessageDependenciesResolved] at hm'
        have hne : m' ≠ m := by
          rintro rfl
          rw [AList.lookup_erase] at hm'
          cases hm'
        rw [AList.lookup_erase_ne hne] at hm'
        exact hs.waiting m' info' hm' q hq
    · refine ⟨hs.sent, fun m' info' hm' q hq => ?_, hs.cached, hs.statuses⟩
      by_cases hne : m' = m
      · subst hne
        rw [AList.lookup_insert] at hm'
        cases hm'
        rcases hs.waiting _ info hm q hq with hq' | hq'
        · by_cases hqp : q = p
          · exact Or.inr (hqp ▸ hp)
          · exact Or.inl (HashSet.mem_erase.mpr ⟨hqp, hq'⟩)
        · exact Or.inr hq'
      · rw [AList.lookup_insert_ne hne, AList.lookup_erase_ne hne] at hm'
        exact hs.waiting m' info' hm' q hq

theorem Released.onProposalAvailable (hs : s.Released T) (hp : Cleared T p) :
    (s.onProposalAvailable p).Released T := by
  unfold DataStore.onProposalAvailable
  split
  · exact hs
  · exact List.foldlRecOn (motive := Released T) _ _ ((steady_erase p).released hs) fun t ht m _ =>
      ht.removeProposalFromPendingMessage t p hp m

end Available

/-! ## Bumps, and the events made of them -/

section Bump

variable [LruCache.Ops (AlephProposal UH) ProposalStatus]
  {env : Env C UH} {T : AlephProposal UH → ProposalStatus → Prop} (hT : Closed env T)
  {s : DataStore UH M}
include hT

theorem Released.bumpProposal (hs : s.Released T) (p : AlephProposal UH) :
    (s.bumpProposal env p).2.Released T := by
  rcases bumpProposal_cases env s p with ⟨-, hb⟩ | ⟨info, t, hp, rfl, ⟨havailable, hb⟩ | ⟨u, hu, hb⟩⟩
  · rw [hb]
    exact hs
  · -- the status that made the proposal available is one of `T`
    obtain ⟨ht, hstatus⟩ := steady_recordStatus env hT hs p hp
    rw [hb]
    exact (ht.released hs).onProposalAvailable _ p ⟨_, hstatus, havailable⟩
  · rw [hb]
    exact hu.steady.released ((steady_recordStatus env hT hs p hp).1.released hs)

theorem bumpClosed_released : BumpClosed env (Released T : DataStore UH M → Prop) :=
  ⟨fun h ht => h.steady.released ht, fun _ p ht => ht.bumpProposal hT p⟩

theorem Released.activateTriggers (hs : s.Released T) (event : ChainEvent) :
    (s.activateTriggers env event).Released T :=
  (bumpClosed_released hT).activateTriggers hs event

theorem Released.onBlockFinalized (hs : s.Released T) (block : BlockId) :
    (s.onBlockFinalized env block).Released T :=
  (bumpClosed_released hT).onBlockFinalized hs block

theorem Released.runMaintenance (hs : s.Released T) : (s.runMaintenance env).Released T :=
  (bumpClosed_released hT).runMaintenance hs

end Bump

/-! ## A new message -/

section Receive

variable {env : Env C UH} {T : AlephProposal UH → ProposalStatus → Prop}

/-- The loop of `on_message_received` after the proposals `L`: each of them is waited for
or cleared. -/
structure Gathering (T : AlephProposal UH → ProposalStatus → Prop) (L : List (AlephProposal UH))
    (acc : DataStore UH M × PendingMessageInfo UH M) : Prop where
  released : acc.1.Released T
  waits : ∀ q ∈ L, q ∈ acc.2.pendingProposals ∨ Cleared T q

omit [ChainInfoProvider C] [AlephNetworkMessage M UH] in
/-- Waiting for one more proposal. -/
theorem waits_insert {L : List (AlephProposal UH)} {messageInfo : PendingMessageInfo UH M}
    {p : AlephProposal UH} (h : ∀ q ∈ L, q ∈ messageInfo.pendingProposals ∨ Cleared T q) :
    ∀ q ∈ L ++ [p], q ∈ messageInfo.pendingProposals.insert p ∨ Cleared T q := by
  intro q hq
  rcases List.mem_append.mp hq with hq | hq
  · exact (h q hq).imp_left fun hmem => HashSet.mem_insert.mpr (Or.inr hmem)
  · exact Or.inl (HashSet.mem_insert.mpr (Or.inl (List.mem_singleton.mp hq)))

variable [LruCache.Ops (AlephProposal UH) ProposalStatus] (hT : Closed env T)
include hT

theorem Gathering.step {L : List (AlephProposal UH)} {acc : DataStore UH M × PendingMessageInfo UH M}
    (h : Gathering T L acc) (p : AlephProposal UH) (id : MessageId) :
    Gathering T (L ++ [p]) (acc.1.addMessageProposalDependency env p acc.2 id) := by
  have hnone : ∀ status ∈ (none : Option ProposalStatus), T p status :=
    fun status h => absurd h (Option.not_mem_none status)
  rcases addMessageProposalDependency_cases acc.1 p env acc.2 id with
    ⟨info, hp, heq⟩ | ⟨-, havailable, heq⟩ | ⟨-, u, hu, heq⟩ <;> rw [heq]
  · -- a pending proposal: the message waits for it too
    rw [linkMessage_of_lookup acc.1 p hp]
    refine ⟨Steady.released ?_ h.released, waits_insert h.waits⟩
    exact steady_insert (Or.inl ⟨info, hp, rfl⟩)
  · -- available at once
    obtain ⟨hc, hstatus⟩ := steady_checkProposalAvailability env hT h.released p hnone
    refine ⟨hc.released h.released, fun q hq => ?_⟩
    rcases List.mem_append.mp hq with hq | hq
    · exact h.waits q hq
    · rw [List.mem_singleton.mp hq]
      exact Or.inr ⟨_, hstatus, havailable⟩
  · -- a new pending proposal with a status of `T`, then its triggers and the link
    obtain ⟨hc, hstatus⟩ := steady_checkProposalAvailability env hT h.released p hnone
    have hu' := (hc.trans (steady_insert (Or.inr hstatus))).trans hu.steady
    have hlook : u.pendingProposals.lookup p = some (PendingProposalInfo.new
        (acc.1.checkProposalAvailability env p none).1 env.now) := by
      rw [hu.pendingProposals]
      exact AList.lookup_insert _
    rw [linkMessage_of_lookup u p hlook]
    refine ⟨Steady.released ?_ (hu'.released h.released), waits_insert h.waits⟩
    exact steady_insert (Or.inl ⟨_, hlook, rfl⟩)

theorem Gathering.foldl (id : MessageId) :
    ∀ (l L : List (AlephProposal UH)) (acc : DataStore UH M × PendingMessageInfo UH M),
      Gathering T L acc →
      Gathering T (L ++ l)
        (l.foldl (fun acc proposal => acc.1.addMessageProposalDependency env proposal acc.2 id) acc)
  | [], L, _, h => by rwa [List.append_nil]
  | p :: l, L, _, h => by
    have := Gathering.foldl id l (L ++ [p]) _ (h.step hT p id)
    rwa [List.append_assoc, List.singleton_append] at this

theorem Released.onMessageReceived {s : DataStore UH M} (hs : s.Released T) (message : M) :
    (s.onMessageReceived env message).Released T := by
  unfold DataStore.onMessageReceived
  split
  · exact hs
  · rename_i proposals hok
    dsimp only [assignFreshMessageId]
    have hstart : Gathering T []
        ({ s with nextFreeId := s.nextFreeId + 1 }, PendingMessageInfo.new message) :=
      ⟨⟨hs.sent, hs.waiting, hs.cached, hs.statuses⟩, fun _ h => absurd h List.not_mem_nil⟩
    have hfold := Gathering.foldl hT s.nextFreeId proposals [] _ hstart
    have hq := quiet_foldl_addMessageProposalDependency env s.nextFreeId proposals
      ({ s with nextFreeId := s.nextFreeId + 1 }, PendingMessageInfo.new message)
    generalize proposals.foldl _ _ = r at hfold hq
    obtain ⟨t, info⟩ := r
    obtain ⟨hq, hmsg⟩ := hq
    dsimp only [PendingMessageInfo.new] at hmsg hfold ⊢
    -- every proposal of the message was validated, so visited by the loop
    have hwaits : ∀ q, Proposes t.sessionBoundaries message q →
        q ∈ info.pendingProposals ∨ Cleared T q := by
      rintro q ⟨data, hdata, hvalid⟩
      rw [hq.sessionBoundaries] at hvalid
      exact hfold.waits q (Except.mem_of_mapM_eq_ok hok data hdata q hvalid)
    split
    · rename_i hempty
      refine ⟨fun msg hm q hq' => ?_, hfold.released.waiting, hfold.released.cached,
        hfold.released.statuses⟩
      simp only [onMessageDependenciesResolved, List.mem_append, List.mem_singleton] at hm
      rcases hm with hm | rfl
      · exact hfold.released.sent msg hm q hq'
      · exact (hwaits q hq').resolve_left (HashSet.isEmpty_iff.mp hempty q)
    · refine ⟨hfold.released.sent, fun m info' hm q hq' => ?_, hfold.released.cached,
        hfold.released.statuses⟩
      by_cases hne : m = s.nextFreeId
      · subst hne
        rw [AList.lookup_insert] at hm
        cases hm
        rw [hmsg] at hq'
        exact hwaits q hq'
      · rw [AList.lookup_insert_ne hne] at hm
        exact hfold.released.waiting m info' hm q hq'

end Receive

/-! ## Pruning -/

section Prune

variable (s : DataStore UH M) {T : AlephProposal UH → ProposalStatus → Prop}

theorem Released.erase (hs : s.Released T) (id : MessageId) :
    ({ s with pendingMessages := s.pendingMessages.erase id } : DataStore UH M).Released T := by
  refine ⟨hs.sent, fun m info hm => ?_, hs.cached, hs.statuses⟩
  have hne : m ≠ id := by
    rintro rfl
    rw [AList.lookup_erase] at hm
    cases hm
  rw [AList.lookup_erase_ne hne] at hm
  exact hs.waiting m info hm

omit [AlephNetworkMessage M UH] in
theorem steady_removeMessageIdFromPendingProposal (p : AlephProposal UH) (id : MessageId) :
    Steady T s (s.removeMessageIdFromPendingProposal p id) := by
  unfold removeMessageIdFromPendingProposal
  split
  · rename_i info hp
    dsimp only
    split
    · exact steady_erase p
    · exact steady_insert (Or.inl ⟨info, hp, rfl⟩)
  · exact Steady.refl s

theorem Released.pruneSingleMessage (hs : s.Released T) : s.pruneSingleMessage.2.Released T := by
  unfold DataStore.pruneSingleMessage
  split
  · split
    · exact List.foldlRecOn (motive := Released T) _ _ (hs.erase s _) fun t ht q _ =>
        (steady_removeMessageIdFromPendingProposal t q _).released ht
    · exact hs
  · exact hs

theorem Released.prunePendingMessages (hs : s.Released T) : s.prunePendingMessages.Released T :=
  (prunePendingMessages_rec (Released T) (fun {t t'} ht h => by
    have := ht.pruneSingleMessage t
    rwa [h] at this) s hs).1

end Prune

variable [LruCache.Ops (AlephProposal UH) ProposalStatus]

/-! ## Every event, and whole runs -/

theorem Released.step {env : Env C UH} {T : AlephProposal UH → ProposalStatus → Prop}
    (hT : Closed env T) {s : DataStore UH M} (hs : s.Released T) :
    ∀ event : Event M, (s.step env event).Released T
  | .messageReceived message => hs.onMessageReceived hT message
  | .blockImported _ => hs.activateTriggers hT _
  | .blockFinalized _ => hs.onBlockFinalized hT _
  | .maintenance => hs.runMaintenance hT
  | .prunePendingMessages => hs.prunePendingMessages s
  | .pruneTriggers => (bookkeeping_pruneTriggers s).steady.released hs

/-- The statuses the checks of a run can give `p`: `get_proposal_status` at an event of the
run, from no old status or from a status so reached. -/
inductive Reached (run : List (Env C UH × Event M)) (p : AlephProposal UH) : ProposalStatus → Prop
  | check (e : Env C UH × Event M) (oldStatus : Option ProposalStatus) (he : e ∈ run)
      (hold : ∀ status ∈ oldStatus, Reached run p status) :
      Reached run p (getProposalStatus e.1.chainInfoProvider e.1.verifier p oldStatus)

section Run

variable {run : List (Env C UH × Event M)} (e : Env C UH × Event M)

omit [DecidableEq UH] [LruCache.Ops (AlephProposal UH) ProposalStatus] [AlephNetworkMessage M UH] in
theorem Reached.append {p : AlephProposal UH} {status : ProposalStatus} (h : Reached run p status) :
    Reached (run ++ [e]) p status := by
  induction h with
  | check e' oldStatus he _ ih => exact Reached.check e' oldStatus (List.mem_append_left _ he) ih

omit [DecidableEq UH] [LruCache.Ops (AlephProposal UH) ProposalStatus] [AlephNetworkMessage M UH] in
theorem closed_reached : Closed e.1 (Reached (run ++ [e])) := fun _ oldStatus hold =>
  Reached.check e oldStatus (List.mem_append_right _ (List.mem_singleton_self e)) hold

theorem runEvents_append (s : DataStore UH M) :
    s.runEvents (run ++ [e]) = (s.runEvents run).step e.1 e.2 := by
  rw [runEvents, runEvents, List.foldl_append]
  rfl

end Run

/-- What a run from `DataStore::new` with these bounds and limits keeps. -/
structure History (run : List (Env C UH × Event M)) (sessionBoundaries : SessionBoundaries)
    (config : DataStoreConfig) (s : DataStore UH M) : Prop where
  linked : s.Linked
  released : s.Released (Reached run)
  outstanding : s.outstanding ≤ (received run : Multiset M)
  sessionBoundaries : s.sessionBoundaries = sessionBoundaries
  config : s.config = config

omit [LruCache.Ops (AlephProposal UH) ProposalStatus] in
theorem history_new (sessionBoundaries : SessionBoundaries) (topFinalizedId : BlockId)
    (config : DataStoreConfig) :
    History ([] : List (Env C UH × Event M)) sessionBoundaries config
      (new sessionBoundaries topFinalizedId config : DataStore UH M) where
  linked := linked_new sessionBoundaries topFinalizedId config
  released := ⟨fun _ hm => absurd hm List.not_mem_nil,
    fun _ _ hm => by simp [new, AList.lookup_empty] at hm, fun _ he => absurd he List.not_mem_nil,
    fun _ _ hp => by simp [new, AList.lookup_empty] at hp⟩
  outstanding := le_of_eq rfl
  sessionBoundaries := rfl
  config := rfl

theorem History.step {run : List (Env C UH × Event M)} {sessionBoundaries : SessionBoundaries}
    {config : DataStoreConfig} {s : DataStore UH M} (h : History run sessionBoundaries config s)
    (e : Env C UH × Event M) : History (run ++ [e]) sessionBoundaries config (s.step e.1 e.2) := by
  have ha := accounted_step e.1 h.linked e.2
  refine ⟨h.linked.step e.1 e.2,
    (h.released.mono fun _ _ hstatus => hstatus.append e).step (closed_reached e) e.2, ?_,
    ha.sessionBoundaries.trans h.sessionBoundaries, ha.config.trans h.config⟩
  calc (s.step e.1 e.2).outstanding
      ≤ s.outstanding + (e.2.receivedMessages : Multiset M) := ha.outstanding
    _ ≤ (received run : Multiset M) + (e.2.receivedMessages : Multiset M) :=
      Multiset.add_le_add_right h.outstanding
    _ = (received (run ++ [e]) : Multiset M) := by rw [received_append, Multiset.coe_add]

theorem history_runEvents (sessionBoundaries : SessionBoundaries) (topFinalizedId : BlockId)
    (config : DataStoreConfig) (run : List (Env C UH × Event M)) :
    History run sessionBoundaries config
      ((new sessionBoundaries topFinalizedId config : DataStore UH M).runEvents run) := by
  -- on the run from its end: each event is one more step
  induction run using List.reverseRecOn with
  | nil => exact history_new sessionBoundaries topFinalizedId config
  | append_singleton run e ih =>
    rw [runEvents_append]
    exact ih.step e

/-- Every store a run of events reaches from `DataStore::new`: its dependency graph is
consistent both ways, every message it sent was received, none twice, and was sent only once
each of its proposals had reached `Finalize` or `Ignore` by the checks of the run; after
`prune_pending_messages` it holds no more messages and proposals than its limits. -/
theorem runEvents_messages_released (sessionBoundaries : SessionBoundaries) (topFinalizedId : BlockId)
    (config : DataStoreConfig) (run : List (Env C UH × Event M)) :
    let s : DataStore UH M := (new sessionBoundaries topFinalizedId config).runEvents run
    s.Linked ∧
      (∀ message ∈ s.messagesForAleph, ∀ p, Proposes sessionBoundaries message p →
        Cleared (Reached run) p) ∧
      (s.messagesForAleph : Multiset M) ≤ (received run : Multiset M) ∧
      s.prunePendingMessages.pendingMessages.keys.length ≤ config.maxMessagesPending ∧
      s.prunePendingMessages.pendingProposals.keys.length ≤ config.maxProposalsPending := by
  intro s
  have h := history_runEvents sessionBoundaries topFinalizedId config run
  obtain ⟨-, -, hmessages, hproposals⟩ := h.linked.prunePendingMessages
  rw [h.config] at hmessages hproposals
  refine ⟨h.linked, fun message hm p hp => h.released.sent message hm p ?_,
    (Multiset.le_add_right _ _).trans h.outstanding, hmessages, hproposals⟩
  rwa [h.sessionBoundaries]

end DataStore

end Selendra.DataIo
