import Selendra.Network.Manager

/-! # Runs of the session-network manager

Over every run the two maps of `Connections` stay mirrored, and the reserved set the network
builds from the emitted commands is the set of peers some session needs. The invariant `Inv`
adds what the handlers contribute: each keeps its authentications under their peers, and a
validator session's connections hold every peer it has an authentication for, so an update,
which keeps only peers it had, never needs to reserve a peer anew. -/

namespace Selendra.Network

variable {A P Vf Pen Sig : Type} [AddressingInformation A P] [DecidableEq P]

open AddressingInformation

/-! ## The reserved set -/

@[simp] theorem mem_apply_addReserved {reserved : HashSet P} {addresses : HashSet A} {p : P} :
    p ∈ (ConnectionCommand.addReserved addresses).apply reserved ↔
      p ∈ reserved ∨ ∃ a ∈ addresses, peerId a = p := by
  rw [ConnectionCommand.apply, HashSet.mem_ofList, List.mem_append, List.mem_map]
  exact Iff.rfl

@[simp] theorem mem_apply_delReserved {reserved : HashSet P} {peers : HashSet P} {p : P} :
    p ∈ (ConnectionCommand.delReserved peers : ConnectionCommand A P).apply reserved ↔
      p ∈ reserved ∧ p ∉ peers := by
  simp [ConnectionCommand.apply]

@[simp] theorem applyCommand_none (reserved : HashSet P) :
    applyCommand reserved (none : Option (ConnectionCommand A P)) = reserved := rfl

/-- `delete_reserved` takes the peers out of the reserved set, emitting nothing for none. -/
theorem mem_applyCommand_deleteReserved {reserved toRemove : HashSet P} {p : P} :
    p ∈ applyCommand reserved (Manager.deleteReserved toRemove : Option (ConnectionCommand A P)) ↔
      p ∈ reserved ∧ p ∉ toRemove := by
  unfold Manager.deleteReserved
  cases h : toRemove.isEmpty with
  | true => simpa using fun _ => HashSet.isEmpty_iff.mp h p
  | false => simp [applyCommand]

/-- A command that deletes peers deletes only peers no session needs. -/
def DeletesUnneeded (command : Option (ConnectionCommand A P)) (c : Connections P) : Prop :=
  ∀ peers, command = some (.delReserved peers) → ∀ p ∈ peers, ∀ s, ¬ c.Linked s p

omit [AddressingInformation A P] [DecidableEq P] in
theorem deletesUnneeded_deleteReserved {toRemove : HashSet P} {c : Connections P}
    (h : ∀ p ∈ toRemove, ∀ s, ¬ c.Linked s p) :
    DeletesUnneeded (Manager.deleteReserved toRemove : Option (ConnectionCommand A P)) c := by
  intro peers hd
  unfold Manager.deleteReserved at hd
  cases hempty : toRemove.isEmpty <;> rw [hempty] at hd
  · cases hd
    exact h
  · cases hd

/-- A peer linked somewhere after a session's peers are taken back is linked to another
session, and conversely. -/
theorem exists_linked_other {R : SessionId → Prop} {i : SessionId} :
    (∃ s, R s) ∧ ¬(R i ∧ ∀ s, R s → s = i) ↔ ∃ s, R s ∧ s ≠ i := by
  constructor
  · rintro ⟨⟨s, hs⟩, hn⟩
    by_cases hsi : s = i
    · subst hsi
      by_contra hno
      exact hn ⟨hs, fun s' hs' => Classical.byContradiction fun hne => hno ⟨s', hs', hne⟩⟩
    · exact ⟨s, hs, hsi⟩
  · rintro ⟨s, hs, hne⟩
    exact ⟨⟨s, hs⟩, fun ⟨_, honly⟩ => hne (honly s hs)⟩

/-! ## The invariant -/

namespace Manager

/-- The connections are mirrored and reserved; every handler keeps its authentications under
their peers, and a validator session is connected to every peer it has one for. -/
structure Inv (m : Manager A P Vf Pen Sig) (reserved : HashSet P) : Prop where
  mirrors : m.connections.Mirrors
  reserved_iff : ∀ p, p ∈ reserved ↔ ∃ s, m.connections.Linked s p
  keyed : ∀ s session, m.sessions.lookup s = some session → session.handler.Keyed
  connected : ∀ s session, m.sessions.lookup s = some session →
    session.handler.isValidator = true → ∀ p ∈ session.handler.authentications,
      m.connections.Linked s p

theorem inv_new (discoveryCooldown : Nat) :
    Inv (new discoveryCooldown : Manager A P Vf Pen Sig) ∅ where
  mirrors := Connections.mirrors_new
  reserved_iff p := by simp [new, Connections.new, Connections.Linked, AList.Adj]
  keyed s session h := by simp [new] at h
  connected s session h := by simp [new] at h

variable {crypto : Crypto A Vf Pen Sig} {m : Manager A P Vf Pen Sig} {reserved : HashSet P}

/-- A new or renewed session at a key keeps the other sessions' part of the invariant; its own
handler must be keyed, and connected if it is a validator. -/
theorem Inv.insertSession (hi : Inv m reserved) (sessionId : SessionId)
    (session : Session A P Vf Pen Sig) (hk : session.handler.Keyed)
    (hc : session.handler.isValidator = true → ∀ p ∈ session.handler.authentications,
      m.connections.Linked sessionId p) :
    Inv { m with sessions := m.sessions.insert sessionId session } reserved :=
  { hi with
    keyed := fun s session' hs => by
      by_cases hsi : s = sessionId
      · subst hsi
        rw [AList.lookup_insert] at hs
        cases hs
        exact hk
      · rw [AList.lookup_insert_ne hsi] at hs
        exact hi.keyed s session' hs
    connected := fun s session' hs => by
      by_cases hsi : s = sessionId
      · subst hsi
        rw [AList.lookup_insert] at hs
        cases hs
        exact hc
      · rw [AList.lookup_insert_ne hsi] at hs
        exact hi.connected s session' hs }

omit [AddressingInformation A P] in
theorem finishSession_eq (sessionId : SessionId) :
    m.finishSession sessionId =
      (⟨deleteReserved (m.connections.removeSession sessionId).1, none⟩,
        { m with
          sessions := m.sessions.erase sessionId
          connections := (m.connections.removeSession sessionId).2 }) := by
  unfold finishSession
  dsimp only

/-- Ending a session drops the peers no other session needs, and only them. -/
theorem Inv.finishSession (hi : Inv m reserved) (sessionId : SessionId) :
    Inv (m.finishSession sessionId).2 (applyCommand reserved (m.finishSession sessionId).1.maybeCommand) ∧
      DeletesUnneeded (m.finishSession sessionId).1.maybeCommand
        (m.finishSession sessionId).2.connections := by
  obtain ⟨hmir, hlinked, hresult⟩ := hi.mirrors.removeSession sessionId
  rw [finishSession_eq]
  -- the ended session has no handler left; the others keep theirs
  have hkept : ∀ s session, (m.sessions.erase sessionId).lookup s = some session →
      s ≠ sessionId ∧ m.sessions.lookup s = some session := by
    intro s session hs
    have hsi : s ≠ sessionId := by
      rintro rfl
      simp at hs
    exact ⟨hsi, by rwa [AList.lookup_erase_ne hsi] at hs⟩
  refine ⟨⟨hmir, fun p => ?_, fun s session hs => ?_, fun s session hs => ?_⟩, ?_⟩
  · rw [mem_applyCommand_deleteReserved, hi.reserved_iff, hresult]
    simp only [hlinked]
    exact exists_linked_other
  · exact hi.keyed s session (hkept s session hs).2
  · intro hv p hp
    obtain ⟨hsi, hs⟩ := hkept s session hs
    exact (hlinked s p).mpr ⟨hi.connected s session hs hv p hp, hsi⟩
  · apply deletesUnneeded_deleteReserved
    intro p hp s hs
    obtain ⟨hl, hne⟩ := (hlinked s p).mp hs
    exact hne (((hresult p).mp hp).2 s hl)

/-- A call keeps the invariant, and deletes only peers no session needs. -/
def Preserves (reserved : HashSet P)
    (r : Option (ConnectionCommand A P) × Manager A P Vf Pen Sig) : Prop :=
  Inv r.2 (applyCommand reserved r.1) ∧ DeletesUnneeded r.1 r.2.connections

/-- The three ways `update_validator_session` ends: a new session, a failed update, or an
update that keeps the peers whose authentications still check. -/
theorem updateValidatorSession_cases (crypto : Crypto A Vf Pen Sig) (m : Manager A P Vf Pen Sig)
    (preSession : PreValidatorSession Vf Pen) (address : A) :
    (m.sessions.lookup preSession.sessionId = none ∧
      ∃ maybeMessage, m.updateValidatorSession crypto preSession address =
        (.ok ⟨none, maybeMessage⟩, (m.startValidatorSession crypto preSession address).2)) ∨
    (∃ session e, m.sessions.lookup preSession.sessionId = some session ∧
      session.handler.update crypto (some (preSession.nodeId, preSession.pen)) preSession.verifier
        address = .error e ∧
      m.updateValidatorSession crypto preSession address = (.error e, m)) ∨
    (∃ session addresses handler maybeMessage,
      m.sessions.lookup preSession.sessionId = some session ∧
      session.handler.update crypto (some (preSession.nodeId, preSession.pen)) preSession.verifier
        address = .ok (addresses, handler) ∧
      m.updateValidatorSession crypto preSession address =
        (.ok ⟨deleteReserved ((m.connections.removeSession preSession.sessionId).1.filter
            fun p => decide (p ∉ HashSet.ofList (addresses.map peerId))), maybeMessage⟩,
          { m with
            sessions := m.sessions.insert preSession.sessionId { session with handler := handler }
            connections := (m.connections.removeSession preSession.sessionId).2.addPeers
              preSession.sessionId (HashSet.ofList (addresses.map peerId)).toList })) := by
  unfold updateValidatorSession
  cases hs : m.sessions.lookup preSession.sessionId with
  | none => exact .inl ⟨rfl, _, rfl⟩
  | some session =>
    dsimp only
    cases hu : session.handler.update crypto (some (preSession.nodeId, preSession.pen))
        preSession.verifier address with
    | error e => exact .inr (.inl ⟨session, e, rfl, hu, rfl⟩)
    | ok r =>
      obtain ⟨addresses, handler⟩ := r
      exact .inr (.inr ⟨session, addresses, handler, _, rfl, hu, rfl⟩)

variable [DecidableEq A]

theorem Inv.preserves_updateValidatorSession (hi : Inv m reserved)
    (preSession : PreValidatorSession Vf Pen) (address : A) :
    Preserves reserved (m.step crypto (.updateValidatorSession preSession address)) := by
  rcases updateValidatorSession_cases crypto m preSession address with
    ⟨hs, maybeMessage, heq⟩ | ⟨session, e, hs, hu, heq⟩ |
      ⟨session, addresses, handler, maybeMessage, hs, hu, heq⟩ <;>
    simp only [Manager.step, heq]
  · -- a new validator session has no authentications yet
    refine ⟨hi.insertSession _ _ (Handler.keyed_new _ _ _ _) ?_, fun _ h => by cases h⟩
    intro _ p hp
    simp at hp
  · exact ⟨hi, fun _ h => by cases h⟩
  · -- the update keeps only peers the session had, which are still reserved
    obtain ⟨hvalid, hsame, hkeyed, hsub, hstay⟩ := Handler.update_ok (hi.keyed _ session hs) hu
    have hold : session.handler.isValidator = true := hsame ▸ hvalid
    obtain ⟨hmir, hlinked, hresult⟩ := hi.mirrors.removeSession preSession.sessionId
    have hmemStay : ∀ p, p ∈ HashSet.ofList (addresses.map peerId) ↔ p ∈ handler.authentications :=
      fun p => HashSet.mem_ofList.trans (hstay p)
    have hauth : ∀ p ∈ handler.authentications, m.connections.Linked preSession.sessionId p :=
      fun p hp => hi.connected _ session hs hold p (hsub p hp)
    have hlinked' : ∀ s p, ((m.connections.removeSession preSession.sessionId).2.addPeers
        preSession.sessionId (HashSet.ofList (addresses.map peerId)).toList).Linked s p ↔
          (m.connections.Linked s p ∧ s ≠ preSession.sessionId) ∨
            (s = preSession.sessionId ∧ p ∈ handler.authentications) := by
      intro s p
      rw [Connections.linked_addPeers, hlinked, ← HashSet.mem_def, hmemStay]
    refine ⟨⟨hmir.addPeers _ _, fun p => ?_, fun s session' hs' => ?_, fun s session' hs' => ?_⟩, ?_⟩
    · simp only [mem_applyCommand_deleteReserved, HashSet.mem_filter, hresult, hmemStay,
        decide_eq_true_eq, hi.reserved_iff, hlinked']
      constructor
      · rintro ⟨⟨s, hl⟩, hn⟩
        by_cases hp : p ∈ handler.authentications
        · exact ⟨_, .inr ⟨rfl, hp⟩⟩
        · obtain ⟨s', hl', hne⟩ := (exists_linked_other (R := fun s => m.connections.Linked s p)).mp
            ⟨⟨s, hl⟩, fun hr => hn ⟨hr, hp⟩⟩
          exact ⟨s', .inl ⟨hl', hne⟩⟩
      · rintro ⟨s, ⟨hl, hne⟩ | ⟨rfl, hp⟩⟩
        · refine ⟨⟨s, hl⟩, ?_⟩
          rintro ⟨⟨-, honly⟩, -⟩
          exact hne (honly s hl)
        · refine ⟨⟨_, hauth p hp⟩, ?_⟩
          rintro ⟨-, hn⟩
          exact hn hp
    · by_cases hsi : s = preSession.sessionId
      · subst hsi
        rw [AList.lookup_insert] at hs'
        cases hs'
        exact hkeyed
      · rw [AList.lookup_insert_ne hsi] at hs'
        exact hi.keyed s session' hs'
    · intro hv p hp
      rw [hlinked']
      by_cases hsi : s = preSession.sessionId
      · subst hsi
        rw [AList.lookup_insert] at hs'
        cases hs'
        exact .inr ⟨rfl, hp⟩
      · rw [AList.lookup_insert_ne hsi] at hs'
        exact .inl ⟨hi.connected s session' hs' hv p hp, hsi⟩
    · apply deletesUnneeded_deleteReserved
      intro p hp s hl
      simp only [HashSet.mem_filter, hresult, hmemStay, decide_eq_true_eq] at hp
      rcases (hlinked' s p).mp hl with ⟨hl, hne⟩ | ⟨-, hin⟩
      · exact hne (hp.1.2 s hl)
      · exact hp.2 hin

omit [DecidableEq A] in
theorem updateNonvalidatorSession_cases (crypto : Crypto A Vf Pen Sig) (m : Manager A P Vf Pen Sig)
    (preSession : PreNonvalidatorSession Vf) (address : A) :
    (∃ session e, m.sessions.lookup preSession.sessionId = some session ∧
      session.handler.update crypto none preSession.verifier address = .error e ∧
      m.updateNonvalidatorSession crypto preSession address = (.error e, m)) ∨
    (∃ session addresses handler, m.sessions.lookup preSession.sessionId = some session ∧
      session.handler.update crypto none preSession.verifier address = .ok (addresses, handler) ∧
      m.updateNonvalidatorSession crypto preSession address =
        (.ok .noop, { m with
          sessions := m.sessions.insert preSession.sessionId { session with handler := handler } })) ∨
    (m.sessions.lookup preSession.sessionId = none ∧
      m.updateNonvalidatorSession crypto preSession address =
        (.ok .noop, m.startNonvalidatorSession crypto preSession address)) := by
  unfold updateNonvalidatorSession
  cases hs : m.sessions.lookup preSession.sessionId with
  | none => exact .inr (.inr ⟨rfl, rfl⟩)
  | some session =>
    dsimp only
    cases hu : session.handler.update crypto none preSession.verifier address with
    | error e => exact .inl ⟨session, e, rfl, hu, rfl⟩
    | ok r =>
      obtain ⟨addresses, handler⟩ := r
      exact .inr (.inl ⟨session, addresses, handler, rfl, hu, rfl⟩)

/-- A nonvalidator session connects to nobody, so starting or updating one changes neither the
connections nor the reserved set. -/
theorem Inv.preserves_updateNonvalidatorSession (hi : Inv m reserved)
    (preSession : PreNonvalidatorSession Vf) (address : A) :
    Preserves reserved (m.step crypto (.updateNonvalidatorSession preSession address)) := by
  rcases updateNonvalidatorSession_cases crypto m preSession address with
    ⟨session, e, hs, hu, heq⟩ | ⟨session, addresses, handler, hs, hu, heq⟩ | ⟨hs, heq⟩ <;>
    simp only [Manager.step, heq]
  · exact ⟨hi, fun _ h => by cases h⟩
  · obtain ⟨hvalid, -, hkeyed, -⟩ := Handler.update_ok (hi.keyed _ session hs) hu
    refine ⟨hi.insertSession _ _ hkeyed fun hv => ?_, fun _ h => by cases h⟩
    rw [hvalid] at hv
    cases hv
  · refine ⟨hi.insertSession _ _ (Handler.keyed_new _ _ _ _) fun hv => ?_, fun _ h => by cases h⟩
    simp at hv

omit [DecidableEq A] in
theorem Discovery.handleAuthentication_spec (crypto : Crypto A Vf Pen Sig) (d : Discovery)
    (now : Nat) (authentication : Authentication A Sig) (handler : Handler A P Vf Pen Sig) :
    (d.handleAuthentication crypto now authentication handler).1.1 =
        (handler.handleAuthentication crypto authentication).1 ∧
      (d.handleAuthentication crypto now authentication handler).2.2 =
        (handler.handleAuthentication crypto authentication).2 := by
  unfold Discovery.handleAuthentication
  generalize handler.handleAuthentication crypto authentication = r
  obtain ⟨maybeAddress, handler'⟩ := r
  cases maybeAddress with
  | none => exact ⟨rfl, rfl⟩
  | some address =>
    dsimp only
    split <;> exact ⟨rfl, rfl⟩

/-- The ways `on_discovery_message` ends: an unknown session, an authentication the handler
rejects, or one it takes, which a validator session also reserves. -/
theorem onDiscoveryMessage_cases (crypto : Crypto A Vf Pen Sig) (m : Manager A P Vf Pen Sig)
    (now : Nat) (message : Authentication A Sig) :
    (m.sessions.lookup message.authData.sessionId = none ∧
      m.onDiscoveryMessage crypto now message = (.noop, m)) ∨
    ∃ session discovery maybeMessage, m.sessions.lookup message.authData.sessionId = some session ∧
      ((session.handler.handleAuthentication crypto message).1 = none ∧
        m.onDiscoveryMessage crypto now message = (⟨none, maybeMessage⟩, { m with
          sessions := m.sessions.insert message.authData.sessionId
            ⟨(session.handler.handleAuthentication crypto message).2, discovery⟩ }) ∨
      ∃ address, (session.handler.handleAuthentication crypto message).1 = some address ∧
        ((session.handler.handleAuthentication crypto message).2.isValidator = true ∧
          m.onDiscoveryMessage crypto now message =
            (⟨some (.addReserved (HashSet.ofList [address])), maybeMessage⟩, { m with
              sessions := m.sessions.insert message.authData.sessionId
                ⟨(session.handler.handleAuthentication crypto message).2, discovery⟩
              connections := m.connections.addPeers message.authData.sessionId [peerId address] }) ∨
        (session.handler.handleAuthentication crypto message).2.isValidator = false ∧
          m.onDiscoveryMessage crypto now message = (⟨none, maybeMessage⟩, { m with
            sessions := m.sessions.insert message.authData.sessionId
              ⟨(session.handler.handleAuthentication crypto message).2, discovery⟩ }))) := by
  unfold onDiscoveryMessage
  dsimp only
  cases hs : m.sessions.lookup message.authData.sessionId with
  | none => exact .inl ⟨rfl, rfl⟩
  | some session =>
    right
    dsimp only
    obtain ⟨haddr, hhandler⟩ := Discovery.handleAuthentication_spec crypto session.discovery now
      message session.handler
    rcases hr : session.discovery.handleAuthentication crypto now message session.handler with
      ⟨⟨maybeAddress, maybeMessage⟩, discovery, handler⟩
    rw [hr] at haddr hhandler
    dsimp only at haddr hhandler
    subst hhandler
    refine ⟨session, discovery, maybeMessage, rfl, ?_⟩
    cases maybeAddress with
    | none => exact .inl ⟨haddr.symm, rfl⟩
    | some address =>
      refine .inr ⟨address, haddr.symm, ?_⟩
      dsimp only
      cases hv : (session.handler.handleAuthentication crypto message).2.isValidator
      · exact .inr ⟨rfl, by simp⟩
      · exact .inl ⟨rfl, by simp⟩

/-- Reserving a peer of a session's new authentication, and linking it there, keeps the
invariant. -/
theorem Inv.addReserved (hi : Inv m reserved) (sessionId : SessionId) (address : A) :
    Inv { m with connections := m.connections.addPeers sessionId [peerId address] }
      (applyCommand reserved (some (.addReserved (HashSet.ofList [address])))) where
  mirrors := hi.mirrors.addPeers _ _
  reserved_iff p := by
    simp only [applyCommand, mem_apply_addReserved, HashSet.mem_ofList, List.mem_singleton,
      exists_eq_left, hi.reserved_iff, Connections.linked_addPeers]
    constructor
    · rintro (⟨s, hl⟩ | rfl)
      · exact ⟨s, .inl hl⟩
      · exact ⟨sessionId, .inr ⟨rfl, rfl⟩⟩
    · rintro ⟨s, hl | ⟨-, rfl⟩⟩
      · exact .inl ⟨s, hl⟩
      · exact .inr rfl
  keyed := hi.keyed
  connected s session hs hv p hp :=
    (Connections.linked_addPeers _ _ _ _).mpr (.inl (hi.connected s session hs hv p hp))

theorem Inv.preserves_onDiscoveryMessage (hi : Inv m reserved) (now : Nat)
    (message : Authentication A Sig) :
    Preserves reserved (m.step crypto (.onDiscoveryMessage now message)) := by
  rcases onDiscoveryMessage_cases crypto m now message with
    ⟨hs, heq⟩ | ⟨session, discovery, maybeMessage, hs, ⟨hnone, heq⟩ |
      ⟨address, haddr, ⟨hv, heq⟩ | ⟨hv, heq⟩⟩⟩ <;>
    simp only [Manager.step, heq, ManagerActions.noop]
  · exact ⟨hi, fun _ h => by cases h⟩
  · -- a rejected authentication leaves the handler as it was
    have hsame : (session.handler.handleAuthentication crypto message).2 = session.handler := by
      rcases Handler.handleAuthentication_cases crypto session.handler message with h | ⟨h, -⟩
      · rw [h]
      · rw [h] at hnone
        cases hnone
    refine ⟨hi.insertSession _ ⟨_, discovery⟩ ?_ ?_, fun _ h => by cases h⟩
    · rw [hsame]
      exact hi.keyed _ session hs
    · rw [hsame]
      exact hi.connected _ session hs
  · -- a validator session links and reserves the peer of the new authentication
    obtain ⟨-, hhandler⟩ := (Handler.handleAuthentication_cases crypto session.handler message).resolve_left
      (fun h => by rw [h] at haddr; cases haddr)
    have haddress : address = message.authData.address := by
      rcases Handler.handleAuthentication_cases crypto session.handler message with h | ⟨h, -⟩
      · rw [h] at haddr
        cases haddr
      · rw [h] at haddr
        exact (Option.some.inj haddr).symm
    subst haddress
    have hvalid : session.handler.isValidator = true := by
      rwa [Handler.isValidator_handleAuthentication] at hv
    refine ⟨(hi.addReserved message.authData.sessionId message.authData.address).insertSession _
      ⟨_, discovery⟩ ((hi.keyed _ session hs).handleAuthentication message) ?_, fun _ h => by cases h⟩
    intro _ p hp
    show Connections.Linked (m.connections.addPeers _ [peerId message.authData.address]) _ p
    rw [Connections.linked_addPeers]
    rw [hhandler] at hp
    rcases (AList.mem_insert _).mp hp with rfl | hp
    · exact .inr ⟨rfl, List.mem_singleton_self _⟩
    · exact .inl (hi.connected _ session hs hvalid p hp)
  · -- a nonvalidator session only remembers the authentication
    refine ⟨hi.insertSession _ ⟨_, discovery⟩ ((hi.keyed _ session hs).handleAuthentication message)
      fun hv' => ?_, fun _ h => by cases h⟩
    rw [hv] at hv'
    cases hv'

theorem Inv.preserves_finishSession (hi : Inv m reserved) (sessionId : SessionId) :
    Preserves reserved (m.step crypto (.finishSession sessionId)) :=
  hi.finishSession sessionId

/-- Every call keeps the invariant and deletes only peers no session needs. -/
theorem Inv.preserves_step (hi : Inv m reserved) (call : ManagerCall A Vf Pen Sig) :
    Preserves reserved (m.step crypto call) := by
  cases call with
  | updateValidatorSession preSession address => exact hi.preserves_updateValidatorSession preSession address
  | updateNonvalidatorSession preSession address =>
    exact hi.preserves_updateNonvalidatorSession preSession address
  | finishSession sessionId => exact hi.preserves_finishSession sessionId
  | onDiscoveryMessage now message => exact hi.preserves_onDiscoveryMessage now message

theorem Inv.run (calls : List (ManagerCall A Vf Pen Sig)) :
    ∀ {m : Manager A P Vf Pen Sig} {reserved : HashSet P}, Inv m reserved →
      Inv (Manager.run crypto (m, reserved) calls).1 (Manager.run crypto (m, reserved) calls).2 := by
  induction calls with
  | nil => exact fun hi => hi
  | cons call calls ih =>
    intro m reserved hi
    exact ih (hi.preserves_step call).1

end Manager

variable [DecidableEq A]

theorem manager_reserved_matches_connections (crypto : Crypto A Vf Pen Sig)
    (discoveryCooldown : Nat) (calls : List (ManagerCall A Vf Pen Sig))
    (m : Manager A P Vf Pen Sig) (reserved : HashSet P)
    (hrun : Manager.run crypto (Manager.new discoveryCooldown, ∅) calls = (m, reserved)) :
    m.connections.Mirrors ∧ (∀ p, p ∈ reserved ↔ ∃ s, m.connections.Linked s p) ∧
      ∀ call, DeletesUnneeded (m.step crypto call).1 (m.step crypto call).2.connections := by
  have hi : Manager.Inv (Manager.run crypto (Manager.new discoveryCooldown, ∅) calls).1
      (Manager.run crypto (Manager.new discoveryCooldown, ∅) calls).2 :=
    Manager.Inv.run calls (Manager.inv_new discoveryCooldown)
  rw [hrun] at hi
  exact ⟨hi.mirrors, hi.reserved_iff, fun call => (hi.preserves_step call).2⟩

/-! A run with addresses that name their peer: a validator session learns peer 2. -/

structure SampleAddress where
  peer : Nat
deriving DecidableEq, Repr

instance : AddressingInformation SampleAddress Nat := ⟨SampleAddress.peer, fun _ => true⟩

def sampleCrypto : Crypto SampleAddress Unit Unit Unit := ⟨fun _ _ _ _ => true, fun _ _ => ()⟩

def sampleCalls : List (ManagerCall SampleAddress Unit Unit Unit) :=
  [.updateValidatorSession ⟨⟨1⟩, (), 0, ()⟩ ⟨0⟩, .onDiscoveryMessage 0 ⟨⟨⟨2⟩, 1, ⟨1⟩⟩, ()⟩]

theorem manager_reserved_matches_connections_sample :
    (2 ∈ (Manager.run sampleCrypto (Manager.new 0, ∅) sampleCalls).2 ↔
      ∃ s, (Manager.run sampleCrypto (Manager.new 0, ∅) sampleCalls).1.connections.Linked s 2) :=
  (manager_reserved_matches_connections sampleCrypto 0 sampleCalls
    (Manager.run sampleCrypto (Manager.new 0, ∅) sampleCalls).1
    (Manager.run sampleCrypto (Manager.new 0, ∅) sampleCalls).2 rfl).2.1 2

/-- Peer 2 is reserved once its authentication is handled, and no longer once the session
ends. -/
example : 2 ∈ (Manager.run sampleCrypto (Manager.new 0, ∅) sampleCalls).2 ∧
    2 ∉ (Manager.run sampleCrypto (Manager.new 0, ∅) (sampleCalls ++ [.finishSession ⟨1⟩])).2 := by
  decide

end Selendra.Network
