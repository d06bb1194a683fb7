import Selendra.Collections.HashSet
import Selendra.Session.Basic

/-! # Session handlers

`Handler` of `network/session/handler.rs`, the `SessionHandler` of the manager: the
authentications of one session's peers, checked against the session's authority verifier.
The cryptography is a parameter: the check an address carries of itself
(`AddressingInformation::verify`), and the authority signatures (`AuthorityVerifier::verify`
of the encoded data by the signer's index, `AuthorityPen::sign`) through `Crypto`. Node
indices are `Nat`. -/

namespace Selendra.Network

/-- Network addresses: each names the peer it reaches, and can be checked on its own. -/
class AddressingInformation (A : Type) (P : outParam Type) where
  peerId : A → P
  verify : A → Bool

structure AuthData (A : Type) where
  address : A
  nodeId : Nat
  sessionId : SessionId
deriving DecidableEq, Repr

structure Authentication (A Sig : Type) where
  authData : AuthData A
  signature : Sig
deriving DecidableEq, Repr

/-- The signatures of a session's authorities. -/
structure Crypto (A Vf Pen Sig : Type) where
  verify : Vf → AuthData A → Sig → Nat → Bool
  sign : Pen → AuthData A → Sig

inductive SessionInfo (A Sig : Type)
  | sessionId (sessionId : SessionId)
  | ownAuthentication (authentication : Authentication A Sig)

/-- `SessionInfo::session_id`. -/
def SessionInfo.getSessionId {A Sig : Type} : SessionInfo A Sig → SessionId
  | .sessionId id => id
  | .ownAuthentication authentication => authentication.authData.sessionId

structure Handler (A P Vf Pen Sig : Type) where
  peersByNode : AList (fun _ : Nat => P)
  authentications : AList (fun _ : P => Authentication A Sig)
  sessionInfo : SessionInfo A Sig
  ownPeerId : P
  authorityIndexAndPen : Option (Nat × Pen)
  authorityVerifier : Vf

inductive HandlerError
  /-- Returned when a handler is changed from validator to nonvalidator or back. -/
  | typeChange
deriving DecidableEq, Repr

namespace Handler

variable {A P Vf Pen Sig : Type} [AddressingInformation A P] [DecidableEq P]
  (crypto : Crypto A Vf Pen Sig)

open AddressingInformation

def constructSessionInfo (authorityIndexAndPen : Option (Nat × Pen)) (sessionId : SessionId)
    (address : A) : SessionInfo A Sig × P :=
  let peerId := AddressingInformation.peerId address
  match authorityIndexAndPen with
  | some (nodeIndex, authorityPen) =>
    let authData : AuthData A := ⟨address, nodeIndex, sessionId⟩
    (.ownAuthentication ⟨authData, crypto.sign authorityPen authData⟩, peerId)
  | none => (.sessionId sessionId, peerId)

/-- A new session handler; a validator one if the authority index and pen are given. -/
def new (authorityIndexAndPen : Option (Nat × Pen)) (authorityVerifier : Vf)
    (sessionId : SessionId) (address : A) : Handler A P Vf Pen Sig :=
  let (sessionInfo, ownPeerId) := constructSessionInfo crypto authorityIndexAndPen sessionId address
  ⟨∅, ∅, sessionInfo, ownPeerId, authorityIndexAndPen, authorityVerifier⟩

variable {crypto}

/-- Our own node index, for a validator. -/
def index (h : Handler A P Vf Pen Sig) : Option Nat := h.authorityIndexAndPen.map Prod.fst

def isValidator (h : Handler A P Vf Pen Sig) : Bool := h.authorityIndexAndPen.isSome

def sessionId (h : Handler A P Vf Pen Sig) : SessionId := h.sessionInfo.getSessionId

/-- The authentication of this node for the session, if it is a validator. -/
def authentication (h : Handler A P Vf Pen Sig) : Option (Authentication A Sig) :=
  match h.sessionInfo with
  | .sessionId _ => none
  | .ownAuthentication ownAuthentication => some ownAuthentication

/-- `missing_nodes`: the nodes for which the handler has no authentication, with `nodeCount`
the verifier's `node_count`. It returns at once when it knows all but one node. -/
def missingNodes (nodeCount : Vf → Nat) (h : Handler A P Vf Pen Sig) : List Nat :=
  let nodeCount := nodeCount h.authorityVerifier
  if h.peersByNode.keys.length + 1 = nodeCount then []
  else (List.range nodeCount).filter fun nodeId => some nodeId ≠ h.index ∧ nodeId ∉ h.peersByNode

/-- What `missing_nodes` is for: the nodes of the session other than our own that the
handler knows no peer of. -/
def unknownNodes (nodeCount : Nat) (h : Handler A P Vf Pen Sig) : List Nat :=
  (List.range nodeCount).filter fun nodeId => some nodeId ≠ h.index ∧ nodeId ∉ h.peersByNode

variable (crypto)

/-- The checks of `handle_authentication`; they read the session, our own peer and the
verifier, which handling an authentication does not change. -/
def accepts (h : Handler A P Vf Pen Sig) (authentication : Authentication A Sig) : Bool :=
  authentication.authData.sessionId = h.sessionId ∧ verify authentication.authData.address ∧
    peerId authentication.authData.address ≠ h.ownPeerId ∧
    crypto.verify h.authorityVerifier authentication.authData authentication.signature
      authentication.authData.nodeId

/-- Verifies the authentication, uses it to update the mappings, and returns the address we
should stay connected to if any. -/
def handleAuthentication (h : Handler A P Vf Pen Sig) (authentication : Authentication A Sig) :
    Option A × Handler A P Vf Pen Sig :=
  if authentication.authData.sessionId ≠ h.sessionId then (none, h)
  else
    let address := authentication.authData.address
    if !verify address then (none, h)
    else
      let peerId := AddressingInformation.peerId address
      if peerId = h.ownPeerId then (none, h)
      else if !crypto.verify h.authorityVerifier authentication.authData authentication.signature
          authentication.authData.nodeId then (none, h)
      else
        (some address,
          { h with
            peersByNode := h.peersByNode.insert authentication.authData.nodeId peerId
            authentications := h.authentications.insert peerId authentication })

/-- Rebuilds the handler with the new keychain and own address, rechecking every
authentication it held; returns the addresses we should be connected to. -/
def update (h : Handler A P Vf Pen Sig) (authorityIndexAndPen : Option (Nat × Pen))
    (authorityVerifier : Vf) (address : A) :
    Except HandlerError (List A × Handler A P Vf Pen Sig) :=
  if authorityIndexAndPen.isNone ≠ h.authorityIndexAndPen.isNone then .error .typeChange
  else
    let authentications := h.authentications
    let h := new crypto authorityIndexAndPen authorityVerifier h.sessionId address
    let h := authentications.entries.foldl (fun h e => (h.handleAuthentication crypto e.2).2) h
    .ok (h.authentications.entries.map fun e => e.2.authData.address, h)

/-! ## What a handler keeps -/

/-- Every authentication is kept under the peer of its address. -/
def Keyed (h : Handler A P Vf Pen Sig) : Prop :=
  ∀ p a, h.authentications.lookup p = some a → peerId a.authData.address = p

variable {crypto}

omit [DecidableEq P] in
@[simp] theorem isValidator_new (authorityIndexAndPen : Option (Nat × Pen)) (authorityVerifier : Vf)
    (sessionId : SessionId) (address : A) :
    (new crypto authorityIndexAndPen authorityVerifier sessionId address).isValidator =
      authorityIndexAndPen.isSome := by
  unfold new
  rfl

omit [DecidableEq P] in
@[simp] theorem authentications_new (authorityIndexAndPen : Option (Nat × Pen))
    (authorityVerifier : Vf) (sessionId : SessionId) (address : A) :
    (new crypto authorityIndexAndPen authorityVerifier sessionId address).authentications = ∅ := by
  unfold new
  rfl

omit [DecidableEq P] in
@[simp] theorem peersByNode_new (authorityIndexAndPen : Option (Nat × Pen))
    (authorityVerifier : Vf) (sessionId : SessionId) (address : A) :
    (new crypto authorityIndexAndPen authorityVerifier sessionId address).peersByNode = ∅ := by
  unfold new
  rfl

theorem keyed_new (authorityIndexAndPen : Option (Nat × Pen)) (authorityVerifier : Vf)
    (sessionId : SessionId) (address : A) :
    (new crypto authorityIndexAndPen authorityVerifier sessionId address).Keyed := by
  intro p a hp
  simp at hp

/-- An authentication is taken exactly when its address comes back, and then under that
address's peer; the handler is otherwise left alone. -/
theorem handleAuthentication_cases (crypto : Crypto A Vf Pen Sig) (h : Handler A P Vf Pen Sig)
    (authentication : Authentication A Sig) :
    h.handleAuthentication crypto authentication = (none, h) ∨
    (h.handleAuthentication crypto authentication).1 = some authentication.authData.address ∧
      (h.handleAuthentication crypto authentication).2 =
        { h with
          peersByNode := h.peersByNode.insert authentication.authData.nodeId
            (peerId authentication.authData.address)
          authentications := h.authentications.insert (peerId authentication.authData.address)
            authentication } := by
  unfold handleAuthentication
  dsimp only
  split_ifs
  · exact .inl rfl
  · exact .inl rfl
  · exact .inl rfl
  · exact .inl rfl
  · exact .inr ⟨rfl, rfl⟩

theorem handleAuthentication_of_accepts {h : Handler A P Vf Pen Sig}
    {authentication : Authentication A Sig} (ha : h.accepts crypto authentication = true) :
    h.handleAuthentication crypto authentication =
      (some authentication.authData.address,
        { h with
          peersByNode := h.peersByNode.insert authentication.authData.nodeId
            (peerId authentication.authData.address)
          authentications := h.authentications.insert (peerId authentication.authData.address)
            authentication }) := by
  simp only [accepts, decide_eq_true_eq] at ha
  obtain ⟨hs, hv, hp, hc⟩ := ha
  simp [handleAuthentication, hs, hv, hp, hc]

theorem handleAuthentication_of_not_accepts {h : Handler A P Vf Pen Sig}
    {authentication : Authentication A Sig} (ha : h.accepts crypto authentication = false) :
    h.handleAuthentication crypto authentication = (none, h) := by
  simp only [accepts, decide_eq_false_iff_not, not_and_or] at ha
  unfold handleAuthentication
  rcases ha with hs | hv | hp | hc
  · rw [if_pos hs]
  · split_ifs <;> simp_all
  · split_ifs <;> simp_all
  · split_ifs <;> simp_all

/-- Handling an authentication leaves what the checks read as it was. -/
@[simp] theorem accepts_handleAuthentication (h : Handler A P Vf Pen Sig)
    (authentication other : Authentication A Sig) :
    (h.handleAuthentication crypto authentication).2.accepts crypto other =
      h.accepts crypto other := by
  rcases handleAuthentication_cases crypto h authentication with heq | ⟨-, heq⟩ <;> rw [heq]
  rfl

@[simp] theorem isValidator_handleAuthentication (h : Handler A P Vf Pen Sig)
    (authentication : Authentication A Sig) :
    (h.handleAuthentication crypto authentication).2.isValidator = h.isValidator := by
  rcases handleAuthentication_cases crypto h authentication with heq | ⟨-, heq⟩
  · rw [heq]
  · rw [heq]
    rfl

theorem Keyed.handleAuthentication {h : Handler A P Vf Pen Sig} (hk : h.Keyed)
    (authentication : Authentication A Sig) :
    (h.handleAuthentication crypto authentication).2.Keyed := by
  rcases handleAuthentication_cases crypto h authentication with heq | ⟨-, heq⟩ <;> rw [heq]
  · exact hk
  · intro p a hp
    by_cases hpa : p = peerId authentication.authData.address
    · subst hpa
      simp only [AList.lookup_insert, Option.some.injEq] at hp
      rw [← hp]
    · rw [AList.lookup_insert_ne hpa] at hp
      exact hk p a hp

/-- Rechecking a list of authentications keeps the handler keyed and adds only the peers of
their addresses. -/
theorem foldl_handleAuthentication (crypto : Crypto A Vf Pen Sig)
    (L : List (Σ _ : P, Authentication A Sig)) :
    ∀ h : Handler A P Vf Pen Sig, h.Keyed →
      let h' := L.foldl (fun h e => (h.handleAuthentication crypto e.2).2) h
      h'.Keyed ∧ h'.isValidator = h.isValidator ∧
        ∀ p, p ∈ h'.authentications → p ∈ h.authentications ∨
          ∃ e ∈ L, peerId e.2.authData.address = p := by
  induction L with
  | nil => exact fun h hk => ⟨hk, rfl, fun p hp => .inl hp⟩
  | cons e L ih =>
    intro h hk
    obtain ⟨hk', hv', hsub⟩ := ih _ (hk.handleAuthentication e.2)
    refine ⟨hk', hv'.trans (isValidator_handleAuthentication h e.2), fun p hp => ?_⟩
    rcases hsub p hp with hp | ⟨e', he', hpe'⟩
    · rcases handleAuthentication_cases crypto h e.2 with heq | ⟨-, heq⟩
      · rw [heq] at hp
        exact .inl hp
      · rw [heq] at hp
        rcases (AList.mem_insert _).mp hp with rfl | hp
        · exact .inr ⟨e, List.mem_cons_self, rfl⟩
        · exact .inl hp
    · exact .inr ⟨e', List.mem_cons_of_mem e he', hpe'⟩

/-- A successful update keeps the kind of handler, keeps it keyed, keeps only peers it had,
and returns the addresses of the peers it keeps. -/
theorem update_ok {h h' : Handler A P Vf Pen Sig} (hk : h.Keyed)
    {authorityIndexAndPen : Option (Nat × Pen)} {authorityVerifier : Vf} {address : A}
    {addresses : List A}
    (hu : h.update crypto authorityIndexAndPen authorityVerifier address = .ok (addresses, h')) :
    h'.isValidator = authorityIndexAndPen.isSome ∧ h'.isValidator = h.isValidator ∧ h'.Keyed ∧
      (∀ p, p ∈ h'.authentications → p ∈ h.authentications) ∧
      ∀ p, p ∈ addresses.map peerId ↔ p ∈ h'.authentications := by
  unfold update at hu
  split_ifs at hu with htype
  obtain ⟨rfl, rfl⟩ := Prod.mk.inj (Except.ok.inj hu)
  obtain ⟨hk', hv', hsub⟩ := foldl_handleAuthentication crypto h.authentications.entries
    (new crypto authorityIndexAndPen authorityVerifier h.sessionId address) (keyed_new _ _ _ _)
  refine ⟨by rw [hv', isValidator_new], ?_, hk', ?_, ?_⟩
  · rw [hv', isValidator_new, isValidator]
    cases authorityIndexAndPen <;> cases hh : h.authorityIndexAndPen <;> simp_all
  · intro p hp
    rcases hsub p hp with hp | ⟨e, he, rfl⟩
    · simp at hp
    · -- a rechecked authentication was kept under the peer of its address
      rw [hk e.1 e.2 (AList.mem_lookup_iff.mpr he)]
      exact AList.mem_keys.mp (List.mem_keys_of_mem he)
  · intro p
    simp only [List.map_map, List.mem_map, Function.comp_apply]
    constructor
    · rintro ⟨e, he, rfl⟩
      rw [hk' e.1 e.2 (AList.mem_lookup_iff.mpr he)]
      exact AList.mem_keys.mp (List.mem_keys_of_mem he)
    · intro hp
      obtain ⟨a, ha⟩ := AList.mem_iff_lookup.mp hp
      exact ⟨⟨p, a⟩, AList.mem_lookup_iff.mp ha, hk' p a ha⟩

end Handler

end Selendra.Network
