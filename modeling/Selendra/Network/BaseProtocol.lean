import Selendra.Collections.HashSet
import Selendra.Control.Loop
import Selendra.RateLimiter.TokenBucket
import Mathlib

/-! # Accepting and counting connections of the base protocol

`Handler` of `network/base_protocol/handler.rs`, which decides which peers the node keeps
connections with. A peer is refused when its handshake does not decode, names another genesis
block or comes from a peer already connected, and, unless the peer is a reserved node, when its
class (full inbound, full outbound or light) is at its limit. The limits are counters kept apart
from the map of connected peers, raised when a peer that is not reserved connects and lowered
when it disconnects, with the saturating increments and decrements of the code.

The handshake's decoder (`BlockAnnouncesHandshake::decode_all`, with `Role::from` of its roles)
is a parameter. The result is that over every sequence of calls each counter is the number of
connected peers of its class that are not reserved, and stays within the maximum that
`ConnectionLimits::new` computed; and which peers `verify_connection` accepts. -/

namespace Selendra.Network.BaseProtocol

open RateLimiter (usizeMax)

/-- The role of the connected node. -/
inductive Role
  /-- A full node, the expected type. -/
  | full
  /-- A light node, we support these connecting to us, but don't provide any implementations. -/
  | light
deriving DecidableEq, Repr

inductive Direction
  | inbound
  | outbound
deriving DecidableEq, Repr

structure PeerInfo where
  role : Role
  direction : Direction
deriving DecidableEq, Repr

/-- What the handler reads of a peer's block-announces handshake: the role its roles give the
peer, and its genesis hash. -/
structure Handshake (Hash : Type) where
  role : Role
  genesisHash : Hash

/-- Reasons to refuse connecting to a peer. -/
inductive ConnectError (PeerId Hash : Type)
  /-- We weren't able to decode the handshake. -/
  | badlyEncodedHandshake
  /-- The peer is running on a different chain. -/
  | badHandshakeGenesis (genesisHash : Hash)
  /-- The peer is already connected. -/
  | alreadyConnected (peerId : PeerId)
  /-- There are too many full peers already connected in the given direction. -/
  | tooManyFullPeers (direction : Direction)
  /-- There are too many light peers already connected. -/
  | tooManyLightPeers
deriving DecidableEq, Repr

def ConnectError.tooManyPeers {PeerId Hash : Type} (peer : PeerInfo) : ConnectError PeerId Hash :=
  match peer.role with
  | .full => .tooManyFullPeers peer.direction
  | .light => .tooManyLightPeers

/-- Problems when handling peer disconnecting. -/
inductive DisconnectError
  /-- The peer was not connected as far as we know. -/
  | peerWasNotConnected
deriving DecidableEq, Repr

/-- The parts of `NetworkConfiguration` the handler reads: the limits and the reserved nodes of
the default peer set, and `default_peers_set_num_full`. -/
structure NetworkConfiguration (PeerId : Type) where
  inPeers : UInt32
  outPeers : UInt32
  reservedNodes : List PeerId
  defaultPeersSetNumFull : UInt32

/-! ## The limits -/

structure ConnectionLimits where
  numFullInPeers : Nat
  numFullOutPeers : Nat
  numLightPeers : Nat
  maxFullInPeers : Nat
  maxFullOutPeers : Nat
  maxLightPeers : Nat
deriving DecidableEq, Repr

/-- The classes of peers the limits count apart: the counter `count_for` picks. -/
inductive PeerClass
  | fullIn
  | fullOut
  | light
deriving DecidableEq, Repr

def PeerInfo.peerClass (peer : PeerInfo) : PeerClass :=
  match peer.role, peer.direction with
  | .light, _ => .light
  | .full, .inbound => .fullIn
  | .full, .outbound => .fullOut

/-- `saturating_inc` on a `usize`. -/
def saturatingInc (n : Nat) : Nat := min (n + 1) usizeMax

theorem saturatingInc_of_lt {n : Nat} (h : n < usizeMax) : saturatingInc n = n + 1 :=
  Nat.min_eq_left h

namespace ConnectionLimits

def new {PeerId : Type} (netConfig : NetworkConfiguration PeerId) : ConnectionLimits :=
  -- It is assumed that `default_peers_set.out_peers` only refers to full nodes, but
  -- `default_peers_set.in_peers` refers to both full and light nodes.
  -- Moreover, `default_peers_set_num_full` refers to the total of full nodes.
  let maxFullOutPeers := netConfig.outPeers.toNat
  let maxFullInPeers := netConfig.defaultPeersSetNumFull.toNat - maxFullOutPeers
  let maxLightPeers := netConfig.inPeers.toNat - maxFullInPeers
  { numFullInPeers := 0, numFullOutPeers := 0, numLightPeers := 0,
    maxFullInPeers, maxFullOutPeers, maxLightPeers }

def allowed (l : ConnectionLimits) (peer : PeerInfo) : Bool :=
  match peer.role, peer.direction with
  | .light, _ => l.numLightPeers < l.maxLightPeers
  | .full, .inbound => l.numFullInPeers < l.maxFullInPeers
  | .full, .outbound => l.numFullOutPeers < l.maxFullOutPeers

/-- `count_for`, with the update made through the reference it returns. -/
def modifyCountFor (l : ConnectionLimits) (peer : PeerInfo) (f : Nat → Nat) :
    ConnectionLimits :=
  match peer.role, peer.direction with
  | .light, _ => { l with numLightPeers := f l.numLightPeers }
  | .full, .inbound => { l with numFullInPeers := f l.numFullInPeers }
  | .full, .outbound => { l with numFullOutPeers := f l.numFullOutPeers }

def add (l : ConnectionLimits) (peer : PeerInfo) : ConnectionLimits :=
  l.modifyCountFor peer saturatingInc

/-- `remove`: `saturating_dec`, which is subtraction on `Nat`. -/
def remove (l : ConnectionLimits) (peer : PeerInfo) : ConnectionLimits :=
  l.modifyCountFor peer (· - 1)

/-- The counter of a class. -/
def count (l : ConnectionLimits) : PeerClass → Nat
  | .fullIn => l.numFullInPeers
  | .fullOut => l.numFullOutPeers
  | .light => l.numLightPeers

/-- The maximum of a class. -/
def max (l : ConnectionLimits) : PeerClass → Nat
  | .fullIn => l.maxFullInPeers
  | .fullOut => l.maxFullOutPeers
  | .light => l.maxLightPeers

theorem allowed_iff (l : ConnectionLimits) (peer : PeerInfo) :
    l.allowed peer = true ↔ l.count peer.peerClass < l.max peer.peerClass := by
  obtain ⟨role, direction⟩ := peer
  cases role <;> cases direction <;> simp [allowed, count, max, PeerInfo.peerClass]

@[simp] theorem count_modifyCountFor (l : ConnectionLimits) (peer : PeerInfo) (f : Nat → Nat)
    (c : PeerClass) :
    (l.modifyCountFor peer f).count c = if c = peer.peerClass then f (l.count c) else l.count c := by
  obtain ⟨role, direction⟩ := peer
  cases role <;> cases direction <;> cases c <;> rfl

@[simp] theorem max_modifyCountFor (l : ConnectionLimits) (peer : PeerInfo) (f : Nat → Nat)
    (c : PeerClass) : (l.modifyCountFor peer f).max c = l.max c := by
  obtain ⟨role, direction⟩ := peer
  cases role <;> cases direction <;> cases c <;> rfl

/-- Below `usize::MAX` the saturating increment adds one to the counter of the peer's class. -/
theorem count_add {l : ConnectionLimits} {peer : PeerInfo} (h : l.count peer.peerClass < usizeMax)
    (c : PeerClass) :
    (l.add peer).count c = if c = peer.peerClass then l.count c + 1 else l.count c := by
  rw [add, count_modifyCountFor]
  split
  · next hclass =>
    subst hclass
    exact saturatingInc_of_lt h
  · rfl

theorem count_remove (l : ConnectionLimits) (peer : PeerInfo) (c : PeerClass) :
    (l.remove peer).count c = if c = peer.peerClass then l.count c - 1 else l.count c :=
  count_modifyCountFor l peer _ c

@[simp] theorem max_add (l : ConnectionLimits) (peer : PeerInfo) (c : PeerClass) :
    (l.add peer).max c = l.max c :=
  max_modifyCountFor l peer _ c

@[simp] theorem max_remove (l : ConnectionLimits) (peer : PeerInfo) (c : PeerClass) :
    (l.remove peer).max c = l.max c :=
  max_modifyCountFor l peer _ c

@[simp] theorem count_new {PeerId : Type} (netConfig : NetworkConfiguration PeerId)
    (c : PeerClass) : (new netConfig).count c = 0 := by
  cases c <;> rfl

/-- Every maximum is a `u32` value at most, far below `usize::MAX`. -/
theorem max_new_lt {PeerId : Type} (netConfig : NetworkConfiguration PeerId) (c : PeerClass) :
    (new netConfig).max c < usizeMax := by
  have hin := netConfig.inPeers.toNat_lt
  have hout := netConfig.outPeers.toNat_lt
  have hfull := netConfig.defaultPeersSetNumFull.toNat_lt
  cases c <;> simp only [new, max, usizeMax] <;> omega

end ConnectionLimits

/-! ## The handler -/

structure Handler (PeerId Hash : Type) where
  reservedNodes : HashSet PeerId
  peers : AList (fun _ : PeerId => PeerInfo)
  -- the limits ignore the nodes which belong to `reservedNodes`
  limits : ConnectionLimits
  genesisHash : Hash

inductive Call (PeerId : Type)
  | onPeerConnect (peerId : PeerId) (handshake : List UInt8) (direction : Direction)
  | onPeerDisconnect (peerId : PeerId)
  | verifyInboundConnection (peerId : PeerId) (handshake : List UInt8)

namespace Handler

variable {PeerId Hash : Type} [DecidableEq PeerId] [DecidableEq Hash]
  (decodeAll : List UInt8 → Option (Handshake Hash))

/-- Create a new handler. -/
def new (genesisHash : Hash) (netConfig : NetworkConfiguration PeerId) : Handler PeerId Hash :=
  { reservedNodes := HashSet.ofList netConfig.reservedNodes, peers := ∅,
    limits := ConnectionLimits.new netConfig, genesisHash }

def isReserved (h : Handler PeerId Hash) (peerId : PeerId) : Bool :=
  decide (peerId ∈ h.reservedNodes)

def verifyConnection (h : Handler PeerId Hash) (peerId : PeerId) (handshake : List UInt8)
    (direction : Direction) : Except (ConnectError PeerId Hash) PeerInfo := do
  let handshake ← match decodeAll handshake with
    | some handshake => pure handshake
    | none => throw .badlyEncodedHandshake
  if handshake.genesisHash ≠ h.genesisHash then
    throw (.badHandshakeGenesis handshake.genesisHash)
  if peerId ∈ h.peers then
    throw (.alreadyConnected peerId)
  let peer : PeerInfo := ⟨handshake.role, direction⟩
  match h.isReserved peerId || h.limits.allowed peer with
  | true => pure peer
  | false => throw (ConnectError.tooManyPeers peer)

/-- Accept or reject a peer. -/
def onPeerConnect (h : Handler PeerId Hash) (peerId : PeerId) (handshake : List UInt8)
    (direction : Direction) : Except (ConnectError PeerId Hash) (Handler PeerId Hash) := do
  let peer ← h.verifyConnection decodeAll peerId handshake direction
  let limits := if !h.isReserved peerId then h.limits.add peer else h.limits
  pure { h with limits, peers := h.peers.insert peerId peer }

/-- Clean up a disconnected peer. -/
def onPeerDisconnect (h : Handler PeerId Hash) (peerId : PeerId) :
    Except DisconnectError (Handler PeerId Hash) := do
  let peer ← match h.peers.lookup peerId with
    | some peer => pure peer
    | none => throw .peerWasNotConnected
  let limits := if !h.isReserved peerId then h.limits.remove peer else h.limits
  pure { h with peers := h.peers.erase peerId, limits }

/-- Checks whether an inbound peer would be accepted. -/
def verifyInboundConnection (h : Handler PeerId Hash) (peerId : PeerId)
    (handshake : List UInt8) : Except (ConnectError PeerId Hash) Unit :=
  (h.verifyConnection decodeAll peerId handshake .inbound).map fun _ => ()

/-- The handler after a call: a call that fails leaves it as it was. -/
def step (h : Handler PeerId Hash) : Call PeerId → Handler PeerId Hash
  | .onPeerConnect peerId handshake direction =>
    match h.onPeerConnect decodeAll peerId handshake direction with
    | .ok h' => h'
    | .error _ => h
  | .onPeerDisconnect peerId =>
    match h.onPeerDisconnect peerId with
    | .ok h' => h'
    | .error _ => h
  | .verifyInboundConnection _ _ => h

def run (h : Handler PeerId Hash) (calls : List (Call PeerId)) : Handler PeerId Hash :=
  calls.foldl (step decodeAll) h

/-! ## What each call does -/

variable {decodeAll} {h h' : Handler PeerId Hash} {peerId : PeerId} {handshake : List UInt8}
  {direction : Direction}

/-- `verify_connection` accepts exactly a handshake that decodes with our genesis hash, from a
peer not yet connected that is reserved or has room in its class. -/
theorem verifyConnection_eq_ok {peer : PeerInfo} :
    h.verifyConnection decodeAll peerId handshake direction = .ok peer ↔
      ∃ hs, decodeAll handshake = some hs ∧ hs.genesisHash = h.genesisHash ∧ peerId ∉ h.peers ∧
        peer = ⟨hs.role, direction⟩ ∧
        (h.isReserved peerId = true ∨ h.limits.allowed ⟨hs.role, direction⟩ = true) := by
  unfold verifyConnection
  cases hdec : decodeAll handshake with
  | none => simp [throw, throwThe, MonadExceptOf.throw, bind, Except.bind]
  | some hs =>
    simp only [pure, Except.pure, bind, Except.bind, throw, throwThe, MonadExceptOf.throw,
      Option.some.injEq, exists_eq_left']
    by_cases hgenesis : hs.genesisHash = h.genesisHash
    swap
    · simp [hgenesis]
    by_cases hpeers : peerId ∈ h.peers
    · simp [hgenesis, hpeers]
    -- the last check: a reserved node, or room in the peer's class
    cases hroom : (h.isReserved peerId || h.limits.allowed ⟨hs.role, direction⟩) with
    | false =>
      simp only [Bool.or_eq_false_iff] at hroom
      simp [hgenesis, hpeers, hroom]
    | true =>
      simp only [Bool.or_eq_true] at hroom
      simp only [hgenesis, hpeers, hroom, ne_eq, not_true_eq_false, if_false, not_false_eq_true,
        true_and, and_true, Except.ok.injEq]
      exact eq_comm

theorem onPeerConnect_eq_ok :
    h.onPeerConnect decodeAll peerId handshake direction = .ok h' ↔
      ∃ peer, h.verifyConnection decodeAll peerId handshake direction = .ok peer ∧
        h' = { h with limits := if !h.isReserved peerId then h.limits.add peer else h.limits,
                      peers := h.peers.insert peerId peer } := by
  unfold onPeerConnect
  cases h.verifyConnection decodeAll peerId handshake direction with
  | error => simp [bind, Except.bind]
  | ok peer =>
    simp only [bind, Except.bind, pure, Except.pure, Except.ok.injEq, exists_eq_left']
    exact eq_comm

omit [DecidableEq Hash] in
theorem onPeerDisconnect_eq_ok :
    h.onPeerDisconnect peerId = .ok h' ↔
      ∃ peer, h.peers.lookup peerId = some peer ∧
        h' = { h with peers := h.peers.erase peerId,
                      limits := if !h.isReserved peerId then h.limits.remove peer else h.limits } := by
  unfold onPeerDisconnect
  cases h.peers.lookup peerId with
  | none => simp [throw, throwThe, MonadExceptOf.throw, bind, Except.bind]
  | some peer =>
    simp only [bind, Except.bind, pure, Except.pure, Except.ok.injEq, Option.some.injEq,
      exists_eq_left']
    exact eq_comm


/-! ## The counters over a run -/

/-- The connected peers of a class that are not reserved nodes: what the limits count. -/
def connected (h : Handler PeerId Hash) (c : PeerClass) : Nat :=
  h.peers.entries.countP fun e => decide (e.2.peerClass = c) && !h.isReserved e.1

/-- The handler's invariant: each counter is the number of connected peers of its class that
are not reserved, and is within its maximum, which is below `usize::MAX`. -/
structure Counted (h : Handler PeerId Hash) : Prop where
  count_eq : ∀ c, h.limits.count c = h.connected c
  count_le : ∀ c, h.limits.count c ≤ h.limits.max c
  max_lt : ∀ c, h.limits.max c < usizeMax

omit [DecidableEq Hash] in
theorem counted_new (genesisHash : Hash) (netConfig : NetworkConfiguration PeerId) :
    (new genesisHash netConfig : Handler PeerId Hash).Counted where
  count_eq c := by simp [new, connected]
  count_le c := by simp [new]
  max_lt := ConnectionLimits.max_new_lt netConfig

omit [DecidableEq Hash] in
/-- A peer that connects joins the count of its class, unless it is reserved. -/
theorem connected_insert (hnew : peerId ∉ h.peers) (peer : PeerInfo) (limits : ConnectionLimits)
    (c : PeerClass) :
    connected { h with limits, peers := h.peers.insert peerId peer } c =
      h.connected c + if decide (peer.peerClass = c) && !h.isReserved peerId then 1 else 0 :=
  AList.countP_insert_of_notMem peer hnew _

omit [DecidableEq Hash] in
/-- A peer that disconnects leaves the count of its class, unless it is reserved. -/
theorem connected_erase {peer : PeerInfo} (hlookup : h.peers.lookup peerId = some peer)
    (limits : ConnectionLimits) (c : PeerClass) :
    h.connected c = connected { h with peers := h.peers.erase peerId, limits } c +
      if decide (peer.peerClass = c) && !h.isReserved peerId then 1 else 0 :=
  AList.countP_erase_of_lookup hlookup _

/-- A connection keeps the invariant: a reserved node leaves the counters alone, and any other
peer had room in its class, whose counter goes up by one. -/
theorem Counted.onPeerConnect (hc : h.Counted)
    (hok : h.onPeerConnect decodeAll peerId handshake direction = .ok h') : h'.Counted := by
  obtain ⟨peer, hverify, rfl⟩ := onPeerConnect_eq_ok.mp hok
  obtain ⟨hs, -, -, hnew, hpeer, hroom⟩ := verifyConnection_eq_ok.mp hverify
  rw [← hpeer] at hroom
  cases hres : h.isReserved peerId with
  | true =>
    simp only [Bool.not_true, Bool.false_eq_true, if_false]
    refine ⟨fun c => ?_, hc.count_le, hc.max_lt⟩
    rw [connected_insert hnew]
    simp [hres, hc.count_eq c]
  | false =>
    have hallowed := (ConnectionLimits.allowed_iff _ _).mp (hroom.resolve_left (by simp [hres]))
    have hlt : h.limits.count peer.peerClass < usizeMax :=
      Nat.lt_trans hallowed (hc.max_lt peer.peerClass)
    simp only [Bool.not_false, if_true]
    refine ⟨fun c => ?_, fun c => ?_, fun c => ?_⟩
    · rw [connected_insert hnew, ← hc.count_eq c, ConnectionLimits.count_add hlt]
      by_cases hclass : c = peer.peerClass
      · subst hclass
        simp [hres]
      · simp [hres, hclass, Ne.symm hclass]
    · rw [ConnectionLimits.count_add hlt, ConnectionLimits.max_add]
      split
      · next hclass =>
        subst hclass
        omega
      · exact hc.count_le c
    · rw [ConnectionLimits.max_add]
      exact hc.max_lt c

omit [DecidableEq Hash] in
/-- A disconnection keeps the invariant: the peer leaves the count of its class, whose counter
was at least one, unless it is reserved. -/
theorem Counted.onPeerDisconnect (hc : h.Counted) (hok : h.onPeerDisconnect peerId = .ok h') :
    h'.Counted := by
  obtain ⟨peer, hlookup, rfl⟩ := onPeerDisconnect_eq_ok.mp hok
  cases hres : h.isReserved peerId with
  | true =>
    simp only [Bool.not_true, Bool.false_eq_true, if_false]
    refine ⟨fun c => ?_, hc.count_le, hc.max_lt⟩
    have hconnected := connected_erase hlookup h.limits c
    simp only [hres, Bool.not_true, Bool.and_false, Bool.false_eq_true, if_false,
      Nat.add_zero] at hconnected
    rw [← hconnected]
    exact hc.count_eq c
  | false =>
    simp only [Bool.not_false, if_true]
    refine ⟨fun c => ?_, fun c => ?_, fun c => ?_⟩
    · rw [ConnectionLimits.count_remove, hc.count_eq c,
        connected_erase hlookup (h.limits.remove peer) c]
      by_cases hclass : c = peer.peerClass
      · subst hclass
        simp [hres]
      · simp [hres, hclass, Ne.symm hclass]
    · rw [ConnectionLimits.count_remove, ConnectionLimits.max_remove]
      have := hc.count_le c
      split <;> omega
    · rw [ConnectionLimits.max_remove]
      exact hc.max_lt c

/-- A call either fails and leaves the handler as it was, or is a connection or a
disconnection that succeeded. -/
theorem step_cases (h : Handler PeerId Hash) (call : Call PeerId) :
    h.step decodeAll call = h ∨
      (∃ peerId handshake direction,
        h.onPeerConnect decodeAll peerId handshake direction = .ok (h.step decodeAll call)) ∨
      ∃ peerId, h.onPeerDisconnect peerId = .ok (h.step decodeAll call) := by
  cases call with
  | onPeerConnect peerId handshake direction =>
    cases hr : h.onPeerConnect decodeAll peerId handshake direction with
    | ok h' => exact .inr (.inl ⟨peerId, handshake, direction, by simp [Handler.step, hr]⟩)
    | error => exact .inl (by simp [Handler.step, hr])
  | onPeerDisconnect peerId =>
    cases hr : h.onPeerDisconnect peerId with
    | ok h' => exact .inr (.inr ⟨peerId, by simp [Handler.step, hr]⟩)
    | error => exact .inl (by simp [Handler.step, hr])
  | verifyInboundConnection => exact .inl rfl

theorem Counted.step (hc : h.Counted) (call : Call PeerId) : (h.step decodeAll call).Counted := by
  rcases step_cases h call with heq | ⟨_, _, _, hok⟩ | ⟨_, hok⟩
  · rw [heq]
    exact hc
  · exact hc.onPeerConnect hok
  · exact hc.onPeerDisconnect hok

theorem Counted.run (hc : h.Counted) (calls : List (Call PeerId)) :
    (h.run decodeAll calls).Counted := by
  induction calls generalizing h with
  | nil => exact hc
  | cons call calls ih => exact ih (hc.step call)

/-- What no call changes: the reserved nodes, the genesis hash and the maxima. -/
structure Frame (h h' : Handler PeerId Hash) : Prop where
  reservedNodes : h'.reservedNodes = h.reservedNodes
  genesisHash : h'.genesisHash = h.genesisHash
  max : ∀ c, h'.limits.max c = h.limits.max c

omit [DecidableEq PeerId] [DecidableEq Hash] in
theorem Frame.refl (h : Handler PeerId Hash) : Frame h h := ⟨rfl, rfl, fun _ => rfl⟩

omit [DecidableEq PeerId] [DecidableEq Hash] in
theorem Frame.trans {h'' : Handler PeerId Hash} (h₁ : Frame h h') (h₂ : Frame h' h'') :
    Frame h h'' :=
  ⟨h₂.reservedNodes.trans h₁.reservedNodes, h₂.genesisHash.trans h₁.genesisHash,
    fun c => (h₂.max c).trans (h₁.max c)⟩

omit [DecidableEq Hash] in
theorem Frame.isReserved (hf : Frame h h') (peerId : PeerId) :
    h'.isReserved peerId = h.isReserved peerId := by
  simp only [Handler.isReserved, hf.reservedNodes]

theorem frame_onPeerConnect (hok : h.onPeerConnect decodeAll peerId handshake direction = .ok h') :
    Frame h h' := by
  obtain ⟨peer, -, rfl⟩ := onPeerConnect_eq_ok.mp hok
  refine ⟨rfl, rfl, fun c => ?_⟩
  split <;> simp

omit [DecidableEq Hash] in
theorem frame_onPeerDisconnect (hok : h.onPeerDisconnect peerId = .ok h') : Frame h h' := by
  obtain ⟨peer, -, rfl⟩ := onPeerDisconnect_eq_ok.mp hok
  refine ⟨rfl, rfl, fun c => ?_⟩
  split <;> simp

theorem frame_run (h : Handler PeerId Hash) (calls : List (Call PeerId)) :
    Frame h (h.run decodeAll calls) := by
  induction calls generalizing h with
  | nil => exact Frame.refl h
  | cons call calls ih =>
    -- one call, then the rest of the run from where it left the handler
    have hstep : Frame h (h.step decodeAll call) := by
      rcases step_cases h call with heq | ⟨_, _, _, hok⟩ | ⟨_, hok⟩
      · rw [heq]
        exact Frame.refl h
      · exact frame_onPeerConnect hok
      · exact frame_onPeerDisconnect hok
    exact hstep.trans (ih (h.step decodeAll call))

/-- A connection is accepted exactly when its handshake decodes with our genesis hash, the peer
is not connected yet, and it is reserved or its class has room. -/
theorem onPeerConnect_ok_iff :
    (∃ h', h.onPeerConnect decodeAll peerId handshake direction = .ok h') ↔
      ∃ hs, decodeAll handshake = some hs ∧ hs.genesisHash = h.genesisHash ∧ peerId ∉ h.peers ∧
        (h.isReserved peerId = true ∨
          h.limits.count (PeerInfo.mk hs.role direction).peerClass <
            h.limits.max (PeerInfo.mk hs.role direction).peerClass) := by
  constructor
  · rintro ⟨h', hok⟩
    obtain ⟨peer, hverify, -⟩ := onPeerConnect_eq_ok.mp hok
    obtain ⟨hs, hdec, hgenesis, hnew, -, hroom⟩ := verifyConnection_eq_ok.mp hverify
    exact ⟨hs, hdec, hgenesis, hnew, by rwa [ConnectionLimits.allowed_iff] at hroom⟩
  · rintro ⟨hs, hdec, hgenesis, hnew, hroom⟩
    have hverify := verifyConnection_eq_ok.mpr
      ⟨hs, hdec, hgenesis, hnew, rfl, by rwa [ConnectionLimits.allowed_iff]⟩
    exact ⟨_, onPeerConnect_eq_ok.mpr ⟨_, hverify, rfl⟩⟩

variable (decodeAll) in
/-- Over every run from a new handler each counter is the number of connected peers of its
class that are not reserved, within the maximum `ConnectionLimits::new` computed; and a peer is
accepted exactly when its handshake decodes with our genesis hash, it is not connected yet,
and it is a reserved node or the counter of its class is below the maximum. -/
theorem handler_counts_connections (genesisHash : Hash) (netConfig : NetworkConfiguration PeerId)
    (calls : List (Call PeerId)) :
    let h := (new genesisHash netConfig).run decodeAll calls
    (∀ c, h.limits.count c = h.connected c ∧
      h.limits.count c ≤ (ConnectionLimits.new netConfig).max c) ∧
    ∀ peerId handshake direction,
      (∃ h', h.onPeerConnect decodeAll peerId handshake direction = .ok h') ↔
        ∃ hs, decodeAll handshake = some hs ∧ hs.genesisHash = genesisHash ∧ peerId ∉ h.peers ∧
          (peerId ∈ netConfig.reservedNodes ∨
            h.limits.count (PeerInfo.mk hs.role direction).peerClass <
              (ConnectionLimits.new netConfig).max (PeerInfo.mk hs.role direction).peerClass) := by
  intro h
  have hc : h.Counted := (counted_new genesisHash netConfig).run calls
  have hframe : Frame (new genesisHash netConfig) h := frame_run _ calls
  -- the run keeps the configuration the handler was created with
  have hreserved : ∀ peerId, h.isReserved peerId = true ↔ peerId ∈ netConfig.reservedNodes := by
    intro peerId
    simp [isReserved, hframe.reservedNodes, new]
  refine ⟨fun c => ⟨hc.count_eq c, hframe.max c ▸ hc.count_le c⟩,
    fun peerId handshake direction => ?_⟩
  rw [onPeerConnect_ok_iff]
  simp only [hframe.genesisHash, hreserved, hframe.max, new]

end Handler

end Selendra.Network.BaseProtocol
