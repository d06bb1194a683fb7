import Selendra.Collections.HashSet

/-! # The clique manager

The validator network of `clique` keeps, for each node, the peers it wants to be connected
with and the connections it has. Which of two peers dials the other is decided by
`should_we_call` of `manager/direction.rs`: the parity of the bits of the xor of both keys'
bytes picks whether the lexicographically smaller or the greater key dials. Both ends compute
it from the same two keys, so exactly one of them dials. `DirectedPeers` keeps the peers to
dial with their addresses (`outgoing`) and those to wait for (`incoming`), and `Manager` of
`manager/mod.rs` adds the connections it holds (the code's `have`, named `connected` here).
`Service` of `service.rs` drives the manager from its commands and from the results of the
workers it spawns.

The metrics the code reports, the status report and the channels themselves are left out:
a connection is its sender, of an arbitrary type, and sending data does not touch the manager.

The results: the two ends of every pair of distinct keys take opposite directions; every
manager a run of the service reaches wants each peer one way only, and holds connections with
wanted peers only; and two managers that each want the other end up with exactly one of them
dialing, at the address it was last given, and the other accepting the dialer. -/

namespace Selendra.Clique

/-- A public key of the clique: its bytes (`as_ref`), which tell keys apart. -/
class PublicKey (PK : Type) where
  bytes : PK → List UInt8
  bytes_injective : Function.Injective bytes

instance : PublicKey (List UInt8) := ⟨id, fun _ _ h => h⟩

/-- `count_ones` of a byte. -/
def countOnes (x : UInt8) : Nat := ((List.range 8).filter fun i => x.toNat.testBit i).length

def shouldWeCall (ownId remoteId : List UInt8) : Bool :=
  let xorSumParity := countOnes (ownId.foldl (· ^^^ ·) 0 ^^^ remoteId.foldl (· ^^^ ·) 0) % 2
  if xorSumParity = 0 then decide (ownId < remoteId) else decide (ownId > remoteId)

/-- The lexicographic order of byte strings, of any lengths, is total. -/
theorem lt_or_gt_of_ne_bytes {a b : List UInt8} (h : a ≠ b) : a < b ∨ b < a := by
  by_contra hn
  simp only [not_or] at hn
  exact h (List.le_antisymm (List.not_lt.mp hn.2) (List.not_lt.mp hn.1))

/-- Two distinct keys take opposite directions: the parity is the same from both ends, and
one of the keys is the smaller. -/
theorem shouldWeCall_swap {a b : List UInt8} (h : a ≠ b) :
    shouldWeCall b a = !shouldWeCall a b := by
  unfold shouldWeCall
  dsimp only
  rw [UInt8.xor_comm (b.foldl _ 0)]
  rcases lt_or_gt_of_ne_bytes h with hlt | hlt <;>
    split_ifs <;> simp [gt_iff_lt, hlt, List.lt_asymm hlt]

example : shouldWeCall [1] [2] = true ∧ shouldWeCall [2] [1] = false := by decide

/-- `DirectedPeers`: the peers we dial, with their addresses, and those we wait for. -/
structure DirectedPeers (PK A : Type) where
  ownId : PK
  outgoing : AList (fun _ : PK => A)
  incoming : HashSet PK

/-- `AddResult` of `add_connection`. -/
inductive AddResult
  | uninterested
  | added
  | replaced
deriving DecidableEq, Repr

/-- `Manager`: the peers we want, and the connections we have with them. -/
structure Manager (PK A S : Type) where
  wanted : DirectedPeers PK A
  connected : AList (fun _ : PK => S)

/-- The commands of the service that reach the manager. -/
inductive ServiceCommand (PK D A : Type)
  | addConnection (publicKey : PK) (address : A)
  | delConnection (publicKey : PK)
  | sendData (data : D) (publicKey : PK)

/-- What the service's loop receives: a command, a result of a connection worker (a sender
for an established connection, or `None` when it ended), or an authorization request. -/
inductive Input (PK D A S : Type)
  | command (command : ServiceCommand PK D A)
  | dataForNetwork (publicKey : PK) (dataForNetwork : Option S)
  | authorization (publicKey : PK)

/-- What the service does in answer: spawn a worker dialing a peer at an address, or answer an
authorization request. -/
inductive Output (PK A : Type)
  | spawnOutgoing (publicKey : PK) (address : A)
  | authorized (publicKey : PK) (result : Bool)
deriving DecidableEq, Repr

variable {PK A S D : Type} [DecidableEq PK]

open PublicKey

namespace DirectedPeers

def new (ownId : PK) : DirectedPeers PK A := ⟨ownId, ∅, ∅⟩

def peerAddress (p : DirectedPeers PK A) (peerId : PK) : Option A := p.outgoing.lookup peerId

def interested (p : DirectedPeers PK A) (peerId : PK) : Bool :=
  decide (peerId ∈ p.incoming) || (p.outgoing.lookup peerId).isSome

def removePeer (p : DirectedPeers PK A) (peerId : PK) : DirectedPeers PK A :=
  { p with incoming := p.incoming.erase peerId, outgoing := p.outgoing.erase peerId }

theorem lookup_removePeer (p : DirectedPeers PK A) (peerId q : PK) :
    (p.removePeer peerId).outgoing.lookup q = if q = peerId then none else p.outgoing.lookup q := by
  by_cases hq : q = peerId
  · subst hq
    simp [removePeer, AList.lookup_erase]
  · simp [removePeer, AList.lookup_erase_ne hq, hq]

theorem mem_incoming_removePeer (p : DirectedPeers PK A) (peerId q : PK) :
    q ∈ (p.removePeer peerId).incoming ↔ q ≠ peerId ∧ q ∈ p.incoming :=
  HashSet.mem_erase

theorem interested_removePeer (p : DirectedPeers PK A) (peerId q : PK) :
    (p.removePeer peerId).interested q = true ↔ q ≠ peerId ∧ p.interested q = true := by
  by_cases hq : q = peerId
  · simp [interested, mem_incoming_removePeer, lookup_removePeer, hq]
  · simp [interested, hq, removePeer]

variable [PublicKey PK]

/-- `add_peer`: whether to start dialing, which is when we dial this peer and it was not
wanted before. The address of a peer that dials us is discarded. -/
def addPeer (p : DirectedPeers PK A) (peerId : PK) (address : A) : DirectedPeers PK A × Bool :=
  if shouldWeCall (bytes p.ownId) (bytes peerId) then
    ({ p with outgoing := p.outgoing.insert peerId address }, (p.outgoing.lookup peerId).isNone)
  else
    ({ p with incoming := p.incoming.insert peerId }, false)

theorem lookup_addPeer (p : DirectedPeers PK A) (peerId : PK) (address : A) (q : PK) :
    (p.addPeer peerId address).1.outgoing.lookup q =
      if q = peerId ∧ shouldWeCall (bytes p.ownId) (bytes peerId) = true then some address
      else p.outgoing.lookup q := by
  unfold addPeer
  by_cases hq : q = peerId
  · subst hq
    split_ifs <;> simp_all [AList.lookup_insert]
  · split_ifs <;> simp_all [AList.lookup_insert_ne hq]

theorem mem_incoming_addPeer (p : DirectedPeers PK A) (peerId : PK) (address : A) (q : PK) :
    q ∈ (p.addPeer peerId address).1.incoming ↔
      (q = peerId ∧ shouldWeCall (bytes p.ownId) (bytes peerId) = false) ∨ q ∈ p.incoming := by
  unfold addPeer
  split_ifs with hcall <;> simp [hcall]

theorem addPeer_start (p : DirectedPeers PK A) (peerId : PK) (address : A) :
    (p.addPeer peerId address).2 =
      (shouldWeCall (bytes p.ownId) (bytes peerId) && (p.outgoing.lookup peerId).isNone) := by
  unfold addPeer
  split_ifs with hcall <;> simp [hcall]

/-- Adding a peer makes it wanted, one way or the other, and keeps every other peer as it was
wanted. -/
theorem interested_addPeer (p : DirectedPeers PK A) (peerId : PK) (address : A) (q : PK) :
    (p.addPeer peerId address).1.interested q = true ↔ q = peerId ∨ p.interested q = true := by
  simp only [interested, Bool.or_eq_true, decide_eq_true_eq, mem_incoming_addPeer,
    lookup_addPeer]
  by_cases hq : q = peerId
  · subst hq
    cases shouldWeCall (bytes p.ownId) (bytes q) <;> simp
  · simp [hq]

@[simp] theorem ownId_addPeer (p : DirectedPeers PK A) (peerId : PK) (address : A) :
    (p.addPeer peerId address).1.ownId = p.ownId := by
  unfold addPeer
  split_ifs <;> rfl

end DirectedPeers

namespace Manager

def new (ownId : PK) : Manager PK A S := ⟨DirectedPeers.new ownId, ∅⟩

omit [DecidableEq PK] in
@[simp] theorem ownId_new (ownId : PK) : (new ownId : Manager PK A S).wanted.ownId = ownId := rfl

def peerAddress (m : Manager PK A S) (peerId : PK) : Option A := m.wanted.peerAddress peerId

/-- `add_connection`: the connection is kept only when the peer is wanted, and replaces any
connection with it. -/
def addConnection (m : Manager PK A S) (peerId : PK) (dataForNetwork : S) :
    Manager PK A S × AddResult :=
  if !m.wanted.interested peerId then (m, .uninterested)
  else
    match m.connected.lookup peerId with
    | some _ => ({ m with connected := m.connected.insert peerId dataForNetwork }, .replaced)
    | none => ({ m with connected := m.connected.insert peerId dataForNetwork }, .added)

def removePeer (m : Manager PK A S) (peerId : PK) : Manager PK A S :=
  { wanted := m.wanted.removePeer peerId, connected := m.connected.erase peerId }

def isAuthorized (m : Manager PK A S) (publicKey : PK) : Bool := m.wanted.interested publicKey

@[simp] theorem wanted_addConnection (m : Manager PK A S) (peerId : PK) (dataForNetwork : S) :
    (m.addConnection peerId dataForNetwork).1.wanted = m.wanted := by
  unfold addConnection
  split
  · rfl
  · split <;> rfl

/-- A connection is added exactly when its peer is wanted. -/
theorem mem_connected_addConnection (m : Manager PK A S) (peerId : PK) (dataForNetwork : S)
    (q : PK) : q ∈ (m.addConnection peerId dataForNetwork).1.connected ↔
      q ∈ m.connected ∨ (q = peerId ∧ m.wanted.interested peerId = true) := by
  unfold addConnection
  split
  · rename_i hint
    simp_all
  · rename_i hint
    simp only [Bool.not_eq_true', Bool.not_eq_false] at hint
    split <;> simp [AList.mem_insert, hint, or_comm]

variable [PublicKey PK]

def addPeer (m : Manager PK A S) (peerId : PK) (address : A) : Manager PK A S × Bool :=
  let (wanted, start) := m.wanted.addPeer peerId address
  ({ m with wanted }, start)

end Manager

variable [PublicKey PK]

namespace Service

open Manager

/-- `handle_command`: a new peer is dialed when `add_peer` says so. -/
def handleCommand (m : Manager PK A S) :
    ServiceCommand PK D A → Manager PK A S × List (Output PK A)
  | .addConnection publicKey address =>
    let (m, start) := m.addPeer publicKey address
    (m, if start then [.spawnOutgoing publicKey address] else [])
  | .delConnection publicKey => (m.removePeer publicKey, [])
  | .sendData _ _ => (m, [])

/-- `handle_data_for_network`: an established connection is added; when a worker ends, a
peer we dial is dialed again. -/
def handleDataForNetwork (m : Manager PK A S) (publicKey : PK) :
    Option S → Manager PK A S × List (Output PK A)
  | some dataForNetwork => ((m.addConnection publicKey dataForNetwork).1, [])
  | none =>
    match m.peerAddress publicKey with
    | some address => (m, [.spawnOutgoing publicKey address])
    | none => (m, [])

def handleAuthorizationRequest (m : Manager PK A S) (publicKey : PK) : Output PK A :=
  .authorized publicKey (m.isAuthorized publicKey)

/-- One turn of the service's loop. -/
def step (m : Manager PK A S) : Input PK D A S → Manager PK A S × List (Output PK A)
  | .command command => handleCommand m command
  | .dataForNetwork publicKey dataForNetwork => handleDataForNetwork m publicKey dataForNetwork
  | .authorization publicKey => (m, [handleAuthorizationRequest m publicKey])

def run : Manager PK A S → List (Input PK D A S) → Manager PK A S × List (Output PK A)
  | m, [] => (m, [])
  | m, input :: inputs =>
    let (m, outputs) := step m input
    let (m, outputs') := run m inputs
    (m, outputs ++ outputs')

@[simp] theorem step_addConnection (m : Manager PK A S) (publicKey : PK) (address : A) :
    (step m (.command (.addConnection publicKey address) : Input PK D A S)).1 =
      { m with wanted := (m.wanted.addPeer publicKey address).1 } := rfl

@[simp] theorem step_delConnection (m : Manager PK A S) (publicKey : PK) :
    (step m (.command (.delConnection publicKey) : Input PK D A S)).1 = m.removePeer publicKey :=
  rfl

@[simp] theorem step_sendData (m : Manager PK A S) (data : D) (publicKey : PK) :
    (step m (.command (.sendData data publicKey) : Input PK D A S)).1 = m := rfl

@[simp] theorem step_connectionEstablished (m : Manager PK A S) (publicKey : PK) (s : S) :
    (step m (.dataForNetwork publicKey (some s) : Input PK D A S)).1 =
      (m.addConnection publicKey s).1 := rfl

@[simp] theorem step_workerEnded (m : Manager PK A S) (publicKey : PK) :
    (step m (.dataForNetwork publicKey none : Input PK D A S)).1 = m := by
  simp only [step, handleDataForNetwork]
  split <;> rfl

@[simp] theorem step_authorization (m : Manager PK A S) (publicKey : PK) :
    (step m (.authorization publicKey : Input PK D A S)).1 = m := rfl

@[simp] theorem ownId_step (m : Manager PK A S) (input : Input PK D A S) :
    (step m input).1.wanted.ownId = m.wanted.ownId := by
  rcases input with ⟨⟨publicKey, address⟩ | publicKey | ⟨data, publicKey⟩⟩ | ⟨publicKey, _ | s⟩ |
    publicKey <;> simp [Manager.removePeer, DirectedPeers.removePeer]

theorem run_cons (m : Manager PK A S) (input : Input PK D A S) (inputs : List (Input PK D A S)) :
    run m (input :: inputs) =
      ((run (step m input).1 inputs).1, (step m input).2 ++ (run (step m input).1 inputs).2) :=
  rfl

theorem ownId_run : ∀ (m : Manager PK A S) (inputs : List (Input PK D A S)),
    (run m inputs).1.wanted.ownId = m.wanted.ownId
  | _, [] => rfl
  | m, input :: inputs => by rw [run_cons, ownId_run, ownId_step]

/-! ## Every reachable manager is consistent -/

/-- What every manager the service reaches keeps: each peer is wanted the way the direction
rule says, and every connection held is with a wanted peer. -/
structure Consistent (m : Manager PK A S) : Prop where
  outgoing : ∀ q, (m.wanted.outgoing.lookup q).isSome →
    shouldWeCall (bytes m.wanted.ownId) (bytes q) = true
  incoming : ∀ q ∈ m.wanted.incoming, shouldWeCall (bytes m.wanted.ownId) (bytes q) = false
  connected : ∀ q ∈ m.connected, m.wanted.interested q = true

theorem consistent_new (ownId : PK) : Consistent (Manager.new ownId : Manager PK A S) where
  outgoing q hq := by simp [Manager.new, DirectedPeers.new] at hq
  incoming q hq := by simp [Manager.new, DirectedPeers.new] at hq
  connected q hq := by simp [Manager.new] at hq

theorem consistent_step {m : Manager PK A S} (h : Consistent m) (input : Input PK D A S) :
    Consistent (step m input).1 := by
  rcases input with ⟨⟨p, address⟩ | p | ⟨data, p⟩⟩ | ⟨p, _ | s⟩ | p
  · -- a new peer is wanted the way the rule says, and no wanted peer stops being wanted
    simp only [step_addConnection]
    refine ⟨fun q hq => ?_, fun q hq => ?_, fun q hq => ?_⟩
    · rw [DirectedPeers.lookup_addPeer] at hq
      split_ifs at hq with hc
      · rw [hc.1, DirectedPeers.ownId_addPeer]
        exact hc.2
      · rw [DirectedPeers.ownId_addPeer]
        exact h.outgoing q hq
    · rcases (DirectedPeers.mem_incoming_addPeer _ _ _ _).mp hq with ⟨rfl, hc⟩ | hq
      · simpa using hc
      · simpa using h.incoming q hq
    · exact (DirectedPeers.interested_addPeer _ _ _ _).mpr (Or.inr (h.connected q hq))
  · -- the peer is no longer wanted, and its connection is dropped with it
    simp only [step_delConnection]
    refine ⟨fun q hq => ?_, fun q hq => ?_, fun q hq => ?_⟩
    · rw [Manager.removePeer, DirectedPeers.lookup_removePeer] at hq
      split_ifs at hq
      · cases hq
      · exact h.outgoing q hq
    · exact h.incoming q ((DirectedPeers.mem_incoming_removePeer _ _ _).mp hq).2
    · obtain ⟨hne, hq⟩ := (AList.mem_erase).mp hq
      exact (DirectedPeers.interested_removePeer _ _ _).mpr ⟨hne, h.connected q hq⟩
  · simpa using h
  · simpa using h
  · -- a connection is kept only with a wanted peer
    simp only [step_connectionEstablished]
    refine ⟨fun q hq => ?_, fun q hq => ?_, fun q hq => ?_⟩
    · simpa using h.outgoing q (by simpa using hq)
    · simpa using h.incoming q (by simpa using hq)
    · rw [Manager.wanted_addConnection]
      rcases (Manager.mem_connected_addConnection _ _ _ _).mp hq with hq | ⟨rfl, hint⟩
      · exact h.connected q hq
      · exact hint
  · simpa using h

theorem consistent_run : ∀ (m : Manager PK A S) (inputs : List (Input PK D A S)),
    Consistent m → Consistent (run m inputs).1
  | _, [], h => h
  | m, input :: inputs, h => by
    rw [run_cons]
    exact consistent_run _ inputs (consistent_step h input)

/-! ## How a run wants one peer -/

/-- What the inputs so far say of `peer`: the address of the last command adding it, or
`none` when it was never added or was removed since. -/
def wantedAddress (peer : PK) (last : Option A) : Input PK D A S → Option A
  | .command (.addConnection publicKey address) => if publicKey = peer then some address else last
  | .command (.delConnection publicKey) => if publicKey = peer then none else last
  | _ => last

/-- A manager wants `peer` as `last` says: dialed at `last` when it calls the peer, waited
for when the peer calls it and `last` is set. -/
structure Tracks (m : Manager PK A S) (peer : PK) (last : Option A) : Prop where
  peerAddress : m.peerAddress peer =
    if shouldWeCall (bytes m.wanted.ownId) (bytes peer) then last else none
  incoming : peer ∈ m.wanted.incoming ↔
    shouldWeCall (bytes m.wanted.ownId) (bytes peer) = false ∧ last.isSome = true

theorem tracks_new (ownId peer : PK) :
    Tracks (Manager.new ownId : Manager PK A S) peer none where
  peerAddress := by
    rw [ite_self]
    rfl
  incoming := by simp [Manager.new, DirectedPeers.new]

theorem tracks_step {m : Manager PK A S} {peer : PK} {last : Option A} (h : Tracks m peer last)
    (input : Input PK D A S) : Tracks (step m input).1 peer (wantedAddress peer last input) := by
  obtain ⟨haddr, hinc⟩ := h
  rcases input with ⟨⟨p, address⟩ | p | ⟨data, p⟩⟩ | ⟨p, _ | s⟩ | p
  · simp only [step_addConnection, wantedAddress]
    by_cases hp : p = peer
    · -- the peer itself is added, on the side the rule picks
      subst hp
      constructor <;>
        cases hc : shouldWeCall (bytes m.wanted.ownId) (bytes p) <;>
        simp_all [Manager.peerAddress, DirectedPeers.peerAddress, DirectedPeers.lookup_addPeer,
          DirectedPeers.mem_incoming_addPeer]
    · have hq : peer ≠ p := Ne.symm hp
      constructor
      · simpa [Manager.peerAddress, DirectedPeers.peerAddress, DirectedPeers.lookup_addPeer,
          hp, hq] using haddr
      · simpa [DirectedPeers.mem_incoming_addPeer, hp, hq] using hinc
  · simp only [step_delConnection, wantedAddress]
    by_cases hp : p = peer
    · subst hp
      constructor
      · simp [Manager.peerAddress, DirectedPeers.peerAddress, Manager.removePeer,
          DirectedPeers.removePeer]
      · simp [Manager.removePeer, DirectedPeers.mem_incoming_removePeer]
    · have hq : peer ≠ p := Ne.symm hp
      constructor
      · simpa [Manager.peerAddress, DirectedPeers.peerAddress, Manager.removePeer,
          DirectedPeers.lookup_removePeer, hp, hq, DirectedPeers.removePeer] using haddr
      · simpa [Manager.removePeer, DirectedPeers.mem_incoming_removePeer, hp, hq,
          DirectedPeers.removePeer] using hinc
  all_goals
    simp only [step_sendData, step_connectionEstablished, step_workerEnded, step_authorization,
      wantedAddress]
    exact ⟨by simpa [Manager.peerAddress] using haddr, by simpa using hinc⟩

theorem tracks_run : ∀ (m : Manager PK A S) (inputs : List (Input PK D A S)) {peer : PK}
    {last : Option A}, Tracks m peer last →
    Tracks (run m inputs).1 peer (inputs.foldl (wantedAddress peer) last)
  | _, [], _, _, h => h
  | m, input :: inputs, _, _, h => by
    rw [run_cons, List.foldl_cons]
    exact tracks_run _ inputs (tracks_step h input)

/-- A command adding a peer that is not wanted spawns a dialer exactly when we call the
peer. -/
theorem step_addConnection_spawns {m : Manager PK A S} {peer : PK} (h : Tracks m peer none)
    (address : A) :
    (step m (.command (.addConnection peer address) : Input PK D A S)).2 =
      if shouldWeCall (bytes m.wanted.ownId) (bytes peer) then [.spawnOutgoing peer address]
      else [] := by
  have hnone : m.wanted.outgoing.lookup peer = none := by
    have haddr := h.peerAddress
    rwa [ite_self] at haddr
  simp [step, handleCommand, Manager.addPeer, DirectedPeers.addPeer_start, hnone]

/-- The connection rule of the clique. Two distinct keys take opposite directions. Of two
managers that each were last told to add the other, exactly one dials the other at the address
it was last given, and the other waits for it and authorizes it; the first command adding a
peer not wanted spawns a dialer exactly on the side that calls. Every manager a run of the
service reaches wants no peer both ways, and holds connections with wanted peers only. -/
theorem clique_dials_one_way :
    (∀ a b : List UInt8, a ≠ b → shouldWeCall a b ≠ shouldWeCall b a) ∧
    (∀ (a b : PK) (inputsA inputsB : List (Input PK D A S)) (addressB addressA : A), a ≠ b →
      inputsA.foldl (wantedAddress b) none = some addressB →
      inputsB.foldl (wantedAddress a) none = some addressA →
      let ma := (run (Manager.new a) inputsA).1
      let mb := (run (Manager.new b) inputsB).1
      (shouldWeCall (bytes a) (bytes b) = true ∧ ma.peerAddress b = some addressB ∧
          mb.peerAddress a = none ∧ a ∈ mb.wanted.incoming ∧ mb.isAuthorized a = true) ∨
        (shouldWeCall (bytes b) (bytes a) = true ∧ mb.peerAddress a = some addressA ∧
          ma.peerAddress b = none ∧ b ∈ ma.wanted.incoming ∧ ma.isAuthorized b = true)) ∧
    (∀ (ownId peer : PK) (inputs : List (Input PK D A S)) (address : A),
      inputs.foldl (wantedAddress peer) none = none →
      (step (run (Manager.new ownId) inputs).1
          (.command (.addConnection peer address) : Input PK D A S)).2 =
        if shouldWeCall (bytes ownId) (bytes peer) then [.spawnOutgoing peer address] else []) ∧
    (∀ (ownId : PK) (inputs : List (Input PK D A S)),
      let m := (run (Manager.new ownId) inputs).1
      (∀ q, ¬ ((m.wanted.outgoing.lookup q).isSome = true ∧ q ∈ m.wanted.incoming)) ∧
        ∀ q ∈ m.connected, m.wanted.interested q = true) := by
  refine ⟨fun a b hab => ?_, fun a b inputsA inputsB addressB addressA hab hA hB => ?_,
    fun ownId peer inputs address hnone => ?_, fun ownId inputs => ?_⟩
  · rw [shouldWeCall_swap hab]
    cases shouldWeCall a b <;> decide
  · -- each manager wants the other as its last command says, on the side the rule picks
    have hbytes : bytes a ≠ bytes b := fun h => hab (bytes_injective h)
    have hswap := shouldWeCall_swap hbytes
    obtain ⟨haddrA, hincA⟩ := tracks_run (Manager.new a) inputsA (tracks_new (S := S) a b)
    obtain ⟨haddrB, hincB⟩ := tracks_run (Manager.new b) inputsB (tracks_new (S := S) b a)
    rw [ownId_run, Manager.ownId_new, hA] at haddrA hincA
    rw [ownId_run, Manager.ownId_new, hB, hswap] at haddrB hincB
    cases hcall : shouldWeCall (bytes a) (bytes b)
    · right
      simp only [hcall, Bool.not_false, if_true, Option.isSome_some, and_true,
        iff_true] at haddrA hincA haddrB hincB
      exact ⟨by rw [hswap, hcall]; rfl, haddrB, haddrA, hincA,
        by simp [Manager.isAuthorized, DirectedPeers.interested, hincA]⟩
    · left
      simp only [hcall, Bool.not_true, if_true, Option.isSome_some, and_true,
        iff_true] at haddrA hincA haddrB hincB
      exact ⟨rfl, haddrA, haddrB, hincB,
        by simp [Manager.isAuthorized, DirectedPeers.interested, hincB]⟩
  · have htracks := tracks_run (Manager.new ownId) inputs (tracks_new (S := S) ownId peer)
    rw [hnone] at htracks
    rw [step_addConnection_spawns htracks, ownId_run, Manager.ownId_new]
  · -- the direction rule sends each peer one way, and connections stay with wanted peers
    have hcons := consistent_run (Manager.new ownId) inputs (consistent_new ownId)
    refine ⟨fun q ⟨hout, hin⟩ => ?_, hcons.connected⟩
    have hcall := hcons.outgoing q hout
    rw [hcons.incoming q hin] at hcall
    cases hcall

theorem clique_dials_one_way_sample :
    ([0] : List UInt8) ≠ [1] ∧
    ([.command (.addConnection [1] 5)] : List (Input (List UInt8) Nat Nat Nat)).foldl
      (wantedAddress [1]) none = some 5 ∧
    ([.command (.addConnection [0] 7)] : List (Input (List UInt8) Nat Nat Nat)).foldl
      (wantedAddress [0]) none = some 7 ∧
    let ma := (run (Manager.new [0])
      ([.command (.addConnection [1] 5)] : List (Input (List UInt8) Nat Nat Nat))).1
    let mb := (run (Manager.new [1])
      ([.command (.addConnection [0] 7)] : List (Input (List UInt8) Nat Nat Nat))).1
    ((shouldWeCall (PublicKey.bytes ([0] : List UInt8)) (PublicKey.bytes ([1] : List UInt8)) = true ∧
        ma.peerAddress [1] = some 5 ∧ mb.peerAddress [0] = none ∧ [0] ∈ mb.wanted.incoming ∧
        mb.isAuthorized [0] = true) ∨
      (shouldWeCall (PublicKey.bytes ([1] : List UInt8)) (PublicKey.bytes ([0] : List UInt8)) = true ∧
        mb.peerAddress [0] = some 7 ∧ ma.peerAddress [1] = none ∧ [1] ∈ ma.wanted.incoming ∧
        ma.isAuthorized [1] = true)) :=
  ⟨by decide, by decide, by decide,
    clique_dials_one_way.2.1 [0] [1] [.command (.addConnection [1] 5)]
      [.command (.addConnection [0] 7)] 5 7 (by decide) (by decide) (by decide)⟩

end Service

end Selendra.Clique
