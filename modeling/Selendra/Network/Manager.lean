import Selendra.Network.Connections
import Selendra.Network.Handler

/-! # The session-network manager

`Manager` of `network/session/manager.rs`, the part that decides which peers the node keeps as
reserved: sessions start and update by `update_validator_session` and
`update_nonvalidator_session`, end by `finish_session`, and learn peers by
`on_discovery_message`. Each of these may emit a `ConnectionCommand` for the network, which
keeps the reserved set. The address of the node (`network_identity.identity()`) and the time of
a discovery message are arguments of the calls. Not modelled: the channels to the user, the
validator address cache (a sink for metrics), and status reports. -/

namespace Selendra.Network

variable {A P Vf Pen Sig : Type}

/-- Commands for manipulating the reserved peers set. -/
inductive ConnectionCommand (A P : Type)
  | addReserved (addresses : HashSet A)
  | delReserved (peers : HashSet P)

/-- What the manager wants done after a call: a command for the reserved set, a message to
broadcast for discovery. -/
structure ManagerActions (A P Sig : Type) where
  maybeCommand : Option (ConnectionCommand A P)
  maybeMessage : Option (Authentication A Sig)

def ManagerActions.noop : ManagerActions A P Sig := ⟨none, none⟩

/-- When an authority's authentication was last rebroadcast; times are `Nat`. -/
structure Discovery where
  cooldown : Nat
  lastBroadcast : AList (fun _ : Nat => Nat)

namespace Discovery

def new (cooldown : Nat) : Discovery := ⟨cooldown, ∅⟩

def shouldRebroadcast (d : Discovery) (now nodeId : Nat) : Bool :=
  match d.lastBroadcast.lookup nodeId with
  | some instant => decide (instant + d.cooldown < now)
  | none => true

variable [AddressingInformation A P] [DecidableEq P]

/-- The authentication of this node, to be broadcast, if it is a validator. -/
def discoverAuthorities (_ : Discovery) (handler : Handler A P Vf Pen Sig) :
    Option (Authentication A Sig) :=
  handler.authentication

/-- Processes the authentication; returns the new address to stay connected to, if any, and
the authentication again if it is time to rebroadcast it. -/
def handleAuthentication (crypto : Crypto A Vf Pen Sig) (d : Discovery) (now : Nat)
    (authentication : Authentication A Sig) (handler : Handler A P Vf Pen Sig) :
    (Option A × Option (Authentication A Sig)) × Discovery × Handler A P Vf Pen Sig :=
  match handler.handleAuthentication crypto authentication with
  | (none, handler) => ((none, none), d, handler)
  | (some address, handler) =>
    let nodeId := authentication.authData.nodeId
    if !d.shouldRebroadcast now nodeId then ((some address, none), d, handler)
    else
      ((some address, some authentication),
        { d with lastBroadcast := d.lastBroadcast.insert nodeId now }, handler)

end Discovery

structure Session (A P Vf Pen Sig : Type) where
  handler : Handler A P Vf Pen Sig
  discovery : Discovery

/-- Everything needed to start a validator session. -/
structure PreValidatorSession (Vf Pen : Type) where
  sessionId : SessionId
  verifier : Vf
  nodeId : Nat
  pen : Pen

/-- Everything needed to start a nonvalidator session. -/
structure PreNonvalidatorSession (Vf : Type) where
  sessionId : SessionId
  verifier : Vf

structure Manager (A P Vf Pen Sig : Type) where
  connections : Connections P
  sessions : AList (fun _ : SessionId => Session A P Vf Pen Sig)
  discoveryCooldown : Nat

namespace Manager

variable [AddressingInformation A P] [DecidableEq P] [DecidableEq A] (crypto : Crypto A Vf Pen Sig)

open AddressingInformation

def new (discoveryCooldown : Nat) : Manager A P Vf Pen Sig := ⟨Connections.new, ∅, discoveryCooldown⟩

def deleteReserved (toRemove : HashSet P) : Option (ConnectionCommand A P) :=
  match toRemove.isEmpty with
  | true => none
  | false => some (.delReserved toRemove)

/-- Ends a session. -/
def finishSession (m : Manager A P Vf Pen Sig) (sessionId : SessionId) :
    ManagerActions A P Sig × Manager A P Vf Pen Sig :=
  let m := { m with sessions := m.sessions.erase sessionId }
  let (toRemove, connections) := m.connections.removeSession sessionId
  (⟨deleteReserved toRemove, none⟩, { m with connections := connections })

def discoverAuthorities (m : Manager A P Vf Pen Sig) (sessionId : SessionId) :
    Option (Authentication A Sig) :=
  (m.sessions.lookup sessionId).bind fun session => session.discovery.discoverAuthorities session.handler

def startValidatorSession (m : Manager A P Vf Pen Sig) (preSession : PreValidatorSession Vf Pen)
    (address : A) : Option (Authentication A Sig) × Manager A P Vf Pen Sig :=
  let handler := Handler.new crypto (some (preSession.nodeId, preSession.pen)) preSession.verifier
    preSession.sessionId address
  let m := { m with
    sessions := m.sessions.insert preSession.sessionId ⟨handler, .new m.discoveryCooldown⟩ }
  (m.discoverAuthorities preSession.sessionId, m)

/-- Starts or updates a validator session. An update reconnects to the peers whose
authentications still check, and drops the peers no session needs any more. -/
def updateValidatorSession (m : Manager A P Vf Pen Sig) (preSession : PreValidatorSession Vf Pen)
    (address : A) : Except HandlerError (ManagerActions A P Sig) × Manager A P Vf Pen Sig :=
  match m.sessions.lookup preSession.sessionId with
  | none =>
    let (maybeMessage, m) := m.startValidatorSession crypto preSession address
    (.ok ⟨none, maybeMessage⟩, m)
  | some session =>
    let sessionId := preSession.sessionId
    match session.handler.update crypto (some (preSession.nodeId, preSession.pen))
        preSession.verifier address with
    | .error e => (.error e, m)
    | .ok (addresses, handler) =>
      let peersToStay := HashSet.ofList (addresses.map peerId)
      let (removed, connections) := m.connections.removeSession sessionId
      let maybeCommand := deleteReserved (removed.filter fun p => decide (p ∉ peersToStay))
      let m := { m with
        sessions := m.sessions.insert sessionId { session with handler := handler }
        connections := connections.addPeers sessionId peersToStay.toList }
      (.ok ⟨maybeCommand, m.discoverAuthorities sessionId⟩, m)

def startNonvalidatorSession (m : Manager A P Vf Pen Sig) (preSession : PreNonvalidatorSession Vf)
    (address : A) : Manager A P Vf Pen Sig :=
  let handler := Handler.new crypto none preSession.verifier preSession.sessionId address
  { m with sessions := m.sessions.insert preSession.sessionId ⟨handler, .new m.discoveryCooldown⟩ }

/-- Starts or updates a nonvalidator session. -/
def updateNonvalidatorSession (m : Manager A P Vf Pen Sig) (preSession : PreNonvalidatorSession Vf)
    (address : A) : Except HandlerError (ManagerActions A P Sig) × Manager A P Vf Pen Sig :=
  match m.sessions.lookup preSession.sessionId with
  | some session =>
    match session.handler.update crypto none preSession.verifier address with
    | .error e => (.error e, m)
    | .ok (_, handler) =>
      (.ok .noop,
        { m with sessions := m.sessions.insert preSession.sessionId { session with handler := handler } })
  | none => (.ok .noop, m.startNonvalidatorSession crypto preSession address)

/-- Handles a discovery message: a validator session keeps the new peer reserved. -/
def onDiscoveryMessage (m : Manager A P Vf Pen Sig) (now : Nat) (message : Authentication A Sig) :
    ManagerActions A P Sig × Manager A P Vf Pen Sig :=
  let sessionId := message.authData.sessionId
  match m.sessions.lookup sessionId with
  | some session =>
    let ((maybeAddress, maybeMessage), discovery, handler) :=
      session.discovery.handleAuthentication crypto now message session.handler
    let m := { m with sessions := m.sessions.insert sessionId ⟨handler, discovery⟩ }
    match maybeAddress with
    | some address =>
      if handler.isValidator then
        (⟨some (.addReserved (HashSet.ofList [address])), maybeMessage⟩,
          { m with connections := m.connections.addPeers sessionId [peerId address] })
      else (⟨none, maybeMessage⟩, m)
    | none => (⟨none, maybeMessage⟩, m)
  | none => (.noop, m)

end Manager

/-! ## The reserved set and runs -/

/-- The network's reading of a command: the reserved peers after it. -/
def ConnectionCommand.apply [AddressingInformation A P] [DecidableEq P] (reserved : HashSet P) :
    ConnectionCommand A P → HashSet P
  | .addReserved addresses =>
    HashSet.ofList (reserved.toList ++ addresses.toList.map AddressingInformation.peerId)
  | .delReserved peers => reserved.filter fun p => decide (p ∉ peers)

/-- The reserved peers after a call that may have emitted a command. -/
def applyCommand [AddressingInformation A P] [DecidableEq P] (reserved : HashSet P) :
    Option (ConnectionCommand A P) → HashSet P
  | some command => command.apply reserved
  | none => reserved

/-- The calls a run is made of. -/
inductive ManagerCall (A Vf Pen Sig : Type)
  | updateValidatorSession (preSession : PreValidatorSession Vf Pen) (address : A)
  | updateNonvalidatorSession (preSession : PreNonvalidatorSession Vf) (address : A)
  | finishSession (sessionId : SessionId)
  | onDiscoveryMessage (now : Nat) (message : Authentication A Sig)

namespace Manager

variable [AddressingInformation A P] [DecidableEq P] [DecidableEq A] (crypto : Crypto A Vf Pen Sig)

/-- The command a call emits, and the manager after it; a call that fails emits nothing. -/
def step (m : Manager A P Vf Pen Sig) :
    ManagerCall A Vf Pen Sig → Option (ConnectionCommand A P) × Manager A P Vf Pen Sig
  | .updateValidatorSession preSession address =>
    let (result, m) := m.updateValidatorSession crypto preSession address
    (match result with
      | .ok actions => actions.maybeCommand
      | .error _ => none, m)
  | .updateNonvalidatorSession preSession address =>
    let (result, m) := m.updateNonvalidatorSession crypto preSession address
    (match result with
      | .ok actions => actions.maybeCommand
      | .error _ => none, m)
  | .finishSession sessionId =>
    let (actions, m) := m.finishSession sessionId
    (actions.maybeCommand, m)
  | .onDiscoveryMessage now message =>
    let (actions, m) := m.onDiscoveryMessage crypto now message
    (actions.maybeCommand, m)

/-- A run: the manager after the calls, and the reserved set after every command it emitted,
in order. -/
def run : Manager A P Vf Pen Sig × HashSet P → List (ManagerCall A Vf Pen Sig) →
    Manager A P Vf Pen Sig × HashSet P
  | st, [] => st
  | (m, reserved), call :: calls =>
    let (command, m') := m.step crypto call
    run (m', applyCommand reserved command) calls

end Manager

end Selendra.Network
