import Selendra.Clique.Handshake

/-! # A connection after the handshake

The data phase of `clique/src/protocols/v1/mod.rs`. `sending` turns what the user hands it into
messages, a heartbeat whenever the user stays quiet for `HEARTBEAT_TIMEOUT`, and sends each as
a frame; it returns when the parent closes the user channel. `receiving` reads message after
message and hands the data of each to the user. Whether data or the timeout comes first is up
to the environment, so the sender's loop runs over a list of events: `some data`, or `none`
for a heartbeat.

The two loops run on the two halves of a split stream, one direction each, and
`manage_connection` returns as soon as either does, dropping the stream. We take one
direction: one node's `sending` writing to the other's `receiving`. In every interleaving the
receiving user gets exactly the data sent, in order, and no heartbeat
(`connection_delivers_in_order`); data too long for a frame stops the sender, and what came
before it still arrives (`connection_stops_at_too_long`). Whatever bytes arrive, the user only
gets the data of whole frames at the front of the stream (`receiving_sound`). Timeouts
(`SendTimeout`, `CardiacArrest`), a closed user channel (`NoUserConnection`) and the
cancellation of a loop when the other direction ends first are left out.

The whole connection, one direction of it, is `outgoing` against `incoming`: the handshake,
the parent's authorization of the caller's key, the user channel handed to each node's parent,
then the two loops. Between honest nodes whose parents take the channel, the called node's user
gets exactly the data sent (`session_delivers_in_order`); whatever a caller sends, data reaches
the called node's user only after a response verified under a key its parent authorized
(`incoming_sound`). -/

namespace Selendra.Clique

open Scale Talk Duplex

/-- The messages of a connection. -/
inductive Message (D : Type) where
  | data (d : D)
  | heartbeat
deriving DecidableEq, Repr

/-- Protocol error. -/
inductive ProtocolError (PK : Type) where
  /-- Error during performing a handshake. -/
  | handshakeError (e : HandshakeError PK)
  /-- Sending failed. -/
  | sendError (e : SendError)
  /-- Receiving failed. -/
  | receiveError (e : ReceiveError)
  /-- Heartbeat stopped. -/
  | cardiacArrest
  /-- Channel to the parent service closed. -/
  | noParentConnection
  /-- Data channel closed. -/
  | noUserConnection
  /-- Authorization error. -/
  | notAuthorized
  /-- Send operation took too long. -/
  | sendTimeout
deriving DecidableEq

variable {PK D : Type}

namespace Message

/-- The variant and its fields, as the derived encoding sees them. -/
def toSum : Message D → D ⊕ Unit
  | data d => .inl d
  | heartbeat => .inr ()

def ofSum : D ⊕ Unit → Message D
  | .inl d => data d
  | .inr () => heartbeat

/-- The derived SCALE encoding of the enum: the index of the variant, then its fields. -/
def codec (c : Codec D) : Codec (Message D) :=
  (c.sum Codec.unit).map ofSum toSum (fun m => by cases m <;> rfl)
    (fun s _ => by rcases s with d | ⟨⟩ <;> rfl)

/-- What the loop of `sending` makes of the user channel's answer: the data, or a heartbeat
when the timeout came first. -/
def ofEvent : Option D → Message D
  | some d => data d
  | none => heartbeat

end Message

section Loops

variable (c : Codec D)

/-- The loop of `sending`, over what the user channel gives it in turn; the end of the list is
the parent closing the channel, all good. -/
def sending : List (Option D) → Talk (Except (ProtocolError PK) Unit)
  | [] => pure (.ok ())
  | event :: events => do
    match ← sendData (Message.codec c) (Message.ofEvent event) with
    | .error e => pure (.error (.sendError e))
    | .ok () => sending events

/-- The loop of `receiving`, for at most `fuel` messages: it hands the data of each message to
the user (`delivered`, in order) and ends only when receiving fails, or with `none` when the
fuel is spent. -/
def receiving : Nat → List D → Talk (List D × Option (ProtocolError PK))
  | 0, delivered => pure (delivered, none)
  | fuel + 1, delivered => do
    match ← receiveData (Message.codec c) with
    | .error e => pure (delivered, some (.receiveError e))
    | .ok (.data data) => receiving fuel (delivered ++ [data])
    | .ok .heartbeat => receiving fuel delivered

/-- An event whose message the sender frames and the receiver decodes. -/
def Sendable (event : Option D) : Prop :=
  (Message.codec c).valid (Message.ofEvent event) ∧
    ((Message.codec c).encode (Message.ofEvent event)).length ≤ MAX_DATA_SIZE

end Loops

/-! ## The two loops -/

section Advance

variable (c : Codec D)

@[simp] theorem advance_sending_nil (input : List UInt8) :
    (sending c [] : Talk (Except (ProtocolError PK) Unit)).advance input =
      (done (.ok ()), [], input) := rfl

/-- The sender writes the frames of the events it can send, one after another, and reads
nothing. -/
theorem advance_sending_append {pre : List (Option D)} (hpre : ∀ e ∈ pre, Sendable c e)
    (rest : List (Option D)) (input : List UInt8) :
    (sending c (pre ++ rest) : Talk (Except (ProtocolError PK) Unit)).advance input =
      (((sending c rest : Talk (Except (ProtocolError PK) Unit)).advance input).1,
        (pre.map Message.ofEvent).flatMap (frame (Message.codec c)) ++
          ((sending c rest : Talk (Except (ProtocolError PK) Unit)).advance input).2.1,
        ((sending c rest : Talk (Except (ProtocolError PK) Unit)).advance input).2.2) := by
  induction pre with
  | nil => simp
  | cons e pre ih =>
    have hrest : ∀ e' ∈ pre, Sendable c e' := fun e' h => hpre e' (List.mem_cons_of_mem e h)
    rw [List.cons_append, sending, bind_eq,
      advance_sendData_bind (Message.codec c) _ (hpre e List.mem_cons_self).2]
    dsimp only
    rw [ih hrest, List.map_cons, List.flatMap_cons, List.append_assoc]

theorem advance_sending {events : List (Option D)} (hs : ∀ e ∈ events, Sendable c e)
    (input : List UInt8) :
    (sending c events : Talk (Except (ProtocolError PK) Unit)).advance input =
      (done (.ok ()), (events.map Message.ofEvent).flatMap (frame (Message.codec c)), input) := by
  have h := @advance_sending_append PK D c events hs [] input
  simpa only [List.append_nil, advance_sending_nil] using h

/-- A message too long for a frame stops the sender before it writes anything of it. -/
theorem advance_sending_of_lt {event : Option D}
    (hlong : MAX_DATA_SIZE < ((Message.codec c).encode (Message.ofEvent event)).length)
    (events : List (Option D)) (input : List UInt8) :
    (sending c (event :: events) : Talk (Except (ProtocolError PK) Unit)).advance input =
      (done (.error (.sendError
        ⟨.dataTooLong (min U32_MAX ((Message.codec c).encode (Message.ofEvent event)).length)⟩)),
        [], input) := by
  rw [sending, bind_eq, sendData_of_lt _ _ hlong]
  rfl

theorem waits_receiving (fuel : Nat) (delivered : List D) :
    (receiving c (fuel + 1) delivered : Talk (List D × Option (ProtocolError PK))).waits =
      some 4 := rfl

theorem advance_receiving_nil (fuel : Nat) (delivered : List D) :
    (receiving c (fuel + 1) delivered : Talk (List D × Option (ProtocolError PK))).advance [] =
      (receiving c (fuel + 1) delivered, [], []) :=
  advance_receiveData_bind_of_lt (Message.codec c) _ (by decide)

/-- One frame read: its data, if it carries any, goes to the user. -/
theorem advance_receiving_frame {event : Option D} (he : Sendable c event) (fuel : Nat)
    (delivered : List D) (rest : List UInt8) :
    (receiving c (fuel + 1) delivered : Talk (List D × Option (ProtocolError PK))).advance
        (frame (Message.codec c) (Message.ofEvent event) ++ rest) =
      (receiving c fuel (delivered ++ event.toList)).advance rest := by
  cases event with
  | some data => exact advance_receiveData_frame (Message.codec c) he.1 he.2 _ rest
  | none =>
    rw [Option.toList_none, List.append_nil]
    exact advance_receiveData_frame (Message.codec c) he.1 he.2 _ rest

/-- The receiver reads the frames of the events one after another, handing their data to the
user in order and dropping the heartbeats. -/
theorem advance_receiving {events : List (Option D)} (hs : ∀ e ∈ events, Sendable c e)
    (fuel : Nat) (delivered : List D) (rest : List UInt8) :
    (receiving c (fuel + events.length) delivered :
        Talk (List D × Option (ProtocolError PK))).advance
        ((events.map Message.ofEvent).flatMap (frame (Message.codec c)) ++ rest) =
      (receiving c fuel (delivered ++ events.filterMap id)).advance rest := by
  induction events generalizing delivered with
  | nil => simp
  | cons e events ih =>
    have hrest : ∀ e' ∈ events, Sendable c e' := fun e' h => hs e' (List.mem_cons_of_mem e h)
    rw [List.length_cons, ← Nat.add_assoc, List.map_cons, List.flatMap_cons, List.append_assoc,
      advance_receiving_frame c (hs e List.mem_cons_self), ih hrest]
    cases e <;> simp

/-- Whatever bytes arrive, what the loop hands the user is the data of whole frames at the front
of the stream, in order, each a message of its codec within the size of a frame. -/
theorem receiving_sound (fuel : Nat) (delivered : List D) (input : List UInt8) :
    ∃ events : List (Option D), (∀ e ∈ events, Sendable c e) ∧
      (events.map Message.ofEvent).flatMap (frame (Message.codec c)) <+: input ∧
      ((receiving c fuel delivered : Talk (List D × Option (ProtocolError PK))).runOn input).1.1 =
        delivered ++ events.filterMap id := by
  induction fuel generalizing delivered input with
  | zero => exact ⟨[], by simp, List.nil_prefix, by simp [receiving]⟩
  | succ fuel ih =>
    rw [receiving, bind_eq, runOn_bind]
    generalize hx : (receiveData (Message.codec c)).runOn input = x
    obtain ⟨r, w, mid⟩ := x
    -- a frame read hands on its data and the loop goes on after it; a failure ends the loop
    cases r with
    | error e => exact ⟨[], by simp, List.nil_prefix, by simp⟩
    | ok m =>
      obtain ⟨hv, hlen, rfl, -⟩ := receiveData_sound _ hx
      cases m with
      | data d =>
        obtain ⟨events, hs, hpre, hgot⟩ := ih (delivered ++ [d]) mid
        refine ⟨some d :: events, List.forall_mem_cons.2 ⟨⟨hv, hlen⟩, hs⟩, ?_, ?_⟩
        · exact List.prefix_self_append_iff.2 hpre
        · simpa using hgot
      | heartbeat =>
        obtain ⟨events, hs, hpre, hgot⟩ := ih delivered mid
        refine ⟨none :: events, List.forall_mem_cons.2 ⟨⟨hv, hlen⟩, hs⟩, ?_, ?_⟩
        · exact List.prefix_self_append_iff.2 hpre
        · simpa using hgot

end Advance

/-! ## One direction of a connection -/

section Connection

variable (c : Codec D)

/-- `manage_connection` returns as soon as one of its loops does, and the stream goes with it,
whatever the result. -/
def dropsOnReturn {α : Type} (_ : α) : Bool := true

/-- One direction of a connection: one node's `sending` writing to the other's `receiving`. -/
def connection (events : List (Option D)) (fuel : Nat) :
    Duplex (Except (ProtocolError PK) Unit) (List D × Option (ProtocolError PK)) :=
  ⟨sending c events, receiving c fuel [], [], []⟩

/-- Once the sender has written the frames of `pre` and returned, the receiver reads them all and
then sees the stream closed. -/
theorem connection_runs {events pre : List (Option D)} {r : Except (ProtocolError PK) Unit}
    (hadv : (sending c events : Talk (Except (ProtocolError PK) Unit)).advance [] =
      (done r, (pre.map Message.ofEvent).flatMap (frame (Message.codec c)), []))
    (hpre : ∀ e ∈ pre, Sendable c e) {fuel : Nat} (hfuel : pre.length < fuel) :
    Relation.ReflTransGen (Step dropsOnReturn dropsOnReturn) (connection c events fuel)
      ⟨done r, done (pre.filterMap id, some (.receiveError (.error .connectionClosed))), [], []⟩ := by
  obtain ⟨k, rfl⟩ : ∃ k, fuel = k + 1 + pre.length := ⟨fuel - pre.length - 1, by omega⟩
  have h₁ : Relation.ReflTransGen (Step dropsOnReturn dropsOnReturn)
      (@connection PK D c events (k + 1 + pre.length)) _ :=
    Step.advanceLeft _ _ [] []
  rw [hadv, List.nil_append] at h₁
  have h₂ : Relation.ReflTransGen (Step dropsOnReturn dropsOnReturn) _ _ :=
    Step.advanceRight (done r) (@receiving PK D c (k + 1 + pre.length) []) []
      ((pre.map Message.ofEvent).flatMap (frame (Message.codec c)))
  rw [← List.append_nil ((pre.map Message.ofEvent).flatMap _), advance_receiving c hpre,
    List.nil_append, advance_receiving_nil, List.append_nil] at h₂
  -- the sender has returned and dropped its half, so the wait for the next length ends
  have h₃ : Step dropsOnReturn dropsOnReturn
      ⟨done r, @receiving PK D c (k + 1) (pre.filterMap id), [], []⟩
      ⟨done r, done (pre.filterMap id, some (.receiveError (.error .connectionClosed))), [], []⟩ :=
    Step.right (LeftStep.eof_of_waits (waits_receiving c k _) (by simp) rfl)
  exact h₁.trans (h₂.tail h₃)

/-- When every event can be sent and the receiver's loop outlasts them, in every interleaving
every run can still finish, and every run that cannot go on has the sender done and the
receiving user holding exactly the data sent, in order and without the heartbeats, with the
stream closed after it. -/
theorem connection_delivers_in_order {events : List (Option D)} (hs : ∀ e ∈ events, Sendable c e)
    {fuel : Nat} (hfuel : events.length < fuel)
    {s : Duplex (Except (ProtocolError PK) Unit) (List D × Option (ProtocolError PK))}
    (hrun : Relation.ReflTransGen (Step dropsOnReturn dropsOnReturn) (connection c events fuel) s) :
    Relation.ReflTransGen (Step dropsOnReturn dropsOnReturn) s
        ⟨done (.ok ()), done (events.filterMap id, some (.receiveError (.error .connectionClosed))),
          [], []⟩ ∧
      (Terminal dropsOnReturn dropsOnReturn s →
        s = ⟨done (.ok ()),
          done (events.filterMap id, some (.receiveError (.error .connectionClosed))), [], []⟩) :=
  settles (connection_runs c (advance_sending c hs []) hs hfuel) (terminal_done _ _ _ _) hrun

/-- A message too long for a frame stops the sender with `DataTooLong`, and in every
interleaving the receiving user still gets exactly the data sent before it, then sees the
stream closed. -/
theorem connection_stops_at_too_long {pre post : List (Option D)} {event : Option D}
    (hpre : ∀ e ∈ pre, Sendable c e)
    (hlong : MAX_DATA_SIZE < ((Message.codec c).encode (Message.ofEvent event)).length)
    {fuel : Nat} (hfuel : pre.length < fuel)
    {s : Duplex (Except (ProtocolError PK) Unit) (List D × Option (ProtocolError PK))}
    (hrun : Relation.ReflTransGen (Step dropsOnReturn dropsOnReturn)
      (connection c (pre ++ event :: post) fuel) s) :
    Relation.ReflTransGen (Step dropsOnReturn dropsOnReturn) s
        ⟨done (.error (.sendError ⟨.dataTooLong
            (min U32_MAX ((Message.codec c).encode (Message.ofEvent event)).length)⟩)),
          done (pre.filterMap id, some (.receiveError (.error .connectionClosed))), [], []⟩ ∧
      (Terminal dropsOnReturn dropsOnReturn s →
        s = ⟨done (.error (.sendError ⟨.dataTooLong
            (min U32_MAX ((Message.codec c).encode (Message.ofEvent event)).length)⟩)),
          done (pre.filterMap id, some (.receiveError (.error .connectionClosed))), [], []⟩) := by
  have hadv := @advance_sending_append PK D c pre hpre (event :: post) []
  simp only [advance_sending_of_lt c hlong, List.append_nil] at hadv
  exact settles (connection_runs c hadv hpre hfuel) (terminal_done _ _ _ _) hrun

end Connection

/-! ## A whole connection, one direction -/

section Session

variable {SK Sig : Type} (keys : Keys PK SK Sig) (pkCodec : Codec PK) (sigCodec : Codec Sig)
  (c : Codec D)

/-- `check_authorization`: the parent's answer for the key, asked over a channel; `none` when
the parent is gone. -/
def checkAuthorization (authorize : PK → Option Bool) (publicKey : PK) :
    Except (ProtocolError PK) Bool :=
  match authorize publicKey with
  | none => .error .noParentConnection
  | some authorized => .ok authorized

/-- `outgoing`, for the direction it writes: the handshake with the node it calls, the user
channel handed to the parent, which fails when the parent has dropped its end of
`result_for_parent` (`parent` is whether it still holds it), then the sending loop. -/
def outgoing [DecidableEq PK] (secretKey : SK) (publicKey : PK) (parent : Bool)
    (events : List (Option D)) : Talk (Except (ProtocolError PK) Unit) := do
  match ← executeV0HandshakeOutgoing keys pkCodec sigCodec secretKey publicKey with
  | .error e => pure (.error (.handshakeError e))
  | .ok () =>
    if !parent then pure (.error .noParentConnection)
    else sending c events

/-- `incoming`, for the direction it reads: the handshake, the parent's authorization of the
key the caller proved, the user channel handed to the parent, then the receiving loop. -/
def incoming (secretKey : SK) (nonce : List.Vector UInt8 32) (authorize : PK → Option Bool)
    (parent : Bool) (fuel : Nat) : Talk (List D × Option (ProtocolError PK)) := do
  match ← executeV0HandshakeIncoming keys pkCodec sigCodec secretKey nonce with
  | .error e => pure ([], some (.handshakeError e))
  | .ok publicKey =>
    match checkAuthorization authorize publicKey with
    | .error e => pure ([], some e)
    | .ok false => pure ([], some .notAuthorized)
    | .ok true =>
      if !parent then pure ([], some .noParentConnection)
      else receiving c fuel []

/-- A node called by another that then sends to it: `incoming` on the left, `outgoing` on the
right, each with its own parent. -/
def session [DecidableEq PK] (secretKey : SK) (nonce : List.Vector UInt8 32)
    (authorize : PK → Option Bool) (calledParent : Bool) (fuel : Nat) (callerKey : SK)
    (publicKey : PK) (callerParent : Bool) (events : List (Option D)) :
    Duplex (List D × Option (ProtocolError PK)) (Except (ProtocolError PK) Unit) :=
  ⟨incoming keys pkCodec sigCodec c secretKey nonce authorize calledParent fuel,
    outgoing keys pkCodec sigCodec c callerKey publicKey callerParent events, [], []⟩

variable {keys pkCodec sigCodec}

/-- Whatever the caller sends, the called side hands its user data only after the caller proved
a key the parent authorizes, by a signature of the called side's own challenge that verifies
under that key; and the data is that of whole frames following the response, in order. -/
theorem incoming_sound (secretKey : SK) (nonce : List.Vector UInt8 32)
    (authorize : PK → Option Bool) (parent : Bool) (fuel : Nat) (input : List UInt8) :
    ((incoming keys pkCodec sigCodec c secretKey nonce authorize parent fuel).runOn input).1.1 =
        [] ∨
      ∃ (peer : PK) (signature : Sig) (events : List (Option D)),
        keys.verify peer ((Challenge.codec pkCodec).encode ⟨keys.publicKey secretKey, nonce⟩)
          signature = true ∧
        authorize peer = some true ∧ (∀ e ∈ events, Sendable c e) ∧
        frame (Response.codec pkCodec sigCodec) ⟨peer, signature⟩ ++
          (events.map Message.ofEvent).flatMap (frame (Message.codec c)) <+: input ∧
        ((incoming keys pkCodec sigCodec c secretKey nonce authorize parent fuel).runOn
          input).1.1 = events.filterMap id := by
  unfold incoming
  rw [bind_eq, runOn_bind]
  generalize hx : (executeV0HandshakeIncoming keys pkCodec sigCodec secretKey nonce).runOn input = x
  obtain ⟨r, w, mid⟩ := x
  -- nothing reaches the user before the handshake names the peer and the parent lets it in
  cases r with
  | error e => exact .inl rfl
  | ok peer =>
    obtain ⟨response, hpeer, hverify, rfl, -⟩ := runOn_executeV0HandshakeIncoming_ok hx
    subst hpeer
    cases hauth : authorize response.publicKey with
    | none => exact .inl (by simp [checkAuthorization, hauth])
    | some authorized =>
      cases authorized with
      | false => exact .inl (by simp [checkAuthorization, hauth])
      | true =>
        cases parent with
        | false => exact .inl (by simp [checkAuthorization, hauth])
        | true =>
          obtain ⟨events, hs, hpre, hgot⟩ := receiving_sound c fuel [] mid
          refine .inr ⟨response.publicKey, response.signature, events, hverify, hauth, hs,
            List.prefix_self_append_iff.2 hpre, ?_⟩
          simpa [checkAuthorization, hauth] using hgot

variable (hh : Honest keys pkCodec sigCodec)

include hh

/-- The called side writes its challenge and waits; the honest response of a caller the parent
authorizes, with the parent still there, takes it on to the receiving loop, on what follows the
response. -/
theorem advance_incoming_of_authorized (secretKey : SK) (nonce : List.Vector UInt8 32)
    {authorize : PK → Option Bool} (callerKey : SK)
    (hauth : authorize (keys.publicKey callerKey) = some true) (fuel : Nat) :
    ∃ p, (incoming keys pkCodec sigCodec c secretKey nonce authorize true fuel).advance [] =
        (p, frame (Challenge.codec pkCodec) ⟨keys.publicKey secretKey, nonce⟩, []) ∧
      ∀ rest, p.advance (frame (Response.codec pkCodec sigCodec)
          (Response.new keys pkCodec callerKey ⟨keys.publicKey secretKey, nonce⟩) ++ rest) =
        (receiving c fuel []).advance rest := by
  obtain ⟨k, hadv, -, hk⟩ := advance_executeV0HandshakeIncoming hh secretKey nonce
  unfold incoming
  rw [bind_eq, advance_bind, hadv]
  dsimp only
  rw [bind_assoc, advance_receiveData_bind_of_lt _ _ (by decide), List.append_nil]
  refine ⟨_, rfl, fun rest => ?_⟩
  have hverify : Response.verify keys pkCodec
      (Response.new keys pkCodec callerKey ⟨keys.publicKey secretKey, nonce⟩)
      ⟨keys.publicKey secretKey, nonce⟩ = true := hh.verifies _ _
  rw [advance_receiveData_frame _ (hh.response_valid _) (hh.response_short _), hk,
    if_pos hverify]
  simp only [done_bind, Response.new, checkAuthorization, hauth, Bool.not_true, Bool.false_eq_true,
    if_false]

/-- The caller reads the challenge of the node it meant to call, answers it, and sends the
frames of its events. -/
theorem advance_outgoing_of_eq [DecidableEq PK] (callerKey : SK) (challenge : Challenge PK)
    {events : List (Option D)} (hs : ∀ e ∈ events, Sendable c e) (rest : List UInt8) :
    (outgoing keys pkCodec sigCodec c callerKey challenge.publicKey true events).advance
        (frame (Challenge.codec pkCodec) challenge ++ rest) =
      (done (.ok ()),
        frame (Response.codec pkCodec sigCodec) (Response.new keys pkCodec callerKey challenge) ++
          (events.map Message.ofEvent).flatMap (frame (Message.codec c)),
        rest) := by
  unfold outgoing
  rw [bind_eq, advance_bind, advance_executeV0HandshakeOutgoing_of_eq hh callerKey challenge rest]
  simp only [done_bind, Bool.not_true, Bool.false_eq_true, if_false]
  rw [advance_sending c hs rest]

/-- One run of a connection between honest nodes: the handshake, then every frame of the
caller read by the called side, which then sees the stream closed. -/
theorem session_runs [DecidableEq PK] (secretKey : SK) (nonce : List.Vector UInt8 32)
    {authorize : PK → Option Bool} (callerKey : SK)
    (hauth : authorize (keys.publicKey callerKey) = some true) {events : List (Option D)}
    (hs : ∀ e ∈ events, Sendable c e) {fuel : Nat} (hfuel : events.length < fuel) :
    Relation.ReflTransGen (Step dropsOnReturn dropsOnReturn)
      (session keys pkCodec sigCodec c secretKey nonce authorize true fuel callerKey
        (keys.publicKey secretKey) true events)
      ⟨done (events.filterMap id, some (.receiveError (.error .connectionClosed))), done (.ok ()),
        [], []⟩ := by
  obtain ⟨k, rfl⟩ : ∃ k, fuel = k + 1 + events.length := ⟨fuel - events.length - 1, by omega⟩
  obtain ⟨p, hp, hnext⟩ :=
    advance_incoming_of_authorized c hh secretKey nonce callerKey hauth (k + 1 + events.length)
  have h₁ : Relation.ReflTransGen (Step dropsOnReturn dropsOnReturn)
      (session keys pkCodec sigCodec c secretKey nonce authorize true (k + 1 + events.length)
        callerKey (keys.publicKey secretKey) true events) _ :=
    Step.advanceLeft _ _ [] []
  rw [hp, List.nil_append] at h₁
  have h₂ : Relation.ReflTransGen (Step dropsOnReturn dropsOnReturn) _ _ :=
    Step.advanceRight p
      (outgoing keys pkCodec sigCodec c callerKey (keys.publicKey secretKey) true events) []
      (frame (Challenge.codec pkCodec) ⟨keys.publicKey secretKey, nonce⟩)
  rw [← List.append_nil (frame (Challenge.codec pkCodec) _),
    advance_outgoing_of_eq c hh callerKey ⟨keys.publicKey secretKey, nonce⟩ hs,
    List.nil_append, List.append_nil] at h₂
  have h₃ : Relation.ReflTransGen (Step dropsOnReturn dropsOnReturn) _ _ :=
    Step.advanceLeft p (done (.ok ()) : Talk (Except (ProtocolError PK) Unit))
      (frame (Response.codec pkCodec sigCodec)
          (Response.new keys pkCodec callerKey ⟨keys.publicKey secretKey, nonce⟩) ++
        (events.map Message.ofEvent).flatMap (frame (Message.codec c))) []
  rw [hnext, ← List.append_nil ((events.map Message.ofEvent).flatMap _), advance_receiving c hs,
    List.nil_append, advance_receiving_nil, List.append_nil] at h₃
  -- the caller has sent everything and returned, so the wait for the next length ends
  have h₄ : Step dropsOnReturn dropsOnReturn
      ⟨@receiving PK D c (k + 1) (events.filterMap id),
        (done (.ok ()) : Talk (Except (ProtocolError PK) Unit)), [], []⟩
      ⟨done (events.filterMap id, some (.receiveError (.error .connectionClosed))), done (.ok ()),
        [], []⟩ :=
    Step.left (LeftStep.eof_of_waits (waits_receiving c k _) (by simp) rfl)
  exact h₁.trans (h₂.trans (h₃.tail h₄))

/-- Two honest nodes, the caller calling the node it means to and the parent of the called one
authorizing it, both parents still holding their ends of `result_for_parent`: in every
interleaving every run can still finish, and every run that cannot go on has the handshake done,
the caller finished, and the called node's user holding exactly the data sent, in order and
without the heartbeats. -/
theorem session_delivers_in_order [DecidableEq PK] (secretKey : SK) (nonce : List.Vector UInt8 32)
    {authorize : PK → Option Bool} {calledParent callerParent : Bool} (callerKey : SK)
    (hauth : authorize (keys.publicKey callerKey) = some true) (hcalled : calledParent = true)
    (hcaller : callerParent = true) {events : List (Option D)}
    (hs : ∀ e ∈ events, Sendable c e) {fuel : Nat} (hfuel : events.length < fuel)
    {s : Duplex (List D × Option (ProtocolError PK)) (Except (ProtocolError PK) Unit)}
    (hrun : Relation.ReflTransGen (Step dropsOnReturn dropsOnReturn)
      (session keys pkCodec sigCodec c secretKey nonce authorize calledParent fuel callerKey
        (keys.publicKey secretKey) callerParent events) s) :
    Relation.ReflTransGen (Step dropsOnReturn dropsOnReturn) s
        ⟨done (events.filterMap id, some (.receiveError (.error .connectionClosed))),
          done (.ok ()), [], []⟩ ∧
      (Terminal dropsOnReturn dropsOnReturn s →
        s = ⟨done (events.filterMap id, some (.receiveError (.error .connectionClosed))),
          done (.ok ()), [], []⟩) := by
  subst hcalled hcaller
  exact settles (session_runs c hh secretKey nonce callerKey hauth hs hfuel) (terminal_done _ _ _ _)
    hrun

end Session

/-! ## Bytes as data -/

section Samples

/-- Two frames of bytes around a heartbeat, as `Vec<u8>`. -/
theorem sendable_sample :
    ∀ e ∈ [some [1, 2], none, some [3]], Sendable (Codec.vec (Codec.le 1)) e := by
  intro e he
  simp only [List.mem_cons, List.not_mem_nil, or_false] at he
  rcases he with rfl | rfl | rfl <;>
    simp [Sendable, Message.codec, Message.ofEvent, Message.toSum, Codec.map, Codec.sum,
      Codec.vec, Codec.le, Codec.unit, MAX_DATA_SIZE, compactEncode]

theorem connection_delivers_in_order_sample :
    (∀ e ∈ [some [1, 2], none, some [3]], Sendable (Codec.vec (Codec.le 1)) e) ∧
      [some [1, 2], none, some [3]].length < 4 ∧
      Relation.ReflTransGen (Step dropsOnReturn dropsOnReturn)
        (connection (Codec.vec (Codec.le 1)) [some [1, 2], none, some [3]] 4 :
          Duplex (Except (ProtocolError Unit) Unit) _)
        ⟨done (.ok ()), done ([[1, 2], [3]], some (.receiveError (.error .connectionClosed))),
          [], []⟩ :=
  ⟨sendable_sample, by decide,
    (connection_delivers_in_order _ sendable_sample (by decide) .refl).1⟩

theorem connection_stops_at_too_long_sample :
    (∀ e ∈ [some [1, 2], none], Sendable (Codec.vec (Codec.le 1)) e) ∧
      MAX_DATA_SIZE < ((Message.codec (Codec.vec (Codec.le 1))).encode
        (Message.ofEvent (some (List.replicate MAX_DATA_SIZE 0)))).length ∧
      [some [1, 2], none].length < 3 ∧
      Relation.ReflTransGen (Step dropsOnReturn dropsOnReturn)
        (connection (Codec.vec (Codec.le 1))
          ([some [1, 2], none] ++ some (List.replicate MAX_DATA_SIZE 0) :: [some [3]]) 3 :
          Duplex (Except (ProtocolError Unit) Unit) _)
        ⟨done (.error (.sendError ⟨.dataTooLong (min U32_MAX
            ((Message.codec (Codec.vec (Codec.le 1))).encode
              (Message.ofEvent (some (List.replicate MAX_DATA_SIZE 0)))).length)⟩)),
          done ([[1, 2]], some (.receiveError (.error .connectionClosed))), [], []⟩ := by
  have hs : ∀ e ∈ [some [1, 2], none], Sendable (Codec.vec (Codec.le 1)) e :=
    fun e he => sendable_sample e (List.mem_append_left [some [3]] he)
  have hlong : MAX_DATA_SIZE < ((Message.codec (Codec.vec (Codec.le 1))).encode
      (Message.ofEvent (some (List.replicate MAX_DATA_SIZE 0)))).length := by
    -- the length for any count, so that no list of sixteen million bytes is ever built
    have hlen : ∀ n, ((Message.codec (Codec.vec (Codec.le 1))).encode
        (Message.ofEvent (some (List.replicate n 0)))).length = compactLen n + n + 1 := by
      intro n
      simp [Message.codec, Message.ofEvent, Message.toSum, Codec.map, Codec.sum, Codec.vec,
        Codec.le, length_compactEncode, length_leBytes]
    rw [hlen]
    omega
  exact ⟨hs, hlong, by decide, (connection_stops_at_too_long _ hs hlong (by decide) .refl).1⟩

theorem session_delivers_in_order_sample :
    Honest sampleKeys (Codec.array 32) (Codec.array 64) ∧
      (∀ e ∈ [some [1, 2], none, some [3]], Sendable (Codec.vec (Codec.le 1)) e) ∧
      Relation.ReflTransGen (Step dropsOnReturn dropsOnReturn)
        (session sampleKeys (Codec.array 32) (Codec.array 64) (Codec.vec (Codec.le 1))
          (.replicate 32 1) (.replicate 32 7) (fun _ => some true) true 4 (.replicate 32 2)
          (.replicate 32 1) true [some [1, 2], none, some [3]])
        ⟨done ([[1, 2], [3]], some (.receiveError (.error .connectionClosed))), done (.ok ()),
          [], []⟩ :=
  ⟨sampleKeys_honest, sendable_sample,
    (session_delivers_in_order _ sampleKeys_honest (.replicate 32 1) (.replicate 32 7)
      (.replicate 32 2) rfl rfl rfl sendable_sample (by decide) .refl).1⟩

end Samples

end Selendra.Clique
