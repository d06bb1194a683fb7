import Selendra.Clique.Io

/-! # The handshake of a new connection

`protocols/handshake.rs` of clique. The side that was called sends a challenge, its public key
and a fresh nonce, and expects the caller to sign it; the caller checks that the challenge
comes from the node it meant to call, and answers with its public key and the signature. The
keys are a parameter: a secret key knows its public key and signs, a public key verifies.

What the called side accepts is a signature of its own challenge that verifies under the key it
then reports (`executeV0HandshakeIncoming_sound`), and the caller answers only a challenge of
the node it called, with the signature of exactly that challenge
(`executeV0HandshakeOutgoing_sound`). Two honest sides on a connection, in every interleaving,
both succeed and the called side learns the caller's key (`handshake_completes`); a caller that
reached another node than it meant refuses it, and the called side sees the connection close
(`handshake_refuses_other_node`). The timeouts of `v0_handshake_incoming` and
`v0_handshake_outgoing` are left out. -/

namespace Selendra.Clique

open Scale Talk Duplex

/-- `SecretKey` and `PublicKey`: a secret key knows its public key and signs, a public key
verifies a signature of a message. -/
structure Keys (PK SK Sig : Type) where
  publicKey : SK → PK
  sign : SK → List UInt8 → Sig
  verify : PK → List UInt8 → Sig → Bool

/-- Handshake error. -/
inductive HandshakeError (PK : Type) where
  | sendError (e : SendError)
  | receiveError (e : ReceiveError)
  | signatureError
  /-- Challenge contains invalid peer id. -/
  | challengeError (expected got : PK)
  | timedOut
deriving DecidableEq

/-- Handshake challenge. Contains public key of the creator, and a random nonce. -/
structure Challenge (PK : Type) where
  publicKey : PK
  nonce : List.Vector UInt8 32
deriving DecidableEq

/-- Handshake response. Contains public key of the creator, and signature related to the
received challenge. -/
structure Response (PK Sig : Type) where
  publicKey : PK
  signature : Sig
deriving DecidableEq

variable {PK SK Sig : Type}

/-- The derived encoding of a challenge: its fields one after the other. -/
def Challenge.codec (pkCodec : Codec PK) : Codec (Challenge PK) :=
  (pkCodec.pair (Codec.array 32)).map (fun p => ⟨p.1, p.2⟩) (fun c => (c.publicKey, c.nonce))
    (fun _ => rfl) (fun _ _ => rfl)

def Response.codec (pkCodec : Codec PK) (sigCodec : Codec Sig) : Codec (Response PK Sig) :=
  (pkCodec.pair sigCodec).map (fun p => ⟨p.1, p.2⟩) (fun r => (r.publicKey, r.signature))
    (fun _ => rfl) (fun _ _ => rfl)

section Handshake

variable (keys : Keys PK SK Sig) (pkCodec : Codec PK) (sigCodec : Codec Sig)

/-- Create a new response by signing the challenge. -/
def Response.new (secretKey : SK) (challenge : Challenge PK) : Response PK Sig :=
  ⟨keys.publicKey secretKey, keys.sign secretKey ((Challenge.codec pkCodec).encode challenge)⟩

/-- Verify the Response sent by the peer. -/
def Response.verify (response : Response PK Sig) (challenge : Challenge PK) : Bool :=
  keys.verify response.publicKey ((Challenge.codec pkCodec).encode challenge) response.signature

/-- Performs the handshake with a peer that called us: on success the stream goes on, and the
peer's public key is returned. -/
def executeV0HandshakeIncoming (secretKey : SK) (nonce : List.Vector UInt8 32) :
    Talk (Except (HandshakeError PK) PK) := do
  let ourChallenge : Challenge PK := ⟨keys.publicKey secretKey, nonce⟩
  match ← sendData (Challenge.codec pkCodec) ourChallenge with
  | .error e => pure (.error (.sendError e))
  | .ok () =>
    match ← receiveData (Response.codec pkCodec sigCodec) with
    | .error e => pure (.error (.receiveError e))
    | .ok peerResponse =>
      if !Response.verify keys pkCodec peerResponse ourChallenge then
        pure (.error .signatureError)
      else pure (.ok peerResponse.publicKey)

/-- Performs the handshake with a peer that we called, whose public key is known to us. -/
def executeV0HandshakeOutgoing [DecidableEq PK] (secretKey : SK) (publicKey : PK) :
    Talk (Except (HandshakeError PK) Unit) := do
  match ← receiveData (Challenge.codec pkCodec) with
  | .error e => pure (.error (.receiveError e))
  | .ok peerChallenge =>
    if publicKey ≠ peerChallenge.publicKey then
      pure (.error (.challengeError publicKey peerChallenge.publicKey))
    else
      let ourResponse := Response.new keys pkCodec secretKey peerChallenge
      match ← sendData (Response.codec pkCodec sigCodec) ourResponse with
      | .error e => pure (.error (.sendError e))
      | .ok () => pure (.ok ())

/-- The node that was called, with its secret key and nonce, and the node that called it, with
its secret key and the public key of the node it meant to call, on the two ends of a new
connection. -/
def handshake [DecidableEq PK] (secretKey : SK) (nonce : List.Vector UInt8 32) (callerKey : SK)
    (publicKey : PK) : Duplex (Except (HandshakeError PK) PK) (Except (HandshakeError PK) Unit) :=
  ⟨executeV0HandshakeIncoming keys pkCodec sigCodec secretKey nonce,
    executeV0HandshakeOutgoing keys pkCodec sigCodec callerKey publicKey, [], []⟩

/-! ## What each side accepts -/

variable {keys pkCodec sigCodec}

/-- What a successful run of the called side read: a response that `Response::verify` accepts
for our own challenge, as a frame at the front of the input; before that it wrote the
challenge. -/
theorem runOn_executeV0HandshakeIncoming_ok {secretKey : SK} {nonce : List.Vector UInt8 32}
    {input rest written : List UInt8} {peer : PK}
    (h : (executeV0HandshakeIncoming keys pkCodec sigCodec secretKey nonce).runOn input =
      (.ok peer, written, rest)) :
    ∃ response : Response PK Sig, response.publicKey = peer ∧
      Response.verify keys pkCodec response ⟨keys.publicKey secretKey, nonce⟩ = true ∧
      input = frame (Response.codec pkCodec sigCodec) response ++ rest ∧
      written = frame (Challenge.codec pkCodec) ⟨keys.publicKey secretKey, nonce⟩ := by
  unfold executeV0HandshakeIncoming at h
  simp only [bind_eq] at h
  by_cases hlen : ((Challenge.codec pkCodec).encode ⟨keys.publicKey secretKey, nonce⟩).length ≤
    MAX_DATA_SIZE
  · rw [sendData_of_le _ _ hlen] at h
    simp only [write_bind, done_bind, runOn_write, runOn_bind, Prod.mk.injEq] at h
    obtain ⟨h₁, h₂, h₃⟩ := h
    generalize hr : (receiveData (Response.codec pkCodec sigCodec)).runOn input = r at h₁ h₂ h₃
    obtain ⟨result, w, rest'⟩ := r
    cases result with
    | error e => cases h₁
    | ok response =>
      obtain ⟨-, -, rfl, rfl⟩ := receiveData_sound _ hr
      by_cases hver : Response.verify keys pkCodec response ⟨keys.publicKey secretKey, nonce⟩
      · simp only [hver, Bool.not_true, Bool.false_eq_true, if_false, pure_eq, runOn_done,
          Except.ok.injEq, List.append_nil] at h₁ h₂ h₃
        subst h₁ h₃
        exact ⟨response, rfl, hver, rfl, h₂.symm⟩
      · simp only [hver, Bool.not_false, if_true, pure_eq, runOn_done] at h₁
        cases h₁
  · rw [sendData_of_lt _ _ (Nat.lt_of_not_le hlen)] at h
    cases h

/-- The called side reports a key only when the peer sent back a signature of our own
challenge, our key and nonce, that verifies under that key; before that it sent the
challenge. -/
theorem executeV0HandshakeIncoming_sound {secretKey : SK} {nonce : List.Vector UInt8 32}
    {input rest written : List UInt8} {peer : PK}
    (h : (executeV0HandshakeIncoming keys pkCodec sigCodec secretKey nonce).runOn input =
      (.ok peer, written, rest)) :
    ∃ signature, keys.verify peer
        ((Challenge.codec pkCodec).encode ⟨keys.publicKey secretKey, nonce⟩) signature = true ∧
      input = frame (Response.codec pkCodec sigCodec) ⟨peer, signature⟩ ++ rest ∧
      written = frame (Challenge.codec pkCodec) ⟨keys.publicKey secretKey, nonce⟩ := by
  obtain ⟨⟨peer', signature⟩, rfl, hverify, hinput, hwritten⟩ :=
    runOn_executeV0HandshakeIncoming_ok h
  exact ⟨signature, hverify, hinput, hwritten⟩

/-- The calling side answers only a challenge made by the node it meant to call, and what it
sends is the frame of its signature of exactly that challenge. -/
theorem executeV0HandshakeOutgoing_sound [DecidableEq PK] {secretKey : SK} {publicKey : PK}
    {input rest written : List UInt8}
    (h : (executeV0HandshakeOutgoing keys pkCodec sigCodec secretKey publicKey).runOn input =
      (.ok (), written, rest)) :
    ∃ challenge : Challenge PK, challenge.publicKey = publicKey ∧
      input = frame (Challenge.codec pkCodec) challenge ++ rest ∧
      written = frame (Response.codec pkCodec sigCodec)
        (Response.new keys pkCodec secretKey challenge) := by
  unfold executeV0HandshakeOutgoing at h
  simp only [bind_eq, runOn_bind, Prod.mk.injEq] at h
  obtain ⟨h₁, h₂, h₃⟩ := h
  generalize hr : (receiveData (Challenge.codec pkCodec)).runOn input = r at h₁ h₂ h₃
  obtain ⟨result, w, rest'⟩ := r
  cases result with
  | error e => cases h₁
  | ok challenge =>
    obtain ⟨-, -, rfl, rfl⟩ := receiveData_sound _ hr
    by_cases hk : publicKey = challenge.publicKey
    · simp only [hk, ne_eq, not_true_eq_false, if_false, List.nil_append] at h₁ h₂ h₃
      by_cases hlen : ((Response.codec pkCodec sigCodec).encode
          (Response.new keys pkCodec secretKey challenge)).length ≤ MAX_DATA_SIZE
      · simp only [sendData_of_le _ _ hlen, write_bind, done_bind, pure_eq, runOn_write,
          runOn_done, List.append_nil] at h₂ h₃
        subst h₃
        exact ⟨challenge, hk.symm, rfl, h₂.symm⟩
      · simp only [sendData_of_lt _ _ (Nat.lt_of_not_le hlen), done_bind, pure_eq,
          runOn_done] at h₁
        cases h₁
    · simp only [hk, ne_eq, not_false_eq_true, if_true, pure_eq, runOn_done] at h₁
      cases h₁

end Handshake

/-! ## Two sides on a connection -/

/-- What an honest handshake needs of the keys and their encodings: every key and signature
has one, a frame of a challenge or a response fits, and a signature verifies under its signer's
public key. -/
structure Honest (keys : Keys PK SK Sig) (pkCodec : Codec PK) (sigCodec : Codec Sig) : Prop where
  publicKeyValid : ∀ pk, pkCodec.valid pk
  signatureValid : ∀ sig, sigCodec.valid sig
  challengeShort : ∀ pk, (pkCodec.encode pk).length + 32 ≤ MAX_DATA_SIZE
  responseShort : ∀ pk sig, (pkCodec.encode pk).length + (sigCodec.encode sig).length ≤
    MAX_DATA_SIZE
  verifies : ∀ sk message, keys.verify (keys.publicKey sk) message (keys.sign sk message) = true

section Connection

variable {keys : Keys PK SK Sig} {pkCodec : Codec PK} {sigCodec : Codec Sig}
  (hh : Honest keys pkCodec sigCodec)

include hh

theorem Honest.challenge_valid (challenge : Challenge PK) :
    (Challenge.codec pkCodec).valid challenge :=
  ⟨hh.publicKeyValid _, trivial⟩

theorem Honest.challenge_short (challenge : Challenge PK) :
    ((Challenge.codec pkCodec).encode challenge).length ≤ MAX_DATA_SIZE := by
  have hlen : ((Challenge.codec pkCodec).encode challenge).length =
      (pkCodec.encode challenge.publicKey).length + 32 := by
    show (pkCodec.encode challenge.publicKey ++ challenge.nonce.toList).length = _
    rw [List.length_append, List.Vector.toList_length]
  rw [hlen]
  exact hh.challengeShort _

theorem Honest.response_valid (response : Response PK Sig) :
    (Response.codec pkCodec sigCodec).valid response :=
  ⟨hh.publicKeyValid _, hh.signatureValid _⟩

theorem Honest.response_short (response : Response PK Sig) :
    ((Response.codec pkCodec sigCodec).encode response).length ≤ MAX_DATA_SIZE := by
  have hlen : ((Response.codec pkCodec sigCodec).encode response).length =
      (pkCodec.encode response.publicKey).length + (sigCodec.encode response.signature).length := by
    show (pkCodec.encode response.publicKey ++ sigCodec.encode response.signature).length = _
    rw [List.length_append]
  rw [hlen]
  exact hh.responseShort _ _

variable (secretKey : SK) (nonce : List.Vector UInt8 32)

/-- The called side writes its challenge and waits for the response; what it then does with
the response is `k`. -/
theorem advance_executeV0HandshakeIncoming :
    ∃ k, (executeV0HandshakeIncoming keys pkCodec sigCodec secretKey nonce).advance [] =
        ((receiveData (Response.codec pkCodec sigCodec)).bind k,
          frame (Challenge.codec pkCodec) ⟨keys.publicKey secretKey, nonce⟩, []) ∧
      (∀ e, k (.error e) = done (.error (.receiveError e))) ∧
      ∀ response, k (.ok response) =
        if Response.verify keys pkCodec response ⟨keys.publicKey secretKey, nonce⟩ then
          done (.ok response.publicKey)
        else done (.error .signatureError) := by
  unfold executeV0HandshakeIncoming
  simp only [bind_eq]
  rw [advance_sendData_bind _ _ (hh.challenge_short _)]
  dsimp only
  rw [advance_receiveData_bind_of_lt _ _ (by decide), List.append_nil]
  refine ⟨_, rfl, fun e => rfl, fun response => ?_⟩
  dsimp only
  cases Response.verify keys pkCodec response ⟨keys.publicKey secretKey, nonce⟩ <;> rfl

variable [DecidableEq PK] (callerKey : SK) (challenge : Challenge PK) (rest : List UInt8)

/-- The caller reads a challenge of the node it meant to call and answers it. -/
theorem advance_executeV0HandshakeOutgoing_of_eq :
    (executeV0HandshakeOutgoing keys pkCodec sigCodec callerKey challenge.publicKey).advance
        (frame (Challenge.codec pkCodec) challenge ++ rest) =
      (done (.ok ()),
        frame (Response.codec pkCodec sigCodec) (Response.new keys pkCodec callerKey challenge),
        rest) := by
  unfold executeV0HandshakeOutgoing
  simp only [bind_eq]
  rw [advance_receiveData_frame _ (hh.challenge_valid _) (hh.challenge_short _)]
  dsimp only
  rw [if_neg (not_not.mpr rfl), advance_sendData_bind _ _ (hh.response_short _)]
  simp only [pure_eq, advance_done, List.append_nil]

/-- The caller reads a challenge of another node than it meant to call, and refuses it. -/
theorem advance_executeV0HandshakeOutgoing_of_ne {publicKey : PK}
    (hkey : publicKey ≠ challenge.publicKey) :
    (executeV0HandshakeOutgoing keys pkCodec sigCodec callerKey publicKey).advance
        (frame (Challenge.codec pkCodec) challenge ++ rest) =
      (done (.error (.challengeError publicKey challenge.publicKey)), [], rest) := by
  unfold executeV0HandshakeOutgoing
  simp only [bind_eq]
  rw [advance_receiveData_frame _ (hh.challenge_valid _) (hh.challenge_short _)]
  dsimp only
  rw [if_pos hkey]
  rfl

/-- One run of an honest handshake: the called side writes its challenge, the caller answers,
and the called side checks the answer. -/
theorem handshake_runs :
    Relation.ReflTransGen (Step dropsOnError dropsOnError)
      (handshake keys pkCodec sigCodec secretKey nonce callerKey (keys.publicKey secretKey))
      ⟨done (.ok (keys.publicKey callerKey)), done (.ok ()), [], []⟩ := by
  obtain ⟨k, hadv, -, hk⟩ := advance_executeV0HandshakeIncoming hh secretKey nonce
  have h₁ : Relation.ReflTransGen (Step dropsOnError dropsOnError)
      (handshake keys pkCodec sigCodec secretKey nonce callerKey (keys.publicKey secretKey)) _ :=
    Step.advanceLeft _ _ [] []
  rw [hadv, List.nil_append] at h₁
  have h₂ : Relation.ReflTransGen (Step dropsOnError dropsOnError) _ _ :=
    Step.advanceRight ((receiveData (Response.codec pkCodec sigCodec)).bind k)
      (executeV0HandshakeOutgoing keys pkCodec sigCodec callerKey (keys.publicKey secretKey)) []
      (frame (Challenge.codec pkCodec) ⟨keys.publicKey secretKey, nonce⟩)
  rw [← List.append_nil (frame (Challenge.codec pkCodec) _),
    advance_executeV0HandshakeOutgoing_of_eq hh callerKey ⟨keys.publicKey secretKey, nonce⟩,
    List.nil_append, List.append_nil] at h₂
  have h₃ : Relation.ReflTransGen (Step dropsOnError dropsOnError) _ _ :=
    Step.advanceLeft ((receiveData (Response.codec pkCodec sigCodec)).bind k)
      (done (.ok ()) : Talk (Except (HandshakeError PK) Unit))
      (frame (Response.codec pkCodec sigCodec)
        (Response.new keys pkCodec callerKey ⟨keys.publicKey secretKey, nonce⟩)) []
  have hverify : Response.verify keys pkCodec
      (Response.new keys pkCodec callerKey ⟨keys.publicKey secretKey, nonce⟩)
      ⟨keys.publicKey secretKey, nonce⟩ = true := hh.verifies _ _
  rw [← List.append_nil (frame (Response.codec pkCodec sigCodec) _),
    advance_receiveData_frame _ (hh.response_valid _) (hh.response_short _), hk, if_pos hverify,
    List.append_nil] at h₃
  exact h₁.trans (h₂.trans h₃)

/-- One run of a handshake that reached another node: the called side writes its challenge,
the caller refuses it and drops the connection, and the called side reads the end of it. -/
theorem handshake_runs_of_ne {publicKey : PK} (hkey : publicKey ≠ keys.publicKey secretKey) :
    Relation.ReflTransGen (Step dropsOnError dropsOnError)
      (handshake keys pkCodec sigCodec secretKey nonce callerKey publicKey)
      ⟨done (.error (.receiveError (.error .connectionClosed))),
        done (.error (.challengeError publicKey (keys.publicKey secretKey))), [], []⟩ := by
  obtain ⟨k, hadv, hk, -⟩ := advance_executeV0HandshakeIncoming hh secretKey nonce
  have h₁ : Relation.ReflTransGen (Step dropsOnError dropsOnError)
      (handshake keys pkCodec sigCodec secretKey nonce callerKey publicKey) _ :=
    Step.advanceLeft _ _ [] []
  rw [hadv, List.nil_append] at h₁
  have h₂ : Relation.ReflTransGen (Step dropsOnError dropsOnError) _ _ :=
    Step.advanceRight ((receiveData (Response.codec pkCodec sigCodec)).bind k)
      (executeV0HandshakeOutgoing keys pkCodec sigCodec callerKey publicKey) []
      (frame (Challenge.codec pkCodec) ⟨keys.publicKey secretKey, nonce⟩)
  rw [← List.append_nil (frame (Challenge.codec pkCodec) _),
    advance_executeV0HandshakeOutgoing_of_ne hh callerKey ⟨keys.publicKey secretKey, nonce⟩ _ hkey,
    List.append_nil] at h₂
  -- the caller has dropped the stream, so the called side's wait for a length ends
  have h₃ : Step dropsOnError dropsOnError
      ⟨(receiveData (Response.codec pkCodec sigCodec)).bind k,
        (done (.error (.challengeError publicKey (keys.publicKey secretKey))) :
          Talk (Except (HandshakeError PK) Unit)), [], []⟩
      ⟨((receiveData (Response.codec pkCodec sigCodec)).bind k).resume none,
        done (.error (.challengeError publicKey (keys.publicKey secretKey))), [], []⟩ :=
    Step.left (LeftStep.eof_of_waits (waits_receiveData_bind _ k) (by decide) rfl)
  rw [resume_receiveData_bind, hk] at h₃
  exact h₁.trans (h₂.tail h₃)

/-- Two honest sides, the caller expecting the key of the node it reached: in every
interleaving every run can still finish, and every run that cannot go on has both sides
succeeded, the called side with the caller's public key. -/
theorem handshake_completes {publicKey : PK} (hkey : publicKey = keys.publicKey secretKey)
    {s : Duplex (Except (HandshakeError PK) PK) (Except (HandshakeError PK) Unit)}
    (hs : Relation.ReflTransGen (Step dropsOnError dropsOnError)
      (handshake keys pkCodec sigCodec secretKey nonce callerKey publicKey) s) :
    Relation.ReflTransGen (Step dropsOnError dropsOnError) s
        ⟨done (.ok (keys.publicKey callerKey)), done (.ok ()), [], []⟩ ∧
      (Terminal dropsOnError dropsOnError s →
        s = ⟨done (.ok (keys.publicKey callerKey)), done (.ok ()), [], []⟩) := by
  subst hkey
  exact settles (handshake_runs hh secretKey nonce callerKey) (terminal_done _ _ _ _) hs

/-- A caller that reached another node than the one it meant to call refuses it, in every
interleaving, and the called side sees the connection close before any response. -/
theorem handshake_refuses_other_node {publicKey : PK} (hkey : publicKey ≠ keys.publicKey secretKey)
    {s : Duplex (Except (HandshakeError PK) PK) (Except (HandshakeError PK) Unit)}
    (hs : Relation.ReflTransGen (Step dropsOnError dropsOnError)
      (handshake keys pkCodec sigCodec secretKey nonce callerKey publicKey) s) :
    Relation.ReflTransGen (Step dropsOnError dropsOnError) s
        ⟨done (.error (.receiveError (.error .connectionClosed))),
          done (.error (.challengeError publicKey (keys.publicKey secretKey))), [], []⟩ ∧
      (Terminal dropsOnError dropsOnError s →
        s = ⟨done (.error (.receiveError (.error .connectionClosed))),
          done (.error (.challengeError publicKey (keys.publicKey secretKey))), [], []⟩) := by
  exact settles (handshake_runs_of_ne hh secretKey nonce callerKey hkey) (terminal_done _ _ _ _) hs

end Connection

/-! ## Keys of 32 bytes -/

/-- Keys of 32 bytes, a public key the secret key itself, and a signature the key twice. -/
def sampleKeys : Keys (List.Vector UInt8 32) (List.Vector UInt8 32) (List.Vector UInt8 64) where
  publicKey secretKey := secretKey
  sign secretKey _ := ⟨secretKey.toList ++ secretKey.toList, by simp⟩
  verify publicKey _ signature := signature.toList = publicKey.toList ++ publicKey.toList

theorem sampleKeys_honest : Honest sampleKeys (Codec.array 32) (Codec.array 64) where
  publicKeyValid _ := trivial
  signatureValid _ := trivial
  challengeShort pk := by simp [Codec.array, MAX_DATA_SIZE]
  responseShort pk sig := by simp [Codec.array, MAX_DATA_SIZE]
  verifies _ _ := by simp [sampleKeys]

/-- The challenge of the node with key `1` and nonce `7`. -/
def sampleChallenge : Challenge (List.Vector UInt8 32) := ⟨.replicate 32 1, .replicate 32 7⟩

theorem executeV0HandshakeIncoming_sound_sample :
    (executeV0HandshakeIncoming sampleKeys (Codec.array 32) (Codec.array 64) (.replicate 32 1)
        (.replicate 32 7)).runOn
      (frame (Response.codec (Codec.array 32) (Codec.array 64))
        (Response.new sampleKeys (Codec.array 32) (.replicate 32 2) sampleChallenge)) =
      (.ok (.replicate 32 2), frame (Challenge.codec (Codec.array 32)) sampleChallenge, []) ∧
    ∃ signature, sampleKeys.verify (.replicate 32 2)
      ((Challenge.codec (Codec.array 32)).encode sampleChallenge) signature = true := by
  have h : (executeV0HandshakeIncoming sampleKeys (Codec.array 32) (Codec.array 64)
      (.replicate 32 1) (.replicate 32 7)).runOn
      (frame (Response.codec (Codec.array 32) (Codec.array 64))
        (Response.new sampleKeys (Codec.array 32) (.replicate 32 2) sampleChallenge)) =
      (.ok (.replicate 32 2), frame (Challenge.codec (Codec.array 32)) sampleChallenge, []) := by
    decide
  obtain ⟨signature, hverify, -, -⟩ := executeV0HandshakeIncoming_sound h
  exact ⟨h, signature, hverify⟩

theorem executeV0HandshakeOutgoing_sound_sample :
    (executeV0HandshakeOutgoing sampleKeys (Codec.array 32) (Codec.array 64) (.replicate 32 2)
        (.replicate 32 1)).runOn (frame (Challenge.codec (Codec.array 32)) sampleChallenge) =
      (.ok (), frame (Response.codec (Codec.array 32) (Codec.array 64))
        (Response.new sampleKeys (Codec.array 32) (.replicate 32 2) sampleChallenge), []) ∧
    ∃ challenge : Challenge (List.Vector UInt8 32), challenge.publicKey = .replicate 32 1 := by
  have h : (executeV0HandshakeOutgoing sampleKeys (Codec.array 32) (Codec.array 64)
      (.replicate 32 2) (.replicate 32 1)).runOn
      (frame (Challenge.codec (Codec.array 32)) sampleChallenge) =
      (.ok (), frame (Response.codec (Codec.array 32) (Codec.array 64))
        (Response.new sampleKeys (Codec.array 32) (.replicate 32 2) sampleChallenge), []) := by
    decide
  obtain ⟨challenge, hkey, -, -⟩ := executeV0HandshakeOutgoing_sound h
  exact ⟨h, challenge, hkey⟩

theorem handshake_completes_sample :
    Honest sampleKeys (Codec.array 32) (Codec.array 64) ∧
      Relation.ReflTransGen (Step dropsOnError dropsOnError)
        (handshake sampleKeys (Codec.array 32) (Codec.array 64) (.replicate 32 1) (.replicate 32 7)
          (.replicate 32 2) (.replicate 32 1))
        ⟨done (.ok (.replicate 32 2)), done (.ok ()), [], []⟩ :=
  ⟨sampleKeys_honest, (handshake_completes sampleKeys_honest (.replicate 32 1) (.replicate 32 7)
    (.replicate 32 2) rfl .refl).1⟩

theorem handshake_refuses_other_node_sample :
    Honest sampleKeys (Codec.array 32) (Codec.array 64) ∧
      (List.Vector.replicate 32 3 : List.Vector UInt8 32) ≠ .replicate 32 1 ∧
      Relation.ReflTransGen (Step dropsOnError dropsOnError)
        (handshake sampleKeys (Codec.array 32) (Codec.array 64) (.replicate 32 1) (.replicate 32 7)
          (.replicate 32 2) (.replicate 32 3))
        ⟨done (.error (.receiveError (.error .connectionClosed))),
          done (.error (.challengeError (.replicate 32 3) (.replicate 32 1))), [], []⟩ :=
  ⟨sampleKeys_honest, by decide, (handshake_refuses_other_node sampleKeys_honest (.replicate 32 1)
    (.replicate 32 7) (.replicate 32 2) (by decide) .refl).1⟩

end Selendra.Clique
