import Selendra.Clique.Io

/-! # Negotiating the protocol version

`protocols/negotiation.rs` of clique: each side of a new connection writes the range of
protocol versions it supports as eight bytes, reads the other side's, and takes the highest
version of both ranges, if they meet and it knows that version. A range that is empty fails to
decode.

A range is read back from its encoding, and nothing else decodes (`decode_eq_ok_iff`). The
intersection is the same from both sides, so the two sides of a connection, in every
interleaving of their reads and writes, finish together and agree: on the same protocol, or
both on an error (`negotiation_agrees`). The timeout of `protocol` is left out. -/

namespace Selendra.Clique

open Scale Talk

abbrev Version := UInt32

/-- Defines the protocol for communication. -/
inductive Protocol where
  /-- The current version of the protocol, with pseudorandom connection direction and
  multiplexing. -/
  | V1
deriving DecidableEq, Repr

namespace Protocol

/-- Minimal supported protocol version. -/
def MIN_VERSION : Version := 1

/-- Maximal supported protocol version. -/
def MAX_VERSION : Version := 1

def tryFrom (version : Version) : Except Version Protocol :=
  if version = 1 then .ok .V1 else .error version

end Protocol

/-- A range of supported protocols, will fail to decode if the range is empty. -/
structure ProtocolsRange where
  low : Version
  high : Version
deriving DecidableEq, Repr

def supportedProtocolRange : ProtocolsRange := ⟨Protocol.MIN_VERSION, Protocol.MAX_VERSION⟩

/-- What went wrong when negotiating a protocol. -/
inductive ProtocolNegotiationError where
  | connectionClosed
  | invalidRange (range : ProtocolsRange)
  | protocolMismatch (ourRange theirRange : ProtocolsRange)
  | badChoice (version : Version)
  | timedOut
deriving DecidableEq, Repr

namespace ProtocolsRange

def valid (range : ProtocolsRange) : Bool := range.low ≤ range.high

def encode (range : ProtocolsRange) : List UInt8 :=
  leBytes 4 range.low.toNat ++ leBytes 4 range.high.toNat

def decode (encoded : List UInt8) : Except ProtocolNegotiationError ProtocolsRange :=
  let result : ProtocolsRange :=
    ⟨UInt32.ofNat (leValue (encoded.extract 0 4)), UInt32.ofNat (leValue (encoded.extract 4 8))⟩
  if result.valid then .ok result else .error (.invalidRange result)

end ProtocolsRange

def intersection (range1 range2 : ProtocolsRange) :
    Except ProtocolNegotiationError ProtocolsRange :=
  let intersection : ProtocolsRange := ⟨max range1.low range2.low, min range1.high range2.high⟩
  if intersection.valid then .ok intersection else .error (.protocolMismatch range1 range2)

def maximumOfIntersection (range1 range2 : ProtocolsRange) :
    Except ProtocolNegotiationError Protocol :=
  match intersection range1 range2 with
  | .error e => .error e
  | .ok intersection => (Protocol.tryFrom intersection.high).mapError .badChoice

/-- One side of a negotiation; on success it goes on with the stream and the protocol. -/
def negotiateProtocolVersion (ourProtocolRange : ProtocolsRange) :
    Talk (Except ProtocolNegotiationError Protocol) := do
  writeAll ourProtocolRange.encode
  match ← readExact 8 with
  | none => pure (.error .connectionClosed)
  | some buf =>
    match ProtocolsRange.decode buf with
    | .error e => pure (.error e)
    | .ok theirProtocolRange => pure (maximumOfIntersection ourProtocolRange theirProtocolRange)

/-! ## The eight bytes of a range -/

namespace ProtocolsRange

variable {range : ProtocolsRange} {bytes : List UInt8}

theorem length_encode (range : ProtocolsRange) : range.encode.length = 8 := by
  simp [encode]

theorem toNat_lt (v : Version) : v.toNat < 256 ^ 4 := by
  have := UInt32.toNat_lt v
  omega

/-- A range is read back from its encoding when it is not empty. -/
theorem decode_encode (range : ProtocolsRange) :
    decode range.encode = if range.valid then .ok range else .error (.invalidRange range) := by
  have hlow : (range.encode.extract 0 4) = leBytes 4 range.low.toNat := by
    simp [encode]
  have hhigh : (range.encode.extract 4 8) = leBytes 4 range.high.toNat := by
    simp [encode]
  simp only [decode, hlow, hhigh, leValue_leBytes 4 (toNat_lt _), UInt32.ofNat_toNat]

theorem decode_encode_of_valid (h : range.valid) : decode range.encode = .ok range := by
  rw [decode_encode, if_pos h]

/-- Eight bytes decode to a range exactly when they encode a range that is not empty. -/
theorem decode_eq_ok_iff (hlen : bytes.length = 8) :
    decode bytes = .ok range ↔ range.valid ∧ range.encode = bytes := by
  constructor
  · intro h
    -- the two halves the slices `[0..4]` and `[4..8]` read
    obtain ⟨low, high, hlow, hhigh, rfl⟩ : ∃ low high : List UInt8,
        low.length = 4 ∧ high.length = 4 ∧ bytes = low ++ high :=
      ⟨bytes.take 4, bytes.drop 4, by simp [hlen], by simp [hlen],
        (List.take_append_drop 4 bytes).symm⟩
    have hfirst : (low ++ high).extract 0 4 = low := by
      rw [List.extract_eq_take_drop, List.drop_zero, Nat.sub_zero, List.take_left' hlow]
    have hsecond : (low ++ high).extract 4 8 = high := by
      rw [List.extract_eq_take_drop, List.drop_left' hlow, List.take_of_length_le (by omega)]
    have hlowlt : leValue low < UInt32.size := by
      have := leValue_lt low
      rw [hlow] at this
      exact this
    have hhighlt : leValue high < UInt32.size := by
      have := leValue_lt high
      rw [hhigh] at this
      exact this
    unfold decode at h
    dsimp only at h
    rw [hfirst, hsecond] at h
    split at h
    · rename_i hv
      cases h
      refine ⟨hv, ?_⟩
      have hl : leBytes 4 (leValue low) = low := by rw [← hlow, leBytes_leValue]
      have hh : leBytes 4 (leValue high) = high := by rw [← hhigh, leBytes_leValue]
      rw [encode, UInt32.toNat_ofNat_of_lt' hlowlt, UInt32.toNat_ofNat_of_lt' hhighlt, hl, hh]
    · cases h
  · rintro ⟨hv, rfl⟩
    exact decode_encode_of_valid hv

theorem decode_eq_ok_iff_supported :
    supportedProtocolRange.encode.length = 8 ∧
      (decode supportedProtocolRange.encode = .ok supportedProtocolRange ↔
        supportedProtocolRange.valid ∧ supportedProtocolRange.encode = supportedProtocolRange.encode) :=
  ⟨length_encode _, decode_eq_ok_iff (length_encode _)⟩

end ProtocolsRange

/-! ## Both sides take the same protocol -/

section Intersection

variable {range1 range2 : ProtocolsRange}

theorem valid_iff (range : ProtocolsRange) :
    range.valid = true ↔ range.low.toNat ≤ range.high.toNat := by
  simp [ProtocolsRange.valid, UInt32.le_iff_toNat_le]

theorem intersection_comm_of_ok {intersection' : ProtocolsRange}
    (h : intersection range1 range2 = .ok intersection') :
    intersection range2 range1 = .ok intersection' := by
  unfold intersection at h ⊢
  dsimp only at h ⊢
  split at h
  · cases h
    have hmax : max range2.low range1.low = max range1.low range2.low :=
      UInt32.toNat_inj.mp (by rw [UInt32.toNat_max, UInt32.toNat_max, Nat.max_comm])
    have hmin : min range2.high range1.high = min range1.high range2.high :=
      UInt32.toNat_inj.mp (by rw [UInt32.toNat_min, UInt32.toNat_min, Nat.min_comm])
    simp only [hmax, hmin]
    rw [if_pos (by assumption)]
  · cases h

theorem maximumOfIntersection_comm : (maximumOfIntersection range2 range1).toOption =
    (maximumOfIntersection range1 range2).toOption := by
  cases h : intersection range1 range2 with
  | ok i =>
    simp only [maximumOfIntersection, intersection_comm_of_ok h, h]
  | error e =>
    cases h' : intersection range2 range1 with
    | ok i => rw [intersection_comm_of_ok h'] at h; cases h
    | error e' =>
      simp only [maximumOfIntersection, h, h']
      rfl

/-- A range that is empty meets no range. -/
theorem intersection_of_not_valid_left (h : range1.valid = false) :
    ∃ e, intersection range1 range2 = .error e := by
  have hlt : range1.high.toNat < range1.low.toNat := by
    have := (valid_iff range1).not.mp (by simp [h])
    omega
  refine ⟨.protocolMismatch range1 range2, ?_⟩
  unfold intersection
  rw [if_neg]
  rw [valid_iff, UInt32.toNat_max, UInt32.toNat_min]
  omega

theorem maximumOfIntersection_of_error {e : ProtocolNegotiationError}
    (h : intersection range1 range2 = .error e) : maximumOfIntersection range1 range2 = .error e := by
  simp only [maximumOfIntersection, h]

end Intersection

/-! ## Two sides on a connection -/

section Duplex

open Duplex

/-- What a side makes of the other side's eight bytes. -/
def negotiated (ourProtocolRange theirProtocolRange : ProtocolsRange) :
    Except ProtocolNegotiationError Protocol :=
  match ProtocolsRange.decode theirProtocolRange.encode with
  | .error e => .error e
  | .ok their => maximumOfIntersection ourProtocolRange their

variable (our their : ProtocolsRange) (rest : List UInt8)

theorem advance_negotiate_empty_written :
    ((negotiateProtocolVersion our).advance []).2.1 = our.encode := by
  simp [negotiateProtocolVersion, advance_read_of_lt]

theorem advance_negotiate_empty_left :
    ((negotiateProtocolVersion our).advance []).2.2 = [] := by
  simp [negotiateProtocolVersion, advance_read_of_lt]

theorem advance_negotiate_read :
    ((negotiateProtocolVersion our).advance []).1.advance (their.encode ++ rest) =
      (done (negotiated our their), [], rest) := by
  simp only [negotiateProtocolVersion, bind_eq, writeAll_bind, readExact_bind, advance_write,
    advance_read_of_lt (List.length_nil.trans_lt (by decide : 0 < 8))]
  rw [advance_read_append (ProtocolsRange.length_encode their)]
  simp only [negotiated]
  split <;> rfl

theorem advance_negotiate :
    (negotiateProtocolVersion our).advance (their.encode ++ rest) =
      (done (negotiated our their), our.encode, rest) := by
  simp only [negotiateProtocolVersion, bind_eq, writeAll_bind, readExact_bind, advance_write]
  rw [advance_read_append (ProtocolsRange.length_encode their)]
  simp only [negotiated]
  split <;> simp

/-- Both sides on the two ends of a new connection. -/
def negotiation (ourProtocolRange theirProtocolRange : ProtocolsRange) :
    Duplex (Except ProtocolNegotiationError Protocol) (Except ProtocolNegotiationError Protocol) :=
  ⟨negotiateProtocolVersion ourProtocolRange, negotiateProtocolVersion theirProtocolRange, [], []⟩

/-- Both sides finished, each with what it made of the other's range. -/
def finished (ourProtocolRange theirProtocolRange : ProtocolsRange) :
    Duplex (Except ProtocolNegotiationError Protocol) (Except ProtocolNegotiationError Protocol) :=
  ⟨done (negotiated ourProtocolRange theirProtocolRange),
    done (negotiated theirProtocolRange ourProtocolRange), [], []⟩

/-- One run: our side writes, their side writes and reads, our side reads. -/
theorem negotiation_finishes :
    Relation.ReflTransGen (Step dropsOnError dropsOnError) (negotiation our their)
      (finished our their) := by
  have h₁ : Relation.ReflTransGen (Step dropsOnError dropsOnError) (negotiation our their) _ :=
    Step.advanceLeft (negotiateProtocolVersion our) (negotiateProtocolVersion their) [] []
  rw [advance_negotiate_empty_written, advance_negotiate_empty_left, List.nil_append] at h₁
  have h₂ : Relation.ReflTransGen (Step dropsOnError dropsOnError) _ _ :=
    Step.advanceRight ((negotiateProtocolVersion our).advance []).1 (negotiateProtocolVersion their)
      [] our.encode
  rw [← List.append_nil our.encode, advance_negotiate, List.append_nil, List.nil_append] at h₂
  have h₃ : Relation.ReflTransGen (Step dropsOnError dropsOnError) _ _ :=
    Step.advanceLeft ((negotiateProtocolVersion our).advance []).1 (done (negotiated their our))
      their.encode []
  rw [← List.append_nil their.encode, advance_negotiate_read] at h₃
  exact h₁.trans (h₂.trans h₃)

theorem negotiated_of_not_valid_left (h : our.valid = false) :
    (negotiated our their).toOption = none := by
  unfold negotiated
  split
  · rfl
  · obtain ⟨e, he⟩ : ∃ e, intersection our _ = .error e := intersection_of_not_valid_left h
    rw [maximumOfIntersection_of_error he]
    rfl

theorem negotiated_of_not_valid_right (h : their.valid = false) :
    (negotiated our their).toOption = none := by
  rw [negotiated, ProtocolsRange.decode_encode, if_neg (by simp [h])]
  rfl

/-- The two sides agree: both take the same protocol, or both fail. -/
theorem negotiated_agree :
    (negotiated our their).toOption = (negotiated their our).toOption := by
  cases hour : our.valid with
  | false =>
    rw [negotiated_of_not_valid_left our their hour, negotiated_of_not_valid_right their our hour]
  | true =>
    cases htheir : their.valid with
    | false =>
      rw [negotiated_of_not_valid_right our their htheir,
        negotiated_of_not_valid_left their our htheir]
    | true =>
      simp only [negotiated, ProtocolsRange.decode_encode_of_valid hour,
        ProtocolsRange.decode_encode_of_valid htheir]
      exact maximumOfIntersection_comm.symm

/-- Whatever the interleaving of the two sides' reads and writes, every run can still finish,
every run that cannot go on has finished, and then the two sides agree: both on the same
protocol, or both on an error. -/
theorem negotiation_agrees {s : Duplex (Except ProtocolNegotiationError Protocol)
      (Except ProtocolNegotiationError Protocol)}
    (hs : Relation.ReflTransGen (Step dropsOnError dropsOnError) (negotiation our their) s) :
    Relation.ReflTransGen (Step dropsOnError dropsOnError) s (finished our their) ∧
      (Terminal dropsOnError dropsOnError s → s = finished our their) ∧
      (negotiated our their).toOption = (negotiated their our).toOption := by
  obtain ⟨hreach, hstop⟩ := settles (negotiation_finishes our their) (terminal_done _ _ _ _) hs
  exact ⟨hreach, hstop, negotiated_agree our their⟩

theorem negotiation_agrees_supported :
    Relation.ReflTransGen (Step dropsOnError dropsOnError)
      (negotiation supportedProtocolRange supportedProtocolRange)
      (negotiation supportedProtocolRange supportedProtocolRange) ∧
    Relation.ReflTransGen (Step dropsOnError dropsOnError)
      (negotiation supportedProtocolRange supportedProtocolRange)
      (finished supportedProtocolRange supportedProtocolRange) :=
  ⟨.refl, (negotiation_agrees supportedProtocolRange supportedProtocolRange .refl).1⟩

/-- Two nodes of this version settle on `V1`; a range above ours meets none of it. -/
example : negotiated supportedProtocolRange supportedProtocolRange = .ok .V1 ∧
    negotiated supportedProtocolRange ⟨2, 3⟩ =
      .error (.protocolMismatch supportedProtocolRange ⟨2, 3⟩) := by
  decide

end Duplex

end Selendra.Clique
