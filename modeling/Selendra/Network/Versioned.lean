import Selendra.Justification.Compatibility
import Mathlib

/-! # Versioned envelopes

The hand-written codecs that let nodes of different protocol versions share one stream:
`VersionedNetworkData` of `sync/data.rs`, `VersionedAuthentication` of
`network/session/compatibility.rs` and `VersionedEitherMessage` of `lib.rs`. The first two,
like the justifications of `Justification.Compatibility`, write the version (a `u16`) and the
payload's byte count before the payload. `encodeEnvelope` is their `encode_with_version`, with
the width of the count and the value it saturates to as parameters, and `decodeEnvelope` their
`Decode`: a known version goes to its own decoder, whatever the count says, and any other
version has the count's bytes read as its payload when the count is within a limit. The inner
codecs (`NetworkDataV3`, `NetworkData`, `Authentication`, the two sides of an either message)
are parameters.

The result is the round trip for every value an envelope is meant for: a known version's data
that its codec takes, or another version's payload within the limit. For those the count is
exact wherever it is read, so the decoder stops where the encoding ends and a message of a
newer version is skipped without losing the bytes after it. -/

namespace Selendra

open Scale

/-! ## The envelope -/

/-- `encode_with_version` with a byte count of `width` bytes: the version, the payload's length
(or `saturated` where the length does not fit the count) and the payload. -/
def encodeEnvelope (width saturated version : Nat) (payload : List UInt8) : List UInt8 :=
  let size := if payload.length < 256 ^ width then payload.length else saturated
  (Codec.le 2).encode version ++ (Codec.le width).encode size ++ payload

/-- What `Decode` does once it has read the version and the count: a known version's decoder,
or the payload of an unknown version, which is refused when its count is over `limit`. -/
def decodeAfterHeader {α : Type} (limit : Nat)
    (known : Nat → Option (List UInt8 → Option (α × List UInt8)))
    (other : Nat → List UInt8 → α) (version numBytes : Nat) (input : List UInt8) :
    Option (α × List UInt8) :=
  match known version with
  | some decodeKnown => decodeKnown input
  | none =>
    if limit < numBytes then none
    else do
      let (payload, rest) ← readBytes numBytes input
      pure (other version payload, rest)

/-- The `Decode` of an envelope with a count of `width` bytes. -/
def decodeEnvelope {α : Type} (width limit : Nat)
    (known : Nat → Option (List UInt8 → Option (α × List UInt8)))
    (other : Nat → List UInt8 → α) (input : List UInt8) : Option (α × List UInt8) := do
  let (version, input) ← (Codec.le 2).decode input
  let (numBytes, input) ← (Codec.le width).decode input
  decodeAfterHeader limit known other version numBytes input

section Envelope

variable {α : Type} {width saturated limit version : Nat}
  {known : Nat → Option (List UInt8 → Option (α × List UInt8))} {other : Nat → List UInt8 → α}

/-- The header of an envelope reads back as its version and its count. -/
theorem decodeEnvelope_header {size : Nat} (hversion : version < 2 ^ 16)
    (hsize : size < 256 ^ width) (payload rest : List UInt8) :
    decodeEnvelope width limit known other
        ((Codec.le 2).encode version ++ (Codec.le width).encode size ++ payload ++ rest) =
      decodeAfterHeader limit known other version size (payload ++ rest) := by
  have hversion' : (Codec.le 2).valid version := by
    show version < 256 ^ 2
    omega
  simp only [decodeEnvelope, List.append_assoc]
  rw [(Codec.le 2).decode_encode version _ hversion']
  simp only [Option.bind_eq_bind, Option.bind_some]
  rw [(Codec.le width).decode_encode size _ hsize]
  rfl

/-- A known version is decoded by its own decoder from the end of the header on, whether the
count was saturated or not. -/
theorem decodeEnvelope_known {decodeKnown : List UInt8 → Option (α × List UInt8)}
    (hversion : version < 2 ^ 16) (hsaturated : saturated < 256 ^ width)
    (hknown : known version = some decodeKnown) (payload rest : List UInt8) :
    decodeEnvelope width limit known other
        (encodeEnvelope width saturated version payload ++ rest) =
      decodeKnown (payload ++ rest) := by
  -- the count is the length or the saturated value, and both fit the count's width
  have hsize : (if payload.length < 256 ^ width then payload.length else saturated) <
      256 ^ width := by
    split <;> assumption
  rw [encodeEnvelope, decodeEnvelope_header hversion hsize, decodeAfterHeader, hknown]

/-- The payload of an unknown version within the limit is read back exactly: the count is
not saturated, so it is the payload's length. -/
theorem decodeEnvelope_other (hversion : version < 2 ^ 16) (hknown : known version = none)
    {payload : List UInt8} (hpayload : payload.length ≤ limit) (hlimit : limit < 256 ^ width)
    (rest : List UInt8) :
    decodeEnvelope width limit known other
        (encodeEnvelope width saturated version payload ++ rest) =
      some (other version payload, rest) := by
  have hfits : payload.length < 256 ^ width := by omega
  rw [encodeEnvelope]
  simp only [if_pos hfits]
  rw [decodeEnvelope_header hversion hfits, decodeAfterHeader, hknown,
    if_neg (Nat.not_lt.mpr hpayload), readBytes_append rfl]
  rfl

/-- What the decoder of an envelope accepts starts with a version and a count that their
codecs take. -/
theorem decodeEnvelope_sound {input rest : List UInt8} {x : α}
    (h : decodeEnvelope width limit known other input = some (x, rest)) :
    ∃ version numBytes body, (Codec.le 2).valid version ∧ (Codec.le width).valid numBytes ∧
      input = (Codec.le 2).encode version ++ (Codec.le width).encode numBytes ++ body ∧
      decodeAfterHeader limit known other version numBytes body = some (x, rest) := by
  simp only [decodeEnvelope, Option.bind_eq_bind] at h
  obtain ⟨⟨version, input₁⟩, hdecodeVersion, hafterVersion⟩ := Option.bind_eq_some_iff.mp h
  obtain ⟨⟨numBytes, body⟩, hdecodeCount, hafter⟩ := Option.bind_eq_some_iff.mp hafterVersion
  obtain ⟨hversion, rfl⟩ := (Codec.le 2).decode_sound hdecodeVersion
  obtain ⟨hnumBytes, rfl⟩ := (Codec.le width).decode_sound hdecodeCount
  exact ⟨version, numBytes, body, hversion, hnumBytes, (List.append_assoc _ _ _).symm, hafter⟩

/-- The payload of a version no decoder is known for is the bytes the count gives, and the
count is within the limit. -/
theorem decodeAfterHeader_sound_of_none {numBytes : Nat} {body rest : List UInt8} {x : α}
    (hknown : known version = none)
    (h : decodeAfterHeader limit known other version numBytes body = some (x, rest)) :
    ∃ payload, x = other version payload ∧ payload.length = numBytes ∧ numBytes ≤ limit ∧
      body = payload ++ rest := by
  rw [decodeAfterHeader, hknown] at h
  by_cases hover : limit < numBytes
  · rw [if_pos hover] at h
    cases h
  · rw [if_neg hover] at h
    obtain ⟨⟨payload, rest'⟩, hread, hpure⟩ := Option.bind_eq_some_iff.mp h
    obtain ⟨hlen, rfl⟩ := readBytes_sound hread
    simp only [pure, Option.some.injEq, Prod.mk.injEq] at hpure
    obtain ⟨rfl, rfl⟩ := hpure
    exact ⟨payload, rfl, hlen, by omega, rfl⟩

/-- An envelope whose payload fits its count is the version, the length and the payload. -/
theorem encodeEnvelope_of_fits {payload : List UInt8} (hfits : payload.length < 256 ^ width) :
    encodeEnvelope width saturated version payload =
      (Codec.le 2).encode version ++ (Codec.le width).encode payload.length ++ payload := by
  rw [encodeEnvelope, if_pos hfits]

/-- What the decoder accepts under a version no decoder is known for is the envelope of a
payload within the limit. The caller says why the decoded value rules the known versions out. -/
theorem decodeEnvelope_sound_of_none {input rest : List UInt8} {x : α}
    (h : decodeEnvelope width limit known other input = some (x, rest))
    (hunknown : ∀ v numBytes body,
      decodeAfterHeader limit known other v numBytes body = some (x, rest) → known v = none) :
    ∃ version payload, known version = none ∧ version < 2 ^ 16 ∧ x = other version payload ∧
      payload.length ≤ limit ∧
      input = (Codec.le 2).encode version ++ (Codec.le width).encode payload.length ++
        payload ++ rest := by
  obtain ⟨version, numBytes, body, hversion, -, rfl, hafter⟩ := decodeEnvelope_sound h
  have hknown := hunknown version numBytes body hafter
  obtain ⟨payload, rfl, rfl, hlimit, rfl⟩ := decodeAfterHeader_sound_of_none hknown hafter
  exact ⟨version, payload, hknown, hversion, rfl, hlimit, by simp only [List.append_assoc]⟩

end Envelope

/-! ## `VersionedNetworkData` -/

namespace Sync

/-- `MAX_SYNC_MESSAGE_SIZE`. -/
def maxSyncMessageSize : Nat := 15 * 1024 * 1024 + 1024

/-- `encode_with_version` of the sync messages: a `u32` count, `u32::MAX` when the payload is
longer. -/
def encodeWithVersion (version : UInt16) (payload : List UInt8) : List UInt8 :=
  encodeEnvelope 4 (2 ^ 32 - 1) version.toNat payload

/-- `VersionedNetworkData`, over the data of its two known versions. -/
inductive VersionedNetworkData (V3 V4 : Type)
  /-- Most likely from the future. -/
  | other (version : UInt16) (payload : List UInt8)
  | v3 (data : V3)
  | v4 (data : V4)

namespace VersionedNetworkData

variable {V3 V4 : Type} (c3 : Codec V3) (c4 : Codec V4)

def encode : VersionedNetworkData V3 V4 → List UInt8
  | .other version payload => encodeWithVersion version payload
  | .v3 data => encodeWithVersion 3 (c3.encode data)
  | .v4 data => encodeWithVersion 4 (c4.encode data)

def decode (input : List UInt8) : Option (VersionedNetworkData V3 V4 × List UInt8) :=
  decodeEnvelope 4 maxSyncMessageSize
    (fun version => match version with
      | 3 => some fun input => (c3.decode input).map (Prod.map v3 id)
      | 4 => some fun input => (c4.decode input).map (Prod.map v4 id)
      | _ => none)
    (fun version payload => other (UInt16.ofNat version) payload) input

/-- The values the envelope is meant for: the data of a known version that its codec takes, and
the payload of any other version within `MAX_SYNC_MESSAGE_SIZE`. -/
def Valid : VersionedNetworkData V3 V4 → Prop
  | .other version payload => version ≠ 3 ∧ version ≠ 4 ∧ payload.length ≤ maxSyncMessageSize
  | .v3 data => c3.valid data
  | .v4 data => c4.valid data

theorem decode_encode {x : VersionedNetworkData V3 V4} (hx : x.Valid c3 c4)
    (rest : List UInt8) : decode c3 c4 (x.encode c3 c4 ++ rest) = some (x, rest) := by
  cases x with
  | other version payload =>
    obtain ⟨h3, h4, hpayload⟩ := hx
    have h3' : version.toNat ≠ 3 := fun h => h3 (UInt16.toNat_inj.mp h)
    have h4' : version.toNat ≠ 4 := fun h => h4 (UInt16.toNat_inj.mp h)
    rw [encode, encodeWithVersion, decode,
      decodeEnvelope_other version.toNat_lt (by split <;> first | rfl | omega) hpayload (by decide)]
    simp
  | v3 data =>
    rw [encode, encodeWithVersion, decode, decodeEnvelope_known (by decide) (by decide) rfl]
    simp [c3.decode_encode data rest hx]
  | v4 data =>
    rw [encode, encodeWithVersion, decode, decodeEnvelope_known (by decide) (by decide) rfl]
    simp [c4.decode_encode data rest hx]

/-- What decodes as a message of another version is the encoding of a value the envelope is
meant for, followed by what was left: the count of an unknown version is exact, and checked
against the limit. -/
theorem decode_other_sound {input rest payload : List UInt8} {version : UInt16}
    (h : decode c3 c4 input = some (other version payload, rest)) :
    (other version payload : VersionedNetworkData V3 V4).Valid c3 c4 ∧
      input = (other version payload).encode c3 c4 ++ rest := by
  obtain ⟨v, payload', hknown, hv, hx, hlimit, rfl⟩ := decodeEnvelope_sound_of_none h (by
    -- the known versions decode to their own variants, never to another version's payload
    intro v numBytes body hafter
    have h3 : v ≠ 3 := by
      rintro rfl
      simp [decodeAfterHeader] at hafter
    have h4 : v ≠ 4 := by
      rintro rfl
      simp [decodeAfterHeader] at hafter
    split <;> first | rfl | omega)
  obtain ⟨rfl, rfl⟩ := other.inj hx
  have hversion : (UInt16.ofNat v).toNat = v := UInt16.toNat_ofNat_of_lt' hv
  have hfits : payload.length < 256 ^ 4 := by
    simp only [maxSyncMessageSize] at hlimit
    omega
  refine ⟨⟨fun h3 => ?_, fun h4 => ?_, hlimit⟩, ?_⟩
  · rw [← hversion, h3] at hknown
    cases hknown
  · rw [← hversion, h4] at hknown
    cases hknown
  · rw [encode, encodeWithVersion, hversion, encodeEnvelope_of_fits hfits]

end VersionedNetworkData

end Sync

/-! ## `VersionedAuthentication` -/

namespace Network

/-- `MAX_AUTHENTICATION_SIZE`. -/
def maxAuthenticationSize : Nat := 16 * 1024

/-- `encode_with_version` of the authentications: a `u16` count, `MAX_AUTHENTICATION_SIZE + 1`
when the payload is longer than a `u16` holds. -/
def encodeWithVersion (version : UInt16) (payload : List UInt8) : List UInt8 :=
  encodeEnvelope 2 (maxAuthenticationSize + 1) version.toNat payload

/-- `VersionedAuthentication`, over the authentication of its known version. -/
inductive VersionedAuthentication (Auth : Type)
  /-- Most likely from the future. -/
  | other (version : UInt16) (payload : List UInt8)
  | v2 (authentication : Auth)

namespace VersionedAuthentication

variable {Auth : Type} (ca : Codec Auth)

def encode : VersionedAuthentication Auth → List UInt8
  | .other version payload => encodeWithVersion version payload
  | .v2 authentication => encodeWithVersion 2 (ca.encode authentication)

def decode (input : List UInt8) : Option (VersionedAuthentication Auth × List UInt8) :=
  decodeEnvelope 2 maxAuthenticationSize
    (fun version => match version with
      | 2 => some fun input => (ca.decode input).map (Prod.map v2 id)
      | _ => none)
    (fun version payload => other (UInt16.ofNat version) payload) input

/-- The values the envelope is meant for: an authentication its codec takes, and the payload of
any other version within `MAX_AUTHENTICATION_SIZE`. -/
def Valid : VersionedAuthentication Auth → Prop
  | .other version payload => version ≠ 2 ∧ payload.length ≤ maxAuthenticationSize
  | .v2 authentication => ca.valid authentication

theorem decode_encode {x : VersionedAuthentication Auth} (hx : x.Valid ca)
    (rest : List UInt8) : decode ca (x.encode ca ++ rest) = some (x, rest) := by
  cases x with
  | other version payload =>
    obtain ⟨h2, hpayload⟩ := hx
    have h2' : version.toNat ≠ 2 := fun h => h2 (UInt16.toNat_inj.mp h)
    rw [encode, encodeWithVersion, decode,
      decodeEnvelope_other version.toNat_lt (by split <;> first | rfl | omega) hpayload (by decide)]
    simp
  | v2 authentication =>
    rw [encode, encodeWithVersion, decode, decodeEnvelope_known (by decide) (by decide) rfl]
    simp [ca.decode_encode authentication rest hx]

theorem decode_other_sound {input rest payload : List UInt8} {version : UInt16}
    (h : decode ca input = some (other version payload, rest)) :
    (other version payload : VersionedAuthentication Auth).Valid ca ∧
      input = (other version payload).encode ca ++ rest := by
  obtain ⟨v, payload', hknown, hv, hx, hlimit, rfl⟩ := decodeEnvelope_sound_of_none h (by
    intro v numBytes body hafter
    have h2 : v ≠ 2 := by
      rintro rfl
      simp [decodeAfterHeader] at hafter
    split <;> first | rfl | omega)
  obtain ⟨rfl, rfl⟩ := other.inj hx
  have hversion : (UInt16.ofNat v).toNat = v := UInt16.toNat_ofNat_of_lt' hv
  -- unlike the sync messages, the count is a `u16`, and the limit is what makes it fit
  have hfits : payload.length < 256 ^ 2 := by
    simp only [maxAuthenticationSize] at hlimit
    omega
  refine ⟨⟨fun h2 => ?_, hlimit⟩, ?_⟩
  · rw [← hversion, h2] at hknown
    cases hknown
  · rw [encode, encodeWithVersion, hversion, encodeEnvelope_of_fits hfits]

end VersionedAuthentication

end Network

/-! ## `VersionedEitherMessage` -/

/-- A type with its `Versioned::VERSION` and its codec. -/
structure VersionedCodec (α : Type) where
  version : UInt16
  codec : Codec α

inductive VersionedEitherMessage (L R : Type)
  | left (l : L)
  | right (r : R)

namespace VersionedEitherMessage

variable {L R : Type} (l : VersionedCodec L) (r : VersionedCodec R)

def encode : VersionedEitherMessage L R → List UInt8
  | .left a => (Codec.le 2).encode l.version.toNat ++ l.codec.encode a
  | .right b => (Codec.le 2).encode r.version.toNat ++ r.codec.encode b

/-- The `Decode` of an either message: the left side has priority when the versions agree. -/
def decode (input : List UInt8) : Option (VersionedEitherMessage L R × List UInt8) := do
  let (version, input) ← (Codec.le 2).decode input
  if version = l.version.toNat then (l.codec.decode input).map (Prod.map VersionedEitherMessage.left id)
  else if version = r.version.toNat then
    (r.codec.decode input).map (Prod.map VersionedEitherMessage.right id)
  else none

/-- The version written first reads back. -/
theorem decode_version_encode (version : UInt16) (bytes : List UInt8) :
    decode l r ((Codec.le 2).encode version.toNat ++ bytes) =
      if version.toNat = l.version.toNat then
        (l.codec.decode bytes).map (Prod.map VersionedEitherMessage.left id)
      else if version.toNat = r.version.toNat then
        (r.codec.decode bytes).map (Prod.map VersionedEitherMessage.right id)
      else none := by
  have hversion : (Codec.le 2).valid version.toNat := version.toNat_lt
  rw [decode, (Codec.le 2).decode_encode version.toNat bytes hversion]
  rfl

theorem decode_encode_left {a : L} (ha : l.codec.valid a) (rest : List UInt8) :
    decode l r ((left a).encode l r ++ rest) = some (left a, rest) := by
  rw [encode, List.append_assoc, decode_version_encode, if_pos rfl,
    l.codec.decode_encode a rest ha]
  rfl

/-- A right message reads back when the two versions differ: otherwise the left side takes it. -/
theorem decode_encode_right (hne : l.version ≠ r.version) {b : R} (hb : r.codec.valid b)
    (rest : List UInt8) : decode l r ((right b).encode l r ++ rest) = some (right b, rest) := by
  have hne' : r.version.toNat ≠ l.version.toNat := fun h => hne (UInt16.toNat_inj.mp h).symm
  rw [encode, List.append_assoc, decode_version_encode, if_neg hne', if_pos rfl,
    r.codec.decode_encode b rest hb]
  rfl

/-- What the decoder accepts is the encoding of the message it returns, followed by what it left
unread. -/
theorem decode_sound {input rest : List UInt8} {x : VersionedEitherMessage L R}
    (h : decode l r input = some (x, rest)) : input = x.encode l r ++ rest := by
  simp only [decode, Option.bind_eq_bind] at h
  obtain ⟨⟨version, bytes⟩, hdecodeVersion, hbody⟩ := Option.bind_eq_some_iff.mp h
  obtain ⟨-, rfl⟩ := (Codec.le 2).decode_sound hdecodeVersion
  split_ifs at hbody with hl hr
  · obtain ⟨⟨a, rest'⟩, ha, hpair⟩ := Option.map_eq_some_iff.mp hbody
    cases hpair
    obtain ⟨-, rfl⟩ := l.codec.decode_sound ha
    rw [encode, ← hl, List.append_assoc]
    rfl
  · obtain ⟨⟨b, rest'⟩, hb, hpair⟩ := Option.map_eq_some_iff.mp hbody
    cases hpair
    obtain ⟨-, rfl⟩ := r.codec.decode_sound hb
    rw [encode, ← hr, List.append_assoc]
    rfl

end VersionedEitherMessage

/-- Each versioned envelope reads back every value it is meant for, and leaves exactly what
followed it unread. -/
theorem versioned_envelopes_round_trip {V3 V4 Auth L R : Type} (c3 : Codec V3) (c4 : Codec V4)
    (ca : Codec Auth) (l : VersionedCodec L) (r : VersionedCodec R) (rest : List UInt8) :
    (∀ x : Sync.VersionedNetworkData V3 V4, x.Valid c3 c4 →
      Sync.VersionedNetworkData.decode c3 c4 (x.encode c3 c4 ++ rest) = some (x, rest)) ∧
    (∀ x : Network.VersionedAuthentication Auth, x.Valid ca →
      Network.VersionedAuthentication.decode ca (x.encode ca ++ rest) = some (x, rest)) ∧
    (l.version ≠ r.version →
      (∀ a, l.codec.valid a → VersionedEitherMessage.decode l r
        ((VersionedEitherMessage.left a).encode l r ++ rest) = some (.left a, rest)) ∧
      (∀ b, r.codec.valid b → VersionedEitherMessage.decode l r
        ((VersionedEitherMessage.right b).encode l r ++ rest) = some (.right b, rest))) :=
  ⟨fun _ hx => Sync.VersionedNetworkData.decode_encode c3 c4 hx rest,
    fun _ hx => Network.VersionedAuthentication.decode_encode ca hx rest,
    fun hne => ⟨fun _ ha => VersionedEitherMessage.decode_encode_left l r ha rest,
      fun _ hb => VersionedEitherMessage.decode_encode_right l r hne hb rest⟩⟩

theorem versioned_envelopes_round_trip_at_bytes :
    Sync.VersionedNetworkData.decode (Codec.le 1) (Codec.le 1)
        ((Sync.VersionedNetworkData.other 5 [7]).encode (Codec.le 1) (Codec.le 1) ++ [9]) =
      some (.other 5 [7], [9]) ∧
    Network.VersionedAuthentication.decode (Codec.le 1)
        ((Network.VersionedAuthentication.v2 7).encode (Codec.le 1) ++ [9]) =
      some (.v2 7, [9]) ∧
    VersionedEitherMessage.decode ⟨1, Codec.le 1⟩ ⟨2, Codec.le 1⟩
        ((VersionedEitherMessage.right 7 : VersionedEitherMessage Nat Nat).encode
          ⟨1, Codec.le 1⟩ ⟨2, Codec.le 1⟩ ++ [9]) =
      some (.right 7, [9]) :=
  have h := versioned_envelopes_round_trip (Codec.le 1) (Codec.le 1) (Codec.le 1)
    ⟨1, Codec.le 1⟩ ⟨2, Codec.le 1⟩ [9]
  ⟨h.1 _ (show (5 : UInt16) ≠ 3 ∧ (5 : UInt16) ≠ 4 ∧ [7].length ≤ Sync.maxSyncMessageSize by
      decide),
    h.2.1 _ (show 7 < 256 ^ 1 by decide),
    (h.2.2 (by decide)).2 7 (show 7 < 256 ^ 1 by decide)⟩

end Selendra
