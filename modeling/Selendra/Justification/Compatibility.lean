import Selendra.Justification.Basic
import Selendra.Codec.Decode

/-! # Backwards-compatible justification decoding

`justification/compatibility.rs`. A justification is stored versioned: a `u16` version, a
`u16` byte count and the SCALE encoding of an `AlephJustification`; the byte count saturates
at `u16::MAX` and is only read for versions the decoder does not know. Nodes before the
versioning stored the plain encoding of the set of signatures, in one of two layouts: the
signatures alone (`AlephJustificationV2`, slots of sixty-four bytes) or each with its
signer's index (`AlephJustificationV1`, slots of seventy-two). `backwards_compatible_decode`
tries the versioned reading first, and on an error or an unknown version falls back to the
V2 layout and then the V1 layout, each read with `decode_all`.

A legacy encoding starts with the compact length of the set, so its first `u16` is never a
known version when the set has fewer than `2^14` nodes, and the fallback always runs. There
the V2 layout is tried first and, although slot sizes differ, it can accept V1 bytes: the
byte counts of both readings agree exactly when eight times the V2 signatures are nine times
the V1 ones, so only sets whose count of signatures is a positive multiple of eight can be
misread, and some signature bytes do make them misread. -/

namespace Selendra

open Scale

/-- An ed25519 signature of `selendra_primitives`: sixty-four bytes. -/
structure AuthoritySignature where
  bytes : List.Vector UInt8 64
deriving DecidableEq

def AuthoritySignature.codec : Codec AuthoritySignature :=
  (Codec.array 64).map AuthoritySignature.mk AuthoritySignature.bytes (fun _ => rfl)
    (fun _ _ => rfl)

/-- `NodeIndex`, a `usize` written as a `u64`. -/
def nodeIndexCodec : Codec UInt64 :=
  (Codec.le 8).map UInt64.ofNat UInt64.toNat (fun _ => UInt64.ofNat_toNat)
    (fun _ ha => UInt64.toNat_ofNat_of_lt' ha)

/-- `SignatureV1` of `crypto.rs`: the signature with its signer's index. -/
structure SignatureV1 where
  id : UInt64
  sgn : AuthoritySignature
deriving DecidableEq

def SignatureV1.codec : Codec SignatureV1 :=
  (Codec.pair nodeIndexCodec AuthoritySignature.codec).map (fun p => ⟨p.1, p.2⟩)
    (fun s => (s.id, s.sgn)) (fun _ => rfl) (fun _ _ => rfl)

/-- The node map of the set: a sequence of options. -/
def SignatureSet.codec {S : Type} (c : Codec S) : Codec (SignatureSet S) :=
  (Codec.vec (Codec.option c)).map SignatureSet.mk SignatureSet.entries (fun _ => rfl)
    (fun _ _ => rfl)

def AlephJustification.toSum {S : Type} : AlephJustification S → SignatureSet S ⊕ S
  | .committeeMultisignature multisignature => .inl multisignature
  | .emergencySignature signature => .inr signature

def AlephJustification.ofSum {S : Type} : SignatureSet S ⊕ S → AlephJustification S
  | .inl multisignature => .committeeMultisignature multisignature
  | .inr signature => .emergencySignature signature

/-- The derived codec of the enum: `CommitteeMultisignature` is variant `0`,
`EmergencySignature` variant `1`. `crypto::Signature` wraps an authority signature and is
encoded as one. -/
def AlephJustification.codec : Codec (AlephJustification AuthoritySignature) :=
  (Codec.sum (SignatureSet.codec AuthoritySignature.codec) AuthoritySignature.codec).map
    AlephJustification.ofSum AlephJustification.toSum
    (fun j => by cases j <;> rfl) (fun s _ => by cases s <;> rfl)

namespace Justification

structure AlephJustificationV1 where
  signature : SignatureSet SignatureV1
deriving DecidableEq

structure AlephJustificationV2 where
  signature : SignatureSet AuthoritySignature
deriving DecidableEq

def AlephJustificationV1.codec : Codec AlephJustificationV1 :=
  (SignatureSet.codec SignatureV1.codec).map AlephJustificationV1.mk
    AlephJustificationV1.signature (fun _ => rfl) (fun _ _ => rfl)

def AlephJustificationV2.codec : Codec AlephJustificationV2 :=
  (SignatureSet.codec AuthoritySignature.codec).map AlephJustificationV2.mk
    AlephJustificationV2.signature (fun _ => rfl) (fun _ _ => rfl)

/-- `From<AlephJustificationV1>`: each signature moved into a set of the same size at its
index, the signer id dropped. -/
def AlephJustificationV1.toAlephJustification (justification : AlephJustificationV1) :
    AlephJustification AuthoritySignature :=
  let size := justification.signature.size
  let justDropId := justification.signature.iter.foldl
    (fun (sigSet : SignatureSet AuthoritySignature) p => sigSet.addSignature p.2.sgn p.1)
    (SignatureSet.withSize size)
  .committeeMultisignature justDropId

def AlephJustificationV2.toAlephJustification (justification : AlephJustificationV2) :
    AlephJustification AuthoritySignature :=
  .committeeMultisignature justification.signature

inductive VersionedAlephJustification
  | other (version : Nat) (payload : List UInt8)
  | v1 (justification : AlephJustificationV1)
  | v2 (justification : AlephJustificationV2)
  | v3 (justification : AlephJustification AuthoritySignature)

/-- `encode_with_version`: the version, the byte count (`u16::MAX` when the payload is
longer) and the payload. -/
def encodeWithVersion (version : Nat) (payload : List UInt8) : List UInt8 :=
  let size := if payload.length ≤ 65535 then payload.length else 65535
  (Codec.le 2).encode version ++ (Codec.le 2).encode size ++ payload

def VersionedAlephJustification.encode : VersionedAlephJustification → List UInt8
  | .other version payload => encodeWithVersion version payload
  | .v1 justification => encodeWithVersion 1 (AlephJustificationV1.codec.encode justification)
  | .v2 justification => encodeWithVersion 2 (AlephJustificationV2.codec.encode justification)
  | .v3 justification => encodeWithVersion 3 (AlephJustification.codec.encode justification)

/-- The `Decode` of `VersionedAlephJustification`: the byte count is only used to read the
payload of an unknown version. -/
def VersionedAlephJustification.decode (input : List UInt8) :
    Option (VersionedAlephJustification × List UInt8) := do
  let (version, input) ← (Codec.le 2).decode input
  let (numBytes, input) ← (Codec.le 2).decode input
  match version with
  | 1 =>
    let (justification, rest) ← AlephJustificationV1.codec.decode input
    pure (.v1 justification, rest)
  | 2 =>
    let (justification, rest) ← AlephJustificationV2.codec.decode input
    pure (.v2 justification, rest)
  | 3 =>
    let (justification, rest) ← AlephJustification.codec.decode input
    pure (.v3 justification, rest)
  | _ =>
    let (payload, rest) ← readBytes numBytes input
    pure (.other version payload, rest)

inductive Error
  | badFormat
  | unknownVersion (version : Nat)
deriving DecidableEq, Repr

def decodePreCompatibilityJustification (justificationRaw : List UInt8) :
    Except Error (AlephJustification AuthoritySignature) :=
  match decodeAll AlephJustificationV2.codec.decode justificationRaw with
  | some justification => .ok justification.toAlephJustification
  | none =>
    match decodeAll AlephJustificationV1.codec.decode justificationRaw with
    | some justification => .ok justification.toAlephJustification
    | none => .error .badFormat

def backwardsCompatibleDecode (justificationRaw : List UInt8) :
    Except Error (AlephJustification AuthoritySignature) :=
  match decodeAll VersionedAlephJustification.decode justificationRaw with
  | some (.v1 justification) => .ok justification.toAlephJustification
  | some (.v2 justification) => .ok justification.toAlephJustification
  | some (.v3 justification) => .ok justification
  | some (.other version _) =>
    (decodePreCompatibilityJustification justificationRaw).mapError fun _ => .unknownVersion version
  | none => decodePreCompatibilityJustification justificationRaw

def versionedEncode (justification : AlephJustification AuthoritySignature) : List UInt8 :=
  (VersionedAlephJustification.v3 justification).encode

/-! ## Which values the codecs are meant for

Everything but the length of a node map is valid: a signature set encodes and decodes back
while it has fewer than `2^32` nodes (with more, encoding the length panics). -/

theorem valid_signatureSet_codec {S : Type} {c : Codec S} (hc : ∀ a, c.valid a)
    (s : SignatureSet S) : (SignatureSet.codec c).valid s ↔ s.size < 2 ^ 32 := by
  simp [SignatureSet.codec, Codec.map, Codec.vec, Codec.option, SignatureSet.size, hc]

theorem valid_authoritySignature (signature : AuthoritySignature) :
    AuthoritySignature.codec.valid signature := trivial

theorem valid_signatureV1 (signature : SignatureV1) : SignatureV1.codec.valid signature := by
  refine ⟨?_, trivial⟩
  show signature.id.toNat < 256 ^ 8
  exact signature.id.toNat_lt

theorem valid_committee {s : SignatureSet AuthoritySignature} (hs : s.size < 2 ^ 32) :
    AlephJustification.codec.valid (.committeeMultisignature s) :=
  (valid_signatureSet_codec valid_authoritySignature s).mpr hs

theorem valid_emergency (signature : AuthoritySignature) :
    AlephJustification.codec.valid (.emergencySignature signature) := trivial

/-! ## Sizes of the two legacy layouts -/

theorem length_flatMap_encode_option {S : Type} {c : Codec S} {k : Nat}
    (hk : ∀ a, (c.encode a).length = k) :
    ∀ l : List (Option S),
      (l.flatMap (Codec.option c).encode).length = l.length + k * l.countP Option.isSome
  | [] => rfl
  | none :: l => by
    have ih := length_flatMap_encode_option hk l
    simp only [List.flatMap_cons, List.length_append, ih, List.length_cons,
      List.countP_cons_of_neg (show ¬(Option.isSome (none : Option S)) = true by simp)]
    simp [Codec.option]
    omega
  | some a :: l => by
    have ih := length_flatMap_encode_option hk l
    simp only [List.flatMap_cons, List.length_append, ih, List.length_cons,
      List.countP_cons_of_pos (show (Option.isSome (some a)) = true from rfl)]
    simp [Codec.option, hk]
    rw [Nat.mul_succ]
    omega

/-- A node map of `n` slots holding `b` signatures of `k` bytes each takes the compact length
of `n`, one tag byte a slot and `k` bytes a signature. -/
theorem length_encode_signatureSet {S : Type} {c : Codec S} {k : Nat}
    (hk : ∀ a, (c.encode a).length = k) (s : SignatureSet S) :
    ((SignatureSet.codec c).encode s).length = compactLen s.size + s.size + k * s.iter.length := by
  show (compactEncode s.entries.length ++ s.entries.flatMap (Codec.option c).encode).length = _
  rw [List.length_append, length_compactEncode, length_flatMap_encode_option hk,
    SignatureSet.length_iter, SignatureSet.size]
  omega

theorem length_encode_authoritySignature (signature : AuthoritySignature) :
    (AuthoritySignature.codec.encode signature).length = 64 :=
  signature.bytes.toList_length

theorem length_encode_signatureV1 (signature : SignatureV1) :
    (SignatureV1.codec.encode signature).length = 72 := by
  show (leBytes 8 signature.id.toNat ++ signature.sgn.bytes.toList).length = 72
  rw [List.length_append, length_leBytes, signature.sgn.bytes.toList_length]

/-- Two node maps with the same bytes have the same number of nodes, whatever their slots:
the compact length in front reads back as both. -/
theorem size_eq_of_encode_eq {S T : Type} {c : Codec S} {d : Codec T} {s : SignatureSet S}
    {t : SignatureSet T} (hs : s.size < 2 ^ 32) (ht : t.size < 2 ^ 32)
    (h : (SignatureSet.codec c).encode s = (SignatureSet.codec d).encode t) : s.size = t.size := by
  have hdecs := Codec.compact.decode_encode s.size (s.entries.flatMap (Codec.option c).encode) hs
  have hdect := Codec.compact.decode_encode t.size (t.entries.flatMap (Codec.option d).encode) ht
  have heq : Codec.compact.encode s.size ++ s.entries.flatMap (Codec.option c).encode =
      Codec.compact.encode t.size ++ t.entries.flatMap (Codec.option d).encode := h
  rw [heq, hdect] at hdecs
  simp only [Option.some.injEq, Prod.mk.injEq] at hdecs
  exact hdecs.1.symm

/-! ## The first word of a legacy encoding -/

/-- The first `u16` of the bytes of a node map of fewer than `2^14` nodes is above `3`: with
fewer than `64` nodes it is at least four times the count, above it is the two-byte compact
length itself, and with no node there is one byte only. -/
theorem three_lt_of_decode_compactEncode {n v : Nat} {tail rest : List UInt8}
    (hn : n < 2 ^ 14) (htail : n = 0 → tail = [])
    (h : (Codec.le 2).decode (compactEncode n ++ tail) = some (v, rest)) : 3 < v := by
  obtain ⟨hv, heq⟩ := (Codec.le 2).decode_sound h
  change compactEncode n ++ tail = leBytes 2 v ++ rest at heq
  by_cases h6 : n < 2 ^ 6
  · rw [compactEncode, if_pos h6] at heq
    by_cases h0 : n = 0
    · -- one byte, but a `u16` was read
      have hlen := congrArg List.length heq
      simp [htail h0, leBytes] at hlen
    · have hfirst := toNat_of_cons_eq_leBytes (k := 1) heq
      simp only [UInt8.toNat_ofNat', Nat.reducePow] at hfirst
      omega
  · rw [compactEncode, if_neg h6, if_pos hn] at heq
    have hbytes := List.append_inj_left heq (by simp)
    have hval := congrArg leValue hbytes
    rw [leValue_leBytes 2 (by omega), leValue_leBytes 2 (by simpa [Codec.le] using hv)] at hval
    omega

/-! ## The versioned reading -/

/-- A justification comes back from its versioned encoding, whatever the byte count says. -/
theorem decode_versionedEncode {justification : AlephJustification AuthoritySignature}
    (hj : AlephJustification.codec.valid justification) :
    VersionedAlephJustification.decode (versionedEncode justification) =
      some (.v3 justification, []) := by
  generalize hpayload_def : AlephJustification.codec.encode justification = payload
  have hsize : (Codec.le 2).decode ((Codec.le 2).encode
      (if payload.length ≤ 65535 then payload.length else 65535) ++ payload) =
      some (if payload.length ≤ 65535 then payload.length else 65535, payload) := by
    apply (Codec.le 2).decode_encode
    show _ < 256 ^ 2
    split <;> omega
  have hversion := (Codec.le 2).decode_encode 3
    ((Codec.le 2).encode (if payload.length ≤ 65535 then payload.length else 65535) ++ payload)
    (show 3 < 256 ^ 2 by decide)
  have hpayload : AlephJustification.codec.decode payload = some (justification, []) := by
    rw [← hpayload_def]
    simpa using AlephJustification.codec.decode_encode justification [] hj
  simp only [versionedEncode, VersionedAlephJustification.encode, encodeWithVersion,
    hpayload_def, List.append_assoc, VersionedAlephJustification.decode]
  rw [hversion]
  simp only [Option.bind_eq_bind, Option.bind_some]
  rw [hsize]
  simp only [Option.bind_some]
  rw [hpayload]
  rfl

theorem backwardsCompatibleDecode_versionedEncode
    {justification : AlephJustification AuthoritySignature}
    (hj : AlephJustification.codec.valid justification) :
    backwardsCompatibleDecode (versionedEncode justification) = .ok justification := by
  unfold backwardsCompatibleDecode decodeAll
  rw [decode_versionedEncode hj]

/-- Bytes whose first `u16` is no known version are read, if at all, as a justification of
another version. -/
theorem decode_other_of_version {raw : List UInt8}
    (hv : ∀ v rest, (Codec.le 2).decode raw = some (v, rest) → 3 < v)
    {x : VersionedAlephJustification} {rest : List UInt8}
    (h : VersionedAlephJustification.decode raw = some (x, rest)) :
    ∃ version payload, x = .other version payload := by
  cases hd : (Codec.le 2).decode raw with
  | none => simp [VersionedAlephJustification.decode, hd] at h
  | some p =>
    obtain ⟨version, input⟩ := p
    have h3 := hv version input hd
    simp only [VersionedAlephJustification.decode, hd, Option.bind_eq_bind,
      Option.bind_some] at h
    obtain ⟨⟨numBytes, input'⟩, -, h⟩ := Option.bind_eq_some_iff.mp h
    -- the known versions are below four
    split at h
    · omega
    · omega
    · omega
    · obtain ⟨⟨payload, rest'⟩, -, h⟩ := Option.bind_eq_some_iff.mp h
      simp only [pure, Option.some.injEq, Prod.mk.injEq] at h
      exact ⟨version, payload, h.1.symm⟩

/-- On such bytes the decoder always falls back to the legacy layouts, and whatever they
read is the result. -/
theorem backwardsCompatibleDecode_of_legacy {raw : List UInt8}
    (hv : ∀ v rest, (Codec.le 2).decode raw = some (v, rest) → 3 < v)
    {justification : AlephJustification AuthoritySignature}
    (hpre : decodePreCompatibilityJustification raw = .ok justification) :
    backwardsCompatibleDecode raw = .ok justification := by
  unfold backwardsCompatibleDecode
  cases hd : decodeAll VersionedAlephJustification.decode raw with
  | none => exact hpre
  | some x =>
    obtain ⟨version, payload, rfl⟩ := decode_other_of_version hv (decode_of_decodeAll hd)
    simp [hpre, Except.mapError]

/-! ## The legacy layouts -/

theorem three_lt_of_decode_signatureSet {S : Type} (c : Codec S) (s : SignatureSet S)
    (hs : s.size < 2 ^ 14) :
    ∀ v rest, (Codec.le 2).decode ((SignatureSet.codec c).encode s) = some (v, rest) → 3 < v := by
  intro v rest h
  apply three_lt_of_decode_compactEncode hs _ h
  intro h0
  have hnil : s.entries = [] := List.eq_nil_of_length_eq_zero h0
  simp [hnil]

/-- The conversion of a V1 justification keeps the node map, each signer id dropped. -/
theorem toAlephJustification_v1 (justification : AlephJustificationV1) :
    justification.toAlephJustification = .committeeMultisignature
      ⟨justification.signature.entries.map (Option.map SignatureV1.sgn)⟩ := by
  unfold AlephJustificationV1.toAlephJustification
  dsimp only
  rw [SignatureSet.foldl_addSignature_iter SignatureV1.sgn]

theorem decodePreCompatibilityJustification_v2 {justification : AlephJustificationV2}
    (hs : justification.signature.size < 2 ^ 32) :
    decodePreCompatibilityJustification (AlephJustificationV2.codec.encode justification) =
      .ok justification.toAlephJustification := by
  have hvalid : AlephJustificationV2.codec.valid justification :=
    (valid_signatureSet_codec valid_authoritySignature _).mpr hs
  rw [decodePreCompatibilityJustification, Codec.decodeAll_encode _ hvalid]

/-- The V2 layout reads V1 bytes only when eight times the signatures it finds are nine
times those written, so with none or a count that is no multiple of eight it reads only a set
without signatures, which is what the V1 reading gives too. -/
theorem decodePreCompatibilityJustification_v1 {justification : AlephJustificationV1}
    (hs : justification.signature.size < 2 ^ 32)
    (hcount : justification.signature.iter.length = 0 ∨
      justification.signature.iter.length % 8 ≠ 0) :
    decodePreCompatibilityJustification (AlephJustificationV1.codec.encode justification) =
      .ok justification.toAlephJustification := by
  have hvalid : AlephJustificationV1.codec.valid justification :=
    (valid_signatureSet_codec valid_signatureV1 _).mpr hs
  unfold decodePreCompatibilityJustification
  cases hV2 : decodeAll AlephJustificationV2.codec.decode
      (AlephJustificationV1.codec.encode justification) with
  | none => rw [Codec.decodeAll_encode _ hvalid]
  | some other =>
    -- the V2 layout read the bytes, so they are the encoding of what it read
    obtain ⟨hvalid2, hbytes⟩ := Codec.decodeAll_sound _ hV2
    have hbytes' : (SignatureSet.codec SignatureV1.codec).encode justification.signature =
        (SignatureSet.codec AuthoritySignature.codec).encode other.signature := hbytes
    have hs2 : other.signature.size < 2 ^ 32 :=
      (valid_signatureSet_codec valid_authoritySignature _).mp hvalid2
    have hsize := size_eq_of_encode_eq hs hs2 hbytes'
    have hlen := congrArg List.length hbytes'
    rw [length_encode_signatureSet length_encode_signatureV1,
      length_encode_signatureSet length_encode_authoritySignature, hsize] at hlen
    -- seventy-two bytes a V1 signature against sixty-four a V2 one
    have hnone : justification.signature.iter.length = 0 := by omega
    have hnone2 : other.signature.iter.length = 0 := by omega
    have hentries := SignatureSet.entries_eq_replicate_of_length_iter hnone
    have hentries2 := SignatureSet.entries_eq_replicate_of_length_iter hnone2
    dsimp only
    rw [toAlephJustification_v1, AlephJustificationV2.toAlephJustification, hentries]
    congr 2
    cases hother : other.signature with
    | mk entries =>
      rw [hother] at hentries2 hsize
      simp only [SignatureSet.size] at hentries2 hsize ⊢
      rw [hentries2, List.map_replicate, Option.map_none, hsize]

theorem backwardsCompatibleDecode_compatible :
    (∀ s : SignatureSet AuthoritySignature, s.size < 2 ^ 32 →
      backwardsCompatibleDecode (versionedEncode (.committeeMultisignature s)) =
        .ok (.committeeMultisignature s)) ∧
    (∀ signature : AuthoritySignature,
      backwardsCompatibleDecode (versionedEncode (.emergencySignature signature)) =
        .ok (.emergencySignature signature)) ∧
    (∀ justification : AlephJustificationV2, justification.signature.size < 2 ^ 14 →
      backwardsCompatibleDecode (AlephJustificationV2.codec.encode justification) =
        .ok justification.toAlephJustification) ∧
    (∀ justification : AlephJustificationV1, justification.signature.size < 2 ^ 14 →
      (justification.signature.iter.length = 0 ∨ justification.signature.iter.length % 8 ≠ 0) →
      backwardsCompatibleDecode (AlephJustificationV1.codec.encode justification) =
          .ok justification.toAlephJustification ∧
        justification.toAlephJustification = .committeeMultisignature
          ⟨justification.signature.entries.map (Option.map SignatureV1.sgn)⟩) := by
  refine ⟨fun s hs => backwardsCompatibleDecode_versionedEncode (valid_committee hs),
    fun signature => backwardsCompatibleDecode_versionedEncode (valid_emergency signature), ?_, ?_⟩
  · intro justification hs
    exact backwardsCompatibleDecode_of_legacy (three_lt_of_decode_signatureSet _ _ hs)
      (decodePreCompatibilityJustification_v2 (by omega))
  · intro justification hs hcount
    refine ⟨?_, toAlephJustification_v1 justification⟩
    exact backwardsCompatibleDecode_of_legacy (three_lt_of_decode_signatureSet _ _ hs)
      (decodePreCompatibilityJustification_v1 (by omega) hcount)

/-- The signature of signer `k`: zeros, and a `1` at byte `56 - 8 * k`, where the V2 layout
expects the tag of its slot `k + 1`. -/
def misreadSignature (k : Nat) : SignatureV1 :=
  ⟨UInt64.ofNat k, ⟨⟨(List.replicate 64 0).set (56 - 8 * k) 1, by simp⟩⟩⟩

/-- Eight signatures of nine nodes: their 585 bytes of slots are also nine V2 slots of
sixty-five. -/
def misreadV1 : AlephJustificationV1 :=
  ⟨⟨(List.range 8).map (fun k => some (misreadSignature k)) ++ [none]⟩⟩

theorem backwardsCompatibleDecode_misreads_v1 :
    misreadV1.signature.size < 2 ^ 14 ∧ misreadV1.signature.iter.length = 8 ∧
      (decodeAll AlephJustificationV2.codec.decode
        (AlephJustificationV1.codec.encode misreadV1)).isSome = true ∧
      backwardsCompatibleDecode (AlephJustificationV1.codec.encode misreadV1) ≠
        .ok misreadV1.toAlephJustification := by
  decide +kernel

end Justification

end Selendra
