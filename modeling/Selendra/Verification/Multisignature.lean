import Selendra.Justification.Basic
import Selendra.Collections.Quorum
import Selendra.Verification.Cache

/-! # Committee multisignatures

`AuthorityVerifier` of `crypto.rs` holds the authority keys of a session. A signature set is
a complete multisignature of a message when it holds at least `2 * n / 3 + 1` signatures, `n`
the number of authorities, and each of them verifies under the key at its index. The count
is taken first, over every index of the set, also those at or above `n`; the check after it
fails at those, since no key is there. `SessionVerifier::verify_bytes` of
`block/substrate/verification/verifier.rs` accepts a committee justification exactly when it
is complete, and an emergency one when the session's emergency finalizer signed it. The
signature scheme is the parameter `verifySig`: it stands for `crypto::verify`, which is also
how `AuthorityId::verify` checks the emergency signature.

Two complete multisignatures, of any two messages, come from two quorums of one committee:
they share more than a third of it, every shared signature verifies, and so, with distinct
keys and at most `(n - 1) / 3` byzantine authorities, an honest authority signed both
messages. -/

namespace Selendra

structure AuthorityVerifier (A : Type) where
  authorities : List A
deriving DecidableEq, Repr

namespace AuthorityVerifier

variable {A M S : Type} (verifySig : A → M → S → Bool)

/-- `verify`: the signature checked under the key at the index; with no key there, false. -/
def verify (v : AuthorityVerifier A) (msg : M) (sgn : S) (index : Nat) : Bool :=
  match v.authorities[index]? with
  | some authority => verifySig authority msg sgn
  | none => false

def nodeCount (v : AuthorityVerifier A) : Nat := v.authorities.length

def threshold (v : AuthorityVerifier A) : Nat := 2 * v.nodeCount / 3 + 1

def isComplete (v : AuthorityVerifier A) (msg : M) (signatures : SignatureSet S) : Bool :=
  let signatureCount := signatures.iter.length
  if signatureCount < v.threshold then false
  else signatures.iter.all fun (i, sgn) => v.verify verifySig msg sgn i

/-- The indices of a set whose signatures verify for a message. -/
def signers (v : AuthorityVerifier A) (msg : M) (signatures : SignatureSet S) : Finset Nat :=
  ((signatures.iter.filter fun (i, sgn) => v.verify verifySig msg sgn i).map Prod.fst).toFinset

variable {verifySig} {v : AuthorityVerifier A} {msg : M} {signatures : SignatureSet S}

theorem verify_eq_true {sgn : S} {i : Nat} :
    v.verify verifySig msg sgn i = true ↔
      ∃ authority, v.authorities[i]? = some authority ∧ verifySig authority msg sgn = true := by
  unfold verify
  cases v.authorities[i]? with
  | none => simp
  | some authority => simp

theorem lt_nodeCount_of_verify {sgn : S} {i : Nat} (h : v.verify verifySig msg sgn i = true) :
    i < v.nodeCount := by
  obtain ⟨authority, hkey, -⟩ := verify_eq_true.mp h
  exact (List.getElem?_eq_some_iff.mp hkey).1

theorem isComplete_iff : v.isComplete verifySig msg signatures = true ↔
    v.threshold ≤ signatures.iter.length ∧
      ∀ p ∈ signatures.iter, v.verify verifySig msg p.2 p.1 = true := by
  unfold isComplete
  by_cases hcount : signatures.iter.length < v.threshold
  · simp [hcount]
  · simp [hcount, List.all_eq_true]
    omega

/-! ## What a complete multisignature carries -/

theorem verify_of_isComplete (hc : v.isComplete verifySig msg signatures = true) {i : Nat}
    {sgn : S} (hmem : (i, sgn) ∈ signatures.iter) : v.verify verifySig msg sgn i = true :=
  (isComplete_iff.mp hc).2 (i, sgn) hmem

/-- Every index of a complete multisignature is below the number of authorities. -/
theorem indices_subset_of_isComplete (hc : v.isComplete verifySig msg signatures = true) :
    signatures.indices ⊆ Finset.range v.nodeCount := by
  intro i hi
  obtain ⟨sgn, hmem⟩ := SignatureSet.mem_indices.mp hi
  exact Finset.mem_range.mpr (lt_nodeCount_of_verify (verify_of_isComplete hc hmem))

theorem threshold_le_card_of_isComplete (hc : v.isComplete verifySig msg signatures = true) :
    v.threshold ≤ signatures.indices.card := by
  rw [SignatureSet.card_indices]
  exact (isComplete_iff.mp hc).1

/-- In a complete multisignature every index that holds a signature is a signer. -/
theorem signers_eq_of_isComplete (hc : v.isComplete verifySig msg signatures = true) :
    v.signers verifySig msg signatures = signatures.indices := by
  ext i
  simp only [signers, SignatureSet.mem_indices, List.mem_toFinset, List.mem_map,
    List.mem_filter, Prod.exists, exists_and_right, exists_eq_right]
  constructor
  · rintro ⟨sgn, hmem, -⟩
    exact ⟨sgn, hmem⟩
  · rintro ⟨sgn, hmem⟩
    exact ⟨sgn, hmem, verify_of_isComplete hc hmem⟩

end AuthorityVerifier

namespace Verification

/-- A justification verifier within a single session. -/
structure SessionVerifier (A : Type) where
  authorityVerifier : AuthorityVerifier A
  emergencySigner : Option A
deriving DecidableEq, Repr

namespace SessionVerifier

variable {A M S : Type} (verifySig : A → M → S → Bool)

/-- `verify_bytes`: the justification checked for the supplied bytes. -/
def verifyBytes (sv : SessionVerifier A) (justification : AlephJustification S) (bytes : M) :
    Except SessionVerificationError Unit :=
  match justification with
  | .committeeMultisignature multisignature =>
    if sv.authorityVerifier.isComplete verifySig bytes multisignature then .ok ()
    else .error .badMultisignature
  | .emergencySignature signature =>
    match sv.emergencySigner with
    | none => .error .noEmergencySigner
    | some signer => if verifySig signer bytes signature then .ok () else .error .badEmergencySignature

variable {verifySig} {sv : SessionVerifier A} {bytes : M}

theorem verifyBytes_committee {multisignature : SignatureSet S} :
    sv.verifyBytes verifySig (.committeeMultisignature multisignature) bytes = .ok () ↔
      sv.authorityVerifier.isComplete verifySig bytes multisignature = true := by
  unfold verifyBytes
  by_cases hc : sv.authorityVerifier.isComplete verifySig bytes multisignature = true
  · simp [hc]
  · simp [hc]

open AuthorityVerifier in
theorem committee_justifications_share_honest_signer (sv : SessionVerifier A)
    (hkeys : sv.authorityVerifier.authorities.Nodup) (m₁ m₂ : M) (s₁ s₂ : SignatureSet S) :
    (sv.authorityVerifier.isComplete verifySig m₁ s₁ = true →
      sv.authorityVerifier.isComplete verifySig m₂ s₂ = true →
      (∀ i ∈ s₁.indices ∪ s₂.indices, i < sv.authorityVerifier.nodeCount) ∧
      2 * sv.authorityVerifier.nodeCount / 3 + 1 ≤ s₁.indices.card ∧
      2 * sv.authorityVerifier.nodeCount / 3 + 1 ≤ s₂.indices.card ∧
      (sv.authorityVerifier.nodeCount - 1) / 3 + 1 ≤
        (sv.authorityVerifier.signers verifySig m₁ s₁ ∩
          sv.authorityVerifier.signers verifySig m₂ s₂).card) ∧
    (sv.verifyBytes verifySig (.committeeMultisignature s₁) m₁ = .ok () →
      sv.verifyBytes verifySig (.committeeMultisignature s₂) m₂ = .ok () →
      ∀ byzantine : Finset A, byzantine.card ≤ (sv.authorityVerifier.nodeCount - 1) / 3 →
      ∃ i authority sgn₁ sgn₂, sv.authorityVerifier.authorities[i]? = some authority ∧
        authority ∉ byzantine ∧ (i, sgn₁) ∈ s₁.iter ∧ (i, sgn₂) ∈ s₂.iter ∧
        verifySig authority m₁ sgn₁ = true ∧ verifySig authority m₂ sgn₂ = true) := by
  -- both sets are quorums of the committee `range n`
  have quorum : ∀ {m : M} {s : SignatureSet S},
      sv.authorityVerifier.isComplete verifySig m s = true →
      s.indices ⊆ Finset.range sv.authorityVerifier.nodeCount ∧
        2 * (Finset.range sv.authorityVerifier.nodeCount).card / 3 + 1 ≤ s.indices.card := by
    intro m s hc
    rw [Finset.card_range]
    exact ⟨indices_subset_of_isComplete hc, threshold_le_card_of_isComplete hc⟩
  constructor
  · intro h₁ h₂
    obtain ⟨hsub₁, hq₁⟩ := quorum h₁
    obtain ⟨hsub₂, hq₂⟩ := quorum h₂
    rw [Finset.card_range] at hq₁ hq₂
    refine ⟨?_, hq₁, hq₂, ?_⟩
    · intro i hi
      rcases Finset.mem_union.mp hi with hi | hi
      · exact Finset.mem_range.mp (hsub₁ hi)
      · exact Finset.mem_range.mp (hsub₂ hi)
    · rw [signers_eq_of_isComplete h₁, signers_eq_of_isComplete h₂]
      have hinter := Quorum.card_inter_of_quorums (quorum h₁).1 (quorum h₂).1
        (quorum h₁).2 (quorum h₂).2
      rwa [Finset.card_range] at hinter
  · intro hb₁ hb₂ byzantine hbyz
    have h₁ := verifyBytes_committee.mp hb₁
    have h₂ := verifyBytes_committee.mp hb₂
    -- distinct keys: the key of an index tells the index apart
    have hname : Set.InjOn (fun i => sv.authorityVerifier.authorities[i]?)
        (Finset.range sv.authorityVerifier.nodeCount : Set Nat) := by
      intro i hi j _ hij
      exact (List.getElem?_inj (Finset.mem_range.mp hi) hkeys).mp hij
    have hfaulty : (byzantine.map ⟨some, Option.some_injective A⟩).card ≤
        ((Finset.range sv.authorityVerifier.nodeCount).card - 1) / 3 := by
      rw [Finset.card_map, Finset.card_range]
      exact hbyz
    obtain ⟨i, hi, hhonest⟩ := Quorum.exists_correct_of_quorums hname
      (quorum h₁).1 (quorum h₂).1 (quorum h₁).2 (quorum h₂).2 hfaulty
    obtain ⟨sgn₁, hmem₁⟩ := SignatureSet.mem_indices.mp (Finset.mem_inter.mp hi).1
    obtain ⟨sgn₂, hmem₂⟩ := SignatureSet.mem_indices.mp (Finset.mem_inter.mp hi).2
    obtain ⟨authority, hkey, hsig₁⟩ := verify_eq_true.mp (verify_of_isComplete h₁ hmem₁)
    obtain ⟨authority', hkey', hsig₂⟩ := verify_eq_true.mp (verify_of_isComplete h₂ hmem₂)
    obtain rfl : authority = authority' := Option.some_injective A (hkey.symm.trans hkey')
    refine ⟨i, authority, sgn₁, sgn₂, hkey, ?_, hmem₁, hmem₂, hsig₁, hsig₂⟩
    intro hbad
    apply hhonest
    rw [hkey]
    exact Finset.mem_map_of_mem _ hbad

/-- Keys and messages as numbers, a signature valid when it is their sum. -/
def sampleVerifySig (authority msg sgn : Nat) : Bool := sgn == authority + msg

/-- Four authorities and no emergency finalizer. -/
def sampleSessionVerifier : SessionVerifier Nat := ⟨⟨[0, 1, 2, 3]⟩, none⟩

theorem committee_justifications_share_honest_signer_sample :
    sampleSessionVerifier.authorityVerifier.authorities.Nodup ∧
      ∃ i authority sgn₁ sgn₂, sampleSessionVerifier.authorityVerifier.authorities[i]? = some authority ∧
        authority ∉ ({3} : Finset Nat) ∧ (i, sgn₁) ∈ (SignatureSet.mk [some 10, some 11, some 12, none]).iter ∧
        (i, sgn₂) ∈ (SignatureSet.mk [none, some 21, some 22, some 23]).iter ∧
        sampleVerifySig authority 10 sgn₁ = true ∧ sampleVerifySig authority 20 sgn₂ = true :=
  ⟨by decide, (committee_justifications_share_honest_signer sampleSessionVerifier (by decide) 10 20
    ⟨[some 10, some 11, some 12, none]⟩ ⟨[none, some 21, some 22, some 23]⟩).2
    (by decide) (by decide) {3} (by decide)⟩

end SessionVerifier

end Verification

end Selendra
