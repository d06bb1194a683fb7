import Selendra.Network.ManagerRuns

/-! # What a session handler knows after its calls

`missing_nodes` and `update` of `network/session/handler.rs` over the handler's calls. When the
verifier rejects indices it has no authority at, every node the handler knows stays below the
node count, through every authentication and every `update` (`KnownBelow.update`). The early
return of `missing_nodes`, taken when the handler knows all nodes but one, and the order in
which `update` replays the stored authentications, each node mapped to the peer of the last
one for it that passes the recheck, make the code part from its purpose on small sessions
(`handler_missing_nodes_and_replay_diverge`). -/

namespace Selendra.Network

namespace Handler

variable {A P Vf Pen Sig : Type} [AddressingInformation A P] [DecidableEq P]
  {crypto : Crypto A Vf Pen Sig}

open AddressingInformation

/-! ## Known nodes stay below the node count -/

/-- Every node the handler knows a peer of is below the node count. -/
def KnownBelow (nodeCount : Nat) (h : Handler A P Vf Pen Sig) : Prop :=
  ∀ n ∈ h.peersByNode, n < nodeCount

/-- `AuthorityVerifier::verify` rejects an index the verifier has no authority at. -/
def VerifiesBelow (crypto : Crypto A Vf Pen Sig) (nodeCount : Vf → Nat) : Prop :=
  ∀ vf d s i, crypto.verify vf d s i = true → i < nodeCount vf

theorem KnownBelow.handleAuthentication {nodeCount : Vf → Nat} {h : Handler A P Vf Pen Sig}
    (hv : VerifiesBelow crypto nodeCount) (hk : h.KnownBelow (nodeCount h.authorityVerifier))
    (authentication : Authentication A Sig) :
    (h.handleAuthentication crypto authentication).2.KnownBelow
      (nodeCount (h.handleAuthentication crypto authentication).2.authorityVerifier) := by
  cases ha : h.accepts crypto authentication with
  | false =>
    rw [handleAuthentication_of_not_accepts ha]
    exact hk
  | true =>
    rw [handleAuthentication_of_accepts ha]
    intro n hn
    rcases (AList.mem_insert _).mp hn with rfl | hn
    · -- the new node passed the signature check at its own index
      simp only [accepts, decide_eq_true_eq] at ha
      exact hv _ _ _ _ ha.2.2.2
    · exact hk n hn

/-- After a successful `update` every known node is below the new verifier's node count. -/
theorem KnownBelow.update {nodeCount : Vf → Nat} {h h' : Handler A P Vf Pen Sig}
    (hv : VerifiesBelow crypto nodeCount) {authorityIndexAndPen : Option (Nat × Pen)}
    {authorityVerifier : Vf} {address : A} {addresses : List A}
    (hu : h.update crypto authorityIndexAndPen authorityVerifier address = .ok (addresses, h')) :
    h'.KnownBelow (nodeCount h'.authorityVerifier) := by
  unfold Handler.update at hu
  split_ifs at hu
  obtain ⟨-, rfl⟩ := Prod.mk.inj (Except.ok.inj hu)
  -- the replay keeps the property from the empty rebuilt handler
  have hrun : ∀ (L : List (Σ _ : P, Authentication A Sig)) (g : Handler A P Vf Pen Sig),
      g.KnownBelow (nodeCount g.authorityVerifier) →
      (L.foldl (fun h e => (h.handleAuthentication crypto e.2).2) g).KnownBelow
        (nodeCount (L.foldl (fun h e => (h.handleAuthentication crypto e.2).2) g).authorityVerifier) := by
    intro L
    induction L with
    | nil => exact fun g hg => hg
    | cons e L ih => exact fun g hg => ih _ (hg.handleAuthentication hv e.2)
  exact hrun _ _ fun n hn => by simp at hn

end Handler

/-! ## Runs where the code and its purpose part -/

/-- A non-validator of a two-node session that knows node 0 reports no node missing, though
node 1 is; a validator of a three-node session whose own index was authenticated from another
peer reports none missing, though node 2 is; and a node that authenticated again from a new
peer is mapped back to its old peer by `update`. -/
theorem handler_missing_nodes_and_replay_diverge :
    let h₀ : Handler SampleAddress Nat Unit Unit Unit := Handler.new sampleCrypto none () ⟨0⟩ ⟨0⟩
    let h₁ := (h₀.handleAuthentication sampleCrypto ⟨⟨⟨1⟩, 0, ⟨0⟩⟩, ()⟩).2
    let h₂ := (h₁.handleAuthentication sampleCrypto ⟨⟨⟨2⟩, 0, ⟨0⟩⟩, ()⟩).2
    let v₀ : Handler SampleAddress Nat Unit Unit Unit :=
      Handler.new sampleCrypto (some (0, ())) () ⟨0⟩ ⟨0⟩
    let v₁ := (v₀.handleAuthentication sampleCrypto ⟨⟨⟨5⟩, 0, ⟨0⟩⟩, ()⟩).2
    let v₂ := (v₁.handleAuthentication sampleCrypto ⟨⟨⟨1⟩, 1, ⟨0⟩⟩, ()⟩).2
    (h₁.missingNodes (fun _ => 2) = [] ∧ h₁.unknownNodes 2 = [1]) ∧
      (v₂.missingNodes (fun _ => 3) = [] ∧ v₂.unknownNodes 3 = [2]) ∧
      (h₂.peersByNode.lookup 0 = some 2 ∧
        (h₂.update sampleCrypto none () ⟨0⟩).map (fun r => r.2.peersByNode.lookup 0) =
          .ok (some 1)) := by
  decide

end Selendra.Network
