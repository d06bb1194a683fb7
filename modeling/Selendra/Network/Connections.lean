import Selendra.Collections.HashSet
import Selendra.Session.Basic

/-! # Connections of the session network

`Connections` of `network/session/connections.rs`: for each peer the sessions that need it,
and for each session its peers. The two maps store one relation, `Linked`, from both ends
(`Mirrors`). Dropping a session unlinks its peers and hands back those that no other session
needs, which the manager then disconnects. -/

namespace Selendra.Network

structure Connections (P : Type) where
  associatedSessions : AList (fun _ : P => HashSet SessionId)
  peersBySession : AList (fun _ : SessionId => HashSet P)

namespace Connections

variable {P : Type} [DecidableEq P]

def new : Connections P := ⟨∅, ∅⟩

/-- One pass of the loop of `add_peers`. -/
def addPeer (sessionId : SessionId) (c : Connections P) (peer : P) : Connections P :=
  { associatedSessions := c.associatedSessions.insert peer
      (((c.associatedSessions.lookup peer).getD ∅).insert sessionId)
    peersBySession := c.peersBySession.insert sessionId
      (((c.peersBySession.lookup sessionId).getD ∅).insert peer) }

/-- Mark the peers as ones we should be connected to for the session. -/
def addPeers (c : Connections P) (sessionId : SessionId) (peers : List P) : Connections P :=
  peers.foldl (addPeer sessionId) c

/-- One pass of the loop of `remove_session`: the peer leaves the session, and joins the
result if no session is left for it. -/
def removePeer (sessionId : SessionId) (acc : HashSet P × Connections P) (peer : P) :
    HashSet P × Connections P :=
  let (result, c) := acc
  match c.associatedSessions.lookup peer with
  | some sessions =>
    let sessions := sessions.erase sessionId
    let associatedSessions := c.associatedSessions.erase peer
    if !sessions.isEmpty then
      (result, { c with associatedSessions := associatedSessions.insert peer sessions })
    else (result.insert peer, { c with associatedSessions := associatedSessions })
  | none => (result, c)

/-- Assume we no longer need to be connected to the peers of the session; returns the peers
we no longer have any reason to be connected to. -/
def removeSession (c : Connections P) (sessionId : SessionId) : HashSet P × Connections P :=
  match c.peersBySession.lookup sessionId with
  | some peers =>
    peers.toList.foldl (removePeer sessionId)
      (∅, { c with peersBySession := c.peersBySession.erase sessionId })
  | none => (∅, c)

/-- The peer is one of the session's. -/
def Linked (c : Connections P) (sessionId : SessionId) (peer : P) : Prop :=
  AList.Adj id c.peersBySession sessionId peer

/-- The two maps are mutually inverse and hold no empty set. -/
structure Mirrors (c : Connections P) : Prop where
  mirrored : ∀ s p, c.Linked s p ↔ AList.Adj id c.associatedSessions p s
  peers_nonempty : ∀ s v, c.peersBySession.lookup s = some v → v.isEmpty = false
  sessions_nonempty : ∀ p v, c.associatedSessions.lookup p = some v → v.isEmpty = false

theorem mirrors_new : (new : Connections P).Mirrors where
  mirrored s p := by simp [Linked, new, AList.Adj]
  peers_nonempty s v h := by simp [new] at h
  sessions_nonempty p v h := by simp [new] at h

/-! ## Adding peers -/

variable {c : Connections P} {sessionId : SessionId}

theorem linked_addPeer {peer : P} {s : SessionId} {p : P} :
    (c.addPeer sessionId peer).Linked s p ↔ c.Linked s p ∨ (s = sessionId ∧ p = peer) :=
  AList.adj_insert_getD

/-- Inserting into the set at a key, made if missing, leaves no set empty. -/
theorem nonempty_insert_getD {α β : Type} [DecidableEq α] [DecidableEq β]
    {l : AList (fun _ : α => HashSet β)} {a : α} {b : β}
    (h : ∀ x v, l.lookup x = some v → v.isEmpty = false) :
    ∀ x v, (l.insert a (((l.lookup a).getD ∅).insert b)).lookup x = some v → v.isEmpty = false := by
  intro x v hx
  by_cases hxa : x = a
  · subst hxa
    rw [AList.lookup_insert] at hx
    cases hx
    exact HashSet.isEmpty_insert _ _
  · rw [AList.lookup_insert_ne hxa] at hx
    exact h x v hx

theorem Mirrors.addPeer (h : c.Mirrors) (peer : P) : (c.addPeer sessionId peer).Mirrors where
  mirrored s p := by
    rw [linked_addPeer, h.mirrored]
    show _ ↔ AList.Adj id (c.associatedSessions.insert peer _) p s
    rw [AList.adj_insert_getD]
    constructor <;> rintro (hadj | ⟨rfl, rfl⟩) <;> first | exact .inl hadj | exact .inr ⟨rfl, rfl⟩
  peers_nonempty := nonempty_insert_getD h.peers_nonempty
  sessions_nonempty := nonempty_insert_getD h.sessions_nonempty

theorem linked_addPeers (peers : List P) :
    ∀ (c : Connections P) s p,
      (c.addPeers sessionId peers).Linked s p ↔ c.Linked s p ∨ (s = sessionId ∧ p ∈ peers) := by
  induction peers with
  | nil => simp [addPeers]
  | cons peer peers ih =>
    intro c s p
    rw [addPeers, List.foldl_cons, ← addPeers, ih, linked_addPeer, List.mem_cons]
    constructor
    · rintro ((hl | ⟨rfl, rfl⟩) | ⟨rfl, hp⟩)
      · exact .inl hl
      · exact .inr ⟨rfl, .inl rfl⟩
      · exact .inr ⟨rfl, .inr hp⟩
    · rintro (hl | ⟨rfl, rfl | hp⟩)
      · exact .inl (.inl hl)
      · exact .inl (.inr ⟨rfl, rfl⟩)
      · exact .inr ⟨rfl, hp⟩

theorem Mirrors.addPeers (peers : List P) :
    ∀ (c : Connections P), c.Mirrors → (c.addPeers sessionId peers).Mirrors := by
  induction peers with
  | nil => exact fun c h => h
  | cons peer peers ih => exact fun c h => ih _ (h.addPeer peer)

/-! ## Removing a session -/

/-- The loop of `remove_session` with the peers `L` still to visit: the session has no peers
left, the sessions of the visited peers no longer name it, and the result holds the visited
peers that no session needs. -/
structure Unlinking (sessionId : SessionId) (peers : HashSet P) (L : List P)
    (acc : HashSet P × Connections P) : Prop where
  gone : ∀ p, ¬ acc.2.Linked sessionId p
  mirrored : ∀ s p, AList.Adj id acc.2.associatedSessions p s ↔
    acc.2.Linked s p ∨ (s = sessionId ∧ p ∈ L)
  nodup : L.Nodup
  sub : ∀ p ∈ L, p ∈ peers
  result : ∀ p, p ∈ acc.1 ↔ p ∈ peers ∧ p ∉ L ∧ ∀ s, ¬ acc.2.Linked s p
  peers_nonempty : ∀ s v, acc.2.peersBySession.lookup s = some v → v.isEmpty = false
  sessions_nonempty : ∀ p v, acc.2.associatedSessions.lookup p = some v → v.isEmpty = false

theorem Unlinking.step {peers : HashSet P} {a : P} {L : List P} {acc : HashSet P × Connections P}
    (h : Unlinking sessionId peers (a :: L) acc) :
    Unlinking sessionId peers L (removePeer sessionId acc a) := by
  obtain ⟨result, c⟩ := acc
  obtain ⟨sessions, hsessions, hmem⟩ : AList.Adj id c.associatedSessions a sessionId :=
    (h.mirrored sessionId a).mpr (.inr ⟨rfl, List.mem_cons_self⟩)
  have ha : a ∉ L := (List.nodup_cons.mp h.nodup).1
  -- the sessions left for the peer are those it is linked in
  have hleft : ∀ s, s ∈ sessions.erase sessionId ↔ c.Linked s a := by
    intro s
    have hin : s ∈ sessions ↔ AList.Adj id c.associatedSessions a s :=
      (AList.adj_of_lookup (f := id) hsessions).symm
    rw [HashSet.mem_erase, hin, h.mirrored]
    constructor
    · rintro ⟨hne, hl | ⟨rfl, -⟩⟩
      · exact hl
      · exact absurd rfl hne
    · intro hl
      exact ⟨fun hs => h.gone a (hs ▸ hl), .inl hl⟩
  have hstep : ∀ p s, AList.Adj id c.associatedSessions p s ↔
      c.Linked s p ∨ (s = sessionId ∧ p ∈ a :: L) := fun p s => h.mirrored s p
  unfold removePeer
  dsimp only
  rw [hsessions]
  dsimp only
  split
  · rename_i hnonempty
    refine ⟨h.gone, ?_, (List.nodup_cons.mp h.nodup).2,
      fun p hp => h.sub p (List.mem_cons_of_mem a hp), ?_, h.peers_nonempty, ?_⟩
    · intro s p
      exact mirror_remove (R := fun p s => c.Linked s p) hstep (fun p => h.gone p) ha
        (fun p s => AList.adj_insert_erase hsessions) p s
    · intro p
      show p ∈ result ↔ p ∈ peers ∧ p ∉ L ∧ ∀ s, ¬ c.Linked s p
      rw [h.result p]
      by_cases hpa : p = a
      · subst hpa
        -- the peer keeps a session, so it stays out of the result
        obtain ⟨s, hs⟩ := HashSet.exists_mem_of_isEmpty_eq_false (by simpa using hnonempty)
        simp only [List.mem_cons, true_or, not_true_eq_false, false_and, and_false, false_iff]
        exact fun ⟨_, _, hno⟩ => hno s ((hleft s).mp hs)
      · simp [hpa]
    · intro p v hp
      by_cases hpa : p = a
      · subst hpa
        rw [AList.lookup_insert] at hp
        cases hp
        simpa using hnonempty
      · rw [AList.lookup_insert_ne hpa, AList.lookup_erase_ne hpa] at hp
        exact h.sessions_nonempty p v hp
  · rename_i hempty
    have hempty : (sessions.erase sessionId).isEmpty = true := by simpa using hempty
    refine ⟨h.gone, ?_, (List.nodup_cons.mp h.nodup).2,
      fun p hp => h.sub p (List.mem_cons_of_mem a hp), ?_, h.peers_nonempty, ?_⟩
    · intro s p
      exact mirror_remove (R := fun p s => c.Linked s p) hstep (fun p => h.gone p) ha
        (fun p s => AList.adj_erase_of_erase_isEmpty hsessions hempty) p s
    · intro p
      show p ∈ result.insert a ↔ p ∈ peers ∧ p ∉ L ∧ ∀ s, ¬ c.Linked s p
      rw [HashSet.mem_insert, h.result p]
      by_cases hpa : p = a
      · subst hpa
        -- no session is left for the peer, so it joins the result
        have hno : ∀ s, ¬ c.Linked s p := fun s hs =>
          HashSet.isEmpty_iff.mp hempty s ((hleft s).mpr hs)
        simp only [true_or, true_iff]
        exact ⟨h.sub p List.mem_cons_self, ha, hno⟩
      · simp [hpa]
    · intro p v hp
      by_cases hpa : p = a
      · subst hpa
        rw [AList.lookup_erase] at hp
        cases hp
      · rw [AList.lookup_erase_ne hpa] at hp
        exact h.sessions_nonempty p v hp

theorem Unlinking.foldl {peers : HashSet P} :
    ∀ (L : List P) (acc : HashSet P × Connections P), Unlinking sessionId peers L acc →
      Unlinking sessionId peers [] (L.foldl (removePeer sessionId) acc)
  | [], _, h => h
  | _ :: L, _, h => Unlinking.foldl L _ h.step

@[simp] theorem peersBySession_removePeer (acc : HashSet P × Connections P) (peer : P) :
    (removePeer sessionId acc peer).2.peersBySession = acc.2.peersBySession := by
  obtain ⟨result, c⟩ := acc
  unfold removePeer
  dsimp only
  split
  · split <;> rfl
  · rfl

theorem peersBySession_foldl_removePeer :
    ∀ (L : List P) (acc : HashSet P × Connections P),
      (L.foldl (removePeer sessionId) acc).2.peersBySession = acc.2.peersBySession
  | [], _ => rfl
  | peer :: L, acc => by
    rw [List.foldl_cons, peersBySession_foldl_removePeer L, peersBySession_removePeer]

/-- Before the loop: the session's peers are to be visited, and the session is gone. -/
theorem Mirrors.unlinking (h : c.Mirrors) {peers : HashSet P}
    (hp : c.peersBySession.lookup sessionId = some peers) :
    Unlinking sessionId peers peers.toList
      (∅, { c with peersBySession := c.peersBySession.erase sessionId }) where
  gone p := by simp [Linked, AList.adj_erase]
  mirrored s p := by
    show _ ↔ AList.Adj id (c.peersBySession.erase sessionId) s p ∨ _
    rw [← h.mirrored, AList.adj_erase]
    by_cases hs : s = sessionId
    · subst hs
      simp [Linked, AList.adj_of_lookup hp, HashSet.mem_def]
    · simp [hs, Linked]
  nodup := peers.nodup
  sub p hp := hp
  result p := ⟨fun hp => absurd hp (HashSet.notMem_empty p), fun ⟨hmem, hn, _⟩ => absurd hmem hn⟩
  peers_nonempty s v hs := by
    by_cases hne : s = sessionId
    · subst hne
      simp at hs
    · rw [AList.lookup_erase_ne hne] at hs
      exact h.peers_nonempty s v hs
  sessions_nonempty := h.sessions_nonempty

/-- `remove_session` unlinks the session from every peer, keeps the maps mirrored, and hands
back exactly the peers that no other session needs. -/
theorem Mirrors.removeSession (h : c.Mirrors) (sessionId : SessionId) :
    (c.removeSession sessionId).2.Mirrors ∧
    (∀ s p, (c.removeSession sessionId).2.Linked s p ↔ c.Linked s p ∧ s ≠ sessionId) ∧
    ∀ p, p ∈ (c.removeSession sessionId).1 ↔
      c.Linked sessionId p ∧ ∀ s, c.Linked s p → s = sessionId := by
  unfold Connections.removeSession
  cases hp : c.peersBySession.lookup sessionId with
  | none =>
    have hnone : ∀ p, ¬ c.Linked sessionId p := fun p => AList.not_adj_of_lookup hp
    refine ⟨h, fun s p => ⟨fun hl => ⟨hl, ?_⟩, And.left⟩, fun p => by simp [hnone]⟩
    rintro rfl
    exact hnone p hl
  | some peers =>
    dsimp only
    have hu := Unlinking.foldl _ _ (h.unlinking hp)
    -- the loop leaves the peers of the sessions as they were after the erase
    have hlinked : ∀ s p, (peers.toList.foldl (removePeer sessionId)
        (∅, { c with peersBySession := c.peersBySession.erase sessionId })).2.Linked s p ↔
          c.Linked s p ∧ s ≠ sessionId := by
      intro s p
      simp only [Linked, peersBySession_foldl_removePeer, AList.adj_erase]
      exact and_comm
    refine ⟨⟨fun s p => by simpa using (hu.mirrored s p).symm, hu.peers_nonempty,
      hu.sessions_nonempty⟩, hlinked, fun p => ?_⟩
    rw [hu.result p, show c.Linked sessionId p ↔ p ∈ peers from AList.adj_of_lookup hp]
    simp only [hlinked]
    constructor
    · rintro ⟨hmem, -, hno⟩
      exact ⟨hmem, fun s hs => Classical.byContradiction fun hne => hno s ⟨hs, hne⟩⟩
    · rintro ⟨hmem, honly⟩
      exact ⟨hmem, List.not_mem_nil, fun s h => h.2 (honly s h.1)⟩

end Connections

end Selendra.Network
