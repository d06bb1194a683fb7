import Selendra.DataIo.DataProvider

/-! # The chain tracker and the data provider

`ChainTracker` and `DataProvider` of `data_io/data_provider.rs`. On every refresh tick the
tracker reads the best header and reduces it to the session (`get_best_block_in_session`, fed
its answer of the tick before), then recomputes the proposal from that block and the top
finalized block (`update_data`) into a slot it shares with the provider; `get_data` takes the
proposal out of the slot. The client and the best header are the inputs of a tick.

Reducing the best header costs a walk down parent links, which the tracker saves once its
previous answer is at the session's last block and the new best block descends from it. On a
chain whose parents are one block lower, and with a client that answers with the header asked
for, the saving changes no answer: every tick gives the block the plain reduction gives
(`getBestBlockInSession_eq_naive`). The slot, though, keeps its proposal over a tick whose best
block is below the session, as `update_data` is not called then
(`run_stale_after_best_below_session`). -/

namespace Selendra.DataIo

variable {H E : Type} [Header H]

/-- The client answers with the header it is asked for. -/
def HeaderBackend.Consistent (client : HeaderBackend H E) : Prop :=
  ∀ id h, client.header id = .ok (some h) → Header.id h = id

/-- The client knows the parent of every header it knows but the genesis: it holds the whole
ancestry of its headers, which `reduce_header_to_num` takes for granted. -/
def HeaderBackend.Complete (client : HeaderBackend H E) : Prop :=
  ∀ id h, client.header id = .ok (some h) → (Header.id h).number ≠ 0 →
    ∃ p hp, Header.parentId h = some p ∧ client.header p = .ok (some hp)

/-! ## Reducing a header -/

section Reduce

variable {client : HeaderBackend H E} (laws : HeaderLaws H) (hcons : client.Consistent)
include laws hcons

/-- The walk stops at the height it was asked for. -/
theorem reduceHeaderToNumLoop_number {num : Nat} :
    ∀ fuel (h a : H), reduceHeaderToNumLoop client num fuel h = some a →
      num ≤ (Header.id h).number → (Header.id a).number = num
  | 0, h, a, hr, hle => by
    simp only [reduceHeaderToNumLoop] at hr
    split_ifs at hr with hgt
    cases hr
    omega
  | fuel + 1, h, a, hr, hle => by
    simp only [reduceHeaderToNumLoop] at hr
    split_ifs at hr with hgt
    · -- one step down to the parent, which is one block lower
      cases hp : Header.parentId h with
      | none => simp [hp] at hr
      | some parent =>
        rw [hp] at hr
        have hnum := laws.parent_number h parent hp
        cases hh : client.header parent with
        | error => simp [hh] at hr
        | ok header =>
          cases header with
          | none => simp [hh] at hr
          | some header =>
            simp only [hh] at hr
            have hid := hcons parent header hh
            exact reduceHeaderToNumLoop_number fuel header a hr (by rw [hid]; omega)
    · cases hr
      omega

theorem reduceHeaderToNum_number {h a : H} {num : Nat} (hr : reduceHeaderToNum client h num = some a) :
    (Header.id a).number = num := by
  unfold reduceHeaderToNum at hr
  split_ifs at hr with hle
  exact reduceHeaderToNumLoop_number laws hcons _ h a hr hle

variable (hcomplete : client.Complete)
include hcomplete

end Reduce

/-! ## The tracker -/

/-- The inputs of the last `update_data` that got past its first check. -/
structure ChainInfo where
  bestBlockInSession : BlockId
  highestFinalized : BlockId
deriving DecidableEq, Repr

/-- The tracker's state; `dataToPropose` is the slot shared with `DataProvider`. -/
structure ChainTracker (H : Type) where
  dataToPropose : Option (AlephData H)
  sessionBoundaries : SessionBoundaries
  prevChainInfo : Option ChainInfo

namespace ChainTracker

def new (sessionBoundaries : SessionBoundaries) : ChainTracker H :=
  ⟨none, sessionBoundaries, none⟩

/-- The proposal of the block `bestBlockInSession` over the top finalized block; `none` where
`get_proposal` panics. -/
def updateData (t : ChainTracker H) (client : HeaderBackend H E) (bestBlockInSession : BlockId) :
    Option (ChainTracker H) :=
  let finalizedBlock := client.topFinalizedId
  if finalizedBlock.number ≥ t.sessionBoundaries.lastBlock then
    -- the session is over: the empty proposal
    some { t with dataToPropose := none }
  else if t.prevChainInfo = some ⟨bestBlockInSession, finalizedBlock⟩ then some t
  else
    let t := { t with prevChainInfo := some ⟨bestBlockInSession, finalizedBlock⟩ }
    if bestBlockInSession.number < finalizedBlock.number then some t
    else
      match getProposal client bestBlockInSession finalizedBlock with
      | some (.ok proposal) => some { t with dataToPropose := proposal }
      | some (.error _) => some t
      | none => none

/-- The highest ancestor of the best block in the session, `none` below it; the outer `none`
is a panic of `reduce_header_to_num`. -/
def getBestBlockInSession (t : ChainTracker H) (client : HeaderBackend H E) (newBestHeader : H)
    (prevBestBlock : Option BlockId) : Option (Option BlockId) :=
  if (Header.id newBestHeader).number < t.sessionBoundaries.firstBlock then some none
  else
    let lastBlock := t.sessionBoundaries.lastBlock
    let newBestBlock := Header.id newBestHeader
    if newBestBlock.number ≤ lastBlock then some (some newBestBlock)
    else
      match prevBestBlock with
      | none => (reduceHeaderToNum client newBestHeader lastBlock).map (some ∘ Header.id)
      | some prev =>
        if prev.number < lastBlock then
          (reduceHeaderToNum client newBestHeader lastBlock).map (some ∘ Header.id)
        else
          -- the new best block may descend from the previous answer, already at the top
          match reduceHeaderToNum client newBestHeader prev.number with
          | none => none
          | some reducedHeader =>
            if (Header.id reducedHeader).hash ≠ prev.hash then
              (reduceHeaderToNum client newBestHeader lastBlock).map (some ∘ Header.id)
            else some (some prev)

/-- One round of the loop of `run`, from the best block in the session of the round before. -/
def tick (t : ChainTracker H) (client : HeaderBackend H E) (bestHeader : H)
    (bestBlockInSession : Option BlockId) : Option (ChainTracker H × Option BlockId) :=
  match t.getBestBlockInSession client bestHeader bestBlockInSession with
  | none => none
  | some none => some (t, none)
  | some (some bestBlock) => (t.updateData client bestBlock).map fun t => (t, some bestBlock)

end ChainTracker

/-- `get_data`: the proposal in the slot, taken out of it. -/
def DataProvider.getData (dataToPropose : Option (AlephData H)) :
    Option (AlephData H) × Option (AlephData H) :=
  (dataToPropose, none)

/-- The reduction to the session without the saving, as the comment above `DataProvider`
states the rule: the best block itself within the session, reduced to the last block above
it. -/
def naiveBestBlockInSession (client : HeaderBackend H E) (sessionBoundaries : SessionBoundaries)
    (newBestHeader : H) : Option (Option BlockId) :=
  if (Header.id newBestHeader).number < sessionBoundaries.firstBlock then some none
  else if (Header.id newBestHeader).number ≤ sessionBoundaries.lastBlock then
    some (some (Header.id newBestHeader))
  else (reduceHeaderToNum client newBestHeader sessionBoundaries.lastBlock).map (some ∘ Header.id)

namespace ChainTracker

variable {client : HeaderBackend H E} (laws : HeaderLaws H) (hcons : client.Consistent)
include laws hcons

/-- Fed an answer at most at the session's last block, as it always is, the saving of
`get_best_block_in_session` gives the plain reduction's answer. -/
theorem getBestBlockInSession_eq_naive (t : ChainTracker H) (newBestHeader : H)
    (prevBestBlock : Option BlockId)
    (hprev : ∀ prev ∈ prevBestBlock, prev.number ≤ t.sessionBoundaries.lastBlock) :
    t.getBestBlockInSession client newBestHeader prevBestBlock =
      naiveBestBlockInSession client t.sessionBoundaries newBestHeader := by
  unfold getBestBlockInSession naiveBestBlockInSession
  dsimp only
  split_ifs with hfirst hlast
  · rfl
  · rfl
  · cases prevBestBlock with
    | none => rfl
    | some prev =>
      have hle := hprev prev rfl
      dsimp only
      split_ifs with hlt
      · rfl
      · -- the previous answer is at the last block: the two walks are one
        have htop : prev.number = t.sessionBoundaries.lastBlock := by omega
        rw [htop]
        cases hr : reduceHeaderToNum client newBestHeader t.sessionBoundaries.lastBlock with
        | none => rfl
        | some reducedHeader =>
          dsimp only
          split_ifs with hhash
          · rfl
          · -- same hash at the same height: the previous answer is the reduced block
            have hnum := reduceHeaderToNum_number laws hcons hr
            simp only [Option.map_some, Function.comp_apply, Option.some.injEq]
            rw [not_not] at hhash
            exact BlockId.eq_of_hash_number hhash.symm (htop.trans hnum.symm)

end ChainTracker

/-- The plain reduction answers within the session. -/
theorem naiveBestBlockInSession_le {client : HeaderBackend H E} (laws : HeaderLaws H)
    (hcons : client.Consistent) {sessionBoundaries : SessionBoundaries} {newBestHeader : H}
    {best : BlockId}
    (h : naiveBestBlockInSession client sessionBoundaries newBestHeader = some (some best)) :
    best.number ≤ sessionBoundaries.lastBlock := by
  unfold naiveBestBlockInSession at h
  by_cases hfirst : (Header.id newBestHeader).number < sessionBoundaries.firstBlock
  · rw [if_pos hfirst] at h
    cases h
  rw [if_neg hfirst] at h
  by_cases hlast : (Header.id newBestHeader).number ≤ sessionBoundaries.lastBlock
  · rw [if_pos hlast, Option.some.injEq, Option.some.injEq] at h
    rw [← h]
    exact hlast
  · rw [if_neg hlast] at h
    obtain ⟨reducedHeader, hr, hbest⟩ := Option.map_eq_some_iff.mp h
    cases hbest
    exact Nat.le_of_eq (reduceHeaderToNum_number laws hcons hr)

namespace ChainTracker

theorem sessionBoundaries_updateData {t t' : ChainTracker H} {client : HeaderBackend H E}
    {bestBlockInSession : BlockId} (h : t.updateData client bestBlockInSession = some t') :
    t'.sessionBoundaries = t.sessionBoundaries := by
  unfold updateData at h
  dsimp only at h
  split_ifs at h
  · cases h
    rfl
  · cases h
    rfl
  · cases h
    rfl
  · split at h <;> cases h <;> rfl

end ChainTracker

/-! ## Runs of the tracker and the provider -/

/-- What happens to the tracker and the provider: a refresh tick, with the client and the best
header of that moment, or a call of `get_data` by the consensus. -/
inductive ProposerEvent (H E : Type) where
  | tick (client : HeaderBackend H E) (bestHeader : H)
  | getData

/-- The tracker, the best block in the session that `run` keeps from one tick to the next, and
what `get_data` returned so far. -/
structure Proposer (H : Type) where
  tracker : ChainTracker H
  bestBlockInSession : Option BlockId
  proposed : List (Option (AlephData H))

namespace Proposer

def new (sessionBoundaries : SessionBoundaries) : Proposer H :=
  ⟨ChainTracker.new sessionBoundaries, none, []⟩

def step (s : Proposer H) : ProposerEvent H E → Option (Proposer H)
  | .tick client bestHeader =>
    (s.tracker.tick client bestHeader s.bestBlockInSession).map fun (tracker, best) =>
      { s with tracker := tracker, bestBlockInSession := best }
  | .getData =>
    let (data, slot) := DataProvider.getData s.tracker.dataToPropose
    some { s with
      tracker := { s.tracker with dataToPropose := slot }
      proposed := s.proposed ++ [data] }

def run (s : Proposer H) (events : List (ProposerEvent H E)) : Option (Proposer H) :=
  events.foldlM step s

/-- The ticks read clients that answer with the header asked for. -/
def ReadsConsistent : ProposerEvent H E → Prop
  | .tick client _ => client.Consistent
  | .getData => True

/-- Between ticks the tracker keeps its session and an answer within it. -/
structure Inv (sessionBoundaries : SessionBoundaries) (s : Proposer H) : Prop where
  session : s.tracker.sessionBoundaries = sessionBoundaries
  within : ∀ b ∈ s.bestBlockInSession, b.number ≤ sessionBoundaries.lastBlock

variable {sessionBoundaries : SessionBoundaries} (laws : HeaderLaws H)
include laws

/-- At every tick of a run the tracker answers as the plain reduction. -/
theorem Inv.getBestBlockInSession {s : Proposer H} (hs : s.Inv sessionBoundaries)
    {client : HeaderBackend H E} (hcons : client.Consistent) (bestHeader : H) :
    s.tracker.getBestBlockInSession client bestHeader s.bestBlockInSession =
      naiveBestBlockInSession client sessionBoundaries bestHeader := by
  rw [ChainTracker.getBestBlockInSession_eq_naive laws hcons _ _ _
    (fun b hb => hs.session ▸ hs.within b hb), hs.session]

theorem Inv.step {s s' : Proposer H} (hs : s.Inv sessionBoundaries) {e : ProposerEvent H E}
    (he : ReadsConsistent e) (h : s.step e = some s') : s'.Inv sessionBoundaries := by
  cases e with
  | tick client bestHeader =>
    simp only [Proposer.step] at h
    obtain ⟨⟨tracker, best⟩, ht, rfl⟩ := Option.map_eq_some_iff.mp h
    unfold ChainTracker.tick at ht
    rw [hs.getBestBlockInSession laws he] at ht
    -- the answer of the tick, empty or within the session
    cases hbest : naiveBestBlockInSession client sessionBoundaries bestHeader with
    | none => simp [hbest] at ht
    | some best' =>
      cases best' with
      | none =>
        simp only [hbest, Option.some.injEq, Prod.mk.injEq] at ht
        obtain ⟨rfl, rfl⟩ := ht
        exact ⟨hs.session, fun b hb => absurd hb (Option.not_mem_none b)⟩
      | some bestBlock =>
        simp only [hbest] at ht
        obtain ⟨t, hupdate, heq⟩ := Option.map_eq_some_iff.mp ht
        simp only [Prod.mk.injEq] at heq
        obtain ⟨rfl, rfl⟩ := heq
        refine ⟨(ChainTracker.sessionBoundaries_updateData hupdate).trans hs.session, ?_⟩
        intro b hb
        cases hb
        exact naiveBestBlockInSession_le laws he hbest
  | getData =>
    simp only [Proposer.step, Option.some.injEq] at h
    subst h
    exact ⟨hs.session, hs.within⟩

end Proposer

/-- A proposal outlives a tick whose best block is below the session. In the session of blocks
2 to 10 over the chain of blocks 0 to 2 finalized at the genesis, a tick at the best block 2
puts the branch of blocks 1 and 2 in the slot; at the next tick the best block is 1, below the
session, so the honest rule proposes nothing, but `update_data` is not called and `get_data`
hands out the branch of the tick before. -/
theorem run_stale_after_best_below_session :
    ((Proposer.new ⟨2, 10⟩ : Proposer ChainHeader).run
      [.tick (lineClient 2 0) ⟨2⟩, .tick (lineClient 2 0) ⟨1⟩, .getData]).map Proposer.proposed =
      some [some ⟨UnvalidatedAlephProposal.new ⟨2⟩ [1]⟩] ∧
    naiveBestBlockInSession (lineClient 2 0) ⟨2, 10⟩ (⟨1⟩ : ChainHeader) = some none := by
  decide

end Selendra.DataIo
