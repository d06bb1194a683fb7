import Selendra.DataIo.DataProvider
import Selendra.Collections.Lru
import Mathlib

/-! # The caches of the chain info provider

`CachedChainInfoProvider` of `data_io/chain_info.rs` with its three LRU caches, each of
`block_cache_capacity`: the blocks known to be imported, the parents of blocks, and the hashes
of the finalized blocks by number. The provider behind them answers from the state of the chain
at the moment of the query; a run is a list of queries, each with the state it was made in.

A cache answers from what the provider said before. As long as the chain only grows
(`Extends`), what it said is what it would say now (`Valid.extends`), with two exceptions that
only the provider's own consistency excludes: a finalized block cached by number comes back with
the number asked for, and the check against the highest finalized block hides what the provider
reports above it. For a provider that reports a finalized block only at the number asked and
never above its highest finalized one, as the client does, the cached provider answers every
query as the provider itself (`cached_answers_as_provider`). In general it answers as the
cache-free `CachedChainInfoProvider` of `ChainInfo` (`run_eq_cached`), and
`cached_answers_differ` shows both exceptions.

`AuxFinalizationChainInfoProvider` finds a block between the provider's highest finalized block
and the aux-finalized one by walking down parent links; it finds exactly the ancestor at that
height, when the provider knows the links down to it (`walkDown_eq_some_iff`). -/

namespace Selendra.DataIo

open ChainInfoProvider

variable {C : Type} [ChainInfoProvider C]

/-- A provider that reports a finalized block only at the number asked for. -/
def FinalizedAtNumber (c : C) : Prop := ∀ n b, getFinalizedAt c n = some b → b.number = n

/-- A query of `ChainInfoProvider`. -/
inductive Query where
  | isBlockImported (block : BlockId)
  | getFinalizedAt (number : Nat)
  | getParentHash (block : BlockId)
  | getHighestFinalized

inductive Answer where
  | isBlockImported (imported : Bool)
  | getFinalizedAt (block : Option BlockId)
  | getParentHash (hash : Option Nat)
  | getHighestFinalized (block : BlockId)
deriving DecidableEq, Repr

/-- What a provider answers, without any cache of its own. -/
def Query.ask (c : C) : Query → Answer
  | .isBlockImported block => .isBlockImported (ChainInfoProvider.isBlockImported c block)
  | .getFinalizedAt number => .getFinalizedAt (ChainInfoProvider.getFinalizedAt c number)
  | .getParentHash block => .getParentHash (ChainInfoProvider.getParentHash c block)
  | .getHighestFinalized => .getHighestFinalized (ChainInfoProvider.getHighestFinalized c)

/-- The caches of `CachedChainInfoProvider`. -/
structure ChainInfoCaches where
  availableBlockWithParentCache : LruCache BlockId Nat
  availableBlocksCache : LruCache BlockId Unit
  finalizedCache : LruCache Nat Nat

namespace ChainInfoCaches

/-- The caches of `CachedChainInfoProvider::new`, empty. -/
def new (blockCacheCapacity : Nat) : ChainInfoCaches :=
  ⟨.new blockCacheCapacity, .new blockCacheCapacity, .new blockCacheCapacity⟩

/-- `is_block_imported` in front of `c`: only the blocks found imported are cached. -/
def isBlockImported [LruCache.Ops BlockId Unit] (caches : ChainInfoCaches) (c : C)
    (block : BlockId) : Bool × ChainInfoCaches :=
  if caches.availableBlocksCache.contains block then (true, caches)
  else if ChainInfoProvider.isBlockImported c block then
    (true, { caches with availableBlocksCache := caches.availableBlocksCache.put block () })
  else (false, caches)

def getFinalizedAt [LruCache.Ops Nat Nat] (caches : ChainInfoCaches) (c : C) (num : Nat) :
    Option BlockId × ChainInfoCaches :=
  match caches.finalizedCache.get num with
  | (some hash, finalizedCache) =>
    (some ⟨hash, num⟩, { caches with finalizedCache := finalizedCache })
  | (none, finalizedCache) =>
    if (ChainInfoProvider.getHighestFinalized c).number < num then
      (none, { caches with finalizedCache := finalizedCache })
    else
      match ChainInfoProvider.getFinalizedAt c num with
      | some block => (some block, { caches with finalizedCache := finalizedCache.put num block.hash })
      | none => (none, { caches with finalizedCache := finalizedCache })

def getParentHash [LruCache.Ops BlockId Nat] (caches : ChainInfoCaches) (c : C) (block : BlockId) :
    Option Nat × ChainInfoCaches :=
  match caches.availableBlockWithParentCache.get block with
  | (some parent, cache) => (some parent, { caches with availableBlockWithParentCache := cache })
  | (none, cache) =>
    match ChainInfoProvider.getParentHash c block with
    | some parent =>
      (some parent, { caches with availableBlockWithParentCache := cache.put block parent })
    | none => (none, { caches with availableBlockWithParentCache := cache })

section Answer

variable [LruCache.Ops BlockId Nat] [LruCache.Ops BlockId Unit] [LruCache.Ops Nat Nat]

/-- The answer of the cached provider in front of `c`, and its caches after. -/
def answer (caches : ChainInfoCaches) (c : C) : Query → Answer × ChainInfoCaches
  | .isBlockImported block =>
    (.isBlockImported (caches.isBlockImported c block).1, (caches.isBlockImported c block).2)
  | .getFinalizedAt number =>
    (.getFinalizedAt (caches.getFinalizedAt c number).1, (caches.getFinalizedAt c number).2)
  | .getParentHash block =>
    (.getParentHash (caches.getParentHash c block).1, (caches.getParentHash c block).2)
  | .getHighestFinalized => (.getHighestFinalized (ChainInfoProvider.getHighestFinalized c), caches)

/-- The answers of the cached provider to queries, each made when the provider behind it was
in the state it comes with. -/
def run (caches : ChainInfoCaches) : List (C × Query) → List Answer
  | [] => []
  | (c, q) :: qs => (caches.answer c q).1 :: (caches.answer c q).2.run qs

end Answer

/-! ## What the caches hold -/

/-- What the caches hold, `c` answers: the blocks cached as imported are imported, the cached
parents are the parents, and a hash cached at a number is of the block `c` reports finalized
there, at or below its highest finalized block. -/
structure Valid (caches : ChainInfoCaches) (c : C) : Prop where
  availableBlocks : ∀ b u, (b, u) ∈ caches.availableBlocksCache.entries →
    ChainInfoProvider.isBlockImported c b = true
  parents : ∀ b p, (b, p) ∈ caches.availableBlockWithParentCache.entries →
    ChainInfoProvider.getParentHash c b = some p
  finalized : ∀ n hash, (n, hash) ∈ caches.finalizedCache.entries →
    ChainInfoProvider.getFinalizedAt c n = some ⟨hash, n⟩ ∧
      n ≤ (ChainInfoProvider.getHighestFinalized c).number

theorem valid_new (blockCacheCapacity : Nat) (c : C) : Valid (new blockCacheCapacity) c where
  availableBlocks _ _ h := absurd h List.not_mem_nil
  parents _ _ h := absurd h List.not_mem_nil
  finalized _ _ h := absurd h List.not_mem_nil

variable {caches : ChainInfoCaches} {c : C}

/-- What the provider said, it still says once the chain has grown. -/
theorem Valid.extends {C' : Type} [ChainInfoProvider C'] {c' : C'} (h : Valid caches c)
    (he : Extends c c') : Valid caches c' where
  availableBlocks b u hb := he.imported b (h.availableBlocks b u hb)
  parents b p hb := he.parent b p (h.parents b p hb)
  finalized n hash hn :=
    ⟨he.finalized n _ (h.finalized n hash hn).1, Nat.le_trans (h.finalized n hash hn).2 he.highest⟩

theorem Valid.isBlockImported [LruCache.Ops BlockId Unit] (h : Valid caches c) (block : BlockId) :
    (caches.isBlockImported c block).1 = ChainInfoProvider.isBlockImported c block ∧
      Valid (caches.isBlockImported c block).2 c := by
  unfold ChainInfoCaches.isBlockImported
  by_cases hc : caches.availableBlocksCache.contains block = true
  · obtain ⟨u, hu⟩ := LruCache.exists_of_contains hc
    rw [if_pos hc]
    exact ⟨(h.availableBlocks block u hu).symm, h⟩
  · rw [if_neg hc]
    by_cases hi : ChainInfoProvider.isBlockImported c block = true
    · rw [if_pos hi]
      refine ⟨hi.symm, { h with availableBlocks := fun b u hb => ?_ }⟩
      rcases LruCache.entries_put hb with he | hb
      · cases he
        exact hi
      · exact h.availableBlocks b u hb
    · rw [if_neg hi]
      exact ⟨(Bool.eq_false_iff.mpr hi).symm, h⟩

/-- The cached number comes back with the hash: what the provider reported there, as long as
it reports finalized blocks at the number asked for. -/
theorem Valid.getFinalizedAt [LruCache.Ops Nat Nat] (h : Valid caches c) (hnum : FinalizedAtNumber c)
    (num : Nat) :
    (caches.getFinalizedAt c num).1 = CachedChainInfoProvider.getFinalizedAt ⟨c⟩ num ∧
      Valid (caches.getFinalizedAt c num).2 c := by
  unfold ChainInfoCaches.getFinalizedAt CachedChainInfoProvider.getFinalizedAt
  have hsub : ∀ e, e ∈ (caches.finalizedCache.get num).2.entries → e ∈ caches.finalizedCache.entries :=
    fun _ he => LruCache.entries_get he
  cases hg : caches.finalizedCache.get num with
  | mk r cache =>
    rw [hg] at hsub
    have hc : Valid { caches with finalizedCache := cache } c :=
      { h with finalized := fun n hash hn => h.finalized n hash (hsub _ hn) }
    cases r with
    | some hash =>
      -- a hit: the provider reported this block at `num`, which is not above its highest
      have hmem := LruCache.mem_of_get (show (caches.finalizedCache.get num).1 = some hash by rw [hg])
      obtain ⟨hfin, hle⟩ := h.finalized num hash hmem
      refine ⟨?_, hc⟩
      dsimp only
      rw [if_neg (Nat.not_lt.mpr hle), hfin]
    | none =>
      dsimp only
      by_cases hlt : (ChainInfoProvider.getHighestFinalized c).number < num
      · rw [if_pos hlt, if_pos hlt]
        exact ⟨rfl, hc⟩
      · rw [if_neg hlt, if_neg hlt]
        cases hf : ChainInfoProvider.getFinalizedAt c num with
        | none => exact ⟨rfl, hc⟩
        | some block =>
          refine ⟨rfl, { h with finalized := fun n hash hn => ?_ }⟩
          rcases LruCache.entries_put hn with he | hn
          · cases he
            have hb : block = ⟨block.hash, num⟩ := by rw [← hnum num block hf]
            exact ⟨hb ▸ hf, Nat.le_of_not_lt hlt⟩
          · exact h.finalized n hash (hsub _ hn)

theorem Valid.getParentHash [LruCache.Ops BlockId Nat] (h : Valid caches c) (block : BlockId) :
    (caches.getParentHash c block).1 = ChainInfoProvider.getParentHash c block ∧
      Valid (caches.getParentHash c block).2 c := by
  unfold ChainInfoCaches.getParentHash
  have hsub : ∀ e, e ∈ (caches.availableBlockWithParentCache.get block).2.entries →
      e ∈ caches.availableBlockWithParentCache.entries :=
    fun _ he => LruCache.entries_get he
  cases hg : caches.availableBlockWithParentCache.get block with
  | mk r cache =>
    rw [hg] at hsub
    have hc : Valid { caches with availableBlockWithParentCache := cache } c :=
      { h with parents := fun b p hb => h.parents b p (hsub _ hb) }
    cases r with
    | some parent =>
      have hmem := LruCache.mem_of_get
        (show (caches.availableBlockWithParentCache.get block).1 = some parent by rw [hg])
      exact ⟨(h.parents block parent hmem).symm, hc⟩
    | none =>
      dsimp only
      cases hp : ChainInfoProvider.getParentHash c block with
      | none => exact ⟨rfl, hc⟩
      | some parent =>
        refine ⟨rfl, { h with parents := fun b p hb => ?_ }⟩
        rcases LruCache.entries_put hb with he | hb
        · cases he
          exact hp
        · exact h.parents b p (hsub _ hb)

section Answer

variable [LruCache.Ops BlockId Nat] [LruCache.Ops BlockId Unit] [LruCache.Ops Nat Nat]

/-- One query: the cached provider answers as the cache-free one, and its caches stay valid. -/
theorem Valid.answer (h : Valid caches c) (hnum : FinalizedAtNumber c) (q : Query) :
    (caches.answer c q).1 = q.ask (CachedChainInfoProvider.mk c) ∧ Valid (caches.answer c q).2 c := by
  cases q with
  | isBlockImported block =>
    obtain ⟨hr, hv⟩ := h.isBlockImported block
    exact ⟨by rw [ChainInfoCaches.answer, hr]; rfl, hv⟩
  | getFinalizedAt number =>
    obtain ⟨hr, hv⟩ := h.getFinalizedAt hnum number
    exact ⟨by rw [ChainInfoCaches.answer, hr]; rfl, hv⟩
  | getParentHash block =>
    obtain ⟨hr, hv⟩ := h.getParentHash block
    exact ⟨by rw [ChainInfoCaches.answer, hr]; rfl, hv⟩
  | getHighestFinalized => exact ⟨rfl, h⟩

/-- Over a growing chain, the cached provider answers every query as the cache-free
`CachedChainInfoProvider` would at that moment. -/
theorem run_eq_cached : ∀ (qs : List (C × Query)) (caches : ChainInfoCaches),
    (∀ p ∈ qs.head?, Valid caches p.1) → (qs.map Prod.fst).IsChain Extends →
    (∀ p ∈ qs, FinalizedAtNumber p.1) →
    caches.run qs = qs.map fun p => p.2.ask (CachedChainInfoProvider.mk p.1)
  | [], _, _, _, _ => rfl
  | (c, q) :: qs, caches, hv, hchain, hnum => by
    have hvc : Valid caches c := hv (c, q) rfl
    obtain ⟨hr, hv'⟩ := hvc.answer (hnum (c, q) List.mem_cons_self) q
    rw [List.map_cons, List.isChain_cons] at hchain
    -- the caches after this query stay valid at the next moment, a later state of the chain
    have hnext : ∀ p ∈ qs.head?, Valid (caches.answer c q).2 p.1 := by
      intro p hp
      exact hv'.extends (hchain.1 p.1 (by rw [List.head?_map, hp]; rfl))
    rw [ChainInfoCaches.run, List.map_cons, hr,
      run_eq_cached qs _ hnext hchain.2 (fun p hp => hnum p (List.mem_cons_of_mem _ hp))]

end Answer

end ChainInfoCaches

/-- The check against the highest finalized block only hides what a provider reports above
it. -/
theorem ask_cached {c : C} (hc : FinalizedBelowHighest c) (q : Query) :
    q.ask (CachedChainInfoProvider.mk c) = q.ask c := by
  cases q with
  | getFinalizedAt number =>
    change Answer.getFinalizedAt (CachedChainInfoProvider.getFinalizedAt ⟨c⟩ number) =
      Answer.getFinalizedAt (ChainInfoProvider.getFinalizedAt c number)
    unfold CachedChainInfoProvider.getFinalizedAt
    split_ifs with hlt
    · cases hf : ChainInfoProvider.getFinalizedAt c number with
      | none => rfl
      | some b => exact absurd (hc number b hf) (Nat.not_le.mpr hlt)
    · rfl
  | _ => rfl

/-! ## Walking down to an aux-finalized block's ancestor -/

/-- `b` is reached from `a` down parent links that `c` reports, each one block lower. -/
inductive KnownAncestor (c : C) : BlockId → BlockId → Prop
  | refl (a : BlockId) : KnownAncestor c a a
  | parent {a b : BlockId} {hash : Nat} : 0 < a.number →
      ChainInfoProvider.getParentHash c a = some hash → KnownAncestor c ⟨hash, a.number - 1⟩ b →
      KnownAncestor c a b

theorem KnownAncestor.number_le {c : C} {a b : BlockId} (h : KnownAncestor c a b) :
    b.number ≤ a.number := by
  induction h with
  | refl => exact Nat.le_refl _
  | parent ha _ _ ih =>
    change _ ≤ _ - 1 at ih
    omega

/-- The walk down `k` parent links from a block at least `k` high ends exactly at its known
ancestor `k` blocks lower. -/
theorem walkDown_eq_some_iff (c : C) : ∀ (k : Nat) (a b : BlockId), k ≤ a.number →
    (AuxFinalizationChainInfoProvider.walkDown c k a = some b ↔
      KnownAncestor c a b ∧ b.number + k = a.number)
  | 0, a, b, _ => by
    constructor
    · intro h
      cases h
      exact ⟨.refl a, rfl⟩
    · rintro ⟨h, hn⟩
      cases h with
      | refl => rfl
      | parent _ _ hrest =>
        have := hrest.number_le
        change _ ≤ _ - 1 at this
        omega
  | k + 1, a, b, hk => by
    unfold AuxFinalizationChainInfoProvider.walkDown
    cases hp : ChainInfoProvider.getParentHash c a with
    | none =>
      constructor
      · intro h
        simp at h
      · rintro ⟨h, hn⟩
        cases h with
        | refl => omega
        | parent _ hp' _ =>
          rw [hp] at hp'
          cases hp'
    | some hash =>
      dsimp only
      rw [walkDown_eq_some_iff c k _ b (by change k ≤ a.number - 1; omega)]
      constructor
      · rintro ⟨h, hn⟩
        change _ = a.number - 1 at hn
        exact ⟨.parent (by omega) hp h, by omega⟩
      · rintro ⟨h, hn⟩
        cases h with
        | refl => omega
        | parent _ hp' hrest =>
          rw [hp] at hp'
          cases hp'
          refine ⟨hrest, ?_⟩
          change _ = a.number - 1
          omega

/-- For the numbers between the provider's highest finalized block and the aux-finalized one,
`get_finalized_at` gives the aux-finalized block's ancestor at that number, when the provider
knows the parent links down to it, and fails otherwise. -/
theorem auxFinalization_getFinalizedAt_iff (aux : AuxFinalizationChainInfoProvider C) {num : Nat}
    (hlo : (ChainInfoProvider.getHighestFinalized aux.chainInfoProvider).number < num)
    (hhi : num ≤ aux.auxFinalized.number) (b : BlockId) :
    aux.getFinalizedAt num = some b ↔
      KnownAncestor aux.chainInfoProvider aux.auxFinalized b ∧ b.number = num := by
  unfold AuxFinalizationChainInfoProvider.getFinalizedAt
  dsimp only
  rw [if_neg (Nat.not_le.mpr hlo), if_neg (Nat.not_lt.mpr hhi),
    walkDown_eq_some_iff _ _ _ _ (Nat.sub_le _ _)]
  constructor
  · rintro ⟨h, hn⟩
    exact ⟨h, by omega⟩
  · rintro ⟨h, hn⟩
    exact ⟨h, by omega⟩

/-- Over a chain that only grows, the cached provider answers every sequence of queries, for
every cache capacity, as the provider behind it answers at the same moments, when that provider
reports finalized blocks only at the number asked and never above its highest finalized block;
and the aux-finalization layer gives, for a number above the provider's highest finalized block
and at most the aux-finalized one, exactly the aux-finalized block's ancestor at that number,
when the provider knows the parent links down to it. -/
theorem cached_answers_as_provider [LruCache.Ops BlockId Nat] [LruCache.Ops BlockId Unit]
    [LruCache.Ops Nat Nat] (blockCacheCapacity : Nat) (qs : List (C × Query))
    (hmono : (qs.map Prod.fst).IsChain Extends)
    (hwf : ∀ p ∈ qs, FinalizedBelowHighest p.1 ∧ FinalizedAtNumber p.1) :
    (ChainInfoCaches.new blockCacheCapacity).run qs = qs.map (fun p => p.2.ask p.1) ∧
    ∀ (aux : AuxFinalizationChainInfoProvider C) (num : Nat) (b : BlockId),
      (ChainInfoProvider.getHighestFinalized aux.chainInfoProvider).number < num →
      num ≤ aux.auxFinalized.number →
      (ChainInfoProvider.getFinalizedAt aux num = some b ↔
        KnownAncestor aux.chainInfoProvider aux.auxFinalized b ∧ b.number = num) := by
  refine ⟨?_, fun aux num b hlo hhi => auxFinalization_getFinalizedAt_iff aux hlo hhi b⟩
  rw [ChainInfoCaches.run_eq_cached qs _ (fun p _ => ChainInfoCaches.valid_new _ p.1) hmono
    (fun p hp => (hwf p hp).2)]
  exact List.map_congr_left fun p hp => ask_cached (hwf p hp).1 p.2

theorem lineClient_finalizedAtNumber (top fin : Nat) :
    FinalizedAtNumber (SubstrateChainInfoProvider.mk (lineClient top fin)) := by
  intro n b h
  change SubstrateChainInfoProvider.getFinalizedAt _ n = some b at h
  simp only [SubstrateChainInfoProvider.getFinalizedAt, lineClient] at h
  split_ifs at h
  cases h
  rfl

/-- The chain of blocks 0 to 3 with the genesis finalized: a block asked twice, and block 2 from
the aux-finalized block 3. -/
theorem cached_answers_as_provider_on_line :
    ([(SubstrateChainInfoProvider.mk (lineClient 3 0), Query.getFinalizedAt 0),
        (SubstrateChainInfoProvider.mk (lineClient 3 0), Query.getFinalizedAt 0)].map
      Prod.fst).IsChain Extends ∧
    (ChainInfoCaches.new 1).run
      [(SubstrateChainInfoProvider.mk (lineClient 3 0), Query.getFinalizedAt 0),
        (SubstrateChainInfoProvider.mk (lineClient 3 0), Query.getFinalizedAt 0)] =
      [Answer.getFinalizedAt (some ⟨0, 0⟩), Answer.getFinalizedAt (some ⟨0, 0⟩)] ∧
    (ChainInfoProvider.getFinalizedAt
        (AuxFinalizationChainInfoProvider.mk ⟨3, 3⟩ (SubstrateChainInfoProvider.mk (lineClient 3 0)))
        2 = some ⟨2, 2⟩ ↔
      KnownAncestor (SubstrateChainInfoProvider.mk (lineClient 3 0)) ⟨3, 3⟩ ⟨2, 2⟩ ∧
        (⟨2, 2⟩ : BlockId).number = 2) := by
  have hmono : ([(SubstrateChainInfoProvider.mk (lineClient 3 0), Query.getFinalizedAt 0),
      (SubstrateChainInfoProvider.mk (lineClient 3 0), Query.getFinalizedAt 0)].map
        Prod.fst).IsChain Extends :=
    List.isChain_cons.mpr ⟨fun _ hy => by cases hy; exact Extends.refl _,
      List.isChain_singleton _⟩
  have hwf : ∀ p ∈ [(SubstrateChainInfoProvider.mk (lineClient 3 0), Query.getFinalizedAt 0),
      (SubstrateChainInfoProvider.mk (lineClient 3 0), Query.getFinalizedAt 0)],
      FinalizedBelowHighest p.1 ∧ FinalizedAtNumber p.1 := by
    intro p hp
    simp only [List.mem_cons, List.not_mem_nil, or_false, or_self] at hp
    subst hp
    exact ⟨lineClient_finalizedBelowHighest 3 0, lineClient_finalizedAtNumber 3 0⟩
  obtain ⟨hrun, haux⟩ := cached_answers_as_provider 1 _ hmono hwf
  refine ⟨hmono, hrun.trans rfl, haux _ 2 ⟨2, 2⟩ (by decide) (by decide)⟩

/-- Both conditions are needed, over a chain that does not change: a client that reports every
block finalized while its highest finalized block is the genesis is hidden above it, and one that
reports block 3 as the finalized block at 5 comes back from the cache as a block at 5. -/
theorem cached_answers_differ :
    let early : SubstrateChainInfoProvider ChainHeader Unit :=
      ⟨⟨fun _ => .ok none, fun n => .ok (some ⟨n⟩), ⟨0, 0⟩⟩⟩
    let shifted : SubstrateChainInfoProvider ChainHeader Unit :=
      ⟨⟨fun _ => .ok none, fun _ => .ok (some ⟨3⟩), ⟨9, 9⟩⟩⟩
    ([early].IsChain Extends ∧
      (ChainInfoCaches.new 1).run [(early, Query.getFinalizedAt 5)] ≠
        [(Query.getFinalizedAt 5).ask early]) ∧
    ([shifted, shifted].IsChain Extends ∧
      (ChainInfoCaches.new 1).run [(shifted, Query.getFinalizedAt 5), (shifted, Query.getFinalizedAt 5)] ≠
        [(Query.getFinalizedAt 5).ask shifted, (Query.getFinalizedAt 5).ask shifted]) := by
  intro early shifted
  refine ⟨⟨List.isChain_singleton _, by decide⟩,
    ⟨List.isChain_cons.mpr ⟨fun _ hy => by cases hy; exact Extends.refl _, List.isChain_singleton _⟩,
      by decide⟩⟩

end Selendra.DataIo
