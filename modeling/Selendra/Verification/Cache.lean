import Selendra.Block.Basic
import Selendra.Session.Basic
import Selendra.Collections.HashSet

/-! # The verifier cache

`VerifierCache` of `block/substrate/verification/cache.rs`: the session verifiers and Aura
authorities of a window of at most `cache_size` sessions, and the headers verified so far
by `(session, slot)`, from which it detects equivocations.

What the cache reads from the node at the moment of a call, the finalized number and the
authority and session-block providers, is a `CacheEnv`. The Aura code it calls is part of the
environment too: `check_header_slot_and_seal` at the current system time, which gives the slot
of the header or an error and hands back the header unchanged (the seal it strips is pushed
back), and `slot_author`, whose documented round robin is a hypothesis
(`CacheEnv.AuraRoundRobin`) where a result needs it. The session verifier and its
`verify_bytes` are parameters.

Session numbers are `u32` in the code and `Nat` values here, with the `u32` operations of
`try_prune` and `get_data` as the code has them: saturating additions and subtractions, the
saturated `usize` cache size, and a wrapping `+ 1` (the release build has no overflow
checks). -/

namespace Selendra.Verification

/-- Ways in which the cache fails to give the data of a session. -/
inductive CacheError
  | unknownAuthorities (session : SessionId)
  | unknownAuraAuthorities (session : SessionId)
  | sessionTooOld (session lowerBound : SessionId)
  | sessionInFuture (session upperBound : SessionId)
  | badGenesisHeader
deriving DecidableEq, Repr

/-- Ways in which a header fails verification; the pre-digest lookup error of Aura is not
looked into. -/
inductive HeaderVerificationError
  | preDigestLookupError
  | headerTooNew (slot : Nat)
  | incorrectGenesis
  | missingSeal
  | incorrectSeal
  | missingAuthorityData
  | incorrectAuthority
deriving DecidableEq, Repr

/-- Ways in which a justification can be wrong. -/
inductive SessionVerificationError
  | badMultisignature
  | badEmergencySignature
  | noEmergencySigner
deriving DecidableEq, Repr

inductive VerificationError
  | verification (e : SessionVerificationError)
  | cache (e : CacheError)
  | headerVerification (e : HeaderVerificationError)
deriving DecidableEq, Repr

/-- Equivocations only happen per time slot and session. -/
abbrev SessionSlot := SessionId × Nat

/-- Two headers by one author for one slot of one session. -/
structure EquivocationProof (H Au Acc : Type) where
  headerA : H
  headerB : H
  author : Au
  accountId : Option Acc
  areWeEquivocating : Bool
deriving DecidableEq, Repr

/-- A header that passed verification, with the equivocation it revealed if any. -/
structure VerifiedHeader (H P : Type) where
  header : H
  maybeEquivocationProof : Option P
deriving DecidableEq, Repr

/-- What the cache keeps of one session. -/
structure CachedData (V Au Acc : Type) where
  sessionVerifier : V
  auraAuthorities : List Au
  authorityAccounts : Option (List Acc)
deriving DecidableEq, Repr

/-- What a call reads from the node: `FinalizationInfo`, `AuthorityProvider` (the
authority data already converted into session verifiers), `FinalizedBlocksProvider`, and
the Aura seal check at the time of the call. -/
structure CacheEnv (H V Au Acc : Type) where
  finalizedNumber : Nat
  authorityData : Nat → Option V
  auraAuthorities : Nat → Option (List Au)
  nextAuthorityData : Nat → Option V
  nextAuraAuthorities : Nat → Option (List (Acc × Au))
  availableFinalizedBlock : SessionId → Option Nat
  checkHeaderSlotAndSeal : H → List Au → Except HeaderVerificationError Nat
  auraSlotAuthor : Nat → List Au → Option Au

variable {H V Au Acc : Type}

/-- The data of session 0 is read at the genesis block; that of a later session is what the
finalized block of the previous session announces for the next one. -/
def downloadData (env : CacheEnv H V Au Acc) (sessionId : SessionId) :
    Except CacheError (CachedData V Au Acc) :=
  match sessionId with
  | ⟨0⟩ => do
    let sessionVerifier ← (env.authorityData 0).elim (.error (.unknownAuthorities sessionId)) .ok
    let auraAuthorities ←
      (env.auraAuthorities 0).elim (.error (.unknownAuraAuthorities sessionId)) .ok
    pure ⟨sessionVerifier, auraAuthorities, none⟩
  | ⟨id + 1⟩ => do
    let previousSession : SessionId := ⟨id⟩
    let finalizedBlockFromPreviousSession ← (env.availableFinalizedBlock previousSession).elim
      (.error (.unknownAuthorities sessionId)) .ok
    let authorityData ← (env.nextAuthorityData finalizedBlockFromPreviousSession).elim
      (.error (.unknownAuthorities sessionId)) .ok
    let accountsAndAuthorities ← (env.nextAuraAuthorities finalizedBlockFromPreviousSession).elim
      (.error (.unknownAuraAuthorities sessionId)) .ok
    let (authorityAccounts, auraAuthorities) := accountsAndAuthorities.unzip
    pure ⟨authorityData, auraAuthorities, some authorityAccounts⟩

/-- `u32::MAX`. -/
def u32Max : Nat := 2 ^ 32 - 1

/-- `u32::saturating_add`. -/
def u32SaturatingAdd (a b : Nat) : Nat := min (a + b) u32Max

/-- `usize::saturated_into::<u32>`. -/
def saturatedIntoU32 (a : Nat) : Nat := min a u32Max

/-- A `u32` addition, which wraps in a release build. -/
def u32WrappingAdd (a b : Nat) : Nat := (a + b) % 2 ^ 32

/-- The cache's state. `lowerBound` is the lowest currently available session. -/
structure VerifierCache (H V Au Acc : Type) where
  cachedData : AList (fun _ : SessionId => CachedData V Au Acc)
  equivocationCache : AList (fun _ : SessionSlot => H × Bool)
  ownBlocksCache : HashSet BlockId
  sessionInfo : SessionBoundaryInfo
  cacheSize : Nat
  lowerBound : SessionId
  genesisHeader : H

namespace VerifierCache

def new (sessionInfo : SessionBoundaryInfo) (cacheSize : Nat) (genesisHeader : H) :
    VerifierCache H V Au Acc :=
  ⟨∅, ∅, ∅, sessionInfo, cacheSize, ⟨0⟩, genesisHeader⟩

/-- The ids of the headers flagged as our own, as `try_prune` collects them. -/
def ownBlocks [Header H] (equivocationCache : AList (fun _ : SessionSlot => H × Bool)) :
    HashSet BlockId :=
  HashSet.ofList (equivocationCache.entries.filterMap fun e =>
    match e.2.2 with
    | true => some (Header.id e.2.1)
    | false => none)

/-- Prune old session data if necessary. -/
def tryPrune [Header H] (s : VerifierCache H V Au Acc) (sessionId : SessionId) :
    VerifierCache H V Au Acc :=
  if u32SaturatingAdd s.lowerBound.n (saturatedIntoU32 s.cacheSize) ≤ sessionId.n then
    -- `saturating_sub` is the subtraction of `Nat`
    let newLowerBound : SessionId :=
      ⟨u32WrappingAdd (sessionId.n - saturatedIntoU32 s.cacheSize) 1⟩
    let cachedData := s.cachedData.retain fun id _ => decide (newLowerBound.n ≤ id.n)
    let lowerBoundBlock := s.sessionInfo.firstBlockOfSession newLowerBound
    let equivocationCache := s.equivocationCache.retain fun _ e =>
      decide (lowerBoundBlock ≤ (Header.id e.1).number)
    { s with
      cachedData := cachedData
      equivocationCache := equivocationCache
      ownBlocksCache := ownBlocks equivocationCache
      lowerBound := newLowerBound }
  else s

def sessionIdFromBlockNum (s : VerifierCache H V Au Acc) (number : Nat) : SessionId :=
  s.sessionInfo.sessionIdFromBlockNum number

/-- The data of a session, downloaded if it is not cached. The pruning happens before the
download, so a failed download still moves the window. -/
def getData [Header H] (env : CacheEnv H V Au Acc) (s : VerifierCache H V Au Acc)
    (sessionId : SessionId) : Except CacheError (CachedData V Au Acc) × VerifierCache H V Au Acc :=
  if sessionId.n < s.lowerBound.n then (.error (.sessionTooOld sessionId s.lowerBound), s)
  else
    -- We are sure about authorities in all sessions that have the first block of the
    -- previous session finalized.
    let upperBound : SessionId := ⟨u32WrappingAdd (s.sessionIdFromBlockNum env.finalizedNumber).n 1⟩
    if upperBound.n < sessionId.n then (.error (.sessionInFuture sessionId upperBound), s)
    else
      let s := s.tryPrune sessionId
      match s.cachedData.lookup sessionId with
      | some data => (.ok data, s)
      | none =>
        match downloadData env sessionId with
        | .error e => (.error e, s)
        | .ok data => (.ok data, { s with cachedData := s.cachedData.insert sessionId data })

/-- The session verifier for a block number; must be called with the number of the
verified block. -/
def getVerifier [Header H] (env : CacheEnv H V Au Acc) (s : VerifierCache H V Au Acc)
    (number : Nat) : Except CacheError V × VerifierCache H V Au Acc :=
  let (data, s) := s.getData env (s.sessionIdFromBlockNum number)
  (data.map CachedData.sessionVerifier, s)

def getAuraAuthorities [Header H] (env : CacheEnv H V Au Acc) (s : VerifierCache H V Au Acc)
    (sessionId : SessionId) : Except CacheError (CachedData V Au Acc) × VerifierCache H V Au Acc :=
  s.getData env sessionId

end VerifierCache

/-- What Aura documents of its `slot_author`: the authorities take the slots round robin. -/
def CacheEnv.AuraRoundRobin (env : CacheEnv H V Au Acc) : Prop :=
  ∀ slot authorities, env.auraSlotAuthor slot authorities = authorities[slot % authorities.length]?

/-- The author of a slot and, for sessions after the first, its account. -/
def slotAuthor [DecidableEq Au] (auraSlotAuthor : Nat → List Au → Option Au) (slot : Nat)
    (auraAuthorities : List Au) (authorityAccounts : Option (List Acc)) :
    Option (Au × Option Acc) := do
  let expectedAuthor ← auraSlotAuthor slot auraAuthorities
  match authorityAccounts with
  | none => some (expectedAuthor, none)
  | some authorityAccounts =>
    let idx := slot % auraAuthorities.length
    -- safety check in case something has changed for Aura
    let author ← auraAuthorities[idx]?
    if expectedAuthor ≠ author then none
    else (authorityAccounts[idx]?).map fun accountId => (expectedAuthor, some accountId)

/-- Under Aura's round robin the safety check never fails: the author is the authority at the
slot's index, with the account at that index for the sessions after the first. -/
theorem slotAuthor_of_roundRobin [DecidableEq Au] {env : CacheEnv H V Au Acc}
    (h : env.AuraRoundRobin) (slot : Nat) (auraAuthorities : List Au)
    (authorityAccounts : Option (List Acc)) :
    slotAuthor env.auraSlotAuthor slot auraAuthorities authorityAccounts =
      (auraAuthorities[slot % auraAuthorities.length]?).bind fun author =>
        match authorityAccounts with
        | none => some (author, none)
        | some accounts =>
          (accounts[slot % auraAuthorities.length]?).map fun accountId => (author, some accountId) := by
  unfold slotAuthor
  rw [h]
  -- the safety check reads the authority the round robin gave
  cases hauthor : auraAuthorities[slot % auraAuthorities.length]? with
  | none => rfl
  | some author =>
    cases authorityAccounts with
    | none => rfl
    | some accounts => simp [hauthor]

namespace VerifierCache

variable [Header H]

/-- Remember a header at its session and slot, with the flag saying it is certainly ours;
both branches of `check_for_equivocation` that accept the header end so. -/
def rememberHeader (s : VerifierCache H V Au Acc) (sessionSlot : SessionSlot) (header : H)
    (certainlyOwn : Bool) : VerifierCache H V Au Acc :=
  let s := { s with equivocationCache := s.equivocationCache.insert sessionSlot (header, certainlyOwn) }
  if certainlyOwn then { s with ownBlocksCache := s.ownBlocksCache.insert (Header.id header) } else s

/-- `check_for_equivocation`; it never fails, so its result is the `Ok` value. -/
def checkForEquivocation [DecidableEq H] (s : VerifierCache H V Au Acc) (header : H)
    (sessionSlot : SessionSlot) (author : Au) (maybeAccountId : Option Acc) (justCreated : Bool) :
    Option (EquivocationProof H Au Acc) × VerifierCache H V Au Acc :=
  match s.equivocationCache.lookup sessionSlot with
  | some (cachedHeader, certainlyOwn) =>
    if cachedHeader = header then (none, s.rememberHeader sessionSlot header (certainlyOwn || justCreated))
    else (some ⟨cachedHeader, header, author, maybeAccountId, certainlyOwn || justCreated⟩, s)
  | none => (none, s.rememberHeader sessionSlot header justCreated)

/-- The part of `verify_header` before `check_for_equivocation`: the authorities of the
session of the parent (Aura stores them there), the seal, and the slot's author. -/
def headerSessionSlot [DecidableEq Au] (env : CacheEnv H V Au Acc) (s : VerifierCache H V Au Acc)
    (header : H) (sessionId : SessionId) :
    Except HeaderVerificationError (SessionSlot × Au × Option Acc) × VerifierCache H V Au Acc :=
  match s.getAuraAuthorities env sessionId with
  | (.error _, s) => (.error .missingAuthorityData, s)
  | (.ok authorities, s) =>
    match env.checkHeaderSlotAndSeal header authorities.auraAuthorities with
    | .error e => (.error e, s)
    | .ok slot =>
      match slotAuthor env.auraSlotAuthor slot authorities.auraAuthorities
          authorities.authorityAccounts with
      | none => (.error .missingAuthorityData, s)
      | some (expectedAuthor, maybeAccountId) => (.ok ((sessionId, slot), expectedAuthor, maybeAccountId), s)

def verifyHeader [DecidableEq H] [DecidableEq Au] (env : CacheEnv H V Au Acc)
    (s : VerifierCache H V Au Acc) (header : H) (justCreated : Bool) :
    Except VerificationError (VerifiedHeader H (EquivocationProof H Au Acc)) ×
      VerifierCache H V Au Acc :=
  let parentNumber := (Header.id header).number - 1
  if (Header.id header).number = parentNumber then
    -- compare the genesis header directly to the one we know
    (if header = s.genesisHeader then .ok ⟨header, none⟩
      else .error (.headerVerification .incorrectGenesis), s)
  else
    match s.headerSessionSlot env header (s.sessionIdFromBlockNum parentNumber) with
    | (.error e, s) => (.error (.headerVerification e), s)
    | (.ok (sessionSlot, expectedAuthor, maybeAccountId), s) =>
      let (maybeEquivocationProof, s) :=
        s.checkForEquivocation header sessionSlot expectedAuthor maybeAccountId justCreated
      (.ok ⟨header, maybeEquivocationProof⟩, s)

/-- `verify_justification` with the session verifier's `verify_bytes`, which checks a
justification against the encoded hash of the header. -/
def verifyJustification {A : Type} [DecidableEq H]
    (verifyBytes : V → A → Nat → Except SessionVerificationError Unit)
    (env : CacheEnv H V Au Acc) (s : VerifierCache H V Au Acc)
    (justification : SubstrateJustification H A) :
    Except VerificationError (SubstrateJustification H A) × VerifierCache H V Au Acc :=
  let header := justification.header
  match justification.innerJustification with
  | .alephJustification alephJustification =>
    match s.getVerifier env (Header.id header).number with
    | (.error e, s) => (.error (.cache e), s)
    | (.ok verifier, s) =>
      match verifyBytes verifier alephJustification (Header.id header).hash with
      | .error e => (.error (.verification e), s)
      | .ok () => (.ok justification, s)
  | .genesis =>
    (if header = s.genesisHeader then .ok justification else .error (.cache .badGenesisHeader), s)

def ownBlock (s : VerifierCache H V Au Acc) (header : H) : Bool :=
  decide (Header.id header ∈ s.ownBlocksCache)

/-! ## What each operation does to the state -/

theorem mem_ownBlocks {c : AList (fun _ : SessionSlot => H × Bool)} {b : BlockId} :
    b ∈ ownBlocks c ↔ ∃ k h, c.lookup k = some (h, true) ∧ Header.id h = b := by
  simp only [ownBlocks, HashSet.mem_ofList, List.mem_filterMap]
  constructor
  · rintro ⟨⟨k, h, own⟩, he, hb⟩
    cases own with
    | false => cases hb
    | true => exact ⟨k, h, AList.mem_lookup_iff.mpr he, Option.some.inj hb⟩
  · rintro ⟨k, h, hk, rfl⟩
    exact ⟨⟨k, h, true⟩, AList.mem_lookup_iff.mp hk, rfl⟩

variable {s : VerifierCache H V Au Acc} {sessionId : SessionId}

@[simp] theorem cacheSize_tryPrune : (s.tryPrune sessionId).cacheSize = s.cacheSize := by
  unfold tryPrune; split <;> rfl

@[simp] theorem sessionInfo_tryPrune : (s.tryPrune sessionId).sessionInfo = s.sessionInfo := by
  unfold tryPrune; split <;> rfl

@[simp] theorem genesisHeader_tryPrune :
    (s.tryPrune sessionId).genesisHeader = s.genesisHeader := by
  unfold tryPrune; split <;> rfl

theorem tryPrune_of_lt
    (h : sessionId.n < u32SaturatingAdd s.lowerBound.n (saturatedIntoU32 s.cacheSize)) :
    s.tryPrune sessionId = s :=
  if_neg (Nat.not_le_of_lt h)

/-- What a prune keeps: the sessions from the new lower bound on, and the headers from its
first block on. -/
theorem tryPrune_of_le
    (h : u32SaturatingAdd s.lowerBound.n (saturatedIntoU32 s.cacheSize) ≤ sessionId.n) :
    (s.tryPrune sessionId).lowerBound =
      ⟨u32WrappingAdd (sessionId.n - saturatedIntoU32 s.cacheSize) 1⟩ ∧
    (∀ k, k ∈ (s.tryPrune sessionId).cachedData ↔
      k ∈ s.cachedData ∧ u32WrappingAdd (sessionId.n - saturatedIntoU32 s.cacheSize) 1 ≤ k.n) ∧
    (∀ k, (s.tryPrune sessionId).equivocationCache.lookup k =
      (s.equivocationCache.lookup k).filter fun e => decide
        (s.sessionInfo.firstBlockOfSession
          ⟨u32WrappingAdd (sessionId.n - saturatedIntoU32 s.cacheSize) 1⟩ ≤
            (Header.id e.1).number)) ∧
    (s.tryPrune sessionId).ownBlocksCache = ownBlocks (s.tryPrune sessionId).equivocationCache := by
  unfold tryPrune
  rw [if_pos h]
  refine ⟨rfl, fun k => ?_, fun k => AList.lookup_retain _ _ _, rfl⟩
  rw [AList.mem_retain, AList.mem_iff_lookup]
  simp only [decide_eq_true_eq, exists_and_right]

/-- The lower bound stays, with the session inside the window, or moves up to the lowest
session that keeps it inside. -/
theorem lowerBound_tryPrune (sessionId : SessionId) :
    (s.tryPrune sessionId).lowerBound = s.lowerBound ∧
      sessionId.n < u32SaturatingAdd s.lowerBound.n (saturatedIntoU32 s.cacheSize) ∨
    u32SaturatingAdd s.lowerBound.n (saturatedIntoU32 s.cacheSize) ≤ sessionId.n ∧
      (s.tryPrune sessionId).lowerBound =
        ⟨u32WrappingAdd (sessionId.n - saturatedIntoU32 s.cacheSize) 1⟩ := by
  by_cases h : u32SaturatingAdd s.lowerBound.n (saturatedIntoU32 s.cacheSize) ≤ sessionId.n
  · exact .inr ⟨h, (tryPrune_of_le h).1⟩
  · exact .inl ⟨by rw [tryPrune_of_lt (Nat.lt_of_not_le h)], Nat.lt_of_not_le h⟩

/-- The arithmetic of a prune at a `u32` session, from a window that fits in `u32`: no `u32`
operation wraps, the new lower bound lies between the old one and the session, and the
window from it holds the session and still fits. -/
theorem prune_bounds {lowerBound cacheSize sessionId : Nat} (hsize : 1 ≤ cacheSize)
    (hsession : sessionId < 2 ^ 32) (hfit : lowerBound + saturatedIntoU32 cacheSize ≤ 2 ^ 32)
    (hle : u32SaturatingAdd lowerBound (saturatedIntoU32 cacheSize) ≤ sessionId) :
    lowerBound ≤ u32WrappingAdd (sessionId - saturatedIntoU32 cacheSize) 1 ∧
    u32WrappingAdd (sessionId - saturatedIntoU32 cacheSize) 1 ≤ sessionId ∧
    sessionId < u32WrappingAdd (sessionId - saturatedIntoU32 cacheSize) 1 +
      saturatedIntoU32 cacheSize ∧
    u32WrappingAdd (sessionId - saturatedIntoU32 cacheSize) 1 + saturatedIntoU32 cacheSize ≤
      2 ^ 32 := by
  unfold u32WrappingAdd u32SaturatingAdd saturatedIntoU32 u32Max at *
  omega

variable (env : CacheEnv H V Au Acc)

/-- `get_data` changes nothing when it fails its bounds, and otherwise prunes and may add
the session's data. -/
theorem getData_state (sessionId : SessionId) :
    (s.getData env sessionId).2 = s ∨ s.lowerBound.n ≤ sessionId.n ∧
      ((s.getData env sessionId).2 = s.tryPrune sessionId ∨
        ∃ d, (s.getData env sessionId).2 =
          { s.tryPrune sessionId with
            cachedData := (s.tryPrune sessionId).cachedData.insert sessionId d }) := by
  unfold getData
  split_ifs with hold
  · exact .inl rfl
  · dsimp only
    split_ifs
    · exact .inl rfl
    · refine .inr ⟨Nat.le_of_not_lt hold, ?_⟩
      split
      · exact .inl rfl
      · split
        · exact .inl rfl
        · exact .inr ⟨_, rfl⟩

theorem getData_ok {d : CachedData V Au Acc} (h : (s.getData env sessionId).1 = .ok d) :
    s.lowerBound.n ≤ sessionId.n := by
  unfold getData at h
  by_contra hlt
  rw [if_pos (Nat.lt_of_not_le hlt)] at h
  cases h

@[simp] theorem cacheSize_getData : (s.getData env sessionId).2.cacheSize = s.cacheSize := by
  rcases getData_state (s := s) env sessionId with h | ⟨-, h | ⟨d, h⟩⟩ <;>
    rw [h] <;> simp

@[simp] theorem sessionInfo_getData : (s.getData env sessionId).2.sessionInfo = s.sessionInfo := by
  rcases getData_state (s := s) env sessionId with h | ⟨-, h | ⟨d, h⟩⟩ <;>
    rw [h] <;> simp

@[simp] theorem genesisHeader_getData :
    (s.getData env sessionId).2.genesisHeader = s.genesisHeader := by
  rcases getData_state (s := s) env sessionId with h | ⟨-, h | ⟨d, h⟩⟩ <;>
    rw [h] <;> simp

theorem lowerBound_getData (sessionId : SessionId) :
    (s.getData env sessionId).2.lowerBound = s.lowerBound ∨
      (s.getData env sessionId).2.lowerBound = (s.tryPrune sessionId).lowerBound := by
  rcases getData_state (s := s) env sessionId with h | ⟨-, h | ⟨d, h⟩⟩ <;>
    rw [h] <;> simp

variable {env}

/-- After a successful `get_data` the session is not below the window. -/
theorem lowerBound_getData_le_of_ok (hsize : 1 ≤ s.cacheSize) {d : CachedData V Au Acc}
    (h : (s.getData env sessionId).1 = .ok d) :
    (s.getData env sessionId).2.lowerBound.n ≤ sessionId.n := by
  have hlow := getData_ok env h
  rcases lowerBound_getData (s := s) env sessionId with hl | hl <;> rw [hl]
  · exact hlow
  · rcases lowerBound_tryPrune (s := s) sessionId with ⟨hp, -⟩ | ⟨hle, hp⟩ <;> rw [hp]
    · exact hlow
    · -- the session is at least the window above the old lower bound, so no wrap
      have hmod := Nat.mod_le (sessionId.n - saturatedIntoU32 s.cacheSize + 1) (2 ^ 32)
      show u32WrappingAdd (sessionId.n - saturatedIntoU32 s.cacheSize) 1 ≤ sessionId.n
      unfold u32WrappingAdd u32SaturatingAdd saturatedIntoU32 u32Max at *
      omega

@[simp] theorem cachedData_rememberHeader (k : SessionSlot) (header : H) (flag : Bool) :
    (s.rememberHeader k header flag).cachedData = s.cachedData := by
  unfold rememberHeader; cases flag <;> rfl

@[simp] theorem lowerBound_rememberHeader (k : SessionSlot) (header : H) (flag : Bool) :
    (s.rememberHeader k header flag).lowerBound = s.lowerBound := by
  unfold rememberHeader; cases flag <;> rfl

@[simp] theorem cacheSize_rememberHeader (k : SessionSlot) (header : H) (flag : Bool) :
    (s.rememberHeader k header flag).cacheSize = s.cacheSize := by
  unfold rememberHeader; cases flag <;> rfl

@[simp] theorem sessionInfo_rememberHeader (k : SessionSlot) (header : H) (flag : Bool) :
    (s.rememberHeader k header flag).sessionInfo = s.sessionInfo := by
  unfold rememberHeader; cases flag <;> rfl

@[simp] theorem genesisHeader_rememberHeader (k : SessionSlot) (header : H) (flag : Bool) :
    (s.rememberHeader k header flag).genesisHeader = s.genesisHeader := by
  unfold rememberHeader; cases flag <;> rfl

@[simp] theorem equivocationCache_rememberHeader (k : SessionSlot) (header : H) (flag : Bool) :
    (s.rememberHeader k header flag).equivocationCache = s.equivocationCache.insert k (header, flag) := by
  unfold rememberHeader; cases flag <;> rfl

@[simp] theorem mem_ownBlocksCache_rememberHeader {k : SessionSlot} {header : H} {flag : Bool}
    {b : BlockId} : b ∈ (s.rememberHeader k header flag).ownBlocksCache ↔
      (flag = true ∧ b = Header.id header) ∨ b ∈ s.ownBlocksCache := by
  unfold rememberHeader
  cases flag <;> simp

/-- The three ways `check_for_equivocation` ends: the header is the one remembered for its
slot, another header is remembered there, or none is. -/
theorem checkForEquivocation_cases [DecidableEq H] (header : H) (k : SessionSlot) (author : Au)
    (maybeAccountId : Option Acc) (justCreated : Bool) :
    (∃ own, s.equivocationCache.lookup k = some (header, own) ∧
      s.checkForEquivocation header k author maybeAccountId justCreated =
        (none, s.rememberHeader k header (own || justCreated))) ∨
    (∃ h own, s.equivocationCache.lookup k = some (h, own) ∧ h ≠ header ∧
      s.checkForEquivocation header k author maybeAccountId justCreated =
        (some ⟨h, header, author, maybeAccountId, own || justCreated⟩, s)) ∨
    (s.equivocationCache.lookup k = none ∧
      s.checkForEquivocation header k author maybeAccountId justCreated =
        (none, s.rememberHeader k header justCreated)) := by
  unfold checkForEquivocation
  cases hk : s.equivocationCache.lookup k with
  | none => exact .inr (.inr ⟨rfl, rfl⟩)
  | some e =>
    obtain ⟨h, own⟩ := e
    by_cases heq : h = header
    · subst heq
      exact .inl ⟨own, rfl, by simp⟩
    · exact .inr (.inl ⟨h, own, rfl, heq, by simp [heq]⟩)

section Frame

variable [DecidableEq H] (header : H) (k : SessionSlot) (author : Au) (maybeAccountId : Option Acc)
  (justCreated : Bool)

/-- `check_for_equivocation` touches the remembered headers only: the state after it is one
that `rememberHeader` gives, or the state before. -/
theorem checkForEquivocation_state :
    (∃ flag, (s.checkForEquivocation header k author maybeAccountId justCreated).2 =
      s.rememberHeader k header flag) ∨
    (s.checkForEquivocation header k author maybeAccountId justCreated).2 = s := by
  rcases checkForEquivocation_cases (s := s) header k author maybeAccountId justCreated with
    ⟨own, -, heq⟩ | ⟨h, own, -, -, heq⟩ | ⟨-, heq⟩ <;> rw [heq]
  · exact .inl ⟨_, rfl⟩
  · exact .inr rfl
  · exact .inl ⟨_, rfl⟩

@[simp] theorem cacheSize_checkForEquivocation :
    (s.checkForEquivocation header k author maybeAccountId justCreated).2.cacheSize = s.cacheSize := by
  rcases checkForEquivocation_state (s := s) header k author maybeAccountId justCreated with
    ⟨flag, h⟩ | h <;> simp [h]

@[simp] theorem sessionInfo_checkForEquivocation :
    (s.checkForEquivocation header k author maybeAccountId justCreated).2.sessionInfo =
      s.sessionInfo := by
  rcases checkForEquivocation_state (s := s) header k author maybeAccountId justCreated with
    ⟨flag, h⟩ | h <;> simp [h]

@[simp] theorem lowerBound_checkForEquivocation :
    (s.checkForEquivocation header k author maybeAccountId justCreated).2.lowerBound =
      s.lowerBound := by
  rcases checkForEquivocation_state (s := s) header k author maybeAccountId justCreated with
    ⟨flag, h⟩ | h <;> simp [h]

end Frame

/-- The header checks before `check_for_equivocation` change the state only through
`get_data`, and give the session they were asked for. -/
theorem headerSessionSlot_spec [DecidableEq Au] (env : CacheEnv H V Au Acc) (sessionId : SessionId)
    (header : H) :
    (s.headerSessionSlot env header sessionId).2 = (s.getData env sessionId).2 ∧
    ∀ k author maybeAccountId,
      (s.headerSessionSlot env header sessionId).1 = .ok (k, author, maybeAccountId) →
        k.1 = sessionId ∧ ∃ d, (s.getData env sessionId).1 = .ok d := by
  unfold headerSessionSlot getAuraAuthorities
  generalize s.getData env sessionId = g
  obtain ⟨r, s'⟩ := g
  cases r with
  | error e => exact ⟨rfl, fun _ _ _ h => by cases h⟩
  | ok d =>
    dsimp only
    split
    · exact ⟨rfl, fun _ _ _ h => by cases h⟩
    · split
      · exact ⟨rfl, fun _ _ _ h => by cases h⟩
      · refine ⟨rfl, fun k _ _ h => ?_⟩
        cases h
        exact ⟨rfl, d, rfl⟩

end VerifierCache

end Selendra.Verification
