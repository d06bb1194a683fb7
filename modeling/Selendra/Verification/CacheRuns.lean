import Selendra.Verification.Cache

/-! # Runs of the verifier cache

The sync and finality code call the cache with `get_verifier`, `verify_header` and
`verify_justification`, each at its own moment and so each with its own `CacheEnv`. A run
keeps, beside the state, a ghost log: the session slot, the header and the `just_created`
flag of every call that reached `check_for_equivocation`. `Inv` ties the state to the log.
It holds after every run from a new cache of size at least one whose block numbers are `u32`
values, and gives the window of cached sessions, the set of own blocks, and what an
equivocation proof says. -/

namespace Selendra.Verification

variable {H V Au Acc A : Type}

inductive CacheCall (H A : Type)
  | getVerifier (number : Nat)
  | verifyHeader (header : H) (justCreated : Bool)
  | verifyJustification (justification : SubstrateJustification H A)

/-- The block number a call reads, a `u32` `BlockNumber` in the code. -/
def CacheCall.blockNumber [Header H] : CacheCall H A → Nat
  | .getVerifier number => number
  | .verifyHeader header _ => (Header.id header).number
  | .verifyJustification justification => (Header.id justification.header).number

/-- What the ghost log records of a call that reached `check_for_equivocation`. -/
abbrev CheckedHeader (H : Type) := SessionSlot × H × Bool

namespace VerifierCache

variable [Header H] [DecidableEq H] [DecidableEq Au]

def step (verifyBytes : V → A → Nat → Except SessionVerificationError Unit)
    (s : VerifierCache H V Au Acc) (env : CacheEnv H V Au Acc) :
    CacheCall H A → VerifierCache H V Au Acc
  | .getVerifier number => (s.getVerifier env number).2
  | .verifyHeader header justCreated => (s.verifyHeader env header justCreated).2
  | .verifyJustification justification => (s.verifyJustification verifyBytes env justification).2

/-- The session slot, header and flag that a call hands to `check_for_equivocation`, if it
gets that far. -/
def checkedCall (s : VerifierCache H V Au Acc) (env : CacheEnv H V Au Acc) :
    CacheCall H A → Option (CheckedHeader H)
  | .verifyHeader header justCreated =>
    let parentNumber := (Header.id header).number - 1
    if (Header.id header).number = parentNumber then none
    else
      match (s.headerSessionSlot env header (s.sessionIdFromBlockNum parentNumber)).1 with
      | .ok (sessionSlot, _, _) => some (sessionSlot, header, justCreated)
      | .error _ => none
  | _ => none

/-- A run: the state after the calls, and the log grown by those that reached
`check_for_equivocation`. -/
def trace (verifyBytes : V → A → Nat → Except SessionVerificationError Unit) :
    VerifierCache H V Au Acc × List (CheckedHeader H) →
      List (CacheEnv H V Au Acc × CacheCall H A) → VerifierCache H V Au Acc × List (CheckedHeader H)
  | st, [] => st
  | (s, log), (env, call) :: calls =>
    trace verifyBytes (s.step verifyBytes env call, log ++ (s.checkedCall env call).toList) calls

/-! ## The state after each call -/

variable {s : VerifierCache H V Au Acc} {env : CacheEnv H V Au Acc}

omit [DecidableEq H] [DecidableEq Au] in
theorem getVerifier_state (number : Nat) :
    (s.getVerifier env number).2 = (s.getData env (s.sessionIdFromBlockNum number)).2 := by
  unfold getVerifier
  generalize s.getData env (s.sessionIdFromBlockNum number) = g
  obtain ⟨r, s'⟩ := g
  rfl

omit [DecidableEq Au] in
theorem verifyJustification_state (env : CacheEnv H V Au Acc)
    (verifyBytes : V → A → Nat → Except SessionVerificationError Unit)
    (justification : SubstrateJustification H A) :
    (s.verifyJustification verifyBytes env justification).2 = s ∨
      (s.verifyJustification verifyBytes env justification).2 =
        (s.getData env (s.sessionIdFromBlockNum (Header.id justification.header).number)).2 := by
  unfold verifyJustification
  dsimp only
  split
  · right
    rw [← getVerifier_state]
    generalize s.getVerifier env (Header.id justification.header).number = g
    obtain ⟨r, s'⟩ := g
    cases r with
    | error e => rfl
    | ok verifier =>
      dsimp only
      split <;> rfl
  · exact .inl rfl

/-- `verify_header` leaves a genesis header's state alone, and otherwise changes it by
`get_data` and, when the header gets that far, by `check_for_equivocation`, as the log says. -/
theorem verifyHeader_state (env : CacheEnv H V Au Acc) (header : H) (justCreated : Bool) :
    (s.verifyHeader env header justCreated).2 = s ∧
      s.checkedCall env (.verifyHeader header justCreated : CacheCall H A) = none ∨
    ∃ sessionId, sessionId = s.sessionIdFromBlockNum ((Header.id header).number - 1) ∧
      ((s.verifyHeader env header justCreated).2 = (s.getData env sessionId).2 ∧
        s.checkedCall env (.verifyHeader header justCreated : CacheCall H A) = none ∨
      ∃ k author maybeAccountId,
        (s.headerSessionSlot env header sessionId).1 = .ok (k, author, maybeAccountId) ∧
        s.checkedCall env (.verifyHeader header justCreated : CacheCall H A) =
          some (k, header, justCreated) ∧
        (s.verifyHeader env header justCreated).2 = ((s.getData env sessionId).2.checkForEquivocation
          header k author maybeAccountId justCreated).2) := by
  unfold verifyHeader checkedCall
  dsimp only
  by_cases hgen : (Header.id header).number = (Header.id header).number - 1
  · rw [if_pos hgen, if_pos hgen]
    exact .inl ⟨rfl, rfl⟩
  · rw [if_neg hgen, if_neg hgen]
    refine .inr ⟨_, rfl, ?_⟩
    have hstate := (headerSessionSlot_spec (s := s) env
      (s.sessionIdFromBlockNum ((Header.id header).number - 1)) header).1
    rcases hg : s.headerSessionSlot env header
      (s.sessionIdFromBlockNum ((Header.id header).number - 1)) with ⟨r, s'⟩
    rw [hg] at hstate
    dsimp only at hstate
    subst hstate
    cases r with
    | error e => exact .inl ⟨rfl, rfl⟩
    | ok x =>
      obtain ⟨k, author, maybeAccountId⟩ := x
      exact .inr ⟨k, author, maybeAccountId, rfl, rfl, rfl⟩

@[simp] theorem cacheSize_step (verifyBytes : V → A → Nat → Except SessionVerificationError Unit)
    (call : CacheCall H A) : (s.step verifyBytes env call).cacheSize = s.cacheSize := by
  cases call with
  | getVerifier number => simp [step, getVerifier_state]
  | verifyHeader header justCreated =>
    rcases verifyHeader_state (A := A) (s := s) env header justCreated with
      ⟨h, -⟩ | ⟨_, -, ⟨h, -⟩ | ⟨k, author, acc, -, -, h⟩⟩ <;> simp [step, h]
  | verifyJustification j =>
    rcases verifyJustification_state (s := s) env verifyBytes j with h | h <;>
      simp [step, h]

@[simp] theorem sessionInfo_step (verifyBytes : V → A → Nat → Except SessionVerificationError Unit)
    (call : CacheCall H A) : (s.step verifyBytes env call).sessionInfo = s.sessionInfo := by
  cases call with
  | getVerifier number => simp [step, getVerifier_state]
  | verifyHeader header justCreated =>
    rcases verifyHeader_state (A := A) (s := s) env header justCreated with
      ⟨h, -⟩ | ⟨_, -, ⟨h, -⟩ | ⟨k, author, acc, -, -, h⟩⟩ <;> simp [step, h]
  | verifyJustification j =>
    rcases verifyJustification_state (s := s) env verifyBytes j with h | h <;>
      simp [step, h]

/-! ## The invariant -/

/-- The flags of the remembered headers say what the log says: a header is flagged as ours
exactly when the log holds a call for it at its slot with `just_created`. -/
def Flagged (s : VerifierCache H V Au Acc) (log : List (CheckedHeader H)) : Prop :=
  ∀ k h own, s.equivocationCache.lookup k = some (h, own) → (own = true ↔ (k, h, true) ∈ log)

/-- The window holds the cached sessions; the own-blocks set is the set of headers flagged as
ours; a remembered header sits at the session of its parent and not below the window, and is
flagged exactly when the log holds a call for it at its slot with `just_created`; every
slot in the log is still remembered, or its session fell below the window. -/
structure Inv (s : VerifierCache H V Au Acc) (log : List (CheckedHeader H)) : Prop where
  window : ∀ k ∈ s.cachedData, s.lowerBound.n ≤ k.n ∧ k.n < s.lowerBound.n + s.cacheSize
  own : ∀ b, b ∈ s.ownBlocksCache ↔
    ∃ k h, s.equivocationCache.lookup k = some (h, true) ∧ Header.id h = b
  session : ∀ k h own, s.equivocationCache.lookup k = some (h, own) →
    k.1 = s.sessionIdFromBlockNum ((Header.id h).number - 1)
  above : ∀ k h own, s.equivocationCache.lookup k = some (h, own) →
    s.sessionInfo.firstBlockOfSession s.lowerBound ≤ (Header.id h).number
  flag : Flagged s log
  logged : ∀ e ∈ log, e.1 ∈ s.equivocationCache ∨ e.1.1.n < s.lowerBound.n
  fit : s.lowerBound.n + saturatedIntoU32 s.cacheSize ≤ 2 ^ 32

omit [DecidableEq H] [DecidableEq Au] in
theorem inv_new (sessionInfo : SessionBoundaryInfo) (cacheSize : Nat) (genesisHeader : H) :
    Inv (new sessionInfo cacheSize genesisHeader : VerifierCache H V Au Acc) [] where
  window k hk := absurd hk (AList.notMem_empty k)
  own b := by simp [new]
  session k h own hk := by simp [new] at hk
  above k h own hk := by simp [new] at hk
  flag k h own hk := by simp [new] at hk
  logged e he := absurd he List.not_mem_nil
  fit := by
    show 0 + min cacheSize u32Max ≤ 2 ^ 32
    unfold u32Max
    omega

section Preservation

variable {log : List (CheckedHeader H)} {sessionId : SessionId}

omit [DecidableEq H] [DecidableEq Au] in
/-- A prune keeps a flag only with its header. -/
theorem Flagged.tryPrune (hf : Flagged s log) (sessionId : SessionId) :
    Flagged (s.tryPrune sessionId) log := by
  by_cases hle : u32SaturatingAdd s.lowerBound.n (saturatedIntoU32 s.cacheSize) ≤ sessionId.n
  · obtain ⟨-, -, hlookup, -⟩ := tryPrune_of_le hle
    intro k h own hk
    rw [hlookup, Option.filter_eq_some_iff] at hk
    exact hf k h own hk.1
  · rw [tryPrune_of_lt (Nat.lt_of_not_le hle)]
    exact hf

omit [DecidableEq H] [DecidableEq Au] in
/-- `get_data` keeps the flags at any session: it only prunes remembered headers. -/
theorem Flagged.getData (hf : Flagged s log) (env : CacheEnv H V Au Acc) (sessionId : SessionId) :
    Flagged (s.getData env sessionId).2 log := by
  rcases getData_state (s := s) env sessionId with h | ⟨-, h | ⟨d, h⟩⟩ <;> rw [h]
  · exact hf
  · exact hf.tryPrune sessionId
  · exact hf.tryPrune sessionId

omit [DecidableEq H] [DecidableEq Au] in
/-- A prune at a `u32` session keeps the invariant: a header it drops lies below the first
block of the new lower bound, so the session of its slot, that of its parent, falls below the
window. -/
theorem Inv.tryPrune (hi : Inv s log) (hsize : 1 ≤ s.cacheSize) (hsession : sessionId.n < 2 ^ 32) :
    Inv (s.tryPrune sessionId) log := by
  by_cases hle : u32SaturatingAdd s.lowerBound.n (saturatedIntoU32 s.cacheSize) ≤ sessionId.n
  · obtain ⟨hlow, hdata, hlookup, hown⟩ := tryPrune_of_le hle
    obtain ⟨hmono, -, -, hfit⟩ := prune_bounds hsize hsession hi.fit hle
    have hkeep : ∀ k h own, (s.tryPrune sessionId).equivocationCache.lookup k = some (h, own) →
        s.equivocationCache.lookup k = some (h, own) ∧ s.sessionInfo.firstBlockOfSession
          ⟨u32WrappingAdd (sessionId.n - saturatedIntoU32 s.cacheSize) 1⟩ ≤
            (Header.id h).number := by
      intro k h own hk
      rw [hlookup, Option.filter_eq_some_iff] at hk
      simpa using hk
    refine ⟨?_, ?_, ?_, ?_, ?_, ?_, ?_⟩
    · intro k hk
      rw [hdata] at hk
      have hwin := hi.window k hk.1
      rw [hlow, cacheSize_tryPrune]
      dsimp only
      exact ⟨hk.2, by omega⟩
    · intro b
      rw [hown, mem_ownBlocks]
    · intro k h own hk
      simpa only [sessionIdFromBlockNum, sessionInfo_tryPrune] using
        hi.session k h own (hkeep k h own hk).1
    · intro k h own hk
      rw [hlow, sessionInfo_tryPrune]
      exact (hkeep k h own hk).2
    · intro k h own hk
      exact hi.flag k h own (hkeep k h own hk).1
    · intro e he
      rw [hlow]
      rcases hi.logged e he with hmem | hlt
      · obtain ⟨⟨h, own⟩, hk⟩ := AList.mem_iff_lookup.mp hmem
        by_cases hab : s.sessionInfo.firstBlockOfSession
            ⟨u32WrappingAdd (sessionId.n - saturatedIntoU32 s.cacheSize) 1⟩ ≤ (Header.id h).number
        · exact .inl (AList.mem_iff_lookup.mpr ⟨(h, own), by rw [hlookup, hk]; simp [hab]⟩)
        · -- the dropped header's parent is below the new lower bound, and so is its slot
          right
          rw [hi.session _ h own hk]
          exact SessionBoundaryInfo.sessionIdFromBlockNum_lt
            (Nat.lt_of_le_of_lt (Nat.sub_le _ _) (Nat.lt_of_not_le hab))
      · right
        show e.1.1.n < u32WrappingAdd (sessionId.n - saturatedIntoU32 s.cacheSize) 1
        omega
    · rw [hlow, cacheSize_tryPrune]
      exact hfit
  · rw [tryPrune_of_lt (Nat.lt_of_not_le hle)]
    exact hi

omit [DecidableEq H] [DecidableEq Au] in
theorem Inv.insertData (hi : Inv s log) (hlow : s.lowerBound.n ≤ sessionId.n)
    (hup : sessionId.n < s.lowerBound.n + s.cacheSize) (d : CachedData V Au Acc) :
    Inv { s with cachedData := s.cachedData.insert sessionId d } log :=
  { hi with
    window := fun k hk => by
      rcases (AList.mem_insert _).mp hk with rfl | hk
      · exact ⟨hlow, hup⟩
      · exact hi.window k hk }

omit [DecidableEq H] [DecidableEq Au] in
/-- The window after a prune at a `u32` session from one that fits holds that session. -/
theorem Inv.tryPrune_window (hi : Inv s log) (hsize : 1 ≤ s.cacheSize)
    (hsession : sessionId.n < 2 ^ 32) (hlow : s.lowerBound.n ≤ sessionId.n) :
    s.lowerBound.n ≤ (s.tryPrune sessionId).lowerBound.n ∧
      (s.tryPrune sessionId).lowerBound.n ≤ sessionId.n ∧
      sessionId.n < (s.tryPrune sessionId).lowerBound.n + s.cacheSize := by
  have hsat : saturatedIntoU32 s.cacheSize ≤ s.cacheSize := min_le_left _ _
  rcases lowerBound_tryPrune (s := s) sessionId with ⟨hp, hlt⟩ | ⟨hle, hp⟩ <;> rw [hp]
  · have hadd : u32SaturatingAdd s.lowerBound.n (saturatedIntoU32 s.cacheSize) ≤
        s.lowerBound.n + saturatedIntoU32 s.cacheSize := min_le_left _ _
    exact ⟨Nat.le_refl _, hlow, by omega⟩
  · obtain ⟨hmono, hbelow, hin, -⟩ := prune_bounds hsize hsession hi.fit hle
    dsimp only
    exact ⟨hmono, hbelow, by omega⟩

omit [DecidableEq H] [DecidableEq Au] in
/-- `get_data` at a `u32` session keeps the invariant: it adds a session only once the window
holds it. -/
theorem Inv.getData (hi : Inv s log) (hsize : 1 ≤ s.cacheSize) (env : CacheEnv H V Au Acc)
    (hsession : sessionId.n < 2 ^ 32) :
    Inv (s.getData env sessionId).2 log := by
  rcases getData_state (s := s) env sessionId with h | ⟨hlow, h | ⟨d, h⟩⟩ <;> rw [h]
  · exact hi
  · exact hi.tryPrune hsize hsession
  · obtain ⟨-, hbelow, hin⟩ := hi.tryPrune_window hsize hsession hlow
    exact (hi.tryPrune hsize hsession).insertData hbelow (by rw [cacheSize_tryPrune]; exact hin) d

omit [DecidableEq H] [DecidableEq Au] in
/-- `get_data` at a `u32` session only moves the window up. -/
theorem Inv.lowerBound_le_getData (hi : Inv s log) (hsize : 1 ≤ s.cacheSize)
    (env : CacheEnv H V Au Acc) (hsession : sessionId.n < 2 ^ 32) :
    s.lowerBound.n ≤ (s.getData env sessionId).2.lowerBound.n := by
  rcases getData_state (s := s) env sessionId with h | ⟨hlow, h | ⟨d, h⟩⟩ <;> rw [h]
  · exact (hi.tryPrune_window hsize hsession hlow).1
  · exact (hi.tryPrune_window hsize hsession hlow).1

omit [DecidableEq H] [DecidableEq Au] in
/-- Remembering a header at a slot of its parent's session, not below the window, with the
flag the log then gives it, keeps the invariant. -/
theorem Inv.rememberHeader (hi : Inv s log) {k : SessionSlot} {h : H} {flag justCreated : Bool}
    (hk : k.1 = s.sessionIdFromBlockNum ((Header.id h).number - 1)) (hlow : s.lowerBound.n ≤ k.1.n)
    (hflag : (∃ own, s.equivocationCache.lookup k = some (h, own) ∧ flag = (own || justCreated)) ∨
      (s.equivocationCache.lookup k = none ∧ flag = justCreated)) :
    Inv (s.rememberHeader k h flag) (log ++ [(k, h, justCreated)]) := by
  -- with no header at the slot, the log has no call at it, as its session is in the window
  have hfresh : s.equivocationCache.lookup k = none → (k, h, true) ∉ log := by
    intro hnone hm
    rcases hi.logged _ hm with hmem | hlt
    · exact AList.lookup_eq_none.mp hnone hmem
    · exact absurd hlow (Nat.not_le_of_lt hlt)
  refine ⟨?_, ?_, ?_, ?_, ?_, ?_, by simpa using hi.fit⟩
  · simpa using hi.window
  · intro b
    rw [mem_ownBlocksCache_rememberHeader, equivocationCache_rememberHeader, hi.own]
    constructor
    · rintro (⟨hf, rfl⟩ | ⟨k', h', hk', rfl⟩)
      · exact ⟨k, h, by rw [AList.lookup_insert, hf], rfl⟩
      · by_cases hkk : k' = k
        · subst hkk
          rcases hflag with ⟨own, hold, rfl⟩ | ⟨hnone, -⟩
          · rw [hold] at hk'
            obtain ⟨rfl, rfl⟩ := Prod.mk.inj (Option.some.inj hk')
            exact ⟨k', h, by rw [AList.lookup_insert]; rfl, rfl⟩
          · rw [hnone] at hk'
            cases hk'
        · exact ⟨k', h', by rw [AList.lookup_insert_ne hkk]; exact hk', rfl⟩
    · rintro ⟨k', h', hk', rfl⟩
      rcases AList.lookup_insert_eq_some.mp hk' with ⟨rfl, hv⟩ | ⟨-, hk'⟩
      · obtain ⟨rfl, rfl⟩ := Prod.mk.inj hv
        exact .inl ⟨rfl, rfl⟩
      · exact .inr ⟨k', h', hk', rfl⟩
  · intro k' h' own hk'
    simp only [equivocationCache_rememberHeader, sessionIdFromBlockNum, sessionInfo_rememberHeader] at hk' ⊢
    rcases AList.lookup_insert_eq_some.mp hk' with ⟨rfl, hv⟩ | ⟨-, hk'⟩
    · obtain ⟨rfl, rfl⟩ := Prod.mk.inj hv
      exact hk
    · exact hi.session k' h' own hk'
  · intro k' h' own hk'
    simp only [equivocationCache_rememberHeader, sessionInfo_rememberHeader,
      lowerBound_rememberHeader] at hk' ⊢
    rcases AList.lookup_insert_eq_some.mp hk' with ⟨rfl, hv⟩ | ⟨-, hk'⟩
    · obtain ⟨rfl, rfl⟩ := Prod.mk.inj hv
      calc s.sessionInfo.firstBlockOfSession s.lowerBound
          ≤ (Header.id h).number - 1 := SessionBoundaryInfo.firstBlockOfSession_le
            (Nat.le_trans hlow (Nat.le_of_eq (congrArg SessionId.n hk)))
        _ ≤ (Header.id h).number := Nat.sub_le _ _
    · exact hi.above k' h' own hk'
  · intro k' h' own hk'
    rw [equivocationCache_rememberHeader] at hk'
    rw [List.mem_append, List.mem_singleton]
    rcases AList.lookup_insert_eq_some.mp hk' with ⟨rfl, hv⟩ | ⟨hkk, hk'⟩
    · obtain ⟨rfl, rfl⟩ := Prod.mk.inj hv
      rcases hflag with ⟨own, hold, rfl⟩ | ⟨hnone, rfl⟩
      · rw [Bool.or_eq_true, hi.flag k' h own hold]
        simp [eq_comm]
      · simp [hfresh hnone, eq_comm]
    · rw [hi.flag k' h' own hk']
      simp [hkk]
  · intro e he
    rw [lowerBound_rememberHeader, equivocationCache_rememberHeader, AList.mem_insert]
    rcases List.mem_append.mp he with he | he
    · exact (hi.logged e he).imp_left Or.inr
    · rw [List.mem_singleton.mp he]
      exact .inl (.inl rfl)

omit [DecidableEq H] [DecidableEq Au] in
/-- A call that finds another header at its slot changes nothing; its log entry is for a
header other than the remembered one. -/
theorem Inv.equivocation (hi : Inv s log) {k : SessionSlot} {h h' : H} {own justCreated : Bool}
    (hk : s.equivocationCache.lookup k = some (h', own)) (hne : h' ≠ h) :
    Inv s (log ++ [(k, h, justCreated)]) :=
  { hi with
    flag := fun k' h'' own' hk' => by
      rw [hi.flag k' h'' own' hk', List.mem_append, List.mem_singleton]
      constructor
      · exact Or.inl
      · rintro (hm | heq)
        · exact hm
        · simp only [Prod.mk.injEq] at heq
          obtain ⟨rfl, rfl, -⟩ := heq
          rw [hk] at hk'
          exact absurd (Prod.mk.inj (Option.some.inj hk')).1 hne
    logged := fun e he => by
      rcases List.mem_append.mp he with he | he
      · exact hi.logged e he
      · rw [List.mem_singleton.mp he]
        exact .inl (AList.mem_iff_lookup.mpr ⟨_, hk⟩) }

omit [DecidableEq Au] in
theorem Inv.checkForEquivocation (hi : Inv s log) {k : SessionSlot} {h : H} (author : Au)
    (maybeAccountId : Option Acc) (justCreated : Bool)
    (hk : k.1 = s.sessionIdFromBlockNum ((Header.id h).number - 1)) (hlow : s.lowerBound.n ≤ k.1.n) :
    Inv (s.checkForEquivocation h k author maybeAccountId justCreated).2
      (log ++ [(k, h, justCreated)]) := by
  rcases checkForEquivocation_cases (s := s) h k author maybeAccountId justCreated with
    ⟨own, hold, heq⟩ | ⟨h', own, hold, hne, heq⟩ | ⟨hnone, heq⟩ <;> rw [heq]
  · exact hi.rememberHeader hk hlow (.inl ⟨own, hold, rfl⟩)
  · exact hi.equivocation hold hne
  · exact hi.rememberHeader hk hlow (.inr ⟨hnone, rfl⟩)

omit [DecidableEq Au] in
/-- What `check_for_equivocation` answers, read through the invariant: a proof exactly when
another header is remembered at the slot; the proof names it, leaves the state alone, and says
we equivocated exactly when the log holds a call for it with `just_created` or this call
is one. -/
theorem Flagged.checkForEquivocation_proof (hf : Flagged s log) (h : H) (k : SessionSlot) (author : Au)
    (maybeAccountId : Option Acc) (justCreated : Bool) :
    ((s.checkForEquivocation h k author maybeAccountId justCreated).1.isSome = true ↔
      ∃ h' own, s.equivocationCache.lookup k = some (h', own) ∧ h' ≠ h) ∧
    ∀ p, (s.checkForEquivocation h k author maybeAccountId justCreated).1 = some p →
      (s.checkForEquivocation h k author maybeAccountId justCreated).2 = s ∧ p.headerB = h ∧
      ∃ own, s.equivocationCache.lookup k = some (p.headerA, own) ∧
        (p.areWeEquivocating = true ↔ (k, p.headerA, true) ∈ log ∨ justCreated = true) := by
  rcases checkForEquivocation_cases (s := s) h k author maybeAccountId justCreated with
    ⟨own, hold, heq⟩ | ⟨h', own, hold, hne, heq⟩ | ⟨hnone, heq⟩ <;> rw [heq]
  · refine ⟨?_, fun p hp => by cases hp⟩
    simp only [Option.isSome_none, Bool.false_eq_true, false_iff, not_exists, not_and]
    intro h' own' hk hne
    rw [hold] at hk
    exact hne (Prod.mk.inj (Option.some.inj hk)).1.symm
  · refine ⟨⟨fun _ => ⟨h', own, hold, hne⟩, fun _ => rfl⟩, fun p hp => ?_⟩
    cases hp
    refine ⟨rfl, rfl, own, hold, ?_⟩
    rw [Bool.or_eq_true, hf k h' own hold]
  · refine ⟨?_, fun p hp => by cases hp⟩
    simp [hnone]

omit [Header H] [DecidableEq H] [DecidableEq Au] in
/-- A `u32` block number has a `u32` session. -/
theorem sessionIdFromBlockNum_lt_of_lt {number : Nat} (h : number < 2 ^ 32) :
    (s.sessionIdFromBlockNum number).n < 2 ^ 32 :=
  Nat.lt_of_le_of_lt (SessionBoundaryInfo.sessionIdFromBlockNum_le number) h

/-- One call at a `u32` block number keeps the invariant, with the log grown by what it
handed to `check_for_equivocation`. -/
theorem Inv.step (hi : Inv s log) (hsize : 1 ≤ s.cacheSize)
    (verifyBytes : V → A → Nat → Except SessionVerificationError Unit) (env : CacheEnv H V Au Acc)
    {call : CacheCall H A} (hcall : call.blockNumber < 2 ^ 32) :
    Inv (s.step verifyBytes env call) (log ++ (s.checkedCall env call).toList) := by
  cases call with
  | getVerifier number =>
    simpa [VerifierCache.step, checkedCall, getVerifier_state] using
      hi.getData hsize env (sessionIdFromBlockNum_lt_of_lt (show number < 2 ^ 32 from hcall))
  | verifyJustification j =>
    rcases verifyJustification_state (s := s) env verifyBytes j with h | h <;>
      simp only [VerifierCache.step, checkedCall, h, Option.toList_none, List.append_nil]
    · exact hi
    · exact hi.getData hsize env (sessionIdFromBlockNum_lt_of_lt hcall)
  | verifyHeader header justCreated =>
    -- the header is checked against the session of its parent, a `u32` too
    have hparent := sessionIdFromBlockNum_lt_of_lt (s := s)
      (Nat.lt_of_le_of_lt (Nat.sub_le (Header.id header).number 1) hcall)
    rcases verifyHeader_state (A := A) (s := s) env header justCreated with
      ⟨h, hc⟩ | ⟨sessionId, hsid, ⟨h, hc⟩ | ⟨k, author, acc, hslot, hc, h⟩⟩ <;>
      simp only [VerifierCache.step, h, hc, Option.toList_none, Option.toList_some, List.append_nil]
    · exact hi
    · subst hsid
      exact hi.getData hsize env hparent
    · -- the call reached check_for_equivocation at a slot of its parent's session
      subst hsid
      obtain ⟨hk, d, hd⟩ := (headerSessionSlot_spec env _ header).2 k author acc hslot
      apply (hi.getData hsize env hparent).checkForEquivocation
      · simpa only [sessionIdFromBlockNum, sessionInfo_getData] using hk
      · rw [hk]
        exact lowerBound_getData_le_of_ok hsize hd

/-- One call at a `u32` block number only moves the window up. -/
theorem Inv.lowerBound_le_step (hi : Inv s log) (hsize : 1 ≤ s.cacheSize)
    (verifyBytes : V → A → Nat → Except SessionVerificationError Unit) (env : CacheEnv H V Au Acc)
    {call : CacheCall H A} (hcall : call.blockNumber < 2 ^ 32) :
    s.lowerBound.n ≤ (s.step verifyBytes env call).lowerBound.n := by
  cases call with
  | getVerifier number =>
    simpa [VerifierCache.step, getVerifier_state] using
      hi.lowerBound_le_getData hsize env
        (sessionIdFromBlockNum_lt_of_lt (show number < 2 ^ 32 from hcall))
  | verifyHeader header justCreated =>
    have hparent := sessionIdFromBlockNum_lt_of_lt (s := s)
      (Nat.lt_of_le_of_lt (Nat.sub_le (Header.id header).number 1) hcall)
    rcases verifyHeader_state (A := A) (s := s) env header justCreated with
      ⟨h, -⟩ | ⟨_, hsid, ⟨h, -⟩ | ⟨k, author, acc, -, -, h⟩⟩ <;> simp only [VerifierCache.step, h]
    · exact Nat.le_refl _
    · subst hsid
      exact hi.lowerBound_le_getData hsize env hparent
    · subst hsid
      simpa using hi.lowerBound_le_getData hsize env hparent
  | verifyJustification j =>
    rcases verifyJustification_state (s := s) env verifyBytes j with h | h <;>
      simp only [VerifierCache.step, h]
    · exact Nat.le_refl _
    · exact hi.lowerBound_le_getData hsize env (sessionIdFromBlockNum_lt_of_lt hcall)

end Preservation

/-! ## Whole runs -/

variable (verifyBytes : V → A → Nat → Except SessionVerificationError Unit)

theorem cacheSize_trace (calls : List (CacheEnv H V Au Acc × CacheCall H A)) :
    ∀ (s : VerifierCache H V Au Acc) log, (trace verifyBytes (s, log) calls).1.cacheSize = s.cacheSize := by
  induction calls with
  | nil => intro s log; rfl
  | cons c calls ih =>
    intro s log
    obtain ⟨env, call⟩ := c
    rw [trace, ih, cacheSize_step]

theorem sessionInfo_trace (calls : List (CacheEnv H V Au Acc × CacheCall H A)) :
    ∀ (s : VerifierCache H V Au Acc) log,
      (trace verifyBytes (s, log) calls).1.sessionInfo = s.sessionInfo := by
  induction calls with
  | nil => intro s log; rfl
  | cons c calls ih =>
    intro s log
    obtain ⟨env, call⟩ := c
    rw [trace, ih, sessionInfo_step]

/-- The invariant holds along every run at `u32` block numbers, the cache size staying what it
was. -/
theorem Inv.trace {log : List (CheckedHeader H)} (hi : Inv s log) (hsize : 1 ≤ s.cacheSize)
    {calls : List (CacheEnv H V Au Acc × CacheCall H A)}
    (hcalls : ∀ p ∈ calls, p.2.blockNumber < 2 ^ 32) :
    Inv (trace verifyBytes (s, log) calls).1 (trace verifyBytes (s, log) calls).2 := by
  induction calls generalizing s log with
  | nil => exact hi
  | cons c calls ih =>
    obtain ⟨env, call⟩ := c
    rw [VerifierCache.trace]
    exact ih (hi.step hsize verifyBytes env (hcalls _ (List.mem_cons_self ..)))
      (by rwa [cacheSize_step]) fun p hp => hcalls p (List.mem_cons_of_mem _ hp)

/-- Along a run at `u32` block numbers the window only moves up. -/
theorem Inv.lowerBound_le_trace {log : List (CheckedHeader H)} (hi : Inv s log)
    (hsize : 1 ≤ s.cacheSize) {calls : List (CacheEnv H V Au Acc × CacheCall H A)}
    (hcalls : ∀ p ∈ calls, p.2.blockNumber < 2 ^ 32) :
    s.lowerBound.n ≤ (VerifierCache.trace verifyBytes (s, log) calls).1.lowerBound.n := by
  induction calls generalizing s log with
  | nil => exact Nat.le_refl _
  | cons c calls ih =>
    obtain ⟨env, call⟩ := c
    rw [VerifierCache.trace]
    have hcall := hcalls _ (List.mem_cons_self ..)
    exact Nat.le_trans (hi.lowerBound_le_step hsize verifyBytes env hcall)
      (ih (hi.step hsize verifyBytes env hcall) (by rwa [cacheSize_step])
        fun p hp => hcalls p (List.mem_cons_of_mem _ hp))

end VerifierCache

/-- A map of sessions whose keys lie in a window of `n` sessions holds at most `n`. -/
theorem keys_length_le_of_window {β : SessionId → Type} {c : AList β} {lo n : Nat}
    (h : ∀ k ∈ c, lo ≤ k.n ∧ k.n < lo + n) : c.keys.length ≤ n := by
  have hinj : Function.Injective SessionId.n := fun a b hab => by
    cases a; cases b; cases hab; rfl
  have hsub : c.keys.map SessionId.n ⊆ List.range' lo n := by
    intro x hx
    obtain ⟨k, hk, rfl⟩ := List.mem_map.mp hx
    exact List.mem_range'_1.mpr (h k (AList.mem_keys.mp hk))
  calc c.keys.length = (c.keys.map SessionId.n).length := (List.length_map _).symm
    _ ≤ (List.range' lo n).length := (c.keys_nodup.map hinj).length_le_of_subset hsub
    _ = n := List.length_range'

section RunInvariants

variable [Header H] [DecidableEq H] [DecidableEq Au]

end RunInvariants

/-! A run on the Substrate headers: one Aura authority, sessions of five blocks. -/

/-- The node at a moment where every session's authorities are known and every seal holds,
the slot being the block number. -/
def sampleEnv : CacheEnv SubstrateHeader Unit Nat Nat where
  finalizedNumber := 0
  authorityData _ := some ()
  auraAuthorities _ := some [7]
  nextAuthorityData _ := some ()
  nextAuraAuthorities _ := some [(1, 7)]
  availableFinalizedBlock _ := some 0
  checkHeaderSlotAndSeal h _ := .ok h.number
  auraSlotAuthor slot authorities := authorities[slot % authorities.length]?

def sampleVerifyBytes : Unit → Unit → Nat → Except SessionVerificationError Unit := fun _ _ _ => .ok ()

def sampleCache : VerifierCache SubstrateHeader Unit Nat Nat := .new ⟨⟨5⟩, by decide⟩ 2 ⟨0, 0, 0⟩

/-- We create block 1, then see another block 1 of the same slot. -/
def sampleCalls : List (CacheEnv SubstrateHeader Unit Nat Nat × CacheCall SubstrateHeader Unit) :=
  [(sampleEnv, .verifyHeader ⟨10, 1, 0⟩ true), (sampleEnv, .verifyHeader ⟨11, 1, 0⟩ false)]

/-- The second header of slot 1 is an equivocation, and it is ours, as we created the first. -/
example : (((VerifierCache.trace sampleVerifyBytes (sampleCache, []) (sampleCalls.take 1)).1.verifyHeader
    sampleEnv ⟨11, 1, 0⟩ false).1.toOption.bind (·.maybeEquivocationProof)).map
      EquivocationProof.areWeEquivocating = some true := by
  decide

end Selendra.Verification
