import Selendra.Session.SharedSessionMap

/-! # The session map updater

`SessionMapUpdater` of `session_map.rs`. At start it catches up with the sessions around the
last finalized block; then, for every finality notification that reaches a new session, it
handles the first block of each session up to it: it stores the authorities of the session
after it, and at every tenth session above the tenth it prunes the sessions more than ten
below. The updater is modelled by the operations it performs on the shared session map, so
that readers' subscriptions can be interleaved with them; `none` stands where the code
panics, the provider missing authorities it needs. -/

namespace Selendra.SessionMap

open SharedSessionMap

variable {D Sub : Type}

def pruningThreshold : Nat := 10

/-- The authorities the runtime reports at a block: of the block's session, and of the
session after it. -/
structure AuthorityProvider (D : Type) where
  authorityData : Nat → Option D
  nextAuthorityData : Nat → Option D

structure SessionMapUpdater (D : Type) where
  authorityProvider : AuthorityProvider D
  sessionInfo : SessionBoundaryInfo

namespace SessionMapUpdater

variable (u : SessionMapUpdater D)

/-- `handle_first_block_of_session`: store the next session's authorities, and prune at
every tenth session above the tenth. -/
def handleFirstBlockOfSession (sessionId : SessionId) : Option (List (MapOp D Sub)) := do
  let firstBlock := u.sessionInfo.firstBlockOfSession sessionId
  let authorityData ← u.authorityProvider.nextAuthorityData firstBlock
  let update : MapOp D Sub := .update ⟨sessionId.n + 1⟩ authorityData
  if sessionId.n > pruningThreshold ∧ sessionId.n % pruningThreshold = 0 then
    pure [update, .pruneBelow ⟨sessionId.n - pruningThreshold⟩]
  else
    pure [update]

def authoritiesForSession (sessionId : SessionId) : Option D :=
  u.authorityProvider.authorityData (u.sessionInfo.firstBlockOfSession sessionId)

/-- `catch_up`: the sessions before the current one that the provider still knows, the
current one, whose authorities must be there, and the next one. -/
def catchUp (lastFinalized : Nat) : Option (List (MapOp D Sub) × SessionId) := do
  let currentSession := u.sessionInfo.sessionIdFromBlockNum lastFinalized
  let startingSession : SessionId := ⟨currentSession.n - (pruningThreshold - 1)⟩
  let previous : List (MapOp D Sub) :=
    (List.range' startingSession.n (currentSession.n - startingSession.n)).filterMap
      fun session => (u.authoritiesForSession ⟨session⟩).map (MapOp.update ⟨session⟩)
  let currentAuthorityData ← u.authoritiesForSession currentSession
  let next ← u.handleFirstBlockOfSession currentSession
  pure (previous ++ .update currentSession currentAuthorityData :: next, currentSession)

/-- The inner loop of `run`: the first blocks of the sessions `first, …, first + count - 1`. -/
def handleSessions (first : Nat) : Nat → Option (List (MapOp D Sub))
  | 0 => some []
  | count + 1 => do
    let ops ← u.handleFirstBlockOfSession ⟨first⟩
    let rest ← handleSessions (first + 1) count
    pure (ops ++ rest)

/-- The outer loop of `run`, over the finality notifications: a notification at or below the
last updated session is skipped; one above it has every session up to its own handled. -/
def handleNotifications (lastUpdated : SessionId) :
    List Nat → Option (List (MapOp D Sub) × SessionId)
  | [] => some ([], lastUpdated)
  | lastFinalized :: notifications =>
    let sessionId := u.sessionInfo.sessionIdFromBlockNum lastFinalized
    if sessionId.n ≤ lastUpdated.n then handleNotifications lastUpdated notifications
    else do
      let ops ← u.handleSessions (lastUpdated.n + 1) (sessionId.n - lastUpdated.n)
      let (rest, last) ← handleNotifications sessionId notifications
      pure (ops ++ rest, last)

/-- `run`: the catch-up, then the notifications; the operations performed and the last
updated session. -/
def run (lastFinalized : Nat) (notifications : List Nat) :
    Option (List (MapOp D Sub) × SessionId) := do
  let (ops, lastUpdated) ← u.catchUp lastFinalized
  let (rest, last) ← u.handleNotifications lastUpdated notifications
  pure (ops ++ rest, last)

/-! ## What one handled session does -/

/-- The operations of a handled session whose next authorities are `d`. -/
theorem handleFirstBlockOfSession_eq_some {s : Nat} {d : D}
    (hd : u.authorityProvider.nextAuthorityData (u.sessionInfo.firstBlockOfSession ⟨s⟩) = some d) :
    (u.handleFirstBlockOfSession ⟨s⟩ : Option (List (MapOp D Sub))) =
      some (.update ⟨s + 1⟩ d ::
        if pruningThreshold < s ∧ s % pruningThreshold = 0 then [.pruneBelow ⟨s - pruningThreshold⟩]
        else []) := by
  simp only [handleFirstBlockOfSession, hd, Option.bind_eq_bind, Option.bind_some]
  split_ifs <;> rfl

/-- Where the sessions `lo, …, hi` are stored, each with what `f` gives, and nothing else. -/
def Band (lo hi : Nat) (f : Nat → Option D) (m : SharedSessionMap D Sub) : Prop :=
  ∀ s, m.sessionMap.lookup ⟨s⟩ = if lo ≤ s ∧ s ≤ hi then f s else none

/-- Handling session `s` extends the band by the session after it and, at a pruning session,
raises its bottom to ten below. -/
theorem Band.handle {lo s : Nat} {f : Nat → Option D} {m : SharedSessionMap D Sub} {d : D}
    (hb : Band lo s f m) (hlo : lo ≤ s)
    (hd : u.authorityProvider.nextAuthorityData (u.sessionInfo.firstBlockOfSession ⟨s⟩) = some d)
    (hf : f (s + 1) = some d) :
    ∃ ops, u.handleFirstBlockOfSession ⟨s⟩ = some ops ∧
      Band (if pruningThreshold < s ∧ s % pruningThreshold = 0 then max lo (s - pruningThreshold)
        else lo) (s + 1) f (runOps m ops).1 := by
  refine ⟨_, u.handleFirstBlockOfSession_eq_some hd, fun t => ?_⟩
  have hstored : (m.update ⟨s + 1⟩ d).1.sessionMap.lookup ⟨t⟩ =
      if lo ≤ t ∧ t ≤ s + 1 then f t else none := by
    rw [lookup_update, hb t]
    by_cases ht : t = s + 1
    · subst ht
      rw [if_pos rfl, if_pos ⟨Nat.le_succ_of_le hlo, le_refl _⟩, hf]
    · have : (⟨t⟩ : SessionId) ≠ ⟨s + 1⟩ := fun h => ht (SessionId.mk.inj h)
      rw [if_neg this]
      split_ifs <;> first | rfl | omega
  by_cases hp : pruningThreshold < s ∧ s % pruningThreshold = 0
  · -- a pruning session: the stored sessions below ten under it go
    simp only [if_pos hp, runOps_cons, runOps_nil, SharedSessionMap.apply, lookup_pruneBelow,
      hstored]
    split_ifs <;> first | rfl | omega
  · simp only [if_neg hp, runOps_cons, runOps_nil, SharedSessionMap.apply, hstored]

/-- The operations of one handled session are in order: the session after it, then perhaps a
pruning bound below it. -/
theorem handleFirstBlockOfSession_ascending {s : Nat} {ops : List (MapOp D Sub)}
    (h : u.handleFirstBlockOfSession ⟨s⟩ = some ops) :
    Ascending ops ∧ AllAtLeast (s + 1) ops ∧ AllBelow (s + 2) ops := by
  obtain ⟨d, hd⟩ : ∃ d,
      u.authorityProvider.nextAuthorityData (u.sessionInfo.firstBlockOfSession ⟨s⟩) = some d := by
    cases hn : u.authorityProvider.nextAuthorityData (u.sessionInfo.firstBlockOfSession ⟨s⟩) with
    | none => simp [handleFirstBlockOfSession, hn] at h
    | some d => exact ⟨d, rfl⟩
  rw [u.handleFirstBlockOfSession_eq_some hd, Option.some.injEq] at h
  subst h
  refine ⟨ascending_update_cons ?_, ?_, ?_, ?_⟩
  · split_ifs <;> simp
  · split_ifs <;> simp [AllAtLeast]
  · split_ifs <;> simp
  · split_ifs <;> simp
    omega

/-! ## The window of stored sessions -/

/-- The bottom of the window once every session from `current` to `last` is handled: ten
below the last pruning session, or nothing when none was handled. -/
def pruningPoint (current last : Nat) : Nat :=
  let p := last / pruningThreshold * pruningThreshold
  if pruningThreshold < p ∧ current ≤ p then p - pruningThreshold else 0

theorem pruningPoint_le (current last : Nat) :
    pruningPoint current last ≤ last - pruningThreshold := by
  unfold pruningPoint pruningThreshold
  dsimp only
  split_ifs <;> omega

theorem pruningPoint_succ {current last : Nat} (h : current ≤ last + 1) :
    pruningPoint current (last + 1) =
      if pruningThreshold < last + 1 ∧ (last + 1) % pruningThreshold = 0 then
        last + 1 - pruningThreshold
      else pruningPoint current last := by
  unfold pruningPoint pruningThreshold
  dsimp only
  split_ifs <;> omega

/-- What the updater stores for session `s`, catch-up at `current`: a session up to the current
one has the authorities read at its own first block, a later one those announced at the first
block of the session before it. -/
def storedData (current s : Nat) : Option D :=
  if s ≤ current then u.authoritiesForSession ⟨s⟩
  else u.authorityProvider.nextAuthorityData (u.sessionInfo.firstBlockOfSession ⟨s - 1⟩)

/-- The stored sessions once every session from `current` to `last` is handled: from the
catch-up start or the last pruning bound, whichever is higher, to the session after `last`. -/
def Window (current last : Nat) (m : SharedSessionMap D Sub) : Prop :=
  Band (max (current - (pruningThreshold - 1)) (pruningPoint current last)) (last + 1)
    (u.storedData current) m

theorem Window.handle {current last : Nat} {m : SharedSessionMap D Sub} {d : D}
    (hw : u.Window current last m) (hc : current ≤ last)
    (hd : u.authorityProvider.nextAuthorityData
      (u.sessionInfo.firstBlockOfSession ⟨last + 1⟩) = some d) :
    ∃ ops, u.handleFirstBlockOfSession ⟨last + 1⟩ = some ops ∧
      u.Window current (last + 1) (runOps m ops).1 := by
  have hq := pruningPoint_le current last
  have hf : u.storedData current (last + 1 + 1) = some d := by
    rw [storedData, if_neg (by omega), Nat.add_sub_cancel]
    exact hd
  obtain ⟨ops, hops, hb⟩ := Band.handle u hw (by omega) hd hf
  refine ⟨ops, hops, ?_⟩
  -- the bottom after the handled session is the window's: a pruning session raises it to ten
  -- below, above the catch-up start and every earlier bound
  have hbottom : (if pruningThreshold < last + 1 ∧ (last + 1) % pruningThreshold = 0 then
        max (max (current - (pruningThreshold - 1)) (pruningPoint current last))
          (last + 1 - pruningThreshold)
      else max (current - (pruningThreshold - 1)) (pruningPoint current last)) =
      max (current - (pruningThreshold - 1)) (pruningPoint current (last + 1)) := by
    rw [pruningPoint_succ (by omega)]
    split_ifs <;> omega
  unfold Window
  rwa [← hbottom]

/-! ## The catch-up -/

/-- The updates of the sessions `ns` that `f` knows, as the catch-up performs them. -/
def knownUpdates (f : Nat → Option D) (ns : List Nat) : List (MapOp D Sub) :=
  ns.filterMap fun n => (f n).map (MapOp.update ⟨n⟩)

/-- Updates of distinct sessions, each where `f` knows it, store what `f` gives. -/
theorem lookup_runOps_knownUpdates (f : Nat → Option D) : ∀ (ns : List Nat), ns.Nodup →
    ∀ (m : SharedSessionMap D Sub) (t : Nat),
    (runOps m (knownUpdates f ns)).1.sessionMap.lookup ⟨t⟩ =
      if t ∈ ns then (f t).or (m.sessionMap.lookup ⟨t⟩) else m.sessionMap.lookup ⟨t⟩
  | [], _, m, t => by simp [knownUpdates]
  | n :: ns, hnd, m, t => by
    rw [List.nodup_cons] at hnd
    cases hn : f n with
    | none =>
      rw [knownUpdates, List.filterMap_cons_none (by simp [hn]), ← knownUpdates,
        lookup_runOps_knownUpdates f ns hnd.2 m t]
      by_cases ht : t = n
      · subst ht
        simp [hn, hnd.1]
      · simp [ht]
    | some d =>
      rw [knownUpdates, List.filterMap_cons_some (b := MapOp.update ⟨n⟩ d) (by simp [hn]),
        ← knownUpdates, runOps_cons, lookup_runOps_knownUpdates f ns hnd.2, SharedSessionMap.apply,
        lookup_update]
      by_cases ht : t = n
      · subst ht
        simp [hn, hnd.1]
      · have hne : (⟨t⟩ : SessionId) ≠ ⟨n⟩ := fun h => ht (SessionId.mk.inj h)
        simp [ht, hne]

/-- Updates of the sessions `a, …, a + k - 1` that `f` knows are in order. -/
theorem knownUpdates_ascending (f : Nat → Option D) : ∀ (k a : Nat),
    Ascending (knownUpdates f (List.range' a k) : List (MapOp D Sub)) ∧
      AllAtLeast a (knownUpdates f (List.range' a k) : List (MapOp D Sub)) ∧
      AllBelow (a + k) (knownUpdates f (List.range' a k) : List (MapOp D Sub))
  | 0, a => by simp [knownUpdates, Ascending, AllAtLeast, AllBelow]
  | k + 1, a => by
    obtain ⟨hasc, hge, hlt⟩ := knownUpdates_ascending f k (a + 1)
    have hk : a + 1 + k = a + (k + 1) := by omega
    rw [hk] at hlt
    rw [List.range'_succ]
    cases hn : f a with
    | none =>
      rw [knownUpdates, List.filterMap_cons_none (by simp [hn]), ← knownUpdates]
      exact ⟨hasc, hge.mono (Nat.le_succ a), hlt⟩
    | some d =>
      rw [knownUpdates, List.filterMap_cons_some (b := MapOp.update ⟨a⟩ d) (by simp [hn]),
        ← knownUpdates, ← List.singleton_append]
      have hone : AllBelow (a + 1) [(MapOp.update ⟨a⟩ d : MapOp D Sub)] := by simp [AllBelow]
      refine ⟨(ascending_update_cons (by simp)).append hasc hone hge, ?_, ?_⟩
      · exact AllAtLeast.append (by simp [AllAtLeast]) (hge.mono (Nat.le_succ a))
      · exact (hone.mono (by omega)).append hlt

/-- The catch-up's updates of the sessions before the current one, from the catch-up start on,
and of the current one store the band from the start to the current session. -/
theorem band_catchUp {current : Nat} {a : D} (ha : u.authoritiesForSession ⟨current⟩ = some a) :
    Band (current - (pruningThreshold - 1)) current (u.storedData current)
      (runOps new (knownUpdates (fun n => u.authoritiesForSession ⟨n⟩)
          (List.range' (current - (pruningThreshold - 1))
            (current - (current - (pruningThreshold - 1)))) ++
        [(.update ⟨current⟩ a : MapOp D Sub)])).1 := by
  have hpt : pruningThreshold = 10 := rfl
  intro t
  rw [runOps_append, runOps_cons, runOps_nil, SharedSessionMap.apply, lookup_update,
    lookup_runOps_knownUpdates _ _ List.nodup_range']
  simp only [List.mem_range'_1, new, AList.lookup_empty, Option.or_none]
  by_cases ht : t = current
  · subst ht
    simp [storedData, ha]
  · have hne : (⟨t⟩ : SessionId) ≠ ⟨current⟩ := fun h => ht (SessionId.mk.inj h)
    rw [if_neg hne, storedData]
    split_ifs <;> first | rfl | omega

/-- The catch-up stores the sessions from the catch-up start to the one after the current. -/
theorem catchUp_window {lastFinalized current : Nat}
    (hC : u.sessionInfo.sessionIdFromBlockNum lastFinalized = ⟨current⟩)
    (hcur : (u.authoritiesForSession ⟨current⟩).isSome)
    (hnext : (u.authorityProvider.nextAuthorityData
      (u.sessionInfo.firstBlockOfSession ⟨current⟩)).isSome) :
    ∃ ops : List (MapOp D Sub), u.catchUp lastFinalized = some (ops, ⟨current⟩) ∧
      u.Window current current (runOps new ops).1 ∧ Ascending ops ∧ AllBelow (current + 2) ops := by
  obtain ⟨a, ha⟩ := Option.isSome_iff_exists.mp hcur
  obtain ⟨d, hd⟩ := Option.isSome_iff_exists.mp hnext
  have hpt : pruningThreshold = 10 := rfl
  set start := current - (pruningThreshold - 1) with hstart
  set previous : List (MapOp D Sub) :=
    knownUpdates (fun n => u.authoritiesForSession ⟨n⟩) (List.range' start (current - start))
  obtain ⟨ops, hops, hb⟩ := Band.handle u (u.band_catchUp ha) (by omega) hd
    (by rw [storedData, if_neg (by omega), Nat.add_sub_cancel]; exact hd)
  obtain ⟨hasc, hge, hlt⟩ := u.handleFirstBlockOfSession_ascending hops
  obtain ⟨hascp, -, hltp⟩ : Ascending previous ∧ AllAtLeast start previous ∧
      AllBelow (start + (current - start)) previous :=
    knownUpdates_ascending (fun n => u.authoritiesForSession ⟨n⟩) (current - start) start
  refine ⟨previous ++ [.update ⟨current⟩ a] ++ ops, ?_, ?_, ?_, ?_⟩
  · simp [catchUp, hC, ha, hops, previous, start, knownUpdates]
  · -- pruning at the current session removes nothing: the start is above the bound
    have hq := pruningPoint_le current current
    have hbottom : (if pruningThreshold < current ∧ current % pruningThreshold = 0 then
        max start (current - pruningThreshold) else start) =
        max start (pruningPoint current current) := by
      split_ifs <;> omega
    unfold Window
    rw [runOps_append, ← hbottom]
    exact hb
  · -- the earlier sessions, then the current one, then the next one's planning
    have hone : AllBelow (current + 1) [(MapOp.update ⟨current⟩ a : MapOp D Sub)] := by
      simp [AllBelow]
    refine (hascp.append (ascending_update_cons (by simp)) hltp ?_).append hasc
      ((hltp.mono (by omega)).append hone) hge
    simp [AllAtLeast]
    omega
  · exact ((hltp.mono (by omega)).append (by simp [AllBelow])).append hlt

/-! ## The loops of `run` -/

/-- Handling `count` sessions after `last` moves the window up by `count`, in order. -/
theorem handleSessions_window {current : Nat} : ∀ (count last : Nat) (m : SharedSessionMap D Sub),
    current ≤ last → u.Window current last m →
    (∀ s, last < s → s ≤ last + count →
      (u.authorityProvider.nextAuthorityData (u.sessionInfo.firstBlockOfSession ⟨s⟩)).isSome) →
    ∃ ops, u.handleSessions (last + 1) count = some ops ∧
      u.Window current (last + count) (runOps m ops).1 ∧ Ascending ops ∧
      AllAtLeast (last + 2) ops ∧ AllBelow (last + count + 2) ops
  | 0, last, m, _, hw, _ => ⟨[], rfl, hw, by simp [Ascending, AllAtLeast, AllBelow]⟩
  | count + 1, last, m, hc, hw, hnext => by
    obtain ⟨d, hd⟩ := Option.isSome_iff_exists.mp (hnext (last + 1) (by omega) (by omega))
    obtain ⟨ops₁, hops₁, hw₁⟩ := Window.handle u hw hc hd
    obtain ⟨hasc₁, hge₁, hlt₁⟩ := u.handleFirstBlockOfSession_ascending hops₁
    obtain ⟨ops₂, hops₂, hw₂, hasc₂, hge₂, hlt₂⟩ := handleSessions_window count (last + 1)
      (runOps m ops₁).1 (by omega) hw₁ fun s h₁ h₂ => hnext s (by omega) (by omega)
    have hk : last + 1 + count = last + (count + 1) := by omega
    rw [hk] at hw₂ hlt₂
    refine ⟨ops₁ ++ ops₂, by simp [handleSessions, hops₁, hops₂], ?_, ?_, ?_, ?_⟩
    · rw [runOps_append]
      exact hw₂
    · exact hasc₁.append hasc₂ hlt₁ hge₂
    · exact hge₁.append (hge₂.mono (by omega))
    · exact (hlt₁.mono (by omega)).append hlt₂

/-- The highest session the notifications reach, from `last`. -/
def lastSession (last : Nat) (notifications : List Nat) : Nat :=
  notifications.foldl (fun l n => max l (u.sessionInfo.sessionIdFromBlockNum n).n) last

theorem le_lastSession : ∀ (notifications : List Nat) (last : Nat),
    last ≤ u.lastSession last notifications
  | [], _ => le_refl _
  | _ :: notifications, _ =>
    le_trans (le_max_left _ _) (le_lastSession notifications _)

/-- The notifications move the window up to the highest session they reach, in order. -/
theorem handleNotifications_window {current : Nat} : ∀ (notifications : List Nat) (last : Nat)
    (m : SharedSessionMap D Sub), current ≤ last → u.Window current last m →
    (∀ s, last < s → s ≤ u.lastSession last notifications →
      (u.authorityProvider.nextAuthorityData (u.sessionInfo.firstBlockOfSession ⟨s⟩)).isSome) →
    ∃ ops, u.handleNotifications ⟨last⟩ notifications =
        some (ops, ⟨u.lastSession last notifications⟩) ∧
      u.Window current (u.lastSession last notifications) (runOps m ops).1 ∧ Ascending ops ∧
      AllAtLeast (last + 2) ops ∧ AllBelow (u.lastSession last notifications + 2) ops
  | [], last, m, _, hw, _ => ⟨[], rfl, hw, by simp [Ascending, AllAtLeast, AllBelow]⟩
  | n :: notifications, last, m, hc, hw, hnext => by
    have hlast : u.lastSession last (n :: notifications) =
        u.lastSession (max last (u.sessionInfo.sessionIdFromBlockNum n).n) notifications := rfl
    rw [hlast] at hnext ⊢
    by_cases hS : (u.sessionInfo.sessionIdFromBlockNum n).n ≤ last
    · -- a notification at or below the last updated session changes nothing
      rw [max_eq_left hS] at hnext ⊢
      simp only [handleNotifications, if_pos hS]
      exact handleNotifications_window notifications last m hc hw hnext
    · -- every session up to the notified one is handled, then the rest
      set S := (u.sessionInfo.sessionIdFromBlockNum n).n with hSdef
      rw [max_eq_right (by omega)] at hnext ⊢
      have hle := u.le_lastSession notifications S
      obtain ⟨ops₁, hops₁, hw₁, hasc₁, hge₁, hlt₁⟩ := u.handleSessions_window (S - last) last m hc
        hw fun s h₁ h₂ => hnext s h₁ (by omega)
      have hk : last + (S - last) = S := by omega
      rw [hk] at hw₁ hlt₁
      obtain ⟨ops₂, hops₂, hw₂, hasc₂, hge₂, hlt₂⟩ := handleNotifications_window notifications S
        (runOps m ops₁).1 (by omega) hw₁ fun s h₁ h₂ => hnext s (by omega) h₂
      refine ⟨ops₁ ++ ops₂, ?_, ?_, hasc₁.append hasc₂ hlt₁ hge₂, ?_, ?_⟩
      · have hsid : u.sessionInfo.sessionIdFromBlockNum n = ⟨S⟩ := rfl
        simp only [handleNotifications, if_neg hS, hops₁, Option.bind_eq_bind, Option.bind_some,
          hsid, hops₂]
        rfl
      · rw [runOps_append]
        exact hw₂
      · exact hge₁.append (hge₂.mono (by omega))
      · exact (hlt₁.mono (by omega)).append hlt₂

/-- The provider answers for every session the updater reads: the authorities at the first
block of each session from the catch-up start to the current one, and the next authorities at
the first block of each session from the current one to `last`. -/
def Answers (current last : Nat) : Prop :=
  (∀ s, current - (pruningThreshold - 1) ≤ s → s ≤ current →
    (u.authoritiesForSession ⟨s⟩).isSome) ∧
  ∀ s, current ≤ s → s ≤ last →
    (u.authorityProvider.nextAuthorityData (u.sessionInfo.firstBlockOfSession ⟨s⟩)).isSome

theorem run_window {lastFinalized current : Nat} (notifications : List Nat)
    (hC : u.sessionInfo.sessionIdFromBlockNum lastFinalized = ⟨current⟩)
    (ha : u.Answers current (u.lastSession current notifications)) :
    ∃ ops : List (MapOp D Sub),
      u.run lastFinalized notifications = some (ops, ⟨u.lastSession current notifications⟩) ∧
      u.Window current (u.lastSession current notifications) (runOps new ops).1 ∧ Ascending ops := by
  have hle := u.le_lastSession notifications current
  obtain ⟨ops₁, hops₁, hw₁, hasc₁, hlt₁⟩ :=
    u.catchUp_window hC (ha.1 current (Nat.sub_le _ _) le_rfl) (ha.2 current le_rfl hle)
  obtain ⟨ops₂, hops₂, hw₂, hasc₂, hge₂, -⟩ := u.handleNotifications_window notifications current
    (runOps new ops₁).1 le_rfl hw₁ fun s h₁ h₂ => ha.2 s (by omega) h₂
  refine ⟨ops₁ ++ ops₂, by simp [run, hops₁, hops₂], ?_, hasc₁.append hasc₂ hlt₁ hge₂⟩
  rw [runOps_append]
  exact hw₂

/-- Where the provider answers, every session of the window is stored. -/
theorem Window.isSome_iff {current last : Nat} {m : SharedSessionMap D Sub}
    (hw : u.Window current last m) (ha : u.Answers current last) (s : Nat) :
    (m.sessionMap.lookup ⟨s⟩).isSome ↔
      max (current - (pruningThreshold - 1)) (pruningPoint current last) ≤ s ∧ s ≤ last + 1 := by
  rw [hw s]
  split_ifs with hs
  · refine iff_of_true ?_ hs
    rw [storedData]
    split_ifs with hcur
    · exact ha.1 s (by omega) hcur
    · exact ha.2 (s - 1) (by omega) (by omega)
  · exact iff_of_false (by simp) hs

/-- The session map that `SessionMapUpdater` keeps. After the catch-up at the last finalized
block and any notifications, with `last` the highest session reached and a provider that
answers for every session read, the stored sessions are exactly those from the catch-up start
or ten below the last pruning session, whichever is higher, to the session after `last`, each
with its `storedData`; among them is every session from the catch-up start or ten below `last`
to the one after it. Readers' subscriptions interleaved with the updater, each with its own
channel, leave the stored data as it is; every channel receives at most one message, with data
stored for the session it subscribed to, and it receives that data whenever the session is
stored at the subscription or is stored later. -/
theorem sessionMapUpdater_keeps_window (u : SessionMapUpdater D) (lastFinalized : Nat)
    (notifications : List Nat)
    (hanswers : u.Answers (u.sessionInfo.sessionIdFromBlockNum lastFinalized).n
      (u.lastSession (u.sessionInfo.sessionIdFromBlockNum lastFinalized).n notifications)) :
    let current := (u.sessionInfo.sessionIdFromBlockNum lastFinalized).n
    let last := u.lastSession current notifications
    ∃ ops : List (MapOp D Sub), u.run lastFinalized notifications = some (ops, ⟨last⟩) ∧
      (∀ s, (runOps new ops).1.sessionMap.lookup ⟨s⟩ =
        if max (current - (pruningThreshold - 1)) (pruningPoint current last) ≤ s ∧ s ≤ last + 1
        then u.storedData current s else none) ∧
      (∀ s, max (current - (pruningThreshold - 1)) (last - pruningThreshold) ≤ s → s ≤ last + 1 →
        ((runOps new ops).1.sessionMap.lookup ⟨s⟩).isSome) ∧
      ∀ ops' : List (MapOp D Sub), ops'.filter (fun op => !op.isSubscription) = ops →
        FreshSenders ops' →
        (runOps new ops').1.sessionMap = (runOps new ops).1.sessionMap ∧
        ((runOps new ops').2.map Prod.fst).Nodup ∧
        (∀ sender d, (sender, d) ∈ (runOps new ops').2 →
          ∃ id, .subscribeToInsertion id sender ∈ ops' ∧ .update id d ∈ ops') ∧
        ∀ pre id sender post d, ops' = pre ++ .subscribeToInsertion id sender :: post →
          ((runOps new pre).1.sessionMap.lookup id = some d ∨ .update id d ∈ post) →
          (sender, d) ∈ (runOps new ops').2 := by
  intro current last
  obtain ⟨ops, hrun, hw, hasc⟩ := u.run_window notifications rfl hanswers
  refine ⟨ops, hrun, hw, fun s hlo hhi => ?_, fun ops' hfilter hfresh => ?_⟩
  · -- the last pruning bound is at most ten below the last session
    exact (Window.isSome_iff u hw hanswers s).mpr
      ⟨max_le (le_trans (le_max_left _ _) hlo)
        (le_trans (le_trans (pruningPoint_le _ _) (le_max_right _ _)) hlo), hhi⟩
  · have hstored := sessionMap_runOps_filter ops' new new rfl
    rw [hfilter] at hstored
    exact ⟨hstored, runOps_serves_subscribers ops' hfresh (Ascending.of_filter (hfilter ▸ hasc))⟩

theorem sessionMapUpdater_keeps_window_sample :
    let u : SessionMapUpdater Nat := ⟨⟨fun _ => some 0, fun _ => some 1⟩, ⟨⟨1⟩, by decide⟩⟩
    u.Answers 0 3 ∧ ∃ ops : List (MapOp Nat Nat), u.run 0 [3] = some (ops, ⟨3⟩) ∧
      (runOps new ops).1.sessionMap.lookup ⟨4⟩ = some 1 := by
  intro u
  have h0 : (u.sessionInfo.sessionIdFromBlockNum 0).n = 0 := by decide
  have h3 : u.lastSession 0 [3] = 3 := by decide
  have ha : u.Answers 0 3 := ⟨fun _ _ _ => rfl, fun _ _ _ => rfl⟩
  have hk := @sessionMapUpdater_keeps_window Nat Nat u 0 [3]
  simp only [h0, h3] at hk
  obtain ⟨ops, hrun, hw, -⟩ := hk ha
  exact ⟨ha, ops, hrun, by rw [hw 4]; rfl⟩

/-- A notification below the last updated session leaves the window where the highest one put
it, and a catch-up entry holds the authorities read at its own session's first block. -/
theorem sessionMapUpdater_window_after_lower_notification :
    let u : SessionMapUpdater Nat := ⟨⟨fun _ => some 0, fun _ => some 1⟩, ⟨⟨1⟩, by decide⟩⟩
    ((u.run 0 [30, 12]).map fun r =>
        (runOps (new : SharedSessionMap Nat Nat) r.1).1.sessionMap.lookup ⟨2⟩) = some none ∧
      ((u.run 5 []).map fun r =>
        (runOps (new : SharedSessionMap Nat Nat) r.1).1.sessionMap.lookup ⟨5⟩) = some (some 0) := by
  decide

end SessionMapUpdater

end Selendra.SessionMap
