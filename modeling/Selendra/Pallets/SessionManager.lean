import Selendra.Collections.Map
import Selendra.Pallets.CommitteeManagement
import Selendra.Pallets.CommitteeRotation

/-! # The session and era manager

`SessionAndEraManager` of `pallets/committee-management/src/manager.rs`, the session manager
of the runtime, over the storage of the pallets it drives. When block `B` ends session `S`,
`pallet_session` calls `end_session(S)`, `start_session(S + 1)` and `new_session(S + 2)`, each
first in staking (the inner manager) and then here:

* `end_session(S)` pays the session's rewards and counts the underperforming validators of
  the session's committee, both against `session_period / CommitteeSize`, and clears the block
  counts;
* `start_session(S + 1)` clears the underperformance counters every
  `clean_session_counter_delay` sessions and, when the session starts an era, takes the era's
  reward totals and lifts the bans that expired;
* `new_session(S + 2)`, when the session starts the era staking has just planned, calls the
  elections pallet's `on_new_era`, which makes the next era's committee size the current one,
  and then chooses the session's committee with the current committee size.

Staking is a parameter: its hooks `new_session` and `start_session` on the era storage the
manager reads (`Staking`), which the general results leave arbitrary; the runs that show a
behaviour assume its schedule without forcing (`Staking.NotForcing`: an era is planned when the
current one has run `SessionsPerEra` sessions and becomes active at its first session). The
era's elected validators and reward totals are inputs. Not modelled: staking's payouts and the
`chill` of a banned validator, and the events. `u32` arithmetic wraps as in a release build. -/

namespace Selendra.SessionManager

open Selendra.Elections Selendra.CommitteeManagement Selendra.CommitteeRotation

/-- `Perbill` of `sp_arithmetic`. -/
abbrev Perbill := PerThing (10 ^ 9)

def u32Max : Nat := 2 ^ 32 - 1

/-- `DEFAULT_BAN_REASON_LENGTH` of the primitives. -/
def defaultBanReasonLength : Nat := 300

/-- `BanConfig` of the primitives. -/
structure BanConfigStruct where
  minimalExpectedPerformance : Perbill
  underperformedSessionCountThreshold : Nat
  cleanSessionCounterDelay : Nat
  banPeriod : Nat

inductive BanReason
  | insufficientUptime (count : Nat)
  | otherReason (reason : List UInt8)
deriving DecidableEq, Repr

structure BanInfo where
  reason : BanReason
  start : Nat
deriving DecidableEq, Repr

/-- Staking's era storage as the manager reads it (`EraInfoProvider`): the active era, the last
planned one, and the first session of each. -/
structure Eras where
  activeEra : Option Nat
  currentEra : Option Nat
  erasStartSessionIndex : AList (fun _ : Nat => Nat)

/-- `pallet_staking`'s hooks, which the manager calls before its own at each session:
`new_session`, which may plan an era, and `start_session`, which may make one active. -/
structure Staking where
  newSession : Eras → Nat → Eras
  startSession : Eras → Nat → Eras

/-- The runtime's constants and its generator. -/
structure Config (S : Type) where
  sessionPeriod : Nat
  sessionsPerEra : Nat
  rng : Rng S
  staking : Staking

/-- The storage the manager reads and writes: the session, staking's eras, the elections
pallet, and the committee-management pallet's ban config, bans, counters, block counts,
session validators, reward totals and lenient threshold. -/
structure Chain (Acc : Type) where
  session : Nat
  eras : Eras
  elections : Pallet Acc
  banConfig : BanConfigStruct
  banned : AList (fun _ : Acc => BanInfo)
  underperformedValidatorSessionCount : AList (fun _ : Acc => Nat)
  sessionValidatorBlockCount : AList (fun _ : Acc => Nat)
  current : SessionValidators Acc
  next : SessionValidators Acc
  validatorEraTotalReward : Option (List (Acc × Nat))
  lenientThreshold : Perquintill

/-- What the manager reports: the expected blocks per validator and the rewards at the end of
a session, and the committee size and committee chosen for a new session. -/
inductive Event (Acc : Type)
  | endSession (session : Nat) (blocksToProduce : Nat) (rewards : List (Acc × Nat))
  | newSession (session : Nat) (committeeSize : CommitteeSeats)
      (committee : Option (SessionCommittee Acc))
deriving DecidableEq, Repr

/-- The expected blocks per validator reported at the end of a session. -/
def Event.expectedBlocks {Acc : Type} : Event Acc → Option (Nat × Nat)
  | .endSession session blocksToProduce _ => some (session, blocksToProduce)
  | .newSession .. => none

/-- The committee size a new session's committee was chosen with. -/
def Event.chosenSize {Acc : Type} : Event Acc → Option (Nat × CommitteeSeats)
  | .newSession session committeeSize _ => some (session, committeeSize)
  | .endSession .. => none

/-! ## The era schedule -/

namespace Eras

/-- `trigger_new_era`: plan the next era to start at the session. -/
def triggerNewEra (e : Eras) (startSessionIndex : Nat) : Eras :=
  let newPlannedEra := (e.currentEra.map (· + 1)).getD 0
  { e with
    currentEra := some newPlannedEra
    erasStartSessionIndex := e.erasStartSessionIndex.insert newPlannedEra startSessionIndex }

/-- The current era has run its sessions at the session, or no era is planned. -/
def eraDue (sessionsPerEra : Nat) (e : Eras) (sessionIndex : Nat) : Bool :=
  match e.currentEra with
  | some currentEra =>
    decide (sessionsPerEra ≤ sessionIndex - (e.erasStartSessionIndex.lookup currentEra).getD 0)
  | none => true

/-- The era after the active one. -/
def nextActiveEra (e : Eras) : Nat := (e.activeEra.map (· + 1)).getD 0

/-- The first session of the era after the active one has come. -/
def nextEraStarted (e : Eras) (startSession : Nat) : Bool :=
  match e.erasStartSessionIndex.lookup e.nextActiveEra with
  | some nextActiveEraStartSessionIndex => decide (nextActiveEraStartSessionIndex ≤ startSession)
  | none => false

/-- `session_starts_era`: the active era, if the session is its first. -/
def sessionStartsEra (e : Eras) (session : Nat) : Option Nat :=
  e.activeEra.bind fun activeEra =>
    if e.erasStartSessionIndex.lookup activeEra = some session then some activeEra else none

/-- `session_starts_next_era`: the era after the active one, if the session is its first. -/
def sessionStartsNextEra (e : Eras) (session : Nat) : Option Nat :=
  e.activeEra.bind fun activeEra =>
    if e.erasStartSessionIndex.lookup (activeEra + 1) = some session then some (activeEra + 1)
    else none

end Eras

/-- Staking's schedule when no era is forced, as its documentation gives it: `new_session`
plans an era, to start at the session, once the current era has run `SessionsPerEra` sessions,
and `start_session` makes the planned era active at its first session. -/
structure Staking.NotForcing (staking : Staking) (sessionsPerEra : Nat) : Prop where
  plans : ∀ e sessionIndex, staking.newSession e sessionIndex =
    if e.eraDue sessionsPerEra sessionIndex then e.triggerNewEra sessionIndex else e
  activates : ∀ e startSession, staking.startSession e startSession =
    if e.nextEraStarted startSession then { e with activeEra := some e.nextActiveEra } else e

/-- The staking of that schedule. -/
def Staking.notForcing (sessionsPerEra : Nat) : Staking where
  newSession e sessionIndex :=
    if e.eraDue sessionsPerEra sessionIndex then e.triggerNewEra sessionIndex else e
  startSession e startSession :=
    if e.nextEraStarted startSession then { e with activeEra := some e.nextActiveEra } else e

theorem Staking.notForcing_notForcing (sessionsPerEra : Nat) :
    (Staking.notForcing sessionsPerEra).NotForcing sessionsPerEra :=
  ⟨fun _ _ => rfl, fun _ _ => rfl⟩

/-- The schedule determines the hooks. -/
theorem Staking.NotForcing.eq {staking : Staking} {sessionsPerEra : Nat}
    (h : staking.NotForcing sessionsPerEra) : staking = Staking.notForcing sessionsPerEra := by
  cases staking with
  | mk newSession startSession =>
    simp only [Staking.notForcing, Staking.mk.injEq]
    exact ⟨funext fun e => funext (h.plans e), funext fun e => funext (h.activates e)⟩

/-! ## The pallet's parts -/

/-- `ban_expired`, in wrapping `u32` arithmetic. -/
def banExpired (start period activeEra : Nat) : Bool :=
  decide ((start + period) % 2 ^ 32 ≤ activeEra)

namespace Chain

variable {Acc S : Type} [LinearOrder Acc] (cfg : Config S)

/-- `ban_validator`: ban from the era after the planned one, unless the validator is reserved
for the next era. -/
def banValidator (c : Chain Acc) (validator : Acc) (reason : BanReason) : Chain Acc :=
  let start := min ((c.eras.currentEra.getD 0) + 1) u32Max
  if c.elections.canBan validator then
    { c with banned := c.banned.insert validator ⟨reason, start⟩ }
  else c

/-- `mark_validator_underperformance`: count the session; at the threshold, ban and forget
the count. -/
def markValidatorUnderperformance (c : Chain Acc) (validator : Acc) : Chain Acc :=
  let counter := (c.underperformedValidatorSessionCount.lookup validator).getD 0 + 1
  let c := { c with
    underperformedValidatorSessionCount := c.underperformedValidatorSessionCount.insert validator
      counter }
  if c.banConfig.underperformedSessionCountThreshold ≤ counter then
    let c := c.banValidator validator (.insufficientUptime counter)
    { c with
      underperformedValidatorSessionCount := c.underperformedValidatorSessionCount.erase validator }
  else c

/-- `calculate_underperforming_validators`: a member of the session's committee
underperformed if it produced no block, or at most the minimal expected part of the expected
blocks. -/
def calculateUnderperformingValidators (c : Chain Acc) : Option (Chain Acc) := do
  let expectedBlocksPerValidator ←
    blocksToProducePerSession cfg.sessionPeriod c.elections.committeeSize
  pure (c.current.committee.foldl (fun c validator =>
    let underperformance := match c.sessionValidatorBlockCount.lookup validator with
      | some blockCount => decide ((PerThing.fromRational blockCount expectedBlocksPerValidator :
          Perbill) ≤ c.banConfig.minimalExpectedPerformance)
      | none => true
    if underperformance then c.markValidatorUnderperformance validator else c) c)

/-- The storage `adjust_rewards_for_session` reads. -/
def rewardStorage (c : Chain Acc) : RewardStorage Acc :=
  ⟨c.current, c.validatorEraTotalReward, c.lenientThreshold,
    c.sessionValidatorBlockCount.entries.map fun e => (e.1, e.2)⟩

/-- `clear_underperformance_session_counter`; `none` is the panic of `%` by a zero delay. -/
def clearUnderperformanceSessionCounter (c : Chain Acc) (session : Nat) : Option (Chain Acc) :=
  if c.banConfig.cleanSessionCounterDelay = 0 then none
  else if session % c.banConfig.cleanSessionCounterDelay = 0 then
    some { c with underperformedValidatorSessionCount := ∅ }
  else some c

def clearExpiredBans (c : Chain Acc) (activeEra : Nat) : Chain Acc :=
  { c with banned := c.banned.retain fun _ banInfo =>
      !banExpired banInfo.start c.banConfig.banPeriod activeEra }

/-- `store_session_validators`: the next session's validators become the current ones, and
the chosen committee and the rest of the era's validators the next ones. -/
def storeSessionValidators (c : Chain Acc) (committee reserved nonReserved : List Acc) :
    Chain Acc :=
  -- the committee collected into a `BTreeSet`
  let committee := committee.sortedDedup
  let nonCommittee := (nonReserved ++ reserved).filter fun a => !committee.contains a
  { c with current := c.next, next := ⟨committee, nonCommittee⟩ }

/-- `rotate_committee`: the committee of the session, chosen from the era's validators with
the era's committee size. -/
def rotateCommittee (c : Chain Acc) (currentSession : Nat) :
    Option (SessionCommittee Acc) × Chain Acc :=
  let eraValidators := c.elections.currentEraValidators
  let committeeSeats := c.elections.committeeSize
  let committee := selectCommitteeInner cfg.rng currentSession committeeSeats.reservedSeats
    committeeSeats.nonReservedSeats committeeSeats.nonReservedFinalitySeats
    eraValidators.reserved eraValidators.nonReserved
  match committee with
  | some sc =>
    (committee, c.storeSessionValidators sc.blockProducers eraValidators.reserved
      eraValidators.nonReserved)
  | none => (committee, c)

/-! ## The session manager -/

/-- `new_session`: staking plans, the elections pallet starts the next era's lists and sizes
if the session starts it, and the committee is chosen. -/
def newSession (c : Chain Acc) (newIndex : Nat) (electedValidators : List Acc) :
    Chain Acc × Event Acc :=
  let c := { c with eras := cfg.staking.newSession c.eras newIndex }
  let c := match c.eras.sessionStartsNextEra newIndex with
    | some era => { c with elections := c.elections.onNewEra cfg.rng era electedValidators }
    | none => c
  let (committee, c') := c.rotateCommittee cfg newIndex
  (c', .newSession newIndex c.elections.committeeSize committee)

/-- `end_session`; `none` is the panic of the division by a zero committee size. -/
def endSession (c : Chain Acc) : Option (Chain Acc × Event Acc) := do
  let blocksToProduce ← blocksToProducePerSession cfg.sessionPeriod c.elections.committeeSize
  let rewards ← adjustRewardsForSession cfg.sessionPeriod cfg.sessionsPerEra
    c.elections.committeeSize c.rewardStorage
  let c' ← c.calculateUnderperformingValidators cfg
  pure ({ c' with sessionValidatorBlockCount := ∅ }, .endSession c.session blocksToProduce rewards)

/-- `start_session`, with staking's reward totals of the era it may start. -/
def startSession (c : Chain Acc) (startIndex : Nat) (validatorTotals : List (Acc × Nat)) :
    Option (Chain Acc) := do
  let c := { c with eras := cfg.staking.startSession c.eras startIndex }
  let c ← c.clearUnderperformanceSessionCounter startIndex
  match c.eras.sessionStartsEra startIndex with
  | some era =>
    pure ({ c with
      validatorEraTotalReward := some (computeValidatorScaledTotalRewards validatorTotals) }
      |>.clearExpiredBans era)
  | none => pure c

/-- `pallet_session::rotate_session` at the end of the current session. -/
def rotateSession (c : Chain Acc) (electedValidators : List Acc)
    (validatorTotals : List (Acc × Nat)) : Option (Chain Acc × List (Event Acc)) := do
  let (c₁, ended) ← c.endSession cfg
  let c₂ ← c₁.startSession cfg (c.session + 1) validatorTotals
  let (c₃, planned) := c₂.newSession cfg (c.session + 2) electedValidators
  pure ({ c₃ with session := c.session + 1 }, [ended, planned])

/-- The calls between and at session ends: block authorship, the root calls of the two pallets,
staking's election, and the rotation. -/
inductive Call (Acc : Type)
  | noteAuthor (validator : Acc)
  | setBanConfig (minimalExpectedPerformance : Option Nat)
      (underperformedSessionCountThreshold cleanSessionCounterDelay banPeriod : Option Nat)
  | banFromCommittee (banned : Acc) (banReason : List UInt8)
  | cancelBan (banned : Acc)
  | setLenientThreshold (thresholdPercent : Nat)
  | changeValidators (reservedValidators nonReservedValidators : Option (List Acc))
      (committeeSize : Option CommitteeSeats)
  | setElectionsOpenness (openness : ElectionOpenness)
  | elect (electableTargets : Except String (List Acc)) (bannedValidators : List Acc)
      (electingVoters : Except String (List (Acc × Nat × Acc))) (maxWinners : Nat)
  | rotateSession (electedValidators : List Acc) (validatorTotals : List (Acc × Nat))

/-- `set_ban_config`: every given value is checked and then set; a refused call changes
nothing. -/
def setBanConfig (c : Chain Acc) (minimalExpectedPerformance : Option Nat)
    (underperformedSessionCountThreshold cleanSessionCounterDelay banPeriod : Option Nat) :
    Chain Acc :=
  let ok := (minimalExpectedPerformance.all fun p => decide (p ≤ 100)) &&
    (underperformedSessionCountThreshold.all fun t => decide (0 < t)) &&
    (cleanSessionCounterDelay.all fun d => decide (0 < d)) && (banPeriod.all fun p => decide (0 < p))
  if ok then
    { c with banConfig := {
      minimalExpectedPerformance := (minimalExpectedPerformance.map PerThing.fromPercent).getD
        c.banConfig.minimalExpectedPerformance
      underperformedSessionCountThreshold := underperformedSessionCountThreshold.getD
        c.banConfig.underperformedSessionCountThreshold
      cleanSessionCounterDelay := cleanSessionCounterDelay.getD c.banConfig.cleanSessionCounterDelay
      banPeriod := banPeriod.getD c.banConfig.banPeriod } }
  else c

/-- One call; `none` is a panic. -/
def step (c : Chain Acc) : Call Acc → Option (Chain Acc × List (Event Acc))
  | .noteAuthor validator =>
    let count := (c.sessionValidatorBlockCount.lookup validator).getD 0 + 1
    some ({ c with sessionValidatorBlockCount := c.sessionValidatorBlockCount.insert validator count },
      [])
  | .setBanConfig p t d b => some (c.setBanConfig p t d b, [])
  | .banFromCommittee banned banReason =>
    if banReason.length ≤ defaultBanReasonLength then
      some (c.banValidator banned (.otherReason banReason), [])
    else some (c, [])
  | .cancelBan banned => some ({ c with banned := c.banned.erase banned }, [])
  | .setLenientThreshold thresholdPercent =>
    if thresholdPercent ≤ 100 then
      some ({ c with lenientThreshold := PerThing.fromPercent thresholdPercent }, [])
    else some (c, [])
  | .changeValidators r nr size =>
    some ({ c with elections := c.elections.step cfg.rng (.changeValidators r nr size) }, [])
  | .setElectionsOpenness openness =>
    some ({ c with elections := c.elections.step cfg.rng (.setElectionsOpenness openness) }, [])
  | .elect targets banned voters maxWinners =>
    some ({ c with elections := c.elections.step cfg.rng (.elect targets banned voters maxWinners) }, [])
  | .rotateSession electedValidators validatorTotals =>
    c.rotateSession cfg electedValidators validatorTotals

/-- A run of calls, with everything the manager reported. -/
def run : Chain Acc → List (Call Acc) → Option (Chain Acc × List (Event Acc))
  | c, [] => some (c, [])
  | c, call :: calls => do
    let (c₁, events₁) ← c.step cfg call
    let (c₂, events₂) ← run c₁ calls
    pure (c₂, events₁ ++ events₂)

/-- The chain at genesis: `pallet_session` plans sessions 0 and 1 and starts session 0. -/
def genesis (elections : GenesisConfig Acc) (banConfig : BanConfigStruct)
    (sessionValidators : SessionValidators Acc) : Option (Chain Acc × List (Event Acc)) := do
  let c : Chain Acc := ⟨0, ⟨none, none, ∅⟩, elections.build, banConfig, ∅, ∅, ∅,
    sessionValidators, sessionValidators, none, PerThing.fromPercent 90⟩
  let (c, planned₀) := c.newSession cfg 0 []
  let (c, planned₁) := c.newSession cfg 1 []
  let c ← c.startSession cfg 0 []
  pure (c, [planned₀, planned₁])

end Chain

end Selendra.SessionManager
