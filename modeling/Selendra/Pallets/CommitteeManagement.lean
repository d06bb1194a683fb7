import Mathlib
import Selendra.Arithmetic.PerThing
import Selendra.Pallets.Elections

/-! # The committee-management pallet: session rewards

What `pallets/committee-management` computes at the end of every session
(`SessionAndEraManager::end_session`, through `adjust_rewards_for_session`). The blocks each
validator is expected to produce, `blocks_to_produce_per_session`, are the session period over
the era's committee size, which the elections pallet copied from `NextEraCommitteeSize` when the
era started. A validator's session points are its scaled total for the era, all of a session's
share of it when it produced at least the lenient threshold of those blocks, in proportion
otherwise. The scaled totals are the validators' stakes scaled to sum to at most `MAX_REWARD`.

The division is by a committee size that `ensure_validators_are_ok` lets be zero, and
`u32::saturating_div` panics on a zero divisor (`zero_seats_panic_end_session`).

Machine integers are `Nat`, wrapping as in a release build where they can overflow (`% 2^32`,
`% 2^128`), and `as u32` is `% 2^32`. The bans that `calculate_underperforming_validators`
decides and the committee rotation are in `Pallets.SessionManager` and
`Pallets.CommitteeRotation`. -/

namespace Selendra.CommitteeManagement

open Selendra.Elections
open Selendra.CommitteeRotation (Rng)

/-- `Perquintill` of `sp_arithmetic`. -/
abbrev Perquintill := PerThing (10 ^ 18)

def maxReward : Nat := 1000000000

/-- `u32::saturating_div`; `none` is its panic on a zero divisor. -/
def saturatingDiv (a b : Nat) : Option Nat := if b = 0 then none else some (a / b)

/-- The blocks each validator is expected to produce in a session, for the era's seats. -/
def blocksToProducePerSession (sessionPeriod : Nat) (committeeSize : CommitteeSeats) :
    Option Nat :=
  saturatingDiv sessionPeriod committeeSize.size

def calculateAdjustedSessionPoints (sessionsPerEra blocksToProducePerSession blocksCreated
    totalPossibleReward : Nat) (lenientThreshold : Perquintill) : Nat :=
  let performance : Perquintill := PerThing.fromRational blocksCreated blocksToProducePerSession
  -- at least the lenient threshold of the expected blocks: the session's whole share
  if lenientThreshold ≤ performance then
    (PerThing.fromRational 1 sessionsPerEra : Perquintill).mul totalPossibleReward % 2 ^ 32
  else
    (PerThing.fromRational blocksCreated (blocksToProducePerSession * sessionsPerEra % 2 ^ 32) :
      Perquintill).mul totalPossibleReward % 2 ^ 32

/-- Totals scaled to `total * MAX_REWARD / sum_totals`, with a saturating `u128` product. -/
def computeValidatorScaledTotalRewards {V : Type} (validatorTotals : List (V × Nat)) :
    List (V × Nat) :=
  let sumTotals := (validatorTotals.map Prod.snd).sum % 2 ^ 128
  if sumTotals = 0 then validatorTotals.map fun vt => (vt.1, 0)
  else validatorTotals.map fun vt => (vt.1, min (vt.2 * maxReward) (2 ^ 128 - 1) / sumTotals % 2 ^ 32)

structure SessionValidators (Acc : Type) where
  committee : List Acc
  nonCommittee : List Acc

/-- The storage the rewards of a session are computed from. -/
structure RewardStorage (Acc : Type) where
  /-- `CurrentAndNextSessionValidatorsStorage.current` -/
  current : SessionValidators Acc
  validatorEraTotalReward : Option (List (Acc × Nat))
  lenientThreshold : Perquintill
  sessionValidatorBlockCount : List (Acc × Nat)

variable {Acc : Type} [DecidableEq Acc]

/-- Validators outside the committee are paid as if they had produced every expected block. -/
def rewardForSessionNonCommittee (nonCommittee : List Acc) (nrOfSessions blocksPerSession : Nat)
    (validatorTotals : List (Acc × Nat)) (threshold : Perquintill) : List (Acc × Nat) :=
  nonCommittee.map fun validator =>
    (validator, calculateAdjustedSessionPoints nrOfSessions blocksPerSession blocksPerSession
      ((validatorTotals.lookup validator).getD 0) threshold)

def rewardForSessionCommittee (committee : List Acc) (nrOfSessions blocksPerSession : Nat)
    (validatorTotals : List (Acc × Nat)) (threshold : Perquintill)
    (sessionValidatorBlockCount : List (Acc × Nat)) : List (Acc × Nat) :=
  committee.map fun validator =>
    (validator, calculateAdjustedSessionPoints nrOfSessions blocksPerSession
      ((sessionValidatorBlockCount.lookup validator).getD 0)
      ((validatorTotals.lookup validator).getD 0) threshold)

/-- The rewards `adjust_rewards_for_session` hands to staking; `none` is a panic. -/
def adjustRewardsForSession (sessionPeriod sessionsPerEra : Nat) (committeeSize : CommitteeSeats)
    (st : RewardStorage Acc) : Option (List (Acc × Nat)) := do
  let blocksPerSession ← blocksToProducePerSession sessionPeriod committeeSize
  let validatorTotalRewards := st.validatorEraTotalReward.getD []
  pure (rewardForSessionNonCommittee st.current.nonCommittee sessionsPerEra blocksPerSession
      validatorTotalRewards st.lenientThreshold ++
    rewardForSessionCommittee st.current.committee sessionsPerEra blocksPerSession
      validatorTotalRewards st.lenientThreshold st.sessionValidatorBlockCount)

/-! ## The divisor -/

theorem blocksToProducePerSession_eq_none_iff (sessionPeriod : Nat) {committeeSize : CommitteeSeats} :
    blocksToProducePerSession sessionPeriod committeeSize = none ↔
      committeeSize.reservedSeats = 0 ∧ committeeSize.nonReservedSeats = 0 := by
  unfold blocksToProducePerSession saturatingDiv CommitteeSeats.size
  split_ifs with h
  · simp only [true_iff]
    omega
  · simp only [false_iff]
    omega

theorem adjustRewardsForSession_eq_none_iff {sessionPeriod sessionsPerEra : Nat}
    {committeeSize : CommitteeSeats} {st : RewardStorage Acc} :
    adjustRewardsForSession sessionPeriod sessionsPerEra committeeSize st = none ↔
      committeeSize.reservedSeats = 0 ∧ committeeSize.nonReservedSeats = 0 := by
  rw [← blocksToProducePerSession_eq_none_iff sessionPeriod]
  unfold adjustRewardsForSession
  cases blocksToProducePerSession sessionPeriod committeeSize with
  | none => simp only [Option.bind_eq_bind, Option.bind_none]
  | some blocks => simp only [Option.bind_eq_bind, Option.bind_some, Option.pure_def, reduceCtorEq]

/-! ## Zero seats -/

/-- For every next era whose lists have no duplicates, the root may set zero seats; once that
era starts, whatever the generator shuffles, the end of every session divides by a zero
committee size and panics. -/
theorem zero_seats_panic_end_session [LinearOrder Acc] {S : Type} (s : Pallet Acc)
    (hnodup : (s.nextEraReservedValidators ++ s.nextEraNonReservedValidators).Nodup)
    (rng : Rng S) (era : Nat) (electedValidators : List Acc) (sessionPeriod sessionsPerEra : Nat)
    (st : RewardStorage Acc) :
    ∃ s₁, s.changeValidators none none (some ⟨0, 0, 0⟩) = .ok s₁ ∧
      adjustRewardsForSession sessionPeriod sessionsPerEra
        (s₁.onNewEra rng era electedValidators).committeeSize st = none := by
  have hok := ensureValidatorsAreOk_zero hnodup
  refine ⟨{ s with nextEraCommitteeSize := ⟨0, 0, 0⟩ }, ?_, ?_⟩
  · simp only [Pallet.changeValidators, Option.getD_none, Option.getD_some, hok, bind,
      Except.bind, pure, Except.pure]
  · exact adjustRewardsForSession_eq_none_iff.mpr ⟨rfl, rfl⟩

theorem zero_seats_panic_end_session_sample :
    ([1] ++ [2] : List Nat).Nodup ∧
      ∃ s₁, (GenesisConfig.build (⟨[2], [1], ⟨1, 1, 0⟩⟩ : GenesisConfig Nat)).changeValidators
          none none (some ⟨0, 0, 0⟩) = .ok s₁ ∧
        adjustRewardsForSession 900 96
          (s₁.onNewEra (⟨fun _ => (), fun _ _ => (0, ())⟩ : Rng Unit) 0 [1, 2]).committeeSize
          (⟨⟨[1], [2]⟩, none, PerThing.one, []⟩ : RewardStorage Nat) = none :=
  ⟨by decide, zero_seats_panic_end_session _ (by decide) _ 0 [1, 2] 900 96 _⟩

end Selendra.CommitteeManagement
