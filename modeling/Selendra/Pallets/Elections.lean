import Selendra.Collections.List
import Selendra.Pallets.CommitteeRotation

/-! # The elections pallet

`pallets/elections`. The root call `change_validators` sets the next era's reserved and
non-reserved validators and its committee seats, after `ensure_validators_are_ok` accepts them;
`elect`, which staking calls when it plans an era, keeps of the next era's non-reserved
validators those that stake and are not banned (or, in permissionless elections, takes all such
validators), and stores that list before it tallies the votes; `on_new_era` makes the next
era's lists, kept to the elected validators and shuffled by a generator seeded with the era,
and the next era's seats the current ones. `try_state` asserts that both triples pass
`ensure_validators_are_ok`.

The `BTreeSet`s and the `BTreeMap` of `elect` are the distinct accounts in ascending order
(`List.sortedDedup`), so the winners come sorted (`elect_returns_disjoint_winners`). Seats are
`u32` values, and `ensure_validators_are_ok` counts the lists `as u32` and adds in wrapping
`u32` arithmetic; below `2 ^ 32` validators that is plain counting
(`ensureValidatorsAreOk_eq_ok_iff`). The shuffle's generator is the parameter of the committee
rotation, of which only that it permutes is used.

Only `change_validators` checks seats against validators. Every run whose calls pass lists of
fewer than `2 ^ 31` validators keeps what does not count validators (`Sound.run`: the finality
seats fit, the lists are duplicate-free and disjoint), while `elect` and `on_new_era` keep the
seat counts only if enough validators survive their filters, which nothing ensures
(`tryState_fails_after_elect`).

Not modelled: the origin check (the calls are root calls) and events. Votes and their `u128`
totals are `Nat`. -/

namespace Selendra.Elections

open Selendra.CommitteeRotation (Rng shuffle shuffle_perm)

/-- Seats of a session committee (`CommitteeSeats` of the primitives). -/
structure CommitteeSeats where
  reservedSeats : Nat
  nonReservedSeats : Nat
  nonReservedFinalitySeats : Nat
deriving DecidableEq, Repr

/-- `size`: all seats, by a saturating `u32` addition. -/
def CommitteeSeats.size (c : CommitteeSeats) : Nat :=
  min (c.reservedSeats + c.nonReservedSeats) (2 ^ 32 - 1)

inductive ElectionOpenness
  | permissioned
  | permissionless
deriving DecidableEq, Repr

structure EraValidators (Acc : Type) where
  reserved : List Acc
  nonReserved : List Acc
deriving DecidableEq, Repr

inductive Error
  | notEnoughValidators
  | notEnoughReservedValidators
  | notEnoughNonReservedValidators
  | nonUniqueListOfValidators
  | nonReservedFinalitySeatsLargerThanNonReservedSeats
deriving DecidableEq, Repr

inductive ElectionError
  | dataProvider (msg : String)
  | tooManyWinners
deriving DecidableEq, Repr

/-- The support of an elected validator: its total stake and who backs it. -/
structure Support (Acc : Type) where
  total : Nat
  voters : List (Acc × Nat)
deriving DecidableEq, Repr

/-- The pallet's storage. -/
structure Pallet (Acc : Type) where
  committeeSize : CommitteeSeats
  nextEraCommitteeSize : CommitteeSeats
  nextEraReservedValidators : List Acc
  currentEraValidators : EraValidators Acc
  nextEraNonReservedValidators : List Acc
  openness : ElectionOpenness
deriving DecidableEq, Repr

structure GenesisConfig (Acc : Type) where
  nonReservedValidators : List Acc
  reservedValidators : List Acc
  committeeSeats : CommitteeSeats

variable {Acc : Type}

/-- `build` of the genesis config; openness starts at its default, permissioned. -/
def GenesisConfig.build (config : GenesisConfig Acc) : Pallet Acc where
  committeeSize := config.committeeSeats
  nextEraCommitteeSize := config.committeeSeats
  nextEraReservedValidators := config.reservedValidators
  currentEraValidators := ⟨config.reservedValidators, config.nonReservedValidators⟩
  nextEraNonReservedValidators := config.nonReservedValidators
  openness := .permissioned

/-! ## `ensure_validators_are_ok` -/

/-- The conditions of `ensure_validators_are_ok` that do not count validators against seats. -/
structure Distinct (reservedValidators nonReservedValidators : List Acc)
    (committeeSize : CommitteeSeats) : Prop where
  finality : committeeSize.nonReservedFinalitySeats ≤ committeeSize.nonReservedSeats
  nodup : (reservedValidators ++ nonReservedValidators).Nodup

/-- What `ensure_validators_are_ok` accepts. -/
structure ValidatorsOk (reservedValidators nonReservedValidators : List Acc)
    (committeeSize : CommitteeSeats) : Prop
    extends Distinct reservedValidators nonReservedValidators committeeSize where
  reserved : committeeSize.reservedSeats ≤ reservedValidators.length
  nonReserved : committeeSize.nonReservedSeats ≤ nonReservedValidators.length

theorem Distinct.subperm {reservedValidators nonReservedValidators reserved' nonReserved' : List Acc}
    {committeeSize : CommitteeSeats}
    (h : Distinct reservedValidators nonReservedValidators committeeSize)
    (hr : reserved'.Subperm reservedValidators) (hn : nonReserved'.Subperm nonReservedValidators) :
    Distinct reserved' nonReserved' committeeSize := by
  obtain ⟨l, hperm, hsub⟩ := List.Subperm.append hr hn
  exact ⟨h.finality, hperm.nodup_iff.mp (h.nodup.sublist hsub)⟩

variable [LinearOrder Acc]

def ensureValidatorsAreOk (reservedValidators nonReservedValidators : List Acc)
    (committeeSize : CommitteeSeats) : Except Error Unit :=
  let reserved := committeeSize.reservedSeats
  let nonReserved := committeeSize.nonReservedSeats
  let nonReservedFinality := committeeSize.nonReservedFinalitySeats
  -- `len() as u32` truncates, and the `u32` additions wrap
  let reservedLen := reservedValidators.length % 2 ^ 32
  let nonReservedLen := nonReservedValidators.length % 2 ^ 32
  let validatorsSize := (reservedLen + nonReservedLen) % 2 ^ 32
  let committeeSizeAll := (reserved + nonReserved) % 2 ^ 32
  if ¬nonReservedFinality ≤ nonReserved then
    .error .nonReservedFinalitySeatsLargerThanNonReservedSeats
  else if ¬committeeSizeAll ≤ validatorsSize then .error .notEnoughValidators
  else if ¬reserved ≤ reservedLen then .error .notEnoughReservedValidators
  -- the source raises the reserved error for the non-reserved count too
  else if ¬nonReserved ≤ nonReservedLen then .error .notEnoughReservedValidators
  -- `member_set`: the two lists collected into a `BTreeSet`
  else if (reservedValidators ++ nonReservedValidators).sortedDedup.length % 2 ^ 32 ≠
      validatorsSize then
    .error .nonUniqueListOfValidators
  else .ok ()

section Ensure

variable {reservedValidators nonReservedValidators : List Acc} {committeeSize : CommitteeSeats}

/-- Below `2 ^ 32` validators no count wraps, and the check is `ValidatorsOk`. -/
theorem ensureValidatorsAreOk_eq_ok_iff
    (hlen : (reservedValidators ++ nonReservedValidators).length < 2 ^ 32) :
    ensureValidatorsAreOk reservedValidators nonReservedValidators committeeSize = .ok () ↔
      ValidatorsOk reservedValidators nonReservedValidators committeeSize := by
  have hset := List.length_sortedDedup_eq_iff (l := reservedValidators ++ nonReservedValidators)
  have hsetLe := List.length_sortedDedup_le (reservedValidators ++ nonReservedValidators)
  rw [List.length_append] at hset hsetLe hlen
  unfold ensureValidatorsAreOk
  dsimp only
  -- no count wraps
  have hrMod : reservedValidators.length % 2 ^ 32 = reservedValidators.length :=
    Nat.mod_eq_of_lt (by omega)
  have hnMod : nonReservedValidators.length % 2 ^ 32 = nonReservedValidators.length :=
    Nat.mod_eq_of_lt (by omega)
  have hsetMod : (reservedValidators ++ nonReservedValidators).sortedDedup.length % 2 ^ 32 =
      (reservedValidators ++ nonReservedValidators).sortedDedup.length :=
    Nat.mod_eq_of_lt (by omega)
  rw [hrMod, hnMod, Nat.mod_eq_of_lt hlen, hsetMod]
  constructor
  · intro h
    split_ifs at h with hf hall hr hn hdup
    exact ⟨⟨hf, hset.mp (not_not.mp hdup)⟩, hr, hn⟩
  · rintro ⟨⟨hf, hnodup⟩, hr, hn⟩
    -- the wrapped count of all seats is at most the two counts
    have hall : (committeeSize.reservedSeats + committeeSize.nonReservedSeats) % 2 ^ 32 ≤
        reservedValidators.length + nonReservedValidators.length :=
      (Nat.mod_le _ _).trans (Nat.add_le_add hr hn)
    rw [if_neg (not_not.mpr hf), if_neg (not_not.mpr hall), if_neg (not_not.mpr hr),
      if_neg (not_not.mpr hn), if_neg (not_not.mpr (hset.mpr hnodup))]

/-- Zero seats pass for lists without duplicates, however long: the counts agree modulo
`2 ^ 32`. -/
theorem ensureValidatorsAreOk_zero (hnodup : (reservedValidators ++ nonReservedValidators).Nodup) :
    ensureValidatorsAreOk reservedValidators nonReservedValidators ⟨0, 0, 0⟩ = .ok () := by
  have hset := List.length_sortedDedup_eq_iff.mpr hnodup
  rw [List.length_append] at hset
  unfold ensureValidatorsAreOk
  dsimp only
  rw [hset, ← Nat.add_mod]
  simp

end Ensure

/-! ## The calls and hooks -/

namespace Pallet

def tryState (s : Pallet Acc) : Except Error Unit := do
  ensureValidatorsAreOk s.currentEraValidators.reserved s.currentEraValidators.nonReserved
    s.committeeSize
  ensureValidatorsAreOk s.nextEraReservedValidators s.nextEraNonReservedValidators
    s.nextEraCommitteeSize

/-- The root call; an argument left out keeps the next era's value. -/
def changeValidators (s : Pallet Acc) (reservedValidators nonReservedValidators : Option (List Acc))
    (committeeSize : Option CommitteeSeats) : Except Error (Pallet Acc) := do
  let committeeSize := committeeSize.getD s.nextEraCommitteeSize
  let reservedValidators := reservedValidators.getD s.nextEraReservedValidators
  let nonReservedValidators := nonReservedValidators.getD s.nextEraNonReservedValidators
  ensureValidatorsAreOk reservedValidators nonReservedValidators committeeSize
  pure { s with
    nextEraNonReservedValidators := nonReservedValidators
    nextEraReservedValidators := reservedValidators
    nextEraCommitteeSize := committeeSize }

def setElectionsOpenness (s : Pallet Acc) (openness : ElectionOpenness) : Pallet Acc :=
  { s with openness := openness }

/-- `staking_reserved_validators`: the next era's reserved validators that stake. -/
def stakingReservedValidators (s : Pallet Acc) (stakingValidators : List Acc) : List Acc :=
  (s.nextEraReservedValidators.filter fun v => decide (v ∈ stakingValidators)).sortedDedup

/-- `eligible_non_reserved`: the staking validators neither banned nor reserved and staking. -/
def eligibleNonReserved (s : Pallet Acc) (stakingValidators bannedValidators : List Acc) :
    List Acc :=
  (stakingValidators.filter fun v =>
    decide (v ∉ bannedValidators ∧ v ∉ s.stakingReservedValidators stakingValidators)).sortedDedup

/-- `new_non_reserved_validators`, by the openness of the elections. -/
def newNonReservedValidators (s : Pallet Acc) (stakingValidators bannedValidators : List Acc) :
    List Acc :=
  match s.openness with
  | .permissioned => s.nextEraNonReservedValidators.filter fun v =>
      decide (v ∈ s.eligibleNonReserved stakingValidators bannedValidators)
  | .permissionless => s.eligibleNonReserved stakingValidators bannedValidators

/-- One voter of the loop in `elect`, as (voter, vote, its target): the vote goes to the
target's support if the target is eligible. -/
def addVote (supports : List (Acc × Support Acc)) (voter : Acc × Nat × Acc) :
    List (Acc × Support Acc) :=
  supports.map fun entry =>
    if entry.1 = voter.2.2 then
      (entry.1, ⟨entry.2.total + voter.2.1, entry.2.voters ++ [(voter.1, voter.2.1)]⟩)
    else entry

/-- `ElectionProvider::elect`: the data provider's electable targets and electing voters, and
the banned validators, are its inputs. -/
def elect (s : Pallet Acc) (electableTargets : Except String (List Acc))
    (bannedValidators : List Acc) (electingVoters : Except String (List (Acc × Nat × Acc)))
    (maxWinners : Nat) : Except ElectionError (List (Acc × Support Acc)) × Pallet Acc :=
  match electableTargets with
  | .error e => (.error (.dataProvider e), s)
  | .ok targets =>
    let stakingValidators := targets.sortedDedup
    let newNonReserved := s.newNonReservedValidators stakingValidators bannedValidators
    -- stored before the voters are read: the errors below keep it
    let s' := { s with nextEraNonReservedValidators := newNonReserved }
    -- the `BTreeMap` of the supports, keyed by the winners in ascending order
    let supports :=
      (s.stakingReservedValidators stakingValidators ++ newNonReserved).sortedDedup.map
        fun id => (id, (⟨0, []⟩ : Support Acc))
    match electingVoters with
    | .error e => (.error (.dataProvider e), s')
    | .ok voters =>
      let supports := voters.foldl addVote supports
      if maxWinners < supports.length then (.error .tooManyWinners, s') else (.ok supports, s')

variable {S : Type}

/-- `populate_next_era_validators_on_next_era_start`: the next era's lists, each kept to the
era's elected validators and shuffled by one generator seeded with the era, reserved first. -/
def populateNextEraValidatorsOnNextEraStart (s : Pallet Acc) (rng : Rng S) (era : Nat)
    (electedValidators : List Acc) : Pallet Acc :=
  let retainElected := fun (vals : List Acc) => vals.filter fun v => decide (v ∈ electedValidators)
  let (reserved, seed) :=
    shuffle rng (retainElected s.nextEraReservedValidators) (rng.seedFromU64 era)
  let (nonReserved, _) := shuffle rng (retainElected s.nextEraNonReservedValidators) seed
  { s with
    currentEraValidators := ⟨reserved, nonReserved⟩
    committeeSize := s.nextEraCommitteeSize }

def onNewEra (s : Pallet Acc) (rng : Rng S) (era : Nat) (electedValidators : List Acc) :
    Pallet Acc :=
  s.populateNextEraValidatorsOnNextEraStart rng era electedValidators

/-- `BanHandler::can_ban`: reserved validators of the next era are never banned. -/
def canBan (s : Pallet Acc) (accountId : Acc) : Bool :=
  decide (accountId ∉ s.nextEraReservedValidators)

/-! ## What each operation does -/

variable {s s' : Pallet Acc}

theorem changeValidators_eq_ok {reservedValidators nonReservedValidators : Option (List Acc)}
    {committeeSize : Option CommitteeSeats}
    (h : s.changeValidators reservedValidators nonReservedValidators committeeSize = .ok s') :
    s' = { s with
      nextEraNonReservedValidators := nonReservedValidators.getD s.nextEraNonReservedValidators
      nextEraReservedValidators := reservedValidators.getD s.nextEraReservedValidators
      nextEraCommitteeSize := committeeSize.getD s.nextEraCommitteeSize } ∧
    ensureValidatorsAreOk (reservedValidators.getD s.nextEraReservedValidators)
      (nonReservedValidators.getD s.nextEraNonReservedValidators)
      (committeeSize.getD s.nextEraCommitteeSize) = .ok () := by
  unfold changeValidators at h
  cases he : ensureValidatorsAreOk (reservedValidators.getD s.nextEraReservedValidators)
    (nonReservedValidators.getD s.nextEraNonReservedValidators)
    (committeeSize.getD s.nextEraCommitteeSize) with
  | error e => simp only [he, bind, Except.bind, reduceCtorEq] at h
  | ok u =>
    simp only [he, bind, Except.bind, pure, Except.pure, Except.ok.injEq] at h
    exact ⟨h.symm, rfl⟩

/-- `elect` changes nothing but the next era's non-reserved validators. -/
theorem elect_state (electableTargets : Except String (List Acc)) (bannedValidators : List Acc)
    (electingVoters : Except String (List (Acc × Nat × Acc))) (maxWinners : Nat) :
    (s.elect electableTargets bannedValidators electingVoters maxWinners).2 = s ∨
      ∃ targets, electableTargets = .ok targets ∧
        (s.elect electableTargets bannedValidators electingVoters maxWinners).2 =
          { s with nextEraNonReservedValidators :=
              s.newNonReservedValidators targets.sortedDedup bannedValidators } := by
  unfold elect
  rcases electableTargets with e | targets
  · exact .inl rfl
  · refine .inr ⟨targets, rfl, ?_⟩
    dsimp only
    rcases electingVoters with e | voters
    · rfl
    · dsimp only
      split_ifs <;> rfl

/-- `on_new_era` makes the next era's seats current and, as the current lists, permutations of
the next era's lists kept to the elected validators. -/
theorem onNewEra_eq {S : Type} (rng : Rng S) (era : Nat) (electedValidators : List Acc) :
    ∃ reserved nonReserved, s.onNewEra rng era electedValidators =
        { s with currentEraValidators := ⟨reserved, nonReserved⟩
                 committeeSize := s.nextEraCommitteeSize } ∧
      reserved.Perm (s.nextEraReservedValidators.filter fun v => decide (v ∈ electedValidators)) ∧
      nonReserved.Perm
        (s.nextEraNonReservedValidators.filter fun v => decide (v ∈ electedValidators)) :=
  ⟨_, _, rfl, shuffle_perm rng _ _, shuffle_perm rng _ _⟩

theorem mem_stakingReservedValidators {stakingValidators : List Acc} {v : Acc} :
    v ∈ s.stakingReservedValidators stakingValidators ↔
      v ∈ s.nextEraReservedValidators ∧ v ∈ stakingValidators := by
  simp [stakingReservedValidators]

/-- Among staking validators, the eligible ones are those neither banned nor reserved. -/
theorem mem_eligibleNonReserved {stakingValidators bannedValidators : List Acc} {v : Acc} :
    v ∈ s.eligibleNonReserved stakingValidators bannedValidators ↔
      v ∈ stakingValidators ∧ v ∉ bannedValidators ∧ v ∉ s.nextEraReservedValidators := by
  simp only [eligibleNonReserved, List.mem_sortedDedup, List.mem_filter, decide_eq_true_eq,
    mem_stakingReservedValidators]
  constructor
  · rintro ⟨hs, hb, hr⟩
    exact ⟨hs, hb, fun hres => hr ⟨hres, hs⟩⟩
  · rintro ⟨hs, hb, hr⟩
    exact ⟨hs, hb, fun hres => hr hres.1⟩

theorem mem_newNonReservedValidators {stakingValidators bannedValidators : List Acc} {v : Acc}
    (h : v ∈ s.newNonReservedValidators stakingValidators bannedValidators) :
    v ∈ stakingValidators ∧ v ∉ bannedValidators ∧ v ∉ s.nextEraReservedValidators := by
  unfold newNonReservedValidators at h
  split at h
  · exact mem_eligibleNonReserved.mp (of_decide_eq_true (List.mem_filter.mp h).2)
  · exact mem_eligibleNonReserved.mp h

/-- The new non-reserved validators are no more than the old ones in permissioned elections,
and than the staking validators in permissionless ones. -/
theorem length_newNonReservedValidators_le {stakingValidators bannedValidators : List Acc} :
    (s.newNonReservedValidators stakingValidators bannedValidators).length ≤
      max s.nextEraNonReservedValidators.length stakingValidators.length := by
  unfold newNonReservedValidators
  split
  · exact (List.length_filter_le _ _).trans (le_max_left _ _)
  · exact ((List.length_sortedDedup_le _).trans (List.length_filter_le _ _)).trans
      (le_max_right _ _)

/-- The new non-reserved validators keep the next era's lists duplicate-free and disjoint. -/
theorem distinct_newNonReservedValidators {targets bannedValidators : List Acc}
    {committeeSize : CommitteeSeats}
    (h : Distinct s.nextEraReservedValidators s.nextEraNonReservedValidators committeeSize) :
    Distinct s.nextEraReservedValidators
      (s.newNonReservedValidators targets.sortedDedup bannedValidators) committeeSize := by
  unfold Pallet.newNonReservedValidators
  split
  · -- permissioned: a sublist of the old list
    exact h.subperm (List.Subperm.refl _) List.filter_sublist.subperm
  · -- permissionless: staking validators, so none of them is reserved
    refine ⟨h.finality, List.nodup_append.mpr ⟨(List.nodup_append.mp h.nodup).1,
      List.nodup_sortedDedup _, ?_⟩⟩
    rintro a ha b hb rfl
    exact (mem_eligibleNonReserved.mp hb).2.2 ha

/-! ## The supports `elect` returns -/

/-- The votes for one validator, as (voter, vote), in the order the voters come. -/
def votesFor (voters : List (Acc × Nat × Acc)) (id : Acc) : List (Acc × Nat) :=
  (voters.filter fun voter => decide (voter.2.2 = id)).map fun voter => (voter.1, voter.2.1)

theorem addVote_map (winners : List Acc) (f : Acc → Support Acc) (voter : Acc × Nat × Acc) :
    addVote (winners.map fun id => (id, f id)) voter =
      winners.map fun id => (id, if id = voter.2.2 then
        ⟨(f id).total + voter.2.1, (f id).voters ++ [(voter.1, voter.2.1)]⟩ else f id) := by
  simp only [addVote, List.map_map]
  congr 1
  funext id
  simp only [Function.comp_apply]
  split_ifs <;> rfl

/-- The loop over the voters adds to each support the votes for it. -/
theorem foldl_addVote (winners : List Acc) (voters : List (Acc × Nat × Acc)) :
    ∀ f : Acc → Support Acc, voters.foldl addVote (winners.map fun id => (id, f id)) =
      winners.map fun id => (id, ⟨(f id).total + ((votesFor voters id).map Prod.snd).sum,
        (f id).voters ++ votesFor voters id⟩) := by
  induction voters with
  | nil => intro f; simp [votesFor]
  | cons voter voters ih =>
    intro f
    rw [List.foldl_cons, addVote_map, ih]
    congr 1
    funext id
    by_cases hid : id = voter.2.2
    · subst hid
      simp [votesFor, Nat.add_assoc]
    · have hne : ¬voter.2.2 = id := fun h => hid h.symm
      simp [votesFor, hid, hne]

/-- In permissioned elections the new non-reserved validators are a subsequence of the old. -/
theorem newNonReservedValidators_sublist {stakingValidators bannedValidators : List Acc}
    (h : s.openness = .permissioned) :
    (s.newNonReservedValidators stakingValidators bannedValidators).Sublist
      s.nextEraNonReservedValidators := by
  simp only [newNonReservedValidators, h]
  exact List.filter_sublist

/-- In permissionless elections they are all eligible staking validators. -/
theorem newNonReservedValidators_of_permissionless {stakingValidators bannedValidators : List Acc}
    (h : s.openness = .permissionless) :
    s.newNonReservedValidators stakingValidators bannedValidators =
      s.eligibleNonReserved stakingValidators bannedValidators := by
  simp only [newNonReservedValidators, h]

/-- `elect` on the data provider's targets and voters stores the new non-reserved validators
whatever it returns, and returns the supports of the winners unless they are more than the
winners allowed. -/
theorem elect_of_ok (targets bannedValidators : List Acc) (voters : List (Acc × Nat × Acc))
    (maxWinners : Nat) :
    s.elect (.ok targets) bannedValidators (.ok voters) maxWinners =
      (if maxWinners < (s.stakingReservedValidators targets.sortedDedup ++
            s.newNonReservedValidators targets.sortedDedup bannedValidators).sortedDedup.length then
          .error .tooManyWinners
        else .ok ((s.stakingReservedValidators targets.sortedDedup ++
            s.newNonReservedValidators targets.sortedDedup bannedValidators).sortedDedup.map
              fun id => (id, ⟨((votesFor voters id).map Prod.snd).sum, votesFor voters id⟩)),
        { s with nextEraNonReservedValidators :=
            s.newNonReservedValidators targets.sortedDedup bannedValidators }) := by
  unfold elect
  dsimp only
  rw [foldl_addVote, List.length_map]
  simp only [Nat.zero_add, List.nil_append]
  split_ifs <;> rfl

/-- What `elect` returns and stores, for any targets, voters, banned validators, openness and
next-era lists. The winners are the next era's reserved validators that stake and the stored
new non-reserved validators, which stake and are neither banned nor reserved: a subsequence of
the old list in permissioned elections, and all such validators, in ascending order, in
permissionless ones. The winners come in ascending order, each once, and each winner's support
adds up the votes for it and lists their voters. The supports are returned exactly when the
winners are no more than allowed; the new list is stored in either case. -/
theorem elect_returns_disjoint_winners (s : Pallet Acc) (targets bannedValidators : List Acc)
    (voters : List (Acc × Nat × Acc)) (maxWinners : Nat) :
    let newNonReserved := s.newNonReservedValidators targets.sortedDedup bannedValidators
    let winners := (s.stakingReservedValidators targets.sortedDedup ++ newNonReserved).sortedDedup
    s.elect (.ok targets) bannedValidators (.ok voters) maxWinners =
        (if maxWinners < winners.length then .error .tooManyWinners
          else .ok (winners.map fun id =>
            (id, ⟨((votesFor voters id).map Prod.snd).sum, votesFor voters id⟩)),
          { s with nextEraNonReservedValidators := newNonReserved }) ∧
      winners.Pairwise (· < ·) ∧
      (∀ id, id ∈ winners ↔
        (id ∈ s.nextEraReservedValidators ∧ id ∈ targets) ∨ id ∈ newNonReserved) ∧
      (∀ id ∈ newNonReserved,
        id ∈ targets ∧ id ∉ bannedValidators ∧ id ∉ s.nextEraReservedValidators) ∧
      (s.openness = .permissioned → newNonReserved.Sublist s.nextEraNonReservedValidators) ∧
      (s.openness = .permissionless → newNonReserved.Pairwise (· < ·) ∧ ∀ id, id ∈ newNonReserved ↔
        id ∈ targets ∧ id ∉ bannedValidators ∧ id ∉ s.nextEraReservedValidators) := by
  intro newNonReserved winners
  refine ⟨elect_of_ok targets bannedValidators voters maxWinners, List.pairwise_lt_sortedDedup _,
    fun id => ?_, fun id hid => ?_, newNonReservedValidators_sublist, fun h => ⟨?_, fun id => ?_⟩⟩
  · simp [winners, mem_stakingReservedValidators]
  · obtain ⟨hs, hb, hr⟩ := mem_newNonReservedValidators hid
    exact ⟨List.mem_sortedDedup.mp hs, hb, hr⟩
  · -- permissionless: the eligible validators, an ordered set
    simp only [newNonReserved]
    rw [newNonReservedValidators_of_permissionless h]
    exact List.pairwise_lt_sortedDedup _
  · simp only [newNonReserved]
    rw [newNonReservedValidators_of_permissionless h, mem_eligibleNonReserved, List.mem_sortedDedup]

/-- One reserved validator that stakes is already one winner too many when none are allowed:
`elect` then returns no winners. -/
theorem elect_too_many_winners :
    let s : Pallet Nat := GenesisConfig.build ⟨[], [1], ⟨1, 0, 0⟩⟩
    (s.elect (.ok [1]) [] (.ok [(2, 5, 1)]) 0).1 = .error .tooManyWinners := by
  decide

/-! ## Runs -/

/-- The calls a run is made of: the root calls and the two hooks. -/
inductive ElectionsCall (Acc : Type)
  | changeValidators (reservedValidators nonReservedValidators : Option (List Acc))
      (committeeSize : Option CommitteeSeats)
  | setElectionsOpenness (openness : ElectionOpenness)
  | elect (electableTargets : Except String (List Acc)) (bannedValidators : List Acc)
      (electingVoters : Except String (List (Acc × Nat × Acc))) (maxWinners : Nat)
  | onNewEra (era : Nat) (electedValidators : List Acc)

/-- The storage after a call; a refused call leaves it as it was. -/
def step (rng : Rng S) (s : Pallet Acc) : ElectionsCall Acc → Pallet Acc
  | .changeValidators reservedValidators nonReservedValidators committeeSize =>
    match s.changeValidators reservedValidators nonReservedValidators committeeSize with
    | .ok s' => s'
    | .error _ => s
  | .setElectionsOpenness openness => s.setElectionsOpenness openness
  | .elect electableTargets bannedValidators electingVoters maxWinners =>
    (s.elect electableTargets bannedValidators electingVoters maxWinners).2
  | .onNewEra era electedValidators => s.onNewEra rng era electedValidators

def run (rng : Rng S) : Pallet Acc → List (ElectionsCall Acc) → Pallet Acc
  | s, [] => s
  | s, call :: calls => run rng (s.step rng call) calls

/-- The lists of validators a call passes hold fewer than `2 ^ 31` accounts each, so that two
of them are counted in `u32` without wrapping. -/
def ElectionsCall.Short : ElectionsCall Acc → Prop
  | .changeValidators reservedValidators nonReservedValidators _ =>
    (∀ l ∈ reservedValidators, l.length < 2 ^ 31) ∧ ∀ l ∈ nonReservedValidators, l.length < 2 ^ 31
  | .setElectionsOpenness _ => True
  | .elect electableTargets _ _ _ => ∀ targets, electableTargets = .ok targets →
      targets.length < 2 ^ 31
  | .onNewEra _ _ => True

/-- What every run keeps of `try_state`, for both triples: the finality seats fit in the
non-reserved seats, and the two lists are duplicate-free and disjoint; and the next era's lists
stay short enough to be counted in `u32`. -/
structure Sound (s : Pallet Acc) : Prop where
  current : Distinct s.currentEraValidators.reserved s.currentEraValidators.nonReserved
    s.committeeSize
  next : Distinct s.nextEraReservedValidators s.nextEraNonReservedValidators
    s.nextEraCommitteeSize
  short : s.nextEraReservedValidators.length < 2 ^ 31 ∧
    s.nextEraNonReservedValidators.length < 2 ^ 31

omit [LinearOrder Acc] in
theorem length_getD_lt {o : Option (List Acc)} {l : List Acc}
    (ho : ∀ l' ∈ o, l'.length < 2 ^ 31) (hl : l.length < 2 ^ 31) : (o.getD l).length < 2 ^ 31 := by
  cases o with
  | none => exact hl
  | some l' => exact ho l' rfl

theorem Sound.step (rng : Rng S) (h : s.Sound) {call : ElectionsCall Acc} (hcall : call.Short) :
    (s.step rng call).Sound := by
  cases call with
  | changeValidators reservedValidators nonReservedValidators committeeSize =>
    simp only [Pallet.step]
    split
    · next s' hc =>
      obtain ⟨rfl, hok⟩ := changeValidators_eq_ok hc
      have hr := length_getD_lt hcall.1 h.short.1
      have hn := length_getD_lt hcall.2 h.short.2
      have hlen : (reservedValidators.getD s.nextEraReservedValidators ++
          nonReservedValidators.getD s.nextEraNonReservedValidators).length < 2 ^ 32 := by
        rw [List.length_append]
        omega
      exact ⟨h.current, ((ensureValidatorsAreOk_eq_ok_iff hlen).mp hok).toDistinct, hr, hn⟩
    · exact h
  | setElectionsOpenness openness => exact ⟨h.current, h.next, h.short⟩
  | elect electableTargets bannedValidators electingVoters maxWinners =>
    simp only [Pallet.step]
    rcases elect_state (s := s) electableTargets bannedValidators electingVoters maxWinners with
      hs | ⟨targets, ht, hs⟩
    · rw [hs]; exact h
    · rw [hs]
      have hlen := hcall targets ht
      have hnew : (s.newNonReservedValidators targets.sortedDedup bannedValidators).length ≤
          max s.nextEraNonReservedValidators.length targets.sortedDedup.length :=
        length_newNonReservedValidators_le
      have hsorted := List.length_sortedDedup_le targets
      have hold := h.short.2
      exact ⟨h.current, distinct_newNonReservedValidators h.next, h.short.1,
        show (s.newNonReservedValidators targets.sortedDedup bannedValidators).length < 2 ^ 31 by
          omega⟩
  | onNewEra era electedValidators =>
    obtain ⟨reserved, nonReserved, hs, hr, hn⟩ := onNewEra_eq (s := s) rng era electedValidators
    simp only [Pallet.step, hs]
    exact ⟨h.next.subperm (hr.subperm.trans List.filter_sublist.subperm)
      (hn.subperm.trans List.filter_sublist.subperm), h.next, h.short⟩

theorem Sound.run (rng : Rng S) (h : s.Sound) {calls : List (ElectionsCall Acc)}
    (hcalls : ∀ call ∈ calls, call.Short) : (s.run rng calls).Sound := by
  induction calls generalizing s with
  | nil => exact h
  | cons call calls ih =>
    exact ih (h.step rng (hcalls call (List.mem_cons_self ..)))
      fun call hc => hcalls call (List.mem_cons_of_mem _ hc)

/-- Only `on_new_era` changes the current era's committee size. -/
theorem committeeSize_step (rng : Rng S) {call : ElectionsCall Acc}
    (h : ∀ era electedValidators, call ≠ .onNewEra era electedValidators) :
    (s.step rng call).committeeSize = s.committeeSize := by
  cases call with
  | changeValidators reservedValidators nonReservedValidators committeeSize =>
    simp only [Pallet.step]
    split
    · next s' hc => rw [(changeValidators_eq_ok hc).1]
    · rfl
  | setElectionsOpenness openness => rfl
  | elect electableTargets bannedValidators electingVoters maxWinners =>
    simp only [Pallet.step]
    rcases elect_state (s := s) electableTargets bannedValidators electingVoters maxWinners with
      hs | ⟨targets, -, hs⟩ <;> rw [hs]
  | onNewEra era electedValidators => exact absurd rfl (h era electedValidators)

/-- A run that breaks `try_state`: the root sets one reserved and one non-reserved validator
for one seat each, which passes the check; then `elect` sees only the reserved validator
staking, and stores no non-reserved validator for the non-reserved seat. -/
theorem tryState_fails_after_elect :
    (GenesisConfig.build (⟨[], [], ⟨0, 0, 0⟩⟩ : GenesisConfig Nat)).tryState = .ok () ∧
    (GenesisConfig.build (⟨[], [], ⟨0, 0, 0⟩⟩ : GenesisConfig Nat)).changeValidators
        (some [1]) (some [2]) (some ⟨1, 1, 0⟩) =
      .ok ⟨⟨0, 0, 0⟩, ⟨1, 1, 0⟩, [1], ⟨[], []⟩, [2], .permissioned⟩ ∧
    (⟨⟨0, 0, 0⟩, ⟨1, 1, 0⟩, [1], ⟨[], []⟩, [2], .permissioned⟩ : Pallet Nat).tryState =
      .ok () ∧
    ((⟨⟨0, 0, 0⟩, ⟨1, 1, 0⟩, [1], ⟨[], []⟩, [2], .permissioned⟩ : Pallet Nat).elect
        (.ok [1]) [] (.ok []) 100).2.tryState = .error .notEnoughValidators :=
  ⟨rfl, rfl, rfl, rfl⟩

end Pallet

end Selendra.Elections
