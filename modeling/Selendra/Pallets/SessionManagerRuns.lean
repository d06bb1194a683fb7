import Selendra.Pallets.SessionManager

/-! # Runs of the session manager

What one rotation of `pallet_session` does to the storage the manager keeps, and from it what
every run from genesis keeps, whatever staking's hooks do:

* the expected blocks `end_session(S)` reports come from the committee size that
  `new_session(S + 1)` reported, which is the next era's when `S + 1` starts an era
  (`endSession_judged_by_next_session`);
* every ban is of a validator the elections pallet let be banned, from the era after the one
  planned when it was made, and only `cancel_ban` and the start of an era lift one
  (`step_bans_new_or_expired`).

The two runs at the end show the behaviours this allows, for any staking of the schedule
without forcing. -/

namespace Selendra.SessionManager

open Selendra.Elections Selendra.CommitteeManagement Selendra.CommitteeRotation

namespace Chain

variable {Acc S : Type} [LinearOrder Acc] {cfg : Config S}

/-! ## The bans and counters of the end of a session -/

/-- A ban a call may add to `c`'s storage: of a validator the elections pallet lets be banned,
from the era after the planned one. -/
def NewBan (c : Chain Acc) (v : Acc) (info : BanInfo) : Prop :=
  v ∉ c.elections.nextEraReservedValidators ∧
    info.start = min (c.eras.currentEra.getD 0 + 1) u32Max

/-- The bans of `c'` grow from those of `c`: none is lifted, and each one that is not one of
`c`'s is new. -/
structure BansGrow (c c' : Chain Acc) : Prop where
  kept : ∀ v, v ∈ c.banned → v ∈ c'.banned
  banned : ∀ v info, c'.banned.lookup v = some info →
    c.banned.lookup v = some info ∨ c.NewBan v info

theorem BansGrow.of_banned_eq {c c' : Chain Acc} (h : c'.banned = c.banned) : BansGrow c c' :=
  ⟨fun _ hv => h ▸ hv, fun _ _ hv => .inl (h ▸ hv)⟩

/-- What the bans and counters of the end of a session do: their bans grow, and the rest of the
storage stays. -/
structure Bookkeeping (c c' : Chain Acc) : Prop extends BansGrow c c' where
  session : c'.session = c.session
  eras : c'.eras = c.eras
  elections : c'.elections = c.elections
  banConfig : c'.banConfig = c.banConfig
  sessionValidatorBlockCount : c'.sessionValidatorBlockCount = c.sessionValidatorBlockCount

theorem Bookkeeping.refl (c : Chain Acc) : Bookkeeping c c :=
  ⟨.of_banned_eq rfl, rfl, rfl, rfl, rfl, rfl⟩

theorem Bookkeeping.trans {c₁ c₂ c₃ : Chain Acc} (h₁ : Bookkeeping c₁ c₂)
    (h₂ : Bookkeeping c₂ c₃) : Bookkeeping c₁ c₃ where
  kept v h := h₂.kept v (h₁.kept v h)
  banned v info h := by
    rcases h₂.banned v info h with h | ⟨hv, hs⟩
    · exact h₁.banned v info h
    -- a ban added later is new against the earlier storage too: eras and elections stay
    · exact .inr ⟨h₁.elections ▸ hv, h₁.eras ▸ hs⟩
  session := h₂.session.trans h₁.session
  eras := h₂.eras.trans h₁.eras
  elections := h₂.elections.trans h₁.elections
  banConfig := h₂.banConfig.trans h₁.banConfig
  sessionValidatorBlockCount := h₂.sessionValidatorBlockCount.trans h₁.sessionValidatorBlockCount

/-- A change of the counters alone. -/
theorem bookkeeping_counters (c : Chain Acc) (counts : AList fun _ : Acc => Nat) :
    Bookkeeping c { c with underperformedValidatorSessionCount := counts } :=
  ⟨.of_banned_eq rfl, rfl, rfl, rfl, rfl, rfl⟩

/-- `ban_validator` changes the bans alone. -/
theorem banValidator_eq (c : Chain Acc) (validator : Acc) (reason : BanReason) :
    c.banValidator validator reason = { c with
      banned := if c.elections.canBan validator then
          c.banned.insert validator ⟨reason, min (c.eras.currentEra.getD 0 + 1) u32Max⟩
        else c.banned } := by
  unfold banValidator
  split_ifs <;> rfl

theorem lookup_banned_banValidator (c : Chain Acc) (validator v : Acc) (reason : BanReason) :
    (c.banValidator validator reason).banned.lookup v =
      if v = validator ∧ c.elections.canBan validator then
        some ⟨reason, min (c.eras.currentEra.getD 0 + 1) u32Max⟩
      else c.banned.lookup v := by
  rw [banValidator_eq]
  by_cases hv : v = validator
  · subst hv
    by_cases hb : c.elections.canBan v <;> simp [hb]
  · rw [if_neg (show ¬(v = validator ∧ _) from fun h => hv h.1)]
    split_ifs
    · exact AList.lookup_insert_ne hv
    · rfl

theorem bookkeeping_banValidator (c : Chain Acc) (validator : Acc) (reason : BanReason) :
    Bookkeeping c (c.banValidator validator reason) where
  kept v h := by
    rw [banValidator_eq]
    split_ifs
    · exact (AList.mem_insert _).mpr (.inr h)
    · exact h
  banned v info h := by
    rw [lookup_banned_banValidator] at h
    split_ifs at h with hv
    · -- the ban just made
      cases h
      refine .inr ⟨?_, rfl⟩
      rw [hv.1]
      simpa [Pallet.canBan] using hv.2
    · exact .inl h
  session := by rw [banValidator_eq]
  eras := by rw [banValidator_eq]
  elections := by rw [banValidator_eq]
  banConfig := by rw [banValidator_eq]
  sessionValidatorBlockCount := by rw [banValidator_eq]

theorem bookkeeping_markValidatorUnderperformance (c : Chain Acc) (validator : Acc) :
    Bookkeeping c (c.markValidatorUnderperformance validator) := by
  unfold markValidatorUnderperformance
  dsimp only
  have hcount := bookkeeping_counters c
    (c.underperformedValidatorSessionCount.insert validator
      ((c.underperformedValidatorSessionCount.lookup validator).getD 0 + 1))
  split_ifs
  · exact (hcount.trans (bookkeeping_banValidator _ validator _)).trans
      (bookkeeping_counters _ _)
  · exact hcount

/-- A step of the loop of `calculate_underperforming_validators`, whatever it found. -/
theorem bookkeeping_ite (c : Chain Acc) (validator : Acc) (underperformance : Bool) :
    Bookkeeping c (if underperformance then c.markValidatorUnderperformance validator else c) := by
  cases underperformance
  · exact .refl c
  · exact bookkeeping_markValidatorUnderperformance c validator

/-- A fold whose every step is bookkeeping is bookkeeping. -/
theorem bookkeeping_foldl {f : Chain Acc → Acc → Chain Acc}
    (hf : ∀ c v, Bookkeeping c (f c v)) :
    ∀ (validators : List Acc) (c : Chain Acc), Bookkeeping c (validators.foldl f c)
  | [], c => .refl c
  | v :: validators, c => (hf c v).trans (bookkeeping_foldl hf validators (f c v))

theorem bookkeeping_calculateUnderperformingValidators {c c' : Chain Acc}
    (h : c.calculateUnderperformingValidators cfg = some c') : Bookkeeping c c' := by
  unfold calculateUnderperformingValidators at h
  cases hb : blocksToProducePerSession cfg.sessionPeriod c.elections.committeeSize with
  | none => simp [hb] at h
  | some expectedBlocksPerValidator =>
    simp only [hb, Option.bind_eq_bind, Option.bind_some, Option.pure_def,
      Option.some.injEq] at h
    rw [← h]
    exact bookkeeping_foldl (fun c v => bookkeeping_ite c v _) _ c

/-- `end_session`: the expected blocks it reports come from the current committee size, and
the storage changes by bookkeeping and the cleared block counts. -/
theorem endSession_eq_some {c c' : Chain Acc} {event : Event Acc}
    (h : c.endSession cfg = some (c', event)) :
    ∃ c₀ blocksToProduce rewards, Bookkeeping c c₀ ∧
      c' = { c₀ with sessionValidatorBlockCount := ∅ } ∧
      blocksToProducePerSession cfg.sessionPeriod c.elections.committeeSize =
        some blocksToProduce ∧
      event = .endSession c.session blocksToProduce rewards := by
  unfold endSession at h
  cases hb : blocksToProducePerSession cfg.sessionPeriod c.elections.committeeSize with
  | none => simp [hb] at h
  | some blocksToProduce =>
    cases hr : adjustRewardsForSession cfg.sessionPeriod cfg.sessionsPerEra
      c.elections.committeeSize c.rewardStorage with
    | none => simp [hb, hr] at h
    | some rewards =>
      cases hc : c.calculateUnderperformingValidators cfg with
      | none => simp [hb, hr, hc] at h
      | some c₀ =>
        simp only [hb, hr, hc, Option.bind_eq_bind, Option.bind_some, Option.pure_def,
          Option.some.injEq, Prod.mk.injEq] at h
        exact ⟨c₀, blocksToProduce, rewards, bookkeeping_calculateUnderperformingValidators hc,
          h.1.symm, rfl, h.2.symm⟩

/-! ## The start of a session and the planning of the next -/

omit [LinearOrder Acc] in
theorem clearUnderperformanceSessionCounter_eq_some {c c' : Chain Acc} {session : Nat}
    (h : c.clearUnderperformanceSessionCounter session = some c') :
    ∃ counts, c' = { c with underperformedValidatorSessionCount := counts } := by
  unfold clearUnderperformanceSessionCounter at h
  split_ifs at h
  · exact ⟨∅, (Option.some.inj h).symm⟩
  · exact ⟨_, (Option.some.inj h).symm⟩

omit [LinearOrder Acc] in
/-- `start_session`: only the active era, the counters, the reward totals and the bans change;
the bans only by the expiry at the start of an era. -/
theorem startSession_eq_some {c c' : Chain Acc} {startIndex : Nat}
    {validatorTotals : List (Acc × Nat)}
    (h : c.startSession cfg startIndex validatorTotals = some c') :
    c'.session = c.session ∧ c'.elections = c.elections ∧ c'.banConfig = c.banConfig ∧
      c'.eras = cfg.staking.startSession c.eras startIndex ∧
      c'.banned = match (cfg.staking.startSession c.eras startIndex).sessionStartsEra startIndex with
        | some era => c.banned.retain fun _ banInfo =>
            !banExpired banInfo.start c.banConfig.banPeriod era
        | none => c.banned := by
  unfold startSession at h
  cases hc : ({ c with eras := cfg.staking.startSession c.eras startIndex } : Chain Acc)
    |>.clearUnderperformanceSessionCounter startIndex with
  | none => simp [hc] at h
  | some c₁ =>
    obtain ⟨counts, rfl⟩ := clearUnderperformanceSessionCounter_eq_some hc
    simp only [hc, Option.bind_eq_bind, Option.bind_some] at h
    cases hera : (cfg.staking.startSession c.eras startIndex).sessionStartsEra startIndex with
    | none =>
      simp only [hera, Option.pure_def, Option.some.injEq] at h
      subst h
      exact ⟨rfl, rfl, rfl, rfl, rfl⟩
    | some era =>
      simp only [hera, Option.pure_def, Option.some.injEq] at h
      subst h
      exact ⟨rfl, rfl, rfl, rfl, rfl⟩

theorem rotateCommittee_frame (cfg : Config S) (c : Chain Acc) (currentSession : Nat) :
    (c.rotateCommittee cfg currentSession).2.session = c.session ∧
      (c.rotateCommittee cfg currentSession).2.elections = c.elections ∧
      (c.rotateCommittee cfg currentSession).2.eras = c.eras ∧
      (c.rotateCommittee cfg currentSession).2.banConfig = c.banConfig ∧
      (c.rotateCommittee cfg currentSession).2.banned = c.banned := by
  unfold rotateCommittee
  dsimp only
  split <;> exact ⟨rfl, rfl, rfl, rfl, rfl⟩

/-- `new_session`: the committee size it reports is the one it leaves current, and it changes
neither the session nor the bans. -/
theorem newSession_eq (cfg : Config S) (c : Chain Acc) (newIndex : Nat) (electedValidators : List Acc) :
    ∃ committee, (c.newSession cfg newIndex electedValidators).2 =
        .newSession newIndex (c.newSession cfg newIndex electedValidators).1.elections.committeeSize
          committee ∧
      (c.newSession cfg newIndex electedValidators).1.session = c.session ∧
      (c.newSession cfg newIndex electedValidators).1.banConfig = c.banConfig ∧
      (c.newSession cfg newIndex electedValidators).1.banned = c.banned := by
  -- the era planning and `on_new_era` touch neither the session, the config nor the bans
  obtain ⟨c₁, hc₁, hs, hb, hban⟩ : ∃ c₁ : Chain Acc,
      c.newSession cfg newIndex electedValidators = ((c₁.rotateCommittee cfg newIndex).2,
        .newSession newIndex c₁.elections.committeeSize (c₁.rotateCommittee cfg newIndex).1) ∧
      c₁.session = c.session ∧ c₁.banConfig = c.banConfig ∧ c₁.banned = c.banned := by
    unfold newSession
    dsimp only
    split <;> exact ⟨_, rfl, rfl, rfl, rfl⟩
  obtain ⟨hs', he', -, hb', hban'⟩ := rotateCommittee_frame cfg c₁ newIndex
  rw [hc₁]
  exact ⟨_, by rw [he'], hs'.trans hs, hb'.trans hb, hban'.trans hban⟩

/-- The rotation at the end of session `S`: it reports the end of `S` with the expected blocks
of the current committee size and the planning of `S + 2` with the committee size it leaves
current; its bans are those of the end of `S`, less the expired ones if `S + 1` starts an
era. -/
theorem rotateSession_eq_some {c c' : Chain Acc} {electedValidators : List Acc}
    {validatorTotals : List (Acc × Nat)} {events : List (Event Acc)}
    (h : c.rotateSession cfg electedValidators validatorTotals = some (c', events)) :
    ∃ blocksToProduce rewards committee c₀,
      blocksToProducePerSession cfg.sessionPeriod c.elections.committeeSize =
        some blocksToProduce ∧
      events = [.endSession c.session blocksToProduce rewards,
        .newSession (c.session + 2) c'.elections.committeeSize committee] ∧
      c'.session = c.session + 1 ∧ Bookkeeping c c₀ ∧ c'.banConfig = c.banConfig ∧
      c'.banned = match (cfg.staking.startSession c.eras (c.session + 1)).sessionStartsEra
          (c.session + 1) with
        | some era => c₀.banned.retain fun _ banInfo =>
            !banExpired banInfo.start c.banConfig.banPeriod era
        | none => c₀.banned := by
  unfold rotateSession at h
  cases he : c.endSession cfg with
  | none => simp [he] at h
  | some r₁ =>
    obtain ⟨c₁, ended⟩ := r₁
    obtain ⟨c₀, blocksToProduce, rewards, hbook, rfl, hb, hended⟩ := endSession_eq_some he
    cases hs : ({ c₀ with sessionValidatorBlockCount := ∅ } : Chain Acc).startSession cfg
      (c.session + 1) validatorTotals with
    | none => simp [he, hs] at h
    | some c₂ =>
      simp only [he, hs, Option.bind_eq_bind, Option.bind_some, Option.pure_def,
        Option.some.injEq, Prod.mk.injEq] at h
      obtain ⟨-, -, hconfig₂, -, hbanned₂⟩ := startSession_eq_some hs
      obtain ⟨committee, hplanned, -, hconfig₃, hbanned₃⟩ :=
        newSession_eq cfg c₂ (c.session + 2) electedValidators
      refine ⟨blocksToProduce, rewards, committee, c₀, hb, ?_, by rw [← h.1], hbook, ?_, ?_⟩
      · rw [← h.2, hended, ← h.1, hplanned]
      · rw [← h.1]
        exact hconfig₃.trans (hconfig₂.trans hbook.banConfig)
      · -- the end of the session kept the eras and the config the expiry reads
        rw [← h.1]
        refine hbanned₃.trans (hbanned₂.trans ?_)
        simp only [hbook.eras, hbook.banConfig]

/-! ## Calls and runs -/

/-- A call other than a rotation reports nothing, keeps the session and the current committee
size, and only adds new bans, unless it is `cancel_ban`. -/
theorem step_of_ne_rotateSession {c c' : Chain Acc} {call : Call Acc} {events : List (Event Acc)}
    (hcall : ∀ electedValidators validatorTotals,
      call ≠ .rotateSession electedValidators validatorTotals)
    (h : c.step cfg call = some (c', events)) :
    events = [] ∧ c'.session = c.session ∧
      c'.elections.committeeSize = c.elections.committeeSize ∧
      (BansGrow c c' ∨ ∃ banned, call = .cancelBan banned ∧ c'.banned = c.banned.erase banned) := by
  cases call with
  | rotateSession electedValidators validatorTotals =>
    exact absurd rfl (hcall electedValidators validatorTotals)
  | banFromCommittee banned banReason =>
    simp only [step] at h
    have hban := bookkeeping_banValidator c banned (.otherReason banReason)
    split_ifs at h <;> obtain ⟨rfl, rfl⟩ := Prod.mk.inj (Option.some.inj h)
    · exact ⟨rfl, hban.session, by rw [hban.elections], .inl hban.toBansGrow⟩
    · exact ⟨rfl, rfl, rfl, .inl (.of_banned_eq rfl)⟩
  | cancelBan banned =>
    obtain ⟨rfl, rfl⟩ := Prod.mk.inj (Option.some.inj h)
    exact ⟨rfl, rfl, rfl, .inr ⟨banned, rfl, rfl⟩⟩
  | setBanConfig p t d b =>
    obtain ⟨rfl, rfl⟩ := Prod.mk.inj (Option.some.inj h)
    unfold setBanConfig
    dsimp only
    split_ifs <;> exact ⟨rfl, rfl, rfl, .inl (.of_banned_eq rfl)⟩
  | setLenientThreshold thresholdPercent =>
    simp only [step] at h
    split_ifs at h <;> obtain ⟨rfl, rfl⟩ := Prod.mk.inj (Option.some.inj h) <;>
      exact ⟨rfl, rfl, rfl, .inl (.of_banned_eq rfl)⟩
  | noteAuthor validator =>
    obtain ⟨rfl, rfl⟩ := Prod.mk.inj (Option.some.inj h)
    exact ⟨rfl, rfl, rfl, .inl (.of_banned_eq rfl)⟩
  -- the elections pallet's calls: only `on_new_era` changes the current committee size
  | changeValidators r nr size =>
    obtain ⟨rfl, rfl⟩ := Prod.mk.inj (Option.some.inj h)
    exact ⟨rfl, rfl, Pallet.committeeSize_step cfg.rng (fun _ _ h => nomatch h),
      .inl (.of_banned_eq rfl)⟩
  | setElectionsOpenness openness =>
    obtain ⟨rfl, rfl⟩ := Prod.mk.inj (Option.some.inj h)
    exact ⟨rfl, rfl, Pallet.committeeSize_step cfg.rng (fun _ _ h => nomatch h),
      .inl (.of_banned_eq rfl)⟩
  | elect targets banned voters maxWinners =>
    obtain ⟨rfl, rfl⟩ := Prod.mk.inj (Option.some.inj h)
    exact ⟨rfl, rfl, Pallet.committeeSize_step cfg.rng (fun _ _ h => nomatch h),
      .inl (.of_banned_eq rfl)⟩

/-- A call is a rotation, or one of the calls between rotations. -/
theorem step_cases {c c' : Chain Acc} {call : Call Acc} {events : List (Event Acc)}
    (h : c.step cfg call = some (c', events)) :
    (∃ electedValidators validatorTotals,
      call = .rotateSession electedValidators validatorTotals ∧
        c.rotateSession cfg electedValidators validatorTotals = some (c', events)) ∨
    (events = [] ∧ c'.session = c.session ∧
      c'.elections.committeeSize = c.elections.committeeSize ∧
      (BansGrow c c' ∨ ∃ banned, call = .cancelBan banned ∧ c'.banned = c.banned.erase banned)) := by
  by_cases hcall : ∃ electedValidators validatorTotals,
      call = .rotateSession electedValidators validatorTotals
  · obtain ⟨electedValidators, validatorTotals, rfl⟩ := hcall
    exact .inl ⟨electedValidators, validatorTotals, rfl, h⟩
  · simp only [not_exists] at hcall
    exact .inr (step_of_ne_rotateSession hcall h)

/-- A run of calls is its first call and the run of the rest. -/
theorem run_cons_eq_some {c c' : Chain Acc} {call : Call Acc} {calls : List (Call Acc)}
    {events : List (Event Acc)} (h : c.run cfg (call :: calls) = some (c', events)) :
    ∃ c₁ events₁ events₂, c.step cfg call = some (c₁, events₁) ∧
      c₁.run cfg calls = some (c', events₂) ∧ events = events₁ ++ events₂ := by
  simp only [run] at h
  cases hstep : c.step cfg call with
  | none => simp [hstep] at h
  | some r₁ =>
    obtain ⟨c₁, events₁⟩ := r₁
    cases hrest : c₁.run cfg calls with
    | none => simp [hstep, hrest] at h
    | some r₂ =>
      obtain ⟨c₂, events₂⟩ := r₂
      simp only [hstep, hrest, Option.bind_eq_bind, Option.bind_some, Option.pure_def,
        Option.some.injEq, Prod.mk.injEq] at h
      obtain ⟨rfl, rfl⟩ := h
      exact ⟨c₁, events₁, events₂, rfl, hrest, rfl⟩

/-! ## The committee size a session end is judged by -/

/-- What the events of a run from genesis say: the sessions `0` to `S + 1` were planned in
order, the current committee size is the one `S + 1` was chosen with, and every session end
reported the expected blocks of the committee size of the session after it. -/
structure Reported (cfg : Config S) (c : Chain Acc) (log : List (Event Acc)) : Prop where
  planned : (log.filterMap Event.chosenSize).map Prod.fst = List.range (c.session + 2)
  current : (c.session + 1, c.elections.committeeSize) ∈ log.filterMap Event.chosenSize
  judged : ∀ session blocksToProduce,
    (session, blocksToProduce) ∈ log.filterMap Event.expectedBlocks →
      ∃ seats, (session + 1, seats) ∈ log.filterMap Event.chosenSize ∧
        blocksToProducePerSession cfg.sessionPeriod seats = some blocksToProduce

/-- A rotation ends `S` with the committee size `S + 1` was chosen with, and plans `S + 2`
with the one it leaves current. -/
theorem Reported.rotateSession {c c' : Chain Acc} {log events : List (Event Acc)}
    {electedValidators : List Acc} {validatorTotals : List (Acc × Nat)}
    (h : Reported cfg c log)
    (hrot : c.rotateSession cfg electedValidators validatorTotals = some (c', events)) :
    Reported cfg c' (log ++ events) := by
  obtain ⟨blocksToProduce, rewards, committee, -, hb, rfl, hs, -⟩ := rotateSession_eq_some hrot
  have hchosen : (log ++ [Event.endSession c.session blocksToProduce rewards,
      Event.newSession (c.session + 2) c'.elections.committeeSize committee]).filterMap
        Event.chosenSize =
      log.filterMap Event.chosenSize ++ [(c.session + 2, c'.elections.committeeSize)] := by
    simp [List.filterMap_cons, Event.chosenSize]
  refine ⟨?_, ?_, ?_⟩
  · rw [hchosen, List.map_append, h.planned, hs]
    -- one session more is planned: S + 2
    exact (List.range_succ (n := c.session + 2)).symm
  · rw [hchosen, hs]
    exact List.mem_append_right _ (List.mem_singleton_self _)
  · intro session blocks hmem
    rw [hchosen]
    simp only [List.filterMap_append, List.mem_append] at hmem
    rcases hmem with hold | hnew
    · obtain ⟨seats, hseats, hblocks⟩ := h.judged session blocks hold
      exact ⟨seats, List.mem_append_left _ hseats, hblocks⟩
    · -- the session just ended: the size it is judged by is the current one
      simp only [List.filterMap_cons, Event.expectedBlocks, List.filterMap_nil,
        List.mem_singleton, Prod.mk.injEq] at hnew
      obtain ⟨rfl, rfl⟩ := hnew
      exact ⟨_, List.mem_append_left _ h.current, hb⟩

theorem Reported.step {c c' : Chain Acc} {log events : List (Event Acc)} {call : Call Acc}
    (h : Reported cfg c log) (hstep : c.step cfg call = some (c', events)) :
    Reported cfg c' (log ++ events) := by
  rcases step_cases hstep with ⟨_, _, -, hrot⟩ | ⟨rfl, hs, hsize, -⟩
  · exact h.rotateSession hrot
  · rw [List.append_nil]
    exact ⟨hs ▸ h.planned, hs ▸ hsize ▸ h.current, h.judged⟩

theorem Reported.run {c c' : Chain Acc} {log events : List (Event Acc)}
    {calls : List (Call Acc)} (h : Reported cfg c log)
    (hrun : c.run cfg calls = some (c', events)) : Reported cfg c' (log ++ events) := by
  induction calls generalizing c log events with
  | nil =>
    obtain ⟨rfl, rfl⟩ := Prod.mk.inj (Option.some.inj hrun)
    rwa [List.append_nil]
  | cons call calls ih =>
    obtain ⟨c₁, events₁, events₂, hstep, hrest, rfl⟩ := run_cons_eq_some hrun
    rw [← List.append_assoc]
    exact ih (h.step hstep) hrest

/-- Genesis plans sessions 0 and 1 in order and starts session 0, which reports no session
end. -/
theorem reported_genesis {elections : GenesisConfig Acc} {banConfig : BanConfigStruct}
    {sessionValidators : SessionValidators Acc} {c : Chain Acc} {log : List (Event Acc)}
    (hg : genesis cfg elections banConfig sessionValidators = some (c, log)) :
    Reported cfg c log := by
  unfold genesis at hg
  dsimp only at hg
  set c₀ : Chain Acc := ⟨0, ⟨none, none, ∅⟩, elections.build, banConfig, ∅, ∅, ∅,
    sessionValidators, sessionValidators, none, PerThing.fromPercent 90⟩
  cases hs : ((c₀.newSession cfg 0 []).1.newSession cfg 1 []).1.startSession cfg 0 [] with
  | none => simp [hs] at hg
  | some c₃ =>
    simp only [hs, Option.bind_eq_bind, Option.bind_some, Option.pure_def, Option.some.injEq,
      Prod.mk.injEq] at hg
    obtain ⟨rfl, rfl⟩ := hg
    obtain ⟨committee₀, hplanned₀, hs₁, -, -⟩ := newSession_eq cfg c₀ 0 []
    obtain ⟨committee₁, hplanned₁, hs₂, -, -⟩ := newSession_eq cfg (c₀.newSession cfg 0 []).1 1 []
    obtain ⟨hs₃, he₃, -⟩ := startSession_eq_some hs
    refine ⟨?_, ?_, ?_⟩
    · simp [Event.chosenSize, hplanned₀, hplanned₁, hs₃, hs₂, hs₁, c₀, List.range_succ]
    · simp [Event.chosenSize, hplanned₀, hplanned₁, hs₃, hs₂, hs₁, c₀, he₃]
    · simp [Event.expectedBlocks, hplanned₀, hplanned₁]

/-- Every ban after a call was there before it, or is a new one: of a validator the elections
pallet let be banned, from the era after the planned one. -/
theorem step_bans {c c' : Chain Acc} {call : Call Acc} {events : List (Event Acc)}
    (h : c.step cfg call = some (c', events)) (v : Acc) (info : BanInfo)
    (hv : c'.banned.lookup v = some info) : c.banned.lookup v = some info ∨ c.NewBan v info := by
  by_cases hcall : ∃ electedValidators validatorTotals,
      call = .rotateSession electedValidators validatorTotals
  · obtain ⟨electedValidators, validatorTotals, rfl⟩ := hcall
    obtain ⟨-, -, -, c₀, -, -, -, hbook, -, hbanned⟩ := rotateSession_eq_some h
    -- the expiry at the start of an era only lifts bans
    have hv₀ : c₀.banned.lookup v = some info := by
      rw [hbanned] at hv
      split at hv
      · rw [AList.lookup_retain] at hv
        exact (Option.filter_eq_some_iff.mp hv).1
      · exact hv
    exact hbook.banned v info hv₀
  · simp only [not_exists] at hcall
    obtain ⟨-, -, -, hgrow | ⟨banned, -, hbanned⟩⟩ := step_of_ne_rotateSession hcall h
    · exact hgrow.banned v info hv
    · -- `cancel_ban` lifts one ban and keeps the others
      left
      rw [hbanned] at hv
      by_cases hb : v = banned
      · subst hb
        simp at hv
      · rwa [AList.lookup_erase_ne hb] at hv

/-- Only `cancel_ban` and the start of an era lift a ban: at the rotation into an era's first
session, the ban the validator then held (its old one, or a new one of the end of the session)
expired against the era. -/
theorem step_lifts_ban {c c' : Chain Acc} {call : Call Acc} {events : List (Event Acc)}
    (h : c.step cfg call = some (c', events)) {v : Acc} (hv : v ∈ c.banned)
    (hv' : v ∉ c'.banned) :
    call = .cancelBan v ∨
      ∃ electedValidators validatorTotals era info,
        call = .rotateSession electedValidators validatorTotals ∧
        (cfg.staking.startSession c.eras (c.session + 1)).sessionStartsEra (c.session + 1) =
          some era ∧
        (c.banned.lookup v = some info ∨ c.NewBan v info) ∧
        banExpired info.start c.banConfig.banPeriod era = true := by
  by_cases hcall : ∃ electedValidators validatorTotals,
      call = .rotateSession electedValidators validatorTotals
  · obtain ⟨electedValidators, validatorTotals, rfl⟩ := hcall
    obtain ⟨-, -, -, c₀, -, -, -, hbook, -, hbanned⟩ := rotateSession_eq_some h
    have hv₀ := hbook.kept v hv
    rw [hbanned] at hv'
    split at hv'
    · next era hera =>
      -- the ban the end of the session left did not pass the expiry
      obtain ⟨info, hinfo⟩ := AList.mem_iff_lookup.mp hv₀
      have hexp : banExpired info.start c.banConfig.banPeriod era = true := by
        by_contra hne
        exact hv' (AList.mem_retain.mpr ⟨info, hinfo, by simpa using hne⟩)
      exact .inr ⟨electedValidators, validatorTotals, era, info, rfl, hera,
        hbook.banned v info hinfo, hexp⟩
    · exact absurd hv₀ hv'
  · simp only [not_exists] at hcall
    obtain ⟨-, -, -, hgrow | ⟨banned, rfl, hbanned⟩⟩ := step_of_ne_rotateSession hcall h
    · exact absurd (hgrow.kept v hv) hv'
    · left
      by_contra hne
      rw [hbanned] at hv'
      exact hv' (AList.mem_erase.mpr ⟨fun hb => hne (by rw [hb]), hv⟩)

/-- What one call, from any storage, does to the bans: every ban after it was there before or
is new, of a validator the elections pallet lets be banned and from the era after the planned
one; and a ban is lifted only by `cancel_ban`, or at the rotation into an era's first session
once it expired against that era. -/
theorem step_bans_new_or_expired {c c' : Chain Acc} {call : Call Acc} {events : List (Event Acc)}
    (h : c.step cfg call = some (c', events)) :
    (∀ v info, c'.banned.lookup v = some info → c.banned.lookup v = some info ∨ c.NewBan v info) ∧
    ∀ v, v ∈ c.banned → v ∉ c'.banned →
      call = .cancelBan v ∨
        ∃ electedValidators validatorTotals era info,
          call = .rotateSession electedValidators validatorTotals ∧
          (cfg.staking.startSession c.eras (c.session + 1)).sessionStartsEra (c.session + 1) =
            some era ∧
          (c.banned.lookup v = some info ∨ c.NewBan v info) ∧
          banExpired info.start c.banConfig.banPeriod era = true :=
  ⟨step_bans h, fun _ hv hv' => step_lifts_ban h hv hv'⟩

theorem step_bans_new_or_expired_sample :
    let cfg : Config Unit := ⟨6, 3, ⟨fun _ => (), fun _ _ => (0, ())⟩, Staking.notForcing 3⟩
    ∃ g c' events, genesis cfg ⟨[2, 3], [1], ⟨1, 1, 1⟩⟩ ⟨PerThing.fromPercent 0, 3, 960, 10⟩
        ⟨[], []⟩ = some g ∧ g.1.step cfg (.banFromCommittee 3 []) = some (c', events) ∧
      ∀ v info, c'.banned.lookup v = some info → g.1.banned.lookup v = some info ∨ g.1.NewBan v info := by
  intro cfg
  obtain ⟨g, hg⟩ : ∃ g, genesis cfg ⟨[2, 3], [1], ⟨1, 1, 1⟩⟩ ⟨PerThing.fromPercent 0, 3, 960, 10⟩
      ⟨[], []⟩ = some g := ⟨_, rfl⟩
  have hstep : g.1.step cfg (.banFromCommittee 3 []) =
      some (g.1.banValidator 3 (.otherReason []), []) := rfl
  exact ⟨g, _, _, hg, hstep, (step_bans_new_or_expired hstep).1⟩

end Chain

/-- The last session of an era is judged with the next era's committee size, for any staking
of the schedule without forcing. Six blocks a session and three sessions an era; the genesis
committee size is one reserved and one non-reserved seat, and the root sets two non-reserved
seats for the next era. Era 1 is planned for session 3 in the rotation at the end of session 1,
whose `new_session(3)` makes its size current; session 2 is then chosen with two seats, three
blocks each, but `end_session(2)` expects two blocks of each of its validators. -/
theorem last_session_of_era_judged_with_next_size (staking : Staking)
    (hstaking : staking.NotForcing 3) :
    let cfg : Config Unit := ⟨6, 3, ⟨fun _ => (), fun _ _ => (0, ())⟩, staking⟩
    let calls : List (Chain.Call Nat) := [.changeValidators none none (some ⟨1, 2, 1⟩),
      .rotateSession [1, 2, 3] [], .rotateSession [1, 2, 3] [], .rotateSession [1, 2, 3] []]
    ((Chain.genesis cfg ⟨[2, 3], [1], ⟨1, 1, 1⟩⟩ ⟨PerThing.fromPercent 0, 3, 960, 10⟩
        ⟨[], []⟩).bind fun g => (g.1.run cfg calls).map fun r =>
          ((g.2 ++ r.2).filterMap Event.chosenSize, (g.2 ++ r.2).filterMap Event.expectedBlocks)) =
      some ([(0, ⟨1, 1, 1⟩), (1, ⟨1, 1, 1⟩), (2, ⟨1, 1, 1⟩), (3, ⟨1, 2, 1⟩), (4, ⟨1, 2, 1⟩)],
        [(0, 3), (1, 3), (2, 2)]) := by
  obtain rfl := hstaking.eq
  decide

theorem last_session_of_era_judged_with_next_size_notForcing :
    (Staking.notForcing 3).NotForcing 3 ∧
    let cfg : Config Unit := ⟨6, 3, ⟨fun _ => (), fun _ _ => (0, ())⟩, Staking.notForcing 3⟩
    let calls : List (Chain.Call Nat) := [.changeValidators none none (some ⟨1, 2, 1⟩),
      .rotateSession [1, 2, 3] [], .rotateSession [1, 2, 3] [], .rotateSession [1, 2, 3] []]
    ((Chain.genesis cfg ⟨[2, 3], [1], ⟨1, 1, 1⟩⟩ ⟨PerThing.fromPercent 0, 3, 960, 10⟩
        ⟨[], []⟩).bind fun g => (g.1.run cfg calls).map fun r =>
          ((g.2 ++ r.2).filterMap Event.chosenSize, (g.2 ++ r.2).filterMap Event.expectedBlocks)) =
      some ([(0, ⟨1, 1, 1⟩), (1, ⟨1, 1, 1⟩), (2, ⟨1, 1, 1⟩), (3, ⟨1, 2, 1⟩), (4, ⟨1, 2, 1⟩)],
        [(0, 3), (1, 3), (2, 2)]) :=
  ⟨Staking.notForcing_notForcing 3,
    last_session_of_era_judged_with_next_size _ (Staking.notForcing_notForcing 3)⟩

/-- A ban meant to last `2 ^ 32 - 1` eras is lifted at the next era, for any staking of the
schedule without forcing. The root sets that ban period, which `set_ban_config` accepts, and
bans validator 3 while era 0 is planned: the ban starts at era 1. Its expiry adds start and
period in `u32`, which wraps to 0, so the rotation into era 1 lifts it. -/
theorem max_ban_period_lifted_at_next_era (staking : Staking) (hstaking : staking.NotForcing 3) :
    let cfg : Config Unit := ⟨6, 3, ⟨fun _ => (), fun _ _ => (0, ())⟩, staking⟩
    let banned : List (Chain.Call Nat) :=
      [.setBanConfig none none none (some (2 ^ 32 - 1)), .banFromCommittee 3 []]
    let rotations : List (Chain.Call Nat) :=
      [.rotateSession [1, 2, 3] [], .rotateSession [1, 2, 3] [], .rotateSession [1, 2, 3] []]
    let g := Chain.genesis cfg ⟨[2, 3], [1], ⟨1, 1, 1⟩⟩ ⟨PerThing.fromPercent 0, 3, 960, 10⟩
      ⟨[], []⟩
    (g.bind fun g => (g.1.run cfg banned).map fun r => r.1.banned.lookup 3) =
        some (some ⟨.otherReason [], 1⟩) ∧
      (g.bind fun g => (g.1.run cfg (banned ++ rotations)).map fun r =>
        (r.1.eras.activeEra, r.1.banned.lookup 3)) = some (some 1, none) := by
  obtain rfl := hstaking.eq
  decide

theorem max_ban_period_lifted_at_next_era_notForcing :
    (Staking.notForcing 3).NotForcing 3 ∧
    let cfg : Config Unit := ⟨6, 3, ⟨fun _ => (), fun _ _ => (0, ())⟩, Staking.notForcing 3⟩
    let banned : List (Chain.Call Nat) :=
      [.setBanConfig none none none (some (2 ^ 32 - 1)), .banFromCommittee 3 []]
    let rotations : List (Chain.Call Nat) :=
      [.rotateSession [1, 2, 3] [], .rotateSession [1, 2, 3] [], .rotateSession [1, 2, 3] []]
    let g := Chain.genesis cfg ⟨[2, 3], [1], ⟨1, 1, 1⟩⟩ ⟨PerThing.fromPercent 0, 3, 960, 10⟩
      ⟨[], []⟩
    (g.bind fun g => (g.1.run cfg banned).map fun r => r.1.banned.lookup 3) =
        some (some ⟨.otherReason [], 1⟩) ∧
      (g.bind fun g => (g.1.run cfg (banned ++ rotations)).map fun r =>
        (r.1.eras.activeEra, r.1.banned.lookup 3)) = some (some 1, none) :=
  ⟨Staking.notForcing_notForcing 3,
    max_ban_period_lifted_at_next_era _ (Staking.notForcing_notForcing 3)⟩

end Selendra.SessionManager
