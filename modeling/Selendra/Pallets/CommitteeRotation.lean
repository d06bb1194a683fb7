import Mathlib

/-! # Committee rotation

`select_committee_inner` of `pallets/committee-management/src/impls.rs`. A session's block
producers are `reserved_seats` reserved validators and `non_reserved_seats` non-reserved ones,
each a window of its list that starts at the session index times the seats, wrapping around;
its finality committee is the reserved window and a window of `non_reserved_finality_seats`
taken again from the non-reserved one. Both lists are then shuffled by one generator seeded
with the session.

The runtime is compiled to `wasm32`, where `usize` has 32 bits, and the start index is
`session.saturating_mul(count)`: once that product passes `usize::MAX` the start stops moving.
Windows here are rotations of the list cut to the seats (`chooseForSession_eq`). The
generator is a parameter: its seeding and `gen_index`, which returns an index in range; the
shuffle is a permutation whatever it draws (`shuffle_perm`). -/

namespace Selendra.CommitteeRotation

/-- `usize::MAX` on `wasm32`. -/
def usizeMax : Nat := 2 ^ 32 - 1

/-- `SessionCommittee` of the primitives. -/
structure SessionCommittee (A : Type) where
  blockProducers : List A
  finalityCommittee : List A
deriving DecidableEq, Repr

/-- A random number generator: seeding from a `u64`, and `gen_index(rng, i + 1)`, an index in
`0..=i`. -/
structure Rng (S : Type) where
  seedFromU64 : Nat → S
  genIndex : S → (i : Nat) → Fin (i + 1) × S

variable {A S : Type}

/-- `choose_for_session`: `count` items of `validators`, at most all of them, from the index
`session * count` on, wrapping around. -/
def chooseForSession (validators : List A) (count session : Nat) : Option (List A) :=
  if h : validators = [] ∨ count = 0 then none
  else
    let validatorsLen := validators.length
    have hlen : 0 < validatorsLen := List.length_pos_iff.mpr (not_or.mp h).1
    let firstIndex := min (session * count) usizeMax % validatorsLen
    some ((List.range (min count validatorsLen)).map fun i =>
      validators.get ⟨min (firstIndex + i) usizeMax % validatorsLen, Nat.mod_lt _ hlen⟩)

/-- `choose_finality_committee`: all of the reserved window, then `non_reserved_seats` taken
from the non-reserved window. -/
def chooseFinalityCommittee (reserved nonReserved : Option (List A))
    (nonReservedSeats session : Nat) : List A :=
  let nonReservedFinalityCommittee :=
    (nonReserved.bind fun nr => chooseForSession nr nonReservedSeats session).getD []
  reserved.getD [] ++ nonReservedFinalityCommittee

/-- `SliceRandom::shuffle`: for `i` from the last index down to `1`, swap the items at `i` and
at an index the generator picks in `0..=i`. -/
def shuffle (rng : Rng S) (xs : List A) (s : S) : List A × S :=
  let step (acc : (Fin xs.length → A) × S) (i : Fin xs.length) : (Fin xs.length → A) × S :=
    let (j, s') := rng.genIndex acc.2 i.val
    (acc.1 ∘ Equiv.swap i ⟨j.val, lt_of_le_of_lt (Nat.le_of_lt_succ j.isLt) i.isLt⟩, s')
  let r := ((List.finRange xs.length).drop 1).reverse.foldl step (xs.get, s)
  (List.ofFn r.1, r.2)

/-- `shuffle_order_for_session`: both lists shuffled by one generator seeded with the session. -/
def shuffleOrderForSession (rng : Rng S) (producers validators : List A) (session : Nat) :
    List A × List A :=
  let s := rng.seedFromU64 session
  let (producers, s) := shuffle rng producers s
  let (validators, _) := shuffle rng validators s
  (producers, validators)

def selectCommitteeInner (rng : Rng S) (currentSession reservedSeats nonReservedSeats
    nonReservedFinalitySeats : Nat) (reserved nonReserved : List A) :
    Option (SessionCommittee A) := do
  let reservedCommittee := chooseForSession reserved reservedSeats currentSession
  let nonReservedCommittee := chooseForSession nonReserved nonReservedSeats currentSession
  let finalityCommittee := chooseFinalityCommittee reservedCommittee nonReservedCommittee
    nonReservedFinalitySeats currentSession
  let blockProducers ← match reservedCommittee, nonReservedCommittee with
    | some rc, some nrc => some (rc ++ nrc)
    | some rc, none => some rc
    | none, some nrc => some nrc
    | none, none => none
  let (blockProducers, finalityCommittee) :=
    shuffleOrderForSession rng blockProducers finalityCommittee currentSession
  pure ⟨blockProducers, finalityCommittee⟩

/-! ## The windows -/

/-- The window `choose_for_session` takes: the list rotated to the saturated start, cut to the
seats; nothing when it chooses nothing. -/
def sessionWindow (validators : List A) (count session : Nat) : List A :=
  if validators = [] ∨ count = 0 then []
  else (validators.rotate (min (session * count) usizeMax)).take count

/-- The start index plus an offset below the list's length stays below `usize::MAX` for a list
of at most `2^31` items, so only the product saturates. -/
theorem chooseForSession_eq {validators : List A} {count : Nat} (session : Nat)
    (hlen : 2 * validators.length ≤ usizeMax + 1) :
    chooseForSession validators count session =
      if validators = [] ∨ count = 0 then none
      else some (sessionWindow validators count session) := by
  by_cases h : validators = [] ∨ count = 0
  · rw [chooseForSession, dif_pos h, if_pos h]
  · rw [chooseForSession, dif_neg h, if_neg h, sessionWindow, if_neg h, Option.some.injEq]
    have hpos : 0 < validators.length := List.length_pos_iff.mpr (not_or.mp h).1
    apply List.ext_getElem
    · simp
    · intro i h₁ h₂
      have hi : i < validators.length := by
        simp only [List.length_map, List.length_range] at h₁
        omega
      have hf := Nat.mod_lt (min (session * count) usizeMax) hpos
      simp only [List.getElem_map, List.getElem_range, List.get_eq_getElem, List.getElem_take,
        List.getElem_rotate]
      congr 1
      rw [min_eq_left (by omega), Nat.add_comm i, Nat.add_mod, Nat.mod_mod, ← Nat.add_mod]

theorem sessionWindow_nodup {validators : List A} (hv : validators.Nodup) (count session : Nat) :
    (sessionWindow validators count session).Nodup := by
  unfold sessionWindow
  split_ifs
  · exact List.nodup_nil
  · exact (List.nodup_rotate.mpr hv).sublist (List.take_sublist _ _)

theorem mem_of_mem_sessionWindow {validators : List A} {count session : Nat} {a : A}
    (h : a ∈ sessionWindow validators count session) : a ∈ validators := by
  unfold sessionWindow at h
  split_ifs at h
  · cases h
  · exact List.mem_rotate.mp (List.mem_of_mem_take h)

theorem length_sessionWindow (validators : List A) (count session : Nat) :
    (sessionWindow validators count session).length = min count validators.length := by
  unfold sessionWindow
  split_ifs with h
  · rcases h with h | h <;> simp [h]
  · simp

/-! ## The shuffle -/

/-- A fold whose every step permutes the items keeps their list a permutation. -/
theorem foldl_comp_perm {n : Nat} (step : (Fin n → A) × S → Fin n → (Fin n → A) × S)
    (hstep : ∀ acc i, ∃ σ : Equiv.Perm (Fin n), (step acc i).1 = acc.1 ∘ σ) :
    ∀ (is : List (Fin n)) (acc : (Fin n → A) × S),
      (List.ofFn (is.foldl step acc).1).Perm (List.ofFn acc.1) := by
  intro is
  induction is with
  | nil => intro acc; exact List.Perm.refl _
  | cons i is ih =>
    intro acc
    obtain ⟨σ, hσ⟩ := hstep acc i
    refine (ih (step acc i)).trans ?_
    rw [hσ]
    exact Equiv.Perm.ofFn_comp_perm σ acc.1

theorem shuffle_perm (rng : Rng S) (xs : List A) (s : S) : (shuffle rng xs s).1.Perm xs := by
  unfold shuffle
  dsimp only
  refine (foldl_comp_perm _ (fun acc i => ⟨_, rfl⟩) _ _).trans ?_
  rw [List.ofFn_get]

theorem shuffleOrderForSession_perm (rng : Rng S) (producers validators : List A) (session : Nat) :
    (shuffleOrderForSession rng producers validators session).1.Perm producers ∧
      (shuffleOrderForSession rng producers validators session).2.Perm validators :=
  ⟨shuffle_perm rng producers _, shuffle_perm rng validators _⟩

/-! ## The committee -/

theorem sessionWindow_of_none {validators : List A} {count : Nat} (session : Nat)
    (h : validators = [] ∨ count = 0) : sessionWindow validators count session = [] := by
  rw [sessionWindow, if_pos h]

@[simp] theorem sessionWindow_nil (count session : Nat) :
    sessionWindow ([] : List A) count session = [] :=
  sessionWindow_of_none session (.inl rfl)

/-- The finality committee before the shuffle: the reserved window and the window of the
finality seats taken from the non-reserved one. -/
theorem chooseFinalityCommittee_eq {R NR : List A} (n rs nrs nrfs : Nat)
    (hlenR : 2 * R.length ≤ usizeMax + 1) (hlenNR : 2 * NR.length ≤ usizeMax + 1) :
    chooseFinalityCommittee (chooseForSession R rs n) (chooseForSession NR nrs n) nrfs n =
      sessionWindow R rs n ++ sessionWindow (sessionWindow NR nrs n) nrfs n := by
  have hlenW : 2 * (sessionWindow NR nrs n).length ≤ usizeMax + 1 := by
    rw [length_sessionWindow]
    omega
  unfold chooseFinalityCommittee
  rw [chooseForSession_eq n hlenR, chooseForSession_eq n hlenNR]
  by_cases hr : R = [] ∨ rs = 0 <;> by_cases hnr : NR = [] ∨ nrs = 0
  · simp [hr, hnr, sessionWindow_of_none n hr, sessionWindow_of_none n hnr]
  · rw [if_pos hr, if_neg hnr, sessionWindow_of_none n hr, Option.bind_some,
      chooseForSession_eq n hlenW]
    split_ifs with hw
    · simp [sessionWindow_of_none n hw]
    · rfl
  · simp [hr, hnr, sessionWindow_of_none n hnr]
  · rw [if_neg hr, if_neg hnr, Option.bind_some, chooseForSession_eq n hlenW]
    split_ifs with hw
    · simp [sessionWindow_of_none n hw]
    · rfl

theorem selectCommitteeInner_eq (rng : Rng S) (n rs nrs nrfs : Nat) {R NR : List A}
    (hlenR : 2 * R.length ≤ usizeMax + 1) (hlenNR : 2 * NR.length ≤ usizeMax + 1) :
    selectCommitteeInner rng n rs nrs nrfs R NR =
      if (R = [] ∨ rs = 0) ∧ (NR = [] ∨ nrs = 0) then none
      else some ⟨(shuffleOrderForSession rng (sessionWindow R rs n ++ sessionWindow NR nrs n)
          (sessionWindow R rs n ++ sessionWindow (sessionWindow NR nrs n) nrfs n) n).1,
        (shuffleOrderForSession rng (sessionWindow R rs n ++ sessionWindow NR nrs n)
          (sessionWindow R rs n ++ sessionWindow (sessionWindow NR nrs n) nrfs n) n).2⟩ := by
  unfold selectCommitteeInner
  dsimp only
  rw [chooseFinalityCommittee_eq n rs nrs nrfs hlenR hlenNR, chooseForSession_eq n hlenR,
    chooseForSession_eq n hlenNR]
  -- the block producers are both windows, an empty one where a list chooses nothing
  by_cases hr : R = [] ∨ rs = 0 <;> by_cases hnr : NR = [] ∨ nrs = 0
  · simp [hr, hnr]
  · simp [hr, hnr, sessionWindow_of_none n hr]
  · simp [hr, hnr, sessionWindow_of_none n hnr]
  · simp [hr, hnr]

/-- A session's committee. It is chosen unless neither list chooses anything. Its block
producers are then a permutation of the reserved and the non-reserved windows, duplicate-free
for duplicate-free disjoint lists; its finality committee is a permutation of the reserved
window and of distinct members of the non-reserved window, as many as the finality seats or
all of the window. -/
theorem selectCommitteeInner_committee (rng : Rng S) (n rs nrs nrfs : Nat) {R NR : List A}
    (hR : R.Nodup) (hNR : NR.Nodup) (hdisj : ∀ a ∈ R, a ∉ NR)
    (hlenR : 2 * R.length ≤ usizeMax + 1) (hlenNR : 2 * NR.length ≤ usizeMax + 1) :
    (selectCommitteeInner rng n rs nrs nrfs R NR = none ↔
      (R = [] ∨ rs = 0) ∧ (NR = [] ∨ nrs = 0)) ∧
    ∀ c, selectCommitteeInner rng n rs nrs nrfs R NR = some c →
      c.blockProducers.Perm (sessionWindow R rs n ++ sessionWindow NR nrs n) ∧
      c.blockProducers.Nodup ∧
      ∃ f, f.Nodup ∧ (∀ a ∈ f, a ∈ sessionWindow NR nrs n) ∧
        f.length = min nrfs (sessionWindow NR nrs n).length ∧
        c.finalityCommittee.Perm (sessionWindow R rs n ++ f) := by
  rw [selectCommitteeInner_eq rng n rs nrs nrfs hlenR hlenNR]
  refine ⟨by split_ifs with h <;> simp [h], fun c hc => ?_⟩
  split_ifs at hc
  cases hc
  obtain ⟨hprod, hfin⟩ := shuffleOrderForSession_perm rng
    (sessionWindow R rs n ++ sessionWindow NR nrs n)
    (sessionWindow R rs n ++ sessionWindow (sessionWindow NR nrs n) nrfs n) n
  -- the two windows are duplicate-free and apart, as the lists they come from
  have hnodup : (sessionWindow R rs n ++ sessionWindow NR nrs n).Nodup :=
    List.nodup_append.mpr ⟨sessionWindow_nodup hR rs n, sessionWindow_nodup hNR nrs n,
      fun a ha b hb hab => hdisj a (mem_of_mem_sessionWindow ha)
        (hab ▸ mem_of_mem_sessionWindow hb)⟩
  refine ⟨hprod, hprod.nodup_iff.mpr hnodup, sessionWindow (sessionWindow NR nrs n) nrfs n,
    sessionWindow_nodup (sessionWindow_nodup hNR nrs n) nrfs n,
    fun a ha => mem_of_mem_sessionWindow ha, length_sessionWindow _ _ _, hfin⟩

/-! ## Where the rotation stops -/

/-- At session `2^31` with two seats over three reserved validators the product saturates: the
window starts at `(2^32 - 1) % 3 = 0` and the block producers are validators 0 and 1, where the
rotation by two seats a session would give validators 1 and 2. -/
theorem selectCommitteeInner_stops_rotating (rng : Rng S) :
    ∃ c, selectCommitteeInner rng (2 ^ 31) 2 0 0 [0, 1, 2] ([] : List Nat) = some c ∧
      c.blockProducers.Perm [0, 1] ∧ ([0, 1, 2].rotate (2 ^ 31 * 2)).take 2 = [1, 2] := by
  have hc := @selectCommitteeInner_committee Nat S rng (2 ^ 31) 2 0 0 [0, 1, 2] []
    (by decide) List.nodup_nil (by simp) (by decide) (by decide)
  obtain ⟨c, hsome⟩ := Option.ne_none_iff_exists'.mp fun h => by simpa using hc.1.mp h
  have hwindow : sessionWindow [0, 1, 2] 2 (2 ^ 31) ++ sessionWindow [] 0 (2 ^ 31) = [0, 1] := by
    decide
  refine ⟨c, hsome, ?_, by decide⟩
  rw [← hwindow]
  exact (hc.2 c hsome).1

end Selendra.CommitteeRotation
