import Mathlib

/-! # The token bucket

`TokenBucket` of `rate-limiter/src/token_bucket.rs`, which the validator network uses to
slow down each connection to `rate_per_second` bytes a second. The bucket holds up to
`rate_per_second` tokens. A request takes what is available. When that is not enough, the
request joins a debt, and the caller is told to wait until the debt is paid. Tokens accrue
lazily: a call converts the time since the last update into tokens, rounded down, pays the
debt from them first, and caps the rest at the bucket's size.

An `Instant` is a count of nanoseconds, a `Duration` returned a count of microseconds, and a
`usize` a natural number with the saturations of the code at `usize::MAX` on the 64-bit
targets the node runs on. The code's `-` on `usize` and `saturating_div` by zero panic: both
are `none` here. So is the assertion that time does not go back.

Two results, over every run. First, the arithmetic never fails while the rate is positive,
and with a zero rate every call for a positive amount panics on the division that computes
the delay. Second, the bucket conforms to its rate: what it let through beyond the
outstanding debt is at most the initial burst plus the tokens accrued since the start, as
long as the total requested fits in a `usize`. -/

namespace Selendra.RateLimiter

/-- `usize::MAX`, which is also `u64::MAX` on the node's targets. -/
def usizeMax : Nat := 2 ^ 64 - 1

def u128Max : Nat := 2 ^ 128 - 1

/-- `-` on `usize`: `none` below zero, where the code panics with overflow checks. -/
def checkedSub (a b : Nat) : Option Nat := if b ≤ a then some (a - b) else none

/-- `saturating_div`, which panics on a zero divisor. -/
def saturatingDiv (a b : Nat) : Option Nat := if b = 0 then none else some (a / b)

@[simp] theorem checkedSub_of_le {a b : Nat} (h : b ≤ a) : checkedSub a b = some (a - b) :=
  if_pos h

@[simp] theorem saturatingDiv_of_pos {a b : Nat} (h : 0 < b) : saturatingDiv a b = some (a / b) :=
  if_neg (Nat.pos_iff_ne_zero.mp h)

@[simp] theorem saturatingDiv_zero (a : Nat) : saturatingDiv a 0 = none := if_pos rfl

structure TokenBucket where
  ratePerSecond : Nat
  available : Nat
  requested : Nat
  lastUpdate : Nat
deriving DecidableEq, Repr

namespace TokenBucket

/-- `new`, at the instant `now` the code reads from the clock. -/
def new (ratePerSecond now : Nat) : TokenBucket :=
  { ratePerSecond, available := ratePerSecond, requested := 0, lastUpdate := now }

def tokenLimit (b : TokenBucket) : Nat := b.ratePerSecond

/-- The delay, in microseconds, that pays the debt at the bucket's rate. -/
def calculateDelay (b : TokenBucket) : Option Nat := do
  let debt ← checkedSub b.requested b.available
  let delayMicros ← saturatingDiv (min (debt * 1000000) usizeMax) b.ratePerSecond
  pure (min delayMicros usizeMax)

/-- The tokens accrued since the last update: the microseconds elapsed times the rate, over
a million, with the saturations of the `u128` product and of the conversion to `usize`. -/
def newUnits (b : TokenBucket) (now : Nat) : Nat :=
  let timeSinceLastUpdate := now - b.lastUpdate
  min (min (timeSinceLastUpdate / 1000 * b.ratePerSecond) u128Max / 1000000) usizeMax

def updateUnits (b : TokenBucket) (now : Nat) : Option (TokenBucket × Nat) := do
  let available := min (b.available + b.newUnits now) usizeMax
  let used := min available b.requested
  let available ← checkedSub available used
  let requested ← checkedSub b.requested used
  let available := min available b.tokenLimit
  pure ({ b with available, requested, lastUpdate := now }, available)

/-- The end of `rate_limit` when the tokens suffice: they are taken, and the rest capped. -/
def takeAvailable (b : TokenBucket) (requested : Nat) : Option TokenBucket := do
  let available ← checkedSub b.available requested
  pure { b with available := min available b.tokenLimit }

/-- `rate_limit`: `none` where the code panics, otherwise the bucket and the delay asked for. -/
def rateLimit (b : TokenBucket) (requested now : Nat) :
    Option (TokenBucket × Option Nat) :=
  if 0 < b.requested ∨ b.available < requested then
    if now < b.lastUpdate then none
    else do
      let (b, available) ← b.updateUnits now
      if available < requested then
        let b := { b with requested := min (b.requested + requested) usizeMax }
        let requiredDelay ← b.calculateDelay
        pure (b, some requiredDelay)
      else
        let b ← b.takeAvailable requested
        pure (b, none)
  else do
    let b ← b.takeAvailable requested
    pure (b, none)

/-- A sequence of calls `(requested, now)`, with the delays they return. -/
def run : TokenBucket → List (Nat × Nat) → Option (TokenBucket × List (Option Nat))
  | b, [] => some (b, [])
  | b, (requested, now) :: calls => do
    let (b, delay) ← b.rateLimit requested now
    let (b, delays) ← run b calls
    pure (b, delay :: delays)

/-! ## What one call does -/

theorem newUnits_le (b : TokenBucket) (now : Nat) :
    b.newUnits now ≤ (now - b.lastUpdate) / 1000 * b.ratePerSecond / 1000000 :=
  (min_le_left _ _).trans (Nat.div_le_div_right (min_le_left _ _))

/-- What an update leaves: the debt is paid from the accrued tokens first, so afterwards one
of the two is zero, and the rest is capped at the bucket's size. -/
structure Updated (b : TokenBucket) (now : Nat) (u : TokenBucket) : Prop where
  rate : u.ratePerSecond = b.ratePerSecond
  lastUpdate : u.lastUpdate = now
  available_le_rate : u.available ≤ b.ratePerSecond
  available_le_max : u.available ≤ usizeMax
  paid : u.available = 0 ∨ u.requested = 0
  requested_le : u.requested ≤ b.requested
  /-- The tokens kept and the debt paid come from the tokens held and accrued. -/
  accounting : u.available + b.requested ≤ b.available + b.newUnits now + u.requested

/-- The update never fails. -/
theorem updateUnits_spec (b : TokenBucket) (now : Nat) :
    ∃ u, b.updateUnits now = some (u, u.available) ∧ Updated b now u := by
  unfold updateUnits
  dsimp only
  rw [checkedSub_of_le (min_le_left _ _), checkedSub_of_le (min_le_right _ _)]
  refine ⟨_, rfl, rfl, rfl, ?_, ?_, ?_, ?_, ?_⟩ <;> simp only [tokenLimit] <;> omega

theorem updated_of_updateUnits {b u : TokenBucket} {now available : Nat}
    (h : b.updateUnits now = some (u, available)) : available = u.available ∧ Updated b now u := by
  obtain ⟨u', hu', hupd⟩ := updateUnits_spec b now
  rw [hu', Option.some.injEq, Prod.mk.injEq] at h
  obtain ⟨rfl, rfl⟩ := h
  exact ⟨rfl, hupd⟩

theorem takeAvailable_of_le {b : TokenBucket} {requested : Nat} (h : requested ≤ b.available) :
    b.takeAvailable requested =
      some { b with available := min (b.available - requested) b.ratePerSecond } := by
  simp [takeAvailable, h, tokenLimit]

/-- A computed delay is the debt, in millionths, over the rate, saturated before the
division. -/
theorem calculateDelay_eq_some {b : TokenBucket} {d : Nat} (h : b.calculateDelay = some d) :
    d = min ((b.requested - b.available) * 1000000) usizeMax / b.ratePerSecond := by
  unfold calculateDelay checkedSub saturatingDiv at h
  -- the two branches that fail, an underflow and a zero rate, cannot have returned
  split_ifs at h with hle hrate <;>
    simp only [Option.bind_eq_bind, Option.bind_none, Option.bind_some, Option.pure_def,
      Option.some.injEq, reduceCtorEq] at h
  rw [← h]
  exact min_eq_left ((Nat.div_le_self _ _).trans (min_le_right _ _))

theorem calculateDelay_eq_none_iff {b : TokenBucket} (h : b.available ≤ b.requested) :
    b.calculateDelay = none ↔ b.ratePerSecond = 0 := by
  rcases Nat.eq_zero_or_pos b.ratePerSecond with hrate | hrate
  · simp [calculateDelay, h, hrate]
  · simp [calculateDelay, h, hrate, Nat.pos_iff_ne_zero.mp hrate]

/-- Every way a call can return: the tokens suffice without an update, or the bucket is
updated and then the tokens suffice, or the request joins the debt and a delay is computed. -/
theorem rateLimit_eq_some {b b' : TokenBucket} {requested now : Nat} {delay : Option Nat}
    (h : b.rateLimit requested now = some (b', delay)) :
    (b.requested = 0 ∧ requested ≤ b.available ∧ delay = none ∧
      b' = { b with available := min (b.available - requested) b.ratePerSecond }) ∨
    ∃ u, b.lastUpdate ≤ now ∧ b.updateUnits now = some (u, u.available) ∧
      ((requested ≤ u.available ∧ delay = none ∧
          b' = { u with available := min (u.available - requested) u.ratePerSecond }) ∨
        (u.available < requested ∧
          b' = { u with requested := min (u.requested + requested) usizeMax } ∧
          ∃ d, delay = some d ∧ b'.calculateDelay = some d)) := by
  unfold rateLimit at h
  split_ifs at h with hcond hnow
  · obtain ⟨u, hu, -⟩ := updateUnits_spec b now
    right
    refine ⟨u, Nat.le_of_not_lt hnow, hu, ?_⟩
    simp only [hu, Option.bind_eq_bind, Option.bind_some] at h
    split_ifs at h with hlt
    · right
      obtain ⟨d, hd, heq⟩ := Option.bind_eq_some_iff.mp h
      simp only [Option.pure_def, Option.some.injEq, Prod.mk.injEq] at heq
      obtain ⟨rfl, rfl⟩ := heq
      exact ⟨hlt, rfl, d, rfl, hd⟩
    · left
      simp only [takeAvailable_of_le (Nat.le_of_not_lt hlt), Option.bind_some, Option.pure_def,
        Option.some.injEq, Prod.mk.injEq] at h
      obtain ⟨rfl, rfl⟩ := h
      exact ⟨Nat.le_of_not_lt hlt, rfl, rfl⟩
  · left
    simp only [not_or, not_lt, Nat.le_zero] at hcond
    simp only [takeAvailable_of_le hcond.2, Option.bind_eq_bind, Option.bind_some, Option.pure_def,
      Option.some.injEq, Prod.mk.injEq] at h
    obtain ⟨rfl, rfl⟩ := h
    exact ⟨hcond.1, hcond.2, rfl, rfl⟩

/-- A call panics exactly where it updates the bucket and then either finds that the clock
went back or has to divide a debt by a zero rate. -/
theorem rateLimit_eq_none_iff (b : TokenBucket) (requested now : Nat) :
    b.rateLimit requested now = none ↔
      (0 < b.requested ∨ b.available < requested) ∧
        (now < b.lastUpdate ∨ b.ratePerSecond = 0 ∧ 0 < requested) := by
  unfold rateLimit
  by_cases hcond : 0 < b.requested ∨ b.available < requested
  · rw [if_pos hcond]
    by_cases hnow : now < b.lastUpdate
    · simp [hcond, hnow]
    obtain ⟨u, hu, ⟨hrate, -, havail, hmax, -⟩⟩ := updateUnits_spec b now
    rw [if_neg hnow]
    simp only [hu, Option.bind_eq_bind, Option.bind_some, hcond, hnow, true_and, false_or]
    by_cases hlt : u.available < requested
    · -- the delay of the new debt is computed, which fails on a zero rate only
      have hle : u.available ≤ min (u.requested + requested) usizeMax := by omega
      have hiff := calculateDelay_eq_none_iff
        (b := { u with requested := min (u.requested + requested) usizeMax }) hle
      rw [if_pos hlt]
      cases hd : ({ u with requested := min (u.requested + requested) usizeMax } : TokenBucket).calculateDelay with
      | none =>
        have h0 : u.ratePerSecond = 0 := hiff.mp hd
        simp only [Option.bind_none, true_iff]
        exact ⟨hrate ▸ h0, by omega⟩
      | some d =>
        simp only [Option.bind_some, Option.pure_def, reduceCtorEq, false_iff, not_and]
        intro h0
        have hnone := hiff.mpr (hrate.trans h0)
        rw [hd] at hnone
        contradiction
    · rw [if_neg hlt, takeAvailable_of_le (Nat.le_of_not_lt hlt)]
      simp only [Option.bind_some, Option.pure_def, reduceCtorEq, false_iff, not_and, not_lt]
      omega
  · rw [if_neg hcond]
    simp only [not_or, not_lt] at hcond
    simp [takeAvailable_of_le hcond.2, Option.bind_eq_bind]
    omega

/-- A call keeps the rate, and either keeps the instant of the last update or moves it to the
call's instant, which is not earlier. -/
theorem rateLimit_frame {b b' : TokenBucket} {requested now : Nat} {delay : Option Nat}
    (h : b.rateLimit requested now = some (b', delay)) :
    b'.ratePerSecond = b.ratePerSecond ∧ b.lastUpdate ≤ b'.lastUpdate ∧
      (b'.lastUpdate = b.lastUpdate ∨ b'.lastUpdate = now) := by
  rcases rateLimit_eq_some h with ⟨-, -, -, rfl⟩ | ⟨u, hnow, hu, ⟨-, -, rfl⟩ | ⟨-, rfl, -⟩⟩
  · exact ⟨rfl, le_rfl, Or.inl rfl⟩
  all_goals
    obtain ⟨-, hupd⟩ := updated_of_updateUnits hu
    exact ⟨hupd.rate, hupd.lastUpdate ▸ hnow, Or.inr hupd.lastUpdate⟩

/-- Every returned delay is the debt left, in millionths, over the rate. -/
theorem rateLimit_delay {b b' : TokenBucket} {requested now d : Nat}
    (h : b.rateLimit requested now = some (b', some d)) :
    d = min ((b'.requested - b'.available) * 1000000) usizeMax / b'.ratePerSecond := by
  rcases rateLimit_eq_some h with ⟨-, -, hd, -⟩ | ⟨u, -, -, ⟨-, hd, -⟩ | ⟨-, -, d', hd, hcalc⟩⟩
  · cases hd
  · cases hd
  · cases hd
    exact calculateDelay_eq_some hcalc

/-- At a positive rate a call returns whenever the clock has not gone back. -/
theorem rateLimit_returns {b : TokenBucket} {requested now : Nat} (hrate : 0 < b.ratePerSecond)
    (hnow : b.lastUpdate ≤ now) : ∃ b' delay, b.rateLimit requested now = some (b', delay) := by
  have hsome : b.rateLimit requested now ≠ none := by
    rw [Ne, rateLimit_eq_none_iff]
    omega
  obtain ⟨⟨b', delay⟩, h⟩ := Option.ne_none_iff_exists'.mp hsome
  exact ⟨b', delay, h⟩

/-- A run returns one delay for each call. -/
theorem run_length : ∀ (calls : List (Nat × Nat)) {b b' : TokenBucket} {delays : List (Option Nat)},
    b.run calls = some (b', delays) → delays.length = calls.length
  | [], b, b', delays, h => by
    simp only [run, Option.some.injEq, Prod.mk.injEq] at h
    rw [← h.2]
    rfl
  | (requested, now) :: calls, b, b', delays, h => by
    simp only [run, Option.bind_eq_bind, Option.bind_eq_some_iff] at h
    obtain ⟨⟨b₁, delay⟩, -, ⟨b₂, delays'⟩, hrun, heq⟩ := h
    simp only [Option.pure_def, Option.some.injEq, Prod.mk.injEq] at heq
    rw [← heq.2, List.length_cons, run_length calls hrun, List.length_cons]

/-- The last delay of a run is that of a call which left the run's final bucket. -/
theorem run_lastDelay : ∀ (calls : List (Nat × Nat)) {b b' : TokenBucket}
    {delays : List (Option Nat)} {delay : Option Nat},
    b.run calls = some (b', delays) → delays.getLast? = some delay →
      ∃ (b₀ : TokenBucket) (requested now : Nat), b₀.rateLimit requested now = some (b', delay)
  | [], b, b', delays, delay, h, hlast => by
    simp only [run, Option.some.injEq, Prod.mk.injEq] at h
    rw [← h.2] at hlast
    cases hlast
  | (requested, now) :: calls, b, b', delays, delay, h, hlast => by
    simp only [run, Option.bind_eq_bind, Option.bind_eq_some_iff] at h
    obtain ⟨⟨b₁, delay₁⟩, h₁, ⟨b₂, delays'⟩, hrun, heq⟩ := h
    simp only [Option.pure_def, Option.some.injEq, Prod.mk.injEq] at heq
    obtain ⟨rfl, rfl⟩ := heq
    cases delays' with
    | nil =>
      -- the call was the last one, so the run after it is empty
      have hcalls : calls = [] := List.length_eq_zero_iff.mp (run_length calls hrun).symm
      subst hcalls
      simp only [run, Option.some.injEq, Prod.mk.injEq] at hrun
      rw [List.getLast?_singleton, Option.some.injEq] at hlast
      rw [← hrun.1, ← hlast]
      exact ⟨b, requested, now, h₁⟩
    | cons delay' delays' =>
      rw [List.getLast?_cons_cons] at hlast
      exact run_lastDelay calls hrun hlast

/-- Instants non-decreasing from the last update stay so from the next one. -/
theorem pairwise_of_lastUpdate {last now last' : Nat} {rest : List Nat}
    (h : (last :: now :: rest).Pairwise (· ≤ ·)) (hlast : last' = last ∨ last' = now) :
    (last' :: rest).Pairwise (· ≤ ·) := by
  rcases hlast with rfl | rfl
  · exact h.sublist (List.Sublist.cons_cons _ (List.sublist_cons_self _ _))
  · exact h.sublist (List.sublist_cons_self _ _)

/-! ## No panic at a positive rate, and a panic at a zero one -/

/-- What holds after every call that returns: at most a bucket's worth of tokens, and a debt
only where the tokens do not cover it. -/
def Settled (b : TokenBucket) : Prop :=
  b.available ≤ b.ratePerSecond ∧ (b.requested = 0 ∨ b.available < b.requested)

instance (b : TokenBucket) : Decidable b.Settled := by unfold Settled; infer_instance

/-- Every call that returns leaves the bucket settled, whatever the bucket was. -/
theorem rateLimit_settled {b b' : TokenBucket} {requested now : Nat} {delay : Option Nat}
    (h : b.rateLimit requested now = some (b', delay)) (hreq : requested ≤ usizeMax) :
    b'.Settled := by
  rcases rateLimit_eq_some h with ⟨hq, -, -, rfl⟩ | ⟨u, -, hu, ⟨-, -, rfl⟩ | ⟨hlt, rfl, -⟩⟩
  · exact ⟨min_le_right _ _, Or.inl hq⟩
  · -- after the update either nothing is owed, or nothing is held and nothing is taken
    obtain ⟨-, hupd⟩ := updated_of_updateUnits hu
    have hpaid := hupd.paid
    refine ⟨min_le_right _ _, ?_⟩
    dsimp only
    omega
  · obtain ⟨-, hupd⟩ := updated_of_updateUnits hu
    have hrate := hupd.rate
    have hle := hupd.available_le_rate
    refine ⟨?_, Or.inr ?_⟩ <;> dsimp only <;> omega

/-- Both fields are positive after a request beyond the tokens: settled is not "one of them
is zero". -/
example : (TokenBucket.new 10 0).rateLimit 12 0 = some (⟨10, 10, 12, 0⟩, some 200000) := by
  decide

/-- At a positive rate, every run whose calls come at non-decreasing instants from the last
update returns, and leaves the bucket settled. -/
theorem run_settled : ∀ (calls : List (Nat × Nat)) (b : TokenBucket), 0 < b.ratePerSecond →
    b.Settled → (b.lastUpdate :: calls.map Prod.snd).Pairwise (· ≤ ·) →
    (∀ c ∈ calls, c.1 ≤ usizeMax) →
    ∃ b' delays, b.run calls = some (b', delays) ∧ b'.ratePerSecond = b.ratePerSecond ∧ b'.Settled
  | [], b, _, hset, _, _ => ⟨b, [], rfl, rfl, hset⟩
  | (requested, now) :: calls, b, hrate, _, htimes, hreq => by
    have hnow : b.lastUpdate ≤ now := List.rel_of_pairwise_cons htimes List.mem_cons_self
    obtain ⟨b₁, delay, h₁⟩ : ∃ b₁ delay, b.rateLimit requested now = some (b₁, delay) :=
      rateLimit_returns hrate hnow
    obtain ⟨hrate₁, -, hlast₁⟩ := rateLimit_frame h₁
    have hset₁ := rateLimit_settled h₁ (hreq _ List.mem_cons_self)
    obtain ⟨b', delays, hrun, hrate', hset'⟩ := run_settled calls b₁ (hrate₁ ▸ hrate) hset₁
      (pairwise_of_lastUpdate htimes hlast₁) (fun c hc => hreq c (List.mem_cons_of_mem _ hc))
    refine ⟨b', delay :: delays, ?_, hrate'.trans hrate₁, hset'⟩
    simp only [run, h₁, hrun, Option.bind_eq_bind, Option.bind_some, Option.pure_def]

/-- A bucket of rate zero, as the node builds from a zero bit rate on its command line. Its
first call for a positive amount updates the bucket, gets no tokens, and divides the debt by
the rate; calls for nothing before it leave the bucket as it was. -/
theorem zero_rate_run_panics (t0 : Nat) :
    ∀ (calls : List (Nat × Nat)), (∃ c ∈ calls, 0 < c.1) → (TokenBucket.new 0 t0).run calls = none
  | [], ⟨c, hc, _⟩ => by cases hc
  | (requested, now) :: calls, ⟨c, hc, hpos⟩ => by
    rcases Nat.eq_zero_or_pos requested with rfl | hreq
    · have hstep : (TokenBucket.new 0 t0).rateLimit 0 now = some (TokenBucket.new 0 t0, none) := by
        simp [rateLimit, new, takeAvailable, tokenLimit]
      have htail : ∃ c ∈ calls, 0 < c.1 := by
        rcases List.mem_cons.mp hc with rfl | hc
        · cases hpos
        · exact ⟨c, hc, hpos⟩
      simp only [run, hstep, zero_rate_run_panics t0 calls htail, Option.bind_eq_bind,
        Option.bind_some, Option.bind_none]
    · have hstep : (TokenBucket.new 0 t0).rateLimit requested now = none :=
        (rateLimit_eq_none_iff _ _ _).mpr ⟨Or.inr hreq, Or.inr ⟨rfl, hreq⟩⟩
      simp only [run, hstep, Option.bind_eq_bind, Option.bind_none]

theorem zero_rate_run_panics_at_first_call :
    (∃ c ∈ [(1, 0)], 0 < c.1) ∧ (TokenBucket.new 0 0).run [(1, 0)] = none :=
  ⟨⟨(1, 0), List.mem_singleton_self _, Nat.one_pos⟩,
    zero_rate_run_panics 0 [(1, 0)] ⟨(1, 0), List.mem_singleton_self _, Nat.one_pos⟩⟩

/-! ## Conformance to the rate -/

/-- The bound of conformance after requests totalling `total` from the start `t0`: what was
let through beyond the debt is at most the initial burst plus the tokens accrued since `t0`,
in millionths so that the division is exact. -/
def Conforms (t0 total : Nat) (b : TokenBucket) : Prop :=
  t0 ≤ b.lastUpdate ∧ b.requested ≤ total ∧
    (total - b.requested + b.available) * 1000000 ≤
      b.ratePerSecond * (1000000 + (b.lastUpdate - t0) / 1000)

theorem conforms_new (r t0 : Nat) : Conforms t0 0 (TokenBucket.new r t0) := by
  refine ⟨le_rfl, le_rfl, ?_⟩
  simp [new]

/-- An update at `now` keeps the bound when what the call lets through beyond the debt grows
by at most the tokens accrued: the accruals are floors, and floors of the time since the last
update add up to at most the floor of the time since the start. -/
theorem conforms_of_accrued {t0 total total' now : Nat} {b b' : TokenBucket}
    (hconf : Conforms t0 total b) (hnow : b.lastUpdate ≤ now)
    (hrate : b'.ratePerSecond = b.ratePerSecond) (hlast : b'.lastUpdate = now)
    (hreq : b'.requested ≤ total')
    (hgrow : total' - b'.requested + b'.available ≤
      total - b.requested + b.available + b.newUnits now) :
    Conforms t0 total' b' := by
  obtain ⟨ht0, -, hbound⟩ := hconf
  have hT : (b.lastUpdate - t0) / 1000 + (now - b.lastUpdate) / 1000 ≤ (now - t0) / 1000 := by
    have hsplit : b.lastUpdate - t0 + (now - b.lastUpdate) = now - t0 := by omega
    exact hsplit ▸ Nat.div_add_div_le_add_div
  have hacc : b.newUnits now * 1000000 ≤ (now - b.lastUpdate) / 1000 * b.ratePerSecond :=
    (Nat.mul_le_mul_right _ (newUnits_le b now)).trans (Nat.div_mul_le_self _ _)
  have hmono : b.ratePerSecond * (1000000 + (b.lastUpdate - t0) / 1000) +
      (now - b.lastUpdate) / 1000 * b.ratePerSecond ≤
        b.ratePerSecond * (1000000 + (now - t0) / 1000) :=
    calc _ = b.ratePerSecond *
          (1000000 + ((b.lastUpdate - t0) / 1000 + (now - b.lastUpdate) / 1000)) := by ring
      _ ≤ _ := Nat.mul_le_mul_left _ (by omega)
  refine ⟨by omega, hreq, ?_⟩
  rw [hrate, hlast]
  calc (total' - b'.requested + b'.available) * 1000000
      ≤ (total - b.requested + b.available + b.newUnits now) * 1000000 :=
        Nat.mul_le_mul_right _ hgrow
    _ = (total - b.requested + b.available) * 1000000 + b.newUnits now * 1000000 :=
        Nat.add_mul _ _ _
    _ ≤ _ := (Nat.add_le_add hbound hacc).trans hmono

/-- One call keeps the bound, as long as the requests so far fit in a `usize`: then the debt
never saturates and no request is forgotten. -/
theorem rateLimit_conforms {t0 total requested now : Nat} {b b' : TokenBucket}
    {delay : Option Nat} (hconf : Conforms t0 total b) (htotal : total + requested ≤ usizeMax)
    (h : b.rateLimit requested now = some (b', delay)) : Conforms t0 (total + requested) b' := by
  have hreq := hconf.2.1
  rcases rateLimit_eq_some h with ⟨hq, hle, -, rfl⟩ | ⟨u, hnow, hu, ⟨hle, -, rfl⟩ | ⟨hlt, rfl, -⟩⟩
  · -- tokens taken without an update: nothing accrues, and the bound does not grow
    obtain ⟨ht0, -, hbound⟩ := hconf
    refine ⟨ht0, by simp [hq], le_trans (Nat.mul_le_mul_right _ ?_) hbound⟩
    dsimp only
    omega
  all_goals
    obtain ⟨-, hupd⟩ := updated_of_updateUnits hu
    have hacct := hupd.accounting
    have hreq' := hupd.requested_le
    refine conforms_of_accrued hconf hnow hupd.rate hupd.lastUpdate ?_ ?_ <;> dsimp only <;> omega

theorem run_conforms (t0 : Nat) : ∀ (calls : List (Nat × Nat)) (b : TokenBucket) (total : Nat),
    0 < b.ratePerSecond → Conforms t0 total b →
    (b.lastUpdate :: calls.map Prod.snd).Pairwise (· ≤ ·) →
    total + (calls.map Prod.fst).sum ≤ usizeMax →
    ∃ b' delays, b.run calls = some (b', delays) ∧ b'.ratePerSecond = b.ratePerSecond ∧
      Conforms t0 (total + (calls.map Prod.fst).sum) b'
  | [], b, total, _, hconf, _, _ => ⟨b, [], rfl, rfl, hconf⟩
  | (requested, now) :: calls, b, total, hrate, hconf, htimes, htotal => by
    simp only [List.map_cons, List.sum_cons] at htotal ⊢
    have hnow : b.lastUpdate ≤ now := List.rel_of_pairwise_cons htimes List.mem_cons_self
    obtain ⟨b₁, delay, h₁⟩ : ∃ b₁ delay, b.rateLimit requested now = some (b₁, delay) :=
      rateLimit_returns hrate hnow
    obtain ⟨hrate₁, -, hlast₁⟩ := rateLimit_frame h₁
    have hconf₁ := rateLimit_conforms hconf (by omega) h₁
    obtain ⟨b', delays, hrun, hrate', hconf'⟩ := run_conforms t0 calls b₁ (total + requested)
      (hrate₁ ▸ hrate) hconf₁ (pairwise_of_lastUpdate htimes hlast₁) (by omega)
    refine ⟨b', delay :: delays, ?_, hrate'.trans hrate₁, ?_⟩
    · simp only [run, h₁, hrun, Option.bind_eq_bind, Option.bind_some, Option.pure_def]
    · rwa [Nat.add_assoc] at hconf'

/-- The token bucket conforms to its rate. From the start `t0`, over calls at non-decreasing
instants whose requests total at most `usize::MAX`, every call returns; afterwards the debt
is part of what was requested, what was let through beyond it is at most the initial burst
plus the tokens accrued since `t0`, and the last delay returned is the debt left, in
millionths, over the rate. -/
theorem tokenBucket_conforms (r t0 : Nat) (hr : 0 < r) (calls : List (Nat × Nat))
    (htimes : (t0 :: calls.map Prod.snd).Pairwise (· ≤ ·))
    (htotal : (calls.map Prod.fst).sum ≤ usizeMax) :
    ∃ b delays, (TokenBucket.new r t0).run calls = some (b, delays) ∧
      b.requested ≤ (calls.map Prod.fst).sum ∧
      ((calls.map Prod.fst).sum - b.requested + b.available) * 1000000 ≤
        r * (1000000 + (b.lastUpdate - t0) / 1000) ∧
      ∀ d, delays.getLast? = some (some d) →
        d = min ((b.requested - b.available) * 1000000) usizeMax / r := by
  obtain ⟨b, delays, hrun, hrate, -, hreq, hbound⟩ :=
    run_conforms t0 calls (TokenBucket.new r t0) 0 hr (conforms_new r t0) htimes
      (by rwa [Nat.zero_add])
  have hrate' : b.ratePerSecond = r := hrate
  rw [Nat.zero_add] at hreq hbound
  refine ⟨b, delays, hrun, hreq, hrate' ▸ hbound, fun d hd => ?_⟩
  obtain ⟨b₀, requested, now, h⟩ := run_lastDelay calls hrun hd
  rw [rateLimit_delay h, hrate']

theorem tokenBucket_conforms_sample :
    0 < 10 ∧ ([0, 0, 2000000000].Pairwise (· ≤ ·)) ∧ ([12, 5].sum ≤ usizeMax) ∧
      ∃ b delays, (TokenBucket.new 10 0).run [(12, 0), (5, 2000000000)] = some (b, delays) ∧
        b.requested ≤ [12, 5].sum ∧
        ([12, 5].sum - b.requested + b.available) * 1000000 ≤
          10 * (1000000 + (b.lastUpdate - 0) / 1000) ∧
        ∀ d, delays.getLast? = some (some d) →
          d = min ((b.requested - b.available) * 1000000) usizeMax / 10 :=
  ⟨by decide, by decide, by decide,
    tokenBucket_conforms 10 0 (by decide) [(12, 0), (5, 2000000000)] (by decide) (by decide)⟩

/-- Requests that saturate the debt break the bound: two calls for `usize::MAX` at the start,
at rate one, let through `usize::MAX` beyond the debt, where the bound is one. -/
theorem tokenBucket_saturated_debt_exceeds :
    ∃ b delays, (TokenBucket.new 1 0).run [(usizeMax, 0), (usizeMax, 0)] = some (b, delays) ∧
      ¬ (([usizeMax, usizeMax].sum - b.requested + b.available) * 1000000 ≤
        1 * (1000000 + (b.lastUpdate - 0) / 1000)) :=
  ⟨⟨1, 0, usizeMax, 0⟩, [some usizeMax, some usizeMax], by decide +kernel, by decide +kernel⟩

end TokenBucket

end Selendra.RateLimiter
