import Selendra.Sync.Forest.Bounds
import Selendra.Block.ChainStatus
import Selendra.Session.Basic
import Selendra.Control.Loop

/-! # Finalizing what the forest has justified

`Handler::try_finalize` of `sync/handler/mod.rs`. From the block above the top finalized one
it takes the justifications of consecutive blocks out of the forest and hands them to the
finalizer; when the next block has none, it tries the last block of that block's session,
whose justification can come without those of the blocks below it, and goes on above it if
there was one. Both loops run on fuel (`Except.repeatUntil`). Every round that goes on takes a
vertex out of the forest, so one round more than there are vertices is enough for both, and
more fuel changes nothing (`tryFinalizeWith_stable`).

From a reachable forest the justifications go to the finalizer in increasing order of their
blocks, all above the top finalized block, and when `try_finalize` returns, neither the next
block nor the last block of its session has a justification in the forest
(`tryFinalize_in_order`). -/

namespace Selendra.Sync

/-- `Finalizer`: it finalizes a justification or fails, as it decides from what it has
finalized before; in the node it is the client's finality. -/
structure Finalizer (J Z : Type) where
  finalize : List J → J → Except Z Unit

/-- The part of `Handler` that `try_finalize` reads and changes, with what the finalizer has
finalized, oldest first. -/
structure Handler (B I J H E Z : Type) where
  chainStatus : ChainStatus B J H E
  finalizer : Finalizer J Z
  finalized : List J
  forest : Forest I H J
  sessionInfo : SessionBoundaryInfo

namespace Handler

set_option linter.unusedSectionVars false

variable {B I J H E Z : Type} [DecidableEq I] [LruCache.Ops I Unit] [Header H] [Justification J H]

/-- The errors `try_finalize` can end with; the `panic!` of `Forest::try_finalize` is one of
them here. -/
inductive Error (E Z : Type) where
  | chainStatus (e : E)
  | finalizer (e : Z)
  | forestPanic (msg : String)

/-- `justification.header().id().number()`. -/
def numberOf (justification : J) : Nat := (Header.id (Justification.header justification)).number

def vertexCount (h : Handler B I J H E Z) : Nat := h.forest.vertices.keys.length

/-- `self.forest.try_finalize(&number)`, and the justification it returns handed to the
finalizer (`self.finalizer.finalize(justification)?`): whether there was one. An error comes
with the handler as it was left. -/
def finalizeAt (h : Handler B I J H E Z) (number : Nat) :
    Except (Error E Z × Handler B I J H E Z) (Bool × Handler B I J H E Z) :=
  match h.forest.tryFinalize number with
  | .error msg => .error (.forestPanic msg, h)
  | .ok (none, forest) => .ok (false, { h with forest })
  | .ok (some justification, forest) =>
    match h.finalizer.finalize h.finalized justification with
    | .ok () => .ok (true, { h with forest, finalized := h.finalized ++ [justification] })
    | .error e => .error (.finalizer e, { h with forest })

/-- A round of `while let Some(justification) = self.forest.try_finalize(&number)`: done when
the forest has no justification at `number`. -/
def finalizeNext (s : Nat × Handler B I J H E Z) :
    Except (Error E Z × Handler B I J H E Z) (Bool × (Nat × Handler B I J H E Z)) :=
  match s.2.finalizeAt s.1 with
  | .error e => .error e
  | .ok (true, h) => .ok (false, (s.1 + 1, h))
  | .ok (false, h) => .ok (true, (s.1, h))

/-- A round of the outer `loop`: the consecutive justified blocks, then the last block of the
session reached; done when that one has no justification either. Done, it keeps the number
before the jump, where the consecutive blocks stopped: the code returns there and never
reads the number again. -/
def tryFinalizeRound (fuel : Nat) (s : Nat × Handler B I J H E Z) :
    Except (Error E Z × Handler B I J H E Z) (Bool × (Nat × Handler B I J H E Z)) :=
  match Except.repeatUntil finalizeNext fuel s with
  | .error e => .error e
  | .ok (number, h) =>
    let last := h.sessionInfo.lastBlockOfSession (h.sessionInfo.sessionIdFromBlockNum number)
    match h.finalizeAt last with
    | .error e => .error e
    | .ok (true, h) => .ok (false, (last + 1, h))
    | .ok (false, h) => .ok (true, (number, h))

/-- `try_finalize`, both loops on `fuel`. -/
def tryFinalizeWith (fuel : Nat) (h : Handler B I J H E Z) :
    Except (Error E Z) Unit × Handler B I J H E Z :=
  match h.chainStatus.topFinalized with
  | .error e => (.error (.chainStatus e), h)
  | .ok topFinalized =>
    match Except.repeatUntil (tryFinalizeRound fuel) fuel (numberOf topFinalized + 1, h) with
    | .ok (_, h) => (.ok (), h)
    | .error (e, h) => (.error e, h)

/-- `try_finalize`, with one round more than there are vertices. -/
def tryFinalize (h : Handler B I J H E Z) : Except (Error E Z) Unit × Handler B I J H E Z :=
  h.tryFinalizeWith (h.vertexCount + 1)

/-! ## What a round can do -/

section Rounds

variable {h h' : Handler B I J H E Z} {number : Nat}

theorem finalizeAt_false (hr : h.finalizeAt number = .ok (false, h')) :
    h' = h ∧ h.forest.tryFinalize number = .ok (none, h.forest) := by
  unfold finalizeAt at hr
  cases ht : h.forest.tryFinalize number with
  | error msg => simp only [ht, reduceCtorEq] at hr
  | ok r =>
    obtain ⟨j, g⟩ := r
    cases j with
    | none =>
      have hg : g = h.forest := Forest.tryFinalize_none h.forest ht
      subst hg
      simp only [ht, Except.ok.injEq, Prod.mk.injEq, true_and] at hr
      exact ⟨hr.symm, rfl⟩
    | some j =>
      simp only [ht] at hr
      cases hfin : h.finalizer.finalize h.finalized j with
      | ok u => simp only [hfin, Except.ok.injEq, Prod.mk.injEq, Bool.true_eq_false, false_and] at hr
      | error e => simp only [hfin, reduceCtorEq] at hr

theorem finalizeAt_true (hr : h.finalizeAt number = .ok (true, h')) :
    ∃ j g, h.forest.tryFinalize number = .ok (some j, g) ∧
      h' = { h with forest := g, finalized := h.finalized ++ [j] } := by
  unfold finalizeAt at hr
  cases ht : h.forest.tryFinalize number with
  | error msg => simp only [ht, reduceCtorEq] at hr
  | ok r =>
    obtain ⟨j, g⟩ := r
    cases j with
    | none => simp only [ht, Except.ok.injEq, Prod.mk.injEq, Bool.false_eq_true, false_and] at hr
    | some j =>
      simp only [ht] at hr
      cases hfin : h.finalizer.finalize h.finalized j with
      | ok u =>
        simp only [hfin, Except.ok.injEq, Prod.mk.injEq, true_and] at hr
        exact ⟨j, g, rfl, hr.symm⟩
      | error e => simp only [hfin, reduceCtorEq] at hr

theorem finalizeAt_error {e : Error E Z} (hr : h.finalizeAt number = .error (e, h')) :
    h' = h ∨ ∃ j g, h.forest.tryFinalize number = .ok (some j, g) ∧ h' = { h with forest := g } := by
  unfold finalizeAt at hr
  cases ht : h.forest.tryFinalize number with
  | error msg =>
    simp only [ht, Except.error.injEq, Prod.mk.injEq] at hr
    exact Or.inl hr.2.symm
  | ok r =>
    obtain ⟨j, g⟩ := r
    cases j with
    | none => simp only [ht, reduceCtorEq] at hr
    | some j =>
      simp only [ht] at hr
      cases hfin : h.finalizer.finalize h.finalized j with
      | ok u => simp only [hfin, reduceCtorEq] at hr
      | error e' =>
        simp only [hfin, Except.error.injEq, Prod.mk.injEq] at hr
        exact Or.inr ⟨j, g, rfl, hr.2.symm⟩

/-- A round of the consecutive blocks that did not fail: it finalized nothing and is done, or
went on one block higher. -/
theorem finalizeNext_cases {s s' : Nat × Handler B I J H E Z} {b : Bool}
    (hr : finalizeNext s = .ok (b, s')) :
    (b = true ∧ s' = s ∧ s.2.forest.tryFinalize s.1 = .ok (none, s.2.forest)) ∨
    (b = false ∧ s'.1 = s.1 + 1 ∧ s.2.finalizeAt s.1 = .ok (true, s'.2)) := by
  unfold finalizeNext at hr
  cases hf : s.2.finalizeAt s.1 with
  | error e => simp only [hf, reduceCtorEq] at hr
  | ok r =>
    obtain ⟨c, h⟩ := r
    cases c with
    | true =>
      simp only [hf, Except.ok.injEq, Prod.mk.injEq] at hr
      obtain ⟨rfl, rfl⟩ := hr
      exact Or.inr ⟨rfl, rfl, rfl⟩
    | false =>
      simp only [hf, Except.ok.injEq, Prod.mk.injEq] at hr
      obtain ⟨rfl, rfl⟩ := hr
      obtain ⟨rfl, ht⟩ := finalizeAt_false hf
      exact Or.inl ⟨rfl, rfl, ht⟩

theorem finalizeNext_error {s : Nat × Handler B I J H E Z} {e : Error E Z × Handler B I J H E Z}
    (hr : finalizeNext s = .error e) : s.2.finalizeAt s.1 = .error e := by
  unfold finalizeNext at hr
  cases hf : s.2.finalizeAt s.1 with
  | error e' =>
    simp only [hf, Except.error.injEq] at hr
    rw [hr]
  | ok r =>
    obtain ⟨c, h⟩ := r
    cases c <;> simp only [hf, reduceCtorEq] at hr

/-- A round of the outer loop that did not fail: the consecutive blocks from where it
started, then the last block of the session they reached, which went on above it or was
the end. -/
theorem tryFinalizeRound_cases {fuel : Nat} {s s' : Nat × Handler B I J H E Z} {b : Bool}
    (hr : tryFinalizeRound fuel s = .ok (b, s')) :
    ∃ number h₁, Except.repeatUntil finalizeNext fuel s = .ok (number, h₁) ∧
      let last := h₁.sessionInfo.lastBlockOfSession (h₁.sessionInfo.sessionIdFromBlockNum number)
      (b = true ∧ s' = (number, h₁) ∧ h₁.forest.tryFinalize last = .ok (none, h₁.forest)) ∨
      (b = false ∧ s'.1 = last + 1 ∧ h₁.finalizeAt last = .ok (true, s'.2)) := by
  unfold tryFinalizeRound at hr
  cases hl : Except.repeatUntil finalizeNext fuel s with
  | error e => simp only [hl, reduceCtorEq] at hr
  | ok r =>
    obtain ⟨number, h₁⟩ := r
    refine ⟨number, h₁, rfl, ?_⟩
    simp only [hl] at hr
    cases hf : h₁.finalizeAt
        (h₁.sessionInfo.lastBlockOfSession (h₁.sessionInfo.sessionIdFromBlockNum number)) with
    | error e => simp only [hf, reduceCtorEq] at hr
    | ok r =>
      obtain ⟨c, h₂⟩ := r
      cases c with
      | true =>
        simp only [hf, Except.ok.injEq, Prod.mk.injEq] at hr
        obtain ⟨rfl, rfl⟩ := hr
        exact Or.inr ⟨rfl, rfl, hf⟩
      | false =>
        simp only [hf, Except.ok.injEq, Prod.mk.injEq] at hr
        obtain ⟨rfl, rfl⟩ := hr
        obtain ⟨rfl, ht⟩ := finalizeAt_false hf
        exact Or.inl ⟨rfl, rfl, ht⟩

theorem tryFinalizeRound_error {fuel : Nat} {s : Nat × Handler B I J H E Z}
    {e : Error E Z × Handler B I J H E Z} (hr : tryFinalizeRound fuel s = .error e) :
    Except.repeatUntil finalizeNext fuel s = .error e ∨
    ∃ number h₁, Except.repeatUntil finalizeNext fuel s = .ok (number, h₁) ∧
      h₁.finalizeAt (h₁.sessionInfo.lastBlockOfSession
        (h₁.sessionInfo.sessionIdFromBlockNum number)) = .error e := by
  unfold tryFinalizeRound at hr
  cases hl : Except.repeatUntil finalizeNext fuel s with
  | error e' =>
    simp only [hl, Except.error.injEq] at hr
    exact Or.inl (hr ▸ rfl)
  | ok r =>
    obtain ⟨number, h₁⟩ := r
    refine Or.inr ⟨number, h₁, rfl, ?_⟩
    simp only [hl] at hr
    cases hf : h₁.finalizeAt
        (h₁.sessionInfo.lastBlockOfSession (h₁.sessionInfo.sessionIdFromBlockNum number)) with
    | error e' =>
      simp only [hf, Except.error.injEq] at hr
      rw [hr]
    | ok r =>
      obtain ⟨c, h₂⟩ := r
      cases c <;> simp only [hf, reduceCtorEq] at hr

end Rounds

/-! ## The loops end

Every round that goes on takes a vertex out of the forest, and none adds one: the vertices
are the measure of both loops. -/

section Termination

variable {fuel : Nat} {s s' : Nat × Handler B I J H E Z} {b : Bool}

theorem vertexCount_finalizeAt {h h' : Handler B I J H E Z} {number : Nat}
    (hr : h.finalizeAt number = .ok (true, h')) : h'.vertexCount < h.vertexCount := by
  obtain ⟨j, g, ht, rfl⟩ := finalizeAt_true hr
  exact Forest.keys_length_tryFinalize ht

theorem finalizeNext_le (hr : finalizeNext s = .ok (b, s')) :
    s'.2.vertexCount ≤ s.2.vertexCount := by
  rcases finalizeNext_cases hr with ⟨-, rfl, -⟩ | ⟨-, -, hf⟩
  · exact Nat.le_refl _
  · exact Nat.le_of_lt (vertexCount_finalizeAt hf)

theorem finalizeNext_lt (hr : finalizeNext s = .ok (false, s')) :
    s'.2.vertexCount < s.2.vertexCount := by
  rcases finalizeNext_cases hr with ⟨h, -, -⟩ | ⟨-, -, hf⟩
  · cases h
  · exact vertexCount_finalizeAt hf

theorem repeatUntil_finalizeNext_le (hr : Except.repeatUntil finalizeNext fuel s = .ok s') :
    s'.2.vertexCount ≤ s.2.vertexCount :=
  Except.repeatUntil_inv (fun t => t.2.vertexCount ≤ s.2.vertexCount)
    (fun _ _ _ ht hb => Nat.le_trans (finalizeNext_le hb) ht) fuel s s' (Nat.le_refl _) hr

theorem tryFinalizeRound_le (hr : tryFinalizeRound fuel s = .ok (b, s')) :
    s'.2.vertexCount ≤ s.2.vertexCount := by
  obtain ⟨number, h₁, hl, ⟨-, rfl, -⟩ | ⟨-, -, hf⟩⟩ := tryFinalizeRound_cases hr
  · exact repeatUntil_finalizeNext_le hl
  · exact Nat.le_trans (Nat.le_of_lt (vertexCount_finalizeAt hf)) (repeatUntil_finalizeNext_le hl)

/-- A round of the outer loop that goes on finalized the last block of a session. -/
theorem tryFinalizeRound_lt (hr : tryFinalizeRound fuel s = .ok (false, s')) :
    s'.2.vertexCount < s.2.vertexCount := by
  obtain ⟨number, h₁, hl, ⟨h, -⟩ | ⟨-, -, hf⟩⟩ := tryFinalizeRound_cases hr
  · cases h
  · exact Nat.lt_of_lt_of_le (vertexCount_finalizeAt hf) (repeatUntil_finalizeNext_le hl)

theorem tryFinalizeRound_stable (k : Nat) (hs : s.2.vertexCount < fuel) :
    tryFinalizeRound (fuel + k) s = tryFinalizeRound fuel s := by
  unfold tryFinalizeRound
  rw [Except.repeatUntil_stable (fun t => t.2.vertexCount) (fun _ _ hb => finalizeNext_lt hb) k
    fuel s hs]

/-- `try_finalize` ends by itself: more fuel changes nothing. -/
theorem tryFinalizeWith_stable (h : Handler B I J H E Z) (k : Nat) :
    h.tryFinalizeWith (h.vertexCount + 1 + k) = h.tryFinalize := by
  unfold tryFinalize tryFinalizeWith
  cases h.chainStatus.topFinalized with
  | error e => rfl
  | ok top =>
    dsimp only
    -- the rounds with more fuel agree while the count is below the fuel, which no round raises
    have hQ : ∀ t t' : Nat × Handler B I J H E Z, t.2.vertexCount < h.vertexCount + 1 →
        tryFinalizeRound (h.vertexCount + 1 + k) t = .ok (false, t') →
        t'.2.vertexCount < h.vertexCount + 1 :=
      fun _ _ ht hr => Nat.lt_trans (tryFinalizeRound_lt hr) ht
    rw [Except.repeatUntil_congr (fun t => t.2.vertexCount < h.vertexCount + 1) hQ
        (fun _ ht => tryFinalizeRound_stable k ht) (h.vertexCount + 1 + k) _ (Nat.lt_succ_self _),
      Except.repeatUntil_stable (fun t => t.2.vertexCount) (fun _ _ hb => tryFinalizeRound_lt hb)
        k (h.vertexCount + 1) _ (Nat.lt_succ_self _)]

/-- The consecutive blocks stop, within the fuel, where the forest has no justification. -/
theorem repeatUntil_finalizeNext_exit (hs : s.2.vertexCount < fuel)
    (hr : Except.repeatUntil finalizeNext fuel s = .ok s') :
    s'.2.forest.tryFinalize s'.1 = .ok (none, s'.2.forest) := by
  obtain ⟨t, -, hb⟩ := Except.repeatUntil_exit (fun _ => True) (fun _ _ _ _ _ => trivial)
    (fun t => t.2.vertexCount) (fun _ _ _ hb => finalizeNext_lt hb) fuel s s' trivial hs hr
  rcases finalizeNext_cases hb with ⟨-, rfl, ht⟩ | ⟨h, -, -⟩
  · exact ht
  · cases h

/-- The outer loop stops, within the fuel, where the forest has a justification neither at
the number reached nor at the last block of its session. -/
theorem repeatUntil_tryFinalizeRound_exit (hs : s.2.vertexCount < fuel)
    (hr : Except.repeatUntil (tryFinalizeRound fuel) fuel s = .ok s') :
    s'.2.forest.tryFinalize s'.1 = .ok (none, s'.2.forest) ∧
    s'.2.forest.tryFinalize (s'.2.sessionInfo.lastBlockOfSession
      (s'.2.sessionInfo.sessionIdFromBlockNum s'.1)) = .ok (none, s'.2.forest) := by
  obtain ⟨t, ht, hb⟩ := Except.repeatUntil_exit (fun t => t.2.vertexCount < fuel)
    (fun _ _ _ ht hb => Nat.lt_of_le_of_lt (tryFinalizeRound_le hb) ht)
    (fun t => t.2.vertexCount) (fun _ _ _ hb => tryFinalizeRound_lt hb) fuel s s' hs hs hr
  obtain ⟨number, h₁, hl, ⟨-, rfl, hlast⟩ | ⟨h, -, -⟩⟩ := tryFinalizeRound_cases hb
  · exact ⟨repeatUntil_finalizeNext_exit ht hl, hlast⟩
  · cases h

end Termination

/-! ## The order of the justifications handed -/

section Order

variable (h₀ : Handler B I J H E Z) (top : Nat)

/-- What a run of `try_finalize` from `h₀` keeps, with `top` the number of the top finalized
block it read: the chain status, the finalizer and the session info; a reachable forest with
no vertex added; and what the finalizer has finalized: `new` after what it had, blocks above
`top` in increasing order. -/
structure Handed (new : List J) (h : Handler B I J H E Z) : Prop where
  chainStatus : h.chainStatus = h₀.chainStatus
  finalizer : h.finalizer = h₀.finalizer
  sessionInfo : h.sessionInfo = h₀.sessionInfo
  reachable : h.forest.Reachable
  vertexCount : h.vertexCount ≤ h₀.vertexCount
  finalized : h.finalized = h₀.finalized ++ new
  increasing : new.Pairwise fun a b => numberOf a < numberOf b
  above : ∀ j ∈ new, top < numberOf j

/-- A state of the loops: handed, with the number to try next one above the last block
finalized, or above `top` if there was none. -/
structure Finalizing (new : List J) (s : Nat × Handler B I J H E Z) : Prop
    extends Handed h₀ top new s.2 where
  start : top < s.1
  below : ∀ j ∈ new, numberOf j < s.1
  next : s.1 = (new.getLast?.map numberOf).getD top + 1

variable {h₀ top} {new : List J} {h h' : Handler B I J H E Z} {number m : Nat} {j : J}
  {g : Forest I H J} {e : Error E Z}

theorem finalizing_start (hf : h₀.forest.Reachable) : Finalizing h₀ top [] (top + 1, h₀) where
  chainStatus := rfl
  finalizer := rfl
  sessionInfo := rfl
  reachable := hf
  vertexCount := Nat.le_refl _
  finalized := (List.append_nil _).symm
  increasing := List.Pairwise.nil
  above _ hj := absurd hj List.not_mem_nil
  start := Nat.lt_succ_self _
  below _ hj := absurd hj List.not_mem_nil
  next := rfl

/-- The forest gave up a justification: the handler is still handed, with fewer vertices. -/
theorem Handed.tryFinalize (hh : Handed h₀ top new h)
    (ht : h.forest.tryFinalize number = .ok (some j, g)) : Handed h₀ top new { h with forest := g } :=
  { hh with
    reachable := .step hh.reachable (.tryFinalize h.forest number (some j, g) ht)
    vertexCount := Nat.le_trans (Nat.le_of_lt (Forest.keys_length_tryFinalize ht)) hh.vertexCount }

/-- A failed `finalizeAt` leaves the handler handed. -/
theorem Handed.finalizeAt_error (hh : Handed h₀ top new h)
    (hr : h.finalizeAt number = .error (e, h')) : Handed h₀ top new h' := by
  rcases Handler.finalizeAt_error hr with rfl | ⟨j, g, ht, rfl⟩
  · exact hh
  · exact hh.tryFinalize ht

/-- The finalizer took the justification of the block at `m`, at or above the number to try
next: the state goes on above `m`. -/
theorem Finalizing.hand (hs : Finalizing h₀ top new (number, h))
    (ht : h.forest.tryFinalize m = .ok (some j, g)) (hm : number ≤ m) :
    Finalizing h₀ top (new ++ [j]) (m + 1, { h with forest := g, finalized := h.finalized ++ [j] }) := by
  have hj : numberOf j = m := Forest.Bounded.tryFinalize_some_number hs.reachable.bounded ht
  have hh := hs.toHanded.tryFinalize ht
  have hstart : top < number := hs.start
  have hbelow : ∀ a ∈ new, numberOf a < number := hs.below
  have hfin : h.finalized = h₀.finalized ++ new := hs.finalized
  refine
    { hh with
      finalized := by rw [hfin, List.append_assoc]
      increasing := List.pairwise_append.mpr ⟨hs.increasing, List.pairwise_singleton _ _, ?_⟩
      above := ?_
      start := by omega
      below := ?_
      next := by rw [List.getLast?_concat, Option.map_some, Option.getD_some, hj] }
  · intro a ha b hb
    rw [List.mem_singleton.mp hb, hj]
    exact Nat.lt_of_lt_of_le (hbelow a ha) hm
  · intro a ha
    rcases List.mem_append.mp ha with ha | ha
    · exact hs.above a ha
    · rw [List.mem_singleton.mp ha, hj]
      omega
  · intro a ha
    rcases List.mem_append.mp ha with ha | ha
    · have := hbelow a ha
      omega
    · rw [List.mem_singleton.mp ha, hj]
      omega

theorem Finalizing.finalizeNext_ok {s s' : Nat × Handler B I J H E Z} {b : Bool}
    (hs : Finalizing h₀ top new s) (hr : finalizeNext s = .ok (b, s')) :
    ∃ new', Finalizing h₀ top new' s' := by
  rcases finalizeNext_cases hr with ⟨-, rfl, -⟩ | ⟨-, hn, hf⟩
  · exact ⟨new, hs⟩
  · obtain ⟨j, g, ht, hh⟩ := finalizeAt_true hf
    obtain ⟨number, h⟩ := s
    obtain ⟨number', h'⟩ := s'
    simp only at hn hh
    subst hn hh
    exact ⟨new ++ [j], hs.hand ht (Nat.le_refl _)⟩

theorem Finalizing.finalizeNext_error {s : Nat × Handler B I J H E Z}
    (hs : Finalizing h₀ top new s) (hr : finalizeNext s = .error (e, h')) : Handed h₀ top new h' :=
  hs.toHanded.finalizeAt_error (Handler.finalizeNext_error hr)

/-- The consecutive blocks keep the state a state of the loops. -/
theorem Finalizing.consecutive {fuel : Nat} {s s' : Nat × Handler B I J H E Z}
    (hs : Finalizing h₀ top new s) (hr : Except.repeatUntil finalizeNext fuel s = .ok s') :
    ∃ new', Finalizing h₀ top new' s' :=
  Except.repeatUntil_inv (fun t => ∃ new, Finalizing h₀ top new t)
    (fun _ _ _ ⟨_, ht⟩ hb => ht.finalizeNext_ok hb) fuel s s' ⟨new, hs⟩ hr

theorem Finalizing.tryFinalizeRound_ok {fuel : Nat} {s s' : Nat × Handler B I J H E Z} {b : Bool}
    (hs : Finalizing h₀ top new s) (hr : tryFinalizeRound fuel s = .ok (b, s')) :
    ∃ new', Finalizing h₀ top new' s' := by
  obtain ⟨number, h₁, hl, ⟨-, rfl, -⟩ | ⟨-, hn, hf⟩⟩ := tryFinalizeRound_cases hr
  · exact hs.consecutive hl
  · obtain ⟨new₁, hs₁⟩ := hs.consecutive hl
    obtain ⟨j, g, ht, hh⟩ := finalizeAt_true hf
    obtain ⟨number', h'⟩ := s'
    simp only at hn hh
    subst hn hh
    -- the last block of the session is at or above the block the consecutive ones reached
    exact ⟨new₁ ++ [j], hs₁.hand ht SessionBoundaryInfo.le_lastBlockOfSession⟩

theorem Finalizing.tryFinalizeRound_error {fuel : Nat} {s : Nat × Handler B I J H E Z}
    (hs : Finalizing h₀ top new s) (hr : tryFinalizeRound fuel s = .error (e, h')) :
    ∃ new', Handed h₀ top new' h' := by
  rcases Handler.tryFinalizeRound_error hr with hl | ⟨number, h₁, hl, hf⟩
  · obtain ⟨t, ⟨new', ht⟩, hb⟩ := Except.repeatUntil_error_inv
      (fun t => ∃ new, Finalizing h₀ top new t) (fun _ _ _ ⟨_, ht⟩ hb => ht.finalizeNext_ok hb)
      fuel s _ ⟨new, hs⟩ hl
    exact ⟨new', ht.finalizeNext_error hb⟩
  · obtain ⟨new₁, hs₁⟩ := hs.consecutive hl
    exact ⟨new₁, hs₁.toHanded.finalizeAt_error hf⟩

end Order

/-- From a reachable forest `try_finalize` ends by itself, hands the finalizer justifications
of blocks above the top finalized one in increasing order, whether it fails after or not, and,
when it returns, with `n` one above the last block it finalized (or above the top finalized
one if it finalized none), the forest has a justification neither at `n` nor at the last
block of `n`'s session. -/
theorem tryFinalize_in_order {h : Handler B I J H E Z} (hf : h.forest.Reachable) {top : J}
    (htop : h.chainStatus.topFinalized = .ok top) :
    (∀ k, h.tryFinalizeWith (h.vertexCount + 1 + k) = h.tryFinalize) ∧
    ∃ new, h.tryFinalize.2.finalized = h.finalized ++ new ∧
      new.Pairwise (fun a b => numberOf a < numberOf b) ∧
      (∀ j ∈ new, numberOf top < numberOf j) ∧
      (h.tryFinalize.1 = .ok () → ∀ n, n = (new.getLast?.map numberOf).getD (numberOf top) + 1 →
        h.tryFinalize.2.forest.tryFinalize n = .ok (none, h.tryFinalize.2.forest) ∧
        h.tryFinalize.2.forest.tryFinalize
          (h.sessionInfo.lastBlockOfSession (h.sessionInfo.sessionIdFromBlockNum n)) =
          .ok (none, h.tryFinalize.2.forest)) := by
  refine ⟨tryFinalizeWith_stable h, ?_⟩
  have hs₀ : Finalizing h (numberOf top) [] (numberOf top + 1, h) := finalizing_start hf
  have hstep : ∀ t b t', (∃ new, Finalizing h (numberOf top) new t) →
      tryFinalizeRound (h.vertexCount + 1) t = .ok (b, t') →
      ∃ new, Finalizing h (numberOf top) new t' :=
    fun _ _ _ ⟨_, ht⟩ hb => ht.tryFinalizeRound_ok hb
  unfold tryFinalize tryFinalizeWith
  rw [htop]
  dsimp only
  cases hr : Except.repeatUntil (tryFinalizeRound (h.vertexCount + 1)) (h.vertexCount + 1)
      (numberOf top + 1, h) with
  | error r =>
    obtain ⟨e, h'⟩ := r
    obtain ⟨t, ⟨new, ht⟩, hb⟩ := Except.repeatUntil_error_inv _ hstep _ _ _ ⟨[], hs₀⟩ hr
    obtain ⟨new', hh⟩ := ht.tryFinalizeRound_error hb
    exact ⟨new', hh.finalized, hh.increasing, hh.above, fun hok => absurd hok (by simp)⟩
  | ok s' =>
    obtain ⟨new, hs'⟩ := Except.repeatUntil_inv _ hstep _ _ _ ⟨[], hs₀⟩ hr
    obtain ⟨hnext, hlast⟩ := repeatUntil_tryFinalizeRound_exit (Nat.lt_succ_self _) hr
    refine ⟨new, hs'.finalized, hs'.increasing, hs'.above, fun _ n hn => ?_⟩
    rw [hn, ← hs'.next, ← hs'.sessionInfo]
    exact ⟨hnext, hlast⟩

/-- A handler whose forest holds blocks 1 to 3, imported over the genesis, with 1 and 3
justified, in sessions of 4 blocks, and a finalizer that takes everything. -/
def sampleHandler : Handler (SubstrateBlock ChainHeader) Nat
    (SubstrateJustification ChainHeader Unit) ChainHeader Unit Unit where
  chainStatus := ChainStatus.line 3
  finalizer := ⟨fun _ _ => .ok ()⟩
  finalized := []
  forest := (((((Forest.empty ⟨0⟩ |>.updateBody ⟨1⟩).2.updateBody ⟨2⟩).2.updateBody ⟨3⟩).2
    |>.updateJustification ⟨⟨1⟩, .genesis⟩ none).2.updateJustification ⟨⟨3⟩, .genesis⟩ none).2
  sessionInfo := ⟨⟨4⟩, by decide⟩

theorem tryFinalize_in_order_sample :
    sampleHandler.forest.Reachable ∧
    sampleHandler.chainStatus.topFinalized = .ok ⟨⟨0⟩, .genesis⟩ ∧
    ∃ new, sampleHandler.tryFinalize.2.finalized = sampleHandler.finalized ++ new ∧
      ∀ j ∈ new, numberOf (⟨⟨0⟩, .genesis⟩ : SubstrateJustification ChainHeader Unit) < numberOf j := by
  have hf : sampleHandler.forest.Reachable :=
    .step (.step (.step (.step (.step (.empty _) (.updateBody _ _)) (.updateBody _ _))
      (.updateBody _ _)) (.updateJustification _ _ _)) (.updateJustification _ _ _)
  have htop : sampleHandler.chainStatus.topFinalized = .ok ⟨⟨0⟩, .genesis⟩ := rfl
  obtain ⟨-, new, hfin, -, habove, -⟩ := tryFinalize_in_order hf htop
  exact ⟨hf, htop, new, hfin, habove⟩

/-- Block 2 has no justification, so after block 1 the last block of the session, 3, is
finalized. -/
example : sampleHandler.tryFinalize.1.toBool = true ∧
    (sampleHandler.tryFinalize.2.finalized.map numberOf) = [1, 3] := by
  decide

end Handler

end Selendra.Sync
