import Mathlib

/-! # Programs that move their state along a relation

`EStateM ε σ` is the monad of a method on `&mut self` that can return early with an error:
the state it leaves behind is kept whether it succeeds or fails. Such a program *moves along*
`R` when every run of it, whatever its outcome, ends in a state that the reflexive transitive
closure of `R` relates to the one it started in (`Moves`).

Returns, reads and failures do not move. `focus` runs a method on one component of the state
and moves when what it writes back is a move; `attempt` turns a failure into a value; binds
and conditionals of moving programs move, and so does a run of moving programs one after the
other (`Moves.runAll`). A property that every `R` step keeps then holds after every run of a
moving program, by induction on `Relation.ReflTransGen`; `Moves.mono` weakens the relation. -/

namespace EStateM

variable {ε ε' σ τ α β γ : Type}

/-- The state a run ended in, whatever its outcome. -/
def Result.state : Result ε σ α → σ
  | .ok _ s => s
  | .error _ s => s

@[simp] theorem Result.state_ok (a : α) (s : σ) : (Result.ok a s : Result ε σ α).state = s := rfl

@[simp] theorem Result.state_error (e : ε) (s : σ) :
    (Result.error e s : Result ε σ α).state = s := rfl

/-- A method of the component `view` of the state, written back by `update`: it runs `g` on
the component, keeps what `g` left of it, and fails with the error of `g` turned into the
caller's by `lift`. -/
def focus (view : σ → τ) (update : σ → τ → σ) (lift : ε' → ε) (g : τ → Except ε' α × τ) :
    EStateM ε σ α := fun s =>
  match g (view s) with
  | (.ok a, t) => .ok a (update s t)
  | (.error e, t) => .error (lift e) (update s t)

/-- Runs `x` and returns its outcome: an error becomes the value, and the state `x` left
behind is kept. -/
def attempt (x : EStateM ε σ α) : EStateM ε' σ (Except ε α) := fun s =>
  match x s with
  | .ok a s => .ok (.ok a) s
  | .error e s => .ok (.error e) s

theorem run_focus (view : σ → τ) (update : σ → τ → σ) (lift : ε' → ε)
    (g : τ → Except ε' α × τ) (s : σ) :
    (focus view update lift g).run s =
      match (g (view s)).1 with
      | .ok a => .ok a (update s (g (view s)).2)
      | .error e => .error (lift e) (update s (g (view s)).2) := by
  simp only [EStateM.run, focus]
  cases g (view s) with
  | mk r t => cases r <;> rfl

theorem run_attempt_of_ok {x : EStateM ε σ α} {s s' : σ} {a : α} (h : x.run s = .ok a s') :
    (attempt x : EStateM ε' σ (Except ε α)).run s = .ok (.ok a) s' := by
  simp only [EStateM.run] at h ⊢
  simp only [attempt, h]

theorem run_attempt_of_error {x : EStateM ε σ α} {s s' : σ} {e : ε} (h : x.run s = .error e s') :
    (attempt x : EStateM ε' σ (Except ε α)).run s = .ok (.error e) s' := by
  simp only [EStateM.run] at h ⊢
  simp only [attempt, h]

/-- `attempt` never fails, and ends where the program it runs ends. -/
theorem attempt_state (x : EStateM ε σ α) (s : σ) :
    ((attempt x : EStateM ε' σ (Except ε α)).run s).state = (x.run s).state := by
  cases h : x.run s with
  | ok a s' => rw [run_attempt_of_ok h]; rfl
  | error e s' => rw [run_attempt_of_error h]; rfl

section Moves

variable (R : σ → σ → Prop)

/-- Every run of `x` ends in a state that `R*` relates to the one it started in. -/
def Moves (x : EStateM ε σ α) : Prop :=
  ∀ s, Relation.ReflTransGen R s (x.run s).state

variable {R}

namespace Moves

theorem pure (a : α) : Moves R (Pure.pure a : EStateM ε σ α) := fun _ => .refl

theorem get : Moves R (MonadState.get : EStateM ε σ σ) := fun _ => .refl

theorem throw (e : ε) : Moves R (MonadExcept.throw e : EStateM ε σ α) := fun _ => .refl

theorem modify {f : σ → σ} (hf : ∀ s, Relation.ReflTransGen R s (f s)) :
    Moves R (modify f : EStateM ε σ PUnit) := hf

theorem bind {x : EStateM ε σ α} {f : α → EStateM ε σ β} (hx : Moves R x)
    (hf : ∀ a, Moves R (f a)) : Moves R (x >>= f) := by
  intro s
  rw [run_bind]
  have hs := hx s
  cases hr : x.run s with
  | ok a s' =>
    rw [hr] at hs
    exact hs.trans (hf a s')
  | error e s' =>
    rw [hr] at hs
    exact hs

theorem map {x : EStateM ε σ α} (f : α → β) (hx : Moves R x) : Moves R (f <$> x) := by
  intro s
  have hs := hx s
  show Relation.ReflTransGen R s ((EStateM.map f x).run s).state
  simp only [EStateM.run, EStateM.map] at hs ⊢
  cases hr : x s with
  | ok a s' =>
    rw [hr] at hs
    exact hs
  | error e s' =>
    rw [hr] at hs
    exact hs

theorem discard {x : EStateM ε σ α} (hx : Moves R x) : Moves R (Functor.discard x) :=
  map _ hx

theorem focus {view : σ → τ} {update : σ → τ → σ} {lift : ε' → ε} {g : τ → Except ε' α × τ}
    (hg : ∀ s, Relation.ReflTransGen R s (update s (g (view s)).2)) :
    Moves R (EStateM.focus view update lift g) := by
  intro s
  rw [run_focus]
  cases (g (view s)).1 with
  | ok a => exact hg s
  | error e => exact hg s

theorem attempt {x : EStateM ε σ α} (hx : Moves R x) :
    Moves R (EStateM.attempt x : EStateM ε' σ (Except ε α)) := fun s => by
  rw [attempt_state]
  exact hx s

theorem ite {c : Prop} [Decidable c] {x y : EStateM ε σ α} (hx : Moves R x) (hy : Moves R y) :
    Moves R (if c then x else y) := by
  split
  · exact hx
  · exact hy

theorem mono {R' : σ → σ → Prop} (hR : ∀ s s', R s s' → R' s s') {x : EStateM ε σ α}
    (hx : Moves R x) : Moves R' x := fun s => Relation.ReflTransGen.mono hR _ _ (hx s)

end Moves

/-- Every value that `x` returns satisfies `Q`. -/
def Returns (Q : α → Prop) (x : EStateM ε σ α) : Prop :=
  ∀ s a s', x.run s = .ok a s' → Q a

namespace Returns

variable {Q : β → Prop}

theorem pure {b : β} (hb : Q b) : Returns Q (Pure.pure b : EStateM ε σ β) := by
  intro s a s' h
  cases h
  exact hb

theorem throw (e : ε) : Returns Q (MonadExcept.throw e : EStateM ε σ β) := by
  intro s a s' h
  cases h

/-- What a sequence returns is what its last part returns. -/
theorem bind {x : EStateM ε σ α} {f : α → EStateM ε σ β} (hf : ∀ a, Returns Q (f a)) :
    Returns Q (x >>= f) := by
  intro s b s' h
  rw [run_bind] at h
  cases hr : x.run s with
  | ok a t =>
    rw [hr] at h
    exact hf a t b s' h
  | error e t =>
    rw [hr] at h
    cases h

end Returns

/-- Programs run one after the other, each from the state the one before left, with their
results dropped: the shape of a sequence of method calls on one value. -/
def runAll (prog : γ → EStateM ε σ α) (s : σ) (calls : List γ) : σ :=
  calls.foldl (fun s call => ((prog call).run s).state) s

/-- A sequence of moving programs moves. -/
theorem Moves.runAll {prog : γ → EStateM ε σ α} (hprog : ∀ call, Moves R (prog call)) :
    ∀ (calls : List γ) (s : σ), Relation.ReflTransGen R s (EStateM.runAll prog s calls)
  | [], _ => .refl
  | call :: calls, s => (hprog call s).trans (Moves.runAll hprog calls _)

end Moves

end EStateM
