import Mathlib

/-! # Loops run on fuel

`repeatUntil body n s` runs `body` from `s` until a round reports that it is done, at most
`n` rounds, and stops at the first error: the shape of a loop `while !body()? {}` over a
mutable state. Out of fuel it stops where it is. The rules below say what a loop run on
enough fuel does: it keeps what every round keeps (`repeatUntil_inv`); if a measure drops
in every unfinished round and the fuel exceeds it, the result comes out of a round that
reported done (`repeatUntil_exit`) and more fuel changes nothing (`repeatUntil_stable`); and
a run that failed failed in a round started from a state that keeps it
(`repeatUntil_error_inv`).
Three lemmas take apart what succeeded: a bind, a map and a map over a list. A fold in
`Option` that can fail at each step succeeds when every step does from every state that keeps
an invariant, and keeps it (`Option.foldlM_inv`). -/

namespace Except

variable {ε σ : Type}

/-- A computation followed by another succeeds when the first does and the second does on
its result. -/
theorem bind_eq_ok {α β : Type} {x : Except ε α} {f : α → Except ε β} {b : β} :
    x >>= f = .ok b ↔ ∃ a, x = .ok a ∧ f a = .ok b := by
  cases x <;> simp [bind, Except.bind]

theorem map_eq_ok {α β : Type} {x : Except ε α} {f : α → β} {b : β} :
    x.map f = .ok b ↔ ∃ a, x = .ok a ∧ f a = b := by
  cases x <;> simp [Except.map]

/-- Every result of a map that succeeded is in the list it returns. -/
theorem mem_of_mapM_eq_ok {α β : Type} {f : α → Except ε β} :
    ∀ {l : List α} {r : List β}, l.mapM f = .ok r → ∀ a ∈ l, ∀ b, f a = .ok b → b ∈ r
  | [], _, _, _, ha, _, _ => absurd ha List.not_mem_nil
  | x :: l, r, h, a, ha, b, hb => by
    rw [List.mapM_cons, bind_eq_ok] at h
    obtain ⟨y, hx, h⟩ := h
    rw [bind_eq_ok] at h
    obtain ⟨ys, hl, h⟩ := h
    cases h
    rcases List.mem_cons.mp ha with rfl | ha
    · rw [hx] at hb
      cases hb
      exact List.mem_cons_self
    · exact List.mem_cons_of_mem y (mem_of_mapM_eq_ok hl a ha b hb)

def repeatUntil (body : σ → Except ε (Bool × σ)) : Nat → σ → Except ε σ
  | 0, s => .ok s
  | n + 1, s =>
    match body s with
    | .error e => .error e
    | .ok (true, s') => .ok s'
    | .ok (false, s') => repeatUntil body n s'

variable {body : σ → Except ε (Bool × σ)}

@[simp] theorem repeatUntil_zero (s : σ) : repeatUntil body 0 s = .ok s := rfl

theorem repeatUntil_error {n : Nat} {s : σ} {e : ε} (h : body s = .error e) :
    repeatUntil body (n + 1) s = .error e := by
  simp only [repeatUntil, h]

theorem repeatUntil_done {n : Nat} {s s' : σ} (h : body s = .ok (true, s')) :
    repeatUntil body (n + 1) s = .ok s' := by
  simp only [repeatUntil, h]

theorem repeatUntil_again {n : Nat} {s s' : σ} (h : body s = .ok (false, s')) :
    repeatUntil body (n + 1) s = repeatUntil body n s' := by
  simp only [repeatUntil, h]

/-- One round of a run that did not fail: it failed never, and either finished or goes on. -/
theorem repeatUntil_succ_ok {n : Nat} {s s' : σ} (h : repeatUntil body (n + 1) s = .ok s') :
    body s = .ok (true, s') ∨ ∃ t, body s = .ok (false, t) ∧ repeatUntil body n t = .ok s' := by
  cases hb : body s with
  | error e => rw [repeatUntil_error hb] at h; cases h
  | ok r =>
    obtain ⟨b, t⟩ := r
    cases b with
    | true =>
      rw [repeatUntil_done hb] at h
      cases h
      exact Or.inl rfl
    | false =>
      rw [repeatUntil_again hb] at h
      exact Or.inr ⟨t, rfl, h⟩

section Invariant

variable (P : σ → Prop) (hstep : ∀ s b s', P s → body s = .ok (b, s') → P s')
include hstep

/-- The invariant rule: what every round keeps holds of the result. -/
theorem repeatUntil_inv (n : Nat) : ∀ s s', P s → repeatUntil body n s = .ok s' → P s' := by
  induction n with
  | zero =>
    intro s s' hs h
    cases h
    exact hs
  | succ n ih =>
    intro s s' hs h
    rcases repeatUntil_succ_ok h with hb | ⟨t, hb, h⟩
    · exact hstep s true s' hs hb
    · exact ih t s' (hstep s false t hs hb) h

/-- With more fuel than a measure that every unfinished round lowers, the run ends in a
round that reported done, started from a state the invariant holds of. -/
theorem repeatUntil_exit (μ : σ → Nat)
    (hdec : ∀ s s', P s → body s = .ok (false, s') → μ s' < μ s) (n : Nat) :
    ∀ s s', P s → μ s < n → repeatUntil body n s = .ok s' → ∃ t, P t ∧ body t = .ok (true, s') := by
  induction n with
  | zero =>
    intro s s' _ hn
    omega
  | succ n ih =>
    intro s s' hs hn h
    rcases repeatUntil_succ_ok h with hb | ⟨t, hb, h⟩
    · exact ⟨s, hs, hb⟩
    · exact ih t s' (hstep s false t hs hb) (by have := hdec s t hs hb; omega) h

/-- A run that failed did so in a round started from a state the invariant holds of. -/
theorem repeatUntil_error_inv (n : Nat) :
    ∀ s e, P s → repeatUntil body n s = .error e → ∃ t, P t ∧ body t = .error e := by
  induction n with
  | zero =>
    intro s e _ h
    cases h
  | succ n ih =>
    intro s e hs h
    cases hb : body s with
    | error e' =>
      rw [repeatUntil_error hb] at h
      cases h
      exact ⟨s, hs, hb⟩
    | ok r =>
      obtain ⟨b, t⟩ := r
      cases b with
      | true =>
        rw [repeatUntil_done hb] at h
        cases h
      | false =>
        rw [repeatUntil_again hb] at h
        exact ih t e (hstep s false t hs hb) h

end Invariant

/-- With more fuel than a measure that every unfinished round lowers, more fuel gives the
same result: the loop has ended by itself. -/
theorem repeatUntil_stable (μ : σ → Nat) (hdec : ∀ s s', body s = .ok (false, s') → μ s' < μ s)
    (k n : Nat) : ∀ s, μ s < n → repeatUntil body (n + k) s = repeatUntil body n s := by
  induction n with
  | zero =>
    intro s hn
    omega
  | succ n ih =>
    intro s hn
    rw [show n + 1 + k = n + k + 1 by omega]
    cases hb : body s with
    | error e => rw [repeatUntil_error hb, repeatUntil_error hb]
    | ok r =>
      obtain ⟨b, t⟩ := r
      cases b with
      | true => rw [repeatUntil_done hb, repeatUntil_done hb]
      | false =>
        rw [repeatUntil_again hb, repeatUntil_again hb]
        exact ih t (by have := hdec s t hb; omega)

/-- Two bodies that agree on the states a run can reach run alike. -/
theorem repeatUntil_congr {body' : σ → Except ε (Bool × σ)} (Q : σ → Prop)
    (hQ : ∀ s s', Q s → body s = .ok (false, s') → Q s') (h : ∀ s, Q s → body s = body' s)
    (n : Nat) : ∀ s, Q s → repeatUntil body n s = repeatUntil body' n s := by
  induction n with
  | zero => intro s _; rfl
  | succ n ih =>
    intro s hs
    cases hb : body s with
    | error e => rw [repeatUntil_error hb, repeatUntil_error ((h s hs).symm.trans hb)]
    | ok r =>
      obtain ⟨b, t⟩ := r
      have hb' := (h s hs).symm.trans hb
      cases b with
      | true => rw [repeatUntil_done hb, repeatUntil_done hb']
      | false =>
        rw [repeatUntil_again hb, repeatUntil_again hb']
        exact ih t (hQ s t hs hb)

end Except

namespace Option

/-- A fold in `Option` keeps what each step keeps, and succeeds when every step from a state
keeping it does. -/
theorem foldlM_inv {α σ : Type} (P : σ → Prop) {f : σ → α → Option σ} :
    ∀ {l : List α} {s : σ}, (∀ t, P t → ∀ a ∈ l, ∃ t', f t a = some t' ∧ P t') → P s →
      ∃ s', l.foldlM f s = some s' ∧ P s'
  | [], s, _, hs => ⟨s, rfl, hs⟩
  | a :: l, s, hstep, hs => by
    obtain ⟨t, hf, ht⟩ := hstep s hs a List.mem_cons_self
    obtain ⟨s', hl, hs'⟩ :=
      foldlM_inv P (l := l) (fun t ht b hb => hstep t ht b (List.mem_cons_of_mem a hb)) ht
    refine ⟨s', ?_, hs'⟩
    rw [List.foldlM_cons, hf]
    exact hl

end Option
