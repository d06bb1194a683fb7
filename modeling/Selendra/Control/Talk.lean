import Mathlib

/-! # Programs that talk over a byte stream, and two of them on a duplex

`Talk α` is a sequential program on one end of a byte stream: it writes bytes, waits for
exactly `k` bytes, or finishes with a value. A wait the stream can no longer satisfy, because
the peer has dropped its end, is handed `none`. It is a free monad, so an `async fn` over a
stream is a `do` block in it, with its awaits as the reads.

Against the whole of what the peer sends a program is a function (`runOn`); `advance` runs it
only as far as the bytes at hand allow. Two programs on the ends of a duplex, each end's
writes queued in order for the other's reads, take steps in any interleaving. Each queue has
one writer and one reader, and a party waits only on its own queue, so steps of the two
parties commute (`Step.diamond`): any two runs can be joined again, every run that cannot go
on ends in one and the same state (`terminal_unique`), and every reachable state can still
reach it (`reaches_terminal`). -/

inductive Talk (α : Type) where
  | done (a : α)
  | write (bytes : List UInt8) (next : Talk α)
  | read (k : Nat) (next : Option (List UInt8) → Talk α)

namespace Talk

variable {α β : Type}

def bind : Talk α → (α → Talk β) → Talk β
  | done a, f => f a
  | write bytes next, f => write bytes (next.bind f)
  | read k next, f => read k fun r => (next r).bind f

instance : Monad Talk where
  pure := done
  bind := bind

/-- `write_all`. -/
def writeAll (bytes : List UInt8) : Talk Unit := write bytes (done ())

/-- `read_exact` of `k` bytes, `none` when the stream ends first. -/
def readExact (k : Nat) : Talk (Option (List UInt8)) := read k done

@[simp] theorem pure_eq (a : α) : (pure a : Talk α) = done a := rfl

@[simp] theorem bind_eq (x : Talk α) (f : α → Talk β) : x >>= f = x.bind f := rfl

@[simp] theorem done_bind (a : α) (f : α → Talk β) : (done a).bind f = f a := rfl

@[simp] theorem write_bind (bytes : List UInt8) (next : Talk α) (f : α → Talk β) :
    (write bytes next).bind f = write bytes (next.bind f) := rfl

@[simp] theorem read_bind (k : Nat) (next : Option (List UInt8) → Talk α) (f : α → Talk β) :
    (read k next).bind f = read k fun r => (next r).bind f := rfl

@[simp] theorem bind_done (x : Talk α) : x.bind done = x := by
  induction x with
  | done a => rfl
  | write bytes next ih => rw [write_bind, ih]
  | read k next ih => simp only [read_bind, ih]

theorem bind_assoc {γ : Type} (x : Talk α) (f : α → Talk β) (g : β → Talk γ) :
    (x.bind f).bind g = x.bind fun a => (f a).bind g := by
  induction x with
  | done a => rfl
  | write bytes next ih => rw [write_bind, write_bind, write_bind, ih]
  | read k next ih => simp only [read_bind, ih]

@[simp] theorem writeAll_bind (bytes : List UInt8) (f : Unit → Talk β) :
    (writeAll bytes).bind f = write bytes (f ()) := rfl

@[simp] theorem readExact_bind (k : Nat) (f : Option (List UInt8) → Talk β) :
    (readExact k).bind f = read k f := rfl

/-! ## Runs of one program -/

/-- The run against an input that is all the peer will ever send: the value, the bytes
written, and the input left. A read past the end gets `none` and uses the input up. -/
def runOn : Talk α → List UInt8 → α × List UInt8 × List UInt8
  | done a, input => (a, [], input)
  | write bytes next, input =>
    let r := next.runOn input
    (r.1, bytes ++ r.2.1, r.2.2)
  | read k next, input =>
    if k ≤ input.length then (next (some (input.take k))).runOn (input.drop k)
    else (next none).runOn []

/-- The run as far as `input` allows: the program it has become, the bytes written, and the
input left. It stops at a read for more than is left. -/
def advance : Talk α → List UInt8 → Talk α × List UInt8 × List UInt8
  | done a, input => (done a, [], input)
  | write bytes next, input =>
    let r := next.advance input
    (r.1, bytes ++ r.2.1, r.2.2)
  | read k next, input =>
    if k ≤ input.length then (next (some (input.take k))).advance (input.drop k)
    else (read k next, [], input)

variable {k : Nat} {next : Option (List UInt8) → Talk α} {bs rest input : List UInt8}

@[simp] theorem runOn_done (a : α) (input : List UInt8) :
    (done a).runOn input = (a, [], input) := rfl

@[simp] theorem runOn_write (bytes : List UInt8) (next : Talk α) (input : List UInt8) :
    (write bytes next).runOn input =
      ((next.runOn input).1, bytes ++ (next.runOn input).2.1, (next.runOn input).2.2) := rfl

@[simp] theorem advance_done (a : α) (input : List UInt8) :
    (done a).advance input = (done a, [], input) := rfl

@[simp] theorem advance_write (bytes : List UInt8) (next : Talk α) (input : List UInt8) :
    (write bytes next).advance input =
      ((next.advance input).1, bytes ++ (next.advance input).2.1, (next.advance input).2.2) := rfl

theorem advance_read_append (h : bs.length = k) :
    (read k next).advance (bs ++ rest) = (next (some bs)).advance rest := by
  have hle : k ≤ (bs ++ rest).length := by simp [h]
  rw [advance, if_pos hle, List.take_left' h, List.drop_left' h]

theorem advance_read_of_lt (h : input.length < k) :
    (read k next).advance input = (read k next, [], input) := by
  rw [advance, if_neg (Nat.not_le.mpr h)]

/-- What a run against an input does at a read: it gets the next `k` bytes, or the input ends
first. -/
theorem runOn_read_cases {r : α × List UInt8 × List UInt8} (h : (read k next).runOn input = r) :
    (∃ bs rest, bs.length = k ∧ input = bs ++ rest ∧ (next (some bs)).runOn rest = r) ∨
      (input.length < k ∧ (next none).runOn [] = r) := by
  by_cases hk : k ≤ input.length
  · refine .inl ⟨input.take k, input.drop k, by simp [hk], (List.take_append_drop k input).symm, ?_⟩
    rwa [runOn, if_pos hk] at h
  · refine .inr ⟨Nat.lt_of_not_le hk, ?_⟩
    rwa [runOn, if_neg hk] at h

/-- A run against an input goes as far as the input allows, and on from there. -/
theorem runOn_advance (p : Talk α) (input : List UInt8) :
    p.runOn input =
      (((p.advance input).1.runOn (p.advance input).2.2).1,
        (p.advance input).2.1 ++ ((p.advance input).1.runOn (p.advance input).2.2).2.1,
        ((p.advance input).1.runOn (p.advance input).2.2).2.2) := by
  induction p generalizing input with
  | done a => rfl
  | write bytes next ih => simp only [runOn_write, advance_write, ih, List.append_assoc]
  | read k next ih =>
    by_cases hk : k ≤ input.length
    · rw [runOn, if_pos hk, advance, if_pos hk]
      exact ih _ _
    · rw [advance_read_of_lt (Nat.lt_of_not_le hk)]
      rfl

/-- A sequence runs its first part against the input, and its second against what is left. -/
theorem runOn_bind (x : Talk α) (f : α → Talk β) (input : List UInt8) :
    (x.bind f).runOn input =
      (((f (x.runOn input).1).runOn (x.runOn input).2.2).1,
        (x.runOn input).2.1 ++ ((f (x.runOn input).1).runOn (x.runOn input).2.2).2.1,
        ((f (x.runOn input).1).runOn (x.runOn input).2.2).2.2) := by
  induction x generalizing input with
  | done a => rfl
  | write bytes next ih => simp only [write_bind, runOn_write, ih, List.append_assoc]
  | read k next ih =>
    by_cases hk : k ≤ input.length
    · rw [read_bind, runOn, if_pos hk, runOn, if_pos hk]
      exact ih _ _
    · rw [read_bind, runOn, if_neg hk, runOn, if_neg hk]
      exact ih _ _

/-- A sequence goes as far as its first part can on the input, and the rest from there. -/
theorem advance_bind (x : Talk α) (f : α → Talk β) (input : List UInt8) :
    (x.bind f).advance input =
      ((((x.advance input).1.bind f).advance (x.advance input).2.2).1,
        (x.advance input).2.1 ++ (((x.advance input).1.bind f).advance (x.advance input).2.2).2.1,
        (((x.advance input).1.bind f).advance (x.advance input).2.2).2.2) := by
  induction x generalizing input with
  | done a => rfl
  | write bytes next ih => simp only [write_bind, advance_write, ih, List.append_assoc]
  | read k next ih =>
    by_cases hk : k ≤ input.length
    · rw [read_bind, advance, if_pos hk, advance, if_pos hk]
      exact ih _ _
    · -- the first part waits at its read, and so does the sequence
      rw [read_bind, advance_read_of_lt (Nat.lt_of_not_le hk),
        advance_read_of_lt (Nat.lt_of_not_le hk)]
      simp only [read_bind, advance_read_of_lt (Nat.lt_of_not_le hk), List.append_nil]

/-- A run that finishes on the bytes at hand is the run against them. -/
theorem runOn_of_advance {p : Talk α} {a : α} {written : List UInt8}
    (h : p.advance input = (done a, written, rest)) : p.runOn input = (a, written, rest) := by
  rw [runOn_advance, h]
  simp only [runOn_done, List.append_nil]

/-- The length a program waits for, if it is at a read. -/
def waits : Talk α → Option Nat
  | read k _ => some k
  | _ => none

/-- The program after its pending read is handed `r`. -/
def resume : Talk α → Option (List UInt8) → Talk α
  | read _ next, r => next r
  | p, _ => p

end Talk

/-! ## Two programs on a duplex -/

/-- Two programs on the ends of a duplex, with the bytes each has written that the other has
not read yet. -/
structure Duplex (α β : Type) where
  left : Talk α
  right : Talk β
  toLeft : List UInt8
  toRight : List UInt8

namespace Duplex

variable {α β : Type}

/-- The same duplex seen from the other end. -/
def swap (s : Duplex α β) : Duplex β α := ⟨s.right, s.left, s.toRight, s.toLeft⟩

@[simp] theorem swap_swap (s : Duplex α β) : s.swap.swap = s := rfl

theorem swap_injective {s t : Duplex α β} (h : s.swap = t.swap) : s = t := by
  rw [← swap_swap s, h, swap_swap]

/-- Whether a program has dropped its end: it has finished with a value it drops the stream
on. -/
def dropped (drops : α → Bool) : Talk α → Bool
  | .done a => drops a
  | _ => false

/-- A step of the left program; it reads past its queue only once the right one has dropped
its end, and then gets `none`. -/
inductive LeftStep (drops : β → Bool) : Duplex α β → Duplex α β → Prop
  | write {bytes : List UInt8} {next : Talk α} {right : Talk β} {toLeft toRight : List UInt8} :
      LeftStep drops ⟨.write bytes next, right, toLeft, toRight⟩
        ⟨next, right, toLeft, toRight ++ bytes⟩
  | read {k : Nat} {next : Option (List UInt8) → Talk α} {right : Talk β}
      {toLeft toRight : List UInt8} (h : k ≤ toLeft.length) :
      LeftStep drops ⟨.read k next, right, toLeft, toRight⟩
        ⟨next (some (toLeft.take k)), right, toLeft.drop k, toRight⟩
  | eof {k : Nat} {next : Option (List UInt8) → Talk α} {right : Talk β}
      {toLeft toRight : List UInt8} (h : toLeft.length < k) (hd : dropped drops right = true) :
      LeftStep drops ⟨.read k next, right, toLeft, toRight⟩ ⟨next none, right, [], toRight⟩

/-- A step of either program: the right one's are the left one's in the swapped duplex. -/
def Step (dropsLeft : α → Bool) (dropsRight : β → Bool) (s t : Duplex α β) : Prop :=
  LeftStep dropsRight s t ∨ LeftStep dropsLeft s.swap t.swap

/-- No program can take a step. -/
def Terminal (dropsLeft : α → Bool) (dropsRight : β → Bool) (s : Duplex α β) : Prop :=
  ∀ t, ¬ Step dropsLeft dropsRight s t

variable {dropsLeft : α → Bool} {dropsRight : β → Bool}

namespace LeftStep

variable {drops : β → Bool} {s t u : Duplex α β}

theorem deterministic (h₁ : LeftStep drops s t) (h₂ : LeftStep drops s u) : t = u := by
  cases h₁ with
  | write => cases h₂; rfl
  | read h => cases h₂ with
    | read _ => rfl
    | eof h' _ => omega
  | eof h _ => cases h₂ with
    | read h' => omega
    | eof _ _ => rfl

/-- A read from the front of a queue that has grown since. -/
theorem read_append {k : Nat} {next : Option (List UInt8) → Talk α} {right : Talk β}
    {toLeft more toRight : List UInt8} (h : k ≤ toLeft.length) :
    LeftStep drops ⟨.read k next, right, toLeft ++ more, toRight⟩
      ⟨next (some (toLeft.take k)), right, toLeft.drop k ++ more, toRight⟩ := by
  have h' : k ≤ (toLeft ++ more).length := by simp only [List.length_append]; omega
  have hs : LeftStep drops ⟨.read k next, right, toLeft ++ more, toRight⟩
      ⟨next (some ((toLeft ++ more).take k)), right, (toLeft ++ more).drop k, toRight⟩ :=
    LeftStep.read h'
  rwa [List.take_append_of_le_length h, List.drop_append_of_le_length h] at hs

/-- A step of the left program and one of the right program can be taken in either order. -/
theorem commute (hl : LeftStep dropsRight s t) (hr : LeftStep dropsLeft s.swap u.swap) :
    ∃ v, LeftStep dropsLeft t.swap v.swap ∧ LeftStep dropsRight u v := by
  obtain ⟨left, right, toLeft, toRight⟩ := s
  obtain ⟨left', right', toLeft', toRight'⟩ := u
  dsimp only [swap] at hr
  -- each queue has one writer and one reader; an end-of-stream needs the other side done
  cases hl with
  | write =>
    cases hr with
    | write =>
      refine ⟨_, ?_, .write⟩
      exact .write
    | read h =>
      refine ⟨_, ?_, .write⟩
      exact read_append h
    | eof _ hd => cases hd
  | read h =>
    cases hr with
    | write =>
      refine ⟨_, ?_, read_append h⟩
      exact .write
    | read h' =>
      refine ⟨_, ?_, .read h⟩
      exact .read h'
    | eof _ hd => cases hd
  | eof _ hd =>
    cases hr with
    | write => cases hd
    | read _ => cases hd
    | eof _ _ => cases hd

/-- A program at a read for more than its queue holds gets `none` once the other side has
dropped its end. -/
theorem eof_of_waits {k : Nat} {p : Talk α} {right : Talk β} {toLeft toRight : List UInt8}
    (hp : p.waits = some k) (h : toLeft.length < k) (hd : dropped drops right = true) :
    LeftStep drops ⟨p, right, toLeft, toRight⟩ ⟨p.resume none, right, [], toRight⟩ := by
  cases p with
  | read k' next =>
    cases hp
    exact .eof h hd
  | done a => cases hp
  | write bytes next => cases hp

end LeftStep

namespace Step

variable {s t u : Duplex α β}

theorem left (h : LeftStep dropsRight s t) : Step dropsLeft dropsRight s t := .inl h

theorem right (h : LeftStep dropsLeft s.swap t.swap) : Step dropsLeft dropsRight s t := .inr h

/-- Two steps from one state are the same step, or can each be followed by the other. -/
theorem diamond (h₁ : Step dropsLeft dropsRight s t) (h₂ : Step dropsLeft dropsRight s u) :
    t = u ∨ ∃ v, Step dropsLeft dropsRight t v ∧ Step dropsLeft dropsRight u v := by
  rcases h₁ with h₁ | h₁ <;> rcases h₂ with h₂ | h₂
  · exact .inl (h₁.deterministic h₂)
  · obtain ⟨v, hv₁, hv₂⟩ := h₁.commute h₂
    exact .inr ⟨v, .inr hv₁, .inl hv₂⟩
  · obtain ⟨v, hv₂, hv₁⟩ := h₂.commute h₁
    exact .inr ⟨v, .inl hv₁, .inr hv₂⟩
  · exact .inl (swap_injective (h₁.deterministic h₂))

/-- Any two runs from one state can be joined again. -/
theorem joinable (h₁ : Relation.ReflTransGen (Step dropsLeft dropsRight) s t)
    (h₂ : Relation.ReflTransGen (Step dropsLeft dropsRight) s u) :
    Relation.Join (Relation.ReflTransGen (Step dropsLeft dropsRight)) t u := by
  refine Relation.church_rosser (fun a b c hb hc => ?_) h₁ h₂
  rcases diamond hb hc with rfl | ⟨v, hbv, hcv⟩
  · exact ⟨b, .refl, .refl⟩
  · exact ⟨v, .single hbv, .single hcv⟩

end Step

theorem Terminal.eq_of_steps {s t : Duplex α β} (hs : Terminal dropsLeft dropsRight s)
    (h : Relation.ReflTransGen (Step dropsLeft dropsRight) s t) : t = s := by
  induction h with
  | refl => rfl
  | tail _ hstep ih =>
    rw [ih] at hstep
    exact absurd hstep (hs _)

/-- All runs that cannot go on end in the same state. -/
theorem terminal_unique {s t u : Duplex α β}
    (h₁ : Relation.ReflTransGen (Step dropsLeft dropsRight) s t)
    (h₂ : Relation.ReflTransGen (Step dropsLeft dropsRight) s u)
    (ht : Terminal dropsLeft dropsRight t) (hu : Terminal dropsLeft dropsRight u) : t = u := by
  obtain ⟨v, htv, huv⟩ := Step.joinable h₁ h₂
  exact (ht.eq_of_steps htv).symm.trans (hu.eq_of_steps huv)

/-- From every reachable state, a state where no run can go on is still reachable. -/
theorem reaches_terminal {s t u : Duplex α β}
    (h₁ : Relation.ReflTransGen (Step dropsLeft dropsRight) s t)
    (h₂ : Relation.ReflTransGen (Step dropsLeft dropsRight) s u)
    (hu : Terminal dropsLeft dropsRight u) :
    Relation.ReflTransGen (Step dropsLeft dropsRight) t u := by
  obtain ⟨v, htv, huv⟩ := Step.joinable h₁ h₂
  rwa [hu.eq_of_steps huv] at htv

/-- One run to a state where no run can go on settles every run: each reachable state can still
get there, and no run stops anywhere else. -/
theorem settles {s₀ s t : Duplex α β}
    (hrun : Relation.ReflTransGen (Step dropsLeft dropsRight) s₀ t)
    (ht : Terminal dropsLeft dropsRight t)
    (hs : Relation.ReflTransGen (Step dropsLeft dropsRight) s₀ s) :
    Relation.ReflTransGen (Step dropsLeft dropsRight) s t ∧
      (Terminal dropsLeft dropsRight s → s = t) :=
  ⟨reaches_terminal hs hrun ht, fun hs' => terminal_unique hs hrun hs' ht⟩

theorem terminal_done (a : α) (b : β) (toLeft toRight : List UInt8) :
    Terminal dropsLeft dropsRight ⟨.done a, .done b, toLeft, toRight⟩ := by
  rintro ⟨left, right, toLeft', toRight'⟩ (h | h) <;> cases h

/-! ## Runs on a duplex -/

/-- The left program runs as far as its queue allows. -/
theorem LeftStep.advance {drops : β → Bool} (p : Talk α) (right : Talk β) :
    ∀ toLeft toRight, Relation.ReflTransGen (LeftStep drops) ⟨p, right, toLeft, toRight⟩
      ⟨(p.advance toLeft).1, right, (p.advance toLeft).2.2,
        toRight ++ (p.advance toLeft).2.1⟩ := by
  induction p with
  | done a =>
    intro toLeft toRight
    simp only [Talk.advance_done, List.append_nil]
    exact .refl
  | write bytes next ih =>
    intro toLeft toRight
    have hrest := ih toLeft (toRight ++ bytes)
    simp only [List.append_assoc] at hrest
    exact .head .write hrest
  | read k next ih =>
    intro toLeft toRight
    unfold Talk.advance
    split
    · rename_i hle
      exact .head (.read hle) (ih _ _ _)
    · simp only [List.append_nil]
      exact .refl

theorem Step.advanceLeft (p : Talk α) (right : Talk β) (toLeft toRight : List UInt8) :
    Relation.ReflTransGen (Step dropsLeft dropsRight) ⟨p, right, toLeft, toRight⟩
      ⟨(p.advance toLeft).1, right, (p.advance toLeft).2.2,
        toRight ++ (p.advance toLeft).2.1⟩ :=
  Relation.ReflTransGen.mono (fun _ _ h => Step.left h) _ _
    (LeftStep.advance p right toLeft toRight)

theorem Step.of_swap {s t : Duplex α β}
    (h : Relation.ReflTransGen (LeftStep dropsLeft) s.swap t.swap) :
    Relation.ReflTransGen (Step dropsLeft dropsRight) s t := by
  have key : ∀ a b, Relation.ReflTransGen (LeftStep dropsLeft) a b →
      Relation.ReflTransGen (Step dropsLeft dropsRight) a.swap b.swap := by
    intro a b hab
    induction hab with
    | refl => exact .refl
    | tail _ hstep ih => exact ih.tail (Step.right (by rwa [Duplex.swap_swap, Duplex.swap_swap]))
  simpa only [Duplex.swap_swap] using key _ _ h

/-- The right program runs as far as its queue allows. -/
theorem Step.advanceRight (left : Talk α) (p : Talk β) (toLeft toRight : List UInt8) :
    Relation.ReflTransGen (Step dropsLeft dropsRight) ⟨left, p, toLeft, toRight⟩
      ⟨left, (p.advance toRight).1, toLeft ++ (p.advance toRight).2.1,
        (p.advance toRight).2.2⟩ :=
  Step.of_swap (LeftStep.advance p left toRight toLeft)

end Duplex
