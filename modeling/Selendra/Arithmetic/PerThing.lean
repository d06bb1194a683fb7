import Mathlib

/-! # Per-things: fractions in parts of a fixed accuracy

A per-thing is a fraction of at most one whole, kept as its parts of a fixed `accuracy`
(`10^18` for a perquintill, `10^9` for a perbill). `fromRational p q` is `p / q` rounded down,
and one whole when the fraction is above one or `q` is zero; the product with a whole number
splits the number at the accuracy and rounds the remainder's product to the nearest, ties
down. -/

/-- A fraction of at most one whole, in parts of `accuracy`. -/
structure PerThing (accuracy : Nat) where
  parts : Nat
  parts_le : parts ≤ accuracy

namespace PerThing

variable {accuracy : Nat}

def one : PerThing accuracy := ⟨accuracy, Nat.le_refl _⟩

instance : LE (PerThing accuracy) := ⟨fun a b => a.parts ≤ b.parts⟩

instance : DecidableRel (α := PerThing accuracy) (· ≤ ·) :=
  fun a b => inferInstanceAs (Decidable (a.parts ≤ b.parts))

/-- `from_rational`: `p / q` rounded down, or one whole if `q = 0` or `p > q`. -/
def fromRational (p q : Nat) : PerThing accuracy :=
  if h : q = 0 ∨ q < p then one
  else ⟨p * accuracy / q,
    Nat.div_le_of_le_mul (Nat.mul_le_mul_right accuracy (Nat.le_of_not_lt (not_or.mp h).2))⟩

/-- `from_percent`, with the percentage capped at a hundred. -/
def fromPercent (x : Nat) : PerThing accuracy := fromRational (min x 100) 100

/-- `self * x`: the whole multiples of the accuracy exactly, the remainder rounded to the
nearest, ties down. -/
def mul (p : PerThing accuracy) (x : Nat) : Nat :=
  let rem := x % accuracy * p.parts
  x / accuracy * p.parts + (rem / accuracy + if accuracy / 2 < rem % accuracy then 1 else 0)

end PerThing
