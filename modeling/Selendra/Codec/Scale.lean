import Mathlib

/-! # SCALE encodings and their sizes

The SCALE codec of `parity-scale-codec`, as far as sizes go. A length is written in the
compact encoding of a `u32`: one, two or four bytes that hold the value shifted by two bits
over a mode, or from `2^30` on a mode byte followed by four bytes of the value. A sequence
(`[T]`, `Vec<T>`) is its compact length followed by its items. What a bound on an encoded
size needs: the compact length is positive and grows with the length, so the encoded size of
a sequence is above the sum of its items' sizes and grows when items are appended. -/

namespace Scale

/-- `n` as `k` bytes, least significant first. -/
def leBytes : Nat → Nat → List UInt8
  | 0, _ => []
  | k + 1, n => UInt8.ofNat n :: leBytes k (n / 256)

@[simp] theorem length_leBytes (k n : Nat) : (leBytes k n).length = k := by
  induction k generalizing n with
  | zero => rfl
  | succ k ih => simp [leBytes, ih]

/-- `Compact<u32>`; a length of `2^32` or more has no encoding (the codec panics on it). -/
def compactEncode (n : Nat) : List UInt8 :=
  if n < 2 ^ 6 then leBytes 1 (n * 4)
  else if n < 2 ^ 14 then leBytes 2 (n * 4 + 1)
  else if n < 2 ^ 30 then leBytes 4 (n * 4 + 2)
  else 3 :: leBytes 4 n

def compactLen (n : Nat) : Nat :=
  if n < 2 ^ 6 then 1 else if n < 2 ^ 14 then 2 else if n < 2 ^ 30 then 4 else 5

theorem length_compactEncode (n : Nat) : (compactEncode n).length = compactLen n := by
  unfold compactEncode compactLen
  split_ifs <;> simp

theorem compactLen_pos (n : Nat) : 0 < compactLen n := by
  unfold compactLen
  split_ifs <;> omega

theorem compactLen_mono {m n : Nat} (h : m ≤ n) : compactLen m ≤ compactLen n := by
  unfold compactLen
  split_ifs <;> omega

/-- A type with a SCALE encoding. -/
class Encode (α : Type) where
  encode : α → List UInt8

variable {α : Type} [Encode α]

/-- `encoded_size`. -/
def encodedSize (a : α) : Nat := (Encode.encode a).length

/-- A sequence: its compact length, then its items. -/
instance : Encode (List α) where
  encode l := compactEncode l.length ++ l.flatMap Encode.encode

theorem encodedSize_list (l : List α) :
    encodedSize l = compactLen l.length + (l.map encodedSize).sum := by
  simp only [encodedSize, Encode.encode, List.length_append, length_compactEncode,
    List.length_flatMap]
  rfl

/-- A sequence encodes to more than its items. -/
theorem sum_lt_encodedSize (l : List α) : (l.map encodedSize).sum < encodedSize l := by
  rw [encodedSize_list]
  have := compactLen_pos l.length
  omega

/-- Appending items never shrinks the encoding. -/
theorem encodedSize_le_append (l t : List α) : encodedSize l ≤ encodedSize (l ++ t) := by
  rw [encodedSize_list, encodedSize_list, List.length_append, List.map_append, List.sum_append]
  have := compactLen_mono (Nat.le_add_right l.length t.length)
  omega

theorem encodedSize_le_of_leading {l t : List α} (h : l <+: t) : encodedSize l ≤ encodedSize t := by
  obtain ⟨u, rfl⟩ := h
  exact encodedSize_le_append l u

end Scale
