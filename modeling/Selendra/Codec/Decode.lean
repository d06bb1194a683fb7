import Selendra.Codec.Scale
import Mathlib

/-! # SCALE decoding and round trips

The decoding half of `parity-scale-codec`, over byte lists. A `Codec` pairs an encoder with
a decoder that reads a value off the front of its input and hands back the rest, or fails.
It carries the two facts every codec here has: the decoder reads back the encoding of each
value it is meant for, whatever follows it; and whatever it reads was such a value, encoded
at the front of the input. So a decoder only accepts canonical bytes, which is what lets a
proof turn "this decoder accepted those bytes" into an equation between encodings.

The codecs are what a derived `Encode`/`Decode` is built from: byte arrays, little-endian
integers, the compact length, options, sequences, pairs, enums of two variants, and a type
in bijection with another (a newtype, a struct of one field). `decodeAll` is
`DecodeAll::decode_all`: it fails unless the input is used up. -/

namespace Scale

/-- The value of bytes written least significant first. -/
def leValue : List UInt8 → Nat
  | [] => 0
  | b :: bs => b.toNat + 256 * leValue bs

theorem leValue_leBytes : ∀ (k : Nat) {n : Nat}, n < 256 ^ k → leValue (leBytes k n) = n
  | 0, n, h => by
    have hn : n = 0 := by simpa using h
    simp [leBytes, leValue, hn]
  | k + 1, n, h => by
    have hdiv : n / 256 < 256 ^ k := by
      rw [Nat.pow_succ] at h
      omega
    simp only [leBytes, leValue, leValue_leBytes k hdiv, UInt8.toNat_ofNat', Nat.reducePow]
    omega

theorem leBytes_leValue : ∀ bs : List UInt8, leBytes bs.length (leValue bs) = bs
  | [] => rfl
  | b :: bs => by
    have hb := UInt8.toNat_lt b
    have hhead : UInt8.ofNat (b.toNat + 256 * leValue bs) = b := by
      apply UInt8.toNat_inj.mp
      simp only [UInt8.toNat_ofNat', Nat.reducePow] at hb ⊢
      omega
    have htail : (b.toNat + 256 * leValue bs) / 256 = leValue bs := by
      simp only [Nat.reducePow] at hb
      omega
    simp only [List.length_cons, leBytes, leValue, hhead, htail, leBytes_leValue bs]

theorem leValue_lt : ∀ bs : List UInt8, leValue bs < 256 ^ bs.length
  | [] => by simp [leValue]
  | b :: bs => by
    have hb := UInt8.toNat_lt b
    have ih := leValue_lt bs
    simp only [leValue, List.length_cons, Nat.pow_succ, Nat.reducePow] at hb ⊢
    omega

/-- The first byte of a little-endian encoding is the value modulo a byte. -/
theorem toNat_of_cons_eq_leBytes {k x : Nat} {first : UInt8} {tail rest : List UInt8}
    (h : first :: tail = leBytes (k + 1) x ++ rest) : first.toNat = x % 256 := by
  simp only [leBytes, List.cons_append, List.cons.injEq] at h
  rw [h.1]
  simp only [UInt8.toNat_ofNat', Nat.reducePow]

/-- `Input::read` of `k` bytes. -/
def readBytes (k : Nat) (input : List UInt8) : Option (List UInt8 × List UInt8) :=
  if k ≤ input.length then some (input.take k, input.drop k) else none

theorem readBytes_append {k : Nat} {bs rest : List UInt8} (h : bs.length = k) :
    readBytes k (bs ++ rest) = some (bs, rest) := by
  have hle : k ≤ (bs ++ rest).length := by simp [h]
  rw [readBytes, if_pos hle, List.take_left' h, List.drop_left' h]

theorem readBytes_sound {k : Nat} {input bs rest : List UInt8}
    (h : readBytes k input = some (bs, rest)) : bs.length = k ∧ input = bs ++ rest := by
  unfold readBytes at h
  split at h
  · simp only [Option.some.injEq, Prod.mk.injEq] at h
    obtain ⟨rfl, rfl⟩ := h
    exact ⟨by simpa, (List.take_append_drop k input).symm⟩
  · cases h

/-- An encoder with a decoder that inverts it on the values it is meant for, and accepts
nothing else. -/
structure Codec (α : Type) where
  encode : α → List UInt8
  decode : List UInt8 → Option (α × List UInt8)
  valid : α → Prop
  decode_encode : ∀ a rest, valid a → decode (encode a ++ rest) = some (a, rest)
  decode_sound : ∀ {input a rest}, decode input = some (a, rest) →
    valid a ∧ input = encode a ++ rest

namespace Codec

variable {α β : Type}

/-- `[u8; k]`. -/
def array (k : Nat) : Codec (List.Vector UInt8 k) where
  encode v := v.toList
  decode input :=
    if h : k ≤ input.length then some (⟨input.take k, by simp [h]⟩, input.drop k) else none
  valid _ := True
  decode_encode v rest _ := by
    have hlen : v.toList.length = k := v.toList_length
    have hle : k ≤ (v.toList ++ rest).length := by simp [hlen]
    rw [dif_pos hle]
    congr 2
    · exact Subtype.ext (List.take_left' hlen)
    · exact List.drop_left' hlen
  decode_sound {input a rest} h := by
    split at h
    · simp only [Option.some.injEq] at h
      obtain ⟨rfl, rfl⟩ := h
      exact ⟨trivial, (List.take_append_drop k input).symm⟩
    · cases h

/-- A little-endian unsigned integer of `k` bytes: `u16` for `k = 2`, `u64` for `k = 8`. -/
def le (k : Nat) : Codec Nat where
  encode n := leBytes k n
  decode input := (readBytes k input).map fun p => (leValue p.1, p.2)
  valid n := n < 256 ^ k
  decode_encode n rest h := by
    rw [readBytes_append (length_leBytes k n)]
    simp [leValue_leBytes k h]
  decode_sound {input n rest} h := by
    obtain ⟨⟨bs, rest'⟩, hread, hpair⟩ := Option.map_eq_some_iff.mp h
    simp only [Prod.mk.injEq] at hpair
    obtain ⟨rfl, rfl⟩ := hpair
    obtain ⟨hlen, rfl⟩ := readBytes_sound hread
    refine ⟨hlen ▸ leValue_lt bs, ?_⟩
    rw [← hlen, leBytes_leValue]

/-! ## The compact length -/

/-- `Compact<u32>::decode`: the mode is in the two low bits of the first byte, and each mode
accepts only the values no shorter mode holds. -/
def decodeCompact (input : List UInt8) : Option (Nat × List UInt8) :=
  match input with
  | [] => none
  | first :: rest =>
    match first.toNat % 4 with
    | 0 => some (first.toNat / 4, rest)
    | 1 => ((le 2).decode input).bind fun p =>
      if 2 ^ 6 ≤ p.1 / 4 ∧ p.1 / 4 < 2 ^ 14 then some (p.1 / 4, p.2) else none
    | 2 => ((le 4).decode input).bind fun p =>
      if 2 ^ 14 ≤ p.1 / 4 ∧ p.1 / 4 < 2 ^ 30 then some (p.1 / 4, p.2) else none
    | _ =>
      if first.toNat / 4 = 0 then
        ((le 4).decode rest).bind fun p => if 2 ^ 30 ≤ p.1 then some (p.1, p.2) else none
      else none

/-- In the modes of two and four bytes the decoder rereads the first byte as part of the
value: the mode comes back as the value modulo four. -/
theorem decodeCompact_leBytes {k x : Nat} (hx : x < 256 ^ (k + 1)) (rest : List UInt8) :
    ∃ first tail, leBytes (k + 1) x ++ rest = first :: tail ∧ first.toNat % 4 = x % 4 ∧
      (le (k + 1)).decode (first :: tail) = some (x, rest) := by
  refine ⟨UInt8.ofNat x, leBytes k (x / 256) ++ rest, rfl, ?_, (le (k + 1)).decode_encode x rest hx⟩
  simp only [UInt8.toNat_ofNat', Nat.reducePow]
  omega

theorem decodeCompact_encode {n : Nat} (hn : n < 2 ^ 32) (rest : List UInt8) :
    decodeCompact (compactEncode n ++ rest) = some (n, rest) := by
  unfold compactEncode
  by_cases h6 : n < 2 ^ 6
  · -- one byte: the value over mode 0
    have hmode : (UInt8.ofNat (n * 4)).toNat = n * 4 := by
      simp only [UInt8.toNat_ofNat', Nat.reducePow]
      omega
    rw [if_pos h6]
    simp only [leBytes, List.cons_append, List.nil_append, decodeCompact, hmode, Nat.mul_mod_left]
    simp
  rw [if_neg h6]
  by_cases h14 : n < 2 ^ 14
  · -- two bytes, mode 1
    rw [if_pos h14]
    obtain ⟨first, tail, heq, hmode, hdec⟩ :=
      decodeCompact_leBytes (k := 1) (x := n * 4 + 1) (by omega) rest
    have hmode' : first.toNat % 4 = 1 := by omega
    rw [heq, decodeCompact, hmode', hdec]
    simp only [Option.bind_some]
    rw [if_pos (by omega)]
    congr 2
    omega
  rw [if_neg h14]
  by_cases h30 : n < 2 ^ 30
  · -- four bytes, mode 2
    rw [if_pos h30]
    obtain ⟨first, tail, heq, hmode, hdec⟩ :=
      decodeCompact_leBytes (k := 3) (x := n * 4 + 2) (by omega) rest
    have hmode' : first.toNat % 4 = 2 := by omega
    rw [heq, decodeCompact, hmode', hdec]
    simp only [Option.bind_some]
    rw [if_pos (by omega)]
    congr 2
    omega
  · -- a mode byte, then the value in four bytes
    rw [if_neg h30]
    have hdec : (le 4).decode (leBytes 4 n ++ rest) = some (n, rest) :=
      (le 4).decode_encode n rest (by simp only [le]; omega)
    simp only [List.cons_append, decodeCompact]
    simp only [show (3 : UInt8).toNat = 3 from rfl, Nat.reduceMod, Nat.reduceDiv, ↓reduceIte]
    rw [hdec]
    simp only [Option.bind_some]
    rw [if_pos (by omega)]

theorem decodeCompact_sound {input rest : List UInt8} {n : Nat}
    (h : decodeCompact input = some (n, rest)) : n < 2 ^ 32 ∧ input = compactEncode n ++ rest := by
  match input, h with
  | first :: tail, h =>
  have hfirst : first.toNat < 256 := UInt8.toNat_lt first
  simp only [decodeCompact] at h
  split at h
  · -- mode 0: the value is the first byte over four
    rename_i hmode
    simp only [Option.some.injEq, Prod.mk.injEq] at h
    obtain ⟨rfl, rfl⟩ := h
    have hbyte : UInt8.ofNat (first.toNat / 4 * 4) = first := by
      rw [show first.toNat / 4 * 4 = first.toNat by omega, UInt8.ofNat_toNat]
    refine ⟨by omega, ?_⟩
    rw [compactEncode, if_pos (by omega)]
    simp [leBytes, hbyte]
  · -- mode 1: two bytes
    rename_i hmode
    obtain ⟨⟨x, rest'⟩, hx, hif⟩ := Option.bind_eq_some_iff.mp h
    split at hif
    · rename_i hrange
      simp only [Option.some.injEq, Prod.mk.injEq] at hif
      obtain ⟨rfl, rfl⟩ := hif
      obtain ⟨hlt, heq⟩ := (le 2).decode_sound hx
      have hx4 := toNat_of_cons_eq_leBytes heq
      refine ⟨by omega, ?_⟩
      rw [heq, compactEncode, if_neg (by omega), if_pos (by omega)]
      simp only [le]
      congr 2
      omega
    · cases hif
  · -- mode 2: four bytes
    rename_i hmode
    obtain ⟨⟨x, rest'⟩, hx, hif⟩ := Option.bind_eq_some_iff.mp h
    split at hif
    · rename_i hrange
      simp only [Option.some.injEq, Prod.mk.injEq] at hif
      obtain ⟨rfl, rfl⟩ := hif
      obtain ⟨hlt, heq⟩ := (le 4).decode_sound hx
      have hx4 := toNat_of_cons_eq_leBytes heq
      refine ⟨by omega, ?_⟩
      rw [heq, compactEncode, if_neg (by omega), if_neg (by omega), if_pos (by omega)]
      simp only [le]
      congr 2
      omega
    · cases hif
  · -- mode 3: the mode byte `3`, then the value
    rename_i hmode0 hmode1 hmode2
    split at h
    · rename_i hupper
      obtain ⟨⟨x, rest'⟩, hx, hif⟩ := Option.bind_eq_some_iff.mp h
      split at hif
      · simp only [Option.some.injEq, Prod.mk.injEq] at hif
        obtain ⟨rfl, rfl⟩ := hif
        obtain ⟨hlt, rfl⟩ := (le 4).decode_sound hx
        have hthree : first = 3 := by
          apply UInt8.toNat_inj.mp
          show first.toNat = 3
          simp only [imp_false] at hmode0 hmode1 hmode2
          omega
        simp only [le, Nat.reducePow] at hlt ⊢
        refine ⟨by omega, ?_⟩
        rw [compactEncode, if_neg (by omega), if_neg (by omega), if_neg (by omega), hthree]
        rfl
      · cases hif
    · cases h

/-- `Compact<u32>`, for the lengths of sequences. -/
def compact : Codec Nat where
  encode := compactEncode
  decode := decodeCompact
  valid n := n < 2 ^ 32
  decode_encode _ rest h := decodeCompact_encode h rest
  decode_sound h := decodeCompact_sound h

/-! ## Options, sequences, pairs and enums -/

/-- `Option<T>`: the tag `0` for `None`, `1` and the value for `Some`. -/
def option (c : Codec α) : Codec (Option α) where
  encode
    | none => [0]
    | some a => 1 :: c.encode a
  decode
    | [] => none
    | tag :: rest =>
      if tag = 0 then some (none, rest)
      else if tag = 1 then (c.decode rest).map fun p => (some p.1, p.2)
      else none
  valid o := ∀ a, o = some a → c.valid a
  decode_encode o rest h := by
    cases o with
    | none => rfl
    | some a => simp [c.decode_encode a rest (h a rfl)]
  decode_sound {input o rest} h := by
    match input, h with
    | tag :: tail, h =>
    simp only at h
    split at h
    · simp only [Option.some.injEq, Prod.mk.injEq] at h
      obtain ⟨rfl, rfl⟩ := h
      rename_i htag
      exact ⟨(fun a ha => nomatch ha), by rw [htag]; rfl⟩
    · split at h
      · rename_i htag
        obtain ⟨⟨a, rest'⟩, hdec, hpair⟩ := Option.map_eq_some_iff.mp h
        simp only [Prod.mk.injEq] at hpair
        obtain ⟨rfl, rfl⟩ := hpair
        obtain ⟨hvalid, rfl⟩ := c.decode_sound hdec
        exact ⟨fun a' ha' => by cases ha'; exact hvalid, by rw [htag]; rfl⟩
      · cases h

/-- `n` items read one after another. -/
def decodeItems (c : Codec α) : Nat → List UInt8 → Option (List α × List UInt8)
  | 0, input => some ([], input)
  | k + 1, input => (c.decode input).bind fun p =>
    (decodeItems c k p.2).map fun q => (p.1 :: q.1, q.2)

theorem decodeItems_flatMap (c : Codec α) :
    ∀ (l : List α), (∀ a ∈ l, c.valid a) → ∀ rest,
      decodeItems c l.length (l.flatMap c.encode ++ rest) = some (l, rest)
  | [], _, rest => rfl
  | a :: l, hl, rest => by
    have ha := c.decode_encode a (l.flatMap c.encode ++ rest) (hl a List.mem_cons_self)
    have ih := decodeItems_flatMap c l (fun b hb => hl b (List.mem_cons_of_mem a hb)) rest
    simp only [List.length_cons, List.flatMap_cons, List.append_assoc, decodeItems, ha,
      Option.bind_some, ih, Option.map_some]

theorem decodeItems_sound (c : Codec α) :
    ∀ (n : Nat) {input rest : List UInt8} {l : List α}, decodeItems c n input = some (l, rest) →
      l.length = n ∧ (∀ a ∈ l, c.valid a) ∧ input = l.flatMap c.encode ++ rest
  | 0, input, rest, l, h => by
    simp only [decodeItems, Option.some.injEq, Prod.mk.injEq] at h
    obtain ⟨rfl, rfl⟩ := h
    exact ⟨rfl, (fun a ha => nomatch ha), rfl⟩
  | n + 1, input, rest, l, h => by
    obtain ⟨⟨a, mid⟩, ha, hitems⟩ := Option.bind_eq_some_iff.mp h
    obtain ⟨⟨l', rest'⟩, hl', hpair⟩ := Option.map_eq_some_iff.mp hitems
    simp only [Prod.mk.injEq] at hpair
    obtain ⟨rfl, rfl⟩ := hpair
    obtain ⟨hvalid, rfl⟩ := c.decode_sound ha
    obtain ⟨hlen, hvalids, rfl⟩ := decodeItems_sound c n hl'
    refine ⟨by simp [hlen], ?_, by simp⟩
    intro b hb
    rcases List.mem_cons.mp hb with rfl | hb
    · exact hvalid
    · exact hvalids b hb

/-- `Vec<T>` and `[T]`: the compact length, then the items. -/
def vec (c : Codec α) : Codec (List α) where
  encode l := compactEncode l.length ++ l.flatMap c.encode
  decode input := (compact.decode input).bind fun p => decodeItems c p.1 p.2
  valid l := l.length < 2 ^ 32 ∧ ∀ a ∈ l, c.valid a
  decode_encode l rest h := by
    have hlen : compact.decode (compactEncode l.length ++ (l.flatMap c.encode ++ rest)) =
        some (l.length, l.flatMap c.encode ++ rest) := compact.decode_encode _ _ h.1
    rw [List.append_assoc, hlen, Option.bind_some]
    exact decodeItems_flatMap c l h.2 rest
  decode_sound {input l rest} h := by
    obtain ⟨⟨n, mid⟩, hn, hitems⟩ := Option.bind_eq_some_iff.mp h
    obtain ⟨hlt, rfl⟩ := compact.decode_sound hn
    obtain ⟨rfl, hvalid, rfl⟩ := decodeItems_sound c _ hitems
    exact ⟨⟨hlt, hvalid⟩, by simp [compact]⟩

/-- A struct of two fields: the fields one after the other. -/
def pair (c : Codec α) (d : Codec β) : Codec (α × β) where
  encode p := c.encode p.1 ++ d.encode p.2
  decode input := (c.decode input).bind fun p => (d.decode p.2).map fun q => ((p.1, q.1), q.2)
  valid p := c.valid p.1 ∧ d.valid p.2
  decode_encode p rest h := by
    simp [c.decode_encode p.1 _ h.1, d.decode_encode p.2 rest h.2]
  decode_sound {input p rest} h := by
    obtain ⟨⟨a, mid⟩, ha, hrest⟩ := Option.bind_eq_some_iff.mp h
    obtain ⟨⟨b, rest'⟩, hb, hpair⟩ := Option.map_eq_some_iff.mp hrest
    simp only [Prod.mk.injEq] at hpair
    obtain ⟨rfl, rfl⟩ := hpair
    obtain ⟨hva, rfl⟩ := c.decode_sound ha
    obtain ⟨hvb, rfl⟩ := d.decode_sound hb
    exact ⟨⟨hva, hvb⟩, by simp⟩

/-- An enum of two variants: the variant's index as a byte, then its field. -/
def sum (c : Codec α) (d : Codec β) : Codec (α ⊕ β) where
  encode
    | .inl a => 0 :: c.encode a
    | .inr b => 1 :: d.encode b
  decode
    | [] => none
    | tag :: rest =>
      if tag = 0 then (c.decode rest).map fun p => (.inl p.1, p.2)
      else if tag = 1 then (d.decode rest).map fun p => (.inr p.1, p.2)
      else none
  valid
    | .inl a => c.valid a
    | .inr b => d.valid b
  decode_encode s rest h := by
    cases s with
    | inl a => simp [c.decode_encode a rest h]
    | inr b => simp [d.decode_encode b rest h]
  decode_sound {input s rest} h := by
    match input, h with
    | tag :: tail, h =>
    simp only at h
    split at h
    · rename_i htag
      obtain ⟨⟨a, rest'⟩, ha, hpair⟩ := Option.map_eq_some_iff.mp h
      simp only [Prod.mk.injEq] at hpair
      obtain ⟨rfl, rfl⟩ := hpair
      obtain ⟨hva, rfl⟩ := c.decode_sound ha
      exact ⟨hva, by rw [htag]; rfl⟩
    · split at h
      · rename_i htag
        obtain ⟨⟨b, rest'⟩, hb, hpair⟩ := Option.map_eq_some_iff.mp h
        simp only [Prod.mk.injEq] at hpair
        obtain ⟨rfl, rfl⟩ := hpair
        obtain ⟨hvb, rfl⟩ := d.decode_sound hb
        exact ⟨hvb, by rw [htag]; rfl⟩
      · cases h

/-- A variant without fields: no bytes at all. -/
def unit : Codec Unit where
  encode _ := []
  decode input := some ((), input)
  valid _ := True
  decode_encode _ _ _ := rfl
  decode_sound h := by
    cases h
    exact ⟨trivial, rfl⟩

/-- A codec carried over a bijection, as a newtype or a struct of one field is encoded. -/
def map (c : Codec α) (f : α → β) (g : β → α) (hfg : ∀ b, f (g b) = b)
    (hgf : ∀ a, c.valid a → g (f a) = a) : Codec β where
  encode b := c.encode (g b)
  decode input := (c.decode input).map fun p => (f p.1, p.2)
  valid b := c.valid (g b)
  decode_encode b rest h := by
    simp [c.decode_encode (g b) rest h, hfg]
  decode_sound {input b rest} h := by
    obtain ⟨⟨a, rest'⟩, ha, hpair⟩ := Option.map_eq_some_iff.mp h
    simp only [Prod.mk.injEq] at hpair
    obtain ⟨rfl, rfl⟩ := hpair
    obtain ⟨hva, rfl⟩ := c.decode_sound ha
    rw [hgf a hva]
    exact ⟨hva, rfl⟩

/-! ## Decoding a whole input -/

end Codec

/-- `DecodeAll::decode_all`: the decoder, failing unless the input is used up. -/
def decodeAll {α : Type} (decode : List UInt8 → Option (α × List UInt8)) (input : List UInt8) :
    Option α :=
  match decode input with
  | some (a, []) => some a
  | _ => none

theorem decode_of_decodeAll {α : Type} {decode : List UInt8 → Option (α × List UInt8)}
    {input : List UInt8} {a : α} (h : decodeAll decode input = some a) :
    decode input = some (a, []) := by
  unfold decodeAll at h
  split at h
  · rename_i a' hdec
    cases h
    exact hdec
  · cases h

namespace Codec

variable {α : Type}

theorem decodeAll_encode (c : Codec α) {a : α} (h : c.valid a) :
    decodeAll c.decode (c.encode a) = some a := by
  have hdec := c.decode_encode a [] h
  rw [List.append_nil] at hdec
  rw [decodeAll, hdec]

theorem decodeAll_sound (c : Codec α) {input : List UInt8} {a : α}
    (h : decodeAll c.decode input = some a) : c.valid a ∧ input = c.encode a := by
  obtain ⟨hvalid, heq⟩ := c.decode_sound (decode_of_decodeAll h)
  exact ⟨hvalid, by rw [heq, List.append_nil]⟩

end Codec

end Scale
