import Selendra.Codec.Scale

/-! # Cutting a response into messages

`Limiter` of `sync/message_limiter.rs`, which `Service::send_big_response` uses to send the
items of a response in messages of at most `LIMIT` encoded bytes. Each call of
`next_largest_msg` finds the end of the next message in two loops: the first adds up the
items' sizes from the start while the sum is within the limit, which can overshoot, as the
sum leaves out the compact length the slice is encoded with; the second drops items off the
end until the slice, length included, fits.

The largest fitting slice is what the second loop finds, because a slice encodes to more than
its items' sizes and its encoding grows with it (`Scale.encodedSize_le_of_leading`): from where
the first loop stopped no longer slice fits, so the first that fits from the top is the
largest. So the messages cut the items into consecutive largest chunks, and stop at the end or
at an item that alone is too big (`messages_largest`). -/

namespace Selendra.Sync

open Scale

/-- `MAX_SYNC_MESSAGE_SIZE`, the `LIMIT` of `MsgLimiter`. -/
def MAX_SYNC_MESSAGE_SIZE : Nat := 15 * 1024 * 1024 + 1024

structure Limiter (D : Type) where
  msg : List D
  startIndex : Nat

namespace Limiter

inductive Error where
  | itemTooBig
deriving DecidableEq, Repr

variable {D : Type} [Encode D] (limit : Nat)

def new (msg : List D) : Limiter D := ⟨msg, 0⟩

/-- The first loop of `find_idx_of_largest_prefix`, over the items from the start: while there
is an item and the sum so far is within the limit, the item's size is added. The number of
items added. -/
def scanItems : List D → Nat → Nat
  | [], _ => 0
  | d :: ds, sum => if sum ≤ limit then scanItems ds (sum + encodedSize d) + 1 else 0

/-- The second loop: while some items are left and their slice encodes to more than the
limit, the last one is dropped. -/
def trimItems (items : List D) : Nat → Nat
  | 0 => 0
  | k + 1 => if limit < encodedSize (items.take (k + 1)) then trimItems items k else k + 1

def findIdxOfLargestPrefix (l : Limiter D) : Except Error Nat :=
  let items := l.msg.drop l.startIndex
  let idx := l.startIndex + trimItems limit items (scanItems limit items 0)
  if idx = l.startIndex then .error .itemTooBig else .ok idx

def nextLargestMsg (l : Limiter D) : Except Error (Option (List D)) × Limiter D :=
  if l.startIndex = l.msg.length then (.ok none, l)
  else
    match l.findIdxOfLargestPrefix limit with
    | .error e => (.error e, l)
    | .ok endIdx =>
      (.ok (some ((l.msg.drop l.startIndex).take (endIdx - l.startIndex))),
        { l with startIndex := endIdx })

/-- The successive results of `next_largest_msg` on fuel, as `send_big_response` takes them:
the messages in order, until it gives none or fails. -/
def messages : Nat → Limiter D → List (List D) × Except Error Unit
  | 0, _ => ([], .ok ())
  | fuel + 1, l =>
    match l.nextLargestMsg limit with
    | (.error e, _) => ([], .error e)
    | (.ok none, _) => ([], .ok ())
    | (.ok (some chunk), l) =>
      let rest := messages fuel l
      (chunk :: rest.1, rest.2)

end Limiter

/-- `Service::send_big_response`: the messages sent for the response items, and its result.
Every message holds an item at least, so one round more than there are items is enough. -/
def sendBigResponse {D : Type} [Encode D] (responseItems : List D) :
    List (List D) × Except Limiter.Error Unit :=
  Limiter.messages MAX_SYNC_MESSAGE_SIZE (responseItems.length + 1) (Limiter.new responseItems)

namespace Limiter

variable {D : Type} [Encode D] (limit : Nat)

/-- `chunk` is a message `next_largest_msg` may send from `items`: a prefix that is not
empty and fits the limit, and the largest that does: all of `items`, or the next item would
not fit. -/
structure LargestChunk (items chunk : List D) : Prop where
  ne_nil : chunk ≠ []
  leading : chunk <+: items
  fits : encodedSize chunk ≤ limit
  largest : ∀ d, (items.drop chunk.length).head? = some d → limit < encodedSize (chunk ++ [d])

/-- The successive messages from `items`, and how they end: with the items used up, or at an
item that alone does not fit. -/
inductive Chunks : List D → List (List D) → Except Error Unit → Prop
  | done : Chunks [] [] (.ok ())
  | tooBig {d : D} {ds : List D} : limit < encodedSize [d] → Chunks (d :: ds) [] (.error .itemTooBig)
  | chunk {items chunk : List D} {cs : List (List D)} {r : Except Error Unit} :
      LargestChunk limit items chunk → Chunks (items.drop chunk.length) cs r →
      Chunks items (chunk :: cs) r

/-! ## The two loops -/

section Loops

theorem scanItems_le : ∀ (ds : List D) (sum : Nat), scanItems limit ds sum ≤ ds.length
  | [], _ => Nat.le_refl _
  | d :: ds, sum => by
    unfold scanItems
    split_ifs
    · have := scanItems_le ds (sum + encodedSize d)
      simp only [List.length_cons]
      omega
    · exact Nat.zero_le _

theorem scanItems_pos {d : D} {ds : List D} {sum : Nat} (h : sum ≤ limit) :
    0 < scanItems limit (d :: ds) sum := by
  simp only [scanItems, if_pos h]
  omega

/-- The first loop stops at the end or once the sum is above the limit. -/
theorem scanItems_exit : ∀ (ds : List D) (sum : Nat), scanItems limit ds sum = ds.length ∨
    limit < sum + ((ds.take (scanItems limit ds sum)).map encodedSize).sum
  | [], _ => Or.inl rfl
  | d :: ds, sum => by
    unfold scanItems
    split_ifs with h
    · rcases scanItems_exit ds (sum + encodedSize d) with hk | hk
      · exact Or.inl (by rw [hk, List.length_cons])
      · refine Or.inr ?_
        rw [List.take_succ_cons, List.map_cons, List.sum_cons]
        omega
    · exact Or.inr (by simp only [List.take_zero, List.map_nil, List.sum_nil]; omega)

variable (items : List D)

theorem trimItems_le : ∀ k, trimItems limit items k ≤ k
  | 0 => Nat.le_refl _
  | k + 1 => by
    unfold trimItems
    split_ifs
    · exact Nat.le_succ_of_le (trimItems_le k)
    · exact Nat.le_refl _

/-- The second loop stops with nothing left or with a slice that fits. -/
theorem trimItems_fits : ∀ k, trimItems limit items k = 0 ∨
    encodedSize (items.take (trimItems limit items k)) ≤ limit
  | 0 => Or.inl rfl
  | k + 1 => by
    unfold trimItems
    split_ifs with h
    · exact trimItems_fits k
    · exact Or.inr (Nat.le_of_not_lt h)

/-- Every slice it dropped encodes to more than the limit. -/
theorem trimItems_above : ∀ k j, trimItems limit items k < j → j ≤ k →
    limit < encodedSize (items.take j)
  | 0, _, hj, hk => absurd hk (by omega)
  | k + 1, j, hj, hk => by
    unfold trimItems at hj
    split_ifs at hj with h
    · rcases Nat.lt_or_ge j (k + 1) with hjk | hjk
      · exact trimItems_above k j hj (by omega)
      · rw [show j = k + 1 by omega]
        exact h
    · omega

end Loops

/-! ## One message -/

section Message

variable {limit} {d : D} {ds : List D}

/-- The slices the second loop keeps are those of the first items: the first loop takes one
at least. -/
theorem trimItems_scanItems_le :
    trimItems limit (d :: ds) (scanItems limit (d :: ds) 0) ≤ (d :: ds).length :=
  Nat.le_trans (trimItems_le limit _ _) (scanItems_le limit _ _)

/-- Nothing fits exactly when the first item alone does not. -/
theorem trimItems_scanItems_eq_zero :
    trimItems limit (d :: ds) (scanItems limit (d :: ds) 0) = 0 ↔ limit < encodedSize [d] := by
  have hscan : 0 < scanItems limit (d :: ds) 0 := scanItems_pos limit (Nat.zero_le limit)
  constructor
  · intro h
    have := trimItems_above limit (d :: ds) _ 1 (by omega) hscan
    rwa [List.take_succ_cons, List.take_zero] at this
  · intro h
    by_contra h0
    have hfit := (trimItems_fits limit (d :: ds) (scanItems limit (d :: ds) 0)).resolve_left h0
    -- a slice that fits would hold the first item, which alone is too big
    obtain ⟨k, hk⟩ := Nat.exists_eq_succ_of_ne_zero h0
    have hpre : [d] <+: (d :: ds).take (trimItems limit (d :: ds) (scanItems limit (d :: ds) 0)) := by
      rw [hk, List.take_succ_cons]
      exact ⟨ds.take k, rfl⟩
    exact absurd hfit (Nat.not_le_of_lt (Nat.lt_of_lt_of_le h (encodedSize_le_of_leading hpre)))

/-- When something fits, the second loop keeps the largest slice that does. -/
theorem largestChunk_trimItems_scanItems
    (h : trimItems limit (d :: ds) (scanItems limit (d :: ds) 0) ≠ 0) :
    LargestChunk limit (d :: ds) ((d :: ds).take (trimItems limit (d :: ds) (scanItems limit (d :: ds) 0))) := by
  set k₁ := scanItems limit (d :: ds) 0 with hk₁
  set k₂ := trimItems limit (d :: ds) k₁ with hk₂
  have hle : k₂ ≤ (d :: ds).length := trimItems_scanItems_le
  have hlen : ((d :: ds).take k₂).length = k₂ := List.length_take_of_le hle
  have hfit : encodedSize ((d :: ds).take k₂) ≤ limit :=
    (trimItems_fits limit (d :: ds) k₁).resolve_left h
  refine ⟨?_, List.take_prefix _ _, hfit, ?_⟩
  · intro hnil
    rw [hnil, List.length_nil] at hlen
    exact h hlen.symm
  · intro d' hd'
    rw [hlen, List.head?_drop] at hd'
    have htake : (d :: ds).take (k₂ + 1) = (d :: ds).take k₂ ++ [d'] := by
      rw [List.take_add_one, hd', Option.toList_some]
    rw [← htake]
    rcases Nat.lt_or_ge k₂ k₁ with hlt | hge
    · -- the next slice was dropped by the second loop
      exact trimItems_above limit (d :: ds) k₁ (k₂ + 1) (by omega) hlt
    · -- the second loop kept all the first took, which stopped above the limit
      have hk : k₂ = k₁ := Nat.le_antisymm (trimItems_le limit _ _) hge
      rcases scanItems_exit limit (d :: ds) 0 with hend | hover
      · have := (List.getElem?_eq_some_iff.mp hd').1
        omega
      · rw [← hk₁, ← hk, Nat.zero_add] at hover
        have := sum_lt_encodedSize ((d :: ds).take k₂)
        omega

variable (limit)

/-- What `next_largest_msg` does: at the end it gives none; at an item that alone does not
fit it fails and stays; otherwise it gives the largest chunk from the start and moves past
it. -/
theorem nextLargestMsg_cases (l : Limiter D) (hl : l.startIndex ≤ l.msg.length) :
    (l.msg.drop l.startIndex = [] ∧ l.nextLargestMsg limit = (.ok none, l)) ∨
    (∃ d ds, l.msg.drop l.startIndex = d :: ds ∧ limit < encodedSize [d] ∧
      l.nextLargestMsg limit = (.error .itemTooBig, l)) ∨
    (∃ chunk, LargestChunk limit (l.msg.drop l.startIndex) chunk ∧
      l.nextLargestMsg limit =
        (.ok (some chunk), { l with startIndex := l.startIndex + chunk.length })) := by
  by_cases hend : l.startIndex = l.msg.length
  · refine Or.inl ⟨List.drop_eq_nil_of_le (by omega), ?_⟩
    simp only [nextLargestMsg, hend, if_true]
  · refine Or.inr ?_
    cases hitems : l.msg.drop l.startIndex with
    | nil => exact absurd (List.drop_eq_nil_iff.mp hitems) (by omega)
    | cons d ds =>
      have hfind : l.findIdxOfLargestPrefix limit =
          if l.startIndex + trimItems limit (d :: ds) (scanItems limit (d :: ds) 0) = l.startIndex
          then .error .itemTooBig
          else .ok (l.startIndex + trimItems limit (d :: ds) (scanItems limit (d :: ds) 0)) := by
        simp only [findIdxOfLargestPrefix, hitems]
      by_cases h0 : trimItems limit (d :: ds) (scanItems limit (d :: ds) 0) = 0
      · refine Or.inl ⟨d, ds, rfl, trimItems_scanItems_eq_zero.mp h0, ?_⟩
        simp only [nextLargestMsg, hend, if_false, hfind, h0, Nat.add_zero, if_true]
      · refine Or.inr ⟨_, largestChunk_trimItems_scanItems h0, ?_⟩
        have hle : trimItems limit (d :: ds) (scanItems limit (d :: ds) 0) ≤ (d :: ds).length :=
          trimItems_scanItems_le
        have hlen := List.length_take_of_le hle
        simp only [nextLargestMsg, hend, if_false, hfind, hitems, hlen,
          Nat.add_eq_left, h0, Nat.add_sub_cancel_left]

end Message

/-! ## The messages -/

/-- From a limiter within its items, with fuel beyond the items left, the messages are the
successive largest chunks, ending at the end or at an item that alone does not fit. -/
theorem messages_chunks : ∀ (fuel : Nat) (l : Limiter D), l.startIndex ≤ l.msg.length →
    l.msg.length - l.startIndex < fuel →
    Chunks limit (l.msg.drop l.startIndex) (messages limit fuel l).1 (messages limit fuel l).2
  | 0, _, _, hf => absurd hf (Nat.not_lt_zero _)
  | fuel + 1, l, hl, hf => by
    rcases nextLargestMsg_cases limit l hl with ⟨hnil, hnext⟩ | ⟨d, ds, hitems, hbig, hnext⟩ |
        ⟨chunk, hchunk, hnext⟩
    · simp only [messages, hnext, hnil]
      exact .done
    · simp only [messages, hnext, hitems]
      exact .tooBig hbig
    · -- the chunk holds an item at least, so the fuel left is beyond the items left after it
      have hc : chunk.length ≤ (l.msg.drop l.startIndex).length := hchunk.leading.length_le
      have hpos : 0 < chunk.length := List.length_pos_of_ne_nil hchunk.ne_nil
      rw [List.length_drop] at hc
      have ih := messages_chunks fuel { l with startIndex := l.startIndex + chunk.length }
        (by simp only; omega) (by simp only; omega)
      simp only [messages, hnext]
      exact .chunk hchunk (by rw [List.drop_drop]; exact ih)

/-- With fuel beyond the items left, more fuel changes nothing: the messages end by
themselves. -/
theorem messages_stable (k : Nat) : ∀ (fuel : Nat) (l : Limiter D), l.startIndex ≤ l.msg.length →
    l.msg.length - l.startIndex < fuel → messages limit (fuel + k) l = messages limit fuel l
  | 0, _, _, hf => absurd hf (Nat.not_lt_zero _)
  | fuel + 1, l, hl, hf => by
    rw [show fuel + 1 + k = fuel + k + 1 by omega]
    rcases nextLargestMsg_cases limit l hl with ⟨-, hnext⟩ | ⟨-, -, -, -, hnext⟩ | ⟨chunk, hchunk, hnext⟩
    · simp only [messages, hnext]
    · simp only [messages, hnext]
    · have hc : chunk.length ≤ (l.msg.drop l.startIndex).length := hchunk.leading.length_le
      have hpos : 0 < chunk.length := List.length_pos_of_ne_nil hchunk.ne_nil
      rw [List.length_drop] at hc
      simp only [messages, hnext]
      rw [messages_stable k fuel { l with startIndex := l.startIndex + chunk.length }
        (by simp only; omega) (by simp only; omega)]

variable {limit}

/-- The chunks are consecutive: together they are the items up to where the messages stopped,
the end if they returned, and an item that alone does not fit if they failed. -/
theorem Chunks.flatten {items : List D} {cs : List (List D)} {r : Except Error Unit}
    (h : Chunks limit items cs r) : ∃ rest, items = cs.flatten ++ rest ∧
      ((r = .ok () ∧ rest = []) ∨
        ∃ d ds, rest = d :: ds ∧ limit < encodedSize [d] ∧ r = .error .itemTooBig) := by
  induction h with
  | done => exact ⟨[], rfl, Or.inl ⟨rfl, rfl⟩⟩
  | tooBig hbig => exact ⟨_, rfl, Or.inr ⟨_, _, rfl, hbig, rfl⟩⟩
  | @chunk items chunk cs r hchunk _ ih =>
    obtain ⟨rest, hrest, hend⟩ := ih
    refine ⟨rest, ?_, hend⟩
    calc items = chunk ++ items.drop chunk.length :=
          (List.prefix_iff_eq_append.mp hchunk.leading).symm
      _ = (chunk :: cs).flatten ++ rest := by rw [hrest, List.flatten_cons, List.append_assoc]

theorem Chunks.mem {items : List D} {cs : List (List D)} {r : Except Error Unit}
    (h : Chunks limit items cs r) : ∀ c ∈ cs, c ≠ [] ∧ encodedSize c ≤ limit := by
  induction h with
  | done => exact fun _ hc => absurd hc List.not_mem_nil
  | tooBig _ => exact fun _ hc => absurd hc List.not_mem_nil
  | chunk hchunk _ ih =>
    intro c hc
    rcases List.mem_cons.mp hc with rfl | hc
    · exact ⟨hchunk.ne_nil, hchunk.fits⟩
    · exact ih c hc

/-- For every slice and every limit, the successive results of `next_largest_msg` end by
themselves and cut the slice into largest chunks one after the other: each is not empty,
fits the limit, and is all that was left or would not fit with the next item; together
they are the items up to where the results stopped, which is the end exactly when they end
with `Ok(None)`, and an item that alone does not fit exactly when they end with
`ItemTooBig`. -/
theorem messages_largest (limit : Nat) (items : List D) :
    (∀ k, messages limit (items.length + 1 + k) (new items) =
      messages limit (items.length + 1) (new items)) ∧
    Chunks limit items (messages limit (items.length + 1) (new items)).1
      (messages limit (items.length + 1) (new items)).2 ∧
    (∀ c ∈ (messages limit (items.length + 1) (new items)).1, c ≠ [] ∧ encodedSize c ≤ limit) ∧
    ∃ rest, items = (messages limit (items.length + 1) (new items)).1.flatten ++ rest ∧
      (((messages limit (items.length + 1) (new items)).2 = .ok () ∧ rest = []) ∨
        ∃ d ds, rest = d :: ds ∧ limit < encodedSize [d] ∧
          (messages limit (items.length + 1) (new items)).2 = .error .itemTooBig) := by
  have hstart : (new items).startIndex ≤ (new items).msg.length := Nat.zero_le _
  have hfuel : (new items).msg.length - (new items).startIndex < items.length + 1 :=
    Nat.lt_succ_of_le (Nat.sub_le _ _)
  have hchunks := messages_chunks limit (items.length + 1) (new items) hstart hfuel
  rw [show (new items).msg.drop (new items).startIndex = items from rfl] at hchunks
  exact ⟨fun k => messages_stable limit k _ _ hstart hfuel, hchunks, hchunks.mem,
    hchunks.flatten⟩

end Limiter

/-- An item that encodes to the given number of bytes, as in the tests of the limiter. -/
structure EncodeToSize where
  size : Nat
deriving DecidableEq, Repr

instance : Encode EncodeToSize where
  encode d := List.replicate d.size 0

/-- The test `iterates_correctly_2`: sizes 5, 3, 2, 5, 5, 6 and 7 under a limit of 10. -/
example : ((Limiter.messages 10 8 (Limiter.new
    [⟨5⟩, ⟨3⟩, ⟨2⟩, ⟨5⟩, ⟨5⟩, ⟨6⟩, ⟨7⟩])).1.map (·.map EncodeToSize.size)) =
      [[5, 3], [2, 5], [5], [6], [7]] := by
  decide

end Selendra.Sync
