import Selendra.Codec.Decode
import Selendra.Control.Talk

/-! # Sending and receiving data over a stream

`send_data` and `receive_data` of `clique/src/io.rs`. A piece of data goes as a frame: the
length of its SCALE encoding in four little-endian bytes, then the encoding, and no frame
carries more than `MAX_DATA_SIZE` bytes. Writes do not fail here: the `write_all` errors of a
peer that went away are left out, and a read past what the peer sent before dropping its end
fails with `ConnectionClosed`.

A frame received is a frame sent: `receive_data` reads back what `send_data` wrote, whatever
follows it (`receiveData_frame`), and what it accepts from any input is such a frame
(`receiveData_sound`). Data too long for a frame is never written (`sendData_of_lt`). -/

namespace Selendra.Clique

open Scale Talk

/-- We allow sending up to 16MiB. -/
def MAX_DATA_SIZE : Nat := 16 * 1024 * 1024

/-- `u32::MAX`. -/
def U32_MAX : Nat := 2 ^ 32 - 1

/-- A general error when sending or receiving data; the `IoError` of a closed connection is
left out. -/
inductive Error where
  | connectionClosed
  | dataTooLong (length : Nat)
deriving DecidableEq, Repr

/-- An error when sending data. -/
structure SendError where
  error : Error
deriving DecidableEq, Repr

/-- An error when receiving data. -/
inductive ReceiveError where
  | error (e : Error)
  | dataCorrupted
deriving DecidableEq, Repr

variable {D β : Type}

/-- Sends some data using the stream. -/
def sendData (c : Codec D) (data : D) : Talk (Except SendError Unit) :=
  let encoded := c.encode data
  -- `u32::try_from(encoded.len())`
  if U32_MAX < encoded.length then pure (.error ⟨.dataTooLong U32_MAX⟩)
  else
    let len := encoded.length
    if MAX_DATA_SIZE < len then pure (.error ⟨.dataTooLong len⟩)
    else do
      writeAll (leBytes 4 len)
      writeAll encoded
      pure (.ok ())

/-- Attempts to receive some data using the stream. -/
def receiveData (c : Codec D) : Talk (Except ReceiveError D) := do
  match ← readExact 4 with
  | none => pure (.error (.error .connectionClosed))
  | some buf =>
    let len := leValue buf
    if MAX_DATA_SIZE < len then pure (.error (.error (.dataTooLong len)))
    else
      match ← readExact len with
      | none => pure (.error (.error .connectionClosed))
      | some buf =>
        match decodeAll c.decode buf with
        | none => pure (.error .dataCorrupted)
        | some data => pure (.ok data)

/-- The functions of clique on a stream take it by value: they drop it when they fail, and
hand it back when they succeed. -/
def dropsOnError {ε α : Type} (r : Except ε α) : Bool := !r.toBool

/-- What `send_data` writes for a piece of data. -/
def frame (c : Codec D) (data : D) : List UInt8 :=
  leBytes 4 (c.encode data).length ++ c.encode data

/-! ## Sending -/

section Send

variable (c : Codec D) (data : D)

theorem sendData_of_le (h : (c.encode data).length ≤ MAX_DATA_SIZE) :
    sendData c data =
      write (leBytes 4 (c.encode data).length) (write (c.encode data) (done (.ok ()))) := by
  have hmax : ¬ U32_MAX < (c.encode data).length := by
    simp only [U32_MAX, MAX_DATA_SIZE] at h ⊢
    omega
  rw [sendData, if_neg hmax, if_neg (Nat.not_lt.mpr h)]
  rfl

/-- Data too long for a frame is not written: sending fails with its length, or `u32::MAX`
for a length a `u32` cannot hold. -/
theorem sendData_of_lt (h : MAX_DATA_SIZE < (c.encode data).length) :
    sendData c data = done (.error ⟨.dataTooLong (min U32_MAX (c.encode data).length)⟩) := by
  unfold sendData
  dsimp only
  split
  · rename_i hmax
    rw [Nat.min_eq_left hmax.le]
    rfl
  · rename_i hmax
    rw [Nat.min_eq_right (Nat.le_of_not_lt hmax)]
    rfl

theorem advance_sendData_bind (h : (c.encode data).length ≤ MAX_DATA_SIZE)
    (k : Except SendError Unit → Talk β) (input : List UInt8) :
    ((sendData c data).bind k).advance input =
      (((k (.ok ())).advance input).1, frame c data ++ ((k (.ok ())).advance input).2.1,
        ((k (.ok ())).advance input).2.2) := by
  rw [sendData_of_le c data h]
  simp only [write_bind, done_bind, advance_write, frame, List.append_assoc]

end Send

/-! ## Receiving -/

section Receive

variable (c : Codec D)

theorem length_encode_lt {data : D} (h : (c.encode data).length ≤ MAX_DATA_SIZE) :
    (c.encode data).length < 256 ^ 4 := by
  simp only [MAX_DATA_SIZE] at h
  omega

/-- A frame is read back, whatever follows it. -/
theorem advance_receiveData_frame {data : D} (hv : c.valid data)
    (h : (c.encode data).length ≤ MAX_DATA_SIZE) (k : Except ReceiveError D → Talk β)
    (rest : List UInt8) :
    ((receiveData c).bind k).advance (frame c data ++ rest) = (k (.ok data)).advance rest := by
  have hlen : leValue (leBytes 4 (c.encode data).length) = (c.encode data).length :=
    leValue_leBytes 4 (length_encode_lt c h)
  simp only [receiveData, frame, bind_eq, readExact_bind, read_bind, List.append_assoc]
  rw [advance_read_append (length_leBytes 4 _)]
  simp only [hlen, if_neg (Nat.not_lt.mpr h), read_bind]
  rw [advance_read_append rfl]
  simp only [c.decodeAll_encode hv, pure_eq, done_bind]

theorem waits_receiveData_bind (k : Except ReceiveError D → Talk β) :
    ((receiveData c).bind k).waits = some 4 := rfl

theorem resume_receiveData_bind (k : Except ReceiveError D → Talk β) :
    ((receiveData c).bind k).resume none = k (.error (.error .connectionClosed)) := rfl

/-- Nothing is read before the four bytes of a length are there. -/
theorem advance_receiveData_bind_of_lt (k : Except ReceiveError D → Talk β) {input : List UInt8}
    (h : input.length < 4) :
    ((receiveData c).bind k).advance input = ((receiveData c).bind k, [], input) :=
  advance_read_of_lt h

theorem receiveData_frame {data : D} (hv : c.valid data)
    (h : (c.encode data).length ≤ MAX_DATA_SIZE) (rest : List UInt8) :
    (receiveData c).runOn (frame c data ++ rest) = (.ok data, [], rest) := by
  have hadv := advance_receiveData_frame c hv h done rest
  rw [bind_done, advance_done] at hadv
  exact runOn_of_advance hadv

/-- Whatever `receive_data` accepts is a frame of data its codec is meant for, at the front of
the input, and it writes nothing. -/
theorem receiveData_sound {input rest written : List UInt8} {data : D}
    (h : (receiveData c).runOn input = (.ok data, written, rest)) :
    c.valid data ∧ (c.encode data).length ≤ MAX_DATA_SIZE ∧ input = frame c data ++ rest ∧
      written = [] := by
  simp only [receiveData, bind_eq, readExact_bind] at h
  rcases runOn_read_cases h with ⟨buf, mid, hbuf, rfl, hlen⟩ | ⟨-, hshort⟩
  · -- the four bytes of the length are there; the matches below are on the reads' results
    split at hlen
    · cases hlen
    · rename_i buf' hsome
      cases hsome
      split at hlen
      · cases hlen
      · rename_i hle
        rcases runOn_read_cases hlen with ⟨body, rest', hbody, rfl, hdata⟩ | ⟨-, hshort⟩
        · split at hdata
          · cases hdata
          · rename_i body' hsome
            cases hsome
            split at hdata
            · cases hdata
            · rename_i data' hdec
              simp only [pure_eq, runOn_done, Prod.mk.injEq, Except.ok.injEq] at hdata
              obtain ⟨rfl, rfl, rfl⟩ := hdata
              obtain ⟨hv, rfl⟩ := c.decodeAll_sound hdec
              refine ⟨hv, by omega, ?_, rfl⟩
              rw [frame, hbody, ← hbuf, leBytes_leValue, List.append_assoc]
        · cases hshort
  · cases hshort

/-- `receive_data` returns data exactly when the input starts with the frame of data its
codec is meant for, and then leaves what follows the frame. -/
theorem receiveData_eq_ok_iff {input rest : List UInt8} {data : D} :
    (receiveData c).runOn input = (.ok data, [], rest) ↔
      c.valid data ∧ (c.encode data).length ≤ MAX_DATA_SIZE ∧ input = frame c data ++ rest := by
  constructor
  · intro h
    obtain ⟨hv, hlen, hinput, -⟩ := receiveData_sound c h
    exact ⟨hv, hlen, hinput⟩
  · rintro ⟨hv, hlen, rfl⟩
    exact receiveData_frame c hv hlen rest

end Receive

end Selendra.Clique
