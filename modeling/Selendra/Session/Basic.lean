import Mathlib

/-! # Session boundaries

`SessionBoundaryInfo` of `session.rs`: sessions are consecutive runs of `session_period`
blocks. `session_id_from_block_num` divides by the period, and panics on a zero one; the node
builds the info with the runtime's period, which is positive, and the structure carries that.
The code computes in `u32`; the numbers here are `Nat`, which agrees with it as long as no
block number or session boundary reaches `2 ^ 32`. -/

namespace Selendra

structure SessionId where
  n : Nat
deriving DecidableEq, Repr

structure SessionPeriod where
  n : Nat
deriving DecidableEq, Repr

/-- The numbers of the first and of the last block of one session. -/
structure SessionBoundaries where
  firstBlock : Nat
  lastBlock : Nat
deriving DecidableEq, Repr

structure SessionBoundaryInfo where
  sessionPeriod : SessionPeriod
  sessionPeriod_pos : 0 < sessionPeriod.n

namespace SessionBoundaryInfo

/-- The session the block belongs to. -/
def sessionIdFromBlockNum (info : SessionBoundaryInfo) (n : Nat) : SessionId :=
  ⟨n / info.sessionPeriod.n⟩

/-- The number of the last block of the session. -/
def lastBlockOfSession (info : SessionBoundaryInfo) (sessionId : SessionId) : Nat :=
  (sessionId.n + 1) * info.sessionPeriod.n - 1

/-- The number of the first block of the session. -/
def firstBlockOfSession (info : SessionBoundaryInfo) (sessionId : SessionId) : Nat :=
  sessionId.n * info.sessionPeriod.n

def boundariesForSession (info : SessionBoundaryInfo) (sessionId : SessionId) :
    SessionBoundaries :=
  ⟨info.firstBlockOfSession sessionId, info.lastBlockOfSession sessionId⟩

variable {info : SessionBoundaryInfo} {sessionId : SessionId} {n : Nat}

/-- A block's session is at most its number. -/
theorem sessionIdFromBlockNum_le (n : Nat) : (info.sessionIdFromBlockNum n).n ≤ n :=
  Nat.div_le_self n _

/-- A block of a session at or above another starts no earlier than that session. -/
theorem firstBlockOfSession_le (h : sessionId.n ≤ (info.sessionIdFromBlockNum n).n) :
    info.firstBlockOfSession sessionId ≤ n :=
  calc sessionId.n * info.sessionPeriod.n
      ≤ n / info.sessionPeriod.n * info.sessionPeriod.n := Nat.mul_le_mul_right _ h
    _ ≤ n := Nat.div_mul_le_self n _

/-- A block before the first block of a session belongs to an earlier session. -/
theorem sessionIdFromBlockNum_lt (h : n < info.firstBlockOfSession sessionId) :
    (info.sessionIdFromBlockNum n).n < sessionId.n :=
  Nat.div_lt_of_lt_mul (by rw [Nat.mul_comm]; exact h)

/-- The last block of a block's session is at or above it. -/
theorem le_lastBlockOfSession : n ≤ info.lastBlockOfSession (info.sessionIdFromBlockNum n) := by
  have h : n < info.sessionPeriod.n * (n / info.sessionPeriod.n + 1) :=
    Nat.lt_mul_div_succ n info.sessionPeriod_pos
  simp only [lastBlockOfSession, sessionIdFromBlockNum]
  rw [Nat.mul_comm]
  omega

/-- The last block of a session belongs to that session. -/
theorem sessionIdFromBlockNum_lastBlockOfSession (sessionId : SessionId) :
    info.sessionIdFromBlockNum (info.lastBlockOfSession sessionId) = sessionId := by
  have hp := info.sessionPeriod_pos
  have hlo : sessionId.n * info.sessionPeriod.n ≤ info.lastBlockOfSession sessionId := by
    simp only [lastBlockOfSession, Nat.succ_mul]
    omega
  have hhi : info.lastBlockOfSession sessionId < (sessionId.n + 1) * info.sessionPeriod.n := by
    simp only [lastBlockOfSession, Nat.succ_mul]
    omega
  show (⟨info.lastBlockOfSession sessionId / info.sessionPeriod.n⟩ : SessionId) = sessionId
  rw [Nat.div_eq_of_lt_le hlo hhi]

/-- The last block of a session is below every block of a later session. -/
theorem lastBlockOfSession_lt (h : sessionId.n < (info.sessionIdFromBlockNum n).n) :
    info.lastBlockOfSession sessionId < n := by
  have hfirst : info.firstBlockOfSession ⟨sessionId.n + 1⟩ ≤ n := firstBlockOfSession_le h
  have hpos : 0 < (sessionId.n + 1) * info.sessionPeriod.n :=
    Nat.mul_pos (Nat.succ_pos _) info.sessionPeriod_pos
  simp only [firstBlockOfSession] at hfirst
  simp only [lastBlockOfSession]
  omega

end SessionBoundaryInfo

end Selendra
