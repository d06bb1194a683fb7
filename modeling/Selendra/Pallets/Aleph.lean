import Mathlib

/-! # The aleph pallet: what the runtime reports about the next session

`pallets/aleph`, with the part of the session pallet's `rotate_session` that drives it. A
rotation moves `CurrentIndex` on and calls `start_session`, which applies a scheduled finality
version change that has reached its session; committee management then names the finality
committee of the session after next (`on_next_session_finality_committee`), and
`on_new_session` ends the rotation: the queued emergency finalizer becomes the current one, the
next one becomes the queued one, and, if the validator set changed, the next authorities become
the current ones and the keys of the finality committee among the queued validators become the
next ones. Root calls set the next emergency finalizer and schedule version changes at least
two sessions ahead.

What the runtime API reports about the next session is what then holds. No call within a
session changes a report (`SameSession.reports`); at a rotation with a changed validator set,
the new session's authority data and finality version are what `next_session_authority_data`
and `next_session_finality_version` reported (`rotateSession_authorityData`,
`rotateSession_finalityVersion`), given that no emergency finalizer is current before one is
queued (`Inv`); and an emergency finalizer set in session `N` is the current one from session
`N + 2` until another is set (`Pipeline.run`).

Not modelled: events and logs, and the default of `NextAuthorities` when it was never written
(the genesis session stores it, as the session pallet's genesis set is not empty). The session
pallet's `CurrentIndex` is a field of the state; session indices and versions are `Nat`. -/

namespace Selendra.Aleph

structure VersionChange where
  versionIncoming : Nat
  session : Nat
deriving DecidableEq, Repr

/-- All the data needed to verify finalization justifications of a session. -/
structure SessionAuthorityData (AuthId : Type) where
  authorities : List AuthId
  emergencyFinalizer : Option AuthId
deriving DecidableEq, Repr

inductive ApiError
  | decodeKey
deriving DecidableEq, Repr

/-- The pallet's storage, and the session pallet's `CurrentIndex` that it reads. -/
structure Pallet (AuthId Acc : Type) where
  authorities : List AuthId
  nextAuthorities : List AuthId
  nextFinalityCommittee : List Acc
  emergencyFinalizer : Option AuthId
  queuedEmergencyFinalizer : Option AuthId
  nextEmergencyFinalizer : Option AuthId
  finalityVersion : Nat
  finalityScheduledVersionChange : Option VersionChange
  currentSession : Nat
deriving DecidableEq, Repr

namespace Pallet

variable {AuthId Acc : Type}

/-- `initialize_authorities`: authorities already there are kept. -/
def initializeAuthorities (s : Pallet AuthId Acc) (authorities nextAuthorities : List AuthId) :
    Pallet AuthId Acc :=
  let s := if authorities.isEmpty then s
    -- "Authorities are already initialized!"
    else if !s.authorities.isEmpty then s
    else { s with authorities := authorities }
  if nextAuthorities.isEmpty then s else { s with nextAuthorities := nextAuthorities }

/-- The first validator set is also the next session's. -/
def onGenesisSession (s : Pallet AuthId Acc) (validators : List (Acc × AuthId)) :
    Pallet AuthId Acc :=
  s.initializeAuthorities (validators.map Prod.snd) (validators.map Prod.snd)

/-- The storage after the genesis build and the genesis session. -/
def genesis (finalityVersion : Nat) (validators : List (Acc × AuthId)) : Pallet AuthId Acc :=
  (⟨[], [], [], none, none, none, finalityVersion, none, 0⟩ : Pallet AuthId Acc).onGenesisSession
    validators

/-- The keys of the committee's accounts; an account's key is taken out of the map at its first
use, and an account without a key is left out. -/
def takeAuthorities [DecidableEq Acc] :
    List Acc → AList (fun _ : Acc => AuthId) → List AuthId
  | [], _ => []
  | accountId :: accounts, accountToAuthority =>
    match accountToAuthority.lookup accountId with
    | some authority => authority :: takeAuthorities accounts (accountToAuthority.erase accountId)
    | none => takeAuthorities accounts accountToAuthority

def getAuthoritiesForNextSession [DecidableEq Acc] (s : Pallet AuthId Acc)
    (nextAuthorities : List (Acc × AuthId)) : List AuthId :=
  let accountToAuthority := nextAuthorities.foldl
    (fun (m : AList fun _ : Acc => AuthId) p => m.insert p.1 p.2) ∅
  takeAuthorities s.nextFinalityCommittee accountToAuthority

def updateAuthorities [DecidableEq Acc] (s : Pallet AuthId Acc)
    (nextAuthorities : List (Acc × AuthId)) : Pallet AuthId Acc :=
  let next := s.getAuthoritiesForNextSession nextAuthorities
  { s with authorities := s.nextAuthorities, nextAuthorities := next }

def updateEmergencyFinalizer (s : Pallet AuthId Acc) : Pallet AuthId Acc :=
  let s := match s.queuedEmergencyFinalizer with
    | some emergencyFinalizer => { s with emergencyFinalizer := some emergencyFinalizer }
    | none => s
  match s.nextEmergencyFinalizer with
  | some emergencyFinalizer => { s with queuedEmergencyFinalizer := some emergencyFinalizer }
  | none => s

/-- The root call `set_emergency_finalizer`. -/
def setEmergencyFinalizer (s : Pallet AuthId Acc) (emergencyFinalizer : AuthId) :
    Pallet AuthId Acc :=
  { s with nextEmergencyFinalizer := some emergencyFinalizer }

def doScheduleFinalityVersionChange (s : Pallet AuthId Acc) (versionChange : VersionChange) :
    Except String (Pallet AuthId Acc) :=
  let currentSession := s.currentSession
  let sessionToSchedule := versionChange.session
  if sessionToSchedule < currentSession then
    .error "Cannot schedule finality version changes for sessions in the past!"
  else if sessionToSchedule < currentSession + 2 then
    .error "Tried to schedule an finality version change less than 2 sessions in advance!"
  else .ok { s with finalityScheduledVersionChange := some versionChange }

/-- The root call `schedule_finality_version_change`; its error is `DispatchError::Other`. -/
def scheduleFinalityVersionChange (s : Pallet AuthId Acc) (versionIncoming session : Nat) :
    Except String (Pallet AuthId Acc) :=
  s.doScheduleFinalityVersionChange ⟨versionIncoming, session⟩

def nextSessionFinalityVersion (s : Pallet AuthId Acc) : Nat :=
  let nextSession := s.currentSession + 1
  match s.finalityScheduledVersionChange with
  | some versionChange =>
    if nextSession = versionChange.session then versionChange.versionIncoming
    else s.finalityVersion
  | none => s.finalityVersion

/-- A scheduled change that has reached the current session becomes the version. -/
def updateVersionChangeHistory (s : Pallet AuthId Acc) : Pallet AuthId Acc :=
  match s.finalityScheduledVersionChange with
  | some scheduled =>
    if scheduled.session = s.currentSession then
      { s with finalityVersion := scheduled.versionIncoming, finalityScheduledVersionChange := none }
    else s
  | none => s

/-- `start_session` of the pallet's session manager, after the inner one. -/
def startSession (s : Pallet AuthId Acc) : Pallet AuthId Acc :=
  s.updateVersionChangeHistory

def onNextSessionFinalityCommittee (s : Pallet AuthId Acc) (committee : List Acc) :
    Pallet AuthId Acc :=
  { s with nextFinalityCommittee := committee }

def onNewSession [DecidableEq Acc] (s : Pallet AuthId Acc) (changed : Bool)
    (queuedValidators : List (Acc × AuthId)) : Pallet AuthId Acc :=
  let s := s.updateEmergencyFinalizer
  if changed then s.updateAuthorities queuedValidators else s

/-- `rotate_session` of the session pallet as it drives this pallet: the session index moves
on, the new session starts, committee management may name the finality committee of the
session after next, and the session handlers learn the queued validators. -/
def rotateSession [DecidableEq Acc] (s : Pallet AuthId Acc) (finalityCommittee : Option (List Acc))
    (changed : Bool) (queuedValidators : List (Acc × AuthId)) : Pallet AuthId Acc :=
  let s := { s with currentSession := s.currentSession + 1 }
  let s := s.startSession
  let s := match finalityCommittee with
    | some committee => s.onNextSessionFinalityCommittee committee
    | none => s
  s.onNewSession changed queuedValidators

/-! ## The runtime API -/

def authorityData (s : Pallet AuthId Acc) : SessionAuthorityData AuthId :=
  ⟨s.authorities, s.emergencyFinalizer⟩

def nextSessionAuthorities (s : Pallet AuthId Acc) : Except ApiError (List AuthId) :=
  if s.nextAuthorities.isEmpty then .error .decodeKey else .ok s.nextAuthorities

def nextSessionAuthorityData (s : Pallet AuthId Acc) :
    Except ApiError (SessionAuthorityData AuthId) := do
  let authorities ← s.nextSessionAuthorities
  pure ⟨authorities, s.queuedEmergencyFinalizer⟩

theorem nextSessionAuthorityData_eq_ok {s : Pallet AuthId Acc} {d : SessionAuthorityData AuthId}
    (h : s.nextSessionAuthorityData = .ok d) :
    d = ⟨s.nextAuthorities, s.queuedEmergencyFinalizer⟩ := by
  unfold nextSessionAuthorityData nextSessionAuthorities at h
  split_ifs at h
  · simp only [bind, Except.bind, reduceCtorEq] at h
  · simp only [bind, Except.bind, pure, Except.pure, Except.ok.injEq] at h
    exact h.symm

/-! ## Runs -/

/-- The calls a run is made of: the root calls, and session rotations. -/
inductive AlephCall (AuthId Acc : Type)
  | setEmergencyFinalizer (emergencyFinalizer : AuthId)
  | scheduleFinalityVersionChange (versionIncoming session : Nat)
  | rotateSession (finalityCommittee : Option (List Acc)) (changed : Bool)
      (queuedValidators : List (Acc × AuthId))

def AlephCall.withinSession : AlephCall AuthId Acc → Bool
  | .rotateSession .. => false
  | _ => true

def AlephCall.setsEmergencyFinalizer : AlephCall AuthId Acc → Bool
  | .setEmergencyFinalizer _ => true
  | _ => false

variable [DecidableEq Acc]

/-- The storage after a call; a refused call leaves it as it was. -/
def step (s : Pallet AuthId Acc) : AlephCall AuthId Acc → Pallet AuthId Acc
  | .setEmergencyFinalizer emergencyFinalizer => s.setEmergencyFinalizer emergencyFinalizer
  | .scheduleFinalityVersionChange versionIncoming session =>
    match s.scheduleFinalityVersionChange versionIncoming session with
    | .ok s' => s'
    | .error _ => s
  | .rotateSession finalityCommittee changed queuedValidators =>
    s.rotateSession finalityCommittee changed queuedValidators

def run : Pallet AuthId Acc → List (AlephCall AuthId Acc) → Pallet AuthId Acc
  | s, [] => s
  | s, call :: calls => run (s.step call) calls

/-! ## Within a session -/

/-- Two states of one session: all that the reports and the rotation read of the authorities,
the emergency finalizers but the next one, and the finality version are the same. -/
structure SameSession (s s' : Pallet AuthId Acc) : Prop where
  authorities : s'.authorities = s.authorities
  nextAuthorities : s'.nextAuthorities = s.nextAuthorities
  emergencyFinalizer : s'.emergencyFinalizer = s.emergencyFinalizer
  queuedEmergencyFinalizer : s'.queuedEmergencyFinalizer = s.queuedEmergencyFinalizer
  finalityVersion : s'.finalityVersion = s.finalityVersion
  currentSession : s'.currentSession = s.currentSession

omit [DecidableEq Acc] in
theorem SameSession.refl (s : Pallet AuthId Acc) : SameSession s s :=
  ⟨rfl, rfl, rfl, rfl, rfl, rfl⟩

omit [DecidableEq Acc] in
theorem SameSession.trans {s₁ s₂ s₃ : Pallet AuthId Acc} (h₁ : SameSession s₁ s₂)
    (h₂ : SameSession s₂ s₃) : SameSession s₁ s₃ :=
  ⟨h₂.1.trans h₁.1, h₂.2.trans h₁.2, h₂.3.trans h₁.3, h₂.4.trans h₁.4, h₂.5.trans h₁.5,
    h₂.6.trans h₁.6⟩

omit [DecidableEq Acc] in
/-- Nothing the runtime reports differs between two states of one session. -/
theorem SameSession.reports {s s' : Pallet AuthId Acc} (h : SameSession s s') :
    s'.nextSessionAuthorityData = s.nextSessionAuthorityData ∧
      s'.authorityData = s.authorityData ∧ s'.finalityVersion = s.finalityVersion := by
  refine ⟨?_, ?_, h.finalityVersion⟩
  · simp only [nextSessionAuthorityData, nextSessionAuthorities, h.nextAuthorities,
      h.queuedEmergencyFinalizer]
  · simp only [authorityData, h.authorities, h.emergencyFinalizer]

omit [DecidableEq Acc] in
theorem sameSession_scheduleFinalityVersionChange {s s' : Pallet AuthId Acc}
    {versionIncoming session : Nat}
    (h : s.scheduleFinalityVersionChange versionIncoming session = .ok s') :
    SameSession s s' ∧ s'.nextEmergencyFinalizer = s.nextEmergencyFinalizer := by
  unfold scheduleFinalityVersionChange doScheduleFinalityVersionChange at h
  dsimp only at h
  split_ifs at h
  cases h
  exact ⟨⟨rfl, rfl, rfl, rfl, rfl, rfl⟩, rfl⟩

/-- One call within a session keeps it the same session; only setting an emergency finalizer
changes the next one. -/
theorem sameSession_step {s : Pallet AuthId Acc} (call : AlephCall AuthId Acc)
    (h : call.withinSession = true) :
    SameSession s (s.step call) ∧
      (call.setsEmergencyFinalizer = false →
        (s.step call).nextEmergencyFinalizer = s.nextEmergencyFinalizer) := by
  cases call with
  | setEmergencyFinalizer emergencyFinalizer =>
    exact ⟨⟨rfl, rfl, rfl, rfl, rfl, rfl⟩, fun hset => by simp [AlephCall.setsEmergencyFinalizer] at hset⟩
  | scheduleFinalityVersionChange versionIncoming session =>
    simp only [step]
    split
    · next s' hs =>
      obtain ⟨hsame, hnext⟩ := sameSession_scheduleFinalityVersionChange hs
      exact ⟨hsame, fun _ => hnext⟩
    · exact ⟨SameSession.refl s, fun _ => rfl⟩
  | rotateSession finalityCommittee changed queuedValidators =>
    simp [AlephCall.withinSession] at h

theorem sameSession_run {s : Pallet AuthId Acc} {calls : List (AlephCall AuthId Acc)}
    (h : ∀ call ∈ calls, call.withinSession = true) : SameSession s (s.run calls) := by
  induction calls generalizing s with
  | nil => exact SameSession.refl s
  | cons call calls ih =>
    have hcall := sameSession_step (s := s) call (h call List.mem_cons_self)
    exact hcall.1.trans (ih (fun c hc => h c (List.mem_cons_of_mem call hc)))

/-! ## Rotations -/

section Rotation

variable (s : Pallet AuthId Acc) (finalityCommittee : Option (List Acc)) (changed : Bool)
  (queuedValidators : List (Acc × AuthId))

omit [DecidableEq Acc] in
theorem updateEmergencyFinalizer_fields :
    s.updateEmergencyFinalizer.emergencyFinalizer =
        s.queuedEmergencyFinalizer.or s.emergencyFinalizer ∧
      s.updateEmergencyFinalizer.queuedEmergencyFinalizer =
        s.nextEmergencyFinalizer.or s.queuedEmergencyFinalizer ∧
      s.updateEmergencyFinalizer.nextEmergencyFinalizer = s.nextEmergencyFinalizer ∧
      s.updateEmergencyFinalizer.nextAuthorities = s.nextAuthorities ∧
      s.updateEmergencyFinalizer.currentSession = s.currentSession ∧
      s.updateEmergencyFinalizer.finalityVersion = s.finalityVersion := by
  obtain ⟨a, na, nfc, e, q, n, fv, sch, cs⟩ := s
  cases q <;> cases n <;> exact ⟨rfl, rfl, rfl, rfl, rfl, rfl⟩

theorem onNewSession_fields :
    (s.onNewSession changed queuedValidators).emergencyFinalizer =
        s.queuedEmergencyFinalizer.or s.emergencyFinalizer ∧
      (s.onNewSession changed queuedValidators).queuedEmergencyFinalizer =
        s.nextEmergencyFinalizer.or s.queuedEmergencyFinalizer ∧
      (s.onNewSession changed queuedValidators).nextEmergencyFinalizer = s.nextEmergencyFinalizer ∧
      (s.onNewSession changed queuedValidators).currentSession = s.currentSession ∧
      (s.onNewSession changed queuedValidators).finalityVersion = s.finalityVersion := by
  obtain ⟨he, hq, hn, -, hc, hv⟩ := updateEmergencyFinalizer_fields s
  -- `update_authorities` writes the authorities only
  cases changed
  · exact ⟨he, hq, hn, hc, hv⟩
  · exact ⟨he, hq, hn, hc, hv⟩

theorem onNewSession_authorities :
    (s.onNewSession true queuedValidators).authorities = s.nextAuthorities :=
  (updateEmergencyFinalizer_fields s).2.2.2.1

omit [DecidableEq Acc] in
/-- `start_session` of the session after `s`: it writes the finality version and the schedule
only, and the version it writes is the one reported for that session. -/
theorem startSession_next :
    ({ s with currentSession := s.currentSession + 1 }).startSession.emergencyFinalizer =
        s.emergencyFinalizer ∧
      ({ s with currentSession := s.currentSession + 1 }).startSession.queuedEmergencyFinalizer =
        s.queuedEmergencyFinalizer ∧
      ({ s with currentSession := s.currentSession + 1 }).startSession.nextEmergencyFinalizer =
        s.nextEmergencyFinalizer ∧
      ({ s with currentSession := s.currentSession + 1 }).startSession.nextAuthorities =
        s.nextAuthorities ∧
      ({ s with currentSession := s.currentSession + 1 }).startSession.currentSession =
        s.currentSession + 1 ∧
      ({ s with currentSession := s.currentSession + 1 }).startSession.finalityVersion =
        s.nextSessionFinalityVersion := by
  unfold startSession updateVersionChangeHistory nextSessionFinalityVersion
  dsimp only
  cases hv : s.finalityScheduledVersionChange with
  | none => exact ⟨rfl, rfl, rfl, rfl, rfl, rfl⟩
  | some versionChange =>
    dsimp only
    -- the change applied at the start of the session is the one reported for it
    by_cases hsession : versionChange.session = s.currentSession + 1
    · rw [if_pos hsession, if_pos hsession.symm]
      exact ⟨rfl, rfl, rfl, rfl, rfl, rfl⟩
    · rw [if_neg hsession, if_neg (Ne.symm hsession)]
      exact ⟨rfl, rfl, rfl, rfl, rfl, rfl⟩

/-- A rotation is `on_new_session` on the started session, with the finality committee named;
that state keeps the emergency finalizers and the next authorities, and holds the reported
finality version. -/
theorem rotateSession_eq_onNewSession :
    ∃ t : Pallet AuthId Acc,
      s.rotateSession finalityCommittee changed queuedValidators =
        t.onNewSession changed queuedValidators ∧
      t.emergencyFinalizer = s.emergencyFinalizer ∧
      t.queuedEmergencyFinalizer = s.queuedEmergencyFinalizer ∧
      t.nextEmergencyFinalizer = s.nextEmergencyFinalizer ∧
      t.nextAuthorities = s.nextAuthorities ∧
      t.currentSession = s.currentSession + 1 ∧
      t.finalityVersion = s.nextSessionFinalityVersion := by
  obtain ⟨he, hq, hn, ha, hc, hv⟩ := startSession_next s
  cases finalityCommittee with
  | none => exact ⟨_, rfl, he, hq, hn, ha, hc, hv⟩
  | some committee => exact ⟨_, rfl, he, hq, hn, ha, hc, hv⟩

/-- What a rotation leaves of the emergency finalizers and the session index, whether or not
the validator set changed. -/
theorem rotateSession_fields :
    (s.rotateSession finalityCommittee changed queuedValidators).emergencyFinalizer =
        s.queuedEmergencyFinalizer.or s.emergencyFinalizer ∧
      (s.rotateSession finalityCommittee changed queuedValidators).queuedEmergencyFinalizer =
        s.nextEmergencyFinalizer.or s.queuedEmergencyFinalizer ∧
      (s.rotateSession finalityCommittee changed queuedValidators).nextEmergencyFinalizer =
        s.nextEmergencyFinalizer ∧
      (s.rotateSession finalityCommittee changed queuedValidators).currentSession =
        s.currentSession + 1 := by
  obtain ⟨t, heq, he, hq, hn, -, hc, -⟩ := rotateSession_eq_onNewSession s finalityCommittee changed queuedValidators
  obtain ⟨he', hq', hn', hc', -⟩ := onNewSession_fields t changed queuedValidators
  rw [heq, he', hq', hn', hc', he, hq, hn, hc]
  exact ⟨rfl, rfl, rfl, rfl⟩

/-- The finality version of the new session is the one reported for it. -/
theorem rotateSession_finalityVersion :
    (s.rotateSession finalityCommittee changed queuedValidators).finalityVersion =
      s.nextSessionFinalityVersion := by
  obtain ⟨t, heq, -, -, -, -, -, hv⟩ := rotateSession_eq_onNewSession s finalityCommittee changed queuedValidators
  rw [heq, (onNewSession_fields t changed queuedValidators).2.2.2.2, hv]

/-- With a changed validator set, the next authorities become the current ones. -/
theorem rotateSession_authorities :
    (s.rotateSession finalityCommittee true queuedValidators).authorities = s.nextAuthorities := by
  obtain ⟨t, heq, -, -, -, ha, -, -⟩ := rotateSession_eq_onNewSession s finalityCommittee true queuedValidators
  rw [heq, onNewSession_authorities, ha]

end Rotation

/-! ## The emergency finalizers -/

/-- No emergency finalizer is current before one was queued, nor queued before one was set. -/
structure Inv (s : Pallet AuthId Acc) : Prop where
  emergency : s.emergencyFinalizer.isSome → s.queuedEmergencyFinalizer.isSome
  queued : s.queuedEmergencyFinalizer.isSome → s.nextEmergencyFinalizer.isSome

omit [DecidableEq Acc] in
theorem inv_genesis (finalityVersion : Nat) (validators : List (Acc × AuthId)) :
    (genesis finalityVersion validators : Pallet AuthId Acc).Inv := by
  -- the genesis session writes only the authorities
  have hfields : (genesis finalityVersion validators : Pallet AuthId Acc).emergencyFinalizer = none ∧
      (genesis finalityVersion validators : Pallet AuthId Acc).queuedEmergencyFinalizer = none := by
    unfold genesis onGenesisSession initializeAuthorities
    dsimp only
    split_ifs <;> exact ⟨rfl, rfl⟩
  exact ⟨fun h => by simp [hfields.1] at h, fun h => by simp [hfields.2] at h⟩

theorem Inv.step {s : Pallet AuthId Acc} (h : s.Inv) (call : AlephCall AuthId Acc) :
    (s.step call).Inv := by
  cases call with
  | setEmergencyFinalizer emergencyFinalizer =>
    exact ⟨h.emergency, fun _ => rfl⟩
  | scheduleFinalityVersionChange versionIncoming session =>
    obtain ⟨hsame, hnext⟩ := sameSession_step (s := s)
      (.scheduleFinalityVersionChange versionIncoming session) rfl
    refine ⟨?_, ?_⟩
    · rw [hsame.emergencyFinalizer, hsame.queuedEmergencyFinalizer]
      exact h.emergency
    · rw [hsame.queuedEmergencyFinalizer, hnext rfl]
      exact h.queued
  | rotateSession finalityCommittee changed queuedValidators =>
    obtain ⟨he, hq, hn, -⟩ := rotateSession_fields s finalityCommittee changed queuedValidators
    refine ⟨?_, ?_⟩
    · -- a current one comes from a queued one, which has a next one behind it
      simp only [Pallet.step, he, hq]
      intro hsome
      cases hnext : s.nextEmergencyFinalizer with
      | some e => rfl
      | none =>
        cases hqueued : s.queuedEmergencyFinalizer with
        | some e => exact absurd (h.queued (by simp [hqueued])) (by simp [hnext])
        | none => simpa [hqueued] using h.emergency (by simpa [hqueued] using hsome)
    · simp only [Pallet.step, hq, hn]
      intro hsome
      cases hnext : s.nextEmergencyFinalizer with
      | some e => rfl
      | none => simpa [hnext] using h.queued (by simpa [hnext] using hsome)

theorem Inv.run {s : Pallet AuthId Acc} (h : s.Inv) (calls : List (AlephCall AuthId Acc)) :
    (s.run calls).Inv := by
  induction calls generalizing s with
  | nil => exact h
  | cons call calls ih => exact ih (h.step call)

/-- At a rotation with a changed validator set, the new session's authority data is what was
reported for it. -/
theorem rotateSession_authorityData {s : Pallet AuthId Acc} (h : s.Inv)
    (finalityCommittee : Option (List Acc)) (queuedValidators : List (Acc × AuthId)) :
    (s.rotateSession finalityCommittee true queuedValidators).authorityData =
      ⟨s.nextAuthorities, s.queuedEmergencyFinalizer⟩ := by
  have he := (rotateSession_fields s finalityCommittee true queuedValidators).1
  simp only [authorityData, rotateSession_authorities, he, SessionAuthorityData.mk.injEq,
    true_and]
  cases hq : s.queuedEmergencyFinalizer with
  | some e => rfl
  | none =>
    cases he' : s.emergencyFinalizer with
    | none => rfl
    | some e => simpa [hq] using h.emergency (by simp [he'])

/-- Where an emergency finalizer `x` stands `k` rotations after it was set, when `queued` and
`emergency` were the queued and current ones then. -/
def Pipeline (x : AuthId) (queued emergency : Option AuthId) (s : Pallet AuthId Acc) :
    Nat → Prop
  | 0 => s.nextEmergencyFinalizer = some x ∧ s.queuedEmergencyFinalizer = queued ∧
      s.emergencyFinalizer = emergency
  | 1 => s.nextEmergencyFinalizer = some x ∧ s.queuedEmergencyFinalizer = some x ∧
      s.emergencyFinalizer = queued.or emergency
  | _ + 2 => s.nextEmergencyFinalizer = some x ∧ s.queuedEmergencyFinalizer = some x ∧
      s.emergencyFinalizer = some x

section Pipeline

variable {x : AuthId} {queued emergency : Option AuthId}

theorem Pipeline.rotateSession {s : Pallet AuthId Acc} {k : Nat}
    (h : Pipeline x queued emergency s k) (finalityCommittee : Option (List Acc))
    (changed : Bool) (queuedValidators : List (Acc × AuthId)) :
    Pipeline x queued emergency (s.rotateSession finalityCommittee changed queuedValidators)
      (k + 1) := by
  obtain ⟨he, hq, hn, -⟩ := rotateSession_fields s finalityCommittee changed queuedValidators
  -- each rotation moves the finalizer one stage on
  match k, h with
  | 0, ⟨hnext, hqueued, hemergency⟩ =>
    exact ⟨hn.trans hnext, by rw [hq, hnext]; rfl, by rw [he, hqueued, hemergency]⟩
  | 1, ⟨hnext, hqueued, _⟩ =>
    exact ⟨hn.trans hnext, by rw [hq, hnext]; rfl, by rw [he, hqueued]; rfl⟩
  | k + 2, ⟨hnext, hqueued, _⟩ =>
    exact ⟨hn.trans hnext, by rw [hq, hnext]; rfl, by rw [he, hqueued]; rfl⟩

omit [DecidableEq Acc] in
theorem Pipeline.sameSession {s s' : Pallet AuthId Acc} {k : Nat}
    (h : Pipeline x queued emergency s k) (hsame : SameSession s s')
    (hnext : s'.nextEmergencyFinalizer = s.nextEmergencyFinalizer) :
    Pipeline x queued emergency s' k := by
  match k, h with
  | 0, ⟨h1, h2, h3⟩ =>
    exact ⟨hnext.trans h1, hsame.queuedEmergencyFinalizer.trans h2,
      hsame.emergencyFinalizer.trans h3⟩
  | 1, ⟨h1, h2, h3⟩ =>
    exact ⟨hnext.trans h1, hsame.queuedEmergencyFinalizer.trans h2,
      hsame.emergencyFinalizer.trans h3⟩
  | k + 2, ⟨h1, h2, h3⟩ =>
    exact ⟨hnext.trans h1, hsame.queuedEmergencyFinalizer.trans h2,
      hsame.emergencyFinalizer.trans h3⟩

/-- Over calls that set no other emergency finalizer, the stage is the number of rotations. -/
theorem Pipeline.run {calls : List (AlephCall AuthId Acc)}
    (hcalls : ∀ call ∈ calls, call.setsEmergencyFinalizer = false) :
    ∀ (s : Pallet AuthId Acc) (k : Nat), Pipeline x queued emergency s k →
      s.currentSession ≤ (s.run calls).currentSession ∧
        Pipeline x queued emergency (s.run calls)
          (k + ((s.run calls).currentSession - s.currentSession)) := by
  induction calls with
  | nil => intro s k h; exact ⟨Nat.le_refl _, by simpa [Pallet.run] using h⟩
  | cons call calls ih =>
    intro s k h
    have hrest := fun c hc => hcalls c (List.mem_cons_of_mem call hc)
    cases hwithin : call.withinSession with
    | true =>
      obtain ⟨hsame, hnext⟩ := sameSession_step (s := s) call hwithin
      obtain ⟨hle, hp⟩ := ih hrest _ k (h.sameSession hsame (hnext (hcalls call List.mem_cons_self)))
      simp only [Pallet.run]
      rw [hsame.currentSession] at hle hp
      exact ⟨hle, hp⟩
    | false =>
      cases call with
      | setEmergencyFinalizer e => simp [AlephCall.withinSession] at hwithin
      | scheduleFinalityVersionChange v n => simp [AlephCall.withinSession] at hwithin
      | rotateSession finalityCommittee changed queuedValidators =>
        have hcur := (rotateSession_fields s finalityCommittee changed queuedValidators).2.2.2
        obtain ⟨hle, hp⟩ := ih hrest _ (k + 1)
          (h.rotateSession finalityCommittee changed queuedValidators)
        simp only [Pallet.run, step]
        rw [hcur] at hle hp
        refine ⟨by omega, ?_⟩
        have hk : k + 1 + (((s.rotateSession finalityCommittee changed queuedValidators).run
            calls).currentSession - (s.currentSession + 1)) =
            k + (((s.rotateSession finalityCommittee changed queuedValidators).run
            calls).currentSession - s.currentSession) := by omega
        rw [← hk]
        exact hp

/-- Set in session 0, the emergency finalizer is queued in session 1 and current in session 2. -/
example :
    ((((genesis 1 [(1, 10)] : Pallet Nat Nat).step (.setEmergencyFinalizer 7)).step
        (.rotateSession none true [(1, 10)])).emergencyFinalizer = none) ∧
    ((((genesis 1 [(1, 10)] : Pallet Nat Nat).step (.setEmergencyFinalizer 7)).step
        (.rotateSession none true [(1, 10)])).step
        (.rotateSession none true [(1, 10)])).emergencyFinalizer = some 7 := by
  decide

end Pipeline

/-! ## What the runtime reports about the next session -/

/-- Over every run from genesis: no call within a session changes what the runtime reports;
after a rotation with a changed validator set, and any calls of the new session, its authority
data and finality version are what was reported for it; and an emergency finalizer set in a
session is the current one from two sessions on, the queued one of then in the session between,
while no other is set. -/
theorem aleph_reports_next_session (finalityVersion : Nat) (validators : List (Acc × AuthId))
    (calls : List (AlephCall AuthId Acc)) :
    (∀ more : List (AlephCall AuthId Acc), (∀ call ∈ more, call.withinSession = true) →
      (((genesis finalityVersion validators).run calls).run more).nextSessionAuthorityData =
          ((genesis finalityVersion validators).run calls).nextSessionAuthorityData ∧
        (((genesis finalityVersion validators).run calls).run more).authorityData =
          ((genesis finalityVersion validators).run calls).authorityData ∧
        (((genesis finalityVersion validators).run calls).run more).finalityVersion =
          ((genesis finalityVersion validators).run calls).finalityVersion) ∧
    (∀ (finalityCommittee : Option (List Acc)) (queuedValidators : List (Acc × AuthId))
        (more : List (AlephCall AuthId Acc)), (∀ call ∈ more, call.withinSession = true) →
      (∀ d, ((genesis finalityVersion validators).run calls).nextSessionAuthorityData = .ok d →
        ((((genesis finalityVersion validators).run calls).rotateSession finalityCommittee true
          queuedValidators).run more).authorityData = d) ∧
      ((((genesis finalityVersion validators).run calls).rotateSession finalityCommittee true
          queuedValidators).run more).finalityVersion =
        ((genesis finalityVersion validators).run calls).nextSessionFinalityVersion) ∧
    (∀ (x : AuthId) (more : List (AlephCall AuthId Acc)),
      (∀ call ∈ more, call.setsEmergencyFinalizer = false) →
      (((genesis finalityVersion validators).run calls).currentSession + 2 ≤
          ((((genesis finalityVersion validators).run calls).step (.setEmergencyFinalizer x)).run
            more).currentSession →
        ((((genesis finalityVersion validators).run calls).step (.setEmergencyFinalizer x)).run
          more).emergencyFinalizer = some x) ∧
      (((((genesis finalityVersion validators).run calls).step (.setEmergencyFinalizer x)).run
          more).currentSession = ((genesis finalityVersion validators).run calls).currentSession + 1 →
        ((((genesis finalityVersion validators).run calls).step (.setEmergencyFinalizer x)).run
          more).emergencyFinalizer =
          ((genesis finalityVersion validators).run calls).queuedEmergencyFinalizer)) := by
  set s := (genesis finalityVersion validators).run calls with hs
  have hinv : s.Inv := (inv_genesis finalityVersion validators).run calls
  refine ⟨fun more hmore => (sameSession_run hmore).reports, ?_, ?_⟩
  · intro finalityCommittee queuedValidators more hmore
    have hsame := (sameSession_run (s := s.rotateSession finalityCommittee true queuedValidators)
      hmore).reports
    refine ⟨fun d hd => ?_, ?_⟩
    · rw [hsame.2.1, rotateSession_authorityData hinv, nextSessionAuthorityData_eq_ok hd]
    · rw [hsame.2.2, rotateSession_finalityVersion]
  · intro x more hmore
    -- setting `x` starts the pipeline at stage zero, in the same session
    have hstart : Pipeline x s.queuedEmergencyFinalizer s.emergencyFinalizer
        (s.step (.setEmergencyFinalizer x)) 0 := ⟨rfl, rfl, rfl⟩
    obtain ⟨-, hp⟩ := Pipeline.run hmore _ 0 hstart
    have hcur : (s.step (.setEmergencyFinalizer x)).currentSession = s.currentSession := rfl
    rw [hcur, Nat.zero_add] at hp
    refine ⟨fun hle => ?_, fun heq => ?_⟩
    · obtain ⟨n, hn⟩ : ∃ n, ((s.step (.setEmergencyFinalizer x)).run more).currentSession -
          s.currentSession = n + 2 := ⟨_, (Nat.sub_add_cancel (by omega)).symm⟩
      rw [hn] at hp
      exact hp.2.2
    · rw [heq, Nat.add_sub_cancel_left] at hp
      rw [hp.2.2]
      -- the queued one was set, or none is current either
      cases hq : s.queuedEmergencyFinalizer with
      | some e => rfl
      | none =>
        cases he : s.emergencyFinalizer with
        | none => rfl
        | some e => simpa [hq] using hinv.emergency (by simp [he])

end Pallet

end Selendra.Aleph
